import CrickerOs.Glob.Matcher

namespace CrickerOs.Glob

def hasMagicFrom (pattern : List UInt8) : (fuel j : ℕ) → Bool
  | 0, _ => false
  | fuel + 1, j =>
    match decode pattern j 0 with
    | none => false
    | some (.byte _ next, _) => hasMagicFrom pattern fuel next
    | some _ => true

def hasMagic (pattern : List UInt8) : Bool := hasMagicFrom pattern (pattern.length + 1) 0

def isMagic (b : UInt8) : Bool := b = '*'.toUInt8 ∨ b = '?'.toUInt8 ∨ b = '['.toUInt8 ∨ b = slash

end CrickerOs.Glob
