import CrickerOs.Library.Bytes

namespace CrickerOs

namespace Dtb

open Library Library.Outcome Library.Bytes

structure Region where
  start : ℕ
  size : ℕ
  deriving DecidableEq

inductive Error
  | badMagic (magic : ℕ)
  | unsupportedVersion (version : ℕ)
  | truncated
  | badToken (token : ℕ)
  | tooManyRegions
  | regionOverflow
  deriving DecidableEq

def fdtBeginNode : ℕ := 0x1
def fdtEndNode : ℕ := 0x2
def fdtProp : ℕ := 0x3
def fdtNop : ℕ := 0x4
def fdtEnd : ℕ := 0x9

def magic : ℕ := 0xd00dfeed
def headerLen : ℕ := 40

def word (n : ℕ) (bytes : Bytes) (pos : ℕ) : Outcome Error ℕ := do
  ensure (pos + n < 2 ^ 64) .truncated
  ensure (pos + n ≤ bytes.length) .truncated
  pure (beVal (window bytes pos n))

def be32 : Bytes → ℕ → Outcome Error ℕ := word 4
def be64 : Bytes → ℕ → Outcome Error ℕ := word 8

def align4 (n : ℕ) : Outcome Error ℕ := mul 64 ((n + 3) / 4) 4

def ascii (s : String) : Bytes := s.toList.map fun c => UInt8.ofNat c.toNat

end Dtb

structure Dtb where
  bytes : Library.Bytes
  offStruct : ℕ
  offStrings : ℕ
  offRsvmap : ℕ
  deriving DecidableEq

namespace Dtb

open Library Library.Outcome Library.Bytes

def fromBytes (bytes : Bytes) : Outcome Error Dtb := do
  let m ← be32 bytes 0
  ensure (m = magic) (.badMagic m)
  let total ← be32 bytes 4
  ensure (total ≤ bytes.length ∧ headerLen ≤ total) .truncated
  let lastCompVersion ← be32 bytes 24
  ensure (lastCompVersion ≤ 17) (.unsupportedVersion lastCompVersion)
  let offStruct ← be32 bytes 8
  let offStrings ← be32 bytes 12
  let offRsvmap ← be32 bytes 16
  let blob ← slice bytes 0 total
  ensure (offStruct < total ∧ offStrings < total ∧ offRsvmap < total) .truncated
  pure ⟨blob, offStruct, offStrings, offRsvmap⟩

variable (dtb : Dtb)

def reservedFrom (cap : ℕ) : (fuel pos : ℕ) → (out : List Region) → Outcome Error (List Region)
  | 0, _, _ => .panic
  | fuel + 1, pos, out => do
      let start ← be64 dtb.bytes pos
      let second ← add 64 pos 8
      let size ← be64 dtb.bytes second
      let next ← add 64 pos 16
      if start = 0 ∧ size = 0 then pure out
      else do
        ensure (out.length < cap) .tooManyRegions
        reservedFrom cap fuel next (out ++ [⟨start, size⟩])

def reservedRegions (cap : ℕ) : Outcome Error (List Region) :=
  dtb.reservedFrom cap (dtb.bytes.length + 1) dtb.offRsvmap []

def cstr (pos : ℕ) : Outcome Error Bytes := do
  ensure (pos ≤ dtb.bytes.length) .truncated
  let rest := dtb.bytes.drop pos
  let last ← okOr .truncated (rest.findIdx? (· = 0))
  pure (rest.take last)

def propName (nameOff : ℕ) : Outcome Error Bytes := do
  let pos ← add 64 dtb.offStrings nameOff
  dtb.cstr pos

def value (pos len : ℕ) : Outcome Error Bytes := do
  let last ← add 64 pos len
  ensure (last ≤ dtb.bytes.length) .truncated
  pure (window dtb.bytes pos len)

def int (pos len : ℕ) : Outcome Error ℕ :=
  if len = 4 then be32 dtb.bytes pos
  else if len = 8 then be64 dtb.bytes pos
  else .error .truncated

def cellsFrom (pos : ℕ) : (left i value : ℕ) → Outcome Error ℕ
  | 0, _, value => pure value
  | left + 1, i, value => do
      let offset ← mul 64 i 4
      let cell ← add 64 pos offset
      let w ← be32 dtb.bytes cell
      cellsFrom pos left (i + 1) ((value <<< 32) % 2 ^ 64 ||| w)

def cells (pos count : ℕ) : Outcome Error ℕ := dtb.cellsFrom pos count 0 0

structure Cells where
  address : ℕ
  size : ℕ
  deriving DecidableEq

def decodeFrom (c : Cells) (cap pairBytes last : ℕ) : (fuel cursor : ℕ) → (out : List Region) →
    Outcome Error (List Region)
  | 0, _, _ => .panic
  | fuel + 1, cursor, out => do
      let next ← add 64 cursor pairBytes
      if next ≤ last then do
        let start ← dtb.cells cursor c.address
        let width ← mul 64 c.address 4
        let second ← add 64 cursor width
        let size ← dtb.cells second c.size
        if size = 0 then decodeFrom c cap pairBytes last fuel next out
        else do
          ensure (start + size < 2 ^ 64) .regionOverflow
          ensure (out.length < cap) .tooManyRegions
          decodeFrom c cap pairBytes last fuel next (out ++ [⟨start, size⟩])
      else pure out

def decodeReg (pos len : ℕ) (c : Cells) (cap : ℕ) : Outcome Error (List Region) := do
  let both ← add 64 c.address c.size
  let pairBytes ← mul 64 both 4
  if pairBytes = 0 then pure []
  else do
    let last ← add 64 pos len
    dtb.decodeFrom c cap pairBytes last (len + 1) pos []

end Dtb

end CrickerOs
