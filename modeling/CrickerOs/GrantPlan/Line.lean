import CrickerOs.GrantPlan.Plan

namespace CrickerOs.GrantPlan

open Library Library.Outcome

def maxStages : ℕ := 4

def pipeByte : UInt8 := 0x7c
def lessByte : UInt8 := 0x3c
def greaterByte : UInt8 := 0x3e
def twoByte : UInt8 := 0x32

def isOp (b : UInt8) : Bool := b = pipeByte ∨ b = lessByte ∨ b = greaterByte

def isDiagOp (before : Option UInt8) (l : Bytes) : Bool :=
  [twoByte, greaterByte].isPrefixOf l ∧ before.all isAsciiWhitespace

inductive Which
  | input
  | output
  | diagnostics
  deriving DecidableEq

def operator (l : Bytes) : Option (Which × Bool × Bytes) :=
  if [lessByte].isPrefixOf l then some (.input, false, l.drop 1)
  else if [greaterByte, greaterByte].isPrefixOf l then some (.output, true, l.drop 2)
  else if [greaterByte].isPrefixOf l then some (.output, false, l.drop 1)
  else if [twoByte, greaterByte, greaterByte].isPrefixOf l then some (.diagnostics, true, l.drop 3)
  else if isDiagOp none l then some (.diagnostics, false, l.drop 2)
  else none

structure Stage where
  text : Bytes
  input : Option Word
  output : Option (Word × Bool)
  diagnostics : Option (Word × Bool)

namespace Stage

def redirect (stage : Stage) (which : Which) (append : Bool) (name : Word) : Outcome Refusal Stage :=
  match which with
  | .input => do
      ensure (stage.input = none) .redirectRepeated
      pure { stage with input := some name }
  | .output => do
      ensure (stage.output = none) .redirectRepeated
      pure { stage with output := some (name, append) }
  | .diagnostics => do
      ensure (stage.diagnostics = none) .redirectRepeated
      pure { stage with diagnostics := some (name, append) }

end Stage

def ofRead {α : Type} : Except Refusal α → Outcome Refusal α
  | .ok a => .ok a
  | .error r => .error r

def endsWords (before : Option UInt8) (l : Bytes) : Bool := l.head?.any isOp || isDiagOp before l

def redirections : (bytes : ℕ) → Stage → Bytes → Outcome Refusal (Stage × Bytes)
  | 0, _, _ => panic
  | bytes + 1, stage, l =>
    match operator l with
    | none => pure (stage, l)
    | some (which, append, l) => do
        let (token, l) := span (l.dropWhile isAsciiWhitespace) fun b => isAsciiWhitespace b || isOp b
        ensure (token ≠ []) .noRedirectTarget
        let name ← ofRead (read token)
        let stage ← stage.redirect which append name
        let l := l.dropWhile isAsciiWhitespace
        ensure (l = [] ∨ endsWords none l = true) .wordAfterRedirect
        redirections bytes stage l

def stagesFrom : (room : ℕ) → Bytes → Outcome Refusal (List Stage)
  | 0, _ => .error .tooManyStages
  | room + 1, l => do
      let (text, l, quote) := scan endsWords .bare none l
      ensure (quote.isOpen = false) .unclosedQuote
      let (stage, l) ← redirections (l.length + 1) ⟨trim text, none, none, none⟩ l
      match l with
      | [] => pure [stage]
      | b :: l =>
        if b = pipeByte then do
          let stages ← stagesFrom room l
          pure (stage :: stages)
        else panic

structure Line where
  stages : List Bytes
  input : Option Bytes
  output : Option Bytes
  diagnostics : Option Bytes
  append : Bool
  diagAppend : Bool
  deriving DecidableEq

namespace Line

def mode (line : Line) : Mode := if line.append then .append else .truncate

def diagnosticsMode (line : Line) : Mode := if line.diagAppend then .append else .truncate

def isPatternName (name : Option Word) : Bool := name.any fun w => !w.quoted && Glob.hasMagic w.text

def assemble (stages : List Stage) : Line where
  stages := stages.map (·.text)
  input := (stages.head?.bind (·.input)).map (·.text)
  output := (stages.getLast?.bind (·.output)).map (·.1.text)
  diagnostics := (stages.getLast?.bind (·.diagnostics)).map (·.1.text)
  append := (stages.getLast?.bind (·.output)).any (·.2)
  diagAppend := (stages.getLast?.bind (·.diagnostics)).any (·.2)

def split (line : Bytes) : Outcome Refusal Line := do
  let stages ← stagesFrom maxStages line
  ensure (stages.length ≤ 1 ∨ ∀ stage ∈ stages, stage.text ≠ []) .emptyStage
  ensure (∀ stage ∈ stages.tail, stage.input = none) .redirectMidPipeline
  ensure (∀ stage ∈ stages.dropLast, stage.output = none ∧ stage.diagnostics = none) .redirectMidPipeline
  ensure (isPatternName (stages.head?.bind (·.input)) = false ∧
    isPatternName ((stages.getLast?.bind (·.output)).map (·.1)) = false ∧
      isPatternName ((stages.getLast?.bind (·.diagnostics)).map (·.1)) = false) .patternInRedirect
  pure (assemble stages)

end Line

end CrickerOs.GrantPlan
