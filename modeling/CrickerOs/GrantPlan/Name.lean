import CrickerOs.Library.Bytes

namespace CrickerOs.GrantPlan

open Library

def maxFileName : ℕ := 16

def slash : UInt8 := '/'.toUInt8
def backslash : UInt8 := '\\'.toUInt8
def dot : UInt8 := '.'.toUInt8

def FileNameFits (name : Bytes) : Prop :=
  name ≠ [] ∧ name.length ≤ maxFileName ∧ name ≠ [dot] ∧ name ≠ [dot, dot] ∧ slash ∉ name ∧ backslash ∉ name

instance : DecidablePred FileNameFits := fun _ => inferInstanceAs (Decidable (_ ∧ _))

abbrev Name := { bytes : Bytes // FileNameFits bytes }

instance : Finite Name := by
  refine Set.Finite.subset (List.finite_length_le UInt8 maxFileName) fun name hname => ?_
  exact hname.2.1

inductive CapKind
  | file
  deriving DecidableEq

inductive Refusal
  | noSuchProgram
  | noSuchCapability (kind : CapKind)
  | fileForbidden
  | fileRequired
  | pathRequired
  | noSuchOption
  | fileNotNameable
  | memForbidden
  | memRequired
  | memOutOfRange (min max : ℕ)
  | argRequired
  | argForbidden
  | noMatch
  | tooManyNames
  | matchNotNameable
  | patternInPath
  | unexpanded
  | ambiguousFile
  | noRedirectTarget
  | redirectRepeated
  | redirectMidPipeline
  | wordAfterRedirect
  | emptyStage
  | tooManyStages
  | patternInRedirect
  | notAByteStream
  | noDiagnosticStream
  | inputForbidden
  | inputRequired
  | noReaderButThisShell
  | notAPipelineStage
  | unexpected
  | unclosedQuote
  | partlyQuoted
  | emptySegment
  | tooManySegments
  deriving DecidableEq

instance byteOrder : LinearOrder UInt8 where
  le_refl := UInt8.le_refl
  le_trans _ _ _ := UInt8.le_trans
  le_antisymm _ _ := UInt8.le_antisymm
  le_total := UInt8.le_total
  lt_iff_le_not_ge a b := by
    rw [UInt8.lt_iff_toNat_lt, UInt8.le_iff_toNat_le, UInt8.le_iff_toNat_le]
    exact Nat.lt_iff_le_and_not_ge
  toDecidableLE := inferInstance
  toDecidableEq := inferInstance
  toDecidableLT := inferInstance

end CrickerOs.GrantPlan
