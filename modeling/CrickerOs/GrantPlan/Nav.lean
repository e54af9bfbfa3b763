import CrickerOs.GrantPlan.Word

namespace CrickerOs.GrantPlan.Nav

open Library

def maxDepth : ℕ := 8

inductive Refused
  | notAName
  | tooDeep
  | atYourRoot
  deriving DecidableEq

def ComponentFits (part : Bytes) : Prop := FileNameFits part ∧ 0x3a ∉ part ∧ 0 ∉ part

instance : DecidablePred ComponentFits := fun _ => inferInstanceAs (Decidable (_ ∧ _))

inductive Step
  | down (name : Bytes)
  | up
  deriving DecidableEq

structure Path where
  steps : List Step
  fromRoot : Bool
  deriving DecidableEq

def Path.splitLastComponent (p : Path) : Option (List Step × Bytes) :=
  match p.steps.getLast? with
  | some (.down name) => some (p.steps.dropLast, name)
  | _ => none

def pathFrom : (parts : List Bytes) → (steps : List Step) → Except Refused (List Step)
  | [], steps => .ok steps
  | part :: parts, steps =>
    if part = [] ∨ part = [dot] then pathFrom parts steps
    else if steps.length = maxDepth then .error .tooDeep
    else if part = [dot, dot] then pathFrom parts (steps ++ [.up])
    else if ComponentFits part then pathFrom parts (steps ++ [.down part])
    else .error .notAName

def path (token : Bytes) : Except Refused Path :=
  let fromRoot : Bool := token.head? = some slash
  if token = [] then .error .notAName
  else do
    let steps ← pathFrom (token.splitOn slash) []
    if steps = [] ∧ !fromRoot then .error .notAName else .ok ⟨steps, fromRoot⟩

structure Cwd where
  names : List Bytes
  depth_le : names.length ≤ maxDepth
  fits : ∀ name ∈ names, ComponentFits name

namespace Cwd

def root : Cwd := ⟨[], Nat.zero_le _, fun _ h => (nomatch h)⟩

def descend (cwd : Cwd) (name : Bytes) : Option Cwd :=
  if h : cwd.names.length < maxDepth ∧ ComponentFits name then
    some ⟨cwd.names ++ [name], by
      rw [List.length_append, List.length_singleton]
      exact h.1, fun n hn => by
      rcases List.mem_append.mp hn with hn | hn
      · exact cwd.fits n hn
      · rw [List.mem_singleton.mp hn]
        exact h.2⟩
  else none

def ascend (cwd : Cwd) : Option Cwd :=
  if cwd.names = [] then none
  else some ⟨cwd.names.dropLast, by
    rw [List.length_dropLast]
    exact (Nat.sub_le _ _).trans cwd.depth_le, fun n hn => cwd.fits n (List.dropLast_subset _ hn)⟩

def applyStep (cwd : Cwd) : Step → Except Refused Cwd
  | .up =>
    match cwd.ascend with
    | some next => .ok next
    | none => .error .atYourRoot
  | .down name =>
    if ComponentFits name then
      match cwd.descend name with
      | some next => .ok next
      | none => .error .tooDeep
    else .error .notAName

def apply (cwd : Cwd) (steps : List Step) : Except Refused Cwd := steps.foldlM applyStep cwd

end Cwd

def lexical : (names : List Bytes) → List Step → Option (List Bytes)
  | names, [] => some names
  | names, .down name :: steps => lexical (names ++ [name]) steps
  | names, .up :: steps => if names = [] then none else lexical names.dropLast steps

lemma lexical_of_apply {cwd next : Cwd} {steps : List Step} (h : cwd.apply steps = .ok next) :
    lexical cwd.names steps = some next.names := by
  induction steps generalizing cwd with
  | nil =>
    cases h
    rfl
  | cons step steps ih =>
    rw [Cwd.apply, List.foldlM_cons] at h
    cases step with
    | up =>
      rw [Cwd.applyStep, Cwd.ascend] at h
      rw [lexical]
      split_ifs at h ⊢
      · exact nomatch h
      · exact ih h
    | down name =>
      rw [Cwd.applyStep, Cwd.descend] at h
      rw [lexical]
      split_ifs at h
      · exact ih h
      · exact nomatch h
      · exact nomatch h

end CrickerOs.GrantPlan.Nav
