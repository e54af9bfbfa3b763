import CrickerOs.Library.Runs
import CrickerOs.Library.Carving
import CrickerOs.Regions.Table

/-! The region table under any interleaving of its callers. Each call is one step, since the table is only
touched under its lock; a caller of `destroy` holds a claim from the call that issued it to the call that
spends it. -/

namespace CrickerOs.Regions

open Library Slots

variable {N : ℕ}

def Region.run (r : Region) : Span :=
  ⟨r.basePage, r.pages⟩

def Region.spent (r : Region) : Span :=
  ⟨r.basePage, r.watermark⟩

def DestroyClaim.run (c : DestroyClaim) : Span :=
  ⟨c.basePage, c.pages⟩

structure Flight where
  claim : DestroyClaim
  name : ℕ
  serial : ℕ
  ancestors : List ℕ
  deriving DecidableEq, Repr

/-- The table and the claims in flight. The rest is history, which no operation reads. -/
structure State (N : ℕ) where
  table : RegionTable N
  flights : List Flight
  own : ℕ → List ℕ
  serialOf : ℕ → ℕ
  ancestorsOf : ℕ → List ℕ
  clock : ℕ
  claimed : List ℕ
  freed : List Flight

def State.init (bounded : 0 < N ∧ N ≤ 2 ^ 32 - 1) : State N where
  table := Table.new bounded
  flights := []
  own := fun _ => []
  serialOf := fun _ => 0
  ancestorsOf := fun _ => []
  clock := 0
  claimed := []
  freed := []

inductive Action
  | insertRoot (basePage pages : ℕ)
  | split (parent pages : ℕ)
  | retypePage (name : ℕ)
  | retypeObjectPage (name : ℕ)
  | unpin (name : ℕ)
  | claimForDestroy (name : ℕ)
  | returnToParent (f : Flight)
  | freeRun (f : Flight)
  deriving DecidableEq, Repr

namespace State

def RootsApart (s : State N) (run : Span) : Prop :=
  (∀ r ∈ s.table.values, r.isRoot → run.Apart r.run) ∧ ∀ f ∈ s.flights, f.claim.isRoot → run.Apart f.claim.run

instance (s : State N) (run : Span) : Decidable (s.RootsApart run) :=
  inferInstanceAs (Decidable (_ ∧ _))

def Allocated (s : State N) (basePage pages : ℕ) : Prop :=
  basePage < 2 ^ 64 ∧ pages < 2 ^ 64 ∧ basePage + pages ≤ 2 ^ 64 ∧ s.RootsApart ⟨basePage, pages⟩

instance (s : State N) (basePage pages : ℕ) : Decidable (s.Allocated basePage pages) :=
  inferInstanceAs (Decidable (_ ∧ _))

def born (s : State N) (name : ℕ) (table : RegionTable N) (ancestors : List ℕ) : State N :=
  { s with
    table
    own := Function.update s.own name []
    serialOf := Function.update s.serialOf name s.clock
    ancestorsOf := Function.update s.ancestorsOf name ancestors
    clock := s.clock + 1 }

def insertRoot (s : State N) (basePage pages : ℕ) : State N :=
  match s.table.insertRoot basePage pages with
  | none => s
  | some (name, table) => s.born name table []

def split (s : State N) (parent pages : ℕ) : State N :=
  match s.table.split parent pages with
  | (none, table) => { s with table }
  | (some name, table) => s.born name table (s.serialOf parent :: s.ancestorsOf parent)

def retype (pin : Bool) (s : State N) (name : ℕ) : State N :=
  match s.table.retype pin name with
  | none => s
  | some (page, table) => { s with table, own := Function.update s.own name (page :: s.own name) }

def flightOf (s : State N) (name : ℕ) (claim : DestroyClaim) : Flight :=
  { claim, name, serial := s.serialOf name, ancestors := s.ancestorsOf name }

def claimForDestroy (s : State N) (name : ℕ) : State N :=
  match s.table.claimForDestroy name with
  | none => s
  | some (claim, table) =>
    { s with
      table
      flights := s.flightOf name claim :: s.flights
      own := Function.update s.own name []
      claimed := name :: s.claimed }

def step (s : State N) : Action → Option (State N)
  | .insertRoot basePage pages => if s.Allocated basePage pages then some (s.insertRoot basePage pages) else none
  | .split parent pages => some (s.split parent pages)
  | .retypePage name => some (s.retype false name)
  | .retypeObjectPage name => some (s.retype true name)
  | .unpin name => some { s with table := s.table.unpin name }
  | .claimForDestroy name => some (s.claimForDestroy name)
  | .returnToParent f =>
    if f ∈ s.flights ∧ f.claim.isRoot = false then
      some { s with table := s.table.returnToParent f.claim, flights := s.flights.erase f }
    else none
  | .freeRun f =>
    if f ∈ s.flights ∧ f.claim.isRoot then
      some { s with flights := s.flights.erase f, freed := f :: s.freed }
    else none

def CountFits (s : State N) (parent : ℕ) : Prop :=
  ∀ p ∈ s.table.get parent, p.children + 1 < 2 ^ 32

instance (s : State N) (parent : ℕ) : Decidable (s.CountFits parent) :=
  inferInstanceAs (Decidable (∀ p ∈ s.table.get parent, p.children + 1 < 2 ^ 32))

def Fits (s : State N) : Action → Prop
  | .split parent _ => s.CountFits parent
  | _ => True

instance (s : State N) : (a : Action) → Decidable (s.Fits a)
  | .split parent _ => inferInstanceAs (Decidable (s.CountFits parent))
  | .insertRoot _ _ | .retypePage _ | .retypeObjectPage _ | .unpin _ | .claimForDestroy _ | .returnToParent _
  | .freeRun _ => isTrue trivial

def Unwrapped (s : State N) (a : Action) : Prop :=
  s.Fits a ∧ ∀ name, a = .claimForDestroy name → (Table.unpack name).2 + 1 < 2 ^ 32

instance (s : State N) : (a : Action) → Decidable (s.Unwrapped a)
  | .claimForDestroy name =>
    decidable_of_iff ((Table.unpack name).2 + 1 < 2 ^ 32) (by simp [Unwrapped, Fits])
  | .split parent pages => decidable_of_iff (s.Fits (.split parent pages)) (by simp [Unwrapped])
  | .insertRoot _ _ | .retypePage _ | .retypeObjectPage _ | .unpin _ | .returnToParent _ | .freeRun _ =>
    isTrue (by simp [Unwrapped, Fits])

end State

inductive Use
  | page (owner page : ℕ)
  | region (name : ℕ)
  | claim (f : Flight)
  deriving DecidableEq, Repr

namespace State

def carving (s : State N) : Carving Use ℕ where
  items
    | .page owner page => if (s.table.get owner).isSome ∧ page ∈ s.own owner then some (owner, ⟨page, 1⟩) else none
    | .region name => (s.table.get name).map fun r => (r.parent, r.run)
    | .claim f => if f ∈ s.flights then some (f.claim.parent, f.claim.run) else none
  spent name := (s.table.get name).map Region.spent

end State

end CrickerOs.Regions
