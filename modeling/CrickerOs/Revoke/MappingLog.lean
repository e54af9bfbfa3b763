import Mathlib

/-! The log of mappings. Each registered address space has a chain of pages of records, where a record of frame 0
is a tombstone. The chain is kept as the list of its pages, the newest first, and a page as its entries below the
high-water mark. What the log is for is a multiset of records for every space. -/

namespace CrickerOs.Revoke

open List

structure LogEntry where
  phys : ℕ
  va : ℕ
  deriving DecidableEq

def LOG_ENTRIES : ℕ := 255

structure LogPage where
  entries : List LogEntry
  used : entries.length ≤ LOG_ENTRIES

structure SpaceLog where
  root : ℕ
  region : ℕ
  pages : List LogPage

structure World where
  spaces : List (Option SpaceLog)
  unmapped : List (ℕ × ℕ)

def fill (e : LogEntry) : List LogEntry → Option (List LogEntry)
  | [] => none
  | x :: xs => if x.phys = 0 then some (e :: xs) else (fill e xs).map (x :: ·)

variable {e : LogEntry}

lemma length_fill {l l' : List LogEntry} (h : fill e l = some l') : l'.length = l.length := by
  induction l generalizing l' with
  | nil => cases h
  | cons x xs ih =>
    rw [fill] at h
    split_ifs at h
    · cases h
      rfl
    · obtain ⟨ys, hys, rfl⟩ := Option.map_eq_some_iff.mp h
      rw [length_cons, length_cons, ih hys]

def LogPage.store (e : LogEntry) (page : LogPage) : Option LogPage :=
  match h : fill e page.entries with
  | some l => some ⟨l, (length_fill h).trans_le page.used⟩
  | none => if hroom : page.entries.length < LOG_ENTRIES then
      some ⟨page.entries ++ [e], by rw [List.length_append]; exact hroom⟩ else none

def storeIn (e : LogEntry) : List LogPage → Option (List LogPage)
  | [] => none
  | page :: older =>
    match page.store e with
    | some page' => some (page' :: older)
    | none => (storeIn e older).map (page :: ·)

def SpaceLog.record (e : LogEntry) (fresh : Bool) (s : SpaceLog) : Option SpaceLog :=
  match storeIn e s.pages with
  | some pages => some { s with pages := pages }
  | none => if fresh then some { s with pages := ⟨[e], by simp [LOG_ENTRIES]⟩ :: s.pages } else none

def amend (root : ℕ) (f : SpaceLog → Option SpaceLog) : List (Option SpaceLog) → Option (List (Option SpaceLog))
  | [] => none
  | none :: rest => (amend root f rest).map (none :: ·)
  | some s :: rest =>
    if s.root = root then (f s).map fun s' => some s' :: rest else (amend root f rest).map (some s :: ·)

def recordMapping (phys root va : ℕ) (fresh : Bool) (w : World) : Bool × World :=
  match amend root (SpaceLog.record ⟨phys, va⟩ fresh) w.spaces with
  | some spaces => (true, { w with spaces := spaces })
  | none => (false, w)

def fillSlot (s : SpaceLog) : List (Option SpaceLog) → Option (List (Option SpaceLog))
  | [] => none
  | none :: rest => some (some s :: rest)
  | some s' :: rest => (fillSlot s rest).map (some s' :: ·)

def registerSpace (root region : ℕ) (w : World) : Bool × World :=
  match fillSlot ⟨root, region, []⟩ w.spaces with
  | some spaces => (true, { w with spaces := spaces })
  | none => (false, w)

def forgetRoot (root : ℕ) (w : World) : World :=
  { w with spaces := w.spaces.map fun slot => if slot.any fun s => s.root = root then none else slot }

def LogEntry.tombstone (phys : ℕ) (e : LogEntry) : LogEntry := if e.phys = phys then { e with phys := 0 } else e

def LogPage.tombstone (phys : ℕ) (page : LogPage) : LogPage :=
  ⟨page.entries.map (LogEntry.tombstone phys), by rw [List.length_map]; exact page.used⟩

def SpaceLog.entries (s : SpaceLog) : List LogEntry := s.pages.flatMap LogPage.entries

def SpaceLog.victims (phys : ℕ) (s : SpaceLog) : List (ℕ × ℕ) :=
  (s.entries.filter fun e => e.phys = phys).map fun e => (s.root, e.va)

def unmapEverywhere (phys spare : ℕ) (w : World) : World where
  spaces := w.spaces.map (Option.map fun s =>
    if s.root = spare then s else { s with pages := s.pages.map (LogPage.tombstone phys) })
  unmapped := w.unmapped ++ w.spaces.flatMap fun slot =>
    slot.elim [] fun s => if s.root = spare then [] else s.victims phys

def revokeFrame (phys : ℕ) (w : World) : World := unmapEverywhere phys 0 w

def scan (base size : ℕ) : List LogEntry → Option (Option ℕ)
  | [] => some none
  | e :: rest =>
    if e.phys < base then scan base size rest
    else if base + size < 2 ^ 64 then if e.phys < base + size then some (some e.phys) else scan base size rest
    else none

def World.entries (w : World) : List LogEntry := w.spaces.flatMap fun slot => slot.elim [] SpaceLog.entries

def revokePasses (base size : ℕ) : (fuel : ℕ) → World → Option World
  | 0, _ => none
  | fuel + 1, w => do
      match ← scan base size w.entries with
      | some phys => revokePasses base size fuel (revokeFrame phys w)
      | none => some w

def revokeRegion (base size : ℕ) (w : World) : Option World := revokePasses base size (w.entries.length + 1) w

structure Spec where
  spaces : List (Option (ℕ × Multiset (ℕ × ℕ)))
  unmapped : Multiset (ℕ × ℕ)

namespace Spec

def add (root : ℕ) (r : ℕ × ℕ) : List (Option (ℕ × Multiset (ℕ × ℕ))) →
    Option (List (Option (ℕ × Multiset (ℕ × ℕ))))
  | [] => none
  | none :: rest => (add root r rest).map (none :: ·)
  | some s :: rest =>
    if s.1 = root then some (some (s.1, r ::ₘ s.2) :: rest) else (add root r rest).map (some s :: ·)

def enter (root : ℕ) : List (Option (ℕ × Multiset (ℕ × ℕ))) → Option (List (Option (ℕ × Multiset (ℕ × ℕ))))
  | [] => none
  | none :: rest => some (some (root, 0) :: rest)
  | some s :: rest => (enter root rest).map (some s :: ·)

def revoke (frames : ℕ → Prop) [DecidablePred frames] (a : Spec) : Spec where
  spaces := a.spaces.map (Option.map fun s => (s.1, s.2.filter fun r => ¬ frames r.1))
  unmapped := a.unmapped + (a.spaces.map fun slot =>
    slot.elim 0 fun s => (s.2.filter fun r => frames r.1).map fun r => (s.1, r.2)).sum

end Spec

inductive Op
  | register (root region : ℕ)
  | forget (root : ℕ)
  | record (phys root va : ℕ) (fresh : Bool)
  | revokeFrame (phys : ℕ)
  | revokeRegion (base size : ℕ)

def Op.step : Op → World → Option (Bool × World)
  | register root region, w => some (registerSpace root region w)
  | forget root, w => some (true, forgetRoot root w)
  | record phys root va fresh, w => some (recordMapping phys root va fresh w)
  | revokeFrame phys, w => some (true, Revoke.revokeFrame phys w)
  | revokeRegion base size, w => (Revoke.revokeRegion base size w).map fun w' => (true, w')

def Op.run : List Op → World → Option (List Bool × World)
  | [], w => some ([], w)
  | op :: ops, w => do
      let (answer, w) ← op.step w
      let (answers, w) ← run ops w
      pure (answer :: answers, w)

def Spec.step (a : Spec) : Op → (answer : Bool) → Option Spec
  | .register root _, true => (enter root a.spaces).map fun spaces => { a with spaces := spaces }
  | .register root _, false => if (enter root a.spaces).isSome then none else some a
  | .record phys root va _, true => (add root (phys, va) a.spaces).map fun spaces => { a with spaces := spaces }
  | .record phys root va fresh, false => if fresh ∧ (add root (phys, va) a.spaces).isSome then none else some a
  | .forget root, _ =>
    some { a with spaces := a.spaces.map fun slot => if slot.any fun s => s.1 = root then none else slot }
  | .revokeFrame phys, _ => some (a.revoke fun p => p = phys)
  | .revokeRegion base size, _ => some (a.revoke fun p => base ≤ p ∧ p < base + size)

def Spec.run : List Op → (answers : List Bool) → Spec → Option Spec
  | [], [], a => some a
  | op :: ops, answer :: answers, a => a.step op answer >>= run ops answers
  | _, _, _ => none

section

def live (l : List LogEntry) : Multiset (ℕ × ℕ) := ((l.filter fun e => e.phys ≠ 0).map fun e =>
    (e.phys, e.va) : List _)

def SpaceLog.abs (s : SpaceLog) : ℕ × Multiset (ℕ × ℕ) := (s.root, live s.entries)

def World.abs (w : World) : Spec := ⟨w.spaces.map (Option.map SpaceLog.abs), w.unmapped⟩

@[simp] lemma abs_fst (s : SpaceLog) : s.abs.1 = s.root := rfl

@[simp] lemma abs_snd (s : SpaceLog) : s.abs.2 = live s.entries := rfl

variable {e : LogEntry}

end

variable {l l' : List (Option SpaceLog)}

variable {fresh : Bool}

variable {root : ℕ}

lemma enter_eq (root region : ℕ) (l : List (Option SpaceLog)) :
    Spec.enter root (l.map (Option.map SpaceLog.abs)) =
      (fillSlot ⟨root, region, []⟩ l).map (map (Option.map SpaceLog.abs)) := by
  induction l with
  | nil => rfl
  | cons slot rest ih =>
    cases slot with
    | none => rfl
    | some s => simp [Spec.enter, fillSlot, ih, Function.comp_def]

section

variable {phys base size : ℕ}

variable {w : World}

lemma scan_eq (h : base + size < 2 ^ 64) (l : List LogEntry) :
    scan base size l = some ((l.find? fun e => base ≤ e.phys ∧ e.phys < base + size).map LogEntry.phys) := by
  induction l with
  | nil => rfl
  | cons e l ih =>
    rw [scan, find?_cons, if_pos h]
    by_cases hlow : e.phys < base
    · simp [hlow, ih, Nat.not_le.mpr hlow]
    · by_cases hhigh : e.phys < base + size
      · simp [hlow, hhigh, Nat.not_lt.mp hlow]
      · simp [hlow, hhigh, ih]

variable {P : ℕ → Prop}

end

variable {w : World}

end CrickerOs.Revoke
