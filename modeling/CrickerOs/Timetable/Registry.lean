import CrickerOs.GrantPlan.Plan

namespace CrickerOs.Timetable

open Library Library.Outcome GrantPlan List

inductive Schedule
  | atBoot
  | every (p : ℕ)
  deriving DecidableEq

structure Entry where
  line : ℕ
  schedule : Schedule
  command : Bytes

def maxEntries : ℕ := 8

structure Document where
  entries : List Entry
  length_le : entries.length ≤ maxEntries
  period_pos : ∀ entry ∈ entries, ∀ p, entry.schedule = .every p → 0 < p
  period_lt : ∀ entry ∈ entries, ∀ p, entry.schedule = .every p → p < 2 ^ 64

structure Held where
  memPages : ℕ
  clock : Bool
  domain : Bool
  dir : Bool
  interrupt : Bool

inductive Unbacked
  | file
  | directory
  | clock
  | domain
  | interrupt
  | memory
  deriving DecidableEq

inductive Admission
  | fires (e : Endowment)
  | refused (r : Refusal)
  | unbacked (u : Unbacked)

def never : ℕ := 2 ^ 64 - 1

def saturatingAdd (a b : ℕ) : ℕ := min (a + b) never

structure Row where
  entry : Entry
  admission : Admission
  next : ℕ

def unbacked (e : Endowment) (held : Held) : Option Unbacked :=
  if e.file.isSome ∧ held.dir = false then some .file
  else if e.dir.isSome ∧ held.dir = false then some .directory
  else if held.memPages < e.memPages then some .memory
  else if e.prog.manifest.clock ∧ held.clock = false then some .clock
  else if e.prog.manifest.domain ∧ held.domain = false then some .domain
  else if e.prog.manifest.interruptible ∧ held.interrupt = false then some .interrupt
  else none

def admitEntry (command : Bytes) (held : Held) : Outcome Empty Admission :=
  match plan (parseRun command) ⟨held.dir, .root⟩ .none with
  | .error r => pure (.refused r)
  | .ok e =>
    match unbacked e held with
    | some u => pure (.unbacked u)
    | none => pure (.fires e)
  | .panic => panic

def nextAfter (prev period now : ℕ) : ℕ :=
  if period = 0 then never
  else
    let first := saturatingAdd prev period
    if now < first then first else saturatingAdd (now - (now - prev) % period) period

namespace Row

def endowment (r : Row) : Option Endowment :=
  match r.admission with
  | .fires e => some e
  | _ => none

def nextFire (r : Row) : Option ℕ := if r.next ≠ never then some r.next else none

def arm (now : ℕ) (r : Row) : Row :=
  match r.endowment with
  | none => r
  | some _ =>
    { r with next := match r.entry.schedule with
                     | .atBoot => now
                     | .every p => saturatingAdd now p }

def advance (now : ℕ) (r : Row) : Row :=
  { r with next := match r.entry.schedule with
                   | .atBoot => never
                   | .every p => nextAfter r.next p now }

def settle (now : ℕ) (r : Row) : Row := if r.next ≤ now then r.advance now else r

end Row

abbrev Registry := List Row

namespace Registry

def registerFrom (held : Held) : List Entry → Outcome Empty Registry
  | [] => pure []
  | entry :: entries => do
      let admission ← admitEntry entry.command held
      let rows ← registerFrom held entries
      pure (⟨entry, admission, never⟩ :: rows)

def register (doc : Document) (held : Held) : Outcome Empty Registry := registerFrom held doc.entries

def arm (now : ℕ) (reg : Registry) : Registry := reg.map (Row.arm now)

def due (now : ℕ) : Registry → Option (ℕ × Registry)
  | [] => none
  | r :: rows =>
    if r.next ≤ now then some (0, r.advance now :: rows)
    else (due now rows).map fun (i, rows) => (i + 1, r :: rows)

def nextDeadline (reg : Registry) : Option ℕ := (reg.filterMap Row.nextFire).min?

def drain (now : ℕ) : (calls : ℕ) → Registry → Option (List ℕ × Registry)
  | 0, _ => none
  | calls + 1, reg =>
    match due now reg with
    | none => some ([], reg)
    | some (i, reg) => (drain now calls reg).map fun (fired, reg) => (i :: fired, reg)

def drains : List ℕ → Registry → Option Registry
  | [], reg => some reg
  | now :: readings, reg => (drain now (reg.length + 1) reg).bind fun (_, reg) => drains readings reg

end Registry

section

variable {a b p prev now y : ℕ} {r : Row} {reg reg' : Registry} {i : ℕ}

lemma saturatingAdd_le (hy : y < never) : saturatingAdd a b ≤ y ↔ a + b ≤ y := by
  rw [saturatingAdd, min_le_iff, or_iff_left (by omega)]

lemma lt_nextAfter (hnow : now < never) : now < nextAfter prev p now := by
  rw [nextAfter]
  dsimp only
  split_ifs with hzero hfirst
  · exact hnow
  · exact hfirst
  · have := Nat.mod_lt (now - prev) (Nat.pos_of_ne_zero hzero)
    rw [saturatingAdd, lt_min_iff]
    omega

lemma Row.lt_advance (hnow : now < never) : now < (r.advance now).next := by
  rw [advance]
  cases r.entry.schedule with
  | atBoot => exact hnow
  | every p => exact lt_nextAfter hnow

namespace Registry

lemma due_eq_none : due now reg = none ↔ ∀ r ∈ reg, now < r.next := by
  induction reg with
  | nil => exact iff_of_true rfl (forall_mem_nil _)
  | cons r reg ih =>
    rw [due, forall_mem_cons]
    split_ifs with hdue
    · exact iff_of_false nofun fun h => absurd h.1 (Nat.not_lt.mpr hdue)
    · rw [Option.map_eq_none_iff, ih]
      exact (and_iff_right (Nat.lt_of_not_le hdue)).symm

lemma due_eq_some (h : due now reg = some (i, reg')) :
    ∃ r, reg[i]? = some r ∧ r.next ≤ now ∧ reg' = reg.set i (r.advance now) := by
  induction reg generalizing i reg' with
  | nil => exact nomatch h
  | cons r reg ih =>
    rw [due] at h
    split_ifs at h with hdue
    · cases h
      exact ⟨r, rfl, hdue, rfl⟩
    · obtain ⟨⟨j, rows⟩, hrows, heq⟩ := Option.map_eq_some_iff.mp h
      cases heq
      obtain ⟨r', hr', hdue', rfl⟩ := ih hrows
      exact ⟨r', hr', hdue', rfl⟩

def dueCount (now : ℕ) (reg : Registry) : ℕ := reg.countP (·.next ≤ now)

lemma dueCount_set (hnow : now < never) (hr : reg[i]? = some r) (hdue : r.next ≤ now) :
    dueCount now (reg.set i (r.advance now)) + 1 = dueCount now reg := by
  obtain ⟨hi, rfl⟩ := List.getElem?_eq_some_iff.mp hr
  have hpos : 0 < reg.countP (·.next ≤ now) := countP_pos_iff.mpr ⟨reg[i], getElem_mem hi, decide_eq_true hdue⟩
  have hnot : ¬ (reg[i].advance now).next ≤ now := Nat.not_le.mpr (Row.lt_advance hnow)
  rw [dueCount, dueCount, countP_set hi, if_pos (decide_eq_true hdue), if_neg (by simpa using hnot)]
  omega

lemma map_settle_set (hnow : now < never) (hr : reg[i]? = some r) (hdue : r.next ≤ now) :
    (reg.set i (r.advance now)).map (Row.settle now) = reg.map (Row.settle now) := by
  have hsettle : (r.advance now).settle now = r.settle now := by
    rw [Row.settle, if_neg (Nat.not_le.mpr (Row.lt_advance hnow)), Row.settle, if_pos hdue]
  obtain ⟨hi, rfl⟩ := List.getElem?_eq_some_iff.mp hr
  have hmap : (reg.map (Row.settle now))[i]? = some (reg[i].settle now) := by
    rw [getElem?_map, hr, Option.map_some]
  obtain ⟨_, hget⟩ := List.getElem?_eq_some_iff.mp hmap
  rw [map_set, hsettle, ← hget, set_getElem_self]

lemma drain_eq (hnow : now < never) {calls : ℕ} (hcalls : dueCount now reg < calls) :
    ∃ fired, drain now calls reg = some (fired, reg.map (Row.settle now)) ∧ fired.Nodup ∧
      ∀ i, i ∈ fired ↔ ∃ r, reg[i]? = some r ∧ r.next ≤ now := by
  induction calls generalizing reg with
  | zero => exact absurd hcalls (Nat.not_lt_zero _)
  | succ calls ih =>
    rw [drain]
    cases hdue : due now reg with
    | none =>
      have hnone := due_eq_none.mp hdue
      have hsame : reg.map (Row.settle now) = reg :=
        (map_congr_left fun r hr => if_neg (Nat.not_le.mpr (hnone r hr))).trans (map_id reg)
      refine ⟨[], by rw [hsame], nodup_nil, fun i => iff_of_false not_mem_nil ?_⟩
      rintro ⟨r, hr, hle⟩
      exact absurd hle (Nat.not_le.mpr (hnone r (mem_of_getElem? hr)))
    | some found =>
      obtain ⟨i, reg'⟩ := found
      obtain ⟨r, hr, hle, rfl⟩ := due_eq_some hdue
      have hcount := dueCount_set hnow hr hle
      obtain ⟨fired, hdrain, hnodup, hfired⟩ := @ih (reg.set i (r.advance now)) (by omega)
      rw [map_settle_set hnow hr hle] at hdrain
      -- the advanced row is not among those that fire after it
      have hlength : i < reg.length := (List.getElem?_eq_some_iff.mp hr).1
      have hnot : i ∉ fired := by
        rw [hfired, getElem?_set_self hlength]
        rintro ⟨r', hr', hle'⟩
        cases hr'
        exact absurd hle' (Nat.not_le.mpr (Row.lt_advance hnow))
      refine ⟨i :: fired, by simp only [hdrain, Option.map_some], nodup_cons.mpr ⟨hnot, hnodup⟩, fun j => ?_⟩
      rw [mem_cons]
      by_cases hji : j = i
      · subst hji
        exact iff_of_true (.inl rfl) ⟨r, hr, hle⟩
      · rw [or_iff_right hji, hfired, getElem?_set_ne (Ne.symm hji)]

end Registry

end

end CrickerOs.Timetable
