import CrickerOs.Kernel.OneReply
import CrickerOs.Slots.History

namespace CrickerOs.Kernel

open Library Slots WakeHandshake Table List

variable {T E : ℕ}

def surveyIncludes (faultEp : Option EpId) (invokedEp : EpId) : Bool :=
  faultEp == some invokedEp

namespace Survey

def done : ℕ := 0

def ready : ℕ := 1

def running : ℕ := 2

def blocked : ℕ := 3

def dead : ℕ := 4

end Survey

def surveyState : RunState → ℕ
  | .embryo | .ready => Survey.ready
  | .running => Survey.running
  | .blocked => Survey.blocked
  | .finished | .dead => Survey.dead

def Scheduler.surveySupervised (s : Scheduler T E) (ep : EpId) (cursor : ℕ) : ℕ × Tid × ℕ :=
  match (s.threads.iterFrom cursor).find? fun (_, _, t) => surveyIncludes t.faultEp ep with
  | some (slot, tid, t) => (slot + 1, tid, surveyState t.handshake.state)
  | none => (Survey.done, 0, 0)

/-- A survey under way: where the next call resumes, whether it is finished, and what was reported, latest
first. -/
structure Walk (T E : ℕ) where
  sched : Scheduler T E
  cursor : ℕ
  finished : Bool
  calls : ℕ
  reported : List (Tid × Option Thread)

inductive WalkAction
  | survey
  | create (f : Tid → Thread)
  | update (tid : Tid) (f : Thread → Thread)
  | remove (tid : Tid)

namespace Walk

def Start (w : Walk T E) : Prop :=
  w.cursor = 0 ∧ w.finished = false ∧ w.calls = 0 ∧ w.reported = []

def survey (w : Walk T E) (ep : EpId) : Walk T E :=
  let (next, tid, _) := w.sched.surveySupervised ep w.cursor
  if next = Survey.done then { w with calls := w.calls + 1, finished := true }
  else
    { w with
      calls := w.calls + 1
      cursor := next
      reported := (tid, w.sched.threads.get tid) :: w.reported }

def setThreads (w : Walk T E) (threads : Table Thread T) : Walk T E :=
  { w with sched := { w.sched with threads } }

def step (ep : EpId) (w : Walk T E) : WalkAction → Option (Walk T E)
  | .survey => if w.finished then none else some (w.survey ep)
  | .create f => some ((w.sched.threads.insertWith f).elim w fun (_, threads) => w.setThreads threads)
  | .update tid f => some (w.setThreads (w.sched.threads.modify tid f))
  | .remove tid => some ((w.sched.threads.remove tid).elim w fun (_, threads) => w.setThreads threads)

def Supervised (ep : EpId) (tid : Tid) (w : Walk T E) : Prop :=
  ∃ t, w.sched.threads.get tid = some t ∧ t.faultEp = some ep

end Walk

lemma surveyIncludes_iff {faultEp : Option EpId} {ep : EpId} : surveyIncludes faultEp ep ↔ faultEp = some ep := by
  simp [surveyIncludes]

lemma Scheduler.surveySupervised_cases (s : Scheduler T E) (ep : EpId) (cursor : ℕ) :
    (∃ slot tid t state, s.surveySupervised ep cursor = (slot + 1, tid, state) ∧ s.threads.get tid = some t ∧
      t.faultEp = some ep ∧ slot = (unpack tid).1 ∧ cursor ≤ slot ∧
      ∀ tid' t', s.threads.get tid' = some t' → t'.faultEp = some ep → cursor ≤ (unpack tid').1 →
        slot ≤ (unpack tid').1) ∨
    s.surveySupervised ep cursor = (Survey.done, 0, 0) ∧
      ∀ tid t, s.threads.get tid = some t → t.faultEp = some ep → (unpack tid).1 < cursor := by
  unfold surveySupervised
  split
  · rename_i slot tid t hfind
    obtain ⟨hep, as, bs, hsplit, has⟩ := find?_eq_some_iff_append.mp hfind
    have hmem : (slot, tid, t) ∈ s.threads.iterFrom cursor := by simp [hsplit]
    obtain ⟨hle, hslot, hget⟩ := mem_iterFrom_iff.mp hmem
    refine .inl ⟨slot, tid, t, _, rfl, hget, surveyIncludes_iff.mp hep, hslot, hle, ?_⟩
    intro tid' t' hget' hep' hle'
    have hmem' : ((unpack tid').1, tid', t') ∈ as ++ (slot, tid, t) :: bs :=
      hsplit ▸ mem_iterFrom_iff.mpr ⟨hle', rfl, hget'⟩
    have horder := pairwise_iterFrom s.threads cursor
    rw [hsplit, pairwise_map, pairwise_append, pairwise_cons] at horder
    rcases mem_append.mp hmem' with hin | hin
    · have := has _ hin
      simp [surveyIncludes_iff.mpr hep'] at this
    · rcases mem_cons.mp hin with heq | hin
      · exact (Prod.mk.inj heq).1.ge
      · exact (horder.2.1.1 _ hin).le
  · rename_i hfind
    refine .inr ⟨rfl, fun tid t hget hep => ?_⟩
    by_contra hle
    have hmem := mem_iterFrom_iff.mpr ⟨Nat.le_of_not_lt hle, rfl, hget⟩
    exact find?_eq_none.mp hfind _ hmem (surveyIncludes_iff.mpr hep)

namespace Walk

variable {ep : EpId} {w w' : Walk T E} {a : WalkAction}

lemma step_cases (h : w.step ep a = some w') :
    (a = .survey ∧ w.finished = false ∧ w' = w.survey ep) ∨ ∃ threads, w' = w.setThreads threads := by
  cases a with
  | survey =>
    rw [step, Option.ite_none_left_eq_some] at h
    exact .inl ⟨rfl, by simpa using h.1, (Option.some.inj h.2).symm⟩
  | create f =>
    refine .inr ?_
    cases h
    cases w.sched.threads.insertWith f with
    | none => exact ⟨w.sched.threads, rfl⟩
    | some r => exact ⟨r.2, rfl⟩
  | update tid f => exact .inr ⟨_, (Option.some.inj h).symm⟩
  | remove tid =>
    refine .inr ?_
    cases h
    cases w.sched.threads.remove tid with
    | none => exact ⟨w.sched.threads, rfl⟩
    | some r => exact ⟨r.2, rfl⟩

structure Orderly (ep : EpId) (w : Walk T E) : Prop where
  below : ∀ r ∈ w.reported, (Table.unpack r.1).1 < w.cursor
  once : (w.reported.map Prod.fst).Nodup
  supervised : ∀ r ∈ w.reported, ∃ t, r.2 = some t ∧ t.faultEp = some ep
  bounded : w.cursor ≤ T
  advanced : w.reported.length ≤ w.cursor
  counted : w.calls = w.reported.length + if w.finished then 1 else 0

lemma Start.orderly (h : w.Start) : w.Orderly ep := by
  obtain ⟨hcursor, hfinished, hcalls, hreported⟩ := h
  constructor <;> simp [hcursor, hfinished, hcalls, hreported]

lemma Orderly.survey (h : w.Orderly ep) (hf : w.finished = false) : (w.survey ep).Orderly ep := by
  unfold Walk.survey
  rcases w.sched.surveySupervised_cases ep w.cursor with
    ⟨slot, tid, t, state, hsurvey, hget, hep, hslot, hle, -⟩ | ⟨hsurvey, -⟩
  · have hlt : slot < T := by
      obtain ⟨i, hi, -⟩ := get_eq_some_iff.mp hget
      rw [hslot, (nameAt_eq_iff.mp hi).1]
      exact i.isLt
    simp only [hsurvey, Survey.done, Nat.add_eq_zero_iff, one_ne_zero, and_false, if_false]
    constructor
    · intro r hr
      rcases mem_cons.mp hr with rfl | hr
      · exact Nat.lt_succ_of_le hslot.ge
      · exact (h.below r hr).trans_le (hle.trans slot.le_succ)
    · refine nodup_cons.mpr ⟨fun hmem => ?_, h.once⟩
      obtain ⟨r, hr, hr'⟩ := mem_map.mp hmem
      have hbelow : (unpack tid).1 < w.cursor := by simpa only [hr'] using h.below r hr
      omega
    · intro r hr
      rcases mem_cons.mp hr with rfl | hr
      · exact ⟨t, hget, hep⟩
      · exact h.supervised r hr
    · exact hlt
    · have := h.advanced
      simp only [length_cons]
      omega
    · simp [h.counted, hf]
  · simp only [hsurvey, if_true]
    exact ⟨h.below, h.once, h.supervised, h.bounded, h.advanced, by simp [h.counted, hf]⟩

lemma Orderly.step (h : w.Orderly ep) (hs : w.step ep a = some w') : w'.Orderly ep := by
  rcases step_cases hs with ⟨-, hf, rfl⟩ | ⟨threads, rfl⟩
  · exact h.survey hf
  · exact ⟨h.below, h.once, h.supervised, h.bounded, h.advanced, h.counted⟩

def Covered (tid : Tid) (w : Walk T E) : Prop :=
  (Table.unpack tid).1 < w.cursor ∨ w.finished → tid ∈ w.reported.map Prod.fst

lemma Covered.survey {tid : Tid} (h : w.Covered tid) (hin : w.Supervised ep tid) : (w.survey ep).Covered tid := by
  obtain ⟨t, hget, hep⟩ := hin
  unfold Walk.survey
  rcases w.sched.surveySupervised_cases ep w.cursor with
    ⟨slot, tid', t', state, hsurvey, hget', -, hslot, hle, hfirst⟩ | ⟨hsurvey, hnone⟩
  · simp only [hsurvey, Survey.done, Nat.add_eq_zero_iff, one_ne_zero, and_false, if_false]
    intro hpassed
    by_cases hbelow : (unpack tid).1 < w.cursor ∨ w.finished
    · exact mem_cons_of_mem _ (h hbelow)
    · have hge : slot ≤ (unpack tid).1 := hfirst tid t hget hep (by omega)
      have hsame : (unpack tid).1 = slot := by
        rcases hpassed with hlt | hfin
        · exact le_antisymm (Nat.le_of_lt_succ hlt) hge
        · exact absurd (.inr hfin) hbelow
      obtain ⟨i, rfl, -⟩ := get_eq_some_iff.mp hget
      obtain ⟨j, rfl, -⟩ := get_eq_some_iff.mp hget'
      have hij : i = j := by
        rw [hslot, (nameAt_eq_iff.mp rfl).1, (nameAt_eq_iff.mp rfl).1] at hsame
        exact Fin.ext hsame
      exact hij ▸ mem_cons_self
  · simp only [hsurvey, if_true]
    exact fun _ => h (.inl (hnone tid t hget hep))

lemma Covered.step {tid : Tid} (h : w.Covered tid) (hin : w.Supervised ep tid) (hs : w.step ep a = some w') :
    w'.Covered tid := by
  rcases step_cases hs with ⟨-, -, rfl⟩ | ⟨threads, rfl⟩
  · exact h.survey hin
  · exact h

theorem survey_neither_repeats_nor_omits (hrun : Reach (step ep) always Start w) :
    (w.reported.map Prod.fst).Nodup ∧ (∀ r ∈ w.reported, ∃ t, r.2 = some t ∧ t.faultEp = some ep) ∧
      (∀ tid, Reach (step ep) (fun w _ => w.Supervised ep tid) Start w → w.finished →
        tid ∈ w.reported.map Prod.fst) ∧
      w.calls ≤ T + 1 ∧ (w.calls = T + 1 → w.finished) := by
  have hord : w.Orderly ep := hrun.invariant _ (fun _ h => h.orderly) fun _ _ _ h _ hs => h.step hs
  refine ⟨hord.once, hord.supervised, fun tid hstay hfin => ?_, ?_⟩
  · refine hstay.invariant (Covered tid) (fun w h => ?_) (fun _ _ _ h hin hs => h.step hin hs) (.inr hfin)
    obtain ⟨hcursor, hfinished, -, -⟩ := h
    simp [Covered, hcursor, hfinished]
  · have hcalls := hord.counted
    have hle := hord.advanced.trans hord.bounded
    cases hf : w.finished with
    | false =>
      rw [hf, if_neg (by simp)] at hcalls
      exact ⟨by omega, fun h => by omega⟩
    | true =>
      rw [hf, if_pos rfl] at hcalls
      exact ⟨by omega, fun _ => rfl⟩

theorem survey_neither_repeats_nor_omits_in_trio : ∃ w, execute (step 1) always ⟨trio, 0, false, 0, []⟩
      [.update 2 fun t => { t with faultEp := some 1 }, .survey, .remove 0, .survey, .survey] = some w ∧
    (w.finished = true ∧ w.reported.map Prod.fst = [2, 0]) ∧
    (w.reported.map Prod.fst).Nodup ∧ (∀ r ∈ w.reported, ∃ t, r.2 = some t ∧ t.faultEp = some 1) ∧
      (∀ tid, Reach (step 1) (fun w _ => w.Supervised 1 tid) Start w → w.finished →
        tid ∈ w.reported.map Prod.fst) ∧
      w.calls ≤ 3 + 1 ∧ (w.calls = 3 + 1 → w.finished) :=
  Reach.exists_execute ⟨rfl, rfl, rfl, rfl⟩ (fun _ hrun _ => survey_neither_repeats_nor_omits hrun)
    (by decide +kernel)

end Walk

end CrickerOs.Kernel
