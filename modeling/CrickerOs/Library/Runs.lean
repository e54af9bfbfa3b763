import Mathlib

namespace CrickerOs.Library

variable {σ α : Type*} {step : σ → α → Option σ} {ok ok' : σ → α → Prop} {start : σ → Prop} {s s' : σ} {a : α}

inductive Reach (step : σ → α → Option σ) (ok : σ → α → Prop) (start : σ → Prop) : σ → Prop
  | init {s : σ} : start s → Reach step ok start s
  | next {s s' : σ} {a : α} : Reach step ok start s → ok s a → step s a = some s' → Reach step ok start s'

def always : σ → α → Prop := fun _ _ => True

lemma Reach.invariant (I : σ → Prop) (hinit : ∀ s, start s → I s)
    (hstep : ∀ s a s', I s → ok s a → step s a = some s' → I s') (h : Reach step ok start s) : I s := by
  induction h with
  | init h => exact hinit _ h
  | next _ hok hs ih => exact hstep _ _ _ ih hok hs

lemma Reach.invariant_of (I : σ → Prop) (hinit : ∀ s, start s → I s)
    (hstep : ∀ s a s', Reach step ok start s → I s → ok s a → step s a = some s' → I s')
    (h : Reach step ok start s) : I s := by
  induction h with
  | init h => exact hinit _ h
  | next hr hok hs ih => exact hstep _ _ _ hr ih hok hs

lemma Reach.mono (himp : ∀ s a, ok s a → ok' s a) (h : Reach step ok start s) : Reach step ok' start s := by
  induction h with
  | init h => exact .init h
  | next _ hok hs ih => exact .next ih (himp _ _ hok) hs

lemma Reach.start_mono {start' : σ → Prop} (himp : ∀ s, start s → start' s) (h : Reach step ok start s) :
    Reach step ok start' s := by
  induction h with
  | init h => exact .init (himp _ h)
  | next _ hok hs ih => exact .next ih hok hs

instance (s : σ) (a : α) : Decidable (always s a) :=
  isTrue trivial

def execute (step : σ → α → Option σ) (ok : σ → α → Prop) [∀ s a, Decidable (ok s a)] : σ → List α → Option σ
  | s, [] => some s
  | s, a :: as => if ok s a then (step s a).bind fun s' => execute step ok s' as else none

variable {as : List α}

lemma Reach.execute [∀ s a, Decidable (ok s a)] (h : Reach step ok start s)
    (he : execute step ok s as = some s') : Reach step ok start s' := by
  induction as generalizing s with
  | nil =>
    obtain rfl : s = s' := by simpa [Library.execute] using he
    exact h
  | cons a as ih =>
    rw [Library.execute, Option.ite_none_right_eq_some] at he
    obtain ⟨hok, t, ht, htail⟩ := he.imp_right Option.bind_eq_some_iff.mp
    exact ih (.next h hok ht) htail

lemma exists_execute [∀ s a, Decidable (ok s a)] {P : σ → Prop} [DecidablePred P]
    (h : (execute step ok s as).any (fun s' => P s')) : ∃ s', execute step ok s as = some s' ∧ P s' := by
  cases hs : Library.execute step ok s as with
  | none => simp [hs] at h
  | some s' => exact ⟨s', rfl, by simpa [hs] using h⟩

lemma Reach.exists_execute [∀ s a, Decidable (ok s a)] {P Q : σ → Prop} [DecidablePred P] (hs : start s)
    (hQ : ∀ s', Reach step ok start s' → P s' → Q s') (h : (Library.execute step ok s as).any (fun s' => P s')) :
    ∃ s', Library.execute step ok s as = some s' ∧ P s' ∧ Q s' := by
  obtain ⟨s', hs', hP⟩ := Library.exists_execute h
  exact ⟨s', hs', hP, hQ s' (.execute (.init hs) hs') hP⟩

inductive Run (step : σ → α → Option σ) (start : σ → Prop) : List (σ × α × σ) → σ → Prop
  | init {s : σ} : start s → Run step start [] s
  | next {steps : List (σ × α × σ)} {s s' : σ} {a : α} : Run step start steps s → step s a = some s' →
      Run step start ((s, a, s') :: steps) s'

lemma Run.reach {steps : List (σ × α × σ)} (h : Run step start steps s) : Reach step always start s := by
  induction h with
  | init h => exact .init h
  | next _ hs ih => exact .next ih trivial hs

def record (step : σ → α → Option σ) : List (σ × α × σ) → σ → List α → Option (List (σ × α × σ) × σ)
  | steps, s, [] => some (steps, s)
  | steps, s, a :: as => (step s a).bind fun s' => record step ((s, a, s') :: steps) s' as

lemma Run.record {steps steps' : List (σ × α × σ)} (h : Run step start steps s)
    (hr : record step steps s as = some (steps', s')) : Run step start steps' s' := by
  induction as generalizing steps s with
  | nil =>
    cases hr
    exact h
  | cons a as ih =>
    obtain ⟨t, ht, htail⟩ := Option.bind_eq_some_iff.mp hr
    exact ih (.next h ht) htail

end CrickerOs.Library
