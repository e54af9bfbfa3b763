import Mathlib.Data.Option.Basic
import Mathlib.Tactic.SplitIfs

namespace CrickerOs.Library

namespace Result

variable {ε α β : Type}

def ensure (c : Prop) [Decidable c] (e : ε) : Except ε Unit := if c then .ok () else .error e

def okOr (e : ε) : Option α → Except ε α
  | some a => .ok a
  | none => .error e

variable {x : Except ε α} {f : α → Except ε β} {a : α} {b : β} {e : ε}

@[simp]
lemma ok_bind : (Except.ok a : Except ε α) >>= f = f a := rfl

@[simp]
lemma error_bind : (Except.error e : Except ε α) >>= f = .error e := rfl

lemma exists_of_bind_eq_ok (h : x >>= f = .ok b) : ∃ a, x = .ok a ∧ f a = .ok b := by
  cases x with
  | error e => cases h
  | ok a => exact ⟨a, rfl, h⟩

lemma ensure_bind_eq_ok {c : Prop} [Decidable c] {g : Unit → Except ε β} : ensure c e >>= g = .ok b ↔ c ∧
    g () = .ok b := by
  by_cases h : c
  · simp [ensure, h]
  · simp [ensure, h]

end Result

def Act (σ ε α : Type) : Type := σ → Except ε α × σ

namespace Act

variable {σ ε α β : Type}

protected def pure (a : α) : Act σ ε α := fun s => (.ok a, s)

protected def bind (m : Act σ ε α) (f : α → Act σ ε β) : Act σ ε β := fun s =>
  match m s with
  | (.ok a, s') => f a s'
  | (.error e, s') => (.error e, s')

instance : Monad (Act σ ε) where
  pure := Act.pure
  bind := Act.bind

lemma pure_run (a : α) (s : σ) : (pure a : Act σ ε α) s = (.ok a, s) := rfl

def asks (f : σ → Except ε α) : Act σ ε α := fun s => (f s, s)

def forgive (p : ε → Prop) [DecidablePred p] (m : Act σ ε α) : Act σ ε (Option α) := fun s =>
  match m s with
  | (.ok a, s') => (.ok (some a), s')
  | (.error e, s') => (if p e then .ok none else .error e, s')

def attempt (m : Act σ ε α) : Act σ ε (Option α) := forgive (fun _ => True) m

variable {m : Act σ ε α} {f : α → Act σ ε β} {s s' : σ}

lemma bind_error {e : ε} (h : m s = (.error e, s')) : (m >>= f) s = (.error e, s') := by
  change Act.bind m f s = _
  rw [Act.bind, h]

lemma bind_ok {a : α} (h : m s = (.ok a, s')) : (m >>= f) s = f a s' := by
  change Act.bind m f s = _
  rw [Act.bind, h]

lemma asks_bind_error {g : σ → Except ε α} {e : ε} (h : g s = .error e) : (asks g >>= f) s = (.error e, s) :=
  bind_error (by rw [asks, h])

lemma asks_bind_ok {g : σ → Except ε α} {a : α} (h : g s = .ok a) : (asks g >>= f) s = f a s :=
  bind_ok (by rw [asks, h])

end Act

end CrickerOs.Library
