import Mathlib

/-! Computations that report errors or panic. An index out of range and an overflow panic; `Holds` is what a
computation that does not panic comes to. -/

namespace CrickerOs.Library

inductive Outcome (ε α : Type)
  | ok (a : α)
  | error (e : ε)
  | panic
  deriving DecidableEq

namespace Outcome

variable {ε ε' α β : Type}

def bind : Outcome ε α → (α → Outcome ε β) → Outcome ε β
  | ok a, f => f a
  | error e, _ => error e
  | panic, _ => panic

instance : Monad (Outcome ε) where
  pure := ok
  bind := bind

def Holds (post : α → Prop) (fail : ε → Prop) : Outcome ε α → Prop
  | ok a => post a
  | error e => fail e
  | panic => False

abbrev Safe (post : α → Prop) (x : Outcome ε α) : Prop := x.Holds post fun _ => True

def okOr (e : ε) : Option α → Outcome ε α
  | some a => ok a
  | none => error e

def mapErr (f : ε → ε') : Outcome ε α → Outcome ε' α
  | ok a => ok a
  | error e => error (f e)
  | panic => panic

def ensure (c : Prop) [Decidable c] (e : ε) : Outcome ε Unit :=
  if c then ok () else error e

def add (w a b : ℕ) : Outcome ε ℕ := if a + b < 2 ^ w then ok (a + b) else panic

def mul (w a b : ℕ) : Outcome ε ℕ := if a * b < 2 ^ w then ok (a * b) else panic

def sub (a b : ℕ) : Outcome ε ℕ := if b ≤ a then ok (a - b) else panic

def index (l : List α) (i : ℕ) : Outcome ε α :=
  match l[i]? with
  | some a => ok a
  | none => panic

def slice (l : List α) (first last : ℕ) : Outcome ε (List α) :=
  if first ≤ last ∧ last ≤ l.length then ok ((l.drop first).take (last - first)) else panic

variable {post post' : α → Prop} {fail fail' : ε → Prop} {x : Outcome ε α} {f : α → Outcome ε β} {a : α} {e : ε}

@[simp]
lemma holds_ok : (ok a : Outcome ε α).Holds post fail ↔ post a := Iff.rfl

@[simp]
lemma holds_pure : (pure a : Outcome ε α).Holds post fail ↔ post a := Iff.rfl

@[simp]
lemma holds_error : (error e : Outcome ε α).Holds post fail ↔ fail e := Iff.rfl

@[simp]
lemma holds_panic : (panic : Outcome ε α).Holds post fail ↔ False := Iff.rfl

@[simp]
lemma holds_bind {post : β → Prop} : (x >>= f).Holds post fail ↔
    x.Holds (fun a => (f a).Holds post fail) fail := by
  cases x <;> rfl

@[simp]
lemma ok_bind : (ok a : Outcome ε α) >>= f = f a := rfl

@[simp]
lemma pure_bind' : (pure a : Outcome ε α) >>= f = f a := rfl

@[simp]
lemma error_bind : (error e : Outcome ε α) >>= f = error e := rfl

section

variable (h : x.Holds post fail)
include h

lemma Holds.mono (hpost : ∀ a, post a → post' a) (hfail : ∀ e, fail e → fail' e) :
    x.Holds post' fail' := by
  cases x with
  | ok a => exact hpost a h
  | error e => exact hfail e h
  | panic => exact h

lemma Holds.bind {post' : β → Prop} (hf : ∀ a, post a → (f a).Holds post' fail) :
    (x >>= f).Holds post' fail :=
  holds_bind.mpr (h.mono hf fun _ => id)

lemma Holds.of_ok (hx : x = ok a) : post a := by
  subst hx
  exact h

lemma Holds.of_error (hx : x = error e) : fail e := by
  subst hx
  exact h

end

lemma Holds.exists_ok {p : Prop} (h : x.Holds post fun _ => p) (hp : ¬ p) : ∃ a, x = ok a ∧ post a := by
  cases x with
  | ok a => exact ⟨a, rfl, h⟩
  | error e => exact absurd h hp
  | panic => exact h.elim

lemma Holds.ne_panic (h : x.Holds post fail) : x ≠ panic := by
  rintro rfl
  exact h

@[simp]
lemma panic_bind : (panic : Outcome ε α) >>= f = panic := rfl

lemma bind_ne_panic (hx : x ≠ panic) (hf : ∀ a, f a ≠ panic) : x >>= f ≠ panic := by
  cases x with
  | ok a => exact hf a
  | error e => exact nofun
  | panic => exact absurd rfl hx

lemma bind_bind {γ : Type} {g : β → Outcome ε γ} : x >>= f >>= g = x >>= fun a => f a >>= g := by
  cases x <;> rfl

lemma bind_eq_ok {b : β} : x >>= f = ok b ↔ ∃ a, x = ok a ∧ f a = ok b := by
  cases x <;> simp

section

variable {c : Prop} [Decidable c] {f : Unit → Outcome ε β}

lemma ensure_ne_panic : ensure c e ≠ (panic : Outcome ε Unit) := by
  rw [ensure]
  split_ifs <;> exact nofun

lemma okOr_ne_panic {o : Option α} : okOr e o ≠ (panic : Outcome ε α) := by
  cases o <;> exact nofun

lemma ensure_bind (h : c) : ensure c e >>= f = f () := by
  rw [ensure, if_pos h, ok_bind]

lemma ensure_bind_eq_ok {b : β} : ensure c e >>= f = ok b ↔ c ∧ f () = ok b := by
  unfold ensure
  split_ifs with h <;> simp [h]

@[simp]
lemma holds_ensure {post : Unit → Prop} : (ensure c e).Holds post fail ↔ (c → post ()) ∧ (¬ c → fail e) := by
  unfold ensure
  split_ifs with h <;> simp [h]

lemma Holds.ensure {post : β → Prop} (hf : c → (f ()).Holds post fail) (he : fail e) :
    (ensure c e >>= f).Holds post fail :=
  holds_bind.mpr (holds_ensure.mpr ⟨hf, fun _ => he⟩)

end

lemma holds_guard {c : Prop} [Decidable c] : (if c then ok a else panic : Outcome ε α).Holds post fail ↔ c ∧
    post a := by
  split <;> simp [*]

@[simp]
lemma holds_okOr {o : Option α} : (okOr e o).Holds post fail ↔ (∀ a, o = some a → post a) ∧
    (o = none → fail e) := by
  cases o <;> simp [okOr]

variable {w a b first last : ℕ}

@[simp]
lemma holds_add {post : ℕ → Prop} : (add w a b : Outcome ε ℕ).Holds post fail ↔ a + b < 2 ^ w ∧ post (a + b) :=
  holds_guard

@[simp]
lemma holds_sub {post : ℕ → Prop} : (sub a b : Outcome ε ℕ).Holds post fail ↔ b ≤ a ∧ post (a - b) :=
  holds_guard

lemma index_eq {l : List α} {i : ℕ} (h : i < l.length) : (index l i : Outcome ε α) = ok l[i] := by
  rw [index, List.getElem?_eq_getElem h]

lemma add_eq (h : a + b < 2 ^ w) : (add w a b : Outcome ε ℕ) = ok (a + b) := if_pos h

lemma mul_eq (h : a * b < 2 ^ w) : (mul w a b : Outcome ε ℕ) = ok (a * b) := if_pos h

lemma sub_eq (h : b ≤ a) : (sub a b : Outcome ε ℕ) = ok (a - b) := if_pos h

lemma add_eq_ok {c : ℕ} : (add w a b : Outcome ε ℕ) = ok c ↔ a + b < 2 ^ w ∧ a + b = c := by
  unfold add
  split_ifs with h <;> simp [h]

lemma mul_eq_ok {c : ℕ} : (mul w a b : Outcome ε ℕ) = ok c ↔ a * b < 2 ^ w ∧ a * b = c := by
  unfold mul
  split_ifs with h <;> simp [h]

lemma slice_eq {l : List α} (hle : first ≤ last) (hlast : last ≤ l.length) :
    (slice l first last : Outcome ε (List α)) = ok ((l.drop first).take (last - first)) :=
  if_pos ⟨hle, hlast⟩

end Outcome

end CrickerOs.Library
