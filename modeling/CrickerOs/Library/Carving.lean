import Mathlib

namespace CrickerOs.Library

open Option

structure Span where
  base : ℕ
  len : ℕ
  deriving DecidableEq, Repr

namespace Span

variable {a b c : Span} {x : ℕ}

instance : Membership ℕ Span where
  mem s x := s.base ≤ x ∧ x < s.base + s.len

lemma mem_iff : x ∈ a ↔ a.base ≤ x ∧ x < a.base + a.len :=
  Iff.rfl

instance : Decidable (x ∈ a) :=
  decidable_of_iff _ mem_iff.symm

def Apart (a b : Span) : Prop :=
  a.len = 0 ∨ b.len = 0 ∨ a.base + a.len ≤ b.base ∨ b.base + b.len ≤ a.base

instance : Decidable (a.Apart b) :=
  inferInstanceAs (Decidable (_ ∨ _))

def Within (a b : Span) : Prop :=
  b.base ≤ a.base ∧ a.base + a.len ≤ b.base + b.len

lemma apart_iff : a.Apart b ↔ ∀ x, x ∈ a → x ∉ b := by
  simp only [Apart, mem_iff]
  constructor
  · intro h x hx
    omega
  · intro h
    by_contra hne
    have := h (max a.base b.base)
    omega

lemma Apart.symm (h : a.Apart b) : b.Apart a := by
  unfold Apart at *
  omega

lemma Within.mem (h : a.Within b) (hx : x ∈ a) : x ∈ b := by
  simp only [Within, mem_iff] at *
  omega

lemma Within.trans (h : a.Within b) (h' : b.Within c) : a.Within c := by
  unfold Within at *
  omega

lemma Apart.mono_left (h : b.Apart c) (ha : a.Within b) : a.Apart c :=
  apart_iff.mpr fun x hx => apart_iff.mp h x (ha.mem hx)

end Span

structure Carving (ι κ : Type*) where
  items : ι → Option (κ × Span)
  spent : κ → Option Span

namespace Carving

variable {ι κ : Type*} {c c' : Carving ι κ} {outer : κ} {i j : ι} {k l m : κ} {a b w : Span}

structure Tiled (c : Carving ι κ) (outer : κ) : Prop where
  apart : ∀ {i j k a b}, c.items i = some (k, a) → c.items j = some (k, b) → i ≠ j → a.Apart b
  inside : ∀ {i k a}, c.items i = some (k, a) → k ≠ outer → ∃ w, c.spent k = some w ∧ a.Within w
  positive : ∀ {i k a}, c.items i = some (k, a) → k ≠ outer → 0 < a.len

lemma Tiled.restrict (h : c.Tiled outer) (hitems : ∀ i x, c'.items i = some x → c.items i = some x)
    (hinside : ∀ i k a, c'.items i = some (k, a) → k ≠ outer → ∃ w, c'.spent k = some w ∧ a.Within w) :
    c'.Tiled outer where
  apart hi hj := h.apart (hitems _ _ hi) (hitems _ _ hj)
  inside := hinside _ _ _
  positive hi := h.positive (hitems _ _ hi)

lemma Tiled.add (h : c.Tiled outer) (hold : ∀ j x, j ≠ i → c'.items j = some x → c.items j = some x)
    (hnew : c'.items i = some (k, a)) (hapart : ∀ j b, j ≠ i → c'.items j = some (k, b) → a.Apart b)
    (hin : k ≠ outer → 0 < a.len ∧ ∃ w, c'.spent k = some w ∧ a.Within w)
    (hspent : ∀ j l b, j ≠ i → c'.items j = some (l, b) → l ≠ outer → ∀ w, c.spent l = some w →
      ∃ w', c'.spent l = some w' ∧ w.Within w') : c'.Tiled outer where
  apart {j₁ j₂ l b₁ b₂} h₁ h₂ hne := by
    by_cases hi₁ : j₁ = i
    · subst j₁
      cases mem_unique hnew h₁
      exact hapart _ _ hne.symm h₂
    · by_cases hi₂ : j₂ = i
      · subst j₂
        cases mem_unique hnew h₂
        exact (hapart _ _ hi₁ h₁).symm
      · exact h.apart (hold _ _ hi₁ h₁) (hold _ _ hi₂ h₂) hne
  inside {j l b} hj hl := by
    by_cases hi : j = i
    · subst j
      cases mem_unique hnew hj
      exact (hin hl).2
    · obtain ⟨w, hw, hb⟩ := h.inside (hold _ _ hi hj) hl
      obtain ⟨w', hw', hww⟩ := hspent _ _ _ hi hj hl w hw
      exact ⟨w', hw', hb.trans hww⟩
  positive {j l b} hj hl := by
    by_cases hi : j = i
    · subst j
      cases mem_unique hnew hj
      exact (hin hl).1
    · exact h.positive (hold _ _ hi hj) hl

structure Nested (c : Carving ι κ) (outer : κ) (asItem : κ → ι) (rank : κ → ℕ) : Prop where
  injective : Function.Injective asItem
  parent : ∀ {k w}, c.spent k = some w → ∃ l a, c.items (asItem k) = some (l, a) ∧ w.Within a ∧ rank l < rank k
  outermost : ∀ {k w}, c.spent k = some w → rank outer < rank k
  outside : c.items (asItem outer) = none

inductive Below (c : Carving ι κ) (asItem : κ → ι) (m : κ) : ι → Prop
  | direct {i : ι} {a : Span} : c.items i = some (m, a) → Below c asItem m i
  | deeper {i : ι} {k : κ} {a : Span} : Below c asItem m (asItem k) → c.items i = some (k, a) → Below c asItem m i

variable {asItem : κ → ι} {rank : κ → ℕ}

lemma Below.item (h : c.Below asItem m i) : ∃ x, c.items i = some x := by
  cases h with
  | direct h => exact ⟨_, h⟩
  | deeper _ h => exact ⟨_, h⟩

lemma Below.rank_le (ht : c.Tiled outer) (hn : c.Nested outer asItem rank) (h : c.Below asItem m i) :
    c.items i = some (k, a) → rank m ≤ rank k := by
  induction h generalizing k a with
  | direct hi =>
    intro hk
    cases mem_unique hi hk
    exact le_refl _
  | @deeper i l b hbelow hi ih =>
    intro hk
    cases mem_unique hi hk
    have hout : l ≠ outer := by
      rintro rfl
      obtain ⟨x, hx⟩ := hbelow.item
      simp [hn.outside] at hx
    obtain ⟨w, hw, -⟩ := ht.inside hi hout
    obtain ⟨l', b', hl, -, hlt⟩ := hn.parent hw
    exact (ih hl).trans hlt.le

lemma Below.within (ht : c.Tiled outer) (hn : c.Nested outer asItem rank) (h : c.Below asItem m i)
    (hw : c.spent m = some w) (hm : m ≠ outer) : c.items i = some (k, a) → a.Within w := by
  induction h generalizing k a with
  | direct hi =>
    intro hk
    cases mem_unique hi hk
    obtain ⟨w', hw', ha⟩ := ht.inside hi hm
    cases mem_unique hw hw'
    exact ha
  | @deeper i l b hbelow hi ih =>
    intro hk
    cases mem_unique hi hk
    have hl : l ≠ outer := by
      rintro rfl
      obtain ⟨x, hx⟩ := hbelow.item
      simp [hn.outside] at hx
    obtain ⟨v, hv, hav⟩ := ht.inside hi hl
    obtain ⟨l', b', hl', hvb, -⟩ := hn.parent hv
    exact (hav.trans hvb).trans (ih hl')

lemma Tiled.apart_or_below (ht : c.Tiled outer) (hn : c.Nested outer asItem rank)
    (hi : c.items i = some (k, a)) (hj : c.items j = some (l, b)) (hne : i ≠ j) :
    a.Apart b ∨ (∃ m, i = asItem m ∧ c.Below asItem m j) ∨ ∃ m, j = asItem m ∧ c.Below asItem m i := by
  induction hrank : rank k + rank l using Nat.strong_induction_on generalizing i j k l a b with
  | _ n ih =>
  by_cases hkl : k = l
  · subst l
    exact .inl (ht.apart hi hj hne)
  wlog hle : rank l ≤ rank k generalizing i j k l a b
  · have hswap := this hj hi hne.symm ((add_comm _ _).trans hrank) (Ne.symm hkl) (by omega)
    rcases hswap with hapart | hij | hji
    · exact .inl hapart.symm
    · exact .inr (.inr hij)
    · exact .inr (.inl hji)
  -- the holder of larger rank is not the outermost one, so it is an item of its own parent
  have hk : k ≠ outer := by
    rintro rfl
    obtain ⟨w, hw, -⟩ := ht.inside hj (Ne.symm hkl)
    have := hn.outermost hw
    omega
  obtain ⟨w, hw, haw⟩ := ht.inside hi hk
  obtain ⟨k', a', hp, hwa, hlt⟩ := hn.parent hw
  by_cases hpj : asItem k = j
  · exact .inr (.inr ⟨k, hpj.symm, .direct hi⟩)
  rcases ih _ (by omega) hp hj hpj rfl with hapart | ⟨m, hm, hbelow⟩ | ⟨m, rfl, hbelow⟩
  · exact .inl (hapart.mono_left (haw.trans hwa))
  · cases hn.injective hm
    have hrank' := hbelow.rank_le ht hn hj
    cases hbelow with
    | direct h =>
      cases mem_unique hj h
      exact absurd rfl hkl
    | deeper hup h =>
      cases mem_unique hj h
      have hl : l ≠ outer := by
        rintro rfl
        obtain ⟨x, hx⟩ := hup.item
        simp [hn.outside] at hx
      obtain ⟨w', hw', -⟩ := ht.inside hj hl
      obtain ⟨l', b', hl', -, hlt'⟩ := hn.parent hw'
      have := hup.rank_le ht hn hl'
      omega
  · exact .inr (.inr ⟨m, rfl, .deeper hbelow hi⟩)

end Carving

end CrickerOs.Library
