import Mathlib.Data.BitVec
import Mathlib.Logic.Function.Iterate

namespace CrickerOs.Library.Feedback

open Function BitVec

variable {w k : ℕ} {poly : BitVec w}

def step (poly c : BitVec w) : BitVec w := if c.getLsbD 0 then poly ^^^ (c >>> 1) else c >>> 1

lemma step_xor (a b : BitVec w) : step poly (a ^^^ b) = step poly a ^^^ step poly b := by
  have hcancel (x y : BitVec w) : poly ^^^ x ^^^ (poly ^^^ y) = x ^^^ y := by
    rw [BitVec.xor_comm poly x, BitVec.xor_assoc, ← BitVec.xor_assoc poly poly y, BitVec.xor_self, BitVec.zero_xor]
  simp only [step, getLsbD_xor, ushiftRight_xor_distrib]
  cases a.getLsbD 0 <;> cases b.getLsbD 0
  · rfl
  · simp only [Bool.false_xor, if_true, Bool.false_eq_true, if_false]
    rw [← BitVec.xor_assoc, ← BitVec.xor_assoc, BitVec.xor_comm poly]
  · simp only [Bool.xor_false, if_true, Bool.false_eq_true, if_false]
    rw [BitVec.xor_assoc]
  · simp only [Bool.xor_self, if_true, Bool.false_eq_true, if_false]
    exact (hcancel _ _).symm

variable {c : BitVec w}

lemma eq_zero_of_step (hpoly : poly.msb = true) (h : step poly c = 0) : c = 0 := by
  have hmsb : (c >>> 1).msb = false := by simp
  unfold step at h
  split at h
  · have hpolyEq : poly = c >>> 1 := BitVec.xor_eq_zero_iff.mp h
    rw [hpolyEq, hmsb] at hpoly
    cases hpoly
  · rename_i hlow
    apply eq_of_getLsbD_eq
    intro i hi
    cases i with
    | zero => simpa using hlow
    | succ i =>
      have hbit := congrArg (getLsbD · i) h
      simpa [Nat.add_comm] using hbit

lemma iterate_xor (n : ℕ) (a b : BitVec w) : (step poly)^[n] (a ^^^ b) =
    (step poly)^[n] a ^^^ (step poly)^[n] b := by
  induction n generalizing a b with
  | zero => rfl
  | succ n ih => rw [iterate_succ_apply, step_xor, ih, iterate_succ_apply, iterate_succ_apply]

lemma eq_zero_of_iterate (hpoly : poly.msb = true) {n : ℕ} (h : (step poly)^[n] c = 0) : c = 0 := by
  induction n with
  | zero => exact h
  | succ n ih =>
    rw [iterate_succ_apply'] at h
    exact ih (eq_zero_of_step hpoly h)

lemma iterate_injective (hpoly : poly.msb = true) (n : ℕ) : Function.Injective (step poly)^[n] := by
  intro a b h
  apply xor_eq_zero_iff.mp
  apply eq_zero_of_iterate hpoly (n := n)
  rw [iterate_xor, h, BitVec.xor_self]
  rfl

lemma iterate_clear {n : ℕ} (h : ∀ i < n, c.getLsbD i = false) : (step poly)^[n] c = c >>> n := by
  induction n with
  | zero => simp
  | succ n ih =>
    have hlow : (c >>> n).getLsbD 0 = false := by simpa using h n (Nat.lt_succ_self n)
    rw [iterate_succ_apply', ih fun i hi => h i (hi.trans (Nat.lt_succ_self n)), step, hlow,
      if_neg Bool.false_ne_true, shiftRight_add]

lemma iterate_low {n : ℕ} (low : BitVec w) (hlow : ∀ i < n, low.getLsbD i = c.getLsbD i)
    (hhigh : ∀ i, n ≤ i → low.getLsbD i = false) : (step poly)^[n] c = (step poly)^[n] low ^^^ (c >>> n) := by
  have hsplit : c = low ^^^ (low ^^^ c) := by
    rw [← BitVec.xor_assoc, BitVec.xor_self, BitVec.zero_xor]
  have hclear : ∀ i < n, (low ^^^ c).getLsbD i = false := by
    intro i hi
    rw [getLsbD_xor, hlow i hi, Bool.xor_self]
  have hmoved : (low ^^^ c) >>> n = c >>> n := by
    apply eq_of_getLsbD_eq
    intro i _
    simp [hhigh (n + i) (Nat.le_add_right n i)]
  calc (step poly)^[n] c = (step poly)^[n] (low ^^^ (low ^^^ c)) := by rw [← hsplit]
    _ = (step poly)^[n] low ^^^ (c >>> n) := by rw [iterate_xor, iterate_clear hclear, hmoved]

section

def feed (poly c : BitVec w) (chunk : BitVec k) : BitVec w := (step poly)^[k] (c ^^^ chunk.setWidth w)

lemma feed_injective (hpoly : poly.msb = true) (chunk : BitVec k) : Function.Injective (feed poly · chunk) := by
  intro a b h
  exact BitVec.xor_right_inj (chunk.setWidth w) |>.mp (by
    simpa [BitVec.xor_comm] using iterate_injective hpoly k h)

lemma foldl_feed_injective (hpoly : poly.msb = true) (chunks : List (BitVec k)) :
    Function.Injective fun c => chunks.foldl (feed poly) c := by
  induction chunks with
  | nil => exact injective_id
  | cons chunk chunks ih => exact ih.comp (feed_injective hpoly chunk)

def pack (w : ℕ) : List (BitVec k) → BitVec w
  | [] => 0
  | chunk :: chunks => chunk.setWidth w ^^^ (pack w chunks <<< k)

variable {chunks chunks' : List (BitVec k)}

lemma pack_high {i : ℕ} (h : k * chunks.length ≤ i) : (pack w chunks).getLsbD i = false := by
  induction chunks generalizing i with
  | nil => simp [pack]
  | cons chunk chunks ih =>
    rw [List.length_cons, Nat.mul_add_one] at h
    have hrest := ih (i := i - k) (by omega)
    simp [pack, hrest, getLsbD_of_ge chunk i (by omega)]

lemma pack_shift (h : k * chunks.length + k ≤ w) : pack w chunks <<< k >>> k = pack w chunks := by
  apply eq_of_getLsbD_eq
  intro i hi
  by_cases hhigh : k * chunks.length ≤ i
  · rw [pack_high hhigh, getLsbD_ushiftRight, getLsbD_shiftLeft]
    simp [pack_high hhigh]
  · simp
    omega

lemma foldl_feed (c : BitVec w) (h : k * chunks.length ≤ w) :
    chunks.foldl (feed poly) c = (step poly)^[k * chunks.length] (c ^^^ pack w chunks) := by
  induction chunks generalizing c with
  | nil => simp [pack]
  | cons chunk chunks ih =>
    rw [List.length_cons, Nat.mul_add_one] at h
    have hclear : ∀ i < k, (pack w chunks <<< k).getLsbD i = false := by
      intro i hi
      simp [hi]
    rw [List.foldl_cons, ih _ (by omega), List.length_cons, Nat.mul_add_one, iterate_add_apply, feed, pack,
      ← xor_assoc, iterate_xor k (c ^^^ chunk.setWidth w), iterate_clear hclear, pack_shift h]

lemma pack_injective (hlength : chunks.length = chunks'.length)
    (hfits : k * chunks.length ≤ w) (h : pack w chunks = pack w chunks') : chunks = chunks' := by
  induction chunks generalizing chunks' with
  | nil => exact (List.length_eq_zero_iff.mp hlength.symm).symm
  | cons chunk chunks ih =>
    obtain ⟨chunk', chunks', rfl⟩ : ∃ a l, chunks' = a :: l := List.exists_cons_of_length_eq_add_one hlength.symm
    simp only [List.length_cons, Nat.add_right_cancel_iff] at hlength
    rw [List.length_cons, Nat.mul_add_one] at hfits
    have hfirst : chunk = chunk' := by
      apply eq_of_getLsbD_eq
      intro i hi
      have hbit := congrArg (getLsbD · i) h
      simpa [pack, hi, show i < w by omega] using hbit
    subst hfirst
    have hrest : pack w chunks <<< k = pack w chunks' <<< k := xor_right_inj _ |>.mp h
    rw [ih hlength (by omega) ?_]
    rw [← pack_shift hfits, hrest, pack_shift (hlength ▸ hfits)]

lemma foldl_feed_burst (hpoly : poly.msb = true) {c : BitVec w}
    (hlength : chunks.length = chunks'.length) (hfits : k * chunks.length ≤ w)
    (h : chunks.foldl (feed poly) c = chunks'.foldl (feed poly) c) : chunks = chunks' := by
  rw [foldl_feed c hfits, foldl_feed c (hlength ▸ hfits), ← hlength] at h
  exact pack_injective hlength hfits (xor_right_inj c |>.mp (iterate_injective hpoly _ h))

end

end CrickerOs.Library.Feedback
