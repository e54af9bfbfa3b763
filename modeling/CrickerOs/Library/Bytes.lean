import CrickerOs.Library.Outcome

namespace CrickerOs.Library

open List

abbrev Bytes := List UInt8

namespace Bytes

instance lawful : LawfulBEq Bytes := inferInstance

def leVal : Bytes → ℕ
  | [] => 0
  | b :: l => b.toNat + 256 * leVal l

def beVal (l : Bytes) : ℕ := leVal l.reverse

def toLe : (n v : ℕ) → Bytes
  | 0, _ => []
  | n + 1, v => UInt8.ofNat (v % 256) :: toLe n (v / 256)

def toBe (n v : ℕ) : Bytes := (toLe n v).reverse

variable {n v : ℕ} {l : Bytes}

lemma leVal_lt (l : Bytes) : leVal l < 256 ^ l.length := by
  induction l with
  | nil => simp [leVal]
  | cons b l ih =>
    have := b.toNat_lt
    rw [leVal, length_cons, pow_succ]
    omega

lemma beVal_lt (l : Bytes) : beVal l < 256 ^ l.length := by
  simpa [beVal] using leVal_lt l.reverse

@[simp]
lemma length_toLe : (toLe n v).length = n := by
  induction n generalizing v with
  | zero => rfl
  | succ n ih => simp [toLe, ih]

lemma leVal_toLe : leVal (toLe n v) = v % 256 ^ n := by
  induction n generalizing v with
  | zero => simp [toLe, leVal, Nat.mod_one]
  | succ n ih =>
    rw [toLe, leVal, ih, pow_succ', Nat.mod_mul]
    simp

lemma leVal_append (l l' : Bytes) : leVal (l ++ l') = leVal l + 256 ^ l.length * leVal l' := by
  induction l with
  | nil => simp [leVal]
  | cons b l ih =>
    rw [cons_append, leVal, leVal, ih, length_cons, pow_succ]
    ring

lemma leVal_injective {l l' : Bytes} (hlength : l.length = l'.length) (h : leVal l = leVal l') : l = l' := by
  induction l generalizing l' with
  | nil => exact (length_eq_zero_iff.mp hlength.symm).symm
  | cons b l ih =>
    obtain ⟨b', l', rfl⟩ : ∃ a t, l' = a :: t := exists_cons_of_length_eq_add_one hlength.symm
    have hb := b.toNat_lt
    have hb' := b'.toNat_lt
    simp only [leVal] at h
    rw [ih (Nat.succ.inj hlength) (by omega), UInt8.toNat_inj.mp (show b.toNat = b'.toNat by omega)]

lemma beVal_append (l l' : Bytes) : beVal (l ++ l') = beVal l * 256 ^ l'.length + beVal l' := by
  rw [beVal, reverse_append, leVal_append, length_reverse, beVal, beVal]
  ring

@[simp]
lemma length_toBe : (toBe n v).length = n := by
  rw [toBe, length_reverse, length_toLe]

lemma beVal_toBe : beVal (toBe n v) = v % 256 ^ n := by
  rw [beVal, toBe, reverse_reverse, leVal_toLe]

end Bytes

variable {α : Type} {l src : List α} {p pos n i : ℕ}

def window (l : List α) (pos n : ℕ) : List α :=
  (l.drop pos).take n

def overwrite (l : List α) (pos : ℕ) (src : List α) : List α :=
  l.mapIdx fun i a => if pos ≤ i then src[i - pos]?.getD a else a

def copyInto {ε : Type} (l : List α) (pos : ℕ) (src : List α) : Outcome ε (List α) :=
  if pos + src.length ≤ l.length then .ok (overwrite l pos src) else .panic

lemma length_window (h : pos + n ≤ l.length) : (window l pos n).length = n := by
  rw [window, length_take, length_drop]
  omega

lemma getElem?_window : (window l pos n)[i]? = if i < n then l[pos + i]? else none := by
  rw [window, getElem?_take, getElem?_drop]

lemma slice_eq_window {ε : Type} (h : pos + n ≤ l.length) :
    (Outcome.slice l pos (pos + n) : Outcome ε (List α)) = .ok (window l pos n) := by
  rw [Outcome.slice_eq (by omega) h, Nat.add_sub_cancel_left, window]

lemma window_add {m : ℕ} : window l pos (n + m) = window l pos n ++ window l (pos + n) m := by
  rw [window, take_add, drop_drop]
  rfl

lemma window_append_iff {a b : List α} :
    pos + (a ++ b).length ≤ l.length ∧ window l pos (a ++ b).length = a ++ b ↔
      (pos + a.length ≤ l.length ∧ window l pos a.length = a) ∧
        pos + a.length + b.length ≤ l.length ∧ window l (pos + a.length) b.length = b := by
  rw [length_append, window_add]
  constructor
  · rintro ⟨hle, heq⟩
    obtain ⟨ha, hb⟩ := append_inj heq (length_window (by omega))
    exact ⟨⟨by omega, ha⟩, by omega, hb⟩
  · rintro ⟨⟨-, ha⟩, hle, hb⟩
    exact ⟨by omega, by rw [ha, hb]⟩

lemma window_window {p m : ℕ} (h : p + m ≤ n) : window (window l pos n) p m = window l (pos + p) m := by
  apply ext_getElem?
  intro i
  simp only [getElem?_window]
  split_ifs
  · rw [add_assoc]
  · omega
  · rfl

lemma window_eq_of_getElem? {l' : List α} (h : ∀ i < n, l[pos + i]? = l'[i]?) (hlength : l'.length ≤ n) :
    window l pos n = l' := by
  apply ext_getElem?
  intro i
  rw [getElem?_window]
  split_ifs with hi
  · exact h i hi
  · rw [getElem?_eq_none (by omega)]

lemma window_congr {l' : List α} (h : ∀ i, pos ≤ i → i < pos + n → l[i]? = l'[i]?) :
    window l pos n = window l' pos n := by
  apply ext_getElem?
  intro i
  rw [getElem?_window, getElem?_window]
  split_ifs
  · exact h _ (by omega) (by omega)
  · rfl

lemma copyInto_eq {ε : Type} (h : pos + src.length ≤ l.length) :
    (copyInto l pos src : Outcome ε (List α)) = .ok (overwrite l pos src) :=
  if_pos h

@[simp]
lemma length_overwrite : (overwrite l pos src).length = l.length := by
  simp [overwrite]

lemma getElem?_overwrite (hl : pos ≤ i) (hr : i < pos + src.length) (hi : i < l.length) :
    (overwrite l pos src)[i]? = src[i - pos]? := by
  have hsrc : i - pos < src.length := by omega
  simp [overwrite, getElem?_eq_getElem hi, getElem?_eq_getElem hsrc, hl]

lemma getElem?_overwrite_of_disjoint (hi : i < pos ∨ pos + src.length ≤ i) :
    (overwrite l pos src)[i]? = l[i]? := by
  rw [overwrite, getElem?_mapIdx]
  cases l[i]? with
  | none => rfl
  | some a =>
    rw [Option.map_some]
    split_ifs with hpos
    · rw [getElem?_eq_none (by omega)]
      rfl
    · rfl

lemma window_overwrite_self (h : pos + src.length ≤ l.length) :
    window (overwrite l pos src) pos src.length = src := by
  refine window_eq_of_getElem? (fun i hi => ?_) le_rfl
  rw [getElem?_overwrite (by omega) (by omega) (by omega), Nat.add_sub_cancel_left]

lemma window_overwrite_of_disjoint (hp : p + n ≤ pos ∨ pos + src.length ≤ p) :
    window (overwrite l pos src) p n = window l p n := by
  refine window_congr fun i hl hr => ?_
  exact getElem?_overwrite_of_disjoint (by omega)

lemma take_overwrite (h : pos + src.length ≤ l.length) :
    (overwrite l pos src).take (pos + src.length) = l.take pos ++ src := by
  have hsplit : window (overwrite l pos src) 0 (pos + src.length) =
      window (overwrite l pos src) 0 pos ++ window (overwrite l pos src) (0 + pos) src.length := window_add
  rw [zero_add, window_overwrite_self h, window_overwrite_of_disjoint (p := 0) (n := pos) (by omega)] at hsplit
  exact hsplit

lemma window_split (l : List α) (pos n m : ℕ) : window l pos n = (window l pos m).take (min n m) ++
    window l (pos + m) (n - m) := by
  rcases Nat.le_total n m with h | h
  · rw [min_eq_left h, Nat.sub_eq_zero_of_le h, window, window, window, take_take, min_eq_left h, take_zero,
      append_nil]
  · obtain ⟨k, rfl⟩ := Nat.exists_eq_add_of_le h
    rw [min_eq_right h, Nat.add_sub_cancel_left, window_add]
    congr 1
    exact (take_of_length_le (length_take_le _ _)).symm

lemma getElem?_overwrite_eq : (overwrite l pos src)[i]? =
    if pos ≤ i ∧ i < pos + src.length ∧ i < l.length then src[i - pos]? else l[i]? := by
  split_ifs with h
  · exact getElem?_overwrite h.1 h.2.1 h.2.2
  · by_cases hi : i < l.length
    · exact getElem?_overwrite_of_disjoint (by omega)
    · rw [getElem?_eq_none (by rw [length_overwrite]; omega), getElem?_eq_none (by omega)]

lemma overwrite_append {src' : List α} :
    overwrite l pos (src ++ src') = overwrite (overwrite l pos src) (pos + src.length) src' := by
  apply ext_getElem?
  intro i
  simp only [getElem?_overwrite_eq, length_append, length_overwrite]
  by_cases hleft : i < pos + src.length
  · rw [if_neg (by omega : ¬ (pos + src.length ≤ i ∧ _))]
    by_cases hin : pos ≤ i ∧ i < l.length
    · rw [if_pos (by omega), if_pos (by omega), getElem?_append_left (by omega)]
    · rw [if_neg (by omega), if_neg (by omega)]
  · rw [if_neg (by omega : ¬ (pos ≤ i ∧ i < pos + src.length ∧ i < l.length))]
    by_cases hin : i < pos + (src.length + src'.length) ∧ i < l.length
    · rw [if_pos (by omega), if_pos (by omega), getElem?_append_right (by omega), Nat.sub_sub]
    · rw [if_neg (by omega), if_neg (by omega)]

lemma overwrite_window (h : pos + n ≤ l.length) (hsrc : src.length ≤ n) :
    overwrite l pos (overwrite (window l pos n) 0 src) = overwrite l pos src := by
  have hlength := length_window h
  apply ext_getElem?
  intro i
  simp only [getElem?_overwrite_eq, length_overwrite, hlength]
  by_cases hin : pos ≤ i ∧ i < pos + n
  · rw [if_pos (by omega)]
    by_cases hfront : i < pos + src.length
    · rw [if_pos (by omega), if_pos (by omega), Nat.sub_zero]
    · rw [if_neg (by omega), if_neg (by omega), getElem?_window, if_pos (by omega), Nat.add_sub_cancel' hin.1]
  · rw [if_neg (by omega), if_neg (by omega)]

lemma overwrite_nil : overwrite l pos [] = l := by
  apply ext_getElem?
  intro i
  rw [getElem?_overwrite_eq, if_neg (by rw [length_nil]; omega)]

lemma overwrite_full (h : src.length = l.length) : overwrite l 0 src = src := by
  apply ext_getElem?
  intro i
  rw [getElem?_overwrite_eq]
  split_ifs with hi
  · rfl
  · rw [getElem?_eq_none (by omega), getElem?_eq_none (by omega)]

def layout (l : List α) (fields : List (ℕ × List α)) : List α :=
  fields.foldl (fun l field => overwrite l field.1 field.2) l

def Apart (field field' : ℕ × List α) : Prop :=
  field.1 + field.2.length ≤ field'.1 ∨ field'.1 + field'.2.length ≤ field.1

variable {fields : List (ℕ × List α)}

@[simp]
lemma length_layout : (layout l fields).length = l.length := by
  induction fields generalizing l with
  | nil => rfl
  | cons field fields ih => exact ih.trans length_overwrite

lemma getElem?_layout_of_disjoint (h : ∀ field ∈ fields, i < field.1 ∨ field.1 + field.2.length ≤ i) :
    (layout l fields)[i]? = l[i]? := by
  induction fields generalizing l with
  | nil => rfl
  | cons field fields ih =>
    obtain ⟨hfield, hfields⟩ := forall_mem_cons.mp h
    exact (ih hfields).trans (getElem?_overwrite_of_disjoint hfield)

lemma window_layout_of_disjoint (h : ∀ field ∈ fields, p + n ≤ field.1 ∨ field.1 + field.2.length ≤ p) :
    window (layout l fields) p n = window l p n := by
  refine window_congr fun i hl hr => getElem?_layout_of_disjoint fun field hfield => ?_
  have := h field hfield
  omega

lemma window_layout (hapart : fields.Pairwise Apart) (hmem : (pos, src) ∈ fields)
    (hfits : pos + src.length ≤ l.length) : window (layout l fields) pos src.length = src := by
  induction fields generalizing l with
  | nil => exact nomatch hmem
  | cons field fields ih =>
    obtain ⟨hfield, hapart⟩ := pairwise_cons.mp hapart
    rcases mem_cons.mp hmem with rfl | hmem
    · refine (window_layout_of_disjoint hfield).trans (window_overwrite_self hfits)
    · exact ih (l := overwrite l field.1 field.2) hapart hmem (by simpa using hfits)

lemma pairwise_apart_mapIdx {β : Type} {items : List β} {f : ℕ → β → ℕ × List α}
    (h : ∀ i j a b, i < j → (f i a).1 + (f i a).2.length ≤ (f j b).1) : (items.mapIdx f).Pairwise Apart := by
  rw [pairwise_iff_getElem]
  intro i j hi hj hij
  rw [getElem_mapIdx, getElem_mapIdx]
  exact Or.inl (h i j _ _ hij)

lemma window_replicate {a : α} {m : ℕ} (h : pos + n ≤ m) : window (replicate m a) pos n = replicate n a := by
  rw [window, drop_replicate, take_replicate, min_eq_left (by omega)]

lemma window_overwrite_toLe {l : Bytes} {v : ℕ} (h : pos + n ≤ l.length) :
    window (overwrite l pos (Bytes.toLe n v)) pos n = Bytes.toLe n v := by
  have hself : window (overwrite l pos (Bytes.toLe n v)) pos (Bytes.toLe n v).length = Bytes.toLe n v :=
    window_overwrite_self (by rwa [Bytes.length_toLe])
  rwa [Bytes.length_toLe] at hself

end CrickerOs.Library
