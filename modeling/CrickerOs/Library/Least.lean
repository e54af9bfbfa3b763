import Mathlib

namespace CrickerOs.Library

open List

variable {α : Type} [LinearOrder α]

def place (x : α) (l : List α) : List α := l.insertIdx (l.findIdx (x < ·)) x

section

variable {x y : α} {l : List α}

lemma place_cons : place x (y :: l) = if x < y then x :: y :: l else y :: place x l := by
  rw [place, findIdx_cons]
  split_ifs with h
  · rw [decide_eq_true h]
    rfl
  · rw [decide_eq_false h]
    rfl

lemma mem_place : y ∈ place x l ↔ y = x ∨ y ∈ l := by
  rw [place, (perm_insertIdx x l findIdx_le_length).mem_iff, mem_cons]

lemma length_place : (place x l).length = l.length + 1 := by
  rw [place, (perm_insertIdx x l findIdx_le_length).length_eq, length_cons]

lemma sorted_place (hl : l.Pairwise (· < ·)) (hx : x ∉ l) : (place x l).Pairwise (· < ·) := by
  induction l with
  | nil => exact pairwise_singleton _ _
  | cons y l ih =>
    obtain ⟨hy, hl⟩ := pairwise_cons.mp hl
    rw [mem_cons, not_or] at hx
    obtain ⟨hne, hx⟩ := hx
    rw [place_cons]
    split_ifs with h
    · refine pairwise_cons.mpr ⟨fun z hz => ?_, pairwise_cons.mpr ⟨hy, hl⟩⟩
      rcases mem_cons.mp hz with rfl | hz
      · exact h
      · exact h.trans (hy z hz)
    · refine pairwise_cons.mpr ⟨fun z hz => ?_, ih hl hx⟩
      rcases mem_place.mp hz with rfl | hz
      · exact lt_of_le_of_ne (not_lt.mp h) (Ne.symm hne)
      · exact hy z hz

end

structure Least (k : ℕ) (s : Set α) (l : List α) : Prop where
  sorted : l.Pairwise (· < ·)
  length_le : l.length ≤ k
  mem : ∀ x ∈ l, x ∈ s
  left_out : ∀ x ∈ s, x ∉ l → l.length = k ∧ ∀ y ∈ l, y < x

namespace Least

variable {k : ℕ} {s : Set α} {l : List α} {x : α}

lemma nil : Least k (∅ : Set α) [] :=
  ⟨List.Pairwise.nil, Nat.zero_le _, fun _ h => (nomatch h), fun _ h => h.elim⟩

lemma insert_place (h : Least k s l) (hx : x ∉ l) (hroom : l.length < k) : Least k (insert x s) (place x l) := by
  refine ⟨sorted_place h.sorted hx, ?_, fun y hy => ?_, fun y hy hnot => ?_⟩
  · rw [length_place]
    exact hroom
  · rcases mem_place.mp hy with rfl | hy
    · exact Set.mem_insert _ _
    · exact Set.mem_insert_of_mem _ (h.mem y hy)
  · rw [mem_place, not_or] at hnot
    have hfull := (h.left_out y (Set.mem_of_mem_insert_of_ne hy hnot.1) hnot.2).1
    omega

lemma insert_above (h : Least k s l) (hfull : l.length = k) (habove : ∀ y ∈ l, y < x) :
    Least k (insert x s) l := by
  refine ⟨h.sorted, h.length_le, fun y hy => Set.mem_insert_of_mem _ (h.mem y hy), fun y hy hnot => ?_⟩
  rcases Set.mem_insert_iff.mp hy with rfl | hy
  · exact ⟨hfull, habove⟩
  · exact h.left_out y hy hnot

lemma insert_displace (h : Least k s l) (hx : x ∉ l) (hfull : l.length = k) {z : α} (hz : z ∈ l) (hlt : x < z) :
    Least k (insert x s) (place x l).dropLast := by
  have hsorted := sorted_place h.sorted hx
  have hne : place x l ≠ [] := by
    rw [← length_pos_iff, length_place]
    omega
  have hlast := dropLast_append_getLast hne
  have hbelow : ∀ y ∈ (place x l).dropLast, y < (place x l).getLast hne := fun y hy => by
    rw [← hlast, pairwise_append] at hsorted
    exact hsorted.2.2 y hy _ (mem_singleton_self _)
  -- the last one is not the new one, as that is below another
  have hxlast : x < (place x l).getLast hne := by
    have hmem : z ∈ (place x l).dropLast ++ [(place x l).getLast hne] := by
      rw [hlast]
      exact mem_place.mpr (.inr hz)
    rcases mem_append.mp hmem with hmem | hmem
    · exact hlt.trans (hbelow z hmem)
    · rwa [← mem_singleton.mp hmem]
  have hlength : (place x l).dropLast.length = k := by
    rw [length_dropLast, length_place, hfull, Nat.add_sub_cancel]
  refine ⟨hsorted.sublist (dropLast_sublist _), hlength.le, fun y hy => ?_, fun y hy hnot => ⟨hlength, ?_⟩⟩
  · rcases mem_place.mp (dropLast_subset _ hy) with rfl | hy
    · exact Set.mem_insert _ _
    · exact Set.mem_insert_of_mem _ (h.mem y hy)
  · -- what is left out is the last one, or it was left out before and is above that
    have hge : (place x l).getLast hne ≤ y := by
      by_cases hyp : y ∈ place x l
      · rw [← hlast] at hyp
        rcases mem_append.mp hyp with hyp | hyp
        · exact absurd hyp hnot
        · exact (mem_singleton.mp hyp).ge
      · rw [mem_place, not_or] at hyp
        have hout := (h.left_out y (Set.mem_of_mem_insert_of_ne hy hyp.1) hyp.2).2
        rcases mem_place.mp (getLast_mem hne) with heq | hmem
        · exact absurd heq hxlast.ne'
        · exact (hout _ hmem).le
    exact fun w hw => (hbelow w hw).trans_le hge

section

variable {t : Finset α}

lemma exists_left_out (h : Least k (t : Set α) l) : (∃ x ∈ t, x ∉ l) ↔ k < t.card := by
  have hcard : l.toFinset.card = l.length := toFinset_card_of_nodup (h.sorted.imp fun hlt => hlt.ne)
  constructor
  · rintro ⟨x, hx, hnot⟩
    have hle : insert x l.toFinset ⊆ t := by
      refine Finset.insert_subset hx fun y hy => ?_
      exact h.mem y (mem_toFinset.mp hy)
    have := Finset.card_le_card hle
    rw [Finset.card_insert_of_notMem (mt mem_toFinset.mp hnot), hcard, (h.left_out x hx hnot).1] at this
    exact this
  · intro hlt
    by_contra hall
    push Not at hall
    have := Finset.card_le_card fun x hx => mem_toFinset.mpr (hall x hx)
    have := h.length_le
    omega

lemma length_eq (h : Least k (t : Set α) l) : l.length = min k t.card := by
  have hcard : l.toFinset.card = l.length := toFinset_card_of_nodup (h.sorted.imp fun hlt => hlt.ne)
  have hle : l.toFinset.card ≤ t.card := Finset.card_le_card fun x hx => h.mem x (mem_toFinset.mp hx)
  have hk := h.length_le
  by_cases hlt : k < t.card
  · obtain ⟨x, hx, hnot⟩ := h.exists_left_out.mpr hlt
    have := (h.left_out x hx hnot).1
    omega
  · have hall : ∀ x ∈ t, x ∈ l.toFinset := fun x hx => by
      by_contra hnot
      exact hlt (h.exists_left_out.mp ⟨x, hx, mt mem_toFinset.mpr hnot⟩)
    have := Finset.card_le_card hall
    omega

end

end Least

end CrickerOs.Library
