import Mathlib

namespace CrickerOs.Library

variable {α : Type*} {P Q : List α → α → Prop} {a : α} {tr before : List α}

def Justified (P : List α → α → Prop) : List α → Prop
  | [] => True
  | a :: before => P before a ∧ Justified P before

lemma Justified.of_suffix (h : Justified P tr) (hs : (a :: before) <:+ tr) : P before a := by
  induction tr with
  | nil => simp at hs
  | cons b tr ih =>
    rcases List.suffix_cons_iff.mp hs with heq | hs
    · obtain ⟨rfl, rfl⟩ := List.cons.inj heq
      exact h.1
    · exact ih h.2 hs

lemma exists_suffix_of_mem (h : a ∈ tr) : ∃ before, (a :: before) <:+ tr := by
  obtain ⟨later, before, rfl⟩ := List.append_of_mem h
  exact ⟨before, later, rfl⟩

lemma Justified.of_mem (h : Justified P tr) (ha : a ∈ tr) : ∃ before, (a :: before) <:+ tr ∧ P before a := by
  obtain ⟨before, hs⟩ := exists_suffix_of_mem ha
  exact ⟨before, hs, h.of_suffix hs⟩

end CrickerOs.Library
