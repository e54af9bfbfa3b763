import Mathlib.Data.List.Basic
import Mathlib.Data.List.Induction

namespace CrickerOs.Library.Cells

variable {α : Type}

def lookup (cells : List (Option α)) (i : ℕ) : Option α := cells[i]?.join

def vacancy (start : ℕ) (cells : List (Option α)) : Option ℕ :=
  ((cells.drop start).findIdx? (·.isNone)).map (· + start)

def put (cells : List (Option α)) (i : ℕ) (a : α) : List (Option α) := cells.set i (some a)

def clear (cells : List (Option α)) (i : ℕ) : List (Option α) := cells.set i none

def place (start : ℕ) (cells : List (Option α)) (a : α) : ℕ × List (Option α) :=
  match vacancy start cells with
  | some i => (i, put cells i a)
  | none => (cells.length, cells ++ [some a])

variable {cells : List (Option α)} {start i j : ℕ} {a b : α}

lemma lookup_eq_some : lookup cells i = some a ↔ cells[i]? = some (some a) := by
  rw [lookup, Option.join_eq_some_iff]

lemma lookup_of_length_le (h : cells.length ≤ i) : lookup cells i = none := by
  rw [lookup, List.getElem?_eq_none h, Option.join_none]

@[simp]
lemma length_clear : (clear cells i).length = cells.length := List.length_set

lemma lookup_put_self (h : i < cells.length) : lookup (put cells i a) i = some a := by
  rw [lookup, put, List.getElem?_set_self h, Option.join_some]

lemma lookup_put_of_ne (h : i ≠ j) : lookup (put cells i a) j = lookup cells j := by
  rw [lookup, put, List.getElem?_set_ne h, lookup]

lemma lookup_clear_self : lookup (clear cells i) i = none := by
  by_cases h : i < cells.length
  · rw [lookup, clear, List.getElem?_set_self h, Option.join_some]
  · exact lookup_of_length_le (by rw [length_clear]; omega)

lemma lookup_clear_of_ne (h : i ≠ j) : lookup (clear cells i) j = lookup cells j := by
  rw [lookup, clear, List.getElem?_set_ne h, lookup]

lemma lookup_of_lookup_clear (h : lookup (clear cells i) j = some a) : j ≠ i ∧ lookup cells j = some a := by
  by_cases hj : i = j
  · rw [← hj, lookup_clear_self] at h
    exact nomatch h
  · rw [lookup_clear_of_ne hj] at h
    exact ⟨Ne.symm hj, h⟩

lemma vacancy_eq_some (h : vacancy start cells = some i) :
    start ≤ i ∧ i < cells.length ∧ lookup cells i = none ∧ ∀ j, start ≤ j → j < i → lookup cells j ≠ none := by
  obtain ⟨k, hk, rfl⟩ := Option.map_eq_some_iff.mp h
  obtain ⟨hlt, hfree, htaken⟩ := List.findIdx?_eq_some_iff_getElem.mp hk
  rw [List.length_drop] at hlt
  refine ⟨by omega, by omega, ?_, fun j hj hlt' => ?_⟩
  · rw [List.getElem_drop, Option.isNone_iff_eq_none] at hfree
    rw [lookup, List.getElem?_eq_getElem (by omega), Option.join_some, ← hfree]
    congr 1
    omega
  · have := htaken (j - start) (by omega)
    rw [List.getElem_drop] at this
    rw [lookup, List.getElem?_eq_getElem (by omega), Option.join_some]
    intro hnone
    apply this
    rw [Option.isNone_iff_eq_none, ← hnone]
    congr 1
    omega

end CrickerOs.Library.Cells
