import Mathlib

namespace CrickerOs.Slots

open Function List

variable {α β : Type*} {N : ℕ}

structure Table (α : Type*) (N : ℕ) where
  slots : Fin N → Option α
  gens : Fin N → BitVec 32
  live : ℕ
  counted : live = (Finset.univ.filter fun i => (slots i).isSome).card
  bounded : 0 < N ∧ N ≤ 2 ^ 32 - 1

namespace Table

def new (bounded : 0 < N ∧ N ≤ 2 ^ 32 - 1) : Table α N where
  slots := fun _ => none
  gens := fun _ => 0
  live := 0
  counted := by simp
  bounded := bounded

def len (t : Table α N) : ℕ :=
  t.live

def isEmpty (t : Table α N) : Bool :=
  t.live == 0

def name (slot : ℕ) (generation : BitVec 32) : ℕ :=
  generation.toNat * 2 ^ 32 + slot

def unpack (name : ℕ) : ℕ × ℕ :=
  (name % 2 ^ 32, name / 2 ^ 32)

def nameAt (t : Table α N) (i : Fin N) : ℕ :=
  name i (t.gens i)

def slotOf (t : Table α N) (name : ℕ) : Option (Fin N) :=
  if h : (unpack name).1 < N then
    if (t.gens ⟨_, h⟩).toNat = (unpack name).2 ∧ (t.slots ⟨_, h⟩).isSome then some ⟨_, h⟩ else none
  else none

def get (t : Table α N) (name : ℕ) : Option α :=
  (t.slotOf name).bind t.slots

def containsKey (t : Table α N) (name : ℕ) : Bool :=
  (t.slotOf name).isSome

variable {t u t' : Table α N} {n : ℕ}

lemma nameAt_eq_iff {i : Fin N} :
    t.nameAt i = n ↔ (unpack n).1 = i.val ∧ (t.gens i).toNat = (unpack n).2 := by
  have hi : i.val < 2 ^ 32 := by have := t.bounded; omega
  simp only [nameAt, name, unpack]
  omega

lemma slotOf_eq_some_iff {i : Fin N} :
    t.slotOf n = some i ↔ t.nameAt i = n ∧ (t.slots i).isSome := by
  rw [nameAt_eq_iff]
  unfold slotOf
  constructor
  · intro h
    split at h
    · split at h
      · cases h
        simp_all
      · simp at h
    · simp at h
  · rintro ⟨⟨hslot, hgen⟩, hsome⟩
    have hlt : (unpack n).1 < N := hslot ▸ i.isLt
    have heq : (⟨(unpack n).1, hlt⟩ : Fin N) = i := Fin.ext hslot
    rw [dif_pos hlt, heq, if_pos ⟨hgen, hsome⟩]

lemma slotOf_isSome {i : Fin N} (h : t.slotOf n = some i) : (t.slots i).isSome :=
  (slotOf_eq_some_iff.mp h).2

lemma filter_isSome_update (slots : Fin N → Option α) (i : Fin N) (o : Option α) :
    (Finset.univ.filter fun j => (update slots i o j).isSome).card + (if (slots i).isSome then 1 else 0) =
      (Finset.univ.filter fun j => (slots j).isSome).card + (if o.isSome then 1 else 0) := by
  have hsplit (f : Fin N → Option α) : (Finset.univ.filter fun j => (f j).isSome).card =
      ((Finset.univ.erase i).filter fun j => (f j).isSome).card + (if (f i).isSome then 1 else 0) := by
    rw [← Finset.insert_erase (Finset.mem_univ i), Finset.filter_insert, Finset.erase_insert_eq_erase]
    split <;> simp
  have hsame : ((Finset.univ.erase i).filter fun j => (update slots i o j).isSome) =
      (Finset.univ.erase i).filter fun j => (slots j).isSome := by
    refine Finset.filter_congr fun j hj => ?_
    rw [update_of_ne (Finset.ne_of_mem_erase hj)]
  rw [hsplit (update slots i o), hsplit slots, hsame, update_self]
  omega

section

variable (t : Table α N)

lemma counted_modify (i : Fin N) (f : α → α) :
    t.live = (Finset.univ.filter fun j => (Function.update t.slots i ((t.slots i).map f) j).isSome).card := by
  have h := filter_isSome_update t.slots i ((t.slots i).map f)
  simp only [Option.isSome_map] at h
  rw [t.counted]
  omega

def modify (name : ℕ) (f : α → α) : Table α N :=
  match t.slotOf name with
  | none => t
  | some i =>
    { t with
      slots := Function.update t.slots i ((t.slots i).map f)
      counted := counted_modify t i f }

def fill (i : Fin N) (h : t.slots i = none) (a : α) : Table α N :=
  { t with
    slots := Function.update t.slots i (some a)
    live := t.live + 1
    counted := by
      have h' := filter_isSome_update t.slots i (some a)
      simp only [h, Option.isSome_none, Option.isSome_some, Bool.false_eq_true, if_true, if_false] at h'
      rw [t.counted]
      omega }

def insertWith (f : ℕ → α) : Option (ℕ × Table α N) :=
  match h : (List.finRange N).find? fun i => (t.slots i).isNone with
  | none => none
  | some i => some (t.nameAt i, t.fill i (by simpa using List.find?_some h) (f (t.nameAt i)))

def vacate (i : Fin N) (h : (t.slots i).isSome) : Table α N :=
  { t with
    slots := Function.update t.slots i none
    gens := Function.update t.gens i (t.gens i + 1)
    live := t.live - 1
    counted := by
      have h' := filter_isSome_update t.slots i none
      simp only [h, Option.isSome_none, Bool.false_eq_true, if_true, if_false] at h'
      rw [t.counted]
      omega }

def remove (name : ℕ) : Option (α × Table α N) :=
  match h : t.slotOf name with
  | none => none
  | some i => (t.slots i).map fun a => (a, t.vacate i (slotOf_isSome h))

def iterFrom (start : ℕ) : List (ℕ × ℕ × α) :=
  ((List.finRange N).drop start).filterMap fun i => (t.slots i).map fun a => (i.val, t.nameAt i, a)

def iter : List (ℕ × α) :=
  (t.iterFrom 0).map Prod.snd

def values : List α :=
  (List.finRange N).filterMap t.slots

def mapValues (f : α → α) : Table α N :=
  { t with
    slots := fun i => (t.slots i).map f
    counted := by simpa only [Option.isSome_map] using t.counted }

end

variable {a : α}

lemma get_eq_some_iff :
    t.get n = some a ↔ ∃ i, t.nameAt i = n ∧ t.slots i = some a := by
  unfold get
  rw [Option.bind_eq_some_iff]
  constructor
  · rintro ⟨i, hi, ha⟩
    exact ⟨i, (slotOf_eq_some_iff.mp hi).1, ha⟩
  · rintro ⟨i, hi, ha⟩
    exact ⟨i, slotOf_eq_some_iff.mpr ⟨hi, by simp [ha]⟩, ha⟩

lemma nameAt_slot_inj {u : Table β N} {i j : Fin N} (h : t.nameAt i = u.nameAt j) : i = j := by
  have h := (nameAt_eq_iff.mp h).1
  rw [(nameAt_eq_iff.mp (Eq.refl (u.nameAt j))).1] at h
  exact Fin.ext h.symm

lemma slotOf_eq_of_get (h : t.get n = some a) :
    ∃ i, t.slotOf n = some i ∧ t.nameAt i = n ∧ t.slots i = some a := by
  obtain ⟨i, hi, ha⟩ := get_eq_some_iff.mp h
  exact ⟨i, slotOf_eq_some_iff.mpr ⟨hi, by simp [ha]⟩, hi, ha⟩

lemma slotOf_eq_none_iff : t.slotOf n = none ↔ t.get n = none := by
  rw [get, Option.bind_eq_none_iff]
  constructor
  · intro h
    simp [h]
  · intro h
    cases hs : t.slotOf n with
    | none => rfl
    | some i =>
      have := slotOf_isSome hs
      simp [h i hs] at this

lemma get_congr (h : ∀ i, t.nameAt i = n ∨ u.nameAt i = n →
    t.gens i = u.gens i ∧ t.slots i = u.slots i) : t.get n = u.get n := by
  refine Option.ext fun a => ?_
  rw [get_eq_some_iff, get_eq_some_iff]
  constructor <;> rintro ⟨i, hi, ha⟩
  · obtain ⟨hg, hs⟩ := h i (.inl hi)
    exact ⟨i, by rw [← hi]; simp [nameAt, hg], hs ▸ ha⟩
  · obtain ⟨hg, hs⟩ := h i (.inr hi)
    exact ⟨i, by rw [← hi]; simp [nameAt, hg], hs ▸ ha⟩

@[simp] lemma get_new (h : 0 < N ∧ N ≤ 2 ^ 32 - 1) (n : ℕ) : (new h : Table α N).get n = none := by
  rw [← slotOf_eq_none_iff]
  simp [slotOf, new]

lemma get_modify (t : Table α N) (n : ℕ) (f : α → α) :
    (t.modify n f).get = update t.get n ((t.get n).map f) := by
  funext m
  rw [update_apply]
  unfold modify
  split
  case h_1 h =>
      rw [slotOf_eq_none_iff] at h
      split <;> simp_all
  case h_2 i h =>
      obtain ⟨hname, hsome⟩ := slotOf_eq_some_iff.mp h
      split
      · subst m
        obtain ⟨a, ha⟩ := Option.isSome_iff_exists.mp hsome
        rw [get_eq_some_iff.mpr ⟨i, hname, ha⟩]
        refine get_eq_some_iff.mpr ⟨i, hname, ?_⟩
        simp [ha]
      · rename_i hne
        refine get_congr fun j hj => ⟨rfl, ?_⟩
        refine update_of_ne ?_ _ _
        rintro rfl
        exact hne (hj.elim Eq.symm Eq.symm ▸ hname)

lemma modify_of_get_eq_none (h : t.get n = none) (f : α → α) : t.modify n f = t := by
  rw [modify, slotOf_eq_none_iff.mpr h]

lemma isSome_slots_modify (t : Table α N) (n : ℕ) (f : α → α) (i : Fin N) :
    ((t.modify n f).slots i).isSome = (t.slots i).isSome := by
  rw [modify]
  split
  · rfl
  · simp only [update_apply]
    split
    · subst i
      exact Option.isSome_map
    · rfl

@[simp] lemma gens_modify (t : Table α N) (n : ℕ) (f : α → α) : (t.modify n f).gens = t.gens := by
  rw [modify]
  split <;> rfl

lemma get_nameAt (t : Table α N) (i : Fin N) : t.get (t.nameAt i) = t.slots i := by
  cases h : t.slots i with
  | some a => exact get_eq_some_iff.mpr ⟨i, rfl, h⟩
  | none =>
    rw [Option.eq_none_iff_forall_ne_some]
    intro a ha
    obtain ⟨j, hname, hj⟩ := get_eq_some_iff.mp ha
    rw [nameAt_slot_inj hname, h] at hj
    simp at hj

lemma ext_get (hgens : t.gens = u.gens) (hget : t.get = u.get) : t = u := by
  have hslots : t.slots = u.slots := by
    funext i
    have hname : t.nameAt i = u.nameAt i := by rw [nameAt, nameAt, hgens]
    rw [← get_nameAt t, ← get_nameAt u, hget, hname]
  have hlive : t.live = u.live := by rw [t.counted, u.counted, hslots]
  cases t
  cases u
  simp_all

lemma modify_comm (t : Table α N) {m : ℕ} (h : m ≠ n) (f g : α → α) :
    (t.modify m f).modify n g = (t.modify n g).modify m f := by
  refine ext_get (by simp) ?_
  rw [get_modify, get_modify, get_modify, get_modify, update_of_ne h, update_of_ne h.symm,
    update_comm h]

variable {f : ℕ → α}

lemma insertWith_eq_some (h : t.insertWith f = some (n, t')) :
    ∃ i, t.slots i = none ∧ (∀ j < i, (t.slots j).isSome) ∧ t.nameAt i = n ∧
      t'.slots = update t.slots i (some (f n)) ∧ t'.gens = t.gens := by
  unfold insertWith at h
  split at h
  · simp at h
  · rename_i i hi
    cases h
    refine ⟨i, by simpa using find?_some hi, ?_, rfl, rfl, rfl⟩
    intro j hj
    obtain ⟨-, as, bs, hsplit, has⟩ := find?_eq_some_iff_append.mp hi
    have hmem : j ∈ as := by
      have hpw : (as ++ i :: bs).Pairwise (· < ·) := hsplit ▸ pairwise_lt_finRange N
      have hall : j ∈ as ++ i :: bs := hsplit ▸ mem_finRange j
      rcases mem_append.mp hall with hin | hin
      · exact hin
      · rcases mem_cons.mp hin with rfl | hin
        · exact absurd hj (lt_irrefl _)
        · have := (pairwise_cons.mp (pairwise_append.mp hpw).2.1).1 j hin
          exact absurd (hj.trans this) (lt_irrefl _)
    simpa using has j hmem

lemma insertWith_eq_none_iff :
    t.insertWith f = none ↔ ∀ i, (t.slots i).isSome := by
  unfold insertWith
  split
  · rename_i h
    refine ⟨fun _ i => ?_, fun _ => rfl⟩
    simpa [Option.isSome_iff_ne_none] using find?_eq_none.mp h i (mem_finRange i)
  · rename_i i h
    have := find?_some h
    simp only [reduceCtorEq, false_iff, not_forall]
    exact ⟨i, by simp_all⟩

lemma get_insertWith (h : t.insertWith f = some (n, t')) :
    t'.get = update t.get n (some (f n)) := by
  funext m
  rw [update_apply]
  obtain ⟨i, hi, -, rfl, hslots, hgens⟩ := insertWith_eq_some h
  have hname : t'.nameAt i = t.nameAt i := by simp [nameAt, hgens]
  split
  · rename_i hm
    exact get_eq_some_iff.mpr ⟨i, hname.trans hm.symm, by simp [hslots]⟩
  · rename_i hm
    refine get_congr fun j hj => ⟨by rw [hgens], ?_⟩
    rw [hslots]
    refine update_of_ne ?_ _ _
    rintro rfl
    rw [hname, or_self] at hj
    exact hm hj.symm

lemma get_eq_none_of_insertWith
    (h : t.insertWith f = some (n, t')) : t.get n = none := by
  obtain ⟨i, hi, -, rfl, -, -⟩ := insertWith_eq_some h
  refine Option.eq_none_iff_forall_not_mem.mpr fun a ha => ?_
  obtain ⟨j, hj, hja⟩ := get_eq_some_iff.mp ha
  cases nameAt_slot_inj hj
  simp [hi] at hja

lemma remove_eq_some (h : t.remove n = some (a, t')) :
    ∃ i, t.nameAt i = n ∧ t.slots i = some a ∧ t'.slots = update t.slots i none ∧
      t'.gens = update t.gens i (t.gens i + 1) := by
  unfold remove at h
  split at h
  · simp at h
  · rename_i i hi
    obtain ⟨b, hb, heq⟩ := Option.map_eq_some_iff.mp h
    cases heq
    exact ⟨i, (slotOf_eq_some_iff.mp hi).1, hb, rfl, rfl⟩

lemma get_of_remove (h : t.remove n = some (a, t')) : t.get n = some a := by
  obtain ⟨i, hname, ha, -, -⟩ := remove_eq_some h
  exact get_eq_some_iff.mpr ⟨i, hname, ha⟩

lemma get_remove (h : t.remove n = some (a, t')) :
    t'.get = update t.get n none := by
  funext m
  rw [update_apply]
  obtain ⟨i, rfl, ha, hslots, hgens⟩ := remove_eq_some h
  have hother (j : Fin N) (hj : j ≠ i) : t'.nameAt j = t.nameAt j := by
    simp [nameAt, hgens, update_of_ne hj]
  have hout (b : α) (hb : t'.get m = some b) : ∃ j, j ≠ i ∧ t.nameAt j = m ∧ t.slots j = some b := by
    obtain ⟨j, hj, hb⟩ := get_eq_some_iff.mp hb
    have hne : j ≠ i := by
      rintro rfl
      simp [hslots] at hb
    exact ⟨j, hne, hother j hne ▸ hj, by rwa [hslots, update_of_ne hne] at hb⟩
  refine Option.ext fun b => ⟨fun hb => ?_, fun hb => ?_⟩
  · obtain ⟨j, hne, hj, hb⟩ := hout b hb
    rw [if_neg (fun hm => hne (nameAt_slot_inj (hj.trans hm)))]
    exact get_eq_some_iff.mpr ⟨j, hj, hb⟩
  · split at hb
    · simp at hb
    · rename_i hm
      obtain ⟨j, hj, hb⟩ := get_eq_some_iff.mp hb
      have hne : j ≠ i := by
        rintro rfl
        exact hm hj.symm
      exact get_eq_some_iff.mpr ⟨j, (hother j hne).trans hj, by rwa [hslots, update_of_ne hne]⟩

lemma remove_eq_none_iff : t.remove n = none ↔ t.get n = none := by
  unfold remove
  split
  · rename_i h
    simpa [slotOf_eq_none_iff] using h
  · rename_i i h
    rw [Option.map_eq_none_iff, get, h, Option.bind_some]

@[simp] lemma get_mapValues (t : Table α N) (f : α → α) (n : ℕ) : (t.mapValues f).get n = (t.get n).map f := by
  refine Option.ext fun b => ?_
  rw [get_eq_some_iff, Option.map_eq_some_iff]
  constructor
  · rintro ⟨i, hi, hb⟩
    obtain ⟨a, ha, rfl⟩ := Option.map_eq_some_iff.mp hb
    exact ⟨a, get_eq_some_iff.mpr ⟨i, hi, ha⟩, rfl⟩
  · rintro ⟨a, ha, rfl⟩
    obtain ⟨i, hi, ha⟩ := get_eq_some_iff.mp ha
    exact ⟨i, hi, by simp [mapValues, ha]⟩

lemma mem_iter_iff : (n, a) ∈ t.iter ↔ t.get n = some a := by
  rw [get_eq_some_iff]
  simp [iter, iterFrom]
  grind

lemma name_lt_of_get (h : t.get n = some a) : n < 2 ^ 64 - 1 := by
  obtain ⟨i, rfl, -⟩ := get_eq_some_iff.mp h
  have hg := (t.gens i).isLt
  have hb := t.bounded
  simp only [nameAt, name]
  omega

lemma mem_values_iff : a ∈ t.values ↔ ∃ n, t.get n = some a := by
  simp only [values, mem_filterMap, mem_finRange, true_and]
  constructor
  · rintro ⟨i, hi⟩
    exact ⟨t.nameAt i, get_eq_some_iff.mpr ⟨i, rfl, hi⟩⟩
  · rintro ⟨n, hn⟩
    obtain ⟨i, -, hi⟩ := get_eq_some_iff.mp hn
    exact ⟨i, hi⟩

end Table

end CrickerOs.Slots
