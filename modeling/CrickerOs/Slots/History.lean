import CrickerOs.Library.Runs
import CrickerOs.Slots.Table

namespace CrickerOs.Slots

open Library Function Table List Option

variable {α : Type*} {N : ℕ}

/-- `issued` are the names returned so far, newest first, and `entries` what was inserted under each name and not
removed since. No operation reads them. -/
structure History (α : Type*) (N : ℕ) where
  table : Table α N
  issued : List ℕ
  entries : ℕ → Option α

inductive Operation (α : Type*)
  | insertWith (f : ℕ → α)
  | remove (name : ℕ)

namespace History

def new (bounded : 0 < N ∧ N ≤ 2 ^ 32 - 1) : History α N where
  table := Table.new bounded
  issued := []
  entries := fun _ => none

variable (h : History α N)

def insertWith (f : ℕ → α) : History α N :=
  match h.table.insertWith f with
  | none => h
  | some (name, table) =>
    { table, issued := name :: h.issued, entries := Function.update h.entries name (some (f name)) }

def remove (name : ℕ) : History α N :=
  let entries := Function.update h.entries name none
  match h.table.remove name with
  | none => { h with entries }
  | some (_, table) => { h with table, entries }

def step : Operation α → Option (History α N)
  | .insertWith f => some (h.insertWith f)
  | .remove name => some (h.remove name)

def uses (slot : ℕ) : ℕ :=
  h.issued.countP fun n => (Table.unpack n).1 = slot

def Unwrapped : Prop :=
  ∀ slot, h.uses slot ≤ 2 ^ 32

end History

lemma Table.unpack_name {i : ℕ} (hi : i < 2 ^ 32) (g : BitVec 32) : unpack (name i g) = (i, g.toNat) := by
  simp only [unpack, name, Prod.mk.injEq]
  omega

lemma Table.slot_lt (t : Table α N) (i : Fin N) : i.val < 2 ^ 32 := by
  have := t.bounded
  omega

namespace History

lemma uses_cons (h : History α N) (table : Table α N) (entries : ℕ → Option α) (n slot : ℕ) :
    (History.mk table (n :: h.issued) entries).uses slot =
      h.uses slot + if (unpack n).1 = slot then 1 else 0 := by
  simp [uses, countP_cons]

structure Sound (h : History α N) : Prop where
  entries : h.entries = h.table.get
  vacant : ∀ i, h.table.slots i = none → (h.table.gens i).toNat = h.uses i % 2 ^ 32
  occupied : ∀ i, (h.table.slots i).isSome → ∃ k, h.uses i = k + 1 ∧ (h.table.gens i).toNat = k % 2 ^ 32
  issued : ∀ n ∈ h.issued, ∃ i : Fin N, ∃ k < h.uses i, Table.unpack n = (i.val, k % 2 ^ 32)
  nodup : h.Unwrapped → h.issued.Nodup
  live : ∀ n, (h.entries n).isSome → n ∈ h.issued

lemma Sound.new (bounded : 0 < N ∧ N ≤ 2 ^ 32 - 1) : Sound (History.new bounded : History α N) where
  entries := by
    funext n
    simp [History.new]
  vacant i _ := by simp [History.new, Table.new, uses]
  occupied i hi := by simp [History.new, Table.new] at hi
  issued n hn := by simp [History.new] at hn
  nodup _ := nodup_nil
  live n hn := by simp [History.new] at hn

variable {h : History α N}

lemma Sound.fresh (hs : h.Sound) {i : Fin N} (hi : h.table.slots i = none) (huses : h.uses i < 2 ^ 32) :
    h.table.nameAt i ∉ h.issued := by
  intro hmem
  obtain ⟨j, k, hk, hj⟩ := hs.issued _ hmem
  have hname : unpack (h.table.nameAt i) = (i.val, h.uses i) := by
    rw [nameAt, unpack_name (h.table.slot_lt i), hs.vacant i hi, Nat.mod_eq_of_lt huses]
  rw [hname, Prod.mk.injEq] at hj
  cases Fin.ext hj.1
  have := hj.2
  rw [Nat.mod_eq_of_lt (by omega)] at this
  omega

lemma Sound.insertWith (hs : h.Sound) (f : ℕ → α) : (h.insertWith f).Sound := by
  unfold History.insertWith
  split
  · exact hs
  · rename_i n t hins
    obtain ⟨i, hi, -, rfl, hslots, hgens⟩ := insertWith_eq_some hins
    have hunpack : unpack (h.table.nameAt i) = (i.val, (h.table.gens i).toNat) :=
      unpack_name (h.table.slot_lt i) _
    have huses (slot : ℕ) : (History.mk t (h.table.nameAt i :: h.issued)
        (update h.entries (h.table.nameAt i) (some (f (h.table.nameAt i))))).uses slot =
          h.uses slot + if i.val = slot then 1 else 0 := by
      rw [uses_cons, hunpack]
    constructor
    · rw [hs.entries]
      exact (get_insertWith hins).symm
    · intro j hj
      have hne : j ≠ i := by
        rintro rfl
        simp [hslots] at hj
      rw [huses, if_neg (fun heq => hne (Fin.ext heq.symm)), add_zero]
      simp only [hslots, update_of_ne hne] at hj
      simpa only [hgens] using hs.vacant j hj
    · intro j hj
      simp only [huses, hgens]
      by_cases hji : j = i
      · subst hji
        exact ⟨h.uses j, by simp, hs.vacant j hi⟩
      · simp only [hslots, update_of_ne hji] at hj
        rw [if_neg (fun heq => hji (Fin.ext heq.symm)), add_zero]
        exact hs.occupied j hj
    · intro m hm
      simp only [huses]
      rcases mem_cons.mp hm with rfl | hm
      · exact ⟨i, h.uses i, by simp, by rw [hunpack, hs.vacant i hi]⟩
      · obtain ⟨j, k, hk, hj⟩ := hs.issued m hm
        exact ⟨j, k, by omega, hj⟩
    · intro hw
      have hold : h.Unwrapped := fun slot => by
        have := huses slot ▸ hw slot
        omega
      have hlt : h.uses i < 2 ^ 32 := by
        have := huses i ▸ hw i
        simp only [if_true] at this
        omega
      exact nodup_cons.mpr ⟨hs.fresh hi hlt, hs.nodup hold⟩
    · intro m hm
      rcases eq_or_ne m (h.table.nameAt i) with rfl | hne
      · exact mem_cons_self
      · simp only [update_of_ne hne] at hm
        exact mem_cons_of_mem _ (hs.live m hm)

lemma Sound.remove (hs : h.Sound) (name : ℕ) : (h.remove name).Sound := by
  unfold History.remove
  split
  · rename_i hrem
    have hnone : h.entries name = none := by rw [hs.entries, remove_eq_none_iff.mp hrem]
    rwa [update_eq_self_iff.mpr hnone.symm]
  · rename_i a t hrem
    obtain ⟨i, -, hi, hslots, hgens⟩ := remove_eq_some hrem
    refine ⟨?_, ?_, ?_, hs.issued, hs.nodup, ?_⟩
    · rw [hs.entries]
      exact (get_remove hrem).symm
    · intro j hj
      change (t.gens j).toNat = h.uses j % 2 ^ 32
      by_cases hji : j = i
      · subst hji
        obtain ⟨k, hk, hg⟩ := hs.occupied j (by simp [hi])
        rw [hgens, update_self, BitVec.toNat_add, hg, hk]
        simp
      · simp only [hslots, update_of_ne hji] at hj
        rw [hgens, update_of_ne hji]
        exact hs.vacant j hj
    · intro j hj
      have hji : j ≠ i := by
        rintro rfl
        simp [hslots] at hj
      simp only [hslots, update_of_ne hji] at hj
      change ∃ k, h.uses j = k + 1 ∧ (t.gens j).toNat = k % 2 ^ 32
      rw [hgens, update_of_ne hji]
      exact hs.occupied j hj
    · intro m hm
      rcases eq_or_ne m name with rfl | hne
      · simp at hm
      · simp only [update_of_ne hne] at hm
        exact hs.live m hm

lemma Sound.step {h' : History α N} {op : Operation α} (hs : h.Sound) (hstep : h.step op = some h') :
    h'.Sound := by
  cases op with
  | insertWith f => exact some.inj hstep ▸ hs.insertWith f
  | remove name => exact some.inj hstep ▸ hs.remove name

lemma reach_sound {bounded : 0 < N ∧ N ≤ 2 ^ 32 - 1}
    (h' : Reach step always (· = (History.new bounded : History α N)) h) : h.Sound := by
  refine h'.invariant Sound ?_ fun _ _ _ hs _ hstep => hs.step hstep
  rintro _ rfl
  exact .new bounded

structure Faithful (h : History α N) : Prop where
  get : h.table.get = h.entries
  modify : ∀ n f, (h.table.modify n f).get = Function.update h.entries n ((h.entries n).map f)
  slotOf : ∀ n, (h.table.slotOf n).map Fin.val = (h.entries n).map fun _ => (Table.unpack n).1
  iterFrom : ∀ k i n a, (i, n, a) ∈ h.table.iterFrom k ↔ k ≤ i ∧ i = (Table.unpack n).1 ∧ h.entries n = some a
  ordered : ∀ k, ((h.table.iterFrom k).map Prod.fst).Pairwise (· < ·)
  iter : h.table.iter = (h.table.iterFrom 0).map Prod.snd
  len : h.table.len = {n | (h.entries n).isSome}.ncard

end History

namespace Table

variable {t : Table α N}

lemma slotOf_map_val (t : Table α N) (n : ℕ) : (t.slotOf n).map Fin.val = (t.get n).map fun _ => (unpack n).1 := by
  cases hget : t.get n with
  | none => simp [slotOf_eq_none_iff.mpr hget]
  | some a =>
    obtain ⟨i, hi, hname, -⟩ := slotOf_eq_of_get hget
    simp [hi, (nameAt_eq_iff.mp hname).1]

lemma mem_iterFrom_iff {k i n : ℕ} {a : α} :
    (i, n, a) ∈ t.iterFrom k ↔ k ≤ i ∧ i = (unpack n).1 ∧ t.get n = some a := by
  have hdrop (j : Fin N) : j ∈ (finRange N).drop k ↔ k ≤ j.val := by
    rw [mem_drop_iff_getElem]
    constructor
    · rintro ⟨m, hm, rfl⟩
      simp
    · intro hj
      exact ⟨j.val - k, by simp; omega, by simp [Fin.ext_iff]; omega⟩
  simp only [iterFrom, mem_filterMap, map_eq_some_iff, Prod.mk.injEq, hdrop]
  constructor
  · rintro ⟨j, hj, b, hb, rfl, rfl, rfl⟩
    exact ⟨hj, (nameAt_eq_iff.mp rfl).1.symm, get_eq_some_iff.mpr ⟨j, rfl, hb⟩⟩
  · rintro ⟨hk, rfl, hget⟩
    obtain ⟨j, hj, hb⟩ := get_eq_some_iff.mp hget
    have hslot := (nameAt_eq_iff.mp hj).1
    exact ⟨j, by omega, a, hb, hslot.symm, hj, rfl⟩

lemma pairwise_iterFrom (t : Table α N) (k : ℕ) : ((t.iterFrom k).map Prod.fst).Pairwise (· < ·) := by
  rw [pairwise_map, iterFrom, pairwise_filterMap]
  refine ((pairwise_lt_finRange N).drop).imp ?_
  intro i j hij a ha b hb
  obtain ⟨_, -, rfl⟩ := map_eq_some_iff.mp ha
  obtain ⟨_, -, rfl⟩ := map_eq_some_iff.mp hb
  exact hij

lemma len_eq_ncard (t : Table α N) : t.len = {n | (t.get n).isSome}.ncard := by
  have hset : {n | (t.get n).isSome} = t.nameAt '' {i | (t.slots i).isSome} := by
    ext n
    simp only [Set.mem_ofPred_eq, Set.mem_image, isSome_iff_exists, get_eq_some_iff]
    grind
  rw [hset, Set.ncard_image_of_injective _ fun i j hij => nameAt_slot_inj hij, len, t.counted,
    Set.ncard_eq_toFinset_card']
  congr 1
  ext i
  simp

/-- A name that was given out, as long as no generation runs out: something is stored under it, or its slot has
moved on since. -/
def Issued (t : Table α N) (n : ℕ) : Prop :=
  (t.get n).isSome ∨ ∀ i : Fin N, i.val = (unpack n).1 → (unpack n).2 < (t.gens i).toNat

lemma issued_of_get {n : ℕ} {a : α} (h : t.get n = some a) : t.Issued n :=
  .inl (by simp [h])

variable {t' : Table α N}

lemma not_issued_of_insertWith {f : ℕ → α} {n : ℕ} (h : t.insertWith f = some (n, t')) :
    ¬t.Issued n := by
  obtain ⟨i, -, -, hname, -, -⟩ := insertWith_eq_some h
  obtain ⟨hslot, hgen⟩ := nameAt_eq_iff.mp hname
  rintro (hs | hlt)
  · simp [get_eq_none_of_insertWith h] at hs
  · exact absurd hgen.symm (hlt i hslot.symm).ne

lemma Issued.congr {n : ℕ} (h : t.Issued n) (hgens : t'.gens = t.gens)
    (hget : (t.get n).isSome → (t'.get n).isSome) : t'.Issued n :=
  h.imp hget fun hlt => hgens ▸ hlt

lemma Issued.remove {m n : ℕ} {a : α} (h : t.Issued n) (hrem : t.remove m = some (a, t'))
    (hlast : (unpack m).2 + 1 < 2 ^ 32) : t'.Issued n := by
  obtain ⟨i, hname, -, -, hgens⟩ := remove_eq_some hrem
  obtain ⟨hslot, hgen⟩ := nameAt_eq_iff.mp hname
  have hsucc : (t.gens i + 1).toNat = (unpack m).2 + 1 := by
    rw [BitVec.toNat_add, hgen]
    exact Nat.mod_eq_of_lt hlast
  have hle (j : Fin N) : (t.gens j).toNat ≤ (t'.gens j).toNat := by
    rw [hgens, update_apply]
    split
    · subst j
      omega
    · exact le_rfl
  rcases h with hs | hlt
  · by_cases hnm : n = m
    · subst hnm
      refine .inr fun j hj => ?_
      rw [hgens, Fin.ext (hj.trans hslot), update_self, hsucc]
      exact Nat.lt_succ_self _
    · refine .inl ?_
      rwa [get_remove hrem, update_of_ne hnm]
  · exact .inr fun j hj => (hlt j hj).trans_le (hle j)

end Table

namespace History

lemma Sound.faithful {h : History α N} (hs : h.Sound) : h.Faithful where
  get := hs.entries.symm
  modify n f := by rw [get_modify, hs.entries]
  slotOf n := by rw [slotOf_map_val, hs.entries]
  iterFrom k i n a := by rw [mem_iterFrom_iff, hs.entries]
  ordered := pairwise_iterFrom h.table
  iter := rfl
  len := by rw [len_eq_ncard, hs.entries]

lemma Sound.issued_lt {h : History α N} (hs : h.Sound) {n : ℕ} (hn : n ∈ h.issued) : n < 2 ^ 64 - 1 := by
  obtain ⟨i, k, -, hi⟩ := hs.issued n hn
  have hlt := h.table.bounded
  have hi' := i.isLt
  simp only [unpack, Prod.mk.injEq] at hi
  omega

theorem names_die_with_what_they_named {bounded : 0 < N ∧ N ≤ 2 ^ 32 - 1} {h : History α N}
    (hrun : Reach step always (· = History.new bounded) h) (hw : h.Unwrapped) :
    h.issued.Nodup ∧ (∀ n ∈ h.issued, n ≠ 2 ^ 64 - 1) ∧ (∀ n, (h.entries n).isSome → n ∈ h.issued) ∧
      h.Faithful := by
  have hs := reach_sound hrun
  exact ⟨hs.nodup hw, fun n hn => (hs.issued_lt hn).ne, hs.live, hs.faithful⟩

theorem names_die_with_what_they_named_reused :
    ∃ h : History Bool 1, execute step always (History.new (by decide))
        [.insertWith fun _ => true, .remove 0, .insertWith fun _ => false] = some h ∧ h.issued = [2 ^ 32, 0] ∧
      h.issued.Nodup ∧ (∀ n ∈ h.issued, n ≠ 2 ^ 64 - 1) ∧ (∀ n, (h.entries n).isSome → n ∈ h.issued) ∧
        h.Faithful := by
  refine Reach.exists_execute rfl (fun h hrun hissued => ?_) (by decide)
  refine names_die_with_what_they_named (hrun.start_mono fun _ => Eq.symm) fun slot => ?_
  have hle : h.uses slot ≤ h.issued.length := countP_le_length
  rw [hissued] at hle
  exact hle.trans (by decide)

end History

end CrickerOs.Slots
