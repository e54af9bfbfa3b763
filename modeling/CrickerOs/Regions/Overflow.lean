import CrickerOs.Regions.Reclamation

namespace CrickerOs.Regions

open Library Slots Function State Table

abbrev Reached {N : ℕ} (bounded : 0 < N ∧ N ≤ 2 ^ 32 - 1) (s : State N) : Prop :=
  Reach State.step always (· = State.init bounded) s

section

variable {N : ℕ} {bounded : 0 < N ∧ N ≤ 2 ^ 32 - 1} {s : State N} {n : ℕ} {r : Region}

lemma Reached.reclaim (hs : Reached bounded s) (hr : s.table.get n = some r) (hroot : r.parent = noParent)
    (hpinned : r.pinned = false) (hzero : r.children = 0) (hidle : s.flights = []) :
    ∃ s', Reached bounded s' ∧ s.table.remove n = some (r, s'.table) ∧ s'.flights = [] ∧
      s'.claimed = n :: s.claimed := by
  obtain ⟨t, hclaim, hremove⟩ := RegionTable.claimForDestroy_of_get hr hpinned hzero
  have hstate : s.claimForDestroy n = { s with
      table := t
      flights := [s.flightOf n r.claim]
      own := update s.own n []
      claimed := n :: s.claimed } := by
    rw [claimForDestroy, hclaim, hidle]
  have hs₁ : Reached bounded (s.claimForDestroy n) := .next (a := .claimForDestroy n) hs trivial rfl
  have hfree : (s.claimForDestroy n).step (.freeRun (s.flightOf n r.claim)) = some { s with
      table := t
      flights := []
      own := update s.own n []
      claimed := n :: s.claimed
      freed := s.flightOf n r.claim :: s.freed } := by
    rw [hstate, step, if_pos ⟨List.mem_singleton.mpr rfl, by simp [flightOf, Region.claim, Region.isRoot, hroot]⟩]
    simp only [List.erase_cons_head]
  exact ⟨_, .next hs₁ trivial hfree, hremove, rfl, rfl⟩

lemma Reached.insertRoot (hs : Reached bounded s) {basePage pages : ℕ} (halloc : s.Allocated basePage pages)
    {i : Fin N} (hi : s.table.slots i = none) :
    ∃ n s', Reached bounded s' ∧ s.table.insertRoot basePage pages = some (n, s'.table) ∧ s'.flights = s.flights ∧
      s'.claimed = s.claimed := by
  cases hins : s.table.insertRoot basePage pages with
  | none =>
    have := insertWith_eq_none_iff.mp hins i
    simp [hi] at this
  | some nt =>
    obtain ⟨n, t⟩ := nt
    refine ⟨n, s.insertRoot basePage pages, .next (a := .insertRoot basePage pages) hs trivial (if_pos halloc), ?_⟩
    rw [State.insertRoot, hins]
    exact ⟨rfl, rfl, rfl⟩

end

structure Crowded (k : ℕ) (s : State 2) : Prop where
  root : s.table.get 0 = some ⟨0, 2 ^ 33, k, false, noParent, k % 2 ^ 32⟩
  child : s.table.get 1 = some ⟨0, 1, 0, false, 0, 0⟩
  full : ∀ i, (s.table.slots i).isSome
  only : ∀ n r, s.table.get n = some r → n = 0 ∨ n = 1
  idle : s.flights = []

lemma crowded_one : ∃ s, Reached (by decide) s ∧ Crowded 1 s := by
  refine ⟨((init (by decide)).insertRoot 0 (2 ^ 33)).split 0 1, ?_, ?_⟩
  · refine .next (a := .split 0 1) (s := (init (by decide)).insertRoot 0 (2 ^ 33)) ?_ trivial rfl
    exact .next (a := .insertRoot 0 (2 ^ 33)) (.init rfl) trivial (if_pos (by decide))
  · constructor
    · decide
    · decide
    · decide
    · intro n r hr
      obtain ⟨i, rfl, -⟩ := get_eq_some_iff.mp hr
      clear hr
      revert i
      decide
    · decide

lemma Crowded.split {k : ℕ} {s : State 2} (h : Crowded k s) (hk : k < 2 ^ 33) : Crowded (k + 1) (s.split 0 1) := by
  have hfull (f : ℕ → Region) : (s.table.modify 0 (Region.carve · (k + 1))).insertWith f = none := by
    rw [insertWith_eq_none_iff]
    intro i
    rw [isSome_slots_modify]
    exact h.full i
  have hsplit : s.table.split 0 1 = (none, s.table.modify 0 (Region.carve · (k + 1))) := by
    simp only [RegionTable.split, h.root, splitNewWatermark]
    rw [if_neg one_ne_zero, if_neg (by omega), if_neg (by omega)]
    simp only [hfull]
  have hget := RegionTable.get_carved h.root (w := k + 1)
  have hstate : s.split 0 1 = { s with table := s.table.modify 0 (Region.carve · (k + 1)) } := by
    rw [State.split, hsplit]
  rw [hstate]
  constructor
  · refine (congrFun hget 0).trans ?_
    rw [update_self, Region.carve, Nat.mod_add_mod]
  · simp only [hget, update_of_ne one_ne_zero, h.child]
  · intro i
    simp only [isSome_slots_modify, h.full]
  · intro n r hr
    simp only [hget, update_apply] at hr
    split at hr
    · exact .inl ‹_›
    · exact h.only n r hr
  · exact h.idle

lemma crowded (k : ℕ) (hk : k < 2 ^ 33) : ∃ s, Reached (by decide) s ∧ Crowded (k + 1) s := by
  induction k with
  | zero => exact crowded_one
  | succ k ih =>
    obtain ⟨s, hs, hc⟩ := ih (by omega)
    exact ⟨s.split 0 1, .next (a := .split 0 1) hs trivial rfl, hc.split (by omega)⟩

lemma retype_zero {s : State 2} {n : ℕ} {r : Region} (hr : s.table.get n = some r) (hbase : r.basePage = 0)
    (hwater : r.watermark = 0) (hpages : 0 < r.pages) :
    (s.retype false n).own = update s.own n (0 :: s.own n) ∧
      (s.retype false n).table.get = update s.table.get n (some { r with watermark := 1 }) := by
  have hretype : s.table.retype false n = some (0, s.table.modify n fun r =>
      { r with pinned := r.pinned || false, watermark := add64 r.watermark 1 }) := by
    simp only [RegionTable.retype, hr, hwater, hbase]
    rw [if_neg (by omega)]
    rfl
  rw [retype, hretype]
  refine ⟨rfl, ?_⟩
  simp only [get_modify, hr, Option.map_some, Bool.or_false, hwater]
  rfl

/-- Two live regions own one page, once `2 ^ 32` splits of a region have brought its child count back to zero. -/
theorem child_count_overflow_shares_page : ∃ s : State 2, Reached (by decide) s ∧ ∃ n m,
    n ≠ m ∧ (s.table.get n).isSome ∧ (s.table.get m).isSome ∧ 0 ∈ s.own n ∧ 0 ∈ s.own m := by
  obtain ⟨s, hs, hc⟩ := crowded (2 ^ 32 - 1) (by norm_num)
  have hroot := hc.root
  rw [Nat.sub_add_cancel (by norm_num), Nat.mod_self] at hroot
  -- the root is claimed and its run freed with its child alive
  obtain ⟨s₁, hs₁, hremove, hidle, -⟩ := hs.reclaim hroot rfl rfl rfl hc.idle
  have hget := Table.get_remove hremove
  obtain ⟨i, -, -, hslots, -⟩ := Table.remove_eq_some hremove
  have hchild : s₁.table.get 1 = some ⟨0, 1, 0, false, 0, 0⟩ := by
    rw [hget, Function.update_of_ne one_ne_zero, hc.child]
  -- so the allocator may hand the run out again, and a new root gets the child's page
  have halloc : s₁.Allocated 0 (2 ^ 33) := by
    refine ⟨by norm_num, by norm_num, by norm_num, ?_, by simp [hidle]⟩
    intro r hr hisRoot
    obtain ⟨m, hm⟩ := Table.mem_values_iff.mp hr
    have hne : m ≠ 0 := by
      rintro rfl
      simp [hget] at hm
    rw [hget, Function.update_of_ne hne] at hm
    cases (hc.only m r hm).resolve_left hne
    cases Option.mem_unique hc.child hm
    simp [Region.isRoot, noParent] at hisRoot
  obtain ⟨n, s₂, hs₂, hins, -, -⟩ := hs₁.insertRoot halloc (i := i) (by simp [hslots])
  obtain ⟨hfresh, hget₂⟩ := RegionTable.insertRoot_eq_some hins
  have hne : n ≠ 1 := by
    rintro rfl
    simp [hchild] at hfresh
  have hnew : s₂.table.get n = some ⟨0, 2 ^ 33, 0, false, noParent, 0⟩ := by rw [hget₂, Function.update_self]
  have hs₃ : Reached (by decide) (s₂.retype false n) := .next (a := .retypePage n) hs₂ trivial rfl
  have hs₄ : Reached (by decide) ((s₂.retype false n).retype false 1) := .next (a := .retypePage 1) hs₃ trivial rfl
  obtain ⟨hown₃, hget₃⟩ := retype_zero hnew rfl rfl (by norm_num)
  have hchild₃ : (s₂.retype false n).table.get 1 = some ⟨0, 1, 0, false, 0, 0⟩ := by
    rw [hget₃, Function.update_of_ne hne.symm, hget₂, Function.update_of_ne hne.symm, hchild]
  obtain ⟨hown₄, hget₄⟩ := retype_zero hchild₃ rfl rfl Nat.one_pos
  refine ⟨_, hs₄, n, 1, hne, ?_, by simp [hget₄], ?_, ?_⟩
  · simp [hget₄, hget₃, Function.update_of_ne hne]
  · rw [hown₄, Function.update_of_ne hne, hown₃, Function.update_self]
    exact List.mem_cons_self
  · rw [hown₄, Function.update_self]
    exact List.mem_cons_self

structure Reused (k : ℕ) (s : State 1) : Prop where
  empty : s.table.slots 0 = none
  generation : s.table.gens 0 = BitVec.ofNat 32 k
  idle : s.flights = []
  first : 0 < k → 0 ∈ s.claimed

lemma Reused.insert {k : ℕ} {s : State 1} (h : Reused k s) (hs : Reached (by decide) s) :
    ∃ s', Reached (by decide) s' ∧ s.table.insertRoot 0 1 = some (name 0 (BitVec.ofNat 32 k), s'.table) ∧
      s'.flights = [] ∧ s'.claimed = s.claimed := by
  have halloc : s.Allocated 0 1 := by
    refine ⟨by norm_num, by norm_num, by norm_num, ?_, by simp [h.idle]⟩
    intro r hr
    obtain ⟨m, hm⟩ := mem_values_iff.mp hr
    obtain ⟨i, -, hi⟩ := get_eq_some_iff.mp hm
    obtain rfl : i = 0 := Subsingleton.elim _ _
    simp [h.empty] at hi
  obtain ⟨n, s', hs', hins, hflights, hclaimed⟩ := hs.insertRoot halloc h.empty
  obtain ⟨i, -, -, hname, -⟩ := insertWith_eq_some hins
  obtain rfl : i = 0 := Subsingleton.elim _ _
  refine ⟨s', hs', ?_, hflights.trans h.idle, hclaimed⟩
  rw [hins, ← hname, nameAt, h.generation]
  rfl

lemma Reused.cycle {k : ℕ} {s : State 1} (h : Reused k s) (hs : Reached (by decide) s) :
    ∃ s', Reached (by decide) s' ∧ Reused (k + 1) s' ∧
      s'.claimed = name 0 (BitVec.ofNat 32 k) :: s.claimed := by
  obtain ⟨s₁, hs₁, hins, hidle, hclaimed⟩ := h.insert hs
  obtain ⟨i, -, -, -, -, hgens₁⟩ := insertWith_eq_some hins
  have hget := (RegionTable.insertRoot_eq_some hins).2
  obtain ⟨s₂, hs₂, hremove, hidle₂, hclaimed₂⟩ :=
    hs₁.reclaim (hget ▸ update_self ..) rfl rfl rfl hidle
  obtain ⟨j, -, -, hslots, hgens⟩ := remove_eq_some hremove
  obtain rfl : j = 0 := Subsingleton.elim _ _
  rw [hclaimed] at hclaimed₂
  refine ⟨s₂, hs₂, ⟨by simp [hslots], ?_, hidle₂, ?_⟩, hclaimed₂⟩
  · rw [hgens, update_self, hgens₁, h.generation, BitVec.ofNat_add]
    rfl
  · intro _
    rw [hclaimed₂]
    cases k with
    | zero => exact List.mem_cons_self
    | succ k => exact List.mem_cons_of_mem _ (h.first (Nat.succ_pos k))

lemma reused (k : ℕ) : ∃ s, Reached (by decide) s ∧ Reused k s := by
  induction k with
  | zero => exact ⟨init (by decide), .init rfl, rfl, rfl, rfl, fun h => absurd h (lt_irrefl 0)⟩
  | succ k ih =>
    obtain ⟨s, hs, hk⟩ := ih
    obtain ⟨s', hs', hk', -⟩ := hk.cycle hs
    exact ⟨s', hs', hk'⟩

theorem generation_wrap_claims_twice : ∃ s : State 1, Reached (by decide) s ∧ 1 < s.claimed.count 0 := by
  obtain ⟨s, hs, hk⟩ := reused (2 ^ 32)
  obtain ⟨s', hs', -, hclaimed⟩ := hk.cycle hs
  refine ⟨s', hs', ?_⟩
  rw [hclaimed]
  have hname : Table.name 0 (BitVec.ofNat 32 (2 ^ 32)) = 0 := rfl
  rw [hname, List.count_cons_self]
  have := List.count_pos_iff.mpr (hk.first (by norm_num))
  omega

end CrickerOs.Regions
