import CrickerOs.Kernel.Lifecycle
import CrickerOs.Kernel.OneReply
import CrickerOs.Regions.Table

namespace CrickerOs.Kernel

open Slots Regions

structure System (N T E : ℕ) where
  regions : RegionTable N
  sched : Scheduler T E

inductive SplitError
  | noSuchSlot
  | notPermitted
  | outOfMemory
  deriving DecidableEq, Repr

variable {N T E : ℕ}

def Scheduler.currentCap (s : Scheduler T E) (current : Tid) (slot : ℕ) : Except Capability.Error Cap :=
  match s.threads.get current with
  | none => .error .noSuchSlot
  | some t => t.cspace.get slot

def mintChild (cap : Cap) (object : Object) : Cap := { object, rights := cap.rights }

namespace System

section

variable (k : System N T E)

def split (current : Tid) (cap : Cap) (region pages : ℕ) : Except SplitError ℕ × System N T E :=
  if cap.rights.allows Capability.Rights.write = false then (.error .notPermitted, k)
  else
    match k.regions.split region pages with
    | (none, regions) => (.error .outOfMemory, { k with regions })
    | (some child, regions) =>
      match k.sched.grant current (mintChild cap (.untyped child)) with
      | none => (.error .outOfMemory, { k with regions })
      | some (slot, sched) => (.ok slot, { regions, sched })

def invokeSplit (current : Tid) (slot pages : ℕ) : Option (Except SplitError ℕ × System N T E) :=
  match k.sched.currentCap current slot with
  | .error _ => some (.error .noSuchSlot, k)
  | .ok cap =>
    match cap.object with
    | .untyped region => some (k.split current cap region pages)
    | _ => none

def Held (region : ℕ) : Prop :=
  ∃ tid t slot rights, k.sched.threads.get tid = some t ∧ t.cspace.lookup slot = some ⟨.untyped region, rights⟩

def HasFreeSlot (current : Tid) : Prop :=
  ∃ t, k.sched.threads.get current = some t ∧ ∃ slot < cspaceSlots, t.cspace.lookup slot = none

def HasFreeRegion : Prop := ∃ i, k.regions.slots i = none

/-- The capability allows the carve and the region's budget covers it. -/
def Carves (rights : Rights) (region pages : ℕ) : Prop :=
  rights.allows Capability.Rights.write = true ∧
    ∃ r, k.regions.get region = some r ∧ (splitNewWatermark r.pages r.watermark pages).isSome

end

/-- The step from `k` to `k'` leaves the region as reclaimable as it was. -/
structure CostsNothing (k k' : System N T E) (region : ℕ) : Prop where
  children : (k'.regions.get region).map Region.children = (k.regions.get region).map Region.children
  live : ∀ n, (k'.regions.get n).isSome → (k.regions.get n).isSome
  held : ∀ n, k.Held n → k'.Held n
  reclaims : ∀ r, k.regions.get region = some r → r.children = 0 → r.pinned = false →
    ∃ regions, k'.regions.claimForDestroy region = some (r.claim, regions)

end System

section

variable {k k' : System N T E} {current : Tid} {slot pages region w : ℕ} {r : Region} {t t' : RegionTable N}

lemma System.CostsNothing.refl (k : System N T E) (region : ℕ) : k.CostsNothing k region where
  children := rfl
  live _ hn := hn
  held _ hn := hn
  reclaims r hr hzero hpinned := by
    obtain ⟨regions, hclaim, -⟩ := RegionTable.claimForDestroy_of_get hr hpinned hzero
    exact ⟨regions, hclaim⟩

lemma grant_eq_none_iff {cap : Cap} : k.sched.grant current cap = none ↔ ¬ k.HasFreeSlot current := by
  rw [Scheduler.grant, System.HasFreeSlot]
  cases k.sched.threads.get current with
  | none => simp
  | some t =>
    dsimp only
    cases hi : t.cspace.insert cap with
    | error err =>
      refine iff_of_true rfl ?_
      rintro ⟨t', ht', free, hlt, hfree⟩
      cases ht'
      have hfull := Capability.CSpace.insert_eq_error hi free hlt
      simp [hfree] at hfull
    | ok found =>
      obtain ⟨hfree, hlt, -⟩ := Capability.CSpace.insert_eq_ok hi
      exact iff_of_false (by simp) (not_not.mpr ⟨t, rfl, found.1, hlt, hfree⟩)

lemma split_of_dead (h : ∀ r, t.get region = some r → splitNewWatermark r.pages r.watermark pages = none) :
    t.split region pages = (none, t) := by
  rw [RegionTable.split]
  cases hr : t.get region with
  | none => rfl
  | some r =>
    dsimp only
    rw [h r hr]

/-- A carve is on the region's account whether or not there is a slot for the child. -/
lemma split_of_carve (hr : t.get region = some r) (hw : splitNewWatermark r.pages r.watermark pages = some w) :
    (t.split region pages).2.get region = some (r.carve w) ∧
      ((t.split region pages).1 = none ↔ ¬ ∃ i, t.slots i = none) := by
  have hcarved : (t.modify region (Region.carve · w)).get region = some (r.carve w) := by
    rw [RegionTable.get_carved hr, Function.update_self]
  have hroom {f : ℕ → Region} : (t.modify region (Region.carve · w)).insertWith f = none ↔ ¬ ∃ i,
    t.slots i = none := by
    rw [Table.insertWith_eq_none_iff]
    simp [Table.isSome_slots_modify, Option.isSome_iff_ne_none]
  rw [RegionTable.split, hr]
  dsimp only
  rw [hw]
  dsimp only
  split
  · next hfull => exact ⟨hcarved, iff_of_true rfl (hroom.mp hfull)⟩
  · next name t' hinsert =>
    have hne : region ≠ name := by
      rintro rfl
      rw [Table.get_eq_none_of_insertWith hinsert] at hcarved
      cases hcarved
    refine ⟨?_, iff_of_false (by simp) fun hfull => ?_⟩
    · rw [Table.get_insertWith hinsert, Function.update_of_ne hne, hcarved]
    · rw [hroom.mpr hfull] at hinsert
      cases hinsert

lemma System.CostsNothing.not_carved (hr : k.regions.get region = some r)
    (hcarved : k'.regions.get region = some (r.carve w)) : ¬ k.CostsNothing k' region := by
  intro h
  have hchildren := h.children
  rw [hr, hcarved, Option.map_some, Option.map_some, Option.some.injEq, Region.carve] at hchildren
  dsimp only at hchildren
  omega

/-- A `SPLIT` that fails costs nothing if and only if it is refused before the carve, or the caller has a slot
free and the table has room. -/
theorem failed_split_costs_nothing (k k' : System N T E) (current : Tid) (slot pages region : ℕ) (rights : Rights)
    (result : Except SplitError ℕ) (hcap : k.sched.currentCap current slot = .ok ⟨.untyped region, rights⟩)
    (h : k.invokeSplit current slot pages = some (result, k')) :
    (∀ e, result = .error e → k.CostsNothing k' region) ↔
      ¬ k.Carves rights region pages ∨ k.HasFreeSlot current ∧ k.HasFreeRegion := by
  simp only [System.invokeSplit, hcap, Option.some.injEq, System.split] at h
  by_cases hcarves : k.Carves rights region pages
  · obtain ⟨hwrite, r, hr, hw⟩ := hcarves
    obtain ⟨w, hw⟩ := Option.isSome_iff_exists.mp hw
    obtain ⟨hcarved, hroom⟩ := split_of_carve hr hw
    rw [if_neg (by simp [hwrite])] at h
    rw [or_iff_right (not_not.mpr ⟨hwrite, r, hr, by rw [hw]; rfl⟩)]
    cases hsplit : k.regions.split region pages with
    | mk child regions =>
      rw [hsplit] at h hcarved hroom
      have hcosts : ¬ k.CostsNothing ⟨regions, k.sched⟩ region := System.CostsNothing.not_carved hr hcarved
      cases child with
      | none =>
        cases h
        exact iff_of_false (fun hall => hcosts (hall _ rfl)) fun hfree => hroom.mp rfl hfree.2
      | some child =>
        have hfree : k.HasFreeRegion := not_not.mp fun hfull => by simpa using hroom.mpr hfull
        dsimp only at h
        cases hgrant : k.sched.grant current (mintChild ⟨.untyped region, rights⟩ (.untyped child)) with
        | none =>
          rw [hgrant] at h
          cases h
          exact iff_of_false (fun hall => hcosts (hall _ rfl)) fun hslot => grant_eq_none_iff.mp hgrant hslot.1
        | some found =>
          rw [hgrant] at h
          cases h
          refine iff_of_true (fun e he => by cases he) ⟨not_not.mp fun hfull => ?_, hfree⟩
          rw [grant_eq_none_iff.mpr hfull] at hgrant
          cases hgrant
  · have hsame : k' = k := by
      split_ifs at h with hwrite
      · exact (Prod.mk.inj h).2.symm
      · rw [split_of_dead fun r hr => Option.not_isSome_iff_eq_none.mp fun hw =>
          hcarves ⟨by simpa using hwrite, r, hr, hw⟩] at h
        exact (Prod.mk.inj h).2.symm
    exact iff_of_true (fun _ _ => hsame ▸ .refl k region) (.inl hcarves)

end

lemma one_bounded : 0 < 1 ∧ 1 ≤ 2 ^ 32 - 1 := by decide

def oneRegion (N slots : ℕ) (h : 0 < N ∧ N ≤ 2 ^ 32 - 1) : System N 1 1 where
  regions := (RegionTable.insertRoot (Table.new h) 0 10).elim (Table.new h) Prod.snd
  sched := .booted ![.idle (List.replicate slots ⟨.untyped 0, .all⟩) 1 none] ![100] one_bounded one_bounded

theorem failed_split_costs_nothing_sample : ∃ k', (oneRegion 2 1 (by decide)).invokeSplit 0 0 11 =
    some (.error .outOfMemory, k') ∧ (k'.regions.get 0).map Region.children = some 0 := by
  obtain ⟨k', hk⟩ : ∃ k', (oneRegion 2 1 (by decide)).invokeSplit 0 0 11 = some (.error .outOfMemory, k') :=
    ⟨_, rfl⟩
  have hfree : (oneRegion 2 1 (by decide)).HasFreeSlot 0 ∧ (oneRegion 2 1 (by decide)).HasFreeRegion :=
    ⟨⟨_, rfl, 1, by decide, rfl⟩, 1, rfl⟩
  have hcosts := (failed_split_costs_nothing _ k' 0 0 11 0 .all _ rfl hk).mpr (.inr hfree) _ rfl
  exact ⟨k', hk, hcosts.children.trans (by decide +kernel)⟩

/-- Both splits fail and leave a child on the region's account, so that it is not reclaimed. -/
theorem split_leaks_child :
    ((oneRegion 2 16 (by decide)).invokeSplit 0 0 1).any (fun (r, k') => r.toOption = none ∧
      (k'.regions.get 0).map Region.children = some 1 ∧ (k'.regions.claimForDestroy 0).isNone ∧
      (k'.regions.get 1).isSome ∧ k'.sched.threads.values.all fun t => (List.range cspaceSlots).all fun slot =>
        (t.cspace.lookup slot).all fun cap => cap.object ≠ .untyped 1) ∧
    ((oneRegion 1 1 (by decide)).invokeSplit 0 0 1).any (fun (r, k') => r.toOption = none ∧
      (k'.regions.get 0).map Region.children = some 1 ∧ (k'.regions.claimForDestroy 0).isNone) := by
  decide +kernel

end CrickerOs.Kernel
