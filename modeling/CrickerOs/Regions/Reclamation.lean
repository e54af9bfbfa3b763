import CrickerOs.Regions.Lineage

namespace CrickerOs.Regions

open Library Slots State Table Option

variable {N : ℕ} {s s' : State N} {n : ℕ} {bounded : 0 < N ∧ N ≤ 2 ^ 32 - 1}

lemma WellFormed.init : WellFormed (init bounded) := by
  have hitems (u : Use) : (State.init bounded).carving.items u = none := by
    cases u <;> simp [State.carving, State.init]
  constructor
  · constructor <;> simp [hitems]
  all_goals simp [State.init]

lemma Traced.init : Traced (init bounded) := by
  constructor <;> simp [State.init, State.parentOf]

lemma step_inv {a : Action} (hw : WellFormed s) (ht : Traced s) (hfits : s.Fits a) (hs : s.step a = some s') :
    WellFormed s' ∧ Traced s' := by
  cases a with
  | insertRoot basePage pages =>
    simp only [step, ite_none_right_eq_some, some.injEq] at hs
    obtain ⟨halloc, rfl⟩ := hs
    exact ⟨hw.insertRoot halloc, ht.insertRoot hw basePage pages⟩
  | split parent pages =>
    cases hs
    exact ⟨hw.split hfits, ht.split hw hfits⟩
  | retypePage name =>
    cases hs
    exact ⟨hw.retype false name, ht.retype false name⟩
  | retypeObjectPage name =>
    cases hs
    exact ⟨hw.retype true name, ht.retype true name⟩
  | unpin name =>
    cases hs
    exact ⟨hw.unpin name, ht.unpin name⟩
  | claimForDestroy name =>
    cases hs
    exact ⟨hw.claimForDestroy name, ht.claimForDestroy name⟩
  | returnToParent f =>
    simp only [step, ite_none_right_eq_some, some.injEq] at hs
    obtain ⟨⟨hf, hroot⟩, rfl⟩ := hs
    exact ⟨hw.returnToParent hf hroot ht.flights_nodup, ht.returnToParent hw hf hroot⟩
  | freeRun f =>
    simp only [step, ite_none_right_eq_some, some.injEq] at hs
    obtain ⟨⟨hf, hroot⟩, rfl⟩ := hs
    exact ⟨hw.freeRun f, ht.freeRun hw hf hroot⟩

lemma reach_inv (h : Reach step State.Fits (· = init bounded) s) : WellFormed s ∧ Traced s := by
  refine h.invariant (fun s => WellFormed s ∧ Traced s) ?_ ?_
  · rintro _ rfl
    exact ⟨WellFormed.init, Traced.init⟩
  · rintro s a s' ⟨hw, ht⟩ hfits hs
    exact step_inv hw ht hfits hs

def rank (s : State N) (n : ℕ) : ℕ :=
  if (s.table.get n).isSome then s.serialOf n + 1 else 0

lemma nested (hw : WellFormed s) (ht : Traced s) : s.carving.Nested noParent Use.region (rank s) where
  injective _ _ h := Use.region.inj h
  parent {n w} h := by
    obtain ⟨r, hr, rfl⟩ := spent_eq_some.mp h
    refine ⟨r.parent, r.run, items_region.mpr ⟨r, hr, rfl, rfl⟩, ?_, ?_⟩
    · have := hw.bounded hr
      simp only [Span.Within, Region.spent, Region.run]
      omega
    · have hn : s.parentOf n = some r.parent := parentOf_eq_some.mpr ⟨r, hr, rfl⟩
      by_cases hp : r.parent = noParent
      · simp [rank, hp, hr, s.get_noParent]
      · have := (ht.child hn hp).1
        simp only [rank, hr, isSome_some, if_true]
        split <;> omega
  outermost {n w} h := by
    obtain ⟨r, hr, rfl⟩ := spent_eq_some.mp h
    simp [rank, hr, s.get_noParent]
  outside := by simp [carving, s.get_noParent]

lemma unbump_le (hw : WellFormed s) {f : Flight} {p : Region} (hf : f ∈ s.flights) (hroot : f.claim.isRoot = false)
    (hp : s.table.get f.claim.parent = some p) : f.claim.pages ≤ p.watermark := by
  obtain ⟨-, p', hp', hin⟩ := hw.claim_inside hf hroot
  cases mem_unique hp hp'
  simp only [Span.Within, DestroyClaim.run, Region.spent] at hin
  omega

lemma above_watermark (hw : WellFormed s) (ht : Traced s) {r : Region} (hr : s.table.get n = some r) {x k : ℕ}
    (hx : x ∈ r.run) (hnot : x ∉ r.spent) {u : Use} {a : Span} (hu : s.carving.items u = some (k, a))
    (hxa : x ∈ a) : u = .region n ∨ ∃ m, u = .region m ∧ s.carving.Below Use.region m (.region n) := by
  by_cases hne : u = .region n
  · exact .inl hne
  have hself := items_region.mpr ⟨r, hr, rfl, rfl⟩
  rcases hw.tiled.apart_or_below (nested hw ht) hu hself hne with hapart | habove | ⟨m, hm, hbelow⟩
  · exact absurd hx (Span.apart_iff.mp hapart x hxa)
  · exact .inr habove
  · cases Use.region.inj hm
    have hin := hbelow.within hw.tiled (nested hw ht) (spent_eq_some.mpr ⟨r, hr, rfl⟩)
      (name_ne_noParent hr) hu
    exact absurd (hin.mem hxa) hnot

/-- Nobody's page: no live region retyped it, no claim in flight covers it, and the live regions whose run it is in
are `n` and those `n` was carved from. -/
structure Unowned (s : State N) (n x : ℕ) : Prop where
  retyped : ∀ m r, s.table.get m = some r → x ∉ s.own m
  claimed : ∀ f ∈ s.flights, x ∉ f.claim.run
  live : ∀ m r, s.table.get m = some r → x ∈ r.run → m = n ∨ s.carving.Below Use.region m (.region n)

lemma unowned_of_retype (hw : WellFormed s) (ht : Traced s) {pin : Bool} {x : ℕ} {t : RegionTable N}
    (hx : s.table.retype pin n = some (x, t)) : Unowned s n x := by
  obtain ⟨r, hr, hlt, rfl, -⟩ := RegionTable.retype_eq_some hx
  rw [hw.add64_top hr hlt]
  have hrun : r.basePage + r.watermark ∈ r.run := by
    simp only [Span.mem_iff, Region.run]
    omega
  have hspent : r.basePage + r.watermark ∉ r.spent := by
    simp only [Span.mem_iff, Region.spent]
    omega
  constructor
  · intro m r' hr' hmem
    have hpage := items_page.mpr ⟨by simp [hr'], hmem, rfl, rfl⟩
    have := above_watermark hw ht hr hrun hspent hpage (by simp [Span.mem_iff])
    simp at this
  · intro f hf hmem
    have := above_watermark hw ht hr hrun hspent (items_claim.mpr ⟨hf, rfl, rfl⟩) hmem
    simp at this
  · intro m r' hr' hmem
    have := above_watermark hw ht hr hrun hspent (items_region.mpr ⟨r', hr', rfl, rfl⟩) hmem
    simpa using this

/-- No page has two owners. The pieces are the pages live regions retyped, the live regions and the claims in
flight; the holder of a piece is the region it was carved from. -/
structure OneOwner (s : State N) : Prop where
  siblings : ∀ {u v k a b}, s.carving.items u = some (k, a) → s.carving.items v = some (k, b) → u ≠ v → a.Apart b
  inside : ∀ {u k a}, s.carving.items u = some (k, a) → k ≠ noParent →
    ∃ p, s.table.get k = some p ∧ a.Within p.spent
  apart : ∀ {u v k l a b}, s.carving.items u = some (k, a) → s.carving.items v = some (l, b) → u ≠ v →
    a.Apart b ∨ (∃ m, u = .region m ∧ s.carving.Below Use.region m v) ∨
      ∃ m, v = .region m ∧ s.carving.Below Use.region m u
  once : ∀ {n r}, s.table.get n = some r → (s.own n).Nodup
  watermark : ∀ {n r}, s.table.get n = some r → r.watermark ≤ r.pages
  unbump : ∀ {f p}, f ∈ s.flights → f.claim.isRoot = false → s.table.get f.claim.parent = some p →
    f.claim.pages ≤ p.watermark
  fresh : ∀ {pin n x t}, s.table.retype pin n = some (x, t) → Unowned s n x

theorem regions_have_one_owner (h : Reach State.step State.Fits (· = State.init bounded) s) : OneOwner s := by
  obtain ⟨hw, ht⟩ := reach_inv h
  constructor
  · exact hw.tiled.apart
  · intro u k a hu hk
    obtain ⟨w, hspent, hin⟩ := hw.tiled.inside hu hk
    obtain ⟨p, hp, rfl⟩ := State.spent_eq_some.mp hspent
    exact ⟨p, hp, hin⟩
  · exact hw.tiled.apart_or_below (nested hw ht)
  · exact hw.nodup
  · exact fun hr => (hw.bounded hr).1
  · exact unbump_le hw
  · exact unowned_of_retype hw ht

theorem regions_have_one_owner_after_split : ∃ s : State 4,
    execute State.step State.Fits (State.init (by decide)) [.insertRoot 4096 16, .split 0 4, .retypePage 0,
      .retypePage 1, .claimForDestroy 1] = some s ∧ s.flights.length = 1 ∧ OneOwner s := by
  refine Reach.exists_execute rfl (fun _ h _ => ?_) (by decide)
  exact regions_have_one_owner (h.start_mono fun _ => Eq.symm)

/-- A region that something was carved from, a live child or a claim in flight, stays in the table. -/
theorem children_keep_their_parent (h : Reach State.step State.Fits (· = State.init bounded) s) {u : Use}
    (hu : u ∈ s.children n) (hn : n ≠ noParent) : s.table.hasChildren n ∧ s.table.claimForDestroy n = none := by
  obtain ⟨hw, -⟩ := reach_inv h
  obtain ⟨-, a, ha⟩ := id hu
  obtain ⟨w, hspent, -⟩ := hw.tiled.inside ha hn
  obtain ⟨r, hr, -⟩ := State.spent_eq_some.mp hspent
  have hpos : r.children ≠ 0 := fun hzero => (hw.no_children hr hzero).subset hu
  constructor
  · simp [RegionTable.hasChildren, hr, Nat.pos_of_ne_zero hpos]
  · refine Option.eq_none_iff_forall_ne_some.mpr fun claimed hclaim => hpos ?_
    obtain ⟨r', hr', -, hzero, -⟩ := RegionTable.claimForDestroy_eq_some hclaim
    exact Option.some.inj (hr.symm.trans hr') ▸ hzero

theorem claim_keeps_its_parent : ∃ s : State 2,
    execute State.step State.Fits (State.init (by decide)) [.insertRoot 0 9, .split 0 4, .claimForDestroy 1] =
      some s ∧ ⟨⟨0, 4, 0, false⟩, 1, 1, [0]⟩ ∈ s.flights ∧ s.table.hasChildren 0 := by
  refine Reach.exists_execute rfl (fun s h hf => ?_) (by decide +kernel)
  have hu : .claim _ ∈ s.children 0 := ⟨by simp, _, State.items_claim.mpr ⟨hf, rfl, rfl⟩⟩
  exact (children_keep_their_parent (h.start_mono fun _ => Eq.symm) hu (by decide +kernel)).1

structure Aged (s : State N) : Prop where
  behind : ∀ name ∈ s.claimed, ∀ i : Fin N, i.val = (Table.unpack name).1 →
    (Table.unpack name).2 < (s.table.gens i).toNat
  nodup : s.claimed.Nodup

lemma Aged.congr (h : Aged s) (hclaimed : s'.claimed = s.claimed) (hgens : s'.table.gens = s.table.gens) :
    Aged s' := by
  constructor
  · rw [hclaimed, hgens]
    exact h.behind
  · rw [hclaimed]
    exact h.nodup

lemma Aged.claimForDestroy (h : Aged s) (hlast : (unpack n).2 + 1 < 2 ^ 32) : Aged (s.claimForDestroy n) := by
  cases hclaim : s.table.claimForDestroy n with
  | none =>
    rw [State.claimForDestroy, hclaim]
    exact h
  | some ct =>
  obtain ⟨claim, t⟩ := ct
  obtain ⟨r, -, -, -, -, hremove⟩ := RegionTable.claimForDestroy_eq_some hclaim
  obtain ⟨i, hname, -, -, hgens⟩ := remove_eq_some hremove
  obtain ⟨hslot, hgen⟩ := nameAt_eq_iff.mp hname
  have hsucc : (s.table.gens i + 1).toNat = (unpack n).2 + 1 := by
    rw [BitVec.toNat_add, hgen]
    exact Nat.mod_eq_of_lt hlast
  rw [State.claimForDestroy, hclaim]
  constructor
  · intro m hm j hj
    simp only [hgens, Function.update_apply]
    rcases List.mem_cons.mp hm with rfl | hm
    · rw [if_pos (Fin.ext (hj.trans hslot)), hsucc]
      exact Nat.lt_succ_self _
    · have hbehind := h.behind m hm j hj
      split
      · subst j
        omega
      · exact hbehind
  · refine List.nodup_cons.mpr ⟨?_, h.nodup⟩
    intro hmem
    have := h.behind n hmem i hslot.symm
    omega

lemma gens_insertRoot (s : State N) (basePage pages : ℕ) :
    (s.insertRoot basePage pages).claimed = s.claimed ∧
    (s.insertRoot basePage pages).table.gens = s.table.gens := by
  rw [insertRoot]
  split
  · exact ⟨rfl, rfl⟩
  · rename_i n t ht
    obtain ⟨i, -, -, -, -, hgens⟩ := insertWith_eq_some ht
    exact ⟨rfl, hgens⟩

lemma gens_split (s : State N) (parent pages : ℕ) :
    (s.split parent pages).claimed = s.claimed ∧ (s.split parent pages).table.gens = s.table.gens := by
  rw [split]
  split
  · rename_i t ht
    rcases RegionTable.split_cases ht with ⟨-, rfl⟩ | ⟨r, _, hr, -, -, -, rfl, ⟨-, rfl⟩ | ⟨n, hn, -⟩⟩
    · exact ⟨rfl, rfl⟩
    · exact ⟨rfl, gens_modify ..⟩
    · simp at hn
  · rename_i n t ht
    rcases RegionTable.split_cases ht with ⟨hn, -⟩ | ⟨r, _, hr, -, -, -, rfl, ⟨hn, -⟩ | ⟨n', -, hins⟩⟩
    · simp at hn
    · simp at hn
    obtain ⟨i, -, -, -, -, hgens⟩ := insertWith_eq_some hins
    exact ⟨rfl, hgens.trans (gens_modify ..)⟩

lemma gens_retype (s : State N) (pin : Bool) (n : ℕ) :
    (s.retype pin n).claimed = s.claimed ∧ (s.retype pin n).table.gens = s.table.gens := by
  rw [retype]
  split
  · exact ⟨rfl, rfl⟩
  · rename_i page t ht
    rw [RegionTable.retype] at ht
    split at ht
    · simp at ht
    · split at ht
      · simp at ht
      · cases ht
        exact ⟨rfl, gens_modify ..⟩

lemma Aged.step {a : Action} (h : Aged s) (hok : s.Unwrapped a) (hs : s.step a = some s') : Aged s' := by
  cases a with
  | insertRoot basePage pages =>
    simp only [State.step, ite_none_right_eq_some, some.injEq] at hs
    obtain ⟨-, rfl⟩ := hs
    exact h.congr (gens_insertRoot s basePage pages).1 (gens_insertRoot s basePage pages).2
  | split parent pages =>
    cases hs
    exact h.congr (gens_split s parent pages).1 (gens_split s parent pages).2
  | retypePage name =>
    cases hs
    exact h.congr (gens_retype s false name).1 (gens_retype s false name).2
  | retypeObjectPage name =>
    cases hs
    exact h.congr (gens_retype s true name).1 (gens_retype s true name).2
  | unpin name =>
    cases hs
    exact h.congr rfl (gens_modify ..)
  | claimForDestroy name =>
    cases hs
    exact h.claimForDestroy (hok.2 name rfl)
  | returnToParent f =>
    simp only [State.step, ite_none_right_eq_some, some.injEq] at hs
    obtain ⟨⟨-, hroot⟩, rfl⟩ := hs
    refine h.congr rfl ?_
    rw [RegionTable.returnToParent, if_neg (by simp [hroot])]
    exact gens_modify ..
  | freeRun f =>
    simp only [State.step, ite_none_right_eq_some, some.injEq] at hs
    obtain ⟨-, rfl⟩ := hs
    exact h.congr rfl rfl

lemma reach_aged (h : Reach step State.Unwrapped (· = init bounded) s) : Aged s := by
  refine h.invariant Aged ?_ fun s a s' => Aged.step
  rintro _ rfl
  exact ⟨by simp [init], by simp [init]⟩

structure ReclaimedOnce (s : State N) : Prop where
  freedOnce : (s.freed.map Flight.serial).Nodup
  rootsOnly : ∀ f ∈ s.freed, f.claim.isRoot ∧ f.ancestors = []
  childless : ∀ {f s'}, s.step (.freeRun f) = some s' →
    (∀ n r, s.table.get n = some r → f.serial ∉ s.ancestorsOf n) ∧ ∀ g ∈ s.flights, f.serial ∉ g.ancestors
  claimedOnce : s.claimed.Nodup

theorem destroy_reclaims_once (h : Reach State.step State.Unwrapped (· = State.init bounded) s) :
    ReclaimedOnce s := by
  obtain ⟨hw, ht⟩ := reach_inv (h.mono fun _ _ hok => hok.1)
  constructor
  · exact (List.nodup_append.mp (List.map_append ▸ ht.spentNodup)).2.1
  · exact fun f hf => ht.freedRoot hf
  · intro f s' hs
    simp only [State.step, Option.ite_none_right_eq_some] at hs
    have hf := List.mem_append_left s.freed hs.1.1
    constructor
    · intro n r hr hmem
      obtain ⟨m, q, hm, hserial⟩ := ht.ancestor_live hw (State.parentOf_eq_some.mpr ⟨r, hr, rfl⟩) hmem
      exact ht.spentDead hm hf hserial.symm
    · intro g hg hmem
      obtain ⟨m, q, hm, hserial⟩ := ht.flight_ancestor_live hw hg hmem
      exact ht.spentDead hm hf hserial.symm
  · exact (reach_aged h).nodup

theorem destroy_reclaims_once_after_split : ∃ s : State 2,
    execute State.step State.Unwrapped (State.init (by decide))
      [.insertRoot 4096 16, .split 0 4, .claimForDestroy 1, .returnToParent ⟨⟨4096, 4, 0, false⟩, 1, 1, [0]⟩,
      .claimForDestroy 0, .freeRun ⟨⟨4096, 16, noParent, true⟩, 0, 0, []⟩] = some s ∧ s.freed.length = 1 ∧
      ReclaimedOnce s := by
  refine Reach.exists_execute rfl (fun _ h _ => ?_) (by decide +kernel)
  exact destroy_reclaims_once (h.start_mono fun _ => Eq.symm)

end CrickerOs.Regions
