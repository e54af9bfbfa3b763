import CrickerOs.Regions.Ownership

namespace CrickerOs.Regions

open Library Slots Function State RegionTable List

variable {N : ℕ} {s s' : State N} {n p : ℕ} {f : Flight}

def State.parentOf (s : State N) (n : ℕ) : Option ℕ :=
  (s.table.get n).map Region.parent

lemma State.parentOf_eq_some : s.parentOf n = some p ↔ ∃ r, s.table.get n = some r ∧ r.parent = p := by
  rw [parentOf, Option.map_eq_some_iff]

structure Traced (s : State N) : Prop where
  recent : ∀ {n p}, s.parentOf n = some p → s.serialOf n < s.clock
  injective : ∀ {n m p q}, s.parentOf n = some p → s.parentOf m = some q → s.serialOf n = s.serialOf m → n = m
  spentRecent : ∀ {f}, f ∈ s.flights ++ s.freed → f.serial < s.clock
  spentDead : ∀ {n p f}, s.parentOf n = some p → f ∈ s.flights ++ s.freed → f.serial ≠ s.serialOf n
  spentNodup : ((s.flights ++ s.freed).map Flight.serial).Nodup
  root : ∀ {n}, s.parentOf n = some noParent → s.ancestorsOf n = []
  child : ∀ {n p}, s.parentOf n = some p → p ≠ noParent →
    s.serialOf p < s.serialOf n ∧ s.ancestorsOf n = s.serialOf p :: s.ancestorsOf p
  flightRoot : ∀ {f}, f ∈ s.flights → f.claim.parent = noParent → f.ancestors = []
  flightChild : ∀ {f}, f ∈ s.flights → f.claim.parent ≠ noParent →
    f.ancestors = s.serialOf f.claim.parent :: s.ancestorsOf f.claim.parent
  freedRoot : ∀ {f}, f ∈ s.freed → f.claim.isRoot ∧ f.ancestors = []

lemma WellFormed.parent_live (h : WellFormed s) (hn : s.parentOf n = some p) (hp : p ≠ noParent) :
    ∃ q, s.parentOf p = some q := by
  obtain ⟨r, hr, rfl⟩ := parentOf_eq_some.mp hn
  obtain ⟨w, hw, -⟩ := h.tiled.inside (items_region.mpr ⟨r, hr, rfl, rfl⟩) hp
  obtain ⟨r', hr', -⟩ := spent_eq_some.mp hw
  exact ⟨r'.parent, parentOf_eq_some.mpr ⟨r', hr', rfl⟩⟩

lemma WellFormed.flight_parent_live (h : WellFormed s) (hf : f ∈ s.flights) (hp : f.claim.parent ≠ noParent) :
    ∃ q, s.parentOf f.claim.parent = some q := by
  obtain ⟨w, hw, -⟩ := h.tiled.inside (items_claim.mpr ⟨hf, rfl, rfl⟩) hp
  obtain ⟨r', hr', -⟩ := spent_eq_some.mp hw
  exact ⟨r'.parent, parentOf_eq_some.mpr ⟨r', hr', rfl⟩⟩

lemma parentOf_of_update {r r' : Region} (hr : s.table.get n = some r)
    (hget : s'.table.get = update s.table.get n (some r')) (hparent : r'.parent = r.parent) :
    s'.parentOf = s.parentOf := by
  funext m
  simp only [parentOf, hget, update_apply]
  split
  · subst m
    simp [hr, hparent]
  · rfl

lemma parentOf_of_born {r : Region} {t : RegionTable N} {ancestors : List ℕ}
    (hget : t.get = update s.table.get n (some r)) :
    (s.born n t ancestors).parentOf = update s.parentOf n (some r.parent) := by
  funext m
  simp only [parentOf, born, hget, update_apply]
  split <;> rfl

namespace Traced

variable (h : Traced s)
include h

lemma flights_nodup : s.flights.Nodup :=
  (List.Nodup.of_map _ h.spentNodup).of_append_left

lemma congr (hparent : s'.parentOf = s.parentOf) (hserial : s'.serialOf = s.serialOf)
    (hancestors : s'.ancestorsOf = s.ancestorsOf) (hclock : s'.clock = s.clock) (hflights : s'.flights = s.flights)
    (hfreed : s'.freed = s.freed) : Traced s' := by
  constructor <;> simp only [hparent, hserial, hancestors, hclock, hflights, hfreed]
  · exact h.recent
  · exact h.injective
  · exact h.spentRecent
  · exact h.spentDead
  · exact h.spentNodup
  · exact h.root
  · exact h.child
  · exact h.flightRoot
  · exact h.flightChild
  · exact h.freedRoot

lemma spend (hparent : s'.parentOf = s.parentOf) (hserial : s'.serialOf = s.serialOf)
    (hancestors : s'.ancestorsOf = s.ancestorsOf) (hclock : s'.clock = s.clock)
    (hsub : s'.flights.Sublist s.flights) (hmoved : ∀ g ∈ s'.freed, g ∈ s.freed ∨ g ∈ s.flights ∧ g.claim.isRoot)
    (hnodup : ((s'.flights ++ s'.freed).map Flight.serial).Nodup) (hw : WellFormed s) : Traced s' := by
  have hold (g : Flight) (hg : g ∈ s'.flights ++ s'.freed) : g ∈ s.flights ++ s.freed := by
    rcases mem_append.mp hg with hg | hg
    · exact mem_append_left _ (hsub.subset hg)
    · rcases hmoved g hg with hg | ⟨hg, -⟩
      · exact mem_append_right _ hg
      · exact mem_append_left _ hg
  constructor
  · simpa only [hparent, hserial, hclock] using @h.recent
  · simpa only [hparent, hserial] using @h.injective
  · intro g hg
    rw [hclock]
    exact h.spentRecent (hold g hg)
  · intro m q g hm hg
    rw [hserial]
    exact h.spentDead (hparent ▸ hm) (hold g hg)
  · exact hnodup
  · simpa only [hparent, hancestors] using @h.root
  · simpa only [hparent, hserial, hancestors] using @h.child
  · exact fun hg => h.flightRoot (hsub.subset hg)
  · intro g hg
    rw [hserial, hancestors]
    exact h.flightChild (hsub.subset hg)
  · intro g hg
    rcases hmoved g hg with hg | ⟨hg, hroot⟩
    · exact h.freedRoot hg
    · refine ⟨hroot, h.flightRoot hg ?_⟩
      simpa [hw.rooted hg] using hroot

lemma born (hw : WellFormed s) {t : RegionTable N} {ancestors : List ℕ}
    (hparent : (s.born n t ancestors).parentOf = update s.parentOf n (some p))
    (hfresh : s.parentOf n = none)
    (hlineage : (p = noParent ∧ ancestors = []) ∨
      (∃ q, s.parentOf p = some q) ∧ ancestors = s.serialOf p :: s.ancestorsOf p) :
    Traced (s.born n t ancestors) := by
  have hlive {m q : ℕ} (hm : (s.born n t ancestors).parentOf m = some q) :
      (m = n ∧ q = p) ∨ (m ≠ n ∧ s.parentOf m = some q) := by
    rw [hparent, update_apply] at hm
    split at hm
    · exact .inl ⟨‹_›, (Option.some.inj hm).symm⟩
    · exact .inr ⟨‹_›, hm⟩
  have hserial {m : ℕ} (hm : m ≠ n) : (s.born n t ancestors).serialOf m = s.serialOf m ∧
      (s.born n t ancestors).ancestorsOf m = s.ancestorsOf m :=
    ⟨update_of_ne hm _ _, update_of_ne hm _ _⟩
  have hself : (s.born n t ancestors).serialOf n = s.clock ∧ (s.born n t ancestors).ancestorsOf n = ancestors :=
    ⟨update_self .., update_self ..⟩
  have hother {m q : ℕ} (hm : s.parentOf m = some q) : m ≠ n := by
    rintro rfl
    simp [hfresh] at hm
  have hclock : (s.born n t ancestors).clock = s.clock + 1 := rfl
  constructor
  · intro m q hm
    rcases hlive hm with ⟨rfl, -⟩ | ⟨hne, hm⟩
    · rw [hself.1, hclock]
      omega
    · rw [(hserial hne).1, hclock]
      exact (h.recent hm).trans (Nat.lt_succ_self _)
  · intro m m' q q' hm hm' heq
    rcases hlive hm with ⟨rfl, -⟩ | ⟨hne, hlm⟩ <;> rcases hlive hm' with ⟨rfl, -⟩ | ⟨hne', hlm'⟩
    · rfl
    · rw [hself.1, (hserial hne').1] at heq
      have := h.recent hlm'
      omega
    · rw [hself.1, (hserial hne).1] at heq
      have := h.recent hlm
      omega
    · rw [(hserial hne).1, (hserial hne').1] at heq
      exact h.injective hlm hlm' heq
  · intro g hg
    exact (h.spentRecent hg).trans (Nat.lt_succ_self _)
  · intro m q g hm hg
    rcases hlive hm with ⟨rfl, -⟩ | ⟨hne, hm⟩
    · rw [hself.1]
      exact (h.spentRecent hg).ne
    · rw [(hserial hne).1]
      exact h.spentDead hm hg
  · exact h.spentNodup
  · intro m hm
    rcases hlive hm with ⟨rfl, hp⟩ | ⟨hne, hm⟩
    · rw [hself.2]
      rcases hlineage with ⟨-, hroot⟩ | ⟨⟨q, hq⟩, -⟩
      · exact hroot
      · obtain ⟨r, hr, -⟩ := parentOf_eq_some.mp hq
        exact absurd hp.symm (name_ne_noParent hr)
    · rw [(hserial hne).2]
      exact h.root hm
  · intro m q hm hq
    rcases hlive hm with ⟨rfl, rfl⟩ | ⟨hne, hm⟩
    · rcases hlineage with ⟨hroot, -⟩ | ⟨⟨q', hq'⟩, hanc⟩
      · exact absurd hroot hq
      · rw [(hserial (hother hq')).1, (hserial (hother hq')).2, hself.1, hself.2]
        exact ⟨h.recent hq', hanc⟩
    · obtain ⟨q', hq'⟩ := hw.parent_live hm hq
      rw [(hserial (hother hq')).1, (hserial (hother hq')).2, (hserial hne).1, (hserial hne).2]
      exact h.child hm hq
  · exact h.flightRoot
  · intro g hg hp
    obtain ⟨q', hq'⟩ := hw.flight_parent_live hg hp
    rw [(hserial (hother hq')).1, (hserial (hother hq')).2]
    exact h.flightChild hg hp
  · exact h.freedRoot

lemma ancestor_live (hw : WellFormed s) {k : ℕ} (hn : s.parentOf n = some p)
    (hk : k ∈ s.ancestorsOf n) : ∃ m q, s.parentOf m = some q ∧ s.serialOf m = k := by
  -- by induction along the serial numbers, which grow from parent to child
  induction hserial : s.serialOf n using Nat.strong_induction_on generalizing n p with
  | _ i ih =>
  by_cases hp : p = noParent
  · subst p
    simp [h.root hn] at hk
  obtain ⟨hlt, hanc⟩ := h.child hn hp
  obtain ⟨q, hq⟩ := hw.parent_live hn hp
  rw [hanc] at hk
  rcases mem_cons.mp hk with rfl | hk
  · exact ⟨p, q, hq, rfl⟩
  · exact ih _ (hserial ▸ hlt) hq hk rfl

lemma flight_ancestor_live (hw : WellFormed s) {k : ℕ} (hf : f ∈ s.flights)
    (hk : k ∈ f.ancestors) : ∃ m q, s.parentOf m = some q ∧ s.serialOf m = k := by
  by_cases hp : f.claim.parent = noParent
  · simp [h.flightRoot hf hp] at hk
  obtain ⟨q, hq⟩ := hw.flight_parent_live hf hp
  rw [h.flightChild hf hp] at hk
  rcases mem_cons.mp hk with rfl | hk
  · exact ⟨_, q, hq, rfl⟩
  · exact h.ancestor_live hw hq hk

lemma claimForDestroy (n : ℕ) : Traced (s.claimForDestroy n) := by
  cases ht : s.table.claimForDestroy n with
  | none =>
    rw [State.claimForDestroy, ht]
    exact h
  | some ct =>
  obtain ⟨claim, t⟩ := ct
  obtain ⟨r, hr, -, hzero, rfl, hremove⟩ := claimForDestroy_eq_some ht
  have hparent : (s.claimForDestroy n).parentOf = update s.parentOf n none := by
    funext m
    rw [State.claimForDestroy, ht]
    simp only [parentOf, Table.get_remove hremove, update_apply]
    split <;> rfl
  have hlive {m q : ℕ} (hm : (s.claimForDestroy n).parentOf m = some q) : m ≠ n ∧ s.parentOf m = some q := by
    rw [hparent, update_apply] at hm
    split at hm
    · simp at hm
    · exact ⟨‹_›, hm⟩
  have hn : s.parentOf n = some r.parent := parentOf_eq_some.mpr ⟨r, hr, rfl⟩
  have hflights : (s.claimForDestroy n).flights = s.flightOf n r.claim :: s.flights := by
    rw [State.claimForDestroy, ht]
  have hrest : (s.claimForDestroy n).serialOf = s.serialOf ∧ (s.claimForDestroy n).ancestorsOf = s.ancestorsOf ∧
      (s.claimForDestroy n).clock = s.clock ∧ (s.claimForDestroy n).freed = s.freed := by
    rw [State.claimForDestroy, ht]
    exact ⟨rfl, rfl, rfl, rfl⟩
  obtain ⟨hserial, hancestors, hclock, hfreed⟩ := hrest
  have hspent (g : Flight) (hg : g ∈ (s.claimForDestroy n).flights ++ (s.claimForDestroy n).freed) :
      g = s.flightOf n r.claim ∨ g ∈ s.flights ++ s.freed := by
    rw [hflights, hfreed, cons_append] at hg
    exact mem_cons.mp hg
  constructor
  · intro m q hm
    rw [hserial, hclock]
    exact h.recent (hlive hm).2
  · intro m m' q q' hm hm'
    rw [hserial]
    exact h.injective (hlive hm).2 (hlive hm').2
  · intro g hg
    rw [hclock]
    rcases hspent g hg with rfl | hg
    · exact h.recent hn
    · exact h.spentRecent hg
  · intro m q g hm hg
    rw [hserial]
    obtain ⟨hne, hm⟩ := hlive hm
    rcases hspent g hg with rfl | hg
    · exact fun heq => hne (h.injective hn hm heq).symm
    · exact h.spentDead hm hg
  · rw [hflights, hfreed, cons_append, map_cons, nodup_cons]
    refine ⟨?_, h.spentNodup⟩
    intro hmem
    obtain ⟨g, hg, heq⟩ := mem_map.mp hmem
    exact h.spentDead hn hg heq
  · intro m hm
    rw [hancestors]
    exact h.root (hlive hm).2
  · intro m q hm
    rw [hserial, hancestors]
    exact h.child (hlive hm).2
  · intro g hg hp
    rw [hflights] at hg
    rcases mem_cons.mp hg with rfl | hg
    · exact h.root (hn.trans (congrArg some hp))
    · exact h.flightRoot hg hp
  · intro g hg hp
    rw [hflights] at hg
    rw [hserial, hancestors]
    rcases mem_cons.mp hg with rfl | hg
    · exact (h.child hn hp).2
    · exact h.flightChild hg hp
  · rw [hfreed]
    exact h.freedRoot

lemma retype (pin : Bool) (n : ℕ) : Traced (s.retype pin n) := by
  rw [State.retype]
  split
  · exact h
  rename_i page t ht
  obtain ⟨r, hr, -, -, hget⟩ := retype_eq_some ht
  exact h.congr (parentOf_of_update hr hget rfl) rfl rfl rfl rfl rfl

lemma unpin (n : ℕ) : Traced { s with table := s.table.unpin n } := by
  cases hr : s.table.get n with
  | none =>
    rw [RegionTable.unpin, Table.modify_of_get_eq_none hr]
    exact h
  | some r =>
    have hget := get_unpin s.table n
    rw [hr, Option.map_some] at hget
    exact h.congr (parentOf_of_update hr hget rfl) rfl rfl rfl rfl rfl

variable (hw : WellFormed s)
include hw

lemma insertRoot (basePage pages : ℕ) :
    Traced (s.insertRoot basePage pages) := by
  rw [State.insertRoot]
  split
  · exact h
  rename_i n t ht
  obtain ⟨hfresh, hget⟩ := insertRoot_eq_some ht
  exact h.born hw (parentOf_of_born hget) (by simp [parentOf, hfresh]) (.inl ⟨rfl, rfl⟩)

lemma split {parent pages : ℕ} (hfits : s.CountFits parent) :
    Traced (s.split parent pages) := by
  rw [State.split]
  split
  · rename_i t ht
    rcases split_cases ht with ⟨-, rfl⟩ | ⟨r, _, hr, -, -, -, rfl, ⟨-, rfl⟩ | ⟨n, hn, -⟩⟩
    · exact h
    · exact h.congr (parentOf_of_update hr (get_carved hr) rfl) rfl rfl rfl rfl rfl
    · simp at hn
  · rename_i n t ht
    rcases split_cases ht with ⟨hn, -⟩ | ⟨r, _, hr, -, -, hbudget, rfl, ⟨hn, -⟩ | ⟨n', hn, hins⟩⟩
    · simp at hn
    · simp at hn
    cases hn
    have hcarved := get_carved hr (w := r.watermark + pages)
    have hs₁ : Traced { s with table := s.table.modify parent (Region.carve · (r.watermark + pages)) } :=
      h.congr (parentOf_of_update hr hcarved rfl) rfl rfl rfl rfl rfl
    refine hs₁.born (hw.carve hfits hr hbudget) (parentOf_of_born (Table.get_insertWith hins)) ?_ (.inr ⟨?_, rfl⟩)
    · simp [parentOf, Table.get_eq_none_of_insertWith hins]
    · have hself := (congrFun hcarved parent).trans (update_self ..)
      exact ⟨r.parent, parentOf_eq_some.mpr ⟨r.carve (r.watermark + pages), hself, rfl⟩⟩

lemma returnToParent (hf : f ∈ s.flights) (hroot : f.claim.isRoot = false) :
    Traced { s with table := s.table.returnToParent f.claim, flights := s.flights.erase f } := by
  obtain ⟨-, p, hp, -⟩ := hw.claim_inside hf hroot
  have hget := get_returnToParent s.table hroot
  rw [hp, Option.map_some] at hget
  refine h.spend (parentOf_of_update hp hget rfl) rfl rfl rfl erase_sublist (fun g hg => .inl hg) ?_ hw
  exact h.spentNodup.sublist ((erase_sublist.append_right _).map _)

lemma freeRun (hf : f ∈ s.flights) (hroot : f.claim.isRoot) :
    Traced { s with flights := s.flights.erase f, freed := f :: s.freed } := by
  refine h.spend rfl rfl rfl rfl erase_sublist ?_ ?_ hw
  · intro g hg
    rcases mem_cons.mp hg with rfl | hg
    · exact .inr ⟨hf, hroot⟩
    · exact .inl hg
  · refine List.Perm.nodup (List.Perm.map _ ?_) h.spentNodup
    refine ((perm_cons_erase hf).append_right _).trans ?_
    exact perm_middle.symm

end Traced

end CrickerOs.Regions
