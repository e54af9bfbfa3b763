import CrickerOs.Regions.Machine

namespace CrickerOs.Regions

open Library Slots Function State RegionTable Region List

variable {N : ℕ}

namespace State

variable {s : State N} {n m x : ℕ} {f : Flight} {k : ℕ} {a : Span}

lemma items_page : s.carving.items (.page n x) = some (k, a) ↔
    (s.table.get n).isSome ∧ x ∈ s.own n ∧ k = n ∧ a = ⟨x, 1⟩ := by
  simp only [carving]
  split_ifs with h
  · simp only [Option.some.injEq, Prod.mk.injEq, h, true_and, eq_comm]
  · simp only [false_iff]
    tauto

lemma items_region : s.carving.items (.region n) = some (k, a) ↔
    ∃ r, s.table.get n = some r ∧ k = r.parent ∧ a = r.run := by
  simp only [carving, Option.map_eq_some_iff, Prod.mk.injEq]
  exact exists_congr fun r => and_congr_right fun _ => and_congr eq_comm eq_comm

lemma items_claim : s.carving.items (.claim f) = some (k, a) ↔
    f ∈ s.flights ∧ k = f.claim.parent ∧ a = f.claim.run := by
  simp only [carving]
  split_ifs with h
  · simp only [Option.some.injEq, Prod.mk.injEq, h, true_and, eq_comm]
  · simp only [h, false_and]

lemma spent_eq_some {w : Span} : s.carving.spent n = some w ↔ ∃ r, s.table.get n = some r ∧ r.spent = w := by
  simp only [carving, Option.map_eq_some_iff]

lemma name_ne_noParent {r : Region} (h : s.table.get n = some r) : n ≠ noParent :=
  (Table.name_lt_of_get h).ne

lemma get_noParent (s : State N) : s.table.get noParent = none := by
  cases h : s.table.get noParent with
  | none => rfl
  | some r => exact absurd rfl (name_ne_noParent h)

def children (s : State N) (n : ℕ) : Set Use :=
  {u | (∀ m x, u ≠ .page m x) ∧ ∃ a, s.carving.items u = some (n, a)}

end State

structure WellFormed (s : State N) : Prop where
  tiled : s.carving.Tiled noParent
  bounded : ∀ {n r}, s.table.get n = some r →
    r.watermark ≤ r.pages ∧ r.pages < 2 ^ 64 ∧ r.basePage + r.pages ≤ 2 ^ 64
  counted : ∀ {n r}, s.table.get n = some r → (s.children n).encard ≤ r.children
  nodup : ∀ {n r}, s.table.get n = some r → (s.own n).Nodup
  rooted : ∀ {f}, f ∈ s.flights → f.claim.isRoot = (f.claim.parent == noParent)

namespace WellFormed

variable {s s' : State N} {n : ℕ} {r r' : Region}

lemma items_of_update (hr : s.table.get n = some r) (hget : s'.table.get = update s.table.get n (some r'))
    (hparent : r'.parent = r.parent) (hrun : r'.run = r.run) (hown : ∀ m, s'.own m = s.own m)
    (hflights : ∀ f ∈ s'.flights, f ∈ s.flights) (u : Use) (x : ℕ × Span) (hu : s'.carving.items u = some x) :
    s.carving.items u = some x := by
  obtain ⟨k, a⟩ := x
  cases u with
  | page m x =>
    obtain ⟨hsome, hx, rfl, rfl⟩ := items_page.mp hu
    refine items_page.mpr ⟨?_, hown _ ▸ hx, rfl, rfl⟩
    rw [hget, update_apply] at hsome
    split at hsome <;> simp_all
  | region m =>
    obtain ⟨r₁, hr₁, rfl, rfl⟩ := items_region.mp hu
    rw [hget, update_apply] at hr₁
    split at hr₁
    · subst m
      cases hr₁
      exact items_region.mpr ⟨r, hr, hparent, hrun⟩
    · exact items_region.mpr ⟨r₁, hr₁, rfl, rfl⟩
  | claim f =>
    obtain ⟨hf, rfl, rfl⟩ := items_claim.mp hu
    exact items_claim.mpr ⟨hflights f hf, rfl, rfl⟩

lemma children_subset (hitems : ∀ u x, s'.carving.items u = some x → s.carving.items u = some x) (m : ℕ) :
    s'.children m ⊆ s.children m :=
  fun _ ⟨hpage, a, ha⟩ => ⟨hpage, a, hitems _ _ ha⟩

lemma spent_of_update (hget : s'.table.get = update s.table.get n (some r')) (m : ℕ) :
    s'.carving.spent m = if m = n then some r'.spent else s.carving.spent m := by
  simp only [carving, hget, update_apply]
  split <;> rfl

section

variable (h : WellFormed s)
include h

section

variable (hr : s.table.get n = some r)
include hr

lemma update
    (hget : s'.table.get = update s.table.get n (some r')) (hparent : r'.parent = r.parent)
    (hrun : r'.run = r.run) (hspent : r.watermark ≤ r'.watermark) (hbudget : r'.watermark ≤ r'.pages)
    (hchildren : r.children ≤ r'.children) (hown : ∀ m, s'.own m = s.own m) (hflights : s'.flights = s.flights) :
    WellFormed s' := by
  have hitems := items_of_update hr hget hparent hrun hown (fun f hf => hflights ▸ hf)
  have hbase : r'.basePage = r.basePage := congrArg Span.base hrun
  have hpages : r'.pages = r.pages := congrArg Span.len hrun
  refine ⟨h.tiled.restrict hitems ?_, ?_, ?_, ?_, ?_⟩
  · intro u k a hu hk
    obtain ⟨w, hw, ha⟩ := h.tiled.inside (hitems _ _ hu) hk
    rw [spent_of_update hget]
    split
    · subst k
      obtain ⟨r₁, hr₁, rfl⟩ := spent_eq_some.mp hw
      cases Option.mem_unique hr hr₁
      refine ⟨_, rfl, ha.trans ?_⟩
      simp only [Span.Within, spent]
      omega
    · exact ⟨w, hw, ha⟩
  · intro m r₁ hr₁
    rw [hget, update_apply] at hr₁
    split at hr₁
    · cases hr₁
      have := h.bounded hr
      omega
    · exact h.bounded hr₁
  · intro m r₁ hr₁
    rw [hget, update_apply] at hr₁
    refine (Set.encard_le_encard (children_subset hitems m)).trans ?_
    split at hr₁
    · subst m
      cases hr₁
      exact (h.counted hr).trans (by exact_mod_cast hchildren)
    · exact h.counted hr₁
  · intro m r₁ hr₁
    rw [hown]
    rw [hget, update_apply] at hr₁
    split at hr₁
    · subst m
      exact h.nodup hr
    · exact h.nodup hr₁
  · intro f hf
    exact h.rooted (hflights ▸ hf)

lemma apart_top {u : Use} {a : Span} (len : ℕ)
    (hu : s.carving.items u = some (n, a)) : (⟨r.basePage + r.watermark, len⟩ : Span).Apart a := by
  obtain ⟨w, hw, ha⟩ := h.tiled.inside hu (name_ne_noParent hr)
  obtain ⟨r₁, hr₁, rfl⟩ := spent_eq_some.mp hw
  cases Option.mem_unique hr hr₁
  simp only [Span.Within, spent, Span.Apart] at *
  omega

lemma add64_top (hlt : r.watermark < r.pages) :
    add64 r.basePage r.watermark = r.basePage + r.watermark := by
  have := h.bounded hr
  exact Nat.mod_eq_of_lt (by omega)

lemma addOwn {x : ℕ}
    (hapart : ∀ u a, s.carving.items u = some (n, a) → (⟨x, 1⟩ : Span).Apart a)
    (hin : (⟨x, 1⟩ : Span).Within r.spent) :
    WellFormed { s with own := Function.update s.own n (x :: s.own n) } := by
  have hfresh : x ∉ s.own n := by
    intro hx
    have := hapart _ _ (items_page.mpr ⟨by simp [hr], hx, rfl, rfl⟩)
    simp only [Span.Apart] at this
    omega
  have hold (u : Use) (y : ℕ × Span) (hne : u ≠ .page n x)
      (hu : (carving { s with own := Function.update s.own n (x :: s.own n) }).items u = some y) :
      s.carving.items u = some y := by
    cases u with
    | page m z =>
      obtain ⟨hsome, hz, hk, ha⟩ := items_page.mp hu
      refine items_page.mpr ⟨hsome, ?_, hk, ha⟩
      dsimp only at hz
      rw [update_apply] at hz
      split at hz
      · rcases mem_cons.mp hz with rfl | hz <;> simp_all
      · exact hz
    | region m => exact hu
    | claim f => exact hu
  refine ⟨h.tiled.add (i := .page n x) (k := n) (a := ⟨x, 1⟩) hold ?_ ?_ ?_ ?_, h.bounded, ?_, ?_, h.rooted⟩
  · exact items_page.mpr ⟨by simp [hr], by simp, rfl, rfl⟩
  · intro u b hne hu
    exact hapart u b (hold u _ hne hu)
  · intro _
    exact ⟨Nat.one_pos, _, spent_eq_some.mpr ⟨r, hr, rfl⟩, hin⟩
  · intro u k b _ _ _ w hw
    exact ⟨w, hw, by simp [Span.Within]⟩
  · intro m r₁ hr₁
    refine (Set.encard_le_encard ?_).trans (h.counted hr₁)
    rintro u ⟨hpage, b, hu⟩
    exact ⟨hpage, b, hold u _ (hpage _ _) hu⟩
  · intro m r₁ hr₁
    dsimp only
    rw [update_apply]
    split
    · exact nodup_cons.mpr ⟨hfresh, h.nodup hr⟩
    · exact h.nodup hr₁

end

lemma retype (pin : Bool) (n : ℕ) : WellFormed (s.retype pin n) := by
  rw [State.retype]
  split
  · exact h
  rename_i page t ht
  obtain ⟨r, hr, hlt, rfl, hget⟩ := retype_eq_some ht
  have hb := h.bounded hr
  have hwater : add64 r.watermark 1 = r.watermark + 1 := Nat.mod_eq_of_lt (by omega)
  rw [hwater] at hget
  rw [h.add64_top hr hlt]
  have hw : WellFormed { s with table := t } :=
    h.update hr hget rfl rfl (Nat.le_succ _) hlt (le_refl _) (fun _ => rfl) rfl
  have hitems : ∀ u x, (carving { s with table := t }).items u = some x → s.carving.items u = some x :=
    items_of_update hr hget rfl rfl (fun _ => rfl) (fun _ hf => hf)
  apply hw.addOwn (n := n) (hget ▸ update_self ..)
  · intro u a hu
    exact h.apart_top hr 1 (hitems _ _ hu)
  · simp only [Span.Within, spent]
    omega

lemma unpin (n : ℕ) : WellFormed { s with table := s.table.unpin n } := by
  cases hr : s.table.get n with
  | none =>
    rw [RegionTable.unpin, Table.modify_of_get_eq_none hr]
    exact h
  | some r =>
    have hget := get_unpin s.table n
    rw [hr, Option.map_some] at hget
    exact h.update hr hget rfl rfl (le_refl _) (h.bounded hr).1 (le_refl _) (fun _ => rfl) rfl

lemma born {t : RegionTable N} {ancestors : List ℕ} (hfresh : s.table.get n = none)
    (hget : t.get = Function.update s.table.get n (some r)) (hwater : r.watermark = 0)
    (hbound : r.pages < 2 ^ 64 ∧ r.basePage + r.pages ≤ 2 ^ 64)
    (hapart : ∀ u a, s.carving.items u = some (r.parent, a) → r.run.Apart a)
    (hin : r.parent ≠ noParent → 0 < r.pages ∧ ∃ p, s.table.get r.parent = some p ∧ r.run.Within p.spent)
    (hcount : ∀ p, s.table.get r.parent = some p → (s.children r.parent).encard + 1 ≤ p.children) :
    WellFormed (s.born n t ancestors) := by
  have hold (u : Use) (y : ℕ × Span) (hne : u ≠ .region n)
      (hu : (s.born n t ancestors).carving.items u = some y) : s.carving.items u = some y := by
    cases u with
    | page m z =>
      obtain ⟨hsome, hz, hk, ha⟩ := items_page.mp hu
      refine items_page.mpr ⟨?_, ?_, hk, ha⟩ <;>
        simp only [State.born, hget, update_apply] at hsome hz <;> split at hsome <;> simp_all
    | region m =>
      obtain ⟨r₁, hr₁, hk, ha⟩ := items_region.mp hu
      refine items_region.mpr ⟨r₁, ?_, hk, ha⟩
      simp only [State.born, hget, update_apply] at hr₁
      simp_all
    | claim f => exact hu
  have hself : (s.born n t ancestors).carving.items (.region n) = some (r.parent, r.run) :=
    State.items_region.mpr ⟨r, by simp [State.born, hget], rfl, rfl⟩
  have hspent (m : ℕ) (w : Span) (hw : s.carving.spent m = some w) :
      (s.born n t ancestors).carving.spent m = some w := by
    obtain ⟨p, hp, rfl⟩ := State.spent_eq_some.mp hw
    refine State.spent_eq_some.mpr ⟨p, ?_, rfl⟩
    simp only [State.born, hget, update_apply]
    rw [if_neg (by rintro rfl; simp [hfresh] at hp), hp]
  refine ⟨h.tiled.add hold hself ?_ ?_ ?_, ?_, ?_, ?_, h.rooted⟩
  · intro u b hne hu
    exact hapart u b (hold u _ hne hu)
  · intro hk
    obtain ⟨hpos, p, hp, hwithin⟩ := hin hk
    exact ⟨hpos, _, hspent _ _ (State.spent_eq_some.mpr ⟨p, hp, rfl⟩), hwithin⟩
  · intro u k b _ _ _ w hw
    exact ⟨w, hspent k w hw, by simp [Span.Within]⟩
  · intro m r₁ hr₁
    simp only [State.born, hget, update_apply] at hr₁
    split at hr₁
    · cases hr₁
      omega
    · exact h.bounded hr₁
  · intro m r₁ hr₁
    simp only [State.born, hget, update_apply] at hr₁
    split at hr₁
    · subst m
      have hnone : (s.born n t ancestors).children n = ∅ := by
        refine Set.eq_empty_of_forall_notMem ?_
        rintro u ⟨-, a, hu⟩
        have hn : n ≠ noParent := State.name_ne_noParent (s := s.born n t ancestors) (r := r)
          (by simp [State.born, hget])
        by_cases hne : u = .region n
        · subst u
          obtain ⟨hparent, -⟩ := Prod.mk.inj (Option.mem_unique hself hu)
          obtain ⟨-, p, hp, -⟩ := hin (hparent ▸ hn)
          simp [hparent, hfresh] at hp
        · obtain ⟨w, hw, -⟩ := h.tiled.inside (hold u _ hne hu) hn
          obtain ⟨p, hp, -⟩ := State.spent_eq_some.mp hw
          simp [hfresh] at hp
      simp [hnone]
    · by_cases hm : m = r.parent
      · subst m
        refine le_trans ?_ (hcount r₁ hr₁)
        refine (Set.encard_le_encard ?_).trans (Set.encard_insert_le _ (.region n))
        rintro u ⟨hpage, a, hu⟩
        by_cases hne : u = .region n
        · exact .inl hne
        · exact .inr ⟨hpage, a, hold u _ hne hu⟩
      · refine (Set.encard_le_encard ?_).trans (h.counted hr₁)
        rintro u ⟨hpage, a, hu⟩
        refine ⟨hpage, a, hold u _ ?_ hu⟩
        rintro rfl
        exact hm (Prod.mk.inj (Option.mem_unique hu hself)).1
  · intro m r₁ hr₁
    simp only [State.born, hget, update_apply] at hr₁ ⊢
    split at hr₁
    · simp_all
    · simp_all [h.nodup hr₁]

lemma insertRoot {basePage pages : ℕ} (halloc : s.Allocated basePage pages) :
    WellFormed (s.insertRoot basePage pages) := by
  obtain ⟨-, hpages, hend, hlive, hflight⟩ := halloc
  rw [State.insertRoot]
  split
  · exact h
  rename_i n t ht
  obtain ⟨hfresh, hget⟩ := insertRoot_eq_some ht
  apply h.born hfresh hget rfl ⟨hpages, hend⟩
  · intro u a hu
    cases u with
    | page m x =>
      obtain ⟨hsome, -, hk, -⟩ := items_page.mp hu
      obtain ⟨r₁, hr₁⟩ := Option.isSome_iff_exists.mp hsome
      exact absurd hk.symm (name_ne_noParent hr₁)
    | region m =>
      obtain ⟨r₁, hr₁, hk, rfl⟩ := items_region.mp hu
      exact hlive r₁ (Table.mem_values_iff.mpr ⟨m, hr₁⟩) (by simp [isRoot, ← hk])
    | claim f =>
      obtain ⟨hf, hk, rfl⟩ := items_claim.mp hu
      exact hflight f hf (by simp [h.rooted hf, ← hk])
  · intro hne
    exact absurd rfl hne
  · intro p hp
    exact absurd rfl (name_ne_noParent hp)

lemma carve {parent pages : ℕ} (hfits : s.CountFits parent) (hr : s.table.get parent = some r)
    (hbudget : r.watermark + pages ≤ r.pages) :
    WellFormed { s with table := s.table.modify parent (carve · (r.watermark + pages)) } := by
  refine h.update hr (get_carved hr) rfl rfl (Nat.le_add_right _ _) hbudget ?_ (fun _ => rfl) rfl
  have := hfits r hr
  simp only [Region.carve]
  omega

lemma split {parent pages : ℕ} (hfits : s.CountFits parent) :
    WellFormed (s.split parent pages) := by
  rw [State.split]
  split
  · rename_i t ht
    rcases split_cases ht with ⟨-, rfl⟩ | ⟨r, _, hr, -, -, hbudget, rfl, ⟨-, rfl⟩ | ⟨n, hn, -⟩⟩
    · exact h
    · exact h.carve hfits hr hbudget
    · simp at hn
  · rename_i n t ht
    rcases split_cases ht with ⟨hn, -⟩ | ⟨r, _, hr, hzero, -, hbudget, rfl, ⟨hn, -⟩ | ⟨n', hn, hins⟩⟩
    · simp at hn
    · simp at hn
    cases hn
    have hw := h.carve hfits hr hbudget
    have hb := h.bounded hr
    have hbase : add64 r.basePage r.watermark = r.basePage + r.watermark := h.add64_top hr (by omega)
    have hself := get_carved hr (w := r.watermark + pages)
    have hitems : ∀ u x, (carving
        { s with table := s.table.modify parent (Region.carve · (r.watermark + pages)) }).items u = some x →
        s.carving.items u = some x :=
      items_of_update hr hself rfl rfl (fun _ => rfl) (fun _ hf => hf)
    have hparent : (s.table.modify parent (Region.carve · (r.watermark + pages))).get parent =
        some (r.carve (r.watermark + pages)) := by rw [hself, update_self]
    apply hw.born (Table.get_eq_none_of_insertWith hins) (Table.get_insertWith hins) rfl ?_
    · intro u a hu
      simp only [childOf, run, hbase]
      exact h.apart_top hr pages (hitems _ _ hu)
    · intro _
      refine ⟨by simp only [childOf]; omega, _, hparent, ?_⟩
      simp only [childOf, Region.run, Region.spent, Region.carve, hbase, Span.Within]
      omega
    · intro p hp
      cases Option.mem_unique hparent hp
      have hle := (Set.encard_le_encard (children_subset hitems parent)).trans (h.counted hr)
      have hlt := hfits r hr
      simp only [Region.carve, Nat.mod_eq_of_lt hlt]
      push_cast
      exact add_le_add_left hle 1
    · simp only [childOf, hbase]
      omega

lemma no_children (hr : s.table.get n = some r) (hzero : r.children = 0) :
    s.children n = ∅ := by
  have := h.counted hr
  simpa [hzero] using this

lemma claimForDestroy (n : ℕ) : WellFormed (s.claimForDestroy n) := by
  cases ht : s.table.claimForDestroy n with
  | none =>
    rw [State.claimForDestroy, ht]
    exact h
  | some ct =>
  obtain ⟨claim, t⟩ := ct
  obtain ⟨r, hr, -, hzero, rfl, hremove⟩ := claimForDestroy_eq_some ht
  have hget := Table.get_remove hremove
  have hstate : s.claimForDestroy n = { s with
      table := t
      flights := s.flightOf n r.claim :: s.flights
      own := Function.update s.own n []
      claimed := n :: s.claimed } := by
    rw [State.claimForDestroy, ht]
  have hlive {m : ℕ} {r₁ : Region} (hm : (s.claimForDestroy n).table.get m = some r₁) :
      m ≠ n ∧ s.table.get m = some r₁ := by
    rw [hstate] at hm
    simp only [hget, update_apply] at hm
    split at hm
    · simp at hm
    · exact ⟨‹_›, hm⟩
  have hself : (s.claimForDestroy n).carving.items (.claim (s.flightOf n r.claim)) = some (r.parent, r.run) :=
    items_claim.mpr ⟨by simp [hstate], rfl, rfl⟩
  have hwas : s.carving.items (.region n) = some (r.parent, r.run) := items_region.mpr ⟨r, hr, rfl, rfl⟩
  have hold (u : Use) (y : ℕ × Span) (hne : u ≠ .claim (s.flightOf n r.claim))
      (hu : (s.claimForDestroy n).carving.items u = some y) :
      s.carving.items u = some y ∧ u ≠ .region n := by
    cases u with
    | page m z =>
      obtain ⟨hsome, hz, hk, ha⟩ := items_page.mp hu
      obtain ⟨r₁, hr₁⟩ := Option.isSome_iff_exists.mp hsome
      obtain ⟨hm, hr₁⟩ := hlive hr₁
      rw [hstate] at hz
      exact ⟨items_page.mpr ⟨by simp [hr₁], by simpa [hm] using hz, hk, ha⟩, by simp⟩
    | region m =>
      obtain ⟨r₁, hr₁, hk, ha⟩ := items_region.mp hu
      obtain ⟨hm, hr₁⟩ := hlive hr₁
      exact ⟨items_region.mpr ⟨r₁, hr₁, hk, ha⟩, by simpa using hm⟩
    | claim f =>
      obtain ⟨hf, hk, ha⟩ := items_claim.mp hu
      rw [hstate] at hf
      exact ⟨items_claim.mpr ⟨(mem_cons.mp hf).resolve_left (by simpa using hne), hk, ha⟩, by simp⟩
  -- nothing is left that was carved from the region itself: its own pages went with it, and it has no children
  have hholder (u : Use) (k : ℕ) (b : Span) (hne : u ≠ .claim (s.flightOf n r.claim))
      (hu : (s.claimForDestroy n).carving.items u = some (k, b)) : k ≠ n := by
    rintro rfl
    cases u with
    | page m z =>
      obtain ⟨hsome, -, rfl, -⟩ := items_page.mp hu
      obtain ⟨r₁, hr₁⟩ := Option.isSome_iff_exists.mp hsome
      exact (hlive hr₁).1 rfl
    | region m =>
      have : Use.region m ∈ s.children k := ⟨by simp, b, (hold _ _ hne hu).1⟩
      simp [h.no_children hr hzero] at this
    | claim f =>
      have : Use.claim f ∈ s.children k := ⟨by simp, b, (hold _ _ hne hu).1⟩
      simp [h.no_children hr hzero] at this
  have hspent (m : ℕ) (hm : m ≠ n) (w : Span) (hw : s.carving.spent m = some w) :
      (s.claimForDestroy n).carving.spent m = some w := by
    obtain ⟨p, hp, rfl⟩ := spent_eq_some.mp hw
    refine spent_eq_some.mpr ⟨p, ?_, rfl⟩
    rw [hstate]
    simp only [hget, update_of_ne hm, hp]
  have hparent : r.parent ≠ noParent → r.parent ≠ n := by
    rintro hk rfl
    have : Use.region r.parent ∈ s.children r.parent := ⟨by simp, r.run, hwas⟩
    simp [h.no_children hr hzero] at this
  refine ⟨h.tiled.add (fun u y hne hu => (hold u y hne hu).1) hself ?_ ?_ ?_, ?_, ?_, ?_, ?_⟩
  · intro u b hne hu
    obtain ⟨hu, hregion⟩ := hold u _ hne hu
    exact h.tiled.apart hwas hu (Ne.symm hregion)
  · intro hk
    obtain ⟨w, hw, hin⟩ := h.tiled.inside hwas hk
    exact ⟨h.tiled.positive hwas hk, w, hspent _ (hparent hk) w hw, hin⟩
  · intro u k b hne hu _ w hw
    exact ⟨w, hspent k (hholder u k b hne hu) w hw, by simp [Span.Within]⟩
  · intro m r₁ hr₁
    exact h.bounded (hlive hr₁).2
  · intro m r₁ hr₁
    obtain ⟨hm, hr₁⟩ := hlive hr₁
    by_cases hp : m = r.parent
    · subst m
      have hmem : Use.region n ∈ s.children r.parent := ⟨by simp, r.run, hwas⟩
      have hsub : (s.claimForDestroy n).children r.parent ⊆
          insert (Use.claim (s.flightOf n r.claim)) (s.children r.parent \ {Use.region n}) := by
        rintro u ⟨hpage, a, hu⟩
        by_cases hne : u = .claim (s.flightOf n r.claim)
        · exact .inl hne
        · obtain ⟨hu, hregion⟩ := hold u _ hne hu
          exact .inr ⟨⟨hpage, a, hu⟩, hregion⟩
      calc ((s.claimForDestroy n).children r.parent).encard
          ≤ (s.children r.parent \ {Use.region n}).encard + 1 :=
            (Set.encard_le_encard hsub).trans (Set.encard_insert_le _ _)
        _ = (s.children r.parent).encard := Set.encard_sdiff_singleton_add_one hmem
        _ ≤ r₁.children := h.counted hr₁
    · refine (Set.encard_le_encard ?_).trans (h.counted hr₁)
      rintro u ⟨hpage, a, hu⟩
      refine ⟨hpage, a, (hold u _ ?_ hu).1⟩
      rintro rfl
      exact hp (Prod.mk.inj (Option.mem_unique hu hself)).1
  · intro m r₁ hr₁
    obtain ⟨hm, hr₁⟩ := hlive hr₁
    rw [hstate]
    simpa only [update_of_ne hm] using h.nodup hr₁
  · intro f hf
    rw [hstate] at hf
    rcases mem_cons.mp hf with rfl | hf
    · rfl
    · exact h.rooted hf

lemma claim_inside {f : Flight} (hf : f ∈ s.flights) (hroot : f.claim.isRoot = false) :
    0 < f.claim.pages ∧ ∃ p, s.table.get f.claim.parent = some p ∧ f.claim.run.Within p.spent := by
  have hk : f.claim.parent ≠ noParent := by
    have := h.rooted hf
    simp_all
  have hitem := items_claim.mpr ⟨hf, rfl, rfl⟩
  obtain ⟨w, hw, hin⟩ := h.tiled.inside hitem hk
  obtain ⟨p, hp, rfl⟩ := spent_eq_some.mp hw
  exact ⟨h.tiled.positive hitem hk, p, hp, hin⟩

end

def lowered (p : Region) (claim : DestroyClaim) : ℕ :=
  if claim.basePage + claim.pages = p.basePage + p.watermark then p.watermark - claim.pages else p.watermark

lemma takeBack_eq {p : Region} {claim : DestroyClaim} (hbound : p.watermark ≤ p.pages ∧ p.pages < 2 ^ 64 ∧
    p.basePage + p.pages ≤ 2 ^ 64) (hpos : 0 < claim.pages) (hin : claim.run.Within p.spent) :
    p.takeBack claim = { p with watermark := lowered p claim, children := p.children - 1 } := by
  simp only [DestroyClaim.run, spent, Span.Within] at hin
  have htop : (add64 claim.basePage claim.pages == add64 p.basePage p.watermark) =
      decide (claim.basePage + claim.pages = p.basePage + p.watermark) := by
    rw [Bool.eq_iff_iff, beq_iff_eq, decide_eq_true_iff, add64, add64]
    omega
  have hwater : (if claim.basePage + claim.pages = p.basePage + p.watermark then claim.pages else 0) ≤
    p.watermark := by
    split <;> omega
  simp only [takeBack, htop, destroyOutcome, lowered]
  simp only [Bool.false_eq_true, lt_self_iff_false, or_self, if_false, decide_eq_true_eq]
  rw [sub64_eq hwater (by omega)]
  congr 1
  split <;> rfl

lemma children_of_erase {f : Flight} (hf : f ∈ s.flights)
    (hnodup : s.flights.Nodup) (hitems : ∀ u x, s'.carving.items u = some x → s.carving.items u = some x)
    (hflights : s'.flights = s.flights.erase f) :
    (s'.children f.claim.parent).encard + 1 ≤ (s.children f.claim.parent).encard := by
  have hmem : Use.claim f ∈ s.children f.claim.parent := ⟨by simp, _, items_claim.mpr ⟨hf, rfl, rfl⟩⟩
  have hout : Use.claim f ∉ s'.children f.claim.parent := by
    rintro ⟨-, a, ha⟩
    have := (items_claim.mp ha).1
    rw [hflights, hnodup.mem_erase_iff] at this
    exact this.1 rfl
  rw [← Set.encard_insert_of_notMem hout]
  exact Set.encard_le_encard (Set.insert_subset hmem (children_subset hitems _))

lemma returnToParent (h : WellFormed s) {f : Flight} (hf : f ∈ s.flights) (hroot : f.claim.isRoot = false)
    (hnodup : s.flights.Nodup) :
    WellFormed { s with table := s.table.returnToParent f.claim, flights := s.flights.erase f } := by
  obtain ⟨hpos, p, hp, hin⟩ := h.claim_inside hf hroot
  have hget := get_returnToParent s.table hroot
  rw [hp, Option.map_some, takeBack_eq (h.bounded hp) hpos hin] at hget
  have hitems : ∀ u x, (carving
      { s with table := s.table.returnToParent f.claim, flights := s.flights.erase f }).items u = some x →
      s.carving.items u = some x :=
    items_of_update hp hget rfl rfl (fun _ => rfl) (fun _ hg => mem_of_mem_erase hg)
  have hlow : lowered p f.claim ≤ p.watermark := by
    rw [lowered]
    split <;> omega
  refine ⟨h.tiled.restrict hitems ?_, ?_, ?_, ?_, ?_⟩
  · intro u k a hu hk
    obtain ⟨w, hw, ha⟩ := h.tiled.inside (hitems _ _ hu) hk
    rw [spent_of_update hget]
    split
    · subst k
      obtain ⟨p₁, hp₁, rfl⟩ := spent_eq_some.mp hw
      cases Option.mem_unique hp hp₁
      have hne : u ≠ .claim f := by
        rintro rfl
        have := (items_claim.mp hu).1
        rw [hnodup.mem_erase_iff] at this
        exact this.1 rfl
      -- the claim's run was the top of what the parent had spent, so every other piece lies below it
      have hapart := h.tiled.apart (hitems _ _ hu) (items_claim.mpr ⟨hf, rfl, rfl⟩) hne
      have hlen := h.tiled.positive (hitems _ _ hu) hk
      refine ⟨_, rfl, ?_⟩
      simp only [Span.Apart, DestroyClaim.run, Span.Within, spent, lowered] at *
      split <;> omega
    · exact ⟨w, hw, ha⟩
  · intro m r₁ hr₁
    simp only [hget, update_apply] at hr₁
    split at hr₁
    · cases hr₁
      have := h.bounded hp
      dsimp only
      omega
    · exact h.bounded hr₁
  · intro m r₁ hr₁
    simp only [hget, update_apply] at hr₁
    split at hr₁
    · subst m
      cases hr₁
      have hcount := (children_of_erase hf hnodup hitems rfl).trans (h.counted hp)
      cases hc : p.children with
      | zero => simp [hc] at hcount
      | succ c =>
        rw [hc, Nat.cast_succ] at hcount
        rw [Nat.succ_sub_one]
        exact (ENat.add_le_add_iff_right (by simp)).mp hcount
    · exact (Set.encard_le_encard (children_subset hitems m)).trans (h.counted hr₁)
  · intro m r₁ hr₁
    simp only [hget, update_apply] at hr₁
    split at hr₁
    · subst m
      exact h.nodup hp
    · exact h.nodup hr₁
  · intro g hg
    exact h.rooted (mem_of_mem_erase hg)

lemma freeRun (h : WellFormed s) (f : Flight) :
    WellFormed { s with flights := s.flights.erase f, freed := f :: s.freed } := by
  have hitems : ∀ u x, (carving
      { s with flights := s.flights.erase f, freed := f :: s.freed }).items u = some x →
      s.carving.items u = some x := by
    rintro u ⟨k, a⟩ hu
    cases u with
    | page m x => exact hu
    | region m => exact hu
    | claim g =>
      obtain ⟨hg, hk, ha⟩ := items_claim.mp hu
      exact items_claim.mpr ⟨mem_of_mem_erase hg, hk, ha⟩
  refine ⟨h.tiled.restrict hitems ?_, h.bounded, ?_, h.nodup, fun hg => h.rooted (mem_of_mem_erase hg)⟩
  · intro u k a hu hk
    exact h.tiled.inside (hitems _ _ hu) hk
  · intro m r₁ hr₁
    exact (Set.encard_le_encard (children_subset hitems m)).trans (h.counted hr₁)

end WellFormed

end CrickerOs.Regions
