import CrickerOs.Paging.FiniteMap

namespace CrickerOs.Paging

structure DmaRegion where
  base : UInt64
  size : UInt64
  deriving DecidableEq

def grantPages (r : DmaRegion) : Except MapError ℕ :=
  if r.base.toNat % pageSize ≠ 0 then .error .misaligned
  else if 2 ^ 64 ≤ r.base.toNat + r.size.toNat then .error .badRegion
  else .ok (r.size.toNat / pageSize)

def grantPage (r : DmaRegion) (i : ℕ) : Option ℕ :=
  let off := i * pageSize
  if 2 ^ 64 ≤ off then none
  else if 2 ^ 64 ≤ off + pageSize then none
  else if r.size.toNat < off + pageSize then none
  else if 2 ^ 64 ≤ r.base.toNat + off then none
  else some (r.base.toNat + off)

variable (F : PageFormat) (m : Mapper)

def mapPages (r : DmaRegion) : (left i : ℕ) → Tables → List ℕ → Except MapError Unit × Tables × List ℕ
  | 0, _, t, frames => (.ok (), t, frames)
  | left + 1, i, t, frames =>
    match grantPage r i with
    | none => (.error .badRegion, t, frames)
    | some page =>
      match m.map F page page .userData t frames with
      | (.error e, t, frames) => (.error e, t, frames)
      | (.ok _, t, frames) => mapPages r left (i + 1) t frames

def mapRegions : List DmaRegion → Tables → List ℕ → Except MapError Unit × Tables × List ℕ
  | [], t, frames => (.ok (), t, frames)
  | r :: regions, t, frames =>
    match grantPages r with
    | .error e => (.error e, t, frames)
    | .ok pages =>
      match mapPages F m r pages 0 t frames with
      | (.error e, t, frames) => (.error e, t, frames)
      | (.ok _, t, frames) => mapRegions regions t frames

def buildIdentityDomain (root : ℕ) (regions : List DmaRegion) (t : Tables) (frames : List ℕ) :
    Except MapError Unit × Tables × List ℕ :=
  mapRegions F ⟨root, .low⟩ regions t frames

def DmaRegion.pages (r : DmaRegion) : Set ℕ :=
  {p | r.base.toNat ≤ p * pageSize ∧ (p + 1) * pageSize ≤ r.base.toNat + r.size.toNat}

open Classical in
noncomputable def identity (pages : Set ℕ) : ℕ → Option (ℕ × Flags) :=
  fun p => if p ∈ pages then some (p * pageSize, .userData) else none

variable {F m} {pages : Set ℕ} {p : ℕ}

lemma identity_of_mem (h : p ∈ pages) : identity pages p = some (p * pageSize, .userData) := if_pos h

lemma identity_of_not_mem (h : p ∉ pages) : identity pages p = none := if_neg h

lemma update_identity : Function.update (identity pages) p (some (p * pageSize, .userData)) =
    identity (insert p pages) := by
  funext q
  by_cases hq : q = p
  · subst hq
    rw [Function.update_self, identity_of_mem (Set.mem_insert q pages)]
  · rw [Function.update_of_ne hq]
    by_cases hmem : q ∈ pages
    · rw [identity_of_mem hmem, identity_of_mem (Set.mem_insert_of_mem p hmem)]
    · have hinsert : q ∉ insert p pages := fun h => (Set.mem_insert_iff.mp h).elim hq hmem
      rw [identity_of_not_mem hmem, identity_of_not_mem hinsert]

/-- The addresses of the low half fit the format's physical-address field, and the root's first entries cover
it. -/
structure Roomy (F : PageFormat) : Prop extends F.Lawful where
  low_fits : F.splitShift ≤ F.physBits
  root_le : 9 * (F.levels - 1) + 12 ≤ F.splitShift

lemma aarch64_roomy : Roomy aarch64 := ⟨aarch64_lawful, by decide, by decide⟩

lemma sv39_roomy : Roomy sv39 := ⟨sv39_lawful, by decide, by decide⟩

lemma roomy_of_format (hF : F = aarch64 ∨ F = sv39) : Roomy F := by
  rcases hF with rfl | rfl
  · exact aarch64_roomy
  · exact sv39_roomy

lemma inHalf_low_iff {va : ℕ} : F.inHalf .low va ↔ va < 2 ^ F.splitShift := by
  simp only [PageFormat.inHalf, Nat.shiftRight_eq_div_pow, beq_iff_eq]
  exact Nat.div_eq_zero_iff_lt (by positivity)

lemma inHalf_low_page (hF : Roomy F) {va : ℕ} : F.inHalf .low va ↔ F.inHalf .low (va / pageSize * pageSize) := by
  obtain ⟨k, hk⟩ := Nat.exists_eq_add_of_le ((Nat.le_add_left 12 _).trans hF.root_le)
  rw [inHalf_low_iff, inHalf_low_iff, hk, pow_add, pageSize]
  omega

variable {root : ℕ} {used frames rest rest' : List ℕ} {t t' : Tables} {r : DmaRegion} {left i : ℕ}

lemma map_identity (hF : Roomy F) (h : RepresentsFrom F ⟨root, .low⟩ used frames rest t (identity pages))
    (hok : (⟨root, .low⟩ : Mapper).map F (p * pageSize) (p * pageSize) .userData t rest = (.ok (), t', rest')) :
    RepresentsFrom F ⟨root, .low⟩ used frames rest' t' (identity (insert p pages)) ∧ p ∉ pages ∧
      F.inHalf .low (p * pageSize) := by
  obtain ⟨used', hrep, hfresh, hsub, hrest⟩ := h
  have hpage : p * pageSize / pageSize = p := Nat.mul_div_cancel _ (by decide)
  have hhalf : F.inHalf .low (p * pageSize) := by
    by_contra hhigh
    rw [Mapper.map, if_pos (by simpa using hhigh)] at hok
    exact nomatch hok
  have hfits : p * pageSize < 2 ^ F.physBits :=
    (inHalf_low_iff.mp hhalf).trans_le (Nat.pow_le_pow_right (by decide) hF.low_fits)
  rcases hrep.map (p * pageSize) hF.toLawful hfresh hfits (by decide : Flags.userData ∈ Flags.portable) with
    ⟨e, t'', rest'', heq, -⟩ | ⟨t'', rest'', heq, -, hnone, hrep'⟩
  · rw [hok] at heq
    exact nomatch heq
  · rw [hok] at heq
    obtain ⟨-, rfl, rfl⟩ := Prod.mk.injEq .. ▸ heq
    rw [hpage] at hnone hrep'
    rw [update_identity] at hrep'
    refine ⟨hrep'.trans hsub hrest, fun hmem => ?_, hhalf⟩
    rw [identity_of_mem hmem] at hnone
    exact nomatch hnone

lemma grantPages_eq_ok {n : ℕ} : grantPages r = .ok n ↔
    r.base.toNat % pageSize = 0 ∧ r.base.toNat + r.size.toNat < 2 ^ 64 ∧ r.size.toNat / pageSize = n := by
  unfold grantPages
  split_ifs with halign hwrap
  · exact ⟨fun h => (nomatch h), fun h => absurd h.1 halign⟩
  · exact ⟨fun h => (nomatch h), fun h => absurd h.2.1 (by omega)⟩
  · refine ⟨fun h => ⟨not_not.mp halign, not_le.mp hwrap, Except.ok.inj h⟩, fun h => ?_⟩
    rw [h.2.2]

lemma grantPage_eq (halign : r.base.toNat % pageSize = 0) (hwrap : r.base.toNat + r.size.toNat < 2 ^ 64)
    (hi : i < r.size.toNat / pageSize) : grantPage r i = some ((r.base.toNat / pageSize + i) * pageSize) := by
  have hpage : pageSize = 4096 := rfl
  rw [hpage] at halign hi
  rw [grantPage, hpage, if_neg (by omega), if_neg (by omega), if_neg (by omega), if_neg (by omega)]
  congr 1
  omega

lemma mapPages_identity (hF : Roomy F) (halign : r.base.toNat % pageSize = 0)
    (hwrap : r.base.toNat + r.size.toNat < 2 ^ 64) (hi : i + left ≤ r.size.toNat / pageSize)
    (h : RepresentsFrom F ⟨root, .low⟩ used frames rest t (identity pages))
    (hok : mapPages F ⟨root, .low⟩ r left i t rest = (.ok (), t', rest')) :
    RepresentsFrom F ⟨root, .low⟩ used frames rest' t' (identity
        (pages ∪ Set.Ico (r.base.toNat / pageSize + i) (r.base.toNat / pageSize + i + left))) ∧
      ∀ p ∈ Set.Ico (r.base.toNat / pageSize + i) (r.base.toNat / pageSize + i + left),
        p ∉ pages ∧ F.inHalf .low (p * pageSize) := by
  induction left generalizing i t rest pages with
  | zero =>
    obtain ⟨-, rfl, rfl⟩ := Prod.mk.injEq .. ▸ hok
    rw [Nat.add_zero, Set.Ico_self, Set.union_empty]
    exact ⟨h, fun p hp => absurd hp (Set.notMem_empty p)⟩
  | succ left ih =>
    rw [mapPages, grantPage_eq halign hwrap (by omega)] at hok
    dsimp only at hok
    split at hok
    · exact nomatch hok
    · next heq =>
        obtain ⟨hrep, hnew, hhalf⟩ := map_identity hF h heq
        obtain ⟨hrep, hrest⟩ := ih (by omega) hrep hok
        have hset : insert (r.base.toNat / pageSize + i) pages ∪
            Set.Ico (r.base.toNat / pageSize + (i + 1)) (r.base.toNat / pageSize + (i + 1) + left) =
            pages ∪ Set.Ico (r.base.toNat / pageSize + i) (r.base.toNat / pageSize + i + (left + 1)) := by
          ext q
          simp only [Set.mem_union, Set.mem_insert_iff, Set.mem_Ico]
          by_cases hq : q ∈ pages
          · simp [hq]
          · simp only [hq, or_false, false_or]
            omega
        refine ⟨hset ▸ hrep, fun q hq => ?_⟩
        rcases hq.1.eq_or_lt with rfl | hlt
        · exact ⟨hnew, hhalf⟩
        · have hq := hrest q ⟨by omega, by have := hq.2; omega⟩
          exact ⟨fun hmem => hq.1 (Set.mem_insert_of_mem _ hmem), hq.2⟩

lemma pages_eq (halign : r.base.toNat % pageSize = 0) :
    r.pages = Set.Ico (r.base.toNat / pageSize) (r.base.toNat / pageSize + r.size.toNat / pageSize) := by
  ext p
  simp only [DmaRegion.pages, pageSize, Set.mem_ofPred_eq, Set.mem_Ico] at halign ⊢
  omega

structure Grantable (F : PageFormat) (r : DmaRegion) : Prop where
  aligned : r.base.toNat % pageSize = 0
  bounded : r.base.toNat + r.size.toNat < 2 ^ 64
  low : ∀ p ∈ r.pages, F.inHalf .low (p * pageSize)

lemma mapRegions_identity (hF : Roomy F) (regions : List DmaRegion)
    (h : RepresentsFrom F ⟨root, .low⟩ used frames rest t (identity pages))
    (hok : mapRegions F ⟨root, .low⟩ regions t rest = (.ok (), t', rest')) :
    RepresentsFrom F ⟨root, .low⟩ used frames rest' t' (identity (pages ∪ {p | ∃ r ∈ regions, p ∈ r.pages})) ∧
      (∀ r ∈ regions, Grantable F r ∧ Disjoint pages r.pages) ∧
      regions.Pairwise fun r r' => Disjoint r.pages r'.pages := by
  induction regions generalizing t rest pages with
  | nil =>
    obtain ⟨-, rfl, rfl⟩ := Prod.mk.injEq .. ▸ hok
    simpa using h
  | cons r regions ih =>
    rw [mapRegions] at hok
    split at hok
    · exact nomatch hok
    next n hpages =>
    obtain ⟨halign, hwrap, rfl⟩ := grantPages_eq_ok.mp hpages
    split at hok
    · exact nomatch hok
    next heq =>
    obtain ⟨hrep, hregion⟩ := mapPages_identity hF halign hwrap (Nat.zero_add _).le h heq
    rw [Nat.add_zero, ← pages_eq halign] at hrep hregion
    obtain ⟨hrep, hgrants, hapart⟩ := ih hrep hok
    have hset : pages ∪ r.pages ∪ {p | ∃ r ∈ regions, p ∈ r.pages} = pages ∪
      {p | ∃ r' ∈ r :: regions, p ∈ r'.pages} := by
      ext p
      simp [or_assoc]
    have hself : Grantable F r := ⟨halign, hwrap, fun p hp => (hregion p hp).2⟩
    have hdisjoint : Disjoint pages r.pages := Set.disjoint_right.mpr fun p hp => (hregion p hp).1
    refine ⟨hset ▸ hrep, ?_, List.pairwise_cons.mpr ⟨fun r' hr' => ?_, hapart⟩⟩
    · rintro r' (_ | ⟨_, hr'⟩)
      · exact ⟨hself, hdisjoint⟩
      · exact ⟨(hgrants r' hr').1, (hgrants r' hr').2.mono_left Set.subset_union_left⟩
    · exact (hgrants r' hr').2.mono_left Set.subset_union_right

/-- A built domain translates the whole pages of its regions to themselves and nothing else. -/
theorem identity_domain_confines {F : PageFormat} (hF : F = aarch64 ∨ F = sv39) (root : ℕ) (t : Tables)
    (hzero : ∀ i, t root i = 0) (frames : List ℕ) (hfresh : Fresh F [root] frames) (regions : List DmaRegion) :
    (∀ t' rest, buildIdentityDomain F root regions t frames = (.ok (), t', rest) → ∀ iova,
      ((∃ r ∈ regions, iova / pageSize ∈ r.pages) →
        (⟨root, .low⟩ : Mapper).translate F iova t' = some (iova, .userData)) ∧
      ((¬ ∃ r ∈ regions, iova / pageSize ∈ r.pages) → (⟨root, .low⟩ : Mapper).translate F iova t' = none)) ∧
    ((∃ r ∈ regions, r.base.toNat % pageSize ≠ 0 ∨ 2 ^ 64 ≤ r.base.toNat + r.size.toNat ∨
        ∃ p ∈ r.pages, ¬ F.inHalf .low (p * pageSize)) ∨
      (¬ regions.Pairwise fun r r' => Disjoint r.pages r'.pages) →
      ∃ e, (buildIdentityDomain F root regions t frames).1 = .error e) := by
  have hroomy := roomy_of_format hF
  have hnone : (fun _ => none) = identity ∅ := by
    funext p
    exact (identity_of_not_mem (Set.notMem_empty p)).symm
  have hstart : RepresentsFrom F ⟨root, .low⟩ [root] frames frames t (identity ∅) := by
    have hempty : Empty ⟨root, .low⟩ ⟨t, [root], identity ∅⟩ := ⟨hzero, rfl, hnone.symm⟩
    exact (represents_empty hroomy.toLawful hempty).from hfresh
  constructor
  · intro t' rest hok iova
    obtain ⟨hrep, hgrants, -⟩ := mapRegions_identity hroomy regions hstart hok
    obtain ⟨used', hrep, -⟩ := hrep
    rw [Set.empty_union] at hrep
    rw [hrep.translate_eq_ite hroomy.toLawful iova]
    constructor
    · rintro ⟨r, hr, hp⟩
      have hhalf : F.inHalf .low iova := (inHalf_low_page hroomy).mpr ((hgrants r hr).1.low _ hp)
      have hmem : iova / pageSize ∈ {p | ∃ r ∈ regions, p ∈ r.pages} := ⟨r, hr, hp⟩
      rw [if_pos hhalf, report, identity_of_mem hmem, Option.map_some]
      dsimp only
      rw [Nat.div_add_mod']
    · intro hp
      rw [report, identity_of_not_mem hp]
      simp
  · intro hbad
    rcases hbuild : buildIdentityDomain F root regions t frames with ⟨e | ⟨⟩, t', rest⟩
    · exact ⟨e, rfl⟩
    · obtain ⟨-, hgrants, hapart⟩ := mapRegions_identity hroomy regions hstart hbuild
      rcases hbad with ⟨r, hr, halign | hwrap | ⟨p, hp, hhigh⟩⟩ | hshared
      · exact absurd (hgrants r hr).1.aligned halign
      · exact absurd (hgrants r hr).1.bounded (not_lt.mpr hwrap)
      · exact absurd ((hgrants r hr).1.low p hp) hhigh
      · exact absurd hapart hshared

theorem identity_domain_confines_page :
    (buildIdentityDomain sv39 4096 [⟨0x80000000, 5000⟩] (fun _ _ => 0) [8192, 12288]).1 = .ok () ∧
    (⟨4096, .low⟩ : Mapper).translate sv39 0x80000010
      (buildIdentityDomain sv39 4096 [⟨0x80000000, 5000⟩] (fun _ _ => 0) [8192, 12288]).2.1 =
        some (0x80000010, .userData) := by
  obtain ⟨hok, -⟩ := identity_domain_confines (.inr rfl) 4096 (fun _ _ => 0) (fun _ => rfl) [8192, 12288]
    ⟨by decide, by decide, by decide⟩ [⟨0x80000000, 5000⟩]
  refine ⟨rfl, (hok _ _ rfl 0x80000010).1 ⟨_, List.mem_singleton_self _, ?_⟩⟩
  exact ⟨by decide, by decide⟩

theorem partial_pages_are_accepted :
    (buildIdentityDomain aarch64 4096 [⟨0x1000000000000000, 100⟩, ⟨0x1000000000000000, 200⟩] (fun _ _ => 0) []).1 =
    .ok () ∧ aarch64.inHalf .low 0x1000000000000000 = false ∧ 0x1000000000000000 % pageSize = 0 ∧
    Fresh aarch64 [4096] [] := by
  exact ⟨rfl, by decide, by decide, ⟨by decide, by decide, by decide⟩⟩

end CrickerOs.Paging
