import CrickerOs.Paging.Domain

namespace CrickerOs.Paging

open PageFormat

/-- The first entry of the root that is not the low half's: 256 for Sv39; for aarch64, where the kernel has a root
of its own, there is none. -/
def PageFormat.sharedFrom (F : PageFormat) : ℕ := 2 ^ (F.splitShift - (9 * (F.levels - 1) + 12))

variable (F : PageFormat)

def shareKernelHalf (root : ℕ) (kernel : ℕ → ℕ) (t : Tables) : Tables :=
  fun table i => if table = root ∧ F.sharedFrom ≤ i ∧ i < entries then kernel i else t table i

def bare (root : ℕ) (t : Tables) : Tables :=
  fun table i => if table = root ∧ F.sharedFrom ≤ i ∧ i < entries then 0 else t table i

variable {F} {root va p i new : ℕ} {t : Tables} {node : ℕ → ℕ → Option ℕ} {used frames : List ℕ}
  {mapped : ℕ → Option (ℕ × Flags)}

lemma bare_apply (h : p = root → i < F.sharedFrom) : bare F root t p i = t p i :=
  if_neg fun hshared => absurd (h hshared.1) (not_lt.mpr hshared.2.1)

lemma bare_set {entry : ℕ} (h : p = root → i < F.sharedFrom) :
    bare F root (t.set p i entry) = (bare F root t).set p i entry := by
  funext table j
  by_cases hself : table = p ∧ j = i
  · obtain ⟨rfl, rfl⟩ := hself
    rw [bare_apply h]
    simp [Tables.set]
  · simp only [bare, Tables.set, if_neg hself]

lemma bare_zero (h : new ≠ root) : bare F root (t.zero new) = (bare F root t).zero new := by
  funext table j
  by_cases hself : table = new
  · subst hself
    simp [bare, Tables.zero, h]
  · simp only [bare, Tables.zero, if_neg hself]

section

variable (hF : Roomy F)
include hF

lemma slot_root_lt (hva : F.inHalf .low va) : slot (F.levels - 1) va < F.sharedFrom := by
  refine (Nat.mod_le _ _).trans_lt ?_
  rw [PageFormat.sharedFrom, Nat.div_lt_iff_lt_mul (by positivity), ← pow_add, Nat.sub_add_cancel hF.root_le]
  exact inHalf_low_iff.mp hva

lemma slot_lt_of_root {n : ℕ} (hva : F.inHalf .low va) (hshape : Shape F root t node used)
    (hp : node n (F.key n va) = some p) (hroot : p = root) : slot n va < F.sharedFrom := by
  obtain ⟨rfl, -⟩ := hshape.injective _ _ _ _ _ (hroot ▸ hp) hshape.root
  exact slot_root_lt hF hva

lemma descend_bare {n : ℕ} (hva : F.inHalf .low va) (hn : n < F.levels)
    (hshape : Shape F root (bare F root t) node used) (hp : node n (F.key n va) = some p)
    (hfresh : Fresh F used frames) : descend F va n p (bare F root t) frames =
      ((descend F va n p t frames).1, bare F root (descend F va n p t frames).2.1,
        (descend F va n p t frames).2.2) := by
  induction n generalizing p t node used frames with
  | zero => rfl
  | succ n ih =>
    have hentry : bare F root t p (slot (n + 1) va) = t p (slot (n + 1) va) :=
      bare_apply (slot_lt_of_root hF hva hshape hp)
    simp only [descend, index_eq hn, hentry]
    cases hc : node n (F.key n va) with
    | some c =>
      obtain ⟨hpresent, hpa⟩ := hshape.child n _ (slot (n + 1) va) p c slot_lt hp (key_eq hn ▸ hc)
      rw [hentry] at hpresent hpa
      rw [if_pos hpresent, if_pos hpresent, hpa]
      exact ih (by omega) hshape hc hfresh
    | none =>
      have hc' : node n (F.key (n + 1) va * 512 + slot (n + 1) va) = none := key_eq hn ▸ hc
      have habsent := hshape.absent n _ (slot (n + 1) va) p slot_lt hp hc'
      rw [hentry] at habsent
      rw [habsent, if_neg Bool.false_ne_true, if_neg Bool.false_ne_true]
      cases frames with
      | nil => rfl
      | cons new frames =>
        have hnew := hfresh.unused new List.mem_cons_self
        have hfits := hfresh.fits new List.mem_cons_self
        have hne : new ≠ root := fun h => hnew (h ▸ hshape.used _ _ _ hshape.root)
        have hshape' := Shape.grow (m := ⟨root, .low⟩) hn slot_lt hp hc' hnew hF.toLawful hshape hfits
        dsimp only at hshape' ⊢
        rw [← bare_zero hne, ← bare_set (slot_lt_of_root hF hva hshape hp)] at hshape' ⊢
        rw [hF.table_pa new hfits]
        exact ih (by omega) hshape' (by rw [key_eq hn, grow_self]) hfresh.tail

lemma map_bare {pa : ℕ} {flags : Flags} (h : Represents F ⟨root, .low⟩ (bare F root t) used mapped)
    (hfresh : Fresh F used frames) : (⟨root, .low⟩ : Mapper).map F va pa flags (bare F root t) frames =
      (((⟨root, .low⟩ : Mapper).map F va pa flags t frames).1,
        bare F root ((⟨root, .low⟩ : Mapper).map F va pa flags t frames).2.1,
        ((⟨root, .low⟩ : Mapper).map F va pa flags t frames).2.2) := by
  unfold Mapper.map
  split_ifs with hhalf halign
  · rfl
  · rfl
  · have hva : F.inHalf .low va := by simpa using hhalf
    obtain ⟨node, hshape, hleaves⟩ := h
    have hroot : node (F.levels - 1) (F.key (F.levels - 1) va) = some root := by
      rw [key_top hF.levels_pos]
      exact hshape.root
    have htop := Nat.sub_lt hF.levels_pos one_pos
    obtain ⟨node', used', hs, -, -, -, -, hreached⟩ := descend_grown hF.toLawful htop hshape hleaves hroot hfresh
    have hdescend := descend_bare hF hva htop hshape hroot hfresh
    rw [hdescend] at hs hreached ⊢
    revert hs hreached
    rcases descend F va (F.levels - 1) root t frames with ⟨_ | c, t', rest⟩ <;> intro hs hreached
    · rfl
    · have hslot := slot_lt_of_root hF hva hs (hreached c rfl)
      simp only [index_leaf hF.levels_pos, bare_apply hslot]
      split_ifs
      · rfl
      · rw [bare_set hslot]

lemma lookup_bare {n : ℕ} (hva : F.inHalf .low va) (hn : n < F.levels)
    (hshape : Shape F root (bare F root t) node used) (hp : node n (F.key n va) = some p) :
    lookup F va (bare F root t) n p = lookup F va t n p := by
  induction n generalizing p with
  | zero => rfl
  | succ n ih =>
    have hentry : bare F root t p (slot (n + 1) va) = t p (slot (n + 1) va) :=
      bare_apply (slot_lt_of_root hF hva hshape hp)
    simp only [lookup, index_eq hn, hentry]
    split_ifs with hpresent
    · cases hc : node n (F.key n va) with
      | some c =>
        obtain ⟨-, hpa⟩ := hshape.child n _ (slot (n + 1) va) p c slot_lt hp (key_eq hn ▸ hc)
        rw [hentry] at hpa
        rw [hpa]
        exact ih (by omega) hc
      | none =>
        have habsent := hshape.absent n _ (slot (n + 1) va) p slot_lt hp (key_eq hn ▸ hc)
        rw [hentry, hpresent] at habsent
        cases habsent
    · rfl

lemma translate_bare (h : Represents F ⟨root, .low⟩ (bare F root t) used mapped) :
    (⟨root, .low⟩ : Mapper).translate F va t = (⟨root, .low⟩ : Mapper).translate F va (bare F root t) := by
  unfold Mapper.translate
  split_ifs with hhalf
  · rfl
  · have hva : F.inHalf .low va := by simpa using hhalf
    obtain ⟨node, hshape, -⟩ := h
    have hroot : node (F.levels - 1) (F.key (F.levels - 1) va) = some root := by
      rw [key_top hF.levels_pos]
      exact hshape.root
    have hlookup := lookup_bare hF hva (Nat.sub_lt hF.levels_pos one_pos) hshape hroot
    have hnode : lookup F va (bare F root t) (F.levels - 1) root = node 0 (F.key 0 va) :=
      Shape.lookup_root (m := ⟨root, .low⟩) hshape hF.toLawful
    rw [← hlookup, hnode]
    cases hc : node 0 (F.key 0 va) with
    | none => rfl
    | some c => simp only [index_leaf hF.levels_pos, bare_apply (slot_lt_of_root hF hva hshape hc)]

end

lemma bare_shareKernelHalf {kernel : ℕ → ℕ} : bare F root (shareKernelHalf F root kernel t) = bare F root t := by
  funext table j
  simp only [bare, shareKernelHalf]
  split_ifs <;> rfl

end CrickerOs.Paging
