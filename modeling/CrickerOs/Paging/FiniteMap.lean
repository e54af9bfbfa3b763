import CrickerOs.Library.Runs
import CrickerOs.Paging.Mapper

/-! The mapper is a finite map from pages. The tables form a tree: `node n w` is the table with `n` levels below it
that serves the addresses whose index bits above that level are `w`. -/

namespace CrickerOs.Paging

open Library Function List Option

namespace PageFormat

variable (F : PageFormat)

def slot (n va : ℕ) : ℕ :=
  va / 2 ^ (9 * n + 12) % 512

def key (n va : ℕ) : ℕ :=
  va % 2 ^ (9 * F.levels + 12) / 2 ^ (9 * (n + 1) + 12)

variable {F} {n va va' : ℕ} {half : Half}

lemma slot_lt : slot n va < 512 :=
  Nat.mod_lt _ (by norm_num)

lemma index_eq (hn : n < F.levels) : F.index va (F.levels - 1 - n) = slot n va := by
  have hlevel : F.levels - 1 - (F.levels - 1 - n) = n := by omega
  rw [index, slot, hlevel, Nat.and_two_pow_sub_one_eq_mod _ 9, Nat.shiftRight_eq_div_pow]

lemma index_leaf (hF : 0 < F.levels) : F.index va (F.levels - 1) = slot 0 va :=
  index_eq (n := 0) hF

lemma key_top (hF : 0 < F.levels) : F.key (F.levels - 1) va = 0 := by
  rw [key, Nat.sub_add_cancel hF]
  exact Nat.div_eq_of_lt (Nat.mod_lt _ (by positivity))

lemma index_bits (va : ℕ) (hn : n < F.levels) :
    va % 2 ^ (9 * F.levels + 12) / 2 ^ (9 * n + 12) = F.key n va * 512 + slot n va := by
  obtain ⟨r, hr⟩ : ∃ r, F.levels = n + 1 + r := ⟨F.levels - (n + 1), by omega⟩
  have hsplit : 2 ^ (9 * (n + 1) + 12) = 2 ^ (9 * n + 12) * 512 := by
    rw [show 9 * (n + 1) + 12 = 9 * n + 12 + 9 by omega, pow_add]
    norm_num
  have hslot : slot n va = va % 2 ^ (9 * F.levels + 12) / 2 ^ (9 * n + 12) % 512 := by
    have hpow : 2 ^ (9 * F.levels + 12) = 2 ^ (9 * n + 12) * (512 * 2 ^ (9 * r)) := by
      rw [hr, show 9 * (n + 1 + r) + 12 = 9 * n + 12 + (9 + 9 * r) by omega, pow_add, pow_add 2 9]
      norm_num
    rw [slot, hpow, Nat.mod_mul_right_div_self, Nat.mod_mod_of_dvd _ (Dvd.intro _ rfl)]
  rw [key, hsplit, ← Nat.div_div_eq_div_mul, hslot]
  exact (Nat.div_add_mod' _ 512).symm

lemma key_eq (hn : n + 1 < F.levels) : F.key n va = F.key (n + 1) va * 512 + slot (n + 1) va :=
  index_bits va hn

lemma key_div (hn : n + 1 < F.levels) : F.key n va / 512 = F.key (n + 1) va := by
  have : slot (n + 1) va < 512 := slot_lt
  rw [key_eq hn]
  omega

lemma page_eq (hF : F.Lawful) (hva : F.inHalf half va) (hva' : F.inHalf half va') (hkey : F.key 0 va = F.key 0 va')
    (hslot : slot 0 va = slot 0 va') : va / pageSize = va' / pageSize := by
  have htop : va / 2 ^ F.splitShift = va' / 2 ^ F.splitShift := by
    cases half <;> simp only [inHalf, Nat.shiftRight_eq_div_pow, beq_iff_eq] at hva hva' <;> rw [hva, hva']
  have hbits : va % 2 ^ (9 * F.levels + 12) / 4096 = va' % 2 ^ (9 * F.levels + 12) / 4096 := by
    have h := index_bits va hF.levels_pos
    have h' := index_bits va' hF.levels_pos
    rw [hkey, hslot, ← h'] at h
    exact h
  have hpow : 2 ^ (9 * F.levels + 12) = 4096 * 2 ^ (9 * F.levels) := by
    rw [pow_add, mul_comm]
    norm_num
  have hquot : va / 2 ^ (9 * F.levels + 12) = va' / 2 ^ (9 * F.levels + 12) := by
    rw [← Nat.sub_add_cancel hF.split, add_comm, pow_add, ← Nat.div_div_eq_div_mul, ← Nat.div_div_eq_div_mul, htop]
  rw [hpow, Nat.mod_mul_right_div_self, Nat.mod_mul_right_div_self] at hbits
  rw [hpow, ← Nat.div_div_eq_div_mul, ← Nat.div_div_eq_div_mul] at hquot
  rw [pageSize, ← Nat.div_add_mod (va / 4096) (2 ^ (9 * F.levels)), hquot, hbits, Nat.div_add_mod]

lemma key_slot_of_page (h : va / pageSize = va' / pageSize) : F.key 0 va = F.key 0 va' ∧
    slot 0 va = slot 0 va' := by
  have hpow : 2 ^ (9 * F.levels + 12) = 4096 * 2 ^ (9 * F.levels) := by
    rw [pow_add, mul_comm]
    norm_num
  have hkey (v : ℕ) : F.key 0 v = v / 4096 % 2 ^ (9 * F.levels) / 512 := by
    rw [key, hpow, show 2 ^ (9 * (0 + 1) + 12) = 4096 * 512 by norm_num, ← Nat.div_div_eq_div_mul,
      Nat.mod_mul_right_div_self]
  rw [pageSize] at h
  exact ⟨by rw [hkey, hkey, h], by simp only [slot, mul_zero, zero_add, Nat.reducePow, h]⟩

end PageFormat

open PageFormat

variable {F : PageFormat} {m : Mapper} {t : Tables} {node : ℕ → ℕ → Option ℕ} {used : List ℕ}
  {mapped : ℕ → Option (ℕ × Flags)} {va : ℕ}

structure Shape (F : PageFormat) (root : ℕ) (t : Tables) (node : ℕ → ℕ → Option ℕ) (used : List ℕ) : Prop where
  root : node (F.levels - 1) 0 = some root
  absent : ∀ n w i p, i < 512 → node (n + 1) w = some p → node n (w * 512 + i) = none → F.isPresent (t p i) = false
  child : ∀ n w i p c, i < 512 → node (n + 1) w = some p → node n (w * 512 + i) = some c →
    F.isPresent (t p i) ∧ F.entryPa (t p i) = c
  parent : ∀ n w c, n + 1 < F.levels → node n w = some c → ∃ p, node (n + 1) (w / 512) = some p
  injective : ∀ n w n' w' c, node n w = some c → node n' w' = some c → n = n' ∧ w = w'
  used : ∀ n w c, node n w = some c → c ∈ used

def Holds (F : PageFormat) (o : Option (ℕ × Flags)) (entry : ℕ) : Prop :=
  match o with
  | none => F.isPresent entry = false
  | some (pa, flags) => entry = F.leafEntry pa flags ∧ F.Fits pa ∧ flags ∈ Flags.portable

def Leaves (F : PageFormat) (half : Half) (t : Tables) (node : ℕ → ℕ → Option ℕ)
    (mapped : ℕ → Option (ℕ × Flags)) : Prop :=
  ∀ va, F.inHalf half va → match node 0 (F.key 0 va) with
    | none => mapped (va / pageSize) = none
    | some p => Holds F (mapped (va / pageSize)) (t p (slot 0 va))

def Represents (F : PageFormat) (m : Mapper) (t : Tables) (used : List ℕ) (mapped : ℕ → Option (ℕ × Flags)) :
    Prop :=
  ∃ node, Shape F m.root t node used ∧ Leaves F m.half t node mapped

variable {n p pa va i : ℕ}

lemma Shape.ancestor (h : Shape F m.root t node used) (hn : n < F.levels) {c : ℕ}
    (hc : node 0 (F.key 0 va) = some c) : ∃ p, node n (F.key n va) = some p := by
  induction n with
  | zero => exact ⟨c, hc⟩
  | succ n ih =>
    obtain ⟨p, hp⟩ := ih (by omega)
    obtain ⟨q, hq⟩ := h.parent n _ p hn hp
    exact ⟨q, key_div hn ▸ hq⟩

lemma Shape.lookup_eq (h : Shape F m.root t node used) (hn : n < F.levels)
    (hp : node n (F.key n va) = some p) : lookup F va t n p = node 0 (F.key 0 va) := by
  induction n generalizing p with
  | zero => rw [hp, lookup]
  | succ n ih =>
    simp only [lookup, index_eq hn]
    cases hc : node n (F.key n va) with
    | none =>
      have habsent := h.absent n _ (slot (n + 1) va) p slot_lt hp (key_eq hn ▸ hc)
      rw [habsent, if_neg Bool.false_ne_true]
      cases hleaf : node 0 (F.key 0 va) with
      | none => rfl
      | some c =>
        obtain ⟨q, hq⟩ := h.ancestor (n := n) (by omega) hleaf
        rw [hc] at hq
        exact nomatch hq
    | some c =>
      obtain ⟨hpresent, hpa⟩ := h.child n _ (slot (n + 1) va) p c slot_lt hp (key_eq hn ▸ hc)
      rw [if_pos hpresent, hpa]
      exact ih (by omega) hc

lemma Shape.lookup_root (h : Shape F m.root t node used) (hF : F.Lawful) :
    lookup F va t (F.levels - 1) m.root = node 0 (F.key 0 va) := by
  refine h.lookup_eq (Nat.sub_lt hF.levels_pos one_pos) ?_
  rw [key_top hF.levels_pos]
  exact h.root

def report (mapped : ℕ → Option (ℕ × Flags)) (va : ℕ) : Option (ℕ × Flags) :=
  (mapped (va / pageSize)).map fun (pa, flags) => (pa + va % pageSize, flags)

lemma Represents.translate_eq (hF : F.Lawful) (h : Represents F m t used mapped) (hva : F.inHalf m.half va) :
    m.translate F va t = report mapped va := by
  obtain ⟨node, hshape, hleaves⟩ := h
  have hleaf := hleaves va hva
  simp only [Mapper.translate, hva, Bool.not_true, Bool.false_eq_true, ↓reduceIte, hshape.lookup_root hF,
    index_leaf hF.levels_pos, report]
  cases hnode : node 0 (F.key 0 va) with
  | none =>
    rw [hnode] at hleaf
    simp [hleaf]
  | some p =>
    rw [hnode] at hleaf
    revert hleaf
    cases mapped (va / pageSize) with
    | none =>
      intro hleaf
      simp [show F.isPresent (t p (slot 0 va)) = false from hleaf]
    | some page =>
      obtain ⟨pa, flags⟩ := page
      rintro ⟨hentry, hfits, hflags⟩
      simp [hentry, hF.leaf_present, hF.leaf_pa pa flags hfits hflags, hF.leaf_flags pa flags hfits hflags]

section

variable {n w i p new : ℕ}

def grow (node : ℕ → ℕ → Option ℕ) (n w new : ℕ) : ℕ → ℕ → Option ℕ :=
  fun n' w' => if n' = n ∧ w' = w then some new else node n' w'

lemma grow_self : grow node n w new n w = some new :=
  if_pos ⟨rfl, rfl⟩

lemma grow_of_ne {n' w' : ℕ} (h : ¬ (n' = n ∧ w' = w)) : grow node n w new n' w' = node n' w' :=
  if_neg h

lemma set_zero_of_ne {entry p' i' : ℕ} (hnew : p' ≠ new) (hentry : ¬ (p' = p ∧ i' = i)) :
    ((t.zero new).set p i entry) p' i' = t p' i' := by
  simp only [Tables.set, Tables.zero]
  rw [if_neg hentry, if_neg hnew]

lemma set_zero_new {entry i' : ℕ} (hnew : new ≠ p) : ((t.zero new).set p i entry) new i' = 0 := by
  simp [Tables.set, Tables.zero, hnew]

lemma set_zero_self {entry : ℕ} : ((t.zero new).set p i entry) p i = entry :=
  if_pos ⟨rfl, rfl⟩

variable (hn : n + 1 < F.levels) (hi : i < 512) (hp : node (n + 1) w = some p)
  (hnone : node n (w * 512 + i) = none)
  (hnew : new ∉ used)
include hn hi hp hnone hnew

lemma Shape.grow (hF : F.Lawful) (h : Shape F m.root t node used) (hfits : F.Fits new) :
    Shape F m.root ((t.zero new).set p i (F.tableEntry new)) (grow node n (w * 512 + i) new) (new :: used) := by
  have hne {n' w' c : ℕ} (hc : node n' w' = some c) : c ≠ new := fun he => hnew (he ▸ h.used n' w' c hc)
  have hold {n' w' c : ℕ} (hc : node n' w' = some c) : ¬ (n' = n ∧ w' = w * 512 + i) := by
    rintro ⟨rfl, rfl⟩
    rw [hnone] at hc
    exact nomatch hc
  constructor
  case root =>
    rw [grow_of_ne (by omega)]
    exact h.root
  case absent =>
    intro n' w' i' p' hi' hp' hc
    by_cases hparent : n' + 1 = n ∧ w' = w * 512 + i
    · obtain ⟨hn', rfl⟩ := hparent
      rw [hn', grow_self] at hp'
      rw [← some.inj hp', set_zero_new (hne hp).symm]
      exact hF.absent
    · rw [grow_of_ne hparent] at hp'
      by_cases hchild : n' = n ∧ w' * 512 + i' = w * 512 + i
      · rw [hchild.1, hchild.2, grow_self] at hc
        exact nomatch hc
      · rw [grow_of_ne hchild] at hc
        rw [set_zero_of_ne (hne hp') ?_]
        · exact h.absent n' w' i' p' hi' hp' hc
        · rintro ⟨rfl, rfl⟩
          obtain ⟨hn', rfl⟩ := h.injective _ _ _ _ _ hp' hp
          exact hchild ⟨by omega, rfl⟩
  case child =>
    intro n' w' i' p' c hi' hp' hc
    by_cases hparent : n' + 1 = n ∧ w' = w * 512 + i
    · obtain ⟨hn', rfl⟩ := hparent
      rw [grow_of_ne (by omega)] at hc
      obtain ⟨q, hq⟩ := h.parent n' _ c (by omega) hc
      rw [show ((w * 512 + i) * 512 + i') / 512 = w * 512 + i by omega, hn', hnone] at hq
      exact nomatch hq
    · rw [grow_of_ne hparent] at hp'
      by_cases hchild : n' = n ∧ w' * 512 + i' = w * 512 + i
      · obtain ⟨rfl, hw⟩ := hchild
        obtain ⟨rfl, rfl⟩ : w' = w ∧ i' = i := by omega
        obtain rfl : p' = p := mem_unique hp' hp
        rw [grow_self] at hc
        rw [set_zero_self, ← some.inj hc]
        exact ⟨hF.table_present new, hF.table_pa new hfits⟩
      · rw [grow_of_ne hchild] at hc
        rw [set_zero_of_ne (hne hp') ?_]
        · exact h.child n' w' i' p' c hi' hp' hc
        · rintro ⟨rfl, rfl⟩
          obtain ⟨hn', rfl⟩ := h.injective _ _ _ _ _ hp' hp
          exact hchild ⟨by omega, rfl⟩
  case parent =>
    intro n' w' c hn' hc
    by_cases hself : n' = n ∧ w' = w * 512 + i
    · obtain ⟨rfl, rfl⟩ := hself
      refine ⟨p, ?_⟩
      rw [show (w * 512 + i) / 512 = w by omega, grow_of_ne (by omega)]
      exact hp
    · rw [grow_of_ne hself] at hc
      obtain ⟨q, hq⟩ := h.parent n' w' c hn' hc
      exact ⟨q, by rw [grow_of_ne (hold hq)]; exact hq⟩
  case injective =>
    intro n₁ w₁ n₂ w₂ c h₁ h₂
    by_cases hself₁ : n₁ = n ∧ w₁ = w * 512 + i <;> by_cases hself₂ : n₂ = n ∧ w₂ = w * 512 + i
    · exact ⟨hself₁.1.trans hself₂.1.symm, hself₁.2.trans hself₂.2.symm⟩
    · rw [hself₁.1, hself₁.2, grow_self] at h₁
      rw [grow_of_ne hself₂] at h₂
      exact absurd (some.inj h₁).symm (hne h₂)
    · rw [hself₂.1, hself₂.2, grow_self] at h₂
      rw [grow_of_ne hself₁] at h₁
      exact absurd (some.inj h₂).symm (hne h₁)
    · rw [grow_of_ne hself₁] at h₁
      rw [grow_of_ne hself₂] at h₂
      exact h.injective _ _ _ _ c h₁ h₂
  case used =>
    intro n' w' c hc
    by_cases hself : n' = n ∧ w' = w * 512 + i
    · rw [hself.1, hself.2, grow_self] at hc
      exact some.inj hc ▸ mem_cons_self
    · rw [grow_of_ne hself] at hc
      exact mem_cons_of_mem _ (h.used n' w' c hc)

omit hi in
lemma Leaves.grow (hF : F.Lawful) (h : Shape F m.root t node used) (hleaves : Leaves F m.half t node mapped) :
    Leaves F m.half ((t.zero new).set p i (F.tableEntry new)) (grow node n (w * 512 + i) new) mapped := by
  intro va hva
  have hleaf := hleaves va hva
  by_cases hself : 0 = n ∧ F.key 0 va = w * 512 + i
  · obtain ⟨rfl, hkey⟩ := hself
    rw [hkey, hnone] at hleaf
    have hne : new ≠ p := fun he => hnew (he ▸ h.used _ _ p hp)
    simp only [hkey, grow_self, show mapped (va / pageSize) = none from hleaf, Holds, set_zero_new hne]
    exact hF.absent
  · rw [grow_of_ne hself]
    cases hnode : node 0 (F.key 0 va) with
    | none =>
      rw [hnode] at hleaf
      exact hleaf
    | some q =>
      rw [hnode] at hleaf
      have hq : q ≠ new := fun he => hnew (he ▸ h.used _ _ q hnode)
      dsimp only
      rw [set_zero_of_ne hq ?_]
      · exact hleaf
      · rintro ⟨rfl, -⟩
        have := (h.injective _ _ _ _ _ hnode hp).1
        omega

end

lemma Represents.write {o : Option (ℕ × Flags)} {entry : ℕ} (hF : F.Lawful) (hshape : Shape F m.root t node used)
    (hleaves : Leaves F m.half t node mapped) (hva : F.inHalf m.half va) (hp : node 0 (F.key 0 va) = some p)
    (ho : Holds F o entry) :
    Represents F m (t.set p (slot 0 va) entry) used (update mapped (va / pageSize) o) := by
  have hupper {n w q i : ℕ} (hq : node (n + 1) w = some q) : t.set p (slot 0 va) entry q i = t q i := by
    refine if_neg ?_
    rintro ⟨rfl, -⟩
    have := (hshape.injective _ _ _ _ _ hq hp).1
    omega
  refine ⟨node, ⟨hshape.root, ?_, ?_, hshape.parent, hshape.injective, hshape.used⟩, ?_⟩
  · intro n w i q hi hq hnone
    rw [hupper hq]
    exact hshape.absent n w i q hi hq hnone
  · intro n w i q c hi hq hc
    rw [hupper hq]
    exact hshape.child n w i q c hi hq hc
  · intro va' hva'
    have hleaf := hleaves va' hva'
    by_cases hpage : va' / pageSize = va / pageSize
    · obtain ⟨hkey, hslot⟩ := key_slot_of_page (F := F) hpage
      rw [hkey, hp, hpage, hslot]
      dsimp only
      rw [update_self, show t.set p (slot 0 va) entry p (slot 0 va) = entry from if_pos ⟨rfl, rfl⟩]
      exact ho
    · rw [update_of_ne hpage]
      cases hnode : node 0 (F.key 0 va') with
      | none =>
        rw [hnode] at hleaf
        exact hleaf
      | some q =>
        rw [hnode] at hleaf
        dsimp only
        rw [show t.set p (slot 0 va) entry q (slot 0 va') = t q (slot 0 va') from if_neg ?_]
        · exact hleaf
        · rintro ⟨rfl, hslot⟩
          exact hpage (page_eq hF hva' hva (hshape.injective _ _ _ _ _ hnode hp).2 hslot)

variable {used' frames rest : List ℕ}

lemma Represents.used_mono (h : Represents F m t used mapped) (hsub : used ⊆ used') :
    Represents F m t used' mapped := by
  obtain ⟨node, hshape, hleaves⟩ := h
  exact ⟨node, { hshape with used := fun n w c hc => hsub (hshape.used n w c hc) }, hleaves⟩

structure Fresh (F : PageFormat) (used frames : List ℕ) : Prop where
  nodup : frames.Nodup
  unused : ∀ f ∈ frames, f ∉ used
  fits : ∀ f ∈ frames, F.Fits f

lemma Fresh.tail {new : ℕ} (h : Fresh F used (new :: frames)) : Fresh F (new :: used) frames := by
  obtain ⟨hnew, hnodup⟩ := nodup_cons.mp h.nodup
  refine ⟨hnodup, fun f hf => ?_, fun f hf => h.fits f (mem_cons_of_mem _ hf)⟩
  refine not_mem_cons_of_ne_of_not_mem ?_ (h.unused f (mem_cons_of_mem _ hf))
  rintro rfl
  exact hnew hf

def Grown (F : PageFormat) (m : Mapper) (mapped : ℕ → Option (ℕ × Flags)) (used frames rest : List ℕ) (t : Tables)
    (P : (ℕ → ℕ → Option ℕ) → Prop) : Prop :=
  ∃ node used', Shape F m.root t node used' ∧ Leaves F m.half t node mapped ∧ Fresh F used' rest ∧
    used' ⊆ frames ++ used ∧ rest ⊆ frames ∧ P node

lemma descend_grown (hF : F.Lawful) (hn : n < F.levels)
    (hshape : Shape F m.root t node used) (hleaves : Leaves F m.half t node mapped)
    (hp : node n (F.key n va) = some p) (hfresh : Fresh F used frames) :
    Grown F m mapped used frames (descend F va n p t frames).2.2 (descend F va n p t frames).2.1 fun node =>
      ∀ c, (descend F va n p t frames).1 = some c → node 0 (F.key 0 va) = some c := by
  induction n generalizing p t node used frames with
  | zero =>
    refine ⟨node, used, hshape, hleaves, hfresh, subset_append_right _ _, List.Subset.refl _, ?_⟩
    rintro c hc
    rw [hp]
    exact hc
  | succ n ih =>
    simp only [descend, index_eq hn]
    cases hc : node n (F.key n va) with
    | some c =>
      obtain ⟨hpresent, hpa⟩ := hshape.child n _ (slot (n + 1) va) p c slot_lt hp (key_eq hn ▸ hc)
      rw [if_pos hpresent, hpa]
      exact ih (by omega) hshape hleaves hc hfresh
    | none =>
      have hc' : node n (F.key (n + 1) va * 512 + slot (n + 1) va) = none := key_eq hn ▸ hc
      have habsent := hshape.absent n _ (slot (n + 1) va) p slot_lt hp hc'
      rw [habsent, if_neg Bool.false_ne_true]
      cases frames with
      | nil =>
        exact ⟨node, used, hshape, hleaves, hfresh, subset_append_right _ _, List.Subset.refl _,
          fun c hc => nomatch hc⟩
      | cons new frames =>
        have hnew := hfresh.unused new mem_cons_self
        have hfits := hfresh.fits new mem_cons_self
        have hshape' := hshape.grow hn slot_lt hp hc' hnew hF hfits
        have hleaves' := hleaves.grow hn hp hc' hnew hF hshape
        dsimp only
        rw [hF.table_pa new hfits]
        obtain ⟨node', used', hs, hl, hf, hsub, hrest, hreached⟩ :=
          ih (by omega) hshape' hleaves' (by rw [key_eq hn, grow_self]) hfresh.tail
        refine ⟨node', used', hs, hl, hf, fun f hmem => ?_, fun f hmem => mem_cons_of_mem _ (hrest hmem),
          hreached⟩
        have := hsub hmem
        simp only [mem_append, mem_cons] at this ⊢
        tauto

def RepresentsFrom (F : PageFormat) (m : Mapper) (used frames rest : List ℕ) (t : Tables)
    (mapped : ℕ → Option (ℕ × Flags)) : Prop :=
  ∃ used', Represents F m t used' mapped ∧ Fresh F used' rest ∧ used' ⊆ frames ++ used ∧ rest ⊆ frames

lemma Represents.from (h : Represents F m t used mapped) (hfresh : Fresh F used frames) :
    RepresentsFrom F m used frames frames t mapped :=
  ⟨used, h, hfresh, subset_append_right _ _, List.Subset.refl _⟩

variable {flags : Flags}

lemma Represents.map (va : ℕ) (hF : F.Lawful)
    (h : Represents F m t used mapped)
    (hfresh : Fresh F used frames) (hpa : pa < 2 ^ F.physBits) (hflags : flags ∈ Flags.portable) :
    (∃ e t' rest, m.map F va pa flags t frames = (.error e, t', rest) ∧
    RepresentsFrom F m used frames rest t' mapped) ∨ ∃ t' rest, m.map F va pa flags t frames = (.ok (), t', rest) ∧
      F.inHalf m.half va ∧ mapped (va / pageSize) = none ∧
      RepresentsFrom F m used frames rest t' (update mapped (va / pageSize) (some (pa, flags))) := by
  unfold Mapper.map
  split_ifs with hhalf halign
  · exact .inl ⟨_, _, _, rfl, h.from hfresh⟩
  · exact .inl ⟨_, _, _, rfl, h.from hfresh⟩
  · have hva : F.inHalf m.half va := by simpa using hhalf
    obtain ⟨-, halign⟩ := not_or.mp halign
    obtain ⟨node, hshape, hleaves⟩ := h
    have hroot : node (F.levels - 1) (F.key (F.levels - 1) va) = some m.root := by
      rw [key_top hF.levels_pos]
      exact hshape.root
    obtain ⟨node', used', hs, hl, hf, hsub, hrest, hreached⟩ :=
      descend_grown hF (Nat.sub_lt hF.levels_pos one_pos) hshape hleaves hroot hfresh
    revert hs hl hf hrest hreached
    rcases descend F va (F.levels - 1) m.root t frames with ⟨_ | c, t', rest⟩ <;> intro hs hl hf hrest hreached
    · exact .inl ⟨_, _, _, rfl, used', ⟨node', hs, hl⟩, hf, hsub, hrest⟩
    · have hc := hreached c rfl
      have hleaf := hl va hva
      simp only [index_leaf hF.levels_pos]
      simp only [hc] at hleaf
      split_ifs with hpresent
      · exact .inl ⟨_, _, _, rfl, used', ⟨node', hs, hl⟩, hf, hsub, hrest⟩
      · refine .inr ⟨_, _, rfl, hva, ?_, used', ?_, hf, hsub, hrest⟩
        · revert hleaf
          cases mapped (va / pageSize) with
          | none => exact fun _ => rfl
          | some page =>
            rintro ⟨hentry, -⟩
            exact absurd (hF.leaf_present _ _) (hentry ▸ hpresent)
        · have hholds : Holds F (some (pa, flags)) (F.leafEntry pa flags) :=
            ⟨rfl, ⟨not_not.mp halign, hpa⟩, hflags⟩
          exact Represents.write hF hs hl hva hc hholds

lemma Represents.unmap (va : ℕ) (hF : F.Lawful) (h : Represents F m t used mapped) :
    (∃ e, m.unmap F va t = (.error e, t)) ∨
    ∃ pa t', m.unmap F va t = (.ok pa, t') ∧ Represents F m t' used (update mapped (va / pageSize) none) := by
  unfold Mapper.unmap
  split_ifs with hhalf halign
  · exact .inl ⟨_, rfl⟩
  · exact .inl ⟨_, rfl⟩
  · have hva : F.inHalf m.half va := by simpa using hhalf
    obtain ⟨node, hshape, hleaves⟩ := h
    rw [hshape.lookup_root hF]
    cases hc : node 0 (F.key 0 va) with
    | none => exact .inl ⟨_, rfl⟩
    | some c =>
      simp only [index_leaf hF.levels_pos]
      split_ifs with hpresent
      · have hholds : Holds F none 0 := hF.absent
        exact .inr ⟨_, _, rfl, Represents.write hF hshape hleaves hva hc hholds⟩
      · exact .inl ⟨_, rfl⟩

lemma RepresentsFrom.trans {used₁ rest₁ : List ℕ} {t' : Tables}
    {mapped' : ℕ → Option (ℕ × Flags)} (hsub : used₁ ⊆ frames ++ used) (hrest : rest₁ ⊆ frames)
    (h : RepresentsFrom F m used₁ rest₁ rest t' mapped') : RepresentsFrom F m used frames rest t' mapped' := by
  obtain ⟨used₂, hrep, hfresh, hsub₂, hrest₂⟩ := h
  refine ⟨used₂, hrep, hfresh, fun f hf => ?_, fun f hf => hrest (hrest₂ hf)⟩
  rcases mem_append.mp (hsub₂ hf) with hf | hf
  · exact mem_append_left _ (hrest hf)
  · exact hsub hf

def pageAt (va i : ℕ) : ℕ :=
  (va + i * pageSize) % 2 ^ 64 / pageSize

structure MapsRange (before after : ℕ → Option (ℕ × Flags)) (va pa : ℕ) (flags : Flags) (i k : ℕ) : Prop where
  range : ∀ j, i ≤ j → j < i + k → after (pageAt va j) = some ((pa + j * pageSize) % 2 ^ 64, flags)
  kept : ∀ page x, before page = some x → after page = some x
  other : ∀ page, (∀ j, i ≤ j → j < i + k → page ≠ pageAt va j) → after page = before page

lemma MapsRange.zero : MapsRange mapped mapped va pa flags i 0 :=
  ⟨fun j hl hr => by omega, fun _ _ h => h, fun _ _ => rfl⟩

lemma MapsRange.succ {after : ℕ → Option (ℕ × Flags)} {k : ℕ}
    (hnone : mapped (pageAt va i) = none)
    (h : MapsRange (update mapped (pageAt va i) (some ((pa + i * pageSize) % 2 ^ 64, flags))) after va pa flags
      (i + 1) k) : MapsRange mapped after va pa flags i (k + 1) := by
  refine ⟨fun j hl hr => ?_, fun page x hx => ?_, fun page hpage => ?_⟩
  · obtain rfl | hlt := eq_or_lt_of_le hl
    · exact h.kept _ _ (update_self ..)
    · exact h.range j hlt (by omega)
  · refine h.kept page x ?_
    rw [update_of_ne]
    · exact hx
    · rintro rfl
      rw [hnone] at hx
      exact nomatch hx
  · rw [h.other page fun j hl hr => hpage j (by omega) (by omega)]
    exact update_of_ne (hpage i le_rfl (by omega)) ..

variable {s : Space}

lemma mapRange_maps (va left : ℕ) (hF : F.Lawful)
    (h : RepresentsFrom F m used frames rest s.tables s.mapped)
    (hpa : ∀ j, i ≤ j → j < i + left → pa + j * pageSize < 2 ^ F.physBits) (hflags : flags ∈ Flags.portable) :
    ∃ k ≤ left, ((s.mapRange F m va pa flags left i rest).1 = .ok () ↔ k = left) ∧
      MapsRange s.mapped (s.mapRange F m va pa flags left i rest).2.1.mapped va pa flags i k ∧
      RepresentsFrom F m used frames (s.mapRange F m va pa flags left i rest).2.2
        (s.mapRange F m va pa flags left i rest).2.1.tables
          (s.mapRange F m va pa flags left i rest).2.1.mapped := by
  induction left generalizing i s rest with
  | zero => exact ⟨0, le_rfl, by simp [Space.mapRange], .zero, h⟩
  | succ left ih =>
    obtain ⟨used', hrep, hfresh, hsub, hrest⟩ := h
    have hfits : (pa + i * pageSize) % 2 ^ 64 < 2 ^ F.physBits :=
      (Nat.mod_le _ _).trans_lt (hpa i le_rfl (by omega))
    rcases hrep.map ((va + i * pageSize) % 2 ^ 64) hF hfresh hfits hflags with
      ⟨e, t', rest', heq, hrep'⟩ | ⟨t', rest', heq, hva, hnone, hrep'⟩
    · refine ⟨0, Nat.zero_le _, ?_, ?_, ?_⟩ <;> simp only [Space.mapRange, Space.map, heq]
      · simp
      · exact .zero
      · exact hrep'.trans hsub hrest
    · let mapped' := update s.mapped (pageAt va i) (some ((pa + i * pageSize) % 2 ^ 64, flags))
      obtain ⟨k, hk, hok, hmaps, hrep''⟩ := ih (i := i + 1) (s := ⟨t', s.handed, mapped'⟩)
        (hrep'.trans hsub hrest) fun j hl hr => hpa j (by omega) (by omega)
      refine ⟨k + 1, by omega, ?_, ?_, ?_⟩ <;> simp only [Space.mapRange, Space.map, heq]
      · rw [Nat.add_right_cancel_iff]
        exact hok
      · exact hmaps.succ hnone
      · exact hrep''

/-- What the callers and the allocator keep to: flags from the constructors, physical addresses that fit the
format, and fresh frames. -/
def Admitted (F : PageFormat) (s : Space) (a : Call × List ℕ) : Prop :=
  Fresh F s.handed a.2 ∧ match a.1 with
    | .map _ pa flags => pa < 2 ^ F.physBits ∧ flags ∈ Flags.portable
    | .mapRange _ pa count flags => (∀ i < count, pa + i * pageSize < 2 ^ F.physBits) ∧ flags ∈ Flags.portable
    | .unmap _ => True

def Empty (m : Mapper) (s : Space) : Prop :=
  (∀ i, s.tables m.root i = 0) ∧ s.handed = [m.root] ∧ s.mapped = fun _ => none

lemma represents_empty (hF : F.Lawful) (h : Empty m s) : Represents F m s.tables s.handed s.mapped := by
  obtain ⟨hzero, hhanded, hmapped⟩ := h
  have hsome {n w c : ℕ} (h : grow (fun _ _ => none) (F.levels - 1) 0 m.root n w = some c) :
      (n = F.levels - 1 ∧ w = 0) ∧ m.root = c := by
    unfold grow at h
    split at h
    · exact ⟨‹_›, some.inj h⟩
    · exact nomatch h
  refine ⟨grow (fun _ _ => none) (F.levels - 1) 0 m.root, ⟨grow_self, ?_, ?_, ?_, ?_, ?_⟩, ?_⟩
  · intro n w i p _ hp _
    rw [← (hsome hp).2, hzero]
    exact hF.absent
  · intro n w i p c _ hp hc
    have := (hsome hp).1
    have := (hsome hc).1
    omega
  · intro n w c hn hc
    have := (hsome hc).1
    omega
  · intro n w n' w' c hc hc'
    exact ⟨(hsome hc).1.1.trans (hsome hc').1.1.symm, (hsome hc).1.2.trans (hsome hc').1.2.symm⟩
  · intro n w c hc
    simp [hhanded, (hsome hc).2]
  · intro va _
    cases hnode : grow (fun _ _ => none) (F.levels - 1) 0 m.root 0 (F.key 0 va) with
    | none => rw [hmapped]
    | some p =>
      simp only [hmapped, Holds]
      rw [← (hsome hnode).2, hzero]
      exact hF.absent

lemma RepresentsFrom.handed (h : RepresentsFrom F m used frames rest t mapped) :
    Represents F m t (frames ++ used) mapped := by
  obtain ⟨used', hrep, -, hsub, -⟩ := h
  exact hrep.used_mono hsub

def Updates (before after : ℕ → Option (ℕ × Flags)) : Call → Except MapError Unit → Prop
  | .map va pa flags, .ok _ => after = Function.update before (va / pageSize) (some (pa, flags))
  | .map _ _ _, .error _ => after = before
  | .unmap va, .ok _ => after = Function.update before (va / pageSize) none
  | .unmap _, .error _ => after = before
  | .mapRange va pa count flags, r => ∃ k ≤ count, (r = .ok () ↔ k = count) ∧
      MapsRange before after va pa flags 0 k

lemma Represents.call {call : Call} (hF : F.Lawful)
    (h : Represents F m s.tables s.handed s.mapped) (hadmitted : Admitted F s (call, frames)) :
    Represents F m (s.call F m call frames).2.tables (s.call F m call frames).2.handed
      (s.call F m call frames).2.mapped ∧ Updates s.mapped (s.call F m call frames).2.mapped call
        (s.call F m call frames).1 := by
  obtain ⟨hfresh, hcall⟩ := hadmitted
  cases call with
  | map va pa flags =>
    rcases h.map va hF hfresh hcall.1 hcall.2 with
      ⟨e, t', rest, heq, hrep⟩ | ⟨t', rest, heq, -, -, hrep⟩ <;> simp only [Space.call, Space.map, heq]
    · exact ⟨hrep.handed, rfl⟩
    · exact ⟨hrep.handed, rfl⟩
  | mapRange va pa count flags =>
    obtain ⟨k, hk, hok, hmaps, hrep⟩ := mapRange_maps (i := 0) va count hF (h.from hfresh)
      (fun j _ hj => hcall.1 j (by omega)) hcall.2
    exact ⟨hrep.handed, k, hk, hok, hmaps⟩
  | unmap va =>
    rcases h.unmap va hF with ⟨e, heq⟩ | ⟨pa, t', heq, hrep⟩ <;> simp only [Space.call, Space.unmap, heq]
    · exact ⟨h, rfl⟩
    · exact ⟨hrep, rfl⟩

lemma represents_of_reach (hF : F.Lawful) (h : Reach (Space.step F m) (Admitted F) (Empty m) s) :
    Represents F m s.tables s.handed s.mapped := by
  refine h.invariant (fun s => Represents F m s.tables s.handed s.mapped) (fun s => represents_empty hF) ?_
  rintro s ⟨call, frames⟩ s' hs hadmitted hstep
  obtain rfl : (s.call F m call frames).2 = s' := some.inj hstep
  exact (hs.call hF hadmitted).1

def Effect (F : PageFormat) (m : Mapper) (before after : ℕ → Option (ℕ × Flags)) : Call → Except MapError Unit →
    Prop
  | .map va pa flags, .ok _ => ∀ va', after va' =
      if F.inHalf m.half va' ∧ va' / pageSize = va / pageSize then some (pa + va' % pageSize, flags)
      else before va'
  | .map _ _ _, .error _ => after = before
  | .unmap va, .ok _ => ∀ va', after va' = if va' / pageSize = va / pageSize then none else before va'
  | .unmap _, .error _ => after = before
  | .mapRange va pa count flags, r => ∃ k ≤ count, (r = .ok () ↔ k = count) ∧
      (∀ i < k, ∀ va', F.inHalf m.half va' → va' / pageSize = pageAt va i →
        after va' = some ((pa + i * pageSize) % 2 ^ 64 + va' % pageSize, flags)) ∧
      ∀ va', (∀ i < k, va' / pageSize ≠ pageAt va i) → after va' = before va'

lemma Represents.translate_eq_ite (hF : F.Lawful) (h : Represents F m t used mapped) (va : ℕ) :
    m.translate F va t = if F.inHalf m.half va then report mapped va else none := by
  split_ifs with hva
  · exact h.translate_eq hF hva
  · simp [Mapper.translate, hva]

lemma Updates.effect {t t' : Tables} {mapped' : ℕ → Option (ℕ × Flags)} {call : Call}
    {r : Except MapError Unit} (hF : F.Lawful) (h : Represents F m t used mapped)
    (h' : Represents F m t' used' mapped') (hupdates : Updates mapped mapped' call r) :
    Effect F m (fun va => m.translate F va t) (fun va => m.translate F va t') call r := by
  have hsame (va' : ℕ) (hpage : mapped' (va' / pageSize) = mapped (va' / pageSize)) :
      m.translate F va' t' = m.translate F va' t := by
    rw [h.translate_eq_ite hF, h'.translate_eq_ite hF, report, report, hpage]
  have hset (va' : ℕ) (page : ℕ × Flags) (hva : F.inHalf m.half va')
      (hpage : mapped' (va' / pageSize) = some page) : m.translate F va' t' =
        some (page.1 + va' % pageSize, page.2) := by
    rw [h'.translate_eq hF hva, report, hpage]
    rfl
  rcases call with ⟨va, pa, flags⟩ | ⟨va, pa, count, flags⟩ | va
  · rcases r with e | _
    · exact funext fun va' => hsame va' (congrFun hupdates _)
    · intro va'
      dsimp only
      by_cases hpage : va' / pageSize = va / pageSize
      · by_cases hva : F.inHalf m.half va'
        · rw [if_pos ⟨hva, hpage⟩]
          refine hset va' (pa, flags) hva ?_
          rw [show mapped' = _ from hupdates, hpage, update_self]
        · rw [if_neg fun h => hva h.1, h.translate_eq_ite hF, h'.translate_eq_ite hF, if_neg hva, if_neg hva]
      · rw [if_neg fun h => hpage h.2]
        refine hsame va' ?_
        rw [show mapped' = _ from hupdates, update_of_ne hpage]
  · obtain ⟨k, hk, hok, hmaps⟩ := hupdates
    refine ⟨k, hk, hok, fun i hi va' hva hpage => ?_, fun va' hpage => ?_⟩
    · refine hset va' (_, flags) hva ?_
      rw [hpage]
      exact hmaps.range i (Nat.zero_le _) (by omega)
    · exact hsame va' (hmaps.other _ fun i _ hi => hpage i (by omega))
  · rcases r with e | _
    · exact funext fun va' => hsame va' (congrFun hupdates _)
    · intro va'
      dsimp only
      split_ifs with hpage
      · rw [h'.translate_eq_ite hF, report, show mapped' = _ from hupdates, hpage, update_self]
        simp
      · refine hsame va' ?_
        rw [show mapped' = _ from hupdates, update_of_ne hpage]

theorem mapper_is_finite_map {F : PageFormat} {m : Mapper} {s : Space} (hF : F = aarch64 ∨ F = sv39)
    (h : Reach (Space.step F m) (Admitted F) (Empty m) s) :
    (∀ va, F.inHalf m.half va → m.translate F va s.tables = report s.mapped va) ∧
      ∀ call frames, Admitted F s (call, frames) → Effect F m (fun va => m.translate F va s.tables)
        (fun va => m.translate F va (s.call F m call frames).2.tables) call (s.call F m call frames).1 := by
  have hlawful : F.Lawful := by
    rcases hF with rfl | rfl
    · exact aarch64_lawful
    · exact sv39_lawful
  have hrep := represents_of_reach hlawful h
  refine ⟨fun va => hrep.translate_eq hlawful, fun call frames hadmitted => ?_⟩
  obtain ⟨hrep', hupdates⟩ := hrep.call hlawful hadmitted
  exact hupdates.effect hlawful hrep hrep'

def user : Mapper :=
  { root := 4096, half := .low }

def onePage : Space :=
  ((⟨fun _ _ => 0, [4096], fun _ => none⟩ : Space).call sv39 user (.map 4096 0x80000000 .userData) [8192, 12288]).2

lemma reach_onePage : Reach (Space.step sv39 user) (Admitted sv39) (Empty user) onePage := by
  refine .next (a := (.map 4096 0x80000000 .userData, [8192, 12288])) (.init ⟨fun _ => rfl, rfl, rfl⟩) ?_ rfl
  exact ⟨⟨by decide, by decide, by decide⟩, by decide, by decide⟩

theorem failed_range_keeps_pages : Reach (Space.step sv39 user) (Admitted sv39) (Empty user) onePage ∧
    Admitted sv39 onePage (.mapRange 0 0x90000000 2 .userData, []) ∧
    (onePage.call sv39 user (.mapRange 0 0x90000000 2 .userData) []).1 = .error .alreadyMapped ∧
    user.translate sv39 0 onePage.tables = none ∧
    user.translate sv39 0 (onePage.call sv39 user (.mapRange 0 0x90000000 2 .userData) []).2.tables =
      some (0x90000000, .userData) := by
  refine ⟨reach_onePage, ⟨⟨by decide, by decide, by decide⟩, by decide, by decide⟩, ?_, by decide, by decide⟩
  rfl

theorem mapper_is_finite_map_unmapped : user.translate sv39 4100 onePage.tables = some (0x80000004, .userData) ∧
    (onePage.call sv39 user (.unmap 4096) []).1 = .ok () ∧
    user.translate sv39 4100 (onePage.call sv39 user (.unmap 4096) []).2.tables = none := by
  obtain ⟨htranslate, heffect⟩ := mapper_is_finite_map (.inr rfl) reach_onePage
  have hunmap := heffect (.unmap 4096) [] ⟨⟨by decide, by decide, by decide⟩, trivial⟩
  have hok : (onePage.call sv39 user (.unmap 4096) []).1 = .ok () := rfl
  rw [hok] at hunmap
  refine ⟨?_, hok, ?_⟩
  · rw [htranslate 4100 (by decide)]
    decide
  · exact (hunmap 4100).trans (if_pos (by decide))

end CrickerOs.Paging
