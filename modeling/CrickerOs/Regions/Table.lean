import CrickerOs.Slots.Table

/-! Untyped regions: a bump watermark per region, a tree of splits, and claims that are reclaimed once.
Everything is in page units, and sums are those of `u64`. -/

namespace CrickerOs.Regions

open Slots Table

def add64 (a b : ℕ) : ℕ :=
  (a + b) % 2 ^ 64

def sub64 (a b : ℕ) : ℕ :=
  (a + (2 ^ 64 - b)) % 2 ^ 64

lemma sub64_eq {a b : ℕ} (hle : b ≤ a) (hlt : a < 2 ^ 64) : sub64 a b = a - b := by
  rw [sub64, show a + (2 ^ 64 - b) = a - b + 2 ^ 64 by omega, Nat.add_mod_right, Nat.mod_eq_of_lt (by omega)]

def splitNewWatermark (parentPages parentWatermark want : ℕ) : Option ℕ :=
  if want = 0 then none
  else if 2 ^ 64 ≤ parentWatermark + want then none
  else if parentPages < parentWatermark + want then none
  else some (parentWatermark + want)

inductive DestroyOutcome
  | refused
  | freeToGlobal
  | returnToParent (unbump : ℕ)
  deriving DecidableEq, Repr

def destroyOutcome (pinned : Bool) (children : ℕ) (isRoot isLifoTop : Bool) (childPages : ℕ) : DestroyOutcome :=
  if pinned ∨ 0 < children then .refused
  else if isRoot then .freeToGlobal
  else .returnToParent (if isLifoTop then childPages else 0)

def noParent : ℕ :=
  2 ^ 64 - 1

structure Region where
  basePage : ℕ
  pages : ℕ
  watermark : ℕ
  pinned : Bool
  parent : ℕ
  children : ℕ
  deriving DecidableEq, Repr

structure DestroyClaim where
  basePage : ℕ
  pages : ℕ
  parent : ℕ
  isRoot : Bool
  deriving DecidableEq, Repr

def Region.carve (r : Region) (newWatermark : ℕ) : Region :=
  { r with watermark := newWatermark, children := (r.children + 1) % 2 ^ 32 }

def Region.isRoot (r : Region) : Bool :=
  r.parent == noParent

def Region.claim (r : Region) : DestroyClaim :=
  { basePage := r.basePage, pages := r.pages, parent := r.parent, isRoot := r.isRoot }

def Region.takeBack (p : Region) (claim : DestroyClaim) : Region :=
  let isLifoTop := add64 claim.basePage claim.pages == add64 p.basePage p.watermark
  let watermark :=
    match destroyOutcome false 0 false isLifoTop claim.pages with
    | .returnToParent unbump => sub64 p.watermark unbump
    | _ => p.watermark
  { p with watermark, children := p.children - 1 }

abbrev RegionTable (N : ℕ) := Table Region N

namespace RegionTable

variable {N : ℕ}

def insertRoot (t : RegionTable N) (basePage pages : ℕ) : Option (ℕ × RegionTable N) :=
  t.insertWith fun _ =>
    { basePage, pages, watermark := 0, pinned := false, parent := noParent, children := 0 }

def split (t : RegionTable N) (parent pages : ℕ) : Option ℕ × RegionTable N :=
  match t.get parent with
  | none => (none, t)
  | some r =>
    match splitNewWatermark r.pages r.watermark pages with
    | none => (none, t)
    | some newWatermark =>
      let carved := t.modify parent (Region.carve · newWatermark)
      match carved.insertWith fun _ =>
          { basePage := add64 r.basePage r.watermark, pages, watermark := 0, pinned := false, parent
            children := 0 } with
      | none => (none, carved)
      | some (name, t') => (some name, t')

def hasChildren (t : RegionTable N) (name : ℕ) : Bool :=
  (t.get name).any fun r => 0 < r.children

def retype (pin : Bool) (t : RegionTable N) (name : ℕ) : Option (ℕ × RegionTable N) :=
  match t.get name with
  | none => none
  | some r =>
    if r.pages ≤ r.watermark then none
    else some (add64 r.basePage r.watermark,
      t.modify name fun r => { r with pinned := r.pinned || pin, watermark := add64 r.watermark 1 })

section

variable (t : RegionTable N)

section

variable (name : ℕ)

def retypePage : Option (ℕ × RegionTable N) :=
  retype false t name

def retypeObjectPage : Option (ℕ × RegionTable N) :=
  retype true t name

def unpin : RegionTable N :=
  t.modify name fun r => { r with pinned := false }

def usage : Option (ℕ × ℕ) :=
  (t.get name).map fun r => (r.watermark, r.pages)

def bounds : Option (ℕ × ℕ) :=
  (t.get name).map fun r => (r.basePage, r.pages)

def claimForDestroy : Option (DestroyClaim × RegionTable N) :=
  match t.get name with
  | none => none
  | some r =>
    if destroyOutcome r.pinned r.children r.isRoot false r.pages = .refused then none
    else (t.remove name).map fun (r, t') => (r.claim, t')

end

def returnToParent (claim : DestroyClaim) : RegionTable N :=
  if claim.isRoot then t else t.modify claim.parent (Region.takeBack · claim)

end

variable {t t' : RegionTable N}

lemma insertRoot_eq_some {basePage pages n : ℕ}
    (h : t.insertRoot basePage pages = some (n, t')) :
    t.get n = none ∧ t'.get = Function.update t.get n (some ⟨basePage, pages, 0, false, noParent, 0⟩) :=
  ⟨get_eq_none_of_insertWith h, get_insertWith h⟩

def childOf (r : Region) (parent pages : ℕ) : Region :=
  ⟨add64 r.basePage r.watermark, pages, 0, false, parent, 0⟩

lemma split_cases {parent pages : ℕ} {o : Option ℕ} (h : t.split parent pages = (o, t')) :
    (o = none ∧ t' = t) ∨
    ∃ r carved, t.get parent = some r ∧ pages ≠ 0 ∧ r.watermark + pages < 2 ^ 64 ∧ r.watermark + pages ≤ r.pages ∧
      carved = t.modify parent (Region.carve · (r.watermark + pages)) ∧
      ((o = none ∧ t' = carved) ∨
      ∃ n, o = some n ∧ carved.insertWith (fun _ => childOf r parent pages) = some (n, t')) := by
  rw [split] at h
  split at h
  · cases h
    exact .inl ⟨rfl, rfl⟩
  · rename_i r hr
    rw [splitNewWatermark] at h
    split_ifs at h with hzero hover hbudget
    · cases h
      exact .inl ⟨rfl, rfl⟩
    · cases h
      exact .inl ⟨rfl, rfl⟩
    · cases h
      exact .inl ⟨rfl, rfl⟩
    · refine .inr ⟨r, _, hr, hzero, by omega, by omega, rfl, ?_⟩
      dsimp only at h
      split at h
      · cases h
        exact .inl ⟨rfl, rfl⟩
      · rename_i n u hu
        cases h
        exact .inr ⟨n, rfl, hu⟩

lemma get_carved {parent w : ℕ} {r : Region} (h : t.get parent = some r) :
    (t.modify parent (Region.carve · w)).get = Function.update t.get parent (some (r.carve w)) := by
  rw [get_modify, h, Option.map_some]

lemma retype_eq_some {pin : Bool} {n page : ℕ} (h : t.retype pin n = some (page, t')) :
    ∃ r, t.get n = some r ∧ r.watermark < r.pages ∧ page = add64 r.basePage r.watermark ∧
      t'.get = Function.update t.get n
        (some { r with pinned := r.pinned || pin, watermark := add64 r.watermark 1 }) := by
  unfold retype at h
  split at h
  · simp at h
  · rename_i r hr
    split at h
    · simp at h
    · cases h
      exact ⟨r, hr, by omega, rfl, by rw [get_modify, hr, Option.map_some]⟩

lemma get_unpin (t : RegionTable N) (n : ℕ) :
    (t.unpin n).get = Function.update t.get n ((t.get n).map fun r => { r with pinned := false }) :=
  get_modify t n _

lemma claimForDestroy_eq_some {n : ℕ} {claim : DestroyClaim}
    (h : t.claimForDestroy n = some (claim, t')) :
    ∃ r, t.get n = some r ∧ r.pinned = false ∧ r.children = 0 ∧ claim = r.claim ∧
      t.remove n = some (r, t') := by
  unfold claimForDestroy at h
  split at h
  · simp at h
  · rename_i r hr
    split at h
    · simp at h
    · rename_i hout
      obtain ⟨⟨r', u⟩, hu, heq⟩ := Option.map_eq_some_iff.mp h
      cases heq
      obtain rfl : r = r' := Option.some.inj (hr.symm.trans (get_of_remove hu))
      have hgate : ¬(r.pinned ∨ 0 < r.children) := by
        intro hgate
        simp [destroyOutcome, hgate] at hout
      exact ⟨r, hr, by simpa using fun hp => hgate (.inl hp), by omega, rfl, hu⟩

lemma claimForDestroy_of_get {n : ℕ} {r : Region} (hr : t.get n = some r)
    (hpinned : r.pinned = false) (hzero : r.children = 0) :
    ∃ t', t.claimForDestroy n = some (r.claim, t') ∧ t.remove n = some (r, t') := by
  cases hremove : t.remove n with
  | none => simp [remove_eq_none_iff.mp hremove] at hr
  | some rt =>
    obtain ⟨r', t'⟩ := rt
    cases Option.some.inj (hr.symm.trans (get_of_remove hremove))
    refine ⟨t', ?_, rfl⟩
    simp only [claimForDestroy, hr, destroyOutcome, hpinned, hzero, hremove]
    cases r.isRoot <;> rfl

lemma get_returnToParent (t : RegionTable N) {claim : DestroyClaim} (h : claim.isRoot = false) :
    (t.returnToParent claim).get =
      Function.update t.get claim.parent ((t.get claim.parent).map (Region.takeBack · claim)) := by
  rw [returnToParent, if_neg (by simp [h]), get_modify]

end RegionTable

end CrickerOs.Regions
