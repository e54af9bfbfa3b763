import CrickerOs.Loader.Kernel

namespace CrickerOs.Loader

open Library Library.Outcome Library.Bytes Paging Nat

inductive MapMode
  | ro
  | rw
  | code

def MapMode.flags : MapMode → Flags
  | .ro => .userRodata
  | .rw => .userData
  | .code => .userCode

/-- How many more objects, frames and scratch windows the two untypeds pay for, and the pages of the child's
space. -/
structure Builder where
  objects : ℕ
  frames : ℕ
  windows : ℕ
  layout : Layout

def childStackVa : ℕ := 0x500000

def childStackPages : ℕ := 4

namespace Builder

variable (b : Builder)

def retypeObj : Outcome Unit Builder :=
  match b.objects with
  | 0 => .error ()
  | n + 1 => .ok { b with objects := n }

def retypeFrame : Outcome Unit Builder :=
  match b.frames with
  | 0 => .error ()
  | n + 1 => .ok { b with frames := n }

def mapScratch : Outcome Unit Builder :=
  match b.windows with
  | 0 => .error ()
  | n + 1 => .ok { b with windows := n }

variable (F : PageFormat)

def mapInto (va : ℕ) (page : Bytes) (mode : MapMode) : Outcome Unit Builder :=
  if va % pageSize = 0 ∧ F.inHalf .low va ∧ b.layout (va / pageSize) = none then
    .ok { b with layout := Function.update b.layout (va / pageSize) (some (page, mode.flags)) }
  else .error ()

def fillAndMap (va : ℕ) (src : Option (ℕ × Bytes)) (mode : MapMode) : Outcome Unit Builder := do
  let b ← b.retypeFrame
  let b ← b.mapScratch
  let page ← fill zeroPage src
  b.mapInto F va page mode

end Builder

def modeOf (seg : Elf.Segment) : MapMode :=
  if seg.isExecutable then .code
  else if seg.isWritable then .rw
  else .ro

variable (F : PageFormat)

def childPagesFrom (seg : Elf.Segment) (last va : ℕ) (b : Builder) : Outcome Unit Builder :=
  if va < last then do
    let src ← fileBytes seg va
    let b ← b.fillAndMap F va src (modeOf seg)
    if va + pageSize < 2 ^ 64 then childPagesFrom seg last (va + pageSize) b
    else .panic
  else pure b
termination_by last - va
decreasing_by
  have : 0 < pageSize := by decide
  omega

def childSegments : List Elf.Segment → Builder → Outcome Unit Builder
  | [], b => pure b
  | seg :: segs, b => do
      let b ← childPagesFrom F seg (seg.pageRange pageSize).2 (seg.pageRange pageSize).1 b
      childSegments segs b

def childStackFrom : (left k : ℕ) → Builder → Outcome Unit Builder
  | 0, _, b => pure b
  | left + 1, k, b => do
      let b ← b.retypeFrame
      let down ← mul 64 k pageSize
      let va ← sub childStackVa down
      let b ← b.mapInto F va zeroPage .rw
      childStackFrom left (k + 1) b

def buildChildSpace (stackPages : ℕ) (elf : Elf) (b : Builder) : Outcome Unit Builder := do
  let b ← b.retypeObj
  let segs ← mapErr (fun _ => ()) elf.segments
  let b ← childSegments F segs { b with layout := fun _ => none }
  let b ← childStackFrom F stackPages 0 b
  b.retypeObj

variable {F} {seg : Elf.Segment} {segs : List Elf.Segment} {b b' : Builder} {p : ℕ}

lemma flags_modeOf : (modeOf seg).flags = flagsOf seg := by
  unfold modeOf flagsOf
  split_ifs <;> rfl

def pageCount (seg : Elf.Segment) : ℕ := endPage seg - firstPage seg

def Builder.spend (b : Builder) (n : ℕ) (layout : Layout) : Builder :=
  { b with frames := b.frames - n, windows := b.windows - n, layout := layout }

variable {mode : MapMode}

variable {page : Bytes}

lemma Builder.fillAndMap_eq {va : ℕ} {part : Option (ℕ × Bytes)} (hframes : 0 < b.frames)
    (hwindows : 0 < b.windows) (hfill : (fill zeroPage part : Outcome Unit Bytes) = ok page) :
    b.fillAndMap F va part mode = (b.spend 1 b.layout).mapInto F va page mode := by
  obtain ⟨objects, frames, windows, layout⟩ := b
  obtain ⟨frames, rfl⟩ := exists_eq_succ_of_ne_zero hframes.ne'
  obtain ⟨windows, rfl⟩ := exists_eq_succ_of_ne_zero hwindows.ne'
  rw [fillAndMap, retypeFrame, ok_bind, mapScratch, ok_bind, hfill, ok_bind]
  rfl

lemma childPagesFrom_done {last va : ℕ} (h : last ≤ va) : childPagesFrom F seg last va b = ok b := by
  rw [childPagesFrom, if_neg (not_lt.mpr h)]
  rfl

lemma childPagesFrom_round {last : ℕ} (hseg : Ends seg) (hlt : p * pageSize < last)
    (hend : p * pageSize + pageSize < 2 ^ 64) (hframes : 0 < b.frames) (hwindows : 0 < b.windows) :
    childPagesFrom F seg last (p * pageSize) b =
      ((b.spend 1 b.layout).mapInto F (p * pageSize) (pageOf seg p) (modeOf seg) >>=
        childPagesFrom F seg last ((p + 1) * pageSize)) := by
  have hfile : seg.vaddr + seg.data.length < 2 ^ 64 := (Nat.add_le_add_left hseg.data _).trans_lt hseg.memory
  obtain ⟨part, hpart, hfill⟩ := bind_eq_ok.mp (fill_fileBytes (ε := Unit) hfile hend)
  rw [childPagesFrom, if_pos hlt, hpart, ok_bind, Builder.fillAndMap_eq hframes hwindows hfill]
  simp only [if_pos hend, succ_mul]

lemma mapInto_page (hlow : F.inHalf .low (p * pageSize)) (hnone : b.layout p = none) :
    b.mapInto F (p * pageSize) page mode =
      ok { b with layout := Function.update b.layout p (some (page, mode.flags)) } := by
  have hpage : p * pageSize / pageSize = p := Nat.mul_div_cancel _ (by decide)
  have hmod : p * pageSize % pageSize = 0 := mul_mod_left _ _
  rw [Builder.mapInto, hpage, if_pos ⟨hmod, hlow, hnone⟩]

lemma mapInto_high {va : ℕ} (hhigh : ¬ F.inHalf .low va) :
    b.mapInto F va page mode = error () :=
  if_neg fun h => hhigh h.2.1

lemma mapInto_taken (htaken : b.layout p ≠ none) :
    b.mapInto F (p * pageSize) page mode = error () := by
  have hpage : p * pageSize / pageSize = p := Nat.mul_div_cancel _ (by decide)
  rw [Builder.mapInto, hpage, if_neg fun h => htaken h.2.2]

lemma childPagesFrom_holds (hF : F = aarch64 ∨ F = sv39) (hseg : Ends seg) (hframes : endPage seg - p ≤ b.frames)
    (hwindows : endPage seg - p ≤ b.windows) (hnone : ∀ q, p ≤ q → q < endPage seg → b.layout q = none)
    (hlast : p < endPage seg → p * pageSize + pageSize < 2 ^ 64) :
    (childPagesFrom F seg (seg.pageRange pageSize).2 (p * pageSize) b).Holds
      (fun b' => (∀ q, p ≤ q → q < endPage seg → F.inHalf .low (q * pageSize)) ∧
        b' = b.spend (endPage seg - p) (lay seg p (endPage seg) b.layout))
      fun _ => ∃ q, p ≤ q ∧ q < endPage seg ∧ ¬ F.inHalf .low (q * pageSize) := by
  obtain ⟨left, hleft⟩ : ∃ left, endPage seg - p = left := ⟨_, rfl⟩
  induction left generalizing p b with
  | zero =>
    rw [childPagesFrom_done (by rw [← not_lt, lt_pageRange_iff hseg.memory]; omega), holds_ok]
    refine ⟨fun q _ _ => by omega, ?_⟩
    rw [lay_empty (by omega), hleft]
    rfl
  | succ left ih =>
    have hlt : p * pageSize < (seg.pageRange pageSize).2 := by
      rw [lt_pageRange_iff hseg.memory]
      omega
    rw [childPagesFrom_round hseg hlt (hlast (by omega)) (by omega) (by omega)]
    by_cases hlow : F.inHalf .low (p * pageSize)
    · have hpage := page_lt_of_low hF hlow
      have hsize : pageSize = 4096 := rfl
      have hnext : (p + 1) * pageSize + pageSize < 2 ^ 64 := by
        rw [succ_mul]
        omega
      have hfree : (b.spend 1 b.layout).layout p = none := hnone p le_rfl (by omega)
      rw [mapInto_page hlow hfree, ok_bind]
      refine (ih ?_ ?_ ?_ (fun _ => hnext) (by omega)).mono (fun b' h => ?_) fun _ h => ?_
      · change _ ≤ b.frames - 1
        omega
      · change _ ≤ b.windows - 1
        omega
      · intro q hq hend
        change Function.update b.layout p _ q = none
        rw [Function.update_of_ne (by omega)]
        exact hnone q (by omega) hend
      · obtain ⟨hall, rfl⟩ := h
        refine ⟨fun q hq hend => ?_, ?_⟩
        · rcases eq_or_lt_of_le hq with rfl | hq
          · exact hlow
          · exact hall q hq hend
        · have hsplit {n : ℕ} : n - 1 - (endPage seg - (p + 1)) = n - (endPage seg - p) := by omega
          simp only [Builder.spend, hsplit, flags_modeOf, lay_succ (show p < endPage seg by omega)]
      · obtain ⟨q, hq, hrest⟩ := h
        exact ⟨q, by omega, hrest⟩
    · rw [mapInto_high hlow, error_bind, holds_error]
      exact ⟨p, le_rfl, by omega, hlow⟩

def BelowLast (seg : Elf.Segment) : Prop := seg.pages.Nonempty → seg.vaddr < 2 ^ 64 - pageSize

lemma BelowLast.page_end (h : BelowLast seg) (hlt : firstPage seg < endPage seg) :
    firstPage seg * pageSize + pageSize < 2 ^ 64 := by
  have hbelow := h ⟨firstPage seg, le_rfl, hlt⟩
  simp only [firstPage, pageSize] at hbelow ⊢
  omega

def Low (F : PageFormat) (seg : Elf.Segment) : Prop := ∀ p ∈ seg.pages, F.inHalf .low (p * pageSize)

/-- The first segment that is not wholly in the user half does not begin in the last page of the address space. -/
def LastPageUnreached (F : PageFormat) (segs : List Elf.Segment) : Prop :=
  ∀ before seg after, segs = before ++ seg :: after → (∀ t ∈ before, Low F t) → BelowLast seg

lemma LastPageUnreached.cons (h : LastPageUnreached F (seg :: segs)) :
    BelowLast seg ∧ (Low F seg → LastPageUnreached F segs) := by
  refine ⟨h [] seg segs rfl fun _ ht => (nomatch ht), fun hlow before t after heq hbefore => ?_⟩
  exact h (seg :: before) t after (by rw [heq]; rfl) (List.forall_mem_cons.mpr ⟨hlow, hbefore⟩)

lemma Low.belowLast (hF : F = aarch64 ∨ F = sv39) (h : Low F seg) : BelowLast seg := by
  rintro ⟨p, hp⟩
  have hfirst := page_end_lt hF (h (firstPage seg) ⟨le_rfl, hp.1.trans_lt hp.2⟩)
  simp only [firstPage, pageSize] at hfirst ⊢
  omega

lemma childSegments_holds (hF : F = aarch64 ∨ F = sv39) (hsegs : ∀ seg ∈ segs, Ends seg)
    (hlast : LastPageUnreached F segs) (hapart : segs.Pairwise fun s t => Disjoint s.pages t.pages)
    (hframes : (segs.map pageCount).sum ≤ b.frames) (hwindows : (segs.map pageCount).sum ≤ b.windows)
    (hnone : ∀ seg ∈ segs, ∀ p ∈ seg.pages, b.layout p = none) : (childSegments F segs b).Holds
      (fun b' => (∀ seg ∈ segs, ∀ p ∈ seg.pages, F.inHalf .low (p * pageSize)) ∧
        b' = b.spend (segs.map pageCount).sum (layAll segs b.layout))
      fun _ => ∃ seg ∈ segs, ∃ p ∈ seg.pages, ¬ F.inHalf .low (p * pageSize) := by
  induction segs generalizing b with
  | nil => exact ⟨fun _ h => (nomatch h), rfl⟩
  | cons seg segs ih =>
    obtain ⟨hseg, hsegs⟩ := List.forall_mem_cons.mp hsegs
    obtain ⟨hbelow, hlast⟩ := hlast.cons
    obtain ⟨hhead, hapart⟩ := List.pairwise_cons.mp hapart
    obtain ⟨hfree, hnone⟩ := List.forall_mem_cons.mp hnone
    simp only [List.map_cons, List.sum_cons] at hframes hwindows
    have hcount : pageCount seg = endPage seg - firstPage seg := rfl
    rw [childSegments, holds_bind, pageRange_fst]
    have hpages := childPagesFrom_holds (p := firstPage seg) hF hseg (b := b) (by omega) (by omega)
      (fun q hq hend => hfree q ⟨hq, hend⟩) hbelow.page_end
    refine hpages.mono (fun b₁ h₁ => ?_) fun _ h => ?_
    · obtain ⟨hall, rfl⟩ := h₁
      refine (ih hsegs (hlast fun p hp => hall p hp.1 hp.2) hapart ?_ ?_ ?_).mono (fun b' h => ?_) fun _ h => ?_
      · change _ ≤ b.frames - _
        omega
      · change _ ≤ b.windows - _
        omega
      · intro t ht p hp
        refine (lay_of_not fun hin => ?_).trans (hnone t ht p hp)
        exact Set.disjoint_left.mp (hhead t ht) hin hp
      · obtain ⟨hrest, rfl⟩ := h
        refine ⟨List.forall_mem_cons.mpr ⟨fun p hp => hall p hp.1 hp.2, hrest⟩, ?_⟩
        simp only [Builder.spend, List.map_cons, List.sum_cons, Nat.sub_sub, hcount]
        rfl
      · obtain ⟨t, ht, hrest⟩ := h
        exact ⟨t, List.mem_cons_of_mem _ ht, hrest⟩
    · obtain ⟨p, hp, hend, hhigh⟩ := h
      exact ⟨seg, List.mem_cons_self, p, ⟨hp, hend⟩, hhigh⟩

lemma childPagesFrom_last (hseg : Ends seg) (hpages : seg.pages.Nonempty) (hlast : 2 ^ 64 - pageSize ≤ seg.vaddr) :
    childPagesFrom F seg (seg.pageRange pageSize).2 (seg.pageRange pageSize).1 b = panic := by
  obtain ⟨p, hp⟩ := hpages
  have hfile : seg.vaddr + seg.data.length < 2 ^ 64 := (Nat.add_le_add_left hseg.data _).trans_lt hseg.memory
  have hlt : (seg.pageRange pageSize).1 < (seg.pageRange pageSize).2 := by
    rw [pageRange_fst, lt_pageRange_iff hseg.memory]
    exact hp.1.trans_lt hp.2
  have hover : ¬ (seg.pageRange pageSize).1 + pageSize < 2 ^ 64 := by
    rw [pageRange_fst]
    simp only [firstPage, pageSize] at hlast ⊢
    omega
  rw [childPagesFrom, if_pos hlt, fileBytes, add_eq hfile, ok_bind, add, if_neg hover]
  rfl

lemma childSegments_append {before after : List Elf.Segment} :
    childSegments F (before ++ after) b = childSegments F before b >>= childSegments F after := by
  induction before generalizing b with
  | nil => rfl
  | cons seg before ih =>
    rw [List.cons_append, childSegments, childSegments, bind_bind]
    exact congrArg _ (funext fun b' => ih)

/-- The address after the last page is computed before the kernel is asked to map it. -/
lemma childSegments_panics (hF : F = aarch64 ∨ F = sv39) (hsegs : ∀ seg ∈ segs, Ends seg)
    (hlast : ¬ LastPageUnreached F segs) (hapart : segs.Pairwise fun s t => Disjoint s.pages t.pages)
    (hframes : (segs.map pageCount).sum ≤ b.frames) (hwindows : (segs.map pageCount).sum ≤ b.windows)
    (hnone : ∀ seg ∈ segs, ∀ p ∈ seg.pages, b.layout p = none) : childSegments F segs b = panic := by
  simp only [LastPageUnreached, not_forall] at hlast
  obtain ⟨before, seg, after, rfl, hlow, hseg⟩ := hlast
  obtain ⟨hpages, hlast⟩ := Classical.not_imp.mp hseg
  rw [List.map_append, List.sum_append] at hframes hwindows
  have hbefore := childSegments_holds (b := b) hF (fun t ht => hsegs t (List.mem_append_left _ ht))
    (fun pre t post heq _ => (hlow t (heq ▸ List.mem_append_right _ List.mem_cons_self)).belowLast hF)
    (List.pairwise_append.mp hapart).1 (by omega) (by omega) fun t ht => hnone t (List.mem_append_left _ ht)
  obtain ⟨b', hb', -⟩ := hbefore.exists_ok (by
    rintro ⟨t, ht, p, hp, hhigh⟩
    exact hhigh (hlow t ht p hp))
  rw [childSegments_append, hb', ok_bind, childSegments,
    childPagesFrom_last (hsegs seg (by simp)) hpages (Nat.not_lt.mp hlast)]
  rfl

def stackPage (k : ℕ) : ℕ := childStackVa / pageSize - k

lemma stackPage_low (hF : F = aarch64 ∨ F = sv39) {k : ℕ} : F.inHalf .low (stackPage k * pageSize) := by
  rw [inHalf_low_iff]
  have hshift : 2 ^ 38 ≤ 2 ^ F.splitShift := by
    refine Nat.pow_le_pow_right (by decide) ?_
    rcases hF with rfl | rfl <;> decide
  have hpage : stackPage k ≤ 0x500 := sub_le _ _
  have hsize : pageSize = 4096 := rfl
  refine lt_of_lt_of_le ?_ hshift
  rw [hsize]
  omega

lemma childStackFrom_holds (hF : F = aarch64 ∨ F = sv39) {left k : ℕ} (hk : k + left ≤ childStackVa / pageSize)
    (hframes : left ≤ b.frames) :
    (childStackFrom F left k b).Holds
      (fun b' => b'.objects = b.objects ∧ ∀ p x, b.layout p = some x → b'.layout p = some x)
      fun _ => ∃ i, k ≤ i ∧ i < k + left ∧ b.layout (stackPage i) ≠ none := by
  induction left generalizing k b with
  | zero => exact ⟨rfl, fun _ _ => id⟩
  | succ left ih =>
    have hva : childStackVa - k * pageSize = stackPage k * pageSize := by
      rw [stackPage, Nat.sub_mul]
      rfl
    have hdown : k * pageSize ≤ childStackVa := (Nat.mul_le_mul_right _ (by omega)).trans (Nat.div_mul_le_self _ _)
    have htop : childStackVa < 2 ^ 64 := by decide
    obtain ⟨n, hn⟩ := exists_eq_succ_of_ne_zero (show b.frames ≠ 0 by omega)
    have hframe : b.retypeFrame = ok { b with frames := n } := by
      rw [Builder.retypeFrame, hn]
    rw [childStackFrom, hframe, ok_bind, mul_eq (by omega), ok_bind, sub, if_pos hdown, ok_bind, hva]
    cases hpage : b.layout (stackPage k) with
    | none =>
      have hfree : ({ b with frames := n } : Builder).layout (stackPage k) = none := hpage
      rw [mapInto_page (stackPage_low hF) hfree, ok_bind]
      have hle : left ≤ n := by omega
      refine (ih (by omega) hle).mono (fun b' h => ⟨h.1, fun p x hx => h.2 p x ?_⟩) fun _ h => ?_
      · have hne : p ≠ stackPage k := by
          rintro rfl
          exact nomatch hpage.symm.trans hx
        exact (Function.update_of_ne hne _ _).trans hx
      · obtain ⟨i, hi, hlt, hsome⟩ := h
        have hne : stackPage i ≠ stackPage k := by
          simp only [stackPage]
          omega
        refine ⟨i, by omega, by omega, fun hnone => hsome ?_⟩
        exact (Function.update_of_ne hne _ _).trans hnone
    | some x =>
      have htaken : ({ b with frames := n } : Builder).layout (stackPage k) ≠ none := by
        simp [hpage]
      rw [mapInto_taken htaken, error_bind, holds_error]
      exact ⟨k, le_rfl, by omega, htaken⟩

structure Builder.Funded (b : Builder) (segs : List Elf.Segment) (stackPages : ℕ) : Prop where
  objects : 2 ≤ b.objects
  frames : (segs.map pageCount).sum + stackPages ≤ b.frames
  windows : (segs.map pageCount).sum ≤ b.windows

lemma retypeObj_eq {n : ℕ} (h : b.objects = n + 1) : b.retypeObj = ok { b with objects := n } := by
  rw [Builder.retypeObj, h]

structure Mappable (segs : List Elf.Segment) : Prop where
  ends : ∀ seg ∈ segs, Ends seg
  apart : segs.Pairwise fun s t => Disjoint s.pages t.pages

lemma buildChildSpace_holds (hF : F = aarch64 ∨ F = sv39) {elf : Elf} {stackPages : ℕ}
    (hsegments : elf.segments = ok segs) (hsegs : Mappable segs) (hlast : LastPageUnreached F segs)
    (hfunded : b.Funded segs stackPages) (hstack : stackPages ≤ childStackVa / pageSize) :
    (buildChildSpace F stackPages elf b).Holds
      (fun b' => (∀ seg ∈ segs, ∀ p ∈ seg.pages, F.inHalf .low (p * pageSize)) ∧
        ∀ seg ∈ segs, ∀ p ∈ seg.pages, b'.layout p = some (pageOf seg p, flagsOf seg))
      fun _ => (∃ seg ∈ segs, ∃ p ∈ seg.pages, ¬ F.inHalf .low (p * pageSize)) ∨
        ∃ seg ∈ segs, ∃ i < stackPages, stackPage i ∈ seg.pages := by
  obtain ⟨n, hn⟩ : ∃ n, b.objects = n + 2 := Nat.exists_eq_add_of_le' hfunded.objects
  have hframes := hfunded.frames
  have hwindows := hfunded.windows
  rw [buildChildSpace, retypeObj_eq hn, ok_bind, hsegments, mapErr, ok_bind, holds_bind]
  refine Holds.mono (childSegments_holds (b := ⟨n + 1, b.frames, b.windows, fun _ => none⟩)
    hF hsegs.ends hlast hsegs.apart
    ?_ hwindows fun _ _ _ _ => rfl) (fun b₁ h₁ => ?_) fun _ => Or.inl
  · dsimp only
    omega
  · obtain ⟨hlow, rfl⟩ := h₁
    have hle : stackPages ≤ b.frames - (segs.map pageCount).sum := by omega
    have hpages {seg : Elf.Segment} (hseg : seg ∈ segs) {p : ℕ} (hp : p ∈ seg.pages) :
        layAll segs (fun _ => none) p = some (pageOf seg p, flagsOf seg) := layAll_of_mem hsegs.apart hseg hp
    rw [holds_bind]
    refine (childStackFrom_holds hF (by omega) hle).mono (fun b₂ h₂ => ?_) fun _ h => .inr ?_
    · rw [retypeObj_eq h₂.1]
      exact ⟨hlow, fun seg hseg p hp => h₂.2 p _ (hpages hseg hp)⟩
    · obtain ⟨i, -, hi, hsome⟩ := h
      rw [zero_add] at hi
      by_contra hnot
      push Not at hnot
      exact hsome (layAll_of_not fun seg hseg => hnot seg hseg i hi)

lemma buildChildSpace_panics (hF : F = aarch64 ∨ F = sv39) {elf : Elf} {stackPages : ℕ}
    (hsegments : elf.segments = ok segs) (hsegs : Mappable segs) (hlast : ¬ LastPageUnreached F segs)
    (hfunded : b.Funded segs stackPages) : buildChildSpace F stackPages elf b = panic := by
  obtain ⟨n, hn⟩ : ∃ n, b.objects = n + 2 := Nat.exists_eq_add_of_le' hfunded.objects
  have hframes := hfunded.frames
  have hpanics := childSegments_panics (b := ⟨n + 1, b.frames, b.windows, fun _ => none⟩)
    hF hsegs.ends hlast hsegs.apart (by dsimp only; omega) hfunded.windows fun _ _ _ _ => rfl
  rw [buildChildSpace, retypeObj_eq hn, ok_bind, hsegments, mapErr, ok_bind]
  dsimp only
  rw [hpanics]
  rfl

lemma mappable_of_accepted {bytes : Bytes} {elf : Elf} (h : elf.Accepted bytes) :
    Mappable ((Elf.loadHeaders bytes).map (Elf.segmentOf bytes)) :=
  ⟨fun _ => ends_of_accepted h, h.pages_disjoint⟩

lemma contentPages_holds {ε : Type} (hsegs : ∀ seg ∈ segs, Ends seg) (hfew : segs.length ≤ Elf.maxPhnum) :
    (contentPages segs : Outcome ε ℕ).Holds (fun n => n ≤ segs.length * 2 ^ 52) fun _ => False := by
  induction segs with
  | nil => exact zero_le _
  | cons seg segs ih =>
    obtain ⟨hseg, hsegs⟩ := List.forall_mem_cons.mp hsegs
    have hmax : Elf.maxPhnum = 64 := rfl
    rw [List.length_cons] at hfew
    have hrange : seg.pageRange pageSize = _ := Elf.Segment.pageRange_eq hseg.memory
    have hmemory := hseg.memory
    rw [contentPages, holds_bind, holds_sub, holds_bind, hrange]
    refine ⟨by dsimp only; omega, (ih hsegs (by omega)).mono (fun n hn => ?_) fun _ => id⟩
    have hsize : pageSize = 4096 := rfl
    rw [holds_add, hsize, List.length_cons]
    omega

lemma load_holds (hF : F = aarch64 ∨ F = sv39) {machine : ℕ} {k : Kernel} {image : Bytes} (hk : k.Provides F) :
    (load F machine k image).Holds (fun _ => True) fun e => e = .unmappable .wrongHalf →
      ∃ seg ∈ (Elf.loadHeaders image).map (Elf.segmentOf image), ∃ p ∈ seg.pages,
      ¬ F.inHalf .low (p * pageSize) := by
  have hroomy := roomy_of_format hF
  rw [load, holds_bind]
  cases hparse : Elf.parse machine image with
  | error e => exact fun he => by cases he
  | panic => exact absurd hparse (Elf.parse_holds machine image).ne_panic
  | ok elf =>
    have haccepted := (Elf.parse_holds machine image).of_ok hparse
    have hsegs := mappable_of_accepted haccepted
    rw [loadable, holds_ok, haccepted.segments_eq, loadable, ok_bind, holds_bind]
    refine (contentPages_holds hsegs.ends haccepted.length_le).mono (fun n hn => ?_) fun _ => False.elim
    have hfew := haccepted.length_le
    have hmax : Elf.maxPhnum = 64 := rfl
    obtain ⟨space, hspace⟩ : ∃ space, (AddressSpace.new F k (n + 1) : Outcome LoadError _) = ok space := by
      have hoverhead : asOverhead = 16 := rfl
      rw [AddressSpace.new, add_eq (by omega), ok_bind]
      exact ⟨_, rfl⟩
    rw [add_eq (by omega), ok_bind, hspace, ok_bind]
    cases space with
    | none => exact fun he => by cases he
    | some s =>
      refine (mapSegments_holds hF hsegs.ends (new_view hroomy hk hspace).1).bind fun s' _ => ?_
      rw [holds_bind]
      cases hstack : s'.mapNew F userStackVa .userData with
      | ok x => exact trivial
      | error e =>
        intro he
        obtain rfl : e = .wrongHalf := LoadError.unmappable.inj he
        exact absurd (stackPage_low hF (k := 0)) (mapNew_wrongHalf hstack)

/-- Both loaders lay the same pages and refuse what is outside the user half, if and only if the first segment
that is not wholly in the user half does not begin in the last page of the address space. -/
theorem loaders_agree {F : PageFormat} (hF : F = aarch64 ∨ F = sv39) (machine : ℕ) (image : Bytes) (elf : Elf)
    (hparse : Elf.parse machine image = ok elf) (segs : List Elf.Segment) (hsegments : elf.segments = ok segs)
    (k : Kernel) (hk : k.Provides F) (b : Builder) (hfunded : b.Funded segs childStackPages) :
    (load F machine k image ≠ panic ∧ buildChildSpace F childStackPages elf b ≠ panic ∧
      (∀ n s s', (AddressSpace.new F k n : Outcome LoadError _) = ok (some s) → mapSegments F segs s = ok s' →
        (∃ b', childSegments F segs { b with layout := fun _ => none } = ok b' ∧ b'.layout = s'.view F) ∧
        (∀ b', buildChildSpace F childStackPages elf b = ok b' →
          ∀ seg ∈ segs, ∀ p ∈ seg.pages, b'.layout p = s'.view F p) ∧
        ((∀ seg ∈ segs, ∀ i < childStackPages, stackPage i ∉ seg.pages) →
          ∃ b', buildChildSpace F childStackPages elf b = ok b')) ∧
      (load F machine k image = error (.unmappable .wrongHalf) →
        buildChildSpace F childStackPages elf b = error ())) ↔
    LastPageUnreached F segs := by
  have haccepted := (Elf.parse_holds machine image).of_ok hparse
  cases Outcome.ok.inj (haccepted.segments_eq.symm.trans hsegments)
  have hsegs := mappable_of_accepted haccepted
  refine ⟨fun hclaim => not_not.mp fun hlast => ?_, fun hlast => ?_⟩
  · exact hclaim.2.1 (buildChildSpace_panics hF hsegments hsegs hlast hfunded)
  have hbuild := buildChildSpace_holds hF hsegments hsegs hlast hfunded (by decide)
  refine ⟨(load_holds hF hk).ne_panic, hbuild.ne_panic, fun n s s' hnew hmapped => ?_, fun hload => ?_⟩
  · obtain ⟨hsound, hempty⟩ := new_view (roomy_of_format hF) hk hnew
    obtain ⟨-, hview⟩ := (mapSegments_holds hF hsegs.ends hsound).of_ok hmapped
    rw [hempty] at hview
    have hpages {seg : Elf.Segment} (hseg : seg ∈ (Elf.loadHeaders image).map (Elf.segmentOf image)) {p : ℕ}
        (hp : p ∈ seg.pages) : s'.view F p = some (pageOf seg p, flagsOf seg) := by
      rw [hview]
      exact layAll_of_mem hsegs.apart hseg hp
    have hlow : ¬ ∃ seg ∈ (Elf.loadHeaders image).map (Elf.segmentOf image), ∃ p ∈ seg.pages,
        ¬ F.inHalf .low (p * pageSize) := by
      rintro ⟨seg, hseg, p, hp, hhigh⟩
      exact hhigh (low_of_view (hpages hseg hp))
    refine ⟨?_, fun b' hb' seg hseg p hp => ?_, fun hstack => ?_⟩
    · have hframes : (((Elf.loadHeaders image).map (Elf.segmentOf image)).map pageCount).sum ≤ b.frames :=
        (Nat.le_add_right _ _).trans hfunded.frames
      have hchild := childSegments_holds (b := { b with layout := fun _ => none })
        hF hsegs.ends hlast hsegs.apart hframes
        hfunded.windows fun _ _ _ _ => rfl
      obtain ⟨b', hb', -, rfl⟩ := hchild.exists_ok hlow
      exact ⟨_, hb', hview.symm⟩
    · rw [(hbuild.of_ok hb').2 seg hseg p hp, hpages hseg hp]
    · obtain ⟨b', hb', -⟩ := hbuild.exists_ok (by
        rintro (h | ⟨seg, hseg, i, hi, hp⟩)
        · exact hlow h
        · exact hstack seg hseg i hi hp)
      exact ⟨b', hb'⟩
  · obtain ⟨seg, hseg, p, hp, hhigh⟩ := (load_holds hF hk).of_error hload rfl
    cases hb : buildChildSpace F childStackPages elf b with
    | ok b' => exact absurd ((hbuild.of_ok hb).1 seg hseg p hp) hhigh
    | error e => rfl
    | panic => exact absurd hb hbuild.ne_panic

theorem loaders_agree_sample : ∃ b', buildChildSpace sv39 childStackPages
    ⟨Elf.sample, 0x400000, 64, 1, Elf.phdrSize⟩ ⟨2, 5, 1, fun _ => none⟩ = ok b' ∧
      b'.layout 0x400 = some (pageOf sampleSegment 0x400, .userCode) := by
  have hpages : ∀ p, p ∈ sampleSegment.pages ↔ p = 0x400 := by
    intro p
    rw [mem_pages, show firstPage sampleSegment = 0x400 from rfl, show endPage sampleSegment = 0x401 from rfl]
    omega
  have hunreached : LastPageUnreached sv39 [sampleSegment] := by
    rintro before seg after heq - -
    cases List.mem_singleton.mp (heq ▸ List.mem_append_right _ List.mem_cons_self : seg ∈ [sampleSegment])
    decide
  obtain ⟨-, -, hagree, -⟩ := (loaders_agree (.inr rfl)
    183 Elf.sample _ sample_parses _ sample_segments sampleKernel
    sampleKernel_provides ⟨2, 5, 1, fun _ => none⟩ ⟨by decide, by decide, by decide⟩).mpr hunreached
  obtain ⟨s, x, hmaps, -⟩ := sample_maps
  obtain ⟨-, hlayout, hbuilds⟩ := hagree 2 sampleSpace s sample_new hmaps
  obtain ⟨b', hb'⟩ := hbuilds (by
    intro seg hseg i hi hmem
    cases List.mem_singleton.mp hseg
    rw [hpages] at hmem
    have : childStackPages = 4 := rfl
    simp only [stackPage, childStackVa, pageSize] at hmem
    omega)
  refine ⟨b', hb', ?_⟩
  rw [hlayout b' hb' sampleSegment List.mem_cons_self 0x400 ((hpages _).mpr rfl)]
  have hsound := (new_view (roomy_of_format (.inr rfl)) sampleKernel_provides (sample_new (ε := Unit))).1
  rw [((mapSegments_holds (.inr rfl) (fun seg hseg => ?_) hsound).of_ok hmaps).2]
  · rfl
  · cases List.mem_singleton.mp hseg
    exact ⟨by decide, by decide⟩

def lastPageSegment : Elf.Segment := ⟨2 ^ 64 - 4096, 1, Elf.pfR, []⟩

def lastPageImage : Bytes :=
  Elf.magic ++ [2, 1, 1] ++ List.replicate 9 0 ++ toLe 2 Elf.etExec ++ toLe 2 183 ++ toLe 4 1 ++ toLe 8 0x400000 ++
    toLe 8 64 ++ List.replicate 14 0 ++ toLe 2 Elf.phdrSize ++ toLe 2 2 ++ List.replicate 6 0 ++
    toLe 4 Elf.ptLoad ++ toLe 4 Elf.pfR ++ toLe 8 0 ++ toLe 8 (2 ^ 64 - 4096) ++ toLe 8 0 ++ toLe 8 0 ++
    toLe 8 1 ++ toLe 8 4096 ++
    toLe 4 Elf.ptLoad ++ toLe 4 (Elf.pfR + Elf.pfX) ++ toLe 8 0 ++ toLe 8 0x400000 ++ toLe 8 0 ++ toLe 8 4 ++
    toLe 8 4096 ++ toLe 8 4096

theorem userspace_loader_overflows : ∃ elf, Elf.parse 183 lastPageImage = ok elf ∧
    load sv39 183 sampleKernel lastPageImage = error (.unmappable .wrongHalf) ∧
    ∀ b, b.objects ≠ 0 → buildChildSpace sv39 childStackPages elf b = panic := by
  have hparse : Elf.parse 183 lastPageImage = ok ⟨lastPageImage, 0x400000, 64, 2, Elf.phdrSize⟩ := by
    decide +kernel
  have hsegments : (⟨lastPageImage, 0x400000, 64, 2, Elf.phdrSize⟩ : Elf).segments =
    ok [lastPageSegment, sampleSegment] := by
    decide +kernel
  refine ⟨_, hparse, ?_, fun b hb => ?_⟩
  · have hcontent : (contentPages [lastPageSegment, sampleSegment] : Outcome LoadError ℕ) = ok 1 := by decide
    rw [load, hparse, loadable, ok_bind, hsegments, loadable, ok_bind, hcontent, ok_bind, add_eq (by decide),
      ok_bind, sample_new, ok_bind]
    dsimp only
    rw [mapSegments, mapPagesFrom, if_pos (by decide)]
    rfl
  · obtain ⟨n, hn⟩ := Nat.exists_eq_succ_of_ne_zero hb
    rw [buildChildSpace, retypeObj_eq hn, ok_bind, hsegments, mapErr, ok_bind, childSegments, childPagesFrom,
      if_pos (by decide)]
    rfl

end CrickerOs.Loader
