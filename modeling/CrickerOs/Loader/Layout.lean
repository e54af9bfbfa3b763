import CrickerOs.Elf.Accepted
import CrickerOs.Paging.Format

namespace CrickerOs.Loader

open Library Library.Outcome Library.Bytes Paging

abbrev Layout := ℕ → Option (Bytes × Flags)

section

variable (seg : Elf.Segment)

def byteOf (a : ℕ) : UInt8 :=
  if seg.vaddr ≤ a then seg.data[a - seg.vaddr]?.getD 0 else 0

def pageOf (p : ℕ) : Bytes :=
  (List.range pageSize).map fun o => byteOf seg (p * pageSize + o)

def flagsOf : Flags :=
  if seg.isExecutable then .userCode
  else if seg.isWritable then .userData
  else .userRodata

def lay (a b : ℕ) (layout : Layout) : Layout :=
  fun p => if a ≤ p ∧ p < b then some (pageOf seg p, flagsOf seg) else layout p

def firstPage : ℕ := seg.vaddr / pageSize

def endPage : ℕ := (seg.vaddr + seg.memsz + (pageSize - 1)) / pageSize

end

def layAll (segs : List Elf.Segment) (layout : Layout) : Layout :=
  segs.foldl (fun layout seg => lay seg (firstPage seg) (endPage seg) layout) layout

def fileBytes {ε : Type} (seg : Elf.Segment) (va : ℕ) : Outcome ε (Option (ℕ × Bytes)) := do
  let fileHi ← add 64 seg.vaddr seg.data.length
  let pageHi ← add 64 va pageSize
  let lo := max va seg.vaddr
  let hi := min pageHi fileHi
  if lo < hi then do
    let bytes ← slice seg.data (lo - seg.vaddr) (hi - seg.vaddr)
    pure (some (lo - va, bytes))
  else pure none

def fill {ε : Type} (page : Bytes) : Option (ℕ × Bytes) → Outcome ε Bytes
  | some (dst, bytes) => copyInto page dst bytes
  | none => pure page

def zeroPage : Bytes := List.replicate pageSize 0

variable {ε : Type} {seg : Elf.Segment} {p a b : ℕ} {layout : Layout} {segs : List Elf.Segment}

@[simp]
lemma length_pageOf : (pageOf seg p).length = pageSize := by
  simp [pageOf]

lemma getElem?_pageOf {o : ℕ} (ho : o < pageSize) : (pageOf seg p)[o]? = some (byteOf seg (p * pageSize + o)) := by
  rw [pageOf, List.getElem?_map, List.getElem?_range ho, Option.map_some]

@[simp]
lemma length_zeroPage : zeroPage.length = pageSize := List.length_replicate

lemma getElem?_zeroPage {o : ℕ} (ho : o < pageSize) : zeroPage[o]? = some 0 := by
  rw [zeroPage, List.getElem?_replicate, if_pos ho]

lemma eq_pageOf {page : Bytes} (hlength : page.length = pageSize)
    (h : ∀ o < pageSize, page[o]? = some (byteOf seg (p * pageSize + o))) : page = pageOf seg p := by
  apply List.ext_getElem?
  intro o
  by_cases ho : o < pageSize
  · rw [getElem?_pageOf ho, h o ho]
  · rw [List.getElem?_eq_none (by omega), List.getElem?_eq_none (by rw [length_pageOf]; omega)]

lemma byteOf_of_outside (h : a < seg.vaddr ∨ seg.vaddr + seg.data.length ≤ a) : byteOf seg a = 0 := by
  rw [byteOf]
  split_ifs with hle
  · rw [List.getElem?_eq_none (by omega)]
    rfl
  · rfl

lemma byteOf_of_inside (hl : seg.vaddr ≤ a) (hr : a < seg.vaddr + seg.data.length) :
    seg.data[a - seg.vaddr]? = some (byteOf seg a) := by
  rw [byteOf, if_pos hl, List.getElem?_eq_getElem (by omega), Option.getD_some]

lemma overwrite_zeroPage {lo hi : ℕ} (hlo : lo = max (p * pageSize) seg.vaddr)
    (hhi : hi = min (p * pageSize + pageSize) (seg.vaddr + seg.data.length)) (hlt : lo < hi) :
    overwrite zeroPage (lo - p * pageSize) ((seg.data.drop (lo - seg.vaddr)).take
      (hi - seg.vaddr - (lo - seg.vaddr))) = pageOf seg p := by
  have hlength : ((seg.data.drop (lo - seg.vaddr)).take (hi - seg.vaddr - (lo - seg.vaddr))).length = hi - lo := by
    rw [List.length_take, List.length_drop]
    omega
  refine eq_pageOf (by rw [length_overwrite, length_zeroPage]) fun o ho => ?_
  by_cases hin : lo ≤ p * pageSize + o ∧ p * pageSize + o < hi
  · rw [getElem?_overwrite (by omega) (by omega) (by rw [length_zeroPage]; exact ho), List.getElem?_take,
      if_pos (by omega), List.getElem?_drop, ← byteOf_of_inside (by omega) (by omega)]
    congr 1
    omega
  · rw [getElem?_overwrite_of_disjoint (by omega), getElem?_zeroPage ho, byteOf_of_outside (by omega)]

lemma fill_fileBytes (hend : seg.vaddr + seg.data.length < 2 ^ 64) (hpage : p * pageSize + pageSize < 2 ^ 64) :
    ((fileBytes seg (p * pageSize) : Outcome ε _) >>= fill zeroPage) = ok (pageOf seg p) := by
  rw [fileBytes, add_eq hend, ok_bind, add_eq hpage, ok_bind]
  dsimp only
  split_ifs with hlt
  · rw [slice_eq (by omega) (by omega), ok_bind, pure_bind', fill, copyInto_eq]
    · exact congrArg ok (overwrite_zeroPage rfl rfl hlt)
    · rw [List.length_take, List.length_drop, length_zeroPage]
      omega
  · rw [pure_bind', fill]
    refine congrArg ok (eq_pageOf length_zeroPage fun o ho => ?_)
    rw [getElem?_zeroPage ho, byteOf_of_outside (by omega)]

lemma lay_self (ha : a ≤ p) (hb : p < b) : lay seg a b layout p = some (pageOf seg p, flagsOf seg) :=
  if_pos ⟨ha, hb⟩

lemma lay_of_not (h : ¬ (a ≤ p ∧ p < b)) : lay seg a b layout p = layout p := if_neg h

lemma lay_empty (h : b ≤ a) : lay seg a b layout = layout := by
  funext p
  exact lay_of_not (by omega)

lemma lay_succ (hab : a < b) :
    lay seg (a + 1) b (Function.update layout a (some (pageOf seg a, flagsOf seg))) = lay seg a b layout := by
  funext p
  by_cases hp : p = a
  · subst hp
    rw [lay_of_not (by omega), Function.update_self, lay_self le_rfl hab]
  · by_cases hin : a ≤ p ∧ p < b
    · rw [lay_self (by omega) hin.2, lay_self hin.1 hin.2]
    · rw [lay_of_not (by omega), lay_of_not hin, Function.update_of_ne hp]

lemma mem_pages : p ∈ seg.pages ↔ firstPage seg ≤ p ∧ p < endPage seg := Iff.rfl

lemma layAll_of_not (h : ∀ seg ∈ segs, p ∉ seg.pages) : layAll segs layout p = layout p := by
  induction segs generalizing layout with
  | nil => rfl
  | cons seg segs ih =>
    obtain ⟨hseg, hsegs⟩ := List.forall_mem_cons.mp h
    rw [layAll, List.foldl_cons]
    exact (ih hsegs).trans (lay_of_not hseg)

lemma layAll_of_mem (hapart : segs.Pairwise fun s t => Disjoint s.pages t.pages) (hseg : seg ∈ segs)
    (hp : p ∈ seg.pages) : layAll segs layout p = some (pageOf seg p, flagsOf seg) := by
  induction segs generalizing layout with
  | nil => exact nomatch hseg
  | cons seg' segs ih =>
    obtain ⟨hhead, hapart⟩ := List.pairwise_cons.mp hapart
    rw [layAll, List.foldl_cons]
    rcases List.mem_cons.mp hseg with rfl | hseg
    · refine (layAll_of_not fun t ht hmem => ?_).trans (lay_self hp.1 hp.2)
      exact Set.disjoint_left.mp (hhead t ht) hp hmem
    · exact ih hapart hseg

lemma flagsOf_permissions (h : ¬ (seg.isWritable ∧ seg.isExecutable)) :
    (flagsOf seg).isWritable = seg.isWritable ∧ (flagsOf seg).isUserExecutable = seg.isExecutable := by
  unfold flagsOf
  cases hx : seg.isExecutable <;> cases hw : seg.isWritable
  · exact ⟨rfl, rfl⟩
  · exact ⟨rfl, rfl⟩
  · exact ⟨rfl, rfl⟩
  · exact absurd ⟨hw, hx⟩ h

end CrickerOs.Loader
