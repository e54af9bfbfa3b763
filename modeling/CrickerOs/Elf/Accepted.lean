import CrickerOs.Elf.Image

namespace CrickerOs.Elf

open Library Library.Outcome Library.Bytes

def field (n : ℕ) (header : Bytes) (pos : ℕ) : ℕ := leVal (window header pos n)

def segmentOf (bytes header : Bytes) : Segment where
  vaddr := field 8 header 16
  memsz := field 8 header 40
  flags := field 4 header 4
  data := window bytes (field 8 header 8) (field 8 header 32)

def programHeaders (bytes : Bytes) : List Bytes :=
  (List.range (field 2 bytes 56)).map fun i => window bytes (field 8 bytes 32 + i * field 2 bytes 54) phdrSize

def loadHeaders (bytes : Bytes) : List Bytes :=
  (programHeaders bytes).filter fun header => field 4 header 0 = ptLoad

structure Bounded (bytes header : Bytes) : Prop where
  filesz_le : field 8 header 32 ≤ field 8 header 40
  data_le : field 8 header 8 + field 8 header 32 ≤ bytes.length
  end_lt : field 8 header 16 + field 8 header 40 < 2 ^ 64

namespace Segment

def pages (s : Segment) : Set ℕ := Set.Ico (s.vaddr / 4096) ((s.vaddr + s.memsz + 4095) / 4096)

def Overlaps (s t : Segment) : Prop :=
  (s.pageRange 4096).1 < (t.pageRange 4096).2 ∧ (t.pageRange 4096).1 < (s.pageRange 4096).2

variable {s t : Segment}

lemma pageRange_eq (h : s.vaddr + s.memsz < 2 ^ 64) :
    s.pageRange 4096 = (s.vaddr / 4096 * 4096, min ((s.vaddr + s.memsz + 4095) / 4096 * 4096) (2 ^ 64 - 1)) := by
  have hadd : min (s.vaddr + s.memsz) (2 ^ 64 - 1) = s.vaddr + s.memsz := by omega
  simp only [pageRange, saturatingAdd, saturatingMul, hadd]

lemma mem_pages_iff (h : s.vaddr + s.memsz < 2 ^ 64) {p : ℕ} :
    p ∈ s.pages ↔ (s.pageRange 4096).1 ≤ p * 4096 ∧ p * 4096 < (s.pageRange 4096).2 := by
  rw [pageRange_eq h, pages, Set.mem_Ico]
  omega

lemma disjoint_of_not_overlaps (hs : s.vaddr + s.memsz < 2 ^ 64) (ht : t.vaddr + t.memsz < 2 ^ 64)
    (h : ¬ s.Overlaps t) : Disjoint s.pages t.pages := by
  rw [Set.disjoint_left]
  intro p hps hpt
  rw [mem_pages_iff hs] at hps
  rw [mem_pages_iff ht] at hpt
  exact h ⟨hps.1.trans_lt hpt.2, hpt.1.trans_lt hps.2⟩

end Segment

lemma word_eq {n pos : ℕ} {b : Bytes} (h : pos + n ≤ b.length) : word n b pos = ok (field n b pos) := by
  rw [word, slice_eq_window h]
  rfl

variable {elf : Elf} {bytes : Bytes} {i j left : ℕ} {seg : Segment}

structure InFile (elf : Elf) : Prop where
  stride : phdrSize ≤ elf.phentsize
  table_lt : elf.phoff + elf.phnum * elf.phentsize < 2 ^ 64
  table_le : elf.phoff + elf.phnum * elf.phentsize ≤ elf.bytes.length

def headerAt (elf : Elf) (i : ℕ) : Bytes := window elf.bytes (elf.phoff + i * elf.phentsize) phdrSize

def loadAt (elf : Elf) (i : ℕ) : Option Segment :=
  if field 4 (elf.headerAt i) 0 = ptLoad then some (segmentOf elf.bytes (elf.headerAt i)) else none

structure Read (elf : Elf) (i : ℕ) : Prop where
  segmentAt_eq : elf.segmentAt i = ok (elf.loadAt i)
  bounded : field 4 (elf.headerAt i) 0 = ptLoad → Bounded elf.bytes (elf.headerAt i)

lemma Read.end_lt (h : Read elf i) (hseg : elf.loadAt i = some seg) : seg.vaddr + seg.memsz < 2 ^ 64 := by
  unfold loadAt at hseg
  split_ifs at hseg with hload
  rw [← Option.some.inj hseg]
  exact (h.bounded hload).end_lt

lemma checkSegmentBounds_holds (bytes header : Bytes) :
    (checkSegmentBounds bytes.length (field 8 header 8) (field 8 header 32) (field 8 header 16)
      (field 8 header 40)).Safe fun last => Bounded bytes header ∧
        last = field 8 header 8 + field 8 header 32 := by
  simp only [checkSegmentBounds, holds_bind, holds_ensure, holds_pure, implies_true, and_true]
  exact fun hle _ hfile hend => ⟨hle, hfile, hend⟩

def readHeader (bytes header : Bytes) : Outcome Error (Option Segment) :=
  if field 4 header 0 ≠ ptLoad then pure none
  else do
    let last ← checkSegmentBounds bytes.length (field 8 header 8) (field 8 header 32) (field 8 header 16)
      (field 8 header 40)
    let data ← slice bytes (field 8 header 8) last
    pure (some ⟨field 8 header 16, field 8 header 40, field 4 header 4, data⟩)

lemma segmentAt_eq_readHeader (hfile : InFile elf) (hi : i < elf.phnum) :
    elf.segmentAt i = readHeader elf.bytes (elf.headerAt i) := by
  have hrow : i * elf.phentsize + elf.phentsize ≤ elf.phnum * elf.phentsize := by
    rw [← Nat.succ_mul]
    exact Nat.mul_le_mul_right _ hi
  have hstride := hfile.stride
  have hlt := hfile.table_lt
  have hle := hfile.table_le
  have hlength : (elf.headerAt i).length = phdrSize := length_window (by omega)
  have hword {n pos : ℕ} (h : pos + n ≤ phdrSize) : word n (elf.headerAt i) pos =
    ok (field n (elf.headerAt i) pos) :=
    word_eq (hlength.symm ▸ h)
  have hslice : (slice elf.bytes (elf.phoff + i * elf.phentsize) (elf.phoff + i * elf.phentsize + phdrSize) :
      Outcome Error Bytes) = ok (elf.headerAt i) := slice_eq_window (by omega)
  rw [segmentAt, mul_eq (by omega), ok_bind, add_eq (by omega), ok_bind, add_eq (by omega), ok_bind, hslice,
    ok_bind, u32le, u64le, hword (by decide), ok_bind, readHeader]
  split_ifs
  · rfl
  · rw [hword (by decide), ok_bind, hword (by decide), ok_bind, hword (by decide), ok_bind, hword (by decide),
      ok_bind, hword (by decide), ok_bind]

lemma segmentAt_holds (hfile : InFile elf) (hi : i < elf.phnum) :
    (elf.segmentAt i).Safe (fun _ => Read elf i) := by
  have heq := segmentAt_eq_readHeader hfile hi
  unfold readHeader at heq
  split_ifs at heq with htype
  · rw [heq]
    refine ⟨?_, fun h => absurd h htype⟩
    rw [heq, loadAt, if_neg htype]
    rfl
  · rw [not_not] at htype
    have hbounds := checkSegmentBounds_holds elf.bytes (elf.headerAt i)
    cases hcheck : checkSegmentBounds elf.bytes.length (field 8 (elf.headerAt i) 8) (field 8 (elf.headerAt i) 32)
      (field 8 (elf.headerAt i) 16) (field 8 (elf.headerAt i) 40) with
    | ok last =>
      obtain ⟨hbounded, rfl⟩ := hbounds.of_ok hcheck
      rw [hcheck, ok_bind, slice_eq_window hbounded.data_le, ok_bind] at heq
      rw [heq]
      refine ⟨?_, fun _ => hbounded⟩
      rw [heq, loadAt, if_pos htype]
      rfl
    | error e =>
      rw [hcheck, error_bind] at heq
      rw [heq]
      trivial
    | panic => exact absurd hcheck hbounds.ne_panic

lemma holds_segmentAt_bind {β : Type} {f : Option Segment → Outcome Error β} {post : β → Prop} (hfile : InFile elf)
    (hi : i < elf.phnum) (h : Read elf i → (f (elf.loadAt i)).Safe post) :
    (elf.segmentAt i >>= f).Safe post := by
  have hread := segmentAt_holds hfile hi
  cases hseg : elf.segmentAt i with
  | ok o =>
    have hread := hread.of_ok hseg
    obtain rfl : elf.loadAt i = o := Outcome.ok.inj (hread.segmentAt_eq.symm.trans hseg)
    exact h hread
  | error e => trivial
  | panic => exact absurd hseg hread.ne_panic

lemma checkOverlaps_holds (hfile : InFile elf) (hj : j + left ≤ elf.phnum) :
    (elf.checkOverlaps seg left j).Safe
      (fun _ => ∀ k, j ≤ k → k < j + left → ∀ other, elf.loadAt k = some other → ¬ seg.Overlaps other) := by
  induction left generalizing j with
  | zero =>
    intro k hl hr
    omega
  | succ left ih =>
    rw [checkOverlaps]
    refine holds_segmentAt_bind hfile (by omega) fun _ => ?_
    have hrest := @ih (j + 1) (by omega)
    have hstep (hhead : ∀ other, elf.loadAt j = some other → ¬ seg.Overlaps other) :
        (elf.checkOverlaps seg left (j + 1)).Safe (fun _ => ∀ k, j ≤ k → k < j + (left + 1) →
          ∀ other, elf.loadAt k = some other → ¬ seg.Overlaps other) := by
      refine hrest.mono (fun _ hall k hl hr => ?_) fun _ => id
      rcases hl.eq_or_lt with rfl | hl
      · exact hhead
      · exact hall k hl (by omega)
    cases hload : elf.loadAt j with
    | none => exact hstep fun other h => by rw [hload] at h; exact nomatch h
    | some other =>
      simp only [holds_bind, holds_ensure, implies_true, and_true]
      intro hapart
      refine hstep fun t ht => ?_
      cases Option.mem_unique hload ht
      exact hapart

def Starts (elf : Elf) (s : Segment) : Prop :=
  s.isExecutable ∧ s.vaddr ≤ elf.entry ∧ elf.entry < s.vaddr + s.memsz

lemma entryIn_holds (hend : seg.vaddr + seg.memsz < 2 ^ 64) :
    (elf.entryIn seg).Safe (fun inside => inside = true → elf.Starts seg) := by
  unfold entryIn
  split_ifs with h
  · rw [Safe, holds_bind, holds_add]
    refine ⟨hend, fun hinside => ⟨h.1, h.2, of_decide_eq_true hinside⟩⟩
  · exact fun h => nomatch h

structure Checked (elf : Elf) (i : ℕ) : Prop extends Read elf i where
  apart : ∀ s, elf.loadAt i = some s → ∀ j < i, ∀ t, elf.loadAt j = some t → ¬ s.Overlaps t
  writable_xor : ∀ s, elf.loadAt i = some s → ¬ (s.isWritable ∧ s.isExecutable)

lemma validateFrom_holds {entryOk : Bool} (hfile : InFile elf) (hi : i + left ≤ elf.phnum) :
    (elf.validateFrom left i entryOk).Safe (fun found => (∀ k, i ≤ k → k < i + left → elf.Checked k) ∧
      (found = true → entryOk = true ∨ ∃ k < i + left, ∃ s, elf.loadAt k = some s ∧ elf.Starts s)) := by
  induction left generalizing i entryOk with
  | zero => exact ⟨fun k hl hr => absurd hl (by omega), Or.inl⟩
  | succ left ih =>
    rw [validateFrom]
    refine holds_segmentAt_bind hfile (by omega) fun hread => ?_
    have hcount : i + 1 + left = i + (left + 1) := by omega
    -- What the rest of the loop finds, with header `i` added to it.
    have hstep {entryOk' : Bool} (hchecked : elf.Checked i)
        (hfound : entryOk' = true → entryOk = true ∨ ∃ s, elf.loadAt i = some s ∧ elf.Starts s) :
        (elf.validateFrom left (i + 1) entryOk').Safe (fun found =>
          (∀ k, i ≤ k → k < i + (left + 1) → elf.Checked k) ∧ (found = true → entryOk = true ∨
            ∃ k < i + (left + 1), ∃ s, elf.loadAt k = some s ∧ elf.Starts s)) := by
      refine (ih (by omega)).mono (fun found hrest => ⟨fun k hl hr => ?_, fun hf => ?_⟩) fun _ => id
      · rcases hl.eq_or_lt with rfl | hl
        · exact hchecked
        · exact hrest.1 k hl (by omega)
      · rcases hrest.2 hf with hok | ⟨k, hk, hs⟩
        · exact (hfound hok).imp_right fun hs => ⟨i, by omega, hs⟩
        · exact Or.inr ⟨k, by omega, hs⟩
    cases hload : elf.loadAt i with
    | none =>
      refine hstep ⟨hread, ?_, ?_⟩ Or.inl
      all_goals
        intro s hs
        rw [hload] at hs
        exact nomatch hs
    | some seg =>
      have hsame {s : Segment} (hs : elf.loadAt i = some s) : seg = s := Option.mem_unique hload hs
      simp only [holds_bind, holds_ensure, implies_true, and_true]
      intro hxor _
      refine (entryIn_holds (hread.end_lt hload)).mono (fun inside hinside => ?_) fun _ => id
      refine (checkOverlaps_holds hfile (by omega)).mono (fun _ hapart => ?_) fun _ => id
      refine hstep ⟨hread, fun s hs j hj t ht => ?_, fun s hs => ?_⟩ fun hok => ?_
      · cases hsame hs
        exact hapart j (Nat.zero_le j) (by omega) t ht
      · cases hsame hs
        exact hxor
      · rcases Bool.or_eq_true_iff.mp hok with hok | hin
        · exact Or.inl hok
        · exact Or.inr ⟨seg, hload, hinside hin⟩

lemma segmentsFrom_eq (h : ∀ k, i ≤ k → k < i + left → Read elf k) :
    elf.segmentsFrom left i = ok ((List.range' i left).filterMap elf.loadAt) := by
  induction left generalizing i with
  | zero => rfl
  | succ left ih =>
    have hrest := @ih (i + 1) fun k hl hr => h k (by omega) (by omega)
    have hhead := (h i le_rfl (by omega)).segmentAt_eq
    rw [segmentsFrom, hhead, List.range'_succ, List.filterMap_cons]
    cases elf.loadAt i with
    | none => exact hrest
    | some seg =>
      dsimp only
      rw [hrest, ok_bind]
      rfl

structure Opened (bytes : Bytes) (elf : Elf) : Prop extends InFile elf where
  bytes_eq : elf.bytes = bytes
  entry_eq : elf.entry = field 8 bytes 24
  phoff_eq : elf.phoff = field 8 bytes 32
  phentsize_eq : elf.phentsize = field 2 bytes 54
  phnum_eq : elf.phnum = field 2 bytes 56
  few : elf.phnum ≤ maxPhnum

lemma validate_holds (hfile : InFile elf) : elf.validate.Safe
    (fun _ => (∀ k < elf.phnum, elf.Checked k) ∧ ∃ k < elf.phnum, ∃ s, elf.loadAt k = some s ∧ elf.Starts s) := by
  rw [validate]
  refine (validateFrom_holds hfile (Nat.zero_add _).le).bind fun found hfound => ?_
  rw [holds_ensure]
  rw [Nat.zero_add] at hfound
  refine ⟨fun hf => ⟨fun k hk => hfound.1 k (Nat.zero_le k) hk, ?_⟩, fun _ => trivial⟩
  rcases hfound.2 hf with h | h
  · exact nomatch h
  · exact h

structure Accepted (bytes : Bytes) (elf : Elf) : Prop extends Opened bytes elf where
  checked : ∀ k < elf.phnum, elf.Checked k
  starts : ∃ k < elf.phnum, ∃ s, elf.loadAt k = some s ∧ elf.Starts s

lemma parse_holds (machine : ℕ) (bytes : Bytes) : (parse machine bytes).Safe (Accepted bytes) := by
  rw [parse]
  refine .ensure (fun hsize => ?_) trivial
  have hlength : 64 ≤ bytes.length := hsize
  have hword {n pos : ℕ} (h : pos + n ≤ 64) : word n bytes pos = ok (field n bytes pos) :=
    word_eq (h.trans hlength)
  have hmagic : (slice bytes 0 4 : Outcome Error Bytes) = ok (window bytes 0 4) :=
    slice_eq_window (show 0 + 4 ≤ bytes.length by omega)
  rw [hmagic, index_eq (show 4 < bytes.length by omega), index_eq (show 5 < bytes.length by omega),
    index_eq (show 6 < bytes.length by omega)]
  simp only [u16le, u64le, hword (show 16 + 2 ≤ 64 by decide), hword (show 18 + 2 ≤ 64 by decide),
    hword (show 24 + 8 ≤ 64 by decide), hword (show 32 + 8 ≤ 64 by decide), hword (show 54 + 2 ≤ 64 by decide),
    hword (show 56 + 2 ≤ 64 by decide), ok_bind, holds_bind, holds_ensure, implies_true, and_true]
  intro _ _ _ _ _ _ _ hstride hfew _ hlt hle
  have hopened : Opened bytes ⟨bytes, field 8 bytes 24, field 8 bytes 32, field 2 bytes 56, field 2 bytes 54⟩ :=
    ⟨⟨hstride, hlt, hle⟩, rfl, rfl, rfl, rfl, rfl, hfew⟩
  refine (validate_holds hopened.toInFile).mono (fun _ h => ?_) fun _ => id
  exact ⟨hopened, h.1, h.2⟩

namespace Accepted

variable (h : Accepted bytes elf)

include h

lemma headerAt_eq : (List.range elf.phnum).map elf.headerAt = programHeaders bytes := by
  rw [programHeaders, ← h.phnum_eq]
  congr 1
  funext i
  rw [headerAt, h.bytes_eq, h.phoff_eq, h.phentsize_eq]

lemma filterMap_loadAt : (List.range elf.phnum).filterMap elf.loadAt =
    (loadHeaders bytes).map (segmentOf bytes) := by
  rw [loadHeaders, ← h.headerAt_eq, List.filter_map, List.map_map, ← List.filterMap_eq_map, List.filterMap_filter]
  apply List.filterMap_congr
  intro i _
  rw [loadAt, h.bytes_eq]
  simp

lemma segments_eq : elf.segments = ok ((loadHeaders bytes).map (segmentOf bytes)) := by
  rw [segments, segmentsFrom_eq fun k _ hk => (h.checked k (by omega)).toRead, ← List.range_eq_range',
    h.filterMap_loadAt]

lemma length_le : ((loadHeaders bytes).map (segmentOf bytes)).length ≤ maxPhnum := by
  rw [List.length_map]
  refine (List.length_filter_le _ _).trans ?_
  rw [← h.headerAt_eq, List.length_map, List.length_range]
  exact h.few

lemma bounded {header : Bytes} (hmem : header ∈ loadHeaders bytes) : Bounded bytes header := by
  obtain ⟨hmem, hload⟩ := List.mem_filter.mp hmem
  rw [← h.headerAt_eq] at hmem
  obtain ⟨i, hi, rfl⟩ := List.mem_map.mp hmem
  have hbounded := (h.checked i (List.mem_range.mp hi)).bounded (of_decide_eq_true hload)
  rwa [h.bytes_eq] at hbounded

lemma exists_loadAt {s : Segment} (hs : s ∈ (loadHeaders bytes).map (segmentOf bytes)) :
    ∃ i < elf.phnum, elf.loadAt i = some s := by
  rw [← h.filterMap_loadAt] at hs
  obtain ⟨i, hi, hload⟩ := List.mem_filterMap.mp hs
  exact ⟨i, List.mem_range.mp hi, hload⟩

lemma writable_xor_executable {s : Segment} (hs : s ∈ (loadHeaders bytes).map (segmentOf bytes)) :
    ¬ (s.isWritable ∧ s.isExecutable) := by
  obtain ⟨i, hi, hload⟩ := h.exists_loadAt hs
  exact (h.checked i hi).writable_xor s hload

lemma not_overlaps : ((loadHeaders bytes).map (segmentOf bytes)).Pairwise fun s t => ¬ t.Overlaps s := by
  rw [← h.filterMap_loadAt]
  refine List.Pairwise.filterMap _ (fun i j hij s hs t ht => ?_)
    (List.pairwise_lt_range.imp_of_mem (S := fun i j => i < j ∧ j < elf.phnum)
      fun _ hj hij => ⟨hij, List.mem_range.mp hj⟩)
  exact (h.checked j hij.2).apart t ht i hij.1 s hs

lemma pages_disjoint :
    ((loadHeaders bytes).map (segmentOf bytes)).Pairwise fun s t => Disjoint s.pages t.pages := by
  refine h.not_overlaps.imp_of_mem fun {s t} hs ht hapart => ?_
  obtain ⟨i, hi, hloads⟩ := h.exists_loadAt hs
  obtain ⟨j, hj, hloadt⟩ := h.exists_loadAt ht
  exact (Segment.disjoint_of_not_overlaps ((h.checked j hj).end_lt hloadt) ((h.checked i hi).end_lt hloads)
    hapart).symm

lemma entry_executable : ∃ s ∈ (loadHeaders bytes).map (segmentOf bytes), s.isExecutable ∧ s.vaddr ≤ elf.entry ∧
    elf.entry < s.vaddr + s.memsz := by
  obtain ⟨k, hk, s, hload, hstarts⟩ := h.starts
  refine ⟨s, ?_, hstarts⟩
  rw [← h.filterMap_loadAt]
  exact List.mem_filterMap.mpr ⟨k, List.mem_range.mpr hk, hload⟩

end Accepted

/-- Reading never panics, and what is accepted can be mapped. -/
theorem accepted_image_is_mappable (machine : ℕ) (bytes : Bytes) :
    parse machine bytes ≠ panic ∧ ∀ elf, parse machine bytes = ok elf →
      ∃ segs, elf.segments = ok segs ∧ segs = (loadHeaders bytes).map (segmentOf bytes) ∧
        (∀ header ∈ loadHeaders bytes, (segmentOf bytes header).data.length = field 8 header 32 ∧
          field 8 header 8 + field 8 header 32 ≤ bytes.length ∧
          (segmentOf bytes header).data.length ≤ (segmentOf bytes header).memsz ∧
          (segmentOf bytes header).vaddr + (segmentOf bytes header).memsz < 2 ^ 64) ∧
        (∀ s ∈ segs, ¬ (s.isWritable ∧ s.isExecutable)) ∧
        (segs.Pairwise fun s t => Disjoint (Set.Ico (s.pageRange 4096).1 (s.pageRange 4096).2)
          (Set.Ico (t.pageRange 4096).1 (t.pageRange 4096).2) ∧ Disjoint s.pages t.pages) ∧
        elf.entry = field 8 bytes 24 ∧
        ∃ s ∈ segs, s.isExecutable ∧ s.vaddr ≤ elf.entry ∧ elf.entry < s.vaddr + s.memsz := by
  have hparse := parse_holds machine bytes
  refine ⟨hparse.ne_panic, fun elf helf => ?_⟩
  have h := hparse.of_ok helf
  refine ⟨_, h.segments_eq, rfl, fun header hmem => ?_, fun s => h.writable_xor_executable, ?_, h.entry_eq,
    h.entry_executable⟩
  · obtain ⟨hfilesz, hdata, hend⟩ := h.bounded hmem
    have hlength : (segmentOf bytes header).data.length = field 8 header 32 := length_window hdata
    exact ⟨hlength, hdata, hlength.le.trans hfilesz, hend⟩
  · refine (h.not_overlaps.and h.pages_disjoint).imp fun {s t} hst => ⟨?_, hst.2⟩
    rw [Set.disjoint_left]
    rintro x ⟨hsl, hsr⟩ ⟨htl, htr⟩
    exact hst.1 ⟨htl.trans_lt hsr, hsl.trans_lt htr⟩

def sample : Bytes :=
  magic ++ [2, 1, 1] ++ List.replicate 9 0 ++ toLe 2 etExec ++ toLe 2 183 ++ toLe 4 1 ++ toLe 8 0x400000 ++
    toLe 8 64 ++ List.replicate 14 0 ++ toLe 2 phdrSize ++ toLe 2 1 ++ List.replicate 6 0 ++
    toLe 4 ptLoad ++ toLe 4 (pfR + pfX) ++ toLe 8 0 ++ toLe 8 0x400000 ++ toLe 8 0 ++ toLe 8 4 ++ toLe 8 4096 ++
    toLe 8 4096

theorem accepted_image_is_mappable_sample : ∃ elf, parse 183 sample = ok elf ∧
    elf.segments = ok [⟨0x400000, 4096, pfR + pfX, magic⟩] ∧ parse 183 sample ≠ panic := by
  refine ⟨⟨sample, 0x400000, 64, 1, phdrSize⟩, by decide +kernel, by decide +kernel, ?_⟩
  exact (accepted_image_is_mappable 183 sample).1

end CrickerOs.Elf
