import CrickerOs.Loader.Space

namespace CrickerOs.Loader

open Library Library.Outcome Library.Bytes Paging Elf

inductive LoadError
  | notLoadable (e : Elf.Error)
  | unmappable (e : MapError)
  deriving DecidableEq

def userStackVa : ℕ := 0x500000

def loadable {α : Type} : Outcome Elf.Error α → Outcome LoadError α
  | .ok a => .ok a
  | .error e => .error (.notLoadable e)
  | .panic => .panic

def mappable {α : Type} : Except MapError α → Outcome LoadError α
  | .ok a => .ok a
  | .error e => .error (.unmappable e)

def contentPages {ε : Type} : List Elf.Segment → Outcome ε ℕ
  | [] => pure 0
  | seg :: segs => do
      let bytes ← sub (seg.pageRange pageSize).2 (seg.pageRange pageSize).1
      let rest ← contentPages segs
      add 64 (bytes / pageSize) rest

variable (F : PageFormat)

def mapPagesFrom (seg : Elf.Segment) (last va : ℕ) (s : AddressSpace) : Outcome LoadError AddressSpace :=
  if va < last then do
    let (frame, s) ← mappable (s.mapNew F va (flagsOf seg))
    let part ← fileBytes seg va
    let page ← fill (s.memory frame) part
    if va + pageSize < 2 ^ 64 then mapPagesFrom seg last (va + pageSize) (s.write frame page)
    else .panic
  else pure s
termination_by last - va
decreasing_by
  have : 0 < pageSize := by decide
  omega

def mapSegments : List Elf.Segment → AddressSpace → Outcome LoadError AddressSpace
  | [], s => pure s
  | seg :: segs, s => do
      let s ← mapPagesFrom F seg (seg.pageRange pageSize).2 (seg.pageRange pageSize).1 s
      mapSegments segs s

def load (expectedMachine : ℕ) (k : Kernel) (image : Bytes) : Outcome LoadError (AddressSpace × ℕ) := do
  let elf ← loadable (Elf.parse expectedMachine image)
  let segs ← loadable elf.segments
  let pages ← contentPages segs
  let content ← add 64 pages 1
  match ← AddressSpace.new F k content with
  | none => .error (.unmappable .outOfFrames)
  | some s => do
      let s ← mapSegments F segs s
      let (_, s) ← mappable (s.mapNew F userStackVa .userData)
      pure (s, elf.entry)

variable {F} {seg : Elf.Segment} {segs : List Elf.Segment} {s s' : AddressSpace} {p : ℕ}

lemma loadable_eq_ok {α : Type} {x : Outcome Elf.Error α} {a : α} : loadable x = ok a ↔ x = ok a := by
  cases x <;> simp [loadable]

lemma mappable_eq_ok {α : Type} {x : Except MapError α} {a : α} : mappable x = ok a ↔ x = .ok a := by
  cases x <;> simp [mappable]

lemma flagsOf_portable : flagsOf seg ∈ Flags.portable := by
  unfold flagsOf
  split_ifs <;> decide

lemma page_lt_of_low (hF : F = aarch64 ∨ F = sv39) (h : F.inHalf .low (p * pageSize)) : p * pageSize < 2 ^ 48 := by
  have hshift : F.splitShift ≤ 48 := by
    rcases hF with rfl | rfl <;> decide
  exact (inHalf_low_iff.mp h).trans_le (Nat.pow_le_pow_right (by decide) hshift)

lemma page_end_lt (hF : F = aarch64 ∨ F = sv39) (h : F.inHalf .low (p * pageSize)) :
    p * pageSize + pageSize < 2 ^ 64 := by
  have hlt := page_lt_of_low hF h
  have hsize : pageSize = 4096 := rfl
  omega

lemma lt_pageRange_iff (h : seg.vaddr + seg.memsz < 2 ^ 64) : p * pageSize < (seg.pageRange pageSize).2 ↔
    p < endPage seg := by
  have heq : seg.pageRange pageSize = _ := Elf.Segment.pageRange_eq h
  rw [heq]
  simp only [endPage, pageSize]
  omega

lemma pageRange_fst : (seg.pageRange pageSize).1 = firstPage seg * pageSize := rfl

structure Ends (seg : Elf.Segment) : Prop where
  memory : seg.vaddr + seg.memsz < 2 ^ 64
  data : seg.data.length ≤ seg.memsz

lemma mapPagesFrom_done {last va : ℕ} (h : last ≤ va) : mapPagesFrom F seg last va s = ok s := by
  rw [mapPagesFrom, if_neg (not_lt.mpr h)]
  rfl

lemma mapPagesFrom_step {last frame : ℕ} {s₁ : AddressSpace} (hseg : Ends seg) (hlt : p * pageSize < last)
    (hend : p * pageSize + pageSize < 2 ^ 64) (hnew : s.mapNew F (p * pageSize) (flagsOf seg) = .ok (frame, s₁))
    (hzero : s₁.memory frame = zeroPage) :
    mapPagesFrom F seg last (p * pageSize) s = mapPagesFrom F seg last ((p + 1) * pageSize)
    (s₁.write frame (pageOf seg p)) := by
  have hfile : seg.vaddr + seg.data.length < 2 ^ 64 := (Nat.add_le_add_left hseg.data _).trans_lt hseg.memory
  obtain ⟨part, hpart, hfill⟩ := bind_eq_ok.mp (fill_fileBytes (ε := LoadError) hfile hend)
  rw [mapPagesFrom, if_pos hlt, hnew, mappable, ok_bind]
  dsimp only
  rw [hpart, ok_bind, hzero, hfill, ok_bind, if_pos hend, Nat.succ_mul]

lemma mapPagesFrom_holds (hF : F = aarch64 ∨ F = sv39) (hseg : Ends seg) (hs : Sound F s) :
    (mapPagesFrom F seg (seg.pageRange pageSize).2 (p * pageSize) s).Holds
      (fun s' => Sound F s' ∧ s'.view F = lay seg p (endPage seg) (s.view F))
      fun e => e = .unmappable .wrongHalf → ∃ q, p ≤ q ∧ q < endPage seg ∧ ¬ F.inHalf .low (q * pageSize) := by
  -- The induction is on the pages that are left.
  obtain ⟨left, hleft⟩ : ∃ left, endPage seg - p = left := ⟨_, rfl⟩
  induction left generalizing p s with
  | zero =>
    rw [mapPagesFrom_done (by rw [← not_lt, lt_pageRange_iff hseg.memory]; omega)]
    exact ⟨hs, (lay_empty (by omega)).symm⟩
  | succ left ih =>
    have hlt : p * pageSize < (seg.pageRange pageSize).2 := by
      rw [lt_pageRange_iff hseg.memory]
      omega
    have hpage : p * pageSize / pageSize = p := Nat.mul_div_cancel _ (by decide)
    cases hnew : s.mapNew F (p * pageSize) (flagsOf seg) with
    | error e =>
      rw [mapPagesFrom, if_pos hlt, hnew, mappable, error_bind, holds_error]
      intro he
      obtain rfl : e = .wrongHalf := LoadError.unmappable.inj he
      exact ⟨p, le_rfl, by omega, mapNew_wrongHalf hnew⟩
    | ok x =>
      obtain ⟨frame, s₁⟩ := x
      obtain ⟨-, hlow, -, hzero, hwrite⟩ := mapNew_view (roomy_of_format hF) hs flagsOf_portable hnew
      rw [hpage] at hwrite
      obtain ⟨hsound, hview⟩ := hwrite (pageOf seg p)
      rw [mapPagesFrom_step hseg hlt (page_end_lt hF hlow) hnew hzero]
      refine (ih hsound (by omega)).mono (fun s' h => ⟨h.1, ?_⟩) fun e h he => ?_
      · rw [h.2, hview]
        exact lay_succ (by omega)
      · obtain ⟨q, hq, hrest⟩ := h he
        exact ⟨q, by omega, hrest⟩

lemma mapSegments_holds (hF : F = aarch64 ∨ F = sv39) (hsegs : ∀ seg ∈ segs, Ends seg) (hs : Sound F s) :
    (mapSegments F segs s).Holds (fun s' => Sound F s' ∧ s'.view F = layAll segs (s.view F))
      fun e => e = .unmappable .wrongHalf → ∃ seg ∈ segs, ∃ p ∈ seg.pages, ¬ F.inHalf .low (p * pageSize) := by
  induction segs generalizing s with
  | nil => exact ⟨hs, rfl⟩
  | cons seg segs ih =>
    obtain ⟨hseg, hsegs⟩ := List.forall_mem_cons.mp hsegs
    rw [mapSegments, holds_bind, pageRange_fst]
    refine (mapPagesFrom_holds hF hseg hs).mono (fun s₁ h₁ => ?_) fun e h he => ?_
    · refine (ih hsegs h₁.1).mono (fun s' h => ⟨h.1, ?_⟩) fun e h he => ?_
      · rw [h.2, h₁.2]
        rfl
      · obtain ⟨seg', hmem, hrest⟩ := h he
        exact ⟨seg', List.mem_cons_of_mem _ hmem, hrest⟩
    · obtain ⟨p, hp, hend, hhigh⟩ := h he
      exact ⟨seg, List.mem_cons_self, p, ⟨hp, hend⟩, hhigh⟩

lemma ends_of_accepted {bytes : Bytes} {elf : Elf} (h : elf.Accepted bytes)
    (hseg : seg ∈ (loadHeaders bytes).map (segmentOf bytes)) : Ends seg := by
  obtain ⟨header, hmem, rfl⟩ := List.mem_map.mp hseg
  obtain ⟨hfilesz, hdata, hend⟩ := h.bounded hmem
  have hlength : (segmentOf bytes header).data.length = field 8 header 32 := length_window hdata
  exact ⟨hend, hlength.le.trans hfilesz⟩

lemma write_self {frame : ℕ} {page : Bytes} (h : s.memory frame = page) : s.write frame page = s := by
  subst h
  rw [AddressSpace.write, Function.update_eq_self]

structure Loaded (F : PageFormat) (s : AddressSpace) (segs : List Elf.Segment) : Prop where
  sound : Sound F s
  stack : s.view F (userStackVa / pageSize) = some (zeroPage, .userData)
  segment : ∀ seg ∈ segs, ∀ p ∈ seg.pages, s.view F p = some (pageOf seg p, flagsOf seg)
  other : ∀ p, (∀ seg ∈ segs, p ∉ seg.pages) → p ≠ userStackVa / pageSize → s.view F p = none

lemma load_loaded {machine entry : ℕ} {k : Kernel} {image : Bytes} (hF : F = aarch64 ∨ F = sv39)
    (hk : k.Provides F) (h : load F machine k image = ok (s, entry)) :
    ∃ elf, parse machine image = ok elf ∧ entry = elf.entry ∧
      Loaded F s ((loadHeaders image).map (segmentOf image)) := by
  have hroomy := roomy_of_format hF
  obtain ⟨elf, hparse, h⟩ := bind_eq_ok.mp h
  have hparse := loadable_eq_ok.mp hparse
  have haccepted := (parse_holds machine image).of_ok hparse
  obtain ⟨segs, hsegments, h⟩ := bind_eq_ok.mp h
  cases Outcome.ok.inj (haccepted.segments_eq.symm.trans (loadable_eq_ok.mp hsegments))
  obtain ⟨pages, -, h⟩ := bind_eq_ok.mp h
  obtain ⟨content, -, h⟩ := bind_eq_ok.mp h
  obtain ⟨_ | s₀, hnew, h⟩ := bind_eq_ok.mp h
  · exact nomatch h
  obtain ⟨hs₀, hview₀⟩ := new_view hroomy hk hnew
  obtain ⟨s₁, hmapped, h⟩ := bind_eq_ok.mp h
  obtain ⟨hs₁, hview₁⟩ := (mapSegments_holds hF (fun seg => ends_of_accepted haccepted) hs₀).of_ok hmapped
  obtain ⟨⟨frame, s₂⟩, hstack, h⟩ := bind_eq_ok.mp h
  cases h
  obtain ⟨-, -, hnone, hzero, hwrite⟩ := mapNew_view hroomy hs₁ (by decide) (mappable_eq_ok.mp hstack)
  obtain ⟨hsound, hview⟩ := hwrite zeroPage
  rw [write_self hzero] at hsound hview
  rw [hview₁, hview₀] at hnone hview
  have hsegment {seg : Elf.Segment} (hseg : seg ∈ (loadHeaders image).map (segmentOf image)) {p : ℕ}
      (hp : p ∈ seg.pages) : layAll ((loadHeaders image).map (segmentOf image)) (fun _ => none) p =
        some (pageOf seg p, flagsOf seg) := layAll_of_mem haccepted.pages_disjoint hseg hp
  refine ⟨elf, hparse, rfl, hsound, ?_, fun seg hseg p hp => ?_, fun p hp hne => ?_⟩
  · rw [hview, Function.update_self]
  · have hne : p ≠ userStackVa / pageSize := by
      rintro rfl
      rw [hsegment hseg hp] at hnone
      exact nomatch hnone
    rw [hview, Function.update_of_ne hne, hsegment hseg hp]
  · rw [hview, Function.update_of_ne hne, layAll_of_not hp]

namespace Loaded

variable (h : Loaded F s segs)

include h

lemma byteAt_segment (hF : F = aarch64 ∨ F = sv39) (hseg : seg ∈ segs) {a : ℕ} (ha : a / pageSize ∈ seg.pages) :
    s.byteAt F a = some (byteOf seg a) := by
  have hlt : a % pageSize < pageSize := Nat.mod_lt _ (by decide)
  rw [byteAt_eq (roomy_of_format hF) h.sound (h.segment seg hseg _ ha), getElem?_pageOf hlt, Nat.div_add_mod']

lemma isSome_view_iff : (s.view F p).isSome ↔ (∃ seg ∈ segs, p ∈ seg.pages) ∨ p = userStackVa / pageSize := by
  constructor
  · intro hsome
    by_contra hnot
    obtain ⟨hsegs, hstack⟩ := not_or.mp hnot
    rw [h.other p (fun seg hseg hp => hsegs ⟨seg, hseg, hp⟩) hstack] at hsome
    exact nomatch hsome
  · rintro (⟨seg, hseg, hp⟩ | rfl)
    · rw [h.segment seg hseg p hp]
      rfl
    · rw [h.stack]
      rfl

end Loaded

lemma mem_pages_of_address {a : ℕ} (hl : seg.vaddr ≤ a) (hr : a < seg.vaddr + seg.memsz) :
    a / pageSize ∈ seg.pages := by
  simp only [mem_pages, firstPage, endPage, pageSize]
  omega

/-- Every byte, every permission and every page of a loaded program is what its file says. -/
theorem loaded_program_is_its_file {F : PageFormat} (hF : F = aarch64 ∨ F = sv39) (machine : ℕ) (k : Kernel)
    (hk : k.Provides F) (image : Bytes) (s : AddressSpace) (entry : ℕ)
    (h : load F machine k image = ok (s, entry)) : ∃ elf segs, Elf.parse machine image = ok elf ∧
      elf.segments = ok segs ∧ (∀ seg ∈ segs, ∀ i < seg.memsz,
      s.byteAt F (seg.vaddr + i) = some (seg.data[i]?.getD 0)) ∧
        (∀ seg ∈ segs, ∀ a, a / pageSize ∈ seg.pages → ¬ (seg.vaddr ≤ a ∧ a < seg.vaddr + seg.memsz) →
          s.byteAt F a = some 0) ∧
      (∀ seg ∈ segs, ∀ p ∈ seg.pages, ∃ page flags, s.view F p = some (page, flags) ∧
        flags.isWritable = seg.isWritable ∧ flags.isUserExecutable = seg.isExecutable) ∧
      (∀ p, (s.view F p).isSome ↔ (∃ seg ∈ segs, p ∈ seg.pages) ∨ p = userStackVa / pageSize) ∧
      (∃ flags, s.view F (userStackVa / pageSize) = some (zeroPage, flags) ∧ flags.isWritable ∧
        ¬ flags.isUserExecutable) ∧
      (∀ p, (s.view F p).isSome → F.inHalf .low (p * pageSize)) ∧
      ∃ page flags, s.view F (entry / pageSize) = some (page, flags) ∧ flags.isUserExecutable := by
  obtain ⟨elf, hparse, rfl, hloaded⟩ := load_loaded hF hk h
  have haccepted := (Elf.parse_holds machine image).of_ok hparse
  have hpermissions {seg : Elf.Segment} (hseg : seg ∈ (Elf.loadHeaders image).map (Elf.segmentOf image)) :=
    flagsOf_permissions (haccepted.writable_xor_executable hseg)
  refine ⟨elf, _, hparse, haccepted.segments_eq, fun seg hseg i hi => ?_, fun seg hseg a ha hout => ?_,
    fun seg hseg p hp => ⟨_, _, hloaded.segment seg hseg p hp, hpermissions hseg⟩,
    fun p => hloaded.isSome_view_iff, ⟨_, hloaded.stack, by decide, by decide⟩, fun p hp => ?_, ?_⟩
  · have hpage := mem_pages_of_address (Nat.le_add_right seg.vaddr i) (Nat.add_lt_add_left hi _)
    rw [hloaded.byteAt_segment hF hseg hpage, byteOf, if_pos (Nat.le_add_right _ _), Nat.add_sub_cancel_left]
  · have hends := ends_of_accepted haccepted hseg
    have hdata := hends.data
    rw [hloaded.byteAt_segment hF hseg ha, byteOf_of_outside (by omega)]
  · obtain ⟨x, hx⟩ := Option.isSome_iff_exists.mp hp
    exact low_of_view hx
  · obtain ⟨seg, hseg, hexecutable, hl, hr⟩ := haccepted.entry_executable
    refine ⟨_, _, hloaded.segment seg hseg _ (mem_pages_of_address hl hr), ?_⟩
    rw [(hpermissions hseg).2, hexecutable]

def sampleFrames : List ℕ := [0x80001000, 0x80002000, 0x80003000, 0x80004000, 0x80005000, 0x80006000]

def sampleKernel : Kernel where
  create _ := some (0x80000000 :: sampleFrames)
  kernelRoot _ := 1
  tables _ _ := 0
  memory _ := []
  admits := true

def sampleSegment : Elf.Segment := ⟨0x400000, 4096, Elf.pfR + Elf.pfX, Elf.magic⟩

def sampleSpace : AddressSpace where
  root := 0x80000000
  tables := shareKernelHalf sv39 0x80000000 sampleKernel.kernelRoot (sampleKernel.tables.zero 0x80000000)
  memory := sampleKernel.memory
  region := sampleFrames

lemma sampleKernel_provides : sampleKernel.Provides sv39 := by
  intro n frames h
  cases h
  exact ⟨by decide, by decide⟩

lemma sample_parses : parse 183 sample = ok ⟨sample, 0x400000, 64, 1, phdrSize⟩ := by decide +kernel

lemma sample_segments : (⟨sample, 0x400000, 64, 1, phdrSize⟩ : Elf).segments = ok [sampleSegment] := by
  decide +kernel

lemma sample_new {ε : Type} : (AddressSpace.new sv39 sampleKernel 2 : Outcome ε _) = ok (some sampleSpace) := rfl

lemma sample_maps : ∃ s x, mapSegments sv39 [sampleSegment] sampleSpace = ok s ∧
    s.mapNew sv39 userStackVa .userData = .ok x := by
  have hends : Ends sampleSegment := ⟨by decide, by decide⟩
  have hfirst : (sampleSegment.pageRange pageSize).1 = 0x400 * pageSize := rfl
  have hlast : (sampleSegment.pageRange pageSize).2 = 0x401 * pageSize := by decide
  rw [mapSegments, hfirst, hlast, mapPagesFrom_step hends (by decide) (by decide) rfl rfl,
    mapPagesFrom_done (by decide), ok_bind, mapSegments]
  exact ⟨_, _, rfl, rfl⟩

lemma sample_loads : ∃ s, load sv39 183 sampleKernel sample = ok (s, 0x400000) := by
  obtain ⟨s, x, hmaps, hstack⟩ := sample_maps
  have hcontent : (contentPages [sampleSegment] : Outcome LoadError ℕ) = ok 1 := by decide
  rw [load, sample_parses, loadable, ok_bind, sample_segments, loadable, ok_bind, hcontent, ok_bind,
    add_eq (by decide), ok_bind, sample_new, ok_bind]
  dsimp only
  rw [hmaps, ok_bind, hstack]
  exact ⟨_, rfl⟩

theorem loaded_program_is_its_file_sample : ∃ s, load sv39 183 sampleKernel Elf.sample = ok (s, 0x400000) ∧
    s.byteAt sv39 0x400001 = some 0x45 ∧ s.byteAt sv39 0x400004 = some 0 := by
  obtain ⟨s, hs⟩ := sample_loads
  obtain ⟨elf, segs, helf, hsegs, hbytes, -⟩ :=
    loaded_program_is_its_file (.inr rfl) 183 sampleKernel sampleKernel_provides Elf.sample s _ hs
  cases Outcome.ok.inj (sample_parses.symm.trans helf)
  cases Outcome.ok.inj (sample_segments.symm.trans hsegs)
  have hbyte := hbytes sampleSegment List.mem_cons_self
  exact ⟨s, hs, hbyte 1 (by decide), hbyte 4 (by decide)⟩

end CrickerOs.Loader
