import CrickerOs.Nifefs.Image

namespace CrickerOs.Nifefs

open Library Library.Outcome Library.Bytes List Nat

variable {image out : Bytes} {name : String} {data : Bytes} {files : List (String × Bytes)} {i block pos : ℕ}

lemma u32le_eq (h : pos + 4 ≤ image.length) : u32le image pos = .ok (leVal (window image pos 4)) := by
  rw [u32le, slice_eq_window h]
  rfl

def entryPos (i : ℕ) : ℕ := headerLen + i * entryLen

lemma entryAt_eq (h : entryPos i + entryLen ≤ image.length) : Fs.entryAt image i = .ok
    ⟨window image (entryPos i) nameLen, leVal (window image (entryPos i + nameLen) 4),
      leVal (window image (entryPos i + nameLen + 4) 4)⟩ := by
  simp only [entryPos, entryLen, nameLen] at h ⊢
  rw [Fs.entryAt, entryLen, nameLen, slice_eq_window (by omega), u32le_eq (by omega), u32le_eq (by omega)]
  rfl

lemma entryPos_le (h : i < maxFiles) : entryPos i + entryLen ≤ dirBlocks * blockSize := by
  simp only [maxFiles, entryPos, dirBlocks, blockSize, headerLen, entryLen, nameLen] at h ⊢
  omega

lemma nameStr_eq_some {e : Entry} : e.nameStr = some name ↔ e.name.takeWhile (· ≠ 0) = utf8 name := by
  unfold Entry.nameStr String.fromUTF8?
  split_ifs with hvalid
  · rw [Option.some.injEq, ← String.toByteArray_inj, utf8]
    constructor
    · intro h
      rw [← h]
      rfl
    · intro h
      apply ByteArray.ext
      rw [← Array.toList_inj, ← h]
      rfl
  · simp only [false_iff]
    intro h
    apply hvalid
    rw [h]
    exact name.isValidUTF8

structure Stored (image : Bytes) (i block : ℕ) (name : String) (data : Bytes) : Prop where
  fits : block * blockSize + data.length ≤ image.length
  window_name : window image (entryPos i) nameLen = utf8 name ++ List.replicate (nameLen - (utf8 name).length) 0
  window_block : window image (entryPos i + nameLen) 4 = toLe 4 block
  window_len : window image (entryPos i + nameLen + 4) 4 = toLe 4 data.length
  window_data : window image (block * blockSize) data.length = data

lemma Stored.congr {image' : Bytes} (h : Stored image i block name data) (hlength : image'.length = image.length)
    (hentry : ∀ x, entryPos i ≤ x → x < entryPos i + entryLen → image'[x]? = image[x]?)
    (hdata : ∀ x, block * blockSize ≤ x → x < block * blockSize + data.length → image'[x]? = image[x]?) :
    Stored image' i block name data := by
  simp only [entryLen] at hentry
  refine ⟨hlength ▸ h.fits, ?_, ?_, ?_, ?_⟩
  · rw [window_congr fun x hl hr => hentry x hl (by omega), h.window_name]
  · rw [window_congr fun x hl hr => hentry x (by omega) (by omega), h.window_block]
  · rw [window_congr fun x hl hr => hentry x (by omega) (by omega), h.window_len]
  · rw [window_congr hdata, h.window_data]

def StoredFrom (image : Bytes) : List (String × Bytes) → (i block : ℕ) → Prop
  | [], _, _ => True
  | (name, data) :: files, i, block =>
    Stored image i block name data ∧ StoredFrom image files (i + 1) (block + blocksOf data)

structure Storable (file : String × Bytes) : Prop where
  name : (utf8 file.1).length ≤ nameLen
  nul : 0 ∉ utf8 file.1
  data : file.2.length < 2 ^ 32

def blocks (files : List (String × Bytes)) : ℕ :=
  (files.map fun file => blocksOf file.2).sum

lemma length_le_blocksOf (data : Bytes) : data.length ≤ blocksOf data * blockSize := by
  simp only [blocksOf, blockSize]
  omega

def writeFile (name : String) (data : Bytes) (i block : ℕ) (out : Bytes) : Bytes :=
  overwrite (overwrite (overwrite (overwrite out (entryPos i) (utf8 name)) (entryPos i + nameLen) (toLe 4 block))
    (entryPos i + nameLen + 4) (toLe 4 data.length)) (block * blockSize) data

@[simp]
lemma length_writeFile : (writeFile name data i block out).length = out.length := by
  simp [writeFile]

section

variable (hname : (utf8 name).length ≤ nameLen) (hi : i < maxFiles) (hblock : dirBlocks ≤ block)
  (hout : (block + blocksOf data) * blockSize ≤ out.length)
include hname hi hblock hout

lemma write_bounds : entryPos i + (utf8 name).length ≤ entryPos i + nameLen ∧
    entryPos i + nameLen + 4 + 4 ≤ block * blockSize ∧ block * blockSize + data.length ≤ out.length := by
  have hentry := entryPos_le hi
  have hdata := length_le_blocksOf data
  have hle := mul_le_mul_right blockSize hblock
  have hsum := add_mul block (blocksOf data) blockSize
  simp only [entryLen, nameLen] at hname hentry ⊢
  omega

omit hi hblock hout in
lemma writeFile_of_ne {x : ℕ} (hentry : x < entryPos i ∨ entryPos i + entryLen ≤ x)
    (hdata : x < block * blockSize ∨ block * blockSize + data.length ≤ x) :
    (writeFile name data i block out)[x]? = out[x]? := by
  simp only [entryLen, nameLen] at hentry hname
  unfold writeFile
  rw [getElem?_overwrite_of_disjoint hdata, getElem?_overwrite_of_disjoint (by simp [nameLen]; omega),
    getElem?_overwrite_of_disjoint (by simp [nameLen]; omega), getElem?_overwrite_of_disjoint (by omega)]

lemma stored_writeFile (hzero : ∀ x, entryPos i ≤ x → x < entryPos i + nameLen → out[x]? = some 0) :
    Stored (writeFile name data i block out) i block name data := by
  obtain ⟨hn, he, hd⟩ := write_bounds hname hi hblock hout
  refine ⟨by simpa using hd, ?_, ?_, ?_, ?_⟩
  · refine window_eq_of_getElem? (fun x hx => ?_) (by simp only [length_append, length_replicate]; omega)
    unfold writeFile
    rw [getElem?_overwrite_of_disjoint (by omega), getElem?_overwrite_of_disjoint (by omega),
      getElem?_overwrite_of_disjoint (by omega), getElem?_append]
    split_ifs with hlt
    · rw [getElem?_overwrite (by omega) (by omega) (by omega), Nat.add_sub_cancel_left]
    · rw [getElem?_overwrite_of_disjoint (by omega), hzero _ (by omega) (by omega), getElem?_replicate,
        if_pos (by omega)]
  · unfold writeFile
    rw [window_overwrite_of_disjoint (by omega), window_overwrite_of_disjoint (by omega),
      window_overwrite_toLe (by rw [length_overwrite]; omega)]
  · unfold writeFile
    rw [window_overwrite_of_disjoint (by omega), window_overwrite_toLe
      (by rw [length_overwrite, length_overwrite]; omega)]
  · exact window_overwrite_self (by simpa using hd)

lemma writeFiles_cons (hlimit : block + blocksOf data < 2 ^ 32) : writeFiles ((name, data) :: files) i block out =
    writeFiles files (i + 1) (block + blocksOf data) (writeFile name data i block out) := by
  obtain ⟨hn, he, hd⟩ := write_bounds hname hi hblock hout
  have hdata := length_le_blocksOf data
  have hbytes : block * blockSize + data.length < 2 ^ 64 := by
    simp only [blockSize] at hdata ⊢
    omega
  have hmod : blocksOf data % 2 ^ 32 = blocksOf data := mod_eq_of_lt (by omega)
  simp only [entryPos] at hn he
  rw [writeFiles, copyInto_eq (by omega), ok_bind, copyInto_eq (by rw [length_overwrite, length_toLe]; omega),
    ok_bind, copyInto_eq (by rw [length_overwrite, length_overwrite, length_toLe]; omega), ok_bind,
    mul_eq (by omega), ok_bind, add_eq hbytes, ok_bind, if_neg (by simp only [length_overwrite]; omega),
    copyInto_eq (by simpa only [length_overwrite] using hd), ok_bind, hmod, add_eq hlimit, ok_bind]
  rfl

end

lemma writeFiles_stored (hstorable : ∀ file ∈ files, Storable file) (hcount : i + files.length ≤ maxFiles)
    (hblock : dirBlocks ≤ block) (hlimit : block + blocks files < 2 ^ 32)
    (hout : (block + blocks files) * blockSize ≤ out.length)
    (hzero : ∀ x, entryPos i ≤ x → x < dirBlocks * blockSize → out[x]? = some 0) :
    ∃ out', writeFiles files i block out = .ok (block + blocks files, out') ∧ out'.length = out.length ∧
      (∀ x, x < entryPos i ∨ dirBlocks * blockSize ≤ x ∧ x < block * blockSize → out'[x]? = out[x]?) ∧
      StoredFrom out' files i block := by
  induction files generalizing i block out with
  | nil => exact ⟨out, rfl, rfl, fun _ _ => rfl, trivial⟩
  | cons file files ih =>
    obtain ⟨name, data⟩ := file
    obtain ⟨hname, hnul, hdata⟩ := hstorable _ mem_cons_self
    have hblocks : blocks ((name, data) :: files) = blocksOf data + blocks files := by simp [blocks]
    rw [hblocks] at hlimit hout ⊢
    simp only [length_cons] at hcount
    have hi : i < maxFiles := by omega
    have hout' : (block + blocksOf data) * blockSize ≤ out.length := by
      simp only [add_mul] at hout ⊢
      omega
    have hentry := entryPos_le hi
    have hnext : entryPos (i + 1) = entryPos i + entryLen := by simp only [entryPos, entryLen, nameLen]; omega
    have hle := mul_le_mul_right blockSize hblock
    have hlen := length_le_blocksOf data
    have hstored : Stored (writeFile name data i block out) i block name data :=
      stored_writeFile hname hi hblock hout' fun x hl hr =>
        hzero x hl (by simp only [entryLen, nameLen] at hentry hr ⊢; omega)
    have hfits : (block + blocksOf data + blocks files) * blockSize ≤
      (writeFile name data i block out).length := by
      rw [length_writeFile, add_assoc]
      exact hout
    have hclear : ∀ x, entryPos (i + 1) ≤ x → x < dirBlocks * blockSize →
        (writeFile name data i block out)[x]? = some 0 := by
      intro x hl hr
      rw [writeFile_of_ne hname (by omega) (by omega)]
      exact hzero x (by omega) hr
    obtain ⟨out', heq, hlength, hkept, hrest⟩ := ih (fun file hfile => hstorable file (mem_cons_of_mem _ hfile))
      (by omega) (by omega) (by omega) hfits hclear
    rw [length_writeFile] at hlength
    refine ⟨out', ?_, hlength, fun x hx => ?_, ?_, hrest⟩
    · rw [writeFiles_cons hname hi hblock hout' (by omega), heq, add_assoc]
    · rw [hkept x (by simp only [add_mul]; omega), writeFile_of_ne hname (by omega) (by omega)]
    · refine hstored.congr (by rw [hlength, length_writeFile]) (fun x hl hr => ?_) fun x hl hr => ?_
      · exact hkept x (by omega)
      · exact hkept x (by simp only [add_mul]; omega)

lemma nameEq_iff {name' : String} {pad start len : ℕ} (hnul : 0 ∉ utf8 name) :
    (Entry.mk (utf8 name ++ replicate pad 0) start len).nameEq name' = true ↔ name = name' := by
  have htake : (utf8 name ++ replicate pad 0).takeWhile (· ≠ 0) = utf8 name := by
    rw [takeWhile_append_of_pos]
    · cases pad <;> simp [replicate_succ]
    · intro b hb
      simpa using ne_of_mem_of_not_mem hb hnul
  rw [Entry.nameEq, decide_eq_true_eq, nameStr_eq_some, htake, utf8, utf8, Array.toList_inj]
  constructor
  · intro h
    exact String.toByteArray_inj.mp (ByteArray.ext h)
  · rintro rfl
    rfl

structure Archive (image : Bytes) (files : List (String × Bytes)) (i block : ℕ) : Prop where
  storable : ∀ file ∈ files, Storable file
  count : i + files.length ≤ maxFiles
  limit : block + blocks files < 2 ^ 32
  dir : dirBlocks * blockSize ≤ image.length
  stored : StoredFrom image files i block

namespace Archive

lemma tail (h : Archive image ((name, data) :: files) i block) :
    Archive image files (i + 1) (block + blocksOf data) := by
  have hcount := h.count
  have hlimit := h.limit
  have hblocks : blocks ((name, data) :: files) = blocksOf data + blocks files := by simp [blocks]
  simp only [length_cons] at hcount
  exact ⟨fun file hfile => h.storable file (mem_cons_of_mem _ hfile), by omega, by omega, h.dir, h.stored.2⟩

lemma entryAt (h : Archive image ((name, data) :: files) i block) : Fs.entryAt image i =
    .ok ⟨utf8 name ++ replicate (nameLen - (utf8 name).length) 0, block, data.length⟩ := by
  obtain ⟨hstored, -⟩ := h.stored
  have hcount := h.count
  have hlimit := h.limit
  have hdata : data.length < 2 ^ 32 := (h.storable _ mem_cons_self).data
  simp only [length_cons] at hcount
  have hentry := entryPos_le (i := i) (by omega)
  rw [entryAt_eq (hentry.trans h.dir), hstored.window_name, hstored.window_block, hstored.window_len, leVal_toLe,
    leVal_toLe, mod_eq_of_lt (by omega), mod_eq_of_lt (by omega)]

variable (h : Archive image files i block)
include h

lemma checkEntries_eq : Fs.checkEntries image files.length i = .ok () := by
  induction files generalizing i block with
  | nil => rfl
  | cons file files ih =>
    obtain ⟨name, data⟩ := file
    have hfits := h.stored.1.fits
    have hlimit := h.limit
    have hdata : data.length < 2 ^ 32 := (h.storable _ mem_cons_self).data
    have hbytes : block * blockSize + data.length < 2 ^ 64 := by
      simp only [blockSize] at hdata ⊢
      omega
    rw [length_cons, Fs.checkEntries, h.entryAt, ok_bind]
    dsimp only
    rw [mul_eq (by omega), ok_bind, if_neg (by omega), if_neg (by omega), ih h.tail]

lemma find_of_mem (hnodup : (files.map Prod.fst).Nodup)
    (hmem : (name, data) ∈ files) : ∃ e, Fs.find image name files.length i = .ok (some e) ∧ e.startBlock < 2 ^ 32 ∧
      e.len = data.length ∧ e.startBlock * blockSize + data.length ≤ image.length ∧
      window image (e.startBlock * blockSize) data.length = data := by
  induction files generalizing i block with
  | nil => exact nomatch hmem
  | cons file files ih =>
    obtain ⟨name', data'⟩ := file
    have hnul := (h.storable _ mem_cons_self).nul
    have hlimit := h.limit
    obtain ⟨hnew, hnodup⟩ := nodup_cons.mp hnodup
    rw [length_cons, Fs.find, h.entryAt, ok_bind]
    rcases mem_cons.mp hmem with heq | hmem
    · cases heq
      rw [if_pos ((nameEq_iff hnul).mpr rfl)]
      exact ⟨_, rfl, by dsimp only; omega, rfl, h.stored.1.fits, h.stored.1.window_data⟩
    · rw [if_neg]
      · exact ih h.tail hnodup hmem
      · rw [nameEq_iff hnul]
        rintro rfl
        exact hnew (mem_map.mpr ⟨_, hmem, rfl⟩)

lemma find_of_not_mem (hmem : name ∉ files.map Prod.fst) :
    Fs.find image name files.length i = .ok none := by
  induction files generalizing i block with
  | nil => rfl
  | cons file files ih =>
    obtain ⟨name', data'⟩ := file
    have hnul := (h.storable _ mem_cons_self).nul
    simp only [map_cons, mem_cons, not_or] at hmem
    rw [length_cons, Fs.find, h.entryAt, ok_bind, if_neg]
    · exact ih h.tail hmem.2
    · rw [nameEq_iff hnul]
      exact fun heq => hmem.1 heq.symm

end Archive

lemma find_within {left : ℕ} (hdir : dirBlocks * blockSize ≤ image.length) (hcount : i + left ≤ maxFiles)
    (h : Fs.checkEntries image left i = .ok ()) : ∃ o, Fs.find image name left i = .ok o ∧
      ∀ e ∈ o, e.startBlock * blockSize + e.len < 2 ^ 64 ∧ e.startBlock * blockSize + e.len ≤ image.length := by
  induction left generalizing i with
  | zero => exact ⟨none, rfl, by simp⟩
  | succ left ih =>
    have hentry := entryPos_le (i := i) (by omega)
    have hentryAt := entryAt_eq (hentry.trans hdir)
    rw [Fs.checkEntries, hentryAt, ok_bind] at h
    obtain ⟨start, hstart, h⟩ := bind_eq_ok.mp h
    obtain ⟨-, rfl⟩ := mul_eq_ok.mp hstart
    split_ifs at h with hwrap hend
    rw [Fs.find, hentryAt, ok_bind]
    split_ifs
    · refine ⟨_, rfl, ?_⟩
      rintro e he
      cases he
      exact ⟨by omega, by omega⟩
    · exact ih (by omega) h

lemma parse_eq_ok {fs : Fs} (h : Fs.parse image = .ok fs) : dirBlocks * blockSize ≤ image.length ∧
    fs.image = image ∧ fs.count ≤ maxFiles ∧ Fs.checkEntries image fs.count 0 = .ok () := by
  unfold Fs.parse at h
  split_ifs at h with hlength
  obtain ⟨start, -, h⟩ := bind_eq_ok.mp h
  split_ifs at h
  obtain ⟨count, -, h⟩ := bind_eq_ok.mp h
  split_ifs at h with hcount
  obtain ⟨_, hcheck, h⟩ := bind_eq_ok.mp h
  cases h
  exact ⟨not_lt.mp hlength, rfl, not_lt.mp hcount, hcheck⟩

lemma read_ne_panic {fs : Fs} (h : Fs.parse image = .ok fs) : fs.read name ≠ .panic := by
  obtain ⟨hdir, rfl, hcount, hcheck⟩ := parse_eq_ok h
  obtain ⟨o, hfind, hwithin⟩ := find_within hdir (by omega) hcheck
  rw [Fs.read, hfind, ok_bind]
  cases o with
  | none => exact nofun
  | some e =>
    obtain ⟨hbytes, hend⟩ := hwithin e rfl
    dsimp only
    rw [mul_eq (by omega), ok_bind, add_eq hbytes, ok_bind, slice_eq_window hend]
    exact nofun

lemma checkNames_eq (h : ∀ file ∈ files, Storable file) : checkNames files = .ok () := by
  induction files with
  | nil => rfl
  | cons file files ih =>
    obtain ⟨hname, hnul, -⟩ := h file List.mem_cons_self
    refine (if_neg (not_lt.mpr hname)).trans ((if_neg hnul).trans ?_)
    exact ih fun file hfile => h file (List.mem_cons_of_mem _ hfile)

lemma writeImage_archive (hcount : files.length ≤ maxFiles) (hstorable : ∀ file ∈ files, Storable file)
    (hlimit : dirBlocks + blocks files < 2 ^ 32) (hout : out.length = imageSize files) :
    ∃ image, writeImage files out = .ok (imageSize files, image) ∧ image.length = imageSize files ∧
      window image 0 8 = magic ∧ window image 8 4 = toLe 4 files.length ∧ Archive image files 0 dirBlocks := by
  have hsize : imageSize files = (dirBlocks + blocks files) * blockSize := rfl
  have hdir : dirBlocks * blockSize ≤ out.length := by
    rw [hout, hsize]
    exact mul_le_mul_right _ (le_add_right _ _)
  have hlarge : 12 ≤ out.length := le_trans (by decide) hdir
  let header := overwrite (overwrite (replicate out.length (0 : UInt8)) 0 magic) 8 (toLe 4 files.length)
  have hheader : header.length = out.length := by simp [header]
  have hzero (x : ℕ) (hl : entryPos 0 ≤ x) (hr : x < dirBlocks * blockSize) : header[x]? = some 0 := by
    simp only [entryPos, headerLen, zero_mul, add_zero] at hl
    rw [getElem?_overwrite_of_disjoint (by simp; omega), getElem?_overwrite_of_disjoint (by simp [magic]; omega),
      getElem?_replicate, if_pos (by omega)]
  obtain ⟨image, heq, hlength, hkept, hstored⟩ := writeFiles_stored (i := 0) hstorable (by omega) le_rfl hlimit
    (by rw [hheader, hout, hsize]) hzero
  have hfirst (x : ℕ) (hx : x < 12) : image[x]? = header[x]? := hkept x (.inl hx)
  rw [hheader, hout] at hlength
  refine ⟨image, ?_, hlength, ?_, ?_, hstorable, by omega, hlimit, by rw [hlength, ← hout]; exact hdir, hstored⟩
  · have hbytes : (dirBlocks + blocks files) * blockSize < 2 ^ 64 := by
      simp only [blockSize]
      omega
    rw [writeImage, if_neg (by omega), checkNames_eq hstorable, ok_bind, copyInto_eq (by simp [magic]; omega),
      ok_bind, copyInto_eq (by simp; omega), ok_bind, heq, ok_bind]
    dsimp only
    rw [mul_eq hbytes, ok_bind]
    rfl
  · rw [window_congr fun x _ hx => hfirst x (by omega), window_overwrite_of_disjoint (by simp)]
    exact window_overwrite_self (by simp [magic]; omega)
  · rw [window_congr fun x _ hx => hfirst x (by omega), window_overwrite_toLe (by simp; omega)]

theorem archive_reads_back :
    (∀ (files : List (String × Bytes)) (out : Bytes), files.length ≤ maxFiles → (files.map Prod.fst).Nodup →
      (∀ file ∈ files, (utf8 file.1).length ≤ nameLen ∧ 0 ∉ utf8 file.1 ∧ file.2.length < 2 ^ 32) →
      imageSize files < 2 ^ 32 * blockSize → out.length = imageSize files →
      ∃ image fs, writeImage files out = .ok (imageSize files, image) ∧ image.length = imageSize files ∧
        Fs.parse image = .ok fs ∧ fs.len = files.length ∧
        (∀ name data, (name, data) ∈ files → fs.read name = .ok (some data)) ∧
        ∀ name, name ∉ files.map Prod.fst → fs.read name = .ok none) ∧
    ∀ image fs name, Fs.parse image = .ok fs → fs.read name ≠ .panic := by
  refine ⟨fun files out hcount hnodup hfiles hsize hout => ?_, fun image fs name => read_ne_panic⟩
  have hlimit : dirBlocks + blocks files < 2 ^ 32 := Nat.lt_of_mul_lt_mul_right hsize
  have hstorable (file : String × Bytes) (hfile : file ∈ files) : Storable file :=
    ⟨(hfiles file hfile).1, (hfiles file hfile).2.1, (hfiles file hfile).2.2⟩
  obtain ⟨image, heq, hlength, hmagic, hlen, harchive⟩ := writeImage_archive hcount hstorable hlimit hout
  have hdir := harchive.dir
  have hlarge : 12 ≤ image.length := le_trans (by decide) hdir
  refine ⟨image, ⟨image, files.length⟩, heq, hlength, ?_, rfl, fun name data hmem => ?_, fun name hmem => ?_⟩
  · have hmod : files.length % 256 ^ 4 = files.length := mod_eq_of_lt (hcount.trans_lt (by decide))
    have hslice : (Outcome.slice image 0 8 : Outcome Error Bytes) = .ok (window image 0 8) :=
      slice_eq_window (show 0 + 8 ≤ image.length by omega)
    rw [Fs.parse, if_neg (by omega), hslice, hmagic, ok_bind,
      if_neg (not_not.mpr rfl), u32le_eq (by omega), ok_bind, hlen, leVal_toLe, hmod, if_neg (by omega),
      harchive.checkEntries_eq]
    rfl
  · obtain ⟨e, hfind, hstart, hlen, hend, hdata⟩ := harchive.find_of_mem hnodup hmem
    have hbytes := (hfiles _ hmem).2.2
    rw [Fs.read, hfind, ok_bind]
    dsimp only
    rw [hlen, mul_eq (by simp only [blockSize]; omega), ok_bind,
      add_eq (by simp only [blockSize] at hbytes ⊢; omega), ok_bind, slice_eq_window hend, hdata]
    rfl
  · rw [Fs.read, harchive.find_of_not_mem hmem]
    rfl

def sample : List (String × Bytes) := [("motd", [0x68, 0x69]), ("empty", [])]

theorem archive_reads_back_sample : ∃ image fs, writeImage sample (List.replicate 4096 7) = .ok (4096, image) ∧
    Fs.parse image = .ok fs ∧ fs.read "motd" = .ok (some [0x68, 0x69]) ∧ fs.read "empty" = .ok (some []) ∧
    fs.read "nope" = .ok none := by
  have hsize : imageSize sample = 4096 := by decide
  obtain ⟨image, fs, hwrite, -, hparse, -, hread, hmissing⟩ := archive_reads_back.1 sample (List.replicate 4096 7)
    (by decide) (by decide) (by decide) (by decide) (by rw [hsize, List.length_replicate])
  rw [hsize] at hwrite
  exact ⟨image, fs, hwrite, hparse, hread _ _ (by decide), hread _ _ (by decide), hmissing _ (by decide)⟩

end CrickerOs.Nifefs
