import CrickerOs.Gpt.Table

namespace CrickerOs.Gpt

open Library Library.Outcome Library.Bytes Entry List

variable {block : Bytes} {pos : ℕ} {src : Bytes}

lemma le_of_blockSizeOk {len : ℕ} (h : blockSizeOk len) : 512 ≤ len := by
  simp only [blockSizeOk, decide_eq_true_eq] at h
  exact h.1

lemma ofNat_leVal64 {x : UInt64} (h : window block pos 8 = toLe 8 x.toNat) :
    UInt64.ofNat (le64 block pos) = x := by
  have := x.toNat_lt
  rw [le64, h, leVal_toLe, Nat.mod_eq_of_lt (by omega)]
  exact UInt64.ofNat_toNat

lemma ofNat_leVal32 {x : UInt32} (h : window block pos 4 = toLe 4 x.toNat) :
    UInt32.ofNat (le32 block pos) = x := by
  have := x.toNat_lt
  rw [le32, h, leVal_toLe, Nat.mod_eq_of_lt (by omega)]
  exact UInt32.ofNat_toNat

lemma guidAt_eq {g : Guid} (h : window block pos 16 = g.bytes) : guidAt block pos = g := by
  obtain ⟨bytes, hlength⟩ := g
  simp only [guidAt, h, Guid.mk.injEq]
  rw [takeD_eq_take _ (by omega), take_of_length_le (by omega)]

namespace Header

variable (h : Header)

def written (block : Bytes) : Bytes :=
  overwrite (h.encodeFields block) 16 (toLe 4 (headerCrc ((h.encodeFields block).take headerSize)))

lemma encodeInto_eq (hsize : blockSizeOk block.length) : h.encodeInto block = ok (h.written block) :=
  ensure_bind hsize

@[simp]
lemma length_encodeFields : (h.encodeFields block).length = block.length := by
  simp [encodeFields]

@[simp]
lemma length_written : (h.written block).length = block.length := by
  simp [written]

lemma fields_apart : h.fields.Pairwise Apart := by
  simp [fields, Apart, signature, h.diskGuid.length_bytes]

lemma fields_inside : ∀ field ∈ h.fields, (field.1 + field.2.length ≤ 16 ∨ 24 ≤ field.1) ∧
    field.1 + field.2.length ≤ headerSize := by
  simp [fields, signature, headerSize, h.diskGuid.length_bytes]

lemma window_written (hsize : blockSizeOk block.length) (hmem : (pos, src) ∈ h.fields) :
    window (h.written block) pos src.length = src := by
  have hlength := le_of_blockSizeOk hsize
  obtain ⟨hclear, hinside⟩ := h.fields_inside _ hmem
  dsimp only [headerSize] at hclear hinside
  rw [written, window_overwrite_of_disjoint (by rw [length_toLe]; omega)]
  refine window_layout h.fields_apart hmem ?_
  rw [length_replicate]
  omega

lemma window_written_toLe {n v : ℕ} (hsize : blockSizeOk block.length) (hmem : (pos, toLe n v) ∈ h.fields) :
    window (h.written block) pos n = toLe n v := by
  have hwindow := h.window_written hsize hmem
  rwa [length_toLe] at hwindow

lemma decodeFields_written (hsize : blockSizeOk block.length) : decodeFields (h.written block) = h := by
  have hguid : window (h.written block) 56 16 = h.diskGuid.bytes := by
    have hwindow := h.window_written hsize (show (56, h.diskGuid.bytes) ∈ h.fields by simp [fields])
    rwa [h.diskGuid.length_bytes] at hwindow
  unfold decodeFields
  rw [ofNat_leVal64 (h.window_written_toLe hsize (v := h.myLba.toNat) (by simp [fields])),
    ofNat_leVal64 (h.window_written_toLe hsize (v := h.alternateLba.toNat) (by simp [fields])),
    ofNat_leVal64 (h.window_written_toLe hsize (v := h.firstUsableLba.toNat) (by simp [fields])),
    ofNat_leVal64 (h.window_written_toLe hsize (v := h.lastUsableLba.toNat) (by simp [fields])),
    ofNat_leVal64 (h.window_written_toLe hsize (v := h.entryArrayLba.toNat) (by simp [fields])),
    ofNat_leVal32 (h.window_written_toLe hsize (v := h.entryCount.toNat) (by simp [fields])),
    ofNat_leVal32 (h.window_written_toLe hsize (v := h.entrySize.toNat) (by simp [fields])),
    ofNat_leVal32 (h.window_written_toLe hsize (v := h.entryArrayCrc.toNat) (by simp [fields])), guidAt_eq hguid]

lemma headerCrc_overwrite {l : Bytes} {n : ℕ} (hsrc : src.length = 4) :
    headerCrc ((overwrite l 16 src).take n) = headerCrc (l.take n) := by
  have htake : ((overwrite l 16 src).take n).take 16 = (l.take n).take 16 := by
    apply ext_getElem?
    intro i
    simp only [getElem?_take]
    split_ifs
    · exact getElem?_overwrite_of_disjoint (by omega)
    all_goals rfl
  have hdrop : ((overwrite l 16 src).take n).drop (16 + 4) = (l.take n).drop (16 + 4) := by
    apply ext_getElem?
    intro i
    simp only [getElem?_drop, getElem?_take]
    split_ifs
    · exact getElem?_overwrite_of_disjoint (by omega)
    · rfl
  rw [headerCrc, headerCrc, htake, hdrop]

lemma headerCrc_lt (l : Bytes) : headerCrc l < 256 ^ 4 :=
  (crc32Pieces _).toNat_lt

lemma getElem?_written {i : ℕ} (hi : i < block.length) (hclear : 20 ≤ i ∧ i < 24 ∨ headerSize ≤ i) :
    (h.written block)[i]? = some 0 := by
  have hheader : headerSize = 92 := rfl
  rw [written, getElem?_overwrite_of_disjoint (by rw [length_toLe]; omega), encodeFields,
    getElem?_layout_of_disjoint, getElem?_replicate, if_pos hi]
  intro field hfield
  have := h.fields_inside field hfield
  omega

lemma decode_eq_ok {header : Header} : decode block = ok header ↔
    blockSizeOk block.length ∧ window block 0 8 = signature ∧ le32 block 8 = revision ∧
      (headerSize ≤ le32 block 12 ∧ le32 block 12 ≤ block.length) ∧ le32 block 20 = 0 ∧
      (∀ b ∈ block.drop (le32 block 12), b = 0) ∧ le32 block 16 = headerCrc (block.take (le32 block 12)) ∧
      decodeFields block = header := by
  simp only [decode, ensure_bind_eq_ok]
  simp [pure]

lemma le32_written {v : ℕ} (hsize : blockSizeOk block.length) (hmem : (pos, toLe 4 v) ∈ h.fields)
    (hv : v < 256 ^ 4) : le32 (h.written block) pos = v := by
  rw [le32, h.window_written_toLe hsize hmem, leVal_toLe, Nat.mod_eq_of_lt hv]

lemma reserved_written (hsize : blockSizeOk block.length) : le32 (h.written block) 20 = 0 := by
  have hlength := le_of_blockSizeOk hsize
  have hzero : window (h.written block) 20 4 = replicate 4 0 := by
    refine window_eq_of_getElem? (fun i hi => ?_) le_rfl
    rw [h.getElem?_written (by omega) (by omega), getElem?_replicate, if_pos hi]
  rw [le32, hzero]
  rfl

lemma tail_written : ∀ b ∈ (h.written block).drop headerSize, b = 0 := by
  intro b hb
  obtain ⟨i, hi⟩ := mem_iff_getElem?.mp hb
  rw [getElem?_drop] at hi
  obtain ⟨hlt, -⟩ := List.getElem?_eq_some_iff.mp hi
  rw [length_written] at hlt
  rw [h.getElem?_written hlt (by omega)] at hi
  exact (Option.some.inj hi).symm

lemma crc_written (hsize : blockSizeOk block.length) :
    le32 (h.written block) 16 = headerCrc ((h.written block).take headerSize) := by
  have hlength := le_of_blockSizeOk hsize
  have hfits : 16 + 4 ≤ (h.encodeFields block).length := by
    rw [length_encodeFields]
    omega
  rw [written, headerCrc_overwrite length_toLe, le32, window_overwrite_toLe hfits, leVal_toLe,
    Nat.mod_eq_of_lt (headerCrc_lt _)]

lemma decode_written (hsize : blockSizeOk block.length) : decode (h.written block) = ok h := by
  have hsignature := h.window_written hsize (show (0, signature) ∈ h.fields by simp [fields])
  have hrevision := h.le32_written hsize (show (8, toLe 4 revision) ∈ h.fields by simp [fields]) (by decide)
  have hheader := h.le32_written hsize (show (12, toLe 4 headerSize) ∈ h.fields by simp [fields]) (by decide)
  have hfits : headerSize ≤ block.length := by
    have hlength := le_of_blockSizeOk hsize
    rw [headerSize]
    omega
  rw [decode_eq_ok, hheader, length_written]
  exact ⟨hsize, hsignature, hrevision, ⟨le_rfl, hfits⟩, h.reserved_written hsize, h.tail_written,
    h.crc_written hsize, h.decodeFields_written hsize⟩

end Header

namespace Entry

variable (e : Entry)

def fixedFields : List (ℕ × Bytes) :=
  [(0, e.typeGuid.bytes), (16, e.uniqueGuid.bytes), (32, toLe 8 e.firstLba.toNat), (40, toLe 8 e.lastLba.toNat),
    (48, toLe 8 e.attributes.toNat)]

@[simp]
lemma length_encode : e.encode.length = size := by
  rw [encode, length_layout, length_replicate]

lemma fixedFields_inside : ∀ field ∈ e.fixedFields, field.1 + field.2.length ≤ 56 := by
  simp [fixedFields, e.typeGuid.length_bytes, e.uniqueGuid.length_bytes]

lemma nameFields_inside : ∀ field ∈ e.nameFields, 56 ≤ field.1 ∧ field.1 + field.2.length ≤ size := by
  intro field hfield
  obtain ⟨i, hi, rfl⟩ := mem_mapIdx.mp hfield
  rw [e.length_name] at hi
  simp only [length_toLe, size]
  omega

lemma fields_apart : (e.fixedFields ++ e.nameFields).Pairwise Apart := by
  refine pairwise_append.mpr ⟨?_, pairwise_apart_mapIdx fun i j a b hij => ?_, fun f hf g hg => Or.inl ?_⟩
  · simp [fixedFields, Apart, e.typeGuid.length_bytes, e.uniqueGuid.length_bytes]
  · simp only [length_toLe]
    omega
  · exact (e.fixedFields_inside f hf).trans (e.nameFields_inside g hg).1

lemma window_encode (hmem : (pos, src) ∈ e.fixedFields ++ e.nameFields) :
    window e.encode pos src.length = src := by
  refine window_layout e.fields_apart hmem ?_
  rw [length_replicate]
  rcases mem_append.mp hmem with hfixed | hname
  · exact (e.fixedFields_inside _ hfixed).trans (by decide)
  · exact (e.nameFields_inside _ hname).2

lemma window_encode_toLe {n v : ℕ} (hmem : (pos, toLe n v) ∈ e.fixedFields ++ e.nameFields) :
    window e.encode pos n = toLe n v := by
  have hwindow := e.window_encode hmem
  rwa [length_toLe] at hwindow

lemma guidAt_encode {g : Guid} (hmem : (pos, g.bytes) ∈ e.fixedFields) : guidAt e.encode pos = g := by
  have hwindow := e.window_encode (mem_append_left _ hmem)
  rw [g.length_bytes] at hwindow
  exact guidAt_eq hwindow

lemma name_encode : (range 36).map (fun i => UInt16.ofNat (leVal (window e.encode (56 + i * 2) 2))) = e.name := by
  apply ext_getElem
  · rw [length_map, length_range, e.length_name]
  · intro i hi hname
    have hmem : (56 + i * 2, toLe 2 e.name[i].toNat) ∈ e.nameFields := mem_mapIdx.mpr ⟨i, hname, rfl⟩
    have := e.name[i].toNat_lt
    rw [getElem_map, getElem_range, e.window_encode_toLe (mem_append_right _ hmem), leVal_toLe,
      Nat.mod_eq_of_lt (by omega)]
    exact UInt16.ofNat_toNat

lemma decode_encode : decode e.encode = e := by
  have h64 {pos : ℕ} {x : UInt64} (hmem : (pos, toLe 8 x.toNat) ∈ e.fixedFields) :
      UInt64.ofNat (le64 e.encode pos) = x :=
    ofNat_leVal64 (e.window_encode_toLe (mem_append_left _ hmem))
  obtain ⟨type, unique, first, last, attributes, name, hname⟩ := e
  simp only [decode, mk.injEq]
  refine ⟨guidAt_encode _ ?_, guidAt_encode _ ?_, h64 ?_, h64 ?_, h64 ?_, name_encode _⟩
  all_goals simp [fixedFields]

lemma decode_zero : decode (replicate size 0) = unused := by
  decide +kernel

end Entry

section

variable {partitions : List Entry} {n i : ℕ}

def arrayOf (partitions : List Entry) (n : ℕ) : Bytes :=
  layout (List.replicate n 0) (partitions.mapIdx fun i part => (i * Entry.size, part.encode))

@[simp]
lemma length_arrayOf : (arrayOf partitions n).length = n := by
  rw [arrayOf, length_layout, length_replicate]

lemma entryOf_arrayOf (hi : (i + 1) * size ≤ n) :
    entryOf (arrayOf partitions n) size i = partitions[i]?.getD .unused := by
  have hfits : i * size + size ≤ n := by
    rwa [Nat.add_mul, Nat.one_mul] at hi
  have hgap {j k : ℕ} (hjk : j < k) : j * size + size ≤ k * size := by
    rw [← Nat.succ_mul]
    exact Nat.mul_le_mul_right _ hjk
  cases hpart : partitions[i]? with
  | some part =>
    obtain ⟨hlt, rfl⟩ := List.getElem?_eq_some_iff.mp hpart
    have hwindow : window (arrayOf partitions n) (i * size) size = partitions[i].encode := by
      have hmem : (i * size, partitions[i].encode) ∈
          partitions.mapIdx fun i part => (i * size, part.encode) := mem_mapIdx.mpr ⟨i, hlt, rfl⟩
      have hapart : (partitions.mapIdx fun i part => (i * size, part.encode)).Pairwise Apart := by
        refine pairwise_apart_mapIdx fun j k a b hjk => ?_
        rw [length_encode]
        exact hgap hjk
      have hread := window_layout hapart hmem (l := replicate n 0) (by simpa using hfits)
      rwa [length_encode] at hread
    rw [entryOf, hwindow, decode_encode]
    rfl
  | none =>
    have hle := getElem?_eq_none_iff.mp hpart
    rw [entryOf, arrayOf, window_layout_of_disjoint, window_replicate hfits, decode_zero]
    · rfl
    · intro field hfield
      obtain ⟨j, hj, rfl⟩ := mem_mapIdx.mp hfield
      rw [length_encode]
      exact Or.inr (hgap (by omega))

end

namespace Mbr

variable {blockCount : ℕ}

def fields (blockCount : ℕ) : List (ℕ × Bytes) :=
  [(records + osType, [protectiveOsType]), (records + 1, [0x00, 0x02, 0x00]), (records + 5, [0xff, 0xff, 0xff]),
    (records + startLba, toLe 4 1), (records + sizeLba, toLe 4 (protectiveSize blockCount)), (signature, [0x55]),
    (signature + 1, [0xaa])]

def written (block : Bytes) (blockCount : ℕ) : Bytes :=
  layout (List.replicate block.length 0) (fields blockCount)

lemma write_eq (hsize : blockSizeOk block.length) : write block blockCount = ok (written block blockCount) :=
  ensure_bind hsize

@[simp]
lemma length_written : (written block blockCount).length = block.length := by
  rw [written, length_layout, length_replicate]

lemma fields_apart : (fields blockCount).Pairwise Apart := by
  simp [fields, Apart, records, osType, startLba, sizeLba, signature]

lemma fields_inside : ∀ field ∈ fields blockCount, field.1 + field.2.length ≤ 512 := by
  simp [fields, records, osType, startLba, sizeLba, signature]

lemma window_written (hsize : blockSizeOk block.length) (hmem : (pos, src) ∈ fields blockCount) :
    window (written block blockCount) pos src.length = src := by
  have hlength := le_of_blockSizeOk hsize
  refine window_layout fields_apart hmem ?_
  rw [length_replicate]
  exact (fields_inside _ hmem).trans hlength

lemma osType_written (hsize : blockSizeOk block.length) {i : ℕ} (hi : 1 ≤ i ∧ i < 4) :
    window (written block blockCount) (records + i * 16 + osType) 1 = [0] := by
  have hlength := le_of_blockSizeOk hsize
  simp only [records, osType]
  rw [written, window_layout_of_disjoint, window_replicate (by omega)]
  · rfl
  · simp [fields, records, osType, startLba, sizeLba, signature]
    omega

lemma startLba_written (hsize : blockSizeOk block.length) :
    le32 (written block blockCount) (records + startLba) = 1 := by
  have hwindow := window_written hsize (show (records + startLba, toLe 4 1) ∈ fields blockCount by simp [fields])
  rw [length_toLe] at hwindow
  rw [le32, hwindow, leVal_toLe]
  rfl

lemma sizeLba_written (hsize : blockSizeOk block.length) :
    le32 (written block blockCount) (records + sizeLba) = protectiveSize blockCount := by
  have hwindow := window_written hsize
    (show (records + sizeLba, toLe 4 (protectiveSize blockCount)) ∈ fields blockCount by simp [fields])
  have hlt : protectiveSize blockCount < 256 ^ 4 := by
    unfold protectiveSize
    omega
  rw [length_toLe] at hwindow
  rw [le32, hwindow, leVal_toLe, Nat.mod_eq_of_lt hlt]

lemma validate_written (hsize : blockSizeOk block.length) :
    validate (written block blockCount) blockCount = ok () := by
  have hlow := window_written hsize (show (signature, [0x55]) ∈ fields blockCount by simp [fields])
  have hhigh := window_written hsize (show (signature + 1, [0xaa]) ∈ fields blockCount by simp [fields])
  have htype := window_written hsize (show (records + osType, [protectiveOsType]) ∈
    fields blockCount by simp [fields])
  have hfind : (range 4).find? (fun i => window (written block blockCount) (records + i * 16 + osType) 1 =
      [protectiveOsType]) = some 0 := by
    rw [range_eq_range', range'_succ, find?_cons_of_pos]
    simpa using htype
  have hextra : (range 4).find? (fun j => j ≠ 0 ∧
      window (written block blockCount) (records + j * 16 + osType) 1 ≠ [0x00]) = none := by
    rw [find?_eq_none]
    intro j hj
    have hlt := mem_range.mp hj
    simp only [decide_eq_true_eq, not_and, not_not]
    exact fun hne => osType_written hsize ⟨Nat.pos_of_ne_zero hne, hlt⟩
  rw [validate, ensure_bind (by simpa using hsize), ensure_bind ⟨hlow, hhigh⟩]
  simp only [hfind, hextra, Nat.zero_mul, Nat.add_zero, startLba_written hsize, sizeLba_written hsize]
  rfl

end Mbr

end CrickerOs.Gpt
