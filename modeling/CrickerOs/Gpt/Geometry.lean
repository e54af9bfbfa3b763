import CrickerOs.Gpt.Encoding

namespace CrickerOs

open Library Library.Outcome Library.Bytes

namespace Gpt

def Entry.extent (e : Entry) : Set ℕ := Set.Icc e.firstLba.toNat e.lastLba.toNat

variable {entries supplied : Bytes} {header : Header} {size i j left : ℕ}

lemma checkEntryArray_eq_ok : checkEntryArray header supplied = ok entries ↔
    (Entry.size ≤ header.entrySize.toNat ∧ header.entrySize.toNat % 8 = 0) ∧ header.entryCount ≠ 0 ∧
      header.entryArrayBytes ≤ supplied.length ∧ crc32 (supplied.take header.entryArrayBytes) =
      header.entryArrayCrc ∧ supplied.take header.entryArrayBytes = entries := by
  simp only [checkEntryArray, ensure_bind_eq_ok]
  simp [pure]

lemma checkOverlaps_eq_ok : checkOverlaps entries size i left j = ok () ↔
    ∀ k, j ≤ k → k < j + left → ¬ (entryOf entries size i).overlaps (entryOf entries size k) := by
  induction left generalizing j with
  | zero =>
    refine ⟨fun _ k hl hr => ?_, fun _ => rfl⟩
    omega
  | succ left ih =>
    rw [checkOverlaps]
    split_ifs with h
    · refine ⟨fun h => (nomatch h), fun hall => ?_⟩
      exact absurd h (hall j le_rfl (by omega))
    · rw [ih]
      refine ⟨fun hall k hl hr => ?_, fun hall k hl hr => hall k (by omega) (by omega)⟩
      rcases hl.eq_or_lt with rfl | hl
      · exact h
      · exact hall k hl (by omega)

structure Placed (entries : Bytes) (size : ℕ) (header : Header) (count i : ℕ) : Prop where
  first_le_last : (entryOf entries size i).firstLba ≤ (entryOf entries size i).lastLba
  usable : header.firstUsableLba ≤ (entryOf entries size i).firstLba ∧
    (entryOf entries size i).lastLba ≤ header.lastUsableLba
  apart : ∀ k, i < k → k < count → ¬ (entryOf entries size i).overlaps (entryOf entries size k)

lemma checkFrom_eq_ok : checkFrom entries size header left i = ok () ↔
    ∀ k, i ≤ k → k < i + left → (entryOf entries size k).isUsed → Placed entries size header (i + left) k := by
  induction left generalizing i with
  | zero =>
    refine ⟨fun _ k hl hr => ?_, fun _ => rfl⟩
    omega
  | succ left ih =>
    have hcount : i + 1 + left = i + (left + 1) := by omega
    rw [checkFrom]
    split_ifs with hunused
    · rw [ih, hcount]
      refine ⟨fun hall k hl hr hused => ?_, fun hall k hl hr => hall k (by omega) hr⟩
      rcases hl.eq_or_lt with rfl | hl
      · simp [hused] at hunused
      · exact hall k hl hr hused
    · rw [ensure_bind_eq_ok, ensure_bind_eq_ok, bind_eq_ok]
      constructor
      · rintro ⟨hrange, husable, ⟨⟩, hoverlaps, hrest⟩ k hl hr hused
        rw [ih, hcount] at hrest
        rcases hl.eq_or_lt with rfl | hl
        · refine ⟨hrange, husable, fun k hlt hk => ?_⟩
          exact checkOverlaps_eq_ok.mp hoverlaps k hlt (by omega)
        · exact hrest k hl hr hused
      · intro hall
        have hplaced := hall i le_rfl (by omega) (by simpa using hunused)
        refine ⟨hplaced.first_le_last, hplaced.usable, (), ?_, ?_⟩
        · refine checkOverlaps_eq_ok.mpr fun k hl hr => hplaced.apart k hl (by omega)
        · rw [ih, hcount]
          exact fun k hl hr => hall k (by omega) hr

lemma checkPartitions_eq_ok : checkPartitions entries size header = ok () ↔
    ∀ k < entries.length / size, (entryOf entries size k).isUsed →
      Placed entries size header (entries.length / size) k := by
  rw [checkPartitions, checkFrom_eq_ok, Nat.zero_add]
  exact ⟨fun h k => h k (Nat.zero_le k), fun h k _ => h k⟩

structure Laid (gpt : Gpt) : Prop where
  block_size : blockSizeOk gpt.blockSize
  my_lba : gpt.header.myLba.toNat = primaryHeaderLba
  checked : checkEntryArray gpt.header gpt.entries = ok gpt.entries
  first_le_last : gpt.firstUsableLba ≤ gpt.lastUsableLba
  after_header : primaryHeaderLba < gpt.primaryEntryLba
  before_usable : gpt.primaryEntryLba + gpt.entryArrayBlocks ≤ gpt.firstUsableLba
  after_usable : gpt.lastUsableLba + gpt.entryArrayBlocks < gpt.backupHeaderLba
  count_lt : gpt.backupHeaderLba + 1 < 2 ^ 64
  placed : checkPartitions gpt.entries gpt.header.entrySize.toNat gpt.header = ok ()

def tables (gpt : Gpt) (lba : ℕ) : List (Set ℕ) :=
  [{0}, {primaryHeaderLba}, Set.Ico gpt.primaryEntryLba (gpt.primaryEntryLba + gpt.entryArrayBlocks),
    Set.Ico lba (lba + gpt.entryArrayBlocks), {gpt.backupHeaderLba}]

def usable (gpt : Gpt) : Set ℕ := Set.Icc gpt.firstUsableLba gpt.lastUsableLba

lemma parse_laid {block array : Bytes} {gpt : Gpt} (h : parse block array = ok gpt) :
    Laid gpt ∧ Header.decode block = ok gpt.header ∧ gpt.entries = array.take gpt.header.entryArrayBytes := by
  obtain ⟨header, hdecode, h⟩ := bind_eq_ok.mp h
  obtain ⟨hmy, h⟩ := ensure_bind_eq_ok.mp h
  obtain ⟨trimmed, hchecked, h⟩ := bind_eq_ok.mp h
  obtain ⟨hcount, h⟩ := ensure_bind_eq_ok.mp h
  obtain ⟨hrange, h⟩ := ensure_bind_eq_ok.mp h
  obtain ⟨-, h⟩ := ensure_bind_eq_ok.mp h
  obtain ⟨-, h⟩ := ensure_bind_eq_ok.mp h
  obtain ⟨⟨hafter, hbefore, hreserved, hlast⟩, h⟩ := ensure_bind_eq_ok.mp h
  obtain ⟨⟨⟩, hplaced, h⟩ := bind_eq_ok.mp h
  obtain rfl : (⟨header, trimmed, block.length⟩ : Gpt) = gpt := Outcome.ok.inj h
  obtain ⟨hsize, hnonempty, hlength, hcrc, htrimmed⟩ := checkEntryArray_eq_ok.mp hchecked
  have htrimmed_length : trimmed.length = header.entryArrayBytes := by
    rw [← htrimmed, List.length_take, min_eq_left hlength]
  have htake : trimmed.take header.entryArrayBytes = trimmed := List.take_of_length_le htrimmed_length.le
  have hblocks : divCeil trimmed.length block.length = arrayBlocks header block.length := by
    rw [htrimmed_length, arrayBlocks]
  refine ⟨⟨(Header.decode_eq_ok.mp hdecode).1, hmy, ?_, hrange, hafter, ?_, ?_, hcount, hplaced⟩, hdecode,
    htrimmed.symm⟩
  · rw [htrimmed] at hcrc
    exact checkEntryArray_eq_ok.mpr ⟨hsize, hnonempty, htrimmed_length.ge, by rwa [htake], htake⟩
  · simp only [entryArrayBlocks, hblocks]
    exact hbefore
  · simp only [entryArrayBlocks, hblocks, lastUsableLba, backupHeaderLba]
    omega

namespace Laid

variable {gpt : Gpt} (hlaid : Laid gpt)

include hlaid

lemma size_le : Entry.size ≤ gpt.header.entrySize.toNat :=
  (checkEntryArray_eq_ok.mp hlaid.checked).1.1

lemma length_entries : gpt.entries.length = gpt.header.entryArrayBytes := by
  obtain ⟨-, -, hle, -, htake⟩ := checkEntryArray_eq_ok.mp hlaid.checked
  rw [← htake, List.length_take, min_eq_left hle]

lemma count_eq : gpt.entries.length / gpt.header.entrySize.toNat = gpt.entryCount := by
  have hsize := hlaid.size_le
  rw [hlaid.length_entries, Header.entryArrayBytes]
  apply Nat.mul_div_cancel
  exact lt_of_lt_of_le (by decide) hsize

lemma entry_eq (hi : i < gpt.entryCount) : gpt.entry i =
    some (entryOf gpt.entries gpt.header.entrySize.toNat i) := by
  have hsize := hlaid.size_le
  have hlength := hlaid.length_entries
  have hfits : (i + 1) * gpt.header.entrySize.toNat ≤ gpt.entries.length := by
    rw [hlength]
    exact Nat.mul_le_mul_right _ hi
  have hlt : gpt.entries.length < 2 ^ 64 := by
    have hpow : (2 : ℕ) ^ 64 = 2 ^ 32 * 2 ^ 32 := by norm_num
    rw [hlength, hpow]
    exact Nat.mul_lt_mul'' gpt.header.entryCount.toNat_lt gpt.header.entrySize.toNat_lt
  rw [Nat.add_mul, Nat.one_mul] at hfits
  exact if_pos ⟨by omega, by omega, by omega⟩

variable {p : ℕ × Entry}

lemma mem_partitions : p ∈ gpt.partitions ↔
    p.1 < gpt.entryCount ∧ p.2 = entryOf gpt.entries gpt.header.entrySize.toNat p.1 ∧ p.2.isUsed := by
  obtain ⟨i, e⟩ := p
  simp only [partitions, List.mem_filterMap, List.mem_range]
  constructor
  · rintro ⟨k, hk, hfound⟩
    rw [hlaid.entry_eq hk, Option.bind_some] at hfound
    split_ifs at hfound with hused
    cases hfound
    exact ⟨hk, rfl, hused⟩
  · rintro ⟨hi, rfl, hused⟩
    refine ⟨i, hi, ?_⟩
    rw [hlaid.entry_eq hi, Option.bind_some, if_pos hused]

omit hlaid in
lemma partitions_increasing : gpt.partitions.Pairwise fun p q => p.1 < q.1 := by
  refine List.Pairwise.filterMap _ (fun i j hij p hp q hq => ?_) List.pairwise_lt_range
  have hfst : ∀ {k : ℕ} {r : ℕ × Entry},
      ((gpt.entry k).bind fun e => if e.isUsed then some (k, e) else none) = some r → r.1 = k := by
    intro k r hr
    obtain ⟨e, -, hr⟩ := Option.bind_eq_some_iff.mp hr
    split_ifs at hr
    rw [← Option.some.inj hr]
  rwa [hfst hp, hfst hq]

lemma placed_of_mem (hp : p ∈ gpt.partitions) :
    Placed gpt.entries gpt.header.entrySize.toNat gpt.header gpt.entryCount p.1 := by
  obtain ⟨hi, he, hused⟩ := hlaid.mem_partitions.mp hp
  have hplaced := checkPartitions_eq_ok.mp hlaid.placed
  rw [hlaid.count_eq] at hplaced
  exact hplaced p.1 hi (he ▸ hused)

lemma extent_usable (hp : p ∈ gpt.partitions) : p.2.extent.Nonempty ∧ p.2.extent ⊆ gpt.usable := by
  obtain ⟨hrange, husable, -⟩ := hlaid.placed_of_mem hp
  obtain ⟨-, he, -⟩ := hlaid.mem_partitions.mp hp
  rw [← he] at hrange husable
  refine ⟨Set.nonempty_Icc.mpr hrange, ?_⟩
  exact Set.Icc_subset_Icc husable.1 husable.2

lemma extents_disjoint : gpt.partitions.Pairwise fun p q => Disjoint p.2.extent q.2.extent := by
  refine partitions_increasing.imp_of_mem fun {p q} hp hq hlt => ?_
  obtain ⟨-, hep, hpused⟩ := hlaid.mem_partitions.mp hp
  obtain ⟨hj, heq, hqused⟩ := hlaid.mem_partitions.mp hq
  have hapart := (hlaid.placed_of_mem hp).apart q.1 hlt hj
  rw [← hep, ← heq] at hapart
  rw [Set.disjoint_left]
  rintro b ⟨hpl, hpr⟩ ⟨hql, hqr⟩
  apply hapart
  simp only [Entry.overlaps, hpused, hqused, Bool.and_eq_true, decide_eq_true_eq, UInt64.le_iff_toNat_le, true_and]
  exact ⟨hpl.trans hqr, hql.trans hpr⟩

lemma backupEntryLba_eq : gpt.backupEntryLba = ok (gpt.backupHeaderLba - gpt.entryArrayBlocks) := by
  have := hlaid.after_usable
  exact if_pos (show gpt.entryArrayBlocks ≤ gpt.backupHeaderLba by omega)

lemma blockCount_eq : gpt.blockCount = ok (gpt.backupHeaderLba + 1) :=
  add_eq hlaid.count_lt

lemma tables_apart : (gpt.usable :: gpt.tables (gpt.backupHeaderLba - gpt.entryArrayBlocks)).Pairwise Disjoint ∧
    ∀ s ∈ gpt.usable :: gpt.tables (gpt.backupHeaderLba - gpt.entryArrayBlocks),
    s ⊆ Set.Iio (gpt.backupHeaderLba + 1) := by
  have hrange := hlaid.first_le_last
  have hafter := hlaid.after_header
  have hbefore := hlaid.before_usable
  have hlast := hlaid.after_usable
  have hone : primaryHeaderLba = 1 := rfl
  constructor
  · simp only [tables, usable, List.pairwise_cons, List.forall_mem_cons, List.not_mem_nil, false_imp_iff,
      implies_true, List.Pairwise.nil, and_true, Set.disjoint_left, Set.mem_Icc, Set.mem_Ico,
      Set.mem_singleton_iff]
    and_intros <;> intros <;> omega
  · simp only [tables, usable, List.forall_mem_cons, List.not_mem_nil, false_imp_iff, implies_true, and_true,
      Set.subset_def, Set.mem_Icc, Set.mem_Ico, Set.mem_singleton_iff, Set.mem_Iio]
    and_intros <;> intros <;> omega

lemma parse_written {block : Bytes} (hblock : block.length = gpt.blockSize) :
    parse (gpt.header.written block) gpt.entries = ok gpt := by
  have hafter := hlaid.after_header
  have hbefore := hlaid.before_usable
  have hrange := hlaid.first_le_last
  have hlast := hlaid.after_usable
  have hcount := hlaid.count_lt
  have hblocks : arrayBlocks gpt.header (gpt.header.written block).length = gpt.entryArrayBlocks := by
    rw [Header.length_written, hblock, arrayBlocks, ← hlaid.length_entries, entryArrayBlocks]
  have hdecode : Header.decode (gpt.header.written block) = ok gpt.header :=
    gpt.header.decode_written (hblock ▸ hlaid.block_size)
  have hgpt : (⟨gpt.header, gpt.entries, (gpt.header.written block).length⟩ : Gpt) = gpt := by
    rw [Header.length_written, hblock]
  simp only [firstUsableLba, lastUsableLba, backupHeaderLba, primaryEntryLba] at hafter hbefore hrange hlast hcount
  refine bind_eq_ok.mpr ⟨_, hdecode, ensure_bind_eq_ok.mpr ⟨hlaid.my_lba, ?_⟩⟩
  refine bind_eq_ok.mpr ⟨_, hlaid.checked, ?_⟩
  simp only [hblocks, hgpt]
  refine ensure_bind_eq_ok.mpr ⟨hcount, ensure_bind_eq_ok.mpr ⟨hrange, ?_⟩⟩
  refine ensure_bind_eq_ok.mpr ⟨by omega, ensure_bind_eq_ok.mpr ⟨by omega, ?_⟩⟩
  refine ensure_bind_eq_ok.mpr ⟨⟨hafter, hbefore, by omega, by omega⟩, ?_⟩
  exact bind_eq_ok.mpr ⟨(), hlaid.placed, rfl⟩

end Laid

lemma encodeInto_ne_panic (h : Header) (block : Bytes) : h.encodeInto block ≠ panic := by
  unfold Header.encodeInto ensure
  split_ifs <;> simp [pure]

section

variable {diskGuid : Guid} {blockSize : ℕ} {blockCount : UInt64} {parts : List Entry} {buffer : Bytes} {gpt : Gpt}

def built (diskGuid : Guid) (blockSize : ℕ) (blockCount : UInt64) (parts : List Entry) (buffer : Bytes) : Gpt where
  header :=
    { myLba := .ofNat primaryHeaderLba
      alternateLba := .ofNat (blockCount.toNat - 1)
      firstUsableLba := .ofNat (primaryHeaderLba + 1 + divCeil buffer.length blockSize)
      lastUsableLba := .ofNat (blockCount.toNat - divCeil buffer.length blockSize - 2)
      diskGuid := diskGuid
      entryArrayLba := .ofNat (primaryHeaderLba + 1)
      entryCount := .ofNat (buffer.length / Entry.size)
      entrySize := .ofNat Entry.size
      entryArrayCrc := crc32 (arrayOf parts buffer.length) }
  entries := arrayOf parts buffer.length
  blockSize := blockSize

structure Fits (blockSize : ℕ) (blockCount : UInt64) (parts : List Entry) (buffer : Bytes) : Prop where
  block_size : blockSizeOk blockSize
  shape : Entry.size ≤ buffer.length ∧ buffer.length % Entry.size = 0
  room : parts.length ≤ (UInt32.ofNat (buffer.length / Entry.size)).toNat
  disk : primaryHeaderLba + 1 + divCeil buffer.length blockSize + divCeil buffer.length blockSize + 2 ≤
    blockCount.toNat

lemma create_eq_ok : create diskGuid blockSize blockCount parts buffer = ok gpt ↔
    Fits blockSize blockCount parts buffer ∧
      checkPartitions (arrayOf parts buffer.length) Entry.size
        (built diskGuid blockSize blockCount parts buffer).header = ok () ∧
      built diskGuid blockSize blockCount parts buffer = gpt := by
  have hcount := blockCount.toNat_lt
  constructor
  · intro h
    obtain ⟨hsize, h⟩ := ensure_bind_eq_ok.mp h
    obtain ⟨hshape, h⟩ := ensure_bind_eq_ok.mp h
    obtain ⟨hroom, h⟩ := ensure_bind_eq_ok.mp h
    obtain ⟨first, hfirst, h⟩ := bind_eq_ok.mp h
    obtain ⟨backup, hbackup, h⟩ := bind_eq_ok.mp h
    obtain ⟨need, hneed, h⟩ := bind_eq_ok.mp h
    obtain ⟨-, rfl⟩ := add_eq_ok.mp hfirst
    obtain ⟨-, rfl⟩ := add_eq_ok.mp hbackup
    obtain ⟨-, rfl⟩ := add_eq_ok.mp hneed
    obtain ⟨hdisk, h⟩ := ensure_bind_eq_ok.mp h
    obtain ⟨⟨⟩, hplaced, h⟩ := bind_eq_ok.mp h
    exact ⟨⟨hsize, hshape, hroom, hdisk⟩, hplaced, Outcome.ok.inj h⟩
  · rintro ⟨⟨hsize, hshape, hroom, hdisk⟩, hplaced, rfl⟩
    refine ensure_bind_eq_ok.mpr ⟨hsize, ensure_bind_eq_ok.mpr ⟨hshape, ensure_bind_eq_ok.mpr ⟨hroom, ?_⟩⟩⟩
    refine bind_eq_ok.mpr ⟨_, add_eq (by omega), bind_eq_ok.mpr ⟨_, add_eq (by omega), ?_⟩⟩
    refine bind_eq_ok.mpr ⟨_, add_eq (by omega), ensure_bind_eq_ok.mpr ⟨hdisk, ?_⟩⟩
    exact bind_eq_ok.mpr ⟨(), hplaced, rfl⟩

lemma toNat_ofNat {n : ℕ} (h : n < 2 ^ 64) : (UInt64.ofNat n).toNat = n :=
  UInt64.toNat_ofNat_of_lt h

lemma entryCount_built (hlength : buffer.length < 2 ^ 39) :
    (UInt32.ofNat (buffer.length / Entry.size)).toNat = buffer.length / Entry.size := by
  apply UInt32.toNat_ofNat_of_lt
  simp only [Entry.size, UInt32.size]
  omega

section

variable (hfits : Fits blockSize blockCount parts buffer)
include hfits

variable (hlength : buffer.length < 2 ^ 39)
include hlength

lemma entryArrayBytes_built :
    (built diskGuid blockSize blockCount parts buffer).header.entryArrayBytes = buffer.length := by
  have hsize : (UInt32.ofNat Entry.size).toNat = Entry.size := rfl
  simp only [Header.entryArrayBytes, built]
  rw [entryCount_built hlength, hsize]
  exact Nat.div_mul_cancel (Nat.dvd_of_mod_eq_zero hfits.shape.2)

lemma built_checked :
    checkEntryArray (built diskGuid blockSize blockCount parts buffer).header (arrayOf parts buffer.length) =
      ok (arrayOf parts buffer.length) := by
  have htake : (arrayOf parts buffer.length).take buffer.length = arrayOf parts buffer.length :=
    List.take_of_length_le length_arrayOf.le
  have hcount : UInt32.ofNat (buffer.length / Entry.size) ≠ 0 := by
    intro hzero
    have hpos := Nat.div_pos hfits.shape.1 (by decide)
    rw [← entryCount_built hlength, hzero] at hpos
    exact absurd hpos (by decide)
  have hsize : (built diskGuid blockSize blockCount parts buffer).header.entrySize.toNat = Entry.size := rfl
  rw [checkEntryArray_eq_ok, entryArrayBytes_built hfits hlength, htake, hsize]
  exact ⟨⟨le_rfl, by decide⟩, hcount, length_arrayOf.ge, rfl, rfl⟩

lemma built_laid
    (hplaced : checkPartitions (arrayOf parts buffer.length) Entry.size
      (built diskGuid blockSize blockCount parts buffer).header = ok ()) :
    Laid (built diskGuid blockSize blockCount parts buffer) := by
  have hdisk := hfits.disk
  have hlt := blockCount.toNat_lt
  have hone : primaryHeaderLba = 1 := rfl
  have hblocks : (built diskGuid blockSize blockCount parts buffer).entryArrayBlocks =
    divCeil buffer.length blockSize := by
    simp [entryArrayBlocks, built]
  have hfirst : (built diskGuid blockSize blockCount parts buffer).firstUsableLba =
      primaryHeaderLba + 1 + divCeil buffer.length blockSize := toNat_ofNat (by omega)
  have hlast : (built diskGuid blockSize blockCount parts buffer).lastUsableLba =
      blockCount.toNat - divCeil buffer.length blockSize - 2 := toNat_ofNat (by omega)
  have hbackup : (built diskGuid blockSize blockCount parts buffer).backupHeaderLba = blockCount.toNat - 1 :=
    toNat_ofNat (by omega)
  have hprimary : (built diskGuid blockSize blockCount parts buffer).primaryEntryLba = primaryHeaderLba + 1 := rfl
  refine ⟨hfits.block_size, rfl, built_checked hfits hlength, ?_, ?_, ?_, ?_, ?_, hplaced⟩
  all_goals omega

end

lemma create_laid (hlength : buffer.length < 2 ^ 39) (h : create diskGuid blockSize blockCount parts buffer =
    ok gpt) : Laid gpt := by
  obtain ⟨hfits, hplaced, rfl⟩ := create_eq_ok.mp h
  exact built_laid hfits hlength hplaced

end

/-- A table that is read keeps its partitions apart from each other and from the tables, and reports just the
entries in use. -/
theorem partitions_keep_apart (block array : Bytes) (gpt : Gpt) (h : parse block array = ok gpt) :
    (∀ p ∈ gpt.partitions, p.2.extent.Nonempty ∧ p.2.extent ⊆ gpt.usable) ∧
      (gpt.partitions.Pairwise fun p q => Disjoint p.2.extent q.2.extent) ∧
      (∃ count lba, gpt.blockCount = ok count ∧ gpt.backupEntryLba = ok lba ∧ lba < 2 ^ 64 ∧
        ∀ p ∈ gpt.partitions, ∀ s ∈ gpt.tables lba, Disjoint p.2.extent s) ∧
      (gpt.entries = array.take gpt.header.entryArrayBytes ∧ gpt.entries.length = gpt.header.entryArrayBytes) ∧
      (∀ p, p ∈ gpt.partitions ↔ p.1 < gpt.entryCount ∧
        p.2 = entryOf gpt.entries gpt.header.entrySize.toNat p.1 ∧ p.2.isUsed) ∧
      (gpt.partitions.Pairwise fun p q => p.1 < q.1) ∧
      ∀ out, gpt.writePrimaryHeader out ≠ panic ∧ gpt.writeBackupHeader out ≠ panic := by
  obtain ⟨hlaid, -, hentries⟩ := parse_laid h
  have hlba := hlaid.backupEntryLba_eq
  refine ⟨fun p hp => hlaid.extent_usable hp, hlaid.extents_disjoint, ?_, ⟨hentries, hlaid.length_entries⟩,
    fun p => hlaid.mem_partitions, Laid.partitions_increasing, fun out => ⟨encodeInto_ne_panic _ _, ?_⟩⟩
  · refine ⟨_, _, hlaid.blockCount_eq, hlba, ?_, fun p hp s hs => ?_⟩
    · have := hlaid.count_lt
      omega
    · have hapart := (List.pairwise_cons.mp hlaid.tables_apart.1).1 s hs
      exact hapart.mono_left (hlaid.extent_usable hp).2
  · rw [writeBackupHeader, hlba, ok_bind]
    exact encodeInto_ne_panic _ _

def sampleGuid : Guid := ⟨List.replicate 16 1, rfl⟩

lemma length_blank : (List.replicate 36 (0 : UInt16)).length = 36 := rfl

def samplePart : Entry := ⟨sampleGuid, sampleGuid, 4, 500, 0, List.replicate 36 0, length_blank⟩

def sampleBuffer : Bytes := List.replicate 256 0

def sample : Gpt := built sampleGuid 512 600 [samplePart] sampleBuffer

lemma length_sampleBuffer : sampleBuffer.length = 256 := List.length_replicate

lemma entryOf_sample {k : ℕ} (hk : k < 2) :
    entryOf (arrayOf [samplePart] 256) Entry.size k = [samplePart][k]?.getD .unused := by
  refine entryOf_arrayOf ?_
  simp only [Entry.size]
  omega

lemma sample_created : create sampleGuid 512 600 [samplePart] sampleBuffer = ok sample := by
  refine create_eq_ok.mpr ⟨⟨by decide, ?_, ?_, ?_⟩, ?_, rfl⟩
  · rw [length_sampleBuffer]
    decide
  · rw [length_sampleBuffer]
    decide
  · rw [length_sampleBuffer]
    decide
  · rw [length_sampleBuffer, checkPartitions_eq_ok, length_arrayOf]
    have hcount : 256 / Entry.size = 2 := rfl
    rw [hcount]
    intro k hk hused
    rw [entryOf_sample hk] at hused
    obtain rfl | rfl : k = 0 ∨ k = 1 := by omega
    · have hzero := entryOf_sample (show 0 < 2 by decide)
      refine ⟨?_, ?_, fun j hj hlt => ?_⟩
      · rw [hzero]
        decide
      · rw [hzero]
        simp only [built, length_sampleBuffer]
        decide
      · obtain rfl : j = 1 := by omega
        rw [hzero, entryOf_sample (show 1 < 2 by decide)]
        decide
    · exact absurd hused (by decide)

theorem partitions_keep_apart_sample : parse (sample.header.written (List.replicate 512 0)) sample.entries =
    ok sample ∧ (0, samplePart) ∈ sample.partitions ∧ ∃ lba, sample.backupEntryLba = ok lba ∧
      ∀ s ∈ sample.tables lba, Disjoint samplePart.extent s := by
  have hlaid := create_laid (by rw [length_sampleBuffer]; decide) sample_created
  have hparse : parse (sample.header.written (List.replicate 512 0)) sample.entries = ok sample :=
    hlaid.parse_written List.length_replicate
  obtain ⟨-, -, ⟨-, lba, -, hlba, -, htables⟩, -, hmem, -⟩ := partitions_keep_apart _ _ sample hparse
  have hentry : samplePart = entryOf sample.entries sample.header.entrySize.toNat 0 := by
    simp only [sample, built, length_sampleBuffer]
    exact (entryOf_sample (show 0 < 2 by decide)).symm
  have hcount : 0 < sample.entryCount := by
    simp only [entryCount, sample, built, length_sampleBuffer]
    decide
  have hpart : (0, samplePart) ∈ sample.partitions := (hmem _).mpr ⟨hcount, hentry, by decide⟩
  exact ⟨hparse, hpart, lba, hlba, fun s hs => htables _ hpart s hs⟩

end Gpt

end CrickerOs
