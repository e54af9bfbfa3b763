import CrickerOs.Gpt.Geometry

namespace CrickerOs.Gpt

open Library Library.Outcome Library.Bytes

variable {gpt : Gpt} {block : Bytes}

def backupHeader (gpt : Gpt) : Header :=
  { gpt.header with
    myLba := gpt.header.alternateLba
    alternateLba := gpt.header.myLba
    entryArrayLba := .ofNat (gpt.backupHeaderLba - gpt.entryArrayBlocks) }

lemma Laid.writeBackupHeader_eq (hlaid : Laid gpt) (hblock : block.length = gpt.blockSize) :
    gpt.writeBackupHeader block = ok (gpt.backupHeader.written block) := by
  rw [writeBackupHeader, hlaid.backupEntryLba_eq, ok_bind]
  exact Header.encodeInto_eq _ (hblock ▸ hlaid.block_size)

lemma Laid.checkBackup_written (hlaid : Laid gpt) (hblock : block.length = gpt.blockSize) :
    gpt.checkBackup (gpt.backupHeader.written block) gpt.entries = ok () := by
  have hdecode : Header.decode (gpt.backupHeader.written block) = ok gpt.backupHeader :=
    gpt.backupHeader.decode_written (hblock ▸ hlaid.block_size)
  have hlba : gpt.backupHeader.entryArrayLba.toNat = gpt.backupHeaderLba - gpt.entryArrayBlocks := by
    have := hlaid.count_lt
    exact toNat_ofNat (by omega)
  -- The array checks read only the fields the two headers share.
  have hchecked : checkEntryArray gpt.backupHeader gpt.entries = ok gpt.entries := hlaid.checked
  rw [checkBackup, hdecode, ok_bind]
  -- Each of the eight comparisons is between a field and itself.
  iterate 8 refine (ensure_bind rfl).trans ?_
  rw [hlaid.backupEntryLba_eq, ok_bind, ensure_bind hlba, hchecked, ok_bind]
  rfl

lemma Laid.checkProtectiveMbr_written (hlaid : Laid gpt) (hblock : block.length = gpt.blockSize) :
    ∃ out, gpt.writeProtectiveMbr block = ok out ∧ gpt.checkProtectiveMbr out = ok () := by
  have hsize : blockSizeOk block.length := hblock ▸ hlaid.block_size
  refine ⟨Mbr.written block (gpt.backupHeaderLba + 1), ?_, ?_⟩
  · rw [writeProtectiveMbr, hlaid.blockCount_eq, ok_bind]
    exact Mbr.write_eq hsize
  · rw [checkProtectiveMbr, hlaid.blockCount_eq, ok_bind]
    exact Mbr.validate_written hsize

variable {diskGuid : Guid} {blockSize : ℕ} {blockCount : UInt64} {parts : List Entry} {buffer : Bytes}

lemma entry_built (hlength : buffer.length < 2 ^ 39)
    (hlaid : Laid (built diskGuid blockSize blockCount parts buffer)) {i : ℕ}
    (hi : i < (built diskGuid blockSize blockCount parts buffer).entryCount) :
    (built diskGuid blockSize blockCount parts buffer).entry i = some (parts[i]?.getD .unused) := by
  have hcount : (built diskGuid blockSize blockCount parts buffer).entryCount = buffer.length / Entry.size :=
    entryCount_built hlength
  have hinside : (i + 1) * Entry.size ≤ buffer.length := by
    rw [hcount] at hi
    exact (Nat.mul_le_mul_right _ hi).trans (Nat.div_mul_le_self _ _)
  rw [hlaid.entry_eq hi]
  exact congrArg some (entryOf_arrayOf hinside)

/-- What `create` builds is accepted once it is written: the primary header with the array, the backup, and the
protective record; and its six extents lie apart on the disk. -/
theorem created_table_reads_back (diskGuid : Guid) (blockSize : ℕ) (blockCount : UInt64) (parts : List Entry)
    (buffer : Bytes) (gpt : Gpt) (hlength : buffer.length < 2 ^ 39)
    (h : create diskGuid blockSize blockCount parts buffer = ok gpt) (block : Bytes)
    (hblock : block.length = blockSize) : (∃ out, gpt.writePrimaryHeader block = ok out ∧
      parse out gpt.entryArray = ok gpt) ∧ (parts.length ≤ gpt.entryCount ∧ ∀ i < gpt.entryCount,
      gpt.entry i = some (parts[i]?.getD .unused)) ∧ (∃ out, gpt.writeBackupHeader block = ok out ∧
      gpt.checkBackup out gpt.entryArray = ok ()) ∧ (∃ out, gpt.writeProtectiveMbr block = ok out ∧
      gpt.checkProtectiveMbr out = ok ()) ∧ ∃ lba, gpt.backupEntryLba = ok lba ∧
        (gpt.usable :: gpt.tables lba).Pairwise Disjoint ∧ ∀ s ∈ gpt.usable :: gpt.tables lba,
        s ⊆ Set.Iio blockCount.toNat := by
  have hlaid := create_laid hlength h
  obtain ⟨hfits, -, rfl⟩ := create_eq_ok.mp h
  have hdisk := hfits.disk
  have hbackup : (built diskGuid blockSize blockCount parts buffer).backupHeaderLba + 1 = blockCount.toNat := by
    have hlt := blockCount.toNat_lt
    have : (built diskGuid blockSize blockCount parts buffer).backupHeaderLba = blockCount.toNat - 1 :=
      toNat_ofNat (by omega)
    omega
  obtain ⟨hapart, hinside⟩ := hlaid.tables_apart
  rw [hbackup] at hinside
  refine ⟨⟨_, Header.encodeInto_eq _ (hblock ▸ hfits.block_size), hlaid.parse_written hblock⟩,
    ⟨hfits.room, fun i hi => entry_built hlength hlaid hi⟩,
    ⟨_, hlaid.writeBackupHeader_eq hblock, hlaid.checkBackup_written hblock⟩,
    hlaid.checkProtectiveMbr_written hblock, _, hlaid.backupEntryLba_eq, hapart, hinside⟩

theorem created_table_reads_back_sample : create sampleGuid 512 600 [samplePart] sampleBuffer = ok sample ∧
    ∃ out, sample.writePrimaryHeader (List.replicate 512 0) = ok out ∧
    parse out sample.entryArray = ok sample := by
  have hlength : sampleBuffer.length < 2 ^ 39 := by
    rw [length_sampleBuffer]
    decide
  refine ⟨sample_created, ?_⟩
  exact (created_table_reads_back _ _ _ _ _ _ hlength sample_created _ List.length_replicate).1

end CrickerOs.Gpt
