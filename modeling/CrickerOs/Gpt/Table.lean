import CrickerOs.Gpt.Format

namespace CrickerOs

open Library Library.Outcome Library.Bytes

namespace Gpt

def primaryHeaderLba : ℕ := 1

def divCeil (a b : ℕ) : ℕ := (a + (b - 1)) / b

def checkEntryArray (header : Header) (supplied : Bytes) : Outcome Error Bytes := do
  ensure (Entry.size ≤ header.entrySize.toNat ∧ header.entrySize.toNat % 8 = 0) (.entrySize header.entrySize)
  ensure (header.entryCount ≠ 0) (.entryCount header.entryCount)
  let need := header.entryArrayBytes
  ensure (need ≤ supplied.length) (.entryArrayLen need supplied.length)
  let entries := supplied.take need
  ensure (crc32 entries = header.entryArrayCrc) (.entryArrayCrc header.entryArrayCrc (crc32 entries))
  pure entries

def arrayBlocks (header : Header) (blockSize : ℕ) : ℕ :=
  divCeil header.entryArrayBytes blockSize

def entryOf (entries : Bytes) (entrySize i : ℕ) : Entry :=
  .decode (window entries (i * entrySize) Entry.size)

def checkOverlaps (entries : Bytes) (entrySize i : ℕ) : (left j : ℕ) → Outcome Error Unit
  | 0, _ => pure ()
  | left + 1, j =>
    if (entryOf entries entrySize i).overlaps (entryOf entries entrySize j) then .error (.partitionsOverlap i j)
    else checkOverlaps entries entrySize i left (j + 1)

def checkFrom (entries : Bytes) (entrySize : ℕ) (header : Header) : (left i : ℕ) → Outcome Error Unit
  | 0, _ => pure ()
  | left + 1, i =>
    let e := entryOf entries entrySize i
    if !e.isUsed then checkFrom entries entrySize header left (i + 1)
    else do
      ensure (e.firstLba ≤ e.lastLba) (.partitionRange i)
      ensure (header.firstUsableLba ≤ e.firstLba ∧ e.lastLba ≤ header.lastUsableLba) (.partitionOutsideUsable i)
      checkOverlaps entries entrySize i left (i + 1)
      checkFrom entries entrySize header left (i + 1)

def checkPartitions (entries : Bytes) (entrySize : ℕ) (header : Header) : Outcome Error Unit :=
  checkFrom entries entrySize header (entries.length / entrySize) 0

namespace Mbr

def protectiveOsType : UInt8 := 0xee
def records : ℕ := 446
def signature : ℕ := 510
def osType : ℕ := 4
def startLba : ℕ := 8
def sizeLba : ℕ := 12

def protectiveSize (blockCount : ℕ) : ℕ := min (blockCount - 1) (2 ^ 32 - 1)

def write (block : Bytes) (blockCount : ℕ) : Outcome Error Bytes := do
  ensure (blockSizeOk block.length) (.blockSize block.length)
  pure <| layout (List.replicate block.length 0)
    [(records + osType, [protectiveOsType]), (records + 1, [0x00, 0x02, 0x00]), (records + 5, [0xff, 0xff, 0xff]),
      (records + startLba, toLe 4 1), (records + sizeLba, toLe 4 (protectiveSize blockCount)), (signature, [0x55]),
      (signature + 1, [0xaa])]

-- As in `Header.decode`, the fixed positions are inside a block of at least 512 bytes.
def validate (block : Bytes) (blockCount : ℕ) : Outcome Error Unit := do
  ensure (blockSizeOk block.length) (.blockSize block.length)
  ensure (window block signature 1 = [0x55] ∧ window block (signature + 1) 1 = [0xaa]) (.mbr .signature)
  let osType (i : ℕ) := window block (records + i * 16 + osType) 1
  match (List.range 4).find? fun i => osType i = [protectiveOsType] with
  | none => .error (.mbr .noProtectiveRecord)
  | some i =>
    match (List.range 4).find? fun j => j ≠ i ∧ osType j ≠ [0x00] with
    | some extra => .error (.mbr (.extraRecord extra))
    | none => do
        let start := le32 block (records + i * 16 + startLba)
        ensure (start = 1) (.mbr (.startLba start))
        let size := le32 block (records + i * 16 + sizeLba)
        ensure (size = protectiveSize blockCount ∨ size = 2 ^ 32 - 1) (.mbr (.sizeLba size))

end Mbr

end Gpt

structure Gpt where
  header : Gpt.Header
  entries : Bytes
  blockSize : ℕ
  deriving DecidableEq

namespace Gpt

def parse (headerBlock entryArray : Bytes) : Outcome Error Gpt := do
  let header ← Header.decode headerBlock
  ensure (header.myLba.toNat = primaryHeaderLba) (.notPrimary header.myLba)
  let entries ← checkEntryArray header entryArray
  let blocks := arrayBlocks header headerBlock.length
  let blockCount := header.alternateLba.toNat + 1
  ensure (blockCount < 2 ^ 64) .tableOverlapsUsable
  ensure (header.firstUsableLba ≤ header.lastUsableLba) (.usableRange header.firstUsableLba header.lastUsableLba)
  let primaryEnd := header.entryArrayLba.toNat + blocks
  ensure (primaryEnd < 2 ^ 64) .tableOverlapsUsable
  let backupReserved := blocks + 1
  ensure (backupReserved < 2 ^ 64) .tableOverlapsUsable
  ensure (primaryHeaderLba < header.entryArrayLba.toNat ∧ primaryEnd ≤ header.firstUsableLba.toNat ∧
    backupReserved ≤ blockCount ∧ header.lastUsableLba.toNat < blockCount - backupReserved) .tableOverlapsUsable
  checkPartitions entries header.entrySize.toNat header
  pure ⟨header, entries, headerBlock.length⟩

def create (diskGuid : Guid) (blockSize : ℕ) (blockCount : UInt64) (partitions : List Entry) (entryArray : Bytes) :
    Outcome Error Gpt := do
  ensure (blockSizeOk blockSize) (.blockSize blockSize)
  ensure (Entry.size ≤ entryArray.length ∧ entryArray.length % Entry.size = 0) (.entryArrayShape entryArray.length)
  -- `as u32` keeps the low 32 bits.
  let entryCount := UInt32.ofNat (entryArray.length / Entry.size)
  ensure (partitions.length ≤ entryCount.toNat) (.tooManyPartitions partitions.length entryCount)
  let blocks := divCeil entryArray.length blockSize
  let firstUsable ← add 64 (primaryHeaderLba + 1) blocks
  let backupArray ← add 64 firstUsable blocks
  let need ← add 64 backupArray 2
  ensure (need ≤ blockCount.toNat) (.diskTooSmall blockCount need)
  let entries := layout (List.replicate entryArray.length 0) <|
    partitions.mapIdx fun i part => (i * Entry.size, part.encode)
  let header : Header :=
    { myLba := .ofNat primaryHeaderLba
      alternateLba := .ofNat (blockCount.toNat - 1)
      firstUsableLba := .ofNat firstUsable
      lastUsableLba := .ofNat (blockCount.toNat - blocks - 2)
      diskGuid := diskGuid
      entryArrayLba := .ofNat (primaryHeaderLba + 1)
      entryCount := entryCount
      entrySize := .ofNat Entry.size
      entryArrayCrc := crc32 entries }
  checkPartitions entries Entry.size header
  pure ⟨header, entries, blockSize⟩

variable (gpt : Gpt)

def blockCount : Outcome Error ℕ := add 64 gpt.header.alternateLba.toNat 1

def firstUsableLba : ℕ := gpt.header.firstUsableLba.toNat
def lastUsableLba : ℕ := gpt.header.lastUsableLba.toNat
def backupHeaderLba : ℕ := gpt.header.alternateLba.toNat
def primaryEntryLba : ℕ := gpt.header.entryArrayLba.toNat

def entryArrayBlocks : ℕ := divCeil gpt.entries.length gpt.blockSize

def backupEntryLba : Outcome Error ℕ := sub gpt.header.alternateLba.toNat gpt.entryArrayBlocks

def entryCount : ℕ := gpt.header.entryCount.toNat
def entryArray : Bytes := gpt.entries

def entry (index : ℕ) : Option Entry :=
  let start := index * gpt.header.entrySize.toNat
  if start < 2 ^ 64 ∧ start + Entry.size < 2 ^ 64 ∧ start + Entry.size ≤ gpt.entries.length then
    some (.decode (window gpt.entries start Entry.size))
  else none

def partitions : List (ℕ × Entry) :=
  (List.range gpt.entryCount).filterMap fun i =>
    (gpt.entry i).bind fun e => if e.isUsed then some (i, e) else none

def checkBackup (backupBlock backupEntries : Bytes) : Outcome Error Unit := do
  let backup ← Header.decode backupBlock
  ensure (backup.myLba = gpt.header.alternateLba) (.backup .myLba)
  ensure (backup.alternateLba = gpt.header.myLba) (.backup .alternateLba)
  ensure (backup.diskGuid = gpt.header.diskGuid) (.backup .diskGuid)
  ensure (backup.firstUsableLba = gpt.header.firstUsableLba) (.backup .firstUsableLba)
  ensure (backup.lastUsableLba = gpt.header.lastUsableLba) (.backup .lastUsableLba)
  ensure (backup.entryCount = gpt.header.entryCount) (.backup .entryCount)
  ensure (backup.entrySize = gpt.header.entrySize) (.backup .entrySize)
  ensure (backup.entryArrayCrc = gpt.header.entryArrayCrc) (.backup .entryArrayCrc)
  let lba ← gpt.backupEntryLba
  ensure (backup.entryArrayLba.toNat = lba) (.backup .entryArrayLba)
  let _ ← checkEntryArray backup backupEntries
  pure ()

def checkProtectiveMbr (block : Bytes) : Outcome Error Unit := do
  let count ← gpt.blockCount
  Mbr.validate block count

def writeProtectiveMbr (block : Bytes) : Outcome Error Bytes := do
  let count ← gpt.blockCount
  Mbr.write block count

def writePrimaryHeader (block : Bytes) : Outcome Error Bytes :=
  gpt.header.encodeInto block

def writeBackupHeader (block : Bytes) : Outcome Error Bytes := do
  let lba ← gpt.backupEntryLba
  { gpt.header with
    myLba := gpt.header.alternateLba
    alternateLba := gpt.header.myLba
    entryArrayLba := .ofNat lba }.encodeInto block

end Gpt

end CrickerOs
