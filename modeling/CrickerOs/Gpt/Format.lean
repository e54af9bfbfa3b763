import CrickerOs.Library.Bytes

namespace CrickerOs.Gpt

open Library Library.Outcome Library.Bytes

namespace Crc

def poly : UInt32 := 0xedb88320

def round (c : UInt32) : UInt32 :=
  if c &&& 1 ≠ 0 then poly ^^^ (c >>> 1) else c >>> 1

def table (byte : UInt32) : UInt32 :=
  round^[8] byte

def update (crc : UInt32) (bytes : Bytes) : UInt32 :=
  bytes.foldl (fun crc b => table ((crc ^^^ b.toUInt32) &&& 0xff) ^^^ (crc >>> 8)) crc

end Crc

def crc32 (bytes : Bytes) : UInt32 :=
  ~~~Crc.update (~~~0) bytes

def crc32Pieces (pieces : List Bytes) : UInt32 :=
  ~~~pieces.foldl Crc.update (~~~0)

structure Guid where
  bytes : Bytes
  length_bytes : bytes.length = 16
  deriving DecidableEq

namespace Guid

def zero : Guid := ⟨List.replicate 16 0, rfl⟩

def isZero (g : Guid) : Bool := g.bytes.all (· = 0)

end Guid

inductive BackupMismatch
  | myLba
  | alternateLba
  | diskGuid
  | firstUsableLba
  | lastUsableLba
  | entryCount
  | entrySize
  | entryArrayCrc
  | entryArrayLba
  deriving DecidableEq

inductive MbrProblem
  | signature
  | noProtectiveRecord
  | extraRecord (index : ℕ)
  | startLba (lba : ℕ)
  | sizeLba (size : ℕ)
  deriving DecidableEq

inductive Error
  | blockSize (len : ℕ)
  | signature
  | revision (revision : ℕ)
  | headerSize (size : ℕ)
  | reservedNotZero
  | blockTailNotZero
  | headerCrc (stored computed : ℕ)
  | entrySize (size : UInt32)
  | entryCount (count : UInt32)
  | entryArrayLen (need given : ℕ)
  | entryArrayShape (given : ℕ)
  | entryArrayCrc (stored computed : UInt32)
  | notPrimary (myLba : UInt64)
  | usableRange (first last : UInt64)
  | tableOverlapsUsable
  | partitionRange (index : ℕ)
  | partitionOutsideUsable (index : ℕ)
  | partitionsOverlap (a b : ℕ)
  | backup (mismatch : BackupMismatch)
  | mbr (problem : MbrProblem)
  | diskTooSmall (blocks : UInt64) (need : ℕ)
  | tooManyPartitions (given : ℕ) (room : UInt32)
  deriving DecidableEq

def minBlockSize : ℕ := 512
def maxBlockSize : ℕ := 4096

def blockSizeOk (len : ℕ) : Bool :=
  minBlockSize ≤ len ∧ len ≤ maxBlockSize ∧ len.isPowerOfTwo

def le32 (bytes : Bytes) (pos : ℕ) : ℕ := leVal (window bytes pos 4)
def le64 (bytes : Bytes) (pos : ℕ) : ℕ := leVal (window bytes pos 8)

def guidAt (bytes : Bytes) (pos : ℕ) : Guid :=
  ⟨(window bytes pos 16).takeD 16 0, List.takeD_length ..⟩

structure Header where
  myLba : UInt64
  alternateLba : UInt64
  firstUsableLba : UInt64
  lastUsableLba : UInt64
  diskGuid : Guid
  entryArrayLba : UInt64
  entryCount : UInt32
  entrySize : UInt32
  entryArrayCrc : UInt32
  deriving DecidableEq

namespace Header

def signature : Bytes := [0x45, 0x46, 0x49, 0x20, 0x50, 0x41, 0x52, 0x54]
def revision : ℕ := 0x00010000
def headerSize : ℕ := 92

def headerCrc (header : Bytes) : ℕ :=
  (crc32Pieces [header.take 16, [0, 0, 0, 0], header.drop (16 + 4)]).toNat

def decodeFields (block : Bytes) : Header where
  myLba := .ofNat (le64 block 24)
  alternateLba := .ofNat (le64 block 32)
  firstUsableLba := .ofNat (le64 block 40)
  lastUsableLba := .ofNat (le64 block 48)
  diskGuid := guidAt block 56
  entryArrayLba := .ofNat (le64 block 72)
  entryCount := .ofNat (le32 block 80)
  entrySize := .ofNat (le32 block 84)
  entryArrayCrc := .ofNat (le32 block 88)

-- The block is at least 512 bytes after the first check, so the fixed positions are inside it.
def decode (block : Bytes) : Outcome Error Header := do
  ensure (blockSizeOk block.length) (.blockSize block.length)
  ensure (window block 0 8 = signature) .signature
  ensure (le32 block 8 = revision) (.revision (le32 block 8))
  let size := le32 block 12
  ensure (headerSize ≤ size ∧ size ≤ block.length) (.headerSize size)
  ensure (le32 block 20 = 0) .reservedNotZero
  ensure (∀ b ∈ block.drop size, b = 0) .blockTailNotZero
  let stored := le32 block 16
  let computed := headerCrc (block.take size)
  ensure (stored = computed) (.headerCrc stored computed)
  pure (decodeFields block)

def fields (h : Header) : List (ℕ × Bytes) :=
  [(0, signature), (8, toLe 4 revision), (12, toLe 4 headerSize), (24, toLe 8 h.myLba.toNat),
    (32, toLe 8 h.alternateLba.toNat), (40, toLe 8 h.firstUsableLba.toNat), (48, toLe 8 h.lastUsableLba.toNat),
    (56, h.diskGuid.bytes), (72, toLe 8 h.entryArrayLba.toNat), (80, toLe 4 h.entryCount.toNat),
    (84, toLe 4 h.entrySize.toNat), (88, toLe 4 h.entryArrayCrc.toNat)]

def encodeFields (h : Header) (block : Bytes) : Bytes :=
  layout (List.replicate block.length 0) h.fields

def encodeInto (h : Header) (block : Bytes) : Outcome Error Bytes := do
  ensure (blockSizeOk block.length) (.blockSize block.length)
  let block := h.encodeFields block
  pure (overwrite block 16 (toLe 4 (headerCrc (block.take headerSize))))

def entryArrayBytes (h : Header) : ℕ := h.entryCount.toNat * h.entrySize.toNat

end Header

structure Entry where
  typeGuid : Guid
  uniqueGuid : Guid
  firstLba : UInt64
  lastLba : UInt64
  attributes : UInt64
  name : List UInt16
  length_name : name.length = 36
  deriving DecidableEq

namespace Entry

def size : ℕ := 128

def unused : Entry := ⟨.zero, .zero, 0, 0, 0, List.replicate 36 0, rfl⟩

def isUsed (e : Entry) : Bool := !e.typeGuid.isZero

def decode (bytes : Bytes) : Entry where
  typeGuid := guidAt bytes 0
  uniqueGuid := guidAt bytes 16
  firstLba := .ofNat (le64 bytes 32)
  lastLba := .ofNat (le64 bytes 40)
  attributes := .ofNat (le64 bytes 48)
  name := (List.range 36).map fun i => .ofNat (leVal (window bytes (56 + i * 2) 2))
  length_name := by simp

def nameFields (e : Entry) : List (ℕ × Bytes) :=
  e.name.mapIdx fun i unit => (56 + i * 2, toLe 2 unit.toNat)

def encode (e : Entry) : Bytes :=
  layout (List.replicate size 0) <|
    [(0, e.typeGuid.bytes), (16, e.uniqueGuid.bytes), (32, toLe 8 e.firstLba.toNat), (40, toLe 8 e.lastLba.toNat),
      (48, toLe 8 e.attributes.toNat)] ++ e.nameFields

def overlaps (e other : Entry) : Bool :=
  e.isUsed && other.isUsed && e.firstLba ≤ other.lastLba && other.firstLba ≤ e.lastLba

end Entry

end CrickerOs.Gpt
