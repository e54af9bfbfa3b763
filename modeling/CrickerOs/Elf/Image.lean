import CrickerOs.Library.Bytes

namespace CrickerOs

namespace Elf

open Library Library.Outcome Library.Bytes

inductive Error
  | tooSmall
  | badMagic
  | not64Bit
  | notLittleEndian
  | badVersion
  | wrongMachine
  | needsRelocation
  | notExecutable
  | badProgramHeaders
  | segmentOutOfBounds
  | segmentTruncated
  | writableAndExecutable
  | segmentUnreachable
  | segmentsOverlap
  | entryNotExecutable
  | addressOverflow
  | tooManyProgramHeaders
  deriving DecidableEq

def magic : Bytes := [0x7f, 0x45, 0x4c, 0x46]
def elfClass64 : UInt8 := 2
def elfData2Lsb : UInt8 := 1
def evCurrent : UInt8 := 1
def etExec : ℕ := 2
def etDyn : ℕ := 3
def ptLoad : ℕ := 1
def pfX : ℕ := 1
def pfW : ℕ := 2
def pfR : ℕ := 4
def ehdrSize : ℕ := 64
def phdrSize : ℕ := 56
def maxPhnum : ℕ := 64

def saturatingAdd (a b : ℕ) : ℕ := min (a + b) (2 ^ 64 - 1)
def saturatingMul (a b : ℕ) : ℕ := min (a * b) (2 ^ 64 - 1)

structure Segment where
  vaddr : ℕ
  memsz : ℕ
  flags : ℕ
  data : Bytes
  deriving DecidableEq

namespace Segment

variable (s : Segment)

def isReadable : Bool := s.flags &&& pfR ≠ 0
def isWritable : Bool := s.flags &&& pfW ≠ 0
def isExecutable : Bool := s.flags &&& pfX ≠ 0

def pageRange (pageSize : ℕ) : ℕ × ℕ :=
  (s.vaddr / pageSize * pageSize,
    saturatingMul ((saturatingAdd s.vaddr s.memsz + (pageSize - 1)) / pageSize) pageSize)

end Segment

def word (n : ℕ) (b : Bytes) (pos : ℕ) : Outcome Error ℕ := do
  let w ← slice b pos (pos + n)
  pure (leVal w)

def u16le : Bytes → ℕ → Outcome Error ℕ := word 2
def u32le : Bytes → ℕ → Outcome Error ℕ := word 4
def u64le : Bytes → ℕ → Outcome Error ℕ := word 8

def checkSegmentBounds (fileLen offset filesz vaddr memsz : ℕ) : Outcome Error ℕ := do
  ensure (filesz ≤ memsz) .segmentTruncated
  ensure (offset + filesz < 2 ^ 64) .segmentOutOfBounds
  ensure (offset + filesz ≤ fileLen) .segmentOutOfBounds
  ensure (vaddr + memsz < 2 ^ 64) .addressOverflow
  pure (offset + filesz)

end Elf

structure Elf where
  bytes : Library.Bytes
  entry : ℕ
  phoff : ℕ
  phnum : ℕ
  phentsize : ℕ
  deriving DecidableEq

namespace Elf

open Library Library.Outcome Library.Bytes

variable (elf : Elf)

def segmentAt (i : ℕ) : Outcome Error (Option Segment) := do
  let row ← mul 64 i elf.phentsize
  let off ← add 64 elf.phoff row
  let last ← add 64 off phdrSize
  let ph ← slice elf.bytes off last
  let type ← u32le ph 0
  if type ≠ ptLoad then pure none
  else do
    let flags ← u32le ph 4
    let offset ← u64le ph 8
    let vaddr ← u64le ph 16
    let filesz ← u64le ph 32
    let memsz ← u64le ph 40
    let last ← checkSegmentBounds elf.bytes.length offset filesz vaddr memsz
    let data ← slice elf.bytes offset last
    pure (some ⟨vaddr, memsz, flags, data⟩)

def checkOverlaps (seg : Segment) : (left j : ℕ) → Outcome Error Unit
  | 0, _ => pure ()
  | left + 1, j => do
      match ← elf.segmentAt j with
      | some other =>
        let a := seg.pageRange 4096
        let b := other.pageRange 4096
        ensure (¬ (a.1 < b.2 ∧ b.1 < a.2)) .segmentsOverlap
      | none => pure ()
      checkOverlaps seg left (j + 1)

def entryIn (seg : Segment) : Outcome Error Bool :=
  if seg.isExecutable ∧ seg.vaddr ≤ elf.entry then do
    let last ← add 64 seg.vaddr seg.memsz
    pure (elf.entry < last)
  else pure false

def validateFrom : (left i : ℕ) → (entryOk : Bool) → Outcome Error Bool
  | 0, _, entryOk => pure entryOk
  | left + 1, i, entryOk => do
      match ← elf.segmentAt i with
      | none => validateFrom left (i + 1) entryOk
      | some seg => do
          ensure (¬ (seg.isWritable ∧ seg.isExecutable)) .writableAndExecutable
          ensure (seg.isReadable ∨ seg.isExecutable) .segmentUnreachable
          let inside ← elf.entryIn seg
          elf.checkOverlaps seg i 0
          validateFrom left (i + 1) (entryOk || inside)

def validate : Outcome Error Unit := do
  let entryOk ← elf.validateFrom elf.phnum 0 false
  ensure entryOk .entryNotExecutable

def parse (expectedMachine : ℕ) (bytes : Bytes) : Outcome Error Elf := do
  ensure (ehdrSize ≤ bytes.length) .tooSmall
  let start ← slice bytes 0 4
  ensure (start = magic) .badMagic
  let class64 ← index bytes 4
  ensure (class64 = elfClass64) .not64Bit
  let order ← index bytes 5
  ensure (order = elfData2Lsb) .notLittleEndian
  let version ← index bytes 6
  ensure (version = evCurrent) .badVersion
  let type ← u16le bytes 16
  let machine ← u16le bytes 18
  ensure (machine = expectedMachine) .wrongMachine
  ensure (type ≠ etDyn) .needsRelocation
  ensure (type = etExec) .notExecutable
  let entry ← u64le bytes 24
  let phoff ← u64le bytes 32
  let phentsize ← u16le bytes 54
  let phnum ← u16le bytes 56
  ensure (phdrSize ≤ phentsize) .badProgramHeaders
  ensure (phnum ≤ maxPhnum) .tooManyProgramHeaders
  ensure (phnum * phentsize < 2 ^ 64) .badProgramHeaders
  ensure (phoff + phnum * phentsize < 2 ^ 64) .badProgramHeaders
  ensure (phoff + phnum * phentsize ≤ bytes.length) .badProgramHeaders
  let elf : Elf := ⟨bytes, entry, phoff, phnum, phentsize⟩
  elf.validate
  pure elf

def segmentsFrom : (left i : ℕ) → Outcome Error (List Segment)
  | 0, _ => pure []
  | left + 1, i =>
    match elf.segmentAt i with
    | .ok (some seg) => do
        let rest ← segmentsFrom left (i + 1)
        pure (seg :: rest)
    | .ok none | .error _ => segmentsFrom left (i + 1)
    | .panic => .panic

def segments : Outcome Error (List Segment) := elf.segmentsFrom elf.phnum 0

end Elf

end CrickerOs
