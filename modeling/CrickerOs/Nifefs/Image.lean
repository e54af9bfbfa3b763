import CrickerOs.Library.Bytes

namespace CrickerOs.Nifefs

open Library Library.Outcome Library.Bytes

def blockSize : ℕ := 512
def magic : Bytes := [0x43, 0x52, 0x4b, 0x52, 0x30, 0x30, 0x30, 0x32]
def dirBlocks : ℕ := 6
def headerLen : ℕ := 12
def nameLen : ℕ := 32
def entryLen : ℕ := nameLen + 8
def maxFiles : ℕ := (dirBlocks * blockSize - headerLen) / entryLen

inductive Error
  | badMagic
  | tooManyFiles
  | nameTooLong
  | nameHasNul
  | outOfBounds
  | truncated
  deriving DecidableEq

structure Entry where
  name : Bytes
  startBlock : ℕ
  len : ℕ
  deriving DecidableEq

def utf8 (name : String) : Bytes := name.toByteArray.data.toList

def Entry.nameStr (e : Entry) : Option String :=
  String.fromUTF8? ⟨(e.name.takeWhile (· ≠ 0)).toArray⟩

def Entry.nameEq (e : Entry) (name : String) : Bool :=
  e.nameStr = some name

def u32le (b : Bytes) (pos : ℕ) : Outcome Error ℕ := do
  let word ← slice b pos (pos + 4)
  pure (leVal word)

structure Fs where
  image : Bytes
  count : ℕ

namespace Fs

def entryAt (image : Bytes) (i : ℕ) : Outcome Error Entry := do
  let off := headerLen + i * entryLen
  let name ← slice image off (off + nameLen)
  let startBlock ← u32le image (off + nameLen)
  let len ← u32le image (off + nameLen + 4)
  pure ⟨name, startBlock, len⟩

def checkEntries (image : Bytes) : (left i : ℕ) → Outcome Error Unit
  | 0, _ => pure ()
  | left + 1, i => do
      let e ← entryAt image i
      let start ← mul 64 e.startBlock blockSize
      if 2 ^ 64 ≤ start + e.len then .error .outOfBounds
      else if image.length < start + e.len then .error .outOfBounds
      else checkEntries image left (i + 1)

def parse (image : Bytes) : Outcome Error Fs :=
  if image.length < dirBlocks * blockSize then .error .truncated
  else do
    let start ← slice image 0 8
    if start ≠ magic then .error .badMagic
    else
      let count ← u32le image 8
      if maxFiles < count then .error .tooManyFiles
      else
        checkEntries image count 0
        pure ⟨image, count⟩

def len (fs : Fs) : ℕ := fs.count

def find (image : Bytes) (name : String) : (left i : ℕ) → Outcome Error (Option Entry)
  | 0, _ => pure none
  | left + 1, i => do
      let e ← entryAt image i
      if e.nameEq name then pure (some e) else find image name left (i + 1)

def read (fs : Fs) (name : String) : Outcome Error (Option Bytes) := do
  match ← find fs.image name fs.count 0 with
  | none => pure none
  | some e =>
    let start ← mul 64 e.startBlock blockSize
    let stop ← add 64 start e.len
    let data ← slice fs.image start stop
    pure (some data)

end Fs

def blocksOf (data : Bytes) : ℕ :=
  max ((data.length + (blockSize - 1)) / blockSize) 1

def checkNames : List (String × Bytes) → Outcome Error Unit
  | [] => pure ()
  | (name, _) :: files =>
    if nameLen < (utf8 name).length then .error .nameTooLong
    else if 0 ∈ utf8 name then .error .nameHasNul
    else checkNames files

def writeFiles : List (String × Bytes) → (i block : ℕ) → (out : Bytes) → Outcome Error (ℕ × Bytes)
  | [], _, block, out => pure (block, out)
  | (name, data) :: files, i, block, out => do
      let off := headerLen + i * entryLen
      let out ← copyInto out off (utf8 name)
      let out ← copyInto out (off + nameLen) (toLe 4 block)
      let out ← copyInto out (off + nameLen + 4) (toLe 4 data.length)
      let start ← mul 64 block blockSize
      let stop ← add 64 start data.length
      if out.length < stop then .error .outOfBounds
      else
        let out ← copyInto out start data
        let block ← add 32 block (blocksOf data % 2 ^ 32)
        writeFiles files (i + 1) block out

def writeImage (files : List (String × Bytes)) (out : Bytes) : Outcome Error (ℕ × Bytes) :=
  if maxFiles < files.length then .error .tooManyFiles
  else do
    checkNames files
    let out ← copyInto (List.replicate out.length 0) 0 magic
    let out ← copyInto out 8 (toLe 4 files.length)
    let (block, out) ← writeFiles files 0 dirBlocks out
    let size ← mul 64 block blockSize
    pure (size, out)

def imageSize (files : List (String × Bytes)) : ℕ :=
  (dirBlocks + (files.map fun file => blocksOf file.2).sum) * blockSize

end CrickerOs.Nifefs
