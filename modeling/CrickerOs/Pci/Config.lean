import CrickerOs.Library.Stateful

/-! Configuration space as the kernel reads and writes it, and the base address registers of a function. The
device on the other side has a state of its own and may answer anything. -/

namespace CrickerOs.Pci

open Library Library.Outcome

structure Bdf where
  bus : ℕ
  dev : ℕ
  func : ℕ
  deriving DecidableEq

def Bdf.requesterId (bdf : Bdf) : ℕ := bdf.bus <<< 8 ||| bdf.dev <<< 3 ||| bdf.func

abbrev Word := BitVec 32

def COMMAND : ℕ := 0x04
def BAR0 : ℕ := 0x10
def CAP_PTR : ℕ := 0x34
def CMD_MEMORY_SPACE : Word := 0b10
def CMD_BUS_MASTER : Word := 0b100
def STATUS_CAP_LIST : Word := 0b10000

structure ConfigSpace (σ : Type) where
  read : Bdf → ℕ → σ → Word × σ
  write : Bdf → ℕ → Word → σ → σ

inductive Access
  | read (bdf : Bdf) (off : ℕ) (v : Word)
  | write (bdf : Bdf) (off : ℕ) (v : Word)
  deriving DecidableEq

def Access.bdf : Access → Bdf
  | read b _ _ | write b _ _ => b

def Access.off : Access → ℕ
  | read _ o _ | write _ o _ => o

structure Extent where
  base : ℕ
  size : ℕ
  deriving DecidableEq

/-- The statics of the kernel, with the devices on the bus. The accesses and the extents that were handed out are
kept for the statements only. -/
structure Kernel (σ : Type) where
  device : σ
  ecamBase : ℕ
  barNext : ℕ
  barLimit : ℕ
  accesses : List Access
  placed : List Extent
  deriving DecidableEq

abbrev Run (σ : Type) := StateT (Kernel σ) (Outcome Empty)

variable {σ : Type} (cfg : ConfigSpace σ)

def cfgRead32 (bdf : Bdf) (off : ℕ) : Run σ Word := fun k =>
  let r := cfg.read bdf (off / 4 * 4) k.device
  ok (r.1, { k with device := r.2, accesses := k.accesses ++ [.read bdf (off / 4 * 4) r.1] })

def cfgWrite32 (bdf : Bdf) (off : ℕ) (v : Word) : Run σ Unit := fun k =>
  ok ((), { k with device := cfg.write bdf (off / 4 * 4) v k.device, accesses :=
    k.accesses ++ [.write bdf (off / 4 * 4) v] })

structure Bar where
  base : ℕ
  size : ℕ
  is64 : Bool
  deriving DecidableEq

abbrev Bars := Fin 6 → Option Bar

def allOnes : Word := 0xffffffff

def address (v : Word) : Word := v &&& 0xfffffff0

def isIo (v : Word) : Prop := v &&& 1 ≠ 0

def is64 (v : Word) : Prop := v &&& 0b110 = 0b100

instance : DecidablePred isIo := fun _ => inferInstanceAs (Decidable (_ ≠ _))
instance : DecidablePred is64 := fun _ => inferInstanceAs (Decidable (_ = _))

def join (hi lo : Word) : ℕ := hi.toNat <<< 32 ||| lo.toNat

def plus (a b : ℕ) : Outcome Empty ℕ := add 64 a b

def sizeOf (mask : ℕ) : Outcome Empty ℕ := plus (2 ^ 64 - 1 - mask) 1

def writable (bdf : Bdf) (off : ℕ) (orig : Word) : Run σ Word := do
  cfgWrite32 cfg bdf off allOnes
  let mask ← cfgRead32 cfg bdf off
  cfgWrite32 cfg bdf off orig
  pure mask

def readBar (bdf : Bdf) (i : ℕ) : Run σ (Option Bar × ℕ) := do
  let off := BAR0 + i * 4
  let orig ← cfgRead32 cfg bdf off
  if isIo orig then pure (none, 1)
  else do
    let maskLo ← writable cfg bdf off orig
    if is64 orig then do
      let origHi ← cfgRead32 cfg bdf (off + 4)
      let maskHi ← writable cfg bdf (off + 4) origHi
      let mask := join maskHi (address maskLo)
      if mask ≠ 0 then do
        let size ← sizeOf mask
        pure (some ⟨join origHi (address orig), size, true⟩, 2)
      else pure (none, 2)
    else
      let mask := (address maskLo).toNat
      if mask ≠ 0 then do
        -- The bits above a register of 32 bits are taken as writable.
        let size ← sizeOf (join allOnes (address maskLo))
        pure (some ⟨(address orig).toNat, size, false⟩, 1)
      else pure (none, 1)

def readBarsFrom (bdf : Bdf) : (rounds i : ℕ) → Bars → Run σ Bars
  | 0, _, out => pure out
  | rounds + 1, i, out =>
    if h : i < 6 then do
      let r ← readBar cfg bdf i
      readBarsFrom bdf rounds (i + r.2) (Function.update out ⟨i, h⟩ r.1)
    else pure out

def readBars (bdf : Bdf) : Run σ Bars := readBarsFrom cfg bdf 6 0 fun _ => none

def VIRTIO_CAP_COMMON : ℕ := 1
def VIRTIO_CAP_NOTIFY : ℕ := 2
def VIRTIO_CAP_ISR : ℕ := 3
def CAP_ID_VENDOR : ℕ := 0x09

structure VirtioCap where
  cfgType : ℕ
  bar : ℕ
  offset : Word
  length : Word
  notifyOffMultiplier : Word

def byteOf (n : ℕ) (v : Word) : ℕ := ((v >>> (8 * n)) &&& 0xff).toNat

def readCap (bdf : Bdf) (pos : ℕ) (head : Word) : Run σ VirtioCap := do
  let cfgType := byteOf 3 head
  let bar ← cfgRead32 cfg bdf (pos + 4)
  let offset ← cfgRead32 cfg bdf (pos + 8)
  let length ← cfgRead32 cfg bdf (pos + 12)
  if cfgType = VIRTIO_CAP_NOTIFY then do
    let multiplier ← cfgRead32 cfg bdf (pos + 16)
    pure ⟨cfgType, byteOf 0 bar, offset, length, multiplier⟩
  else pure ⟨cfgType, byteOf 0 bar, offset, length, 0⟩

def virtioCapsFrom (bdf : Bdf) : (hops pos : ℕ) → Run σ (List VirtioCap)
  | 0, _ => pure []
  | hops + 1, pos =>
    if pos = 0 then pure []
    else do
      let head ← cfgRead32 cfg bdf pos
      let next := ((head >>> 8) &&& 0xfc).toNat
      if byteOf 0 head = CAP_ID_VENDOR then do
        let cap ← readCap cfg bdf pos head
        let caps ← virtioCapsFrom bdf hops next
        pure (cap :: caps)
      else virtioCapsFrom bdf hops next

def virtioCaps (bdf : Bdf) : Run σ (List VirtioCap) := do
  let status ← cfgRead32 cfg bdf COMMAND
  if (status >>> 16) &&& STATUS_CAP_LIST = 0 then pure []
  else do
    let first ← cfgRead32 cfg bdf CAP_PTR
    virtioCapsFrom cfg bdf 64 (first &&& 0xfc).toNat

end CrickerOs.Pci
