import CrickerOs.Pci.Config

/-! Placing the registers of a function in the window of the host bridge, and bringing it up. Enumeration runs on
the boot processor alone, so that the shared cursor is a part of the state and its exchange always succeeds. -/

namespace CrickerOs.Pci

open Library Library.Outcome

structure Arch where
  barMapped : ℕ
  irqBase : ℕ

structure Windows where
  ecam : ℕ
  bar : ℕ
  barSize : ℕ

variable {σ : Type} (cfg : ConfigSpace σ) (arch : Arch)

def hostBridgePresent (windows : Option Windows) : Run σ Bool := do
  let k ← get
  if k.ecamBase ≠ 0 then pure true
  else
    match windows with
    | none => pure false
    | some w => do
        let limit ← plus w.bar (min arch.barMapped w.barSize)
        set { k with barNext := w.bar, barLimit := limit, ecamBase := w.ecam }
        pure true

def nextMultipleOf (a n : ℕ) : Outcome Empty ℕ := if a % n = 0 then pure a else plus a (n - a % n)

def reserve (bar : Bar) : Run σ (Option ℕ) := do
  let k ← get
  let base ← nextMultipleOf k.barNext (max bar.size 0x10)
  let last ← plus base bar.size
  if k.barLimit < last then pure none
  else do
    set { k with barNext := last, placed := k.placed ++ [Extent.mk base bar.size] }
    pure (some base)

def assign (bdf : Bdf) (i base : ℕ) (wide : Bool) : Run σ Unit := do
  let off := BAR0 + i * 4
  cfgWrite32 cfg bdf off (BitVec.ofNat 32 base ||| if wide then 0b100 else 0)
  if wide then cfgWrite32 cfg bdf (off + 4) (BitVec.ofNat 32 (base >>> 32)) else pure ()

def placeFrom (bdf : Bdf) : (slots : List (Fin 6)) → Bars → Run σ (Bool × Bars)
  | [], bars => pure (true, bars)
  | i :: slots, bars =>
    match bars i with
    | none => placeFrom bdf slots bars
    | some bar =>
      if bar.base ≠ 0 then placeFrom bdf slots bars
      else do
        match ← reserve bar with
        | none => pure (false, bars)
        | some base => do
            assign cfg bdf i base bar.is64
            placeFrom bdf slots (Function.update bars i (some { bar with base := base }))

def placeBars (bdf : Bdf) (bars : Bars) : Run σ (Bool × Bars) := placeFrom cfg bdf (List.finRange 6) bars

def resolve (bars : Bars) (cap : VirtioCap) : Outcome Empty (Option ℕ) :=
  if h : cap.bar < 6 then
    match bars ⟨cap.bar, h⟩ with
    | none => pure none
    | some bar => do
        let last ← plus cap.offset.toNat cap.length.toNat
        if last ≤ bar.size then do
          let pos ← plus bar.base cap.offset.toNat
          pure (some pos)
        else pure none
  else pure none

structure Blocks where
  common : Option ℕ
  notifyBase : Option ℕ
  notifyMult : Word
  isr : Option ℕ

def takeCap (bars : Bars) (b : Blocks) (cap : VirtioCap) : Outcome Empty Blocks :=
  if cap.cfgType = VIRTIO_CAP_COMMON ∧ b.common = none then do
    let pos ← resolve bars cap
    pure { b with common := pos }
  else if cap.cfgType = VIRTIO_CAP_NOTIFY ∧ b.notifyBase = none then do
    let pos ← resolve bars cap
    pure { b with notifyBase := pos, notifyMult := cap.notifyOffMultiplier }
  else if cap.cfgType = VIRTIO_CAP_ISR ∧ b.isr = none then do
    let pos ← resolve bars cap
    pure { b with isr := pos }
  else pure b

def takeCaps (bars : Bars) (caps : List VirtioCap) : Outcome Empty Blocks :=
  caps.foldlM (takeCap bars) ⟨none, none, 0, none⟩

def intxIrq (base dev pin : ℕ) : ℕ := min (base + (dev + (pin - 1)) % 4) (2 ^ 32 - 1)

structure PciVirtioDevice where
  bdf : Bdf
  common : ℕ
  notifyBase : ℕ
  notifyMult : Word
  isr : ℕ
  intid : ℕ
  rid : ℕ
  deviceType : ℕ

def enable (bdf : Bdf) (bits : Word) : Run σ Unit := do
  let cmd ← cfgRead32 cfg bdf COMMAND
  cfgWrite32 cfg bdf COMMAND ((cmd &&& 0xffff) ||| bits)

def bringUp (bdf : Bdf) (deviceType : ℕ) : Run σ (Option PciVirtioDevice) := do
  let sized ← readBars cfg bdf
  let (fits, bars) ← placeBars cfg bdf sized
  if fits then do
    let caps ← virtioCaps cfg bdf
    let b ← takeCaps bars caps
    match b.common, b.notifyBase, b.isr with
    | some common, some notifyBase, some isr => do
        enable cfg bdf (CMD_MEMORY_SPACE ||| CMD_BUS_MASTER)
        let line ← cfgRead32 cfg bdf 0x3c
        let pin := byteOf 1 line
        if pin = 0 then pure none
        else pure (some ⟨bdf, common, notifyBase, b.notifyMult, isr, intxIrq arch.irqBase bdf.dev pin,
          bdf.requesterId, deviceType⟩)
    | _, _, _ => pure none
  else pure none

def bringUpFirst (bdf : Bdf) (bits : Word) : Run σ (Option ℕ) := do
  let sized ← readBars cfg bdf
  let (fits, bars) ← placeBars cfg bdf sized
  if fits then
    match bars 0 with
    | none => pure none
    | some bar => do
        enable cfg bdf bits
        pure (some bar.base)
  else pure none

def bringUpNvme (bdf : Bdf) : Run σ (Option ℕ) := bringUpFirst cfg bdf (CMD_MEMORY_SPACE ||| CMD_BUS_MASTER)

def initIommu (bdf : Bdf) : Run σ (Option ℕ) := bringUpFirst cfg bdf CMD_MEMORY_SPACE

section

/-- What the kernel does on the bus: look for the bridge, read a word of a function while it enumerates, and bring
a function up. -/
inductive Op
  | present
  | look (bdf : Bdf) (off : ℕ)
  | virtio (bdf : Bdf) (deviceType : ℕ)
  | nvme (bdf : Bdf)
  | iommu (bdf : Bdf)

variable (windows : Option Windows)

def behindBridge {α : Type} (m : Run σ α) : Run σ Unit := do
  let found ← hostBridgePresent arch windows
  if found then do
    let _ ← m
    pure ()
  else pure ()

def Op.step : Op → Run σ Unit
  | present => behindBridge arch windows (pure ())
  | look bdf off => behindBridge arch windows (cfgRead32 cfg bdf off)
  | virtio bdf deviceType => behindBridge arch windows (bringUp cfg arch bdf deviceType)
  | nvme bdf => behindBridge arch windows (bringUpNvme cfg bdf)
  | iommu bdf => behindBridge arch windows (initIommu cfg bdf)

def runOps (ops : List Op) : Run σ Unit := ops.forM (Op.step cfg arch windows)

def Kernel.start (device : σ) : Kernel σ := ⟨device, 0, 0, 0, [], []⟩

end

end CrickerOs.Pci
