import CrickerOs.DmaValidator.Confinement

/-! The virtio transport: one register vocabulary over two buses, the queues the kernel programs and the validated
notification, as the accesses to physical memory they make. -/

namespace CrickerOs.Virtio

open Library DmaValidator

def regDeviceFeaturesSel : ℕ := 0x014
def regDriverFeatures : ℕ := 0x020
def regDriverFeaturesSel : ℕ := 0x024
def regQueueSel : ℕ := 0x030
def regQueueNumMax : ℕ := 0x034
def regQueueNum : ℕ := 0x038
def regQueueReady : ℕ := 0x044
def regQueueNotify : ℕ := 0x050
def regInterruptAck : ℕ := 0x064
def regStatus : ℕ := 0x070
def regQueueDescLow : ℕ := 0x080
def regQueueDescHigh : ℕ := 0x084
def regQueueDriverLow : ℕ := 0x090
def regQueueDriverHigh : ℕ := 0x094
def regQueueDeviceLow : ℕ := 0x0a0
def regQueueDeviceHigh : ℕ := 0x0a4
def regMagicRo : ℕ := 0x000
def regVersionRo : ℕ := 0x004
def regDeviceIdRo : ℕ := 0x008
def regDeviceFeatures : ℕ := 0x010
def regInterruptStatus : ℕ := 0x060

def pciDeviceFeatureSel : ℕ := 0x00
def pciDeviceFeature : ℕ := 0x04
def pciDriverFeatureSel : ℕ := 0x08
def pciDriverFeature : ℕ := 0x0c
def pciDeviceStatus : ℕ := 0x14
def pciQueueSel : ℕ := 0x16
def pciQueueSize : ℕ := 0x18
def pciQueueEnable : ℕ := 0x1c
def pciQueueNotifyOff : ℕ := 0x1e
def pciQueueDesc : ℕ := 0x20
def pciQueueDriver : ℕ := 0x28
def pciQueueDevice : ℕ := 0x30

def layoutQsize : ℕ := 8
def descOff : ℕ := 0x000
def availOff : ℕ := 0x080
def usedOff : ℕ := 0x100
def ringEnd : ℕ := usedOff + 6 + 8 * layoutQsize
def ringBlock : ℕ := 0x200
def maxQueues : ℕ := 2

def queueBlock (q : ℕ) : ℕ := q * ringBlock

structure PciFunction where
  common : ℕ
  notifyBase : ℕ
  notifyMult : ℕ
  deviceType : ℕ
  notifyAddr : ℕ → ℕ
  isr : ℕ

inductive Transport
  | mmio (mmioPhys : ℕ)
  | pci (f : PciFunction)

def regRead (mmioPhys off : ℕ) : Bus ℕ :=
  Bus.read 4 (mmioPhys + off)

def regWrite (mmioPhys off v : ℕ) : Bus Unit :=
  Bus.write 4 (mmioPhys + off) v

namespace Transport

def readReg : Transport → ℕ → Bus ℕ
  | .mmio mmioPhys, off => regRead mmioPhys off
  | .pci f, off =>
    if off = regMagicRo then pure 0x74726976
    else if off = regVersionRo then pure 2
    else if off = regDeviceIdRo then pure f.deviceType
    else if off = regDeviceFeatures then Bus.read 4 (f.common + pciDeviceFeature)
    else if off = regInterruptStatus then Bus.read 1 f.isr
    else if off = regStatus then Bus.read 1 (f.common + pciDeviceStatus)
    else if off = regQueueNumMax then do
      Bus.write 2 (f.common + pciQueueSel) 0
      Bus.read 2 (f.common + pciQueueSize)
    else pure 0

def writeReg : Transport → ℕ → ℕ → Bus Unit
  | .mmio mmioPhys, off, v => regWrite mmioPhys off v
  | .pci f, off, v =>
    if off = regDeviceFeaturesSel then Bus.write 4 (f.common + pciDeviceFeatureSel) v
    else if off = regDriverFeaturesSel then Bus.write 4 (f.common + pciDriverFeatureSel) v
    else if off = regDriverFeatures then Bus.write 4 (f.common + pciDriverFeature) v
    else if off = regStatus then Bus.write 1 (f.common + pciDeviceStatus) (v % 2 ^ 8)
    else pure ()

def queueNumMax : Transport → ℕ → Bus ℕ
  | .mmio mmioPhys, q => do
      regWrite mmioPhys regQueueSel q
      let num ← regRead mmioPhys regQueueNumMax
      pure (num % 2 ^ 16)
  | .pci f, q => do
      Bus.write 2 (f.common + pciQueueSel) q
      Bus.read 2 (f.common + pciQueueSize)

def setupQueue : Transport → (q num desc avail used : ℕ) → Bus Transport
  | .mmio m, q, num, desc, avail, used => do
      regWrite m regQueueSel q
      regWrite m regQueueNum num
      regWrite m regQueueDescLow (desc % 2 ^ 32)
      regWrite m regQueueDescHigh (desc / 2 ^ 32 % 2 ^ 32)
      regWrite m regQueueDriverLow (avail % 2 ^ 32)
      regWrite m regQueueDriverHigh (avail / 2 ^ 32 % 2 ^ 32)
      regWrite m regQueueDeviceLow (used % 2 ^ 32)
      regWrite m regQueueDeviceHigh (used / 2 ^ 32 % 2 ^ 32)
      regWrite m regQueueReady 1
      pure (.mmio m)
  | .pci f, q, num, desc, avail, used => do
      Bus.write 2 (f.common + pciQueueSel) q
      Bus.write 2 (f.common + pciQueueSize) num
      Bus.write 8 (f.common + pciQueueDesc) desc
      Bus.write 8 (f.common + pciQueueDriver) avail
      Bus.write 8 (f.common + pciQueueDevice) used
      let off ← Bus.read 2 (f.common + pciQueueNotifyOff)
      Bus.write 2 (f.common + pciQueueEnable) 1
      pure (.pci { f with notifyAddr := Function.update f.notifyAddr q (f.notifyBase + off * f.notifyMult) })

def doorbellReady : Transport → ℕ → Bool
  | .mmio _, _ => true
  | .pci f, q => f.notifyAddr q != 0

def notifyQueue : Transport → ℕ → Bus Unit
  | .mmio mmioPhys, q => regWrite mmioPhys regQueueNotify q
  | .pci f, q => Bus.write 2 (f.notifyAddr q) 0

end Transport

structure Device where
  transport : Transport
  dmaBase : ℕ
  dmaSize : ℕ
  lastAvail : ℕ → ℕ
  driverFeaturesSel : ℕ
  shadowBase : ℕ

/-- The rings of queue `q`: the driver's copies in its region and the ones the device reads in the shadow page. -/
def Device.rings (dev : Device) (q : ℕ) : Rings where
  dmaBase := dev.dmaBase
  dmaSize := dev.dmaSize
  driverDesc := dev.dmaBase + queueBlock q + descOff
  driverAvail := dev.dmaBase + queueBlock q + availOff
  shadowDesc := dev.shadowBase + queueBlock q + descOff
  shadowAvail := dev.shadowBase + queueBlock q + availOff
  qsize := layoutQsize

inductive TransportError
  | noDevice
  | badQueue
  | dmaEscape
  deriving DecidableEq

abbrev Devices := List Device

def readRegister (devs : Devices) (id off : ℕ) : Bus (Option ℕ) :=
  match devs[id]? with
  | none => pure none
  | some dev => do
      let v ← dev.transport.readReg off
      pure (some v)

/-- Bits 28 and 34 of the feature words, which would have the device read descriptors elsewhere, are cleared. -/
def sanitizeDriverFeatures (sel val : ℕ) : ℕ :=
  match sel with
  | 0 => val &&& (2 ^ 32 - 1 - 2 ^ 28)
  | 1 => val &&& (2 ^ 32 - 1 - 2 ^ 2)
  | _ => val

def safeRegisters : List ℕ :=
  [regStatus, regDeviceFeaturesSel, regDriverFeaturesSel, regDriverFeatures, regInterruptAck]

def writeRegister (devs : Devices) (id off val : ℕ) : Bus (Except TransportError Unit × Devices) :=
  if off ∉ safeRegisters then pure (.error .badQueue, devs)
  else match devs[id]? with
    | none => pure (.error .noDevice, devs)
    | some dev => do
        let dev' := if off = regDriverFeaturesSel then { dev with driverFeaturesSel := val } else dev
        let val' := if off = regDriverFeatures then sanitizeDriverFeatures dev.driverFeaturesSel val else val
        dev'.transport.writeReg off val'
        pure (.ok (), devs.set id dev')

def setupQueue (devs : Devices) (id num queue : ℕ) : Bus (Except TransportError Unit × Devices) :=
  if maxQueues ≤ queue then pure (.error .badQueue, devs)
  else match devs[id]? with
    | none => pure (.error .noDevice, devs)
    | some dev =>
      let block := queueBlock queue
      if num = 0 ∨ layoutQsize < num ∨ dev.dmaSize < block + ringEnd then pure (.error .badQueue, devs)
      else do
        let most ← dev.transport.queueNumMax queue
        if most < num then pure (.error .badQueue, devs)
        else do
          let desc := dev.shadowBase + block + descOff
          let avail := dev.shadowBase + block + availOff
          let used := dev.dmaBase + block + usedOff
          let transport ← dev.transport.setupQueue queue num desc avail used
          pure (.ok (), devs.set id { dev with transport := transport })

def notify (devs : Devices) (id queue : ℕ) : Bus (Except TransportError Unit × Devices) :=
  if maxQueues ≤ queue then pure (.error .badQueue, devs)
  else match devs[id]? with
    | none => pure (.error .noDevice, devs)
    | some dev =>
      if !dev.transport.doorbellReady queue then pure (.error .badQueue, devs)
      else do
        let rings := dev.rings queue
        let toIdx ← Bus.read 2 (rings.driverAvail + 2)
        let ok ← validateAndShadow rings (dev.lastAvail queue) toIdx
        if !ok then pure (.error .dmaEscape, devs)
        else do
          dev.transport.notifyQueue queue
          pure (.ok (), devs.set id { dev with lastAvail := Function.update dev.lastAvail queue toIdx })

inductive Error
  | notPermitted
  | wrongObject
  | deviceRefused
  | badMethod
  deriving DecidableEq

/-- An invocation of a Virtio capability for device `id`, with 64-bit arguments. `writable` says whether the
capability carries the write right. -/
structure Invocation where
  id : ℕ
  writable : Bool
  method : ℕ
  a0 : ℕ
  a1 : ℕ
  deriving DecidableEq

def methodReadReg : ℕ := 0
def methodWriteReg : ℕ := 1
def methodSetupQueue : ℕ := 2
def methodNotify : ℕ := 3

def transportResult : Except TransportError Unit → Except Error ℕ
  | .ok _ => .ok 0
  | .error .dmaEscape => .error .deviceRefused
  | .error _ => .error .wrongObject

def invoke (devs : Devices) (i : Invocation) : Bus (Except Error ℕ × Devices) :=
  if !i.writable then pure (.error .notPermitted, devs)
  else if i.method = methodReadReg then do
    match ← readRegister devs i.id i.a0 with
    | some v => pure (.ok v, devs)
    | none => pure (.error .wrongObject, devs)
  else if i.method = methodWriteReg then do
    let (r, devs') ← writeRegister devs i.id i.a0 (i.a1 % 2 ^ 32)
    pure (transportResult r, devs')
  else if i.method = methodSetupQueue then do
    let (r, devs') ← setupQueue devs i.id (i.a0 % 2 ^ 16) (i.a1 % 2 ^ 16)
    pure (transportResult r, devs')
  else if i.method = methodNotify then do
    let (r, devs') ← notify devs i.id (i.a0 % 2 ^ 16)
    pure (transportResult r, devs')
  else pure (.error .badMethod, devs)

end CrickerOs.Virtio
