import CrickerOs.Virtio.Transport

namespace CrickerOs.Virtio

open Library DmaValidator Transport

def writesIn (first last : ℕ) : Access → Prop
  | .read _ _ => False
  | .write bytes addr _ => addr < last ∧ first < addr + bytes

def PciFunction.doorbell (f : PciFunction) (off : ℕ) : ℕ :=
  f.notifyBase + off * f.notifyMult

namespace Transport

variable (slot : ℕ) (bars : List (ℕ × ℕ))

def Registers : Transport → Access → Prop
  | .mmio mmioPhys, e => e.Inside mmioPhys (mmioPhys + slot)
  | .pci _, e => ∃ bar ∈ bars, e.Inside bar.1 bar.2

def Rings : Transport → Access → Prop
  | .mmio mmioPhys, e => writesIn (mmioPhys + regQueueNotify) (mmioPhys + regQueueNotify + 4) e
  | .pci f, e => ∃ off < 2 ^ 16, writesIn (f.doorbell off) (f.doorbell off + 2) e

def Addresses : Transport → Access → Prop
  | .mmio mmioPhys, e => writesIn (mmioPhys + regQueueDescLow) (mmioPhys + regQueueDeviceHigh + 4) e
  | .pci f, e => writesIn (f.common + pciQueueDesc) (f.common + pciQueueDevice + 8) e

def addressWrites : Transport → (desc avail used : ℕ) → List Access
  | .mmio m, desc, avail, used =>
    [.write 4 (m + regQueueDescLow) (desc % 2 ^ 32), .write 4 (m + regQueueDescHigh) (desc / 2 ^ 32 % 2 ^ 32),
      .write 4 (m + regQueueDriverLow) (avail % 2 ^ 32),
      .write 4 (m + regQueueDriverHigh) (avail / 2 ^ 32 % 2 ^ 32),
      .write 4 (m + regQueueDeviceLow) (used % 2 ^ 32), .write 4 (m + regQueueDeviceHigh) (used / 2 ^ 32 % 2 ^ 32)]
  | .pci f, desc, avail, used =>
    [.write 8 (f.common + pciQueueDesc) desc, .write 8 (f.common + pciQueueDriver) avail,
      .write 8 (f.common + pciQueueDevice) used]

/-- The slot holds the registers, or the function's blocks and doorbells are in BARs and its doorbells outside the
common block; and the shadow page at `shadow` is none of the device's registers. -/
def Placed (shadow : ℕ) : Transport → Prop
  | .mmio mmioPhys =>
    0x200 ≤ slot ∧ mmioPhys + slot ≤ 2 ^ 64 ∧ (mmioPhys + slot ≤ shadow ∨ shadow + 4096 ≤ mmioPhys)
  | .pci f =>
    (∀ bar ∈ bars, bar.2 ≤ 2 ^ 64 ∧ (bar.2 ≤ shadow ∨ shadow + 4096 ≤ bar.1)) ∧
      (∃ bar ∈ bars, bar.1 ≤ f.common ∧ f.common + 0x38 ≤ bar.2) ∧
      (∃ bar ∈ bars, bar.1 ≤ f.isr ∧ f.isr + 1 ≤ bar.2) ∧
      ∀ off < 2 ^ 16, (∃ bar ∈ bars, bar.1 ≤ f.doorbell off ∧ f.doorbell off + 2 ≤ bar.2) ∧
        (f.doorbell off + 2 ≤ f.common ∨ f.common + 0x38 ≤ f.doorbell off)

/-- A doorbell the transport remembers is one of the function's, and its queue fits in a region of `size` bytes. -/
def Resolved (size : ℕ) : Transport → Prop
  | .mmio _ => True
  | .pci f => ∀ q < maxQueues, f.notifyAddr q ≠ 0 →
      (∃ off < 2 ^ 16, f.notifyAddr q = f.doorbell off) ∧ queueBlock q + ringEnd ≤ size

end Transport

structure Board where
  slot : ℕ
  bars : ℕ → List (ℕ × ℕ)

structure Device.Sound (board : Board) (id : ℕ) (dev : Device) : Prop where
  placed : dev.transport.Placed board.slot (board.bars id) dev.shadowBase
  resolved : dev.transport.Resolved dev.dmaSize
  region : dev.dmaBase + dev.dmaSize ≤ 2 ^ 64
  shadow : dev.shadowBase + 4096 ≤ 2 ^ 64

structure Machine where
  devices : Devices
  log : List (Access × ℕ)

def ringAddresses (dev : Device) (i : Invocation) : List Access :=
  dev.transport.addressWrites (dev.rings (i.a1 % 2 ^ 16)).shadowDesc (dev.rings (i.a1 % 2 ^ 16)).shadowAvail
    (dev.dmaBase + queueBlock (i.a1 % 2 ^ 16) + usedOff)

structure Serves (board : Board) (i : Invocation) (dev : Device) (log : List (Access × ℕ)) (e : Access) :
    Prop where
  fits : e.Inside 0 (2 ^ 64)
  own : dev.transport.Registers board.slot (board.bars i.id) e ∨
    (i.method = methodNotify ∧
      e.Inside (dev.dmaBase + queueBlock (i.a0 % 2 ^ 16)) (dev.dmaBase + queueBlock (i.a0 % 2 ^ 16) + ringBlock) ∧
      e.Inside dev.dmaBase (dev.dmaBase + dev.dmaSize)) ∨
    e.Inside dev.shadowBase (dev.shadowBase + 4096)
  addresses : dev.transport.Addresses e → i.method = methodSetupQueue ∧ e ∈ ringAddresses dev i
  doorbell : dev.transport.Rings e → i.method = methodNotify ∧ ∃ before batch toIdx, log = before ++ batch ∧
    (validateAndShadow (dev.rings (i.a0 % 2 ^ 16)) (dev.lastAvail (i.a0 % 2 ^ 16)) toIdx).Returns batch true

def Transport.isMmio : Transport → Bool
  | .mmio _ => true
  | .pci _ => false

/-- On mmio, a register read is inside the slot, and a queue that is notified has its rings in the DMA region. -/
def InSlot (board : Board) (dev : Device) (i : Invocation) : Prop :=
  dev.transport.isMmio → (i.method = methodReadReg → i.a0 + 4 ≤ board.slot) ∧
    (i.method = methodNotify → i.a0 % 2 ^ 16 < maxQueues → queueBlock (i.a0 % 2 ^ 16) + ringEnd ≤ dev.dmaSize)

instance (board : Board) (dev : Device) (i : Invocation) : Decidable (InSlot board dev i) :=
  inferInstanceAs (Decidable (_ → _ ∧ _))

def AllSound (board : Board) (devs : Devices) : Prop :=
  ∀ (id : ℕ) (dev : Device), devs[id]? = some dev → dev.Sound board id

def record (e : Access) (word : ℕ) (s : Machine) : Machine :=
  { s with log := s.log ++ [(e, word)] }

def contract (board : Board) : Contract Invocation Machine Access ℕ where
  apply := record
  accepts := fun s i => ∀ dev ∈ s.devices[i.id]?, InSlot board dev i
  ok := always
  safe := fun i s e => ∃ dev, s.devices[i.id]? = some dev ∧ Serves board i dev s.log e
  inv := fun s => AllSound board s.devices

variable {board : Board} {i : Invocation} {dev dev' : Device} {devs : Devices} {s : Machine}
  {log : List (Access × ℕ)}
  {id off n v m : ℕ} {e : Access} {f : PciFunction}

lemma AllSound.set (h : AllSound board devs) (hdev : dev'.Sound board id) : AllSound board (devs.set id dev') := by
  intro id' dev hget
  rw [List.getElem?_set] at hget
  split at hget
  · split at hget
    · subst id'
      exact Option.some.inj hget ▸ hdev
    · exact nomatch hget
  · exact h id' dev hget

variable {first last first' last' a num : ℕ}

lemma inside_mono (h : e.Inside first last) (hl : first' ≤ first) (hr : last ≤ last') :
    e.Inside first' last' := by
  cases e <;> exact ⟨hl.trans h.1, h.2.trans hr⟩

lemma Serves.register (hsound : dev.Sound board i.id) (hreg : dev.transport.Registers board.slot (board.bars i.id)
    e) (haddress : dev.transport.Addresses e → i.method = methodSetupQueue ∧ e ∈ ringAddresses dev i)
    (hquiet : ¬ dev.transport.Rings e) : Serves board i dev log e := by
  refine ⟨?_, .inl hreg, haddress, fun h => absurd h hquiet⟩
  have hplaced := hsound.placed
  revert hreg hplaced
  cases dev.transport with
  | mmio m => exact fun hreg hplaced => inside_mono hreg (Nat.zero_le _) hplaced.2.1
  | pci f =>
    rintro ⟨bar, hbar, hin⟩ ⟨hbars, -⟩
    exact inside_mono hin (Nat.zero_le _) (hbars bar hbar).1

section

variable (hsound : dev.Sound board i.id) (ht : dev.transport = .mmio m)
include hsound ht

end

section

variable (hsound : dev.Sound board i.id) (ht : dev.transport = .pci f)
include hsound ht

end

section

variable (hsound : dev.Sound board i.id)
include hsound

end

section

variable (hinv : AllSound board s.devices)
include hinv

end

/-- Invocations of Virtio capabilities, one access at a time. The device table is locked for a whole invocation. -/
def step : Session Invocation Machine Access ℕ (Except Error ℕ × Devices) → Session.Event Invocation ℕ →
    Option (Session Invocation Machine Access ℕ (Except Error ℕ × Devices)) :=
  Session.step record (fun s i => invoke s.devices i) fun r s => { s with devices := r.2 }

def slots : Board :=
  { slot := 0x200, bars := fun _ => [] }

def disk : Device :=
  { transport := .mmio 0x0a000000, dmaBase := 0x48000000, dmaSize := 0x1000, lastAvail := fun _ => 0,
    driverFeaturesSel := 0, shadowBase := 0x48001000 }

end CrickerOs.Virtio
