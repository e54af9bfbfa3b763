import CrickerOs.Kernel.Ipc

namespace CrickerOs.Kernel

open Slots WakeHandshake

variable {T E : ℕ}

inductive AbiError
  | noSuchSlot
  | wrongObject
  | notPermitted
  | outOfMemory
  deriving DecidableEq, Repr

def faultEpSlot : ℕ :=
  cspaceSlots - 1

def Thread.new (handshake : Handshake (EpId × WaitRole)) (page : ℕ) (tcbRegion : Option ℕ) : Thread where
  handshake := handshake
  cspace := .new
  mailbox := ⟨0, 0, 0, 0, 0⟩
  outgoingCap := none
  killed := false
  faultEp := none
  faultMsg := none
  page := page
  tcbRegion := tcbRegion
  space := none
  frame := .user
  seq := 0
  origins := fun _ => ⟨0, 0⟩
  outgoingOrigin := ⟨0, 0⟩

def Thread.supervised (t : Thread) : Thread :=
  match t.cspace.lookup faultEpSlot with
  | some ⟨.endpoint ep, _⟩ => { t with faultEp := some ep, cspace := t.cspace.erase faultEpSlot }
  | _ => t

namespace Scheduler

variable (s : Scheduler T E)

def insertThread (t : Thread) : Option (Tid × Scheduler T E) :=
  (s.threads.insertWith fun _ => t).map fun (tid, threads) => (tid, { s with threads })

def spawn (page : ℕ) : Option (Tid × Scheduler T E) :=
  s.insertThread (.new .ready page none)

def adoptCurrent (page : ℕ) : Option (Tid × Scheduler T E) :=
  s.insertThread (.new .onCpuNow page none)

def createTcb (region page : ℕ) : Option (Tid × Scheduler T E) :=
  s.insertThread (.new .embryo page (some region))

def createEndpointFrom (page : ℕ) : Option (EpId × Scheduler T E) :=
  (s.endpoints.insertWith fun _ => ⟨page, .new⟩).map fun (ep, endpoints) => (ep, { s with endpoints })

def grant (current : Tid) (cap : Cap) : Option (ℕ × Scheduler T E) :=
  match s.threads.get current with
  | none => none
  | some t =>
    match t.cspace.insert cap with
    | .error _ => none
    | .ok (slot, cspace) => some (slot, s.modifyThread current fun t => { t with cspace })

def configureTcb (tid : Tid) (space : AddressSpace) : Except AbiError (Scheduler T E) :=
  match s.threads.get tid with
  | none => .error .noSuchSlot
  | some t =>
    if t.handshake.state ≠ .embryo then .error .wrongObject
    else .ok (s.modifyThread tid fun t => { t with space := some space })

def tcbInsertCap (tid : Tid) (cap : Cap) (target : Option ℕ) :
    Except AbiError (ℕ × Scheduler T E) :=
  match s.threads.get tid with
  | none => .error .noSuchSlot
  | some t =>
    if t.handshake.state ≠ .embryo then .error .wrongObject
    else
      match target.elim (t.cspace.insert cap) (t.cspace.insertAt · cap) with
      | .error _ => .error .outOfMemory
      | .ok (slot, cspace) => .ok (slot, s.modifyThread tid fun t => { t with cspace })

/-- `entry` is what `CONFIGURE` recorded, and `stack` whether a kernel stack was to be had. Without one the fault
slot is consumed all the same. -/
def startTcb (tid : Tid) (entry : ℕ) (stack : Bool) : Except AbiError Unit × Scheduler T E :=
  match s.threads.get tid with
  | none => (.error .noSuchSlot, s)
  | some t =>
    if t.handshake.state ≠ .embryo then (.error .wrongObject, s)
    else if t.space.isNone ∨ entry = 0 then (.error .notPermitted, s)
    else
      let s := s.modifyThread tid Thread.supervised
      if stack then (.ok (), s.modifyThread tid fun t =>
        { t with handshake := { t.handshake with state := .ready } })
      else (.error .outOfMemory, s)

end Scheduler

end CrickerOs.Kernel
