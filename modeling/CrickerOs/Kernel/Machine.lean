import CrickerOs.Kernel.Ipc

/-! The kernel's IPC as a machine: each section a thread runs under the scheduler lock is one step, and so is
each scheduling decision, interrupt, death and reclaim. -/

namespace CrickerOs.Kernel

open Slots WakeHandshake Capability

variable {T E : ℕ}

inductive Request
  | send (m0 m1 m2 : ℕ)
  | recv
  | sendCap (slot : ℕ) (bits : BitVec 32) (data : ℕ)
  | recvCap
  | call (m0 m1 : ℕ)
  | reply (m0 m1 : ℕ)
  | wait
  deriving DecidableEq, Repr

def Request.frame (irqRoute : ℕ → Option EpId) (cap : Cap) (slot : ℕ) : Request → Option Frame
  | .send m0 m1 m2 =>
    match cap.object with
    | .endpoint ep => if cap.rights.allows .write then some (.calling (.send ep m0 m1 m2)) else none
    | _ => none
  | .recv =>
    match cap.object with
    | .endpoint ep => if cap.rights.allows .read then some (.calling (.recv ep)) else none
    | _ => none
  | .sendCap src bits data =>
    match cap.object with
    | .endpoint ep => if cap.rights.allows .write then some (.delegating ep src (.fromBits bits) data) else none
    | _ => none
  | .recvCap =>
    match cap.object with
    | .endpoint ep => if cap.rights.allows .read then some (.calling (.recvCap ep)) else none
    | _ => none
  | .call m0 m1 =>
    match cap.object with
    | .endpoint ep => if cap.rights.allows .write then some (.calling (.call ep m0 m1)) else none
    | _ => none
  | .reply m0 m1 =>
    match cap.object with
    | .reply tid => if cap.rights.allows .write then some (.calling (.reply tid m0 m1 slot)) else none
    | _ => none
  | .wait =>
    match cap.object with
    | .irq intid =>
      if cap.rights.allows .read then (irqRoute intid).map fun ep => .calling (.wait ep) else none
    | _ => none

inductive Action
  | switchIn (tid : Tid)
  | schedule (tid : Tid)
  | finishSwitch (tid : Tid)
  | invoke (tid : Tid) (slot : ℕ) (request : Request)
  | resolve (tid : Tid)
  | enter (tid : Tid)
  | resume (tid : Tid)
  | leave (tid : Tid)
  | consume (tid : Tid)
  | capDelete (tid : Tid) (slot : ℕ)
  | depart (tid : Tid) (event pc addr : ℕ)
  | irqNotify (ep : EpId)
  | reapRegionObjects (base limit : ℕ)
  deriving DecidableEq, Repr

def Prim.after (p : Prim) : Progress → Frame
  | .parked => .parked p
  | .done words =>
    match p with
    | .reply _ _ _ slot => .consuming slot
    | _ => .returning p words

def Prim.tail (mailbox : Mailbox) : Prim → List ℕ
  | .recv _ | .wait _ => mailbox.words
  | .recvCap _ | .call _ _ _ => [mailbox.w0, mailbox.w1, mailbox.w2]
  | _ => []

def Prim.result (aborted : Bool) (words : List ℕ) : Prim → Option (List ℕ)
  | .wait _ => some words
  | .call _ _ _ => if aborted then none else some (words.take 2)
  | _ => if aborted then none else some words

namespace Scheduler

variable (s : Scheduler T E)

section

variable (tid : Tid)

def running : Option Thread :=
  (s.threads.get tid).filter fun t => t.handshake.state = .running

def switchIn : Option (Scheduler T E) :=
  match s.threads.get tid with
  | none => none
  | some t =>
    if t.handshake.state = .ready ∧ t.handshake.onCpu = false then
      some (s.modifyThread tid fun t => { t with handshake := t.handshake.switchIn })
    else none

def schedule : Option (Scheduler T E) :=
  match s.running tid with
  | none => none
  | some t =>
    some (s.modifyThread tid fun t' =>
      { t' with handshake := if t.killed then { t'.handshake with state := .finished } else t'.handshake.preempt })

def finishSwitch : Option (Scheduler T E) :=
  match s.threads.get tid with
  | none => none
  | some t =>
    if t.handshake.onCpu ∧ t.handshake.state ≠ .running then
      match t.handshake.finishSwitch with
      | (.reap, _) => (s.threads.remove tid).map fun (_, threads) => { s with threads }
      | (_, handshake) => some (s.modifyThread tid fun t => { t with handshake })
    else none

def invoke (slot : ℕ) (request : Request) : Option (Scheduler T E) :=
  match s.running tid with
  | none => none
  | some t =>
    if t.frame = .user then
      match (t.cspace.lookup slot).bind fun cap => request.frame s.irqRoute cap slot with
      | none => some s
      | some frame => some (s.modifyThread tid fun t => { t with frame, seq := t.seq + 1 })
    else none

def resolve : Option (Scheduler T E) :=
  match s.running tid with
  | none => none
  | some t =>
    match t.frame with
    | .delegating ep slot rights data =>
      match t.cspace.lookup slot with
      | none => some (s.setFrame tid .user)
      | some src =>
        if src.rights.allows .grant ∧ rights.isSubsetOf src.rights then
          let cap : Cap := { object := src.object, rights }
          some ((s.setFrame tid (.calling (.sendCap ep data cap))).record (.passed (s.callOf tid) ep cap))
        else some (s.setFrame tid .user)
    | _ => none

def runPrim : Prim → Progress × Scheduler T E
  | .send ep m0 m1 m2 => s.ipcSend tid ep m0 m1 m2
  | .recv ep => s.ipcRecv tid ep
  | .sendCap ep data cap => s.ipcSendCap tid ep data cap
  | .recvCap ep => s.ipcRecvCap tid ep
  | .call ep m0 m1 => s.ipcCall tid ep m0 m1
  | .wait ep => s.ipcRecv tid ep
  | .reply caller m0 m1 slot =>
    let origin := ((s.threads.get tid).map fun t => t.origins slot).getD (s.callOf tid)
    (.done [], s.ipcReply caller m0 m1 (s.callOf tid) origin)

def enter : Option (Scheduler T E) :=
  match s.running tid with
  | none => none
  | some t =>
    match t.frame with
    | .calling p =>
      let (progress, s) := s.runPrim tid p
      some (s.setFrame tid (p.after progress))
    | _ => none

def resume : Option (Scheduler T E) :=
  match s.running tid with
  | none => none
  | some t =>
    match t.frame with
    | .parked p => some (s.setFrame tid (.returning p (p.tail t.mailbox)))
    | _ => none

def leave : Option (Scheduler T E) :=
  match s.running tid with
  | none => none
  | some t =>
    match t.frame with
    | .returning p words =>
      let (aborted, handshake) :=
        match p with
        | .wait _ => (false, t.handshake)
        | _ => t.handshake.takeAborted
      some ((s.modifyThread tid fun t => { t with frame := .user, handshake }).record
        (.returned (s.callOf tid) p (p.result aborted words)))
    | _ => none

def consume : Option (Scheduler T E) :=
  match s.running tid with
  | none => none
  | some t =>
    match t.frame with
    | .consuming slot => some (s.modifyThread tid fun t =>
        { t with frame := .user, cspace := t.cspace.erase slot })
    | _ => none

def capDelete (slot : ℕ) : Option (Scheduler T E) :=
  match s.running tid with
  | none => none
  | some t =>
    if t.frame = .user then some (s.modifyThread tid fun t => { t with cspace := t.cspace.erase slot }) else none

def departs (event pc addr : ℕ) : Option (Scheduler T E) :=
  match s.running tid with
  | none => none
  | some t => if t.frame = .user then some (s.depart tid event pc addr) else none

end

def step : Action → Option (Scheduler T E)
  | .switchIn tid => s.switchIn tid
  | .schedule tid => s.schedule tid
  | .finishSwitch tid => s.finishSwitch tid
  | .invoke tid slot request => s.invoke tid slot request
  | .resolve tid => s.resolve tid
  | .enter tid => s.enter tid
  | .resume tid => s.resume tid
  | .leave tid => s.leave tid
  | .consume tid => s.consume tid
  | .capDelete tid slot => s.capDelete tid slot
  | .depart tid event pc addr => s.departs tid event pc addr
  | .irqNotify ep => some (s.irqNotify ep)
  | .reapRegionObjects base limit => some (s.reapRegionObjects base limit).2

end Scheduler

def Thread.Fresh (t : Thread) : Prop :=
  (t.handshake = .onCpuNow ∨ t.handshake = .ready ∨ t.handshake = .embryo) ∧ t.frame = .user ∧
    t.outgoingCap = none ∧ ∀ slot cap, t.cspace.lookup slot = some cap → cap.object.isReply = false

structure Scheduler.Start (s : Scheduler T E) : Prop where
  threads : ∀ tid t, s.threads.get tid = some t → t.Fresh
  endpoints : ∀ ep e, s.endpointOf ep = some e → e.senders = [] ∧ e.receivers = []
  trace : s.trace = []

end CrickerOs.Kernel
