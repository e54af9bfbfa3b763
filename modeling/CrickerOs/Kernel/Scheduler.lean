import CrickerOs.Capability.CSpace
import CrickerOs.Ipc.Endpoint
import CrickerOs.Slots.Table
import CrickerOs.WakeHandshake.Handshake

namespace CrickerOs.Kernel

open Slots WakeHandshake

abbrev Tid := ℕ

abbrev EpId := ℕ

inductive Object
  | endpoint (ep : EpId)
  | untyped (region : ℕ)
  | irq (intid : ℕ)
  | frame (phys : ℕ)
  | deviceFrame (phys : ℕ)
  | reply (tid : Tid)
  | aspace (name : ℕ)
  | tcb (tid : Tid)
  | virtio (id : ℕ)
  deriving DecidableEq, Repr

abbrev Rights := Capability.Rights

abbrev Cap := Capability.Cap Object

def cspaceSlots : ℕ :=
  16

abbrev CSpace := Capability.CSpace Object cspaceSlots

def replyCap (tid : Tid) : Cap :=
  { object := .reply tid, rights := Capability.Rights.write }

def Object.isReply : Object → Bool
  | .reply _ => true
  | _ => false

def noCap : ℕ :=
  2 ^ 64 - 1

structure Mailbox where
  w0 : ℕ
  w1 : ℕ
  w2 : ℕ
  w3 : ℕ
  w4 : ℕ
  deriving DecidableEq, Repr

inductive WaitRole
  | sender
  | receiver
  | reply
  deriving DecidableEq, Repr

structure CallId where
  tid : Tid
  seq : ℕ
  deriving DecidableEq, Repr

inductive Prim
  | send (ep : EpId) (m0 m1 m2 : ℕ)
  | recv (ep : EpId)
  | sendCap (ep : EpId) (data : ℕ) (cap : Cap)
  | recvCap (ep : EpId)
  | call (ep : EpId) (m0 m1 : ℕ)
  | wait (ep : EpId)
  | reply (caller : Tid) (m0 m1 slot : ℕ)
  deriving DecidableEq, Repr

inductive Frame
  | user
  | delegating (ep : EpId) (slot : ℕ) (rights : Rights) (data : ℕ)
  | calling (p : Prim)
  | parked (p : Prim)
  | returning (p : Prim) (words : List ℕ)
  | consuming (slot : ℕ)
  deriving DecidableEq, Repr

inductive Backing
  | owned (region : ℕ)
  | lent (region : ℕ)
  deriving DecidableEq, Repr

structure AddressSpace where
  root : ℕ
  asid : ℕ
  backing : Backing
  deriving DecidableEq, Repr

/-- `seq`, `origins` and `outgoingOrigin` are history, which nothing reads. -/
structure Thread where
  handshake : Handshake (EpId × WaitRole)
  cspace : CSpace
  mailbox : Mailbox
  outgoingCap : Option Cap
  killed : Bool
  faultEp : Option EpId
  faultMsg : Option Mailbox
  page : ℕ
  tcbRegion : Option ℕ
  space : Option AddressSpace
  frame : Frame
  seq : ℕ
  origins : ℕ → CallId
  outgoingOrigin : CallId

structure EndpointPage where
  page : ℕ
  endpoint : Ipc.Endpoint Tid
  deriving DecidableEq, Repr

/-- What is recorded of a run: a capability passed to `SEND_CAP`; one put into a receiver's slot; a message taken
by `RECV_CAP`, or by the receiver a `CALL` met; a reply delivered; a system call back in user mode. -/
inductive Event
  | passed (call : CallId) (ep : EpId) (cap : Cap)
  | handed (origin call : CallId) (ep : EpId) (cap : Cap) (receipt : CallId) (slot : ℕ) (before : Option Cap)
  | collected (call receipt : CallId)
  | replied (reply call origin : CallId) (m0 m1 : ℕ)
  | returned (call : CallId) (p : Prim) (words : Option (List ℕ))
  deriving DecidableEq, Repr

structure Scheduler (T E : ℕ) where
  threads : Table Thread T
  endpoints : Table EndpointPage E
  irqRoute : ℕ → Option EpId
  trace : List Event

namespace Scheduler

variable {T E : ℕ}

variable (s : Scheduler T E)

def modifyThread (tid : Tid) (f : Thread → Thread) : Scheduler T E :=
  { s with threads := s.threads.modify tid f }

def record (e : Event) : Scheduler T E :=
  { s with trace := e :: s.trace }

def endpointOf (ep : EpId) : Option (Ipc.Endpoint Tid) :=
  (s.endpoints.get ep).map EndpointPage.endpoint

def setEndpoint (ep : EpId) (endpoint : Ipc.Endpoint Tid) : Scheduler T E :=
  { s with endpoints := s.endpoints.modify ep fun e => { e with endpoint } }

def setIpcAborted (tid : Tid) : Scheduler T E :=
  s.modifyThread tid fun t => { t with handshake := t.handshake.abort }

def wake (tid : Tid) : Scheduler T E :=
  s.modifyThread tid fun t => { t with handshake := t.handshake.tryWake.2 }

def setFrame (tid : Tid) (frame : Frame) : Scheduler T E :=
  s.modifyThread tid fun t => { t with frame }

def callOf (tid : Tid) : CallId :=
  { tid, seq := ((s.threads.get tid).map Thread.seq).getD 0 }

end Scheduler

end CrickerOs.Kernel
