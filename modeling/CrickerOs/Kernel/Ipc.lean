import CrickerOs.Kernel.Scheduler

namespace CrickerOs.Kernel

open Slots WakeHandshake

variable {T E : ℕ}

inductive Progress
  | parked
  | done (words : List ℕ)
  deriving DecidableEq, Repr

def wide (m0 m1 m2 : ℕ) : Mailbox :=
  ⟨m0, m1, m2, 0, 0⟩

def Mailbox.words (m : Mailbox) : List ℕ :=
  [m.w0, m.w1, m.w2, m.w3, m.w4]

namespace Scheduler

def deliver (s : Scheduler T E) (receiver : Tid) (mailbox : Mailbox) : Scheduler T E :=
  (s.modifyThread receiver fun r => { r with mailbox, handshake := r.handshake.serve }).wake receiver

def insertCap (s : Scheduler T E) (tid : Tid) (cap : Cap) (origin call : CallId) (ep : EpId) : ℕ × Scheduler T E :=
  match s.threads.get tid with
  | none => (noCap, s)
  | some t =>
    match t.cspace.insert cap with
    | .error _ => (noCap, s)
    | .ok (slot, cspace) =>
      (slot, (s.modifyThread tid fun t =>
          { t with cspace, origins := Function.update t.origins slot origin }).record
        (.handed origin call ep cap (s.callOf tid) slot (t.cspace.lookup slot)))

def ipcSend (s : Scheduler T E) (current : Tid) (ep : EpId) (m0 m1 m2 : ℕ) : Progress × Scheduler T E :=
  match s.endpointOf ep with
  | none => (.done [], s.setIpcAborted current)
  | some endpoint =>
    match endpoint.send current with
    | (.rendezvous receiver, endpoint) => (.done [], (s.setEndpoint ep endpoint).deliver receiver (wide m0 m1 m2))
    | (.blocked, endpoint) =>
      (.parked, (s.setEndpoint ep endpoint).modifyThread current fun me =>
        { me with mailbox := wide m0 m1 m2, handshake := me.handshake.park (ep, .sender) })

def leaveBlocked (sender : Thread) : Bool :=
  sender.outgoingCap.any (·.object.isReply) || sender.handshake.state == .dead

section

variable (s : Scheduler T E)

def ipcRecv (current : Tid) (ep : EpId) : Progress × Scheduler T E :=
  match s.endpointOf ep with
  | none => (.done [0, 0, 0, 0, 0], s.setIpcAborted current)
  | some endpoint =>
    match endpoint.recv current with
    | (.signal, endpoint) => (.done [1, 0, 0, 0, 0], s.setEndpoint ep endpoint)
    | (.fromSender sender, endpoint) =>
      let s := s.setEndpoint ep endpoint
      match s.threads.get sender with
      | none => (.done [0, 0, 0, 0, 0], s)
      | some t =>
        if leaveBlocked t = false then
          (.done t.mailbox.words,
            (s.modifyThread sender fun t => { t with handshake := t.handshake.serve }).wake sender)
        else if t.handshake.state = .dead then
          (.done t.mailbox.words, s.modifyThread sender fun t =>
            { t with handshake := { t.handshake with waitOn := none } })
        else (.done t.mailbox.words, s)
    | (.blocked, endpoint) =>
      (.parked, (s.setEndpoint ep endpoint).modifyThread current fun me =>
        { me with handshake := me.handshake.park (ep, .receiver) })

def ipcSendCap (current : Tid) (ep : EpId) (data : ℕ) (cap : Cap) : Progress × Scheduler T E :=
  match s.endpointOf ep with
  | none => (.done [], s.setIpcAborted current)
  | some endpoint =>
    match endpoint.send current with
    | (.rendezvous receiver, endpoint) =>
      let (slot, s) := (s.setEndpoint ep endpoint).insertCap receiver cap (s.callOf current) (s.callOf current) ep
      (.done [], s.deliver receiver ⟨data, slot, 0, 0, 0⟩)
    | (.blocked, endpoint) =>
      (.parked, (s.setEndpoint ep endpoint).modifyThread current fun me =>
        { me with
          mailbox := ⟨data, 0, 0, 0, 0⟩
          outgoingCap := some cap
          outgoingOrigin := s.callOf current
          handshake := me.handshake.park (ep, .sender) })

def ipcRecvCap (current : Tid) (ep : EpId) : Progress × Scheduler T E :=
  match s.endpointOf ep with
  | none => (.done [0, 0, 0], s.setIpcAborted current)
  | some endpoint =>
    match endpoint.recv current with
    | (.signal, endpoint) => (.done [1, noCap, 0], s.setEndpoint ep endpoint)
    | (.fromSender sender, endpoint) =>
      let s := s.setEndpoint ep endpoint
      match s.threads.get sender with
      | none => (.done [0, 0, 0], s)
      | some t =>
        let s := s.modifyThread sender fun t => { t with outgoingCap := none }
        let s := s.record (.collected (s.callOf sender) (s.callOf current))
        match t.outgoingCap with
        | none =>
          (.done [t.mailbox.w0, noCap, t.mailbox.w1],
            (s.modifyThread sender fun t => { t with handshake := t.handshake.serve }).wake sender)
        | some cap =>
          let (slot, s) := s.insertCap current cap t.outgoingOrigin (s.callOf sender) ep
          if cap.object.isReply then (.done [t.mailbox.w0, slot, t.mailbox.w1], s)
          else
            (.done [t.mailbox.w0, slot, t.mailbox.w1],
              (s.modifyThread sender fun t => { t with handshake := t.handshake.serve }).wake sender)
    | (.blocked, endpoint) =>
      (.parked, (s.setEndpoint ep endpoint).modifyThread current fun me =>
        { me with handshake := me.handshake.park (ep, .receiver) })

def ipcCall (current : Tid) (ep : EpId) (m0 m1 : ℕ) : Progress × Scheduler T E :=
  match s.endpointOf ep with
  | none => (.done [0, 0, 0], s.setIpcAborted current)
  | some endpoint =>
    match endpoint.send current with
    | (.rendezvous receiver, endpoint) =>
      let s := (s.setEndpoint ep endpoint).record (.collected (s.callOf current) (s.callOf receiver))
      let (slot, s) := s.insertCap receiver (replyCap current) (s.callOf current) (s.callOf current) ep
      let s := s.deliver receiver ⟨m0, slot, m1, 0, 0⟩
      (.parked, s.modifyThread current fun me => { me with handshake := me.handshake.park (ep, .reply) })
    | (.blocked, endpoint) =>
      (.parked, (s.setEndpoint ep endpoint).modifyThread current fun me =>
        { me with
          mailbox := ⟨m0, m1, 0, 0, 0⟩
          outgoingCap := some (replyCap current)
          outgoingOrigin := s.callOf current
          handshake := me.handshake.park (ep, .reply) })

def ipcReply (caller : Tid) (m0 m1 : ℕ) (reply origin : CallId) : Scheduler T E :=
  match s.threads.get caller with
  | none => s
  | some t =>
    match t.handshake.waitOn with
    | some (_, .reply) => (s.record (.replied reply (s.callOf caller) origin m0 m1)).deliver caller
        ⟨m0, m1, 0, 0, 0⟩
    | _ => s

def irqNotify (ep : EpId) : Scheduler T E :=
  match s.endpointOf ep with
  | none => s
  | some endpoint =>
    match endpoint.signal with
    | (some waiter, endpoint) => (s.setEndpoint ep endpoint).deliver waiter ⟨1, 0, 0, 0, 0⟩
    | (none, endpoint) => s.setEndpoint ep endpoint

def deliverDeath (corpse : Tid) (ep : EpId) (msg : Mailbox) : Scheduler T E :=
  match s.endpointOf ep with
  | none => s
  | some endpoint =>
    match endpoint.send corpse with
    | (.rendezvous receiver, endpoint) => (s.setEndpoint ep endpoint).deliver receiver msg
    | (.blocked, endpoint) =>
      (s.setEndpoint ep endpoint).modifyThread corpse fun t =>
        { t with handshake := { t.handshake with waitOn := some (ep, .sender) } }

def depart (current : Tid) (event pc addr : ℕ) : Scheduler T E :=
  match (s.threads.get current).bind Thread.faultEp with
  | none => s.modifyThread current fun t => { t with handshake := { t.handshake with state := .finished } }
  | some ep =>
    let msg : Mailbox := ⟨event, current, pc, addr, 0⟩
    (s.modifyThread current fun t =>
      { t with faultMsg := some msg, mailbox := msg, handshake :=
        { t.handshake with state := .dead } }).deliverDeath
        current ep msg

end

inductive RegionReap
  | reap
  | refuseAndArm
  | refuseStanding
  deriving DecidableEq, Repr

def regionReapVerdict (state : RunState) (onCpu : Bool) : RegionReap :=
  if state = .ready ∨ state = .running ∨ state = .blocked then .refuseAndArm
  else if onCpu then .refuseStanding
  else .reap

def destroyEndpoint (s : Scheduler T E) (name : EpId) : Scheduler T E :=
  match s.endpointOf name with
  | none => s
  | some endpoint =>
    let s := s.setEndpoint name { endpoint with senders := [], receivers := [] }
    let s := endpoint.drainWaiters.foldl (fun s tid => (s.setIpcAborted tid).wake tid) s
    match s.endpoints.remove name with
    | none => s
    | some (_, endpoints) => { s with endpoints }

def sweepEndpoints (base limit : ℕ) : ℕ → Scheduler T E → Scheduler T E
  | 0, s => s
  | fuel + 1, s =>
    match s.endpoints.iter.find? fun (_, e) => base ≤ e.page ∧ e.page < limit with
    | none => s
    | some (name, _) => sweepEndpoints base limit fuel (s.destroyEndpoint name)

def resident (base limit : ℕ) (t : Thread) : Bool :=
  base ≤ t.page ∧ t.page < limit

def unlinkCorpse (s : Scheduler T E) (tid : Tid) : Scheduler T E :=
  match ((s.threads.get tid).filter fun t => t.handshake.state = .dead).bind Thread.faultEp with
  | none => s
  | some ep =>
    match s.endpointOf ep with
    | none => s
    | some endpoint => s.setEndpoint ep (endpoint.removeSender tid)

def removeThread (s : Scheduler T E) (tid : Tid) : Scheduler T E :=
  match s.threads.remove tid with
  | none => s
  | some (_, threads) => { s with threads }

def reapThread (s : Scheduler T E) (tid : Tid) : Scheduler T E :=
  (s.unlinkCorpse tid).removeThread tid

def arm (base limit : ℕ) (t : Thread) : Thread :=
  if resident base limit t ∧ regionReapVerdict t.handshake.state t.handshake.onCpu = .refuseAndArm then
    { t with killed := true }
  else t

def reapRegionObjects (s : Scheduler T E) (base limit : ℕ) : Bool × Scheduler T E :=
  let s := sweepEndpoints base limit E s
  let refused := s.threads.values.any fun t =>
    resident base limit t && regionReapVerdict t.handshake.state t.handshake.onCpu != .reap
  let s := { s with threads := s.threads.mapValues (arm base limit) }
  if refused then (false, s)
  else
    let doomed := (s.threads.iter.filter fun (_, t) => resident base limit t).map Prod.fst
    (true, doomed.foldl reapThread s)

end Scheduler

end CrickerOs.Kernel
