import CrickerOs.Kernel.Lifecycle
import CrickerOs.Kernel.Machine

namespace CrickerOs.Kernel

open Slots WakeHandshake

variable {N T E : ℕ}

structure Core (N : ℕ) where
  current : Option Tid
  idle : Option Tid
  switchedFrom : Option Tid
  runq : List Tid
  inbox : List Tid
  stealRequest : Option (Fin N)
  serving : Option (Tid × Fin N)
  deriving DecidableEq, Repr

structure Cores (N T E : ℕ) where
  sched : Scheduler T E
  core : Fin N → Core N

def Action.actor : Action → Option Tid
  | .invoke tid _ _ | .resolve tid | .enter tid | .resume tid | .leave tid | .consume tid | .capDelete tid _
  | .depart tid _ _ _ => some tid
  | .switchIn _ | .schedule _ | .finishSwitch _ | .irqNotify _ | .reapRegionObjects _ _ => none

/-- What a core can do next. Where a load decides on a core, it is an argument: the counters read are other cores'
and may be stale. -/
inductive CoreAction (N : ℕ)
  | schedule
  | finishSwitch
  | drainInbox
  | takeStealRequest
  | serveStealRequest
  | tryInitiateSteal (victim : Fin N)
  | run (a : Action)
  | irqNotify (ep : EpId) (target : Fin N)
  | reapRegionObjects (base limit : ℕ)
  | adoptSecondaryIdle (page : ℕ)
  | spawnOn (target : Fin N) (page : ℕ)
  | createEndpointFrom (page : ℕ)
  | createTcb (region page : ℕ)
  | grant (cap : Cap)
  | configureTcb (tid : Tid) (space : AddressSpace)
  | tcbInsertCap (tid : Tid) (cap : Cap) (slot : Option ℕ)
  | startTcb (tid : Tid) (entry : ℕ) (stack : Bool) (target : Fin N)

/-- The threads that a step makes ready. It makes several ready only where it drains the queues of endpoints, and
then in the order of the queues. -/
def Scheduler.readied (s s' : Scheduler T E) : List Tid :=
  let queued := s.endpoints.values.flatMap fun p => p.endpoint.drainWaiters
  (s.threads.iter.map Prod.fst ++ queued).dedup.filter fun tid =>
    (s.threads.get tid).any (·.handshake.state = .blocked) ∧
      (s'.threads.get tid).any (·.handshake.state = .ready)

namespace Cores

section

variable (s : Cores N T E)

def modifyCore (c : Fin N) (f : Core N → Core N) : Cores N T E :=
  { s with core := Function.update s.core c (f (s.core c)) }

def pushRunq (c : Fin N) (tids : List Tid) : Cores N T E :=
  s.modifyCore c fun k => { k with runq := k.runq ++ tids }

def pushInbox (c : Fin N) (tids : List Tid) : Cores N T E :=
  s.modifyCore c fun k => { k with inbox := k.inbox ++ tids }

def placeOn (c target : Fin N) (tids : List Tid) : Cores N T E :=
  if target = c then s.pushRunq c tids else s.pushInbox target tids

def after (c target : Fin N) (sched : Scheduler T E) : Cores N T E :=
  ({ s with sched } : Cores N T E).placeOn c target (s.sched.readied sched)

def switchTo (c : Fin N) (current next : Tid) (runnable : Bool) : Option (Cores N T E) :=
  let requeue := runnable && (s.core c).idle != some current
  let sched := if requeue then s.sched.modifyThread current fun t => { t with handshake := t.handshake.preempt }
    else s.sched
  let s := if requeue then ({ s with sched } : Cores N T E).pushRunq c [current] else s
  if (s.sched.threads.get next).isSome then
    let sched := s.sched.modifyThread next fun t => { t with handshake := t.handshake.switchIn }
    some (({ s with sched } : Cores N T E).modifyCore c fun k =>
      { k with current := some next, switchedFrom := some current })
  else none

def endKilled (current : Tid) : Cores N T E :=
  { s with
    sched := s.sched.modifyThread current fun t =>
      if t.killed ∧ t.handshake.state = .running then { t with handshake :=
        { t.handshake with state := .finished } }
      else t }

def schedule (c : Fin N) : Option (Cores N T E) :=
  match (s.core c).current with
  | none => none
  | some current =>
    let s := s.endKilled current
    let runnable := (s.sched.running current).isSome
    match (s.core c).runq with
    | next :: runq =>
      let s := s.modifyCore c fun k => { k with runq }
      -- the release build keeps a thread running that comes off its own run queue
      if next = current then
        some { s with
          sched := s.sched.modifyThread current fun t =>
          { t with handshake := { t.handshake with state := .running } } }
      else s.switchTo c current next runnable
    | [] =>
      if runnable then some s
      else
        match (s.core c).idle with
        | none => none
        | some idle => if idle = current then none else s.switchTo c current idle runnable

def finishSwitch (c : Fin N) : Cores N T E :=
  match (s.core c).switchedFrom with
  | none => s
  | some prev =>
    let s := s.modifyCore c fun k => { k with switchedFrom := none }
    match s.sched.threads.get prev with
    | none => s
    | some t =>
      match t.handshake.finishSwitch with
      | (.reap, _) => { s with sched := s.sched.removeThread prev }
      | (.wakeCompleted, handshake) =>
        ({ s with sched := s.sched.modifyThread prev fun t => { t with handshake } } : Cores N T E).pushRunq c
          [prev]
      | (.cleared, handshake) => { s with sched := s.sched.modifyThread prev fun t => { t with handshake } }

def drainInbox (c : Fin N) : Cores N T E :=
  s.modifyCore c fun k => { k with runq := k.runq ++ k.inbox, inbox := [] }

def takeStealRequest (c : Fin N) : Cores N T E :=
  match (s.core c).stealRequest with
  | none => s
  | some requester =>
    s.modifyCore c fun k =>
      { k with
        stealRequest := none
        runq := k.runq.tail
        serving := k.runq.head?.map fun tid => (tid, requester) }

def serveStealRequest (c : Fin N) : Cores N T E :=
  match (s.core c).serving with
  | none => s
  | some (tid, requester) => (s.modifyCore c fun k => { k with serving := none }).pushInbox requester [tid]

def tryInitiateSteal (c victim : Fin N) : Cores N T E :=
  if victim = c then s else s.modifyCore victim fun k => { k with stealRequest := some (k.stealRequest.getD c) }

def run (c : Fin N) (a : Action) : Option (Cores N T E) :=
  if a.actor.isSome ∧ a.actor = (s.core c).current ∧ (s.core c).current ≠ (s.core c).idle then
    (s.sched.step a).map (s.after c c)
  else none

def adoptSecondaryIdle (c : Fin N) (page : ℕ) : Option (Cores N T E) :=
  if (s.core c).current = none ∧ (s.core c).idle = none then
    (s.sched.adoptCurrent page).map fun (tid, sched) =>
      ({ s with sched } : Cores N T E).modifyCore c fun k => { k with current := some tid, idle := some tid }
  else none

def spawnOn (c target : Fin N) (page : ℕ) : Option (Cores N T E) :=
  (s.sched.spawn page).map fun (tid, sched) => ({ s with sched } : Cores N T E).placeOn c target [tid]

def grant (c : Fin N) (cap : Cap) : Option (Cores N T E) :=
  match (s.core c).current with
  | none => none
  | some current =>
    if cap.object.isReply then none
    else (s.sched.grant current cap).map fun (_, sched) => { s with sched }

def startTcb (c target : Fin N) (tid : Tid) (entry : ℕ) (stack : Bool) : Cores N T E :=
  match s.sched.startTcb tid entry stack with
  | (.ok _, sched) => ({ s with sched } : Cores N T E).placeOn c target [tid]
  | (.error _, sched) => { s with sched }

/-- Nothing else happens on a core between a switch and its end, or while it hands a thread over: both run with
interrupts masked. -/
def Settled (c : Fin N) : Prop :=
  (s.core c).switchedFrom = none ∧ (s.core c).serving = none

end

instance (s : Cores N T E) (c : Fin N) : Decidable (s.Settled c) :=
  inferInstanceAs (Decidable (_ ∧ _))

def settledStep (s : Cores N T E) (c : Fin N) : CoreAction N → Option (Cores N T E)
  | .finishSwitch | .serveStealRequest => none
  | .schedule => s.schedule c
  | .drainInbox => some (s.drainInbox c)
  | .takeStealRequest => some (s.takeStealRequest c)
  | .tryInitiateSteal victim => some (s.tryInitiateSteal c victim)
  | .run a => s.run c a
  | .irqNotify ep target => some (s.after c target (s.sched.irqNotify ep))
  | .reapRegionObjects base limit => some (s.after c c (s.sched.reapRegionObjects base limit).2)
  | .adoptSecondaryIdle page => s.adoptSecondaryIdle c page
  | .spawnOn target page => s.spawnOn c target page
  | .createEndpointFrom page => (s.sched.createEndpointFrom page).map fun (_, sched) => { s with sched }
  | .createTcb region page => (s.sched.createTcb region page).map fun (_, sched) => { s with sched }
  | .grant cap => s.grant c cap
  | .configureTcb tid space => (s.sched.configureTcb tid space).toOption.map fun sched => { s with sched }
  | .tcbInsertCap tid cap slot =>
    if cap.object.isReply then none
    else (s.sched.tcbInsertCap tid cap slot).toOption.map fun (_, sched) => { s with sched }
  | .startTcb tid entry stack target => some (s.startTcb c target tid entry stack)

def step (s : Cores N T E) (a : Fin N × CoreAction N) : Option (Cores N T E) :=
  match a.2 with
  | .finishSwitch => some (s.finishSwitch a.1)
  | .serveStealRequest => some (s.serveStealRequest a.1)
  | b => if s.Settled a.1 then s.settledStep a.1 b else none

def links (s : Cores N T E) : List Tid :=
  (List.finRange N).flatMap (fun c => (s.core c).runq ++ (s.core c).inbox) ++
    (List.finRange E).flatMap fun i =>
      (s.sched.endpoints.slots i).elim [] fun p => p.endpoint.senders ++ p.endpoint.receivers

structure Start (s : Cores N T E) : Prop where
  sched : s.sched.Start
  queues : ∀ c, (s.core c).runq = [] ∧ (s.core c).inbox = [] ∧ (s.core c).serving = none
  switched : ∀ c, (s.core c).switchedFrom = none
  current : ∀ {c tid}, (s.core c).current = some tid → ∃ t, s.sched.threads.get tid = some t ∧
    t.handshake = .onCpuNow
  alone : ∀ {c d tid}, (s.core c).current = some tid → (s.core d).current = some tid → c = d
  idle : ∀ {c tid}, (s.core c).idle = some tid → ∃ t, s.sched.threads.get tid = some t ∧
    t.handshake.state ≠ .embryo
  own : ∀ {c d tid}, (s.core c).idle = some tid → (s.core d).idle = some tid ∨ (s.core d).current = some tid →
    c = d

def Unwrapped (s : Cores N T E) (a : Fin N × CoreAction N) : Prop :=
  ∀ s' ∈ s.step a, ∀ p ∈ s.sched.threads.iter, s'.sched.threads.get p.1 = none → (Table.unpack p.1).2 + 1 < 2 ^ 32

instance (s : Cores N T E) (a : Fin N × CoreAction N) : Decidable (s.Unwrapped a) :=
  inferInstanceAs (Decidable (∀ s' ∈ s.step a, _))

end Cores

end CrickerOs.Kernel
