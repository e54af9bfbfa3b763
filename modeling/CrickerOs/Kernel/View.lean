import CrickerOs.Kernel.Machine

namespace CrickerOs.Kernel

open Slots WakeHandshake Function

@[ext]
structure View where
  th : Tid → Option Thread
  ep : EpId → Option (Ipc.Endpoint Tid)
  trace : List Event

namespace View

def set (v : View) (tid : Tid) (t : Thread) : View :=
  { v with th := Function.update v.th tid (some t) }

def unset (v : View) (tid : Tid) : View :=
  { v with th := Function.update v.th tid none }

def queue (v : View) (ep : EpId) (e : Ipc.Endpoint Tid) : View :=
  { v with ep := Function.update v.ep ep (some e) }

def unqueue (v : View) (ep : EpId) : View :=
  { v with ep := Function.update v.ep ep none }

def log (v : View) (e : Event) : View :=
  { v with trace := e :: v.trace }

variable {v : View} {tid other : Tid} {t : Thread} {ep : EpId} {e : Ipc.Endpoint Tid} {ev : Event}

@[simp] lemma th_set : (v.set tid t).th other = if other = tid then some t else v.th other :=
  update_apply ..

lemma th_set_of_ne (h : other ≠ tid) : (v.set tid t).th other = v.th other :=
  update_of_ne h ..

lemma set_self (h : v.th tid = some t) : v.set tid t = v := by
  rw [set, update_eq_self_iff.mpr h.symm]

lemma set_set {x : Thread} : (v.set tid t).set tid x = v.set tid x := by
  simp [set]

lemma set_comm {x : Thread} (h : other ≠ tid) : (v.set tid t).set other x = (v.set other x).set tid t := by
  simp only [set, update_comm h.symm]

lemma set_shadow {x y : Thread} (h : other ≠ tid) :
    ((v.set tid t).set other y).set tid x = (v.set tid x).set other y := by
  rw [set_comm h, set_set, set_comm h]

@[simp] lemma th_unset : (v.unset tid).th other = if other = tid then none else v.th other :=
  update_apply ..

@[simp] lemma ep_queue {n : EpId} : (v.queue ep e).ep n = if n = ep then some e else v.ep n :=
  update_apply ..

@[simp] lemma ep_unqueue {n : EpId} : (v.unqueue ep).ep n = if n = ep then none else v.ep n :=
  update_apply ..

@[simp] lemma ep_set : (v.set tid t).ep = v.ep := rfl

@[simp] lemma ep_unset : (v.unset tid).ep = v.ep := rfl

@[simp] lemma ep_log : (v.log ev).ep = v.ep := rfl

@[simp] lemma th_queue : (v.queue ep e).th = v.th := rfl

@[simp] lemma th_unqueue : (v.unqueue ep).th = v.th := rfl

@[simp] lemma th_log : (v.log ev).th = v.th := rfl

@[simp] lemma trace_set : (v.set tid t).trace = v.trace := rfl

@[simp] lemma trace_unset : (v.unset tid).trace = v.trace := rfl

@[simp] lemma trace_queue : (v.queue ep e).trace = v.trace := rfl

@[simp] lemma trace_unqueue : (v.unqueue ep).trace = v.trace := rfl

@[simp] lemma trace_log : (v.log ev).trace = ev :: v.trace := rfl

end View

def View.OffQueue (v : View) (tid : Tid) : Prop :=
  ∀ n e, v.ep n = some e → tid ∉ e.senders

lemma View.OffQueue.queue {v : View} {n : EpId} {e e' : Ipc.Endpoint Tid} {tid : Tid} (h : v.OffQueue tid)
    (he : v.ep n = some e) (hsub : tid ∈ e'.senders → tid ∈ e.senders) : (v.queue n e').OffQueue tid := by
  intro m f hm hmem
  by_cases hmn : m = n
  · obtain rfl : e' = f := by simpa [hmn] using hm
    exact h n e he (hsub hmem)
  · exact h m f (by simpa [hmn] using hm) hmem

lemma View.not_offQueue {v : View} {n : EpId} {e : Ipc.Endpoint Tid} {tid : Tid} {rest : List Tid}
    (he : v.ep n = some e) (hq : e.senders = tid :: rest) : ¬v.OffQueue tid :=
  fun h => h n e he (by simp [hq])

def Scheduler.view {T E : ℕ} (s : Scheduler T E) : View where
  th := s.threads.get
  ep := s.endpointOf
  trace := s.trace

def Prim.waitsOn : Prim → Option (EpId × WaitRole)
  | .send ep _ _ _ | .sendCap ep _ _ => some (ep, .sender)
  | .recv ep | .recvCap ep | .wait ep => some (ep, .receiver)
  | .call ep _ _ => some (ep, .reply)
  | .reply _ _ _ _ => none

section

variable {ep : EpId} {m0 m1 m2 : ℕ} {cap : Cap}

@[simp] lemma waitsOn_send : (Prim.send ep m0 m1 m2).waitsOn = some (ep, .sender) := rfl

@[simp] lemma waitsOn_sendCap : (Prim.sendCap ep m0 cap).waitsOn = some (ep, .sender) := rfl

@[simp] lemma waitsOn_recv : (Prim.recv ep).waitsOn = some (ep, .receiver) := rfl

@[simp] lemma waitsOn_recvCap : (Prim.recvCap ep).waitsOn = some (ep, .receiver) := rfl

@[simp] lemma waitsOn_wait : (Prim.wait ep).waitsOn = some (ep, .receiver) := rfl

@[simp] lemma waitsOn_call : (Prim.call ep m0 m1).waitsOn = some (ep, .reply) := rfl

end

inductive Turn {W : Type} (h : Handshake W) : Handshake W → Prop
  | switchIn : h.state = .ready → h.onCpu = false → Turn h h.switchIn
  | preempt : h.state = .running → Turn h h.preempt
  | kill : h.state = .running → Turn h { h with state := .finished }
  | finish : h.onCpu → h.state ≠ .running → h.state ≠ .finished → Turn h h.finishSwitch.2

/-- What a run may be restricted to: the collections, the departures without a wake, the starts and the
deliveries. -/
structure Restriction where
  collect : Thread → Prop
  leave : Thread → Prop
  start : Thread → Prop
  fill : Thread → Mailbox → Prop

def unrestricted : Restriction :=
  ⟨fun _ => True, fun _ => True, fun _ => True, fun _ _ => True⟩

namespace Thread

variable (t : Thread)

def call (tid : Tid) : CallId :=
  ⟨tid, t.seq⟩

variable {t} in
lemma call_congr {t' : Thread} {tid : Tid} (h : t'.seq = t.seq) : t'.call tid = t.call tid := by
  rw [call, call, h]

def At (frame : Frame) : Prop :=
  t.handshake.state = .running ∧ t.frame = frame

def served : Thread :=
  { t with handshake := t.handshake.serve.tryWake.2 }

def aborted : Thread :=
  { t with handshake := t.handshake.abort.tryWake.2 }

def holding (cspace : CSpace) (slot : ℕ) (origin : CallId) : Thread :=
  { t with cspace, origins := Function.update t.origins slot origin }

def carriesReply : Bool :=
  t.outgoingCap.any (·.object.isReply)

def Admits : Frame → Prop
  | .delegating _ _ _ _ => True
  | .calling (.sendCap _ _ _) => False
  | .calling (.reply caller _ _ slot) => ∃ cap, t.cspace.lookup slot = some cap ∧ cap.object = .reply caller
  | .calling _ => True
  | _ => False

end Thread

def Filled (v : View) (receipt : CallId) (ep : EpId) (slot : ℕ) : Prop :=
  ∃ origin call cap, Event.handed origin call ep cap receipt slot none ∈ v.trace

def Prim.Returns (v : View) (receipt : CallId) (words : List ℕ) : Prim → Prop
  | .recvCap ep => ∃ w0 w1 w2, words = [w0, w1, w2] ∧ (w1 = noCap ∨ Filled v receipt ep w1)
  | .call _ _ _ | .reply _ _ _ _ => False
  | _ => True

inductive Act : Thread → Thread → Prop
  | invoke {t frame} : t.frame = .user → t.Admits frame → Act t { t with frame, seq := t.seq + 1 }
  | refuse {t ep slot rights data} : t.frame = .delegating ep slot rights data → Act t { t with frame := .user }
  | gone {t p words} : t.frame = .calling p → p.waitsOn.isSome →
      Act t { t with frame := .returning p words, handshake := t.handshake.abort }
  | parkReply {t ep m0 m1} : t.frame = .calling (.call ep m0 m1) →
      Act t { t with frame := .parked (.call ep m0 m1), handshake := t.handshake.park (ep, .reply) }
  | resume {t p} : t.frame = .parked p → Act t { t with frame := .returning p (p.tail t.mailbox) }
  | ignore {t caller m0 m1 slot} : t.frame = .calling (.reply caller m0 m1 slot) →
      Act t { t with frame := .consuming slot }
  | consume {t slot} : t.frame = .consuming slot → Act t { t with frame := .user, cspace := t.cspace.erase slot }
  | delete {t slot} : t.frame = .user → Act t { t with cspace := t.cspace.erase slot }
  | exit {t} : t.frame = .user → Act t { t with handshake := { t.handshake with state := .finished } }
  | die {t msg} : t.frame = .user →
      Act t { t with faultMsg := some msg, mailbox := msg, handshake := { t.handshake with state := .dead } }

inductive Taken (R : Restriction) : Thread → Thread → Prop
  | serve {t o} : t.carriesReply = false → o = t.outgoingCap ∨ o = none →
      Taken R t { t.served with outgoingCap := o }
  | leave {t o h} : t.carriesReply ∨ t.handshake.state = .dead → o = t.outgoingCap ∨ o = none →
      h = t.handshake ∨ t.handshake.state = .dead ∧ h = { t.handshake with waitOn := none } → R.leave t →
      Taken R t { t with outgoingCap := o, handshake := h }
  | abort {t} : Taken R t t.aborted

inductive Micro (R : Restriction) : View → View → Prop
  | turn {v tid t h} : v.th tid = some t → Turn t.handshake h → Micro R v (v.set tid { t with handshake := h })
  | arm {v : View} {k : Thread → Bool} : Micro R v { v with th := fun tid => (v.th tid).map fun t =>
      { t with killed := k t } }
  | remove {v tid t} : v.th tid = some t → t.handshake.state = .finished ∨ t.handshake.state = .dead ∨
      t.handshake.state = .embryo → v.OffQueue tid → Micro R v (v.unset tid)
  | act {v tid t t'} : v.th tid = some t → t.handshake.state = .running → Act t t' → Micro R v (v.set tid t')
  | complete {v tid t p words} : v.th tid = some t → t.At (.calling p) → p.Returns v (t.call tid) words →
      Micro R v (v.set tid { t with frame := .returning p words })
  | pass {v tid t ep slot rights data src} : v.th tid = some t → t.At (.delegating ep slot rights data) →
      t.cspace.lookup slot = some src → src.rights.allows .grant →
      Micro R v ((v.set tid { t with frame := .calling (.sendCap ep data ⟨src.object, rights⟩) }).log
        (.passed (t.call tid) ep ⟨src.object, rights⟩))
  | leave {v tid t p words h} : v.th tid = some t → t.At (.returning p words) →
      h = t.handshake ∨ h = { t.handshake with ipcAborted := false } →
      Micro R v ((v.set tid { t with frame := .user, handshake := h }).log
        (.returned (t.call tid) p (p.result t.handshake.ipcAborted words)))
  | note {v call receipt} : Micro R v (v.log (.collected call receipt))
  | pending {v n e k} : v.ep n = some e → Micro R v (v.queue n { e with pending := k })
  -- a message meets a waiting receiver
  | deliver {v n e r rest t mailbox} : v.ep n = some e → e.receivers = r :: rest → v.th r = some t →
      R.fill t mailbox ∨ Filled v (t.call r) n mailbox.w1 →
      Micro R v ((v.queue n { e with receivers := rest }).set r { t.served with mailbox })
  | handOver {v tid t ep data cap r tr cspace slot} : v.th tid = some t → t.At (.calling (.sendCap ep data cap)) →
      cap.object.isReply = false → r ≠ tid → v.th r = some tr → tr.cspace.insert cap = .ok (slot, cspace) →
      R.start t →
      Micro R v (((v.set r (tr.holding cspace slot (t.call tid))).set tid
        { t with frame := .returning (.sendCap ep data cap) [] }).log
          (.handed (t.call tid) (t.call tid) ep cap (tr.call r) slot none))
  | callMeets {v tid t ep m0 m1 r tr cspace slot} : v.th tid = some t → t.At (.calling (.call ep m0 m1)) →
      r ≠ tid → v.th r = some tr → tr.cspace.insert (replyCap tid) = .ok (slot, cspace) →
      .collected (t.call tid) (tr.call r) ∈ v.trace →
      Micro R v (((v.set r (tr.holding cspace slot (t.call tid))).set tid
        { t with frame := .parked (.call ep m0 m1), handshake := t.handshake.park (ep, .reply) }).log
          (.handed (t.call tid) (t.call tid) ep (replyCap tid) (tr.call r) slot none))
  -- a thread joins a queue
  | parkSend {v tid t n e m0 m1 m2} : v.th tid = some t → t.At (.calling (.send n m0 m1 m2)) → v.ep n = some e →
      Micro R v ((v.queue n { e with senders := e.senders ++ [tid] }).set tid { t with
        frame := .parked (.send n m0 m1 m2)
        mailbox := wide m0 m1 m2
        handshake := t.handshake.park (n, .sender) })
  | parkSendCap {v tid t n e data cap} : v.th tid = some t → t.At (.calling (.sendCap n data cap)) →
      v.ep n = some e → R.start t → Micro R v ((v.queue n { e with senders := e.senders ++ [tid] }).set tid
        { t with
        frame := .parked (.sendCap n data cap)
        mailbox := ⟨data, 0, 0, 0, 0⟩
        outgoingCap := some cap
        outgoingOrigin := t.call tid
        handshake := t.handshake.park (n, .sender) })
  | parkCall {v tid t n e m0 m1} : v.th tid = some t → t.At (.calling (.call n m0 m1)) → v.ep n = some e →
      Micro R v ((v.queue n { e with senders := e.senders ++ [tid] }).set tid { t with
        frame := .parked (.call n m0 m1)
        mailbox := ⟨m0, m1, 0, 0, 0⟩
        outgoingCap := some (replyCap tid)
        outgoingOrigin := t.call tid
        handshake := t.handshake.park (n, .reply) })
  | parkReceive {v tid t n e p} : v.th tid = some t → t.At (.calling p) → p.waitsOn = some (n, .receiver) →
      v.ep n = some e → Micro R v ((v.queue n { e with receivers := e.receivers ++ [tid] }).set tid { t with
        frame := .parked p, handshake := t.handshake.park (n, .receiver) })
  | parkCorpse {v tid t n e} : v.th tid = some t → t.handshake.state = .dead → t.handshake.waitOn = none →
      t.faultEp = some n → v.ep n = some e →
      Micro R v ((v.queue n { e with senders := e.senders ++ [tid] }).set tid
        { t with handshake := { t.handshake with waitOn := some (n, .sender) } })
  -- a thread leaves a queue
  | take {v n e tid rest t t'} : v.ep n = some e → e.senders = tid :: rest → v.th tid = some t → Taken R t t' →
      Micro R v ((v.queue n { e with senders := rest }).set tid t')
  | collect {v n e tid rest t cap r tr cspace slot} : v.ep n = some e → e.senders = tid :: rest →
      v.th tid = some t → t.outgoingCap = some cap → cap.object.isReply = false → r ≠ tid → v.th r = some tr →
      tr.handshake.state = .running → tr.cspace.insert cap = .ok (slot, cspace) → R.collect t →
      Micro R v ((((v.queue n { e with senders := rest }).set tid { t.served with outgoingCap := none }).set r
        (tr.holding cspace slot t.outgoingOrigin)).log
          (.handed t.outgoingOrigin (t.call tid) n cap (tr.call r) slot none))
  | collectCall {v n e tid rest t r tr cspace slot} : v.ep n = some e → e.senders = tid :: rest →
      v.th tid = some t → t.outgoingCap = some (replyCap tid) → r ≠ tid → v.th r = some tr →
      tr.handshake.state = .running → tr.cspace.insert (replyCap tid) = .ok (slot, cspace) →
      R.collect t → R.leave t → .collected (t.call tid) (tr.call r) ∈ v.trace →
      Micro R v ((((v.queue n { e with senders := rest }).set tid { t with outgoingCap := none }).set r
        (tr.holding cspace slot t.outgoingOrigin)).log
          (.handed t.outgoingOrigin (t.call tid) n (replyCap tid) (tr.call r) slot none))
  | abortReceiver {v n e tid rest t} : v.ep n = some e → e.receivers = tid :: rest → v.th tid = some t →
      Micro R v ((v.queue n { e with receivers := rest }).set tid t.aborted)
  | removeEndpoint {v n e} : v.ep n = some e → e.senders = [] → e.receivers = [] → Micro R v (v.unqueue n)
  | unlink {v n e tid t} : v.ep n = some e → v.th tid = some t → t.handshake.state = .dead →
      Micro R v (v.queue n { e with senders := e.senders.filter (· ≠ tid) })
  | reply {v tid t caller m0 m1 slot tc n} : v.th tid = some t → t.At (.calling (.reply caller m0 m1 slot)) →
      caller ≠ tid → v.th caller = some tc → tc.handshake.waitOn = some (n, .reply) → v.OffQueue caller →
      Micro R v (((v.set caller { tc.served with mailbox := ⟨m0, m1, 0, 0, 0⟩ }).set tid
        { t with frame := .consuming slot }).log
          (.replied (t.call tid) (tc.call caller) (t.origins slot) m0 m1))

end CrickerOs.Kernel
