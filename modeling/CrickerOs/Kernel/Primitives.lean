import CrickerOs.Kernel.Replies

namespace CrickerOs.Kernel

open Slots WakeHandshake Scheduler View Ipc.Endpoint

variable {T E : ℕ} {s s' : Scheduler T E} {tid : Tid} {t : Thread} {ep : EpId} {e : Ipc.Endpoint Tid}
  {R : Restriction} {v v' : View}

abbrev Micros (R : Restriction) : View → View → Prop :=
  Relation.ReflTransGen (Micro R)

lemma Linked.micros (hv : Linked v) (h : Micros R v v') : Linked v' := by
  induction h with
  | refl => exact hv
  | tail _ h ih => exact ih.micro h

lemma Replies.micros (hr : Replies v) (hv : Linked v) (h : Micros R v v') : Replies v' := by
  induction h with
  | refl => exact hr
  | tail hs h ih => exact ih.micro (hv.micros hs) h

namespace Scheduler

variable (s : Scheduler T E)

def frontSender (ep : EpId) (me : Tid) : Option (Tid × Thread) :=
  match s.endpointOf ep with
  | none => none
  | some endpoint =>
    match endpoint.recv me with
    | (.fromSender sender, _) => (s.threads.get sender).map (sender, ·)
    | _ => none

def frontReceiver (ep : EpId) : Option Thread :=
  match s.endpointOf ep with
  | none => none
  | some endpoint => endpoint.receivers.head?.bind s.threads.get

def collects : Action → Option (Bool × Tid × Thread)
  | .enter tid =>
    match (s.running tid).map Thread.frame with
    | some (.calling (.recv ep)) | some (.calling (.wait ep)) => (s.frontSender ep tid).map (false, ·)
    | some (.calling (.recvCap ep)) => (s.frontSender ep tid).map (true, ·)
    | _ => none
  | _ => none

def delivers : Action → Option (Thread × Mailbox)
  | .enter tid =>
    match (s.running tid).map Thread.frame with
    | some (.calling (.send ep m0 m1 m2)) => (s.frontReceiver ep).map (·, wide m0 m1 m2)
    | _ => none
  | .irqNotify ep => (s.frontReceiver ep).map (·, ⟨1, 0, 0, 0, 0⟩)
  | .depart tid event pc addr =>
    match (s.running tid).bind Thread.faultEp with
    | some ep => (s.frontReceiver ep).map (·, ⟨event, tid, pc, addr, 0⟩)
    | none => none
  | _ => none

def delegates : Action → Option Thread
  | .enter tid =>
    match s.running tid with
    | some t =>
      match t.frame with
      | .calling (.sendCap _ _ _) => some t
      | _ => none
    | none => none
  | _ => none

end Scheduler

structure Permits (R : Restriction) (s : Scheduler T E) (a : Action) : Prop where
  collect : ∀ r t, s.collects a = some (true, r, t) → t.outgoingCap.isSome → R.collect t
  leave : ∀ b r t, s.collects a = some (b, r, t) → t.carriesReply ∨ t.handshake.state = .dead → R.leave t
  start : ∀ t, s.delegates a = some t → R.start t
  fill : ∀ t m, s.delivers a = some (t, m) → R.fill t m
  plain : ∀ t m, m.w1 = noCap → R.fill t m

lemma permits_unrestricted (a : Action) : Permits unrestricted s a :=
  ⟨fun _ _ _ _ => trivial, fun _ _ _ _ _ => trivial, fun _ _ => trivial, fun _ _ _ => trivial,
    fun _ _ _ => trivial⟩

lemma view_modifyThread (h : s.view.th tid = some t) (f : Thread → Thread) :
    (s.modifyThread tid f).view = s.view.set tid (f t) := by
  have ht : s.threads.get tid = some t := h
  simp only [view, modifyThread, View.set, Table.get_modify, ht, Option.map_some]
  rfl

lemma view_setEndpoint (h : s.view.ep ep = some e) (e' : Ipc.Endpoint Tid) :
    (s.setEndpoint ep e').view = s.view.queue ep e' := by
  obtain ⟨page, hp, -⟩ := Option.map_eq_some_iff.mp h
  simp only [view, setEndpoint, View.queue, View.mk.injEq, true_and, and_true]
  funext n
  simp only [endpointOf, Table.get_modify, Function.update_apply, hp]
  split <;> simp

@[simp] lemma view_record (ev : Event) : (s.record ev).view = s.view.log ev := rfl

@[simp] lemma th_view : s.view.th = s.threads.get := rfl

@[simp] lemma ep_view : s.view.ep = s.endpointOf := rfl

lemma view_setFrame (h : s.view.th tid = some t) (frame : Frame) :
    (s.setFrame tid frame).view = s.view.set tid { t with frame } :=
  view_modifyThread h _

lemma view_deliver {m : Mailbox} (h : s.view.th tid = some t) :
    (s.deliver tid m).view = s.view.set tid { t.served with mailbox := m } := by
  have h1 := view_modifyThread h fun r => { r with mailbox := m, handshake := r.handshake.serve }
  rw [deliver, wake, view_modifyThread (by rw [h1, th_set, if_pos rfl]), h1, set_set]
  rfl

lemma view_park {e' : Ipc.Endpoint Tid} {f : Thread → Thread} {frame : Frame} (he : s.view.ep ep = some e)
    (ht : s.view.th tid = some t) :
    (((s.setEndpoint ep e').modifyThread tid f).setFrame tid frame).view =
      (s.view.queue ep e').set tid { f t with frame } := by
  have h1 := view_setEndpoint he e'
  have h2 : ((s.setEndpoint ep e').modifyThread tid f).view = (s.view.queue ep e').set tid (f t) := by
    rw [view_modifyThread (by rw [h1]; exact ht), h1]
  rw [view_setFrame (by rw [h2, th_set, if_pos rfl]), h2, set_set]

@[simp] lemma threads_setEndpoint (e' : Ipc.Endpoint Tid) : (s.setEndpoint ep e').threads = s.threads := rfl

lemma view_serve (h : s.view.th tid = some t) :
    ((s.modifyThread tid fun t => { t with handshake := t.handshake.serve }).wake tid).view =
      s.view.set tid t.served := by
  have h1 := view_modifyThread h fun t => { t with handshake := t.handshake.serve }
  rw [wake, view_modifyThread (by rw [h1, th_set, if_pos rfl]), h1, set_set]
  rfl

lemma view_deliver_park {r : Tid} {tr : Thread} {m : Mailbox} {f : Thread → Thread} {frame : Frame}
    (hr : s.view.th r = some tr) (ht : s.view.th tid = some t) (hne : tid ≠ r) :
    (((s.deliver r m).modifyThread tid f).setFrame tid frame).view =
      (s.view.set r { tr.served with mailbox := m }).set tid { f t with frame } := by
  have h1 := view_deliver (m := m) hr
  have h2 : ((s.deliver r m).modifyThread tid f).view = _ :=
    view_modifyThread (by rw [h1, th_set_of_ne hne]; exact ht) f
  rw [view_setFrame (by rw [h2, th_set, if_pos rfl]), h2, set_set, h1]

lemma callOf_eq (h : s.view.th tid = some t) : s.callOf tid = t.call tid := by
  have ht : s.threads.get tid = some t := h
  simp [callOf, ht, Thread.call]

section

variable {p : Prim} {words : List ℕ} {r : Tid} {tr : Thread} {rest : List Tid} {m : Mailbox}

lemma gone_micro (ht : s.view.th tid = some t) (hat : t.At (.calling p)) (hp : p.waitsOn.isSome) :
    Micro R s.view ((s.setIpcAborted tid).setFrame tid (.returning p words)).view := by
  have h1 : (s.setIpcAborted tid).view = _ := view_modifyThread ht _
  rw [view_setFrame (by rw [h1, th_set, if_pos rfl]), h1, set_set]
  exact .act ht hat.1 (.gone hat.2 hp)

lemma complete_micro (ht : s.view.th tid = some t) (hat : t.At (.calling p))
    (hret : p.Returns s.view (t.call tid) words) : Micro R s.view (s.setFrame tid (.returning p words)).view := by
  rw [view_setFrame ht]
  exact .complete ht hat hret

lemma deliver_micro (he : s.view.ep ep = some e) (hq : e.receivers = r :: rest) (hr : s.view.th r = some tr)
    (hfill : R.fill tr m ∨ Filled s.view (tr.call r) ep m.w1) :
    Micro R s.view ((s.setEndpoint ep { e with receivers := rest }).deliver r m).view := by
  have h1 := view_setEndpoint he { e with receivers := rest }
  rw [view_deliver (by rw [h1]; exact hr), h1]
  exact .deliver he hq hr hfill

lemma Linked.front {v : View} (hv : Linked v) (he : v.ep ep = some e) (hq : e.receivers = r :: rest)
    (ht : v.th tid = some t) (hrun : t.handshake.state = .running) : ∃ tr, v.th r = some tr ∧ tid ≠ r := by
  obtain ⟨tr, hr, hrecv⟩ := hv.receivers he (show r ∈ e.receivers by simp [hq])
  refine ⟨tr, hr, ?_⟩
  rintro rfl
  cases Option.mem_unique ht hr
  simp [hrecv.1.1] at hrun

lemma Linked.frontSender {v : View} (hv : Linked v) (he : v.ep ep = some e) (hq : e.senders = r :: rest)
    (ht : v.th tid = some t) (hrun : t.handshake.state = .running) :
    ∃ tr, v.th r = some tr ∧ tr.Queued r ep ∧ tid ≠ r := by
  obtain ⟨tr, hr, hqueued⟩ := hv.senders he (show r ∈ e.senders by simp [hq])
  refine ⟨tr, hr, hqueued, ?_⟩
  rintro rfl
  cases Option.mem_unique ht hr
  exact (Thread.free_of_running hrun).not_queued hqueued

lemma rendezvous_micros (hv : Linked s.view) (ht : s.view.th tid = some t) (hat : t.At (.calling p))
    (hret : ∀ v, p.Returns v (t.call tid) words) (he : s.view.ep ep = some e) (hq : e.receivers = r :: rest)
    (hfill : ∀ u, s.frontReceiver ep = some u → R.fill u m) :
    Micros R s.view (((s.setEndpoint ep { e with receivers := rest }).deliver r m).setFrame tid
      (.returning p words)).view := by
  obtain ⟨tr, hr, hne⟩ := hv.front he hq ht hat.1
  have hf : R.fill tr m := hfill tr (by simpa [frontReceiver, ← ep_view, he, hq] using hr)
  have h1 := deliver_micro he hq hr (.inl hf)
  refine .tail (.single h1) (complete_micro ?_ hat (hret _))
  have h2 := view_setEndpoint he { e with receivers := rest }
  rw [view_deliver (by rw [h2]; exact hr), th_set_of_ne hne, h2]
  exact ht

variable {m0 m1 slot data w0 w2 : ℕ}

lemma ipcSend_micros {m2 : ℕ} (hv : Linked s.view) (ht : s.view.th tid = some t)
    (hat : t.At (.calling (.send ep m0 m1 m2))) (hfill : ∀ u, s.frontReceiver ep = some u →
    R.fill u (wide m0 m1 m2)) : Micros R s.view ((s.ipcSend tid ep m0 m1 m2).2.setFrame tid
      (Prim.after (.send ep m0 m1 m2) (s.ipcSend tid ep m0 m1 m2).1)).view := by
  cases he : s.endpointOf ep with
  | none =>
    simp only [ipcSend, he]
    exact .single (gone_micro ht hat rfl)
  | some e =>
    cases hq : e.receivers with
    | cons r rest =>
      simp only [ipcSend, he, send_of_cons hq]
      exact rendezvous_micros hv ht hat (fun _ => trivial) he hq hfill
    | nil =>
      simp only [ipcSend, he, send_of_nil hq]
      rw [view_park he ht]
      exact .single (.parkSend ht hat he)

lemma pending_micros {k : ℕ} (ht : s.view.th tid = some t) (hat : t.At (.calling p))
    (hret : ∀ v, p.Returns v (t.call tid) words) (he : s.view.ep ep = some e) :
    Micros R s.view ((s.setEndpoint ep { e with pending := k }).setFrame tid (.returning p words)).view := by
  have h1 := view_setEndpoint he { e with pending := k }
  refine .tail (.single ?_) (complete_micro (by rw [h1]; exact ht) hat (hret _))
  rw [h1]
  exact .pending he

lemma take_micros {tr' : Thread} (ht : s.view.th tid = some t) (hat : t.At (.calling p))
    (he : s.view.ep ep = some e) (hq : e.senders = r :: rest) (hr : s.view.th r = some tr) (hne : tid ≠ r)
    (htaken : Taken R tr tr') (hview : s'.view = (s.view.queue ep { e with senders := rest }).set r tr')
    (hret : p.Returns s'.view (t.call tid) words) : Micros R s.view
      (s'.setFrame tid (.returning p words)).view := by
  refine .tail (.single ?_) (complete_micro ?_ hat hret)
  · rw [hview]
    exact .take he hq hr htaken
  · rw [hview, th_set_of_ne hne]
    exact ht

lemma parkReceive_micros (ht : s.view.th tid = some t) (hat : t.At (.calling p))
    (hp : p.waitsOn = some (ep, .receiver)) (he : s.view.ep ep = some e) :
    Micros R s.view (((s.setEndpoint ep { e with receivers := e.receivers ++ [tid] }).modifyThread tid fun me =>
      { me with handshake := me.handshake.park (ep, .receiver) }).setFrame tid (.parked p)).view := by
  rw [view_park he ht]
  exact .single (.parkReceive ht hat hp he)

lemma frontSender_eq (he : s.view.ep ep = some e) (hp : ¬0 < e.pending) (hq : e.senders = r :: rest)
    (hr : s.view.th r = some tr) (tid : Tid) : s.frontSender ep tid = some (r, tr) := by
  have he' : s.endpointOf ep = some e := he
  have hr' : s.threads.get r = some tr := hr
  simp only [frontSender, he', recv_of_cons hp hq, hr', Option.map_some]

lemma ipcRecv_micros (hv : Linked s.view) (ht : s.view.th tid = some t) (hat : t.At (.calling p))
    (hp : p.waitsOn = some (ep, .receiver)) (hret : ∀ v words, p.Returns v (t.call tid) words)
    (hafter : ∀ words, p.after (.done words) = .returning p words)
    (hleave : ∀ r u, s.frontSender ep tid = some (r, u) → u.carriesReply ∨ u.handshake.state = .dead → R.leave u) :
    Micros R s.view ((s.ipcRecv tid ep).2.setFrame tid (p.after (s.ipcRecv tid ep).1)).view := by
  cases he : s.endpointOf ep with
  | none =>
    simp only [ipcRecv, he, hafter]
    exact .single (gone_micro ht hat (by simp [hp]))
  | some e =>
    by_cases hpend : 0 < e.pending
    · simp only [ipcRecv, he, recv_of_pending hpend, hafter]
      exact pending_micros ht hat (fun _ => hret _ _) he
    cases hq : e.senders with
    | nil =>
      simp only [ipcRecv, he, recv_of_nil hpend hq]
      exact parkReceive_micros ht hat hp he
    | cons r rest =>
      obtain ⟨tr, hr, -, hne⟩ := hv.frontSender he hq ht hat.1
      have h1 := view_setEndpoint he { e with senders := rest }
      have hr1 : (s.setEndpoint ep { e with senders := rest }).view.th r = some tr := hr
      have hr' : s.threads.get r = some tr := hr
      simp only [ipcRecv, he, recv_of_cons hpend hq, threads_setEndpoint, hr']
      split
      · rename_i hstay
        rw [leaveBlocked, Bool.or_eq_false_iff] at hstay
        rw [hafter]
        exact take_micros ht hat he hq hr hne (.serve hstay.1 (.inl rfl)) (by rw [view_serve hr1, h1]; rfl)
          (hret _ _)
      · rename_i hstay
        have hl : tr.carriesReply ∨ tr.handshake.state = .dead := by
          simp only [leaveBlocked, Bool.not_eq_false, Bool.or_eq_true, beq_iff_eq] at hstay
          exact hstay
        have hR := hleave r tr (frontSender_eq he hpend hq hr tid) hl
        split <;> rw [hafter]
        · rename_i hd
          refine take_micros ht hat he hq hr hne (.leave hl (.inl rfl) (.inr ⟨hd, rfl⟩) hR) ?_ (hret _ _)
          rw [view_modifyThread hr1, h1]
        · refine take_micros ht hat he hq hr hne (.leave hl (.inl rfl) (.inl rfl) hR) ?_ (hret _ _)
          rw [h1]
          exact (set_self (show (s.view.queue ep _).th r = some tr from hr)).symm

variable {cap : Cap}

lemma insertCap_of_error {origin call : CallId} {err : Capability.Error} (ht : s.view.th tid = some t)
    (hi : t.cspace.insert cap = .error err) : s.insertCap tid cap origin call ep = (noCap, s) := by
  have ht' : s.threads.get tid = some t := ht
  simp only [insertCap, ht', hi]

variable {cspace : CSpace}

lemma insertCap_of_ok (ht : s.view.th tid = some t)
    (hi : t.cspace.insert cap = .ok (slot, cspace)) (origin call : CallId) (ep : EpId) :
    (s.insertCap tid cap origin call ep).1 = slot ∧ (s.insertCap tid cap origin call ep).2.view =
      (s.view.set tid (t.holding cspace slot origin)).log (.handed origin call ep cap (t.call tid) slot none) := by
  have ht' : s.threads.get tid = some t := ht
  simp only [insertCap, ht', hi, view_record, callOf_eq ht, (Capability.CSpace.insert_eq_ok hi).1]
  rw [view_modifyThread ht]
  exact ⟨trivial, rfl⟩

lemma handOver_micros (ht : v.th tid = some t)
    (hat : t.At (.calling (.sendCap ep data cap))) (hcap : cap.object.isReply = false) (hstart : R.start t)
    (he : v.ep ep = some e) (hq : e.receivers = r :: rest) (hr : v.th r = some tr) (hne : tid ≠ r)
    (hi : tr.cspace.insert cap = .ok (slot, cspace)) :
    Micros R v (((((v.queue ep { e with receivers := rest }).set r (tr.holding cspace slot (t.call tid))).log
      (.handed (t.call tid) (t.call tid) ep cap (tr.call r) slot none)).set r
        { (tr.holding cspace slot (t.call tid)).served with mailbox := ⟨data, slot, 0, 0, 0⟩ }).set tid
          { t with frame := .returning (.sendCap ep data cap) [] }) := by
  rw [set_comm hne]
  refine .tail (.single (.handOver ht hat hcap hne.symm hr hi hstart)) (.deliver ?_ hq ?_ (.inr ?_))
  · exact he
  · simp [hne.symm]
  · exact ⟨_, _, _, List.mem_cons_self⟩

lemma ipcSendCap_micros (hv : Linked s.view) (ht : s.view.th tid = some t)
    (hat : t.At (.calling (.sendCap ep data cap))) (hcap : cap.object.isReply = false) (hstart : R.start t)
    (hplain : ∀ u m, m.w1 = noCap → R.fill u m) :
    Micros R s.view ((s.ipcSendCap tid ep data cap).2.setFrame tid
      (Prim.after (.sendCap ep data cap) (s.ipcSendCap tid ep data cap).1)).view := by
  cases he : s.endpointOf ep with
  | none =>
    simp only [ipcSendCap, he]
    exact .single (gone_micro ht hat rfl)
  | some e =>
    cases hq : e.receivers with
    | nil =>
      simp only [ipcSendCap, he, send_of_nil hq, callOf_eq ht]
      rw [view_park he ht]
      exact .single (.parkSendCap ht hat he hstart)
    | cons r rest =>
      obtain ⟨tr, hr, hne⟩ := hv.front he hq ht hat.1
      have h1 := view_setEndpoint he { e with receivers := rest }
      have hr1 : (s.setEndpoint ep { e with receivers := rest }).view.th r = some tr := hr
      simp only [ipcSendCap, he, send_of_cons hq, callOf_eq ht]
      cases hi : tr.cspace.insert cap with
      | error err =>
        rw [insertCap_of_error hr1 hi]
        exact rendezvous_micros hv ht hat (fun _ => trivial) he hq fun u _ => hplain u _ rfl
      | ok res =>
        obtain ⟨slot, cspace⟩ := res
        obtain ⟨hslot, hview⟩ := insertCap_of_ok hr1 hi (t.call tid) (t.call tid) ep
        rw [hslot]
        generalize (s.setEndpoint ep { e with receivers := rest }).insertCap r cap (t.call tid) (t.call tid) ep =
          res at *
        have hr2 : res.2.view.th r = some (tr.holding cspace slot (t.call tid)) := by simp [hview]
        have h2 := view_deliver (m := ⟨data, slot, 0, 0, 0⟩) hr2
        have ht2 : (res.2.deliver r ⟨data, slot, 0, 0, 0⟩).view.th tid = some t := by
          rw [h2, th_set_of_ne hne, hview, h1]
          simpa [hne] using ht
        rw [view_setFrame ht2, h2, hview, h1]
        exact handOver_micros ht hat hcap hstart he hq hr hne hi

section

variable (ht : v.th tid = some t) (hat : t.At (.calling (.call ep m0 m1))) (he : v.ep ep = some e)
  (hq : e.receivers = r :: rest) (hr : v.th r = some tr) (hne : tid ≠ r)

include ht hat he hq hr hne

lemma callMeets_micros (hi : tr.cspace.insert (replyCap tid) = .ok (slot, cspace)) :
    Micros R v ((((((v.queue ep { e with receivers := rest }).log (.collected (t.call tid) (tr.call r))).set r
      (tr.holding cspace slot (t.call tid))).log
        (.handed (t.call tid) (t.call tid) ep (replyCap tid) (tr.call r) slot none)).set r
          { (tr.holding cspace slot (t.call tid)).served with mailbox := ⟨m0, slot, m1, 0, 0⟩ }).set tid
            { t with frame := .parked (.call ep m0 m1), handshake := t.handshake.park (ep, .reply) }) := by
  rw [set_comm hne]
  refine .tail (.tail (.single .note) (.callMeets ht hat hne.symm hr hi List.mem_cons_self))
    (.deliver ?_ hq ?_ (.inr ?_))
  · exact he
  · simp [hne.symm]
  · exact ⟨_, _, _, List.mem_cons_self⟩

lemma callMisses_micros (hfill : R.fill tr ⟨m0, noCap, m1, 0, 0⟩) :
    Micros R v ((((v.queue ep { e with receivers := rest }).log (.collected (t.call tid) (tr.call r))).set r
      { tr.served with mailbox := ⟨m0, noCap, m1, 0, 0⟩ }).set tid
        { t with frame := .parked (.call ep m0 m1), handshake := t.handshake.park (ep, .reply) }) := by
  rw [set_comm hne]
  refine .tail (.tail (.single .note) (.act ht hat.1 (.parkReply hat.2))) (.deliver ?_ hq ?_ (.inl hfill))
  · exact he
  · simpa [hne.symm] using hr

end

lemma ipcCall_micros (hv : Linked s.view) (ht : s.view.th tid = some t)
    (hat : t.At (.calling (.call ep m0 m1))) (hplain : ∀ u m, m.w1 = noCap → R.fill u m) :
    Micros R s.view ((s.ipcCall tid ep m0 m1).2.setFrame tid
      (Prim.after (.call ep m0 m1) (s.ipcCall tid ep m0 m1).1)).view := by
  cases he : s.endpointOf ep with
  | none =>
    simp only [ipcCall, he]
    exact .single (gone_micro ht hat rfl)
  | some e =>
    cases hq : e.receivers with
    | nil =>
      simp only [ipcCall, he, send_of_nil hq, callOf_eq ht]
      rw [view_park he ht]
      exact .single (.parkCall ht hat he)
    | cons r rest =>
      obtain ⟨tr, hr, hne⟩ := hv.front he hq ht hat.1
      have h1 := view_setEndpoint he { e with receivers := rest }
      have h2 : ((s.setEndpoint ep { e with receivers := rest }).record
          (.collected (t.call tid) (tr.call r))).view =
          (s.view.queue ep { e with receivers := rest }).log (.collected (t.call tid) (tr.call r)) := by
        rw [view_record, h1]
      simp only [ipcCall, he, send_of_cons hq, callOf_eq ht, callOf_eq hr]
      generalize (s.setEndpoint ep { e with receivers := rest }).record (.collected (t.call tid) (tr.call r)) =
        s2 at *
      have hr2 : s2.view.th r = some tr := by rw [h2]; exact hr
      have ht2 : s2.view.th tid = some t := by rw [h2]; exact ht
      rw [callOf_eq ht2]
      cases hi : tr.cspace.insert (replyCap tid) with
      | error err =>
        rw [insertCap_of_error hr2 hi]
        rw [view_deliver_park hr2 ht2 hne, h2]
        exact callMisses_micros ht hat he hq hr hne (hplain _ _ rfl)
      | ok res =>
        obtain ⟨slot, cspace⟩ := res
        obtain ⟨hslot, hview⟩ := insertCap_of_ok hr2 hi (t.call tid) (t.call tid) ep
        rw [hslot]
        generalize s2.insertCap r (replyCap tid) (t.call tid) (t.call tid) ep = res at *
        have hr3 : res.2.view.th r = some (tr.holding cspace slot (t.call tid)) := by simp [hview]
        have ht3 : res.2.view.th tid = some t := by simpa [hview, hne] using ht2
        rw [view_deliver_park hr3 ht3 hne, hview, h2]
        exact callMeets_micros ht hat he hq hr hne hi

section

variable (ht : v.th tid = some t) (hat : t.At (.calling (.recvCap ep))) (he : v.ep ep = some e)
  (hq : e.senders = r :: rest) (hr : v.th r = some tr) (hne : tid ≠ r)

include ht hat he hq hr hne

lemma collect_micros (ho : tr.outgoingCap = some cap) (hrep : cap.object.isReply = false)
    (hi : t.cspace.insert cap = .ok (slot, cspace)) (hcollect : R.collect tr) :
    Micros R v ((((((v.queue ep { e with senders := rest }).set r { tr with outgoingCap := none }).log
      (.collected (tr.call r) (t.call tid))).set tid (t.holding cspace slot tr.outgoingOrigin)).log
        (.handed tr.outgoingOrigin (tr.call r) ep cap (t.call tid) slot none)).set r
          { tr.served with outgoingCap := none } |>.set tid
            { t.holding cspace slot tr.outgoingOrigin with frame := .returning (.recvCap ep) [w0, slot, w2]
              }) := by
  change Micros R v ((((((v.log (.collected (tr.call r) (t.call tid))).queue ep { e with senders := rest }).set r
    { tr with outgoingCap := none }).set tid (t.holding cspace slot tr.outgoingOrigin)).set r
      { tr.served with outgoingCap := none }).log
        (.handed tr.outgoingOrigin (tr.call r) ep cap (t.call tid) slot none) |>.set tid
          { t.holding cspace slot tr.outgoingOrigin with frame := .returning (.recvCap ep) [w0, slot, w2] })
  rw [set_shadow hne]
  have hnote : Micro R v (v.log (.collected (tr.call r) (t.call tid))) := .note
  refine .tail (.tail (.single hnote) (.collect he hq hr ho hrep hne ht hat.1 hi hcollect)) ?_
  refine .complete (by simp) hat ⟨w0, slot, w2, rfl, .inr ?_⟩
  exact ⟨_, _, _, List.mem_cons_self⟩

lemma collectCall_micros (ho : tr.outgoingCap = some (replyCap r))
    (hi : t.cspace.insert (replyCap r) = .ok (slot, cspace)) (hcollect : R.collect tr) (hleave : R.leave tr) :
    Micros R v ((((((v.queue ep { e with senders := rest }).set r { tr with outgoingCap := none }).log
      (.collected (tr.call r) (t.call tid))).set tid (t.holding cspace slot tr.outgoingOrigin)).log
        (.handed tr.outgoingOrigin (tr.call r) ep (replyCap r) (t.call tid) slot none)).set tid
          { t.holding cspace slot tr.outgoingOrigin with frame := .returning (.recvCap ep) [w0, slot, w2] }) := by
  have hnote : Micro R v (v.log (.collected (tr.call r) (t.call tid))) := .note
  refine .tail (.tail (.single hnote)
    (.collectCall he hq hr ho hne ht hat.1 hi hcollect hleave List.mem_cons_self)) ?_
  refine .complete (by simp) hat ⟨w0, slot, w2, rfl, .inr ?_⟩
  exact ⟨_, _, _, List.mem_cons_self⟩

end

structure Opened (s s' : Scheduler T E) (tid r : Tid) (t tr : Thread) (ep : EpId) (e : Ipc.Endpoint Tid)
    (rest : List Tid) : Prop where
  receiver : s.view.th tid = some t
  calling : t.At (.calling (.recvCap ep))
  endpoint : s.view.ep ep = some e
  senders : e.senders = r :: rest
  sender : s.view.th r = some tr
  other : tid ≠ r
  view : s'.view = ((s.view.queue ep { e with senders := rest }).set r { tr with outgoingCap := none }).log
    (.collected (tr.call r) (t.call tid))

namespace Opened

variable {w0 w2 : ℕ} {cap : Cap}

variable (h : Opened s s' tid r t tr ep e rest)
include h

lemma th_sender : s'.view.th r = some { tr with outgoingCap := none } := by
  simp [h.view]

lemma th_receiver : s'.view.th tid = some t := by
  simpa [h.view, h.other] using h.receiver

lemma wake (hc : tr.carriesReply = false) :
    Micros R s.view (((s'.modifyThread r fun t => { t with handshake := t.handshake.serve }).wake r).setFrame tid
      (.returning (.recvCap ep) [w0, noCap, w2])).view := by
  have hnote : Micro R s.view (s.record (.collected (tr.call r) (t.call tid))).view := .note
  refine .head hnote (take_micros h.receiver h.calling h.endpoint h.senders h.sender h.other (.serve hc (.inr rfl))
    ?_ ⟨w0, noCap, w2, rfl, .inl rfl⟩)
  rw [view_serve h.th_sender, h.view]
  exact set_set (v := (s.view.log _).queue ep { e with senders := rest })

lemma leave (hc : tr.carriesReply) (hleave : R.leave tr) :
    Micros R s.view (s'.setFrame tid (.returning (.recvCap ep) [w0, noCap, w2])).view := by
  have hnote : Micro R s.view (s.record (.collected (tr.call r) (t.call tid))).view := .note
  exact .head hnote (take_micros h.receiver h.calling h.endpoint h.senders h.sender h.other
    (.leave (.inl hc) (.inr rfl) (.inl rfl) hleave) h.view ⟨w0, noCap, w2, rfl, .inl rfl⟩)

lemma collect {slot : ℕ} {cspace : CSpace} (ho : tr.outgoingCap = some cap)
    (hc : cap.object.isReply = false) (hi : t.cspace.insert cap = .ok (slot, cspace)) (hcollect : R.collect tr) :
    Micros R s.view ((((s'.insertCap tid cap tr.outgoingOrigin (tr.call r) ep).2.modifyThread r fun t =>
      { t with handshake := t.handshake.serve }).wake r).setFrame tid
      (.returning (.recvCap ep) [w0, slot, w2])).view := by
  obtain ⟨-, hview⟩ := insertCap_of_ok h.th_receiver hi tr.outgoingOrigin (tr.call r) ep
  have hr : (s'.insertCap tid cap tr.outgoingOrigin (tr.call r) ep).2.view.th r =
      some { tr with outgoingCap := none } := by
    simpa [hview, h.other.symm] using h.th_sender
  have ht : (s'.insertCap tid cap tr.outgoingOrigin (tr.call r) ep).2.view.th tid =
      some (t.holding cspace slot tr.outgoingOrigin) := by
    simp [hview]
  have h1 := view_serve hr
  rw [view_setFrame (by rw [h1, th_set_of_ne h.other]; exact ht), h1, hview, h.view]
  exact collect_micros h.receiver h.calling h.endpoint h.senders h.sender h.other ho hc hi hcollect

lemma collectCall {slot : ℕ} {cspace : CSpace}
    (ho : tr.outgoingCap = some (replyCap r)) (hi : t.cspace.insert (replyCap r) = .ok (slot, cspace))
    (hcollect : R.collect tr) (hleave : R.leave tr) :
    Micros R s.view ((s'.insertCap tid (replyCap r) tr.outgoingOrigin (tr.call r) ep).2.setFrame tid
      (.returning (.recvCap ep) [w0, slot, w2])).view := by
  obtain ⟨-, hview⟩ := insertCap_of_ok h.th_receiver hi tr.outgoingOrigin (tr.call r) ep
  have ht : (s'.insertCap tid (replyCap r) tr.outgoingOrigin (tr.call r) ep).2.view.th tid =
      some (t.holding cspace slot tr.outgoingOrigin) := by
    simp [hview]
  rw [view_setFrame ht, hview, h.view]
  exact collectCall_micros h.receiver h.calling h.endpoint h.senders h.sender h.other ho hi hcollect hleave

end Opened

lemma ipcRecvCap_micros (hv : Linked s.view) (hrep : Replies s.view) (ht : s.view.th tid = some t)
    (hat : t.At (.calling (.recvCap ep)))
    (hcollect : ∀ r u, s.frontSender ep tid = some (r, u) → u.outgoingCap.isSome → R.collect u)
    (hleave : ∀ r u, s.frontSender ep tid = some (r, u) → u.carriesReply ∨ u.handshake.state = .dead → R.leave u) :
    Micros R s.view ((s.ipcRecvCap tid ep).2.setFrame tid
      (Prim.after (.recvCap ep) (s.ipcRecvCap tid ep).1)).view := by
  cases he : s.endpointOf ep with
  | none =>
    simp only [ipcRecvCap, he]
    exact .single (gone_micro ht hat rfl)
  | some e =>
    by_cases hpend : 0 < e.pending
    · simp only [ipcRecvCap, he, recv_of_pending hpend]
      exact pending_micros ht hat (fun _ => ⟨1, noCap, 0, rfl, .inl rfl⟩) he
    cases hq : e.senders with
    | nil =>
      simp only [ipcRecvCap, he, recv_of_nil hpend hq]
      exact parkReceive_micros ht hat rfl he
    | cons r rest =>
      obtain ⟨tr, hr, -, hne⟩ := hv.frontSender he hq ht hat.1
      have hfront := frontSender_eq he hpend hq hr tid
      have hr1 : (s.setEndpoint ep { e with senders := rest }).view.th r = some tr := hr
      have h2 := view_modifyThread hr1 fun t => { t with outgoingCap := none }
      rw [view_setEndpoint he] at h2
      have hr' : s.threads.get r = some tr := hr
      simp only [ipcRecvCap, he, recv_of_cons hpend hq, threads_setEndpoint, hr']
      generalize (s.setEndpoint ep { e with senders := rest }).modifyThread r
        (fun t => { t with outgoingCap := none }) = s2 at *
      have hr2 : s2.view.th r = some { tr with outgoingCap := none } := by simp [h2]
      have ht2 : s2.view.th tid = some t := by simpa [h2, hne] using ht
      have hcr : s2.callOf r = tr.call r := (callOf_eq hr2).trans rfl
      rw [hcr, callOf_eq ht2]
      have hopen : Opened s (s2.record (.collected (tr.call r) (t.call tid))) tid r t tr ep e rest :=
        ⟨ht, hat, he, hq, hr, hne, by rw [view_record, h2]⟩
      generalize s2.record (.collected (tr.call r) (t.call tid)) = s3 at *
      have hcr3 : s3.callOf r = tr.call r := (callOf_eq hopen.th_sender).trans rfl
      cases ho : tr.outgoingCap with
      | none => exact hopen.wake (by simp [Thread.carriesReply, ho])
      | some cap =>
        have hc := hcollect r tr hfront (by simp [ho])
        have hcarries : tr.carriesReply = cap.object.isReply := by simp [Thread.carriesReply, ho]
        by_cases hcap : cap.object.isReply
        · have hl := hleave r tr hfront (.inl (hcarries.trans hcap))
          simp only [hcr3, if_pos hcap]
          cases hi : t.cspace.insert cap with
          | error err =>
            rw [insertCap_of_error hopen.th_receiver hi]
            exact hopen.leave (hcarries.trans hcap) hl
          | ok res =>
            cases (hrep.sealed hr).outgoing cap ho hcap
            rw [(insertCap_of_ok hopen.th_receiver hi tr.outgoingOrigin (tr.call r) ep).1]
            exact hopen.collectCall ho hi hc hl
        · rw [Bool.not_eq_true] at hcap
          simp only [hcr3, hcap]
          cases hi : t.cspace.insert cap with
          | error err =>
            rw [insertCap_of_error hopen.th_receiver hi]
            exact hopen.wake (hcarries.trans hcap)
          | ok res =>
            rw [(insertCap_of_ok hopen.th_receiver hi tr.outgoingOrigin (tr.call r) ep).1]
            exact hopen.collect ho hcap hi hc

lemma ipcReply_micros {caller : Tid} (hv : Linked s.view) (hr : Replies s.view)
    (ht : s.view.th tid = some t) (hat : t.At (.calling (.reply caller m0 m1 slot))) :
    Micros R s.view ((s.ipcReply caller m0 m1 (t.call tid) (t.origins slot)).setFrame tid
      (.consuming slot)).view := by
  have hignore : Micros R s.view (s.setFrame tid (.consuming slot)).view := by
    rw [view_setFrame ht]
    exact .single (.act ht hat.1 (.ignore hat.2))
  cases hc : s.threads.get caller with
  | none => simpa only [ipcReply, hc] using hignore
  | some tc =>
    simp only [ipcReply, hc]
    split
    · rename_i n hw
      obtain ⟨u, m, hu, hp, -, hoff, -⟩ := hr.awaits hv ht hat.2 hc hw
      cases Option.mem_unique hc hu
      have hne : tid ≠ caller := by
        rintro rfl
        cases Option.mem_unique ht hc
        simp [hat.1, Thread.Parked] at hp
      have hc1 : (s.record (.replied (t.call tid) (tc.call caller) (t.origins slot) m0 m1)).view.th caller =
        some tc := hc
      have h1 := view_deliver (m := ⟨m0, m1, 0, 0, 0⟩) hc1
      rw [callOf_eq hc, view_setFrame (by rw [h1, th_set_of_ne hne]; exact ht), h1]
      exact .single (.reply ht hat hne.symm hc hw hoff)
    · exact hignore

end

end CrickerOs.Kernel
