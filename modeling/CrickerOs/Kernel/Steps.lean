import CrickerOs.Kernel.Reaping
import CrickerOs.Library.Runs

namespace CrickerOs.Kernel

open Slots WakeHandshake Scheduler Option

variable {T E : ℕ} {s s' : Scheduler T E} {tid : Tid} {t : Thread} {ep : EpId} {e : Ipc.Endpoint Tid}
  {R : Restriction} {v v' : View}

lemma running_eq_some (h : s.running tid = some t) : s.view.th tid = some t ∧ t.handshake.state = .running := by
  simpa [running, filter_eq_some_iff] using h

lemma enter_micros (hv : Linked s.view) (hr : Replies s.view) (hR : Permits R s (.enter tid))
    (h : s.enter tid = some s') : Micros R s.view s'.view := by
  rw [enter] at h
  split at h
  · simp at h
  rename_i t hrun
  obtain ⟨ht, hstate⟩ := running_eq_some hrun
  split at h
  · rename_i p hf
    have hat : t.At (.calling p) := ⟨hstate, hf⟩
    cases h
    cases p with
    | send n m0 m1 m2 =>
      refine ipcSend_micros hv ht hat fun u hu => hR.fill u _ ?_
      simp [delivers, hrun, hf, hu]
    | recv n =>
      refine ipcRecv_micros hv ht hat rfl (fun _ _ => trivial) (fun _ => rfl) fun r u hu => hR.leave false r u ?_
      simp [collects, hrun, hf, hu]
    | wait n =>
      refine ipcRecv_micros hv ht hat rfl (fun _ _ => trivial) (fun _ => rfl) fun r u hu => hR.leave false r u ?_
      simp [collects, hrun, hf, hu]
    | sendCap n data cap =>
      refine ipcSendCap_micros hv ht hat ((hr.sealed ht).passes _ _ _ (.inl hf)) (hR.start t ?_) hR.plain
      simp [delegates, hrun, hf]
    | recvCap n =>
      refine ipcRecvCap_micros hv hr ht hat (fun r u hu => hR.collect r u ?_) fun r u hu => hR.leave true r u ?_
      · simp [collects, hrun, hf, hu]
      · simp [collects, hrun, hf, hu]
    | call n m0 m1 => exact ipcCall_micros hv ht hat hR.plain
    | reply caller m0 m1 slot =>
      have ht' : s.threads.get tid = some t := ht
      simp only [ht', callOf_eq ht, map_some, getD_some]
      exact ipcReply_micros hv hr ht hat
  · simp at h

lemma switchIn_micros (h : s.switchIn tid = some s') : Micros R s.view s'.view := by
  rw [switchIn] at h
  split at h
  · simp at h
  rename_i t ht
  split at h
  · rename_i hs
    cases h
    rw [view_modifyThread ht]
    exact .single (.turn ht (.switchIn hs.1 hs.2))
  · simp at h

lemma schedule_micros (h : s.schedule tid = some s') : Micros R s.view s'.view := by
  rw [schedule] at h
  split at h
  · simp at h
  rename_i t hrun
  obtain ⟨ht, hs⟩ := running_eq_some hrun
  cases h
  rw [view_modifyThread ht]
  refine .single (.turn ht ?_)
  split
  · exact .kill hs
  · exact .preempt hs

lemma finishSwitch_micros (hv : Linked s.view) (h : s.finishSwitch tid = some s') : Micros R s.view s'.view := by
  rw [finishSwitch] at h
  split at h
  · simp at h
  rename_i t ht
  split at h
  · rename_i hs
    by_cases hf : t.handshake.state = .finished
    · simp only [Handshake.finishSwitch, hf] at h
      obtain ⟨⟨x, threads⟩, hrem, rfl⟩ := map_eq_some_iff.mp h
      rw [view_remove_thread hrem]
      refine .single (.remove ht (.inl hf) (hv.offQueue ht fun n => ?_))
      exact Thread.Free.not_queued (by simp [Thread.Free, Thread.Parked, hf])
    · have hturn : Turn t.handshake t.handshake.finishSwitch.2 := .finish hs.1 hs.2 hf
      have hmod : s' = s.modifyThread tid fun t' => { t' with handshake := t.handshake.finishSwitch.2 } := by
        cases hp : t.handshake.wakePending <;> simpa [Handshake.finishSwitch, hf, hp, eq_comm] using h
      rw [hmod, view_modifyThread ht]
      exact .single (.turn ht hturn)
  · simp at h

variable {slot : ℕ}

lemma Request.admits {request : Request} {irqRoute : ℕ → Option EpId} {cap : Cap} {frame : Frame}
    (hl : t.cspace.lookup slot = some cap) (h : request.frame irqRoute cap slot = some frame) :
    t.Admits frame := by
  cases request with
  | sendCap | send | recv | recvCap | call =>
    rw [Request.frame] at h
    split at h
    · cases some.inj (ite_none_right_eq_some.mp h).2
      trivial
    · simp at h
  | reply =>
    rw [Request.frame] at h
    split at h
    · rename_i caller hobj
      cases some.inj (ite_none_right_eq_some.mp h).2
      exact ⟨cap, hl, hobj⟩
    · simp at h
  | wait =>
    rw [Request.frame] at h
    split at h
    · obtain ⟨ep, -, rfl⟩ := map_eq_some_iff.mp (ite_none_right_eq_some.mp h).2
      trivial
    · simp at h

lemma invoke_micros {request : Request} (h : s.invoke tid slot request = some s') :
    Micros R s.view s'.view := by
  rw [invoke] at h
  split at h
  · simp at h
  rename_i t hrun
  obtain ⟨ht, hs⟩ := running_eq_some hrun
  split at h
  · rename_i hf
    split at h
    · cases h
      exact .refl
    · rename_i frame hframe
      cases h
      obtain ⟨cap, hl, hreq⟩ := bind_eq_some_iff.mp hframe
      rw [view_modifyThread ht]
      exact .single (.act ht hs (.invoke hf (Request.admits hl hreq)))
  · simp at h

lemma resolve_micros (h : s.resolve tid = some s') : Micros R s.view s'.view := by
  rw [resolve] at h
  split at h
  · simp at h
  rename_i t hrun
  obtain ⟨ht, hs⟩ := running_eq_some hrun
  split at h
  · rename_i ep slot rights data hf
    have hrefuse : Micros R s.view (s.setFrame tid .user).view := by
      rw [view_setFrame ht]
      exact .single (.act ht hs (.refuse hf))
    split at h
    · cases h
      exact hrefuse
    · rename_i src hsrc
      split at h
      · rename_i hg
        cases h
        rw [view_record, view_setFrame ht, callOf_eq ht]
        exact .single (.pass ht ⟨hs, hf⟩ hsrc hg.1)
      · cases h
        exact hrefuse
  · simp at h

lemma resume_micros (h : s.resume tid = some s') : Micros R s.view s'.view := by
  rw [resume] at h
  split at h
  · simp at h
  rename_i t hrun
  obtain ⟨ht, hs⟩ := running_eq_some hrun
  split at h
  · rename_i p hf
    cases h
    rw [view_setFrame ht]
    exact .single (.act ht hs (.resume hf))
  · simp at h

lemma leave_micros (h : s.leave tid = some s') : Micros R s.view s'.view := by
  rw [leave] at h
  split at h
  · simp at h
  rename_i t hrun
  obtain ⟨ht, hs⟩ := running_eq_some hrun
  split at h
  · rename_i p words hf
    cases h
    rw [view_record, view_modifyThread ht, callOf_eq ht]
    cases p with
    | wait => exact .single (.leave ht ⟨hs, hf⟩ (.inl rfl))
    | _ => exact .single (.leave ht ⟨hs, hf⟩ (.inr rfl))
  · simp at h

lemma consume_micros (h : s.consume tid = some s') : Micros R s.view s'.view := by
  rw [consume] at h
  split at h
  · simp at h
  rename_i t hrun
  obtain ⟨ht, hs⟩ := running_eq_some hrun
  split at h
  · rename_i slot hf
    cases h
    rw [view_modifyThread ht]
    exact .single (.act ht hs (.consume hf))
  · simp at h

lemma capDelete_micros (h : s.capDelete tid slot = some s') : Micros R s.view s'.view := by
  rw [capDelete] at h
  split at h
  · simp at h
  rename_i t hrun
  obtain ⟨ht, hs⟩ := running_eq_some hrun
  split at h
  · rename_i hf
    cases h
    rw [view_modifyThread ht]
    exact .single (.act ht hs (.delete hf))
  · simp at h

lemma frontReceiver_eq {r : Tid} {tr : Thread} {rest : List Tid} (he : s.view.ep ep = some e)
    (hq : e.receivers = r :: rest) (hr : s.view.th r = some tr) : s.frontReceiver ep = some tr := by
  have he' : s.endpointOf ep = some e := he
  simp only [frontReceiver, he', hq]
  exact hr

section

variable (hv : Linked s.view)
include hv

lemma frontReceiver_of_set {x : Thread} (ht : s.view.th tid = some t)
    (hs : t.handshake.state = .running) (h : s'.view = s.view.set tid x) :
    s'.frontReceiver ep = s.frontReceiver ep := by
  have hep : s'.endpointOf ep = s.endpointOf ep := congrFun (congrArg View.ep h) ep
  cases he : s.endpointOf ep with
  | none => simp only [frontReceiver, hep, he]
  | some e =>
    simp only [frontReceiver, hep, he]
    cases hq : e.receivers with
    | nil => rfl
    | cons r rest =>
      obtain ⟨tr, hr, hne⟩ := hv.front he hq ht hs
      change s'.view.th r = s.view.th r
      rw [h, View.th_set_of_ne hne.symm]

lemma deliverDeath_micros {msg : Mailbox} (ht : s.view.th tid = some t)
    (hd : t.handshake.state = .dead) (hw : t.handshake.waitOn = none) (hf : t.faultEp = some ep)
    (hfill : ∀ u, s.frontReceiver ep = some u → R.fill u msg) :
    Micros R s.view (s.deliverDeath tid ep msg).view := by
  cases he : s.endpointOf ep with
  | none =>
    simp only [deliverDeath, he]
    exact .refl
  | some e =>
    cases hq : e.receivers with
    | nil =>
      simp only [deliverDeath, he, Ipc.Endpoint.send_of_nil hq]
      have h1 := view_setEndpoint he { e with senders := e.senders ++ [tid] }
      rw [view_modifyThread (by rw [h1]; exact ht), h1]
      exact .single (.parkCorpse ht hd hw hf he)
    | cons r rest =>
      simp only [deliverDeath, he, Ipc.Endpoint.send_of_cons hq]
      obtain ⟨tr, hr, -⟩ := hv.receivers he (show r ∈ e.receivers by simp [hq])
      exact .single (deliver_micro he hq hr (.inl (hfill tr (frontReceiver_eq he hq hr))))

lemma depart_micros {event pc addr : ℕ} (hR : Permits R s (.depart tid event pc addr))
    (h : s.departs tid event pc addr = some s') : Micros R s.view s'.view := by
  rw [departs] at h
  split at h
  · simp at h
  rename_i t hrun
  obtain ⟨ht, hs⟩ := running_eq_some hrun
  split at h
  · rename_i hf
    cases h
    have ht' : s.threads.get tid = some t := ht
    rw [depart, ht', bind_some]
    cases hfault : t.faultEp with
    | none =>
      simp only []
      rw [view_modifyThread ht]
      exact .single (.act ht hs (.exit hf))
    | some n =>
      simp only []
      have h1 := view_modifyThread ht fun t => { t with
        faultMsg := some ⟨event, tid, pc, addr, 0⟩
        mailbox := ⟨event, tid, pc, addr, 0⟩
        handshake := { t.handshake with state := .dead } }
      generalize s.modifyThread tid _ = s1 at *
      have hdie : Micro R s.view s1.view := by
        rw [h1]
        exact .act ht hs (.die hf)
      have hw := (hv.synced ht).awake (by simp [hs]) (by simp [hs])
      have hdead := (congrFun (congrArg View.th h1) tid).trans (View.th_set.trans (if_pos rfl))
      refine .head hdie (deliverDeath_micros (hv.micro hdie) hdead rfl hw hfault fun u hu => hR.fill u _ ?_)
      rw [frontReceiver_of_set hv ht hs h1] at hu
      simp [delivers, hrun, hfault, hu]
  · simp at h

lemma irqNotify_micros (hR : Permits R s (.irqNotify ep)) :
    Micros R s.view (s.irqNotify ep).view := by
  cases he : s.endpointOf ep with
  | none =>
    simp only [irqNotify, he]
    exact .refl
  | some e =>
    cases hq : e.receivers with
    | nil =>
      simp only [irqNotify, he, Ipc.Endpoint.signal_of_nil hq]
      rw [view_setEndpoint he]
      exact .single (.pending he)
    | cons r rest =>
      simp only [irqNotify, he, Ipc.Endpoint.signal_of_cons hq]
      obtain ⟨tr, hr, -⟩ := hv.receivers he (show r ∈ e.receivers by simp [hq])
      refine .single (deliver_micro he hq hr (.inl (hR.fill tr _ ?_)))
      simp [delivers, frontReceiver_eq he hq hr]

lemma step_micros {a : Action} (hr : Replies s.view) (hR : Permits R s a)
    (h : s.step a = some s') : Micros R s.view s'.view := by
  cases a with
  | switchIn => exact switchIn_micros h
  | schedule => exact schedule_micros h
  | finishSwitch => exact finishSwitch_micros hv h
  | invoke => exact invoke_micros h
  | resolve => exact resolve_micros h
  | enter => exact enter_micros hv hr hR h
  | resume => exact resume_micros h
  | leave => exact leave_micros h
  | consume => exact consume_micros h
  | capDelete => exact capDelete_micros h
  | depart => exact depart_micros hv hR h
  | irqNotify =>
    cases h
    exact irqNotify_micros hv hR
  | reapRegionObjects base limit =>
    cases h
    exact reapRegionObjects_micros base limit hv

end

lemma Thread.Fresh.state (h : t.Fresh) : t.handshake.state ≠ .blocked ∧ t.handshake.state ≠ .dead ∧
    t.handshake.wakePending = false ∧ t.handshake.waitOn = none := by
  rcases h.1 with hh | hh | hh <;> simp [hh, Handshake.onCpuNow, Handshake.ready, Handshake.embryo]

lemma Thread.Fresh.synced (h : t.Fresh) : t.Synced := by
  obtain ⟨hb, hd, hp, hw⟩ := h.state
  exact ⟨by simp [hp], fun h => absurd h hb, fun _ _ => hw, fun h => absurd h hd, fun h => absurd h hd⟩

lemma Scheduler.Start.linked (h : s.Start) : Linked s.view := by
  refine ⟨fun ht => (h.threads _ _ ht).synced, ?_, ?_, ?_, ?_⟩
  · intro n e tid he hmem
    simp [(h.endpoints n e he).1] at hmem
  · intro n e tid he hmem
    simp [(h.endpoints n e he).2] at hmem
  · intro n e he
    simp [h.endpoints n e he]
  · intro n tid t ht hr
    exact absurd hr.1.1 (h.threads tid t ht).state.1

lemma Thread.Fresh.not_holds {caller : Tid} (h : t.Fresh) : ¬t.Holds slot caller := by
  rintro ⟨⟨cap, hl, ho⟩, -⟩
  have := h.2.2.2 slot cap hl
  simp [ho, Object.isReply] at this

lemma Thread.Fresh.sealed (h : t.Fresh) : t.Sealed tid := by
  obtain ⟨-, hf, ho, hc⟩ := h
  refine ⟨by simp [ho], fun slot cap hl hrep => ?_, by simp [hf], by simp [hf]⟩
  simp [hc slot cap hl] at hrep

lemma Thread.Fresh.answered {tr : List Event} (h : t.Fresh) : t.Answered tid tr :=
  Thread.answered_of_frame (by simp [h.2.1]) (by simp [h.2.1])

lemma Scheduler.Start.replies (h : s.Start) : Replies s.view := by
  have hfresh : ∀ {tid t}, s.view.th tid = some t → t.Fresh := h.threads _ _
  have htrace : s.view.trace = [] := h.trace
  refine ⟨fun ht => (hfresh ht).sealed, fun ht hh => absurd hh (hfresh ht).not_holds,
    fun ht hh => absurd hh (hfresh ht).not_holds, ?_, fun ht => (hfresh ht).answered, ?_⟩
  · simp [Staged, htrace]
  · rw [htrace]
    trivial

lemma reach_linked {ok : Scheduler T E → Action → Prop} (h : Library.Reach step ok Scheduler.Start s) :
    Linked s.view ∧ Replies s.view := by
  refine h.invariant (fun s => Linked s.view ∧ Replies s.view) (fun s hs => ⟨hs.linked, hs.replies⟩) ?_
  rintro s a s' ⟨hv, hr⟩ - hs
  have hm := step_micros hv hr (permits_unrestricted a) hs
  exact ⟨hv.micros hm, hr.micros hv hm⟩

end CrickerOs.Kernel
