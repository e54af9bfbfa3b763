import CrickerOs.Kernel.OneReply

namespace CrickerOs.Kernel

open Slots WakeHandshake Library Scheduler View Ipc.Endpoint Option

def Frame.sends : Frame → Bool
  | .parked (.send _ _ _ _) | .parked (.sendCap _ _ _) => true
  | _ => false

def Frame.sendsPlain : Frame → Bool
  | .parked (.send _ _ _ _) => true
  | _ => false

def Thread.Runnable (t : Thread) : Prop :=
  t.handshake.state = .ready ∨ t.handshake.state = .blocked ∧ t.handshake.wakePending

/-- The step collects no thread parked in `SEND` that still carries the reply capability of an earlier call. -/
def Scheduler.LeavesNoSender {T E : ℕ} (s : Scheduler T E) (a : Action) : Prop :=
  (s.collects a).all fun (_, _, t) => !(t.frame.sendsPlain && t.carriesReply)

instance {T E : ℕ} (s : Scheduler T E) (a : Action) : Decidable (s.LeavesNoSender a) :=
  inferInstanceAs (Decidable (_ = true))

variable {T E : ℕ} {s s' : Scheduler T E} {v v' : View} {tid r : Tid} {t t' : Thread} {n ep : EpId}
  {e : Ipc.Endpoint Tid} {R : Restriction}

def Waits (v : View) : Prop :=
  ∀ tid t n, v.th tid = some t → t.Parked → t.handshake.waitOn = some (n, .sender) →
    ∃ e, v.ep n = some e ∧ tid ∈ e.senders

def sendersWoken : Restriction :=
  { unrestricted with leave := fun t => t.Parked → ∀ n, t.handshake.waitOn ≠ some (n, .sender) }

lemma View.stays_queue {e' : Ipc.Endpoint Tid} {m : EpId} {f : Ipc.Endpoint Tid} (he : v.ep n = some e)
    (hmem : tid ∈ e.senders) (hm : v.ep m = some f) (hsub : tid ∈ f.senders → tid ∈ e'.senders) :
    ∃ e'', (v.queue m e').ep n = some e'' ∧ tid ∈ e''.senders := by
  by_cases hnm : n = m
  · subst hnm
    cases mem_unique he hm
    exact ⟨e', by simp, hsub hmem⟩
  · exact ⟨e, by simpa [hnm] using he, hmem⟩

variable {u u' : Thread}

lemma View.stays_front {m : EpId} {f : Ipc.Endpoint Tid} {rest : List Tid} (he : v.ep n = some e)
    (hmem : tid ∈ e.senders) (ht : v.th tid = some t) (hm : v.ep m = some f) (hq : f.senders = r :: rest)
    (hu : v.th r = some u) (htaken : Taken R u u') (hep : v'.ep = (v.queue m { f with senders := rest }).ep)
    (hth : v'.th r = some u') :
    (∃ e', v'.ep n = some e' ∧ tid ∈ e'.senders) ∨ ∃ t', v'.th tid = some t' ∧ Taken R t t' := by
  by_cases ho : tid = r
  · subst ho
    cases mem_unique ht hu
    exact .inr ⟨u', hth, htaken⟩
  · left
    rw [hep]
    exact stays_queue he hmem hm fun h => by simpa [hq, ho] using h

lemma Micro.stays (h : Micro R v v') (he : v.ep n = some e) (hmem : tid ∈ e.senders) (ht : v.th tid = some t)
    (hd : t.handshake.state ≠ .dead) :
    (∃ e', v'.ep n = some e' ∧ tid ∈ e'.senders) ∨ ∃ t', v'.th tid = some t' ∧ Taken R t t' := by
  cases h with
  | pending hm | deliver hm | parkReceive _ _ _ hm | abortReceiver hm => exact .inl (stays_queue he hmem hm id)
  | parkSend _ _ hm | parkSendCap _ _ hm | parkCall _ _ hm | parkCorpse _ _ _ _ hm =>
    exact .inl (stays_queue he hmem hm fun h => List.mem_append_left _ h)
  | take hm hq hu htaken => exact stays_front he hmem ht hm hq hu htaken rfl (by simp)
  | collect hm hq hu ho hrep hne =>
    exact stays_front he hmem ht hm hq hu (.serve (by simp [Thread.carriesReply, ho, hrep]) (.inr rfl)) rfl
      (by simp [hne.symm])
  | collectCall hm hq hu ho hne _ _ _ _ hleave =>
    refine stays_front he hmem ht hm hq hu (.leave (.inl ?_) (.inr rfl) (.inl rfl) hleave) rfl (by simp [hne.symm])
    simp [Thread.carriesReply, ho, replyCap, Object.isReply]
  | @removeEndpoint m f hm hs =>
    have hne : n ≠ m := by
      rintro rfl
      cases mem_unique he hm
      simp [hs] at hmem
    exact .inl ⟨e, by simpa [hne] using he, hmem⟩
  | unlink hm hu hdead =>
    refine .inl (stays_queue he hmem hm fun h => List.mem_filter.mpr ⟨h, ?_⟩)
    suffices tid ≠ _ by simpa using this
    rintro rfl
    cases mem_unique ht hu
    exact hd hdead
  | _ => exact .inl ⟨e, he, hmem⟩

lemma Thread.taken_not_sender (h : Taken sendersWoken t t') (hp : t'.Parked) :
    t'.handshake.waitOn ≠ some (n, .sender) := by
  cases h with
  | serve => exact absurd hp t.woken_served.not_parked
  | abort => exact absurd hp t.woken_aborted.not_parked
  | leave _ _ hh hR =>
    rcases hh with rfl | ⟨-, rfl⟩
    · exact hR hp n
    · simp

lemma Thread.act_not_sender (hr : t.handshake.state = .running) (ha : Act t t') (hp : t'.Parked) :
    t'.handshake.waitOn ≠ some (n, .sender) := by
  cases ha <;> simp_all [Parked, Handshake.abort, Handshake.park]

lemma Waits.micro (hw : Waits v) (hv : Linked v) (h : Micro sendersWoken v v') : Waits v' := by
  intro tid t' n ht' hp hwait
  obtain ⟨t, ht, hc⟩ := h.changed hv tid t' ht'
  -- a thread that a queue need not notice stays on its queue
  have hkeep : t.Quiet t' → ∃ e, v'.ep n = some e ∧ tid ∈ e.senders := by
    intro hq
    have hpt := hq.parked.mp hp
    obtain ⟨e, he, hmem⟩ := hw tid t n ht hpt (hq.waitOn ▸ hwait)
    rcases h.stays he hmem ht (by simp [hpt.1]) with hstay | ⟨u, hu, htaken⟩
    · exact hstay
    · cases mem_unique ht' hu
      exact absurd hwait (Thread.taken_not_sender htaken hp)
  cases hc with
  | same => exact hkeep (.refl _)
  | turn hh =>
    obtain ⟨-, hq | hf⟩ := (hv.synced ht).turn hh
    · exact hkeep hq
    · exact absurd hp hf.2.1
  | arm => exact hkeep (by constructor <;> rfl)
  | hold => exact hkeep (.holding ..)
  | act hr ha => exact absurd hwait (Thread.act_not_sender hr ha hp)
  | complete hat | pass hat | handOver hat => simp [Thread.Parked, hat.1] at hp
  | leave hat hh => rcases hh with rfl | rfl <;> simp [Thread.Parked, hat.1] at hp
  | deliver | answer => exact absurd hp t.woken_served.not_parked
  | abort => exact absurd hp t.woken_aborted.not_parked
  | park _ _ _ _ hq => exact hq n (some.inj hwait)
  | corpse hd => simp [Thread.Parked, hd] at hp
  | take _ _ htaken => exact absurd hwait (Thread.taken_not_sender htaken hp)

lemma Waits.micros (hw : Waits v) (hv : Linked v) (h : Micros sendersWoken v v') : Waits v' := by
  induction h with
  | refl => exact hw
  | tail hs h ih => exact ih.micro (hv.micros hs) h

lemma frontSender_eq_some (h : s.frontSender ep tid = some (r, u)) :
    ∃ e rest, s.endpointOf ep = some e ∧ ¬0 < e.pending ∧ e.senders = r :: rest ∧ s.threads.get r = some u := by
  cases he : s.endpointOf ep with
  | none => simp [frontSender, he] at h
  | some e =>
    by_cases hp : 0 < e.pending
    · simp [frontSender, he, recv_of_pending hp] at h
    · cases hq : e.senders with
      | nil => simp [frontSender, he, recv_of_nil hp hq] at h
      | cons x rest =>
        simp only [frontSender, he, recv_of_cons hp hq, map_eq_some_iff] at h
        obtain ⟨u', hu, heq⟩ := h
        cases heq
        exact ⟨e, rest, rfl, hp, hq, hu⟩

structure Collecting (s : Scheduler T E) (tid : Tid) (p : Prim) (ep : EpId) (r : Tid) (u : Thread) : Prop where
  running : ∃ t, s.running tid = some t ∧ t.frame = .calling p
  prim : p = .recv ep ∨ p = .wait ep ∨ p = .recvCap ep
  front : s.frontSender ep tid = some (r, u)

lemma collects_eq_some {a : Action} {b : Bool} (h : s.collects a = some (b, r, u)) :
    ∃ tid p ep, a = .enter tid ∧ Collecting s tid p ep r u := by
  cases a with
  | enter tid =>
    cases hrun : s.running tid with
    | none => simp [collects, hrun] at h
    | some t =>
      simp only [collects, hrun, map_some] at h
      split at h
      · rename_i ep hf
        obtain ⟨x, hx, heq⟩ := map_eq_some_iff.mp h
        cases heq
        exact ⟨tid, _, ep, rfl, ⟨t, hrun, some.inj hf⟩, .inl rfl, hx⟩
      · rename_i ep hf
        obtain ⟨x, hx, heq⟩ := map_eq_some_iff.mp h
        cases heq
        exact ⟨tid, _, ep, rfl, ⟨t, hrun, some.inj hf⟩, .inr (.inl rfl), hx⟩
      · rename_i ep hf
        obtain ⟨x, hx, heq⟩ := map_eq_some_iff.mp h
        cases heq
        exact ⟨tid, _, ep, rfl, ⟨t, hrun, some.inj hf⟩, .inr (.inr rfl), hx⟩
      · simp at h
  | _ => simp [collects] at h

lemma Collecting.queued {p : Prim} (h : Collecting s tid p ep r u) (hv : Linked s.view) :
    u.Queued r ep ∧ tid ≠ r := by
  obtain ⟨t, hrun, -⟩ := h.running
  obtain ⟨ht, hstate⟩ := running_eq_some hrun
  obtain ⟨e, rest, he, -, hq, hr⟩ := frontSender_eq_some h.front
  obtain ⟨x, hx, hqueued, hne⟩ := hv.frontSender he hq ht hstate
  cases mem_unique hr hx
  exact ⟨hqueued, hne⟩

lemma Scheduler.LeavesNoSender.caller {a : Action} {b : Bool} (hok : s.LeavesNoSender a) (hv : Linked s.view)
    (hr : Replies s.view) (h : s.collects a = some (b, r, u)) (hc : u.carriesReply)
    (hd : u.handshake.state ≠ .dead) : ∃ ep m0 m1, u.frame = .parked (.call ep m0 m1) := by
  obtain ⟨tid, p, ep, rfl, hcol⟩ := collects_eq_some h
  obtain ⟨e, rest, -, -, -, hu⟩ := frontSender_eq_some hcol.front
  cases (hcol.queued hv).1 with
  | corpse hdead => exact absurd hdead hd
  | send _ hf => simp [LeavesNoSender, h, Frame.sendsPlain, hf, hc] at hok
  | sendCap _ hf ho => simp [Thread.carriesReply, ho, (hr.sealed hu).passes _ _ _ (.inr hf)] at hc
  | call _ hf => exact ⟨_, _, _, hf⟩

lemma Scheduler.LeavesNoSender.permits {a : Action} (hok : s.LeavesNoSender a) (hv : Linked s.view)
    (hr : Replies s.view) : Permits sendersWoken s a := by
  refine ⟨fun _ _ _ _ => trivial, ?_, fun _ _ => trivial, fun _ _ _ => trivial, fun _ _ _ => trivial⟩
  intro b r u h hleave hp n hw
  have hd : u.handshake.state ≠ .dead := by simp [hp.1]
  obtain ⟨ep, m0, m1, hf⟩ := hok.caller hv hr h (hleave.resolve_right hd) hd
  obtain ⟨tid, p, m, rfl, hcol⟩ := collects_eq_some h
  obtain ⟨e, rest, -, -, -, hu⟩ := frontSender_eq_some hcol.front
  simp [(hv.synced hu).waitOn hp hf] at hw

lemma insertCap_other (s : Scheduler T E) (cap : Cap) (origin call : CallId) (ep : EpId) (h : r ≠ tid) :
    (s.insertCap tid cap origin call ep).2.view.th r = s.view.th r := by
  rw [insertCap]
  split
  · rfl
  · rename_i t ht
    split
    · rfl
    · rw [view_record, view_modifyThread ht, th_log, th_set_of_ne h]

lemma ipcRecv_woken (h : s.frontSender ep tid = some (r, u)) (hl : leaveBlocked u = false) :
    (s.ipcRecv tid ep).2.view.th r = some u.served := by
  obtain ⟨e, rest, he, hp, hq, hu⟩ := frontSender_eq_some h
  have hu1 : (s.setEndpoint ep { e with senders := rest }).view.th r = some u := hu
  simp only [ipcRecv, he, recv_of_cons hp hq, threads_setEndpoint, hu, hl, if_true]
  rw [view_serve hu1, th_set, if_pos rfl]

lemma ipcRecvCap_woken (h : s.frontSender ep tid = some (r, u)) (hne : tid ≠ r)
    (hc : u.carriesReply = false) :
    (s.ipcRecvCap tid ep).2.view.th r = some { u.served with outgoingCap := none } := by
  obtain ⟨e, rest, he, hp, hq, hu⟩ := frontSender_eq_some h
  have hu1 : (s.setEndpoint ep { e with senders := rest }).view.th r = some u := hu
  have hu2 := congrFun (congrArg th (view_modifyThread hu1 fun t => { t with outgoingCap := none })) r
  rw [th_set, if_pos rfl] at hu2
  simp only [ipcRecvCap, he, recv_of_cons hp hq, threads_setEndpoint, hu]
  generalize (s.setEndpoint ep { e with senders := rest }).modifyThread r
    (fun t => { t with outgoingCap := none }) = s2
    at *
  have hu3 : (s2.record (.collected (s2.callOf r) (s2.callOf tid))).view.th r =
  some { u with outgoingCap := none } := hu2
  generalize s2.record (.collected (s2.callOf r) (s2.callOf tid)) = s3 at *
  cases ho : u.outgoingCap with
  | none =>
    simp only []
    rw [view_serve hu3, th_set, if_pos rfl]
    rfl
  | some cap =>
    have hcap : cap.object.isReply = false := by simpa [Thread.carriesReply, ho] using hc
    simp only [hcap, Bool.false_eq_true, if_false]
    rw [view_serve ((insertCap_other s3 cap _ _ ep hne.symm).trans hu3), th_set, if_pos rfl]
    rfl

lemma runnable_served (hp : u.Parked) (h : u'.handshake = u.served.handshake) : u'.Runnable := by
  have hw := u.woken_served
  rw [Thread.Runnable, h]
  generalize u.served = x at hw
  cases hw with
  | deferred hb => exact .inr ⟨hb, rfl⟩
  | ready => exact .inl rfl
  | awake hb => exact absurd hp.1 hb

lemma Thread.Queued.parked (h : u.Queued r ep) (hd : u.handshake.state ≠ .dead) : u.Parked := by
  cases h with
  | corpse hdead => exact absurd hdead hd
  | send hp | sendCap hp | call hp => exact hp

lemma Collecting.woken {p : Prim} (h : Collecting s tid p ep r u) (hv : Linked s.view)
    (hp : u.Parked) (hc : u.carriesReply = false) (hs : s.step (.enter tid) = some s') :
    ∃ u', s'.view.th r = some u' ∧ u'.Runnable := by
  obtain ⟨t, hrun, hf⟩ := h.running
  have hne := (h.queued hv).2
  have hl : leaveBlocked u = false := by
    rw [leaveBlocked, Bool.or_eq_false_iff]
    exact ⟨hc, by simp [hp.1]⟩
  simp only [step, enter, hrun, hf, some.injEq] at hs
  have hother : ∀ (x : Scheduler T E) frame, (x.setFrame tid frame).view.th r = x.view.th r := by
    intro x frame
    rw [th_view, th_view, setFrame, modifyThread, Table.get_modify, Function.update_of_ne hne.symm]
  subst hs
  rw [hother]
  rcases h.prim with rfl | rfl | rfl
  · exact ⟨_, ipcRecv_woken h.front hl, runnable_served hp rfl⟩
  · exact ⟨_, ipcRecv_woken h.front hl, runnable_served hp rfl⟩
  · exact ⟨_, ipcRecvCap_woken h.front hne hc, runnable_served hp rfl⟩

lemma reach_waits (h : Reach step Scheduler.LeavesNoSender Scheduler.Start s) : Waits s.view := by
  refine h.invariant_of (fun s => Waits s.view) ?_ ?_
  · intro s hs tid t n ht hp
    exact absurd hp.1 (hs.threads tid t ht).state.1
  · intro s a s' hreach hw hok hs
    obtain ⟨hv, hr⟩ := reach_linked hreach
    exact hw.micros hv (step_micros hv hr (hok.permits hv hr) hs)

theorem collected_sends_complete (h : Reach Scheduler.step Scheduler.LeavesNoSender Scheduler.Start s) :
    (∀ tid t ep, s.threads.get tid = some t → t.handshake.state = .blocked →
      t.handshake.waitOn = some (ep, .sender) → t.handshake.wakePending ∨ ∃ e, s.endpointOf ep = some e ∧
      tid ∈ e.senders) ∧
    ∀ a s' b r u, s.LeavesNoSender a → s.step a = some s' → s.collects a = some (b, r, u) → u.frame.sends →
      u.handshake.state ≠ .dead → ∃ u', s'.threads.get r = some u' ∧ u'.Runnable := by
  obtain ⟨hv, hr⟩ := reach_linked h
  constructor
  · intro tid t ep ht hb hw
    cases hp : t.handshake.wakePending with
    | true => exact .inl rfl
    | false => exact .inr (reach_waits h tid t ep ht ⟨hb, hp⟩ hw)
  · intro a s' b r u hok hs hcol hsends hd
    have hcarry : u.carriesReply = false := by
      by_contra hc
      obtain ⟨n, m0, m1, hf⟩ := hok.caller hv hr hcol (by simpa using hc) hd
      simp [hf, Frame.sends] at hsends
    obtain ⟨tid, p, n, rfl, hcollect⟩ := collects_eq_some hcol
    exact hcollect.woken hv ((hcollect.queued hv).1.parked hd) hcarry hs

theorem collected_sends_complete_in_trio : ∃ s, execute Scheduler.step Scheduler.LeavesNoSender trio
    [.invoke 0 1 (.send 1 2 3), .enter 0, .invoke 1 1 .recv] = some s ∧
    (s.LeavesNoSender (.enter 1) ∧ (s.collects (.enter 1)).any (fun (_, r, u) => r = 0 ∧ u.frame.sends ∧
      u.handshake.state ≠ .dead) ∧ (s.step (.enter 1)).isSome) ∧
    ∀ s', s.step (.enter 1) = some s' → ∃ u, s'.threads.get 0 = some u ∧ u.Runnable := by
  refine Reach.exists_execute start_trio ?_ (by decide +kernel)
  rintro s h ⟨hok, hcol, -⟩ s' hs
  cases hc : s.collects (.enter 1) with
  | none => simp [hc] at hcol
  | some x =>
    obtain ⟨b, r, u⟩ := x
    obtain ⟨rfl, hsends, hd⟩ : r = 0 ∧ u.frame.sends ∧ u.handshake.state ≠ .dead := by simpa [hc] using hcol
    exact (collected_sends_complete h).2 _ _ _ _ _ hok hs hc hsends hd

/-- The endpoint a call is queued on is destroyed; the caller's next send is collected and never woken. -/
theorem stale_reply_strands_sender : trio.Start ∧ ∃ s, execute Scheduler.step always trio
    [.invoke 0 0 (.call 5 6), .enter 0, .finishSwitch 0, .reapRegionObjects 100 101, .switchIn 0, .resume 0,
      .leave 0, .invoke 0 1 (.send 1 2 3), .enter 0, .invoke 1 1 .recv, .enter 1] = some s ∧
    (∃ t ∈ s.threads.get 0, t.handshake.state = .blocked ∧ t.handshake.waitOn = some (1, .sender) ∧
      t.handshake.wakePending = false) ∧ ∀ e ∈ s.endpoints.values, 0 ∉ e.endpoint.senders :=
  ⟨start_trio, exists_execute (by decide +kernel)⟩

end CrickerOs.Kernel
