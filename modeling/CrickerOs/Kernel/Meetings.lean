import CrickerOs.Kernel.Strides

namespace CrickerOs.Kernel

open Slots WakeHandshake Function Scheduler Ipc.Endpoint List Option

variable {T E : ℕ} {s s' : Scheduler T E} {a : Action} {tid : Tid} {t t' : Thread}

namespace Scheduler

def meets (s : Scheduler T E) : Action → List Tid
  | .enter tid =>
    match (s.running tid).map Thread.frame with
    | some (.calling p) =>
      match (p.waitsOn.map Prod.fst).bind s.endpointOf with
      | some e => (p.meets e tid).1
      | none => []
    | _ => []
  | .irqNotify ep =>
    match (s.endpointOf ep).bind fun e => e.signal.1 with
    | some receiver => [receiver]
    | none => []
  | .depart tid _ _ _ =>
    match ((s.running tid).bind Thread.faultEp).bind s.endpointOf with
    | some e =>
      match e.send tid with
      | (.rendezvous receiver, _) => [receiver]
      | _ => []
    | none => []
  | _ => []

end Scheduler

def Scheduler.Queued (s : Scheduler T E) (tid : Tid) : Prop :=
  ∃ n e, s.endpointOf n = some e ∧ tid ∈ e.drainWaiters

inductive Requeue (s : Scheduler T E) (a : Action) (s' : Scheduler T E) : Prop
  | same : s'.endpointOf = s.endpointOf → s.meets a = [] → Requeue s a s'
  | enter {x u q n role e} : a = .enter x → s.running x = some u → u.frame = .calling q →
      q.waitsOn = some (n, role) → s.endpointOf n = some e →
      s'.endpointOf = Function.update s.endpointOf n (some (q.meets e x).2) → s.meets a = (q.meets e x).1 →
      Requeue s a s'
  | signal {n e} : a = .irqNotify n → s.endpointOf n = some e →
      s'.endpointOf = Function.update s.endpointOf n (some e.signal.2) → s.meets a = e.signal.1.toList →
      Requeue s a s'
  | depart {x u n e event pc addr} : a = .depart x event pc addr → s.running x = some u → u.frame = .user →
      s.endpointOf n = some e → s'.endpointOf = Function.update s.endpointOf n (some (e.send x).2) →
      (∀ r ∈ s.meets a, (e.send x).1 = .rendezvous r) → Requeue s a s'
  | reap {base limit} : a = .reapRegionObjects base limit →
      (∀ {n e'}, s'.endpointOf n = some e' → ∃ e, s.endpointOf n = some e ∧ e'.drainWaiters ⊆ e.drainWaiters) →
      Requeue s a s'

lemma enter_requeue {x : Tid} (h : s.enter x = some s') : Requeue s (.enter x) s' := by
  obtain ⟨u, q, hu, hframe, rfl⟩ := enter_eq h
  have hmeets : s.meets (.enter x) = match (q.waitsOn.map Prod.fst).bind s.endpointOf with
      | some e => (q.meets e x).1
      | none => [] := by
    simp only [meets, hu, map_some, hframe]
  cases hw : q.waitsOn with
  | none =>
    cases q with
    | reply caller m0 m1 slot =>
      refine .same ?_ (by rw [hmeets, hw]; rfl)
      simp only [runPrim, endpointOf_setFrame, ipcReply]
      split
      · rfl
      · split <;> rfl
    | _ => simp [Prim.waitsOn] at hw
  | some waits =>
    obtain ⟨n, role⟩ := waits
    rw [hw, map_some, bind_some] at hmeets
    cases he : s.endpointOf n with
    | none =>
      obtain ⟨words, hrun, -⟩ := runPrim_stale x hw he
      refine .same ?_ (by rw [hmeets, he])
      rw [hrun]
      rfl
    | some e =>
      refine .enter rfl hu hframe hw he ?_ (by rw [hmeets, he])
      exact endpointOf_runPrim hw he

lemma irqNotify_requeue {n : EpId} : Requeue s (.irqNotify n) (s.irqNotify n) := by
  cases he : s.endpointOf n with
  | none =>
    refine .same ?_ (by simp [meets, he])
    rw [irqNotify, he]
  | some e =>
    refine .signal rfl he ?_ ?_
    · rw [irqNotify, he, ← endpointOf_setEndpoint he]
      dsimp only
      cases hsignal : e.signal with
      | mk waiter e' => cases waiter <;> rfl
    · rw [meets, he, bind_some]
      cases e.signal.1 <;> rfl

lemma departs_requeue {x : Tid} {event pc addr : ℕ} (h : s.departs x event pc addr = some s') :
    Requeue s (.depart x event pc addr) s' := by
  rw [departs] at h
  split at h
  · simp at h
  · rename_i u hu
    have hget : s.threads.get x = some u := (running_eq_some hu).1
    split_ifs at h with huser
    cases h
    rw [depart, hget, bind_some]
    cases hf : u.faultEp with
    | none => exact .same rfl (by simp [meets, hu, hf])
    | some n =>
      dsimp only
      set s1 := s.modifyThread x _
      have hep : s1.endpointOf = s.endpointOf := rfl
      cases he : s.endpointOf n with
      | none =>
        refine .same ?_ (by simp [meets, hu, hf, he])
        rw [deliverDeath, hep, he]
        exact hep
      | some e =>
        have he1 : s1.endpointOf n = some e := hep ▸ he
        refine .depart rfl hu huser he ?_ ?_
        · rw [deliverDeath, he1, ← hep, ← endpointOf_setEndpoint he1]
          dsimp only
          cases hsend : e.send x with
          | mk verdict e' => cases verdict <;> rfl
        · intro r hr
          simp only [meets, hu, bind_some, hf, he] at hr
          split at hr
          · rename_i hsend
            rw [mem_singleton] at hr
            rw [hsend, hr]
          · simp at hr

lemma finishSwitch_rest {x : Tid} (h : s.finishSwitch x = some s') : s'.endpointOf = s.endpointOf ∧
    s'.trace = s.trace := by
  rw [finishSwitch] at h
  split at h
  · simp at h
  · split_ifs at h
    split at h
    · obtain ⟨⟨y, threads⟩, hrem, rfl⟩ := map_eq_some_iff.mp h
      exact ⟨rfl, rfl⟩
    · cases h
      exact ⟨rfl, rfl⟩

lemma step_requeue (h : s.step a = some s') : Requeue s a s' := by
  cases a with
  | enter => exact enter_requeue h
  | irqNotify =>
    cases h
    exact irqNotify_requeue
  | depart => exact departs_requeue h
  | reapRegionObjects base limit =>
    cases h
    obtain ⟨armed, hdrained, hthinned⟩ := reap_drained s base limit
    refine .reap rfl fun {n e'} he' => ?_
    obtain ⟨e, he, hsub⟩ := hthinned.queues he'
    refine ⟨e, ?_, hsub⟩
    rcases hdrained.endpoints n with hn | hn
    · simp [hn] at he
    · exact hn.symm.trans he
  | finishSwitch => exact .same (finishSwitch_rest h).1 rfl
  | _ =>
    refine .same ?_ rfl
    simp only [step, switchIn, schedule, invoke, resolve, resume,
      leave, consume, capDelete] at h
    repeat' split at h
    all_goals first
      | (simp at h; done)
      | (cases h; rfl)

variable {n m : EpId} {e f : Ipc.Endpoint Tid} {x y : Tid}

lemma meets_cases (q : Prim) (e : Ipc.Endpoint Tid) (x : Tid) :
    (∃ rest receiver, e.receivers = receiver :: rest ∧ q.meets e x =
    ([x, receiver], { e with receivers := rest })) ∨ (∃ rest sender, e.senders = sender :: rest ∧
    q.meets e x = ([x, sender], { e with senders := rest })) ∨
    (∃ pending, q.meets e x = ([x], { e with pending })) ∨
    q.meets e x = ([], { e with receivers := e.receivers ++ [x] }) ∨
    q.meets e x = ([], { e with senders := e.senders ++ [x] }) := by
  by_cases hw : ∃ n, q.waitsOn = some (n, .receiver)
  · obtain ⟨n, hw⟩ := hw
    right
    simp only [Prim.meets, hw]
    by_cases hp : 0 < e.pending
    · rw [recv_of_pending hp]
      exact .inr (.inl ⟨_, rfl⟩)
    · cases hq : e.senders with
      | nil =>
        rw [recv_of_nil hp hq, hq]
        exact .inr (.inr (.inl rfl))
      | cons sender rest =>
        rw [recv_of_cons hp hq]
        exact .inl ⟨rest, sender, rfl, rfl⟩
  · rw [Prim.meets]
    split
    · rename_i n hn
      exact absurd ⟨n, hn⟩ hw
    · cases hq : e.receivers with
      | nil =>
        rw [Ipc.Endpoint.send_of_nil hq, hq]
        exact .inr (.inr (.inr (.inr rfl)))
      | cons receiver rest =>
        rw [Ipc.Endpoint.send_of_cons hq]
        exact .inl ⟨rest, receiver, rfl, rfl⟩

lemma mem_meets {q : Prim} (h : y ∈ (q.meets e x).2.drainWaiters) :
    y ∈ e.drainWaiters ∨ y = x ∧ (q.meets e x).1 = [] := by
  rcases meets_cases q e x with ⟨rest, r, hq, hm⟩ | ⟨rest, r, hq, hm⟩ | ⟨pending, hm⟩ | hm | hm <;>
    simp only [hm, drainWaiters, mem_append] at h ⊢
  · rw [hq]
    exact .inl (h.imp_right (mem_cons_of_mem _))
  · rw [hq]
    exact .inl (h.imp_left (mem_cons_of_mem _))
  · exact .inl h
  · rcases h with h | h | h
    · exact .inl (.inl h)
    · exact .inl (.inr h)
    · exact .inr ⟨mem_singleton.mp h, trivial⟩
  · rcases h with (h | h) | h
    · exact .inl (.inl h)
    · exact .inr ⟨mem_singleton.mp h, trivial⟩
    · exact .inl (.inr h)

lemma not_mem_meets {q : Prim} (hd : e.drainWaiters.Nodup) (hy : y ∈ (q.meets e x).1) (hne : y ≠ x) :
    y ∈ e.drainWaiters ∧ y ∉ (q.meets e x).2.drainWaiters := by
  rcases meets_cases q e x with ⟨rest, r, hq, hm⟩ | ⟨rest, r, hq, hm⟩ | ⟨pending, hm⟩ | hm | hm <;>
    simp only [hm, drainWaiters] at hd hy ⊢
  · obtain rfl : y = r := by simpa [hne] using hy
    rw [hq, nodup_middle, nodup_cons] at hd
    exact ⟨by simp [hq], hd.1⟩
  · obtain rfl : y = r := by simpa [hne] using hy
    rw [hq, cons_append, nodup_cons] at hd
    exact ⟨by simp [hq], hd.1⟩
  · simp [hne] at hy
  · simp at hy
  · simp at hy

lemma Linked.drain_nodup {v : View} (hv : Linked v) (he : v.ep n = some e) : e.drainWaiters.Nodup := by
  obtain ⟨hs, hr⟩ := hv.distinct he
  refine List.Nodup.append hs hr ?_
  intro u hu hu'
  obtain ⟨t, ht, hq⟩ := hv.senders he hu
  obtain ⟨t', ht', hrecv⟩ := hv.receivers he hu'
  cases mem_unique ht ht'
  exact hq.not_receives hrecv

lemma Linked.one_queue {v : View} (hv : Linked v) (he : v.ep n = some e) (hf : v.ep m = some f)
    (hn : y ∈ e.drainWaiters) (hm : y ∈ f.drainWaiters) : m = n := by
  rcases mem_append.mp hn with hn | hn <;> rcases mem_append.mp hm with hm | hm
  · obtain ⟨t, ht, hq⟩ := hv.senders he hn
    obtain ⟨t', ht', hq'⟩ := hv.senders hf hm
    cases mem_unique ht ht'
    exact hq.unique hq'
  · obtain ⟨t, ht, hq⟩ := hv.senders he hn
    obtain ⟨t', ht', hr⟩ := hv.receivers hf hm
    cases mem_unique ht ht'
    exact absurd hr hq.not_receives
  · obtain ⟨t, ht, hr⟩ := hv.receivers he hn
    obtain ⟨t', ht', hq⟩ := hv.senders hf hm
    cases mem_unique ht ht'
    exact absurd hr hq.not_receives
  · obtain ⟨t, ht, hr⟩ := hv.receivers he hn
    obtain ⟨t', ht', hr'⟩ := hv.receivers hf hm
    cases mem_unique ht ht'
    exact hr.unique hr'

lemma Linked.parked_of_queued (hv : Linked s.view) (ht : s.threads.get tid = some t) (h : s.Queued tid) :
    t.Parked ∧ (∃ p, t.frame = .parked p) ∨ t.handshake.state = .dead ∧ t.frame = .user := by
  obtain ⟨n, e, he, hmem⟩ := h
  rcases mem_append.mp hmem with hmem | hmem
  · obtain ⟨u, hu, hq⟩ := hv.senders he hmem
    obtain rfl : t = u := mem_unique ht hu
    cases hq with
    | corpse hd => exact .inr ⟨hd, (hv.synced hu).corpse hd⟩
    | send hp hf | sendCap hp hf | call hp hf => exact .inl ⟨hp, _, hf⟩
  · obtain ⟨u, hu, hr⟩ := hv.receivers he hmem
    obtain rfl : t = u := mem_unique ht hu
    obtain ⟨hp, q, hf, -⟩ := hr
    exact .inl ⟨hp, q, hf⟩

lemma Linked.not_queued_of_running (hv : Linked s.view) (h : s.running tid = some t) : ¬s.Queued tid := by
  intro hq
  obtain ⟨ht, hr⟩ := running_eq_some h
  rcases hv.parked_of_queued ht hq with ⟨hp, -⟩ | ⟨hd, -⟩
  · simp [Thread.Parked, hr] at hp
  · simp [hr] at hd

lemma step_queued (h : s.step a = some s') (hq : s'.Queued tid) :
    s.Queued tid ∨ (a = .enter tid ∧ s.meets a = []) ∨ ∃ event pc addr u, a = .depart tid event pc addr ∧
      s.running tid = some u ∧ u.frame = .user := by
  obtain ⟨n, e', he', hmem⟩ := hq
  cases step_requeue h with
  | same hsame => exact .inl ⟨n, e', hsame ▸ he', hmem⟩
  | @enter x u q m role e ha _ _ _ he hupd hmeets =>
    rw [hupd, update_apply] at he'
    split at he'
    · cases he'
      rcases mem_meets hmem with hold | ⟨rfl, hnone⟩
      · exact .inl ⟨m, e, he, hold⟩
      · exact .inr (.inl ⟨ha, hmeets.trans hnone⟩)
    · exact .inl ⟨n, e', he', hmem⟩
  | @signal m e _ he hupd =>
    rw [hupd, update_apply] at he'
    split at he'
    · cases he'
      refine .inl ⟨m, e, he, ?_⟩
      rw [signal] at hmem
      split at hmem
      · rename_i r rest hr
        rw [drainWaiters, hr]
        rcases mem_append.mp hmem with hmem | hmem
        · exact mem_append_left _ hmem
        · exact mem_append_right _ (mem_cons_of_mem _ hmem)
      · exact hmem
    · exact .inl ⟨n, e', he', hmem⟩
  | @depart x u m e event pc addr ha hu huser he hupd =>
    rw [hupd, update_apply] at he'
    split at he'
    · cases he'
      rw [send] at hmem
      split at hmem
      · rename_i r rest hr
        refine .inl ⟨m, e, he, ?_⟩
        rw [drainWaiters, hr]
        rcases mem_append.mp hmem with hmem | hmem
        · exact mem_append_left _ hmem
        · exact mem_append_right _ (mem_cons_of_mem _ hmem)
      · rename_i hr
        rcases mem_append.mp hmem with hmem | hmem
        · rcases mem_append.mp hmem with hmem | hmem
          · exact .inl ⟨m, e, he, mem_append_left _ hmem⟩
          · cases mem_singleton.mp hmem
            exact .inr (.inr ⟨event, pc, addr, u, ha, hu, huser⟩)
        · exact .inl ⟨m, e, he, mem_append_right _ hmem⟩
    · exact .inl ⟨n, e', he', hmem⟩
  | reap _ hqueues =>
    obtain ⟨e, he, hsub⟩ := hqueues he'
    exact .inl ⟨n, e, he, hsub hmem⟩

lemma Linked.left_queue {e' : Ipc.Endpoint Tid} (hv : Linked s.view) (he : s.endpointOf n = some e)
    (hupd : s'.endpointOf = update s.endpointOf n (some e')) (hin : y ∈ e.drainWaiters)
    (hout : y ∉ e'.drainWaiters) : ¬s'.Queued y := by
  rintro ⟨m, f, hf, hmem⟩
  rw [hupd, update_apply] at hf
  split at hf
  · cases hf
    exact hout hmem
  · rename_i hne
    exact hne (hv.one_queue he hf hin hmem)

lemma not_mem_receivers {rest : List Tid} (hd : e.drainWaiters.Nodup) (hq : e.receivers = y :: rest) :
    y ∈ e.drainWaiters ∧ y ∉ ({ e with receivers := rest } : Ipc.Endpoint Tid).drainWaiters := by
  rw [drainWaiters, hq, nodup_append, nodup_cons] at hd
  refine ⟨by simp [drainWaiters, hq], fun hmem => ?_⟩
  rcases mem_append.mp hmem with hmem | hmem
  · exact hd.2.2 y hmem y mem_cons_self rfl
  · exact hd.2.1.1 hmem

lemma meets_leaves (hv : Linked s.view) (h : s.step a = some s') (hy : y ∈ s.meets a) :
    (a = .enter y ∨ s.Queued y) ∧ ¬s'.Queued y := by
  have hfront {n : EpId} {e : Ipc.Endpoint Tid} {rest : List Tid} (he : s.endpointOf n = some e)
      (hq : e.receivers = y :: rest)
      (hupd : s'.endpointOf = update s.endpointOf n (some { e with receivers := rest })) :
      (a = .enter y ∨ s.Queued y) ∧ ¬s'.Queued y := by
    obtain ⟨hin, hout⟩ := not_mem_receivers (hv.drain_nodup he) hq
    exact ⟨.inr ⟨n, e, he, hin⟩, hv.left_queue he hupd hin hout⟩
  cases step_requeue h with
  | same _ hnone => simp [hnone] at hy
  | @enter x u q n role e ha hu _ _ he hupd hmeets =>
    by_cases hyx : y = x
    · subst hyx
      refine ⟨.inl ha, fun hq => ?_⟩
      rcases step_queued h hq with hold | ⟨-, hnone⟩ | ⟨_, _, _, _, hdep, -⟩
      · exact hv.not_queued_of_running hu hold
      · simp [hnone] at hy
      · simp [ha] at hdep
    · rw [hmeets] at hy
      obtain ⟨hin, hout⟩ := not_mem_meets (hv.drain_nodup he) hy hyx
      exact ⟨.inr ⟨n, e, he, hin⟩, hv.left_queue he hupd hin hout⟩
  | @signal n e _ he hupd hmeets =>
    rw [hmeets] at hy
    cases hq : e.receivers with
    | nil => simp [signal_of_nil hq] at hy
    | cons r rest =>
      rw [signal_of_cons hq] at hupd hy
      obtain rfl : y = r := by simpa using hy
      exact hfront he hq hupd
  | @depart x u n e event pc addr _ _ _ he hupd hmeets =>
    have hr := hmeets y hy
    cases hq : e.receivers with
    | nil => simp [send_of_nil hq] at hr
    | cons r rest =>
      rw [send_of_cons hq] at hupd hr
      obtain rfl : r = y := by simpa using hr
      exact hfront he hq hupd
  | reap ha =>
    subst ha
    simp [meets] at hy

lemma meets_of_gone (h : s.step a = some s') (he : s.endpointOf n = some e) (hgone : s'.endpointOf n = none) :
    s.meets a = [] ∧ ∃ base limit, a = .reapRegionObjects base limit := by
  cases step_requeue h with
  | same hsame => simp [hsame, he] at hgone
  | enter _ _ _ _ _ hupd | signal _ _ hupd | depart _ _ _ _ hupd =>
    rw [hupd, update_apply] at hgone
    split at hgone <;> simp_all
  | reap ha =>
    subst ha
    exact ⟨rfl, _, _, rfl⟩

end CrickerOs.Kernel
