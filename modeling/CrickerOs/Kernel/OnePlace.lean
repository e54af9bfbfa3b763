import CrickerOs.Kernel.OneReply
import CrickerOs.Kernel.Placement

namespace CrickerOs.Kernel

open Slots WakeHandshake Library Cores List Option

variable {N T E : ℕ} {s s' : Cores N T E} {sched : Scheduler T E} {c target : Fin N} {tid next : Tid} {t : Thread}

def Keeps (s s' : Cores N T E) : Prop :=
  ∀ tid, (s.sched.threads.get tid).isSome → (s'.sched.threads.get tid).isSome

@[simp] lemma isSome_modifyThread {s : Scheduler T E} {u : Tid} {f : Thread → Thread} :
    ((s.modifyThread u f).threads.get tid).isSome = (s.threads.get tid).isSome := by
  rw [Scheduler.modifyThread, Table.get_modify, Function.update_apply]
  split
  · subst tid
    exact isSome_map
  · rfl

lemma keeps_of_section {actor : Option Tid} (h : Section actor s.sched sched) (heq : s'.sched = sched) :
    Keeps s s' := by
  subst heq
  intro tid hs
  obtain ⟨t, ht⟩ := isSome_iff_exists.mp hs
  obtain ⟨t', ht', -⟩ := h.kept ht
  simp [ht']

lemma keeps_of_insertThread (h : s.sched.insertThread t = some (tid, sched)) (heq : s'.sched = sched) :
    Keeps s s' := by
  subst heq
  obtain ⟨-, hview, -⟩ := insertThread_eq_some h
  intro u hu
  rw [← th_view, hview]
  exact View.isSome_set hu

lemma switchTo_keeps {runnable : Bool} (h : s.switchTo c tid next runnable = some s') : Keeps s s' := by
  rw [switchTo] at h
  intro u hu
  split_ifs at h <;> cases h <;> simpa [modifyCore, pushRunq] using hu

lemma schedule_keeps (h : s.schedule c = some s') : Keeps s s' := by
  intro u hu
  have hend : ∀ tid, ((s.endKilled tid).sched.threads.get u).isSome := fun tid => by simpa [endKilled] using hu
  rw [schedule] at h
  split at h
  · simp at h
  dsimp only at h
  split at h
  · split_ifs at h
    · cases h
      simpa [modifyCore, endKilled] using hu
    · exact switchTo_keeps h u (hend _)
  · split_ifs at h
    · cases h
      exact hend _
    split at h
    · simp at h
    split_ifs at h
    exact switchTo_keeps h u (hend _)

lemma startTcb_keeps {entry : ℕ} {stack : Bool} : Keeps s (s.startTcb c target tid entry stack) := by
  rw [startTcb]
  split
  · rename_i hstart
    obtain ⟨-, rfl⟩ := startTcb_ok hstart
    simp [Keeps]
  · rename_i hstart
    exact keeps_of_section (startTcb_error hstart) rfl

lemma reapRegionObjects_gone {s : Scheduler T E} {base limit : ℕ} (ht : s.threads.get tid = some t)
    (hgone : (s.reapRegionObjects base limit).2.threads.get tid = none) : t.handshake.onCpu = false := by
  obtain ⟨l, heq, hl⟩ := reapRegionObjects_eq s base limit
  obtain ⟨u, hu, hm⟩ := (armed_section base limit).kept ht
  rw [heq, ← th_view, th_reapThreads] at hgone
  split at hgone
  · rename_i hmem
    rw [← hm.onCpu]
    exact offCpu_of_verdict (hl tid hmem u hu)
  · simp [hu] at hgone

lemma finishSwitch_gone (ht : s.sched.threads.get tid = some t)
    (hgone : (s.finishSwitch c).sched.threads.get tid = none) :
    (s.core c).switchedFrom = some tid ∧ t.handshake.state = .finished := by
  have hsome : (s.sched.threads.get tid).isSome := by simp [ht]
  rw [finishSwitch] at hgone
  split at hgone
  · simp [ht] at hgone
  rename_i prev hf
  dsimp only at hgone
  split at hgone
  · simp [modifyCore, ht] at hgone
  rename_i u hu
  split at hgone
  · rename_i h hverdict
    rw [← th_view, th_removeThread, Function.update_apply] at hgone
    split at hgone
    · subst tid
      cases mem_unique ht hu
      refine ⟨hf, ?_⟩
      by_contra hne
      cases hp : t.handshake.wakePending <;> simp [Handshake.finishSwitch, hne, hp] at hverdict
    · simp [modifyCore, ht] at hgone
  all_goals
    rw [← not_isSome_iff_eq_none] at hgone
    simp [pushRunq, modifyCore, hsome] at hgone

lemma Placed.keeps {b : CoreAction N} (h : Placed s) (hstep : s.settledStep c b = some s')
    (hb : ∀ base limit, b ≠ .reapRegionObjects base limit) : Keeps s s' := by
  cases b with
  | finishSwitch | serveStealRequest => simp [Cores.settledStep] at hstep
  | reapRegionObjects base limit => exact absurd rfl (hb base limit)
  | schedule => exact schedule_keeps hstep
  | drainInbox =>
    cases hstep
    exact fun _ => id
  | takeStealRequest =>
    cases hstep
    rw [Cores.takeStealRequest]
    split <;> exact fun _ => id
  | tryInitiateSteal =>
    cases hstep
    rw [Cores.tryInitiateSteal]
    split <;> exact fun _ => id
  | run =>
    obtain ⟨tid, sched, -, rfl, hsec, -⟩ := h.run_section hstep
    exact keeps_of_section hsec sched_after
  | irqNotify =>
    cases hstep
    exact keeps_of_section irqNotify_section sched_after
  | adoptSecondaryIdle =>
    obtain ⟨-, hstep⟩ := ite_none_right_eq_some.mp hstep
    obtain ⟨⟨tid, sched⟩, hins, rfl⟩ := map_eq_some_iff.mp hstep
    exact keeps_of_insertThread hins rfl
  | spawnOn =>
    obtain ⟨⟨tid, sched⟩, hins, rfl⟩ := map_eq_some_iff.mp hstep
    exact keeps_of_insertThread hins sched_placeOn
  | createEndpointFrom =>
    obtain ⟨⟨ep, sched⟩, hcreate, rfl⟩ := map_eq_some_iff.mp hstep
    exact keeps_of_section (createEndpointFrom_section hcreate) rfl
  | createTcb =>
    obtain ⟨⟨tid, sched⟩, hins, rfl⟩ := map_eq_some_iff.mp hstep
    exact keeps_of_insertThread hins rfl
  | grant =>
    simp only [Cores.settledStep, Cores.grant] at hstep
    split at hstep
    · simp at hstep
    obtain ⟨-, hstep⟩ := ite_none_left_eq_some.mp hstep
    obtain ⟨⟨slot, sched⟩, hgrant, rfl⟩ := map_eq_some_iff.mp hstep
    exact keeps_of_section (grant_section hgrant) rfl
  | configureTcb =>
    obtain ⟨sched, hok, rfl⟩ := map_eq_some_iff.mp hstep
    exact keeps_of_section (configureTcb_section (eq_ok_of_toOption hok)) rfl
  | tcbInsertCap =>
    obtain ⟨-, hstep⟩ := ite_none_left_eq_some.mp hstep
    obtain ⟨⟨slot, sched⟩, hok, rfl⟩ := map_eq_some_iff.mp hstep
    exact keeps_of_section (tcbInsertCap_section (eq_ok_of_toOption hok)) rfl
  | startTcb =>
    cases hstep
    exact startTcb_keeps

lemma Placed.gone {a : Fin N × CoreAction N} (h : Placed s) (hstep : s.step a = some s')
    (ht : s.sched.threads.get tid = some t) (hgone : s'.sched.threads.get tid = none) : t.handshake.onCpu = false ∨
      a.2 = .finishSwitch ∧ (s.core a.1).switchedFrom = some tid ∧ t.handshake.state = .finished := by
  obtain ⟨c, b⟩ := a
  have hsome : (s.sched.threads.get tid).isSome := by simp [ht]
  cases b with
  | finishSwitch =>
    cases hstep
    exact .inr ⟨rfl, finishSwitch_gone ht hgone⟩
  | serveStealRequest =>
    cases hstep
    have hkeep : (s.serveStealRequest c).sched = s.sched := by
      rw [Cores.serveStealRequest]
      split <;> rfl
    simp [hkeep, ht] at hgone
  | reapRegionObjects =>
    obtain ⟨-, hstep⟩ := ite_none_right_eq_some.mp hstep
    cases hstep
    rw [sched_after] at hgone
    exact .inl (reapRegionObjects_gone ht hgone)
  | _ =>
    obtain ⟨-, hstep⟩ := ite_none_right_eq_some.mp hstep
    have hkeep := h.keeps hstep (by simp) tid hsome
    simp [hgone] at hkeep

structure OnePlace (s : Cores N T E) : Prop where
  once : s.links.Nodup
  live : ∀ {tid}, tid ∈ s.links → (s.sched.threads.get tid).isSome
  ready : ∀ {c tid}, tid ∈ (s.core c).runq ∨ tid ∈ (s.core c).inbox →
    ∃ t, s.sched.threads.get tid = some t ∧ t.handshake.state = .ready
  sender : ∀ {ep e tid}, s.sched.endpointOf ep = some e → tid ∈ e.senders →
    ∃ t, s.sched.threads.get tid = some t ∧ (t.handshake.state = .blocked ∨ t.handshake.state = .dead)
  receiver : ∀ {ep e tid}, s.sched.endpointOf ep = some e → tid ∈ e.receivers →
    ∃ t, s.sched.threads.get tid = some t ∧ t.handshake.state = .blocked
  current : ∀ {c d tid}, (s.core c).current = some tid → (s.core d).current = some tid → c = d
  /-- A thread that a step removes is then linked in no queue and current on no core. It was off its core, or it
  had exited and its core had just left it. -/
  removed : ∀ {a s' tid t}, s.Unwrapped a → s.step a = some s' → s.sched.threads.get tid = some t →
    s'.sched.threads.get tid = none → tid ∉ s'.links ∧ (∀ c, (s'.core c).current ≠ some tid) ∧
      (t.handshake.onCpu = false ∨
        a.2 = .finishSwitch ∧ (s.core a.1).switchedFrom = some tid ∧ t.handshake.state = .finished)

namespace Placed

variable {i j : Fin E} {p : EndpointPage}

lemma waits (h : Placed s) (hp : s.sched.endpoints.slots i = some p)
    (hmem : tid ∈ p.endpoint.senders ++ p.endpoint.receivers) : ∃ t, s.sched.threads.get tid = some t ∧
      (t.Queued tid (s.sched.endpoints.nameAt i) ∨ t.Receives (s.sched.endpoints.nameAt i)) := by
  have he : s.sched.view.ep (s.sched.endpoints.nameAt i) = some p.endpoint := by
    rw [ep_view, Scheduler.endpointOf, Table.get_nameAt, hp]
    rfl
  rcases mem_append.mp hmem with hs | hr
  · obtain ⟨t, ht, hq⟩ := h.grounded.linked.senders he hs
    exact ⟨t, ht, .inl hq⟩
  · obtain ⟨t, ht, hq⟩ := h.grounded.linked.receivers he hr
    exact ⟨t, ht, .inr hq⟩

lemma waits_state (h : Placed s) (hp : s.sched.endpoints.slots i = some p)
    (hmem : tid ∈ p.endpoint.senders ++ p.endpoint.receivers) :
    ∃ t, s.sched.threads.get tid = some t ∧ t.handshake.state ≠ .ready := by
  obtain ⟨t, ht, hq | hr⟩ := h.waits hp hmem
  · refine ⟨t, ht, ?_⟩
    rcases hq.state with hb | hd
    · simp [hb]
    · simp [hd]
  · exact ⟨t, ht, by simp [hr.1.1]⟩

lemma nodup_waiting (h : Placed s) (hp : s.sched.endpoints.slots i = some p) :
    (p.endpoint.senders ++ p.endpoint.receivers).Nodup := by
  have he : s.sched.view.ep (s.sched.endpoints.nameAt i) = some p.endpoint := by
    rw [ep_view, Scheduler.endpointOf, Table.get_nameAt, hp]
    rfl
  obtain ⟨hs, hr⟩ := h.grounded.linked.distinct he
  refine hs.append hr ?_
  intro tid hsend hrecv
  obtain ⟨t, ht, hq⟩ := h.grounded.linked.senders he hsend
  obtain ⟨u, hu, hrecv⟩ := h.grounded.linked.receivers he hrecv
  cases mem_unique ht hu
  exact hq.not_receives hrecv

lemma waiting_slot {q : EndpointPage} (h : Placed s) (hp : s.sched.endpoints.slots i = some p)
    (hq : s.sched.endpoints.slots j = some q) (hi : tid ∈ p.endpoint.senders ++ p.endpoint.receivers)
    (hj : tid ∈ q.endpoint.senders ++ q.endpoint.receivers) : i = j := by
  obtain ⟨t, ht, hi⟩ := h.waits hp hi
  obtain ⟨u, hu, hj⟩ := h.waits hq hj
  cases mem_unique ht hu
  apply Table.nameAt_slot_inj
  rcases hi with hi | hi <;> rcases hj with hj | hj
  · exact hj.unique hi
  · exact absurd hj hi.not_receives
  · exact absurd hi hj.not_receives
  · exact hj.unique hi

lemma exists_page {o : Option EndpointPage}
    (h : tid ∈ o.elim [] fun p => p.endpoint.senders ++ p.endpoint.receivers) :
    ∃ p, o = some p ∧ tid ∈ p.endpoint.senders ++ p.endpoint.receivers := by
  cases o with
  | none => simp at h
  | some p => exact ⟨p, rfl, h⟩

lemma live_of_links (h : Placed s) (hmem : tid ∈ s.links) : (s.sched.threads.get tid).isSome := by
  rw [links, mem_append, mem_flatMap, mem_flatMap] at hmem
  rcases hmem with ⟨c, -, hc⟩ | ⟨i, -, hi⟩
  · obtain ⟨t, ht, -⟩ := h.fits.ready (mem_append_left _ hc)
    simp [ht]
  · obtain ⟨p, hp, hi⟩ := exists_page hi
    obtain ⟨t, ht, -⟩ := h.waits hp hi
    simp [ht]

lemma nodup_links (h : Placed s) : s.links.Nodup := by
  refine List.Nodup.append (nodup_flatMap.mpr ⟨?_, ?_⟩) (nodup_flatMap.mpr ⟨?_, ?_⟩) ?_
  · exact fun c _ => (h.seated.nodup c).sublist (sublist_append_left ..)
  · refine (nodup_finRange N).pairwise_of_forall_ne fun c _ d _ hne => ?_
    intro tid hc hd
    exact hne (h.seated.sole (.inl (mem_append_left _ hc)) (.inl (mem_append_left _ hd)))
  · intro i _
    cases hp : s.sched.endpoints.slots i with
    | none => exact nodup_nil
    | some p => exact h.nodup_waiting hp
  · refine (nodup_finRange E).pairwise_of_forall_ne fun i _ j _ hne => ?_
    intro tid hi hj
    obtain ⟨p, hp, hi⟩ := exists_page hi
    obtain ⟨q, hq, hj⟩ := exists_page hj
    exact hne (h.waiting_slot hp hq hi hj)
  · intro tid hc hi
    obtain ⟨c, -, hc⟩ := mem_flatMap.mp hc
    obtain ⟨i, -, hi⟩ := mem_flatMap.mp hi
    obtain ⟨p, hp, hi⟩ := exists_page hi
    obtain ⟨t, ht, hready⟩ := h.fits.ready (mem_append_left _ hc)
    obtain ⟨u, hu, hwaits⟩ := h.waits_state hp hi
    cases mem_unique ht hu
    exact hwaits hready

end Placed

theorem thread_is_in_one_place (h : Reach Cores.step Cores.Unwrapped Cores.Start s) : OnePlace s := by
  have hp := reach_placed h
  refine ⟨hp.nodup_links, hp.live_of_links, ?_, ?_, ?_, ?_, ?_⟩
  · intro c tid hr
    exact hp.fits.ready (List.mem_append_left _ (List.mem_append.mpr hr))
  · intro ep e tid he hs
    obtain ⟨t, ht, hq⟩ := hp.grounded.linked.senders he hs
    exact ⟨t, ht, hq.state⟩
  · intro ep e tid he hr
    obtain ⟨t, ht, hq⟩ := hp.grounded.linked.receivers he hr
    exact ⟨t, ht, hq.1.1⟩
  · intro c d tid hc hd
    exact hp.seated.sole (.inr (.inl (.inl hc))) (.inr (.inl (.inl hd)))
  · intro a s' tid t hok hstep ht hgone
    have hp' := hp.step hok hstep
    refine ⟨fun hmem => ?_, fun c hc => ?_, hp.gone hstep ht hgone⟩
    · have hlive := hp'.live_of_links hmem
      simp [hgone] at hlive
    · obtain ⟨u, hu, -⟩ := hp'.fits.standing (.inl hc)
      simp [hgone] at hu

/-- Two cores, each on a thread of its own and with an idle thread, and one endpoint that both threads may use. -/
def twoCores : Cores 2 4 1 where
  sched := .booted ![.idle [⟨.endpoint 0, .all⟩] 1 none, .idle [⟨.endpoint 0, .all⟩] 2 none,
    .new .ready 3 none, .new .ready 4 none] ![100] (by decide) (by decide)
  core := ![⟨some 0, some 2, none, [], [], none, none⟩, ⟨some 1, some 3, none, [], [], none, none⟩]

lemma start_twoCores : twoCores.Start := by
  refine ⟨?_, ?_, ?_, ?_, ?_, ?_, ?_⟩
  · refine Scheduler.start_booted fun i => ?_
    fin_cases i
    · exact Thread.fresh_idle (by simp [Object.isReply])
    · exact Thread.fresh_idle (by simp [Object.isReply])
    · exact fresh_new (.inr (.inl rfl))
    · exact fresh_new (.inr (.inl rfl))
  · decide
  · decide
  · intro c tid hc
    fin_cases c <;> cases hc <;> exact ⟨_, rfl, rfl⟩
  · intro c d tid hc hd
    fin_cases c <;> fin_cases d <;> simp_all [twoCores]
  · intro c tid hc
    fin_cases c <;> cases hc <;> exact ⟨_, rfl, by decide⟩
  · intro c d tid hc hd
    fin_cases c <;> fin_cases d <;> simp [twoCores] at hc hd ⊢ <;> subst hc <;> simp at hd

theorem thread_is_in_one_place_on_twoCores : ∃ s, execute Cores.step Cores.Unwrapped twoCores
    [(1, .run (.invoke 1 0 .recv)), (1, .run (.enter 1)), (1, .schedule), (1, .finishSwitch),
      (0, .run (.invoke 0 0 (.send 5 6 7))), (0, .run (.enter 0)), (1, .tryInitiateSteal 0),
      (0, .takeStealRequest), (0, .serveStealRequest), (0, .run (.leave 0)), (0, .run (.invoke 0 0 .recv)),
      (0, .run (.enter 0))] = some s ∧
    s.links = [1, 0] ∧ OnePlace s :=
  Reach.exists_execute start_twoCores (fun _ h _ => thread_is_in_one_place h) (by decide +kernel)

/-- The end of the switch away from an exited thread removes it with its flag set. -/
theorem exited_thread_removed_on_cpu : ∃ s s' : Cores 2 4 1,
    Reach Cores.step Cores.Unwrapped Cores.Start s ∧ s.Unwrapped (0, .finishSwitch) ∧
      s.step (0, .finishSwitch) = some s' ∧ (s.sched.threads.get 0).any (·.handshake.onCpu) ∧
      (s'.sched.threads.get 0).isNone := by
  obtain ⟨s, hs, hok, hcpu, hgone⟩ : ∃ s, execute Cores.step Cores.Unwrapped twoCores
      [(0, .run (.depart 0 1 0 0)), (0, .schedule)] = some s ∧ s.Unwrapped (0, .finishSwitch) ∧
      (s.sched.threads.get 0).any (·.handshake.onCpu) ∧ ((s.finishSwitch 0).sched.threads.get 0).isNone :=
    exists_execute (by decide +kernel)
  exact ⟨s, s.finishSwitch 0, .execute (.init start_twoCores) hs, hok, rfl, hcpu, hgone⟩

end CrickerOs.Kernel
