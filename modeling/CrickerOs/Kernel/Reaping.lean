import CrickerOs.Kernel.Primitives

namespace CrickerOs.Kernel

open Slots WakeHandshake Function Scheduler Table View Option

variable {T E : ℕ} {s s' : Scheduler T E} {tid : Tid} {t : Thread} {ep n : EpId} {e : Ipc.Endpoint Tid}
  {R : Restriction} {v : View}

namespace View

def abortAll (v : View) : List Tid → View
  | [] => v
  | tid :: rest =>
    match v.th tid with
    | none => v.abortAll rest
    | some t => (v.set tid t.aborted).abortAll rest

lemma abortAll_of_some {rest : List Tid} (h : v.th tid = some t) :
    v.abortAll (tid :: rest) = (v.set tid t.aborted).abortAll rest := by
  simp only [abortAll, h]

lemma abortAll_append (l l' : List Tid) : v.abortAll (l ++ l') = (v.abortAll l).abortAll l' := by
  induction l generalizing v with
  | nil => rfl
  | cons tid l ih =>
    rw [List.cons_append, abortAll, abortAll]
    split <;> exact ih

lemma abortAll_queue (l : List Tid) : (v.queue n e).abortAll l = (v.abortAll l).queue n e := by
  induction l generalizing v with
  | nil => rfl
  | cons tid l ih =>
    rw [abortAll, abortAll, th_queue]
    split
    · exact ih
    · exact ih (v := v.set tid _)

lemma isSome_abortAll (l : List Tid) (h : (v.th tid).isSome) : ((v.abortAll l).th tid).isSome := by
  induction l generalizing v with
  | nil => exact h
  | cons x l ih =>
    rw [abortAll]
    split
    · exact ih h
    · exact ih (isSome_set h)

lemma queue_queue {e' : Ipc.Endpoint Tid} : (v.queue n e).queue n e' = v.queue n e' := by
  simp [queue]

lemma queue_self (h : v.ep n = some e) : v.queue n e = v := by
  rw [queue, update_eq_self_iff.mpr h.symm]

end View

lemma view_abort (h : s.view.th tid = some t) : ((s.setIpcAborted tid).wake tid).view =
    s.view.set tid t.aborted := by
  have h1 := view_modifyThread h fun t => { t with handshake := t.handshake.abort }
  rw [wake, setIpcAborted, view_modifyThread (by rw [h1, th_set, if_pos rfl]), h1, set_set]
  rfl

lemma view_modifyThread_none (h : s.view.th tid = none) (f : Thread → Thread) : s.modifyThread tid f = s := by
  rw [modifyThread, modify_of_get_eq_none h]

lemma view_abortAll (l : List Tid) :
    (l.foldl (fun s tid => (s.setIpcAborted tid).wake tid) s).view = s.view.abortAll l := by
  induction l generalizing s with
  | nil => rfl
  | cons tid l ih =>
    rw [List.foldl_cons, ih, abortAll]
    split
    · rename_i h
      rw [setIpcAborted, view_modifyThread_none h, wake, view_modifyThread_none h]
    · rename_i t h
      rw [view_abort h]

lemma abort_micros {q : List Tid → Ipc.Endpoint Tid} {l : List Tid} (he : v.ep n = some (q l))
    (hstep : ∀ {v : View} {x t l}, v.ep n = some (q (x :: l)) → v.th x = some t →
      Micro R v ((v.queue n (q l)).set x t.aborted))
    (hs : ∀ u ∈ l, (v.th u).isSome) : Micros R v ((v.abortAll l).queue n (q [])) := by
  induction l generalizing v with
  | nil => rw [abortAll, queue_self he]
  | cons x l ih =>
    obtain ⟨t, ht⟩ := isSome_iff_exists.mp (hs x List.mem_cons_self)
    rw [abortAll_of_some ht]
    have hrest := ih (v := (v.queue n (q l)).set x t.aborted) (by simp)
      fun u hu => isSome_set (hs u (List.mem_cons_of_mem _ hu))
    refine .head (hstep he ht) (Eq.mp (congrArg _ ?_) hrest)
    rw [← abortAll_queue, ← abortAll_queue]
    exact congrArg (abortAll · l) (queue_queue (v := v.set x t.aborted))

lemma view_remove_thread {x : Thread} {threads : Table Thread T} (h : s.threads.remove tid = some (x, threads)) :
    ({ s with threads } : Scheduler T E).view = s.view.unset tid := by
  simp only [view, unset, get_remove h]
  rfl

lemma view_remove_endpoint {x : EndpointPage} {endpoints : Table EndpointPage E}
    (h : s.endpoints.remove n = some (x, endpoints)) : ({ s with endpoints } : Scheduler T E).view =
      s.view.unqueue n := by
  simp only [view, View.unqueue, View.mk.injEq, true_and, and_true]
  funext m
  simp only [endpointOf, get_remove h, update_apply]
  split <;> rfl

lemma destroyEndpoint_micros (hv : Linked s.view) : Micros R s.view (s.destroyEndpoint n).view := by
  cases he : s.endpointOf n with
  | none =>
    simp only [destroyEndpoint, he]
    exact .refl
  | some e =>
    have hsome : ∀ u ∈ e.senders ++ e.receivers, (s.view.th u).isSome := by
      intro u hu
      rcases List.mem_append.mp hu with hu | hu
      · obtain ⟨t, ht, -⟩ := hv.senders he hu
        simp [ht]
      · obtain ⟨t, ht, -⟩ := hv.receivers he hu
        simp [ht]
    have hsenders : Micros R s.view _ := abort_micros (q := fun l => { e with senders := l }) he
      (fun {_ x _ l} he ht => .take (e := { e with senders := x :: l }) he rfl ht .abort)
      fun u hu => hsome u (List.mem_append_left _ hu)
    have hreceivers : Micros R _ _ := abort_micros (n := n)
      (q := fun l => { e with senders := [], receivers := l })
      (v := (s.view.abortAll e.senders).queue n { e with senders := [] }) (by simp)
      (fun {_ x _ l} he ht => .abortReceiver (e := { e with senders := [], receivers := x :: l }) he rfl ht)
      fun u hu => isSome_abortAll _ (hsome u (List.mem_append_right _ hu))
    rw [abortAll_queue, queue_queue, ← abortAll_append] at hreceivers
    have h1 := view_setEndpoint he { e with senders := [], receivers := [] }
    simp only [destroyEndpoint, he]
    have h2 := view_abortAll (s := s.setEndpoint n { e with senders := [], receivers := [] }) e.drainWaiters
    rw [h1, abortAll_queue] at h2
    generalize e.drainWaiters.foldl _ _ = s2 at *
    refine (hsenders.trans hreceivers).trans ?_
    split
    · rename_i hrem
      have hlive : s2.endpointOf n = some { e with senders := [], receivers := [] } := by
        rw [← ep_view, h2]
        simp
      simp [endpointOf, remove_eq_none_iff.mp hrem] at hlive
    · rename_i endpoints hrem
      rw [view_remove_endpoint hrem, h2]
      exact .single (.removeEndpoint (e := { e with senders := [], receivers := [] }) (by simp) rfl rfl)

lemma sweepEndpoints_micros (base limit fuel : ℕ) (hv : Linked s.view) :
    Micros R s.view (sweepEndpoints base limit fuel s).view := by
  induction fuel generalizing s with
  | zero => exact .refl
  | succ fuel ih =>
    rw [sweepEndpoints]
    split
    · exact .refl
    · rename_i name _ _
      have hd : Micros R s.view (s.destroyEndpoint name).view := destroyEndpoint_micros hv
      exact hd.trans (ih (hv.micros hd))

lemma Linked.faultEp_of_dead (hv : Linked v) (ht : v.th tid = some t) (hd : t.handshake.state = .dead)
    (he : v.ep n = some e) (hmem : tid ∈ e.senders) : t.faultEp = some n := by
  obtain ⟨u, hu, hq⟩ := hv.senders he hmem
  cases mem_unique ht hu
  cases hq with
  | corpse _ hw =>
    rcases (hv.synced ht).dead hd with hn | ⟨m, hm, hf⟩
    · simp [hw] at hn
    · obtain rfl : n = m := by simpa [hw] using hm
      exact hf
  | send hp | sendCap hp | call hp => simp [hp.1] at hd

def Thread.Reapable (t : Thread) : Prop :=
  t.handshake.state = .finished ∨ t.handshake.state = .dead ∨ t.handshake.state = .embryo

lemma threads_unlinkCorpse (tid : Tid) : (s.unlinkCorpse tid).threads = s.threads := by
  rw [unlinkCorpse]
  split
  · rfl
  · split <;> rfl

lemma th_unlinkCorpse (tid : Tid) : (s.unlinkCorpse tid).view.th = s.view.th :=
  congrArg get (threads_unlinkCorpse tid)

lemma unlinkCorpse_micros : Micros R s.view (s.unlinkCorpse tid).view := by
  rw [unlinkCorpse]
  split
  · exact .refl
  · rename_i n hn
    obtain ⟨t, ht, -⟩ := bind_eq_some_iff.mp hn
    obtain ⟨ht, hd⟩ := filter_eq_some_iff.mp ht
    split
    · exact .refl
    · rename_i e he
      rw [view_setEndpoint he]
      exact .single (.unlink he ht (by simpa using hd))

lemma offQueue_unlinkCorpse (hv : Linked s.view) (ht : s.view.th tid = some t) (hr : t.Reapable) :
    (s.unlinkCorpse tid).view.OffQueue tid := by
  have ht' : s.threads.get tid = some t := ht
  by_cases hd : t.handshake.state = .dead
  · intro n e he hmem
    simp only [unlinkCorpse, ht', filter_some, hd, decide_true, if_true, bind_some] at he
    cases hf : t.faultEp with
    | none =>
      simp only [hf] at he
      simp [hv.faultEp_of_dead ht hd he hmem] at hf
    | some m =>
      simp only [hf] at he
      cases hm : s.endpointOf m with
      | none =>
        simp only [hm] at he
        obtain rfl : m = n := by simpa [hf] using hv.faultEp_of_dead ht hd he hmem
        simp [hm] at he
      | some em =>
        simp only [hm] at he
        rw [view_setEndpoint hm, ep_queue] at he
        split at he
        · cases he
          simp [Ipc.Endpoint.removeSender] at hmem
        · obtain rfl : m = n := by simpa [hf] using hv.faultEp_of_dead ht hd he hmem
          contradiction
  · have hself : s.unlinkCorpse tid = s := by
      simp [unlinkCorpse, ht', hd, filter_some]
    rw [hself]
    refine hv.offQueue ht fun n => Thread.Free.not_queued ⟨?_, hd⟩
    rintro ⟨hb, -⟩
    simp [Thread.Reapable, hb] at hr

lemma th_removeThread (tid : Tid) : (s.removeThread tid).view.th = update s.view.th tid none := by
  rw [removeThread]
  split
  · rename_i h
    exact (update_eq_self_iff.mpr (remove_eq_none_iff.mp h).symm).symm
  · rename_i x threads h
    rw [view_remove_thread h]
    rfl

lemma reapThread_micros (hv : Linked s.view) (hr : ∀ t, s.view.th tid = some t → t.Reapable) :
    Micros R s.view (s.reapThread tid).view := by
  have hun : Micros R s.view (s.unlinkCorpse tid).view := unlinkCorpse_micros
  refine hun.trans ?_
  rw [reapThread, removeThread]
  split
  · exact .refl
  · rename_i x threads hrem
    have hx : s.view.th tid = some x := by
      rw [← th_unlinkCorpse tid]
      exact get_of_remove hrem
    rw [view_remove_thread hrem]
    refine .single (.remove (get_of_remove hrem) (hr x hx) (offQueue_unlinkCorpse hv hx (hr x hx)))

lemma th_reapThread (tid : Tid) : (s.reapThread tid).view.th = update s.view.th tid none := by
  rw [reapThread, th_removeThread, th_unlinkCorpse]

lemma th_reapThreads (l : List Tid) (u : Tid) :
    (l.foldl reapThread s).view.th u = if u ∈ l then none else s.view.th u := by
  induction l generalizing s with
  | nil => simp
  | cons x l ih =>
    rw [List.foldl_cons, ih, th_reapThread, update_apply]
    split_ifs <;> simp_all

lemma reapThreads_micros (l : List Tid) (hv : Linked s.view)
    (hr : ∀ u ∈ l, ∀ t, s.view.th u = some t → t.Reapable) : Micros R s.view (l.foldl reapThread s).view := by
  induction l generalizing s with
  | nil => exact .refl
  | cons x l ih =>
    have hstep : Micros R s.view (s.reapThread x).view := reapThread_micros hv (hr x List.mem_cons_self)
    refine hstep.trans (ih (hv.micros hstep) ?_)
    intro u hu t ht
    rw [th_reapThread, update_apply] at ht
    split at ht
    · simp at ht
    · exact hr u (List.mem_cons_of_mem _ hu) t ht

def Thread.armed (base limit : ℕ) (t : Thread) : Bool :=
  t.killed || decide (Scheduler.resident base limit t ∧
    Scheduler.regionReapVerdict t.handshake.state t.handshake.onCpu = .refuseAndArm)

lemma arm_eq (base limit : ℕ) (t : Thread) : arm base limit t = { t with killed := t.armed base limit } := by
  rw [arm, Thread.armed]
  split
  · rename_i h
    simp [h]
  · rename_i h
    rw [decide_eq_false h, Bool.or_false]

lemma arm_micro (base limit : ℕ) : Micro R s.view
    ({ s with threads := s.threads.mapValues (arm base limit) } : Scheduler T E).view := by
  have harm : ({ s with threads := s.threads.mapValues (arm base limit) } : Scheduler T E).view =
      { s.view with th := fun tid => (s.view.th tid).map fun t => { t with killed := t.armed base limit } } := by
    simp only [view, View.mk.injEq]
    refine ⟨?_, rfl, trivial⟩
    funext tid
    rw [get_mapValues]
    exact congrArg (Option.map · _) (funext (arm_eq base limit))
  rw [harm]
  exact .arm

lemma reapable_of_verdict (h : regionReapVerdict t.handshake.state t.handshake.onCpu = .reap) :
    t.Reapable := by
  cases hs : t.handshake.state <;> simp_all [regionReapVerdict, Thread.Reapable]

lemma offCpu_of_verdict (h : regionReapVerdict t.handshake.state t.handshake.onCpu = .reap) :
    t.handshake.onCpu = false := by
  cases hc : t.handshake.onCpu with
  | false => rfl
  | true => cases hs : t.handshake.state <;> simp_all [regionReapVerdict]

def Scheduler.armed (s : Scheduler T E) (base limit : ℕ) : Scheduler T E :=
  let s := Scheduler.sweepEndpoints base limit E s
  { s with threads := s.threads.mapValues (Scheduler.arm base limit) }

lemma armed_micros (base limit : ℕ) (hv : Linked s.view) : Micros R s.view (s.armed base limit).view :=
  (sweepEndpoints_micros base limit E hv).tail (arm_micro base limit)

lemma reapRegionObjects_eq (s : Scheduler T E) (base limit : ℕ) : ∃ l : List Tid,
    (s.reapRegionObjects base limit).2 = l.foldl reapThread (s.armed base limit) ∧
      ∀ u ∈ l, ∀ t, (s.armed base limit).view.th u = some t →
        regionReapVerdict t.handshake.state t.handshake.onCpu = .reap := by
  simp only [reapRegionObjects, armed]
  generalize sweepEndpoints base limit E s = s1
  split
  · exact ⟨[], rfl, by simp⟩
  rename_i hrefused
  refine ⟨_, rfl, ?_⟩
  intro u hu t ht
  simp only [List.mem_map, List.mem_filter, Prod.exists] at hu
  obtain ⟨name, x, ⟨hx, hres⟩, rfl⟩ := hu
  obtain rfl : x = t := some.inj ((mem_iter_iff.mp hx).symm.trans ht)
  rw [th_view, get_mapValues, map_eq_some_iff] at ht
  obtain ⟨y, hy, rfl⟩ := ht
  rw [arm_eq] at hres ⊢
  rw [Bool.not_eq_true, List.any_eq_false] at hrefused
  have hverdict := hrefused y (mem_values_iff.mpr ⟨name, hy⟩)
  simpa [show resident base limit y from hres] using hverdict

lemma reapRegionObjects_micros (base limit : ℕ) (hv : Linked s.view) :
    Micros R s.view (s.reapRegionObjects base limit).2.view := by
  obtain ⟨l, heq, hl⟩ := reapRegionObjects_eq s base limit
  have harm : Micros R s.view (s.armed base limit).view := armed_micros base limit hv
  rw [heq]
  refine harm.trans (reapThreads_micros l (hv.micros harm) ?_)
  exact fun u hu t ht => reapable_of_verdict (hl u hu t ht)

end CrickerOs.Kernel
