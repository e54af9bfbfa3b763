import CrickerOs.Kernel.Steps

namespace CrickerOs.Kernel

open Slots WakeHandshake Function Scheduler

variable {T E : ℕ} {s s' s'' : Scheduler T E} {tid other : Tid} {t t' : Thread} {ep : EpId} {e : Ipc.Endpoint Tid}

def Thread.face (t : Thread) : Frame × ℕ × Bool := (t.frame, t.seq, t.handshake.ipcAborted)

def Scheduler.faceOf (s : Scheduler T E) (tid : Tid) : Option (Frame × ℕ × Bool) :=
  (s.threads.get tid).map Thread.face

def Event.isReturned : Event → Bool
  | .returned _ _ _ => true
  | _ => false

structure Silent (s s' : Scheduler T E) : Prop where
  faces : s'.faceOf = s.faceOf
  returns : s'.trace.filter Event.isReturned = s.trace.filter Event.isReturned

@[simp]
lemma ipcAborted_tryWake {W : Type*} (h : Handshake W) : h.tryWake.2.ipcAborted = h.ipcAborted := by
  rw [Handshake.tryWake]
  split_ifs <;> rfl

namespace Silent

lemma refl (s : Scheduler T E) : Silent s s := ⟨rfl, rfl⟩

variable (h : Silent s s')
include h

lemma trans (h' : Silent s' s'') : Silent s s'' :=
  ⟨h'.faces.trans h.faces, h'.returns.trans h.returns⟩

lemma modifyThread {f : Thread → Thread} (hf : ∀ t, (f t).face = t.face) :
    Silent s (s'.modifyThread tid f) := by
  refine h.trans ⟨?_, rfl⟩
  funext u
  simp only [Scheduler.faceOf, Scheduler.modifyThread, Table.get_modify, update_apply]
  split
  · subst u
    cases s'.threads.get tid <;> simp [hf]
  · rfl

lemma setEndpoint : Silent s (s'.setEndpoint ep e) := h.trans ⟨rfl, rfl⟩

lemma record {ev : Event} (hev : ev.isReturned = false) : Silent s (s'.record ev) :=
  h.trans ⟨rfl, by simp [Scheduler.record, hev]⟩

lemma wake : Silent s (s'.wake tid) :=
  h.modifyThread fun t => by simp [Thread.face]

lemma serve :
    Silent s ((s'.modifyThread tid fun t => { t with handshake := t.handshake.serve }).wake tid) := by
  apply wake
  exact h.modifyThread fun _ => rfl

lemma deliver {m : Mailbox} : Silent s (s'.deliver tid m) := by
  apply wake
  exact h.modifyThread fun _ => rfl

lemma insertCap {cap : Cap} {origin call : CallId} :
    Silent s (s'.insertCap tid cap origin call ep).2 := by
  rw [Scheduler.insertCap]
  split
  · exact h
  · split
    · exact h
    · apply record _ rfl
      exact h.modifyThread fun _ => rfl

end Silent

section

variable {m0 m1 m2 data : ℕ} {cap : Cap}

section

variable (he : s.endpointOf ep = some e)
include he

lemma ipcSend_silent : Silent s (s.ipcSend tid ep m0 m1 m2).2 := by
  rw [ipcSend, he]
  dsimp only
  split
  · exact (Silent.refl s).setEndpoint.deliver
  · exact (Silent.refl s).setEndpoint.modifyThread fun _ => rfl

lemma ipcRecv_silent : Silent s (s.ipcRecv tid ep).2 := by
  rw [ipcRecv, he]
  dsimp only
  split
  · exact (Silent.refl s).setEndpoint
  · split
    · exact (Silent.refl s).setEndpoint
    · split_ifs
      · exact (Silent.refl s).setEndpoint.serve
      · exact (Silent.refl s).setEndpoint.modifyThread fun _ => rfl
      · exact (Silent.refl s).setEndpoint
  · exact (Silent.refl s).setEndpoint.modifyThread fun _ => rfl

lemma ipcSendCap_silent : Silent s (s.ipcSendCap tid ep data cap).2 := by
  rw [ipcSendCap, he]
  dsimp only
  split
  · exact (Silent.refl s).setEndpoint.insertCap.deliver
  · exact (Silent.refl s).setEndpoint.modifyThread fun _ => rfl

lemma ipcRecvCap_silent : Silent s (s.ipcRecvCap tid ep).2 := by
  rw [ipcRecvCap, he]
  dsimp only
  split
  · exact (Silent.refl s).setEndpoint
  · split
    · exact (Silent.refl s).setEndpoint
    · have hopen {sender : Tid} {e' : Ipc.Endpoint Tid} {ev : Event} (hev : ev.isReturned = false) :
          Silent s (((s.setEndpoint ep e').modifyThread sender fun t => { t with outgoingCap := none }).record
            ev) := by
        apply Silent.record _ hev
        exact (Silent.refl s).setEndpoint.modifyThread fun _ => rfl
      split
      · exact (hopen rfl).serve
      · split_ifs
        · exact (hopen rfl).insertCap
        · exact (hopen rfl).insertCap.serve
  · exact (Silent.refl s).setEndpoint.modifyThread fun _ => rfl

lemma ipcCall_silent : Silent s (s.ipcCall tid ep m0 m1).2 := by
  rw [ipcCall, he]
  dsimp only
  split
  · exact ((Silent.refl s).setEndpoint.record rfl).insertCap.deliver.modifyThread fun _ => rfl
  · exact (Silent.refl s).setEndpoint.modifyThread fun _ => rfl

end

lemma ipcReply_silent {caller : Tid} {reply origin : CallId} :
    Silent s (s.ipcReply caller m0 m1 reply origin) := by
  rw [ipcReply]
  split
  · exact .refl s
  · split
    · exact ((Silent.refl s).record rfl).deliver
    · exact .refl s

end

section

variable {p : Prim} {role : WaitRole}

lemma runPrim_stale (tid : Tid) (hp : p.waitsOn = some (ep, role)) (he : s.endpointOf ep = none) :
    ∃ words, s.runPrim tid p = (.done words, s.setIpcAborted tid) ∧
    p.after (.done words) = .returning p words := by
  cases p with
  | reply => simp [Prim.waitsOn] at hp
  | _ =>
    cases hp
    simp only [runPrim, ipcSend, ipcRecv, ipcSendCap, ipcRecvCap,
      ipcCall, he]
    exact ⟨_, rfl, rfl⟩

lemma runPrim_silent (tid : Tid) (hlive : ∀ n role, p.waitsOn = some (n, role) → (s.endpointOf n).isSome) :
    Silent s (s.runPrim tid p).2 := by
  cases p with
  | reply => exact ipcReply_silent
  | send =>
    obtain ⟨e, he⟩ := Option.isSome_iff_exists.mp (hlive _ _ rfl)
    exact ipcSend_silent he
  | recv | wait =>
    obtain ⟨e, he⟩ := Option.isSome_iff_exists.mp (hlive _ _ rfl)
    exact ipcRecv_silent he
  | sendCap =>
    obtain ⟨e, he⟩ := Option.isSome_iff_exists.mp (hlive _ _ rfl)
    exact ipcSendCap_silent he
  | recvCap =>
    obtain ⟨e, he⟩ := Option.isSome_iff_exists.mp (hlive _ _ rfl)
    exact ipcRecvCap_silent he
  | call =>
    obtain ⟨e, he⟩ := Option.isSome_iff_exists.mp (hlive _ _ rfl)
    exact ipcCall_silent he

def Prim.meets (p : Prim) (e : Ipc.Endpoint Tid) (me : Tid) : List Tid × Ipc.Endpoint Tid :=
  match p.waitsOn with
  | some (_, .receiver) =>
    match e.recv me with
    | (.signal, e) => ([me], e)
    | (.fromSender sender, e) => ([me, sender], e)
    | (.blocked, e) => ([], e)
  | _ =>
    match e.send me with
    | (.rendezvous receiver, e) => ([me, receiver], e)
    | (.blocked, e) => ([], e)

@[simp]
lemma endpointOf_modifyThread (f : Thread → Thread) : (s.modifyThread tid f).endpointOf = s.endpointOf := rfl

@[simp]
lemma endpointOf_wake : (s.wake tid).endpointOf = s.endpointOf := rfl

@[simp]
lemma endpointOf_deliver {m : Mailbox} : (s.deliver tid m).endpointOf = s.endpointOf := rfl

@[simp]
lemma endpointOf_record (ev : Event) : (s.record ev).endpointOf = s.endpointOf := rfl

@[simp]
lemma endpointOf_setFrame (frame : Frame) : (s.setFrame tid frame).endpointOf = s.endpointOf := rfl

@[simp]
lemma endpointOf_setIpcAborted : (s.setIpcAborted tid).endpointOf = s.endpointOf := rfl

@[simp]
lemma endpointOf_insertCap {cap : Cap} {origin call : CallId} :
    (s.insertCap tid cap origin call ep).2.endpointOf = s.endpointOf := by
  rw [insertCap]
  split
  · rfl
  · split <;> rfl

lemma endpointOf_setEndpoint (he : s.endpointOf ep = some e) (e' : Ipc.Endpoint Tid) :
    (s.setEndpoint ep e').endpointOf = update s.endpointOf ep (some e') :=
  congrArg View.ep (view_setEndpoint he e')

lemma endpointOf_ipcRecv (he : s.endpointOf ep = some e) :
    (s.ipcRecv tid ep).2.endpointOf = update s.endpointOf ep (some (e.recv tid).2) := by
  rw [ipcRecv, he, ← endpointOf_setEndpoint he]
  dsimp only
  split
  · rename_i hr
    rw [hr]
  · rename_i hr
    rw [hr]
    split
    · rfl
    · split_ifs <;> rfl
  · rename_i hr
    rw [hr]
    rfl

lemma endpointOf_ipcRecvCap (he : s.endpointOf ep = some e) :
    (s.ipcRecvCap tid ep).2.endpointOf = update s.endpointOf ep (some (e.recv tid).2) := by
  rw [ipcRecvCap, he, ← endpointOf_setEndpoint he]
  dsimp only
  split
  · rename_i hr
    rw [hr]
  · rename_i hr
    rw [hr]
    split
    · rfl
    · split
      · rfl
      · split_ifs <;> simp
  · rename_i hr
    rw [hr]
    rfl

lemma endpointOf_runPrim (hp : p.waitsOn = some (ep, role)) (he : s.endpointOf ep = some e) :
    (s.runPrim tid p).2.endpointOf = update s.endpointOf ep (some (p.meets e tid).2) := by
  cases p with
  | reply => simp [Prim.waitsOn] at hp
  | recv | wait =>
    cases hp
    rw [runPrim, endpointOf_ipcRecv he]
    simp only [Prim.meets, Prim.waitsOn]
    split <;> simp_all
  | recvCap =>
    cases hp
    rw [runPrim, endpointOf_ipcRecvCap he]
    simp only [Prim.meets, Prim.waitsOn]
    split <;> simp_all
  | send | sendCap | call =>
    cases hp
    simp only [runPrim, ipcSend, ipcSendCap, ipcCall, he, Prim.meets, Prim.waitsOn]
    cases hs : e.send tid with
    | mk verdict e' => cases verdict <;> simp [endpointOf_setEndpoint he]

end

structure Drained (s s' : Scheduler T E) : Prop where
  faces : ∀ {tid frame seq aborted}, s'.faceOf tid = some (frame, seq, aborted) → ∃ before,
    s.faceOf tid = some (frame, seq, before) ∧
      (aborted = true ↔ before = true ∨
        ∃ n e, s.endpointOf n = some e ∧ tid ∈ e.drainWaiters ∧ s'.endpointOf n = none)
  endpoints : ∀ n, s'.endpointOf n = none ∨ s'.endpointOf n = s.endpointOf n
  returns : s'.trace.filter Event.isReturned = s.trace.filter Event.isReturned

lemma Drained.refl (s : Scheduler T E) : Drained s s := by
  refine ⟨fun {tid frame seq aborted} h => ⟨aborted, h, ?_⟩, fun _ => .inr rfl, rfl⟩
  constructor
  · exact Or.inl
  · rintro (h | ⟨n, e, he, -, hnone⟩)
    · exact h
    · simp [he] at hnone

lemma Drained.trans (h : Drained s s') (h' : Drained s' s'') : Drained s s'' := by
  refine ⟨?_, ?_, h'.returns.trans h.returns⟩
  · intro tid frame seq aborted hface
    obtain ⟨middle, hmiddle, hiff'⟩ := h'.faces hface
    obtain ⟨before, hbefore, hiff⟩ := h.faces hmiddle
    refine ⟨before, hbefore, ?_⟩
    rw [hiff', hiff, or_assoc]
    apply or_congr_right
    constructor
    · rintro (⟨n, e, he, hmem, hnone⟩ | ⟨n, e, he, hmem, hnone⟩)
      · refine ⟨n, e, he, hmem, ?_⟩
        rcases h'.endpoints n with hn | hn
        · exact hn
        · exact hn.trans hnone
      · refine ⟨n, e, ?_, hmem, hnone⟩
        rcases h.endpoints n with hn | hn
        · simp [hn] at he
        · exact hn.symm.trans he
    · rintro ⟨n, e, he, hmem, hnone⟩
      rcases h.endpoints n with hn | hn
      · exact .inl ⟨n, e, he, hmem, hn⟩
      · exact .inr ⟨n, e, hn.trans he, hmem, hnone⟩
  · intro n
    rcases h'.endpoints n with hn | hn
    · exact .inl hn
    · rw [hn]
      exact h.endpoints n

lemma faceOf_abortAll (l : List Tid) :
    (l.foldl (fun s tid => (s.setIpcAborted tid).wake tid) s).faceOf tid =
      (s.faceOf tid).map fun (frame, seq, aborted) => (frame, seq, aborted || decide (tid ∈ l)) := by
  induction l generalizing s with
  | nil => simp
  | cons x l ih =>
    rw [List.foldl_cons, ih, (Silent.refl _).wake.faces]
    simp only [faceOf, setIpcAborted, modifyThread, Table.get_modify, update_apply]
    split
    · subst tid
      cases s.threads.get x <;> simp [Thread.face, Handshake.abort]
    · rename_i hne
      cases s.threads.get tid <;> simp [Thread.face, hne]

lemma abortAll_rest (l : List Tid) :
    (l.foldl (fun s tid => (s.setIpcAborted tid).wake tid) s).endpoints = s.endpoints ∧
      (l.foldl (fun s tid => (s.setIpcAborted tid).wake tid) s).trace = s.trace := by
  induction l generalizing s with
  | nil => exact ⟨rfl, rfl⟩
  | cons x l ih => exact ih

lemma destroyEndpoint_drained (n : EpId) : Drained s (s.destroyEndpoint n) := by
  rw [destroyEndpoint]
  split
  · exact .refl s
  · rename_i e he
    dsimp only
    set s1 := s.setEndpoint n { e with senders := [], receivers := [] }
    obtain ⟨hendpoints, htrace⟩ := abortAll_rest (s := s1) e.drainWaiters
    set s2 := e.drainWaiters.foldl (fun s tid => (s.setIpcAborted tid).wake tid) s1 with hs2
    have hlive : s2.endpointOf = update s.endpointOf n (some { e with senders := [], receivers := [] }) := by
      rw [← endpointOf_setEndpoint he]
      funext m
      rw [endpointOf, hendpoints]
      rfl
    split
    · rename_i hrem
      have hn := congrFun hlive n
      rw [update_self, endpointOf, Table.remove_eq_none_iff.mp hrem] at hn
      simp at hn
    · rename_i x endpoints hrem
      have hgone : ({ s2 with endpoints } : Scheduler T E).endpointOf = update s.endpointOf n none := by
        rw [show ({ s2 with endpoints } : Scheduler T E).endpointOf = update s2.endpointOf n none from
          congrArg View.ep (view_remove_endpoint hrem), hlive, update_idem]
      refine ⟨?_, ?_, congrArg _ htrace⟩
      · intro tid frame seq aborted hface
        have hface' : s2.faceOf tid = some (frame, seq, aborted) := hface
        rw [hs2, faceOf_abortAll, Option.map_eq_some_iff] at hface'
        obtain ⟨⟨frame', seq', before⟩, hbefore, heq⟩ := hface'
        obtain ⟨rfl, rfl, rfl⟩ : frame' = frame ∧ seq' = seq ∧ _ = aborted := by simpa using heq
        refine ⟨before, hbefore, ?_⟩
        rw [Bool.or_eq_true, decide_eq_true_eq, hgone]
        apply or_congr_right
        constructor
        · exact fun hmem => ⟨n, e, he, hmem, update_self ..⟩
        · rintro ⟨m, f, hf, hmem, hnone⟩
          by_cases hm : m = n
          · subst hm
            cases Option.mem_unique he hf
            exact hmem
          · rw [update_of_ne hm, hf] at hnone
            simp at hnone
      · intro m
        rw [hgone, update_apply]
        split
        · exact .inl rfl
        · exact .inr rfl

lemma sweepEndpoints_drained (base limit fuel : ℕ) : Drained s (sweepEndpoints base limit fuel s) := by
  induction fuel generalizing s with
  | zero => exact .refl s
  | succ fuel ih =>
    rw [sweepEndpoints]
    split
    · exact .refl s
    · exact (destroyEndpoint_drained _).trans ih

structure Thinned (s s' : Scheduler T E) : Prop where
  faces : ∀ {tid face}, s'.faceOf tid = some face → s.faceOf tid = some face
  gone : ∀ n, s'.endpointOf n = none ↔ s.endpointOf n = none
  queues : ∀ {n e'}, s'.endpointOf n = some e' → ∃ e, s.endpointOf n = some e ∧ e'.drainWaiters ⊆ e.drainWaiters
  returns : s'.trace.filter Event.isReturned = s.trace.filter Event.isReturned

lemma Thinned.refl (s : Scheduler T E) : Thinned s s :=
  ⟨id, fun _ => Iff.rfl, fun he => ⟨_, he, List.Subset.refl _⟩, rfl⟩

lemma Thinned.trans (h : Thinned s s') (h' : Thinned s' s'') : Thinned s s'' := by
  refine ⟨fun hf => h.faces (h'.faces hf), fun n => (h'.gone n).trans (h.gone n), ?_, h'.returns.trans h.returns⟩
  intro n e'' he''
  obtain ⟨e', he', hsub'⟩ := h'.queues he''
  obtain ⟨e, he, hsub⟩ := h.queues he'
  exact ⟨e, he, List.Subset.trans hsub' hsub⟩

lemma unlinkCorpse_thinned : Thinned s (s.unlinkCorpse tid) := by
  rw [unlinkCorpse]
  split
  · exact .refl s
  · split
    · exact .refl s
    · rename_i n _ e he
      refine ⟨fun hf => hf, ?_, ?_, rfl⟩
      · intro m
        rw [endpointOf_setEndpoint he, update_apply]
        split
        · subst m
          simp [he]
        · rfl
      · intro m e' he'
        rw [endpointOf_setEndpoint he, update_apply] at he'
        split at he'
        · subst m
          cases he'
          refine ⟨e, he, fun u hu => ?_⟩
          rcases List.mem_append.mp hu with hu | hu
          · exact List.mem_append_left _ (List.mem_of_mem_filter hu)
          · exact List.mem_append_right _ hu
        · exact ⟨e', he', List.Subset.refl _⟩

lemma removeThread_thinned : Thinned s (s.removeThread tid) := by
  rw [removeThread]
  split
  · exact .refl s
  · rename_i x threads hrem
    refine ⟨?_, fun _ => Iff.rfl, fun he => ⟨_, he, List.Subset.refl _⟩, rfl⟩
    intro u face hface
    simp only [faceOf, Table.get_remove hrem, update_apply] at hface
    split at hface
    · simp at hface
    · exact hface

lemma reapThreads_thinned (l : List Tid) : Thinned s (l.foldl reapThread s) := by
  induction l generalizing s with
  | nil => exact .refl s
  | cons x l ih => exact (unlinkCorpse_thinned.trans removeThread_thinned).trans ih

lemma armed_drained (base limit : ℕ) : Drained s (s.armed base limit) := by
  have hsweep := sweepEndpoints_drained (s := s) base limit E
  refine ⟨fun {tid frame seq aborted} hface => hsweep.faces ?_, hsweep.endpoints, hsweep.returns⟩
  rw [← hface]
  simp only [armed, faceOf, Table.get_mapValues, Option.map_map]
  congr 1
  funext t
  simp [arm_eq, Thread.face]

lemma reap_drained (s : Scheduler T E) (base limit : ℕ) : ∃ armed : Scheduler T E, Drained s armed ∧
    Thinned armed (s.reapRegionObjects base limit).2 := by
  obtain ⟨l, heq, -⟩ := reapRegionObjects_eq s base limit
  exact ⟨_, armed_drained base limit, heq ▸ reapThreads_thinned l⟩

end CrickerOs.Kernel
