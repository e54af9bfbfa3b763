import CrickerOs.Kernel.Cores
import CrickerOs.Kernel.Steps

namespace CrickerOs.Kernel

open Slots WakeHandshake Scheduler Handshake

variable {T E : ℕ} {s s' s'' : Scheduler T E} {actor : Option Tid} {tid : Tid} {t t' t'' : Thread} {ep : EpId}

structure Moved (actor : Option Tid) (tid : Tid) (t t' : Thread) : Prop where
  onCpu : t'.handshake.onCpu = t.handshake.onCpu
  state : t'.handshake.state = t.handshake.state ∨
    t.handshake.state = .blocked ∧ t.handshake.onCpu = false ∧ t'.handshake.state = .ready ∨
    actor = some tid ∧ t.handshake.onCpu ∧ t.handshake.state = .running ∧ t'.handshake.state ≠ .ready ∧
      t'.handshake.state ≠ .embryo

lemma Moved.refl (t : Thread) : Moved actor tid t t :=
  ⟨rfl, .inl rfl⟩

lemma Moved.mono (h : Moved none tid t t') : Moved actor tid t t' :=
  ⟨h.onCpu, h.state.imp_right (.imp_right fun h => by simp at h)⟩

lemma Moved.trans (h : Moved actor tid t t') (h' : Moved actor tid t' t'') : Moved actor tid t t'' := by
  refine ⟨h'.onCpu.trans h.onCpu, ?_⟩
  rcases h'.state with hs | ⟨hb, hc, hs⟩ | ⟨ha, hc, hr, hn⟩
  · rw [hs]
    exact h.state
  · rw [h.onCpu] at hc
    rcases h.state with heq | ⟨-, -, hready⟩ | ⟨-, hcpu, -⟩
    · exact .inr (.inl ⟨heq ▸ hb, hc, hs⟩)
    · simp [hready] at hb
    · simp [hc] at hcpu
  · rw [h.onCpu] at hc
    rcases h.state with heq | ⟨-, hoff, -⟩ | ⟨-, -, hrun, -⟩
    · exact .inr (.inr ⟨ha, hc, heq ▸ hr, hn⟩)
    · simp [hc] at hoff
    · exact .inr (.inr ⟨ha, hc, hrun, hn⟩)

lemma moved_tryWake (t : Thread) : Moved actor tid t { t with handshake := t.handshake.tryWake.2 } := by
  by_cases hb : t.handshake.state = .blocked
  · by_cases hd : t.handshake.waitOn.isSome ∧ t.handshake.delivered = false
    · exact ⟨by simp [tryWake, hb, hd], by simp [tryWake, hb, hd]⟩
    · cases hc : t.handshake.onCpu with
      | true => exact ⟨by simp [tryWake, hb, hd, hc], by simp [tryWake, hb, hd, hc]⟩
      | false => exact ⟨by simp [tryWake, hb, hd, hc], by simp [tryWake, hb, hd, hc]⟩
  · exact ⟨by simp [tryWake, hb], by simp [tryWake, hb]⟩

structure Section (actor : Option Tid) (s s' : Scheduler T E) : Prop where
  gens : s'.threads.gens = s.threads.gens
  kept : ∀ {tid t}, s.threads.get tid = some t → ∃ t', s'.threads.get tid = some t' ∧ Moved actor tid t t'
  old : ∀ {tid t'}, s'.threads.get tid = some t' → ∃ t, s.threads.get tid = some t

namespace Section

lemma of_threads (h : s'.threads = s.threads) : Section actor s s' :=
  ⟨by rw [h], fun ht => ⟨_, h ▸ ht, .refl _⟩, fun ht => ⟨_, h ▸ ht⟩⟩

lemma refl (s : Scheduler T E) : Section actor s s :=
  .of_threads rfl

lemma mono (h : Section none s s') : Section actor s s' :=
  ⟨h.gens, fun ht => (h.kept ht).imp fun _ h => ⟨h.1, h.2.mono⟩, h.old⟩

lemma trans (h : Section actor s s') (h' : Section actor s' s'') : Section actor s s'' := by
  refine ⟨h'.gens.trans h.gens, ?_, ?_⟩
  · intro tid t ht
    obtain ⟨t', ht', hm⟩ := h.kept ht
    obtain ⟨t'', ht'', hm'⟩ := h'.kept ht'
    exact ⟨t'', ht'', hm.trans hm'⟩
  · intro tid t'' ht''
    obtain ⟨t', ht'⟩ := h'.old ht''
    exact h.old ht'

lemma woken (h : Section actor s s') (ht : s.threads.get tid = some t) (ht' : s'.threads.get tid = some t')
    (hb : t.handshake.state = .blocked) (hr : t'.handshake.state = .ready) : t.handshake.onCpu = false := by
  obtain ⟨u, hu, hm⟩ := h.kept ht
  cases Option.mem_unique ht' hu
  rcases hm.state with heq | ⟨-, hoff, -⟩ | ⟨-, -, hrun, -⟩
  · simp [hb, hr] at heq
  · exact hoff
  · simp [hb] at hrun

variable {f : Thread → Thread}

section

variable (h : Section actor s s')
include h

lemma modify
    (hf : ∀ t, s'.threads.get tid = some t → Moved actor tid t (f t)) :
    Section actor s (s'.modifyThread tid f) := by
  refine h.trans ⟨Table.gens_modify .., ?_, ?_⟩ <;> intro u x hu <;>
    simp only [modifyThread, Table.get_modify, Function.update_apply] at hu ⊢
  · split
    · subst u
      exact ⟨f x, by simp [hu], hf x hu⟩
    · exact ⟨x, hu, .refl x⟩
  · split at hu
    · subst u
      exact (Option.map_eq_some_iff.mp hu).imp fun _ => And.left
    · exact ⟨x, hu⟩

lemma quiet (hf : ∀ t, (f t).handshake.onCpu = t.handshake.onCpu ∧ (f t).handshake.state = t.handshake.state) :
    Section actor s (s'.modifyThread tid f) :=
  h.modify fun t _ => ⟨(hf t).1, .inl (hf t).2⟩

lemma setEndpoint {e : Ipc.Endpoint Tid} : Section actor s (s'.setEndpoint ep e) :=
  h.trans (.of_threads rfl)

lemma record {ev : Event} : Section actor s (s'.record ev) :=
  h.trans (.of_threads rfl)

lemma wake : Section actor s (s'.wake tid) :=
  h.modify fun t _ => moved_tryWake t

lemma serve :
    Section actor s ((s'.modifyThread tid fun t => { t with handshake := t.handshake.serve }).wake tid) := by
  apply wake
  exact h.quiet fun _ => ⟨rfl, rfl⟩

lemma deliver {m : Mailbox} : Section actor s (s'.deliver tid m) := by
  apply wake
  exact h.quiet fun _ => ⟨rfl, rfl⟩

lemma setFrame {frame : Frame} : Section actor s (s'.setFrame tid frame) :=
  h.quiet fun _ => ⟨rfl, rfl⟩

lemma insertCap {cap : Cap} {origin call : CallId} :
    Section actor s (s'.insertCap tid cap origin call ep).2 := by
  rw [Scheduler.insertCap]
  split
  · exact h
  · split
    · exact h
    · apply record
      exact h.quiet fun _ => ⟨rfl, rfl⟩

end

lemma stop (h : Section none s s') (hrun : s.running tid = some t) (hcpu : t.handshake.onCpu)
    (hc : ∀ t, (f t).handshake.onCpu = t.handshake.onCpu)
    (hf : ∀ t, (f t).handshake.state ≠ .ready ∧ (f t).handshake.state ≠ .embryo) :
    Section (some tid) s (s'.modifyThread tid f) := by
  obtain ⟨ht, hs⟩ := running_eq_some hrun
  refine h.mono.modify fun u hu => ?_
  obtain ⟨x, hx, hm⟩ := h.kept ht
  obtain rfl := Option.mem_unique hx hu
  refine ⟨hc x, .inr (.inr ⟨rfl, hm.onCpu.trans hcpu, ?_, hf x⟩)⟩
  simpa [hs] using hm.state

end Section

section

variable (hrun : s.running tid = some t) (hcpu : t.handshake.onCpu)

include hrun hcpu

lemma ipcSend_section {m0 m1 m2 : ℕ} : Section (some tid) s (s.ipcSend tid ep m0 m1 m2).2 := by
  rw [ipcSend]
  split
  · exact (Section.refl s).quiet fun _ => ⟨rfl, rfl⟩
  · split
    · apply Section.deliver
      exact (Section.refl s).setEndpoint
    · exact (Section.refl s).setEndpoint.stop hrun hcpu (fun _ => rfl) (by simp [park])

lemma ipcRecv_section : Section (some tid) s (s.ipcRecv tid ep).2 := by
  rw [ipcRecv]
  split
  · exact (Section.refl s).quiet fun _ => ⟨rfl, rfl⟩
  · split
    · exact (Section.refl s).setEndpoint
    · dsimp only
      split
      · exact (Section.refl s).setEndpoint
      · split_ifs
        · exact (Section.refl s).setEndpoint.serve
        · exact (Section.refl s).setEndpoint.quiet fun _ => ⟨rfl, rfl⟩
        · exact (Section.refl s).setEndpoint
    · exact (Section.refl s).setEndpoint.stop hrun hcpu (fun _ => rfl) (by simp [park])

lemma ipcSendCap_section {data : ℕ} {cap : Cap} : Section (some tid) s (s.ipcSendCap tid ep data cap).2 := by
  rw [ipcSendCap]
  split
  · exact (Section.refl s).quiet fun _ => ⟨rfl, rfl⟩
  · split
    · apply Section.deliver
      exact (Section.refl s).setEndpoint.insertCap
    · exact (Section.refl s).setEndpoint.stop hrun hcpu (fun _ => rfl) (by simp [park])

lemma ipcRecvCap_section : Section (some tid) s (s.ipcRecvCap tid ep).2 := by
  rw [ipcRecvCap]
  split
  · exact (Section.refl s).quiet fun _ => ⟨rfl, rfl⟩
  · split
    · exact (Section.refl s).setEndpoint
    · dsimp only
      split
      · exact (Section.refl s).setEndpoint
      · split
        · apply Section.serve
          apply Section.record
          exact (Section.refl s).setEndpoint.quiet fun _ => ⟨rfl, rfl⟩
        · split_ifs
          · apply Section.insertCap
            apply Section.record
            exact (Section.refl s).setEndpoint.quiet fun _ => ⟨rfl, rfl⟩
          · apply Section.serve
            apply Section.insertCap
            apply Section.record
            exact (Section.refl s).setEndpoint.quiet fun _ => ⟨rfl, rfl⟩
    · exact (Section.refl s).setEndpoint.stop hrun hcpu (fun _ => rfl) (by simp [park])

lemma ipcCall_section {m0 m1 : ℕ} : Section (some tid) s (s.ipcCall tid ep m0 m1).2 := by
  rw [ipcCall]
  split
  · exact (Section.refl s).quiet fun _ => ⟨rfl, rfl⟩
  · split
    · refine Section.stop ?_ hrun hcpu (fun _ => rfl) (by simp [park])
      apply Section.deliver
      exact (Section.refl s).setEndpoint.record.insertCap
    · exact (Section.refl s).setEndpoint.stop hrun hcpu (fun _ => rfl) (by simp [park])

omit hrun hcpu in
lemma ipcReply_section {caller : Tid} {m0 m1 : ℕ} {reply origin : CallId} :
    Section actor s (s.ipcReply caller m0 m1 reply origin) := by
  rw [ipcReply]
  split
  · exact .refl s
  · split
    · exact (Section.refl s).record.deliver
    · exact .refl s

lemma runPrim_section (p : Prim) : Section (some tid) s (s.runPrim tid p).2 := by
  cases p with
  | send => exact ipcSend_section hrun hcpu
  | recv | wait => exact ipcRecv_section hrun hcpu
  | sendCap => exact ipcSendCap_section hrun hcpu
  | recvCap => exact ipcRecvCap_section hrun hcpu
  | call => exact ipcCall_section hrun hcpu
  | reply => exact ipcReply_section

omit hrun hcpu in
lemma deliverDeath_section {msg : Mailbox} (h : Section actor s s') :
    Section actor s (s'.deliverDeath tid ep msg) := by
  rw [deliverDeath]
  split
  · exact h
  · split
    · exact h.setEndpoint.deliver
    · exact h.setEndpoint.quiet fun _ => ⟨rfl, rfl⟩

lemma depart_section {event pc addr : ℕ} : Section (some tid) s (s.depart tid event pc addr) := by
  rw [depart]
  split
  · exact (Section.refl s).stop hrun hcpu (fun _ => rfl) (by simp)
  · apply deliverDeath_section
    exact (Section.refl s).stop hrun hcpu (fun _ => rfl) (by simp)

end

lemma step_section {a : Action} (ha : a.actor = some tid)
    (hcpu : ∀ t, s.threads.get tid = some t → t.handshake.onCpu) (h : s.step a = some s') :
    Section (some tid) s s' := by
  have hcpu' : ∀ {t}, s.running tid = some t → t.handshake.onCpu := fun hr => hcpu _ (running_eq_some hr).1
  cases a <;> simp only [Action.actor, Option.some.injEq, reduceCtorEq] at ha <;> subst ha
  case invoke =>
    simp only [step, invoke] at h
    split at h
    · simp at h
    split at h
    · split at h <;> cases h
      · exact .refl s
      · exact (Section.refl s).quiet fun _ => ⟨rfl, rfl⟩
    · simp at h
  case resolve =>
    simp only [step, resolve] at h
    split at h
    · simp at h
    split at h
    · split at h
      · cases h
        exact (Section.refl s).setFrame
      · split at h <;> cases h
        · exact (Section.refl s).setFrame.record
        · exact (Section.refl s).setFrame
    · simp at h
  case enter =>
    simp only [step, enter] at h
    split at h
    · simp at h
    rename_i hr
    split at h
    · cases h
      exact (runPrim_section hr (hcpu' hr) _).setFrame
    · simp at h
  case resume =>
    simp only [step, resume] at h
    split at h
    · simp at h
    split at h
    · cases h
      exact (Section.refl s).setFrame
    · simp at h
  case leave =>
    simp only [step, leave] at h
    split at h
    · simp at h
    rename_i x hr
    obtain ⟨hx, -⟩ := running_eq_some hr
    split at h
    · cases h
      refine ((Section.refl s).modify fun u hu => ?_).record
      cases Option.mem_unique hx hu
      split <;> exact ⟨rfl, .inl rfl⟩
    · simp at h
  case consume =>
    simp only [step, consume] at h
    split at h
    · simp at h
    split at h
    · cases h
      exact (Section.refl s).quiet fun _ => ⟨rfl, rfl⟩
    · simp at h
  case capDelete =>
    simp only [step, capDelete] at h
    split at h
    · simp at h
    split at h
    · cases h
      exact (Section.refl s).quiet fun _ => ⟨rfl, rfl⟩
    · simp at h
  case depart =>
    simp only [step, departs] at h
    split at h
    · simp at h
    rename_i hr
    split at h
    · cases h
      exact depart_section hr (hcpu' hr)
    · simp at h

lemma irqNotify_section : Section none s (s.irqNotify ep) := by
  rw [irqNotify]
  split
  · exact .refl s
  · split
    · exact (Section.refl s).setEndpoint.deliver
    · exact (Section.refl s).setEndpoint

lemma abortAll_section (l : List Tid) (h : Section actor s s') :
    Section actor s (l.foldl (fun s tid => (s.setIpcAborted tid).wake tid) s') := by
  induction l generalizing s' with
  | nil => exact h
  | cons tid l ih =>
    apply ih
    apply Section.wake
    exact h.quiet fun _ => ⟨rfl, rfl⟩

lemma destroyEndpoint_section (h : Section none s s') : Section none s (s'.destroyEndpoint ep) := by
  rw [destroyEndpoint]
  split
  · exact h
  · rename_i e _
    have hdrain : Section none s (s'.setEndpoint ep { e with senders := [], receivers := [] }) := h.setEndpoint
    have habort := abortAll_section e.drainWaiters hdrain
    dsimp only
    split
    · exact habort
    · exact habort.trans (.of_threads rfl)

lemma sweepEndpoints_section (base limit fuel : ℕ) (h : Section none s s') :
    Section none s (sweepEndpoints base limit fuel s') := by
  induction fuel generalizing s' with
  | zero => exact h
  | succ fuel ih =>
    rw [sweepEndpoints]
    split
    · exact h
    · exact ih (destroyEndpoint_section h)

lemma armed_section (base limit : ℕ) : Section none s (s.armed base limit) := by
  refine (sweepEndpoints_section base limit E (.refl s)).trans ⟨rfl, ?_, ?_⟩ <;> intro tid t ht <;>
    simp only [armed, Table.get_mapValues] at ht ⊢
  · refine ⟨_, by rw [ht]; rfl, ?_⟩
    rw [arm_eq]
    exact ⟨rfl, .inl rfl⟩
  · exact (Option.map_eq_some_iff.mp ht).imp fun _ => And.left

lemma createEndpointFrom_section {page : ℕ} (h : s.createEndpointFrom page = some (ep, s')) :
    Section none s s' := by
  obtain ⟨⟨name, endpoints⟩, -, heq⟩ := Option.map_eq_some_iff.mp h
  cases heq
  exact .of_threads rfl

lemma grant_section {cap : Cap} {slot : ℕ} (h : s.grant tid cap = some (slot, s')) : Section none s s' := by
  rw [grant] at h
  split at h
  · simp at h
  split at h
  · simp at h
  cases h
  exact (Section.refl s).quiet fun _ => ⟨rfl, rfl⟩

lemma configureTcb_section {space : AddressSpace} (h : s.configureTcb tid space = .ok s') : Section none s s' := by
  rw [configureTcb] at h
  split at h
  · simp at h
  split_ifs at h
  cases h
  exact (Section.refl s).quiet fun _ => ⟨rfl, rfl⟩

lemma tcbInsertCap_section {cap : Cap} {slot : ℕ} {target : Option ℕ}
    (h : s.tcbInsertCap tid cap target = .ok (slot, s')) : Section none s s' := by
  rw [tcbInsertCap] at h
  split at h
  · simp at h
  split_ifs at h
  split at h
  · simp at h
  cases h
  exact (Section.refl s).quiet fun _ => ⟨rfl, rfl⟩

end CrickerOs.Kernel
