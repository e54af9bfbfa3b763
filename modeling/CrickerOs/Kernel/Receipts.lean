import CrickerOs.Kernel.Delegation

namespace CrickerOs.Kernel

open Slots WakeHandshake Library

def Frame.awaitsCap : Frame → Bool
  | .parked (.recvCap _) => true
  | _ => false

/-- Any capability that the step collects is left by a thread waiting in `SEND_CAP` or `CALL`, and a message
without a capability that meets a thread waiting in `RECV_CAP` says so in its second word. -/
def Scheduler.Announces {T E : ℕ} (s : Scheduler T E) (a : Action) : Prop :=
  ((s.collects a).all fun (withCap, _, t) => !(withCap && t.outgoingCap.isSome) || t.Offers) ∧
    (s.delivers a).all fun (t, m) => !t.frame.awaitsCap || m.w1 = noCap

instance {T E : ℕ} (s : Scheduler T E) (a : Action) : Decidable (s.Announces a) :=
  inferInstanceAs (Decidable (_ ∧ _))

def announced : Restriction :=
  { unrestricted with collect := Thread.Offers, fill := fun t m => t.frame.awaitsCap → m.w1 = noCap }

variable {T E : ℕ} {s s' : Scheduler T E} {v v' : View} {tid : Tid} {t t' : Thread} {n : EpId} {R : Restriction}

def View.Reports (v : View) (receipt : CallId) (n : EpId) (slot : ℕ) : Prop :=
  slot = noCap ∨ Filled v receipt n slot

lemma View.Reports.mono {receipt : CallId} {slot : ℕ} (h : v.Reports receipt n slot) (hsub : v.trace ⊆ v'.trace) :
    v'.Reports receipt n slot :=
  h.imp_right fun ⟨o, c, cap, hmem⟩ => ⟨o, c, cap, hsub hmem⟩

namespace Thread

structure Reporting (v : View) (t : Thread) (tid : Tid) : Prop where
  resumed : ∀ n, t.frame = .parked (.recvCap n) → ¬t.Parked → t.handshake.ipcAborted = false →
    v.Reports (t.call tid) n t.mailbox.w1
  returning : ∀ n words, t.frame = .returning (.recvCap n) words → t.handshake.ipcAborted = false →
    ∃ w0 w1 w2, words = [w0, w1, w2] ∧ v.Reports (t.call tid) n w1

lemma Reporting.mono (h : Reporting v t tid) (hsub : v.trace ⊆ v'.trace) : Reporting v' t tid := by
  refine ⟨fun n hf hp ha => (h.resumed n hf hp ha).mono hsub, fun n words hf ha => ?_⟩
  obtain ⟨w0, w1, w2, hw, hrep⟩ := h.returning n words hf ha
  exact ⟨w0, w1, w2, hw, hrep.mono hsub⟩

lemma Reporting.congr (h : Reporting v t tid) (hf : t'.frame = t.frame) (hp : t.Parked → t'.Parked)
    (ha : t'.handshake.ipcAborted = t.handshake.ipcAborted) (hs : t'.seq = t.seq) (hm : t'.mailbox = t.mailbox) :
    Reporting v t' tid := by
  refine ⟨fun n hf' hp' ha' => ?_, fun n words hf' ha' => ?_⟩
  · rw [call_congr hs, hm]
    exact h.resumed n (hf ▸ hf') (fun h => hp' (hp h)) (ha ▸ ha')
  · rw [call_congr hs]
    exact h.returning n words (hf ▸ hf') (ha ▸ ha')

lemma reporting_of_frame (hp : ∀ n, t.frame ≠ .parked (.recvCap n))
    (hr : ∀ n words, t.frame ≠ .returning (.recvCap n) words) : Reporting v t tid :=
  ⟨fun n h => absurd h (hp n), fun n words h => absurd h (hr n words)⟩

lemma reporting_of_aborted (h : t.handshake.ipcAborted) : Reporting v t tid :=
  ⟨by simp [h], by simp [h]⟩

lemma Reporting.act (h : Reporting v t tid) (hr : t.handshake.state = .running) (ha : Act t t') :
    Reporting v t' tid := by
  cases ha with
  | invoke _ hadmits =>
    refine reporting_of_frame ?_ ?_
    · rintro n rfl
      simp [Admits] at hadmits
    · rintro n words rfl
      simp [Admits] at hadmits
  | gone => exact reporting_of_aborted rfl
  | resume hf =>
    refine ⟨by simp, fun n words hf' hab => ?_⟩
    obtain ⟨rfl, rfl⟩ := Frame.returning.inj hf'
    exact ⟨_, _, _, rfl, h.resumed n hf (free_of_running hr).1 hab⟩
  | exit hf | die hf | delete hf => exact reporting_of_frame (by simp [hf]) (by simp [hf])
  | _ => exact reporting_of_frame (by simp) (by simp)

lemma reporting_taken (htaken : Taken R t t') (hq : t.Queued tid n) (hs : t.Synced) : Reporting v t' tid := by
  have hframe : (∀ m, t.frame ≠ .parked (.recvCap m)) ∧ ∀ m words, t.frame ≠ .returning (.recvCap m) words := by
    cases hq with
    | corpse hd => simp [hs.corpse hd]
    | send _ hf | sendCap _ hf | call _ hf => simp [hf]
  cases htaken <;> exact reporting_of_frame hframe.1 hframe.2

lemma Reporting.change (h : Reporting v t tid) (hs : t.Synced) (hsub : v.trace ⊆ v'.trace)
    (hc : Change announced v v' tid t t') : Reporting v' t' tid := by
  refine Reporting.mono ?_ hsub
  cases hc with
  | same => exact h
  | turn hh =>
    refine h.congr rfl (fun hp => ?_) (ipcAborted_turn hh) rfl rfl
    obtain ⟨-, hq | hf⟩ := hs.turn hh
    · exact hq.parked.mpr hp
    · exact absurd hp hf.1.1
  | arm | hold => exact h.congr rfl id rfl rfl rfl
  | act hr ha => exact h.act hr ha
  | @complete q words hat hret =>
    refine ⟨by simp, fun n words' hf _ => ?_⟩
    obtain ⟨rfl, rfl⟩ := Frame.returning.inj hf
    exact hret
  | pass | leave | handOver => exact reporting_of_frame (by simp) (by simp)
  | @deliver m mailbox hrecv hfill =>
    obtain ⟨hp, q, hf, hq⟩ := hrecv
    refine ⟨fun n hf' _ _ => ?_, fun n words hf' => ?_⟩
    · cases Frame.parked.inj (hf.symm.trans hf')
      cases hq
      exact hfill.imp_left fun h => h (by rw [hf]; rfl)
    · have := hf.symm.trans hf'
      simp at this
  | park hat =>
    have hn := hs.not_pending (by simp [hat.1])
    exact ⟨fun n _ hp => absurd ⟨rfl, hn⟩ hp, by simp⟩
  | abort => exact reporting_of_aborted t.woken_aborted.ipcAborted
  | corpse hd =>
    have hf := hs.corpse hd
    exact reporting_of_frame (by simp [hf]) (by simp [hf])
  | take hq _ htaken => exact reporting_taken htaken hq hs
  | answer hw =>
    obtain ⟨q, hf, hq⟩ := hs.awaits hw
    refine reporting_of_frame (fun n hf' => ?_) fun n words hf' => ?_
    · cases Frame.parked.inj (hf.symm.trans hf')
      simp at hq
    · have := hf.symm.trans hf'
      simp at this

end Thread

def Announced (before : List Event) : Event → Prop
  | .returned call (.recvCap n) (some words) => ∃ w0 w1 w2, words = [w0, w1, w2] ∧
      (w1 = noCap ∨ ∃ carried cap, .handed carried carried n cap call w1 none ∈ before)
  | .handed origin call _ _ _ _ _ => origin = call
  | _ => True

structure Receipts (v : View) : Prop where
  reporting : ∀ {tid t}, v.th tid = some t → t.Reporting v tid
  explained : Justified Announced v.trace

lemma Receipts.reported (hr : Receipts v) {receipt : CallId} {slot : ℕ} (h : v.Reports receipt n slot) :
    slot = noCap ∨ ∃ carried cap, .handed carried carried n cap receipt slot none ∈ v.trace := by
  refine h.imp_right ?_
  rintro ⟨o, carried, cap, hmem⟩
  obtain ⟨before, -, rfl⟩ := hr.explained.of_mem hmem
  exact ⟨o, cap, hmem⟩

lemma Receipts.explained_micro (hr : Receipts v) (hv : Linked v) (h : Micro announced v v') :
    Justified Announced v'.trace := by
  obtain heq | ⟨ev, heq, hlog⟩ := h.logged hv
  · exact heq ▸ hr.explained
  rw [heq]
  refine ⟨?_, hr.explained⟩
  cases ev with
  | handed => exact (hlog.own fun _ => id).1
  | returned k p words =>
    cases hlog with
    | @returned tid t p words _ ht hat =>
      cases p with
      | recvCap n =>
        cases ha : t.handshake.ipcAborted with
        | true => trivial
        | false =>
          obtain ⟨w0, w1, w2, rfl, hrep⟩ := (hr.reporting ht).returning n words hat.2 ha
          exact ⟨w0, w1, w2, rfl, hr.reported hrep⟩
      | _ => trivial
  | _ => trivial

lemma Receipts.micro (hr : Receipts v) (hv : Linked v) (h : Micro announced v v') : Receipts v' := by
  refine ⟨?_, hr.explained_micro hv h⟩
  intro tid t' ht'
  obtain ⟨t, ht, hc⟩ := h.changed hv tid t' ht'
  exact (hr.reporting ht).change (hv.synced ht) (h.trace_subset hv) hc

lemma Receipts.micros (hr : Receipts v) (hv : Linked v) (h : Micros announced v v') : Receipts v' := by
  induction h with
  | refl => exact hr
  | tail hs h ih => exact ih.micro (hv.micros hs) h

lemma Scheduler.Announces.permits {a : Action} (hok : s.Announces a) : Permits announced s a := by
  refine ⟨fun r t hc ho => ?_, fun _ _ _ _ _ => trivial, fun _ _ => trivial, fun t m hd => ?_, fun _ _ hm _ => hm⟩
  · have hoffers : t.outgoingCap = none ∨ t.Offers := by simpa [hc] using hok.1
    exact hoffers.resolve_left fun hn => by simp [hn] at ho
  · have hw : t.frame.awaitsCap = false ∨ m.w1 = noCap := by simpa [hd] using hok.2
    exact fun hf => hw.resolve_left fun hn => by simp [hn] at hf

lemma reach_receipts (h : Reach Scheduler.step Scheduler.Announces Scheduler.Start s) : Receipts s.view := by
  refine h.invariant_of (fun s => Receipts s.view) ?_ ?_
  · intro s hs
    have htrace : s.view.trace = [] := hs.trace
    refine ⟨fun {tid t} ht => ?_, by rw [htrace]; trivial⟩
    have hf := (hs.threads tid t ht).2.1
    exact Thread.reporting_of_frame (by simp [hf]) (by simp [hf])
  · intro s a s' hreach hrec hok hs
    obtain ⟨hv, hr⟩ := reach_linked hreach
    exact hrec.micros hv (step_micros hv hr hok.permits hs)

theorem recvCap_reports_filled_slot (h : Reach Scheduler.step Scheduler.Announces Scheduler.Start s) :
    ∀ before call n words, (.returned call (.recvCap n) (some words) :: before) <:+ s.trace →
      ∃ w0 w1 w2, words = [w0, w1, w2] ∧
        (w1 = noCap ∨ ∃ carried cap, .handed carried carried n cap call w1 none ∈ before) := by
  intro before call n words hs
  exact (reach_receipts h).explained.of_suffix hs

theorem recvCap_reports_filled_slot_in_trio : ∃ s, execute Scheduler.step Scheduler.Announces trio
    [.invoke 1 0 .recvCap, .enter 1, .invoke 0 0 (.sendCap 2 15 5), .resolve 0, .enter 0, .finishSwitch 1,
      .switchIn 1, .resume 1, .leave 1] = some s ∧ s.trace.head? =
      some (.returned ⟨1, 1⟩ (.recvCap 0) (some [5, 2, 0])) ∧
    ∀ before, s.trace = .returned ⟨1, 1⟩ (.recvCap 0) (some [5, 2, 0]) :: before →
      ∃ carried cap, .handed carried carried 0 cap ⟨1, 1⟩ 2 none ∈ before := by
  refine Reach.exists_execute start_trio (fun s h _ before hb => ?_) (by decide +kernel)
  obtain ⟨w0, w1, w2, hw, hrep⟩ := recvCap_reports_filled_slot h before ⟨1, 1⟩ 0 [5, 2, 0]
    (hb ▸ List.suffix_refl _)
  obtain ⟨rfl, rfl, rfl⟩ : 5 = w0 ∧ 2 = w1 ∧ 0 = w2 := by simpa using hw
  exact hrep.resolve_left (by simp [noCap])

theorem send_chooses_slot_word : trio.Start ∧ ∃ s, execute Scheduler.step always trio
    [.invoke 1 0 .recvCap, .enter 1, .invoke 0 0 (.send 1 2 3), .enter 0, .finishSwitch 1, .switchIn 1, .resume 1,
      .leave 1] = some s ∧ s.trace = [.returned ⟨1, 1⟩ (.recvCap 0) (some [1, 2, 3])] ∧
    ∃ t ∈ s.threads.get 1, t.cspace.lookup 2 = none :=
  ⟨start_trio, exists_execute (by decide +kernel)⟩

end CrickerOs.Kernel
