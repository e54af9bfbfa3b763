import CrickerOs.Kernel.Sections
import CrickerOs.Slots.History

namespace CrickerOs.Kernel

open Slots WakeHandshake Function Scheduler Thread Table Option

variable {T E : ℕ} {s s' : Scheduler T E} {v v' : View} {K K' : Tid → Prop} {tid caller : Tid} {t t' : Thread}
  {n : EpId} {R : Restriction}

structure Known (K : Tid → Prop) (v : View) : Prop where
  live : ∀ {tid t}, v.th tid = some t → K tid
  logged : ∀ {ev k m}, ev ∈ v.trace → (k, m) ∈ ev.reached → K k.tid
  held : ∀ {tid t slot caller}, v.th tid = some t → t.Holds slot caller → K caller

lemma Logged.live_of_reached {ev : Event} {k : CallId} {m : ℕ} (h : Logged R v v' ev) (hk : (k, m) ∈ ev.reached) :
    ∃ t, v.th k.tid = some t := by
  cases h with
  | collected => simp [Event.reached] at hk
  | replied ht _ hc =>
    simp only [Event.reached, List.mem_cons, List.not_mem_nil, or_false, Prod.mk.injEq] at hk
    rcases hk with ⟨rfl, -⟩ | ⟨rfl, -⟩
    · exact ⟨_, ht⟩
    · exact ⟨_, hc⟩
  | passed ht | returned ht | handOver ht | callMeets ht | collect ht | collectCall ht =>
    simp only [Event.reached, List.mem_singleton, Prod.mk.injEq] at hk
    obtain ⟨rfl, -⟩ := hk
    exact ⟨_, ht⟩

lemma Logged.live_of_handed {ev : Event} {origin call receipt : CallId} {slot : ℕ} {b : Option Cap}
    (h : Logged R v v' ev) (hr : Replies v) (he : ev = .handed origin call n (replyCap caller) receipt slot b) :
    ∃ t, v.th caller = some t := by
  cases h with
  | passed | returned | collected | replied => simp at he
  | handOver ht hat =>
    simp only [Event.handed.injEq] at he
    have hrep := (hr.sealed ht).passes _ _ _ (.inl hat.2)
    simp [he.2.2.2.1, replyCap, Object.isReply] at hrep
  | collect _ _ _ hrep =>
    simp only [Event.handed.injEq] at he
    simp [he.2.2.2.1, replyCap, Object.isReply] at hrep
  | callMeets ht | collectCall ht =>
    simp only [Event.handed.injEq, replyCap, Capability.Cap.mk.injEq, Object.reply.injEq] at he
    exact ⟨_, he.2.2.2.1.1 ▸ ht⟩

namespace Known

lemma mono (h : Known K v) (hK : ∀ tid, K tid → K' tid) : Known K' v :=
  ⟨fun ht => hK _ (h.live ht), fun he hk => hK _ (h.logged he hk), fun ht hh => hK _ (h.held ht hh)⟩

lemma micro (h : Known K v) (hv : Linked v) (hr : Replies v) (hm : Micro R v v') : Known K v' := by
  refine ⟨?_, ?_, ?_⟩
  · intro tid t' ht'
    obtain ⟨t, ht, -⟩ := hm.changed hv tid t' ht'
    exact h.live ht
  · intro ev k m hev hk
    obtain heq | ⟨ev', heq, hlog⟩ := hm.logged hv
    · exact h.logged (heq ▸ hev) hk
    · rw [heq, List.mem_cons] at hev
      rcases hev with rfl | hev
      · obtain ⟨t, ht⟩ := hlog.live_of_reached hk
        exact h.live ht
      · exact h.logged hev hk
  · intro tid t' slot caller ht' hh
    obtain ⟨t, ht, hc⟩ := hm.changed hv tid t' ht'
    rcases hh.change hc with ⟨hold, -⟩ | ⟨-, call, ep, htrace⟩
    · exact h.held ht hold
    · obtain heq | ⟨ev, heq, hlog⟩ := hm.logged hv
      · simp [heq] at htrace
      · obtain ⟨hev, -⟩ := List.cons.inj (heq.symm.trans htrace)
        obtain ⟨u, hu⟩ := hlog.live_of_handed hr hev
        exact h.live hu

lemma micros (h : Known K v) (hv : Linked v) (hr : Replies v) (hm : Micros R v v') : Known K v' := by
  induction hm with
  | refl => exact h
  | tail hs hm ih => exact ih.micro (hv.micros hs) (hr.micros hv hs) hm

end Known

@[simp] lemma Thread.handshake_supervised (t : Thread) : t.supervised.handshake = t.handshake := by
  rw [supervised]
  split <;> rfl

structure Thread.Calm (t t' : Thread) : Prop where
  state : t'.handshake.state = t.handshake.state ∨ (t.handshake.state ≠ .blocked ∧ t.handshake.state ≠ .dead) ∧
    t'.handshake.state ≠ .blocked ∧ t'.handshake.state ≠ .dead
  pending : t'.handshake.wakePending = t.handshake.wakePending
  cpu : t.handshake.state = .blocked → t'.handshake.onCpu = t.handshake.onCpu
  waitOn : t'.handshake.waitOn = t.handshake.waitOn
  aborted : t'.handshake.ipcAborted = t.handshake.ipcAborted
  fault : t.handshake.state = .dead → t'.faultEp = t.faultEp
  mailbox : t'.mailbox = t.mailbox
  frame : t'.frame = t.frame
  outgoing : t'.outgoingCap = t.outgoingCap
  origin : t'.outgoingOrigin = t.outgoingOrigin
  seq : t'.seq = t.seq
  origins : t'.origins = t.origins
  caps : ∀ {slot cap}, cap.object.isReply → (t'.cspace.lookup slot = some cap ↔ t.cspace.lookup slot = some cap)

namespace Thread.Calm

lemma refl (t : Thread) : t.Calm t := by
  constructor <;> simp

lemma insert {cspace : CSpace} {slot : ℕ} {cap : Cap} (hfree : t.cspace.lookup slot = none)
    (hl : cspace.lookup = update t.cspace.lookup slot (some cap)) (hrep : cap.object.isReply = false) :
    t.Calm { t with cspace } := by
  refine { refl t with caps := ?_ }
  intro i c hc
  rw [hl, update_apply]
  split
  · subst i
    rw [hfree]
    simp only [some.injEq, reduceCtorEq, iff_false]
    rintro rfl
    simp [hrep] at hc
  · rfl

lemma supervised (he : t.handshake.state = .embryo) : t.Calm t.supervised := by
  rw [Thread.supervised]
  split
  · rename_i ep rights hl
    refine { refl t with fault := by simp [he], caps := ?_ }
    intro i c hc
    rw [Capability.CSpace.lookup_erase, update_apply]
    split
    · subst i
      rw [hl]
      simp only [some.injEq, reduceCtorEq, false_iff]
      rintro rfl
      simp [Object.isReply] at hc
    · rfl
  · exact refl t

lemma handshake {h : Handshake (EpId × WaitRole)} (ht : t.handshake.state ≠ .blocked ∧ t.handshake.state ≠ .dead)
    (hs : h.state ≠ .blocked ∧ h.state ≠ .dead) (hp : h.wakePending = t.handshake.wakePending)
    (hw : h.waitOn = t.handshake.waitOn) (ha : h.ipcAborted = t.handshake.ipcAborted) :
    t.Calm { t with handshake := h } :=
  { refl t with state := .inr ⟨ht, hs⟩, pending := hp, cpu := fun hb => absurd hb ht.1, waitOn := hw, aborted :=
    ha }

variable (h : t.Calm t')
include h

lemma blocked : t'.handshake.state = .blocked ↔ t.handshake.state = .blocked := by
  rcases h.state with hs | ⟨⟨hb, -⟩, hb', -⟩
  · rw [hs]
  · simp [hb, hb']

lemma dead : t'.handshake.state = .dead ↔ t.handshake.state = .dead := by
  rcases h.state with hs | ⟨⟨-, hd⟩, -, hd'⟩
  · rw [hs]
  · simp [hd, hd']

lemma parked : t'.Parked ↔ t.Parked := by
  rw [Parked, Parked, h.blocked, h.pending]

lemma call : t'.call tid = t.call tid := by
  rw [Thread.call, Thread.call, h.seq]

lemma receives : t'.Receives n ↔ t.Receives n := by
  rw [Receives, Receives, h.parked, h.frame]

lemma queued_of (hq : t.Queued tid n) : t'.Queued tid n := by
  cases hq with
  | corpse hd hw => exact .corpse (h.dead.mpr hd) (h.waitOn.trans hw)
  | send hp hf => exact .send (h.parked.mpr hp) (h.frame.trans hf)
  | sendCap hp hf ho hc =>
    exact .sendCap (h.parked.mpr hp) (h.frame.trans hf) (h.outgoing.trans ho) (by rw [h.origin, hc, h.call])
  | call hp hf ho hc =>
    exact .call (h.parked.mpr hp) (h.frame.trans hf) (h.outgoing.trans ho) (by rw [h.origin, hc, h.call])

lemma symm : t'.Calm t where
  state := h.state.imp Eq.symm And.symm
  pending := h.pending.symm
  cpu hb := (h.cpu (h.blocked.mp hb)).symm
  waitOn := h.waitOn.symm
  aborted := h.aborted.symm
  fault hd := (h.fault (h.dead.mp hd)).symm
  mailbox := h.mailbox.symm
  frame := h.frame.symm
  outgoing := h.outgoing.symm
  origin := h.origin.symm
  seq := h.seq.symm
  origins := h.origins.symm
  caps hrep := (h.caps hrep).symm

lemma queued : t'.Queued tid n ↔ t.Queued tid n :=
  ⟨h.symm.queued_of, h.queued_of⟩

lemma synced (hs : t.Synced) : t'.Synced := by
  refine ⟨?_, ?_, ?_, ?_, ?_⟩
  · intro hp
    obtain ⟨hb, hc⟩ := hs.pending (h.pending ▸ hp)
    exact ⟨h.blocked.mpr hb, (h.cpu hb).trans hc⟩
  · rw [h.blocked, h.frame, h.waitOn]
    exact hs.blocked
  · rw [ne_eq, h.blocked, ne_eq, h.dead, h.waitOn]
    exact hs.awake
  · rw [h.dead, h.waitOn]
    intro hd
    rw [h.fault hd]
    exact hs.dead hd
  · rw [h.dead, h.frame]
    exact hs.corpse

lemma sealed (hs : t.Sealed tid) : t'.Sealed tid := by
  refine ⟨h.outgoing ▸ hs.outgoing, ?_, h.frame ▸ hs.passes, ?_⟩
  · intro slot cap hl hrep
    exact hs.kept slot cap ((h.caps hrep).mp hl) hrep
  · intro caller m0 m1 slot hf
    obtain ⟨cap, hl, ho⟩ := hs.replies caller m0 m1 slot (h.frame ▸ hf)
    exact ⟨cap, (h.caps (by simp [ho, Object.isReply])).mpr hl, ho⟩

lemma holds {slot : ℕ} (hh : t'.Holds slot caller) :
    t.Holds slot caller ∧ t'.origins slot = t.origins slot := by
  obtain ⟨⟨cap, hl, ho⟩, hf⟩ := hh
  exact ⟨⟨⟨cap, (h.caps (by simp [ho, Object.isReply])).mp hl, ho⟩, h.frame ▸ hf⟩, by rw [h.origins]⟩

lemma answered {tr : List Event} (ha : t.Answered tid tr) : t'.Answered tid tr :=
  ha.congr h.frame h.parked.mpr h.aborted h.mailbox h.seq

lemma stage {seq : ℕ} : t'.stage seq = t.stage seq := by
  simp only [Thread.stage, h.seq, h.frame, h.parked]

end Thread.Calm

/-- Threads not in `K` and empty endpoints come into being, and of what was there nothing changes that matters. -/
structure Grown (K : Tid → Prop) (v v' : View) : Prop where
  trace : v'.trace = v.trace
  thread : ∀ {tid t}, v.th tid = some t → ∃ t', v'.th tid = some t' ∧ t.Calm t'
  born : ∀ {tid t'}, v'.th tid = some t' → (∃ t, v.th tid = some t) ∨ ¬K tid ∧ t'.Fresh
  endpoint : ∀ {n e}, v.ep n = some e → v'.ep n = some e
  opened : ∀ {n e}, v'.ep n = some e → v.ep n = some e ∨ e.senders = [] ∧ e.receivers = []

namespace Grown

variable (h : Grown K v v')
include h

lemma back (ht' : v'.th tid = some t') :
    (∃ t, v.th tid = some t ∧ t.Calm t') ∨ ¬K tid ∧ t'.Fresh := by
  refine (h.born ht').imp_left ?_
  rintro ⟨t, ht⟩
  obtain ⟨u, hu, hc⟩ := h.thread ht
  cases mem_unique ht' hu
  exact ⟨t, ht, hc⟩

lemma offQueue (hoff : v.OffQueue tid) : v'.OffQueue tid := by
  intro n e he hmem
  rcases h.opened he with he | ⟨hempty, -⟩
  · exact hoff n e he hmem
  · simp [hempty] at hmem

lemma linked (hv : Linked v) : Linked v' := by
  refine ⟨?_, ?_, ?_, ?_, ?_⟩
  · intro tid t' ht'
    rcases h.back ht' with ⟨t, ht, hc⟩ | ⟨-, hf⟩
    · exact hc.synced (hv.synced ht)
    · exact hf.synced
  · intro n e tid he hmem
    rcases h.opened he with he | ⟨hempty, -⟩
    · obtain ⟨t, ht, hq⟩ := hv.senders he hmem
      obtain ⟨t', ht', hc⟩ := h.thread ht
      exact ⟨t', ht', hc.queued.mpr hq⟩
    · simp [hempty] at hmem
  · intro n e tid he hmem
    rcases h.opened he with he | ⟨-, hempty⟩
    · obtain ⟨t, ht, hr⟩ := hv.receivers he hmem
      obtain ⟨t', ht', hc⟩ := h.thread ht
      exact ⟨t', ht', hc.receives.mpr hr⟩
    · simp [hempty] at hmem
  · intro n e he
    rcases h.opened he with he | ⟨hs, hr⟩
    · exact hv.distinct he
    · simp [hs, hr]
  · intro n tid t' ht' hr
    rcases h.back ht' with ⟨t, ht, hc⟩ | ⟨-, hf⟩
    · obtain ⟨e, he, hmem⟩ := hv.listed ht (hc.receives.mp hr)
      exact ⟨e, h.endpoint he, hmem⟩
    · exact absurd hr.1.1 hf.state.1

lemma lost (hK : K caller) (hl : v.Lost caller) : v'.Lost caller := by
  intro t' ht'
  rcases h.back ht' with ⟨t, ht, hc⟩ | ⟨hn, -⟩
  · refine (hl t ht).imp hc.dead.mpr ?_
    rintro ⟨hp, ⟨n, hw⟩, hoff⟩
    exact ⟨hc.parked.mpr hp, ⟨n, hc.waitOn.trans hw⟩, h.offQueue hoff⟩
  · exact absurd hK hn

lemma awaits {origin : CallId} {holder : Tid} (ha : v.Awaits caller origin holder) :
    v'.Awaits caller origin holder := by
  obtain ⟨t, n, ht, hp, hw, hoff, rfl, receipt, hr, hmem⟩ := ha
  obtain ⟨t', ht', hc⟩ := h.thread ht
  refine ⟨t', n, ht', hc.parked.mpr hp, hc.waitOn.trans hw, h.offQueue hoff, hc.call.symm, receipt, hr, ?_⟩
  rw [h.trace]
  exact hmem

lemma holds {slot : ℕ} (ht' : v'.th tid = some t') (hh : t'.Holds slot caller) :
    ∃ t, v.th tid = some t ∧ t.Holds slot caller ∧ t'.origins slot = t.origins slot := by
  rcases h.back ht' with ⟨t, ht, hc⟩ | ⟨-, hf⟩
  · exact ⟨t, ht, hc.holds hh⟩
  · exact absurd hh hf.not_holds

lemma staged (hk : Known K v) (hs : Staged v) : Staged v' := by
  intro ev hev k m hkm t' ht'
  rw [h.trace] at hev
  rcases h.back ht' with ⟨t, ht, hc⟩ | ⟨hn, -⟩
  · rw [hc.stage]
    exact hs ev hev k m hkm t ht
  · exact absurd (hk.logged hev hkm) hn

lemma replies (hk : Known K v) (hr : Replies v) : Replies v' := by
  refine ⟨?_, ?_, ?_, h.staged hk hr.staged, ?_, h.trace ▸ hr.explained⟩
  · intro tid t' ht'
    rcases h.back ht' with ⟨t, ht, hc⟩ | ⟨-, hf⟩
    · exact hc.sealed (hr.sealed ht)
    · exact hf.sealed
  · intro tid t' slot caller ht' hh
    obtain ⟨t, ht, hold, horigin⟩ := h.holds ht' hh
    rw [horigin]
    exact (hr.held ht hold).imp (h.lost (hk.held ht hold)) h.awaits
  · intro a b t' u' i j caller ht' hi hu' hj
    obtain ⟨t, ht, hti, -⟩ := h.holds ht' hi
    obtain ⟨u, hu, huj, -⟩ := h.holds hu' hj
    exact (hr.once ht hti hu huj).imp_left (h.lost (hk.held ht hti))
  · intro tid t' ht'
    rw [h.trace]
    rcases h.back ht' with ⟨t, ht, hc⟩ | ⟨-, hf⟩
    · exact hc.answered (hr.answered ht)
    · exact hf.answered

lemma known (hk : Known K v) (hK : ∀ tid, K tid → K' tid)
    (hborn : ∀ {tid t}, v'.th tid = some t → K' tid) : Known K' v' := by
  refine ⟨hborn, ?_, ?_⟩
  · intro ev k m hev hkm
    exact hK _ (hk.logged (h.trace ▸ hev) hkm)
  · intro tid t' slot caller ht' hh
    obtain ⟨t, ht, hold, -⟩ := h.holds ht' hh
    exact hK _ (hk.held ht hold)

end Grown

structure Grounded (s : Scheduler T E) : Prop where
  linked : Linked s.view
  replies : Replies s.view
  known : Known s.threads.Issued s.view

lemma Scheduler.Start.grounded (h : s.Start) : Grounded s := by
  refine ⟨h.linked, h.replies, issued_of_get, ?_, ?_⟩
  · intro ev k m hev
    have hev : ev ∈ s.trace := hev
    simp [h.trace] at hev
  · intro tid t slot caller ht hh
    exact absurd hh (h.threads tid t ht).not_holds

lemma Section.issued {actor : Option Tid} (h : Section actor s s') (hi : s.threads.Issued tid) :
    s'.threads.Issued tid := by
  refine hi.congr h.gens fun hs => ?_
  obtain ⟨t, ht⟩ := isSome_iff_exists.mp hs
  obtain ⟨t', ht', -⟩ := h.kept ht
  simp [ht']

lemma issued_modifyThread {u : Tid} {f : Thread → Thread} (h : s.threads.Issued u) :
    (s.modifyThread tid f).threads.Issued u := by
  refine h.congr (gens_modify ..) fun hs => ?_
  rw [modifyThread, get_modify, update_apply]
  split
  · subst u
    simpa using hs
  · exact hs

lemma issued_removeThread {u : Tid} (h : s.threads.Issued u)
    (hlast : ∀ t, s.threads.get tid = some t → (unpack tid).2 + 1 < 2 ^ 32) :
    (s.removeThread tid).threads.Issued u := by
  rw [removeThread]
  split
  · exact h
  · rename_i hrem
    exact h.remove hrem (hlast _ (get_of_remove hrem))

lemma view_removeThread (tid : Tid) : (s.removeThread tid).view = s.view.unset tid := by
  ext1
  · exact th_removeThread tid
  · rw [removeThread]
    split <;> rfl
  · rw [removeThread]
    split <;> rfl

lemma insertThread_eq_some (h : s.insertThread t = some (tid, s')) : ¬s.threads.Issued tid ∧
    s'.view = s.view.set tid t ∧ ∀ u, s.threads.Issued u → s'.threads.Issued u := by
  obtain ⟨⟨name, threads⟩, hins, heq⟩ := map_eq_some_iff.mp h
  cases heq
  have hget : threads.get = _ := get_insertWith hins
  refine ⟨not_issued_of_insertWith hins, ?_, ?_⟩
  · rw [view, hget]
    rfl
  · intro u hu
    obtain ⟨i, -, -, -, -, hgens⟩ := insertWith_eq_some hins
    refine hu.congr hgens fun hs => ?_
    rw [hget, update_apply]
    split
    · rfl
    · exact hs

lemma startTcb_error {entry : ℕ} {stack : Bool} {e : AbiError} (h : s.startTcb tid entry stack = (.error e, s')) :
    Section none s s' := by
  rw [startTcb] at h
  split at h
  · cases h
    exact .refl s
  split_ifs at h <;> obtain ⟨hresult, rfl⟩ := Prod.mk.inj h
  · exact .refl s
  · exact .refl s
  · simp at hresult
  · exact (Section.refl s).quiet (by simp)

lemma startTcb_ok {entry : ℕ} {stack : Bool} {x : Unit} (h : s.startTcb tid entry stack = (.ok x, s')) :
    (∃ t, s.threads.get tid = some t ∧ t.handshake.state = .embryo) ∧
      s' = (s.modifyThread tid supervised).modifyThread tid fun t =>
        { t with handshake := { t.handshake with state := .ready } } := by
  rw [startTcb] at h
  split at h
  · simp at h
  rename_i t ht
  split_ifs at h with he
  · exact absurd (Prod.mk.inj h).1 (by simp)
  · exact absurd (Prod.mk.inj h).1 (by simp)
  · exact ⟨⟨t, ht, not_not.mp he⟩, (Prod.mk.inj h).2.symm⟩
  · exact absurd (Prod.mk.inj h).1 (by simp)

namespace Grounded

variable (hg : Grounded s)
include hg

lemma micros (hm : Micros R s.view s'.view) (hi : ∀ tid, s.threads.Issued tid → s'.threads.Issued tid) :
    Grounded s' :=
  ⟨hg.linked.micros hm, hg.replies.micros hg.linked hm, (hg.known.micros hg.linked hg.replies hm).mono hi⟩

lemma grown (h : Grown s.threads.Issued s.view s'.view)
    (hi : ∀ tid, s.threads.Issued tid → s'.threads.Issued tid) : Grounded s' :=
  ⟨h.linked hg.linked, h.replies hg.known hg.replies, h.known hg.known hi issued_of_get⟩

lemma removeThread (ht : s.threads.get tid = some t) (hr : t.Reapable) (hoff : s.view.OffQueue tid)
    (hlast : (unpack tid).2 + 1 < 2 ^ 32) : Grounded (s.removeThread tid) := by
  refine hg.micros (R := unrestricted) (.single ?_) fun u hu => issued_removeThread hu fun _ _ => hlast
  rw [view_removeThread]
  exact .remove ht hr hoff

lemma modify {f : Thread → Thread} (hf : ∀ t, s.threads.get tid = some t → t.Calm (f t)) :
    Grounded (s.modifyThread tid f) := by
  have hget : (s.modifyThread tid f).view.th = update s.view.th tid ((s.view.th tid).map f) :=
    get_modify ..
  refine hg.grown ⟨rfl, ?_, ?_, id, .inl⟩ fun _ => issued_modifyThread
  · intro u x hu
    rw [hget, update_apply]
    split
    · subst u
      exact ⟨f x, by rw [hu]; rfl, hf x hu⟩
    · exact ⟨x, hu, .refl x⟩
  · intro u x hu
    rw [hget, update_apply] at hu
    split at hu
    · subst u
      exact .inl ((map_eq_some_iff.mp hu).imp fun _ => And.left)
    · exact .inl ⟨x, hu⟩

lemma finishSwitch (ht : s.threads.get tid = some t) (hcpu : t.handshake.onCpu)
    (hs : t.handshake.state ≠ .finished) :
    Grounded (s.modifyThread tid fun t' => { t' with handshake := t.handshake.finishSwitch.2 }) := by
  by_cases hrun : t.handshake.state = .running
  · -- only an idle thread is switched from as it is
    have hp := (hg.linked.synced ht).not_pending (by simp [hrun])
    refine hg.modify fun u hu => ?_
    cases mem_unique ht hu
    refine .handshake ?_ ?_ ?_ ?_ ?_ <;> simp [Handshake.finishSwitch, hrun, hp]
  · refine hg.micros (R := unrestricted) (.single ?_) fun _ => issued_modifyThread
    rw [view_modifyThread ht]
    exact .turn ht (.finish hcpu hrun hs)

lemma insertThread (hf : t.Fresh) (h : s.insertThread t = some (tid, s')) : Grounded s' := by
  obtain ⟨hnew, hview, hissued⟩ := insertThread_eq_some h
  refine hg.grown ?_ hissued
  rw [hview]
  refine ⟨rfl, ?_, ?_, id, .inl⟩
  · intro u x hu
    have hne : u ≠ tid := by
      rintro rfl
      exact hnew (issued_of_get hu)
    exact ⟨x, by rwa [View.th_set_of_ne hne], .refl x⟩
  · intro u x hu
    rw [View.th_set] at hu
    split at hu
    · subst u
      cases hu
      exact .inr ⟨hnew, hf⟩
    · exact .inl ⟨x, hu⟩

lemma createEndpointFrom {page : ℕ} (h : s.createEndpointFrom page = some (n, s')) : Grounded s' := by
  obtain ⟨⟨name, endpoints⟩, hins, heq⟩ := map_eq_some_iff.mp h
  obtain ⟨rfl, rfl⟩ := Prod.mk.inj heq
  have hnone := get_eq_none_of_insertWith hins
  have hget : endpoints.get = _ := get_insertWith hins
  refine hg.grown ⟨rfl, fun ht => ⟨_, ht, .refl _⟩, fun ht => .inl ⟨_, ht⟩, ?_, ?_⟩ fun _ => id
  · intro m e he
    obtain ⟨p, hp, rfl⟩ := map_eq_some_iff.mp he
    have hne : m ≠ name := by
      rintro rfl
      simp [hnone] at hp
    refine map_eq_some_iff.mpr ⟨p, ?_, rfl⟩
    rw [hget, update_of_ne hne]
    exact hp
  · intro m e he
    obtain ⟨p, hp, rfl⟩ := map_eq_some_iff.mp he
    rw [hget, update_apply] at hp
    split at hp
    · cases hp
      exact .inr ⟨rfl, rfl⟩
    · exact .inl (map_eq_some_iff.mpr ⟨p, hp, rfl⟩)

lemma grant {cap : Cap} {slot : ℕ} (hrep : cap.object.isReply = false)
    (h : s.grant tid cap = some (slot, s')) : Grounded s' := by
  rw [Scheduler.grant] at h
  split at h
  · simp at h
  rename_i t ht
  split at h
  · simp at h
  rename_i i cspace hins
  cases h
  obtain ⟨hfree, -, hl⟩ := Capability.CSpace.insert_eq_ok hins
  refine hg.modify fun u hu => ?_
  cases mem_unique ht hu
  exact .insert hfree hl hrep

lemma configureTcb {space : AddressSpace} (h : s.configureTcb tid space = .ok s') : Grounded s' := by
  rw [Scheduler.configureTcb] at h
  split at h
  · simp at h
  split_ifs at h
  cases h
  exact hg.modify fun u _ => { Thread.Calm.refl u with }

lemma tcbInsertCap {cap : Cap} {slot : ℕ} {target : Option ℕ} (hrep : cap.object.isReply = false)
    (h : s.tcbInsertCap tid cap target = .ok (slot, s')) : Grounded s' := by
  rw [Scheduler.tcbInsertCap] at h
  split at h
  · simp at h
  rename_i t ht
  split_ifs at h
  split at h
  · simp at h
  rename_i i cspace hins
  obtain ⟨rfl, rfl⟩ := Prod.mk.inj (Except.ok.inj h)
  have hok : t.cspace.lookup i = none ∧ i < cspaceSlots ∧
      cspace.lookup = update t.cspace.lookup i (some cap) := by
    cases target with
    | none => exact Capability.CSpace.insert_eq_ok hins
    | some slot => exact Capability.CSpace.insertAt_eq_ok hins
  refine hg.modify fun u hu => ?_
  cases mem_unique ht hu
  exact .insert hok.1 hok.2.2 hrep

lemma started (ht : s.threads.get tid = some t) (he : t.handshake.state = .embryo) :
    Grounded ((s.modifyThread tid supervised).modifyThread tid fun t =>
      { t with handshake := { t.handshake with state := .ready } }) := by
  have hs : Grounded (s.modifyThread tid supervised) := by
    refine hg.modify fun u hu => ?_
    cases mem_unique ht hu
    exact .supervised he
  refine hs.modify fun u hu => .handshake ?_ (by simp) rfl rfl rfl
  rw [modifyThread, get_modify, update_self, ht] at hu
  cases hu
  simp [he]

lemma startTcb {entry : ℕ} {stack : Bool} : Grounded (s.startTcb tid entry stack).2 := by
  rw [Scheduler.startTcb]
  split
  · exact hg
  rename_i t ht
  split_ifs with he hc hstack
  · exact hg
  · exact hg
  · exact hg.started ht (not_not.mp he)
  · refine hg.modify fun u hu => ?_
    cases mem_unique ht hu
    exact .supervised (not_not.mp he)

end Grounded

end CrickerOs.Kernel
