import CrickerOs.Kernel.View

namespace CrickerOs.Kernel

open Slots WakeHandshake Handshake

variable {tid : Tid} {t t' : Thread} {n : EpId} {R : Restriction}

namespace Thread

def Parked (t : Thread) : Prop :=
  t.handshake.state = .blocked ∧ t.handshake.wakePending = false

inductive Queued (t : Thread) (tid : Tid) (n : EpId) : Prop
  | corpse : t.handshake.state = .dead → t.handshake.waitOn = some (n, .sender) → Queued t tid n
  | send {m0 m1 m2} : t.Parked → t.frame = .parked (.send n m0 m1 m2) → Queued t tid n
  | sendCap {data cap} : t.Parked → t.frame = .parked (.sendCap n data cap) → t.outgoingCap = some cap →
      t.outgoingOrigin = t.call tid → Queued t tid n
  | call {m0 m1} : t.Parked → t.frame = .parked (.call n m0 m1) → t.outgoingCap = some (replyCap tid) →
      t.outgoingOrigin = t.call tid → Queued t tid n

def Receives (t : Thread) (n : EpId) : Prop :=
  t.Parked ∧ ∃ p, t.frame = .parked p ∧ p.waitsOn = some (n, .receiver)

structure Synced (t : Thread) : Prop where
  pending : t.handshake.wakePending → t.handshake.state = .blocked ∧ t.handshake.onCpu
  blocked : t.handshake.state = .blocked → ∃ p, t.frame = .parked p ∧ t.handshake.waitOn = p.waitsOn
  awake : t.handshake.state ≠ .blocked → t.handshake.state ≠ .dead → t.handshake.waitOn = none
  dead : t.handshake.state = .dead →
    t.handshake.waitOn = none ∨ ∃ n, t.handshake.waitOn = some (n, .sender) ∧ t.faultEp = some n
  corpse : t.handshake.state = .dead → t.frame = .user

structure Quiet (t t' : Thread) : Prop where
  state : t'.handshake.state = t.handshake.state
  pending : t'.handshake.wakePending = t.handshake.wakePending
  waitOn : t'.handshake.waitOn = t.handshake.waitOn
  frame : t'.frame = t.frame
  outgoing : t'.outgoingCap = t.outgoingCap
  origin : t'.outgoingOrigin = t.outgoingOrigin
  seq : t'.seq = t.seq
  fault : t'.faultEp = t.faultEp

def Free (t : Thread) : Prop :=
  ¬t.Parked ∧ t.handshake.state ≠ .dead

@[refl] lemma Quiet.refl (t : Thread) : t.Quiet t := by
  constructor <;> rfl

lemma Quiet.parked (h : t.Quiet t') : t'.Parked ↔ t.Parked := by
  simp only [Parked, h.state, h.pending]

lemma Quiet.queued (h : t.Quiet t') : t'.Queued tid n ↔ t.Queued tid n := by
  have hcall : t'.call tid = t.call tid := by simp only [call, h.seq]
  constructor
  · rintro (⟨hd, hw⟩ | ⟨hp, hf⟩ | ⟨hp, hf, ho, hc⟩ | ⟨hp, hf, ho, hc⟩)
    · exact .corpse (h.state ▸ hd) (h.waitOn ▸ hw)
    · exact .send (h.parked.mp hp) (h.frame ▸ hf)
    · exact .sendCap (h.parked.mp hp) (h.frame ▸ hf) (h.outgoing ▸ ho) (h.origin ▸ hcall ▸ hc)
    · exact .call (h.parked.mp hp) (h.frame ▸ hf) (h.outgoing ▸ ho) (h.origin ▸ hcall ▸ hc)
  · rintro (⟨hd, hw⟩ | ⟨hp, hf⟩ | ⟨hp, hf, ho, hc⟩ | ⟨hp, hf, ho, hc⟩)
    · exact .corpse (h.state.trans hd) (h.waitOn.trans hw)
    · exact .send (h.parked.mpr hp) (h.frame.trans hf)
    · exact .sendCap (h.parked.mpr hp) (h.frame.trans hf) (h.outgoing.trans ho) (by rw [h.origin, hc, hcall])
    · exact .call (h.parked.mpr hp) (h.frame.trans hf) (h.outgoing.trans ho) (by rw [h.origin, hc, hcall])

lemma Quiet.receives (h : t.Quiet t') : t'.Receives n ↔ t.Receives n := by
  simp only [Receives, h.parked, h.frame]

lemma Quiet.synced (h : t.Quiet t') (ht : t.Synced) (hc : t'.handshake.wakePending → t'.handshake.onCpu) :
    t'.Synced := by
  refine ⟨?_, ?_, ?_, ?_, ?_⟩
  · intro hp
    rw [h.state]
    exact ⟨(ht.pending (h.pending ▸ hp)).1, hc hp⟩
  · rw [h.state, h.frame, h.waitOn]
    exact ht.blocked
  · rw [h.state, h.waitOn]
    exact ht.awake
  · rw [h.state, h.waitOn, h.fault]
    exact ht.dead
  · rw [h.state, h.frame]
    exact ht.corpse

lemma Free.not_queued (h : t.Free) : ¬t.Queued tid n := by
  rintro (⟨hd, -⟩ | ⟨hp, -⟩ | ⟨hp, -⟩ | ⟨hp, -⟩)
  · exact h.2 hd
  all_goals exact h.1 hp

lemma Free.not_receives (h : t.Free) : ¬t.Receives n :=
  fun hr => h.1 hr.1

lemma free_of_running (h : t.handshake.state = .running) : t.Free := by
  simp [Free, Parked, h]

lemma Queued.state (h : t.Queued tid n) : t.handshake.state = .blocked ∨ t.handshake.state = .dead := by
  cases h with
  | corpse hd => exact .inr hd
  | send hp | sendCap hp | call hp => exact .inl hp.1

variable {m : EpId}

lemma Queued.unique (h : t.Queued tid n) (h' : t.Queued tid m) : m = n := by
  cases h <;> cases h' <;> simp_all [Parked]

lemma Queued.not_receives (h : t.Queued tid n) : ¬t.Receives m := by
  rintro ⟨hp, p, hf, hw⟩
  cases h with
  | corpse hd => simp_all [Parked]
  | send _ hq | sendCap _ hq | call _ hq =>
    obtain rfl : _ = p := Frame.parked.inj (hq.symm.trans hf)
    simp at hw

lemma Receives.unique (h : t.Receives n) (h' : t.Receives m) : m = n := by
  obtain ⟨-, p, hf, hw⟩ := h
  obtain ⟨-, q, hf', hw'⟩ := h'
  simp_all

inductive Woken (t : Thread) (served aborted : Bool) : Thread → Prop
  | deferred : t.handshake.state = .blocked → t.handshake.onCpu → Woken t served aborted { t with
      handshake := { t.handshake with ipcServed := served, ipcAborted := aborted, wakePending := true } }
  | ready : t.handshake.state = .blocked → t.handshake.onCpu = false → Woken t served aborted { t with
      handshake := { t.handshake with ipcServed := served, ipcAborted := aborted, state := .ready, waitOn := none }
      }
  | awake : t.handshake.state ≠ .blocked → Woken t served aborted { t with
      handshake := { t.handshake with ipcServed := served, ipcAborted := aborted } }

lemma woken_served (t : Thread) : t.Woken true t.handshake.ipcAborted t.served := by
  by_cases hb : t.handshake.state = .blocked
  · cases hc : t.handshake.onCpu with
    | true => simpa [served, serve, tryWake, delivered, hb, hc] using Woken.deferred hb hc
    | false => simpa [served, serve, tryWake, delivered, hb, hc] using Woken.ready hb hc
  · simpa [served, serve, tryWake, hb] using Woken.awake hb

lemma woken_aborted (t : Thread) : t.Woken t.handshake.ipcServed true t.aborted := by
  by_cases hb : t.handshake.state = .blocked
  · cases hc : t.handshake.onCpu with
    | true => simpa [aborted, abort, tryWake, delivered, hb, hc] using Woken.deferred hb hc
    | false => simpa [aborted, abort, tryWake, delivered, hb, hc] using Woken.ready hb hc
  · simpa [aborted, abort, tryWake, hb] using Woken.awake hb

variable {a b : Bool}

lemma Woken.not_parked (h : t.Woken a b t') : ¬t'.Parked := by
  cases h with
  | deferred | ready => simp [Parked]
  | awake hb => simp [Parked, hb]

lemma Woken.state (h : t.Woken a b t') (hb : t.handshake.state ≠ .blocked) :
    t'.handshake.state = t.handshake.state := by
  cases h with
  | deferred h | ready h => exact absurd h hb
  | awake => rfl

lemma Woken.ipcAborted (h : t.Woken a b t') : t'.handshake.ipcAborted = b := by
  cases h <;> rfl

lemma Woken.synced (h : t.Woken a b t') (ht : t.Synced) : t'.Synced := by
  cases h with
  | deferred hb hc => exact ⟨fun _ => ⟨hb, hc⟩, ht.blocked, ht.awake, ht.dead, ht.corpse⟩
  | ready hb hc =>
    have hp : t.handshake.wakePending = false := by
      by_contra hp
      simpa [hc] using (ht.pending (by simpa using hp)).2
    exact ⟨by simp [hp], by simp, by simp, by simp, by simp⟩
  | awake hb => exact ⟨ht.pending, ht.blocked, ht.awake, ht.dead, ht.corpse⟩

section

variable (ht : t.Synced)
include ht

lemma Synced.congr (hh : t'.handshake = t.handshake) (hf : t'.frame = t.frame)
    (hfault : t'.faultEp = t.faultEp) : t'.Synced := by
  refine ⟨?_, ?_, ?_, ?_, ?_⟩ <;> rw [hh]
  · exact ht.pending
  · rw [hf]
    exact ht.blocked
  · exact ht.awake
  · rw [hfault]
    exact ht.dead
  · rw [hf]
    exact ht.corpse

lemma Synced.not_pending (h : t.handshake.state ≠ .blocked) : t.handshake.wakePending = false := by
  by_contra hp
  exact h (ht.pending (by simpa using hp)).1

lemma Synced.running (hr : t.handshake.state = .running) (hh : t'.handshake.state = .running)
    (hp : t'.handshake.wakePending = t.handshake.wakePending) (hw : t'.handshake.waitOn = t.handshake.waitOn) :
    t'.Synced := by
  have hn := ht.not_pending (by simp [hr])
  have hnone := ht.awake (by simp [hr]) (by simp [hr])
  refine ⟨?_, ?_, ?_, ?_, ?_⟩ <;> simp [hh, hp, hw, hn, hnone]

lemma Synced.waitOn {p : Prim} (hp : t.Parked) (hf : t.frame = .parked p) :
    t.handshake.waitOn = p.waitsOn := by
  obtain ⟨q, hq, hw⟩ := ht.blocked hp.1
  cases Frame.parked.inj (hf.symm.trans hq)
  exact hw

lemma Synced.waitOn_of_receives (h : t.Receives n) : t.handshake.waitOn = some (n, .receiver) := by
  obtain ⟨hp, p, hf, hw⟩ := h
  exact (ht.waitOn hp hf).trans hw

lemma Synced.park {p : Prim} {w : EpId × WaitRole} (hr : t.handshake.state = .running)
    (hp : p.waitsOn = some w) (hf : t'.frame = .parked p) (hh : t'.handshake = t.handshake.park w) :
    t'.Synced := by
  have hn := ht.not_pending (by simp [hr])
  refine ⟨?_, ?_, ?_, ?_, ?_⟩ <;> simp [hh, Handshake.park, hn, hf, hp]

lemma Synced.act (hr : t.handshake.state = .running) (h : Act t t') : t'.Synced := by
  have hn := ht.not_pending (by simp [hr])
  have hw := ht.awake (by simp [hr]) (by simp [hr])
  cases h with
  | parkReply => exact ht.park hr rfl rfl rfl
  | gone => refine ⟨?_, ?_, ?_, ?_, ?_⟩ <;> simp [abort, hn, hw, hr]
  | die hf => refine ⟨?_, ?_, ?_, ?_, ?_⟩ <;> simp [hn, hw, hf]
  | _ => refine ⟨?_, ?_, ?_, ?_, ?_⟩ <;> simp [hn, hw, hr]

end

lemma act_not_receives (hr : t.handshake.state = .running) (h : Act t t') : ¬t'.Receives n := by
  rintro ⟨⟨hs, -⟩, p, hf, hp⟩
  cases h <;> simp_all [abort]
  simp [← hf] at hp

lemma Synced.turn {h : Handshake (EpId × WaitRole)} (ht : t.Synced) (hh : Turn t.handshake h) :
    ({ t with handshake := h } : Thread).Synced ∧
      (t.Quiet { t with handshake := h } ∨ t.Free ∧ ({ t with handshake := h } : Thread).Free) := by
  cases hh with
  | switchIn hs hc | preempt hs | kill hs =>
    have hn := ht.not_pending (by simp [hs])
    have hw := ht.awake (by simp [hs]) (by simp [hs])
    constructor
    · refine ⟨?_, ?_, ?_, ?_, ?_⟩ <;> simp [switchIn, preempt, hn, hw]
    · exact .inr (by simp [Free, Parked, hs, switchIn, preempt])
  | finish hc hr hf =>
    cases hp : t.handshake.wakePending with
    | true =>
      have hb := (ht.pending hp).1
      constructor
      · refine ⟨?_, ?_, ?_, ?_, ?_⟩ <;> simp [finishSwitch, hf, hp]
      · exact .inr (by simp [Free, Parked, hb, hp, finishSwitch])
    | false =>
      have hq : t.Quiet { t with handshake := t.handshake.finishSwitch.2 } := by
        constructor <;> simp [finishSwitch, hf, hp]
      exact ⟨hq.synced ht (by simp [finishSwitch, hf, hp]), .inl hq⟩

lemma Synced.taken (ht : t.Synced) (h : Taken R t t') : t'.Synced := by
  cases h with
  | serve => exact (t.woken_served.synced ht).congr rfl rfl rfl
  | leave _ _ hh =>
    rcases hh with rfl | ⟨hd, rfl⟩
    · exact ht.congr rfl rfl rfl
    · refine ⟨?_, ?_, ?_, ?_, ?_⟩ <;> simp [hd, ht.not_pending, ht.corpse]
  | abort => exact t.woken_aborted.synced ht

lemma taken_not_receives {tid : Tid} (hq : t.Queued tid n) (h : Taken R t t') : ¬t'.Receives m := by
  cases h with
  | serve => exact fun hr => t.woken_served.not_parked hr.1
  | abort => exact fun hr => t.woken_aborted.not_parked hr.1
  | leave _ _ hh =>
    rcases hh with rfl | ⟨hd, rfl⟩
    · exact fun hr => hq.not_receives hr
    · rintro ⟨⟨hb, -⟩, -⟩
      simp [hd] at hb

lemma ipcAborted_turn {h : Handshake (EpId × WaitRole)} (hh : Turn t.handshake h) :
    h.ipcAborted = t.handshake.ipcAborted := by
  cases hh with
  | switchIn | preempt | kill => rfl
  | finish =>
    rw [finishSwitch]
    split_ifs <;> rfl

lemma Quiet.holding (t : Thread) (cspace : CSpace) (slot : ℕ) (origin : CallId) :
    t.Quiet (t.holding cspace slot origin) := by
  constructor <;> rfl

end Thread

end CrickerOs.Kernel
