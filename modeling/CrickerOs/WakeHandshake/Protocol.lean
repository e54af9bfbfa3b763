import CrickerOs.Library.Runs
import CrickerOs.WakeHandshake.Handshake

namespace CrickerOs.WakeHandshake

open Library Handshake

variable {W : Type*}

inductive HandshakeCall (W : Type*)
  | park (wait : W)
  | serve
  | abort
  | takeAborted
  | tryWake
  | preempt
  | switchAway
  | finishSwitch
  | switchIn
  deriving DecidableEq, Repr

/-- A handshake and what the cores around it have done, with the verdicts to queue the thread since the last
`park`. -/
structure Protocol (W : Type*) where
  handshake : Handshake W
  switchedAway : Bool
  preempted : Bool
  entries : ℕ
  answered : Bool
  verdicts : ℕ
  deriving DecidableEq, Repr

namespace Protocol

def born (handshake : Handshake W) (entries : ℕ) : Protocol W :=
  { handshake, switchedAway := false, preempted := false, entries, answered := false, verdicts := 0 }

def Start (p : Protocol W) : Prop :=
  p = born .onCpuNow 0 ∨ p = born .ready 1 ∨ p = born .embryo 0

def Discipline (p : Protocol W) : HandshakeCall W → Prop
  | .park _ => p.handshake.state = .running ∧ p.handshake.ipcAborted = false
  | .preempt => p.handshake.state = .running
  | .switchAway => p.handshake.onCpu ∧ p.handshake.state ≠ .running ∧ p.switchedAway = false
  | .finishSwitch => p.switchedAway
  | .switchIn => 0 < p.entries
  | .serve | .abort | .takeAborted | .tryWake => True

instance (p : Protocol W) : (c : HandshakeCall W) → Decidable (p.Discipline c)
  | .park _ | .switchAway => inferInstanceAs (Decidable (_ ∧ _))
  | .preempt => inferInstanceAs (Decidable (_ = _))
  | .finishSwitch => inferInstanceAs (Decidable (_ = true))
  | .switchIn => inferInstanceAs (Decidable (0 < p.entries))
  | .serve | .abort | .takeAborted | .tryWake => isTrue trivial

def queue (p : Protocol W) : Protocol W :=
  { p with entries := p.entries + 1, verdicts := p.verdicts + 1 }

def tryWake (p : Protocol W) : Protocol W :=
  let (verdict, handshake) := p.handshake.tryWake
  let p := { p with handshake }
  if verdict = .queue then p.queue else p

def finishSwitch (p : Protocol W) : Protocol W :=
  let (verdict, handshake) := p.handshake.finishSwitch
  let p' := { p with handshake, switchedAway := false, preempted := false }
  if verdict = .wakeCompleted then p'.queue
  else if p.preempted then { p' with entries := p'.entries + 1 }
  else p'

def step (p : Protocol W) : HandshakeCall W → Option (Protocol W)
  | .park wait => some { p with handshake := p.handshake.park wait, answered := false, verdicts := 0 }
  | .serve => some { p with handshake := p.handshake.serve, answered := true }
  | .abort => some { p with handshake := p.handshake.abort, answered := true }
  | .takeAborted => some { p with handshake := p.handshake.takeAborted.2 }
  | .tryWake => some p.tryWake
  | .preempt => some { p with handshake := p.handshake.preempt, preempted := true }
  | .switchAway => some { p with switchedAway := true }
  | .finishSwitch => some p.finishSwitch
  | .switchIn => some { p with handshake := p.handshake.switchIn, entries := p.entries - 1 }

/-- Where the thread is: on its core, parked there, parked and gone from it, preempted there, or in a queue. -/
inductive Phase (p : Protocol W) : Prop
  | embryo (hstate : p.handshake.state = .embryo) (hcpu : p.handshake.onCpu = false)
      (haway : p.switchedAway = false) (hentries : p.entries = 0)
  | running (hstate : p.handshake.state = .running) (hcpu : p.handshake.onCpu)
      (haway : p.switchedAway = false) (hpreempted : p.preempted = false) (hentries : p.entries = 0)
      (hpending : p.handshake.wakePending = false)
  | parked (hstate : p.handshake.state = .blocked) (hwait : p.handshake.waitOn.isSome)
      (haway : p.switchedAway → p.handshake.onCpu) (hpreempted : p.preempted = false) (hentries : p.entries = 0)
      (hdelivered : p.handshake.delivered → p.answered) (hverdicts : p.verdicts = 0)
      (hpending : p.handshake.wakePending → p.handshake.onCpu ∧ p.answered)
  | preempted (hstate : p.handshake.state = .ready) (hcpu : p.handshake.onCpu)
      (hpreempted : p.preempted) (hentries : p.entries = 0) (hpending : p.handshake.wakePending = false)
  | queued (hstate : p.handshake.state = .ready) (hcpu : p.handshake.onCpu = false)
      (haway : p.switchedAway = false) (hpreempted : p.preempted = false) (hentries : p.entries = 1)
      (hpending : p.handshake.wakePending = false)

end Protocol

namespace Handshake

variable {h : Handshake W}

lemma tryWake_of_ne (hs : h.state ≠ .blocked) : h.tryWake = (.notBlocked, h) := by
  rw [tryWake, if_pos hs]

lemma tryWake_refused (hs : h.state = .blocked) (hw : h.waitOn.isSome) (hd : h.delivered = false) :
    h.tryWake = (.refused, h) := by
  rw [tryWake, if_neg (by simp [hs]), if_pos ⟨hw, hd⟩]

lemma tryWake_deferred (hs : h.state = .blocked) (hd : h.delivered) (hc : h.onCpu) :
    h.tryWake = (.deferred, { h with wakePending := true }) := by
  rw [tryWake, if_neg (by simp [hs]), if_neg (by simp [hd]), if_pos hc]

lemma tryWake_queue (hs : h.state = .blocked) (hd : h.delivered) (hc : h.onCpu = false) :
    h.tryWake = (.queue, { h with state := .ready, waitOn := none }) := by
  rw [tryWake, if_neg (by simp [hs]), if_neg (by simp [hd]), if_neg (by simp [hc])]

lemma finishSwitch_wakeCompleted (hs : h.state ≠ .finished) (hp : h.wakePending) :
    h.finishSwitch =
      (.wakeCompleted, { h with onCpu := false, wakePending := false, state := .ready, waitOn := none }) := by
  rw [finishSwitch, if_neg hs, if_pos hp]

lemma finishSwitch_cleared (hs : h.state ≠ .finished) (hp : h.wakePending = false) :
    h.finishSwitch = (.cleared, { h with onCpu := false }) := by
  rw [finishSwitch, if_neg hs, if_neg (by simp [hp])]

end Handshake

namespace Protocol

variable {p p' : Protocol W} {c : HandshakeCall W}

lemma Start.phase (h : p.Start) : p.Phase := by
  rcases h with rfl | rfl | rfl
  · exact .running rfl rfl rfl rfl rfl rfl
  · exact .queued rfl rfl rfl rfl rfl rfl
  · exact .embryo rfl rfl rfl rfl

section

variable (h : p.Phase)
include h

lemma Phase.parked_of_queue (hq : p.handshake.tryWake.1 = .queue) :
    p.answered ∧ p.verdicts = 0 ∧ p.handshake.onCpu = false := by
  unfold Handshake.tryWake at hq
  split_ifs at hq with hstate hgate hcpu
  simp only [not_not] at hstate
  simp only [Bool.not_eq_true] at hcpu
  cases h with
  | parked _ hwait _ _ _ hdelivered hverdicts _ => exact ⟨hdelivered (by simp_all), hverdicts, hcpu⟩
  | embryo | running | preempted | queued => simp_all

lemma Phase.answered_of_wakeCompleted (hd : p.Discipline .finishSwitch)
    (hw : p.handshake.finishSwitch.1 = .wakeCompleted) : p.answered ∧ p.verdicts = 0 := by
  unfold Handshake.finishSwitch at hw
  split_ifs at hw with hfinished hpending
  cases h with
  | parked _ _ _ _ _ _ hverdicts hwake => exact ⟨(hwake hpending).2, hverdicts⟩
  | embryo _ _ haway | running _ _ haway | queued _ _ haway => simp [Discipline, haway] at hd
  | preempted _ _ _ _ hpending' => simp [hpending'] at hpending

lemma Phase.of_switchIn (hd : p.Discipline .switchIn) :
    p.handshake.onCpu = false ∧ p.handshake.state = .ready := by
  cases h with
  | queued hstate hcpu => exact ⟨hcpu, hstate⟩
  | embryo _ _ _ hentries | running _ _ _ _ hentries | parked _ _ _ _ hentries | preempted _ _ _ hentries =>
    simp [Discipline, hentries] at hd

lemma Phase.reflag (served aborted answered : Bool) (hkeep : p.answered → answered)
    (hcover : served || aborted → p.handshake.delivered ∨ answered) :
    Phase { p with
      handshake := { p.handshake with ipcServed := served, ipcAborted := aborted }
      answered } := by
  cases h with
  | embryo hstate hcpu haway hentries => exact .embryo hstate hcpu haway hentries
  | running hstate hcpu haway hpreempted hentries hpending =>
    exact .running hstate hcpu haway hpreempted hentries hpending
  | parked hstate hwait haway hpreempted hentries hdelivered hverdicts hpending =>
    refine .parked hstate hwait haway hpreempted hentries (fun h => ?_) hverdicts fun h => ?_
    · exact (hcover h).elim (fun h => hkeep (hdelivered h)) id
    · exact ⟨(hpending h).1, hkeep (hpending h).2⟩
  | preempted hstate hcpu hpreempted hentries hpending => exact .preempted hstate hcpu hpreempted hentries hpending
  | queued hstate hcpu haway hpreempted hentries hpending =>
    exact .queued hstate hcpu haway hpreempted hentries hpending

lemma Phase.tryWake : p.tryWake.Phase := by
  unfold Protocol.tryWake
  by_cases hblocked : p.handshake.state = .blocked
  · cases h with
    | parked hstate hwait haway hpreempted hentries hdelivered hverdicts hpending =>
      cases hgate : p.handshake.delivered with
      | false =>
        rw [tryWake_refused hstate hwait hgate]
        exact .parked hstate hwait haway hpreempted hentries hdelivered hverdicts hpending
      | true =>
        have hanswered := hdelivered hgate
        cases hcpu : p.handshake.onCpu with
        | true =>
          rw [tryWake_deferred hstate hgate hcpu]
          exact .parked hstate hwait haway hpreempted hentries hdelivered hverdicts fun _ => ⟨hcpu, hanswered⟩
        | false =>
          have hback : p.switchedAway = false := by
            by_contra hs
            simp [haway (by simpa using hs)] at hcpu
          have hidle : p.handshake.wakePending = false := by
            by_contra hp
            simp [(hpending (by simpa using hp)).1] at hcpu
          rw [tryWake_queue hstate hgate hcpu]
          exact .queued rfl hcpu hback hpreempted (congrArg (· + 1) hentries) hidle
    | embryo hstate | running hstate | preempted hstate | queued hstate => simp [hblocked] at hstate
  · rw [tryWake_of_ne hblocked]
    exact h

lemma Phase.finishSwitch (hd : p.switchedAway) : p.finishSwitch.Phase := by
  unfold Protocol.finishSwitch
  cases h with
  | parked hstate hwait haway hpreempted hentries hdelivered hverdicts hpending =>
    cases hp : p.handshake.wakePending with
    | true =>
      rw [finishSwitch_wakeCompleted (by simp [hstate]) hp]
      exact .queued rfl rfl rfl rfl (congrArg (· + 1) hentries) rfl
    | false =>
      rw [finishSwitch_cleared (by simp [hstate]) hp]
      simp only [reduceCtorEq, if_false, hpreempted, Bool.false_eq_true]
      exact .parked hstate hwait (by simp) rfl hentries hdelivered hverdicts (by simp [hp])
  | preempted hstate hcpu hpreempted hentries hpending =>
    rw [finishSwitch_cleared (by simp [hstate]) hpending]
    simp only [reduceCtorEq, if_false, hpreempted, if_true]
    exact .queued hstate rfl rfl rfl (congrArg (· + 1) hentries) hpending
  | embryo _ _ haway | running _ _ haway | queued _ _ haway => simp [haway] at hd

lemma Phase.step (hd : p.Discipline c) (hs : p.step c = some p') : p'.Phase := by
  cases c with
  | park wait =>
    cases hs
    obtain ⟨hrunning, habort⟩ := hd
    cases h with
    | running hstate hcpu haway hpreempted hentries hpending =>
      refine .parked rfl rfl (by simp [haway]) hpreempted hentries (fun hd => ?_) rfl (fun hp => ?_)
      · simp [delivered, park, habort] at hd
      · simp [park, hpending] at hp
    | embryo hstate | parked hstate | preempted hstate | queued hstate => simp [hstate] at hrunning
  | serve =>
    cases hs
    exact h.reflag true p.handshake.ipcAborted true (fun _ => rfl) fun _ => .inr rfl
  | abort =>
    cases hs
    exact h.reflag p.handshake.ipcServed true true (fun _ => rfl) fun _ => .inr rfl
  | takeAborted =>
    cases hs
    exact h.reflag p.handshake.ipcServed false p.answered id fun hserved => .inl (by simp_all [delivered])
  | tryWake => exact Option.some.inj hs ▸ h.tryWake
  | preempt =>
    cases hs
    cases h with
    | running hstate hcpu haway hpreempted hentries hpending => exact .preempted rfl hcpu rfl hentries hpending
    | embryo hstate | parked hstate | preempted hstate | queued hstate => simp [Discipline, hstate] at hd
  | switchAway =>
    cases hs
    obtain ⟨hon, hleft, -⟩ := hd
    cases h with
    | parked hstate hwait haway hpreempted hentries hdelivered hverdicts hpending =>
      exact .parked hstate hwait (fun _ => hon) hpreempted hentries hdelivered hverdicts hpending
    | preempted hstate hcpu hpreempted hentries hpending =>
        exact .preempted hstate hcpu hpreempted hentries hpending
    | running hstate => exact absurd hstate hleft
    | embryo _ hcpu | queued _ hcpu => simp [hcpu] at hon
  | finishSwitch => exact Option.some.inj hs ▸ h.finishSwitch hd
  | switchIn =>
    cases hs
    cases h with
    | queued hstate hcpu haway hpreempted hentries hpending =>
      exact .running rfl rfl haway hpreempted (by simp [hentries]) hpending
    | embryo _ _ _ hentries | running _ _ _ _ hentries | parked _ _ _ _ hentries | preempted _ _ _ hentries =>
      simp [Discipline, hentries] at hd

lemma verdicts_step (hle : p.verdicts ≤ 1) (hd : p.Discipline c) (hs : p.step c = some p') :
    p'.verdicts ≤ 1 := by
  cases c with
  | tryWake =>
    cases hs
    unfold Protocol.tryWake
    dsimp only
    split
    · rename_i hq
      exact (congrArg (· + 1) (h.parked_of_queue hq).2.1).le
    · exact hle
  | finishSwitch =>
    cases hs
    unfold Protocol.finishSwitch
    dsimp only
    split_ifs with hw
    · exact (congrArg (· + 1) (h.answered_of_wakeCompleted hd hw).2).le
    · exact hle
    · exact hle
  | park => exact Option.some.inj hs ▸ Nat.zero_le 1
  | serve | abort | takeAborted | preempt | switchAway | switchIn => exact Option.some.inj hs ▸ hle

end

/-- At most one verdict to queue the thread since the last `park`, and only a saved and ready thread is switched
in. -/
theorem handshake_resumes_saved_and_delivered (hrun : Reach step Discipline Start p) :
    p.verdicts ≤ 1 ∧
      (p.handshake.tryWake.1 = .queue → p.verdicts = 0 ∧ p.answered ∧ p.handshake.onCpu = false) ∧
      (p.Discipline .finishSwitch → p.handshake.finishSwitch.1 = .wakeCompleted →
        p.verdicts = 0 ∧ p.answered ∧ p.handshake.finishSwitch.2.onCpu = false) ∧
      (p.Discipline .switchIn →
        p.handshake.onCpu = false ∧ (p.handshake.state = .ready ∨ p.handshake.state = .running)) := by
  have hinv : p.Phase ∧ p.verdicts ≤ 1 := by
    refine hrun.invariant (fun p => p.Phase ∧ p.verdicts ≤ 1) (fun p h => ⟨h.phase, ?_⟩) ?_
    · rcases h with rfl | rfl | rfl <;> exact Nat.zero_le 1
    · intro p c p' h hd hs
      exact ⟨h.1.step hd hs, verdicts_step h.1 h.2 hd hs⟩
  obtain ⟨hphase, hle⟩ := hinv
  refine ⟨hle, fun hq => ?_, fun hd hw => ?_, fun hd => ?_⟩
  · obtain ⟨hanswered, hzero, hcpu⟩ := hphase.parked_of_queue hq
    exact ⟨hzero, hanswered, hcpu⟩
  · obtain ⟨hanswered, hzero⟩ := hphase.answered_of_wakeCompleted hd hw
    refine ⟨hzero, hanswered, ?_⟩
    unfold Handshake.finishSwitch at hw ⊢
    split_ifs at hw ⊢
    rfl
  · obtain ⟨hcpu, hready⟩ := hphase.of_switchIn hd
    exact ⟨hcpu, .inl hready⟩

theorem handshake_resumes_saved_and_delivered_raced :
    ∃ p : Protocol ℕ, execute step Discipline (born .onCpuNow 0)
        [.park 3, .serve, .tryWake, .abort, .switchAway, .tryWake, .finishSwitch, .tryWake] = some p ∧
      (p.verdicts = 1 ∧ p.Discipline .switchIn) ∧ p.verdicts ≤ 1 ∧
      (p.handshake.tryWake.1 = .queue → p.verdicts = 0 ∧ p.answered ∧ p.handshake.onCpu = false) ∧
      (p.Discipline .finishSwitch → p.handshake.finishSwitch.1 = .wakeCompleted →
        p.verdicts = 0 ∧ p.answered ∧ p.handshake.finishSwitch.2.onCpu = false) ∧
      (p.Discipline .switchIn →
        p.handshake.onCpu = false ∧ (p.handshake.state = .ready ∨ p.handshake.state = .running)) :=
  Reach.exists_execute (.inl rfl) (fun _ hrun _ => handshake_resumes_saved_and_delivered hrun) (by decide)

end Protocol

end CrickerOs.WakeHandshake
