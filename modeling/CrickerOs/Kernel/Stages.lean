import CrickerOs.Kernel.Change

namespace CrickerOs.Kernel

open Slots WakeHandshake Frame

instance (t : Thread) : Decidable t.Parked :=
  inferInstanceAs (Decidable (_ ∧ _))

def Frame.stage (parked : Bool) : Frame → ℕ
  | .delegating _ _ _ _ => 1
  | .calling _ => 2
  | .parked _ => if parked then 2 else 3
  | .returning _ _ => 3
  | .user | .consuming _ => 4

def Thread.stage (t : Thread) (seq : ℕ) : ℕ :=
  if seq < t.seq then 4 else if t.seq < seq then 0 else t.frame.stage t.Parked

def Event.reached : Event → List (CallId × ℕ)
  | .passed call _ _ => [(call, 2)]
  | .handed _ call _ cap _ _ _ => [(call, if cap.object.isReply then 2 else 3)]
  | .collected _ _ => []
  | .replied reply call _ _ _ => [(reply, 4), (call, 3)]
  | .returned call _ _ => [(call, 4)]

variable {v v' : View} {tid : Tid} {t t' : Thread} {n : EpId} {R : Restriction} {seq : ℕ}

namespace Thread

lemma stage_self : t.stage t.seq = t.frame.stage t.Parked := by
  simp [stage]

lemma frame_stage_of_not_parked (h : ¬t.Parked) : t.frame.stage t.Parked = t.frame.stage false := by
  simp [h]

lemma stage_of_lt (h : seq < t.seq) : t.stage seq = 4 :=
  if_pos h

lemma stage_le (hs : t'.seq = t.seq) (h : t.frame.stage t.Parked ≤ t'.frame.stage t'.Parked) :
    t.stage seq ≤ t'.stage seq := by
  rw [stage, stage, hs]
  split_ifs
  · exact le_rfl
  · exact le_rfl
  · exact h

lemma stage_le_of_frame (hs : t'.seq = t.seq) (hf : t'.frame = t.frame) (hp : t'.Parked → t.Parked) :
    t.stage seq ≤ t'.stage seq := by
  refine stage_le hs ?_
  rw [hf]
  cases t.frame with
  | parked p =>
    by_cases h' : t'.Parked
    · simp [stage, h', hp h']
    · by_cases h : t.Parked <;> simp [Frame.stage, h, h']
  | _ => exact le_rfl

lemma le_stage_parked {p q : Prim} {b b' : Bool} (hf : t.frame = .calling p) :
    t.frame.stage b ≤ (parked q).stage b' := by
  cases b' <;> simp [hf, Frame.stage]

lemma stage_act (hr : t.handshake.state = .running) (ha : Act t t') : t.stage seq ≤ t'.stage seq := by
  have hp : ¬t.Parked := (free_of_running hr).1
  cases ha with
  | invoke hf =>
    rcases Nat.lt_or_ge t.seq seq with hlt | hle
    · simp [stage, hlt, Nat.not_lt.mpr hlt.le]
    · rw [stage_of_lt (t := { t with frame := _, seq := _ }) (Nat.lt_succ_of_le hle), stage]
      split_ifs <;> simp [hf, Frame.stage]
  | parkReply hf => exact stage_le rfl (le_stage_parked hf)
  | _ => exact stage_le rfl (by simp_all [Frame.stage])

lemma stage_change (hs : t.Synced) (hc : Change R v v' tid t t') : t.stage seq ≤ t'.stage seq := by
  cases hc with
  | same => exact le_rfl
  | turn hh =>
    refine stage_le_of_frame rfl rfl fun hp => ?_
    obtain ⟨-, hq | ⟨-, hf⟩⟩ := hs.turn hh
    · exact hq.parked.mp hp
    · exact absurd hp hf.1
  | arm | hold => exact stage_le_of_frame rfl rfl id
  | act hr ha => exact stage_act hr ha
  | complete hat | handOver hat | pass hat => exact stage_le rfl (by simp [hat.2, Frame.stage])
  | leave hat => exact stage_le rfl (by simp [hat.2, Frame.stage])
  | park hat => exact stage_le rfl (le_stage_parked hat.2)
  | deliver | answer => exact stage_le_of_frame rfl rfl fun hp => absurd hp t.woken_served.not_parked
  | abort => exact stage_le_of_frame rfl rfl fun hp => absurd hp t.woken_aborted.not_parked
  | corpse => exact stage_le_of_frame rfl rfl id
  | take _ _ htaken =>
    cases htaken with
    | serve => exact stage_le_of_frame rfl rfl fun hp => absurd hp t.woken_served.not_parked
    | abort => exact stage_le_of_frame rfl rfl fun hp => absurd hp t.woken_aborted.not_parked
    | leave _ _ hh =>
      refine stage_le_of_frame rfl rfl fun hp => ?_
      rcases hh with rfl | ⟨-, rfl⟩ <;> exact hp

end Thread

def Staged (v : View) : Prop :=
  ∀ ev ∈ v.trace, ∀ k n, (k, n) ∈ ev.reached → ∀ t, v.th k.tid = some t → n ≤ t.stage k.seq

lemma Thread.Synced.awaits (hs : t.Synced) (hw : t.handshake.waitOn = some (n, .reply)) :
    ∃ p, t.frame = .parked p ∧ p.waitsOn = some (n, .reply) := by
  by_cases hb : t.handshake.state = .blocked
  · exact (hs.blocked hb).imp fun _ h => ⟨h.1, h.2.symm.trans hw⟩
  · by_cases hd : t.handshake.state = .dead
    · rcases hs.dead hd with hn | ⟨m, hm, -⟩
      · simp [hw] at hn
      · simp [hw] at hm
    · simp [hs.awake hb hd] at hw

lemma Thread.Queued.stage (hq : t.Queued tid n) (hs : t.Synced) : 2 ≤ t.frame.stage t.Parked ∧
    3 ≤ t.frame.stage false := by
  cases hq with
  | corpse hd => simp [hs.corpse hd, Frame.stage]
  | send hp hf | sendCap hp hf | call hp hf => simp [hf, hp, Frame.stage]

lemma Logged.reached {ev : Event} (h : Logged R v v' ev) (hv : Linked v) {k : CallId} {m : ℕ}
    (hk : (k, m) ∈ ev.reached) (ht' : v'.th k.tid = some t') : m ≤ t'.stage k.seq := by
  have hself : ∀ {u : Thread}, v'.th k.tid = some u → u.seq = k.seq → m ≤ u.frame.stage u.Parked →
    m ≤ t'.stage k.seq := by
    intro u hu hseq hle
    cases Option.mem_unique ht' hu
    rwa [← hseq, Thread.stage_self]
  cases h with
  | passed _ _ ht1 | returned _ _ ht1 =>
    obtain ⟨rfl, rfl⟩ : k = _ ∧ m = _ := by simpa [Event.reached] using hk
    exact hself ht1 rfl le_rfl
  | collected => simp [Event.reached] at hk
  | handOver _ _ _ _ ht1 =>
    obtain ⟨rfl, rfl⟩ : k = _ ∧ m = _ := by simpa [Event.reached] using hk
    exact hself ht1 rfl (by simp only [stage]; split_ifs <;> omega)
  | callMeets _ _ _ ht1 =>
    obtain ⟨rfl, rfl⟩ : k = _ ∧ m = _ := by simpa [Event.reached] using hk
    refine hself ht1 rfl ?_
    simp only [replyCap, Object.isReply, stage]
    split_ifs <;> omega
  | @collect _ _ t _ _ _ _ ht hq _ _ _ _ ht1 =>
    obtain ⟨rfl, rfl⟩ : k = _ ∧ m = _ := by simpa [Event.reached] using hk
    refine hself ht1 rfl ?_
    change _ ≤ t.served.frame.stage t.served.Parked
    rw [Thread.frame_stage_of_not_parked t.woken_served.not_parked]
    refine le_trans ?_ (hq.stage (hv.synced ht)).2
    split_ifs <;> omega
  | collectCall ht hq _ _ _ ht1 =>
    obtain ⟨rfl, rfl⟩ : k = _ ∧ m = _ := by simpa [Event.reached] using hk
    exact hself ht1 rfl (hq.stage (hv.synced ht)).1
  | @replied _ _ _ _ _ _ tc _ ht hat hc hw ht1 hc1 =>
    rcases (by simpa [Event.reached] using hk : (k = _ ∧ m = _) ∨ (k = _ ∧ m = _)) with ⟨rfl, rfl⟩ | ⟨rfl, rfl⟩
    · exact hself ht1 rfl le_rfl
    · refine hself hc1 rfl ?_
      obtain ⟨p, hf, -⟩ := (hv.synced hc).awaits hw
      change _ ≤ tc.served.frame.stage tc.served.Parked
      rw [Thread.frame_stage_of_not_parked tc.woken_served.not_parked]
      simp [stage, Thread.served, hf]

lemma Staged.micro (hs : Staged v) (hv : Linked v) (h : Micro R v v') : Staged v' := by
  intro ev hev k m hk t' ht'
  have hold : ev ∈ v.trace → m ≤ t'.stage k.seq := by
    intro hmem
    obtain ⟨t, ht, hc⟩ := h.changed hv k.tid t' ht'
    exact (hs ev hmem k m hk t ht).trans (Thread.stage_change (hv.synced ht) hc)
  obtain heq | ⟨e, heq, hlog⟩ := h.logged hv
  · exact hold (heq ▸ hev)
  · rw [heq] at hev
    rcases List.mem_cons.mp hev with rfl | hmem
    · exact hlog.reached hv hk ht'
    · exact hold hmem

end CrickerOs.Kernel
