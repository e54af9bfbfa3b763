import CrickerOs.Kernel.Meetings
import CrickerOs.Kernel.OneReply

namespace CrickerOs.Kernel

open Slots WakeHandshake Library Scheduler Thread Frame Option

variable {T E : ℕ} {s s' : Scheduler T E} {a : Action} {tid : Tid} {t t' : Thread} {c : CallId} {p : Prim}

/-- In this step the call `c`, in the primitive `p`, finds its endpoint stale, or is parked on it while it is
destroyed. -/
inductive Deprives (s : Scheduler T E) (a : Action) (s' : Scheduler T E) (c : CallId) (p : Prim) : Prop
  | stale {t n role} : a = .enter c.tid → s.threads.get c.tid = some t → t.seq = c.seq → t.frame = .calling p →
      p.waitsOn = some (n, role) → s.endpointOf n = none → Deprives s a s' c p
  | destroyed {t n e} : s.threads.get c.tid = some t → t.seq = c.seq → t.frame = .parked p →
      s.endpointOf n = some e → c.tid ∈ e.drainWaiters → s'.endpointOf n = none → Deprives s a s' c p

def Meets (s : Scheduler T E) (a : Action) (c : CallId) : Prop :=
  c.tid ∈ s.meets a ∧ ∃ t p, s.threads.get c.tid = some t ∧ t.seq = c.seq ∧
    (t.frame = .calling p ∨ t.frame = .parked p)

section

variable {n : EpId} {e : Ipc.Endpoint Tid}

lemma told_of_gone (h : s.step a = some s') (he : s.endpointOf n = some e) (hmem : tid ∈ e.drainWaiters)
    (hgone : s'.endpointOf n = none) (ht' : s'.threads.get tid = some t') : t'.handshake.ipcAborted = true := by
  obtain ⟨-, base, limit, rfl⟩ := meets_of_gone h he hgone
  cases h
  obtain ⟨armed, hdrained, hthinned⟩ := reap_drained s base limit
  have hface : (s.reapRegionObjects base limit).2.faceOf tid = some t'.face := by
    rw [faceOf, ht', map_some]
  obtain ⟨before, -, hiff⟩ := hdrained.faces (hthinned.faces hface)
  exact hiff.mpr (.inr ⟨n, e, he, hmem, (hthinned.gone n).mp hgone⟩)

lemma enter_stale {n : EpId} {role : WaitRole} (h : s.step (.enter tid) = some s')
    (ht : s.threads.get tid = some t) (hf : t.frame = .calling p) (hw : p.waitsOn = some (n, role))
    (hnone : s.endpointOf n = none) :
    s.running tid = some t ∧ ∃ words, s' = (s.setIpcAborted tid).setFrame tid (.returning p words) := by
  obtain ⟨u, q, hu, hframe, rfl⟩ := enter_eq h
  obtain rfl : u = t := some.inj ((running_eq_some hu).1.symm.trans ht)
  obtain rfl : q = p := by simpa [hf] using hframe.symm
  obtain ⟨words, hrun, hafter⟩ := runPrim_stale tid hw hnone
  exact ⟨hu, words, by rw [hrun, hafter]⟩

namespace Deprives

lemma thread (h : Deprives s a s' c p) : ∃ t, s.threads.get c.tid = some t ∧ t.seq = c.seq ∧
    (a = .enter c.tid ∧ t.frame = .calling p ∨ t.frame = .parked p ∧ s.Queued c.tid) := by
  cases h with
  | stale ha ht hseq hf => exact ⟨_, ht, hseq, .inl ⟨ha, hf⟩⟩
  | destroyed ht hseq hf he hmem => exact ⟨_, ht, hseq, .inr ⟨hf, _, _, he, hmem⟩⟩

lemma told (hd : Deprives s a s' c p) (h : s.step a = some s') (ht' : s'.threads.get c.tid = some t') :
    t'.handshake.ipcAborted = true := by
  cases hd with
  | @stale t n role ha ht _ hf hw hnone =>
    subst ha
    obtain ⟨-, words, rfl⟩ := enter_stale h ht hf hw hnone
    simp only [setFrame, setIpcAborted, get_modifyThread, if_true, ht, map_some,
      some.injEq] at ht'
    rw [← ht']
    rfl
  | destroyed _ _ _ he hmem hgone => exact told_of_gone h he hmem hgone ht'

lemma not_queued (hd : Deprives s a s' c p) (hv : Linked s.view) (h : s.step a = some s') : ¬s'.Queued c.tid := by
  cases hd with
  | @stale t n role ha ht _ hf hw hnone =>
    subst ha
    obtain ⟨hu, words, rfl⟩ := enter_stale h ht hf hw hnone
    exact hv.not_queued_of_running hu
  | @destroyed t n e ht _ hf he hmem hgone =>
    rintro ⟨m, f', hf', hm⟩
    obtain ⟨-, base, limit, rfl⟩ := meets_of_gone h he hgone
    cases step_requeue h with
    | same hsame => simp [hsame, he] at hgone
    | enter ha | signal ha | depart ha => simp at ha
    | reap _ hqueues =>
      obtain ⟨f, hf, hsub⟩ := hqueues hf'
      cases hv.one_queue he hf hmem (hsub hm)
      simp [hgone] at hf'

lemma not_meets (hd : Deprives s a s' c p) (h : s.step a = some s') : c.tid ∉ s.meets a := by
  cases hd with
  | @stale t n role ha ht _ hf hw hnone =>
    subst ha
    obtain ⟨u, q, hu, hframe, -⟩ := enter_eq h
    obtain rfl : u = t := some.inj ((running_eq_some hu).1.symm.trans ht)
    simp [meets, hu, hf, hw, hnone]
  | destroyed _ _ _ he _ hgone => simp [(meets_of_gone h he hgone).1]

end Deprives

lemma Micros.dead {v v' : View} (hv : Linked v) (h : Micros unrestricted v v') (ht : v.th tid = some t)
    (hd : t.handshake.state = .dead) (ht' : v'.th tid = some t') : t'.handshake.state = .dead := by
  induction h generalizing t' with
  | refl =>
    cases mem_unique ht ht'
    exact hd
  | tail hs h ih =>
    have hlinked := hv.micros hs
    obtain ⟨u, hu, hc⟩ := h.changed hlinked tid t' ht'
    exact hc.dead (hlinked.synced hu) (ih hu)

lemma step_dead (hv : Linked s.view) (hr : Replies s.view) (h : s.step a = some s')
    (ht : s.threads.get tid = some t) (ht' : s'.threads.get tid = some t') (hd : t.handshake.state = .dead) :
    t'.handshake.state = .dead :=
  (step_micros hv hr (permits_unrestricted a) h).dead hv ht hd ht'

end

section

variable {words : Option (List ℕ)}

lemma returned_of_filter (h : s'.trace.filter Event.isReturned = s.trace.filter Event.isReturned)
    (hmem : .returned c p words ∈ s'.trace) : .returned c p words ∈ s.trace := by
  have hret : Event.returned c p words ∈ s'.trace.filter Event.isReturned := List.mem_filter.mpr ⟨hmem, rfl⟩
  rw [h] at hret
  exact List.mem_of_mem_filter hret

lemma enter_returns {x : Tid} (h : s.enter x = some s') :
    s'.trace.filter Event.isReturned = s.trace.filter Event.isReturned := by
  obtain ⟨u, q, hu, hframe, rfl⟩ := enter_eq h
  by_cases hlive : ∀ n role, q.waitsOn = some (n, role) → (s.endpointOf n).isSome
  · exact (runPrim_silent x hlive).returns
  · push Not at hlive
    obtain ⟨n, role, hwaits, hnone⟩ := hlive
    obtain ⟨w, hrun, -⟩ := runPrim_stale x hwaits (by simpa using hnone)
    rw [hrun]
    rfl

lemma step_returned (h : s.step a = some s') (hmem : .returned c p words ∈ s'.trace) :
    .returned c p words ∈ s.trace ∨ a = .leave c.tid ∧ ∃ t out, s.threads.get c.tid = some t ∧ t.seq = c.seq ∧
      t.frame = .returning p out ∧ ((∀ n, p ≠ .wait n) → words = p.result t.handshake.ipcAborted out) ∧
      ∀ t', s'.threads.get c.tid = some t' → t'.seq = c.seq ∧ t'.frame = .user := by
  cases a with
  | enter => exact .inl (returned_of_filter (enter_returns h) hmem)
  | switchIn => exact .inl (returned_of_filter (switchIn_silent h).returns hmem)
  | schedule => exact .inl (returned_of_filter (schedule_silent h).returns hmem)
  | capDelete => exact .inl (returned_of_filter (capDelete_silent h).returns hmem)
  | depart => exact .inl (returned_of_filter (departs_silent h).returns hmem)
  | irqNotify =>
    cases h
    exact .inl (returned_of_filter irqNotify_silent.returns hmem)
  | reapRegionObjects base limit =>
    cases h
    obtain ⟨armed, hdrained, hthinned⟩ := reap_drained s base limit
    exact .inl (returned_of_filter (hthinned.returns.trans hdrained.returns) hmem)
  | leave x =>
    simp only [step, leave] at h
    split at h
    · simp at h
    · rename_i u hu
      have hget : s.threads.get x = some u := (running_eq_some hu).1
      split at h
      · rename_i q out hframe
        cases h
        rcases List.mem_cons.mp hmem with heq | hold
        · right
          obtain ⟨rfl, rfl, rfl⟩ := Event.returned.inj heq
          have hseq : (s.callOf x).seq = u.seq := by simp [callOf, hget]
          refine ⟨rfl, u, out, hget, hseq.symm, hframe, ?_, ?_⟩
          · intro hwait
            cases p with
            | wait n => exact absurd rfl (hwait n)
            | _ => rfl
          · intro t' ht'
            have hself : (s.modifyThread x _).threads.get x = some t' := ht'
            rw [get_modifyThread, if_pos rfl, hget] at hself
            cases hself
            exact ⟨hseq.symm, rfl⟩
        · exact .inl hold
      · simp at h
  | finishSwitch => exact .inl ((finishSwitch_rest h).2 ▸ hmem)
  | invoke | resolve | resume | consume =>
    left
    simp only [step, invoke, resolve, resume, consume] at h
    repeat' split at h
    all_goals first
      | (simp at h; done)
      | (cases h; exact hmem)
      | (cases h; simpa [Scheduler.record, Scheduler.setFrame, Scheduler.modifyThread] using hmem)

end

section

abbrev Steps (T E : ℕ) := List (Scheduler T E × Action × Scheduler T E)

def Steps.Deprived (steps : Steps T E) (c : CallId) (p : Prim) : Prop := ∃ x ∈ steps, Deprives x.1 x.2.1 x.2.2 c p

def Steps.Met (steps : Steps T E) (c : CallId) : Prop := ∃ x ∈ steps, Meets x.1 x.2.1 c

def Steps.Spared (steps : Steps T E) (c : CallId) : Prop :=
  ∀ b n, steps.Deprived b (.wait n) → b.tid = c.tid → c.seq ≤ b.seq

variable {steps : Steps T E}

lemma deprived_cons : Steps.Deprived ((s, a, s') :: steps) c p ↔ Deprives s a s' c p ∨ steps.Deprived c p := by
  simp [Steps.Deprived]

lemma met_cons : Steps.Met ((s, a, s') :: steps) c ↔ Meets s a c ∨ steps.Met c := by
  simp [Steps.Met]

lemma Steps.Spared.tail {x : Scheduler T E × Action × Scheduler T E} (h : Steps.Spared (x :: steps) c) :
    steps.Spared c := by
  rintro b n ⟨y, hy, hd⟩ htid
  exact h b n ⟨y, List.mem_cons_of_mem _ hy, hd⟩ htid

structure Told (steps : Steps T E) (s : Scheduler T E) (tid : Tid) (t : Thread) : Prop where
  recent : ∀ c p, c.tid = tid → steps.Deprived c p ∨ steps.Met c → c.seq ≤ t.seq
  idle : steps.Spared (t.call tid) → t.frame = .user ∨ (∃ slot, t.frame = .consuming slot) →
    t.handshake.ipcAborted = true → t.handshake.state = .dead ∨ ∃ n, steps.Deprived (t.call tid) (.wait n)
  opening : t.frame.opens → (steps.Spared (t.call tid) → t.handshake.ipcAborted = false) ∧
    ¬steps.Met (t.call tid) ∧ ∀ p, ¬steps.Deprived (t.call tid) p
  parked : ∀ p, t.frame = .parked p → steps.Deprived (t.call tid) p ∨ steps.Met (t.call tid) → ¬s.Queued tid
  inside : ∀ p, t.frame = .parked p ∨ (∃ words, t.frame = .returning p words) →
    (steps.Spared (t.call tid) → (t.handshake.ipcAborted = true ↔ steps.Deprived (t.call tid) p)) ∧
      (steps.Deprived (t.call tid) p → ¬steps.Met (t.call tid))

lemma Deprives.seq_le (h : Deprives s a s' c p) (ht : s.threads.get c.tid = some t) : c.seq = t.seq := by
  obtain ⟨u, hu, hseq, -⟩ := h.thread
  cases mem_unique ht hu
  exact hseq.symm

lemma Meets.seq_le (h : Meets s a c) (ht : s.threads.get c.tid = some t) : c.seq = t.seq := by
  obtain ⟨-, u, p, hu, hseq, -⟩ := h
  cases mem_unique ht hu
  exact hseq.symm

lemma Stride.seq_le (h : Stride s a s' tid t t') : t.seq ≤ t'.seq := by
  cases h with
  | kept hface => simp_all [face]
  | told _ hseq | resolve _ _ hseq | stale _ _ _ _ _ hseq | enter _ _ _ _ hseq | resume _ _ _ hseq
  | leave _ _ _ hseq | consume _ _ hseq => omega
  | invoke _ _ _ hseq => omega

namespace Told

lemma recent_step (h : Told steps s tid t) (ht : s.threads.get tid = some t) (hstride : Stride s a s' tid t t') :
    ∀ c p, c.tid = tid → Steps.Deprived ((s, a, s') :: steps) c p ∨ Steps.Met ((s, a, s') :: steps) c →
      c.seq ≤ t'.seq := by
  rintro c p rfl hc
  refine le_trans ?_ hstride.seq_le
  rw [deprived_cons, met_cons] at hc
  rcases hc with (hd | hd) | (hm | hm)
  · exact (hd.seq_le ht).le
  · exact h.recent c p rfl (.inl hd)
  · exact (hm.seq_le ht).le
  · exact h.recent c p rfl (.inr hm)

lemma now_of_frame (hv : Linked s.view) (h : s.step a = some s') (ht : s.threads.get tid = some t)
    (hnot : ∀ p, t.frame ≠ .parked p) (ha : a ≠ .enter tid) :
    ¬Meets s a (t.call tid) ∧ ∀ p, ¬Deprives s a s' (t.call tid) p := by
  constructor
  · rintro ⟨hmem, u, p, hu, -, hf⟩
    cases mem_unique ht hu
    rcases (meets_leaves hv h hmem).1 with henter | hq
    · exact ha henter
    · rcases hv.parked_of_queued ht hq with ⟨-, q, hq⟩ | ⟨-, huser⟩
      · exact hnot q hq
      · simp [huser] at hf
  · intro p hd
    obtain ⟨u, hu, -, ⟨henter, -⟩ | ⟨hf, -⟩⟩ := hd.thread
    · exact ha henter
    · cases mem_unique ht hu
      exact hnot p hf

lemma keep (hI : Told steps s tid t) (hv : Linked s.view) (hr : Replies s.view) (h : s.step a = some s')
    (ht : s.threads.get tid = some t) (ht' : s'.threads.get tid = some t') (hstride : Stride s a s' tid t t')
    (ha : a ≠ .enter tid) (hframe : t'.frame = t.frame) (hseq : t'.seq = t.seq)
    (hflag : t'.handshake.ipcAborted = t.handshake.ipcAborted ∨
      s.Queued tid ∧ t'.handshake.ipcAborted = true ∧ ∀ p, t.frame = .parked p → Deprives s a s' (t.call tid) p) :
    Told ((s, a, s') :: steps) s' tid t' := by
  refine ⟨hI.recent_step ht hstride, ?_, ?_, ?_, ?_⟩ <;> rw [call_congr hseq, hframe]
  · intro hspared hf haborted
    rcases hflag with hflag | ⟨hq, -⟩
    · rcases hI.idle hspared.tail hf (hflag ▸ haborted) with hd | ⟨n, hn⟩
      · exact .inl (step_dead hv hr h ht ht' hd)
      · exact .inr ⟨n, deprived_cons.mpr (.inr hn)⟩
    · left
      rcases hv.parked_of_queued ht hq with ⟨-, q, hq⟩ | ⟨hd, -⟩
      · simp [hq] at hf
      · exact step_dead hv hr h ht ht' hd
  · intro hopens
    have hnot : ∀ p, t.frame ≠ .parked p := by
      intro p hp
      simp [hp, opens] at hopens
    obtain ⟨hm, hd⟩ := now_of_frame hv h ht hnot ha
    obtain ⟨hold, hmet, hdep⟩ := hI.opening hopens
    refine ⟨fun hspared => ?_, ?_, ?_⟩
    · rcases hflag with hflag | ⟨hq, -⟩
      · exact hflag.trans (hold hspared.tail)
      · rcases hv.parked_of_queued ht hq with ⟨-, q, hq⟩ | ⟨-, huser⟩
        · exact absurd hq (hnot q)
        · simp [huser, opens] at hopens
    · rw [met_cons]
      exact not_or.mpr ⟨hm, hmet⟩
    · intro p
      rw [deprived_cons]
      exact not_or.mpr ⟨hd p, hdep p⟩
  · intro p hp hsettled hq
    have hold : s.Queued tid := by
      rcases step_queued h hq with hold | ⟨henter, -⟩ | ⟨_, _, _, u, -, hu, huser⟩
      · exact hold
      · exact absurd henter ha
      · cases some.inj (ht.symm.trans (running_eq_some hu).1)
        simp [hp] at huser
    rw [deprived_cons, met_cons] at hsettled
    rcases hsettled with (hd | hd) | (hm | hm)
    · exact hd.not_queued hv h hq
    · exact hI.parked p hp (.inl hd) hold
    · exact (meets_leaves hv h hm.1).2 hq
    · exact hI.parked p hp (.inr hm) hold
  · intro p hp
    obtain ⟨hiff, hexcl⟩ := hI.inside p hp
    have hqueued (hd : Deprives s a s' (t.call tid) p) : t.frame = .parked p ∧ s.Queued tid := by
      obtain ⟨u, hu, -, ⟨henter, -⟩ | hq⟩ := hd.thread
      · exact absurd henter ha
      · cases mem_unique ht hu
        exact hq
    constructor
    · intro hspared
      rw [deprived_cons]
      constructor
      · intro haborted
        rcases hflag with hflag | ⟨hq, -, hnow⟩
        · exact .inr ((hiff hspared.tail).mp (hflag ▸ haborted))
        · rcases hp with hp | ⟨words, hp⟩
          · exact .inl (hnow p hp)
          · rcases hv.parked_of_queued ht hq with ⟨-, q, hq⟩ | ⟨-, huser⟩
            · simp [hq] at hp
            · simp [huser] at hp
      · rintro (hd | hd)
        · exact hd.told h ht'
        · rcases hflag with hflag | ⟨-, htrue, -⟩
          · exact hflag.trans ((hiff hspared.tail).mpr hd)
          · exact htrue
    · rw [deprived_cons, met_cons]
      rintro (hd | hd) (hm | hm)
      · exact hd.not_meets h hm.1
      · obtain ⟨hf, hq⟩ := hqueued hd
        exact hI.parked p hf (.inr hm) hq
      · obtain ⟨hmem, u, q, hu, -, hf⟩ := hm
        cases mem_unique ht hu
        rcases (meets_leaves hv h hmem).1 with henter | hq
        · exact ha henter
        · rcases hp with hp | ⟨words, hp⟩
          · exact hI.parked p hp (.inl hd) hq
          · simp [hp] at hf
      · exact hexcl hd hm

lemma not_enter (h : s.step a = some s') (ht : s.threads.get tid = some t) (ht' : s'.threads.get tid = some t')
    (hf : t'.frame = t.frame ∨ t'.frame = .user ∨ t'.frame.opens) : a ≠ .enter tid := by
  rintro rfl
  obtain ⟨u, q, hu, hframe, rfl⟩ := enter_eq h
  obtain rfl : u = t := some.inj ((running_eq_some hu).1.symm.trans ht)
  rw [setFrame, get_modifyThread, if_pos rfl] at ht'
  obtain ⟨x, -, rfl⟩ := map_eq_some_iff.mp ht'
  rw [hframe] at hf
  rcases after_cases q (s.runPrim tid q).1 with hq | ⟨words, hq⟩ | ⟨slot, hq⟩ <;> simp [hq, opens] at hf

variable (hI : Told steps s tid t)
include hI

section

variable (ht : s.threads.get tid = some t) (hstride : Stride s a s' tid t t')
include ht hstride

lemma invoked (hrunning : t.handshake.state = .running) (huser : t.frame = .user) (hopens : t'.frame.opens)
    (hseq : t'.seq = t.seq + 1) (hflag : t'.handshake.ipcAborted = t.handshake.ipcAborted) :
    Told ((s, a, s') :: steps) s' tid t' := by
  have hparked : ∀ p, t'.frame ≠ .parked p := by
    intro p hp
    simp [hp, opens] at hopens
  have hreturning : ∀ p words, t'.frame ≠ .returning p words := by
    intro p words hp
    simp [hp, opens] at hopens
  refine ⟨hI.recent_step ht hstride, ?_, fun _ => ⟨?_, ?_, ?_⟩, fun p hp => absurd hp (hparked p), ?_⟩
  · rintro - (hf | ⟨slot, hf⟩) <;> simp [hf, opens] at hopens
  · intro hspared
    rw [hflag, Bool.eq_false_iff]
    intro haborted
    -- a flag that an earlier wait left behind is what the condition excludes
    have hold : steps.Spared (t.call tid) := by
      intro b n hb htid
      have := hspared.tail b n hb htid
      simp only [call, hseq] at this ⊢
      omega
    rcases hI.idle hold (.inl huser) haborted with hd | ⟨n, hn⟩
    · simp [hrunning] at hd
    · have := hspared.tail _ n hn rfl
      simp only [call, hseq] at this
      omega
  · rw [met_cons]
    rintro (hm | hm)
    · have := hm.seq_le ht
      simp only [call, hseq] at this
      omega
    · have := hI.recent _ (.recv 0) rfl (.inr hm)
      simp only [call, hseq] at this
      omega
  · intro p
    rw [deprived_cons]
    rintro (hd | hd)
    · have := hd.seq_le ht
      simp only [call, hseq] at this
      omega
    · have := hI.recent _ p rfl (.inl hd)
      simp only [call, hseq] at this
      omega
  · rintro p (hp | ⟨words, hp⟩)
    · exact absurd hp (hparked p)
    · exact absurd hp (hreturning p words)

variable (hseq : t'.seq = t.seq)
include hseq

lemma resolved (hv : Linked s.view) (h : s.step a = some s') (ha : a ≠ .enter tid) (hopens : t.frame.opens)
    (hframe : t'.frame = .user ∨ t'.frame.opens)
    (hflag : t'.handshake.ipcAborted = t.handshake.ipcAborted) : Told ((s, a, s') :: steps) s' tid t' := by
  have hnot : ∀ p, t.frame ≠ .parked p := by
    intro p hp
    simp [hp, opens] at hopens
  obtain ⟨hm, hd⟩ := now_of_frame hv h ht hnot ha
  obtain ⟨hclear, hmet, hdep⟩ := hI.opening hopens
  refine ⟨hI.recent_step ht hstride, ?_, ?_, ?_, ?_⟩ <;> rw [call_congr hseq]
  · intro hspared _ haborted
    rw [hflag, hclear hspared.tail] at haborted
    simp at haborted
  · intro _
    refine ⟨fun hspared => hflag.trans (hclear hspared.tail), ?_, fun p => ?_⟩
    · rw [met_cons]
      exact not_or.mpr ⟨hm, hmet⟩
    · rw [deprived_cons]
      exact not_or.mpr ⟨hd p, hdep p⟩
  · intro p hp
    simp [hp, opens] at hframe
  · rintro p (hp | ⟨words, hp⟩) <;> simp [hp, opens] at hframe

lemma stale {q : Prim} {words : List ℕ} {n : EpId} {role : WaitRole} (h : s.step a = some s')
    (ha : a = .enter tid) (hf : t.frame = .calling q) (hw : q.waitsOn = some (n, role))
    (hnone : s.endpointOf n = none) (hframe : t'.frame = .returning q words)
    (htrue : t'.handshake.ipcAborted = true) : Told ((s, a, s') :: steps) s' tid t' := by
  have hnow : Deprives s a s' (t.call tid) q := .stale ha ht rfl hf hw hnone
  have hopens : t.frame.opens := by
    rw [hf]
    rfl
  refine ⟨hI.recent_step ht hstride, ?_, ?_, ?_, ?_⟩ <;> rw [call_congr hseq, hframe]
  · simp
  · simp [opens]
  · simp
  · intro p hp
    obtain rfl : q = p := by simpa using hp
    refine ⟨fun _ => iff_of_true htrue (deprived_cons.mpr (.inl hnow)), fun _ => ?_⟩
    rw [met_cons]
    rintro (hm | hm)
    · exact hnow.not_meets h hm.1
    · exact (hI.opening hopens).2.1 hm

lemma entered {q : Prim} (hv : Linked s.view) (h : s.step a = some s') (hf : t.frame = .calling q)
    (hlive : ∀ n role, q.waitsOn = some (n, role) → (s.endpointOf n).isSome)
    (hframe : t'.frame = .parked q ∨ (∃ words, t'.frame = .returning q words) ∨ ∃ slot, t'.frame = .consuming slot)
    (hflag : t'.handshake.ipcAborted = t.handshake.ipcAborted) : Told ((s, a, s') :: steps) s' tid t' := by
  have hopens : t.frame.opens := by
    rw [hf]
    rfl
  obtain ⟨hclear, hmet, hdep⟩ := hI.opening hopens
  have hnot (p : Prim) : ¬Steps.Deprived ((s, a, s') :: steps) (t.call tid) p := by
    rw [deprived_cons]
    rintro (hd | hd)
    · cases hd with
      | stale _ hu _ hf' hw hnone =>
        cases mem_unique ht hu
        obtain rfl : p = q := by simpa [hf] using hf'.symm
        simpa [hnone] using hlive _ _ hw
      | destroyed hu _ hf' =>
        cases mem_unique ht hu
        simp [hf] at hf'
    · exact hdep p hd
  refine ⟨hI.recent_step ht hstride, ?_, ?_, ?_, ?_⟩ <;> rw [call_congr hseq]
  · intro hspared _ haborted
    rw [hflag, hclear hspared.tail] at haborted
    simp at haborted
  · intro hopens'
    rcases hframe with hq | ⟨words, hq⟩ | ⟨slot, hq⟩ <;> simp [hq, opens] at hopens'
  · intro p _ hsettled
    rw [met_cons] at hsettled
    rcases hsettled with hd | (hm | hm)
    · exact absurd hd (hnot p)
    · exact (meets_leaves hv h hm.1).2
    · exact absurd hm hmet
  · intro p _
    refine ⟨fun hspared => iff_of_false ?_ (hnot p), fun hd => absurd hd (hnot p)⟩
    rw [hflag, hclear hspared.tail]
    simp

lemma resumed {q : Prim} {words : List ℕ} (h : s.step a = some s')
    (ha : a = .resume tid) (hf : t.frame = .parked q) (hframe : t'.frame = .returning q words)
    (hflag : t'.handshake.ipcAborted = t.handshake.ipcAborted) : Told ((s, a, s') :: steps) s' tid t' := by
  refine ⟨hI.recent_step ht hstride, ?_, ?_, ?_, ?_⟩ <;> rw [call_congr hseq, hframe]
  · simp
  · simp [opens]
  · simp
  · intro p hp
    obtain rfl : q = p := by simpa using hp
    obtain ⟨hiff, hexcl⟩ := hI.inside q (.inl hf)
    have hnow : ¬Deprives s a s' (t.call tid) q := by
      rintro (⟨henter, -⟩ | ⟨-, -, -, he, -, hgone⟩)
      · simp [ha] at henter
      · obtain ⟨-, base, limit, hreap⟩ := meets_of_gone h he hgone
        simp [ha] at hreap
    have hmet : ¬Meets s a (t.call tid) := by
      rintro ⟨hmem, -⟩
      simp [ha, meets] at hmem
    rw [deprived_cons, met_cons, hflag, or_iff_right hnow, or_iff_right hmet]
    exact ⟨fun hspared => hiff hspared.tail, hexcl⟩

lemma finished (hframe : t'.frame = .user)
    (hidle : steps.Spared (t.call tid) → t'.handshake.ipcAborted = true →
      t'.handshake.state = .dead ∨ ∃ n, steps.Deprived (t.call tid) (.wait n)) :
    Told ((s, a, s') :: steps) s' tid t' := by
  refine ⟨hI.recent_step ht hstride, ?_, ?_, ?_, ?_⟩ <;> rw [call_congr hseq, hframe]
  · intro hspared _ haborted
    refine (hidle hspared.tail haborted).imp_right ?_
    rintro ⟨n, hn⟩
    exact ⟨n, deprived_cons.mpr (.inr hn)⟩
  · simp [opens]
  · simp
  · simp

end

lemma step (hv : Linked s.view) (hr : Replies s.view) (h : s.step a = some s')
    (ht : s.threads.get tid = some t) (ht' : s'.threads.get tid = some t') (hstride : Stride s a s' tid t t') :
    Told ((s, a, s') :: steps) s' tid t' := by
  cases id hstride with
  | kept hface =>
    obtain ⟨hframe, hseq, hflag⟩ : t'.frame = t.frame ∧ t'.seq = t.seq ∧
      t'.handshake.ipcAborted = t.handshake.ipcAborted := by simpa [face] using hface
    exact hI.keep hv hr h ht ht' hstride (not_enter h ht ht' (.inl hframe)) hframe hseq (.inl hflag)
  | told hframe hseq htrue he hmem hgone =>
    refine hI.keep hv hr h ht ht' hstride (not_enter h ht ht' (.inl hframe)) hframe hseq
      (.inr ⟨⟨_, _, he, hmem⟩, htrue, ?_⟩)
    exact fun p hp => .destroyed ht rfl hp he hmem hgone
  | invoke hrunning huser hopens hseq hflag => exact hI.invoked ht hstride hrunning huser hopens hseq hflag
  | resolve hopens hframe hseq hflag =>
    exact hI.resolved ht hstride hseq hv h (not_enter h ht ht' (.inr hframe)) hopens hframe hflag
  | stale ha hf hw hnone hframe hseq htrue => exact hI.stale ht hstride hseq h ha hf hw hnone hframe htrue
  | enter _ hf hlive hframe hseq hflag => exact hI.entered ht hstride hseq hv h hf hlive hframe hflag
  | resume ha hf hframe hseq hflag => exact hI.resumed ht hstride hseq h ha hf hframe hflag
  | @leave q words _ hf hframe hseq hflag =>
    refine hI.finished ht hstride hseq hframe fun hspared haborted => .inr ?_
    obtain ⟨hold, n, rfl⟩ := hflag haborted
    exact ⟨n, ((hI.inside _ (.inr ⟨words, hf⟩)).1 hspared).mp hold⟩
  | consume hf hframe hseq hflag =>
    refine hI.finished ht hstride hseq hframe fun hspared haborted => ?_
    exact (hI.idle hspared (.inr ⟨_, hf⟩) (hflag ▸ haborted)).imp_left (step_dead hv hr h ht ht')

end Told

lemma run_told (h : Run step Scheduler.Start steps s) (ht : s.threads.get tid = some t) :
    Told steps s tid t := by
  induction h generalizing tid t with
  | init hs =>
    obtain ⟨hhandshake, hframe, -⟩ := hs.threads tid t ht
    have hclear : t.handshake.ipcAborted = false := by
      rcases hhandshake with hh | hh | hh <;> rw [hh] <;> rfl
    constructor <;> simp [hframe, hclear, opens, Steps.Deprived, Steps.Met]
  | next hrun hs ih =>
    obtain ⟨hv, hr⟩ := reach_linked hrun.reach
    obtain ⟨u, hu, hstride⟩ := step_stride hs ht
    exact (ih hu).step hv hr hs hu ht hstride

def Scheduler.Over (s : Scheduler T E) (c : CallId) : Prop :=
  ∀ t, s.threads.get c.tid = some t → c.seq < t.seq ∨ c.seq = t.seq ∧ t.frame = .user

lemma Scheduler.Over.step (ho : s.Over c) (h : s.step a = some s') : s'.Over c := by
  intro t' ht'
  obtain ⟨t, ht, hstride⟩ := step_stride h ht'
  rcases ho t ht with hlt | ⟨heq, huser⟩
  · exact .inl (lt_of_lt_of_le hlt hstride.seq_le)
  · cases hstride with
    | kept hface => simp_all [face]
    | told hframe hseq => exact .inr ⟨heq.trans hseq.symm, hframe.trans huser⟩
    | invoke _ _ _ hseq => exact .inl (by omega)
    | resolve hopens => simp [huser, opens] at hopens
    | stale _ hf | enter _ hf | resume _ hf | leave _ hf | consume hf => simp [huser] at hf

lemma Scheduler.Over.nothing (ho : s.Over c) : ¬Meets s a c ∧ ¬Deprives s a s' c p := by
  constructor
  · rintro ⟨-, t, q, ht, hseq, hf⟩
    rcases ho t ht with hlt | ⟨-, huser⟩
    · omega
    · simp [huser] at hf
  · intro hd
    obtain ⟨t, ht, hseq, hf⟩ := hd.thread
    rcases ho t ht with hlt | ⟨-, huser⟩
    · omega
    · simp [huser] at hf

lemma result_eq_none {aborted : Bool} {out : List ℕ} (hwait : ∀ n, p ≠ .wait n) :
    p.result aborted out = none ↔ aborted = true := by
  cases p with
  | wait n => exact absurd rfl (hwait n)
  | _ => cases aborted <;> simp [Prim.result]

lemma run_returned {words : Option (List ℕ)} (h : Run step Scheduler.Start steps s)
    (hret : .returned c p words ∈ s.trace) (hwait : ∀ n, p ≠ .wait n) :
    s.Over c ∧ (steps.Spared c → (words = none ↔ steps.Deprived c p) ∧ (words = none → ¬steps.Met c)) := by
  induction h with
  | init hs => simp [hs.trace] at hret
  | @next steps u u' b hrun hs ih =>
    rcases step_returned hs hret with hold | ⟨-, t, out, ht, hseq, hf, hwords, hback⟩
    · obtain ⟨ho, hsettled⟩ := ih hold
      obtain ⟨hm, hd⟩ := ho.nothing
      refine ⟨ho.step hs, fun hspared => ?_⟩
      rw [deprived_cons, met_cons, or_iff_right hd, or_iff_right hm]
      exact hsettled hspared.tail
    · refine ⟨fun t' ht' => .inr ⟨(hback t' ht').1.symm, (hback t' ht').2⟩, fun hspared => ?_⟩
      obtain ⟨hiff, hexcl⟩ := (run_told hrun ht).inside p (.inr ⟨out, hf⟩)
      have hcall : t.call c.tid = c := by rw [call, hseq]
      rw [hcall] at hiff hexcl
      have hm : ¬Meets u b c := by
        rintro ⟨-, x, q, hu, -, hq⟩
        cases mem_unique ht hu
        simp [hf] at hq
      have hd : ¬Deprives u b u' c p := by
        intro hd
        obtain ⟨x, hu, -, hq⟩ := hd.thread
        cases mem_unique ht hu
        simp [hf] at hq
      rw [deprived_cons, met_cons, or_iff_right hd, or_iff_right hm, hwords hwait, result_eq_none hwait,
        hiff hspared.tail]
      exact ⟨Iff.rfl, hexcl⟩

/-- A call reports that its endpoint is gone just if it was, and no message reached anybody in such a call. -/
theorem gone_means_not_delivered {words : Option (List ℕ)} (h : Run Scheduler.step Scheduler.Start steps s)
    (hret : .returned c p words ∈ s.trace) (hwait : ∀ n, p ≠ .wait n) (hspared : steps.Spared c) :
    (words = none ↔ steps.Deprived c p) ∧ (words = none → ¬steps.Met c) :=
  (run_returned h hret hwait).2 hspared

end

def Frame.waits : Frame → Bool
  | .calling (.wait _) | .parked (.wait _) => true
  | _ => false

def Steps.waitless (steps : Steps T E) : Bool := steps.all fun x => x.1.threads.values.all fun t => !t.frame.waits

lemma Steps.spared_of_waitless {steps : Steps T E} (h : steps.waitless) : steps.Spared c := by
  rintro b n ⟨x, hx, hd⟩ -
  obtain ⟨t, ht, -, hf⟩ := hd.thread
  have hnot := List.all_eq_true.mp (List.all_eq_true.mp h x hx) t (Table.mem_values_iff.mpr ⟨_, ht⟩)
  rcases hf with ⟨-, hf⟩ | ⟨hf, -⟩ <;> simp [hf, waits] at hnot

theorem gone_means_not_delivered_in_trio : ∃ (steps : Steps 3 2) (s : Scheduler 3 2), record Scheduler.step [] trio
    [.invoke 0 0 (.send 1 2 3), .enter 0, .finishSwitch 0, .reapRegionObjects 100 101, .switchIn 0, .resume 0,
      .leave 0] = some (steps, s) ∧
    .returned ⟨0, 1⟩ (.send 0 1 2 3) none ∈ s.trace ∧ steps.Deprived ⟨0, 1⟩ (.send 0 1 2 3) ∧
    ¬steps.Met ⟨0, 1⟩ := by
  have hrun : (record Scheduler.step [] trio [.invoke 0 0 (.send 1 2 3), .enter 0, .finishSwitch 0,
      .reapRegionObjects 100 101, .switchIn 0, .resume 0, .leave 0]).any fun (steps, s) =>
        Steps.waitless steps && decide (.returned ⟨0, 1⟩ (.send 0 1 2 3) none ∈ s.trace) := by decide +kernel
  obtain ⟨⟨steps, s⟩, hs, hcheck⟩ := (Option.any_eq_true _ _).mp hrun
  rw [Bool.and_eq_true, decide_eq_true_eq] at hcheck
  obtain ⟨hiff, hmet⟩ := gone_means_not_delivered (.record (.init start_trio) hs) hcheck.2 (by simp)
    (Steps.spared_of_waitless hcheck.1)
  exact ⟨steps, s, hs, hcheck.2, hiff.mp rfl, hmet rfl⟩

def interrupted : Scheduler 2 2 :=
  { Scheduler.booted ![.idle [⟨.irq 9, .all⟩, ⟨.endpoint 1, .all⟩] 1 none, .idle [⟨.endpoint 1, .all⟩] 2 none]
      ![100, 200] (by decide) (by decide) with
    irqRoute := fun _ => some 0 }

lemma start_interrupted : interrupted.Start := by
  obtain ⟨hthreads, hendpoints, htrace⟩ := @Scheduler.start_booted 2 2
    ![.idle [⟨.irq 9, .all⟩, ⟨.endpoint 1, .all⟩] 1 none, .idle [⟨.endpoint 1, .all⟩] 2 none] ![100, 200]
    (by decide) (by decide) fun i => by fin_cases i <;> exact fresh_idle (by simp [Object.isReply])
  exact ⟨hthreads, hendpoints, htrace⟩

/-- A wait for an interrupt finds its endpoint gone and returns; the thread's next send meets its receiver on an
endpoint that is there, and reports that it is gone. -/
theorem flag_of_wait_spoils_send : interrupted.Start ∧ ∃ s, execute Scheduler.step always interrupted
    [.reapRegionObjects 100 101, .invoke 0 0 .wait, .enter 0, .leave 0, .invoke 1 0 .recv, .enter 1,
      .invoke 0 1 (.send 1 2 3), .enter 0, .leave 0] = some s ∧
    .returned ⟨0, 2⟩ (.send 1 1 2 3) none ∈ s.trace ∧ (s.endpointOf 1).isSome ∧
    (s.threads.get 1).any fun t => t.handshake.ipcServed && decide (t.mailbox = wide 1 2 3) :=
  ⟨start_interrupted, exists_execute (by decide +kernel)⟩

end CrickerOs.Kernel
