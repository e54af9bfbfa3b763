import CrickerOs.Kernel.Faces

namespace CrickerOs.Kernel

open Slots WakeHandshake Scheduler Option

variable {T E : ℕ} {s s' : Scheduler T E} {a : Action} {tid : Tid} {t t' : Thread}

def Frame.opens : Frame → Bool
  | .delegating _ _ _ _ | .calling _ => true
  | _ => false

inductive Stride (s : Scheduler T E) (a : Action) (s' : Scheduler T E) (tid : Tid) (t t' : Thread) : Prop
  | kept : t'.face = t.face → Stride s a s' tid t t'
  | told {n e} : t'.frame = t.frame → t'.seq = t.seq → t'.handshake.ipcAborted = true → s.endpointOf n = some e →
      tid ∈ e.drainWaiters → s'.endpointOf n = none → Stride s a s' tid t t'
  | invoke : t.handshake.state = .running → t.frame = .user → t'.frame.opens → t'.seq = t.seq + 1 →
      t'.handshake.ipcAborted = t.handshake.ipcAborted → Stride s a s' tid t t'
  | resolve : t.frame.opens → t'.frame = .user ∨ t'.frame.opens → t'.seq = t.seq →
      t'.handshake.ipcAborted = t.handshake.ipcAborted → Stride s a s' tid t t'
  | stale {q words n role} : a = .enter tid → t.frame = .calling q → q.waitsOn = some (n, role) →
      s.endpointOf n = none → t'.frame = .returning q words → t'.seq = t.seq → t'.handshake.ipcAborted = true →
      Stride s a s' tid t t'
  | enter {q} : a = .enter tid → t.frame = .calling q →
      (∀ n role, q.waitsOn = some (n, role) → (s.endpointOf n).isSome) →
      t'.frame = .parked q ∨ (∃ words, t'.frame = .returning q words) ∨ (∃ slot, t'.frame = .consuming slot) →
      t'.seq = t.seq → t'.handshake.ipcAborted = t.handshake.ipcAborted → Stride s a s' tid t t'
  | resume {q words} : a = .resume tid → t.frame = .parked q → t'.frame = .returning q words → t'.seq = t.seq →
      t'.handshake.ipcAborted = t.handshake.ipcAborted → Stride s a s' tid t t'
  | leave {q words} : a = .leave tid → t.frame = .returning q words → t'.frame = .user → t'.seq = t.seq →
      (t'.handshake.ipcAborted = true → t.handshake.ipcAborted = true ∧ ∃ n, q = .wait n) → Stride s a s' tid t t'
  | consume {slot} : t.frame = .consuming slot → t'.frame = .user → t'.seq = t.seq →
      t'.handshake.ipcAborted = t.handshake.ipcAborted → Stride s a s' tid t t'

lemma exists_of_face {frame : Frame} {seq : ℕ} {aborted : Bool} (h : s.faceOf tid = some (frame, seq, aborted)) :
    ∃ t, s.threads.get tid = some t ∧ t.frame = frame ∧ t.seq = seq ∧ t.handshake.ipcAborted = aborted := by
  obtain ⟨t, ht, hface⟩ := map_eq_some_iff.mp h
  obtain ⟨rfl, rfl, rfl⟩ : t.frame = frame ∧ t.seq = seq ∧ _ = aborted := by simpa [Thread.face] using hface
  exact ⟨t, ht, rfl, rfl, rfl⟩

lemma Silent.kept (h : Silent s s') (ht' : s'.threads.get tid = some t') :
    ∃ t, s.threads.get tid = some t ∧ t'.face = t.face := by
  have hface : s'.faceOf tid = some t'.face := by rw [faceOf, ht', map_some]
  rw [h.faces] at hface
  obtain ⟨t, ht, heq⟩ := map_eq_some_iff.mp hface
  exact ⟨t, ht, heq.symm⟩

lemma Silent.stride (h : Silent s s') (ht' : s'.threads.get tid = some t') :
    ∃ t, s.threads.get tid = some t ∧ Stride s a s' tid t t' := by
  obtain ⟨t, ht, hface⟩ := h.kept ht'
  exact ⟨t, ht, .kept hface⟩

variable {x : Tid}

lemma get_modifyThread {f : Thread → Thread} :
    (s.modifyThread x f).threads.get tid = if tid = x then (s.threads.get x).map f else s.threads.get tid := by
  rw [modifyThread, Table.get_modify, Function.update_apply]

lemma stride_modify {f : Thread → Thread} {u : Thread} (hu : s.threads.get x = some u)
    (ht' : (s.modifyThread x f).threads.get tid = some t') (h : tid = x → Stride s a s' tid u (f u)) :
    ∃ t, s.threads.get tid = some t ∧ Stride s a s' tid t t' := by
  rw [get_modifyThread] at ht'
  split at ht'
  · subst tid
    rw [hu, map_some, some.injEq] at ht'
    subst ht'
    exact ⟨u, hu, h rfl⟩
  · exact ⟨t', ht', .kept rfl⟩

lemma schedule_silent (h : s.schedule tid = some s') : Silent s s' := by
  rw [schedule] at h
  split at h
  · simp at h
  · cases h
    apply (Silent.refl s).modifyThread
    intro t
    rw [Thread.face, Thread.face]
    split_ifs <;> rfl

lemma switchIn_silent (h : s.switchIn tid = some s') : Silent s s' := by
  rw [switchIn] at h
  split at h
  · simp at h
  · split_ifs at h
    cases h
    exact (Silent.refl s).modifyThread fun _ => rfl

lemma capDelete_silent {slot : ℕ} (h : s.capDelete tid slot = some s') : Silent s s' := by
  rw [capDelete] at h
  split at h
  · simp at h
  · split_ifs at h
    cases h
    exact (Silent.refl s).modifyThread fun _ => rfl

lemma irqNotify_silent {ep : EpId} : Silent s (s.irqNotify ep) := by
  rw [irqNotify]
  split
  · exact .refl s
  · split
    · exact (Silent.refl s).setEndpoint.deliver
    · exact (Silent.refl s).setEndpoint

lemma deliverDeath_silent {corpse : Tid} {ep : EpId} {msg : Mailbox} :
    Silent s (s.deliverDeath corpse ep msg) := by
  rw [deliverDeath]
  split
  · exact .refl s
  · split
    · exact (Silent.refl s).setEndpoint.deliver
    · exact (Silent.refl s).setEndpoint.modifyThread fun _ => rfl

lemma departs_silent {event pc addr : ℕ} (h : s.departs tid event pc addr = some s') : Silent s s' := by
  rw [departs] at h
  split at h
  · simp at h
  · split_ifs at h
    cases h
    rw [depart]
    split
    · exact (Silent.refl s).modifyThread fun _ => rfl
    · refine Silent.trans ?_ deliverDeath_silent
      exact (Silent.refl s).modifyThread fun _ => rfl

lemma finishSwitch_stride (h : s.finishSwitch x = some s') (ht' : s'.threads.get tid = some t') :
    ∃ t, s.threads.get tid = some t ∧ Stride s a s' tid t t' := by
  rw [finishSwitch] at h
  split at h
  · simp at h
  · rename_i u hu
    split_ifs at h
    split at h
    · obtain ⟨⟨y, threads⟩, hrem, rfl⟩ := map_eq_some_iff.mp h
      simp only [Table.get_remove hrem, Function.update_apply] at ht'
      split at ht'
      · simp at ht'
      · exact ⟨t', ht', .kept rfl⟩
    · rename_i verdict handshake _ hverdict
      cases h
      refine stride_modify hu ht' fun _ => .kept ?_
      have hflag : handshake.ipcAborted = u.handshake.ipcAborted := by
        rw [← show u.handshake.finishSwitch.2 = handshake from by rw [hverdict], Handshake.finishSwitch]
        split_ifs <;> rfl
      rw [Thread.face, Thread.face, ← hflag]

lemma opens_of_admits {frame : Frame} (h : t.Admits frame) : frame.opens := by
  cases frame with
  | delegating | calling => rfl
  | _ => exact h.elim

lemma invoke_stride {slot : ℕ} {request : Request} (h : s.invoke x slot request = some s')
    (ht' : s'.threads.get tid = some t') : ∃ t, s.threads.get tid = some t ∧ Stride s a s' tid t t' := by
  rw [invoke] at h
  split at h
  · simp at h
  · rename_i u hu
    obtain ⟨hget, hrunning⟩ := running_eq_some hu
    split_ifs at h with huser
    split at h
    · cases h
      exact ⟨t', ht', .kept rfl⟩
    · rename_i frame hframe
      cases h
      obtain ⟨cap, hcap, hf⟩ := bind_eq_some_iff.mp hframe
      have hopens := opens_of_admits (Request.admits hcap hf)
      exact stride_modify hget ht' fun _ => .invoke hrunning huser hopens rfl rfl

lemma resolve_stride (h : s.resolve x = some s') (ht' : s'.threads.get tid = some t') :
    ∃ t, s.threads.get tid = some t ∧ Stride s a s' tid t t' := by
  rw [resolve] at h
  split at h
  · simp at h
  · rename_i u hu
    obtain ⟨hget, -⟩ := running_eq_some hu
    split at h
    · rename_i ep slot rights data hframe
      have hopens : u.frame.opens := by
        rw [hframe]
        rfl
      split at h
      · cases h
        exact stride_modify hget ht' fun _ => .resolve hopens (.inl rfl) rfl rfl
      · dsimp only at h
        split_ifs at h
        · cases h
          exact stride_modify hget ht' fun _ => .resolve hopens (.inr rfl) rfl rfl
        · cases h
          exact stride_modify hget ht' fun _ => .resolve hopens (.inl rfl) rfl rfl
    · simp at h

lemma after_cases (p : Prim) (progress : Progress) :
    p.after progress = .parked p ∨ (∃ words, p.after progress = .returning p words) ∨
      ∃ slot, p.after progress = .consuming slot := by
  cases progress with
  | parked => exact .inl rfl
  | done words =>
    cases p with
    | reply _ _ _ slot => exact .inr (.inr ⟨slot, rfl⟩)
    | _ => exact .inr (.inl ⟨words, rfl⟩)

lemma enter_eq (h : s.enter x = some s') : ∃ u q, s.running x = some u ∧ u.frame = .calling q ∧
    s' = (s.runPrim x q).2.setFrame x (q.after (s.runPrim x q).1) := by
  rw [enter] at h
  split at h
  · simp at h
  · rename_i u hu
    split at h
    · rename_i q hframe
      exact ⟨u, q, hu, hframe, (some.inj h).symm⟩
    · simp at h

lemma enter_stride (h : s.enter x = some s') (ht' : s'.threads.get tid = some t') :
    ∃ t, s.threads.get tid = some t ∧ Stride s (.enter x) s' tid t t' := by
  obtain ⟨u, q, hu, hframe, rfl⟩ := enter_eq h
  have hget : s.threads.get x = some u := (running_eq_some hu).1
  rw [setFrame, get_modifyThread] at ht'
  by_cases hlive : ∀ n role, q.waitsOn = some (n, role) → (s.endpointOf n).isSome
  · have hsilent := runPrim_silent x hlive
    split at ht'
    · subst tid
      obtain ⟨v, hv, rfl⟩ := map_eq_some_iff.mp ht'
      obtain ⟨t, ht, hface⟩ := hsilent.kept hv
      cases mem_unique hget ht
      obtain ⟨-, hseq, haborted⟩ : v.frame = u.frame ∧ v.seq = u.seq ∧
        v.handshake.ipcAborted = u.handshake.ipcAborted := by simpa [Thread.face] using hface
      exact ⟨u, hget, .enter rfl hframe hlive (after_cases q _) hseq haborted⟩
    · obtain ⟨t, ht, hface⟩ := hsilent.kept ht'
      exact ⟨t, ht, .kept hface⟩
  · push Not at hlive
    obtain ⟨n, role, hwaits, hnone⟩ := hlive
    have hgone : s.endpointOf n = none := by simpa using hnone
    obtain ⟨words, hrun, hafter⟩ := runPrim_stale x hwaits hgone
    simp only [hrun, hafter, setIpcAborted, get_modifyThread] at ht'
    split at ht'
    · subst tid
      rw [if_pos trivial, hget] at ht'
      cases ht'
      exact ⟨u, hget, .stale rfl hframe hwaits hgone rfl rfl rfl⟩
    · exact ⟨t', ht', .kept rfl⟩

lemma resume_stride (h : s.resume x = some s') (ht' : s'.threads.get tid = some t') :
    ∃ t, s.threads.get tid = some t ∧ Stride s (.resume x) s' tid t t' := by
  rw [resume] at h
  split at h
  · simp at h
  · rename_i u hu
    obtain ⟨hget, -⟩ := running_eq_some hu
    split at h
    · rename_i q hframe
      cases h
      refine stride_modify hget ht' fun htid => ?_
      subst htid
      exact .resume rfl hframe rfl rfl rfl
    · simp at h

lemma leave_stride (h : s.leave x = some s') (ht' : s'.threads.get tid = some t') :
    ∃ t, s.threads.get tid = some t ∧ Stride s (.leave x) s' tid t t' := by
  rw [leave] at h
  split at h
  · simp at h
  · rename_i u hu
    obtain ⟨hget, -⟩ := running_eq_some hu
    split at h
    · rename_i q words hframe
      cases h
      refine stride_modify hget ht' fun htid => ?_
      subst htid
      refine .leave rfl hframe rfl rfl ?_
      cases q with
      | wait n => exact fun haborted => ⟨haborted, n, rfl⟩
      | _ =>
        intro haborted
        simp [Handshake.takeAborted] at haborted
    · simp at h

lemma consume_stride (h : s.consume x = some s') (ht' : s'.threads.get tid = some t') :
    ∃ t, s.threads.get tid = some t ∧ Stride s a s' tid t t' := by
  rw [consume] at h
  split at h
  · simp at h
  · rename_i u hu
    obtain ⟨hget, -⟩ := running_eq_some hu
    split at h
    · rename_i slot hframe
      cases h
      exact stride_modify hget ht' fun _ => .consume hframe rfl rfl rfl
    · simp at h

lemma reap_stride {base limit : ℕ} (ht' : (s.reapRegionObjects base limit).2.threads.get tid = some t') :
    ∃ t, s.threads.get tid = some t ∧ Stride s a (s.reapRegionObjects base limit).2 tid t t' := by
  obtain ⟨armed, hdrained, hthinned⟩ := reap_drained s base limit
  have hface : (s.reapRegionObjects base limit).2.faceOf tid = some t'.face := by
    rw [faceOf, ht', map_some]
  obtain ⟨before, hbefore, hiff⟩ := hdrained.faces (hthinned.faces hface)
  obtain ⟨t, ht, hframe, hseq, haborted⟩ := exists_of_face hbefore
  refine ⟨t, ht, ?_⟩
  by_cases hflag : t'.handshake.ipcAborted = before
  · exact .kept (by simp [Thread.face, hframe, hseq, haborted, hflag])
  · have htrue : t'.handshake.ipcAborted = true := by
      cases hb : before with
      | true => exact hiff.mpr (.inl hb)
      | false => simpa [hb] using hflag
    rcases hiff.mp htrue with hb | ⟨n, e, he, hmem, hnone⟩
    · exact absurd (htrue.trans hb.symm) hflag
    · exact .told hframe.symm hseq.symm htrue he hmem ((hthinned.gone n).mpr hnone)

lemma step_stride (h : s.step a = some s') (ht' : s'.threads.get tid = some t') :
    ∃ t, s.threads.get tid = some t ∧ Stride s a s' tid t t' := by
  cases a with
  | switchIn => exact (switchIn_silent h).stride ht'
  | schedule => exact (schedule_silent h).stride ht'
  | finishSwitch => exact finishSwitch_stride h ht'
  | invoke => exact invoke_stride h ht'
  | resolve => exact resolve_stride h ht'
  | enter => exact enter_stride h ht'
  | resume => exact resume_stride h ht'
  | leave => exact leave_stride h ht'
  | consume => exact consume_stride h ht'
  | capDelete => exact (capDelete_silent h).stride ht'
  | depart => exact (departs_silent h).stride ht'
  | irqNotify =>
    cases h
    exact irqNotify_silent.stride ht'
  | reapRegionObjects =>
    cases h
    exact reap_stride ht'

end CrickerOs.Kernel
