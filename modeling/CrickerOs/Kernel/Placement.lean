import CrickerOs.Kernel.Seats

namespace CrickerOs.Kernel

open Slots WakeHandshake Library Function Scheduler Table Handshake Cores List Option

variable {N T E : ℕ} {k : Core N} {s s' : Cores N T E} {sched : Scheduler T E} {c target : Fin N} {tid next : Tid}
  {t : Thread}

lemma eq_ok_of_toOption {α ε : Type*} {x : Except ε α} {a : α} (h : x.toOption = some a) : x = .ok a := by
  cases x with
  | error => simp [Except.toOption] at h
  | ok => exact congrArg Except.ok (some.inj h)

lemma fresh_new {handshake : Handshake (EpId × WaitRole)} {page : ℕ} {region : Option ℕ}
    (h : handshake = .onCpuNow ∨ handshake = .ready ∨ handshake = .embryo) :
    (Thread.new handshake page region).Fresh :=
  ⟨h, rfl, rfl, by simp [Thread.new]⟩

@[simp] lemma sched_placeOn {tids : List Tid} : (s.placeOn c target tids).sched = s.sched := by
  rw [placeOn]
  split <;> rfl

@[simp] lemma sched_after : (s.after c target sched).sched = sched :=
  sched_placeOn

namespace Placed

section

variable (h : Placed s)
include h

lemma nowhere_of_taken (hr : tid ∈ (s.core c).ready) (hk : tid ∉ k.ready)
    (hcurrent : k.current = (s.core c).current) (hswitched : k.switchedFrom = none)
    (hidle : k.idle = (s.core c).idle) (d : Fin N) : ¬(update s.core c k d).Has tid := by
  rw [update_apply]
  split
  · rintro (hr' | (hc | hf) | hi)
    · exact hk hr'
    · obtain ⟨t, ht, hs⟩ := h.fits.ready hr
      exact h.fits.current (hcurrent ▸ hc) ht hs
    · simp [hswitched] at hf
    · exact h.seated.spare (hidle ▸ hi) hr
  · rename_i hd
    exact fun hh => hd (h.seated.sole hh (.inl hr))

lemma drainInbox : Placed (s.drainInbox c) := by
  have hready : ({ s.core c with runq := (s.core c).runq ++ (s.core c).inbox, inbox := [] } : Core N).ready =
      (s.core c).ready := by
    simp [Core.ready]
  refine h.shrink ?_ ?_ rfl (.inl rfl) rfl h.seated.empty
  · exact hready ▸ List.Subset.refl _
  · exact hready ▸ h.seated.nodup c

lemma tryInitiateSteal : Placed (s.tryInitiateSteal c target) := by
  rw [Cores.tryInitiateSteal]
  split
  · exact h
  · exact h.shrink (List.Subset.refl _) (h.seated.nodup target) rfl (.inl rfl) rfl h.seated.empty

lemma takeStealRequest (hs : s.Settled c) : Placed (s.takeStealRequest c) := by
  rw [Cores.takeStealRequest]
  split
  · exact h
  rename_i requester _
  have hready : (((s.core c).runq.tail ++ (s.core c).inbox) ++
      (((s.core c).runq.head?.map fun tid => (tid, requester)).map Prod.fst).toList).Perm (s.core c).ready := by
    rw [Core.ready, hs.2]
    cases (s.core c).runq with
    | nil => simp
    | cons tid runq => simpa using perm_append_singleton tid (runq ++ (s.core c).inbox)
  exact h.shrink (fun _ => hready.mem_iff.mp) (hready.nodup_iff.mpr (h.seated.nodup c)) rfl (.inl rfl) rfl
    fun _ => hs.1

lemma serveStealRequest : Placed (s.serveStealRequest c) := by
  rw [Cores.serveStealRequest]
  split
  · exact h
  rename_i tid requester hserving
  have hready : (s.core c).ready = (s.core c).runq ++ (s.core c).inbox ++ [tid] := by
    simp [Core.ready, hserving]
  have hnodup := h.seated.nodup c
  rw [hready, nodup_append] at hnodup
  have hmem : tid ∈ (s.core c).ready := by simp [hready]
  have hrest : ({ s.core c with serving := none } : Core N).ready = (s.core c).runq ++ (s.core c).inbox := by
    simp [Core.ready]
  have hgone : Placed (s.modifyCore c fun k => { k with serving := none }) := by
    refine h.shrink ?_ ?_ rfl (.inl rfl) rfl (by simp)
    · rw [hrest, hready]
      exact subset_append_left ..
    · exact hrest ▸ hnodup.1
  refine hgone.join (Core.joined_inbox _ [tid]) (nodup_singleton tid) ?_ ?_
  · intro u hu
    obtain rfl := mem_singleton.mp hu
    apply seatable_of_nowhere
    refine h.nowhere_of_taken hmem ?_ rfl (h.seated.empty (by simp [hserving])) rfl
    rw [hrest]
    exact fun hin => hnodup.2.2 u hin u (mem_singleton_self u) rfl
  · intro u hu
    cases mem_singleton.mp hu
    exact h.fits.ready hmem

lemma insertThread (hf : t.Fresh) (hins : s.sched.insertThread t = some (tid, sched)) :
    Placed { s with sched } :=
  ⟨h.grounded.insertThread hf hins, h.seated, h.fits.insert hins⟩

lemma spawnOn {page : ℕ} (hstep : s.spawnOn c target page = some s') : Placed s' := by
  obtain ⟨⟨tid, sched⟩, hins, rfl⟩ := map_eq_some_iff.mp hstep
  obtain ⟨hnew, hview, -⟩ := insertThread_eq_some hins
  have hget : sched.threads.get tid = some (.new .ready page none) := by
    rw [← th_view, hview, View.th_set, if_pos rfl]
  refine (h.insertThread (fresh_new (.inr (.inl rfl))) hins).placeOn (nodup_singleton tid) ?_ ?_
  · intro u hu
    cases mem_singleton.mp hu
    exact h.fits.nowhere_of_new hnew
  · intro u hu
    cases mem_singleton.mp hu
    exact ⟨_, hget, rfl⟩

lemma adoptSecondaryIdle {page : ℕ} (hstep : s.adoptSecondaryIdle c page = some s') : Placed s' := by
  rw [Cores.adoptSecondaryIdle] at hstep
  split_ifs at hstep with hc
  obtain ⟨⟨tid, sched⟩, hins, rfl⟩ := map_eq_some_iff.mp hstep
  obtain ⟨hnew, hview, -⟩ := insertThread_eq_some hins
  have hget : sched.threads.get tid = some (.new .onCpuNow page none) := by
    rw [← th_view, hview, View.th_set, if_pos rfl]
  have hnowhere := h.fits.nowhere_of_new hnew
  have hp : Placed { s with sched } := h.insertThread (fresh_new (.inl rfl)) hins
  refine ⟨hp.grounded, hp.seated.update ?_ (hp.seated.nodup c) ?_ ?_ hp.seated.empty,
    hp.fits.update ?_ ?_ ?_ ?_ ?_⟩
  · rintro u (hr | (hu | hf) | hu)
    · exact .inl (.inl hr)
    · cases hu
      exact .inr hnowhere
    · exact .inl (.inr (.inl (.inr hf)))
    · cases hu
      exact .inr hnowhere
  · rintro u hf hu
    cases hu
    exact hnowhere c (.inr (.inl (.inr hf)))
  · intro u hu hr
    cases hu
    exact hnowhere c (.inl hr)
  · exact hp.fits.ready
  · rintro u (hu | hf)
    · cases hu
      exact ⟨_, hget, rfl, by simp [Thread.new, onCpuNow]⟩
    · exact hp.fits.standing (c := c) (.inr hf)
  · intro u x hu hx
    cases hu
    cases mem_unique hget hx
    simp [Thread.new, onCpuNow]
  · intro u hu
    cases hu
    exact issued_of_get hget
  · intro u x hu hx
    cases hu
    cases mem_unique hget hx
    simp [Thread.new, onCpuNow]

lemma startTcb {entry : ℕ} {stack : Bool} : Placed (s.startTcb c target tid entry stack) := by
  have hg : Grounded (s.sched.startTcb tid entry stack).2 := h.grounded.startTcb
  rw [Cores.startTcb]
  split
  · rename_i sched hstart
    rw [hstart] at hg
    obtain ⟨⟨t, ht, he⟩, rfl⟩ := startTcb_ok hstart
    have hnowhere := h.fits.nowhere_of_embryo ht he
    have hquiet : Section none s.sched (s.sched.modifyThread tid Thread.supervised) :=
      (Section.refl s.sched).quiet (by simp)
    refine Placed.placeOn ⟨hg, h.seated, (h.fits.of_section hquiet (by simp)).modify ?_ ?_ ?_ ?_ ?_⟩
      (nodup_singleton tid) ?_ ?_
    · exact fun _ _ _ => rfl
    · exact fun _ _ => id
    · simp
    · exact fun hd => (hnowhere _ (.inr (.inl (.inl hd)))).elim
    · simp
    all_goals
      intro u hu
      cases mem_singleton.mp hu
    · exact hnowhere
    · refine ⟨{ t.supervised with handshake := { t.supervised.handshake with state := .ready } }, ?_, rfl⟩
      simp [modifyThread, get_modify, ht]
  · rename_i sched hstart
    rw [hstart] at hg
    exact h.of_section hg (startTcb_error hstart) (by simp)

lemma endKilled : Placed (s.endKilled tid) := by
  refine ⟨h.grounded.modify fun t ht => ?_, h.seated, h.fits.modify ?_ ?_ ?_ ?_ ?_⟩
  · split
    · rename_i hk
      exact .handshake (by simp [hk.2]) (by simp) rfl rfl rfl
    · exact .refl t
  all_goals intros
  all_goals split
  all_goals simp_all

lemma not_standing_of_left (hf : (s.core c).switchedFrom = some tid) (hk : k.switchedFrom = none)
    (hc : k.current = (s.core c).current) (d : Fin N) : ¬(update s.core c k d).Standing tid := by
  rw [update_apply]
  split
  · rintro (hu | hu)
    · exact h.seated.left hf (hc ▸ hu)
    · simp [hk] at hu
  · rename_i hd
    exact fun hs => hd (h.seated.sole (.inr (.inl hs)) (.inr (.inl (.inr hf))))

lemma removeThread (ht : s.sched.threads.get tid = some t) (hr : t.Reapable)
    (hoff : s.sched.view.OffQueue tid) (hs : ∀ d, ¬(s.core d).Standing tid) (hlast : (unpack tid).2 + 1 < 2 ^ 32) :
    Placed { s with sched := s.sched.removeThread tid } := by
  refine ⟨h.grounded.removeThread ht hr hoff hlast, h.seated, h.fits.remove (th_removeThread tid) ?_ ?_ hs⟩
  · exact fun hu => issued_removeThread hu fun _ _ => hlast
  · intro d hready
    obtain ⟨u, hu, hstate⟩ := h.fits.ready hready
    cases mem_unique ht hu
    simp [Thread.Reapable, hstate] at hr

lemma released (ht : s.sched.threads.get tid = some t) (hcpu : t.handshake.onCpu)
    (hfin : t.handshake.state ≠ .finished) (hs : ∀ d, ¬(s.core d).Standing tid) :
    Placed { s with
      sched := s.sched.modifyThread tid fun t' => { t' with handshake := t.handshake.finishSwitch.2 } } := by
  have hstate : t.handshake.finishSwitch.2.state = t.handshake.state ∨
      t.handshake.state = .blocked ∧ t.handshake.finishSwitch.2.state = .ready := by
    cases hp : t.handshake.wakePending with
    | false => exact .inl (by simp [Handshake.finishSwitch, hfin, hp])
    | true =>
      exact .inr ⟨((h.grounded.linked.synced ht).pending hp).1, by simp [Handshake.finishSwitch, hfin, hp]⟩
  refine ⟨h.grounded.finishSwitch ht hcpu hfin, h.seated, h.fits.modify ?_ ?_ ?_ ?_ ?_⟩
  · intro d u _ hu hready
    cases mem_unique ht hu
    simpa [hready] using hstate
  · exact fun hd => absurd hd (hs _)
  · intro u hu he
    cases mem_unique ht hu
    rcases hstate with heq | ⟨-, hready⟩
    · exact heq ▸ he
    · simp [hready]
  · exact fun hd => absurd (.inl hd) (hs _)
  · intro u hu hb hd
    cases mem_unique ht hu
    obtain heq := hstate.resolve_right fun hblocked => hb hblocked.1
    rw [heq]
    exact ⟨hb, hd⟩

lemma finishSwitch (hok : s.Unwrapped (c, .finishSwitch)) : Placed (s.finishSwitch c) := by
  cases hf : (s.core c).switchedFrom with
  | none => simpa [Cores.finishSwitch, hf] using h
  | some prev =>
    obtain ⟨t, ht, hcpu, -⟩ := h.fits.standing (.inr hf)
    have hleft : Placed (s.modifyCore c fun k => { k with switchedFrom := none }) :=
      h.shrink (List.Subset.refl _) (h.seated.nodup c) rfl (.inr rfl) rfl fun _ => rfl
    have hstand := h.not_standing_of_left (k := { s.core c with switchedFrom := none }) hf rfl rfl
    by_cases hfin : t.handshake.state = .finished
    · have hreap : s.finishSwitch c = { s.modifyCore c fun k => { k with switchedFrom := none } with
          sched := s.sched.removeThread prev } := by
        simp [Cores.finishSwitch, hf, Cores.modifyCore, ht, Handshake.finishSwitch, hfin]
      have hlast : (unpack prev).2 + 1 < 2 ^ 32 := by
        refine hok _ rfl (prev, t) (mem_iter_iff.mpr ht) ?_
        rw [hreap, ← th_view, th_removeThread, update_self]
      have hoff : s.sched.view.OffQueue prev :=
        h.grounded.linked.offQueue ht fun n => Thread.Free.not_queued (by simp [Thread.Free, Thread.Parked, hfin])
      rw [hreap]
      exact hleft.removeThread ht (.inl hfin) hoff hstand hlast
    · have hreleased := hleft.released ht hcpu hfin hstand
      cases hp : t.handshake.wakePending with
      | false =>
        have hcleared : s.finishSwitch c = { s.modifyCore c fun k => { k with switchedFrom := none } with
            sched := s.sched.modifyThread prev fun t' => { t' with handshake := t.handshake.finishSwitch.2 }
            } := by
          simp [Cores.finishSwitch, hf, Cores.modifyCore, ht, Handshake.finishSwitch, hfin, hp]
        rw [hcleared]
        exact hreleased
      | true =>
        have hwoken : s.finishSwitch c = ({ s.modifyCore c fun k => { k with switchedFrom := none } with
            sched := s.sched.modifyThread prev fun t' =>
              { t' with handshake := t.handshake.finishSwitch.2 } } : Cores N T E).pushRunq c [prev] := by
          simp [Cores.finishSwitch, hf, Cores.modifyCore, ht, Handshake.finishSwitch, hfin, hp]
        have hb := ((h.grounded.linked.synced ht).pending hp).1
        rw [hwoken]
        refine hreleased.join (Core.joined_runq _ [prev]) (nodup_singleton prev) ?_ ?_ <;>
          intro u hu <;> cases mem_singleton.mp hu
        · apply seatable_of_nowhere
          rintro d (hr | hs | hi)
          · obtain ⟨x, hx, hready⟩ := hleft.fits.ready hr
            cases mem_unique ht hx
            simp [hb] at hready
          · exact hstand d hs
          · exact (hleft.fits.idle hi ht).1 hb
        · refine ⟨{ t with handshake := t.handshake.finishSwitch.2 }, ?_, ?_⟩
          · simp [modifyThread, get_modify, ht, modifyCore]
          · simp [Handshake.finishSwitch, hfin, hp]

lemma switched (hset : s.Settled c) (hc : (s.core c).current = some tid) (hne : next ≠ tid)
    (hqueued : next ∉ (s.core c).ready) (hsole : (s.core c).Has next ∨ ∀ d, ¬(s.core d).Has next)
    (ht : s.sched.threads.get next = some t) (hs : t.handshake.state ≠ .blocked ∧ t.handshake.state ≠ .dead) :
    Placed (({ s with
      sched := s.sched.modifyThread next fun t => { t with handshake := t.handshake.switchIn } } :
      Cores N T E).modifyCore
        c fun k => { k with current := some next, switchedFrom := some tid }) := by
  have hother : ∀ d, next ∉ (s.core d).ready := by
    intro d hr
    rcases hsole with hhas | hn
    · exact hqueued (h.seated.sole hhas (.inl hr) ▸ hr)
    · exact hn d (.inl hr)
  have hnew : (s.sched.modifyThread next fun t => { t with handshake := t.handshake.switchIn }).threads.get next =
      some { t with handshake := t.handshake.switchIn } := by
    rw [modifyThread, get_modify, update_self, ht]
    rfl
  have hfits : Fits { s with
      sched := s.sched.modifyThread next fun t => { t with handshake := t.handshake.switchIn } } := by
    refine h.fits.modify ?_ ?_ ?_ ?_ ?_
    · exact fun hr => absurd hr (hother _)
    · exact fun _ _ _ => rfl
    all_goals simp [Handshake.switchIn]
  refine ⟨?_, h.seated.update ?_ (h.seated.nodup c) ?_ h.seated.spare ?_, hfits.update ?_ ?_ ?_ ?_ ?_⟩
  · refine h.grounded.modify fun u hu => ?_
    cases mem_unique ht hu
    exact .handshake hs (by simp [Handshake.switchIn]) rfl rfl rfl
  · rintro u (hr | (hu | hu) | hi)
    · exact .inl (.inl hr)
    · cases hu
      exact hsole
    · cases hu
      exact .inl (.inr (.inl (.inl hc)))
    · exact .inl (.inr (.inr hi))
  · rintro u hu hu'
    exact hne (some.inj (hu'.trans hu.symm))
  · intro hserving
    simp [hset.2] at hserving
  · exact hfits.ready
  · rintro u (hu | hu)
    · cases hu
      exact ⟨_, hnew, rfl, by simp [Handshake.switchIn]⟩
    · cases hu
      exact hfits.standing (.inl hc)
  · intro u x hu hx
    cases hu
    cases mem_unique hnew hx
    simp [Handshake.switchIn]
  · exact hfits.issued
  · exact hfits.idle

end

lemma requeued (c : Fin N) (tid : Tid) (h : Placed s) (hf : (s.core c).switchedFrom = some tid)
    (hidle : (s.core c).idle ≠ some tid) (ht : s.sched.threads.get tid = some t)
    (hs : t.handshake.state = .running) : Placed (({ s with
      sched := s.sched.modifyThread tid fun t => { t with handshake := t.handshake.preempt } } :
      Cores N T E).pushRunq
        c [tid]) := by
  have hpreempt : Placed { s with
      sched := s.sched.modifyThread tid fun t => { t with handshake := t.handshake.preempt } } := by
    refine ⟨h.grounded.modify fun u hu => ?_, h.seated, h.fits.modify ?_ ?_ ?_ ?_ ?_⟩
    · cases mem_unique ht hu
      exact .handshake (by simp [hs]) (by simp [preempt]) rfl rfl rfl
    · exact fun _ _ _ => rfl
    · exact fun _ _ => id
    · simp [preempt]
    · intro d u hd
      cases h.seated.sole (.inr (.inl (.inl hd))) (.inr (.inl (.inr hf)))
      exact absurd hd (h.seated.left hf)
    · simp [preempt]
  refine hpreempt.join (Core.joined_runq _ [tid]) (nodup_singleton tid) ?_ ?_ <;> intro u hu <;>
    cases mem_singleton.mp hu
  · refine ⟨fun hr => ?_, hidle, .inl (.inr (.inl (.inr hf)))⟩
    obtain ⟨x, hx, hready⟩ := h.fits.ready hr
    cases mem_unique ht hx
    simp [hs] at hready
  · refine ⟨{ t with handshake := t.handshake.preempt }, ?_, rfl⟩
    rw [modifyThread, get_modify, update_self, ht]
    rfl

lemma switchTo {runnable : Bool} (h : Placed s) (hset : s.Settled c) (hc : (s.core c).current = some tid)
    (hne : next ≠ tid) (hqueued : next ∉ (s.core c).ready)
    (hsole : (s.core c).Has next ∨ ∀ d, ¬(s.core d).Has next)
    (hs : ∀ t, s.sched.threads.get next = some t → t.handshake.state ≠ .blocked ∧ t.handshake.state ≠ .dead)
      (hrun : runnable → (s.sched.running tid).isSome) (hstep : s.switchTo c tid next runnable = some s') :
        Placed s' := by
  rw [Cores.switchTo] at hstep
  cases hq : runnable && (s.core c).idle != some tid with
  | false =>
    simp only [hq, Bool.false_eq_true, if_false] at hstep
    split_ifs at hstep with hsome
    cases hstep
    obtain ⟨t, ht⟩ := isSome_iff_exists.mp hsome
    exact h.switched hset hc hne hqueued hsole ht (hs t ht)
  | true =>
    simp only [hq, if_true] at hstep
    split_ifs at hstep with hsome
    cases hstep
    obtain ⟨hrunnable, hidle⟩ := Bool.and_eq_true_iff.mp hq
    obtain ⟨x, hx⟩ := isSome_iff_exists.mp (hrun hrunnable)
    obtain ⟨hx, hrunning⟩ := running_eq_some hx
    obtain ⟨t, ht⟩ : ∃ t, s.sched.threads.get next = some t := by
      simpa [modifyThread, get_modify, hne, isSome_iff_exists, pushRunq,
        modifyCore] using hsome
    -- the same state, with the switch first and the way back to the queue after it
    have hsw := requeued c tid (h.switched hset hc hne hqueued hsole ht (hs t ht))
      (by simp [modifyCore]) (by simpa [modifyCore] using hidle)
      (by simpa [modifyCore, modifyThread, get_modify, hne.symm] using hx) hrunning
    simpa [modifyCore, pushRunq, modifyThread, modify_comm _ hne] using hsw

lemma schedule (h : Placed s) (hset : s.Settled c) (hstep : s.schedule c = some s') : Placed s' := by
  rw [Cores.schedule] at hstep
  split at hstep
  · simp at hstep
  rename_i tid hc
  have hk : Placed (s.endKilled tid) := h.endKilled
  dsimp only at hstep
  split at hstep
  · rename_i next runq hq
    have hready : (s.core c).ready = next :: (runq ++ (s.core c).inbox ++
      ((s.core c).serving.map Prod.fst).toList) := by
      rw [Core.ready, show (s.core c).runq = next :: runq from hq]
      rfl
    have hnodup := h.seated.nodup c
    rw [hready, nodup_cons] at hnodup
    have hpop : Placed ((s.endKilled tid).modifyCore c fun k => { k with runq }) := by
      refine hk.shrink ?_ hnodup.2 rfl (.inl rfl) rfl hk.seated.empty
      exact fun u hu => hready ▸ mem_cons_of_mem next hu
    have hmem : next ∈ (s.core c).ready := hready ▸ mem_cons_self
    obtain ⟨t, ht, hstate⟩ := hk.fits.ready (c := c) hmem
    have hne : next ≠ tid := by
      rintro rfl
      exact hk.fits.current hc ht hstate
    rw [if_neg hne] at hstep
    have hcore : ((s.endKilled tid).modifyCore c fun k => { k with runq }).core c = { s.core c with runq } :=
      update_self ..
    refine hpop.switchTo ?_ ?_ hne ?_ (.inr ?_) ?_ ?_ hstep
    · rw [Cores.Settled, hcore]
      exact hset
    · rw [hcore]
      exact hc
    · rw [hcore]
      exact hnodup.1
    · exact hk.nowhere_of_taken hmem hnodup.1 rfl hset.1 rfl
    · intro u hu
      cases mem_unique ht hu
      simp [hstate]
    · exact id
  · split_ifs at hstep with hrunnable
    · cases hstep
      exact hk
    split at hstep
    · simp at hstep
    rename_i idle hidle
    split_ifs at hstep with hne
    refine hk.switchTo hset hc hne (hk.seated.spare hidle) (.inl (.inr (.inr hidle))) ?_ ?_ hstep
    · intro u hu
      obtain ⟨hb, hd, -⟩ := hk.fits.idle hidle hu
      exact ⟨hb, hd⟩
    · exact id

lemma run_section {a : Action} (h : Placed s) (hstep : s.run c a = some s') : ∃ tid sched,
    s.sched.step a = some sched ∧ s' = s.after c c sched ∧ Section (some tid) s.sched sched ∧
      ∀ d, (s.core d).idle ≠ some tid := by
  rw [run] at hstep
  split_ifs at hstep with hact
  obtain ⟨sched, hsched, rfl⟩ := map_eq_some_iff.mp hstep
  obtain ⟨hsome, hcurrent, hidle⟩ := hact
  obtain ⟨tid, htid⟩ := isSome_iff_exists.mp hsome
  rw [htid] at hcurrent
  obtain ⟨t, ht, hcpu, -⟩ := h.fits.standing (.inl hcurrent.symm)
  refine ⟨tid, sched, hsched, rfl, step_section htid (fun u hu => ?_) hsched, fun d hd => ?_⟩
  · cases mem_unique ht hu
    exact hcpu
  · cases h.seated.sole (.inr (.inr hd)) (.inr (.inl (.inl hcurrent.symm)))
    exact hidle (hcurrent.symm.trans hd.symm)

lemma run {a : Action} (h : Placed s) (hstep : s.run c a = some s') : Placed s' := by
  obtain ⟨tid, sched, hsched, rfl, hsec, hidle⟩ := h.run_section hstep
  have hm := step_micros h.grounded.linked h.grounded.replies (permits_unrestricted a) hsched
  refine h.after (h.grounded.micros hm fun _ => hsec.issued) hsec ?_
  intro d u hu
  cases hu
  exact hidle d

lemma irqNotify {ep : EpId} (h : Placed s) : Placed (s.after c target (s.sched.irqNotify ep)) := by
  have hsec : Section none s.sched (s.sched.irqNotify ep) := irqNotify_section
  have hm := irqNotify_micros h.grounded.linked (permits_unrestricted (.irqNotify ep))
  exact h.after (h.grounded.micros hm fun _ => hsec.issued) hsec (by simp)

lemma reapThreads (l : List Tid) (h : Placed s)
    (hl : ∀ u ∈ l, ∀ t, s.sched.threads.get u = some t → t.Reapable ∧ t.handshake.onCpu = false)
    (hlast : ∀ u ∈ l, ∀ t, s.sched.threads.get u = some t → (unpack u).2 + 1 < 2 ^ 32) :
    Placed { s with sched := l.foldl reapThread s.sched } := by
  induction l generalizing s with
  | nil => exact h
  | cons u l ih =>
    have hun : Placed { s with sched := s.sched.unlinkCorpse u } := by
      have hsec : Section none s.sched (s.sched.unlinkCorpse u) := .of_threads (threads_unlinkCorpse u)
      exact h.of_section (h.grounded.micros (R := unrestricted) unlinkCorpse_micros fun _ => hsec.issued) hsec
        (by simp)
    have hreaped : Placed { s with sched := s.sched.reapThread u } := by
      cases ht : s.sched.threads.get u with
      | none =>
        have hnone : (s.sched.unlinkCorpse u).threads.remove u = none := by
          rw [threads_unlinkCorpse]
          exact remove_eq_none_iff.mpr ht
        simpa [Scheduler.reapThread, Scheduler.removeThread, hnone] using hun
      | some t =>
        obtain ⟨hr, hoff⟩ := hl u mem_cons_self t ht
        have ht' : (s.sched.unlinkCorpse u).threads.get u = some t := by rwa [threads_unlinkCorpse]
        exact hun.removeThread ht' hr (offQueue_unlinkCorpse h.grounded.linked ht hr) (h.fits.not_standing ht hoff)
          (hlast u mem_cons_self t ht)
    have hback : ∀ {v t}, (s.sched.reapThread u).threads.get v = some t → s.sched.threads.get v = some t := by
      intro v t hv
      rw [← th_view, th_reapThread, update_apply] at hv
      split at hv
      · simp at hv
      · exact hv
    refine ih hreaped ?_ ?_
    · exact fun v hv t ht => hl v (mem_cons_of_mem u hv) t (hback ht)
    · exact fun v hv t ht => hlast v (mem_cons_of_mem u hv) t (hback ht)

lemma reapRegionObjects {base limit : ℕ} (h : Placed s) (hok : s.Unwrapped (c, .reapRegionObjects base limit))
    (hset : s.Settled c) : Placed (s.after c c (s.sched.reapRegionObjects base limit).2) := by
  obtain ⟨l, heq, hl⟩ := reapRegionObjects_eq s.sched base limit
  have hsec : Section none s.sched (s.sched.armed base limit) := armed_section base limit
  have harmed : Placed { s with sched := s.sched.armed base limit } :=
    h.of_section (h.grounded.micros (R := unrestricted) (armed_micros base limit h.grounded.linked)
      fun _ => hsec.issued)
      hsec (by simp)
  have hgone : Placed { s with sched := l.foldl reapThread (s.sched.armed base limit) } := by
    refine harmed.reapThreads l ?_ ?_
    · intro u hu t ht
      exact ⟨reapable_of_verdict (hl u hu t ht), offCpu_of_verdict (hl u hu t ht)⟩
    · intro u hu t ht
      obtain ⟨t, ht⟩ := hsec.old ht
      refine hok _ (if_pos hset) (u, t) (mem_iter_iff.mpr ht) ?_
      rw [sched_after, heq, ← th_view, th_reapThreads, if_pos hu]
  rw [heq]
  refine hgone.woken h.fits ?_
  intro tid t t' ht ht' hb hr
  rw [← th_view, th_reapThreads] at ht'
  split at ht'
  · simp at ht'
  · exact hsec.woken ht ht' hb hr

lemma grant {cap : Cap} (h : Placed s) (hstep : s.grant c cap = some s') : Placed s' := by
  rw [Cores.grant] at hstep
  split at hstep
  · simp at hstep
  split_ifs at hstep with hrep
  obtain ⟨⟨slot, sched⟩, hgrant, rfl⟩ := map_eq_some_iff.mp hstep
  exact h.of_section (h.grounded.grant (by simpa using hrep) hgrant) (grant_section hgrant) (by simp)

lemma settledStep {b : CoreAction N} (h : Placed s) (hok : s.Unwrapped (c, b)) (hset : s.Settled c)
    (hstep : s.settledStep c b = some s') : Placed s' := by
  cases b with
  | finishSwitch | serveStealRequest => simp [Cores.settledStep] at hstep
  | schedule => exact h.schedule hset hstep
  | drainInbox =>
    cases hstep
    exact h.drainInbox
  | takeStealRequest =>
    cases hstep
    exact h.takeStealRequest hset
  | tryInitiateSteal =>
    cases hstep
    exact h.tryInitiateSteal
  | run => exact h.run hstep
  | irqNotify =>
    cases hstep
    exact h.irqNotify
  | reapRegionObjects =>
    cases hstep
    exact h.reapRegionObjects hok hset
  | adoptSecondaryIdle => exact h.adoptSecondaryIdle hstep
  | spawnOn => exact h.spawnOn hstep
  | createEndpointFrom =>
    obtain ⟨⟨ep, sched⟩, hcreate, rfl⟩ := map_eq_some_iff.mp hstep
    exact h.of_section (h.grounded.createEndpointFrom hcreate) (createEndpointFrom_section hcreate) (by simp)
  | createTcb =>
    obtain ⟨⟨tid, sched⟩, hins, rfl⟩ := map_eq_some_iff.mp hstep
    exact h.insertThread (fresh_new (.inr (.inr rfl))) hins
  | grant => exact h.grant hstep
  | configureTcb =>
    obtain ⟨sched, hok, rfl⟩ := map_eq_some_iff.mp hstep
    replace hok := eq_ok_of_toOption hok
    exact h.of_section (h.grounded.configureTcb hok) (configureTcb_section hok) (by simp)
  | tcbInsertCap =>
    obtain ⟨hrep, hstep⟩ := ite_none_left_eq_some.mp hstep
    obtain ⟨⟨slot, sched⟩, hok, rfl⟩ := map_eq_some_iff.mp hstep
    replace hok := eq_ok_of_toOption hok
    exact h.of_section (h.grounded.tcbInsertCap (by simpa using hrep) hok) (tcbInsertCap_section hok) (by simp)
  | startTcb =>
    cases hstep
    exact h.startTcb

lemma step {a : Fin N × CoreAction N} (h : Placed s) (hok : s.Unwrapped a) (hstep : s.step a = some s') :
    Placed s' := by
  obtain ⟨c, b⟩ := a
  cases b with
  | finishSwitch =>
    cases hstep
    exact h.finishSwitch hok
  | serveStealRequest =>
    cases hstep
    exact h.serveStealRequest
  | _ =>
    obtain ⟨hset, hstep⟩ := ite_none_right_eq_some.mp hstep
    exact h.settledStep hok hset hstep

end Placed

lemma Cores.Start.placed (h : s.Start) : Placed s := by
  have hready : ∀ c, (s.core c).ready = [] := by
    intro c
    obtain ⟨hq, hi, hs⟩ := h.queues c
    simp [Core.ready, hq, hi, hs]
  have hcurrent : ∀ {c tid}, (s.core c).Standing tid → (s.core c).current = some tid := by
    rintro c tid (hc | hf)
    · exact hc
    · simp [h.switched c] at hf
  refine ⟨h.sched.grounded, ⟨?_, ?_, ?_, ?_, ?_⟩, ⟨?_, ?_, ?_, ?_, ?_⟩⟩
  · rintro c d tid (hr | hs | hi) (hr' | hs' | hi')
    any_goals simp [hready] at hr
    any_goals simp [hready] at hr'
    · exact h.alone (hcurrent hs) (hcurrent hs')
    · exact (h.own hi' (.inr (hcurrent hs))).symm
    · exact h.own hi (.inr (hcurrent hs'))
    · exact h.own hi (.inl hi')
  · simp [hready]
  · simp [h.switched]
  · simp [hready]
  · simp [h.switched]
  · simp [hready]
  · intro c tid hs
    obtain ⟨t, ht, hh⟩ := h.current (hcurrent hs)
    exact ⟨t, ht, by simp [hh, onCpuNow]⟩
  · intro c tid t hc ht
    obtain ⟨u, hu, hh⟩ := h.current hc
    cases mem_unique ht hu
    simp [hh, onCpuNow]
  · intro c tid hi
    obtain ⟨t, ht, -⟩ := h.idle hi
    exact issued_of_get ht
  · intro c tid t hi ht
    obtain ⟨u, hu, he⟩ := h.idle hi
    cases mem_unique ht hu
    obtain ⟨hb, hd, -⟩ := (h.sched.threads tid t ht).state
    exact ⟨hb, hd, he⟩

lemma reach_placed (h : Reach Cores.step Cores.Unwrapped Cores.Start s) : Placed s :=
  h.invariant Placed (fun _ hs => hs.placed) fun _ _ _ hp hok hs => hp.step hok hs

end CrickerOs.Kernel
