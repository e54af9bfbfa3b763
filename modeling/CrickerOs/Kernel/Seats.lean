import CrickerOs.Kernel.Births

namespace CrickerOs.Kernel

open Slots WakeHandshake Function List

variable {N T E : ℕ} {core : Fin N → Core N} {k : Core N} {s : Cores N T E} {sched : Scheduler T E}
  {c target : Fin N}
  {tid : Tid} {t : Thread} {tids : List Tid} {actor : Option Tid}

namespace Core

def ready (k : Core N) : List Tid :=
  k.runq ++ k.inbox ++ (k.serving.map Prod.fst).toList

def Standing (k : Core N) (tid : Tid) : Prop :=
  k.current = some tid ∨ k.switchedFrom = some tid

def Has (k : Core N) (tid : Tid) : Prop :=
  tid ∈ k.ready ∨ k.Standing tid ∨ k.idle = some tid

structure Joined (k k' : Core N) (tids : List Tid) : Prop where
  ready : k'.ready.Perm (k.ready ++ tids)
  current : k'.current = k.current
  switchedFrom : k'.switchedFrom = k.switchedFrom
  idle : k'.idle = k.idle
  serving : k'.serving = k.serving

lemma joined_runq (k : Core N) (tids : List Tid) : k.Joined { k with runq := k.runq ++ tids } tids := by
  refine ⟨?_, rfl, rfl, rfl, rfl⟩
  simp only [ready, append_assoc]
  refine List.Perm.append_left _ ?_
  exact perm_append_comm.trans (.of_eq (append_assoc ..))

lemma joined_inbox (k : Core N) (tids : List Tid) : k.Joined { k with inbox := k.inbox ++ tids } tids := by
  refine ⟨?_, rfl, rfl, rfl, rfl⟩
  simp only [ready, append_assoc]
  exact (perm_append_comm.append_left _).append_left _

end Core

structure Seated (core : Fin N → Core N) : Prop where
  sole : ∀ {c d tid}, (core c).Has tid → (core d).Has tid → c = d
  nodup : ∀ c, (core c).ready.Nodup
  left : ∀ {c tid}, (core c).switchedFrom = some tid → (core c).current ≠ some tid
  spare : ∀ {c tid}, (core c).idle = some tid → tid ∉ (core c).ready
  empty : ∀ {c}, (core c).serving.isSome → (core c).switchedFrom = none

structure Seatable (core : Fin N → Core N) (c : Fin N) (tid : Tid) : Prop where
  ready : tid ∉ (core c).ready
  idle : (core c).idle ≠ some tid
  sole : (core c).Has tid ∨ ∀ d, ¬(core d).Has tid

lemma seatable_of_nowhere (h : ∀ d, ¬(core d).Has tid) : Seatable core c tid :=
  ⟨fun hr => h c (.inl hr), fun hi => h c (.inr (.inr hi)), .inr h⟩

namespace Seated

lemma update (h : Seated core) (hhas : ∀ {tid}, k.Has tid → (core c).Has tid ∨ ∀ d, ¬(core d).Has tid)
    (hnodup : k.ready.Nodup) (hleft : ∀ {tid}, k.switchedFrom = some tid → k.current ≠ some tid)
    (hspare : ∀ {tid}, k.idle = some tid → tid ∉ k.ready) (hempty : k.serving.isSome → k.switchedFrom = none) :
    Seated (update core c k) := by
  have hsole : ∀ {d tid}, d ≠ c → k.Has tid → ¬(core d).Has tid := by
    intro d tid hd hk hdt
    rcases hhas hk with hc | hn
    · exact hd (h.sole hdt hc)
    · exact hn d hdt
  refine ⟨?_, ?_, ?_, ?_, ?_⟩
  · intro a b tid ha hb
    rw [update_apply] at ha hb
    split_ifs at ha hb with hac hbc hbc
    · exact hac.trans hbc.symm
    · exact absurd hb (hsole hbc ha)
    · exact absurd ha (hsole hac hb)
    · exact h.sole ha hb
  all_goals intro a
  all_goals rw [update_apply]
  all_goals split_ifs
  · exact hnodup
  · exact h.nodup a
  · exact hleft
  · exact h.left
  · exact hspare
  · exact h.spare
  · exact hempty
  · exact h.empty

lemma join (h : Seated core) (hj : (core c).Joined k tids) (hnodup : tids.Nodup)
    (hnew : ∀ tid ∈ tids, Seatable core c tid) : Seated (Function.update core c k) := by
  refine h.update ?_ ?_ ?_ ?_ ?_
  · rintro tid (hr | hs | hi)
    · rcases mem_append.mp (hj.ready.mem_iff.mp hr) with hr | hr
      · exact .inl (.inl hr)
      · exact (hnew tid hr).sole
    · rw [Core.Standing, hj.current, hj.switchedFrom] at hs
      exact .inl (.inr (.inl hs))
    · exact .inl (.inr (.inr (hj.idle ▸ hi)))
  · refine hj.ready.nodup_iff.mpr ((h.nodup c).append hnodup ?_)
    exact fun tid hr ht => (hnew tid ht).ready hr
  · rw [hj.current, hj.switchedFrom]
    exact h.left
  · intro tid hi hr
    rw [hj.idle] at hi
    rcases mem_append.mp (hj.ready.mem_iff.mp hr) with hr | hr
    · exact h.spare hi hr
    · exact (hnew tid hr).idle hi
  · rw [hj.serving, hj.switchedFrom]
    exact h.empty

end Seated

structure Fits (s : Cores N T E) : Prop where
  ready : ∀ {c tid}, tid ∈ (s.core c).ready → ∃ t, s.sched.threads.get tid = some t ∧ t.handshake.state = .ready
  standing : ∀ {c tid}, (s.core c).Standing tid →
    ∃ t, s.sched.threads.get tid = some t ∧ t.handshake.onCpu ∧ t.handshake.state ≠ .embryo
  current : ∀ {c tid t}, (s.core c).current = some tid → s.sched.threads.get tid = some t →
    t.handshake.state ≠ .ready
  issued : ∀ {c tid}, (s.core c).idle = some tid → s.sched.threads.Issued tid
  idle : ∀ {c tid t}, (s.core c).idle = some tid → s.sched.threads.get tid = some t →
    t.handshake.state ≠ .blocked ∧ t.handshake.state ≠ .dead ∧ t.handshake.state ≠ .embryo

namespace Fits

variable (h : Fits s)
include h

section

variable (ht : s.sched.threads.get tid = some t)
include ht

lemma not_standing (hoff : t.handshake.onCpu = false) (c : Fin N) :
    ¬(s.core c).Standing tid := by
  intro hs
  obtain ⟨u, hu, hcpu, -⟩ := h.standing hs
  cases Option.mem_unique ht hu
  simp [hoff] at hcpu

lemma nowhere_of_blocked (hb : t.handshake.state = .blocked)
    (hoff : t.handshake.onCpu = false) (c : Fin N) : ¬(s.core c).Has tid := by
  rintro (hr | hs | hi)
  · obtain ⟨u, hu, hready⟩ := h.ready hr
    cases Option.mem_unique ht hu
    simp [hb] at hready
  · exact h.not_standing ht hoff c hs
  · exact (h.idle hi ht).1 hb

lemma nowhere_of_embryo (he : t.handshake.state = .embryo)
    (c : Fin N) : ¬(s.core c).Has tid := by
  rintro (hr | hs | hi)
  · obtain ⟨u, hu, hready⟩ := h.ready hr
    cases Option.mem_unique ht hu
    simp [he] at hready
  · obtain ⟨u, hu, -, hne⟩ := h.standing hs
    cases Option.mem_unique ht hu
    exact hne he
  · exact (h.idle hi ht).2.2 he

end

lemma nowhere_of_new (hn : ¬s.sched.threads.Issued tid) (c : Fin N) : ¬(s.core c).Has tid := by
  rintro (hr | hs | hi)
  · obtain ⟨u, hu, -⟩ := h.ready hr
    exact hn (Table.issued_of_get hu)
  · obtain ⟨u, hu, -⟩ := h.standing hs
    exact hn (Table.issued_of_get hu)
  · exact hn (h.issued hi)

lemma of_section (hs : Section actor s.sched sched)
    (ha : ∀ {c tid}, actor = some tid → (s.core c).idle ≠ some tid) : Fits { s with sched } := by
  refine ⟨?_, ?_, ?_, ?_, ?_⟩
  · intro c tid hr
    obtain ⟨t, ht, hready⟩ := h.ready hr
    obtain ⟨t', ht', hm⟩ := hs.kept ht
    exact ⟨t', ht', by simpa [hready] using hm.state⟩
  · intro c tid hst
    obtain ⟨t, ht, hcpu, he⟩ := h.standing hst
    obtain ⟨t', ht', hm⟩ := hs.kept ht
    refine ⟨t', ht', hm.onCpu.trans hcpu, ?_⟩
    rcases hm.state with heq | ⟨-, hoff, -⟩ | ⟨-, -, -, -, hne⟩
    · exact heq ▸ he
    · simp [hcpu] at hoff
    · exact hne
  · intro c tid t' hc ht'
    obtain ⟨t, ht, hcpu, -⟩ := h.standing (.inl hc)
    obtain ⟨u, hu, hm⟩ := hs.kept ht
    cases Option.mem_unique ht' hu
    rcases hm.state with heq | ⟨-, hoff, -⟩ | ⟨-, -, -, hne, -⟩
    · exact heq ▸ h.current hc ht
    · simp [hcpu] at hoff
    · exact hne
  · intro c tid hi
    exact hs.issued (h.issued hi)
  · intro c tid t' hi ht'
    obtain ⟨t, ht⟩ := hs.old ht'
    obtain ⟨u, hu, hm⟩ := hs.kept ht
    cases Option.mem_unique ht' hu
    rcases hm.state with heq | ⟨-, -, hready⟩ | ⟨hact, -⟩
    · exact heq ▸ h.idle hi ht
    · simp [hready]
    · exact absurd hi (ha hact)

lemma modify {f : Thread → Thread}
    (hready : ∀ {c t}, tid ∈ (s.core c).ready → s.sched.threads.get tid = some t → t.handshake.state = .ready →
      (f t).handshake.state = .ready)
    (hstanding : ∀ {c t}, (s.core c).Standing tid → s.sched.threads.get tid = some t → t.handshake.onCpu →
      (f t).handshake.onCpu)
    (hembryo : ∀ {t}, s.sched.threads.get tid = some t → t.handshake.state ≠ .embryo →
    (f t).handshake.state ≠ .embryo) (hcurrent : ∀ {c t}, (s.core c).current = some tid →
      s.sched.threads.get tid = some t → t.handshake.state ≠ .ready → (f t).handshake.state ≠ .ready)
    (hidle : ∀ {t}, s.sched.threads.get tid = some t → t.handshake.state ≠ .blocked → t.handshake.state ≠ .dead →
      (f t).handshake.state ≠ .blocked ∧ (f t).handshake.state ≠ .dead) :
    Fits { s with sched := s.sched.modifyThread tid f } := by
  have hget : (s.sched.modifyThread tid f).threads.get =
      update s.sched.threads.get tid ((s.sched.threads.get tid).map f) := Table.get_modify ..
  refine ⟨?_, ?_, ?_, fun hi => issued_modifyThread (h.issued hi), ?_⟩
  · intro c u hr
    obtain ⟨t, ht, hs⟩ := h.ready hr
    rw [hget, update_apply]
    split
    · subst u
      exact ⟨f t, by rw [ht]; rfl, hready hr ht hs⟩
    · exact ⟨t, ht, hs⟩
  · intro c u hst
    obtain ⟨t, ht, hcpu, he⟩ := h.standing hst
    rw [hget, update_apply]
    split
    · subst u
      exact ⟨f t, by rw [ht]; rfl, hstanding hst ht hcpu, hembryo ht he⟩
    · exact ⟨t, ht, hcpu, he⟩
  · intro c u t' hc ht'
    rw [hget, update_apply] at ht'
    split at ht'
    · subst u
      obtain ⟨t, ht, rfl⟩ := Option.map_eq_some_iff.mp ht'
      exact hcurrent hc ht (h.current hc ht)
    · exact h.current hc ht'
  · intro c u t' hi ht'
    rw [hget, update_apply] at ht'
    split at ht'
    · subst u
      obtain ⟨t, ht, rfl⟩ := Option.map_eq_some_iff.mp ht'
      obtain ⟨hb, hd, he⟩ := h.idle hi ht
      exact ⟨(hidle ht hb hd).1, (hidle ht hb hd).2, hembryo ht he⟩
    · exact h.idle hi ht'

lemma remove (hget : sched.threads.get = update s.sched.threads.get tid none)
    (hissued : ∀ {u}, s.sched.threads.Issued u → sched.threads.Issued u) (hready : ∀ c, tid ∉ (s.core c).ready)
    (hstanding : ∀ c, ¬(s.core c).Standing tid) : Fits { s with sched } := by
  have hold : ∀ {u t}, sched.threads.get u = some t → s.sched.threads.get u = some t := by
    intro u t hu
    rw [hget, update_apply] at hu
    split at hu
    · simp at hu
    · exact hu
  have hkeep : ∀ {u}, u ≠ tid → sched.threads.get u = s.sched.threads.get u := by
    intro u hne
    rw [hget, update_of_ne hne]
  refine ⟨?_, ?_, fun hc ht => h.current hc (hold ht), fun hi => hissued (h.issued hi),
    fun hi ht => h.idle hi (hold ht)⟩
  · intro c u hr
    rw [hkeep (fun heq => hready c (heq ▸ hr))]
    exact h.ready hr
  · intro c u hs
    rw [hkeep (fun heq => hstanding c (heq ▸ hs))]
    exact h.standing hs

lemma insert (hins : s.sched.insertThread t = some (tid, sched)) : Fits { s with sched } := by
  obtain ⟨hnew, hview, hissued⟩ := insertThread_eq_some hins
  have hget : sched.threads.get = update s.sched.threads.get tid (some t) := congrArg View.th hview
  have hkeep : ∀ {c u}, (s.core c).Has u → sched.threads.get u = s.sched.threads.get u := by
    intro c u hu
    rw [hget, update_of_ne]
    rintro rfl
    exact h.nowhere_of_new hnew c hu
  refine ⟨?_, ?_, ?_, fun hi => hissued _ (h.issued hi), ?_⟩
  · intro c u hr
    rw [hkeep (.inl hr)]
    exact h.ready hr
  · intro c u hs
    rw [hkeep (.inr (.inl hs))]
    exact h.standing hs
  · intro c u x hc hu
    rw [hkeep (.inr (.inl (.inl hc)))] at hu
    exact h.current hc hu
  · intro c u x hi hu
    rw [hkeep (.inr (.inr hi))] at hu
    exact h.idle hi hu

lemma update
    (hready : ∀ {tid}, tid ∈ k.ready → ∃ t, s.sched.threads.get tid = some t ∧ t.handshake.state = .ready)
    (hstanding : ∀ {tid}, k.Standing tid →
      ∃ t, s.sched.threads.get tid = some t ∧ t.handshake.onCpu ∧ t.handshake.state ≠ .embryo)
    (hcurrent : ∀ {tid t}, k.current = some tid → s.sched.threads.get tid = some t → t.handshake.state ≠ .ready)
    (hissued : ∀ {tid}, k.idle = some tid → s.sched.threads.Issued tid)
    (hidle : ∀ {tid t}, k.idle = some tid → s.sched.threads.get tid = some t →
      t.handshake.state ≠ .blocked ∧ t.handshake.state ≠ .dead ∧ t.handshake.state ≠ .embryo) :
    Fits { s with core := update s.core c k } := by
  refine ⟨?_, ?_, ?_, ?_, ?_⟩
  all_goals intro d
  all_goals dsimp only
  all_goals rw [update_apply]
  all_goals split_ifs
  · exact hready
  · exact h.ready
  · exact hstanding
  · exact h.standing
  · exact hcurrent
  · exact h.current
  · exact hissued
  · exact h.issued
  · exact hidle
  · exact h.idle

end Fits

structure Placed (s : Cores N T E) : Prop where
  grounded : Grounded s.sched
  seated : Seated s.core
  fits : Fits s

namespace Placed

lemma join (h : Placed s) (hj : (s.core c).Joined k tids) (hnodup : tids.Nodup)
    (hnew : ∀ tid ∈ tids, Seatable s.core c tid)
    (hready : ∀ tid ∈ tids, ∃ t, s.sched.threads.get tid = some t ∧ t.handshake.state = .ready) :
    Placed { s with core := Function.update s.core c k } := by
  refine ⟨h.grounded, h.seated.join hj hnodup hnew, ?_⟩
  apply h.fits.update
  · intro tid hr
    rcases mem_append.mp (hj.ready.mem_iff.mp hr) with hr | hr
    · exact h.fits.ready hr
    · exact hready tid hr
  · intro tid hs
    rw [Core.Standing, hj.current, hj.switchedFrom] at hs
    exact h.fits.standing hs
  · rw [hj.current]
    exact h.fits.current
  · rw [hj.idle]
    exact h.fits.issued
  · rw [hj.idle]
    exact h.fits.idle

lemma placeOn (h : Placed s) (hnodup : tids.Nodup) (hnew : ∀ tid ∈ tids, ∀ d, ¬(s.core d).Has tid)
    (hready : ∀ tid ∈ tids, ∃ t, s.sched.threads.get tid = some t ∧ t.handshake.state = .ready) :
    Placed (s.placeOn c target tids) := by
  rw [Cores.placeOn]
  split
  · exact h.join (Core.joined_runq _ _) hnodup (fun tid hmem => seatable_of_nowhere (hnew tid hmem)) hready
  · exact h.join (Core.joined_inbox _ _) hnodup (fun tid hmem => seatable_of_nowhere (hnew tid hmem)) hready

lemma shrink (h : Placed s) (hready : k.ready ⊆ (s.core c).ready) (hnodup : k.ready.Nodup)
    (hcurrent : k.current = (s.core c).current)
    (hswitched : k.switchedFrom = (s.core c).switchedFrom ∨ k.switchedFrom = none)
    (hidle : k.idle = (s.core c).idle) (hempty : k.serving.isSome → k.switchedFrom = none) :
    Placed { s with core := update s.core c k } := by
  have hfrom : ∀ {tid}, k.switchedFrom = some tid → (s.core c).switchedFrom = some tid := by
    rcases hswitched with heq | hnone
    · exact fun hs => heq ▸ hs
    · simp [hnone]
  have hstanding : ∀ {tid}, k.Standing tid → (s.core c).Standing tid := .imp (hcurrent ▸ id) hfrom
  refine ⟨h.grounded, h.seated.update ?_ hnodup ?_ ?_ hempty, h.fits.update ?_ ?_ ?_ ?_ ?_⟩
  · rintro tid (hr | hs | hi)
    · exact .inl (.inl (hready hr))
    · exact .inl (.inr (.inl (hstanding hs)))
    · exact .inl (.inr (.inr (hidle ▸ hi)))
  · intro tid hs
    rw [hcurrent]
    exact h.seated.left (hfrom hs)
  · intro tid hi hr
    exact h.seated.spare (hidle ▸ hi) (hready hr)
  · exact fun hr => h.fits.ready (hready hr)
  · exact fun hs => h.fits.standing (hstanding hs)
  · rw [hcurrent]
    exact h.fits.current
  · rw [hidle]
    exact h.fits.issued
  · rw [hidle]
    exact h.fits.idle

lemma of_section (h : Placed s) (hg : Grounded sched) (hs : Section actor s.sched sched)
    (ha : ∀ {c tid}, actor = some tid → (s.core c).idle ≠ some tid) : Placed { s with sched } :=
  ⟨hg, h.seated, h.fits.of_section hs ha⟩

lemma woken (h : Placed { s with sched }) (hf : Fits s)
    (hoff : ∀ {tid t t'}, s.sched.threads.get tid = some t → sched.threads.get tid = some t' →
      t.handshake.state = .blocked → t'.handshake.state = .ready → t.handshake.onCpu = false) :
    Placed (s.after c target sched) := by
  have hwoken : ∀ tid ∈ s.sched.readied sched, ∃ t t', s.sched.threads.get tid = some t ∧
      sched.threads.get tid = some t' ∧ t.handshake.state = .blocked ∧ t'.handshake.state = .ready := by
    intro tid hmem
    obtain ⟨-, hwoken⟩ := mem_filter.mp hmem
    simp only [decide_eq_true_eq, Option.any_eq_true] at hwoken
    obtain ⟨⟨t, ht, hb⟩, t', ht', hr⟩ := hwoken
    exact ⟨t, t', ht, ht', hb, hr⟩
  refine h.placeOn ?_ ?_ ?_
  · exact (nodup_dedup _).filter _
  · intro tid hmem
    obtain ⟨t, t', ht, ht', hb, hr⟩ := hwoken tid hmem
    exact hf.nowhere_of_blocked ht hb (hoff ht ht' hb hr)
  · intro tid hmem
    obtain ⟨t, t', -, ht', -, hr⟩ := hwoken tid hmem
    exact ⟨t', ht', hr⟩

lemma after (h : Placed s) (hg : Grounded sched) (hs : Section actor s.sched sched)
    (ha : ∀ {c tid}, actor = some tid → (s.core c).idle ≠ some tid) : Placed (s.after c target sched) :=
  (h.of_section hg hs ha).woken h.fits hs.woken

end Placed

end CrickerOs.Kernel
