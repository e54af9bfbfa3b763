import CrickerOs.Kernel.Stages
import CrickerOs.Library.Traces

namespace CrickerOs.Kernel

open Slots WakeHandshake Function

variable {v v' : View} {tid caller : Tid} {t t' u : Thread} {n : EpId} {R : Restriction}

lemma allows_grant_replyCap : (replyCap tid).rights.allows .grant = false := by
  change Capability.Rights.write.allows .grant = false
  decide

namespace Thread

/-- A reply capability is only ever a thread's own, minted for its call, or one it was handed and cannot pass
on. -/
structure Sealed (t : Thread) (tid : Tid) : Prop where
  outgoing : ∀ cap, t.outgoingCap = some cap → cap.object.isReply → cap = replyCap tid
  kept : ∀ slot cap, t.cspace.lookup slot = some cap → cap.object.isReply → cap.rights.allows .grant = false
  passes : ∀ ep data cap, t.frame = .calling (.sendCap ep data cap) ∨ t.frame = .parked (.sendCap ep data cap) →
    cap.object.isReply = false
  replies : ∀ caller m0 m1 slot, t.frame = .calling (.reply caller m0 m1 slot) →
    ∃ cap, t.cspace.lookup slot = some cap ∧ cap.object = .reply caller

def Holds (t : Thread) (slot : ℕ) (caller : Tid) : Prop :=
  (∃ cap, t.cspace.lookup slot = some cap ∧ cap.object = .reply caller) ∧ t.frame ≠ .consuming slot

lemma Sealed.congr (hs : t.Sealed tid) (ho : t'.outgoingCap = t.outgoingCap ∨ t'.outgoingCap = none)
    (hc : t'.cspace = t.cspace) (hf : t'.frame = t.frame ∨ (∀ p, t'.frame ≠ .calling p) ∧
      ∀ ep data cap, t'.frame ≠ .parked (.sendCap ep data cap)) : t'.Sealed tid := by
  refine ⟨?_, hc ▸ hs.kept, ?_, ?_⟩
  · rcases ho with ho | ho
    · exact ho ▸ hs.outgoing
    · simp [ho]
  · rcases hf with hf | hf
    · exact hf ▸ hs.passes
    · exact fun ep data cap h => (h.elim (hf.1 _) (hf.2 ep data cap)).elim
  · rcases hf with hf | hf
    · exact hf ▸ hc ▸ hs.replies
    · exact fun c m0 m1 slot h => absurd h (hf.1 _)

variable {slot : ℕ}

section

variable (hs : t.Sealed tid)
include hs

lemma Sealed.erase (hc : t'.cspace = t.cspace.erase slot)
    (ho : t'.outgoingCap = t.outgoingCap) (hf : t'.frame = .user) : t'.Sealed tid := by
  refine ⟨ho ▸ hs.outgoing, ?_, by simp [hf], by simp [hf]⟩
  intro i cap hi
  rw [hc, Capability.CSpace.lookup_erase, update_apply] at hi
  split at hi
  · simp at hi
  · exact hs.kept i cap hi

lemma Sealed.act (h : Act t t') : t'.Sealed tid := by
  cases h with
  | invoke hf ha =>
    refine ⟨hs.outgoing, hs.kept, ?_, ?_⟩
    · rintro ep data cap (rfl | rfl) <;> simp [Admits] at ha
    · rintro c m0 m1 slot rfl
      exact ha
  | consume | delete => exact hs.erase rfl rfl (by simp_all)
  | exit | die => exact hs.congr (.inl rfl) rfl (.inl rfl)
  | _ => exact hs.congr (.inl rfl) rfl (.inr (by simp))

lemma Sealed.taken (h : Taken R t t') : t'.Sealed tid := by
  cases h with
  | serve _ ho | leave _ ho => exact hs.congr ho rfl (.inl rfl)
  | abort => exact hs.congr (.inl rfl) rfl (.inl rfl)

lemma Sealed.hold {cap : Cap} {cspace : CSpace} {origin : CallId}
    (hi : t.cspace.insert cap = .ok (slot, cspace)) (hc : cap.object.isReply = false ∨ ∃ c, cap = replyCap c) :
    (t.holding cspace slot origin).Sealed tid := by
  obtain ⟨hnone, -, hl⟩ := Capability.CSpace.insert_eq_ok hi
  refine ⟨hs.outgoing, ?_, hs.passes, ?_⟩
  · intro i c hlook hrep
    rw [holding, hl, update_apply] at hlook
    split at hlook
    · cases hlook
      rcases hc with hc | ⟨x, rfl⟩
      · simp [hc] at hrep
      · exact allows_grant_replyCap
    · exact hs.kept i c hlook hrep
  · intro c m0 m1 i hf
    obtain ⟨cap', hlook, hobj⟩ := hs.replies c m0 m1 i hf
    refine ⟨cap', ?_, hobj⟩
    rw [holding, hl, update_of_ne]
    · exact hlook
    · rintro rfl
      simp [hnone] at hlook

lemma Sealed.change (h : Change R v v' tid t t') : t'.Sealed tid := by
  cases h with
  | same => exact hs
  | turn | arm | corpse | abort | deliver | answer => exact hs.congr (.inl rfl) rfl (.inl rfl)
  | act _ ha => exact hs.act ha
  | complete | leave | handOver => exact hs.congr (.inl rfl) rfl (.inr (by simp))
  | pass hat hsrc hg =>
    refine ⟨hs.outgoing, hs.kept, ?_, by simp⟩
    rintro ep data cap (hf | hf)
    swap
    · simp at hf
    obtain ⟨rfl, rfl, rfl⟩ := Prim.sendCap.inj (Frame.calling.inj hf)
    by_contra hrep
    simp [hs.kept _ _ hsrc (by simpa using hrep)] at hg
  | @park p w _ _ _ hat hp _ ho _ =>
    refine ⟨?_, hs.kept, ?_, by simp⟩
    · rintro cap hcap hrep
      rcases ho with rfl | rfl
      · exact hs.outgoing cap hcap hrep
      · cases p <;> simp [Prim.offers] at hcap
        · subst hcap
          simp [hs.passes _ _ _ (.inl hat.2)] at hrep
        · exact hcap.symm
    · rintro ep data cap (hf | hf)
      · simp at hf
      · cases hf
        exact hs.passes ep data cap (.inl hat.2)
  | take _ _ htaken => exact hs.taken htaken
  | hold hi _ hc => exact hs.hold hi (hc.imp_right fun ⟨c, h, _⟩ => ⟨c, h⟩)

end

lemma Holds.congr (h : t'.Holds slot caller) (hc : t'.cspace = t.cspace)
    (hf : t'.frame = t.frame ∨ ∀ i, t.frame ≠ .consuming i) : t.Holds slot caller := by
  refine ⟨hc ▸ h.1, ?_⟩
  rcases hf with hf | hf
  · exact hf ▸ h.2
  · exact hf slot

lemma Holds.act (h : t'.Holds slot caller) (ha : Act t t') :
    t.Holds slot caller ∧ t'.origins slot = t.origins slot := by
  cases ha with
  | @consume i hf =>
    obtain ⟨⟨cap, hl, ho⟩, -⟩ := h
    rw [Capability.CSpace.lookup_erase, update_apply] at hl
    split at hl
    · simp at hl
    · refine ⟨⟨⟨cap, hl, ho⟩, ?_⟩, rfl⟩
      rw [hf]
      simpa [eq_comm] using ‹¬slot = i›
  | @delete i hf =>
    obtain ⟨⟨cap, hl, ho⟩, hne⟩ := h
    rw [Capability.CSpace.lookup_erase, update_apply] at hl
    split at hl
    · simp at hl
    · exact ⟨⟨⟨cap, hl, ho⟩, hne⟩, rfl⟩
  | exit | die => exact ⟨h.congr rfl (.inl rfl), rfl⟩
  | _ => exact ⟨h.congr rfl (.inr (by simp_all)), rfl⟩

lemma Holds.change (h : t'.Holds slot caller) (hc : Change R v v' tid t t') :
    t.Holds slot caller ∧ t'.origins slot = t.origins slot ∨ Minted v v' caller (t'.origins slot) tid ∧
      ∃ call ep, v'.trace = .handed (t'.origins slot) call ep (replyCap caller) (t.call tid) slot none ::
      v.trace := by
  cases hc with
  | same => exact .inl ⟨h, rfl⟩
  | turn | arm | corpse | abort | deliver | answer => exact .inl ⟨h.congr rfl (.inl rfl), rfl⟩
  | act _ ha => exact .inl (h.act ha)
  | complete hat | leave hat | handOver hat | pass hat | park hat =>
    exact .inl ⟨h.congr rfl (.inr (by simp [hat.2])), rfl⟩
  | take _ _ htaken => cases htaken <;> exact .inl ⟨h.congr rfl (.inl rfl), rfl⟩
  | @hold cap i cspace origin call ep hi htrace hc =>
    obtain ⟨-, -, hl⟩ := Capability.CSpace.insert_eq_ok hi
    obtain ⟨⟨cap', hlook, ho⟩, hne⟩ := h
    rw [holding, hl, update_apply] at hlook
    split at hlook
    · subst slot
      cases hlook
      have horigin : (t.holding cspace i origin).origins i = origin := update_self ..
      rw [horigin]
      rcases hc with hc | ⟨c, rfl, hm⟩
      · simp [ho, Object.isReply] at hc
      · obtain rfl : c = caller := by simpa [replyCap] using ho
        exact .inr ⟨hm, call, ep, htrace⟩
    · refine .inl ⟨⟨⟨cap', hlook, ho⟩, hne⟩, ?_⟩
      exact update_of_ne ‹_› ..

structure Answered (t : Thread) (tid : Tid) (tr : List Event) : Prop where
  woken : ∀ ep m0 m1, t.frame = .parked (.call ep m0 m1) → ¬t.Parked → t.handshake.ipcAborted ∨
    ∃ reply origin, .replied reply (t.call tid) origin t.mailbox.w0 t.mailbox.w1 ∈ tr
  returning : ∀ ep m0 m1 words, t.frame = .returning (.call ep m0 m1) words → t.handshake.ipcAborted ∨
    ∃ reply origin w0 w1, .replied reply (t.call tid) origin w0 w1 ∈ tr ∧ words.take 2 = [w0, w1]

variable {tr : List Event}

lemma Answered.mono {tr' : List Event} (h : t.Answered tid tr) (hsub : tr ⊆ tr') : t.Answered tid tr' := by
  refine ⟨fun ep m0 m1 hf hp => (h.woken ep m0 m1 hf hp).imp_right ?_,
    fun ep m0 m1 words hf => (h.returning ep m0 m1 words hf).imp_right ?_⟩
  · rintro ⟨reply, origin, hmem⟩
    exact ⟨reply, origin, hsub hmem⟩
  · rintro ⟨reply, origin, w0, w1, hmem, hw⟩
    exact ⟨reply, origin, w0, w1, hsub hmem, hw⟩

lemma Answered.congr (h : t.Answered tid tr) (hf : t'.frame = t.frame) (hp : t.Parked → t'.Parked)
    (ha : t'.handshake.ipcAborted = t.handshake.ipcAborted) (hm : t'.mailbox = t.mailbox) (hs : t'.seq = t.seq) :
    t'.Answered tid tr := by
  have hcall : t'.call tid = t.call tid := by simp only [call, hs]
  refine ⟨?_, ?_⟩ <;> rw [hf, ha, hcall]
  · rw [hm]
    exact fun ep m0 m1 hf hn => h.woken ep m0 m1 hf fun hp' => hn (hp hp')
  · exact h.returning

lemma answered_of_frame (hp : ∀ ep m0 m1, t.frame ≠ .parked (.call ep m0 m1))
    (hr : ∀ ep m0 m1 words, t.frame ≠ .returning (.call ep m0 m1) words) : t.Answered tid tr :=
  ⟨fun ep m0 m1 h => absurd h (hp ep m0 m1), fun ep m0 m1 words h => absurd h (hr ep m0 m1 words)⟩

lemma answered_of_aborted (h : t.handshake.ipcAborted) : t.Answered tid tr :=
  ⟨fun _ _ _ _ _ => .inl h, fun _ _ _ _ _ => .inl h⟩

lemma answered_of_parked {p : Prim} (hp : t.Parked) (hf : t.frame = .parked p) : t.Answered tid tr :=
  ⟨fun _ _ _ _ hn => absurd hp hn, by simp [hf]⟩

lemma Answered.act (h : t.Answered tid tr) (hs : t.Synced) (hr : t.handshake.state = .running)
    (ha : Act t t') : t'.Answered tid tr := by
  cases ha with
  | gone => exact answered_of_aborted rfl
  | @resume p hf =>
    refine ⟨by simp, ?_⟩
    intro ep m0 m1 words hf'
    obtain ⟨rfl, rfl⟩ := Frame.returning.inj hf'
    refine (h.woken ep m0 m1 hf (by simp [Parked, hr])).imp_right ?_
    rintro ⟨reply, origin, hmem⟩
    exact ⟨reply, origin, _, _, hmem, rfl⟩
  | parkReply hf => exact answered_of_parked ⟨rfl, hs.not_pending (by simp [hr])⟩ rfl
  | invoke hf hadm =>
    apply answered_of_frame
    · rintro ep m0 m1 rfl
      exact hadm
    · rintro ep m0 m1 words rfl
      exact hadm
  | exit hf | die hf | delete hf => exact answered_of_frame (by simp [hf]) (by simp [hf])
  | _ => exact answered_of_frame (by simp) (by simp)

lemma Answered.taken (h : t.Answered tid tr) (hq : t.Queued tid n) (htaken : Taken R t t') :
    t'.Answered tid tr := by
  cases htaken with
  | abort => exact answered_of_aborted t.woken_aborted.ipcAborted
  | leave _ _ hh =>
    rcases hh with rfl | ⟨hd, rfl⟩
    · exact h.congr rfl id rfl rfl rfl
    · exact h.congr rfl (by simp [Parked, hd]) rfl rfl rfl
  | serve hrep =>
    cases hq with
    | corpse hd => exact h.congr rfl (by simp [Parked, hd]) t.woken_served.ipcAborted rfl rfl
    | send _ hf | sendCap _ hf => exact answered_of_frame (by simp [served, hf]) (by simp [served, hf])
    | call _ _ ho => simp [carriesReply, ho, replyCap, Object.isReply] at hrep

lemma Answered.change (h : t.Answered tid v'.trace) (hs : t.Synced) (hc : Change R v v' tid t t') :
    t'.Answered tid v'.trace := by
  cases hc with
  | same => exact h
  | turn hh =>
    refine h.congr rfl ?_ (ipcAborted_turn hh) rfl rfl
    obtain ⟨-, hq | ⟨hf, -⟩⟩ := hs.turn hh
    · exact hq.parked.mpr
    · exact fun hp => absurd hp hf.1
  | arm | hold => exact h.congr rfl id rfl rfl rfl
  | act hr ha => exact h.act hs hr ha
  | complete hat hret =>
    refine ⟨by simp, ?_⟩
    intro ep m0 m1 words hf
    obtain ⟨rfl, rfl⟩ := Frame.returning.inj hf
    exact hret.elim
  | pass | leave | handOver => exact answered_of_frame (by simp) (by simp)
  | deliver hr =>
    obtain ⟨-, p, hf, hw⟩ := hr
    apply answered_of_frame
    · intro ep m0 m1 hf'
      cases Frame.parked.inj (hf.symm.trans hf')
      simp at hw
    · simp [served, hf]
  | abort => exact answered_of_aborted t.woken_aborted.ipcAborted
  | park hat => exact answered_of_parked ⟨rfl, hs.not_pending (by simp [hat.1])⟩ rfl
  | corpse hd => exact h.congr rfl (by simp [Parked, hd]) rfl rfl rfl
  | take hq _ htaken => exact h.taken hq htaken
  | @answer _ reply origin _ _ _ _ htrace =>
    refine ⟨fun _ _ _ _ _ => .inr ⟨reply, origin, htrace ▸ List.mem_cons_self⟩, ?_⟩
    intro ep m0 m1 words hf
    refine (h.returning ep m0 m1 words hf).imp_left fun ha => ?_
    exact t.woken_served.ipcAborted.trans ha

end Thread

/-- A reply answers the call its capability was made in, which its thread had collected, and both for the first
time; a call that comes back with words has the two words of a reply. -/
def RepliedOnce (before : List Event) : Event → Prop
  | .replied reply call origin _ _ => origin = call ∧
      (∃ receipt, receipt.tid = reply.tid ∧ .collected call receipt ∈ before) ∧
      ∀ r k o m0 m1, .replied r k o m0 m1 ∈ before → r ≠ reply ∧ k ≠ call
  | .returned call (.call _ _ _) (some words) =>
    ∃ reply origin m0 m1, .replied reply call origin m0 m1 ∈ before ∧ words = [m0, m1]
  | _ => True

structure Replies (v : View) : Prop where
  sealed : ∀ {tid t}, v.th tid = some t → t.Sealed tid
  held : ∀ {tid t slot caller}, v.th tid = some t → t.Holds slot caller →
    v.Lost caller ∨ v.Awaits caller (t.origins slot) tid
  once : ∀ {a b t u i j caller}, v.th a = some t → t.Holds i caller → v.th b = some u → u.Holds j caller →
    v.Lost caller ∨ a = b ∧ i = j
  staged : Staged v
  answered : ∀ {tid t}, v.th tid = some t → t.Answered tid v.trace
  explained : Library.Justified RepliedOnce v.trace

lemma Linked.not_lost (hv : Linked v) (ht : v.th caller = some t) (hw : t.handshake.waitOn = some (n, .reply)) :
    ¬v.Lost caller := by
  intro hl
  rcases hl t ht with hd | ⟨-, ⟨m, hm⟩, -⟩
  · rcases (hv.synced ht).dead hd with hn | ⟨m, hm, -⟩
    · simp [hw] at hn
    · simp [hw] at hm
  · simp [hw] at hm

namespace Replies

variable {slot m0 m1 : ℕ} {tc : Thread}

variable (hr : Replies v)
include hr

lemma holds_of_calling (ht : v.th tid = some t) (hf : t.frame = .calling (.reply caller m0 m1 slot)) :
    t.Holds slot caller :=
  ⟨(hr.sealed ht).replies _ _ _ _ hf, by simp [hf]⟩

variable (hv : Linked v)
include hv

lemma awaits (ht : v.th tid = some t)
    (hf : t.frame = .calling (.reply caller m0 m1 slot)) (hc : v.th caller = some tc)
    (hw : tc.handshake.waitOn = some (n, .reply)) : v.Awaits caller (t.origins slot) tid :=
  (hr.held ht (hr.holds_of_calling ht hf)).resolve_left (hv.not_lost hc hw)

variable (h : Micro R v v')
include h

lemma not_holds_of_replied {reply call o : CallId}
    (ht : v.th tid = some t) (hh : t.Holds slot call.tid) (ht' : v'.th tid = some t')
    (htrace : v'.trace = .replied reply call o m0 m1 :: v.trace) : ¬t'.Holds slot call.tid := by
  obtain heq | ⟨ev, heq, hlog⟩ := h.logged hv
  · simp [heq] at htrace
  obtain ⟨rfl, -⟩ := List.cons.inj (heq.symm.trans htrace)
  cases hlog with
  | replied hs hat hc hw hs' =>
    obtain hl | ⟨rfl, rfl⟩ := hr.once ht hh hs (hr.holds_of_calling hs hat.2)
    · exact absurd hl (hv.not_lost hc hw)
    · cases Option.mem_unique ht' hs'
      exact fun hh => hh.2 rfl

lemma held_micro (ht' : v'.th tid = some t')
    (hh : t'.Holds slot caller) : v'.Lost caller ∨ v'.Awaits caller (t'.origins slot) tid := by
  obtain ⟨t, ht, hc⟩ := h.changed hv tid t' ht'
  rcases hh.change hc with ⟨hold, horigin⟩ | ⟨hm, -⟩
  · rcases hr.held ht hold with hl | ha
    · exact .inl (h.lost hv hl)
    · rw [horigin]
      refine .inr ((h.awaits hv ha).resolve_right ?_)
      rintro ⟨reply, o, m0, m1, htrace⟩
      have hcaller : (t.origins slot).tid = caller := by
        obtain ⟨u, n, -, -, -, -, ho, -⟩ := ha
        rw [ho]
        rfl
      subst hcaller
      exact hr.not_holds_of_replied hv h ht hold ht' htrace hh
  · exact hm.made

lemma once_micro {a b : Tid} {i j : ℕ} (ht' : v'.th a = some t')
    (hi : t'.Holds i caller) (hu' : v'.th b = some u) (hj : u.Holds j caller) : v'.Lost caller ∨ a = b ∧
      i = j := by
  obtain ⟨x, hx, hcx⟩ := h.changed hv a t' ht'
  obtain ⟨y, hy, hcy⟩ := h.changed hv b u hu'
  have hmixed : ∀ {o c k} {z : Thread}, Minted v v' caller o c → v.th k = some z → (∃ i, z.Holds i caller) →
      v'.Lost caller := by
    rintro o c k z hm hz ⟨i, hi⟩
    exact hm.lost ((hr.held hz hi).resolve_right (hm.fresh _ _))
  rcases hi.change hcx with ⟨hxi, -⟩ | ⟨hm, c, ep, htrace⟩
  · rcases hj.change hcy with ⟨hyj, -⟩ | ⟨hm, -⟩
    · exact (hr.once hx hxi hy hyj).imp_left (h.lost hv)
    · exact .inl (hmixed hm hx ⟨i, hxi⟩)
  · rcases hj.change hcy with ⟨hyj, -⟩ | ⟨-, c', ep', htrace'⟩
    · exact .inl (hmixed hm hy ⟨j, hyj⟩)
    · have := (List.cons.inj (htrace.symm.trans htrace')).1
      simp only [Event.handed.injEq, Thread.call, CallId.mk.injEq] at this
      exact .inr ⟨this.2.2.2.2.1.1, this.2.2.2.2.2.1⟩

lemma explained_micro :
    Library.Justified RepliedOnce v'.trace := by
  obtain heq | ⟨ev, heq, hlog⟩ := h.logged hv
  · exact heq ▸ hr.explained
  rw [heq]
  refine ⟨?_, hr.explained⟩
  cases hlog with
  | @replied tid t caller m0 m1 slot tc _ ht hat hc hw _ _ =>
    obtain ⟨u, _, hu, hp, -, -, horigin, receipt, hreceipt, hmem⟩ := hr.awaits hv ht hat.2 hc hw
    cases Option.mem_unique hc hu
    refine ⟨horigin, ⟨receipt, hreceipt, horigin ▸ hmem⟩, ?_⟩
    intro r k o w0 w1 hr'
    obtain ⟨q, hf, -⟩ := (hv.synced hc).blocked hp.1
    constructor
    · rintro rfl
      have hle := hr.staged _ hr' _ 4 List.mem_cons_self t ht
      simp [Thread.call, Thread.stage_self, hat.2, Frame.stage] at hle
    · rintro rfl
      have hle := hr.staged _ hr' _ 3 (List.mem_cons_of_mem _ List.mem_cons_self) tc hc
      simp [Thread.call, Thread.stage_self, hf, hp, Frame.stage] at hle
  | @returned tid t p words _ ht hat _ _ =>
    cases p with
    | call ep m0 m1 =>
      by_cases ha : t.handshake.ipcAborted
      · simp [Prim.result, ha, RepliedOnce]
      · obtain ⟨reply, origin, w0, w1, hmem, hw⟩ := ((hr.answered ht).returning _ _ _ _ hat.2).resolve_left ha
        simp only [Prim.result, ha, RepliedOnce]
        exact ⟨reply, origin, w0, w1, hmem, hw⟩
    | _ => trivial
  | _ => trivial

lemma micro : Replies v' := by
  refine ⟨?_, hr.held_micro hv h, hr.once_micro hv h, hr.staged.micro hv h, ?_, hr.explained_micro hv h⟩
  · intro tid t' ht'
    obtain ⟨t, ht, hc⟩ := h.changed hv tid t' ht'
    exact (hr.sealed ht).change hc
  · intro tid t' ht'
    obtain ⟨t, ht, hc⟩ := h.changed hv tid t' ht'
    exact ((hr.answered ht).mono (h.trace_subset hv)).change (hv.synced ht) hc

end Replies

end CrickerOs.Kernel
