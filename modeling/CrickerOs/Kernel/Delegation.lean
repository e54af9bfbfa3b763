import CrickerOs.Kernel.OneReply

namespace CrickerOs.Kernel

open Slots WakeHandshake Library Thread Frame Event List

def Frame.prim : Frame → Option Prim
  | .calling p | .parked p | .returning p _ => some p
  | _ => none

def Frame.offersCap : Frame → Bool
  | .parked (.sendCap _ _ _) | .parked (.call _ _ _) => true
  | _ => false

def Thread.Offers (t : Thread) : Prop :=
  t.handshake.state = .blocked ∧ t.frame.offersCap

instance (t : Thread) : Decidable t.Offers :=
  inferInstanceAs (Decidable (_ ∧ _))

/-- Any capability that the step collects is left by a thread waiting in `SEND_CAP` or `CALL`, and nobody enters
`SEND_CAP` with the flag of an earlier aborted wait still set. -/
def Scheduler.Addresses {T E : ℕ} (s : Scheduler T E) (a : Action) : Prop :=
  ((s.collects a).all fun (withCap, _, t) => !(withCap && t.outgoingCap.isSome) || t.Offers) ∧
    (s.delegates a).all fun t => !t.handshake.ipcAborted

instance {T E : ℕ} (s : Scheduler T E) (a : Action) : Decidable (s.Addresses a) :=
  inferInstanceAs (Decidable (_ ∧ _))

def addressees : Restriction :=
  { unrestricted with collect := Thread.Offers, start := fun t => t.handshake.ipcAborted = false }

def Fair (before : List Event) : Event → Prop
  | .passed call _ cap => cap.object.isReply = false ∧ (∀ p words, .returned call p words ∉ before) ∧
      ∀ o ep c receipt slot b, .handed o call ep c receipt slot b ∉ before
  | .handed origin call ep cap receipt _ _ => origin = call ∧ receipt.tid ≠ call.tid ∧
      ∀ n c, .passed call n c ∈ before → ep = n ∧ cap = c ∧ (∀ p words, .returned call p words ∉ before) ∧
        ∀ o m x r slot b, .handed o call m x r slot b ∉ before
  | .returned call _ none => ∀ n c, .passed call n c ∈ before →
      ∀ o ep cap receipt slot b, .handed o call ep cap receipt slot b ∉ before
  | _ => True

variable {T E : ℕ} {s s' : Scheduler T E} {v v' : View} {tid : Tid} {t t' : Thread} {n ep : EpId} {seq : ℕ}
  {p : Prim}
  {R : Restriction} {cap : Cap} {o k receipt : CallId} {slot : ℕ} {b : Option Cap}

namespace Thread

lemma prim_act (hr : Act t t') (hstage : 2 ≤ t.stage seq) (hseq : t'.seq = seq) (hp : t'.frame.prim = some p) :
    t.seq = seq ∧ t.frame.prim = some p := by
  cases hr with
  | invoke => simp [← hseq, stage] at hstage
  | _ => simp_all [prim]

lemma prim_change (hc : Change R v v' tid t t') (hstage : 2 ≤ t.stage seq) (hseq : t'.seq = seq)
    (hp : t'.frame.prim = some p) : t.seq = seq ∧ t.frame.prim = some p := by
  cases hc with
  | act _ ha => exact prim_act ha hstage hseq hp
  | complete hat | handOver hat | park hat => exact ⟨hseq, by simpa [hat.2, prim] using hp⟩
  | pass hat =>
    subst hseq
    rw [stage_self, hat.2] at hstage
    simp [Frame.stage] at hstage
  | leave => simp [prim] at hp
  | take _ _ htaken => cases htaken <;> exact ⟨hseq, hp⟩
  | _ => exact ⟨hseq, hp⟩

lemma stage_eq_three (h : t.stage seq = 3) :
    t.seq = seq ∧ ((∃ p, t.frame = .parked p) ∧ ¬t.Parked ∨ ∃ p words, t.frame = .returning p words) := by
  rcases lt_trichotomy seq t.seq with hlt | rfl | hgt
  · simp [stage, hlt] at h
  · refine ⟨rfl, ?_⟩
    rw [stage_self] at h
    cases hf : t.frame with
    | parked q =>
      refine .inl ⟨⟨q, rfl⟩, fun hp => ?_⟩
      simp [hf, hp, Frame.stage] at h
    | returning q words => exact .inr ⟨q, words, rfl⟩
    | _ => simp [hf, Frame.stage] at h
  · simp [stage, hgt, not_lt_of_gt hgt] at h

lemma aborted_change (hs : t.Synced) (hc : Change R v v' tid t t') (h : t.stage seq = 3) (h' : t'.stage seq = 3) :
    t'.handshake.ipcAborted = t.handshake.ipcAborted := by
  obtain ⟨rfl, hdone⟩ := stage_eq_three h
  have hnp : ¬t.Parked ∨ ∀ q, t.frame ≠ .parked q := by
    rcases hdone with ⟨-, hp⟩ | ⟨q, words, hf⟩
    · exact .inl hp
    · exact .inr (by simp [hf])
  have hrecv : ∀ {m}, ¬t.Receives m := by
    rintro m ⟨hp, q, hf, -⟩
    exact hnp.elim (· hp) (· q hf)
  cases hc with
  | same | arm | hold | corpse | complete | pass | handOver => rfl
  | turn hh => exact ipcAborted_turn hh
  | act hr ha =>
    cases ha with
    | gone hf => simp [hf] at hdone
    | _ => rfl
  | leave => simp [stage, Frame.stage] at h'
  | deliver | answer => exact t.woken_served.ipcAborted
  | park => rfl
  | abort hr => exact absurd hr hrecv
  | take hq _ htaken =>
    cases htaken with
    | serve => exact t.woken_served.ipcAborted
    | leave _ _ hh => rcases hh with rfl | ⟨-, rfl⟩ <;> rfl
    | abort =>
      cases hq with
      | corpse hd => simp [hs.corpse hd] at hdone
      | send hp hf | sendCap hp hf | call hp hf => exact hnp.elim (absurd hp) fun h => absurd hf (h _)

def Unaborted (t : Thread) : Prop :=
  ∀ ep data cap, t.frame = .parked (.sendCap ep data cap) → t.Parked → t.handshake.ipcAborted = false

lemma Unaborted.change (hu : t.Unaborted) (hs : t.Synced) (hc : Change addressees v v' tid t t') :
    t'.Unaborted := by
  intro ep data cap hf hp
  cases hc with
  | same | arm | hold => exact hu ep data cap hf hp
  | turn hh =>
    rw [ipcAborted_turn hh]
    obtain ⟨-, hq | hfree⟩ := hs.turn hh
    · exact hu ep data cap hf (hq.parked.mp hp)
    · exact absurd hp hfree.2.1
  | act hr ha => cases ha <;> simp_all [Parked]
  | complete hat | pass hat | handOver hat => simp [Parked, hat.1] at hp
  | leave => simp at hf
  | deliver | answer => exact absurd hp t.woken_served.not_parked
  | abort => exact absurd hp t.woken_aborted.not_parked
  | corpse hd => simp [Parked, hd] at hp
  | park _ _ hstart => exact hstart ep data cap (parked.inj hf)
  | take _ _ htaken =>
    cases htaken with
    | serve => exact absurd hp t.woken_served.not_parked
    | abort => exact absurd hp t.woken_aborted.not_parked
    | leave _ _ hh =>
      rcases hh with rfl | ⟨hd, rfl⟩
      · exact hu ep data cap hf hp
      · simp [Parked, hd] at hp

end Thread

lemma Thread.Queued.of_offers (hq : t.Queued tid n) (h : t.Offers) :
    t.Parked ∧ t.outgoingOrigin = t.call tid ∧ ((∃ data cap, t.frame = .parked (.sendCap n data cap) ∧
      t.outgoingCap = some cap) ∨ (∃ m0 m1, t.frame = .parked (.call n m0 m1)) ∧
      t.outgoingCap = some (replyCap tid)) := by
  obtain ⟨hb, ho⟩ := h
  cases hq with
  | corpse hd => simp [hb] at hd
  | send _ hf => simp [hf, offersCap] at ho
  | sendCap hp hf hcap horigin => exact ⟨hp, horigin, .inl ⟨_, _, hf, hcap⟩⟩
  | call hp hf hcap horigin => exact ⟨hp, horigin, .inr ⟨⟨_, _, hf⟩, hcap⟩⟩

lemma Thread.Queued.delegates (hq : t.Queued tid n) (h : t.Offers) (ho : t.outgoingCap = some cap)
    (hcap : cap.object.isReply = false) : t.Parked ∧ ∃ data, t.frame = .parked (.sendCap n data cap) := by
  obtain ⟨hp, -, ⟨data, c, hf, hc⟩ | ⟨-, hc⟩⟩ := hq.of_offers h
  · cases Option.mem_unique ho hc
    exact ⟨hp, data, hf⟩
  · cases Option.mem_unique ho hc
    simp [replyCap, Object.isReply] at hcap

lemma Logged.own (h : Logged R v v' (.handed o k ep cap receipt slot b)) (hR : ∀ t, R.collect t → t.Offers) :
    o = k ∧ receipt.tid ≠ k.tid := by
  cases h with
  | handOver _ _ _ hne => exact ⟨rfl, hne⟩
  | callMeets _ _ hne => exact ⟨rfl, hne⟩
  | collect _ hq _ _ hc hne => exact ⟨(hq.of_offers (hR _ hc)).2.1, hne⟩
  | collectCall _ hq _ hc hne => exact ⟨(hq.of_offers (hR _ hc)).2.1, hne⟩

lemma Logged.sender (h : Logged R v v' (.handed o k ep cap receipt slot b)) (hcap : cap.object.isReply = false)
    (hR : ∀ t, R.collect t → t.Offers) :
    ∃ t data, v.th k.tid = some t ∧ t.seq = k.seq ∧ t.stage k.seq = 2 ∧
    t.frame.prim = some (.sendCap ep data cap) := by
  cases h with
  | @handOver _ t _ data _ _ _ _ ht hat =>
    refine ⟨t, data, ht, rfl, ?_, by simp [hat.2, prim]⟩
    simp [call, stage_self, hat.2, Frame.stage]
  | callMeets | collectCall => simp [replyCap, Object.isReply] at hcap
  | @collect _ _ t _ _ _ _ ht hq ho _ hc =>
    obtain ⟨hp, data, hf⟩ := hq.delegates (hR t hc) ho hcap
    refine ⟨t, data, ht, rfl, ?_, by simp [hf, prim]⟩
    simp [call, stage_self, hf, hp, Frame.stage]

section

variable {tr : List Event} {m : EpId} {x : Cap}

lemma Fair.plain (h : Justified Fair tr) (hp : .passed k n cap ∈ tr) : cap.object.isReply = false := by
  obtain ⟨before, -, hfair⟩ := h.of_mem hp
  exact hfair.1

lemma Fair.own (h : Justified Fair tr) (hh : .handed o k n cap receipt slot b ∈ tr) : o = k ∧
    receipt.tid ≠ k.tid := by
  obtain ⟨before, -, hfair⟩ := h.of_mem hh
  exact ⟨hfair.1, hfair.2.1⟩

lemma Fair.addressed (h : Justified Fair tr) (hp : .passed k n cap ∈ tr)
    (hh : .handed o k m x receipt slot b ∈ tr) : m = n ∧ x = cap := by
  induction tr with
  | nil => simp at hp
  | cons ev before ih =>
    rcases mem_cons.mp hp with rfl | hp'
    · exact absurd ((mem_cons.mp hh).resolve_left (by simp)) (h.1.2.2 _ _ _ _ _ _)
    · rcases mem_cons.mp hh with rfl | hh'
      · exact ⟨(h.1.2.2 n cap hp').1, (h.1.2.2 n cap hp').2.1⟩
      · exact ih h.2 hp' hh'

def Event.hands (k : CallId) : Event → Bool
  | .handed origin _ _ _ _ _ _ => origin = k
  | _ => false

lemma Event.hands_eq {ev : Event} (h : ev.hands k) : ∃ c m x r slot b, ev = .handed k c m x r slot b := by
  cases ev <;> simp_all [hands]

lemma Fair.countP_eq_zero (h : Justified Fair tr) (hn : ∀ o m x r slot b, .handed o k m x r slot b ∉ tr) :
    tr.countP (hands k) = 0 := by
  refine List.countP_eq_zero.mpr fun ev hev hh => ?_
  obtain ⟨c, m, x, r, slot, b, rfl⟩ := hands_eq hh
  obtain ⟨rfl, -⟩ := Fair.own h hev
  exact hn _ _ _ _ _ _ hev

lemma Fair.once (h : Justified Fair tr) (hp : .passed k n cap ∈ tr) : tr.countP (hands k) ≤ 1 := by
  induction tr with
  | nil => simp at hp
  | cons ev before ih =>
    rw [countP_cons]
    rcases mem_cons.mp hp with rfl | hp'
    · simp [Fair.countP_eq_zero h.2 h.1.2.2, hands]
    · by_cases hh : ev.hands k
      · obtain ⟨c, m, x, r, slot, b, rfl⟩ := hands_eq hh
        obtain ⟨rfl, -, hfair⟩ := h.1
        simp [Fair.countP_eq_zero h.2 (hfair n cap hp').2.2.2, hh]
      · simpa [hh] using ih h.2 hp'

lemma Fair.gone (h : Justified Fair tr) (hp : .passed k n cap ∈ tr) (hr : .returned k p none ∈ tr) :
    .handed o k m x receipt slot b ∉ tr := by
  intro hh
  induction tr with
  | nil => simp at hp
  | cons ev before ih =>
    have hr' := mem_cons.mp hr
    have hh' := mem_cons.mp hh
    rcases mem_cons.mp hp with rfl | hp'
    · exact h.1.2.1 _ _ (hr'.resolve_left (by simp))
    · rcases hr' with rfl | hr'
      · exact h.1 n cap hp' _ _ _ _ _ _ (hh'.resolve_left (by simp))
      · rcases hh' with rfl | hh'
        · exact (h.1.2.2 n cap hp').2.2.1 _ _ hr'
        · exact ih h.2 hp' hr' hh'

end

structure Delegations (v : View) : Prop where
  bound : ∀ {k ep cap t p}, .passed k ep cap ∈ v.trace → v.th k.tid = some t → t.seq = k.seq →
    t.frame.prim = some p → ∃ data, p = .sendCap ep data cap
  kept : ∀ {tid t}, v.th tid = some t → t.Unaborted
  clean : ∀ {o k ep cap receipt slot b t}, .handed o k ep cap receipt slot b ∈ v.trace →
    cap.object.isReply = false → v.th k.tid = some t → t.stage k.seq = 3 → t.handshake.ipcAborted = false
  fair : Justified Fair v.trace

namespace Delegations

variable (hd : Delegations v)
include hd

lemma bound_micro (hv : Linked v) (hr : Replies v) (h : Micro R v v')
    (hp : .passed k ep cap ∈ v'.trace) (ht' : v'.th k.tid = some t') (hseq : t'.seq = k.seq)
    (hprim : t'.frame.prim = some p) : ∃ data, p = .sendCap ep data cap := by
  have hold : .passed k ep cap ∈ v.trace → ∃ data, p = .sendCap ep data cap := by
    intro hp
    obtain ⟨t, ht, hc⟩ := h.changed hv _ t' ht'
    obtain ⟨hs, hprim'⟩ := prim_change hc (hr.staged _ hp k 2 mem_cons_self t ht) hseq hprim
    exact hd.bound hp ht hs hprim'
  obtain heq | ⟨ev, heq, hlog⟩ := h.logged hv
  · exact hold (heq ▸ hp)
  rw [heq] at hp
  rcases mem_cons.mp hp with rfl | hmem
  · cases hlog with
    | passed _ _ hu =>
      cases Option.mem_unique ht' hu
      exact ⟨_, (Option.some.inj hprim).symm⟩
  · exact hold hmem

lemma clean_micro (hv : Linked v) (hr : Replies v) (h : Micro addressees v v')
    (hh : .handed o k ep cap receipt slot b ∈ v'.trace) (hcap : cap.object.isReply = false)
    (ht' : v'.th k.tid = some t') (hstage : t'.stage k.seq = 3) : t'.handshake.ipcAborted = false := by
  have hold : .handed o k ep cap receipt slot b ∈ v.trace → t'.handshake.ipcAborted = false := by
    intro hh
    obtain ⟨t, ht, hc⟩ := h.changed hv _ t' ht'
    have hge := hr.staged _ hh k 3 (by simp [reached, hcap]) t ht
    have hle : t.stage k.seq ≤ t'.stage k.seq := stage_change (hv.synced ht) hc
    have hthree : t.stage k.seq = 3 := le_antisymm (hstage ▸ hle) hge
    rw [aborted_change (hv.synced ht) hc hthree hstage]
    exact hd.clean hh hcap ht hthree
  obtain heq | ⟨ev, heq, hlog⟩ := h.logged hv
  · exact hold (heq ▸ hh)
  rw [heq] at hh
  rcases mem_cons.mp hh with rfl | hmem
  · cases hlog with
    | handOver _ _ hstart _ hu =>
      cases Option.mem_unique ht' hu
      exact hstart
    | callMeets | collectCall => simp [replyCap, Object.isReply] at hcap
    | @collect _ _ t _ _ _ _ ht hq ho _ hc _ hu =>
      cases Option.mem_unique ht' hu
      obtain ⟨hp, data, hf⟩ := hq.delegates hc ho hcap
      exact t.woken_served.ipcAborted.trans (hd.kept ht _ _ _ hf hp)
  · exact hold hmem

lemma plain (hr : Replies v) (hlog : Logged addressees v v' (.handed o k ep cap receipt slot b))
    {c : Cap} (hp : .passed k n c ∈ v.trace) : cap.object.isReply = false := by
  cases hlog with
  | handOver ht hat => exact (hr.sealed ht).passes _ _ _ (.inl hat.2)
  | collect _ _ _ hcap => exact hcap
  | callMeets ht hat =>
    obtain ⟨data, hdata⟩ := hd.bound hp ht rfl (congrArg prim hat.2)
    simp at hdata
  | collectCall ht hq ho hc =>
    obtain ⟨-, -, ⟨data, x, hf, hx⟩ | ⟨⟨m0, m1, hf⟩, -⟩⟩ := hq.of_offers hc
    · cases Option.mem_unique ho hx
      exact (hr.sealed ht).passes _ _ _ (.inr hf)
    · obtain ⟨data, hdata⟩ := hd.bound hp ht rfl (congrArg prim hf)
      simp at hdata

lemma fair_handed (hr : Replies v)
    (hlog : Logged addressees v v' (.handed o k ep cap receipt slot b)) :
    Fair v.trace (.handed o k ep cap receipt slot b) := by
  obtain ⟨ho, hne⟩ := hlog.own fun _ => id
  refine ⟨ho, hne, fun n c hp => ?_⟩
  obtain ⟨t, data, ht, hseq, hstage, hprim⟩ := hlog.sender (hd.plain hr hlog hp) fun _ => id
  obtain ⟨data', hdata⟩ := hd.bound hp ht hseq hprim
  obtain ⟨rfl, -, rfl⟩ := Prim.sendCap.inj hdata
  refine ⟨rfl, rfl, fun p words hret => ?_, fun o' m x r i b' hh => ?_⟩
  · have hle := hr.staged _ hret k 4 mem_cons_self t ht
    omega
  · obtain ⟨-, rfl⟩ := Fair.addressed hd.fair hp hh
    have hle := hr.staged _ hh k 3 (by simp [reached, Fair.plain hd.fair hp]) t ht
    omega

lemma fair_micro (hv : Linked v) (hr : Replies v) (h : Micro addressees v v') :
    Justified Fair v'.trace := by
  obtain heq | ⟨ev, heq, hlog⟩ := h.logged hv
  · exact heq ▸ hd.fair
  rw [heq]
  refine ⟨?_, hd.fair⟩
  cases ev with
  | passed k n c =>
    cases hlog with
    | @passed _ t _ _ _ _ _ ht hat hu =>
      have hone : t.stage t.seq = 1 := by rw [stage_self, hat.2, Frame.stage]
      refine ⟨((hr.micro hv h).sealed hu).passes _ _ _ (.inl rfl), fun p words hret => ?_,
        fun o m x r i b hh => ?_⟩
      · have hle := hr.staged _ hret _ 4 mem_cons_self t ht
        simp [call, hone] at hle
      · have hle := hr.staged _ hh _ _ mem_cons_self t ht
        simp only [call, hone] at hle
        split at hle <;> omega
  | handed => exact hd.fair_handed hr hlog
  | collected | replied => trivial
  | returned k p words =>
    cases words with
    | some words => trivial
    | none =>
      intro n c hp o m x r i b hh
      obtain ⟨-, rfl⟩ := Fair.addressed hd.fair hp hh
      generalize hev : returned k p none = ev at hlog
      cases hlog with
      | @returned _ t p' words _ ht hat =>
        obtain ⟨rfl, rfl, hnone⟩ := returned.inj hev
        have hclean := hd.clean hh (Fair.plain hd.fair hp) ht (by
          simp [call, stage_self, hat.2, Frame.stage])
        cases p <;> simp [Prim.result, hclean] at hnone
      | _ => simp at hev

lemma micro (hv : Linked v) (hr : Replies v) (h : Micro addressees v v') : Delegations v' := by
  refine ⟨hd.bound_micro hv hr h, ?_, hd.clean_micro hv hr h, hd.fair_micro hv hr h⟩
  intro tid t' ht'
  obtain ⟨t, ht, hc⟩ := h.changed hv tid t' ht'
  exact (hd.kept ht).change (hv.synced ht) hc

lemma micros (hv : Linked v) (hr : Replies v) (h : Micros addressees v v') : Delegations v' := by
  induction h with
  | refl => exact hd
  | tail hs h ih => exact ih.micro (hv.micros hs) (hr.micros hv hs) h

end Delegations

lemma Scheduler.Addresses.permits {a : Action} (hok : s.Addresses a) : Permits addressees s a := by
  refine ⟨fun r t hc ho => ?_, fun _ _ _ _ _ => trivial, fun t hd => ?_, fun _ _ _ => trivial,
    fun _ _ _ => trivial⟩
  · have hoffers : t.outgoingCap = none ∨ t.Offers := by simpa [hc] using hok.1
    exact hoffers.resolve_left fun hn => by simp [hn] at ho
  · have haborted : t.handshake.ipcAborted = false := by simpa [hd] using hok.2
    exact haborted

lemma Scheduler.Start.delegations (h : s.Start) : Delegations s.view := by
  have htrace : s.view.trace = [] := h.trace
  refine ⟨by simp [htrace], ?_, by simp [htrace], by rw [htrace]; trivial⟩
  intro tid t ht ep data cap hf
  simp [(h.threads tid t ht).2.1] at hf

lemma reach_delegations (h : Reach Scheduler.step Scheduler.Addresses Scheduler.Start s) : Delegations s.view := by
  refine h.invariant_of (fun s => Delegations s.view) (fun s hs => hs.delegations) ?_
  intro s a s' hreach hd hok hs
  obtain ⟨hv, hr⟩ := reach_linked hreach
  exact hd.micros hv hr (step_micros hv hr hok.permits hs)

structure Addressed (s : Scheduler T E) : Prop where
  only : ∀ {k ep cap origin call n c receipt slot b}, .passed k ep cap ∈ s.trace →
    .handed origin call n c receipt slot b ∈ s.trace → origin = k ∨ call = k →
      origin = k ∧ call = k ∧ n = ep ∧ c = cap ∧ receipt.tid ≠ k.tid
  once : ∀ {k ep cap}, .passed k ep cap ∈ s.trace → s.trace.countP (Event.hands k) ≤ 1
  gone : ∀ {k ep cap p}, .passed k ep cap ∈ s.trace → .returned k p none ∈ s.trace →
    s.trace.countP (Event.hands k) = 0

theorem delegation_reaches_addressee (h : Reach Scheduler.step Scheduler.Addresses Scheduler.Start s) :
    Addressed s := by
  have hfair : Justified Fair s.trace := (reach_delegations h).fair
  refine ⟨?_, fun hp => Fair.once hfair hp, fun hp hr => ?_⟩
  · intro k ep cap origin call n c receipt slot b hp hh hk
    obtain ⟨rfl, hne⟩ := Fair.own hfair hh
    obtain rfl : origin = k := hk.elim id id
    obtain ⟨rfl, rfl⟩ := Fair.addressed hfair hp hh
    exact ⟨rfl, rfl, rfl, rfl, hne⟩
  · exact Fair.countP_eq_zero hfair fun o m x r slot b => Fair.gone hfair hp hr

theorem delegation_reaches_addressee_in_trio : ∃ s, execute Scheduler.step Scheduler.Addresses trio
    [.invoke 0 0 (.sendCap 2 15 5), .resolve 0, .enter 0, .invoke 1 0 .recvCap, .enter 1] = some s ∧
    (.passed ⟨0, 1⟩ 0 ⟨.frame 7, .fromBits 15⟩ ∈ s.trace ∧
      .handed ⟨0, 1⟩ ⟨0, 1⟩ 0 ⟨.frame 7, .fromBits 15⟩ ⟨1, 1⟩ 2 none ∈ s.trace) ∧ Addressed s :=
  Reach.exists_execute start_trio (fun _ h _ => delegation_reaches_addressee h) (by decide +kernel)

theorem stale_capability_reaches_stranger : trio.Start ∧ ∃ s, execute Scheduler.step always trio
    [.invoke 0 0 (.sendCap 2 15 5), .resolve 0, .enter 0, .invoke 1 0 .recv, .enter 1, .finishSwitch 0,
      .switchIn 0, .resume 0, .leave 0, .invoke 0 1 (.send 1 2 3), .enter 0, .invoke 2 1 .recvCap, .enter 2] =
      some s ∧
    .passed ⟨0, 1⟩ 0 ⟨.frame 7, .fromBits 15⟩ ∈ s.trace ∧
      .handed ⟨0, 1⟩ ⟨0, 2⟩ 1 ⟨.frame 7, .fromBits 15⟩ ⟨2, 1⟩ 2 none ∈ s.trace :=
  ⟨start_trio, exists_execute (by decide +kernel)⟩

end CrickerOs.Kernel
