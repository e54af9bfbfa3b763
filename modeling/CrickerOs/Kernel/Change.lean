import CrickerOs.Kernel.Linked

namespace CrickerOs.Kernel

open Slots WakeHandshake View

def Prim.offers (tid : Tid) : Prim → Option Cap
  | .sendCap _ _ cap => some cap
  | .call _ _ _ => some (replyCap tid)
  | _ => none

/-- Nobody can answer this thread any more, and it makes no call any more: it is gone, a corpse, or was taken off
its queue as a sender and never woken. -/
def View.Lost (v : View) (caller : Tid) : Prop :=
  ∀ t, v.th caller = some t → t.handshake.state = .dead ∨
    t.Parked ∧ (∃ n, t.handshake.waitOn = some (n, .sender)) ∧ v.OffQueue caller

def View.Awaits (v : View) (caller : Tid) (origin : CallId) (holder : Tid) : Prop :=
  ∃ t n, v.th caller = some t ∧ t.Parked ∧ t.handshake.waitOn = some (n, .reply) ∧ v.OffQueue caller ∧
    origin = t.call caller ∧ ∃ receipt, receipt.tid = holder ∧ .collected origin receipt ∈ v.trace

structure Minted (v v' : View) (caller : Tid) (origin : CallId) (holder : Tid) : Prop where
  lost : v.Lost caller → v'.Lost caller
  fresh : ∀ o h, ¬v.Awaits caller o h
  made : v'.Lost caller ∨ v'.Awaits caller origin holder

inductive Change (R : Restriction) (v v' : View) (tid : Tid) (t : Thread) : Thread → Prop
  | same : Change R v v' tid t t
  | turn {h} : Turn t.handshake h → Change R v v' tid t { t with handshake := h }
  | arm {killed} : Change R v v' tid t { t with killed }
  | act {t'} : t.handshake.state = .running → Act t t' → Change R v v' tid t t'
  | complete {p words} : t.At (.calling p) → p.Returns v (t.call tid) words →
      Change R v v' tid t { t with frame := .returning p words }
  | pass {ep slot rights data src} : t.At (.delegating ep slot rights data) → t.cspace.lookup slot = some src →
      src.rights.allows .grant → .passed (t.call tid) ep ⟨src.object, rights⟩ ∈ v'.trace →
      Change R v v' tid t { t with frame := .calling (.sendCap ep data ⟨src.object, rights⟩) }
  | leave {p words h} : t.At (.returning p words) →
      h = t.handshake ∨ h = { t.handshake with ipcAborted := false } →
      Change R v v' tid t { t with frame := .user, handshake := h }
  | deliver {n mailbox} : t.Receives n → R.fill t mailbox ∨ Filled v (t.call tid) n mailbox.w1 →
      Change R v v' tid t { t.served with mailbox }
  | handOver {ep data cap} : t.At (.calling (.sendCap ep data cap)) → R.start t →
      Change R v v' tid t { t with frame := .returning (.sendCap ep data cap) [] }
  | park {p w mailbox outgoingCap outgoingOrigin} : t.At (.calling p) → p.waitsOn = some w →
      (∀ ep data cap, p = .sendCap ep data cap → R.start t) →
      outgoingCap = t.outgoingCap ∨ outgoingCap = p.offers tid →
      (∀ n, w = (n, .sender) → ∃ e, v'.ep n = some e ∧ tid ∈ e.senders) →
      Change R v v' tid t { t with
        frame := .parked p, mailbox, outgoingCap, outgoingOrigin, handshake := t.handshake.park w }
  | abort {n} : t.Receives n → Change R v v' tid t t.aborted
  | corpse {n} : t.handshake.state = .dead →
      Change R v v' tid t { t with handshake := { t.handshake with waitOn := some (n, .sender) } }
  | take {n t'} : t.Queued tid n → ¬v.OffQueue tid → Taken R t t' → Change R v v' tid t t'
  | hold {cap slot cspace origin call ep} : t.cspace.insert cap = .ok (slot, cspace) →
      v'.trace = .handed origin call ep cap (t.call tid) slot none :: v.trace →
      cap.object.isReply = false ∨ (∃ caller, cap = replyCap caller ∧ Minted v v' caller origin tid) →
      Change R v v' tid t (t.holding cspace slot origin)
  | answer {n reply origin m0 m1} : t.handshake.waitOn = some (n, .reply) → v.OffQueue tid →
      v'.trace = .replied reply (t.call tid) origin m0 m1 :: v.trace →
      Change R v v' tid t { t.served with mailbox := ⟨m0, m1, 0, 0, 0⟩ }

variable {v v' : View} {tid other : Tid} {t t' u : Thread} {n : EpId} {R : Restriction}

def Changed (R : Restriction) (v v' x : View) : Prop :=
  ∀ other u, x.th other = some u → ∃ t, v.th other = some t ∧ Change R v v' other t u

lemma Changed.refl {x : View} (hx : x.th = v.th) : Changed R v v' x :=
  fun _ u hu => ⟨u, hx ▸ hu, .same⟩

lemma Changed.set {x : View} (hx : Changed R v v' x) (ht : v.th tid = some t) (h : Change R v v' tid t t') :
    Changed R v v' (x.set tid t') := by
  intro other u hu
  by_cases ho : other = tid
  · subst ho
    obtain rfl : t' = u := by simpa using hu
    exact ⟨t, ht, h⟩
  · exact hx other u (by simpa [ho] using hu)

lemma Linked.minted_callMeets {ep : EpId} {m0 m1 slot : ℕ} {r : Tid} {tr : Thread} {cspace : CSpace}
    (hv : Linked v) (ht : v.th tid = some t) (hat : t.At (.calling (.call ep m0 m1)))
    (hcol : .collected (t.call tid) (tr.call r) ∈ v.trace) :
    Minted v (((v.set r (tr.holding cspace slot (t.call tid))).set tid
      { t with frame := .parked (.call ep m0 m1), handshake := t.handshake.park (ep, .reply) }).log
        (.handed (t.call tid) (t.call tid) ep (replyCap tid) (tr.call r) slot none)) tid (t.call tid) r := by
  have hoff := hv.offQueue ht fun n => (Thread.free_of_running hat.1).not_queued
  have hn := (hv.synced ht).not_pending (by simp [hat.1])
  refine ⟨?_, ?_, .inr ?_⟩
  · intro hl
    have := hl t ht
    simp [Thread.Parked, hat.1] at this
  · rintro o h ⟨u, m, hu, hp, -⟩
    cases Option.mem_unique ht hu
    simp [Thread.Parked, hat.1] at hp
  · refine ⟨{ t with frame := .parked (.call ep m0 m1), handshake := t.handshake.park (ep, .reply) },
      ep, by simp, ?_⟩
    exact ⟨⟨rfl, hn⟩, rfl, hoff, rfl, _, rfl, List.mem_cons_of_mem _ hcol⟩

lemma Linked.minted_collectCall {rest : List Tid} {e : Ipc.Endpoint Tid} {slot : ℕ} {r : Tid} {tr : Thread}
    {cspace : CSpace} (hv : Linked v) (he : v.ep n = some e) (hq : e.senders = tid :: rest)
    (ht : v.th tid = some t) (hne : r ≠ tid) (hcol : .collected (t.call tid) (tr.call r) ∈ v.trace) :
    Minted v ((((v.queue n { e with senders := rest }).set tid { t with outgoingCap := none }).set r
      (tr.holding cspace slot t.outgoingOrigin)).log
        (.handed t.outgoingOrigin (t.call tid) n (replyCap tid) (tr.call r) slot none))
        tid t.outgoingOrigin r := by
  have hoff := not_offQueue he hq
  have hpop := hv.offQueue_pop he hq
  have hqueued := hv.front_sender he hq ht
  refine ⟨?_, ?_, ?_⟩
  · intro hl u hu
    obtain rfl : { t with outgoingCap := none } = u := by simpa [hne.symm] using hu
    exact .inl ((hl t ht).resolve_right fun h => hoff h.2.2)
  · rintro o h ⟨u, m, -, -, -, hoff', -⟩
    exact hoff hoff'
  · cases hqueued with
    | corpse hd =>
      left
      intro u hu
      obtain rfl : { t with outgoingCap := none } = u := by simpa [hne.symm] using hu
      exact .inl hd
    | send hp hf | sendCap hp hf =>
      left
      intro u hu
      obtain rfl : { t with outgoingCap := none } = u := by simpa [hne.symm] using hu
      exact .inr ⟨hp, ⟨n, (hv.synced ht).waitOn hp hf⟩, hpop⟩
    | call hp hf _ horigin =>
      right
      have hw := (hv.synced ht).waitOn hp hf
      refine ⟨{ t with outgoingCap := none }, n, by simp [hne.symm], hp, hw, hpop, horigin, tr.call r, rfl, ?_⟩
      rw [horigin]
      exact List.mem_cons_of_mem _ hcol

lemma Micro.changed (h : Micro R v v') (hv : Linked v) : Changed R v v' v' := by
  cases h with
  | turn ht hh => exact (Changed.refl rfl).set ht (.turn hh)
  | arm =>
    intro other u hu
    obtain ⟨t, ht, rfl⟩ := Option.map_eq_some_iff.mp hu
    exact ⟨t, ht, .arm⟩
  | remove =>
    intro other u hu
    rw [th_unset] at hu
    split at hu
    · simp at hu
    · exact ⟨u, hu, .same⟩
  | act ht hr ha => exact (Changed.refl rfl).set ht (.act hr ha)
  | complete ht hat hret => exact (Changed.refl rfl).set ht (.complete hat hret)
  | pass ht hat hsrc hg => exact (Changed.refl rfl).set ht (.pass hat hsrc hg List.mem_cons_self)
  | leave ht hat hh => exact (Changed.refl rfl).set ht (.leave hat hh)
  | note | pending | removeEndpoint | unlink => exact .refl rfl
  | deliver he hq ht hfill => exact (Changed.refl rfl).set ht (.deliver (hv.front_receiver he hq ht) hfill)
  | handOver ht hat hrep _ hr hins hstart =>
    exact ((Changed.refl rfl).set hr (.hold hins rfl (.inl hrep))).set ht (.handOver hat hstart)
  | callMeets ht hat _ hr hins hcol =>
    refine ((Changed.refl rfl).set hr (.hold hins rfl (.inr ⟨_, rfl, ?_⟩))).set ht
      (.park hat rfl (by simp) (.inl rfl) (by simp))
    exact hv.minted_callMeets ht hat hcol
  | parkSend ht hat => exact (Changed.refl rfl).set ht (.park hat rfl (by simp) (.inl rfl) (by simp))
  | parkSendCap ht hat _ hstart =>
    exact (Changed.refl rfl).set ht (.park hat rfl (fun _ _ _ _ => hstart) (.inr rfl) (by simp))
  | parkCall ht hat => exact (Changed.refl rfl).set ht (.park hat rfl (by simp) (.inr rfl) (by simp))
  | parkReceive ht hat hp =>
    refine (Changed.refl rfl).set ht (.park hat hp ?_ (.inl rfl) (by simp))
    rintro ep data cap rfl
    simp at hp
  | parkCorpse ht hd => exact (Changed.refl rfl).set ht (.corpse hd)
  | take he hq ht htaken =>
    exact (Changed.refl rfl).set ht (.take (hv.front_sender he hq ht) (not_offQueue he hq) htaken)
  | collect he hq ht ho hrep _ hr _ hins =>
    refine ((Changed.refl rfl).set ht ?_).set hr (.hold hins rfl (.inl hrep))
    refine .take (hv.front_sender he hq ht) (not_offQueue he hq) (.serve ?_ (.inr rfl))
    simp [Thread.carriesReply, ho, hrep]
  | collectCall he hq ht ho hne hr _ hins _ hleave hcol =>
    refine ((Changed.refl rfl).set ht ?_).set hr
      (.hold hins rfl (.inr ⟨_, rfl, hv.minted_collectCall he hq ht hne hcol⟩))
    refine .take (hv.front_sender he hq ht) (not_offQueue he hq) (.leave (.inl ?_) (.inr rfl) (.inl rfl) hleave)
    simp [Thread.carriesReply, ho, replyCap, Object.isReply]
  | abortReceiver he hq ht => exact (Changed.refl rfl).set ht (.abort (hv.front_receiver he hq ht))
  | reply ht hat _ hc hw hoff =>
    exact ((Changed.refl rfl).set hc (.answer hw hoff rfl)).set ht (.act hat.1 (.ignore hat.2))

inductive Logged (R : Restriction) (v v' : View) : Event → Prop
  | passed {tid t ep slot rights data cap} : v.th tid = some t → t.At (.delegating ep slot rights data) →
      v'.th tid = some { t with frame := .calling (.sendCap ep data cap) } →
      Logged R v v' (.passed (t.call tid) ep cap)
  | returned {tid t p words h} : v.th tid = some t → t.At (.returning p words) →
      v'.th tid = some { t with frame := .user, handshake := h } → h.state = .running →
      Logged R v v' (.returned (t.call tid) p (p.result t.handshake.ipcAborted words))
  | collected {call receipt} : Logged R v v' (.collected call receipt)
  | handOver {tid t ep data cap r tr slot} : v.th tid = some t → t.At (.calling (.sendCap ep data cap)) →
      R.start t → r ≠ tid → v'.th tid = some { t with frame := .returning (.sendCap ep data cap) [] } →
      Logged R v v' (.handed (t.call tid) (t.call tid) ep cap (Thread.call tr r) slot none)
  | callMeets {tid t ep m0 m1 r tr slot} : v.th tid = some t → t.At (.calling (.call ep m0 m1)) → r ≠ tid →
      v'.th tid = some { t with frame := .parked (.call ep m0 m1), handshake := t.handshake.park (ep, .reply) } →
      Logged R v v' (.handed (t.call tid) (t.call tid) ep (replyCap tid) (Thread.call tr r) slot none)
  | collect {n tid t cap r tr slot} : v.th tid = some t → t.Queued tid n → t.outgoingCap = some cap →
      cap.object.isReply = false → R.collect t → r ≠ tid → v'.th tid = some { t.served with outgoingCap := none } →
      Logged R v v' (.handed t.outgoingOrigin (t.call tid) n cap (Thread.call tr r) slot none)
  | collectCall {n tid t r tr slot} : v.th tid = some t → t.Queued tid n → t.outgoingCap = some (replyCap tid) →
      R.collect t → r ≠ tid → v'.th tid = some { t with outgoingCap := none } →
      Logged R v v' (.handed t.outgoingOrigin (t.call tid) n (replyCap tid) (Thread.call tr r) slot none)
  | replied {tid t caller m0 m1 slot tc n} : v.th tid = some t → t.At (.calling (.reply caller m0 m1 slot)) →
      v.th caller = some tc → tc.handshake.waitOn = some (n, .reply) →
      v'.th tid = some { t with frame := .consuming slot } →
      v'.th caller = some { tc.served with mailbox := ⟨m0, m1, 0, 0, 0⟩ } →
      Logged R v v' (.replied (t.call tid) (tc.call caller) (t.origins slot) m0 m1)

lemma Micro.logged (h : Micro R v v') (hv : Linked v) :
    v'.trace = v.trace ∨ ∃ ev, v'.trace = ev :: v.trace ∧ Logged R v v' ev := by
  cases h with
  | pass ht hat => exact .inr ⟨_, rfl, .passed ht hat (by simp)⟩
  | leave ht hat hh =>
    refine .inr ⟨_, rfl, .returned ht hat (by simp; rfl) ?_⟩
    rcases hh with rfl | rfl <;> exact hat.1
  | note => exact .inr ⟨_, rfl, .collected⟩
  | handOver ht hat _ hne _ _ hstart => exact .inr ⟨_, rfl, .handOver ht hat hstart hne (by simp)⟩
  | callMeets ht hat hne => exact .inr ⟨_, rfl, .callMeets ht hat hne (by simp)⟩
  | collect he hq ht ho hrep hne _ _ _ hcol =>
    exact .inr ⟨_, rfl, .collect ht (hv.front_sender he hq ht) ho hrep hcol hne (by simp [hne.symm])⟩
  | collectCall he hq ht ho hne _ _ _ hcol =>
    exact .inr ⟨_, rfl, .collectCall ht (hv.front_sender he hq ht) ho hcol hne (by simp [hne.symm])⟩
  | reply ht hat hne hc hw => exact .inr ⟨_, rfl, .replied ht hat hc hw (by simp) (by simp [hne])⟩
  | _ => exact .inl rfl

lemma Micro.trace_subset (h : Micro R v v') (hv : Linked v) : v.trace ⊆ v'.trace := by
  obtain heq | ⟨ev, heq, -⟩ := h.logged hv
  · rw [heq]
    exact List.Subset.refl _
  · rw [heq]
    exact List.subset_cons_self ..

lemma View.isSome_set {x : Thread} (h : (v.th tid).isSome) : ((v.set other x).th tid).isSome := by
  rw [th_set]
  split
  · rfl
  · exact h

lemma Micro.kept (h : Micro R v v') (ht : v.th tid = some t) (hs : t.handshake.state ≠ .finished)
    (hd : t.handshake.state ≠ .dead) (he : t.handshake.state ≠ .embryo) : (v'.th tid).isSome := by
  have hsome : (v.th tid).isSome := by simp [ht]
  cases h with
  | arm => simpa using hsome
  | remove hr hend =>
    rw [th_unset]
    split
    · subst tid
      cases Option.mem_unique ht hr
      simp [hs, hd, he] at hend
    · exact hsome
  | note | pending | removeEndpoint | unlink => exact hsome
  | handOver | callMeets | collect | collectCall | reply => exact isSome_set (isSome_set hsome)
  | _ => exact isSome_set hsome

lemma Change.dead (h : Change R v v' tid t t') (hs : t.Synced) (hd : t.handshake.state = .dead) :
    t'.handshake.state = .dead := by
  cases h with
  | turn hh => cases hh <;> simp_all [Handshake.finishSwitch, hs.not_pending]
  | act hr | complete hr | pass hr | leave hr | handOver hr | park hr => simp_all [Thread.At]
  | deliver hr | abort hr => simp [hr.1.1] at hd
  | take _ _ htaken =>
    cases htaken with
    | serve => exact (t.woken_served.state (by simp [hd])).trans hd
    | abort => exact (t.woken_aborted.state (by simp [hd])).trans hd
    | leave _ _ hh => rcases hh with rfl | ⟨-, rfl⟩ <;> exact hd
  | answer => exact (t.woken_served.state (by simp [hd])).trans hd
  | _ => exact hd

lemma Micro.parked_off (h : Micro R v v') (hv : Linked v) (ht : v.th tid = some t) (hp : t.Parked)
    (hoff : v.OffQueue tid) (hw : ∀ n, t.handshake.waitOn ≠ some (n, .receiver)) :
    ∃ t', v'.th tid = some t' ∧ (t.Quiet t' ∨ (∃ n, t.handshake.waitOn = some (n, .reply)) ∧
      ∃ reply origin m0 m1, v'.trace = .replied reply (t.call tid) origin m0 m1 :: v.trace) := by
  have hs := hv.synced ht
  obtain ⟨t', ht'⟩ := Option.isSome_iff_exists.mp (h.kept ht (by simp [hp.1]) (by simp [hp.1]) (by simp [hp.1]))
  refine ⟨t', ht', ?_⟩
  obtain ⟨u, hu, hc⟩ := h.changed hv tid t' ht'
  cases Option.mem_unique ht hu
  cases hc with
  | same => exact .inl (.refl _)
  | turn hh => exact .inl ((hs.turn hh).2.resolve_right fun hf => hf.1.1 hp)
  | arm => exact .inl (by constructor <;> rfl)
  | act hr => simp [hp.1] at hr
  | complete hat | pass hat | leave hat | handOver hat | park hat => simp [Thread.At, hp.1] at hat
  | deliver hr | abort hr => exact absurd (hs.waitOn_of_receives hr) (hw _)
  | corpse hd => simp [hp.1] at hd
  | take _ hoff' => exact absurd hoff hoff'
  | hold => exact .inl (.holding ..)
  | answer hreply _ htrace => exact .inr ⟨⟨_, hreply⟩, _, _, _, _, htrace⟩

lemma Micro.lost (h : Micro R v v') (hv : Linked v) (hl : v.Lost tid) : v'.Lost tid := by
  intro t' ht'
  obtain ⟨t, ht, hc⟩ := h.changed hv tid t' ht'
  rcases hl t ht with hd | ⟨hp, ⟨n, hw⟩, hoff⟩
  · exact .inl (hc.dead (hv.synced ht) hd)
  · right
    obtain ⟨u, hu, hq | ⟨⟨m, hm⟩, -⟩⟩ := h.parked_off hv ht hp hoff (by simp [hw])
    · cases Option.mem_unique ht' hu
      exact ⟨hq.parked.mpr hp, ⟨n, hq.waitOn.trans hw⟩, h.offQueue ht hp hoff⟩
    · simp [hw] at hm

lemma Micro.awaits {caller holder : Tid} {origin : CallId} (h : Micro R v v') (hv : Linked v)
    (ha : v.Awaits caller origin holder) :
    v'.Awaits caller origin holder ∨ ∃ reply o m0 m1, v'.trace = .replied reply origin o m0 m1 :: v.trace := by
  obtain ⟨t, n, ht, hp, hw, hoff, rfl, receipt, hr, hmem⟩ := ha
  obtain ⟨u, hu, hq | ⟨-, htrace⟩⟩ := h.parked_off hv ht hp hoff (by simp [hw])
  · left
    refine ⟨u, n, hu, hq.parked.mpr hp, hq.waitOn.trans hw, h.offQueue ht hp hoff, ?_, receipt, hr, ?_⟩
    · rw [Thread.call, Thread.call, hq.seq]
    · exact h.trace_subset hv hmem
  · exact .inr htrace

end CrickerOs.Kernel
