import CrickerOs.Intrusive.Fifo
import CrickerOs.Ipc.Endpoint
import CrickerOs.Library.Runs

namespace CrickerOs.Ipc

open Intrusive Library List Option

variable {τ : Type*} [DecidableEq τ]

structure LinkedEndpoint (τ : Type*) where
  senders : Fifo τ
  receivers : Fifo τ
  pending : ℕ
  deriving DecidableEq, Repr

def drain (f : τ → Links τ → Links τ) : ℕ → Fifo τ → Links τ → List τ × Links τ × Fifo τ
  | 0, q, links => ([], links, q)
  | fuel + 1, q, links =>
    match q.popFront links with
    | none => ([], links, q)
    | some (node, links, q) =>
      let (nodes, links, q) := drain f fuel q (f node links)
      (node :: nodes, links, q)

def repush (victim : τ) : ℕ → Fifo τ → Fifo τ → Bool → Links τ → Bool × Links τ × Fifo τ
  | 0, _, kept, found, links => (found, links, kept)
  | fuel + 1, q, kept, found, links =>
    match q.popFront links with
    | none => (found, links, kept)
    | some (node, links, q) =>
      if node = victim then repush victim fuel q kept true links
      else
        let (links, kept) := kept.pushBack links node
        repush victim fuel q kept found links

namespace LinkedEndpoint

def new : LinkedEndpoint τ :=
  ⟨.new, .new, 0⟩

variable (e : LinkedEndpoint τ)

def oneQueueInvariant : Bool :=
  e.senders.isEmpty || e.receivers.isEmpty

def drainWaiters (f : τ → Links τ → Links τ) (links : Links τ) :
    List τ × Links τ × LinkedEndpoint τ :=
  let (fromSenders, links, senders) := drain f e.senders.len e.senders links
  let (fromReceivers, links, receivers) := drain f e.receivers.len e.receivers links
  (fromSenders ++ fromReceivers, links, { e with senders, receivers })

def removeSender (victim : τ) (links : Links τ) : Bool × Links τ × LinkedEndpoint τ :=
  let (found, links, senders) := repush victim e.senders.len e.senders .new false links
  (found, links, { e with senders })

def send (me : τ) (links : Links τ) : Send τ × Links τ × LinkedEndpoint τ :=
  match e.receivers.popFront links with
  | some (receiver, links, receivers) => (.rendezvous receiver, links, { e with receivers })
  | none =>
    let (links, senders) := e.senders.pushBack links me
    (.blocked, links, { e with senders })

def recv (me : τ) (links : Links τ) : Recv τ × Links τ × LinkedEndpoint τ :=
  if 0 < e.pending then (.signal, links, { e with pending := e.pending - 1 })
  else
    match e.senders.popFront links with
    | some (sender, links, senders) => (.fromSender sender, links, { e with senders })
    | none =>
      let (links, receivers) := e.receivers.pushBack links me
      (.blocked, links, { e with receivers })

def signal (links : Links τ) : Option τ × Links τ × LinkedEndpoint τ :=
  match e.receivers.popFront links with
  | some (receiver, links, receivers) => (some receiver, links, { e with receivers })
  | none => (none, links, { e with pending := min (e.pending + 1) (2 ^ 32 - 1) })

end LinkedEndpoint

variable {links : Links τ} {nodes : List τ}

lemma drain_eq {f : τ → Links τ → Links τ} {q : Fifo τ} (h : q.Represents links nodes)
    (hf : nodes.Pairwise fun w n => ∀ links, f w links n = links n) :
    ∃ links' q', drain f nodes.length q links = (nodes, links', q') ∧ q'.Represents links' [] := by
  induction nodes generalizing q links with
  | nil => exact ⟨links, q, rfl, h⟩
  | cons node nodes ih =>
    obtain ⟨links₁, q₁, hpop, h₁, -⟩ := h.popFront_cons
    obtain ⟨hnode, hrest⟩ := pairwise_cons.mp hf
    obtain ⟨links', q', hdrain, h'⟩ := ih (h₁.congr fun n hn => hnode n hn links₁) hrest
    exact ⟨links', q', by simp only [length_cons, drain, hpop, hdrain], h'⟩

lemma repush_eq {q kept : Fifo τ} {keptNodes : List τ} (victim : τ) (found : Bool) (h : q.Represents links nodes)
    (hk : kept.Represents links keptNodes) (hdisjoint : keptNodes.Disjoint nodes) :
    ∃ links' kept', repush victim nodes.length q kept found links =
      (found || decide (victim ∈ nodes), links', kept') ∧
      kept'.Represents links' (keptNodes ++ nodes.filter (· ≠ victim)) := by
  induction nodes generalizing q kept keptNodes found links with
  | nil => exact ⟨links, kept, by simp [repush], by simpa using hk⟩
  | cons node nodes ih =>
    obtain ⟨links₁, q₁, hpop, h₁, hother⟩ := h.popFront_cons
    obtain ⟨hfresh, hnodup⟩ := nodup_cons.mp h.nodup
    obtain ⟨hnode, hrest⟩ := disjoint_cons_right.mp hdisjoint
    have hk₁ : kept.Represents links₁ keptNodes := hk.congr fun n hn => hother n (by rintro rfl; exact hnode hn)
    simp only [length_cons, repush, hpop]
    by_cases hvictim : node = victim
    · subst hvictim
      obtain ⟨links', kept', heq, hrep⟩ := ih true h₁ hk₁ hrest
      refine ⟨links', kept', by simp [heq], ?_⟩
      simpa using hrep
    · obtain ⟨hk₂, hframe⟩ := hk₁.pushBack hnode
      have h₂ : q₁.Represents (kept.pushBack links₁ node).1 nodes := by
        refine h₁.congr fun n hn => hframe n ?_ fun hmem => hrest hmem hn
        rintro rfl
        exact hfresh hn
      have hdisjoint₂ : (keptNodes ++ [node]).Disjoint nodes := by
        rw [disjoint_append_left]
        exact ⟨hrest, by simpa using hfresh⟩
      obtain ⟨links', kept', heq, hrep⟩ := ih found h₂ hk₂ hdisjoint₂
      refine ⟨links', kept', ?_, ?_⟩
      · rw [if_neg hvictim, heq]
        simp [Ne.symm hvictim]
      · simpa [hvictim] using hrep

namespace LinkedEndpoint

structure Refines (links : Links τ) (e : LinkedEndpoint τ) (a : Endpoint τ) : Prop where
  senders : e.senders.Represents links a.senders
  receivers : e.receivers.Represents links a.receivers
  pending : e.pending = a.pending
  oneQueue : a.senders = [] ∨ a.receivers = []

variable {e : LinkedEndpoint τ} {a : Endpoint τ} {me : τ}

omit [DecidableEq τ] in
lemma refines_new (links : Links τ) : Refines links (new : LinkedEndpoint τ) Endpoint.new :=
  ⟨Fifo.represents_new links, Fifo.represents_new links, rfl, .inl rfl⟩

omit [DecidableEq τ] in
lemma Refines.oneQueueInvariant (h : Refines links e a) : e.oneQueueInvariant := by
  rw [LinkedEndpoint.oneQueueInvariant, Bool.or_eq_true, h.senders.isEmpty_iff, h.receivers.isEmpty_iff]
  exact h.oneQueue

lemma Refines.send (h : Refines links e a) (hs : me ∉ a.senders) :
    (e.send me links).1 = (a.send me).1 ∧ Refines (e.send me links).2.1 (e.send me links).2.2 (a.send me).2 := by
  obtain ⟨senders, receivers, pending⟩ := a
  unfold LinkedEndpoint.send
  cases receivers with
  | nil =>
    rw [h.receivers.popFront_nil]
    exact ⟨rfl, (h.senders.pushBack hs).1, h.receivers.nil, h.pending, .inr rfl⟩
  | cons receiver receivers =>
    obtain rfl : senders = [] := h.oneQueue.resolve_right (by simp)
    obtain ⟨links', q', hpop, hrep, -⟩ := h.receivers.popFront_cons
    rw [hpop]
    exact ⟨rfl, h.senders.nil, hrep, h.pending, .inl rfl⟩

lemma Refines.recv (h : Refines links e a) (hr : me ∉ a.receivers) :
    (e.recv me links).1 = (a.recv me).1 ∧ Refines (e.recv me links).2.1 (e.recv me links).2.2 (a.recv me).2 := by
  obtain ⟨senders, receivers, pending⟩ := a
  unfold LinkedEndpoint.recv Endpoint.recv
  rw [show e.pending = pending from h.pending]
  split_ifs with hpending
  · exact ⟨rfl, h.senders, h.receivers, rfl, h.oneQueue⟩
  · cases senders with
    | nil =>
      rw [h.senders.popFront_nil]
      exact ⟨rfl, h.senders.nil, (h.receivers.pushBack hr).1, rfl, .inl rfl⟩
    | cons sender senders =>
      obtain rfl : receivers = [] := h.oneQueue.resolve_left (by simp)
      obtain ⟨links', q', hpop, hrep, -⟩ := h.senders.popFront_cons
      rw [hpop]
      exact ⟨rfl, hrep, h.receivers.nil, rfl, .inr rfl⟩

lemma Refines.signal (h : Refines links e a) :
    (e.signal links).1 = a.signal.1 ∧ Refines (e.signal links).2.1 (e.signal links).2.2 a.signal.2 := by
  obtain ⟨senders, receivers, pending⟩ := a
  unfold LinkedEndpoint.signal
  cases receivers with
  | nil =>
    rw [h.receivers.popFront_nil]
    exact ⟨rfl, h.senders, h.receivers, congrArg (fun n => min (n + 1) (2 ^ 32 - 1)) h.pending, h.oneQueue⟩
  | cons receiver receivers =>
    obtain rfl : senders = [] := h.oneQueue.resolve_right (by simp)
    obtain ⟨links', q', hpop, hrep, -⟩ := h.receivers.popFront_cons
    rw [hpop]
    exact ⟨rfl, h.senders.nil, hrep, h.pending, .inl rfl⟩

lemma Refines.removeSender (h : Refines links e a) (victim : τ) :
    (e.removeSender victim links).1 = decide (victim ∈ a.senders) ∧
      Refines (e.removeSender victim links).2.1 (e.removeSender victim links).2.2 (a.removeSender victim) := by
  obtain ⟨senders, receivers, pending⟩ := a
  unfold LinkedEndpoint.removeSender
  rw [h.senders.len]
  rcases h.oneQueue with hempty | hempty
  · obtain rfl : senders = [] := hempty
    exact ⟨by simp [repush], Fifo.represents_new links, h.receivers, h.pending, .inl rfl⟩
  · obtain rfl : receivers = [] := hempty
    obtain ⟨links', kept, heq, hrep⟩ :=
      repush_eq victim false h.senders (Fifo.represents_new links) (disjoint_nil_left _)
    rw [heq]
    exact ⟨by simp, hrep, h.receivers.nil, h.pending, .inr rfl⟩

lemma Refines.drainWaiters {f : τ → Links τ → Links τ} (h : Refines links e a)
    (hf : a.drainWaiters.Pairwise fun w n => ∀ links, f w links n = links n) :
    (e.drainWaiters f links).1 = a.drainWaiters ∧
      Refines (e.drainWaiters f links).2.1 (e.drainWaiters f links).2.2
      { a with senders := [], receivers := [] } := by
  obtain ⟨senders, receivers, pending⟩ := a
  unfold LinkedEndpoint.drainWaiters
  rw [h.senders.len, h.receivers.len]
  rcases h.oneQueue with hempty | hempty
  · obtain rfl : senders = [] := hempty
    obtain ⟨links', q', heq, hrep⟩ := drain_eq h.receivers hf
    simp only [length_nil, drain, heq]
    exact ⟨rfl, h.senders.nil, hrep, h.pending, .inl rfl⟩
  · obtain rfl : receivers = [] := hempty
    obtain ⟨links', q', heq, hrep⟩ := drain_eq h.senders (by simpa [Endpoint.drainWaiters] using hf)
    simp only [length_nil, drain, heq]
    exact ⟨rfl, hrep, h.receivers.nil, h.pending, .inl rfl⟩

lemma Refines.relink (h : Refines links e a) {node : τ} {next : Option τ} (hs : node ∉ a.senders)
    (hr : node ∉ a.receivers) : Refines (Function.update links node next) e a := by
  have hsame {nodes : List τ} (hnode : node ∉ nodes) (n : τ) (hn : n ∈ nodes) :
      Function.update links node next n = links n := by
    refine Function.update_of_ne ?_ _ _
    rintro rfl
    exact hnode hn
  exact ⟨h.senders.congr (hsame hs), h.receivers.congr (hsame hr), h.pending, h.oneQueue⟩

end LinkedEndpoint

inductive Answer (τ : Type*)
  | send (answer : Send τ)
  | recv (answer : Recv τ)
  | signal (answer : Option τ)
  | removeSender (found : Bool)
  | drainWaiters (waiters : List τ)
  deriving DecidableEq, Repr

inductive EndpointCall (τ : Type*)
  | send (me : τ)
  | recv (me : τ)
  | signal
  | removeSender (victim : τ)
  | drainWaiters (f : τ → Links τ → Links τ)
  | relink (node : τ) (next : Option τ)

structure Paired (τ : Type*) where
  links : Links τ
  endpoint : LinkedEndpoint τ
  answers : List (Answer τ)
  plain : Endpoint τ
  expected : List (Answer τ)

namespace Paired

section

variable (p : Paired τ)

def Start : Prop :=
  p.endpoint = .new ∧ p.plain = .new ∧ p.answers = [] ∧ p.expected = []

def Unlinked : EndpointCall τ → Prop
  | .send me | .recv me | .relink me _ => me ∉ p.plain.senders ∧ me ∉ p.plain.receivers
  | .drainWaiters f => p.plain.drainWaiters.Pairwise fun w n => ∀ links, f w links n = links n
  | .signal | .removeSender _ => True

def answered {α : Type*} (kind : α → Answer τ) (r : α × Links τ × LinkedEndpoint τ) (expected : α)
    (plain : Endpoint τ) : Paired τ :=
  { links := r.2.1
    endpoint := r.2.2
    answers := kind r.1 :: p.answers
    plain
    expected := kind expected :: p.expected }

def step : EndpointCall τ → Option (Paired τ)
  | .send me => some (p.answered .send (p.endpoint.send me p.links) (p.plain.send me).1 (p.plain.send me).2)
  | .recv me => some (p.answered .recv (p.endpoint.recv me p.links) (p.plain.recv me).1 (p.plain.recv me).2)
  | .signal => some (p.answered .signal (p.endpoint.signal p.links) p.plain.signal.1 p.plain.signal.2)
  | .removeSender victim =>
    some (p.answered .removeSender (p.endpoint.removeSender victim p.links) (decide (victim ∈ p.plain.senders))
      (p.plain.removeSender victim))
  | .drainWaiters f =>
    some (p.answered .drainWaiters (p.endpoint.drainWaiters f p.links) p.plain.drainWaiters
      { p.plain with senders := [], receivers := [] })
  | .relink node next => some { p with links := Function.update p.links node next }

def raised : ℕ :=
  p.answers.countP fun
    | .signal _ => true
    | _ => false

def drained : ℕ :=
  p.answers.countP (· = .recv .signal)

def handed : ℕ :=
  p.answers.countP fun
    | .signal (some _) => true
    | _ => false

end

structure Agree (p : Paired τ) : Prop where
  answers : p.answers = p.expected
  refines : LinkedEndpoint.Refines p.links p.endpoint p.plain

variable {p p' : Paired τ} {c : EndpointCall τ}

omit [DecidableEq τ] in
lemma Start.agree (h : p.Start) : p.Agree := by
  obtain ⟨hendpoint, hplain, hanswers, hexpected⟩ := h
  refine ⟨hanswers.trans hexpected.symm, ?_⟩
  rw [hendpoint, hplain]
  exact LinkedEndpoint.refines_new p.links

omit [DecidableEq τ] in
lemma Agree.answered {α : Type*} {kind : α → Answer τ} {r : α × Links τ × LinkedEndpoint τ} {expected : α}
    {plain : Endpoint τ} (h : p.Agree) (hr : r.1 = expected ∧ LinkedEndpoint.Refines r.2.1 r.2.2 plain) :
    (p.answered kind r expected plain).Agree :=
  ⟨congrArg₂ cons (congrArg kind hr.1) h.answers, hr.2⟩

lemma Agree.step (h : p.Agree) (hu : p.Unlinked c) (hs : p.step c = some p') : p'.Agree := by
  cases c with
  | send me => exact some.inj hs ▸ h.answered (h.refines.send hu.1)
  | recv me => exact some.inj hs ▸ h.answered (h.refines.recv hu.2)
  | signal => exact some.inj hs ▸ h.answered h.refines.signal
  | removeSender victim => exact some.inj hs ▸ h.answered (h.refines.removeSender victim)
  | drainWaiters f => exact some.inj hs ▸ h.answered (h.refines.drainWaiters hu)
  | relink node next => exact some.inj hs ▸ ⟨h.answers, h.refines.relink hu.1 hu.2⟩

def Conserved (p : Paired τ) : Prop :=
  p.drained + p.handed + p.endpoint.pending = p.raised

lemma Conserved.answered_other {α : Type*} {kind : α → Answer τ} {r : α × Links τ × LinkedEndpoint τ}
    {expected : α} {plain : Endpoint τ} (h : p.Conserved) (hkind : ∀ o, kind r.1 ≠ .signal o)
    (hrecv : kind r.1 ≠ .recv .signal) (hpending : r.2.2.pending = p.endpoint.pending) :
    (p.answered kind r expected plain).Conserved := by
  unfold Conserved drained handed raised at h ⊢
  simp only [answered, countP_cons, hpending]
  cases hk : kind r.1 with
  | signal o => exact absurd hk (hkind o)
  | recv o =>
    have : o ≠ .signal := by
      rintro rfl
      exact hrecv hk
    simpa [this] using h
  | send _ | removeSender _ | drainWaiters _ => simpa using h

lemma Conserved.recv (h : p.Conserved) (me : τ) :
    (p.answered .recv (p.endpoint.recv me p.links) (p.plain.recv me).1 (p.plain.recv me).2).Conserved := by
  unfold LinkedEndpoint.recv
  split_ifs with hpending
  · unfold Conserved drained handed raised at h ⊢
    simp only [answered, countP_cons]
    simp
    omega
  · split <;> exact h.answered_other (by simp) (by simp) rfl

lemma Conserved.signal (h : p.Conserved) (hroom : p.endpoint.pending < 2 ^ 32 - 1) :
    (p.answered .signal (p.endpoint.signal p.links) p.plain.signal.1 p.plain.signal.2).Conserved := by
  unfold Conserved drained handed raised at h ⊢
  unfold LinkedEndpoint.signal
  split
  · simp only [answered, countP_cons]
    simp
    omega
  · simp only [answered, countP_cons]
    simp
    omega

lemma Conserved.step (h : p.Conserved) (hroom : p.endpoint.pending < 2 ^ 32 - 1) (hs : p.step c = some p') :
    p'.Conserved := by
  cases c with
  | send me =>
    refine some.inj hs ▸ h.answered_other (by simp) (by simp) ?_
    unfold LinkedEndpoint.send
    split <;> rfl
  | recv me => exact some.inj hs ▸ h.recv me
  | signal => exact some.inj hs ▸ h.signal hroom
  | removeSender victim => exact some.inj hs ▸ h.answered_other (by simp) (by simp) rfl
  | drainWaiters f => exact some.inj hs ▸ h.answered_other (by simp) (by simp) rfl
  | relink node next => exact some.inj hs ▸ h

/-- Every call is answered as the plain lists answer it, one of which is empty, and no signal is lost unless the
counter is full. -/
theorem endpoint_refines_lists (hrun : Reach step Unlinked Start p) :
    p.answers = p.expected ∧ LinkedEndpoint.Refines p.links p.endpoint p.plain ∧ p.endpoint.oneQueueInvariant ∧
      (Reach step (fun p _ => p.endpoint.pending < 2 ^ 32 - 1) Start p →
        p.drained + p.handed + p.endpoint.pending = p.raised) := by
  have hagree : p.Agree := hrun.invariant Agree (fun _ h => h.agree) fun _ _ _ h hu hs => h.step hu hs
  refine ⟨hagree.answers, hagree.refines, hagree.refines.oneQueueInvariant, fun hroom => ?_⟩
  refine hroom.invariant Conserved (fun p h => ?_) fun _ _ _ h hr hs => h.step hr hs
  obtain ⟨hendpoint, -, hanswers, -⟩ := h
  simp [Conserved, drained, handed, raised, hendpoint, hanswers, LinkedEndpoint.new]

theorem endpoint_refines_lists_three :
    ∃ p : Paired ℕ, p.answers = [.signal (some 5), .recv .blocked, .drainWaiters [3], .recv (.fromSender 1),
        .removeSender true, .send .blocked, .send .blocked, .send .blocked] ∧
      p.answers = p.expected ∧ LinkedEndpoint.Refines p.links p.endpoint p.plain ∧ p.endpoint.oneQueueInvariant ∧
      (Reach step (fun p _ => p.endpoint.pending < 2 ^ 32 - 1) Start p →
        p.drained + p.handed + p.endpoint.pending = p.raised) := by
  have h₀ : Reach step Unlinked Start (⟨fun _ => none, .new, [], .new, []⟩ : Paired ℕ) :=
    .init ⟨rfl, rfl, rfl, rfl⟩
  have h₁ := h₀.next (a := EndpointCall.send 1) ⟨by decide, by decide⟩ rfl
  have h₂ := h₁.next (a := EndpointCall.send 2) ⟨by decide, by decide⟩ rfl
  have h₃ := h₂.next (a := EndpointCall.send 3) ⟨by decide, by decide⟩ rfl
  have h₄ := h₃.next (a := EndpointCall.removeSender 2) trivial rfl
  have h₅ := h₄.next (a := EndpointCall.recv 4) ⟨by decide, by decide⟩ rfl
  have h₆ := h₅.next (a := EndpointCall.drainWaiters fun _ links => links) (List.pairwise_singleton _ 3) rfl
  have h₇ := h₆.next (a := EndpointCall.recv 5) ⟨by decide, by decide⟩ rfl
  have h₈ := h₇.next (a := EndpointCall.signal) trivial rfl
  exact ⟨_, by decide, endpoint_refines_lists h₈⟩

end Paired

end CrickerOs.Ipc
