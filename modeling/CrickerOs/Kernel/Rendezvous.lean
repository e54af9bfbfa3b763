import CrickerOs.Kernel.Meetings
import CrickerOs.Kernel.OneReply

namespace CrickerOs.Kernel

open Library Ipc.Endpoint

variable {T E : ℕ} {s s' : Scheduler T E} {n : EpId} {e : Ipc.Endpoint Tid} {x : Tid}

def Met (e : Ipc.Endpoint Tid) : Prop := e.receivers = [] ∨ e.senders = [] ∧ e.pending = 0

lemma Met.pop {rest : List Tid} (h : Met e) (hr : e.receivers = x :: rest) : Met { e with receivers := rest } :=
  .inr (h.resolve_left (by simp [hr]))

lemma Met.send (h : Met e) : Met (e.send x).2 := by
  cases hr : e.receivers with
  | nil =>
    rw [send_of_nil hr]
    exact .inl hr
  | cons receiver rest =>
    rw [send_of_cons hr]
    exact h.pop hr

lemma Met.signal (h : Met e) : Met e.signal.2 := by
  cases hr : e.receivers with
  | nil =>
    rw [signal_of_nil hr]
    exact .inl hr
  | cons receiver rest =>
    rw [signal_of_cons hr]
    exact h.pop hr

lemma Met.recv (h : Met e) : Met (e.recv x).2 := by
  by_cases hp : 0 < e.pending
  · rw [recv_of_pending hp]
    exact .inl (h.resolve_right fun hidle => hp.ne' hidle.2)
  · cases hs : e.senders with
    | nil =>
      rw [recv_of_nil hp hs]
      exact .inr ⟨hs, Nat.eq_zero_of_not_pos hp⟩
    | cons sender rest =>
      rw [recv_of_cons hp hs]
      exact .inl (h.resolve_right fun hidle => by simp [hs] at hidle)

lemma Met.meets (h : Met e) (q : Prim) : Met (q.meets e x).2 := by
  have hrecv : Met (e.recv x).2 := h.recv
  have hsend : Met (e.send x).2 := h.send
  rw [Prim.meets]
  grind

def Scheduler.AllMet (s : Scheduler T E) : Prop := ∀ n e, s.endpointOf n = some e → Met e

lemma Scheduler.AllMet.update (h : s.AllMet) (he : Met e)
    (heq : s'.endpointOf = Function.update s.endpointOf n (some e)) : s'.AllMet := by
  intro m f hf
  rw [heq, Function.update_apply] at hf
  split_ifs at hf
  · exact Option.some.inj hf ▸ he
  · exact h m f hf

lemma Scheduler.AllMet.reapThread (h : s.AllMet) : (s.reapThread x).AllMet := by
  have hunlink : (s.unlinkCorpse x).AllMet := by
    rw [Scheduler.unlinkCorpse]
    split
    · exact h
    · split
      · exact h
      · rename_i he
        refine h.update ?_ (endpointOf_setEndpoint he _)
        exact (h _ _ he).imp_right fun hidle => ⟨by simp [Ipc.Endpoint.removeSender, hidle.1], hidle.2⟩
  rw [Scheduler.reapThread, Scheduler.removeThread]
  split <;> exact hunlink

lemma Scheduler.AllMet.reapThreads (h : s.AllMet) (l : List Tid) : (l.foldl Scheduler.reapThread s).AllMet := by
  induction l generalizing s with
  | nil => exact h
  | cons x l ih => exact ih h.reapThread

lemma Scheduler.AllMet.step {a : Action} (h : s.AllMet) (hstep : s.step a = some s') : s'.AllMet := by
  cases step_requeue hstep with
  | same heq => exact fun n e he => h n e (heq ▸ he)
  | enter _ _ _ _ he heq => exact h.update ((h _ _ he).meets _) heq
  | signal _ he heq => exact h.update (h _ _ he).signal heq
  | depart _ _ _ he heq => exact h.update (h _ _ he).send heq
  | @reap base limit ha =>
    subst ha
    obtain rfl := Option.some.inj hstep
    obtain ⟨l, heq, -⟩ := reapRegionObjects_eq s base limit
    rw [heq]
    refine Scheduler.AllMet.reapThreads (fun n e he => ?_) l
    rcases (armed_drained base limit).endpoints n with hn | hn
    · exact absurd (hn.symm.trans he) (by simp)
    · exact h n e (hn.symm.trans he)

/-- Under every interleaving, nobody waits to receive on an endpoint where a sender waits or an interrupt is
pending; whoever waits to receive is on the queue of an endpoint that exists, and whoever is on a queue is blocked
or dead. -/
theorem no_rendezvous_is_missed (h : Reach Scheduler.step always Scheduler.Start s) :
    (∀ n e, s.endpointOf n = some e → e.receivers = [] ∨ e.senders = [] ∧ e.pending = 0) ∧
    (∀ n tid t, s.threads.get tid = some t → t.Receives n →
      ∃ e, s.endpointOf n = some e ∧ tid ∈ e.receivers ∧ e.senders = [] ∧ e.pending = 0) ∧
    ∀ n e tid, s.endpointOf n = some e → tid ∈ e.drainWaiters →
      ∃ t, s.threads.get tid = some t ∧ (t.handshake.state = .blocked ∨ t.handshake.state = .dead) := by
  have hmet : s.AllMet := by
    refine h.invariant Scheduler.AllMet (fun s hs n e he => .inl (hs.endpoints n e he).2) ?_
    exact fun s a s' hs _ hstep => hs.step hstep
  have hlinked : Linked s.view := (reach_linked h).1
  refine ⟨hmet, fun n tid t ht hr => ?_, fun n e tid he hmem => ?_⟩
  · obtain ⟨e, he, hmem⟩ := hlinked.listed ht hr
    exact ⟨e, he, hmem, (hmet n e he).resolve_left (List.ne_nil_of_mem hmem)⟩
  · rcases List.mem_append.mp hmem with hmem | hmem
    · obtain ⟨t, ht, hq⟩ := hlinked.senders he hmem
      exact ⟨t, ht, hq.state⟩
    · obtain ⟨t, ht, hr⟩ := hlinked.receivers he hmem
      exact ⟨t, ht, .inl hr.1.1⟩

theorem no_rendezvous_is_missed_in_trio : ∃ s, execute Scheduler.step always trio [.invoke 1 0 .recv, .enter 1] =
    some s ∧ (s.endpointOf 0).any (fun e => e.receivers = [1]) ∧
      ∀ n e, s.endpointOf n = some e → e.receivers = [] ∨ e.senders = [] ∧ e.pending = 0 :=
  Reach.exists_execute start_trio (fun _ h _ => (no_rendezvous_is_missed h).1) (by decide +kernel)

end CrickerOs.Kernel
