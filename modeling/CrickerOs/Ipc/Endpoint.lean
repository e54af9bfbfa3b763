import Mathlib

namespace CrickerOs.Ipc

structure Endpoint (τ : Type*) where
  senders : List τ
  receivers : List τ
  pending : ℕ
  deriving DecidableEq, Repr

inductive Send (τ : Type*)
  | rendezvous (receiver : τ)
  | blocked
  deriving DecidableEq, Repr

inductive Recv (τ : Type*)
  | signal
  | fromSender (sender : τ)
  | blocked
  deriving DecidableEq, Repr

namespace Endpoint

variable {τ : Type*}

def new : Endpoint τ :=
  ⟨[], [], 0⟩

section

variable (e : Endpoint τ)

def send (me : τ) : Send τ × Endpoint τ :=
  match e.receivers with
  | receiver :: receivers => (.rendezvous receiver, { e with receivers })
  | [] => (.blocked, { e with senders := e.senders ++ [me] })

def recv (me : τ) : Recv τ × Endpoint τ :=
  if 0 < e.pending then (.signal, { e with pending := e.pending - 1 })
  else
    match e.senders with
    | sender :: senders => (.fromSender sender, { e with senders })
    | [] => (.blocked, { e with receivers := e.receivers ++ [me] })

def signal : Option τ × Endpoint τ :=
  match e.receivers with
  | receiver :: receivers => (some receiver, { e with receivers })
  | [] => (none, { e with pending := min (e.pending + 1) (2 ^ 32 - 1) })

def drainWaiters : List τ :=
  e.senders ++ e.receivers

def removeSender [DecidableEq τ] (victim : τ) : Endpoint τ :=
  { e with senders := e.senders.filter (· ≠ victim) }

end

variable {e : Endpoint τ} {me other : τ} {rest : List τ}

lemma send_of_nil (h : e.receivers = []) : e.send me = (.blocked, { e with senders := e.senders ++ [me] }) := by
  rw [send, h]

lemma send_of_cons (h : e.receivers = other :: rest) :
    e.send me = (.rendezvous other, { e with receivers := rest }) := by
  rw [send, h]

lemma recv_of_pending (h : 0 < e.pending) : e.recv me = (.signal, { e with pending := e.pending - 1 }) := by
  rw [recv, if_pos h]

lemma recv_of_nil (hp : ¬0 < e.pending) (h : e.senders = []) :
    e.recv me = (.blocked, { e with receivers := e.receivers ++ [me] }) := by
  rw [recv, if_neg hp, h]

lemma recv_of_cons (hp : ¬0 < e.pending) (h : e.senders = other :: rest) :
    e.recv me = (.fromSender other, { e with senders := rest }) := by
  rw [recv, if_neg hp, h]

lemma signal_of_nil (h : e.receivers = []) :
    e.signal = (none, { e with pending := min (e.pending + 1) (2 ^ 32 - 1) }) := by
  rw [signal, h]

lemma signal_of_cons (h : e.receivers = other :: rest) :
    e.signal = (some other, { e with receivers := rest }) := by
  rw [signal, h]

end Endpoint

end CrickerOs.Ipc
