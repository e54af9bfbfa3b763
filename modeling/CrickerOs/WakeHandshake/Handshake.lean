import Mathlib

namespace CrickerOs.WakeHandshake

inductive RunState
  | embryo
  | ready
  | running
  | blocked
  | finished
  | dead
  deriving DecidableEq, Repr

inductive WakeVerdict
  | notBlocked
  | refused
  | deferred
  | queue
  deriving DecidableEq, Repr

inductive SwitchOutVerdict
  | reap
  | wakeCompleted
  | cleared
  deriving DecidableEq, Repr

structure Handshake (W : Type*) where
  state : RunState
  onCpu : Bool
  wakePending : Bool
  waitOn : Option W
  ipcServed : Bool
  ipcAborted : Bool
  deriving DecidableEq, Repr

namespace Handshake

variable {W : Type*}

def onCpuNow : Handshake W :=
  ⟨.running, true, false, none, false, false⟩

def ready : Handshake W :=
  ⟨.ready, false, false, none, false, false⟩

def embryo : Handshake W :=
  ⟨.embryo, false, false, none, false, false⟩

variable (h : Handshake W)
include h

def park (wait : W) : Handshake W :=
  { h with state := .blocked, waitOn := some wait, ipcServed := false }

def serve : Handshake W :=
  { h with ipcServed := true }

def abort : Handshake W :=
  { h with ipcAborted := true }

def delivered : Bool :=
  h.ipcServed || h.ipcAborted

def takeAborted : Bool × Handshake W :=
  (h.ipcAborted, { h with ipcAborted := false })

def tryWake : WakeVerdict × Handshake W :=
  if h.state ≠ .blocked then (.notBlocked, h)
  else if h.waitOn.isSome ∧ h.delivered = false then (.refused, h)
  else if h.onCpu then (.deferred, { h with wakePending := true })
  else (.queue, { h with state := .ready, waitOn := none })

def switchIn : Handshake W :=
  { h with state := .running, onCpu := true }

def preempt : Handshake W :=
  { h with state := .ready }

def finishSwitch : SwitchOutVerdict × Handshake W :=
  if h.state = .finished then (.reap, h)
  else if h.wakePending then
    (.wakeCompleted, { h with onCpu := false, wakePending := false, state := .ready, waitOn := none })
  else (.cleared, { h with onCpu := false })

end Handshake

end CrickerOs.WakeHandshake
