import Mathlib

namespace CrickerOs.Capability

open Function

structure Rights where
  bits : BitVec 32
  deriving DecidableEq, Repr

namespace Rights

def read : Rights := ⟨1⟩

def write : Rights := ⟨2⟩

def grant : Rights := ⟨4⟩

def enumerate : Rights := ⟨8⟩

def all : Rights := ⟨15⟩

def fromBits (bits : BitVec 32) : Rights :=
  ⟨bits &&& all.bits⟩

def union (a b : Rights) : Rights :=
  ⟨a.bits ||| b.bits⟩

def allows (a needed : Rights) : Bool :=
  a.bits &&& needed.bits == needed.bits

def isSubsetOf (a b : Rights) : Bool :=
  a.bits &&& ~~~b.bits == 0

end Rights

structure Cap (O : Type*) where
  object : O
  rights : Rights
  deriving DecidableEq, Repr

inductive Error
  | noSuchSlot
  | cannotWiden
  | noFreeSlot
  deriving DecidableEq, Repr

structure CSpace (O : Type*) (N : ℕ) where
  slots : Fin N → Option (Cap O)

namespace CSpace

variable {O : Type*} {N : ℕ}

def new : CSpace O N :=
  ⟨fun _ => none⟩

section

variable (c : CSpace O N)

def lookup (slot : ℕ) : Option (Cap O) :=
  if h : slot < N then c.slots ⟨slot, h⟩ else none

def get (slot : ℕ) : Except Error (Cap O) :=
  match c.lookup slot with
  | some cap => .ok cap
  | none => .error .noSuchSlot

def set (i : Fin N) (o : Option (Cap O)) : CSpace O N :=
  ⟨Function.update c.slots i o⟩

def insert (cap : Cap O) : Except Error (ℕ × CSpace O N) :=
  match (List.finRange N).find? fun i => (c.slots i).isNone with
  | none => .error .noFreeSlot
  | some i => .ok (i, c.set i (some cap))

def insertAt (slot : ℕ) (cap : Cap O) : Except Error (ℕ × CSpace O N) :=
  if h : slot < N then
    if (c.slots ⟨slot, h⟩).isSome then .error .noFreeSlot else .ok (slot, c.set ⟨slot, h⟩ (some cap))
  else .error .noSuchSlot

def delete (slot : ℕ) : Except Error (CSpace O N) :=
  if h : slot < N then
    if (c.slots ⟨slot, h⟩).isSome then .ok (c.set ⟨slot, h⟩ none) else .error .noSuchSlot
  else .error .noSuchSlot

def erase (slot : ℕ) : CSpace O N :=
  match c.delete slot with
  | .ok c' => c'
  | .error _ => c

end

@[simp] lemma lookup_new (slot : ℕ) : (new : CSpace O N).lookup slot = none := by
  simp [lookup, new]

lemma lookup_set (c : CSpace O N) (i : Fin N) (o : Option (Cap O)) :
    (c.set i o).lookup = update c.lookup i.val o := by
  funext slot
  rw [update_apply]
  simp only [lookup, set]
  split
  · rename_i h
    rw [update_apply]
    simp only [Fin.ext_iff]
  · rw [if_neg]
    rintro rfl
    exact absurd i.isLt ‹_›

lemma insert_eq_ok {c c' : CSpace O N} {cap : Cap O} {slot : ℕ} (h : c.insert cap = .ok (slot, c')) :
    c.lookup slot = none ∧ slot < N ∧ c'.lookup = update c.lookup slot (some cap) := by
  rw [insert] at h
  split at h
  · simp at h
  · rename_i i hi
    cases h
    refine ⟨?_, i.isLt, lookup_set c i (some cap)⟩
    have := List.find?_some hi
    rw [lookup, dif_pos i.isLt]
    simpa using this

lemma insertAt_eq_ok {c c' : CSpace O N} {cap : Cap O} {target slot : ℕ}
    (h : c.insertAt target cap = .ok (slot, c')) : c.lookup slot = none ∧ slot < N ∧
      c'.lookup = update c.lookup slot (some cap) := by
  rw [insertAt] at h
  split_ifs at h with hlt hsome
  cases h
  refine ⟨?_, hlt, lookup_set c ⟨target, hlt⟩ (some cap)⟩
  rw [lookup, dif_pos hlt]
  simpa using hsome

lemma insert_eq_error {c : CSpace O N} {cap : Cap O} {e : Error} (h : c.insert cap = .error e) (slot : ℕ)
    (hslot : slot < N) : (c.lookup slot).isSome := by
  rw [insert] at h
  split at h
  · rename_i hfind
    have := List.find?_eq_none.mp hfind ⟨slot, hslot⟩ (List.mem_finRange _)
    rw [lookup, dif_pos hslot]
    simpa [Option.isSome_iff_ne_none] using this
  · simp at h

lemma lookup_erase (c : CSpace O N) (slot : ℕ) : (c.erase slot).lookup = update c.lookup slot none := by
  rw [erase, delete]
  split_ifs with h hsome
  · exact lookup_set c ⟨slot, h⟩ none
  all_goals
    refine (update_eq_self_iff.mpr ?_).symm
    simp_all [lookup]

end CSpace

end CrickerOs.Capability
