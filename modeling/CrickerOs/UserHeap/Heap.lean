import CrickerOs.Library.Blocks
import CrickerOs.Library.Outcome

/-! The userspace heap: an address-sorted free list whose nodes lie in the free memory itself. The crate is built
with overflow checks and without (the user programs by default, the file server always in release), so the
arithmetic takes the setting as a parameter. -/

namespace CrickerOs.UserHeap

open Library

def minAlign : ℕ := 16

structure Layout where
  size : ℕ
  align : ℕ
  pow : ∃ k < 64, align = 2 ^ k
  bound : size + (align - 1) < 2 ^ 63
  deriving DecidableEq

structure FreeBlock where
  size : ℕ
  next : Option ℕ

structure Heap where
  head : Option ℕ
  free : ℕ
  mem : ℕ → FreeBlock

section

variable (checks : Bool)

def add (a b : ℕ) : Outcome Unit ℕ :=
  if a + b < 2 ^ 64 then .ok (a + b) else if checks then .panic else .ok ((a + b) % 2 ^ 64)

def sub (a b : ℕ) : Outcome Unit ℕ :=
  if b ≤ a then .ok (a - b) else if checks then .panic else .ok (2 ^ 64 + a - b)

def nextMultipleOf (a m : ℕ) : Outcome Unit ℕ :=
  if a % m = 0 then .ok a else add checks a (m - a % m)

end

def nonNull (a : ℕ) : Option ℕ := if a = 0 then none else some a

def effectiveSize (checks : Bool) (layout : Layout) : Outcome Unit ℕ :=
  nextMultipleOf checks (max layout.size 1) minAlign

namespace Heap

def new (mem : ℕ → FreeBlock) : Heap := ⟨none, 0, mem⟩

def readLink (h : Heap) : Option ℕ → Option ℕ
  | none => h.head
  | some a => (h.mem a).next

def writeNode (h : Heap) (a : ℕ) (node : FreeBlock) : Heap :=
  { h with mem := Function.update h.mem a node }

def writeLink (h : Heap) (link value : Option ℕ) : Heap :=
  match link with
  | none => { h with head := value }
  | some a => h.writeNode a { h.mem a with next := value }

@[simp]
lemma writeNode_free (h : Heap) (a : ℕ) (node : FreeBlock) : (h.writeNode a node).free = h.free := rfl

@[simp]
lemma writeLink_free (h : Heap) (link value : Option ℕ) : (h.writeLink link value).free = h.free := by
  cases link <;> rfl

def maxNodes : ℕ := 2 ^ 60

def countFrom (h : Heap) : ℕ → Option ℕ → Outcome Unit ℕ
  | _, none => .ok 0
  | 0, some _ => .error ()
  | fuel + 1, some a => do
    let n ← h.countFrom fuel (h.mem a).next
    pure (n + 1)

def blockCount (h : Heap) : Outcome Unit ℕ := h.countFrom maxNodes h.head

def takeFrom (checks : Bool) (h : Heap) (link : Option ℕ) (block aligned front size : ℕ) :
    Outcome Unit (Heap × Option ℕ) := do
  let rest ← sub checks (h.mem block).size front
  let tail ← sub checks rest size
  let next := (h.mem block).next
  let (h, afterFront) ←
    if 0 < tail then do
      let t ← add checks aligned size
      pure (h.writeNode t ⟨tail, next⟩, nonNull t)
    else pure (h, next)
  let h := if 0 < front then h.writeNode block ⟨front, afterFront⟩ else h.writeLink link afterFront
  let free ← sub checks h.free size
  pure ({ h with free }, nonNull aligned)

def allocFrom (checks : Bool) (size align : ℕ) (h : Heap) (fuel : ℕ) (link : Option ℕ) :
    Outcome Unit (Heap × Option ℕ) :=
  match h.readLink link, fuel with
  | none, _ => .ok (h, none)
  | some _, 0 => .error ()
  | some block, fuel + 1 => do
    let aligned ← nextMultipleOf checks block align
    let front ← sub checks aligned block
    let need ← add checks front size
    if need ≤ (h.mem block).size then h.takeFrom checks link block aligned front size
    else h.allocFrom checks size align fuel (some block)

def alloc (checks : Bool) (h : Heap) (layout : Layout) : Outcome Unit (Heap × Option ℕ) := do
  let size ← effectiveSize checks layout
  h.allocFrom checks size (max layout.align minAlign) maxNodes none

def findLink (h : Heap) (addr fuel : ℕ) (link : Option ℕ) : Outcome Unit (Option ℕ) :=
  match h.readLink link, fuel with
  | none, _ => .ok link
  | some _, 0 => .error ()
  | some block, fuel + 1 => if addr < block then .ok link else h.findLink addr fuel (some block)

variable (checks : Bool)

def absorb (h : Heap) (addr size : ℕ) : Option ℕ → Outcome Unit FreeBlock
  | none => .ok ⟨size, none⟩
  | some n => do
    let fin ← add checks addr size
    if n = fin then do
      let size ← add checks size (h.mem n).size
      pure ⟨size, (h.mem n).next⟩
    else pure ⟨size, some n⟩

def insertAt (h : Heap) (addr size : ℕ) (link : Option ℕ) : Outcome Unit Heap := do
  let node ← h.absorb checks addr size (h.readLink link)
  match link with
  | none => pure ((h.writeNode addr node).writeLink none (nonNull addr))
  | some prev => do
    let prevEnd ← add checks prev (h.mem prev).size
    if prevEnd = addr then do
      let size ← add checks (h.mem prev).size node.size
      pure (h.writeNode prev ⟨size, node.next⟩)
    else pure ((h.writeNode addr node).writeLink (some prev) (nonNull addr))

def insertFree (h : Heap) (addr size : ℕ) : Outcome Unit Heap := do
  let free ← add checks h.free size
  let h := { h with free }
  let link ← h.findLink addr maxNodes none
  h.insertAt checks addr size link

def addRegion (h : Heap) (start size : ℕ) : Outcome Unit Heap :=
  if checks ∧ ¬(minAlign ∣ start ∧ minAlign ∣ size) then .panic
  else if size = 0 then .ok h
  else h.insertFree checks start size

def dealloc (h : Heap) (addr : ℕ) (layout : Layout) : Outcome Unit Heap := do
  let size ← effectiveSize checks layout
  h.insertFree checks addr size

end Heap

end CrickerOs.UserHeap
