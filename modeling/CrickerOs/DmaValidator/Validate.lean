import CrickerOs.Library.Memory

namespace CrickerOs.DmaValidator

open Library

def fNext : ℕ := 1
def fIndirect : ℕ := 4

def inRegion (base size addr len : ℕ) : Bool :=
  if addr + len < 2 ^ 64 ∧ base + size < 2 ^ 64 then decide (base ≤ addr) && decide (addr + len ≤ base + size)
    else false

structure Desc where
  addr : ℕ
  word : ℕ
  deriving DecidableEq

namespace Desc

def bufLen (d : Desc) : ℕ := d.word &&& 0xffffffff

def flags (d : Desc) : ℕ := (d.word >>> 32) &&& 0xffff

def next (d : Desc) : ℕ := (d.word >>> 48) &&& 0xffff

def isIndirect (d : Desc) : Bool := d.flags &&& fIndirect != 0

def hasNext (d : Desc) : Bool := d.flags &&& fNext != 0

end Desc

def checkDescriptor (base size qsize : ℕ) (d : Desc) : Bool :=
  if d.isIndirect then false
  else if !inRegion base size d.addr d.bufLen then false
  else if d.hasNext && decide (qsize ≤ d.next) then false
  else true

structure Rings where
  dmaBase : ℕ
  dmaSize : ℕ
  driverDesc : ℕ
  driverAvail : ℕ
  shadowDesc : ℕ
  shadowAvail : ℕ
  qsize : ℕ

variable (q : Rings)

def walk : ℕ → ℕ → Bus Bool
  | 0, _ => pure true
  | fuel + 1, d => do
      let src := q.driverDesc + d * 16
      let addr ← Bus.read 8 src
      let word ← Bus.read 8 (src + 8)
      let desc : Desc := ⟨addr, word⟩
      if !checkDescriptor q.dmaBase q.dmaSize q.qsize desc then
        pure false
      else do
        let dst := q.shadowDesc + d * 16
        Bus.write 8 dst desc.addr
        Bus.write 8 (dst + 8) desc.word
        if !desc.hasNext then pure true else walk fuel desc.next

def shadowOneHead (head : ℕ) : Bus Bool :=
  walk q q.qsize head

def shadowHeads (toIdx : ℕ) : ℕ → ℕ → Bus Bool
  | 0, _ => do
      Bus.write 2 (q.shadowAvail + 2) toIdx
      pure true
  | left + 1, idx => do
      let slot := idx % q.qsize
      let head ← Bus.read 2 (q.driverAvail + 4 + slot * 2)
      if q.qsize ≤ head then
        pure false
      else do
        let copied ← shadowOneHead q head
        if !copied then
          pure false
        else do
          Bus.write 2 (q.shadowAvail + 4 + slot * 2) head
          shadowHeads toIdx left ((idx + 1) % 2 ^ 16)

def distance (fromIdx toIdx : ℕ) : ℕ :=
  (toIdx + (2 ^ 16 - fromIdx)) % 2 ^ 16

def validateAndShadow (fromIdx toIdx : ℕ) : Bus Bool :=
  if q.qsize < distance fromIdx toIdx then pure false else shadowHeads q toIdx (distance fromIdx toIdx) fromIdx

end CrickerOs.DmaValidator
