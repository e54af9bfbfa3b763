import CrickerOs.Dtb.Blob

namespace CrickerOs.Dtb

open Library Library.Outcome Library.Bytes

inductive Next (σ ρ : Type)
  | more (s : σ)
  | done (r : ρ)

structure Walk (σ ρ : Type) where
  beginNode : σ → (name : Bytes) → Outcome Error σ
  endNode : σ → Outcome Error (Next σ ρ)
  prop : σ → (nameOff valueAt len : ℕ) → Outcome Error (Next σ ρ)
  finish : σ → ρ

variable (dtb : Dtb)

section

variable {σ ρ : Type} (w : Walk σ ρ)

def walkFrom : (fuel pos : ℕ) → σ → Outcome Error ρ
  | 0, _, _ => .panic
  | fuel + 1, pos, s => do
      let token ← be32 dtb.bytes pos
      let pos ← add 64 pos 4
      if token = fdtBeginNode then do
        let name ← dtb.cstr pos
        let size ← add 64 name.length 1
        let skip ← align4 size
        let pos ← add 64 pos skip
        let s ← w.beginNode s name
        walkFrom fuel pos s
      else if token = fdtEndNode then do
        match ← w.endNode s with
        | .more s => walkFrom fuel pos s
        | .done r => pure r
      else if token = fdtProp then do
        let len ← be32 dtb.bytes pos
        let second ← add 64 pos 4
        let nameOff ← be32 dtb.bytes second
        let valueAt ← add 64 pos 8
        let skip ← align4 len
        let pos ← add 64 valueAt skip
        match ← w.prop s nameOff valueAt len with
        | .more s => walkFrom fuel pos s
        | .done r => pure r
      else if token = fdtNop then walkFrom fuel pos s
      else if token = fdtEnd then pure (w.finish s)
      else .error (.badToken token)

def walk (s : σ) : Outcome Error ρ := dtb.walkFrom w (dtb.bytes.length + 1) dtb.offStruct s

end

def incr (depth : ℤ) : Outcome Error ℤ := if depth + 1 < 2 ^ 31 then .ok (depth + 1) else .panic

def decr (depth : ℤ) : Outcome Error ℤ := if -2 ^ 31 ≤ depth - 1 then .ok (depth - 1) else .panic

def maxDepth : ℕ := 16

abbrev Slots (α : Type) := ℕ → α

namespace Slots

variable {α : Type} (slots : Slots α)

def get (i : ℕ) : Outcome Error α := if i < maxDepth then .ok (slots i) else .panic

def store (i : ℕ) (a : α) : Outcome Error (Slots α) := if i < maxDepth then .ok (Function.update slots i a)
    else .panic

def storeIf (c : Prop) [Decidable c] (i : ℕ) (a : α) : Outcome Error (Slots α) :=
  if c then slots.store i a else pure slots

end Slots

def setCells (name : Bytes) (valueAt : ℕ) (c : Cells) : Outcome Error Cells :=
  if name = ascii "#address-cells" then do
    let n ← be32 dtb.bytes valueAt
    pure { c with address := n }
  else if name = ascii "#size-cells" then do
    let n ← be32 dtb.bytes valueAt
    pure { c with size := n }
  else pure c

def rootCells (depth : ℤ) (name : Bytes) (valueAt : ℕ) (c : Cells) : Outcome Error Cells :=
  if depth = 1 then dtb.setCells name valueAt c else pure c

def lists (compat bytes : Bytes) : Bool := compat ∈ bytes.splitOn 0

def matchedAt (matched : Slots Bool) (depth : ℕ) : Outcome Error Bool :=
  if 2 ≤ depth ∧ depth < maxDepth then matched.get depth else pure false

def valueOf : Option (ℕ × ℕ) → Outcome Error (Option Bytes)
  | some (valueAt, len) => do
      let v ← dtb.value valueAt len
      pure (some v)
  | none => pure none

structure MemoryState where
  cells : Cells
  regions : List Region
  depth : ℤ
  memoryAt : Option ℤ

def memoryWalk (cap : ℕ) : Walk MemoryState (List Region) where
  beginNode s name := do
    let depth ← incr s.depth
    let memoryAt := if depth = 2 ∧ (name = ascii "memory" ∨ ascii "memory@" <+: name) then some depth
      else s.memoryAt
    pure { s with depth := depth, memoryAt := memoryAt }
  endNode s := do
    let memoryAt := if s.memoryAt = some s.depth then none else s.memoryAt
    let depth ← decr s.depth
    pure (.more { s with depth := depth, memoryAt := memoryAt })
  prop s nameOff valueAt len := do
    let name ← dtb.propName nameOff
    let cells ← dtb.rootCells s.depth name valueAt s.cells
    if s.memoryAt = some s.depth ∧ name = ascii "reg" then do
      let room ← sub cap s.regions.length
      let new ← dtb.decodeReg valueAt len cells room
      pure (.more { s with cells := cells, regions := s.regions ++ new })
    else pure (.more { s with cells := cells })
  finish s := s.regions

def memoryRegions (cap : ℕ) : Outcome Error (List Region) :=
  dtb.walk (dtb.memoryWalk cap) ⟨⟨2, 1⟩, [], 0, none⟩

structure RegState where
  cells : Slots Cells
  depth : ℕ
  targetAt : Option ℕ

def inheritCells (cells : Slots Cells) (depth : ℕ) : Outcome Error (Slots Cells) :=
  if depth < maxDepth then do
    let up ← sub depth 1
    let c ← cells.get up
    cells.store depth c
  else pure cells

def declareCells (cells : Slots Cells) (depth : ℕ) (name : Bytes) (valueAt : ℕ) : Outcome Error (Slots Cells) :=
  if depth < maxDepth then do
    let c ← cells.get depth
    let c ← dtb.setCells name valueAt c
    cells.store depth c
  else pure cells

def regWalk (start : Bytes) (cap : ℕ) : Walk RegState (List Region) where
  beginNode s name := do
    let depth ← add 64 s.depth 1
    let cells ← inheritCells s.cells depth
    let targetAt := if (2 ≤ depth ∧ depth < maxDepth) ∧ start <+: name ∧ s.targetAt = none then some depth
      else s.targetAt
    pure ⟨cells, depth, targetAt⟩
  endNode s :=
    let targetAt := if s.targetAt = some s.depth then none else s.targetAt
    pure (.more { s with depth := s.depth - 1, targetAt := targetAt })
  prop s nameOff valueAt len := do
    let name ← dtb.propName nameOff
    let cells ← dtb.declareCells s.cells s.depth name valueAt
    if s.targetAt = some s.depth ∧ name = ascii "reg" then do
      let up ← sub s.depth 1
      let c ← cells.get up
      let regions ← dtb.decodeReg valueAt len c cap
      pure (.done regions)
    else pure (.more { s with cells := cells })
  finish _ := []

def nodeReg (start : Bytes) (cap : ℕ) : Outcome Error (List Region) :=
  dtb.walk (dtb.regWalk start cap) ⟨fun _ => ⟨2, 1⟩, 0, none⟩

structure CompatibleState where
  cells : Slots Cells
  reg : Slots (Option (ℕ × ℕ × Cells))
  matched : Slots Bool
  depth : ℕ

def regCompatibleWalk (compat : Bytes) (cap : ℕ) : Walk CompatibleState (List Region) where
  beginNode s _ := do
    let depth ← add 64 s.depth 1
    let cells ← inheritCells s.cells depth
    let reg ← s.reg.storeIf (depth < maxDepth) depth none
    let matched ← s.matched.storeIf (depth < maxDepth) depth false
    pure ⟨cells, reg, matched, depth⟩
  endNode s := do
    let isMatched ← matchedAt s.matched s.depth
    if isMatched then do
      match ← s.reg.get s.depth with
      | some (valueAt, len, c) => do
          let regions ← dtb.decodeReg valueAt len c cap
          pure (.done regions)
      | none => pure (.done [])
    else pure (.more { s with depth := s.depth - 1 })
  prop s nameOff valueAt len := do
    let name ← dtb.propName nameOff
    let cells ← dtb.declareCells s.cells s.depth name valueAt
    let s := { s with cells := cells }
    if s.depth < maxDepth then
      if name = ascii "reg" ∧ 2 ≤ s.depth then do
        let up ← sub s.depth 1
        let c ← cells.get up
        let reg ← s.reg.store s.depth (some (valueAt, len, c))
        pure (.more { s with reg := reg })
      else if name = ascii "compatible" then do
        let bytes ← dtb.value valueAt len
        let matched ← s.matched.store s.depth (lists compat bytes)
        pure (.more { s with matched := matched })
      else pure (.more s)
    else pure (.more s)
  finish _ := []

def nodeRegCompatible (compat : Bytes) (cap : ℕ) : Outcome Error (List Region) :=
  dtb.walk (dtb.regCompatibleWalk compat cap) ⟨fun _ => ⟨2, 1⟩, fun _ => none, fun _ => false, 0⟩

structure MatchState where
  found : Slots (Option (ℕ × ℕ))
  matched : Slots Bool
  depth : ℕ

/-- The walk for the property `name` of a node that is known by another property: `mark` says whether a property
makes the node the one that is looked for. -/
def matchWalk (name : Bytes) (mark : Bool → (pname : Bytes) → (valueAt len : ℕ) → Outcome Error Bool) :
    Walk MatchState (Option Bytes) where
  beginNode s _ := do
    let depth ← add 64 s.depth 1
    let found ← s.found.storeIf (depth < maxDepth) depth none
    let matched ← s.matched.storeIf (depth < maxDepth) depth false
    pure ⟨found, matched, depth⟩
  endNode s := do
    let isMatched ← matchedAt s.matched s.depth
    if isMatched then do
      let place ← s.found.get s.depth
      let v ← dtb.valueOf place
      pure (.done v)
    else pure (.more { s with depth := s.depth - 1 })
  prop s nameOff valueAt len := do
    let pname ← dtb.propName nameOff
    if s.depth < maxDepth then do
      let found ← s.found.storeIf (pname = name) s.depth (some (valueAt, len))
      let isMatched ← s.matched.get s.depth
      let isMatched ← mark isMatched pname valueAt len
      let matched ← s.matched.store s.depth isMatched
      pure (.more { s with found := found, matched := matched })
    else pure (.more s)
  finish _ := none

def matchStart : MatchState := ⟨fun _ => none, fun _ => false, 0⟩

def markCompatible (compat : Bytes) (isMatched : Bool) (pname : Bytes) (valueAt len : ℕ) : Outcome Error Bool :=
  if pname = ascii "compatible" then do
    let bytes ← dtb.value valueAt len
    pure (lists compat bytes)
  else pure isMatched

def markPhandle (phandle : ℕ) (isMatched : Bool) (pname : Bytes) (valueAt len : ℕ) : Outcome Error Bool :=
  if (pname = ascii "phandle" ∨ pname = ascii "linux,phandle") ∧ len = 4 then do
    let n ← be32 dtb.bytes valueAt
    pure (if n = phandle then true else isMatched)
  else pure isMatched

def nodePropCompatible (compat name : Bytes) : Outcome Error (Option Bytes) :=
  dtb.walk (dtb.matchWalk name (dtb.markCompatible compat)) matchStart

def phandleProp (phandle : ℕ) (name : Bytes) : Outcome Error (Option Bytes) :=
  dtb.walk (dtb.matchWalk name (dtb.markPhandle phandle)) matchStart

structure TargetState where
  depth : ℕ
  targetAt : Option ℕ

def propWalk (start name : Bytes) : Walk TargetState (Option Bytes) where
  beginNode s nm := do
    let depth ← add 64 s.depth 1
    let targetAt := if 2 ≤ depth ∧ start <+: nm ∧ s.targetAt = none then some depth else s.targetAt
    pure ⟨depth, targetAt⟩
  endNode s :=
    if s.targetAt = some s.depth then pure (.done none)
    else pure (.more { s with depth := s.depth - 1 })
  prop s nameOff valueAt len :=
    if s.targetAt = some s.depth then do
      let pname ← dtb.propName nameOff
      if pname = name then do
        let v ← dtb.value valueAt len
        pure (.done (some v))
      else pure (.more s)
    else pure (.more s)
  finish _ := none

def nodeProp (start name : Bytes) : Outcome Error (Option Bytes) :=
  dtb.walk (dtb.propWalk start name) ⟨0, none⟩

structure InheritState where
  values : Slots (Option (ℕ × ℕ))
  depth : ℕ
  targetAt : Option ℕ

def nearest (values : Slots (Option (ℕ × ℕ))) : (d : ℕ) → Outcome Error (Option (ℕ × ℕ))
  | 0 => pure none
  | d + 1 => do
      match ← values.get (d + 1) with
      | some place => pure (some place)
      | none => nearest values d

def inheritedWalk (start name : Bytes) : Walk InheritState (Option Bytes) where
  beginNode s nm := do
    let depth ← add 64 s.depth 1
    let values ← s.values.storeIf (depth < maxDepth) depth none
    let targetAt := if (2 ≤ depth ∧ depth < maxDepth) ∧ start <+: nm ∧ s.targetAt = none then some depth
      else s.targetAt
    pure ⟨values, depth, targetAt⟩
  endNode s :=
    if s.targetAt = some s.depth then do
      let place ← nearest s.values s.depth
      let v ← dtb.valueOf place
      pure (.done v)
    else pure (.more { s with depth := s.depth - 1 })
  prop s nameOff valueAt len :=
    if s.depth < maxDepth then do
      let pname ← dtb.propName nameOff
      if pname = name then do
        let values ← s.values.store s.depth (some (valueAt, len))
        pure (.more { s with values := values })
      else pure (.more s)
    else pure (.more s)
  finish _ := none

def nodePropInherited (start name : Bytes) : Outcome Error (Option Bytes) :=
  dtb.walk (dtb.inheritedWalk start name) ⟨fun _ => none, 0, none⟩

structure PropsState where
  depth : ℕ
  targetAt : Option ℕ
  matched : ℕ
  out : List (Option Bytes)

def propsWalk (start name : Bytes) : Walk PropsState (ℕ × List (Option Bytes)) where
  beginNode s nm := do
    let depth ← add 64 s.depth 1
    if 2 ≤ depth ∧ start <+: nm ∧ s.targetAt = none then do
      let matched ← add 64 s.matched 1
      pure { s with depth := depth, targetAt := some depth, matched := matched }
    else pure { s with depth := depth }
  endNode s :=
    let targetAt := if s.targetAt = some s.depth then none else s.targetAt
    pure (.more { s with depth := s.depth - 1, targetAt := targetAt })
  prop s nameOff valueAt len :=
    if s.targetAt = some s.depth then do
      let pname ← dtb.propName nameOff
      if pname = name then do
        let i ← sub s.matched 1
        if i < s.out.length then do
          let v ← dtb.value valueAt len
          pure (.more { s with out := s.out.set i (some v) })
        else pure (.more s)
      else pure (.more s)
    else pure (.more s)
  finish s := (s.matched, s.out)

def nodeProps (start name : Bytes) (places : ℕ) : Outcome Error (ℕ × List (Option Bytes)) :=
  dtb.walk (dtb.propsWalk start name) ⟨0, none, 0, List.replicate places none⟩

structure ReservedState where
  cells : Cells
  depth : ℤ
  resvDepth : Option ℤ
  regions : List Region

def reservedWalk (cap : ℕ) : Walk ReservedState (List Region) where
  beginNode s name := do
    let depth ← incr s.depth
    let resvDepth := if s.resvDepth = none ∧ name = ascii "reserved-memory" then some depth else s.resvDepth
    pure { s with depth := depth, resvDepth := resvDepth }
  endNode s :=
    if s.resvDepth = some s.depth then pure (.done s.regions)
    else do
      let depth ← decr s.depth
      pure (.more { s with depth := depth })
  prop s nameOff valueAt len := do
    let name ← dtb.propName nameOff
    let cells ← dtb.rootCells s.depth name valueAt s.cells
    match s.resvDepth with
    | none => pure (.more { s with cells := cells })
    | some rd =>
      if s.depth = rd then do
        let cells ← dtb.setCells name valueAt cells
        pure (.more { s with cells := cells })
      else do
        let child ← incr rd
        if s.depth = child ∧ name = ascii "reg" then do
          ensure (s.regions.length ≤ cap) .tooManyRegions
          let new ← dtb.decodeReg valueAt len cells (cap - s.regions.length)
          pure (.more { s with cells := cells, regions := s.regions ++ new })
        else pure (.more { s with cells := cells })
  finish s := s.regions

def reservedMemoryRegions (cap : ℕ) : Outcome Error (List Region) :=
  dtb.walk (dtb.reservedWalk cap) ⟨⟨2, 2⟩, 0, none, []⟩

structure InitrdState where
  first : Option ℕ
  last : Option ℕ
  depth : ℤ
  chosenAt : Option ℤ

def initrdWalk : Walk InitrdState (Option Region) where
  beginNode s name := do
    let depth ← incr s.depth
    let chosenAt := if depth = 2 ∧ name = ascii "chosen" then some depth else s.chosenAt
    pure { s with depth := depth, chosenAt := chosenAt }
  endNode s := do
    let chosenAt := if s.chosenAt = some s.depth then none else s.chosenAt
    let depth ← decr s.depth
    pure (.more { s with depth := depth, chosenAt := chosenAt })
  prop s nameOff valueAt len :=
    if s.chosenAt = some s.depth then do
      let name ← dtb.propName nameOff
      if name = ascii "linux,initrd-start" then do
        let n ← dtb.int valueAt len
        pure (.more { s with first := some n })
      else if name = ascii "linux,initrd-end" then do
        let n ← dtb.int valueAt len
        pure (.more { s with last := some n })
      else pure (.more s)
    else pure (.more s)
  finish s :=
    match s.first, s.last with
    | some first, some last => if first < last then some ⟨first, last - first⟩ else none
    | _, _ => none

def initrd : Outcome Error (Option Region) :=
  dtb.walk dtb.initrdWalk ⟨none, none, 0, none⟩

end CrickerOs.Dtb
