import CrickerOs.Paging.Format

namespace CrickerOs.Paging

def Tables := ℕ → ℕ → ℕ

namespace Tables

def set (t : Tables) (table i entry : ℕ) : Tables :=
  fun table' i' => if table' = table ∧ i' = i then entry else t table' i'

def zero (t : Tables) (table : ℕ) : Tables :=
  fun table' i' => if table' = table then 0 else t table' i'

end Tables

inductive MapError
  | outOfFrames
  | misaligned
  | alreadyMapped
  | wrongHalf
  | notMapped
  | badRegion
  deriving DecidableEq

structure Mapper where
  root : ℕ
  half : Half

variable (F : PageFormat) (m : Mapper)

/-- The descent of `map` with `left` levels to go, creating the tables that are missing. The allocator hands out
`frames` in order; the table reached is `none` when it has no more. -/
def descend (va : ℕ) : (left tablePa : ℕ) → Tables → (frames : List ℕ) → Option ℕ × Tables × List ℕ
  | 0, tablePa, t, frames => (some tablePa, t, frames)
  | left + 1, tablePa, t, frames =>
    let i := F.index va (F.levels - 1 - (left + 1))
    if F.isPresent (t tablePa i) then
      descend va left (F.entryPa (t tablePa i)) t frames
    else match frames with
      | [] => (none, t, [])
      | new :: frames =>
        descend va left (F.entryPa (F.tableEntry new)) ((t.zero new).set tablePa i (F.tableEntry new)) frames

def lookup (va : ℕ) (t : Tables) : (left tablePa : ℕ) → Option ℕ
  | 0, tablePa => some tablePa
  | left + 1, tablePa =>
    let entry := t tablePa (F.index va (F.levels - 1 - (left + 1)))
    if F.isPresent entry then lookup va t left (F.entryPa entry) else none

def Mapper.map (va pa : ℕ) (flags : Flags) (t : Tables) (frames : List ℕ) :
    Except MapError Unit × Tables × List ℕ :=
  if !F.inHalf m.half va then (.error .wrongHalf, t, frames)
  else if va % pageSize ≠ 0 ∨ pa % pageSize ≠ 0 then (.error .misaligned, t, frames)
  else match descend F va (F.levels - 1) m.root t frames with
    | (none, t, frames) => (.error .outOfFrames, t, frames)
    | (some tablePa, t, frames) =>
      let i := F.index va (F.levels - 1)
      if F.isPresent (t tablePa i) then (.error .alreadyMapped, t, frames)
      else (.ok (), t.set tablePa i (F.leafEntry pa flags), frames)

def Mapper.unmap (va : ℕ) (t : Tables) : Except MapError ℕ × Tables :=
  if !F.inHalf m.half va then (.error .wrongHalf, t)
  else if va % pageSize ≠ 0 then (.error .misaligned, t)
  else match lookup F va t (F.levels - 1) m.root with
    | none => (.error .notMapped, t)
    | some tablePa =>
      let i := F.index va (F.levels - 1)
      if F.isPresent (t tablePa i) then (.ok (F.entryPa (t tablePa i)), t.set tablePa i 0)
      else (.error .notMapped, t)

def Mapper.translate (va : ℕ) (t : Tables) : Option (ℕ × Flags) :=
  if !F.inHalf m.half va then none
  else match lookup F va t (F.levels - 1) m.root with
    | none => none
    | some tablePa =>
      let entry := t tablePa (F.index va (F.levels - 1))
      if F.isPresent entry then some (F.entryPa entry + va % pageSize, F.leafFlags entry) else none

/-- The tables, the frames that belong to them or were handed out for them, and for each page number what its last
successful `map` gave it, if it was not unmapped since. -/
structure Space where
  tables : Tables
  handed : List ℕ
  mapped : ℕ → Option (ℕ × Flags)

namespace Space

def map (va pa : ℕ) (flags : Flags) (s : Space) (frames : List ℕ) : Except MapError Unit × Space × List ℕ :=
  match m.map F va pa flags s.tables frames with
  | (.error e, t, rest) => (.error e, { s with tables := t }, rest)
  | (.ok _, t, rest) =>
    (.ok (), { s with tables := t, mapped := Function.update s.mapped (va / pageSize) (some (pa, flags)) }, rest)

def mapRange (va pa : ℕ) (flags : Flags) : (left i : ℕ) → Space → List ℕ → Except MapError Unit × Space × List ℕ
  | 0, _, s, frames => (.ok (), s, frames)
  | left + 1, i, s, frames =>
    match s.map F m ((va + i * pageSize) % 2 ^ 64) ((pa + i * pageSize) % 2 ^ 64) flags frames with
    | (.error e, s, frames) => (.error e, s, frames)
    | (.ok _, s, frames) => mapRange va pa flags left (i + 1) s frames

def unmap (va : ℕ) (s : Space) : Except MapError Unit × Space :=
  match m.unmap F va s.tables with
  | (.error e, t) => (.error e, { s with tables := t })
  | (.ok _, t) => (.ok (), { s with tables := t, mapped := Function.update s.mapped (va / pageSize) none })

end Space

inductive Call
  | map (va pa : ℕ) (flags : Flags)
  | mapRange (va pa count : ℕ) (flags : Flags)
  | unmap (va : ℕ)

def Space.call (s : Space) : Call → (frames : List ℕ) → Except MapError Unit × Space
  | .map va pa flags, frames =>
    let (r, s', _) := s.map F m va pa flags frames
    (r, { s' with handed := frames ++ s.handed })
  | .mapRange va pa count flags, frames =>
    let (r, s', _) := s.mapRange F m va pa flags count 0 frames
    (r, { s' with handed := frames ++ s.handed })
  | .unmap va, _ => s.unmap F m va

def Space.step (s : Space) (a : Call × List ℕ) : Option Space :=
  some (s.call F m a.1 a.2).2

end CrickerOs.Paging
