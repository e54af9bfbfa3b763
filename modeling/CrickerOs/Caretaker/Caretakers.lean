import CrickerOs.Library.Cells
import CrickerOs.FsProto.Names

/-! The three filesystem caretakers: the subtree's, the name set's and the file's. Each stands between a client
and the file server, shares one page with both, and decides what of a request goes up. The server above is any
machine that answers. -/

namespace CrickerOs.Caretaker

open Library FsProto

abbrev Upstream (σ : Type) := σ → UInt64 → UInt64 → Page → Int64 × Page × σ

structure Sent where
  w0 : UInt64
  w1 : UInt64
  page : Page
  reply : Int64

structure World (σ : Type) where
  above : σ
  page : Page
  table : List (Option UInt64)
  log : List Sent

structure Asked where
  w0 : UInt64
  w1 : UInt64
  page : Page

def SLOTS : ℕ := 16

def tableOf (dir : UInt64) : List (Option UInt64) := some dir :: List.replicate (SLOTS - 1) none

variable {σ : Type} (up : Upstream σ)

namespace World

def get (w : World σ) (client : UInt64) : Option UInt64 := Cells.lookup w.table client.toNat

def forward (w0 w1 : UInt64) (w : World σ) : Int64 × World σ :=
  let (r, page, above) := up w.above w0 w1 w.page
  (r, { w with above := above, page := page, log := ⟨w0, w1, w.page, r⟩ :: w.log })

/-- Gives the client a number for a handle the server just minted, or gives the handle back if all slots are taken.
Slot 0 is the granted directory's. -/
def install (server : UInt64) (w : World σ) : Int64 × World σ :=
  match Cells.vacancy 1 w.table with
  | some i => (Int64.ofNat i, { w with table := Cells.put w.table i server })
  | none =>
    let (_, w) := forward up (req Op.CLOSE.code server 0) 0 w
    (replyErr .EMFILE, w)

def close (client server : UInt64) (w : World σ) : Int64 × World σ :=
  if client = ROOT then (replyErr .EINVAL, w)
  else forward up (req Op.CLOSE.code server 0) 0 { w with table := Cells.clear w.table client.toNat }

def pass (code : UInt64) (v : Verb) (server : UInt64) (len : ℕ) (w1 : UInt64) (w : World σ) : Int64 × World σ :=
  let n := if v.carriesLen then UInt64.ofNat len else 0
  let second := if v.carriesW1 then w1 else 0
  let (r, w) := forward up (req code server n) second w
  if !v.mintsHandle ∨ r < 0 then (r, w) else install up r.toUInt64 w

end World

open World

namespace Subtree

def serve (w : World σ) (q : Asked) : Int64 × World σ :=
  let w := { w with page := q.page }
  let len := min (reqLen q.w0) PAGE
  let code := op q.w0
  match w.get (reqHandle q.w0) with
  | none => (replyErr .EBADF, w)
  | some server =>
    match Verb.of code with
    | none => (replyErr .EINVAL, w)
    | some v =>
      if code = Op.CLOSE.code then close up (reqHandle q.w0) server w
      else if v.operand = .Rename then
        match w.get (dstHandle q.w1) with
        | some dst =>
          forward up (req code server (UInt64.ofNat len))
            (renameDst dst (UInt64.ofNat (min (dstLen q.w1) PAGE))) w
        | none => (replyErr .EBADF, w)
      else pass up code v server len q.w1 w

end Subtree

namespace NameSet

def putAt (page : Page) (off : ℕ) (bytes : Bytes) : Page := page.put off (bytes.take (PAGE - off))

def nameAt (page : Page) (off len : ℕ) : Bytes :=
  if len = 0 ∨ MAX_NAME < len ∨ PAGE < off + len then [] else page.get off len

def listFrom (page : Page) (off : ℕ) : List (Bytes × Bool) → ℕ × Page
  | [] => (off, page)
  | (name, isDir) :: names =>
    match Dirent.encode (Dirent.recordLen MAX_NAME) name isDir with
    | none => (off, page)
    | some record =>
      if PAGE < off + record.length then (off, page)
      else listFrom (putAt page off record) (off + record.length) names

def list (set : Bytes) (cursor : ℕ) (page : Page) : ℕ × Page := listFrom page 0 ((Nameset.iter set).drop cursor)

/-- One turn of the name-set caretaker's loop: the subtree's, but a name in the granted directory must be in the
set. The names that were checked are written back before they go up. -/
def serve (dir : UInt64) (set : Bytes) (w : World σ) (q : Asked) : Int64 × World σ :=
  let w := { w with page := q.page }
  let len := min (reqLen q.w0) PAGE
  let code := op q.w0
  let asked := reqHandle q.w0
  match w.get asked with
  | none => (replyErr .EBADF, w)
  | some server =>
    match Verb.of code with
    | none => (replyErr .EINVAL, w)
    | some v =>
      let name := nameAt w.page 0 len
      if asked = ROOT ∧ v.operand = .Name ∧ !Nameset.contains set name then (replyErr .ENOENT, w)
      else
        let w := if asked = ROOT ∧ v.operand = .Name then { w with page := putAt w.page 0 name } else w
        if code = Op.CLOSE.code then close up asked server w
        else if code = Op.READDIR.code ∧ asked = ROOT then
          let (n, page) := list set q.w1.toNat w.page
          (Int64.ofNat n, { w with page := page })
        else if v.operand = .Rename then
          let newLen := min (dstLen q.w1) PAGE
          let new := nameAt w.page len newLen
          let dst := w.get (dstHandle q.w1)
          if (asked = ROOT ∧ !Nameset.contains set name) ∨ (dst = some dir ∧ !Nameset.contains set new) then
            (replyErr .ENOENT, w)
          else
            let w := { w with page := putAt (putAt w.page 0 name) len new }
            match dst with
            | some d => forward up (req code server (UInt64.ofNat len)) (renameDst d (UInt64.ofNat newLen)) w
            | none => (replyErr .EBADF, w)
        else pass up code v server len q.w1 w

end NameSet

namespace File

def serve (handle : UInt64) (name : Bytes) (writable : Bool) (w : World σ) (q : Asked) : Int64 × World σ :=
  let w := { w with page := q.page }
  let len := min (reqLen q.w0) PAGE
  let code := op q.w0
  let asked := reqHandle q.w0
  match Verb.of code, Policy.of code with
  | some _, some .Local =>
    if code = Op.OPEN.code then
      if len = name.length ∧ w.page.get 0 len = name then (HANDLE.toInt64, w) else (replyErr .ENOENT, w)
    else if asked = HANDLE then (0, w)
    else (replyErr .EBADF, w)
  | some v, some .Forward =>
    if asked ≠ HANDLE then (replyErr .EBADF, w)
    else if v.mutates ∧ !writable then (replyErr .EROFS, w)
    else
      let n := if v.carriesLen then UInt64.ofNat len else 0
      let second := if v.carriesW1 then q.w1 else 0
      forward up (req code handle n) second w
  | some _, some (.Refused errno) => (replyErr errno, w)
  | _, _ => (replyErr .EBADF, w)

end File

def after (serve : World σ → Asked → Int64 × World σ) (w : World σ) (qs : List Asked) : World σ :=
  qs.foldl (fun w q => (serve w q).2) w

end CrickerOs.Caretaker
