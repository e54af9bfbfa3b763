import CrickerOs.Library.Cells
import CrickerOs.FsProto.Names
import CrickerOs.FsProto.Attributes
import CrickerOs.FsServer.Engine

namespace CrickerOs.FsServer

open Library Library.Result Library.Act FsProto

def STORE_DIR : Bytes := ".nife-attrs".toList.map fun c => UInt8.ofNat c.toNat

variable {I : Type} (E : Engine I)

namespace Engine

def findStore : Act I Errno (Option ℕ) := do
  let found ← forgive (· = .ENOENT) (E.findNode rootPtr STORE_DIR)
  pure (found.map (·.1))

open Errno in
def readAttrs (nodeId : ℕ) : Act I Errno Bytes := do
  match ← E.findStore with
  | none => pure []
  | some dirPtr => do
      match ← forgive (· = .ENOENT) (E.findNode dirPtr (Xattr.Store.fileName nodeId)) with
      | none => pure []
      | some (ptr, node) => do
          asks fun _ => ensure (node.size ≤ Xattr.Store.MAX_BYTES) EIO
          E.readNode ptr 0 node.size

def dropStoreIfEmpty : Act I Errno Unit := do
  let _ ← forgive (fun e => e = .ENOTEMPTY ∨ e = .ENOENT) (E.removeNode rootPtr STORE_DIR .dir)

def purgeAttrs (nodeId : ℕ) : Act I Errno Unit := do
  match ← E.findStore with
  | none => pure ()
  | some dirPtr => do
      match ← forgive (· = .ENOENT) (E.removeNode dirPtr (Xattr.Store.fileName nodeId) .file) with
      | some _ => E.dropStoreIfEmpty
      | none => pure ()

def storeDir (now : ℕ) : Act I Errno ℕ := do
  match ← E.findStore with
  | some ptr => pure ptr
  | none => E.createNode rootPtr STORE_DIR .dir 0o700 now

def storeFile (dirPtr : ℕ) (name : Bytes) (now : ℕ) : Act I Errno ℕ := do
  match ← forgive (· = .ENOENT) (E.findNode dirPtr name) with
  | some (ptr, _) => pure ptr
  | none => E.createNode dirPtr name .file 0o600 now

def writeAttrs (nodeId : ℕ) (blob : Bytes) (now : ℕ) : Act I Errno Unit :=
  if blob = [] then E.purgeAttrs nodeId
  else do
    let dirPtr ← E.storeDir now
    let ptr ← E.storeFile dirPtr (Xattr.Store.fileName nodeId) now
    let _ ← E.writeNode ptr 0 blob now
    E.truncateNode ptr blob.length now

end Engine

inductive Entry
  | Dir (ptr : ℕ) (rights : Rights)
  | File (ptr : ℕ) (rights : Rights)
  deriving DecidableEq

namespace Entry

def ptr : Entry → ℕ
  | Dir ptr _ => ptr
  | File ptr _ => ptr

def rights : Entry → Rights
  | Dir _ rights => rights
  | File _ rights => rights

end Entry

structure Server (I : Type) where
  fs : I
  handles : List (Option Entry)
  clock : ℕ

def checkComponent (name : Bytes) : Except Errno Unit :=
  ensure (¬ (name = [] ∨ name = [46] ∨ name = [46, 46] ∨ name = STORE_DIR ∨ 47 ∈ name ∨ 92 ∈ name ∨ 58 ∈ name ∨
    0 ∈ name)) .EINVAL

namespace Server

def «open» (fs : I) : Server I := ⟨fs, [some (.Dir rootPtr (Rights.root Dir.ALL))], 1⟩

def tx {α : Type} (f : Act I Errno α) : Act (Server I) Errno α := fun s =>
  let (r, fs) := E.tx f s.fs
  (r, { s with fs := fs })

def tick : Act (Server I) Errno ℕ := fun s => (.ok (s.clock + 1), { s with clock := s.clock + 1 })

def entry (s : Server I) (handle : ℕ) : Except Errno Entry := okOr .EBADF (Cells.lookup s.handles handle)

def dirAt (s : Server I) (handle : ℕ) : Except Errno (ℕ × Rights) := do
  match ← s.entry handle with
  | .Dir ptr rights => .ok (ptr, rights)
  | .File _ _ => .error .ENOTDIR

def fileAt (s : Server I) (handle : ℕ) (needed : UInt64) (refusal : Errno) : Except Errno ℕ := do
  match ← s.entry handle with
  | .File ptr rights => if rights.allows needed then .ok ptr else .error refusal
  | .Dir _ _ => .error .EISDIR

def nodeAt (s : Server I) (handle : ℕ) (needed : UInt64) (refusal : Errno) : Except Errno ℕ := do
  let e ← s.entry handle
  if e.rights.allows needed then .ok e.ptr else .error refusal

def install (e : Entry) : Act (Server I) Errno ℕ := fun s =>
  let (i, handles) := Cells.place 0 s.handles e
  (.ok (i % 2 ^ 32), { s with handles := handles })

def openFileAt (handle : ℕ) (name : Bytes) : Act (Server I) Errno ℕ := do
  let (parent, rights) ← asks fun s => do
    checkComponent name
    let (parent, rights) ← s.dirAt handle
    ensure (!rights.deniesAll (Dir.READ ||| Dir.WRITE)) .ENOENT
    .ok (parent, rights)
  let ptr ← tx E do
    let (ptr, node) ← E.findNode parent name
    asks fun _ => ensure (node.kind ≠ .dir) .EISDIR
    E.onOpenNode ptr
    pure ptr
  install (.File ptr (rights.attenuate (Dir.READ ||| Dir.WRITE)))

def resolveChildDir (handle : ℕ) (name : Bytes) (needed : UInt64) : Act (Server I) Errno (ℕ × Rights) := do
  let (parent, rights) ← asks fun s => do
    checkComponent name
    let (parent, rights) ← s.dirAt handle
    ensure (rights.allows needed) .ENOENT
    .ok (parent, rights)
  let (ptr, node) ← tx E (E.findNode parent name)
  asks fun _ => ensure (node.kind = .dir) .ENOTDIR
  pure (ptr, rights)

def openDir (handle : ℕ) (name : Bytes) (requested : UInt64) : Act (Server I) Errno ℕ := do
  let (ptr, rights) ← resolveChildDir E handle name Dir.DESCEND
  asks fun _ => ensure (rights.attenuate requested = Rights.root requested) .EPERM
  install (.Dir ptr (rights.attenuate requested))

def makeDir (handle : ℕ) (name : Bytes) (requested : UInt64) : Act (Server I) Errno ℕ := do
  let (parent, rights) ← asks fun s => do
    checkComponent name
    let (parent, rights) ← s.dirAt handle
    ensure (rights.allows Dir.CREATE) .EROFS
    ensure (rights.allows Dir.DESCEND) .EPERM
    ensure (rights.attenuate requested = Rights.root requested) .EPERM
    .ok (parent, rights)
  let now ← tick
  let ptr ← tx E do
    let existing ← attempt (E.findNode parent name)
    asks fun _ => ensure existing.isNone .EEXIST
    E.createNode parent name .dir 0o755 now
  install (.Dir ptr (rights.attenuate requested))

def createFileAt (handle : ℕ) (name : Bytes) : Act (Server I) Errno ℕ := do
  let (parent, rights) ← asks fun s => do
    checkComponent name
    let (parent, rights) ← s.dirAt handle
    ensure (rights.allows Dir.CREATE) .EROFS
    .ok (parent, rights)
  let now ← tick
  let ptr ← tx E do
    let existing ← attempt (E.findNode parent name)
    asks fun _ => ensure existing.isNone .EEXIST
    let ptr ← E.createNode parent name .file 0o644 now
    E.onOpenNode ptr
    pure ptr
  install (.File ptr (rights.attenuate (Dir.READ ||| Dir.WRITE)))

/-- The rows a listing counts, sorted. A row without a name is one of them, under the empty name. -/
def rows (children : List Row) : List Row :=
  (children.filter (·.name ≠ some STORE_DIR)).insertionSort fun a b => a.name.getD [] ≤ b.name.getD []

def encodeEntries (room : ℕ) : List Row → Act I Errno Bytes
  | [] => pure []
  | entry :: entries =>
    match entry.name with
    | none => encodeEntries room entries
    | some name => do
        let child ← E.readTree entry.node
        match Dirent.encode room name (child.kind = .dir) with
        | some record => do
            let records ← encodeEntries (room - record.length) entries
            pure (record ++ records)
        | none => pure []

def readDir (handle cursor room : ℕ) : Act (Server I) Errno Bytes := do
  let ptr ← asks fun s => do
    let (ptr, rights) ← s.dirAt handle
    ensure (rights.allows Dir.ENUMERATE) .EPERM
    .ok ptr
  tx E do
    let children ← E.childNodes ptr
    encodeEntries E room ((rows children).drop cursor)

def read (handle offset len : ℕ) : Act (Server I) Errno Bytes := do
  let ptr ← asks (·.fileAt handle Dir.READ .EBADF)
  tx E (E.readNode ptr offset len)

def write (handle offset : ℕ) (data : Bytes) : Act (Server I) Errno ℕ := do
  let ptr ← asks (·.fileAt handle Dir.WRITE .EROFS)
  let now ← tick
  tx E (E.writeNode ptr offset data now)

def fstat (handle : ℕ) : Act (Server I) Errno ℕ := do
  let ptr ← asks (·.fileAt handle 0 .EBADF)
  tx E do
    let node ← E.readTree ptr
    pure node.size

def truncate (handle size : ℕ) : Act (Server I) Errno Unit := do
  let ptr ← asks (·.fileAt handle Dir.WRITE .EROFS)
  let now ← tick
  tx E (E.truncateNode ptr size now)

def renameTx (srcParent : ℕ) (src : Bytes) (dstParent : ℕ) (dst : Bytes) : Act I Errno Unit := do
  let (ptr, node) ← E.findNode srcParent src
  asks fun _ => ensure (¬ (node.kind = .dir ∧ srcParent ≠ dstParent)) .EINVAL
  match ← attempt (E.findNode dstParent dst) with
  | some (existingPtr, existing) =>
    if existingPtr = ptr then pure ()
    else do
      asks fun _ => ensure (existing.kind = node.kind) (if existing.kind = .dir then .EISDIR else .ENOTDIR)
      E.renameNode srcParent src dstParent dst
      if existing.links = 1 then E.purgeAttrs existingPtr else pure ()
  | none => E.renameNode srcParent src dstParent dst

def rename (srcDir : ℕ) (src : Bytes) (dstDir : ℕ) (dst : Bytes) : Act (Server I) Errno Unit := do
  let (srcParent, dstParent) ← asks fun s => do
    checkComponent src
    checkComponent dst
    let (srcParent, srcRights) ← s.dirAt srcDir
    let (dstParent, dstRights) ← s.dirAt dstDir
    ensure (srcRights.allows Dir.REMOVE ∧ dstRights.allows Dir.CREATE) .EROFS
    .ok (srcParent, dstParent)
  tx E (renameTx E srcParent src dstParent dst)

def remove (kind : Kind) (handle : ℕ) (name : Bytes) : Act (Server I) Errno Unit := do
  let parent ← asks fun s => do
    checkComponent name
    let (parent, rights) ← s.dirAt handle
    ensure (rights.allows Dir.REMOVE) .EROFS
    .ok parent
  tx E do
    match ← E.removeNode parent name kind with
    | some id => E.purgeAttrs id
    | none => pure ()

def unlink : ℕ → Bytes → Act (Server I) Errno Unit := remove E .file

def rmdir : ℕ → Bytes → Act (Server I) Errno Unit := remove E .dir

def getXattr (handle : ℕ) (name : Bytes) : Act (Server I) Errno (ℕ × Bytes) := do
  let ptr ← asks fun s => do
    ensure (Xattr.validName name) .ERANGE
    s.nodeAt handle Dir.READ .EBADF
  tx E do
    let blob ← E.readAttrs ptr
    asks fun _ => do
      let (kind, value) ← okOr .ENODATA (Xattr.Store.get blob name)
      ensure (value.length ≤ PAGE) .ERANGE
      .ok (kind, value)

def setXattr (handle : ℕ) (name : Bytes) (kind : ℕ) (value : Bytes) : Act (Server I) Errno Unit := do
  let ptr ← asks fun s => do
    ensure (Xattr.validName name) .ERANGE
    ensure (value.length ≤ Xattr.MAX_VALUE) .E2BIG
    s.nodeAt handle Dir.WRITE .EROFS
  let now ← tick
  tx E do
    let blob ← E.readAttrs ptr
    let room := blob.length + Xattr.Store.recordLen name.length value.length
    let out ← asks fun _ => Xattr.Store.set blob ⟨name, kind, value⟩ room
    E.writeAttrs ptr out now

def listXattr (handle : ℕ) : Act (Server I) Errno Bytes := do
  let ptr ← asks (·.nodeAt handle Dir.READ .EBADF)
  tx E do
    let blob ← E.readAttrs ptr
    pure (Xattr.Store.list blob PAGE)

def removeXattr (handle : ℕ) (name : Bytes) : Act (Server I) Errno Unit := do
  let ptr ← asks fun s => do
    ensure (Xattr.validName name) .ERANGE
    s.nodeAt handle Dir.WRITE .EROFS
  let now ← tick
  tx E do
    let blob ← E.readAttrs ptr
    let out ← asks fun _ => Xattr.Store.remove blob name blob.length
    E.writeAttrs ptr out now

def free (handle : ℕ) : Act (Server I) Errno Unit := fun s =>
  (.ok (), { s with handles := Cells.clear s.handles handle })

def close (handle : ℕ) : Act (Server I) Errno Unit := do
  let e ← asks fun s => do
    ensure (handle ≠ ROOT.toNat) .EINVAL
    s.entry handle
  free handle
  match e with
  | .File ptr _ => tx E (E.onCloseNode ptr)
  | .Dir _ _ => pure ()

def statfs (handle : ℕ) : Act (Server I) Errno (ℕ × ℕ × ℕ) :=
  asks fun s => do
    let _ ← s.entry handle
    .ok (PAGE, E.blocks s.fs, E.free s.fs)

def syncPermitted (handle : ℕ) : Act (Server I) Errno Unit := do
  let _ ← asks (·.nodeAt handle Dir.WRITE .EROFS)

def sync : Act (Server I) Errno Int64 := fun s =>
  let (r, fs) := E.sync s.fs
  (.ok r, { s with fs := fs })

end Server

end CrickerOs.FsServer
