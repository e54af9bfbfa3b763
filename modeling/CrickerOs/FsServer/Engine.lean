import CrickerOs.Library.Acting
import CrickerOs.FsProto.Wire

namespace CrickerOs.FsServer

open Library Library.Result Library.Act FsProto

def isUtf8 (bytes : Bytes) : Bool := (ByteArray.mk bytes.toArray).validateUTF8

inductive Kind
  | file | dir
  deriving DecidableEq

structure Node where
  kind : Kind
  links : ℕ
  size : ℕ

def DIR_ENTRY_MAX_LENGTH : ℕ := 252

structure Row where
  bytes : Bytes
  node : ℕ
  short : bytes.length ≤ DIR_ENTRY_MAX_LENGTH
  deriving DecidableEq

/-- The name of a directory entry, which the disk may hold in bytes that are no text. -/
def Row.name (row : Row) : Option Bytes := if isUtf8 row.bytes then some row.bytes else none

def rootPtr : ℕ := 1

/-- The operations of the engine that the server uses. The image is whatever the engine keeps, on the disk and
beside it, and an operation that fails may have changed it. What lasts of the work of a transaction is for `tx` to
say. -/
structure Engine (I : Type) where
  tx : {α : Type} → Act I Errno α → Act I Errno α
  readTree : (ptr : ℕ) → Act I Errno Node
  childNodes : (parent : ℕ) → Act I Errno (List Row)
  findNode : (parent : ℕ) → (name : Bytes) → Act I Errno (ℕ × Node)
  createNode : (parent : ℕ) → (name : Bytes) → Kind → (mode now : ℕ) → Act I Errno ℕ
  removeNode : (parent : ℕ) → (name : Bytes) → Kind → Act I Errno (Option ℕ)
  renameNode : (origParent : ℕ) → (origName : Bytes) → (newParent : ℕ) → (newName : Bytes) → Act I Errno Unit
  onOpenNode : (ptr : ℕ) → Act I Errno Unit
  onCloseNode : (ptr : ℕ) → Act I Errno Unit
  readNode : (ptr offset len : ℕ) → Act I Errno Bytes
  writeNode : (ptr offset : ℕ) → Bytes → (now : ℕ) → Act I Errno ℕ
  truncateNode : (ptr size now : ℕ) → Act I Errno Unit
  blocks : I → ℕ
  free : I → ℕ
  sync : I → Int64 × I

/-- A full disk with these entries in its root: it can be read, and nothing on it changes. -/
def Engine.full (files : List (Row × Kind × Bytes)) : Engine Unit :=
  let node := fun file : Row × Kind × Bytes => Node.mk file.2.1 1 file.2.2.length
  let file := fun ptr => okOr .ENOENT (files.find? (·.1.node = ptr))
  { tx := id
    readTree := fun ptr => asks fun _ => if ptr = rootPtr then .ok ⟨.dir, 1, 0⟩ else (file ptr).map node
    childNodes := fun parent => asks fun _ => .ok (if parent = rootPtr then files.map (·.1) else [])
    findNode := fun parent name => asks fun _ => do
      let found ← okOr .ENOENT (files.find? fun file => parent = rootPtr ∧ file.1.bytes = name)
      .ok (found.1.node, node found)
    createNode := fun _ _ _ _ _ => asks fun _ => .error .ENOSPC
    removeNode := fun _ _ _ => asks fun _ => .error .ENOSPC
    renameNode := fun _ _ _ _ => asks fun _ => .error .ENOSPC
    onOpenNode := fun _ => pure ()
    onCloseNode := fun _ => pure ()
    readNode := fun ptr offset len => asks fun _ => (file ptr).map fun file => window file.2.2 offset len
    writeNode := fun _ _ _ _ => asks fun _ => .error .ENOSPC
    truncateNode := fun _ _ _ => asks fun _ => .error .ENOSPC
    blocks := fun _ => 16
    free := fun _ => 0
    sync := fun i => (0, i) }

end CrickerOs.FsServer
