import CrickerOs.FsServer.Server

namespace CrickerOs.FsServer

open Library Library.Result Library.Act FsProto

namespace Server

variable {I : Type} (E : Engine I)

def dispatch (op : Option Op) (handle n : ℕ) (w1 : UInt64) (page : Page) : Act (Server I) Errno (Int64 × Page) :=
  let len := min n PAGE
  let bulkLen := min n TRANSFER_MAX
  let name := page.get 0 len
  match op with
  | some .OPEN => do
      asks fun _ => ensure (isUtf8 name) .EINVAL
      let h ← openFileAt E handle name
      pure (Int64.ofNat h, page)
  | some .READ => do
      let bytes ← read E handle w1.toNat bulkLen
      pure (Int64.ofNat bytes.length, page.put 0 bytes)
  | some .WRITE => do
      let written ← write E handle w1.toNat (page.get 0 bulkLen)
      pure (Int64.ofNat written, page)
  | some .FSTAT => do
      let size ← fstat E handle
      pure (Int64.ofNat size, page)
  | some .CLOSE => do
      close E handle
      pure (0, page)
  | some .CREATE => do
      asks fun _ => ensure (isUtf8 name) .EINVAL
      let h ← createFileAt E handle name
      pure (Int64.ofNat h, page)
  | some .OPENDIR => do
      asks fun _ => ensure (isUtf8 name) .EINVAL
      let h ← openDir E handle name w1
      pure (Int64.ofNat h, page)
  | some .MKDIR => do
      asks fun _ => ensure (isUtf8 name) .EINVAL
      let h ← makeDir E handle name w1
      pure (Int64.ofNat h, page)
  | some .READDIR => do
      let bytes ← readDir E handle (w1.toNat % 2 ^ 32) PAGE
      pure (Int64.ofNat bytes.length, page.put 0 bytes)
  | some .RENAME => do
      let dst := page.get len (dstLen w1)
      asks fun _ => do
        ensure (len + dstLen w1 ≤ PAGE) .EINVAL
        ensure (isUtf8 name ∧ isUtf8 dst) .EINVAL
      rename E handle name (dstHandle w1).toNat dst
      pure (0, page)
  | some .UNLINK => do
      asks fun _ => ensure (isUtf8 name) .EINVAL
      unlink E handle name
      pure (0, page)
  | some .RMDIR => do
      asks fun _ => ensure (isUtf8 name) .EINVAL
      rmdir E handle name
      pure (0, page)
  | some .GETXATTR => do
      asks fun _ => ensure (len ≤ Xattr.MAX_NAME) .ERANGE
      let (kind, value) ← getXattr E handle name
      pure (Xattr.reply kind value.length, page.put 0 value)
  | some .SETXATTR => do
      asks fun _ => ensure (len + Xattr.specValueLen w1 ≤ PAGE) .EINVAL
      setXattr E handle name (Xattr.specKind w1) (page.get len (Xattr.specValueLen w1))
      pure (0, page)
  | some .LISTXATTR => do
      let bytes ← listXattr E handle
      pure (Int64.ofNat bytes.length, page.put 0 bytes)
  | some .REMOVEXATTR => do
      removeXattr E handle name
      pure (0, page)
  | some .TRUNCATE => do
      truncate E handle w1.toNat
      pure (0, page)
  | some .SYNC => do
      syncPermitted handle
      let r ← sync E
      pure (r, page)
  | some .STATFS => do
      let (block, total, free) ← statfs E handle
      pure (24, page.put 0 (Bytes.toLe 8 block ++ Bytes.toLe 8 total ++ Bytes.toLe 8 free))
  | none => asks fun _ => .error .EINVAL

def serve (s : Server I) (w0 w1 : UInt64) (page : Page) : Int64 × Page × Server I :=
  match dispatch E (Op.ofCode (op w0)) (reqHandle w0).toNat (reqLen w0) w1 page s with
  | (.ok (r, page), s') => (r, page, s')
  | (.error e, s') => (replyErr e, page, s')

end Server

end CrickerOs.FsServer
