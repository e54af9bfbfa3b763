import CrickerOs.FsProto.Wire

namespace CrickerOs.FsProto

namespace Dir

def ENUMERATE : UInt64 := 1
def READ : UInt64 := 2
def WRITE : UInt64 := 4
def CREATE : UInt64 := 8
def REMOVE : UInt64 := 16
def DESCEND : UInt64 := 32
def ALL : UInt64 := ENUMERATE ||| READ ||| WRITE ||| CREATE ||| REMOVE ||| DESCEND

end Dir

structure Rights where
  bits : UInt64
  deriving DecidableEq

namespace Rights

def root (mask : UInt64) : Rights := ⟨mask &&& Dir.ALL⟩

def attenuate (rights : Rights) (requested : UInt64) : Rights := ⟨rights.bits &&& requested⟩

def allows (rights : Rights) (needed : UInt64) : Bool := rights.bits &&& needed == needed

def deniesAll (rights : Rights) (any : UInt64) : Bool := rights.bits &&& any == 0

end Rights

inductive Operand
  | None | Name | Payload | Rename
  deriving DecidableEq

structure Verb where
  op : Op
  operand : Operand
  carriesW1 : Bool
  mintsHandle : Bool
  needsAll : UInt64
  needsAny : UInt64
  deriving DecidableEq

namespace Verb

def carriesLen (v : Verb) : Bool := v.operand != .None

def takesName (v : Verb) : Bool := v.operand == .Name || v.operand == .Rename

def mutates (v : Verb) : Bool := v.needsAll &&& (Dir.WRITE ||| Dir.CREATE ||| Dir.REMOVE) != 0

def row (op : Op) (operand : Operand) (carriesW1 mintsHandle : Bool) (needsAll : UInt64) : Verb :=
  ⟨op, operand, carriesW1, mintsHandle, needsAll, 0⟩

def FIRST : UInt64 := Op.OPEN.code

def LAST : UInt64 := Op.STATFS.code

def TABLE : List Verb :=
  [⟨.OPEN, .Name, false, true, 0, Dir.READ ||| Dir.WRITE⟩,
    row .READ .Payload true false Dir.READ,
    row .WRITE .Payload true false Dir.WRITE,
    row .CLOSE .None false false 0,
    row .FSTAT .None false false 0,
    row .CREATE .Name false true Dir.CREATE,
    row .TRUNCATE .None true false Dir.WRITE,
    row .OPENDIR .Name true true Dir.DESCEND,
    row .READDIR .None true false Dir.ENUMERATE,
    row .MKDIR .Name true true (Dir.CREATE ||| Dir.DESCEND),
    row .RENAME .Rename true false (Dir.REMOVE ||| Dir.CREATE),
    row .UNLINK .Name false false Dir.REMOVE,
    row .RMDIR .Name false false Dir.REMOVE,
    row .GETXATTR .Payload false false Dir.READ,
    row .SETXATTR .Payload true false Dir.WRITE,
    row .LISTXATTR .None false false Dir.READ,
    row .REMOVEXATTR .Payload false false Dir.WRITE,
    row .STATFS .None false false 0]

def of (code : UInt64) : Option Verb :=
  if code < FIRST ∨ LAST < code then none else TABLE[(code - FIRST).toNat]?

variable {code : UInt64} {v : Verb}

lemma of_eq_some (h : of code = some v) : v ∈ TABLE ∧ code = v.op.code := by
  rw [of] at h
  split_ifs at h with hrange
  refine ⟨List.mem_of_getElem? h, ?_⟩
  have hrows : ∀ i < 18, ∀ v, TABLE[i]? = some v → v.op.code = UInt64.ofNat (i + 1) := by decide
  have hlt := (List.getElem?_eq_some_iff.mp h).1
  rw [hrows _ hlt v h]
  have hcode : FIRST ≤ code := UInt64.not_lt.mp (not_or.mp hrange).1
  apply UInt64.toNat_inj.mp
  rw [UInt64.toNat_ofNat', UInt64.toNat_sub_of_le _ _ hcode]
  have hone : FIRST.toNat = 1 := rfl
  have := UInt64.le_iff_toNat_le.mp hcode
  have := code.toNat_lt
  omega

lemma operand_of_rename (h : v ∈ TABLE) (hop : v.op = .RENAME) : v.operand = .Rename := by
  revert h hop
  revert v
  decide

lemma carries_of_bulk (h : v ∈ TABLE) (hop : v.op = .READ ∨ v.op = .WRITE) : v.carriesLen = true ∧
    v.carriesW1 = true := by
  revert h hop
  revert v
  decide

lemma ofCode_of_none (h : of code = none) (hsync : code ≠ Op.SYNC.code) : Op.ofCode code = none := by
  cases ho : Op.ofCode code with
  | none => rfl
  | some o =>
    rw [Op.ofCode_eq_some] at ho
    subst ho
    revert h hsync
    cases o <;> decide

end Verb

inductive Policy
  | Local | Forward | Refused (errno : Errno)
  deriving DecidableEq

namespace Policy

def POLICY : List Policy :=
  [.Local, .Forward, .Forward, .Local, .Forward, .Refused .ENOTDIR, .Forward, .Refused .ENOTDIR, .Refused .ENOTDIR,
    .Refused .ENOTDIR, .Refused .ENOTDIR, .Refused .ENOTDIR, .Refused .ENOTDIR, .Forward, .Forward, .Forward,
    .Forward, .Forward]

def of (code : UInt64) : Option Policy :=
  if code < Verb.FIRST ∨ Verb.LAST < code then none else POLICY[(code - Verb.FIRST).toNat]?

end Policy

def HANDLE : UInt64 := 0

def MAX_NAME : ℕ := 16

end CrickerOs.FsProto
