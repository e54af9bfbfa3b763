import CrickerOs.Library.Bytes
import Mathlib.Data.UInt

/-! The words of the file-service contract. A request is two words and the shared page: the first word packs an
opcode, a handle and a length. A reply is one signed word, an errno if it is negative. -/

namespace CrickerOs.FsProto

open Library Nat BitVec UInt64

def PAGE : ℕ := 4096

def TRANSFER_MAX : ℕ := 16 * PAGE

abbrev Page := ℕ → UInt8

namespace Page

def get (page : Page) (off len : ℕ) : Bytes := (List.range len).map fun i => page (off + i)

def put (page : Page) (off : ℕ) (bytes : Bytes) : Page :=
  fun i => if off ≤ i then bytes[i - off]?.getD (page i) else page i

variable {page : Page} {off len pos : ℕ} {bytes : Bytes}

@[simp]
lemma length_get : (page.get off len).length = len := by
  simp [get]

lemma getElem?_get : (page.get off len)[pos]? = if pos < len then some (page (off + pos)) else none := by
  rw [get, List.getElem?_map]
  split_ifs with h
  · rw [List.getElem?_range h, Option.map_some]
  · rw [List.getElem?_eq_none (by simpa using h), Option.map_none]

lemma put_get : page.put off (page.get off len) = page := by
  funext i
  rw [put]
  split_ifs with h
  · rw [getElem?_get]
    split_ifs with hlt
    · rw [Option.getD_some, Nat.add_sub_cancel' h]
    · rw [Option.getD_none]
  · rfl

@[simp]
lemma put_nil : page.put off [] = page := by
  funext i
  simp [put]

end Page

inductive Errno
  | EPERM | ENOENT | EIO | E2BIG | EBADF | EEXIST | ENOTDIR | EISDIR | EINVAL | EMFILE | ENOSPC | EROFS | ERANGE
  | ENOTEMPTY | ENODATA
  deriving DecidableEq

def Errno.number : Errno → ℕ
  | EPERM => 1
  | ENOENT => 2
  | EIO => 5
  | E2BIG => 7
  | EBADF => 9
  | EEXIST => 17
  | ENOTDIR => 20
  | EISDIR => 21
  | EINVAL => 22
  | EMFILE => 24
  | ENOSPC => 28
  | EROFS => 30
  | ERANGE => 34
  | ENOTEMPTY => 39
  | ENODATA => 61

def replyErr (errno : Errno) : Int64 := -Int64.ofNat errno.number

inductive Op
  | OPEN | READ | WRITE | CLOSE | FSTAT | CREATE | TRUNCATE | OPENDIR | READDIR | MKDIR | RENAME | UNLINK | RMDIR
  | GETXATTR | SETXATTR | LISTXATTR | REMOVEXATTR | STATFS | SYNC
  deriving DecidableEq

namespace Op

def code : Op → UInt64
  | OPEN => 1
  | READ => 2
  | WRITE => 3
  | CLOSE => 4
  | FSTAT => 5
  | CREATE => 6
  | TRUNCATE => 7
  | OPENDIR => 8
  | READDIR => 9
  | MKDIR => 10
  | RENAME => 11
  | UNLINK => 12
  | RMDIR => 13
  | GETXATTR => 14
  | SETXATTR => 15
  | LISTXATTR => 16
  | REMOVEXATTR => 17
  | STATFS => 18
  | SYNC => 19

def all : List Op :=
  [OPEN, READ, WRITE, CLOSE, FSTAT, CREATE, TRUNCATE, OPENDIR, READDIR, MKDIR, RENAME, UNLINK, RMDIR, GETXATTR,
    SETXATTR, LISTXATTR, REMOVEXATTR, STATFS, SYNC]

def ofCode (code : UInt64) : Option Op := all.find? (·.code = code)

@[simp]
lemma ofCode_code (o : Op) : ofCode o.code = some o := by
  cases o <;> decide

lemma ofCode_eq_some {c : UInt64} {o : Op} : ofCode c = some o ↔ c = o.code := by
  refine ⟨fun h => ?_, fun h => by rw [h, ofCode_code]⟩
  have := List.find?_some h
  rw [decide_eq_true_eq] at this
  exact this.symm

lemma code_injective {o o' : Op} (h : o.code = o'.code) : o = o' := by
  have := ofCode_code o
  rw [h, ofCode_code] at this
  exact (Option.some.inj this).symm

end Op

section

def MAX_LEN : UInt64 := 0xff_ffff_ffff

def MAX_HANDLE : UInt64 := 0xffff

def ROOT : UInt64 := 0

def op (w0 : UInt64) : UInt64 := w0 >>> 56

def req (op handle len : UInt64) : UInt64 := (op <<< 56) ||| ((handle &&& MAX_HANDLE) <<< 40) ||| (len &&& MAX_LEN)

def reqHandle (w0 : UInt64) : UInt64 := (w0 >>> 40) &&& MAX_HANDLE

def reqLen (w0 : UInt64) : ℕ := (w0 &&& MAX_LEN).toNat

def renameDst (handle len : UInt64) : UInt64 := ((handle &&& MAX_HANDLE) <<< 40) ||| (len &&& MAX_LEN)

def dstHandle (w1 : UInt64) : UInt64 := (w1 >>> 40) &&& MAX_HANDLE

def dstLen (w1 : UInt64) : ℕ := (w1 &&& MAX_LEN).toNat

variable {c h l : UInt64}

lemma getLsbD_mask {n : ℕ} (hn : n ≤ 64) (i : ℕ) : (BitVec.ofNat 64 (2 ^ n - 1)).getLsbD i = decide (i < n) := by
  rw [getLsbD_ofNat, testBit_two_pow_sub_one]
  by_cases hi : i < n <;> simp [hi]
  omega

lemma getLsbD_maxHandle (i : ℕ) : MAX_HANDLE.toBitVec.getLsbD i = decide (i < 16) :=
  getLsbD_mask (n := 16) (by decide) i

lemma getLsbD_maxLen (i : ℕ) : MAX_LEN.toBitVec.getLsbD i = decide (i < 40) :=
  getLsbD_mask (n := 40) (by decide) i

variable {n i : ℕ}

lemma getLsbD_shiftLeft {k : UInt64} (hk : k.toNat % 64 = n) (hi : i < 64) :
    (h <<< k).toBitVec.getLsbD i = (decide (n ≤ i) && h.toBitVec.getLsbD (i - n)) := by
  rw [UInt64.toBitVec_shiftLeft, BitVec.shiftLeft_eq', BitVec.getLsbD_shiftLeft,
    show (k.toBitVec % 64).toNat = n from hk]
  by_cases hin : i < n
  · simp [hin, not_le.mpr hin]
  · simp [hin, not_lt.mp hin, hi]

lemma getLsbD_shiftRight {k : UInt64} (hk : k.toNat % 64 = n) :
    (h >>> k).toBitVec.getLsbD i = h.toBitVec.getLsbD (n + i) := by
  rw [UInt64.toBitVec_shiftRight, ushiftRight_eq', getLsbD_ushiftRight,
    show (k.toBitVec % 64).toNat = n from hk]

lemma eq_of_bits (hbits : ∀ i < 64, c.toBitVec.getLsbD i = h.toBitVec.getLsbD i) : c = h := by
  rw [← UInt64.toBitVec_inj]
  exact eq_of_getLsbD_eq hbits

lemma getLsbD_renameDst (hi : i < 64) : (renameDst h l).toBitVec.getLsbD i =
    if i < 40 then l.toBitVec.getLsbD i else decide (i < 56) && h.toBitVec.getLsbD (i - 40) := by
  have h40 : (40 : UInt64).toNat % 64 = 40 := by decide
  rw [renameDst, UInt64.toBitVec_or, getLsbD_or, getLsbD_shiftLeft h40 hi, UInt64.toBitVec_and,
    UInt64.toBitVec_and, getLsbD_and, getLsbD_and, getLsbD_maxLen, getLsbD_maxHandle]
  split_ifs with hlt
  · simp [hlt, not_le.mpr hlt]
  · have hiff : i - 40 < 16 ↔ i < 56 := by omega
    simp [hlt, not_lt.mp hlt, hiff, Bool.and_comm]

lemma getLsbD_req (hi : i < 64) : (req c h l).toBitVec.getLsbD i =
    if i < 56 then (renameDst h l).toBitVec.getLsbD i else c.toBitVec.getLsbD (i - 56) := by
  have h56 : (56 : UInt64).toNat % 64 = 56 := by decide
  rw [show req c h l = (c <<< 56) ||| renameDst h l from UInt64.or_assoc .., UInt64.toBitVec_or, getLsbD_or,
    getLsbD_shiftLeft h56 hi]
  split_ifs with hlt
  · simp [not_le.mpr hlt]
  · rw [getLsbD_renameDst hi, if_neg (by omega)]
    simp [hlt, not_lt.mp hlt]

lemma op_req_of_lt (hsmall : c.toNat < 2 ^ 8) : op (req c h l) = c := by
  have h56 : (56 : UInt64).toNat % 64 = 56 := by decide
  apply eq_of_bits
  intro i hi
  rw [op, getLsbD_shiftRight h56]
  by_cases hi8 : i < 8
  · rw [getLsbD_req (by omega), if_neg (by omega), Nat.add_sub_cancel_left]
  · rw [getLsbD_of_ge _ _ (by omega)]
    exact (Nat.testBit_lt_two_pow (lt_of_lt_of_le hsmall
      (Nat.pow_le_pow_right (by decide) (Nat.not_lt.mp hi8)))).symm

lemma op_req {o : Op} : op (req o.code h l) = o.code := by
  apply op_req_of_lt
  cases o <;> decide

lemma op_lt (w0 : UInt64) : (op w0).toNat < 2 ^ 8 := by
  rw [op, UInt64.toNat_shiftRight, show (56 : UInt64).toNat % 64 = 56 from rfl, shiftRight_eq_div_pow]
  have := w0.toNat_lt
  omega

lemma dstHandle_renameDst : dstHandle (renameDst h l) = h &&& MAX_HANDLE := by
  have h40 : (40 : UInt64).toNat % 64 = 40 := by decide
  apply eq_of_bits
  intro i hi
  rw [dstHandle, UInt64.toBitVec_and, UInt64.toBitVec_and, getLsbD_and, getLsbD_and, getLsbD_shiftRight h40,
    getLsbD_maxHandle]
  by_cases hi16 : i < 16
  · rw [getLsbD_renameDst (by omega), if_neg (by omega), Nat.add_sub_cancel_left]
    simp [hi16, show 40 + i < 56 by omega]
  · simp [hi16]

lemma and_maxLen_congr (hbits : ∀ i < 40, c.toBitVec.getLsbD i = h.toBitVec.getLsbD i) :
    c &&& MAX_LEN = h &&& MAX_LEN := by
  apply eq_of_bits
  intro i hi
  rw [UInt64.toBitVec_and, UInt64.toBitVec_and, getLsbD_and, getLsbD_and, getLsbD_maxLen]
  by_cases hi40 : i < 40
  · rw [hbits i hi40]
  · simp [hi40]

lemma dstLen_renameDst : dstLen (renameDst h l) = (l &&& MAX_LEN).toNat := by
  apply congrArg toNat
  apply and_maxLen_congr
  intro i hi
  rw [getLsbD_renameDst (by omega), if_pos hi]

lemma reqHandle_req : reqHandle (req c h l) = h &&& MAX_HANDLE := by
  have h40 : (40 : UInt64).toNat % 64 = 40 := by decide
  rw [← @dstHandle_renameDst h l]
  apply eq_of_bits
  intro i hi
  rw [dstHandle, reqHandle, UInt64.toBitVec_and, UInt64.toBitVec_and, getLsbD_and, getLsbD_and,
    getLsbD_shiftRight h40, getLsbD_shiftRight h40, getLsbD_maxHandle]
  by_cases hi16 : i < 16
  · rw [getLsbD_req (by omega), if_pos (by omega)]
  · simp [hi16]

lemma reqLen_req : reqLen (req c h l) = (l &&& MAX_LEN).toNat := by
  rw [← @dstLen_renameDst h l]
  apply congrArg toNat
  apply and_maxLen_congr
  intro i hi
  rw [getLsbD_req (by omega), if_pos (by omega)]

lemma and_maxHandle (hh : h ≤ MAX_HANDLE) : h &&& MAX_HANDLE = h := by
  have hlt : h.toNat < 2 ^ 16 := by
    have := le_iff_toNat_le.mp hh
    have hmax : MAX_HANDLE.toNat = 2 ^ 16 - 1 := rfl
    omega
  apply eq_of_bits
  intro i hi
  rw [UInt64.toBitVec_and, getLsbD_and, getLsbD_maxHandle]
  by_cases hi16 : i < 16
  · simp [hi16]
  · rw [show h.toBitVec.getLsbD i = false from
      Nat.testBit_lt_two_pow (lt_of_lt_of_le hlt (Nat.pow_le_pow_right (by decide) (Nat.not_lt.mp hi16)))]
    rfl

lemma and_maxLen_toNat (hl : l.toNat < 2 ^ 40) : (l &&& MAX_LEN).toNat = l.toNat := by
  apply congrArg toNat
  apply eq_of_bits
  intro i hi
  rw [UInt64.toBitVec_and, getLsbD_and, getLsbD_maxLen]
  by_cases hi40 : i < 40
  · simp [hi40]
  · rw [show l.toBitVec.getLsbD i = false from
      Nat.testBit_lt_two_pow (lt_of_lt_of_le hl (Nat.pow_le_pow_right (by decide) (Nat.not_lt.mp hi40)))]
    rfl

lemma reqLen_req_ofNat {c h : UInt64} (hn : n < 2 ^ 40) : reqLen (req c h (ofNat n)) = n := by
  have hto : (ofNat n).toNat = n := by
    rw [toNat_ofNat']
    omega
  rw [reqLen_req, and_maxLen_toNat (by omega), hto]

lemma dstLen_renameDst_ofNat {h : UInt64} (hn : n < 2 ^ 40) : dstLen (renameDst h (ofNat n)) = n := by
  have hto : (ofNat n).toNat = n := by
    rw [toNat_ofNat']
    omega
  rw [dstLen_renameDst, and_maxLen_toNat (by omega), hto]

lemma reqLen_lt (w0 : UInt64) : reqLen w0 < 2 ^ 40 :=
  lt_of_le_of_lt (UInt64.le_iff_toNat_le.mp UInt64.and_le_right) (by decide)

lemma dstLen_lt (w1 : UInt64) : dstLen w1 < 2 ^ 40 := reqLen_lt w1

-- from here on the words are taken apart by the lemmas above only
attribute [irreducible] op req reqHandle reqLen renameDst dstHandle dstLen

end

end CrickerOs.FsProto
