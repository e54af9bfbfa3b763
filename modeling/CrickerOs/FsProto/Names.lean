import CrickerOs.FsProto.Verbs

namespace CrickerOs.FsProto

open Library

namespace Dirent

def recordLen (nameLen : ℕ) : ℕ := 2 + nameLen

def encode (room : ℕ) (name : Bytes) (isDir : Bool) : Option Bytes :=
  if 255 < name.length ∨ room < recordLen name.length then none
  else some ((if isDir then 1 else 0) :: UInt8.ofNat name.length :: name)

def iterFrom : ℕ → Bytes → List (Bytes × Bool)
  | fuel + 1, flags :: len :: buf =>
    if buf.length < len.toNat then []
    else (buf.take len.toNat, flags &&& 1 != 0) :: iterFrom fuel (buf.drop len.toNat)
  | _, _ => []

def iter (buf : Bytes) : List (Bytes × Bool) := iterFrom buf.length buf

lemma iterFrom_encode {fuel room : ℕ} {name record buf : Bytes} {isDir : Bool}
    (h : encode room name isDir = some record) : iterFrom (fuel + 1) (record ++ buf) = (name, isDir) ::
      iterFrom fuel buf := by
  by_cases hfits : 255 < name.length ∨ room < recordLen name.length
  · rw [encode, if_pos hfits] at h
    cases h
  rw [encode, if_neg hfits] at h
  cases h
  have hlen : (UInt8.ofNat name.length).toNat = name.length := by
    rw [UInt8.toNat_ofNat']
    omega
  rw [List.cons_append, List.cons_append, iterFrom, hlen, if_neg (by rw [List.length_append]; omega),
    List.take_left, List.drop_left]
  cases isDir <;> rfl

end Dirent

namespace Nameset

def IS_DIR : UInt8 := 0x80

def LEN : UInt8 := 0x7f

def iterFrom : ℕ → Bytes → List (Bytes × Bool)
  | 0, _ => []
  | _, [] => []
  | fuel + 1, head :: buf =>
    let len := (head &&& LEN).toNat
    if len = 0 ∨ buf.length < len then []
    else (buf.take len, head &&& IS_DIR != 0) :: iterFrom fuel (buf.drop len)

def iter (buf : Bytes) : List (Bytes × Bool) := iterFrom buf.length buf

def contains (buf name : Bytes) : Bool := (iter buf).any (·.1 = name)

def count (buf : Bytes) : ℕ := (iter buf).length

lemma ne_nil_of_mem_iterFrom {fuel : ℕ} {buf : Bytes} {entry : Bytes × Bool} (h : entry ∈ iterFrom fuel buf) :
    entry.1 ≠ [] := by
  induction fuel generalizing buf with
  | zero => exact nomatch h
  | succ fuel ih =>
    cases buf with
    | nil => exact nomatch h
    | cons head buf =>
      rw [iterFrom] at h
      split_ifs at h with hstop
      · exact nomatch h
      · rcases List.mem_cons.mp h with rfl | h
        · rw [← List.length_pos_iff, List.length_take]
          omega
        · exact ih h

lemma contains_nil (buf : Bytes) : contains buf [] = false := by
  rw [contains, List.any_eq_false]
  intro entry hentry
  rw [decide_eq_true_eq]
  exact ne_nil_of_mem_iterFrom hentry

end Nameset

end CrickerOs.FsProto
