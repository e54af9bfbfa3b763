import CrickerOs.Glob.Language
import CrickerOs.Glob.Magic

namespace CrickerOs.Glob

def literalFrom (pattern : List UInt8) (room : ℕ) : (fuel j : ℕ) → List UInt8 → Option (List UInt8)
  | 0, _, written => some written
  | fuel + 1, j, written =>
    match decode pattern j 0 with
    | none => some written
    | some (.byte b next, _) => if written.length < room then literalFrom pattern room fuel next (written ++ [b])
        else none
    | some _ => none

def literal (pattern : List UInt8) (room : ℕ) : Option (List UInt8) :=
  literalFrom pattern room (pattern.length + 1) 0 []

variable {pattern : List UInt8}

lemma literalFrom_magic {fuel j room : ℕ} {written : List UInt8} (h : hasMagicFrom pattern fuel j = true) :
    literalFrom pattern room fuel j written = none := by
  induction fuel generalizing j written with
  | zero => cases h
  | succ fuel ih =>
    rw [hasMagicFrom] at h
    rw [literalFrom]
    cases hdecode : decode pattern j 0 with
    | none =>
      rw [hdecode] at h
      cases h
    | some e =>
      obtain ⟨elem, n⟩ := e
      rw [hdecode] at h
      cases elem with
      | byte b next =>
        split_ifs
        · exact ih h
        · rfl
      | _ => rfl

lemma literalFrom_plain {fuel j : ℕ} (hfuel : pattern.length < fuel + j)
    (h : hasMagicFrom pattern fuel j = false) : ∃ l : List UInt8, pieces (pattern.drop j) = l.map .byte ∧
      l.length + j ≤ max pattern.length j ∧ ∀ room written, written.length + l.length ≤ room →
      literalFrom pattern room fuel j written = some (written ++ l) := by
  induction fuel generalizing j with
  | zero =>
    refine ⟨[], ?_, by simp, fun room written _ => by simp [literalFrom]⟩
    rw [List.drop_eq_nil_of_le (by omega)]
    exact pieces_of_none rfl
  | succ fuel ih =>
    rw [hasMagicFrom] at h
    split at h
    · rename_i hdecode
      refine ⟨[], pieces_of_none (piece_of_decode_none hdecode), by simp, fun room written _ => ?_⟩
      rw [literalFrom, hdecode, List.append_nil]
    · rename_i b next n hdecode
      have hj := lt_of_decode hdecode
      obtain ⟨p, hpiece, hnext, hresolves⟩ := piece_of_decode hdecode
      obtain rfl : p = .byte b := by
        cases p <;> first | exact hresolves.elim | exact congrArg Piece.byte hresolves
      have hlater : j < next := by
        have := length_piece hpiece
        simp only [List.length_drop, Elem.next] at this
        omega
      obtain ⟨l, hl, hlength, hwrite⟩ := ih (by omega) h
      refine ⟨b :: l, ?_, ?_, fun room written hroom => ?_⟩
      · rw [pieces_of_some hpiece, List.map_cons]
        exact congrArg _ hl
      · simp only [Elem.next] at hnext
        simp only [List.length_cons]
        omega
      · rw [List.length_cons] at hroom
        rw [literalFrom, hdecode]
        dsimp only
        rw [if_pos (by omega), hwrite room (written ++ [b]) (by simp; omega), List.append_assoc,
          List.singleton_append]
    · cases h

lemma splits_bytes {l name : List UInt8} : Splits (l.map .byte) name ↔ name = l := by
  induction l generalizing name with
  | nil => exact splits_nil
  | cons b l ih =>
    rw [List.map_cons, splits_single (p := .byte b) nofun]
    constructor
    · rintro ⟨c, rest, rfl, hc, hrest⟩
      rw [ih.mp hrest]
      exact congrArg (· :: l) (List.cons.inj hc).1
    · rintro rfl
      exact ⟨b, l, rfl, rfl, ih.mpr rfl⟩

lemma opensWithALiteralDot_of_pieces {ps : List Piece} (h : pieces pattern = .byte '.'.toUInt8 :: ps) :
    opensWithALiteralDot pattern = true := by
  rw [opensWithALiteralDot]
  cases hdecode : decode pattern 0 0 with
  | none =>
    have hnone := piece_of_decode_none hdecode
    rw [List.drop_zero] at hnone
    rw [pieces_of_none hnone] at h
    cases h
  | some e =>
    obtain ⟨elem, n⟩ := e
    obtain ⟨p, hpiece, -, hresolves⟩ := piece_of_decode hdecode
    rw [List.drop_zero] at hpiece
    rw [pieces_of_some hpiece] at h
    obtain ⟨rfl, -⟩ := List.cons.inj h
    cases elem with
    | byte b next =>
      obtain rfl : '.'.toUInt8 = b := hresolves
      rfl
    | star => exact hresolves.elim
    | any next => exact hresolves.elim
    | bracket hit next => exact hresolves.elim

theorem plain_word_names_one_file (pattern : List UInt8) :
    if hasMagic pattern then ∀ room, literal pattern room = none
    else ∃ l, (∀ room, pattern.length ≤ room → literal pattern room = some l) ∧
      ∀ name, («matches» pattern name = true ↔ name = l) ∧
      (matchesWith pattern name .ordinary = true ↔ name = l) := by
  split
  · rename_i hmagic
    exact fun room => literalFrom_magic hmagic
  · rename_i hmagic
    obtain ⟨l, hl, hlength, hwrite⟩ := literalFrom_plain (by omega) (Bool.eq_false_of_not_eq_true hmagic)
    rw [List.drop_zero] at hl
    refine ⟨l, fun room hroom => hwrite room [] (by simp; omega), fun name => ?_⟩
    have hordinary : matchesWith pattern name .ordinary = true ↔ name = l := by
      rw [matchesWith_ordinary, hl, splits_bytes]
    refine ⟨?_, hordinary⟩
    rw [matches_special, hordinary]
    refine and_iff_left_of_imp ?_
    rintro rfl hhead
    cases name with
    | nil => cases hhead
    | cons b rest =>
      cases hhead
      exact opensWithALiteralDot_of_pieces hl

end CrickerOs.Glob
