import CrickerOs.Gpt.Geometry
import CrickerOs.Library.Feedback

namespace CrickerOs.Gpt

open Library Library.Outcome Library.Bytes List

namespace Crc

def bitwiseRound (crc : UInt32) : UInt32 := (crc >>> 1) ^^^ (poly &&& (0 - (crc &&& 1)))

lemma and_one_toNat (c : UInt32) : (c &&& 1).toNat = c.toNat % 2 := by
  rw [UInt32.toNat_and]
  exact Nat.and_one_is_mod _

lemma and_one_eq (c : UInt32) : c &&& 1 = 0 ∨ c &&& 1 = 1 := by
  rcases Nat.mod_two_eq_zero_or_one c.toNat with h | h
  · exact Or.inl (UInt32.toNat_inj.mp ((and_one_toNat c).trans h))
  · exact Or.inr (UInt32.toNat_inj.mp ((and_one_toNat c).trans h))

lemma odd_iff (c : UInt32) : c &&& 1 ≠ 0 ↔ c.toBitVec.getLsbD 0 = true := by
  have hbit : c.toBitVec.getLsbD 0 = decide (c.toNat % 2 = 1) := Nat.testBit_zero _
  rw [hbit, decide_eq_true_eq, ← and_one_toNat]
  rcases and_one_eq c with h | h <;> rw [h] <;> decide

lemma round_toBitVec (c : UInt32) : (round c).toBitVec = Feedback.step poly.toBitVec c.toBitVec := by
  rw [round, Feedback.step]
  split
  · rename_i hodd
    rw [if_pos ((odd_iff c).mp hodd)]
    simp
  · rename_i heven
    rw [if_neg fun hodd => heven ((odd_iff c).mpr hodd)]
    simp

lemma bitwiseRound_eq (c : UInt32) : bitwiseRound c = round c := by
  rw [bitwiseRound, round]
  rcases and_one_eq c with h | h
  · have hmask : poly &&& (0 - 0) = 0 := by decide
    rw [h, hmask, UInt32.xor_zero, if_neg (by decide)]
  · have hmask : poly &&& (0 - 1) = poly := by decide
    rw [h, hmask, UInt32.xor_comm, if_pos (by decide)]

end Crc

def crc32Bitwise (bytes : Bytes) : UInt32 :=
  ~~~bytes.foldl (fun crc b => Crc.bitwiseRound^[8] (crc ^^^ b.toUInt32)) (~~~0)

namespace Crc

lemma iterate_round_toBitVec (n : ℕ) (c : UInt32) :
    (round^[n] c).toBitVec = (Feedback.step poly.toBitVec)^[n] c.toBitVec := by
  induction n generalizing c with
  | zero => rfl
  | succ n ih => rw [Function.iterate_succ_apply, ih, round_toBitVec, Function.iterate_succ_apply]

lemma table_eq (c : UInt32) (b : UInt8) :
    table ((c ^^^ b.toUInt32) &&& 0xff) ^^^ (c >>> 8) = round^[8] (c ^^^ b.toUInt32) := by
  have hmask (i : ℕ) : (0xff#32).getLsbD i = decide (i < 8) := by
    rw [BitVec.getLsbD_ofNat, show (0xff : ℕ) = 2 ^ 8 - 1 from rfl, Nat.testBit_two_pow_sub_one]
    by_cases hi : i < 8 <;> simp [hi]
    omega
  have hmoved : (c ^^^ b.toUInt32).toBitVec >>> 8 = c.toBitVec >>> 8 := by
    apply BitVec.eq_of_getLsbD_eq
    intro i _
    simp
  apply UInt32.toBitVec_inj.mp
  rw [iterate_round_toBitVec, Feedback.iterate_low ((c ^^^ b.toUInt32).toBitVec &&& 0xff#32), hmoved, table,
    UInt32.toBitVec_xor, iterate_round_toBitVec]
  · rfl
  · intro i hi
    rw [BitVec.getLsbD_and, hmask, decide_eq_true hi, Bool.and_true]
  · intro i hi
    rw [BitVec.getLsbD_and, hmask, decide_eq_false (by omega), Bool.and_false]

lemma poly_msb : poly.toBitVec.msb = true := by decide

lemma update_toBitVec (c : UInt32) (bytes : Bytes) :
    (update c bytes).toBitVec = (bytes.map UInt8.toBitVec).foldl (Feedback.feed poly.toBitVec) c.toBitVec := by
  induction bytes generalizing c with
  | nil => rfl
  | cons b bytes ih =>
    rw [map_cons, foldl_cons, update, foldl_cons, ← update, ih, table_eq, iterate_round_toBitVec]
    rfl

lemma update_append (c : UInt32) (l l' : Bytes) : update c (l ++ l') = update (update c l) l' := foldl_append

lemma update_injective (bytes : Bytes) {c c' : UInt32} (h : update c bytes = update c' bytes) : c = c' := by
  have hregister := congrArg UInt32.toBitVec h
  rw [update_toBitVec, update_toBitVec] at hregister
  exact UInt32.toBitVec_inj.mp (Feedback.foldl_feed_injective poly_msb _ hregister)

lemma update_burst {c : UInt32} {l l' : Bytes} (hlength : l.length = l'.length) (hfour : l.length ≤ 4)
    (h : update c l = update c l') : l = l' := by
  have hregister := congrArg UInt32.toBitVec h
  rw [update_toBitVec, update_toBitVec] at hregister
  have hmap := Feedback.foldl_feed_burst poly_msb (by simpa using hlength) (by rw [length_map]; omega) hregister
  exact map_injective_iff.mpr (fun _ _ hb => UInt8.toBitVec_inj.mp hb) hmap

end Crc

lemma crc32_eq_bitwise (bytes : Bytes) : crc32 bytes = crc32Bitwise bytes := by
  have hround : Crc.bitwiseRound = Crc.round := funext Crc.bitwiseRound_eq
  simp only [crc32, crc32Bitwise, Crc.update, Crc.table_eq, hround]

lemma crc32Pieces_eq (pieces : List Bytes) : crc32Pieces pieces = crc32 pieces.flatten := by
  have hfold : ∀ c, pieces.foldl Crc.update c = Crc.update c pieces.flatten := by
    induction pieces with
    | nil => exact fun _ => rfl
    | cons piece pieces ih =>
      intro c
      rw [foldl_cons, ih, flatten_cons, Crc.update_append]
  rw [crc32Pieces, hfold, crc32]

lemma crc32_inj {l l' : Bytes} : crc32 l = crc32 l' ↔ Crc.update (~~~0) l = Crc.update (~~~0) l' := by
  rw [crc32, crc32, UInt32.not_inj]

lemma eq_of_crc32 {l l' : Bytes} {k : ℕ} (hlength : l.length = l'.length)
    (hagree : ∀ i, i < k ∨ k + 4 ≤ i → l[i]? = l'[i]?) (h : crc32 l = crc32 l') : l = l' := by
  have hbefore : l.take k = l'.take k := by
    apply ext_getElem?
    intro i
    rw [getElem?_take, getElem?_take]
    split
    · exact hagree i (Or.inl ‹_›)
    · rfl
  have hafter : l.drop (k + 4) = l'.drop (k + 4) := by
    apply ext_getElem?
    intro i
    rw [getElem?_drop, getElem?_drop]
    exact hagree _ (Or.inr (Nat.le_add_right _ _))
  have hsplit (l : Bytes) : l = l.take k ++ (window l k 4 ++ l.drop (k + 4)) := by
    rw [window, ← drop_drop, take_append_drop, take_append_drop]
  rw [crc32_inj, hsplit l, hsplit l', hbefore, hafter, Crc.update_append, Crc.update_append, Crc.update_append,
    Crc.update_append] at h
  have hmid : window l k 4 = window l' k 4 := by
    refine Crc.update_burst ?_ ?_ (Crc.update_injective _ h)
    · simp [window, hlength]
    · simp [window]
  rw [hsplit l, hsplit l', hbefore, hmid, hafter]

lemma crc32_set {l : Bytes} {i : ℕ} {v : UInt8} (h : crc32 (l.set i v) = crc32 l) : l.set i v = l := by
  refine eq_of_crc32 (k := i) length_set (fun j hj => ?_) h
  rw [getElem?_set_ne (by omega)]

namespace Header

variable {block : Bytes} {i : ℕ} {v : UInt8}

lemma window_set_of_disjoint {p n : ℕ} (h : i < p ∨ p + n ≤ i) :
    window (block.set i v) p n = window block p n := by
  refine window_congr fun j hl hr => ?_
  rw [getElem?_set_ne (by omega)]

lemma outside_of_window {p n : ℕ} (hi : i < block.length) (hv : block[i]? ≠ some v)
    (h : window (block.set i v) p n = window block p n) : i < p ∨ p + n ≤ i := by
  by_contra hinside
  have hbyte := congrArg (·[i - p]?) h
  simp only [getElem?_window] at hbyte
  rw [if_pos (by omega), if_pos (by omega), show p + (i - p) = i by omega, getElem?_set_self hi] at hbyte
  exact hv hbyte.symm

lemma outside_of_le32 {p : ℕ} (hi : i < block.length) (hv : block[i]? ≠ some v)
    (h : le32 (block.set i v) p = le32 block p) : i < p ∨ p + 4 ≤ i := by
  refine outside_of_window hi hv (leVal_injective ?_ h)
  simp [window]

def checked (header : Bytes) : Bytes := header.take 16 ++ ([0, 0, 0, 0] ++ header.drop 20)

lemma headerCrc_eq (header : Bytes) : headerCrc header = (crc32 (checked header)).toNat := by
  rw [headerCrc, crc32Pieces_eq]
  simp [checked]

lemma getElem?_checked {header : Bytes} (hlength : 20 ≤ header.length) (j : ℕ) :
    (checked header)[j]? = if 16 ≤ j ∧ j < 20 then some 0 else header[j]? := by
  have htake : (header.take 16).length = 16 := length_take_of_le (by omega)
  have hzero : ([0, 0, 0, 0] : Bytes) = replicate 4 0 := rfl
  rw [checked, getElem?_append, htake, getElem?_append, hzero, length_replicate]
  split_ifs with hbefore hinside hinside hzeros hinside
  · omega
  · rw [getElem?_take, if_pos hbefore]
  · rw [getElem?_replicate, if_pos hinside]
  · omega
  · omega
  · rw [getElem?_drop, show 20 + (j - 16 - 4) = j by omega]

lemma decode_ne_panic : decode block ≠ panic := by
  unfold decode
  repeat refine bind_ne_panic ensure_ne_panic fun _ => ?_
  exact nofun

lemma headerCrc_set {header : Bytes} (hlength : 20 ≤ header.length) (hi : i < header.length)
    (hcrc : i < 16 ∨ 20 ≤ i) (h : headerCrc (header.set i v) = headerCrc header) : header[i]? = some v := by
  rw [headerCrc_eq, headerCrc_eq, UInt32.toNat_inj] at h
  have hsame : checked (header.set i v) = checked header := by
    refine eq_of_crc32 (k := i) (by simp [checked]) (fun j hj => ?_) h
    rw [getElem?_checked (by simpa using hlength), getElem?_checked hlength, getElem?_set_ne (by omega)]
  have hbyte := congrArg (·[i]?) hsame
  rw [getElem?_checked (by simpa using hlength), getElem?_checked hlength, if_neg (by omega), if_neg (by omega),
    getElem?_set_self hi] at hbyte
  exact hbyte.symm

lemma decode_corrupt {header : Header} (h : decode block = ok header) (hi : i < block.length)
    (hsize : i < 12 ∨ 12 + 4 ≤ i) (hv : block[i]? ≠ some v) : ∃ e, decode (block.set i v) = error e := by
  cases hdecode : decode (block.set i v) with
  | error e => exact ⟨e, rfl⟩
  | panic => exact absurd hdecode decode_ne_panic
  | ok header' =>
    exfalso
    obtain ⟨-, hsignature, hrevision, ⟨hmin, hmax⟩, hreserved, htail, hcrc, -⟩ := decode_eq_ok.mp h
    obtain ⟨-, hsignature', hrevision', -, hreserved', htail', hcrc', -⟩ := decode_eq_ok.mp hdecode
    have hsame : le32 (block.set i v) 12 = le32 block 12 := by
      rw [le32, le32, window_set_of_disjoint hsize]
    have hheader : headerSize = 92 := rfl
    rw [hsame, take_set] at hcrc'
    rw [hsame] at htail'
    have hnotSignature := outside_of_window hi hv (hsignature'.trans hsignature.symm)
    have hnotRevision := outside_of_le32 hi hv (hrevision'.trans hrevision.symm)
    have hnotReserved := outside_of_le32 hi hv (hreserved'.trans hreserved.symm)
    by_cases hinside : i < le32 block 12
    · have hlength : (block.take (le32 block 12)).length = le32 block 12 := length_take_of_le hmax
      have hown : i < 16 ∨ 16 + 4 ≤ i := by
        by_contra hown
        refine hown (outside_of_le32 hi hv ?_)
        have hdisjoint : checked ((block.take (le32 block 12)).set i v) =
          checked (block.take (le32 block 12)) := by
          apply ext_getElem?
          intro j
          rw [getElem?_checked (by rw [length_set]; omega), getElem?_checked (by omega)]
          split
          · rfl
          · rw [getElem?_set_ne (by omega)]
        rw [hcrc', hcrc, headerCrc_eq, headerCrc_eq, hdisjoint]
      have hstored : le32 (block.set i v) 16 = le32 block 16 := by
        rw [le32, le32, window_set_of_disjoint hown]
      have hbyte := headerCrc_set (v := v) (by omega) (by omega) hown (hcrc'.symm.trans (hstored.trans hcrc))
      rw [getElem?_take, if_pos hinside] at hbyte
      exact hv hbyte
    · have hzero : ∀ {l : Bytes} {b : UInt8}, (∀ b ∈ l.drop (le32 block 12), b = 0) → l[i]? = some b → b = 0 := by
        intro l b hall hb
        refine hall b (mem_iff_getElem?.mpr ⟨i - le32 block 12, ?_⟩)
        rw [getElem?_drop, show le32 block 12 + (i - le32 block 12) = i by omega, hb]
      have hnew := hzero htail' (getElem?_set_self hi)
      have hold := hzero htail (getElem?_eq_getElem hi)
      rw [getElem?_eq_getElem hi, hold, hnew] at hv
      exact hv rfl

end Header

lemma checkEntryArray_ne_panic {header : Header} {supplied : Bytes} : checkEntryArray header supplied ≠ panic := by
  unfold checkEntryArray
  repeat refine bind_ne_panic ensure_ne_panic fun _ => ?_
  exact nofun

lemma checkEntryArray_corrupt {header : Header} {array entries : Bytes} {i : ℕ} {v : UInt8}
    (h : checkEntryArray header array = ok entries) (hi : i < header.entryArrayBytes) (hv : array[i]? ≠ some v) :
    ∃ e, checkEntryArray header (array.set i v) = error e := by
  cases hchecked : checkEntryArray header (array.set i v) with
  | error e => exact ⟨e, rfl⟩
  | panic => exact absurd hchecked checkEntryArray_ne_panic
  | ok entries' =>
    exfalso
    obtain ⟨-, -, hlength, hcrc, -⟩ := checkEntryArray_eq_ok.mp h
    obtain ⟨-, -, -, hcrc', -⟩ := checkEntryArray_eq_ok.mp hchecked
    rw [take_set] at hcrc'
    have hsame := congrArg (·[i]?) (crc32_set (hcrc'.trans hcrc.symm))
    rw [getElem?_set_self (by rw [length_take]; omega), getElem?_take, if_pos hi] at hsame
    exact hv hsame.symm

/-- A change within four consecutive bytes always shows, and so does one of a single byte of an accepted table. -/
theorem checksums_catch_single_bytes :
    (∀ bytes, crc32 bytes = crc32Bitwise bytes) ∧ (∀ pieces, crc32Pieces pieces = crc32 pieces.flatten) ∧
    (∀ (l l' : Bytes) (k : ℕ), l.length = l'.length → (∀ i, i < k ∨ k + 4 ≤ i → l[i]? = l'[i]?) → l ≠ l' →
      crc32 l ≠ crc32 l') ∧
    ∀ (block array : Bytes) (gpt : Gpt), parse block array = ok gpt →
      (∀ i v, i < block.length → (i < 12 ∨ 16 ≤ i) → block[i]? ≠ some v → ∃ e,
      parse (block.set i v) array = error e) ∧ (∀ i v, i < gpt.header.entryArrayBytes → array[i]? ≠ some v → ∃ e,
      parse block (array.set i v) = error e) := by
  refine ⟨crc32_eq_bitwise, crc32Pieces_eq, fun l l' k hlength hagree hne h => hne (eq_of_crc32 hlength hagree h),
    ?_⟩
  intro block array gpt h
  obtain ⟨-, hdecode, -⟩ := parse_laid h
  obtain ⟨hmine, hrest⟩ : gpt.header.myLba.toNat = primaryHeaderLba ∧ _ :=
    ensure_bind_eq_ok.mp (by rwa [parse, hdecode] at h)
  obtain ⟨entries, hchecked, -⟩ := bind_eq_ok.mp hrest
  refine ⟨fun i v hi hsize hv => ?_, fun i v hi hv => ?_⟩
  · obtain ⟨e, he⟩ := Header.decode_corrupt hdecode hi hsize hv
    exact ⟨e, by rw [parse, he, error_bind]⟩
  · obtain ⟨e, he⟩ := checkEntryArray_corrupt hchecked hi hv
    exact ⟨e, by rw [parse, hdecode, ok_bind, ensure_bind hmine, he, error_bind]⟩

end CrickerOs.Gpt
