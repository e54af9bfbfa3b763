import Mathlib

namespace CrickerOs.Frames

open Function List Nat

def frameSize : ℕ :=
  4096

def saturatingAdd (a b : ℕ) : ℕ :=
  min (a + b) (2 ^ 64 - 1)

structure Frame where
  addr : ℕ
  aligned : addr % frameSize = 0
  deriving DecidableEq, Repr

namespace Frame

def advance (f : Frame) (j : ℕ) : Frame :=
  ⟨f.addr + j * frameSize, by rw [Nat.add_mul_mod_self_right, f.aligned]⟩

def Overlaps (f : Frame) (start size : ℕ) : Prop :=
  0 < size ∧ start < f.addr + frameSize ∧ f.addr < start + size

instance (f : Frame) (start size : ℕ) : Decidable (f.Overlaps start size) :=
  inferInstanceAs (Decidable (_ ∧ _))

end Frame

structure FrameAllocator where
  bitmap : List (BitVec 8)
  base : ℕ
  total : ℕ
  used : ℕ
  hint : ℕ
  aligned : base % frameSize = 0
  sized : total ≤ 8 * bitmap.length
  deriving DecidableEq, Repr

namespace FrameAllocator

def bitmapBytes (frames : ℕ) : ℕ :=
  (frames + 7) / 8

def new (base total : ℕ) (bitmap : List (BitVec 8)) : Option FrameAllocator :=
  if h : base % frameSize = 0 ∧ bitmapBytes total ≤ bitmap.length then
    some
      { bitmap := bitmap.map fun _ => 0xff, base, total, used := total, hint := 0
        aligned := h.1
        sized := by
          have := h.2
          simp only [bitmapBytes] at this
          rw [List.length_map]
          omega }
  else none

def mask (i : ℕ) : BitVec 8 :=
  1#8 <<< (i % 8)

section

variable (a : FrameAllocator)

def get (i : ℕ) : Bool :=
  a.bitmap.getD (i / 8) 0 &&& mask i != 0

def set (i : ℕ) (used : Bool) : FrameAllocator :=
  let byte := a.bitmap.getD (i / 8) 0
  { a with
    bitmap := a.bitmap.set (i / 8) (if used then byte ||| mask i else byte &&& ~~~mask i)
    sized := by
      rw [List.length_set]
      exact a.sized }

def frameAt (i : ℕ) : Frame :=
  Frame.advance ⟨a.base, a.aligned⟩ i

def indexOf (frame : Frame) : Option ℕ :=
  if frame.addr < a.base then none
  else if (frame.addr - a.base) / frameSize < a.total then some ((frame.addr - a.base) / frameSize)
  else none

def frameRange (start size : ℕ) : List ℕ :=
  if size = 0 ∨ saturatingAdd start size ≤ a.base then []
  else
    let first := max start a.base - a.base
    let last := saturatingAdd start size - a.base
    let lo := first / frameSize
    let hi := min ((last + frameSize - 1) / frameSize) a.total
    if hi ≤ lo then [] else List.range' lo (hi - lo)

end

def mark (used : Bool) (a : FrameAllocator) (i : ℕ) : FrameAllocator :=
  if a.get i = used then a
  else { a.set i used with used := if used then a.used + 1 else a.used - 1 }

def markFree (a : FrameAllocator) (start size : ℕ) : FrameAllocator :=
  { (a.frameRange start size).foldl (mark false) a with hint := 0 }

def markUsed (a : FrameAllocator) (start size : ℕ) : FrameAllocator :=
  (a.frameRange start size).foldl (mark true) a

def alloc (a : FrameAllocator) : Option (Frame × FrameAllocator) :=
  match (List.range' a.hint (a.total - a.hint) ++ List.range a.hint).find? fun i => !a.get i with
  | none => none
  | some i => some (a.frameAt i, { a.set i true with used := a.used + 1, hint := i + 1 })

def findRun (a : FrameAllocator) (count : ℕ) : List ℕ → ℕ → ℕ → Option ℕ
  | [], _, _ => none
  | i :: is, runStart, run =>
    if a.get i then a.findRun count is (i + 1) 0
    else if run + 1 = count then some runStart
    else a.findRun count is runStart (run + 1)

def allocContiguous (a : FrameAllocator) (count : ℕ) : Option (Frame × FrameAllocator) :=
  if count = 0 ∨ a.total < count then none
  else
    match a.findRun count (List.range a.total) 0 0 with
    | none => none
    | some runStart =>
      some (a.frameAt runStart,
        { (List.range' runStart count).foldl (fun a j => a.set j true) a with used := a.used + count })

def longestRun (a : FrameAllocator) : List ℕ → ℕ → ℕ → ℕ
  | [], _, best => best
  | i :: is, run, best =>
    if a.get i then a.longestRun is 0 best
    else a.longestRun is (run + 1) (if best < run + 1 then run + 1 else best)

def largestFreeRun (a : FrameAllocator) : ℕ :=
  a.longestRun (List.range a.total) 0 0

def free (a : FrameAllocator) (frame : Frame) : Option FrameAllocator :=
  match a.indexOf frame with
  | none => none
  | some i =>
    if a.get i then some { a.set i false with used := a.used - 1, hint := min a.hint i }
    else none

lemma and_mask_ne_zero (b : BitVec 8) (i : ℕ) : (b &&& mask i != 0) = b.getLsbD (i % 8) := by
  have hlt : i % 8 < 8 := mod_lt _ (by decide)
  rw [mask, ← BitVec.twoPow_eq, BitVec.and_twoPow]
  split
  · rename_i h
    rw [h, bne_iff_ne, ne_eq]
    intro hz
    have := congrArg (BitVec.getLsbD · (i % 8)) hz
    simp [hlt] at this
  · rename_i h
    simp [h]

lemma get_eq (a : FrameAllocator) (i : ℕ) : a.get i = (a.bitmap.getD (i / 8) 0).getLsbD (i % 8) :=
  and_mask_ne_zero _ i

variable {a : FrameAllocator} {i : ℕ}

lemma get_set (hi : i < a.total) (used : Bool) : (a.set i used).get = update a.get i used := by
  funext j
  have hbyte : i / 8 < a.bitmap.length := by
    have := a.sized
    omega
  have hbit : i % 8 < 8 := mod_lt _ (by decide)
  have hbit' : j % 8 < 8 := mod_lt _ (by decide)
  rw [update_apply, get_eq, get_eq, set]
  simp only [getD_eq_getElem?_getD, getElem?_set]
  by_cases hsame : i / 8 = j / 8
  · rw [if_pos hsame, if_pos hbyte, Option.getD_some]
    have hji : j = i ↔ i % 8 = j % 8 := by omega
    cases used <;>
      simp [mask, ← BitVec.twoPow_eq, hbit', hsame, hji] <;> grind
  · rw [if_neg hsame, if_neg (by omega)]

@[simp] lemma total_set (a : FrameAllocator) (i : ℕ) (used : Bool) : (a.set i used).total = a.total :=
  rfl

def usedBits (a : FrameAllocator) : ℕ :=
  ((Finset.range a.total).filter fun i => a.get i).card

variable {start size count m runStart run k n : ℕ}

lemma card_filter_update (n : ℕ) (f : ℕ → Bool) {i : ℕ} (hi : i < n) (b : Bool) :
    ((Finset.range n).filter fun j => update f i b j).card + (if f i then 1 else 0) =
      ((Finset.range n).filter fun j => f j).card + if b then 1 else 0 := by
  have hsplit (g : ℕ → Bool) : ((Finset.range n).filter fun j => g j).card =
      (((Finset.range n).erase i).filter fun j => g j).card + if g i then 1 else 0 := by
    rw [← Finset.insert_erase (Finset.mem_range.mpr hi), Finset.filter_insert, Finset.erase_insert_eq_erase]
    split <;> simp
  have hsame : (((Finset.range n).erase i).filter fun j => update f i b j) =
      ((Finset.range n).erase i).filter fun j => f j := by
    refine Finset.filter_congr fun j hj => ?_
    rw [update_of_ne (Finset.ne_of_mem_erase hj)]
  rw [hsplit (update f i b), hsplit f, hsame, update_self]
  omega

lemma usedBits_set (hi : i < a.total) (b : Bool) :
    (a.set i b).usedBits + (if a.get i then 1 else 0) = a.usedBits + if b then 1 else 0 := by
  simp only [usedBits, get_set hi, total_set]
  exact card_filter_update a.total a.get hi b

structure Counted (a : FrameAllocator) : Prop where
  used : a.used = a.usedBits
  hint : a.hint ≤ a.total

structure Marks (a a' : FrameAllocator) (f : ℕ → Bool) : Prop where
  base : a'.base = a.base
  total : a'.total = a.total
  get : a'.get = f
  counted : a.Counted → a'.Counted

lemma mark_marks (hi : i < a.total) (b : Bool) : a.Marks (a.mark b i) (update a.get i b) := by
  unfold mark
  split
  · rename_i h
    exact ⟨rfl, rfl, (update_eq_self_iff.mpr h.symm).symm, id⟩
  · rename_i h
    refine ⟨rfl, rfl, get_set hi b, fun hc => ⟨?_, hc.hint⟩⟩
    have hbits := usedBits_set hi b
    have hused := hc.used
    change (if b then a.used + 1 else a.used - 1) = (a.set i b).usedBits
    cases b with
    | false => simp_all; omega
    | true => simp_all

lemma foldl_mark (b : Bool) (is : List ℕ) (a : FrameAllocator) (his : ∀ i ∈ is, i < a.total) :
    a.Marks (is.foldl (mark b) a) fun i => if i ∈ is then b else a.get i := by
  induction is generalizing a with
  | nil => exact ⟨rfl, rfl, by simp, id⟩
  | cons i is ih =>
    have hone := mark_marks (his i mem_cons_self) b
    have hrest := ih (a.mark b i) fun j hj => by
      rw [hone.total]
      exact his j (mem_cons_of_mem _ hj)
    refine ⟨hrest.base.trans hone.base, hrest.total.trans hone.total, ?_, hrest.counted ∘ hone.counted⟩
    rw [foldl_cons, hrest.get, hone.get]
    funext j
    simp only [update_apply, mem_cons]
    grind

lemma mem_frameRange_iff (hspan : a.base + a.total * frameSize ≤ 2 ^ 64) (hstart : start < 2 ^ 64) :
    i ∈ a.frameRange start size ↔ i < a.total ∧ (a.frameAt i).Overlaps start size := by
  have haligned := a.aligned
  unfold frameRange
  split_ifs with hempty
  · simp only [not_mem_nil, false_iff, Frame.Overlaps, frameAt, Frame.advance, saturatingAdd, frameSize] at *
    omega
  · dsimp only
    split_ifs with hcross
    · simp only [not_mem_nil, false_iff, Frame.Overlaps, frameAt, Frame.advance, saturatingAdd, frameSize] at *
      omega
    · simp only [mem_range'_1, Frame.Overlaps, frameAt, Frame.advance, saturatingAdd, frameSize] at *
      omega

lemma frameRange_lt (hi : i ∈ a.frameRange start size) : i < a.total := by
  unfold frameRange at hi
  split_ifs at hi with hempty
  · simp at hi
  · dsimp only at hi
    split_ifs at hi with hcross
    · simp at hi
    · rw [mem_range'_1] at hi
      omega

lemma markUsed_marks (a : FrameAllocator) (start size : ℕ) :
    a.Marks (a.markUsed start size) fun i => if i ∈ a.frameRange start size then true else a.get i :=
  foldl_mark true _ a fun _ => frameRange_lt

lemma markFree_marks (a : FrameAllocator) (start size : ℕ) :
    a.Marks (a.markFree start size) fun i => if i ∈ a.frameRange start size then false else a.get i := by
  have h := foldl_mark false (a.frameRange start size) a fun _ => frameRange_lt
  exact ⟨h.base, h.total, h.get, fun hc => ⟨(h.counted hc).used, zero_le _⟩⟩

lemma alloc_eq_none_iff (hhint : a.hint ≤ a.total) : a.alloc = none ↔ ∀ i < a.total, a.get i := by
  unfold alloc
  split
  · rename_i hfind
    refine iff_of_true rfl fun i hi => ?_
    have hmem : i ∈ range' a.hint (a.total - a.hint) ++ range a.hint := by
      rw [mem_append, mem_range'_1, mem_range]
      omega
    simpa using find?_eq_none.mp hfind i hmem
  · rename_i i hfind
    refine iff_of_false (by simp) fun hall => ?_
    have hmem := mem_of_find?_eq_some hfind
    rw [mem_append, mem_range'_1, mem_range] at hmem
    have hfree := find?_some hfind
    simp [hall i (by omega)] at hfree

variable {frame : Frame}

variable {a' : FrameAllocator}

lemma alloc_eq_some (hhint : a.hint ≤ a.total) (h : a.alloc = some (frame, a')) :
    ∃ i < a.total, frame = a.frameAt i ∧ a.get i = false ∧ a.Marks a' (update a.get i true) := by
  unfold alloc at h
  split at h
  · simp at h
  · rename_i i hfind
    cases h
    have hmem := mem_of_find?_eq_some hfind
    rw [mem_append, mem_range'_1, mem_range] at hmem
    have hlt : i < a.total := by omega
    have hfree : a.get i = false := by simpa using find?_some hfind
    refine ⟨i, hlt, rfl, hfree, rfl, rfl, get_set hlt true, fun hc => ⟨?_, hlt⟩⟩
    have hbits := usedBits_set hlt true
    simp only [hfree, Bool.false_eq_true, if_false, if_true, add_zero] at hbits
    change a.used + 1 = (a.set i true).usedBits
    rw [hbits, hc.used]

def FreeRun (a : FrameAllocator) (k n : ℕ) : Prop :=
  k + n ≤ a.total ∧ ∀ j < n, a.get (k + j) = false

lemma findRun_sound (hrun : runStart + run = i)
    (hfree : ∀ j, runStart ≤ j → j < i → a.get j = false)
    (h : a.findRun count (range' i m) runStart run = some k) :
    k + count ≤ i + m ∧ ∀ j < count, a.get (k + j) = false := by
  induction m generalizing i runStart run with
  | zero => simp [findRun] at h
  | succ m ih =>
    rw [range'_succ, findRun] at h
    split_ifs at h with hused hfull
    · obtain ⟨hle, hall⟩ := ih (add_zero (i + 1)) (fun j hj hj' => by omega) h
      exact ⟨by omega, hall⟩
    · obtain rfl := Option.some.inj h
      refine ⟨by omega, fun j hj => ?_⟩
      rcases eq_or_ne (runStart + j) i with heq | hne
      · simpa [heq] using hused
      · exact hfree _ (by omega) (by omega)
    · have hfree' (j : ℕ) (hj : runStart ≤ j) (hj' : j < i + 1) : a.get j = false := by
        rcases eq_or_ne j i with rfl | hne
        · simpa using hused
        · exact hfree j hj (by omega)
      obtain ⟨hle, hall⟩ := ih (by omega) hfree' h
      exact ⟨by omega, hall⟩

lemma findRun_complete (hrun : runStart + run = i) (hlt : run < count)
    (h : a.findRun count (range' i m) runStart run = none) (hk : runStart ≤ k) (hend : k + count ≤ i + m) :
    ∃ j < count, a.get (k + j) := by
  induction m generalizing i runStart run with
  | zero => omega
  | succ m ih =>
    rw [range'_succ, findRun] at h
    split_ifs at h with hused hfull
    · rcases lt_or_ge i k with hlater | hnow
      · exact ih (add_zero (i + 1)) (by omega) h hlater (by omega)
      · exact ⟨i - k, by omega, by rwa [Nat.add_sub_cancel' hnow]⟩
    · exact ih (by omega) (by omega) h hk (by omega)

lemma longestRun_ge (a : FrameAllocator) (i m run best : ℕ) : best ≤ a.longestRun (range' i m) run best := by
  induction m generalizing i run best with
  | zero => exact le_rfl
  | succ m ih =>
    rw [range'_succ, longestRun]
    split_ifs with hused hbest
    · exact ih ..
    · exact hbest.le.trans (ih ..)
    · exact ih ..

lemma longestRun_complete {best : ℕ} (hrun : run ≤ i) (hbest : run ≤ best) (hk : i ≤ k + run)
    (hend : k + n ≤ i + m) (hfree : ∀ j < n, a.get (k + j) = false) :
    n ≤ a.longestRun (range' i m) run best := by
  induction m generalizing i run best with
  | zero =>
    rw [range'_zero, longestRun]
    omega
  | succ m ih =>
    rw [range'_succ, longestRun]
    split_ifs with hused hlt
    · rcases lt_or_ge i k with hlater | hnow
      · exact ih (zero_le _) (zero_le _) (by omega) (by omega)
      · have hshort : n ≤ i - k := by
          by_contra hlong
          have := hfree (i - k) (by omega)
          rw [Nat.add_sub_cancel' hnow, hused] at this
          simp at this
        have := a.longestRun_ge (i + 1) m 0 best
        omega
    · exact ih (by omega) le_rfl (by omega) (by omega)
    · exact ih (by omega) (by omega) (by omega) (by omega)

lemma longestRun_sound (m run best : ℕ) (hrun : run ≤ i) (hfree : ∀ j < run, a.get (i - run + j) = false)
    (hbest : ∃ k, k + best ≤ i ∧ ∀ j < best, a.get (k + j) = false) :
    ∃ k, k + a.longestRun (range' i m) run best ≤ i + m ∧
      ∀ j < a.longestRun (range' i m) run best, a.get (k + j) = false := by
  induction m generalizing i run best with
  | zero => exact hbest
  | succ m ih =>
    obtain ⟨k, hk, hkfree⟩ := hbest
    rw [range'_succ, longestRun, show i + (m + 1) = i + 1 + m by omega]
    split_ifs with hused hlt
    · exact ih _ _ (zero_le _) (by simp) ⟨k, by omega, hkfree⟩
    all_goals
      have hfree' (j : ℕ) (hj : j < run + 1) : a.get (i + 1 - (run + 1) + j) = false := by
        rcases eq_or_ne j run with rfl | hne
        · rw [show i + 1 - (j + 1) + j = i by omega]
          simpa using hused
        · rw [Nat.add_sub_add_right]
          exact hfree j (by omega)
    · exact ih _ _ (by omega) hfree' ⟨i - run, by omega, fun j hj => by simpa using hfree' j hj⟩
    · exact ih _ _ (by omega) hfree' ⟨k, by omega, hkfree⟩

lemma le_largestFreeRun_iff : n ≤ a.largestFreeRun ↔ ∃ k, a.FreeRun k n := by
  rw [largestFreeRun, range_eq_range']
  constructor
  · intro hle
    obtain ⟨k, hk, hfree⟩ := longestRun_sound (a := a) (i := 0) a.total 0 0 le_rfl (by simp) ⟨0, le_rfl, by simp⟩
    exact ⟨k, by omega, fun j hj => hfree j (by omega)⟩
  · rintro ⟨k, hk, hfree⟩
    exact longestRun_complete le_rfl le_rfl (zero_le _) (by omega) hfree

lemma allocContiguous_isSome_iff : (a.allocContiguous n).isSome ↔ 0 < n ∧ n ≤ a.largestFreeRun := by
  unfold allocContiguous
  split_ifs with hbad
  · simp only [Option.isSome_none, Bool.false_eq_true, false_iff, not_and]
    intro hn hle
    obtain ⟨k, hk, -⟩ := le_largestFreeRun_iff.mp hle
    omega
  · have hn : 0 < n := by omega
    rw [range_eq_range']
    split
    · rename_i hnone
      simp only [Option.isSome_none, Bool.false_eq_true, false_iff, not_and]
      intro _ hle
      obtain ⟨k, hk, hfree⟩ := le_largestFreeRun_iff.mp hle
      obtain ⟨j, hj, hused⟩ := findRun_complete (zero_add 0) hn hnone (zero_le k) (by omega)
      simp [hfree j hj] at hused
    · rename_i k hsome
      obtain ⟨hk, hfree⟩ := findRun_sound (zero_add 0) (by simp) hsome
      simp only [Option.isSome_some, true_iff]
      exact ⟨hn, le_largestFreeRun_iff.mpr ⟨k, by omega, hfree⟩⟩

lemma foldl_set (k n : ℕ) (a : FrameAllocator) (hlt : k + n ≤ a.total) (hfree : ∀ j < n, a.get (k + j) = false) :
    let a' := (range' k n).foldl (fun a j => a.set j true) a
    a'.base = a.base ∧ a'.total = a.total ∧ a'.hint = a.hint ∧ a'.usedBits = a.usedBits + n ∧
      a'.get = fun i => if k ≤ i ∧ i < k + n then true else a.get i := by
  induction n generalizing k a with
  | zero =>
    refine ⟨rfl, rfl, rfl, rfl, ?_⟩
    funext i
    rw [if_neg (by omega)]
    rfl
  | succ n ih =>
    have hk : k < a.total := by omega
    have hbit : a.get k = false := by simpa using hfree 0 (by omega)
    have hfree' (j : ℕ) (hj : j < n) : (a.set k true).get (k + 1 + j) = false := by
      rw [get_set hk, update_of_ne (by omega), show k + 1 + j = k + (j + 1) by omega]
      exact hfree (j + 1) (by omega)
    obtain ⟨hbase, htotal, hhint, hbits, hget⟩ := ih (k + 1) (a.set k true) (by simp only [total_set]; omega)
      hfree'
    rw [range'_succ, foldl_cons]
    refine ⟨hbase, htotal, hhint, ?_, ?_⟩
    · have := usedBits_set hk true
      simp only [hbit, Bool.false_eq_true, if_false, if_true, add_zero] at this
      rw [hbits, this]
      omega
    · rw [hget, get_set hk]
      funext i
      simp only [update_apply]
      grind

lemma allocContiguous_eq_some
    (h : a.allocContiguous n = some (frame, a')) :
    ∃ k, frame = a.frameAt k ∧ a.FreeRun k n ∧
      a.Marks a' fun i => if k ≤ i ∧ i < k + n then true else a.get i := by
  unfold allocContiguous at h
  split_ifs at h with hbad
  rw [range_eq_range'] at h
  split at h
  · simp at h
  · rename_i k hfind
    cases h
    obtain ⟨hk, hfree⟩ := findRun_sound (zero_add 0) (by simp) hfind
    rw [zero_add] at hk
    obtain ⟨hbase, htotal, hhint, hbits, hget⟩ := foldl_set k n a hk hfree
    refine ⟨k, rfl, ⟨hk, hfree⟩, hbase, htotal, hget, fun hc => ⟨?_, ?_⟩⟩
    · rw [hc.used]
      exact hbits.symm
    · exact hhint.le.trans (hc.hint.trans htotal.ge)

lemma indexOf_eq_some (h : a.indexOf frame = some i) : i < a.total ∧ frame = a.frameAt i := by
  unfold indexOf at h
  split_ifs at h with hlow hlt
  cases h
  refine ⟨hlt, ?_⟩
  have haligned := frame.aligned
  have hbase := a.aligned
  simp only [frameAt, Frame.advance, frameSize] at *
  cases frame
  simp only [Frame.mk.injEq] at *
  omega

lemma free_eq_some (h : a.free frame = some a') :
    ∃ i < a.total, frame = a.frameAt i ∧ a.get i ∧ a.Marks a' (update a.get i false) := by
  unfold free at h
  split at h
  · simp at h
  · rename_i i hindex
    split_ifs at h with hused
    obtain ⟨hlt, hframe⟩ := indexOf_eq_some hindex
    cases h
    refine ⟨i, hlt, hframe, hused, rfl, rfl, get_set hlt false, fun hc => ⟨?_, ?_⟩⟩
    · have := usedBits_set hlt false
      simp only [hused, Bool.false_eq_true, if_false, if_true, add_zero] at this
      change a.used - 1 = (a.set i false).usedBits
      rw [hc.used]
      omega
    · exact (min_le_left a.hint i).trans hc.hint

end FrameAllocator

end CrickerOs.Frames
