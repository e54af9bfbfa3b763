import CrickerOs.GrantPlan.Name

namespace CrickerOs.GrantPlan

open Library

def isAsciiWhitespace (b : UInt8) : Bool := b = 0x20 ∨ b = 0x09 ∨ b = 0x0a ∨ b = 0x0c ∨ b = 0x0d

def isAsciiDigit (b : UInt8) : Bool := 0x30 ≤ b ∧ b ≤ 0x39

def isAsciiAlphabetic (b : UInt8) : Bool := (0x41 ≤ b ∧ b ≤ 0x5a) ∨ (0x61 ≤ b ∧ b ≤ 0x7a)

def ascii (s : String) : Bytes := s.toList.map fun c => UInt8.ofNat c.toNat

def trim (s : Bytes) : Bytes := (s.dropWhile isAsciiWhitespace).rdropWhile isAsciiWhitespace

def pushDigit (v : ℕ) (b : UInt8) : Option ℕ :=
  if isAsciiDigit b ∧ v * 10 + (b.toNat - 0x30) < 2 ^ 64 then some (v * 10 + (b.toNat - 0x30)) else none

def parseU64 (s : Bytes) : Option ℕ := if s = [] then none else s.foldlM pushDigit 0

def singleQuote : UInt8 := 0x27
def doubleQuote : UInt8 := 0x22

inductive Quote
  | bare
  | single
  | double
  deriving DecidableEq

namespace Quote

def step (q : Quote) (b : UInt8) : Quote × Bool :=
  match q with
  | bare => if b = singleQuote then (single, false) else if b = doubleQuote then (double, false) else (bare, true)
  | single => if b = singleQuote then (bare, false) else (single, false)
  | double => if b = doubleQuote then (bare, false) else (double, false)

def isOpen (q : Quote) : Bool := q ≠ bare

end Quote

/-- A scan up to the first bare byte at which it is to stop, with what it went over, what is left and where it
ended. A stop may look at the byte before and at all that follows. -/
def scan (stop : Option UInt8 → Bytes → Bool) : Quote → Option UInt8 → Bytes → Bytes × Bytes × Quote
  | q, _, [] => ([], [], q)
  | q, before, b :: l =>
    if !q.isOpen && stop before (b :: l) then ([], b :: l, q)
    else
      let r := scan stop (q.step b).1 (some b) l
      (b :: r.1, r.2)

def stopAt (stop : UInt8 → Bool) : Option UInt8 → Bytes → Bool := fun _ l => l.head?.any stop

def span (line : Bytes) (stop : UInt8 → Bool) : Bytes × Bytes :=
  let r := scan (stopAt stop) .bare none line
  (r.1, r.2.1)

structure Word where
  text : Bytes
  quoted : Bool
  deriving DecidableEq

def read (token : Bytes) : Except Refusal Word :=
  match token with
  | [] => .ok ⟨[], false⟩
  | first :: inner =>
    if first ≠ singleQuote ∧ first ≠ doubleQuote then
      if singleQuote ∈ token ∨ doubleQuote ∈ token then .error .partlyQuoted else .ok ⟨token, false⟩
    else
      match inner.findIdx? (· = first) with
      | some i => if i + 2 = token.length then .ok ⟨inner.dropLast, true⟩ else .error .partlyQuoted
      | none => .error .unclosedQuote

def nextToken (q : Quote) (l : Bytes) : Bytes × Bytes × Quote :=
  scan (stopAt isAsciiWhitespace) q none (if q.isOpen then l else l.dropWhile isAsciiWhitespace)

def tokenizeFrom : ℕ → Quote → Bytes → List Bytes
  | 0, _, _ => []
  | n + 1, q, l =>
    if (nextToken q l).1 = [] then []
    else (nextToken q l).1 :: tokenizeFrom n (nextToken q l).2.2 (nextToken q l).2.1

def tokenize (line : Bytes) (room : ℕ) : List Bytes := tokenizeFrom room .bare line

def tokens (line : Bytes) : List Bytes := tokenize line line.length

section

variable {stop : Option UInt8 → Bytes → Bool} {q : Quote} {before : Option UInt8} {l : Bytes}

lemma scan_append : (scan stop q before l).1 ++ (scan stop q before l).2.1 = l := by
  induction l generalizing q before with
  | nil => rfl
  | cons b l ih =>
    rw [scan]
    split_ifs
    · rfl
    · exact congrArg (b :: ·) ih

lemma length_scan : (scan stop q before l).1.length + (scan stop q before l).2.1.length = l.length := by
  rw [← List.length_append, scan_append]

end

section

variable {q : Quote} {l : Bytes} {n m : ℕ}

lemma length_nextToken : (nextToken q l).1.length + (nextToken q l).2.1.length ≤ l.length := by
  rw [nextToken, length_scan]
  split_ifs
  · exact le_rfl
  · exact (List.dropWhile_suffix _).length_le

lemma tokenizeFrom_take (h : n ≤ m) : tokenizeFrom n q l = (tokenizeFrom m q l).take n := by
  induction n generalizing m q l with
  | zero => rfl
  | succ n ih =>
    obtain ⟨m, rfl⟩ := Nat.exists_eq_succ_of_ne_zero (by omega : m ≠ 0)
    rw [tokenizeFrom, tokenizeFrom]
    split_ifs
    · rfl
    · rw [List.take_succ_cons, ih (Nat.le_of_succ_le_succ h)]

lemma length_tokenizeFrom : (tokenizeFrom n q l).length ≤ l.length := by
  induction n generalizing q l with
  | zero => exact Nat.zero_le _
  | succ n ih =>
    rw [tokenizeFrom]
    split_ifs with hnil
    · exact Nat.zero_le _
    · rw [List.length_cons]
      refine (Nat.succ_le_succ ih).trans ?_
      have hpos := List.length_pos_iff.mpr hnil
      have hle : _ ≤ l.length := length_nextToken (q := q)
      omega

lemma tokenize_eq_take {line : Bytes} : tokenize line n = (tokens line).take n := by
  have hall (m : ℕ) : (tokenizeFrom m .bare line).length ≤ line.length := length_tokenizeFrom
  rcases le_total n line.length with h | h
  · exact tokenizeFrom_take h
  · rw [tokens, tokenize, tokenize, tokenizeFrom_take h, List.take_of_length_le (hall n),
      List.take_of_length_le ((hall n).trans h)]

end

end CrickerOs.GrantPlan
