import Mathlib

namespace CrickerOs.Glob

inductive Dot
  | special
  | ordinary
  deriving DecidableEq

def slash : UInt8 := '\\'.toUInt8
def close : UInt8 := ']'.toUInt8
def hyphen : UInt8 := '-'.toUInt8

inductive Elem
  | star
  | any (next : ℕ)
  | byte (byte : UInt8) (next : ℕ)
  | bracket (hit : Bool) (next : ℕ)
  deriving DecidableEq

def member (pattern : List UInt8) (byte : UInt8) (k : ℕ) : UInt8 × ℕ :=
  if byte = slash then
    match pattern[k + 1]? with
    | some escaped => (escaped, k + 2)
    | none => (byte, k + 1)
  else (byte, k + 1)

lemma lt_member (pattern : List UInt8) (byte : UInt8) (k : ℕ) : k < (member pattern byte k).2 := by
  unfold member
  split
  · split <;> simp
  · simp

def classLoop (pattern : List UInt8) (c : UInt8) (negated : Bool) (k : ℕ) (hit atStart : Bool) (scanned : ℕ) :
    Option (Bool × ℕ) × ℕ :=
  if hk : k < pattern.length then
    let byte := pattern[k]
    let scanned := scanned + 1
    if byte = close ∧ !atStart then (some (hit ^^ negated, k + 1), scanned)
    else
      let lo := member pattern byte k
      let scanned := scanned + (lo.2 - (k + 1))
      match pattern[lo.2]?, pattern[lo.2 + 1]? with
      | some dash, some first =>
        if dash = hyphen ∧ first ≠ close then
          let hi := member pattern first (lo.2 + 1)
          classLoop pattern c negated hi.2 (hit || (lo.1 ≤ c && c ≤ hi.1)) false (scanned + (hi.2 - lo.2))
        else classLoop pattern c negated lo.2 (hit || lo.1 == c) false scanned
      | _, _ => classLoop pattern c negated lo.2 (hit || lo.1 == c) false scanned
  else (none, scanned)
termination_by pattern.length - k
decreasing_by
  all_goals
    have hlo := lt_member pattern pattern[k] k
    first
      | omega
      | have hhi := lt_member pattern first ((member pattern pattern[k] k).2 + 1)
        omega

def classAt (pattern : List UInt8) (j : ℕ) (c : UInt8) : Option (Bool × ℕ) × ℕ :=
  if pattern[j + 1]? = some '!'.toUInt8 ∨ pattern[j + 1]? = some '^'.toUInt8 then
    classLoop pattern c true (j + 2) false true 2
  else classLoop pattern c false (j + 1) false true 1

def decode (pattern : List UInt8) (j : ℕ) (c : UInt8) : Option (Elem × ℕ) :=
  match pattern[j]? with
  | none => none
  | some byte =>
    some <|
      if byte = '*'.toUInt8 then (.star, 1)
      else if byte = '?'.toUInt8 then (.any (j + 1), 1)
      else if byte = slash then
        match pattern[j + 1]? with
        | some escaped => (.byte escaped (j + 2), 2)
        | none => (.byte slash (j + 1), 1)
      else if byte = '['.toUInt8 then
        match classAt pattern j c with
        | (some (hit, next), scanned) => (.bracket hit next, scanned)
        | (none, scanned) => (.byte '['.toUInt8 (j + 1), scanned)
      else (.byte byte (j + 1), 1)

lemma lt_of_decode {pattern : List UInt8} {j : ℕ} {c : UInt8} {e : Elem × ℕ} (h : decode pattern j c = some e) :
    j < pattern.length := by
  unfold decode at h
  split at h
  · exact nomatch h
  · rename_i hbyte
    exact (List.getElem?_eq_some_iff.mp hbyte).1

def opensWithALiteralDot (pattern : List UInt8) : Bool :=
  match decode pattern 0 0 with
  | some (.byte byte _, _) => byte = '.'.toUInt8
  | _ => false

/-- The state of the matching loop: the next byte of the name and the next element of the pattern, and the one
backtrack point, after the last star. What that star absorbs ends at `starAbsorbed`. -/
structure Cursor where
  i : ℕ
  j : ℕ
  starNext : Option ℕ
  starAbsorbed : ℕ
  absorbed_le : starAbsorbed ≤ i

namespace Cursor

def start : Cursor := ⟨0, 0, none, 0, le_rfl⟩

def afterStar (i resume : ℕ) : Cursor := ⟨i, resume, some resume, i, le_rfl⟩

def advance (cur : Cursor) (c : UInt8) : Elem → Option Cursor
  | .star => some (afterStar cur.i (cur.j + 1))
  | .any next => some { cur with i := cur.i + 1, j := next, absorbed_le := cur.absorbed_le.step }
  | .byte byte next =>
    if byte = c then some { cur with i := cur.i + 1, j := next, absorbed_le := cur.absorbed_le.step } else none
  | .bracket hit next =>
    if hit then some { cur with i := cur.i + 1, j := next, absorbed_le := cur.absorbed_le.step } else none

def retry (cur : Cursor) : Option Cursor :=
  cur.starNext.map (afterStar (cur.starAbsorbed + 1))

lemma advance_eq_some {cur cur' : Cursor} {c : UInt8} {elem : Elem} (h : cur.advance c elem = some cur') :
    (cur'.i = cur.i + 1 ∧ cur'.starAbsorbed = cur.starAbsorbed) ∨
      (cur'.i = cur.i ∧ cur'.j = cur.j + 1 ∧ cur'.starAbsorbed = cur.i) := by
  cases elem <;> simp only [advance, Option.ite_none_right_eq_some, Option.some.injEq] at h
  case star => subst h; exact .inr ⟨rfl, rfl, rfl⟩
  case any => subst h; exact .inl ⟨rfl, rfl⟩
  case byte => obtain ⟨-, rfl⟩ := h; exact .inl ⟨rfl, rfl⟩
  case bracket => obtain ⟨-, rfl⟩ := h; exact .inl ⟨rfl, rfl⟩

lemma retry_eq_some {cur cur' : Cursor} (h : cur.retry = some cur') :
    cur'.starAbsorbed = cur.starAbsorbed + 1 := by
  obtain ⟨resume, -, rfl⟩ := Option.map_eq_some_iff.mp h
  rfl

end Cursor

def skipStars (pattern : List UInt8) (j steps : ℕ) : ℕ × ℕ :=
  if h : j < pattern.length then
    if pattern[j] = '*'.toUInt8 then skipStars pattern (j + 1) (steps + 1) else (j, steps)
  else (j, steps)

def matchLoop (pattern name : List UInt8) (cur : Cursor) (steps : ℕ) : Bool × ℕ :=
  if hi : cur.i < name.length then
    let element := decode pattern cur.j name[cur.i]
    let steps := steps + (element.map Prod.snd).getD 0
    match hadvance : element.bind fun e => cur.advance name[cur.i] e.1 with
    | some cur' => matchLoop pattern name cur' steps
    | none =>
      match hretry : cur.retry with
      | some cur' => matchLoop pattern name cur' (steps + 1)
      | none => (false, steps)
  else
    let (j, steps) := skipStars pattern cur.j steps
    (j = pattern.length, steps)
termination_by (name.length - cur.starAbsorbed, name.length - cur.i, pattern.length - cur.j)
decreasing_by
  · obtain ⟨⟨elem, scanned⟩, hdecode, hadvance⟩ := Option.bind_eq_some_iff.mp hadvance
    have hj := lt_of_decode hdecode
    have hle := cur.absorbed_le
    simp only [Prod.lex_def]
    rcases Cursor.advance_eq_some hadvance with ⟨hi', habsorbed⟩ | ⟨hi', hj', habsorbed⟩ <;> omega
  · have hle := cur.absorbed_le
    have habsorbed := Cursor.retry_eq_some hretry
    simp only [Prod.lex_def]
    omega

def matchSteps (pattern name : List UInt8) (dot : Dot) : Bool × ℕ :=
  if dot = .special ∧ name.head? = some '.'.toUInt8 ∧ !opensWithALiteralDot pattern then (false, 0)
  else matchLoop pattern name .start 0

def «matches» (pattern name : List UInt8) : Bool :=
  (matchSteps pattern name .special).1

def matchesWith (pattern name : List UInt8) (dot : Dot) : Bool :=
  (matchSteps pattern name dot).1

end CrickerOs.Glob
