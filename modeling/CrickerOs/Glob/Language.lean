import CrickerOs.Glob.Matcher

namespace CrickerOs.Glob

open List Option

inductive Piece
  | star
  | any
  | byte (b : UInt8)
  | bracket (negated : Bool) (ranges : List (UInt8 × UInt8))

namespace Piece

def Matches : Piece → List UInt8 → Prop
  | star, _ => True
  | any, part => ∃ c, part = [c]
  | byte b, part => part = [b]
  | bracket negated ranges, part => ∃ c, part = [c] ∧ ((∃ r ∈ ranges, r.1 ≤ c ∧ c ≤ r.2) ↔ negated = false)

end Piece

def named : List UInt8 → Option (UInt8 × List UInt8)
  | [] => none
  | b :: rest =>
    if b = slash then
      match rest with
      | escaped :: rest => some (escaped, rest)
      | [] => some (b, [])
    else some (b, rest)

variable {l rest : List UInt8}

lemma length_named {b : UInt8} (h : named l = some (b, rest)) : rest.length < l.length := by
  unfold named at h
  split at h
  · exact nomatch h
  · split at h
    · split at h <;> simp only [some.injEq, Prod.mk.injEq] at h <;> simp [← h.2]
    · simp only [some.injEq, Prod.mk.injEq] at h
      simp [← h.2]

/-- The members of a bracket expression up to its end, with what follows it. A `]` in first place is a member, and
a `-` makes a range if a byte follows it that does not end the expression. -/
def members (first : Bool) (l : List UInt8) : Option (List (UInt8 × UInt8) × List UInt8) :=
  if !first ∧ l.head? = some close then some ([], l.tail)
  else
    match _hlo : named l with
    | none => none
    | some (lo, rest) =>
      if rest.head? = some hyphen ∧ ∃ b ∈ rest.tail.head?, b ≠ close then
        match _hhi : named rest.tail with
        | none => none
        | some (hi, rest') => (members false rest').map fun m => ((lo, hi) :: m.1, m.2)
      else (members false rest).map fun m => ((lo, lo) :: m.1, m.2)
termination_by l.length
decreasing_by
  · have h := length_named _hlo
    have h' := length_named _hhi
    simp only [List.length_tail] at h'
    omega
  · exact length_named _hlo

def bracket (l : List UInt8) : Option (Piece × List UInt8) :=
  if l.head? = some '!'.toUInt8 ∨ l.head? = some '^'.toUInt8 then
    (members true l.tail).map fun m => (.bracket true m.1, m.2)
  else (members true l).map fun m => (.bracket false m.1, m.2)

def piece : List UInt8 → Option (Piece × List UInt8)
  | [] => none
  | b :: rest =>
    if b = '*'.toUInt8 then some (.star, rest)
    else if b = '?'.toUInt8 then some (.any, rest)
    else if b = slash then
      match rest with
      | escaped :: rest => some (.byte escaped, rest)
      | [] => some (.byte slash, [])
    else if b = '['.toUInt8 then some ((bracket rest).getD (.byte b, rest))
    else some (.byte b, rest)

variable {first negated hit : Bool}

lemma length_members {after : List UInt8} {ranges : List (UInt8 × UInt8)}
    (h : members first l = some (ranges, after)) : after.length < l.length := by
  fun_induction members first l generalizing ranges with
  | case1 first l hclose =>
    cases h
    cases l with
    | nil => exact nomatch hclose.2
    | cons => simp
  | case2 => exact nomatch h
  | case3 => exact nomatch h
  | case4 first l _ lo rest hlo _ hi rest' hhi ih =>
    obtain ⟨m, hm, hmap⟩ := map_eq_some_iff.mp h
    cases hmap
    have := ih hm
    have := length_named hlo
    have := length_named hhi
    simp only [length_tail] at this
    omega
  | case5 first l _ lo rest hlo _ ih =>
    obtain ⟨m, hm, hmap⟩ := map_eq_some_iff.mp h
    cases hmap
    exact (ih hm).trans (length_named hlo)

lemma length_bracket {p : Piece} (h : bracket l = some (p, rest)) : rest.length < l.length := by
  unfold bracket at h
  split_ifs at h <;> obtain ⟨m, hm, hmap⟩ := map_eq_some_iff.mp h <;> cases hmap
  · have := length_members hm
    simp only [length_tail] at this
    omega
  · exact length_members hm

lemma length_piece {p : Piece} (h : piece l = some (p, rest)) : rest.length < l.length := by
  cases l with
  | nil => exact nomatch h
  | cons b l =>
    have hlt {q : Piece} (hq : (q, l) = (p, rest)) : rest.length < (b :: l).length := by
      cases hq
      simp
    simp only [piece] at h
    split_ifs at h
    · exact hlt (some.inj h)
    · exact hlt (some.inj h)
    · split at h <;> obtain ⟨-, rfl⟩ := Prod.mk.inj (some.inj h) <;> simp
    · cases hbracket : bracket l with
      | none =>
        rw [hbracket] at h
        exact hlt (some.inj h)
      | some q =>
        rw [hbracket] at h
        obtain rfl : q = (p, rest) := some.inj h
        exact Nat.lt_succ_of_lt (length_bracket hbracket)
    · exact hlt (some.inj h)

def pieces (l : List UInt8) : List Piece :=
  match _h : piece l with
  | none => []
  | some (p, rest) => p :: pieces rest
termination_by l.length
decreasing_by exact length_piece _h

lemma pieces_of_none (h : piece l = none) : pieces l = [] := by
  rw [pieces]
  split
  · rfl
  · simp_all

lemma pieces_of_some {p : Piece} (h : piece l = some (p, rest)) : pieces l = p :: pieces rest := by
  rw [pieces]
  split
  · simp_all
  · simp_all

def Splits (ps : List Piece) (name : List UInt8) : Prop :=
  ∃ parts : List (List UInt8), parts.flatten = name ∧ List.Forall₂ Piece.Matches ps parts

variable {p : Piece} {ps : List Piece} {name : List UInt8}

@[simp]
lemma splits_nil : Splits [] name ↔ name = [] := by
  simp [Splits, eq_comm]

lemma splits_star : Splits (.star :: ps) name ↔ ∃ k ≤ name.length, Splits ps (name.drop k) := by
  constructor
  · rintro ⟨parts, rfl, h⟩
    obtain ⟨part, parts, -, hrest, rfl⟩ := forall₂_cons_left_iff.mp h
    exact ⟨part.length, by simp, parts, by simp, hrest⟩
  · rintro ⟨k, -, parts, hparts, h⟩
    exact ⟨name.take k :: parts, by simp [hparts], .cons trivial h⟩

lemma Piece.length_of_matches {part : List UInt8} (hp : p ≠ .star) (h : p.Matches part) : ∃ c, part = [c] := by
  cases p with
  | star => exact absurd rfl hp
  | any => exact h
  | byte b => exact ⟨b, h⟩
  | bracket negated ranges => exact ⟨h.choose, h.choose_spec.1⟩

lemma splits_single (hp : p ≠ .star) :
    Splits (p :: ps) name ↔ ∃ c rest, name = c :: rest ∧ p.Matches [c] ∧ Splits ps rest := by
  constructor
  · rintro ⟨parts, rfl, h⟩
    obtain ⟨part, parts, hmatches, hrest, rfl⟩ := forall₂_cons_left_iff.mp h
    obtain ⟨c, rfl⟩ := p.length_of_matches hp hmatches
    exact ⟨c, parts.flatten, rfl, hmatches, parts, rfl, hrest⟩
  · rintro ⟨c, rest, rfl, hmatches, parts, rfl, h⟩
    exact ⟨[c] :: parts, rfl, .cons hmatches h⟩

lemma Splits.drop {mid : List Piece} (hmid : ∀ p ∈ mid, p ≠ .star) (h : Splits (mid ++ ps) name) :
    mid.length ≤ name.length ∧ Splits ps (name.drop mid.length) := by
  induction mid generalizing name with
  | nil => exact ⟨Nat.zero_le _, h⟩
  | cons p mid ih =>
    obtain ⟨c, rest, rfl, -, hrest⟩ := (splits_single (hmid p mem_cons_self)).mp h
    obtain ⟨hle, hsplits⟩ := ih (fun q hq => hmid q (mem_cons_of_mem _ hq)) hrest
    exact ⟨Nat.succ_le_succ hle, hsplits⟩

variable {pattern : List UInt8} {k : ℕ} {c : UInt8}

lemma named_drop (hk : k < pattern.length) : named (pattern.drop k) =
    some ((member pattern pattern[k] k).1, pattern.drop (member pattern pattern[k] k).2) := by
  rw [drop_eq_getElem_cons hk]
  simp only [named, member]
  split_ifs with hslash
  · cases hescaped : pattern[k + 1]? with
    | none =>
      have hend : pattern.drop (k + 1) = [] := drop_eq_nil_of_le (getElem?_eq_none_iff.mp hescaped)
      simp only [hend]
    | some escaped =>
      obtain ⟨hlt, rfl⟩ := List.getElem?_eq_some_iff.mp hescaped
      rw [drop_eq_getElem_cons hlt]
  · rfl

lemma members_of_named {lo : UInt8} (h : named l = some (lo, rest))
    (hopen : ¬ ((!first) = true ∧ l.head? = some close)) : members first l =
      if rest.head? = some hyphen ∧ ∃ b ∈ rest.tail.head?, b ≠ close then
        (named rest.tail).bind fun hi => (members false hi.2).map fun m => ((lo, hi.1) :: m.1, m.2)
      else (members false rest).map fun m => ((lo, lo) :: m.1, m.2) := by
  rw [members, if_neg hopen]
  split
  · rename_i hnone
    rw [h] at hnone
    exact nomatch hnone
  · rename_i lo' rest' hsome
    obtain ⟨rfl, rfl⟩ : lo = lo' ∧ rest = rest' := by
      rw [h] at hsome
      exact Prod.mk.inj (some.inj hsome)
    split_ifs
    · split <;> simp [*]
    · rfl

section

variable (hk : k < pattern.length) {atStart : Bool}
include hk

lemma members_close (hclose : pattern[k] = close ∧ !atStart) :
    members atStart (pattern.drop k) = some ([], pattern.drop (k + 1)) := by
  rw [members, drop_eq_getElem_cons hk, if_pos]
  · rfl
  · exact ⟨hclose.2, by rw [hclose.1]; rfl⟩

variable (hopen : ¬ (pattern[k] = close ∧ !atStart))
include hopen

lemma not_close :
    ¬ ((!atStart) = true ∧ (pattern.drop k).head? = some close) := by
  rw [head?_drop, getElem?_eq_getElem hk]
  rintro ⟨hstart, hclose⟩
  exact hopen ⟨some.inj hclose, hstart⟩

lemma members_single
    (hsingle : ∀ dash first, pattern[(member pattern pattern[k] k).2]? = some dash →
      pattern[(member pattern pattern[k] k).2 + 1]? = some first → ¬ (dash = hyphen ∧ first ≠ close)) :
    members atStart (pattern.drop k) = (members false (pattern.drop (member pattern pattern[k] k).2)).map fun m =>
      (((member pattern pattern[k] k).1, (member pattern pattern[k] k).1) :: m.1, m.2) := by
  rw [members_of_named (named_drop hk) (not_close hk hopen), if_neg]
  rw [head?_drop, tail_drop, head?_drop]
  rintro ⟨hdash, first, hfirst, hne⟩
  exact hsingle _ first hdash hfirst ⟨rfl, hne⟩

lemma members_range {dash first : UInt8}
    (hdash : pattern[(member pattern pattern[k] k).2]? = some dash)
    (hfirst : pattern[(member pattern pattern[k] k).2 + 1]? = some first)
    (hrange : dash = hyphen ∧ first ≠ close) : members atStart (pattern.drop k) = (members false
        (pattern.drop (member pattern first ((member pattern pattern[k] k).2 + 1)).2)).map fun m =>
      (((member pattern pattern[k] k).1, (member pattern first ((member pattern pattern[k] k).2 + 1)).1) :: m.1,
        m.2) := by
  obtain ⟨hlt, rfl⟩ := List.getElem?_eq_some_iff.mp hfirst
  rw [members_of_named (named_drop hk) (not_close hk hopen), if_pos, tail_drop]
  · simp only [named_drop hlt, bind_some]
  · rw [head?_drop, tail_drop, head?_drop]
    exact ⟨hrange.1 ▸ hdash, _, hfirst, hrange.2⟩

end

def inRanges (c : UInt8) (ranges : List (UInt8 × UInt8)) : Bool :=
  ranges.any fun r => r.1 ≤ c && c ≤ r.2

def Scans (pattern : List UInt8) (c : UInt8) (negated hit : Bool)
    (o : Option (List (UInt8 × UInt8) × List UInt8)) : Option (Bool × ℕ) → Prop
  | none => o = none
  | some (answer, next) => ∃ ranges, o = some (ranges, pattern.drop next) ∧ next ≤ pattern.length ∧
      answer = ((hit || inRanges c ranges) ^^ negated)

variable {o : Option (List (UInt8 × UInt8) × List UInt8)}

lemma Scans.cons {hit' : Bool} {result : Option (Bool × ℕ)}
    {lo hi : UInt8} (h : Scans pattern c negated hit' o result) (hhit : hit' = (hit || (lo ≤ c && c ≤ hi))) :
    Scans pattern c negated hit (o.map fun m => ((lo, hi) :: m.1, m.2)) result := by
  cases result with
  | none =>
    obtain rfl : o = none := h
    rfl
  | some result =>
    obtain ⟨ranges, rfl, hnext, hanswer⟩ := h
    refine ⟨(lo, hi) :: ranges, rfl, hnext, ?_⟩
    rw [hanswer, hhit, inRanges, inRanges, any_cons, Bool.or_assoc]

lemma beq_eq_le_and_ge (b c : UInt8) : (b == c) = (b ≤ c && c ≤ b) := by
  rw [Bool.eq_iff_iff, beq_iff_eq, Bool.and_eq_true, decide_eq_true_eq, decide_eq_true_eq]
  exact ⟨fun h => h ▸ ⟨UInt8.le_refl b, UInt8.le_refl b⟩, fun h => UInt8.le_antisymm h.1 h.2⟩

lemma classLoop_scans (negated hit atStart : Bool) (scanned : ℕ) :
    Scans pattern c negated hit (members atStart (pattern.drop k))
      (classLoop pattern c negated k hit atStart scanned).1 := by
  fun_induction classLoop pattern c negated k hit atStart scanned with
  | case1 k hit atStart _ hk _ _ hclose =>
    exact ⟨[], members_close hk hclose, hk, by simp [inRanges]⟩
  | case2 k hit atStart _ hk byte _ hopen lo _ dash first hfirst hdash hrange hi ih =>
    rw [members_range hk hopen hdash hfirst hrange]
    exact ih.cons rfl
  | case3 k hit atStart _ hk byte _ hopen lo _ dash first hfirst hdash hrange ih =>
    rw [members_single hk hopen ?_]
    · exact ih.cons (by rw [beq_eq_le_and_ge])
    · rintro dash' first' hdash' hfirst'
      obtain rfl : dash = dash' := mem_unique hdash hdash'
      obtain rfl : first = first' := mem_unique hfirst hfirst'
      exact hrange
  | case4 k hit atStart _ hk byte _ hopen lo _ hend ih =>
    rw [members_single hk hopen fun dash first hdash hfirst => (hend dash first hdash hfirst).elim]
    exact ih.cons (by rw [beq_eq_le_and_ge])
  | case5 k hit atStart _ hk =>
    rw [drop_eq_nil_of_le (by omega)]
    simp [Scans, members, named]

def Answers (pattern : List UInt8) (c : UInt8) (o : Option (Piece × List UInt8)) : Option (Bool × ℕ) → Prop
  | none => o = none
  | some (hit, next) => ∃ negated ranges, o = some (.bracket negated ranges, pattern.drop next) ∧
      next ≤ pattern.length ∧ hit = (inRanges c ranges ^^ negated)

lemma Scans.answers {result : Option (Bool × ℕ)}
    (h : Scans pattern c negated false o result) :
    Answers pattern c (o.map fun m => (.bracket negated m.1, m.2)) result := by
  cases result with
  | none =>
    obtain rfl : o = none := h
    rfl
  | some result =>
    obtain ⟨ranges, rfl, hnext, hanswer⟩ := h
    exact ⟨negated, ranges, rfl, hnext, by simpa using hanswer⟩

lemma classAt_answers (j : ℕ) : Answers pattern c (bracket (pattern.drop (j + 1))) (classAt pattern j c).1 := by
  rw [classAt, bracket, head?_drop, tail_drop]
  split_ifs with hnegated
  · exact (classLoop_scans true false true 2).answers
  · exact (classLoop_scans false false true 1).answers

namespace Elem

def next (j : ℕ) : Elem → ℕ
  | .star => j + 1
  | .any next | .byte _ next | .bracket _ next => next

def Resolves (c : UInt8) : Piece → Elem → Prop
  | .star, .star => True
  | .any, .any _ => True
  | .byte b, .byte b' _ => b = b'
  | .bracket negated ranges, .bracket hit _ => hit = (inRanges c ranges ^^ negated)
  | _, _ => False

end Elem

lemma piece_of_decode_none {j : ℕ} (h : decode pattern j c = none) : piece (pattern.drop j) = none := by
  unfold decode at h
  split at h
  · rename_i hend
    rw [drop_eq_nil_of_le (getElem?_eq_none_iff.mp hend), piece]
  · exact nomatch h

lemma piece_of_decode {j n : ℕ} {elem : Elem} (h : decode pattern j c = some (elem, n)) :
    ∃ p, piece (pattern.drop j) = some (p, pattern.drop (elem.next j)) ∧ elem.next j ≤ pattern.length ∧
      elem.Resolves c p := by
  have hj := lt_of_decode h
  rw [drop_eq_getElem_cons hj]
  simp only [decode, getElem?_eq_getElem hj, some.injEq] at h
  simp only [piece]
  split_ifs at h ⊢ with hstar hany hslash hopen
  · cases h
    exact ⟨_, rfl, hj, trivial⟩
  · cases h
    exact ⟨_, rfl, hj, trivial⟩
  · cases hescaped : pattern[j + 1]? with
    | none =>
      rw [hescaped] at h
      cases h
      have hend : pattern.drop (j + 1) = [] := drop_eq_nil_of_le (getElem?_eq_none_iff.mp hescaped)
      rw [hend]
      exact ⟨.byte slash, by rw [Elem.next, hend], hj, rfl⟩
    | some escaped =>
      rw [hescaped] at h
      cases h
      obtain ⟨hlt, rfl⟩ := List.getElem?_eq_some_iff.mp hescaped
      rw [drop_eq_getElem_cons hlt]
      exact ⟨_, rfl, hlt, rfl⟩
  · have hanswers : Answers pattern c (bracket (pattern.drop (j + 1))) (classAt pattern j c).1 := classAt_answers j
    revert h hanswers
    rcases classAt pattern j c with ⟨_ | ⟨hit, next⟩, scanned⟩ <;> intro h hanswers
    · cases h
      rw [show bracket (pattern.drop (j + 1)) = none from hanswers]
      exact ⟨_, rfl, hj, hopen⟩
    · cases h
      obtain ⟨negated, ranges, hbracket, hnext, hhit⟩ := hanswers
      rw [hbracket]
      exact ⟨_, rfl, hnext, hhit⟩
  · cases h
    exact ⟨_, rfl, hj, rfl⟩

lemma Elem.resolves_bracket {ranges : List (UInt8 × UInt8)} {next : ℕ}
    (h : (Elem.bracket hit next).Resolves c (.bracket negated ranges)) :
    (Piece.bracket negated ranges).Matches [c] ↔ hit = true := by
  obtain rfl : hit = (inRanges c ranges ^^ negated) := h
  have hin : inRanges c ranges = true ↔ ∃ r ∈ ranges, r.1 ≤ c ∧ c ≤ r.2 := by simp [inRanges]
  simp only [Piece.Matches, cons.injEq, and_true, exists_eq_left', ← hin]
  cases inRanges c ranges <;> cases negated <;> simp

namespace Cursor

variable {cur cur' : Cursor} {elem : Elem}

lemma advance_single (h : elem.Resolves c p) (hp : p ≠ .star) :
    (¬ p.Matches [c] ∧ cur.advance c elem = none) ∨ (p.Matches [c] ∧ cur.advance c elem =
      some { cur with i := cur.i + 1, j := elem.next cur.j, absorbed_le := cur.absorbed_le.step }) := by
  cases p <;> cases elem <;> try exact h.elim
  case star => exact absurd rfl hp
  case any => exact .inr ⟨⟨c, rfl⟩, rfl⟩
  case byte b b' next =>
    obtain rfl : b = b' := h
    by_cases hb : b = c
    · exact .inr ⟨by rw [hb]; rfl, by rw [advance, if_pos hb]; rfl⟩
    · refine .inl ⟨fun hmatches => hb ?_, by rw [advance, if_neg hb]⟩
      exact (cons.inj hmatches).1.symm
  case bracket negated ranges hit next =>
    have hmatches := Elem.resolves_bracket h
    cases hit with
    | true => exact .inr ⟨hmatches.mpr rfl, rfl⟩
    | false => exact .inl ⟨fun hm => Bool.false_ne_true (hmatches.mp hm), rfl⟩

lemma advance_star (h : elem.Resolves c .star) : cur.advance c elem =
    some (afterStar cur.i (elem.next cur.j)) := by
  cases elem <;> first | rfl | exact h.elim

/-- What is left to match: the rest of the pattern against the rest of the name, or the pattern after the last star
against a later rest of the name. -/
def Accepts (pattern name : List UInt8) (cur : Cursor) : Prop :=
  Splits (pieces (pattern.drop cur.j)) (name.drop cur.i) ∨
    ∃ resume, cur.starNext = some resume ∧
      ∃ k, cur.starAbsorbed < k ∧ k ≤ name.length ∧ Splits (pieces (pattern.drop resume)) (name.drop k)

structure Aligned (pattern name : List UInt8) (cur : Cursor) : Prop where
  i_le : cur.i ≤ name.length
  j_le : cur.j ≤ pattern.length
  mid : ∀ resume, cur.starNext = some resume → resume ≤ pattern.length ∧
    ∃ mid, pieces (pattern.drop resume) = mid ++ pieces (pattern.drop cur.j) ∧
      (∀ p ∈ mid, p ≠ .star) ∧ mid.length = cur.i - cur.starAbsorbed

variable {resume i next : ℕ}

lemma Aligned.splits (h : cur.Aligned pattern name) (hresume : cur.starNext = some resume)
    (hk : cur.starAbsorbed < k) (hkn : k ≤ name.length)
    (hsplits : Splits (pieces (pattern.drop resume)) (name.drop k)) :
    ∃ k', cur.i < k' ∧ k' ≤ name.length ∧ Splits (pieces (pattern.drop cur.j)) (name.drop k') := by
  obtain ⟨-, mid, hmid, hsingle, hlength⟩ := h.mid resume hresume
  rw [hmid] at hsplits
  obtain ⟨hle, hsplits⟩ := hsplits.drop hsingle
  have habsorbed := cur.absorbed_le
  rw [length_drop] at hle
  refine ⟨k + mid.length, by omega, by omega, ?_⟩
  rwa [drop_drop] at hsplits

lemma accepts_afterStar (hi : i ≤ name.length) : (afterStar i resume).Accepts pattern name ↔
    ∃ k, i ≤ k ∧ k ≤ name.length ∧ Splits (pieces (pattern.drop resume)) (name.drop k) := by
  constructor
  · rintro (hsplits | ⟨resume', hresume, k, hk, hkn, hsplits⟩)
    · exact ⟨i, le_rfl, hi, hsplits⟩
    · obtain rfl : resume = resume' := some.inj hresume
      exact ⟨k, hk.le, hkn, hsplits⟩
  · rintro ⟨k, hk, hkn, hsplits⟩
    rcases hk.eq_or_lt with rfl | hlt
    · exact .inl hsplits
    · exact .inr ⟨resume, rfl, k, hlt, hkn, hsplits⟩

lemma aligned_afterStar (hi : i ≤ name.length) (hresume : resume ≤ pattern.length) :
    (afterStar i resume).Aligned pattern name := by
  refine ⟨hi, hresume, fun resume' hresume' => ?_⟩
  obtain rfl : resume = resume' := some.inj hresume'
  exact ⟨hresume, [], rfl, by simp, by simp [afterStar]⟩

lemma Aligned.accepts_star (h : cur.Aligned pattern name)
    (hpieces : pieces (pattern.drop cur.j) = .star :: pieces (pattern.drop next)) :
    (afterStar cur.i next).Accepts pattern name ↔ cur.Accepts pattern name := by
  have hstar {k : ℕ} (hk : k ≤ name.length) : Splits (pieces (pattern.drop cur.j)) (name.drop k) ↔
      ∃ k', k ≤ k' ∧ k' ≤ name.length ∧ Splits (pieces (pattern.drop next)) (name.drop k') := by
    rw [hpieces, splits_star, length_drop]
    constructor
    · rintro ⟨n, hn, hsplits⟩
      rw [drop_drop] at hsplits
      exact ⟨k + n, by omega, by omega, hsplits⟩
    · rintro ⟨k', hle, hk', hsplits⟩
      refine ⟨k' - k, by omega, ?_⟩
      rwa [drop_drop, Nat.add_sub_cancel' hle]
  rw [accepts_afterStar h.i_le]
  constructor
  · intro hsplits
    exact .inl ((hstar h.i_le).mpr hsplits)
  · rintro (hsplits | ⟨resume, hresume, k, hk, hkn, hsplits⟩)
    · exact (hstar h.i_le).mp hsplits
    · obtain ⟨k', hlt, hle, hsplits'⟩ := h.splits hresume hk hkn hsplits
      obtain ⟨k'', hle', hk'', hsplits''⟩ := (hstar hle).mp hsplits'
      exact ⟨k'', hlt.le.trans hle', hk'', hsplits''⟩

lemma Aligned.single (h : cur.Aligned pattern name) (hi : cur.i < name.length) (hnext : next ≤ pattern.length)
    (hpieces : pieces (pattern.drop cur.j) = p :: pieces (pattern.drop next)) (hp : p ≠ .star) :
    Aligned pattern name { cur with i := cur.i + 1, j := next, absorbed_le := cur.absorbed_le.step } := by
  refine ⟨hi, hnext, fun resume hresume => ?_⟩
  obtain ⟨hle, mid, hmid, hsingle, hlength⟩ := h.mid resume hresume
  refine ⟨hle, mid ++ [p], by rw [hmid, hpieces, append_assoc]; rfl, ?_, ?_⟩
  · intro q hq
    rcases mem_append.mp hq with hq | hq
    · exact hsingle q hq
    · exact mem_singleton.mp hq ▸ hp
  · have := cur.absorbed_le
    simp only [length_append, length_singleton, hlength]
    omega

lemma accepts_single (hi : cur.i < name.length)
    (hpieces : pieces (pattern.drop cur.j) = p :: pieces (pattern.drop next)) (hp : p ≠ .star)
    (hmatches : p.Matches [name[cur.i]]) :
    Accepts pattern name { cur with i := cur.i + 1, j := next, absorbed_le := cur.absorbed_le.step } ↔
      cur.Accepts pattern name := by
  refine or_congr ?_ Iff.rfl
  rw [hpieces, splits_single hp, drop_eq_getElem_cons hi]
  constructor
  · intro h
    exact ⟨_, _, rfl, hmatches, h⟩
  · rintro ⟨c, rest, heq, -, h⟩
    rwa [(cons.inj heq).2]

lemma accepts_retry (hstuck : ¬ Splits (pieces (pattern.drop cur.j)) (name.drop cur.i))
    (hresume : cur.starNext = some resume) (hlt : cur.starAbsorbed < name.length) :
    (afterStar (cur.starAbsorbed + 1) resume).Accepts pattern name ↔ cur.Accepts pattern name := by
  rw [accepts_afterStar hlt]
  constructor
  · rintro ⟨k, hk, hkn, hsplits⟩
    exact .inr ⟨resume, hresume, k, hk, hkn, hsplits⟩
  · rintro (hsplits | ⟨resume', hresume', k, hk, hkn, hsplits⟩)
    · exact absurd hsplits hstuck
    · obtain rfl : resume = resume' := mem_unique hresume hresume'
      exact ⟨k, hk, hkn, hsplits⟩

end Cursor

lemma piece_ne_star {b : UInt8} (hb : b ≠ '*'.toUInt8) (h : piece (b :: l) = some (p, rest)) :
    p ≠ .star := by
  rintro rfl
  simp only [piece, if_neg hb] at h
  split_ifs at h
  · exact nomatch h
  · split at h <;> exact nomatch h
  · cases hbracket : bracket l with
    | none => rw [hbracket] at h; exact nomatch h
    | some q =>
      rw [hbracket] at h
      obtain rfl : q = (.star, rest) := some.inj h
      unfold bracket at hbracket
      split_ifs at hbracket <;> obtain ⟨m, -, hm⟩ := map_eq_some_iff.mp hbracket <;> exact nomatch hm
  · exact nomatch h

lemma skipStars_eq {j steps : ℕ} (hj : j ≤ pattern.length) :
    (skipStars pattern j steps).1 = pattern.length ↔ Splits (pieces (pattern.drop j)) [] := by
  fun_induction skipStars pattern j steps with
  | case1 j steps hlt hstar ih =>
    have hpieces : pieces (pattern.drop j) = .star :: pieces (pattern.drop (j + 1)) := by
      apply pieces_of_some
      rw [drop_eq_getElem_cons hlt]
      exact if_pos hstar
    rw [ih hlt, hpieces, splits_star]
    simp
  | case2 j steps hlt hstar =>
    obtain ⟨⟨elem, n⟩, hdecode⟩ : ∃ e, decode pattern j 0 = some e := by
      simp [decode, getElem?_eq_getElem hlt]
    obtain ⟨p, hpiece, -⟩ := piece_of_decode hdecode
    have hp : p ≠ .star := by
      rw [drop_eq_getElem_cons hlt] at hpiece
      exact piece_ne_star hstar hpiece
    rw [pieces_of_some hpiece, splits_single hp]
    simp only [reduceCtorEq, false_and, exists_false, iff_false]
    omega
  | case3 j steps hend =>
    rw [drop_eq_nil_of_le (by omega), pieces_of_none rfl]
    simp only [splits_nil, iff_true]
    omega

lemma not_splits_of_stuck {cur : Cursor} (hlt : cur.i < name.length)
    (hstuck : ((decode pattern cur.j name[cur.i]).bind fun e => cur.advance name[cur.i] e.1) = none) :
    ¬ Splits (pieces (pattern.drop cur.j)) (name.drop cur.i) := by
  rw [drop_eq_getElem_cons hlt]
  cases hdecode : decode pattern cur.j name[cur.i] with
  | none =>
    rw [pieces_of_none (piece_of_decode_none hdecode), splits_nil]
    exact cons_ne_nil _ _
  | some e =>
    obtain ⟨p, hpiece, -, hresolves⟩ := piece_of_decode hdecode
    have hadvance : cur.advance name[cur.i] e.1 = none := by
      rw [hdecode] at hstuck
      exact hstuck
    rw [pieces_of_some hpiece]
    by_cases hp : p = .star
    · subst hp
      rw [Cursor.advance_star hresolves] at hadvance
      exact nomatch hadvance
    · rw [splits_single hp]
      rintro ⟨c, rest, heq, hmatches, -⟩
      obtain ⟨rfl, rfl⟩ := cons.inj heq
      rcases Cursor.advance_single hresolves hp with ⟨hno, -⟩ | ⟨-, hsome⟩
      · exact hno hmatches
      · rw [hsome] at hadvance
        exact nomatch hadvance

lemma matchLoop_iff {cur : Cursor} {steps : ℕ} (h : cur.Aligned pattern name) :
    (matchLoop pattern name cur steps).1 = true ↔ cur.Accepts pattern name := by
  fun_induction matchLoop pattern name cur steps with
  | case1 cur steps hlt element steps' cur' hadvance ih =>
    obtain ⟨e, hdecode, hadvance⟩ := bind_eq_some_iff.mp hadvance
    obtain ⟨p, hpiece, hnext, hresolves⟩ := piece_of_decode hdecode
    have hpieces := pieces_of_some hpiece
    by_cases hp : p = .star
    · subst hp
      cases some.inj ((Cursor.advance_star hresolves).symm.trans hadvance)
      rw [ih (Cursor.aligned_afterStar h.i_le hnext)]
      exact h.accepts_star hpieces
    · rcases Cursor.advance_single hresolves hp with ⟨-, hnone⟩ | ⟨hmatches, hsome⟩
      · exact nomatch hnone.symm.trans hadvance
      · cases mem_unique hsome hadvance
        rw [ih (h.single hlt hnext hpieces hp)]
        exact Cursor.accepts_single hlt hpieces hp hmatches
  | case2 cur steps hlt element steps' hstuck cur' hretry ih =>
    obtain ⟨resume, hresume, rfl⟩ := map_eq_some_iff.mp hretry
    have hbefore := cur.absorbed_le.trans_lt hlt
    rw [ih (Cursor.aligned_afterStar hbefore (h.mid resume hresume).1)]
    exact Cursor.accepts_retry (not_splits_of_stuck hlt hstuck) hresume hbefore
  | case3 cur steps hlt element steps' hstuck hretry =>
    have hnone : cur.starNext = none := map_eq_none_iff.mp hretry
    simp only [Bool.false_eq_true, false_iff]
    rintro (hsplits | ⟨resume, hresume, -⟩)
    · exact not_splits_of_stuck hlt hstuck hsplits
    · exact nomatch hnone.symm.trans hresume
  | case4 cur steps hend j steps' hskip =>
    have hj : j = (skipStars pattern cur.j steps).1 := by rw [hskip]
    have hname : name.drop cur.i = [] := drop_eq_nil_of_le (by omega)
    rw [decide_eq_true_eq, hj, skipStars_eq h.j_le, Cursor.Accepts, hname, iff_self_or]
    rintro ⟨resume, hresume, k, hk, hkn, hsplits⟩
    obtain ⟨k', hlt, hle, -⟩ := h.splits hresume hk hkn hsplits
    omega

def OpensWithDot (pattern : List UInt8) : Prop :=
  ['.'.toUInt8] <+: pattern ∨ [slash, '.'.toUInt8] <+: pattern

lemma not_opensWithDot {b : UInt8} (hdot : '.'.toUInt8 ≠ b) (hslash : slash ≠ b) :
    ¬ OpensWithDot (b :: l) := by
  simp [OpensWithDot, hdot, hslash]

lemma opensWithALiteralDot_iff : opensWithALiteralDot pattern = true ↔ OpensWithDot pattern := by
  cases pattern with
  | nil => simp [opensWithALiteralDot, OpensWithDot, decode]
  | cons b l =>
    simp only [opensWithALiteralDot, decode, getElem?_cons_zero]
    split_ifs with hstar hany hslash hopen
    · subst hstar
      simpa using not_opensWithDot (by decide) (by decide)
    · subst hany
      simpa using not_opensWithDot (by decide) (by decide)
    · subst hslash
      cases l with
      | nil => simp [OpensWithDot, show '.'.toUInt8 ≠ slash by decide, show slash ≠ '.'.toUInt8 by decide]
      | cons b l => simp [OpensWithDot, show '.'.toUInt8 ≠ slash by decide, eq_comm]
    · subst hopen
      have hnot := not_opensWithDot (l := l) (show '.'.toUInt8 ≠ '['.toUInt8 by decide) (by decide)
      rcases classAt ('['.toUInt8 :: l) 0 0 with ⟨_ | ⟨hit, next⟩, scanned⟩
      · simpa [show '['.toUInt8 ≠ '.'.toUInt8 by decide] using hnot
      · simpa using hnot
    · simp [OpensWithDot, eq_comm, hslash]

lemma matchesWith_ordinary (pattern name : List UInt8) :
    matchesWith pattern name .ordinary = true ↔ Splits (pieces pattern) name := by
  have hstart : Cursor.start.Aligned pattern name :=
    ⟨Nat.zero_le _, Nat.zero_le _, fun resume h => (nomatch h)⟩
  have hordinary : matchesWith pattern name .ordinary = (matchLoop pattern name .start 0).1 := by
    simp [matchesWith, matchSteps]
  rw [hordinary, matchLoop_iff hstart]
  simp [Cursor.Accepts, Cursor.start]

lemma matches_special (pattern name : List UInt8) : «matches» pattern name = true ↔
    matchesWith pattern name .ordinary = true ∧ (name.head? = some '.'.toUInt8 →
      opensWithALiteralDot pattern = true) := by
  have hordinary : matchesWith pattern name .ordinary = (matchLoop pattern name .start 0).1 := by
    simp [matchesWith, matchSteps]
  rw [hordinary, «matches», matchSteps]
  split_ifs with hdot
  · simp [hdot.2.1, Bool.eq_false_of_not_eq_true' hdot.2.2]
  · refine (and_iff_left fun hhead => ?_).symm
    simpa [hhead] using hdot

theorem matcher_decides_language (pattern name : List UInt8) :
    (matchesWith pattern name .ordinary = true ↔ Splits (pieces pattern) name) ∧
      («matches» pattern name = true ↔ matchesWith pattern name .ordinary = true ∧
        (name.head? = some '.'.toUInt8 → OpensWithDot pattern)) := by
  refine ⟨matchesWith_ordinary pattern name, ?_⟩
  rw [matches_special, opensWithALiteralDot_iff]

end CrickerOs.Glob
