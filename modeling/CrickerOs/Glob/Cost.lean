import CrickerOs.Glob.Language

namespace CrickerOs.Glob

def USIZE_MAX : ℕ := 2 ^ 64 - 1

def saturatingAdd (a b : ℕ) : ℕ := min (a + b) USIZE_MAX

def saturatingMul (a b : ℕ) : ℕ := min (a * b) USIZE_MAX

def costBound (patternLen nameLen : ℕ) : ℕ :=
  let iterations := saturatingMul (saturatingAdd nameLen 2) (saturatingAdd (saturatingAdd nameLen patternLen) 1)
  saturatingAdd (saturatingAdd (saturatingMul iterations (saturatingAdd (saturatingMul patternLen 2) 2))
    patternLen) 2

def exactBound (patternLen nameLen : ℕ) : ℕ :=
  (nameLen + 2) * (nameLen + patternLen + 1) * (patternLen * 2 + 2) + patternLen + 2

lemma costBound_eq {p n : ℕ} (h : exactBound p n ≤ USIZE_MAX) : costBound p n = exactBound p n := by
  unfold exactBound at h
  have hiter : (n + 2) * (n + p + 1) ≤ (n + 2) * (n + p + 1) * (p * 2 + 2) := Nat.le_mul_of_pos_right _ (by omega)
  have hname : n + 2 ≤ (n + 2) * (n + p + 1) := Nat.le_mul_of_pos_right _ (by omega)
  have hboth : n + p + 1 ≤ (n + 2) * (n + p + 1) := Nat.le_mul_of_pos_left _ (by omega)
  have htwice : p * 2 + 2 ≤ (n + 2) * (n + p + 1) * (p * 2 + 2) := Nat.le_mul_of_pos_left _ (by positivity)
  simp only [costBound, exactBound, saturatingAdd, saturatingMul]
  rw [min_eq_left (a := n + 2) (by omega), min_eq_left (a := n + p) (by omega),
    min_eq_left (a := n + p + 1) (by omega), min_eq_left (a := (n + 2) * (n + p + 1)) (by omega),
    min_eq_left (a := p * 2) (by omega), min_eq_left (a := p * 2 + 2) (by omega),
    min_eq_left (a := (n + 2) * (n + p + 1) * (p * 2 + 2)) (by omega),
    min_eq_left (a := (n + 2) * (n + p + 1) * (p * 2 + 2) + p) (by omega), min_eq_left (by omega)]

section

variable {pattern : List UInt8} {c : UInt8} {j k : ℕ}

lemma member_le {b : UInt8} (hk : k < pattern.length) : (member pattern b k).2 ≤ pattern.length := by
  unfold member
  split
  · split
    · rename_i escaped hescaped
      exact (List.getElem?_eq_some_iff.mp hescaped).1
    · exact hk
  · exact hk

lemma classLoop_scanned {negated hit atStart : Bool} {scanned start : ℕ} (hk : k ≤ pattern.length)
    (hscanned : scanned + start = k) :
    (classLoop pattern c negated k hit atStart scanned).2 + start ≤ pattern.length := by
  fun_induction classLoop pattern c negated k hit atStart scanned with
  | case1 => omega
  | case2 k hit atStart scanned hk' byte scanned' hopen lo scanned'' dash first hfirst hdash hrange hi ih =>
    have hlo : k < lo.2 := lt_member pattern byte k
    have hhi : lo.2 + 1 < hi.2 := lt_member pattern first (lo.2 + 1)
    have hle : hi.2 ≤ pattern.length := member_le (List.getElem?_eq_some_iff.mp hfirst).1
    exact ih hle (by omega)
  | case3 k hit atStart scanned hk' byte scanned' hopen lo scanned'' dash first hfirst hdash hrange ih =>
    have hlo : k < lo.2 := lt_member pattern byte k
    exact ih (member_le hk') (by omega)
  | case4 k hit atStart scanned hk' byte scanned' hopen lo scanned'' hnone ih =>
    have hlo : k < lo.2 := lt_member pattern byte k
    exact ih (member_le hk') (by omega)
  | case5 => omega

lemma scanned_le {elem : Elem} {scanned : ℕ} (h : decode pattern j c = some (elem, scanned)) :
    scanned ≤ pattern.length := by
  have hj := lt_of_decode h
  have hclass : (classAt pattern j c).2 ≤ pattern.length := by
    unfold classAt
    split
    · rename_i hsign
      have hsign' : j + 1 < pattern.length := by
        rcases hsign with hs | hs <;> exact (List.getElem?_eq_some_iff.mp hs).1
      have := @classLoop_scanned pattern c (j + 2) true false true 2 j hsign' (by omega)
      omega
    · have := @classLoop_scanned pattern c (j + 1) false false true 1 j hj (by omega)
      omega
  unfold decode at h
  split at h
  · cases h
  · have h := Option.some.inj h
    split_ifs at h
    · cases h
      omega
    · cases h
      omega
    · split at h
      · rename_i hescaped
        cases h
        have := (List.getElem?_eq_some_iff.mp hescaped).1
        omega
      · cases h
        omega
    · split at h
      all_goals
        rename_i hat
        rw [hat] at hclass
        cases h
        exact hclass
    · cases h
      omega

lemma skipStars_steps {steps : ℕ} : (skipStars pattern j steps).2 ≤ steps + pattern.length := by
  suffices hcount : ∀ j steps, j ≤ pattern.length → (skipStars pattern j steps).2 ≤ steps + (pattern.length - j) by
    by_cases hj : j ≤ pattern.length
    · exact (hcount j steps hj).trans (by omega)
    · rw [skipStars, dif_neg (by omega)]
      exact Nat.le_add_right _ _
  intro j steps
  fun_induction skipStars pattern j steps with
  | case1 j steps hlt hstar ih => exact fun _ => (ih hlt).trans (by omega)
  | case2 => exact fun _ => Nat.le_add_right _ _
  | case3 => exact fun _ => Nat.le_add_right _ _

end

section

variable {pattern name : List UInt8}

def turns (pattern name : List UInt8) (cur : Cursor) : ℕ :=
  (name.length - cur.starAbsorbed) * (name.length + pattern.length + 1) +
    (name.length + pattern.length - (cur.i + cur.j)) + 1

variable {cur cur' : Cursor}

lemma advance_j {c : UInt8} {elem : Elem} (h : cur.advance c elem = some cur') :
    cur'.j = elem.next cur.j := by
  cases elem <;> simp only [Cursor.advance, Option.ite_none_right_eq_some, Option.some.injEq] at h
  case star => subst h; rfl
  case any => subst h; rfl
  case byte => obtain ⟨-, rfl⟩ := h; rfl
  case bracket => obtain ⟨-, rfl⟩ := h; rfl

lemma turns_advance {c : UInt8} {elem : Elem} {n : ℕ} (hi : cur.i < name.length)
    (hdecode : decode pattern cur.j c = some (elem, n)) (h : cur.advance c elem = some cur') :
    turns pattern name cur' < turns pattern name cur := by
  have hj := lt_of_decode hdecode
  obtain ⟨p, hp, hnext, -⟩ := piece_of_decode hdecode
  have hlater : cur.j < elem.next cur.j := by
    have := length_piece hp
    simp only [List.length_drop] at this
    omega
  have hj' := advance_j h
  have habsorbed : cur.starAbsorbed ≤ cur'.starAbsorbed := by
    have := cur.absorbed_le
    rcases Cursor.advance_eq_some h with ⟨-, hsame⟩ | ⟨-, -, hsame⟩ <;> omega
  have hsum : cur.i + cur.j < cur'.i + cur'.j := by
    rcases Cursor.advance_eq_some h with ⟨hi', -⟩ | ⟨hi', -, -⟩ <;> omega
  have hless : (name.length - cur'.starAbsorbed) * (name.length + pattern.length + 1) ≤
      (name.length - cur.starAbsorbed) * (name.length + pattern.length + 1) :=
    Nat.mul_le_mul_right _ (Nat.sub_le_sub_left habsorbed _)
  unfold turns
  omega

lemma turns_retry (hi : cur.i < name.length) (h : cur.retry = some cur') :
    turns pattern name cur' < turns pattern name cur := by
  have hle := cur.absorbed_le
  have habsorbed := Cursor.retry_eq_some h
  obtain ⟨left, hleft⟩ : ∃ left, name.length - cur.starAbsorbed = left + 1 := ⟨_, (Nat.succ_pred (by omega)).symm⟩
  have hleft' : name.length - cur'.starAbsorbed = left := by omega
  unfold turns
  rw [hleft, hleft', Nat.add_one_mul]
  omega

lemma matchLoop_steps (cur : Cursor) (steps : ℕ) :
    (matchLoop pattern name cur steps).2 ≤ steps + turns pattern name cur * (pattern.length + 1) +
    pattern.length := by
  have hdecoded : ∀ j c, ((decode pattern j c).map Prod.snd).getD 0 ≤ pattern.length := by
    intro j c
    cases hdecode : decode pattern j c with
    | none => exact Nat.zero_le _
    | some e => exact scanned_le hdecode
  have hturn : ∀ {cur cur' : Cursor}, turns pattern name cur' < turns pattern name cur →
      turns pattern name cur' * (pattern.length + 1) + (pattern.length + 1) ≤
        turns pattern name cur * (pattern.length + 1) := by
    intro cur cur' hless
    rw [← Nat.add_one_mul]
    exact Nat.mul_le_mul_right _ hless
  fun_induction matchLoop pattern name cur steps with
  | case1 cur steps hlt element steps' cur' hadvance ih =>
    obtain ⟨e, hdecode, hadvance⟩ := Option.bind_eq_some_iff.mp hadvance
    have hcost : (element.map Prod.snd).getD 0 ≤ pattern.length := hdecoded _ _
    have hless := hturn (turns_advance hlt hdecode hadvance)
    have hsteps : steps' = steps + (element.map Prod.snd).getD 0 := rfl
    omega
  | case2 cur steps hlt element steps' hstuck cur' hretry ih =>
    have hcost : (element.map Prod.snd).getD 0 ≤ pattern.length := hdecoded _ _
    have hless := hturn (turns_retry hlt hretry)
    have hsteps : steps' = steps + (element.map Prod.snd).getD 0 := rfl
    omega
  | case3 cur steps hlt element steps' hstuck hretry =>
    have hcost : (element.map Prod.snd).getD 0 ≤ pattern.length := hdecoded _ _
    have hsteps : steps' = steps + (element.map Prod.snd).getD 0 := rfl
    omega
  | case4 cur steps hend j steps' hskip =>
    have hskipped := @skipStars_steps pattern cur.j steps
    rw [hskip] at hskipped
    omega

/-- The matcher always comes to an end, and where the bound did not saturate the count it returns is within it. -/
theorem match_steps_within_cost_bound (pattern name : List UInt8) (dot : Dot)
    (hexact : exactBound pattern.length name.length ≤ USIZE_MAX) :
    (matchSteps pattern name dot).2 ≤ costBound pattern.length name.length := by
  rw [costBound_eq hexact, matchSteps]
  split
  · exact Nat.zero_le _
  · have hsteps := @matchLoop_steps pattern name .start 0
    have hturns : turns pattern name .start = (name.length + 1) * (name.length + pattern.length + 1) := by
      simp only [turns, Cursor.start, Nat.sub_zero, Nat.add_zero]
      rw [Nat.add_one_mul]
      omega
    rw [hturns] at hsteps
    have hbound : (name.length + 1) * (name.length + pattern.length + 1) * (pattern.length + 1) ≤
        (name.length + 2) * (name.length + pattern.length + 1) * (pattern.length * 2 + 2) := by
      gcongr <;> omega
    unfold exactBound
    omega

theorem cost_bound_sample : exactBound 5 6 ≤ USIZE_MAX ∧
    (matchSteps [42, 97, 42, 91, 98] [97, 97, 98, 97, 98, 98] .special).2 ≤ costBound 5 6 :=
  ⟨by decide, match_steps_within_cost_bound [42, 97, 42, 91, 98] [97, 97, 98, 97, 98, 98] .special (by decide)⟩

end

end CrickerOs.Glob
