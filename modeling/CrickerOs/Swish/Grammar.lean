import CrickerOs.Swish.Scanning

namespace CrickerOs.Swish.Grammar

open Library Library.Outcome GrantPlan Option Nat

structure Words where
  first : Quoted
  more : List (Gap × Quoted)
  apart : ∀ p ∈ more, p.1.bytes ≠ []
  length_le : more.length + 1 ≤ maxTokens

structure Redirection where
  before : Gap
  which : Which
  append : Bool
  after : Gap
  name : Quoted
  apart : which = .diagnostics → before.bytes ≠ []
  append_input : which = .input → append = false

structure Stage where
  words : Words
  redirections : List Redirection
  once : (redirections.map (·.which)).Nodup

/-- A pipeline: what stands around each `|`, and the stage after it. Only the first stage takes input, and only
the last one is redirected. -/
structure Segment where
  first : Stage
  more : List (Gap × Gap × Stage)
  length_le : more.length + 1 ≤ maxStages
  input_first : ∀ p ∈ more, ∀ r ∈ p.2.2.redirections, r.which ≠ .input
  output_last : ∀ stage ∈ (first :: more.map (·.2.2)).dropLast, ∀ r ∈ stage.redirections, r.which = .input

inductive Connector
  | semicolon
  | and
  | or

structure Typed where
  lead : Gap
  first : Segment
  more : List (Gap × Connector × Gap × Segment)
  trail : Gap
  length_le : more.length + 1 ≤ maxSegments

def renderWords : Quoted → List (Gap × Quoted) → Bytes
  | w, [] => w.render
  | w, (g, w') :: more => w.render ++ (g.bytes ++ renderWords w' more)

def Words.render (ws : Words) : Bytes := renderWords ws.first ws.more

def Words.all (ws : Words) : List Quoted := ws.first :: ws.more.map (·.2)

def spelling : Which → (append : Bool) → Bytes
  | .input, _ => [lessByte]
  | .output, false => [greaterByte]
  | .output, true => [greaterByte, greaterByte]
  | .diagnostics, false => [twoByte, greaterByte]
  | .diagnostics, true => [twoByte, greaterByte, greaterByte]

def renderRedirections : List Redirection → Bytes
  | [] => []
  | r :: rs => r.before.bytes ++ (spelling r.which r.append ++
      (r.after.bytes ++ (r.name.render ++ renderRedirections rs)))

def Stage.render (stage : Stage) : Bytes := stage.words.render ++ renderRedirections stage.redirections

def Stage.target (stage : Stage) (which : Which) : Option Redirection := stage.redirections.find? (·.which = which)

def renderStages : Stage → List (Gap × Gap × Stage) → Bytes
  | stage, [] => stage.render
  | stage, (g, g', stage') :: more => stage.render ++ (g.bytes ++ pipeByte ::
      (g'.bytes ++ renderStages stage' more))

def Segment.render (seg : Segment) : Bytes := renderStages seg.first seg.more

def Segment.stages (seg : Segment) : List Stage := seg.first :: seg.more.map (·.2.2)

def Segment.last (seg : Segment) : Stage := seg.stages.getLast (List.cons_ne_nil _ _)

namespace Connector

def render : Connector → Bytes
  | semicolon => [0x3b]
  | and => [0x26, 0x26]
  | or => [0x7c, 0x7c]

def joint : Connector → Joint
  | semicolon => .always
  | and => .onSuccess
  | or => .onFailure

end Connector

def renderSegments (trail : Gap) : Segment → List (Gap × Connector × Gap × Segment) → Bytes
  | seg, [] => seg.render ++ trail.bytes
  | seg, (g, c, g', seg') :: more => seg.render ++ (g.bytes ++
      (c.render ++ (g'.bytes ++ renderSegments trail seg' more)))

def Typed.render (line : Typed) : Bytes := line.lead.bytes ++ renderSegments line.trail line.first line.more

def Typed.segments (line : Typed) : List (Joint × Segment) :=
  (.first, line.first) :: line.more.map fun p => (p.2.1.joint, p.2.2.2)

def Segment.line (seg : Segment) : Line where
  stages := seg.stages.map (·.words.render)
  input := (seg.first.target .input).map (·.name.text)
  output := (seg.last.target .output).map (·.name.text)
  diagnostics := (seg.last.target .diagnostics).map (·.name.text)
  append := (seg.last.target .output).any (·.append)
  diagAppend := (seg.last.target .diagnostics).any (·.append)

section

variable {w : Quoted} {more : List (Gap × Quoted)}

lemma framed_renderWords : Framed (renderWords w more) := by
  induction more generalizing w with
  | nil => exact framed_quoted w
  | cons p more ih => exact (framed_quoted w).append ih p.1.bytes

lemma passes_renderWords {stop : Option UInt8 → Bytes → Bool}
    (hmark : ∀ b, IsMark b → ∀ before l, stop before (b :: l) = false)
    (hblank : ∀ b, isAsciiWhitespace b = true → ∀ before l, stop before (b :: l) = false) :
    Passes stop (renderWords w more) := by
  induction more generalizing w with
  | nil => exact passes_quoted w (hmark w.mark w.mark_eq)
  | cons p more ih => exact (passes_quoted w (hmark w.mark w.mark_eq)).append ((passes_gap hblank).append ih)

lemma tokenizeFrom_words (g : Gap) (hapart : ∀ p ∈ more, p.1.bytes ≠ []) {room : ℕ} (hroom : more.length < room) :
    tokenizeFrom room .bare (g.bytes ++ renderWords w more) = (w :: more.map (·.2)).map Quoted.render := by
  obtain ⟨room, rfl⟩ := exists_eq_succ_of_ne_zero (ne_zero_of_lt hroom)
  induction more generalizing g w room with
  | nil =>
    have hnil (b : UInt8) (h : ([] : Bytes).head? = some b) : isAsciiWhitespace b = true := nomatch h
    rw [renderWords, ← List.append_nil w.render, tokenizeFrom_quoted g w hnil, tokenizeFrom_nil]
    rfl
  | cons p more ih =>
    obtain ⟨g', w'⟩ := p
    obtain ⟨hg, hapart⟩ := List.forall_mem_cons.mp hapart
    obtain ⟨room, rfl⟩ := exists_eq_succ_of_ne_zero (ne_zero_of_lt (lt_of_succ_lt_succ hroom))
    rw [renderWords, tokenizeFrom_quoted g w fun b => head?_gap hg, ih g' hapart room (lt_of_succ_lt_succ hroom)]
    rfl

lemma tokenize_words (ws : Words) : (tokenize ws.render maxTokens).map GrantPlan.read =
    ws.all.map fun w => .ok w.word := by
  have htokens := tokenizeFrom_words (w := ws.first) ⟨[], nofun⟩ ws.apart (lt_of_succ_le ws.length_le)
  rw [List.nil_append] at htokens
  rw [tokenize, Words.render, htokens, List.map_map]
  exact List.map_congr_left fun w _ => read_quoted w

end

section

variable {acc : GrantPlan.Stage} {r : Redirection} {rs : List Redirection} {l rest tail : Bytes} {b : UInt8}
variable {before : Option UInt8}

lemma isDiagOp_of_ne (hb : b ≠ twoByte) : isDiagOp before (b :: l) = false := by
  simp [isDiagOp, List.isPrefixOf, Ne.symm hb]

lemma endsWords_mark (b : UInt8) (hb : IsMark b) (before : Option UInt8) (l : Bytes) :
    endsWords before (b :: l) = false := by
  rw [endsWords, isDiagOp_of_ne (by rcases hb with rfl | rfl <;> decide), Bool.or_false]
  exact hb.not_op

lemma endsWords_blank (b : UInt8) (hb : isAsciiWhitespace b = true) (before : Option UInt8) (l : Bytes) :
    endsWords before (b :: l) = false := by
  have hne : b ≠ twoByte ∧ isOp b = false := by
    rcases isAsciiWhitespace_iff.mp hb with rfl | rfl | rfl | rfl | rfl <;> decide
  rw [endsWords, isDiagOp_of_ne hne.1, Bool.or_false]
  exact hne.2

structure Ends (g : Gap) (l : Bytes) : Prop where
  ends : l = [] ∨ endsWords none l = true
  apart : (∃ b, l.head? = some b ∧ isOp b = false) → g.bytes ≠ []

lemma isDiagOp_head (h : isDiagOp none l = true) : l.head? = some twoByte := by
  cases l with
  | nil => exact nomatch h
  | cons b l =>
    by_contra hne
    rw [isDiagOp_of_ne fun h => hne (congrArg some h)] at h
    exact nomatch h

variable {g : Gap}

lemma Ends.not_blank (h : Ends g l) : ∀ b, l.head? = some b → isAsciiWhitespace b = false := by
  intro b hb
  by_contra hblank
  obtain ⟨l, rfl⟩ := List.head?_eq_some_iff.mp hb
  rcases h.ends with h | h
  · exact nomatch h
  · rw [endsWords_blank b (Bool.not_eq_false _ ▸ hblank)] at h
    exact nomatch h

lemma Ends.dropWhile (h : Ends g l) : (g.bytes ++ l).dropWhile isAsciiWhitespace = l :=
  dropWhile_gap g h.not_blank

lemma endsWords_of_apart (h : endsWords none l = true)
    (hbefore : (∃ b, l.head? = some b ∧ isOp b = false) → before.all isAsciiWhitespace = true) :
    endsWords before l = true := by
  rw [endsWords, Bool.or_eq_true] at h ⊢
  refine h.imp id fun hdiag => ?_
  have hall := hbefore ⟨twoByte, isDiagOp_head hdiag, rfl⟩
  rw [isDiagOp, decide_eq_true_eq] at hdiag ⊢
  exact ⟨hdiag.1, hall⟩

lemma scan_gap (h : Ends g l) :
    scan endsWords .bare before (g.bytes ++ l) = (g.bytes, l, .bare) := by
  refine (passes_gap endsWords_blank).scan_eq (h.ends.imp id fun hends => endsWords_of_apart hends fun hapart =>
    ?_)
  -- the byte before a digit is the last of the white space
  obtain ⟨s, b, hs⟩ := (List.eq_nil_or_concat' g.bytes).resolve_left (h.apart hapart)
  have hb : isAsciiWhitespace b = true := g.blank b (hs ▸ List.mem_append_right s (List.mem_singleton_self b))
  rw [hs, List.getLast?_concat]
  exact hb

lemma scan_words (g₁ g₂ : Gap) (ws : Words) (h : Ends g₂ l) :
    scan endsWords .bare none (g₁.bytes ++ (ws.render ++ (g₂.bytes ++ l))) =
      (g₁.bytes ++ (ws.render ++ g₂.bytes), l, .bare) := by
  have hpasses : Passes endsWords (g₁.bytes ++ ws.render) :=
    (passes_gap endsWords_blank).append (passes_renderWords endsWords_mark endsWords_blank)
  rw [← List.append_assoc, hpasses, scan_gap h, List.append_assoc]

lemma span_name (w : Quoted) (h : Ends g l) :
    span (w.render ++ (g.bytes ++ l)) (fun b => isAsciiWhitespace b || isOp b) = (w.render, g.bytes ++ l) := by
  have hmark : IsMark w.mark := w.mark_eq
  have hpasses : Passes (stopAt fun b => isAsciiWhitespace b || isOp b) w.render :=
    passes_quoted w fun before l => by rw [stopAt_cons, hmark.not_blank, hmark.not_op, Bool.or_false]
  have hstop (before : Option UInt8) :
      g.bytes ++ l = [] ∨ stopAt (fun b => isAsciiWhitespace b || isOp b) before (g.bytes ++ l) = true := by
    cases hl : g.bytes ++ l with
    | nil => exact .inl rfl
    | cons b l' =>
      refine .inr ?_
      rw [stopAt_cons, Bool.or_eq_true]
      by_cases hg : g.bytes = []
      · rw [hg, List.nil_append] at hl
        refine .inr ?_
        by_contra hop
        exact absurd hg (h.apart ⟨b, by rw [hl]; rfl, Bool.eq_false_iff.mpr hop⟩)
      · exact .inl (head?_gap hg (l := l) (by rw [hl]; rfl))
  rw [span, hpasses.scan_eq (hstop _)]

variable {which : Which} {append : Bool}

lemma operator_spelling (happend : which = .input → append = false)
    (h : ∀ b, rest.head? = some b → b ≠ greaterByte) :
    operator (spelling which append ++ rest) = some (which, append, rest) := by
  have hrest : [greaterByte].isPrefixOf rest = false := by
    cases rest with
    | nil => rfl
    | cons b l => simpa [List.isPrefixOf] using Ne.symm (h b rfl)
  cases which with
  | input =>
    cases happend rfl
    rfl
  | output =>
    cases append with
    | true => rfl
    | false =>
      have hone : operator (greaterByte :: rest) =
        if [greaterByte].isPrefixOf rest then some (.output, true, rest.drop 1)
        else some (.output, false, rest) := rfl
      exact hone.trans (if_neg (Bool.eq_false_iff.mp hrest))
  | diagnostics =>
    cases append with
    | true => rfl
    | false =>
      have hone : operator (twoByte :: greaterByte :: rest) = if [greaterByte].isPrefixOf rest then
        some (.diagnostics, true, rest.drop 1) else some (.diagnostics, false, rest) := rfl
      exact hone.trans (if_neg (Bool.eq_false_iff.mp hrest))

lemma head?_spelling (h : (spelling which append ++ rest).head? = some b)
    (hop : isOp b = false) : which = .diagnostics := by
  cases which <;> cases append
  all_goals first
    | rfl
    | cases h
      exact nomatch hop

lemma blank_spelling (h : (spelling which append ++ rest).head? = some b) :
    isAsciiWhitespace b = false := by
  cases which <;> cases append
  all_goals
    cases h
    rfl

lemma endsWords_spelling : endsWords none (spelling which append ++ rest) = true := by
  cases which <;> cases append
  all_goals rfl

lemma ends_redirections (h : Ends g tail) :
    ∃ g' l, Ends g' l ∧ renderRedirections rs ++ (g.bytes ++ tail) = g'.bytes ++ l := by
  cases rs with
  | nil => exact ⟨g, tail, h, rfl⟩
  | cons r rs =>
    refine ⟨r.before, spelling r.which r.append ++ (r.after.bytes ++ (r.name.render ++ (renderRedirections rs ++
      (g.bytes ++ tail)))), ⟨.inr endsWords_spelling, fun ⟨b, hb, hop⟩ => r.apart (head?_spelling hb hop)⟩, ?_⟩
    simp only [renderRedirections, List.append_assoc]

def merge (acc : GrantPlan.Stage) (rs : List Redirection) : GrantPlan.Stage where
  text := acc.text
  input := acc.input.or ((rs.find? (·.which = .input)).map (·.name.word))
  output := acc.output.or ((rs.find? (·.which = .output)).map fun r => (r.name.word, r.append))
  diagnostics := acc.diagnostics.or ((rs.find? (·.which = .diagnostics)).map fun r => (r.name.word, r.append))

def Free (acc : GrantPlan.Stage) : Which → Prop
  | .input => acc.input = none
  | .output => acc.output = none
  | .diagnostics => acc.diagnostics = none

lemma merge_nil : merge acc [] = acc := by
  obtain ⟨text, input, output, diagnostics⟩ := acc
  simp [merge]

lemma redirect_eq (hfree : Free acc r.which) :
    ∃ acc', acc.redirect r.which r.append r.name.word = ok acc' ∧ merge acc' rs = merge acc (r :: rs) ∧
      ∀ which, which ≠ r.which → Free acc which → Free acc' which := by
  cases hwhich : r.which with
  | input =>
    have hnone : acc.input = none := by rwa [hwhich] at hfree
    refine ⟨{ acc with input := some r.name.word }, by rw [Stage.redirect, ensure_bind hnone]; rfl, ?_, ?_⟩
    · simp [merge, hwhich, hnone]
    · intro which hne h
      cases which <;> first | exact h | exact absurd rfl hne
  | output =>
    have hnone : acc.output = none := by rwa [hwhich] at hfree
    refine ⟨{ acc with output := some (r.name.word, r.append) }, by rw [Stage.redirect, ensure_bind hnone]; rfl,
      ?_, ?_⟩
    · simp [merge, hwhich, hnone]
    · intro which hne h
      cases which <;> first | exact h | exact absurd rfl hne
  | diagnostics =>
    have hnone : acc.diagnostics = none := by rwa [hwhich] at hfree
    refine ⟨{ acc with diagnostics := some (r.name.word, r.append) }, by
      rw [Stage.redirect, ensure_bind hnone]; rfl, ?_, ?_⟩
    · simp [merge, hwhich, hnone]
    · intro which hne h
      cases which <;> first | exact h | exact absurd rfl hne

lemma redirections_eq (hfree : ∀ r ∈ rs, Free acc r.which) (honce : (rs.map (·.which)).Nodup) (h : Ends g tail)
    (hstop : operator tail = none) {bytes : ℕ}
    (hbytes : ((renderRedirections rs ++ (g.bytes ++ tail)).dropWhile isAsciiWhitespace).length < bytes) :
    redirections bytes acc ((renderRedirections rs ++ (g.bytes ++ tail)).dropWhile isAsciiWhitespace) =
      ok (merge acc rs, tail) := by
  induction rs generalizing acc bytes with
  | nil =>
    obtain ⟨bytes, rfl⟩ := exists_eq_succ_of_ne_zero (ne_zero_of_lt hbytes)
    rw [renderRedirections, List.nil_append, h.dropWhile, redirections, hstop, merge_nil]
    rfl
  | cons r rs ih =>
    obtain ⟨bytes, rfl⟩ := exists_eq_succ_of_ne_zero (ne_zero_of_lt hbytes)
    obtain ⟨hr, hfree⟩ := List.forall_mem_cons.mp hfree
    obtain ⟨hnot, honce⟩ := List.nodup_cons.mp honce
    obtain ⟨acc', hredirect, hmerge, hkeep⟩ := @redirect_eq acc r rs hr
    have hfree' : ∀ r' ∈ rs, Free acc' r'.which := fun r' hr' =>
      hkeep r'.which (fun heq => hnot (List.mem_map.mpr ⟨r', hr', heq⟩)) (hfree r' hr')
    obtain ⟨g', l, hends, hl⟩ := @ends_redirections rs tail g h
    have hdrop : (renderRedirections (r :: rs) ++ (g.bytes ++ tail)).dropWhile isAsciiWhitespace =
        spelling r.which r.append ++ (r.after.bytes ++ (r.name.render ++ (g'.bytes ++ l))) := by
      simp only [renderRedirections, List.append_assoc, hl]
      exact dropWhile_gap r.before fun b => blank_spelling
    have hhead : ∀ b, (r.after.bytes ++ (r.name.render ++ (g'.bytes ++ l))).head? = some b → b ≠ greaterByte := by
      rintro b hb rfl
      rcases (framed_quoted r.name).head?_gap hb with hblank | hmark
      · exact nomatch hblank
      · exact nomatch hmark.not_op
    rw [hdrop] at hbytes ⊢
    rw [redirections, operator_spelling r.append_input hhead]
    dsimp only
    rw [(framed_quoted r.name).dropWhile, span_name r.name hends]
    rw [ensure_bind r.name.render_ne_nil, read_quoted, ofRead, ok_bind, hredirect, ok_bind, hends.dropWhile,
      ensure_bind hends.ends, ← hmerge]
    rw [hl, hends.dropWhile] at ih
    refine ih hfree' honce ?_
    simp only [List.length_append] at hbytes
    have := List.length_pos_iff.mpr r.name.render_ne_nil
    omega

end

section

variable {stage : Stage} {more : List (Gap × Gap × Stage)} {tail : Bytes}

def Stage.parsed (stage : Stage) : GrantPlan.Stage := merge ⟨stage.words.render, none, none, none⟩
    stage.redirections

lemma free_empty {text : Bytes} {which : Which} : Free ⟨text, none, none, none⟩ which := by
  cases which <;> rfl

lemma stage_step (g : Gap) {g' : Gap} (h : Ends g' tail) (hstop : operator tail = none) :
    ∃ text l, scan endsWords .bare none (g.bytes ++ (stage.render ++ (g'.bytes ++ tail))) = (text, l, .bare) ∧
      redirections (l.length + 1) ⟨trim text, none, none, none⟩ l = ok (stage.parsed, tail) := by
  obtain ⟨g'', l, hends, hl⟩ := @ends_redirections stage.redirections tail g' h
  refine ⟨g.bytes ++ (stage.words.render ++ g''.bytes), l, ?_, ?_⟩
  · rw [Stage.render, List.append_assoc, hl, scan_words g g'' stage.words hends]
  · have hframed : Framed stage.words.render := framed_renderWords
    have hredirections := @redirections_eq ⟨stage.words.render, none, none, none⟩ stage.redirections tail g'
      (fun _ _ => free_empty) stage.once h hstop _ (lt_succ_self _)
    rw [hl, hends.dropWhile] at hredirections
    rw [hframed.trim]
    exact hredirections

lemma stagesFrom_eq (g : Gap) {room : ℕ} (hroom : more.length < room) :
    stagesFrom room (g.bytes ++ renderStages stage more) = ok ((stage :: more.map (·.2.2)).map Stage.parsed) := by
  obtain ⟨room, rfl⟩ := exists_eq_succ_of_ne_zero (ne_zero_of_lt hroom)
  induction more generalizing g stage room with
  | nil =>
    have hends : Ends ⟨[], List.forall_mem_nil _⟩ [] := ⟨.inl rfl, fun ⟨b, hb, _⟩ => nomatch hb⟩
    obtain ⟨text, l, hscan, hredirections⟩ := @stage_step stage [] g _ hends rfl
    rw [List.append_nil, List.append_nil] at hscan
    rw [renderStages, stagesFrom, hscan]
    dsimp only
    rw [ensure_bind (by rfl), hredirections]
    rfl
  | cons p more ih =>
    obtain ⟨g₁, g₂, stage'⟩ := p
    obtain ⟨room, rfl⟩ := exists_eq_succ_of_ne_zero (ne_zero_of_lt (lt_of_succ_lt_succ hroom))
    have hends : Ends g₁ (pipeByte :: (g₂.bytes ++ renderStages stage' more)) := by
      refine ⟨.inr rfl, fun ⟨b, hb, hop⟩ => ?_⟩
      cases hb
      exact nomatch hop
    obtain ⟨text, l, hscan, hredirections⟩ := @stage_step stage _ g _ hends rfl
    rw [renderStages, stagesFrom, hscan]
    dsimp only
    rw [ensure_bind (by rfl), hredirections, ok_bind]
    dsimp only
    rw [if_pos rfl, ih g₂ room (lt_of_succ_lt_succ hroom)]
    rfl

lemma input_parsed : stage.parsed.input = (stage.target .input).map (·.name.word) := Option.none_or

lemma output_parsed : stage.parsed.output = (stage.target .output).map fun r => (r.name.word, r.append) := none_or

lemma diagnostics_parsed : stage.parsed.diagnostics = (stage.target .diagnostics).map fun r =>
    (r.name.word, r.append) :=
  none_or

lemma target_eq_none {which : Which} (h : ∀ r ∈ stage.redirections, r.which ≠ which) : stage.target which = none :=
  List.find?_eq_none.mpr fun r hr heq => h r hr (of_decide_eq_true heq)

lemma isPatternName_quoted {r : Option Redirection} : Line.isPatternName (r.map (·.name.word)) = false := by
  cases r <;> rfl

lemma getLast?_parsed (seg : Segment) : (seg.stages.map Stage.parsed).getLast? = some seg.last.parsed := by
  rw [List.getLast?_map]
  exact congrArg (Option.map Stage.parsed) (List.getLast?_eq_some_getLast (List.cons_ne_nil _ _))

lemma head?_parsed (seg : Segment) : (seg.stages.map Stage.parsed).head? = some seg.first.parsed := rfl

lemma assemble_parsed (seg : Segment) : Line.assemble (seg.stages.map Stage.parsed) = seg.line := by
  rw [Line.assemble, getLast?_parsed, head?_parsed, Segment.line, List.map_map]
  simp only [bind_some, input_parsed, output_parsed, diagnostics_parsed, map_map, any_map]
  rfl

lemma split_segment (seg : Segment) : Line.split seg.render = ok seg.line := by
  have hstages := @stagesFrom_eq seg.first seg.more ⟨[], List.forall_mem_nil _⟩ _ (lt_of_succ_le seg.length_le)
  rw [List.nil_append, ← Segment.stages] at hstages
  have htext : ∀ stage ∈ seg.stages.map Stage.parsed, stage.text ≠ [] :=
    List.forall_mem_map.mpr fun stage _ => (framed_renderWords (w := stage.words.first)).ne_nil
  have hinput : ∀ stage ∈ (seg.stages.map Stage.parsed).tail, stage.input = none := by
    rw [Segment.stages, List.map_cons, List.tail_cons]
    refine List.forall_mem_map.mpr (List.forall_mem_map.mpr fun p hp => ?_)
    rw [input_parsed, target_eq_none (seg.input_first p hp), map_none]
  have houtput : ∀ stage ∈ (seg.stages.map Stage.parsed).dropLast, stage.output = none ∧
    stage.diagnostics = none := by
    rw [← List.map_dropLast]
    refine List.forall_mem_map.mpr fun stage hstage => ?_
    have hwhich := seg.output_last stage hstage
    rw [output_parsed, diagnostics_parsed, target_eq_none fun r hr => by rw [hwhich r hr]; decide,
      target_eq_none fun r hr => by rw [hwhich r hr]; decide]
    exact ⟨rfl, rfl⟩
  rw [Line.split, Segment.render, hstages, ok_bind, ensure_bind (.inr htext), ensure_bind hinput,
    ensure_bind houtput, ensure_bind]
  · exact congrArg ok (assemble_parsed seg)
  · rw [getLast?_parsed, head?_parsed, bind_some, bind_some, bind_some, input_parsed, output_parsed,
      diagnostics_parsed, map_map, map_map]
    exact ⟨isPatternName_quoted, isPatternName_quoted, isPatternName_quoted⟩

end

section

variable {b : UInt8} {s l : Bytes} {stage : Stage} {seg : Segment} {trail : Gap}

lemma connector_of_ne (h₁ : b ≠ 0x3b) (h₂ : b ≠ 0x26) (h₃ : b ≠ 0x7c) : connector (b :: l) = none := by
  simp [connector, List.isPrefixOf, Ne.symm h₁, Ne.symm h₂, Ne.symm h₃]

lemma connector_pipe (h : ∀ b, l.head? = some b → b ≠ pipeByte) : connector (pipeByte :: l) = none := by
  cases l with
  | nil => rfl
  | cons b l =>
    have hb : (0x7c : UInt8) ≠ b := (h b rfl).symm
    simp [connector, List.isPrefixOf, pipeByte, hb]

def cuts (_ : Option UInt8) (l : Bytes) : Bool := (connector l).isSome

lemma cuts_blank (b : UInt8) (hb : isAsciiWhitespace b = true) (before : Option UInt8) (l : Bytes) :
    cuts before (b :: l) = false := by
  rw [cuts, connector_of_ne]
  · rfl
  all_goals rcases isAsciiWhitespace_iff.mp hb with rfl | rfl | rfl | rfl | rfl <;> decide

lemma cuts_mark (b : UInt8) (hb : IsMark b) (before : Option UInt8) (l : Bytes) :
    cuts before (b :: l) = false := by
  rw [cuts, connector_of_ne]
  · rfl
  all_goals rcases hb with rfl | rfl <;> decide

lemma passes_spelling {which : Which} {append : Bool} : Passes cuts (spelling which append) := by
  have hless {s : Bytes} (hs : Passes cuts s) : Passes cuts (lessByte :: s) := passes_cons (fun _ _ => rfl) rfl hs
  have hgreater {s : Bytes} (hs : Passes cuts s) : Passes cuts (greaterByte :: s) :=
    passes_cons (fun _ _ => rfl) rfl hs
  have htwo {s : Bytes} (hs : Passes cuts s) : Passes cuts (twoByte :: s) := passes_cons (fun _ _ => rfl) rfl hs
  cases which with
  | input => exact hless passes_nil
  | output =>
    cases append with
    | false => exact hgreater passes_nil
    | true => exact hgreater (hgreater passes_nil)
  | diagnostics =>
    cases append with
    | false => exact htwo (hgreater passes_nil)
    | true => exact htwo (hgreater (hgreater passes_nil))

lemma passes_redirections {rs : List Redirection} : Passes cuts (renderRedirections rs) := by
  induction rs with
  | nil => exact passes_nil
  | cons r rs ih =>
    have hname := passes_quoted r.name (cuts_mark r.name.mark r.name.mark_eq)
    exact (passes_gap cuts_blank).append (passes_spelling.append
      ((passes_gap cuts_blank).append (hname.append ih)))

lemma framed_redirections {rs : List Redirection} (hs : Framed s) : Framed (s ++ renderRedirections rs) := by
  induction rs generalizing s with
  | nil => rwa [renderRedirections, List.append_nil]
  | cons r rs ih =>
    have hframed := ih (hs.append (framed_quoted r.name)
      (r.before.bytes ++ (spelling r.which r.append ++ r.after.bytes)))
    simpa only [renderRedirections, List.append_assoc] using hframed

lemma passes_stage : Passes cuts stage.render := (passes_renderWords cuts_mark cuts_blank).append
    passes_redirections

lemma framed_stage : Framed stage.render := framed_redirections framed_renderWords

lemma framed_renderStages {more : List (Gap × Gap × Stage)} : Framed (renderStages stage more) := by
  induction more generalizing stage with
  | nil => exact framed_stage
  | cons p more ih =>
    have hframed := (@framed_stage stage).append (@ih p.2.2) (p.1.bytes ++ pipeByte :: p.2.1.bytes)
    simpa only [renderStages, List.append_assoc, List.cons_append] using hframed

lemma passes_renderStages {more : List (Gap × Gap × Stage)} : Passes cuts (renderStages stage more) := by
  induction more generalizing stage with
  | nil => exact passes_stage
  | cons p more ih =>
    refine passes_stage.append ((passes_gap cuts_blank).append
      (passes_cons ?_ rfl ((passes_gap cuts_blank).append ih)))
    intro before l
    rw [cuts, connector_pipe]
    · rfl
    · rintro b hb rfl
      rw [List.append_assoc] at hb
      rcases framed_renderStages.head?_gap hb with hblank | hmark
      · exact nomatch hblank
      · exact nomatch hmark.not_op

lemma cutSegment_eq (g g' : Gap) (seg : Segment) (hl : l = [] ∨ (connector l).isSome = true) :
    cutSegment (g.bytes ++ (seg.render ++ (g'.bytes ++ l))) = (g.bytes ++ (seg.render ++ g'.bytes), l, .bare) := by
  have hpasses : Passes cuts (g.bytes ++ (seg.render ++ g'.bytes)) :=
    (passes_gap cuts_blank).append (passes_renderStages.append (passes_gap cuts_blank))
  rw [← List.append_assoc, ← List.append_assoc, List.append_assoc g.bytes]
  exact hpasses.scan_eq hl

lemma segmentsFrom_eq (g : Gap) {more : List (Gap × Connector × Gap × Segment)} {room : ℕ} (joint : Joint)
    (hroom : more.length < room) :
    segmentsFrom room joint (g.bytes ++ renderSegments trail seg more) =
      .ok ((joint, seg.render) :: more.map fun p => (p.2.1.joint, p.2.2.2.render)) := by
  have hframed (seg : Segment) : Framed seg.render := framed_renderStages
  obtain ⟨room, rfl⟩ := exists_eq_succ_of_ne_zero (ne_zero_of_lt hroom)
  induction more generalizing g seg joint room with
  | nil =>
    have hcut := cutSegment_eq g trail seg (.inl rfl)
    rw [List.append_nil] at hcut
    rw [renderSegments, segmentsFrom, hcut]
    rw [(hframed seg).trim]
    exact if_neg (hframed seg).ne_nil
  | cons p more ih =>
    obtain ⟨g₁, c, g₂, seg'⟩ := p
    obtain ⟨room, rfl⟩ := exists_eq_succ_of_ne_zero (ne_zero_of_lt (lt_of_succ_lt_succ hroom))
    have hc {l : Bytes} : connector (c.render ++ l) = some (c.joint, l) := by
      cases c <;> rfl
    rw [renderSegments, segmentsFrom, cutSegment_eq g g₁ seg (.inr (by rw [hc]; rfl))]
    rw [hc]
    dsimp only
    rw [(hframed seg).trim, if_neg (hframed seg).ne_nil, ih g₂ c.joint room (lt_of_succ_lt_succ hroom)]
    rfl

end

/-- Every line of quoted words is read back as it was written: its segments and joints, the stages and
redirections of each, and the words of every stage. -/
theorem grammar_round_trips (line : Typed) :
    Sequence.split line.render = .ok (line.segments.map fun p => (p.1, p.2.render)) ∧
      ∀ p ∈ line.segments, Line.split p.2.render = ok p.2.line ∧
        ∀ stage ∈ p.2.stages, (tokenize stage.words.render maxTokens).map GrantPlan.read =
          stage.words.all.map fun w => .ok ⟨w.text, true⟩ := by
  refine ⟨?_, fun p _ => ⟨split_segment p.2, fun stage _ => tokenize_words stage.words⟩⟩
  rw [Sequence.split, Typed.render, segmentsFrom_eq line.lead .first (Nat.lt_of_succ_le line.length_le)]
  simp only [Typed.segments, List.map_cons, List.map_map]
  rfl

def blank : Gap := ⟨[0x20], List.forall_mem_singleton.mpr rfl⟩

def oneWord (text : Bytes) (h : singleQuote ∉ text) : Words :=
  ⟨⟨singleQuote, text, .inl rfl, h⟩, [], by simp, by decide⟩

def sampleLine : Typed where
  lead := blank
  first := ⟨⟨oneWord (ascii "a;") (by decide), [], List.nodup_nil⟩,
    [(blank, blank, ⟨oneWord (ascii "b |") (by decide),
      [⟨blank, .diagnostics, true, blank, (oneWord (ascii "c") (by decide)).first, by decide, by decide⟩],
      by decide⟩)], by decide, by simp, by simp⟩
  more := [(blank, .and, blank,
    ⟨⟨oneWord (ascii "d") (by decide), [], List.nodup_nil⟩, [], by decide, by simp, by simp⟩)]
  trail := blank
  length_le := by decide

theorem grammar_round_trips_sample : sampleLine.render = ascii " 'a;' | 'b |' 2>> 'c' && 'd' " ∧
    Sequence.split sampleLine.render = .ok [(.first, ascii "'a;' | 'b |' 2>> 'c'"), (.onSuccess, ascii "'d'")] ∧
    Line.split (ascii "'a;' | 'b |' 2>> 'c'") =
      ok ⟨[ascii "'a;'", ascii "'b |'"], none, none, some (ascii "c"), false, true⟩ := by
  obtain ⟨hsplit, hlines⟩ := grammar_round_trips sampleLine
  exact ⟨by decide +kernel, hsplit, (hlines _ List.mem_cons_self).1⟩

end CrickerOs.Swish.Grammar
