import CrickerOs.GrantPlan.Line
import CrickerOs.Swish.Sequence

namespace CrickerOs.Swish

open Library GrantPlan List Option

structure Quoted where
  mark : UInt8
  text : Bytes
  mark_eq : mark = singleQuote ∨ mark = doubleQuote
  notMem : mark ∉ text

structure Gap where
  bytes : Bytes
  blank : ∀ b ∈ bytes, isAsciiWhitespace b = true

def Quoted.render (w : Quoted) : Bytes := w.mark :: (w.text ++ [w.mark])

def Quoted.word (w : Quoted) : Word := ⟨w.text, true⟩

def Passes (stop : Option UInt8 → Bytes → Bool) (s : Bytes) : Prop :=
  ∀ before l, scan stop .bare before (s ++ l) =
    (s ++ (scan stop .bare (s.getLast?.or before) l).1, (scan stop .bare (s.getLast?.or before) l).2)

lemma isAsciiWhitespace_iff {b : UInt8} :
    isAsciiWhitespace b = true ↔ b = 0x20 ∨ b = 0x09 ∨ b = 0x0a ∨ b = 0x0c ∨ b = 0x0d := decide_eq_true_iff

section

variable {stop : Option UInt8 → Bytes → Bool} {s t l : Bytes} {before : Option UInt8} {b : UInt8}

lemma passes_nil : Passes stop [] := fun _ _ => rfl

lemma Passes.append (hs : Passes stop s) (ht : Passes stop t) : Passes stop (s ++ t) := by
  intro before l
  rw [append_assoc, hs before (t ++ l), ht, getLast?_append, Option.or_assoc, append_assoc]

lemma passes_cons (hstop : ∀ before l, stop before (b :: (s ++ l)) = false) (hb : (Quote.bare.step b).1 = .bare)
    (hs : Passes stop s) : Passes stop (b :: s) := by
  intro before l
  rw [cons_append, scan, hstop, Bool.and_false, if_neg Bool.false_ne_true, hb, hs (some b) l, getLast?_cons]
  cases s.getLast? <;> rfl

lemma scan_stops (h : l = [] ∨ stop before l = true) : scan stop .bare before l = ([], l, .bare) := by
  cases l with
  | nil => rfl
  | cons b l =>
    rcases h with h | h
    · exact nomatch h
    · rw [scan, h]
      rfl

lemma Passes.scan_eq (hs : Passes stop s) (hl : l = [] ∨ stop (s.getLast?.or before) l = true) :
    scan stop .bare before (s ++ l) = (s, l, .bare) := by
  rw [hs before l, scan_stops hl, append_nil]

lemma passes_gap {g : Gap} (hstop : ∀ b, isAsciiWhitespace b = true → ∀ before l, stop before (b :: l) = false) :
    Passes stop g.bytes := by
  obtain ⟨s, hblank⟩ := g
  induction s with
  | nil => exact passes_nil
  | cons b s ih =>
    obtain ⟨hb, hs⟩ := forall_mem_cons.mp hblank
    refine passes_cons (fun before l => hstop b hb before _) ?_ (ih hs)
    rcases isAsciiWhitespace_iff.mp hb with rfl | rfl | rfl | rfl | rfl <;> rfl

lemma scan_quoted {q : Quote} {mark : UInt8} (hopen : q.isOpen = true) (hclose : (q.step mark).1 = .bare)
    (hkeep : ∀ b, b ≠ mark → (q.step b).1 = q) (hs : mark ∉ s) :
    scan stop q before (s ++ mark :: l) =
      (s ++ mark :: (scan stop .bare (some mark) l).1, (scan stop .bare (some mark) l).2) := by
  induction s generalizing before with
  | nil => rw [nil_append, scan, hopen, Bool.not_true, Bool.false_and, if_neg Bool.false_ne_true, hclose,
      nil_append]
  | cons b s ih =>
    obtain ⟨hb, hs⟩ := not_or.mp (mt mem_cons.mpr hs)
    rw [cons_append, scan, hopen, Bool.not_true, Bool.false_and, if_neg Bool.false_ne_true, hkeep b (Ne.symm hb),
      ih hs, cons_append]

lemma passes_quoted (w : Quoted) (hstop : ∀ before l, stop before (w.mark :: l) = false) :
    Passes stop w.render := by
  obtain ⟨mark, text, hmark, hnot⟩ := w
  obtain ⟨q, hq, hopen, hclose, hkeep⟩ : ∃ q, (Quote.bare.step mark).1 = q ∧ q.isOpen = true ∧
      (q.step mark).1 = .bare ∧ ∀ b, b ≠ mark → (q.step b).1 = q := by
    rcases hmark with rfl | rfl
    · exact ⟨.single, rfl, rfl, rfl, fun b hb => by rw [Quote.step, if_neg hb]⟩
    · exact ⟨.double, rfl, rfl, rfl, fun b hb => by rw [Quote.step, if_neg hb]⟩
  intro before l
  have hlast : (mark :: (text ++ [mark])).getLast? = some mark := by rw [← cons_append, getLast?_concat]
  rw [Quoted.render, hlast, cons_append, scan, hstop, Bool.and_false, if_neg Bool.false_ne_true, hq,
    append_assoc, singleton_append, scan_quoted hopen hclose hkeep hnot, cons_append, append_assoc]
  rfl

end

section

def IsMark (b : UInt8) : Prop := b = singleQuote ∨ b = doubleQuote

structure Framed (s : Bytes) : Prop where
  first : ∃ b, s.head? = some b ∧ IsMark b
  last : ∃ b, s.getLast? = some b ∧ IsMark b

variable {s t : Bytes} {b : UInt8} {l : Bytes}

lemma IsMark.not_blank (h : IsMark b) : isAsciiWhitespace b = false := by
  rcases h with rfl | rfl <;> rfl

lemma IsMark.not_op (h : IsMark b) : isOp b = false := by
  rcases h with rfl | rfl <;> rfl

lemma Framed.ne_nil (hs : Framed s) : s ≠ [] := by
  rintro rfl
  obtain ⟨b, hb, -⟩ := hs.first
  exact nomatch hb

lemma framed_quoted (w : Quoted) : Framed w.render :=
  ⟨⟨w.mark, rfl, w.mark_eq⟩, w.mark, by rw [Quoted.render, ← cons_append, getLast?_concat], w.mark_eq⟩

lemma Framed.append (hs : Framed s) (ht : Framed t) (between : Bytes) : Framed (s ++ (between ++ t)) := by
  obtain ⟨b, hb, hmark⟩ := hs.first
  obtain ⟨c, hc, hmark'⟩ := ht.last
  refine ⟨⟨b, ?_, hmark⟩, c, ?_, hmark'⟩
  · rw [head?_append, hb, some_or]
  · rw [getLast?_append, getLast?_append, hc, some_or, some_or]

lemma Quoted.render_ne_nil (w : Quoted) : w.render ≠ [] := cons_ne_nil _ _

lemma head?_gap {g : Gap} (hne : g.bytes ≠ []) (h : (g.bytes ++ l).head? = some b) :
    isAsciiWhitespace b = true := by
  obtain ⟨c, s, hs⟩ := exists_cons_of_ne_nil hne
  rw [hs] at h
  obtain rfl := some.inj h
  exact g.blank c (hs ▸ mem_cons_self)

lemma Framed.head?_gap (hs : Framed s) {g : Gap} (h : (g.bytes ++ (s ++ l)).head? = some b) :
    isAsciiWhitespace b = true ∨ IsMark b := by
  by_cases hg : g.bytes = []
  · obtain ⟨c, hc, hmark⟩ := hs.first
    rw [hg, nil_append, head?_append, hc, some_or] at h
    exact .inr (some.inj h ▸ hmark)
  · exact .inl (Swish.head?_gap hg h)

lemma dropWhile_gap (g : Gap) (hl : ∀ b, l.head? = some b → isAsciiWhitespace b = false) :
    (g.bytes ++ l).dropWhile isAsciiWhitespace = l := by
  rw [dropWhile_append_of_pos g.blank]
  cases l with
  | nil => rfl
  | cons b l => rw [dropWhile_cons_of_neg (by rw [hl b rfl]; exact Bool.false_ne_true)]

lemma Framed.dropWhile (hs : Framed s) (g : Gap) (l : Bytes) :
    (g.bytes ++ (s ++ l)).dropWhile isAsciiWhitespace = s ++ l := by
  obtain ⟨b, hb, hmark⟩ := hs.first
  refine dropWhile_gap g fun c hc => ?_
  rw [head?_append, hb, some_or] at hc
  exact some.inj hc ▸ hmark.not_blank

lemma Framed.trim (hs : Framed s) (g g' : Gap) : GrantPlan.trim (g.bytes ++ (s ++ g'.bytes)) = s := by
  obtain ⟨b, hb, hmark⟩ := hs.last
  have hblank : ∀ c ∈ g'.bytes.reverse, isAsciiWhitespace c = true := fun c hc => g'.blank c (mem_reverse.mp hc)
  rw [GrantPlan.trim, hs.dropWhile, rdropWhile, reverse_append, dropWhile_append_of_pos hblank,
    dropWhile_eq_self_iff.mpr, reverse_reverse]
  intro hlength
  have hget : s.reverse[0] = b := by
    rw [← some_inj, ← hb, ← head?_reverse, head?_eq_getElem?, getElem?_eq_getElem hlength]
  rw [hget, hmark.not_blank]
  exact Bool.false_ne_true

lemma read_quoted (w : Quoted) : read w.render = .ok w.word := by
  obtain ⟨mark, text, hmark, hnot⟩ := w
  have hfind : (text ++ [mark]).findIdx? (· = mark) = some text.length := by
    rw [findIdx?_append, findIdx?_eq_none_iff.mpr fun b hb => decide_eq_false (ne_of_mem_of_not_mem hb hnot)]
    simp
  have hnot' : ¬ (mark ≠ singleQuote ∧ mark ≠ doubleQuote) := fun h => hmark.elim h.1 h.2
  simp only [Quoted.render, GrantPlan.read, if_neg hnot', hfind, length_cons, length_append, length_nil,
    dropLast_concat, Quoted.word, if_true]

end

lemma stopAt_cons {stop : UInt8 → Bool} {before : Option UInt8} {b : UInt8} {l : Bytes} :
    stopAt stop before (b :: l) = stop b := rfl

lemma tokenizeFrom_token (g : Gap) {b : UInt8} {s l : Bytes} {room : ℕ} (hb : isAsciiWhitespace b = false)
    (hpasses : Passes (stopAt isAsciiWhitespace) (b :: s))
    (hl : ∀ b, l.head? = some b → isAsciiWhitespace b = true) :
    tokenizeFrom (room + 1) .bare (g.bytes ++ (b :: s ++ l)) = (b :: s) :: tokenizeFrom room .bare l := by
  have hbare : ¬ Quote.bare.isOpen = true := Bool.false_ne_true
  have hhead : ∀ b', (b :: s ++ l).head? = some b' → isAsciiWhitespace b' = false := fun b' hb' =>
    some.inj hb' ▸ hb
  have hnext : nextToken .bare (g.bytes ++ (b :: s ++ l)) = (b :: s, l, .bare) := by
    rw [nextToken, if_neg hbare, dropWhile_gap g hhead]
    refine hpasses.scan_eq ?_
    cases l with
    | nil => exact .inl rfl
    | cons b l => exact .inr (stopAt_cons.trans (hl b rfl))
  rw [tokenizeFrom, hnext]
  exact if_neg (cons_ne_nil _ _)

lemma tokenizeFrom_quoted (g : Gap) (w : Quoted) {l : Bytes}
    (hl : ∀ b, l.head? = some b → isAsciiWhitespace b = true) {room : ℕ} :
    tokenizeFrom (room + 1) .bare (g.bytes ++ (w.render ++ l)) = w.render :: tokenizeFrom room .bare l :=
  tokenizeFrom_token g (IsMark.not_blank w.mark_eq)
    (passes_quoted w fun _ _ => stopAt_cons.trans (IsMark.not_blank w.mark_eq)) hl

lemma tokenizeFrom_nil {room : ℕ} : tokenizeFrom room .bare [] = [] := by
  cases room <;> rfl

end CrickerOs.Swish
