import CrickerOs.GrantPlan.Account
import CrickerOs.Swish.Grammar

namespace CrickerOs.Swish

open Library Library.Outcome GrantPlan

structure Plain (p : Bytes) : Prop where
  ne_nil : p ≠ []
  not_blank : ∀ b ∈ p, isAsciiWhitespace b = false
  not_mark : ∀ b ∈ p, ¬ IsMark b

inductive Arg
  | plain (p : Bytes) (h : Plain p)
  | quoted (w : Quoted)

def Arg.render : Arg → Bytes
  | plain p _ => p
  | quoted w => w.render

def Arg.word : Arg → Word
  | plain p _ => ⟨p, false⟩
  | quoted w => w.word

/-- The slots of a program that name files. -/
inductive Slot
  | file | dir | input

namespace Slot

def index (m : Manifest) : Slot → ℕ
  | file => argCount m
  | dir => argCount m + fileCount m
  | input => argCount m + fileCount m + dirCount m

end Slot

section

variable {name : Bytes} {holds : Holdings} {expanded : Expansion} {i : ℕ}

variable (h : Nav.ComponentFits name)
include h

end

section

variable {p : Bytes} {l : Bytes}

lemma Plain.passes (h : Plain p) : Passes (stopAt isAsciiWhitespace) p := by
  obtain ⟨-, hblank, hmark⟩ := h
  induction p with
  | nil => exact passes_nil
  | cons b p ih =>
    obtain ⟨hb, hblank⟩ := List.forall_mem_cons.mp hblank
    obtain ⟨hb', hmark⟩ := List.forall_mem_cons.mp hmark
    obtain ⟨hsingle, hdouble⟩ := not_or.mp hb'
    refine passes_cons (fun _ _ => stopAt_cons.trans hb) ?_ (ih hblank hmark)
    rw [Quote.step, if_neg hsingle, if_neg hdouble]

lemma Plain.read (h : Plain p) : GrantPlan.read p = .ok ⟨p, false⟩ := by
  have hsingle : singleQuote ∉ p := fun hmem => h.not_mark _ hmem (.inl rfl)
  have hdouble : doubleQuote ∉ p := fun hmem => h.not_mark _ hmem (.inr rfl)
  obtain ⟨b, p, rfl⟩ := List.exists_cons_of_ne_nil h.ne_nil
  obtain ⟨hb, hb'⟩ := not_or.mp (h.not_mark b List.mem_cons_self)
  rw [GrantPlan.read, if_pos ⟨hb, hb'⟩, if_neg (not_or.mpr ⟨hsingle, hdouble⟩)]

lemma Arg.read (a : Arg) : GrantPlan.read a.render = .ok a.word := by
  cases a with
  | plain p h => exact h.read
  | quoted w => exact read_quoted w

lemma Arg.tokenizeFrom (g : Gap) (a : Arg) {room : ℕ} (hl : ∀ b, l.head? = some b → isAsciiWhitespace b = true) :
    GrantPlan.tokenizeFrom (room + 1) .bare (g.bytes ++ (a.render ++ l)) =
      a.render :: GrantPlan.tokenizeFrom room .bare l := by
  cases a with
  | plain p h =>
    obtain ⟨b, p, rfl⟩ := List.exists_cons_of_ne_nil h.ne_nil
    exact tokenizeFrom_token g (h.not_blank b List.mem_cons_self) h.passes hl
  | quoted w => exact tokenizeFrom_quoted g w hl

variable {args : List (Gap × Arg)}

end

section

variable {m : Manifest} {run : RunSpec} {holds : Holdings} {expanded : Expansion} {streams : Streams}
  {e : Endowment}
  {i n n₁ n₂ n₃ n₄ : ℕ} {v w : Word}

/-- The same line with another word for the operand at `i`. -/
def replace (run : RunSpec) (i : ℕ) (v : Word) : RunSpec := { run with pos := run.pos.set i v }

variable {g : FileGrant}

variable {slot : Slot} {prog : Prog} {q : Quoted}

end

section

open Grammar

variable {c l : Bytes} {q q' : Quote} {before : Option UInt8}

end

end CrickerOs.Swish
