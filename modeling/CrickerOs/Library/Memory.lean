import CrickerOs.Library.Programs

/-! Byte-addressed memory with little-endian words, and programs whose effects are accesses to it. Another party
may write the memory a program reads, so a read is answered with any word. -/

namespace CrickerOs.Library

def Memory := ℕ → ℕ

namespace Memory

variable {m m' : Memory} {n bytes a b v : ℕ}

def load (m : Memory) : ℕ → ℕ → ℕ
  | 0, _ => 0
  | bytes + 1, a => m a % 256 + 256 * load m bytes (a + 1)

def store (m : Memory) (bytes a v : ℕ) : Memory :=
  fun x => if a ≤ x ∧ x < a + bytes then v / 256 ^ (x - a) % 256 else m x

lemma load_congr (h : ∀ x, a ≤ x → x < a + bytes → m x = m' x) : m.load bytes a = m'.load bytes a := by
  induction bytes generalizing a with
  | zero => rfl
  | succ bytes ih =>
    rw [load, load, h a le_rfl (by omega), ih fun x hl hr => h x (by omega) (by omega)]

lemma load_store_same : (m.store bytes a v).load bytes a = v % 256 ^ bytes := by
  induction bytes generalizing m a v with
  | zero => simp [load, Nat.mod_one]
  | succ bytes ih =>
    have htail : (m.store (bytes + 1) a v).load bytes (a + 1) =
        (m.store bytes (a + 1) (v / 256)).load bytes (a + 1) := by
      refine load_congr fun x hl hr => ?_
      have hx : x - a = x - (a + 1) + 1 := by omega
      simp only [store]
      rw [if_pos (by omega), if_pos (by omega), hx, pow_succ', Nat.div_div_eq_div_mul]
    rw [load, htail, ih, store, if_pos (by omega), Nat.sub_self, pow_zero, Nat.div_one, Nat.mod_mod, pow_succ',
      Nat.mod_mul]

lemma load_store_of_disjoint (h : b + bytes ≤ a ∨ a + n ≤ b) : (m.store n a v).load bytes b = m.load bytes b := by
  refine load_congr fun x hl hr => ?_
  exact if_neg (by omega)

end Memory

inductive Access
  | read (bytes addr : ℕ)
  | write (bytes addr value : ℕ)
  deriving DecidableEq

def Access.Inside (first last : ℕ) : Access → Prop
  | .read bytes addr | .write bytes addr _ => first ≤ addr ∧ addr + bytes ≤ last

abbrev Bus := Prog Access ℕ

namespace Bus

def read (bytes addr : ℕ) : Bus ℕ :=
  .effect (.read bytes addr) fun word => .pure (word % 256 ^ bytes)

def write (bytes addr value : ℕ) : Bus Unit :=
  .effect (.write bytes addr value) fun _ => .pure ()

variable {κ σ : Type} {c : Contract κ σ Access ℕ} {call : κ} {s : σ} {bytes addr value : ℕ}

@[simp]
lemma performs_read {P : Access → Prop} {post : ℕ → Prop} :
    (read bytes addr).Performs P post ↔ P (.read bytes addr) ∧ ∀ word, post (word % 256 ^ bytes) :=
  Iff.rfl

@[simp]
lemma performs_write {P : Access → Prop} {post : Unit → Prop} :
    (write bytes addr value).Performs P post ↔ P (.write bytes addr value) ∧ (ℕ → post ()) :=
  Iff.rfl

@[simp]
lemma meets_read {post : ℕ → σ → Prop} :
    (read bytes addr).Meets c call post s ↔ c.safe call s (.read bytes addr) ∧ (c.ok s (.read bytes addr) → ∀ word,
      c.inv (c.apply (.read bytes addr) word s) ∧ post (word % 256 ^ bytes) (c.apply (.read bytes addr) word s)) :=
  Iff.rfl

@[simp]
lemma meets_write {post : Unit → σ → Prop} :
    (write bytes addr value).Meets c call post s ↔
      c.safe call s (.write bytes addr value) ∧ (c.ok s (.write bytes addr value) → ∀ word,
        c.inv (c.apply (.write bytes addr value) word s) ∧ post () (c.apply (.write bytes addr value) word s)) :=
  Iff.rfl

end Bus

def Memory.perform : Access → ℕ → Memory → Memory
  | .read _ _, _, m => m
  | .write bytes addr value, _, m => m.store bytes addr value

end CrickerOs.Library
