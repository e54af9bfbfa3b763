import CrickerOs.Library.Outcome

namespace CrickerOs.Library

variable {σ ε α β : Type}

namespace Outcome

def Comes (may : Prop) (post : α → Prop) : Outcome ε α → Prop
  | ok a => post a
  | error _ => False
  | panic => may

variable {may : Prop} {x : Outcome ε α} {f : α → Outcome ε β} {post post' : α → Prop}

lemma Comes.bind {post : β → Prop} (h : x.Comes may fun a => (f a).Comes may post) : (x >>= f).Comes may post := by
  cases x with
  | ok a => exact h
  | error e => exact h
  | panic => exact h

lemma Comes.mono (h : x.Comes may post) (hpost : ∀ a, post a → post' a) : x.Comes may post' := by
  cases x with
  | ok a => exact hpost a h
  | error e => exact h
  | panic => exact h

lemma Comes.exists_ok (h : x.Comes may post) (hmay : ¬ may) : ∃ a, x = ok a ∧ post a := by
  cases x with
  | ok a => exact ⟨a, rfl, h⟩
  | error e => exact h.elim
  | panic => exact absurd h hmay

lemma comes_add {w a b : ℕ} {post : ℕ → Prop} (hpost : a + b < 2 ^ w → post (a + b)) (hmay : 2 ^ w ≤ a + b → may) :
    (add w a b : Outcome ε ℕ).Comes may post := by
  rw [add]
  split_ifs with h
  · exact hpost h
  · exact hmay (not_lt.mp h)

lemma comes_foldlM {γ : Type} {g : α → γ → Outcome ε α} {l : List γ} {a : α} (ha : post a)
    (hstep : ∀ a, post a → ∀ c ∈ l, (g a c).Comes may post) : (l.foldlM g a).Comes may post := by
  induction l generalizing a with
  | nil => exact ha
  | cons c l ih =>
    rw [List.foldlM_cons]
    refine Comes.bind ((hstep a ha c List.mem_cons_self).mono fun a' ha' => ?_)
    exact ih ha' fun a ha c hc => hstep a ha c (List.mem_cons_of_mem _ hc)

end Outcome

section

variable {m : StateT σ (Outcome ε) α} {f : α → StateT σ (Outcome ε) β} {s : σ}

lemma run_bind : (m >>= f) s = (m s >>= fun p => f p.1 p.2 : Outcome ε (β × σ)) := rfl

lemma run_lift {x : Outcome ε α} : (liftM x : StateT σ (Outcome ε) α) s = (x >>= fun a => .ok (a, s)) := by
  cases x <;> rfl

end

def Settles (may : Prop) (m : StateT σ (Outcome ε) α) (s : σ) (post : α → σ → Prop) : Prop :=
  (m s).Comes may fun p => post p.1 p.2

namespace Settles

variable {may : Prop} {m : StateT σ (Outcome ε) α} {f : α → StateT σ (Outcome ε) β} {s : σ}
  {post post' : α → σ → Prop}

lemma pure {a : α} (h : post a s) : Settles may (Pure.pure a : StateT σ (Outcome ε) α) s post := h

lemma bind {post : β → σ → Prop} (h : Settles may m s fun a s' => Settles may (f a) s' post) :
    Settles may (m >>= f) s post := by
  rw [Settles, run_bind]
  exact Outcome.Comes.bind h

lemma mono (h : Settles may m s post) (hpost : ∀ a s', post a s' → post' a s') : Settles may m s post' :=
  Outcome.Comes.mono h fun _ => hpost _ _

lemma get_bind {f : σ → StateT σ (Outcome ε) α} (h : Settles may (f s) s post) : Settles may (get >>= f) s post :=
  h

lemma set_bind {t : σ} {f : PUnit → StateT σ (Outcome ε) α} (h : Settles may (f ⟨⟩) t post) :
    Settles may (set t >>= f) s post := h

lemma keep (h : Settles may m s post) : Settles may m s fun a s' => post a s' ∧ m s = .ok (a, s') := by
  rw [Settles] at h ⊢
  cases hm : m s with
  | ok p =>
    rw [hm] at h
    exact ⟨h, rfl⟩
  | error e =>
    rw [hm] at h
    exact h
  | panic =>
    rw [hm] at h
    exact h

lemma seq {mid : α → σ → Prop} {post : β → σ → Prop} (hm : Settles may m s mid)
    (hf : ∀ a s', mid a s' → Settles may (f a) s' post) : Settles may (m >>= f) s post :=
  bind (hm.mono hf)

lemma lift {x : Outcome ε α} (h : x.Comes may fun a => post a s) :
    Settles may (liftM x : StateT σ (Outcome ε) α) s post := by
  rw [Settles, run_lift]
  exact Outcome.Comes.bind h

lemma of_ok {a : α} {s' : σ} (h : Settles may m s post) (hm : m s = .ok (a, s')) : post a s' := by
  rw [Settles, hm] at h
  exact h

lemma exists_ok (h : Settles may m s post) (hmay : ¬ may) : ∃ a s', m s = .ok (a, s') ∧ post a s' := by
  obtain ⟨⟨a, s'⟩, hm, hpost⟩ := Outcome.Comes.exists_ok h hmay
  exact ⟨a, s', hm, hpost⟩

lemma forM {γ : Type} {g : γ → StateT σ (Outcome ε) PUnit} {I : σ → Prop} {l : List γ} (hs : I s)
    (hstep : ∀ c ∈ l, ∀ s, I s → Settles may (g c) s fun _ => I) : Settles may (l.forM g) s fun _ => I := by
  induction l generalizing s with
  | nil => exact hs
  | cons c l ih =>
    refine seq (hstep c List.mem_cons_self s hs) fun _ s' hs' => ?_
    exact ih hs' fun c hc => hstep c (List.mem_cons_of_mem _ hc)

end Settles

end CrickerOs.Library
