import CrickerOs.Library.Runs

/-! Programs that interact with an environment, one effect at a time, and what they keep whatever the
environment answers. A session runs such programs one after another. -/

namespace CrickerOs.Library

inductive Prog (ε ρ α : Type)
  | pure (a : α)
  | effect (e : ε) (k : ρ → Prog ε ρ α)

namespace Prog

variable {ε ρ α β σ : Type}

def bind : Prog ε ρ α → (α → Prog ε ρ β) → Prog ε ρ β
  | .pure a, f => f a
  | .effect e k, f => .effect e fun r => (k r).bind f

instance : Monad (Prog ε ρ) where
  pure := .pure
  bind := .bind

def Returns : Prog ε ρ α → List (ε × ρ) → α → Prop
  | .pure b, log, a => log = [] ∧ b = a
  | .effect e k, log, a => ∃ r rest, log = (e, r) :: rest ∧ (k r).Returns rest a

def Performs (P : ε → Prop) : Prog ε ρ α → (α → Prop) → Prop
  | .pure a, post => post a
  | .effect e k, post => P e ∧ ∀ r, (k r).Performs P post

variable {P : ε → Prop}

variable {p : Prog ε ρ α}

@[simp]
lemma performs_bind {f : α → Prog ε ρ β} {post : β → Prop} :
    (p >>= f).Performs P post ↔ p.Performs P fun a => (f a).Performs P post := by
  induction p with
  | pure a => rfl
  | effect e k ih => exact and_congr_right fun _ => forall_congr' fun r => ih r

lemma Performs.mono {post post' : α → Prop} (h : p.Performs P post)
    (hpost : ∀ a, post a → post' a) : p.Performs P post' := by
  induction p with
  | pure a => exact hpost a h
  | effect e k ih => exact ⟨h.1, fun r => ih r (h.2 r)⟩

lemma Performs.imp {P' : ε → Prop} {post : α → Prop} (h : p.Performs P post)
    (himp : ∀ e, P e → P' e) : p.Performs P' post := by
  induction p with
  | pure a => exact h
  | effect e k ih => exact ⟨himp e h.1, fun r => ih r (h.2 r)⟩

end Prog

/-- How answered effects change a state, and what is asked of the programs of the calls `κ`. -/
structure Contract (κ σ ε ρ : Type) where
  apply : ε → ρ → σ → σ
  accepts : σ → κ → Prop
  ok : σ → ε → Prop
  safe : κ → σ → ε → Prop
  inv : σ → Prop

namespace Prog

variable {κ ε ρ α β σ : Type} {c : Contract κ σ ε ρ} {call : κ} {s : σ}

def Meets (c : Contract κ σ ε ρ) (call : κ) : Prog ε ρ α → (α → σ → Prop) → σ → Prop
  | .pure a, post, s => post a s
  | .effect e k, post, s =>
    c.safe call s e ∧ (c.ok s e → ∀ r, c.inv (c.apply e r s) ∧ (k r).Meets c call post (c.apply e r s))

variable {p : Prog ε ρ α}

@[simp]
lemma meets_bind {f : α → Prog ε ρ β} {post : β → σ → Prop} :
    (p >>= f).Meets c call post s ↔ p.Meets c call (fun a s => (f a).Meets c call post s) s := by
  induction p generalizing s with
  | pure a => rfl
  | effect e k ih =>
    refine and_congr_right fun _ => forall_congr' fun _ => forall_congr' fun r => and_congr_right fun _ => ?_
    exact ih r

lemma Meets.mono {post post' : α → σ → Prop} (h : p.Meets c call post s)
    (hpost : ∀ a s, post a s → post' a s) : p.Meets c call post' s := by
  induction p generalizing s with
  | pure a => exact hpost a s h
  | effect e k ih => exact ⟨h.1, fun hok r => ⟨(h.2 hok r).1, ih r (h.2 hok r).2⟩⟩

lemma Meets.keep {post : α → σ → Prop} (h : p.Meets c call post s) (hinv : c.inv s) :
    p.Meets c call (fun a s => post a s ∧ c.inv s) s := by
  induction p generalizing s with
  | pure a => exact ⟨h, hinv⟩
  | effect e k ih => exact ⟨h.1, fun hok r => ⟨(h.2 hok r).1, ih r (h.2 hok r).2 (h.2 hok r).1⟩⟩

end Prog

/-- A caller that runs one program at a time: `running` is the call with what is left of its program, and `entry`
the state it began in. -/
structure Session (κ σ ε ρ α : Type) where
  state : σ
  entry : σ
  running : Option (κ × Prog ε ρ α)

namespace Session

variable {κ σ ε ρ α : Type}

inductive Event (κ ρ : Type)
  | call (c : κ)
  | answer (r : ρ)
  | ret

def step (apply : ε → ρ → σ → σ) (body : σ → κ → Prog ε ρ α) (finish : α → σ → σ) (s : Session κ σ ε ρ α) :
    Event κ ρ → Option (Session κ σ ε ρ α)
  | .call c =>
    match s.running with
    | none => some ⟨s.state, s.state, some (c, body s.state c)⟩
    | some _ => none
  | .answer r =>
    match s.running with
    | some (c, .effect e k) => some { s with state := apply e r s.state, running := some (c, k r) }
    | _ => none
  | .ret =>
    match s.running with
    | some (_, .pure a) => some { s with state := finish a s.state, running := none }
    | _ => none

def pending (s : Session κ σ ε ρ α) : Option (κ × ε) :=
  match s.running with
  | some (c, .effect e _) => some (c, e)
  | _ => none

lemma running_of_pending {s : Session κ σ ε ρ α} {c : κ} {e : ε} (h : s.pending = some (c, e)) :
    ∃ k, s.running = some (c, .effect e k) := by
  unfold pending at h
  split at h
  · rename_i c' e' k hrunning
    obtain ⟨rfl, rfl⟩ : c' = c ∧ e' = e := Prod.mk.inj (Option.some.inj h)
    exact ⟨k, hrunning⟩
  · exact nomatch h

def Follows (accepts : σ → κ → Prop) (ok : σ → ε → Prop) (s : Session κ σ ε ρ α) : Event κ ρ → Prop
  | .call c => accepts s.state c
  | .answer _ =>
    match s.running with
    | some (_, .effect e _) => ok s.state e
    | _ => True
  | .ret => True

instance {accepts : σ → κ → Prop} {ok : σ → ε → Prop} [∀ s c, Decidable (accepts s c)]
    [∀ s e, Decidable (ok s e)] : ∀ (s : Session κ σ ε ρ α) (ev : Event κ ρ), Decidable (Follows accepts ok s ev)
  | s, .call c => inferInstanceAs (Decidable (accepts s.state c))
  | ⟨_, _, none⟩, .answer _ => isTrue trivial
  | ⟨_, _, some (_, .pure _)⟩, .answer _ => isTrue trivial
  | ⟨state, _, some (_, .effect e _)⟩, .answer _ => inferInstanceAs (Decidable (ok state e))
  | _, .ret => isTrue trivial

lemma performs_of_reach {apply : ε → ρ → σ → σ} {body : σ → κ → Prog ε ρ α} {finish : α → σ → σ} {P : ε → Prop}
    {ok : Session κ σ ε ρ α → Event κ ρ → Prop} {start : Session κ σ ε ρ α → Prop} {s : Session κ σ ε ρ α}
    (hbody : ∀ s call, (body s call).Performs P fun _ => True) (hstart : ∀ s, start s → s.running = none)
    (h : Reach (step apply body finish) ok start s) : ∀ call p, s.running = some (call, p) →
      p.Performs P fun _ => True := by
  refine h.invariant (fun s => ∀ call p, s.running = some (call, p) → p.Performs P fun _ => True) ?_ ?_
  · intro s hs call p hp
    simp [hstart s hs] at hp
  · rintro ⟨state, entry, running⟩ ev s' hs - hstep call p hp
    rcases ev with c | r | _ <;> rcases running with _ | ⟨call', a | ⟨e, k⟩⟩ <;>
      simp only [step, reduceCtorEq, Option.some.injEq] at hstep <;> subst hstep
    · obtain ⟨-, rfl⟩ : _ ∧ body state c = p := Prod.mk.inj (Option.some.inj hp)
      exact hbody state c
    · obtain ⟨-, rfl⟩ : _ ∧ k r = p := Prod.mk.inj (Option.some.inj hp)
      exact (hs call' _ rfl).2 r
    · exact nomatch hp

/-- What a session owes while it runs: the invariant, and of the program that is running the rest of its
contract. -/
def Owes (c : Contract κ σ ε ρ) (post : κ → σ → α → σ → Prop) (s : Session κ σ ε ρ α) : Prop :=
  c.inv s.state ∧ ∀ call p, s.running = some (call, p) → p.Meets c call (post call s.entry) s.state

variable {c : Contract κ σ ε ρ} {body : σ → κ → Prog ε ρ α} {finish : α → σ → σ} {post : κ → σ → α → σ → Prop}
  {s : Session κ σ ε ρ α}

lemma Owes.step {s' : Session κ σ ε ρ α} {ev : Event κ ρ} (h : Owes c post s) (hok : Follows c.accepts c.ok s ev)
    (hbody : ∀ s call, c.inv s → c.accepts s call → (body s call).Meets c call (post call s) s)
    (hfinish : ∀ call entry a s, c.inv s → post call entry a s → c.inv (finish a s))
    (hs : step c.apply body finish s ev = some s') : Owes c post s' := by
  obtain ⟨state, entry, running⟩ := s
  rcases ev with call | r | _ <;> rcases running with _ | ⟨call', a | ⟨e, k⟩⟩ <;>
    simp only [Session.step, reduceCtorEq, Option.some.injEq] at hs
  · subst hs
    refine ⟨h.1, fun _ p hp => ?_⟩
    obtain ⟨rfl, rfl⟩ : call = _ ∧ body state call = p := Prod.mk.inj (Option.some.inj hp)
    exact hbody state call h.1 hok
  · subst hs
    obtain ⟨hinv, hrest⟩ := (h.2 _ _ rfl).2 hok r
    refine ⟨hinv, fun _ p hp => ?_⟩
    obtain ⟨rfl, rfl⟩ : call' = _ ∧ k r = p := Prod.mk.inj (Option.some.inj hp)
    exact hrest
  · subst hs
    exact ⟨hfinish call' entry a state h.1 (h.2 _ _ rfl), fun _ p hp => nomatch hp⟩

lemma owes_of_reach (hbody : ∀ s call, c.inv s → c.accepts s call → (body s call).Meets c call (post call s) s)
    (hfinish : ∀ call entry a s, c.inv s → post call entry a s → c.inv (finish a s))
    (h : Reach (step c.apply body finish) (Follows c.accepts c.ok) (fun s => s.running = none ∧ c.inv s.state) s) :
    Owes c post s := by
  refine h.invariant (Owes c post) ?_ fun s ev s' hs hok hstep => hs.step hok hbody hfinish hstep
  rintro s ⟨hidle, hinv⟩
  exact ⟨hinv, fun _ p hp => by simp [hidle] at hp⟩

end Session

end CrickerOs.Library
