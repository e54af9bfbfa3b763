import CrickerOs.Library.Runs

namespace CrickerOs.Broker

open Library List

def CAPACITY : ℕ := 128
def NO_CAP : UInt64 := 0xffffffffffffffff
def OP_PUT : UInt64 := 1
def OP_QUIESCE : UInt64 := 2
def BOP_DOWN : UInt64 := 10
def BOP_UP : UInt64 := 11
def ACCEPTED : UInt64 := 0x41434350
def QUEUE_FULL : UInt64 := 0x46554c4c
def QUIESCED : UInt64 := 0x51554954
def BAD_REQUEST : UInt64 := 0xffffffffffffffff
def RPT_QUIESCED : UInt64 := 2
def RPT_DRAINED : UInt64 := 10
def NOTE_BROKER_DONE : UInt64 := 4

structure Queue where
  items : Fin CAPACITY → UInt64
  head : Fin CAPACITY
  count : ℕ
  count_le : count ≤ CAPACITY

namespace Queue

variable {q q' : Queue} {item : UInt64}

def place (q : Queue) (i : ℕ) : Fin CAPACITY := ⟨(q.head + i) % CAPACITY, Nat.mod_lt _ (by decide)⟩

def push (q : Queue) (item : UInt64) : Option Queue :=
  if h : q.count = CAPACITY then none
  else
    some { q with
      items := Function.update q.items (q.place q.count) item
      count := q.count + 1
      count_le := Nat.lt_of_le_of_ne q.count_le h }

def pop (q : Queue) : Option (UInt64 × Queue) :=
  if q.count = 0 then none
  else some (q.items q.head,
    { q with head := q.place 1, count := q.count - 1, count_le := (Nat.sub_le _ _).trans q.count_le })

/-- The loop that pops until the queue is empty. -/
def drain : ℕ → Queue → List UInt64 × Queue
  | 0, q => ([], q)
  | fuel + 1, q =>
    match q.pop with
    | none => ([], q)
    | some (item, q) => ((item :: (drain fuel q).1), (drain fuel q).2)

def backlog (q : Queue) : List UInt64 := (range q.count).map fun i => q.items (q.place i)

lemma length_backlog : q.backlog.length = q.count := by rw [backlog, length_map, length_range]

lemma backlog_of_empty (h : q.count = 0) : q.backlog = [] := eq_nil_of_length_eq_zero (length_backlog.trans h)

lemma backlog_push (h : q.push item = some q') : q'.backlog = q.backlog ++ [item] := by
  rw [push] at h
  split_ifs at h with hfull
  cases h
  rw [backlog, range_succ, map_append, map_singleton]
  congr 1
  · refine map_congr_left fun i hi => Function.update_of_ne (fun heq => ?_) _ _
    have hlt := mem_range.mp hi
    have hle := q.count_le
    have hval : (q.head.val + i) % CAPACITY = (q.head.val + q.count) % CAPACITY := congrArg Fin.val heq
    unfold CAPACITY at *
    omega
  · exact congrArg (· :: []) (Function.update_self _ _ _)

lemma backlog_pop (h : q.pop = some (item, q')) : q.backlog = item :: q'.backlog := by
  rw [pop] at h
  split_ifs at h with hempty
  cases h
  have hcount : q.count = q.count - 1 + 1 := by omega
  have hhead : q.place 0 = q.head := Fin.ext (Nat.mod_eq_of_lt q.head.isLt)
  conv_lhs => rw [backlog, hcount, range_succ_eq_map, map_cons, map_map, hhead]
  refine congrArg _ (map_congr_left fun i _ => congrArg q.items (Fin.ext ?_))
  change (q.head.val + (i + 1)) % CAPACITY = ((q.head.val + 1) % CAPACITY + i) % CAPACITY
  rw [Nat.mod_add_mod, Nat.add_assoc, Nat.add_comm 1]

lemma drain_eq {fuel : ℕ} (h : q.count ≤ fuel) : (q.drain fuel).1 = q.backlog ∧ (q.drain fuel).2.backlog = [] := by
  induction fuel generalizing q with
  | zero =>
    have hempty := backlog_of_empty (Nat.le_zero.mp h)
    exact ⟨hempty.symm, hempty⟩
  | succ fuel ih =>
    rw [drain]
    split
    · rename_i hpop
      have hempty : q.backlog = [] := backlog_of_empty (by simpa [pop] using hpop)
      exact ⟨hempty.symm, hempty⟩
    · rename_i item q' hpop
      have hcons := backlog_pop hpop
      have hlen := congrArg length hcons
      rw [length_cons, length_backlog, length_backlog] at hlen
      obtain ⟨hitems, hrest⟩ := ih (q := q') (by omega)
      exact ⟨by rw [hitems, hcons], hrest⟩

end Queue

structure Request where
  op : UInt64
  slot : UInt64
  arg : UInt64
  deriving DecidableEq

/-- `call` is to the backend, `report` and `note` are sends to the operator. -/
inductive Effect
  | call (op arg : UInt64)
  | reply (slot r0 r1 : UInt64)
  | report (w0 w1 w2 : UInt64)
  | note (w0 w1 w2 : UInt64)
  | exit
  deriving DecidableEq

abbrev Trace := List (Request × List Effect)

def Effect.forwarded : Effect → Option UInt64
  | call _ arg => some arg
  | _ => none

def forwarded (trace : Trace) : List UInt64 := trace.flatMap fun e => e.2.filterMap Effect.forwarded

/-- The items that were passed straight through or answered `ACCEPTED`, in the order in which they came. -/
def taken (trace : Trace) : List UInt64 :=
  trace.filterMap fun
    | (r, [.reply _ w _]) => if r.op = OP_PUT ∧ w = ACCEPTED then some r.arg else none
    | (r, [.call _ _, .reply _ _ _]) => some r.arg
    | _ => none

def Exited (trace : Trace) : Prop := ∃ e ∈ trace, Effect.exit ∈ e.2

instance (trace : Trace) : Decidable (Exited trace) := inferInstanceAs (Decidable (∃ e ∈ trace, _))

/-- The broker, with the requests it served and what it did for each. -/
structure State where
  q : Queue
  up : Bool
  buffered : ℕ
  trace : Trace

def start : State := ⟨⟨fun _ => 0, ⟨0, by decide⟩, 0, by decide⟩, true, 0, []⟩

def takeCustody (b : State) (r : Request) : Option (State × List Effect) :=
  match b.q.push r.arg with
  | some q =>
    if b.buffered + 1 < 2 ^ 64 then
      some ({ b with q, buffered := b.buffered + 1 }, [.reply r.slot ACCEPTED (.ofNat q.count)])
    else none
  | none => some (b, [.reply r.slot QUEUE_FULL (.ofNat b.q.count)])

section

variable (backend : List UInt64 → UInt64 × UInt64)

/-- The backend answers a call by all the calls that were made to it. -/
def passed (calls : List UInt64) (r : Request) : List Effect :=
  let answer := backend (calls ++ [r.arg])
  [.call OP_PUT r.arg, .reply r.slot answer.1 answer.2]

def serve (b : State) (r : Request) : Option (State × List Effect) :=
  if r.slot = NO_CAP then some (b, [])
  else if r.op = OP_PUT then
    if b.up then some (b, passed backend (forwarded b.trace) r) else takeCustody b r
  else if r.op = BOP_DOWN then some ({ b with up := false }, [.reply r.slot 0 (.ofNat b.q.count)])
  else if r.op = BOP_UP then
    let (items, q) := b.q.drain b.q.count
    some ({ b with q, up := true }, items.map (.call OP_PUT) ++
      [.report RPT_DRAINED (.ofNat items.length) (.ofNat b.buffered), .reply r.slot 0 (.ofNat items.length)])
  else if r.op = OP_QUIESCE then
    some (b, [.report RPT_QUIESCED 0 (.ofNat b.buffered), .reply r.slot QUIESCED (.ofNat b.buffered),
      .note NOTE_BROKER_DONE (.ofNat b.buffered) 0, .exit])
  else some (b, [.reply r.slot BAD_REQUEST 0])

def step (b : State) (r : Request) : Option State :=
  if Exited b.trace then none
  else (serve backend b r).map fun x => { x.1 with trace := b.trace ++ [(r, x.2)] }

end

/-- The broker is not told to stop while it holds items. -/
def Patient (b : State) (r : Request) : Prop :=
  (r.op = OP_QUIESCE → r.slot ≠ NO_CAP → b.q.count = 0) ∧ b.buffered + 1 < 2 ^ 64

instance (b : State) (r : Request) : Decidable (Patient b r) := inferInstanceAs (Decidable (_ ∧ _))

variable {backend : List UInt64 → UInt64 × UInt64} {b b' : State} {r : Request} {es : List Effect}

lemma serve_isSome (h : Patient b r) : (serve backend b r).isSome := by
  unfold serve takeCustody
  grind [Patient]

lemma taken_reply {slot w r1 : UInt64} :
    taken [(r, [.reply slot w r1])] = if r.op = OP_PUT ∧ w = ACCEPTED then [r.arg] else [] := by
  unfold taken
  split_ifs with h <;> simp [h]

lemma taken_drained (items : List UInt64) {w0 w1 w2 slot r0 r1 : UInt64} :
    taken [(r, items.map (.call OP_PUT) ++ [.report w0 w1 w2, .reply slot r0 r1])] = [] := by
  rcases items with _ | ⟨x, _ | ⟨y, items⟩⟩ <;> rfl

lemma forwarded_drained (items : List UInt64) {w0 w1 w2 slot r0 r1 : UInt64} :
    forwarded [(r, items.map (.call OP_PUT) ++ [.report w0 w1 w2, .reply slot r0 r1])] = items := by
  rw [forwarded, flatMap_singleton, filterMap_append, filterMap_map]
  exact (append_nil _).trans filterMap_some

/-- The backend's own answer, or one that the broker gives itself. -/
def Answers (backend : List UInt64 → UInt64 × UInt64) (calls : List UInt64) (r : Request) (es : List Effect) :
    Prop :=
  r.op = OP_PUT → r.slot ≠ NO_CAP →
    es = passed backend calls r ∨ ∃ depth, es = [.reply r.slot ACCEPTED depth] ∨
      es = [.reply r.slot QUEUE_FULL depth]

/-- What was held, and what is taken in addition, is what is forwarded and what is held then. -/
structure Conserves (backend : List UInt64 → UInt64 × UInt64) (b : State) (r : Request) (b' : State)
    (es : List Effect) : Prop where
  order : b.q.backlog ++ taken [(r, es)] = forwarded [(r, es)] ++ b'.q.backlog
  up : b'.up = true → b'.q.backlog = []
  exit : .exit ∈ es → r.op = OP_QUIESCE ∧ r.slot ≠ NO_CAP ∧ b'.q = b.q
  answers : Answers backend (forwarded b.trace) r es

lemma takeCustody_conserves (hput : r.op = OP_PUT) (hdown : ¬ b.up = true) (h : takeCustody b r = some (b', es)) :
    Conserves backend b r b' es := by
  unfold takeCustody at h
  split at h
  · rename_i q hpush
    split_ifs at h
    cases h
    refine ⟨?_, fun h => absurd h hdown, by simp, fun _ _ => .inr ⟨_, .inl rfl⟩⟩
    rw [taken_reply, if_pos ⟨hput, rfl⟩]
    exact (Queue.backlog_push hpush).symm
  · cases h
    refine ⟨?_, fun h => absurd h hdown, by simp, fun _ _ => .inr ⟨_, .inr rfl⟩⟩
    rw [taken_reply, if_neg fun h => absurd h.2 (by decide)]
    exact append_nil _

lemma serve_conserves (hup : b.up = true → b.q.backlog = []) (h : serve backend b r = some (b', es)) :
    Conserves backend b r b' es := by
  unfold serve at h
  split_ifs at h with hcap hput hpass hdown hback hquiesce
  · cases h
    exact ⟨append_nil _, hup, nofun, fun _ hne => absurd hcap hne⟩
  · cases h
    refine ⟨?_, hup, by simp [passed], fun _ _ => .inl rfl⟩
    rw [hup hpass]
    rfl
  · exact takeCustody_conserves hput hpass h
  · cases h
    refine ⟨?_, nofun, by simp, fun h => absurd h hput⟩
    rw [taken_reply, if_neg fun h => hput h.1]
    exact append_nil _
  · cases h
    obtain ⟨hitems, hrest⟩ := Queue.drain_eq (q := b.q) le_rfl
    refine ⟨?_, fun _ => hrest, by simp, fun h => absurd h hput⟩
    rw [taken_drained, forwarded_drained, hitems, hrest]
  · cases h
    exact ⟨append_nil _, hup, fun _ => ⟨hquiesce, hcap, rfl⟩, fun h => absurd h hput⟩
  · cases h
    refine ⟨?_, hup, by simp, fun h => absurd h hput⟩
    rw [taken_reply, if_neg fun h => hput h.1]
    exact append_nil _

structure Keeps (backend : List UInt64 → UInt64 × UInt64) (b : State) : Prop where
  order : forwarded b.trace ++ b.q.backlog = taken b.trace
  up : b.up = true → b.q.backlog = []
  exit : Exited b.trace → b.q.backlog = []
  answers : ∀ pre r es, pre ++ [(r, es)] <+: b.trace → Answers backend (forwarded pre) r es

lemma Keeps.step (hb : Keeps backend b) (hpatient : Patient b r) (h : step backend b r = some b') :
    Keeps backend b' := by
  rw [Broker.step] at h
  split_ifs at h with hrunning
  obtain ⟨⟨b₁, es⟩, hserve, rfl⟩ := Option.map_eq_some_iff.mp h
  have hstep := serve_conserves hb.up hserve
  refine ⟨?_, hstep.up, fun hexit => ?_, fun pre r' es' hpre => ?_⟩
  · have hforwarded : forwarded (b.trace ++ [(r, es)]) = _ := flatMap_append
    have htaken : taken (b.trace ++ [(r, es)]) = _ := filterMap_append
    rw [hforwarded, htaken, append_assoc]
    exact (congrArg (forwarded b.trace ++ ·) hstep.order.symm).trans (by rw [← append_assoc, hb.order]; rfl)
  · obtain ⟨e, he, hmem⟩ := hexit
    rcases mem_append.mp he with he | he
    · exact absurd ⟨e, he, hmem⟩ hrunning
    · cases mem_singleton.mp he
      obtain ⟨hquiesce, hcap, hq⟩ := hstep.exit hmem
      rw [hq, Queue.backlog_of_empty (hpatient.1 hquiesce hcap)]
  · rcases prefix_concat_iff.mp hpre with heq | hpre
    · obtain ⟨rfl, hlast⟩ := append_inj' heq rfl
      cases hlast
      exact hstep.answers
    · exact hb.answers pre r' es' hpre

/-- Where the broker is not told to stop with items in custody, it forwards each item that it took once and in
order, all of them before it exits, and hands the backend's own answer to the producer of an item that it passed
through. -/
theorem broker_forwards_what_it_took (h : Reach (step backend) Patient (start = ·) b) :
    forwarded b.trace ++ b.q.backlog = taken b.trace ∧
    (Exited b.trace → forwarded b.trace = taken b.trace) ∧
    (∀ pre r es, pre ++ [(r, es)] <+: b.trace → Answers backend (forwarded pre) r es) ∧
    (¬ Exited b.trace → ∀ r, Patient b r → (step backend b r).isSome) := by
  have hkeeps : Keeps backend b := by
    refine h.invariant (Keeps backend) ?_ fun b r b' hb hok hs => hb.step hok hs
    rintro _ rfl
    exact ⟨rfl, fun _ => rfl, fun _ => rfl, fun pre r es hpre => absurd (prefix_nil.mp hpre) (by simp)⟩
  refine ⟨hkeeps.order, fun hexit => ?_, hkeeps.answers, fun hrunning r hr => ?_⟩
  · rw [← hkeeps.order, hkeeps.exit hexit, append_nil]
  · rw [step, if_neg hrunning, Option.isSome_map]
    exact serve_isSome hr

theorem broker_forwards_backlog : ∃ b, execute (step fun _ => (0, 0)) Patient start
    [⟨BOP_DOWN, 5, 0⟩, ⟨OP_PUT, 5, 7⟩, ⟨BOP_UP, 5, 0⟩, ⟨OP_PUT, 5, 8⟩, ⟨OP_QUIESCE, 5, 0⟩] = some b ∧
      (Exited b.trace ∧ taken b.trace = [7, 8]) ∧ forwarded b.trace = taken b.trace :=
  Reach.exists_execute rfl (fun _ hb hexit => (broker_forwards_what_it_took hb).2.1 hexit.1) (by decide)

/-- An item that was accepted is lost when the broker is told to stop. -/
theorem quiesce_drops_custody : ∃ b, execute (step fun _ => (0, 0)) always start
    [⟨BOP_DOWN, 5, 0⟩, ⟨OP_PUT, 5, 7⟩, ⟨OP_QUIESCE, 5, 0⟩] = some b ∧
      Exited b.trace ∧ taken b.trace = [7] ∧ forwarded b.trace = [] :=
  exists_execute (by decide)

end CrickerOs.Broker
