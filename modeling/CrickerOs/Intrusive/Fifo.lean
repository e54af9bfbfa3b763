import Mathlib

namespace CrickerOs.Intrusive

open Function List

variable {τ : Type*}

abbrev Links (τ : Type*) := τ → Option τ

structure Fifo (τ : Type*) where
  head : Option τ
  tail : Option τ
  len : ℕ
  deriving DecidableEq, Repr

namespace Fifo

def new : Fifo τ :=
  ⟨none, none, 0⟩

def isEmpty (q : Fifo τ) : Bool :=
  q.head.isNone

variable [DecidableEq τ]

def pushBack (q : Fifo τ) (links : Links τ) (node : τ) : Links τ × Fifo τ :=
  let links := Function.update links node none
  match q.tail with
  | some tail => (Function.update links tail (some node), { q with tail := some node, len := q.len + 1 })
  | none => (links, { head := some node, tail := some node, len := q.len + 1 })

def popFront (q : Fifo τ) (links : Links τ) : Option (τ × Links τ × Fifo τ) :=
  match q.head with
  | none => none
  | some node =>
    let head := links node
    some (node, Function.update links node none,
      { head, tail := if head.isNone then none else q.tail, len := q.len - 1 })

end Fifo

def Chain (links : Links τ) : Option τ → List τ → Prop
  | head, [] => head = none
  | head, node :: nodes => head = some node ∧ Chain links (links node) nodes

structure Fifo.Represents (links : Links τ) (q : Fifo τ) (nodes : List τ) : Prop where
  chain : Chain links q.head nodes
  tail : q.tail = nodes.getLast?
  len : q.len = nodes.length
  nodup : nodes.Nodup

lemma chain_congr {links links' : Links τ} {head : Option τ} {nodes : List τ}
    (h : ∀ node ∈ nodes, links' node = links node) (hc : Chain links head nodes) : Chain links' head nodes := by
  induction nodes generalizing head with
  | nil => exact hc
  | cons node nodes ih =>
    refine ⟨hc.1, ?_⟩
    rw [h node mem_cons_self]
    exact ih (fun n hn => h n (mem_cons_of_mem _ hn)) hc.2

namespace Fifo

variable {links links' : Links τ} {q : Fifo τ} {nodes : List τ}

lemma represents_new (links : Links τ) : (new : Fifo τ).Represents links [] :=
  ⟨rfl, rfl, rfl, nodup_nil⟩

lemma Represents.congr (h : q.Represents links nodes) (heq : ∀ node ∈ nodes, links' node = links node) :
    q.Represents links' nodes :=
  ⟨chain_congr heq h.chain, h.tail, h.len, h.nodup⟩

lemma Represents.nil (h : q.Represents links []) : q.Represents links' [] :=
  h.congr (by simp)

lemma Represents.isEmpty_iff (h : q.Represents links nodes) : q.isEmpty ↔ nodes = [] := by
  cases nodes with
  | nil => simp [isEmpty, show q.head = none from h.chain]
  | cons node nodes => simp [isEmpty, h.chain.1]

end Fifo

variable [DecidableEq τ]

lemma chain_concat {links : Links τ} {head : Option τ} {nodes : List τ} {last node : τ}
    (hc : Chain links head (nodes ++ [last])) (hnodup : (nodes ++ [last]).Nodup) (hnode : node ∉ nodes ++ [last]) :
    Chain (update (update links node none) last (some node)) head (nodes ++ [last, node]) := by
  induction nodes generalizing head with
  | nil =>
    have hne : node ≠ last := by simpa using hnode
    simp only [nil_append] at hc ⊢
    exact ⟨hc.1, update_self .., by rw [update_of_ne hne, update_self]; rfl⟩
  | cons first nodes ih =>
    simp only [cons_append, nodup_cons, mem_cons, mem_append, not_or] at hc hnodup hnode
    have hlast : first ≠ last := by
      rintro rfl
      exact hnodup.1.2.1 rfl
    refine ⟨hc.1, ?_⟩
    rw [update_of_ne hlast, update_of_ne (fun h => hnode.1 h.symm)]
    exact ih hc.2 hnodup.2 (by simpa using hnode.2)

namespace Fifo

variable {links : Links τ} {q : Fifo τ} {nodes : List τ} {node : τ}

lemma Represents.pushBack (h : q.Represents links nodes) (hnode : node ∉ nodes) :
    (q.pushBack links node).2.Represents (q.pushBack links node).1 (nodes ++ [node]) ∧
      ∀ other, other ≠ node → other ∉ nodes → (q.pushBack links node).1 other = links other := by
  have htail := h.tail
  have hnodup : (nodes ++ [node]).Nodup := by
    rw [nodup_append']
    exact ⟨h.nodup, nodup_singleton node, by simpa using hnode⟩
  rcases eq_nil_or_concat' nodes with rfl | ⟨front, last, rfl⟩
  · simp only [getLast?_nil] at htail
    simp only [Fifo.pushBack, htail]
    refine ⟨⟨⟨rfl, by simp [Chain]⟩, rfl, by simp [h.len], hnodup⟩, fun other hne _ => ?_⟩
    rw [update_of_ne hne]
  · simp only [getLast?_append, getLast?_singleton, Option.some_or] at htail
    simp only [Fifo.pushBack, htail]
    constructor
    · refine ⟨?_, by simp, by simp [h.len], hnodup⟩
      rw [append_assoc]
      exact chain_concat h.chain h.nodup hnode
    · intro other hne hother
      have hlast : other ≠ last := by
        rintro rfl
        simp at hother
      rw [update_of_ne hlast, update_of_ne hne]

lemma Represents.popFront_nil (h : q.Represents links []) : q.popFront links = none := by
  rw [popFront, show q.head = none from h.chain]

lemma Represents.popFront_cons (h : q.Represents links (node :: nodes)) :
    ∃ links' q', q.popFront links = some (node, links', q') ∧ q'.Represents links' nodes ∧
      ∀ other ≠ node, links' other = links other := by
  obtain ⟨hhead, hrest⟩ := h.chain
  obtain ⟨hfresh, hnodup⟩ := nodup_cons.mp h.nodup
  refine ⟨update links node none, _, by rw [popFront, hhead], ⟨?_, ?_, ?_, hnodup⟩, fun other hne => ?_⟩
  · refine chain_congr (fun n hn => update_of_ne ?_ _ _) hrest
    rintro rfl
    exact hfresh hn
  · have htail := h.tail
    cases nodes with
    | nil => simp [show links node = none from hrest]
    | cons second nodes => simpa [hrest.1] using htail
  · simp [h.len]
  · exact update_of_ne hne _ _

end Fifo

end CrickerOs.Intrusive
