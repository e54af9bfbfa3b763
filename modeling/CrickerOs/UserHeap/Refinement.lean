import CrickerOs.UserHeap.Heap

namespace CrickerOs.UserHeap

open Library Library.Blocks Function List Nat

variable {checks : Bool} {mem mem' : ℕ → FreeBlock} {x y : Option ℕ} {l l₁ l₂ r r' : List Span} {a b c p : Span}
  {h h' : Heap} {size align addr : ℕ}

def Holds (mem : ℕ → FreeBlock) : Option ℕ → List Span → Prop
  | x, [] => x = none
  | x, b :: l => x = some b.base ∧ (mem b.base).size = b.len ∧ Holds mem (mem b.base).next l

lemma Holds.splice (hl : Holds mem x (l ++ r)) (heq : ∀ b ∈ l, mem' b.base = mem b.base)
    (hr : ∀ y, Holds mem y r → Holds mem' y r') : Holds mem' x (l ++ r') := by
  induction l generalizing x with
  | nil => exact hr x hl
  | cons b l ih =>
    obtain ⟨hx, hsize, hrest⟩ := hl
    have hb := heq b mem_cons_self
    refine ⟨hx, by rw [hb, hsize], ?_⟩
    rw [hb]
    exact ih hrest fun c hc => heq c (mem_cons_of_mem _ hc)

lemma Holds.congr (hl : Holds mem x l) (heq : ∀ b ∈ l, mem' b.base = mem b.base) : Holds mem' x l := by
  rw [← append_nil l] at hl ⊢
  exact hl.splice heq fun _ => id

structure OnGrid (b : Span) : Prop where
  base_pos : 0 < b.base
  base_dvd : minAlign ∣ b.base
  len_dvd : minAlign ∣ b.len
  top : b.base + b.len ≤ 2 ^ 64

def linkAfter (l : List Span) : Option ℕ := l.getLast?.map Span.base

lemma readLink_linkAfter (hl : Holds h.mem h.head (l₁ ++ l₂)) : Holds h.mem (h.readLink (linkAfter l₁)) l₂ := by
  induction l₁ using reverseRecOn generalizing l₂ with
  | nil => exact hl
  | append_singleton l a ih =>
    rw [append_assoc] at hl
    obtain ⟨-, -, hrest⟩ := ih hl
    simpa [linkAfter, Heap.readLink] using hrest

@[simp]
lemma linkAfter_append : linkAfter (l ++ [a]) = some a.base := by
  simp [linkAfter]

lemma bases_ne (hs : Separated (l₁ ++ l₂)) (ha : a ∈ l₁) (hc : c ∈ l₂) : a.base ≠ c.base := by
  have := (pairwise_append.mp hs.sorted).2.2 a ha c hc
  omega

lemma Holds.writeNode (hl : Holds h.mem x l) {node : FreeBlock} (hne : ∀ b ∈ l, b.base ≠ addr) :
    Holds (h.writeNode addr node).mem x l :=
  hl.congr fun b hb => update_of_ne (hne b hb) _ _

lemma Holds.writeLink {v : Option ℕ} (hl : Holds h.mem h.head (l₁ ++ r)) (hv : Holds h.mem v r')
    (hs : Separated l₁) (hne : ∀ a ∈ l₁, ∀ c ∈ r', a.base ≠ c.base) :
    Holds (h.writeLink (linkAfter l₁) v).mem (h.writeLink (linkAfter l₁) v).head (l₁ ++ r') := by
  induction l₁ using reverseRecOn with
  | nil => exact hv
  | append_singleton l a _ =>
    rw [linkAfter_append]
    rw [append_assoc] at hl ⊢
    have ha : a ∈ l ++ [a] := mem_append_right _ mem_cons_self
    refine hl.splice (fun b hb => update_of_ne (bases_ne hs hb mem_cons_self) _ _) ?_
    rintro y ⟨hy, hsize, -⟩
    refine ⟨hy, ?_, ?_⟩
    · simpa [Heap.writeLink, Heap.writeNode] using hsize
    · simp only [Heap.writeLink, Heap.writeNode, update_self]
      exact hv.congr fun c hc => update_of_ne (hne a ha c hc).symm _ _

def roundUp (a m : ℕ) : ℕ := if a % m = 0 then a else a + (m - a % m)

def fit (size align : ℕ) (b : Span) : Option Span :=
  if roundUp b.base align + size ≤ b.base + b.len then some ⟨roundUp b.base align, size⟩ else none

lemma le_roundUp (a m : ℕ) : a ≤ roundUp a m := by
  unfold roundUp
  split <;> omega

lemma roundUp_lt (a : ℕ) {m : ℕ} (hm : 0 < m) : roundUp a m < a + m := by
  unfold roundUp
  have := mod_lt a hm
  split <;> omega

lemma dvd_roundUp (a : ℕ) {m : ℕ} (hm : 0 < m) : m ∣ roundUp a m := by
  unfold roundUp
  split
  · exact dvd_of_mod_eq_zero ‹_›
  · have hlt := mod_lt a hm
    have hdiv := div_add_mod a m
    exact ⟨a / m + 1, by rw [mul_add, mul_one]; omega⟩

lemma roundUp_le {k m : ℕ} (hm : 0 < m) (hk : m ∣ k) (ha : addr ≤ k) : roundUp addr m ≤ k := by
  obtain ⟨i, hi⟩ := dvd_roundUp addr hm
  obtain ⟨j, rfl⟩ := hk
  have hup := roundUp_lt addr hm
  rw [hi] at hup ⊢
  have hij : m * i < m * (j + 1) := by
    rw [mul_add, mul_one]
    omega
  exact Nat.mul_le_mul_left m (Nat.lt_succ_iff.mp (Nat.lt_of_mul_lt_mul_left hij))

lemma fit_eq_some (hf : fit size align b = some p) : p.Within b ∧ p = ⟨roundUp b.base align, size⟩ := by
  unfold fit at hf
  split at hf
  · cases hf
    exact ⟨⟨le_roundUp .., by assumption⟩, rfl⟩
  · cases hf

def Roomy (checks : Bool) (align : ℕ) (b : Span) : Prop := checks = false ∨ roundUp b.base align < 2 ^ 64

lemma add_eq_ok (hlt : size + align < 2 ^ 64) : add checks size align = .ok (size + align) := if_pos hlt

lemma sub_eq_ok (hle : align ≤ size) : sub checks size align = .ok (size - align) := if_pos hle

lemma nextMultipleOf_eq_ok (hlt : roundUp size align < 2 ^ 64) :
    nextMultipleOf checks size align = .ok (roundUp size align) := by
  unfold roundUp at hlt
  unfold nextMultipleOf roundUp
  split
  · rfl
  · rw [if_neg ‹_›] at hlt
    exact add_eq_ok hlt

lemma nextMultipleOf_wraps (halign : 0 < align) (hpow : align ∣ 2 ^ 64) (hlt : addr < 2 ^ 64)
    (hover : ¬ roundUp addr align < 2 ^ 64) : nextMultipleOf false addr align = .ok 0 := by
  have heq : roundUp addr align = 2 ^ 64 := le_antisymm (roundUp_le halign hpow hlt.le) (not_lt.mp hover)
  unfold roundUp at heq
  unfold nextMultipleOf
  split
  · rw [if_pos ‹_›] at heq
    omega
  · rw [if_neg ‹_›] at heq
    rw [add, heq, if_neg (lt_irrefl _), if_neg (by decide), mod_self]

lemma attempt {β : Type} {take : ℕ → ℕ → Outcome Unit β} {pass : Outcome Unit β} (hb : OnGrid b) (hlen : 0 < b.len)
    (hpow : align ∣ 2 ^ 64) (halign : 0 < align) (hsize : 0 < size) (hbound : size + align ≤ 2 ^ 63 + minAlign)
    (hroom : Roomy checks align b) :
    (do let aligned ← nextMultipleOf checks b.base align
        let front ← sub checks aligned b.base
        let need ← add checks front size
        if need ≤ b.len then take aligned front else pass) =
      match fit size align b with
      | some p => take p.base (p.base - b.base)
      | none => pass := by
  have htop := hb.top
  have hle := le_roundUp b.base align
  have hup := roundUp_lt b.base halign
  have hmin : minAlign = 16 := rfl
  by_cases hlt : roundUp b.base align < 2 ^ 64
  · rw [nextMultipleOf_eq_ok hlt, Outcome.ok_bind, sub_eq_ok hle, Outcome.ok_bind, add_eq_ok (by omega),
      Outcome.ok_bind]
    unfold fit
    by_cases hfit : roundUp b.base align + size ≤ b.base + b.len
    · rw [if_pos (by omega), if_pos hfit]
    · rw [if_neg (by omega), if_neg hfit]
  · obtain rfl : checks = false := hroom.resolve_right hlt
    have heq : roundUp b.base align = 2 ^ 64 := le_antisymm (roundUp_le halign hpow (by omega)) (not_lt.mp hlt)
    have hfront : sub false 0 b.base = .ok (2 ^ 64 + 0 - b.base) := by
      rw [sub, if_neg (by omega), if_neg (by decide)]
    have hnone : fit size align b = none := if_neg (by omega)
    rw [nextMultipleOf_wraps halign hpow (by omega) hlt, Outcome.ok_bind, hfront, Outcome.ok_bind,
      add_eq_ok (by omega), Outcome.ok_bind, if_neg (by omega), hnone]

lemma nonNull_of_pos (hpos : 0 < addr) : nonNull addr = some addr := if_neg hpos.ne'

section

variable (hl : Holds h.mem h.head (l₁ ++ b :: l₂))
include hl

variable (hs : Separated (l₁ ++ b :: l₂))
include hs

lemma writeTail (hp : 0 < p.len)
    (hbase : b.base ≤ p.base) (htop : b.base + b.len ≤ 2 ^ 64) (hlt : p.base + p.len < b.base + b.len) :
    let h' := h.writeNode (p.base + p.len) ⟨b.base + b.len - (p.base + p.len), (h.mem b.base).next⟩
    Holds h'.mem h'.head (l₁ ++ b :: l₂) ∧
      Holds h'.mem (some (p.base + p.len)) (⟨p.base + p.len, b.base + b.len - (p.base + p.len)⟩ :: l₂) := by
  have hne : ∀ c ∈ l₁ ++ b :: l₂, c.base ≠ p.base + p.len := by
    intro c hc heq
    have hcb : c = b := hs.eq_of_near hc (mem_append_right _ mem_cons_self) (by omega) (by omega)
    subst hcb
    omega
  obtain ⟨-, -, hnext⟩ := readLink_linkAfter hl
  refine ⟨hl.writeNode hne, rfl, ?_, ?_⟩
  · simp [Heap.writeNode]
  · simp only [Heap.writeNode, update_self]
    exact hnext.writeNode fun c hc => hne c (mem_append_right _ (mem_cons_of_mem _ hc))

lemma writeFront {front : ℕ}
    (hx : Holds h.mem x r) (hne : ∀ c ∈ r, c.base ≠ b.base) :
    Holds (h.writeNode b.base ⟨front, x⟩).mem (h.writeNode b.base ⟨front, x⟩).head
    (l₁ ++ ⟨b.base, front⟩ :: r) := by
  refine hl.splice (fun c hc => update_of_ne (bases_ne hs hc mem_cons_self) _ _) ?_
  rintro y ⟨hy, -, -⟩
  refine ⟨hy, ?_, ?_⟩
  · simp [Heap.writeNode]
  · simp only [Heap.writeNode, update_self]
    exact hx.writeNode hne

lemma place_front {after : Option ℕ}
    (hbase : b.base ≤ p.base) (hx : Holds h.mem after r) (hr : ∀ c ∈ r, b.base < c.base) :
    let h' := if 0 < p.base - b.base then h.writeNode b.base ⟨p.base - b.base, after⟩
      else h.writeLink (linkAfter l₁) after
    Holds h'.mem h'.head (l₁ ++ ((if b.base < p.base then [⟨b.base, p.base - b.base⟩] else []) ++ r)) := by
  by_cases hlt : b.base < p.base
  · rw [if_pos (by omega), if_pos hlt]
    exact writeFront hl hs hx fun c hc => (hr c hc).ne'
  · rw [if_neg (by omega), if_neg hlt]
    obtain ⟨hsorted, -, hcross⟩ := pairwise_append.mp hs.sorted
    refine hl.writeLink hx ⟨hsorted, fun c hc => hs.positive c (mem_append_left _ hc)⟩ fun a ha c hc => ?_
    have hab := hcross a ha b mem_cons_self
    have hbc := hr c hc
    omega

lemma takeFrom_eq (hb : OnGrid b)
    (hw : p.Within b) (hp : 0 < p.len) (hfree : p.len ≤ h.free) :
    ∃ h', h.takeFrom checks (linkAfter l₁) b.base p.base (p.base - b.base) p.len = .ok (h', some p.base) ∧
      h'.free = h.free - p.len ∧ Holds h'.mem h'.head (l₁ ++ (pieces b p ++ l₂)) := by
  obtain ⟨hlo, hhi⟩ := hw
  obtain ⟨-, hsize, hnext⟩ := readLink_linkAfter hl
  have hpos := hb.base_pos
  have htop := hb.top
  have hafter : ∀ c ∈ l₂, b.base < c.base := by
    intro c hc
    have := (pairwise_cons.mp (pairwise_append.mp hs.sorted).2.1).1 c hc
    omega
  have hrest : b.len - (p.base - b.base) - p.len = b.base + b.len - (p.base + p.len) := by omega
  rw [Heap.takeFrom, hsize, sub_eq_ok (by omega), Outcome.ok_bind, sub_eq_ok (by omega), Outcome.ok_bind, hrest]
  by_cases hlt : p.base + p.len < b.base + b.len
  · obtain ⟨hl', htail⟩ := writeTail hl hs hp hlo htop hlt
    have hplace := place_front hl' hs hlo htail fun c hc => by
      rcases mem_cons.mp hc with rfl | hc
      · simp only
        omega
      · exact hafter c hc
    simp only [if_pos (show 0 < b.base + b.len - (p.base + p.len) by omega),
      add_eq_ok (show p.base + p.len < 2 ^ 64 by omega), Outcome.ok_bind, Outcome.pure_bind',
      nonNull_of_pos (show 0 < p.base + p.len by omega), nonNull_of_pos (show 0 < p.base by omega),
      apply_ite Heap.free, Heap.writeNode_free, Heap.writeLink_free, ite_self, sub_eq_ok hfree]
    refine ⟨_, rfl, rfl, ?_⟩
    simpa [pieces, if_pos hlt] using hplace
  · have hplace := place_front hl hs hlo hnext hafter
    simp only [if_neg (show ¬ 0 < b.base + b.len - (p.base + p.len) by omega), Outcome.pure_bind',
      nonNull_of_pos (show 0 < p.base by omega), apply_ite Heap.free, Heap.writeNode_free, Heap.writeLink_free,
      ite_self, sub_eq_ok hfree]
    refine ⟨_, rfl, rfl, ?_⟩
    simpa [pieces, if_neg hlt] using hplace

end

structure Request (size align : ℕ) : Prop where
  size_pos : 0 < size
  align_pos : 0 < align
  align_dvd : align ∣ 2 ^ 64
  bound : size + align ≤ 2 ^ 63 + minAlign

lemma len_le_total (hb : b ∈ l) : b.len ≤ total l :=
  single_le_sum (by simp) _ (mem_map_of_mem hb)

variable {fuel : ℕ}

lemma allocFrom_nil (hread : h.readLink x = none) : h.allocFrom checks size align fuel x = .ok (h, none) := by
  rw [Heap.allocFrom.eq_def, hread]

lemma allocFrom_cons (hread : Holds h.mem (h.readLink x) (b :: l)) (hb : OnGrid b) (hlen : 0 < b.len)
    (hq : Request size align) (hroom : Roomy checks align b) :
    h.allocFrom checks size align (fuel + 1) x =
      match fit size align b with
      | some p => h.takeFrom checks x b.base p.base (p.base - b.base) size
      | none => h.allocFrom checks size align fuel (some b.base) := by
  obtain ⟨hx, hsize, -⟩ := hread
  rw [Heap.allocFrom.eq_def, hx]
  dsimp only
  rw [hsize]
  exact attempt hb hlen hq.align_dvd hq.align_pos hq.size_pos hq.bound hroom

lemma allocFrom_eq (hl : Holds h.mem h.head (l₁ ++ l₂)) (hs : Separated (l₁ ++ l₂))
    (hgrid : ∀ b ∈ l₂, OnGrid b) (hq : Request size align) (hroom : ∀ b ∈ l₂, Roomy checks align b)
    (hfree : ∀ b ∈ l₂, b.len ≤ h.free) (hfuel : l₂.length ≤ fuel) :
    match carve (fit size align) l₂ with
    | none => h.allocFrom checks size align fuel (linkAfter l₁) = .ok (h, none)
    | some (p, l') => ∃ h', h.allocFrom checks size align fuel (linkAfter l₁) = .ok (h', some p.base) ∧
        h'.free = h.free - size ∧ Holds h'.mem h'.head (l₁ ++ l') := by
  induction l₂ generalizing l₁ fuel with
  | nil => exact allocFrom_nil (readLink_linkAfter hl)
  | cons b l ih =>
    obtain ⟨fuel, rfl⟩ : ∃ n, fuel = n + 1 := ⟨fuel - 1, by rw [length_cons] at hfuel; omega⟩
    have hb : b ∈ b :: l := mem_cons_self
    have hlen := hs.positive b (mem_append_right _ hb)
    rw [allocFrom_cons (readLink_linkAfter hl) (hgrid b hb) hlen hq (hroom b hb), carve]
    cases hf : fit size align b with
    | some p =>
      obtain ⟨hw, rfl⟩ := fit_eq_some hf
      have hroomy : size ≤ b.len := by
        have := hw.1
        have := hw.2
        simp only at *
        omega
      exact takeFrom_eq hl hs (hgrid b hb) hw hq.size_pos (hroomy.trans (hfree b hb))
    | none =>
      have hsplit : l₁ ++ b :: l = l₁ ++ [b] ++ l := by simp
      rw [hsplit] at hl hs
      have hshort : l.length ≤ fuel := le_of_succ_le_succ hfuel
      have hrest := ih hl hs (fun c hc => hgrid c (mem_cons_of_mem _ hc))
        (fun c hc => hroom c (mem_cons_of_mem _ hc)) (fun c hc => hfree c (mem_cons_of_mem _ hc))
        hshort
      rw [linkAfter_append] at hrest
      cases hc : carve (fit size align) l with
      | none => simpa [hc] using hrest
      | some found => simpa [hc] using hrest

def below (addr : ℕ) (l : List Span) : List Span := l.takeWhile fun b => b.base ≤ addr

def above (addr : ℕ) (l : List Span) : List Span := l.dropWhile fun b => b.base ≤ addr

lemma below_append_above : below addr l ++ above addr l = l := takeWhile_append_dropWhile

lemma base_le_of_mem_below (hb : b ∈ below addr l) : b.base ≤ addr := by
  simpa using mem_takeWhile_imp hb

lemma lt_base_of_mem_above (hs : Separated l) (hb : b ∈ above addr l) : addr < b.base := by
  induction l with
  | nil => cases hb
  | cons c l ih =>
    obtain ⟨-, hhead, htail⟩ := separated_cons.mp hs
    by_cases hc : c.base ≤ addr
    · rw [above, dropWhile_cons_of_pos (by simpa using hc)] at hb
      exact ih htail hb
    · rw [above, dropWhile_cons_of_neg (by simpa using hc)] at hb
      rcases mem_cons.mp hb with rfl | hb
      · omega
      · have := hhead b hb
        omega

lemma findLink_eq (hl : Holds h.mem h.head (l₁ ++ l₂)) (hfuel : l₂.length ≤ fuel) :
    h.findLink addr fuel (linkAfter l₁) = .ok (linkAfter (l₁ ++ below addr l₂)) := by
  induction l₂ generalizing l₁ fuel with
  | nil =>
    have hread : h.readLink (linkAfter l₁) = none := readLink_linkAfter hl
    rw [Heap.findLink.eq_def, hread, below, takeWhile_nil, append_nil]
  | cons b l ih =>
    obtain ⟨fuel, rfl⟩ : ∃ n, fuel = n + 1 := ⟨fuel - 1, by rw [length_cons] at hfuel; omega⟩
    obtain ⟨hread, -, -⟩ := readLink_linkAfter hl
    have hshort : l.length ≤ fuel := le_of_succ_le_succ hfuel
    rw [Heap.findLink.eq_def, hread]
    dsimp only
    by_cases hb : addr < b.base
    · rw [if_pos hb, below, takeWhile_cons_of_neg (by simpa using hb), append_nil]
    · have hsplit : l₁ ++ b :: l = l₁ ++ [b] ++ l := by simp
      rw [hsplit] at hl
      have hrest := ih hl hshort
      rw [linkAfter_append] at hrest
      rw [if_neg hb, hrest, below, below, takeWhile_cons_of_pos (by simpa using hb),
        append_assoc, singleton_append]

lemma absorb_eq (checks : Bool) (haddr : 0 < addr) (htop : addr + size ≤ 2 ^ 64) (hx : Holds h.mem x l)
    (hl : ∀ b ∈ l, addr + size ≤ b.base ∧ OnGrid b ∧ 0 < b.len) :
    ∃ node r, h.absorb checks addr size x = .ok node ∧ join ⟨addr, size⟩ l = ⟨addr, node.size⟩ :: r ∧
      addr + node.size ≤ 2 ^ 64 ∧ Holds h.mem node.next r ∧ ∀ b ∈ r, b ∈ l := by
  cases l with
  | nil =>
    obtain rfl : x = none := hx
    exact ⟨⟨size, none⟩, [], rfl, rfl, htop, rfl, by simp⟩
  | cons b l =>
    obtain ⟨rfl, hsize, hnext⟩ := hx
    obtain ⟨hle, hb, hpos⟩ := hl b mem_cons_self
    have hend := hb.top
    rw [Heap.absorb, add_eq_ok (by omega), Outcome.ok_bind, hsize]
    by_cases heq : b.base = addr + size
    · rw [if_pos heq, add_eq_ok (by omega), Outcome.ok_bind]
      exact ⟨_, l, rfl, if_pos heq.symm, by simp only; omega, hnext, fun c hc => mem_cons_of_mem _ hc⟩
    · rw [if_neg heq]
      exact ⟨_, b :: l, rfl, if_neg fun hne => heq hne.symm, htop, ⟨rfl, hsize, hnext⟩, fun c hc => hc⟩

lemma writeNew {node : FreeBlock} (hl : Holds h.mem h.head (l₁ ++ l₂)) (hs : Separated l₁)
    (hne : ∀ c ∈ l₁ ++ l₂, c.base ≠ addr) (hlow : ∀ c ∈ l₁, c.base < addr) (hr : Holds h.mem node.next r)
    (hhigh : ∀ c ∈ r, addr < c.base) :
    let h' := (h.writeNode addr node).writeLink (linkAfter l₁) (some addr)
    Holds h'.mem h'.head (l₁ ++ ⟨addr, node.size⟩ :: r) := by
  have hnode : Holds (h.writeNode addr node).mem (some addr) (⟨addr, node.size⟩ :: r) := by
    refine ⟨rfl, by simp [Heap.writeNode], ?_⟩
    simp only [Heap.writeNode, update_self]
    exact hr.writeNode fun c hc => (hhigh c hc).ne'
  refine Holds.writeLink (hl.writeNode hne) hnode hs fun a ha c hc => ?_
  have hlt := hlow a ha
  rcases mem_cons.mp hc with rfl | hc
  · exact hlt.ne
  · exact (hlt.trans (hhigh c hc)).ne

lemma Separated.left (hs : Separated (l₁ ++ l₂)) : Separated l₁ :=
  ⟨(pairwise_append.mp hs.sorted).1, fun c hc => hs.positive c (mem_append_left _ hc)⟩

lemma insertAt_eq (checks : Bool) (hl : Holds h.mem h.head (l₁ ++ l₂)) (hs : Separated (l₁ ++ l₂))
    (hgrid : ∀ b ∈ l₁ ++ l₂, OnGrid b) (haddr : 0 < addr) (hsize : 0 < size) (htop : addr + size ≤ 2 ^ 64)
    (hapart : ∀ b ∈ l₁ ++ l₂, Span.Apart ⟨addr, size⟩ b) (hlow : ∀ b ∈ l₁, b.base ≤ addr)
    (hhigh : ∀ b ∈ l₂, addr < b.base) :
    ∃ h', h.insertAt checks addr size (linkAfter l₁) = .ok h' ∧ h'.free = h.free ∧
      Holds h'.mem h'.head (release ⟨addr, size⟩ (l₁ ++ l₂)) := by
  have hends : ∀ b ∈ l₁, b.base + b.len ≤ addr := by
    intro b hb
    have hmem := mem_append_left l₂ hb
    have := hapart b hmem
    have := hs.positive b hmem
    have := hlow b hb
    simp only [Span.Apart] at *
    omega
  have hstarts : ∀ b ∈ l₂, addr + size ≤ b.base ∧ OnGrid b ∧ 0 < b.len := by
    intro b hb
    have hmem := mem_append_right l₁ hb
    have := hapart b hmem
    have hpos := hs.positive b hmem
    have := hhigh b hb
    refine ⟨?_, hgrid b hmem, hpos⟩
    simp only [Span.Apart] at *
    omega
  have hne : ∀ c ∈ l₁ ++ l₂, c.base ≠ addr := by
    intro c hc
    rcases mem_append.mp hc with hc' | hc'
    · have := hends c hc'
      have := hs.positive c hc
      omega
    · exact (hhigh c hc').ne'
  obtain ⟨node, r, habsorb, hjoin, hnode, hr, hsub⟩ :=
    absorb_eq checks haddr htop (readLink_linkAfter hl) hstarts
  have hright : ∀ c ∈ r, addr < c.base := fun c hc => hhigh c (hsub c hc)
  have hbelow : ∀ c ∈ l₁, c.base < addr := fun c hc =>
    lt_of_le_of_ne (hlow c hc) (hne c (mem_append_left _ hc))
  have hnew := writeNew hl (Separated.left hs) hne hbelow hr hright
  rw [Heap.insertAt, habsorb, Outcome.ok_bind, nonNull_of_pos haddr]
  cases l₁ using reverseRecOn with
  | nil =>
    rw [nil_append, release_of_lt hhigh, hjoin]
    exact ⟨_, rfl, rfl, hnew⟩
  | append_singleton l a =>
    rw [linkAfter_append] at hnew ⊢
    rw [append_assoc] at hl hs ⊢
    rw [singleton_append] at hl hs ⊢
    obtain ⟨-, hlen, -⟩ := readLink_linkAfter hl
    have ha := hends a (mem_append_right _ mem_cons_self)
    have hpos := (hgrid a (mem_append_left _ (mem_append_right _ mem_cons_self))).base_pos
    rw [hs.release_append hlow hhigh, hjoin]
    dsimp only
    rw [hlen, add_eq_ok (by omega), Outcome.ok_bind]
    by_cases htouch : a.base + a.len = addr
    · rw [if_pos htouch, add_eq_ok (by omega), Outcome.ok_bind, join, if_pos htouch]
      exact ⟨_, rfl, rfl, writeFront hl hs hr fun c hc => by have := hright c hc; omega⟩
    · rw [if_neg htouch, join, if_neg htouch]
      refine ⟨_, rfl, by simp, ?_⟩
      simpa using hnew

lemma insertFree_eq (hl : Holds h.mem h.head l) (hs : Separated l) (hgrid : ∀ b ∈ l, OnGrid b) (haddr : 0 < addr)
    (hsize : 0 < size) (htop : addr + size ≤ 2 ^ 64) (hapart : ∀ b ∈ l, Span.Apart ⟨addr, size⟩ b)
    (hlen : l.length ≤ Heap.maxNodes) (hfree : h.free + size < 2 ^ 64) :
    ∃ h', h.insertFree checks addr size = .ok h' ∧ h'.free = h.free + size ∧
      Holds h'.mem h'.head (release ⟨addr, size⟩ l) := by
  have hcounted : Holds { h with free := h.free + size }.mem { h with free := h.free + size }.head ([] ++ l) := hl
  have hfind : Heap.findLink { h with free := h.free + size } addr Heap.maxNodes none =
    .ok (linkAfter (below addr l)) :=
    findLink_eq hcounted hlen
  rw [Heap.insertFree, add_eq_ok hfree, Outcome.ok_bind]
  dsimp only
  rw [hfind, Outcome.ok_bind]
  have hsplit : below addr l ++ above addr l = l := below_append_above
  rw [nil_append, ← hsplit] at hcounted
  obtain ⟨h', heq, hcount, hlist⟩ := insertAt_eq checks hcounted (by rwa [hsplit]) (by rwa [hsplit]) haddr hsize
    htop (by rwa [hsplit]) (fun b hb => base_le_of_mem_below hb) fun b hb => lt_base_of_mem_above hs hb
  exact ⟨h', heq, hcount, by rwa [hsplit] at hlist⟩

end CrickerOs.UserHeap
