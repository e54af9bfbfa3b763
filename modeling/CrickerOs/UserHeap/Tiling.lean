import CrickerOs.Library.Runs
import CrickerOs.UserHeap.Refinement

namespace CrickerOs.UserHeap

open Library Library.Blocks Span List Nat

section

variable (layout : Layout) (checks : Bool)

def Layout.cost : ℕ := roundUp (max layout.size 1) minAlign

lemma Layout.align_cases : 0 < layout.align ∧ layout.align ∣ 2 ^ 63 ∧
    (layout.align ∣ minAlign ∨ minAlign ∣ layout.align) := by
  obtain ⟨k, hk, heq⟩ := layout.pow
  rw [heq]
  refine ⟨by positivity, pow_dvd_pow 2 (by omega), ?_⟩
  rcases le_total k 4 with hle | hle
  · exact .inl (pow_dvd_pow 2 hle)
  · exact .inr (pow_dvd_pow 2 hle)

lemma Layout.max_dvd : max layout.align minAlign ∣ 2 ^ 63 := by
  obtain ⟨-, hdvd, -⟩ := layout.align_cases
  rcases max_choice layout.align minAlign with h | h <;> rw [h]
  · exact hdvd
  · decide

lemma Layout.align_dvd_max : layout.align ∣ max layout.align minAlign := by
  obtain ⟨hpos, -, hdvd⟩ := layout.align_cases
  rcases hdvd with hdvd | hdvd
  · rw [max_eq_right (le_of_dvd (by decide) hdvd)]
    exact hdvd
  · rw [max_eq_left (le_of_dvd hpos hdvd)]

lemma Layout.min_dvd_max : minAlign ∣ max layout.align minAlign := by
  obtain ⟨hpos, -, hdvd⟩ := layout.align_cases
  rcases hdvd with hdvd | hdvd
  · rw [max_eq_right (le_of_dvd (by decide) hdvd)]
  · rw [max_eq_left (le_of_dvd hpos hdvd)]
    exact hdvd

lemma Layout.cost_dvd : minAlign ∣ layout.cost := dvd_roundUp _ (by decide)

lemma Layout.cost_pos : 0 < layout.cost := by
  have := le_roundUp (max layout.size 1) minAlign
  rw [Layout.cost]
  omega

lemma Layout.cost_bound : layout.cost + max layout.align minAlign ≤ 2 ^ 63 + minAlign := by
  have hb := layout.bound
  obtain ⟨hpos, -, -⟩ := layout.align_cases
  have hmin : minAlign = 16 := rfl
  have hdvd := dvd_sub (show minAlign ∣ 2 ^ 63 + minAlign by decide) layout.min_dvd_max
  have hle := roundUp_le (by decide) hdvd (show max layout.size 1 ≤ 2 ^ 63 + minAlign -
    max layout.align minAlign by omega)
  rw [Layout.cost]
  omega

lemma Layout.request : Request layout.cost (max layout.align minAlign) where
  size_pos := layout.cost_pos
  align_pos := by simp [minAlign]
  align_dvd := layout.max_dvd.trans (pow_dvd_pow 2 (by decide))
  bound := layout.cost_bound

lemma effectiveSize_eq : effectiveSize checks layout = .ok layout.cost := by
  have hb := layout.cost_bound
  have hmin : minAlign = 16 := rfl
  exact nextMultipleOf_eq_ok (by rw [Layout.cost] at hb; omega)

end

structure State where
  heap : Heap
  live : List (ℕ × Layout)
  donated : List Span

def spanOf (p : ℕ × Layout) : Span := ⟨p.1, p.2.cost⟩

inductive Action
  | addRegion (range : Span)
  | alloc (layout : Layout)
  | dealloc (addr : ℕ) (layout : Layout)
  | write (mem : ℕ → FreeBlock)

namespace State

def empty (mem : ℕ → FreeBlock) : State := ⟨.new mem, [], []⟩

def taken (s : State) : List Span := s.live.map spanOf

/-- What callers keep to. A range is donated once; an allocation is freed with its own layout; clients write where
they hold. -/
def Permits (checks : Bool) (s : State) : Action → Prop
  | .addRegion r => OnGrid r ∧ ∀ d ∈ s.donated, r.Apart d
  | .alloc layout => checks = false ∨ ∀ r ∈ s.donated, r.base + r.len ≤ 2 ^ 64 - max layout.align minAlign
  | .dealloc addr layout => (addr, layout) ∈ s.live
  | .write mem => ∀ a, a ∉ bytes s.taken → mem a = s.heap.mem a

def act (checks : Bool) (s : State) : Action → Outcome Unit (State × Option ℕ)
  | .addRegion r => do
    let heap ← s.heap.addRegion checks r.base r.len
    pure ({ s with heap, donated := r :: s.donated }, none)
  | .alloc layout => do
    let (heap, found) ← s.heap.alloc checks layout
    pure ({ s with heap, live := found.elim s.live fun a => (a, layout) :: s.live }, found)
  | .dealloc addr layout => do
    let heap ← s.heap.dealloc checks addr layout
    pure ({ s with heap, live := s.live.erase (addr, layout) }, none)
  | .write mem => pure ({ s with heap.mem := mem }, none)

structure Tiled (s : State) (l : List Span) : Prop where
  holds : Holds s.heap.mem s.heap.head l
  separated : Separated l
  grid : ∀ b ∈ l, OnGrid b
  count : s.heap.free = total l
  aligned : ∀ p ∈ s.live, p.2.align ∣ p.1 ∧ OnGrid (spanOf p)
  apart : s.taken.Pairwise Span.Apart
  clear : ∀ c ∈ s.taken, ∀ b ∈ l, c.Apart b
  cover : ∀ x, x ∈ bytes l ∨ x ∈ bytes s.taken ↔ x ∈ bytes s.donated
  ranges : ∀ r ∈ s.donated, OnGrid r

end State

section

variable {checks : Bool} {s s' : State} {l l' : List Span} {a b p r : Span} {layout : Layout} {addr : ℕ}

lemma OnGrid.merge (hb : OnGrid b) (hp : OnGrid p) (heq : b.base + b.len = p.base) :
    OnGrid ⟨b.base, b.len + p.len⟩ :=
  ⟨hb.base_pos, hb.base_dvd, dvd_add hb.len_dvd hp.len_dvd, by have := hp.top; simp only; omega⟩

lemma OnGrid.min_le_base (hb : OnGrid b) : minAlign ≤ b.base := le_of_dvd hb.base_pos hb.base_dvd

lemma total_lt (hs : Separated l) (hgrid : ∀ b ∈ l, OnGrid b) : minAlign + total l ≤ 2 ^ 64 :=
  hs.total_le (fun b hb => (hgrid b hb).min_le_base) (fun b hb => (hgrid b hb).top) (by decide)

lemma length_le_maxNodes (hs : Separated l) (hgrid : ∀ b ∈ l, OnGrid b) : l.length ≤ Heap.maxNodes := by
  have htotal := total_lt hs hgrid
  have hlen : l.length * minAlign ≤ total l :=
    length_le_total fun b hb => le_of_dvd (hs.positive b hb) (hgrid b hb).len_dvd
  have hmax : Heap.maxNodes = 2 ^ 60 := rfl
  simp only [minAlign] at htotal hlen
  omega

lemma insertFree_tiled {h : Heap} (checks : Bool) (hl : Holds h.mem h.head l) (hs : Separated l)
    (hgrid : ∀ b ∈ l, OnGrid b) (hcount : h.free = total l) (ha : OnGrid a) (hpos : 0 < a.len)
    (hapart : ∀ b ∈ l, a.Apart b) :
    ∃ h', h.insertFree checks a.base a.len = .ok h' ∧ Holds h'.mem h'.head (release a l) ∧
      Separated (release a l) ∧ (∀ b ∈ release a l, OnGrid b) ∧ h'.free = total (release a l) := by
  have hs' := hs.release hpos hapart
  have hgrid' : ∀ b ∈ release a l, OnGrid b := forall_release (fun b c hb hc heq => hb.merge hc heq) ha hgrid
  have hlt := total_lt hs' hgrid'
  rw [total_release] at hlt
  have hmin : minAlign = 16 := rfl
  obtain ⟨h', heq, hfree, hlist⟩ := insertFree_eq hl hs hgrid ha.base_pos hpos ha.top hapart
    (length_le_maxNodes hs hgrid) (by omega)
  exact ⟨h', heq, hlist, hs', hgrid', by rw [hfree, total_release, hcount, add_comm]⟩

lemma State.Tiled.roomy (hs : s.Tiled l) (hp : s.Permits checks (.alloc layout)) (hb : b ∈ l) :
    Roomy checks (max layout.align minAlign) b := by
  refine hp.imp_right fun hlow => ?_
  have hpos := hs.separated.positive b hb
  obtain ⟨r, hr, hbase⟩ := (hs.cover b.base).mp (.inl ⟨b, hb, mem_iff.mpr (by omega)⟩)
  have htop := hlow r hr
  have hq := layout.request
  have hdvd := dvd_sub hq.align_dvd (dvd_refl (max layout.align minAlign))
  have hmax : 0 < max layout.align minAlign := hq.align_pos
  rw [mem_iff] at hbase
  have hle := roundUp_le hmax hdvd (show b.base ≤ 2 ^ 64 - max layout.align minAlign by omega)
  omega

lemma State.Tiled.alloc_eq (hs : s.Tiled l) (hp : s.Permits checks (.alloc layout)) :
    match carve (fit layout.cost (max layout.align minAlign)) l with
    | none => s.heap.alloc checks layout = .ok (s.heap, none)
    | some (p, l') => ∃ h', s.heap.alloc checks layout = .ok (h', some p.base) ∧
        h'.free = s.heap.free - layout.cost ∧ Holds h'.mem h'.head l' := by
  rw [Heap.alloc, effectiveSize_eq, Outcome.ok_bind]
  refine @allocFrom_eq checks [] l s.heap _ _ _ hs.holds hs.separated hs.grid layout.request
    (fun b hb => hs.roomy hp hb) (fun b hb => ?_) (length_le_maxNodes hs.separated hs.grid)
  rw [hs.count]
  exact len_le_total hb

lemma OnGrid.pieces (hb : OnGrid b) (hw : p.Within b) (hbase : minAlign ∣ p.base) (hlen : minAlign ∣ p.len) :
    ∀ c ∈ Blocks.pieces b p, OnGrid c := by
  obtain ⟨hlo, hhi⟩ := hw
  have hpos := hb.base_pos
  have htop := hb.top
  have hend := dvd_add hbase hlen
  intro c hc
  simp only [Blocks.pieces, mem_append, mem_ite_nil_right, mem_singleton] at hc
  rcases hc with ⟨hlt, rfl⟩ | ⟨hlt, rfl⟩
  · exact ⟨hpos, hb.base_dvd, dvd_sub hbase hb.base_dvd, by simp only; omega⟩
  · exact ⟨by simp only; omega, hend, dvd_sub (dvd_add hb.base_dvd hb.len_dvd) hend, by simp only; omega⟩

lemma State.Tiled.insert (hs : s.Tiled l) (checks : Bool) (ha : OnGrid a) (hpos : 0 < a.len)
    (hapart : ∀ b ∈ l, a.Apart b) {live : List (ℕ × Layout)} {donated : List Span} (hsub : live.Sublist s.live)
    (hclear : ∀ c ∈ live.map spanOf, c.Apart a)
    (hcover : ∀ x, x ∈ a ∨ x ∈ bytes l ∨ x ∈ bytes (live.map spanOf) ↔ x ∈ bytes donated)
    (hranges : ∀ r ∈ donated, OnGrid r) :
    ∃ h', s.heap.insertFree checks a.base a.len = .ok h' ∧ (State.mk h' live donated).Tiled (release a l) := by
  obtain ⟨h', heq, hlist, hsep, hgrid, hfree⟩ := insertFree_tiled checks hs.holds hs.separated hs.grid hs.count ha
    hpos hapart
  refine ⟨h', heq, hlist, hsep, hgrid, hfree, fun p hp => hs.aligned p (hsub.subset hp),
    hs.apart.sublist (hsub.map _), ?_, ?_, hranges⟩
  · intro c hc b hb
    have hold : ∀ b ∈ l, c.Apart b := hs.clear c ((hsub.map spanOf).subset hc)
    refine apart_iff.mpr fun x hxc hxb => ?_
    have hx : x ∈ bytes (release a l) := ⟨b, hb, hxb⟩
    rw [bytes_release, mem_bytes_cons] at hx
    rcases hx with hx | ⟨d, hd, hx⟩
    · exact apart_iff.mp (hclear c hc) x hxc hx
    · exact apart_iff.mp (hold d hd) x hxc hx
  · intro x
    rw [bytes_release, mem_bytes_cons, or_assoc]
    exact hcover x

lemma not_mem_bytes_of_apart (hapart : ∀ b ∈ l, a.Apart b) {x : ℕ} (hx : x ∈ a) : x ∉ bytes l := by
  rintro ⟨b, hb, hxb⟩
  exact apart_iff.mp (hapart b hb) x hx hxb

variable (hs : s.Tiled l)
include hs

lemma State.Tiled.addRegion (hp : s.Permits checks (.addRegion r)) :
    ∃ s' l', s.act checks (.addRegion r) = .ok (s', none) ∧ s'.Tiled l' := by
  obtain ⟨hr, hapart⟩ := hp
  have hranges : ∀ d ∈ r :: s.donated, OnGrid d := forall_mem_cons.mpr ⟨hr, hs.ranges⟩
  have hout : ∀ x ∈ r, x ∉ bytes l ∧ x ∉ bytes s.taken := by
    intro x hx
    have hnot := mt (hs.cover x).mp (not_mem_bytes_of_apart hapart hx)
    exact not_or.mp hnot
  have hassert : ¬ (checks = true ∧ ¬ (minAlign ∣ r.base ∧ minAlign ∣ r.len)) :=
    fun h => h.2 ⟨hr.base_dvd, hr.len_dvd⟩
  simp only [State.act, Heap.addRegion, if_neg hassert]
  by_cases hzero : r.len = 0
  · rw [if_pos hzero]
    refine ⟨_, l, rfl, hs.holds, hs.separated, hs.grid, hs.count, hs.aligned, hs.apart, hs.clear, fun x => ?_,
      hranges⟩
    have hempty : x ∉ r := by
      rw [mem_iff]
      omega
    rw [mem_bytes_cons]
    exact (hs.cover x).trans (or_iff_right hempty).symm
  · obtain ⟨h', heq, htiled⟩ := hs.insert checks hr (pos_of_ne_zero hzero)
      (fun b hb => apart_iff.mpr fun x hx hxb => (hout x hx).1 ⟨b, hb, hxb⟩) (List.Sublist.refl s.live)
      (fun c hc => apart_iff.mpr fun x hxc hx => (hout x hx).2 ⟨c, hc, hxc⟩)
      (fun x => by rw [mem_bytes_cons, ← hs.cover x]; rfl) hranges
    rw [if_neg hzero, heq]
    exact ⟨_, _, rfl, htiled⟩

lemma State.Tiled.dealloc (hp : s.Permits checks (.dealloc addr layout)) :
    ∃ s' l', s.act checks (.dealloc addr layout) = .ok (s', none) ∧ s'.Tiled l' := by
  have hmem : (addr, layout) ∈ s.live := hp
  have hperm := perm_cons_erase hmem
  have hpair : (spanOf (addr, layout) :: (s.live.erase (addr, layout)).map spanOf).Pairwise Span.Apart :=
    ((hperm.map spanOf).pairwise_iff fun h => h.symm).mp hs.apart
  obtain ⟨-, hgrid⟩ := hs.aligned _ hmem
  have hcover : ∀ x, x ∈ spanOf (addr, layout) ∨ x ∈ bytes l ∨
      x ∈ bytes ((s.live.erase (addr, layout)).map spanOf) ↔ x ∈ bytes s.donated := by
    intro x
    have hsplit : x ∈ bytes s.taken ↔ x ∈ spanOf (addr, layout) ∨
      x ∈ bytes ((s.live.erase (addr, layout)).map spanOf) := by
      rw [← mem_bytes_cons, ← map_cons]
      simp only [bytes, State.taken, Set.mem_ofPred_eq, (hperm.map spanOf).mem_iff]
    rw [← hs.cover x, hsplit]
    tauto
  obtain ⟨h', heq, htiled⟩ := hs.insert checks hgrid layout.cost_pos
    (hs.clear _ (mem_map_of_mem hmem)) erase_sublist
    (fun c hc => ((pairwise_cons.mp hpair).1 c hc).symm) hcover hs.ranges
  have hfreed : s.heap.dealloc checks addr layout = .ok h' := by
    rw [Heap.dealloc, effectiveSize_eq, Outcome.ok_bind]
    exact heq
  simp only [State.act, hfreed]
  exact ⟨_, _, rfl, htiled⟩

lemma State.Tiled.write {mem : ℕ → FreeBlock} (hp : s.Permits checks (.write mem)) :
    ∃ s' l', s.act checks (.write mem) = .ok (s', none) ∧ s'.Tiled l' := by
  refine ⟨_, l, rfl, hs.holds.congr fun b hb => hp b.base ?_, hs.separated, hs.grid, hs.count, hs.aligned,
    hs.apart, hs.clear, hs.cover, hs.ranges⟩
  rintro ⟨c, hc, hx⟩
  have hpos := hs.separated.positive b hb
  exact apart_iff.mp (hs.clear c hc b hb) b.base hx (mem_iff.mpr (by omega))

lemma State.Tiled.alloc (hp : s.Permits checks (.alloc layout)) :
    ∃ s' found l', s.act checks (.alloc layout) = .ok (s', found) ∧ s'.Tiled l' := by
  have heq := hs.alloc_eq hp
  cases hc : carve (fit layout.cost (max layout.align minAlign)) l with
  | none =>
    rw [hc] at heq
    simp only [State.act, heq]
    exact ⟨_, none, l, rfl, hs⟩
  | some taken =>
    obtain ⟨p, l'⟩ := taken
    rw [hc] at heq
    obtain ⟨h', hok, hfree, hlist⟩ := heq
    obtain ⟨l₁, b, l₂, rfl, hfit, rfl⟩ := exists_of_carve hc
    obtain ⟨hw, rfl⟩ := fit_eq_some hfit
    have hq := layout.request
    have hb : b ∈ l₁ ++ b :: l₂ := mem_append_right _ mem_cons_self
    have hgrid := hs.grid b hb
    have hround : max layout.align minAlign ∣ roundUp b.base (max layout.align minAlign) :=
      dvd_roundUp _ hq.align_pos
    have hbase := layout.min_dvd_max.trans hround
    have hapart := hs.separated.apart_replace hw
    have hnew : ∀ c ∈ s.taken, Span.Apart ⟨roundUp b.base (max layout.align minAlign), layout.cost⟩ c :=
      fun c hc => Span.Apart.mono_left (hs.clear c hc b hb).symm hw
    simp only [State.act, hok]
    refine ⟨_, _, _, rfl, hlist, hs.separated.replace hw hq.size_pos, ?_, ?_, ?_, ?_, ?_, ?_, hs.ranges⟩
    · intro c hc
      rcases mem_append.mp hc with hc | hc
      · exact hs.grid c (mem_append_left _ hc)
      rcases mem_append.mp hc with hc | hc
      · exact hgrid.pieces hw hbase layout.cost_dvd c hc
      · exact hs.grid c (mem_append_right _ (mem_cons_of_mem _ hc))
    · have htotal := @total_replace l₁ l₂ b _ hw
      have hcount := hs.count
      simp only at htotal ⊢
      omega
    · refine forall_mem_cons.mpr ⟨⟨layout.align_dvd_max.trans hround, ?_⟩, hs.aligned⟩
      have hpos := hgrid.base_pos
      have htop := hgrid.top
      have hlo := hw.1
      have hhi := hw.2
      simp only at hlo hhi
      exact ⟨by simp only [spanOf]; omega, hbase, layout.cost_dvd, by simp only [spanOf]; omega⟩
    · exact pairwise_cons.mpr ⟨hnew, hs.apart⟩
    · refine forall_mem_cons.mpr ⟨hapart, fun c hc d hd => ?_⟩
      refine apart_iff.mpr fun x hxc hxd => ?_
      have hx := (mem_bytes_replace hw).mpr (.inl ⟨d, hd, hxd⟩)
      exact not_mem_bytes_of_apart (hs.clear c hc) hxc hx
    · intro x
      rw [← hs.cover x, mem_bytes_replace hw]
      simp only [State.taken, Option.elim, map_cons, mem_bytes_cons, spanOf]
      tauto

lemma State.Tiled.act {action : Action} (hp : s.Permits checks action) :
    ∃ s' found l', s.act checks action = .ok (s', found) ∧ s'.Tiled l' := by
  cases action with
  | addRegion r =>
    obtain ⟨s', l', heq, htiled⟩ := hs.addRegion hp
    exact ⟨s', none, l', heq, htiled⟩
  | alloc layout => exact hs.alloc hp
  | dealloc addr layout =>
    obtain ⟨s', l', heq, htiled⟩ := hs.dealloc hp
    exact ⟨s', none, l', heq, htiled⟩
  | write mem =>
    obtain ⟨s', l', heq, htiled⟩ := hs.write hp
    exact ⟨s', none, l', heq, htiled⟩

end

section

variable {checks : Bool} {s s' : State} {l : List Span} {layout : Layout}

def State.step (checks : Bool) (s : State) (action : Action) : Option State :=
  match s.act checks action with
  | .ok (s', _) => some s'
  | _ => none

def State.Start (s : State) : Prop := ∃ mem, s = .empty mem

lemma State.tiled_empty (mem : ℕ → FreeBlock) : (State.empty mem).Tiled [] where
  holds := rfl
  separated := separated_nil
  grid := by simp
  count := rfl
  aligned := by simp [State.empty]
  apart := List.Pairwise.nil
  clear := by simp
  cover := by simp [State.empty, State.taken]
  ranges := by simp [State.empty]

lemma exists_tiled (hr : Reach (State.step checks) (State.Permits checks) State.Start s) : ∃ l, s.Tiled l := by
  refine hr.invariant (fun s => ∃ l, s.Tiled l) ?_ ?_
  · rintro s ⟨mem, rfl⟩
    exact ⟨[], State.tiled_empty mem⟩
  · rintro s action s' ⟨l, hs⟩ hp hstep
    obtain ⟨s'', found, l', heq, htiled⟩ := hs.act hp
    rw [State.step, heq] at hstep
    cases hstep
    exact ⟨l', htiled⟩

def CanHold (layout : Layout) (b : Span) : Prop :=
  ∃ q, layout.align ∣ q ∧ b.base ≤ q ∧ q + layout.cost ≤ b.base + b.len

-- An alignment below the grid is met by the start of the block, and one above it by no address before the rounded
-- one.
lemma fit_eq_none_iff {b : Span} (hb : OnGrid b) :
    fit layout.cost (max layout.align minAlign) b = none ↔ ¬ CanHold layout b := by
  have hq := layout.request
  have hround := dvd_roundUp b.base hq.align_pos
  have hle := le_roundUp b.base (max layout.align minAlign)
  unfold fit
  constructor
  · rintro hnone ⟨q, hdvd, hlo, hhi⟩
    have hsmall : roundUp b.base (max layout.align minAlign) ≤ q := by
      obtain ⟨hpos, -, hcase⟩ := layout.align_cases
      rcases hcase with hcase | hcase
      · have hmax : max layout.align minAlign = minAlign := max_eq_right (le_of_dvd (by decide) hcase)
        rw [hmax]
        exact (roundUp_le (by decide) hb.base_dvd le_rfl).trans hlo
      · have hmax : max layout.align minAlign = layout.align := max_eq_left (le_of_dvd hpos hcase)
        rw [hmax]
        exact roundUp_le hpos hdvd hlo
    rw [if_pos (by omega)] at hnone
    cases hnone
  · intro hnot
    refine if_neg fun hfits => hnot ⟨_, layout.align_dvd_max.trans hround, hle, hfits⟩

lemma State.Tiled.alloc_none_iff (hs : s.Tiled l) (hp : s.Permits checks (.alloc layout)) :
    (∃ s', s.act checks (.alloc layout) = .ok (s', none)) ↔ ∀ b ∈ l, ¬ CanHold layout b := by
  have heq := hs.alloc_eq hp
  have hcarve : carve (fit layout.cost (max layout.align minAlign)) l = none ↔ ∀ b ∈ l, ¬ CanHold layout b := by
    rw [carve_eq_none]
    exact forall₂_congr fun b hb => fit_eq_none_iff (hs.grid b hb)
  rw [← hcarve]
  cases hc : carve (fit layout.cost (max layout.align minAlign)) l with
  | none =>
    rw [hc] at heq
    simp only [State.act, heq]
    exact ⟨fun _ => trivial, fun _ => ⟨_, rfl⟩⟩
  | some taken =>
    rw [hc] at heq
    obtain ⟨h', hok, -⟩ := heq
    refine iff_of_false ?_ (by simp)
    rintro ⟨s', hact⟩
    simp only [State.act, hok] at hact
    cases hact

lemma countFrom_eq {h : Heap} {x : Option ℕ} {fuel : ℕ} (hl : Holds h.mem x l) (hfuel : l.length ≤ fuel) :
    h.countFrom fuel x = .ok l.length := by
  induction l generalizing x fuel with
  | nil =>
    obtain rfl : x = none := hl
    rw [Heap.countFrom.eq_def]
    rfl
  | cons b l ih =>
    obtain ⟨fuel, rfl⟩ : ∃ n, fuel = n + 1 := ⟨fuel - 1, by rw [length_cons] at hfuel; omega⟩
    obtain ⟨rfl, -, hnext⟩ := hl
    rw [Heap.countFrom, ih hnext (le_of_succ_le_succ hfuel)]
    rfl

/-- The heap hands out no byte twice and loses none, with overflow checked or not. -/
theorem heap_tiles_donations (checks : Bool) (s : State)
    (hr : Reach (State.step checks) (State.Permits checks) State.Start s) :
    ∃ l, Holds s.heap.mem s.heap.head l ∧ l.Pairwise (fun b c => b.base + b.len < c.base) ∧
      (∀ b ∈ l, 0 < b.len ∧ minAlign ∣ b.base ∧ minAlign ∣ b.len) ∧ s.heap.free = total l ∧
      (∀ p ∈ s.live, p.2.align ∣ p.1) ∧ s.taken.Pairwise Span.Apart ∧ (∀ c ∈ s.taken, ∀ b ∈ l, c.Apart b) ∧
      bytes l ∪ bytes s.taken = bytes s.donated ∧
      (∀ action, s.Permits checks action → ∃ s' found, s.act checks action = .ok (s', found)) ∧
      (∀ layout, s.Permits checks (.alloc layout) →
        ((∃ s', s.act checks (.alloc layout) = .ok (s', none)) ↔ ∀ b ∈ l, ¬ CanHold layout b)) ∧
      (s.live = [] → s.heap.blockCount = .ok {r | IsRun (bytes s.donated) r}.ncard) := by
  obtain ⟨l, hs⟩ := exists_tiled hr
  have hcover : bytes l ∪ bytes s.taken = bytes s.donated := Set.ext hs.cover
  refine ⟨l, hs.holds, hs.separated.sorted, fun b hb => ?_, hs.count, fun p hp => (hs.aligned p hp).1, hs.apart,
    hs.clear, hcover, fun action hp => ?_, fun layout hp => hs.alloc_none_iff hp, fun hlive => ?_⟩
  · exact ⟨hs.separated.positive b hb, (hs.grid b hb).base_dvd, (hs.grid b hb).len_dvd⟩
  · obtain ⟨s', found, -, heq, -⟩ := hs.act hp
    exact ⟨s', found, heq⟩
  · have hempty : bytes s.taken = ∅ := by
      ext x
      simp [State.taken, hlive]
    rw [Heap.blockCount, countFrom_eq hs.holds (length_le_maxNodes hs.separated hs.grid), hs.separated.length_eq,
      ← hcover, hempty, Set.union_empty]

def State.oneRange (r : Span) : State :=
  ⟨⟨some r.base, r.len, Function.update (fun _ => ⟨0, none⟩) r.base ⟨r.len, none⟩⟩, [], [r]⟩

lemma act_addRegion_empty {r : Span} (hr : OnGrid r) (hpos : 0 < r.len) (hlt : r.len < 2 ^ 64) :
    (State.empty fun _ => ⟨0, none⟩).act checks (.addRegion r) = .ok (.oneRange r, none) := by
  have hassert : ¬ (checks = true ∧ ¬ (minAlign ∣ r.base ∧ minAlign ∣ r.len)) :=
    fun h => h.2 ⟨hr.base_dvd, hr.len_dvd⟩
  have hadd : add checks 0 r.len = .ok (0 + r.len) := add_eq_ok (by omega)
  have hfind : Heap.findLink ⟨none, 0 + r.len, fun _ => ⟨0, none⟩⟩ r.base Heap.maxNodes none = .ok none := by
    rw [Heap.findLink.eq_def]
    rfl
  simp only [State.act, Heap.addRegion, if_neg hassert, if_neg hpos.ne', State.empty, Heap.new, Heap.insertFree,
    hadd, Outcome.ok_bind, hfind]
  simp [Heap.insertAt, Heap.readLink, Heap.absorb, Heap.writeNode, Heap.writeLink, nonNull_of_pos hr.base_pos,
    State.oneRange]
  rfl

lemma tiled_oneRange {r : Span} (hr : OnGrid r) (hpos : 0 < r.len) : (State.oneRange r).Tiled [r] where
  holds := by simp [Holds, State.oneRange]
  separated := separated_cons.mpr ⟨hpos, by simp, separated_nil⟩
  grid := by simpa using hr
  count := by simp [State.oneRange, total]
  aligned := by simp [State.oneRange]
  apart := List.Pairwise.nil
  clear := by simp [State.oneRange, State.taken]
  cover := by simp [State.oneRange, State.taken]
  ranges := by simpa [State.oneRange] using hr

lemma reach_oneRange {r : Span} (hr : OnGrid r) (hpos : 0 < r.len) (hlt : r.len < 2 ^ 64) :
    Reach (State.step checks) (State.Permits checks) State.Start (.oneRange r) := by
  refine .next (.init ⟨fun _ => ⟨0, none⟩, rfl⟩) (show State.Permits checks _ (.addRegion r)
    from ⟨hr, by simp [State.empty]⟩) ?_
  rw [State.step, act_addRegion_empty hr hpos hlt]

noncomputable instance decidablePermits : DecidablePred (s.Permits checks)
  | .alloc _ => inferInstanceAs (Decidable (_ ∨ _))
  | .dealloc .. => inferInstanceAs (Decidable (_ ∈ s.live))
  | .addRegion _ | .write _ => Classical.propDecidable _

noncomputable def State.onPage (checks : Bool) : List Action → Option State :=
  execute (step checks) (Permits checks) (.oneRange ⟨4096, 4096⟩)

lemma reach_onPage {as : List Action} (h : State.onPage checks as = some s) :
    Reach (State.step checks) (State.Permits checks) State.Start s :=
  (reach_oneRange ⟨by decide, by decide, by decide, by decide⟩ (by decide) (by decide)).execute h

def halfLine : Layout := ⟨64, 16, ⟨4, by decide, rfl⟩, by decide⟩

def line : Layout := ⟨128, 16, ⟨4, by decide, rfl⟩, by decide⟩

/-- Of two allocations the first is freed. -/
theorem heap_tiles_donations_page : ∃ s l,
    State.onPage true [.alloc halfLine, .alloc halfLine, .dealloc 4096 halfLine] = some s ∧
    s.live = [(4160, halfLine)] ∧ s.heap.free = total l ∧
    bytes l ∪ bytes [⟨4160, 64⟩] = bytes [⟨4096, 4096⟩] := by
  obtain ⟨s, hs, hlive, hdonated⟩ : ∃ s,
      State.onPage true [.alloc halfLine, .alloc halfLine, .dealloc 4096 halfLine] = some s ∧
      s.live = [(4160, halfLine)] ∧ s.donated = [⟨4096, 4096⟩] := exists_execute (by decide +kernel)
  obtain ⟨l, -, -, -, hfree, -, -, -, hcover, -⟩ := heap_tiles_donations true s (reach_onPage hs)
  rw [State.taken, hlive, hdonated] at hcover
  exact ⟨s, l, hs, hlive, hfree, hcover⟩

/-- The page cannot hold the request; with overflow checked `alloc` panics instead of saying so. -/
theorem alloc_panics_near_top : ∃ layout,
    Reach (State.step true) (State.Permits true) State.Start (.oneRange ⟨2 ^ 64 - 8192, 4096⟩) ∧
    ¬ CanHold layout ⟨2 ^ 64 - 8192, 4096⟩ ∧
    (State.oneRange ⟨2 ^ 64 - 8192, 4096⟩).act true (.alloc layout) = .panic ∧
    ∃ s', (State.oneRange ⟨2 ^ 64 - 8192, 4096⟩).act false (.alloc layout) = .ok (s', none) := by
  have hgrid : OnGrid ⟨2 ^ 64 - 8192, 4096⟩ := ⟨by decide, by decide, by decide, by decide⟩
  have hnot : ¬ CanHold ⟨1, 16384, ⟨14, by decide, rfl⟩, by decide⟩ ⟨2 ^ 64 - 8192, 4096⟩ := by
    rintro ⟨q, ⟨k, rfl⟩, hlo, hhi⟩
    simp only at hlo hhi
    omega
  refine ⟨⟨1, 16384, ⟨14, by decide, rfl⟩, by decide⟩, reach_oneRange hgrid (by decide) (by decide), hnot, ?_, ?_⟩
  · have hwalk : Heap.maxNodes = (2 ^ 60 - 1) + 1 := rfl
    simp only [State.act, Heap.alloc, effectiveSize_eq, Outcome.ok_bind, hwalk]
    rw [Heap.allocFrom.eq_def]
    rfl
  · apply ((tiled_oneRange hgrid (by decide)).alloc_none_iff (.inl rfl)).mpr
    simpa using hnot

lemma State.Tiled.bytes_eq (hs : s.Tiled l) : bytes l = bytes s.donated \ bytes s.taken := by
  ext x
  rw [Set.mem_sdiff, ← hs.cover x]
  constructor
  · intro hx
    refine ⟨.inl hx, ?_⟩
    rintro ⟨c, hc, hxc⟩
    exact not_mem_bytes_of_apart (hs.clear c hc) hxc hx
  · rintro ⟨hx, hnot⟩
    exact hx.resolve_right hnot

/-- Whatever led to it, a heap's answers depend on the donated and the live bytes alone. -/
theorem allocation_depends_on_live_bytes {checks' : Bool} {s' : State}
    (hr : Reach (State.step checks) (State.Permits checks) State.Start s)
    (hr' : Reach (State.step checks') (State.Permits checks') State.Start s')
    (hdonated : bytes s.donated = bytes s'.donated) (htaken : bytes s.taken = bytes s'.taken)
    (hp : s.Permits checks (.alloc layout)) (hp' : s'.Permits checks' (.alloc layout)) :
    s.heap.free = s'.heap.free ∧ s.heap.blockCount = s'.heap.blockCount ∧
      ∃ found t t', s.act checks (.alloc layout) = .ok (t, found) ∧
        s'.act checks' (.alloc layout) = .ok (t', found) ∧ bytes t.donated = bytes t'.donated ∧
        bytes t.taken = bytes t'.taken := by
  obtain ⟨l, hs⟩ := exists_tiled hr
  obtain ⟨l', hs'⟩ := exists_tiled hr'
  obtain rfl : l = l' := hs.separated.ext hs'.separated (by rw [hs.bytes_eq, hs'.bytes_eq, hdonated, htaken])
  have hfuel := length_le_maxNodes hs.separated hs.grid
  refine ⟨hs.count.trans hs'.count.symm, (countFrom_eq hs.holds hfuel).trans (countFrom_eq hs'.holds hfuel).symm,
    ?_⟩
  have heq := hs.alloc_eq hp
  have heq' := hs'.alloc_eq hp'
  cases hc : carve (fit layout.cost (max layout.align minAlign)) l with
  | none =>
    rw [hc] at heq heq'
    exact ⟨none, s, s', by rw [State.act, heq]; rfl, by rw [State.act, heq']; rfl, hdonated, htaken⟩
  | some found =>
    rw [hc] at heq heq'
    obtain ⟨h, hok, -⟩ := heq
    obtain ⟨h', hok', -⟩ := heq'
    refine ⟨some found.1.base, ⟨h, (_, layout) :: s.live, s.donated⟩, ⟨h', (_, layout) :: s'.live, s'.donated⟩,
      by rw [State.act, hok]; rfl, by rw [State.act, hok']; rfl, hdonated, ?_⟩
    ext x
    exact mem_bytes_cons.trans ((or_congr_right (Set.ext_iff.mp htaken x)).trans mem_bytes_cons.symm)

/-- Two live allocations with overflow checked, and one over the same bytes unchecked. -/
theorem allocation_same_with_and_without_checks : ∃ s s' found t t',
    State.onPage true [.alloc halfLine, .alloc halfLine] = some s ∧ State.onPage false [.alloc line] = some s' ∧
    s.act true (.alloc line) = .ok (t, found) ∧ s'.act false (.alloc line) = .ok (t', found) := by
  obtain ⟨s, hs, hlive, hdonated⟩ : ∃ s, State.onPage true [.alloc halfLine, .alloc halfLine] = some s ∧
      s.live = [(4160, halfLine), (4096, halfLine)] ∧ s.donated = [⟨4096, 4096⟩] :=
    exists_execute (by decide +kernel)
  obtain ⟨s', hs', hlive', hdonated'⟩ : ∃ s, State.onPage false [.alloc line] = some s ∧
      s.live = [(4096, line)] ∧ s.donated = [⟨4096, 4096⟩] := exists_execute (by decide +kernel)
  have htaken : bytes s.taken = bytes s'.taken := by
    rw [State.taken, State.taken, hlive, hlive']
    ext x
    show x ∈ bytes [⟨4160, 64⟩, ⟨4096, 64⟩] ↔ x ∈ bytes [⟨4096, 128⟩]
    simp only [mem_bytes_cons, Span.mem_iff, not_mem_bytes_nil, or_false]
    omega
  obtain ⟨-, -, found, t, t', heq, heq', -⟩ := allocation_depends_on_live_bytes (reach_onPage hs)
    (reach_onPage hs') (by rw [hdonated, hdonated']) htaken
    (show s.Permits true (.alloc line) from .inr (by rw [hdonated]; decide)) (.inl rfl)
  exact ⟨s, s', found, t, t', hs, hs', heq, heq'⟩

end

end CrickerOs.UserHeap
