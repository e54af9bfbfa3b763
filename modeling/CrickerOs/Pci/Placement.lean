import CrickerOs.Pci.Sizing

namespace CrickerOs.Pci

open Library Library.Outcome Function Settles List

variable {σ : Type} {cfg : ConfigSpace σ} {arch : Arch} {w : Windows} {may : Prop} {k k' : Kernel σ} {bdf : Bdf}

def limitOf (arch : Arch) (w : Windows) : ℕ := w.bar + min arch.barMapped w.barSize

/-- What was placed lies between the start of the window and the cursor, in the order in which it was placed. -/
structure Kernel.Ordered (arch : Arch) (w : Windows) (k : Kernel σ) : Prop where
  limit : k.barLimit = limitOf arch w
  low : w.bar ≤ k.barNext
  high : k.barNext ≤ k.barLimit
  inside : ∀ e ∈ k.placed, w.bar ≤ e.base ∧ e.base + e.size ≤ k.barNext ∧ e.size ∣ e.base
  apart : k.placed.Pairwise fun a b => a.base + a.size ≤ b.base

structure Kernel.Grows (k k' : Kernel σ) : Prop where
  ecamBase : k'.ecamBase = k.ecamBase
  next : k.barNext ≤ k'.barNext
  placed : k.placed <+: k'.placed

lemma Kernel.Grows.refl (k : Kernel σ) : k.Grows k := ⟨rfl, le_rfl, prefix_refl _⟩

lemma Kernel.Grows.trans {k'' : Kernel σ} (h : k.Grows k') (h' : k'.Grows k'') : k.Grows k'' :=
  ⟨h'.ecamBase.trans h.ecamBase, h.next.trans h'.next, h.placed.trans h'.placed⟩

lemma Kernel.Ordered.after (h : k.Ordered arch w) (d : σ) (acc : List Access) : (k.after d acc).Ordered arch w :=
  ⟨h.limit, h.low, h.high, h.inside, h.apart⟩

lemma Kernel.grows_after (d : σ) (acc : List Access) : k.Grows (k.after d acc) := ⟨rfl, le_rfl, prefix_refl _⟩

lemma kept_after (h : k'.Ordered arch w ∧ k.Grows k') (d : σ) (acc : List Access) :
    (k'.after d acc).Ordered arch w ∧ k.Grows (k'.after d acc) :=
  ⟨h.1.after d acc, h.2.trans (Kernel.grows_after d acc)⟩

section

variable {bar : Bar} {base : ℕ}

def Kernel.place (k : Kernel σ) (base size : ℕ) : Kernel σ :=
  { k with barNext := base + size, placed := k.placed ++ [⟨base, size⟩] }

structure Kernel.Free (k : Kernel σ) (base size : ℕ) : Prop where
  next : k.barNext ≤ base
  aligned : size ∣ base
  limit : base + size ≤ k.barLimit

lemma Kernel.Ordered.place {size : ℕ} (h : k.Ordered arch w) (hfree : k.Free base size) :
    (k.place base size).Ordered arch w := by
  have hnext := hfree.next
  have hlow := h.low
  refine ⟨h.limit, by change w.bar ≤ base + size; omega, hfree.limit, ?_, ?_⟩
  · refine forall_mem_append.mpr ⟨fun e he => ?_, ?_⟩
    · obtain ⟨hbar, hend, hdvd⟩ := h.inside e he
      exact ⟨hbar, by change _ ≤ base + size; omega, hdvd⟩
    · intro e he
      cases mem_singleton.mp he
      exact ⟨by dsimp only; omega, le_rfl, hfree.aligned⟩
  · refine pairwise_append.mpr ⟨h.apart, pairwise_singleton _ _, fun e he e' he' => ?_⟩
    cases mem_singleton.mp he'
    obtain ⟨-, hend, -⟩ := h.inside e he
    exact hend.trans hnext

lemma Kernel.grows_place {size : ℕ} (hfree : k.Free base size) : k.Grows (k.place base size) :=
  ⟨rfl, hfree.next.trans (Nat.le_add_right _ _), prefix_append _ _⟩

def Oversized (limit : ℕ) (bar : Bar) : Prop := 2 ^ 64 < limit + 2 * bar.size

lemma comes_nextMultipleOf {a n : ℕ} {post : ℕ → Prop} (hn : 0 < n)
    (hpost : ∀ b, a ≤ b → b < a + n → n ∣ b → post b) (hmay : 2 ^ 64 ≤ a + n → may) :
    (nextMultipleOf a n).Comes may post := by
  have hlt := Nat.mod_lt a hn
  have hle := Nat.mod_le a n
  rw [nextMultipleOf]
  split_ifs with hzero
  · exact hpost a le_rfl (by omega) (Nat.dvd_of_mod_eq_zero hzero)
  · refine comes_add (fun _ => hpost _ (by omega) (by omega) ?_) fun h => hmay (by omega)
    have hsum : a + (n - a % n) = a - a % n + n := by omega
    rw [hsum]
    exact dvd_add (Nat.dvd_sub_mod a) dvd_rfl

lemma reserve_settles (hsized : bar.WellSized) (hhigh : k.barNext ≤ k.barLimit)
    (hmay : Oversized k.barLimit bar → may) : Settles may (reserve bar) k fun r k' =>
      (r = none → k' = k) ∧ ∀ base, r = some base → k.Free base bar.size ∧ k' = k.place base bar.size := by
  have hpos := hsized.pos
  have hmax : max bar.size 0x10 = bar.size := max_eq_left hpos
  rw [Oversized] at hmay
  refine get_bind ?_
  rw [hmax]
  refine bind (lift (comes_nextMultipleOf (by omega) (fun base hnext hlt hdvd => ?_) fun h => hmay (by omega)))
  refine bind (lift (comes_add (fun hend => ?_) fun h => hmay (by omega)))
  split_ifs with hlimit
  · exact pure ⟨fun _ => rfl, fun _ h => nomatch h⟩
  · refine set_bind (pure ⟨nofun, ?_⟩)
    rintro _ hbase
    cases hbase
    exact ⟨⟨hnext, hdvd, not_lt.mp hlimit⟩, rfl⟩

lemma settles_assign {i : ℕ} {wide : Bool} :
    Settles may (assign cfg bdf i base wide) k fun _ k' => ∃ d acc, k' = k.after d acc := by
  have hoff : (BAR0 + i * 4) % 4 = 0 := by
    rw [BAR0]
    omega
  refine bind (settles_write hoff fun d => ?_)
  cases wide with
  | true =>
    refine settles_write (by omega) fun d' => ⟨d', _, after_after⟩
  | false => exact ⟨d, _, rfl⟩

def PlacedAs (sized placed : Option Bar) : Prop :=
  (sized = none → placed = none) ∧
    ∀ bar, sized = some bar → ∃ base, placed = some { bar with base := base } ∧ (bar.base ≠ 0 → base = bar.base)

def extentOf (sized placed : Option Bar) : Option Extent :=
  if sized.any (fun bar => bar.base = 0) then placed.map fun bar => ⟨bar.base, bar.size⟩ else none

structure Places (slots : List (Fin 6)) (k k' : Kernel σ) (sized bars : Bars) : Prop where
  others : ∀ i ∉ slots, bars i = sized i
  kept : ∀ i ∈ slots, PlacedAs (sized i) (bars i)
  placed : k'.placed = k.placed ++ slots.filterMap fun i => extentOf (sized i) (bars i)

variable {slots : List (Fin 6)} {sized bars : Bars} {i : Fin 6}

lemma placedAs_self {b : Option Bar} : PlacedAs b b :=
  ⟨id, fun bar hbar => ⟨bar.base, hbar, fun _ => rfl⟩⟩

lemma Places.cons_kept (h : Places slots k k' sized bars) (hi : i ∉ slots)
    (hnone : extentOf (sized i) (sized i) = none) : Places (i :: slots) k k' sized bars := by
  have hsame := h.others i hi
  refine ⟨fun j hj => h.others j fun hmem => hj (mem_cons_of_mem _ hmem), ?_, ?_⟩
  · refine forall_mem_cons.mpr ⟨?_, h.kept⟩
    rw [hsame]
    exact placedAs_self
  · rw [h.placed, filterMap_cons_none]
    rw [hsame]
    exact hnone

lemma Places.cons_placed {d : σ} {acc : List Access} (hi : i ∉ slots) (hbar : sized i = some bar)
    (hzero : bar.base = 0) (h : Places slots ((k.place base bar.size).after d acc) k'
      (update sized i (some { bar with base := base })) bars) : Places (i :: slots) k k' sized bars := by
  have hself : bars i = some { bar with base := base } := by
    rw [h.others i hi, update_self]
  have hothers {j : Fin 6} (hj : j ∈ slots) : update sized i (some { bar with base := base }) j = sized j :=
    update_of_ne (ne_of_mem_of_not_mem hj hi) _ _
  refine ⟨fun j hj => ?_, forall_mem_cons.mpr ⟨?_, fun j hj => ?_⟩, ?_⟩
  · rw [mem_cons, not_or] at hj
    rw [h.others j hj.2, update_of_ne hj.1]
  · refine ⟨fun hnone => ?_, fun bar' hbar' => ?_⟩
    · rw [hbar] at hnone
      exact nomatch hnone
    · rw [hbar] at hbar'
      cases hbar'
      exact ⟨base, hself, fun hne => absurd hzero hne⟩
  · rw [← hothers hj]
    exact h.kept j hj
  · have hextent : extentOf (sized i) (bars i) = some ⟨base, bar.size⟩ := by
      rw [extentOf, hself, hbar]
      simp [hzero]
    have hrest : slots.filterMap (fun j => extentOf (update sized i (some { bar with base := base }) j) (bars j)) =
        slots.filterMap fun j => extentOf (sized j) (bars j) := filterMap_congr fun j hj => by rw [hothers hj]
    rw [h.placed, hrest, filterMap_cons, hextent]
    simp [Kernel.place, Kernel.after]

lemma placeFrom_settles (hnodup : slots.Nodup) (hk : k.Ordered arch w)
    (hsized : ∀ i bar, sized i = some bar → bar.WellSized)
    (hmay : ∀ i bar, sized i = some bar → bar.base = 0 → Oversized (limitOf arch w) bar → may) :
    Settles may (placeFrom cfg bdf slots sized) k fun r k' =>
      k'.Ordered arch w ∧ k.Grows k' ∧ (r.1 = true → Places slots k k' sized r.2) := by
  induction slots generalizing k sized with
  | nil => exact pure ⟨hk, .refl k, fun _ => ⟨fun _ _ => rfl, nofun, (append_nil _).symm⟩⟩
  | cons i slots ih =>
    obtain ⟨hi, hnodup⟩ := nodup_cons.mp hnodup
    rw [placeFrom]
    cases hbar : sized i with
    | none =>
      refine (ih hnodup hk hsized hmay).mono fun r k' hk' =>
        ⟨hk'.1, hk'.2.1, fun hr => (hk'.2.2 hr).cons_kept hi ?_⟩
      rw [hbar]
      rfl
    | some bar =>
      dsimp only
      split_ifs with hbase
      · refine (ih hnodup hk hsized hmay).mono fun r k' hk' =>
          ⟨hk'.1, hk'.2.1, fun hr => (hk'.2.2 hr).cons_kept hi ?_⟩
        rw [hbar, extentOf]
        simp [hbase]
      · rw [not_not] at hbase
        refine seq (reserve_settles (hsized i bar hbar) hk.high fun h => hmay i bar hbar hbase (hk.limit ▸ h))
          fun r k₁ hr => ?_
        cases r with
        | none =>
          obtain rfl := hr.1 rfl
          exact pure ⟨hk, .refl k₁, fun h => nomatch h⟩
        | some base =>
          obtain ⟨hfree, rfl⟩ := hr.2 base rfl
          refine seq settles_assign fun _ k₂ hk₂ => ?_
          obtain ⟨d, acc, rfl⟩ := hk₂
          have hsized' : ∀ j bar', update sized i (some { bar with base := base }) j = some bar' →
              bar'.WellSized := by
            intro j bar' hbar'
            rcases eq_or_ne j i with rfl | hj
            · rw [update_self] at hbar'
              cases hbar'
              exact ⟨(hsized j bar hbar).pos, (hsized j bar hbar).lt⟩
            · rw [update_of_ne hj] at hbar'
              exact hsized j bar' hbar'
          have hmay' : ∀ j bar', update sized i (some { bar with base := base }) j = some bar' →
              bar'.base = 0 → Oversized (limitOf arch w) bar' → may := by
            intro j bar' hbar' hzero hover
            rcases eq_or_ne j i with rfl | hj
            · rw [update_self] at hbar'
              cases hbar'
              exact hmay j bar hbar hbase hover
            · rw [update_of_ne hj] at hbar'
              exact hmay j bar' hbar' hzero hover
          refine (ih hnodup ((hk.place hfree).after d acc) hsized' hmay').mono fun r k' hk' => ?_
          refine ⟨hk'.1, ?_, fun hr => (hk'.2.2 hr).cons_placed hi hbar hbase⟩
          exact (Kernel.grows_place hfree).trans ((Kernel.grows_after d acc).trans hk'.2.1)

end

section

variable {pos : ℕ}

lemma settles_look {post : Word → Kernel σ → Prop} {off : ℕ} (h : ∀ v d acc, post v (k.after d acc)) :
    Settles may (cfgRead32 cfg bdf off) k post := h _ _ _

lemma readCap_settles {head : Word} :
    Settles may (readCap cfg bdf pos head) k fun _ k' => ∃ d acc, k' = k.after d acc := by
  refine bind (settles_look fun bar d₁ acc₁ => bind (settles_look fun offset d₂ acc₂ =>
    bind (settles_look fun length d₃ acc₃ => ?_)))
  rw [after_after, after_after]
  split_ifs
  · refine bind (settles_look fun multiplier d₄ acc₄ => pure ⟨d₄, _, after_after⟩)
  · exact pure ⟨d₃, _, rfl⟩

lemma virtioCapsFrom_settles {hops : ℕ} :
    Settles may (virtioCapsFrom cfg bdf hops pos) k fun _ k' => ∃ d acc, k' = k.after d acc := by
  induction hops generalizing pos k with
  | zero => exact ⟨k.device, [], after_nil.symm⟩
  | succ hops ih =>
    rw [virtioCapsFrom]
    split_ifs
    · exact pure ⟨k.device, [], after_nil.symm⟩
    · refine bind (settles_look fun head d acc => ?_)
      split_ifs
      · refine seq readCap_settles fun cap k₁ hk₁ => seq ih fun caps k₂ hk₂ => pure ?_
        obtain ⟨d₁, acc₁, rfl⟩ := hk₁
        obtain ⟨d₂, acc₂, rfl⟩ := hk₂
        exact ⟨d₂, _, by rw [after_after, after_after]⟩
      · refine ih.mono fun caps k₁ hk₁ => ?_
        obtain ⟨d₁, acc₁, rfl⟩ := hk₁
        exact ⟨d₁, _, after_after⟩

lemma virtioCaps_settles : Settles may (virtioCaps cfg bdf) k fun _ k' => ∃ d acc, k' = k.after d acc := by
  refine bind (settles_look fun status d acc => ?_)
  split_ifs
  · exact pure ⟨d, acc, rfl⟩
  · refine bind (settles_look fun first d₁ acc₁ => virtioCapsFrom_settles.mono fun caps k₁ hk₁ => ?_)
    obtain ⟨d₂, acc₂, rfl⟩ := hk₁
    exact ⟨d₂, _, by rw [after_after, after_after]⟩

lemma settles_enable {bits : Word} : Settles may (enable cfg bdf bits) k fun _ k' => ∃ d acc, k' = k.after d acc :=
  bind (settles_look fun _ _ _ => ⟨_, _, after_after⟩)

def BlockOf (bars : Bars) (caps : List VirtioCap) (pos : ℕ) : Prop :=
  ∃ cap ∈ caps, ∃ (h : cap.bar < 6) (bar : Bar), bars ⟨cap.bar, h⟩ = some bar ∧ pos = bar.base + cap.offset.toNat ∧
    pos + cap.length.toNat ≤ bar.base + bar.size

structure Blocks.Inside (bars : Bars) (caps : List VirtioCap) (b : Blocks) : Prop where
  common : ∀ pos, b.common = some pos → BlockOf bars caps pos
  notifyBase : ∀ pos, b.notifyBase = some pos → BlockOf bars caps pos
  isr : ∀ pos, b.isr = some pos → BlockOf bars caps pos

variable {bars : Bars} {caps : List VirtioCap} {cap : VirtioCap}

lemma resolve_comes (hcap : cap ∈ caps) (hmay : ∀ i bar, bars i = some bar → 2 ^ 64 ≤ bar.base + bar.size → may) :
    (resolve bars cap).Comes may fun r => ∀ pos, r = some pos → BlockOf bars caps pos := by
  have hoffset := cap.offset.isLt
  have hlength := cap.length.isLt
  rw [resolve]
  split_ifs with hslot
  · cases hbar : bars ⟨cap.bar, hslot⟩ with
    | none => exact nofun
    | some bar =>
      refine Comes.bind (comes_add (fun _ => ?_) fun h => absurd h (by omega))
      split_ifs with hin
      · refine Comes.bind (comes_add (fun _ pos hpos => ?_) fun h => ?_)
        · cases hpos
          exact ⟨cap, hcap, hslot, bar, hbar, rfl, by omega⟩
        · exact hmay _ bar hbar (h.trans (by omega))
      · exact nofun
  · exact nofun

lemma takeCap_comes {b : Blocks} (hcap : cap ∈ caps) (hb : b.Inside bars caps)
    (hmay : ∀ i bar, bars i = some bar → 2 ^ 64 ≤ bar.base + bar.size → may) :
    (takeCap bars b cap).Comes may (Blocks.Inside bars caps) := by
  rw [takeCap]
  split_ifs
  · refine Comes.bind ((resolve_comes hcap hmay).mono fun r hr => ?_)
    exact ⟨hr, hb.notifyBase, hb.isr⟩
  · refine Comes.bind ((resolve_comes hcap hmay).mono fun r hr => ?_)
    exact ⟨hb.common, hr, hb.isr⟩
  · refine Comes.bind ((resolve_comes hcap hmay).mono fun r hr => ?_)
    exact ⟨hb.common, hb.notifyBase, hr⟩
  · exact hb

lemma takeCaps_comes (hmay : ∀ i bar, bars i = some bar → 2 ^ 64 ≤ bar.base + bar.size → may) :
    (takeCaps bars caps).Comes may (Blocks.Inside bars caps) :=
  comes_foldlM ⟨nofun, nofun, nofun⟩ fun _ hb _ hcap => takeCap_comes hcap hb hmay

end

/-- A register that the arithmetic can deal with: one that is to be placed is not too large for the addresses
above the window, and one that has a place ends within the address space. -/
def Bar.Fits (limit : ℕ) (bar : Bar) : Prop :=
  if bar.base = 0 then limit + 2 * bar.size ≤ 2 ^ 64 else bar.base + bar.size < 2 ^ 64

def ConfigSpace.Fits (cfg : ConfigSpace σ) (limit : ℕ) : Prop :=
  ∀ bdf k sized k', readBars cfg bdf k = ok (sized, k') → ∀ i bar, sized i = some bar → bar.Fits limit

structure Brought (arch : Arch) (w : Windows) (k k' : Kernel σ) (sized : Bars) (r : Bool × Bars) : Prop where
  ordered : k'.Ordered arch w
  grows : k.Grows k'
  places : r.1 = true → Places (List.finRange 6) k k' sized r.2

lemma Brought.end_lt {sized : Bars} {r : Bool × Bars} (h : Brought arch w k k' sized r) (hr : r.1 = true)
    (hwindow : limitOf arch w < 2 ^ 64) (hfits : ∀ i bar, sized i = some bar → bar.Fits (limitOf arch w))
    {i : Fin 6} {bar : Bar} (hbar : r.2 i = some bar) : bar.base + bar.size < 2 ^ 64 := by
  have hplaces := h.places hr
  obtain ⟨hnone, hsome⟩ := hplaces.kept i (mem_finRange i)
  cases hsized : sized i with
  | none =>
    rw [hnone hsized] at hbar
    exact nomatch hbar
  | some bar₀ =>
    obtain ⟨base, hbase, hkept⟩ := hsome bar₀ hsized
    have hfit := hfits i bar₀ hsized
    rw [hbase] at hbar
    cases hbar
    rw [Bar.Fits] at hfit
    split_ifs at hfit with hzero
    · have hextent : extentOf (sized i) (r.2 i) = some ⟨base, bar₀.size⟩ := by
        rw [extentOf, hsized, hbase]
        simp [hzero]
      have hmem : Extent.mk base bar₀.size ∈ k'.placed := by
        rw [hplaces.placed]
        exact mem_append_right _ (mem_filterMap.mpr ⟨i, mem_finRange i, hextent⟩)
      obtain ⟨-, hend, -⟩ := h.ordered.inside _ hmem
      have hhigh := h.ordered.high
      rw [h.ordered.limit] at hhigh
      dsimp only at hend ⊢
      omega
    · rw [hkept hzero]
      exact hfit

section

variable (hk : k.Ordered arch w)
include hk

lemma placeBars_settles {sized : Bars} (hsized : ∀ i bar, sized i = some bar → bar.WellSized)
    (hmay : ¬ (∀ i bar, sized i = some bar → bar.Fits (limitOf arch w)) → may) :
    Settles may (placeBars cfg bdf sized) k fun r k' => Brought arch w k k' sized r := by
  refine (placeFrom_settles (nodup_finRange 6) hk hsized fun i bar hbar hzero hover => hmay fun hfits => ?_).mono
    fun r k' hk' => ⟨hk'.1, hk'.2.1, hk'.2.2⟩
  have hfit := hfits i bar hbar
  rw [Bar.Fits, if_pos hzero] at hfit
  rw [Oversized] at hover
  omega

lemma readBars_place {α : Type} {f : Bars → Bool × Bars → Run σ α} {post : α → Kernel σ → Prop}
    (h : ∀ sized d acc r k', readBars cfg bdf k = ok (sized, k.after d acc) →
      placeBars cfg bdf sized (k.after d acc) = ok (r, k') → Brought arch w (k.after d acc) k' sized r →
      k'.Ordered arch w ∧ k.Grows k' →
      Settles (¬ cfg.Fits (limitOf arch w)) (f sized r) k' post) :
    Settles (¬ cfg.Fits (limitOf arch w)) (do
      let sized ← readBars cfg bdf
      let r ← placeBars cfg bdf sized
      f sized r) k post := by
  refine seq readBars_settles.keep fun sized k₁ hk₁ => ?_
  obtain ⟨⟨⟨d, acc, rfl, -, -⟩, hsized⟩, hread⟩ := hk₁
  refine seq (placeBars_settles (hk.after d acc) hsized fun hnot hfits => ?_).keep fun r k₂ hk₂ => ?_
  · exact hnot fun i bar hbar => hfits bdf k sized _ hread i bar hbar
  · exact h sized d acc r k₂ hread hk₂.2 hk₂.1
      ⟨hk₂.1.ordered, (Kernel.grows_after d acc).trans hk₂.1.grows⟩

lemma bringUp_settles {deviceType : ℕ} (hwindow : limitOf arch w < 2 ^ 64) :
    Settles (¬ cfg.Fits (limitOf arch w)) (bringUp cfg arch bdf deviceType) k fun _ k' =>
      k'.Ordered arch w ∧ k.Grows k' := by
  refine readBars_place hk fun sized d acc r k₁ hread _ hbrought hk₁ => ?_
  obtain ⟨fits, bars⟩ := r
  cases fits with
  | false => exact pure hk₁
  | true =>
    refine seq virtioCaps_settles fun caps k₂ hk₂ => ?_
    obtain ⟨d₂, acc₂, rfl⟩ := hk₂
    have hk₂ := kept_after hk₁ d₂ acc₂
    refine bind (lift ((takeCaps_comes fun i bar hbar hend => ?_).mono fun b _ => ?_))
    · intro hfits
      have hlt := hbrought.end_lt rfl hwindow (fun i bar hbar => hfits bdf k sized _ hread i bar hbar) hbar
      omega
    · split
      · refine seq settles_enable fun _ k₃ hk₃ => bind (settles_look fun line d₄ acc₄ => ?_)
        obtain ⟨d₃, acc₃, rfl⟩ := hk₃
        have hlast := kept_after (kept_after hk₂ d₃ acc₃) d₄ acc₄
        dsimp only
        split_ifs
        · exact pure hlast
        · exact pure hlast
      · exact pure hk₂

lemma bringUpFirst_settles {bits : Word} :
    Settles (¬ cfg.Fits (limitOf arch w)) (bringUpFirst cfg bdf bits) k fun _ k' => k'.Ordered arch w ∧
    k.Grows k' := by
  refine readBars_place hk fun sized d acc r k₁ _ _ _ hk₁ => ?_
  obtain ⟨fits, bars⟩ := r
  cases fits with
  | false => exact pure hk₁
  | true =>
    dsimp only
    cases bars 0 with
    | none => exact pure hk₁
    | some bar =>
      refine seq settles_enable fun _ k₂ hk₂ => pure ?_
      obtain ⟨d₂, acc₂, rfl⟩ := hk₂
      exact kept_after hk₁ d₂ acc₂

end

def Kernel.Sound (arch : Arch) (w : Windows) (k : Kernel σ) : Prop :=
  (k.ecamBase = 0 ∧ k.barNext = 0 ∧ k.placed = []) ∨ (k.ecamBase ≠ 0 ∧ k.Ordered arch w)

def Kernel.Later (k k' : Kernel σ) : Prop := k.barNext ≤ k'.barNext ∧ k.placed <+: k'.placed

lemma hostBridgePresent_settles (hk : k.Sound arch w) (hecam : w.ecam ≠ 0) (hwindow : limitOf arch w < 2 ^ 64) :
    Settles may (hostBridgePresent arch (some w)) k fun found k' =>
      found = true ∧ k'.device = k.device ∧ k'.ecamBase ≠ 0 ∧ k'.Ordered arch w ∧ k.Later k' := by
  refine get_bind ?_
  rcases hk with ⟨hzero, hnext, hplaced⟩ | ⟨hbase, hordered⟩
  · rw [if_neg (not_not.mpr hzero)]
    refine bind (lift (comes_add (fun _ => ?_) fun h => absurd h (not_le.mpr hwindow)))
    refine set_bind (pure ⟨rfl, rfl, hecam, ⟨rfl, le_rfl, Nat.le_add_right _ _, ?_, ?_⟩, ?_,
      prefix_refl _⟩)
    · rw [hplaced]
      exact nofun
    · rw [hplaced]
      exact List.Pairwise.nil
    · rw [hnext]
      exact Nat.zero_le _
  · rw [if_pos hbase]
    exact pure ⟨rfl, rfl, hbase, hordered, le_rfl, prefix_refl _⟩

lemma behindBridge_settles {α : Type} {m : Run σ α} (hk : k.Sound arch w) (hecam : w.ecam ≠ 0)
    (hwindow : limitOf arch w < 2 ^ 64)
    (hm : ∀ k₁ : Kernel σ, k₁.Ordered arch w → Settles may m k₁ fun _ k' => k'.Ordered arch w ∧ k₁.Grows k') :
    Settles may (behindBridge arch (some w) m) k fun _ k' => k'.Sound arch w ∧ k.Later k' := by
  refine seq (hostBridgePresent_settles hk hecam hwindow) fun found k₁ hk₁ => ?_
  obtain ⟨rfl, -, hbase, hordered, hlater⟩ := hk₁
  refine seq (hm k₁ hordered) fun _ k₂ hk₂ => pure ⟨.inr ⟨?_, hk₂.1⟩, ?_⟩
  · rw [hk₂.2.ecamBase]
    exact hbase
  · exact ⟨hlater.1.trans hk₂.2.next, hlater.2.trans hk₂.2.placed⟩

lemma step_settles (op : Op) (hk : k.Sound arch w) (hecam : w.ecam ≠ 0) (hwindow : limitOf arch w < 2 ^ 64) :
    Settles (¬ cfg.Fits (limitOf arch w)) (op.step cfg arch (some w)) k fun _ k' => k'.Sound arch w ∧
    k.Later k' := by
  cases op with
  | present => exact behindBridge_settles hk hecam hwindow fun k₁ hk₁ => pure ⟨hk₁, .refl k₁⟩
  | look bdf off =>
    exact behindBridge_settles hk hecam hwindow fun k₁ hk₁ => settles_look fun _ d acc =>
      kept_after ⟨hk₁, .refl k₁⟩ d acc
  | virtio bdf deviceType => exact behindBridge_settles hk hecam hwindow fun k₁ hk₁ => bringUp_settles hk₁ hwindow
  | nvme bdf => exact behindBridge_settles hk hecam hwindow fun k₁ hk₁ => bringUpFirst_settles hk₁
  | iommu bdf => exact behindBridge_settles hk hecam hwindow fun k₁ hk₁ => bringUpFirst_settles hk₁

lemma runOps_settles (ops : List Op) (hk : k.Sound arch w) (hecam : w.ecam ≠ 0)
    (hwindow : limitOf arch w < 2 ^ 64) : Settles (¬ cfg.Fits (limitOf arch w)) (runOps cfg arch (some w) ops)
      k fun _ k' => k'.Sound arch w :=
  forM hk fun op _ _ hk => (step_settles op hk hecam hwindow).mono fun _ _ hk' => hk'.1

/-- Over any history, and whatever the functions answer, what is placed is aligned, in the window and apart. -/
theorem bars_are_placed_apart (cfg : ConfigSpace σ) (arch : Arch) (w : Windows) (device : σ) (ops : List Op)
    (hecam : w.ecam ≠ 0) (hwindow : limitOf arch w < 2 ^ 64) :
    (cfg.Fits (limitOf arch w) → ∃ k, runOps cfg arch (some w) ops (Kernel.start device) = ok ((), k)) ∧
    ∀ k, runOps cfg arch (some w) ops (Kernel.start device) = ok ((), k) →
      (∀ op k', Op.step cfg arch (some w) op k = ok ((), k') → k.Later k') ∧
      (k.ecamBase ≠ 0 → ∀ bdf, ∃ sized d acc, readBars cfg bdf k = ok (sized, k.after d acc) ∧
        Sizes bdf 0 7 acc ∧ (cfg.LastNarrow → Sizes bdf 0 6 acc) ∧
        (∀ r k', placeBars cfg bdf sized (k.after d acc) = ok (r, k') →
          Brought arch w (k.after d acc) k' sized r ∧
          ∀ caps b, takeCaps r.2 caps = ok b → b.Inside r.2 caps)) := by
  have hstart : (Kernel.start device).Sound arch w := .inl ⟨rfl, rfl, rfl⟩
  have hrun : Settles (¬ cfg.Fits (limitOf arch w)) (runOps cfg arch (some w) ops) (Kernel.start device) _ :=
    runOps_settles ops hstart hecam hwindow
  refine ⟨fun hfits => ?_, fun k hk => ⟨fun op k' hstep => ?_, fun hbase bdf => ?_⟩⟩
  · obtain ⟨_, k, hk, -⟩ := hrun.exists_ok (not_not.mpr hfits)
    exact ⟨k, hk⟩
  · exact ((step_settles op (hrun.of_ok hk) hecam hwindow).of_ok hstep).2
  · have hordered : k.Ordered arch w := by
      rcases hrun.of_ok hk with ⟨hzero, -⟩ | ⟨-, hordered⟩
      · exact absurd hzero hbase
      · exact hordered
    have hread : Settles False (readBars cfg bdf) k _ := readBars_settles
    obtain ⟨sized, k₁, heq, ⟨d, acc, rfl, hseven, hsix⟩, hsized⟩ := hread.exists_ok not_false
    refine ⟨sized, d, acc, heq, hseven, hsix, fun r k' hplace => ⟨?_, fun caps b hb => ?_⟩⟩
    · have hplaced : Settles True (placeBars cfg bdf sized) (k.after d acc) _ :=
        placeBars_settles (hordered.after d acc) hsized fun _ => trivial
      exact hplaced.of_ok hplace
    · have hcaps : (takeCaps r.2 caps).Comes True (Blocks.Inside r.2 caps) := takeCaps_comes fun _ _ _ _ => trivial
      rw [hb] at hcaps
      exact hcaps

def virtWindows : Windows := ⟨0x30000000, 0x40000000, 0x40000000⟩

def virtArch : Arch := ⟨0x200000, 32⟩

lemma readBarsFrom_io {n m i : ℕ} {out : Bars} {post : Bars → Kernel σ → Prop} (hn : i + n ≤ 6)
    (hout : ∀ j : Fin 6, i ≤ j → out j = none)
    (hio : ∀ j, i ≤ j → j < i + n → ∀ d, cfg.read bdf (BAR0 + j * 4) d = (1, d))
    (h : ∀ acc, Settles may (readBarsFrom cfg bdf m (i + n) out) (k.after k.device acc) post) :
    Settles may (readBarsFrom cfg bdf (m + n) i out) k post := by
  induction n generalizing i k with
  | zero =>
    have hk := h []
    rwa [after_nil] at hk
  | succ n ih =>
    have hoff : (BAR0 + i * 4) / 4 * 4 = BAR0 + i * 4 := by
      rw [BAR0]
      omega
    have hslot : i < 6 := by omega
    have hlook : Settles may (cfgRead32 cfg bdf (BAR0 + i * 4)) k fun v k' =>
        v = 1 ∧ k' = k.after k.device [.read bdf (BAR0 + i * 4) 1] := by
      rw [Settles, cfgRead32, hoff, hio i le_rfl (by omega)]
      exact ⟨rfl, rfl⟩
    have hbar : Settles may (readBar cfg bdf i) k fun r k' =>
        r = (none, 1) ∧ k' = k.after k.device [.read bdf (BAR0 + i * 4) 1] := by
      refine seq hlook ?_
      rintro _ _ ⟨rfl, rfl⟩
      rw [if_pos (by decide)]
      exact pure ⟨rfl, rfl⟩
    rw [← Nat.add_assoc, readBarsFrom, dif_pos hslot]
    refine seq hbar ?_
    rintro _ _ ⟨rfl, rfl⟩
    have hsame : update out ⟨i, hslot⟩ none = out := by
      rw [← hout ⟨i, hslot⟩ le_rfl]
      exact update_eq_self _ _
    rw [hsame]
    refine ih (by omega) (fun j hj => hout j (by omega)) (fun j hj hlt => hio j (by omega) (by omega))
      fun acc => ?_
    rw [Nat.add_right_comm, Nat.add_assoc, after_after]
    exact h _

def oneRegister : ConfigSpace Bool where
  read _ off full := (if off = BAR0 then if full then 0xffffc000 else 0 else 1, full)
  write _ off v full := if off = BAR0 then v = allOnes else full

def wideFunction (mask : Word) : ConfigSpace Word where
  read _ off hi := (if off = BAR0 then 0b100 else if off = BAR0 + 4 then hi else 1, hi)
  write _ off v hi := if off = BAR0 + 4 then v &&& mask else hi

def lastWide : ConfigSpace Unit where
  read _ off _ := (if off = BAR0 + 20 then 0b100 else 1, ())
  write _ _ _ _ := ()

lemma oneRegister_settles {k : Kernel Bool} : Settles False (readBars oneRegister bdf) k fun sized _ =>
    ∀ i bar, sized i = some bar → bar.Fits (limitOf virtArch virtWindows) := by
  have hbar : Settles False (readBar oneRegister bdf 0) k fun r _ =>
      r.2 = 1 ∧ ∀ bar ∈ r.1, bar.Fits (limitOf virtArch virtWindows) := by
    cases hk : k.device <;>
      simp [Settles, Comes, readBar, run_bind, Pure.pure, StateT.pure, run_lift, cfgRead32, cfgWrite32, writable,
        oneRegister, BAR0, isIo, is64, allOnes, join, address, sizeOf, plus, add, Bar.Fits, limitOf, virtArch,
        virtWindows, hk]
  rw [readBars, readBarsFrom, dif_pos (by decide)]
  refine seq hbar fun r k₁ hr => ?_
  rw [hr.1]
  refine readBarsFrom_io (n := 5) (m := 0) (by decide) (fun j hj => ?_) (fun j hj _ d => ?_) fun acc => ?_
  · rw [update_of_ne]
    rintro rfl
    exact absurd hj (by decide)
  · have hne : BAR0 + j * 4 ≠ BAR0 := by omega
    dsimp only [oneRegister]
    rw [if_neg hne]
  · intro i bar hbar
    by_cases hi : i = ⟨0, by decide⟩
    · subst hi
      exact hr.2 bar hbar
    · dsimp only at hbar
      rw [Function.update_of_ne hi] at hbar
      cases hbar

lemma oneRegister_fits : oneRegister.Fits (limitOf virtArch virtWindows) :=
  fun _ _ _ _ hread => oneRegister_settles.of_ok hread

lemma lastWide_settles {k : Kernel Unit} : Settles False (readBars lastWide bdf) k fun _ k' =>
    .write bdf 0x28 allOnes ∈ k'.accesses := by
  refine readBarsFrom_io (n := 5) (m := 1) (by decide) (fun _ _ => rfl) (fun j _ hj d => ?_) fun acc => ?_
  · have hne : BAR0 + j * 4 ≠ BAR0 + 20 := by omega
    dsimp only [lastWide]
    rw [if_neg hne]
  · rw [readBarsFrom, dif_pos (by decide)]
    have hbar : Settles False (readBar lastWide bdf 5) (k.after k.device acc) fun _ k' =>
        .write bdf 0x28 allOnes ∈ k'.accesses := by
      simp [Settles, Comes, readBar, run_bind, Pure.pure, StateT.pure, run_lift, cfgRead32, cfgWrite32, writable,
        lastWide, BAR0, isIo, is64, allOnes, join, address, sizeOf, plus, add]
    exact seq hbar fun _ _ hmem => hmem

theorem bars_are_placed_apart_one_register : limitOf virtArch virtWindows < 2 ^ 64 ∧
    oneRegister.Fits (limitOf virtArch virtWindows) ∧
    ∃ k, runOps oneRegister virtArch (some virtWindows) [.nvme ⟨0, 1, 0⟩, .virtio ⟨0, 2, 0⟩ 2]
      (Kernel.start false) = ok ((), k) :=
  ⟨by decide, oneRegister_fits,
    (bars_are_placed_apart oneRegister virtArch virtWindows false _ (by decide) (by decide)).1 oneRegister_fits⟩

/-- A register of half the address space overflows the place that is reserved for it, and a last slot of two
halves has the word after the registers overwritten. -/
theorem wide_bars_break_placement :
    runOps (wideFunction 0x80000000) virtArch (some virtWindows) [.virtio ⟨0, 1, 0⟩ 2] (Kernel.start 0) = panic ∧
      ∃ sized k, readBars lastWide ⟨0, 1, 0⟩ (Kernel.start ()) = ok (sized, k) ∧
        .write ⟨0, 1, 0⟩ 0x28 allOnes ∈ k.accesses := by
  refine ⟨by decide +kernel, ?_⟩
  obtain ⟨sized, k, heq, hmem⟩ := lastWide_settles.exists_ok not_false
  exact ⟨sized, k, heq, hmem⟩

end CrickerOs.Pci
