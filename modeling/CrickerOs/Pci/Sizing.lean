import CrickerOs.Pci.BringUp

namespace CrickerOs.Pci

open Library Library.Outcome Settles

variable {σ : Type} {cfg : ConfigSpace σ} {may : Prop} {k : Kernel σ} {bdf : Bdf} {off : ℕ}

section

def accessesAt (off : ℕ) (acc : List Access) : List Access := acc.filter fun a => a.off = off

/-- A register that is not touched, is only read, or is read, filled with ones, read again and given back what it
held. -/
inductive Probed (bdf : Bdf) (off : ℕ) : List Access → Prop
  | untouched : Probed bdf off []
  | looked (v : Word) : Probed bdf off [.read bdf off v]
  | restored (v mask : Word) :
      Probed bdf off [.read bdf off v, .write bdf off allOnes, .read bdf off mask, .write bdf off v]

structure Sizes (bdf : Bdf) (i j : ℕ) (acc : List Access) : Prop where
  function : ∀ a ∈ acc, a.bdf = bdf
  low : ∀ a ∈ acc, BAR0 + i * 4 ≤ a.off
  high : ∀ a ∈ acc, a.off < BAR0 + j * 4
  probed : ∀ off, Probed bdf off (accessesAt off acc)

variable {i j l : ℕ} {acc acc' : List Access}

lemma accessesAt_eq_nil (h : ∀ a ∈ acc, a.off ≠ off) : accessesAt off acc = [] := by
  refine List.filter_eq_nil_iff.mpr fun a ha => ?_
  simp [h a ha]

lemma Sizes.nil : Sizes bdf i j [] := by
  refine ⟨?_, ?_, ?_, fun _ => .untouched⟩ <;> exact fun _ h => nomatch h

lemma Sizes.single (hall : ∀ a ∈ acc, a.bdf = bdf ∧ a.off = BAR0 + i * 4) (hp : Probed bdf (BAR0 + i * 4) acc) :
    Sizes bdf i (i + 1) acc := by
  refine ⟨fun a ha => (hall a ha).1, fun a ha => (hall a ha).2.ge, fun a ha => ?_, fun off => ?_⟩
  · rw [(hall a ha).2]
    omega
  · by_cases hoff : off = BAR0 + i * 4
    · subst hoff
      have hself : accessesAt (BAR0 + i * 4) acc = acc := by
        refine List.filter_eq_self.mpr fun a ha => ?_
        simp [(hall a ha).2]
      rwa [hself]
    · rw [accessesAt_eq_nil fun a ha => by rw [(hall a ha).2]; exact Ne.symm hoff]
      exact .untouched

lemma Sizes.append (h : Sizes bdf i j acc) (h' : Sizes bdf j l acc') (hij : i ≤ j) (hjl : j ≤ l) :
    Sizes bdf i l (acc ++ acc') := by
  refine ⟨List.forall_mem_append.mpr ⟨h.function, h'.function⟩, List.forall_mem_append.mpr ⟨h.low, fun a ha => ?_⟩,
    List.forall_mem_append.mpr ⟨fun a ha => ?_, h'.high⟩, fun off => ?_⟩
  · exact le_trans (by omega) (h'.low a ha)
  · exact (h.high a ha).trans_le (by omega)
  · rw [accessesAt, List.filter_append]
    rcases lt_or_ge off (BAR0 + j * 4) with hoff | hoff
    · have hnil : accessesAt off acc' = [] := accessesAt_eq_nil fun a ha => by
        have := h'.low a ha
        omega
      rw [accessesAt] at hnil
      rw [hnil, List.append_nil]
      exact h.probed off
    · have hnil : accessesAt off acc = [] := accessesAt_eq_nil fun a ha => by
        have := h.high a ha
        omega
      rw [accessesAt] at hnil
      rw [hnil, List.nil_append]
      exact h'.probed off

end

def Kernel.after (k : Kernel σ) (d : σ) (acc : List Access) : Kernel σ :=
  { k with device := d, accesses := k.accesses ++ acc }

lemma after_after {d d' : σ} {acc acc' : List Access} :
    (k.after d acc).after d' acc' = k.after d' (acc ++ acc') := by
  simp [Kernel.after]

lemma after_nil : k.after k.device [] = k := by simp [Kernel.after]

lemma settles_read {post : Word → Kernel σ → Prop} (hoff : off % 4 = 0)
    (h : ∀ d, post (cfg.read bdf off k.device).1 (k.after d [.read bdf off (cfg.read bdf off k.device).1])) :
    Settles may (cfgRead32 cfg bdf off) k post := by
  have hword : off / 4 * 4 = off := by omega
  rw [Settles, cfgRead32, hword]
  exact h _

lemma settles_write {post : Unit → Kernel σ → Prop} {v : Word} (hoff : off % 4 = 0)
    (h : ∀ d, post () (k.after d [.write bdf off v])) : Settles may (cfgWrite32 cfg bdf off v) k post := by
  have hword : off / 4 * 4 = off := by omega
  rw [Settles, cfgWrite32, hword]
  exact h _

lemma settles_writable {post : Word → Kernel σ → Prop} {v : Word} (hoff : off % 4 = 0)
    (h : ∀ m d, post m (k.after d [.write bdf off allOnes, .read bdf off m, .write bdf off v])) :
    Settles may (writable cfg bdf off v) k post := by
  refine bind (settles_write hoff fun d₁ => bind (settles_read hoff fun d₂ => bind
    (settles_write hoff fun d₃ => pure ?_)))
  rw [after_after, after_after]
  exact h _ d₃

structure Bar.WellSized (bar : Bar) : Prop where
  pos : 16 ≤ bar.size
  lt : bar.size < 2 ^ 64

lemma address_mod (v : Word) : (address v).toNat % 16 = 0 := by
  rw [address, BitVec.toNat_and]
  exact (Nat.and_mod_two_pow (n := 4)).trans (Nat.and_zero _)

lemma join_lt_two_pow (hi lo : Word) : join hi lo < 2 ^ 64 := by
  have hlo : lo.toNat < 2 ^ 64 := lo.isLt.trans (by decide)
  refine Nat.or_lt_two_pow ?_ hlo
  rw [Nat.shiftLeft_eq]
  have := hi.isLt
  omega

lemma join_mod (hi : Word) {lo : Word} (hlo : lo.toNat % 16 = 0) : join hi lo % 16 = 0 := by
  have hhi : hi.toNat <<< 32 % 16 = 0 := by
    rw [Nat.shiftLeft_eq]
    omega
  rw [join, Nat.or_mod_two_pow (n := 4), hhi, hlo]
  rfl

lemma sizeOf_eq {mask : ℕ} (hpos : mask ≠ 0) (hlt : mask < 2 ^ 64) : sizeOf mask = ok (2 ^ 64 - mask) := by
  rw [sizeOf, plus, add_eq (by omega)]
  congr 1
  omega

lemma comes_sizeOf {hi lo : Word} {post : ℕ → Prop} (hpos : join hi (address lo) ≠ 0)
    (h : ∀ size, 16 ≤ size → size < 2 ^ 64 → post size) : (sizeOf (join hi (address lo))).Comes may post := by
  have hlt := join_lt_two_pow hi (address lo)
  have hmod := join_mod hi (address_mod lo)
  rw [sizeOf_eq hpos hlt]
  refine h _ ?_ ?_ <;> omega

section

variable {i : ℕ}

lemma readBar_settles : Settles may (readBar cfg bdf i) k fun r k' =>
    (∃ d acc, k' = k.after d acc ∧ Sizes bdf i (i + r.2) acc) ∧
      (r.2 = 1 ∨ r.2 = 2 ∧ is64 (cfg.read bdf (BAR0 + i * 4) k.device).1) ∧ ∀ bar ∈ r.1, bar.WellSized := by
  have hoff : (BAR0 + i * 4) % 4 = 0 := by
    rw [BAR0]
    omega
  have hlooked (v : Word) : Sizes bdf i (i + 1) [.read bdf (BAR0 + i * 4) v] :=
    Sizes.single (by simp [Access.bdf, Access.off]) (.looked v)
  have hrestored (j : ℕ) (v m : Word) : Sizes bdf j (j + 1) ([.read bdf (BAR0 + j * 4) v] ++
      [.write bdf (BAR0 + j * 4) allOnes, .read bdf (BAR0 + j * 4) m, .write bdf (BAR0 + j * 4) v]) :=
    Sizes.single (by simp [Access.bdf, Access.off]) (.restored v m)
  refine bind (settles_read hoff fun d₁ => ?_)
  set orig := (cfg.read bdf (BAR0 + i * 4) k.device).1
  split_ifs with hio hwide
  · exact pure ⟨⟨d₁, _, rfl, hlooked orig⟩, .inl rfl, fun _ h => nomatch h⟩
  · have hnext : BAR0 + i * 4 + 4 = BAR0 + (i + 1) * 4 := by omega
    have hoff' : (BAR0 + (i + 1) * 4) % 4 = 0 := by omega
    refine bind (settles_writable hoff fun maskLo d₂ => ?_)
    rw [after_after, hnext]
    refine bind (settles_read hoff' fun d₃ => ?_)
    rw [after_after]
    set origHi := (cfg.read bdf (BAR0 + (i + 1) * 4) (k.after d₂ _).device).1
    refine bind (settles_writable hoff' fun maskHi d₄ => ?_)
    have hsizes := (hrestored i orig maskLo).append (hrestored (i + 1) origHi maskHi) (by omega) (by omega)
    rw [after_after, List.append_assoc]
    dsimp only
    split_ifs with hmask
    · refine bind (lift (comes_sizeOf hmask fun size hpos hlt => ?_))
      refine pure ⟨⟨d₄, _, rfl, hsizes⟩, .inr ⟨rfl, hwide⟩, ?_⟩
      rintro bar hbar
      cases hbar
      exact ⟨hpos, hlt⟩
    · exact pure ⟨⟨d₄, _, rfl, hsizes⟩, .inr ⟨rfl, hwide⟩, fun _ h => nomatch h⟩
  · refine bind (settles_writable hoff fun maskLo d₂ => ?_)
    rw [after_after]
    dsimp only
    split_ifs with hmask
    · have hle : (address maskLo).toNat ≤ join allOnes (address maskLo) := Nat.right_le_or
      have hjoin : join allOnes (address maskLo) ≠ 0 := by omega
      refine bind (lift (comes_sizeOf hjoin fun size hpos hlt => ?_))
      refine pure ⟨⟨d₂, _, rfl, hrestored i orig maskLo⟩, .inl rfl, ?_⟩
      rintro bar hbar
      cases hbar
      exact ⟨hpos, hlt⟩
    · exact pure ⟨⟨d₂, _, rfl, hrestored i orig maskLo⟩, .inl rfl, fun _ h => nomatch h⟩

def ConfigSpace.LastNarrow (cfg : ConfigSpace σ) : Prop := ∀ bdf d, ¬ is64 (cfg.read bdf (BAR0 + 5 * 4) d).1

lemma readBarsFrom_settles {rounds last : ℕ} {out : Bars} (hlast : last = 7 ∨ last = 6 ∧ cfg.LastNarrow)
    (hi : i ≤ last) (hout : ∀ i bar, out i = some bar → bar.WellSized) :
      Settles may (readBarsFrom cfg bdf rounds i out) k fun bars k' =>
    (∃ d acc, k' = k.after d acc ∧ Sizes bdf i last acc) ∧ ∀ i bar, bars i = some bar → bar.WellSized := by
  induction rounds generalizing i out k with
  | zero => exact ⟨⟨k.device, [], after_nil.symm, .nil⟩, hout⟩
  | succ rounds ih =>
    rw [readBarsFrom]
    split_ifs with hslot
    · refine seq readBar_settles fun r k₁ hr => ?_
      obtain ⟨⟨d₁, acc₁, rfl, hacc₁⟩, hwidth, hsized⟩ := hr
      have hnext : i + r.2 ≤ last := by
        rcases hwidth with hone | ⟨htwo, hwide⟩
        · omega
        · rcases hlast with hseven | ⟨hsix, hnarrow⟩
          · omega
          · have hne : i ≠ 5 := fun h => hnarrow bdf k.device (h ▸ hwide)
            omega
      have hout' : ∀ j bar, Function.update out ⟨i, hslot⟩ r.1 j = some bar → bar.WellSized := by
        intro j bar hbar
        rcases eq_or_ne j ⟨i, hslot⟩ with rfl | hj
        · rw [Function.update_self] at hbar
          exact hsized bar hbar
        · rw [Function.update_of_ne hj] at hbar
          exact hout j bar hbar
      refine (ih hnext hout').mono fun bars k' hk' => ?_
      obtain ⟨⟨d₂, acc₂, rfl, hacc₂⟩, hbars⟩ := hk'
      exact ⟨⟨d₂, acc₁ ++ acc₂, after_after, hacc₁.append hacc₂ (by omega) hnext⟩, hbars⟩
    · exact ⟨⟨k.device, [], after_nil.symm, .nil⟩, hout⟩

lemma readBars_settles : Settles may (readBars cfg bdf) k fun bars k' =>
    (∃ d acc, k' = k.after d acc ∧ Sizes bdf 0 7 acc ∧ (cfg.LastNarrow → Sizes bdf 0 6 acc)) ∧
      ∀ i bar, bars i = some bar → bar.WellSized := by
  have hwide : Settles may (readBars cfg bdf) k _ := readBarsFrom_settles (.inl rfl) (Nat.zero_le 7)
    fun _ _ h => nomatch h
  by_cases hnarrow : cfg.LastNarrow
  · have hsix : Settles may (readBars cfg bdf) k _ :=
      readBarsFrom_settles (.inr ⟨rfl, hnarrow⟩) (Nat.zero_le 6) fun _ _ h => nomatch h
    refine hsix.mono fun bars k' hk' => ?_
    obtain ⟨⟨d, acc, rfl, hacc⟩, hbars⟩ := hk'
    exact ⟨⟨d, acc, rfl, ⟨hacc.function, hacc.low, fun a ha => (hacc.high a ha).trans (by decide), hacc.probed⟩,
      fun _ => hacc⟩, hbars⟩
  · refine hwide.mono fun bars k' hk' => ?_
    obtain ⟨⟨d, acc, rfl, hacc⟩, hbars⟩ := hk'
    exact ⟨⟨d, acc, rfl, hacc, fun h => absurd h hnarrow⟩, hbars⟩

end

end CrickerOs.Pci
