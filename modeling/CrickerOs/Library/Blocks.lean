import CrickerOs.Library.Carving
import Mathlib.Data.Set.Card

namespace CrickerOs.Library.Blocks

open Span List

variable {l l' l₁ l₂ : List Span} {a b c p : Span} {x n : ℕ}

def bytes (l : List Span) : Set ℕ := {x | ∃ b ∈ l, x ∈ b}

def total (l : List Span) : ℕ := (l.map Span.len).sum

structure Separated (l : List Span) : Prop where
  sorted : l.Pairwise fun b c => b.base + b.len < c.base
  positive : ∀ b ∈ l, 0 < b.len

@[simp]
lemma mem_bytes_cons : x ∈ bytes (b :: l) ↔ x ∈ b ∨ x ∈ bytes l := by
  simp [bytes]

@[simp]
lemma mem_bytes_append : x ∈ bytes (l₁ ++ l₂) ↔ x ∈ bytes l₁ ∨ x ∈ bytes l₂ := by
  simp [bytes, or_and_right, exists_or]

@[simp]
lemma not_mem_bytes_nil : x ∉ bytes [] := by
  simp [bytes]

lemma separated_nil : Separated [] := ⟨List.Pairwise.nil, by simp⟩

lemma separated_cons : Separated (b :: l) ↔ 0 < b.len ∧ (∀ c ∈ l, b.base + b.len < c.base) ∧ Separated l := by
  constructor
  · intro h
    obtain ⟨hhead, htail⟩ := pairwise_cons.mp h.sorted
    exact ⟨h.positive b mem_cons_self, hhead, htail, fun c hc => h.positive c (mem_cons_of_mem _ hc)⟩
  · rintro ⟨hb, hhead, hl⟩
    refine ⟨pairwise_cons.mpr ⟨hhead, hl.sorted⟩, ?_⟩
    rintro c hc
    rcases mem_cons.mp hc with rfl | hc
    · exact hb
    · exact hl.positive c hc

lemma Separated.nodup (h : Separated l) : l.Nodup := by
  refine h.sorted.imp ?_
  rintro b c hbc rfl
  omega

lemma Separated.total_le {m : ℕ} (h : Separated l) (hn : ∀ b ∈ l, n ≤ b.base) (hm : ∀ b ∈ l, b.base + b.len ≤ m)
    (hle : n ≤ m) : n + total l ≤ m := by
  induction l generalizing n with
  | nil => simpa [total] using hle
  | cons b l ih =>
    obtain ⟨-, hhead, htail⟩ := separated_cons.mp h
    obtain ⟨hb, -⟩ := forall_mem_cons.mp hn
    obtain ⟨hbm, hlm⟩ := forall_mem_cons.mp hm
    have := ih htail (fun c hc => (hhead c hc).le) hlm hbm
    simp only [total, map_cons, sum_cons] at *
    omega

lemma length_le_total (hl : ∀ b ∈ l, n ≤ b.len) : l.length * n ≤ total l := by
  induction l with
  | nil => simp [total]
  | cons b l ih =>
    obtain ⟨hb, hrest⟩ := forall_mem_cons.mp hl
    have := ih hrest
    simp only [total, map_cons, sum_cons, length_cons, Nat.add_mul] at *
    omega

structure IsRun (s : Set ℕ) (r : Span) : Prop where
  positive : 0 < r.len
  inside : ∀ x ∈ r, x ∈ s
  before : ∀ x, x + 1 = r.base → x ∉ s
  after : r.base + r.len ∉ s

section

variable (h : Separated l)
include h

lemma Separated.eq_of_near (hb : b ∈ l) (hc : c ∈ l) (hle : c.base ≤ b.base + b.len)
    (hle' : b.base ≤ c.base + c.len) : b = c := by
  induction l with
  | nil => cases hb
  | cons d l ih =>
    obtain ⟨-, hhead, hl⟩ := separated_cons.mp h
    rcases mem_cons.mp hb with rfl | hb' <;> rcases mem_cons.mp hc with rfl | hc'
    · rfl
    · have := hhead c hc'
      omega
    · have := hhead b hb'
      omega
    · exact ih hl hb' hc'

lemma Separated.isRun_of_mem (hp : p ∈ l) : IsRun (bytes l) p := by
  have hpos := h.positive p hp
  refine ⟨hpos, fun x hx => ⟨p, hp, hx⟩, ?_, ?_⟩
  · rintro x hx ⟨c, hc, hxc⟩
    rw [mem_iff] at hxc
    have heq := h.eq_of_near hp hc (by omega) (by omega)
    subst heq
    omega
  · rintro ⟨c, hc, hxc⟩
    rw [mem_iff] at hxc
    have heq := h.eq_of_near hp hc (by omega) (by omega)
    subst heq
    omega

-- A run starts in some block and cannot leave it: the number after the block belongs to none.
lemma Separated.run_stays (hb : b ∈ l) (hrun : IsRun (bytes l) p) (hbase : p.base ∈ b) : p = b := by
  have hblock := h.isRun_of_mem hb
  have hp := hrun.positive
  rw [mem_iff] at hbase
  have hstart : p.base = b.base := by
    by_contra hne
    refine hrun.before (p.base - 1) (by omega) ⟨b, hb, ?_⟩
    rw [mem_iff]
    omega
  have hlen : p.len = b.len := by
    rcases Nat.lt_trichotomy p.len b.len with hlt | heq | hlt
    · refine absurd ⟨b, hb, ?_⟩ hrun.after
      rw [mem_iff]
      omega
    · exact heq
    · refine absurd (hrun.inside (b.base + b.len) ?_) hblock.after
      rw [mem_iff]
      omega
  cases p
  cases b
  simp_all

lemma Separated.isRun_iff : IsRun (bytes l) p ↔ p ∈ l := by
  constructor
  · intro hrun
    have hp := hrun.positive
    obtain ⟨b, hb, hbase⟩ := hrun.inside p.base (mem_iff.mpr (by omega))
    rw [h.run_stays hb hrun hbase]
    exact hb
  · exact h.isRun_of_mem

lemma Separated.ext (h' : Separated l') (heq : bytes l = bytes l') : l = l' := by
  have hperm : l.Perm l' := by
    rw [List.perm_ext_iff_of_nodup h.nodup h'.nodup]
    intro b
    rw [← h.isRun_iff, ← h'.isRun_iff, heq]
  refine hperm.eq_of_pairwise (fun b c _ _ hbc hcb => ?_) h.sorted h'.sorted
  omega

lemma Separated.length_eq : l.length = {r | IsRun (bytes l) r}.ncard := by
  classical
  have hset : {r | IsRun (bytes l) r} = (l.toFinset : Set Span) := by
    ext r
    simp [h.isRun_iff]
  rw [hset, Set.ncard_coe_finset, toFinset_card_of_nodup h.nodup]

end

def join (a : Span) : List Span → List Span
  | [] => [a]
  | b :: l => if a.base + a.len = b.base then ⟨a.base, a.len + b.len⟩ :: l else a :: b :: l

def release (a : Span) : List Span → List Span
  | [] => [a]
  | b :: l => if a.base < b.base then join a (b :: l) else join b (release a l)

lemma bytes_join : bytes (join a l) = bytes (a :: l) := by
  cases l with
  | nil => rfl
  | cons b l =>
    ext x
    simp only [join]
    split
    · simp only [mem_bytes_cons, mem_iff, ← or_assoc]
      refine or_congr_left ?_
      omega
    · rfl

lemma bytes_release : bytes (release a l) = bytes (a :: l) := by
  induction l with
  | nil => rfl
  | cons b l ih =>
    ext x
    simp only [release]
    split
    · rw [bytes_join]
    · rw [bytes_join, mem_bytes_cons, ih]
      simp only [mem_bytes_cons]
      exact or_left_comm

lemma total_join : total (join a l) = a.len + total l := by
  cases l with
  | nil => simp [join, total]
  | cons b l =>
    simp only [join]
    split <;> simp [total, Nat.add_assoc]

lemma total_release : total (release a l) = a.len + total l := by
  induction l with
  | nil => simp [release, total]
  | cons b l ih =>
    simp only [release]
    split
    · exact total_join
    · rw [total_join, ih]
      simp only [total, map_cons, sum_cons]
      omega

lemma le_base_join (ha : n ≤ a.base) (hl : ∀ b ∈ l, n ≤ b.base) : ∀ c ∈ join a l, n ≤ c.base := by
  intro c hc
  cases l with
  | nil =>
    cases mem_singleton.mp hc
    exact ha
  | cons b l =>
    simp only [join] at hc
    split at hc
    · rcases mem_cons.mp hc with rfl | hc
      · exact ha
      · exact hl c (mem_cons_of_mem _ hc)
    · rcases mem_cons.mp hc with rfl | hc
      · exact ha
      · exact hl c hc

lemma le_base_release (ha : n ≤ a.base) (hl : ∀ b ∈ l, n ≤ b.base) : ∀ c ∈ release a l, n ≤ c.base := by
  induction l with
  | nil => exact le_base_join (l := []) ha hl
  | cons b l ih =>
    simp only [release]
    split
    · exact le_base_join ha hl
    · exact le_base_join (hl b mem_cons_self) (ih fun c hc => hl c (mem_cons_of_mem _ hc))

lemma Separated.join (h : Separated l) (ha : 0 < a.len) (hl : ∀ b ∈ l, a.base + a.len ≤ b.base) :
    Separated (join a l) := by
  cases l with
  | nil => exact separated_cons.mpr ⟨ha, by simp, h⟩
  | cons b l =>
    obtain ⟨hb, hhead, htail⟩ := separated_cons.mp h
    have hab := hl b mem_cons_self
    simp only [Blocks.join]
    split
    · refine separated_cons.mpr ⟨by simp only; omega, fun c hc => ?_, htail⟩
      have := hhead c hc
      simp only
      omega
    · refine separated_cons.mpr ⟨ha, fun c hc => ?_, h⟩
      rcases mem_cons.mp hc with rfl | hc
      · omega
      · have := hhead c hc
        omega

lemma Separated.release (h : Separated l) (ha : 0 < a.len) (hapart : ∀ b ∈ l, a.Apart b) :
    Separated (release a l) := by
  induction l with
  | nil => exact h.join ha (by simp)
  | cons b l ih =>
    obtain ⟨hb, hhead, htail⟩ := separated_cons.mp h
    have hab := hapart b mem_cons_self
    unfold Span.Apart at hab
    simp only [Blocks.release]
    split
    · refine h.join ha fun c hc => ?_
      rcases mem_cons.mp hc with rfl | hc
      · omega
      · have := hhead c hc
        omega
    · refine (ih htail fun c hc => hapart c (mem_cons_of_mem _ hc)).join hb ?_
      exact le_base_release (by omega) fun c hc => (hhead c hc).le

lemma forall_join {P : Span → Prop} (hP : ∀ b c, P b → P c → b.base + b.len = c.base → P ⟨b.base, b.len + c.len⟩)
    (ha : P a) (hl : ∀ b ∈ l, P b) : ∀ c ∈ Blocks.join a l, P c := by
  cases l with
  | nil => simpa [Blocks.join] using ha
  | cons b l =>
    obtain ⟨hb, hrest⟩ := forall_mem_cons.mp hl
    simp only [Blocks.join]
    split
    · exact forall_mem_cons.mpr ⟨hP a b ha hb ‹_›, hrest⟩
    · exact forall_mem_cons.mpr ⟨ha, hl⟩

lemma forall_release {P : Span → Prop} (hP : ∀ b c, P b → P c → b.base + b.len = c.base →
    P ⟨b.base, b.len + c.len⟩) (ha : P a) (hl : ∀ b ∈ l, P b) : ∀ c ∈ Blocks.release a l, P c := by
  induction l with
  | nil => exact forall_join hP ha hl
  | cons b l ih =>
    obtain ⟨hb, hrest⟩ := forall_mem_cons.mp hl
    simp only [Blocks.release]
    split
    · exact forall_join hP ha hl
    · exact forall_join hP hb (ih hrest)

lemma join_of_lt (hl : ∀ c ∈ l, b.base + b.len < c.base) : Blocks.join b l = b :: l := by
  cases l with
  | nil => rfl
  | cons c l => exact if_neg (hl c mem_cons_self).ne

lemma release_of_lt (hl : ∀ c ∈ l, a.base < c.base) : Blocks.release a l = Blocks.join a l := by
  cases l with
  | nil => rfl
  | cons c l => exact if_pos (hl c mem_cons_self)

lemma Separated.release_append (h : Separated (l₁ ++ b :: l₂)) (hlow : ∀ c ∈ l₁ ++ [b], c.base ≤ a.base)
    (hhigh : ∀ c ∈ l₂, a.base < c.base) :
    Blocks.release a (l₁ ++ b :: l₂) = l₁ ++ Blocks.join b (Blocks.join a l₂) := by
  induction l₁ with
  | nil =>
    have hb := hlow b mem_cons_self
    rw [nil_append, nil_append, Blocks.release, if_neg (by omega), release_of_lt hhigh]
  | cons d l ih =>
    obtain ⟨-, hhead, htail⟩ := separated_cons.mp h
    have hd := hlow d mem_cons_self
    rw [cons_append, Blocks.release, if_neg (by omega), ih htail fun c hc => hlow c (mem_cons_of_mem _ hc)]
    refine join_of_lt fun c hc => ?_
    rcases mem_append.mp hc with hc | hc
    · exact hhead c (mem_append_left _ hc)
    · have hb := hhead b (mem_append_right _ mem_cons_self)
      have hba := hlow b (mem_append_right _ mem_cons_self)
      exact le_base_join hb (le_base_join (hb.trans_le hba) fun e he => hb.trans_le (hba.trans (hhigh e he).le))
        c hc

section

def pieces (b p : Span) : List Span :=
  (if b.base < p.base then [⟨b.base, p.base - b.base⟩] else []) ++
    if p.base + p.len < b.base + b.len then [⟨p.base + p.len, b.base + b.len - (p.base + p.len)⟩] else []

def carve (fit : Span → Option Span) : List Span → Option (Span × List Span)
  | [] => none
  | b :: l =>
    match fit b with
    | some p => some (p, pieces b p ++ l)
    | none => (carve fit l).map fun r => (r.1, b :: r.2)

variable {fit : Span → Option Span}

lemma carve_eq_none : carve fit l = none ↔ ∀ b ∈ l, fit b = none := by
  induction l with
  | nil => simp [carve]
  | cons b l ih => cases hb : fit b <;> simp [carve, hb, ih]

lemma exists_of_carve (h : carve fit l = some (p, l')) :
    ∃ l₁ b l₂, l = l₁ ++ b :: l₂ ∧ fit b = some p ∧ l' = l₁ ++ (pieces b p ++ l₂) := by
  induction l generalizing l' with
  | nil => cases h
  | cons b l ih =>
    simp only [carve] at h
    cases hb : fit b with
    | some q =>
      simp only [hb, Option.some.injEq, Prod.mk.injEq] at h
      obtain ⟨rfl, rfl⟩ := h
      exact ⟨[], b, l, rfl, hb, rfl⟩
    | none =>
      simp only [hb, Option.map_eq_some_iff, Prod.mk.injEq, Prod.exists] at h
      obtain ⟨q, r, hr, rfl, rfl⟩ := h
      obtain ⟨l₁, c, l₂, hl, hc, hr⟩ := ih hr
      exact ⟨b :: l₁, c, l₂, by rw [hl, cons_append], hc, by rw [hr, cons_append]⟩

lemma mem_bytes_pieces (hw : p.Within b) : x ∈ bytes (pieces b p) ↔ x ∈ b ∧ x ∉ p := by
  simp only [Span.Within] at hw
  simp only [pieces]
  split <;> split <;> simp [mem_iff] <;> omega

lemma total_pieces (hw : p.Within b) : total (pieces b p) + p.len = b.len := by
  simp only [Span.Within] at hw
  simp only [pieces]
  split <;> split <;> simp [total] <;> omega

lemma mem_pieces (hc : c ∈ pieces b p) (hw : p.Within b) : 0 < c.len ∧ c.Within b := by
  simp only [Span.Within] at hw ⊢
  simp only [pieces, mem_append, mem_ite_nil_right, mem_singleton] at hc
  rcases hc with ⟨hlt, rfl⟩ | ⟨hlt, rfl⟩
  · exact ⟨by simp only; omega, le_rfl, by simp only; omega⟩
  · exact ⟨by simp only; omega, by simp only; omega, by simp only; omega⟩

lemma separated_pieces (hw : p.Within b) (hp : 0 < p.len) : Separated (pieces b p) := by
  refine ⟨?_, fun c hc => (mem_pieces hc hw).1⟩
  simp only [Span.Within] at hw
  simp only [pieces]
  split <;> split <;> simp
  omega

lemma Separated.replace (h : Separated (l₁ ++ b :: l₂)) (hw : p.Within b) (hp : 0 < p.len) :
    Separated (l₁ ++ (pieces b p ++ l₂)) := by
  induction l₁ with
  | nil =>
    rw [nil_append] at h ⊢
    obtain ⟨-, hhead, hl⟩ := separated_cons.mp h
    have hpieces := separated_pieces hw hp
    refine ⟨pairwise_append.mpr ⟨hpieces.sorted, hl.sorted, fun c hc d hd => ?_⟩, fun c hc => ?_⟩
    · have hcb := (mem_pieces hc hw).2
      have := hhead d hd
      unfold Span.Within at hcb
      omega
    · rcases mem_append.mp hc with hc | hc
      · exact hpieces.positive c hc
      · exact hl.positive c hc
  | cons d l₁ ih =>
    obtain ⟨hd, hhead, hl⟩ := separated_cons.mp h
    refine separated_cons.mpr ⟨hd, fun c hc => ?_, ih hl⟩
    rcases mem_append.mp hc with hc | hc
    · exact hhead c (mem_append_left _ hc)
    rcases mem_append.mp hc with hc | hc
    · have hcb := (mem_pieces hc hw).2
      have := hhead b (mem_append_right _ mem_cons_self)
      unfold Span.Within at hcb
      omega
    · exact hhead c (mem_append_right _ (mem_cons_of_mem _ hc))

lemma mem_bytes_replace (hw : p.Within b) :
    x ∈ bytes (l₁ ++ b :: l₂) ↔ x ∈ bytes (l₁ ++ (pieces b p ++ l₂)) ∨ x ∈ p := by
  have hp : x ∈ p → x ∈ b := hw.mem
  simp only [mem_bytes_append, mem_bytes_cons, mem_bytes_pieces hw]
  tauto

lemma total_replace (hw : p.Within b) : total (l₁ ++ (pieces b p ++ l₂)) + p.len = total (l₁ ++ b :: l₂) := by
  have := total_pieces hw
  simp only [total, map_append, map_cons, sum_append, sum_cons] at *
  omega

lemma Separated.apart_replace (h : Separated (l₁ ++ b :: l₂)) (hw : p.Within b) :
    ∀ c ∈ l₁ ++ (pieces b p ++ l₂), p.Apart c := by
  have hb : b ∈ l₁ ++ b :: l₂ := mem_append_right _ mem_cons_self
  obtain ⟨-, hright, hcross⟩ := pairwise_append.mp h.sorted
  obtain ⟨hhead, -⟩ := pairwise_cons.mp hright
  intro c hc
  rcases mem_append.mp hc with hc | hc
  · have := hcross c hc b mem_cons_self
    exact Span.Apart.mono_left (.inr (.inr (.inr (by omega)))) hw
  rcases mem_append.mp hc with hc | hc
  · exact apart_iff.mpr fun x hx hxc => ((mem_bytes_pieces hw).mp ⟨c, hc, hxc⟩).2 hx
  · have := hhead c hc
    exact Span.Apart.mono_left (.inr (.inr (.inl (by omega)))) hw

end

end CrickerOs.Library.Blocks
