import CrickerOs.GrantPlan.Expand

namespace CrickerOs.GrantPlan

open Library NameSet Expander List Option

variable {pattern : Bytes} {r : Resume} {s : Finset Bytes} {listing : Listing} {name : Bytes} {isDir : Bool}

def ahead (r : Resume) (s : Finset Bytes) : Finset Bytes := s.filter fun b => Expander.isBefore b r = false

section

variable {set : NameSet} {n : Name}

lemma findIdx_entries : (set.entries.findIdx fun e => n.val < e.1.val) = set.names.findIdx (n.val < ·) := by
  rw [names, findIdx_map]
  rfl

lemma map_inserted : (set.inserted n isDir).map (fun e => e.1.val) = place n.val set.names := by
  rw [inserted, map_insertIdx, findIdx_entries, place]
  congr!

lemma least_keepSmallest {t : Finset Bytes} (h : Least maxNames (t : Set Bytes) set.names)
    (hnew : n.val ∉ set.names) : Least maxNames ((insert n.val t : Finset Bytes) : Set Bytes)
      (set.keepSmallest n isDir).1.names ∧ ((set.keepSmallest n isDir).2 = false ↔ maxNames ≤ t.card) := by
  have hlength := h.length_eq
  rw [length_names] at hlength
  rw [Finset.coe_insert, keepSmallest]
  split_ifs with hroom hlast
  · refine ⟨?_, iff_of_false id (by omega)⟩
    rw [names, map_inserted]
    exact h.insert_place hnew (by rwa [length_names])
  all_goals
    refine ⟨?_, iff_of_true rfl (by omega)⟩
    have hfull : set.names.length = maxNames := by
      rw [length_names]
      omega
    rw [findIdx_entries, ← hfull] at hlast
  · rw [findIdx_eq_length] at hlast
    refine h.insert_above hfull fun y hy => lt_of_le_of_ne ?_ fun heq => hnew (heq ▸ hy)
    exact not_lt.mp (of_decide_eq_false (hlast y hy))
  · obtain ⟨z, hz, hlt⟩ := findIdx_lt_length.mp (lt_of_le_of_ne findIdx_le_length hlast)
    rw [names, map_dropLast, map_inserted]
    exact h.insert_displace hnew hfull hz (of_decide_eq_true hlt)

end

structure Batched (pattern : Bytes) (r : Resume) (s : Finset Bytes) (e : Expander) : Prop where
  pattern_eq : e.pattern = pattern
  resume_eq : e.resume = some r
  refused : e.refused = none
  least : Least maxNames (ahead r s : Set Bytes) e.set.names
  more : e.more = true ↔ maxNames < (ahead r s).card

namespace Batched

variable {e : Expander}

lemma batch : Batched pattern r ∅ (.batch pattern r) := by
  refine ⟨rfl, rfl, rfl, ?_, ?_⟩
  · rw [ahead, Finset.filter_empty, Finset.coe_empty]
    exact Least.nil
  · exact ⟨fun h => (nomatch h), fun h => absurd h (Nat.not_lt_zero _)⟩

lemma offer_match (h : Batched pattern r s e) (hmatch : Glob.matches pattern name = true)
    (hfits : FileNameFits name) : Batched pattern r (insert name s) (e.offer name isDir) := by
  by_cases hmem : name ∈ e.set.names
  · have hs : name ∈ ahead r s := h.least.mem name hmem
    rw [offer_of_skips (.inr hmem), Finset.insert_eq_self.mpr (Finset.mem_of_mem_filter name hs)]
    exact h
  have hskips : ¬ e.Skips name := by
    rw [Expander.Skips, h.pattern_eq, hmatch]
    exact fun hor => hor.elim (fun hfalse => by cases hfalse) hmem
  have hahead : ahead r (insert name s) = if Expander.isBefore name r then ahead r s
    else insert name (ahead r s) := by
    rw [ahead, Finset.filter_insert]
    cases isBefore name r <;> rfl
  rw [offer_of_fits hskips hfits, h.resume_eq]
  dsimp only
  split_ifs at hahead ⊢ with hbefore
  · refine ⟨h.pattern_eq, h.resume_eq, h.refused, ?_, ?_⟩
    · rw [hahead]
      exact h.least
    · rw [hahead]
      exact h.more
  · obtain ⟨hleast, hroom⟩ := @least_keepSmallest isDir e.set ⟨name, hfits⟩ _ h.least hmem
    refine ⟨h.pattern_eq, rfl, h.refused, ?_, ?_⟩
    · rw [hahead]
      exact hleast
    · rw [hahead, Bool.or_eq_true, Bool.not_eq_true', hroom, h.more]
      -- a name that was left out before is one that did not fit
      by_cases hin : name ∈ ahead r s
      · have hlt := h.least.exists_left_out.mp ⟨name, hin, hmem⟩
        rw [Finset.insert_eq_self.mpr hin]
        omega
      · rw [Finset.card_insert_of_notMem hin]
        omega

lemma offerAll (hfits : ∀ b ∈ matching pattern listing, FileNameFits b) :
    Batched pattern r (matching pattern listing) ((Expander.batch pattern r).offerAll listing) := by
  refine offerAll_induct (I := fun seen e => Batched pattern r (matching pattern seen) e) batch
    fun seen entry e hseen h => ?_
  rw [matching_concat]
  split_ifs with hmatch
  · refine h.offer_match hmatch (hfits _ ?_)
    exact mem_matching.mpr ⟨⟨entry.2, hseen.subset (mem_append_right _ (mem_singleton_self _))⟩, hmatch⟩
  · rw [offer_of_skips (.inl (by rw [h.pattern_eq]; exact eq_false_of_ne_true hmatch))]
    exact h

end Batched

lemma least_of_expandBatch {b : Batch} (hfits : ∀ b ∈ matching pattern listing, FileNameFits b)
    (h : expandBatch pattern r listing = .ok b) :
    Least maxNames (ahead r (matching pattern listing) : Set Bytes) b.names.names ∧
      (b.more = true ↔ maxNames < (ahead r (matching pattern listing)).card) := by
  have hbatched : Batched pattern r (matching pattern listing) _ := Batched.offerAll hfits
  have hb : b = ⟨((batch pattern r).offerAll listing).set, ((batch pattern r).offerAll listing).more⟩ := by
    rw [expandBatch, finishBatch, hbatched.refused, hbatched.resume_eq] at h
    cases r with
    | start =>
      split_ifs at h
      exact (Except.ok.inj h).symm
    | after w => exact (Except.ok.inj h).symm
  subst hb
  exact ⟨hbatched.least, hbatched.more⟩

lemma expandBatch_of_ahead (hfits : ∀ b ∈ matching pattern listing, FileNameFits b)
    (hname : name ∈ ahead r (matching pattern listing)) : ∃ b, expandBatch pattern r listing = .ok b := by
  have hbatched : Batched pattern r (matching pattern listing) _ := Batched.offerAll hfits
  refine ⟨⟨((Expander.batch pattern r).offerAll listing).set, ((Expander.batch pattern r).offerAll listing).more⟩,
    ?_⟩
  rw [expandBatch, finishBatch, hbatched.refused, hbatched.resume_eq]
  cases r with
  | after w => rfl
  | start =>
    refine if_neg fun hnil => ?_
    have hlength := hbatched.least.length_eq
    have hpos := Finset.card_pos.mpr ⟨name, hname⟩
    rw [names_eq_nil.mpr hnil, length_nil, maxNames] at hlength
    omega

lemma next_of_more {b : Batch} (hsorted : b.names.names.Pairwise (· < ·)) (hne : b.names.entries ≠ [])
    (hmore : b.more = true) :
    ∃ w : Name, b.next = some (.after w) ∧ w.val ∈ b.names.names ∧ ∀ y ∈ b.names.names, y ≤ w.val := by
  obtain ⟨front, e, heq⟩ := eq_nil_or_concat'  b.names.entries |>.resolve_left hne
  have hnames : b.names.names = front.map (fun e => e.1.val) ++ [e.1.val] := by
    rw [names, heq, map_append]
    rfl
  refine ⟨e.1, ?_, ?_, fun y hy => ?_⟩
  · rw [Batch.next, if_pos hmore, last, heq, getLast?_append]
    rfl
  · rw [hnames]
    exact mem_append_right _ (mem_singleton_self _)
  · rw [hnames] at hsorted hy
    rcases mem_append.mp hy with hy | hy
    · exact ((pairwise_append.mp hsorted).2.2 y hy _ (mem_singleton_self _)).le
    · exact (mem_singleton.mp hy).le

section

variable (pattern : Bytes) (listings : ℕ → Listing)

def sweep : ℕ → Option Resume
  | 0 => some .start
  | n + 1 => (sweep n).bind fun r => (expandBatch pattern r (listings n)).toOption.bind Batch.next

def batchAt (n : ℕ) : Option Batch :=
  (sweep pattern listings n).bind fun r => (expandBatch pattern r (listings n)).toOption

def HandsOut (n : ℕ) (name : Bytes) : Prop := ∃ b ∈ batchAt pattern listings n, name ∈ b.names.names

variable {pattern listings} {n : ℕ} {b : Batch}

lemma batchAt_eq_some : batchAt pattern listings n = some b ↔
    ∃ r, sweep pattern listings n = some r ∧ expandBatch pattern r (listings n) = .ok b := by
  rw [batchAt, bind_eq_some_iff]
  refine exists_congr fun r => and_congr_right fun _ => ?_
  cases expandBatch pattern r (listings n) <;> simp [Except.toOption]

lemma sweep_succ : sweep pattern listings (n + 1) = (batchAt pattern listings n).bind Batch.next := by
  rw [sweep, batchAt, bind_assoc]

variable (hfits : ∀ n, ∀ b ∈ matching pattern (listings n), FileNameFits b)

include hfits

lemma isBefore_of_mem (hr : sweep pattern listings n = some r) (hname : HandsOut pattern listings n name) :
    name ∈ ahead r (matching pattern (listings n)) := by
  obtain ⟨b, hb, hmem⟩ := hname
  obtain ⟨r', hr', hbatch⟩ := batchAt_eq_some.mp hb
  cases mem_unique hr hr'
  exact (least_of_expandBatch (hfits n) hbatch).1.mem name hmem

lemma next_round {r' : Resume} (hr' : sweep pattern listings (n + 1) = some r') :
    ∃ r, ∃ w : Name, sweep pattern listings n = some r ∧ r' = .after w ∧ HandsOut pattern listings n w.val ∧
      ∀ y, HandsOut pattern listings n y → y ≤ w.val := by
  rw [sweep_succ] at hr'
  obtain ⟨b, hb, hnext⟩ := bind_eq_some_iff.mp hr'
  obtain ⟨r, hr, hbatch⟩ := batchAt_eq_some.mp hb
  obtain ⟨hleast, hmore⟩ := least_of_expandBatch (hfits n) hbatch
  have hisMore : b.more = true := by
    by_contra hnot
    rw [Batch.next, if_neg hnot] at hnext
    exact nomatch hnext
  have hne : b.names.entries ≠ [] := fun hnil => by
    have hlength := hleast.length_eq
    have hcard := hmore.mp hisMore
    rw [names_eq_nil.mpr hnil, length_nil, maxNames] at hlength
    omega
  obtain ⟨w, hw, hmem, hle⟩ := next_of_more hleast.sorted hne hisMore
  refine ⟨r, w, hr, mem_unique hnext hw, ⟨b, hb, hmem⟩, fun y hy => ?_⟩
  obtain ⟨b', hb', hy⟩ := hy
  rw [mem_def, hb] at hb'
  cases hb'
  exact hle y hy

lemma isBefore_of_lt {m : ℕ} (hlt : m < n) (hr : sweep pattern listings n = some r)
    (hname : HandsOut pattern listings m name) : isBefore name r = true := by
  induction n generalizing r with
  | zero => exact absurd hlt (Nat.not_lt_zero _)
  | succ n ih =>
    obtain ⟨r₀, w, hr₀, rfl, hw, hle⟩ := next_round hfits hr
    refine decide_eq_true ?_
    rcases Nat.lt_succ_iff_lt_or_eq.mp hlt with hlt | rfl
    · -- it was before the start of the last round, whose names are all after that
      have hbefore := ih hlt hr₀
      have hahead := isBefore_of_mem hfits hr₀ hw
      cases r₀ with
      | start => exact nomatch hbefore
      | after w₀ =>
        have hle₀ : name ≤ w₀.val := of_decide_eq_true hbefore
        have hlt₀ : ¬ w.val ≤ w₀.val := of_decide_eq_false (Finset.mem_filter.mp hahead).2
        exact hle₀.trans (not_le.mp hlt₀).le
    · exact hle name hname

lemma next_of_left_out (hr : sweep pattern listings n = some r)
    (hname : name ∈ ahead r (matching pattern (listings n))) (hnot : ¬ HandsOut pattern listings n name) :
    ∃ r', sweep pattern listings (n + 1) = some r' ∧ isBefore name r' = false := by
  obtain ⟨b, hbatch⟩ := expandBatch_of_ahead (hfits n) hname
  have hb : batchAt pattern listings n = some b := batchAt_eq_some.mpr ⟨r, hr, hbatch⟩
  obtain ⟨hleast, hmore⟩ := least_of_expandBatch (hfits n) hbatch
  have hmem : name ∉ b.names.names := fun hmem => hnot ⟨b, hb, hmem⟩
  obtain ⟨hfull, hbelow⟩ := hleast.left_out name hname hmem
  have hne : b.names.entries ≠ [] := fun hnil => by
    rw [names_eq_nil.mpr hnil] at hfull
    exact nomatch hfull
  obtain ⟨w, hw, hwmem, -⟩ := next_of_more hleast.sorted hne
    (hmore.mpr (hleast.exists_left_out.mp ⟨name, hname, hmem⟩))
  refine ⟨.after w, ?_, decide_eq_false (not_le.mpr (hbelow _ hwmem))⟩
  rw [sweep_succ, hb]
  exact hw

lemma sweep_ends : ∃ n, sweep pattern listings n = none := by
  by_contra hnever
  have hnext (n : ℕ) : ∃ w : Name, sweep pattern listings (n + 1) = some (.after w) := by
    obtain ⟨r, hr⟩ := ne_none_iff_exists'.mp (not_exists.mp hnever (n + 1))
    obtain ⟨-, w, -, rfl, -, -⟩ := next_round hfits hr
    exact ⟨w, hr⟩
  choose w hw using hnext
  have hmono : StrictMono fun n => (w n).val := by
    refine strictMono_nat_of_lt_succ fun n => ?_
    obtain ⟨r, w', hr, heq, hout, -⟩ := next_round hfits (hw (n + 1))
    cases Resume.after.inj heq
    cases some.inj (hr.symm.trans (hw n))
    have hahead := isBefore_of_mem hfits (hw n) hout
    exact not_le.mp (of_decide_eq_false (Finset.mem_filter.mp hahead).2)
  exact not_injective_infinite_finite w fun m n h => hmono.injective (congrArg Subtype.val h)

lemma exists_handsOut (hmatch : Glob.matches pattern name = true)
    (hlisted : ∀ n, sweep pattern listings n ≠ none → ∃ d, (name, d) ∈ listings n) :
    ∃ n, HandsOut pattern listings n name := by
  by_contra hnot
  have hall (n : ℕ) : ∃ r, sweep pattern listings n = some r ∧ isBefore name r = false := by
    induction n with
    | zero => exact ⟨.start, rfl, rfl⟩
    | succ n ih =>
      obtain ⟨r, hr, hbefore⟩ := ih
      have hmem := mem_matching.mpr ⟨hlisted n (by rw [hr]; exact some_ne_none _), hmatch⟩
      exact next_of_left_out hfits hr (Finset.mem_filter.mpr ⟨hmem, hbefore⟩) (not_exists.mp hnot n)
  obtain ⟨n, hend⟩ := sweep_ends hfits
  obtain ⟨r, hr, -⟩ := hall n
  rw [hend] at hr
  exact nomatch hr

end

theorem batches_partition_the_expansion :
    (∀ pattern listing, ((∃ set, expand pattern listing = .ok set) ↔ 1 ≤ (matching pattern listing).card ∧
        (matching pattern listing).card ≤ maxNames ∧ ∀ b ∈ matching pattern listing, FileNameFits b) ∧
      ∀ set, expand pattern listing = .ok set →
        set.names.Nodup ∧ set.names.toFinset = matching pattern listing) ∧
    ∀ pattern listings, (∀ n, ∀ b ∈ matching pattern (listings n), FileNameFits b) →
      (∃ n, sweep pattern listings n = none) ∧
      (∀ m n name, HandsOut pattern listings m name → HandsOut pattern listings n name → m = n) ∧
      (∀ n b, batchAt pattern listings n = some b → b.names.names.Pairwise (· < ·)) ∧
      (∀ name, Glob.matches pattern name = true →
        (∀ n, sweep pattern listings n ≠ none → ∃ d, (name, d) ∈ listings n) → ∃! n,
        HandsOut pattern listings n name) ∧
      ∀ n r b, sweep pattern listings n = some r → batchAt pattern listings n = some b →
        (b.more = true ↔ ∃ name ∈ ahead r (matching pattern (listings n)), name ∉ b.names.names) := by
  refine ⟨fun pattern listing => ⟨expand_isOk, fun set => names_of_expand⟩, fun pattern listings hfits => ?_⟩
  have honce (m n : ℕ) (name : Bytes) (hm : HandsOut pattern listings m name)
      (hn : HandsOut pattern listings n name) : ¬ m < n := fun hlt => by
    have ⟨b, hb, _⟩ := hn
    obtain ⟨r, hr, -⟩ := batchAt_eq_some.mp hb
    have hahead := isBefore_of_mem hfits hr hn
    rw [ahead, Finset.mem_filter, isBefore_of_lt hfits hlt hr hm] at hahead
    exact nomatch hahead.2
  have hunique (m n : ℕ) (name : Bytes) (hm : HandsOut pattern listings m name)
      (hn : HandsOut pattern listings n name) : m = n :=
        le_antisymm (not_lt.mp (honce n m name hn hm)) (not_lt.mp (honce m n name hm hn))
  refine ⟨sweep_ends hfits, hunique, fun n b hb => ?_, fun name hmatch hlisted => ?_, fun n r b hr hb => ?_⟩
  · obtain ⟨r, -, hbatch⟩ := batchAt_eq_some.mp hb
    exact (least_of_expandBatch (hfits n) hbatch).1.sorted
  · obtain ⟨n, hn⟩ := exists_handsOut hfits hmatch hlisted
    exact ⟨n, hn, fun m hm => hunique m n name hm hn⟩
  · obtain ⟨r', hr', hbatch⟩ := batchAt_eq_some.mp hb
    cases mem_unique hr hr'
    obtain ⟨hleast, hmore⟩ := least_of_expandBatch (hfits n) hbatch
    rw [hmore, ← hleast.exists_left_out]

/-- Nine names at first, one of them twice; then a name that was handed out, the ninth and a new one. -/
def changingListing (n : ℕ) : Listing :=
  (if n = 0 then "ihgfedcbai" else "jia").toList.map fun c => ([c.toUInt8], false)

lemma matches_any {c : UInt8} (h : c ≠ '.'.toUInt8) : Glob.matches ['?'.toUInt8] [c] = true := by
  rw [Glob.matches, Glob.matchSteps, if_neg (by simp [h]), Glob.matchLoop,
    dif_pos (show Glob.Cursor.start.i < [c].length from zero_lt_one)]
  dsimp only
  split
  · rename_i cur hadvance
    obtain rfl : _ = cur := some.inj hadvance
    rw [Glob.matchLoop]
    simp [Glob.Cursor.start, Glob.skipStars]
  · rename_i hnone
    exact absurd hnone (Option.some_ne_none _)

theorem batches_partition_the_expansion_sample :
    maxNames < (matching ['?'.toUInt8] (changingListing 0)).card ∧
      ∃! n, HandsOut ['?'.toUInt8] changingListing n ['i'.toUInt8] := by
  have hfits : ∀ n, ∀ e ∈ changingListing n, FileNameFits e.1 := by
    rintro (_ | n)
    · decide
    · exact show ∀ e ∈ changingListing 1, _ by decide
  have hlisted : ∀ n, (['i'.toUInt8], false) ∈ changingListing n := by
    rintro (_ | n)
    · decide
    · exact show _ ∈ changingListing 1 by decide
  constructor
  · have hall : ∀ b ∈ (changingListing 0).map (·.1), Glob.matches ['?'.toUInt8] b = true := by
      have hbytes : ∀ b ∈ (changingListing 0).map (·.1), ∃ c ∈ b, c ≠ '.'.toUInt8 ∧ b = [c] := by decide
      intro b hb
      obtain ⟨c, -, hc, rfl⟩ := hbytes b hb
      exact matches_any hc
    rw [matching, filter_eq_self.mpr hall]
    decide
  · refine (batches_partition_the_expansion.2 _ _ fun n b hb => ?_).2.2.2.1 _ (matches_any (by decide)) fun n _ =>
      ⟨false, hlisted n⟩
    obtain ⟨⟨d, hmem⟩, -⟩ := mem_matching.mp hb
    exact hfits n _ hmem

end CrickerOs.GrantPlan
