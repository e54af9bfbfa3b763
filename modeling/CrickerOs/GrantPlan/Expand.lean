import CrickerOs.GrantPlan.Name
import CrickerOs.Glob.Matcher
import CrickerOs.Library.Least

namespace CrickerOs.GrantPlan

open Library List

def maxNames : ℕ := 8

structure NameSet where
  entries : List (Name × Bool)
  length_le : entries.length ≤ maxNames

namespace NameSet

def empty : NameSet := ⟨[], Nat.zero_le _⟩

variable (set : NameSet)

def names : List Bytes := set.entries.map fun e => e.1.val

def contains (name : Bytes) : Bool := name ∈ set.names

def push (name : Bytes) (isDir : Bool) : Option NameSet :=
  if hfull : set.entries.length = maxNames then none
  else if set.contains name then none
  else if h : FileNameFits name then
    some ⟨set.entries ++ [(⟨name, h⟩, isDir)], by
      have := set.length_le
      rw [List.length_append, List.length_singleton]
      omega⟩
  else none

def inserted (name : Name) (isDir : Bool) : List (Name × Bool) :=
  set.entries.insertIdx (set.entries.findIdx fun e => name.val < e.1.val) (name, isDir)

lemma length_inserted {name : Name} {isDir : Bool} : (set.inserted name isDir).length = set.entries.length + 1 :=
  length_insertIdx_of_le_length findIdx_le_length _

/-- The smallest names offered, in their order, and whether there was room for one more. A full set that takes a
name in moves the last one out. -/
def keepSmallest (name : Name) (isDir : Bool) : NameSet × Bool :=
  if hroom : set.entries.length < maxNames then
    (⟨set.inserted name isDir, by rw [length_inserted]; exact hroom⟩, true)
  else if set.entries.findIdx (fun e => name.val < e.1.val) = maxNames then (set, false)
  else (⟨(set.inserted name isDir).dropLast, by
    have := set.length_le
    rw [List.length_dropLast, length_inserted]
    omega⟩, false)

def last : Option Name := set.entries.getLast?.map (·.1)

end NameSet

inductive Resume
  | start
  | after (w : Name)

structure Batch where
  names : NameSet
  more : Bool

def Batch.next (b : Batch) : Option Resume := if b.more then b.names.last.map .after else none

structure Expander where
  pattern : Bytes
  set : NameSet
  refused : Option Refusal
  resume : Option Resume
  more : Bool

namespace Expander

def new (pattern : Bytes) : Expander := ⟨pattern, .empty, none, none, false⟩

def batch (pattern : Bytes) (resume : Resume) : Expander := ⟨pattern, .empty, none, some resume, false⟩

def refuse (e : Expander) (r : Refusal) : Expander := { e with refused := e.refused.or (some r) }

def isBefore (name : Bytes) : Resume → Bool
  | .start => false
  | .after w => name ≤ w.val

def offer (e : Expander) (name : Bytes) (isDir : Bool) : Expander :=
  if !Glob.matches e.pattern name ∨ e.set.contains name then e
  else if h : FileNameFits name then
    match e.resume with
    | none =>
      match e.set.push name isDir with
      | some set => { e with set := set }
      | none => e.refuse .tooManyNames
    | some resume =>
      if isBefore name resume then e
      else
        let kept := e.set.keepSmallest ⟨name, h⟩ isDir
        { e with set := kept.1, more := e.more || !kept.2 }
  else e.refuse .matchNotNameable

def finish (e : Expander) : Except Refusal NameSet :=
  match e.refused with
  | some r => .error r
  | none => if e.set.entries = [] then .error .noMatch else .ok e.set

def finishBatch (e : Expander) : Except Refusal Batch :=
  match e.refused with
  | some r => .error r
  | none =>
    match e.resume with
    | some .start => if e.set.entries = [] then .error .noMatch else .ok ⟨e.set, e.more⟩
    | _ => .ok ⟨e.set, e.more⟩

end Expander

abbrev Listing := List (Bytes × Bool)

def Expander.offerAll (e : Expander) (listing : Listing) : Expander :=
  listing.foldl (fun e entry => e.offer entry.1 entry.2) e

def expand (pattern : Bytes) (listing : Listing) : Except Refusal NameSet :=
  ((Expander.new pattern).offerAll listing).finish

def expandBatch (pattern : Bytes) (resume : Resume) (listing : Listing) : Except Refusal Batch :=
  ((Expander.batch pattern resume).offerAll listing).finishBatch

def matching (pattern : Bytes) (listing : Listing) : Finset Bytes :=
  ((listing.map (·.1)).filter fun name => Glob.matches pattern name).toFinset

variable {pattern name : Bytes} {listing : Listing} {isDir : Bool}

lemma mem_matching {b : Bytes} : b ∈ matching pattern listing ↔ (∃ d, (b, d) ∈ listing) ∧
    Glob.matches pattern b := by
  simp [matching]

lemma matching_concat : matching pattern (listing ++ [(name, isDir)]) =
    if Glob.matches pattern name then insert name (matching pattern listing) else matching pattern listing := by
  rw [matching, map_append, filter_append, toFinset_append]
  split_ifs with h
  · simp [matching, h, Finset.union_comm]
  · simp [matching, h]

lemma offerAll_induct {I : Listing → Expander → Prop} {e : Expander} (hnil : I [] e)
    (hstep : ∀ seen entry e, seen ++ [entry] <+: listing → I seen e →
    I (seen ++ [entry]) (e.offer entry.1 entry.2)) : I listing (e.offerAll listing) := by
  suffices h : ∀ seen rest e, seen ++ rest = listing → I seen e →
    I listing (e.offerAll rest) from h [] listing e rfl hnil
  intro seen rest
  induction rest generalizing seen with
  | nil =>
    intro e heq he
    rw [append_nil] at heq
    exact heq ▸ he
  | cons entry rest ih =>
    intro e heq he
    have heq' : seen ++ [entry] ++ rest = listing := by
      rw [append_assoc]
      exact heq
    exact ih (seen ++ [entry]) _ heq' (hstep seen entry e ⟨rest, heq'⟩ he)

namespace NameSet

variable {set : NameSet}

lemma contains_iff : set.contains name = true ↔ name ∈ set.names := decide_eq_true_iff

lemma fits_of_mem {b : Bytes} (h : b ∈ set.names) : FileNameFits b := by
  obtain ⟨e, -, rfl⟩ := mem_map.mp h
  exact e.1.2

lemma length_names : set.names.length = set.entries.length := length_map _

lemma length_names_le : set.names.length ≤ maxNames := length_names.trans_le set.length_le

lemma names_eq_nil : set.names = [] ↔ set.entries = [] := map_eq_nil_iff

lemma push_eq (hfits : FileNameFits name) (hnew : name ∉ set.names) :
    (∃ set', set.push name isDir = some set' ∧ set'.names = set.names ++ [name]) ∨
      set.push name isDir = none ∧ set.names.length = maxNames := by
  by_cases hfull : set.entries.length = maxNames
  · exact .inr ⟨dif_pos hfull, length_names.trans hfull⟩
  · refine .inl ⟨⟨set.entries ++ [(⟨name, hfits⟩, isDir)], ?_⟩, ?_, ?_⟩
    · have := set.length_le
      rw [length_append, length_singleton]
      omega
    · rw [push, dif_neg hfull, if_neg (mt contains_iff.mp hnew), dif_pos hfits]
    · rw [names, map_append]
      rfl

end NameSet

namespace Expander

variable {e : Expander}

def Skips (e : Expander) (name : Bytes) : Prop := Glob.matches e.pattern name = false ∨ name ∈ e.set.names

lemma offer_of_skips (h : e.Skips name) : e.offer name isDir = e := by
  refine if_pos (h.imp (fun hmatch => ?_) NameSet.contains_iff.mpr)
  rw [hmatch]
  rfl

lemma offer_of_not_fits (h : ¬ e.Skips name) (hfits : ¬ FileNameFits name) :
    e.offer name isDir = e.refuse .matchNotNameable := by
  rw [offer, if_neg, dif_neg hfits]
  rwa [Bool.not_eq_true', NameSet.contains_iff]

lemma offer_of_fits (h : ¬ e.Skips name) (hfits : FileNameFits name) : e.offer name isDir =
    match e.resume with
    | none =>
      match e.set.push name isDir with
      | some set => { e with set := set }
      | none => e.refuse .tooManyNames
    | some resume =>
      if isBefore name resume then e
      else { e with
        set := (e.set.keepSmallest ⟨name, hfits⟩ isDir).1
        more := e.more || !(e.set.keepSmallest ⟨name, hfits⟩ isDir).2 } := by
  rw [offer, if_neg, dif_pos hfits]
  rwa [Bool.not_eq_true', NameSet.contains_iff]

end Expander

def Unfit (s : Finset Bytes) : Prop := (∃ b ∈ s, ¬ FileNameFits b) ∨ maxNames < s.card

lemma Unfit.mono {s t : Finset Bytes} (h : Unfit s) (hle : s ⊆ t) : Unfit t := by
  rcases h with ⟨b, hb, hfits⟩ | hcard
  · exact .inl ⟨b, hle hb, hfits⟩
  · exact .inr (hcard.trans_le (Finset.card_le_card hle))

structure Collected (pattern : Bytes) (s : Finset Bytes) (e : Expander) : Prop where
  pattern_eq : e.pattern = pattern
  resume_eq : e.resume = none
  nodup : e.set.names.Nodup
  mem : ∀ b ∈ e.set.names, b ∈ s
  complete : e.refused = none → ∀ b ∈ s, b ∈ e.set.names
  refused : e.refused ≠ none → Unfit s

namespace Collected

variable {e : Expander} {s : Finset Bytes}

lemma new : Collected pattern ∅ (.new pattern) :=
  ⟨rfl, rfl, nodup_nil, fun _ h => (nomatch h), fun _ _ h => absurd h (Finset.notMem_empty _),
    fun h => absurd rfl h⟩

lemma refuse (h : Collected pattern s e) {t : Finset Bytes} (hle : s ⊆ t) (hunfit : Unfit t) (r : Refusal) :
    Collected pattern t (e.refuse r) := by
  refine ⟨h.pattern_eq, h.resume_eq, h.nodup, fun b hb => hle (h.mem b hb), fun hnone => ?_, fun _ => hunfit⟩
  rw [Expander.refuse, Option.or_eq_none_iff] at hnone
  exact nomatch hnone.2

lemma offer_match (h : Collected pattern s e) (hmatch : Glob.matches pattern name = true) :
    Collected pattern (insert name s) (e.offer name isDir) := by
  have hle := Finset.subset_insert name s
  by_cases hmem : name ∈ e.set.names
  · rw [Expander.offer_of_skips (.inr hmem), Finset.insert_eq_self.mpr (h.mem name hmem)]
    exact h
  have hskips : ¬ e.Skips name := by
    rw [Expander.Skips, h.pattern_eq, hmatch]
    exact fun hor => hor.elim (fun hfalse => nomatch hfalse) hmem
  by_cases hfits : FileNameFits name
  · rw [Expander.offer_of_fits hskips hfits, h.resume_eq]
    rcases NameSet.push_eq hfits hmem with ⟨set', hpush, hnames⟩ | ⟨hpush, hfull⟩
    · rw [hpush]
      refine ⟨h.pattern_eq, rfl, ?_, fun b hb => ?_, fun hnone b hb => ?_, fun hne => (h.refused hne).mono hle⟩
      · rw [hnames]
        exact nodup_append.mpr ⟨h.nodup, nodup_singleton _, fun a ha b hb heq =>
          hmem (mem_singleton.mp hb ▸ heq ▸ ha)⟩
      · rw [hnames] at hb
        rcases mem_append.mp hb with hb | hb
        · exact hle (h.mem b hb)
        · rw [mem_singleton.mp hb]
          exact Finset.mem_insert_self _ _
      · rw [hnames]
        rcases Finset.mem_insert.mp hb with rfl | hb
        · exact mem_append_right _ (mem_singleton_self _)
        · exact mem_append_left _ (h.complete hnone b hb)
    · rw [hpush]
      refine h.refuse hle (.inr ?_) _
      -- the eight names that are held and this one
      have hcard : (name :: e.set.names).toFinset.card = maxNames + 1 := by
        rw [toFinset_card_of_nodup (nodup_cons.mpr ⟨hmem, h.nodup⟩), length_cons, hfull]
      refine Nat.lt_of_succ_le (hcard.ge.trans (Finset.card_le_card fun b hb => ?_))
      rcases mem_cons.mp (mem_toFinset.mp hb) with rfl | hb
      · exact Finset.mem_insert_self _ _
      · exact hle (h.mem b hb)
  · rw [Expander.offer_of_not_fits hskips hfits]
    exact h.refuse hle (.inl ⟨name, Finset.mem_insert_self _ _, hfits⟩) _

lemma offerAll : Collected pattern (matching pattern listing) ((Expander.new pattern).offerAll listing) := by
  refine offerAll_induct (I := fun seen e => Collected pattern (matching pattern seen) e) new
    fun seen entry e _ h => ?_
  rw [matching_concat]
  split_ifs with hmatch
  · exact h.offer_match hmatch
  · rw [Expander.offer_of_skips (.inl (by rw [h.pattern_eq]; exact eq_false_of_ne_true hmatch))]
    exact h

end Collected

lemma names_of_expand {set : NameSet} (h : expand pattern listing = .ok set) :
    set.names.Nodup ∧ set.names.toFinset = matching pattern listing := by
  have hcollected : Collected pattern (matching pattern listing) _ := Collected.offerAll
  rw [expand, Expander.finish] at h
  split at h
  · exact nomatch h
  · rename_i hnone
    split_ifs at h
    cases h
    refine ⟨hcollected.nodup, Finset.ext fun b => ?_⟩
    rw [mem_toFinset]
    exact ⟨hcollected.mem b, hcollected.complete hnone b⟩

lemma expand_isOk : (∃ set, expand pattern listing = .ok set) ↔
    1 ≤ (matching pattern listing).card ∧ (matching pattern listing).card ≤ maxNames ∧
      ∀ b ∈ matching pattern listing, FileNameFits b := by
  constructor
  · rintro ⟨set, h⟩
    obtain ⟨hnodup, hnames⟩ := names_of_expand h
    have hcard : (matching pattern listing).card = set.names.length := by
      rw [← hnames, toFinset_card_of_nodup hnodup]
    refine ⟨?_, hcard.trans_le NameSet.length_names_le, fun b hb => ?_⟩
    · rw [hcard, Nat.one_le_iff_ne_zero, Ne, length_eq_zero_iff, NameSet.names_eq_nil]
      rintro hnil
      rw [expand, Expander.finish] at h
      split at h
      · exact nomatch h
      · split_ifs at h with hempty
        cases h
        exact hempty hnil
    · rw [← hnames, mem_toFinset] at hb
      exact NameSet.fits_of_mem hb
  · rintro ⟨hone, hmax, hfits⟩
    have hcollected : Collected pattern (matching pattern listing) _ := Collected.offerAll
    have hnone : ((Expander.new pattern).offerAll listing).refused = none := by
      by_contra hne
      rcases hcollected.refused hne with ⟨b, hb, hunfit⟩ | hcard
      · exact hunfit (hfits b hb)
      · omega
    obtain ⟨b, hb⟩ := Finset.card_pos.mp hone
    refine ⟨((Expander.new pattern).offerAll listing).set, ?_⟩
    rw [expand, Expander.finish, hnone]
    refine if_neg fun hnil => ?_
    rw [← NameSet.names_eq_nil] at hnil
    exact not_mem_nil (hnil ▸ hcollected.complete hnone b hb)

end CrickerOs.GrantPlan
