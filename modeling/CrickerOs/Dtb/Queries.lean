import CrickerOs.Dtb.Tree

namespace CrickerOs.Dtb

open Library Library.Outcome Library.Bytes Function Forest List Option

def firstOf (name : Bytes) (ps : List Property) : Option Bytes :=
  (ps.find? fun p => p.name.val = name).map (·.value)

def lastOf (name : Bytes) (ps : List Property) : Option Bytes := firstOf name ps.reverse

lemma firstOf_cons {name : Bytes} {p : Property} {ps : List Property} :
    firstOf name (p :: ps) = if p.name.val = name then some p.value else firstOf name ps := by
  rw [firstOf, find?_cons]
  split_ifs with h
  · rw [decide_eq_true h]
    rfl
  · rw [decide_eq_false h]
    rfl

lemma lastOf_concat {name : Bytes} {p : Property} {qs : List Property} :
    lastOf name (qs ++ [p]) = if p.name.val = name then some p.value else lastOf name qs := by
  rw [lastOf, reverse_append]
  exact firstOf_cons

variable {dtb : Dtb} {start name : Bytes}

section

/-- What `nodeProp` asks for: the first node in document order whose name begins so, and its first such
property. -/
def Forest.named (start : Bytes) (f : Forest) : Option Node := f.preorder.find? fun n => start <+: n.name.val

lemma named_node {head : Node} {children siblings : Forest} :
    (node head children siblings).named start =
      if start <+: head.name.val then some head else (children.named start).or (siblings.named start) := by
  rw [named, preorder, find?_cons]
  split_ifs with h
  · rw [decide_eq_true h]
  · rw [decide_eq_false h, find?_append]
    rfl

section

variable {d : ℕ} {t : Option ℕ}

lemma propWalk_begin {nm : Bytes} (h : d + 1 < 2 ^ 64) : (dtb.propWalk start name).beginNode ⟨d, t⟩ nm =
    ok ⟨d + 1, if 2 ≤ d + 1 ∧ start <+: nm ∧ t = none then some (d + 1) else t⟩ := by
  rw [propWalk]
  dsimp only
  rw [add_eq h]
  rfl

lemma propWalk_end (h : t ≠ some d) : (dtb.propWalk start name).endNode ⟨d, t⟩ = ok (.more ⟨d - 1, t⟩) := if_neg h

lemma propWalk_prop {nameOff valueAt len : ℕ} (h : t ≠ some d) :
    (dtb.propWalk start name).prop ⟨d, t⟩ nameOff valueAt len = ok (.more ⟨d, t⟩) := if_neg h

end

variable {done : Option Bytes → Prop} {fail : Error → Prop} {d : ℕ}

lemma propWalk_props {t : Option ℕ} {ps : List Property} (h : t ≠ some d) :
    Leads dtb (dtb.propWalk start name) done fail (· = ⟨d, t⟩) (ps.map .prop) ⟨d, t⟩ := by
  refine leads_props (I := fun _ (s : TargetState) => s = ⟨d, t⟩) rfl fun qs p nameOff valueAt s _ hs _ => ?_
  subst hs
  rw [propWalk_prop h]
  rfl

lemma propWalk_inside {target : ℕ} (f : Forest) (htarget : target ≤ d) (hheight : d + f.height < 2 ^ 64) :
    Leads dtb (dtb.propWalk start name) done fail (· = ⟨d, some target⟩) f.tokens ⟨d, some target⟩ := by
  induction f generalizing d with
  | nil => rfl
  | node head children siblings ihc ihs =>
    rw [height] at hheight
    have hne : some target ≠ some (d + 1) := fun h => by
      have := some.inj h
      omega
    rw [leads_node, propWalk_begin (by omega), if_neg (by simp), holds_ok]
    refine (propWalk_props hne).onward ?_
    rintro _ rfl
    refine (ihc (by omega) (by omega)).onward ?_
    rintro _ rfl
    rw [propWalk_end hne]
    exact ihs htarget (by omega)

lemma propWalk_target (hd : dtb.Sized) {ps : List Property} :
    Leads dtb (dtb.propWalk start name) (fun r => r = firstOf name ps ∧ r ≠ none) (fun _ => False)
      (fun s => firstOf name ps = none ∧ s = ⟨d, some d⟩) (ps.map .prop) ⟨d, some d⟩ := by
  induction ps with
  | nil => exact ⟨rfl, rfl⟩
  | cons p ps ih =>
    intro nameOff valueAt hp
    rw [propWalk]
    dsimp only
    rw [if_pos rfl, hp.name, ok_bind, firstOf_cons]
    split_ifs with hname
    · rw [value_of_reads hd hp.reads, ok_bind]
      exact ⟨rfl, some_ne_none _⟩
    · exact ih

lemma propWalk_forest (hd : dtb.Sized) (f : Forest) (hone : 1 ≤ d) (hheight : d + f.height < 2 ^ 64) :
    Leads dtb (dtb.propWalk start name) (fun r => ∃ n, f.named start = some n ∧ r = firstOf name n.props)
      (fun _ => False) (fun s => f.named start = none ∧ s = ⟨d, none⟩) f.tokens ⟨d, none⟩ := by
  induction f generalizing d with
  | nil => exact ⟨rfl, rfl⟩
  | node head children siblings ihc ihs =>
    rw [height] at hheight
    rw [leads_node, propWalk_begin (by omega), holds_ok, named_node]
    by_cases hstart : start <+: head.name.val
    · rw [if_pos hstart, if_pos ⟨by omega, hstart, rfl⟩]
      refine (propWalk_target hd).mono (fun r hr => ⟨head, rfl, hr.1⟩) (fun _ => id) ?_
      rintro _ ⟨hnone, rfl⟩
      refine (propWalk_inside children le_rfl (by omega)).onward ?_
      rintro _ rfl
      have hend : (dtb.propWalk start name).endNode ⟨d + 1, some (d + 1)⟩ = ok (.done none) := if_pos rfl
      rw [hend]
      exact ⟨head, rfl, hnone.symm⟩
    · rw [if_neg hstart, if_neg fun h => hstart h.2.1]
      refine (propWalk_props (some_ne_none _).symm).onward ?_
      rintro _ rfl
      refine (ihc (by omega) (by omega)).mono (fun r hr => ?_) (fun _ => id) ?_
      · obtain ⟨n, hn, hr⟩ := hr
        exact ⟨n, by rw [hn]; rfl, hr⟩
      · rintro _ ⟨hnone, rfl⟩
        rw [propWalk_end (some_ne_none _).symm, hnone]
        exact ihs hone (by omega)

lemma nodeProp_eq (hd : dtb.Sized) {t : Tree} (ht : dtb.Serialises t) (hheight : t.height < 2 ^ 64) :
    dtb.nodeProp start name = ok ((t.children.named start).bind fun n => firstOf name n.props) := by
  rw [Tree.height] at hheight
  suffices h : (dtb.nodeProp start name).Holds (· = (t.children.named start).bind fun n => firstOf name n.props)
      fun _ => False by
    obtain ⟨r, hr, rfl⟩ := h.exists_ok id
    exact hr
  refine walk_leads hd ht ?_
  rw [leads_node, propWalk_begin (by decide), if_neg (by omega), holds_ok]
  refine (propWalk_props (some_ne_none _).symm).onward ?_
  rintro _ rfl
  refine (propWalk_forest hd t.children le_rfl (by omega)).mono (fun r hr => ?_) (fun _ => id) ?_
  · obtain ⟨n, hn, rfl⟩ := hr
    rw [hn]
    rfl
  · rintro _ ⟨hnone, rfl⟩
    rw [propWalk_end (some_ne_none _).symm, hnone]
    rfl

end

section

structure Marks (dtb : Dtb) (mark : Bool → Bytes → ℕ → ℕ → Outcome Error Bool) (test : List Property → Bool) :
    Prop where
  nil : test [] = false
  concat : ∀ qs p nameOff valueAt, Located dtb p nameOff valueAt →
    mark (test qs) p.name.val valueAt p.value.length = ok (test (qs ++ [p]))

def MatchState.Keeps (s s' : MatchState) : Prop :=
  s'.depth = s.depth ∧ ∀ i ≤ s.depth, s'.found i = s.found i ∧ s'.matched i = s.matched i

structure MatchState.Open (dtb : Dtb) (name : Bytes) (test : List Property → Bool) (s : MatchState)
    (qs : List Property) (s' : MatchState) : Prop where
  depth : s'.depth = s.depth + 1
  above : ∀ i ≤ s.depth, s'.found i = s.found i ∧ s'.matched i = s.matched i
  found : dtb.valueOf (s'.found (s.depth + 1)) = ok (lastOf name qs)
  matched : s'.matched (s.depth + 1) = test qs

def Forest.closing (test : List Property → Bool) (f : Forest) : Option Node :=
  f.postorder.find? fun n => test n.props

variable {mark : Bool → Bytes → ℕ → ℕ → Outcome Error Bool} {test : List Property → Bool}

lemma closing_node {head : Node} {children siblings : Forest} : (node head children siblings).closing test =
    (children.closing test).or (if test head.props then some head else siblings.closing test) := by
  rw [closing, postorder, find?_append, find?_cons]
  cases htest : test head.props <;> rfl

variable {s : MatchState}

lemma matchWalk_begin {nm : Bytes} (htest : Marks dtb mark test) (h : s.depth + 1 < maxDepth) :
    ((dtb.matchWalk name mark).beginNode s nm).Holds (s.Open dtb name test []) fun _ => False := by
  have hmax : maxDepth = 16 := rfl
  rw [matchWalk]
  dsimp only
  rw [add_eq (by omega), ok_bind, Slots.storeIf_eq id, ok_bind, Slots.storeIf_eq id, ok_bind, if_pos h, if_pos h]
  refine ⟨rfl, fun i hi => ⟨?_, ?_⟩, ?_, ?_⟩
  · exact update_of_ne (by omega) _ _
  · exact update_of_ne (by omega) _ _
  · dsimp only
    rw [update_self]
    rfl
  · dsimp only
    rw [update_self, htest.nil]

variable {qs : List Property}

lemma matchWalk_prop (hd : dtb.Sized) (htest : Marks dtb mark test) (h : s.depth + 1 < maxDepth)
    {p : Property} {nameOff valueAt : ℕ} {s' : MatchState} {done : Option Bytes → Prop}
    (hs' : s.Open dtb name test qs s') (hp : Located dtb p nameOff valueAt) :
    ((dtb.matchWalk name mark).prop s' nameOff valueAt p.value.length).Holds
      (Next.Holds (s.Open dtb name test (qs ++ [p])) done) fun _ => False := by
  obtain ⟨found, matched, depth⟩ := s'
  obtain ⟨rfl, habove, hfound, hmatched⟩ := hs'
  dsimp only at hfound hmatched habove
  rw [matchWalk]
  dsimp only
  rw [hp.name, ok_bind, if_pos h, Slots.storeIf_eq fun _ => h, ok_bind, Slots.get_eq h, ok_bind, hmatched,
    htest.concat qs p nameOff valueAt hp, ok_bind, Slots.store_eq h, ok_bind]
  refine ⟨rfl, fun i hi => ⟨?_, ?_⟩, ?_, update_self _ _ _⟩
  · dsimp only
    split_ifs
    · rw [update_of_ne (by omega)]
      exact (habove i hi).1
    · exact (habove i hi).1
  · dsimp only
    rw [update_of_ne (by omega)]
    exact (habove i hi).2
  · dsimp only
    rw [lastOf_concat]
    split_ifs
    · rw [update_self, valueOf, value_of_reads hd hp.reads]
      rfl
    · exact hfound

lemma MatchState.Open.keeps {s₁ s₂ : MatchState} (h : s.Open dtb name test qs s₁) (hs : s₁.Keeps s₂) :
    s.Open dtb name test qs s₂ := by
  obtain ⟨hdepth, hsame⟩ := hs
  rw [h.depth] at hdepth hsame
  refine ⟨hdepth, fun i hi => ?_, ?_, ?_⟩
  · obtain ⟨hf, hm⟩ := hsame i (by omega)
    rw [hf, hm]
    exact h.above i hi
  · rw [(hsame _ le_rfl).1]
    exact h.found
  · rw [(hsame _ le_rfl).2]
    exact h.matched

def MatchesForest (dtb : Dtb) (name : Bytes) (mark : Bool → Bytes → ℕ → ℕ → Outcome Error Bool)
    (test : List Property → Bool) (f : Forest) (s : MatchState) : Prop :=
  Leads dtb (dtb.matchWalk name mark) (fun r => ∃ n, f.closing test = some n ∧ r = lastOf name n.props)
    (fun _ => False) (fun s' => f.closing test = none ∧ s.Keeps s') f.tokens s

lemma matchWalk_body (hd : dtb.Sized) (htest : Marks dtb mark test) {head : Node} {children siblings : Forest}
    {done : Option Bytes → Prop} {more : MatchState → Prop} (h : s.depth + 1 < maxDepth)
    (hchildren : ∀ s₁ : MatchState, s₁.depth = s.depth + 1 → MatchesForest dtb name mark test children s₁)
    (hdone : ∀ n, children.closing test = some n → done (lastOf name n.props))
    (hend : ∀ s₂, children.closing test = none → s.Open dtb name test head.props s₂ →
      ((dtb.matchWalk name mark).endNode s₂).Holds
        (Next.Holds (Leads dtb (dtb.matchWalk name mark) done (fun _ => False) more siblings.tokens) done)
        fun _ => False) :
    Leads dtb (dtb.matchWalk name mark) done (fun _ => False) more (node head children siblings).tokens s := by
  refine leads_body (fun s₂ => children.closing test = none ∧ s.Open dtb name test head.props s₂)
    (matchWalk_begin htest h) (fun _ _ _ _ _ _ => matchWalk_prop hd htest h) (fun s₁ hs₁ => ?_)
      fun s₂ hs₂ => hend s₂ hs₂.1 hs₂.2
  refine (hchildren s₁ hs₁.depth).mono (fun r hr => ?_) (fun _ => id) fun s₂ hs₂ => ⟨hs₂.1, hs₁.keeps hs₂.2⟩
  obtain ⟨n, hn, rfl⟩ := hr
  exact hdone n hn

lemma matchWalk_end {s₂ : MatchState} (hone : 1 ≤ s.depth) (h : s.depth + 1 < maxDepth)
    (hs₂ : s.Open dtb name test qs s₂) : (dtb.matchWalk name mark).endNode s₂ =
      if test qs then ok (.done (lastOf name qs)) else ok (.more { s₂ with depth := s.depth }) := by
  rw [matchWalk]
  dsimp only
  rw [matchedAt, hs₂.depth, if_pos ⟨by omega, h⟩, Slots.get_eq h, ok_bind, hs₂.matched]
  split_ifs
  · rw [Slots.get_eq h, ok_bind, hs₂.found]
    rfl
  · rfl

lemma matchWalk_end_root {s₂ : MatchState} (hroot : s.depth = 0) (hs₂ : s.Open dtb name test qs s₂) :
    (dtb.matchWalk name mark).endNode s₂ = ok (.more { s₂ with depth := 0 }) := by
  rw [matchWalk]
  dsimp only
  rw [matchedAt, hs₂.depth, hroot, if_neg (by omega)]
  rfl

lemma matchWalk_forest (hd : dtb.Sized) (htest : Marks dtb mark test) (f : Forest) (hone : 1 ≤ s.depth)
    (hheight : s.depth + f.height < maxDepth) : MatchesForest dtb name mark test f s := by
  induction f generalizing s with
  | nil => exact ⟨rfl, rfl, fun _ _ => ⟨rfl, rfl⟩⟩
  | node head children siblings ihc ihs =>
    rw [height] at hheight
    rw [MatchesForest, closing_node]
    refine matchWalk_body hd htest (by omega) (fun s₁ hs₁ => ihc (by omega) (by omega)) (fun n hn => ?_)
      fun s₂ hnone hs₂ => ?_
    · rw [hn]
      exact ⟨n, rfl, rfl⟩
    · rw [matchWalk_end hone (by omega) hs₂, hnone, none_or]
      split_ifs
      · exact ⟨head, rfl, rfl⟩
      · have hsiblings := ihs (s := { s₂ with depth := s.depth }) hone (by dsimp only; omega)
        refine Leads.mono hsiblings (fun _ => id) (fun _ => id) fun s' hs' => ⟨hs'.1, hs'.2.1, fun i hi => ?_⟩
        obtain ⟨hf, hm⟩ := hs'.2.2 i hi
        rw [hf, hm]
        exact hs₂.above i hi

lemma matchWalk_eq (hd : dtb.Sized) (htest : Marks dtb mark test) {t : Tree} (ht : dtb.Serialises t)
    (hheight : t.height < maxDepth) :
    dtb.walk (dtb.matchWalk name mark) matchStart = ok ((t.children.closing test).bind fun n =>
      lastOf name n.props) := by
  rw [Tree.height] at hheight
  suffices h : (dtb.walk (dtb.matchWalk name mark) matchStart).Holds
      (· = (t.children.closing test).bind fun n => lastOf name n.props) fun _ => False by
    obtain ⟨r, hr, rfl⟩ := h.exists_ok id
    exact hr
  refine walk_leads hd ht (matchWalk_body hd htest (by decide) (fun s₁ hs₁ => ?_) (fun n hn => ?_)
    fun s₂ hnone hs₂ => ?_)
  · rw [show matchStart.depth = 0 from rfl] at hs₁
    exact matchWalk_forest hd htest t.children (by omega) (by omega)
  · rw [hn]
    rfl
  · rw [matchWalk_end_root rfl hs₂, hnone]
    rfl

def isCompatible (compat : Bytes) (ps : List Property) : Bool :=
  ((lastOf (ascii "compatible") ps).map (lists compat)).getD false

def hasPhandle (phandle : ℕ) (ps : List Property) : Bool :=
  ps.any fun p => (p.name.val = ascii "phandle" ∨ p.name.val = ascii "linux,phandle") ∧ p.value.length = 4 ∧
    beVal p.value = phandle

lemma marks_compatible (hd : dtb.Sized) {compat : Bytes} :
    Marks dtb (dtb.markCompatible compat) (isCompatible compat) := by
  refine ⟨rfl, fun qs p nameOff valueAt hp => ?_⟩
  rw [markCompatible, isCompatible, isCompatible, lastOf_concat]
  split_ifs
  · rw [value_of_reads hd hp.reads]
    rfl
  · rfl

lemma marks_phandle (hd : dtb.Sized) {phandle : ℕ} : Marks dtb (dtb.markPhandle phandle) (hasPhandle phandle) := by
  refine ⟨rfl, fun qs p nameOff valueAt hp => ?_⟩
  rw [markPhandle, hasPhandle, hasPhandle, any_append, any_cons, any_nil, Bool.or_false]
  split_ifs with h
  · rw [be32_of_value hd hp.reads h.2.ge, ok_bind, take_of_length_le h.2.le]
    refine congrArg ok ?_
    by_cases hvalue : beVal p.value = phandle
    · rw [if_pos hvalue, decide_eq_true ⟨h.1, h.2, hvalue⟩, Bool.or_true]
    · rw [if_neg hvalue, decide_eq_false fun hp => hvalue hp.2.2, Bool.or_false]
  · rw [decide_eq_false fun hp => h ⟨hp.1, hp.2.1⟩, Bool.or_false]
    rfl

end

section

def Forest.lineage (start : Bytes) (above : List Node) (f : Forest) : Option (List Node) :=
  (f.lineages above).find? fun l => l.head?.any fun n => start <+: n.name.val

def inheritedOf (name : Bytes) (l : List Node) : Option Bytes := l.findSome? fun n => lastOf name n.props

lemma lineage_node {head : Node} {children siblings : Forest} {above : List Node} :
    (node head children siblings).lineage start above = if start <+: head.name.val then some (head :: above)
      else (children.lineage start (head :: above)).or (siblings.lineage start above) := by
  rw [lineage, lineages, find?_cons, head?_cons, any_some]
  split_ifs with h
  · rw [decide_eq_true h]
  · rw [decide_eq_false h, find?_append]
    rfl

def Ancestors (dtb : Dtb) (name : Bytes) (values : Slots (Option (ℕ × ℕ))) : List Node → Prop
  | [] => True
  | n :: above => dtb.valueOf (values (above.length + 1)) = ok (lastOf name n.props) ∧
      Ancestors dtb name values above

variable {values values' : Slots (Option (ℕ × ℕ))} {above : List Node}

lemma Ancestors.congr (h : Ancestors dtb name values above) (hsame : ∀ i ≤ above.length, values' i = values i) :
    Ancestors dtb name values' above := by
  induction above with
  | nil => exact trivial
  | cons n above ih =>
    refine ⟨?_, ih h.2 fun i hi => hsame i (hi.trans (Nat.le_succ _))⟩
    rw [hsame (above.length + 1) le_rfl]
    exact h.1

lemma Ancestors.nearest_eq (h : Ancestors dtb name values above) (hdepth : above.length < maxDepth) :
    nearest values above.length >>= dtb.valueOf = ok (inheritedOf name above) := by
  induction above with
  | nil => rfl
  | cons n above ih =>
    obtain ⟨hn, habove⟩ := h
    rw [length_cons] at hdepth ⊢
    rw [nearest, Slots.get_eq hdepth, ok_bind, inheritedOf, findSome?_cons]
    cases hplace : values (above.length + 1) with
    | none =>
      rw [hplace] at hn
      rw [← Outcome.ok.inj hn]
      exact ih habove (by omega)
    | some place =>
      rw [hplace] at hn
      cases hlast : lastOf name n.props with
      | none =>
        rw [hlast, valueOf] at hn
        obtain ⟨v, -, hv⟩ := bind_eq_ok.mp hn
        cases hv
      | some v =>
        rw [hlast] at hn
        exact hn

def InheritState.Keeps (s s' : InheritState) : Prop :=
  s'.depth = s.depth ∧ s'.targetAt = s.targetAt ∧ ∀ i ≤ s.depth, s'.values i = s.values i

structure InheritState.Open (dtb : Dtb) (name : Bytes) (s : InheritState) (target : Option ℕ) (qs : List Property)
    (s' : InheritState) : Prop where
  depth : s'.depth = s.depth + 1
  targetAt : s'.targetAt = target
  above : ∀ i ≤ s.depth, s'.values i = s.values i
  value : dtb.valueOf (s'.values (s.depth + 1)) = ok (lastOf name qs)

variable {s : InheritState}

variable {target : Option ℕ}

variable {qs : List Property}

lemma InheritState.Open.keeps {s₁ s₂ : InheritState}
    (h : s.Open dtb name target qs s₁) (hs : s₁.Keeps s₂) : s.Open dtb name target qs s₂ := by
  obtain ⟨hdepth, htarget, hsame⟩ := hs
  rw [h.depth] at hdepth hsame
  refine ⟨hdepth, htarget.trans h.targetAt, fun i hi => (hsame i (by omega)).trans (h.above i hi), ?_⟩
  rw [hsame _ le_rfl]
  exact h.value

def nextTarget (start : Bytes) (s : InheritState) (nm : Bytes) : Option ℕ :=
  if (2 ≤ s.depth + 1 ∧ s.depth + 1 < maxDepth) ∧ start <+: nm ∧ s.targetAt = none then some (s.depth + 1)
    else s.targetAt

lemma inheritedWalk_begin {nm : Bytes} (h : s.depth + 1 < maxDepth) :
    ((dtb.inheritedWalk start name).beginNode s nm).Holds (s.Open dtb name (nextTarget start s nm) [])
    fun _ => False := by
  have hmax : maxDepth = 16 := rfl
  rw [inheritedWalk]
  dsimp only
  rw [add_eq (by omega), ok_bind, Slots.storeIf_eq id, ok_bind, if_pos h]
  refine ⟨rfl, rfl, fun i hi => update_of_ne (by omega) _ _, ?_⟩
  dsimp only
  rw [update_self]
  rfl

lemma inheritedWalk_prop (hd : dtb.Sized) (h : s.depth + 1 < maxDepth) {p : Property}
    {nameOff valueAt : ℕ} {s' : InheritState} {done : Option Bytes → Prop} (hs' : s.Open dtb name target qs s')
    (hp : Located dtb p nameOff valueAt) : ((dtb.inheritedWalk start name).prop s' nameOff valueAt
      p.value.length).Holds (Next.Holds (s.Open dtb name target (qs ++ [p])) done) fun _ => False := by
  obtain ⟨values, depth, targetAt⟩ := s'
  obtain ⟨rfl, rfl, habove, hvalue⟩ := hs'
  rw [inheritedWalk]
  dsimp only
  rw [if_pos h, hp.name, ok_bind]
  split_ifs with hname
  · rw [Slots.store_eq h, ok_bind]
    refine ⟨rfl, rfl, fun i hi => (update_of_ne (by omega) _ _).trans (habove i hi), ?_⟩
    dsimp only
    rw [update_self, valueOf, value_of_reads hd hp.reads, lastOf_concat, if_pos hname]
    rfl
  · refine ⟨rfl, rfl, habove, ?_⟩
    rw [lastOf_concat, if_neg hname]
    exact hvalue

lemma inheritedWalk_end {s₂ : InheritState} (hs₂ : s.Open dtb name target qs s₂)
    (hne : target ≠ some (s.depth + 1)) :
    (dtb.inheritedWalk start name).endNode s₂ = ok (.more { s₂ with depth := s.depth }) := by
  rw [inheritedWalk]
  dsimp only
  rw [hs₂.depth, hs₂.targetAt, if_neg hne]
  rfl

lemma inheritedWalk_inside (hd : dtb.Sized) {done : Option Bytes → Prop} {target : ℕ} (f : Forest)
    (htarget : s.targetAt = some target) (hle : target ≤ s.depth) (hheight : s.depth + f.height < maxDepth) :
    Leads dtb (dtb.inheritedWalk start name) done (fun _ => False) s.Keeps f.tokens s := by
  induction f generalizing s with
  | nil => exact ⟨rfl, rfl, fun _ _ => rfl⟩
  | node head children siblings ihc ihs =>
    rw [height] at hheight
    have hnext : nextTarget start s head.name.val = some target := by
      rw [nextTarget, if_neg (by simp [htarget]), htarget]
    refine leads_body (s.Open dtb name (some target) head.props) (hnext ▸ inheritedWalk_begin (by omega))
      (fun _ _ _ _ _ _ => inheritedWalk_prop hd (by omega)) (fun s₁ hs₁ => ?_) fun s₂ hs₂ => ?_
    · have hdepth := hs₁.depth
      exact (ihc hs₁.targetAt (by omega) (by omega)).onward fun s₂ hs₂ => hs₁.keeps hs₂
    · rw [inheritedWalk_end hs₂ fun h => by have := some.inj h; omega]
      have hsiblings := ihs (s := { s₂ with depth := s.depth }) hs₂.targetAt hle (by dsimp only; omega)
      refine hsiblings.onward fun s' hs' => ?_
      exact ⟨hs'.1, hs'.2.1.trans (hs₂.targetAt.trans htarget.symm),
        fun i hi => (hs'.2.2 i hi).trans (hs₂.above i hi)⟩

lemma inheritedWalk_forest (hd : dtb.Sized) (f : Forest) (habove : s.depth = above.length) (hone : 1 ≤ s.depth)
    (htarget : s.targetAt = none) (hvalues : Ancestors dtb name s.values above)
    (hheight : s.depth + f.height < maxDepth) : Leads dtb (dtb.inheritedWalk start name)
      (fun r => ∃ l, f.lineage start above = some l ∧ r = inheritedOf name l) (fun _ => False)
        (fun s' => f.lineage start above = none ∧ s.Keeps s') f.tokens s := by
  induction f generalizing s above with
  | nil => exact ⟨rfl, rfl, rfl, fun _ _ => rfl⟩
  | node head children siblings ihc ihs =>
    rw [height] at hheight
    have hopen {target : Option ℕ} {s' : InheritState} (hs' : s.Open dtb name target head.props s') :
      Ancestors dtb name s'.values (head :: above) :=
      ⟨habove ▸ hs'.value, hvalues.congr fun i hi => hs'.above i (habove ▸ hi)⟩
    rw [lineage_node]
    by_cases hstart : start <+: head.name.val
    · have hnext : nextTarget start s head.name.val = some (s.depth + 1) :=
        if_pos ⟨⟨by omega, by omega⟩, hstart, htarget⟩
      rw [if_pos hstart]
      refine leads_body (s.Open dtb name (some (s.depth + 1)) head.props) (hnext ▸ inheritedWalk_begin (by omega))
        (fun _ _ _ _ _ _ => inheritedWalk_prop hd (by omega)) (fun s₁ hs₁ => ?_) fun s₂ hs₂ => ?_
      · have hdepth := hs₁.depth
        exact (inheritedWalk_inside hd children hs₁.targetAt hdepth.ge (by omega)).mono (fun _ => id) (fun _ => id)
          fun s₂ hs₂ => hs₁.keeps hs₂
      · have hdepth : s₂.depth = (head :: above).length := by
          rw [hs₂.depth, habove, length_cons]
        obtain ⟨place, hplace, hvalue⟩ := bind_eq_ok.mp ((hopen hs₂).nearest_eq (by rw [length_cons]; omega))
        rw [inheritedWalk]
        dsimp only
        rw [hs₂.targetAt, if_pos (by rw [hs₂.depth]), hdepth, hplace, ok_bind, hvalue]
        exact ⟨_, rfl, rfl⟩
    · have hnext : nextTarget start s head.name.val = none := (if_neg fun h => hstart h.2.1).trans htarget
      rw [if_neg hstart]
      refine leads_body (fun s₂ => children.lineage start (head :: above) = none ∧
        s.Open dtb name none head.props s₂) (hnext ▸ inheritedWalk_begin (by omega))
        (fun _ _ _ _ _ _ => inheritedWalk_prop hd (by omega)) (fun s₁ hs₁ => ?_)
        fun s₂ hs₂ => ?_
      · have hdepth := hs₁.depth
        refine (@ihc (head :: above) s₁ (by rw [hdepth, habove, length_cons]) (by omega) hs₁.targetAt (hopen hs₁)
          (by omega)).mono (fun r hr => ?_) (fun _ => id) fun s₂ hs₂ => ⟨hs₂.1, hs₁.keeps hs₂.2⟩
        obtain ⟨l, hl, hr⟩ := hr
        exact ⟨l, by rw [hl]; rfl, hr⟩
      · obtain ⟨hnone, hs₂⟩ := hs₂
        rw [inheritedWalk_end hs₂ (some_ne_none _).symm, hnone, none_or]
        have hsiblings := ihs (s := { s₂ with depth := s.depth }) habove hone hs₂.targetAt
          (hvalues.congr fun i hi => hs₂.above i (habove ▸ hi)) (by dsimp only; omega)
        refine hsiblings.onward fun s' hs' => ⟨hs'.1, hs'.2.1, ?_, fun i hi => ?_⟩
        · exact hs'.2.2.1.trans (hs₂.targetAt.trans htarget.symm)
        · exact (hs'.2.2.2 i hi).trans (hs₂.above i hi)

lemma nodePropInherited_eq (hd : dtb.Sized) {t : Tree} (ht : dtb.Serialises t) (hheight : t.height < maxDepth) :
    dtb.nodePropInherited start name = ok ((t.children.lineage start [t.root]).bind (inheritedOf name)) := by
  rw [Tree.height] at hheight
  suffices h : (dtb.nodePropInherited start name).Holds
    (· = (t.children.lineage start [t.root]).bind (inheritedOf name))
      fun _ => False by
    obtain ⟨r, hr, rfl⟩ := h.exists_ok id
    exact hr
  refine walk_leads hd ht ?_
  have hnext {nm : Bytes} : nextTarget start ⟨fun _ => none, 0, none⟩ nm = none := if_neg (by simp)
  refine leads_body (fun s₂ => t.children.lineage start [t.root] = none ∧
    InheritState.Open dtb name ⟨fun _ => none, 0, none⟩ none t.root.props s₂)
    (hnext ▸ inheritedWalk_begin (by decide)) (fun _ _ _ _ _ _ => inheritedWalk_prop hd (by decide))
      (fun s₁ hs₁ => ?_) fun s₂ hs₂ => ?_
  · have hdepth : s₁.depth = [t.root].length := hs₁.depth
    rw [length_singleton] at hdepth
    refine (@inheritedWalk_forest dtb start name [t.root]
      s₁ hd t.children hdepth hdepth.ge hs₁.targetAt ⟨hs₁.value, trivial⟩ (by omega)).mono (fun r hr => ?_)
      (fun _ => id) fun s₂ hs₂ => ⟨hs₂.1, hs₁.keeps hs₂.2⟩
    obtain ⟨l, hl, rfl⟩ := hr
    rw [hl]
    rfl
  · rw [inheritedWalk_end hs₂.2 (some_ne_none _).symm, hs₂.1]
    rfl

end

end CrickerOs.Dtb
