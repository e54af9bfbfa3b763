import CrickerOs.Dtb.Memory

namespace CrickerOs.Dtb

open Library Library.Outcome Library.Bytes Function List Option

variable {dtb : Dtb} {cap : ℕ} {c : Cells} {start : Bytes}

def inForce (above : List Node) : Cells := above.foldr (fun n c => c.after n.props) ⟨2, 1⟩

def Forest.CountsDeclared (f : Forest) : Prop := ∀ n ∈ f.preorder, Dtb.CountsDeclared n.props

lemma countsDeclared_node {head : Node} {children siblings : Forest}
    (h : (Forest.node head children siblings).CountsDeclared) :
    Dtb.CountsDeclared head.props ∧ children.CountsDeclared ∧ siblings.CountsDeclared := by
  rw [Forest.CountsDeclared, Forest.preorder, forall_mem_cons, forall_mem_append] at h
  exact h

lemma small_inForce (above : List Node) : (inForce above).Small := by
  induction above with
  | nil => exact ⟨by decide, by decide⟩
  | cons n above ih => exact ih.after n.props

section

structure RegState.Keeps (s s' : RegState) : Prop where
  depth : s'.depth = s.depth
  targetAt : s'.targetAt = s.targetAt
  cells : ∀ i ≤ s.depth, s'.cells i = s.cells i

structure RegState.Open (s : RegState) (target : Option ℕ) (qs : List Property) (s' : RegState) : Prop where
  depth : s'.depth = s.depth + 1
  targetAt : s'.targetAt = target
  above : ∀ i ≤ s.depth, s'.cells i = s.cells i
  own : s'.cells (s.depth + 1) = (s.cells s.depth).after qs

variable {s s' : RegState} {target : Option ℕ} {qs : List Property} {done : List Region → Prop}
  {fail : Error → Prop}

lemma RegState.Open.keeps {s₁ s₂ : RegState} (h : s.Open target qs s₁) (hs : s₁.Keeps s₂) :
    s.Open target qs s₂ := by
  obtain ⟨hdepth, htarget, hsame⟩ := hs
  rw [h.depth] at hdepth hsame
  refine ⟨hdepth, htarget.trans h.targetAt, fun i hi => (hsame i (by omega)).trans (h.above i hi), ?_⟩
  exact (hsame _ le_rfl).trans h.own

def RegState.nextTarget (start : Bytes) (s : RegState) (nm : Bytes) : Option ℕ :=
  if (2 ≤ s.depth + 1 ∧ s.depth + 1 < maxDepth) ∧ start <+: nm ∧ s.targetAt = none then some (s.depth + 1)
    else s.targetAt

lemma regWalk_begin {nm : Bytes} (h : s.depth + 1 < maxDepth) :
    ((dtb.regWalk start cap).beginNode s nm).Holds (s.Open (s.nextTarget start nm) []) fail := by
  have hmax : maxDepth = 16 := rfl
  rw [regWalk]
  dsimp only
  rw [add_eq (by omega), ok_bind, inheritCells, if_pos h, sub_eq (by omega), ok_bind, Slots.get_eq (by omega),
    ok_bind, Slots.store_eq h, ok_bind]
  refine ⟨rfl, rfl, fun i hi => update_of_ne (by omega) _ _, ?_⟩
  exact update_self _ _ _

lemma regWalk_prop (hd : dtb.Sized) (h : s.depth + 1 < maxDepth) {p : Property} {nameOff valueAt : ℕ}
    (hs' : s.Open target qs s') (hp : Located dtb p nameOff valueAt) (hcount : Dtb.CountsDeclared (qs ++ [p]))
    (hother : ¬(target = some (s.depth + 1) ∧ p.name.val = ascii "reg")) :
    ∃ s₂, (dtb.regWalk start cap).prop s' nameOff valueAt p.value.length = ok (.more s₂) ∧
    s.Open target (qs ++ [p]) s₂ := by
  obtain ⟨cells, depth, targetAt⟩ := s'
  obtain ⟨rfl, rfl, habove, hown⟩ := hs'
  dsimp only at habove hown hother
  rw [regWalk]
  dsimp only
  rw [hp.name, ok_bind, declareCells, if_pos h, Slots.get_eq h, ok_bind, hown, setCells_after hd hp hcount,
    ok_bind, Slots.store_eq h, ok_bind, if_neg hother]
  refine ⟨_, rfl, rfl, rfl, fun i hi => (update_of_ne (by omega) _ _).trans (habove i hi), ?_⟩
  exact update_self _ _ _

lemma regWalk_reg (hd : dtb.Sized) (h : s.depth + 1 < maxDepth) {p : Property} {nameOff valueAt : ℕ}
    (hs' : s.Open (some (s.depth + 1)) qs s') (hp : Located dtb p nameOff valueAt)
    (hcount : Dtb.CountsDeclared (qs ++ [p])) (hreg : p.name.val = ascii "reg") (hc : (s.cells s.depth).Small) :
    (dtb.regWalk start cap).prop s' nameOff valueAt p.value.length =
      collect cap (regPairs (s.cells s.depth) p.value) [] >>= fun regions => ok (.done regions) := by
  obtain ⟨cells, depth, targetAt⟩ := s'
  obtain ⟨rfl, rfl, habove, hown⟩ := hs'
  dsimp only at habove hown
  have hup : update cells (s.depth + 1) ((s.cells s.depth).after (qs ++ [p])) s.depth = s.cells s.depth :=
    (update_of_ne (by omega) _ _).trans (habove _ le_rfl)
  rw [regWalk]
  dsimp only
  rw [hp.name, ok_bind, declareCells, if_pos h, Slots.get_eq h, ok_bind, hown, setCells_after hd hp hcount,
    ok_bind, Slots.store_eq h, ok_bind, if_pos ⟨rfl, hreg⟩, sub_eq (by omega), ok_bind, Nat.add_sub_cancel,
    Slots.get_eq (by omega), ok_bind, hup, decodeReg_eq hd hp.reads hc]
  rfl

lemma regWalk_end (hs' : s.Open target qs s') : (dtb.regWalk start cap).endNode s' =
    ok (.more ⟨s'.cells, s.depth, if target = some (s.depth + 1) then none else target⟩) := by
  obtain ⟨cells, depth, targetAt⟩ := s'
  obtain ⟨rfl, rfl, -, -⟩ := hs'
  rfl

end

section

def Forest.outermost (start : Bytes) (above : List Node) : Forest → List (List Node)
  | nil => []
  | node head children siblings =>
    (if start <+: head.name.val then [head :: above] else children.outermost start (head :: above)) ++
      siblings.outermost start above

def regOf : List Node → Option (Cells × Bytes)
  | [] => none
  | n :: above => (firstOf (ascii "reg") n.props).map fun v => (inForce above, v)

def regions (cap : ℕ) : Option (Cells × Bytes) → Outcome Error (List Region)
  | none => ok []
  | some (c, v) => collect cap (regPairs c v) []

def RegLeads (dtb : Dtb) (start : Bytes) (cap : ℕ) (found : Option (Cells × Bytes)) (more : RegState → Prop)
    (ts : List Token) (s : RegState) : Prop :=
  Leads dtb (dtb.regWalk start cap) (fun r => found ≠ none ∧ regions cap found = ok r)
    (fun e => found ≠ none ∧ regions cap found = .error e) more ts s

lemma RegLeads.mono {found found' : Option (Cells × Bytes)} {more more' : RegState → Prop} {ts : List Token}
    {s : RegState} (h : RegLeads dtb start cap found more ts s) (hfound : found ≠ none → found' = found)
    (hmore : ∀ s, more s → more' s) : RegLeads dtb start cap found' more' ts s :=
  Leads.mono h (fun _ hr => hfound hr.1 ▸ hr) (fun _ he => hfound he.1 ▸ he) hmore

variable {s : RegState} {target : Option ℕ} {done : List Region → Prop} {fail : Error → Prop} {above : List Node}

lemma regWalk_props (hd : dtb.Sized) (h : s.depth + 1 < maxDepth) {ps : List Property}
    (hcount : Dtb.CountsDeclared ps) (htarget : target ≠ some (s.depth + 1)) {qs : List Property} {p : Property}
    {nameOff valueAt : ℕ} {s' : RegState} (hle : qs ++ [p] <+: ps) (hs' : s.Open target qs s')
    (hp : Located dtb p nameOff valueAt) : ((dtb.regWalk start cap).prop s' nameOff valueAt p.value.length).Holds
      (Next.Holds (s.Open target (qs ++ [p])) done) fail := by
  obtain ⟨s₂, heq, hs₂⟩ := regWalk_prop hd h hs' hp (fun q hq => hcount q (hle.subset hq))
    fun hreg => htarget hreg.1
  rw [heq]
  exact hs₂

lemma regWalk_inside (hd : dtb.Sized) {target : ℕ} (f : Forest) (hcount : f.CountsDeclared)
    (htarget : s.targetAt = some target) (hle : target ≤ s.depth) (hheight : s.depth + f.height < maxDepth) :
    Leads dtb (dtb.regWalk start cap) done fail s.Keeps f.tokens s := by
  induction f generalizing s with
  | nil => exact ⟨rfl, rfl, fun _ _ => rfl⟩
  | node head children siblings ihc ihs =>
    rw [Forest.height] at hheight
    obtain ⟨hhead, hchildren, hsiblings⟩ := countsDeclared_node hcount
    have hnext : s.nextTarget start head.name.val = some target := by
      rw [RegState.nextTarget, if_neg (by simp [htarget]), htarget]
    have hne : some target ≠ some (s.depth + 1) := fun h => by
      have := some.inj h
      omega
    refine leads_body (s.Open (some target) head.props) (hnext ▸ regWalk_begin (by omega))
      (fun _ _ _ _ _ hle hs' hp => regWalk_props hd (by omega) hhead hne hle hs' hp) (fun s₁ hs₁ => ?_)
        fun s₂ hs₂ => ?_
    · have hdepth := hs₁.depth
      exact (ihc hchildren hs₁.targetAt (by omega) (by omega)).mono (fun _ => id) (fun _ => id)
        fun s₂ hs₂ => hs₁.keeps hs₂
    · rw [regWalk_end hs₂, if_neg hne]
      have hrest := ihs (s := ⟨s₂.cells, s.depth, some target⟩) hsiblings rfl hle (by dsimp only; omega)
      refine hrest.onward fun s' hs' => ?_
      exact ⟨hs'.depth, hs'.targetAt.trans htarget.symm, fun i hi => (hs'.cells i hi).trans (hs₂.above i hi)⟩

lemma regWalk_target (hd : dtb.Sized) (h : s.depth + 1 < maxDepth) {ps : List Property}
    (hcount : Dtb.CountsDeclared ps) (hc : (s.cells s.depth).Small) {s₀ : RegState}
    (hs₀ : s.Open (some (s.depth + 1)) [] s₀) : RegLeads dtb start cap
      ((firstOf (ascii "reg") ps).map fun v => (s.cells s.depth, v))
        (fun s' => firstOf (ascii "reg") ps = none ∧ s.Open (some (s.depth + 1)) ps s') (ps.map .prop) s₀ := by
  suffices hrest : ∀ qs rest, qs ++ rest = ps → ∀ s₁, s.Open (some (s.depth + 1)) qs s₁ →
      RegLeads dtb start cap ((firstOf (ascii "reg") rest).map fun v => (s.cells s.depth, v))
        (fun s' => firstOf (ascii "reg") rest = none ∧ s.Open (some (s.depth + 1)) ps s') (rest.map .prop) s₁ from
    hrest [] ps rfl s₀ hs₀
  intro qs rest
  induction rest generalizing qs with
  | nil =>
    intro heq s₁ hs₁
    rw [append_nil] at heq
    exact ⟨rfl, heq ▸ hs₁⟩
  | cons p rest ih =>
    intro heq s₁ hs₁ nameOff valueAt hp
    have heq' : qs ++ [p] ++ rest = ps := by
      rw [append_assoc]
      exact heq
    have hcount' : Dtb.CountsDeclared (qs ++ [p]) := fun q hq => hcount q (heq' ▸ mem_append_left _ hq)
    rw [firstOf_cons]
    by_cases hreg : p.name.val = ascii "reg"
    · rw [regWalk_reg hd h hs₁ hp hcount' hreg hc, if_pos hreg]
      have hsome : some (s.cells s.depth, p.value) ≠ none := some_ne_none _
      cases hr : collect cap (regPairs (s.cells s.depth) p.value) [] with
      | ok r => exact ⟨hsome, hr⟩
      | error e => exact ⟨hsome, hr⟩
      | panic => exact absurd hr collect_ne_panic
    · obtain ⟨s₂, hmore, hs₂⟩ := regWalk_prop hd h hs₁ hp hcount' fun hboth => hreg hboth.2
      rw [if_neg hreg, hmore]
      exact ih (qs ++ [p]) heq' s₂ hs₂

lemma regWalk_forest (hd : dtb.Sized) (f : Forest) (hcount : f.CountsDeclared) (hone : 1 ≤ s.depth)
    (htarget : s.targetAt = none) (hcells : s.cells s.depth = inForce above)
    (hheight : s.depth + f.height < maxDepth) : RegLeads dtb start cap ((f.outermost start above).findSome? regOf)
      (fun s' => (f.outermost start above).findSome? regOf = none ∧ s.Keeps s') f.tokens s := by
  induction f generalizing s above with
  | nil => exact ⟨rfl, rfl, rfl, fun _ _ => rfl⟩
  | node head children siblings ihc ihs =>
    rw [Forest.height] at hheight
    obtain ⟨hhead, hchildren, hsiblings⟩ := countsDeclared_node hcount
    rw [Forest.outermost, findSome?_append]
    have hrest {target : Option ℕ} {s₂ : RegState} (hs₂ : s.Open target head.props s₂) :
        RegLeads dtb start cap ((siblings.outermost start above).findSome? regOf)
          (fun s' => (siblings.outermost start above).findSome? regOf = none ∧ s.Keeps s') siblings.tokens
          ⟨s₂.cells, s.depth, none⟩ := by
      refine (ihs (s := ⟨s₂.cells, s.depth, none⟩) hsiblings hone rfl ((hs₂.above _ le_rfl).trans hcells)
        (by dsimp only; omega)).mono (fun _ => rfl) fun s' hs' => ⟨hs'.1, ?_⟩
      exact ⟨hs'.2.depth, hs'.2.targetAt.trans htarget.symm, fun i hi => (hs'.2.cells i hi).trans (hs₂.above i hi)⟩
    by_cases hstart : start <+: head.name.val
    · have hnext : s.nextTarget start head.name.val = some (s.depth + 1) :=
        if_pos ⟨⟨by omega, by omega⟩, hstart, htarget⟩
      have hfirst : [head :: above].findSome? regOf = (firstOf (ascii "reg") head.props).map fun v =>
        (s.cells s.depth, v) := by
        rw [findSome?_singleton, regOf, hcells]
      rw [if_pos hstart, hfirst, RegLeads, leads_node]
      refine (regWalk_begin (by omega)).mono (fun s₀ hs₀ => ?_) fun _ => id
      rw [hnext] at hs₀
      refine (regWalk_target hd (by omega) hhead (hcells ▸ small_inForce above) hs₀).mono (fun h => ?_) ?_
      · obtain ⟨x, hx⟩ := ne_none_iff_exists'.mp h
        rw [hx]
        rfl
      rintro s₁ ⟨hnone, hs₁⟩
      have hdepth := hs₁.depth
      refine (regWalk_inside hd children hchildren hs₁.targetAt hdepth.ge (by omega)).mono (fun _ => id)
        (fun _ => id)
        fun s₂ hs₂ => ?_
      rw [regWalk_end (hs₁.keeps hs₂), if_pos rfl, hnone]
      exact hrest (hs₁.keeps hs₂)
    · have hnext : s.nextTarget start head.name.val = none := (if_neg fun h => hstart h.2.1).trans htarget
      rw [if_neg hstart]
      refine leads_body (fun s₂ => (children.outermost start (head :: above)).findSome? regOf = none ∧
        s.Open none head.props s₂) (hnext ▸ regWalk_begin (by omega))
        (fun _ _ _ _ _ hle hs' hp => regWalk_props hd (by omega) hhead (some_ne_none _).symm hle hs' hp)
        (fun s₁ hs₁ => ?_) fun s₂ hs₂ => ?_
      · have hdepth := hs₁.depth
        have hown : s₁.cells s₁.depth = inForce (head :: above) := by
          rw [hdepth, hs₁.own, hcells]
          rfl
        refine RegLeads.mono (ihc hchildren (by omega) hs₁.targetAt hown (by omega)) (fun h => ?_)
          fun s₂ hs₂ => ⟨hs₂.1, hs₁.keeps hs₂.2⟩
        obtain ⟨x, hx⟩ := ne_none_iff_exists'.mp h
        rw [hx]
        rfl
      · rw [regWalk_end hs₂.2, if_neg (some_ne_none _).symm, hs₂.1, none_or]
        exact hrest hs₂.2

lemma nodeReg_eq (hd : dtb.Sized) {t : Tree} (ht : dtb.Serialises t) (hheight : t.height < maxDepth)
    (hroot : Dtb.CountsDeclared t.root.props) (hcount : t.children.CountsDeclared) :
    dtb.nodeReg start cap = regions cap ((t.children.outermost start [t.root]).findSome? regOf) := by
  rw [Tree.height] at hheight
  suffices h : (dtb.nodeReg start cap).Holds
      (fun r => regions cap ((t.children.outermost start [t.root]).findSome? regOf) = ok r)
      fun e => regions cap ((t.children.outermost start [t.root]).findSome? regOf) = .error e by
    cases hr : dtb.nodeReg start cap with
    | ok r => exact (h.of_ok hr).symm
    | error e => exact (h.of_error hr).symm
    | panic => exact absurd hr h.ne_panic
  refine walk_leads hd ht ?_
  have hnext {nm : Bytes} : RegState.nextTarget start ⟨fun _ => ⟨2, 1⟩, 0, none⟩ nm = none := if_neg (by simp)
  refine leads_body (fun s₂ => (t.children.outermost start [t.root]).findSome? regOf = none ∧
    RegState.Open ⟨fun _ => ⟨2, 1⟩, 0, none⟩ none t.root.props s₂) (hnext ▸ regWalk_begin (by decide))
    (fun _ _ _ _ _ hle hs' hp => regWalk_props hd (by decide) hroot (some_ne_none _).symm hle hs' hp)
    (fun s₁ hs₁ => ?_) fun s₂ hs₂ => ?_
  · have hdepth : s₁.depth = 1 := hs₁.depth
    have hown : s₁.cells s₁.depth = inForce [t.root] := by
      rw [hdepth]
      exact hs₁.own
    refine Leads.mono (regWalk_forest hd t.children hcount hdepth.ge hs₁.targetAt hown (by omega))
      (fun _ hr => hr.2) (fun _ he => he.2) fun s₂ hs₂ => ⟨hs₂.1, hs₁.keeps hs₂.2⟩
  · rw [regWalk_end hs₂.2, hs₂.1]
    rfl

lemma head?_outermost (f : Forest) : (f.outermost start above).head? = f.lineage start above := by
  induction f generalizing above with
  | nil => rfl
  | node head children siblings ihc ihs =>
    rw [lineage_node, Forest.outermost]
    split_ifs with hstart
    · rfl
    · rw [head?_append, ihc, ihs]

end

section

variable {matched : List (List Node)}

lemma findSome?_regOf_of_head? (h : matched.head?.bind regOf ≠ none) :
    matched.findSome? regOf = matched.head?.bind regOf := by
  cases matched with
  | nil => rfl
  | cons l rest =>
    obtain ⟨x, hx⟩ := ne_none_iff_exists'.mp h
    rw [findSome?_cons, hx]
    rw [head?_cons, bind_some] at hx
    rw [hx]

lemma regions_eq_nil {found : Option (Cells × Bytes)} :
    regions cap found = ok [] ↔ ∀ c v, found = some (c, v) → regPairs c v = [] := by
  cases found with
  | none => simp [regions]
  | some x =>
    obtain ⟨c, v⟩ := x
    refine ⟨fun h c' v' hsome => ?_, fun h => by rw [regions, h c v rfl]; rfl⟩
    cases hsome
    exact (eq_append_of_collect h).symm

end

/-- The answer is the first match's if and only if that has a `reg`, or the `reg` that is found instead of it has
no pair with a size: either there is none at all, or what is decoded of it is nothing. -/
theorem nodeReg_answers_for_the_first_match (bytes : Bytes) (dtb : Dtb) (t : Tree) (start : Bytes) (cap : ℕ)
    (hparse : fromBytes bytes = ok dtb) (ht : dtb.Serialises t) (hheight : t.height < maxDepth)
    (hcount : ∀ n ∈ t.root :: t.children.preorder, CountsDeclared n.props) :
    (dtb.nodeReg start cap = regions cap ((t.children.lineage start [t.root]).bind regOf) ↔
      (t.children.lineage start [t.root]).bind regOf ≠ none ∨
        ∀ c v, (t.children.outermost start [t.root]).findSome? regOf = some (c, v) → regPairs c v = []) ∧
      ∀ c v, (t.children.lineage start [t.root]).bind regOf = some (c, v) → (∀ r ∈ regPairs c v, r.Bounded) →
        (regPairs c v).length ≤ cap → dtb.nodeReg start cap = ok (regPairs c v) := by
  have hd := (fromBytes_holds bytes).of_ok hparse
  obtain ⟨hroot, hchildren⟩ := forall_mem_cons.mp hcount
  rw [nodeReg_eq hd ht hheight hroot hchildren, ← head?_outermost]
  refine ⟨?_, fun c v hcv hbounded hfits => ?_⟩
  · by_cases hfirst : (t.children.outermost start [t.root]).head?.bind regOf = none
    · rw [hfirst, ← @regions_eq_nil cap]
      exact (or_iff_right fun h => h rfl).symm
    · rw [findSome?_regOf_of_head? hfirst]
      simp [hfirst]
  · rw [findSome?_regOf_of_head? (by rw [hcv]; exact some_ne_none _), hcv, regions,
      collect_eq hbounded (by rwa [length_nil, Nat.zero_add])]
    rfl

theorem nodeReg_answers_for_the_memory_node : fromBytes (memoryBlob 0x80000000 0x2000) =
    ok (memoryDtb 0x80000000 0x2000) ∧ (memoryDtb 0x80000000 0x2000).nodeReg (ascii "mem") 1 =
    ok [⟨0x80000000, 0x2000⟩] := by
  have hparse : fromBytes (memoryBlob 0x80000000 0x2000) = ok (memoryDtb 0x80000000 0x2000) := by decide +kernel
  obtain ⟨hregions, -⟩ := nodeReg_answers_for_the_first_match _ _ _ (ascii "mem") 1 hparse memoryDtb_serialises
    (by decide) (by simp [memoryTree, Forest.preorder, CountsDeclared, ascii])
  refine ⟨hparse, (hregions.mpr (Or.inl (by decide +kernel))).trans ?_⟩
  decide +kernel

lemma nul_notMem_nil : 0 ∉ ([] : Bytes) := by decide

lemma nul_notMem_reg : 0 ∉ ascii "reg" := by decide

def twinTree : Tree where
  root := ⟨⟨[], nul_notMem_nil⟩, []⟩
  children := .node ⟨⟨ascii "intc@a", by decide⟩, []⟩ .nil
    (.node ⟨⟨ascii "intc@b", by decide⟩, [⟨⟨ascii "reg", nul_notMem_reg⟩, toBe 8 0x8000000 ++ toBe 4 0x1000⟩]⟩
      .nil .nil)

def twinBlob : Bytes :=
  [magic, 116, 40, 112, 40, 17, 17, 0, 4, 72].flatMap (toBe 4) ++ (toBe 4 fdtBeginNode ++ [0, 0, 0, 0] ++
    (toBe 4 fdtBeginNode ++ ascii "intc@a" ++ [0, 0] ++ toBe 4 fdtEndNode) ++
    (toBe 4 fdtBeginNode ++ ascii "intc@b" ++ [0, 0] ++
      (toBe 4 fdtProp ++ toBe 4 12 ++ toBe 4 0 ++ toBe 8 0x8000000 ++ toBe 4 0x1000) ++ toBe 4 fdtEndNode) ++
    toBe 4 fdtEndNode ++ toBe 4 fdtEnd ++ ascii "reg" ++ [0])

def twinDtb : Dtb := ⟨twinBlob, 40, 112, 40⟩

lemma twinDtb_serialises : twinDtb.Serialises twinTree := by
  refine ⟨twinTree.tokens, rfl, 48, ⟨⟨?_, ?_⟩, rfl⟩, 60, ⟨⟨?_, ?_⟩, rfl⟩, 64, ⟨⟨?_, ?_⟩, rfl⟩, 76, ⟨⟨?_, ?_⟩, rfl⟩,
    100, ⟨?_, ⟨0, by decide, ⟨?_, ?_⟩, ?_, ?_⟩, rfl⟩, 104, ⟨⟨?_, ?_⟩, rfl⟩, 108, ⟨⟨?_, ?_⟩, rfl⟩, 112,
    ⟨⟨?_, ?_⟩, rfl⟩, trivial⟩
  all_goals decide +kernel

theorem nodeReg_answers_for_a_later_match : fromBytes twinBlob = ok twinDtb ∧ twinDtb.Serialises twinTree ∧
    twinTree.height < maxDepth ∧ (∀ n ∈ twinTree.root :: twinTree.children.preorder, CountsDeclared n.props) ∧
    (twinTree.children.named (ascii "intc")).map (fun n => (n.name.val, firstOf (ascii "reg") n.props)) =
      some (ascii "intc@a", none) ∧
    twinDtb.nodeReg (ascii "intc") 1 = ok [⟨0x8000000, 0x1000⟩] := by
  refine ⟨by decide +kernel, twinDtb_serialises, by decide, ?_, by decide +kernel, by decide +kernel⟩
  simp [twinTree, Forest.preorder, CountsDeclared, ascii]

end CrickerOs.Dtb
