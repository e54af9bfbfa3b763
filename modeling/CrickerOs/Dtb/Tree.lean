import CrickerOs.Dtb.Safety

namespace CrickerOs.Dtb

open Library Library.Outcome Library.Bytes List

abbrev Name := { bytes : Bytes // 0 ∉ bytes }

structure Property where
  name : Name
  value : Bytes

structure Node where
  name : Name
  props : List Property

inductive Forest
  | nil
  | node (head : Node) (children siblings : Forest)

structure Tree where
  root : Node
  children : Forest

namespace Forest

def height : Forest → ℕ
  | nil => 0
  | node _ children siblings => max (children.height + 1) siblings.height

def preorder : Forest → List Node
  | nil => []
  | node head children siblings => head :: (children.preorder ++ siblings.preorder)

def postorder : Forest → List Node
  | nil => []
  | node head children siblings => children.postorder ++ head :: siblings.postorder

def lineages (above : List Node) : Forest → List (List Node)
  | nil => []
  | node head children siblings =>
    (head :: above) :: (children.lineages (head :: above) ++ siblings.lineages above)

def tops : Forest → List Node
  | nil => []
  | node head _ siblings => head :: siblings.tops

end Forest

def Tree.height (t : Tree) : ℕ := t.children.height + 1

inductive Token
  | beginNode (name : Name)
  | endNode
  | prop (p : Property)
  | nop
  | finish

def Token.isNop : Token → Bool
  | .nop => true
  | _ => false

def Forest.tokens : Forest → List Token
  | nil => []
  | node head children siblings =>
    .beginNode head.name :: (head.props.map .prop ++ (children.tokens ++ .endNode :: siblings.tokens))

def Tree.tokens (t : Tree) : List Token := (Forest.node t.root t.children .nil).tokens ++ [.finish]

section

variable (dtb : Dtb)

def Reads (pos : ℕ) (l : Bytes) : Prop := pos + l.length ≤ dtb.bytes.length ∧ window dtb.bytes pos l.length = l

def padded (n : ℕ) : ℕ := (n + 3) / 4 * 4

def Token.Written (pos next : ℕ) : Token → Prop
  | .beginNode name => dtb.Reads pos (toBe 4 fdtBeginNode ++ (name.val ++ [0])) ∧
      next = pos + 4 + padded (name.val.length + 1)
  | .endNode => dtb.Reads pos (toBe 4 fdtEndNode) ∧ next = pos + 4
  | .prop p => p.value.length < 2 ^ 32 ∧
      (∃ nameOff < 2 ^ 32, dtb.Reads pos (toBe 4 fdtProp ++
        (toBe 4 p.value.length ++ (toBe 4 nameOff ++ p.value))) ∧
        dtb.Reads (dtb.offStrings + nameOff) (p.name.val ++ [0])) ∧ next = pos + 12 + padded p.value.length
  | .nop => dtb.Reads pos (toBe 4 fdtNop) ∧ next = pos + 4
  | .finish => dtb.Reads pos (toBe 4 fdtEnd) ∧ next = pos + 4

def Stream : ℕ → List Token → Prop
  | _, [] => True
  | pos, t :: ts => ∃ next, t.Written dtb pos next ∧ Stream next ts

def Serialises (t : Tree) : Prop :=
  ∃ ts : List Token, (ts.filter fun x => !x.isNop) = t.tokens ∧ dtb.Stream dtb.offStruct ts

end

section

variable {dtb : Dtb} {pos : ℕ}

lemma reads_append {a b : Bytes} : dtb.Reads pos (a ++ b) ↔ dtb.Reads pos a ∧ dtb.Reads (pos + a.length) b :=
  window_append_iff

lemma be32_of_reads (hd : dtb.Sized) {v : ℕ} (hv : v < 2 ^ 32) (h : dtb.Reads pos (toBe 4 v)) :
    be32 dtb.bytes pos = ok v := by
  have hlength := hd.length_lt
  obtain ⟨hle, heq⟩ := h
  rw [length_toBe] at hle heq
  rw [be32, word, ensure_bind (by omega), ensure_bind hle, heq, beVal_toBe, Nat.mod_eq_of_lt (by omega)]
  rfl

lemma cstr_of_reads {name : Bytes} (hname : 0 ∉ name) (h : dtb.Reads pos (name ++ [0])) :
    dtb.cstr pos = ok name := by
  obtain ⟨hle, heq⟩ := h
  rw [length_append, length_singleton] at hle heq
  obtain ⟨rest, hrest⟩ : ∃ rest, dtb.bytes.drop pos = name ++ 0 :: rest := by
    refine ⟨(dtb.bytes.drop pos).drop (name.length + 1), ?_⟩
    rw [window] at heq
    conv_lhs => rw [← take_append_drop (name.length + 1) (dtb.bytes.drop pos), heq]
    rw [append_assoc]
    rfl
  have hfind : (name ++ 0 :: rest).findIdx? (· = 0) = some name.length := by
    rw [findIdx?_append, findIdx?_eq_none_iff.mpr fun x hx => ?_]
    · simp [findIdx?_cons]
    · simp only [decide_eq_false_iff_not]
      rintro rfl
      exact hname hx
  rw [cstr, ensure_bind (by omega)]
  dsimp only
  rw [hrest, hfind, okOr, ok_bind, take_left]
  rfl

lemma value_of_reads (hd : dtb.Sized) {v : Bytes} (h : dtb.Reads pos v) : dtb.value pos v.length = ok v := by
  have hlength := hd.length_lt
  obtain ⟨hle, heq⟩ := h
  rw [value, add_eq (by omega), ok_bind, ensure_bind hle, heq]
  rfl

lemma be32_of_value (hd : dtb.Sized) {v : Bytes} (h : dtb.Reads pos v) (hlen : 4 ≤ v.length) :
    be32 dtb.bytes pos = ok (beVal (v.take 4)) := by
  have hlength := hd.length_lt
  obtain ⟨hle, heq⟩ := h
  rw [be32, word, ensure_bind (by omega), ensure_bind (by omega), ← heq, window, window, take_take,
    min_eq_left hlen]
  rfl

end

structure Located (dtb : Dtb) (p : Property) (nameOff valueAt : ℕ) : Prop where
  name : dtb.propName nameOff = ok p.name.val
  reads : dtb.Reads valueAt p.value
  length_lt : p.value.length < 2 ^ 32

section

variable {σ ρ : Type} (dtb : Dtb) (w : Walk σ ρ) (done : ρ → Prop) (fail : Error → Prop)

/-- The walk from `s` over these tokens, wherever they stand, stops with an answer that meets `done` or an error
that meets `fail`, or has gone over them in a state that meets `more`. -/
def Leads (more : σ → Prop) : List Token → σ → Prop
  | [], s => more s
  | .beginNode name :: ts, s => (w.beginNode s name.val).Holds (Leads more ts) fail
  | .endNode :: ts, s => (w.endNode s).Holds (Next.Holds (Leads more ts) done) fail
  | .prop p :: ts, s => ∀ nameOff valueAt, Located dtb p nameOff valueAt →
      (w.prop s nameOff valueAt p.value.length).Holds (Next.Holds (Leads more ts) done) fail
  | .nop :: ts, s => Leads more ts s
  | .finish :: _, s => done (w.finish s)

variable {dtb w done fail} {more : σ → Prop} {s : σ} {pos : ℕ}

lemma leads_append {ts us : List Token} :
    Leads dtb w done fail more (ts ++ us) = Leads dtb w done fail (Leads dtb w done fail more us) ts := by
  induction ts with
  | nil => rfl
  | cons t ts ih =>
    funext s
    cases t <;> simp only [cons_append, Leads, ih]

variable {ts : List Token}

lemma Leads.mono {done' : ρ → Prop} {fail' : Error → Prop} {more' : σ → Prop}
    (h : Leads dtb w done fail more ts s) (hdone : ∀ r, done r → done' r) (hfail : ∀ e, fail e → fail' e)
    (hmore : ∀ s, more s → more' s) : Leads dtb w done' fail' more' ts s := by
  have hnext {f g : σ → Prop} (hfg : ∀ s, f s → g s) (x : Next σ ρ) : x.Holds f done → x.Holds g done' := by
    cases x with
    | more s => exact hfg s
    | done r => exact hdone r
  induction ts generalizing s with
  | nil => exact hmore s h
  | cons t ts ih =>
    cases t with
    | beginNode name => exact Holds.mono h (fun _ => ih) hfail
    | endNode => exact Holds.mono h (hnext fun _ => ih) hfail
    | prop p => exact fun nameOff valueAt hp => Holds.mono (h nameOff valueAt hp) (hnext fun _ => ih) hfail
    | nop => exact ih h
    | finish => exact hdone _ h

lemma Leads.onward {more' : σ → Prop} (h : Leads dtb w done fail more ts s) (hmore : ∀ s, more s → more' s) :
    Leads dtb w done fail more' ts s :=
  h.mono (fun _ => id) (fun _ => id) hmore

lemma leads_node {head : Node} {children siblings : Forest} :
    Leads dtb w done fail more (Forest.node head children siblings).tokens s ↔ (w.beginNode s head.name.val).Holds
      (Leads dtb w done fail (Leads dtb w done fail
        (fun s => (w.endNode s).Holds (Next.Holds (Leads dtb w done fail more siblings.tokens) done) fail)
        children.tokens) (head.props.map .prop)) fail := by
  rw [Forest.tokens, Leads, leads_append, leads_append]
  rfl

lemma leads_props {I : List Property → σ → Prop} {ps : List Property} (hs : I [] s)
    (hstep : ∀ qs p nameOff valueAt s, qs ++ [p] <+: ps → I qs s → Located dtb p nameOff valueAt →
      (w.prop s nameOff valueAt p.value.length).Holds (Next.Holds (I (qs ++ [p])) done) fail) :
    Leads dtb w done fail (I ps) (ps.map .prop) s := by
  suffices h : ∀ qs rest, qs ++ rest = ps → ∀ s, I qs s → Leads dtb w done fail (I ps) (rest.map .prop) s from
    h [] ps rfl s hs
  intro qs rest
  induction rest generalizing qs with
  | nil =>
    intro heq s hs
    rw [append_nil] at heq
    exact heq ▸ hs
  | cons p rest ih =>
    intro heq s hs nameOff valueAt hp
    have heq' : qs ++ [p] ++ rest = ps := by
      rw [append_assoc]
      exact heq
    refine Holds.mono (hstep qs p nameOff valueAt s ⟨rest, heq'⟩ hs hp) (fun x hx => ?_) fun _ => id
    cases x with
    | done r => exact hx
    | more s' => exact ih (qs ++ [p]) heq' s' hx

lemma leads_body {I : List Property → σ → Prop} (after : σ → Prop) {head : Node} {children siblings : Forest}
    (hbegin : (w.beginNode s head.name.val).Holds (I []) fail)
    (hprop : ∀ qs p nameOff valueAt s, qs ++ [p] <+: head.props → I qs s → Located dtb p nameOff valueAt →
      (w.prop s nameOff valueAt p.value.length).Holds (Next.Holds (I (qs ++ [p])) done) fail)
    (hchildren : ∀ s, I head.props s → Leads dtb w done fail after children.tokens s)
    (hend : ∀ s, after s → (w.endNode s).Holds (Next.Holds (Leads dtb w done fail more siblings.tokens) done)
    fail) : Leads dtb w done fail more (Forest.node head children siblings).tokens s := by
  rw [leads_node]
  refine hbegin.mono (fun s₀ hs₀ => ?_) fun _ => id
  refine (leads_props hs₀ hprop).onward fun s₁ hs₁ => ?_
  exact (hchildren s₁ hs₁).onward hend

lemma leads_filter :
    Leads dtb w done fail more (ts.filter fun x => !x.isNop) = Leads dtb w done fail more ts := by
  induction ts with
  | nil => rfl
  | cons t ts ih =>
    funext s
    have hkeep {t : Token} (h : t.isNop = false) : ((t :: ts).filter fun x => !x.isNop) = t ::
      ts.filter fun x => !x.isNop :=
      filter_cons_of_pos (by rw [h]; rfl)
    cases t with
    | nop => exact congrFun ih s
    | finish => rfl
    | _ => rw [hkeep rfl, Leads, ih, Leads]

lemma walkFrom_leads (hd : dtb.Sized) {fuel : ℕ} (hstream : dtb.Stream pos ts) (hend : .finish ∈ ts)
    (hfuel : 0 < fuel) (henough : dtb.bytes.length < pos + 4 * fuel) (h : Leads dtb w done fail more ts s) :
    (dtb.walkFrom w fuel pos s).Holds done fail := by
  induction ts generalizing fuel pos s with
  | nil => cases hend
  | cons t ts ih =>
    obtain ⟨next, hwritten, hstream⟩ := hstream
    obtain ⟨fuel, rfl⟩ := Nat.exists_eq_succ_of_ne_zero hfuel.ne'
    have hlength := hd.length_lt
    have hmore (hne : t ≠ .finish) (hle : pos + 4 ≤ next) (hin : pos + 4 ≤ dtb.bytes.length) (s' : σ)
        (hs' : Leads dtb w done fail more ts s') : (dtb.walkFrom w fuel next s').Holds done fail :=
      ih hstream ((mem_cons.mp hend).resolve_left hne.symm) (by omega) (by omega) hs'
    cases t with
    | beginNode name =>
      obtain ⟨hreads, rfl⟩ := hwritten
      obtain ⟨hword, hname⟩ := reads_append.mp hreads
      rw [length_toBe] at hname
      have hin := hname.1
      rw [length_append, length_singleton] at hin
      rw [walkFrom, be32_of_reads hd (by decide) hword, ok_bind, add_eq (by omega), ok_bind, if_pos rfl,
        cstr_of_reads name.2 hname, ok_bind, add_eq (by omega), ok_bind, align4_eq (by omega), ok_bind,
        add_eq (by omega), ok_bind, holds_bind]
      exact Holds.mono h (hmore (fun h => by cases h) (by omega) (by omega)) fun _ => id
    | endNode =>
      obtain ⟨hword, rfl⟩ := hwritten
      have hin := hword.1
      rw [length_toBe] at hin
      rw [walkFrom, be32_of_reads hd (by decide) hword, ok_bind, add_eq (by omega), ok_bind, if_neg (by decide),
        if_pos rfl, holds_bind]
      exact Holds.mono h (fun x hx => holds_next hx (hmore (fun h => by cases h) (by omega) hin)) fun _ => id
    | prop p =>
      obtain ⟨hlen, ⟨nameOff, hoff, hreads, hname⟩, rfl⟩ := hwritten
      obtain ⟨hword, hreads⟩ := reads_append.mp hreads
      obtain ⟨hsize, hreads⟩ := reads_append.mp hreads
      obtain ⟨hnameOff, hvalue⟩ := reads_append.mp hreads
      simp only [length_toBe] at hsize hnameOff hvalue
      have hin := hvalue.1
      have hlocated : Located dtb p nameOff (pos + 4 + 4 + 4) := by
        refine ⟨?_, hvalue, hlen⟩
        have hstrings := hd.strings_lt
        rw [propName, add_eq (by omega), ok_bind, cstr_of_reads p.name.2 hname]
      rw [walkFrom, be32_of_reads hd (by decide) hword, ok_bind, add_eq (by omega), ok_bind, if_neg (by decide),
        if_neg (by decide), if_pos rfl, be32_of_reads hd hlen hsize, ok_bind, add_eq (by omega), ok_bind,
        be32_of_reads hd hoff hnameOff, ok_bind, add_eq (by omega), ok_bind, align4_eq (by omega), ok_bind,
        add_eq (by omega), ok_bind, holds_bind]
      exact Holds.mono (h nameOff _ hlocated)
        (fun x hx => holds_next hx (hmore (fun h => by cases h) (by omega) (by omega))) fun _ => id
    | nop =>
      obtain ⟨hword, rfl⟩ := hwritten
      have hin := hword.1
      rw [length_toBe] at hin
      rw [walkFrom, be32_of_reads hd (by decide) hword, ok_bind, add_eq (by omega), ok_bind, if_neg (by decide),
        if_neg (by decide), if_neg (by decide), if_pos rfl]
      exact hmore (fun h => by cases h) le_rfl hin s h
    | finish =>
      obtain ⟨hword, rfl⟩ := hwritten
      have hin := hword.1
      rw [length_toBe] at hin
      rw [walkFrom, be32_of_reads hd (by decide) hword, ok_bind, add_eq (by omega), ok_bind, if_neg (by decide),
        if_neg (by decide), if_neg (by decide), if_neg (by decide), if_pos rfl]
      exact h

lemma walk_leads (hd : dtb.Sized) {t : Tree} (ht : dtb.Serialises t)
    (h : Leads dtb w done fail (fun s => done (w.finish s)) (Forest.node t.root t.children .nil).tokens s) :
    (dtb.walk w s).Holds done fail := by
  obtain ⟨ts, hts, hstream⟩ := ht
  have hend : Token.finish ∈ ts := by
    refine mem_of_mem_filter (p := fun x => !x.isNop) ?_
    rw [hts]
    exact mem_append_right _ mem_cons_self
  have hleads : Leads dtb w done fail (fun _ => False) t.tokens s := by
    rw [Tree.tokens, leads_append]
    exact h
  rw [← hts, leads_filter] at hleads
  exact walkFrom_leads hd hstream hend (Nat.succ_pos _) (by omega) hleads

end

end CrickerOs.Dtb
