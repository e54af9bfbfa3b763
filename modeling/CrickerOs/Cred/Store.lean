import CrickerOs.Library.Acting
import CrickerOs.Library.Bytes

namespace CrickerOs.Cred

open Library List

def MAX_IDENTITY : ℕ := 64

def MAX_SECRET : ℕ := 256

def MAX_NAME : ℕ := 64

def MAX_BLOB : ℕ := 2048

def KEY_LEN : ℕ := 16

inductive Error
  | Full | Identity | Secret | Name | Blob | Scratch | Cost
  deriving DecidableEq

structure Cost where
  m_kib : ℕ
  t : ℕ
  p : ℕ

def Cost.DEFAULT : Cost := ⟨4096, 3, 1⟩

def SALT_LEN : ℕ := 16

def TAG_LEN : ℕ := 32

structure Crypto where
  kdf : Cost → ℕ → Bytes → Bytes → Except Error Bytes
  ntowfv2 : Bytes → Bytes → Bytes → Except Error Bytes
  proof : Bytes → Bytes → Bytes → Bytes
  sessionBaseKey : Bytes → Bytes → Bytes

structure Record where
  idLen : ℕ
  id : Bytes
  salt : Bytes
  cost : Cost
  tag : Bytes
  nt : Bytes
  hasNtlm : Bool

structure Store where
  records : List Record
  used : ℕ
  cost : Cost
  decoy : Record

structure Selection where
  salt : Bytes
  tag : Bytes
  cost : Cost
  nt : Bytes
  hasNtlm : Bool
  found : Bool

inductive Verdict
  | Match | Mismatch
  deriving DecidableEq

def padded (identity : Bytes) : Bytes := identity ++ List.replicate (MAX_IDENTITY - identity.length) 0

namespace Record

def derive (c : Crypto) (identity secret salt : Bytes) (cost : Cost) (scratch : ℕ) : Except Error Record := do
  Result.ensure (identity ≠ [] ∧ identity.length ≤ MAX_IDENTITY) .Identity
  Result.ensure (secret ≠ [] ∧ secret.length ≤ MAX_SECRET) .Secret
  let tag ← c.kdf cost scratch secret salt
  .ok ⟨identity.length, padded identity, salt, cost, tag, List.replicate KEY_LEN 0, false⟩

def deriveNtlm (c : Crypto) (identity password user domain salt : Bytes) (cost : Cost) (scratch : ℕ) :
    Except Error Record := do
  Result.ensure (user ≠ [] ∧ user.length ≤ MAX_NAME ∧ domain.length ≤ MAX_NAME) .Name
  let nt ← c.ntowfv2 password user domain
  let rec' ← derive c identity password salt cost scratch
  .ok { rec' with nt := nt, hasNtlm := true }

def empty : Record :=
  ⟨0, List.replicate MAX_IDENTITY 0, List.replicate SALT_LEN 0, .DEFAULT, List.replicate TAG_LEN 0,
    List.replicate KEY_LEN 0, false⟩

def is (r : Record) (id : Bytes) (len : ℕ) : Bool := r.id = id ∧ r.idLen = len

end Record

namespace Store

def new (n : ℕ) (cost : Cost) (decoySalt decoyTag : Bytes) : Store :=
  ⟨List.replicate n .empty, 0, cost, { Record.empty with salt := decoySalt, tag := decoyTag, cost := cost }⟩

def holds (s : Store) (r : Record) : Bool := (s.records.take s.used).any (·.is r.id r.idLen)

def insert (r : Record) (s : Store) : Except Error Unit × Store :=
  if s.holds r then (.error .Identity, s)
  else (.ok (), { s with records := s.records.set s.used r, used := s.used + 1 })

def put (c : Crypto) (identity secret salt : Bytes) (scratch : ℕ) (s : Store) : Except Error Unit × Store :=
  if s.used = s.records.length then (.error .Full, s)
  else match Record.derive c identity secret salt s.cost scratch with
    | .error e => (.error e, s)
    | .ok r => if s.holds r then (.error .Identity, s) else s.insert r

def putNtlm (c : Crypto) (identity password user domain salt : Bytes) (scratch : ℕ) (s : Store) :
    Except Error Unit × Store :=
  if s.used = s.records.length then (.error .Full, s)
  else match Record.deriveNtlm c identity password user domain salt s.cost scratch with
    | .error e => (.error e, s)
    | .ok r => s.insert r

def select (s : Store) (identity : Bytes) : Selection :=
  s.records.foldl (fun sel r =>
      if r.is (padded identity) identity.length then ⟨r.salt, r.tag, r.cost, r.nt, r.hasNtlm, true⟩ else sel)
    ⟨s.decoy.salt, s.decoy.tag, s.decoy.cost, s.decoy.nt, false, false⟩

def ntlmProof (c : Crypto) (identity challenge blob presented : Bytes) (s : Store) :
    Except Error (Verdict × Bytes) := do
  Result.ensure (identity ≠ [] ∧ identity.length ≤ MAX_IDENTITY) .Identity
  Result.ensure (blob.length ≤ MAX_BLOB) .Blob
  let sel := s.select identity
  let computed := c.proof sel.nt challenge blob
  let ok := computed = presented ∧ sel.found ∧ sel.hasNtlm
  let key := (c.sessionBaseKey sel.nt computed).map fun b => if ok then b else 0
  .ok (if ok then .Match else .Mismatch, key)

def verify (c : Crypto) (identity presented : Bytes) (scratch : ℕ) (s : Store) : Except Error Verdict := do
  Result.ensure (identity ≠ [] ∧ identity.length ≤ MAX_IDENTITY) .Identity
  Result.ensure (presented ≠ [] ∧ presented.length ≤ MAX_SECRET) .Secret
  let sel := s.select identity
  let tag ← c.kdf sel.cost scratch presented sel.salt
  .ok (if tag = sel.tag ∧ sel.found then .Match else .Mismatch)

end Store

inductive Op
  | put (identity secret salt : Bytes) (scratch : ℕ)
  | putNtlm (identity password user domain salt : Bytes) (scratch : ℕ)

namespace Op

def identity : Op → Bytes
  | put identity .. | putNtlm identity .. => identity

def record (c : Crypto) (cost : Cost) : Op → Except Error Record
  | put identity secret salt scratch => Record.derive c identity secret salt cost scratch
  | putNtlm identity password user domain salt scratch =>
    Record.deriveNtlm c identity password user domain salt cost scratch

def step (c : Crypto) : Op → Store → Except Error Unit × Store
  | put identity secret salt scratch => Store.put c identity secret salt scratch
  | putNtlm identity password user domain salt scratch =>
      Store.putNtlm c identity password user domain salt scratch

end Op

def run (c : Crypto) : List Op → Store → List (Op × Except Error Unit) × Store
  | [], s => ([], s)
  | op :: ops, s =>
    let (answer, s) := op.step c s
    let (answers, s) := run c ops s
    ((op, answer) :: answers, s)

def enrolled (c : Crypto) (cost : Cost) (answers : List (Op × Except Error Unit)) : List (Op × Record) :=
  answers.filterMap fun
    | (op, .ok ()) => (op.record c cost).toOption.map fun r => (op, r)
    | _ => none

section

variable {c : Crypto} {s : Store} {op : Op} {r : Record} {held : List (Op × Record)}
variable {identity presented : Bytes}

lemma padded_inj {a b : Bytes} (hlength : a.length = b.length) (h : padded a = padded b) : a = b :=
  (append_inj h hlength).1

/-- The store holds the records of `held` in the order of their enrolment, no identity twice. -/
structure Holds (c : Crypto) (s : Store) (held : List (Op × Record)) : Prop where
  records : ∃ n, s.records = held.map Prod.snd ++ List.replicate n .empty
  used : s.used = held.length
  derived : ∀ x ∈ held, x.1.record c s.cost = .ok x.2
  distinct : (held.map fun x => x.1.identity).Nodup

lemma derive_spec {secret salt : Bytes} {cost : Cost} {scratch : ℕ}
    (h : Record.derive c identity secret salt cost scratch = .ok r) :
    identity ≠ [] ∧ r.id = padded identity ∧ r.idLen = identity.length := by
  obtain ⟨⟨hne, -⟩, h⟩ := Result.ensure_bind_eq_ok.mp h
  obtain ⟨-, h⟩ := Result.ensure_bind_eq_ok.mp h
  obtain ⟨tag, -, h⟩ := Result.exists_of_bind_eq_ok h
  cases h
  exact ⟨hne, rfl, rfl⟩

lemma record_spec {cost : Cost} (h : op.record c cost = .ok r) :
    op.identity ≠ [] ∧ r.id = padded op.identity ∧ r.idLen = op.identity.length := by
  cases op with
  | put identity secret salt scratch => exact derive_spec h
  | putNtlm identity password user domain salt scratch =>
    obtain ⟨-, h⟩ := Result.ensure_bind_eq_ok.mp h
    obtain ⟨nt, -, h⟩ := Result.exists_of_bind_eq_ok h
    obtain ⟨r', hr', h⟩ := Result.exists_of_bind_eq_ok h
    cases h
    obtain ⟨hne, hid, hlen⟩ := derive_spec hr'
    exact ⟨hne, hid, hlen⟩

lemma is_iff {cost : Cost} (h : op.record c cost = .ok r) :
    r.is (padded identity) identity.length = true ↔ op.identity = identity := by
  obtain ⟨-, hid, hlen⟩ := record_spec h
  rw [Record.is, decide_eq_true_iff, hid, hlen]
  exact ⟨fun hsame => padded_inj hsame.2 hsame.1, fun hsame => by rw [hsame]; exact ⟨rfl, rfl⟩⟩

lemma empty_is (h : identity ≠ []) : Record.empty.is (padded identity) identity.length = false := by
  rw [Record.is, decide_eq_false_iff_not]
  exact fun hsame => h (length_eq_zero_iff.mp hsame.2.symm)

lemma Holds.new (c : Crypto) (n : ℕ) (cost : Cost) (decoySalt decoyTag : Bytes) :
    Holds c (Store.new n cost decoySalt decoyTag) [] :=
  ⟨⟨n, rfl⟩, rfl, nofun, nodup_nil⟩

section

variable (h : Holds c s held)
include h

lemma Holds.taken : s.records.take s.used = held.map Prod.snd := by
  obtain ⟨n, hrecords⟩ := h.records
  rw [hrecords, h.used, ← length_map (f := Prod.snd), take_left]

lemma Holds.holds_iff (hr : op.record c s.cost = .ok r) :
    s.holds r = true ↔ op.identity ∈ held.map fun x => x.1.identity := by
  obtain ⟨-, hid, hlen⟩ := record_spec hr
  rw [Store.holds, h.taken, any_eq_true, mem_map, hid, hlen]
  constructor
  · rintro ⟨r', hr', his⟩
    obtain ⟨x, hx, rfl⟩ := mem_map.mp hr'
    exact ⟨x, hx, (is_iff (h.derived x hx)).mp his⟩
  · rintro ⟨x, hx, hsame⟩
    exact ⟨x.2, mem_map_of_mem hx, (is_iff (h.derived x hx)).mpr hsame⟩

lemma Holds.insert (hr : op.record c s.cost = .ok r) (hroom : s.used ≠ s.records.length)
    (hnew : op.identity ∉ held.map fun x => x.1.identity) :
    Holds c { s with records := s.records.set s.used r, used := s.used + 1 } (held ++ [(op, r)]) := by
  obtain ⟨n, hrecords⟩ := h.records
  have hused : s.used = (held.map Prod.snd).length := by rw [h.used, length_map]
  refine ⟨?_, ?_, ?_, ?_⟩
  · cases n with
    | zero =>
      rw [hrecords, replicate_zero, append_nil] at hroom
      exact absurd hused hroom
    | succ n =>
      refine ⟨n, ?_⟩
      rw [hrecords, hused, set_append_right _ _ le_rfl, Nat.sub_self, replicate_succ, set_cons_zero,
        map_append, append_assoc]
      rfl
  · dsimp only
    rw [length_append, h.used]
    rfl
  · intro x hx
    rcases mem_append.mp hx with hx | hx
    · exact h.derived x hx
    · cases mem_singleton.mp hx
      exact hr
  · rw [map_append, nodup_append]
    refine ⟨h.distinct, nodup_singleton _, ?_⟩
    rintro identity hmem _ hsingle rfl
    cases mem_singleton.mp hsingle
    exact hnew hmem

lemma Holds.step (op : Op) :
    (∃ r s', op.step c s = (.ok (), s') ∧ op.record c s.cost = .ok r ∧ s'.cost = s.cost ∧
      op.identity ∉ (held.map fun x => x.1.identity) ∧ Holds c s' (held ++ [(op, r)])) ∨
    ∃ e, op.step c s = (.error e, s) := by
  by_cases hroom : s.used = s.records.length
  · refine .inr ⟨.Full, ?_⟩
    cases op <;> exact if_pos hroom
  cases hr : op.record c s.cost with
  | error e =>
    refine .inr ⟨e, ?_⟩
    cases op with
    | put identity secret salt scratch =>
      rw [Op.step, Store.put, if_neg hroom, show Record.derive .. = _ from hr]
    | putNtlm identity password user domain salt scratch =>
      rw [Op.step, Store.putNtlm, if_neg hroom, show Record.deriveNtlm .. = _ from hr]
  | ok r =>
    have hinsert : op.step c s = s.insert r := by
      cases op with
      | put identity secret salt scratch =>
        rw [Op.step, Store.put, if_neg hroom, show Record.derive .. = _ from hr]
        dsimp only
        rw [Store.insert]
        split_ifs <;> rfl
      | putNtlm identity password user domain salt scratch =>
        rw [Op.step, Store.putNtlm, if_neg hroom, show Record.deriveNtlm .. = _ from hr]
    rw [hinsert, Store.insert]
    split_ifs with hholds
    · exact .inr ⟨.Identity, rfl⟩
    · have hnew := fun hmem => hholds ((h.holds_iff hr).mpr hmem)
      exact .inl ⟨r, _, rfl, rfl, rfl, hnew, h.insert hr hroom hnew⟩

lemma Holds.run (ops : List Op) :
    (run c ops s).2.cost = s.cost ∧ Holds c (run c ops s).2 (held ++ enrolled c s.cost (run c ops s).1) := by
  induction ops generalizing s held with
  | nil => exact ⟨rfl, by rw [Cred.run, enrolled, filterMap_nil, append_nil]; exact h⟩
  | cons op ops ih =>
    rcases h.step op with ⟨r, s', hstep, hr, hcost, -, h'⟩ | ⟨e, hstep⟩
    · obtain ⟨hcost', hholds⟩ := ih h'
      rw [Cred.run, hstep]
      refine ⟨hcost'.trans hcost, ?_⟩
      rw [hcost, append_assoc] at hholds
      have henrolled : enrolled c s.cost ((op, .ok ()) :: (Cred.run c ops s').1) =
          (op, r) :: enrolled c s.cost (Cred.run c ops s').1 := by
        rw [enrolled, filterMap_cons_some (b := (op, r)) (by dsimp only; rw [hr]; rfl)]
        rfl
      rw [henrolled]
      exact hholds
    · rw [Cred.run, hstep]
      exact ih h

end

lemma foldl_pick_none {α β : Type} {p : α → Bool} {f : α → β} {l : List α} (h : ∀ a ∈ l, p a = false) (b : β) :
    l.foldl (fun b a => if p a then f a else b) b = b := by
  induction l with
  | nil => rfl
  | cons a l ih =>
    obtain ⟨ha, hl⟩ := forall_mem_cons.mp h
    rw [foldl_cons, ha]
    exact ih hl

lemma Holds.select (h : Holds c s held) (hne : identity ≠ []) :
    (∃ x ∈ held, x.1.identity = identity ∧
      s.select identity = ⟨x.2.salt, x.2.tag, x.2.cost, x.2.nt, x.2.hasNtlm, true⟩) ∨
    ((∀ x ∈ held, x.1.identity ≠ identity) ∧ (s.select identity).found = false) := by
  obtain ⟨n, hrecords⟩ := h.records
  have hempty : ∀ r ∈ replicate n Record.empty, r.is (padded identity) identity.length = false := by
    intro r hr
    rw [eq_of_mem_replicate hr]
    exact empty_is hne
  by_cases hmem : ∃ x ∈ held, x.1.identity = identity
  · obtain ⟨x, hx, hsame⟩ := hmem
    refine .inl ⟨x, hx, hsame, ?_⟩
    obtain ⟨before, after, rfl⟩ := append_of_mem hx
    have hafter : ∀ r ∈ after.map Prod.snd, r.is (padded identity) identity.length = false := by
      intro r hr
      obtain ⟨y, hy, rfl⟩ := mem_map.mp hr
      rw [Bool.eq_false_iff]
      intro his
      have hdistinct := h.distinct
      rw [map_append, map_cons, nodup_append, nodup_cons] at hdistinct
      refine hdistinct.2.1.1 ?_
      rw [hsame, ← (is_iff (h.derived y (by simp [hy]))).mp his]
      exact mem_map_of_mem hy
    rw [Store.select, hrecords, foldl_append, map_append, map_cons, foldl_append, foldl_cons,
      (is_iff (h.derived x hx)).mpr hsame, if_pos rfl, foldl_pick_none hafter, foldl_pick_none hempty]
  · push Not at hmem
    refine .inr ⟨hmem, ?_⟩
    have hnone : ∀ r ∈ s.records, r.is (padded identity) identity.length = false := by
      intro r hr
      rw [hrecords] at hr
      rcases mem_append.mp hr with hr | hr
      · obtain ⟨x, hx, rfl⟩ := mem_map.mp hr
        rw [Bool.eq_false_iff]
        exact fun his => hmem x hx ((is_iff (h.derived x hx)).mp his)
      · exact hempty r hr
    rw [Store.select, foldl_pick_none hnone]

variable {identity : Bytes}

lemma Holds.verify_iff (h : Holds c s held) {scratch : ℕ} (hne : identity ≠ [])
    (hlen : identity.length ≤ MAX_IDENTITY) (hpresented : presented ≠ [] ∧ presented.length ≤ MAX_SECRET) :
    s.verify c identity presented scratch = .ok .Match ↔
      ∃ x ∈ held, x.1.identity = identity ∧ c.kdf x.2.cost scratch presented x.2.salt = .ok x.2.tag := by
  rw [Store.verify, Result.ensure_bind_eq_ok, Result.ensure_bind_eq_ok]
  rcases h.select hne with ⟨x, hx, hsame, hselect⟩ | ⟨hnone, hfound⟩
  · rw [hselect]
    constructor
    · rintro ⟨-, -, hmatch⟩
      obtain ⟨tag, htag, hmatch⟩ := Result.exists_of_bind_eq_ok hmatch
      have hequal : tag = x.2.tag := by
        by_contra hdiffer
        rw [if_neg fun hboth => hdiffer hboth.1] at hmatch
        cases hmatch
      exact ⟨x, hx, hsame, hequal ▸ htag⟩
    · rintro ⟨y, hy, hsame', htag⟩
      obtain rfl : y = x := inj_on_of_nodup_map h.distinct hy hx (hsame'.trans hsame.symm)
      refine ⟨⟨hne, hlen⟩, hpresented, ?_⟩
      dsimp only
      rw [htag]
      exact congrArg Except.ok (if_pos ⟨rfl, rfl⟩)
  · constructor
    · rintro ⟨-, -, hmatch⟩
      obtain ⟨tag, -, hmatch⟩ := Result.exists_of_bind_eq_ok hmatch
      rw [hfound, if_neg (by simp)] at hmatch
      cases hmatch
    · rintro ⟨x, hx, hsame, -⟩
      exact absurd hsame (hnone x hx)

lemma Holds.ntlmProof_spec (h : Holds c s held) {challenge blob : Bytes} (hne : identity ≠ [])
    (hlen : identity.length ≤ MAX_IDENTITY) (hblob : blob.length ≤ MAX_BLOB) :
    (∃ x ∈ held, x.1.identity = identity ∧ x.2.hasNtlm = true ∧ c.proof x.2.nt challenge blob = presented ∧
      s.ntlmProof c identity challenge blob presented = .ok (.Match, c.sessionBaseKey x.2.nt presented)) ∨
    ((∀ x ∈ held, x.1.identity = identity → x.2.hasNtlm = true → c.proof x.2.nt challenge blob ≠ presented) ∧
      ∃ n, s.ntlmProof c identity challenge blob presented = .ok (.Mismatch, replicate n 0)) := by
  rw [Store.ntlmProof, Result.ensure, if_pos ⟨hne, hlen⟩, Result.ok_bind, Result.ensure, if_pos hblob,
    Result.ok_bind]
  set sel := s.select identity with hsel
  by_cases hok : c.proof sel.nt challenge blob = presented ∧ sel.found = true ∧ sel.hasNtlm = true
  · simp only [if_pos hok]
    rcases h.select hne with ⟨x, hx, hsame, hselect⟩ | ⟨-, hfound⟩
    · rw [← hsel] at hselect
      rw [hselect] at hok ⊢
      exact .inl ⟨x, hx, hsame, hok.2.2, hok.1, by rw [map_id', ← hok.1]⟩
    · rw [hok.2.1] at hfound
      cases hfound
  · simp only [if_neg hok]
    refine .inr ⟨fun x hx hsame hntlm hproof => ?_, _, by rw [map_const']⟩
    rcases h.select hne with ⟨y, hy, hsame', hselect⟩ | ⟨hnone, -⟩
    · obtain rfl : x = y := inj_on_of_nodup_map h.distinct hx hy (hsame.trans hsame'.symm)
      rw [hsel, hselect] at hok
      exact hok ⟨hproof, rfl, hntlm⟩
    · exact hnone x hx hsame

end

/-- After any history of enrolments, the store answers for the very identity it is asked about. -/
theorem store_decides_by_the_exact_identity (c : Crypto) (n : ℕ) (cost : Cost) (decoySalt decoyTag : Bytes)
    (ops : List Op) :
    let history := run c ops (Store.new n cost decoySalt decoyTag)
    let held := enrolled c cost history.1
    (∀ identity presented scratch, identity ≠ [] → identity.length ≤ MAX_IDENTITY →
      presented ≠ [] ∧ presented.length ≤ MAX_SECRET →
      (history.2.verify c identity presented scratch = .ok .Match ↔
        ∃ x ∈ held, x.1.identity = identity ∧ c.kdf x.2.cost scratch presented x.2.salt = .ok x.2.tag)) ∧
    (∀ identity challenge blob presented, identity ≠ [] → identity.length ≤ MAX_IDENTITY → blob.length ≤ MAX_BLOB →
      (∃ x ∈ held, x.1.identity = identity ∧ x.2.hasNtlm = true ∧ c.proof x.2.nt challenge blob = presented ∧
        history.2.ntlmProof c identity challenge blob presented =
        .ok (.Match, c.sessionBaseKey x.2.nt presented)) ∨
      ((∀ x ∈ held, x.1.identity = identity → x.2.hasNtlm = true → c.proof x.2.nt challenge blob ≠ presented) ∧
        ∃ m, history.2.ntlmProof c identity challenge blob presented = .ok (.Mismatch, List.replicate m 0))) ∧
    ∀ op : Op, (op.identity ∈ held.map fun x => x.1.identity) → ∃ e,
    op.step c history.2 = (.error e, history.2) := by
  intro history held
  obtain ⟨-, hholds⟩ := (Holds.new c n cost decoySalt decoyTag).run ops
  rw [List.nil_append] at hholds
  refine ⟨fun identity presented scratch hne hlen hpresented => hholds.verify_iff hne hlen hpresented,
    fun identity challenge blob presented hne hlen hblob => hholds.ntlmProof_spec hne hlen hblob, fun op hop => ?_⟩
  rcases hholds.step op with ⟨r, s', -, -, -, hnew, -⟩ | hrefused
  · exact absurd hop hnew
  · exact hrefused

end CrickerOs.Cred
