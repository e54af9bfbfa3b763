import CrickerOs.Dtb.Walk

namespace CrickerOs.Dtb

open Library Library.Outcome Library.Bytes List Nat

structure Sized (dtb : Dtb) : Prop where
  length_lt : dtb.bytes.length < 2 ^ 32
  struct_lt : dtb.offStruct < dtb.bytes.length
  strings_lt : dtb.offStrings < dtb.bytes.length
  rsvmap_lt : dtb.offRsvmap < dtb.bytes.length

variable {n pos valueAt depth : ℕ} {bytes name : Bytes}

lemma word_holds :
    (word n bytes pos).Safe (fun v => v < 256 ^ n ∧ pos + n ≤ bytes.length) := by
  rw [word]
  refine .ensure (fun _ => ?_) trivial
  refine .ensure (fun hle => ⟨?_, hle⟩) trivial
  have hlt := beVal_lt (window bytes pos n)
  rwa [length_window hle] at hlt

lemma be32_holds :
    (be32 bytes pos).Safe (fun v => v < 2 ^ 32 ∧ pos + 4 ≤ bytes.length) :=
  word_holds

lemma be64_holds :
    (be64 bytes pos).Safe (fun v => v < 2 ^ 64 ∧ pos + 8 ≤ bytes.length) :=
  word_holds

lemma fromBytes_holds (bytes : Bytes) : (fromBytes bytes).Safe Sized := by
  rw [fromBytes]
  refine be32_holds.bind fun m _ => ?_
  refine .ensure (fun _ => ?_) trivial
  refine be32_holds.bind fun total htotal => ?_
  refine .ensure (fun hsize => ?_) trivial
  refine be32_holds.bind fun version _ => ?_
  refine .ensure (fun _ => ?_) trivial
  refine be32_holds.bind fun offStruct _ => ?_
  refine be32_holds.bind fun offStrings _ => ?_
  refine be32_holds.bind fun offRsvmap _ => ?_
  rw [slice_eq (zero_le _) hsize.1, ok_bind]
  refine .ensure (fun hoffsets => ?_) trivial
  have hlength : ((bytes.drop 0).take (total - 0)).length = total := by
    rw [length_take, length_drop]
    omega
  refine ⟨?_, ?_, ?_, ?_⟩ <;> dsimp only <;> rw [hlength]
  exacts [htotal.1, hoffsets.1, hoffsets.2.1, hoffsets.2.2]

variable {dtb : Dtb} {pos len cap : ℕ} {c : Cells}

lemma cstr_holds : (dtb.cstr pos).Safe (fun name => pos + name.length < dtb.bytes.length) := by
  rw [cstr]
  refine .ensure (fun hle => ?_) trivial
  rw [holds_bind, holds_okOr]
  refine ⟨fun last hlast => ?_, fun _ => trivial⟩
  obtain ⟨hlt, -⟩ := findIdx?_eq_some_iff_getElem.mp hlast
  rw [length_drop] at hlt
  rw [holds_pure, length_take, length_drop]
  omega

lemma align4_eq (h : n < 2 ^ 33) : align4 n = ok ((n + 3) / 4 * 4) := mul_eq (by omega)

lemma propName_holds (hd : dtb.Sized) {nameOff : ℕ} (h : nameOff < 2 ^ 32) :
    (dtb.propName nameOff).Safe (fun _ => True) := by
  have hlength := hd.length_lt
  have hstrings := hd.strings_lt
  rw [propName, add_eq (by omega), ok_bind]
  exact cstr_holds.mono (fun _ _ => trivial) fun _ => id

lemma window_infix {α : Type} {l : List α} : window l pos n <:+: l :=
  ( take_prefix _ _).isInfix.trans (drop_suffix _ _).isInfix

lemma value_holds (hpos : pos < 2 ^ 33) (hlen : len < 2 ^ 32) :
    (dtb.value pos len).Safe (fun v => v <:+: dtb.bytes) := by
  rw [value, add_eq (by omega), ok_bind, Safe, holds_bind, holds_ensure]
  exact ⟨fun _ => window_infix, fun _ => trivial⟩

lemma int_holds : (dtb.int pos len).Safe (fun v => v < 2 ^ 64) := by
  rw [int]
  split_ifs
  · exact be32_holds.mono (fun v hv => hv.1.trans (by decide)) fun _ => id
  · exact be64_holds.mono (fun v hv => hv.1) fun _ => id
  · exact trivial

lemma cellsFrom_holds (hd : dtb.Sized) (hpos : pos < 2 ^ 36) {left i v : ℕ} (hi : i ≤ 2 ^ 30) :
    (dtb.cellsFrom pos left i v).Safe (fun _ => True) := by
  induction left generalizing i v with
  | zero => exact trivial
  | succ left ih =>
    have hlength := hd.length_lt
    rw [cellsFrom, mul_eq (by omega), ok_bind, add_eq (by omega), ok_bind]
    refine be32_holds.bind fun w hw => ih ?_
    omega

lemma cells_holds (hd : dtb.Sized) (hpos : pos < 2 ^ 36) {count : ℕ} :
    (dtb.cells pos count).Safe (fun _ => True) :=
  cellsFrom_holds hd hpos (zero_le _)

def Region.Bounded (r : Region) : Prop := r.start + r.size < 2 ^ 64

structure Filled (cap : ℕ) (out : List Region) : Prop where
  length_le : out.length ≤ cap
  bounded : ∀ r ∈ out, r.Bounded

lemma Filled.nil : Filled cap [] := ⟨zero_le _, fun _ h => (nomatch h)⟩

lemma Filled.append {out new : List Region} {room : ℕ} (h : Filled cap out) (hnew : Filled room new)
    (hroom : out.length + room ≤ cap) : Filled cap (out ++ new) := by
  refine ⟨?_, fun r hr => ?_⟩
  · rw [length_append]
    have := hnew.length_le
    omega
  · rcases mem_append.mp hr with hr | hr
    · exact h.bounded r hr
    · exact hnew.bounded r hr

structure Cells.Small (c : Cells) : Prop where
  address : c.address < 2 ^ 32
  size : c.size < 2 ^ 32

lemma small_default : (⟨2, 1⟩ : Cells).Small := ⟨by decide, by decide⟩

lemma decodeFrom_holds (hd : dtb.Sized) (hc : c.Small) {pairBytes last fuel cursor : ℕ} {out : List Region}
    (hpair : 0 < pairBytes ∧ pairBytes < 2 ^ 36) (hlast : last < 2 ^ 34) (hcursor : cursor ≤ last)
    (hfuel : 0 < fuel) (henough : last < cursor + fuel) (hout : Filled cap out) :
    (dtb.decodeFrom c cap pairBytes last fuel cursor out).Safe (Filled cap) := by
  induction fuel generalizing cursor out with
  | zero => omega
  | succ fuel ih =>
    have haddress := hc.address
    rw [decodeFrom, add_eq (by omega), ok_bind]
    split_ifs with hnext
    · refine (cells_holds hd (by omega)).bind fun start _ => ?_
      rw [mul_eq (by omega), ok_bind, add_eq (by omega), ok_bind]
      refine (cells_holds hd (by omega)).bind fun size _ => ?_
      split_ifs
      · exact ih hnext (by omega) (by omega) hout
      · refine .ensure (fun hbounded => ?_) trivial
        refine .ensure (fun hroom => ih hnext (by omega) (by omega) ?_) trivial
        have hone : Filled 1 [⟨start, size⟩] := by
          refine ⟨le_rfl, fun r hr => ?_⟩
          cases mem_singleton.mp hr
          exact hbounded
        exact hout.append hone hroom
    · exact hout

lemma decodeReg_holds (hd : dtb.Sized) (hc : c.Small) (hpos : pos < 2 ^ 33) (hlen : len < 2 ^ 32) :
    (dtb.decodeReg pos len c cap).Safe (Filled cap) := by
  have haddress := hc.address
  have hsize := hc.size
  rw [decodeReg, add_eq (by omega), ok_bind, mul_eq (by omega), ok_bind]
  split_ifs
  · exact Filled.nil
  · rw [add_eq (by omega), ok_bind]
    exact decodeFrom_holds hd hc (by omega) (by omega) (by omega) (by omega) (by omega) Filled.nil

lemma setCells_holds (hc : c.Small) :
    (dtb.setCells name valueAt c).Safe Cells.Small := by
  rw [setCells]
  split_ifs
  · exact be32_holds.bind fun n hn => ⟨hn.1, hc.size⟩
  · exact be32_holds.bind fun n hn => ⟨hc.address, hn.1⟩
  · exact hc

lemma rootCells_holds {depth : ℤ} (hc : c.Small) :
    (dtb.rootCells depth name valueAt c).Safe Cells.Small := by
  rw [rootCells]
  split_ifs
  · exact setCells_holds hc
  · exact hc

section

variable {σ ρ : Type} {w : Walk σ ρ} {inv : ℕ → σ → Prop} {post : ρ → Prop}

def Next.Holds (inv : σ → Prop) (post : ρ → Prop) : Next σ ρ → Prop
  | .more s => inv s
  | .done r => post r

lemma holds_next {next : σ → Prop} {fail : Error → Prop} {f : σ → Outcome Error ρ} {x : Next σ ρ} :
    x.Holds next post → (∀ s, next s → (f s).Holds post fail) →
      (match x with
        | .more s => f s
        | .done r => pure r : Outcome Error ρ).Holds post fail := by
  intro hx hf
  cases x with
  | more s => exact hf s hx
  | done r => exact hx

/-- What the steps of a walk keep: `inv n` after `n` tokens, and `post` for an answer. A blob has fewer than `2 ^
30` tokens. -/
structure Keeps (w : Walk σ ρ) (inv : ℕ → σ → Prop) (post : ρ → Prop) : Prop where
  beginNode : ∀ n s name, n < 2 ^ 30 → inv n s → (w.beginNode s name).Safe (inv (n + 1))
  endNode : ∀ n s, n < 2 ^ 30 → inv n s → (w.endNode s).Safe (Next.Holds (inv (n + 1)) post)
  prop : ∀ n s nameOff valueAt len, n < 2 ^ 30 → nameOff < 2 ^ 32 → valueAt < 2 ^ 33 → len < 2 ^ 32 → inv n s →
    (w.prop s nameOff valueAt len).Safe (Next.Holds (inv (n + 1)) post)
  nop : ∀ n s, inv n s → inv (n + 1) s
  finish : ∀ n s, inv n s → post (w.finish s)

lemma walkFrom_holds (hd : dtb.Sized) (hw : Keeps w inv post) {fuel n : ℕ} {s : σ} (hfuel : 0 < fuel)
    (henough : dtb.bytes.length < pos + 4 * fuel) (hn : 4 * n ≤ pos) (hs : inv n s) :
    (dtb.walkFrom w fuel pos s).Safe post := by
  induction fuel generalizing n pos s with
  | zero => omega
  | succ fuel ih =>
    have hlength := hd.length_lt
    -- Where the walk goes on it has read at least one token more.
    have hmore {pos' : ℕ} {s' : σ} (hle : pos + 4 ≤ pos') (hin : pos + 4 ≤ dtb.bytes.length)
        (hs' : inv (n + 1) s') : (dtb.walkFrom w fuel pos' s').Safe post :=
      ih (by omega) (by omega) (by omega) hs'
    rw [walkFrom]
    refine be32_holds.bind fun token htoken => ?_
    obtain ⟨-, hin⟩ := htoken
    rw [add_eq (by omega), ok_bind]
    split_ifs
    · refine cstr_holds.bind fun name hname => ?_
      rw [add_eq (by omega), ok_bind, align4_eq (by omega), ok_bind, add_eq (by omega), ok_bind]
      exact (hw.beginNode n s name (by omega) hs).bind fun s' hs' => hmore (by omega) hin hs'
    · exact (hw.endNode n s (by omega) hs).bind fun x hx => holds_next hx fun _ => hmore le_rfl hin
    · refine be32_holds.bind fun len hlen => ?_
      rw [add_eq (by omega), ok_bind]
      refine be32_holds.bind fun nameOff hoff => ?_
      rw [add_eq (by omega), ok_bind, align4_eq (by omega), ok_bind, add_eq (by omega), ok_bind, holds_bind]
      exact (hw.prop n s nameOff (pos + 4 + 8) len (by omega) hoff.1 (by omega) hlen.1 hs).mono
        (fun x hx => holds_next hx fun _ => hmore (by omega) hin) fun _ => id
    · exact hmore le_rfl hin (hw.nop n s hs)
    · exact hw.finish n s hs
    · exact trivial

lemma walk_holds (hd : dtb.Sized) (hw : Keeps w inv post) {s : σ} (hs : inv 0 s) :
    (dtb.walk w s).Safe post :=
  walkFrom_holds hd hw (succ_pos _) (by omega) (by omega) hs

end

section

def Shallow (n : ℕ) (depth : ℤ) : Prop := -n ≤ depth ∧ depth ≤ n

variable {n : ℕ} {depth : ℤ}

variable (h : Shallow n depth)
include h

lemma Shallow.incr_eq (hn : n ≤ 2 ^ 30) : incr depth = ok (depth + 1) := by
  obtain ⟨hl, hr⟩ := h
  exact if_pos (by omega)

lemma Shallow.decr_eq (hn : n ≤ 2 ^ 30) : decr depth = ok (depth - 1) := by
  obtain ⟨hl, hr⟩ := h
  exact if_pos (by omega)

lemma Shallow.succ : Shallow (n + 1) (depth + 1) := by
  obtain ⟨hl, hr⟩ := h
  constructor <;> push_cast <;> omega

lemma Shallow.pred : Shallow (n + 1) (depth - 1) := by
  obtain ⟨hl, hr⟩ := h
  constructor <;> push_cast <;> omega

lemma Shallow.mono : Shallow (n + 1) depth := by
  obtain ⟨hl, hr⟩ := h
  constructor <;> push_cast <;> omega

end

section

variable {α : Type} {slots : Slots α} {i : ℕ} {a : α}

lemma Slots.get_eq (h : i < maxDepth) : slots.get i = ok (slots i) := if_pos h

lemma Slots.store_eq (h : i < maxDepth) : slots.store i a = ok (Function.update slots i a) := if_pos h

lemma Slots.storeIf_eq {p : Prop} [Decidable p] (h : p → i < maxDepth) :
    slots.storeIf p i a = ok (if p then Function.update slots i a else slots) := by
  rw [Slots.storeIf]
  split_ifs with hp
  · exact Slots.store_eq (h hp)
  · rfl

def Slots.All (P : α → Prop) (slots : Slots α) : Prop := ∀ i, P (slots i)

lemma Slots.All.update {P : α → Prop} (h : slots.All P) (ha : P a) : Slots.All P (Function.update slots i a) := by
  intro j
  rw [Function.update_apply]
  split_ifs
  · exact ha
  · exact h j

lemma Slots.All.storeIf_holds {P : α → Prop} {p : Prop} [Decidable p] (hslots : slots.All P) (ha : P a)
    (h : p → i < maxDepth) : (slots.storeIf p i a).Safe (Slots.All P) := by
  rw [Slots.storeIf_eq h, Safe, holds_ok]
  split_ifs
  · exact hslots.update ha
  · exact hslots

end

lemma inheritCells_holds {cells : Slots Cells} (hcells : cells.All Cells.Small) (hdepth : 0 < depth) :
    (inheritCells cells depth).Safe (Slots.All Cells.Small) := by
  rw [inheritCells]
  split_ifs with hlt
  · rw [sub_eq hdepth, ok_bind, Slots.get_eq (by omega), ok_bind, Slots.store_eq hlt]
    exact hcells.update (hcells _)
  · exact hcells

lemma declareCells_holds {cells : Slots Cells} (hcells : cells.All Cells.Small) :
    (dtb.declareCells cells depth name valueAt).Safe (Slots.All Cells.Small) := by
  rw [declareCells]
  split_ifs with hlt
  · rw [Slots.get_eq hlt, ok_bind]
    refine (setCells_holds (hcells _)).bind fun c hc => ?_
    rw [Slots.store_eq hlt]
    exact hcells.update hc
  · exact hcells

lemma matchedAt_holds {matched : Slots Bool} :
    (matchedAt matched depth).Safe (fun isMatched => isMatched = true → depth < maxDepth) := by
  rw [matchedAt]
  split_ifs with hif
  · rw [Slots.get_eq hif.2]
    exact fun _ => hif.2
  · exact fun h => (nomatch h)

def Placed (place : Option (ℕ × ℕ)) : Prop := ∀ x ∈ place, x.1 < 2 ^ 33 ∧ x.2 < 2 ^ 32

lemma placed_none : Placed none := fun _ h => (nomatch h)

lemma placed_some (hvalue : valueAt < 2 ^ 33) (hlen : len < 2 ^ 32) : Placed (some (valueAt, len)) := by
  intro x hx
  cases hx
  exact ⟨hvalue, hlen⟩

def Inside (dtb : Dtb) (answer : Option Bytes) : Prop := ∀ v ∈ answer, v <:+: dtb.bytes

lemma inside_none : Inside dtb none := fun _ h => (nomatch h)

lemma inside_some {v : Bytes} (h : v <:+: dtb.bytes) : Inside dtb (some v) := by
  intro x hx
  cases hx
  exact h

lemma valueOf_holds {place : Option (ℕ × ℕ)} (h : Placed place) :
    (dtb.valueOf place).Safe (Inside dtb) := by
  cases place with
  | none => exact inside_none
  | some x =>
    obtain ⟨hvalue, hlen⟩ := h x rfl
    rw [valueOf]
    exact (value_holds hvalue hlen).bind fun v hv => inside_some hv

lemma nearest_holds {values : Slots (Option (ℕ × ℕ))} (hvalues : values.All Placed) {d : ℕ} (hd : d < maxDepth) :
    (nearest values d).Safe Placed := by
  induction d with
  | zero => exact placed_none
  | succ d ih =>
    rw [nearest, Slots.get_eq hd, ok_bind]
    have hplace := hvalues (d + 1)
    cases hat : values (d + 1) with
    | some place =>
      rw [hat] at hplace
      exact hplace
    | none => exact ih (by omega)

section

variable (hd : dtb.Sized)

include hd

lemma memoryRegions_holds : (dtb.memoryRegions cap).Safe (Filled cap) := by
  have hkeeps : Keeps (dtb.memoryWalk cap) (fun n s => Shallow n s.depth ∧ s.cells.Small ∧ Filled cap s.regions)
      (Filled cap) := by
    refine ⟨fun n s name hn hs => ?_, fun n s hn hs => ?_,
      fun n s nameOff valueAt len hn hoff hvalue hlen hs => ?_, fun n s hs => ⟨hs.1.mono, hs.2⟩,
      fun n s hs => hs.2.2⟩
    · dsimp only [memoryWalk]
      rw [hs.1.incr_eq hn.le]
      exact ⟨hs.1.succ, hs.2⟩
    · dsimp only [memoryWalk]
      rw [hs.1.decr_eq hn.le]
      exact ⟨hs.1.pred, hs.2⟩
    · obtain ⟨hdepth, hcells, hregions⟩ := hs
      dsimp only [memoryWalk]
      refine (propName_holds hd hoff).bind fun name _ => ?_
      refine (rootCells_holds hcells).bind fun cells hcells => ?_
      split_ifs
      · have hle := hregions.length_le
        rw [sub_eq hle, ok_bind]
        refine (decodeReg_holds hd hcells hvalue hlen).bind fun new hnew => ?_
        exact ⟨hdepth.mono, hcells, hregions.append hnew (by omega)⟩
      · exact ⟨hdepth.mono, hcells, hregions⟩
  exact walk_holds hd hkeeps ⟨⟨le_rfl, le_rfl⟩, small_default, Filled.nil⟩

variable {start compat name : Bytes}

lemma nodeReg_holds : (dtb.nodeReg start cap).Safe (Filled cap) := by
  have hkeeps : Keeps (dtb.regWalk start cap) (fun n s => s.depth ≤ n ∧ s.cells.All Cells.Small ∧
      ∀ d ∈ s.targetAt, 2 ≤ d ∧ d < maxDepth) (Filled cap) := by
    refine ⟨fun n s name hn hs => ?_, fun n s hn hs => ?_,
      fun n s nameOff valueAt len hn hoff hvalue hlen hs => ?_, fun n s hs => ⟨by omega, hs.2⟩,
      fun n s hs => Filled.nil⟩ <;> obtain ⟨hdepth, hcells, htarget⟩ := hs
    · dsimp only [regWalk]
      rw [add_eq (by omega), ok_bind]
      refine (inheritCells_holds hcells (succ_pos _)).bind fun cells hcells => ?_
      refine ⟨by dsimp only; omega, hcells, fun d hmem => ?_⟩
      split_ifs at hmem with hif
      · cases hmem
        exact hif.1
      · exact htarget d hmem
    · refine ⟨by dsimp only; omega, hcells, fun d hmem => ?_⟩
      split_ifs at hmem
      · exact nomatch hmem
      · exact htarget d hmem
    · dsimp only [regWalk]
      refine (propName_holds hd hoff).bind fun name _ => ?_
      refine (declareCells_holds hcells).bind fun cells hcells => ?_
      split_ifs with hif
      · obtain ⟨htwo, hmax⟩ := htarget s.depth hif.1
        rw [sub_eq (by omega), ok_bind, Slots.get_eq (by omega), ok_bind]
        exact (decodeReg_holds hd (hcells _) hvalue hlen).bind fun _ => id
      · exact ⟨by dsimp only; omega, hcells, htarget⟩
  exact walk_holds hd hkeeps ⟨le_rfl, fun _ => small_default, fun _ h => (nomatch h)⟩

lemma nodeRegCompatible_holds : (dtb.nodeRegCompatible compat cap).Safe (Filled cap) := by
  have hkeeps : Keeps (dtb.regCompatibleWalk compat cap) (fun n s => s.depth ≤ n ∧ s.cells.All Cells.Small ∧
      s.reg.All fun place => ∀ x ∈ place, x.1 < 2 ^ 33 ∧ x.2.1 < 2 ^ 32 ∧ x.2.2.Small) (Filled cap) := by
    refine ⟨fun n s name hn hs => ?_, fun n s hn hs => ?_,
      fun n s nameOff valueAt len hn hoff hvalue hlen hs => ?_, fun n s hs => ⟨by omega, hs.2⟩,
      fun n s hs => Filled.nil⟩ <;> obtain ⟨hdepth, hcells, hreg⟩ := hs
    · dsimp only [regCompatibleWalk]
      rw [add_eq (by omega), ok_bind]
      refine (inheritCells_holds hcells (succ_pos _)).bind fun cells hcells => ?_
      refine (hreg.storeIf_holds (fun _ h => absurd h (Option.not_mem_none _)) id).bind fun reg hreg => ?_
      rw [Slots.storeIf_eq id, ok_bind]
      exact ⟨by dsimp only; omega, hcells, hreg⟩
    · dsimp only [regCompatibleWalk]
      refine matchedAt_holds.bind fun isMatched hmatched => ?_
      split_ifs with hif
      · have hplace := hreg s.depth
        rw [Slots.get_eq (hmatched hif), ok_bind]
        cases hat : s.reg s.depth with
        | none => exact Filled.nil
        | some x =>
          obtain ⟨valueAt, len, c⟩ := x
          obtain ⟨hvalue, hlen, hc⟩ := hplace _ hat
          exact (decodeReg_holds hd hc hvalue hlen).bind fun _ => id
      · exact ⟨by dsimp only; omega, hcells, hreg⟩
    · dsimp only [regCompatibleWalk]
      refine (propName_holds hd hoff).bind fun name _ => ?_
      refine (declareCells_holds hcells).bind fun cells hcells => ?_
      split_ifs with hmax hif
      · rw [sub_eq (by omega), ok_bind, Slots.get_eq (by omega), ok_bind, Slots.store_eq hmax, ok_bind]
        refine ⟨by dsimp only; omega, hcells, hreg.update fun x hx => ?_⟩
        cases hx
        exact ⟨hvalue, hlen, hcells _⟩
      · refine (value_holds hvalue hlen).bind fun bytes _ => ?_
        rw [Slots.store_eq hmax, ok_bind]
        exact ⟨by dsimp only; omega, hcells, hreg⟩
      · exact ⟨by dsimp only; omega, hcells, hreg⟩
      · exact ⟨by dsimp only; omega, hcells, hreg⟩
  exact walk_holds hd hkeeps ⟨le_rfl, fun _ => small_default, fun _ _ h => (nomatch h)⟩

lemma matchWalk_holds {mark : Bool → Bytes → ℕ → ℕ → Outcome Error Bool}
    (hmark : ∀ isMatched pname valueAt len, valueAt < 2 ^ 33 → len < 2 ^ 32 →
      (mark isMatched pname valueAt len).Safe (fun _ => True)) :
    (dtb.walk (dtb.matchWalk name mark) matchStart).Safe (Inside dtb) := by
  have hkeeps : Keeps (dtb.matchWalk name mark) (fun n s => s.depth ≤ n ∧ s.found.All Placed) (Inside dtb) := by
    refine ⟨fun n s name hn hs => ?_, fun n s hn hs => ?_,
      fun n s nameOff valueAt len hn hoff hvalue hlen hs => ?_, fun n s hs => ⟨by omega, hs.2⟩,
      fun n s hs => inside_none⟩ <;> obtain ⟨hdepth, hfound⟩ := hs
    · dsimp only [matchWalk]
      rw [add_eq (by omega), ok_bind]
      refine (hfound.storeIf_holds placed_none id).bind fun found hfound => ?_
      rw [Slots.storeIf_eq id, ok_bind]
      exact ⟨by dsimp only; omega, hfound⟩
    · dsimp only [matchWalk]
      refine matchedAt_holds.bind fun isMatched hmatched => ?_
      split_ifs with hif
      · rw [Slots.get_eq (hmatched hif), ok_bind]
        exact (valueOf_holds (hfound s.depth)).bind fun _ => id
      · exact ⟨by dsimp only; omega, hfound⟩
    · dsimp only [matchWalk]
      refine (propName_holds hd hoff).bind fun pname _ => ?_
      split_ifs with hmax
      · refine (hfound.storeIf_holds (placed_some hvalue hlen) fun _ => hmax).bind fun found hfound => ?_
        rw [Slots.get_eq hmax, ok_bind]
        refine (hmark _ _ _ _ hvalue hlen).bind fun isMatched _ => ?_
        rw [Slots.store_eq hmax, ok_bind]
        exact ⟨by dsimp only; omega, hfound⟩
      · exact ⟨by omega, hfound⟩
  exact walk_holds hd hkeeps ⟨le_rfl, fun _ => placed_none⟩

lemma nodePropCompatible_holds :
    (dtb.nodePropCompatible compat name).Safe (Inside dtb) := by
  refine matchWalk_holds hd fun isMatched pname valueAt len hvalue hlen => ?_
  rw [markCompatible]
  split_ifs
  · exact (value_holds hvalue hlen).bind fun _ _ => trivial
  · exact trivial

lemma phandleProp_holds {phandle : ℕ} : (dtb.phandleProp phandle name).Safe (Inside dtb) := by
  refine matchWalk_holds hd fun isMatched pname valueAt len hvalue hlen => ?_
  rw [markPhandle]
  split_ifs
  · exact be32_holds.bind fun _ _ => trivial
  · exact trivial

lemma nodeProp_holds : (dtb.nodeProp start name).Safe (Inside dtb) := by
  have hkeeps : Keeps (dtb.propWalk start name) (fun n s => s.depth ≤ n) (Inside dtb) := by
    refine ⟨fun n s name hn hs => ?_, fun n s hn hs => ?_,
      fun n s nameOff valueAt len hn hoff hvalue hlen hs => ?_, fun n s hs => by omega, fun n s hs => inside_none⟩
    · dsimp only [propWalk]
      rw [add_eq (by omega), ok_bind]
      exact succ_le_succ hs
    · dsimp only [propWalk]
      split_ifs
      · exact inside_none
      · exact (sub_le _ _).trans (by omega)
    · dsimp only [propWalk]
      split_ifs
      · refine (propName_holds hd hoff).bind fun pname _ => ?_
        split_ifs
        · exact (value_holds hvalue hlen).bind fun v hv => inside_some hv
        · exact le_succ_of_le hs
      · exact le_succ_of_le hs
  exact walk_holds hd hkeeps le_rfl

lemma nodePropInherited_holds :
    (dtb.nodePropInherited start name).Safe (Inside dtb) := by
  have hkeeps : Keeps (dtb.inheritedWalk start name) (fun n s => s.depth ≤ n ∧ s.values.All Placed ∧
      ∀ d ∈ s.targetAt, d < maxDepth) (Inside dtb) := by
    refine ⟨fun n s name hn hs => ?_, fun n s hn hs => ?_,
      fun n s nameOff valueAt len hn hoff hvalue hlen hs => ?_, fun n s hs => ⟨by omega, hs.2⟩,
      fun n s hs => inside_none⟩ <;> obtain ⟨hdepth, hvalues, htarget⟩ := hs
    · dsimp only [inheritedWalk]
      rw [add_eq (by omega), ok_bind]
      refine (hvalues.storeIf_holds placed_none id).bind fun values hvalues => ?_
      refine ⟨by dsimp only; omega, hvalues, fun d hmem => ?_⟩
      split_ifs at hmem with hif
      · cases hmem
        exact hif.1.2
      · exact htarget d hmem
    · dsimp only [inheritedWalk]
      split_ifs with hif
      · refine (nearest_holds hvalues (htarget _ hif)).bind fun place hplace => ?_
        exact (valueOf_holds hplace).bind fun _ => id
      · exact ⟨by dsimp only; omega, hvalues, htarget⟩
    · dsimp only [inheritedWalk]
      split_ifs with hmax
      · refine (propName_holds hd hoff).bind fun pname _ => ?_
        split_ifs
        · rw [Slots.store_eq hmax, ok_bind]
          exact ⟨by dsimp only; omega, hvalues.update (placed_some hvalue hlen), htarget⟩
        · exact ⟨by omega, hvalues, htarget⟩
      · exact ⟨by omega, hvalues, htarget⟩
  exact walk_holds hd hkeeps ⟨le_rfl, fun _ => placed_none, fun _ h => (nomatch h)⟩

lemma nodeProps_holds {places : ℕ} : (dtb.nodeProps start name places).Safe
    (fun answer => answer.2.length = places ∧ ∀ slot ∈ answer.2, Inside dtb slot) := by
  have hkeeps : Keeps (dtb.propsWalk start name) (fun n s => s.depth ≤ n ∧ s.matched ≤ n ∧
      (s.targetAt ≠ none → 0 < s.matched) ∧ s.out.length = places ∧ ∀ slot ∈ s.out, Inside dtb slot)
      (fun answer => answer.2.length = places ∧ ∀ slot ∈ answer.2, Inside dtb slot) := by
    refine ⟨fun n s name hn hs => ?_, fun n s hn hs => ?_,
      fun n s nameOff valueAt len hn hoff hvalue hlen hs => ?_, fun n s hs => ⟨by omega, by omega, hs.2.2⟩,
      fun n s hs => hs.2.2.2⟩ <;>
      obtain ⟨hdepth, hmatched, htarget, hlength, hout⟩ := hs
    · dsimp only [propsWalk]
      rw [add_eq (by omega), ok_bind]
      split_ifs
      · rw [add_eq (by omega), ok_bind]
        exact ⟨by dsimp only; omega, by dsimp only; omega, fun _ => succ_pos _, hlength, hout⟩
      · exact ⟨by dsimp only; omega, by dsimp only; omega, htarget, hlength, hout⟩
    · refine ⟨by dsimp only; omega, by dsimp only; omega, fun hne => htarget fun h => ?_, hlength, hout⟩
      rw [h] at hne
      exact hne rfl
    · dsimp only [propsWalk]
      split_ifs with hif
      · refine (propName_holds hd hoff).bind fun pname _ => ?_
        split_ifs
        · have hpos : 0 < s.matched := htarget (by rw [hif]; exact Option.some_ne_none _)
          rw [sub_eq hpos, ok_bind]
          split_ifs
          · refine (value_holds hvalue hlen).bind fun v hv => ?_
            refine ⟨by dsimp only; omega, by dsimp only; omega, htarget, ?_, fun slot hslot => ?_⟩
            · rw [length_set, hlength]
            · rcases mem_or_eq_of_mem_set hslot with hslot | rfl
              · exact hout slot hslot
              · exact inside_some hv
          · exact ⟨by omega, by omega, htarget, hlength, hout⟩
        · exact ⟨by omega, by omega, htarget, hlength, hout⟩
      · exact ⟨by omega, by omega, htarget, hlength, hout⟩
  refine walk_holds hd hkeeps ⟨le_rfl, le_rfl, fun h => absurd rfl h, length_replicate, fun slot hslot => ?_⟩
  rw [eq_of_mem_replicate hslot]
  exact inside_none

lemma reservedMemoryRegions_holds : (dtb.reservedMemoryRegions cap).Safe (Filled cap) := by
  have hkeeps : Keeps (dtb.reservedWalk cap) (fun n s => Shallow n s.depth ∧ (∀ d ∈ s.resvDepth, Shallow n d) ∧
      s.cells.Small ∧ Filled cap s.regions) (Filled cap) := by
    refine ⟨fun n s name hn hs => ?_, fun n s hn hs => ?_,
      fun n s nameOff valueAt len hn hoff hvalue hlen hs => ?_,
      fun n s hs => ⟨hs.1.mono, fun d hmem => (hs.2.1 d hmem).mono, hs.2.2⟩, fun n s hs => hs.2.2.2⟩ <;>
      obtain ⟨hdepth, hresv, hcells, hregions⟩ := hs
    · dsimp only [reservedWalk]
      rw [hdepth.incr_eq hn.le, ok_bind]
      refine ⟨hdepth.succ, fun d hmem => ?_, hcells, hregions⟩
      split_ifs at hmem
      · cases hmem
        exact hdepth.succ
      · exact (hresv d hmem).mono
    · dsimp only [reservedWalk]
      split_ifs
      · exact hregions
      · rw [hdepth.decr_eq hn.le, ok_bind]
        exact ⟨hdepth.pred, fun d hmem => (hresv d hmem).mono, hcells, hregions⟩
    · dsimp only [reservedWalk]
      refine (propName_holds hd hoff).bind fun name _ => ?_
      refine (rootCells_holds hcells).bind fun cells hsmall => ?_
      obtain ⟨_, depth, resvDepth, regions⟩ := s
      have hresv : ∀ d ∈ resvDepth, Shallow (n + 1) d := fun d hmem => (hresv d hmem).mono
      cases resvDepth with
      | none => exact ⟨hdepth.mono, hresv, hsmall, hregions⟩
      | some rd =>
        dsimp only
        split_ifs
        · exact (setCells_holds hsmall).bind fun cells hsmall => ⟨hdepth.mono, hresv, hsmall, hregions⟩
        · rw [(hresv rd rfl).incr_eq (by omega), ok_bind]
          split_ifs
          · refine .ensure (fun hle => ?_) trivial
            refine (decodeReg_holds hd hsmall hvalue hlen).bind fun new hnew => ?_
            exact ⟨hdepth.mono, hresv, hsmall, hregions.append hnew (Nat.add_sub_cancel' hle).le⟩
          · exact ⟨hdepth.mono, hresv, hsmall, hregions⟩
  exact walk_holds hd hkeeps ⟨⟨le_rfl, le_rfl⟩, fun _ h => (nomatch h), ⟨by decide, by decide⟩, Filled.nil⟩

lemma initrd_holds : dtb.initrd.Safe (fun answer => ∀ r ∈ answer, r.Bounded) := by
  have hkeeps : Keeps dtb.initrdWalk (fun n s => Shallow n s.depth ∧ ∀ v ∈ s.last, v < 2 ^ 64)
      (fun answer => ∀ r ∈ answer, r.Bounded) := by
    refine ⟨fun n s name hn hs => ?_, fun n s hn hs => ?_,
      fun n s nameOff valueAt len hn hoff hvalue hlen hs => ?_, fun n s hs => ⟨hs.1.mono, hs.2⟩,
      fun n s hs r hr => ?_⟩ <;> obtain ⟨hdepth, hlast⟩ := hs
    · dsimp only [initrdWalk]
      rw [hdepth.incr_eq hn.le, ok_bind]
      exact ⟨hdepth.succ, hlast⟩
    · dsimp only [initrdWalk]
      rw [hdepth.decr_eq hn.le, ok_bind]
      exact ⟨hdepth.pred, hlast⟩
    · dsimp only [initrdWalk]
      split_ifs
      · refine (propName_holds hd hoff).bind fun name _ => ?_
        split_ifs
        · exact int_holds.bind fun v hv => ⟨hdepth.mono, hlast⟩
        · refine int_holds.bind fun v hv => ⟨hdepth.mono, fun x hx => ?_⟩
          cases hx
          exact hv
        · exact ⟨hdepth.mono, hlast⟩
      · exact ⟨hdepth.mono, hlast⟩
    · rw [initrdWalk] at hr
      dsimp only at hr
      split at hr
      · next first last _ hat =>
          split_ifs at hr with hlt
          · cases hr
            have hv := hlast last hat
            simp only [Region.Bounded]
            omega
          · exact nomatch hr
      · exact nomatch hr
  exact walk_holds hd hkeeps ⟨⟨le_rfl, le_rfl⟩, fun _ h => (nomatch h)⟩

end

section

def reservation (dtb : Dtb) (i : ℕ) : Option (ℕ × ℕ) :=
  match be64 dtb.bytes (dtb.offRsvmap + 16 * i), be64 dtb.bytes (dtb.offRsvmap + 16 * i + 8) with
  | .ok start, .ok size => some (start, size)
  | _, _ => none

/-- The entry that ends the reservation block. -/
def LastReservation (dtb : Dtb) (n : ℕ) : Prop :=
  dtb.reservation n = some (0, 0) ∧ ∀ i < n, dtb.reservation i ≠ some (0, 0)

def ReservationsBounded (dtb : Dtb) : Prop :=
  ∀ n, dtb.LastReservation n → ∀ i < n, ∀ start size, dtb.reservation i = some (start, size) →
    start + size < 2 ^ 64

variable {fuel i : ℕ} {out : List Region}

lemma reservedFrom_of_none (hd : dtb.Sized) (h : dtb.reservation i = none) :
    ∃ e, dtb.reservedFrom cap (fuel + 1) (dtb.offRsvmap + 16 * i) out = .error e := by
  have hsmall := hd.length_lt
  rw [reservedFrom]
  rw [reservation] at h
  cases hstart : be64 dtb.bytes (dtb.offRsvmap + 16 * i) with
  | error e => exact ⟨e, rfl⟩
  | panic => exact absurd hstart be64_holds.ne_panic
  | ok start =>
    obtain ⟨-, hin⟩ := be64_holds.of_ok hstart
    rw [ok_bind, add_eq (by omega), ok_bind]
    cases hsize : be64 dtb.bytes (dtb.offRsvmap + 16 * i + 8) with
    | error e => exact ⟨e, rfl⟩
    | panic => exact absurd hsize be64_holds.ne_panic
    | ok size => simp [hstart, hsize] at h

lemma reservation_eq_some {start size : ℕ} (h : dtb.reservation i = some (start, size)) :
    be64 dtb.bytes (dtb.offRsvmap + 16 * i) = ok start ∧
    be64 dtb.bytes (dtb.offRsvmap + 16 * i + 8) = ok size := by
  rw [reservation] at h
  split at h
  · next hstart hsize =>
    cases h
    exact ⟨hstart, hsize⟩
  · cases h

variable (hd : dtb.Sized)
include hd

lemma reservedFrom_of_some {start size : ℕ} (h : dtb.reservation i = some (start, size)) :
    dtb.reservedFrom cap (fuel + 1) (dtb.offRsvmap + 16 * i) out = if start = 0 ∧ size = 0 then ok out
      else ensure (out.length < cap) .tooManyRegions >>= fun _ =>
        dtb.reservedFrom cap fuel (dtb.offRsvmap + 16 * (i + 1)) (out ++ [⟨start, size⟩]) := by
  have hsmall := hd.length_lt
  obtain ⟨hstart, hsize⟩ := reservation_eq_some h
  obtain ⟨-, hin⟩ := be64_holds.of_ok hsize
  rw [reservedFrom, hstart, ok_bind, add_eq (by omega), ok_bind, hsize, ok_bind, add_eq (by omega), ok_bind,
    mul_succ, ← add_assoc]
  rfl

lemma reservedFrom_holds (hfuel : 0 < fuel)
    (henough : dtb.bytes.length < dtb.offRsvmap + 16 * i + 16 * fuel) (hlength : out.length ≤ cap)
    (hbefore : ∀ j < i, dtb.reservation j ≠ some (0, 0))
    (hout : ∀ r ∈ out, ∃ j < i, dtb.reservation j = some (r.start, r.size)) :
      (dtb.reservedFrom cap fuel (dtb.offRsvmap + 16 * i) out).Safe
      (fun out => out.length ≤ cap ∧ ∃ n, dtb.LastReservation n ∧ ∀ r ∈ out, ∃ j < n,
        dtb.reservation j = some (r.start, r.size)) := by
  induction fuel generalizing i out with
  | zero => omega
  | succ fuel ih =>
    cases hentry : dtb.reservation i with
    | none =>
      obtain ⟨e, he⟩ : ∃ e, dtb.reservedFrom cap (fuel + 1) _ out = .error e := reservedFrom_of_none hd hentry
      rw [he]
      exact trivial
    | some entry =>
      obtain ⟨start, size⟩ := entry
      obtain ⟨-, hin⟩ := be64_holds.of_ok (reservation_eq_some hentry).2
      rw [reservedFrom_of_some hd hentry]
      split_ifs with hzero
      · obtain ⟨rfl, rfl⟩ := hzero
        exact ⟨hlength, i, ⟨hentry, hbefore⟩, hout⟩
      · refine .ensure (fun hroom => ?_) trivial
        refine ih (by omega) (by omega) ?_ (fun j hj => ?_) fun r hr => ?_
        · rw [length_append]
          exact hroom
        · rcases Nat.lt_succ_iff_lt_or_eq.mp hj with hj | rfl
          · exact hbefore j hj
          · rw [hentry]
            rintro heq
            cases heq
            exact hzero ⟨rfl, rfl⟩
        · rcases mem_append.mp hr with hr | hr
          · obtain ⟨j, hj, heq⟩ := hout r hr
            exact ⟨j, lt_succ_of_lt hj, heq⟩
          · cases mem_singleton.mp hr
            exact ⟨i, lt_succ_self i, hentry⟩

lemma exists_reservation {n : ℕ} {entry : ℕ × ℕ} (hn : dtb.reservation n = some entry) (hle : i ≤ n) :
    ∃ start size, dtb.reservation i = some (start, size) := by
  have hsmall := hd.length_lt
  obtain ⟨-, hin⟩ := be64_holds.of_ok (reservation_eq_some hn).2
  have hread : ∀ pos, pos + 8 ≤ dtb.bytes.length → be64 dtb.bytes pos = ok (beVal (window dtb.bytes pos 8)) :=
    fun pos hpos => by
    rw [be64, word, ensure_bind (by omega), ensure_bind hpos]
    rfl
  rw [reservation, hread _ (by omega), hread _ (by omega)]
  exact ⟨_, _, rfl⟩

/-- With room for them, all entries before the last one are handed out. -/
lemma reservedFrom_of_last {left : ℕ} (hlast : dtb.LastReservation (i + left)) (hfuel : left < fuel)
    (hcap : out.length + left ≤ cap) : ∃ out', dtb.reservedFrom cap fuel (dtb.offRsvmap + 16 * i) out = ok out' ∧
      out ⊆ out' ∧ ∀ j, i ≤ j → j < i + left → ∀ start size, dtb.reservation j = some (start, size) →
      ⟨start, size⟩ ∈ out' := by
  induction left generalizing i out fuel with
  | zero =>
    obtain ⟨fuel, rfl⟩ := exists_eq_succ_of_ne_zero (ne_zero_of_lt hfuel)
    exact ⟨out, (reservedFrom_of_some hd hlast.1).trans (if_pos ⟨rfl, rfl⟩), Subset.refl _,
      fun j hj hj' => by omega⟩
  | succ left ih =>
    obtain ⟨fuel, rfl⟩ := exists_eq_succ_of_ne_zero (ne_zero_of_lt hfuel)
    obtain ⟨start, size, hentry⟩ := exists_reservation (i := i) hd hlast.1 (by omega)
    have hne : ¬ (start = 0 ∧ size = 0) := fun ⟨hstart, hsize⟩ => hlast.2 i (by omega)
      (by rw [hentry, hstart, hsize])
    obtain ⟨out', hok, hsub, hall⟩ := @ih fuel (i + 1) (out ++ [⟨start, size⟩]) (by rwa [add_right_comm])
      (by omega) (by rw [length_append, length_singleton]; omega)
    refine ⟨out', ?_, fun r hr => hsub (mem_append_left _ hr), fun j hj hj' start' size' hentry' => ?_⟩
    · rw [reservedFrom_of_some hd hentry, if_neg hne, ensure_bind (show out.length < cap by omega), hok]
    · rcases eq_or_lt_of_le hj with rfl | hlt
      · rw [hentry] at hentry'
        cases hentry'
        exact hsub (mem_append_right _ mem_cons_self)
      · exact hall j hlt (by omega) _ _ hentry'

lemma reservedRegions_holds : (dtb.reservedRegions cap).Safe (fun out => out.length ≤ cap ∧
    ∃ n, dtb.LastReservation n ∧ ∀ r ∈ out, ∃ j < n, dtb.reservation j = some (r.start, r.size)) :=
  reservedFrom_holds (i := 0) hd (succ_pos _) (by omega) (zero_le _) (fun _ h => absurd h (not_lt_zero _))
    fun _ h => (nomatch h)

lemma reservedRegions_bounded_iff :
    (∀ cap out, dtb.reservedRegions cap = ok out → ∀ r ∈ out, r.start + r.size < 2 ^ 64) ↔
    dtb.ReservationsBounded := by
  constructor
  · intro h n hlast i hi start size hentry
    obtain ⟨-, hin⟩ := be64_holds.of_ok (reservation_eq_some hlast.1).1
    have hends : dtb.LastReservation (0 + n) := by rwa [zero_add]
    obtain ⟨out, hout, -, hall⟩ : ∃ out, dtb.reservedRegions n = ok out ∧ _ :=
      reservedFrom_of_last hd hends (show n < dtb.bytes.length + 1 by omega) (by simp)
    exact h n out hout _ (hall i (zero_le i) (by omega) start size hentry)
  · intro h cap out hout r hr
    obtain ⟨-, n, hlast, hentries⟩ := (reservedRegions_holds hd).of_ok hout
    obtain ⟨i, hi, hentry⟩ := hentries r hr
    exact h n hlast i hi _ _ hentry

end

/-- No accepted blob makes a query panic, and what is returned lies inside the blob and the address space. -/
theorem accepted_blob_is_read_safely (bytes : Bytes) (dtb : Dtb) (h : fromBytes bytes = ok dtb) :
    (∀ cap, dtb.reservedRegions cap ≠ panic ∧ ∀ out, dtb.reservedRegions cap = ok out → out.length ≤ cap) ∧
    ((∀ cap out, dtb.reservedRegions cap = ok out → ∀ r ∈ out, r.start + r.size < 2 ^ 64) ↔
    dtb.ReservationsBounded) ∧ (∀ cap start compat, ∀ query ∈ [dtb.memoryRegions cap, dtb.nodeReg start cap,
      dtb.nodeRegCompatible compat cap, dtb.reservedMemoryRegions cap], query ≠ panic ∧ ∀ out, query = ok out →
        out.length ≤ cap ∧ ∀ r ∈ out, r.start + r.size < 2 ^ 64) ∧
    (dtb.initrd ≠ panic ∧ ∀ r, dtb.initrd = ok (some r) → r.start + r.size < 2 ^ 64) ∧
    (∀ start name compat phandle, ∀ query ∈ [dtb.nodeProp start name, dtb.nodePropCompatible compat name,
      dtb.nodePropInherited start name, dtb.phandleProp phandle name], query ≠ panic ∧ ∀ v, query = ok (some v) →
        v <:+: dtb.bytes) ∧
    ∀ start name places, dtb.nodeProps start name places ≠ panic ∧ ∀ n out,
      dtb.nodeProps start name places = ok (n, out) → out.length = places ∧ ∀ v, some v ∈ out →
      v <:+: dtb.bytes := by
  have hd := (fromBytes_holds bytes).of_ok h
  refine ⟨fun cap => ?_, reservedRegions_bounded_iff hd, fun cap start compat query hquery => ?_, ?_,
    fun start name compat phandle query hquery => ?_, fun start name places => ?_⟩
  · exact ⟨(reservedRegions_holds hd).ne_panic, fun out hout => ((reservedRegions_holds hd).of_ok hout).1⟩
  · have hfilled : query.Safe (Filled cap) := by
      simp only [List.mem_cons, List.not_mem_nil, or_false] at hquery
      rcases hquery with rfl | rfl | rfl | rfl
      · exact memoryRegions_holds hd
      · exact nodeReg_holds hd
      · exact nodeRegCompatible_holds hd
      · exact reservedMemoryRegions_holds hd
    refine ⟨hfilled.ne_panic, fun out hout => ?_⟩
    have hgood := hfilled.of_ok hout
    exact ⟨hgood.length_le, hgood.bounded⟩
  · exact ⟨(initrd_holds hd).ne_panic, fun r hr => (initrd_holds hd).of_ok hr r rfl⟩
  · have hinside : query.Safe (Inside dtb) := by
      simp only [List.mem_cons, List.not_mem_nil, or_false] at hquery
      rcases hquery with rfl | rfl | rfl | rfl
      · exact nodeProp_holds hd
      · exact nodePropCompatible_holds hd
      · exact nodePropInherited_holds hd
      · exact phandleProp_holds hd
    exact ⟨hinside.ne_panic, fun v hv => hinside.of_ok hv v rfl⟩
  · refine ⟨(nodeProps_holds hd).ne_panic, fun n out hout => ?_⟩
    obtain ⟨hlength, hinside⟩ := (nodeProps_holds hd).of_ok hout
    exact ⟨hlength, fun v hv => hinside _ hv v rfl⟩

def sampleBlob (entries : List (ℕ × ℕ)) : Bytes :=
  let reservations := (entries ++ [(0, 0)]).flatMap fun e : ℕ × ℕ => toBe 8 e.1 ++ toBe 8 e.2
  let total := headerLen + reservations.length + 4
  [magic, total, total - 4, total - 4, headerLen, 17, 17, 0, 0, 4].flatMap (toBe 4) ++ reservations ++
    toBe 4 fdtEnd

theorem accepted_blob_is_read_safely_sample : ∃ dtb, fromBytes (sampleBlob [(0x80000000, 0x2000)]) = ok dtb ∧
    dtb.reservedRegions 4 = ok [⟨0x80000000, 0x2000⟩] ∧ dtb.memoryRegions 4 ≠ panic := by
  have h : fromBytes (sampleBlob [(0x80000000, 0x2000)]) = ok ⟨sampleBlob [(0x80000000, 0x2000)], 72, 72, 40⟩ := by
    decide +kernel
  refine ⟨_, h, by decide +kernel, ?_⟩
  exact ((accepted_blob_is_read_safely _ _ h).2.2.1 4 [] [] _ List.mem_cons_self).1

theorem reservation_runs_past_the_end : ∃ dtb, fromBytes (sampleBlob [(2 ^ 64 - 1, 2)]) = ok dtb ∧
    dtb.reservedRegions 4 = ok [⟨2 ^ 64 - 1, 2⟩] :=
  ⟨⟨sampleBlob [(2 ^ 64 - 1, 2)], 72, 72, 40⟩, by decide +kernel, by decide +kernel⟩

end CrickerOs.Dtb
