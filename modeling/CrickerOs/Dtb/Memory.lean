import CrickerOs.Dtb.Queries

namespace CrickerOs.Dtb

open Library Library.Outcome Library.Bytes List Nat

variable {dtb : Dtb} {cap : ℕ} {c : Cells}

section

variable {pos : ℕ}

lemma shift_or_modEq {v w : ℕ} (hw : w < 2 ^ 32) :
    ((v <<< 32) % 2 ^ 64 ||| w) < 2 ^ 64 ∧ ((v <<< 32) % 2 ^ 64 ||| w) ≡ v * 2 ^ 32 + w [MOD 2 ^ 64] := by
  have hshift : (v <<< 32) % 2 ^ 64 = (v % 2 ^ 32) <<< 32 := by
    rw [shiftLeft_eq, shiftLeft_eq]
    omega
  rw [hshift, ← shiftLeft_add_eq_or_of_lt hw, shiftLeft_eq]
  refine ⟨by omega, ?_⟩
  rw [Nat.ModEq]
  omega

lemma be32_eq (hd : dtb.Sized) (h : pos + 4 ≤ dtb.bytes.length) :
    be32 dtb.bytes pos = ok (beVal (window dtb.bytes pos 4)) := by
  have hlength := hd.length_lt
  rw [be32, word, ensure_bind (by omega), ensure_bind h]
  rfl

lemma cellsFrom_eq (hd : dtb.Sized) {left i v : ℕ} (hv : v < 2 ^ 64)
    (h : pos + 4 * (i + left) ≤ dtb.bytes.length) : dtb.cellsFrom pos left i v =
      ok ((v * 256 ^ (4 * left) + beVal (window dtb.bytes (pos + 4 * i) (4 * left))) % 2 ^ 64) := by
  induction left generalizing i v with
  | zero =>
    rw [cellsFrom, mul_zero, pow_zero, mul_one, show window dtb.bytes (pos + 4 * i) 0 = [] from rfl]
    exact congrArg ok (mod_eq_of_lt hv).symm
  | succ left ih =>
    have hlength := hd.length_lt
    have hw : beVal (window dtb.bytes (pos + 4 * i) 4) < 2 ^ 32 := by
      refine (beVal_lt _).trans_le ?_
      rw [length_window (by omega)]
      decide
    obtain ⟨hlt, hmod⟩ := shift_or_modEq (v := v) hw
    rw [cellsFrom, mul_eq (by omega), ok_bind, add_eq (by omega), ok_bind, mul_comm i 4, be32_eq hd (by omega),
      ok_bind, ih hlt (by omega)]
    refine congrArg ok (Nat.ModEq.trans ((hmod.mul_right _).add_right _) (congrArg (· % 2 ^ 64) ?_))
    rw [show 4 * (left + 1) = 4 + 4 * left by ring, window_add, beVal_append, length_window (by omega),
      add_assoc pos, ← mul_succ, pow_add]
    ring

lemma cells_eq (hd : dtb.Sized) {count : ℕ} (h : pos + 4 * count ≤ dtb.bytes.length) :
    dtb.cells pos count = ok (beVal (window dtb.bytes pos (4 * count)) % 2 ^ 64) := by
  rw [cells, cellsFrom_eq hd (by decide) (by omega), zero_mul, zero_add]
  rfl

end

section

def Cells.pairBytes (c : Cells) : ℕ := (c.address + c.size) * 4

def pairAt (c : Cells) (v : Bytes) (i : ℕ) : Region where
  start := beVal (window v (i * c.pairBytes) (4 * c.address)) % 2 ^ 64
  size := beVal (window v (i * c.pairBytes + c.address * 4) (4 * c.size)) % 2 ^ 64

def regPairs (c : Cells) (v : Bytes) : List Region :=
  ((List.range' 0 (v.length / c.pairBytes)).map (pairAt c v)).filter fun r => r.size ≠ 0

def collect (cap : ℕ) : (rs out : List Region) → Outcome Error (List Region)
  | [], out => pure out
  | r :: rs, out => do
      ensure (r.start + r.size < 2 ^ 64) .regionOverflow
      ensure (out.length < cap) .tooManyRegions
      collect cap rs (out ++ [r])

variable {rs out : List Region}

lemma collect_append {rs' : List Region} : collect cap (rs ++ rs') out = collect cap rs out >>=
    collect cap rs' := by
  induction rs generalizing out with
  | nil => rfl
  | cons r rs ih => simp only [cons_append, collect, ih, bind_bind]

lemma collect_room {new : List Region} (h : out.length ≤ cap) :
    collect cap rs (out ++ new) = collect (cap - out.length) rs new >>= fun new => pure (out ++ new) := by
  induction rs generalizing new with
  | nil => rfl
  | cons r rs ih =>
    have hroom : (out ++ new).length < cap ↔ new.length < cap - out.length := by
      rw [length_append]
      omega
    simp only [collect, hroom, append_assoc, ih, bind_bind]

lemma collect_eq (h : ∀ r ∈ rs, r.Bounded) (hcap : out.length + rs.length ≤ cap) :
    collect cap rs out = ok (out ++ rs) := by
  induction rs generalizing out with
  | nil => rw [append_nil]; rfl
  | cons r rs ih =>
    obtain ⟨hr, hrs⟩ := forall_mem_cons.mp h
    rw [length_cons] at hcap
    have hfits : (out ++ [r]).length + rs.length ≤ cap := by
      rw [length_append, length_singleton]
      omega
    rw [Region.Bounded] at hr
    rw [collect, ensure_bind hr, ensure_bind (by omega), ih hrs hfits, append_assoc]
    rfl

lemma collect_ne_panic : collect cap rs out ≠ panic := by
  induction rs generalizing out with
  | nil => exact fun h => by cases h
  | cons r rs ih =>
    rw [collect, ensure, ensure]
    split_ifs
    · exact ih
    all_goals exact fun h => by cases h

lemma length_collect {out' : List Region} (h : collect cap rs out = ok out') (hout : out.length ≤ cap) :
    out'.length ≤ cap := by
  induction rs generalizing out with
  | nil =>
    cases h
    exact hout
  | cons r rs ih =>
    obtain ⟨-, h⟩ := ensure_bind_eq_ok.mp h
    obtain ⟨hroom, h⟩ := ensure_bind_eq_ok.mp h
    exact ih h (by rw [length_append]; exact hroom)

lemma eq_append_of_collect {out' : List Region} (h : collect cap rs out = ok out') : out' = out ++ rs := by
  induction rs generalizing out with
  | nil =>
    cases h
    rw [append_nil]
  | cons r rs ih =>
    obtain ⟨-, h⟩ := ensure_bind_eq_ok.mp h
    obtain ⟨-, h⟩ := ensure_bind_eq_ok.mp h
    rw [ih h, append_assoc, singleton_append]

lemma collect_eq_error {all : List Region} {e : Error} (h : collect cap rs [] = .error e) (hle : rs <+: all) :
    collect cap all [] = .error e := by
  obtain ⟨rest, rfl⟩ := hle
  rw [collect_append, h, error_bind]

variable {pos : ℕ} {v : Bytes}

lemma cells_of_reads (hd : dtb.Sized) (h : dtb.Reads pos v) {off count : ℕ} (hin : off + 4 * count ≤ v.length) :
    dtb.cells (pos + off) count = ok (beVal (window v off (4 * count)) % 2 ^ 64) := by
  obtain ⟨hle, heq⟩ := h
  rw [cells_eq hd (by omega), ← window_window hin, heq]

lemma decodeFrom_eq (hd : dtb.Sized) (h : dtb.Reads pos v) (hc : c.Small) {left i fuel : ℕ}
    (hpair : 0 < c.pairBytes) (hleft : i + left = v.length / c.pairBytes) (hfuel : left < fuel) :
    dtb.decodeFrom c cap c.pairBytes (pos + v.length) fuel (pos + i * c.pairBytes) out =
      collect cap (((range' i left).map (pairAt c v)).filter fun r => r.size ≠ 0) out := by
  have hlength := hd.length_lt
  have hend := h.1
  have haddress := hc.address
  have hsize := hc.size
  have hbytes : c.pairBytes = (c.address + c.size) * 4 := rfl
  induction left generalizing i fuel out with
  | zero =>
    obtain ⟨fuel, rfl⟩ := exists_eq_succ_of_ne_zero (by omega : fuel ≠ 0)
    rw [add_zero] at hleft
    have hlast : v.length < i * c.pairBytes + c.pairBytes := by
      rw [← succ_mul, ← div_lt_iff_lt_mul hpair]
      omega
    have hstart : i * c.pairBytes ≤ v.length := (le_div_iff_mul_le hpair).mp hleft.le
    rw [decodeFrom, add_eq (by omega), ok_bind, if_neg (by omega)]
    rfl
  | succ left ih =>
    obtain ⟨fuel, rfl⟩ := exists_eq_succ_of_ne_zero (by omega : fuel ≠ 0)
    have hnext : i * c.pairBytes + c.pairBytes ≤ v.length := by
      rw [← succ_mul]
      exact (le_div_iff_mul_le hpair).mp (by omega)
    have hrest (out : List Region) :
        dtb.decodeFrom c cap c.pairBytes (pos + v.length) fuel (pos + i * c.pairBytes + c.pairBytes) out =
          collect cap (((range' (i + 1) left).map (pairAt c v)).filter fun r => r.size ≠ 0) out := by
      rw [add_assoc, ← succ_mul]
      exact ih (by omega) (by omega)
    rw [decodeFrom, add_eq (by omega), ok_bind, if_pos (by omega), cells_of_reads hd h (by omega), ok_bind,
      mul_eq (by omega), ok_bind, add_eq (by omega), ok_bind, add_assoc pos, cells_of_reads hd h (by omega),
      ok_bind]
    rw [range'_succ, map_cons]
    by_cases hzero : (pairAt c v i).size = 0
    · rw [filter_cons_of_neg (by rw [decide_eq_true_iff]; exact not_not_intro hzero), ← hrest]
      exact if_pos hzero
    · rw [filter_cons_of_pos (by rw [decide_eq_true_iff]; exact hzero), collect, ← hrest]
      exact if_neg hzero

lemma decodeReg_eq (hd : dtb.Sized) (h : dtb.Reads pos v) (hc : c.Small) :
    dtb.decodeReg pos v.length c cap = collect cap (regPairs c v) [] := by
  have hlength := hd.length_lt
  have hend := h.1
  have haddress := hc.address
  have hsize := hc.size
  rw [decodeReg, add_eq (by omega), ok_bind, mul_eq (by omega), ok_bind]
  split_ifs with hzero
  · rw [regPairs, show c.pairBytes = 0 from hzero, Nat.div_zero]
    rfl
  · have hpair : 0 < c.pairBytes := pos_of_ne_zero hzero
    have hfuel : v.length / c.pairBytes < v.length + 1 := lt_succ_of_le (div_le_self _ _)
    rw [add_eq (by omega), ok_bind, regPairs, ← decodeFrom_eq hd h hc hpair (zero_add _) hfuel, zero_mul]
    rfl

end

section

def Cells.after (c : Cells) (ps : List Property) : Cells where
  address := ((lastOf (ascii "#address-cells") ps).map fun v => beVal (v.take 4)).getD c.address
  size := ((lastOf (ascii "#size-cells") ps).map fun v => beVal (v.take 4)).getD c.size

lemma Cells.Small.after (hc : c.Small) (ps : List Property) : (c.after ps).Small := by
  have hlt (o : Option Bytes) {n : ℕ} (hn : n < 2 ^ 32) : (o.map fun v => beVal (v.take 4)).getD n < 2 ^ 32 := by
    cases o with
    | none => exact hn
    | some v =>
      have hpow : 256 ^ (v.take 4).length ≤ 256 ^ 4 := Nat.pow_le_pow_right (by decide) (length_take_le _ _)
      exact (beVal_lt _).trans_le hpow
  exact ⟨hlt _ hc.address, hlt _ hc.size⟩

def cellsOf (ps : List Property) : Cells where
  address := ((lastOf (ascii "#address-cells") ps).map fun v => beVal (v.take 4)).getD 2
  size := ((lastOf (ascii "#size-cells") ps).map fun v => beVal (v.take 4)).getD 1

def CountsDeclared (ps : List Property) : Prop :=
  ∀ p ∈ ps, p.name.val = ascii "#address-cells" ∨ p.name.val = ascii "#size-cells" → 4 ≤ p.value.length

def isMemory (name : Bytes) : Prop := name = ascii "memory" ∨ ascii "memory@" <+: name

instance : DecidablePred isMemory := fun _ => inferInstanceAs (Decidable (_ ∨ _))

def nodePairs (c : Cells) (ps : List Property) : List Region :=
  (ps.filter fun p => p.name.val = ascii "reg").flatMap fun p => regPairs c p.value

def Forest.memoryPairs (c : Cells) (f : Forest) : List Region :=
  (f.tops.filter fun n => isMemory n.name.val).flatMap fun n => nodePairs c n.props

def Tree.memoryPairs (t : Tree) : List Region := t.children.memoryPairs (cellsOf t.root.props)

variable {ps qs : List Property}

lemma nodePairs_append : nodePairs c (ps ++ qs) = nodePairs c ps ++ nodePairs c qs := by
  rw [nodePairs, filter_append, flatMap_append]
  rfl

lemma nodePairs_concat {p : Property} : nodePairs c (qs ++ [p]) =
    nodePairs c qs ++ if p.name.val = ascii "reg" then regPairs c p.value else [] := by
  rw [nodePairs_append, nodePairs, nodePairs, filter_singleton]
  split_ifs with h
  · rw [decide_eq_true h]
    simp
  · rw [decide_eq_false h]
    rfl

lemma memoryPairs_node {head : Node} {children siblings : Forest} :
    (Forest.node head children siblings).memoryPairs c =
      (if isMemory head.name.val then nodePairs c head.props else []) ++ siblings.memoryPairs c := by
  rw [Forest.memoryPairs, Forest.tops, filter_cons]
  by_cases h : isMemory head.name.val
  · rw [decide_eq_true h, if_pos rfl, if_pos h]
    rfl
  · rw [decide_eq_false h, if_neg Bool.false_ne_true, if_neg h]
    rfl

lemma cellsOf_eq : cellsOf ps = Cells.after ⟨2, 1⟩ ps := rfl

lemma small_cellsOf : (cellsOf ps).Small := by
  have hdefault : Cells.Small ⟨2, 1⟩ := ⟨by decide, by decide⟩
  exact hdefault.after ps

lemma setCells_after (hd : dtb.Sized) {p : Property} {nameOff valueAt : ℕ}
    (hp : Located dtb p nameOff valueAt) (hcount : CountsDeclared (qs ++ [p])) :
    dtb.setCells p.name.val valueAt (c.after qs) = ok (c.after (qs ++ [p])) := by
  have hlen := hcount p (mem_append_right _ mem_cons_self)
  rw [setCells, Cells.after, Cells.after, lastOf_concat, lastOf_concat]
  by_cases haddress : p.name.val = ascii "#address-cells"
  · rw [if_pos haddress, be32_of_value hd hp.reads (hlen (.inl haddress)), ok_bind, if_pos haddress, haddress,
      if_neg (by decide)]
    rfl
  · rw [if_neg haddress, if_neg haddress]
    by_cases hsize : p.name.val = ascii "#size-cells"
    · rw [if_pos hsize, be32_of_value hd hp.reads (hlen (.inr hsize)), ok_bind, if_pos hsize]
      rfl
    · rw [if_neg hsize, if_neg hsize]
      rfl

lemma setCells_eq (hd : dtb.Sized) {p : Property} {nameOff valueAt : ℕ}
    (hp : Located dtb p nameOff valueAt) (hcount : CountsDeclared (qs ++ [p])) :
    dtb.setCells p.name.val valueAt (cellsOf qs) = ok (cellsOf (qs ++ [p])) := by
  rw [cellsOf_eq, cellsOf_eq]
  exact setCells_after hd hp hcount

lemma incr_eq {d : ℕ} (h : d + 1 < 2 ^ 31) : incr (d : ℤ) = ok ((d + 1 : ℕ) : ℤ) := if_pos (by omega)

lemma decr_eq {d : ℕ} : decr ((d + 1 : ℕ) : ℤ) = ok (d : ℤ) := by
  rw [decr, if_pos (by omega)]
  congr 1
  omega

variable {done : List Region → Prop} {fail : Error → Prop} {out : List Region} {d : ℕ} {m : Option ℤ} {c : Cells}

lemma memoryWalk_begin {nm : Bytes} (h : d + 1 < 2 ^ 31) : (dtb.memoryWalk cap).beginNode ⟨c, out, d, m⟩ nm =
    ok ⟨c, out, (d + 1 : ℕ), if d = 1 ∧ isMemory nm then some 2 else m⟩ := by
  rw [memoryWalk]
  dsimp only
  rw [incr_eq h, ok_bind]
  by_cases hd : d = 1
  · subst hd
    by_cases hnm : isMemory nm
    · rw [if_pos ⟨rfl, hnm⟩, if_pos ⟨rfl, hnm⟩]
      rfl
    · rw [if_neg fun h => hnm h.2, if_neg fun h => hnm h.2]
      rfl
  · rw [if_neg fun h => hd (by omega), if_neg fun h => hd h.1]
    rfl

lemma memoryWalk_end : (dtb.memoryWalk cap).endNode ⟨c, out, (d + 1 : ℕ), m⟩ =
    ok (.more ⟨c, out, d, if m = some ((d + 1 : ℕ) : ℤ) then none else m⟩) := by
  rw [memoryWalk]
  dsimp only
  rw [decr_eq]
  rfl

lemma memoryWalk_props (hone : d ≠ 1) (hm : m ≠ some (d : ℤ)) :
    Leads dtb (dtb.memoryWalk cap) done fail (· = ⟨c, out, d, m⟩) (ps.map .prop) ⟨c, out, d, m⟩ := by
  refine leads_props (I := fun _ (s : MemoryState) => s = ⟨c, out, d, m⟩)
    rfl fun qs p nameOff valueAt s _ hs hp => ?_
  subst hs
  rw [memoryWalk]
  dsimp only
  rw [hp.name, ok_bind, rootCells, if_neg (by omega), pure_bind', if_neg fun h => hm h.1]
  rfl

lemma memoryWalk_inside (f : Forest) (htwo : 2 ≤ d) (hm : ∀ x ∈ m, x = 2) (hheight : d + f.height < 2 ^ 31) :
    Leads dtb (dtb.memoryWalk cap) done fail (· = ⟨c, out, d, m⟩) f.tokens ⟨c, out, d, m⟩ := by
  induction f generalizing d with
  | nil => rfl
  | node head children siblings ihc ihs =>
    rw [Forest.height] at hheight
    have hne : m ≠ some ((d + 1 : ℕ) : ℤ) := fun h => by
      have := hm _ h
      omega
    rw [leads_node, memoryWalk_begin (by omega), if_neg (by omega), holds_ok]
    refine (memoryWalk_props (by omega) hne).onward ?_
    rintro _ rfl
    refine (ihc (by omega) (by omega)).onward ?_
    rintro _ rfl
    rw [memoryWalk_end, if_neg hne]
    exact ihs htwo (by omega)

def MemoryLeads (dtb : Dtb) (cap : ℕ) (all : List Region) (more : MemoryState → Prop) (ts : List Token)
    (s : MemoryState) : Prop :=
  Leads dtb (dtb.memoryWalk cap) (fun r => collect cap all [] = ok r) (fun e => collect cap all [] = .error e)
    more ts s

variable {all rs : List Region}

lemma memoryWalk_regs (hd : dtb.Sized) (hc : c.Small) (hall : rs ++ nodePairs c ps <+: all)
    (hout : collect cap rs [] = ok out) : MemoryLeads dtb cap all
      (fun s => ∃ out', collect cap (rs ++ nodePairs c ps) [] = ok out' ∧ s = ⟨c, out', 2, some 2⟩) (ps.map .prop)
      ⟨c, out, 2, some 2⟩ := by
  refine leads_props (I := fun qs (s : MemoryState) => ∃ out', collect cap (rs ++ nodePairs c qs) [] = ok out' ∧
    s = ⟨c, out', 2, some 2⟩) ⟨out, by rw [show nodePairs c [] = [] from rfl, append_nil, hout], rfl⟩
    fun qs p nameOff valueAt s hle hs hp => ?_
  obtain ⟨out', hout', rfl⟩ := hs
  have hfits := length_collect hout' (zero_le _)
  rw [memoryWalk]
  dsimp only
  rw [hp.name, ok_bind, rootCells, if_neg (by omega), pure_bind', nodePairs_concat]
  by_cases hreg : p.name.val = ascii "reg"
  · rw [if_pos hreg, if_pos ⟨rfl, hreg⟩, sub_eq hfits, ok_bind, decodeReg_eq hd hp.reads hc]
    have hcollect : collect cap (rs ++ (nodePairs c qs ++ regPairs c p.value)) [] =
        collect (cap - out'.length) (regPairs c p.value) [] >>= fun new => pure (out' ++ new) := by
      rw [← append_assoc, collect_append, hout', ok_bind, ← collect_room hfits, append_nil]
    cases hnew : collect (cap - out'.length) (regPairs c p.value) [] with
    | ok new =>
      rw [hnew] at hcollect
      exact ⟨out' ++ new, hcollect, rfl⟩
    | error e =>
      rw [hnew, error_bind] at hcollect
      refine collect_eq_error hcollect (List.IsPrefix.trans ?_ hall)
      obtain ⟨rest, rfl⟩ := hle
      refine (prefix_append_right_inj rs).mpr ?_
      have hqs : nodePairs c (qs ++ [p]) = nodePairs c qs ++ regPairs c p.value := by
        rw [nodePairs_concat, if_pos hreg]
      exact ⟨nodePairs c rest, by rw [← hqs, ← nodePairs_append]⟩
    | panic => exact absurd hnew collect_ne_panic
  · rw [if_neg hreg, if_neg fun h => hreg h.2, append_nil]
    exact ⟨out', hout', rfl⟩

lemma memoryWalk_forest (hd : dtb.Sized) (hc : c.Small) (f : Forest) (hheight : 1 + f.height < 2 ^ 31)
    (hall : rs ++ f.memoryPairs c <+: all) (hout : collect cap rs [] = ok out) : MemoryLeads dtb cap all
      (fun s => ∃ out', collect cap (rs ++ f.memoryPairs c) [] = ok out' ∧ s = ⟨c, out', 1, none⟩) f.tokens
      ⟨c, out, 1, none⟩ := by
  induction f generalizing rs out with
  | nil => exact ⟨out, by rw [show Forest.nil.memoryPairs c = [] from rfl, append_nil, hout], rfl⟩
  | node head children siblings _ ihs =>
    rw [Forest.height] at hheight
    rw [memoryPairs_node, ← append_assoc] at hall ⊢
    have hbegin : (dtb.memoryWalk cap).beginNode ⟨c, out, 1, none⟩ head.name.val =
        ok ⟨c, out, 2, if isMemory head.name.val then some 2 else none⟩ := by
      refine (memoryWalk_begin (d := 1) (by decide)).trans ?_
      simp
    have hend {out' : List Region} {m : Option ℤ} (hm : ∀ x ∈ m, x = 2) :
      (dtb.memoryWalk cap).endNode ⟨c, out', (2 : ℕ), m⟩ = ok (.more ⟨c, out', 1, none⟩) := by
      refine (memoryWalk_end (d := 1)).trans ?_
      cases m with
      | none => rfl
      | some x =>
        rw [hm x rfl]
        rfl
    rw [MemoryLeads, leads_node, hbegin, holds_ok]
    by_cases hmemory : isMemory head.name.val
    · rw [if_pos hmemory] at hall ⊢
      rw [if_pos hmemory]
      refine (memoryWalk_regs hd hc ((prefix_append _ _).trans hall) hout).onward ?_
      rintro _ ⟨out', hout', rfl⟩
      refine (memoryWalk_inside (d := 2) children le_rfl (by simp) (by omega)).onward ?_
      rintro _ rfl
      rw [hend (by simp)]
      exact ihs (by omega) hall hout'
    · rw [if_neg hmemory, append_nil] at hall ⊢
      rw [if_neg hmemory]
      refine (memoryWalk_props (d := 2) (by decide) (by simp)).onward ?_
      rintro _ rfl
      refine (memoryWalk_inside (d := 2) children le_rfl (by simp) (by omega)).onward ?_
      rintro _ rfl
      rw [hend (by simp)]
      exact ihs (by omega) hall hout

lemma memoryRegions_eq (hd : dtb.Sized) {t : Tree} (ht : dtb.Serialises t) (hheight : t.height < maxDepth)
    (hcounts : CountsDeclared t.root.props) : dtb.memoryRegions cap = collect cap t.memoryPairs [] := by
  have hmax : maxDepth = 16 := rfl
  rw [Tree.height] at hheight
  suffices h : (dtb.memoryRegions cap).Holds (fun r => collect cap t.memoryPairs [] = ok r)
      fun e => collect cap t.memoryPairs [] = .error e by
    cases hr : dtb.memoryRegions cap with
    | ok r => exact (h.of_ok hr).symm
    | error e => exact (h.of_error hr).symm
    | panic => exact absurd hr h.ne_panic
  refine walk_leads hd ht ?_
  have hbegin : (dtb.memoryWalk cap).beginNode ⟨⟨2, 1⟩, [], 0, none⟩ t.root.name.val =
    ok ⟨⟨2, 1⟩, [], 1, none⟩ := by
    refine (memoryWalk_begin (d := 0) (by decide)).trans ?_
    simp
  rw [leads_node, hbegin, holds_ok]
  refine (leads_props (I := fun qs (s : MemoryState) => s = ⟨cellsOf qs, [], 1, none⟩) rfl
    fun qs p nameOff valueAt s hle hs hp => ?_).onward ?_
  · subst hs
    have hcount : CountsDeclared (qs ++ [p]) := fun p hmem => hcounts p (hle.subset hmem)
    rw [memoryWalk]
    dsimp only
    rw [hp.name, ok_bind, rootCells, if_pos rfl, setCells_eq hd hp hcount, ok_bind, if_neg (by simp)]
    rfl
  · rintro _ rfl
    have hall : [] ++ t.children.memoryPairs (cellsOf t.root.props) <+: t.memoryPairs := prefix_refl _
    refine (memoryWalk_forest hd small_cellsOf t.children (by omega) hall rfl).onward ?_
    rintro _ ⟨out, hout, rfl⟩
    have hend : (dtb.memoryWalk cap).endNode ⟨cellsOf t.root.props, out, 1, none⟩ =
      ok (.more ⟨cellsOf t.root.props, out, 0, none⟩) := memoryWalk_end (d := 0)
    rw [hend]
    exact hout

end

theorem queries_answer_for_the_tree (bytes : Bytes) (dtb : Dtb) (t : Tree) (hparse : fromBytes bytes = ok dtb)
    (ht : dtb.Serialises t) (hheight : t.height < maxDepth) :
    (∀ start name, dtb.nodeProp start name = ok ((t.children.named start).bind fun n => firstOf name n.props)) ∧
    (∀ start name, dtb.nodePropInherited start name = ok
    ((t.children.lineage start [t.root]).bind (inheritedOf name))) ∧
      (∀ compat name, dtb.nodePropCompatible compat name =
        ok ((t.children.closing (isCompatible compat)).bind fun n => lastOf name n.props)) ∧
    (∀ phandle name, dtb.phandleProp phandle name =
      ok ((t.children.closing (hasPhandle phandle)).bind fun n => lastOf name n.props)) ∧
    (CountsDeclared t.root.props → ∀ cap, dtb.memoryRegions cap = collect cap t.memoryPairs [] ∧
      ((∀ r ∈ t.memoryPairs, r.Bounded) → t.memoryPairs.length ≤ cap →
        dtb.memoryRegions cap = ok t.memoryPairs)) := by
  have hd := (fromBytes_holds bytes).of_ok hparse
  have hlt : t.height < 2 ^ 64 := hheight.trans (by decide)
  refine ⟨fun start name => nodeProp_eq hd ht hlt, fun start name => nodePropInherited_eq hd ht hheight,
    fun compat name => matchWalk_eq hd (marks_compatible hd) ht hheight,
    fun phandle name => matchWalk_eq hd (marks_phandle hd) ht hheight, fun hcounts cap => ?_⟩
  have hregions : dtb.memoryRegions cap = collect cap t.memoryPairs [] := memoryRegions_eq hd ht hheight hcounts
  refine ⟨hregions, fun hbounded hfits => ?_⟩
  rw [hregions, collect_eq hbounded (by rwa [List.length_nil, Nat.zero_add])]
  rfl

section

variable (start size : ℕ)

def memoryTree : Tree where
  root := ⟨⟨[], by decide⟩, []⟩
  children := .node ⟨⟨ascii "memory", by decide⟩, [⟨⟨ascii "reg", by decide⟩, toBe 8 start ++ toBe 4 size⟩]⟩
    .nil .nil

def memoryStruct : Bytes :=
  toBe 4 fdtBeginNode ++ ([0] ++ ([0, 0, 0] ++ (toBe 4 fdtBeginNode ++ (ascii "memory" ++ [0] ++ ([0] ++
    (toBe 4 fdtProp ++ (toBe 4 12 ++ (toBe 4 0 ++ (toBe 8 start ++ toBe 4 size))) ++ (toBe 4 fdtEndNode ++
      (toBe 4 fdtEndNode ++ toBe 4 fdtEnd))))))))

def memoryBlob : Bytes :=
  [magic, 100, 40, 96, 40, 17, 17, 0, 4, 56].flatMap (toBe 4) ++ (memoryStruct start size ++ (ascii "reg" ++ [0]))

def memoryDtb : Dtb := ⟨memoryBlob start size, 40, 96, 40⟩

variable {start size}

lemma memoryDtb_serialises : (memoryDtb start size).Serialises (memoryTree start size) := by
  have hall : (memoryDtb start size).Reads 0 (memoryBlob start size) := ⟨(zero_add _).le, take_length⟩
  obtain ⟨-, hrest⟩ := reads_append.mp hall
  obtain ⟨hstruct, hstrings⟩ := reads_append.mp hrest
  have hname : (memoryDtb start size).Reads 96 (ascii "reg" ++ [0]) := by simpa
    [memoryStruct, ascii] using hstrings
  obtain ⟨hroot, hstruct⟩ := reads_append.mp hstruct
  obtain ⟨hempty, hstruct⟩ := reads_append.mp hstruct
  obtain ⟨-, hstruct⟩ := reads_append.mp hstruct
  obtain ⟨hnode, hstruct⟩ := reads_append.mp hstruct
  obtain ⟨hmemory, hstruct⟩ := reads_append.mp hstruct
  obtain ⟨-, hstruct⟩ := reads_append.mp hstruct
  obtain ⟨hprop, hstruct⟩ := reads_append.mp hstruct
  obtain ⟨hend, hstruct⟩ := reads_append.mp hstruct
  obtain ⟨hend', hfinish⟩ := reads_append.mp hstruct
  refine ⟨(memoryTree start size).tokens, rfl, 48, ⟨reads_append.mpr ⟨?_, ?_⟩, ?_⟩, 60,
    ⟨reads_append.mpr ⟨?_, ?_⟩, ?_⟩, 84, ⟨?_, ⟨0, by decide, ?_, hname⟩, ?_⟩, 88, ⟨?_, rfl⟩, 92, ⟨?_, rfl⟩, 96,
    ⟨?_, rfl⟩, trivial⟩
  · change (memoryDtb start size).Reads 40 _
    simpa using hroot
  · change (memoryDtb start size).Reads 44 [0]
    simpa using hempty
  · simp [memoryDtb, memoryTree, padded]
  · simpa using hnode
  · simpa using hmemory
  · simp [ascii, padded]
  · simp
  · simpa [ascii] using hprop
  · simp [padded]
  · simpa [ascii] using hend
  · simpa [ascii] using hend'
  · simpa [ascii] using hfinish

end

theorem queries_answer_for_the_tree_sample :
    fromBytes (memoryBlob 0x80000000 0x2000) = ok (memoryDtb 0x80000000 0x2000) ∧
      (memoryDtb 0x80000000 0x2000).memoryRegions 1 = ok [⟨0x80000000, 0x2000⟩] := by
  have hparse : fromBytes (memoryBlob 0x80000000 0x2000) = ok (memoryDtb 0x80000000 0x2000) := by decide +kernel
  obtain ⟨-, -, -, -, hregions⟩ := queries_answer_for_the_tree _ _ _ hparse memoryDtb_serialises (by decide)
  refine ⟨hparse, ?_⟩
  rw [(hregions (fun _ h => (nomatch h)) 1).1]
  decide +kernel

theorem memory_past_the_end_is_refused : fromBytes (memoryBlob (2 ^ 64 - 1) 1) = ok (memoryDtb (2 ^ 64 - 1) 1) ∧
    (memoryDtb (2 ^ 64 - 1) 1).Serialises (memoryTree (2 ^ 64 - 1) 1) ∧
      (memoryTree (2 ^ 64 - 1) 1).memoryPairs = [⟨2 ^ 64 - 1, 1⟩] ∧
        ∀ cap, (memoryDtb (2 ^ 64 - 1) 1).memoryRegions cap = .error .regionOverflow := by
  have hparse : fromBytes (memoryBlob (2 ^ 64 - 1) 1) = ok (memoryDtb (2 ^ 64 - 1) 1) := by decide +kernel
  have hd := (fromBytes_holds _).of_ok hparse
  refine ⟨hparse, memoryDtb_serialises, by decide +kernel, fun cap => ?_⟩
  have hpairs : (memoryTree (2 ^ 64 - 1) 1).memoryPairs = [⟨2 ^ 64 - 1, 1⟩] := by decide +kernel
  rw [memoryRegions_eq hd memoryDtb_serialises (by decide) fun _ h => (nomatch h), hpairs]
  rfl

end CrickerOs.Dtb
