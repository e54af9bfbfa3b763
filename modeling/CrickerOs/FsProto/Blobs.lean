import CrickerOs.FsProto.Attributes

namespace CrickerOs.FsProto.Xattr.Store

open Library Library.Bytes List Nat

variable {r : Record} {rs : List Record} {blob : Bytes}

inductive Reachable : Bytes → Prop
  | empty : Reachable []
  | set {blob blob' : Bytes} {r : Record} {room : ℕ} : Reachable blob → set blob r room = .ok blob' →
      Reachable blob'
  | remove {blob blob' name : Bytes} {room : ℕ} : Reachable blob → remove blob name room = .ok blob' →
      Reachable blob'

lemma Reachable.held (h : Reachable blob) : ∃ rs, blob = encode rs ∧ Held rs := by
  induction h with
  | empty => exact ⟨[], rfl, Held.nil⟩
  | set _ hset ih =>
    obtain ⟨rs, rfl, hheld⟩ := ih
    obtain ⟨hr, hcount, rfl⟩ := set_ok hheld.valid hset
    exact ⟨_, rfl, hheld.put hr hcount⟩
  | remove _ hremove ih =>
    obtain ⟨rs, rfl, hheld⟩ := ih
    exact ⟨_, remove_ok hheld.valid hremove, hheld.filter⟩

section

structure Bounded (blob : Bytes) : Prop where
  nodup : ((iter blob).map (·.name)).Nodup
  count : (iter blob).length ≤ MAX_COUNT
  size : blob.length ≤ MAX_BYTES

def refusal (blob : Bytes) (r : Record) : Option Errno :=
  if !validName r.name then some .ERANGE
  else if MAX_VALUE < r.value.length then some .E2BIG
  else if MAX_KIND < r.kind then some .EINVAL
  else if ¬ (iter blob).any (·.name = r.name) ∧ MAX_COUNT ≤ (iter blob).length then some .ENOSPC
  else none

lemma Held.bounded (h : Held rs) : Bounded (encode rs) := by
  refine ⟨?_, ?_, h.length_encode_le⟩
  · rw [iter_encode h.valid]
    exact h.nodup
  · rw [iter_encode h.valid]
    exact h.count

lemma refusal_eq_none (h : refusal blob r = none) :
    Valid r ∧ ((iter blob).any (·.name = r.name) ∨ (iter blob).length < MAX_COUNT) := by
  rw [refusal] at h
  split_ifs at h with hname hvalue hkind hfull
  refine ⟨⟨by simpa using hname, not_lt.mp hvalue, not_lt.mp hkind⟩, ?_⟩
  rcases not_and_or.mp hfull with hany | hcount
  · exact .inl (not_not.mp hany)
  · exact .inr (not_le.mp hcount)

lemma set_refused {e : Errno} {room : ℕ} (hheld : Held rs) (hroom : (encode rs).length ≤ room)
    (h : refusal (encode rs) r = some e) : set (encode rs) r room = .error e := by
  rw [refusal] at h
  rw [set]
  by_cases hname : (!validName r.name) = true
  · rw [if_pos hname] at h ⊢
    rw [Option.some.inj h]
  rw [if_neg hname] at h ⊢
  by_cases hvalue : MAX_VALUE < r.value.length
  · rw [if_pos hvalue] at h ⊢
    rw [Option.some.inj h]
  rw [if_neg hvalue] at h ⊢
  by_cases hkind : MAX_KIND < r.kind
  · rw [if_pos hkind] at h ⊢
    rw [Option.some.inj h]
  rw [if_neg hkind, iter_encode hheld.valid] at h ⊢
  split_ifs at h with hfull
  -- the name is new, so that the records are written as they were before there is found to be no room for one more
  rw [← replaced, replaced_eq_self hfull.1, writeAll_eq hheld.valid hroom, ← Option.some.inj h]
  exact (if_neg hfull.1).trans (if_pos hfull.2)

/-- A blob is a finite map with an order: `set` and `remove` change what they name and nothing else, no limit is
ever passed, and a buffer with room for one more record is all they need. -/
theorem blob_is_an_ordered_map {blob : Bytes} (h : Reachable blob) :
    Bounded blob ∧
    (∀ r room blob', set blob r room = .ok blob' →
      get blob' r.name = some (r.kind, r.value) ∧ (∀ name, name ≠ r.name → get blob' name = get blob name) ∧
      iter blob' = if (iter blob).any (·.name = r.name) then
        (iter blob).map (fun r' => if r'.name = r.name then r else r') else iter blob ++ [r]) ∧
    (∀ name room blob', remove blob name room = .ok blob' →
      get blob' name = none ∧ (∀ name', name' ≠ name → get blob' name' = get blob name') ∧
      iter blob' = (iter blob).filter (·.name ≠ name)) ∧
    (∀ r room, blob.length + recordLen r.name.length r.value.length ≤ room →
      match refusal blob r with
      | some e => set blob r room = .error e
      | none => ∃ blob', set blob r room = .ok blob') ∧
    ∀ name room, blob.length ≤ room → validName name = true →
      if (iter blob).any (·.name = name) then ∃ blob', remove blob name room = .ok blob'
      else remove blob name room = .error .ENODATA := by
  obtain ⟨rs, rfl, hheld⟩ := h.held
  have hiter := iter_encode hheld.valid
  refine ⟨hheld.bounded, ?_, ?_, ?_, ?_⟩
  · intro r room blob' hset
    obtain ⟨hr, hcount, rfl⟩ := set_ok hheld.valid hset
    have hput := (hheld.put hr hcount).valid
    rw [get_encode hput, iter_encode hput, hiter, attr_put, Function.update_self]
    refine ⟨rfl, fun name hname => ?_, rfl⟩
    rw [get_encode hput, get_encode hheld.valid, attr_put, Function.update_of_ne hname]
  · intro name room blob' hremove
    cases remove_ok hheld.valid hremove
    have hfilter := (hheld.filter (p := (·.name ≠ name))).valid
    rw [get_encode hfilter, iter_encode hfilter, hiter, attr_filter, Function.update_self]
    refine ⟨rfl, fun name' hname => ?_, rfl⟩
    rw [get_encode hfilter, get_encode hheld.valid, attr_filter, Function.update_of_ne hname]
  · intro r room hroom
    cases hrefusal : refusal (encode rs) r with
    | some e => exact set_refused hheld (by omega) hrefusal
    | none =>
      obtain ⟨hr, hcount⟩ := refusal_eq_none hrefusal
      rw [hiter] at hcount
      exact ⟨_, set_eq hheld (by rwa [length_bytes]) hr hcount⟩
  · intro name room hroom hname
    rw [remove_eq hheld hroom hname, hiter]
    split_ifs
    · exact ⟨_, rfl⟩
    · rfl

def twoAttributes : Bytes := bytes ⟨[97], 0, [98]⟩ ++ bytes ⟨[99], 7, [100, 101]⟩

def twoAttributesReplaced : Bytes := bytes ⟨[97], 1, [102, 103]⟩ ++ bytes ⟨[99], 7, [100, 101]⟩

lemma reachable_twoAttributes : Reachable twoAttributes :=
  @Reachable.set (bytes ⟨[97], 0, [98]⟩) _ ⟨[99], 7, [100, 101]⟩ 64
    (@Reachable.set [] _ ⟨[97], 0, [98]⟩ 64 .empty rfl) rfl

lemma set_twoAttributes : set twoAttributes ⟨[97], 1, [102, 103]⟩ 64 = .ok twoAttributesReplaced := rfl

theorem replaced_attribute_keeps_its_place : Bounded twoAttributes ∧
    get twoAttributesReplaced [97] = some (1, [102, 103]) ∧ get twoAttributesReplaced [99] = some (7, [100, 101]) ∧
    iter twoAttributesReplaced = [⟨[97], 1, [102, 103]⟩, ⟨[99], 7, [100, 101]⟩] ∧
    (∃ blob, remove twoAttributes [97] 64 = .ok blob) ∧ remove twoAttributes [98] 64 = .error .ENODATA := by
  obtain ⟨hbounded, hset, -, -, hremove⟩ := blob_is_an_ordered_map reachable_twoAttributes
  obtain ⟨hself, hothers, hiter⟩ := hset _ _ _ set_twoAttributes
  exact ⟨hbounded, hself, (hothers [99] (by decide)).trans rfl, hiter.trans rfl, hremove [97] 64 (by decide) rfl,
    hremove [98] 64 (by decide) rfl⟩

/-- The listing of a blob fits in a page, and what a client reads out of it are the names of all attributes. -/
theorem listing_names_each_attribute (h : Reachable blob) {room fuel : ℕ} (hroom : PAGE ≤ room)
    (hfuel : MAX_COUNT ≤ fuel) : (list blob room).length ≤ PAGE ∧
      listIter fuel (list blob room) = (iter blob).map (·.name) ∧ ∀ name, (get blob name).isSome ↔
      name ∈ listIter fuel (list blob room) := by
  obtain ⟨rs, rfl, hheld⟩ := h.held
  have hlist : list (encode rs) room = rs.flatMap fun r => nameBytes r.name := by
    rw [list, iter_encode hheld.valid]
    exact listFrom_eq hheld.valid ((length_listing_le hheld).trans hroom)
  have hread := listIter_listing hheld.valid (hheld.count.trans hfuel)
  rw [hlist, hread, iter_encode hheld.valid]
  refine ⟨length_listing_le hheld, rfl, fun name => ?_⟩
  simp [get, iter_encode hheld.valid]

theorem listing_after_a_replacement : listIter 16 (list twoAttributesReplaced PAGE) = [[97], [99]] ∧
    (get twoAttributesReplaced [97]).isSome := by
  obtain ⟨-, hlist, hget⟩ := listing_names_each_attribute (reachable_twoAttributes.set set_twoAttributes)
    le_rfl le_rfl
  have hnames := hlist.trans (show _ = [[97], [99]] from rfl)
  exact ⟨hnames, (hget [97]).mpr (hnames ▸ mem_cons_self)⟩

end

section

def zeroAfter (cut : ℕ) (blob : Bytes) : Bytes := blob.take cut ++ List.replicate (blob.length - cut) 0

structure ReadsAsPrefix (torn blob : Bytes) : Prop where
  iter : iter torn <+: iter blob
  get : ∀ name kv, get torn name = some kv → get blob name = some kv
  list : ∀ room, list torn room <+: list blob room

lemma listFrom_prefix {rs' : List Record} {room : ℕ} : listFrom room rs <+: listFrom room (rs ++ rs') := by
  induction rs generalizing room with
  | nil => exact nil_prefix
  | cons r rs ih =>
    rw [cons_append, listFrom, listFrom]
    cases listEncode room r.name with
    | none => exact prefix_rfl
    | some b => exact prefix_append_right_inj b |>.mpr ih

lemma readsAsPrefix {torn : Bytes} (h : iter torn <+: iter blob) : ReadsAsPrefix torn blob := by
  obtain ⟨rs', hrs'⟩ := h
  refine ⟨⟨rs', hrs'⟩, fun name kv hget => ?_, fun room => ?_⟩
  · change attr (iter blob) name = some kv
    change attr (iter torn) name = some kv at hget
    rw [← hrs', attr_append, hget, Option.some_or]
  · rw [list, list, ← hrs']
    exact listFrom_prefix

lemma window_take {α : Type} {l : List α} {pos n cut : ℕ} (h : pos + n ≤ cut) :
    window (l.take cut) pos n = window l pos n := by
  rw [window, window, drop_take, take_take, min_eq_left (by omega)]

lemma iterFrom_take {fuel cut : ℕ} (h : ∀ r ∈ rs, Valid r) : iterFrom fuel ((encode rs).take cut) <+: rs := by
  induction rs generalizing fuel cut with
  | nil => rw [encode, flatMap_nil, take_nil, iterFrom_nil]
  | cons r rs ih =>
    obtain ⟨hr, hrs⟩ := forall_mem_cons.mp h
    cases fuel with
    | zero => exact nil_prefix
    | succ fuel =>
      by_cases hcut : (bytes r).length ≤ cut
      · obtain ⟨more, rfl⟩ := Nat.exists_eq_add_of_le hcut
        rw [encode_cons, take_length_add_append, iterFrom_bytes hr]
        exact (prefix_cons_inj r).mpr (ih hrs)
      · obtain ⟨hname, -, hvalue⟩ := header_bytes hr (encode rs)
        have hlength : ((encode (r :: rs)).take cut).length ≤ cut := length_take_le _ _
        rw [length_bytes] at hcut
        rw [iterFrom, if_pos]
        · exact nil_prefix
        by_cases hheader : ((encode (r :: rs)).take cut).length < RECORD_HEADER
        · exact .inl hheader
        · unfold RECORD_HEADER at hheader
          rw [window_take (by omega), window_take (by omega), encode_cons, hname, hvalue, ← encode_cons]
          exact .inr (.inr (by omega))

lemma iterFrom_zeros {fuel n : ℕ} : iterFrom fuel (replicate n 0) = [] := by
  cases fuel with
  | zero => rfl
  | succ fuel =>
    have hzero : leVal (window (replicate n 0) 0 1) = 0 := by
      cases n with
      | zero => rfl
      | succ n => rfl
    rw [iterFrom, if_pos (.inr (.inl hzero))]

lemma iterFrom_encode_append {fuel : ℕ} {rest : Bytes} (h : ∀ r ∈ rs, Valid r) :
    iterFrom (rs.length + fuel) (encode rs ++ rest) = rs ++ iterFrom fuel rest := by
  induction rs with
  | nil => rw [encode, flatMap_nil, nil_append, length_nil, zero_add, nil_append]
  | cons r rs ih =>
    obtain ⟨hr, hrs⟩ := forall_mem_cons.mp h
    rw [encode_cons, append_assoc, length_cons, add_right_comm, iterFrom_bytes hr, ih hrs, cons_append]

lemma toLe_leVal {l : Bytes} {n : ℕ} (h : l.length = n) : toLe n (leVal l) = l := by
  refine leVal_injective (length_toLe.trans h.symm) ?_
  rw [leVal_toLe, mod_eq_of_lt (h ▸ leVal_lt l)]

/-- What is read as records stands at the front of the blob as the bytes of those records. -/
lemma encode_iterFrom_prefix (fuel : ℕ) (blob : Bytes) : encode (iterFrom fuel blob) <+: blob := by
  induction fuel generalizing blob with
  | zero => exact nil_prefix
  | succ fuel ih =>
    rw [iterFrom]
    split_ifs with hend
    · exact nil_prefix
    simp only [not_or, not_lt, recordLen, RECORD_HEADER] at hend
    obtain ⟨-, -, hfits⟩ := hend
    have hbytes : bytes ⟨window blob RECORD_HEADER (leVal (window blob 0 1)), leVal (window blob 1 4),
        window blob (RECORD_HEADER + leVal (window blob 0 1)) (leVal (window blob 5 2))⟩ =
          blob.take (recordLen (leVal (window blob 0 1)) (leVal (window blob 5 2))) := by
      have hfields : blob.take (recordLen (leVal (window blob 0 1)) (leVal (window blob 5 2))) = _ :=
        (@window_add _ blob 0 _ _).trans (congrArg (· ++ _) (window_add.trans (congrArg (· ++ _)
          (window_add.trans (congrArg (· ++ _) window_add)))))
      rw [bytes, length_window (by rw [RECORD_HEADER]; omega), length_window (by rw [RECORD_HEADER]; omega),
        toLe_leVal (length_window (by omega)), toLe_leVal (length_window (by omega)),
        toLe_leVal (length_window (by omega)), hfields]
      simp only [zero_add]
    conv_rhs => rw [← take_append_drop (recordLen (leVal (window blob 0 1)) (leVal (window blob 5 2))) blob]
    rw [encode_cons, hbytes]
    exact (prefix_append_right_inj _).mpr (ih _)

lemma take_encode_take (n : ℕ) : (encode rs).take (encode (rs.take n)).length = encode (rs.take n) := by
  conv_lhs => rw [← List.take_append_drop n rs, encode_append, List.take_append_drop]
  exact List.take_left

lemma length_zeroAfter {cut : ℕ} : (zeroAfter cut blob).length = blob.length := by
  rw [zeroAfter, length_append, length_take, length_replicate]
  omega

lemma getElem?_zeroAfter (cut : ℕ) {i : ℕ} :
    (zeroAfter cut blob)[i]? = if i < cut then blob[i]? else blob[i]?.map fun _ => 0 := by
  rw [zeroAfter, getElem?_append, length_take, getElem?_take, getElem?_replicate]
  by_cases hi : i < blob.length
  · rw [getElem?_eq_getElem hi]
    split_ifs <;> first | rfl | omega
  · rw [getElem?_eq_none (by omega)]
    split_ifs <;> first | rfl | omega

lemma zeroAfter_append {l l' : Bytes} {cut : ℕ} : zeroAfter (l.length + cut) (l ++ l') = l ++
    zeroAfter cut l' := by
  rw [zeroAfter, zeroAfter, take_length_add_append, length_append, Nat.add_sub_add_left, append_assoc]

lemma leVal_window_zeroAfter_le (blob : Bytes) (cut pos n : ℕ) :
    leVal (window (zeroAfter cut blob) pos n) ≤ leVal (window blob pos n) := by
  have hwindow : window (zeroAfter cut blob) pos n = zeroAfter (cut - pos) (window blob pos n) := by
    refine window_eq_of_getElem? (fun i hi => ?_) ?_
    · rw [getElem?_zeroAfter, getElem?_zeroAfter, getElem?_window, if_pos hi]
      exact if_congr (by omega) rfl rfl
    · rw [length_zeroAfter, window]
      exact length_take_le _ _
  have hzeros : ∀ n, leVal (replicate n 0) = 0 := fun n => by
    induction n with
    | zero => rfl
    | succ n ih => rw [replicate_succ, leVal, ih]; rfl
  rw [hwindow, zeroAfter, leVal_append, hzeros, mul_zero, add_zero]
  conv_rhs => rw [← take_append_drop (cut - pos) (window blob pos n), leVal_append]
  exact le_add_right _ _

/-- A cut behind the first byte of a record leaves the length of its name, and a value that is no longer. -/
lemma iterFrom_zeroAfter_ne_nil {fuel cut : ℕ} (hr : Valid r) (hcut : 0 < cut) :
    iterFrom (fuel + 1) (zeroAfter cut (encode (r :: rs))) ≠ [] := by
  obtain ⟨hname, -, hvalue⟩ := header_bytes hr (encode rs)
  rw [← encode_cons] at hname hvalue
  have hfirst : window (zeroAfter cut (encode (r :: rs))) 0 1 = window (encode (r :: rs)) 0 1 :=
    window_congr fun i _ hi => by rw [getElem?_zeroAfter, if_pos (by omega)]
  have hvalue' := leVal_window_zeroAfter_le (encode (r :: rs)) cut 5 2
  have hlength : recordLen r.name.length r.value.length ≤ (zeroAfter cut (encode (r :: rs))).length := by
    rw [length_zeroAfter, encode_cons, length_append, length_bytes]
    exact le_add_right _ _
  rw [hvalue] at hvalue'
  have hpos := hr.length.1
  unfold recordLen RECORD_HEADER at hlength
  rw [iterFrom, hfirst, hname, if_neg]
  · exact cons_ne_nil _ _
  · unfold recordLen RECORD_HEADER
    omega

lemma zeroAfter_of_reads {cut : ℕ} (h : ∀ r ∈ rs, Valid r) (hread : iter (zeroAfter cut (encode rs)) <+: rs) :
    ∃ n, zeroAfter cut (encode rs) = zeroAfter (encode (rs.take n)).length (encode rs) := by
  obtain ⟨n, hn⟩ : ∃ n, iter (zeroAfter cut (encode rs)) = rs.take n := ⟨_, prefix_iff_eq_take.mp hread⟩
  have hfront := encode_iterFrom_prefix (zeroAfter cut (encode rs)).length (zeroAfter cut (encode rs))
  rw [← iter, hn, prefix_iff_eq_take] at hfront
  by_cases hcut : cut ≤ (encode (rs.take n)).length
  · refine ⟨n, ext_getElem? fun i => ?_⟩
    rw [getElem?_zeroAfter (encode (rs.take n)).length]
    split_ifs with hi
    · have hat := congrArg (·[i]?) (hfront.symm.trans (take_encode_take n).symm)
      simpa only [getElem?_take, if_pos hi] using hat
    · rw [getElem?_zeroAfter, if_neg (by omega)]
  · obtain ⟨more, rfl⟩ := Nat.exists_eq_add_of_lt (Nat.lt_of_not_le hcut)
    -- what is left behind the records read begins with a record that is read as well
    cases hdrop : rs.drop n with
    | nil =>
      have htake : rs.take n = rs := take_of_length_le (drop_eq_nil_iff.mp hdrop)
      refine ⟨n, ?_⟩
      rw [htake, zeroAfter, zeroAfter, take_of_length_le (by omega), take_length, Nat.sub_self,
        Nat.sub_eq_zero_of_le (by omega)]
    | cons r rs' =>
      exfalso
      have hsplit : encode rs = encode (rs.take n) ++ encode (r :: rs') := by
        rw [← hdrop, ← encode_append, take_append_drop]
      have hlength : (zeroAfter ((encode (rs.take n)).length + more + 1) (encode rs)).length =
          (rs.take n).length + (((encode (rs.take n)).length - (rs.take n).length) + (bytes r).length +
            (encode rs').length) := by
        have := @length_le_encode (rs.take n)
        rw [length_zeroAfter, hsplit, length_append, encode_cons, length_append]
        omega
      have hr : Valid r := h r (mem_of_mem_drop (hdrop ▸ mem_cons_self))
      obtain ⟨fuel, hfuel⟩ : ∃ fuel, (encode (rs.take n)).length - (rs.take n).length + (bytes r).length +
          (encode rs').length = fuel + 1 := ⟨_, (succ_pred
            (by rw [length_bytes, recordLen, RECORD_HEADER]; omega)).symm⟩
      rw [iter, hlength, hfuel, hsplit, add_assoc, zeroAfter_append,
        iterFrom_encode_append fun r hr => h r (mem_of_mem_take hr)] at hn
      exact iterFrom_zeroAfter_ne_nil hr (succ_pos more) (append_right_eq_self.mp hn)

/-- A blob that was cut short reads as its first attributes; one with zeros behind the cut does if and only if it
has zeros from the end of some record on. -/
theorem torn_blob_invents_nothing {blob : Bytes} (h : Reachable blob) :
    (∀ cut, ReadsAsPrefix (blob.take cut) blob) ∧
    ∀ cut, ReadsAsPrefix (zeroAfter cut blob) blob ↔
      ∃ n, zeroAfter cut blob = zeroAfter (encode ((iter blob).take n)).length blob := by
  obtain ⟨rs, rfl, hheld⟩ := h.held
  have hiter := iter_encode hheld.valid
  refine ⟨fun cut => readsAsPrefix ?_, fun cut => ⟨fun hread => ?_, ?_⟩⟩
  · rw [hiter]
    exact iterFrom_take hheld.valid
  · have hprefix := hread.iter
    rw [hiter] at hprefix ⊢
    exact zeroAfter_of_reads hheld.valid hprefix
  · rintro ⟨n, hcut⟩
    refine readsAsPrefix ?_
    have hvalid : ∀ r ∈ rs.take n, Valid r := fun r hr => hheld.valid r (List.mem_of_mem_take hr)
    have hfuel : (zeroAfter cut (encode rs)).length = (rs.take n).length +
      ((encode rs).length - (rs.take n).length) := by
      have := length_take_le' n rs
      have := @length_le_encode rs
      rw [length_zeroAfter]
      omega
    rw [iter, hfuel, hcut, hiter, zeroAfter, take_encode_take, iterFrom_encode_append hvalid, iterFrom_zeros,
      append_nil]
    exact List.take_prefix n rs

theorem blob_torn_behind_its_first_record :
    ReadsAsPrefix (twoAttributes.take 11) twoAttributes ∧
    ReadsAsPrefix (zeroAfter 9 twoAttributes) twoAttributes :=
  have h := torn_blob_invents_nothing reachable_twoAttributes
  ⟨h.1 11, (h.2 9).mpr ⟨1, rfl⟩⟩

theorem zeroed_value_is_read : ∃ blob, set [] ⟨[97], 0, [98]⟩ 9 = .ok blob ∧ get blob [97] = some (0, [98]) ∧
    get (zeroAfter 8 blob) [97] = some (0, [0]) :=
  ⟨_, rfl, rfl, rfl⟩

end

end CrickerOs.FsProto.Xattr.Store
