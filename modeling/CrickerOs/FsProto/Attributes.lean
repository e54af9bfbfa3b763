import CrickerOs.FsProto.Wire
import CrickerOs.Library.Acting

namespace CrickerOs.FsProto.Xattr

open Library Library.Bytes Function List Nat

def MAX_NAME : ℕ := 255

def MAX_VALUE : ℕ := 3072

def MAX_COUNT : ℕ := 16

def MAX_KIND : ℕ := 2 ^ 31 - 1

def specKind (w1 : UInt64) : ℕ := (w1 >>> 32).toNat

def specValueLen (w1 : UInt64) : ℕ := (w1 &&& 0xffff_ffff).toNat

def reply (kind valueLen : ℕ) : Int64 := Int64.ofNat (kind % (MAX_KIND + 1) * 2 ^ 32 + valueLen % 2 ^ 32)

def validName (name : Bytes) : Bool := 0 < name.length && name.length ≤ MAX_NAME && !name.contains 0

def listEncode (room : ℕ) (name : Bytes) : Option Bytes :=
  if !validName name ∨ room < 1 + name.length then none else some (UInt8.ofNat name.length :: name)

def listIter : ℕ → Bytes → List Bytes
  | 0, _ => []
  | _, [] => []
  | fuel + 1, head :: buf =>
    if head.toNat = 0 ∨ buf.length < head.toNat then []
    else buf.take head.toNat :: listIter fuel (buf.drop head.toNat)

structure Record where
  name : Bytes
  kind : ℕ
  value : Bytes
  deriving DecidableEq

namespace Store

def RECORD_HEADER : ℕ := 1 + 4 + 2

def recordLen (nameLen valueLen : ℕ) : ℕ := RECORD_HEADER + nameLen + valueLen

def MAX_BYTES : ℕ := MAX_COUNT * recordLen MAX_NAME MAX_VALUE

def hexDigit (nodeId i : ℕ) : UInt8 :=
  let nibble := nodeId / 16 ^ (7 - i) % 16
  if nibble < 10 then UInt8.ofNat (48 + nibble) else UInt8.ofNat (97 + nibble - 10)

def fileName (nodeId : ℕ) : Bytes := (List.range 8).map (hexDigit nodeId)

def iterFrom : ℕ → Bytes → List Record
  | 0, _ => []
  | fuel + 1, blob =>
    let nameLen := leVal (window blob 0 1)
    let kind := leVal (window blob 1 4)
    let valueLen := leVal (window blob 5 2)
    if blob.length < RECORD_HEADER ∨ nameLen = 0 ∨ blob.length < recordLen nameLen valueLen then []
    else ⟨window blob RECORD_HEADER nameLen, kind, window blob (RECORD_HEADER + nameLen) valueLen⟩ ::
      iterFrom fuel (blob.drop (recordLen nameLen valueLen))

def iter (blob : Bytes) : List Record := iterFrom blob.length blob

def get (blob name : Bytes) : Option (ℕ × Bytes) := ((iter blob).find? (·.name = name)).map fun r =>
    (r.kind, r.value)

def listFrom (room : ℕ) : List Record → Bytes
  | [] => []
  | r :: rs =>
    match listEncode room r.name with
    | some bytes => bytes ++ listFrom (room - bytes.length) rs
    | none => []

def list (blob : Bytes) (room : ℕ) : Bytes := listFrom room (iter blob)

def bytes (r : Record) : Bytes := toLe 1 r.name.length ++ toLe 4 r.kind ++ toLe 2 r.value.length ++ r.name ++
    r.value

def writeRecord (room : ℕ) (r : Record) : Option Bytes :=
  if room < recordLen r.name.length r.value.length ∨ MAX_NAME < r.name.length ∨
    MAX_VALUE < r.value.length then none
  else some (bytes r)

def writeAll (room : ℕ) : List Record → Except Errno Bytes
  | [] => .ok []
  | r :: rs =>
    match writeRecord room r with
    | some b => do
        let rest ← writeAll (room - b.length) rs
        .ok (b ++ rest)
    | none => .error .ENOSPC

def set (blob : Bytes) (r : Record) (room : ℕ) : Except Errno Bytes :=
  if !validName r.name then .error .ERANGE
  else if MAX_VALUE < r.value.length then .error .E2BIG
  else if MAX_KIND < r.kind then .error .EINVAL
  else do
    let used ← writeAll room ((iter blob).map fun r' => if r'.name = r.name then r else r')
    if (iter blob).any (·.name = r.name) then .ok used
    else if MAX_COUNT ≤ (iter blob).length then .error .ENOSPC
    else do
      let last ← writeAll (room - used.length) [r]
      .ok (used ++ last)

def remove (blob name : Bytes) (room : ℕ) : Except Errno Bytes :=
  if !validName name then .error .ERANGE
  else do
    let used ← writeAll room ((iter blob).filter (·.name ≠ name))
    if (iter blob).any (·.name = name) then .ok used else .error .ENODATA

structure Valid (r : Record) : Prop where
  name : validName r.name = true
  value : r.value.length ≤ MAX_VALUE
  kind : r.kind ≤ MAX_KIND

def encode (rs : List Record) : Bytes := rs.flatMap bytes

variable {r : Record} {rs : List Record} {room fuel : ℕ} {rest : Bytes}

lemma encode_cons : encode (r :: rs) = bytes r ++ encode rs := List.flatMap_cons ..

lemma encode_append {rs' : List Record} : encode (rs ++ rs') = encode rs ++ encode rs' := flatMap_append ..

lemma length_bytes : (bytes r).length = recordLen r.name.length r.value.length := by
  simp only [bytes, length_append, length_toLe, recordLen, RECORD_HEADER]

variable {name blob : Bytes}

lemma validName_length (h : validName name = true) : 0 < name.length ∧ name.length ≤ MAX_NAME := by
  simp only [validName, Bool.and_eq_true, decide_eq_true_eq] at h
  exact h.1

lemma Valid.length (h : Valid r) : 0 < r.name.length ∧ r.name.length ≤ MAX_NAME := validName_length h.name

lemma Valid.recordLen_le (h : Valid r) : recordLen r.name.length r.value.length ≤
    recordLen MAX_NAME MAX_VALUE := by
  have := h.length
  have := h.value
  unfold recordLen
  omega

lemma window_middle {α : Type} {l m l' : List α} {pos n : ℕ} (hpos : l.length = pos) (hn : m.length = n) :
    window (l ++ (m ++ l')) pos n = m := by
  rw [window, ← hpos, drop_left, ← hn, take_left]

lemma bytes_append :
    bytes r ++ rest = toLe 1 r.name.length ++ (toLe 4 r.kind ++
      (toLe 2 r.value.length ++ (r.name ++ (r.value ++ rest)))) := by
  simp only [bytes, append_assoc]

lemma header_bytes (h : Valid r) (rest : Bytes) : leVal (window (bytes r ++ rest) 0 1) = r.name.length ∧
    leVal (window (bytes r ++ rest) 1 4) = r.kind ∧ leVal (window (bytes r ++ rest) 5 2) = r.value.length := by
  have hlength := h.length
  have hvalue := h.value
  have hkind := h.kind
  unfold MAX_NAME at hlength
  unfold MAX_VALUE at hvalue
  unfold MAX_KIND at hkind
  rw [bytes_append]
  refine ⟨?_, ?_, ?_⟩
  · rw [← nil_append (toLe 1 r.name.length), append_assoc, window_middle length_nil length_toLe, leVal_toLe]
    exact mod_eq_of_lt (by omega)
  · rw [window_middle length_toLe length_toLe, leVal_toLe]
    exact mod_eq_of_lt (by omega)
  · rw [← append_assoc, window_middle (by simp) length_toLe, leVal_toLe]
    exact mod_eq_of_lt (by omega)

lemma iterFrom_bytes (h : Valid r) : iterFrom (fuel + 1) (bytes r ++ rest) = r :: iterFrom fuel rest := by
  obtain ⟨hnameLen, hkind, hvalueLen⟩ := header_bytes h rest
  have hname : window (bytes r ++ rest) RECORD_HEADER r.name.length = r.name := by
    rw [bytes_append, ← append_assoc, ← append_assoc, window_middle (by simp [RECORD_HEADER]) rfl]
  have hval : window (bytes r ++ rest) (RECORD_HEADER + r.name.length) r.value.length = r.value := by
    rw [bytes_append, ← append_assoc, ← append_assoc, ← append_assoc,
      window_middle (by simp [RECORD_HEADER]; omega) rfl]
  have hdrop : (bytes r ++ rest).drop (recordLen r.name.length r.value.length) = rest := by
    rw [← length_bytes, drop_left]
  have hlength := h.length
  rw [iterFrom, hnameLen, hkind, hvalueLen, hname, hval, hdrop, if_neg]
  rw [length_append, length_bytes, recordLen, RECORD_HEADER]
  omega

lemma iterFrom_nil : iterFrom fuel [] = [] := by
  cases fuel with
  | zero => rfl
  | succ fuel => rw [iterFrom, if_pos (Or.inl (by decide))]

lemma iterFrom_encode (h : ∀ r ∈ rs, Valid r) (hfuel : rs.length ≤ fuel) : iterFrom fuel (encode rs) = rs := by
  induction rs generalizing fuel with
  | nil => exact iterFrom_nil
  | cons r rs ih =>
    obtain ⟨hr, hrs⟩ := forall_mem_cons.mp h
    obtain ⟨fuel, rfl⟩ := exists_eq_succ_of_ne_zero (ne_zero_of_lt (lt_of_lt_of_le (succ_pos _) hfuel))
    rw [encode_cons, iterFrom_bytes hr, ih hrs (le_of_succ_le_succ hfuel)]

lemma length_le_encode : rs.length ≤ (encode rs).length := by
  induction rs with
  | nil => exact le_refl _
  | cons r rs ih =>
    rw [encode_cons, length_append, length_bytes, length_cons, recordLen, RECORD_HEADER]
    omega

lemma iter_encode (h : ∀ r ∈ rs, Valid r) : iter (encode rs) = rs := iterFrom_encode h length_le_encode

lemma length_encode_le (h : ∀ r ∈ rs, Valid r) : (encode rs).length ≤ rs.length *
    recordLen MAX_NAME MAX_VALUE := by
  induction rs with
  | nil => exact zero_le _
  | cons r rs ih =>
    obtain ⟨hr, hrs⟩ := forall_mem_cons.mp h
    have := ih hrs
    have := hr.recordLen_le
    rw [encode_cons, length_append, length_bytes, length_cons, succ_mul]
    omega

lemma writeRecord_eq (h : Valid r) (hroom : (bytes r).length ≤ room) : writeRecord room r = some (bytes r) := by
  have := h.length
  have := h.value
  rw [length_bytes] at hroom
  rw [writeRecord, if_neg (by omega)]

lemma writeAll_eq (h : ∀ r ∈ rs, Valid r) (hroom : (encode rs).length ≤ room) :
    writeAll room rs = .ok (encode rs) := by
  induction rs generalizing room with
  | nil => rfl
  | cons r rs ih =>
    obtain ⟨hr, hrs⟩ := forall_mem_cons.mp h
    rw [encode_cons, length_append] at hroom
    rw [writeAll, writeRecord_eq hr (by omega)]
    dsimp only
    rw [ih hrs (by omega), encode_cons]
    rfl

lemma writeAll_ok {b : Bytes} (h : writeAll room rs = .ok b) : b = encode rs := by
  induction rs generalizing room b with
  | nil => exact (Except.ok.inj h).symm
  | cons r rs ih =>
    rw [writeAll, writeRecord] at h
    by_cases hroom : room < recordLen r.name.length r.value.length ∨ MAX_NAME < r.name.length ∨
      MAX_VALUE < r.value.length
    · rw [if_pos hroom] at h
      cases h
    · rw [if_neg hroom] at h
      obtain ⟨rest, hrest, hb⟩ := Result.exists_of_bind_eq_ok h
      rw [encode_cons, ← ih hrest]
      exact (Except.ok.inj hb).symm

def attr (rs : List Record) (name : Bytes) : Option (ℕ × Bytes) :=
  (rs.find? (·.name = name)).map fun r => (r.kind, r.value)

lemma get_encode (h : ∀ r ∈ rs, Valid r) : get (encode rs) name = attr rs name := by
  rw [get, iter_encode h, attr]

structure Held (rs : List Record) : Prop where
  valid : ∀ r ∈ rs, Valid r
  nodup : (rs.map (·.name)).Nodup
  count : rs.length ≤ MAX_COUNT

lemma Held.nil : Held [] := ⟨forall_mem_nil _, nodup_nil, zero_le _⟩

lemma Held.length_encode_le (h : Held rs) : (encode rs).length ≤ MAX_BYTES :=
  (Store.length_encode_le h.valid).trans (mul_le_mul_right _ h.count)

def replaced (rs : List Record) (r : Record) : List Record := rs.map fun r' => if r'.name = r.name then r else r'

lemma map_name_replaced : (replaced rs r).map (·.name) = rs.map (·.name) := by
  rw [replaced, map_map]
  apply map_congr_left
  intro r' _
  dsimp only [comp]
  split_ifs with h
  · exact h.symm
  · rfl

lemma length_replaced : (replaced rs r).length = rs.length := length_map _

lemma valid_replaced (h : ∀ r ∈ rs, Valid r) (hr : Valid r) : ∀ r' ∈ replaced rs r, Valid r' := by
  intro r' hr'
  obtain ⟨r₀, hr₀, rfl⟩ := mem_map.mp hr'
  split_ifs
  · exact hr
  · exact h r₀ hr₀

lemma replaced_eq_self (h : ¬ rs.any (·.name = r.name)) : replaced rs r = rs := by
  apply (map_congr_left fun r' hr' => ?_).trans (map_id rs)
  rw [if_neg, id]
  intro hname
  exact h (any_eq_true.mpr ⟨r', hr', decide_eq_true hname⟩)

lemma length_encode_replaced (h : (rs.map (·.name)).Nodup) :
    (encode (replaced rs r)).length ≤ (encode rs).length + (bytes r).length := by
  induction rs with
  | nil => exact zero_le _
  | cons r' rs ih =>
    rw [map_cons, nodup_cons] at h
    obtain ⟨hnew, h⟩ := h
    rw [replaced, map_cons, encode_cons, encode_cons, length_append, length_append]
    split_ifs with hname
    · have hrest : rs.map (fun r' => if r'.name = r.name then r else r') = rs := by
        apply replaced_eq_self
        rw [any_eq_true]
        rintro ⟨r₀, hr₀, h₀⟩
        exact hnew (mem_map.mpr ⟨r₀, hr₀, (of_decide_eq_true h₀).trans hname.symm⟩)
      rw [hrest]
      omega
    · have := ih h
      rw [replaced] at this
      omega

lemma attr_cons {r' : Record} :
    attr (r' :: rs) name = if r'.name = name then some (r'.kind, r'.value) else attr rs name := by
  rw [attr, find?_cons]
  split_ifs with h
  · rw [decide_eq_true h, Option.map_some]
  · rw [decide_eq_false h, attr]

lemma attr_replaced_self (h : rs.any (·.name = r.name)) :
    attr (replaced rs r) r.name = some (r.kind, r.value) := by
  induction rs with
  | nil => exact nomatch h
  | cons r' rs ih =>
    rw [replaced, map_cons, attr_cons]
    split_ifs with hname hself
    · rfl
    · exact absurd rfl hself
    · apply ih
      simpa [hname] using h

lemma attr_replaced_of_ne (h : name ≠ r.name) : attr (replaced rs r) name = attr rs name := by
  induction rs with
  | nil => rfl
  | cons r' rs ih =>
    rw [replaced, map_cons, attr_cons, attr_cons, ← replaced, ih]
    by_cases hname : r'.name = r.name
    · rw [if_pos hname, if_neg (Ne.symm h), if_neg (hname ▸ Ne.symm h)]
    · rw [if_neg hname]

lemma attr_append {rs' : List Record} : attr (rs ++ rs') name = (attr rs name).or (attr rs' name) := by
  rw [attr, find?_append, attr, attr]
  cases rs.find? (·.name = name) <;> simp

lemma attr_eq_none : attr rs name = none ↔ rs.any (·.name = name) = false := by
  rw [attr, Option.map_eq_none_iff, find?_eq_none, any_eq_false]

lemma attr_replaced (h : rs.any (·.name = r.name)) :
    attr (replaced rs r) = update (attr rs) r.name (some (r.kind, r.value)) := by
  funext name
  by_cases hname : name = r.name
  · rw [hname, attr_replaced_self h, update_self]
  · rw [attr_replaced_of_ne hname, update_of_ne hname]

lemma attr_concat (h : ¬ rs.any (·.name = r.name)) :
    attr (rs ++ [r]) = update (attr rs) r.name (some (r.kind, r.value)) := by
  funext name
  rw [attr_append, attr_cons]
  by_cases hname : name = r.name
  · rw [hname, attr_eq_none.mpr (Bool.eq_false_iff.mpr h), if_pos rfl, update_self, Option.none_or]
  · rw [if_neg (Ne.symm hname), update_of_ne hname]
    exact Option.or_none

def put (rs : List Record) (r : Record) : List Record := if rs.any (·.name = r.name) then replaced rs r
    else rs ++ [r]

lemma attr_put : attr (put rs r) = update (attr rs) r.name (some (r.kind, r.value)) := by
  rw [put]
  split_ifs with h
  · exact attr_replaced h
  · exact attr_concat h

lemma Held.put (hheld : Held rs) (hr : Valid r) (hcount : rs.any (·.name = r.name) ∨ rs.length < MAX_COUNT) :
    Held (put rs r) := by
  rw [Store.put]
  split_ifs with hany
  · refine ⟨valid_replaced hheld.valid hr, ?_, ?_⟩
    · rw [map_name_replaced]
      exact hheld.nodup
    · rw [length_replaced]
      exact hheld.count
  · refine ⟨?_, ?_, ?_⟩
    · intro r' hr'
      rcases mem_append.mp hr' with hr' | hr'
      · exact hheld.valid r' hr'
      · rwa [mem_singleton.mp hr']
    · rw [map_append, map_singleton, nodup_append]
      refine ⟨hheld.nodup, nodup_singleton _, ?_⟩
      rintro name hmem _ hsingle rfl
      obtain ⟨r', hr', rfl⟩ := mem_map.mp hmem
      exact hany (any_eq_true.mpr ⟨r', hr', decide_eq_true (mem_singleton.mp hsingle)⟩)
    · rw [length_append, length_singleton]
      exact hcount.resolve_left hany

lemma set_ok (hvalid : ∀ r ∈ rs, Valid r) (h : set (encode rs) r room = .ok blob) :
    Valid r ∧ (rs.any (·.name = r.name) ∨ rs.length < MAX_COUNT) ∧ blob = encode (put rs r) := by
  rw [set, iter_encode hvalid, ← replaced] at h
  by_cases hname : validName r.name = true
  · by_cases hvalue : MAX_VALUE < r.value.length
    · simp [hname, hvalue] at h
    by_cases hkind : MAX_KIND < r.kind
    · simp [hname, hvalue, hkind] at h
    rw [hname, if_neg (by decide), if_neg hvalue, if_neg hkind] at h
    have hr : Valid r := ⟨hname, not_lt.mp hvalue, not_lt.mp hkind⟩
    obtain ⟨used, hwrite, h⟩ := Result.exists_of_bind_eq_ok h
    rw [put]
    split_ifs at h ⊢ with hany hfull
    · exact ⟨hr, .inl hany, (Except.ok.inj h).symm.trans (writeAll_ok hwrite)⟩
    · obtain ⟨last, hlast, h⟩ := Result.exists_of_bind_eq_ok h
      refine ⟨hr, .inr (not_le.mp hfull), (Except.ok.inj h).symm.trans ?_⟩
      rw [writeAll_ok hwrite, replaced_eq_self hany, writeAll_ok hlast, ← encode_append]
  · simp [hname] at h

lemma set_eq (hheld : Held rs) (hroom : (encode rs).length + (bytes r).length ≤ room) (hr : Valid r)
    (hcount : rs.any (·.name = r.name) ∨ rs.length < MAX_COUNT) :
    set (encode rs) r room = .ok (encode (put rs r)) := by
  have hwrite := writeAll_eq (valid_replaced hheld.valid hr) ((length_encode_replaced hheld.nodup).trans hroom)
  rw [set, iter_encode hheld.valid, ← replaced, hr.name, if_neg (by decide), if_neg (not_lt.mpr hr.value),
    if_neg (not_lt.mpr hr.kind), hwrite, put]
  by_cases hany : rs.any (·.name = r.name)
  · rw [if_pos hany]
    exact if_pos hany
  · have hlast : writeAll (room - (encode rs).length) [r] = .ok (encode [r]) := by
      refine writeAll_eq (by simpa using hr) ?_
      rw [encode_cons, length_append]
      change _ + 0 ≤ _
      omega
    rw [if_neg hany, encode_append, replaced_eq_self hany]
    refine (if_neg hany).trans ((if_neg (not_le.mpr (hcount.resolve_left hany))).trans ?_)
    rw [hlast]
    rfl

lemma attr_filter : attr (rs.filter (·.name ≠ name)) = update (attr rs) name none := by
  funext name'
  by_cases hname : name' = name
  · rw [hname, update_self, attr_eq_none, any_eq_false]
    intro r hr
    have := (mem_filter.mp hr).2
    simpa using this
  · rw [update_of_ne hname, attr, find?_filter, attr]
    congr 2
    funext r
    by_cases h : r.name = name'
    · simp [h, hname]
    · simp [h]

lemma length_encode_filter {p : Record → Bool} : (encode (rs.filter p)).length ≤ (encode rs).length := by
  induction rs with
  | nil => exact le_refl _
  | cons r rs ih =>
    rw [filter_cons]
    split_ifs
    · rw [encode_cons, encode_cons, length_append, length_append]
      omega
    · rw [encode_cons, length_append]
      omega

lemma Held.filter {p : Record → Bool} (h : Held rs) : Held (rs.filter p) where
  valid r hr := h.valid r (mem_of_mem_filter hr)
  nodup := h.nodup.sublist (filter_sublist.map _)
  count := (length_filter_le _ _).trans h.count

lemma remove_ok (hvalid : ∀ r ∈ rs, Valid r) (h : remove (encode rs) name room = .ok blob) :
    blob = encode (rs.filter (·.name ≠ name)) := by
  rw [remove, iter_encode hvalid] at h
  by_cases hname : validName name = true
  · rw [hname, if_neg (by decide)] at h
    obtain ⟨used, hwrite, h⟩ := Result.exists_of_bind_eq_ok h
    split_ifs at h
    exact (Except.ok.inj h).symm.trans (writeAll_ok hwrite)
  · simp [hname] at h

lemma remove_eq (hheld : Held rs) (hroom : (encode rs).length ≤ room) (hname : validName name = true) :
    remove (encode rs) name room =
      if rs.any (·.name = name) then .ok (encode (rs.filter (·.name ≠ name))) else .error .ENODATA := by
  rw [remove, iter_encode hheld.valid, hname, if_neg (by decide),
    writeAll_eq hheld.filter.valid (length_encode_filter.trans hroom)]
  rfl

def nameBytes (name : Bytes) : Bytes := UInt8.ofNat name.length :: name

lemma listFrom_eq (h : ∀ r ∈ rs, Valid r) (hroom : (rs.flatMap fun r => nameBytes r.name).length ≤ room) :
    listFrom room rs = rs.flatMap fun r => nameBytes r.name := by
  induction rs generalizing room with
  | nil => rfl
  | cons r rs ih =>
    obtain ⟨hr, hrs⟩ := forall_mem_cons.mp h
    rw [flatMap_cons, length_append, nameBytes, length_cons] at hroom
    have hone : listEncode room r.name = some (nameBytes r.name) := by
      rw [listEncode, if_neg, nameBytes]
      rw [hr.name]
      simp
      omega
    rw [listFrom, hone]
    dsimp only
    rw [ih hrs, flatMap_cons]
    rw [nameBytes, length_cons]
    omega

lemma length_listing_le (h : Held rs) : (rs.flatMap fun r => nameBytes r.name).length ≤ PAGE := by
  have hsum : (rs.flatMap fun r => nameBytes r.name).length ≤ rs.length * 256 := by
    have hvalid := h.valid
    clear h
    induction rs with
    | nil => exact zero_le _
    | cons r rs ih =>
      obtain ⟨hr, hrs⟩ := forall_mem_cons.mp hvalid
      have := ih hrs
      have hlength := hr.length.2
      unfold MAX_NAME at hlength
      rw [flatMap_cons, length_append, nameBytes, length_cons, length_cons]
      omega
  have hcount := h.count
  unfold MAX_COUNT at hcount
  unfold PAGE
  omega

lemma listIter_listing {fuel : ℕ} (h : ∀ r ∈ rs, Valid r) (hfuel : rs.length ≤ fuel) :
    listIter fuel (rs.flatMap fun r => nameBytes r.name) = rs.map (·.name) := by
  induction rs generalizing fuel with
  | nil => cases fuel <;> rfl
  | cons r rs ih =>
    obtain ⟨hr, hrs⟩ := forall_mem_cons.mp h
    have hlength := hr.length
    unfold MAX_NAME at hlength
    obtain ⟨fuel, rfl⟩ := exists_eq_succ_of_ne_zero (ne_zero_of_lt (lt_of_lt_of_le (succ_pos _) hfuel))
    have hhead : (UInt8.ofNat r.name.length).toNat = r.name.length := by
      rw [UInt8.toNat_ofNat']
      omega
    rw [flatMap_cons, nameBytes, cons_append, listIter, hhead, if_neg, take_left, drop_left,
      ih hrs (le_of_succ_le_succ hfuel), map_cons]
    rw [length_append]
    omega

end Store

end CrickerOs.FsProto.Xattr
