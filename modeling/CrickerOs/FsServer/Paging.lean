import CrickerOs.FsServer.Server
import Mathlib.Data.List.Sort

namespace CrickerOs.FsServer

open Library Library.Result Library.Act FsProto List Option Nat

namespace Server

variable {I : Type} (E : Engine I)

/-- The records of one page after the other, `sizes` bytes each, until one holds none. The cursor travels as 32
bits. -/
def walk (handle : ℕ) (sizes : ℕ → ℕ) : (fuel page cursor : ℕ) → Server I → Option (List (Bytes × Bool))
  | 0, _, _, _ => none
  | fuel + 1, page, cursor, s =>
    match readDir E handle (cursor % 2 ^ 32) (sizes page) s with
    | (.error _, _) => none
    | (.ok reply, s) =>
      match Dirent.iter reply with
      | [] => some []
      | records => (walk handle sizes fuel (page + 1) (cursor + records.length) s).map (records ++ ·)

def fsReaddir (handle cursor : ℕ) (s : Server I) : Bytes × Server I :=
  match readDir E handle (cursor % 2 ^ 32) PAGE s with
  | (.error _, s) => ([], s)
  | (.ok reply, s) => (reply.take PAGE, s)

def fsNth (handle index : ℕ) : (fuel cursor : ℕ) → Server I → Option (Option (Bytes × Bool))
  | 0, _, _ => none
  | fuel + 1, cursor, s =>
    let (page, s) := fsReaddir E handle cursor s
    if page = [] then some none
    else
      let records := Dirent.iter page
      match (records.zipIdx cursor).find? (·.2 = index) with
      | some ((name, isDir), _) => some (some (name.take 255, isDir))
      | none => if records.length = 0 then some none else fsNth handle index fuel (cursor + records.length) s

/-- The handle names a directory that may be listed, and reading its entries and their nodes changes nothing. -/
structure Lists (s : Server I) (handle : ℕ) (children : List Row) (kind : ℕ → Kind) : Prop where
  dir : ∃ ptr rights, s.dirAt handle = .ok (ptr, rights) ∧ rights.allows Dir.ENUMERATE ∧
    E.childNodes ptr s.fs = (.ok children, s.fs)
  nodes : ∀ row ∈ children, ∃ node, E.readTree row.node s.fs = (.ok node, s.fs) ∧ node.kind = kind row.node
  tx : ∀ {f : Act I Errno Bytes} {bytes : Bytes}, f s.fs = (.ok bytes, s.fs) → E.tx f s.fs = (.ok bytes, s.fs)
  count : children.length < 2 ^ 32

def record (kind : ℕ → Kind) (row : Row) : Bytes × Bool := (row.bytes, kind row.node = .dir)

/-- A walk, in pages of any sizes that hold the largest record, finds each entry but the store once and in order,
and so does a lookup by index. -/
def ListsOnce (s : Server I) (handle : ℕ) (children : List Row) (kind : ℕ → Kind) : Prop :=
  ∃ entries : List Row, entries.Perm (children.filter (·.bytes ≠ STORE_DIR)) ∧
    entries.Pairwise (·.bytes ≤ ·.bytes) ∧ (∀ sizes : ℕ → ℕ,
      (∀ n, ∀ row ∈ entries, Dirent.recordLen row.bytes.length ≤ sizes n) →
      walk E handle sizes (entries.length + 1) 0 0 s = some (entries.map (record kind))) ∧
    ∀ index, fsNth E handle index (entries.length + 1) 0 s = some (entries[index]?.map (record kind))

section

variable {kind : ℕ → Kind} {entries : List Row} {room : ℕ}

lemma encode_fits {name : Bytes} (isDir : Bool) (hname : name.length ≤ 255)
    (hroom : Dirent.recordLen name.length ≤ room) : ∃ bytes, Dirent.encode room name isDir = some bytes :=
  ⟨_, if_neg (by omega)⟩

lemma length_of_encode {name bytes : Bytes} {isDir : Bool} (h : Dirent.encode room name isDir = some bytes) :
    bytes.length = name.length + 2 := by
  by_cases hfits : 255 < name.length ∨ room < Dirent.recordLen name.length
  · rw [Dirent.encode, if_pos hfits] at h
    cases h
  · rw [Dirent.encode, if_neg hfits] at h
    cases h
    rfl

def encodePage (kind : ℕ → Kind) (room : ℕ) : List Row → Bytes
  | [] => []
  | row :: entries =>
    match Dirent.encode room row.bytes (kind row.node = .dir) with
    | some record => record ++ encodePage kind (room - record.length) entries
    | none => []

lemma exists_iterFrom_encodePage {fuel : ℕ} (hfuel : (encodePage kind room entries).length ≤ fuel) :
    ∃ k, Dirent.iterFrom fuel (encodePage kind room entries) = (entries.take k).map (record kind) ∧
      (encodePage kind room entries ≠ [] → 0 < k) := by
  induction entries generalizing room fuel with
  | nil =>
    refine ⟨0, ?_, fun h => absurd rfl h⟩
    cases fuel <;> rfl
  | cons row rest ih =>
    rw [encodePage] at hfuel ⊢
    cases hbytes : Dirent.encode room row.bytes (kind row.node = .dir) with
    | none =>
      refine ⟨0, ?_, fun h => absurd rfl h⟩
      cases fuel <;> rfl
    | some bytes =>
      rw [hbytes] at hfuel
      have hlength := length_of_encode hbytes
      rw [length_append] at hfuel
      obtain ⟨fuel, rfl⟩ := Nat.exists_eq_add_of_le' (show 1 ≤ fuel by omega)
      obtain ⟨k, hiter, -⟩ := @ih (room - bytes.length) fuel (by omega)
      refine ⟨k + 1, ?_, fun _ => succ_pos k⟩
      rw [Dirent.iterFrom_encode hbytes, hiter, take_succ_cons, map_cons]
      rfl

lemma encodePage_ne_nil (hroom : ∀ row ∈ entries, Dirent.recordLen row.bytes.length ≤ room) (h : entries ≠ []) :
    encodePage kind room entries ≠ [] := by
  obtain ⟨row, rest, rfl⟩ := exists_cons_of_ne_nil h
  obtain ⟨bytes, hbytes⟩ := encode_fits (kind row.node = .dir) (row.short.trans (by decide))
    (hroom _ mem_cons_self)
  have hlength := length_of_encode hbytes
  rw [encodePage, hbytes]
  refine ne_nil_of_length_pos ?_
  rw [length_append]
  omega

lemma length_encodePage : (encodePage kind room entries).length ≤ room := by
  induction entries generalizing room with
  | nil => exact zero_le _
  | cons row rest ih =>
    rw [encodePage]
    cases hbytes : Dirent.encode room row.bytes (kind row.node = .dir) with
    | none => exact zero_le _
    | some bytes =>
      have hfits : ¬ (255 < row.bytes.length ∨ room < Dirent.recordLen row.bytes.length) := by
        intro hbad
        rw [Dirent.encode, if_pos hbad] at hbytes
        cases hbytes
      have hlength := length_of_encode hbytes
      have := @ih (room - bytes.length)
      rw [Dirent.recordLen] at hfits
      rw [length_append]
      omega

lemma recordLen_le_page (row : Row) : Dirent.recordLen row.bytes.length ≤ PAGE := by
  have := row.short
  rw [DIR_ENTRY_MAX_LENGTH] at this
  rw [Dirent.recordLen, PAGE]
  omega

end

section

variable {children : List Row}

lemma mem_of_mem_rows {row : Row} (h : row ∈ rows children) : row ∈ children :=
  mem_of_mem_filter ((mem_insertionSort _).mp h)

lemma name_eq {row : Row} (h : isUtf8 row.bytes = true) : row.name = some row.bytes := if_pos h

lemma rows_perm (h : ∀ row ∈ children, isUtf8 row.bytes = true) :
    (rows children).Perm (children.filter (·.bytes ≠ STORE_DIR)) := by
  have hfilter : children.filter (·.name ≠ some STORE_DIR) = children.filter (·.bytes ≠ STORE_DIR) := by
    refine filter_congr fun row hrow => ?_
    simp [name_eq (h row hrow)]
  rw [rows, hfilter]
  exact perm_insertionSort _ _

lemma rows_pairwise (h : ∀ row ∈ children, isUtf8 row.bytes = true) :
    (rows children).Pairwise (·.bytes ≤ ·.bytes) := by
  have htotal : Std.Total fun a b : Row => a.name.getD [] ≤ b.name.getD [] := ⟨fun _ _ => List.le_total _ _⟩
  have htrans : IsTrans Row fun a b => a.name.getD [] ≤ b.name.getD [] := ⟨fun _ _ _ => List.le_trans⟩
  have hsorted := pairwise_insertionSort (fun a b : Row => a.name.getD [] ≤ b.name.getD [])
    (children.filter (·.name ≠ some STORE_DIR))
  refine hsorted.imp_of_mem fun {a b} ha hb hab => ?_
  rwa [name_eq (h a (mem_of_mem_rows ha)), name_eq (h b (mem_of_mem_rows hb))] at hab

end

section

variable {E} {s : Server I} {handle cursor room : ℕ} {children entries : List Row} {kind : ℕ → Kind}

section

variable (h : s.Lists E handle children kind)
include h

lemma encodeEntries_eq (hentries : ∀ row ∈ entries, row ∈ children) :
    encodeEntries E room entries s.fs = (.ok (encodePage kind room (entries.filter (isUtf8 ·.bytes))), s.fs) := by
  induction entries generalizing room with
  | nil => rfl
  | cons row rest ih =>
    obtain ⟨hrow, hrest⟩ := forall_mem_cons.mp hentries
    rw [encodeEntries]
    by_cases hutf : isUtf8 row.bytes = true
    · obtain ⟨node, hnode, hkind⟩ := h.nodes row hrow
      rw [filter_cons, if_pos hutf, encodePage, name_eq hutf, ← hkind]
      refine (bind_ok hnode).trans ?_
      cases Dirent.encode room row.bytes (node.kind = .dir) with
      | none => rfl
      | some record => exact (bind_ok (ih hrest)).trans rfl
    · rw [filter_cons, if_neg hutf, Row.name, if_neg hutf]
      exact ih hrest

lemma readDir_eq : readDir E handle cursor room s =
    (.ok (encodePage kind room (((rows children).drop cursor).filter (isUtf8 ·.bytes))), s) := by
  obtain ⟨ptr, rights, hdir, hrights, hchildren⟩ := h.dir
  rw [readDir]
  refine (asks_bind_ok (a := ptr) ?_).trans ?_
  · rw [hdir, ok_bind]
    dsimp only
    rw [ensure, if_pos hrights, ok_bind]
  · have hentries := @encodeEntries_eq _ _ _ _ room _ ((rows children).drop cursor) _ h fun row hrow =>
      mem_of_mem_rows (mem_of_mem_drop hrow)
    rw [tx, h.tx ((bind_ok hchildren).trans hentries)]

lemma utf8_of_walk {sizes : ℕ → ℕ} {fuel page : ℕ} {out : List (Bytes × Bool)}
    (hwalk : walk E handle sizes fuel page cursor s = some out) : ∀ r ∈ out, isUtf8 r.1 = true := by
  induction fuel generalizing page cursor out with
  | zero => cases hwalk
  | succ fuel ih =>
    rw [walk, readDir_eq h] at hwalk
    dsimp only at hwalk
    obtain ⟨k, hiter, -⟩ := @exists_iterFrom_encodePage kind
      (((rows children).drop (cursor % 2 ^ 32)).filter (isUtf8 ·.bytes)) (sizes page) _ le_rfl
    rw [Dirent.iter, hiter] at hwalk
    split at hwalk
    · cases hwalk
      simp
    · obtain ⟨more, hmore, rfl⟩ := map_eq_some_iff.mp hwalk
      intro r hr
      rcases mem_append.mp hr with hr | hr
      · obtain ⟨row, hrow, rfl⟩ := mem_map.mp hr
        exact (mem_filter.mp (mem_of_mem_take hrow)).2
      · exact ih hmore r hr

lemma readDir_of_utf8 (hutf : ∀ row ∈ children, isUtf8 row.bytes = true) :
    readDir E handle cursor room s = (.ok (encodePage kind room ((rows children).drop cursor)), s) := by
  rw [readDir_eq h, filter_eq_self.mpr fun row hrow => hutf row (mem_of_mem_rows (mem_of_mem_drop hrow))]

end

/-- What one page says, and how far it takes the cursor. -/
lemma iter_encodePage (kind : ℕ → Kind) (hroom : ∀ row ∈ entries, Dirent.recordLen row.bytes.length ≤ room)
    (cursor : ℕ) : ∃ k, Dirent.iter (encodePage kind room (entries.drop cursor)) =
      ((entries.drop cursor).take k).map (record kind) ∧
      (((entries.drop cursor).take k).map (record kind)).length = min k (entries.length - cursor) ∧
      (entries.drop cursor ≠ [] → 0 < min k (entries.length - cursor) ∧
        encodePage kind room (entries.drop cursor) ≠ []) := by
  obtain ⟨k, hiter, hpos⟩ := @exists_iterFrom_encodePage kind (entries.drop cursor) room _ le_rfl
  refine ⟨k, hiter, by rw [length_map, length_take, length_drop], fun hne => ?_⟩
  have hpage := @encodePage_ne_nil kind _ _ (fun row hrow => hroom row (mem_of_mem_drop hrow)) hne
  have hleft : 0 < (entries.drop cursor).length := length_pos_of_ne_nil hne
  rw [length_drop] at hleft
  exact ⟨lt_min (hpos hpage) hleft, hpage⟩

lemma length_rows_le : (rows children).length ≤ children.length := by
  rw [rows, length_insertionSort]
  exact length_filter_le _ _

lemma walk_eq {sizes : ℕ → ℕ} {fuel page : ℕ} (h : s.Lists E handle children kind)
    (hutf : ∀ row ∈ children, isUtf8 row.bytes = true)
    (hsizes : ∀ n, ∀ row ∈ rows children, Dirent.recordLen row.bytes.length ≤ sizes n)
    (hcursor : cursor ≤ (rows children).length) (hfuel : (rows children).length - cursor < fuel) :
    walk E handle sizes fuel page cursor s = some (((rows children).drop cursor).map (record kind)) := by
  induction fuel generalizing page cursor with
  | zero => exact absurd hfuel (not_lt_zero _)
  | succ fuel ih =>
    have hcount := length_rows_le.trans_lt h.count
    obtain ⟨k, hiter, hlength, hpos⟩ := iter_encodePage kind (hsizes page) cursor
    rw [walk, mod_eq_of_lt (by omega), readDir_of_utf8 h hutf]
    dsimp only
    rw [hiter]
    by_cases hend : (rows children).drop cursor = []
    · rw [hend, take_nil, map_nil]
    · obtain ⟨hk, -⟩ := hpos hend
      obtain ⟨first, rest, hrecords⟩ := exists_cons_of_ne_nil (ne_nil_of_length_pos (hlength.symm ▸ hk))
      rw [hrecords]
      dsimp only
      rw [← hrecords, hlength, ih (by omega) (by omega), map_some, ← map_append, ← drop_drop]
      congr 2
      rcases le_total k ((rows children).length - cursor) with hle | hle
      · rw [min_eq_left hle, take_append_drop]
      · have hall : ((rows children).drop cursor).length ≤ k := by rwa [length_drop]
        rw [min_eq_right hle, take_of_length_le hall, ← length_drop, drop_length, append_nil]

lemma find?_zipIdx {α : Type} {l : List α} {n i : ℕ} (h : n ≤ i) :
    (l.zipIdx n).find? (·.2 = i) = l[i - n]?.map fun a => (a, i) := by
  induction l generalizing n with
  | nil => simp
  | cons a l ih =>
    rw [zipIdx_cons, find?_cons]
    by_cases hn : n = i
    · simp [hn]
    · obtain ⟨k, hk⟩ : ∃ k, i - n = k + 1 := exists_eq_succ_of_ne_zero (by omega)
      have hk' : i - (n + 1) = k := by omega
      rw [decide_eq_false hn, hk, ih (by omega), hk', getElem?_cons_succ]

section

variable (h : s.Lists E handle children kind)
include h

lemma fsReaddir_eq (hutf : ∀ row ∈ children, isUtf8 row.bytes = true)
    (hcursor : cursor < 2 ^ 32) :
    fsReaddir E handle cursor s = (encodePage kind PAGE ((rows children).drop cursor), s) := by
  rw [fsReaddir, mod_eq_of_lt hcursor, readDir_of_utf8 h hutf]
  dsimp only
  rw [take_of_length_le length_encodePage]

lemma fsNth_eq {index fuel : ℕ}
    (hutf : ∀ row ∈ children, isUtf8 row.bytes = true) (hcursor : cursor ≤ index)
    (hle : cursor ≤ (rows children).length) (hfuel : (rows children).length - cursor < fuel) :
    fsNth E handle index fuel cursor s = some ((rows children)[index]?.map (record kind)) := by
  induction fuel generalizing cursor with
  | zero => exact absurd hfuel (not_lt_zero _)
  | succ fuel ih =>
    have hcount := length_rows_le.trans_lt h.count
    obtain ⟨k, hiter, hlength, hpos⟩ :=
      iter_encodePage kind (fun row (_ : row ∈ rows children) => recordLen_le_page row) cursor
    rw [fsNth, fsReaddir_eq h hutf (by omega)]
    dsimp only
    by_cases hend : (rows children).drop cursor = []
    · have hout : (rows children).length ≤ index := (drop_eq_nil_iff.mp hend).trans hcursor
      rw [hend, encodePage, if_pos rfl, getElem?_eq_none hout, map_none]
    · obtain ⟨hk, hpage⟩ := hpos hend
      rw [if_neg hpage, hiter, find?_zipIdx hcursor, getElem?_map, getElem?_take, getElem?_drop,
        Nat.add_sub_cancel' hcursor]
      by_cases hin : index - cursor < k ∧ index < (rows children).length
      · obtain ⟨hlt, hindex⟩ := hin
        have hname := (rows children)[index].short
        rw [DIR_ENTRY_MAX_LENGTH] at hname
        rw [if_pos hlt, getElem?_eq_getElem hindex]
        dsimp only [map_some, record]
        rw [take_of_length_le (by omega)]
      · have hnone : (if index - cursor < k then (rows children)[index]? else none) = none := by
          split_ifs with hlt
          · exact getElem?_eq_none (by omega)
          · rfl
        rw [hnone, map_none, map_none]
        dsimp only
        rw [hlength, if_neg hk.ne', ih (by omega) (by omega) (by omega)]

lemma utf8_of_listsOnce (honce : s.ListsOnce E handle children kind) :
    ∀ row ∈ children, isUtf8 row.bytes = true := by
  obtain ⟨entries, hperm, -, hwalk, -⟩ := honce
  intro row hrow
  by_cases hstore : row.bytes = STORE_DIR
  · rw [hstore]
    decide +kernel
  · have hmem : row ∈ entries := hperm.mem_iff.mpr (mem_filter.mpr ⟨hrow, decide_eq_true hstore⟩)
    exact utf8_of_walk h (hwalk (fun _ => PAGE) fun _ row _ => recordLen_le_page row) _ (mem_map_of_mem hmem)

end

/-- A walk through a directory that stays as it is lists each of its names once if and only if all of them are
text. -/
theorem walk_lists_each_name_once (h : s.Lists E handle children kind) :
    s.ListsOnce E handle children kind ↔ ∀ row ∈ children, isUtf8 row.bytes = true := by
  refine ⟨utf8_of_listsOnce h, fun hutf => ?_⟩
  refine ⟨rows children, rows_perm hutf, rows_pairwise hutf, fun sizes hsizes => ?_, fun index => ?_⟩
  · exact walk_eq h hutf hsizes (zero_le _) (lt_succ_self _)
  · exact fsNth_eq h hutf (zero_le _) (zero_le _) (lt_succ_self _)

end

def kindIn (files : List (Row × Kind × Bytes)) (ptr : ℕ) : Kind :=
  ((files.find? (·.1.node = ptr)).map (·.2.1)).getD .file

lemma full_lists {files : List (Row × Kind × Bytes)} (hroot : ∀ file ∈ files, file.1.node ≠ rootPtr)
    (hcount : files.length < 2 ^ 32) :
    («open» ()).Lists (.full files) 0 (files.map (·.1)) (kindIn files) := by
  refine ⟨⟨rootPtr, _, rfl, rfl, rfl⟩, fun row hrow => ?_, id, by rwa [length_map]⟩
  obtain ⟨file, hfile, rfl⟩ := mem_map.mp hrow
  have hsome : (files.find? (·.1.node = file.1.node)).isSome := find?_isSome.mpr ⟨file, hfile, decide_eq_true rfl⟩
  obtain ⟨found, hfound⟩ := isSome_iff_exists.mp hsome
  refine ⟨⟨found.2.1, 1, found.2.2.length⟩, ?_, ?_⟩
  · simp only [Engine.full, asks, if_neg (hroot file hfile), hfound]
    rfl
  · rw [kindIn, hfound]
    rfl

def mixedRoot : List (Row × Kind × Bytes) :=
  [(⟨[98], 2, by decide⟩, .dir, []), (⟨STORE_DIR, 3, by decide⟩, .dir, []), (⟨[97], 4, by decide⟩, .file, []),
    (⟨[99, 99], 5, by decide⟩, .file, [])]

theorem three_names_over_three_pages :
    («open» ()).ListsOnce (.full mixedRoot) 0 (mixedRoot.map (·.1)) (kindIn mixedRoot) ∧
    walk (.full mixedRoot) 0 (fun _ => 5) 4 0 0 («open» ()) =
    some [([97], false), ([98], true), ([99, 99], false)] :=
  ⟨(walk_lists_each_name_once (full_lists (by decide +kernel) (by decide))).mpr
    (by decide +kernel), by decide +kernel⟩

/-- A name that no client can write, on a disk written elsewhere. -/
def foreignRoot : List (Row × Kind × Bytes) :=
  [(⟨[255], 2, by decide⟩, .file, []), (⟨[97], 3, by decide⟩, .file, []), (⟨[98], 4, by decide⟩, .file, [])]

theorem foreign_name_lists_another_twice :
    walk (.full foreignRoot) 0 (fun _ => PAGE) 4 0 0 («open» ()) =
    some [([97], false), ([98], false), ([98], false)] ∧
    fsNth (.full foreignRoot) 0 2 4 0 («open» ()) = some (some ([98], false)) ∧
    ¬ («open» ()).ListsOnce (.full foreignRoot) 0 (foreignRoot.map (·.1)) (kindIn foreignRoot) := by
  refine ⟨by decide +kernel, by decide +kernel, fun honce => ?_⟩
  have hutf := utf8_of_listsOnce (full_lists (by decide +kernel) (by decide)) honce
  revert hutf
  decide +kernel

end Server

end CrickerOs.FsServer
