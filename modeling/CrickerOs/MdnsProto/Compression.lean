import CrickerOs.MdnsProto.Message

namespace CrickerOs.MdnsProto

open Library Library.Bytes List

section

variable {msg l l' : Bytes} {off n : ℕ}

def At (msg : Bytes) (off : ℕ) (l : Bytes) : Prop := off + l.length ≤ msg.length ∧ window msg off l.length = l

lemma at_append : At msg off (l ++ l') ↔ At msg off l ∧ At msg (off + l.length) l' :=
  window_append_iff

lemma At.get (h : At msg off l) (hn : l.length = n) : get msg off n = .ok l := by
  subst hn
  rw [MdnsProto.get, if_pos h.1, h.2]

lemma At.getElem? {b : UInt8} (h : At msg off (b :: l)) : msg[off]? = some b := by
  have hget : (window msg off (b :: l).length)[0]? = some b := by
    rw [h.2]
    rfl
  rwa [getElem?_window, if_pos (length_pos_of_ne_nil (cons_ne_nil b l))] at hget

lemma at_window (h : off + n ≤ msg.length) : At msg off (window msg off n) := by
  rw [At, length_window h]
  exact ⟨h, rfl⟩

lemma at_byte {b : UInt8} (h : msg[off]? = some b) : At msg off [b] := by
  obtain ⟨hlt, heq⟩ := List.getElem?_eq_some_iff.mp h
  refine ⟨hlt, ?_⟩
  rw [window, drop_eq_getElem_cons hlt, heq]
  rfl

lemma at_end (msg l : Bytes) : At (msg ++ l) msg.length l := by
  refine ⟨by rw [length_append], ?_⟩
  rw [window, drop_left, take_length]

end

structure Label where
  bytes : Bytes
  pos : 0 < bytes.length
  bound : bytes.length < 64

def Label.encode (label : Label) : Bytes := UInt8.ofNat label.bytes.length :: label.bytes

def body (labels : List Label) : Bytes := labels.flatMap Label.encode

structure WireName where
  labels : List Label
  bound : (body labels).length < MAX_NAME_LEN

def WireName.encode (name : WireName) : Bytes := body name.labels ++ [0]

lemma Label.toNat_length (label : Label) : (UInt8.ofNat label.bytes.length).toNat = label.bytes.length := by
  have := label.bound
  rw [UInt8.toNat_ofNat']
  omega

variable {msg out : Bytes} {fence pos stop : ℕ} {ls : List Label}

def pointsAt (b b2 : UInt8) : ℕ := b.toNat % 64 * 256 + b2.toNat

/-- The labels that are read from a position on, along pointers that aim ever lower, and where the reading goes
on: behind the root or behind the first pointer. -/
inductive Spells (msg : Bytes) : ℕ → ℕ → List Label → ℕ → Prop
  | root {fence pos : ℕ} : msg[pos]? = some 0 → Spells msg fence pos [] (pos + 1)
  | label {fence pos stop : ℕ} {label : Label} {ls : List Label} : At msg pos label.encode →
      Spells msg fence (pos + label.encode.length) ls stop → Spells msg fence pos (label :: ls) stop
  | pointer {fence pos stop : ℕ} {b b2 : UInt8} {ls : List Label} : msg[pos]? = some b → b.toNat / 64 = 3 →
      msg[pos + 1]? = some b2 → pointsAt b b2 < fence → Spells msg (pointsAt b b2) (pointsAt b b2) ls stop →
      Spells msg fence pos ls (pos + 2)

lemma Spells.stop_le (h : Spells msg fence pos ls stop) : stop ≤ msg.length := by
  induction h with
  | root h => exact (List.getElem?_eq_some_iff.mp h).1
  | label _ _ ih => exact ih
  | pointer _ _ h => exact (List.getElem?_eq_some_iff.mp h).1

lemma Spells.mono {fence' : ℕ} (h : Spells msg fence pos ls stop) (hle : fence ≤ fence') :
    Spells msg fence' pos ls stop := by
  induction h with
  | root h => exact .root h
  | label hat _ ih => exact .label hat (ih hle)
  | pointer hb hc hb2 hlt h => exact .pointer hb hc hb2 (hlt.trans_le hle) h

lemma At.append {off : ℕ} {l : Bytes} (h : At msg off l) (more : Bytes) : At (msg ++ more) off l := by
  have hle := h.1
  refine ⟨by rw [length_append]; omega, ?_⟩
  rw [window, drop_append_of_le_length (by omega), take_append_of_le_length (by rw [length_drop]; omega)]
  exact h.2

lemma getElem?_more {b : UInt8} {more : Bytes} (h : msg[pos]? = some b) : (msg ++ more)[pos]? = some b := by
  rw [List.getElem?_append_left (List.getElem?_eq_some_iff.mp h).1, h]

lemma Spells.append (h : Spells msg fence pos ls stop) (more : Bytes) :
    Spells (msg ++ more) fence pos ls stop := by
  induction h with
  | root h => exact .root (getElem?_more h)
  | label hat _ ih => exact .label (hat.append more) ih
  | pointer hb hc hb2 hlt _ ih => exact .pointer (getElem?_more hb) hc (getElem?_more hb2) hlt ih

lemma body_cons (label : Label) : body (label :: ls) = label.encode ++ body ls := rfl

lemma Spells.lt_stop (h : Spells msg fence pos ls stop) : pos < stop := by
  induction h with
  | root => omega
  | label _ _ ih => omega
  | pointer => omega

lemma Spells.prepend {front : List Label} (h : Spells msg fence (pos + (body front).length) ls stop)
    (hat : At msg pos (body front)) : Spells msg fence pos (front ++ ls) stop := by
  induction front generalizing pos with
  | nil => exact h
  | cons label front ih =>
    rw [body_cons] at h hat
    rw [length_append, ← Nat.add_assoc] at h
    obtain ⟨hlabel, hat⟩ := at_append.mp hat
    exact .label hlabel (ih h hat)

section

variable {off : ℕ} {resume : Option ℕ} {r : Bytes × ℕ}

lemma decodeNameFrom_label {label : Label} (hat : At msg off label.encode)
    (hout : out.length + label.encode.length ≤ MAX_NAME_LEN) :
    decodeNameFrom msg MAX_NAME_LEN off fence resume out =
      decodeNameFrom msg MAX_NAME_LEN (off + label.encode.length) fence resume (out ++ label.encode) := by
  have hpos := label.pos
  have hbound := label.bound
  have hlen := label.toNat_length
  have hrest := (at_append.mp (show At msg off ([UInt8.ofNat label.bytes.length] ++ label.bytes) from hat)).2
  have hsize : label.encode.length = 1 + label.bytes.length := by
    rw [Label.encode, length_cons, Nat.add_comm]
  have hne : UInt8.ofNat label.bytes.length ≠ 0 := by
    intro hzero
    rw [hzero] at hlen
    simp at hlen
    omega
  rw [decodeNameFrom, hat.getElem?]
  simp only [hlen, if_neg hne, show label.bytes.length / 64 = 0 by omega, if_true]
  rw [length_singleton] at hrest
  rw [if_pos hrest.1, dif_neg (by omega), hrest.2, hsize, Nat.add_assoc]
  rfl

lemma Spells.decodes (h : Spells msg fence pos ls stop) (hout : out.length + (body ls).length < MAX_NAME_LEN) :
    decodeNameFrom msg MAX_NAME_LEN pos fence resume out = .ok (out ++ (body ls ++ [0]), resume.getD stop) := by
  induction h generalizing resume out with
  | root h =>
    rw [decodeNameFrom, h]
    have : out.length < MAX_NAME_LEN := by simpa [body] using hout
    simp [this, body]
  | @label fence pos stop label ls hat _ ih =>
    rw [body_cons, length_append] at hout
    rw [decodeNameFrom_label hat (by omega), ih (by rw [length_append]; omega), body_cons]
    simp only [append_assoc]
  | @pointer fence pos stop b b2 ls hb hc hb2 hlt _ ih =>
    rw [decodeNameFrom, hb]
    dsimp only
    rw [if_pos hc, hb2]
    dsimp only
    rw [dif_neg (show ¬ fence ≤ b.toNat % 64 * 256 + b2.toNat from not_le.mpr hlt)]
    exact ih hout

/-- Whatever is decoded was spelt out. -/
lemma spells_of_decodes (h : decodeNameFrom msg MAX_NAME_LEN pos fence resume out = .ok r) :
    ∃ ls stop, Spells msg fence pos ls stop ∧ r = (out ++ (body ls ++ [0]), resume.getD stop) ∧
      out.length + (body ls).length < MAX_NAME_LEN := by
  fun_induction decodeNameFrom msg MAX_NAME_LEN pos fence resume out with
  | case1 | case2 | case3 | case5 | case7 | case9 | case10 => cases h
  | case4 pos fence resume out b hb hc b2 hb2 target hlt ih =>
    obtain ⟨ls, stop, hspells, rfl, hlen⟩ := ih h
    exact ⟨ls, pos + 2, .pointer hb hc hb2 (not_le.mp hlt) hspells, rfl, hlen⟩
  | case6 pos fence resume out hcap hb =>
    cases h
    exact ⟨[], pos + 1, .root hb, by simp [body], by simpa [body] using hcap⟩
  | case8 pos fence resume out b hb _ hc hne hfits hcap ih =>
    obtain ⟨ls, stop, hspells, rfl, hlen⟩ := ih h
    have hpos : b.toNat ≠ 0 := fun hzero => hne (UInt8.toNat_inj.mp hzero)
    have hsize : (window msg (pos + 1) b.toNat).length = b.toNat := length_window hfits
    let label : Label := ⟨window msg (pos + 1) b.toNat, by omega, by omega⟩
    have henc : label.encode = b :: window msg (pos + 1) b.toNat := by
      rw [Label.encode, hsize, UInt8.ofNat_toNat]
    have hat : At msg pos label.encode := by
      rw [henc]
      exact (at_append (l := [b])).mpr ⟨at_byte hb, at_window hfits⟩
    refine ⟨label :: ls, stop, .label hat ?_, ?_, ?_⟩
    · rw [henc, length_cons, hsize, Nat.add_comm b.toNat, ← Nat.add_assoc]
      exact hspells
    · rw [body_cons, henc, append_assoc, append_assoc]
    · rw [body_cons, henc]
      rw [length_append] at hlen ⊢
      omega

lemma decodeName_eq {name : WireName} (hat : At msg off name.encode) :
    decodeName msg off = .ok (name.encode, off + name.encode.length) := by
  obtain ⟨hlabels, hroot⟩ := at_append.mp hat
  have hspells : Spells msg off _ _ _ := (Spells.root hroot.getElem?).prepend hlabels
  rw [append_nil] at hspells
  rw [decodeName, hspells.decodes (by simpa using name.bound), WireName.encode, length_append]
  rfl

end

/-- A point of a message from which labels can be read, and where the name that they end was written up to. -/
structure Place where
  pos : ℕ
  labels : List Label
  stop : ℕ

def places (stop : ℕ) : ℕ → List Label → List Label → List Place
  | pos, [], rest => [⟨pos, rest, stop⟩]
  | pos, label :: front, rest => ⟨pos, label :: front ++ rest, stop⟩ ::
      places stop (pos + label.encode.length) front rest

def pointerTo (target : ℕ) : Bytes := [UInt8.ofNat (192 + target / 256), UInt8.ofNat target]

/-- The messages that an encoder writes, with the places of the names and of their rests: other bytes, a name in
full, or the first labels of a name and then a pointer to an earlier place of the others. -/
inductive Encoded : Bytes → List Place → Prop
  | nil : Encoded [] []
  | other {msg : Bytes} {table : List Place} (l : Bytes) : Encoded msg table → Encoded (msg ++ l) table
  | plain {msg : Bytes} {table : List Place} (name : WireName) : Encoded msg table →
      Encoded (msg ++ (body name.labels ++ [0]))
        (places (msg.length + ((body name.labels).length + 1)) msg.length name.labels [] ++ table)
  | compressed {msg : Bytes} {table : List Place} (front : List Label) (earlier : Place) : Encoded msg table →
      earlier ∈ table → earlier.pos < 16384 → (body (front ++ earlier.labels)).length < MAX_NAME_LEN →
      Encoded (msg ++ (body front ++ pointerTo earlier.pos))
        (places (msg.length + ((body front).length + 2)) msg.length front earlier.labels ++ table)

def Place.Read (msg : Bytes) (p : Place) : Prop :=
  Spells msg p.pos p.pos p.labels p.stop ∧ (body p.labels).length < MAX_NAME_LEN

lemma Place.Read.append {p : Place} (h : p.Read msg) (more : Bytes) : p.Read (msg ++ more) :=
  ⟨h.1.append more, h.2⟩

lemma read_places {front rest : List Label} {p : Place} (hat : At msg pos (body front)) (hle : fence ≤ pos)
    (hrest : Spells msg fence (pos + (body front).length) rest stop)
    (hlen : (body (front ++ rest)).length < MAX_NAME_LEN) (hp : p ∈ places stop pos front rest) : p.Read msg := by
  have hall := (hrest.prepend hat).mono hle
  induction front generalizing pos with
  | nil =>
    cases mem_singleton.mp hp
    exact ⟨hall, hlen⟩
  | cons label front ih =>
    rcases mem_cons.mp hp with rfl | hp
    · exact ⟨hall, hlen⟩
    rw [body_cons] at hat hrest
    rw [cons_append, body_cons, length_append] at hlen
    rw [length_append, ← Nat.add_assoc] at hrest
    have hat := (at_append.mp hat).2
    exact ih hat (by omega) hrest (by omega) hp ((hrest.prepend hat).mono (by omega))

lemma Spells.behind_pointer {target : ℕ} (hat : At msg pos (pointerTo target)) (hlow : target < 16384)
    (hlt : target < fence) (h : Spells msg target target ls stop) : Spells msg fence pos ls (pos + 2) := by
  have haim : pointsAt (UInt8.ofNat (192 + target / 256)) (UInt8.ofNat target) = target := by
    rw [pointsAt, UInt8.toNat_ofNat', UInt8.toNat_ofNat']
    omega
  have hsecond := (at_append (l := [UInt8.ofNat (192 + target / 256)])).mp hat
  refine .pointer hat.getElem? ?_ hsecond.2.getElem? (haim.trans_lt hlt) (by rwa [haim])
  rw [UInt8.toNat_ofNat']
  omega

lemma Encoded.read {table : List Place} (h : Encoded msg table) : ∀ p ∈ table, p.Read msg := by
  induction h with
  | nil => nofun
  | other l _ ih => exact fun p hp => (ih p hp).append l
  | @plain msg table name _ ih =>
    intro p hp
    rcases mem_append.mp hp with hp | hp
    · obtain ⟨hfront, hroot⟩ := at_append.mp (at_end msg (body name.labels ++ [0]))
      refine read_places hfront le_rfl ?_ (by rw [append_nil]; exact name.bound) hp
      exact .root hroot.getElem?
    · exact (ih p hp).append _
  | @compressed msg table front earlier _ hmem hlow hlen ih =>
    intro p hp
    rcases mem_append.mp hp with hp | hp
    · obtain ⟨hfront, hptr⟩ := at_append.mp (at_end msg (body front ++ pointerTo earlier.pos))
      have hearlier := (ih earlier hmem).1
      have hlt := hearlier.lt_stop.trans_le hearlier.stop_le
      exact read_places hfront le_rfl (.behind_pointer hptr hlow hlt (hearlier.append _)) hlen hp
    · exact (ih p hp).append _

/-- Decoding ends for every message and offset: it accepts exactly the names that are spelt out there along
pointers that aim ever lower, and returns the name without compression and where it ends, inside the message.
Every name that an encoder wrote, and every rest of one, decodes to itself. -/
theorem compressed_names_decode :
    (∀ msg off out stop, decodeName msg off = .ok (out, stop) ↔
      ∃ name : WireName, out = name.encode ∧ Spells msg off off name.labels stop) ∧
    (∀ msg off out stop, decodeName msg off = .ok (out, stop) → out.length ≤ MAX_NAME_LEN ∧ off < stop ∧
    stop ≤ msg.length) ∧ ∀ msg table, Encoded msg table → ∀ p ∈ table,
    decodeName msg p.pos = .ok (body p.labels ++ [0], p.stop) := by
  have hiff : ∀ msg off out stop, decodeName msg off = .ok (out, stop) ↔
      ∃ name : WireName, out = name.encode ∧ Spells msg off off name.labels stop := by
    intro msg off out stop
    constructor
    · intro h
      obtain ⟨ls, stop, hspells, heq, hlen⟩ := spells_of_decodes h
      cases heq
      exact ⟨⟨ls, by simpa using hlen⟩, rfl, hspells⟩
    · rintro ⟨name, rfl, hspells⟩
      exact hspells.decodes (by simpa using name.bound)
  refine ⟨hiff, fun msg off out stop h => ?_, fun msg table h p hp => ?_⟩
  · obtain ⟨name, rfl, hspells⟩ := (hiff ..).mp h
    refine ⟨?_, hspells.lt_stop, hspells.stop_le⟩
    rw [WireName.encode, List.length_append]
    exact name.bound
  · obtain ⟨hspells, hlen⟩ := h.read p hp
    exact hspells.decodes (by simpa using hlen)

end CrickerOs.MdnsProto
