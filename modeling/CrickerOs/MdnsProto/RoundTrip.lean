import CrickerOs.MdnsProto.Compression

namespace CrickerOs.MdnsProto

open Library Library.Bytes Builder List Nat

section

variable {msg : Bytes} {r : Reader} {v n : ℕ}

inductive Part
  | answer
  | authority
  | additional
  deriving DecidableEq

def Part.sec : Part → Section
  | answer => .answer
  | authority => .authority
  | additional => .additional

/-- A call of the builder: the section, the name, the type and the class, and for a record the time to live and
the data. -/
inductive Item
  | question (name : WireName) (qtype qclass : Fin (2 ^ 16))
  | record (part : Part) (name : WireName) (rrtype cls : Fin (2 ^ 16)) (ttl : Fin (2 ^ 32)) (rdata : Bytes)

def Item.sec : Item → Section
  | question .. => .question
  | record part .. => part.sec

def Item.encode : Item → Bytes
  | question name qtype qclass => name.encode ++ (toBe 2 qtype ++ toBe 2 qclass)
  | record _ name rrtype cls ttl rdata =>
    name.encode ++ (toBe 2 rrtype ++ (toBe 2 cls ++ (toBe 4 ttl ++ (toBe 2 rdata.length ++ rdata))))

lemma u16At_eq (hat : At r.msg v (toBe 2 n)) (hn : n < 2 ^ 16) : r.u16At v = .ok n := by
  rw [Reader.u16At, hat.get length_toBe]
  change Except.ok (beVal (toBe 2 n)) = _
  rw [beVal_toBe, mod_eq_of_lt (by omega)]

lemma question_eq {name : WireName} {qtype qclass : Fin (2 ^ 16)}
    (hat : At r.msg r.off (Item.question name qtype qclass).encode) :
    r.question = .ok (⟨name.encode, qtype, qclass⟩, { r with off :=
        r.off + (Item.question name qtype qclass).encode.length }) := by
  obtain ⟨hname, hrest⟩ := at_append.mp hat
  obtain ⟨htype, hclass⟩ := at_append.mp hrest
  rw [length_toBe] at hclass
  have hone := u16At_eq htype qtype.isLt
  have htwo := u16At_eq hclass qclass.isLt
  rw [add_assoc] at htwo
  simp only [Reader.question, decodeName_eq hname, hone, htwo, bind, Except.bind, pure, Except.pure, Item.encode,
    length_append, length_toBe, add_assoc]

lemma record_eq {part : Part} {name : WireName} {rrtype cls : Fin (2 ^ 16)} {ttl : Fin (2 ^ 32)} {rdata : Bytes}
    (hat : At r.msg r.off (Item.record part name rrtype cls ttl rdata).encode) (hdata : rdata.length < 2 ^ 16) :
    r.record = .ok (⟨name.encode, rrtype, cls, ttl, rdata, r.off + name.encode.length + 10⟩,
      { r with off := r.off + (Item.record part name rrtype cls ttl rdata).encode.length }) := by
  obtain ⟨hname, hrest⟩ := at_append.mp hat
  obtain ⟨htype, hrest⟩ := at_append.mp hrest
  obtain ⟨hclass, hrest⟩ := at_append.mp hrest
  obtain ⟨httl, hrest⟩ := at_append.mp hrest
  obtain ⟨hlen, hrdata⟩ := at_append.mp hrest
  simp only [length_toBe, add_assoc] at hclass httl hlen hrdata
  have hone := u16At_eq htype rrtype.isLt
  have htwo := u16At_eq hclass cls.isLt
  have hthree := httl.get length_toBe
  have hfour := u16At_eq hlen hdata
  have hfive := hrdata.get rfl
  have hval : beVal (toBe 4 ttl) = ttl := by
    rw [beVal_toBe, mod_eq_of_lt (by have := ttl.isLt; omega)]
  norm_num at hone htwo hthree hfour hfive
  simp only [Reader.record, decodeName_eq hname, bind, Except.bind, pure, Except.pure, add_assoc, hone, htwo,
    hthree, hfour, hfive, hval, Item.encode, length_append, length_toBe]
  congr 3
  omega

end

section

variable {b b' : Builder} {l l' : Bytes}

def Builder.grow (b : Builder) (l : Bytes) : Builder :=
  { b with buf := overwrite b.buf b.len l, len := b.len + l.length }

def Builder.Fits (b : Builder) (l : Bytes) : Prop := b.len + l.length ≤ b.buf.length

lemma overwrite_append {buf : Bytes} {pos : ℕ} (h : pos + (l ++ l').length ≤ buf.length) :
    overwrite (overwrite buf pos l) (pos + l.length) l' = overwrite buf pos (l ++ l') := by
  rw [length_append] at h
  apply ext_getElem?
  intro i
  by_cases hlow : i < pos
  · rw [getElem?_overwrite_of_disjoint (.inl (by omega)), getElem?_overwrite_of_disjoint (.inl hlow),
      getElem?_overwrite_of_disjoint (.inl hlow)]
  by_cases hhigh : pos + l.length + l'.length ≤ i
  · rw [getElem?_overwrite_of_disjoint (.inr hhigh), getElem?_overwrite_of_disjoint (.inr (by omega)),
      getElem?_overwrite_of_disjoint (.inr (by rw [length_append]; omega))]
  have hwhole : (overwrite buf pos (l ++ l'))[i]? = (l ++ l')[i - pos]? :=
    getElem?_overwrite (by omega) (by rw [length_append]; omega) (by omega)
  rw [hwhole]
  by_cases hfirst : i < pos + l.length
  · rw [getElem?_overwrite_of_disjoint (.inl hfirst), getElem?_overwrite (by omega) hfirst (by omega),
      getElem?_append_left (by omega)]
  · rw [getElem?_overwrite (by omega) (by omega) (by rw [length_overwrite]; omega),
      getElem?_append_right (by omega)]
    congr 1
    omega

lemma Builder.grow_grow (h : b.Fits (l ++ l')) : (b.grow l).grow l' = b.grow (l ++ l') := by
  simp only [grow, overwrite_append h, length_append, add_assoc]

lemma Builder.fits_grow : (b.grow l).Fits l' ↔ b.Fits (l ++ l') := by
  unfold Builder.Fits
  simp only [grow, length_overwrite, length_append, add_assoc]

instance : Decidable (b.Fits l) := inferInstanceAs (Decidable (_ ≤ _))

lemma put_of_fits (h : b.Fits l) : put l b = (.ok (), b.grow l) :=
  if_neg (not_lt.mpr h)

lemma put_of_not_fits (h : ¬ b.Fits l) : put l b = (.error .overflow, b) :=
  if_pos (not_le.mp h)

variable {m m' : Builder.Method} {e : Error} {c : Builder → Bool}

lemma andThen_ok (h : m b = (.ok (), b')) : andThen m m' b = m' b' := by
  rw [andThen, h]

lemma andThen_error (h : m b = (.error e, b')) : andThen m m' b = (.error e, b') := by
  rw [andThen, h]

lemma andThen_put (h : b.Fits l) : andThen (put l) m b = m (b.grow l) := andThen_ok (put_of_fits h)

lemma refuseIf_pass (h : c b = false) : refuseIf c e b = (.ok (), b) := by
  rw [refuseIf, h, if_neg Bool.false_ne_true]

lemma refuseIf_refuse (h : c b = true) : refuseIf c e b = (.error e, b) := by
  rw [refuseIf, h, if_pos rfl]

end

section

variable {b : Builder} {item : Item}

def Item.name : Item → WireName
  | question name .. => name
  | record _ name .. => name

def Item.call : Item → Builder.Method
  | question name qtype qclass => Builder.question name.encode qtype qclass
  | record .answer name rrtype cls ttl rdata => Builder.answer name.encode rrtype cls ttl rdata
  | record .authority name rrtype cls ttl rdata => Builder.authority name.encode rrtype cls ttl rdata
  | record .additional name rrtype cls ttl rdata => Builder.additional name.encode rrtype cls ttl rdata

def Item.Short : Item → Prop
  | question .. => True
  | record _ _ _ _ _ rdata => rdata.length < 2 ^ 16

def Header.AllowsNow (h : Header) : Section → Prop
  | .question => h.ancount + h.nscount + h.arcount = 0
  | .answer => h.nscount + h.arcount = 0
  | .authority => h.arcount = 0
  | .additional => True

def Header.bump (h : Header) : Section → Header
  | .question => { h with qdcount := h.qdcount + 1 }
  | .answer => { h with ancount := h.ancount + 1 }
  | .authority => { h with nscount := h.nscount + 1 }
  | .additional => { h with arcount := h.arcount + 1 }

/-- The call gets as far as its first write. -/
def Item.Reaches (b : Builder) (item : Item) : Prop :=
  b.sec.rank ≤ item.sec.rank ∧ b.header.AllowsNow item.sec ∧ item.Short

def Item.Clean (b : Builder) (item : Item) : Prop :=
  item.Reaches b → b.Fits item.encode ∨ ¬ b.Fits item.name.encode

def Item.accepted (b : Builder) (item : Item) : Builder :=
  { b.grow item.encode with header := b.header.bump item.sec, sec := item.sec }

def puts : List Bytes → Builder.Method
  | [] => fun b => (.ok (), b)
  | l :: ls => Builder.andThen (Builder.put l) (puts ls)

def Item.rest : Item → List Bytes
  | question _ qtype qclass => [toBe 2 qtype, toBe 2 qclass]
  | record _ _ rrtype cls ttl rdata => [toBe 2 rrtype, toBe 2 cls, toBe 4 ttl, toBe 2 rdata.length, rdata]

lemma Item.encode_eq (item : Item) : item.encode = item.name.encode ++ item.rest.flatten := by
  cases item <;> simp [encode, name, rest]

lemma puts_spec {ls : List Bytes} (h : b.len ≤ b.buf.length) :
    b.Fits ls.flatten ∧ puts ls b = (.ok (), b.grow ls.flatten) ∨
    ¬ b.Fits ls.flatten ∧ ∃ b', puts ls b = (.error .overflow, b') ∧ b'.buf.length = b.buf.length ∧
    b.len ≤ b'.len := by
  induction ls generalizing b with
  | nil =>
    refine .inl ⟨h, ?_⟩
    simp only [puts, grow, flatten_nil, overwrite_nil, length_nil, add_zero]
  | cons l ls ih =>
    rw [flatten_cons, puts]
    by_cases hl : b.Fits l
    · have hlen : (b.grow l).buf.length = b.buf.length := length_overwrite
      rw [andThen_put hl, ← fits_grow]
      rcases @ih (b.grow l) (hlen.symm ▸ hl) with ⟨hfits, heq⟩ | ⟨hfits, b', heq, hbuf, hle⟩
      · exact .inl ⟨hfits, by rw [heq, grow_grow (fits_grow.mp hfits)]⟩
      · exact .inr ⟨hfits, b', heq, hbuf.trans hlen, (le_add_right _ _).trans hle⟩
    · refine .inr ⟨fun hfits => hl ?_, b, andThen_error (put_of_not_fits hl), rfl, le_rfl⟩
      unfold Builder.Fits at *
      rw [length_append] at hfits
      omega

lemma enter_of_le {s : Section} (h : b.sec.rank ≤ s.rank) : enter s b = (.ok (), { b with sec := s }) :=
  if_neg (not_lt.mpr h)

lemma enter_of_lt {s : Section} (h : ¬ b.sec.rank ≤ s.rank) : enter s b = (.error .sectionOrder, b) :=
  if_pos (not_le.mp h)

lemma andThen_assoc {m m' m'' : Builder.Method} :
    andThen (andThen m m') m'' = andThen m (andThen m' m'') := by
  funext b
  unfold andThen
  rcases m b with ⟨⟨⟩ | ⟨⟩, b'⟩ <;> rfl

instance (h : Header) (s : Section) : Decidable (h.AllowsNow s) :=
  match s with
  | .question => inferInstanceAs (Decidable (_ = 0))
  | .answer => inferInstanceAs (Decidable (_ = 0))
  | .authority => inferInstanceAs (Decidable (_ = 0))
  | .additional => inferInstanceAs (Decidable True)

lemma andThen_done {m : Builder.Method} : andThen m (fun b => (.ok (), b)) = m := by
  funext b
  unfold andThen
  rcases m b with ⟨⟨⟩ | ⟨⟩, b'⟩ <;> rfl

def Item.content : Item → Builder.Method
  | question name qtype qclass => Builder.andThen (Builder.put name.encode) <|
      Builder.andThen (Builder.put (toBe 2 qtype)) (Builder.put (toBe 2 qclass))
  | record _ name rrtype cls ttl rdata => Builder.rr name.encode rrtype cls ttl rdata

lemma content_eq (h : item.Short) : item.content = puts (item.name.encode :: item.rest) := by
  cases item with
  | question name qtype qclass =>
    simp only [Item.rest, puts, andThen_done]
    rfl
  | record part name rrtype cls ttl rdata =>
    simp only [Item.rest, puts, andThen_done]
    exact funext fun b => andThen_ok (refuseIf_pass (decide_eq_false (not_lt.mpr (le_pred_of_lt h))))

lemma content_long (h : ¬ item.Short) : item.content b = (.error .rdataTooLong, b) := by
  cases item with
  | question => exact absurd trivial h
  | record => exact andThen_error (refuseIf_refuse (decide_eq_true (lt_of_succ_le (not_lt.mp h))))

lemma call_eq (item : Item) : item.call = andThen (enter item.sec)
    (andThen (refuseIf (fun b => decide (¬ b.header.AllowsNow item.sec)) .sectionOrder)
      (andThen item.content (count fun h => h.bump item.sec))) := by
  cases item with
  | question name qtype qclass =>
    simp only [Item.content, andThen_assoc]
    rfl
  | record part name rrtype cls ttl rdata =>
    cases part with
    | answer => rfl
    | authority => rfl
    | additional =>
      -- nothing comes too late for the last section
      have hpass : refuseIf (fun b => decide (¬ b.header.AllowsNow .additional)) .sectionOrder =
          fun b => (.ok (), b) := funext fun b => refuseIf_pass (by simp [Header.AllowsNow])
      change additional name.encode rrtype cls ttl rdata = andThen (enter .additional)
        (andThen (refuseIf (fun b => decide (¬ b.header.AllowsNow .additional)) .sectionOrder) _)
      rw [hpass]
      rfl

lemma name_pos (item : Item) : 0 < item.name.encode.length := by
  simp [WireName.encode]

/-- A call is accepted whole, or is refused and leaves what was written, or breaks off behind its name. -/
lemma call_spec (b : Builder) (item : Item) :
    item.Reaches b ∧ b.Fits item.encode ∧ item.call b = (.ok (), item.accepted b) ∨
    item.Clean b ∧ (∃ e s, item.call b = (.error e, { b with sec := s })) ∨
    ¬ item.Clean b ∧ ∃ e b', item.call b = (.error e, b') ∧ b'.buf.length = b.buf.length ∧
      b.len < min b'.len b.buf.length := by
  rw [call_eq]
  by_cases hrank : b.sec.rank ≤ item.sec.rank
  swap
  · exact .inr (.inl ⟨fun h => absurd h.1 hrank, _, b.sec, andThen_error (enter_of_lt hrank)⟩)
  rw [andThen_ok (enter_of_le hrank)]
  by_cases hallow : b.header.AllowsNow item.sec
  swap
  · exact .inr (.inl ⟨fun h => absurd h.2.1 hallow, _, item.sec,
      andThen_error (refuseIf_refuse (by simpa using hallow))⟩)
  rw [andThen_ok (refuseIf_pass (by simpa using hallow))]
  by_cases hshort : item.Short
  swap
  · exact .inr (.inl ⟨fun h => absurd h.2.2 hshort, _, item.sec, andThen_error (content_long hshort)⟩)
  rw [content_eq hshort]
  by_cases hname : b.Fits item.name.encode
  swap
  · exact .inr (.inl ⟨fun _ => .inr hname, _, item.sec, andThen_error (andThen_error (put_of_not_fits hname))⟩)
  have hbuf : (b.grow item.name.encode).buf.length = b.buf.length := length_overwrite
  have hput : puts (item.name.encode :: item.rest) { b with sec := item.sec } =
      puts item.rest ({ b with sec := item.sec }.grow item.name.encode) := andThen_put hname
  rcases @puts_spec ({ b with sec := item.sec }.grow item.name.encode) item.rest (hbuf.symm ▸ hname) with
    ⟨hfits, heq⟩ | ⟨hfits, b', heq, hbuf', hle⟩
  · have hall : b.Fits item.encode := by
      rw [Item.encode_eq]
      exact fits_grow.mp hfits
    refine .inl ⟨⟨hrank, hallow, hshort⟩, hall, ?_⟩
    rw [andThen_ok (hput.trans heq), grow_grow (fits_grow.mp hfits), ← Item.encode_eq]
    rfl
  · refine .inr (.inr ⟨fun hclean => ?_, _, b', andThen_error (hput.trans heq), hbuf'.trans hbuf, ?_⟩)
    · rcases hclean ⟨hrank, hallow, hshort⟩ with hall | hno
      · rw [Item.encode_eq] at hall
        exact hfits (fits_grow.mpr hall)
      · exact hno hname
    · have hlt : b.len < b.len + item.name.encode.length := Nat.lt_add_of_pos_right (name_pos item)
      exact lt_min (hlt.trans_le hle) (hlt.trans_le hname)

end

section

variable {b b' : Builder} {item : Item} {items calls : List Item} {id flags : ℕ}

def call (s : Builder × List Item) (item : Item) : Builder × List Item :=
  match item.call s.1 with
  | (.ok (), b) => (b, s.2 ++ [item])
  | (.error _, b) => (b, s.2)

def CleanRun : Builder × List Item → List Item → Prop
  | _, [] => True
  | s, item :: items => item.Clean s.1 ∧ CleanRun (call s item) items

/-- No refused call of the run changes the message. -/
def Traceless : Builder × List Item → List Item → Prop
  | _, [] => True
  | s, item :: items =>
    ((item.call s.1).1 ≠ .ok () → (item.call s.1).2.finish = s.1.finish) ∧ Traceless (call s item) items

def bytesOf (items : List Item) : Bytes := items.flatMap Item.encode

def bySec (items : List Item) (s : Section) : List Item := items.filter fun item => item.sec = s

def Header.countOf (h : Header) : Section → ℕ
  | .question => h.qdcount
  | .answer => h.ancount
  | .authority => h.nscount
  | .additional => h.arcount

structure Written (id flags : ℕ) (b : Builder) (items : List Item) : Prop where
  len : b.len = HEADER_LEN + (bytesOf items).length
  fits : b.len ≤ b.buf.length
  content : At b.buf HEADER_LEN (bytesOf items)
  count : ∀ s, b.header.countOf s = (bySec items s).length
  ordered : items = bySec items .question ++ (bySec items .answer ++
    (bySec items .authority ++ bySec items .additional))
  short : ∀ item ∈ items, item.Short
  tag : b.header.id = id ∧ b.header.flags = flags

lemma bytesOf_append : bytesOf (items ++ [item]) = bytesOf items ++ item.encode := by
  simp [bytesOf]

lemma bySec_append (s : Section) : bySec (items ++ [item]) s = bySec items s ++ if item.sec = s then [item]
    else [] := by
  by_cases h : item.sec = s <;> simp [bySec, h]

lemma countOf_bump (h : Header) (s s' : Section) :
    (h.bump s).countOf s' = h.countOf s' + if s = s' then 1 else 0 := by
  cases s <;> cases s' <;> rfl

lemma Written.ordered_append (h : Written id flags b items) (hallow : b.header.AllowsNow item.sec) :
    items ++ [item] = bySec (items ++ [item]) .question ++ (bySec (items ++ [item]) .answer ++
      (bySec (items ++ [item]) .authority ++ bySec (items ++ [item]) .additional)) := by
  have hempty : ∀ s, b.header.countOf s = 0 → bySec items s = [] := fun s hs =>
    length_eq_zero_iff.mp ((h.count s).symm.trans hs)
  have hord := h.ordered
  simp only [bySec_append]
  cases hsec : item.sec <;> rw [hsec] at hallow <;> simp only [Header.AllowsNow] at hallow
  · have ha := hempty .answer (by simp only [Header.countOf]; omega)
    have hn := hempty .authority (by simp only [Header.countOf]; omega)
    have hd := hempty .additional (by simp only [Header.countOf]; omega)
    rw [ha, hn, hd] at hord
    simpa [ha, hn, hd] using hord
  · have hn := hempty .authority (by simp only [Header.countOf]; omega)
    have hd := hempty .additional (by simp only [Header.countOf]; omega)
    rw [hn, hd] at hord
    simpa [hn, hd, ← append_assoc] using hord
  · have hd := hempty .additional hallow
    rw [hd] at hord
    simpa [hd, ← append_assoc] using hord
  · simpa [← append_assoc] using hord

lemma Written.accept (h : Written id flags b items) (hallow : b.header.AllowsNow item.sec) (hshort : item.Short)
    (hfits : b.Fits item.encode) : Written id flags (item.accepted b) (items ++ [item]) where
  len := by
    have := h.len
    simp only [Item.accepted, grow, bytesOf_append, length_append]
    omega
  fits := by
    simp only [Item.accepted, grow, length_overwrite]
    exact hfits
  content := by
    rw [bytesOf_append, at_append, ← h.len]
    simp only [Item.accepted, grow]
    refine ⟨⟨?_, ?_⟩, ?_, window_overwrite_self hfits⟩
    · rw [length_overwrite]
      exact h.content.1
    · rw [window_overwrite_of_disjoint (.inl h.len.ge)]
      exact h.content.2
    · rw [length_overwrite]
      exact hfits
  count s := by
    rw [bySec_append, length_append, ← h.count s]
    simp only [Item.accepted, countOf_bump]
    split <;> rfl
  ordered := h.ordered_append hallow
  short := by
    intro other hmem
    rcases mem_append.mp hmem with hmem | hmem
    · exact h.short other hmem
    · cases mem_singleton.mp hmem
      exact hshort
  tag := by
    obtain ⟨hid, hflags⟩ := h.tag
    cases hsec : item.sec <;> simp [Item.accepted, Header.bump, hsec, hid, hflags]

lemma call_cases (hclean : item.Clean b) (h : Written id flags b items) :
    (item.call b).1 = .ok () ∧ call (b, items) item = (item.accepted b, items ++ [item]) ∧
      Written id flags (item.accepted b) (items ++ [item]) ∨
    ∃ e s, item.call b = (.error e, { b with sec := s }) ∧
    call (b, items) item = ({ b with sec := s }, items) := by
  rcases call_spec b item with ⟨⟨-, hallow, hshort⟩, hfits, heq⟩ | ⟨-, e, s, heq⟩ | ⟨hno, -⟩
  · refine .inl ⟨by rw [heq], ?_, h.accept hallow hshort hfits⟩
    simp only [call, heq]
  · refine .inr ⟨e, s, heq, ?_⟩
    simp only [call, heq]
  · exact absurd hclean hno

lemma Written.step (h : Written id flags b items) (hclean : item.Clean b) :
    Written id flags (call (b, items) item).1 (call (b, items) item).2 := by
  rcases call_cases hclean h with ⟨-, heq, hw⟩ | ⟨e, s, -, heq⟩
  · rw [heq]
    exact hw
  · rw [heq]
    exact ⟨h.len, h.fits, h.content, h.count, h.ordered, h.short, h.tag⟩

lemma Written.run {s : Builder × List Item} (h : Written id flags s.1 s.2) (hclean : CleanRun s calls) :
    Written id flags (calls.foldl call s).1 (calls.foldl call s).2 := by
  induction calls generalizing s with
  | nil => exact h
  | cons item calls ih => exact ih (h.step hclean.1) hclean.2

end

section

variable {b : Builder} {items : List Item} {r : Reader} {id flags : ℕ}

def Reader.times {α : Type} (read : Reader → Except Error (α × Reader)) : ℕ → Reader →
    Except Error (List α × Reader)
  | 0, r => .ok ([], r)
  | n + 1, r => do
    let (x, r) ← read r
    let (xs, r) ← Reader.times read n r
    pure (x :: xs, r)

structure Parsed where
  header : Header
  questions : List Question
  answers : List Record
  authorities : List Record
  additionals : List Record
  stop : ℕ

def parse (msg : Bytes) : Except Error Parsed := do
  let r ← Reader.new msg
  let (questions, r) ← Reader.times Reader.question r.header.qdcount r
  let (answers, r) ← Reader.times Reader.record r.header.ancount r
  let (authorities, r) ← Reader.times Reader.record r.header.nscount r
  let (additionals, r) ← Reader.times Reader.record r.header.arcount r
  pure ⟨r.header, questions, answers, authorities, additionals, r.off⟩

def Record.fields (r : Record) : Bytes × ℕ × ℕ × ℕ × Bytes := (r.name, r.rrtype, r.cls, r.ttl, r.rdata)

def Item.asQuestion : Item → Option Question
  | question name qtype qclass => some ⟨name.encode, qtype, qclass⟩
  | record .. => none

def Item.asRecord : Item → Option (Bytes × ℕ × ℕ × ℕ × Bytes)
  | question .. => none
  | record _ name rrtype cls ttl rdata => some (name.encode, rrtype, cls, ttl, rdata)

lemma times_eq {α β : Type} {read : Reader → Except Error (α × Reader)} {view : α → β} {expect : Item → Option β}
    (hread : ∀ item ∈ items, ∀ r : Reader, At r.msg r.off item.encode → ∃ x,
      read r = .ok (x, { r with off := r.off + item.encode.length }) ∧ expect item = some (view x))
    (hat : At r.msg r.off (bytesOf items)) :
    ∃ xs, Reader.times read items.length r = .ok (xs, { r with off := r.off + (bytesOf items).length }) ∧
      xs.map view = items.filterMap expect := by
  induction items generalizing r with
  | nil => exact ⟨[], rfl, rfl⟩
  | cons item items ih =>
    have hsplit : bytesOf (item :: items) = item.encode ++ bytesOf items := rfl
    rw [hsplit] at hat ⊢
    obtain ⟨hitem, hrest⟩ := at_append.mp hat
    obtain ⟨x, hx, hexpect⟩ := hread item mem_cons_self r hitem
    obtain ⟨xs, hxs, hview⟩ := @ih { r with off := r.off + item.encode.length }
      (fun other hmem => hread other (mem_cons_of_mem _ hmem)) hrest
    refine ⟨x :: xs, ?_, ?_⟩
    · simp only [length_cons, Reader.times, hx, hxs, bind, Except.bind, pure, Except.pure, length_append,
        add_assoc]
    · rw [map_cons, hview, filterMap_cons_some hexpect]

lemma mem_bySec {item : Item} {s : Section} (h : item ∈ bySec items s) : item ∈ items ∧ item.sec = s := by
  simpa [bySec] using h

lemma times_questions (hat : At r.msg r.off (bytesOf (bySec items .question))) :
    ∃ xs, Reader.times Reader.question (bySec items .question).length r =
        .ok (xs, { r with off := r.off + (bytesOf (bySec items .question)).length }) ∧
      xs = (bySec items .question).filterMap Item.asQuestion := by
  obtain ⟨xs, hxs, hview⟩ := @times_eq _ r Question Question Reader.question id Item.asQuestion
    (fun item hmem r hat => by
    cases item with
    | question name qtype qclass => exact ⟨_, question_eq hat, rfl⟩
    | record part => cases part <;> cases (mem_bySec hmem).2) hat
  exact ⟨xs, hxs, by rwa [map_id] at hview⟩

lemma times_records {s : Section} (hs : s ≠ .question) (hshort : ∀ item ∈ items, item.Short)
    (hat : At r.msg r.off (bytesOf (bySec items s))) :
    ∃ xs, Reader.times Reader.record (bySec items s).length r =
        .ok (xs, { r with off := r.off + (bytesOf (bySec items s)).length }) ∧
      xs.map Record.fields = (bySec items s).filterMap Item.asRecord := by
  refine times_eq (fun item hmem r hat => ?_) hat
  obtain ⟨hin, hsec⟩ := mem_bySec hmem
  cases item with
  | question => exact absurd hsec.symm hs
  | record part name rrtype cls ttl rdata => exact ⟨_, record_eq hat (hshort _ hin), rfl⟩

lemma bytesOf_add {l l' : List Item} : bytesOf (l ++ l') = bytesOf l ++ bytesOf l' := flatMap_append

lemma Header.length_encode (h : Header) : h.encode.length = HEADER_LEN := by
  simp [Header.encode, length_toBe, HEADER_LEN]

lemma length_le_bytesOf (l : List Item) : l.length ≤ (bytesOf l).length := by
  induction l with
  | nil => rfl
  | cons item l ih =>
    have hpos : 0 < item.encode.length := by
      cases item <;> simp [Item.encode, WireName.encode]
    have hsplit : bytesOf (item :: l) = item.encode ++ bytesOf l := rfl
    rw [hsplit, length_append, length_cons]
    omega

lemma Header.parse_eq {msg : Bytes} {h : Header} (hat : At msg 0 h.encode)
    (hid : h.id < 2 ^ 16) (hflags : h.flags < 2 ^ 16) (hcount : ∀ s, h.countOf s < 2 ^ 16) :
    Header.parse msg = .ok h := by
  have hlen := hat.1
  rw [h.length_encode] at hlen
  simp only [Header.encode, flatMap_cons, flatMap_nil, append_nil] at hat
  obtain ⟨h0, hat⟩ := at_append.mp hat
  obtain ⟨h1, hat⟩ := at_append.mp hat
  obtain ⟨h2, hat⟩ := at_append.mp hat
  obtain ⟨h3, hat⟩ := at_append.mp hat
  obtain ⟨h4, h5⟩ := at_append.mp hat
  simp only [length_toBe, zero_add, reduceAdd] at h1 h2 h3 h4 h5
  have hval : ∀ {off v : ℕ}, At msg off (toBe 2 v) → v < 2 ^ 16 → beVal (window msg off 2) = v := by
    intro off v hv hlt
    have heq := hv.2
    rw [length_toBe] at heq
    rw [heq, beVal_toBe, mod_eq_of_lt (by omega)]
  rw [Header.parse, if_neg (by omega)]
  simp only [hval h0 hid, hval h1 hflags, hval h2 (hcount .question), hval h3 (hcount .answer),
    hval h4 (hcount .authority), hval h5 (hcount .additional)]

lemma At.take {msg l : Bytes} {off n : ℕ} (h : At msg off l) (hn : off + l.length ≤ n) :
    At (msg.take n) off l := by
  refine ⟨by rw [length_take]; exact le_min hn h.1, ?_⟩
  rw [← h.2, length_window h.1]
  exact window_congr fun i _ hi => getElem?_take_of_lt (by omega)

lemma Written.finish_eq (h : Written id flags b items) :
    b.finish.length = b.len ∧ At b.finish 0 b.header.encode ∧ At b.finish HEADER_LEN (bytesOf items) := by
  have hlen := h.len
  have hfits := h.fits
  have hhead := b.header.length_encode
  have hwrite : b.header.write b.buf = .ok (overwrite b.buf 0 b.header.encode) := if_neg (by omega)
  rw [finish, hwrite]
  refine ⟨?_, At.take ⟨?_, ?_⟩ (by omega), At.take ⟨?_, ?_⟩ hlen.ge⟩
  · rw [length_take, length_overwrite]
    exact min_eq_left hfits
  · rw [length_overwrite]
    omega
  · exact window_overwrite_self (by omega)
  · rw [length_overwrite]
    exact h.content.1
  · rw [window_overwrite_of_disjoint (.inr (by omega))]
    exact h.content.2

lemma Written.parse_eq (h : Written id flags b items) (hid : id < 2 ^ 16) (hflags : flags < 2 ^ 16)
    (hmax : b.buf.length < 2 ^ 16) :
    ∃ p, parse b.finish = .ok p ∧ p.header = b.header ∧
      p.questions = (bySec items .question).filterMap Item.asQuestion ∧
      p.answers.map Record.fields = (bySec items .answer).filterMap Item.asRecord ∧
      p.authorities.map Record.fields = (bySec items .authority).filterMap Item.asRecord ∧
      p.additionals.map Record.fields = (bySec items .additional).filterMap Item.asRecord ∧
      p.stop = b.finish.length := by
  obtain ⟨hlength, hhead, hbody⟩ := h.finish_eq
  obtain ⟨htag, htag'⟩ := h.tag
  have hlen := h.len
  have hfits := h.fits
  have hcount : ∀ s, b.header.countOf s < 2 ^ 16 := by
    intro s
    have hle : (bySec items s).length ≤ items.length := length_filter_le _ _
    have hbytes := length_le_bytesOf items
    rw [h.count s]
    omega
  have hparse := Header.parse_eq hhead (htag ▸ hid) (htag' ▸ hflags) hcount
  have htotal : (bytesOf items).length = (bytesOf (bySec items .question)).length +
      ((bytesOf (bySec items .answer)).length + ((bytesOf (bySec items .authority)).length +
        (bytesOf (bySec items .additional)).length)) := by
    conv_lhs => rw [h.ordered]
    simp only [bytesOf_add, length_append]
  rw [h.ordered, bytesOf_add, bytesOf_add, bytesOf_add] at hbody
  obtain ⟨hq, hbody⟩ := at_append.mp hbody
  obtain ⟨ha, hbody⟩ := at_append.mp hbody
  obtain ⟨hn, hd⟩ := at_append.mp hbody
  obtain ⟨qs, hqs, hqview⟩ := @times_questions items ⟨b.header, b.finish, HEADER_LEN⟩ hq
  obtain ⟨as, has, haview⟩ := @times_records items ⟨b.header, b.finish, _⟩ .answer nofun h.short ha
  obtain ⟨ns, hns, hnview⟩ := @times_records items ⟨b.header, b.finish, _⟩ .authority nofun h.short hn
  obtain ⟨ds, hds, hdview⟩ := @times_records items ⟨b.header, b.finish, _⟩ .additional nofun h.short hd
  rw [← h.count .question] at hqs
  rw [← h.count .answer] at has
  rw [← h.count .authority] at hns
  rw [← h.count .additional] at hds
  simp only [Header.countOf] at hqs has hns hds
  refine ⟨⟨b.header, qs, as, ns, ds, b.finish.length⟩, ?_, rfl, hqview, haview, hnview, hdview, rfl⟩
  simp only [parse, Reader.new, hparse, bind, Except.bind, pure, Except.pure, hqs, has, hns, hds]
  rw [hlength, hlen, htotal]
  simp only [add_assoc]

lemma written_new {buf : Bytes} (h : new buf id flags = .ok b) : Written id flags b [] ∧ b.buf = buf := by
  unfold new at h
  split at h
  · cases h
  · cases h
    refine ⟨⟨rfl, not_lt.mp ‹_›, ⟨not_lt.mp ‹_›, rfl⟩, fun s => ?_, rfl, by simp, rfl, rfl⟩, rfl⟩
    cases s <;> rfl

variable {s : Builder × List Item}

lemma length_buf_call {item : Item} (hclean : item.Clean s.1) (h : Written id flags s.1 s.2) :
    (call s item).1.buf.length = s.1.buf.length := by
  rcases call_cases hclean h with ⟨-, heq, -⟩ | ⟨e, sec, -, heq⟩
  · rw [heq]
    exact length_overwrite
  · rw [heq]

lemma length_buf_run {calls : List Item} (hclean : CleanRun s calls)
    (h : Written id flags s.1 s.2) : (calls.foldl call s).1.buf.length = s.1.buf.length := by
  induction calls generalizing s with
  | nil => rfl
  | cons item calls ih => exact (ih hclean.2 (h.step hclean.1)).trans (length_buf_call hclean.1 h)

lemma length_finish (b : Builder) : b.finish.length = min b.len b.buf.length := by
  unfold finish Header.write
  split_ifs
  · exact length_take
  · rw [length_take, length_overwrite]

lemma traceless_call {item : Item} (h : Written id flags b items) :
    ((item.call b).1 ≠ .ok () → (item.call b).2.finish = b.finish) ↔ item.Clean b := by
  rcases call_spec b item with ⟨-, hfits, heq⟩ | ⟨hclean, e, s, heq⟩ | ⟨hno, e, b', heq, hbuf, hlt⟩
  · rw [heq]
    exact ⟨fun _ _ => .inl hfits, fun _ hne => absurd rfl hne⟩
  · rw [heq]
    exact ⟨fun _ => hclean, fun _ _ => rfl⟩
  · -- what was written stays, so the message is longer
    refine ⟨fun hsame => ?_, fun hclean => absurd hclean hno⟩
    rw [heq] at hsame
    have hlength := congrArg length (hsame nofun)
    rw [length_finish, length_finish, min_eq_left h.fits] at hlength
    simp only [hbuf] at hlength
    exact absurd hlength hlt.ne'

lemma traceless_iff_cleanRun {calls : List Item} (h : Written id flags s.1 s.2) :
    Traceless s calls ↔ CleanRun s calls := by
  induction calls generalizing s with
  | nil => exact Iff.rfl
  | cons item calls ih =>
    rw [Traceless, CleanRun, traceless_call h]
    exact and_congr_right fun hclean => ih (h.step hclean)

/-- The reader recovers what the builder accepted, and no refused call leaves a trace, if and only if no call is
cut off inside what it writes. -/
theorem reader_recovers_accepted (buf : Bytes) (id flags : Fin (2 ^ 16)) (calls : List Item) (b : Builder)
    (hmax : buf.length ≤ 65535) (hnew : Builder.new buf id flags = .ok b) :
    let s := calls.foldl call (b, [])
    (∃ p, parse s.1.finish = .ok p ∧ p.header.id = id ∧ p.header.flags = flags ∧
      p.questions = (bySec s.2 .question).filterMap Item.asQuestion ∧
      p.answers.map Record.fields = (bySec s.2 .answer).filterMap Item.asRecord ∧
      p.authorities.map Record.fields = (bySec s.2 .authority).filterMap Item.asRecord ∧
      p.additionals.map Record.fields = (bySec s.2 .additional).filterMap Item.asRecord ∧
      p.stop = s.1.len ∧ s.1.finish.length = s.1.len) ∧
    s.2 = bySec s.2 .question ++ (bySec s.2 .answer ++ (bySec s.2 .authority ++ bySec s.2 .additional)) ∧
    Traceless (b, []) calls ↔ CleanRun (b, []) calls := by
  obtain ⟨hstart, hbuf⟩ := written_new hnew
  refine ⟨fun h => (traceless_iff_cleanRun hstart).mp h.2.2, fun hclean => ?_⟩
  have hw := Written.run (s := (b, [])) hstart hclean
  have hlen := length_buf_run (s := (b, [])) hclean hstart
  obtain ⟨p, hp, hheader, hq, ha, hn, hd, hstop⟩ := hw.parse_eq id.isLt flags.isLt (by rw [hlen, hbuf]; omega)
  have hfinish := hw.finish_eq.1
  refine ⟨⟨p, hp, ?_, ?_, hq, ha, hn, hd, hstop.trans hfinish, hfinish⟩, hw.ordered,
    (traceless_iff_cleanRun hstart).mpr hclean⟩
  · rw [hheader, hw.tag.1]
  · rw [hheader, hw.tag.2]

def oneLabel : WireName := ⟨[⟨[97], by decide, by decide⟩], by decide⟩

/-- A question behind a record is refused, though the buffer has no room for it either. -/
theorem reader_recovers_accepted_sample : ∃ b, Builder.new (replicate 36 0) 0 0 = .ok b ∧
    ∃ p, parse ([Item.question oneLabel 12 1, .record .answer oneLabel 16 1 120 [7], .question oneLabel 12 1].foldl
      call (b, [])).1.finish = .ok p ∧ p.questions = [⟨[1, 97, 0], 12, 1⟩] := by
  refine ⟨_, rfl, ?_⟩
  have hclean : CleanRun ((⟨replicate 36 0, 12, ⟨0, 0, 0, 0, 0, 0⟩, .question⟩ : Builder), [])
      [Item.question oneLabel 12 1, .record .answer oneLabel 16 1 120 [7], .question oneLabel 12 1] := by
    refine ⟨fun _ => .inl ?_, fun _ => .inl ?_, fun h => absurd h.2.1 ?_, trivial⟩ <;> decide +kernel
  obtain ⟨⟨p, hp, -, -, hq, -⟩, -⟩ :=
    (reader_recovers_accepted (replicate 36 0) 0 0 _ _ (by decide) rfl).mpr hclean
  exact ⟨p, hp, hq.trans (by rfl)⟩

/-- The refused answer's name and fixed fields stay in the message, and no count covers them. -/
theorem refused_answer_leaves_bytes : ∃ b, Builder.new (replicate 32 0) 0 0 = .ok b ∧
    ((Item.record .answer oneLabel 16 1 120 (replicate 40 7)).call b).1 = .error .overflow ∧
    b.finish.length = 12 ∧
    ((Item.record .answer oneLabel 16 1 120 (replicate 40 7)).call b).2.finish.length = 25 ∧
    ∃ p, parse ((Item.record .answer oneLabel 16 1 120 (replicate 40 7)).call b).2.finish = .ok p ∧
    p.stop = 12 := by
  refine ⟨_, rfl, ?_, ?_, ?_, _, rfl, rfl⟩ <;> rfl

end

end CrickerOs.MdnsProto
