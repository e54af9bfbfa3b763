import CrickerOs.Library.Bytes

namespace CrickerOs.MdnsProto

open Library Library.Bytes

def MAX_NAME_LEN : ℕ := 255

def HEADER_LEN : ℕ := 12

inductive Error
  | truncated
  | badLabel
  | pointerForward
  | nameTooLong
  | overflow
  | sectionOrder
  | rdataTooLong
  deriving DecidableEq, Repr

structure Header where
  id : ℕ
  flags : ℕ
  qdcount : ℕ
  ancount : ℕ
  nscount : ℕ
  arcount : ℕ
  deriving DecidableEq, Repr

def get (msg : Bytes) (pos n : ℕ) : Except Error Bytes :=
  if pos + n ≤ msg.length then .ok (window msg pos n) else .error .truncated

namespace Header

def parse (msg : Bytes) : Except Error Header :=
  if msg.length < HEADER_LEN then .error .truncated
  else
    let f i := beVal (window msg i 2)
    .ok ⟨f 0, f 2, f 4, f 6, f 8, f 10⟩

def encode (h : Header) : Bytes :=
  [h.id, h.flags, h.qdcount, h.ancount, h.nscount, h.arcount].flatMap (toBe 2)

def write (h : Header) (out : Bytes) : Except Error Bytes :=
  if out.length < HEADER_LEN then .error .overflow else .ok (overwrite out 0 h.encode)

end Header

/-- The decoder's loop: `out` is what was written so far, `resume` where the caller goes on, and every pointer
must aim below `fence`. A label fills the output and a pointer lowers the fence, so the loop ends. -/
def decodeNameFrom (msg : Bytes) (cap pos fence : ℕ) (resume : Option ℕ) (out : Bytes) :
    Except Error (Bytes × ℕ) :=
  match msg[pos]? with
  | none => .error .truncated
  | some b =>
    if b.toNat / 64 = 3 then
      match msg[pos + 1]? with
      | none => .error .truncated
      | some b2 =>
        let target := b.toNat % 64 * 256 + b2.toNat
        if _h : fence ≤ target then .error .pointerForward
        else decodeNameFrom msg cap target target (some (resume.getD (pos + 2))) out
    else if b.toNat / 64 = 0 then
      if b = 0 then
        if cap ≤ out.length then .error .nameTooLong else .ok (out ++ [0], resume.getD (pos + 1))
      else if pos + 1 + b.toNat ≤ msg.length then
        if _h : cap < out.length + 1 + b.toNat then .error .nameTooLong
        else decodeNameFrom msg cap (pos + 1 + b.toNat) fence resume (out ++ b :: window msg (pos + 1) b.toNat)
      else .error .truncated
    else .error .badLabel
termination_by (fence, cap - out.length)
decreasing_by
  · exact Prod.Lex.left _ _ (by omega)
  · refine Prod.Lex.right _ ?_
    simp only [List.length_append, List.length_cons]
    omega

def decodeName (msg : Bytes) (off : ℕ) : Except Error (Bytes × ℕ) :=
  decodeNameFrom msg MAX_NAME_LEN off off none []

structure Question where
  name : Bytes
  qtype : ℕ
  qclass : ℕ
  deriving DecidableEq, Repr

structure Record where
  name : Bytes
  rrtype : ℕ
  cls : ℕ
  ttl : ℕ
  rdata : Bytes
  rdataOff : ℕ
  deriving DecidableEq, Repr

structure Reader where
  header : Header
  msg : Bytes
  off : ℕ

namespace Reader

def new (msg : Bytes) : Except Error Reader := do
  let header ← Header.parse msg
  pure ⟨header, msg, HEADER_LEN⟩

def u16At (r : Reader) (off : ℕ) : Except Error ℕ := do
  let b ← get r.msg off 2
  pure (beVal b)

def question (r : Reader) : Except Error (Question × Reader) := do
  let (name, off) ← decodeName r.msg r.off
  let qtype ← r.u16At off
  let qclass ← r.u16At (off + 2)
  pure (⟨name, qtype, qclass⟩, { r with off := off + 4 })

def record (r : Reader) : Except Error (Record × Reader) := do
  let (name, off) ← decodeName r.msg r.off
  let rrtype ← r.u16At off
  let cls ← r.u16At (off + 2)
  let ttl ← get r.msg (off + 4) 4
  let rdlen ← r.u16At (off + 8)
  let rdata ← get r.msg (off + 10) rdlen
  pure (⟨name, rrtype, cls, beVal ttl, rdata, off + 10⟩, { r with off := off + 10 + rdlen })

end Reader

inductive Section
  | question
  | answer
  | authority
  | additional
  deriving DecidableEq, Repr

def Section.rank : Section → ℕ
  | question => 0
  | answer => 1
  | authority => 2
  | additional => 3

structure Builder where
  buf : Bytes
  len : ℕ
  header : Header
  sec : Section

namespace Builder

def new (buf : Bytes) (id flags : ℕ) : Except Error Builder :=
  if buf.length < HEADER_LEN then .error .overflow
  else .ok ⟨buf, HEADER_LEN, ⟨id, flags, 0, 0, 0, 0⟩, .question⟩

abbrev Method := Builder → Except Error Unit × Builder

def andThen (m m' : Method) : Method := fun b =>
  match m b with
  | (.ok (), b') => m' b'
  | (.error e, b') => (.error e, b')

def refuseIf (c : Builder → Bool) (e : Error) : Method := fun b =>
  if c b then (.error e, b) else (.ok (), b)

def put (bytes : Bytes) : Method := fun b =>
  if b.buf.length < b.len + bytes.length then (.error .overflow, b)
  else (.ok (), { b with buf := overwrite b.buf b.len bytes, len := b.len + bytes.length })

def enter (s : Section) : Method := fun b =>
  if s.rank < b.sec.rank then (.error .sectionOrder, b) else (.ok (), { b with sec := s })

def count (f : Header → Header) : Method := fun b => (.ok (), { b with header := f b.header })

section

variable (name : Bytes)

def question (qtype qclass : ℕ) : Method :=
  andThen (enter .question) <|
  andThen (refuseIf (fun b => b.header.ancount + b.header.nscount + b.header.arcount ≠ 0) .sectionOrder) <|
  andThen (put name) <| andThen (put (toBe 2 qtype)) <| andThen (put (toBe 2 qclass)) <|
  count fun h => { h with qdcount := h.qdcount + 1 }

variable (rrtype cls ttl : ℕ)

variable (rdata : Bytes)

def rr : Method :=
  andThen (refuseIf (fun _ => 2 ^ 16 - 1 < rdata.length) .rdataTooLong) <|
  andThen (put name) <| andThen (put (toBe 2 rrtype)) <| andThen (put (toBe 2 cls)) <|
  andThen (put (toBe 4 ttl)) <| andThen (put (toBe 2 rdata.length)) <| put rdata

def answer : Method :=
  andThen (enter .answer) <|
  andThen (refuseIf (fun b => b.header.nscount + b.header.arcount ≠ 0) .sectionOrder) <|
  andThen (rr name rrtype cls ttl rdata) <| count fun h => { h with ancount := h.ancount + 1 }

def authority : Method :=
  andThen (enter .authority) <|
  andThen (refuseIf (fun b => b.header.arcount ≠ 0) .sectionOrder) <|
  andThen (rr name rrtype cls ttl rdata) <| count fun h => { h with nscount := h.nscount + 1 }

def additional : Method :=
  andThen (enter .additional) <|
  andThen (rr name rrtype cls ttl rdata) <| count fun h => { h with arcount := h.arcount + 1 }

end

def finish (b : Builder) : Bytes :=
  (match b.header.write b.buf with
    | .ok out => out
    | .error _ => b.buf).take b.len

end Builder

end CrickerOs.MdnsProto
