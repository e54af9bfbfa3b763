import CrickerOs.SmbProto.Wire

namespace CrickerOs.SmbServer

open Library Library.Bytes SmbProto List

def DATA_MAX : ℕ := 4096 - 8

def XPORT_LEN : ℕ := 4

def RX_CAP : ℕ := MAX_MESSAGE + XPORT_LEN + DATA_MAX

def xportParse (rx : Bytes) : Option ℕ :=
  let len := beVal (window rx 1 3)
  if rx.head? ≠ some 0 ∨ len = 0 ∨ MAX_MESSAGE < len then none else some len

def isLogoff (msg : Bytes) : Bool := isSmb2 msg && r16 msg 12 = 2

inductive End
  | closed
  | overrun
  | malformed
  | dropped
  | loggedOff
  | spins
  deriving DecidableEq, Repr

/-- The bytes in the buffer with what one receive adds to them. -/
def recvInto (rx chunk : Bytes) : Except End Bytes :=
  if chunk = [] then .error .closed
  else if RX_CAP < rx.length + (chunk.take DATA_MAX).length then .error .overrun
  else .ok (rx ++ chunk.take DATA_MAX)

def fillTo (total : ℕ) : Bytes → List Bytes → Except End (Bytes × List Bytes)
  | rx, [] => if total ≤ rx.length then .ok (rx, []) else .error .closed
  | rx, chunk :: chunks =>
    if total ≤ rx.length then .ok (rx, chunk :: chunks)
    else
      match recvInto rx chunk with
      | .error e => .error e
      | .ok rx => fillTo total rx chunks

section

variable {σ : Type} (answer : σ → Bytes → Option σ)

/-- The messages handed to the connection, and how it ended. `answer` is the connection's, with its response sent;
it has none when the message is no SMB2 or the peer is gone. -/
def serveFrom : ℕ → σ → Bytes → List Bytes → List Bytes × End
  | 0, _, _, _ => ([], .spins)
  | fuel + 1, s, rx, chunks =>
    match fillTo XPORT_LEN rx chunks with
    | .error e => ([], e)
    | .ok (rx, chunks) =>
      match xportParse rx with
      | none => ([], .malformed)
      | some mlen =>
        match fillTo (XPORT_LEN + mlen) rx chunks with
        | .error e => ([], e)
        | .ok (rx, chunks) =>
          let msg := window rx XPORT_LEN mlen
          match answer s msg with
          | none => ([msg], .dropped)
          | some s =>
            if isLogoff msg then ([msg], .loggedOff)
            else
              let (msgs, e) := serveFrom fuel s (rx.drop (XPORT_LEN + mlen)) chunks
              (msg :: msgs, e)

def serveConnection (s : σ) (chunks : List Bytes) : List Bytes × End :=
  serveFrom answer (chunks.flatten.length + 1) s [] chunks

/-- What a stream holds: messages behind their lengths, up to the first that ends the connection. -/
inductive Delivers : σ → Bytes → List Bytes → End → Prop
  | short {s : σ} {stream : Bytes} : stream.length < XPORT_LEN → Delivers s stream [] .closed
  | cut {s : σ} {stream : Bytes} {mlen : ℕ} : xportParse stream = some mlen → stream.length < XPORT_LEN + mlen →
      Delivers s stream [] .closed
  | malformed {s : σ} {stream : Bytes} : XPORT_LEN ≤ stream.length → xportParse stream = none →
      Delivers s stream [] .malformed
  | dropped {s : σ} {hdr msg rest : Bytes} : hdr.length = XPORT_LEN → xportParse hdr = some msg.length →
      answer s msg = none → Delivers s (hdr ++ msg ++ rest) [msg] .dropped
  | loggedOff {s s' : σ} {hdr msg rest : Bytes} : hdr.length = XPORT_LEN → xportParse hdr = some msg.length →
      answer s msg = some s' → isLogoff msg = true → Delivers s (hdr ++ msg ++ rest) [msg] .loggedOff
  | next {s s' : σ} {hdr msg rest : Bytes} {msgs : List Bytes} {e : End} : hdr.length = XPORT_LEN →
      xportParse hdr = some msg.length → answer s msg = some s' → isLogoff msg = false → Delivers s' rest msgs e →
      Delivers s (hdr ++ msg ++ rest) (msg :: msgs) e

variable {answer} {s : σ} {rx stream : Bytes} {chunks : List Bytes} {total mlen fuel : ℕ}

lemma xportParse_append (h : XPORT_LEN ≤ rx.length) (rest : Bytes) : xportParse (rx ++ rest) = xportParse rx := by
  have hhead : (rx ++ rest).head? = rx.head? := head?_append_of_ne_nil _
    (ne_nil_of_length_pos (by grind [XPORT_LEN]))
  have hwindow : window (rx ++ rest) 1 3 = window rx 1 3 := by
    apply ext_getElem?
    grind [XPORT_LEN, getElem?_window]
  rw [xportParse, xportParse, hhead, hwindow]

lemma xportParse_le (h : xportParse rx = some mlen) : 0 < mlen ∧ mlen ≤ MAX_MESSAGE := by
  unfold xportParse at h
  grind

/-- Chunks that a receive can return. -/
def Received (chunks : List Bytes) : Prop := ∀ c ∈ chunks, c ≠ [] ∧ c.length ≤ DATA_MAX

/-- The buffer is filled from the stream, and has room: the peer closes, or the bytes asked for are there. -/
lemma fillTo_run (rx : Bytes) (htotal : total ≤ XPORT_LEN + MAX_MESSAGE) (hchunks : Received chunks) :
    ((rx ++ chunks.flatten).length < total ∧ fillTo total rx chunks = .error .closed) ∨
      ∃ rx' chunks', fillTo total rx chunks = .ok (rx', chunks') ∧ total ≤ rx'.length ∧ Received chunks' ∧
        rx' ++ chunks'.flatten = rx ++ chunks.flatten := by
  induction chunks generalizing rx with
  | nil =>
    rw [fillTo]
    split_ifs with h
    · exact .inr ⟨rx, [], rfl, h, hchunks, rfl⟩
    · exact .inl ⟨by simpa using h, rfl⟩
  | cons c cs ih =>
    obtain ⟨⟨hne, hle⟩, hcs⟩ := forall_mem_cons.mp hchunks
    rw [fillTo]
    split_ifs with h
    · exact .inr ⟨rx, c :: cs, rfl, h, hchunks, rfl⟩
    · have hroom : ¬ RX_CAP < rx.length + c.length := by
        unfold RX_CAP
        omega
      rw [recvInto, if_neg hne, take_of_length_le hle, if_neg hroom]
      simpa only [flatten_cons, append_assoc] using ih (rx ++ c) hcs

lemma fillTo_nil : fillTo total stream [] = if total ≤ stream.length then .ok (stream, [])
    else .error .closed := rfl

lemma window_left {rest : Bytes} (h : XPORT_LEN + mlen ≤ rx.length) :
    window (rx ++ rest) XPORT_LEN mlen = window rx XPORT_LEN mlen := by
  rw [window, window, drop_append_of_le_length (by omega), take_append_of_le_length (by grind)]

/-- The stream alone decides: however it is cut, the same happens as when all of it is in the buffer. -/
lemma serveFrom_eq (h : Received chunks) :
    serveFrom answer fuel s rx chunks = serveFrom answer fuel s (rx ++ chunks.flatten) [] := by
  induction fuel generalizing s rx chunks with
  | zero => rfl
  | succ fuel ih =>
    rw [serveFrom, serveFrom, fillTo_nil]
    rcases fillTo_run rx (Nat.le_add_right _ _) h with ⟨hlt, hrun⟩ | ⟨rx₁, chunks₁, hrun, hlen, h₁, hsame⟩
    · rw [hrun, if_neg (by omega)]
    have hlen' : XPORT_LEN ≤ (rx ++ chunks.flatten).length := by grind
    rw [hrun, if_pos hlen', ← hsame]
    dsimp only
    rw [xportParse_append hlen]
    cases hm : xportParse rx₁ with
    | none => rfl
    | some mlen =>
      dsimp only
      rw [fillTo_nil]
      rcases fillTo_run rx₁ (Nat.add_le_add_left (xportParse_le hm).2 _) h₁ with
        ⟨hlt, hrun⟩ | ⟨rx₂, chunks₂, hrun, hlen₂, h₂, hsame₂⟩
      · rw [hrun, if_neg (by omega)]
      have hlen₂' : XPORT_LEN + mlen ≤ (rx₁ ++ chunks₁.flatten).length := by grind
      rw [hrun, if_pos hlen₂', ← hsame₂]
      dsimp only
      rw [window_left hlen₂]
      cases answer s (window rx₂ XPORT_LEN mlen) with
      | none => rfl
      | some s' =>
        dsimp only
        rw [ih h₂, drop_append_of_le_length hlen₂]

lemma serveFrom_delivers (hfuel : stream.length < fuel) :
    Delivers answer s stream (serveFrom answer fuel s stream []).1 (serveFrom answer fuel s stream []).2 := by
  induction fuel generalizing s stream with
  | zero => omega
  | succ fuel ih =>
    rw [serveFrom, fillTo_nil]
    by_cases hlen : XPORT_LEN ≤ stream.length
    swap
    · rw [if_neg hlen]
      exact .short (by omega)
    rw [if_pos hlen]
    dsimp only
    cases hm : xportParse stream with
    | none => exact .malformed hlen hm
    | some mlen =>
      dsimp only
      rw [fillTo_nil]
      by_cases hlen₂ : XPORT_LEN + mlen ≤ stream.length
      swap
      · rw [if_neg hlen₂]
        exact .cut hm (by omega)
      rw [if_pos hlen₂]
      obtain ⟨hdr, msg, rest, rfl, hhdr, hmsg⟩ : ∃ hdr msg rest, stream = hdr ++ msg ++ rest ∧
          hdr.length = XPORT_LEN ∧ msg.length = mlen := by
        refine ⟨stream.take XPORT_LEN, window stream XPORT_LEN mlen, stream.drop (XPORT_LEN + mlen), ?_, ?_, ?_⟩
        · rw [window, ← drop_drop, append_assoc, take_append_drop, take_append_drop]
        · exact length_take_of_le hlen
        · exact length_window hlen₂
      have hwindow : window (hdr ++ msg ++ rest) XPORT_LEN mlen = msg := by
        rw [window, append_assoc, drop_left' hhdr, take_left' hmsg]
      have hrest : (hdr ++ msg ++ rest).drop (XPORT_LEN + mlen) = rest := drop_left' (by simp [hhdr, hmsg])
      have hparse : xportParse hdr = some msg.length := by
        rw [hmsg, ← hm, append_assoc, xportParse_append hhdr.ge]
      have hpos := (xportParse_le hm).1
      dsimp only
      rw [hwindow, hrest]
      cases ha : answer s msg with
      | none => exact .dropped hhdr hparse ha
      | some s' =>
        split_ifs with hlogoff
        · exact .loggedOff hhdr hparse ha hlogoff
        · exact .next hhdr hparse ha (by simpa using hlogoff) (ih (by grind))

/-- However the stream is cut into receives: the connection is handed its messages in order, up to the one that
ends it, and the buffer does not overrun. -/
theorem framing_ignores_the_cuts (answer : σ → Bytes → Option σ) (s : σ) (chunks : List Bytes)
    (hchunks : Received chunks) : Delivers answer s chunks.flatten (serveConnection answer s chunks).1
    (serveConnection answer s chunks).2 ∧ ∀ chunks', Received chunks' → chunks'.flatten = chunks.flatten →
      serveConnection answer s chunks' = serveConnection answer s chunks := by
  have heq : ∀ {cs}, Received cs → serveConnection answer s cs =
    serveFrom answer (cs.flatten.length + 1) s cs.flatten [] :=
    fun hcs => serveFrom_eq hcs
  refine ⟨?_, fun chunks' h' hflat => ?_⟩
  · rw [heq hchunks]
    exact serveFrom_delivers (Nat.lt_succ_self _)
  · rw [heq h', heq hchunks, hflat]

/-- Two messages, cut within the second one's length. -/
def pipelined : List Bytes := [[0, 0, 0, 2, 7, 8, 0, 0], [0, 1, 9]]

theorem framing_of_two_messages : Received pipelined ∧
    serveConnection (fun _ _ => some ()) () pipelined = ([[7, 8], [9]], .closed) ∧
    Delivers (fun _ _ => some ()) () pipelined.flatten (serveConnection (fun _ _ => some ()) () pipelined).1
      (serveConnection (fun _ _ => some ()) () pipelined).2 :=
  have h : Received pipelined := by
    unfold Received
    decide
  ⟨h, by decide, (framing_ignores_the_cuts (fun _ _ => some ()) () pipelined h).1⟩

end

end CrickerOs.SmbServer
