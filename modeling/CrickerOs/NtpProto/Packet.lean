import CrickerOs.Library.Bytes

namespace CrickerOs.NtpProto

open Library Library.Bytes

def PACKET_LEN : ℕ := 48

def VERSION : ℕ := 4

def UNIX_DELTA : ℕ := 2208988800

def TICKS_PER_SEC : ℕ := 2 ^ 32

def NANOS_PER_SEC : ℕ := 1000000000

def UNIX_MIN : ℕ := 0

def UNIX_LIMIT : ℕ := (TICKS_PER_SEC - UNIX_DELTA) + 2 ^ 31

def MAX_STRATUM : ℕ := 15

structure Timestamp where
  bits : UInt64
  deriving DecidableEq

def nanosToTicks (nanos : ℕ) : ℕ := (nanos * TICKS_PER_SEC + NANOS_PER_SEC / 2) / NANOS_PER_SEC

def ticksToNanos (ticks : ℕ) : ℕ := min ((ticks * NANOS_PER_SEC + TICKS_PER_SEC / 2) / TICKS_PER_SEC)
    (NANOS_PER_SEC - 1)

namespace Timestamp

def ZERO : Timestamp := ⟨0⟩

def seconds (t : Timestamp) : ℕ := t.bits.toNat / TICKS_PER_SEC

def fraction (t : Timestamp) : ℕ := t.bits.toNat % TICKS_PER_SEC

def fromUnix (secs nanos : ℕ) : Option Timestamp :=
  if NANOS_PER_SEC ≤ nanos ∨ UNIX_LIMIT ≤ secs then none
  else some ⟨.ofNat ((secs + UNIX_DELTA) % TICKS_PER_SEC * TICKS_PER_SEC + nanosToTicks nanos)⟩

def toUnix (t : Timestamp) : ℕ × ℕ :=
  (if 2 ^ 31 ≤ t.seconds then t.seconds - UNIX_DELTA else t.seconds + TICKS_PER_SEC - UNIX_DELTA,
    ticksToNanos t.fraction)

def since (t other : Timestamp) : ℤ := (t.bits - other.bits).toBitVec.toInt

end Timestamp

structure Packet where
  leap : ℕ
  version : ℕ
  mode : ℕ
  stratum : ℕ
  poll : ℤ
  precision : ℤ
  rootDelay : ℕ
  rootDispersion : ℕ
  referenceId : Bytes
  reference : Timestamp
  origin : Timestamp
  receive : Timestamp
  transmit : Timestamp
  deriving DecidableEq

inductive Reject
  | length (len : ℕ)
  | version (version : ℕ)
  | mode (mode : ℕ)
  | kissOfDeath (code : Bytes)
  | stratum (stratum : ℕ)
  | unsynchronised
  | originMismatch
  | transmitZero
  | serverOrderReversed
  | clientOrderReversed
  | negativeDelay
  | rootDistance
  deriving DecidableEq

namespace Packet

def SERVER : ℕ := 4

def UNSYNCHRONISED : ℕ := 3

section

variable (wire : Bytes)

def be32 (off : ℕ) : ℕ := beVal (window wire off 4)

def stampAt (off : ℕ) : Timestamp := ⟨.ofNat (beVal (window wire off 8))⟩

def byteAt (i : ℕ) : ℕ := beVal (window wire i 1)

def signedAt (i : ℕ) : ℤ := (BitVec.ofNat 8 (byteAt wire i)).toInt

def parse : Except Reject Packet :=
  if wire.length ≠ PACKET_LEN then .error (.length wire.length)
  else .ok
    { leap := byteAt wire 0 / 64
      version := byteAt wire 0 / 8 % 8
      mode := byteAt wire 0 % 8
      stratum := byteAt wire 1
      poll := signedAt wire 2
      precision := signedAt wire 3
      rootDelay := be32 wire 4
      rootDispersion := be32 wire 8
      referenceId := window wire 12 4
      reference := stampAt wire 16
      origin := stampAt wire 24
      receive := stampAt wire 32
      transmit := stampAt wire 40 }

end

def MAX_ROOT_DISTANCE : ℕ := 16 * 2 ^ 16

def rootDistance (p : Packet) : ℕ := min (p.rootDelay / 2 + p.rootDispersion) (2 ^ 32 - 1)

end Packet

structure Sample where
  offset : ℤ
  delay : ℤ
  response : Packet
  deriving DecidableEq

structure Query where
  nonce : Timestamp
  sent : Timestamp

/-- The checks on a reply, in their order, and the sample. The differences are within 64 bits, so their sums are
exact in the 128 bits the program keeps. -/
def Query.accept (q : Query) (wire : Bytes) (dest : Timestamp) : Except Reject Sample := do
  let p ← Packet.parse wire
  if p.version ≠ VERSION then .error (.version p.version)
  else if p.mode ≠ Packet.SERVER then .error (.mode p.mode)
  else if p.origin ≠ q.nonce then .error .originMismatch
  else if p.stratum = 0 then .error (.kissOfDeath p.referenceId)
  else if MAX_STRATUM < p.stratum then .error (.stratum p.stratum)
  else if p.leap = Packet.UNSYNCHRONISED then .error .unsynchronised
  else if p.transmit = .ZERO then .error .transmitZero
  else if Packet.MAX_ROOT_DISTANCE < p.rootDistance then .error .rootDistance
  else
    let server := p.transmit.since p.receive
    let round := dest.since q.sent
    if server < 0 then .error .serverOrderReversed
    else if round < 0 then .error .clientOrderReversed
    else if round - server < 0 then .error .negativeDelay
    else .ok ⟨((p.receive.since q.sent + p.transmit.since dest).tdiv 2), round - server, p⟩

end CrickerOs.NtpProto
