import CrickerOs.Library.Bytes

namespace CrickerOs.SmbProto

open Library Library.Bytes

def HDR_LEN : ℕ := 64

def MAX_TRANSACT : ℕ := 65536

def MAX_MESSAGE : ℕ := MAX_TRANSACT + 512

def field (n : ℕ) (b : Bytes) (off : ℕ) : ℕ := if off + n ≤ b.length then leVal (window b off n) else 0

abbrev r16 := field 2
abbrev r32 := field 4
abbrev r64 := field 8

def PROTOCOL_ID : Bytes := [0xFE, 83, 77, 66]

def isSmb2 (msg : Bytes) : Bool :=
  HDR_LEN ≤ msg.length ∧ msg.take 4 = PROTOCOL_ID ∧ r16 msg 4 = HDR_LEN

end CrickerOs.SmbProto
