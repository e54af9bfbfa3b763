import CrickerOs.Library.Bytes

namespace CrickerOs.MeasuredBoot

open Library Library.Bytes List

abbrev Word := BitVec 32

structure Words where
  a : Word
  b : Word
  c : Word
  d : Word
  e : Word
  f : Word
  g : Word
  h : Word
  deriving DecidableEq

def Words.bytes (v : Words) : Bytes := [v.a, v.b, v.c, v.d, v.e, v.f, v.g, v.h].flatMap fun x => toBe 4 x.toNat

def word (block : Bytes) (i : ℕ) : Word := .ofNat 32 (beVal (window block (i * 4) 4))

def K : List ℕ := [
  0x428a2f98, 0x71374491, 0xb5c0fbcf, 0xe9b5dba5, 0x3956c25b, 0x59f111f1, 0x923f82a4, 0xab1c5ed5,
  0xd807aa98, 0x12835b01, 0x243185be, 0x550c7dc3, 0x72be5d74, 0x80deb1fe, 0x9bdc06a7, 0xc19bf174,
  0xe49b69c1, 0xefbe4786, 0x0fc19dc6, 0x240ca1cc, 0x2de92c6f, 0x4a7484aa, 0x5cb0a9dc, 0x76f988da,
  0x983e5152, 0xa831c66d, 0xb00327c8, 0xbf597fc7, 0xc6e00bf3, 0xd5a79147, 0x06ca6351, 0x14292967,
  0x27b70a85, 0x2e1b2138, 0x4d2c6dfc, 0x53380d13, 0x650a7354, 0x766a0abb, 0x81c2c92e, 0x92722c85,
  0xa2bfe8a1, 0xa81a664b, 0xc24b8b70, 0xc76c51a3, 0xd192e819, 0xd6990624, 0xf40e3585, 0x106aa070,
  0x19a4c116, 0x1e376c08, 0x2748774c, 0x34b0bcb5, 0x391c0cb3, 0x4ed8aa4a, 0x5b9cca4f, 0x682e6ff3,
  0x748f82ee, 0x78a5636f, 0x84c87814, 0x8cc70208, 0x90befffa, 0xa4506ceb, 0xbef9a3f7, 0xc67178f2]

def H0 : Words :=
  ⟨0x6a09e667, 0xbb67ae85, 0x3c6ef372, 0xa54ff53a, 0x510e527f, 0x9b05688c, 0x1f83d9ab, 0x5be0cd19⟩

def extend (w : ℕ → Word) (i : ℕ) : ℕ → Word :=
  let s0 := (w (i - 15)).rotateRight 7 ^^^ (w (i - 15)).rotateRight 18 ^^^ w (i - 15) >>> 3
  let s1 := (w (i - 2)).rotateRight 17 ^^^ (w (i - 2)).rotateRight 19 ^^^ w (i - 2) >>> 10
  Function.update w i (w (i - 16) + s0 + w (i - 7) + s1)

def schedule (block : Bytes) : ℕ → Word :=
  (List.range' 16 48).foldl extend fun i => if i < 16 then word block i else 0

def round (w : ℕ → Word) (v : Words) (i : ℕ) : Words :=
  let s1 := v.e.rotateRight 6 ^^^ v.e.rotateRight 11 ^^^ v.e.rotateRight 25
  let ch := (v.e &&& v.f) ^^^ (~~~v.e &&& v.g)
  let t1 := v.h + s1 + ch + .ofNat 32 (K.getD i 0) + w i
  let s0 := v.a.rotateRight 2 ^^^ v.a.rotateRight 13 ^^^ v.a.rotateRight 22
  let maj := (v.a &&& v.b) ^^^ (v.a &&& v.c) ^^^ (v.b &&& v.c)
  let t2 := s0 + maj
  ⟨t1 + t2, v.a, v.b, v.c, v.d + t1, v.e, v.f, v.g⟩

def compress (h : Words) (block : Bytes) : Words :=
  let v := (List.range 64).foldl (round (schedule block)) h
  ⟨h.a + v.a, h.b + v.b, h.c + v.c, h.d + v.d, h.e + v.e, h.f + v.f, h.g + v.g, h.h + v.h⟩

/-- The bytes of `block` below `filled` are those of the message that are not part of a full block yet. -/
structure Sha256 where
  h : Words
  block : Bytes
  filled : ℕ
  len : ℕ
  length_block : block.length = 64
  filled_lt : filled < 64

namespace Sha256

def new : Sha256 := ⟨H0, List.replicate 64 0, 0, 0, List.length_replicate, by decide⟩

def taken (s : Sha256) (bytes : Bytes) : ℕ := if bytes.length < 64 - s.filled then bytes.length else 64 - s.filled

lemma taken_eq (s : Sha256) (bytes : Bytes) : s.taken bytes = min bytes.length (64 - s.filled) := by
  rw [taken]
  split_ifs <;> omega

def fill (s : Sha256) (bytes : Bytes) : Sha256 :=
  let block := overwrite s.block s.filled (bytes.take (s.taken bytes))
  have hblock : block.length = 64 := length_overwrite.trans s.length_block
  if h : s.filled + s.taken bytes = 64 then ⟨compress s.h block, block, 0, s.len, hblock, by decide⟩
  else ⟨s.h, block, s.filled + s.taken bytes, s.len, hblock, by
    have := taken_eq s bytes; have := s.filled_lt; omega⟩

def absorb (s : Sha256) (bytes : Bytes) : Sha256 :=
  if bytes = [] then s else absorb (s.fill bytes) (bytes.drop (s.taken bytes))
  termination_by bytes.length
  decreasing_by
    have := taken_eq s bytes
    have := s.filled_lt
    have := List.length_pos_of_ne_nil ‹¬ bytes = []›
    rw [List.length_drop]
    omega

def update (s : Sha256) (bytes : Bytes) : Sha256 :=
  absorb { s with len := (s.len + bytes.length) % 2 ^ 64 } bytes

lemma filled_fill (s : Sha256) (bytes : Bytes) : (s.fill bytes).filled = (s.filled + s.taken bytes) % 64 := by
  have := taken_eq s bytes
  have := s.filled_lt
  rw [fill]
  split_ifs with h
  · rw [h]
  · have hlt : s.filled + s.taken bytes < 64 := by omega
    exact (Nat.mod_eq_of_lt hlt).symm

lemma filled_absorb (s : Sha256) (bytes : Bytes) : (s.absorb bytes).filled = (s.filled + bytes.length) % 64 := by
  induction s, bytes using absorb.induct with
  | case1 s => rw [absorb, if_pos rfl, length_nil, add_zero, Nat.mod_eq_of_lt s.filled_lt]
  | case2 s bytes h ih =>
    have := taken_eq s bytes
    rw [absorb, if_neg h, ih, filled_fill, length_drop]
    omega

def padding (s : Sha256) : Sha256 :=
  if s.filled = 56 then s else padding (s.update [0])
  termination_by (120 - s.filled) % 64
  decreasing_by
    have hfilled : (s.update [0]).filled = (s.filled + 1) % 64 := filled_absorb _ _
    have := s.filled_lt
    rw [hfilled]
    omega

def finalize (s : Sha256) : Bytes :=
  let bits := s.len * 8 % 2 ^ 64
  let s := (s.update [0x80]).padding
  (compress s.h (overwrite s.block 56 (toBe 8 bits))).bytes

end Sha256

def sha256 (bytes : Bytes) : Bytes := (Sha256.new.update bytes).finalize

namespace Fips

def primes : List ℕ := (List.range 312).filter fun n => 2 ≤ n ∧ ∀ d ∈ List.range n, 2 ≤ d → n % d ≠ 0

/-- The first 32 bits of the fractional parts of the cube roots of the first 64 primes. -/
def K (t : ℕ) : Word := .ofNat 32 (Nat.nthRoot 3 (primes.getD t 0 * 2 ^ 96))

def sqrtBits (t : ℕ) : Word := .ofNat 32 (Nat.nthRoot 2 (primes.getD t 0 * 2 ^ 64))

def H0 : Words :=
  ⟨sqrtBits 0, sqrtBits 1, sqrtBits 2, sqrtBits 3, sqrtBits 4, sqrtBits 5, sqrtBits 6, sqrtBits 7⟩

def Ch (x y z : Word) : Word := (x &&& y) ^^^ (~~~x &&& z)

def Maj (x y z : Word) : Word := (x &&& y) ^^^ (x &&& z) ^^^ (y &&& z)

def bigSigma0 (x : Word) : Word := x.rotateRight 2 ^^^ x.rotateRight 13 ^^^ x.rotateRight 22

def bigSigma1 (x : Word) : Word := x.rotateRight 6 ^^^ x.rotateRight 11 ^^^ x.rotateRight 25

def sigma0 (x : Word) : Word := x.rotateRight 7 ^^^ x.rotateRight 18 ^^^ x >>> 3

def sigma1 (x : Word) : Word := x.rotateRight 17 ^^^ x.rotateRight 19 ^^^ x >>> 10

def W (block : Bytes) (t : ℕ) : Word :=
  if t < 16 then word block t
  else sigma1 (W block (t - 2)) + W block (t - 7) + sigma0 (W block (t - 15)) + W block (t - 16)

def round (block : Bytes) (v : Words) (t : ℕ) : Words :=
  let T₁ := v.h + bigSigma1 v.e + Ch v.e v.f v.g + K t + W block t
  let T₂ := bigSigma0 v.a + Maj v.a v.b v.c
  ⟨T₁ + T₂, v.a, v.b, v.c, v.d + T₁, v.e, v.f, v.g⟩

def compress (H : Words) (block : Bytes) : Words :=
  let v := (List.range 64).foldl (round block) H
  ⟨v.a + H.a, v.b + H.b, v.c + H.c, v.d + H.d, v.e + H.e, v.f + H.f, v.g + H.g, v.h + H.h⟩

def hashFrom (H : Words) (message : Bytes) : Words :=
  if message.length < 64 then H else hashFrom (compress H (message.take 64)) (message.drop 64)
  termination_by message.length

def pad (message : Bytes) : Bytes :=
  message ++ [0x80] ++ List.replicate ((119 - message.length % 64) % 64) 0 ++ toBe 8 (8 * message.length)

def sha256 (message : Bytes) : Bytes := (hashFrom H0 (pad message)).bytes

end Fips

lemma K_eq : K = Fips.primes.map fun p => Nat.nthRoot 3 (p * 2 ^ 96) % 2 ^ 32 := by decide +kernel

lemma K_getD {t : ℕ} (ht : t < 64) : (.ofNat 32 (K.getD t 0) : Word) = Fips.K t := by
  have hmod (n : ℕ) : (.ofNat 32 (n % 2 ^ 32) : Word) = .ofNat 32 n := BitVec.eq_of_toNat_eq (by simp)
  have hlength : Fips.primes.length = 64 := by decide +kernel
  obtain ⟨p, hp⟩ : ∃ p, Fips.primes[t]? = some p := ⟨_, getElem?_eq_getElem (by rw [hlength]; exact ht)⟩
  rw [K_eq, Fips.K, getD_eq_getElem?_getD, getElem?_map, getD_eq_getElem?_getD, hp, Option.map_some,
    Option.getD_some, Option.getD_some, hmod]

lemma H0_eq : H0 = Fips.H0 := by decide +kernel

lemma schedule_loop (block : Bytes) {n t : ℕ} (ht : t < 16 + n) :
    (range' 16 n).foldl extend (fun i => if i < 16 then word block i else 0) t = Fips.W block t := by
  induction n generalizing t with
  | zero => rw [Fips.W, if_pos ht]; exact if_pos ht
  | succ n ih =>
    rw [range'_concat, foldl_append, foldl_cons, foldl_nil, extend, one_mul]
    by_cases htop : t = 16 + n
    · rw [htop, Function.update_self, Fips.W, if_neg (by omega), ih (by omega), ih (by omega), ih (by omega),
        ih (by omega)]
      rw [Fips.sigma0, Fips.sigma1]
      ac_rfl
    · rw [Function.update_of_ne htop, ih (by omega)]

lemma compress_eq (h : Words) (block : Bytes) : compress h block = Fips.compress h block := by
  have hround (v : Words) : ∀ i ∈ range 64, round (schedule block) v i = Fips.round block v i := by
    intro i hi
    have hlt := mem_range.mp hi
    rw [round, Fips.round, K_getD hlt, schedule, schedule_loop block (by omega), Fips.bigSigma0, Fips.bigSigma1,
      Fips.Ch, Fips.Maj]
  have hrounds : (range 64).foldl (round (schedule block)) h = (range 64).foldl (Fips.round block) h :=
    foldl_ext _ _ _ fun v i hi => hround v i hi
  rw [compress, Fips.compress, hrounds]
  simp only [BitVec.add_comm]

lemma hashFrom_block {H : Words} {block : Bytes} (h : block.length = 64) :
    Fips.hashFrom H block = Fips.compress H block := by
  rw [Fips.hashFrom, if_neg (by omega), take_of_length_le h.le, drop_eq_nil_of_le h.le, Fips.hashFrom]
  exact if_pos (by decide)

lemma hashFrom_append {H : Words} {done rest : Bytes} (h : 64 ∣ done.length) :
    Fips.hashFrom H (done ++ rest) = Fips.hashFrom (Fips.hashFrom H done) rest := by
  induction H, done using Fips.hashFrom.induct with
  | case1 H done hshort =>
    obtain rfl : done = [] := length_eq_zero_iff.mp (by omega)
    rw [nil_append, Fips.hashFrom.eq_1 H [], if_pos hshort]
  | case2 H done hlong ih =>
    have hle : 64 ≤ done.length := by omega
    rw [Fips.hashFrom, if_neg (by rw [length_append]; omega), take_append_of_le_length hle,
      drop_append_of_le_length hle, ih (by rw [length_drop]; omega), Fips.hashFrom.eq_1 H done, if_neg hlong]

namespace Sha256

/-- The message so far: whole blocks that went into the hash, and the rest, which waits in the buffer. -/
def Follows (s : Sha256) (message : Bytes) : Prop :=
  ∃ done, 64 ∣ done.length ∧ message = done ++ s.block.take s.filled ∧ s.h = Fips.hashFrom Fips.H0 done

variable {s : Sha256} {message bytes : Bytes}

lemma follows_new : new.Follows [] := by
  refine ⟨[], by decide, rfl, ?_⟩
  rw [Fips.hashFrom, if_pos (by decide)]
  exact H0_eq

section

variable (h : s.Follows message)
include h

lemma filled_eq : s.filled = message.length % 64 := by
  obtain ⟨done, hdone, rfl, -⟩ := h
  have := s.filled_lt
  rw [length_append, length_take, s.length_block]
  omega

lemma follows_fill (bytes : Bytes) : (s.fill bytes).Follows (message ++ bytes.take (s.taken bytes)) := by
  obtain ⟨done, hdone, rfl, hhash⟩ := h
  have htaken := taken_eq s bytes
  have hfilled := s.filled_lt
  have hlength : (bytes.take (s.taken bytes)).length = s.taken bytes := by rw [length_take]; omega
  have hpending : (overwrite s.block s.filled (bytes.take (s.taken bytes))).take (s.filled + s.taken bytes) =
      s.block.take s.filled ++ bytes.take (s.taken bytes) := by
    have hfits : s.filled + (bytes.take (s.taken bytes)).length ≤ s.block.length := by
      rw [hlength, s.length_block]
      omega
    rw [← take_overwrite hfits, hlength]
  rw [fill, append_assoc, ← hpending]
  split_ifs with hfull
  · -- the buffer is full, and its block goes into the hash
    set block := overwrite s.block s.filled (bytes.take (s.taken bytes)) with hblock
    have h64 : block.length = 64 := length_overwrite.trans s.length_block
    refine ⟨done ++ block, ?_, ?_, ?_⟩
    · rw [length_append, h64]
      omega
    · rw [hfull, take_of_length_le h64.le, take_zero, append_nil]
    · rw [hashFrom_append hdone, hashFrom_block h64, ← hhash, compress_eq]
  · exact ⟨done, hdone, rfl, hhash⟩

lemma follows_absorb (bytes : Bytes) : (s.absorb bytes).Follows (message ++ bytes) := by
  induction s, bytes using absorb.induct generalizing message with
  | case1 s => rwa [absorb, if_pos rfl, append_nil]
  | case2 s bytes hne ih =>
    rw [absorb, if_neg hne]
    have hrest := ih (follows_fill h bytes)
    rwa [append_assoc, take_append_drop] at hrest

lemma follows_update (bytes : Bytes) : (s.update bytes).Follows (message ++ bytes) :=
  follows_absorb (s := { s with len := (s.len + bytes.length) % 2 ^ 64 }) h bytes

end

lemma len_fill : (s.fill bytes).len = s.len := by
  rw [fill]
  split_ifs <;> rfl

lemma len_absorb : (s.absorb bytes).len = s.len := by
  induction s, bytes using absorb.induct with
  | case1 s => rw [absorb, if_pos rfl]
  | case2 s bytes hne ih => rw [absorb, if_neg hne, ih, len_fill]

lemma len_update : (s.update bytes).len = (s.len + bytes.length) % 2 ^ 64 := len_absorb

lemma follows_padding (h : s.Follows message) :
    s.padding.Follows (message ++ replicate ((120 - message.length % 64) % 64) 0) ∧ s.padding.filled = 56 := by
  induction s using padding.induct generalizing message with
  | case1 s hs =>
    have hzero : (120 - message.length % 64) % 64 = 0 := by rw [← filled_eq h, hs]
    rw [padding, if_pos hs, hzero, replicate_zero, append_nil]
    exact ⟨h, hs⟩
  | case2 s hs ih =>
    rw [padding, if_neg hs]
    obtain ⟨hfollows, hfilled⟩ := ih (follows_update h [0])
    have hmod := filled_eq h
    have hlt := s.filled_lt
    have hcount : (120 - message.length % 64) % 64 = (120 - (message.length + 1) % 64) % 64 + 1 := by omega
    rw [append_assoc, length_append, length_singleton, singleton_append, ← replicate_succ,
      ← hcount] at hfollows
    exact ⟨hfollows, hfilled⟩

lemma finalize_eq (h : s.Follows message) (hlen : s.len = message.length) (hshort : message.length < 2 ^ 61) :
    s.finalize = Fips.sha256 message := by
  obtain ⟨hpadded, hfilled⟩ := follows_padding (follows_update h [0x80])
  have hzeros : (120 - (message ++ [0x80]).length % 64) % 64 = (119 - message.length % 64) % 64 := by
    rw [length_append, length_singleton]
    omega
  rw [hzeros] at hpadded
  rw [finalize, hlen, Nat.mod_eq_of_lt (by omega), Fips.sha256, Fips.pad, mul_comm 8]
  set p := (s.update [0x80]).padding
  obtain ⟨done, hdone, hmessage, hhash⟩ := hpadded
  have hlast : overwrite p.block 56 (toBe 8 (message.length * 8)) = p.block.take 56 ++
    toBe 8 (message.length * 8) := by
    have hfits : 56 + (toBe 8 (message.length * 8)).length ≤ p.block.length := by rw [length_toBe, p.length_block]
    rw [← take_overwrite hfits, take_of_length_le (by rw [length_overwrite, length_toBe, p.length_block])]
  have h64 : (overwrite p.block 56 (toBe 8 (message.length * 8))).length = 64 :=
    length_overwrite.trans p.length_block
  rw [compress_eq, ← hashFrom_block h64, hhash, ← hashFrom_append hdone, hlast, hmessage, hfilled, append_assoc]

end Sha256

lemma follows_pieces {s : Sha256} {message : Bytes} (pieces : List Bytes) (h : s.Follows message)
    (hlen : s.len = message.length) (hshort : (message ++ pieces.flatten).length < 2 ^ 61) :
    (pieces.foldl Sha256.update s).finalize = Fips.sha256 (message ++ pieces.flatten) := by
  induction pieces generalizing s message with
  | nil =>
    rw [flatten_nil, append_nil] at hshort ⊢
    exact Sha256.finalize_eq h hlen hshort
  | cons piece pieces ih =>
    rw [flatten_cons, ← append_assoc] at hshort ⊢
    refine ih (Sha256.follows_update h piece) ?_ hshort
    rw [length_append] at hshort
    rw [Sha256.len_update, hlen, ← length_append, Nat.mod_eq_of_lt (by omega)]

/-- Whatever the pieces a message is fed in, the digest is that of FIPS 180-4. -/
theorem finalize_is_sha256_of_the_pieces (pieces : List Bytes) (hshort : pieces.flatten.length < 2 ^ 61) :
    (pieces.foldl Sha256.update Sha256.new).finalize = Fips.sha256 pieces.flatten ∧
      sha256 pieces.flatten = Fips.sha256 pieces.flatten := by
  have hpieces := follows_pieces pieces Sha256.follows_new rfl (by rwa [List.nil_append])
  have hwhole := follows_pieces [pieces.flatten] Sha256.follows_new rfl
    (by rwa [List.nil_append, List.flatten_singleton])
  rw [List.nil_append] at hpieces
  rw [List.nil_append, List.flatten_singleton] at hwhole
  exact ⟨hpieces, hwhole⟩

theorem finalize_is_sha256_of_abc :
    ([[97], [], [98, 99]].foldl Sha256.update Sha256.new).finalize = Fips.sha256 [97, 98, 99] ∧
      sha256 [97, 98, 99] = Fips.sha256 [97, 98, 99] :=
  finalize_is_sha256_of_the_pieces [[97], [], [98, 99]] (by decide)

end CrickerOs.MeasuredBoot
