import CrickerOs.NtpProto.Packet

/-! What a sample says about the two clocks. Instants are counted in ticks from the Unix epoch, on either clock. -/

namespace CrickerOs.NtpProto

open Library Library.Bytes

def stamp (t : ℤ) : Timestamp := ⟨⟨BitVec.ofInt 64 (t + UNIX_DELTA * TICKS_PER_SEC)⟩⟩

def InWindow (t : ℤ) : Prop := UNIX_MIN * TICKS_PER_SEC ≤ t ∧ t < UNIX_LIMIT * TICKS_PER_SEC

variable {nanos secs : ℕ}

lemma nanosToTicks_lt (h : nanos < NANOS_PER_SEC) : nanosToTicks nanos < TICKS_PER_SEC := by
  unfold nanosToTicks
  rw [Nat.div_lt_iff_lt_mul (by decide)]
  simp only [NANOS_PER_SEC, TICKS_PER_SEC] at h ⊢
  omega

lemma ticksToNanos_nanosToTicks (h : nanos < NANOS_PER_SEC) : ticksToNanos (nanosToTicks nanos) = nanos := by
  simp only [ticksToNanos, nanosToTicks, NANOS_PER_SEC, TICKS_PER_SEC] at h ⊢
  omega

section

variable {secs ticks : ℕ}

def parts (secs ticks : ℕ) : Timestamp := ⟨.ofNat ((secs + UNIX_DELTA) % TICKS_PER_SEC * TICKS_PER_SEC + ticks)⟩

lemma bits_parts (h : ticks < TICKS_PER_SEC) :
    (parts secs ticks).bits.toNat = (secs + UNIX_DELTA) % TICKS_PER_SEC * TICKS_PER_SEC + ticks := by
  rw [parts, UInt64.toNat_ofNat']
  simp only [UNIX_DELTA, TICKS_PER_SEC] at h ⊢
  omega

lemma seconds_parts (h : ticks < TICKS_PER_SEC) : (parts secs ticks).seconds = (secs + UNIX_DELTA) %
    TICKS_PER_SEC := by
  rw [Timestamp.seconds, bits_parts h]
  simp only [UNIX_DELTA, TICKS_PER_SEC] at h ⊢
  omega

lemma fraction_parts (h : ticks < TICKS_PER_SEC) : (parts secs ticks).fraction = ticks := by
  rw [Timestamp.fraction, bits_parts h]
  simp only [UNIX_DELTA, TICKS_PER_SEC] at h ⊢
  omega

end

lemma era (h : secs < UNIX_LIMIT) :
    (if 2 ^ 31 ≤ (secs + UNIX_DELTA) % TICKS_PER_SEC then (secs + UNIX_DELTA) % TICKS_PER_SEC - UNIX_DELTA
      else (secs + UNIX_DELTA) % TICKS_PER_SEC + TICKS_PER_SEC - UNIX_DELTA) = secs := by
  have hlimit : UNIX_LIMIT = 4233462144 := rfl
  by_cases hhigh : 2 ^ 31 ≤ (secs + UNIX_DELTA) % TICKS_PER_SEC
  · rw [if_pos hhigh]
    simp only [hlimit, UNIX_DELTA, TICKS_PER_SEC] at h hhigh ⊢
    omega
  · rw [if_neg hhigh]
    simp only [hlimit, UNIX_DELTA, TICKS_PER_SEC] at h hhigh ⊢
    omega

lemma toUnix_fromUnix {t : Timestamp} (h : Timestamp.fromUnix secs nanos = some t) :
    t.toUnix = (secs, nanos) := by
  unfold Timestamp.fromUnix at h
  by_cases hin : NANOS_PER_SEC ≤ nanos ∨ UNIX_LIMIT ≤ secs
  · rw [if_pos hin] at h
    cases h
  · rw [if_neg hin] at h
    obtain ⟨hnanos, hsecs⟩ := not_or.mp hin
    have hticks := nanosToTicks_lt (Nat.lt_of_not_le hnanos)
    obtain rfl : parts secs (nanosToTicks nanos) = t := Option.some.inj h
    rw [Timestamp.toUnix, seconds_parts hticks, fraction_parts hticks, era (Nat.lt_of_not_le hsecs),
      ticksToNanos_nanosToTicks (Nat.lt_of_not_le hnanos)]

lemma toUnix_fromUnix_after_rollover : ∃ t, Timestamp.fromUnix 2085978496 999999999 = some t ∧
    t.toUnix = (2085978496, 999999999) :=
  ⟨_, rfl, toUnix_fromUnix rfl⟩

lemma since_stamp_eq {t u : ℤ} : (stamp t).since (stamp u) = (t - u).bmod (2 ^ 64) := by
  have hcancel : t + UNIX_DELTA * TICKS_PER_SEC - (u + UNIX_DELTA * TICKS_PER_SEC) = t - u := by ring
  rw [Timestamp.since, UInt64.toBitVec_sub, BitVec.toInt_sub]
  simp only [stamp, BitVec.toInt_ofInt]
  rw [Int.bmod_sub_bmod, Int.sub_bmod_bmod, hcancel]

lemma since_stamp {t u : ℤ} (hlow : -2 ^ 63 ≤ t - u) (hhigh : t - u < 2 ^ 63) :
    (stamp t).since (stamp u) = t - u :=
  since_stamp_eq.trans (Int.bmod_eq_of_le (by omega) (by omega))

/-- One exchange: when the request left on the client's clock, how far ahead the server's clock is, and how long
the way there, the server and the way back took. -/
structure Exchange where
  sent : ℤ
  theta : ℤ
  out : ℕ
  turnaround : ℕ
  back : ℕ

namespace Exchange

def received (x : Exchange) : ℤ := x.sent + x.out + x.theta

def answered (x : Exchange) : ℤ := x.received + x.turnaround

def landed (x : Exchange) : ℤ := x.sent + x.out + x.turnaround + x.back

def DAY : ℕ := 86400 * TICKS_PER_SEC

structure Documented (x : Exchange) : Prop where
  sent : InWindow x.sent
  received : InWindow x.received
  answered : InWindow x.answered
  landed : InWindow x.landed
  out_lt : x.out < DAY
  turnaround_lt : x.turnaround < DAY
  back_lt : x.back < DAY

end Exchange

structure Replies (wire : Bytes) (q : Query) (receive transmit : Timestamp) (p : Packet) : Prop where
  parsed : Packet.parse wire = .ok p
  version : p.version = VERSION
  mode : p.mode = Packet.SERVER
  nonce : p.origin = q.nonce
  stratum : 0 < p.stratum ∧ p.stratum ≤ MAX_STRATUM
  leap : p.leap ≠ Packet.UNSYNCHRONISED
  distance : p.rootDistance ≤ Packet.MAX_ROOT_DISTANCE
  receive : p.receive = receive
  transmit : p.transmit = transmit

section

variable {wire : Bytes} {q : Query} {receive transmit dest : Timestamp} {p : Packet}

lemma Replies.accept (h : Replies wire q receive transmit p) (hserver : 0 ≤ transmit.since receive)
    (hround : 0 ≤ dest.since q.sent) (hdelay : transmit.since receive ≤ dest.since q.sent) : q.accept wire dest =
      if transmit = .ZERO then .error .transmitZero
      else .ok ⟨(receive.since q.sent + transmit.since dest).tdiv 2, dest.since q.sent - transmit.since receive,
        p⟩ := by
  obtain ⟨hparsed, hversion, hmode, hnonce, hstratum, hleap, hdistance, rfl, rfl⟩ := h
  rw [Query.accept, hparsed]
  simp only [bind, Except.bind]
  rw [if_neg (not_not.mpr hversion), if_neg (not_not.mpr hmode), if_neg (not_not.mpr hnonce), if_neg (by omega),
    if_neg (by omega), if_neg hleap]
  split_ifs with hzero <;> first | omega | rfl

end

lemma two_mul_tdiv_two (e : ℤ) : e - 1 ≤ 2 * e.tdiv 2 ∧ 2 * e.tdiv 2 ≤ e + 1 := by
  have hsum := Int.mul_tdiv_add_tmod e 2
  have hhigh := Int.tmod_lt_of_pos e (b := 2) (by decide)
  have hlow := Int.lt_tmod_of_pos e (b := 2) (by decide)
  omega

/-- A difference of instants in the window reads right if and only if it is less than half an era. -/
lemma bmod_of_window {e : ℤ} (h : |e| < 2 ^ 64) :
    e.bmod (2 ^ 64) = e ∧ -2 ^ 63 ≤ e ∧ e < 2 ^ 63 ∨ e.bmod (2 ^ 64) = e - 2 ^ 64 ∧ 2 ^ 63 ≤ e ∨
      e.bmod (2 ^ 64) = e + 2 ^ 64 ∧ e < -2 ^ 63 := by
  rw [abs_lt] at h
  rw [Int.bmod_def]
  push_cast
  split_ifs <;> omega

/-- The offset of an accepted sample is off by no more than half of the delay and a tick if and only if the clocks
are less than half an era apart. A reply that was sent at the rollover is not accepted. -/
theorem sample_brackets_the_truth (x : Exchange) (hx : x.Documented) (q : Query) (hsent : q.sent = stamp x.sent)
    (wire : Bytes) (p : Packet) (hreply : Replies wire q (stamp x.received) (stamp x.answered) p) :
    (∃ sample, q.accept wire (stamp x.landed) = .ok sample ∧ sample.delay = x.out + x.back ∧
      2 * |sample.offset - x.theta| ≤ sample.delay + 2) ↔
    x.theta + x.out < 2 ^ 63 ∧ -2 ^ 63 ≤ x.theta - x.back ∧ stamp x.answered ≠ .ZERO := by
  obtain ⟨⟨hs, hs'⟩, ⟨hr, hr'⟩, ⟨ha, ha'⟩, ⟨hl, hl'⟩, hout, hturn, hback⟩ := hx
  have hday : Exchange.DAY = 86400 * 2 ^ 32 := rfl
  have hlimit : (UNIX_LIMIT * TICKS_PER_SEC : ℤ) = 4233462144 * 2 ^ 32 := rfl
  have hmin : (UNIX_MIN * TICKS_PER_SEC : ℤ) = 0 := rfl
  simp only [Exchange.answered, Exchange.received, Exchange.landed] at hr hr' ha ha' hl hl'
  have hserver : (stamp x.answered).since (stamp x.received) = x.turnaround := by
    rw [since_stamp] <;> simp only [Exchange.answered] <;> omega
  have hround : (stamp x.landed).since q.sent = x.out + x.turnaround + x.back := by
    rw [hsent, since_stamp] <;> simp only [Exchange.landed] <;> omega
  have hto : (stamp x.received).since q.sent = (x.theta + x.out).bmod (2 ^ 64) := by
    rw [hsent, since_stamp_eq, Exchange.received, add_right_comm, add_assoc, add_sub_cancel_left]
  have hfro : (stamp x.answered).since (stamp x.landed) = (x.theta - x.back).bmod (2 ^ 64) := by
    rw [since_stamp_eq]
    congr 1
    simp only [Exchange.answered, Exchange.received, Exchange.landed]
    ring
  rw [hreply.accept (by omega) (by omega) (by omega), hserver, hround, hto, hfro]
  by_cases hzero : stamp x.answered = .ZERO
  · simp [hzero]
  rw [if_neg hzero]
  -- an offset that wrapped is off by half an era at least
  have hahead := bmod_of_window (e := x.theta + x.out) (by rw [abs_lt]; omega)
  have hbehind := bmod_of_window (e := x.theta - x.back) (by rw [abs_lt]; omega)
  have hhalf := two_mul_tdiv_two ((x.theta + x.out).bmod (2 ^ 64) + (x.theta - x.back).bmod (2 ^ 64))
  constructor
  · rintro ⟨sample, hok, hdelay, hoffset⟩
    cases hok
    rw [hdelay] at hoffset
    dsimp only at hoffset
    have hoff := abs_le.mp (show |_| ≤ (x.out + x.back + 2 : ℤ) by
      exact (le_mul_of_one_le_left (abs_nonneg _) (by norm_num)).trans hoffset)
    exact ⟨by omega, by omega, hzero⟩
  · rintro ⟨htheta, htheta', -⟩
    refine ⟨_, rfl, by ring, ?_⟩
    dsimp only
    rcases abs_cases (((x.theta + x.out).bmod (2 ^ 64) + (x.theta - x.back).bmod (2 ^ 64)).tdiv 2 - x.theta) with
      ⟨habs, -⟩ | ⟨habs, -⟩ <;> omega

def plainReply (nonce receive transmit : Timestamp) : Bytes :=
  [0x24, 2] ++ List.replicate 22 0 ++ toBe 8 nonce.bits.toNat ++ toBe 8 receive.bits.toNat ++
    toBe 8 transmit.bits.toNat

def nearby : Exchange := ⟨1800000000 * 2 ^ 32, 2 * 2 ^ 32, 42949673, 4294967, 47244640⟩

def plainQuery (x : Exchange) : Query := ⟨⟨0x9e3779b97f4a7c15⟩, stamp x.sent⟩

lemma nearby_documented : nearby.Documented := by
  constructor <;> first | exact ⟨by decide, by decide⟩ | decide

theorem sample_brackets_the_truth_nearby : nearby.Documented ∧
    ∃ sample, (plainQuery nearby).accept (plainReply ⟨0x9e3779b97f4a7c15⟩ (stamp nearby.received)
      (stamp nearby.answered)) (stamp nearby.landed) = .ok sample ∧ sample.delay = nearby.out + nearby.back ∧
      2 * |sample.offset - nearby.theta| ≤ sample.delay + 2 := by
  refine ⟨nearby_documented, ?_⟩
  obtain ⟨p, hreply⟩ : ∃ p, Replies (plainReply ⟨0x9e3779b97f4a7c15⟩ (stamp nearby.received)
      (stamp nearby.answered)) (plainQuery nearby) (stamp nearby.received) (stamp nearby.answered) p := by
    refine ⟨_, rfl, rfl, rfl, rfl, ?_, ?_, ?_, rfl, rfl⟩ <;> decide
  exact (sample_brackets_the_truth nearby nearby_documented (plainQuery nearby) rfl _ p hreply).mpr
    ⟨by decide, by decide, by decide⟩

def farAhead : Exchange := ⟨0, 2208988800 * 2 ^ 32, 0, 0, 0⟩

theorem far_clock_is_misread : farAhead.Documented ∧
    ∃ p sample, Replies (plainReply ⟨0x9e3779b97f4a7c15⟩ (stamp farAhead.received) (stamp farAhead.answered))
        (plainQuery farAhead) (stamp farAhead.received) (stamp farAhead.answered) p ∧
      (plainQuery farAhead).accept (plainReply ⟨0x9e3779b97f4a7c15⟩ (stamp farAhead.received)
        (stamp farAhead.answered)) (stamp farAhead.landed) = .ok sample ∧ sample.delay = 0 ∧
        sample.offset = farAhead.theta - 2 ^ 64 := by
  refine ⟨by constructor <;> first | exact ⟨by decide, by decide⟩ | decide, _, _,
    ⟨rfl, rfl, rfl, rfl, ?_, ?_, ?_, rfl, rfl⟩, rfl, ?_, ?_⟩ <;>
    decide

end CrickerOs.NtpProto
