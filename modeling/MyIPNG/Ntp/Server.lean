import Mathlib.Data.Rat.Cast.Order
import Mathlib.Tactic.Linarith
import Mathlib.Tactic.NormNum
import MyIPNG.Icmp.Server
import MyIPNG.Utils.Net
import MyIPNG.Utils.Str

/-!
# The NTP server

The loop body of `run_in` of `ntp_server.cpp`: a time request is answered with the time of the
clock, in seconds since 1900 and a fraction of a second, thirty-two bits each. The fraction is the
number of whole microseconds times `4295`, a little more than `2 ^ 32 / 1000000`, and what is put on
the wire are the low thirty-two bits of that.

In the last seven microseconds of a second the product does not fit in thirty-two bits any more
(`fraq_eq_iff`), so the fraction starts again at zero while the seconds are still the old ones.
Before that the fraction is right within a hundredth of a millisecond and goes up with the clock.
`timestamps_follow_iff` puts the two together.
-/

set_option autoImplicit false
set_option relaxedAutoImplicit false

namespace MyIPNG.Ntp

open Base Utils Icmp

/-! ### The code -/

/-- What `clock_gettime` gives for `CLOCK_REALTIME`: seconds since 1970 and the nanoseconds of the
second. -/
structure ClockReading where
  sec : ℕ
  nsec : ℕ
  nsec_lt : nsec < 10 ^ 9
deriving DecidableEq, Repr

/-- `NTP_EPOCH`. -/
def ntpEpoch : ℕ := 86400 * (365 * 70 + 17)

/-- The seconds of a timestamp. `htonl` takes the low bits of the sum. -/
def timestampSecs (now : ClockReading) : UInt32 := UInt32.ofNat (now.sec + ntpEpoch)

/-- The fraction of a timestamp. `htonl` takes the low bits of the product. -/
def timestampFraq (now : ClockReading) : UInt32 := UInt32.ofNat (now.nsec / 1000 * 4295)

/-- The two numbers as they stand in the datagram. -/
def timestamp (now : ClockReading) : List UInt8 :=
  putUint32 (timestampSecs now) ++ putUint32 (timestampFraq now)

/-- The first byte of a datagram: the bit fields `mode`, `vn` and `li`, from the low bits on. -/
def modeByte (mode vn li : UInt8) : UInt8 := mode ||| (vn <<< 3) ||| (li <<< 6)

/-- `msgout`: the mode, the stratum, the poll interval and the precision, `root_delay` and
`root_dispersion`, which are not put in network order, and the reference, originate, receive and
transmit timestamps. The originate timestamp is the transmit timestamp of the request. -/
def msgout (pl : List UInt8) (recvNow : ClockReading) : List UInt8 :=
  [modeByte 4 3 0, 1, 16, 238] ++ (leBytes 4 369098752 ++ (leBytes 4 369098752 ++
    (ascii "LOCL" ++ (timestamp recvNow ++ (slice pl 44 8 ++
      (timestamp recvNow ++ timestamp recvNow))))))

/-- The loop body of `run_in`: what is sent to the UDP server, the ports swapped. -/
def runIn (m : InMessage) (recvNow : ClockReading) : Option OutMessage :=
  if m.pl.length < 4 + 48 then none
  else if m.pl.getD 4 0 &&& 7 = 3 then
    let sourcePort := getUint16 m.pl 0
    let destinationPort := getUint16 m.pl 2
    some ⟨m.toAddr, m.fromAddr,
      putUint16 destinationPort ++ putUint16 sourcePort ++ msgout m.pl recvNow⟩
  else none

/-! ### The timestamps of a reply -/

/-- Where a reply has the time of the clock: the reference, the receive and the transmit
timestamp. -/
def clockTimestamps : List ℕ := [20, 36, 44]

/-- A timestamp of a message as a number of sixty-four bits. -/
def timestampAt (pl : List UInt8) (position : ℕ) : ℕ :=
  (getUint32 pl position).toNat * 2 ^ 32 + (getUint32 pl (position + 4)).toNat

/-- The fraction of a timestamp is less than a millisecond from the nanoseconds. -/
def FractionClose (fraction : UInt32) (nsec : ℕ) : Prop :=
  |(fraction.toNat : ℚ) - nsec * 2 ^ 32 / 10 ^ 9| < 2 ^ 32 / 1000

/-- What the replies at two readings of the clock say: the first timestamps are not later than the
second ones, and all fractions are close. -/
def TimestampsFollow (first second : ClockReading) : Prop :=
  ∀ m m' reply reply', runIn m first = some reply → runIn m' second = some reply' →
    ∀ position ∈ clockTimestamps,
      timestampAt reply.pl position ≤ timestampAt reply'.pl position ∧
      FractionClose (getUint32 reply.pl (position + 4)) first.nsec ∧
      FractionClose (getUint32 reply'.pl (position + 4)) second.nsec

/-- A reading of the clock that is not later than another one. -/
def ClockReading.NotLater (first second : ClockReading) : Prop :=
  first.sec < second.sec ∨ first.sec = second.sec ∧ first.nsec ≤ second.nsec

/-- A timestamp that stands behind a part of a message is read back. -/
theorem timestamp_read (now : ClockReading) (front back : List UInt8) {position : ℕ}
    (h : front.length = position) :
    getUint32 (front ++ (timestamp now ++ back)) position = timestampSecs now ∧
      getUint32 (front ++ (timestamp now ++ back)) (position + 4) = timestampFraq now := by
  have hsecs := getUint32_append front (timestamp now ++ back) 0
  have hfraq := getUint32_append front (timestamp now ++ back) 4
  have hbehind := getUint32_append (putUint32 (timestampSecs now))
    (putUint32 (timestampFraq now) ++ back) 0
  rw [h] at hsecs hfraq
  rw [timestamp, List.append_assoc] at *
  exact ⟨hsecs.trans (getUint32_putUint32 _ _),
    hfraq.trans (hbehind.trans (getUint32_putUint32 _ _))⟩

/-- The timestamps of a reply are those of the clock. -/
theorem timestamps_runIn {m : InMessage} {now : ClockReading} {reply : OutMessage}
    (h : runIn m now = some reply) : ∀ position ∈ clockTimestamps,
      getUint32 reply.pl position = timestampSecs now ∧
      getUint32 reply.pl (position + 4) = timestampFraq now := by
  unfold runIn at h
  split_ifs at h with hlong hmode
  obtain rfl := Option.some.inj h
  have horiginate := length_slice m.pl 44 8 (by omega)
  have hlocl : (ascii "LOCL").length = 4 := by decide +kernel
  have htimestamp : (timestamp now).length = 8 := rfl
  simp only [clockTimestamps, List.forall_mem_cons, msgout]
  -- each timestamp behind what stands in front of it
  refine ⟨?_, ?_, ?_, by simp⟩
  · simp only [← List.append_assoc _ _ (timestamp now ++ (slice _ _ _ ++ _))]
    exact timestamp_read now _ _ (by simp [hlocl])
  · simp only [← List.append_assoc _ _ (timestamp now ++ timestamp now)]
    exact timestamp_read now _ _ (by simp [hlocl, htimestamp, horiginate])
  · rw [← List.append_nil (timestamp now)]
    simp only [← List.append_assoc _ _ (timestamp now ++ [])]
    exact timestamp_read now _ _ (by simp [hlocl, htimestamp, horiginate])

/-- A time request. -/
def sampleRequest : InMessage :=
  ⟨[], [10, 0, 0, 2], [10, 0, 0, 1], [4, 1, 0, 123, 27] ++ List.replicate 47 0⟩

theorem runIn_sampleRequest (now : ClockReading) : ∃ reply, runIn sampleRequest now = some reply :=
  ⟨_, rfl⟩

/-! ### The fraction -/

theorem toNat_timestampFraq (now : ClockReading) :
    (timestampFraq now).toNat = now.nsec / 1000 * 4295 % 2 ^ 32 := UInt32.toNat_ofNat'

theorem toNat_timestampSecs {now : ClockReading} (h : now.sec + ntpEpoch < 2 ^ 32) :
    (timestampSecs now).toNat = now.sec + ntpEpoch := by
  rw [timestampSecs, UInt32.toNat_ofNat', Nat.mod_eq_of_lt h]

/-- A fraction that is close, without divisions. -/
theorem fractionClose_iff_nat (fraction : UInt32) (nsec : ℕ) :
    FractionClose fraction nsec ↔
      fraction.toNat * 10 ^ 9 < nsec * 2 ^ 32 + 2 ^ 32 * 10 ^ 6 ∧
        nsec * 2 ^ 32 < fraction.toNat * 10 ^ 9 + 2 ^ 32 * 10 ^ 6 := by
  rw [FractionClose, abs_lt]
  constructor
  · rintro ⟨hlow, hhigh⟩
    constructor
    · have hscaled : (fraction.toNat * 10 ^ 9 : ℚ) < nsec * 2 ^ 32 + 2 ^ 32 * 10 ^ 6 := by linarith
      exact_mod_cast hscaled
    · have hscaled : (nsec * 2 ^ 32 : ℚ) < fraction.toNat * 10 ^ 9 + 2 ^ 32 * 10 ^ 6 := by linarith
      exact_mod_cast hscaled
  · rintro ⟨hhigh, hlow⟩
    have hhigh' : (fraction.toNat * 10 ^ 9 : ℚ) < nsec * 2 ^ 32 + 2 ^ 32 * 10 ^ 6 := by
      exact_mod_cast hhigh
    have hlow' : (nsec * 2 ^ 32 : ℚ) < fraction.toNat * 10 ^ 9 + 2 ^ 32 * 10 ^ 6 := by
      exact_mod_cast hlow
    constructor <;> linarith

/-- The fraction is close while the product fits in thirty-two bits. In the last seven microseconds
of a second it starts again at zero. -/
theorem fractionClose_iff (now : ClockReading) :
    FractionClose (timestampFraq now) now.nsec ↔ now.nsec < 999993000 := by
  have hnsec := now.nsec_lt
  rw [fractionClose_iff_nat, toNat_timestampFraq]
  have hbelow : now.nsec / 1000 * 1000 ≤ now.nsec := Nat.div_mul_le_self _ _
  have habove : now.nsec < now.nsec / 1000 * 1000 + 1000 := by omega
  generalize now.nsec / 1000 = micros at hbelow habove ⊢
  constructor
  · rintro ⟨-, hlow⟩
    by_contra hlate
    -- the product is at least `2 ^ 32`, and less than twice that
    have hlarge : 2 ^ 32 ≤ micros * 4295 := by omega
    rw [Nat.mod_eq_sub_mod hlarge, Nat.mod_eq_of_lt (by omega)] at hlow
    omega
  · intro hearly
    rw [Nat.mod_eq_of_lt (show micros * 4295 < 2 ^ 32 by omega)]
    constructor
    · omega
    · omega

/-- In front of the last seven microseconds of a second the timestamps go with the clock. -/
theorem timestamp_le {first second : ClockReading} (h : first.NotLater second)
    (hrange : second.sec + ntpEpoch < 2 ^ 32) (hsecond : second.nsec < 999993000) :
    (timestampSecs first).toNat * 2 ^ 32 + (timestampFraq first).toNat ≤
      (timestampSecs second).toNat * 2 ^ 32 + (timestampFraq second).toNat := by
  have hfirst : first.sec ≤ second.sec := h.elim Nat.le_of_lt fun hsame ↦ hsame.1.le
  rw [toNat_timestampSecs (by omega), toNat_timestampSecs hrange, toNat_timestampFraq,
    toNat_timestampFraq]
  rcases h with hearlier | ⟨hsame, hnsec⟩
  · have hfraction := Nat.mod_lt (first.nsec / 1000 * 4295) (show 0 < 2 ^ 32 by decide)
    have hnext : first.sec + ntpEpoch + 1 ≤ second.sec + ntpEpoch := by omega
    calc
      (first.sec + ntpEpoch) * 2 ^ 32 + first.nsec / 1000 * 4295 % 2 ^ 32
          ≤ (first.sec + ntpEpoch + 1) * 2 ^ 32 := by
        rw [Nat.add_one_mul]
        exact Nat.add_le_add_left hfraction.le _
      _ ≤ (second.sec + ntpEpoch) * 2 ^ 32 := Nat.mul_le_mul_right _ hnext
      _ ≤ _ := Nat.le_add_right _ _
  · have hmono : first.nsec / 1000 * 4295 ≤ second.nsec / 1000 * 4295 :=
      Nat.mul_le_mul_right _ (Nat.div_le_div_right hnsec)
    have hfits : second.nsec / 1000 * 4295 < 2 ^ 32 := by omega
    rw [Nat.mod_eq_of_lt (hmono.trans_lt hfits), Nat.mod_eq_of_lt hfits, hsame]
    exact Nat.add_le_add_left hmono _

/-- The timestamps follow the clock exactly when neither reading is in the last seven microseconds
of its second. Assumes: the first reading is not later than the second one, whose seconds since
1900 fit in thirty-two bits. -/
theorem timestamps_follow_iff {first second : ClockReading} (h : first.NotLater second)
    (hrange : second.sec + ntpEpoch < 2 ^ 32) :
    TimestampsFollow first second ↔ first.nsec < 999993000 ∧ second.nsec < 999993000 := by
  constructor
  · intro hfollow
    obtain ⟨reply, hreply⟩ := runIn_sampleRequest first
    obtain ⟨reply', hreply'⟩ := runIn_sampleRequest second
    have hreceive : 36 ∈ clockTimestamps := by decide
    obtain ⟨-, hclose, hclose'⟩ := hfollow _ _ reply reply' hreply hreply' 36 hreceive
    rw [(timestamps_runIn hreply 36 hreceive).2] at hclose
    rw [(timestamps_runIn hreply' 36 hreceive).2] at hclose'
    exact ⟨(fractionClose_iff first).mp hclose, (fractionClose_iff second).mp hclose'⟩
  · rintro ⟨hearly, hearly'⟩ m m' reply reply' hreply hreply' position hposition
    obtain ⟨hsecs, hfraq⟩ := timestamps_runIn hreply position hposition
    obtain ⟨hsecs', hfraq'⟩ := timestamps_runIn hreply' position hposition
    rw [timestampAt, timestampAt, hsecs, hfraq, hsecs', hfraq']
    exact ⟨timestamp_le h hrange hearly', (fractionClose_iff first).mpr hearly,
      (fractionClose_iff second).mpr hearly'⟩

/-- A reading of the second before. -/
def sampleBefore : ClockReading := ⟨1699999999, 999992999, by decide⟩

/-- A reading in front of the last seven microseconds of a second. -/
def sampleEarly : ClockReading := ⟨1700000000, 999992000, by decide⟩

/-- The reading a microsecond later. -/
def sampleLate : ClockReading := ⟨1700000000, 999993000, by decide⟩

/-- From one second to the next. -/
theorem timestamps_follow_early : TimestampsFollow sampleBefore sampleEarly :=
  (timestamps_follow_iff (Or.inl (by decide)) (by decide)).mpr ⟨by decide, by decide⟩

/-- A microsecond later the time of a reply is back at the start of the second. -/
theorem timestamps_run_backwards :
    sampleEarly.NotLater sampleLate ∧ sampleLate.sec + ntpEpoch < 2 ^ 32 ∧
      ¬ TimestampsFollow sampleEarly sampleLate := by
  refine ⟨Or.inr ⟨rfl, by decide⟩, by decide, fun hfollow ↦ ?_⟩
  obtain ⟨reply, hreply⟩ := runIn_sampleRequest sampleEarly
  obtain ⟨reply', hreply'⟩ := runIn_sampleRequest sampleLate
  have hreceive : 36 ∈ clockTimestamps := by decide
  have hle := (hfollow _ _ reply reply' hreply hreply' 36 hreceive).1
  obtain ⟨hsecs, hfraq⟩ := timestamps_runIn hreply 36 hreceive
  obtain ⟨hsecs', hfraq'⟩ := timestamps_runIn hreply' 36 hreceive
  rw [timestampAt, timestampAt, hsecs, hfraq, hsecs', hfraq'] at hle
  exact absurd hle (by decide)

end MyIPNG.Ntp
