import MyIPNG.Base.OnesComplement
import Mathlib.Data.List.Basic
import Mathlib.Tactic.SplitIfs

/-!
# The Internet checksum

`ip_checksum` of `utils/checksum.cpp`. The 16-bit words of a buffer are added in a 32-bit
accumulator, in network order, an odd last byte being the high byte of a word of its own; the sum is
folded twice and inverted. `tcp_udp_checksum` adds the addresses, the protocol and the length
first, as if they stood in a header before the buffer.

`wordSum` is the sum as a natural number. As long as it fits the accumulator, the checksum is
`65535` minus the sum folded into sixteen bits, and folding keeps the sum modulo `65535` and is zero
only for zero (`folded_spec`). Those two facts make it the one's-complement sum of the words, so for
buffers of at most `131000` bytes the two functions are the checksum of RFC 1071
(`ipChecksum_eq_rfc1071`, `tcpUdpChecksum_eq_rfc1071`). And a buffer whose checksum is put in the
place of two zero bytes has the checksum zero (`ipChecksum_insert`, `tcpUdpChecksum_insert`).
-/

set_option autoImplicit false
set_option relaxedAutoImplicit false

namespace MyIPNG.Utils

open Base

/-! ### The code -/

/-- The loop of `ip_checksum` over the words, with the odd last byte. -/
def sumWords : List UInt8 → UInt32 → UInt32
  | high :: low :: rest, cksum => sumWords rest (cksum + ((high.toUInt32 <<< 8) ||| low.toUInt32))
  | [last], cksum => cksum + (last.toUInt32 <<< 8)
  | [], cksum => cksum

/-- `ip_checksum`. -/
def ipChecksum (p : List UInt8) : UInt16 :=
  let cksum := sumWords p 0
  let cksum := (cksum >>> 16) + (cksum &&& 0xffff)
  let cksum := cksum + (cksum >>> 16)
  (~~~ cksum).toUInt16

/-- `tcp_udp_checksum`. It reads four bytes of each address. -/
def tcpUdpChecksum (source destination p : List UInt8) (protocolNumber : UInt8) : UInt16 :=
  let cksum := sumWords (destination.take 4) (sumWords (source.take 4) 0)
  let cksum := cksum + protocolNumber.toUInt32
  let cksum := sumWords p (cksum + UInt32.ofNat p.length)
  let cksum := (cksum >>> 16) + (cksum &&& 0xffff)
  let cksum := cksum + (cksum >>> 16)
  (~~~ cksum).toUInt16

/-! ### The sum as a number -/

/-- The sum of the words of a buffer. -/
def wordSum : List UInt8 → ℕ
  | high :: low :: rest => high.toNat * 256 + low.toNat + wordSum rest
  | [last] => last.toNat * 256
  | [] => 0

theorem toNat_highByte (high : UInt8) : (high.toUInt32 <<< 8).toNat = high.toNat * 256 := by
  have hhigh := high.toNat_lt
  rw [UInt32.toNat_shiftLeft, UInt8.toNat_toUInt32]
  change high.toNat <<< 8 % 2 ^ 32 = _
  rw [Nat.shiftLeft_eq, Nat.mod_eq_of_lt (by omega)]

/-- A word is its high byte times 256 plus its low byte. -/
theorem toNat_word (high low : UInt8) :
    ((high.toUInt32 <<< 8) ||| low.toUInt32).toNat = high.toNat * 256 + low.toNat := by
  have hor := Nat.shiftLeft_add_eq_or_of_lt low.toNat_lt high.toNat
  rw [Nat.shiftLeft_eq] at hor
  rw [UInt32.toNat_or, toNat_highByte, UInt8.toNat_toUInt32, ← hor]

theorem toNat_sumWords (p : List UInt8) (cksum : UInt32) :
    (sumWords p cksum).toNat = (cksum.toNat + wordSum p) % 2 ^ 32 := by
  fun_induction sumWords p cksum with
  | case1 high low rest cksum ih =>
    rw [ih, UInt32.toNat_add, toNat_word, wordSum, Nat.mod_add_mod, Nat.add_assoc]
  | case2 last cksum =>
    rw [UInt32.toNat_add, toNat_highByte, wordSum]
  | case3 cksum => rw [wordSum, Nat.add_zero, Nat.mod_eq_of_lt cksum.toNat_lt]

/-- The sum of a buffer whose front has an even length. -/
theorem wordSum_append (front back : List UInt8) (heven : front.length % 2 = 0) :
    wordSum (front ++ back) = wordSum front + wordSum back := by
  fun_induction wordSum front with
  | case1 high low rest ih =>
    have hrest : rest.length % 2 = 0 := by
      simp only [List.length_cons] at heven
      omega
    rw [List.cons_append, List.cons_append, wordSum, ih hrest, ← Nat.add_assoc]
  | case2 last => exact absurd heven (by simp)
  | case3 => simp

/-- A word is two bytes of a buffer. -/
theorem two_mul_wordSum_le (p : List UInt8) : 2 * wordSum p ≤ 65535 * (p.length + 1) := by
  fun_induction wordSum p with
  | case1 high low rest ih =>
    have hhigh := high.toNat_lt
    have hlow := low.toNat_lt
    simp only [List.length_cons]
    omega
  | case2 last =>
    have hlast := last.toNat_lt
    simp only [List.length_cons, List.length_nil]
    omega
  | case3 => exact Nat.zero_le _

/-- The two folds of the sum. -/
def folded (sum : ℕ) : ℕ :=
  let once := sum / 65536 + sum % 65536
  (once + once / 65536) % 65536

/-- Folding a sum that fits the accumulator keeps it modulo `65535`, and only zero folds to zero. -/
theorem folded_spec {sum : ℕ} (hsum : sum < 2 ^ 32) :
    folded sum % 65535 = sum % 65535 ∧ folded sum ≤ 65535 ∧ (0 < sum → 0 < folded sum) := by
  have hsplit : sum = 65535 * (sum / 65536) + (sum / 65536 + sum % 65536) := by omega
  have hkept : (sum / 65536 + sum % 65536) % 65535 = sum % 65535 := by
    conv_rhs => rw [hsplit, Nat.mul_add_mod]
  have honce : sum / 65536 + sum % 65536 < 131071 := by omega
  have hzero : 0 < sum → 0 < sum / 65536 + sum % 65536 := by omega
  unfold folded
  generalize sum / 65536 + sum % 65536 = once at *
  rw [← hkept]
  dsimp only
  by_cases hcarry : once < 65536
  · rw [Nat.div_eq_of_lt hcarry, Nat.add_zero, Nat.mod_eq_of_lt hcarry]
    exact ⟨rfl, by omega, hzero⟩
  · have hend : (once + once / 65536) % 65536 = once - 65535 := by omega
    rw [hend]
    refine ⟨?_, by omega, by omega⟩
    omega

/-- The end of both functions: the accumulator is folded twice and inverted. -/
theorem toNat_foldTwice (cksum : UInt32) :
    (~~~ ((cksum >>> 16) + (cksum &&& (0xffff : UInt32)) +
      (((cksum >>> 16) + (cksum &&& (0xffff : UInt32))) >>> 16))).toUInt16.toNat =
        65535 - folded cksum.toNat := by
  have hlt := cksum.toNat_lt
  have honce : ((cksum >>> 16) + (cksum &&& 0xffff)).toNat =
      cksum.toNat / 65536 + cksum.toNat % 65536 := by
    have hand : cksum.toNat &&& 65535 = cksum.toNat % 65536 :=
      Nat.and_two_pow_sub_one_eq_mod cksum.toNat 16
    rw [UInt32.toNat_add, UInt32.toNat_shiftRight, UInt32.toNat_and]
    change (cksum.toNat >>> 16 + (cksum.toNat &&& 65535)) % 2 ^ 32 = _
    rw [Nat.shiftRight_eq_div_pow, hand, Nat.mod_eq_of_lt (by omega)]
  generalize (cksum >>> 16) + (cksum &&& 0xffff) = once at honce
  have htwice : (once + (once >>> 16)).toNat = once.toNat + once.toNat / 65536 := by
    rw [UInt32.toNat_add, UInt32.toNat_shiftRight]
    change (once.toNat + once.toNat >>> 16) % 2 ^ 32 = _
    rw [Nat.shiftRight_eq_div_pow, Nat.mod_eq_of_lt (by omega)]
  rw [UInt32.toNat_toUInt16, UInt32.toNat_not, htwice, honce]
  simp only [folded, UInt32.size]
  omega

theorem toNat_ipChecksum {p : List UInt8} (hsum : wordSum p < 2 ^ 32) :
    (ipChecksum p).toNat = 65535 - folded (wordSum p) := by
  have htotal : (sumWords p 0).toNat = wordSum p := by
    rw [toNat_sumWords, UInt32.toNat_zero, Nat.zero_add, Nat.mod_eq_of_lt hsum]
  rw [← htotal]
  exact toNat_foldTwice (sumWords p 0)

/-- A sum with the complement of its fold added to it folds to the word of ones. -/
theorem folded_complement {sum : ℕ} (hsum : sum + 65535 < 2 ^ 32) :
    folded (sum + (65535 - folded sum)) = 65535 := by
  obtain ⟨hkept, hle, hnonzero⟩ := folded_spec (show sum < 2 ^ 32 by omega)
  obtain ⟨hkept', hle', hnonzero'⟩ :=
    folded_spec (show sum + (65535 - folded sum) < 2 ^ 32 by omega)
  have hpos : 0 < sum + (65535 - folded sum) := by
    by_contra hzero
    have hsum0 : sum = 0 := by omega
    rw [hsum0] at hzero
    exact hzero (by decide)
  have hdivides : (sum + (65535 - folded sum)) % 65535 = 0 := by
    omega
  have hpositive := hnonzero' hpos
  omega

/-- A number written as two bytes, high byte first. -/
theorem toNat_twoBytes (number : UInt16) :
    (number >>> 8).toUInt8.toNat * 256 + number.toUInt8.toNat = number.toNat := by
  have hlt := number.toNat_lt
  rw [UInt16.toNat_toUInt8, UInt16.toNat_toUInt8, UInt16.toNat_shiftRight]
  change number.toNat >>> 8 % 2 ^ 8 * 256 + number.toNat % 2 ^ 8 = _
  rw [Nat.shiftRight_eq_div_pow]
  omega

/-- The sum of a buffer in which a word was put in the place of two zero bytes. -/
theorem wordSum_insert (front back : List UInt8) (heven : front.length % 2 = 0)
    (checksum : UInt16) :
    wordSum (front ++ [(checksum >>> 8).toUInt8, checksum.toUInt8] ++ back) =
      wordSum (front ++ [0, 0] ++ back) + checksum.toNat := by
  have hword := toNat_twoBytes checksum
  rw [List.append_assoc, List.append_assoc, wordSum_append _ _ heven, wordSum_append _ _ heven,
    ← hword]
  simp only [List.cons_append, List.nil_append, wordSum, UInt8.toNat_zero]
  omega

/-- The checksum of a buffer, put in the place of two zero bytes of it, makes the checksum zero.
Assumes: the place is at an even position, and the sum leaves room in the accumulator for one more
word. -/
theorem ipChecksum_insert (front back : List UInt8) (heven : front.length % 2 = 0)
    (hsum : wordSum (front ++ [0, 0] ++ back) + 65535 < 2 ^ 32) :
    let checksum := ipChecksum (front ++ [0, 0] ++ back)
    ipChecksum (front ++ [(checksum >>> 8).toUInt8, checksum.toUInt8] ++ back) = 0 := by
  intro checksum
  have hchecksum : checksum.toNat = 65535 - folded (wordSum (front ++ [0, 0] ++ back)) :=
    toNat_ipChecksum (by omega)
  have hsplit := wordSum_insert front back heven checksum
  rw [hchecksum] at hsplit
  rw [← UInt16.toNat_inj, toNat_ipChecksum (by omega), hsplit, folded_complement hsum]
  rfl

/-- The sum of a buffer of at most `131000` bytes leaves room for ten more words. -/
theorem wordSum_add_lt {p : List UInt8} (hlength : p.length ≤ 131000) :
    wordSum p + 10 * 65535 + 131000 < 2 ^ 32 := by
  have hle := two_mul_wordSum_le p
  omega

/-! ### The header of `tcp_udp_checksum` -/

theorem sumWords_append (front back : List UInt8) (cksum : UInt32)
    (heven : front.length % 2 = 0) :
    sumWords (front ++ back) cksum = sumWords back (sumWords front cksum) := by
  fun_induction sumWords front cksum with
  | case1 high low rest cksum ih =>
    have hrest : rest.length % 2 = 0 := by
      simp only [List.length_cons] at heven
      omega
    rw [List.cons_append, List.cons_append, sumWords, ih hrest]
  | case2 last cksum => exact absurd heven (by simp)
  | case3 cksum => rfl

/-- What `tcp_udp_checksum` adds to a buffer of the given length, as bytes. -/
def pseudoHeader (source destination : List UInt8) (protocolNumber : UInt8) (length : ℕ) :
    List UInt8 :=
  source ++ destination ++
    [0, protocolNumber, UInt8.ofNat (length >>> 8), UInt8.ofNat length]

/-- A length of sixteen bits as a word of a header. -/
theorem word_ofNat {length : ℕ} (h : length < 65536) :
    ((UInt8.ofNat (length >>> 8)).toUInt32 <<< 8) ||| (UInt8.ofNat length).toUInt32 =
      UInt32.ofNat length := by
  rw [← UInt32.toNat_inj, toNat_word, UInt8.toNat_ofNat', UInt8.toNat_ofNat', UInt32.toNat_ofNat',
    Nat.shiftRight_eq_div_pow]
  omega

/-- `tcp_udp_checksum` is the checksum of the buffer behind its header. Assumes: addresses of four
bytes and a buffer of a packet. -/
theorem tcpUdpChecksum_eq {source destination p : List UInt8} (protocolNumber : UInt8)
    (hsource : source.length = 4) (hdestination : destination.length = 4)
    (hlength : p.length < 65536) :
    tcpUdpChecksum source destination p protocolNumber =
      ipChecksum (pseudoHeader source destination protocolNumber p.length ++ p) := by
  have hsum : sumWords (pseudoHeader source destination protocolNumber p.length ++ p) 0 =
      sumWords p (sumWords destination (sumWords source 0) + protocolNumber.toUInt32 +
        UInt32.ofNat p.length) := by
    rw [sumWords_append _ _ _ (by simp [pseudoHeader, hsource, hdestination]), pseudoHeader,
      sumWords_append _ _ _ (by simp [hsource, hdestination]),
      sumWords_append _ _ _ (by simp [hsource])]
    simp only [sumWords, word_ofNat hlength]
    have hzero : ((0 : UInt8).toUInt32 <<< 8) ||| protocolNumber.toUInt32 =
        protocolNumber.toUInt32 := by simp
    rw [hzero]
  unfold tcpUdpChecksum ipChecksum
  rw [List.take_of_length_le (by omega), List.take_of_length_le (by omega), hsum]

/-- The sum that `tcp_udp_checksum` folds. -/
def tcpUdpSum (source destination p : List UInt8) (protocolNumber : UInt8) : ℕ :=
  wordSum source + wordSum destination + protocolNumber.toNat + p.length + wordSum p

theorem tcpUdpSum_lt {source destination p : List UInt8} (protocolNumber : UInt8)
    (hsource : source.length = 4) (hdestination : destination.length = 4)
    (hlength : p.length ≤ 131000) :
    tcpUdpSum source destination p protocolNumber + 65535 < 2 ^ 32 := by
  have hp := wordSum_add_lt hlength
  have hs := two_mul_wordSum_le source
  have hd := two_mul_wordSum_le destination
  have hn := protocolNumber.toNat_lt
  rw [hsource] at hs
  rw [hdestination] at hd
  unfold tcpUdpSum
  omega

theorem toNat_tcpUdpChecksum {source destination p : List UInt8} (protocolNumber : UInt8)
    (hsource : source.length = 4) (hdestination : destination.length = 4)
    (hlength : p.length ≤ 131000) :
    (tcpUdpChecksum source destination p protocolNumber).toNat =
      65535 - folded (tcpUdpSum source destination p protocolNumber) := by
  have hlt := tcpUdpSum_lt protocolNumber hsource hdestination hlength
  have htotal : (sumWords p (sumWords (destination.take 4) (sumWords (source.take 4) 0) +
      protocolNumber.toUInt32 + UInt32.ofNat p.length)).toNat =
        tcpUdpSum source destination p protocolNumber := by
    rw [List.take_of_length_le (by omega), List.take_of_length_le (by omega), toNat_sumWords,
      UInt32.toNat_add, UInt32.toNat_add, toNat_sumWords, toNat_sumWords, UInt32.toNat_zero,
      UInt8.toNat_toUInt32, UInt32.toNat_ofNat']
    unfold tcpUdpSum at *
    omega
  rw [← htotal]
  exact toNat_foldTwice _

/-- The checksum of a buffer, put in the place of two zero bytes of it, makes the checksum zero.
Assumes: the place is at an even position, addresses of four bytes, and a buffer of at most
`131000` bytes. -/
theorem tcpUdpChecksum_insert {source destination : List UInt8} (protocolNumber : UInt8)
    (hsource : source.length = 4) (hdestination : destination.length = 4)
    (front back : List UInt8) (heven : front.length % 2 = 0)
    (hlength : (front ++ [0, 0] ++ back).length ≤ 131000) :
    let checksum := tcpUdpChecksum source destination (front ++ [0, 0] ++ back) protocolNumber
    tcpUdpChecksum source destination
      (front ++ [(checksum >>> 8).toUInt8, checksum.toUInt8] ++ back) protocolNumber = 0 := by
  intro checksum
  have hlt := tcpUdpSum_lt protocolNumber hsource hdestination hlength
  have hchecksum : checksum.toNat =
      65535 - folded (tcpUdpSum source destination (front ++ [0, 0] ++ back) protocolNumber) :=
    toNat_tcpUdpChecksum protocolNumber hsource hdestination hlength
  have hsame : (front ++ [(checksum >>> 8).toUInt8, checksum.toUInt8] ++ back).length =
      (front ++ [0, 0] ++ back).length := by simp
  have hsplit : tcpUdpSum source destination
      (front ++ [(checksum >>> 8).toUInt8, checksum.toUInt8] ++ back) protocolNumber =
        tcpUdpSum source destination (front ++ [0, 0] ++ back) protocolNumber + checksum.toNat := by
    rw [tcpUdpSum, tcpUdpSum, hsame, wordSum_insert front back heven checksum, ← Nat.add_assoc]
  rw [hchecksum] at hsplit
  rw [← UInt16.toNat_inj,
    toNat_tcpUdpChecksum protocolNumber hsource hdestination (hsame ▸ hlength),
    hsplit, folded_complement hlt]
  rfl

/-! ### The checksum of RFC 1071 -/

/-- The words of a buffer in network order, an odd last byte padded on the right. -/
def beWords : List UInt8 → List UInt16
  | high :: low :: rest => ((high.toUInt16 <<< 8) ||| low.toUInt16) :: beWords rest
  | [last] => [last.toUInt16 <<< 8]
  | [] => []

/-- The checksum of RFC 1071: the complement of the one's-complement sum of the words. -/
def rfc1071 (p : List UInt8) : UInt16 := ~~~ onesSum (beWords p)

/-- A pseudo header whose length has thirty-two bits. -/
def widePseudoHeader (source destination : List UInt8) (protocolNumber : UInt8) (length : ℕ) :
    List UInt8 :=
  source ++ destination ++ [0, protocolNumber] ++
    [UInt8.ofNat (length >>> 24), UInt8.ofNat (length >>> 16), UInt8.ofNat (length >>> 8),
      UInt8.ofNat length]

theorem sum_beWords (p : List UInt8) : ((beWords p).map UInt16.toNat).sum = wordSum p := by
  have hhigh : ∀ high : UInt8, (high.toUInt16 <<< 8).toNat = high.toNat * 256 := by
    intro high
    have hlt := high.toNat_lt
    rw [UInt16.toNat_shiftLeft, UInt8.toNat_toUInt16]
    change high.toNat <<< 8 % 2 ^ 16 = _
    rw [Nat.shiftLeft_eq, Nat.mod_eq_of_lt (by omega)]
  fun_induction beWords p with
  | case1 high low rest ih =>
    have hor := Nat.shiftLeft_add_eq_or_of_lt low.toNat_lt high.toNat
    rw [Nat.shiftLeft_eq] at hor
    rw [List.map_cons, List.sum_cons, ih, UInt16.toNat_or, hhigh, UInt8.toNat_toUInt16, ← hor,
      wordSum]
  | case2 last => rw [List.map_singleton, List.sum_singleton, hhigh, wordSum]
  | case3 => rfl

/-- A fold of a sum that agrees with the words of a buffer modulo `65535` and in being zero gives
the checksum of the buffer. -/
theorem complement_folded_eq {p : List UInt8} {sum : ℕ} (hsum : sum < 2 ^ 32)
    (hmod : sum % 65535 = wordSum p % 65535) (hzero : sum = 0 ↔ wordSum p = 0) :
    65535 - folded sum = (rfc1071 p).toNat := by
  obtain ⟨hkept, hle, hnonzero⟩ := folded_spec hsum
  obtain ⟨hword, hwordZero⟩ := onesSum_spec (beWords p)
  have hlt := (onesSum (beWords p)).toNat_lt
  rw [sum_beWords] at hword hwordZero
  have hfold0 : sum = 0 → folded sum = 0 := fun h ↦ by rw [h]; decide
  have hequal : folded sum = (onesSum (beWords p)).toNat :=
    eq_of_residue hle (by omega) (by rw [hkept, hmod, hword]) (by omega)
  rw [rfc1071, UInt16.toNat_not, hequal]
  rfl

/-- `ip_checksum` is the checksum of RFC 1071. Assumes: at most `131000` bytes. -/
theorem ipChecksum_eq_rfc1071 {p : List UInt8} (hlength : p.length ≤ 131000) :
    ipChecksum p = rfc1071 p := by
  have hsum := wordSum_add_lt hlength
  rw [← UInt16.toNat_inj, toNat_ipChecksum (by omega)]
  exact complement_folded_eq (by omega) rfl Iff.rfl

/-- `tcp_udp_checksum` is the checksum of RFC 1071 of the buffer behind its pseudo header. Assumes:
addresses of four bytes and at most `131000` bytes. -/
theorem tcpUdpChecksum_eq_rfc1071 {source destination p : List UInt8} (protocolNumber : UInt8)
    (hsource : source.length = 4) (hdestination : destination.length = 4)
    (hlength : p.length ≤ 131000) :
    tcpUdpChecksum source destination p protocolNumber =
      rfc1071 (widePseudoHeader source destination protocolNumber p.length ++ p) := by
  have hlt := tcpUdpSum_lt protocolNumber hsource hdestination hlength
  have hwords : wordSum (widePseudoHeader source destination protocolNumber p.length ++ p) =
      wordSum source + wordSum destination + protocolNumber.toNat +
        (p.length / 65536 + p.length % 65536) + wordSum p := by
    rw [widePseudoHeader, List.append_assoc, wordSum_append _ _ (by simp [hsource, hdestination]),
      wordSum_append _ _ (by simp [hsource, hdestination]), wordSum_append _ _ (by simp [hsource])]
    simp only [List.cons_append, List.nil_append, wordSum, UInt8.toNat_zero, UInt8.toNat_ofNat',
      Nat.shiftRight_eq_div_pow]
    omega
  rw [← UInt16.toNat_inj, toNat_tcpUdpChecksum protocolNumber hsource hdestination hlength]
  refine complement_folded_eq (by omega) ?_ ?_
  · rw [hwords, tcpUdpSum]
    omega
  · rw [hwords, tcpUdpSum]
    omega

end MyIPNG.Utils
