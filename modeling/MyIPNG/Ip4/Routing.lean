import MyIPNG.Ip4.RunOut

/-!
# The route of a packet

`run_out` sends a packet to its destination itself when that is on the own network, and to the
gateway otherwise. It compares the addresses under the mask of the prefix length, which it takes
from a table. The table is made by a loop that shifts a one in from the left, so that the entry of a
prefix length has that many ones in front (`testBit_maskValue`), and two addresses are the same
under it exactly when they agree in as many bits (`and_maskValue_eq_iff`).

There are 33 prefix lengths and the table has 32 entries. `routes_by_prefix_iff` says that the route
is right, and that it is taken from the table, for all of them but 32.
-/

set_option autoImplicit false
set_option relaxedAutoImplicit false

namespace MyIPNG.Ip4

open Base Utils

/-! ### Bits of an address -/

/-- A bit of an address, counted from the highest bit of its first byte. -/
def addressBit (a : Address) (i : ℕ) : Bool := (byteAt a.bytes (i / 8)).toNat.testBit (7 - i % 8)

/-- Two addresses agree in their first bits. -/
def AgreeInFirst (count : ℕ) (a b : Address) : Prop := ∀ i < count, addressBit a i = addressBit b i

instance decidableAgreeInFirst (count : ℕ) (a b : Address) : Decidable (AgreeInFirst count a b) :=
  Nat.decidableBallLT count fun i _ ↦ addressBit a i = addressBit b i

/-- The entry of a prefix length has as many ones, from the left. -/
theorem testBit_maskValue {count : ℕ} (h : count ≤ 32) (j : ℕ) :
    (maskValue count).toNat.testBit j = decide (32 - count ≤ j ∧ j < 32) := by
  induction count generalizing j with
  | zero =>
    rw [maskValue, UInt32.toNat_zero, Nat.zero_testBit]
    exact (decide_eq_false (by omega)).symm
  | succ count ih =>
    have hone : (0x80000000 : UInt32).toNat = 2 ^ 31 := by decide
    have hshift : (1 : UInt32).toNat % 32 = 1 := by decide
    rw [maskValue, UInt32.toNat_or, Nat.testBit_or, UInt32.toNat_shiftRight, hshift,
      Nat.testBit_shiftRight, ih (by omega), hone, Nat.testBit_two_pow, Bool.eq_iff_iff]
    simp only [Bool.or_eq_true, decide_eq_true_eq]
    omega

/-- The bits of a byte that is shifted to its place in a word: from the left, the bits of the other
bytes are not touched. -/
theorem testBit_placed (byte : UInt8) {shift : UInt32} {place i : ℕ} (hi : i < 32)
    (hshift : shift.toNat + 8 * place = 24) :
    (byte.toUInt32 <<< shift).toNat.testBit (31 - i) =
      (decide (i / 8 = place) && byte.toNat.testBit (7 - i % 8)) := by
  have hinside : 31 - i < 32 := by omega
  have hsmall : shift.toNat % 32 = shift.toNat := by omega
  rw [UInt32.toNat_shiftLeft, UInt8.toNat_toUInt32, hsmall, Nat.testBit_mod_two_pow,
    Nat.testBit_shiftLeft, decide_eq_true hinside, Bool.true_and]
  rcases lt_trichotomy (i / 8) place with hbefore | hhere | hbehind
  · have hhigh : byte.toNat.testBit (31 - i - shift.toNat) = false := by
      refine Nat.testBit_lt_two_pow (lt_of_lt_of_le byte.toNat_lt ?_)
      exact Nat.pow_le_pow_right (by decide) (by omega)
    rw [hhigh, decide_eq_false (by omega : ¬ i / 8 = place), Bool.and_false, Bool.false_and]
  · have hbit : 31 - i - shift.toNat = 7 - i % 8 := by omega
    rw [hbit, decide_eq_true hhere, decide_eq_true (by omega : 31 - i ≥ shift.toNat)]
  · rw [decide_eq_false (by omega : ¬ 31 - i ≥ shift.toNat),
      decide_eq_false (by omega : ¬ i / 8 = place), Bool.false_and, Bool.false_and]

/-- The bits of an address are those of its number, from the left. -/
theorem testBit_addressWord (a : Address) {i : ℕ} (h : i < 32) :
    (addressWord a).toNat.testBit (31 - i) = addressBit a i := by
  have hlast := testBit_placed (byteAt a.bytes 3) h (rfl : (0 : UInt32).toNat + 8 * 3 = 24)
  have hzero : (byteAt a.bytes 3).toUInt32 <<< (0 : UInt32) = (byteAt a.bytes 3).toUInt32 :=
    UInt32.shiftLeft_zero
  rw [hzero] at hlast
  rw [addressWord, UInt32.toNat_or, UInt32.toNat_or, UInt32.toNat_or, Nat.testBit_or,
    Nat.testBit_or, Nat.testBit_or,
    testBit_placed (byteAt a.bytes 0) h (rfl : (24 : UInt32).toNat + 8 * 0 = 24),
    testBit_placed (byteAt a.bytes 1) h (rfl : (16 : UInt32).toNat + 8 * 1 = 24),
    testBit_placed (byteAt a.bytes 2) h (rfl : (8 : UInt32).toNat + 8 * 2 = 24), hlast, addressBit]
  have hplace : i / 8 = 0 ∨ i / 8 = 1 ∨ i / 8 = 2 ∨ i / 8 = 3 := by omega
  rcases hplace with hplace | hplace | hplace | hplace <;> simp [hplace]

/-- Addresses are the same under the entry of a prefix length exactly when they agree in so many
bits. -/
theorem and_maskValue_eq_iff {count : ℕ} (h : count ≤ 32) (a b : Address) :
    addressWord a &&& maskValue count = addressWord b &&& maskValue count ↔
      AgreeInFirst count a b := by
  rw [← UInt32.toNat_inj, UInt32.toNat_and, UInt32.toNat_and]
  constructor
  · intro hequal i hi
    have hbits := congrArg (Nat.testBit · (31 - i)) hequal
    have hmask : (maskValue count).toNat.testBit (31 - i) = true := by
      rw [testBit_maskValue h]
      exact decide_eq_true (by omega)
    simp only [Nat.testBit_and, hmask, Bool.and_true] at hbits
    rw [← testBit_addressWord a (by omega), ← testBit_addressWord b (by omega)]
    exact hbits
  · intro hagree
    refine Nat.eq_of_testBit_eq fun j ↦ ?_
    rw [Nat.testBit_and, Nat.testBit_and, testBit_maskValue h]
    by_cases hj : 32 - count ≤ j ∧ j < 32
    · have hbit := hagree (31 - j) (by omega)
      have hback : 31 - (31 - j) = j := by omega
      rw [← testBit_addressWord a (by omega), ← testBit_addressWord b (by omega), hback] at hbit
      rw [hbit]
    · rw [decide_eq_false hj, Bool.and_false, Bool.and_false]

/-! ### The route -/

/-- The table `masks` behind its loop. -/
def maskTable : List UInt32 := (List.range 32).map maskValue

/-- The requests to the resolver among the effects. -/
def requestsOf (effects : List OutEffect) : List (List UInt8) :=
  effects.filterMap fun
    | .startResolve text => some text
    | _ => none

/-- The request to the resolver for an address, when it got a number. -/
def requestFor (a : Address) (msgNr : Option UInt64) : List (List UInt8) :=
  if msgNr.isSome then [searchMac a] else []

/-- Packets for a destination are routed by the prefix: the mask is an entry of the table, and of
every message for the destination `run_out` resolves the source and then the destination, when it
agrees with the own address in the first bits, or else the gateway. -/
structure RoutesByPrefix (config : OutConfig) (destination : Address) : Prop where
  initialised : maskTable[config.prefixLength]? = some (masks config config.prefixLength)
  route : ∀ now m fromMsgNr toMsgNr pending queued, queuedMsg m = some queued →
    queued.destination = destination →
    requestsOf (newPacket config now m fromMsgNr toMsgNr pending).2 =
      requestFor queued.source fromMsgNr ++
        requestFor (if AgreeInFirst config.prefixLength destination config.listenAddr then
          destination else config.defaultGwAddr) toMsgNr

/-- What `run_out` resolves for a message. -/
theorem requestsOf_newPacket (config : OutConfig) (now : UInt64) {m : DownMessage}
    {queued : QueuedMsg} (h : queuedMsg m = some queued) (fromMsgNr toMsgNr : Option UInt64)
    (pending : Pending) :
    requestsOf (newPacket config now m fromMsgNr toMsgNr pending).2 =
      requestFor queued.source fromMsgNr ++
        requestFor (via config queued.destination) toMsgNr := by
  rw [newPacket, h]
  cases fromMsgNr <;> cases toMsgNr <;> rfl

/-- The entries of the table decide the route. -/
theorem via_eq {config : OutConfig} (h : config.prefixLength < 32) (destination : Address) :
    via config destination =
      if AgreeInFirst config.prefixLength destination config.listenAddr then destination
      else config.defaultGwAddr := by
  have hmask : masks config config.prefixLength = maskValue config.prefixLength := if_pos h
  have hiff := and_maskValue_eq_iff h.le destination config.listenAddr
  rw [via, hmask]
  by_cases hagree : AgreeInFirst config.prefixLength destination config.listenAddr
  · rw [if_pos hagree, if_neg (not_not.mpr (hiff.mpr hagree))]
  · rw [if_neg hagree, if_pos fun hequal ↦ hagree (hiff.mp hequal)]

/-- The route is the test of the prefix, with an entry of the table, exactly for the prefix lengths
below 32. -/
theorem routes_by_prefix_iff (config : OutConfig) (destination : Address) :
    RoutesByPrefix config destination ↔ config.prefixLength < 32 := by
  constructor
  · intro h
    obtain ⟨hinside, -⟩ := List.getElem?_eq_some_iff.mp h.initialised
    rwa [maskTable, List.length_map, List.length_range] at hinside
  · intro h
    refine ⟨?_, fun now m fromMsgNr toMsgNr pending queued hqueued hdestination ↦ ?_⟩
    · rw [maskTable, List.getElem?_map, List.getElem?_range h, masks, if_pos h]
      rfl
    · rw [requestsOf_newPacket config now hqueued, hdestination, via_eq h]

/-- The server of `10.0.0.1/32` with zeros behind its table. -/
def sampleHostRoute : OutConfig where
  listenAddr := ⟨[10, 0, 0, 1], rfl⟩
  prefixLength := 32
  behindMasks := fun _ ↦ 0
  defaultGwAddr := ⟨[10, 0, 0, 254], rfl⟩
  mappingsOut := fun _ ↦ none
  mtuSize := 1500

/-- For a prefix length of 32 the mask is read behind the table, and a packet for `8.8.8.8` does not
go to the gateway. -/
theorem host_route_reads_behind :
    via sampleHostRoute ⟨[8, 8, 8, 8], rfl⟩ = ⟨[8, 8, 8, 8], rfl⟩ ∧
      ¬ AgreeInFirst 32 ⟨[8, 8, 8, 8], rfl⟩ sampleHostRoute.listenAddr ∧
      ¬ RoutesByPrefix sampleHostRoute ⟨[8, 8, 8, 8], rfl⟩ := by
  refine ⟨by decide, by decide, fun h ↦ ?_⟩
  exact absurd h.initialised (by decide +kernel)

end MyIPNG.Ip4
