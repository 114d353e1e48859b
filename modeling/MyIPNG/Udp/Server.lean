import MyIPNG.Base.Bytes
import MyIPNG.Ip4.Fragmentation
import MyIPNG.Utils.Net

/-!
# The UDP server

The two loop bodies of `udp_server.cpp`. `run_out` puts a header before what an application sends,
two port numbers and data; `run_in` takes it off again. The header has eight bytes and four of them
are the port numbers, which both directions count twice: a datagram is four bytes longer than its
header and data, and those bytes are what `new` left there, and a message for an application is
eight bytes longer than what is behind the header, read from behind the datagram.

So `run_in` never gives back what `run_out` was given: a message of an odd length fails an assertion
of `run_out`, and one of an even length comes back with twelve bytes more (`runIn_runOut`).
-/

set_option autoImplicit false
set_option relaxedAutoImplicit false

namespace MyIPNG.Udp

open Base Utils
open Ip4 (Address)

/-! ### The code -/

/-- A message of the IP server: what `unwrap_message_up` gives, and the memory behind the
payload. -/
structure InMessage where
  fullPkt : List UInt8
  source : Address
  destination : Address
  pl : List UInt8
  behind : ℕ → UInt8

/-- What `run_in` sends: a message for the queue of a port, or an ICMP error. -/
inductive Output
  | up (queue fullPkt : List UInt8) (source destination : Address) (payload : List UInt8)
  | icmpError (type code : ℕ) (fullPkt : List UInt8) (toAddr me : Address)
deriving DecidableEq, Repr

/-- The bytes that a copy from a position of the payload on gets. -/
def readFrom (m : InMessage) (start count : ℕ) : List UInt8 :=
  slice m.pl start count ++
    (List.range' (m.pl.length - start) (count - (m.pl.length - start))).map fun i ↦
      m.behind (start + i - m.pl.length)

/-- The loop body of `run_in`: what is sent, and the end of what was read of the payload. -/
def runIn (mappingsIn : UInt16 → Option (List UInt8)) (m : InMessage) : Option Output × ℕ :=
  if m.pl.length < 8 then (none, 0)
  else
    let length := (getUint16 m.pl 4).toNat
    if m.pl.length < length then (none, 6)
    else if tcpUdpChecksum m.source.bytes m.destination.bytes m.pl 17 ≠ 0 then
      (none, m.pl.length)
    else
      match mappingsIn (getUint16 m.pl 2) with
      | none => (some (.icmpError 3 3 m.fullPkt m.source m.destination), m.pl.length)
      | some queue =>
        (some (.up queue m.fullPkt m.source m.destination (m.pl.take 4 ++ readFrom m 8 length)),
          max m.pl.length (8 + length))

/-- `udp_packet` of `run_out` with a given checksum, for port numbers and data. The last four bytes
are not set. -/
def udpPacket (fresh : ℕ → UInt8) (pl : List UInt8) (checksum : UInt16) : List UInt8 :=
  let udpPacketLen := 8 + pl.length
  pl.take 4 ++ [UInt8.ofNat (udpPacketLen >>> 8), UInt8.ofNat udpPacketLen] ++
    [(checksum >>> 8).toUInt8, checksum.toUInt8] ++
    (pl.drop 4 ++ [fresh 0, fresh 1, fresh 2, fresh 3])

/-- The loop body of `run_out`: the datagram. Nothing when the assertion fails, or when the message
has no port numbers. -/
def runOut (fresh : ℕ → UInt8) (source destination : Address) (pl : List UInt8) :
    Option (List UInt8) :=
  if pl.length < 4 then none
  else if (8 + pl.length) % 2 ≠ 0 then none
  else
    let checksum := tcpUdpChecksum source.bytes destination.bytes (udpPacket fresh pl 0) 17
    some (udpPacket fresh pl checksum)

/-! ### The datagram -/

section Datagram

variable {fresh : ℕ → UInt8} {pl : List UInt8}

theorem length_udpPacket (h : 4 ≤ pl.length) (checksum : UInt16) :
    (udpPacket fresh pl checksum).length = 8 + pl.length := by
  simp only [udpPacket, List.length_append, List.length_take, List.length_drop, List.length_cons,
    List.length_nil]
  omega

/-- The four parts of a message that has port numbers. -/
theorem exists_ports (h : 4 ≤ pl.length) :
    ∃ a b c d data, pl = a :: b :: c :: d :: data := by
  match pl, h with
  | a :: b :: c :: d :: data, _ => exact ⟨a, b, c, d, data, rfl⟩

/-- The length field counts the port numbers twice. -/
theorem length_field (h : 4 ≤ pl.length) (checksum : UInt16) :
    (getUint16 (udpPacket fresh pl checksum) 4).toNat = (8 + pl.length) % 65536 := by
  obtain ⟨a, b, c, d, data, rfl⟩ := exists_ports h
  have hword : ∀ high low : UInt8,
      ((high.toUInt16 <<< 8) ||| low.toUInt16).toNat = high.toNat * 256 + low.toNat := by
    intro high low
    have hor := Nat.shiftLeft_add_eq_or_of_lt low.toNat_lt high.toNat
    have hhigh := high.toNat_lt
    rw [Nat.shiftLeft_eq] at hor
    rw [UInt16.toNat_or, UInt16.toNat_shiftLeft, UInt8.toNat_toUInt16, UInt8.toNat_toUInt16]
    change high.toNat <<< 8 % 2 ^ 16 ||| low.toNat = _
    rw [Nat.shiftLeft_eq, Nat.mod_eq_of_lt (by omega), ← hor]
  simp only [getUint16, udpPacket, List.take_succ_cons, List.take_zero, List.cons_append,
    List.nil_append, List.getD_cons_succ, List.getD_cons_zero, hword]
  rw [UInt8.toNat_ofNat', UInt8.toNat_ofNat', Nat.shiftRight_eq_div_pow]
  omega

/-- The datagram verifies. Assumes: a datagram of at most `131000` bytes. -/
theorem checksum_udpPacket (source destination : Address) (h : 4 ≤ pl.length)
    (hsmall : 8 + pl.length ≤ 131000) :
    tcpUdpChecksum source.bytes destination.bytes (udpPacket fresh pl
      (tcpUdpChecksum source.bytes destination.bytes (udpPacket fresh pl 0) 17)) 17 = 0 := by
  have heven : (pl.take 4 ++
      [UInt8.ofNat ((8 + pl.length) >>> 8), UInt8.ofNat (8 + pl.length)]).length % 2 = 0 := by
    rw [List.length_append, List.length_take, min_eq_left h, List.length_cons, List.length_cons,
      List.length_nil]
  refine tcpUdpChecksum_insert 17 source.length_eq destination.length_eq _
    (pl.drop 4 ++ [fresh 0, fresh 1, fresh 2, fresh 3]) heven ?_
  have hlength : (udpPacket fresh pl 0).length ≤ 131000 := by rwa [length_udpPacket h]
  exact hlength

/-- A datagram of `run_out` is as long as its length field says, when the message fits. -/
theorem runOut_eq_some {source destination : Address} {datagram : List UInt8}
    (h : runOut fresh source destination pl = some datagram) :
    4 ≤ pl.length ∧ pl.length % 2 = 0 ∧ datagram = udpPacket fresh pl
      (tcpUdpChecksum source.bytes destination.bytes (udpPacket fresh pl 0) 17) := by
  unfold runOut at h
  split_ifs at h with hports hodd
  refine ⟨not_lt.mp hports, ?_, (Option.some.inj h).symm⟩
  omega

end Datagram

/-! ### Both directions -/

/-- `run_in` gives back what `run_out` was given: a datagram is made, and the server that gets it
passes up the port numbers and the data, and reads nothing behind the datagram. -/
def RoundTrips (mappingsIn : UInt16 → Option (List UInt8)) (fresh behind : ℕ → UInt8)
    (fullPkt : List UInt8) (source destination : Address) (ports data : List UInt8) : Prop :=
  ∃ datagram, runOut fresh source destination (ports ++ data) = some datagram ∧
    ∃ queue, (runIn mappingsIn ⟨fullPkt, source, destination, datagram, behind⟩).1 =
        some (.up queue fullPkt source destination (ports ++ data)) ∧
      (runIn mappingsIn ⟨fullPkt, source, destination, datagram, behind⟩).2 ≤ datagram.length

theorem length_readFrom {m : InMessage} {start : ℕ} (hstart : start ≤ m.pl.length) (count : ℕ) :
    (readFrom m start count).length = count := by
  simp only [readFrom, slice, List.length_append, List.length_take, List.length_drop,
    List.length_map, List.length_range']
  omega

/-- A message that goes up is four bytes longer than the length field says. -/
theorem length_of_up {mappingsIn : UInt16 → Option (List UInt8)} {m : InMessage}
    {queue fullPkt payload : List UInt8} {source destination : Address}
    (h : (runIn mappingsIn m).1 = some (.up queue fullPkt source destination payload)) :
    payload.length = 4 + (getUint16 m.pl 4).toNat := by
  unfold runIn at h
  dsimp only at h
  split_ifs at h with hshort
  cases hqueue : mappingsIn (getUint16 m.pl 2) with
  | none => simp [hqueue] at h
  | some found =>
    simp only [hqueue, Option.some.injEq, Output.up.injEq] at h
    have hread := length_readFrom (not_lt.mp hshort) (getUint16 m.pl 4).toNat
    rw [← h.2.2.2.2, List.length_append, List.length_take, hread]
    omega

/-- The reads from the eighth byte on: the data, the four bytes that `run_out` did not set, and the
eight bytes of memory behind the datagram. -/
theorem readFrom_datagram {m : InMessage} {data unset : List UInt8} (hunset : unset.length = 4)
    (hbehind : m.pl.drop 8 = data ++ unset) (hlength : m.pl.length = 12 + data.length) :
    readFrom m 8 (12 + data.length) = data ++ unset ++ (List.range 8).map m.behind := by
  have hcount : 12 + data.length - (12 + data.length - 8) = 8 := by omega
  rw [readFrom, slice, hbehind, hlength, hcount, List.take_of_length_le (by simp; omega),
    List.append_cancel_left_eq, List.range'_eq_map_range, List.map_map, List.range_eq_range']
  refine List.map_congr_left fun i hi ↦ ?_
  simp only [Function.comp_apply]
  congr 1
  omega

/-- What a message of an even length comes back as: behind the data there are the four bytes that
`run_out` did not set and the eight bytes of memory behind the datagram. Assumes: a mapping for the
destination port and a message that fits a datagram. -/
theorem runIn_runOut {mappingsIn : UInt16 → Option (List UInt8)} {fresh behind : ℕ → UInt8}
    {fullPkt queue : List UInt8} {source destination : Address} {ports data : List UInt8}
    (hports : ports.length = 4) (heven : data.length % 2 = 0) (hsmall : data.length ≤ 65507)
    (hmapping : mappingsIn (getUint16 ports 2) = some queue) :
    ∃ datagram, runOut fresh source destination (ports ++ data) = some datagram ∧
      runIn mappingsIn ⟨fullPkt, source, destination, datagram, behind⟩ =
        (some (.up queue fullPkt source destination (ports ++ data ++
            [fresh 0, fresh 1, fresh 2, fresh 3] ++ (List.range 8).map behind)),
          datagram.length + 8) := by
  have htotal : (ports ++ data).length = 4 + data.length := by rw [List.length_append, hports]
  have hlong : 4 ≤ (ports ++ data).length := by omega
  let checksum := tcpUdpChecksum source.bytes destination.bytes
    (udpPacket fresh (ports ++ data) 0) 17
  have hout : runOut fresh source destination (ports ++ data) =
      some (udpPacket fresh (ports ++ data) checksum) := by
    rw [runOut, if_neg (not_lt.mpr hlong), if_neg (by omega)]
  have hlength : (udpPacket fresh (ports ++ data) checksum).length = 12 + data.length := by
    rw [length_udpPacket hlong]
    omega
  have hfield : (getUint16 (udpPacket fresh (ports ++ data) checksum) 4).toNat =
      12 + data.length := by
    rw [length_field hlong]
    omega
  have hverifies : tcpUdpChecksum source.bytes destination.bytes
      (udpPacket fresh (ports ++ data) checksum) 17 = 0 :=
    checksum_udpPacket source destination hlong (by omega)
  have hfront : udpPacket fresh (ports ++ data) checksum = ports ++
      ([UInt8.ofNat ((8 + (ports ++ data).length) >>> 8),
        UInt8.ofNat (8 + (ports ++ data).length), (checksum >>> 8).toUInt8, checksum.toUInt8] ++
        (data ++ [fresh 0, fresh 1, fresh 2, fresh 3])) := by
    simp [udpPacket, ← hports]
  have hdestination : getUint16 (udpPacket fresh (ports ++ data) checksum) 2 =
      getUint16 ports 2 := by
    rw [hfront]
    simp only [getUint16, List.getD_eq_getElem?_getD]
    rw [List.getElem?_append_left (by omega), List.getElem?_append_left (by omega)]
  have htake : (udpPacket fresh (ports ++ data) checksum).take 4 = ports := by
    rw [hfront, ← hports, List.take_left]
  have hbehind : (udpPacket fresh (ports ++ data) checksum).drop 8 =
      data ++ [fresh 0, fresh 1, fresh 2, fresh 3] := by
    rw [hfront, ← List.append_assoc, List.drop_left' (by simp [hports])]
  refine ⟨_, hout, ?_⟩
  generalize udpPacket fresh (ports ++ data) checksum = datagram at *
  have hread := readFrom_datagram (m := ⟨fullPkt, source, destination, datagram, behind⟩) rfl
    hbehind hlength
  simp only [runIn, hlength, hfield, hverifies, hdestination, hmapping, htake, hread]
  rw [if_neg (by omega), if_neg (by omega)]
  simp only [ne_eq, not_true_eq_false, if_false, List.append_assoc, Prod.mk.injEq, true_and]
  omega

/-- The length of what comes back. -/
theorem length_comes_back {mappingsIn : UInt16 → Option (List UInt8)} {fresh behind : ℕ → UInt8}
    {fullPkt queue : List UInt8} {source destination : Address} {pl datagram payload : List UInt8}
    (hout : runOut fresh source destination pl = some datagram)
    (hup : (runIn mappingsIn ⟨fullPkt, source, destination, datagram, behind⟩).1 =
      some (.up queue fullPkt source destination payload)) :
    payload.length = 4 + (8 + pl.length) % 65536 := by
  obtain ⟨hports, -, rfl⟩ := runOut_eq_some hout
  rw [length_of_up hup, length_field hports]

/-- `run_in` gives back what `run_out` was given for no message. -/
theorem never_round_trips (mappingsIn : UInt16 → Option (List UInt8)) (fresh behind : ℕ → UInt8)
    (fullPkt : List UInt8) (source destination : Address) (ports data : List UInt8) :
    ¬ RoundTrips mappingsIn fresh behind fullPkt source destination ports data := by
  rintro ⟨datagram, hout, queue, hup, -⟩
  have hlength := length_comes_back hout hup
  omega

/-- A datagram for port 7 with two bytes of data comes back with fourteen. -/
theorem two_bytes_come_back_longer :
    ¬ RoundTrips (fun port ↦ if port = 7 then some [101] else none) (fun _ ↦ 0) (fun _ ↦ 0) []
      ⟨[10, 0, 0, 1], rfl⟩ ⟨[10, 0, 0, 2], rfl⟩ [4, 210, 0, 7] [65, 66] := by
  rintro ⟨datagram, hout, queue, hup, -⟩
  have hlength := length_comes_back hout hup
  exact absurd hlength (by decide)

end MyIPNG.Udp
