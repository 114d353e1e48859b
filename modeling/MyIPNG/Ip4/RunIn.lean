import MyIPNG.Base.Runs
import MyIPNG.Ip4.Fragmentation
import MyIPNG.Utils.SipHash

/-!
# `run_in`: packets from the link, and the store of fragments

`run_in` of `ip4_server.cpp`, from the payload of the message on. A packet that is not a fragment
goes up as it is. A fragment is copied into the record of its key, which grows to the highest end
seen so far; the record goes up and is erased when `is_complete` finds the last fragment and no gap.

What the step reads from its surroundings is part of the arrival: the clock, and the bytes that
`realloc` leaves in the part of a record that is not yet written. `std::sort` may put fragments of
equal offset in any order; it is any function with the properties of `FragmentSort`.

`PassesTests` are the tests on a packet, and `runIn_of_passes` and `runIn_of_refused` what the loop
body does with a packet that passes them and with one that does not.
-/

set_option autoImplicit false
set_option relaxedAutoImplicit false

namespace MyIPNG.Ip4

open Base Utils

/-! ### The store of fragments -/

/-- An entry of `fragments`: offset and length. -/
abbrev Fragment := UInt16 × UInt16

/-- `std::sort` of the fragments by their offsets. -/
structure FragmentSort where
  sort : List Fragment → List Fragment
  perm : ∀ fragments, (sort fragments).Perm fragments
  sorted : ∀ fragments, (sort fragments).Pairwise fun a b ↦ a.1 ≤ b.1

/-- `packet`: the bytes `data[0..len)` and what is known of them. -/
structure Packet where
  latestTs : UInt64
  data : List UInt8
  fullSizeKnown : Bool
  fragments : List Fragment
deriving DecidableEq, Repr

/-- The loop of `is_complete` over the sorted fragments: each begins where the one before it ended,
in 16-bit arithmetic. -/
def contiguous : UInt16 → List Fragment → Bool
  | _, [] => true
  | prevEnd, fragment :: rest =>
    if fragment.1 ≠ prevEnd then false else contiguous (fragment.1 + fragment.2) rest

/-- `is_complete`: the answer, and the packet with its fragments sorted. -/
def isComplete (sort : FragmentSort) (p : Packet) : Bool × Packet :=
  if p.fullSizeKnown = false then (false, p)
  else
    let fragments := sort.sort p.fragments
    (contiguous 0 fragments, { p with fragments := fragments })

/-- The records of the datagrams that are not complete, by key. -/
abbrev Packets := Std.ExtTreeMap UInt64 Packet

/-- What the server is configured with, its address and the queues of the protocols, and the sort of
its library. -/
structure Config where
  listenAddr : Address
  mappingsIn : UInt8 → Option (List UInt8)
  sort : FragmentSort

/-- A message from the link: its payload, the clock, and the bytes of memory not yet written. -/
structure Arrival where
  pl : List UInt8
  nowUs : UInt64
  fresh : ℕ → UInt8

/-- The buffer after `realloc` to a size, when that is larger. -/
def grow (fresh : ℕ → UInt8) (data : List UInt8) (size : ℕ) : List UInt8 :=
  if data.length < size then data ++ (List.range (size - data.length)).map fresh else data

/-- A fragment added to a record: its bytes at their place, its range, and whether it is the last
one. -/
def addFragment (arrival : Arrival) (p : Packet) (offset : UInt16) (more : Bool)
    (payload : List UInt8) : Packet :=
  let currentFragmentEnd := offset.toNat + payload.length
  { latestTs := arrival.nowUs
    data := overwrite (grow arrival.fresh p.data currentFragmentEnd) offset.toNat payload
    fullSizeKnown := if more = false then true else p.fullSizeKnown
    fragments := p.fragments ++ [(offset, UInt16.ofNat payload.length)] }

/-- The record of a key that was not seen before. -/
def noPacket : Packet := ⟨0, [], false, []⟩

/-- The branch for a fragment: the records after it, and the reassembled payload when the datagram
is complete. -/
def storeFragment (config : Config) (arrival : Arrival) (fragSession : UInt64) (offset : UInt16)
    (more : Bool) (payload : List UInt8) (packets : Packets) : Packets × Option (List UInt8) :=
  let p := packets[fragSession]?.getD noPacket
  let complete := isComplete config.sort (addFragment arrival p offset more payload)
  if complete.1 then (packets.erase fragSession, some complete.2.data)
  else (packets.insert fragSession complete.2, none)

/-! ### The loop body -/

/-- What `wrap_message_up` makes for the server of a protocol. -/
structure UpMessage where
  id : UInt64
  fullPkt : List UInt8
  fromAddr : List UInt8
  toAddr : List UInt8
  payload : List UInt8
deriving DecidableEq, Repr

/-- What the server passes on: a message for the queue of a protocol, or an ICMP error. -/
inductive Output
  | up (queue : List UInt8) (message : UpMessage)
  | icmpError (type code : ℕ) (fullPkt toAddr me : List UInt8)
deriving DecidableEq, Repr

/-- `session_id_salt`: fifteen bytes are given, the sixteenth is zero. -/
def sessionIdSalt : List UInt8 := [1, 2, 3, 4, 5, 6, 8, 9, 10, 11, 12, 13, 14, 15, 16, 0]

/-- `calc_session_id`. -/
def calcSessionId (source destination : List UInt8) (protocol : UInt8) (id : UInt16) : UInt64 :=
  let buffer := leBytes 2 protocol.toNat ++ leBytes 2 id.toNat ++ source ++ destination
  let sipOut := siphash buffer sessionIdSalt
  (sipOut.1.toUInt64 <<< 32) ||| sipOut.2.toUInt64

/-- The byte of a packet at an index. -/
def byteAt (pl : List UInt8) (index : ℕ) : UInt8 := pl.getD index 0

/-- `header_size`. -/
def headerSize (pl : List UInt8) : ℕ := (byteAt pl 0 &&& 15).toNat * 4

/-- `ip_size`. -/
def ipSize (pl : List UInt8) : ℕ := ((byteAt pl 2).toNat <<< 8) ||| (byteAt pl 3).toNat

/-- `offset`, in bytes. -/
def fragmentOffset (pl : List UInt8) : UInt16 :=
  UInt16.ofNat (((((byteAt pl 6 &&& 31).toNat <<< 8)) ||| (byteAt pl 7).toNat) * 8)

/-- `flags & 1`. -/
def moreFragments (pl : List UInt8) : Bool := (byteAt pl 6 >>> 5) &&& 1 != 0

/-- `id`. -/
def packetId (pl : List UInt8) : UInt16 :=
  UInt16.ofNat (((byteAt pl 4).toNat <<< 8) ||| (byteAt pl 5).toNat)

/-- The branch of the loop body for a packet that passes the tests on its header. -/
def acceptPacket (config : Config) (queue : List UInt8) (arrival : Arrival) (packets : Packets) :
    Packets × List Output :=
  let pl := arrival.pl
  if ipChecksum (pl.take (headerSize pl)) ≠ 0 then (packets, [])
  else
    let msgId := calcSessionId (slice pl 12 4) (slice pl 16 4) (byteAt pl 9) (packetId pl)
    let payload := slice pl (headerSize pl) (ipSize pl - headerSize pl)
    let stored : Packets × Option (List UInt8) :=
      if 0 < fragmentOffset pl ∨ moreFragments pl then
        storeFragment config arrival msgId (fragmentOffset pl) (moreFragments pl) payload packets
      else (packets, some payload)
    (stored.1, (stored.2.map fun whole ↦ Output.up queue
      ⟨msgId, pl.take (ipSize pl), slice pl 12 4, slice pl 16 4, whole⟩).toList)

/-- The loop body of `run_in`. -/
def runIn (config : Config) (packets : Packets) (arrival : Arrival) : Packets × List Output :=
  let pl := arrival.pl
  let icmp (type code : ℕ) : Packets × List Output :=
    (packets, [.icmpError type code pl (slice pl 12 4) (slice pl 16 4)])
  if pl.length < 20 then (packets, [])
  else if byteAt pl 0 >>> 4 ≠ 4 then (packets, [])
  else if slice pl 16 4 ≠ config.listenAddr.bytes then (packets, [])
  else if ipSize pl < headerSize pl then icmp 12 2
  else if pl.length < ipSize pl then icmp 12 2
  else if byteAt pl 8 = 0 then icmp 11 0
  else
    match config.mappingsIn (byteAt pl 9) with
    | none => icmp 3 2
    | some queue => acceptPacket config queue arrival packets

/-! ### Packets that pass the tests -/

/-- The tests of `run_in`. -/
structure PassesTests (config : Config) (pl : List UInt8) : Prop where
  length_le : 20 ≤ pl.length
  version : byteAt pl 0 >>> 4 = 4
  destination : slice pl 16 4 = config.listenAddr.bytes
  header_le : headerSize pl ≤ ipSize pl
  size_le : ipSize pl ≤ pl.length
  ttl : byteAt pl 8 ≠ 0
  mapped : config.mappingsIn (byteAt pl 9) ≠ none
  checksum : ipChecksum (pl.take (headerSize pl)) = 0

/-- The bytes between the header length and the total length. -/
def contents (pl : List UInt8) : List UInt8 := (pl.take (ipSize pl)).drop (headerSize pl)

/-- The packet is a fragment. -/
def IsFragment (pl : List UInt8) : Prop := 0 < fragmentOffset pl ∨ moreFragments pl = true

/-- The key of the record of a packet. -/
def packetKey (pl : List UInt8) : UInt64 :=
  calcSessionId (slice pl 12 4) (slice pl 16 4) (byteAt pl 9) (packetId pl)

/-- The message that a packet makes of a payload. -/
def messageOf (pl payload : List UInt8) : UpMessage :=
  ⟨packetKey pl, pl.take (ipSize pl), slice pl 12 4, slice pl 16 4, payload⟩

section Tests

variable {config : Config} {arrival : Arrival}

/-- What is copied of a packet are its bytes from the header length to the total length. -/
theorem slice_eq_contents (pl : List UInt8) :
    slice pl (headerSize pl) (ipSize pl - headerSize pl) = contents pl := by
  rw [slice, contents, List.drop_take]

/-- A packet that passes the tests goes up, or is stored and the record may go up. -/
theorem runIn_of_passes (h : PassesTests config arrival.pl) (packets : Packets) :
    ∃ queue, config.mappingsIn (byteAt arrival.pl 9) = some queue ∧
      (¬ IsFragment arrival.pl → runIn config packets arrival =
        (packets, [.up queue (messageOf arrival.pl (contents arrival.pl))])) ∧
      (IsFragment arrival.pl → runIn config packets arrival =
        let stored := storeFragment config arrival (packetKey arrival.pl)
          (fragmentOffset arrival.pl) (moreFragments arrival.pl) (contents arrival.pl) packets
        (stored.1, (stored.2.map fun whole ↦ .up queue (messageOf arrival.pl whole)).toList)) := by
  obtain ⟨queue, hqueue⟩ := Option.ne_none_iff_exists'.mp h.mapped
  have haccept : runIn config packets arrival = acceptPacket config queue arrival packets := by
    simp only [runIn, h.length_le.not_gt, h.version, h.destination, h.header_le.not_gt,
      h.size_le.not_gt, h.ttl, hqueue, ne_eq, not_true_eq_false, if_false]
  refine ⟨queue, hqueue, fun hwhole ↦ ?_, fun hfragment ↦ ?_⟩
  · unfold IsFragment at hwhole
    simp only [haccept, acceptPacket, h.checksum, hwhole, slice_eq_contents, ne_eq,
      not_true_eq_false, if_false, Option.map_some, Option.toList_some]
    rfl
  · unfold IsFragment at hfragment
    simp only [haccept, acceptPacket, h.checksum, hfragment, slice_eq_contents, ne_eq,
      not_true_eq_false, if_false, if_true]
    rfl

/-- A packet that fails a test changes no record and passes nothing up. -/
theorem runIn_of_refused (h : ¬ PassesTests config arrival.pl) (packets : Packets) :
    (runIn config packets arrival).1 = packets ∧
      ∀ queue message, Output.up queue message ∉ (runIn config packets arrival).2 := by
  unfold runIn
  dsimp only
  split_ifs with hshort hversion haddr hheader hsize httl
  · simp
  · simp
  · simp
  · simp
  · simp
  · simp
  · cases hqueue : config.mappingsIn (byteAt arrival.pl 9) with
    | none => simp
    | some queue =>
      by_cases hchecksum : ipChecksum (arrival.pl.take (headerSize arrival.pl)) = 0
      · refine absurd ⟨not_lt.mp hshort, not_not.mp hversion, not_not.mp haddr,
          not_lt.mp hheader, not_lt.mp hsize, httl, ?_, hchecksum⟩ h
        rw [hqueue]
        exact Option.some_ne_none queue
      · simp [acceptPacket, hchecksum]

end Tests

end MyIPNG.Ip4
