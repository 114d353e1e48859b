import MyIPNG.Ip4.RunIn

/-!
# What a receiver reads from a fragment

The packets of the fragmentation loop, read by `run_in`: each field of the header comes back as it
was written, the checksum of the header is zero, and what follows the header is the piece of the
payload. So a receiver with the right address and protocol passes every fragment to its store of
fragments, and a packet that is the whole datagram up (`runIn_tileMsg`).

A tile fits the wire when it is a piece of the payload that ends inside it, begins at a multiple of
eight, and the payload is not longer than the largest datagram.
-/

set_option autoImplicit false
set_option relaxedAutoImplicit false

namespace MyIPNG.Ip4

open Base Utils

/-! ### The bytes of the header -/

/-- What a tile of the payload has to be for its packet to carry it. -/
structure FitsWire (datagram : Datagram) (tile : Tile UInt8) : Prop where
  piece : tile.2 = slice datagram.payload tile.1 tile.2.length
  inside : tileEnd tile ≤ datagram.payload.length
  aligned : 8 ∣ tile.1
  small : datagram.payload.length ≤ 65515

theorem length_fragmentHeader (datagram : Datagram) (fragmentOffset currentFragmentSize : ℕ)
    (checksum : UInt16) :
    (fragmentHeader datagram fragmentOffset currentFragmentSize checksum).length = 20 := by
  simp [fragmentHeader, datagram.source.length_eq, datagram.destination.length_eq]

/-- A number below `2 ^ 16` read from its two bytes. -/
theorem twoBytes_read {number : ℕ} (h : number < 65536) :
    ((UInt8.ofNat (number >>> 8)).toNat <<< 8) ||| (UInt8.ofNat number).toNat = number := by
  rw [← Nat.shiftLeft_add_eq_or_of_lt (UInt8.ofNat number).toNat_lt, Nat.shiftLeft_eq,
    Nat.shiftRight_eq_div_pow, UInt8.toNat_ofNat', UInt8.toNat_ofNat']
  omega

/-- The byte that holds the five high bits of an offset and the bit for more fragments gives both
back. -/
theorem offsetBits_read (high : Fin 32) (more : Bool) :
    let byte := UInt8.ofNat high.val ||| ((if more then 1 else 0 : UInt8) <<< 5)
    (byte &&& 31).toNat = high.val ∧ ((byte >>> 5) &&& 1 != 0) = more := by
  revert high more
  decide

section Header

variable (datagram : Datagram) (fragmentOffset currentFragmentSize : ℕ) (checksum : UInt16)
  (piece : List UInt8)

/-- The source address behind the first twelve bytes. -/
theorem slice_source :
    slice (fragmentHeader datagram fragmentOffset currentFragmentSize checksum ++ piece) 12 4 =
      datagram.source.bytes := by
  have hfull := slice_full datagram.source.bytes
  rw [datagram.source.length_eq] at hfull
  rw [slice_append_left _ _ _ _ (by simp [length_fragmentHeader])]
  calc slice (fragmentHeader datagram fragmentOffset currentFragmentSize checksum) 12 4
      = slice (datagram.source.bytes ++ datagram.destination.bytes) 0 4 := rfl
    _ = slice datagram.source.bytes 0 4 :=
        slice_append_left _ _ _ _ (by rw [datagram.source.length_eq])
    _ = datagram.source.bytes := hfull

theorem slice_destination :
    slice (fragmentHeader datagram fragmentOffset currentFragmentSize checksum ++ piece) 16 4 =
      datagram.destination.bytes := by
  have hfull := slice_full datagram.destination.bytes
  have hright := slice_append_right datagram.source.bytes datagram.destination.bytes 0 4
  rw [datagram.source.length_eq] at hright
  rw [datagram.destination.length_eq] at hfull
  rw [slice_append_left _ _ _ _ (by simp [length_fragmentHeader])]
  calc slice (fragmentHeader datagram fragmentOffset currentFragmentSize checksum) 16 4
      = slice (datagram.source.bytes ++ datagram.destination.bytes) (4 + 0) 4 := rfl
    _ = slice datagram.destination.bytes 0 4 := hright
    _ = datagram.destination.bytes := hfull

/-- The checksum that the sender puts in the header verifies. -/
theorem ipChecksum_fragmentHeader :
    ipChecksum (fragmentHeader datagram fragmentOffset currentFragmentSize
      (ipChecksum (fragmentHeader datagram fragmentOffset currentFragmentSize 0))) = 0 := by
  have hsplit : ∀ checksum, fragmentHeader datagram fragmentOffset currentFragmentSize checksum =
      (fragmentHeader datagram fragmentOffset currentFragmentSize 0).take 10 ++
        [(checksum >>> 8).toUInt8, checksum.toUInt8] ++
        (datagram.source.bytes ++ datagram.destination.bytes) := fun checksum ↦ rfl
  have hlength := length_fragmentHeader datagram fragmentOffset currentFragmentSize 0
  have hle := two_mul_wordSum_le (fragmentHeader datagram fragmentOffset currentFragmentSize 0)
  rw [hlength] at hle
  rw [hsplit (ipChecksum _)]
  refine ipChecksum_insert _ _ ?_ ?_
  · rw [List.length_take, hlength]
    rfl
  · change wordSum (fragmentHeader datagram fragmentOffset currentFragmentSize 0) + 65535 < _
    omega

end Header

/-! ### The fields of a fragment -/

/-- The key of the record in which a server collects the fragments of a datagram. -/
def datagramKey (datagram : Datagram) : UInt64 :=
  calcSessionId datagram.source.bytes datagram.destination.bytes datagram.protocol
    datagram.packetsId

section Fields

variable {datagram : Datagram} {tile : Tile UInt8}

theorem tileMsg_eq (h : FitsWire datagram tile) :
    tileMsg datagram tile = fragmentHeader datagram tile.1 tile.2.length
      (ipChecksum (fragmentHeader datagram tile.1 tile.2.length 0)) ++ tile.2 := by
  rw [tileMsg, completeMsg, ← h.piece]

theorem length_tileMsg (h : FitsWire datagram tile) :
    (tileMsg datagram tile).length = tile.2.length + 20 := by
  rw [tileMsg_eq h, List.length_append, length_fragmentHeader, Nat.add_comm]

theorem ipSize_tileMsg (h : FitsWire datagram tile) :
    ipSize (tileMsg datagram tile) = tile.2.length + 20 := by
  have hsmall := h.small
  have hinside : tile.1 + tile.2.length ≤ datagram.payload.length := h.inside
  exact twoBytes_read (by omega)

/-- The byte with the high bits of the offset and the bit for more fragments. -/
theorem offsetByte_read (h : FitsWire datagram tile) :
    (byteAt (tileMsg datagram tile) 6 &&& 31).toNat = tile.1 >>> 11 ∧
      ((byteAt (tileMsg datagram tile) 6 >>> 5) &&& 1 != 0) =
        decide (tileEnd tile < datagram.payload.length) := by
  have hsmall := h.small
  have hinside : tile.1 + tile.2.length ≤ datagram.payload.length := h.inside
  have hhigh : tile.1 >>> 11 < 32 := by
    rw [Nat.shiftRight_eq_div_pow]
    omega
  have hread := offsetBits_read ⟨tile.1 >>> 11, hhigh⟩
    (decide (tileEnd tile < datagram.payload.length))
  simp only [decide_eq_true_eq] at hread
  exact hread

theorem fragmentOffset_tileMsg (h : FitsWire datagram tile) :
    fragmentOffset (tileMsg datagram tile) = UInt16.ofNat tile.1 := by
  have hsmall := h.small
  have hinside : tile.1 + tile.2.length ≤ datagram.payload.length := h.inside
  obtain ⟨units, hunits⟩ := h.aligned
  have hhigh := (offsetByte_read h).1
  change UInt16.ofNat ((((byteAt (tileMsg datagram tile) 6 &&& 31).toNat <<< 8) |||
    (UInt8.ofNat (tile.1 >>> 3)).toNat) * 8) = _
  rw [hhigh, ← Nat.shiftLeft_add_eq_or_of_lt (UInt8.ofNat _).toNat_lt, Nat.shiftLeft_eq,
    Nat.shiftRight_eq_div_pow, Nat.shiftRight_eq_div_pow, UInt8.toNat_ofNat']
  congr 1
  omega

theorem moreFragments_tileMsg (h : FitsWire datagram tile) :
    moreFragments (tileMsg datagram tile) = decide (tileEnd tile < datagram.payload.length) :=
  (offsetByte_read h).2

theorem packetId_tileMsg : packetId (tileMsg datagram tile) = datagram.packetsId := by
  have hor := Nat.shiftLeft_add_eq_or_of_lt datagram.packetsId.toUInt8.toNat_lt
    (datagram.packetsId >>> 8).toUInt8.toNat
  change UInt16.ofNat (((datagram.packetsId >>> 8).toUInt8.toNat <<< 8) |||
    datagram.packetsId.toUInt8.toNat) = _
  rw [← hor, Nat.shiftLeft_eq]
  exact (congrArg UInt16.ofNat (toNat_twoBytes datagram.packetsId)).trans (UInt16.ofNat_toNat)

theorem headerSize_tileMsg : headerSize (tileMsg datagram tile) = 20 := by
  change ((((4 : UInt8) <<< 4) ||| 5) &&& 15).toNat * 4 = 20
  decide

/-- The header of a fragment verifies. -/
theorem ipChecksum_tileMsg (h : FitsWire datagram tile) :
    ipChecksum ((tileMsg datagram tile).take 20) = 0 := by
  rw [tileMsg_eq h, List.take_left' (length_fragmentHeader _ _ _ _)]
  exact ipChecksum_fragmentHeader datagram tile.1 tile.2.length

theorem drop_tileMsg (h : FitsWire datagram tile) : (tileMsg datagram tile).drop 20 = tile.2 := by
  rw [tileMsg_eq h, List.drop_left' (length_fragmentHeader _ _ _ _)]

theorem slice_tileMsg (h : FitsWire datagram tile) :
    slice (tileMsg datagram tile) 20 tile.2.length = tile.2 := by
  rw [slice, drop_tileMsg h, List.take_length]

/-- A fragment passes the tests on its header. -/
theorem runIn_tileMsg_accept (h : FitsWire datagram tile) {config : Config} {queue : List UInt8}
    (haddr : config.listenAddr = datagram.destination)
    (hmapping : config.mappingsIn datagram.protocol = some queue) (packets : Packets)
    {arrival : Arrival} (harrival : arrival.pl = tileMsg datagram tile) :
    runIn config packets arrival = acceptPacket config queue arrival packets := by
  have hlength := length_tileMsg h
  have hsize := ipSize_tileMsg h
  have hheader : headerSize (tileMsg datagram tile) = 20 := headerSize_tileMsg
  have hversion : byteAt (tileMsg datagram tile) 0 >>> 4 = 4 := by
    change (((4 : UInt8) <<< 4) ||| 5) >>> 4 = 4
    decide
  have httl : ¬ byteAt (tileMsg datagram tile) 8 = 0 := by
    change ¬ (63 : UInt8) = 0
    decide
  have hdestination : slice (tileMsg datagram tile) 16 4 = config.listenAddr.bytes := by
    rw [tileMsg_eq h, slice_destination, haddr]
  have hprotocol : byteAt (tileMsg datagram tile) 9 = datagram.protocol := rfl
  simp only [runIn, harrival, hprotocol, hmapping]
  rw [if_neg (by omega), if_neg (not_not.mpr hversion), if_neg (not_not.mpr hdestination),
    if_neg (by omega), if_neg (by omega), if_neg httl]

/-- A fragment at a server with its address and its protocol: it is stored, or goes up when it is
the whole datagram. -/
theorem runIn_tileMsg (h : FitsWire datagram tile) {config : Config} {queue : List UInt8}
    (haddr : config.listenAddr = datagram.destination)
    (hmapping : config.mappingsIn datagram.protocol = some queue) (packets : Packets)
    {arrival : Arrival} (harrival : arrival.pl = tileMsg datagram tile) :
    runIn config packets arrival =
      let stored : Packets × Option (List UInt8) :=
        if 0 < tile.1 ∨ tileEnd tile < datagram.payload.length then
          storeFragment config arrival (datagramKey datagram) (UInt16.ofNat tile.1)
            (decide (tileEnd tile < datagram.payload.length)) tile.2 packets
        else (packets, some tile.2)
      (stored.1, (stored.2.map fun whole ↦ Output.up queue ⟨datagramKey datagram,
        arrival.pl, datagram.source.bytes, datagram.destination.bytes, whole⟩).toList) := by
  have hsource : slice (tileMsg datagram tile) 12 4 = datagram.source.bytes := by
    rw [tileMsg_eq h, slice_source]
  have hdestination : slice (tileMsg datagram tile) 16 4 = datagram.destination.bytes := by
    rw [tileMsg_eq h, slice_destination]
  have hprotocol : byteAt (tileMsg datagram tile) 9 = datagram.protocol := rfl
  have hwhole : (tileMsg datagram tile).take (tile.2.length + 20) = tileMsg datagram tile := by
    rw [← length_tileMsg h, List.take_length]
  have hoffset : 0 < UInt16.ofNat tile.1 ↔ 0 < tile.1 := by
    have hsmall := h.small
    have hinside : tile.1 + tile.2.length ≤ datagram.payload.length := h.inside
    rw [UInt16.lt_iff_toNat_lt, UInt16.toNat_ofNat', UInt16.toNat_zero, Nat.mod_eq_of_lt (by omega)]
  rw [runIn_tileMsg_accept h haddr hmapping packets harrival, acceptPacket]
  simp only [harrival, headerSize_tileMsg, ipChecksum_tileMsg h, hsource, hdestination, hprotocol,
    ipSize_tileMsg h, fragmentOffset_tileMsg h, moreFragments_tileMsg h, packetId_tileMsg,
    Nat.add_sub_cancel, slice_tileMsg h, hwhole, hoffset, decide_eq_true_eq]
  rfl

end Fields

end MyIPNG.Ip4
