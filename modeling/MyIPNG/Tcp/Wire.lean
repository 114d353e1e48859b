import MyIPNG.Tcp.Sending
import MyIPNG.Utils.Checksum
import MyIPNG.Utils.Net

/-!
# Segments on the wire

The bytes of the packets that `send_tcp_packet` makes, and what `run_in` decodes before it looks for
the session: it tests the length, the checksum and the header length, reads the fields, and walks
over the options of a SYN for a segment size.

Each packet of `send_tcp_packet` has a header of twenty bytes, a checksum that verifies
(`tcpUdpChecksum_tcpPacket`) and decodes to the fields and the payload it was made from
(`decodeSegment_tcpPacket`). With the loop that cuts the payload, the packets of a payload decode to
consecutive pieces that join to it (`sendTcpPacket_decodes`).
-/

set_option autoImplicit false
set_option relaxedAutoImplicit false

namespace MyIPNG.Tcp

open Base Utils

/-! ### Packets -/

/-- `packet` with a given checksum. The urgent pointer is left at zero. -/
def packetWith (segment : OutSegment) (checksum : UInt16) : List UInt8 :=
  putUint16 segment.srcPort ++ (putUint16 segment.dstPort ++ (putUint32 segment.seqNr ++
    (putUint32 segment.ackNr ++ ([(5 : UInt8) <<< 4, segment.flags] ++
      (putUint16 segment.windowSize ++ (putUint16 checksum ++ ([0, 0] ++ segment.payload)))))))

/-- `packet` of `send_tcp_packet`. -/
def tcpPacket (segment : OutSegment) : List UInt8 :=
  packetWith segment
    (tcpUdpChecksum segment.fromAddr segment.toAddr (packetWith segment 0) 6)

/-! ### Decoding -/

/-- `header_size`. -/
def headerSize (pl : List UInt8) : ℕ := (pl.getD 12 0 >>> 4).toNat * 4

/-- The last entry of `mss_ranges` that is not above the given segment size, when there is one. -/
def selectMss (mss : ℕ) (mssIndex : Fin 8) : Fin 8 :=
  (List.finRange 8).foldl (fun index i ↦ if (mssRanges i).value ≤ mss then i else index) mssIndex

/-- The walk over the options of a SYN, from the position `cur` to the end of the header: what it
leaves in `mss_index`. -/
def walkOptions (pl : List UInt8) (headerEnd cur : ℕ) (mssIndex : Fin 8) : Fin 8 :=
  if cur + 2 ≤ headerEnd then
    let kind := pl.getD cur 0
    let size := pl.getD (cur + 1) 0
    let mssIndex := if kind = 2 ∧ size = 4 ∧ cur + 4 ≤ headerEnd then
      selectMss (((pl.getD (cur + 2) 0).toNat <<< 8) ||| (pl.getD (cur + 3) 0).toNat) mssIndex
      else mssIndex
    if kind = 0 ∨ kind = 1 then walkOptions pl headerEnd (cur + 1) mssIndex
    else if size = 0 then mssIndex
    else walkOptions pl headerEnd (cur + size.toNat) mssIndex
  else mssIndex
termination_by headerEnd - cur
decreasing_by
  · omega
  · rename_i hsize
    have hpos : 0 < size.toNat := Nat.pos_of_ne_zero fun hzero ↦ hsize (UInt8.toNat_inj.mp hzero)
    change headerEnd - (cur + size.toNat) < headerEnd - cur
    omega

/-- `run_in` up to the lookup of the session: nothing when the packet is dropped. A header that is
longer than the packet is dropped behind the walk over its options, so what the walk reads behind
the packet has no effect. The length of a packet is an `int` in the source. -/
def decodeSegment (fromAddr toAddr pl : List UInt8) : Option Segment :=
  if pl.length < 20 then none
  else if tcpUdpChecksum fromAddr toAddr pl 6 ≠ 0 then none
  else if headerSize pl < 20 then none
  else if pl.length < headerSize pl then none
  else if hint : (pl.drop (headerSize pl)).length < 2 ^ 31 then
    let flags := pl.getD 13 0
    some
      { fromAddr := fromAddr
        toAddr := toAddr
        sourcePort := getUint16 pl 0
        destinationPort := getUint16 pl 2
        peerSeqNr := getUint32 pl 4
        ackSeqNr := getUint32 pl 8
        flags := flags
        windowSize := getUint16 pl 14
        mssIndex := if hasFlag flags flagSyn ∧ hasFlag flags flagAck = false then
          walkOptions pl (headerSize pl) 20 1 else 1
        payload := pl.drop (headerSize pl)
        payload_lt := hint }
  else none

/-! ### A packet read back -/

section Packet

variable (segment : OutSegment) (checksum : UInt16)

theorem length_packetWith : (packetWith segment checksum).length = 20 + segment.payload.length := by
  simp only [packetWith, List.length_append, length_putUint16, length_putUint32, List.length_cons,
    List.length_nil]
  omega

theorem headerSize_packetWith : headerSize (packetWith segment checksum) = 20 := by
  have hbyte : (packetWith segment checksum).getD 12 0 = (5 : UInt8) <<< 4 := rfl
  rw [headerSize, hbyte]
  decide

theorem drop_packetWith : (packetWith segment checksum).drop 20 = segment.payload := rfl

theorem flags_packetWith : (packetWith segment checksum).getD 13 0 = segment.flags := rfl

theorem sourcePort_packetWith : getUint16 (packetWith segment checksum) 0 = segment.srcPort :=
  uint16_of_bytes segment.srcPort

theorem destinationPort_packetWith : getUint16 (packetWith segment checksum) 2 = segment.dstPort :=
  uint16_of_bytes segment.dstPort

theorem seqNr_packetWith : getUint32 (packetWith segment checksum) 4 = segment.seqNr :=
  uint32_of_bytes segment.seqNr

theorem ackNr_packetWith : getUint32 (packetWith segment checksum) 8 = segment.ackNr :=
  uint32_of_bytes segment.ackNr

theorem windowSize_packetWith : getUint16 (packetWith segment checksum) 14 = segment.windowSize :=
  uint16_of_bytes segment.windowSize

end Packet

/-- The checksum of a packet verifies. Assumes: addresses of four bytes and a packet of at most
`131000` bytes. -/
theorem tcpUdpChecksum_tcpPacket {segment : OutSegment} (hfrom : segment.fromAddr.length = 4)
    (hto : segment.toAddr.length = 4) (hsmall : 20 + segment.payload.length ≤ 131000) :
    tcpUdpChecksum segment.fromAddr segment.toAddr (tcpPacket segment) 6 = 0 := by
  have hlength := length_packetWith segment 0
  have hinsert := tcpUdpChecksum_insert 6 hfrom hto ((packetWith segment 0).take 16)
    ([0, 0] ++ segment.payload) (by rw [List.length_take, hlength]; omega)
    (by simp only [List.length_append, List.length_take, hlength, List.length_cons,
      List.length_nil]; omega)
  exact hinsert

/-- What a packet decodes to: no option gives another segment size. Assumes: the payload of a
packet. -/
def decoded (segment : OutSegment) (hpayload : segment.payload.length < 2 ^ 31) : Segment where
  fromAddr := segment.fromAddr
  toAddr := segment.toAddr
  sourcePort := segment.srcPort
  destinationPort := segment.dstPort
  peerSeqNr := segment.seqNr
  ackSeqNr := segment.ackNr
  flags := segment.flags
  windowSize := segment.windowSize
  mssIndex := 1
  payload := segment.payload
  payload_lt := hpayload

/-- A packet decodes to the fields and the payload it was made from. Assumes: addresses of four
bytes and a packet of at most `131000` bytes. -/
theorem decodeSegment_tcpPacket (segment : OutSegment) (hfrom : segment.fromAddr.length = 4)
    (hto : segment.toAddr.length = 4) (hsmall : 20 + segment.payload.length ≤ 131000) :
    decodeSegment segment.fromAddr segment.toAddr (tcpPacket segment) =
      some (decoded segment (by omega)) := by
  have hverifies := tcpUdpChecksum_tcpPacket hfrom hto hsmall
  have hwalk : ∀ pl : List UInt8, walkOptions pl 20 20 1 = 1 := by
    intro pl
    rw [walkOptions, if_neg (by omega)]
  unfold tcpPacket at *
  generalize tcpUdpChecksum segment.fromAddr segment.toAddr (packetWith segment 0) 6 = checksum at *
  have hlength := length_packetWith segment checksum
  have hheader := headerSize_packetWith segment checksum
  rw [decodeSegment, if_neg (by omega), if_neg (not_not.mpr hverifies), hheader,
    if_neg (by omega), if_neg (by omega), dif_pos (by rw [drop_packetWith]; omega)]
  simp only [hwalk, ite_self, sourcePort_packetWith, destinationPort_packetWith, seqNr_packetWith,
    ackNr_packetWith, windowSize_packetWith, flags_packetWith, drop_packetWith]
  rfl

/-! ### The packets of a payload -/

theorem joined_pieces (segments : List OutSegment) :
    joined (pieces segments) = (segments.map OutSegment.payload).flatten := by
  induction segments with
  | nil => rfl
  | cons segment rest ih =>
    change segment.payload ++ joined (pieces rest) = _
    rw [ih, List.map_cons, List.flatten_cons]

/-- The sequence number of a queued segment. -/
theorem seqNr_getElem {start : UInt32} {segments : List OutSegment}
    (h : Contiguous start (pieces segments)) {i : ℕ} (hi : i < segments.length) :
    segments[i].seqNr = start +
      UInt32.ofNat ((segments.take i).map fun segment ↦ segment.payload.length).sum := by
  have hpiece := contiguous_getElem h (i := i) (by rwa [pieces, List.length_map])
  have htake : (pieces segments).take i = pieces (segments.take i) := List.map_take.symm
  have hlength : (joined (pieces (segments.take i))).length =
      ((segments.take i).map fun segment ↦ segment.payload.length).sum := by
    rw [joined_pieces, List.length_flatten, List.map_map]
    rfl
  rw [htake, hlength] at hpiece
  rw [← hpiece]
  simp only [pieces, List.getElem_map]

/-- The packets of `send_tcp_packet` decode to what was encoded. When the queue takes every segment
there are as many as the payload needs, one for an empty payload; each decodes, with a header of
twenty bytes, to the ports, the acknowledgement number, the flags and the window, to a payload of at
most `mss` bytes and to the sequence number that counts the payload before it; and the payloads join
to the whole. Assumes: addresses of four bytes and a segment size of sixteen bits. -/
theorem sendTcpPacket_decodes (accepts : ℕ → Bool) (haccepts : ∀ i, accepts i = true)
    (header : OutSegment) (hfrom : header.fromAddr.length = 4) (hto : header.toAddr.length = 4)
    (mss : Mss) (hmss : mss.value < 2 ^ 16) :
    let segments := (sendTcpPacket accepts header mss).1
    segments.length = segmentCount mss header.payload.length ∧
      (segments.map OutSegment.payload).flatten = header.payload ∧
      ∀ (i : ℕ) (hi : i < segments.length), ∃ segment : Segment,
        decodeSegment header.fromAddr header.toAddr (tcpPacket segments[i]) = some segment ∧
        headerSize (tcpPacket segments[i]) = 20 ∧
        segment.sourcePort = header.srcPort ∧ segment.destinationPort = header.dstPort ∧
        segment.ackSeqNr = header.ackNr ∧ segment.flags = header.flags ∧
        segment.windowSize = header.windowSize ∧
        segment.peerSeqNr = header.seqNr +
          UInt32.ofNat ((segments.take i).map fun earlier ↦ earlier.payload.length).sum ∧
        segment.payload = segments[i].payload ∧ segment.payload.length ≤ mss.value := by
  intro segments
  obtain ⟨hcount, hjoined, -⟩ := sendTcpLoop_accepted accepts header mss 0 header.payload
    header.seqNr 0 fun i _ ↦ haccepts (0 + i)
  have hcontiguous := sendTcpLoop_contiguous accepts header mss 0 header.payload header.seqNr 0
  have hheader := sendTcpLoop_header accepts header mss 0 header.payload header.seqNr 0
  refine ⟨hcount, (joined_pieces segments).symm.trans hjoined, fun i hi ↦ ?_⟩
  obtain ⟨seqNr, piece, hfields, hpiece⟩ := hheader segments[i] (List.getElem_mem hi)
  have hseq : segments[i].seqNr = header.seqNr +
      UInt32.ofNat ((segments.take i).map fun earlier ↦ earlier.payload.length).sum :=
    seqNr_getElem hcontiguous hi
  rw [hfields] at hseq ⊢
  have hdecode := decodeSegment_tcpPacket { header with seqNr := seqNr, payload := piece } hfrom hto
    (by change 20 + piece.length ≤ 131000; omega)
  exact ⟨_, hdecode, headerSize_packetWith _ _, rfl, rfl, rfl, rfl, rfl, hseq, rfl, hpiece⟩

/-- Three bytes in segments of at most two: two packets, numbered `2 ^ 32 - 1` and `1`. -/
theorem sendTcpPacket_decodes_wrapping :
    let header : OutSegment :=
      ⟨[10, 0, 0, 1], [10, 0, 0, 2], 80, 1025, 0xffffffff, 9, 0x18, 8192, [1, 2, 3]⟩
    (sendTcpPacket (fun _ ↦ true) header ⟨2, by decide⟩).1.length = 2 ∧
      ((sendTcpPacket (fun _ ↦ true) header ⟨2, by decide⟩).1.map OutSegment.payload).flatten =
        [1, 2, 3] := by
  intro header
  obtain ⟨hcount, hjoined, -⟩ := sendTcpPacket_decodes (fun _ ↦ true) (fun _ ↦ rfl) header rfl rfl
    ⟨2, by decide⟩ (by decide)
  exact ⟨hcount.trans (by decide), hjoined⟩

end MyIPNG.Tcp
