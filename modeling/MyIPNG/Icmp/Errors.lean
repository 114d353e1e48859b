import MyIPNG.Icmp.Server
import MyIPNG.Shm.Wrapping
import MyIPNG.Utils.Net

/-!
# From a rejected packet to an ICMP error

`send_icmp_error` of `ip4_server.cpp` wraps the rejected packet with a payload of two bytes, the
type and the code, and `run_err` of `icmp_server.cpp` takes the packet apart again and takes the
length of its header from the byte behind these two. Here both work on the bytes of the messages
between the servers, with pointers into them.

In a wrapped message the full packet stands right behind the payload (`drop_encodeUp`), so on what
`wrap_message_up` makes, `run_err` on bytes is `runErr` (`runErrMessage_encodeUp`), and the third
byte that it reads is the first byte of the rejected packet (`copiedBytes_eq`).
-/

set_option autoImplicit false
set_option relaxedAutoImplicit false

namespace MyIPNG.Icmp

open Base Utils Shm

/-! ### The code -/

/-- `send_icmp_error`: the message for the ICMP server. The type and the code become bytes. -/
def sendIcmpError (contents : ℕ → UInt8) (type code : ℤ) (fullPkt toAddr me : List UInt8) :
    Message :=
  wrapMessageUp contents fullPkt me toAddr [UInt8.ofInt type, UInt8.ofInt code] none

/-- The loop body of `run_err` on the bytes of a message: the message for the IP server. -/
def runErrMessage (contents : ℕ → UInt8) (m : List UInt8) : Option Message :=
  match unwrapMessageUp m with
  | none => none
  | some unwrapped =>
    if unwrapped.fullPkt.len < 20 then none
    else
      let type := m.getD unwrapped.pl.start 0
      let code := m.getD (unwrapped.pl.start + 1) 0
      let ipHeaderSize := (m.getD (unwrapped.pl.start + 2) 0 &&& 15).toNat * 4
      let copyN := min unwrapped.fullPkt.len (ipHeaderSize + 64 / 8)
      let mOut := icmpMessage type code (slice m unwrapped.fullPkt.start copyN)
      some
        (wrapMessageDown contents (unwrapped.fromArea.read m) (unwrapped.toArea.read m) mOut none)

/-! ### The bytes of the message -/

section Bytes

variable (contents : ℕ → UInt8) (fullPkt fromBytes toBytes pl : List UInt8)

/-- Behind the addresses stand the payload and the full packet. -/
theorem drop_encodeUp : (encodeUp contents fullPkt fromBytes toBytes pl).drop
    (sizeofWrappedUp + fromBytes.length + toBytes.length) = pl ++ fullPkt := by
  have hfront : (leBytes 4 typeUp ++ leBytes 8 fullPkt.length ++ leBytes 8 fromBytes.length ++
      leBytes 8 toBytes.length ++ leBytes 8 pl.length ++ fromBytes ++ toBytes).length =
      sizeofWrappedUp + fromBytes.length + toBytes.length := by
    simp only [List.length_append, length_leBytes, sizeofWrappedUp]
  rw [encodeUp_eq, ← hfront, List.append_nil]
  simp only [← List.append_assoc _ _ (pl ++ fullPkt)]
  exact List.drop_left

/-- A byte at or behind the payload. -/
theorem getD_encodeUp (position : ℕ) : (encodeUp contents fullPkt fromBytes toBytes pl).getD
    (sizeofWrappedUp + fromBytes.length + toBytes.length + position) 0 =
      (pl ++ fullPkt).getD position 0 := by
  rw [← drop_encodeUp contents fullPkt fromBytes toBytes pl, List.getD_eq_getElem?_getD,
    List.getD_eq_getElem?_getD, List.getElem?_drop]

/-- On a wrapped message `run_err` does what it does with the parts of the message. Assumes: a total
that has sixty-four bits. -/
theorem runErrMessage_encodeUp (contents' : ℕ → UInt8)
    (hsize : sizeofWrappedUp + fromBytes.length + toBytes.length + pl.length + fullPkt.length <
      2 ^ 64) :
    runErrMessage contents' (encodeUp contents fullPkt fromBytes toBytes pl) =
      (runErr ⟨fullPkt, fromBytes, toBytes, pl⟩).map fun error ↦
        wrapMessageDown contents' error.fromAddr error.toAddr error.pl none := by
  have hareas := unwrapMessageUp_areas contents fullPkt fromBytes toBytes pl hsize
  have hbyte := getD_encodeUp contents fullPkt fromBytes toBytes pl
  have hholds := holds_encodeUp contents fullPkt fromBytes toBytes pl
  simp only [Holds, assignmentsUp, List.forall_mem_cons] at hholds
  obtain ⟨-, -, -, -, -, hfrom, hto, hpl, hfullPkt, -⟩ := hholds
  have hslice : ∀ count, count ≤ fullPkt.length →
      slice (encodeUp contents fullPkt fromBytes toBytes pl)
        (sizeofWrappedUp + fromBytes.length + toBytes.length + pl.length) count =
      fullPkt.take count := by
    intro count hcount
    have htake := congrArg (List.take count) hfullPkt
    rwa [slice, List.take_take, min_eq_left hcount] at htake
  have htype := hbyte 0
  rw [Nat.add_zero] at htype
  simp only [runErrMessage, hareas, runErr]
  by_cases hlong : fullPkt.length < 20
  · rw [if_pos hlong, if_pos hlong]
    rfl
  · rw [if_neg hlong, if_neg hlong, Option.map_some, htype, hbyte 1, hbyte 2,
      hslice _ (min_le_left _ _), Area.read, Area.read, hfrom, hto]
    rfl

end Bytes

/-! ### What the error quotes -/

/-- The number of words in the header of a packet: the low four bits of its first byte. -/
def headerWords (packet : List UInt8) : ℕ := (packet.getD 0 0).toNat % 16

/-- Behind a payload of two bytes the third byte is the first one of the packet. -/
theorem copiedBytes_eq {m : InMessage} (h : m.pl.length = 2) :
    copiedBytes m = m.fullPkt.take (min m.fullPkt.length (4 * headerWords m.fullPkt + 8)) := by
  have hbyte : (m.pl ++ m.fullPkt).getD 2 0 = m.fullPkt.getD 0 0 := by
    rw [List.getD_eq_getElem?_getD, List.getElem?_append_right (by omega), h,
      List.getD_eq_getElem?_getD]
  have hbits : (m.fullPkt.getD 0 0 &&& 15).toNat = headerWords m.fullPkt := by
    rw [UInt8.toNat_and, headerWords]
    exact Nat.and_two_pow_sub_one_eq_mod _ 4
  simp only [copiedBytes, hbyte, hbits, Nat.mul_comm 4]

theorem icmpMessage_eq (type code : UInt8) (copied : List UInt8) :
    icmpMessage type code copied = [type, code] ++
      putUint16 (ipChecksum (icmpMessageWith type code copied 0)) ++ [0, 0, 0, 0] ++ copied := by
  simp [icmpMessage, icmpMessageWith, putUint16]

/-- What `run_err` does with a packet that `send_icmp_error` has wrapped. Assumes: a packet of at
least twenty bytes, and a total that fits the field `size` of the message. -/
theorem runErrMessage_sendIcmpError (contents contents' : ℕ → UInt8) (type code : ℤ)
    {packet toAddr me : List UInt8} (hlong : 20 ≤ packet.length)
    (hsize : sizeofWrappedUp + me.length + toAddr.length + 2 + packet.length < 2 ^ 32) :
    runErrMessage contents' (sendIcmpError contents type code packet toAddr me).data =
      some (wrapMessageDown contents' me toAddr
        (icmpMessage (UInt8.ofInt type) (UInt8.ofInt code)
          (packet.take (min packet.length (4 * headerWords packet + 8)))) none) := by
  have hlength := length_encodeUp contents packet me toAddr [UInt8.ofInt type, UInt8.ofInt code]
  have hdata : (sendIcmpError contents type code packet toAddr me).data =
      encodeUp contents packet me toAddr [UInt8.ofInt type, UInt8.ofInt code] :=
    data_allocateShmMessage _ _ (hlength.trans_lt hsize)
  have hcopied := copiedBytes_eq
    (m := ⟨packet, me, toAddr, [UInt8.ofInt type, UInt8.ofInt code]⟩) rfl
  rw [hdata, runErrMessage_encodeUp contents packet me toAddr _ contents'
    (hsize.trans (by decide)), runErr, if_neg (not_lt.mpr hlong), hcopied]
  rfl

/-- The ICMP error for a rejected packet: a message from `me` to the sender of the packet with the
type, the code, a checksum that verifies, four zero bytes and the beginning of the packet, its
header and eight bytes more. Assumes: a packet of at least twenty bytes, and a total that fits the
field `size` of the message. -/
theorem icmp_error_quotes_packet (contents contents' : ℕ → UInt8) (type code : ℤ)
    {packet toAddr me : List UInt8} (hlong : 20 ≤ packet.length)
    (hsize : sizeofWrappedUp + me.length + toAddr.length + 2 + packet.length < 2 ^ 32) :
    ∃ error unwrapped message checksum,
      runErrMessage contents' (sendIcmpError contents type code packet toAddr me).data =
        some error ∧
      error.Addressed none ∧
      unwrapMessageDown error.data = some unwrapped ∧
      unwrapped.fromArea.Shows error.data me ∧
      unwrapped.toArea.Shows error.data toAddr ∧
      unwrapped.pl.Shows error.data message ∧
      message = [UInt8.ofInt type, UInt8.ofInt code] ++ putUint16 checksum ++ [0, 0, 0, 0] ++
        packet.take (min packet.length (4 * headerWords packet + 8)) ∧
      ipChecksum message = 0 := by
  have hrun := runErrMessage_sendIcmpError contents contents' type code hlong hsize
  have hquoted : (packet.take (min packet.length (4 * headerWords packet + 8))).length ≤ 68 := by
    have hwords : headerWords packet < 16 := Nat.mod_lt _ (by decide)
    rw [List.length_take]
    omega
  have hshort := List.length_take_le' (min packet.length (4 * headerWords packet + 8)) packet
  have hverifies := ipChecksum_icmpMessage (UInt8.ofInt type) (UInt8.ofInt code) hquoted
  have hmessage := icmpMessage_eq (UInt8.ofInt type) (UInt8.ofInt code)
    (packet.take (min packet.length (4 * headerWords packet + 8)))
  generalize packet.take (min packet.length (4 * headerWords packet + 8)) = quoted at *
  generalize icmpMessage (UInt8.ofInt type) (UInt8.ofInt code) quoted = message at *
  have hlength : message.length = 8 + quoted.length := by
    simp [hmessage]
    omega
  obtain ⟨unwrapped, hunwrap, hfrom, hto, hpl⟩ := wrapMessageDown_shows contents' me toAddr message
    none (by simp only [sizeofWrappedUp, sizeofWrappedDown] at *; omega)
  exact ⟨_, unwrapped, message, _, hrun, addressed_allocateShmMessage none _, hunwrap, hfrom, hto,
    hpl, hmessage, hverifies⟩

/-- A packet of 24 bytes whose first byte announces a header of sixty. -/
theorem icmp_error_quotes_short : ∃ error unwrapped,
    runErrMessage (fun _ ↦ 0xbb) (sendIcmpError (fun _ ↦ 0xaa) 11 0
      (0x4f :: List.replicate 23 7) [10, 0, 0, 2] [10, 0, 0, 1]).data = some error ∧
    unwrapMessageDown error.data = some unwrapped ∧
    unwrapped.toArea.Shows error.data [10, 0, 0, 2] := by
  obtain ⟨error, unwrapped, -, -, hrun, -, hunwrap, -, hto, -⟩ :=
    icmp_error_quotes_packet (fun _ ↦ 0xaa) (fun _ ↦ 0xbb) 11 0
      (show 20 ≤ (0x4f :: List.replicate 23 (7 : UInt8)).length by decide)
      (show sizeofWrappedUp + [10, 0, 0, (1 : UInt8)].length + [10, 0, 0, (2 : UInt8)].length + 2 +
        (0x4f :: List.replicate 23 (7 : UInt8)).length < 2 ^ 32 by decide)
  exact ⟨error, unwrapped, hrun, hunwrap, hto⟩

end MyIPNG.Icmp
