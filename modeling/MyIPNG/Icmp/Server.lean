import MyIPNG.Base.Bytes
import MyIPNG.Utils.Checksum

/-!
# The ICMP server

The two loop bodies of `icmp_server.cpp`. `run_in` answers an echo request: the request comes back
with the type and the code at zero and a new checksum. `run_err` makes an ICMP error from a message
of another server, whose payload is the type and the code and whose full packet is the one that
caused it; the error carries the header of that packet and eight bytes more.

`run_err` takes the length of the header from the third byte of the payload. In the message the full
packet stands behind the payload, so behind a payload of two bytes that is the first byte of the
packet.

What either of them sends has a checksum that verifies (`ipChecksum_echoReply`,
`ipChecksum_icmpMessage`).
-/

set_option autoImplicit false
set_option relaxedAutoImplicit false

namespace MyIPNG.Icmp

open Base Utils

/-! ### The code -/

/-- What `unwrap_message_up` gives of a message. -/
structure InMessage where
  fullPkt : List UInt8
  fromAddr : List UInt8
  toAddr : List UInt8
  pl : List UInt8
deriving DecidableEq, Repr

/-- What `wrap_message_down` makes for the IP server. -/
structure OutMessage where
  fromAddr : List UInt8
  toAddr : List UInt8
  pl : List UInt8
deriving DecidableEq, Repr

/-- `reply` with a given checksum: the request with type and code at zero. -/
def echoReplyWith (pl : List UInt8) (checksum : UInt16) : List UInt8 :=
  overwrite pl 0 [0, 0, (checksum >>> 8).toUInt8, checksum.toUInt8]

/-- `reply`. -/
def echoReply (pl : List UInt8) : List UInt8 :=
  echoReplyWith pl (ipChecksum (echoReplyWith pl 0))

/-- The loop body of `run_in`: what is sent to the IP server. -/
def runIn (m : InMessage) : Option OutMessage :=
  if m.pl.length < 8 then none
  else if ipChecksum m.pl ≠ 0 then none
  else if m.pl.getD 0 0 = 8 ∧ m.pl.getD 1 0 = 0 then
    some ⟨m.toAddr, m.fromAddr, echoReply m.pl⟩
  else none

/-- `m_out` of `run_err` with a given checksum, for the bytes copied from the packet. -/
def icmpMessageWith (type code : UInt8) (copied : List UInt8) (checksum : UInt16) : List UInt8 :=
  [type, code] ++ [(checksum >>> 8).toUInt8, checksum.toUInt8] ++ ([0, 0, 0, 0] ++ copied)

/-- `m_out` of `run_err`. -/
def icmpMessage (type code : UInt8) (copied : List UInt8) : List UInt8 :=
  icmpMessageWith type code copied (ipChecksum (icmpMessageWith type code copied 0))

/-- `copy_n` bytes of the full packet. The byte behind the type and the code is read from what
follows them in the message. -/
def copiedBytes (m : InMessage) : List UInt8 :=
  let ipHeaderSize := ((m.pl ++ m.fullPkt).getD 2 0 &&& 15).toNat * 4
  m.fullPkt.take (min m.fullPkt.length (ipHeaderSize + 64 / 8))

/-- The loop body of `run_err`: what is sent to the IP server. -/
def runErr (m : InMessage) : Option OutMessage :=
  if m.fullPkt.length < 20 then none
  else
    some ⟨m.fromAddr, m.toAddr,
      icmpMessage ((m.pl ++ m.fullPkt).getD 0 0) ((m.pl ++ m.fullPkt).getD 1 0) (copiedBytes m)⟩

/-! ### The checksums -/

/-- The reply to a request verifies. Assumes: a request of at least four and at most `131000`
bytes. -/
theorem ipChecksum_echoReply {pl : List UInt8} (hlong : 4 ≤ pl.length)
    (hshort : pl.length ≤ 131000) : ipChecksum (echoReply pl) = 0 := by
  have hsplit : ∀ checksum, echoReplyWith pl checksum =
      [(0 : UInt8), 0] ++ [(checksum >>> 8).toUInt8, checksum.toUInt8] ++ pl.drop 4 :=
    fun checksum ↦ rfl
  have hlength : ([(0 : UInt8), 0] ++ [0, 0] ++ pl.drop 4).length ≤ 131000 := by
    simp only [List.length_append, List.length_cons, List.length_nil, List.length_drop]
    omega
  have hsum := wordSum_add_lt hlength
  rw [echoReply, hsplit (ipChecksum _)]
  exact ipChecksum_insert [0, 0] (pl.drop 4) rfl (by omega)

/-- What is copied of a packet is never longer than the longest header and eight bytes. -/
theorem length_copiedBytes_le (m : InMessage) : (copiedBytes m).length ≤ 68 := by
  have hbits : ((m.pl ++ m.fullPkt).getD 2 0 &&& 15).toNat ≤ 15 := by
    rw [UInt8.toNat_and]
    exact Nat.and_le_right
  simp only [copiedBytes, List.length_take]
  omega

/-- An error message verifies. Assumes: at most `68` bytes of a packet. -/
theorem ipChecksum_icmpMessage (type code : UInt8) {copied : List UInt8}
    (hshort : copied.length ≤ 68) : ipChecksum (icmpMessage type code copied) = 0 := by
  have hlength : ([type, code] ++ [0, 0] ++ ([0, 0, 0, 0] ++ copied)).length ≤ 131000 := by
    simp only [List.length_append, List.length_cons, List.length_nil]
    omega
  have hsum := wordSum_add_lt hlength
  exact ipChecksum_insert [type, code] ([0, 0, 0, 0] ++ copied) (by simp) (by omega)

/-- What `run_in` sends verifies. Assumes: a request of at most `131000` bytes. -/
theorem ipChecksum_runIn {m : InMessage} {reply : OutMessage} (hshort : m.pl.length ≤ 131000)
    (h : runIn m = some reply) : ipChecksum reply.pl = 0 := by
  unfold runIn at h
  split_ifs at h with hlong hverifies hecho
  rw [← Option.some.inj h]
  exact ipChecksum_echoReply (by omega) hshort

/-- What `run_err` sends verifies. -/
theorem ipChecksum_runErr {m : InMessage} {error : OutMessage} (h : runErr m = some error) :
    ipChecksum error.pl = 0 := by
  unfold runErr at h
  split_ifs at h with hlong
  rw [← Option.some.inj h]
  exact ipChecksum_icmpMessage _ _ (length_copiedBytes_le m)

end MyIPNG.Icmp
