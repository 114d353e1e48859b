import MyIPNG.Base.Bytes
import MyIPNG.Base.Runs
import MyIPNG.Base.SequenceSpace
import MyIPNG.Utils.SipHash

/-!
# Sessions, segments and the packet sender of the TCP server

`tcp_server.cpp`, the parts that the threads of the server share: the flag bits, the buffer
`tcp_data`, the record `session_t`, the SYN cookie and `send_tcp_packet`. Sequence numbers are
`UInt32` as in the source. A send to another server of the stack is non-blocking and may be
refused; the outcome of each send is an input of the step that makes it, and only accepted
segments and messages are outputs.
-/

set_option autoImplicit false
set_option relaxedAutoImplicit false

namespace MyIPNG.Tcp

open Base Utils

/-! ### Flags, states and segments -/

/-- `FLAG_URG`, `FLAG_ACK`, `FLAG_PSH`, `FLAG_RST`, `FLAG_SYN` and `FLAG_FIN`. -/
def flagUrg : UInt8 := 32

@[inherit_doc flagUrg]
def flagAck : UInt8 := 16

@[inherit_doc flagUrg]
def flagPsh : UInt8 := 8

@[inherit_doc flagUrg]
def flagRst : UInt8 := 4

@[inherit_doc flagUrg]
def flagSyn : UInt8 := 2

@[inherit_doc flagUrg]
def flagFin : UInt8 := 1

/-- The test `flags & flag`. -/
def hasFlag (flags flag : UInt8) : Bool := flags &&& flag != 0

/-- `INITIAL_LOCAL_WINDOW_SIZE`. -/
def initialLocalWindowSize : UInt16 := 32768

/-- `tcp_state_t`. -/
inductive TcpState
  | listen
  | synSent
  | synReceived
  | established
  | finWait1
  | finWait2
  | closeWait
  | closing
  | lastAck
  | timeWait
  | closed
deriving DecidableEq, Repr

/-- A maximum segment size. The source keeps it in a `uint16_t` that is only ever set from
`mss_ranges` and from `MI_IP4_MIN_TCP_MTU`, so it is never zero. -/
structure Mss where
  value : ℕ
  positive : 0 < value
deriving DecidableEq, Repr

/-- `MI_IP4_MIN_TCP_MTU`. -/
def minTcpMtu : Mss := ⟨536, by decide⟩

/-- The table of segment sizes has entries. -/
instance neZeroEight : NeZero 8 := ⟨by decide⟩

/-- `mss_ranges`. -/
def mssRanges : Fin 8 → Mss
  | 0 => ⟨216, by decide⟩
  | 1 => ⟨536, by decide⟩
  | 2 => ⟨984, by decide⟩
  | 3 => ⟨1400, by decide⟩
  | 4 => ⟨1436, by decide⟩
  | 5 => ⟨1452, by decide⟩
  | 6 => ⟨1460, by decide⟩
  | 7 => ⟨1500, by decide⟩

/-- A segment as `run_in` has decoded it. `mssIndex` is what the walk over the options leaves in
`mss_index`; the payload size is an `int` in the source. -/
structure Segment where
  fromAddr : List UInt8
  toAddr : List UInt8
  sourcePort : UInt16
  destinationPort : UInt16
  peerSeqNr : UInt32
  ackSeqNr : UInt32
  flags : UInt8
  windowSize : UInt16
  mssIndex : Fin 8
  payload : List UInt8
  payload_lt : payload.length < 2 ^ 31
deriving DecidableEq, Repr

/-- A segment without data. -/
theorem length_nil_lt : ([] : List UInt8).length < 2 ^ 31 := by decide

/-- A segment that `send_tcp_packet` hands to the IP server. -/
structure OutSegment where
  fromAddr : List UInt8
  toAddr : List UInt8
  srcPort : UInt16
  dstPort : UInt16
  seqNr : UInt32
  ackNr : UInt32
  flags : UInt8
  windowSize : UInt16
  payload : List UInt8
deriving DecidableEq, Repr

/-- A message that `wrap_message_up_tcp` makes for an application. -/
structure L7Message where
  sessionId : UInt64
  fromAddr : List UInt8
  fromPort : UInt16
  toAddr : List UInt8
  toPort : UInt16
  flags : UInt32
  payload : List UInt8
deriving DecidableEq, Repr

/-- `MI_TCP_FIN`, `MI_TCP_OPEN` and `MI_TCP_CLOSE`. -/
def miTcpFin : UInt32 := 1

@[inherit_doc miTcpFin]
def miTcpOpen : UInt32 := 2

@[inherit_doc miTcpFin]
def miTcpClose : UInt32 := 4

/-- What the server puts in the queue of another server: a segment for the IP server, or a message
for the application with the given queue name. -/
inductive Output
  | toIp (segment : OutSegment)
  | toL7 (peer : List UInt8) (message : L7Message)
deriving DecidableEq, Repr

/-! ### `tcp_data` and `session_t` -/

/-- `tcp_data`: the bytes `p[0..len)` and the running number that `forget` keeps. -/
structure TcpData where
  tcpSequenceNr : UInt32
  data : List UInt8
deriving DecidableEq, Repr

/-- `tcp_data::peek`: the bytes that were got, and whether they are all there are. -/
def TcpData.peek (buffer : TcpData) (maxNBytes : ℕ) : List UInt8 × Bool :=
  let getN := min buffer.data.length maxNBytes
  (buffer.data.take getN, buffer.data.length == getN)

/-- `tcp_data::forget`. -/
def TcpData.forget (buffer : TcpData) (nBytesIn : ℕ) : TcpData :=
  let nBytes := min nBytesIn buffer.data.length
  ⟨buffer.tcpSequenceNr + UInt32.ofNat nBytes, buffer.data.drop nBytes⟩

/-- `tcp_data::forget_all`. -/
def TcpData.forgetAll (_buffer : TcpData) : TcpData := ⟨0, []⟩

/-- `tcp_data::add`. -/
def TcpData.add (buffer : TcpData) (what : List UInt8) : TcpData :=
  ⟨buffer.tcpSequenceNr, buffer.data ++ what⟩

/-- `session_t`. -/
structure Session where
  updatedTs : UInt64
  isClient : Bool
  shmPeer : List UInt8
  state : TcpState
  startLocalSeq : UInt32
  startPeerSeq : UInt32
  mss : Mss
  localSeq : UInt32
  peerSeq : UInt32
  localWindowSize : UInt16
  peerWindowSize : UInt16
  localAddr : List UInt8
  localPort : UInt16
  peerAddr : List UInt8
  peerPort : UInt16
  halfClosed : Bool
  tcpToL7 : TcpData
  l7ToTcp : TcpData
  l7SendFin : Bool
  finSent : Bool
  inFlight : ℕ
deriving DecidableEq, Repr

/-! ### `send_tcp_packet` -/

/-- The loop of `send_tcp_packet`: one segment of at most `mss` bytes for each turn, the first turn
also for an empty payload. `accepts` tells which of the sends the IP queue takes. The number of
bytes is counted before the send, and it is what a refused send returns when it is not zero. -/
def sendTcpLoop (accepts : ℕ → Bool) (header : OutSegment) (mss : Mss) (index : ℕ)
    (payload : List UInt8) (localSeq : UInt32) (nSent : ℕ) : List OutSegment × ℤ :=
  let useN := min payload.length mss.value
  let segment := { header with seqNr := localSeq, payload := payload.take useN }
  let left := payload.drop useN
  let nSent := nSent + useN
  if accepts index = false then ([], if 0 < nSent then nSent else -1)
  else if 0 < left.length then
    let rest := sendTcpLoop accepts header mss (index + 1) left (localSeq + UInt32.ofNat useN) nSent
    (segment :: rest.1, rest.2)
  else ([segment], nSent)
termination_by payload.length
decreasing_by
  have hmss := mss.positive
  simp only [left, useN, List.length_drop] at *
  omega

/-- `send_tcp_packet`: the segments that the IP queue took and the return value. The header gives
the addresses, ports, acknowledgement number, flags and window. -/
def sendTcpPacket (accepts : ℕ → Bool) (header : OutSegment) (mss : Mss) :
    List OutSegment × ℤ :=
  sendTcpLoop accepts header mss 0 header.payload header.seqNr 0

/-- A payload that fits in one segment is one send. A refused send of a payload reports the length
of the payload. -/
theorem sendTcpPacket_single (accepts : ℕ → Bool) (header : OutSegment) (mss : Mss)
    (h : header.payload.length ≤ mss.value) :
    sendTcpPacket accepts header mss =
      if accepts 0 then ([header], (header.payload.length : ℤ))
      else ([], if header.payload = [] then -1 else (header.payload.length : ℤ)) := by
  have huse : min header.payload.length mss.value = header.payload.length := min_eq_left h
  have hsegment : { header with
      seqNr := header.seqNr, payload := header.payload.take header.payload.length } = header := by
    rw [List.take_length]
  rw [sendTcpPacket, sendTcpLoop]
  simp only [huse, Nat.zero_add, hsegment, List.drop_length, List.length_nil, Nat.lt_irrefl,
    if_false]
  cases accepts 0 with
  | true => simp
  | false =>
    by_cases hempty : header.payload = []
    · simp [hempty]
    · have hpos : 0 < header.payload.length := List.length_pos_iff.mpr hempty
      simp [hempty, hpos]

/-- An empty payload is one send, which reports zero when the queue took it and `-1` when not. -/
theorem sendTcpPacket_empty (accepts : ℕ → Bool) (header : OutSegment) (mss : Mss)
    (h : header.payload = []) :
    sendTcpPacket accepts header mss =
      if accepts 0 then ([header], 0) else ([], -1) := by
  rw [sendTcpPacket_single accepts header mss (by simp [h])]
  simp [h]

/-! ### Session ids and SYN cookies -/

/-- What the server is configured with: the queue names of the ports and the salt of the SYN
cookies. -/
structure Config where
  mappingsIn : UInt16 → Option (List UInt8)
  synCookieSalt : List UInt8

/-- `session_id_salt`: fifteen bytes are given, the sixteenth is zero. -/
def sessionIdSalt : List UInt8 := [1, 2, 3, 4, 5, 6, 8, 9, 10, 11, 12, 13, 14, 15, 16, 0]

/-- The number that `calc_session_id` makes of two ports and two addresses. -/
def sessionIdOf (srcPort dstPort : UInt16) (fromAddr toAddr : List UInt8) : UInt64 :=
  let buffer := leBytes 2 srcPort.toNat ++ leBytes 2 dstPort.toNat ++ fromAddr ++ toAddr
  let sipOut := siphash buffer sessionIdSalt
  (sipOut.1.toUInt64 <<< 32) ||| sipOut.2.toUInt64

/-- `calc_session_id`. It copies the addresses with `addr::get`, which asserts that an address has
a byte; nothing when that fails. -/
def calcSessionId (srcPort dstPort : UInt16) (fromAddr toAddr : List UInt8) : Option UInt64 :=
  if fromAddr.length = 0 ∨ toAddr.length = 0 then none
  else some (sessionIdOf srcPort dstPort fromAddr toAddr)

theorem calcSessionId_eq_some {srcPort dstPort : UInt16} {fromAddr toAddr : List UInt8}
    {sessionId : UInt64} (h : calcSessionId srcPort dstPort fromAddr toAddr = some sessionId) :
    sessionId = sessionIdOf srcPort dstPort fromAddr toAddr := by
  unfold calcSessionId at h
  split_ifs at h with hempty
  exact (Option.some.inj h).symm

/-- `my_syn_cookie` at the time `now`, in seconds. -/
def mySynCookie (config : Config) (sessionId : UInt64) (mssIndex : Fin 8) (now : ℕ) : UInt32 :=
  let t := UInt32.ofNat (now / 64 % 32)
  let sipOut := siphash (leBytes 8 sessionId.toNat ++ [t.toUInt8]) config.synCookieSalt
  ((sipOut.1 ^^^ sipOut.2) &&& (0xFFFFFF00 : UInt32)) ||| (t <<< 3) |||
    UInt32.ofNat mssIndex.val

end MyIPNG.Tcp
