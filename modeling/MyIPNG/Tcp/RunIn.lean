import MyIPNG.Base.Table
import MyIPNG.Tcp.Session

/-!
# `run_in`: segments from the IP server

`run_in` of `tcp_server.cpp`, from the lookup of the session on. The source is one long loop body
with jumps to the label `clean`. Its parts keep their order here: `ackPending` is the branch for an
acknowledgement on a known session, `deliverData` hands the payload to the application and
acknowledges it, `handleFin` consumes a FIN, `clean` resets and closes. `runInSession` is the body
for a segment whose session is in the map, `runInNew` the body for one whose session is not, and
`runIn` joins them over the map.
-/

set_option autoImplicit false
set_option relaxedAutoImplicit false

namespace MyIPNG.Tcp

open Base

/-- What a step of the server reads from its surroundings: the clock in microseconds (`get_us`) and
in seconds (`time`), and for each send that a segment can cause whether the queue takes it. -/
structure Environment where
  nowUs : UInt64
  nowSec : ℕ
  synAckOk : Bool
  clientAckOk : Bool
  cookieRstOk : Bool
  openOk : Bool
  dataOk : Bool
  ackOk : Bool
  finAckOk : Bool
  rstOk : Bool
  closeOk : Bool
deriving DecidableEq, Repr

/-- The header of a segment in answer to a segment: addresses and ports are swapped. -/
def replyHeader (segment : Segment) (seqNr ackNr : UInt32) (flags : UInt8) (windowSize : UInt16) :
    OutSegment where
  fromAddr := segment.toAddr
  toAddr := segment.fromAddr
  srcPort := segment.destinationPort
  dstPort := segment.sourcePort
  seqNr := seqNr
  ackNr := ackNr
  flags := flags
  windowSize := windowSize
  payload := []

/-- A message to the application about the session of a segment. -/
def l7Message (sessionId : UInt64) (segment : Segment) (flags : UInt32) (payload : List UInt8) :
    L7Message where
  sessionId := sessionId
  fromAddr := segment.fromAddr
  fromPort := segment.sourcePort
  toAddr := segment.toAddr
  toPort := segment.destinationPort
  flags := flags
  payload := payload

/-- `send_syn_cookie`. -/
def sendSynCookie (config : Config) (environment : Environment) (sessionId : UInt64)
    (segment : Segment) : List Output :=
  let synCookie := mySynCookie config sessionId segment.mssIndex environment.nowSec
  (sendTcpPacket (fun _ ↦ environment.synAckOk)
    (replyHeader segment synCookie (segment.peerSeqNr + 1) (flagSyn ||| flagAck)
      initialLocalWindowSize) minTcpMtu).1.map .toIp

/-! ### The parts of the loop body -/

/-- The branch for an acknowledgement on a known session: the session after it, and whether it
decides on a resend. -/
def ackPending (session : Session) (ackSeqNr : UInt32) : Session × Bool :=
  let ackN := ackSeqNr - session.localSeq
  let result : Session × Bool :=
    if session.localSeq ≤ ackSeqNr then
      if ackN.toNat = session.inFlight then
        ({ session with
            l7ToTcp := session.l7ToTcp.forget ackN.toNat
            localSeq := session.localSeq + ackN
            inFlight := session.inFlight - ackN.toNat }, false)
      else if ackN.toNat < session.inFlight then
        ({ session with
            l7ToTcp := session.l7ToTcp.forget ackN.toNat
            localSeq := session.localSeq + ackN }, true)
      else (session, false)
    else (session, true)
  if result.2 then ({ result.1 with inFlight := 0 }, true) else result

/-- What `deliverData` leaves: the session, the outputs, `acked_packet` and `clean_session`. -/
structure DataResult where
  session : Session
  outputs : List Output
  ackedPacket : Bool
  cleanSession : Bool
deriving DecidableEq, Repr

/-- An acknowledgement without data in answer to a segment, and the return value of the send. -/
def sendAck (accepted : Bool) (segment : Segment) (session : Session) (ackNr : UInt32) :
    List OutSegment × ℤ :=
  sendTcpPacket (fun _ ↦ accepted)
    (replyHeader segment session.localSeq ackNr flagAck session.localWindowSize) session.mss

/-- "send data to local shm peer". -/
def deliverData (environment : Environment) (sessionId : UInt64) (segment : Segment)
    (session : Session) : DataResult :=
  if segment.peerSeqNr = session.peerSeq then
    let message := l7Message sessionId segment
      (if session.halfClosed then miTcpFin else 0) segment.payload
    let ok := if 0 < segment.payload.length then environment.dataOk else true
    let handed := if 0 < segment.payload.length ∧ environment.dataOk then
      [Output.toL7 session.shmPeer message] else []
    if ok then
      if hasFlag segment.flags flagAck = false ∨ 0 < segment.payload.length then
        let plSize := UInt32.ofNat segment.payload.length
        let sent := sendAck environment.ackOk segment session (session.peerSeq + plSize)
        if sent.2 = 0 then
          ⟨{ session with peerSeq := session.peerSeq + plSize }, handed ++ sent.1.map .toIp, true,
            false⟩
        else ⟨session, handed ++ sent.1.map .toIp, false, true⟩
      else ⟨session, handed, false, false⟩
    else ⟨session, handed, false, false⟩
  else if segment.peerSeqNr < session.peerSeq then
    let sent := sendAck environment.ackOk segment session session.peerSeq
    ⟨session, sent.1.map .toIp, false, sent.2 = -1⟩
  else
    let sent := sendAck environment.ackOk segment session session.peerSeq
    ⟨session, sent.1.map .toIp, false, sent.2 = -1⟩

/-- The block for a segment with the FIN flag. -/
def handleFin (environment : Environment) (segment : Segment) (ackedPacket : Bool)
    (session : Session) : Session × List Output :=
  if hasFlag segment.flags flagFin then
    let session := if session.halfClosed = false then
      { session with peerSeq := session.peerSeq + 1, halfClosed := true } else session
    let outputs := if ackedPacket = false then
      (sendAck environment.finAckOk segment session
        (session.peerSeq + UInt32.ofNat segment.payload.length)).1.map Output.toIp else []
    (session, outputs)
  else (session, [])

/-- The code at the label `clean`. -/
def clean (environment : Environment) (sessionId : UInt64) (segment : Segment)
    (invalid invalidWRst invalidIncAck cleanSession : Bool) (session : Option Session) :
    Option Session × List Output :=
  if invalid || cleanSession then
    let reset := invalid && invalidWRst
    let seqNr := (session.map Session.localSeq).getD 0
    let ackNr := if session.isSome then
      segment.peerSeqNr + (if invalidIncAck then 1 else 0) else 0
    let rst := if reset then
      (sendTcpPacket (fun _ ↦ environment.rstOk)
        (replyHeader segment seqNr ackNr flagRst segment.windowSize) minTcpMtu).1.map Output.toIp
      else []
    match session with
    | none => (none, rst)
    | some session =>
      let session := if reset then { session with state := .closed } else session
      let session := if invalid then
        { session with
          tcpToL7 := session.tcpToL7.forgetAll
          l7ToTcp := session.l7ToTcp.forgetAll } else session
      let close := if environment.closeOk then
        [Output.toL7 session.shmPeer (l7Message sessionId segment miTcpClose [])] else []
      (some session, rst ++ close)
  else (session, [])

/-! ### The loop body -/

/-- What a segment does to its session: the session left in the map, if any, the outputs, and the
decision to resend. -/
structure InResult where
  session : Option Session
  outputs : List Output
  resend : Bool
deriving DecidableEq, Repr

/-- The part of the body behind the branches on the flags. -/
def processData (environment : Environment) (sessionId : UInt64) (segment : Segment)
    (invalid invalidIncAck resend : Bool) (session : Session) : InResult :=
  let data := if invalid = false then deliverData environment sessionId segment session
    else ⟨session, [], false, false⟩
  let fin := handleFin environment segment data.ackedPacket data.session
  let cleaned := clean environment sessionId segment invalid true invalidIncAck data.cleanSession
    (some fin.1)
  ⟨cleaned.1, data.outputs ++ fin.2 ++ cleaned.2, resend⟩

/-- The branch for a SYN on a known session. -/
def synKnown (config : Config) (environment : Environment) (sessionId : UInt64)
    (segment : Segment) (session : Session) : InResult :=
  if session.isClient then
    if hasFlag segment.flags flagAck = false then
      processData environment sessionId segment true true false session
    else
      let session := if session.state = .established then session
        else { session with
          state := .established
          startPeerSeq := segment.peerSeqNr
          peerSeq := segment.peerSeqNr }
      let session := { session with peerSeq := session.peerSeq + 1 }
      let sent := sendAck environment.clientAckOk segment session session.peerSeq
      if sent.2 = -1 then
        let cleaned := clean environment sessionId segment false true true true (some session)
        ⟨cleaned.1, sent.1.map .toIp ++ cleaned.2, false⟩
      else
        let rest := processData environment sessionId segment false true false session
        { rest with outputs := sent.1.map .toIp ++ rest.outputs }
  else if session.state ≠ .established then
    ⟨some session, sendSynCookie config environment sessionId segment, false⟩
  else if session.finSent = false ∨ session.halfClosed = false then ⟨some session, [], false⟩
  else ⟨none, [], false⟩

/-- The body of `run_in` for a segment whose session is in the map. -/
def runInSession (config : Config) (environment : Environment) (sessionId : UInt64)
    (segment : Segment) (session : Session) : InResult :=
  let session := { session with
    updatedTs := environment.nowUs
    peerWindowSize := segment.windowSize }
  if session.state = .closed then
    let cleaned := clean environment sessionId segment true true false false (some session)
    ⟨cleaned.1, cleaned.2, false⟩
  else if hasFlag segment.flags flagRst then
    let cleaned := clean environment sessionId segment true false false false
      (some { session with state := .closed })
    ⟨cleaned.1, cleaned.2, false⟩
  else if hasFlag segment.flags flagSyn then synKnown config environment sessionId segment session
  else if hasFlag segment.flags flagAck then
    let acked := ackPending session segment.ackSeqNr
    processData environment sessionId segment false false acked.2 acked.1
  else if hasFlag segment.flags flagFin = false then ⟨some session, [], false⟩
  else processData environment sessionId segment false false false session

/-- The session that the acknowledgement of a SYN cookie creates. -/
def newSession (segment : Segment) (shmPeer : List UInt8) : Session where
  updatedTs := 0
  isClient := false
  shmPeer := shmPeer
  state := .established
  startLocalSeq := 0
  startPeerSeq := 0
  mss := mssRanges (Fin.ofNat 8 ((segment.ackSeqNr - 1) &&& 7).toNat)
  localSeq := segment.ackSeqNr
  peerSeq := segment.peerSeqNr
  localWindowSize := initialLocalWindowSize
  peerWindowSize := 0
  localAddr := segment.toAddr
  localPort := segment.destinationPort
  peerAddr := segment.fromAddr
  peerPort := segment.sourcePort
  halfClosed := false
  tcpToL7 := ⟨0, []⟩
  l7ToTcp := ⟨0, []⟩
  l7SendFin := false
  finSent := false
  inFlight := 0

/-- The branch for an acknowledgement that may complete a handshake. -/
def ackUnknown (config : Config) (environment : Environment) (sessionId : UInt64)
    (segment : Segment) : InResult :=
  let seqBeforeSyn := segment.ackSeqNr - 1
  let mssIndex : Fin 8 := Fin.ofNat 8 (seqBeforeSyn &&& 7).toNat
  let synCookie := mySynCookie config sessionId mssIndex environment.nowSec
  if synCookie ≠ seqBeforeSyn then
    ⟨none, (sendTcpPacket (fun _ ↦ environment.cookieRstOk)
      (replyHeader segment (synCookie + 1) segment.peerSeqNr flagRst segment.windowSize)
      minTcpMtu).1.map .toIp, false⟩
  else
    match config.mappingsIn segment.destinationPort with
    | none => ⟨none, [], false⟩
    | some shmPeer =>
      if environment.openOk then
        let rest := processData environment sessionId segment false false false
          (newSession segment shmPeer)
        { rest with
          outputs := .toL7 shmPeer (l7Message sessionId segment miTcpOpen []) :: rest.outputs }
      else
        let cleaned := clean environment sessionId segment true true false true none
        ⟨cleaned.1, cleaned.2, false⟩

/-- The body of `run_in` for a segment whose session is not in the map. -/
def runInNew (config : Config) (environment : Environment) (sessionId : UInt64)
    (segment : Segment) : InResult :=
  if hasFlag segment.flags flagRst then
    let cleaned := clean environment sessionId segment true false false false none
    ⟨cleaned.1, cleaned.2, false⟩
  else if hasFlag segment.flags flagSyn then
    if config.mappingsIn segment.destinationPort = none ∨
        hasFlag segment.flags (flagFin ||| flagRst ||| flagPsh ||| flagUrg ||| flagAck) then
      let invalidWRst := !hasFlag segment.flags flagRst
      let cleaned := clean environment sessionId segment true invalidWRst true false none
      ⟨cleaned.1, cleaned.2, false⟩
    else ⟨none, sendSynCookie config environment sessionId segment, false⟩
  else if hasFlag segment.flags flagAck then
    if hasFlag segment.flags flagFin = false then ackUnknown config environment sessionId segment
    else ⟨none, [], false⟩
  else ⟨none, [], false⟩

/-- The sessions of the server, ordered by their ids. -/
abbrev Sessions := Std.ExtTreeMap UInt64 Session

/-- The loop body of `run_in`. The addresses of a segment are those of an IPv4 packet, of four
bytes, so that the assertions of `calc_session_id` hold. -/
def runIn (config : Config) (environment : Environment) (segment : Segment) (sessions : Sessions) :
    Sessions × List Output :=
  let sessionId := sessionIdOf segment.sourcePort segment.destinationPort
    segment.fromAddr segment.toAddr
  match sessions[sessionId]? with
  | some session =>
    let result := runInSession config environment sessionId segment session
    match result.session with
    | some session => (sessions.insert sessionId session, result.outputs)
    | none => (sessions.erase sessionId, result.outputs)
  | none =>
    let result := runInNew config environment sessionId segment
    match result.session with
    | some session => (sessions.insertIfNew sessionId session, result.outputs)
    | none => (sessions, result.outputs)

/-! ### What the loop body does to each session -/

/-- The id of the session that a segment belongs to. -/
def segmentId (segment : Segment) : UInt64 :=
  sessionIdOf segment.sourcePort segment.destinationPort segment.fromAddr segment.toAddr

section Lookup

variable (config : Config) (environment : Environment) (segment : Segment) {sessions : Sessions}

/-- A segment whose session is in the map. -/
theorem runIn_known {session : Session} (h : sessions[segmentId segment]? = some session) :
    let result := runInSession config environment (segmentId segment) segment session
    (runIn config environment segment sessions).1[segmentId segment]? = result.session ∧
      (runIn config environment segment sessions).2 = result.outputs := by
  intro result
  unfold runIn
  rw [← segmentId]
  simp only [h]
  cases (runInSession config environment (segmentId segment) segment session).session with
  | some next => exact ⟨Std.ExtTreeMap.getElem?_insert_self, rfl⟩
  | none => exact ⟨Std.ExtTreeMap.getElem?_erase_self, rfl⟩

/-- A segment whose session is not in the map. -/
theorem runIn_unknown (h : sessions[segmentId segment]? = none) :
    let result := runInNew config environment (segmentId segment) segment
    (runIn config environment segment sessions).1[segmentId segment]? = result.session ∧
      (runIn config environment segment sessions).2 = result.outputs := by
  intro result
  unfold runIn
  rw [← segmentId]
  simp only [h]
  cases (runInNew config environment (segmentId segment) segment).session with
  | some next => exact ⟨getElem?_insertIfNew_of_none h next, rfl⟩
  | none => exact ⟨h, rfl⟩

/-- A segment leaves the sessions of other connections alone. -/
theorem runIn_other {sessionId : UInt64} (hne : sessionId ≠ segmentId segment)
    (sessions : Sessions) :
    (runIn config environment segment sessions).1[sessionId]? = sessions[sessionId]? := by
  unfold runIn
  rw [← segmentId]
  cases hentry : sessions[segmentId segment]? with
  | some session =>
    simp only [hentry]
    cases (runInSession config environment (segmentId segment) segment session).session with
    | some next => exact getElem?_insert_other hne.symm next
    | none => exact getElem?_erase_other hne.symm
  | none =>
    simp only [hentry]
    cases (runInNew config environment (segmentId segment) segment).session with
    | some next => exact getElem?_insertIfNew_other hne.symm next
    | none => rfl

end Lookup

end MyIPNG.Tcp
