import MyIPNG.Tcp.RunIn

/-!
# `run_out`: data from the applications, and the life of one session

`run_out` of `tcp_server.cpp` has two threads. One appends what an application writes to the buffer
of its session (`runOut`), the other goes over the sessions and sends from the buffers
(`senderPass`). A pass visits the sessions in the order of their ids and stops at a send that
reports `-1`.

`sessionStep` is one session under everything that can reach it: a segment, a write of the
application, a visit of the sender. A session that a segment removes from the map is gone. A run
of a session is a run of the machine `traced sessionStep`, whose outputs pair every event with
what the session put out; the definitions at the end read histories off such a trace.
-/

set_option autoImplicit false
set_option relaxedAutoImplicit false

namespace MyIPNG.Tcp

open Base

/-! ### The two threads -/

/-- What an application's message does to its session. -/
def addFromL7 (session : Session) (flags : UInt32) (what : List UInt8) : Session :=
  let session := if what ≠ [] then { session with l7ToTcp := session.l7ToTcp.add what }
    else session
  if flags &&& 1 ≠ 0 then { session with l7SendFin := true } else session

/-- The loop body of `run_out` for a message of an application: eight bytes of session id, four
bytes of flags, data. -/
def runOut (message : List UInt8) (sessions : Sessions) : Sessions :=
  if message.length < 12 then sessions
  else
    let sessionId := UInt64.ofNat (leValue (slice message 0 8))
    let flags := UInt32.ofNat (leValue (slice message 8 4))
    match sessions[sessionId]? with
    | some session => sessions.insert sessionId (addFromL7 session flags (message.drop 12))
    | none => sessions

/-- The id that a message of an application names, and its flags. -/
def messageId (message : List UInt8) : UInt64 := UInt64.ofNat (leValue (slice message 0 8))

@[inherit_doc messageId]
def messageFlags (message : List UInt8) : UInt32 := UInt32.ofNat (leValue (slice message 8 4))

/-- What a message does to the entry of an id: it writes to the session that it names. -/
theorem getElem?_runOut (message : List UInt8) (sessions : Sessions) (sessionId : UInt64) :
    (runOut message sessions)[sessionId]? = sessions[sessionId]? ∨
      ∃ session, (12 ≤ message.length ∧ messageId message = sessionId) ∧
        sessions[sessionId]? = some session ∧ (runOut message sessions)[sessionId]? =
          some (addFromL7 session (messageFlags message) (message.drop 12)) := by
  unfold runOut
  split_ifs with hshort
  · exact Or.inl rfl
  · dsimp only
    rw [← messageId, ← messageFlags]
    cases hentry : sessions[messageId message]? with
    | none => exact Or.inl rfl
    | some session =>
      by_cases hid : messageId message = sessionId
      · subst hid
        exact Or.inr ⟨session, ⟨Nat.le_of_not_lt hshort, rfl⟩, hentry,
          Std.ExtTreeMap.getElem?_insert_self⟩
      · exact Or.inl (getElem?_insert_other hid _)

/-- What a visit of the sender leaves: the session, the outputs, and whether the pass is over. -/
structure VisitResult where
  session : Session
  outputs : List Output
  passOver : Bool
deriving DecidableEq, Repr

/-- The header of the segment that the sender sends for a session. -/
def senderHeader (session : Session) (payload : List UInt8) (sendFin : Bool) : OutSegment where
  fromAddr := session.localAddr
  toAddr := session.peerAddr
  srcPort := session.localPort
  dstPort := session.peerPort
  seqNr := session.localSeq
  ackNr := session.peerSeq
  flags := (if sendFin then flagFin else 0) ||| flagAck ||| flagPsh
  windowSize := session.localWindowSize
  payload := payload

/-- The body of the sender's loop over the sessions. -/
def senderVisit (accepts : ℕ → Bool) (session : Session) : VisitResult :=
  if session.inFlight ≠ 0 ∨ session.finSent = true then ⟨session, [], false⟩
  else
    let useN := min 65536 session.mss.value
    let got := session.l7ToTcp.peek useN
    let sendFin := if got.2 then session.l7SendFin else false
    if 0 < got.1.length ∨ sendFin then
      let sent := sendTcpPacket accepts (senderHeader session got.1 sendFin) session.mss
      if sent.2 = -1 then ⟨session, sent.1.map .toIp, true⟩
      else
        let setFinFlag := if sent.2 = got.1.length then sendFin else false
        let session := if setFinFlag ∧ session.finSent = false then
          { session with localSeq := session.localSeq + 1, finSent := true } else session
        ⟨{ session with inFlight := sent.2.toNat }, sent.1.map .toIp, false⟩
    else ⟨session, [], false⟩

/-- The sender's loop over the remaining sessions of a pass. -/
def senderLoop (accepts : UInt64 → ℕ → Bool) :
    List (UInt64 × Session) → Sessions → Sessions × List Output
  | [], sessions => (sessions, [])
  | (sessionId, session) :: rest, sessions =>
    let visit := senderVisit (accepts sessionId) session
    let sessions := sessions.insert sessionId visit.session
    if visit.passOver then (sessions, visit.outputs)
    else
      let final := senderLoop accepts rest sessions
      (final.1, visit.outputs ++ final.2)

/-- One pass of the sender. -/
def senderPass (accepts : UInt64 → ℕ → Bool) (sessions : Sessions) : Sessions × List Output :=
  senderLoop accepts sessions.toList sessions

/-! ### One session -/

/-- What can reach a session. -/
inductive SessionEvent
  | segment (environment : Environment) (segment : Segment)
  | write (flags : UInt32) (what : List UInt8)
  | visit (accepts : ℕ → Bool)

/-- One event of a session. -/
def sessionStep (config : Config) (sessionId : UInt64) :
    Option Session → SessionEvent → Option Session × List Output
  | none, _ => (none, [])
  | some session, .segment environment segment =>
    let result := runInSession config environment sessionId segment session
    (result.session, result.outputs)
  | some session, .write flags what => (some (addFromL7 session flags what), [])
  | some session, .visit accepts =>
    let result := senderVisit accepts session
    (some result.session, result.outputs)

/-- A history of a session: its events, each with the outputs that it caused. -/
abbrev Trace := List (SessionEvent × List Output)

/-- The segments that were put out. -/
def emitted (outputs : List Output) : List OutSegment :=
  outputs.filterMap fun
    | .toIp segment => some segment
    | .toL7 _ _ => none

/-- The payloads that were handed to the application. -/
def handedPayloads (outputs : List Output) : List (List UInt8) :=
  outputs.filterMap fun
    | .toIp _ => none
    | .toL7 _ message => if message.payload = [] then none else some message.payload

/-- The segments put out over a history. -/
def emittedIn (trace : Trace) : List OutSegment := trace.flatMap fun entry ↦ emitted entry.2

/-- The acknowledgement numbers put out over a history. -/
def acksIn (trace : Trace) : List UInt32 :=
  ((emittedIn trace).filter fun segment ↦ hasFlag segment.flags flagAck).map OutSegment.ackNr

/-- The payloads handed to the application over a history, each with the sequence number of the
segment that brought it. -/
def handedIn (trace : Trace) : List (UInt32 × List UInt8) :=
  trace.flatMap fun entry ↦ match entry.1 with
    | .segment _ segment => (handedPayloads entry.2).map fun payload ↦ (segment.peerSeqNr, payload)
    | _ => []

/-- What the application wrote over a history. -/
def writtenIn (trace : Trace) : List UInt8 :=
  trace.flatMap fun entry ↦ match entry.1 with
    | .write _ what => what
    | _ => []

/-- The acknowledgement numbers received over a history. -/
def acksReceivedIn (trace : Trace) : List UInt32 :=
  trace.filterMap fun entry ↦ match entry.1 with
    | .segment _ segment =>
      if hasFlag segment.flags flagAck then some segment.ackSeqNr else none
    | _ => none

end MyIPNG.Tcp
