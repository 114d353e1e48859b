import MyIPNG.Tcp.Server
import MyIPNG.Utils.Address

/-!
# `run_meta`, `run_clean` and all threads of the server

`run_meta` of `tcp_server.cpp` takes requests to open and to close a session, `run_clean` removes
the sessions that are over. Both work in several steps between which the other threads run: an open
queues the SYN, then queues the reply with the id of the session, and then puts the session in the
map; a close takes the session out of the map and then sends the FIN; `run_clean` reads the clock,
collects ids and deletes the sessions with these ids. `threadStep` is the server with all of its
threads, one step of one thread at a time.

What a request finds outside of the server is part of the event: the memory and the random numbers
that it takes. An exception that no one catches, an assertion that fails, a write behind the end of
`shm_peer`, a read behind the end of an address and one through the end of `local_allocated_ports`
end the run of the server.
-/

set_option autoImplicit false
set_option relaxedAutoImplicit false

namespace MyIPNG.Tcp

open Base Utils

/-! ### Requests -/

/-- A message for `run_meta`. -/
structure MetaMessage where
  sender : List UInt8
  msgNr : UInt64
  data : List UInt8
deriving DecidableEq, Repr

/-- The action of a request. -/
inductive Action
  | open
  | close
deriving DecidableEq, Repr

/-- What the lines of a request set. -/
structure MetaRequest where
  action : Action
  sessionId : Option UInt64
  dstAddr : Option (List UInt8)
  dstPort : Option UInt16
  shmDataAddress : Option (List UInt8)
deriving DecidableEq, Repr

/-- A request before its first line. -/
def MetaRequest.initial : MetaRequest := ⟨.close, none, none, none, none⟩

/-- What the lines of a message give: a request, nothing that is carried out, or an exception. -/
inductive Parsed
  | request (request : MetaRequest)
  | invalid
  | throws
deriving DecidableEq, Repr

/-- `my_stoi_hex` and `my_stoi_dec`: only `std::invalid_argument` is caught, so nothing when
`std::out_of_range` leaves them. -/
def myStoi (base : ℕ) (text : List UInt8) : Option (Option ℤ) :=
  match stoi base text with
  | .value number => some (some number)
  | .invalidArgument => some none
  | .outOfRange => none

/-- One line of a message. The number of `session-id` is an `int` that becomes a `uint64_t`, that of
`dst-port` one that becomes a `uint16_t`. -/
def parseLine (freshBytes : ℕ → UInt8) (line : List UInt8) (request : MetaRequest) : Parsed :=
  match split line ⟨ascii "=", ascii_equals_nonempty⟩ with
  | [key, value] =>
    if key = ascii "action" then
      if value = ascii "open" then .request { request with action := .open }
      else if value = ascii "close" then .request { request with action := .close }
      else .invalid
    else if key = ascii "session-id" then
      match myStoi 16 value with
      | some number => .request { request with sessionId := number.map UInt64.ofInt }
      | none => .throws
    else if key = ascii "dst-port" then
      match myStoi 10 value with
      | some number => .request { request with dstPort := number.map UInt16.ofInt }
      | none => .throws
    else if key = ascii "dst-addr-ip4" then
      match addrOfText freshBytes value ⟨ascii ".", ascii_dot_nonempty⟩ false with
      | some dstAddr => .request { request with dstAddr := some dstAddr }
      | none => .throws
    else if key = ascii "shm-data-address" then
      .request { request with shmDataAddress := some value }
    else .invalid
  | _ => .invalid

/-- The loop over the lines. -/
def parseLines (freshBytes : ℕ → UInt8) : List (List UInt8) → MetaRequest → Parsed
  | [], request => .request request
  | line :: rest, request =>
    match parseLine freshBytes line request with
    | .request next => parseLines freshBytes rest next
    | .invalid => .invalid
    | .throws => .throws

/-- The request of a message. -/
def parseMeta (freshBytes : ℕ → UInt8) (data : List UInt8) : Parsed :=
  let lines := split data ⟨ascii "\n", by decide⟩
  if lines.length < 2 then .invalid else parseLines freshBytes lines .initial

/-- The reply to an open, `session-id={0:x}`. -/
def sessionIdText (sessionId : UInt64) : List UInt8 :=
  ascii "session-id=" ++ hexText sessionId.toNat

/-! ### The threads -/

/-- `max_id_length`. -/
def maxIdLength : ℕ := 32

/-- What `run_meta` takes from its surroundings when it handles a request: the bytes of an address
that no number sets, the numbers that `my_random` gives, and whether the IP queue takes the SYN. -/
structure MetaEnvironment where
  freshBytes : ℕ → UInt8
  srcPorts : List UInt16
  localSeq : UInt32
  synOk : Bool

/-- Where `run_meta` is: it waits for a message, has queued a SYN, has queued the reply, or has
taken a session out of the map to close it. -/
inductive MetaThread
  | waiting
  | opening (sender : List UInt8) (sessionId : UInt64) (session : Session)
  | opened (sessionId : UInt64) (session : Session)
  | closing (sessionId : UInt64) (session : Session)
deriving DecidableEq, Repr

/-- Where `run_clean` is: it sleeps, has read the clock, or has collected ids. -/
inductive CleanThread
  | sleeping
  | timed (now : UInt64)
  | collected (cleanList : List UInt64)
deriving DecidableEq, Repr

/-- What the threads share, with the table of `run_meta`, and where its slow threads are. -/
structure Server where
  sessions : Sessions
  localAllocatedPorts : Std.ExtTreeMap UInt16 UInt64
  metaThread : MetaThread
  cleanThread : CleanThread

/-- The server before the first event. -/
def Server.start : Server := ⟨∅, ∅, .waiting, .sleeping⟩

/-- What the server sends: a segment or a message of an application, or the reply to a request with
its `msg_nr`, which stays as `allocate_shm_message` clears it. -/
inductive ServerOutput
  | send (output : Output)
  | reply (receiver : List UInt8) (msgNr : UInt64) (text : List UInt8)
deriving DecidableEq, Repr

/-- The configuration of the server, with the address that it opens sessions from. -/
structure ServerConfig extends Config where
  fromAddr : List UInt8

/-! ### `run_meta` -/

/-- The session of an open. -/
def openSession (fromAddr dstAddr : List UInt8) (srcPort dstPort : UInt16)
    (shmDataAddress : List UInt8) (localSeq : UInt32) : Session where
  updatedTs := 0
  isClient := true
  shmPeer := shmDataAddress
  state := .synSent
  startLocalSeq := localSeq
  startPeerSeq := 0
  mss := minTcpMtu
  localSeq := localSeq
  peerSeq := 0
  localWindowSize := initialLocalWindowSize
  peerWindowSize := 0
  localAddr := fromAddr
  localPort := srcPort
  peerAddr := dstAddr
  peerPort := dstPort
  halfClosed := false
  tcpToL7 := ⟨0, []⟩
  l7ToTcp := ⟨0, []⟩
  l7SendFin := false
  finSent := false
  inFlight := 0

/-- The header of a segment that `run_meta` sends for a session. -/
def metaHeader (session : Session) (flags : UInt8) : OutSegment where
  fromAddr := session.localAddr
  toAddr := session.peerAddr
  srcPort := session.localPort
  dstPort := session.peerPort
  seqNr := session.localSeq
  ackNr := session.peerSeq
  flags := flags
  windowSize := session.localWindowSize
  payload := []

/-- An open up to the SYN. The loop over random ports goes on while none of them is free. -/
def openRequest (config : ServerConfig) (environment : MetaEnvironment)
    (sender dstAddr : List UInt8) (dstPort : UInt16) (shmDataAddress : List UInt8)
    (server : Server) :
    Option Server × List ServerOutput :=
  match environment.srcPorts.find? fun port ↦ !server.localAllocatedPorts.contains port with
  | none => (some server, [])
  | some srcPort =>
    match calcSessionId dstPort srcPort dstAddr config.fromAddr with
    | none => (none, [])
    | some sessionId =>
      if maxIdLength < shmDataAddress.length then (none, [])
      -- `tcp_udp_checksum` reads four bytes of both addresses
      else if dstAddr.length < 4 ∨ config.fromAddr.length < 4 then (none, [])
      else
        let session := openSession config.fromAddr dstAddr srcPort dstPort shmDataAddress
          environment.localSeq
        let sent := sendTcpPacket (fun _ ↦ environment.synOk) (metaHeader session flagSyn)
          minTcpMtu
        if sent.2 = -1 then (some server, sent.1.map fun segment ↦ .send (.toIp segment))
        else (some { server with metaThread := .opening sender sessionId session },
          sent.1.map fun segment ↦ .send (.toIp segment))

/-- A close up to the end of the lock. -/
def closeRequest (sessionId : UInt64) (server : Server) : Server :=
  match server.sessions[sessionId]? with
  | some session =>
    { server with
      sessions := server.sessions.erase sessionId
      metaThread := .closing sessionId session }
  | none => server

/-- The loop body of `run_meta` up to the first step that another thread can see. -/
def metaRequest (config : ServerConfig) (environment : MetaEnvironment) (message : MetaMessage)
    (server : Server) : Option Server × List ServerOutput :=
  match parseMeta environment.freshBytes message.data with
  | .invalid => (some server, [])
  | .throws => (none, [])
  | .request request =>
    match request.action with
    | .open =>
      match request.dstPort, request.dstAddr, request.shmDataAddress with
      | some dstPort, some dstAddr, some shmDataAddress =>
        openRequest config environment message.sender dstAddr dstPort shmDataAddress server
      | _, _, _ => (some server, [])
    | .close =>
      match request.sessionId with
      | some sessionId => (some (closeRequest sessionId server), [])
      | none => (some server, [])

/-- "return new session_id". A reply that is refused ends the open. -/
def metaReply (accepted : Bool) (server : Server) : Server × List ServerOutput :=
  match server.metaThread with
  | .opening sender sessionId session =>
    let session := { session with localSeq := session.localSeq + 1 }
    if accepted then
      ({ server with metaThread := .opened sessionId session },
        [.reply sender 0 (sessionIdText sessionId)])
    else ({ server with metaThread := .waiting }, [])
  | _ => (server, [])

/-- "if all went well": the port and the session are put in their maps. -/
def metaInsert (server : Server) : Server :=
  match server.metaThread with
  | .opened sessionId session =>
    { server with
      localAllocatedPorts := server.localAllocatedPorts.insertIfNew session.localPort sessionId
      sessions := server.sessions.insertIfNew sessionId session
      metaThread := .waiting }
  | _ => server

/-- The rest of a close. -/
def metaFin (accepted : Bool) (server : Server) : Option Server × List ServerOutput :=
  match server.metaThread with
  | .closing sessionId session =>
    let session := { session with localSeq := session.localSeq + 1 }
    match server.localAllocatedPorts[session.localPort]? with
    | none => (none, [])
    | some owner =>
      let ports := if owner = sessionId then server.localAllocatedPorts.erase session.localPort
        else server.localAllocatedPorts
      let sent := sendTcpPacket (fun _ ↦ accepted) (metaHeader session flagFin) minTcpMtu
      (some { server with localAllocatedPorts := ports, metaThread := .waiting },
        sent.1.map fun segment ↦ .send (.toIp segment))
  | _ => (some server, [])

/-! ### `run_clean` -/

/-- `TCP_WAIT_FIN * 1000`, in microseconds. -/
def tcpWaitFinUs : UInt64 := 30000 * 1000

/-- A session that `run_clean` collects: it is over, and nothing came for it for some time. -/
def isOver (now : UInt64) (session : Session) : Bool :=
  tcpWaitFinUs < now - session.updatedTs &&
    (session.halfClosed && session.finSent || session.state == .closed)

/-- The ids that `run_clean` collects. -/
def collect (now : UInt64) (sessions : Sessions) : List UInt64 :=
  (sessions.toList.filter fun entry ↦ isOver now entry.2).map Prod.fst

/-- The sessions that `run_clean` leaves. -/
def deleteAll (cleanList : List UInt64) (sessions : Sessions) : Sessions :=
  cleanList.foldl (fun sessions sessionId ↦ sessions.erase sessionId) sessions

/-! ### All threads -/

/-- The steps of the threads. -/
inductive ThreadEvent
  | data (event : ServerEvent)
  | metaRequest (environment : MetaEnvironment) (message : MetaMessage)
  | metaReply (accepted : Bool)
  | metaInsert
  | metaFin (accepted : Bool)
  | cleanClock (now : UInt64)
  | cleanCollect
  | cleanDelete

/-- A step of `run_clean`. -/
def cleanStep (server : Server) : ThreadEvent → Server
  | .cleanClock now =>
    match server.cleanThread with
    | .sleeping => { server with cleanThread := .timed now }
    | _ => server
  | .cleanCollect =>
    match server.cleanThread with
    | .timed now => { server with cleanThread := .collected (collect now server.sessions) }
    | _ => server
  | .cleanDelete =>
    match server.cleanThread with
    | .collected cleanList =>
      { server with
        sessions := deleteAll cleanList server.sessions
        cleanThread := .sleeping }
    | _ => server
  | _ => server

/-- A step of the server. A thread that is in the middle of its loop body takes no message, and one
that is not has nothing to go on with. -/
def threadStep (config : ServerConfig) :
    Option Server → ThreadEvent → Option Server × List ServerOutput
  | none, _ => (none, [])
  | some server, .data event =>
    let result := serverStep config.toConfig server.sessions event
    (some { server with sessions := result.1 }, result.2.map .send)
  | some server, .metaRequest environment message =>
    match server.metaThread with
    | .waiting => metaRequest config environment message server
    | _ => (some server, [])
  | some server, .metaReply accepted =>
    let result := metaReply accepted server
    (some result.1, result.2)
  | some server, .metaInsert => (some (metaInsert server), [])
  | some server, .metaFin accepted => metaFin accepted server
  | some server, event => (some (cleanStep server event), [])

/-! ### A close under the id of a reply -/

/-- The request to close the session of a reply: `action=close`, and the text of the reply. -/
def closeText (sessionId : UInt64) : List UInt8 :=
  ascii "action=close" ++ 10 :: sessionIdText sessionId

/-- A byte that is no digit does not stand in the text of a number. -/
theorem hexText_absent {c : UInt8} (h : ∀ digit < 16, hexByte digit ≠ c) (number : ℕ) :
    c ∉ hexText number := by
  obtain ⟨digits, hdigits⟩ := exists_digits_hexText number
  rw [hdigits.text_eq, List.mem_map]
  rintro ⟨digit, hdigit, hequal⟩
  exact h digit (hdigits.lt digit hdigit) hequal

theorem hexText_ne_nil (number : ℕ) : hexText number ≠ [] := by
  rw [hexText, ne_eq, List.map_eq_nil_iff]
  exact Nat.toDigits_ne_nil

/-- The two lines of the request. -/
theorem split_closeText (sessionId : UInt64) :
    split (closeText sessionId) ⟨ascii "\n", by decide⟩ =
      [ascii "action=close", sessionIdText sessionId] := by
  have hsplitter : (⟨ascii "\n", by decide⟩ : Splitter) = ⟨[10], by decide⟩ := by decide +kernel
  have hfirst : (10 : UInt8) ∉ ascii "action=close" := by decide +kernel
  have hnumber := hexText_absent (c := 10) (by decide) sessionId.toNat
  have hsecond : (10 : UInt8) ∉ sessionIdText sessionId := by
    rw [sessionIdText, List.mem_append, not_or]
    exact ⟨by decide +kernel, hnumber⟩
  have hnonempty : sessionIdText sessionId ≠ [] :=
    List.append_ne_nil_of_right_ne_nil _ (hexText_ne_nil _)
  rw [hsplitter, closeText, split_first hfirst hnonempty, split_absent hsecond hnonempty]

/-- The key and the value of the second line. -/
theorem split_sessionIdText (sessionId : UInt64) :
    split (sessionIdText sessionId) ⟨ascii "=", by decide⟩ =
      [ascii "session-id", hexText sessionId.toNat] := by
  have hsplitter : (⟨ascii "=", by decide⟩ : Splitter) = ⟨[61], by decide⟩ := by decide +kernel
  have hkey : (61 : UInt8) ∉ ascii "session-id" := by decide +kernel
  have hvalue := hexText_absent (c := 61) (by decide) sessionId.toNat
  have htext : sessionIdText sessionId =
      ascii "session-id" ++ 61 :: hexText sessionId.toNat := by
    have hparts : ascii "session-id=" = ascii "session-id" ++ [61] := by decide +kernel
    rw [sessionIdText, hparts, List.append_assoc, List.singleton_append]
  rw [hsplitter, htext, split_first hkey (hexText_ne_nil _),
    split_absent hvalue (hexText_ne_nil _)]

/-- What `run_meta` makes of the request: the id is read through an `int`. -/
theorem parseMeta_closeText (freshBytes : ℕ → UInt8) (sessionId : UInt64) :
    parseMeta freshBytes (closeText sessionId) =
      if sessionId.toNat < 2 ^ 31 then .request { MetaRequest.initial with
        sessionId := some sessionId }
      else .throws := by
  have haction : parseLine freshBytes (ascii "action=close") .initial =
      .request MetaRequest.initial := by
    have hsplit : split (ascii "action=close") ⟨ascii "=", by decide⟩ =
        [ascii "action", ascii "close"] := by decide +kernel
    rw [parseLine, hsplit]
    exact (if_pos rfl).trans ((if_neg (by decide +kernel)).trans (if_pos rfl))
  rw [parseMeta, split_closeText]
  change parseLines _ _ _ = _
  rw [parseLines, haction]
  change parseLines _ _ _ = _
  rw [parseLines, parseLine, split_sessionIdText]
  dsimp only
  rw [if_neg (by decide +kernel), if_pos rfl, myStoi, stoi_hexText]
  by_cases hfits : sessionId.toNat < 2 ^ 31
  · rw [if_pos hfits, if_pos hfits]
    have hid : UInt64.ofInt sessionId.toNat = sessionId := by
      have hmod : ((sessionId.toNat : ℤ) % 2 ^ 64).toNat = sessionId.toNat := by omega
      rw [UInt64.ofInt, hmod, UInt64.ofNat_toNat]
    simp only [Option.map_some, hid]
    rfl
  · rw [if_neg hfits, if_neg hfits]

/-- When a session can be closed under the id that it was opened with. The request with the text of
the reply is read back to that id, and `run_meta` closes the session with that id, exactly when the
id is below `2 ^ 31`. -/
theorem close_acts_iff (config : ServerConfig) (environment : MetaEnvironment)
    (sender : List UInt8) (msgNr : UInt64) (sessionId : UInt64) (server : Server) :
    (parseMeta environment.freshBytes (closeText sessionId) =
        .request { MetaRequest.initial with sessionId := some sessionId } ∧
      metaRequest config environment ⟨sender, msgNr, closeText sessionId⟩ server =
        (some (closeRequest sessionId server), [])) ↔ sessionId.toNat < 2 ^ 31 := by
  rw [metaRequest, parseMeta_closeText]
  by_cases hfits : sessionId.toNat < 2 ^ 31
  · rw [if_pos hfits]
    exact ⟨fun _ ↦ hfits, fun _ ↦ ⟨rfl, rfl⟩⟩
  · rw [if_neg hfits]
    refine ⟨fun h ↦ ?_, fun h ↦ absurd h hfits⟩
    exact absurd h.1 (by simp)

/-- The reply `session-id=80000000` cannot be used: the exception ends the server. -/
theorem close_of_large_id_throws :
    parseMeta (fun _ ↦ 0) (ascii "action=close\nsession-id=80000000") = .throws ∧
      closeText 0x80000000 = ascii "action=close\nsession-id=80000000" ∧
      (metaRequest ⟨⟨fun _ ↦ none, []⟩, [10, 0, 0, 1]⟩ ⟨fun _ ↦ 0, [], 0, true⟩
        ⟨[], 1, closeText 0x80000000⟩ .start).1.isNone := by
  decide +kernel

end MyIPNG.Tcp
