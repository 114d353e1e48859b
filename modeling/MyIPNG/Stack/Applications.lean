import MyIPNG.L7.Sending
import MyIPNG.L7.Stream
import MyIPNG.Shm.Blocking
import MyIPNG.Shm.Order
import MyIPNG.Tcp.Audience
import MyIPNG.Tcp.Connection

/-!
# From application to application

The bytes that an application sends go through many hands: a queue in shared memory, a session of
the TCP server and the network, the session at the other host, the queue in shared memory between
the TCP server and the application there, and the queue of the session in that application. There
are results on each of them: on the records in shared memory, on the two sessions and the network
between them, and on the bytes of a session of an application. `application_reads_prefix` puts them
together: what the thread of a session has in hand, what is in its queue and what is about to be
pushed are, in this order, a prefix of what the other application gave to `send_func`.
-/

set_option autoImplicit false
set_option relaxedAutoImplicit false

namespace MyIPNG.Stack

open Base Utils

/-! ### The messages of a session -/

/-- The messages among the outputs. -/
def toL7 (outputs : List Tcp.Output) : List Tcp.L7Message :=
  outputs.filterMap fun
    | .toIp _ => none
    | .toL7 _ message => some message

/-- The messages over a history. -/
def toL7In (trace : Tcp.Trace) : List Tcp.L7Message := trace.flatMap fun entry ↦ toL7 entry.2

/-- What `run_in` of an application takes from a message. -/
def asReceived (message : Tcp.L7Message) : L7.Received :=
  ⟨message.sessionId, message.flags, message.payload⟩

/-- Every entry of a history is a step of the session. -/
def StepsOf (config : Tcp.Config) (sessionId : UInt64) (trace : Tcp.Trace) : Prop :=
  ∀ entry ∈ trace, ∃ state, entry.2 = (Tcp.sessionStep config sessionId state entry.1).2

theorem toL7In_cons (entry : Tcp.SessionEvent × List Tcp.Output) (rest : Tcp.Trace) :
    toL7In (entry :: rest) = toL7 entry.2 ++ toL7In rest := List.flatMap_cons

/-- A message that is put out is a message to an application. -/
theorem mem_toL7 {outputs : List Tcp.Output} {message : Tcp.L7Message}
    (h : message ∈ toL7 outputs) : ∃ queue, .toL7 queue message ∈ outputs := by
  obtain ⟨output, houtput, hequal⟩ := List.mem_filterMap.mp h
  cases output with
  | toIp segment => exact absurd hequal (by simp)
  | toL7 queue other => exact ⟨queue, Option.some.inj hequal ▸ houtput⟩

/-- A visit of the sender makes no message. -/
theorem toL7_senderVisit (accepts : ℕ → Bool) (session : Tcp.Session) :
    toL7 (Tcp.senderVisit accepts session).outputs = [] := by
  rw [Tcp.senderVisit_eq]
  split_ifs <;> rfl

/-- The payloads of the messages are those that are handed over. -/
theorem flatten_handedPayloads (outputs : List Tcp.Output) :
    (Tcp.handedPayloads outputs).flatten = (toL7 outputs).flatMap Tcp.L7Message.payload := by
  induction outputs with
  | nil => rfl
  | cons output rest ih =>
    cases output with
    | toIp segment => exact ih
    | toL7 queue message =>
      have hfirst : toL7 (.toL7 queue message :: rest) = message :: toL7 rest := rfl
      rw [Tcp.handedPayloads_cons_toL7, List.flatten_append, ih, hfirst, List.flatMap_cons]
      by_cases hempty : message.payload = []
      · simp [hempty]
      · simp [hempty]

section Session

variable {config : Tcp.Config} {sessionId : UInt64} {trace : Tcp.Trace}

/-- The messages of a session bear its id, and none of them announces it. -/
theorem StepsOf.about (h : StepsOf config sessionId trace) {message : Tcp.L7Message}
    (hmem : message ∈ toL7In trace) :
    message.sessionId = sessionId ∧ message.announces = false := by
  obtain ⟨⟨event, outputs⟩, hentry, hmessage⟩ := List.mem_flatMap.mp hmem
  obtain ⟨state, houtputs⟩ := h _ hentry
  dsimp only at houtputs hmessage
  rw [houtputs] at hmessage
  cases state with
  | none => exact absurd hmessage List.not_mem_nil
  | some session =>
    cases event with
    | segment environment segment =>
      obtain ⟨queue, hsent⟩ := mem_toL7 hmessage
      have habout := @Tcp.runInSession_about config environment sessionId segment _ session rfl
      exact (habout.1 _ hsent).2
    | write flags what => exact absurd hmessage List.not_mem_nil
    | visit accepts =>
      change message ∈ toL7 (Tcp.senderVisit accepts session).outputs at hmessage
      rw [toL7_senderVisit] at hmessage
      exact absurd hmessage List.not_mem_nil

/-- The bytes that the application has got are those of the messages. -/
theorem StepsOf.handedBytes_eq (h : StepsOf config sessionId trace) :
    Tcp.handedBytes trace = (toL7In trace).flatMap Tcp.L7Message.payload := by
  induction trace with
  | nil => rfl
  | cons entry rest ih =>
    have hrest := ih fun other hother ↦ h other (List.mem_cons_of_mem _ hother)
    have hsplit := Tcp.handedBytes_append [entry] rest
    rw [List.singleton_append] at hsplit
    rw [hsplit, hrest, toL7In_cons, List.flatMap_append]
    congr 1
    obtain ⟨event, outputs⟩ := entry
    obtain ⟨state, houtputs⟩ := h _ List.mem_cons_self
    cases event with
    | segment environment segment =>
      rw [← flatten_handedPayloads]
      show joined ((Tcp.handedPayloads outputs).map (fun payload ↦ (segment.peerSeqNr, payload)) ++
        []) = _
      rw [List.append_nil]
      induction Tcp.handedPayloads outputs with
      | nil => rfl
      | cons payload more ih => rw [List.map_cons, joined_cons, ih, List.flatten_cons]
    | write flags what =>
      cases state with
      | none => rw [houtputs]; rfl
      | some session => rw [houtputs]; rfl
    | visit accepts =>
      cases state with
      | none => rw [houtputs]; rfl
      | some session =>
        have hnone : toL7 outputs = [] := by
          dsimp only at houtputs
          rw [houtputs]
          exact toL7_senderVisit accepts session
        show joined [] = (toL7 outputs).flatMap Tcp.L7Message.payload
        rw [hnone]
        rfl

end Session

/-- The histories of both ends of a connection are made of steps of their sessions. -/
theorem stepsOf_run (config : Side → Tcp.Config) (sessionId : Side → UInt64)
    (states : Side → Option Tcp.Session) (events : List (Side × Tcp.SessionEvent)) (side : Side) :
    StepsOf (config side) (sessionId side)
      ((run (Tcp.connectionStep config sessionId) (fun side ↦ .start (states side)) events).1
        side).trace := by
  refine link_induction (D := fun side station _ ↦
    StepsOf (config side) (sessionId side) station.trace) ?_ ?_ ?_ (along_true _ _ events) side
  · exact fun _ _ hentry ↦ absurd hentry List.not_mem_nil
  · intro stations side event hsteps _ _ entry hentry
    rcases List.mem_append.mp hentry with hold | hnew
    · exact hsteps entry hold
    · rw [List.mem_singleton.mp hnew]
      exact ⟨(stations side).state, rfl⟩
  · exact fun _ _ _ hsteps _ _ ↦ hsteps

/-! ### Behind the queue -/

/-- What the application took for a session is the message that announced it and, in order, a
beginning of what the session put out. -/
def TakenInOrder (sessionId : UInt64) (trace : Tcp.Trace) (received : List L7.Received) : Prop :=
  ∃ opening : Tcp.L7Message, opening.announces = true ∧ opening.sessionId = sessionId ∧
    opening.payload = [] ∧
    received.filter (fun m ↦ m.sessionId == sessionId) <+:
      (opening :: toL7In trace).map asReceived

theorem flatMap_map_asReceived (messages : List Tcp.L7Message) :
    (messages.map asReceived).flatMap L7.Received.pl =
      messages.flatMap Tcp.L7Message.payload := by
  rw [List.flatMap_map]
  rfl

section Taken

variable {config : Tcp.Config} {sessionId : UInt64} {trace : Tcp.Trace}
  {received : List L7.Received}

/-- Only the first message of a session announces it. -/
theorem TakenInOrder.opening_first (h : TakenInOrder sessionId trace received)
    (hsteps : StepsOf config sessionId trace) {earlier later : List L7.Received}
    {opening : L7.Received} (hsplit : received = earlier ++ opening :: later)
    (hid : opening.sessionId = sessionId) (hopens : opening.flags &&& Tcp.miTcpOpen ≠ 0) :
    (earlier.filter fun m ↦ m.sessionId == sessionId) = [] := by
  obtain ⟨first, -, -, -, hinOrder⟩ := h
  have htaken : received.filter (fun m ↦ m.sessionId == sessionId) =
      earlier.filter (fun m ↦ m.sessionId == sessionId) ++
        opening :: later.filter (fun m ↦ m.sessionId == sessionId) := by
    rw [hsplit, List.filter_append, List.filter_cons_of_pos (by simp [hid])]
  rw [htaken] at hinOrder
  by_contra hearlier
  obtain ⟨head, tail, htail⟩ := List.exists_cons_of_ne_nil hearlier
  rw [htail, List.cons_append, List.map_cons] at hinOrder
  -- an announcement behind the first message is a message of the session
  have hmem : opening ∈ (toL7In trace).map asReceived :=
    (List.cons_prefix_cons.mp hinOrder).2.subset
      (List.mem_append_right _ List.mem_cons_self)
  obtain ⟨message, hmessage, rfl⟩ := List.mem_map.mp hmem
  have hannounces : message.announces = true := by
    simpa [Tcp.L7Message.announces, asReceived] using hopens
  exact absurd hannounces (by simp [(hsteps.about hmessage).2])

/-- The bytes that the application took for a session, from a message that announces it, are a
prefix of those that were handed over. -/
theorem TakenInOrder.bytes_isPrefix (h : TakenInOrder sessionId trace received)
    (hsteps : StepsOf config sessionId trace) {earlier later : List L7.Received}
    {opening : L7.Received} (hsplit : received = earlier ++ opening :: later)
    (hid : opening.sessionId = sessionId) (hopens : opening.flags &&& Tcp.miTcpOpen ≠ 0) :
    L7.bytesFor sessionId (opening :: later) <+: Tcp.handedBytes trace := by
  have hfirst := h.opening_first hsteps hsplit hid hopens
  obtain ⟨first, -, -, hempty, rest, hrest⟩ := h
  have htaken : received.filter (fun m ↦ m.sessionId == sessionId) =
      (opening :: later).filter fun m ↦ m.sessionId == sessionId := by
    rw [hsplit, List.filter_append, hfirst, List.nil_append]
  refine ⟨rest.flatMap L7.Received.pl, ?_⟩
  calc L7.bytesFor sessionId (opening :: later) ++ rest.flatMap L7.Received.pl
      = ((first :: toL7In trace).map asReceived).flatMap L7.Received.pl := by
        rw [L7.bytesFor, ← htaken, ← List.flatMap_append, hrest]
    _ = first.payload ++ (toL7In trace).flatMap Tcp.L7Message.payload := by
        rw [flatMap_map_asReceived, List.flatMap_cons]
    _ = Tcp.handedBytes trace := by
        rw [hempty, List.nil_append, hsteps.handedBytes_eq]

end Taken

/-! ### Through the queue -/

/-- What a queue hands over to callers that wait for any message is a beginning of what was put in
it. -/
theorem copyData_receivedIn_isPrefix {size : ℕ} {contents : ℕ → UInt8} {counter : UInt64}
    {shm : Shm.SharedMemory} (hbegin : Shm.beginQueue size contents counter = some shm)
    {operations : List Shm.Operation}
    (hany : ∀ address filter, .wait address filter ∈ operations → filter = ⟨.msgAny, none⟩) :
    (Shm.receivedIn (run Shm.step ⟨shm, []⟩ operations).2).map Shm.copyData <+:
      (Shm.appendedIn (run Shm.step ⟨shm, []⟩ operations).2).map Shm.Message.data := by
  have hagrees := (Shm.refines_run (Shm.refines_beginQueue hbegin) operations).2
  have hwaits : ∀ operation ∈ operations, Shm.WaitsFor (fun _ ↦ true) operation := by
    intro operation hoperation
    cases operation with
    | wait address filter =>
      apply Or.inl
      intro m _
      rw [hany address filter hoperation]
      simp [Shm.Filter.selects, Shm.Filter.admits]
    | _ => trivial
  have hqueue := (Shm.conserved_run (fun _ ↦ true) size counter hwaits).inOrder
  rw [List.filter_true, List.filter_true] at hqueue
  rw [Shm.copyData_receivedIn hagrees, (Shm.appendedIn_eq_putIn hagrees).1, hqueue]
  exact (List.prefix_append _ _).map Shm.Message.data

/-- The bytes in which the TCP server wraps a message. -/
def wrapped (message : Tcp.L7Message) : List UInt8 :=
  Shm.encodeUpTcp message.sessionId message.fromAddr message.fromPort message.toAddr
    message.toPort message.flags message.payload

/-- What `run_in` of an application takes from the data of a message. -/
def unwrapped (m : List UInt8) : Option L7.Received :=
  (Shm.unwrapMessageUpTcp m).map fun fields ↦
    ⟨fields.sessionId, fields.flags, fields.pl.read m⟩

/-- The way of the messages of a session from the TCP server to the application, through a queue in
shared memory. The TCP server wraps what it puts out, among the messages of other sessions, behind
the one that announces the session. The application waits for any message, and it has taken what the
queue handed over, perhaps but for the last ones. -/
structure ThroughQueue (shm : Shm.SharedMemory) (operations : List Shm.Operation)
    (sessionId : UInt64) (trace : Tcp.Trace) (received : List L7.Received) : Prop where
  begins : ∃ size contents counter, Shm.beginQueue size contents counter = some shm
  waits : ∀ address filter, .wait address filter ∈ operations → filter = ⟨.msgAny, none⟩
  puts : ∃ (opening : Tcp.L7Message) (put : List Tcp.L7Message), opening.announces = true ∧
    opening.sessionId = sessionId ∧ opening.payload = [] ∧
    (Shm.appendedIn (run Shm.step ⟨shm, []⟩ operations).2).map Shm.Message.data =
      put.map wrapped ∧
    put.filter (fun message ↦ message.sessionId == sessionId) <+: opening :: toL7In trace
  takes : received <+:
    ((Shm.receivedIn (run Shm.step ⟨shm, []⟩ operations).2).map Shm.copyData).filterMap unwrapped

/-- An application unwraps what the TCP server wrapped. Assumes: a message that has room. -/
theorem unwrapped_wrapped {message : Tcp.L7Message} (h : (wrapped message).length < 2 ^ 32) :
    unwrapped (wrapped message) = some (asReceived message) := by
  unfold wrapped at h ⊢
  rw [Shm.length_encodeUpTcp] at h
  obtain ⟨fields, hfields, hid, -, -, hflags, -, -, hpl⟩ :=
    Shm.unwrapMessageUpTcp_encodeUpTcp message.sessionId message.fromAddr message.fromPort
      message.toAddr message.toPort message.flags message.payload (by omega)
  rw [unwrapped, hfields, Option.map_some, hid, hflags, hpl.2]
  rfl

theorem filterMap_unwrapped {put : List Tcp.L7Message} {messages : List Shm.Message}
    (h : messages.map Shm.Message.data = put.map wrapped) :
    (messages.map Shm.Message.data).filterMap unwrapped = put.map asReceived := by
  induction put generalizing messages with
  | nil => rw [h]; rfl
  | cons message rest ih =>
    cases messages with
    | nil => exact absurd h (by simp)
    | cons m others =>
      obtain ⟨hfirst, hothers⟩ := List.cons.inj h
      have hsize := m.size_lt
      rw [hfirst] at hsize
      rw [List.map_cons, hfirst, List.filterMap_cons_some (unwrapped_wrapped hsize), ih hothers,
        List.map_cons]

/-- The messages of a session, taken from those of all sessions. -/
theorem filter_map_asReceived (sessionId : UInt64) (messages : List Tcp.L7Message) :
    (messages.map asReceived).filter (fun m ↦ m.sessionId == sessionId) =
      (messages.filter fun message ↦ message.sessionId == sessionId).map asReceived := by
  rw [List.filter_map]
  rfl

/-- What comes through the queue is taken in order. -/
theorem ThroughQueue.takenInOrder {shm : Shm.SharedMemory} {operations : List Shm.Operation}
    {sessionId : UInt64} {trace : Tcp.Trace} {received : List L7.Received}
    (h : ThroughQueue shm operations sessionId trace received) :
    TakenInOrder sessionId trace received := by
  obtain ⟨size, contents, counter, hbegin⟩ := h.begins
  obtain ⟨opening, put, hannounces, hid, hempty, hput, hsession⟩ := h.puts
  -- what the application takes is a prefix of what was put
  have htaken : received <+: put.map asReceived := by
    apply h.takes.trans
    rw [← filterMap_unwrapped hput]
    exact (copyData_receivedIn_isPrefix hbegin h.waits).filterMap unwrapped
  refine ⟨opening, hannounces, hid, hempty, ?_⟩
  apply (htaken.filter _).trans
  rw [filter_map_asReceived]
  exact hsession.map asReceived

/-! ### From the application that sends -/

/-- What was written to a session over a history: the flags and the data. -/
def writesIn (trace : Tcp.Trace) : List (UInt32 × List UInt8) :=
  trace.filterMap fun entry ↦ match entry.1 with
    | .write flags what => some (flags, what)
    | _ => none

/-- The way of what the thread of a session gives to the TCP server, through a queue in shared
memory. The messages for the session that were put in the queue are a beginning of those that the
thread gave; `run_out` waits for any message, and it has written to the session what the queue
handed over, perhaps but for the last messages. -/
structure WrittenThroughQueue (shm : Shm.SharedMemory) (operations : List Shm.Operation)
    (sessionId : UInt64) (given : List L7.Given) (trace : Tcp.Trace) : Prop where
  begins : ∃ size contents counter, Shm.beginQueue size contents counter = some shm
  waits : ∀ address filter, .wait address filter ∈ operations → filter = ⟨.msgAny, none⟩
  puts : ((Shm.appendedIn (run Shm.step ⟨shm, []⟩ operations).2).map Shm.Message.data).filter
    (fun m ↦ (L7.writeFor sessionId m).isSome) <+: given.map (L7.givenMessage sessionId)
  takes : writesIn trace <+:
    ((Shm.receivedIn (run Shm.step ⟨shm, []⟩ operations).2).map Shm.copyData).filterMap
      (L7.writeFor sessionId)

theorem writtenIn_eq_flatMap (trace : Tcp.Trace) :
    Tcp.writtenIn trace = (writesIn trace).flatMap Prod.snd := by
  induction trace with
  | nil => rfl
  | cons entry rest ih =>
    obtain ⟨event, outputs⟩ := entry
    have hsplit := Tcp.writtenIn_append [(event, outputs)] rest
    rw [List.singleton_append] at hsplit
    rw [hsplit, ih]
    cases event with
    | write flags what =>
      change (what ++ []) ++ _ = what ++ _
      rw [List.append_nil]
      rfl
    | _ => rfl

/-- Only the messages for a session are written to it. -/
theorem filterMap_writeFor_filter (sessionId : UInt64) (messages : List (List UInt8)) :
    (messages.filter fun m ↦ (L7.writeFor sessionId m).isSome).filterMap
      (L7.writeFor sessionId) = messages.filterMap (L7.writeFor sessionId) := by
  induction messages with
  | nil => rfl
  | cons m rest ih =>
    cases hwrite : L7.writeFor sessionId m with
    | none => rw [List.filter_cons_of_neg (by simp [hwrite]), ih, List.filterMap_cons_none hwrite]
    | some fields =>
      rw [List.filter_cons_of_pos (by simp [hwrite]), List.filterMap_cons_some hwrite, ih,
        List.filterMap_cons_some hwrite]

theorem filterMap_givenMessage (sessionId : UInt64) (given : List L7.Given) :
    (given.map (L7.givenMessage sessionId)).filterMap (L7.writeFor sessionId) =
      given.map fun one ↦ (one.flags, one.bytes) := by
  induction given with
  | nil => rfl
  | cons one rest ih =>
    rw [List.map_cons, List.filterMap_cons_some (L7.writeFor_givenMessage sessionId one), ih,
      List.map_cons]

/-- What is written to a session is a prefix of what its thread gave. -/
theorem WrittenThroughQueue.written_isPrefix {shm : Shm.SharedMemory}
    {operations : List Shm.Operation} {sessionId : UInt64} {given : List L7.Given}
    {trace : Tcp.Trace} (h : WrittenThroughQueue shm operations sessionId given trace) :
    Tcp.writtenIn trace <+: given.flatMap L7.Given.bytes := by
  obtain ⟨size, contents, counter, hbegin⟩ := h.begins
  have hwrites : writesIn trace <+: given.map fun one ↦ (one.flags, one.bytes) := by
    apply h.takes.trans
    apply ((copyData_receivedIn_isPrefix hbegin h.waits).filterMap _).trans
    rw [← filterMap_writeFor_filter, ← filterMap_givenMessage sessionId]
    exact h.puts.filterMap _
  rw [writtenIn_eq_flatMap]
  have hbytes : (given.map fun one ↦ (one.flags, one.bytes)).flatMap Prod.snd =
      given.flatMap L7.Given.bytes := by
    rw [List.flatMap_map]
  rw [← hbytes]
  obtain ⟨rest, hrest⟩ := hwrites
  refine ⟨rest.flatMap Prod.snd, ?_⟩
  rw [← List.flatMap_append, hrest]

/-- What an application reads of a connection is a prefix of what the other one sends. Assumes: two
sessions behind their handshake, with a network that loses, repeats and reorders packets but makes
none up; a run of the queue through which the messages of the thread that sends come; a run of the
queue through which the messages of the TCP server come, and an orderly run of the application that
takes them. The thread of its session has a part of the bytes in hand, a part is in the queue of the
session, and a part is about to be pushed. -/
theorem application_reads_prefix (config : Side → Tcp.Config) (sessionId : Side → UInt64)
    {sessions : Side → Tcp.Session} (hmatched : Tcp.Matched sessions)
    {connection : List (Side × Tcp.SessionEvent)}
    (hconnection : Along (Tcp.connectionStep config sessionId) Tcp.Transmitted
      (fun side ↦ .start (some (sessions side))) connection)
    {ends : Side → Tcp.ConnectionEnd}
    (hends : ends = (run (Tcp.connectionStep config sessionId)
      (fun side ↦ .start (some (sessions side))) connection).1)
    (service : L7.Service) {events : List L7.L7Event}
    (hevents : Along (L7.seenStep service) L7.Orderly (.start, .start) events)
    {server : L7.L7Server} {seen : L7.Seen}
    (hserver : (server, seen) = (run (L7.seenStep service) (.start, .start) events).1)
    (side : Side) {outgoing incoming : Shm.SharedMemory}
    {outOperations inOperations : List Shm.Operation} {given : List L7.Given}
    (hwritten : WrittenThroughQueue outgoing outOperations (sessionId side) given
      (ends side).trace)
    (hqueue : ThroughQueue incoming inOperations (sessionId side.other) (ends side.other).trace
      seen.received)
    {pointer : ℕ} {session : L7.L7Session}
    (hentry : server.sessions[sessionId side.other]? = some pointer)
    (hread : server.heap.read pointer = some session) :
    seen.inHand pointer ++ session.incoming.flatten ++
        L7.pendingFor (sessionId side.other) server.rxThread <+:
      given.flatMap L7.Given.bytes := by
  subst hends
  have hinvariant := L7.streamsInvariant_run service hevents
  rw [← hserver] at hinvariant
  obtain ⟨earlier, opening, later, hreceived, hid, hopens, hbytes⟩ :=
    hinvariant.streams _ pointer session hentry hread
  have hsteps := stepsOf_run config sessionId (fun side ↦ some (sessions side)) connection
    side.other
  obtain ⟨sender, receiver, -, -, hdirection⟩ :=
    link_induction (hmatched.flows config)
      (fun _ _ _ hflows hback hok ↦ hflows.sender hback hok)
      (fun _ _ _ hflows _ hok ↦ hflows.receiver hok) hconnection side
  rw [hbytes]
  apply (hqueue.takenInOrder.bytes_isPrefix hsteps hreceived hid hopens).trans
  exact hdirection.isPrefix.trans hwritten.written_isPrefix

/-- The message that announces a session to an application, and one with three bytes. -/
def sampleAnnouncement : Tcp.L7Message :=
  ⟨1, [10, 0, 0, 1], 80, [10, 0, 0, 2], 1000, Tcp.miTcpOpen, []⟩

@[inherit_doc sampleAnnouncement]
def sampleRequest : Tcp.L7Message := ⟨1, [10, 0, 0, 1], 80, [10, 0, 0, 2], 1000, 0, [71, 69, 84]⟩

/-- The TCP server puts both in the queue, and the application takes them. -/
def sampleQueue : List Shm.Operation :=
  let tcpServer : Shm.Identifier := ⟨[116, 99, 112], by decide⟩
  [.send tcpServer (Shm.sampleMessage (wrapped sampleAnnouncement) (by decide +kernel))
      (by decide +kernel) false 5,
    .wait Shm.anyMessage.1 Shm.anyMessage.2,
    .send tcpServer (Shm.sampleMessage (wrapped sampleRequest) (by decide +kernel))
      (by decide +kernel) false 6,
    .wait Shm.anyMessage.1 Shm.anyMessage.2]

/-- The thread of a session gives three bytes, another one and its FIN. -/
def sampleGiven : List L7.Given := [.data [71, 69, 84], .data [32], .fin]

/-- The first two of its messages have come through the queue. -/
def sampleWritten : List Shm.Operation :=
  let client : Shm.Identifier := ⟨[99], by decide⟩
  [.send client (Shm.sampleMessage (L7.sendFuncMessage 1 [71, 69, 84]) (by decide +kernel))
      (by decide +kernel) true 3,
    .wait Shm.anyMessage.1 Shm.anyMessage.2,
    .send client (Shm.sampleMessage (L7.sendFuncMessage 1 [32]) (by decide +kernel))
      (by decide +kernel) true 4,
    .wait Shm.anyMessage.1 Shm.anyMessage.2]

/-- The application has the first three bytes, and its thread takes them. -/
theorem application_reads_prefix_three_bytes :
    let out : Tcp.OutSegment := ⟨[10, 0, 0, 1], [10, 0, 0, 2], 80, 1000, 1000, 100,
      Tcp.flagAck ||| Tcp.flagPsh, 32768, [71, 69, 84]⟩
    let packet := Tcp.decoded out (by decide)
    let connection : List (Side × Tcp.SessionEvent) := [(.near, .write 0 [71, 69, 84]),
      (.near, .visit fun _ ↦ true), (.far, .segment Tcp.sampleEnvironment packet),
      (.near, .write 0 [32])]
    let ends := (run (Tcp.connectionStep (fun _ ↦ Tcp.sampleConfig) fun _ ↦ 1)
      (fun side ↦ .start (some (Tcp.sampleEnds side))) connection).1
    let final := (run (L7.seenStep L7.httpService) (.start, .start) L7.sampleTake).1
    Tcp.writtenIn (ends .near).trace = [71, 69, 84, 32] ∧ final.2.inHand 0 = [71, 69, 84] ∧
      final.2.inHand 0 ++ [] ++ L7.pendingFor 1 final.1.rxThread <+:
        sampleGiven.flatMap L7.Given.bytes := by
  intro out packet connection ends final
  have hpacket : Tcp.decodeSegment out.fromAddr out.toAddr (Tcp.tcpPacket out) = some packet :=
    Tcp.decodeSegment_tcpPacket out rfl rfl (by decide)
  have hconnection : Along (Tcp.connectionStep (fun _ ↦ Tcp.sampleConfig) fun _ ↦ 1)
      Tcp.Transmitted (fun side ↦ .start (some (Tcp.sampleEnds side))) connection :=
    ⟨(by decide : 0 + 3 < 2 ^ 32 - 1), trivial,
      ⟨⟨out, by decide +kernel, hpacket⟩, by decide +kernel⟩,
      by unfold Tcp.Transmitted; decide +kernel, trivial⟩
  have hplain : ∀ event ∈ L7.sampleTake, L7.isPlain event = true := by
    decide +kernel
  have hevents : Along (L7.seenStep L7.httpService) L7.Orderly (.start, .start) L7.sampleTake :=
    Along.of_invariant (I := fun _ ↦ True) trivial (fun _ _ _ _ ↦ trivial)
      (fun state _ _ hevent ↦ L7.orderly_of_isPlain hevent state) (along_of_forall hplain _)
  have hbegin : Shm.beginQueue 300 (fun _ ↦ 0) 0 =
      some ⟨300, 0, 0, (List.range 300).map fun _ ↦ 0⟩ := rfl
  have hqueue : ThroughQueue ⟨300, 0, 0, (List.range 300).map fun _ ↦ 0⟩ sampleQueue 1
      (ends .far).trace final.2.received := by
    have hagrees := (Shm.refines_run (Shm.refines_beginQueue hbegin) sampleQueue).2
    refine ⟨⟨300, _, 0, hbegin⟩, ?_, ⟨sampleAnnouncement, [sampleAnnouncement, sampleRequest],
      by decide, rfl, rfl, ?_, by decide +kernel⟩, ?_⟩
    · intro address filter hmem
      exact (by simpa [sampleQueue, Shm.anyMessage] using hmem : _ ∧ _).2
    · rw [(Shm.appendedIn_eq_putIn hagrees).1]
      decide +kernel
    · rw [Shm.copyData_receivedIn hagrees]
      decide +kernel
  have hwritten : WrittenThroughQueue ⟨300, 0, 0, (List.range 300).map fun _ ↦ 0⟩ sampleWritten 1
      sampleGiven (ends .near).trace := by
    have hagrees := (Shm.refines_run (Shm.refines_beginQueue hbegin) sampleWritten).2
    refine ⟨⟨300, _, 0, hbegin⟩, ?_, ?_, ?_⟩
    · intro address filter hmem
      exact (by simpa [sampleWritten, Shm.anyMessage] using hmem : _ ∧ _).2
    · rw [(Shm.appendedIn_eq_putIn hagrees).1]
      decide +kernel
    · rw [Shm.copyData_receivedIn hagrees]
      decide +kernel
  have hentry : final.1.sessions[(1 : UInt64)]? = some 0 := by
    decide +kernel
  have hread : final.1.heap.read 0 = some ⟨false, false, []⟩ := by
    decide +kernel
  have hgot := application_reads_prefix (fun _ ↦ Tcp.sampleConfig) (fun _ ↦ 1)
    Tcp.matched_sampleEnds hconnection (Eq.refl ends) L7.httpService hevents
    (Prod.mk.eta : (final.1, final.2) = final) .near hwritten hqueue hentry hread
  exact ⟨by decide +kernel, by decide +kernel, hgot⟩

end MyIPNG.Stack
