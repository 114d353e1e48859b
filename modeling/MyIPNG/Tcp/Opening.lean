import MyIPNG.Tcp.ClientHandshake
import MyIPNG.Tcp.Connection

/-!
# A connection from its SYN on

`connection_delivers` begins behind the handshake, with two sessions that expect each other's
numbers. Here the run begins when `run_meta` has put the session of the client in the map: the
server has no session, and the SYN is in the network. The server makes its session when a segment
comes that acknowledges a cookie (`placeStep`), which may be one with data, and the network goes on
to lose, delay, repeat and reorder all that was sent.

A run passes through three stages. The client waits for its SYN/ACK and puts out nothing; the client
is established and all that it puts out begins at its first number, for the server acknowledges
nothing yet; both have a session, and what they put out since then is a connection as in
`connection_delivers`. In the second stage that connection is there already with every session that
the server could make (`Awaited`), so one lemma serves the second and the third stage.

What breaks a connection in the source is left out of the runs: no reset is delivered, and no SYN at
an end whose session is established; and an application writes to an established session only.
-/

set_option autoImplicit false
set_option relaxedAutoImplicit false

namespace MyIPNG.Tcp

open Base Utils

/-! ### Two places -/

/-- One event at the place that the map of sessions has for an id. -/
def placeStep (config : Config) (sessionId : UInt64) :
    Option Session → SessionEvent → Option Session × List Output
  | some session, event => sessionStep config sessionId (some session) event
  | none, .segment environment segment =>
    let result := runInNew config environment sessionId segment
    (result.session, result.outputs)
  | none, _ => (none, [])

/-- A segment does to the map of sessions, at its own id, what the step of the place does. -/
theorem runIn_placeStep (config : Config) (environment : Environment) (segment : Segment)
    (sessions : Sessions) :
    let result := placeStep config (segmentId segment) sessions[segmentId segment]?
      (.segment environment segment)
    (runIn config environment segment sessions).1[segmentId segment]? = result.1 ∧
      (runIn config environment segment sessions).2 = result.2 := by
  intro result
  simp only [result]
  cases hentry : sessions[segmentId segment]? with
  | some session => exact runIn_known config environment segment hentry
  | none => exact runIn_unknown config environment segment hentry

/-- The two places of a connection take their events. -/
def openingStep (config : Side → Config) (sessionId : Side → UInt64) :
    (Side → ConnectionEnd) → Side × SessionEvent → (Side → ConnectionEnd) × List (Side × Output) :=
  linkStep fun side ↦ placeStep (config side) (sessionId side)

/-- A value for each end. -/
def atEnds {α : Type*} (near far : α) : Side → α
  | .near => near
  | .far => far

/-- The session of the client is in the map, and the server has none. -/
def openingEnds (client : Session) : Side → ConnectionEnd :=
  atEnds (.start (some client)) (.start none)

/-- There is a session and it is established. -/
def IsEstablished (state : Option Session) : Prop := state.map Session.state = some .established

instance (state : Option Session) : Decidable (IsEstablished state) :=
  inferInstanceAs (Decidable (_ = _))

/-- The segment is a packet that the other end has sent, the SYN of the client included. -/
def ArrivesAt (syn : OutSegment) (stations : Side → ConnectionEnd) (side : Side)
    (segment : Segment) : Prop :=
  ReadFrom (stations side.other).trace segment ∨
    side = .far ∧ decodeSegment syn.fromAddr syn.toAddr (tcpPacket syn) = some segment

/-- When the payload of the segment is handed over, the acknowledgement can be sent. Without a
session it may be the payload that comes with the end of the handshake. -/
def AckedWhenTaken (environment : Environment) (segment : Segment) (state : Option Session) :
    Prop :=
  handsOver environment segment (state.getD (newSession segment [])) = true →
    environment.ackOk = true

instance (environment : Environment) (segment : Segment) (state : Option Session) :
    Decidable (AckedWhenTaken environment segment state) := inferInstanceAs (Decidable (_ → _))

/-- What can happen to a connection that is being opened. -/
def Admitted (syn : OutSegment) (stations : Side → ConnectionEnd) : Side × SessionEvent → Prop
  | (side, .segment environment segment) => ArrivesAt syn stations side segment ∧
      hasFlag segment.flags flagRst = false ∧
      (hasFlag segment.flags flagSyn = true → ¬ IsEstablished (stations side).state) ∧
      AckedWhenTaken environment segment (stations side).state
  | (side, .write _ what) => IsEstablished (stations side).state ∧
      (writtenIn (stations side).trace).length + what.length < 2 ^ 32 - 1
  | (_, .visit _) => True

/-! ### A server without a session -/

/-- A reset, or a SYN/ACK without data. -/
def IsEarly (out : OutSegment) : Prop :=
  hasFlag out.flags flagRst = true ∨ out.flags = flagSyn ||| flagAck ∧ out.payload = []

/-- The history of a server that has no session. -/
structure Early (trace : Trace) : Prop where
  emitted : ∀ out ∈ emittedIn trace, IsEarly out
  handed : handedIn trace = []
  written : writtenIn trace = []

theorem early_nil : Early [] := ⟨fun _ h ↦ absurd h List.not_mem_nil, rfl, rfl⟩

theorem handedBytes_early {trace : Trace} (h : Early trace) : handedBytes trace = [] := by
  rw [handedBytes, h.handed]
  rfl

theorem Early.append {first second : Trace} (hfirst : Early first) (hsecond : Early second) :
    Early (first ++ second) := by
  refine ⟨fun out hout ↦ ?_, ?_, ?_⟩
  · rw [emittedIn_append] at hout
    exact (List.mem_append.mp hout).elim (hfirst.emitted out) (hsecond.emitted out)
  · rw [handedIn_append, hfirst.handed, hsecond.handed, List.append_nil]
  · rw [writtenIn_append, hfirst.written, hsecond.written, List.append_nil]

/-- A visit without a session. -/
theorem early_visit (accepts : ℕ → Bool) : Early [(.visit accepts, [])] :=
  ⟨fun _ h ↦ absurd h List.not_mem_nil, rfl, rfl⟩

section Unknown

variable {config : Config} {environment : Environment} {sessionId : UInt64} {segment : Segment}

/-- What is sent in answer to a segment has the flags of its header and no data. -/
theorem early_send (accepted : Bool) (seqNr ackNr : UInt32) {flags : UInt8} (windowSize : UInt16)
    (mss : Mss) (hflags : hasFlag flags flagRst = true ∨ flags = flagSyn ||| flagAck) :
    ∀ out ∈ emitted ((sendTcpPacket (fun _ ↦ accepted)
      (replyHeader segment seqNr ackNr flags windowSize) mss).1.map .toIp), IsEarly out := by
  intro out hout
  rw [emitted_map_toIp, sendTcpPacket_empty _ _ _ rfl] at hout
  cases accepted with
  | true =>
    rw [if_pos rfl, List.mem_singleton] at hout
    rw [hout]
    exact hflags.imp_right fun hsame ↦ ⟨hsame, rfl⟩
  | false => exact absurd hout List.not_mem_nil

theorem early_clean_none (invalid invalidWRst invalidIncAck cleanSession : Bool) :
    ∀ out ∈ emitted (clean environment sessionId segment invalid invalidWRst invalidIncAck
      cleanSession none).2, IsEarly out := by
  unfold clean
  by_cases hentered : (invalid || cleanSession) = true
  · rw [if_pos hentered]
    by_cases hreset : (invalid && invalidWRst) = true
    · simp only [hreset, if_true]
      exact early_send _ _ _ _ _ (Or.inl (by decide))
    · simp only [hreset]
      exact fun _ h ↦ absurd h List.not_mem_nil
  · rw [if_neg hentered]
    exact fun _ h ↦ absurd h List.not_mem_nil

/-- A segment that makes no session is answered with a reset, with a SYN/ACK, or not at all, and
nothing of it is handed over. -/
theorem early_runInNew (h : (runInNew config environment sessionId segment).session = none) :
    Early [(.segment environment segment,
      (runInNew config environment sessionId segment).outputs)] := by
  have hother : ∀ shmPeer, ¬ Completes config environment sessionId segment shmPeer := by
    intro shmPeer hcompletes
    rw [session_runInNew_completes hcompletes] at h
    exact absurd h (by simp)
  have hnone : ∀ out ∈ emitted [], IsEarly out := fun _ hout ↦ absurd hout List.not_mem_nil
  refine ⟨?_, ?_, rfl⟩
  · rw [emittedIn_single]
    unfold runInNew
    split_ifs with hrst hsyn hinvalid hack hfin
    · exact early_clean_none _ _ _ _
    · exact early_clean_none _ _ _ _
    · exact early_send _ _ _ _ _ (Or.inr rfl)
    · unfold ackUnknown
      dsimp only
      by_cases hcookie : mySynCookie config sessionId
          (Fin.ofNat 8 ((segment.ackSeqNr - 1) &&& 7).toNat) environment.nowSec ≠
          segment.ackSeqNr - 1
      · rw [if_pos hcookie]
        exact early_send _ _ _ _ _ (Or.inl (by decide))
      · rw [if_neg hcookie]
        cases hmapping : config.mappingsIn segment.destinationPort with
        | none => exact hnone
        | some shmPeer =>
          by_cases hopen : environment.openOk = true
          · refine absurd ⟨hack, ?_, ?_, hfin, not_not.mp hcookie, hmapping, hopen⟩
              (hother shmPeer)
            · simpa using hrst
            · simpa using hsyn
          · simp only [hopen]
            exact early_clean_none _ _ _ _
    · exact hnone
    · exact hnone
  · rw [handedIn, List.flatMap_singleton]
    simp only [(runInNew_other hother).2, List.map_nil]

end Unknown

/-! ### A client and its SYN/ACK -/

/-- A session that waits for its SYN/ACK, with nothing written. -/
structure Waits (client : Session) : Prop where
  isClient : client.isClient = true
  state : client.state = .synSent
  data_eq : client.l7ToTcp.data = []
  inFlight_eq : client.inFlight = 0
  finSent_eq : client.finSent = false
  notEnding : client.l7SendFin = false
  notHalfClosed : client.halfClosed = false

theorem waits_openedSession (fromAddr dstAddr : List UInt8) (srcPort dstPort : UInt16)
    (shmDataAddress : List UInt8) (localSeq : UInt32) :
    Waits (openedSession fromAddr dstAddr srcPort dstPort shmDataAddress localSeq) :=
  ⟨rfl, rfl, rfl, rfl, rfl, rfl, rfl⟩

/-- All that a SYN/ACK does to a session that waits for it. -/
structure Establishing (client next : Session) (outputs : List Output) : Prop where
  established : next.state = .established
  notHalfClosed : next.halfClosed = false
  sending : SameSending client next
  handed : handedPayloads outputs = []
  acks : ∀ out ∈ emitted outputs, (out.payload = [] ∧ out.flags = flagAck) ∧
    out.seqNr = client.localSeq ∧ out.ackNr = next.peerSeq

section Client

variable {environment : Environment} {segment : Segment} {client session : Session}

theorem Waits.visit (h : Waits client) (accepts : ℕ → Bool) :
    senderVisit accepts client = ⟨client, [], false⟩ := by
  have hpayload : visitPayload client = [] := by rw [visitPayload, h.data_eq, List.take_nil]
  have hfin : visitFin client = false := by rw [visitFin, h.notEnding, Bool.and_false]
  rw [senderVisit_eq, if_neg]
  rintro ⟨-, hsome | hends⟩
  · exact hsome hpayload
  · exact absurd (hends.symm.trans hfin) (by simp)

/-- Everything that the data block and the FIN block send has the number `local_seq`. -/
theorem seqNr_processData (environment : Environment) (sessionId : UInt64) {segment : Segment}
    (hreaches : reaches segment = true) (invalidIncAck resend : Bool) (session : Session) :
    ∀ out ∈ emitted
        (processData environment sessionId segment false invalidIncAck resend session).outputs,
      out.seqNr = session.localSeq := by
  have hack : ∀ (accepted : Bool) (current : Session) (ackNr : UInt32),
      current.localSeq = session.localSeq →
      ∀ out ∈ emitted ((sendAck accepted segment current ackNr).1.map .toIp),
        out.seqNr = session.localSeq := by
    intro accepted current ackNr hsame out hout
    rw [emitted_map_toIp, sendAck_eq] at hout
    split_ifs at hout
    · rw [List.mem_singleton.mp hout]
      exact hsame
    · exact absurd hout List.not_mem_nil
  have hkept := (deliverData_effect environment sessionId segment session hreaches).session_eq
  have hnumber : (deliverData environment sessionId segment session).session.localSeq =
      session.localSeq := by rw [hkept]
  have hdata : ∀ out ∈ emitted (deliverData environment sessionId segment session).outputs,
      out.seqNr = session.localSeq := by
    unfold deliverData
    dsimp only
    split_ifs <;> simp only [emitted_append, emitted_cons_toL7, emitted_nil, List.nil_append] <;>
      first
        | exact hack _ _ _ rfl
        | exact fun _ h ↦ absurd h List.not_mem_nil
  have hfin : ∀ out ∈ emitted (handleFin environment segment
      (deliverData environment sessionId segment session).ackedPacket
      (deliverData environment sessionId segment session).session).2,
      out.seqNr = session.localSeq := by
    unfold handleFin
    dsimp only
    split_ifs <;>
      first
        | exact hack _ _ _ hnumber
        | exact fun _ h ↦ absurd h List.not_mem_nil
  obtain ⟨-, hclean, -⟩ := clean_valid environment sessionId segment true invalidIncAck
    (deliverData environment sessionId segment session).cleanSession
    (handleFin environment segment
      (deliverData environment sessionId segment session).ackedPacket
      (deliverData environment sessionId segment session).session).1
  unfold processData
  dsimp only
  rw [if_pos rfl, emitted_append, emitted_append, hclean, List.append_nil]
  exact fun out hout ↦ (List.mem_append.mp hout).elim (hdata out) (hfin out)

/-- A segment that brings nothing leaves the receiving side alone. -/
theorem received_nothing (environment : Environment) (hempty : segment.payload = [])
    (hfin : hasFlag segment.flags flagFin = false) (session : Session) :
    received environment segment session = session := by
  have hnone : acceptedLength environment segment session = 0 := by
    simp [acceptedLength, handsOver, hempty]
  have hnoFin : finLength segment session = 0 := by simp [finLength, hfin]
  rw [received, hnone, hnoFin, hfin, Bool.or_false]
  exact congrArg (fun number ↦ { session with peerSeq := number }) (UInt32.add_zero _)

/-- The SYN/ACK of a server at a session that waits for it. -/
theorem Waits.synAck (h : Waits client) (config : Config) (environment : Environment)
    (sessionId : UInt64) (hflags : segment.flags = flagSyn ||| flagAck)
    (hempty : segment.payload = []) :
    ∃ next outputs, sessionStep config sessionId (some client) (.segment environment segment) =
      (some next, outputs) ∧ Establishing client next outputs := by
  have hsyn : hasFlag segment.flags flagSyn = true := by rw [hflags]; decide
  have hack : hasFlag segment.flags flagAck = true := by rw [hflags]; decide
  have hrst : ¬ hasFlag segment.flags flagRst = true := by rw [hflags]; decide
  have hfin : hasFlag segment.flags flagFin = false := by rw [hflags]; decide
  have hopen : client.state ≠ .closed := by simp [h.state]
  have hreaches : reaches segment = true := by simp [reaches, hack]
  have hclient : (touched environment segment client).isClient = true := h.isClient
  set next := synAcked segment (touched environment segment client) with hnext
  have hsending : SameSending client next :=
    (sameSending_touched environment segment client).trans (sameSending_synAcked segment _)
  have hhalfClosed : next.halfClosed = false := by
    rw [hnext, synAcked]
    split_ifs <;> exact h.notHalfClosed
  have hanswer := synKnown_synAck config environment sessionId segment hclient hack
  have hbody := synKnown_synAck_eq config environment sessionId segment hclient hack
  obtain ⟨hsession, hhanded, hacks⟩ := hanswer
  rw [← hnext, received_nothing environment hempty hfin, or_self] at hsession
  have hrun := runInSession_syn config environment sessionId segment hopen hrst hsyn
  refine ⟨next, _, Prod.ext ?_ rfl, state_synAcked segment _, hhalfClosed, hsending, ?_, ?_⟩
  · show (runInSession config environment sessionId segment client).session = some next
    rw [hrun, hsession]
  · show handedPayloads (runInSession config environment sessionId segment client).outputs = []
    by_contra hsome
    rw [hrun] at hsome
    exact absurd (h.state.symm.trans (hhanded hsome)) (by simp)
  · show ∀ out ∈ emitted (runInSession config environment sessionId segment client).outputs, _
    rw [hrun, hbody, ← hnext, sendAck_eq]
    cases environment.clientAckOk with
    | true =>
      intro out hout
      rcases List.mem_cons.mp hout with rfl | hrest
      · exact ⟨⟨rfl, rfl⟩, hsending.localSeq_eq, rfl⟩
      · have houtputs := (processData_effect environment sessionId segment true false next
          hreaches).2.2
        obtain ⟨hplain, hnumber⟩ := houtputs.acks out hrest
        refine ⟨hplain, ?_, ?_⟩
        · rw [seqNr_processData environment sessionId hreaches true false next out hrest]
          exact hsending.localSeq_eq
        · rcases hnumber with hnumber | ⟨hhands, -⟩ | ⟨⟨hflag, -⟩, -⟩
          · exact hnumber
          · exact absurd hhands (by simp [handsOver, hempty])
          · exact absurd (hflag.symm.trans hfin) (by simp)
    | false =>
      obtain ⟨-, hemitted, -⟩ := clean_valid environment sessionId segment true true true next
      intro out hout
      have hnone : out ∈ ([] : List OutSegment) := hemitted ▸ hout
      exact absurd hnone List.not_mem_nil

end Client

/-! ### Both sessions -/

/-- Both sessions are established, and both directions flow from the given numbers on. -/
def Agree (start : Side → UInt32) (stations : Side → ConnectionEnd) : Prop :=
  ∃ mss, ∀ side, IsEstablished (stations side).state ∧
    Flows start mss side (stations side) (stations side.other)

/-- The place of the client, and that of a server with its history since it has the session. -/
def paired (near : ConnectionEnd) (server : Session) (late : Trace) : Side → ConnectionEnd :=
  atEnds near ⟨some server, late⟩

section Agree

variable {config : Side → Config} {sessionId : Side → UInt64} {start : Side → UInt32}
  {stations : Side → ConnectionEnd} {side : Side} {event : SessionEvent}

/-- An established session stays established. -/
theorem IsEstablished.take {station : ConnectionEnd} (h : IsEstablished station.state)
    (config : Config) (sessionId : UInt64) (hevent : PlainEvent event) :
    IsEstablished (station.take (sessionStep config sessionId) event).state := by
  obtain ⟨session, hsession, hstate⟩ := Option.map_eq_some_iff.mp h
  rw [Station.take, hsession]
  cases event with
  | segment environment segment =>
    have hopen : session.state ≠ .closed := by simp [hstate]
    obtain ⟨next, outputs, hstep, heffect⟩ := segment_effect config environment sessionId hevent
      hopen
    rw [hstep]
    exact congrArg some (heffect.state_eq.trans hstate)
  | write flags what =>
    exact congrArg some ((addFromL7_receiving session flags what).2.2.trans hstate)
  | visit accepts =>
    exact congrArg some ((visit_receiving accepts session).2.2.1.trans hstate)

/-- What reaches an end of a connection has neither SYN nor RST. -/
theorem Agree.plain (h : Agree start stations) (hok : Transmitted stations (side, event)) :
    PlainEvent event := by
  obtain ⟨mss, hboth⟩ := h
  cases event with
  | segment environment segment =>
    have hflows := (hboth side.other).2
    exact hflows.plain hok.1
  | write flags what => trivial
  | visit accepts => trivial

theorem Agree.step (h : Agree start stations) (hok : Transmitted stations (side, event)) :
    Agree start (connectionStep config sessionId stations (side, event)).1 := by
  have hplain := h.plain hok
  obtain ⟨mss, hboth⟩ := h
  have hevents : Along (connectionStep config sessionId) Transmitted stations [(side, event)] :=
    ⟨hok, trivial⟩
  refine ⟨mss, fun at' ↦ ⟨?_, ?_⟩⟩
  · by_cases hside : at' = side
    · rw [hside, connectionStep, linkStep_self]
      exact (hboth side).1.take (config side) (sessionId side) hplain
    · rw [connectionStep, linkStep_other _ hside]
      exact (hboth at').1
  · exact link_induction (fun at' ↦ (hboth at').2)
      (fun _ _ _ hflows hback hok ↦ hflows.sender hback hok)
      (fun _ _ _ hflows _ hok ↦ hflows.receiver hok) hevents at'

end Agree

/-! ### The sessions that a server can make -/

/-- A session that the server could make: it counts from `number` and expects `start`. -/
structure Awaited (start number : UInt32) (server : Session) : Prop where
  fresh : Fresh server
  notHalfClosed : server.halfClosed = false
  peerSeq_eq : server.peerSeq = start
  localSeq_eq : server.localSeq = number

theorem exists_awaited (start number : UInt32) : ∃ server, Awaited start number server :=
  ⟨newSession (sampleSegment start number flagAck [] length_nil_lt) [],
    ⟨rfl, rfl, rfl, rfl⟩, rfl, rfl, rfl⟩

/-- A history in which nothing was put out, handed over or written. -/
structure Unused (trace : Trace) : Prop where
  emitted : emittedIn trace = []
  handed : handedIn trace = []
  written : writtenIn trace = []

section Establishing

variable {client next server : Session} {outputs : List Output} {trace : Trace}

/-- What a SYN/ACK adds to an unused history. -/
theorem Establishing.history (h : Establishing client next outputs) (hunused : Unused trace)
    (environment : Environment) (segment : Segment) :
    let after := trace ++ [(.segment environment segment, outputs)]
    emittedIn after = emitted outputs ∧ writtenIn after = [] ∧ handedBytes after = [] := by
  refine ⟨?_, ?_, ?_⟩
  · rw [emittedIn_append, emittedIn_single, hunused.emitted, List.nil_append]
  · rw [writtenIn_segment, hunused.written]
  · rw [handedBytes, handedIn_append, hunused.handed, List.nil_append, handedIn,
      List.flatMap_singleton]
    simp only [h.handed, List.map_nil, joined_nil]

/-- From the client nothing has come yet but acknowledgements. -/
theorem Establishing.sends (h : Establishing client next outputs) (hwaits : Waits client)
    (hunused : Unused trace) (environment : Environment) (segment : Segment)
    (hserver : Awaited client.localSeq next.peerSeq server) :
    Direction client.localSeq next.mss next server
      (trace ++ [(.segment environment segment, outputs)]) [] := by
  obtain ⟨hemitted, hwritten, -⟩ := h.history hunused environment segment
  have hdata : next.l7ToTcp.data = [] := by rw [h.sending.l7ToTcp_eq, hwaits.data_eq]
  have hfinSent : next.finSent = false := h.sending.finSent_eq.trans hwaits.finSent_eq
  have hacks : ∀ out ∈ emittedIn (trace ++ [(.segment environment segment, outputs)]),
      out.payload = [] ∧ out.flags = flagAck := by
    rw [hemitted]
    exact fun out hout ↦ (h.acks out hout).1
  have hstream : StreamInvariant client.localSeq next.mss next
      (trace ++ [(.segment environment segment, outputs)]) 0 := by
    refine ⟨?_, rfl, Nat.zero_le _, ?_, ?_, ?_, Or.inl rfl, ?_, ?_⟩
    · simp [h.established]
    · rw [hdata, hwritten, List.drop_nil]
    · rw [hfinSent, h.sending.localSeq_eq]
      exact (UInt32.add_zero _).symm
    · rw [h.sending.inFlight_eq, hwaits.inFlight_eq]
      exact Nat.zero_le _
    · exact fun out hout ↦ Or.inl (hacks out hout).1
    · intro out hout hflag
      rw [(hacks out hout).2] at hflag
      exact absurd hflag (by decide)
  refine ⟨?_, ⟨0, hstream, fun _ ↦ Nat.zero_le _⟩, ?_, ?_, ?_, List.nil_prefix, ?_, ?_,
    List.forall_mem_nil _⟩
  · rw [hwritten]
    decide
  · intro out hout
    rw [(hacks out hout).2]
    exact ⟨by decide, by decide⟩
  · exact fun out hout hsome ↦ absurd (hacks out hout).1 hsome
  · simp [hserver.fresh.established]
  · rw [hserver.peerSeq_eq, hserver.notHalfClosed]
    exact (UInt32.add_zero _).symm
  · simp [hserver.notHalfClosed]

/-- From the server nothing has come yet, and the client acknowledges its number. -/
theorem Establishing.receives (h : Establishing client next outputs) (hunused : Unused trace)
    (environment : Environment) (segment : Segment)
    (hserver : Awaited client.localSeq next.peerSeq server) :
    Direction next.peerSeq server.mss server next []
      (trace ++ [(.segment environment segment, outputs)]) := by
  obtain ⟨hemitted, -, hhanded⟩ := h.history hunused environment segment
  have hstream : StreamInvariant next.peerSeq server.mss server [] 0 := by
    refine ⟨?_, rfl, Nat.zero_le _, hserver.fresh.data_eq, ?_, ?_, Or.inl rfl,
      List.forall_mem_nil _, List.forall_mem_nil _⟩
    · simp [hserver.fresh.established]
    · rw [hserver.fresh.finSent_eq, hserver.localSeq_eq]
      exact (UInt32.add_zero _).symm
    · rw [hserver.fresh.inFlight_eq]
      exact Nat.zero_le _
  refine ⟨by decide, ⟨0, hstream, fun _ ↦ Nat.zero_le _⟩, List.forall_mem_nil _,
    List.forall_mem_nil _, ?_, ?_, ?_, ?_, ?_⟩
  · simp [h.established]
  · rw [hhanded]
    exact List.nil_prefix
  · rw [hhanded, h.notHalfClosed]
    exact (UInt32.add_zero _).symm
  · simp [h.notHalfClosed]
  · rw [hemitted]
    intro out hout
    refine Or.inr ⟨0, Nat.zero_le _, (h.acks out hout).2.2.trans ?_⟩
    exact (UInt32.add_zero _).symm

/-- The client that has got its SYN/ACK agrees with every session that the server could make. -/
theorem Establishing.agree (h : Establishing client next outputs) (hwaits : Waits client)
    (hunused : Unused trace) (environment : Environment) (segment : Segment)
    (hserver : Awaited client.localSeq next.peerSeq server) :
    Agree (atEnds client.localSeq next.peerSeq)
      (paired ⟨some next, trace ++ [(.segment environment segment, outputs)]⟩ server []) := by
  refine ⟨atEnds next.mss server.mss, ?_⟩
  rintro (_ | _)
  · exact ⟨congrArg some h.established, next, server, rfl, rfl,
      h.sends hwaits hunused environment segment hserver⟩
  · exact ⟨congrArg some hserver.fresh.established, server, next, rfl, rfl,
      h.receives hunused environment segment hserver⟩

end Establishing

/-! ### The end of the handshake -/

section Completion

variable {config : Config} {environment : Environment} {sessionId : UInt64} {segment : Segment}
  {start number : UInt32} {near : ConnectionEnd}

/-- The segment that makes the session is, for the stream, one at the session that is made. -/
theorem completes_effect {shmPeer : List UInt8}
    (h : Completes config environment sessionId segment shmPeer) :
    SegmentEffect environment segment (newSession segment shmPeer)
      (received environment segment (newSession segment shmPeer))
      (runInNew config environment sessionId segment).outputs := by
  have hreaches : reaches segment = true := by simp [reaches, h.ack]
  obtain ⟨-, -, houtputs⟩ := processData_effect environment sessionId segment false false
    (newSession segment shmPeer) hreaches
  have hsending : SameSending (afterAck segment (newSession segment shmPeer)).1
      (newSession segment shmPeer) := by
    -- nothing is in flight, and the number is that of the session
    have hself : offset segment.ackSeqNr segment.ackSeqNr = 0 := by simp [offset]
    rw [afterAck, if_pos h.ack]
    rcases ackPending_cases (newSession segment shmPeer) segment.ackSeqNr with
      ⟨-, -, heq⟩ | ⟨-, hahead, -⟩ | ⟨hnot, -⟩
    · rw [heq]
      have hforget : (newSession segment shmPeer).l7ToTcp =
          (newSession segment shmPeer).l7ToTcp.forget
            (offset (newSession segment shmPeer).localSeq segment.ackSeqNr) := by
        show _ = TcpData.forget ⟨0, []⟩ (offset segment.ackSeqNr segment.ackSeqNr)
        rw [hself]
        rfl
      exact ⟨rfl, hforget, rfl, rfl, rfl, rfl⟩
    · exact absurd (hahead.trans_eq hself) (Nat.not_lt_zero _)
    · exact absurd UInt32.le_rfl hnot
  refine ⟨rfl, rfl, rfl, hsending.trans (sameSending_received environment segment _), ?_⟩
  rw [runInNew_completes h]
  exact ⟨houtputs.handed_eq, houtputs.acks⟩

/-- All that the client has put out acknowledges the number of the server. -/
theorem ackNr_of_awaits
    (hawaits : ∀ server, Awaited start number server →
      Agree (atEnds start number) (paired near server [])) :
    ∀ out ∈ emittedIn near.trace, out.ackNr = number := by
  intro out hout
  obtain ⟨server, hawaited⟩ := exists_awaited start number
  obtain ⟨mss, hboth⟩ := hawaits server hawaited
  obtain ⟨_, client, hserver, -, hdirection⟩ := (hboth .far).2
  obtain rfl := Option.some.inj hserver
  obtain ⟨count, hcount, hnumber⟩ := (hdirection.acks out hout).resolve_left
    (by rw [hawaited.fresh.finSent_eq]; exact Bool.false_ne_true)
  have hnone : (handedBytes near.trace).length = 0 :=
    Nat.le_zero.mp hdirection.isPrefix.length_le
  obtain rfl : count = 0 := Nat.le_zero.mp (hcount.trans_eq hnone)
  exact hnumber.trans (UInt32.add_zero _)

/-- A segment of the client makes a session that agrees with it. -/
theorem Completes.agree {shmPeer : List UInt8}
    (h : Completes config environment sessionId segment shmPeer)
    (hawaits : ∀ server, Awaited start number server →
      Agree (atEnds start number) (paired near server []))
    (hnumbers : ∀ out ∈ emittedIn near.trace, out.seqNr = start)
    (hread : ReadFrom near.trace segment) (hacked : AckedWhenTaken environment segment none) :
    Agree (atEnds start number)
      (paired near (received environment segment (newSession segment shmPeer))
        [(.segment environment segment, (runInNew config environment sessionId segment).outputs)])
      := by
  have heffect := completes_effect h
  have hawaited : Awaited start number (newSession segment shmPeer) := by
    obtain ⟨out, hout, hdecoded⟩ := hread
    obtain ⟨hseqNr, hackNr, -, -⟩ := decodeSegment_fields hdecoded
    refine ⟨⟨rfl, rfl, rfl, rfl⟩, rfl, hseqNr.trans (hnumbers out hout), ?_⟩
    exact hackNr.trans (ackNr_of_awaits hawaits out hout)
  obtain ⟨mss, hboth⟩ := hawaits _ hawaited
  obtain ⟨hclient, client, _, hnear, hmade, hsends⟩ := hboth .near
  obtain ⟨-, _, _, hmade', hnear', hreceives⟩ := hboth .far
  obtain rfl := Option.some.inj hmade
  obtain rfl := Option.some.inj hmade'
  obtain rfl := Option.some.inj (hnear.symm.trans hnear')
  refine ⟨mss, ?_⟩
  rintro (_ | _)
  · exact ⟨hclient, client, _, hnear, rfl, hsends.receiver_segment heffect hread hacked⟩
  · exact ⟨rfl, _, client, rfl, hnear, hreceives.sender_segment heffect hread⟩

end Completion

/-! ### The stages of an opening -/

/-- How far an opening has come. -/
inductive Stage (client : Session) (stations : Side → ConnectionEnd) : Prop
  | waiting (hnear : (stations .near).state = some client)
      (hunused : Unused (stations .near).trace) (hfar : (stations .far).state = none)
      (hearly : Early (stations .far).trace) : Stage client stations
  | answered (number : UInt32) (hnear : IsEstablished (stations .near).state)
      (hnumbers : ∀ out ∈ emittedIn (stations .near).trace, out.seqNr = client.localSeq)
      (hawaits : ∀ server, Awaited client.localSeq number server →
        Agree (atEnds client.localSeq number) (paired (stations .near) server []))
      (hfar : (stations .far).state = none) (hearly : Early (stations .far).trace) :
      Stage client stations
  | opened (number : UInt32) (server : Session) (early late : Trace)
      (hfar : stations .far = ⟨some server, early ++ late⟩) (hearly : Early early)
      (hagree : Agree (atEnds client.localSeq number) (paired (stations .near) server late)) :
      Stage client stations

section Stages

variable {config : Side → Config} {sessionId : Side → UInt64} {syn : OutSegment}
  {stations : Side → ConnectionEnd} {client : Session} {segment : Segment} {event : SessionEvent}

theorem take_placeStep {station : ConnectionEnd} {session : Session}
    (h : station.state = some session) (config : Config) (sessionId : UInt64)
    (event : SessionEvent) :
    station.take (placeStep config sessionId) event =
      station.take (sessionStep config sessionId) event := by
  rw [Station.take, Station.take, h]
  rfl

/-- A packet of a server without a session is a SYN/ACK, when it is no reset. -/
theorem Early.read {trace : Trace} (h : Early trace) (hread : ReadFrom trace segment)
    (hrst : hasFlag segment.flags flagRst = false) :
    segment.flags = flagSyn ||| flagAck ∧ segment.payload = [] := by
  obtain ⟨out, hout, hdecoded⟩ := hread
  obtain ⟨-, -, hflags, hpayload⟩ := decodeSegment_fields hdecoded
  rcases h.emitted out hout with hreset | ⟨hsynAck, hempty⟩
  · rw [hflags, hreset] at hrst
    exact absurd hrst (by simp)
  · exact ⟨hflags.trans hsynAck, hpayload.trans hempty⟩

/-- A packet without SYN and RST was put out with a session. -/
theorem ReadFrom.late {early late : Trace} (hearly : Early early)
    (hread : ReadFrom (early ++ late) segment) (hplain : Plain segment) :
    ReadFrom late segment := by
  obtain ⟨out, hout, hdecoded⟩ := hread
  rw [emittedIn_append] at hout
  rcases List.mem_append.mp hout with hbefore | hbehind
  · have hsynAck := (hearly.read ⟨out, hbefore, hdecoded⟩ hplain.2).1
    have hsyn := hplain.1
    rw [hsynAck] at hsyn
    exact absurd hsyn (by decide)
  · exact ⟨out, hbehind, hdecoded⟩

/-- The client waits, and something happens at its end. -/
theorem stage_waiting_near (hwaits : Waits client)
    (hnear : (stations .near).state = some client) (hunused : Unused (stations .near).trace)
    (hfar : (stations .far).state = none) (hearly : Early (stations .far).trace)
    (hok : Admitted syn stations (.near, event)) :
    Stage client (openingStep config sessionId stations (.near, event)).1 := by
  have hself : (openingStep config sessionId stations (.near, event)).1 .near =
      (stations .near).take (sessionStep (config .near) (sessionId .near)) event := by
    rw [openingStep, linkStep_self, take_placeStep hnear]
  have hother : (openingStep config sessionId stations (.near, event)).1 .far = stations .far :=
    linkStep_other _ (by decide) _
  cases event with
  | segment environment segment =>
    obtain ⟨hread | ⟨hwrong, -⟩, hrst, -, -⟩ := hok
    · obtain ⟨hflags, hempty⟩ := hearly.read hread hrst
      obtain ⟨next, outputs, hstep, hestablishing⟩ := hwaits.synAck (config .near) environment
        (sessionId .near) hflags hempty
      have hafter : (openingStep config sessionId stations
          (.near, .segment environment segment)).1 .near =
          ⟨some next, (stations .near).trace ++ [(.segment environment segment, outputs)]⟩ := by
        rw [hself, Station.take, hnear, hstep]
      refine .answered next.peerSeq ?_ ?_ ?_ (by rw [hother, hfar]) (by rwa [hother])
      · rw [hafter]
        exact congrArg some hestablishing.established
      · rw [hafter, (hestablishing.history hunused environment segment).1]
        exact fun out hout ↦ (hestablishing.acks out hout).2.1
      · rw [hafter]
        exact fun server hserver ↦
          hestablishing.agree hwaits hunused environment segment hserver
    · exact absurd hwrong (by decide)
  | write flags what =>
    have hestablished := hok.1
    rw [hnear] at hestablished
    exact absurd (hwaits.state.symm.trans (Option.some.inj hestablished)) (by decide)
  | visit accepts =>
    have hafter : (openingStep config sessionId stations (.near, .visit accepts)).1 .near =
        ⟨some client, (stations .near).trace ++ [(.visit accepts, [])]⟩ := by
      rw [hself, Station.take, hnear, sessionStep, hwaits.visit]
    refine .waiting (by rw [hafter]) ?_ (by rw [hother, hfar]) (by rwa [hother])
    rw [hafter]
    refine ⟨?_, ?_, ?_⟩
    · rw [emittedIn_append, hunused.emitted]
      rfl
    · rw [handedIn_append, hunused.handed]
      rfl
    · rw [writtenIn_visit, hunused.written]

/-- The place of the server, which has no session, takes an event that makes none. -/
theorem far_stays_early (hfar : (stations .far).state = none)
    (hearly : Early (stations .far).trace) (hok : Admitted syn stations (.far, event))
    (hnone : ∀ environment segment, event = .segment environment segment →
      (runInNew (config .far) environment (sessionId .far) segment).session = none) :
    let after := (openingStep config sessionId stations (.far, event)).1 .far
    after.state = none ∧ Early after.trace := by
  intro after
  have hself : after = (stations .far).take (placeStep (config .far) (sessionId .far)) event :=
    linkStep_self _ _ _
  rw [hself, Station.take, hfar]
  cases event with
  | segment environment segment =>
    have hmade := hnone environment segment rfl
    exact ⟨hmade, hearly.append (early_runInNew hmade)⟩
  | write flags what =>
    have hestablished := hok.1
    rw [hfar] at hestablished
    exact absurd hestablished (by decide)
  | visit accepts => exact ⟨rfl, hearly.append (early_visit accepts)⟩

/-- The SYN of the client makes no session. -/
theorem syn_makes_none (hsyn : syn.flags = flagSyn)
    (hread : decodeSegment syn.fromAddr syn.toAddr (tcpPacket syn) = some segment)
    (config : Config) (environment : Environment) (sessionId : UInt64) :
    (runInNew config environment sessionId segment).session = none := by
  obtain ⟨-, -, hflags, -⟩ := decodeSegment_fields hread
  by_contra hsome
  obtain ⟨session, hsession⟩ := Option.ne_none_iff_exists'.mp hsome
  obtain ⟨shmPeer, hcompletes, -⟩ := completes_of_session hsession
  have hnot := hcompletes.syn
  rw [hflags, hsyn] at hnot
  exact absurd hnot (by decide)

/-- The client waits, and something happens at the end of the server. -/
theorem stage_waiting_far (hsyn : syn.flags = flagSyn)
    (hnear : (stations .near).state = some client) (hunused : Unused (stations .near).trace)
    (hfar : (stations .far).state = none) (hearly : Early (stations .far).trace)
    (hok : Admitted syn stations (.far, event)) :
    Stage client (openingStep config sessionId stations (.far, event)).1 := by
  have hother : (openingStep config sessionId stations (.far, event)).1 .near = stations .near :=
    linkStep_other _ (by decide) _
  obtain ⟨hstays, hstaysEarly⟩ := @far_stays_early config sessionId _ _ _ hfar hearly hok (by
      rintro environment segment rfl
      rcases hok.1 with ⟨out, hout, -⟩ | ⟨-, hread⟩
      · have hout' : out ∈ emittedIn (stations .near).trace := hout
        rw [hunused.emitted] at hout'
        exact absurd hout' List.not_mem_nil
      · exact syn_makes_none hsyn hread _ _ _)
  exact .waiting (by rw [hother, hnear]) (by rwa [hother]) hstays hstaysEarly

/-- Before the server has acknowledged anything, the client counts from its first number. -/
theorem localSeq_of_awaits {start number : UInt32} {near : ConnectionEnd} {current : Session}
    (hawaits : ∀ server, Awaited start number server →
      Agree (atEnds start number) (paired near server []))
    (hnear : near.state = some current) (hfinSent : current.finSent = false) :
    current.localSeq = start := by
  obtain ⟨server, hawaited⟩ := exists_awaited start number
  obtain ⟨mss, hboth⟩ := hawaits server hawaited
  obtain ⟨_, _, hsame, -, hdirection⟩ := (hboth .near).2
  obtain rfl := Option.some.inj (hsame.symm.trans hnear)
  obtain ⟨dropped, hstream, hdropped⟩ := hdirection.stream
  obtain rfl : dropped = 0 := Nat.le_zero.mp (hdropped hfinSent)
  have hnumber := hstream.localSeq_eq
  rw [hfinSent] at hnumber
  exact hnumber.trans (UInt32.add_zero _)

/-- An event of the client, seen from the connection. -/
theorem paired_near (near : ConnectionEnd) (server : Session) (late : Trace)
    (event : SessionEvent) :
    (connectionStep config sessionId (paired near server late) (.near, event)).1 =
      paired (near.take (sessionStep (config .near) (sessionId .near)) event) server late := by
  funext side
  cases side with
  | near => exact linkStep_self _ _ _
  | far => exact linkStep_other _ (by decide) _

/-- The client is established, and something happens at its end. -/
theorem stage_answered_near {number : UInt32} (hnear : IsEstablished (stations .near).state)
    (hnumbers : ∀ out ∈ emittedIn (stations .near).trace, out.seqNr = client.localSeq)
    (hawaits : ∀ server, Awaited client.localSeq number server →
      Agree (atEnds client.localSeq number) (paired (stations .near) server []))
    (hfar : (stations .far).state = none) (hearly : Early (stations .far).trace)
    (hok : Admitted syn stations (.near, event)) :
    Stage client (openingStep config sessionId stations (.near, event)).1 := by
  obtain ⟨current, hcurrent, -⟩ := Option.map_eq_some_iff.mp hnear
  have hself : (openingStep config sessionId stations (.near, event)).1 .near =
      (stations .near).take (sessionStep (config .near) (sessionId .near)) event := by
    rw [openingStep, linkStep_self, take_placeStep hcurrent]
  have hother : (openingStep config sessionId stations (.near, event)).1 .far = stations .far :=
    linkStep_other _ (by decide) _
  -- of the server there are only SYN/ACKs and resets, and neither may come any more
  have hnone : ∀ environment segment, event ≠ .segment environment segment := by
    rintro environment segment rfl
    obtain ⟨hread | ⟨hwrong, -⟩, hrst, hsyn, -⟩ := hok
    · have hflags := (hearly.read hread hrst).1
      exact absurd hnear (hsyn (by rw [hflags]; decide))
    · exact absurd hwrong (by decide)
  have hplain : PlainEvent event := by
    cases event with
    | segment environment segment => exact absurd rfl (hnone environment segment)
    | write flags what => trivial
    | visit accepts => trivial
  have hquiet : ∀ server, Transmitted (paired (stations .near) server []) (.near, event) := by
    cases event with
    | segment environment segment => exact absurd rfl (hnone environment segment)
    | write flags what => exact fun _ ↦ hok.2
    | visit accepts => exact fun _ ↦ trivial
  refine .answered number ?_ ?_ ?_ (by rw [hother, hfar]) (by rwa [hother])
  · rw [hself]
    exact hnear.take (config .near) (sessionId .near) hplain
  · rw [hself]
    show ∀ out ∈ emittedIn ((stations .near).trace ++ [(event, _)]), _
    rw [emittedIn_append, emittedIn_single]
    intro out hout
    rcases List.mem_append.mp hout with hbefore | hnow
    · exact hnumbers out hbefore
    · rw [hcurrent] at hnow
      cases event with
      | segment environment segment => exact absurd rfl (hnone environment segment)
      | write flags what => exact absurd hnow List.not_mem_nil
      | visit accepts =>
        obtain ⟨⟨⟨-, hfinSent⟩, -⟩, rfl⟩ := emitted_senderVisit hnow
        exact localSeq_of_awaits hawaits hcurrent hfinSent
  · intro server hserver
    have hstep := @Agree.step config sessionId _ _ _ _ (hawaits server hserver) (hquiet server)
    rwa [paired_near, ← hself] at hstep

/-- The client is established, and something happens at the end of the server: it goes on without a
session, or it makes one that agrees with the client. -/
theorem stage_answered_far {number : UInt32} (hsyn : syn.flags = flagSyn)
    (hnear : IsEstablished (stations .near).state)
    (hnumbers : ∀ out ∈ emittedIn (stations .near).trace, out.seqNr = client.localSeq)
    (hawaits : ∀ server, Awaited client.localSeq number server →
      Agree (atEnds client.localSeq number) (paired (stations .near) server []))
    (hfar : (stations .far).state = none) (hearly : Early (stations .far).trace)
    (hok : Admitted syn stations (.far, event)) :
    Stage client (openingStep config sessionId stations (.far, event)).1 := by
  have hother : (openingStep config sessionId stations (.far, event)).1 .near = stations .near :=
    linkStep_other _ (by decide) _
  by_cases hmakes : ∃ environment segment session, event = .segment environment segment ∧
      (runInNew (config .far) environment (sessionId .far) segment).session = some session
  · obtain ⟨environment, segment, session, rfl, hmade⟩ := hmakes
    obtain ⟨shmPeer, hcompletes, hsession⟩ := completes_of_session hmade
    obtain ⟨harrives, -, -, hacked⟩ := hok
    have hread : ReadFrom (stations .near).trace segment := by
      refine harrives.resolve_right fun hwrong ↦ ?_
      rw [syn_makes_none hsyn hwrong.2] at hmade
      exact absurd hmade (by simp)
    rw [hfar] at hacked
    refine .opened number session (stations .far).trace [(.segment environment segment,
      (runInNew (config .far) environment (sessionId .far) segment).outputs)] ?_ hearly ?_
    · rw [openingStep, linkStep_self, Station.take, hfar]
      exact congrArg (fun state ↦ (⟨state, _⟩ : ConnectionEnd)) hmade
    · rw [hother, hsession]
      exact hcompletes.agree hawaits hnumbers hread hacked
  · obtain ⟨hstays, hstaysEarly⟩ := @far_stays_early config sessionId _ _ _ hfar hearly hok (by
        rintro environment segment rfl
        by_contra hsome
        obtain ⟨session, hmade⟩ := Option.ne_none_iff_exists'.mp hsome
        exact hmakes ⟨environment, segment, session, rfl, hmade⟩)
    exact .answered number (by rwa [hother]) (by rwa [hother]) (by rwa [hother]) hstays hstaysEarly

/-- Both have a session, and something happens at one of the ends. -/
theorem stage_opened {number : UInt32} {server : Session} {early late : Trace} {side : Side}
    (hfar : stations .far = ⟨some server, early ++ late⟩) (hearly : Early early)
    (hagree : Agree (atEnds client.localSeq number) (paired (stations .near) server late))
    (hok : Transmitted (paired (stations .near) server late) (side, event)) :
    Stage client (openingStep config sessionId stations (side, event)).1 := by
  have hstep := @Agree.step config sessionId _ _ _ _ hagree hok
  cases side with
  | near =>
    obtain ⟨mss, hboth⟩ := hagree
    have hnear : IsEstablished (stations .near).state := (hboth .near).1
    obtain ⟨current, hcurrent, -⟩ := Option.map_eq_some_iff.mp hnear
    rw [paired_near] at hstep
    refine .opened number server early late ?_ hearly ?_
    · rw [openingStep, linkStep_other _ (by decide), hfar]
    · rwa [openingStep, linkStep_self, take_placeStep hcurrent]
  | far =>
    obtain ⟨mss, hboth⟩ := hstep
    have hserver := (hboth .far).1
    rw [connectionStep, linkStep_self] at hserver
    obtain ⟨next, hnext, -⟩ := Option.map_eq_some_iff.mp hserver
    have hafter : (connectionStep config sessionId (paired (stations .near) server late)
        (.far, event)).1 = paired (stations .near) next (late ++
          [(event, (sessionStep (config .far) (sessionId .far) (some server) event).2)]) := by
      funext side
      cases side with
      | near => exact linkStep_other _ (by decide) _
      | far =>
        rw [connectionStep, linkStep_self]
        exact congrArg (fun state ↦ (⟨state, _⟩ : ConnectionEnd)) hnext
    rw [hafter] at hboth
    refine .opened number next early (late ++ [(event, (sessionStep (config .far) (sessionId .far)
      (some server) event).2)]) ?_ hearly ?_
    · rw [openingStep, linkStep_self, hfar, ← List.append_assoc]
      exact congrArg (fun state ↦ (⟨state, _⟩ : ConnectionEnd)) hnext
    · rw [openingStep, linkStep_other _ (by decide)]
      exact ⟨mss, hboth⟩

/-- What is admitted of a connection with both sessions is transmitted between them. -/
theorem transmitted_of_admitted (hsyn : syn.flags = flagSyn) {start : Side → UInt32}
    {server : Session} {early late : Trace} {side : Side}
    (hfar : stations .far = ⟨some server, early ++ late⟩) (hearly : Early early)
    (hagree : Agree start (paired (stations .near) server late))
    (hok : Admitted syn stations (side, event)) :
    Transmitted (paired (stations .near) server late) (side, event) := by
  obtain ⟨mss, hboth⟩ := hagree
  have hestablished : ∀ side, IsEstablished (stations side).state := by
    intro side
    cases side with
    | near => exact (hboth .near).1
    | far => rw [hfar]; exact (hboth .far).1
  cases event with
  | segment environment segment =>
    obtain ⟨harrives, hrst, hnotSyn, hacked⟩ := hok
    have hplain : Plain segment := by
      refine ⟨?_, hrst⟩
      by_contra hflag
      exact hnotSyn (by simpa using hflag) (hestablished side)
    have hread : ReadFrom (stations side.other).trace segment := by
      refine harrives.resolve_right fun hwrong ↦ ?_
      obtain ⟨-, -, hflags, -⟩ := decodeSegment_fields hwrong.2
      have hflag := hplain.1
      rw [hflags, hsyn] at hflag
      exact absurd hflag (by decide)
    cases side with
    | near =>
      obtain ⟨current, hcurrent, -⟩ := Option.map_eq_some_iff.mp (hestablished .near)
      have hsent : (stations .far).trace = early ++ late := by rw [hfar]
      refine ⟨ReadFrom.late hearly (hsent ▸ hread) hplain, ?_⟩
      show AckedWhenHanded (stations .near).state _
      rw [hcurrent] at hacked ⊢
      exact hacked
    | far =>
      refine ⟨hread, ?_⟩
      rw [hfar] at hacked
      exact hacked
  | write flags what =>
    have hshort := hok.2
    cases side with
    | near => exact hshort
    | far =>
      rw [hfar, writtenIn_append, hearly.written, List.nil_append] at hshort
      exact hshort
  | visit accepts => trivial

/-- The step lemma: every event leads from a stage to a stage. -/
theorem Stage.step (hsyn : syn.flags = flagSyn) (hwaits : Waits client)
    (h : Stage client stations) {side : Side} (hok : Admitted syn stations (side, event)) :
    Stage client (openingStep config sessionId stations (side, event)).1 := by
  cases h with
  | waiting hnear hunused hfar hearly =>
    cases side with
    | near => exact stage_waiting_near hwaits hnear hunused hfar hearly hok
    | far => exact stage_waiting_far hsyn hnear hunused hfar hearly hok
  | answered number hnear hnumbers hawaits hfar hearly =>
    cases side with
    | near => exact stage_answered_near hnear hnumbers hawaits hfar hearly hok
    | far => exact stage_answered_far hsyn hnear hnumbers hawaits hfar hearly hok
  | opened number server early late hfar hearly hagree =>
    exact stage_opened hfar hearly hagree
      (transmitted_of_admitted hsyn hfar hearly hagree hok)

/-- The run lemma: the connection is at some stage behind every run. -/
theorem stage_run (hsyn : syn.flags = flagSyn) (hwaits : Waits client)
    {events : List (Side × SessionEvent)}
    (hevents : Along (openingStep config sessionId) (Admitted syn) (openingEnds client) events) :
    Stage client (run (openingStep config sessionId) (openingEnds client) events).1 :=
  run_induction (P := fun _ stations _ ↦ Stage client stations)
    (.waiting rfl ⟨rfl, rfl, rfl⟩ rfl early_nil)
    (fun _ _ _ _ hstage hok ↦ hstage.step hsyn hwaits hok) hevents

end Stages

/-! ### Every run -/

/-- What is handed over is a beginning of what was written, and the rest is in the buffer of the
sender as long as that has not sent its FIN. -/
def Conveys (sending receiving : ConnectionEnd) : Prop :=
  handedBytes receiving.trace <+: writtenIn sending.trace ∧
    ∀ sender, sending.state = some sender → sender.finSent = false →
      ∃ left, writtenIn sending.trace = handedBytes receiving.trace ++ left ∧
        left <:+ sender.l7ToTcp.data

theorem Flows.conveys {start : Side → UInt32} {mss : Side → Mss} {side : Side}
    {sending receiving : ConnectionEnd} (h : Flows start mss side sending receiving) :
    Conveys sending receiving := by
  obtain ⟨sender, receiver, hsender, -, hdirection⟩ := h
  refine ⟨hdirection.isPrefix, fun current hcurrent hnotFin ↦ ?_⟩
  obtain rfl := Option.some.inj (hsender.symm.trans hcurrent)
  obtain ⟨dropped, hstream, hdropped⟩ := hdirection.stream
  obtain ⟨left, hleft⟩ := hdirection.isPrefix
  refine ⟨left, hleft.symm, ?_⟩
  have hdata := hstream.data_eq
  rw [← hleft, List.drop_append_of_le_length (hdropped hnotFin)] at hdata
  rw [hdata]
  exact List.suffix_append _ _

/-- At every stage, what is handed over is what was written. -/
theorem Stage.conveys {client : Session} {stations : Side → ConnectionEnd}
    (h : Stage client stations) (side : Side) :
    Conveys (stations side) (stations side.other) := by
  cases h with
  | waiting hnear hunused hfar hearly =>
    have hnear' : handedBytes (stations .near).trace = [] := by
      rw [handedBytes, hunused.handed]
      rfl
    have hfar' := handedBytes_early hearly
    cases side with
    | near =>
      rw [Conveys, Side.other, hfar', hunused.written]
      exact ⟨List.nil_prefix, fun _ _ _ ↦ ⟨[], rfl, List.nil_suffix⟩⟩
    | far =>
      rw [Conveys, Side.other, hnear', hearly.written]
      exact ⟨List.nil_prefix, fun _ _ _ ↦ ⟨[], rfl, List.nil_suffix⟩⟩
  | answered number hnear hnumbers hawaits hfar hearly =>
    obtain ⟨server, hawaited⟩ := exists_awaited client.localSeq number
    obtain ⟨mss, hboth⟩ := hawaits server hawaited
    cases side with
    | near =>
      have hconveys := (hboth .near).2.conveys
      rw [Conveys, Side.other, handedBytes_early hearly]
      exact hconveys
    | far =>
      have hconveys := (hboth .far).2.conveys
      refine ⟨?_, fun _ hsender _ ↦ absurd (hfar.symm.trans hsender) (by simp)⟩
      rw [hearly.written]
      exact hconveys.1
  | opened number server early late hfar hearly hagree =>
    obtain ⟨mss, hboth⟩ := hagree
    have hconveys := (hboth side).2.conveys
    cases side with
    | near =>
      rw [Conveys, Side.other, hfar, handedBytes_append, handedBytes_early hearly, List.nil_append]
      exact hconveys
    | far =>
      rw [Conveys, Side.other, hfar, writtenIn_append, hearly.written, List.nil_append]
      exact hconveys

/-- A connection from its SYN on. Assumes: the session of a client behind its open, its SYN in the
network, a server without a session, and a network that delivers only what was sent; no reset is
delivered and no SYN at an established session, acknowledgements are not refused for a payload that
was handed over, and each application writes less than the sequence space, to an established
session. Then a server has a session only if both sessions are established; what each application
has got is a prefix of what the other one wrote, and until a sender has sent its FIN the rest is in
its buffer. -/
theorem connection_delivers_from_syn (config : Side → Config) (sessionId : Side → UInt64)
    (fromAddr dstAddr : List UInt8) (srcPort dstPort : UInt16) (shmDataAddress : List UInt8)
    (localSeq : UInt32) {events : List (Side × SessionEvent)}
    (hevents : Along (openingStep config sessionId)
      (Admitted (metaHeader
        (openSession fromAddr dstAddr srcPort dstPort shmDataAddress localSeq) flagSyn))
      (openingEnds (openedSession fromAddr dstAddr srcPort dstPort shmDataAddress localSeq))
      events) :
    let final := (run (openingStep config sessionId)
      (openingEnds (openedSession fromAddr dstAddr srcPort dstPort shmDataAddress localSeq))
      events).1
    ((final .far).state ≠ none → ∀ side, IsEstablished (final side).state) ∧
      ∀ side, Conveys (final side) (final side.other) := by
  intro final
  have hstage := stage_run rfl
    (waits_openedSession fromAddr dstAddr srcPort dstPort shmDataAddress localSeq) hevents
  refine ⟨fun hsome ↦ ?_, hstage.conveys⟩
  cases hstage with
  | waiting hnear hunused hfar hearly => exact absurd hfar hsome
  | answered number hnear hnumbers hawaits hfar hearly => exact absurd hfar hsome
  | opened number server early late hfar hearly hagree =>
    obtain ⟨mss, hboth⟩ := hagree
    intro side
    cases side with
    | near => exact (hboth .near).1
    | far => exact (congrArg (fun station ↦ IsEstablished station.state) hfar).mpr (hboth .far).1

/-- The SYN of the sample client. -/
def sampleFirstSyn : OutSegment :=
  metaHeader (openSession [10, 0, 0, 1] [10, 0, 0, 2] 40000 80 [104] 100) flagSyn

/-- The handshake and three bytes behind it. -/
theorem connection_delivers_from_syn_three_bytes :
    let syn := decoded sampleFirstSyn (by decide)
    let synAck := replyHeader syn (mySynCookie sampleConfig 0 1 0) 101 (flagSyn ||| flagAck)
      initialLocalWindowSize
    let ack := replyHeader (decoded synAck (by decide)) 101 (synAck.seqNr + 1) flagAck
      initialLocalWindowSize
    let data : OutSegment :=
      { ack with flags := flagAck ||| flagPsh, payload := [1, 2, 3] }
    let events : List (Side × SessionEvent) := [(.far, .segment sampleEnvironment syn),
      (.near, .segment sampleEnvironment (decoded synAck (by decide))),
      (.far, .segment sampleEnvironment (decoded ack (by decide))),
      (.near, .write 0 [1, 2, 3]), (.near, .visit fun _ ↦ true),
      (.far, .segment sampleEnvironment (decoded data (by decide)))]
    let final := (run (openingStep (fun _ ↦ sampleConfig) fun _ ↦ 0) (openingEnds sampleOpened)
      events).1
    handedBytes (final .far).trace = [1, 2, 3] ∧ ∀ side, IsEstablished (final side).state := by
  intro syn synAck ack data events final
  have hsyn : decodeSegment sampleFirstSyn.fromAddr sampleFirstSyn.toAddr
      (tcpPacket sampleFirstSyn) = some syn :=
    decodeSegment_tcpPacket sampleFirstSyn rfl rfl (by decide)
  have hsynAck : decodeSegment synAck.fromAddr synAck.toAddr (tcpPacket synAck) =
      some (decoded synAck (by decide)) := decodeSegment_tcpPacket synAck rfl rfl (by decide)
  have hack : decodeSegment ack.fromAddr ack.toAddr (tcpPacket ack) =
      some (decoded ack (by decide)) := decodeSegment_tcpPacket ack rfl rfl (by decide)
  have hdata : decodeSegment data.fromAddr data.toAddr (tcpPacket data) =
      some (decoded data (by decide)) := decodeSegment_tcpPacket data rfl rfl (by decide)
  have hevents : Along (openingStep (fun _ ↦ sampleConfig) fun _ ↦ 0) (Admitted sampleFirstSyn)
      (openingEnds sampleOpened) events :=
    ⟨⟨Or.inr ⟨rfl, hsyn⟩, by decide, by decide +kernel, by decide +kernel⟩,
      ⟨Or.inl ⟨synAck, by decide +kernel, hsynAck⟩, by decide, by decide +kernel,
        by decide +kernel⟩,
      ⟨Or.inl ⟨ack, by decide +kernel, hack⟩, by decide, by decide +kernel, by decide +kernel⟩,
      ⟨by decide +kernel, by decide +kernel⟩, trivial,
      ⟨Or.inl ⟨data, by decide +kernel, hdata⟩, by decide, by decide +kernel, by decide +kernel⟩,
      trivial⟩
  refine ⟨by decide +kernel, ?_⟩
  exact (connection_delivers_from_syn (fun _ ↦ sampleConfig) (fun _ ↦ 0) [10, 0, 0, 1]
    [10, 0, 0, 2] 40000 80 [104] 100 hevents).1 (by decide +kernel)

end MyIPNG.Tcp
