import MyIPNG.Tcp.Threads

/-!
# Resets

What the server makes of an RST. A session that the peer resets is closed and stays in the map until
`run_clean` removes it; while it is there, every segment for it is answered with an RST, also an RST
(`rst_unanswered_iff`). Once it is not there, or if it was never made, nothing remembers the reset:
an acknowledgement with the cookie of the current slot makes a session. As long as no such
acknowledgement comes, a reset connection stays reset (`reset_stays_reset`).
-/

set_option autoImplicit false
set_option relaxedAutoImplicit false

namespace MyIPNG.Tcp

open Base

/-! ### A segment for a closed session, and an RST -/

section Clean

variable (config : Config) (environment : Environment) (sessionId : UInt64) (segment : Segment)

/-- A session that is closed, with both buffers forgotten. -/
def forgotten (session : Session) : Session :=
  { session with
    state := .closed
    tcpToL7 := session.tcpToL7.forgetAll
    l7ToTcp := session.l7ToTcp.forgetAll }

/-- What the code at the label `clean` does for an invalid segment. Assumes: it resets the session,
or the session is closed. -/
theorem clean_invalid (invalidWRst invalidIncAck cleanSession : Bool) (session : Session)
    (h : invalidWRst = true ∨ session.state = .closed) :
    let cleaned := clean environment sessionId segment true invalidWRst invalidIncAck cleanSession
      (some session)
    cleaned.1 = some (forgotten session) ∧ handedPayloads cleaned.2 = [] ∧
      emitted cleaned.2 = if invalidWRst && environment.rstOk then
        [replyHeader segment session.localSeq
          (segment.peerSeqNr + (if invalidIncAck then 1 else 0)) flagRst segment.windowSize]
        else [] := by
  have hsend := fun ackNr ↦ sendTcpPacket_empty (fun _ ↦ environment.rstOk)
    (replyHeader segment session.localSeq ackNr flagRst segment.windowSize) minTcpMtu rfl
  refine ⟨?_, ?_, ?_⟩
  · cases invalidWRst with
    | true => rfl
    | false =>
      have hclosed := h.resolve_left (by decide)
      simp [clean, forgotten, ← hclosed]
  all_goals
    simp only [clean, Bool.true_or, if_true, Bool.true_and, Option.map_some, Option.getD_some,
      Option.isSome_some, hsend]
    cases invalidWRst <;> cases environment.rstOk <;> cases environment.closeOk <;>
      simp [emitted, handedPayloads, l7Message]

/-- What an RST does to a session, and any segment to a closed one: the session is closed, nothing
is handed over, and only the closed session answers. -/
theorem runInSession_reset {session : Session}
    (h : session.state = .closed ∨ hasFlag segment.flags flagRst = true) :
    let result := runInSession config environment sessionId segment session
    result.session = some (forgotten (touched environment segment session)) ∧
      handedPayloads result.outputs = [] ∧
      (emitted result.outputs = [] ↔ (environment.rstOk = true → session.state ≠ .closed)) := by
  intro result
  by_cases hclosed : session.state = .closed
  · obtain ⟨hnext, hhanded, hemitted⟩ := clean_invalid environment sessionId segment
      true false false (touched environment segment session) (Or.inl rfl)
    simp only [result, runInSession_closed config environment sessionId segment hclosed]
    refine ⟨hnext, hhanded, ?_⟩
    rw [hemitted]
    cases environment.rstOk <;> simp [hclosed]
  · have hrst := h.resolve_left hclosed
    obtain ⟨hnext, hhanded, hemitted⟩ := clean_invalid environment sessionId segment
      false false false { touched environment segment session with state := .closed } (Or.inr rfl)
    have hbody : result =
        ⟨(clean environment sessionId segment true false false false
          (some { touched environment segment session with state := .closed })).1,
        (clean environment sessionId segment true false false false
          (some { touched environment segment session with state := .closed })).2, false⟩ := by
      simp only [result]
      unfold runInSession
      dsimp only
      rw [if_neg hclosed, if_pos hrst]
      rfl
    rw [hbody]
    refine ⟨hnext, hhanded, ?_⟩
    rw [hemitted]
    simp [hclosed]

/-- An RST without a session does nothing. -/
theorem runInNew_reset (h : hasFlag segment.flags flagRst = true) :
    runInNew config environment sessionId segment = ⟨none, [], false⟩ := by
  unfold runInNew
  rw [if_pos h]
  rfl

end Clean

/-! ### Answers to an RST -/

/-- The outputs of the server for the IP server and the applications. -/
def sends (outputs : List ServerOutput) : List Output :=
  outputs.filterMap fun
    | .send output => some output
    | .reply _ _ _ => none

@[simp] theorem sends_map_send (outputs : List Output) :
    sends (outputs.map .send) = outputs := by
  induction outputs with
  | nil => rfl
  | cons output rest ih => exact congrArg (output :: ·) ih

@[simp] theorem sends_append (first second : List ServerOutput) :
    sends (first ++ second) = sends first ++ sends second := List.filterMap_append

/-- What a segment makes the server send. -/
theorem sends_segment (config : ServerConfig) (server : Server) (environment : Environment)
    (segment : Segment) :
    sends (threadStep config (some server) (.data (.segment environment segment))).2 =
      (runIn config.toConfig environment segment server.sessions).2 :=
  sends_map_send _

/-- The step does not answer an RST. -/
def RstUnanswered (config : ServerConfig) (state : Option Server) : ThreadEvent → Prop
  | .data (.segment environment segment) => hasFlag segment.flags flagRst = true →
      emitted (sends (threadStep config state (.data (.segment environment segment))).2) = []
  | _ => True

/-- The step is no RST for a closed session, unless the IP queue refuses the answer. -/
def RstFindsOpen (state : Option Server) : ThreadEvent → Prop
  | .data (.segment environment segment) => hasFlag segment.flags flagRst = true →
      environment.rstOk = true → ∀ server session, state = some server →
        server.sessions[segmentId segment]? = some session → session.state ≠ .closed
  | _ => True

/-- One RST is answered by a closed session and by nothing else. -/
theorem rstUnanswered_iff (config : ServerConfig) (state : Option Server) (event : ThreadEvent) :
    RstUnanswered config state event ↔ RstFindsOpen state event := by
  cases event with
  | data input =>
    cases input with
    | segment environment segment =>
      refine forall_congr' fun hrst ↦ ?_
      cases state with
      | none => simp [threadStep, sends]
      | some server =>
        rw [sends_segment]
        cases hentry : server.sessions[segmentId segment]? with
        | none =>
          rw [(runIn_unknown config.toConfig environment segment hentry).2,
            runInNew_reset _ _ _ _ hrst]
          refine iff_of_true rfl ?_
          rintro - _ session ⟨⟩ hsession
          rw [hentry] at hsession
          exact absurd hsession (by simp)
        | some session =>
          obtain ⟨-, -, hemitted⟩ := runInSession_reset config.toConfig environment
            (segmentId segment) segment (Or.inr hrst : session.state = .closed ∨ _)
          rw [(runIn_known config.toConfig environment segment hentry).2, hemitted]
          refine forall_congr' fun hok ↦ ?_
          constructor
          · rintro hopen _ found ⟨⟩ hfound
            rw [hentry] at hfound
            rwa [← Option.some.inj hfound]
          · exact fun hopen ↦ hopen server session rfl hentry
    | message message => exact Iff.rfl
    | pass accepts => exact Iff.rfl
  | _ => exact Iff.rfl

/-- When no RST is answered. In every run of the server, no RST is answered exactly when no RST
finds a closed session whose answer the IP queue takes. -/
theorem rst_unanswered_iff (config : ServerConfig) (start : Option Server)
    (events : List ThreadEvent) :
    Along (threadStep config) (RstUnanswered config) start events ↔
      Along (threadStep config) RstFindsOpen start events :=
  along_congr (rstUnanswered_iff config) start events

/-- The sample server, which opens sessions from its own address. -/
def sampleServer : ServerConfig := ⟨sampleConfig, [10, 0, 0, 1]⟩

/-- An RST of the sample peer. -/
def sampleRst : Segment := sampleSegment 8 0 flagRst [] length_nil_lt

/-- The peer completes a handshake and resets the session twice: the second RST is answered with an
RST. -/
theorem second_rst_is_answered :
    let before := run (threadStep sampleServer) (some .start)
      [.data (.segment (sampleAt 10) (sampleAck 10)), .data (.segment (sampleAt 10) sampleRst)]
    hasFlag sampleRst.flags flagRst = true ∧ (emitted (sends (threadStep sampleServer before.1
      (.data (.segment (sampleAt 10) sampleRst))).2)).map OutSegment.flags = [flagRst] := by
  decide +kernel

/-! ### Reset connections -/

/-- The ports and addresses of a connection, as the segments of the peer have them. -/
structure Connection where
  sourcePort : UInt16
  destinationPort : UInt16
  fromAddr : List UInt8
  toAddr : List UInt8
deriving DecidableEq, Repr

/-- The connection of a segment. -/
def connection (segment : Segment) : Connection :=
  ⟨segment.sourcePort, segment.destinationPort, segment.fromAddr, segment.toAddr⟩

/-- The id of the session of a connection. -/
def Connection.sessionId (tuple : Connection) : UInt64 :=
  sessionIdOf tuple.sourcePort tuple.destinationPort tuple.fromAddr tuple.toAddr

/-- Whether a connection is reset after one more event: an RST resets it, a SYN ends that. -/
def resetAfter (tuple : Connection) (was : Bool) : ThreadEvent → Bool
  | .data (.segment _ segment) =>
    if connection segment = tuple then
      if hasFlag segment.flags flagRst then true
      else if hasFlag segment.flags flagSyn then false
      else was
    else was
  | _ => was

/-- The peer has reset the connection, and there was no SYN since. -/
def isReset (tuple : Connection) (events : List ThreadEvent) : Bool :=
  events.foldl (resetAfter tuple) false

theorem isReset_snoc (tuple : Connection) (events : List ThreadEvent) (event : ThreadEvent) :
    isReset tuple (events ++ [event]) = resetAfter tuple (isReset tuple events) event := by
  rw [isReset, List.foldl_append]
  rfl

/-- A connection that is reset after an event was reset before it, or the event is its RST. -/
theorem reset_of_resetAfter {tuple : Connection} {was : Bool} {event : ThreadEvent}
    (h : resetAfter tuple was event = true) :
    (∃ environment segment, event = .data (.segment environment segment) ∧
      connection segment = tuple ∧ hasFlag segment.flags flagRst = true) ∨ was = true := by
  unfold resetAfter at h
  split at h
  · next environment segment =>
    split_ifs at h with htuple hrst
    · exact Or.inl ⟨environment, segment, rfl, htuple, hrst⟩
    · exact Or.inr h
    · exact Or.inr h
  · exact Or.inr h

theorem segmentId_of_connection {segment : Segment} {tuple : Connection}
    (h : connection segment = tuple) : segmentId segment = tuple.sessionId := by
  rw [← h]
  rfl

/-- The step makes no session with the id of a connection that is reset: it is no acknowledgement
that completes a handshake, and no open. -/
def NotRevived (config : ServerConfig) (state : Option Server × List ThreadEvent) :
    ThreadEvent → Prop
  | .data (.segment environment segment) => ∀ server tuple, state.1 = some server →
      isReset tuple state.2 = true → tuple.sessionId = segmentId segment →
      server.sessions[segmentId segment]? = none →
      ∀ shmPeer, ¬ Completes config.toConfig environment (segmentId segment) segment shmPeer
  | .metaInsert => ∀ server tuple session, state.1 = some server →
      isReset tuple state.2 = true → server.metaThread ≠ .opened tuple.sessionId session
  | _ => True

/-- The step hands no payload of a connection that is reset to an application. -/
def HandsNothingReset (config : ServerConfig) (state : Option Server × List ThreadEvent) :
    ThreadEvent → Prop
  | .data (.segment environment segment) => isReset (connection segment) state.2 = true →
      handedPayloads (sends
        (threadStep config state.1 (.data (.segment environment segment))).2) = []
  | _ => True

/-- The invariant: a connection that is reset has no session, or a closed one. -/
def ResetInvariant (state : Option Server × List ThreadEvent) : Prop :=
  ∀ server tuple session, state.1 = some server → isReset tuple state.2 = true →
    server.sessions[tuple.sessionId]? = some session → session.state = .closed

section Reset

variable {config : ServerConfig} {state : Option Server × List ThreadEvent} {event : ThreadEvent}

/-- The step lemma for the invariant. -/
theorem resetInvariant_step (h : ResetInvariant state) (hok : NotRevived config state event) :
    ResetInvariant (recorded (threadStep config) state event).1 := by
  obtain ⟨current, past⟩ := state
  intro next tuple session hnext hreset hentry
  dsimp only [recorded] at hnext hreset
  rw [isReset_snoc] at hreset
  cases current with
  | none => exact absurd hnext (by simp [threadStep])
  | some server =>
    have hstep := threadStep_entry hnext tuple.sessionId
    rw [hentry] at hstep
    generalize hafter : some session = after at hstep
    cases hstep with
    | idle hother =>
      have hwas : isReset tuple past = true := by
        rcases reset_of_resetAfter hreset with ⟨environment, segment, rfl, htuple, -⟩ | hwas
        · exact absurd (segmentId_of_connection htuple) (hother environment segment rfl)
        · exact hwas
      exact h server tuple session rfl hwas hafter.symm
    | @known environment segment found hid hfound =>
      have hcases : found.state = .closed ∨ hasFlag segment.flags flagRst = true := by
        rcases reset_of_resetAfter hreset with ⟨_, _, ⟨⟩, -, hrst⟩ | hwas
        · exact Or.inr hrst
        · exact Or.inl (h server tuple found rfl hwas hfound)
      have hreset := runInSession_reset config.toConfig environment tuple.sessionId segment hcases
      rw [hreset.1] at hafter
      rw [Option.some.inj hafter]
      rfl
    | @unknown environment segment hid hfound =>
      have hnone : (runInNew config.toConfig environment tuple.sessionId segment).session =
          none := by
        rcases reset_of_resetAfter hreset with ⟨_, _, ⟨⟩, -, hrst⟩ | hwas
        · rw [runInNew_reset _ _ _ _ hrst]
        · rw [← hid] at hfound ⊢
          exact (runInNew_other (hok server tuple rfl hwas hid.symm hfound)).1
      rw [hnone] at hafter
      exact absurd hafter (by simp)
    | write hid hfound =>
      have hwas := (reset_of_resetAfter hreset).resolve_left (by rintro ⟨_, _, ⟨⟩, -⟩)
      rw [Option.some.inj hafter, (addFromL7_receiving _ _ _).2.2]
      exact h server tuple _ rfl hwas hfound
    | visit hfound =>
      have hwas := (reset_of_resetAfter hreset).resolve_left (by rintro ⟨_, _, ⟨⟩, -⟩)
      rw [Option.some.inj hafter, (visit_receiving _ _).2.2.1]
      exact h server tuple _ rfl hwas hfound
    | insert hopened hfound =>
      have hwas := (reset_of_resetAfter hreset).resolve_left (by rintro ⟨_, _, ⟨⟩, -⟩)
      exact absurd hopened (hok server tuple _ rfl hwas)
    | remove hmeta => exact absurd hafter (by simp)

/-- In a state with the invariant, a step that makes no session hands nothing over. -/
theorem handsNothingReset_step (h : ResetInvariant state) (hok : NotRevived config state event) :
    HandsNothingReset config state event := by
  obtain ⟨current, past⟩ := state
  cases event with
  | data input =>
    cases input with
    | segment environment segment =>
      intro hreset
      cases current with
      | none => rfl
      | some server =>
        rw [sends_segment]
        cases hentry : server.sessions[segmentId segment]? with
        | some session =>
          have hclosed := h server (connection segment) session rfl hreset hentry
          obtain ⟨-, hhanded, -⟩ := runInSession_reset config.toConfig environment
            (segmentId segment) segment (Or.inl hclosed)
          rw [(runIn_known config.toConfig environment segment hentry).2, hhanded]
        | none =>
          rw [(runIn_unknown config.toConfig environment segment hentry).2]
          exact (runInNew_other (hok server (connection segment) rfl hreset rfl hentry)).2
    | message message => trivial
    | pass accepts => trivial
  | _ => trivial

end Reset

/-- A reset connection stays reset. Assumes: no step of the run makes a session with the id of a
connection that is reset. Then no step hands payload of such a connection to an application. -/
theorem reset_stays_reset (config : ServerConfig) (start : Option Server)
    (events : List ThreadEvent)
    (h : Along (recorded (threadStep config)) (NotRevived config) (start, []) events) :
    Along (recorded (threadStep config)) (HandsNothingReset config) (start, []) events := by
  have hstart : ResetInvariant (start, []) := by
    intro server tuple session hserver hreset
    exact absurd hreset (by simp [isReset])
  exact Along.of_invariant hstart (fun _ _ ↦ resetInvariant_step)
    (fun _ _ ↦ handsNothingReset_step) h

/-- Data of the sample peer, with the acknowledgement of the answer to its SYN. -/
def sampleData : Segment :=
  sampleSegment 8 ((sampleSynAck 10).seqNr + 1) (flagAck ||| flagPsh) [116, 101, 115, 116]
    (by decide)

/-- The peer completes a handshake, resets the session and sends data. -/
def sampleResetRun : List ThreadEvent :=
  [.data (.segment (sampleAt 10) (sampleAck 10)), .data (.segment (sampleAt 10) sampleRst),
    .data (.segment (sampleAt 10) sampleData)]

/-- The data behind an RST is not handed over while the closed session is in the map. -/
theorem reset_stays_reset_behind_handshake :
    Along (recorded (threadStep sampleServer)) (HandsNothingReset sampleServer)
      (some .start, []) sampleResetRun := by
  refine reset_stays_reset sampleServer (some .start) sampleResetRun ⟨?_, ?_, ?_, trivial⟩
  · intro server tuple hserver hreset
    exact absurd hreset (by simp [isReset])
  · intro server tuple hserver hreset
    have hflags : hasFlag (sampleAck 10).flags flagRst = false := by decide +kernel
    have hafter : resetAfter tuple (isReset tuple [])
        (.data (.segment (sampleAt 10) (sampleAck 10))) = true := hreset
    rcases reset_of_resetAfter hafter with ⟨_, _, ⟨⟩, -, hrst⟩ | hwas
    · exact absurd (hflags.symm.trans hrst) (by decide)
    · exact absurd hwas (by simp [isReset])
  · intro server tuple hserver _ _ hnone
    have hfound : (recorded (threadStep sampleServer)
        (recorded (threadStep sampleServer) (some .start, [])
          (.data (.segment (sampleAt 10) (sampleAck 10)))).1
        (.data (.segment (sampleAt 10) sampleRst))).1.1.map
          (fun server ↦ server.sessions[segmentId sampleData]?.isSome) = some true := by
      decide +kernel
    rw [hserver, Option.map_some, hnone] at hfound
    exact absurd hfound (by simp)

/-- A SYN, an RST and then data that acknowledges the answer to the SYN, as in `ct-tcp.py`: the
cookie is still good, so a session is made and the data is handed over. -/
theorem data_behind_rst_is_handed :
    let before : List ThreadEvent :=
      [.data (.segment (sampleAt 10) sampleSyn), .data (.segment (sampleAt 10) sampleRst)]
    isReset (connection sampleData) before = true ∧
      handedPayloads (sends (threadStep sampleServer
        (run (threadStep sampleServer) (some .start) before).1
          (.data (.segment (sampleAt 10) sampleData))).2) = [[116, 101, 115, 116]] := by
  decide +kernel

end MyIPNG.Tcp
