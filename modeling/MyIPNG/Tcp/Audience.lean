import MyIPNG.Tcp.Origin

/-!
# What an application hears of its sessions

The server tells applications of sessions with messages in their queues. A session that a peer opens
is announced by a message with `MI_TCP_OPEN` and goes to the queue of its port; a session that an
application asked `run_meta` to open goes to the queue that the request names, from the time it is
in the map. `Audience` is what an observer of the messages knows: the queue that was last told of
each session id.

`announced_before_data` says of every run of all threads that data, FIN and `MI_TCP_CLOSE` of a
session go to the queue that was told of it, that the announcement is the first message of a
session, and that nothing is announced while the map has a session with its id.
-/

set_option autoImplicit false
set_option relaxedAutoImplicit false

namespace MyIPNG.Tcp

open Base

/-! ### The observer -/

/-- The queue that was last told of a session, by the ids of the sessions. -/
abbrev Audience := UInt64 → Option (List UInt8)

/-- The message announces its session. -/
def L7Message.announces (message : L7Message) : Bool := message.flags &&& miTcpOpen != 0

/-- A message announces its session, or goes to the queue that was told of it. -/
def Heard (audience : Audience) : Output → Prop
  | .toIp _ => True
  | .toL7 queue message =>
    message.announces = true ∨ audience message.sessionId = some queue

/-- What the observer knows behind a message. -/
def hear (audience : Audience) : Output → Audience
  | .toIp _ => audience
  | .toL7 queue message =>
    if message.announces then Function.update audience message.sessionId (some queue)
    else audience

/-- Every message of a list announces its session or goes to the queue that was told of it. -/
def AllHeard : Audience → List Output → Prop
  | _, [] => True
  | audience, output :: rest => Heard audience output ∧ AllHeard (hear audience output) rest

/-- What the observer makes of a step of the server: the messages, and a session that `run_meta`
puts in the map. -/
def listen (config : ServerConfig) (state : Option Server) (audience : Audience)
    (event : ThreadEvent) : Audience :=
  match state, event with
  | some server, .metaInsert =>
    match server.metaThread with
    | .opened sessionId session =>
      if server.sessions[sessionId]? = none then
        Function.update audience sessionId (some session.shmPeer)
      else audience
    | _ => audience
  | _, _ => (sends (threadStep config state event).2).foldl hear audience

/-- In a step, every message is heard, and a session that is announced is not in the map. -/
def Announced (config : ServerConfig) (observed : Option Server × Audience)
    (event : ThreadEvent) : Prop :=
  AllHeard observed.2 (sends (threadStep config observed.1 event).2) ∧
    ∀ server, observed.1 = some server → ∀ queue message,
      .toL7 queue message ∈ sends (threadStep config observed.1 event).2 →
        message.announces = true → server.sessions[message.sessionId]? = none

/-! ### The messages of one segment -/

/-- A segment, or a message of a session that does not announce it. -/
def IsAbout (queue : List UInt8) (sessionId : UInt64) : Output → Prop
  | .toIp _ => True
  | .toL7 peer message =>
    peer = queue ∧ message.sessionId = sessionId ∧ message.announces = false

/-- All outputs are segments or messages of a session that do not announce it. -/
def AllAbout (queue : List UInt8) (sessionId : UInt64) (outputs : List Output) : Prop :=
  ∀ output ∈ outputs, IsAbout queue sessionId output

section About

variable {config : Config} {environment : Environment} {sessionId : UInt64} {segment : Segment}
  {queue : List UInt8}

theorem allAbout_nil : AllAbout queue sessionId [] := fun _ h ↦ absurd h List.not_mem_nil

theorem AllAbout.append {first second : List Output} (hfirst : AllAbout queue sessionId first)
    (hsecond : AllAbout queue sessionId second) : AllAbout queue sessionId (first ++ second) :=
  fun output houtput ↦ (List.mem_append.mp houtput).elim (hfirst output) (hsecond output)

theorem allAbout_map_toIp (segments : List OutSegment) :
    AllAbout queue sessionId (segments.map .toIp) := by
  intro output houtput
  obtain ⟨out, -, rfl⟩ := List.mem_map.mp houtput
  trivial

theorem allAbout_message {flags : UInt32} (hflags : (flags &&& miTcpOpen != 0) = false)
    (payload : List UInt8) :
    AllAbout queue sessionId [.toL7 queue (l7Message sessionId segment flags payload)] := by
  intro output houtput
  rw [List.mem_singleton.mp houtput]
  exact ⟨rfl, rfl, hflags⟩

theorem allAbout_clean (invalid invalidWRst invalidIncAck cleanSession : Bool)
    {session : Session} (hpeer : session.shmPeer = queue) :
    AllAbout queue sessionId (clean environment sessionId segment invalid invalidWRst invalidIncAck
      cleanSession (some session)).2 := by
  unfold clean
  by_cases hentered : (invalid || cleanSession) = true
  · rw [if_pos hentered]
    refine AllAbout.append ?_ ?_
    · by_cases hreset : (invalid && invalidWRst) = true
      · rw [if_pos hreset]
        exact allAbout_map_toIp _
      · rw [if_neg hreset]
        exact allAbout_nil
    · by_cases hclose : environment.closeOk = true
      · rw [if_pos hclose]
        intro output houtput
        rw [List.mem_singleton.mp houtput]
        refine ⟨?_, rfl, (by decide : (miTcpClose &&& miTcpOpen != 0) = false)⟩
        split_ifs <;> exact hpeer
      · rw [if_neg hclose]
        exact allAbout_nil
  · rw [if_neg hentered]
    exact allAbout_nil

theorem allAbout_deliverData {session : Session} (hpeer : session.shmPeer = queue) :
    AllAbout queue sessionId (deliverData environment sessionId segment session).outputs := by
  subst hpeer
  have hack : ∀ ackNr, AllAbout session.shmPeer sessionId
      ((sendAck environment.ackOk segment session ackNr).1.map .toIp) :=
    fun ackNr ↦ allAbout_map_toIp _
  have hflags : ((if session.halfClosed then miTcpFin else 0) &&& miTcpOpen != 0) = false := by
    split_ifs <;> decide
  have hhanded : AllAbout session.shmPeer sessionId
      (if 0 < segment.payload.length ∧ environment.dataOk then [Output.toL7 session.shmPeer
        (l7Message sessionId segment (if session.halfClosed then miTcpFin else 0)
          segment.payload)] else []) := by
    by_cases hdata : 0 < segment.payload.length ∧ environment.dataOk = true
    · rw [if_pos hdata]
      exact allAbout_message hflags _
    · rw [if_neg hdata]
      exact allAbout_nil
  unfold deliverData
  by_cases horder : segment.peerSeqNr = session.peerSeq
  · rw [if_pos horder]
    generalize (if 0 < segment.payload.length then environment.dataOk else true) = ok
    cases ok with
    | false => exact hhanded
    | true =>
      by_cases hsends : hasFlag segment.flags flagAck = false ∨ 0 < segment.payload.length
      · rw [if_pos rfl, if_pos hsends]
        dsimp only
        by_cases hsent : (sendAck environment.ackOk segment session
            (session.peerSeq + UInt32.ofNat segment.payload.length)).2 = 0
        · rw [if_pos hsent]
          exact hhanded.append (hack _)
        · rw [if_neg hsent]
          exact hhanded.append (hack _)
      · rw [if_pos rfl, if_neg hsends]
        exact hhanded
  · rw [if_neg horder]
    split_ifs
    · exact hack _
    · exact hack _

theorem allAbout_handleFin (ackedPacket : Bool) (session : Session) :
    AllAbout queue sessionId (handleFin environment segment ackedPacket session).2 := by
  unfold handleFin
  by_cases hfin : hasFlag segment.flags flagFin = true
  · rw [if_pos hfin]
    dsimp only
    by_cases hacked : ackedPacket = false
    · rw [if_pos hacked]
      exact allAbout_map_toIp _
    · rw [if_neg hacked]
      exact allAbout_nil
  · rw [if_neg hfin]
    exact allAbout_nil

theorem shmPeer_deliverData (session : Session) :
    (deliverData environment sessionId segment session).session.shmPeer = session.shmPeer := by
  unfold deliverData
  dsimp only
  split_ifs <;> rfl

theorem shmPeer_clean (invalid invalidWRst invalidIncAck cleanSession : Bool)
    {session next : Session}
    (h : (clean environment sessionId segment invalid invalidWRst invalidIncAck cleanSession
      (some session)).1 = some next) : next.shmPeer = session.shmPeer := by
  unfold clean at h
  dsimp only at h
  split_ifs at h <;> rw [← Option.some.inj h]

/-- What a segment makes of its session goes to the same queue. -/
theorem shmPeer_processData {invalid invalidIncAck resend : Bool} {session next : Session}
    (h : (processData environment sessionId segment invalid invalidIncAck resend session).session =
      some next) : next.shmPeer = session.shmPeer := by
  have hdata : (if invalid = false then deliverData environment sessionId segment session
      else ⟨session, [], false, false⟩).session.shmPeer = session.shmPeer := by
    split_ifs
    · exact shmPeer_deliverData session
    · rfl
  rw [shmPeer_clean _ _ _ _ h, handleFin_session]
  exact hdata

theorem allAbout_processData (invalid invalidIncAck resend : Bool) {session : Session}
    (hpeer : session.shmPeer = queue) : AllAbout queue sessionId (processData environment sessionId
      segment invalid invalidIncAck resend session).outputs := by
  have hdata : AllAbout queue sessionId (if invalid = false then
      deliverData environment sessionId segment session
        else ⟨session, [], false, false⟩).outputs := by
    split_ifs
    · exact allAbout_deliverData hpeer
    · exact allAbout_nil
  have hkept : (if invalid = false then deliverData environment sessionId segment session
      else ⟨session, [], false, false⟩).session.shmPeer = queue := by
    split_ifs
    · exact (shmPeer_deliverData session).trans hpeer
    · exact hpeer
  refine (hdata.append (allAbout_handleFin _ _)).append (allAbout_clean _ _ _ _ ?_)
  rw [handleFin_session]
  exact hkept

theorem shmPeer_synAcked (session : Session) :
    (synAcked segment session).shmPeer = session.shmPeer := by
  unfold synAcked
  dsimp only
  split_ifs <;> rfl

/-- A SYN at a session. -/
theorem synKnown_about {session : Session} (hpeer : session.shmPeer = queue) :
    AllAbout queue sessionId (synKnown config environment sessionId segment session).outputs ∧
      ∀ next, (synKnown config environment sessionId segment session).session = some next →
        next.shmPeer = queue := by
  by_cases hclient : session.isClient = true
  · by_cases hack : hasFlag segment.flags flagAck = true
    · have hacked : (synAcked segment session).shmPeer = queue :=
        (shmPeer_synAcked session).trans hpeer
      constructor
      · rw [synKnown_synAck_eq config environment sessionId segment hclient hack]
        dsimp only
        split_ifs
        · exact (allAbout_map_toIp _).append (allAbout_clean _ _ _ _ hacked)
        · exact (allAbout_map_toIp _).append (allAbout_processData _ _ _ hacked)
      · intro next hnext
        rcases (synKnown_synAck config environment sessionId segment hclient hack).1 with
          hkept | hreceived
        · rw [← Option.some.inj (hkept.symm.trans hnext)]
          exact hacked
        · rw [← Option.some.inj (hreceived.symm.trans hnext)]
          exact hacked
    · rw [synKnown_plainSyn_eq config environment sessionId segment hclient hack]
      exact ⟨allAbout_processData _ _ _ hpeer, fun next hnext ↦
        (shmPeer_processData hnext).trans hpeer⟩
  · rw [synKnown_server_eq config environment sessionId segment hclient]
    split_ifs
    · refine ⟨allAbout_map_toIp _, fun next hnext ↦ ?_⟩
      rw [← Option.some.inj hnext]
      exact hpeer
    · refine ⟨allAbout_nil, fun next hnext ↦ ?_⟩
      rw [← Option.some.inj hnext]
      exact hpeer
    · exact ⟨allAbout_nil, fun next hnext ↦ absurd hnext (by simp)⟩

/-- A segment at a session. -/
theorem runInSession_about {session : Session} (hpeer : session.shmPeer = queue) :
    AllAbout queue sessionId (runInSession config environment sessionId segment session).outputs ∧
      ∀ next, (runInSession config environment sessionId segment session).session = some next →
        next.shmPeer = queue := by
  have htouched : (touched environment segment session).shmPeer = queue := hpeer
  have hacked : (ackPending (touched environment segment session) segment.ackSeqNr).1.shmPeer =
      queue := by
    unfold ackPending
    dsimp only
    split_ifs <;> exact hpeer
  unfold runInSession
  dsimp only
  split_ifs
  · exact ⟨allAbout_clean _ _ _ _ htouched, fun next hnext ↦
      (shmPeer_clean _ _ _ _ hnext).trans htouched⟩
  · exact ⟨allAbout_clean _ _ _ _ htouched, fun next hnext ↦
      (shmPeer_clean _ _ _ _ hnext).trans htouched⟩
  · exact synKnown_about htouched
  · exact ⟨allAbout_processData _ _ _ hacked, fun next hnext ↦
      (shmPeer_processData hnext).trans hacked⟩
  · refine ⟨allAbout_nil, fun next hnext ↦ ?_⟩
    rw [← Option.some.inj hnext]
    exact htouched
  · exact ⟨allAbout_processData _ _ _ htouched, fun next hnext ↦
      (shmPeer_processData hnext).trans htouched⟩

theorem shmPeer_addFromL7 (session : Session) (flags : UInt32) (what : List UInt8) :
    (addFromL7 session flags what).shmPeer = session.shmPeer := by
  unfold addFromL7
  dsimp only
  split_ifs <;> rfl

theorem shmPeer_senderVisit (accepts : ℕ → Bool) (session : Session) :
    (senderVisit accepts session).session.shmPeer = session.shmPeer := by
  rw [senderVisit_eq]
  split_ifs <;> rfl

end About

/-! ### Steps without messages -/

/-- No output is a message of an application. -/
def OnlySegments (outputs : List Output) : Prop := ∀ output ∈ outputs, ∃ out, output = .toIp out

theorem onlySegments_nil : OnlySegments [] := fun _ h ↦ absurd h List.not_mem_nil

theorem onlySegments_map_toIp (segments : List OutSegment) :
    OnlySegments (segments.map .toIp) := by
  intro output houtput
  obtain ⟨out, -, rfl⟩ := List.mem_map.mp houtput
  exact ⟨out, rfl⟩

section Unannounced

variable {config : Config} {environment : Environment} {sessionId : UInt64} {segment : Segment}

/-- A segment without a session makes no message at the label `clean`. -/
theorem onlySegments_clean_none (invalid invalidWRst invalidIncAck cleanSession : Bool) :
    OnlySegments (clean environment sessionId segment invalid invalidWRst invalidIncAck
      cleanSession none).2 := by
  unfold clean
  by_cases hentered : (invalid || cleanSession) = true
  · rw [if_pos hentered]
    dsimp only
    by_cases hreset : (invalid && invalidWRst) = true
    · rw [if_pos hreset]
      exact onlySegments_map_toIp _
    · rw [if_neg hreset]
      exact onlySegments_nil
  · rw [if_neg hentered]
    exact onlySegments_nil

/-- A segment without a session that completes no handshake makes no message. -/
theorem onlySegments_runInNew
    (h : ∀ shmPeer, ¬ Completes config environment sessionId segment shmPeer) :
    OnlySegments (runInNew config environment sessionId segment).outputs := by
  unfold runInNew
  split_ifs with hrst hsyn hinvalid hack hfin
  · exact onlySegments_clean_none _ _ _ _
  · exact onlySegments_clean_none _ _ _ _
  · exact onlySegments_map_toIp _
  · unfold ackUnknown
    dsimp only
    by_cases hcookie : mySynCookie config sessionId
        (Fin.ofNat 8 ((segment.ackSeqNr - 1) &&& 7).toNat) environment.nowSec ≠
        segment.ackSeqNr - 1
    · rw [if_pos hcookie]
      exact onlySegments_map_toIp _
    · rw [if_neg hcookie]
      cases hmapping : config.mappingsIn segment.destinationPort with
      | none => exact onlySegments_nil
      | some shmPeer =>
        by_cases hopen : environment.openOk = true
        · refine absurd ⟨hack, ?_, ?_, hfin, not_not.mp hcookie, hmapping, hopen⟩ (h shmPeer)
          · simpa using hrst
          · simpa using hsyn
        · simp only [hopen]
          exact onlySegments_clean_none _ _ _ _
  · exact onlySegments_nil
  · exact onlySegments_nil

end Unannounced

theorem onlySegments_senderPass (accepts : UInt64 → ℕ → Bool) (sessions : Sessions) :
    OnlySegments (senderPass accepts sessions).2 := by
  intro output houtput
  obtain ⟨entry, -, hvisit⟩ := mem_senderLoop accepts houtput
  rw [senderVisit_eq] at hvisit
  split_ifs at hvisit
  · exact absurd hvisit List.not_mem_nil
  · exact ⟨_, List.mem_singleton.mp hvisit⟩
  · exact absurd hvisit List.not_mem_nil
  · exact absurd hvisit List.not_mem_nil

theorem mem_sends {output : Output} {outputs : List ServerOutput} (h : output ∈ sends outputs) :
    .send output ∈ outputs := by
  obtain ⟨sent, hsent, hequal⟩ := List.mem_filterMap.mp h
  cases sent with
  | send other => rwa [← Option.some.inj hequal]
  | reply receiver msgNr text => exact absurd hequal (by simp)

theorem onlySegments_sent (segments : List OutSegment) :
    OnlySegments (sends (segments.map fun segment ↦ .send (.toIp segment))) := by
  intro output houtput
  obtain ⟨out, -, hequal⟩ := List.mem_map.mp (mem_sends houtput)
  exact ⟨out, (ServerOutput.send.inj hequal).symm⟩

theorem onlySegments_metaRequest (config : ServerConfig) (environment : MetaEnvironment)
    (message : MetaMessage) (server : Server) :
    OnlySegments (sends (metaRequest config environment message server).2) := by
  unfold metaRequest
  split
  · exact onlySegments_nil
  · exact onlySegments_nil
  · split
    · split
      · unfold openRequest
        split
        · exact onlySegments_nil
        · split
          · exact onlySegments_nil
          · split_ifs
            · exact onlySegments_nil
            · exact onlySegments_nil
            · dsimp only
              split_ifs
              · exact onlySegments_sent _
              · exact onlySegments_sent _
      · exact onlySegments_nil
    · split
      · exact onlySegments_nil
      · exact onlySegments_nil

theorem onlySegments_metaReply (accepted : Bool) (server : Server) :
    OnlySegments (sends (metaReply accepted server).2) := by
  unfold metaReply
  split
  · dsimp only
    split_ifs
    · exact onlySegments_nil
    · exact onlySegments_nil
  · exact onlySegments_nil

theorem onlySegments_metaFin (accepted : Bool) (server : Server) :
    OnlySegments (sends (metaFin accepted server).2) := by
  unfold metaFin
  split
  · dsimp only
    split
    · exact onlySegments_nil
    · exact onlySegments_sent _
  · exact onlySegments_nil

/-- Only a segment makes the server tell an application anything. -/
theorem onlySegments_threadStep (config : ServerConfig) (state : Option Server)
    {event : ThreadEvent}
    (h : ∀ environment segment, event ≠ .data (.segment environment segment)) :
    OnlySegments (sends (threadStep config state event).2) := by
  cases state with
  | none => exact onlySegments_nil
  | some server =>
    cases event with
    | data input =>
      cases input with
      | segment environment segment => exact absurd rfl (h environment segment)
      | message message => exact onlySegments_nil
      | pass accepts =>
        change OnlySegments (sends ((senderPass accepts server.sessions).2.map .send))
        rw [sends_map_send]
        exact onlySegments_senderPass accepts server.sessions
    | metaRequest environment message =>
      simp only [threadStep]
      split
      · exact onlySegments_metaRequest config environment message server
      · exact onlySegments_nil
    | metaReply accepted => exact onlySegments_metaReply accepted server
    | metaInsert => exact onlySegments_nil
    | metaFin accepted => exact onlySegments_metaFin accepted server
    | cleanClock now => exact onlySegments_nil
    | cleanCollect => exact onlySegments_nil
    | cleanDelete => exact onlySegments_nil

/-! ### Runs -/

/-- The observer was told of every session in the map. -/
def Told (state : Option Server × Audience) : Prop :=
  ∀ server, state.1 = some server → ∀ (sessionId : UInt64) session,
    server.sessions[sessionId]? = some session → state.2 sessionId = some session.shmPeer

/-- Messages that tell the observer nothing new. -/
theorem allHeard_of_forall {audience : Audience} {outputs : List Output}
    (h : ∀ output ∈ outputs, Heard audience output ∧ hear audience output = audience) :
    AllHeard audience outputs ∧ outputs.foldl hear audience = audience := by
  induction outputs with
  | nil => exact ⟨trivial, rfl⟩
  | cons output rest ih =>
    obtain ⟨hheard, hsame⟩ := h output List.mem_cons_self
    obtain ⟨hrest, hafter⟩ := ih fun other hother ↦ h other (List.mem_cons_of_mem _ hother)
    rw [AllHeard, List.foldl_cons, hsame]
    exact ⟨⟨hheard, hrest⟩, hafter⟩

theorem OnlySegments.heard {outputs : List Output} (h : OnlySegments outputs)
    (audience : Audience) :
    AllHeard audience outputs ∧ outputs.foldl hear audience = audience := by
  refine allHeard_of_forall fun output houtput ↦ ?_
  obtain ⟨out, rfl⟩ := h output houtput
  exact ⟨trivial, rfl⟩

theorem announces_open (sessionId : UInt64) (segment : Segment) (payload : List UInt8) :
    (l7Message sessionId segment miTcpOpen payload).announces = true := by
  show (miTcpOpen &&& miTcpOpen != 0) = true
  decide

/-- What the observer learns from an announcement. -/
theorem hear_open (audience : Audience) (queue : List UInt8) (sessionId : UInt64)
    (segment : Segment) (payload : List UInt8) :
    hear audience (.toL7 queue (l7Message sessionId segment miTcpOpen payload)) =
      Function.update audience sessionId (some queue) :=
  if_pos (announces_open sessionId segment payload)

theorem AllAbout.heard {queue : List UInt8} {sessionId : UInt64} {outputs : List Output}
    (h : AllAbout queue sessionId outputs) {audience : Audience}
    (htold : audience sessionId = some queue) :
    AllHeard audience outputs ∧ outputs.foldl hear audience = audience := by
  refine allHeard_of_forall fun output houtput ↦ ?_
  cases output with
  | toIp out => exact ⟨trivial, rfl⟩
  | toL7 peer message =>
    obtain ⟨rfl, hid, hflags⟩ := h _ houtput
    exact ⟨Or.inr (hid ▸ htold), if_neg (by simp [hflags])⟩

/-- What a segment tells the observer. Nothing is announced when the session is in the map; when a
segment opens the session, the announcement comes first; and otherwise there is no message. -/
inductive SegmentHeard (config : Config) (server : Server) (environment : Environment)
    (segment : Segment) : Prop
  | known (session : Session) (hentry : server.sessions[segmentId segment]? = some session)
      (habout : AllAbout session.shmPeer (segmentId segment)
        (runIn config environment segment server.sessions).2)
      (hkept : ∀ next, (runIn config environment segment
        server.sessions).1[segmentId segment]? = some next → next.shmPeer = session.shmPeer) :
      SegmentHeard config server environment segment
  | opened (shmPeer : List UInt8) (rest : List Output)
      (hentry : server.sessions[segmentId segment]? = none)
      (houtputs : (runIn config environment segment server.sessions).2 =
        .toL7 shmPeer (l7Message (segmentId segment) segment miTcpOpen []) :: rest)
      (habout : AllAbout shmPeer (segmentId segment) rest)
      (hkept : ∀ next, (runIn config environment segment
        server.sessions).1[segmentId segment]? = some next → next.shmPeer = shmPeer) :
      SegmentHeard config server environment segment
  | unheard (hentry : server.sessions[segmentId segment]? = none)
      (honly : OnlySegments (runIn config environment segment server.sessions).2)
      (hnone : (runIn config environment segment server.sessions).1[segmentId segment]? = none) :
      SegmentHeard config server environment segment

theorem segmentHeard (config : Config) (server : Server) (environment : Environment)
    (segment : Segment) : SegmentHeard config server environment segment := by
  cases hentry : server.sessions[segmentId segment]? with
  | some session =>
    obtain ⟨hafter, houtputs⟩ := runIn_known config environment segment hentry
    have hsession :=
      @runInSession_about config environment (segmentId segment) segment _ session rfl
    refine .known session hentry ?_ fun next hnext ↦ hsession.2 next (hafter.symm.trans hnext)
    rw [houtputs]
    exact hsession.1
  | none =>
    obtain ⟨hafter, houtputs⟩ := runIn_unknown config environment segment hentry
    by_cases hcompletes : ∃ shmPeer, Completes config environment (segmentId segment) segment
        shmPeer
    · obtain ⟨shmPeer, hcompletes⟩ := hcompletes
      rw [runInNew_completes hcompletes] at hafter houtputs
      refine .opened shmPeer _ hentry houtputs (allAbout_processData false false false rfl) ?_
      intro next hnext
      have hsession : (processData environment (segmentId segment) segment false false false
          (newSession segment shmPeer)).session = some next := hafter.symm.trans hnext
      exact shmPeer_processData hsession
    · have hnever := not_exists.mp hcompletes
      refine .unheard hentry ?_ (hafter.trans (runInNew_other hnever).1)
      rw [houtputs]
      exact onlySegments_runInNew hnever

/-- Messages that do not announce their session. -/
theorem AllAbout.not_announced {queue : List UInt8} {sessionId : UInt64} {outputs : List Output}
    (h : AllAbout queue sessionId outputs) {peer : List UInt8} {message : L7Message}
    (hmem : .toL7 peer message ∈ outputs) : message.announces = false := (h _ hmem).2.2

section Step

variable {config : ServerConfig} {server : Server} {audience : Audience}

/-- One segment. -/
theorem announced_segment (htold : Told (some server, audience)) (environment : Environment)
    (segment : Segment) :
    Announced config (some server, audience) (.data (.segment environment segment)) := by
  unfold Announced
  rw [sends_segment]
  cases segmentHeard config.toConfig server environment segment with
  | known session hentry habout hkept =>
    refine ⟨(habout.heard (htold server rfl _ session hentry)).1, ?_⟩
    intro _ _ queue message hmem hopen
    exact absurd (hopen.symm.trans (habout.not_announced hmem)) (by simp)
  | opened shmPeer rest hentry houtputs habout hkept =>
    rw [houtputs]
    have htoldNow : hear audience (.toL7 shmPeer
        (l7Message (segmentId segment) segment miTcpOpen [])) (segmentId segment) =
        some shmPeer := by rw [hear_open, Function.update_self]
    refine ⟨⟨Or.inl (announces_open _ _ _), (habout.heard htoldNow).1⟩, ?_⟩
    intro current hcurrent queue message hmem hopen
    obtain rfl := Option.some.inj hcurrent
    rcases List.mem_cons.mp hmem with hfirst | hlater
    · obtain ⟨-, rfl⟩ := Output.toL7.inj hfirst
      exact hentry
    · exact absurd (hopen.symm.trans (habout.not_announced hlater)) (by simp)
  | unheard hentry honly hnone =>
    refine ⟨(honly.heard audience).1, ?_⟩
    intro _ _ queue message hmem
    obtain ⟨out, hout⟩ := honly _ hmem
    exact absurd hout (by simp)

/-- One step. -/
theorem announced_step {state : Option Server} (htold : Told (state, audience))
    (event : ThreadEvent) : Announced config (state, audience) event := by
  by_cases hsegment : ∃ environment segment, event = .data (.segment environment segment)
  · obtain ⟨environment, segment, rfl⟩ := hsegment
    cases state with
    | none => exact ⟨trivial, fun _ hserver ↦ absurd hserver (by simp)⟩
    | some server => exact announced_segment htold environment segment
  · have honly : OnlySegments (sends (threadStep config state event).2) :=
      onlySegments_threadStep config state fun environment segment hevent ↦
        hsegment ⟨environment, segment, hevent⟩
    refine ⟨(honly.heard audience).1, fun _ _ queue message hmem ↦ ?_⟩
    obtain ⟨out, hout⟩ := honly _ hmem
    exact absurd hout (by simp)

/-- What the observer knows behind a segment: what it knew, and the queue of a session that the
segment opened. -/
theorem listen_segment (htold : Told (some server, audience)) (environment : Environment)
    (segment : Segment) {next : Session}
    (hnext : (runIn config.toConfig environment segment
      server.sessions).1[segmentId segment]? = some next) :
    listen config (some server) audience (.data (.segment environment segment))
      (segmentId segment) = some next.shmPeer := by
  change (sends (threadStep config (some server) (.data (.segment environment segment))).2).foldl
    hear audience (segmentId segment) = _
  rw [sends_segment]
  cases segmentHeard config.toConfig server environment segment with
  | known session hentry habout hkept =>
    have hknown := htold server rfl _ session hentry
    rw [(habout.heard hknown).2, hkept next hnext]
    exact hknown
  | opened shmPeer rest hentry houtputs habout hkept =>
    have hnow : hear audience (.toL7 shmPeer
        (l7Message (segmentId segment) segment miTcpOpen [])) (segmentId segment) =
        some shmPeer := by rw [hear_open, Function.update_self]
    rw [houtputs, List.foldl_cons, (habout.heard hnow).2, hkept next hnext]
    exact hnow
  | unheard hentry honly hnone => exact absurd (hnone.symm.trans hnext) (by simp)

/-- A segment tells the observer of no other session. -/
theorem listen_segment_other (htold : Told (some server, audience)) (environment : Environment)
    (segment : Segment) {sessionId : UInt64} (hid : segmentId segment ≠ sessionId) :
    listen config (some server) audience (.data (.segment environment segment)) sessionId =
      audience sessionId := by
  change (sends (threadStep config (some server) (.data (.segment environment segment))).2).foldl
    hear audience sessionId = _
  rw [sends_segment]
  cases segmentHeard config.toConfig server environment segment with
  | known session hentry habout hkept =>
    rw [(habout.heard (htold server rfl _ session hentry)).2]
  | opened shmPeer rest hentry houtputs habout hkept =>
    have hnow : hear audience (.toL7 shmPeer
        (l7Message (segmentId segment) segment miTcpOpen [])) (segmentId segment) =
        some shmPeer := by rw [hear_open, Function.update_self]
    rw [houtputs, List.foldl_cons, (habout.heard hnow).2, hear_open,
      Function.update_of_ne hid.symm]
  | unheard hentry honly hnone => rw [(honly.heard audience).2]

/-- A step that is no segment and puts no session in the map tells the observer nothing. -/
theorem listen_quiet (config : ServerConfig) (state : Option Server) (audience : Audience)
    {event : ThreadEvent} (hinsert : event ≠ .metaInsert)
    (hsegment : ∀ environment segment, event ≠ .data (.segment environment segment)) :
    listen config state audience event = audience := by
  have honly : OnlySegments (sends (threadStep config state event).2) :=
    onlySegments_threadStep config state hsegment
  have hheard := (honly.heard audience).2
  unfold listen
  split
  · exact absurd rfl hinsert
  · exact hheard

/-- A step that is no segment of a session and does not put it in the map tells nothing of it. -/
theorem listen_other (htold : Told (some server, audience)) {event : ThreadEvent}
    {sessionId : UInt64} (hentry : server.sessions[sessionId]? ≠ none)
    (hother : ∀ environment segment, event = .data (.segment environment segment) →
      segmentId segment ≠ sessionId) :
    listen config (some server) audience event sessionId = audience sessionId := by
  by_cases hinsert : event = .metaInsert
  · subst hinsert
    unfold listen
    dsimp only
    cases server.metaThread with
    | opened opened session =>
      dsimp only
      split_ifs with hnew
      · have hne : sessionId ≠ opened := by
          rintro rfl
          exact hentry hnew
        exact Function.update_of_ne hne ..
      · rfl
    | waiting => rfl
    | opening sender opening session => rfl
    | closing closing session => rfl
  · by_cases hsegment : ∃ environment segment, event = .data (.segment environment segment)
    · obtain ⟨environment, segment, rfl⟩ := hsegment
      exact listen_segment_other htold environment segment (hother environment segment rfl)
    · rw [listen_quiet config (some server) audience hinsert fun environment segment hevent ↦
        hsegment ⟨environment, segment, hevent⟩]

/-- The observer is told of the sessions in the map after the step. -/
theorem told_step {state : Option Server} (htold : Told (state, audience)) (event : ThreadEvent) :
    Told ((threadStep config state event).1, listen config state audience event) := by
  intro next hnext sessionId session hsession
  cases state with
  | none => exact absurd hnext (by simp [threadStep])
  | some server =>
    dsimp only at hnext
    have hentry := threadStep_entry hnext sessionId
    have hunchanged (kept : Session) (h : server.sessions[sessionId]? = some kept)
        (hpeer : session.shmPeer = kept.shmPeer)
        (hother : ∀ environment segment, event = .data (.segment environment segment) →
          segmentId segment ≠ sessionId) :
        listen config (some server) audience event sessionId = some session.shmPeer := by
      rw [listen_other htold (by simp [h]) hother, hpeer]
      exact htold server rfl sessionId kept h
    rw [hsession] at hentry
    generalize hafter : some session = after at hentry
    cases hentry with
    | idle hother => exact hunchanged session hafter.symm rfl hother
    | known hid h =>
      subst hid
      rw [← Option.some.inj hnext] at hsession
      exact listen_segment htold _ _ hsession
    | unknown hid h =>
      subst hid
      rw [← Option.some.inj hnext] at hsession
      exact listen_segment htold _ _ hsession
    | write hid h =>
      refine hunchanged _ h ?_ (by simp)
      rw [Option.some.inj hafter]
      exact shmPeer_addFromL7 _ _ _
    | visit h =>
      refine hunchanged _ h ?_ (by simp)
      rw [Option.some.inj hafter]
      exact shmPeer_senderVisit _ _
    | insert hopened h =>
      unfold listen
      dsimp only
      rw [hopened, Option.some.inj hafter]
      dsimp only
      rw [if_pos h]
      exact Function.update_self ..
    | remove hmeta => exact absurd hafter (by simp)

end Step

/-- In every run of all threads, each message of the server announces a session that is not in the
map, or goes to the queue that was last told of its session. -/
theorem announced_before_data (config : ServerConfig) (events : List ThreadEvent) :
    Along (observed (threadStep config) (listen config)) (Announced config)
      (some Server.start, fun _ ↦ none) events := by
  refine Along.of_invariant (I := Told) ?_ ?_ ?_ (along_true _ _ events)
  · intro server hserver sessionId session hsession
    rw [← Option.some.inj hserver] at hsession
    exact absurd hsession (by simp [Server.start])
  · exact fun state event htold _ ↦ told_step htold event
  · exact fun state event htold _ ↦ announced_step htold event

end MyIPNG.Tcp
