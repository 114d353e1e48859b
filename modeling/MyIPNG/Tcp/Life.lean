import MyIPNG.Tcp.Replies

/-!
# The life of a session, with its close

`sessionStep` is a session under segments, writes and visits of the sender. `lifeStep` adds the
close of `run_meta`, which takes the session out of the map, counts `local_seq` up and sends a FIN
with that number. What the threads do to a session is such a life: as long as the session stays in
the map a run of the threads is a run of `lifeStep` for it (`threadRun_session`), a request to close
takes it out of the map as it is (`closing_of_request`), no other thread sees it from then on
(`closing_kept`), and the FIN is that of `lifeStep` (`metaFin_closing`).
-/

set_option autoImplicit false
set_option relaxedAutoImplicit false

namespace MyIPNG.Tcp

open Base

/-- What can reach a session, a close by `run_meta` included. -/
inductive LifeEvent
  | event (event : SessionEvent)
  | close (accepted : Bool)

/-- What a close sends for a session that it has taken out of the map. -/
def closeFin (accepted : Bool) (session : Session) : List Output :=
  (sendTcpPacket (fun _ ↦ accepted)
    (metaHeader { session with localSeq := session.localSeq + 1 } flagFin) minTcpMtu).1.map .toIp

/-- One event in the life of a session. -/
def lifeStep (config : Config) (sessionId : UInt64) :
    Option Session → LifeEvent → Option Session × List Output
  | state, .event event => sessionStep config sessionId state event
  | some session, .close accepted => (none, closeFin accepted session)
  | none, .close _ => (none, [])

/-- The FIN of a close is one segment without data. -/
theorem emitted_closeFin (accepted : Bool) (session : Session) :
    emitted (closeFin accepted session) =
      if accepted then [metaHeader { session with localSeq := session.localSeq + 1 } flagFin]
      else [] := by
  rw [closeFin, emitted_map_toIp, sendTcpPacket_empty _ _ _ rfl]
  split_ifs <;> rfl

/-! ### A session that is gone -/

section Gone

variable (config : Config) (sessionId : UInt64)

theorem lifeStep_none (event : LifeEvent) :
    lifeStep config sessionId none event = (none, []) := by
  cases event <;> rfl

end Gone

/-! ### The threads -/

section Threads

variable {config : ServerConfig} {server next : Server} {sessionId : UInt64} {session : Session}

/-- A session of the server goes through a run of its own. -/
def FollowsThreads (config : ServerConfig) (sessionId : UInt64) (session : Session)
    (state : Option Server) (outputs : List ServerOutput) : Prop :=
  ∃ server, state = some server ∧
    Follows config.toConfig sessionId session server.sessions (sends outputs)

/-- The session is in the map behind the step. -/
def StaysIn (config : ServerConfig) (sessionId : UInt64) (state : Option Server)
    (event : ThreadEvent) : Prop :=
  ∀ next, (threadStep config state event).1 = some next → next.sessions[sessionId]? ≠ none

/-- The server goes on behind the step. -/
def GoesOn (config : ServerConfig) (state : Option Server) (event : ThreadEvent) : Prop :=
  (threadStep config state event).1 ≠ none

/-- A step of the threads that leaves a session in the map is a run of the session. -/
theorem threadStep_session (h : server.sessions[sessionId]? = some session) {event : ThreadEvent}
    (hnext : (threadStep config (some server) event).1 = some next)
    (hstays : next.sessions[sessionId]? ≠ none) :
    Follows config.toConfig sessionId session next.sessions
      (sends (threadStep config (some server) event).2) := by
  have hother (hmeta : ∀ input, event ≠ .data input) :
      next.sessions[sessionId]? = some session := by
    have hentry := threadStep_entry hnext sessionId
    generalize hafter : next.sessions[sessionId]? = after at *
    cases hentry with
    | idle => exact h
    | known => exact absurd rfl (hmeta _)
    | unknown => exact absurd rfl (hmeta _)
    | write => exact absurd rfl (hmeta _)
    | visit => exact absurd rfl (hmeta _)
    | insert _ hnone => exact absurd (h.symm.trans hnone) (by simp)
    | remove => exact absurd rfl hstays
  cases event with
  | data input =>
    obtain rfl := Option.some.inj hnext
    change Follows _ _ _ (serverStep config.toConfig server.sessions input).1
      (sends ((serverStep config.toConfig server.sessions input).2.map .send))
    rw [sends_map_send]
    exact serverStep_session h input
  | _ => exact follows_idle (hother (by simp)) _

/-- A run of the threads in which a session stays in the map is a run of the session. -/
theorem threadRun_session (h : server.sessions[sessionId]? = some session)
    {events : List ThreadEvent}
    (hkeeps : Along (threadStep config)
      (fun state event ↦ GoesOn config state event ∧ StaysIn config sessionId state event)
      (some server) events) :
    FollowsThreads config sessionId session (run (threadStep config) (some server) events).1
      (run (threadStep config) (some server) events).2 := by
  have hrun := run_induction (P := fun _ state outputs ↦
      FollowsThreads config sessionId session state outputs ∧
        ∀ current, state = some current → current.sessions[sessionId]? ≠ none)
    ⟨⟨server, rfl, follows_idle h _⟩, ?_⟩ ?_ hkeeps
  · exact hrun.1
  · rintro current ⟨⟩
    rw [h]
    simp
  · rintro - state outputs event ⟨⟨current, rfl, before, hbefore, hsublist⟩, hpresent⟩
      ⟨hgoes, hstays⟩
    obtain ⟨found, hfound⟩ := Option.ne_none_iff_exists'.mp (hpresent current rfl)
    obtain ⟨next, hnext⟩ := Option.ne_none_iff_exists'.mp hgoes
    obtain ⟨after, hafter, hmore⟩ := threadStep_session hfound hnext (hstays next hnext)
    refine ⟨⟨next, hnext, before ++ after, ?_, ?_⟩, hstays⟩
    · rw [run_append, ← hbefore, hfound]
      exact hafter
    · rw [run_append, ← hbefore, hfound, sends_append]
      exact hsublist.append hmore

/-- A request to close takes the session out of the map as it is. -/
theorem closing_of_request (h : server.sessions[sessionId]? = some session)
    (hwaiting : server.metaThread = .waiting) {environment : MetaEnvironment}
    {message : MetaMessage} (hid : closedId environment message = some sessionId)
    (hnext : (threadStep config (some server) (.metaRequest environment message)).1 = some next) :
    next.metaThread = .closing sessionId session ∧ next.sessions[sessionId]? = none := by
  simp only [threadStep, hwaiting] at hnext
  rw [metaRequest_closedId hid, closeRequest, h] at hnext
  rw [← Option.some.inj hnext]
  exact ⟨rfl, Std.ExtTreeMap.getElem?_erase_self⟩

/-- A session that is about to be closed is not reached by another step than its FIN. -/
theorem closing_kept {event : ThreadEvent}
    (hclosing : server.metaThread = .closing sessionId session)
    (hnext : (threadStep config (some server) event).1 = some next)
    (hfin : ∀ accepted, event ≠ .metaFin accepted) :
    next.metaThread = .closing sessionId session := by
  cases event with
  | data input =>
    rw [← Option.some.inj hnext]
    exact hclosing
  | metaRequest environment message =>
    simp only [threadStep, hclosing] at hnext
    rw [← Option.some.inj hnext]
    exact hclosing
  | metaReply accepted =>
    rw [← Option.some.inj hnext]
    simp only [metaReply, hclosing]
  | metaInsert =>
    rw [← Option.some.inj hnext]
    simp only [metaInsert, hclosing]
  | metaFin accepted => exact absurd rfl (hfin accepted)
  | cleanClock now =>
    rw [← Option.some.inj hnext, metaThread_cleanStep, hclosing]
  | cleanCollect =>
    rw [← Option.some.inj hnext, metaThread_cleanStep, hclosing]
  | cleanDelete =>
    rw [← Option.some.inj hnext, metaThread_cleanStep, hclosing]

/-- What the last step of a close sends. -/
theorem metaFin_closing (hclosing : server.metaThread = .closing sessionId session)
    (accepted : Bool) (hnext : (metaFin accepted server).1 = some next) :
    sends (metaFin accepted server).2 = closeFin accepted session := by
  unfold metaFin at hnext ⊢
  rw [hclosing] at hnext ⊢
  dsimp only at hnext ⊢
  cases hport : server.localAllocatedPorts[session.localPort]? with
  | none =>
    rw [hport] at hnext
    exact absurd hnext (by simp)
  | some owner =>
    have hmap : ∀ segments : List OutSegment,
        (segments.map fun segment ↦ ServerOutput.send (.toIp segment)) =
          (segments.map Output.toIp).map .send := fun segments ↦ by rw [List.map_map]; rfl
    dsimp only
    rw [hmap, sends_map_send]
    rfl

end Threads

end MyIPNG.Tcp
