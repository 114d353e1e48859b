import MyIPNG.Tcp.RunOut

/-!
# The server and its sessions

The threads of `tcp_server.cpp` work on all sessions; the results of the other modules are about one
session. `serverStep` is the server under everything that can reach it. A session that stays in the
map goes through a run of `sessionStep`, and what that run puts out is part of what the server puts
out (`serverRun_session`): what holds for every run of a session holds for each session of a server.
-/

set_option autoImplicit false
set_option relaxedAutoImplicit false

namespace MyIPNG.Tcp

open Base

/-- What can reach the server: a segment, a message of an application, and the time for a pass of
the sender. -/
inductive ServerEvent
  | segment (environment : Environment) (segment : Segment)
  | message (message : List UInt8)
  | pass (accepts : UInt64 → ℕ → Bool)

/-- One event of the server. -/
def serverStep (config : Config) (sessions : Sessions) : ServerEvent → Sessions × List Output
  | .segment environment incoming => runIn config environment incoming sessions
  | .message message => (runOut message sessions, [])
  | .pass accepts => senderPass accepts sessions

/-- A session goes through a run of its own, and what that run puts out is among the outputs. -/
def Follows (config : Config) (sessionId : UInt64) (session : Session) (sessions : Sessions)
    (outputs : List Output) : Prop :=
  ∃ events : List SessionEvent,
    sessions[sessionId]? = (run (sessionStep config sessionId) (some session) events).1 ∧
      (run (sessionStep config sessionId) (some session) events).2.Sublist outputs

section Projection

variable {config : Config} {sessionId : UInt64} {session : Session} {sessions : Sessions}

/-- A step that leaves the session alone. -/
theorem follows_idle (h : sessions[sessionId]? = some session) (outputs : List Output) :
    Follows config sessionId session sessions outputs :=
  ⟨[], h, List.nil_sublist outputs⟩

/-- A step that is one event of the session. -/
theorem follows_event (event : SessionEvent) {outputs : List Output}
    (h : sessions[sessionId]? = (sessionStep config sessionId (some session) event).1)
    (houtputs : (sessionStep config sessionId (some session) event).2.Sublist outputs) :
    Follows config sessionId session sessions outputs := by
  refine ⟨[event], h, ?_⟩
  change (_ ++ []).Sublist outputs
  rwa [List.append_nil]

theorem follows_runIn (h : sessions[sessionId]? = some session) (environment : Environment)
    (segment : Segment) :
    Follows config sessionId session (runIn config environment segment sessions).1
      (runIn config environment segment sessions).2 := by
  by_cases hid : segmentId segment = sessionId
  · subst hid
    obtain ⟨hentry, houtputs⟩ := runIn_known config environment segment h
    refine follows_event (.segment environment segment) hentry ?_
    rw [houtputs]
    exact List.Sublist.refl _
  · refine follows_idle ?_ _
    rw [runIn_other config environment segment (Ne.symm hid), h]

theorem follows_runOut (h : sessions[sessionId]? = some session) (message : List UInt8) :
    Follows config sessionId session (runOut message sessions) [] := by
  rcases getElem?_runOut message sessions sessionId with hsame | ⟨found, -, hfound, hnext⟩
  · exact follows_idle (hsame.trans h) []
  · obtain rfl := Option.some.inj (hfound.symm.trans h)
    exact follows_event (.write (messageFlags message) (message.drop 12)) hnext
      (List.Sublist.refl _)

/-- The sender's loop leaves a session alone that is not among the remaining ones. -/
theorem getElem?_senderLoop_other (accepts : UInt64 → ℕ → Bool) {rest : List (UInt64 × Session)}
    (hrest : ∀ entry ∈ rest, entry.1 ≠ sessionId) (sessions : Sessions) :
    (senderLoop accepts rest sessions).1[sessionId]? = sessions[sessionId]? := by
  induction rest generalizing sessions with
  | nil => rfl
  | cons entry rest ih =>
    obtain ⟨other, current⟩ := entry
    have hother : (sessions.insert other
        (senderVisit (accepts other) current).session)[sessionId]? = sessions[sessionId]? :=
      getElem?_insert_other (hrest (other, current) List.mem_cons_self) _
    rw [senderLoop]
    split_ifs
    · exact hother
    · exact (ih (fun entry hentry ↦ hrest entry (List.mem_cons_of_mem _ hentry)) _).trans hother

/-- The sender's loop visits each of the remaining sessions at most once. -/
theorem follows_senderLoop (accepts : UInt64 → ℕ → Bool) {rest : List (UInt64 × Session)}
    (hdistinct : rest.Pairwise fun a b ↦ a.1 ≠ b.1) (hmem : (sessionId, session) ∈ rest)
    (h : sessions[sessionId]? = some session) :
    Follows config sessionId session (senderLoop accepts rest sessions).1
      (senderLoop accepts rest sessions).2 := by
  induction rest generalizing sessions with
  | nil => exact absurd hmem List.not_mem_nil
  | cons entry rest ih =>
    obtain ⟨hfirst, hrest⟩ := List.pairwise_cons.mp hdistinct
    rw [senderLoop]
    rcases List.mem_cons.mp hmem with rfl | hlater
    · have hself : (sessions.insert sessionId
          (senderVisit (accepts sessionId) session).session)[sessionId]? =
          some (senderVisit (accepts sessionId) session).session :=
        Std.ExtTreeMap.getElem?_insert_self
      split_ifs
      · exact follows_event (.visit (accepts sessionId)) hself (List.Sublist.refl _)
      · refine follows_event (.visit (accepts sessionId)) ?_ (List.sublist_append_left _ _)
        rw [getElem?_senderLoop_other accepts fun other hother ↦ (hfirst other hother).symm]
        exact hself
    · obtain ⟨other, current⟩ := entry
      have hne : other ≠ sessionId := hfirst (sessionId, session) hlater
      have hkept : (sessions.insert other
          (senderVisit (accepts other) current).session)[sessionId]? = some session := by
        rw [getElem?_insert_other hne, h]
      split_ifs
      · exact follows_idle hkept _
      · obtain ⟨events, hstate, houtputs⟩ := ih hrest hlater hkept
        exact ⟨events, hstate, houtputs.trans (List.sublist_append_right _ _)⟩

theorem follows_senderPass (h : sessions[sessionId]? = some session)
    (accepts : UInt64 → ℕ → Bool) :
    Follows config sessionId session (senderPass accepts sessions).1
      (senderPass accepts sessions).2 := by
  have hdistinct : sessions.toList.Pairwise fun a b ↦ a.1 ≠ b.1 :=
    Std.ExtTreeMap.distinct_keys_toList.imp fun hne ↦ by simpa using hne
  exact follows_senderLoop accepts hdistinct
    (Std.ExtTreeMap.mem_toList_iff_getElem?_eq_some.mpr h) h

/-- Every step of the server is a run of each of its sessions. -/
theorem serverStep_session (h : sessions[sessionId]? = some session) (event : ServerEvent) :
    Follows config sessionId session (serverStep config sessions event).1
      (serverStep config sessions event).2 := by
  cases event with
  | segment environment incoming => exact follows_runIn h environment incoming
  | message message => exact follows_runOut h message
  | pass accepts => exact follows_senderPass h accepts

/-- The session is still in the map after the step. -/
def Keeps (config : Config) (sessionId : UInt64) (sessions : Sessions) (event : ServerEvent) :
    Prop :=
  (serverStep config sessions event).1[sessionId]? ≠ none

/-- A run of the server in which a session stays in the map is a run of the session. -/
theorem serverRun_session (h : sessions[sessionId]? = some session) {events : List ServerEvent}
    (hkeeps : Along (serverStep config) (Keeps config sessionId) sessions events) :
    Follows config sessionId session (run (serverStep config) sessions events).1
      (run (serverStep config) sessions events).2 := by
  have hrun := run_induction (P := fun _ state outputs ↦
      Follows config sessionId session state outputs ∧ state[sessionId]? ≠ none)
    ⟨follows_idle h [], by simp [h]⟩ ?_ hkeeps
  · exact hrun.1
  · rintro - state outputs event ⟨⟨before, hbefore, hsublist⟩, hpresent⟩ hkept
    obtain ⟨current, hcurrent⟩ := Option.ne_none_iff_exists'.mp hpresent
    obtain ⟨after, hafter, hmore⟩ := serverStep_session hcurrent event
    refine ⟨⟨before ++ after, ?_, ?_⟩, hkept⟩
    · rw [run_append, ← hbefore, hcurrent]
      exact hafter
    · rw [run_append, ← hbefore, hcurrent]
      exact hsublist.append hmore

end Projection

end MyIPNG.Tcp
