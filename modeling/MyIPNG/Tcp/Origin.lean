import MyIPNG.Tcp.Established

/-!
# What stays with a session

Whose session it is, its local port and the time of its last segment are set when a session is made
and when a segment comes for it, and nothing else in the server changes them. `runInSession_origin`
says so of a whole segment: what it leaves has the origin of the session that `run_in` has touched,
and only the session of a server is ever released.
-/

set_option autoImplicit false
set_option relaxedAutoImplicit false

namespace MyIPNG.Tcp

open Base

/-- What no thread changes once a session is touched: whose session it is, its local port, and the
time of the last segment. -/
structure SameOrigin (session next : Session) : Prop where
  isClient_eq : next.isClient = session.isClient
  localPort_eq : next.localPort = session.localPort
  updatedTs_eq : next.updatedTs = session.updatedTs

theorem SameOrigin.trans {first second third : Session} (h : SameOrigin first second)
    (h' : SameOrigin second third) : SameOrigin first third :=
  ⟨h'.isClient_eq.trans h.isClient_eq, h'.localPort_eq.trans h.localPort_eq,
    h'.updatedTs_eq.trans h.updatedTs_eq⟩

section Origin

variable (config : Config) (environment : Environment) (sessionId : UInt64) (segment : Segment)

theorem afterAck_origin (session : Session) :
    SameOrigin session (afterAck segment session).1 := by
  unfold afterAck ackPending
  dsimp only
  split_ifs <;> exact ⟨rfl, rfl, rfl⟩

theorem deliverData_origin (session : Session) :
    SameOrigin session (deliverData environment sessionId segment session).session := by
  unfold deliverData
  dsimp only
  split_ifs <;> exact ⟨rfl, rfl, rfl⟩

theorem handleFin_origin (ackedPacket : Bool) (session : Session) :
    SameOrigin session (handleFin environment segment ackedPacket session).1 := by
  rw [handleFin_session]
  exact ⟨rfl, rfl, rfl⟩

theorem clean_origin (invalid invalidWRst invalidIncAck cleanSession : Bool) (session : Session) :
    ∃ next, (clean environment sessionId segment invalid invalidWRst invalidIncAck cleanSession
      (some session)).1 = some next ∧ SameOrigin session next := by
  unfold clean
  dsimp only
  split_ifs <;> exact ⟨_, rfl, rfl, rfl, rfl⟩

theorem processData_origin (invalid invalidIncAck resend : Bool) (session : Session) :
    ∃ next, (processData environment sessionId segment invalid invalidIncAck resend
      session).session = some next ∧ SameOrigin session next := by
  unfold processData
  dsimp only
  have hdata : SameOrigin session (if invalid = false then
      deliverData environment sessionId segment session
        else ⟨session, [], false, false⟩).session := by
    split_ifs
    · exact deliverData_origin environment sessionId segment session
    · exact ⟨rfl, rfl, rfl⟩
  obtain ⟨next, hnext, horigin⟩ := clean_origin environment sessionId segment invalid true
    invalidIncAck _ _
  exact ⟨next, hnext, hdata.trans ((handleFin_origin environment segment _ _).trans horigin)⟩

theorem synAcked_origin (session : Session) : SameOrigin session (synAcked segment session) := by
  unfold synAcked
  dsimp only
  split_ifs <;> exact ⟨rfl, rfl, rfl⟩

/-- A SYN leaves the session, or releases that of a server. -/
theorem synKnown_origin (session : Session) :
    let result := synKnown config environment sessionId segment session
    (∃ next, result.session = some next ∧ SameOrigin session next) ∨
      result.session = none ∧ session.isClient = false := by
  intro result
  by_cases hclient : session.isClient = true
  · refine Or.inl ?_
    by_cases hack : hasFlag segment.flags flagAck = true
    · have hacked := synAcked_origin segment session
      rcases (synKnown_synAck config environment sessionId segment hclient hack).1 with
        hnext | hnext
      · exact ⟨_, hnext, hacked⟩
      · exact ⟨_, hnext, hacked.trans ⟨rfl, rfl, rfl⟩⟩
    · simp only [result, synKnown_plainSyn_eq config environment sessionId segment hclient hack]
      exact processData_origin environment sessionId segment true true false session
  · simp only [result, synKnown_server_eq config environment sessionId segment hclient]
    split_ifs
    · exact Or.inl ⟨session, rfl, rfl, rfl, rfl⟩
    · exact Or.inl ⟨session, rfl, rfl, rfl, rfl⟩
    · exact Or.inr ⟨rfl, by simpa using hclient⟩

/-- A segment leaves its session touched, or releases that of a server. -/
theorem runInSession_origin (session : Session) :
    let result := runInSession config environment sessionId segment session
    (∃ next, result.session = some next ∧
        SameOrigin (touched environment segment session) next) ∨
      result.session = none ∧ session.isClient = false := by
  intro result
  by_cases hreset : session.state = .closed ∨ hasFlag segment.flags flagRst = true
  · exact Or.inl ⟨_, (runInSession_reset config environment sessionId segment hreset).1,
      rfl, rfl, rfl⟩
  · obtain ⟨hopen, hrst⟩ := not_or.mp hreset
    by_cases hsyn : hasFlag segment.flags flagSyn = true
    · simp only [result, runInSession_syn config environment sessionId segment hopen hrst hsyn]
      exact synKnown_origin config environment sessionId segment
        (touched environment segment session)
    · have hplain : Plain segment := ⟨by simpa using hsyn, by simpa using hrst⟩
      have hacked := afterAck_origin segment (touched environment segment session)
      exact Or.inl ⟨_, (runInSession_plain config environment sessionId hplain hopen).1,
        hacked.trans ⟨rfl, rfl, rfl⟩⟩

theorem addFromL7_origin (session : Session) (flags : UInt32) (what : List UInt8) :
    SameOrigin session (addFromL7 session flags what) := by
  unfold addFromL7
  dsimp only
  split_ifs <;> exact ⟨rfl, rfl, rfl⟩

theorem senderVisit_origin (accepts : ℕ → Bool) (session : Session) :
    SameOrigin session (senderVisit accepts session).session := by
  rw [senderVisit_eq]
  split_ifs <;> exact ⟨rfl, rfl, rfl⟩

end Origin

end MyIPNG.Tcp
