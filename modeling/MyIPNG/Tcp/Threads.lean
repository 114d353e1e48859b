import MyIPNG.Tcp.Handshake
import MyIPNG.Tcp.Meta

/-!
# What a step of the threads does to one session

A step of the server works on the map of all sessions. `EntryStep` lists all that it can do to the
entry of one id, and `threadStep_entry` says that it does one of these things: an invariant of the
sessions needs one case for each of them and no look at the threads. `threadStep_pending` says the
same of the session that `run_meta` is about to put in the map.
-/

set_option autoImplicit false
set_option relaxedAutoImplicit false

namespace MyIPNG.Tcp

open Base

/-! ### Single operations on the map -/

section Operations

variable {sessions : Sessions} {sessionId : UInt64}

/-- What the sender's loop does to the entry of an id: it visits the session at most once. -/
theorem getElem?_senderLoop (accepts : UInt64 → ℕ → Bool) {rest : List (UInt64 × Session)}
    (hdistinct : rest.Pairwise fun a b ↦ a.1 ≠ b.1)
    (hrest : ∀ entry ∈ rest, sessions[entry.1]? = some entry.2) :
    (senderLoop accepts rest sessions).1[sessionId]? = sessions[sessionId]? ∨
      ∃ session, sessions[sessionId]? = some session ∧
        (senderLoop accepts rest sessions).1[sessionId]? =
          some (senderVisit (accepts sessionId) session).session := by
  induction rest generalizing sessions with
  | nil => exact Or.inl rfl
  | cons entry rest ih =>
    obtain ⟨other, current⟩ := entry
    obtain ⟨hfirst, hdistinct⟩ := List.pairwise_cons.mp hdistinct
    have hcurrent : sessions[other]? = some current := hrest (other, current) List.mem_cons_self
    have hother : ∀ entry ∈ rest, entry.1 ≠ other := fun entry hentry ↦ (hfirst entry hentry).symm
    have hlater : ∀ entry ∈ rest, (sessions.insert other
        (senderVisit (accepts other) current).session)[entry.1]? = some entry.2 := by
      intro entry hentry
      rw [getElem?_insert_other (hother entry hentry).symm]
      exact hrest entry (List.mem_cons_of_mem _ hentry)
    rw [senderLoop]
    by_cases hid : other = sessionId
    · subst hid
      refine Or.inr ⟨current, hcurrent, ?_⟩
      split_ifs
      · exact Std.ExtTreeMap.getElem?_insert_self
      · exact (getElem?_senderLoop_other accepts hother _).trans
          Std.ExtTreeMap.getElem?_insert_self
    · split_ifs
      · exact Or.inl (getElem?_insert_other hid _)
      · have hkept : (sessions.insert other
            (senderVisit (accepts other) current).session)[sessionId]? = sessions[sessionId]? :=
          getElem?_insert_other hid _
        rw [← hkept]
        exact ih hdistinct hlater

theorem getElem?_senderPass (accepts : UInt64 → ℕ → Bool) (sessions : Sessions)
    (sessionId : UInt64) :
    (senderPass accepts sessions).1[sessionId]? = sessions[sessionId]? ∨
      ∃ session, sessions[sessionId]? = some session ∧
        (senderPass accepts sessions).1[sessionId]? =
          some (senderVisit (accepts sessionId) session).session := by
  refine getElem?_senderLoop accepts ?_ ?_
  · exact Std.ExtTreeMap.distinct_keys_toList.imp fun hne ↦ by simpa using hne
  · exact fun entry hentry ↦ Std.ExtTreeMap.mem_toList_iff_getElem?_eq_some.mp hentry

/-- What the deletion of a list of ids does to the entry of an id. -/
theorem getElem?_deleteAll (cleanList : List UInt64) (sessions : Sessions) :
    (deleteAll cleanList sessions)[sessionId]? =
      if sessionId ∈ cleanList then none else sessions[sessionId]? := by
  exact getElem?_foldl_erase cleanList sessions sessionId

end Operations

/-! ### All that a step can do -/

/-- All that a step of the server can do to the entry of an id. -/
inductive EntryStep (config : Config) (server : Server) (sessionId : UInt64) :
    ThreadEvent → Option Session → Prop
  | idle {event : ThreadEvent}
      (hother : ∀ environment segment, event = .data (.segment environment segment) →
        segmentId segment ≠ sessionId) :
      EntryStep config server sessionId event server.sessions[sessionId]?
  | known {environment : Environment} {segment : Segment} {session : Session}
      (hid : segmentId segment = sessionId) (h : server.sessions[sessionId]? = some session) :
      EntryStep config server sessionId (.data (.segment environment segment))
        (runInSession config environment sessionId segment session).session
  | unknown {environment : Environment} {segment : Segment}
      (hid : segmentId segment = sessionId) (h : server.sessions[sessionId]? = none) :
      EntryStep config server sessionId (.data (.segment environment segment))
        (runInNew config environment sessionId segment).session
  | write {message : List UInt8} {session : Session}
      (hid : 12 ≤ message.length ∧ messageId message = sessionId)
      (h : server.sessions[sessionId]? = some session) :
      EntryStep config server sessionId (.data (.message message))
        (some (addFromL7 session (messageFlags message) (message.drop 12)))
  | visit {accepts : UInt64 → ℕ → Bool} {session : Session}
      (h : server.sessions[sessionId]? = some session) :
      EntryStep config server sessionId (.data (.pass accepts))
        (some (senderVisit (accepts sessionId) session).session)
  | insert {session : Session} (hopened : server.metaThread = .opened sessionId session)
      (h : server.sessions[sessionId]? = none) :
      EntryStep config server sessionId .metaInsert (some session)
  | remove {event : ThreadEvent} (hmeta : ∀ input, event ≠ .data input) :
      EntryStep config server sessionId event none

/-- The segments, messages and passes. -/
theorem serverStep_entry (config : Config) (server : Server) (event : ServerEvent)
    (sessionId : UInt64) :
    EntryStep config server sessionId (.data event)
      (serverStep config server.sessions event).1[sessionId]? := by
  cases event with
  | segment environment segment =>
    change EntryStep _ _ _ _ (runIn config environment segment server.sessions).1[sessionId]?
    by_cases hid : segmentId segment = sessionId
    · subst hid
      cases hentry : server.sessions[segmentId segment]? with
      | some session =>
        rw [(runIn_known config environment segment hentry).1]
        exact .known rfl hentry
      | none =>
        rw [(runIn_unknown config environment segment hentry).1]
        exact .unknown rfl hentry
    · rw [runIn_other config environment segment (Ne.symm hid)]
      refine .idle ?_
      rintro _ _ ⟨⟩
      exact hid
  | message message =>
    change EntryStep _ _ _ _ (runOut message server.sessions)[sessionId]?
    rcases getElem?_runOut message server.sessions sessionId with
      hsame | ⟨session, hid, hentry, hnext⟩
    · rw [hsame]
      exact .idle (by simp)
    · rw [hnext]
      exact .write hid hentry
  | pass accepts =>
    change EntryStep _ _ _ _ (senderPass accepts server.sessions).1[sessionId]?
    rcases getElem?_senderPass accepts server.sessions sessionId with
      hsame | ⟨session, hentry, hnext⟩
    · rw [hsame]
      exact .idle (by simp)
    · rw [hnext]
      exact .visit hentry

/-- The session that `run_meta` is opening. -/
def pendingOpen : MetaThread → Option (UInt64 × Session)
  | .waiting => none
  | .opening _ sessionId session => some (sessionId, session)
  | .opened sessionId session => some (sessionId, session)
  | .closing _ _ => none

/-- A session as an open makes it. -/
def Opens (entry : UInt64 × Session) : Prop :=
  ∃ fromAddr dstAddr srcPort dstPort shmDataAddress localSeq,
    entry.1 = sessionIdOf dstPort srcPort dstAddr fromAddr ∧
      entry.2 = openSession fromAddr dstAddr srcPort dstPort shmDataAddress localSeq

/-- The id of the session that a message asks to close. -/
def closedId (environment : MetaEnvironment) (message : MetaMessage) : Option UInt64 :=
  match parseMeta environment.freshBytes message.data with
  | .request request => if request.action = .close then request.sessionId else none
  | .invalid => none
  | .throws => none

section Entry

variable {config : ServerConfig} {server next : Server}

/-- All that a request can do: nothing, the begin of an open from a port that is not allocated, or
the begin of a close. -/
theorem metaRequest_cases {environment : MetaEnvironment} {message : MetaMessage}
    (h : (metaRequest config environment message server).1 = some next) :
    next = server ∨
      (∃ sender entry, (Opens entry ∧ server.localAllocatedPorts[entry.2.localPort]? = none) ∧
        next = { server with metaThread := .opening sender entry.1 entry.2 }) ∨
      ∃ sessionId, closedId environment message = some sessionId ∧
        next = closeRequest sessionId server := by
  unfold metaRequest at h
  split at h
  · exact Or.inl (Option.some.inj h).symm
  · exact absurd h (by simp)
  · next request hrequest =>
    split at h
    · split at h
      · unfold openRequest at h
        split at h
        · exact Or.inl (Option.some.inj h).symm
        · next srcPort hfound =>
          have hfree := List.find?_some hfound
          split at h
          · exact absurd h (by simp)
          · next sessionId hid =>
            split_ifs at h with hlong hshort
            dsimp only at h
            split_ifs at h with hrefused
            · exact Or.inl (Option.some.inj h).symm
            · refine Or.inr (Or.inl ⟨_, (_, _),
                ⟨⟨_, _, _, _, _, _, calcSessionId_eq_some hid, rfl⟩, ?_⟩,
                (Option.some.inj h).symm⟩)
              exact Std.ExtTreeMap.getElem?_eq_none_of_contains_eq_false (by simpa using hfree)
      · exact Or.inl (Option.some.inj h).symm
    · next haction =>
      split at h
      · next sessionId hid =>
        refine Or.inr (Or.inr ⟨sessionId, ?_, (Option.some.inj h).symm⟩)
        rw [closedId, hrequest]
        exact (if_pos haction).trans hid
      · exact Or.inl (Option.some.inj h).symm

/-- A request to close begins the close. -/
theorem metaRequest_closedId {environment : MetaEnvironment} {message : MetaMessage}
    {sessionId : UInt64} (h : closedId environment message = some sessionId) :
    (metaRequest config environment message server).1 = some (closeRequest sessionId server) := by
  unfold closedId at h
  unfold metaRequest
  split at h
  · next request hrequest =>
    split_ifs at h with haction
    simp only [hrequest, haction, h]
  · exact absurd h (by simp)
  · exact absurd h (by simp)

/-- A request leaves the sessions alone or takes one out of the map, and makes at most the session
that it opens. -/
theorem metaRequest_effect {environment : MetaEnvironment} {message : MetaMessage}
    (h : (metaRequest config environment message server).1 = some next) :
    (∀ sessionId : UInt64, next.sessions[sessionId]? = server.sessions[sessionId]? ∨
        next.sessions[sessionId]? = none) ∧
      (∀ entry, pendingOpen next.metaThread = some entry →
        pendingOpen server.metaThread = some entry ∨ Opens entry) := by
  rcases metaRequest_cases h with
    rfl | ⟨sender, entry, ⟨hopens, -⟩, rfl⟩ | ⟨sessionId, -, rfl⟩
  · exact ⟨fun _ ↦ Or.inl rfl, fun _ hentry ↦ Or.inl hentry⟩
  · refine ⟨fun _ ↦ Or.inl rfl, fun other hother ↦ Or.inr ?_⟩
    rwa [← Option.some.inj hother]
  · unfold closeRequest
    split
    · refine ⟨fun other ↦ ?_, fun _ hentry ↦ absurd hentry (by simp [pendingOpen])⟩
      rw [Std.ExtTreeMap.getElem?_erase]
      split_ifs
      · exact Or.inr rfl
      · exact Or.inl rfl
    · exact ⟨fun _ ↦ Or.inl rfl, fun _ hentry ↦ Or.inl hentry⟩

/-- `run_clean` leaves `run_meta` alone. -/
theorem metaThread_cleanStep (server : Server) (event : ThreadEvent) :
    (cleanStep server event).metaThread = server.metaThread := by
  unfold cleanStep
  split
  · split <;> rfl
  · split <;> rfl
  · split <;> rfl
  · rfl

theorem sessions_metaReply (accepted : Bool) (server : Server) :
    (metaReply accepted server).1.sessions = server.sessions := by
  unfold metaReply
  split
  · dsimp only
    split_ifs <;> rfl
  · rfl

theorem sessions_metaFin {accepted : Bool} (h : (metaFin accepted server).1 = some next) :
    next.sessions = server.sessions := by
  simp only [metaFin] at h
  split at h
  · split at h
    · exact absurd h (by simp)
    · rw [← Option.some.inj h]
  · rw [← Option.some.inj h]

/-- The insertion makes an entry of the session that was opened, unless there is one. -/
theorem getElem?_metaInsert (server : Server) (sessionId : UInt64) :
    (metaInsert server).sessions[sessionId]? = server.sessions[sessionId]? ∨
      ∃ session, server.metaThread = .opened sessionId session ∧
        server.sessions[sessionId]? = none ∧
        (metaInsert server).sessions[sessionId]? = some session := by
  unfold metaInsert
  split
  · next opened session hopened =>
    dsimp only
    by_cases hid : opened = sessionId
    · subst hid
      cases hentry : server.sessions[opened]? with
      | some kept => exact Or.inl (getElem?_insertIfNew_of_some hentry session)
      | none => exact Or.inr ⟨session, hopened, rfl, getElem?_insertIfNew_of_none hentry session⟩
    · exact Or.inl (getElem?_insertIfNew_other hid session)
  · exact Or.inl rfl

/-- `run_clean` leaves an entry alone or deletes it. -/
theorem getElem?_cleanStep (server : Server) (event : ThreadEvent) (sessionId : UInt64) :
    (cleanStep server event).sessions[sessionId]? = server.sessions[sessionId]? ∨
      (cleanStep server event).sessions[sessionId]? = none := by
  unfold cleanStep
  split
  · split <;> exact Or.inl rfl
  · split <;> exact Or.inl rfl
  · split
    · dsimp only
      rw [getElem?_deleteAll]
      split_ifs
      · exact Or.inr rfl
      · exact Or.inl rfl
    · exact Or.inl rfl
  · exact Or.inl rfl

/-- Every step does one of the listed things to the entry of an id. -/
theorem threadStep_entry {event : ThreadEvent}
    (h : (threadStep config (some server) event).1 = some next) (sessionId : UInt64) :
    EntryStep config.toConfig server sessionId event next.sessions[sessionId]? := by
  -- a step of `run_meta` or `run_clean` other than the insertion
  have hkept : (∀ input, event ≠ .data input) →
      (next.sessions[sessionId]? = server.sessions[sessionId]? ∨
        next.sessions[sessionId]? = none) →
      EntryStep config.toConfig server sessionId event next.sessions[sessionId]? := by
    rintro hmeta (hsame | hnone)
    · rw [hsame]
      exact .idle fun environment segment hsegment ↦ absurd hsegment (hmeta _)
    · rw [hnone]
      exact .remove hmeta
  cases event with
  | data input =>
    rw [← Option.some.inj h]
    exact serverStep_entry config.toConfig server input sessionId
  | metaRequest environment message =>
    refine hkept (by simp) ?_
    simp only [threadStep] at h
    split at h
    · exact (metaRequest_effect h).1 sessionId
    · rw [← Option.some.inj h]
      exact Or.inl rfl
  | metaReply accepted =>
    refine hkept (by simp) (Or.inl ?_)
    rw [← Option.some.inj h, sessions_metaReply]
  | metaInsert =>
    obtain rfl := Option.some.inj h
    rcases getElem?_metaInsert server sessionId with hsame | ⟨session, hopened, hnone, hnew⟩
    · exact hkept (by simp) (Or.inl hsame)
    · rw [hnew]
      exact .insert hopened hnone
  | metaFin accepted =>
    refine hkept (by simp) (Or.inl ?_)
    rw [sessions_metaFin h]
  | cleanClock now =>
    obtain rfl := Option.some.inj h
    exact hkept (by simp) (getElem?_cleanStep server _ sessionId)
  | cleanCollect =>
    obtain rfl := Option.some.inj h
    exact hkept (by simp) (getElem?_cleanStep server _ sessionId)
  | cleanDelete =>
    obtain rfl := Option.some.inj h
    exact hkept (by simp) (getElem?_cleanStep server _ sessionId)

/-- The session that `run_meta` is opening: it was there before the step, the step made it, or the
step sent the reply and counted the SYN. -/
theorem threadStep_pending {event : ThreadEvent} {entry : UInt64 × Session}
    (h : (threadStep config (some server) event).1 = some next)
    (hentry : pendingOpen next.metaThread = some entry) :
    pendingOpen server.metaThread = some entry ∨ Opens entry ∨
      ∃ before, pendingOpen server.metaThread = some (entry.1, before) ∧
        entry.2 = { before with localSeq := before.localSeq + 1 } := by
  cases event with
  | data input =>
    rw [← Option.some.inj h] at hentry
    exact Or.inl hentry
  | metaRequest environment message =>
    simp only [threadStep] at h
    split at h
    · exact ((metaRequest_effect h).2 entry hentry).imp_right Or.inl
    · rw [← Option.some.inj h] at hentry
      exact Or.inl hentry
  | metaReply accepted =>
    rw [← Option.some.inj h] at hentry
    unfold metaReply at hentry
    split at hentry
    · next sender sessionId session hopening =>
      dsimp only at hentry
      split_ifs at hentry with haccepted
      · refine Or.inr (Or.inr ⟨session, ?_, ?_⟩)
        · rw [hopening, ← Option.some.inj hentry]
          rfl
        · rw [← Option.some.inj hentry]
      · exact absurd hentry (by simp [pendingOpen])
    · exact Or.inl hentry
  | metaInsert =>
    rw [← Option.some.inj h] at hentry
    unfold metaInsert at hentry
    split at hentry
    · exact absurd hentry (by simp [pendingOpen])
    · exact Or.inl hentry
  | metaFin accepted =>
    simp only [threadStep, metaFin] at h
    split at h
    · split at h
      · exact absurd h (by simp)
      · rw [← Option.some.inj h] at hentry
        exact absurd hentry (by simp [pendingOpen])
    · rw [← Option.some.inj h] at hentry
      exact Or.inl hentry
  | cleanClock now =>
    rw [← Option.some.inj h, metaThread_cleanStep] at hentry
    exact Or.inl hentry
  | cleanCollect =>
    rw [← Option.some.inj h, metaThread_cleanStep] at hentry
    exact Or.inl hentry
  | cleanDelete =>
    rw [← Option.some.inj h, metaThread_cleanStep] at hentry
    exact Or.inl hentry

end Entry

end MyIPNG.Tcp
