import MyIPNG.Tcp.Origin

/-!
# What `run_clean` deletes

`run_clean` reads the clock, collects the ids of the sessions that are over and idle under the
shared lock, and deletes the sessions with these ids under the exclusive lock. Between these steps
`run_in` processes segments: it refreshes `updated_ts`, it releases a session and makes a new one
with the same id. `run_clean` does not look at a session again before it deletes it, and its idle
time is an unsigned difference that wraps when a segment came behind the reading of the clock.

`Watch` is what an observer of the threads keeps: the last value of the clock, the time of every
segment, and the ids for which a segment came or a session was inserted since `run_clean` read the
clock. `clean_deletes_idle` says that a pass deletes only sessions that are over and that received
no segment for `TCP_WAIT_FIN`, if none of the sessions that it deletes was touched during the pass.
-/

set_option autoImplicit false
set_option relaxedAutoImplicit false

namespace MyIPNG.Tcp

open Base

/-! ### The observer -/

/-- What the observer keeps: the last value of `get_us`, the id and the time of every segment, and
the ids that were touched since `run_clean` read the clock. -/
structure Watch where
  latest : UInt64
  received : List (UInt64 × UInt64)
  touched : List UInt64
deriving DecidableEq, Repr

/-- Nothing was observed. -/
def Watch.start : Watch := ⟨0, [], []⟩

/-- What the observer makes of a step. -/
def watch : Option Server → Watch → ThreadEvent → Watch
  | some _, seen, .data (.segment environment segment) =>
    ⟨environment.nowUs, (segmentId segment, environment.nowUs) :: seen.received,
      segmentId segment :: seen.touched⟩
  | some server, seen, .metaInsert =>
    match server.metaThread with
    | .opened sessionId _ => { seen with touched := sessionId :: seen.touched }
    | _ => seen
  | some server, seen, .cleanClock now =>
    match server.cleanThread with
    | .sleeping => { seen with latest := now, touched := [] }
    | _ => seen
  | _, seen, _ => seen

/-- `get_us` gives no value that is before an earlier one. -/
def ClockAdvances (state : Option Server × Watch) (event : ThreadEvent) : Prop :=
  state.2.latest ≤ (watch state.1 state.2 event).latest

instance (state : Option Server × Watch) (event : ThreadEvent) :
    Decidable (ClockAdvances state event) :=
  inferInstanceAs (Decidable (_ ≤ _))

/-- The ids that `run_clean` has collected. -/
def collectedIds : CleanThread → List UInt64
  | .collected cleanList => cleanList
  | .sleeping => []
  | .timed _ => []

/-- Since `run_clean` read the clock, no segment came for a session that it is about to delete, and
no session was inserted under its id. -/
def PassUndisturbed : Option Server × Watch → ThreadEvent → Prop
  | (some server, seen), .cleanDelete =>
    ∀ sessionId ∈ collectedIds server.cleanThread, sessionId ∈ server.sessions →
      sessionId ∉ seen.touched
  | _, _ => True

instance : ∀ state event, Decidable (PassUndisturbed state event)
  | (some server, seen), .cleanDelete =>
    List.decidableBAll (fun sessionId ↦ sessionId ∈ server.sessions → sessionId ∉ seen.touched)
      (collectedIds server.cleanThread)
  | (some _, _), .data _ => isTrue trivial
  | (some _, _), .metaRequest _ _ => isTrue trivial
  | (some _, _), .metaReply _ => isTrue trivial
  | (some _, _), .metaInsert => isTrue trivial
  | (some _, _), .metaFin _ => isTrue trivial
  | (some _, _), .cleanClock _ => isTrue trivial
  | (some _, _), .cleanCollect => isTrue trivial
  | (none, _), _ => isTrue trivial

/-- Both sides have closed the session, or it was reset. -/
def Finished (session : Session) : Prop :=
  session.state = .closed ∨ session.halfClosed = true ∧ session.finSent = true

/-- `run_clean` deletes only sessions that are finished, and for which, at whatever time that the
clock can show by now, no segment came during the preceding `TCP_WAIT_FIN`. -/
def DeletesIdle : Option Server × Watch → ThreadEvent → Prop
  | (some server, seen), .cleanDelete =>
    ∀ sessionId ∈ collectedIds server.cleanThread, ∀ session,
      server.sessions[sessionId]? = some session →
        Finished session ∧ ∀ now, seen.latest ≤ now → ∀ time, (sessionId, time) ∈ seen.received →
          time.toNat + tcpWaitFinUs.toNat < now.toNat
  | _, _ => True

/-! ### The sessions between two segments -/

/-- What a write of the application and a visit of the sender keep of a session. -/
structure Aged (session next : Session) : Prop where
  updatedTs_eq : next.updatedTs = session.updatedTs
  state_eq : next.state = session.state
  halfClosed_eq : next.halfClosed = session.halfClosed
  finSent : session.finSent = true → next.finSent = true

theorem Aged.finished {session next : Session} (h : Aged session next)
    (hfinished : Finished session) : Finished next := by
  rw [Finished, h.state_eq, h.halfClosed_eq]
  exact hfinished.imp_right fun hboth ↦ ⟨hboth.1, h.finSent hboth.2⟩

theorem addFromL7_aged (session : Session) (flags : UInt32) (what : List UInt8) :
    Aged session (addFromL7 session flags what) := by
  unfold addFromL7
  dsimp only
  split_ifs <;> exact ⟨rfl, rfl, rfl, id⟩

theorem senderVisit_aged (accepts : ℕ → Bool) (session : Session) :
    Aged session (senderVisit accepts session).session := by
  rw [senderVisit_eq]
  by_cases hsends : Sends session
  · have hunsent : session.finSent = false := hsends.1.2
    have hvisited : Aged session (visited session) :=
      ⟨rfl, rfl, rfl, fun hsent ↦ absurd hsent (by simp [hunsent])⟩
    rw [if_pos hsends]
    split_ifs
    · exact ⟨rfl, rfl, rfl, id⟩
    · exact hvisited
    · exact hvisited
  · rw [if_neg hsends]
    exact ⟨rfl, rfl, rfl, id⟩

/-- A session that no segment has come for since it was made. -/
structure NewlyMade (session : Session) : Prop where
  updatedTs_eq : session.updatedTs = 0
  notClosed : session.state ≠ .closed
  halfOpen : session.halfClosed = false

/-- A session that is made from an acknowledgement is newly made: a segment with a FIN makes
none. -/
theorem newlyMade_of_runInNew {config : Config} {environment : Environment} {sessionId : UInt64}
    {segment : Segment} {session : Session}
    (h : (runInNew config environment sessionId segment).session = some session) :
    NewlyMade session := by
  obtain ⟨shmPeer, hcompletes, rfl⟩ := completes_of_session h
  refine ⟨rfl, ?_, ?_⟩
  · change TcpState.established ≠ .closed
    decide
  · change (false || hasFlag segment.flags flagFin) = false
    rw [hcompletes.fin]
    rfl

theorem Opens.newlyMade {entry : UInt64 × Session} (h : Opens entry) : NewlyMade entry.2 := by
  obtain ⟨_, _, _, _, _, _, -, hsession⟩ := h
  rw [hsession]
  exact ⟨rfl, by simp [openSession], rfl⟩

/-- All that a step leaves under an id: a session that only aged, one that a segment came for, or a
newly made one. Assumes: a session that is being opened is newly made. -/
theorem EntryStep.origins {config : Config} {server : Server} {sessionId : UInt64}
    {event : ThreadEvent} {session : Session}
    (h : EntryStep config server sessionId event (some session))
    (hpending : ∀ entry, pendingOpen server.metaThread = some entry → NewlyMade entry.2) :
    (∃ before, server.sessions[sessionId]? = some before ∧ Aged before session ∧
      ∀ environment segment, event = .data (.segment environment segment) →
        segmentId segment ≠ sessionId) ∨
    (∃ environment segment, event = .data (.segment environment segment) ∧
      segmentId segment = sessionId ∧
        (session.updatedTs = environment.nowUs ∨ NewlyMade session)) ∨
    event = .metaInsert ∧ (∃ opened, server.metaThread = .opened sessionId opened) ∧
      NewlyMade session := by
  generalize hentry : some session = entry at h
  cases h with
  | idle hother => exact Or.inl ⟨session, hentry.symm, ⟨rfl, rfl, rfl, id⟩, hother⟩
  | @known environment segment before hid hbefore =>
    refine Or.inr (Or.inl ⟨environment, segment, rfl, hid, Or.inl ?_⟩)
    rcases runInSession_origin config environment sessionId segment before with
      ⟨next, hnext, horigin⟩ | ⟨hnone, -⟩
    · rw [Option.some.inj (hentry.trans hnext), horigin.updatedTs_eq]
      rfl
    · exact absurd (hentry.trans hnone) (by simp)
  | @unknown environment segment hid hnone =>
    exact Or.inr (Or.inl ⟨environment, segment, rfl, hid,
      Or.inr (newlyMade_of_runInNew hentry.symm)⟩)
  | @write message before hid hbefore =>
    refine Or.inl ⟨before, hbefore, ?_, by simp⟩
    rw [Option.some.inj hentry]
    exact addFromL7_aged before _ _
  | @visit accepts before hbefore =>
    refine Or.inl ⟨before, hbefore, ?_, by simp⟩
    rw [Option.some.inj hentry]
    exact senderVisit_aged _ before
  | @insert opened hopened hnone =>
    refine Or.inr (Or.inr ⟨rfl, ⟨opened, hopened⟩, ?_⟩)
    rw [Option.some.inj hentry]
    exact hpending (sessionId, opened) (by rw [hopened]; rfl)
  | remove hmeta => exact absurd hentry (by simp)

/-! ### The invariant -/

/-- What the observer knows of a session: its `updated_ts` is a value that the clock has shown, and
once the peer has closed or reset it, no segment came behind `updated_ts`. -/
structure Dated (seen : Watch) (sessionId : UInt64) (session : Session) : Prop where
  shown : session.updatedTs ≤ seen.latest
  last : session.state = .closed ∨ session.halfClosed = true →
    ∀ time, (sessionId, time) ∈ seen.received → time ≤ session.updatedTs

/-- The invariant of the threads and the observer. A session that was not touched since `run_clean`
read the clock was not refreshed behind that value; one that was also collected is finished and
idle. -/
structure CleanInvariant (server : Server) (seen : Watch) : Prop where
  received : ∀ sessionId time, (sessionId, time) ∈ seen.received → time ≤ seen.latest
  pending : ∀ entry, pendingOpen server.metaThread = some entry → NewlyMade entry.2
  dated : ∀ (sessionId : UInt64) session, server.sessions[sessionId]? = some session →
    Dated seen sessionId session
  timed : ∀ now, server.cleanThread = .timed now → now ≤ seen.latest ∧
    ∀ (sessionId : UInt64) session, server.sessions[sessionId]? = some session →
      sessionId ∉ seen.touched → session.updatedTs ≤ now
  collected : ∀ cleanList, server.cleanThread = .collected cleanList → ∃ now ≤ seen.latest,
    ∀ sessionId ∈ cleanList, ∀ session, server.sessions[sessionId]? = some session →
      sessionId ∉ seen.touched → Finished session ∧
        session.updatedTs.toNat + tcpWaitFinUs.toNat < now.toNat

section Steps

variable {config : ServerConfig} {server next : Server} {seen : Watch} {event : ThreadEvent}

/-- The segments that the observer knows: those before, and the one of the step. -/
theorem mem_received_watch {sessionId time : UInt64}
    (h : (sessionId, time) ∈ (watch (some server) seen event).received) :
    (sessionId, time) ∈ seen.received ∨
      (∃ environment segment, event = .data (.segment environment segment) ∧
        segmentId segment = sessionId) ∧ (watch (some server) seen event).latest = time := by
  unfold watch at h
  split at h
  · next environment segment hstate =>
    rcases List.mem_cons.mp h with hnew | hold
    · refine Or.inr ⟨⟨environment, segment, rfl, ?_⟩, ?_⟩
      · exact (congrArg Prod.fst hnew).symm
      · exact (congrArg Prod.snd hnew).symm
    · exact Or.inl hold
  · split at h
    · exact Or.inl h
    · exact Or.inl h
  · split at h
    · exact Or.inl h
    · exact Or.inl h
  · exact Or.inl h

/-- What an id that is not touched says of the step, and of the steps before. -/
theorem not_touched_watch {sessionId : UInt64} (hclock : ∀ now, event ≠ .cleanClock now)
    (h : sessionId ∉ (watch (some server) seen event).touched) :
    sessionId ∉ seen.touched ∧
      (∀ environment segment, event = .data (.segment environment segment) →
        segmentId segment ≠ sessionId) ∧
      (event = .metaInsert → ∀ session, server.metaThread ≠ .opened sessionId session) := by
  cases event with
  | data input =>
    cases input with
    | segment environment segment =>
      obtain ⟨hnew, hold⟩ := not_or.mp fun hmem ↦ h (List.mem_cons.mpr hmem)
      refine ⟨hold, ?_, by simp⟩
      rintro _ _ ⟨⟩
      exact Ne.symm hnew
    | message message => exact ⟨h, by simp, by simp⟩
    | pass accepts => exact ⟨h, by simp, by simp⟩
  | metaInsert =>
    cases hthread : server.metaThread with
    | opened opened session =>
      simp only [watch, hthread, List.mem_cons, not_or] at h
      refine ⟨h.2, by simp, ?_⟩
      rintro - _ ⟨⟩
      exact h.1 rfl
    | _ =>
      simp only [watch, hthread] at h
      exact ⟨h, by simp, by simp⟩
  | cleanClock now => exact absurd rfl (hclock now)
  | _ => exact ⟨h, by simp, by simp⟩

/-- A session that is not touched by the step was in the map, and aged at most. -/
theorem CleanInvariant.untouched (h : CleanInvariant server seen)
    (hnext : (threadStep config (some server) event).1 = some next)
    (hclock : ∀ now, event ≠ .cleanClock now) {sessionId : UInt64} {session : Session}
    (hentry : next.sessions[sessionId]? = some session)
    (huntouched : sessionId ∉ (watch (some server) seen event).touched) :
    sessionId ∉ seen.touched ∧
      ∃ before, server.sessions[sessionId]? = some before ∧ Aged before session := by
  obtain ⟨hbefore, hsegment, hinsert⟩ := not_touched_watch hclock huntouched
  have hstep := threadStep_entry hnext sessionId
  rw [hentry] at hstep
  rcases hstep.origins h.pending with
    ⟨before, hold, haged, -⟩ | ⟨environment, segment, rfl, hid, -⟩ | ⟨rfl, ⟨opened, hopened⟩, -⟩
  · exact ⟨hbefore, before, hold, haged⟩
  · exact absurd hid (hsegment environment segment rfl)
  · exact absurd hopened (hinsert rfl opened)

/-- The session that is being opened stays newly made. -/
theorem CleanInvariant.pending_step (h : CleanInvariant server seen)
    (hnext : (threadStep config (some server) event).1 = some next) (entry : UInt64 × Session)
    (hentry : pendingOpen next.metaThread = some entry) : NewlyMade entry.2 := by
  rcases threadStep_pending hnext hentry with hsame | hopens | ⟨before, hbefore, hsession⟩
  · exact h.pending entry hsame
  · exact hopens.newlyMade
  · have hmade := h.pending _ hbefore
    rw [hsession]
    exact ⟨hmade.updatedTs_eq, hmade.notClosed, hmade.halfOpen⟩

/-- The observer goes on to know the sessions. Assumes: the clock does not go back. -/
theorem CleanInvariant.dated_step (h : CleanInvariant server seen)
    (hadvances : ClockAdvances (some server, seen) event)
    (hnext : (threadStep config (some server) event).1 = some next) (sessionId : UInt64)
    (session : Session) (hentry : next.sessions[sessionId]? = some session) :
    Dated (watch (some server) seen event) sessionId session := by
  have hstep := threadStep_entry hnext sessionId
  rw [hentry] at hstep
  have hnewlyMade : NewlyMade session →
      Dated (watch (some server) seen event) sessionId session := by
    intro hmade
    refine ⟨?_, fun hover ↦ ?_⟩
    · rw [hmade.updatedTs_eq]
      exact UInt64.zero_le
    · rcases hover with hclosed | hhalf
      · exact absurd hclosed hmade.notClosed
      · exact absurd hhalf (by simp [hmade.halfOpen])
  rcases hstep.origins h.pending with
    ⟨before, hold, haged, hother⟩ | ⟨environment, segment, rfl, hid, htouched | hmade⟩ |
      ⟨-, -, hmade⟩
  · have hdated := h.dated sessionId before hold
    refine ⟨?_, fun hover time hmem ↦ ?_⟩
    · rw [haged.updatedTs_eq]
      exact UInt64.le_trans hdated.shown hadvances
    · rw [haged.updatedTs_eq]
      rw [haged.state_eq, haged.halfClosed_eq] at hover
      rcases mem_received_watch hmem with hbefore | ⟨⟨environment, segment, hsegment, hid⟩, -⟩
      · exact hdated.last hover time hbefore
      · exact absurd hid (hother environment segment hsegment)
  · -- the segment of the step is the last one, and `updated_ts` is its time
    refine ⟨?_, fun _ time hmem ↦ ?_⟩
    · rw [htouched]
      exact UInt64.le_refl _
    · rw [htouched]
      rcases mem_received_watch hmem with hbefore | ⟨-, htime⟩
      · exact UInt64.le_trans (h.received sessionId time hbefore) hadvances
      · rw [← htime]
        exact UInt64.le_refl _
  · exact hnewlyMade hmade
  · exact hnewlyMade hmade

/-- Only `run_clean` itself moves `run_clean` on. -/
theorem cleanThread_threadStep (hnext : (threadStep config (some server) event).1 = some next)
    (hclean : (∀ now, event ≠ .cleanClock now) ∧ event ≠ .cleanCollect ∧ event ≠ .cleanDelete) :
    next.cleanThread = server.cleanThread := by
  cases event with
  | data input => rw [← Option.some.inj hnext]
  | metaRequest environment message =>
    simp only [threadStep] at hnext
    split at hnext
    · rcases metaRequest_cases hnext with rfl | ⟨sender, entry, -, rfl⟩ | ⟨sessionId, -, rfl⟩
      · rfl
      · rfl
      · unfold closeRequest
        split <;> rfl
    · rw [← Option.some.inj hnext]
  | metaReply accepted =>
    rw [← Option.some.inj hnext]
    simp only [metaReply]
    split
    · split_ifs <;> rfl
    · rfl
  | metaInsert =>
    rw [← Option.some.inj hnext]
    simp only [metaInsert]
    split <;> rfl
  | metaFin accepted =>
    simp only [threadStep, metaFin] at hnext
    split at hnext
    · split at hnext
      · exact absurd hnext (by simp)
      · rw [← Option.some.inj hnext]
    · rw [← Option.some.inj hnext]
  | cleanClock now => exact absurd rfl (hclean.1 now)
  | cleanCollect => exact absurd rfl hclean.2.1
  | cleanDelete => exact absurd rfl hclean.2.2

/-- A session that `run_clean` collects. -/
theorem isOver_of_mem_collect {now sessionId : UInt64} {sessions : Sessions} {session : Session}
    (h : sessionId ∈ collect now sessions) (hentry : sessions[sessionId]? = some session) :
    isOver now session = true := by
  obtain ⟨⟨other, found⟩, hmem, hid⟩ := List.mem_map.mp h
  obtain ⟨hlisted, hover⟩ := List.mem_filter.mp hmem
  have hfound := Std.ExtTreeMap.mem_toList_iff_getElem?_eq_some.mp hlisted
  have hsame : other = sessionId := hid
  rw [hsame, hentry] at hfound
  rwa [← Option.some.inj hfound] at hover

/-- A session that is over at a time that is not before its `updated_ts`: the difference of the two
does not wrap. -/
theorem finished_of_isOver {now : UInt64} {session : Session} (h : isOver now session = true)
    (hbefore : session.updatedTs ≤ now) :
    Finished session ∧ session.updatedTs.toNat + tcpWaitFinUs.toNat < now.toNat := by
  simp only [isOver, Bool.and_eq_true, decide_eq_true_eq, Bool.or_eq_true, beq_iff_eq] at h
  obtain ⟨hidle, hfinished⟩ := h
  refine ⟨hfinished.symm, ?_⟩
  have hnat : tcpWaitFinUs.toNat < (now - session.updatedTs).toNat :=
    UInt64.lt_iff_toNat_lt.mp hidle
  rw [UInt64.toNat_sub_of_le _ _ hbefore] at hnat
  omega

/-- No segment came after the last reading of the clock. -/
theorem CleanInvariant.received_step (h : CleanInvariant server seen)
    (hadvances : ClockAdvances (some server, seen) event) (sessionId time : UInt64)
    (hmem : (sessionId, time) ∈ (watch (some server) seen event).received) :
    time ≤ (watch (some server) seen event).latest := by
  rcases mem_received_watch hmem with hbefore | ⟨-, htime⟩
  · exact UInt64.le_trans (h.received sessionId time hbefore) hadvances
  · rw [← htime]
    exact UInt64.le_refl _

/-- A step in which `run_clean` stays where it is. Assumes: the clock does not go back. -/
theorem CleanInvariant.stays_step (h : CleanInvariant server seen)
    (hadvances : ClockAdvances (some server, seen) event)
    (hnext : (threadStep config (some server) event).1 = some next)
    (hclock : ∀ now, event ≠ .cleanClock now) (hthread : next.cleanThread = server.cleanThread) :
    CleanInvariant next (watch (some server) seen event) := by
  refine ⟨h.received_step hadvances, h.pending_step hnext, h.dated_step hadvances hnext, ?_, ?_⟩
  · intro now hnow
    obtain ⟨hshown, htimed⟩ := h.timed now (hthread ▸ hnow)
    refine ⟨UInt64.le_trans hshown hadvances, fun sessionId session hentry huntouched ↦ ?_⟩
    obtain ⟨hold, before, hbefore, haged⟩ := h.untouched hnext hclock hentry huntouched
    rw [haged.updatedTs_eq]
    exact htimed sessionId before hbefore hold
  · intro cleanList hlist
    obtain ⟨now, hshown, hcollected⟩ := h.collected cleanList (hthread ▸ hlist)
    refine ⟨now, UInt64.le_trans hshown hadvances,
      fun sessionId hlisted session hentry huntouched ↦ ?_⟩
    obtain ⟨hold, before, hbefore, haged⟩ := h.untouched hnext hclock hentry huntouched
    obtain ⟨hfinished, hidle⟩ := hcollected sessionId hlisted before hbefore hold
    rw [haged.updatedTs_eq]
    exact ⟨haged.finished hfinished, hidle⟩

/-- The step lemma. Assumes: the clock does not go back. -/
theorem cleanInvariant_step (h : CleanInvariant server seen)
    (hadvances : ClockAdvances (some server, seen) event)
    (hnext : (threadStep config (some server) event).1 = some next) :
    CleanInvariant next (watch (some server) seen event) := by
  have hreceived := h.received_step hadvances
  have hstays := h.stays_step hadvances hnext
  cases event with
  | cleanClock now =>
    obtain rfl := Option.some.inj hnext
    cases hthread : server.cleanThread with
    | sleeping =>
      have hlatest : seen.latest ≤ now := by
        simpa only [ClockAdvances, watch, hthread] using hadvances
      refine ⟨hreceived, h.pending_step hnext, h.dated_step hadvances hnext, ?_, ?_⟩
      · intro read hread
        simp only [cleanStep, hthread, CleanThread.timed.injEq] at hread
        subst hread
        simp only [cleanStep, watch, hthread]
        refine ⟨UInt64.le_refl _, fun sessionId session hentry _ ↦ ?_⟩
        exact UInt64.le_trans (h.dated sessionId session hentry).shown hlatest
      · intro cleanList hlist
        exact absurd hlist (by simp [cleanStep, hthread])
    | timed read => simpa [cleanStep, watch, hthread] using h
    | collected cleanList => simpa [cleanStep, watch, hthread] using h
  | cleanCollect =>
    obtain rfl := Option.some.inj hnext
    cases hthread : server.cleanThread with
    | timed now =>
      obtain ⟨hshown, htimed⟩ := h.timed now hthread
      refine ⟨hreceived, h.pending_step hnext, h.dated_step hadvances hnext, ?_, ?_⟩
      · intro read hread
        exact absurd hread (by simp [cleanStep, hthread])
      · intro cleanList hlist
        simp only [cleanStep, hthread, CleanThread.collected.injEq] at hlist
        subst hlist
        simp only [cleanStep, hthread]
        refine ⟨now, hshown, fun sessionId hlisted session hentry huntouched ↦ ?_⟩
        exact finished_of_isOver (isOver_of_mem_collect hlisted hentry)
          (htimed sessionId session hentry huntouched)
    | sleeping => exact hstays (by simp) (by simp [cleanStep, hthread])
    | collected cleanList => exact hstays (by simp) (by simp [cleanStep, hthread])
  | cleanDelete =>
    obtain rfl := Option.some.inj hnext
    cases hthread : server.cleanThread with
    | collected cleanList =>
      refine ⟨hreceived, h.pending_step hnext, h.dated_step hadvances hnext, ?_, ?_⟩
      · intro read hread
        exact absurd hread (by simp [cleanStep, hthread])
      · intro other hother
        exact absurd hother (by simp [cleanStep, hthread])
    | sleeping => exact hstays (by simp) (by simp [cleanStep, hthread])
    | timed now => exact hstays (by simp) (by simp [cleanStep, hthread])
  | _ => exact hstays (by simp) (cleanThread_threadStep hnext (by simp))

/-- What the invariant says of a deletion. Assumes: no session that is deleted was touched during
the pass. -/
theorem deletesIdle_of_invariant (h : CleanInvariant server seen)
    (hundisturbed : PassUndisturbed (some server, seen) event) :
    DeletesIdle (some server, seen) event := by
  cases event with
  | cleanDelete =>
    intro sessionId hlisted session hentry
    cases hthread : server.cleanThread with
    | collected cleanList =>
      have huntouched : sessionId ∉ seen.touched := by
        refine hundisturbed sessionId hlisted ?_
        rw [Std.ExtTreeMap.mem_iff_isSome_getElem?, hentry]
        rfl
      rw [hthread] at hlisted
      obtain ⟨read, hshown, hcollected⟩ := h.collected cleanList hthread
      obtain ⟨hfinished, hidle⟩ := hcollected sessionId hlisted session hentry huntouched
      refine ⟨hfinished, fun now hnow time hmem ↦ ?_⟩
      have hlast : time ≤ session.updatedTs :=
        (h.dated sessionId session hentry).last (hfinished.imp_right And.left) time hmem
      have hread := UInt64.le_iff_toNat_le.mp (UInt64.le_trans hshown hnow)
      have htime := UInt64.le_iff_toNat_le.mp hlast
      omega
    | sleeping => exact absurd hlisted (by simp [collectedIds, hthread])
    | timed now => exact absurd hlisted (by simp [collectedIds, hthread])
  | _ => trivial

end Steps

/-! ### Whole runs -/

theorem cleanInvariant_start : CleanInvariant .start .start := by
  refine ⟨by simp [Watch.start], ?_, ?_, ?_, ?_⟩
  · rintro _ ⟨⟩
  · intro sessionId session hentry
    exact absurd hentry (by simp [Server.start])
  · rintro _ ⟨⟩
  · rintro _ ⟨⟩

/-- What `run_clean` deletes. Assumes: the clock does not go back, and at each deletion no session
that is deleted received a segment or was inserted since `run_clean` read the clock. Every session
that is deleted is then closed or half closed with its FIN sent, and received no segment for
`TCP_WAIT_FIN`. -/
theorem clean_deletes_idle (config : ServerConfig) (events : List ThreadEvent)
    (hadvances : Along (observed (threadStep config) watch) ClockAdvances
      (some .start, .start) events)
    (hundisturbed : Along (observed (threadStep config) watch) PassUndisturbed
      (some .start, .start) events) :
    Along (observed (threadStep config) watch) DeletesIdle (some .start, .start) events := by
  refine Along.of_invariant
    (I := fun state ↦ ∀ server, state.1 = some server → CleanInvariant server state.2)
    ?_ ?_ ?_ (hadvances.and hundisturbed)
  · rintro _ ⟨⟩
    exact cleanInvariant_start
  · rintro ⟨_ | server, seen⟩ event hinvariant ⟨hclock, -⟩ next hnext
    · exact absurd hnext (by simp [observed, threadStep])
    · exact cleanInvariant_step (hinvariant server rfl) hclock hnext
  · rintro ⟨_ | server, seen⟩ event hinvariant ⟨-, hpass⟩
    · cases event <;> trivial
    · exact deletesIdle_of_invariant (hinvariant server rfl) hpass

/-- The sample surroundings at a time of `get_us`. -/
def sampleClock (nowUs : UInt64) : Environment :=
  { sampleAt (nowUs.toNat / 1000000) with nowUs := nowUs }

/-- The peer completes a handshake and resets the session, and 31 seconds later `run_clean` makes a
pass. -/
def samplePass : List ThreadEvent :=
  [.data (.segment (sampleClock 1000) (sampleAck 0)),
    .data (.segment (sampleClock 1000000) sampleRst),
    .cleanClock 32000000, .cleanCollect, .cleanDelete]

/-- The pass deletes the session, which is closed and idle. -/
theorem clean_deletes_idle_reset :
    (run (threadStep sampleServer) (some .start) (samplePass.take 2)).1.map (fun server ↦
        server.sessions.size) = some 1 ∧
      (run (threadStep sampleServer) (some .start) samplePass).1.map (fun server ↦
        server.sessions.size) = some 0 ∧
      Along (observed (threadStep sampleServer) watch) DeletesIdle (some .start, .start)
        samplePass :=
  ⟨by decide +kernel, by decide +kernel,
    clean_deletes_idle sampleServer samplePass (by decide +kernel) (by decide +kernel)⟩

/-- Both sides close the session, `run_clean` collects it, and the peer connects again from the same
port: a SYN releases the session, an acknowledgement makes a new one. -/
def sampleReuse : List ThreadEvent :=
  [.data (.segment (sampleClock 1000) (sampleAck 0)),
    .data (.segment (sampleClock 2000) (sampleSegment 8 0 flagFin [] length_nil_lt)),
    .data (.message (l7Write (segmentId sampleSyn) 1 [])), .data (.pass fun _ _ ↦ true),
    .cleanClock 30010000, .cleanCollect,
    .data (.segment (sampleClock 30010100) sampleSyn),
    .data (.segment (sampleClock 30010200) (sampleAck 0))]

/-- `run_clean` deletes the new session, which is established. -/
theorem new_session_is_deleted :
    Along (observed (threadStep sampleServer) watch) ClockAdvances (some .start, .start)
        (sampleReuse ++ [.cleanDelete]) ∧
      ¬ DeletesIdle (run (observed (threadStep sampleServer) watch) (some .start, .start)
        sampleReuse).1 .cleanDelete := by
  refine ⟨by decide +kernel, ?_⟩
  have hlast : (run (observed (threadStep sampleServer) watch) (some .start, .start)
      sampleReuse).1.1.map (fun server ↦ (collectedIds server.cleanThread,
        server.sessions[segmentId sampleSyn]?.map fun session ↦
          (session.state, session.halfClosed))) =
      some ([segmentId sampleSyn], some (.established, false)) := by decide +kernel
  generalize (run (observed (threadStep sampleServer) watch) (some .start, .start)
    sampleReuse).1 = before at hlast
  obtain ⟨state, seen⟩ := before
  obtain ⟨server, hserver, hparts⟩ := Option.map_eq_some_iff.mp hlast
  obtain ⟨hlisted, hentry⟩ := Prod.ext_iff.mp hparts
  obtain ⟨session, hsession, hfields⟩ := Option.map_eq_some_iff.mp hentry
  obtain ⟨hstate, hhalf⟩ := Prod.ext_iff.mp hfields
  dsimp only at hserver hlisted hstate hhalf
  subst hserver
  intro hidle
  rcases (hidle (segmentId sampleSyn) (by rw [hlisted]; exact List.mem_singleton_self _) session
    hsession).1 with hclosed | ⟨hclosed, -⟩
  · exact absurd (hstate.symm.trans hclosed) (by decide)
  · exact absurd (hhalf.symm.trans hclosed) (by decide)

end MyIPNG.Tcp
