import MyIPNG.Tcp.Origin

/-!
# The local ports of the sessions that were opened

`run_meta` keeps in `local_allocated_ports` which port belongs to which session that it opened. It
records a port when it puts the session in the map and frees it when it closes the session. The
sessions of the map can leave it in other ways, and the map holds sessions that were not opened but
accepted.

`PortsMatch` says that the records are those of the sessions that were opened, and that a close
finds the record of its session. `ports_match_iff` says in which runs that is so in every state: a
close names no session that was accepted, an open finds its id free when it puts the session in the
map, and `run_clean` deletes no session that was opened.
-/

set_option autoImplicit false
set_option relaxedAutoImplicit false

namespace MyIPNG.Tcp

open Base

/-! ### Records and sessions -/

/-- The server has a session of a client with this id and local port: it is in the map, or
`run_meta` has taken it out of the map and is about to free its port. -/
def HasPort (server : Server) (sessionId : UInt64) (port : UInt16) : Prop :=
  ∃ session, (server.sessions[sessionId]? = some session ∨
    server.metaThread = .closing sessionId session) ∧
      session.isClient = true ∧ session.localPort = port

/-- The records of the ports are those of the sessions of the clients, so that the loop over random
ports ends with the first one that none of them has, and a close finds the record of its session. -/
structure PortsMatch (server : Server) : Prop where
  records : ∀ (port : UInt16) (sessionId : UInt64),
    server.localAllocatedPorts[port]? = some sessionId ↔ HasPort server sessionId port
  free : ∀ port : UInt16, server.localAllocatedPorts.contains port = false ↔
    ∀ sessionId, ¬ HasPort server sessionId port
  closing : ∀ sessionId session, server.metaThread = .closing sessionId session →
    server.localAllocatedPorts[session.localPort]? = some sessionId

/-- The step keeps the records. A request to close names no session that was accepted. An open that
puts its session in the map finds no session with its id. `run_clean` deletes no session that was
opened. -/
def PortsKept : Option Server → ThreadEvent → Prop
  | some server, .metaRequest environment message =>
    server.metaThread = .waiting → ∀ sessionId session,
      closedId environment message = some sessionId →
        server.sessions[sessionId]? = some session → session.isClient = true
  | some server, .metaInsert =>
    ∀ sessionId session, server.metaThread = .opened sessionId session →
      server.sessions[sessionId]? = none
  | some server, .cleanDelete =>
    ∀ cleanList, server.cleanThread = .collected cleanList → ∀ sessionId ∈ cleanList, ∀ session,
      server.sessions[sessionId]? = some session → session.isClient = false
  | _, _ => True

/-- The local port of the session of a client. -/
def clientPort (entry : Option Session) : Option UInt16 :=
  entry.bind fun session ↦ if session.isClient then some session.localPort else none

theorem clientPort_some_iff {entry : Option Session} {port : UInt16} :
    clientPort entry = some port ↔
      ∃ session, entry = some session ∧ session.isClient = true ∧ session.localPort = port := by
  cases entry with
  | none => simp [clientPort]
  | some session => simp [clientPort]

theorem clientPort_none_iff {entry : Option Session} :
    clientPort entry = none ↔ ∀ session, entry = some session → session.isClient = false := by
  cases entry with
  | none => simp [clientPort]
  | some session => simp [clientPort]

theorem SameOrigin.clientPort_eq {session next : Session} (h : SameOrigin session next) :
    clientPort (some next) = clientPort (some session) := by
  simp only [clientPort, Option.bind_some, h.isClient_eq, h.localPort_eq]

/-- The map and the session that is being closed. -/
theorem hasPort_iff {server : Server} {sessionId : UInt64} {port : UInt16} :
    HasPort server sessionId port ↔ clientPort server.sessions[sessionId]? = some port ∨
      ∃ session, server.metaThread = .closing sessionId session ∧ session.isClient = true ∧
        session.localPort = port := by
  rw [clientPort_some_iff, HasPort, ← exists_or]
  exact exists_congr fun session ↦ or_and_right

/-- While `run_meta` closes no session, only the map counts. -/
theorem hasPort_iff_of_open {server : Server} {sessionId : UInt64} {port : UInt16}
    (h : ∀ other session, server.metaThread ≠ .closing other session) :
    HasPort server sessionId port ↔ clientPort server.sessions[sessionId]? = some port := by
  rw [hasPort_iff]
  refine ⟨fun hport ↦ hport.resolve_right ?_, Or.inl⟩
  rintro ⟨session, hclosing, -⟩
  exact h sessionId session hclosing

/-- The records decide which ports are free. -/
theorem portsMatch_of_records {server : Server}
    (records : ∀ (port : UInt16) (sessionId : UInt64),
      server.localAllocatedPorts[port]? = some sessionId ↔ HasPort server sessionId port)
    (closing : ∀ sessionId session, server.metaThread = .closing sessionId session →
      server.localAllocatedPorts[session.localPort]? = some sessionId) :
    PortsMatch server := by
  refine ⟨records, fun port ↦ ?_, closing⟩
  rw [Std.ExtTreeMap.contains_eq_isSome_getElem?, Option.isSome_eq_false_iff,
    Option.isNone_iff_eq_none, Option.eq_none_iff_forall_ne_some]
  exact forall_congr' fun sessionId ↦ not_congr (records port sessionId)

/-- The invariant of the records: they match, the port of a session that is being opened is free,
and a session that is being closed is that of a client and has left the map. -/
structure PortsInvariant (server : Server) : Prop extends PortsMatch server where
  pending : ∀ entry, pendingOpen server.metaThread = some entry → entry.2.isClient = true ∧
    server.localAllocatedPorts[entry.2.localPort]? = none
  closed : ∀ sessionId session, server.metaThread = .closing sessionId session →
    session.isClient = true ∧ clientPort server.sessions[sessionId]? = none

/-! ### The steps -/

section Steps

variable {config : ServerConfig} {server next : Server}

/-- A segment, a message or a pass leaves the clients' sessions in the map and makes none. -/
theorem clientPort_data {config : Config} {event : ServerEvent} {sessionId : UInt64}
    {entry : Option Session} (h : EntryStep config server sessionId (.data event) entry) :
    clientPort entry = clientPort server.sessions[sessionId]? := by
  cases h with
  | idle => rfl
  | @known environment segment session hid hentry =>
    rw [hentry]
    rcases runInSession_origin config environment sessionId segment session with
      ⟨next, hnext, horigin⟩ | ⟨hnone, hserver⟩
    · rw [hnext]
      exact horigin.clientPort_eq
    · rw [hnone]
      exact (clientPort_none_iff.mpr (by rintro _ ⟨⟩; exact hserver)).symm
  | @unknown environment segment hid hentry =>
    rw [hentry]
    refine clientPort_none_iff.mpr fun session hsession ↦ ?_
    obtain ⟨shmPeer, -, rfl⟩ := completes_of_session hsession
    rfl
  | write hid hentry =>
    rw [hentry]
    exact (addFromL7_origin _ _ _).clientPort_eq
  | visit hentry =>
    rw [hentry]
    exact (senderVisit_origin _ _).clientPort_eq
  | remove hmeta => exact absurd rfl (hmeta event)

/-- A step that leaves `run_meta` with its table, and every client's session in the map, keeps the
invariant. -/
theorem PortsInvariant.of_same (h : PortsInvariant server)
    (hports : next.localAllocatedPorts = server.localAllocatedPorts)
    (hthread : next.metaThread = server.metaThread)
    (hclients : ∀ sessionId : UInt64,
      clientPort next.sessions[sessionId]? = clientPort server.sessions[sessionId]?) :
    PortsInvariant next := by
  refine ⟨portsMatch_of_records ?_ ?_, ?_, ?_⟩
  · intro port sessionId
    rw [hports, h.records, hasPort_iff, hasPort_iff, hthread, hclients]
  · rw [hports, hthread]
    exact h.closing
  · rw [hports, hthread]
    exact h.pending
  · intro sessionId session hclosing
    rw [hclients]
    exact h.closed sessionId session (hthread ▸ hclosing)

/-- No session is being closed while `run_meta` waits. -/
theorem not_closing_of_waiting (h : server.metaThread = .waiting) (sessionId : UInt64)
    (session : Session) : server.metaThread ≠ .closing sessionId session := by
  simp [h]

/-- No session is being closed while one is being opened. -/
theorem not_closing_of_pending {entry : UInt64 × Session}
    (h : pendingOpen server.metaThread = some entry) (sessionId : UInt64) (session : Session) :
    server.metaThread ≠ .closing sessionId session := by
  intro hclosing
  rw [hclosing] at h
  exact absurd h (by simp [pendingOpen])

/-- A close takes the session of a client out of the map. -/
theorem PortsInvariant.closeRequest (h : PortsInvariant server)
    (hwaiting : server.metaThread = .waiting) {sessionId : UInt64}
    (hclient : ∀ session, server.sessions[sessionId]? = some session → session.isClient = true) :
    PortsInvariant (closeRequest sessionId server) := by
  unfold Tcp.closeRequest
  cases hentry : server.sessions[sessionId]? with
  | none => exact h
  | some session =>
    dsimp only
    have hown := hclient session hentry
    have hrecord : server.localAllocatedPorts[session.localPort]? = some sessionId :=
      (h.records _ _).mpr ⟨session, Or.inl hentry, hown, rfl⟩
    refine ⟨portsMatch_of_records ?_ ?_, ?_, ?_⟩
    · intro port other
      rw [h.records, hasPort_iff_of_open (not_closing_of_waiting hwaiting), hasPort_iff]
      by_cases hid : sessionId = other
      · subst hid
        rw [Std.ExtTreeMap.getElem?_erase_self, hentry, clientPort_some_iff]
        simp [clientPort]
      · rw [getElem?_erase_other hid]
        simp [hid]
    · rintro _ _ ⟨⟩
      exact hrecord
    · rintro _ ⟨⟩
    · rintro _ _ ⟨⟩
      exact ⟨hown, by rw [Std.ExtTreeMap.getElem?_erase_self]; rfl⟩

/-- A close that takes the session of a server out of the map does not find its record. -/
theorem isClient_of_closeRequest (h : PortsInvariant server)
    (hwaiting : server.metaThread = .waiting) {sessionId : UInt64} {session : Session}
    (hentry : server.sessions[sessionId]? = some session)
    (hmatch : PortsMatch (closeRequest sessionId server)) : session.isClient = true := by
  unfold Tcp.closeRequest at hmatch
  simp only [hentry] at hmatch
  have hrecord := hmatch.closing sessionId session rfl
  rw [h.records, hasPort_iff_of_open (not_closing_of_waiting hwaiting), hentry,
    clientPort_some_iff] at hrecord
  obtain ⟨_, hsame, hclient, -⟩ := hrecord
  rwa [Option.some.inj hsame]

/-- The records while no session is being closed. -/
theorem PortsInvariant.records_of_open (h : PortsInvariant server)
    (hopen : ∀ sessionId session, server.metaThread ≠ .closing sessionId session) (port : UInt16)
    (sessionId : UInt64) : server.localAllocatedPorts[port]? = some sessionId ↔
      clientPort server.sessions[sessionId]? = some port := by
  rw [h.records, hasPort_iff_of_open hopen]

/-- The invariant while no session is being closed. -/
theorem portsInvariant_of_open
    (hopen : ∀ sessionId session, server.metaThread ≠ .closing sessionId session)
    (hrecords : ∀ (port : UInt16) (sessionId : UInt64),
      server.localAllocatedPorts[port]? = some sessionId ↔
        clientPort server.sessions[sessionId]? = some port)
    (hpending : ∀ entry, pendingOpen server.metaThread = some entry → entry.2.isClient = true ∧
      server.localAllocatedPorts[entry.2.localPort]? = none) : PortsInvariant server := by
  refine ⟨portsMatch_of_records ?_ ?_, hpending, ?_⟩
  · intro port sessionId
    rw [hrecords, hasPort_iff_of_open hopen]
  · intro sessionId session hclosing
    exact absurd hclosing (hopen sessionId session)
  · intro sessionId session hclosing
    exact absurd hclosing (hopen sessionId session)

/-- An open that has queued the SYN. -/
theorem PortsInvariant.opening (h : PortsInvariant server)
    (hwaiting : server.metaThread = .waiting) {sender : List UInt8} {entry : UInt64 × Session}
    (hopens : Opens entry)
    (hfree : server.localAllocatedPorts[entry.2.localPort]? = none) :
    PortsInvariant { server with metaThread := .opening sender entry.1 entry.2 } := by
  refine portsInvariant_of_open (by simp)
    (h.records_of_open (not_closing_of_waiting hwaiting)) ?_
  rintro _ ⟨⟩
  obtain ⟨_, _, _, _, _, _, -, hsession⟩ := hopens
  refine ⟨?_, hfree⟩
  rw [hsession]
  rfl

/-- The reply to an open, taken or refused. -/
theorem PortsInvariant.metaReply (h : PortsInvariant server) (accepted : Bool) :
    PortsInvariant (metaReply accepted server).1 := by
  unfold Tcp.metaReply
  split
  · next sender sessionId session hopening =>
    have hpending : pendingOpen server.metaThread = some (sessionId, session) := by
      rw [hopening]
      rfl
    have hrecords := h.records_of_open (not_closing_of_pending hpending)
    have hown := h.pending _ hpending
    dsimp only
    split_ifs
    · refine portsInvariant_of_open (by simp) hrecords ?_
      rintro _ ⟨⟩
      exact hown
    · refine portsInvariant_of_open (by simp) hrecords ?_
      rintro _ ⟨⟩
  · exact h

/-- A record and a session are put in their maps. -/
theorem PortsInvariant.metaInsert (h : PortsInvariant server)
    (hfree : ∀ sessionId session, server.metaThread = .opened sessionId session →
      server.sessions[sessionId]? = none) :
    PortsInvariant (metaInsert server) := by
  unfold Tcp.metaInsert
  split
  · next sessionId session hopened =>
    have hpending : pendingOpen server.metaThread = some (sessionId, session) := by
      rw [hopened]
      rfl
    have hrecords := h.records_of_open (not_closing_of_pending hpending)
    obtain ⟨hclient, hport⟩ : session.isClient = true ∧
        server.localAllocatedPorts[session.localPort]? = none := h.pending _ hpending
    refine portsInvariant_of_open (by simp) ?_ (by rintro _ ⟨⟩)
    intro port other
    dsimp only
    by_cases hid : sessionId = other
    · subst hid
      rw [getElem?_insertIfNew_of_none (hfree sessionId session hopened)]
      by_cases hsame : session.localPort = port
      · subst hsame
        rw [getElem?_insertIfNew_of_none hport]
        simp [clientPort, hclient]
      · rw [getElem?_insertIfNew_other hsame, hrecords, hfree sessionId session hopened]
        simp [clientPort, hclient, hsame]
    · rw [getElem?_insertIfNew_other hid, ← hrecords]
      by_cases hsame : session.localPort = port
      · subst hsame
        rw [getElem?_insertIfNew_of_none hport, hport]
        simp [hid]
      · rw [getElem?_insertIfNew_other hsame]
  · exact h

/-- An open that finds its id in the map records a port that the session there does not have. -/
theorem free_of_metaInsert (h : PortsInvariant server) {sessionId : UInt64} {session : Session}
    (hopened : server.metaThread = .opened sessionId session)
    (hmatch : PortsMatch (metaInsert server)) : server.sessions[sessionId]? = none := by
  have hpending : pendingOpen server.metaThread = some (sessionId, session) := by
    rw [hopened]
    rfl
  have hrecords := h.records_of_open (not_closing_of_pending hpending)
  obtain ⟨-, hport⟩ := h.pending _ hpending
  cases hentry : server.sessions[sessionId]? with
  | none => rfl
  | some kept =>
    -- the new record names the session that was there, and that one had no record
    have hrecord := hmatch.records session.localPort sessionId
    rw [hasPort_iff_of_open (by simp [Tcp.metaInsert, hopened])] at hrecord
    simp only [Tcp.metaInsert, hopened, getElem?_insertIfNew_of_none hport,
      getElem?_insertIfNew_of_some hentry, true_iff] at hrecord
    rw [← hentry, ← hrecords, hport] at hrecord
    exact absurd hrecord (by simp)

/-- The rest of a close frees the port. -/
theorem PortsInvariant.metaFin (h : PortsInvariant server) {accepted : Bool}
    (hnext : (metaFin accepted server).1 = some next) : PortsInvariant next := by
  unfold Tcp.metaFin at hnext
  split at hnext
  · next sessionId session hclosing =>
    obtain ⟨hclient, habsent⟩ := h.closed sessionId session hclosing
    have hrecord := h.closing sessionId session hclosing
    simp only [hrecord, if_true] at hnext
    rw [← Option.some.inj hnext]
    refine portsInvariant_of_open (by simp) ?_ (by rintro _ ⟨⟩)
    intro port other
    dsimp only
    by_cases hsame : session.localPort = port
    · subst hsame
      rw [Std.ExtTreeMap.getElem?_erase_self]
      refine ⟨fun hnone ↦ absurd hnone (by simp), fun hport ↦ ?_⟩
      have hother := (h.records _ _).mpr (hasPort_iff.mpr (Or.inl hport))
      rw [Option.some.inj (hrecord.symm.trans hother)] at habsent
      exact absurd (habsent.symm.trans hport) (by simp)
    · rw [getElem?_erase_other hsame, h.records, hasPort_iff]
      refine ⟨fun hport ↦ hport.resolve_right ?_, Or.inl⟩
      rintro ⟨_, hagain, -, hlocal⟩
      rw [hclosing] at hagain
      cases hagain
      exact hsame hlocal
  · rw [← Option.some.inj hnext]
    exact h

/-- `run_clean` deletes sessions. Assumes: none of them was opened. -/
theorem PortsInvariant.cleanDelete (h : PortsInvariant server)
    (hkept : PortsKept (some server) .cleanDelete) :
    PortsInvariant (cleanStep server .cleanDelete) := by
  cases hthread : server.cleanThread with
  | sleeping => simpa [cleanStep, hthread] using h
  | timed now => simpa [cleanStep, hthread] using h
  | collected cleanList =>
    simp only [cleanStep, hthread]
    refine h.of_same rfl rfl fun sessionId ↦ ?_
    dsimp only
    rw [getElem?_deleteAll]
    split_ifs with hlisted
    · exact (clientPort_none_iff.mpr (hkept cleanList hthread sessionId hlisted)).symm
    · rfl

/-- `run_clean` leaves the record of a session that was opened behind. -/
theorem portsKept_of_cleanDelete (h : PortsInvariant server)
    (hmatch : PortsMatch (cleanStep server .cleanDelete)) :
    PortsKept (some server) .cleanDelete := by
  intro cleanList hthread sessionId hlisted session hentry
  by_contra hserver
  have hclient : session.isClient = true := by simpa using hserver
  simp only [cleanStep, hthread] at hmatch
  have hrecord : server.localAllocatedPorts[session.localPort]? = some sessionId :=
    (h.records _ _).mpr ⟨session, Or.inl hentry, hclient, rfl⟩
  have hport := hasPort_iff.mp ((hmatch.records _ _).mp hrecord)
  dsimp only at hport
  rw [getElem?_deleteAll, if_pos hlisted] at hport
  rcases hport with hnone | ⟨other, hclosing, -⟩
  · exact absurd hnone (by simp [clientPort])
  · have habsent := (h.closed sessionId other hclosing).2
    rw [hentry] at habsent
    exact absurd (clientPort_none_iff.mp habsent session rfl) hserver

/-- The step lemma. -/
theorem portsInvariant_step (h : PortsInvariant server) {event : ThreadEvent}
    (hkept : PortsKept (some server) event)
    (hnext : (threadStep config (some server) event).1 = some next) : PortsInvariant next := by
  cases event with
  | data input =>
    obtain rfl := Option.some.inj hnext
    exact h.of_same rfl rfl fun sessionId ↦
      clientPort_data (serverStep_entry config.toConfig server input sessionId)
  | metaRequest environment message =>
    simp only [threadStep] at hnext
    split at hnext
    · next hwaiting =>
      rcases metaRequest_cases hnext with
        rfl | ⟨sender, entry, ⟨hopens, hfree⟩, rfl⟩ | ⟨sessionId, hclosed, rfl⟩
      · exact h
      · exact h.opening hwaiting hopens hfree
      · exact h.closeRequest hwaiting fun session hentry ↦
          hkept hwaiting sessionId session hclosed hentry
    · rw [← Option.some.inj hnext]
      exact h
  | metaReply accepted =>
    rw [← Option.some.inj hnext]
    exact h.metaReply accepted
  | metaInsert =>
    rw [← Option.some.inj hnext]
    exact h.metaInsert hkept
  | metaFin accepted => exact h.metaFin hnext
  | cleanClock now =>
    rw [← Option.some.inj hnext]
    cases hthread : server.cleanThread with
    | sleeping =>
      simp only [cleanStep, hthread]
      exact h.of_same rfl rfl fun _ ↦ rfl
    | timed before => simpa [cleanStep, hthread] using h
    | collected cleanList => simpa [cleanStep, hthread] using h
  | cleanCollect =>
    rw [← Option.some.inj hnext]
    cases hthread : server.cleanThread with
    | sleeping => simpa [cleanStep, hthread] using h
    | timed now =>
      simp only [cleanStep, hthread]
      exact h.of_same rfl rfl fun _ ↦ rfl
    | collected cleanList => simpa [cleanStep, hthread] using h
  | cleanDelete =>
    rw [← Option.some.inj hnext]
    exact h.cleanDelete hkept

/-- A step that does not keep the records leaves a state in which they do not match. -/
theorem portsKept_of_match (h : PortsInvariant server) {event : ThreadEvent}
    (hmatch : ∀ next, (threadStep config (some server) event).1 = some next → PortsMatch next) :
    PortsKept (some server) event := by
  cases event with
  | metaRequest environment message =>
    intro hwaiting sessionId session hclosed hentry
    refine isClient_of_closeRequest h hwaiting hentry (hmatch _ ?_)
    simp only [threadStep, hwaiting]
    exact metaRequest_closedId hclosed
  | metaInsert => exact fun sessionId session hopened ↦ free_of_metaInsert h hopened (hmatch _ rfl)
  | cleanDelete => exact portsKept_of_cleanDelete h (hmatch _ rfl)
  | _ => trivial

end Steps

/-! ### Whole runs -/

theorem portsInvariant_start : PortsInvariant .start := by
  refine portsInvariant_of_open (by simp [Server.start]) ?_ (by rintro _ ⟨⟩)
  intro port sessionId
  simp [Server.start, clientPort]

/-- When the records of the ports match the sessions of the clients. In every state of a run they
do, and every close finds the record of its session, exactly when every step of the run keeps the
records: a close names no session that was accepted, an open finds its id free when it puts its
session in the map, and `run_clean` deletes no session that was opened. -/
theorem ports_match_iff (config : ServerConfig) (events : List ThreadEvent) :
    (∀ first, first <+: events → ∀ server,
        (run (threadStep config) (some .start) first).1 = some server → PortsMatch server) ↔
      Along (threadStep config) PortsKept (some .start) events := by
  refine (along_iff_forall_prefixes
    (I := fun state ↦ ∀ server, state = some server → PortsInvariant server)
    (P := fun state ↦ ∀ server, state = some server → PortsMatch server) ?_ ?_ ?_ ?_ events).symm
  · rintro _ ⟨⟩
    exact portsInvariant_start
  · exact fun state hinvariant server hserver ↦ (hinvariant server hserver).toPortsMatch
  · rintro (_ | server) event hinvariant hkept next hnext
    · exact absurd hnext (by simp [threadStep])
    · exact portsInvariant_step (hinvariant server rfl) hkept hnext
  · rintro (_ | server) event hinvariant hmatch
    · trivial
    · exact portsKept_of_match (hinvariant server rfl) hmatch


/-- A session is opened, the peer resets it, and `run_clean` deletes it. -/
def sampleLeak : List ThreadEvent :=
  [.metaRequest sampleMeta sampleOpen, .metaReply true, .metaInsert,
    .data (.segment (sampleAt 10) ⟨[192, 168, 1, 1], [10, 0, 0, 1], 2500, 40000, 900, 101, flagRst,
      1024, 1, [], length_nil_lt⟩),
    .cleanClock 40000000, .cleanCollect, .cleanDelete]

/-- No session is left, and the port stays allocated. -/
theorem port_of_deleted_session_stays :
    ¬ ∀ server, (run (threadStep sampleServer) (some .start) sampleLeak).1 = some server →
      PortsMatch server := by
  intro hmatch
  have hleak : (run (threadStep sampleServer) (some .start) sampleLeak).1.map (fun server ↦
      (server.localAllocatedPorts[(40000 : UInt16)]?, server.sessions.isEmpty,
        server.metaThread)) = some (some sampleClientId, true, .waiting) := by decide +kernel
  obtain ⟨server, hserver, hparts⟩ := Option.map_eq_some_iff.mp hleak
  simp only [Prod.mk.injEq] at hparts
  obtain ⟨hrecord, hempty, hthread⟩ := hparts
  obtain ⟨session, hheld, -⟩ := ((hmatch server hserver).records _ _).mp hrecord
  rw [Std.ExtTreeMap.isEmpty_iff.mp hempty, hthread] at hheld
  exact absurd hheld (by simp)

end MyIPNG.Tcp
