import MyIPNG.Base.Ownership
import MyIPNG.Tcp.Threads

/-!
# The lifetime of the session objects

The map of `tcp_server.cpp` holds pointers to sessions, and the threads keep such pointers while
they do not hold `sessions_lock`: `run_in` between the shared and the exclusive lock of a quick
release and around the insertion of a session, `run_meta` before the insertion of a session that it
opens and behind the removal of one that it closes. `objectStep` is the server with the session
objects on a heap, one step for every region under one hold of the lock or between two holds. Its
outputs are the uses and deletions of objects; what a step does to the contents of a session is
what the other modules say.

A quick release decides under the shared lock and deletes under the exclusive one, without looking
at the map again. When `run_clean` or a close removes the session in between, it is deleted twice;
without that, every object has one owner and is deleted at most once (`sessions_deleted_once`).
-/

set_option autoImplicit false
set_option relaxedAutoImplicit false

namespace MyIPNG.Tcp

open Base

/-! ### The threads -/

/-- Where `run_in` is: it waits for a segment, has let go of the shared lock for a quick release,
has made a session that is not in the map yet, or has put it there and has no lock. -/
inductive RxThread
  | waiting
  | releasing (sessionId : UInt64) (pointer : ℕ)
  | creating (sessionId : UInt64) (pointer : ℕ) (environment : Environment) (segment : Segment)
  | created (sessionId : UInt64) (environment : Environment) (segment : Segment)
deriving DecidableEq, Repr

/-- Where `run_meta` is: it waits for a request, has a session that is not in the map yet, or one
that is not in the map any more. -/
inductive OpenThread
  | waiting
  | opening (sessionId : UInt64) (pointer : ℕ)
  | closing (sessionId : UInt64) (pointer : ℕ)
deriving DecidableEq, Repr

/-- The session objects, the map of pointers, and where the threads are. -/
structure ObjectServer where
  heap : Heap Session
  sessions : Std.ExtTreeMap UInt64 ℕ
  rxThread : RxThread
  openThread : OpenThread
  cleanThread : CleanThread

/-- The server before the first event. -/
def ObjectServer.start : ObjectServer := ⟨.empty, ∅, .waiting, .waiting, .sleeping⟩

/-- The regions of the threads. -/
inductive ObjectEvent
  | rxSegment (environment : Environment) (segment : Segment)
  | rxRelease
  | rxInsert
  | rxFind
  | txMessage (message : List UInt8)
  | senderPass (accepts : UInt64 → ℕ → Bool)
  | metaOpen (sessionId : UInt64) (session : Session) (failed : Bool)
  | metaInsert
  | metaClose (sessionId : UInt64)
  | metaFin
  | metaDump
  | cleanClock (now : UInt64)
  | cleanCollect
  | cleanDelete

/-! ### The regions -/

/-- A change of the session at a pointer. The session at a pointer to a deleted object is not
known. -/
def useAt (pointer : ℕ) (change : Session → Session) (heap : Heap Session) :
    Heap Session × List Access :=
  match heap.read pointer with
  | none => (heap, [.use pointer])
  | some session => (heap.write pointer (change session), [.use pointer])

/-- `run_in` under the shared lock. -/
def rxSegment (config : Config) (environment : Environment) (segment : Segment)
    (server : ObjectServer) : ObjectServer × List Access :=
  let sessionId := segmentId segment
  match server.sessions[sessionId]? with
  | some pointer =>
    match server.heap.read pointer with
    | none => (server, [.use pointer])
    | some session =>
      match (runInSession config environment sessionId segment session).session with
      | some next => ({ server with heap := server.heap.write pointer next }, [.use pointer])
      | none =>
        ({ server with
          heap := server.heap.write pointer (touched environment segment session)
          rxThread := .releasing sessionId pointer }, [.use pointer])
  | none =>
    match (runInNew config environment sessionId segment).session,
      config.mappingsIn segment.destinationPort with
    | some _, some shmPeer =>
      ({ server with
        heap := server.heap.alloc (newSession segment shmPeer)
        rxThread := .creating sessionId server.heap.next environment segment },
        [.use server.heap.next])
    | _, _ => (server, [])

/-- `run_in` under the exclusive lock of a quick release. -/
def rxRelease (server : ObjectServer) : ObjectServer × List Access :=
  match server.rxThread with
  | .releasing sessionId pointer =>
    ({ server with
      heap := server.heap.free pointer
      sessions := server.sessions.erase sessionId
      rxThread := .waiting }, [.delete pointer])
  | _ => (server, [])

/-- `run_in` under the exclusive lock for a session that it has made. -/
def rxInsert (server : ObjectServer) : ObjectServer × List Access :=
  match server.rxThread with
  | .creating sessionId pointer environment segment =>
    ({ server with
      sessions := server.sessions.insertIfNew sessionId pointer
      rxThread := .created sessionId environment segment }, [])
  | _ => (server, [])

/-- `run_in` behind that, under the shared lock again: it goes on with the session that it finds. -/
def rxFind (server : ObjectServer) : ObjectServer × List Access :=
  match server.rxThread with
  | .created sessionId environment segment =>
    match server.sessions[sessionId]? with
    | some pointer =>
      let used := useAt pointer (fun session ↦ (processData environment sessionId segment false
        false false session).session.getD session) server.heap
      ({ server with heap := used.1, rxThread := .waiting }, used.2)
    | none => ({ server with rxThread := .waiting }, [])
  | _ => (server, [])

/-- `run_out` for a message of an application. -/
def txMessage (message : List UInt8) (server : ObjectServer) : ObjectServer × List Access :=
  if message.length < 12 then (server, [])
  else
    match server.sessions[messageId message]? with
    | some pointer =>
      let used := useAt pointer (fun session ↦ addFromL7 session (messageFlags message)
        (message.drop 12)) server.heap
      ({ server with heap := used.1 }, used.2)
    | none => (server, [])

/-- The sender's loop over the pointers of a pass. -/
def visitPointers (accepts : UInt64 → ℕ → Bool) :
    List (UInt64 × ℕ) → Heap Session → Heap Session × List Access
  | [], heap => (heap, [])
  | (sessionId, pointer) :: rest, heap =>
    let visit := fun session ↦ senderVisit (accepts sessionId) session
    let used := useAt pointer (fun session ↦ (visit session).session) heap
    if (heap.read pointer).any fun session ↦ (visit session).passOver then used
    else
      let final := visitPointers accepts rest used.1
      (final.1, used.2 ++ final.2)

/-- `run_meta` without a lock: it makes a session, and deletes it when a message could not be
sent. -/
def metaOpen (sessionId : UInt64) (session : Session) (failed : Bool) (server : ObjectServer) :
    ObjectServer × List Access :=
  match server.openThread with
  | .waiting =>
    let pointer := server.heap.next
    let heap := server.heap.alloc session
    if failed then ({ server with heap := heap.free pointer }, [.use pointer, .delete pointer])
    else ({ server with heap := heap, openThread := .opening sessionId pointer }, [.use pointer])
  | _ => (server, [])

/-- `run_meta` under the lock of an open. -/
def objectInsert (server : ObjectServer) : ObjectServer × List Access :=
  match server.openThread with
  | .opening sessionId pointer =>
    ({ server with
      sessions := server.sessions.insertIfNew sessionId pointer
      openThread := .waiting }, [])
  | _ => (server, [])

/-- `run_meta` under the lock of a close. -/
def metaClose (sessionId : UInt64) (server : ObjectServer) : ObjectServer × List Access :=
  match server.openThread, server.sessions[sessionId]? with
  | .waiting, some pointer =>
    ({ server with
      sessions := server.sessions.erase sessionId
      openThread := .closing sessionId pointer }, [])
  | _, _ => (server, [])

/-- `run_meta` behind that, without a lock: it counts and sends the FIN and deletes the session. -/
def objectFin (server : ObjectServer) : ObjectServer × List Access :=
  match server.openThread with
  | .closing _ pointer =>
    ({ server with heap := server.heap.free pointer, openThread := .waiting },
      [.use pointer, .delete pointer])
  | _ => (server, [])

/-- All sessions of the map are read, by `dump_sessions` and by `run_clean` when it collects. -/
def usesAll (server : ObjectServer) : List Access :=
  server.sessions.toList.map fun entry ↦ .use entry.2

/-- The ids that `run_clean` collects. -/
def collectPointers (now : UInt64) (server : ObjectServer) : List UInt64 :=
  (server.sessions.toList.filter fun entry ↦
    (server.heap.read entry.2).any fun session ↦ isOver now session).map Prod.fst

/-- The second loop of `run_clean`. -/
def deletePointers : List UInt64 → ObjectServer → ObjectServer × List Access
  | [], server => (server, [])
  | sessionId :: rest, server =>
    match server.sessions[sessionId]? with
    | some pointer =>
      let final := deletePointers rest { server with
        heap := server.heap.free pointer
        sessions := server.sessions.erase sessionId }
      (final.1, .delete pointer :: final.2)
    | none => deletePointers rest server

/-- A step of the server. A thread that is in the middle of its loop body takes no message, and one
that is not has nothing to go on with. -/
def objectStep (config : Config) (server : ObjectServer) :
    ObjectEvent → ObjectServer × List Access
  | .rxSegment environment segment =>
    match server.rxThread with
    | .waiting => rxSegment config environment segment server
    | _ => (server, [])
  | .rxRelease => rxRelease server
  | .rxInsert => rxInsert server
  | .rxFind => rxFind server
  | .txMessage message => txMessage message server
  | .senderPass accepts =>
    let result := visitPointers accepts server.sessions.toList server.heap
    ({ server with heap := result.1 }, result.2)
  | .metaOpen sessionId session failed => metaOpen sessionId session failed server
  | .metaInsert => objectInsert server
  | .metaClose sessionId => metaClose sessionId server
  | .metaFin => objectFin server
  | .metaDump => (server, usesAll server)
  | .cleanClock now =>
    match server.cleanThread with
    | .sleeping => ({ server with cleanThread := .timed now }, [])
    | _ => (server, [])
  | .cleanCollect =>
    match server.cleanThread with
    | .timed now =>
      ({ server with cleanThread := .collected (collectPointers now server) }, usesAll server)
    | _ => (server, [])
  | .cleanDelete =>
    match server.cleanThread with
    | .collected cleanList =>
      let result := deletePointers cleanList server
      ({ result.1 with cleanThread := .sleeping }, result.2)
    | _ => (server, [])

/-! ### Owners of the sessions -/

/-- Who can have a session: an entry of the map, `run_in` before it puts a session in the map, and
`run_meta`. -/
inductive Owner
  | entry (sessionId : UInt64)
  | rxThread
  | openThread
deriving DecidableEq, Repr

/-- The session that an owner has. -/
def owns (server : ObjectServer) : Owner → Option ℕ
  | .entry sessionId => server.sessions[sessionId]?
  | .rxThread =>
    match server.rxThread with
    | .creating _ pointer _ _ => some pointer
    | _ => none
  | .openThread =>
    match server.openThread with
    | .waiting => none
    | .opening _ pointer => some pointer
    | .closing _ pointer => some pointer

/-- The invariant: every session has one owner, and a session that `run_in` is about to release is
in the map. -/
structure ObjectInvariant (server : ObjectServer) : Prop where
  owned : Owned server.heap (owns server)
  releasing : ∀ sessionId pointer, server.rxThread = .releasing sessionId pointer →
    server.sessions[sessionId]? = some pointer

/-- The step does not take a session that `run_in` is about to release: neither a close nor the
second loop of `run_clean` removes it. -/
def Undisturbed (server : ObjectServer) : ObjectEvent → Prop
  | .metaClose sessionId => ∀ pointer, server.rxThread ≠ .releasing sessionId pointer
  | .cleanDelete => ∀ sessionId pointer cleanList,
      server.rxThread = .releasing sessionId pointer →
      server.cleanThread = .collected cleanList → sessionId ∉ cleanList
  | _ => True

section Regions

variable {server : ObjectServer} {heap : Heap Session} {pointer : ℕ}

/-- A session that is there is used. -/
theorem useAt_effect {session : Session} (hread : heap.read pointer = some session)
    (change : Session → Session) :
    useAt pointer change heap = (heap.write pointer (change session), [.use pointer]) := by
  rw [useAt, hread]

/-- The sender's loop. Assumes: all sessions of the pass are there. -/
theorem visitPointers_effect (accepts : UInt64 → ℕ → Bool) {rest : List (UInt64 × ℕ)}
    (hlive : ∀ entry ∈ rest, ∃ session, heap.read entry.2 = some session) :
    Effect heap (visitPointers accepts rest heap).1 (visitPointers accepts rest heap).2 ∧
      ∀ owns : Owner → Option ℕ, Owned heap owns →
        Owned (visitPointers accepts rest heap).1 owns := by
  induction rest generalizing heap with
  | nil => exact ⟨Effect.refl heap, fun _ howned ↦ howned⟩
  | cons entry rest ih =>
    obtain ⟨sessionId, pointer⟩ := entry
    obtain ⟨session, hread⟩ := hlive (sessionId, pointer) List.mem_cons_self
    dsimp only at hread
    have hused := useAt_effect hread fun session ↦ (senderVisit (accepts sessionId) session).session
    have hwrite := effect_write hread (senderVisit (accepts sessionId) session).session
    rw [visitPointers]
    dsimp only
    rw [hused]
    split_ifs with hover
    · exact ⟨hwrite, fun _ howned ↦ howned.write hread _⟩
    · have hrest : ∀ entry ∈ rest, ∃ found, (heap.write pointer
          (senderVisit (accepts sessionId) session).session).read entry.2 = some found := by
        intro entry hentry
        rw [Heap.read_write hread]
        split_ifs
        · exact ⟨_, rfl⟩
        · exact hlive entry (List.mem_cons_of_mem _ hentry)
      obtain ⟨heffect, howned⟩ := ih hrest
      exact ⟨hwrite.trans heffect, fun _ h ↦ howned _ (h.write hread _)⟩

/-- The sessions of the map are there. -/
theorem ObjectInvariant.entries_live (h : ObjectInvariant server) :
    ∀ entry ∈ server.sessions.toList, ∃ session, server.heap.read entry.2 = some session :=
  fun entry hentry ↦ h.owned.live (.entry entry.1) entry.2
    (Std.ExtTreeMap.mem_toList_iff_getElem?_eq_some.mp hentry)

/-- All sessions of the map are read. -/
theorem usesAll_effect (h : ObjectInvariant server) :
    Effect server.heap server.heap (usesAll server) := by
  have hlive := h.entries_live
  unfold usesAll
  generalize server.sessions.toList = entries at hlive
  induction entries with
  | nil => exact Effect.refl server.heap
  | cons entry rest ih =>
    obtain ⟨session, hread⟩ := hlive entry List.mem_cons_self
    exact (effect_read hread).trans
      (ih fun other hother ↦ hlive other (List.mem_cons_of_mem _ hother))

/-- A step has an effect on the session objects and keeps the invariant. -/
def Sound (server : ObjectServer) (result : ObjectServer × List Access) : Prop :=
  Effect server.heap result.1.heap result.2 ∧ ObjectInvariant result.1

theorem sound_idle (h : ObjectInvariant server) : Sound server (server, []) :=
  ⟨Effect.refl server.heap, h⟩

/-- The session of an entry of the map is changed. -/
theorem sound_write (h : ObjectInvariant server) {session : Session}
    (hread : server.heap.read pointer = some session) (changed : Session) :
    Sound server ({ server with heap := server.heap.write pointer changed }, [.use pointer]) :=
  ⟨effect_write hread changed, h.owned.write hread changed, h.releasing⟩

/-- `run_in` under the shared lock. -/
theorem sound_rxSegment (h : ObjectInvariant server)
    (config : Config) (environment : Environment) (segment : Segment) :
    Sound server (rxSegment config environment segment server) := by
  unfold rxSegment
  dsimp only
  cases hentry : server.sessions[segmentId segment]? with
  | some pointer =>
    obtain ⟨session, hread⟩ := h.owned.live (.entry (segmentId segment)) pointer hentry
    simp only [hread]
    cases (runInSession config environment (segmentId segment) segment session).session with
    | some next => exact sound_write h hread next
    | none =>
      refine ⟨effect_write hread _, ?_, ?_⟩
      · refine (h.owned.write hread (touched environment segment session)).subset ?_
        intro owner other howns
        cases owner with
        | entry sessionId => exact howns
        | rxThread => exact absurd howns (by simp [owns])
        | openThread => exact howns
      · rintro sessionId other ⟨⟩
        exact hentry
  | none =>
    dsimp only
    split
    · next made shmPeer hmade hmapping =>
      refine ⟨effect_alloc server.heap _, ?_, ?_⟩
      · refine h.owned.alloc _ .rxThread rfl ?_
        intro owner other hother howns
        cases owner with
        | entry sessionId => exact howns
        | rxThread => exact absurd rfl hother
        | openThread => exact howns
      · rintro sessionId other ⟨⟩
    · exact sound_idle h

/-- The exclusive lock of a quick release: the session is still in the map. -/
theorem sound_rxRelease (h : ObjectInvariant server) : Sound server (rxRelease server) := by
  unfold rxRelease
  split
  · next sessionId pointer hreleasing =>
    have hentry := h.releasing sessionId pointer hreleasing
    obtain ⟨session, hread⟩ := h.owned.live (.entry sessionId) pointer hentry
    refine ⟨effect_free hread, ?_, ?_⟩
    · refine h.owned.free (.entry sessionId) hentry Std.ExtTreeMap.getElem?_erase_self ?_
      intro other kept hkept
      cases other with
      | entry otherId => exact getElem?_of_erase hkept
      | rxThread => exact absurd hkept (by simp [owns])
      | openThread => exact hkept
    · rintro otherId other ⟨⟩
  · exact sound_idle h

/-- A thread that puts its session in the map gives it to the entry, or to no one if the map has a
session with the id. Assumes: the other owners keep what they have. -/
theorem owned_insertIfNew (server next : ObjectServer) {sessionId : UInt64}
    (h : Owned server.heap (owns server)) (giver : Owner)
    (hgiver : owns server giver = some pointer) (hnone : owns next giver = none)
    (hsessions : next.sessions = server.sessions.insertIfNew sessionId pointer)
    (hothers : ∀ owner kept, (∀ other, owner ≠ .entry other) → owns next owner = some kept →
      owns server owner = some kept) :
    Owned server.heap (owns next) := by
  cases hentry : server.sessions[sessionId]? with
  | none =>
    have hself : next.sessions[sessionId]? = some pointer := by
      rw [hsessions]
      exact getElem?_insertIfNew_of_none hentry pointer
    refine h.give giver (.entry sessionId) hgiver hnone hself ?_
    intro owner kept hne howns
    cases owner with
    | entry other =>
      change next.sessions[other]? = some kept at howns
      rwa [hsessions, getElem?_insertIfNew_other fun hequal ↦ hne (by rw [hequal])] at howns
    | rxThread => exact hothers .rxThread kept (by simp) howns
    | openThread => exact hothers .openThread kept (by simp) howns
  | some found =>
    -- the map keeps the session that it has
    have hsame : next.sessions = server.sessions := by
      rw [hsessions, insertIfNew_of_some hentry]
    refine h.subset fun owner kept howns ↦ ?_
    cases owner with
    | entry other =>
      change next.sessions[other]? = some kept at howns
      rwa [hsame] at howns
    | rxThread => exact hothers .rxThread kept (by simp) howns
    | openThread => exact hothers .openThread kept (by simp) howns

/-- The exclusive lock for a session that `run_in` has made. -/
theorem sound_rxInsert (h : ObjectInvariant server) : Sound server (rxInsert server) := by
  unfold rxInsert
  split
  · next sessionId pointer environment segment hcreating =>
    refine ⟨Effect.refl server.heap, ?_, ?_⟩
    · refine owned_insertIfNew server _ h.owned .rxThread (by rw [owns, hcreating]) rfl rfl ?_
      intro owner kept hthread howns
      cases owner with
      | entry other => exact absurd rfl (hthread other)
      | rxThread => exact absurd howns (by simp [owns])
      | openThread => exact howns
    · rintro otherId other ⟨⟩
  · exact sound_idle h

/-- `run_in` goes on with the session that it finds. -/
theorem sound_rxFind (h : ObjectInvariant server) : Sound server (rxFind server) := by
  unfold rxFind
  split
  · next sessionId environment segment hcreated =>
    have hdropped : ∀ heap : Heap Session, Owned heap (owns server) →
        ObjectInvariant { server with heap := heap, rxThread := .waiting } := by
      intro heap howned
      refine ⟨howned.subset fun owner kept howns ↦ ?_, by rintro otherId other ⟨⟩⟩
      cases owner with
      | entry other => exact howns
      | rxThread => exact absurd howns (by simp [owns])
      | openThread => exact howns
    split
    · next pointer hentry =>
      obtain ⟨session, hread⟩ := h.owned.live (.entry sessionId) pointer hentry
      rw [useAt_effect hread]
      exact ⟨effect_write hread _, hdropped _ (h.owned.write hread _)⟩
    · exact ⟨Effect.refl server.heap, hdropped _ h.owned⟩
  · exact sound_idle h

/-- A message of an application. -/
theorem sound_txMessage (h : ObjectInvariant server) (message : List UInt8) :
    Sound server (txMessage message server) := by
  unfold txMessage
  split_ifs with hshort
  · exact sound_idle h
  · split
    · next pointer hentry =>
      obtain ⟨session, hread⟩ := h.owned.live (.entry (messageId message)) pointer hentry
      rw [useAt_effect hread]
      exact sound_write h hread _
    · exact sound_idle h

/-- `run_meta` makes a session. -/
theorem sound_metaOpen (h : ObjectInvariant server) (sessionId : UInt64) (session : Session)
    (failed : Bool) : Sound server (metaOpen sessionId session failed server) := by
  unfold metaOpen
  split
  · next hwaiting =>
    have hmade : Owned (server.heap.alloc session) (owns { server with
        heap := server.heap.alloc session
        openThread := .opening sessionId server.heap.next }) := by
      refine h.owned.alloc session .openThread rfl ?_
      intro owner kept hother howns
      cases owner with
      | entry other => exact howns
      | rxThread => exact howns
      | openThread => exact absurd rfl hother
    dsimp only
    split_ifs with hfailed
    · have hread : (server.heap.alloc session).read server.heap.next = some session := by
        rw [Heap.read_alloc, if_pos rfl]
      refine ⟨(effect_alloc server.heap session).trans (effect_free hread), ?_, h.releasing⟩
      refine hmade.free .openThread rfl (by rw [owns, hwaiting]) ?_
      intro owner kept howns
      cases owner with
      | entry other => exact howns
      | rxThread => exact howns
      | openThread => exact absurd howns (by simp [owns, hwaiting])
    · exact ⟨effect_alloc server.heap session, hmade, h.releasing⟩
  · exact sound_idle h

/-- `run_meta` puts the session in the map. -/
theorem sound_objectInsert (h : ObjectInvariant server) : Sound server (objectInsert server) := by
  unfold objectInsert
  split
  · next sessionId pointer hopening =>
    refine ⟨Effect.refl server.heap, ?_, ?_⟩
    · refine owned_insertIfNew server _ h.owned .openThread (by rw [owns, hopening]) rfl rfl ?_
      intro owner kept hthread howns
      cases owner with
      | entry other => exact absurd rfl (hthread other)
      | rxThread => exact howns
      | openThread => exact absurd howns (by simp [owns])
    · intro otherId other hreleasing
      exact getElem?_insertIfNew_of_some (h.releasing otherId other hreleasing) _
  · exact sound_idle h

/-- `run_meta` takes a session out of the map. Assumes: `run_in` is not about to release it. -/
theorem sound_metaClose (h : ObjectInvariant server) {sessionId : UInt64}
    (hok : ∀ pointer, server.rxThread ≠ .releasing sessionId pointer) :
    Sound server (metaClose sessionId server) := by
  unfold metaClose
  split
  · next pointer hwaiting hentry =>
    refine ⟨Effect.refl server.heap, ?_, ?_⟩
    · -- `run_meta` has what the entry had
      refine h.owned.give (.entry sessionId) .openThread hentry
        Std.ExtTreeMap.getElem?_erase_self rfl ?_
      intro owner kept hne howns
      cases owner with
      | entry other => exact getElem?_of_erase howns
      | rxThread => exact howns
      | openThread => exact absurd rfl hne
    · intro otherId other hreleasing
      have hne : sessionId ≠ otherId := by
        rintro rfl
        exact hok other hreleasing
      exact (getElem?_erase_other hne).trans (h.releasing otherId other hreleasing)
  · exact sound_idle h

/-- `run_meta` sends the FIN and deletes the session. -/
theorem sound_objectFin (h : ObjectInvariant server) : Sound server (objectFin server) := by
  unfold objectFin
  split
  · next sessionId pointer hclosing =>
    have howns : owns server .openThread = some pointer := by rw [owns, hclosing]
    obtain ⟨session, hread⟩ := h.owned.live .openThread pointer howns
    refine ⟨(effect_read hread).trans (effect_free hread), ?_, h.releasing⟩
    refine h.owned.free .openThread howns rfl ?_
    intro owner kept hkept
    cases owner with
    | entry other => exact hkept
    | rxThread => exact hkept
    | openThread => exact absurd hkept (by simp [owns])
  · exact sound_idle h

/-- A session is taken out of the map and deleted. Assumes: `run_in` is not about to release it. -/
theorem ObjectInvariant.delete (h : ObjectInvariant server) {sessionId : UInt64}
    (hentry : server.sessions[sessionId]? = some pointer)
    (hok : ∀ other, server.rxThread ≠ .releasing sessionId other) :
    ObjectInvariant { server with
      heap := server.heap.free pointer
      sessions := server.sessions.erase sessionId } := by
  refine ⟨h.owned.free (.entry sessionId) hentry Std.ExtTreeMap.getElem?_erase_self ?_, ?_⟩
  · intro owner kept hkept
    cases owner with
    | entry other => exact getElem?_of_erase hkept
    | rxThread => exact hkept
    | openThread => exact hkept
  · intro otherId other hreleasing
    have hne : sessionId ≠ otherId := by
      rintro rfl
      exact hok other hreleasing
    exact (getElem?_erase_other hne).trans (h.releasing otherId other hreleasing)

/-- The second loop of `run_clean`. Assumes: it does not have the id of a session that `run_in` is
about to release. -/
theorem sound_deletePointers {cleanList : List UInt64} (h : ObjectInvariant server)
    (hok : ∀ sessionId pointer, server.rxThread = .releasing sessionId pointer →
      sessionId ∉ cleanList) :
    Sound server (deletePointers cleanList server) := by
  induction cleanList generalizing server with
  | nil => exact sound_idle h
  | cons sessionId rest ih =>
    have hrest : ∀ otherId pointer, server.rxThread = .releasing otherId pointer →
        otherId ∉ rest := fun otherId pointer hreleasing hmem ↦
      hok otherId pointer hreleasing (List.mem_cons_of_mem _ hmem)
    rw [deletePointers]
    split
    · next pointer hentry =>
      obtain ⟨session, hread⟩ := h.owned.live (.entry sessionId) pointer hentry
      have hnext := h.delete hentry fun other hreleasing ↦
        hok sessionId other hreleasing List.mem_cons_self
      obtain ⟨heffect, hinvariant⟩ := ih hnext hrest
      exact ⟨(effect_free hread).trans heffect, hinvariant⟩
    · exact ih h hrest

end Regions

/-! ### Runs of the server -/

/-- The step lemma: every region that leaves a session alone that `run_in` is about to release has
an effect on the session objects and keeps the invariant. -/
theorem objectStep_sound (config : Config) {server : ObjectServer} {event : ObjectEvent}
    (h : ObjectInvariant server) (hok : Undisturbed server event) :
    Sound server (objectStep config server event) := by
  cases event with
  | rxSegment environment segment =>
    simp only [objectStep]
    split
    · exact sound_rxSegment h config environment segment
    · exact sound_idle h
  | rxRelease => exact sound_rxRelease h
  | rxInsert => exact sound_rxInsert h
  | rxFind => exact sound_rxFind h
  | txMessage message => exact sound_txMessage h message
  | senderPass accepts =>
    obtain ⟨heffect, howned⟩ := visitPointers_effect accepts h.entries_live
    exact ⟨heffect, howned _ h.owned, h.releasing⟩
  | metaOpen sessionId session failed => exact sound_metaOpen h sessionId session failed
  | metaInsert => exact sound_objectInsert h
  | metaClose sessionId => exact sound_metaClose h hok
  | metaFin => exact sound_objectFin h
  | metaDump => exact ⟨usesAll_effect h, h⟩
  | cleanClock now =>
    simp only [objectStep]
    split
    · exact ⟨Effect.refl server.heap, h.owned, h.releasing⟩
    · exact sound_idle h
  | cleanCollect =>
    simp only [objectStep]
    split
    · exact ⟨usesAll_effect h, h.owned, h.releasing⟩
    · exact sound_idle h
  | cleanDelete =>
    simp only [objectStep]
    split
    · next cleanList hcollected =>
      obtain ⟨heffect, hinvariant⟩ := sound_deletePointers h fun sessionId pointer hreleasing ↦
        hok sessionId pointer cleanList hreleasing hcollected
      exact ⟨heffect, hinvariant.owned, hinvariant.releasing⟩
    · exact sound_idle h

theorem objectInvariant_start : ObjectInvariant .start := by
  refine ⟨⟨fun owner pointer howns ↦ ?_, fun owner other pointer howns ↦ ?_⟩, by rintro _ _ ⟨⟩⟩
  · cases owner <;> exact absurd howns (by simp [owns, ObjectServer.start])
  · cases owner <;> exact absurd howns (by simp [owns, ObjectServer.start])

/-- Sessions are deleted at most once and not touched afterwards. Assumes: along the run, neither a
close nor the second loop of `run_clean` takes a session between the two locks of its quick
release. -/
theorem sessions_deleted_once (config : Config) (events : List ObjectEvent)
    (h : Along (objectStep config) Undisturbed .start events) :
    Safe (run (objectStep config) .start events).2 := by
  have hrun := run_induction (P := fun _ server trace ↦
      Effect ObjectServer.start.heap server.heap trace ∧ ObjectInvariant server)
    ⟨Effect.refl _, objectInvariant_start⟩ ?_ h
  · exact hrun.1.safe
  · rintro - server trace event ⟨heffect, hinvariant⟩ hok
    obtain ⟨hstep, hnext⟩ := objectStep_sound config hinvariant hok
    exact ⟨heffect.trans hstep, hnext⟩

/-- The sample peer completes a handshake. -/
def sampleAccept : List ObjectEvent :=
  [.rxSegment (sampleAt 10) (sampleAck 10), .rxInsert, .rxFind]

/-- A session is made and closed on request. -/
theorem sessions_deleted_once_by_close :
    Safe (run (objectStep sampleConfig) .start
      (sampleAccept ++ [.metaClose (segmentId sampleSyn), .metaFin])).2 := by
  have hwaiting : (run (objectStep sampleConfig) .start sampleAccept).1.rxThread = .waiting := by
    decide +kernel
  refine sessions_deleted_once sampleConfig _ (along_append.mpr
    ⟨⟨trivial, trivial, trivial, trivial⟩, ?_, trivial, trivial⟩)
  intro pointer hreleasing
  rw [hwaiting] at hreleasing
  exact absurd hreleasing (by simp)

/-- Both sides have sent a FIN, `run_clean` has collected the session, and a new SYN releases it.
When `run_clean` gets the lock between the two locks of `run_in`, the session is deleted twice. -/
theorem session_deleted_twice :
    (run (objectStep sampleConfig) .start (sampleAccept ++
      [.rxSegment (sampleAt 10) (sampleSegment 8 ((sampleSynAck 10).seqNr + 1)
          (flagFin ||| flagAck) [] (by decide)),
        .txMessage (leBytes 8 (segmentId sampleSyn).toNat ++ leBytes 4 1),
        .senderPass fun _ _ ↦ true, .cleanClock 40000000, .cleanCollect,
        .rxSegment (sampleAt 10) sampleSyn, .cleanDelete, .rxRelease])).2.count
      (.delete 0) = 2 := by
  decide +kernel

end MyIPNG.Tcp
