import MyIPNG.Tcp.Lifetime

/-!
# The contents of the session objects

`threadStep` has the sessions as values in the map, and a segment is one step; `objectStep` has
pointers, and `run_in` lets go of the lock in the middle of its work. `contents` is the map of
sessions that the pointers lead to. Every run of `threadStep` is a run of `objectStep` in which no
other thread gets the lock while `run_in` is between two holds of it (`threadRun_objects`): the
objects then hold the sessions of the other modules, and none is taken that `run_in` is about to
release.
-/

set_option autoImplicit false
set_option relaxedAutoImplicit false

namespace MyIPNG.Tcp

open Base

/-! ### What the pointers lead to -/

/-- The sessions that the pointers of the map lead to. -/
def contents (server : ObjectServer) : Sessions :=
  server.sessions.filterMap fun _ pointer ↦ server.heap.read pointer

section Contents

variable {server : ObjectServer} {sessionId : UInt64} {pointer : ℕ} {session : Session}

theorem getElem?_contents (server : ObjectServer) (sessionId : UInt64) :
    (contents server)[sessionId]? = server.sessions[sessionId]?.bind server.heap.read :=
  Std.ExtTreeMap.getElem?_filterMap'

theorem getElem?_contents_of_entry (hentry : server.sessions[sessionId]? = some pointer)
    (hread : server.heap.read pointer = some session) :
    (contents server)[sessionId]? = some session := by
  rw [getElem?_contents, hentry, Option.bind_some, hread]

/-- An id without a session has no pointer. -/
theorem ObjectInvariant.entry_none (h : ObjectInvariant server) :
    (contents server)[sessionId]? = none ↔ server.sessions[sessionId]? = none := by
  rw [getElem?_contents]
  cases hentry : server.sessions[sessionId]? with
  | none => simp
  | some pointer =>
    obtain ⟨session, hread⟩ := h.owned.live (.entry sessionId) pointer hentry
    simp [hread]

/-- The session of an id, with its pointer. -/
theorem exists_entry (h : (contents server)[sessionId]? = some session) :
    ∃ pointer, server.sessions[sessionId]? = some pointer ∧
      server.heap.read pointer = some session := by
  rw [getElem?_contents] at h
  exact Option.bind_eq_some_iff.mp h

/-- Another heap with the same sessions at the pointers of the map. -/
theorem contents_congr {next : ObjectServer} (hsessions : next.sessions = server.sessions)
    (hread : ∀ (sessionId : UInt64) (pointer : ℕ), server.sessions[sessionId]? = some pointer →
      next.heap.read pointer = server.heap.read pointer) :
    contents next = contents server := by
  refine Std.ExtTreeMap.ext_getElem? fun sessionId ↦ ?_
  rw [getElem?_contents, getElem?_contents, hsessions]
  cases hentry : server.sessions[sessionId]? with
  | none => rfl
  | some pointer => exact hread sessionId pointer hentry

/-- The session of an entry is written. -/
theorem contents_write (h : ObjectInvariant server)
    (hentry : server.sessions[sessionId]? = some pointer)
    (hread : server.heap.read pointer = some session) (changed : Session) :
    contents { server with heap := server.heap.write pointer changed } =
      (contents server).insert sessionId changed := by
  refine Std.ExtTreeMap.ext_getElem? fun otherId ↦ ?_
  rw [getElem?_contents]
  by_cases hid : sessionId = otherId
  · rw [← hid, Std.ExtTreeMap.getElem?_insert_self]
    simp [hentry, Heap.read_write hread]
  · rw [getElem?_insert_other hid, getElem?_contents]
    cases hother : server.sessions[otherId]? with
    | none => rfl
    | some other =>
      have hne : other ≠ pointer := by
        rintro rfl
        have hsame := h.owned.unique (.entry sessionId) (.entry otherId) other hentry hother
        exact hid (by simpa using hsame)
      simp [Heap.read_write hread, hne]

/-- A new object is not in the map. -/
theorem contents_alloc (h : ObjectInvariant server) (made : Session) :
    contents { server with heap := server.heap.alloc made } = contents server := by
  refine contents_congr rfl fun sessionId pointer hentry ↦ ?_
  obtain ⟨session, hread⟩ := h.owned.live (.entry sessionId) pointer hentry
  exact (Heap.read_alloc _ _ _).trans (if_neg (Heap.lt_next hread).ne)

/-- An object that is not in the map is deleted. -/
theorem contents_free (server : ObjectServer)
    (hnone : ∀ sessionId : UInt64, server.sessions[sessionId]? ≠ some pointer) :
    contents { server with heap := server.heap.free pointer } = contents server := by
  refine contents_congr rfl fun sessionId other hentry ↦ ?_
  have hne : other ≠ pointer := by
    rintro rfl
    exact hnone sessionId hentry
  exact (Heap.read_free _ _ _).trans (if_neg hne)

/-- A pointer is taken out of the map. -/
theorem contents_erase (server : ObjectServer) (sessionId : UInt64) :
    contents { server with sessions := server.sessions.erase sessionId } =
      (contents server).erase sessionId := by
  refine Std.ExtTreeMap.ext_getElem? fun otherId ↦ ?_
  rw [getElem?_contents]
  by_cases hid : sessionId = otherId
  · rw [← hid, Std.ExtTreeMap.getElem?_erase_self, Std.ExtTreeMap.getElem?_erase_self]
    rfl
  · rw [getElem?_erase_other hid, getElem?_erase_other hid, getElem?_contents]

/-- A pointer is put in the map. -/
theorem contents_insertIfNew (sessionId : UInt64) (h : ObjectInvariant server)
    (hread : server.heap.read pointer = some session) :
    contents { server with sessions := server.sessions.insertIfNew sessionId pointer } =
      (contents server).insertIfNew sessionId session := by
  cases hentry : server.sessions[sessionId]? with
  | some found =>
    obtain ⟨kept, hkept⟩ := h.owned.live (.entry sessionId) found hentry
    rw [insertIfNew_of_some hentry,
      insertIfNew_of_some (getElem?_contents_of_entry hentry hkept)]
  | none =>
    refine Std.ExtTreeMap.ext_getElem? fun otherId ↦ ?_
    rw [getElem?_contents]
    by_cases hid : sessionId = otherId
    · rw [← hid, getElem?_insertIfNew_of_none hentry,
        getElem?_insertIfNew_of_none (h.entry_none.mpr hentry), Option.bind_some, hread]
    · rw [getElem?_insertIfNew_other hid, getElem?_insertIfNew_other hid, getElem?_contents]

/-- A session is taken out of the map and deleted. -/
theorem contents_delete (h : ObjectInvariant server)
    (hentry : server.sessions[sessionId]? = some pointer) :
    contents { server with
      heap := server.heap.free pointer
      sessions := server.sessions.erase sessionId } = (contents server).erase sessionId := by
  have hnone : ∀ otherId : UInt64, (server.sessions.erase sessionId)[otherId]? ≠ some pointer := by
    intro otherId hother
    have hsame := h.owned.unique (.entry sessionId) (.entry otherId) pointer hentry
      (getElem?_of_erase hother)
    obtain rfl : sessionId = otherId := by simpa using hsame
    rw [Std.ExtTreeMap.getElem?_erase_self] at hother
    exact absurd hother (by simp)
  have hfree := contents_free { server with sessions := server.sessions.erase sessionId } hnone
  exact hfree.trans (contents_erase server sessionId)

end Contents

/-! ### The threads on the contents -/

section Threads

variable {server : ObjectServer}

/-- A message of an application. -/
theorem contents_txMessage (h : ObjectInvariant server) (message : List UInt8) :
    contents (txMessage message server).1 = runOut message (contents server) := by
  unfold txMessage runOut
  by_cases hshort : message.length < 12
  · rw [if_pos hshort, if_pos hshort]
  · rw [if_neg hshort, if_neg hshort]
    dsimp only
    rw [← messageId, ← messageFlags]
    cases hentry : server.sessions[messageId message]? with
    | none => simp only [h.entry_none.mpr hentry]
    | some pointer =>
      obtain ⟨session, hread⟩ := h.owned.live (.entry (messageId message)) pointer hentry
      simp only [getElem?_contents_of_entry hentry hread, useAt_effect hread]
      exact contents_write h hentry hread _

/-- An entry of the map, and the session that it leads to. -/
def LeadsTo (server : ObjectServer) (entry : UInt64 × ℕ) (value : UInt64 × Session) : Prop :=
  value.1 = entry.1 ∧ server.sessions[entry.1]? = some entry.2 ∧
    server.heap.read entry.2 = some value.2

/-- The entries of the map lead to the entries of the contents, in the same order. -/
theorem leadsTo_toList (h : ObjectInvariant server) :
    List.Forall₂ (LeadsTo server) server.sessions.toList (contents server).toList := by
  have hentries : ∀ entry ∈ server.sessions.toList,
      server.sessions[entry.1]? = some entry.2 := fun entry hentry ↦
    Std.ExtTreeMap.mem_toList_iff_getElem?_eq_some.mp hentry
  have hlive := h.entries_live
  rw [contents, Std.ExtTreeMap.toList_filterMap]
  generalize server.sessions.toList = entries at hentries hlive
  induction entries with
  | nil => exact List.Forall₂.nil
  | cons entry rest ih =>
    obtain ⟨session, hread⟩ := hlive entry List.mem_cons_self
    rw [List.filterMap_cons_some (by rw [hread]; rfl)]
    exact List.Forall₂.cons ⟨rfl, hentries entry List.mem_cons_self, hread⟩
      (ih (fun other hother ↦ hentries other (List.mem_cons_of_mem _ hother))
        fun other hother ↦ hlive other (List.mem_cons_of_mem _ hother))

/-- The session of another entry is written. -/
theorem leadsTo_write (h : ObjectInvariant server) {sessionId : UInt64} {pointer : ℕ}
    {session : Session} (hentry : server.sessions[sessionId]? = some pointer)
    (hread : server.heap.read pointer = some session) (changed : Session)
    {rest : List (UInt64 × ℕ)} {values : List (UInt64 × Session)}
    (hother : ∀ entry ∈ rest, sessionId ≠ entry.1)
    (hrest : List.Forall₂ (LeadsTo server) rest values) :
    List.Forall₂ (LeadsTo { server with heap := server.heap.write pointer changed })
      rest values := by
  induction hrest with
  | nil => exact List.Forall₂.nil
  | @cons entry value rest values hvalue _ ih =>
    obtain ⟨hid, hfound, hvalue⟩ := hvalue
    have hne : entry.2 ≠ pointer := fun hequal ↦ by
      have hsame := h.owned.unique (.entry sessionId) (.entry entry.1) pointer hentry
        (hequal ▸ hfound)
      exact hother entry List.mem_cons_self (by simpa using hsame)
    refine List.Forall₂.cons ⟨hid, hfound, ?_⟩
      (ih fun other hmem ↦ hother other (List.mem_cons_of_mem _ hmem))
    exact ((Heap.read_write hread changed _).trans (if_neg hne)).trans hvalue

/-- The sender's loop over the entries is the loop over the sessions that they lead to. -/
theorem contents_visitPointers (accepts : UInt64 → ℕ → Bool) (h : ObjectInvariant server)
    {rest : List (UInt64 × ℕ)} {values : List (UInt64 × Session)}
    (hdistinct : rest.Pairwise fun a b ↦ a.1 ≠ b.1)
    (hrest : List.Forall₂ (LeadsTo server) rest values) :
    contents { server with heap := (visitPointers accepts rest server.heap).1 } =
      (senderLoop accepts values (contents server)).1 := by
  induction rest generalizing server values with
  | nil =>
    cases hrest
    rfl
  | cons entry rest ih =>
    obtain ⟨sessionId, pointer⟩ := entry
    obtain ⟨hfirst, hothers⟩ := List.pairwise_cons.mp hdistinct
    cases hrest with
    | @cons _ value _ values hvalue hlater =>
      obtain ⟨valueId, session⟩ := value
      obtain ⟨rfl, hentry, hread⟩ := hvalue
      dsimp only at hentry hread
      have hwrite := contents_write h hentry hread (senderVisit (accepts valueId) session).session
      rw [visitPointers, senderLoop]
      dsimp only
      rw [useAt_effect hread, hread]
      simp only [Option.any_some]
      by_cases hover : (senderVisit (accepts valueId) session).passOver = true
      · rw [if_pos hover, if_pos hover]
        exact hwrite
      · rw [if_neg hover, if_neg hover]
        have hnext := (sound_write h hread (senderVisit (accepts valueId) session).session).2
        have hkept := leadsTo_write h hentry hread
          (senderVisit (accepts valueId) session).session hfirst hlater
        rw [← hwrite]
        exact ih hnext hothers hkept

/-- A pass of the sender. -/
theorem contents_senderPass (accepts : UInt64 → ℕ → Bool) (h : ObjectInvariant server) :
    contents { server with
      heap := (visitPointers accepts server.sessions.toList server.heap).1 } =
        (senderPass accepts (contents server)).1 :=
  contents_visitPointers accepts h
    (Std.ExtTreeMap.distinct_keys_toList.imp fun hne ↦ by simpa using hne) (leadsTo_toList h)

/-- `run_clean` collects the same ids. -/
theorem collectPointers_eq (now : UInt64) (h : ObjectInvariant server) :
    collectPointers now server = collect now (contents server) := by
  have hlist := leadsTo_toList h
  unfold collectPointers collect
  generalize server.sessions.toList = entries at hlist
  generalize (contents server).toList = values at hlist
  induction hlist with
  | nil => rfl
  | cons hvalue _ ih =>
    obtain ⟨hid, -, hread⟩ := hvalue
    rw [List.filter_cons, List.filter_cons, hread, Option.any_some]
    split_ifs
    · rw [List.map_cons, List.map_cons, ih, hid]
    · exact ih

/-- The second loop of `run_clean`. Assumes: `run_in` is not about to release a session. -/
theorem contents_deletePointers (cleanList : List UInt64) (h : ObjectInvariant server)
    (hok : ∀ sessionId pointer, server.rxThread ≠ .releasing sessionId pointer) :
    contents (deletePointers cleanList server).1 = deleteAll cleanList (contents server) := by
  induction cleanList generalizing server with
  | nil => rfl
  | cons sessionId rest ih =>
    rw [deletePointers, deleteAll, List.foldl_cons, ← deleteAll]
    cases hentry : server.sessions[sessionId]? with
    | some pointer =>
      rw [← contents_delete h hentry]
      exact ih (h.delete hentry (hok sessionId)) hok
    | none =>
      rw [erase_of_none (h.entry_none.mpr hentry)]
      exact ih h hok

end Threads

/-! ### Runs of the regions -/

/-- Regions of the threads lead from one state to another, and none takes a session that `run_in`
is about to release. -/
def Reaches (config : Config) (server next : ObjectServer) : Prop :=
  ∃ events, Along (objectStep config) Undisturbed server events ∧
    (run (objectStep config) server events).1 = next

section Reaches

variable {config : Config} {server next final : ObjectServer}

theorem Reaches.refl (config : Config) (server : ObjectServer) : Reaches config server server :=
  ⟨[], trivial, rfl⟩

theorem Reaches.step (event : ObjectEvent) (hok : Undisturbed server event)
    (hstep : (objectStep config server event).1 = next) : Reaches config server next :=
  ⟨[event], ⟨hok, trivial⟩, hstep⟩

theorem Reaches.trans (h : Reaches config server next) (h' : Reaches config next final) :
    Reaches config server final := by
  obtain ⟨before, hbefore, rfl⟩ := h
  obtain ⟨after, hafter, rfl⟩ := h'
  refine ⟨before ++ after, along_append.mpr ⟨hbefore, hafter⟩, ?_⟩
  rw [run_append]

theorem Reaches.invariant (h : Reaches config server next) (hinvariant : ObjectInvariant server) :
    ObjectInvariant next := by
  obtain ⟨events, halong, rfl⟩ := h
  exact run_induction (P := fun _ state _ ↦ ObjectInvariant state) hinvariant
    (fun _ _ _ _ hstate hok ↦ (objectStep_sound config hstate hok).2) halong

section Segment

variable (config) (environment : Environment) (segment : Segment)

/-- The sessions of the server change from one map to another, and the threads are where they
were. -/
def Changes (config : Config) (server : ObjectServer) (sessions : Sessions) : Prop :=
  ∃ heap pointers, Reaches config server { server with heap := heap, sessions := pointers } ∧
    contents { server with heap := heap, sessions := pointers } = sessions

/-- A segment for a session that stays. -/
theorem changes_kept (h : ObjectInvariant server) (hwaiting : server.rxThread = .waiting)
    {pointer : ℕ} {session after : Session}
    (hentry : server.sessions[segmentId segment]? = some pointer)
    (hread : server.heap.read pointer = some session)
    (hafter : (runInSession config environment (segmentId segment) segment session).session =
      some after) :
    Changes config server ((contents server).insert (segmentId segment) after) := by
  refine ⟨server.heap.write pointer after, server.sessions, ?_,
    contents_write h hentry hread after⟩
  refine Reaches.step (.rxSegment environment segment) trivial ?_
  simp only [objectStep, hwaiting, rxSegment, hentry, hread, hafter]

/-- A segment that releases a session. -/
theorem changes_released (h : ObjectInvariant server) (hwaiting : server.rxThread = .waiting)
    {pointer : ℕ} {session : Session}
    (hentry : server.sessions[segmentId segment]? = some pointer)
    (hread : server.heap.read pointer = some session)
    (hafter : (runInSession config environment (segmentId segment) segment session).session =
      none) :
    Changes config server ((contents server).erase (segmentId segment)) := by
  let written := { server with
    heap := server.heap.write pointer (touched environment segment session) }
  have hwritten : ObjectInvariant written := (sound_write h hread _).2
  have hfirst : Reaches config server { written with
      rxThread := .releasing (segmentId segment) pointer } := by
    refine Reaches.step (.rxSegment environment segment) trivial ?_
    simp only [objectStep, hwaiting, rxSegment, hentry, hread, hafter, written]
  refine ⟨written.heap.free pointer, server.sessions.erase (segmentId segment), ?_, ?_⟩
  · refine hfirst.trans (Reaches.step .rxRelease trivial ?_)
    simp only [objectStep, rxRelease, written, hwaiting]
  · have hdelete := contents_delete hwritten hentry
    rw [contents_write h hentry hread, erase_insert_self] at hdelete
    exact hdelete

/-- A segment that completes a handshake. -/
theorem changes_created (h : ObjectInvariant server) (hwaiting : server.rxThread = .waiting)
    {shmPeer : List UInt8}
    (hentry : server.sessions[segmentId segment]? = none)
    (hcompletes : Completes config environment (segmentId segment) segment shmPeer) :
    Changes config server ((contents server).insertIfNew (segmentId segment)
      (received environment segment (newSession segment shmPeer))) := by
  let made := newSession segment shmPeer
  let pointer := server.heap.next
  have hprocessed : (processData environment (segmentId segment) segment false false false
      made).session = some (received environment segment made) := by
    have hsession := session_runInNew_completes hcompletes
    rw [runInNew_completes hcompletes] at hsession
    exact hsession
  let creating := { server with
    heap := server.heap.alloc made
    rxThread := .creating (segmentId segment) pointer environment segment }
  let created := { creating with
    sessions := server.sessions.insertIfNew (segmentId segment) pointer
    rxThread := .created (segmentId segment) environment segment }
  have hcreating : Reaches config server creating := by
    refine Reaches.step (.rxSegment environment segment) trivial ?_
    simp only [objectStep, hwaiting, rxSegment, hentry, session_runInNew_completes hcompletes,
      hcompletes.mapping]
    rfl
  have hcreated : Reaches config creating created := Reaches.step .rxInsert trivial rfl
  have hread : creating.heap.read pointer = some made :=
    (Heap.read_alloc _ _ _).trans (if_pos rfl)
  have hfound : created.sessions[segmentId segment]? = some pointer :=
    getElem?_insertIfNew_of_none hentry pointer
  refine ⟨creating.heap.write pointer (received environment segment made), created.sessions,
    ?_, ?_⟩
  · refine (hcreating.trans hcreated).trans (Reaches.step .rxFind trivial ?_)
    have hused := useAt_effect hread fun session ↦ (processData environment (segmentId segment)
      segment false false false session).session.getD session
    rw [hprocessed] at hused
    change (rxFind created).1 = _
    unfold rxFind
    dsimp only [created]
    rw [hfound]
    dsimp only
    rw [hused, hwaiting]
    rfl
  · have hinsert : contents created =
        (contents server).insertIfNew (segmentId segment) made := by
      have hcontents := contents_insertIfNew (segmentId segment) (hcreating.invariant h) hread
      exact hcontents.trans (congrArg (·.insertIfNew (segmentId segment) made)
        (contents_alloc h made))
    have hwrite := contents_write ((hcreating.trans hcreated).invariant h) hfound hread
      (received environment segment made)
    rw [hinsert, insert_insertIfNew_of_none (h.entry_none.mpr hentry)] at hwrite
    exact hwrite

/-- `run_in` on a segment without an interruption. -/
theorem changes_segment (h : ObjectInvariant server) (hwaiting : server.rxThread = .waiting) :
    Changes config server (runIn config environment segment (contents server)).1 := by
  unfold runIn
  rw [← segmentId]
  cases hfound : (contents server)[segmentId segment]? with
  | some session =>
    obtain ⟨pointer, hentry, hread⟩ := exists_entry hfound
    simp only [hfound]
    cases hafter :
        (runInSession config environment (segmentId segment) segment session).session with
    | some after => exact changes_kept config environment segment h hwaiting hentry hread hafter
    | none => exact changes_released config environment segment h hwaiting hentry hread hafter
  | none =>
    simp only [hfound]
    cases hafter : (runInNew config environment (segmentId segment) segment).session with
    | some after =>
      obtain ⟨shmPeer, hcompletes, rfl⟩ := completes_of_session hafter
      exact changes_created config environment segment h hwaiting (h.entry_none.mp hfound)
        hcompletes
    | none => exact ⟨server.heap, server.sessions, Reaches.refl config server, rfl⟩

end Segment

/-- A message of an application. -/
theorem changes_message (config : Config) (h : ObjectInvariant server) (message : List UInt8) :
    Changes config server (runOut message (contents server)) := by
  have hthreads : (txMessage message server).1 =
      { server with heap := (txMessage message server).1.heap } := by
    unfold txMessage
    split_ifs
    · rfl
    · split <;> rfl
  refine ⟨(txMessage message server).1.heap, server.sessions, ?_, ?_⟩
  · exact Reaches.step (.txMessage message) trivial hthreads
  · rw [← contents_txMessage h]
    exact congrArg contents hthreads.symm

/-- A pass of the sender. -/
theorem changes_pass (config : Config) (h : ObjectInvariant server)
    (accepts : UInt64 → ℕ → Bool) :
    Changes config server (senderPass accepts (contents server)).1 :=
  ⟨_, server.sessions, Reaches.step (.senderPass accepts) trivial rfl,
    contents_senderPass accepts h⟩

/-- The second loop of `run_clean` leaves the threads alone. -/
theorem threads_deletePointers (cleanList : List UInt64) (server : ObjectServer) :
    (deletePointers cleanList server).1 = { server with
      heap := (deletePointers cleanList server).1.heap
      sessions := (deletePointers cleanList server).1.sessions } := by
  induction cleanList generalizing server with
  | nil => rfl
  | cons sessionId rest ih =>
    rw [deletePointers]
    split
    · exact ih _
    · exact ih server

end Reaches

/-! ### The two machines -/

/-- Where `run_meta` is. A session that is opened is made when it is put in the map. -/
def MetaShows (thread : OpenThread) : MetaThread → Prop
  | .closing sessionId _ => ∃ pointer, thread = .closing sessionId pointer
  | _ => thread = .waiting

/-- The objects hold the sessions, and the threads are at the same places. -/
structure Shows (server : ObjectServer) (values : Server) : Prop where
  invariant : ObjectInvariant server
  rxThread : server.rxThread = .waiting
  sessions : contents server = values.sessions
  metaThread : MetaShows server.openThread values.metaThread
  cleanThread : server.cleanThread = values.cleanThread

/-- The objects go on to a state that holds the sessions. -/
def Continues (config : Config) (server : ObjectServer) (values : Server) : Prop :=
  ∃ next, Reaches config server next ∧ Shows next values

section Simulation

variable {config : Config} {server : ObjectServer} {values : Server}

theorem Shows.stay (h : Shows server values) (config : Config) : Continues config server values :=
  ⟨server, Reaches.refl config server, h⟩

/-- A change of the sessions. -/
theorem Shows.changes (h : Shows server values) {sessions : Sessions}
    (hchanges : Changes config server sessions) :
    Continues config server { values with sessions := sessions } := by
  obtain ⟨heap, pointers, hreaches, hsessions⟩ := hchanges
  exact ⟨_, hreaches, hreaches.invariant h.invariant, h.rxThread, hsessions, h.metaThread,
    h.cleanThread⟩

/-- The segments, messages and passes. -/
theorem serverStep_objects (h : Shows server values) (event : ServerEvent) :
    Continues config server
      { values with sessions := (serverStep config values.sessions event).1 } := by
  refine h.changes ?_
  rw [← h.sessions]
  cases event with
  | segment environment segment =>
    exact changes_segment config environment segment h.invariant h.rxThread
  | message message => exact changes_message config h.invariant message
  | pass accepts => exact changes_pass config h.invariant accepts

/-- The steps of `run_clean`. -/
theorem cleanStep_objects (h : Shows server values) (event : ThreadEvent) :
    Continues config server (cleanStep values event) := by
  have hreleasing : ∀ sessionId pointer, server.rxThread ≠ .releasing sessionId pointer := by
    intro sessionId pointer
    rw [h.rxThread]
    simp
  unfold cleanStep
  split
  · next now =>
    split
    · next hsleeping =>
      have hstep : Reaches config server { server with cleanThread := .timed now } := by
        refine Reaches.step (.cleanClock now) trivial ?_
        simp only [objectStep, h.cleanThread.trans hsleeping]
      exact ⟨_, hstep, hstep.invariant h.invariant, h.rxThread, h.sessions, h.metaThread, rfl⟩
    · exact h.stay config
  · split
    · next now htimed =>
      have hstep : Reaches config server { server with
          cleanThread := .collected (collectPointers now server) } := by
        refine Reaches.step .cleanCollect trivial ?_
        simp only [objectStep, h.cleanThread.trans htimed]
      refine ⟨_, hstep, hstep.invariant h.invariant, h.rxThread, h.sessions, h.metaThread, ?_⟩
      rw [collectPointers_eq now h.invariant, h.sessions]
    · exact h.stay config
  · split
    · next cleanList hcollected =>
      have hstep : Reaches config server { (deletePointers cleanList server).1 with
          cleanThread := .sleeping } := by
        refine Reaches.step .cleanDelete ?_ ?_
        · exact fun sessionId pointer _ hequal ↦ absurd hequal (hreleasing sessionId pointer)
        · simp only [objectStep, h.cleanThread.trans hcollected]
      have hthreads := threads_deletePointers cleanList server
      refine ⟨_, hstep, hstep.invariant h.invariant, ?_, ?_, ?_, rfl⟩
      · rw [hthreads]
        exact h.rxThread
      · rw [← h.sessions]
        exact contents_deletePointers cleanList h.invariant hreleasing
      · rw [hthreads]
        exact h.metaThread
    · exact h.stay config
  · exact h.stay config

/-- The begin of a close. -/
theorem closeRequest_objects (h : Shows server values) (hwaiting : values.metaThread = .waiting)
    (sessionId : UInt64) : Continues config server (closeRequest sessionId values) := by
  unfold closeRequest
  split
  · next session hsession =>
    obtain ⟨pointer, hentry, -⟩ := exists_entry (h.sessions ▸ hsession)
    have hopen : server.openThread = .waiting := by
      have hthread := h.metaThread
      rwa [hwaiting] at hthread
    have hstep : Reaches config server { server with
        sessions := server.sessions.erase sessionId
        openThread := .closing sessionId pointer } := by
      refine Reaches.step (.metaClose sessionId) ?_ ?_
      · intro other
        rw [h.rxThread]
        simp
      · simp only [objectStep, metaClose, hopen, hentry]
    refine ⟨_, hstep, hstep.invariant h.invariant, h.rxThread, ?_, ⟨pointer, rfl⟩, h.cleanThread⟩
    rw [← h.sessions]
    exact contents_erase server sessionId
  · exact h.stay config

/-- The insertion of a session that was opened. -/
theorem metaInsert_objects (h : Shows server values) :
    Continues config server (metaInsert values) := by
  unfold metaInsert
  split
  · next sessionId session hopened =>
    have hopen : server.openThread = .waiting := by
      have hthread := h.metaThread
      rwa [hopened] at hthread
    let made := { server with
      heap := server.heap.alloc session
      openThread := .opening sessionId server.heap.next }
    have hmade : Reaches config server made := by
      refine Reaches.step (.metaOpen sessionId session false) trivial ?_
      simp only [objectStep, metaOpen, hopen, Bool.false_eq_true, if_false]
      rfl
    have hread : made.heap.read server.heap.next = some session :=
      (Heap.read_alloc _ _ _).trans (if_pos rfl)
    have hstep : Reaches config server { made with
        sessions := made.sessions.insertIfNew sessionId server.heap.next
        openThread := .waiting } :=
      hmade.trans (Reaches.step .metaInsert trivial rfl)
    refine ⟨_, hstep, hstep.invariant h.invariant, h.rxThread, ?_, rfl, h.cleanThread⟩
    have hinsert := contents_insertIfNew sessionId (hmade.invariant h.invariant) hread
    refine hinsert.trans ?_
    rw [← h.sessions]
    exact congrArg (·.insertIfNew sessionId session) (contents_alloc h.invariant session)
  · exact h.stay config

/-- The rest of a close. -/
theorem metaFin_objects (h : Shows server values) {accepted : Bool} {next : Server}
    (hstep : (metaFin accepted values).1 = some next) : Continues config server next := by
  simp only [metaFin] at hstep
  split at hstep
  · next sessionId session hclosing =>
    split at hstep
    · exact absurd hstep (by simp)
    · obtain rfl := Option.some.inj hstep
      have hthread := h.metaThread
      rw [hclosing] at hthread
      obtain ⟨pointer, hthread⟩ := hthread
      have hfin : Reaches config server { server with
          heap := server.heap.free pointer
          openThread := .waiting } := by
        refine Reaches.step .metaFin trivial ?_
        simp only [objectStep, objectFin, hthread]
      refine ⟨_, hfin, hfin.invariant h.invariant, h.rxThread, ?_, rfl, h.cleanThread⟩
      rw [← h.sessions]
      refine contents_free server fun otherId hentry ↦ ?_
      have howns : owns server .openThread = some pointer := by rw [owns, hthread]
      have hsame := h.invariant.owned.unique (.entry otherId) .openThread pointer hentry howns
      exact absurd hsame (by simp)
  · obtain rfl := Option.some.inj hstep
    exact h.stay config

end Simulation

/-- The step lemma of the simulation. -/
theorem threadStep_objects {config : ServerConfig} {server : ObjectServer} {values next : Server}
    (h : Shows server values) {event : ThreadEvent}
    (hstep : (threadStep config (some values) event).1 = some next) :
    Continues config.toConfig server next := by
  cases event with
  | data input =>
    obtain rfl := Option.some.inj hstep
    exact serverStep_objects h input
  | metaRequest environment message =>
    simp only [threadStep] at hstep
    split at hstep
    · next hwaiting =>
      rcases metaRequest_cases hstep with rfl | ⟨sender, entry, -, rfl⟩ | ⟨sessionId, -, rfl⟩
      · exact h.stay _
      · have hthread := h.metaThread
        rw [hwaiting] at hthread
        exact ⟨server, Reaches.refl _ server, h.invariant, h.rxThread, h.sessions, hthread,
          h.cleanThread⟩
      · exact closeRequest_objects h hwaiting sessionId
    · obtain rfl := Option.some.inj hstep
      exact h.stay _
  | metaReply accepted =>
    obtain rfl := Option.some.inj hstep
    refine ⟨server, Reaches.refl _ server, h.invariant, h.rxThread, ?_, ?_, ?_⟩
    · rw [sessions_metaReply]
      exact h.sessions
    · have hthread := h.metaThread
      unfold metaReply
      split
      · next sender sessionId session hopening =>
        rw [hopening] at hthread
        dsimp only
        split_ifs
        · exact hthread
        · exact hthread
      · exact hthread
    · unfold metaReply
      split
      · dsimp only
        split_ifs <;> exact h.cleanThread
      · exact h.cleanThread
  | metaInsert =>
    obtain rfl := Option.some.inj hstep
    exact metaInsert_objects h
  | metaFin accepted => exact metaFin_objects h hstep
  | cleanClock now =>
    obtain rfl := Option.some.inj hstep
    exact cleanStep_objects h _
  | cleanCollect =>
    obtain rfl := Option.some.inj hstep
    exact cleanStep_objects h _
  | cleanDelete =>
    obtain rfl := Option.some.inj hstep
    exact cleanStep_objects h _

/-- The objects at the start hold no session. -/
theorem shows_start : Shows .start .start := by
  refine ⟨objectInvariant_start, rfl, ?_, rfl, rfl⟩
  refine Std.ExtTreeMap.ext_getElem? fun sessionId ↦ ?_
  rw [getElem?_contents]
  simp [ObjectServer.start, Server.start]

/-- Every run of the threads that does not end the server is a run of the regions on the session
objects, in which `run_in` is not interrupted. -/
theorem threadRun_objects (config : ServerConfig) (events : List ThreadEvent) {final : Server}
    (hrun : (run (threadStep config) (some .start) events).1 = some final) :
    Continues config.toConfig .start final := by
  have hall := run_induction (P := fun _ state _ ↦
      ∀ values, state = some values → Continues config.toConfig .start values)
    ?_ ?_ (along_true (threadStep config) (some .start) events)
  · exact hall final hrun
  · rintro values ⟨⟩
    exact shows_start.stay _
  · rintro - state - event hbefore - values hvalues
    cases state with
    | none => exact absurd hvalues (by simp [threadStep])
    | some before =>
      obtain ⟨server, hreaches, hshows⟩ := hbefore before rfl
      obtain ⟨next, hnext, hafter⟩ := threadStep_objects hshows hvalues
      exact ⟨next, hreaches.trans hnext, hafter⟩

end MyIPNG.Tcp
