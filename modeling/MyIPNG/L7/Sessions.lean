import MyIPNG.Base.Ownership
import MyIPNG.Base.Runs
import MyIPNG.Base.Table
import MyIPNG.L7.Meta
import MyIPNG.Shm.Wrapping
import MyIPNG.Tcp.Session

/-!
# The sessions of the servers for applications

`run_in` and `run_meta` of `http_server.cpp`, `vnc_server.cpp` and `gopher_server.cpp` share a map
of pointers to sessions, and every session has a thread that handles it. `run_in` takes turns: it
deletes the sessions that are finished, waits for a message, looks the session of the message up or
makes it, and pushes the payload into the queue of the session. It holds `sessions_lock` while it
deletes and while it looks up, and not while it pushes. `run_meta` holds the lock while it deletes a
session that is to be closed.

`l7Step` is one region under a hold of the lock, or the code between two of them, of one thread at a
time. A deletion joins the thread of the session first, so the region of a close ends when that
thread has finished; until then a step of the waiting thread changes nothing. What a message asks
`run_meta` for is what the whole loop body does with it (`runMeta_metaRequest`).

Between the lookup and the push the pointer of `run_in` is to a session of the map unless a close
deletes that session (`pushes_live_iff`).
-/

set_option autoImplicit false
set_option relaxedAutoImplicit false

namespace MyIPNG.L7

open Base Shm Utils
open Tcp (miTcpOpen miTcpClose)

/-! ### The threads -/

/-- What the threads share of a `tcp_l7_session_t`. -/
structure L7Session where
  finished : Bool
  stopFlag : Bool
  incoming : List (List UInt8)
deriving DecidableEq, Repr

/-- A session that was just made. -/
def L7Session.fresh : L7Session := ⟨false, false, []⟩

/-- What the servers differ in: whether `MI_TCP_CLOSE` sets the stop flag of a session, and whether
`please_terminate` ends the server when it has no session. -/
structure Service where
  closeStops : Bool
  terminates : Bool
deriving DecidableEq, Repr

/-- `http_server.cpp`. -/
def httpService : Service := ⟨true, true⟩

/-- `vnc_server.cpp`. -/
def vncService : Service := ⟨true, false⟩

/-- `gopher_server.cpp`. -/
def gopherService : Service := ⟨false, false⟩

/-- Where `run_in` is: about to delete finished sessions, about to wait for a message, about to look
the session of a message up, or about to push the payload into the session that it has found. -/
inductive RxThread
  | cleaning
  | receiving
  | received (sessionId : UInt64) (flags : UInt32) (pl : List UInt8)
  | found (sessionId : UInt64) (pointer : ℕ) (pl : List UInt8)
  | ended
deriving DecidableEq, Repr

/-- Where `run_meta` is: about to wait for a message, or about to close a session. -/
inductive MetaThread
  | waiting
  | closing (sessionId : UInt64)
  | ended
deriving DecidableEq, Repr

/-- The session objects, the map of pointers, the threads and the flags of the server. The server is
aborted behind an exception that leaves a thread, a failed assertion, a read of something that is
not there or a second release of a message. -/
structure L7Server where
  heap : Heap L7Session
  sessions : Std.ExtTreeMap UInt64 ℕ
  rxThread : RxThread
  metaThread : MetaThread
  stopFlag : Bool
  pleaseTerminate : Bool
  aborted : Bool

/-- The server before the first event. -/
def L7Server.start : L7Server := ⟨.empty, ∅, .cleaning, .waiting, false, false, false⟩

/-- What the thread of a session does with it. -/
inductive HandlerAction
  | pop
  | unpop (values : List UInt8)
  | finish
deriving DecidableEq, Repr

/-- A step of one of the threads, or a signal. The queues have a message for `run_in` or `run_meta`,
or have none for a while. -/
inductive L7Event
  | rxClean
  | rxReceive (m : Option (List UInt8))
  | rxLookup
  | rxPush
  | metaReceive (text : Option (List UInt8))
  | metaClose
  | handler (pointer : ℕ) (action : HandlerAction)
  | sigint
  | sigterm
deriving DecidableEq, Repr

/-! ### `run_in` -/

/-- The condition of the loop of `run_in`. -/
def rxTurn (server : L7Server) : L7Server :=
  { server with rxThread := if server.stopFlag then .ended else .cleaning }

/-- The loop over the sessions that deletes the finished ones: the objects behind it and the ids
that are collected. -/
def cleanLoop : List (UInt64 × ℕ) → Heap L7Session → Heap L7Session × List UInt64 × List Access
  | [], heap => (heap, [], [])
  | (sessionId, pointer) :: rest, heap =>
    if (heap.read pointer).any L7Session.finished then
      let final := cleanLoop rest (heap.free pointer)
      (final.1, sessionId :: final.2.1, .use pointer :: .delete pointer :: final.2.2)
    else
      let final := cleanLoop rest heap
      (final.1, final.2.1, .use pointer :: final.2.2)

/-- The first region of `run_in`. -/
def rxClean (service : Service) (server : L7Server) : L7Server × List Access :=
  let cleaned := cleanLoop server.sessions.toList server.heap
  let sessions := cleaned.2.1.foldl (fun sessions sessionId ↦ sessions.erase sessionId)
    server.sessions
  let stopped := service.terminates && sessions.isEmpty && server.pleaseTerminate
  ({ server with
    heap := cleaned.1
    sessions := sessions
    stopFlag := server.stopFlag || stopped
    rxThread := if stopped then .ended else .receiving }, cleaned.2.2)

/-- `run_in` between its two regions. -/
def rxReceive (m : Option (List UInt8)) (server : L7Server) : L7Server × List Access :=
  match m with
  | none => (rxTurn server, [])
  | some m =>
    match unwrapMessageUpTcp m with
    | none => ({ server with aborted := true }, [])
    | some unwrapped =>
      ({ server with
        rxThread := .received unwrapped.sessionId unwrapped.flags (unwrapped.pl.read m) }, [])

/-- The second region of `run_in`. -/
def rxLookup (service : Service) (sessionId : UInt64) (flags : UInt32) (pl : List UInt8)
    (server : L7Server) : L7Server × List Access :=
  match server.sessions[sessionId]? with
  | none =>
    if flags &&& miTcpOpen ≠ 0 then
      ({ server with
        heap := server.heap.alloc .fresh
        sessions := server.sessions.insert sessionId server.heap.next
        rxThread := .found sessionId server.heap.next pl }, [.use server.heap.next])
    else (rxTurn server, [])
  | some pointer =>
    let next := { server with rxThread := .found sessionId pointer pl }
    if service.closeStops ∧ flags &&& miTcpClose ≠ 0 then
      match server.heap.read pointer with
      | some session =>
        ({ next with heap := server.heap.write pointer { session with stopFlag := true } },
          [.use pointer])
      | none => (next, [.use pointer])
    else (next, [])

/-- `run_in` behind its second region. -/
def rxPush (pointer : ℕ) (pl : List UInt8) (server : L7Server) : L7Server × List Access :=
  match server.heap.read pointer with
  | some session =>
    (rxTurn { server with
      heap := server.heap.write pointer { session with incoming := session.incoming ++ [pl] } },
      [.use pointer])
  | none => (rxTurn server, [.use pointer])

/-! ### `run_meta` and the threads of the sessions -/

/-- What a message asks `run_meta` for. -/
inductive MetaRequest
  | ignored
  | close (sessionId : UInt64)
  | fault
deriving DecidableEq, Repr

/-- `run_meta` up to its region. A message that the loop releases is released again. -/
def metaRequest (text : List UInt8) : MetaRequest :=
  let lines := metaLines text
  if lines.length < 2 then .ignored
  else
    match metaLoop lines none with
    | ([], .invalid) => .ignored
    | ([], .done (some sessionId)) => .close sessionId
    | _ => .fault

/-- What `run_meta` does with a message, by what the message asks for. -/
theorem runMeta_metaRequest {σ : Type*} (sessions : Std.ExtTreeMap UInt64 σ) (text : List UInt8) :
    (metaRequest text = .ignored ∧ runMeta sessions text = ([MetaEvent.freed], sessions)) ∨
    (∃ sessionId, metaRequest text = .close sessionId ∧
      runMeta sessions text = ([MetaEvent.freed], sessions.erase sessionId)) ∨
    (metaRequest text = .fault ∧ (runMeta sessions text).1 ≠ [.freed]) := by
  unfold metaRequest runMeta
  by_cases hshort : (metaLines text).length < 2
  · exact .inl ⟨if_pos hshort, if_pos hshort⟩
  · rw [if_neg hshort, if_neg hshort]
    have hfaulted : (metaLoop (metaLines text) none).2 = .faulted →
        .missingPart ∈ (metaLoop (metaLines text) none).1 ∨
          .exception ∈ (metaLoop (metaLines text) none).1 :=
      metaLoop_faulted
    rcases hloop : metaLoop (metaLines text) none with ⟨events, _ | _ | _ | sessionId⟩
    · refine .inr (.inr ⟨by cases events <;> rfl, fun hevents ↦ ?_⟩)
      obtain rfl : events = [.freed] := hevents
      rw [hloop] at hfaulted
      exact absurd (hfaulted rfl) (by simp)
    · cases events with
      | nil => exact .inl ⟨rfl, rfl⟩
      | cons event rest => exact .inr (.inr ⟨rfl, by simp⟩)
    · exact .inr (.inr ⟨by cases events <;> rfl, by cases events <;> simp⟩)
    · cases events with
      | nil =>
        refine .inr (.inl ⟨sessionId, rfl, ?_⟩)
        dsimp only
        split_ifs with hthere
        · rfl
        · rw [erase_of_none (Std.ExtTreeMap.getElem?_eq_none hthere)]
          rfl
      | cons event rest =>
        refine .inr (.inr ⟨rfl, ?_⟩)
        dsimp only
        split_ifs <;> simp

/-- The condition of the loop of `run_meta`. -/
def metaTurn (server : L7Server) : L7Server :=
  { server with metaThread := if server.stopFlag then .ended else .waiting }

/-- `run_meta` up to its region. -/
def metaReceive (text : Option (List UInt8)) (server : L7Server) : L7Server × List Access :=
  match text with
  | none => (metaTurn server, [])
  | some text =>
    match metaRequest text with
    | .ignored => (metaTurn server, [])
    | .close sessionId => ({ server with metaThread := .closing sessionId }, [])
    | .fault => ({ server with aborted := true }, [])

/-- The region of `run_meta`, with what is behind it. It waits for the thread of the session. -/
def metaClose (sessionId : UInt64) (server : L7Server) : L7Server × List Access :=
  match server.sessions[sessionId]? with
  | none => (metaTurn server, [])
  | some pointer =>
    if (server.heap.read pointer).any L7Session.finished then
      (metaTurn { server with
        heap := server.heap.free pointer
        sessions := server.sessions.erase sessionId }, [.use pointer, .delete pointer])
    else (server, [])

/-- The session behind an action of its thread. -/
def HandlerAction.apply (session : L7Session) : HandlerAction → L7Session
  | .pop => { session with incoming := session.incoming.tail }
  | .unpop values => { session with incoming := values :: session.incoming }
  | .finish => { session with finished := true }

/-- A step of the thread of a session, which ends when it has finished. -/
def handlerStep (pointer : ℕ) (action : HandlerAction) (server : L7Server) :
    L7Server × List Access :=
  match server.heap.read pointer with
  | some session =>
    if session.finished then (server, [])
    else ({ server with heap := server.heap.write pointer (action.apply session) }, [.use pointer])
  | none => (server, [])

/-- A step of the server. A thread that is elsewhere does not take it. -/
def l7Step (service : Service) (server : L7Server) (event : L7Event) : L7Server × List Access :=
  if server.aborted then (server, [])
  else
    match event with
    | .rxClean =>
      match server.rxThread with
      | .cleaning => rxClean service server
      | _ => (server, [])
    | .rxReceive m =>
      match server.rxThread with
      | .receiving => rxReceive m server
      | _ => (server, [])
    | .rxLookup =>
      match server.rxThread with
      | .received sessionId flags pl => rxLookup service sessionId flags pl server
      | _ => (server, [])
    | .rxPush =>
      match server.rxThread with
      | .found _ pointer pl => rxPush pointer pl server
      | _ => (server, [])
    | .metaReceive text =>
      match server.metaThread with
      | .waiting => metaReceive text server
      | _ => (server, [])
    | .metaClose =>
      match server.metaThread with
      | .closing sessionId => metaClose sessionId server
      | _ => (server, [])
    | .handler pointer action => handlerStep pointer action server
    | .sigint => ({ server with stopFlag := true }, [])
    | .sigterm => ({ server with pleaseTerminate := true }, [])

/-! ### The session that a payload is pushed into -/

/-- The session that `run_in` has looked up, and pushes a payload into with its next step, is in
the map and not deleted. -/
def PushIsLive (server : L7Server) : Prop :=
  ∀ sessionId pointer pl, server.rxThread = .found sessionId pointer pl →
    server.sessions[sessionId]? = some pointer ∧ ∃ session, server.heap.read pointer = some session

/-- The step is not the close of the session that `run_in` has looked up. A close that waits for the
thread of the session is none yet. -/
def Undisturbed (server : L7Server) (event : L7Event) : Prop :=
  event = .metaClose → server.aborted = false → ∀ sessionId pointer pl session,
    server.rxThread = .found sessionId pointer pl → server.metaThread = .closing sessionId →
    server.heap.read pointer = some session → session.finished = false

/-- The invariant: the sessions of the map are there and no two ids have the same one, and the one
that `run_in` has looked up is in the map. -/
structure L7Invariant (server : L7Server) : Prop where
  owned : Owned server.heap fun sessionId : UInt64 ↦ server.sessions[sessionId]?
  found : ∀ sessionId pointer pl, server.rxThread = .found sessionId pointer pl →
    server.sessions[sessionId]? = some pointer

theorem L7Invariant.pushIsLive {server : L7Server} (h : L7Invariant server) :
    PushIsLive server := by
  intro sessionId pointer pl hfound
  have hentry := h.found sessionId pointer pl hfound
  exact ⟨hentry, h.owned.live sessionId pointer hentry⟩

theorem l7Invariant_start : L7Invariant .start := by
  refine ⟨⟨fun sessionId pointer howns ↦ ?_, fun sessionId other pointer howns ↦ ?_⟩, ?_⟩
  · exact absurd howns (by simp [L7Server.start])
  · exact absurd howns (by simp [L7Server.start])
  · rintro sessionId pointer pl ⟨⟩

section Regions

variable {server next : L7Server} {sessionId : UInt64} {pointer : ℕ} {pl : List UInt8}

/-- A step has an effect on the session objects and keeps the invariant. -/
def SoundStep (server : L7Server) (result : L7Server × List Access) : Prop :=
  Effect server.heap result.1.heap result.2 ∧ L7Invariant result.1

/-- A step that leaves the objects and the map alone. Assumes: what `run_in` has looked up
afterwards is in the map. -/
theorem sound_threads (h : L7Invariant server) (hheap : next.heap = server.heap)
    (hsessions : next.sessions = server.sessions)
    (hfound : ∀ sessionId pointer pl, next.rxThread = .found sessionId pointer pl →
      server.sessions[sessionId]? = some pointer) : SoundStep server (next, []) := by
  refine ⟨?_, ?_, ?_⟩
  · rw [hheap]
    exact Effect.refl server.heap
  · rw [hheap, hsessions]
    exact h.owned
  · rw [hsessions]
    exact hfound

theorem sound_idle (h : L7Invariant server) : SoundStep server (server, []) :=
  sound_threads h rfl rfl h.found

/-- `run_in` takes its next turn or ends. -/
theorem rxTurn_not_found (server : L7Server) :
    (rxTurn server).rxThread ≠ .found sessionId pointer pl := by
  unfold rxTurn
  dsimp only
  split_ifs
  · simp
  · simp

/-- A session of the map is changed. -/
theorem sound_change (h : L7Invariant server) {session : L7Session}
    (hread : server.heap.read pointer = some session) (changed : L7Session)
    (hheap : next.heap = server.heap.write pointer changed)
    (hsessions : next.sessions = server.sessions)
    (hfound : ∀ sessionId pointer pl, next.rxThread = .found sessionId pointer pl →
      server.sessions[sessionId]? = some pointer) : SoundStep server (next, [.use pointer]) := by
  refine ⟨?_, ?_, ?_⟩
  · rw [hheap]
    exact effect_write hread changed
  · rw [hheap, hsessions]
    exact h.owned.write hread changed
  · rw [hsessions]
    exact hfound

theorem sound_rxTurn (h : L7Invariant server) : SoundStep server (rxTurn server, []) :=
  sound_threads h rfl rfl fun _ _ _ hfound ↦ absurd hfound (rxTurn_not_found server)

theorem sound_rxReceive (h : L7Invariant server) (m : Option (List UInt8)) :
    SoundStep server (rxReceive m server) := by
  unfold rxReceive
  split
  · exact sound_rxTurn h
  · split
    · exact sound_threads h rfl rfl h.found
    · exact sound_threads h rfl rfl fun _ _ _ hfound ↦ absurd hfound (by simp)

theorem sound_metaReceive (h : L7Invariant server) (text : Option (List UInt8)) :
    SoundStep server (metaReceive text server) := by
  unfold metaReceive
  split
  · exact sound_threads h rfl rfl h.found
  · split
    · exact sound_threads h rfl rfl h.found
    · exact sound_threads h rfl rfl h.found
    · exact sound_threads h rfl rfl h.found

theorem sound_rxLookup (h : L7Invariant server) (service : Service) (sessionId : UInt64)
    (flags : UInt32) (pl : List UInt8) :
    SoundStep server (rxLookup service sessionId flags pl server) := by
  unfold rxLookup
  cases hentry : server.sessions[sessionId]? with
  | none =>
    dsimp only
    split_ifs with hopen
    · refine ⟨effect_alloc server.heap _, ?_, ?_⟩
      · refine h.owned.alloc _ sessionId Std.ExtTreeMap.getElem?_insert_self ?_
        intro other kept hne hkept
        rwa [getElem?_insert_other hne.symm] at hkept
      · rintro other kept values ⟨⟩
        exact Std.ExtTreeMap.getElem?_insert_self
    · exact sound_rxTurn h
  | some pointer =>
    obtain ⟨session, hread⟩ := h.owned.live sessionId pointer hentry
    have hfound : ∀ other kept values,
        RxThread.found sessionId pointer pl = .found other kept values →
          server.sessions[other]? = some kept := by
      rintro other kept values ⟨⟩
      exact hentry
    dsimp only
    split_ifs with hclose
    · simp only [hread]
      exact sound_change h hread _ rfl rfl hfound
    · exact sound_threads h rfl rfl hfound

theorem sound_rxPush (h : L7Invariant server)
    (hfound : server.rxThread = .found sessionId pointer pl) :
    SoundStep server (rxPush pointer pl server) := by
  obtain ⟨session, hread⟩ := h.owned.live sessionId pointer (h.found sessionId pointer pl hfound)
  simp only [rxPush, hread]
  exact sound_change h hread _ rfl rfl fun _ _ _ hnext ↦ absurd hnext (rxTurn_not_found _)

/-- The loop over the sessions. Assumes: its entries are of the map, with different ids. -/
theorem cleanLoop_effect {entries : List (UInt64 × ℕ)} {heap : Heap L7Session}
    {owns : UInt64 → Option ℕ} (howned : Owned heap owns)
    (hentries : ∀ entry ∈ entries, owns entry.1 = some entry.2)
    (hdistinct : entries.Pairwise fun a b ↦ a.1 ≠ b.1) :
    Effect heap (cleanLoop entries heap).1 (cleanLoop entries heap).2.2 ∧
      Owned (cleanLoop entries heap).1 fun sessionId ↦
        if sessionId ∈ (cleanLoop entries heap).2.1 then none else owns sessionId := by
  induction entries generalizing heap owns with
  | nil => exact ⟨Effect.refl heap, by simpa [cleanLoop] using howned⟩
  | cons entry rest ih =>
    obtain ⟨sessionId, pointer⟩ := entry
    obtain ⟨hentry, hrest⟩ := List.forall_mem_cons.mp hentries
    obtain ⟨hothers, hdistinct⟩ := List.pairwise_cons.mp hdistinct
    obtain ⟨session, hread⟩ := howned.live sessionId pointer hentry
    rw [cleanLoop]
    split_ifs with hfinished
    · -- the id has no session any more when the loop goes on
      have hfree : Owned (heap.free pointer) fun other ↦
          if other = sessionId then none else owns other := by
        refine howned.free sessionId hentry (if_pos rfl) fun other kept hkept ↦ ?_
        split_ifs at hkept
        exact hkept
      obtain ⟨heffect, hfinal⟩ := ih hfree
        (fun other hother ↦ (if_neg (hothers other hother).symm).trans (hrest other hother))
        hdistinct
      refine ⟨((effect_read hread).trans (effect_free hread)).trans heffect, ?_⟩
      refine hfinal.subset fun other kept hkept ↦ ?_
      dsimp only at hkept ⊢
      split_ifs at hkept with hcollected
      obtain ⟨hne, hlater⟩ := not_or.mp fun hmem ↦ hcollected (List.mem_cons.mpr hmem)
      rw [if_neg hlater, if_neg hne]
      exact hkept
    · obtain ⟨heffect, hfinal⟩ := ih howned hrest hdistinct
      exact ⟨(effect_read hread).trans heffect, hfinal⟩

theorem sound_rxClean (h : L7Invariant server) (service : Service) :
    SoundStep server (rxClean service server) := by
  obtain ⟨heffect, howned⟩ := cleanLoop_effect h.owned
    (fun entry hentry ↦ Std.ExtTreeMap.mem_toList_iff_getElem?_eq_some.mp hentry)
    (Std.ExtTreeMap.distinct_keys_toList.imp fun hne ↦ by simpa using hne)
  refine ⟨heffect, ?_, fun sessionId pointer pl hfound ↦ ?_⟩
  · refine howned.subset fun sessionId pointer hentry ↦ ?_
    rwa [rxClean, getElem?_foldl_erase] at hentry
  · unfold rxClean at hfound
    dsimp only at hfound
    split_ifs at hfound

/-- The close of a session. Assumes: it is not the one that `run_in` has looked up. -/
theorem sound_metaClose (h : L7Invariant server) (haborted : server.aborted = false)
    (hclosing : server.metaThread = .closing sessionId)
    (hok : Undisturbed server .metaClose) : SoundStep server (metaClose sessionId server) := by
  unfold metaClose
  cases hentry : server.sessions[sessionId]? with
  | none => exact sound_threads h rfl rfl h.found
  | some pointer =>
    obtain ⟨session, hread⟩ := h.owned.live sessionId pointer hentry
    dsimp only
    split_ifs with hfinished
    · refine ⟨(effect_read hread).trans (effect_free hread), ?_, ?_⟩
      · exact h.owned.free sessionId hentry Std.ExtTreeMap.getElem?_erase_self
          fun other kept hkept ↦ getElem?_of_erase hkept
      · intro other kept pl hfound
        have hne : sessionId ≠ other := by
          rintro rfl
          have hkept := h.found sessionId kept pl hfound
          obtain rfl : pointer = kept := Option.some.inj (hentry.symm.trans hkept)
          have hunfinished := hok rfl haborted sessionId pointer pl session hfound hclosing hread
          rw [hread, Option.any_some, hunfinished] at hfinished
          exact absurd hfinished (by simp)
        exact (getElem?_erase_other hne).trans (h.found other kept pl hfound)
    · exact sound_idle h

theorem sound_handlerStep (h : L7Invariant server) (pointer : ℕ) (action : HandlerAction) :
    SoundStep server (handlerStep pointer action server) := by
  unfold handlerStep
  split
  · next session hread =>
    split_ifs with hfinished
    · exact sound_idle h
    · exact sound_change h hread _ rfl rfl h.found
  · exact sound_idle h

/-- Every step is sound, unless it is the close of the session that `run_in` has looked up. -/
theorem l7Step_sound (service : Service) (h : L7Invariant server) {event : L7Event}
    (hok : Undisturbed server event) : SoundStep server (l7Step service server event) := by
  unfold l7Step
  by_cases haborted : server.aborted = true
  · rw [if_pos haborted]
    exact sound_idle h
  · rw [if_neg haborted]
    cases event with
    | rxClean =>
      dsimp only
      split
      · exact sound_rxClean h service
      · exact sound_idle h
    | rxReceive m =>
      dsimp only
      split
      · exact sound_rxReceive h m
      · exact sound_idle h
    | rxLookup =>
      dsimp only
      split
      · exact sound_rxLookup h service _ _ _
      · exact sound_idle h
    | rxPush =>
      dsimp only
      split
      · next hfound => exact sound_rxPush h hfound
      · exact sound_idle h
    | metaReceive text =>
      dsimp only
      split
      · exact sound_metaReceive h text
      · exact sound_idle h
    | metaClose =>
      dsimp only
      split
      · next hclosing =>
        exact sound_metaClose h (Bool.eq_false_iff.mpr haborted) hclosing hok
      · exact sound_idle h
    | handler pointer action => exact sound_handlerStep h pointer action
    | sigint => exact sound_threads h rfl rfl h.found
    | sigterm => exact sound_threads h rfl rfl h.found

/-- A step behind which the payload goes into a live session is no close of the session that
`run_in` has looked up. -/
theorem undisturbed_of_pushIsLive {service : Service} (h : L7Invariant server) {event : L7Event}
    (hlive : PushIsLive (l7Step service server event).1) : Undisturbed server event := by
  rintro rfl haborted sessionId pointer pl session hfound hclosing hread
  by_contra hfinished
  have hentry := h.found sessionId pointer pl hfound
  have hstep : l7Step service server .metaClose = metaClose sessionId server := by
    rw [l7Step, if_neg (by simp [haborted])]
    simp only [hclosing]
  have hclosed : (metaClose sessionId server).1 = metaTurn { server with
      heap := server.heap.free pointer
      sessions := server.sessions.erase sessionId } := by
    rw [metaClose, hentry]
    dsimp only
    rw [hread, Option.any_some, if_pos (by simpa using hfinished)]
  obtain ⟨hgone, -⟩ := hlive sessionId pointer pl (by rw [hstep, hclosed]; exact hfound)
  rw [hstep, hclosed] at hgone
  exact absurd (Std.ExtTreeMap.getElem?_erase_self.symm.trans hgone) (by simp)

end Regions

/-- The payloads of `run_in` go into sessions of the map exactly when no session is closed between
the moments at which `run_in` looks it up and pushes into it: in every state of a run the session
that was looked up is in the map and not deleted, if and only if no step of the run is such a
close. -/
theorem pushes_live_iff (service : Service) (events : List L7Event) :
    Along (l7Step service) Undisturbed .start events ↔
      ∀ first, first <+: events → PushIsLive (run (l7Step service) .start first).1 :=
  along_iff_forall_prefixes l7Invariant_start (fun _ h ↦ h.pushIsLive)
    (fun _ _ h hok ↦ (l7Step_sound service h hok).2) (fun _ _ h hlive ↦
      undisturbed_of_pushIsLive h hlive) events

/-- Without such a close, no session is touched behind its deletion, and each is deleted at most
once. -/
theorem l7_sessions_safe (service : Service) {events : List L7Event}
    (h : Along (l7Step service) Undisturbed .start events) :
    Safe (run (l7Step service) .start events).2 := by
  have hrun := run_induction (P := fun _ server trace ↦
      Effect L7Server.start.heap server.heap trace ∧ L7Invariant server)
    ⟨Effect.refl _, l7Invariant_start⟩ ?_ h
  · exact hrun.1.safe
  · rintro - server trace event ⟨heffect, hinvariant⟩ hok
    obtain ⟨hstep, hnext⟩ := l7Step_sound service hinvariant hok
    exact ⟨heffect.trans hstep, hnext⟩

/-- A client's message for session 1. -/
def sampleMessage (flags : UInt32) (pl : List UInt8) : List UInt8 :=
  encodeUpTcp 1 [10, 0, 0, 2] 40000 [10, 0, 0, 1] 80 flags pl

/-- A session is opened and gets a request, and more data comes in. Before that is pushed, the
thread of the session takes the request and finishes, and the session is closed. -/
def sampleClose : List L7Event :=
  [.rxClean, .rxReceive (some (sampleMessage miTcpOpen [])), .rxLookup, .rxPush,
    .rxClean, .rxReceive (some (sampleMessage 0 [13, 10, 13, 10])), .rxLookup, .rxPush,
    .rxClean, .rxReceive (some (sampleMessage 0 [10])), .rxLookup,
    .handler 0 .pop, .handler 0 .pop, .handler 0 .finish,
    .metaReceive (some (ascii "action=close\nsession-id=1")), .metaClose]

/-- The data goes into a session that is deleted. -/
theorem push_into_deleted_session :
    ¬ PushIsLive (run (l7Step httpService) .start sampleClose).1 := by
  have hfound : (run (l7Step httpService) .start sampleClose).1.rxThread =
      .found 1 0 [10] := by
    decide +kernel
  have hgone : (run (l7Step httpService) .start sampleClose).1.heap.read 0 = none := by
    decide +kernel
  intro hlive
  obtain ⟨-, session, hread⟩ := hlive 1 0 [10] hfound
  rw [hgone] at hread
  exact absurd hread (by simp)

end MyIPNG.L7
