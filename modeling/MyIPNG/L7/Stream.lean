import MyIPNG.L7.Sessions

/-!
# The bytes of a session

A session of a server for applications gets its bytes in three steps: `run_in` takes a message,
looks the session up, and pushes the payload into the queue of the session, from which the thread of
the session takes them and into which it puts back what it took too much. In between come the other
threads, messages for other sessions, deletions and new sessions under the same id.

`Seen` is what an observer writes down: the messages that `run_in` has taken, and the bytes that the
thread of each session has in hand. `session_bytes` says that nothing is lost, repeated, reordered
or mixed with the bytes of another session: what the thread has in hand, what is in the queue and
what `run_in` is about to push are the payloads of the messages for the session, from the one that
opened it.
-/

set_option autoImplicit false
set_option relaxedAutoImplicit false

namespace MyIPNG.L7

open Base Shm Utils
open Tcp (miTcpOpen miTcpClose)

/-! ### What an observer sees -/

/-- A message that `run_in` has taken. -/
structure Received where
  sessionId : UInt64
  flags : UInt32
  pl : List UInt8
deriving DecidableEq, Repr

/-- The messages that `run_in` has taken, and the bytes that the thread of each session has in
hand. -/
structure Seen where
  received : List Received
  inHand : ℕ → List UInt8

/-- Nothing has come. -/
def Seen.start : Seen := ⟨[], fun _ ↦ []⟩

/-- The bytes in the hand of a thread behind an action. -/
def HandlerAction.holds (session : L7Session) (held : List UInt8) : HandlerAction → List UInt8
  | .pop => held ++ session.incoming.headD []
  | .unpop values => held.take (held.length - values.length)
  | .finish => held

/-- A thread has other bytes in hand. -/
def Seen.hold (seen : Seen) (pointer : ℕ) (held : List UInt8) : Seen :=
  { seen with inHand := Function.update seen.inHand pointer held }

theorem inHand_hold_self (seen : Seen) (pointer : ℕ) (held : List UInt8) :
    (seen.hold pointer held).inHand pointer = held := Function.update_self _ _ _

theorem inHand_hold_other (seen : Seen) {pointer other : ℕ} (h : other ≠ pointer)
    (held : List UInt8) : (seen.hold pointer held).inHand other = seen.inHand other :=
  Function.update_of_ne h _ _

/-- What the observer sees of an event. -/
def observe (server : L7Server) (seen : Seen) (event : L7Event) : Seen :=
  if server.aborted then seen
  else
    match event with
    | .rxReceive (some m) =>
      match server.rxThread, unwrapMessageUpTcp m with
      | .receiving, some unwrapped =>
        { seen with received := seen.received ++
          [⟨unwrapped.sessionId, unwrapped.flags, unwrapped.pl.read m⟩] }
      | _, _ => seen
    | .handler pointer action =>
      match server.heap.read pointer with
      | some session =>
        if session.finished then seen
        else seen.hold pointer (action.holds session (seen.inHand pointer))
      | none => seen
    | _ => seen

/-- A thread puts back the last bytes that it took. -/
def GivesBack (seen : Seen) : L7Event → Prop
  | .handler pointer (.unpop values) => values <:+ seen.inHand pointer
  | _ => True

/-- The payloads of the messages for a session. -/
def bytesFor (sessionId : UInt64) (messages : List Received) : List UInt8 :=
  (messages.filter fun m ↦ m.sessionId == sessionId).flatMap Received.pl

/-- The payload for a session that `run_in` is about to push. -/
def pendingFor (sessionId : UInt64) : RxThread → List UInt8
  | .received other _ pl => if other = sessionId then pl else []
  | .found other _ pl => if other = sessionId then pl else []
  | _ => []

theorem bytesFor_snoc (sessionId : UInt64) (messages : List Received) (m : Received) :
    bytesFor sessionId (messages ++ [m]) =
      bytesFor sessionId messages ++ if m.sessionId = sessionId then m.pl else [] := by
  rw [bytesFor, List.filter_append, List.flatMap_append, ← bytesFor]
  by_cases hid : m.sessionId = sessionId <;> simp [hid]

/-! ### The invariant -/

/-- The bytes of a session: what its thread has in hand, what is in its queue and what is about to
be pushed are the payloads of the messages for it, from one that opens it. -/
def Streams (server : L7Server) (seen : Seen) (sessionId : UInt64) (pointer : ℕ)
    (session : L7Session) : Prop :=
  ∃ earlier opening later, seen.received = earlier ++ opening :: later ∧
    opening.sessionId = sessionId ∧ opening.flags &&& miTcpOpen ≠ 0 ∧
    seen.inHand pointer ++ session.incoming.flatten ++ pendingFor sessionId server.rxThread =
      bytesFor sessionId (opening :: later)

/-- The invariant: every session of the map has its bytes, a session that is not made yet has no
bytes in hand, and the message that `run_in` is about to look up is the last one. -/
structure StreamsInvariant (server : L7Server) (seen : Seen) : Prop where
  sound : L7Invariant server
  streams : ∀ sessionId pointer session, server.sessions[sessionId]? = some pointer →
    server.heap.read pointer = some session → Streams server seen sessionId pointer session
  unmade : ∀ pointer, server.heap.next ≤ pointer → seen.inHand pointer = []
  last : ∀ sessionId flags pl, server.rxThread = .received sessionId flags pl →
    ∃ earlier, seen.received = earlier ++ [⟨sessionId, flags, pl⟩]

theorem streamsInvariant_start : StreamsInvariant .start .start := by
  refine ⟨l7Invariant_start, ?_, fun _ _ ↦ rfl, ?_⟩
  · intro sessionId pointer session hentry
    exact absurd hentry (by simp [L7Server.start])
  · rintro sessionId flags pl ⟨⟩

section Steps

variable {server next : L7Server} {seen : Seen} {sessionId : UInt64} {pointer : ℕ}
  {pl : List UInt8}

/-- A step that makes no session, leaves the queues and what is about to be pushed, and is not
seen. -/
theorem StreamsInvariant.quiet (h : StreamsInvariant server seen) (hsound : L7Invariant next)
    (hnext : next.heap.next = server.heap.next)
    (hentries : ∀ sessionId pointer session, next.sessions[sessionId]? = some pointer →
      next.heap.read pointer = some session → server.sessions[sessionId]? = some pointer ∧
        pendingFor sessionId next.rxThread = pendingFor sessionId server.rxThread ∧
        ∃ before, server.heap.read pointer = some before ∧ before.incoming = session.incoming)
    (hlast : ∀ sessionId flags pl, next.rxThread = .received sessionId flags pl →
      server.rxThread = .received sessionId flags pl) : StreamsInvariant next seen := by
  refine ⟨hsound, ?_, fun pointer hpointer ↦ h.unmade pointer (hnext ▸ hpointer), ?_⟩
  · intro sessionId pointer session hentry hread
    obtain ⟨hold, hpending, before, hbefore, hqueue⟩ :=
      hentries sessionId pointer session hentry hread
    obtain ⟨earlier, opening, later, hreceived, hid, hopens, hbytes⟩ :=
      h.streams sessionId pointer before hold hbefore
    exact ⟨earlier, opening, later, hreceived, hid, hopens, by rw [← hqueue, hpending, hbytes]⟩
  · intro sessionId flags pl hthread
    exact h.last sessionId flags pl (hlast sessionId flags pl hthread)

/-- A step that leaves the sessions and the queues, in which `run_in` stays where it is. -/
theorem StreamsInvariant.aside (h : StreamsInvariant server seen) (hsound : L7Invariant next)
    (hheap : next.heap = server.heap) (hsessions : next.sessions = server.sessions)
    (hthread : next.rxThread = server.rxThread) : StreamsInvariant next seen := by
  refine h.quiet hsound (by rw [hheap]) ?_ ?_
  · intro sessionId pointer session hentry hread
    rw [hsessions] at hentry
    rw [hheap] at hread
    exact ⟨hentry, by rw [hthread], session, hread, rfl⟩
  · rw [hthread]
    exact fun _ _ _ hreceived ↦ hreceived

theorem pendingFor_rxTurn (server : L7Server) (sessionId : UInt64) :
    pendingFor sessionId (rxTurn server).rxThread = [] := by
  unfold rxTurn
  dsimp only
  split_ifs <;> rfl

theorem rxTurn_not_received (server : L7Server) {flags : UInt32} :
    (rxTurn server).rxThread ≠ .received sessionId flags pl := by
  unfold rxTurn
  dsimp only
  split_ifs
  · simp
  · simp

/-- `run_in` takes its next turn with nothing to push for a session of the map. -/
theorem StreamsInvariant.turn (h : StreamsInvariant server seen)
    (hsound : L7Invariant (rxTurn server))
    (hpending : ∀ sessionId pointer, server.sessions[sessionId]? = some pointer →
      pendingFor sessionId server.rxThread = []) : StreamsInvariant (rxTurn server) seen := by
  refine h.quiet hsound rfl ?_ fun _ _ _ hthread ↦ absurd hthread (rxTurn_not_received server)
  intro sessionId pointer session hentry hread
  refine ⟨hentry, ?_, session, hread, rfl⟩
  rw [pendingFor_rxTurn, hpending sessionId pointer hentry]

/-- The loop over the sessions makes no session and changes none. -/
theorem cleanLoop_read (entries : List (UInt64 × ℕ)) (heap : Heap L7Session) :
    (cleanLoop entries heap).1.next = heap.next ∧ ∀ pointer session,
      (cleanLoop entries heap).1.read pointer = some session →
        heap.read pointer = some session := by
  induction entries generalizing heap with
  | nil => exact ⟨rfl, fun _ _ hread ↦ hread⟩
  | cons entry rest ih =>
    rw [cleanLoop]
    split_ifs with hfinished
    · obtain ⟨hnext, hread⟩ := ih (heap.free entry.2)
      refine ⟨hnext.trans (Heap.next_free heap entry.2), fun pointer session hsome ↦ ?_⟩
      have hfreed := hread pointer session hsome
      rw [Heap.read_free] at hfreed
      split_ifs at hfreed
      exact hfreed
    · exact ih heap

theorem StreamsInvariant.rxClean (h : StreamsInvariant server seen) (service : Service)
    (hthread : server.rxThread = .cleaning) (hsound : L7Invariant (rxClean service server).1) :
    StreamsInvariant (rxClean service server).1 seen := by
  obtain ⟨hnext, hread⟩ := cleanLoop_read server.sessions.toList server.heap
  refine h.quiet hsound hnext ?_ ?_
  · intro sessionId pointer session hentry hsome
    refine ⟨?_, ?_, session, hread pointer session hsome, rfl⟩
    · rw [L7.rxClean, getElem?_foldl_erase] at hentry
      split_ifs at hentry
      exact hentry
    · rw [hthread, L7.rxClean]
      dsimp only
      split_ifs <;> rfl
  · intro sessionId flags pl hreceived
    rw [L7.rxClean] at hreceived
    dsimp only at hreceived
    split_ifs at hreceived

/-- `run_in` takes a message. -/
theorem StreamsInvariant.rxReceive (h : StreamsInvariant server seen) (m : Option (List UInt8))
    (haborted : server.aborted = false) (hthread : server.rxThread = .receiving)
    (hsound : L7Invariant (rxReceive m server).1) :
    StreamsInvariant (rxReceive m server).1 (observe server seen (.rxReceive m)) := by
  have hidle : ∀ sessionId, pendingFor sessionId server.rxThread = [] := by
    intro sessionId
    rw [hthread]
    rfl
  cases m with
  | none =>
    have hunseen : observe server seen (.rxReceive none) = seen := by
      simp [observe]
    rw [hunseen]
    exact h.turn hsound fun sessionId _ _ ↦ hidle sessionId
  | some m =>
    cases hunwrap : unwrapMessageUpTcp m with
    | none =>
      have hunseen : observe server seen (.rxReceive (some m)) = seen := by
        simp [observe, hthread, hunwrap]
      simp only [L7.rxReceive, hunwrap] at hsound ⊢
      rw [hunseen]
      exact h.aside hsound rfl rfl rfl
    | some unwrapped =>
      have hseen : observe server seen (.rxReceive (some m)) = { seen with
          received := seen.received ++
            [⟨unwrapped.sessionId, unwrapped.flags, unwrapped.pl.read m⟩] } := by
        simp [observe, haborted, hthread, hunwrap]
      simp only [L7.rxReceive, hunwrap] at hsound ⊢
      rw [hseen]
      refine ⟨hsound, ?_, h.unmade, ?_⟩
      · intro sessionId pointer session hentry hread
        obtain ⟨earlier, opening, later, hreceived, hid, hopens, hbytes⟩ :=
          h.streams sessionId pointer session hentry hread
        rw [hidle, List.append_nil] at hbytes
        refine ⟨earlier, opening, later ++ [⟨unwrapped.sessionId, unwrapped.flags,
          unwrapped.pl.read m⟩], ?_, hid, hopens, ?_⟩
        · rw [hreceived, List.append_assoc, List.cons_append]
        · rw [← List.cons_append, bytesFor_snoc, ← hbytes]
          rfl
      · rintro sessionId flags pl ⟨⟩
        exact ⟨seen.received, rfl⟩

/-- `run_in` looks up or makes the session of a message. -/
theorem StreamsInvariant.rxLookup (h : StreamsInvariant server seen) (service : Service)
    {flags : UInt32} (hthread : server.rxThread = .received sessionId flags pl)
    (hsound : L7Invariant (rxLookup service sessionId flags pl server).1) :
    StreamsInvariant (rxLookup service sessionId flags pl server).1 seen := by
  cases hentry : server.sessions[sessionId]? with
  | some pointer =>
    obtain ⟨session, hread⟩ := h.sound.owned.live sessionId pointer hentry
    have hsame : ∀ other, pendingFor other (.found sessionId pointer pl) =
        pendingFor other server.rxThread := by
      intro other
      rw [hthread]
      rfl
    unfold L7.rxLookup at hsound ⊢
    simp only [hentry] at hsound ⊢
    by_cases hclose : service.closeStops = true ∧ flags &&& miTcpClose ≠ 0
    · rw [if_pos hclose] at hsound ⊢
      simp only [hread] at hsound ⊢
      refine h.quiet hsound (Heap.next_write _ _ _) ?_ (by simp)
      intro other found changed hother hfound
      refine ⟨hother, hsame other, ?_⟩
      rw [Heap.read_write hread] at hfound
      split_ifs at hfound with hequal
      · exact ⟨session, hequal ▸ hread, by rw [← Option.some.inj hfound]⟩
      · exact ⟨changed, hfound, rfl⟩
    · rw [if_neg hclose] at hsound ⊢
      exact h.quiet hsound rfl
        (fun other found kept hother hfound ↦ ⟨hother, hsame other, kept, hfound, rfl⟩) (by simp)
  | none =>
    unfold L7.rxLookup at hsound ⊢
    simp only [hentry] at hsound ⊢
    by_cases hopen : flags &&& miTcpOpen ≠ 0
    · rw [if_pos hopen] at hsound ⊢
      obtain ⟨earlier, hlast⟩ := h.last sessionId flags pl hthread
      refine ⟨hsound, ?_, ?_, by simp⟩
      · intro other found session hother hfound
        by_cases hequal : sessionId = other
        · -- the session that the message opens
          subst hequal
          have hmade : found = server.heap.next :=
            (Option.some.inj (Std.ExtTreeMap.getElem?_insert_self.symm.trans hother)).symm
          rw [hmade, Heap.read_alloc, if_pos rfl] at hfound
          refine ⟨earlier, ⟨sessionId, flags, pl⟩, [], hlast, rfl, hopen, ?_⟩
          rw [hmade, h.unmade _ le_rfl, ← Option.some.inj hfound]
          simp [L7Session.fresh, pendingFor, bytesFor]
        · have hkept : server.sessions[other]? = some found := by
            rwa [getElem?_insert_other hequal] at hother
          have hold : server.heap.read found = some session := by
            rw [Heap.read_alloc] at hfound
            split_ifs at hfound with hnew
            · obtain ⟨before, hbefore⟩ := h.sound.owned.live other found hkept
              exact absurd (Heap.lt_next hbefore) (by omega)
            · exact hfound
          obtain ⟨before, opening, later, hreceived, hid, hopens, hbytes⟩ :=
            h.streams other found session hkept hold
          refine ⟨before, opening, later, hreceived, hid, hopens, ?_⟩
          rw [← hbytes, hthread]
          rfl
      · intro found hmade
        rw [Heap.next_alloc] at hmade
        exact h.unmade found (by omega)
    · rw [if_neg hopen] at hsound ⊢
      refine h.turn hsound fun other found hother ↦ ?_
      have hne : sessionId ≠ other := by
        rintro rfl
        rw [hentry] at hother
        exact absurd hother (by simp)
      rw [hthread, pendingFor, if_neg hne]

/-- `run_in` pushes a payload. -/
theorem StreamsInvariant.rxPush (h : StreamsInvariant server seen)
    (hthread : server.rxThread = .found sessionId pointer pl)
    (hsound : L7Invariant (rxPush pointer pl server).1) :
    StreamsInvariant (rxPush pointer pl server).1 seen := by
  have hentry := h.sound.found sessionId pointer pl hthread
  obtain ⟨session, hread⟩ := h.sound.owned.live sessionId pointer hentry
  simp only [L7.rxPush, hread] at hsound ⊢
  refine ⟨hsound, ?_, ?_, fun _ _ _ hreceived ↦ absurd hreceived (rxTurn_not_received _)⟩
  · intro other found changed hother hfound
    have hfound : (server.heap.write pointer
        { session with incoming := session.incoming ++ [pl] }).read found = some changed := hfound
    rw [Heap.read_write hread] at hfound
    by_cases hequal : found = pointer
    · subst hequal
      obtain rfl : other = sessionId := h.sound.owned.unique other sessionId found hother hentry
      rw [if_pos rfl] at hfound
      obtain ⟨earlier, opening, later, hreceived, hid, hopens, hbytes⟩ :=
        h.streams other found session hentry hread
      refine ⟨earlier, opening, later, hreceived, hid, hopens, ?_⟩
      rw [pendingFor_rxTurn, ← hbytes, hthread, ← Option.some.inj hfound]
      simp [pendingFor]
    · have hne : sessionId ≠ other := by
        rintro rfl
        exact hequal (Option.some.inj (hother.symm.trans hentry))
      rw [if_neg hequal] at hfound
      obtain ⟨earlier, opening, later, hreceived, hid, hopens, hbytes⟩ :=
        h.streams other found changed hother hfound
      refine ⟨earlier, opening, later, hreceived, hid, hopens, ?_⟩
      rw [pendingFor_rxTurn, ← hbytes, hthread, pendingFor, if_neg hne]
  · intro found hmade
    exact h.unmade found (by simpa [rxTurn, Heap.next_write] using hmade)

/-- `run_meta` takes a message. -/
theorem metaReceive_same (text : Option (List UInt8)) (server : L7Server) :
    (metaReceive text server).1.heap = server.heap ∧
      (metaReceive text server).1.sessions = server.sessions ∧
      (metaReceive text server).1.rxThread = server.rxThread := by
  unfold metaReceive
  split
  · exact ⟨rfl, rfl, rfl⟩
  · split <;> exact ⟨rfl, rfl, rfl⟩

/-- A session is closed. -/
theorem StreamsInvariant.metaClose (h : StreamsInvariant server seen) (sessionId : UInt64)
    (hsound : L7Invariant (metaClose sessionId server).1) :
    StreamsInvariant (metaClose sessionId server).1 seen := by
  cases hentry : server.sessions[sessionId]? with
  | none =>
    simp only [L7.metaClose, hentry] at hsound ⊢
    exact h.aside hsound rfl rfl rfl
  | some pointer =>
    by_cases hfinished : (server.heap.read pointer).any L7Session.finished = true
    · simp only [L7.metaClose, hentry, if_pos hfinished] at hsound ⊢
      refine h.quiet hsound (Heap.next_free server.heap pointer) ?_ fun _ _ _ hreceived ↦ hreceived
      intro other found session hother hfound
      have hfound : (server.heap.free pointer).read found = some session := hfound
      rw [Heap.read_free] at hfound
      split_ifs at hfound
      exact ⟨getElem?_of_erase hother, rfl, session, hfound, rfl⟩
    · simp only [L7.metaClose, hentry, if_neg hfinished] at hsound ⊢
      exact h

/-- The thread of a session does something with it. Assumes: what it puts back are the last bytes
that it took. -/
theorem StreamsInvariant.handlerStep (h : StreamsInvariant server seen) (pointer : ℕ)
    (action : HandlerAction) (haborted : server.aborted = false)
    (hgives : GivesBack seen (.handler pointer action))
    (hsound : L7Invariant (handlerStep pointer action server).1) :
    StreamsInvariant (handlerStep pointer action server).1
      (observe server seen (.handler pointer action)) := by
  cases hread : server.heap.read pointer with
  | none =>
    have hunseen : observe server seen (.handler pointer action) = seen := by
      simp [observe, hread]
    simp only [L7.handlerStep, hread] at hsound ⊢
    rwa [hunseen]
  | some session =>
    by_cases hfinished : session.finished = true
    · have hunseen : observe server seen (.handler pointer action) = seen := by
        simp [observe, hread, hfinished]
      simp only [L7.handlerStep, hread, if_pos hfinished] at hsound ⊢
      rwa [hunseen]
    · have hseen : observe server seen (.handler pointer action) =
          seen.hold pointer (action.holds session (seen.inHand pointer)) := by
        simp [observe, haborted, hread, hfinished]
      simp only [L7.handlerStep, hread, if_neg hfinished] at hsound ⊢
      rw [hseen]
      -- what the thread takes from the queue it has in hand, and the other way round
      have hbalance : action.holds session (seen.inHand pointer) ++
          (action.apply session).incoming.flatten =
            seen.inHand pointer ++ session.incoming.flatten := by
        cases action with
        | pop => cases hqueue : session.incoming <;> simp [HandlerAction.holds, hqueue,
            HandlerAction.apply]
        | unpop values =>
          obtain ⟨before, hbefore⟩ : values <:+ seen.inHand pointer := hgives
          simp [HandlerAction.holds, HandlerAction.apply, ← hbefore]
        | finish => rfl
      refine ⟨hsound, ?_, ?_, h.last⟩
      · intro other found changed hother hfound
        have hfound : (server.heap.write pointer (action.apply session)).read found =
            some changed := hfound
        rw [Heap.read_write hread] at hfound
        by_cases hequal : found = pointer
        · subst hequal
          rw [if_pos rfl] at hfound
          obtain ⟨earlier, opening, later, hreceived, hid, hopens, hbytes⟩ :=
            h.streams other found session hother hread
          refine ⟨earlier, opening, later, hreceived, hid, hopens, ?_⟩
          rw [← Option.some.inj hfound, inHand_hold_self, hbalance]
          exact hbytes
        · rw [if_neg hequal] at hfound
          obtain ⟨earlier, opening, later, hreceived, hid, hopens, hbytes⟩ :=
            h.streams other found changed hother hfound
          refine ⟨earlier, opening, later, hreceived, hid, hopens, ?_⟩
          rw [inHand_hold_other seen hequal]
          exact hbytes
      · intro found hmade
        have hlt := Heap.lt_next hread
        rw [Heap.next_write] at hmade
        rw [inHand_hold_other seen (by omega)]
        exact h.unmade found hmade

/-- Only the messages that `run_in` takes and the actions of the threads are seen. -/
theorem observe_unseen (server : L7Server) (seen : Seen) {event : L7Event}
    (hreceive : ∀ m, event ≠ .rxReceive m)
    (hhandler : ∀ pointer action, event ≠ .handler pointer action) :
    observe server seen event = seen := by
  cases event with
  | rxReceive m => exact absurd rfl (hreceive m)
  | handler pointer action => exact absurd rfl (hhandler pointer action)
  | _ => simp [observe]

/-- A message is seen only by a `run_in` that waits for one. -/
theorem observe_rxReceive (seen : Seen) (m : Option (List UInt8))
    (hthread : server.rxThread ≠ .receiving) : observe server seen (.rxReceive m) = seen := by
  unfold observe
  split_ifs
  · rfl
  · split
    · split
      · next hreceiving _ => exact absurd hreceiving hthread
      · rfl
    · next heq => exact absurd heq (by simp)
    · rfl

/-- Every step keeps the bytes of the sessions. -/
theorem streamsInvariant_step (service : Service) (h : StreamsInvariant server seen)
    {event : L7Event} (hok : Undisturbed server event) (hgives : GivesBack seen event) :
    StreamsInvariant (l7Step service server event).1 (observe server seen event) := by
  have hsound := (l7Step_sound service h.sound hok).2
  by_cases haborted : server.aborted = true
  · have hunseen : observe server seen event = seen := by
      unfold observe
      rw [if_pos haborted]
    unfold l7Step
    rw [hunseen, if_pos haborted]
    exact h
  · unfold l7Step at hsound ⊢
    rw [if_neg haborted] at hsound ⊢
    have hgoing : server.aborted = false := by simpa using haborted
    cases event with
    | rxClean =>
      rw [observe_unseen server seen (by simp) (by simp)]
      cases hthread : server.rxThread with
      | cleaning =>
        simp only [hthread] at hsound ⊢
        exact h.rxClean service hthread hsound
      | _ => simpa only [hthread] using h
    | rxReceive m =>
      cases hthread : server.rxThread with
      | receiving =>
        simp only [hthread] at hsound ⊢
        exact h.rxReceive m hgoing hthread hsound
      | _ =>
        rw [observe_rxReceive seen m (by simp [hthread])]
        simpa only [hthread] using h
    | rxLookup =>
      rw [observe_unseen server seen (by simp) (by simp)]
      cases hthread : server.rxThread with
      | received sessionId flags pl =>
        simp only [hthread] at hsound ⊢
        exact h.rxLookup service hthread hsound
      | _ => simpa only [hthread] using h
    | rxPush =>
      rw [observe_unseen server seen (by simp) (by simp)]
      cases hthread : server.rxThread with
      | found sessionId pointer pl =>
        simp only [hthread] at hsound ⊢
        exact h.rxPush hthread hsound
      | _ => simpa only [hthread] using h
    | metaReceive text =>
      rw [observe_unseen server seen (by simp) (by simp)]
      cases hthread : server.metaThread with
      | waiting =>
        obtain ⟨hheap, hsessions, hrx⟩ := metaReceive_same text server
        simp only [hthread] at hsound ⊢
        exact h.aside hsound hheap hsessions hrx
      | _ => simpa only [hthread] using h
    | metaClose =>
      rw [observe_unseen server seen (by simp) (by simp)]
      cases hthread : server.metaThread with
      | closing sessionId =>
        simp only [hthread] at hsound ⊢
        exact h.metaClose sessionId hsound
      | _ => simpa only [hthread] using h
    | handler pointer action => exact h.handlerStep pointer action hgoing hgives hsound
    | sigint =>
      rw [observe_unseen server seen (by simp) (by simp)]
      exact h.aside hsound rfl rfl rfl
    | sigterm =>
      rw [observe_unseen server seen (by simp) (by simp)]
      exact h.aside hsound rfl rfl rfl

end Steps

/-! ### Whole runs -/

/-- The server and an observer. -/
def seenStep (service : Service) : L7Server × Seen → L7Event → (L7Server × Seen) × List Access :=
  observed (l7Step service) observe

/-- A step that is no close of the session that `run_in` has looked up, in which a thread puts back
nothing but the last bytes that it took. -/
def Orderly (state : L7Server × Seen) (event : L7Event) : Prop :=
  Undisturbed state.1 event ∧ GivesBack state.2 event

/-- After any orderly run, the sessions have their bytes. -/
theorem streamsInvariant_run (service : Service) {events : List L7Event}
    (h : Along (seenStep service) Orderly (.start, .start) events) :
    StreamsInvariant (run (seenStep service) (.start, .start) events).1.1
      (run (seenStep service) (.start, .start) events).1.2 :=
  run_induction (P := fun _ state _ ↦ StreamsInvariant state.1 state.2) streamsInvariant_start
    (fun _ _ _ _ hinvariant hok ↦ streamsInvariant_step service hinvariant hok.1 hok.2) h

/-- The bytes of a session. In every orderly run, whatever the threads do and whatever comes for
other sessions, the bytes that the thread of a session has in hand, those in its queue and those
that `run_in` is about to push are, in this order, the payloads of the messages for the session that
`run_in` has taken, from one on that opens it. -/
theorem session_bytes (service : Service) {events : List L7Event}
    (h : Along (seenStep service) Orderly (.start, .start) events) {final : L7Server × Seen}
    (hfinal : final = (run (seenStep service) (.start, .start) events).1) {sessionId : UInt64}
    {pointer : ℕ} {session : L7Session} (hentry : final.1.sessions[sessionId]? = some pointer)
    (hread : final.1.heap.read pointer = some session) :
    Streams final.1 final.2 sessionId pointer session := by
  subst hfinal
  exact (streamsInvariant_run service h).streams sessionId pointer session hentry hread

/-- An event that closes nothing and puts nothing back. -/
def isPlain : L7Event → Bool
  | .metaClose => false
  | .handler _ (.unpop _) => false
  | _ => true

theorem orderly_of_isPlain {event : L7Event} (h : isPlain event = true)
    (state : L7Server × Seen) : Orderly state event := by
  refine ⟨?_, ?_⟩
  · rintro rfl
    exact absurd h (by decide)
  · unfold GivesBack
    split
    · exact absurd h (by simp [isPlain])
    · trivial

/-- A session is opened and gets three bytes, and its thread takes them. -/
def sampleTake : List L7Event :=
  [.rxClean, .rxReceive (some (sampleMessage miTcpOpen [])), .rxLookup, .rxPush,
    .rxClean, .rxReceive (some (sampleMessage 0 [71, 69, 84])), .rxLookup, .rxPush,
    .handler 0 .pop, .handler 0 .pop]

/-- The thread puts two of the three bytes back. -/
theorem session_bytes_put_back :
    let final := (run (seenStep httpService) (.start, .start)
      (sampleTake ++ [.handler 0 (.unpop [69, 84])])).1
    final.2.inHand 0 = [71] ∧ Streams final.1 final.2 1 0 ⟨false, false, [[69, 84]]⟩ := by
  have hplain : ∀ event ∈ sampleTake, isPlain event = true := by
    decide +kernel
  have htaken : (run (seenStep httpService) (.start, .start) sampleTake).1.2.inHand 0 =
      [71, 69, 84] := by
    decide +kernel
  have horderly : Along (seenStep httpService) Orderly (.start, .start)
      (sampleTake ++ [.handler 0 (.unpop [69, 84])]) := by
    refine along_append.mpr ⟨?_, ⟨fun hevent ↦ absurd hevent (by simp), ?_⟩, trivial⟩
    · exact Along.of_invariant (I := fun _ ↦ True) trivial (fun _ _ _ _ ↦ trivial)
        (fun state _ _ hevent ↦ orderly_of_isPlain hevent state)
        (along_of_forall hplain _)
    · rw [GivesBack, htaken]
      decide
  exact ⟨by decide +kernel,
    session_bytes httpService horderly rfl (by decide +kernel) (by decide +kernel)⟩

end MyIPNG.L7
