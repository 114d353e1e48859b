import MyIPNG.Shm.Order

/-!
# Programs that talk over queues

A server is a number of threads, each of which reads a queue of its own and writes to the queues of
others. A program says what a thread does next as a call, and goes on with what the call returns. In
a world of such threads the critical sections of their calls interleave in any way; a thread may be
started again at any time, which empties its queue; a call may fail; and whoever else knows the name
of a queue may send to it.

`programs_induction` is the rely-guarantee rule for such a world. Of every message there is
something that all programs rely on when they take it from a queue, and that each of them guarantees
of what it sends; and each keeps a property of its own state. The messages of the queues are those
of the abstract queue, which the bytes of the segments refine.
-/

set_option autoImplicit false
set_option relaxedAutoImplicit false

namespace MyIPNG.Shm

open Base

/-! ### Programs -/

/-- What a thread does next. -/
inductive Call
  | send (receiver : List UInt8) (m : Message) (blocking : Bool)
  | wait (filter : Filter)
  | clock
  | done

/-- What a call returns: the number of the message that was sent, the message that was taken from
the queue, or the time. -/
inductive Answer
  | sent (msgNr : Option UInt64)
  | received (m : Option Message)
  | time (now : UInt64)

/-- A program as what it calls and how it goes on. -/
structure Program where
  State : Type
  start : State
  call : State → Call
  resume : State → Answer → State

/-- A program with the queue that it reads. -/
structure Place where
  program : Program
  identifier : Identifier
  capacity : ℕ

/-- A thread: the state of its program and, while it sleeps in `send_message`, the message that it
sends. -/
structure Thread (program : Program) where
  state : program.State
  asleep : Option Message

/-- The queues that there are, by their names. -/
abbrev Queues := List UInt8 → Option MessageList

variable {π : Type*}

/-- The queues and the threads that have been started. -/
structure World (places : π → Place) where
  queues : Queues
  threads : ∀ place, Option (Thread (places place).program)

/-- A critical section of the call of a thread, with the time and whether those that wait for the
queue could be told; a call that fails; a start of a thread; and a message from elsewhere. -/
inductive WorldEvent (π : Type*)
  | run (place : π) (now : UInt64) (told : Bool)
  | fail (place : π)
  | start (place : π)
  | outside (identifier : Identifier) (receiver : List UInt8) (m : Message) (now : UInt64)

/-- What a critical section means to the thread. -/
inductive Result
  | returns (answer : Answer)
  | sleeps (m : Message)
  | stays

/-- A critical section of a call. A message that was put in a queue is reported as sent only when
those that wait could be told. -/
def perform (queues : Queues) (identifier : Identifier) (now : UInt64) (told : Bool) :
    Call → Option Message → Queues × Result
  | .send receiver m blocking, none =>
    match queues receiver with
    | none => (queues, .returns (.sent none))
    | some queue =>
      let stamped := stampMessage queue.mostRecentMsgNr identifier now m
      let numbered := { queue with mostRecentMsgNr := stamped.1 }
      match numbered.offer stamped.2 with
      | some next => (Function.update queues receiver (some next),
          .returns (.sent (if told then some stamped.2.msgNr else none)))
      | none => (Function.update queues receiver (some numbered),
          if blocking then .sleeps stamped.2 else .returns (.sent none))
  | .send receiver _ _, some m =>
    match (queues receiver).bind fun queue ↦ queue.offer m with
    | some next => (Function.update queues receiver (some next),
        .returns (.sent (if told then some m.msgNr else none)))
    | none => (queues, .stays)
  | .wait filter, _ =>
    match queues identifier.name with
    | none => (queues, .stays)
    | some queue =>
      match queue.messages.find? filter.selects with
      | some m => (Function.update queues identifier.name
          (some { queue with messages := queue.messages.eraseP filter.selects }),
          .returns (.received (some m)))
      | none => (queues, .stays)
  | .clock, _ => (queues, .returns (.time now))
  | .done, _ => (queues, .stays)

/-- What a call returns when it fails. -/
def Call.failed : Call → Option Answer
  | .send _ _ _ => some (.sent none)
  | .wait _ => some (.received none)
  | .clock => none
  | .done => none

/-- The thread behind a critical section. -/
def Thread.behind {program : Program} (thread : Thread program) : Result → Thread program
  | .returns answer => ⟨program.resume thread.state answer, none⟩
  | .sleeps m => ⟨thread.state, some m⟩
  | .stays => thread

/-- `begin()`: the queue is emptied and keeps its counter. -/
def emptied (queues : Queues) (name : List UInt8) (capacity : ℕ) : Queues :=
  Function.update queues name
    (some (.empty capacity ((queues name).elim 0 MessageList.mostRecentMsgNr)))

/-- One step of the world. -/
def worldStep [DecidableEq π] (places : π → Place) (world : World places) :
    WorldEvent π → World places × List Unit
  | .run place now told =>
    match world.threads place with
    | none => (world, [])
    | some thread =>
      let result := perform world.queues (places place).identifier now told
        ((places place).program.call thread.state) thread.asleep
      (⟨result.1, Function.update world.threads place (some (thread.behind result.2))⟩, [])
  | .fail place =>
    match world.threads place with
    | none => (world, [])
    | some thread =>
      match ((places place).program.call thread.state).failed with
      | none => (world, [])
      | some answer => (⟨world.queues, Function.update world.threads place
          (some (thread.behind (.returns answer)))⟩, [])
  | .start place =>
    (⟨emptied world.queues (places place).identifier.name (places place).capacity,
      Function.update world.threads place (some ⟨(places place).program.start, none⟩)⟩, [])
  | .outside identifier receiver m now =>
    let result := perform world.queues identifier now true (.send receiver m false) none
    (⟨result.1, world.threads⟩, [])

/-- Before the first start. -/
def worldStart (places : π → Place) : World places := ⟨fun _ ↦ none, fun _ ↦ none⟩

/-! ### What is in the queues -/

/-- Every message of every queue has a property, which may depend on the queue. -/
def Queues.All (P : List UInt8 → Message → Prop) (queues : Queues) : Prop :=
  ∀ name queue, queues name = some queue → ∀ m ∈ queue.messages, P name m

section Keeping

variable {P : List UInt8 → Message → Prop} {queues : Queues} {queue next : MessageList}
  {name receiver : List UInt8} {m : Message} {identifier : Identifier} {now : UInt64} {told : Bool}
  {call : Call} {asleep : Option Message}

theorem Queues.All.update (h : queues.All P) (hmessages : ∀ m ∈ queue.messages, P name m) :
    Queues.All P (Function.update queues name (some queue)) := by
  intro other found hfound
  by_cases hother : other = name
  · rw [hother, Function.update_self] at hfound
    rw [← Option.some.inj hfound, hother]
    exact hmessages
  · rw [Function.update_of_ne hother] at hfound
    exact h other found hfound

/-- A queue with one more message. -/
theorem Queues.All.offer (h : queues.All P) (hoffer : queue.offer m = some next)
    (hqueue : ∀ m ∈ queue.messages, P receiver m) (hm : P receiver m) :
    Queues.All P (Function.update queues receiver (some next)) := by
  apply h.update
  rw [messages_offer hoffer]
  intro other hother
  rcases List.mem_append.mp hother with hold | hnew
  · exact hqueue other hold
  · rw [List.mem_singleton.mp hnew]
    exact hm

/-- What a result says about the call. -/
inductive Justified (P : List UInt8 → Message → Prop) (identifier : Identifier) (call : Call) :
    Result → Prop
  | sent (receiver : List UInt8) (m : Message) (blocking : Bool) (msgNr : Option UInt64)
      (hcall : call = .send receiver m blocking) : Justified P identifier call
        (.returns (.sent msgNr))
  | received (filter : Filter) (m : Message) (hcall : call = .wait filter)
      (hselects : filter.selects m) (hm : P identifier.name m) :
      Justified P identifier call (.returns (.received (some m)))
  | time (now : UInt64) (hcall : call = .clock) : Justified P identifier call
      (.returns (.time now))
  | sleeps (receiver : List UInt8) (m asleep : Message) (blocking : Bool)
      (hcall : call = .send receiver m blocking) (hasleep : P receiver asleep) :
      Justified P identifier call (.sleeps asleep)
  | stays : Justified P identifier call .stays

/-- What is sent by a call, now or when it wakes up, has the property. -/
def SendsOnly (P : List UInt8 → Message → Prop) (identifier : Identifier) (call : Call)
    (asleep : Option Message) : Prop :=
  ∀ receiver m blocking, call = .send receiver m blocking →
    (∀ counter now, P receiver (stampMessage counter identifier now m).2) ∧
      ∀ m', asleep = some m' → P receiver m'

/-- The queues keep a property that all that is sent has, and what a call returns has it too. -/
theorem perform_keeps (h : queues.All P) (hsends : SendsOnly P identifier call asleep)
    (now : UInt64) (told : Bool) :
    (perform queues identifier now told call asleep).1.All P ∧
      Justified P identifier call (perform queues identifier now told call asleep).2 := by
  cases call with
  | clock => exact ⟨h, .time now rfl⟩
  | done => exact ⟨h, .stays⟩
  | wait filter =>
    simp only [perform]
    cases hqueue : queues identifier.name with
    | none => exact ⟨h, .stays⟩
    | some queue =>
      have hmessages := h _ queue hqueue
      simp only
      cases hfind : queue.messages.find? filter.selects with
      | none => exact ⟨h, .stays⟩
      | some m =>
        refine ⟨h.update fun other hother ↦ hmessages other (List.mem_of_mem_eraseP hother), ?_⟩
        exact .received filter m rfl (List.find?_some hfind)
          (hmessages m (List.mem_of_find?_eq_some hfind))
  | send receiver m blocking =>
    obtain ⟨hstamped, hasleep⟩ := hsends receiver m blocking rfl
    cases asleep with
    | some m' =>
      simp only [perform]
      cases hoffer : (queues receiver).bind fun queue ↦ queue.offer m' with
      | none => exact ⟨h, .stays⟩
      | some next =>
        obtain ⟨queue, hqueue, hnext⟩ := Option.bind_eq_some_iff.mp hoffer
        exact ⟨h.offer hnext (h _ queue hqueue) (hasleep m' rfl), .sent receiver m blocking _ rfl⟩
    | none =>
      simp only [perform]
      cases hqueue : queues receiver with
      | none => exact ⟨h, .sent receiver m blocking _ rfl⟩
      | some queue =>
        have hmessages := h _ queue hqueue
        have hnew := hstamped queue.mostRecentMsgNr now
        simp only
        split
        · rename_i next hoffer
          exact ⟨h.offer hoffer hmessages hnew, .sent receiver m blocking _ rfl⟩
        · refine ⟨h.update hmessages, ?_⟩
          split_ifs
          · exact .sleeps receiver m _ blocking rfl hnew
          · exact .sent receiver m blocking _ rfl

end Keeping

/-! ### The rule -/

/-- What a program guarantees when it may rely on the messages of its queue: it keeps a property of
its state, and all that it sends has the property of the messages. -/
structure Guarantees (P : List UInt8 → Message → Prop) (place : Place)
    (J : place.program.State → Prop) : Prop where
  start : J place.program.start
  sends : ∀ state receiver m blocking, J state →
    place.program.call state = .send receiver m blocking →
    ∀ counter now, P receiver (stampMessage counter place.identifier now m).2
  sent : ∀ state receiver m blocking msgNr, J state →
    place.program.call state = .send receiver m blocking →
    J (place.program.resume state (.sent msgNr))
  waited : ∀ state filter, J state → place.program.call state = .wait filter →
    J (place.program.resume state (.received none))
  received : ∀ state filter m, J state → place.program.call state = .wait filter →
    filter.selects m → P place.identifier.name m →
    J (place.program.resume state (.received (some m)))
  time : ∀ state now, J state → place.program.call state = .clock →
    J (place.program.resume state (.time now))

/-- A thread whose state has a property, and which sleeps over a message that has one. -/
structure ThreadKeeps (P : List UInt8 → Message → Prop) (place : Place)
    (J : place.program.State → Prop) (thread : Thread place.program) : Prop where
  state : J thread.state
  asleep : ∀ receiver m blocking m', place.program.call thread.state = .send receiver m blocking →
    thread.asleep = some m' → P receiver m'

section Rule

variable {P : List UInt8 → Message → Prop} {place : Place} {J : place.program.State → Prop}
  {thread : Thread place.program} {result : Result}

/-- A thread that does not sleep. -/
theorem ThreadKeeps.awake {state : place.program.State} (h : J state) :
    ThreadKeeps P place J ⟨state, none⟩ :=
  ⟨h, fun _ _ _ _ _ hasleep ↦ absurd hasleep (Option.some_ne_none _).symm⟩

theorem ThreadKeeps.sendsOnly (h : ThreadKeeps P place J thread) (hplace : Guarantees P place J) :
    SendsOnly P place.identifier (place.program.call thread.state) thread.asleep :=
  fun receiver m blocking hcall ↦ ⟨hplace.sends _ receiver m blocking h.state hcall,
    fun m' hasleep ↦ h.asleep receiver m blocking m' hcall hasleep⟩

/-- A critical section keeps what the thread guarantees. -/
theorem ThreadKeeps.behind (h : ThreadKeeps P place J thread) (hplace : Guarantees P place J)
    (hresult : Justified P place.identifier (place.program.call thread.state) result) :
    ThreadKeeps P place J (thread.behind result) := by
  cases hresult with
  | sent receiver m blocking msgNr hcall =>
    exact .awake (hplace.sent _ receiver m blocking msgNr h.state hcall)
  | received filter m hcall hselects hm =>
    exact .awake (hplace.received _ filter m h.state hcall hselects hm)
  | time now hcall => exact .awake (hplace.time _ now h.state hcall)
  | sleeps receiver m asleep blocking hcall hasleep =>
    refine ⟨h.state, fun receiver' m' blocking' asleep' hcall' hasleep' ↦ ?_⟩
    obtain ⟨rfl, -, -⟩ := Call.send.inj (hcall.symm.trans hcall')
    rw [← Option.some.inj hasleep']
    exact hasleep
  | stays => exact h

end Rule

section World

variable [DecidableEq π] {places : π → Place} {P : List UInt8 → Message → Prop}
  {J : ∀ place, (places place).program.State → Prop}

/-- What all programs guarantee, of the whole world. -/
structure WorldKeeps (P : List UInt8 → Message → Prop)
    (J : ∀ place, (places place).program.State → Prop) (world : World places) : Prop where
  queues : world.queues.All P
  threads : ∀ place thread, world.threads place = some thread →
    ThreadKeeps P (places place) (J place) thread

/-- What comes from elsewhere has the property of the messages. -/
def FromOutside (P : List UInt8 → Message → Prop) : World places → WorldEvent π → Prop
  | _, .outside identifier receiver m _ => ∀ counter now,
    P receiver (stampMessage counter identifier now m).2
  | _, _ => True

theorem WorldKeeps.setThread {world : World places} {queues : Queues}
    (h : WorldKeeps P J world) (hqueues : queues.All P) {place : π}
    {thread : Thread (places place).program}
    (hthread : ThreadKeeps P (places place) (J place) thread) :
    WorldKeeps P J ⟨queues, Function.update world.threads place (some thread)⟩ := by
  refine ⟨hqueues, fun other found hfound ↦ ?_⟩
  change Function.update world.threads place (some thread) other = some found at hfound
  by_cases hother : other = place
  · subst hother
    rw [Function.update_self] at hfound
    rw [← Option.some.inj hfound]
    exact hthread
  · rw [Function.update_of_ne hother] at hfound
    exact h.threads other found hfound

theorem worldKeeps_step (hplaces : ∀ place, Guarantees P (places place) (J place))
    {world : World places} {event : WorldEvent π} (h : WorldKeeps P J world)
    (hok : FromOutside P world event) : WorldKeeps P J (worldStep places world event).1 := by
  cases event with
  | run place now told =>
    simp only [worldStep]
    cases hthread : world.threads place with
    | none => exact h
    | some thread =>
      have hkeeps := h.threads place thread hthread
      have hsends := hkeeps.sendsOnly (hplaces place)
      obtain ⟨hqueues, hresult⟩ := perform_keeps h.queues hsends now told
      exact h.setThread hqueues (hkeeps.behind (hplaces place) hresult)
  | fail place =>
    simp only [worldStep]
    cases hthread : world.threads place with
    | none => exact h
    | some thread =>
      have hkeeps := h.threads place thread hthread
      simp only
      cases hcall : (places place).program.call thread.state with
      | send receiver m blocking =>
        exact h.setThread h.queues
          (hkeeps.behind (hplaces place) (.sent receiver m blocking none hcall))
      | wait filter =>
        exact h.setThread h.queues (.awake ((hplaces place).waited _ filter hkeeps.state hcall))
      | clock => exact h
      | done => exact h
  | start place =>
    exact h.setThread (h.queues.update (List.forall_mem_nil _)) (.awake (hplaces place).start)
  | outside identifier receiver m now =>
    refine ⟨(perform_keeps h.queues ?_ now true).1, h.threads⟩
    intro receiver' m' blocking' hcall
    obtain ⟨rfl, rfl, rfl⟩ := Call.send.inj hcall
    exact ⟨hok, fun _ hasleep ↦ absurd hasleep (Option.some_ne_none _).symm⟩

/-- The rely-guarantee rule for programs that talk over queues. Assumes: every program guarantees a
property of its state and of what it sends, when it may rely on the messages that it takes; and what
comes from elsewhere has the property of the messages. -/
theorem programs_induction (hplaces : ∀ place, Guarantees P (places place) (J place))
    {events : List (WorldEvent π)}
    (hevents : Along (worldStep places) (FromOutside P) (worldStart places) events) :
    WorldKeeps P J (run (worldStep places) (worldStart places) events).1 := by
  refine run_induction (P := fun _ world _ ↦ WorldKeeps P J world) ?_ ?_ hevents
  · exact ⟨fun _ _ hnone ↦ absurd hnone (Option.some_ne_none _).symm,
      fun _ _ hnone ↦ absurd hnone (Option.some_ne_none _).symm⟩
  · exact fun _ _ _ _ hkeeps hok ↦ worldKeeps_step hplaces hkeeps hok

end World

end MyIPNG.Shm
