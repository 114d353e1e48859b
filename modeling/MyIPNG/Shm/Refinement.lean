import Mathlib.Data.List.Nodup
import Mathlib.Data.List.Perm.Basic
import MyIPNG.Shm.Records

/-!
# The queue is a list of messages

`MessageList` is the queue as its callers see it: a list of messages with a capacity in bytes. A
send appends at the tail when the padded size fits, a wait takes the first message that its filter
admits. `Refines` relates a segment to such a list, `refines_step` is the simulation of one
critical section, and `queue_refines_messageList` the statement about whole runs from `begin()`.

The message numbers need their own argument, because a blocking sender keeps its number while
others overtake it: `NumbersInvariant` counts the numbers of the accepted messages together with
those of the sleeping senders.
-/

set_option autoImplicit false
set_option relaxedAutoImplicit false

namespace MyIPNG.Shm

open Base

/-! ### The abstract queue -/

/-- A queue of messages with a capacity in bytes, the last message number given out and the
senders that wait for room. -/
structure MessageList where
  capacity : ℕ
  messages : List Message
  mostRecentMsgNr : UInt64
  waiting : List Message

/-- The bytes that the messages take. -/
def MessageList.used (queue : MessageList) : ℕ := (queue.messages.map Message.recordLength).sum

/-- The queue with a message at its tail, when its padded size fits. -/
def MessageList.offer (queue : MessageList) (m : Message) : Option MessageList :=
  if queue.used + m.recordLength ≤ queue.capacity then
    some { queue with messages := queue.messages ++ [m] }
  else none

/-- A filter as a test of messages. -/
def Filter.selects (filter : Filter) (m : Message) : Bool := filter.admits m.type m.msgNr

/-- What an operation on the abstract queue reports. -/
inductive AbstractObservation
  | appended (message : Message)
  | refused (message : Message)
  | received (message : Message)
  | nothing
deriving DecidableEq

/-- One operation on the abstract queue. -/
def MessageList.step (queue : MessageList) :
    Operation → MessageList × List AbstractObservation
  | .send localIdentifier m _ blocking now =>
    let stamped := stampMessage queue.mostRecentMsgNr localIdentifier now m
    let numbered := { queue with mostRecentMsgNr := stamped.1 }
    match numbered.offer stamped.2 with
    | some next => (next, [.appended stamped.2])
    | none =>
      ({ numbered with
          waiting := if blocking then queue.waiting ++ [stamped.2] else queue.waiting },
        [.refused stamped.2])
  | .wake index =>
    match queue.waiting[index]? with
    | none => (queue, [])
    | some m =>
      match queue.offer m with
      | some next => ({ next with waiting := queue.waiting.eraseIdx index }, [.appended m])
      | none => (queue, [.refused m])
  | .interrupt index => ({ queue with waiting := queue.waiting.eraseIdx index }, [])
  | .wait _ filter =>
    match queue.messages.find? filter.selects with
    | some m => ({ queue with messages := queue.messages.eraseP filter.selects }, [.received m])
    | none => (queue, [.nothing])

/-- The abstract queue that `begin()` sets up. -/
def MessageList.empty (capacity : ℕ) (mostRecentMsgNr : UInt64) : MessageList :=
  ⟨capacity, [], mostRecentMsgNr, []⟩

/-- What the two queues report is the same: the bytes handed to a waiting caller are the header
and the data of the message, followed by padding. A failed assertion agrees with nothing. -/
inductive Agrees : Observation → AbstractObservation → Prop
  | appended (m : Message) : Agrees (.appended m) (.appended m)
  | refused (m : Message) : Agrees (.refused m) (.refused m)
  | received (record : Record) : Agrees (.received record.bytes) (.received record.message)
  | nothing : Agrees .nothing .nothing

/-! ### One critical section -/

/-- The segment holds the messages of the list, in order, and nothing else. -/
structure Refines (state : QueueState) (queue : MessageList) : Prop where
  records : ∃ records, Represents state.shm records ∧
    records.map Record.message = queue.messages
  capacity : state.shm.totalSize = queue.capacity
  mostRecentMsgNr : state.shm.mostRecentMsgNr = queue.mostRecentMsgNr
  waiting : state.waiting = queue.waiting
  waiting_pos : ∀ m ∈ queue.waiting, 0 < m.size

theorem sum_recordLength (records : List Record) :
    ((records.map Record.message).map Message.recordLength).sum = recordsLength records := by
  rw [List.map_map]
  rfl

/-- The bytes in use of a segment are the bytes that the messages of the list take. -/
theorem Refines.filled_eq {state : QueueState} {queue : MessageList} (h : Refines state queue) :
    state.shm.filled = queue.used := by
  obtain ⟨records, hrecords, hmessages⟩ := h.records
  rw [hrecords.filled_eq, MessageList.used, ← hmessages, sum_recordLength]

@[simp] theorem size_stampMessage (counter : UInt64) (localIdentifier : Identifier) (now : UInt64)
    (m : Message) : (stampMessage counter localIdentifier now m).2.size = m.size := by
  unfold stampMessage
  split_ifs <;> rfl

/-- The room test of `send_message` compares true sums: neither side reaches `2 ^ 64`. -/
theorem tryAppend_eq {shm : SharedMemory} {records : List Record} (h : Represents shm records)
    (m : Message) :
    tryAppend shm m =
      if shm.filled + m.recordLength ≤ shm.totalSize then
        some { shm with
          data := overwrite shm.data shm.filled m.bytes
          filled := shm.filled + m.recordLength }
      else none := by
  have hsize := h.totalSize_lt
  have hfilled := h.filled_le
  have hrecord := m.recordLength_lt
  have hsum : sizeAdd shm.filled m.recordLength = shm.filled + m.recordLength := by
    rw [sizeAdd, Nat.mod_eq_of_lt (by omega)]
  unfold tryAppend
  change (if sizeAdd shm.filled m.recordLength ≤ shm.totalSize then _ else _) = _
  rw [hsum]
  rfl

/-- Offering a message to the segment and to the list has the same outcome. Assumes: related
queues and a message with data. -/
theorem refines_offer {state : QueueState} {queue : MessageList} (h : Refines state queue)
    (m : Message) (hpos : 0 < m.size) :
    (∃ shm next, tryAppend state.shm m = some shm ∧ queue.offer m = some next ∧
        Refines ⟨shm, state.waiting⟩ next ∧ next.waiting = queue.waiting) ∨
      (tryAppend state.shm m = none ∧ queue.offer m = none) := by
  have hfilled := h.filled_eq
  have hcapacity := h.capacity
  obtain ⟨records, hrecords, hmessages⟩ := h.records
  rw [tryAppend_eq hrecords, MessageList.offer, ← hfilled, ← hcapacity]
  by_cases hfits : state.shm.filled + m.recordLength ≤ state.shm.totalSize
  · rw [if_pos hfits, if_pos hfits]
    obtain ⟨record, hmessage, happended⟩ := represents_append hrecords m hpos hfits
    refine Or.inl ⟨_, _, rfl, rfl, ⟨⟨_, happended, ?_⟩, rfl, ?_, h.waiting, h.waiting_pos⟩, rfl⟩
    · rw [List.map_append, hmessages, List.map_singleton, hmessage]
    · exact h.mostRecentMsgNr
  · rw [if_neg hfits, if_neg hfits]
    exact Or.inr ⟨rfl, rfl⟩

/-- A segment with a changed counter holds the same messages. -/
theorem Represents.setCounter {shm : SharedMemory} {records : List Record}
    (h : Represents shm records) (counter : UInt64) :
    Represents { shm with mostRecentMsgNr := counter } records :=
  ⟨h.data_length, h.totalSize_lt, h.filled_le, h.contents⟩

theorem refines_send {state : QueueState} {queue : MessageList} (h : Refines state queue)
    (localIdentifier : Identifier) (m : Message) (hpos : 0 < m.size) (blocking : Bool)
    (now : UInt64) :
    Refines (step state (.send localIdentifier m hpos blocking now)).1
        (queue.step (.send localIdentifier m hpos blocking now)).1 ∧
      List.Forall₂ Agrees (step state (.send localIdentifier m hpos blocking now)).2
        (queue.step (.send localIdentifier m hpos blocking now)).2 := by
  obtain ⟨records, hrecords, hmessages⟩ := h.records
  simp only [step, sendMessage, MessageList.step, h.mostRecentMsgNr]
  generalize hstamped : stampMessage queue.mostRecentMsgNr localIdentifier now m = stamped
  have hstampedPos : 0 < stamped.2.size := by
    rw [← hstamped, size_stampMessage]
    exact hpos
  have hnumbered : Refines ⟨{ state.shm with mostRecentMsgNr := stamped.1 }, state.waiting⟩
      { queue with mostRecentMsgNr := stamped.1 } :=
    ⟨⟨records, hrecords.setCounter _, hmessages⟩, h.capacity, rfl, h.waiting, h.waiting_pos⟩
  rcases refines_offer hnumbered stamped.2 hstampedPos with
    ⟨shm, next, happend, hoffer, hrefines, -⟩ | ⟨happend, hoffer⟩
  · simp only [happend, hoffer]
    exact ⟨hrefines, .cons (.appended _) .nil⟩
  · simp only [happend, hoffer]
    refine ⟨⟨⟨records, hrecords.setCounter _, hmessages⟩, h.capacity, rfl, ?_, ?_⟩,
      .cons (.refused _) .nil⟩
    · simp only [h.waiting]
    · intro other hother
      cases blocking with
      | false => exact h.waiting_pos other hother
      | true =>
        rcases List.mem_append.mp hother with hold | hnew
        · exact h.waiting_pos other hold
        · rw [List.mem_singleton.mp hnew]
          exact hstampedPos

theorem refines_wake {state : QueueState} {queue : MessageList} (h : Refines state queue)
    (index : ℕ) :
    Refines (step state (.wake index)).1 (queue.step (.wake index)).1 ∧
      List.Forall₂ Agrees (step state (.wake index)).2 (queue.step (.wake index)).2 := by
  simp only [step, wakeSender, MessageList.step, h.waiting]
  cases hsender : queue.waiting[index]? with
  | none => exact ⟨h, .nil⟩
  | some m =>
    rcases refines_offer h m (h.waiting_pos m (List.mem_of_getElem? hsender)) with
      ⟨shm, next, happend, hoffer, hrefines, hwaiting⟩ | ⟨happend, hoffer⟩
    · simp only [happend, hoffer]
      refine ⟨⟨hrefines.records, hrefines.capacity, hrefines.mostRecentMsgNr, rfl, ?_⟩,
        .cons (.appended _) .nil⟩
      exact fun other hother ↦ h.waiting_pos other (List.mem_of_mem_eraseIdx hother)
    · simp only [happend, hoffer]
      exact ⟨h, .cons (.refused _) .nil⟩

/-- The first message that a filter selects, and the list without it. Assumes: the filter selects
none of the messages in front. -/
theorem find?_eraseP_of_front {filter : Filter} {front : List Message} {m : Message}
    (hfront : ∀ other ∈ front, filter.selects other = false) (back : List Message)
    (hm : filter.selects m = true) :
    (front ++ m :: back).find? filter.selects = some m ∧
      (front ++ m :: back).eraseP filter.selects = front ++ back := by
  constructor
  · rw [List.find?_append, List.find?_eq_none.mpr (by simpa using hfront), Option.none_or,
      List.find?_cons_of_pos hm]
  · rw [List.eraseP_append_right _ (by simpa using hfront), List.eraseP_cons_of_pos hm]

theorem refines_wait {state : QueueState} {queue : MessageList} (h : Refines state queue)
    (address : DataAddress) (filter : Filter) :
    Refines (step state (.wait address filter)).1 (queue.step (.wait address filter)).1 ∧
      List.Forall₂ Agrees (step state (.wait address filter)).2
        (queue.step (.wait address filter)).2 := by
  obtain ⟨records, hrecords, hmessages⟩ := h.records
  have hscan := scan_eq_locate address filter [] records hrecords
  rw [recordsLength_nil] at hscan
  simp only [step, waitForMessage, MessageList.step, hscan]
  cases hlocate : locate filter 0 records with
  | found position length =>
    obtain ⟨front, record, back, rfl, hfront, hrecord, rfl, rfl⟩ := locate_eq_found hlocate
    rw [List.map_append, List.map_cons] at hmessages
    have hfront' : ∀ other ∈ front.map Record.message, filter.selects other = false := by
      simpa [Filter.selects] using hfront
    obtain ⟨hfind, herase⟩ :=
      find?_eraseP_of_front hfront' (back.map Record.message) hrecord
    rw [Nat.zero_add, ← hmessages, hfind, herase]
    refine ⟨⟨⟨front ++ back, represents_remove hrecords, List.map_append⟩, h.capacity,
      h.mostRecentMsgNr, h.waiting, h.waiting_pos⟩, ?_⟩
    simp only [hrecords.slice_record]
    exact .cons (.received record) .nil
  | notFound =>
    have hnone : queue.messages.find? filter.selects = none := by
      rw [List.find?_eq_none, ← hmessages]
      intro m hm
      obtain ⟨record, hrecord, rfl⟩ := List.mem_map.mp hm
      simpa [Filter.selects] using locate_eq_notFound hlocate record hrecord
    simp only [hnone]
    exact ⟨h, .cons .nothing .nil⟩
  | assertionFailed => exact absurd hlocate (locate_ne_assertionFailed _ _ _)

/-- One critical section of the queue is one operation on the list. -/
theorem refines_step {state : QueueState} {queue : MessageList} (operation : Operation)
    (h : Refines state queue) :
    Refines (step state operation).1 (queue.step operation).1 ∧
      List.Forall₂ Agrees (step state operation).2 (queue.step operation).2 := by
  cases operation with
  | send localIdentifier m positive blocking now =>
    exact refines_send h localIdentifier m positive blocking now
  | wake index => exact refines_wake h index
  | interrupt index =>
    refine ⟨⟨h.records, h.capacity, h.mostRecentMsgNr, ?_, ?_⟩, .nil⟩
    · simp only [step, MessageList.step, h.waiting]
    · exact fun m hm ↦ h.waiting_pos m (List.mem_of_mem_eraseIdx hm)
  | wait address filter => exact refines_wait h address filter

/-- The segment that `begin()` sets up holds no message. -/
theorem refines_beginQueue {size : ℕ} {contents : ℕ → UInt8} {counter : UInt64}
    {shm : SharedMemory} (h : beginQueue size contents counter = some shm) :
    Refines ⟨shm, []⟩ (MessageList.empty size counter) := by
  unfold beginQueue at h
  split_ifs at h with hsize
  cases h
  refine ⟨⟨[], ⟨by simp, ?_, Nat.zero_le _, rfl⟩, rfl⟩, rfl, rfl, rfl, by simp [MessageList.empty]⟩
  simp only [sizeofSharedMemory] at hsize
  change size < 2 ^ 63
  omega

/-- The simulation of whole runs. -/
theorem refines_run {state : QueueState} {queue : MessageList} (h : Refines state queue)
    (operations : List Operation) :
    Refines (run step state operations).1 (run MessageList.step queue operations).1 ∧
      List.Forall₂ Agrees (run step state operations).2
        (run MessageList.step queue operations).2 := by
  have halong : Along step (fun _ _ ↦ True) state operations :=
    along_of_forall (fun _ _ ↦ trivial) state
  have hlockstep := run_lockstep id
    (fun _ _ operation hrelated _ ↦ refines_step operation hrelated) h halong
  simpa only [List.map_id] using hlockstep

/-! ### Message numbers -/

/-- A message that gets its number from the queue. -/
def Message.isNumbered (m : Message) : Bool := m.type != MsgType.msgReply.code

/-- The message numbers of the accepted messages that are no replies. -/
def acceptedNumbers (observations : List Observation) : List UInt64 :=
  observations.filterMap fun
    | .appended m => if m.isNumbered then some m.msgNr else none
    | _ => none

/-- The message numbers that sleeping senders hold. -/
def waitingNumbers (waiting : List Message) : List UInt64 :=
  (waiting.filter Message.isNumbered).map Message.msgNr

/-- The number of calls of `send_message` in a list of operations. -/
def sendCount (operations : List Operation) : ℕ :=
  operations.countP fun
    | .send .. => true
    | _ => false

theorem acceptedNumbers_append (first second : List Observation) :
    acceptedNumbers (first ++ second) = acceptedNumbers first ++ acceptedNumbers second :=
  List.filterMap_append

theorem acceptedNumbers_refused (m : Message) : acceptedNumbers [.refused m] = [] := rfl

/-- Accepting a message counts the numbers that it would hold as a sleeping sender. -/
theorem acceptedNumbers_appended (m : Message) :
    acceptedNumbers [.appended m] = waitingNumbers [m] := by
  by_cases h : m.isNumbered <;> simp [acceptedNumbers, waitingNumbers, h]

theorem waitingNumbers_append (first second : List Message) :
    waitingNumbers (first ++ second) = waitingNumbers first ++ waitingNumbers second := by
  simp [waitingNumbers]

/-- Waking a sender moves its number, removing a sender from the sleepers keeps the others. -/
theorem waitingNumbers_eraseIdx {waiting : List Message} {index : ℕ} {m : Message}
    (h : waiting[index]? = some m) :
    (waitingNumbers waiting).Perm
      (waitingNumbers [m] ++ waitingNumbers (waiting.eraseIdx index)) := by
  obtain ⟨hlt, hget⟩ := List.getElem?_eq_some_iff.mp h
  have hperm : waiting.Perm ([m] ++ waiting.eraseIdx index) := by
    have hcons := List.getElem_cons_eraseIdx_perm hlt
    rw [hget] at hcons
    exact hcons.symm
  rw [← waitingNumbers_append]
  exact (hperm.filter _).map _

/-- The numbers of the accepted messages and of the sleeping senders are distinct, and each was
given out after the start: it is the start moved up by at least one and at most the number of
numbers given out. -/
structure NumbersInvariant (start : UInt64) (issued : ℕ) (counter : UInt64)
    (numbers : List UInt64) : Prop where
  counter_eq : counter = start + UInt64.ofNat issued
  nodup : numbers.Nodup
  bounds : ∀ number ∈ numbers, ∃ k, 1 ≤ k ∧ k ≤ issued ∧ number = start + UInt64.ofNat k

theorem NumbersInvariant.perm {start : UInt64} {issued : ℕ} {counter : UInt64}
    {numbers others : List UInt64} (h : NumbersInvariant start issued counter numbers)
    (hperm : others.Perm numbers) : NumbersInvariant start issued counter others :=
  ⟨h.counter_eq, hperm.nodup_iff.mpr h.nodup,
    fun number hnumber ↦ h.bounds number (hperm.mem_iff.mp hnumber)⟩

theorem NumbersInvariant.sublist {start : UInt64} {issued : ℕ} {counter : UInt64}
    {numbers others : List UInt64} (h : NumbersInvariant start issued counter numbers)
    (hsublist : others.Sublist numbers) : NumbersInvariant start issued counter others :=
  ⟨h.counter_eq, h.nodup.sublist hsublist,
    fun number hnumber ↦ h.bounds number (hsublist.subset hnumber)⟩

/-- The next number is a new one as long as fewer than `2 ^ 64` were given out. -/
theorem NumbersInvariant.issue {start : UInt64} {issued : ℕ} {counter : UInt64}
    {numbers : List UInt64} (h : NumbersInvariant start issued counter numbers)
    (hissued : issued + 1 < 2 ^ 64) :
    NumbersInvariant start (issued + 1) (counter + 1) (numbers ++ [counter + 1]) := by
  have hcounter : counter + 1 = start + UInt64.ofNat (issued + 1) := by
    rw [h.counter_eq, UInt64.ofNat_add, UInt64.add_assoc]
    rfl
  refine ⟨hcounter, ?_, ?_⟩
  · rw [List.nodup_append]
    refine ⟨h.nodup, List.nodup_singleton _, ?_⟩
    rintro number hnumber other hother rfl
    obtain ⟨k, hk, hkissued, hvalue⟩ := h.bounds number hnumber
    rw [List.mem_singleton.mp hother, hcounter, UInt64.add_right_inj] at hvalue
    have hnat := congrArg UInt64.toNat hvalue
    rw [UInt64.toNat_ofNat', UInt64.toNat_ofNat', Nat.mod_eq_of_lt hissued,
      Nat.mod_eq_of_lt (by omega)] at hnat
    omega
  · intro number hnumber
    rcases List.mem_append.mp hnumber with hold | hnew
    · obtain ⟨k, hk, hkissued, hvalue⟩ := h.bounds number hold
      exact ⟨k, hk, by omega, hvalue⟩
    · exact ⟨issued + 1, by omega, le_refl _, by rw [List.mem_singleton.mp hnew, hcounter]⟩

/-- The numbers of a list and of one more message after `stampMessage`. -/
theorem NumbersInvariant.stamp {start : UInt64} {issued : ℕ} {counter : UInt64}
    {numbers : List UInt64} (h : NumbersInvariant start issued counter numbers)
    (hissued : issued + 1 < 2 ^ 64) (localIdentifier : Identifier) (now : UInt64) (m : Message) :
    ∃ next, next ≤ issued + 1 ∧
      NumbersInvariant start next (stampMessage counter localIdentifier now m).1
        (numbers ++ waitingNumbers [(stampMessage counter localIdentifier now m).2]) := by
  by_cases hreply : m.type = MsgType.msgReply.code
  · have hnone : waitingNumbers [(stampMessage counter localIdentifier now m).2] = [] := by
      simp [stampMessage, waitingNumbers, Message.isNumbered, hreply]
    have hcounter : (stampMessage counter localIdentifier now m).1 = counter := by
      simp [stampMessage, hreply]
    refine ⟨issued, by omega, ?_⟩
    rw [hnone, List.append_nil, hcounter]
    exact h
  · have hnumber : waitingNumbers [(stampMessage counter localIdentifier now m).2] =
        [counter + 1] := by
      have hnumbered : (stampMessage counter localIdentifier now m).2.isNumbered = true := by
        simp [stampMessage, Message.isNumbered, hreply]
      rw [waitingNumbers, List.filter_cons_of_pos hnumbered]
      simp [stampMessage, hreply]
    have hcounter : (stampMessage counter localIdentifier now m).1 = counter + 1 := by
      simp [stampMessage, hreply]
    refine ⟨issued + 1, le_refl _, ?_⟩
    rw [hnumber, hcounter]
    exact h.issue hissued

theorem mostRecentMsgNr_tryAppend {shm next : SharedMemory} {m : Message}
    (h : tryAppend shm m = some next) : next.mostRecentMsgNr = shm.mostRecentMsgNr := by
  unfold tryAppend at h
  split_ifs at h
  cases h
  rfl

/-- The invariant on message numbers over a run: the numbers of the accepted messages and of the
sleeping senders, against the number of calls so far. -/
def NumbersHold (start : UInt64) (operations : List Operation) (state : QueueState)
    (observations : List Observation) : Prop :=
  sendCount operations < 2 ^ 64 →
    ∃ issued, issued ≤ sendCount operations ∧
      NumbersInvariant start issued state.shm.mostRecentMsgNr
        (acceptedNumbers observations ++ waitingNumbers state.waiting)

theorem numbersHold_send {start : UInt64} {operations : List Operation} {state : QueueState}
    {observations : List Observation} (h : NumbersHold start operations state observations)
    (localIdentifier : Identifier) (m : Message) (hpos : 0 < m.size) (blocking : Bool)
    (now : UInt64) :
    NumbersHold start (operations ++ [.send localIdentifier m hpos blocking now])
      (step state (.send localIdentifier m hpos blocking now)).1
      (observations ++ (step state (.send localIdentifier m hpos blocking now)).2) := by
  intro hcount
  have hone : sendCount (operations ++ [.send localIdentifier m hpos blocking now]) =
      sendCount operations + 1 := by
    simp [sendCount]
  rw [hone] at hcount ⊢
  obtain ⟨issued, hissued, hinvariant⟩ := h (by omega)
  obtain ⟨next, hnext, hstamped⟩ :=
    hinvariant.stamp (by omega) localIdentifier now m
  simp only [step, sendMessage]
  generalize stampMessage state.shm.mostRecentMsgNr localIdentifier now m = stamped at *
  cases happend : tryAppend { state.shm with mostRecentMsgNr := stamped.1 } stamped.2 with
  | some shm =>
    have hcounter := mostRecentMsgNr_tryAppend happend
    refine ⟨next, by omega, ?_⟩
    simp only [hcounter]
    apply hstamped.perm
    rw [acceptedNumbers_append, acceptedNumbers_appended, List.append_assoc, List.append_assoc]
    exact List.Perm.append_left _ List.perm_append_comm
  | none =>
    refine ⟨next, by omega, ?_⟩
    simp only [acceptedNumbers_append, acceptedNumbers_refused, List.append_nil]
    cases blocking with
    | true =>
      simp only [if_true, waitingNumbers_append]
      rw [← List.append_assoc]
      exact hstamped
    | false => exact hstamped.sublist (List.sublist_append_left _ _)

theorem numbersHold_wake {start : UInt64} {operations : List Operation} {state : QueueState}
    {observations : List Observation} (h : NumbersHold start operations state observations)
    (index : ℕ) :
    NumbersHold start (operations ++ [.wake index]) (step state (.wake index)).1
      (observations ++ (step state (.wake index)).2) := by
  intro hcount
  have hsame : sendCount (operations ++ [.wake index]) = sendCount operations := by
    simp [sendCount]
  rw [hsame] at hcount ⊢
  obtain ⟨issued, hissued, hinvariant⟩ := h hcount
  refine ⟨issued, hissued, ?_⟩
  simp only [step, wakeSender]
  cases hsender : state.waiting[index]? with
  | none => simpa using hinvariant
  | some m =>
    dsimp only
    cases happend : tryAppend state.shm m with
    | none =>
      simpa only [acceptedNumbers_append, acceptedNumbers_refused, List.append_nil] using
        hinvariant
    | some shm =>
      simp only [mostRecentMsgNr_tryAppend happend]
      apply hinvariant.perm
      rw [acceptedNumbers_append, acceptedNumbers_appended, List.append_assoc]
      exact List.Perm.append_left _ (waitingNumbers_eraseIdx hsender).symm

theorem mostRecentMsgNr_waitForMessage (state : QueueState) (address : DataAddress)
    (filter : Filter) :
    (waitForMessage state address filter).1.shm.mostRecentMsgNr = state.shm.mostRecentMsgNr ∧
      (waitForMessage state address filter).1.waiting = state.waiting ∧
      acceptedNumbers (waitForMessage state address filter).2 = [] := by
  unfold waitForMessage
  cases scan address state.shm filter 0 with
  | found position length => exact ⟨rfl, rfl, rfl⟩
  | notFound => exact ⟨rfl, rfl, rfl⟩
  | assertionFailed => exact ⟨rfl, rfl, rfl⟩

/-- Every critical section keeps the invariant on message numbers. -/
theorem numbersHold_step {start : UInt64} {operations : List Operation} {state : QueueState}
    {observations : List Observation} (operation : Operation)
    (h : NumbersHold start operations state observations) :
    NumbersHold start (operations ++ [operation]) (step state operation).1
      (observations ++ (step state operation).2) := by
  cases operation with
  | send localIdentifier m positive blocking now =>
    exact numbersHold_send h localIdentifier m positive blocking now
  | wake index => exact numbersHold_wake h index
  | interrupt index =>
    intro hcount
    have hsame : sendCount (operations ++ [.interrupt index]) = sendCount operations := by
      simp [sendCount]
    rw [hsame] at hcount ⊢
    obtain ⟨issued, hissued, hinvariant⟩ := h hcount
    refine ⟨issued, hissued, hinvariant.sublist ?_⟩
    simp only [step, List.append_nil]
    exact List.Sublist.append_left (((List.eraseIdx_sublist _ _).filter _).map _) _
  | wait address filter =>
    intro hcount
    have hsame : sendCount (operations ++ [.wait address filter]) = sendCount operations := by
      simp [sendCount]
    rw [hsame] at hcount ⊢
    obtain ⟨issued, hissued, hinvariant⟩ := h hcount
    obtain ⟨hcounter, hwaiting, haccepted⟩ := mostRecentMsgNr_waitForMessage state address filter
    refine ⟨issued, hissued, ?_⟩
    simp only [step, hcounter, hwaiting, acceptedNumbers_append, haccepted, List.append_nil]
    exact hinvariant

/-- The accepted messages of a run that are no replies have distinct numbers. Assumes: fewer than
`2 ^ 64` calls of `send_message`. -/
theorem acceptedNumbers_nodup (shm : SharedMemory) (operations : List Operation)
    (hcount : sendCount operations < 2 ^ 64) :
    (acceptedNumbers (run step ⟨shm, []⟩ operations).2).Nodup := by
  have hstart : NumbersHold shm.mostRecentMsgNr [] ⟨shm, []⟩ [] :=
    fun _ ↦ ⟨0, le_refl _, by simp, by simp [acceptedNumbers, waitingNumbers],
      by simp [acceptedNumbers, waitingNumbers]⟩
  have halong : Along step (fun _ _ ↦ True) ⟨shm, []⟩ operations :=
    along_of_forall (fun _ _ ↦ trivial) _
  have hrun := run_induction hstart (fun _ _ _ operation h _ ↦ numbersHold_step operation h) halong
  obtain ⟨issued, -, hinvariant⟩ := hrun hcount
  exact (List.nodup_append.mp hinvariant.nodup).1

/-! ### Whole runs -/

/-- A message that finds no room leaves the bytes of the area and the number of bytes in use as
they were. -/
theorem refused_frame {state : QueueState} {operation : Operation} {m : Message}
    (h : (step state operation).2 = [.refused m]) :
    (step state operation).1.shm.data = state.shm.data ∧
      (step state operation).1.shm.filled = state.shm.filled := by
  cases operation with
  | send localIdentifier message positive blocking now =>
    simp only [step, sendMessage] at h ⊢
    split at h
    · simp at h
    · exact ⟨rfl, rfl⟩
  | wake index =>
    simp only [step, wakeSender] at h ⊢
    split at h
    · simp at h
    · split at h
      · simp at h
      · exact ⟨rfl, rfl⟩
  | interrupt index => simp [step] at h
  | wait address filter =>
    simp only [step, waitForMessage] at h
    split at h <;> simp at h

/-- No critical section that agrees with the list reports a failed assertion. -/
theorem assertionFailed_not_mem {observations : List Observation}
    {abstract : List AbstractObservation} (h : List.Forall₂ Agrees observations abstract) :
    Observation.assertionFailed ∉ observations := by
  induction h with
  | nil => exact List.not_mem_nil
  | cons hagrees _ ih =>
    intro hfailed
    rcases List.mem_cons.mp hfailed with rfl | hrest
    · cases hagrees
    · exact ih hrest

theorem MessageList.capacity_offer {queue next : MessageList} {m : Message}
    (h : queue.offer m = some next) : next.capacity = queue.capacity := by
  unfold offer at h
  split_ifs at h
  cases h
  rfl

theorem MessageList.capacity_step (queue : MessageList) (operation : Operation) :
    (queue.step operation).1.capacity = queue.capacity := by
  cases operation with
  | send localIdentifier m positive blocking now =>
    simp only [step]
    split
    · next hoffer =>
      have hcapacity := capacity_offer hoffer
      exact hcapacity
    · rfl
  | wake index =>
    simp only [step]
    split
    · rfl
    · split
      · next hoffer =>
        have hcapacity := capacity_offer hoffer
        exact hcapacity
      · rfl
  | interrupt index => rfl
  | wait address filter =>
    simp only [step]
    split <;> rfl

theorem MessageList.capacity_run (queue : MessageList) (operations : List Operation) :
    (run MessageList.step queue operations).1.capacity = queue.capacity := by
  induction operations generalizing queue with
  | nil => rfl
  | cons operation rest ih => exact (ih _).trans (queue.capacity_step operation)

/-- The segment refines the list of messages over every run from `begin()`. Assumes: `begin()` set
the segment up. The bytes in use are the padded records of the messages in order, they fill a
multiple of eight bytes of the area, and every critical section reports what the operation on the
list reports: a message is appended exactly when its padded size fits, a waiting caller gets the
bytes of the first message that its filter selects, and no assertion fails. A refused message
changes nothing in the area. With fewer than `2 ^ 64` calls the accepted messages that are no
replies have distinct numbers. -/
theorem queue_refines_messageList {size : ℕ} {contents : ℕ → UInt8} {counter : UInt64}
    {shm : SharedMemory} (hbegin : beginQueue size contents counter = some shm)
    (operations : List Operation) :
    let final := run step ⟨shm, []⟩ operations
    let abstract := run MessageList.step (MessageList.empty size counter) operations
    (∃ records : List Record, records.map Record.message = abstract.1.messages ∧
        final.1.shm.data.take final.1.shm.filled = records.flatMap Record.bytes) ∧
      (final.1.shm.filled ≤ size ∧ final.1.shm.data.length = size ∧ 8 ∣ final.1.shm.filled) ∧
      List.Forall₂ Agrees final.2 abstract.2 ∧
      Observation.assertionFailed ∉ final.2 ∧
      (∀ operation m, (step final.1 operation).2 = [.refused m] →
        (step final.1 operation).1.shm.data = final.1.shm.data ∧
          (step final.1 operation).1.shm.filled = final.1.shm.filled) ∧
      (sendCount operations < 2 ^ 64 → (acceptedNumbers final.2).Nodup) := by
  intro final abstract
  obtain ⟨hrefines, hagrees⟩ := refines_run (refines_beginQueue hbegin) operations
  obtain ⟨records, hrecords, hmessages⟩ := hrefines.records
  have hsize : final.1.shm.totalSize = size :=
    hrefines.capacity.trans (MessageList.capacity_run _ _)
  refine ⟨⟨records, hmessages, hrecords.contents⟩, ⟨?_, ?_, ?_⟩, hagrees, ?_, ?_, ?_⟩
  · exact hsize ▸ hrecords.filled_le
  · exact hrecords.data_length.trans hsize
  · exact Nat.dvd_of_mod_eq_zero (hrecords.filled_eq ▸ recordsLength_mod records)
  · exact assertionFailed_not_mem hagrees
  · exact fun operation m h ↦ refused_frame h
  · exact acceptedNumbers_nodup shm operations

/-- A message as a caller passes it to `send_message`. -/
def sampleMessage (data : List UInt8) (hsize : data.length < 2 ^ 32) : Message where
  id := 0
  sentAt := 0
  type := MsgType.msgNew.code
  msgNr := 0
  sender := List.replicate maxIdLength 0
  data := data
  sender_length := rfl
  size_lt := hsize

/-- In an area of 150 bytes two messages fit, the third is refused, and a caller that waits for
number two gets the second message. -/
theorem queue_refines_messageList_three_sends :
    let address : DataAddress := ⟨0, rfl⟩
    let sender : Identifier := ⟨[97], by decide⟩
    let first := sampleMessage [1] (by decide)
    let second := sampleMessage [2] (by decide)
    let third := sampleMessage [3] (by decide)
    let operations : List Operation :=
      [.send sender first (by decide) false 5, .send sender second (by decide) false 6,
        .send sender third (by decide) false 7,
        .wait address ⟨.msgAny, some 2⟩]
    let start : SharedMemory := ⟨150, 0, 0, (List.range 150).map fun _ ↦ 0⟩
    beginQueue 150 (fun _ ↦ 0) 0 = some start ∧
      List.Forall₂ Agrees (run step ⟨start, []⟩ operations).2
        [.appended (stampMessage 0 sender 5 first).2, .appended (stampMessage 1 sender 6 second).2,
          .refused (stampMessage 2 sender 7 third).2,
          .received (stampMessage 1 sender 6 second).2] := by
  intro address sender first second third operations start
  have hbegin : beginQueue 150 (fun _ ↦ 0) 0 = some start := rfl
  have habstract : (run MessageList.step (MessageList.empty 150 0) operations).2 =
      [.appended (stampMessage 0 sender 5 first).2, .appended (stampMessage 1 sender 6 second).2,
        .refused (stampMessage 2 sender 7 third).2,
        .received (stampMessage 1 sender 6 second).2] := by
    decide
  refine ⟨hbegin, ?_⟩
  rw [← habstract]
  exact (queue_refines_messageList hbegin operations).2.2.1

end MyIPNG.Shm
