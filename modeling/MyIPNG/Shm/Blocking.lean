import MyIPNG.Shm.Refinement

/-!
# What a blocking send waits for

`create_shm` admits every size from that of a message header on, and `send_message` waits for room
without a look at the size of the queue. What it waits for can happen exactly when the padded record
fits the empty queue: callers of `wait_for_message` alone can take all messages out
(`run_drain`), and no more than that helps. A longer message waits for ever.
-/

set_option autoImplicit false
set_option relaxedAutoImplicit false

namespace MyIPNG.Shm

open Base

/-- `create_shm`. -/
def createShm (name : List UInt8) (size : ℕ) (contents : ℕ → UInt8) (mostRecentMsgNr : UInt64) :
    Option SharedMemory :=
  if maxIdLength ≤ name.length then none
  else if size < sizeofMessage then none
  else beginQueue size contents mostRecentMsgNr

/-- A blocking send that goes to sleep sleeps for something that can happen: there are calls of
`wait_for_message` after which the sender, once it runs again, has its message in the queue. -/
def WaitsForPossible (state : QueueState) (localIdentifier : Identifier) (m : Message)
    (hpos : 0 < m.size) (now : UInt64) : Prop :=
  let stamped := (stampMessage state.shm.mostRecentMsgNr localIdentifier now m).2
  let sent := (step state (.send localIdentifier m hpos true now)).1
  sent.waiting = state.waiting ++ [stamped] →
    ∃ calls : List (DataAddress × Filter),
      (step (run step sent (calls.map fun call ↦ .wait call.1 call.2)).1
        (.wake state.waiting.length)).2 = [.appended stamped]

/-! ### Draining the list of messages -/

/-- A call of `wait_for_message` for any message. -/
def anyMessage : DataAddress × Filter := (⟨0, rfl⟩, ⟨.msgAny, none⟩)

theorem selects_anyMessage (m : Message) : anyMessage.2.selects m = true := by
  simp [Filter.selects, Filter.admits, anyMessage]

/-- A call for any message takes the first one. -/
theorem step_wait_any (queue : MessageList) :
    (queue.step (.wait anyMessage.1 anyMessage.2)).1 =
      { queue with messages := queue.messages.tail } := by
  obtain ⟨capacity, messages, counter, waiting⟩ := queue
  cases messages with
  | nil => rfl
  | cons m rest =>
    simp [MessageList.step, selects_anyMessage]

/-- As many calls as there are messages leave the queue empty. -/
theorem run_drain (queue : MessageList) :
    (run MessageList.step queue
      ((List.replicate queue.messages.length anyMessage).map fun call ↦
        Operation.wait call.1 call.2)).1 = { queue with messages := [] } := by
  obtain ⟨capacity, messages, counter, waiting⟩ := queue
  induction messages with
  | nil => rfl
  | cons m rest ih =>
    have hfirst := step_wait_any ⟨capacity, m :: rest, counter, waiting⟩
    rw [List.length_cons, List.replicate_succ, List.map_cons, run]
    simp only [hfirst]
    exact ih

/-- Calls of `wait_for_message` leave the sleeping senders alone. -/
theorem waiting_run_waits (queue : MessageList) (calls : List (DataAddress × Filter)) :
    (run MessageList.step queue (calls.map fun call ↦ .wait call.1 call.2)).1.waiting =
      queue.waiting := by
  induction calls generalizing queue with
  | nil => rfl
  | cons call rest ih =>
    have hfirst : (queue.step (.wait call.1 call.2)).1.waiting = queue.waiting := by
      simp only [MessageList.step]
      split <;> rfl
    exact (ih _).trans hfirst

/-! ### The sleeping sender -/

section Sender

variable {state : QueueState} {queue : MessageList}

/-- A sender that runs again has its message in the queue when the record fits. -/
theorem step_wake_appended_iff (h : Refines state queue) {index : ℕ} {m : Message}
    (hsender : queue.waiting[index]? = some m) :
    (step state (.wake index)).2 = [.appended m] ↔
      queue.used + m.recordLength ≤ queue.capacity := by
  obtain ⟨records, hrecords, -⟩ := h.records
  have htry := tryAppend_eq hrecords m
  rw [h.filled_eq, h.capacity] at htry
  simp only [step, wakeSender, h.waiting, hsender, htry]
  split_ifs with hfits
  · simp [hfits]
  · simp [hfits]

/-- A blocking send of a record that is longer than the queue goes to sleep. -/
theorem waiting_step_send (h : Refines state queue) (localIdentifier : Identifier) {m : Message}
    (hpos : 0 < m.size) (now : UInt64) (hlong : queue.capacity < m.recordLength) :
    (step state (.send localIdentifier m hpos true now)).1.waiting =
      state.waiting ++ [(stampMessage state.shm.mostRecentMsgNr localIdentifier now m).2] := by
  obtain ⟨records, hrecords, -⟩ := h.records
  have hcapacity := h.capacity
  have hlength : (stampMessage state.shm.mostRecentMsgNr localIdentifier now m).2.recordLength =
      m.recordLength := by
    rw [Message.recordLength, size_stampMessage, Message.recordLength]
  have htry := tryAppend_eq (hrecords.setCounter
    (stampMessage state.shm.mostRecentMsgNr localIdentifier now m).1)
    (stampMessage state.shm.mostRecentMsgNr localIdentifier now m).2
  rw [if_neg (by rw [hlength]; dsimp only; omega)] at htry
  simp only [step, sendMessage, htry, if_true]

/-- What a blocking send waits for can happen exactly when its record fits the empty queue. -/
theorem waitsForPossible_iff (h : Refines state queue) (localIdentifier : Identifier)
    {m : Message} (hpos : 0 < m.size) (now : UInt64) :
    WaitsForPossible state localIdentifier m hpos now ↔ m.recordLength ≤ queue.capacity := by
  have hsent := refines_send h localIdentifier m hpos true now
  have hlength : (stampMessage state.shm.mostRecentMsgNr localIdentifier now m).2.recordLength =
      m.recordLength := by
    rw [Message.recordLength, size_stampMessage, Message.recordLength]
  have hcapacity := queue.capacity_step (.send localIdentifier m hpos true now)
  -- the sender is the last one that sleeps, also after calls of `wait_for_message`
  have hsender : ∀ calls : List (DataAddress × Filter),
      (step state (.send localIdentifier m hpos true now)).1.waiting =
        state.waiting ++ [(stampMessage state.shm.mostRecentMsgNr localIdentifier now m).2] →
      (run MessageList.step (queue.step (.send localIdentifier m hpos true now)).1
        (calls.map fun call ↦ .wait call.1 call.2)).1.waiting[state.waiting.length]? =
          some (stampMessage state.shm.mostRecentMsgNr localIdentifier now m).2 := by
    intro calls hslept
    rw [waiting_run_waits, ← hsent.1.waiting, hslept, List.getElem?_append_right le_rfl,
      Nat.sub_self]
    rfl
  constructor
  · intro hpossible
    by_contra hlong
    have hslept := waiting_step_send h localIdentifier hpos now (Nat.lt_of_not_le hlong)
    obtain ⟨calls, hwoken⟩ := hpossible hslept
    have hafter := (refines_run hsent.1 (calls.map fun call ↦ .wait call.1 call.2)).1
    have hfits := (step_wake_appended_iff hafter (hsender calls hslept)).mp hwoken
    rw [MessageList.capacity_run, hcapacity, hlength] at hfits
    omega
  · intro hfits hslept
    let drain := List.replicate
      (queue.step (.send localIdentifier m hpos true now)).1.messages.length anyMessage
    have hafter := (refines_run hsent.1 (drain.map fun call ↦ .wait call.1 call.2)).1
    refine ⟨drain, (step_wake_appended_iff hafter (hsender drain hslept)).mpr ?_⟩
    rw [run_drain]
    change 0 + _ ≤ (queue.step (.send localIdentifier m hpos true now)).1.capacity
    rw [hcapacity, hlength, Nat.zero_add]
    exact hfits

end Sender

/-! ### Queues of `create_shm` -/

theorem beginQueue_of_createShm {name : List UInt8} {size : ℕ} {contents : ℕ → UInt8}
    {counter : UInt64} {shm : SharedMemory} (h : createShm name size contents counter = some shm) :
    beginQueue size contents counter = some shm := by
  unfold createShm at h
  split_ifs at h
  exact h

/-- A blocking send waits for something that can happen exactly when the padded record of its
message fits the size of the queue, in every state of a queue of `create_shm`. -/
theorem blocking_send_possible_iff {name : List UInt8} {size : ℕ} {contents : ℕ → UInt8}
    {counter : UInt64} {shm : SharedMemory}
    (hcreate : createShm name size contents counter = some shm) (operations : List Operation)
    (localIdentifier : Identifier) (m : Message) (hpos : 0 < m.size) (now : UInt64) :
    WaitsForPossible (run step ⟨shm, []⟩ operations).1 localIdentifier m hpos now ↔
      pad8 (sizeofMessage + m.size) ≤ size := by
  have hrefines :=
    (refines_run (refines_beginQueue (beginQueue_of_createShm hcreate)) operations).1
  rw [waitsForPossible_iff hrefines localIdentifier hpos now, MessageList.capacity_run]
  rfl

theorem length_sampleSender : ([98] : List UInt8).length < maxIdLength := by decide

theorem size_sampleShort : ([1] : List UInt8).length < 2 ^ 32 := by decide

theorem size_sampleLong : (List.replicate 1012 (0 : UInt8)).length < 2 ^ 32 := by
  rw [List.length_replicate]
  decide

/-- The message of `send_func` for 1000 bytes. -/
def sampleLong : Message := sampleMessage (List.replicate 1012 0) size_sampleLong

theorem size_sampleLong_eq : sampleLong.size = 1012 := List.length_replicate

theorem pos_sampleLong : 0 < sampleLong.size := by
  rw [size_sampleLong_eq]
  decide

/-- The segment of a new queue. -/
def sampleNew (size : ℕ) : SharedMemory := ⟨size, 0, 0, (List.range size).map fun _ ↦ 0⟩

/-- A message of one byte, with the queue full of another one. -/
theorem blocking_send_possible_short :
    createShm [97] 72 (fun _ ↦ 0) 0 = some (sampleNew 72) ∧
      WaitsForPossible (run step ⟨sampleNew 72, []⟩ [.send ⟨[98], length_sampleSender⟩
        (sampleMessage [1] size_sampleShort) Nat.one_pos false 5]).1
        ⟨[98], length_sampleSender⟩ (sampleMessage [1] size_sampleShort) Nat.one_pos 6 := by
  have hcreate : createShm [97] 72 (fun _ ↦ 0) 0 = some (sampleNew 72) := rfl
  exact ⟨hcreate, (blocking_send_possible_iff hcreate _ _ _ _ _).mpr (by decide)⟩

/-- A message that is longer than the queue of 512 bytes is not refused, and its sender waits for
what cannot happen. -/
theorem long_message_waits_for_ever :
    createShm [97] 512 (fun _ ↦ 0) 0 = some (sampleNew 512) ∧
      ¬ WaitsForPossible ⟨sampleNew 512, []⟩ ⟨[98], length_sampleSender⟩ sampleLong
        pos_sampleLong 5 := by
  have hbegin : beginQueue 512 (fun _ ↦ 0) 0 = some (sampleNew 512) := rfl
  refine ⟨hbegin, ?_⟩
  rw [waitsForPossible_iff (refines_beginQueue hbegin), Message.recordLength, size_sampleLong_eq]
  decide

end MyIPNG.Shm
