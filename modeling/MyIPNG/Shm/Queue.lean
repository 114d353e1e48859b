import MyIPNG.Base.Bytes
import MyIPNG.Base.Runs

/-!
# The shared-memory message queue

`utils/shm.h` and `utils/shm.cpp`. A queue is a shared segment with a byte area `data`, the number
`filled` of bytes in use and the last message number given out. `sendMessage` copies a message,
its header laid out as the packed struct of `shm.h` in little-endian order, behind the bytes in
use and counts them up to a multiple of eight. `waitForMessage` walks over the records from the
front, copies out the first one that the filter admits and moves the bytes behind it down.

Each critical section is one step. A blocking `sendMessage` that finds no room keeps its message
number and sleeps; it stands in `waiting` until it is woken and tests again. The assertions of the
source are results of their own. `step` is the queue under any mix of callers.
-/

set_option autoImplicit false
set_option relaxedAutoImplicit false

namespace MyIPNG.Shm

open Base

/-! ### Messages -/

/-- `max_id_length`. -/
def maxIdLength : ℕ := 32

/-- `sizeof(message)`: the packed header of a message, without its data. -/
def sizeofMessage : ℕ := 64

/-- `sizeof(shared_memory)`: the header of the segment in front of `data`. -/
def sizeofSharedMemory : ℕ := 160

/-- `msg_type`. The value `msgAny` only selects, no message needs to carry it. -/
inductive MsgType
  | msgNew
  | msgReply
  | msgAny
deriving DecidableEq, Repr

/-- The number that stands for a message type in a header. -/
def MsgType.code : MsgType → UInt32
  | .msgNew => 1
  | .msgReply => 2
  | .msgAny => 0

/-- `struct message`. The field `size` of the source is the length of `data`. -/
structure Message where
  id : UInt64
  sentAt : UInt64
  type : UInt32
  msgNr : UInt64
  sender : List UInt8
  data : List UInt8
  sender_length : sender.length = maxIdLength
  size_lt : data.length < 2 ^ 32
deriving DecidableEq, Repr

/-- The field `size` of a message. -/
def Message.size (m : Message) : ℕ := m.data.length

/-- The bytes of the header of a message. -/
def Message.header (m : Message) : List UInt8 :=
  leBytes 8 m.id.toNat ++ (leBytes 8 m.sentAt.toNat ++ (leBytes 4 m.size ++
    (leBytes 4 m.type.toNat ++ (leBytes 8 m.msgNr.toNat ++ m.sender))))

/-- The bytes of a message: the header and the data. -/
def Message.bytes (m : Message) : List UInt8 := m.header ++ m.data

/-- `PAD8`. -/
def pad8 (x : ℕ) : ℕ := if x &&& 7 ≠ 0 then x + 8 - (x &&& 7) else x

/-- A `local_identifier`, which the constructor of the queue asserts to be short. -/
structure Identifier where
  name : List UInt8
  length_lt : name.length < maxIdLength
deriving DecidableEq, Repr

/-- The `sender` field that an identifier gives: the name in an array of zeros. -/
def Identifier.field (identifier : Identifier) : List UInt8 :=
  identifier.name ++ List.replicate (maxIdLength - identifier.name.length) 0

theorem Identifier.length_field (identifier : Identifier) :
    identifier.field.length = maxIdLength := by
  have h := identifier.length_lt
  rw [field, List.length_append, List.length_replicate]
  omega

/-! ### The segment -/

/-- `struct shared_memory` without its lock and its condition variables. -/
structure SharedMemory where
  totalSize : ℕ
  filled : ℕ
  mostRecentMsgNr : UInt64
  data : List UInt8
deriving DecidableEq, Repr

/-- `size_t` addition. -/
def sizeAdd (a b : ℕ) : ℕ := (a + b) % 2 ^ 64

/-- `begin()` on a segment whose byte area holds `contents` and whose counter was last used at
`mostRecentMsgNr`. `ftruncate` and `mmap` refuse a length that is no positive `off_t`. The counter
is kept, the assignment to it is commented out in the source. -/
def beginQueue (size : ℕ) (contents : ℕ → UInt8) (mostRecentMsgNr : UInt64) :
    Option SharedMemory :=
  if size + sizeofSharedMemory < 2 ^ 63 then
    some ⟨size, 0, mostRecentMsgNr, (List.range size).map contents⟩
  else none

/-! ### Sending -/

/-- The message as it is put in the queue, with the counter after it: the message is stamped with
the time and the sender and, unless it is a reply, with the next message number. -/
def stampMessage (mostRecentMsgNr : UInt64) (localIdentifier : Identifier) (now : UInt64)
    (m : Message) : UInt64 × Message :=
  if m.type ≠ MsgType.msgReply.code then
    (mostRecentMsgNr + 1,
      { m with
        sentAt := now
        msgNr := mostRecentMsgNr + 1
        sender := localIdentifier.field
        sender_length := localIdentifier.length_field })
  else
    (mostRecentMsgNr,
      { m with
        sentAt := now
        sender := localIdentifier.field
        sender_length := localIdentifier.length_field })

/-- One pass through the loop of `send_message`: the record is copied behind the bytes in use when
its padded length fits. -/
def tryAppend (shm : SharedMemory) (m : Message) : Option SharedMemory :=
  if sizeAdd shm.filled (pad8 (sizeofMessage + m.size)) ≤ shm.totalSize then
    some { shm with
      data := overwrite shm.data shm.filled m.bytes
      filled := shm.filled + pad8 (sizeofMessage + m.size) }
  else none

/-! ### Waiting -/

/-- What a caller of `wait_for_message` asks for. -/
structure Filter where
  searchType : MsgType
  msgNr : Option UInt64
deriving DecidableEq, Repr

/-- The test of the scan on the type and the number of a record. -/
def Filter.admits (filter : Filter) (type : UInt32) (msgNr : UInt64) : Bool :=
  (type == filter.searchType.code || filter.searchType == .msgAny) &&
    (filter.msgNr == none || filter.msgNr == some msgNr)

/-- The address at which a process has mapped `data`. -/
structure DataAddress where
  value : ℕ
  aligned : value % 8 = 0
deriving DecidableEq, Repr

/-- `m->size`, `m->type` and `m->msg_nr` of the record at a position. -/
def sizeAt (data : List UInt8) (cur : ℕ) : ℕ := leValue (slice data (cur + 16) 4)

@[inherit_doc sizeAt]
def typeAt (data : List UInt8) (cur : ℕ) : UInt32 :=
  UInt32.ofNat (leValue (slice data (cur + 20) 4))

@[inherit_doc sizeAt]
def msgNrAt (data : List UInt8) (cur : ℕ) : UInt64 :=
  UInt64.ofNat (leValue (slice data (cur + 24) 8))

/-- The end of a scan: a record found at a position, none found, or a failed assertion. -/
inductive ScanResult
  | found (cur totalLength : ℕ)
  | notFound
  | assertionFailed
deriving DecidableEq, Repr

/-- Every record is at least as long as a header, so the scan advances. -/
theorem le_pad8 (x : ℕ) : x ≤ pad8 x := by
  have h : x &&& 7 = x % 8 := Nat.and_two_pow_sub_one_eq_mod x 3
  unfold pad8
  split_ifs <;> omega

/-- The inner loop of `wait_for_message`, from position `cur` on. -/
def scan (address : DataAddress) (shm : SharedMemory) (filter : Filter) (cur : ℕ) : ScanResult :=
  if sizeofMessage ≤ shm.filled - cur then
    let length := sizeAt shm.data cur
    let totalLength := pad8 (sizeofMessage + length)
    if length = 0 then .assertionFailed
    else if filter.admits (typeAt shm.data cur) (msgNrAt shm.data cur) then
      if shm.filled - cur < totalLength then .assertionFailed
      else if (address.value + cur) % 8 ≠ 0 then .assertionFailed
      else if totalLength % 8 ≠ 0 then .assertionFailed
      else if shm.filled < totalLength then .assertionFailed
      else .found cur totalLength
    else if (address.value + (cur + totalLength)) % 8 ≠ 0 then .assertionFailed
    else scan address shm filter (cur + totalLength)
  else .notFound
termination_by shm.filled - cur
decreasing_by
  have hadvance := le_pad8 (sizeofMessage + sizeAt shm.data cur)
  simp only [sizeofMessage] at *
  omega

/-- The record at a position is cut out: the bytes behind it are moved down, when there are any,
and the number of bytes in use is reduced. -/
def removeRecord (shm : SharedMemory) (cur totalLength : ℕ) : SharedMemory :=
  let left := shm.filled - cur - totalLength
  { shm with
    data := if left ≠ 0 then move shm.data cur (cur + totalLength) left else shm.data
    filled := shm.filled - totalLength }

/-! ### The queue under any mix of callers -/

/-- The segment together with the senders that sleep in `send_message`, each with its stamped
message. -/
structure QueueState where
  shm : SharedMemory
  waiting : List Message
deriving DecidableEq, Repr

/-- The critical sections of the queue. A call of `send_message` is `send`, followed for a
blocking call that found no room by any number of `wake` and at most one `interrupt`, which is a
failing `pthread_cond_wait`. A call of `wait_for_message` is one `wait` for each time it holds the
lock. -/
inductive Operation
  | send (localIdentifier : Identifier) (message : Message) (positive : 0 < message.size)
    (blocking : Bool) (now : UInt64)
  | wake (index : ℕ)
  | interrupt (index : ℕ)
  | wait (address : DataAddress) (filter : Filter)
deriving DecidableEq, Repr

/-- What a critical section reports: a message that was appended, one that was not, the bytes
handed to a waiting caller, nothing found, or a failed assertion. -/
inductive Observation
  | appended (message : Message)
  | refused (message : Message)
  | received (copy : List UInt8)
  | nothing
  | assertionFailed
deriving DecidableEq, Repr

/-- The critical section of `send_message` up to its return or its first sleep. -/
def sendMessage (state : QueueState) (localIdentifier : Identifier) (m : Message) (blocking : Bool)
    (now : UInt64) : QueueState × List Observation :=
  let stamped := stampMessage state.shm.mostRecentMsgNr localIdentifier now m
  let shm := { state.shm with mostRecentMsgNr := stamped.1 }
  match tryAppend shm stamped.2 with
  | some shm => (⟨shm, state.waiting⟩, [.appended stamped.2])
  | none =>
    (⟨shm, if blocking then state.waiting ++ [stamped.2] else state.waiting⟩,
      [.refused stamped.2])

/-- A sleeping sender runs again and tests the condition of the loop once more. -/
def wakeSender (state : QueueState) (index : ℕ) : QueueState × List Observation :=
  match state.waiting[index]? with
  | none => (state, [])
  | some m =>
    match tryAppend state.shm m with
    | some shm => (⟨shm, state.waiting.eraseIdx index⟩, [.appended m])
    | none => (state, [.refused m])

/-- The critical section of `wait_for_message`. -/
def waitForMessage (state : QueueState) (address : DataAddress) (filter : Filter) :
    QueueState × List Observation :=
  match scan address state.shm filter 0 with
  | .found cur totalLength =>
    (⟨removeRecord state.shm cur totalLength, state.waiting⟩,
      [.received (slice state.shm.data cur totalLength)])
  | .notFound => (state, [.nothing])
  | .assertionFailed => (state, [.assertionFailed])

/-- One critical section. -/
def step (state : QueueState) : Operation → QueueState × List Observation
  | .send localIdentifier m _ blocking now => sendMessage state localIdentifier m blocking now
  | .wake index => wakeSender state index
  | .interrupt index => (⟨state.shm, state.waiting.eraseIdx index⟩, [])
  | .wait address filter => waitForMessage state address filter

end MyIPNG.Shm
