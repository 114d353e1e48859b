import MyIPNG.Base.Heap
import MyIPNG.Base.Runs
import MyIPNG.Ip4.RunIn
import MyIPNG.Utils.Address

/-!
# `run_out`: packets for the link, and the table of those that wait for addresses

`run_out` of `ip4_server.cpp` has three threads. One takes packets of the upper layers and asks the
resolver for the MAC addresses of both ends; the packet waits in a record that the table
`pending_messages` lists under the numbers of the two requests. Another one takes the replies of the
resolver and sends a packet when both have come. The third one drops what waits for too long. Each
of them works on the table under one lock, so a step is one hold of it.

The records and the queued messages are objects: they are made and deleted, and the table, and the
record, hold pointers. Reading or releasing an object that was released is an output, `fault`, and
ends the run; so do an exception that no one catches and a fragmentation loop that does not come to
an end.
-/

set_option autoImplicit false
set_option relaxedAutoImplicit false

namespace MyIPNG.Ip4

open Base Utils

/-! ### Messages, records and the table -/

/-- What `run_out` is configured with. `behindMasks` is what stands behind the 32 entries of
`masks`. -/
structure OutConfig where
  listenAddr : Address
  prefixLength : ℕ
  behindMasks : ℕ → UInt32
  defaultGwAddr : Address
  mappingsOut : List UInt8 → Option UInt8
  mtuSize : ℤ

/-- A message of an upper layer: the name of its sender, and what `unwrap_message_down` gives. -/
structure DownMessage where
  sender : List UInt8
  fromAddr : List UInt8
  toAddr : List UInt8
  pl : List UInt8
deriving DecidableEq, Repr

/-- A message that is queued, whose addresses have the right length. -/
structure QueuedMsg where
  sender : List UInt8
  source : Address
  destination : Address
  pl : List UInt8
deriving DecidableEq, Repr

/-- `pending_msg`. -/
structure PendingMsg where
  ts : UInt64
  queuedMsg : ℕ
  fromNr : UInt64
  fromMac : Option (List UInt8)
  toNr : UInt64
  toMac : Option (List UInt8)
deriving DecidableEq, Repr

/-- A reply of the resolver, with what its handling reads from its surroundings: the bytes of an
address that are not set, the random packet id, which packets the queue of the link takes, and how
many turns the fragmentation loop is watched for. -/
structure ResolverReply where
  msgNr : UInt64
  data : List UInt8
  freshBytes : ℕ → UInt8
  packetsId : UInt16
  accepts : ℕ → Bool
  turns : ℕ

/-- What the threads share: the table, the records and the queued messages. -/
structure Pending where
  pendingMessages : Std.ExtTreeMap UInt64 ℕ
  records : Heap PendingMsg
  messages : Heap QueuedMsg

/-- Nothing is queued. -/
def Pending.start : Pending := ⟨∅, Heap.empty, Heap.empty⟩

/-- What the threads do that is seen outside: a request to the resolver, a message that is queued
under two numbers, a packet that goes to the link between two MAC addresses, a message that is
released, and the use of an object that was released. A fragmentation loop that does not come to an
end has no list of packets. -/
inductive OutEffect
  | startResolve (text : List UInt8)
  | queued (record message : ℕ) (fromNr toNr : UInt64)
  | transmit (message : ℕ) (fromMac toMac : List UInt8) (packets : Option (List (List UInt8)))
  | release (message : ℕ)
  | fault
deriving DecidableEq, Repr

/-! ### A new packet -/

/-- The entries of `masks`, made by shifting a one in from the left. -/
def maskValue : ℕ → UInt32
  | 0 => 0
  | i + 1 => (maskValue i >>> 1) ||| 0x80000000

/-- `masks[i]`. -/
def masks (config : OutConfig) (i : ℕ) : UInt32 :=
  if i < 32 then maskValue i else config.behindMasks i

/-- An address as a number. -/
def addressWord (a : Address) : UInt32 :=
  ((byteAt a.bytes 0).toUInt32 <<< 24) ||| ((byteAt a.bytes 1).toUInt32 <<< 16) |||
    ((byteAt a.bytes 2).toUInt32 <<< 8) ||| (byteAt a.bytes 3).toUInt32

/-- `via`: the destination, or the gateway when the destination is not on the own network. -/
def via (config : OutConfig) (destination : Address) : Address :=
  let mask := masks config config.prefixLength
  if addressWord destination &&& mask ≠ addressWord config.listenAddr &&& mask then
    config.defaultGwAddr
  else destination

/-- The request of `start_resolve_by_ip4`. -/
def searchMac (a : Address) : List UInt8 := ascii "search-mac=" ++ toStr 46 false a.bytes

/-- `start_resolve_by_ip4`, when the queue of the resolver gave the request a number. -/
def startResolve (a : Address) (msgNr : Option UInt64) : List OutEffect :=
  if msgNr.isSome then [.startResolve (searchMac a)] else []

/-- A message whose addresses are of IPv4. -/
def queuedMsg (m : DownMessage) : Option QueuedMsg :=
  if h : m.fromAddr.length = 4 ∧ m.toAddr.length = 4 then
    some ⟨m.sender, ⟨m.fromAddr, h.1⟩, ⟨m.toAddr, h.2⟩, m.pl⟩
  else none

/-- The record of a message, listed under both numbers. `std::map::insert` keeps an entry that is
there. -/
def enqueue (now : UInt64) (m : QueuedMsg) (fromNr toNr : UInt64) (pending : Pending) :
    Pending × List OutEffect :=
  let pm := pending.records.next
  let record : PendingMsg := ⟨now, pending.messages.next, fromNr, none, toNr, none⟩
  (⟨(pending.pendingMessages.insertIfNew fromNr pm).insertIfNew toNr pm,
      pending.records.alloc record, pending.messages.alloc m⟩,
    [.queued pm pending.messages.next fromNr toNr])

/-- The loop body of `run_out` for a message of an upper layer. -/
def newPacket (config : OutConfig) (now : UInt64) (m : DownMessage)
    (fromMsgNr toMsgNr : Option UInt64) (pending : Pending) : Pending × List OutEffect :=
  match queuedMsg m with
  | none => (pending, [])
  | some queued =>
    let requests := startResolve queued.source fromMsgNr ++
      startResolve (via config queued.destination) toMsgNr
    match fromMsgNr, toMsgNr with
    | some fromNr, some toNr =>
      let next := enqueue now queued fromNr toNr pending
      (next.1, requests ++ next.2)
    | _, _ => (pending, requests)

/-! ### A reply of the resolver -/

/-- The MAC address in a reply. -/
inductive MacAnswer
  | invalid
  | mac (bytes : List UInt8)
  | exception
deriving DecidableEq, Repr

/-- `resolve_result_addr`. -/
def macAnswer (reply : ResolverReply) : MacAnswer :=
  match find (ascii "=mac:") reply.data with
  | none => .invalid
  | some is =>
    match addrOfText reply.freshBytes (reply.data.drop (is + 5))
      ⟨ascii ":", ascii_colon_nonempty⟩ true with
    | some bytes => .mac bytes
    | none => .exception

/-- The record with the answer to one of its requests filled in. Nothing when the number is of none
of them. -/
def fillIn (record : PendingMsg) (msgNr : UInt64) (mac : List UInt8) : Option PendingMsg :=
  if record.fromNr = msgNr then some { record with fromMac := some mac }
  else if record.toNr = msgNr then some { record with toMac := some mac }
  else none

/-- "encapsulate, send to link_name": the packets of a queued message. -/
def transmitMsg (config : OutConfig) (reply : ResolverReply) (message : ℕ) (m : QueuedMsg)
    (fromMac toMac : List UInt8) : List OutEffect :=
  match config.mappingsOut m.sender with
  | none => []
  | some protocol => [.transmit message fromMac toMac (fragmentLoop reply.accepts config.mtuSize
      ⟨reply.packetsId, protocol, m.source, m.destination, m.pl⟩ reply.turns 0 0)]

/-- A loop that is among the effects does not come to an end. -/
def hangs (effects : List OutEffect) : Bool :=
  effects.any fun
    | .transmit _ _ _ none => true
    | _ => false

/-- The end of the loop body of `th_sender`: the packet is sent, its message is released, and its
record with the last key is deleted. -/
def sendPending (config : OutConfig) (reply : ResolverReply) (pm : ℕ) (record : PendingMsg)
    (fromMac toMac : List UInt8) (pending : Pending) : Option Pending × List OutEffect :=
  match pending.messages.read record.queuedMsg with
  | none => (none, [.fault])
  | some m =>
    let sent := transmitMsg config reply record.queuedMsg m fromMac toMac
    if hangs sent then (none, sent)
    else
      (some ⟨pending.pendingMessages.erase reply.msgNr, pending.records.free pm,
        pending.messages.free record.queuedMsg⟩, sent ++ [.release record.queuedMsg])

/-- The loop body of `th_sender`. -/
def resolverReply (config : OutConfig) (reply : ResolverReply) (pending : Pending) :
    Option Pending × List OutEffect :=
  match pending.pendingMessages[reply.msgNr]? with
  | none => (some pending, [])
  | some pm =>
    match macAnswer reply with
    | .invalid => (some pending, [])
    | .exception => (none, [])
    | .mac bytes =>
      match pending.records.read pm with
      | none => (none, [.fault])
      | some record =>
        match fillIn record reply.msgNr bytes with
        | none =>
          (some { pending with pendingMessages := pending.pendingMessages.erase reply.msgNr }, [])
        | some filled =>
          let pending := { pending with records := pending.records.write pm filled }
          match filled.fromMac, filled.toMac with
          | some fromMac, some toMac => sendPending config reply pm filled fromMac toMac pending
          | _, _ =>
            (some { pending with
              pendingMessages := pending.pendingMessages.erase reply.msgNr }, [])

/-! ### A pass of the cleaner -/

/-- `arp_timeout`, in microseconds. -/
def arpTimeout : UInt64 := 2500000

/-- What the loop of `th_cleaner` over the table has done: the keys that it is going to erase, the
messages that are left, and the effects. -/
structure Cleaning where
  eraseKeys : List UInt64
  messages : Heap QueuedMsg
  effects : List OutEffect

/-- One turn of the loop of `th_cleaner`. -/
def cleanEntry (now : UInt64) (records : Heap PendingMsg) (cleaning : Cleaning)
    (entry : UInt64 × ℕ) : Cleaning :=
  if entry.1 ∈ cleaning.eraseKeys then cleaning
  else
    match records.read entry.2 with
    | none => { cleaning with effects := cleaning.effects ++ [.fault] }
    | some record =>
      if arpTimeout ≤ now - record.ts then
        ⟨cleaning.eraseKeys ++ [record.fromNr, record.toNr],
          cleaning.messages.free record.queuedMsg,
          cleaning.effects ++ [if (cleaning.messages.read record.queuedMsg).isSome then
            .release record.queuedMsg else .fault]⟩
      else cleaning

/-- A pass of `th_cleaner`. The records themselves are not deleted. -/
def cleanPending (now : UInt64) (pending : Pending) : Pending × List OutEffect :=
  let cleaning := pending.pendingMessages.toList.foldl (cleanEntry now pending.records)
    ⟨[], pending.messages, []⟩
  ({ pending with
      pendingMessages := cleaning.eraseKeys.foldl (fun table key ↦ table.erase key)
        pending.pendingMessages
      messages := cleaning.messages }, cleaning.effects)

/-! ### The three threads -/

/-- What can reach the threads: a message of an upper layer, with the numbers that its two requests
got, a reply of the resolver, and the time for a pass of the cleaner. -/
inductive OutEvent
  | packet (m : DownMessage) (fromMsgNr toMsgNr : Option UInt64) (now : UInt64)
  | reply (reply : ResolverReply)
  | cleaner (now : UInt64)

/-- One hold of the lock. Nothing follows the end of the run. -/
def outStep (config : OutConfig) : Option Pending → OutEvent → Option Pending × List OutEffect
  | none, _ => (none, [])
  | some pending, .packet m fromMsgNr toMsgNr now =>
    let next := newPacket config now m fromMsgNr toMsgNr pending
    (some next.1, next.2)
  | some pending, .reply reply => resolverReply config reply pending
  | some pending, .cleaner now =>
    let next := cleanPending now pending
    (if .fault ∈ next.2 then none else some next.1, next.2)

end MyIPNG.Ip4
