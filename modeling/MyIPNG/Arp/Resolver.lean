import MyIPNG.Base.Bytes
import MyIPNG.Base.Runs
import MyIPNG.Utils.Address

/-!
# The ARP server

`arp_server.cpp`: the thread `run_resolver`, which takes requests for an address from the other
servers, and the thread `run_in`, which takes ARP packets from the link. They share the list of the
requests that wait for an answer and the ARP cache, each under a lock of its own, so a request and
an ARP reply are both handled in two steps: a request is looked up in the cache and then put in the
list, an ARP reply is put in the cache and then answers the list. The steps of the two threads
interleave in any way.

What the code does not set is part of the message that makes it: the bytes of an address whose text
has a part without a number, and the `msg_nr` of the record `request`. An exception that no one
catches, a failed assertion and a read or write outside of a buffer end the run of the server.
-/

set_option autoImplicit false
set_option relaxedAutoImplicit false

namespace MyIPNG.Arp

open Base Utils

/-! ### Messages and records -/

/-- A message for `run_resolver`, with the memory that its handling does not initialise. -/
structure ResolverMessage where
  sender : List UInt8
  msgNr : UInt64
  data : List UInt8
  freshBytes : ℕ → UInt8
  freshMsgNr : UInt64

/-- A message from the link for `run_in`. -/
structure LinkMessage where
  sender : List UInt8
  msgNr : UInt64
  fromAddr : List UInt8
  toAddr : List UInt8
  pl : List UInt8
deriving DecidableEq, Repr

/-- `request`. -/
structure Request where
  mac : Option (List UInt8)
  ip4 : Option (List UInt8)
  searchedBy : List UInt8
  msgNr : UInt64
deriving DecidableEq, Repr

/-- A text that `push_resolver_reply` sends, with its receiver and its number. -/
structure Reply where
  receiver : List UInt8
  text : List UInt8
  msgNr : UInt64
deriving DecidableEq, Repr

/-- What the server sends: a reply of the resolver, an ARP request for the link, or the answer to an
ARP request for the sender of it. -/
inductive Output
  | pushResolverReply (reply : Reply)
  | arpRequest (fromAddr toAddr packet : List UInt8)
  | arpReply (receiver fromAddr toAddr packet : List UInt8) (msgNr : UInt64)
deriving DecidableEq, Repr

/-- The addresses of the server. -/
structure Config where
  ip4Addr : List UInt8
  mac : List UInt8
deriving DecidableEq, Repr

/-- A request that `run_resolver` has not found in the cache and is about to put in the list, with
the addresses of the ARP request it then sends. -/
structure Resolving where
  request : Request
  sha : List UInt8
  spa : List UInt8
  tpa : List UInt8
deriving DecidableEq, Repr

/-- An ARP reply that `run_in` has put in the cache and that is about to answer the list. -/
structure Registering where
  sha : List UInt8
  spa : List UInt8
deriving DecidableEq, Repr

/-- What the two threads share, and where each of them is. -/
structure Server where
  requests : List Request
  arpCache : List (List UInt8 × List UInt8)
  resolving : Option Resolving
  registering : Option Registering
deriving DecidableEq, Repr

/-! ### `run_resolver` -/

/-- What a message for `run_resolver` asks for. -/
inductive Command
  | searchMac (ip4 : List UInt8)
  | searchIp4 (mac : List UInt8)
  | invalid
  | fault
deriving DecidableEq, Repr

/-- The command of a message. -/
def command (m : ResolverMessage) : Command :=
  match split m.data ⟨ascii "=", ascii_equals_nonempty⟩ with
  | [key, value] =>
    if key = ascii "search-mac" then
      ((addrOfText m.freshBytes value ⟨ascii ".", ascii_dot_nonempty⟩ false).map
        Command.searchMac).getD .fault
    else if key = ascii "search-ip4" then
      ((addrOfText m.freshBytes value ⟨ascii ":", ascii_colon_nonempty⟩ true).map
        Command.searchIp4).getD .fault
    else .invalid
  | _ => .invalid

/-- The text of the answer to `search-mac`. -/
def macReply (ip4 mac : List UInt8) : List UInt8 :=
  ascii "ip4:" ++ toStr 46 false ip4 ++ ascii "=mac:" ++ toStr 58 true mac

/-- The text of the answer to `search-ip4`. -/
def ip4Reply (mac ip4 : List UInt8) : List UInt8 :=
  ascii "mac:" ++ toStr 58 true mac ++ ascii "=ip4:" ++ toStr 46 false ip4

/-- `find` in the ARP cache. The comparison of the map reads as many bytes of each address as the
other one has: nothing when that is behind the end. -/
def findArpCache (arpCache : List (List UInt8 × List UInt8)) (ip4 : List UInt8) :
    Option (Option (List UInt8)) :=
  if arpCache.any fun entry ↦ entry.1.length ≠ ip4.length then none else some (arpCache.lookup ip4)

/-- What `run_resolver` knows without asking the link: the MAC address when the address is its own
or in the cache. Nothing when a comparison reads behind the end of an address. -/
def knownMac (config : Config) (arpCache : List (List UInt8 × List UInt8)) (ip4 : List UInt8) :
    Option (Option (List UInt8)) :=
  match addrEq ip4 config.ip4Addr with
  | none => none
  | some true => some (some config.mac)
  | some false => findArpCache arpCache ip4

/-- The loop body of `run_resolver` up to the list of requests. -/
def resolve (config : Config) (m : ResolverMessage) (server : Server) :
    Option Server × List Output :=
  match command m with
  | .searchMac ip4 =>
    match knownMac config server.arpCache ip4 with
    | none => (none, [])
    | some (some mac) =>
      (some server, [.pushResolverReply ⟨m.sender, macReply ip4 mac, m.msgNr⟩])
    | some none =>
      (some { server with resolving := some {
        request := ⟨none, some ip4, m.sender, m.freshMsgNr⟩
        sha := config.mac
        spa := config.ip4Addr
        tpa := ip4 } }, [])
  | .searchIp4 mac =>
    (some { server with resolving := some {
      request := ⟨some mac, none, m.sender, m.freshMsgNr⟩
      sha := mac
      spa := List.replicate 4 0
      tpa := List.replicate 4 0 } }, [])
  | .invalid => (some server, [])
  | .fault => (none, [])

/-- `addr::get` into a buffer: nothing when the address is empty or does not fit. -/
def putAddr (buffer : List UInt8) (position : ℕ) (a : List UInt8) : Option (List UInt8) :=
  if a = [] ∨ buffer.length < position + a.length then none
  else some (overwrite buffer position a)

/-- `bc_addr`. -/
def bcAddr : List UInt8 := List.replicate 6 255

/-- The ARP request of 44 bytes. -/
def arpRequestPacket (sha spa tpa : List UInt8) : Option (List UInt8) := do
  let packet := [0, 1, 8, 0, 6, 4, 0, 1] ++ List.replicate 36 0
  let packet ← putAddr packet 8 sha
  let packet ← putAddr packet 14 spa
  let packet ← putAddr packet 18 bcAddr
  putAddr packet 24 tpa

/-- The loop body of `run_resolver` from the list of requests on. -/
def pushRequest (resolving : Resolving) (server : Server) : Option Server × List Output :=
  match arpRequestPacket resolving.sha resolving.spa resolving.tpa with
  | none => (none, [])
  | some packet =>
    (some { server with
      requests := server.requests ++ [resolving.request]
      resolving := none }, [.arpRequest resolving.sha bcAddr packet])

/-! ### `run_in` -/

/-- The text that answers an item of the list, if the ARP reply is about it. -/
def replyFor (sha spa : List UInt8) (item : Request) : Option (Option (List UInt8)) :=
  let byIp4 : Option (Option (List UInt8)) :=
    match item.ip4 with
    | none => some none
    | some ip4 =>
      (addrEq ip4 spa).map fun same ↦ if same then some (macReply ip4 sha) else none
  match item.mac with
  | none => byIp4
  | some mac =>
    match addrEq mac sha with
    | none => none
    | some true => some (some (ip4Reply mac spa))
    | some false => byIp4

/-- `register_resolve_reply`: the requests that are left, if the loop gets to its end, and the
replies. -/
def registerResolveReply (sha spa : List UInt8) : List Request → Option (List Request) × List Reply
  | [] => (some [], [])
  | item :: rest =>
    let result := registerResolveReply sha spa rest
    match replyFor sha spa item with
    | none => (none, [])
    | some none => (result.1.map (item :: ·), result.2)
    | some (some text) => (result.1, ⟨item.searchedBy, text, item.msgNr⟩ :: result.2)

/-- `get_uint16`. -/
def getUint16 (pl : List UInt8) (index : ℕ) : ℕ :=
  ((pl.getD index 0).toNat <<< 8) ||| (pl.getD (index + 1) 0).toNat

/-- The packet that answers an ARP request. -/
def arpReplyPacket (config : Config) (pl sha spa tpa : List UInt8) : Option (List UInt8) := do
  let payloadOut ← putAddr (pl.take 28) 18 sha
  let payloadOut := overwrite payloadOut 6 [0, 2]
  let payloadOut ← putAddr payloadOut 8 config.mac
  let payloadOut ← putAddr payloadOut 24 spa
  putAddr payloadOut 14 tpa

/-- `insert` into the ARP cache, which keeps an entry that is there. -/
def insertArpCache (arpCache : List (List UInt8 × List UInt8)) (spa sha : List UInt8) :
    List (List UInt8 × List UInt8) :=
  if (arpCache.lookup spa).isSome then arpCache else arpCache ++ [(spa, sha)]

/-- An ARP request: it is answered when it is for the address of the server. -/
def arpRequested (config : Config) (m : LinkMessage) (sha spa tpa : List UInt8)
    (server : Server) : Option Server × List Output :=
  match addrEq tpa config.ip4Addr with
  | none => (none, [])
  | some false => (some server, [])
  | some true =>
    match arpReplyPacket config m.pl sha spa tpa, putAddr (List.replicate 6 0) 0 config.mac with
    | some packet, some source =>
      -- `assert(SPA != TPA)`
      if spa = tpa then (none, [])
      else (some server, [.arpReply m.sender source sha packet m.msgNr])
    | _, _ => (none, [])

/-- The loop body of `run_in` up to `register_resolve_reply`. -/
def receive (config : Config) (m : LinkMessage) (server : Server) : Option Server × List Output :=
  let sha := slice m.pl 8 6
  let spa := slice m.pl 14 4
  let tpa := slice m.pl 24 4
  if m.fromAddr.length ≠ 6 ∨ m.toAddr.length ≠ 6 then (some server, [])
  else if m.pl.length < 28 then (some server, [])
  else if getUint16 m.pl 0 ≠ 1 then (some server, [])
  else if getUint16 m.pl 2 ≠ 0x0800 then (some server, [])
  else if m.pl.getD 4 0 ≠ 6 then (some server, [])
  else if m.pl.getD 5 0 ≠ 4 then (some server, [])
  else if getUint16 m.pl 6 = 1 then arpRequested config m sha spa tpa server
  else if getUint16 m.pl 6 = 2 then
    (some { server with
      arpCache := insertArpCache server.arpCache spa sha
      registering := some ⟨sha, spa⟩ }, [])
  else (some server, [])

/-- The tests of `run_in` in front of the operation. -/
structure PassesTests (m : LinkMessage) : Prop where
  fromAddr : m.fromAddr.length = 6
  toAddr : m.toAddr.length = 6
  long : 28 ≤ m.pl.length
  hwType : getUint16 m.pl 0 = 1
  protoType : getUint16 m.pl 2 = 0x0800
  hwLength : m.pl.getD 4 0 = 6
  protoLength : m.pl.getD 5 0 = 4

section Tests

variable {m : LinkMessage}

theorem receive_of_passes (config : Config) (h : PassesTests m) (server : Server) :
    receive config m server =
      if getUint16 m.pl 6 = 1 then
        arpRequested config m (slice m.pl 8 6) (slice m.pl 14 4) (slice m.pl 24 4) server
      else if getUint16 m.pl 6 = 2 then
        (some { server with
          arpCache := insertArpCache server.arpCache (slice m.pl 14 4) (slice m.pl 8 6)
          registering := some ⟨slice m.pl 8 6, slice m.pl 14 4⟩ }, [])
      else (some server, []) := by
  unfold receive
  dsimp only
  rw [if_neg (by simp [h.fromAddr, h.toAddr]), if_neg (Nat.not_lt.mpr h.long),
    if_neg (not_not.mpr h.hwType), if_neg (not_not.mpr h.protoType),
    if_neg (not_not.mpr h.hwLength), if_neg (not_not.mpr h.protoLength)]

/-- A message that fails a test is dropped. -/
theorem receive_of_fails (config : Config) (h : ¬ PassesTests m) (server : Server) :
    receive config m server = (some server, []) := by
  unfold receive
  dsimp only
  by_cases haddresses : m.fromAddr.length ≠ 6 ∨ m.toAddr.length ≠ 6
  · exact if_pos haddresses
  rw [if_neg haddresses]
  by_cases hshort : m.pl.length < 28
  · exact if_pos hshort
  rw [if_neg hshort]
  by_cases hhtype : getUint16 m.pl 0 = 1
  swap
  · exact if_pos hhtype
  rw [if_neg (not_not.mpr hhtype)]
  by_cases hptype : getUint16 m.pl 2 = 0x0800
  swap
  · exact if_pos hptype
  rw [if_neg (not_not.mpr hptype)]
  by_cases hhlen : m.pl.getD 4 0 = 6
  swap
  · exact if_pos hhlen
  rw [if_neg (not_not.mpr hhlen)]
  by_cases hplen : m.pl.getD 5 0 = 4
  swap
  · exact if_pos hplen
  exact absurd ⟨by omega, by omega, by omega, hhtype, hptype, hhlen, hplen⟩ h

end Tests

/-- The rest of the loop body of `run_in` for an ARP reply. -/
def register (registering : Registering) (server : Server) : Option Server × List Output :=
  let result := registerResolveReply registering.sha registering.spa server.requests
  (result.1.map fun left ↦ { server with requests := left, registering := none },
    result.2.map Output.pushResolverReply)

/-! ### The server -/

/-- The steps of the two threads. -/
inductive Event
  | resolve (m : ResolverMessage)
  | push
  | receive (m : LinkMessage)
  | register

/-- A step of the server. A thread that is in the middle of its loop body takes no message, and one
that is not has nothing to go on with. -/
def step (config : Config) : Option Server → Event → Option Server × List Output
  | none, _ => (none, [])
  | some server, .resolve m =>
    if server.resolving.isSome then (some server, []) else resolve config m server
  | some server, .push =>
    match server.resolving with
    | none => (some server, [])
    | some resolving => pushRequest resolving server
  | some server, .receive m =>
    if server.registering.isSome then (some server, []) else receive config m server
  | some server, .register =>
    match server.registering with
    | none => (some server, [])
    | some registering => register registering server

/-- The server before the first message. -/
def Server.start : Server := ⟨[], [], none, none⟩

end MyIPNG.Arp
