import MyIPNG.Arp.Correlation
import MyIPNG.Arp.Resolution
import MyIPNG.Base.Reading

/-!
# What an ARP packet can do to the server

`run_in` takes whatever the link delivers. `readMessage` is its loop body with the reads of the
payload: they are inside for every payload (`below_readMessage`), and what it computes is what the
model of the server computes (`value_readMessage`).

A packet ends the server in two ways. The answer to a request is followed by `assert(SPA != TPA)`,
so a request in which a host announces the address of the server as its own is the last packet that
the server takes (`receive_announcement`). And `register_resolve_reply` compares as many bytes of
the addresses of an ARP reply as the waiting request has, so a request for a longer address makes it
read behind them. `withstands_iff` says that there is no other way, and that a request for the
address of the server gets the answer that is due.
-/

set_option autoImplicit false
set_option relaxedAutoImplicit false

namespace MyIPNG.Arp

open Base Utils

/-! ### The reads of the payload -/

/-- `get_uint16`, with its reads. -/
def readUint16 (memory : ℕ → UInt8) (index : ℕ) : Reading ℕ := do
  let high ← Reading.cell memory index
  let low ← Reading.cell memory (index + 1)
  return (high.toNat <<< 8) ||| low.toNat

/-- The tests of the first six bytes, which stop at the first one that fails. -/
def readTests (memory : ℕ → UInt8) : Reading Bool := do
  let hwType ← readUint16 memory 0
  if hwType ≠ 1 then return false
  else do
    let protoType ← readUint16 memory 2
    if protoType ≠ 0x0800 then return false
    else do
      let hwLength ← Reading.cell memory 4
      if hwLength ≠ 6 then return false
      else do
        let protoLength ← Reading.cell memory 5
        return protoLength = 4

/-- The addresses of an ARP packet and its operation. -/
structure Packet where
  sha : List UInt8
  spa : List UInt8
  tha : List UInt8
  tpa : List UInt8
  operation : ℕ

/-- The reads of the addresses and of the operation. -/
def readPacket (memory : ℕ → UInt8) : Reading Packet := do
  let sha ← Reading.block memory 8 6
  let spa ← Reading.block memory 14 4
  let tha ← Reading.block memory 18 6
  let tpa ← Reading.block memory 24 4
  let operation ← readUint16 memory 6
  return ⟨sha, spa, tha, tpa, operation⟩

/-- An ARP request: the payload is copied when it is for the address of the server. -/
def readRequested (config : Config) (m : LinkMessage) (memory : ℕ → UInt8) (packet : Packet)
    (server : Server) : Reading (Option Server × List Output) :=
  if addrEq packet.tpa config.ip4Addr = some true then do
    let payloadOut ← Reading.block memory 0 28
    return arpRequested config { m with pl := payloadOut } packet.sha packet.spa packet.tpa server
  else pure (arpRequested config m packet.sha packet.spa packet.tpa server)

/-- The loop body of `run_in` up to `register_resolve_reply` with its reads of the payload, which
`behind` follows in memory. -/
def readMessage (config : Config) (m : LinkMessage) (behind : ℕ → UInt8) (server : Server) :
    Reading (Option Server × List Output) :=
  let memory := Reading.memoryOf m.pl behind
  if m.fromAddr.length ≠ 6 ∨ m.toAddr.length ≠ 6 then pure (some server, [])
  else if m.pl.length < 28 then pure (some server, [])
  else do
    let passed ← readTests memory
    if passed = false then return (some server, [])
    else do
      let packet ← readPacket memory
      if packet.operation = 1 then readRequested config m memory packet server
      else if packet.operation = 2 then do
        -- The addresses of the sender are read once more.
        let sha ← Reading.block memory 8 6
        let spa ← Reading.block memory 14 4
        return (some { server with
          arpCache := insertArpCache server.arpCache spa sha
          registering := some ⟨sha, spa⟩ }, [])
      else return (some server, [])

section Reads

variable {config : Config} {m : LinkMessage} {server : Server} {behind : ℕ → UInt8}
  {pl : List UInt8} {n : ℕ}

@[simp] theorem below_readUint16 (memory : ℕ → UInt8) (index : ℕ) :
    (readUint16 memory index).Below n ↔ index + 1 < n := by
  simp only [readUint16, Reading.below_bind, Reading.below_cell, Reading.below_pure, and_true]
  omega

theorem value_readUint16 {index : ℕ} (h : index + 1 < pl.length) :
    (readUint16 (Reading.memoryOf pl behind) index).value = getUint16 pl index := by
  simp only [readUint16, Reading.value_bind, Reading.value_cell, Reading.value_pure, getUint16,
    Reading.memoryOf_of_lt h behind 0, Reading.memoryOf_of_lt (Nat.lt_of_succ_lt h) behind 0]

/-- The four tests. -/
theorem value_readTests (hlong : 28 ≤ pl.length) :
    (readTests (Reading.memoryOf pl behind)).value =
      decide (getUint16 pl 0 = 1 ∧ getUint16 pl 2 = 0x0800 ∧ pl.getD 4 0 = 6 ∧
        pl.getD 5 0 = 4) := by
  have hfour := Reading.memoryOf_of_lt (by omega : 4 < pl.length) behind 0
  have hfive := Reading.memoryOf_of_lt (by omega : 5 < pl.length) behind 0
  rw [readTests, Reading.value_bind, value_readUint16 (by omega)]
  split_ifs with hhtype
  · exact (decide_eq_false fun h ↦ hhtype h.1).symm
  rw [Reading.value_bind, value_readUint16 (by omega)]
  split_ifs with hptype
  · exact (decide_eq_false fun h ↦ hptype h.2.1).symm
  rw [Reading.value_bind, Reading.value_cell, hfour]
  split_ifs with hhlen
  · exact (decide_eq_false fun h ↦ hhlen h.2.2.1).symm
  rw [Reading.value_bind, Reading.value_cell, hfive, Reading.value_pure]
  rw [not_not] at hhtype hptype hhlen
  simp only [hhtype, hptype, hhlen, true_and]

theorem below_readTests (memory : ℕ → UInt8) (hlong : 28 ≤ n) : (readTests memory).Below n := by
  rw [readTests, Reading.below_bind, below_readUint16]
  refine ⟨by omega, ?_⟩
  split_ifs
  · exact Reading.below_pure _ _
  rw [Reading.below_bind, below_readUint16]
  refine ⟨by omega, ?_⟩
  split_ifs
  · exact Reading.below_pure _ _
  rw [Reading.below_bind, Reading.below_cell]
  refine ⟨by omega, ?_⟩
  split_ifs
  · exact Reading.below_pure _ _
  rw [Reading.below_bind, Reading.below_cell]
  exact ⟨by omega, Reading.below_pure _ _⟩

theorem value_readPacket (hlong : 28 ≤ pl.length) :
    (readPacket (Reading.memoryOf pl behind)).value =
      ⟨slice pl 8 6, slice pl 14 4, slice pl 18 6, slice pl 24 4, getUint16 pl 6⟩ := by
  simp only [readPacket, Reading.value_bind, Reading.value_pure, slice,
    value_readUint16 (by omega : 6 + 1 < pl.length),
    Reading.value_block_memoryOf (by omega : 8 + 6 ≤ pl.length) behind,
    Reading.value_block_memoryOf (by omega : 14 + 4 ≤ pl.length) behind,
    Reading.value_block_memoryOf (by omega : 18 + 6 ≤ pl.length) behind,
    Reading.value_block_memoryOf (by omega : 24 + 4 ≤ pl.length) behind]

theorem below_readPacket (memory : ℕ → UInt8) (hlong : 28 ≤ n) : (readPacket memory).Below n := by
  simp only [readPacket, Reading.below_bind, Reading.below_block, below_readUint16,
    Reading.below_pure, and_true]
  omega

/-- Of the payload of a request only the first 28 bytes count. -/
theorem arpRequested_copy (config : Config) (m : LinkMessage) (sha spa tpa : List UInt8)
    (server : Server) :
    arpRequested config { m with pl := slice m.pl 0 28 } sha spa tpa server =
      arpRequested config m sha spa tpa server := by
  simp only [arpRequested, arpReplyPacket, slice, List.drop_zero, List.take_take, min_self]

theorem value_readRequested (hlong : 28 ≤ m.pl.length) (packet : Packet) :
    (readRequested config m (Reading.memoryOf m.pl behind) packet server).value =
      arpRequested config m packet.sha packet.spa packet.tpa server := by
  rw [readRequested]
  split_ifs
  · rw [Reading.value_bind, Reading.value_block_memoryOf (by omega) behind, Reading.value_pure]
    exact arpRequested_copy config m packet.sha packet.spa packet.tpa server
  · exact Reading.value_pure _

theorem below_readRequested (memory : ℕ → UInt8) (hlong : 28 ≤ n) (packet : Packet) :
    (readRequested config m memory packet server).Below n := by
  rw [readRequested]
  split_ifs
  · rw [Reading.below_bind, Reading.below_block]
    exact ⟨by omega, Reading.below_pure _ _⟩
  · exact Reading.below_pure _ _

/-- The reads find what the server works with, whatever stands behind the payload. -/
theorem value_readMessage (config : Config) (m : LinkMessage) (behind : ℕ → UInt8)
    (server : Server) :
    (readMessage config m behind server).value = receive config m server := by
  rw [readMessage]
  by_cases hpasses : PassesTests m
  · obtain ⟨hfrom, hto, hlong, hhtype, hptype, hhlen, hplen⟩ := hpasses
    rw [receive_of_passes config ⟨hfrom, hto, hlong, hhtype, hptype, hhlen, hplen⟩ server,
      if_neg (by omega), if_neg (by omega), Reading.value_bind, value_readTests hlong,
      decide_eq_true ⟨hhtype, hptype, hhlen, hplen⟩, if_neg Bool.noConfusion,
      Reading.value_bind, value_readPacket hlong]
    dsimp only
    split_ifs with hrequest hreply
    · exact value_readRequested hlong _
    · rw [Reading.value_bind, Reading.value_bind, Reading.value_block_memoryOf (by omega),
        Reading.value_block_memoryOf (by omega)]
      rfl
    · rfl
  · rw [receive_of_fails config hpasses server]
    split_ifs with haddresses hshort
    · rfl
    · rfl
    · have hlong : 28 ≤ m.pl.length := by omega
      rw [Reading.value_bind, value_readTests hlong, decide_eq_false fun ⟨hhtype, hptype, hhlen,
        hplen⟩ ↦ hpasses ⟨by omega, by omega, hlong, hhtype, hptype, hhlen, hplen⟩]
      rfl

/-- No payload is read behind its end. -/
theorem below_readMessage (config : Config) (m : LinkMessage) (behind : ℕ → UInt8)
    (server : Server) : (readMessage config m behind server).Below m.pl.length := by
  rw [readMessage]
  split_ifs with haddresses hshort
  · exact Reading.below_pure _ _
  · exact Reading.below_pure _ _
  have hlong : 28 ≤ m.pl.length := by omega
  refine (Reading.below_bind _ _).mpr ⟨below_readTests _ hlong, ?_⟩
  split_ifs
  · exact Reading.below_pure _ _
  refine (Reading.below_bind _ _).mpr ⟨below_readPacket _ hlong, ?_⟩
  split_ifs
  · exact below_readRequested _ hlong _
  · simp only [Reading.below_bind, Reading.below_block, Reading.below_pure, and_true]
    omega
  · exact Reading.below_pure _ _

end Reads

/-! ### ARP packets among the payloads -/

/-- The payload is an ARP packet for Ethernet and IPv4 with the given operation and addresses,
whatever the link put behind it. -/
structure IsArp (operation : UInt8) (sha spa tha tpa pl : List UInt8) : Prop where
  sha_length : sha.length = 6
  spa_length : spa.length = 4
  tha_length : tha.length = 6
  tpa_length : tpa.length = 4
  bytes : arpBytes operation sha spa tha tpa <+: pl

/-- The operation and the sender's address of an ARP packet, where the payload has them. -/
theorem IsArp.fields {operation : UInt8} {sha spa tha tpa pl : List UInt8}
    (h : IsArp operation sha spa tha tpa pl) : pl.getD 7 0 = operation ∧ slice pl 14 4 = spa := by
  obtain ⟨hsha, hspa, htha, htpa, padding, rfl⟩ := h
  exact ⟨rfl, (fields_arpBytes hsha hspa htha htpa operation padding).2.2.1⟩

/-- The two bytes of a number. -/
theorem getD_of_getUint16 {pl : List UInt8} {index : ℕ} (high low : UInt8)
    (h : getUint16 pl index = high.toNat * 256 + low.toNat) :
    pl.getD index 0 = high ∧ pl.getD (index + 1) 0 = low := by
  have hread := (pl.getD (index + 1) 0).toNat_lt
  have hlow := low.toNat_lt
  rw [getUint16, ← Nat.shiftLeft_add_eq_or_of_lt hread, Nat.shiftLeft_eq] at h
  exact ⟨UInt8.toNat_inj.mp (by omega), UInt8.toNat_inj.mp (by omega)⟩

/-- A payload that passes the tests is an ARP packet. -/
theorem isArp_of_tests {m : LinkMessage} {operation : UInt8} (h : PassesTests m)
    (hoperation : getUint16 m.pl 6 = operation.toNat) :
    IsArp operation (slice m.pl 8 6) (slice m.pl 14 4) (slice m.pl 18 6) (slice m.pl 24 4)
      m.pl := by
  obtain ⟨-, -, hlong, hhtype, hptype, hhlen, hplen⟩ := h
  generalize m.pl = pl at *
  obtain ⟨hzero, hone⟩ := getD_of_getUint16 0 1 hhtype
  obtain ⟨htwo, hthree⟩ := getD_of_getUint16 8 0 hptype
  obtain ⟨hsix, hseven⟩ := getD_of_getUint16 0 operation (hoperation.trans (by simp))
  have hblock := Reading.value_block_memoryOf (by omega : 0 + 8 ≤ pl.length) fun _ ↦ 0
  have hfront : pl.take 8 = [0, 1, 8, 0, 6, 4, 0, operation] := by
    refine hblock.symm.trans ?_
    change [pl.getD 0 0, pl.getD 1 0, pl.getD 2 0, pl.getD 3 0, pl.getD 4 0, pl.getD 5 0,
      pl.getD 6 0, pl.getD 7 0] = _
    rw [hzero, hone, htwo, hthree, hhlen, hplen, hsix, hseven]
  have hbytes : arpBytes operation (slice pl 8 6) (slice pl 14 4) (slice pl 18 6)
      (slice pl 24 4) = pl.take 28 := by
    rw [arpBytes, ← hfront, take_append_slice, take_append_slice, take_append_slice,
      take_append_slice]
  exact ⟨length_slice _ _ _ (by omega), length_slice _ _ _ (by omega),
    length_slice _ _ _ (by omega), length_slice _ _ _ (by omega),
    hbytes ▸ List.take_prefix 28 pl⟩

section Received

variable {config : Config} {m : LinkMessage} {server : Server} {sha spa tha tpa : List UInt8}

/-- A message is an ARP request or an ARP reply, or it is dropped. -/
theorem receive_isArp_cases (config : Config) (m : LinkMessage) (server : Server) :
    (∃ sha spa tha tpa, IsArp 1 sha spa tha tpa m.pl) ∨
    (∃ sha spa tha tpa, IsArp 2 sha spa tha tpa m.pl) ∨
    receive config m server = (some server, []) := by
  by_cases hpasses : PassesTests m
  · rw [receive_of_passes config hpasses server]
    split_ifs with hrequest hreply
    · exact Or.inl ⟨_, _, _, _, isArp_of_tests hpasses hrequest⟩
    · exact Or.inr (Or.inl ⟨_, _, _, _, isArp_of_tests hpasses hreply⟩)
    · exact Or.inr (Or.inr rfl)
  · exact Or.inr (Or.inr (receive_of_fails config hpasses server))

/-- A request for another address is dropped. Assumes: addresses of the right lengths. -/
theorem receive_foreign (hip4 : config.ip4Addr.length = 4) (hfrom : m.fromAddr.length = 6)
    (hto : m.toAddr.length = 6) (harp : IsArp 1 sha spa tha tpa m.pl)
    (hother : tpa ≠ config.ip4Addr) : receive config m server = (some server, []) := by
  obtain ⟨padding, hpl⟩ := harp.bytes
  have hequal : addrEq tpa config.ip4Addr = some false := by
    rw [addrEq_of_length_eq (harp.tpa_length.trans hip4.symm), decide_eq_false hother.symm]
  rw [receive_arpBytes hfrom hto harp.sha_length harp.spa_length harp.tha_length harp.tpa_length
    hpl.symm, if_pos (by decide), arpRequested, hequal]

/-- A request in which the sender has the address of the server as well ends the server: the
assertion behind the answer fails. Assumes: link addresses of the right length. -/
theorem receive_announcement (hfrom : m.fromAddr.length = 6) (hto : m.toAddr.length = 6)
    (harp : IsArp 1 sha config.ip4Addr tha config.ip4Addr m.pl) :
    receive config m server = (none, []) := by
  obtain ⟨padding, hpl⟩ := harp.bytes
  rw [receive_arpBytes hfrom hto harp.sha_length harp.spa_length harp.tha_length harp.tpa_length
    hpl.symm, if_pos (by decide), arpRequested, addrEq_self]
  dsimp only
  split
  · exact if_pos rfl
  · rfl

end Received

/-! ### The requests that wait -/

/-- The comparison of the addresses of an ARP reply with those of a request stays inside of them:
the MAC address of the request is not longer, nor is its IPv4 address unless the MAC address is
found first. -/
def Request.Fits (sha spa : List UInt8) (item : Request) : Prop :=
  (∀ mac, item.mac = some mac → mac.length ≤ sha.length) ∧
  (∀ ip4, item.ip4 = some ip4 →
    ip4.length ≤ spa.length ∨ ∃ mac, item.mac = some mac ∧ mac <+: sha)

theorem addrEq_isSome_iff (a input : List UInt8) :
    (addrEq a input).isSome ↔ a.length ≤ input.length := by
  rw [addrEq]
  split_ifs with h
  · simp [h]
  · simp [h]

theorem addrEq_eq_some_true_iff (a input : List UInt8) :
    addrEq a input = some true ↔ a <+: input := by
  rw [addrEq, List.prefix_iff_eq_take]
  split_ifs with h
  · simp [eq_comm]
  · simp only [false_iff]
    intro htake
    have hlength := congrArg List.length htake
    rw [List.length_take] at hlength
    omega

theorem replyFor_isSome_iff (sha spa : List UInt8) (item : Request) :
    (replyFor sha spa item).isSome ↔ item.Fits sha spa := by
  obtain ⟨mac, ip4, searchedBy, msgNr⟩ := item
  have hip4 : (replyFor sha spa ⟨none, ip4, searchedBy, msgNr⟩).isSome ↔
      ∀ ip4', ip4 = some ip4' → ip4'.length ≤ spa.length := by
    cases ip4 with
    | none => simp [replyFor]
    | some ip4' => simp [replyFor, addrEq_isSome_iff]
  cases mac with
  | none =>
    rw [hip4]
    simp [Request.Fits]
  | some mac' =>
    have hlength := addrEq_isSome_iff mac' sha
    have hprefix := addrEq_eq_some_true_iff mac' sha
    cases hsame : addrEq mac' sha with
    | none =>
      have hlonger : ¬ mac'.length ≤ sha.length := by simpa [hsame] using hlength
      simp [replyFor, Request.Fits, hsame, hlonger]
    | some same =>
      have hfits : mac'.length ≤ sha.length := by simpa [hsame] using hlength
      cases same with
      | true =>
        have hfound : mac' <+: sha := by simpa [hsame] using hprefix
        simp [replyFor, Request.Fits, hsame, hfits, hfound]
      | false =>
        have hmissed : ¬ mac' <+: sha := by simpa [hsame] using hprefix
        have hnext : replyFor sha spa ⟨some mac', ip4, searchedBy, msgNr⟩ =
            replyFor sha spa ⟨none, ip4, searchedBy, msgNr⟩ := by
          simp only [replyFor, hsame]
        rw [hnext, hip4]
        simp [Request.Fits, hfits, hmissed]

/-- `register_resolve_reply` gets to the end of the list when all comparisons stay inside. -/
theorem registerResolveReply_isSome_iff (sha spa : List UInt8) (requests : List Request) :
    (registerResolveReply sha spa requests).1.isSome ↔
      ∀ item ∈ requests, item.Fits sha spa := by
  induction requests with
  | nil => simp [registerResolveReply]
  | cons item rest ih =>
    rw [List.forall_mem_cons, ← ih, ← replyFor_isSome_iff, registerResolveReply]
    cases hreply : replyFor sha spa item with
    | none => simp
    | some text =>
      cases text with
      | none => simp
      | some text => simp

/-! ### A message and the server -/

/-- The whole loop body of `run_in` for a message: the step that takes it and the one that answers
the list. The list is `requests` by then, since `run_resolver` may have added to it. -/
def runIn (config : Config) (m : LinkMessage) (server : Server) (requests : List Request) :
    Option Server × List Output :=
  let received := step config (some server) (.receive m)
  let registered := step config
    (received.1.map fun next ↦ { next with requests := requests }) .register
  (registered.1, received.2 ++ registered.2)

/-- The server goes on after the message, has read no byte outside of the payload, and has answered
a valid request for its address with the operation 2, its own addresses as the sender and those of
the requester as the target. -/
structure Withstands (config : Config) (m : LinkMessage) (behind : ℕ → UInt8) (server : Server)
    (requests : List Request) : Prop where
  goes_on : (runIn config m server requests).1.isSome
  reads_inside : (readMessage config m behind server).Below m.pl.length
  answers : ∀ sha spa tha, IsArp 1 sha spa tha config.ip4Addr m.pl →
    (runIn config m server requests).2 =
      [.arpReply m.sender config.mac sha (arpBytes 2 config.mac config.ip4Addr sha spa) m.msgNr]

section Survival

variable {config : Config} {m : LinkMessage} {server next : Server} {outputs : List Output}
  {requests : List Request} {sha spa tha tpa : List UInt8}

/-- At the top of the loop the first of the two steps takes the message. -/
theorem runIn_of_received (hidle : server.registering = none) {received : Option Server}
    (hreceive : receive config m server = (received, outputs))
    {registered : Option Server × List Output}
    (hregister : step config (received.map fun next ↦ { next with requests := requests })
      .register = registered) :
    runIn config m server requests = (registered.1, outputs ++ registered.2) := by
  have hstep : step config (some server) (.receive m) = (received, outputs) := by
    rw [step, hidle, ← hreceive]
    rfl
  rw [runIn, hstep, ← hregister]

theorem runIn_of_ended (hidle : server.registering = none)
    (hreceive : receive config m server = (none, outputs)) :
    runIn config m server requests = (none, outputs) := by
  rw [runIn_of_received hidle hreceive rfl]
  exact congrArg (Prod.mk none) (List.append_nil outputs)

theorem runIn_of_done (hidle : server.registering = none)
    (hreceive : receive config m server = (some server, outputs)) :
    runIn config m server requests = (some { server with requests := requests }, outputs) := by
  rw [runIn_of_received hidle hreceive rfl]
  simp only [Option.map_some, step, hidle, List.append_nil]

theorem runIn_of_registering (hidle : server.registering = none)
    (hreceive : receive config m server = (some next, outputs))
    (hregistering : next.registering = some ⟨sha, spa⟩) :
    (runIn config m server requests).1.isSome ↔
      (registerResolveReply sha spa requests).1.isSome := by
  rw [runIn_of_received hidle hreceive rfl]
  simp only [Option.map_some, step, hregistering, register, Option.isSome_map]

/-- An ARP reply is dealt with when no comparison with the list reads behind its addresses. Assumes:
link addresses of the right length, and `run_in` at the top of its loop. -/
theorem runIn_reply_isSome_iff (hfrom : m.fromAddr.length = 6) (hto : m.toAddr.length = 6)
    (hidle : server.registering = none) (harp : IsArp 2 sha spa tha tpa m.pl) :
    (runIn config m server requests).1.isSome ↔ ∀ item ∈ requests, item.Fits sha spa := by
  obtain ⟨padding, hpl⟩ := harp.bytes
  rw [runIn_of_registering hidle (receive_reply hfrom hto harp.sha_length harp.spa_length
    harp.tha_length harp.tpa_length hpl.symm) rfl]
  exact registerResolveReply_isSome_iff sha spa requests

/-- A request of another host for the address of the server is answered. Assumes: addresses of the
right lengths, and `run_in` at the top of its loop. -/
theorem runIn_request (hmac : config.mac.length = 6) (hfrom : m.fromAddr.length = 6)
    (hto : m.toAddr.length = 6) (hidle : server.registering = none)
    (harp : IsArp 1 sha spa tha config.ip4Addr m.pl) (hother : spa ≠ config.ip4Addr) :
    runIn config m server requests = (some { server with requests := requests },
      [.arpReply m.sender config.mac sha
        (arpBytes 2 config.mac config.ip4Addr sha spa) m.msgNr]) := by
  obtain ⟨padding, hpl⟩ := harp.bytes
  exact runIn_of_done hidle (receive_request hmac hfrom hto harp.sha_length harp.spa_length
    harp.tha_length harp.tpa_length rfl hother hpl.symm)

/-- Exactly when a message does the server no harm: it is not a request with the address of the
server as the sender's, and an ARP reply finds no request for a longer address in the list. Assumes:
own addresses and link addresses of the right lengths, and `run_in` at the top of its loop. -/
theorem withstands_iff (hip4 : config.ip4Addr.length = 4) (hmac : config.mac.length = 6)
    (hfrom : m.fromAddr.length = 6) (hto : m.toAddr.length = 6)
    (hidle : server.registering = none) (behind : ℕ → UInt8) (requests : List Request) :
    Withstands config m behind server requests ↔
      (∀ sha tha, ¬ IsArp 1 sha config.ip4Addr tha config.ip4Addr m.pl) ∧
      (∀ sha spa tha tpa, IsArp 2 sha spa tha tpa m.pl →
        ∀ item ∈ requests, item.Fits sha spa) := by
  constructor
  · intro h
    refine ⟨fun sha tha harp ↦ ?_, fun sha spa tha tpa harp ↦
      (runIn_reply_isSome_iff hfrom hto hidle harp).mp h.goes_on⟩
    have hended : runIn config m server requests = (none, []) :=
      runIn_of_ended hidle (receive_announcement hfrom hto harp)
    have hgoes := h.goes_on
    rw [hended] at hgoes
    exact absurd hgoes Bool.false_ne_true
  · rintro ⟨hannounced, hfits⟩
    have hother : ∀ sha spa tha, IsArp 1 sha spa tha config.ip4Addr m.pl →
        spa ≠ config.ip4Addr := by
      rintro sha spa tha harp rfl
      exact hannounced sha tha harp
    refine ⟨?_, below_readMessage config m behind server, fun sha spa tha harp ↦
      congrArg Prod.snd (runIn_request hmac hfrom hto hidle harp (hother sha spa tha harp))⟩
    rcases receive_isArp_cases config m server with
      ⟨sha, spa, tha, tpa, harp⟩ | ⟨sha, spa, tha, tpa, harp⟩ | hdropped
    · by_cases hown : tpa = config.ip4Addr
      · subst hown
        rw [runIn_request hmac hfrom hto hidle harp (hother sha spa tha harp)]
        rfl
      · rw [runIn_of_done hidle (receive_foreign hip4 hfrom hto harp hown)]
        rfl
    · exact (runIn_reply_isSome_iff hfrom hto hidle harp).mpr (hfits sha spa tha tpa harp)
    · rw [runIn_of_done hidle hdropped]
      rfl

end Survival

/-- A request of 10.0.0.2 for the address of the server. -/
def sampleArpRequest : LinkMessage where
  sender := ascii "eth"
  msgNr := 1
  fromAddr := [2, 0, 0, 0, 0, 2]
  toAddr := bcAddr
  pl := arpBytes 1 [2, 0, 0, 0, 0, 2] [10, 0, 0, 2] [0, 0, 0, 0, 0, 0] [10, 0, 0, 1]

/-- The server withstands the request, and answers it. -/
theorem withstands_sample_request :
    Withstands sampleConfig sampleArpRequest (fun _ ↦ 0) Server.start [] ∧
      (runIn sampleConfig sampleArpRequest Server.start []).2 =
        [.arpReply (ascii "eth") [2, 0, 0, 0, 0, 1] [2, 0, 0, 0, 0, 2]
          (arpBytes 2 [2, 0, 0, 0, 0, 1] [10, 0, 0, 1] [2, 0, 0, 0, 0, 2] [10, 0, 0, 2]) 1] := by
  refine ⟨(withstands_iff rfl rfl rfl rfl rfl _ _).mpr ⟨fun sha tha harp ↦ ?_,
    fun sha spa tha tpa harp ↦ ?_⟩, by decide +kernel⟩
  · exact absurd harp.fields.2 (by decide +kernel)
  · exact absurd harp.fields.1 (by decide +kernel)

/-- The announcement of a host that has the address of the server as well. -/
def sampleAnnouncement : LinkMessage where
  sender := ascii "eth"
  msgNr := 1
  fromAddr := [2, 0, 0, 0, 0, 9]
  toAddr := bcAddr
  pl := arpBytes 1 [2, 0, 0, 0, 0, 9] [10, 0, 0, 1] [0, 0, 0, 0, 0, 0] [10, 0, 0, 1]

/-- The announcement ends the server. -/
theorem announcement_ends_server :
    sampleConfig.ip4Addr.length = 4 ∧ sampleConfig.mac.length = 6 ∧
      sampleAnnouncement.fromAddr.length = 6 ∧ sampleAnnouncement.toAddr.length = 6 ∧
      ∀ behind, ¬ Withstands sampleConfig sampleAnnouncement behind Server.start [] := by
  refine ⟨rfl, rfl, rfl, rfl, fun behind h ↦ ?_⟩
  have hended : (runIn sampleConfig sampleAnnouncement Server.start []).1 = none := by
    decide +kernel
  have hgoes := h.goes_on
  rw [hended] at hgoes
  exact absurd hgoes Bool.false_ne_true

end MyIPNG.Arp
