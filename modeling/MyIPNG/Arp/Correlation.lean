import MyIPNG.Arp.Resolver
import MyIPNG.Base.Ledger

/-!
# Replies of the resolver and their requests

Every reply that the ARP server pushes should carry the number of a request of its receiver, for the
address that the reply names, and no request should be answered twice. Two of the three places that
answer a request have the message at hand. The third answers from the record `request`, and
`run_resolver` never sets the `msg_nr` of that record: what a requester gets later is the number
that happened to be in memory (`deferred_reply_uncorrelated`).

The number is the only thing that goes wrong. In a run in which every request that has to wait
happens to keep its number, and so in every run in which none has to wait, the replies are
correlated with their requests (`replies_correlated`). The ledger of the run is the invariant: the
items are the requests in the list and the one that `run_resolver` is about to put there.
-/

set_option autoImplicit false
set_option relaxedAutoImplicit false

namespace MyIPNG.Arp

open Base Utils

/-! ### The property -/

/-- The messages for the resolver among the events of a run. -/
def requestsIn (events : List Event) : List ResolverMessage :=
  events.filterMap fun
    | .resolve m => some m
    | _ => none

/-- The replies among the outputs of a run. -/
def repliesIn (outputs : List Output) : List Reply :=
  outputs.filterMap fun
    | .pushResolverReply reply => some reply
    | _ => none

/-- A reply goes to the sender of a request, with its number, and names the address that it
searched for. -/
def Answers (reply : Reply) (m : ResolverMessage) : Prop :=
  reply.receiver = m.sender ∧ reply.msgNr = m.msgNr ∧
    match command m with
    | .searchMac ip4 => ∃ mac, reply.text = macReply ip4 mac
    | .searchIp4 mac => ∃ ip4, reply.text = ip4Reply mac ip4
    | _ => False

/-- Every reply answers a request of its own. -/
def Correlated (events : List Event) (outputs : List Output) : Prop :=
  ∃ answered : List ResolverMessage, answered.Subperm (requestsIn events) ∧
    List.Forall₂ Answers (repliesIn outputs) answered

/-- A request that the server takes and can not answer at once: it has to ask the link. -/
def deferred (config : Config) (server : Server) (m : ResolverMessage) : Bool :=
  server.resolving.isNone &&
    match command m with
    | .searchMac ip4 => knownMac config server.arpCache ip4 == some none
    | .searchIp4 _ => true
    | _ => false

/-- A request that has to wait finds its own number in the record. -/
def NumberKept (config : Config) : Option Server → Event → Prop
  | some server, .resolve m => deferred config server m = true → m.freshMsgNr = m.msgNr
  | _, _ => True

instance decidableNumberKept (config : Config) :
    ∀ state event, Decidable (NumberKept config state event)
  | some server, .resolve m =>
    inferInstanceAs (Decidable (deferred config server m = true → m.freshMsgNr = m.msgNr))
  | some _, .push => isTrue trivial
  | some _, .receive _ => isTrue trivial
  | some _, .register => isTrue trivial
  | none, _ => isTrue trivial

/-! ### The invariant -/

/-- A record was made for a request. -/
def WaitsFor (item : Request) (m : ResolverMessage) : Prop :=
  item.searchedBy = m.sender ∧ item.msgNr = m.msgNr ∧
    match command m with
    | .searchMac ip4 => item.mac = none ∧ item.ip4 = some ip4
    | .searchIp4 mac => item.mac = some mac ∧ item.ip4 = none
    | _ => False

/-- The records of a server: those in the list and the one on its way there. -/
def recordsOf : Option Server → List Request
  | none => []
  | some server => server.requests ++ (server.resolving.map Resolving.request).toList

/-- The ledger of a run of the server. -/
def CorrelationInvariant (events : List Event) (state : Option Server) (outputs : List Output) :
    Prop :=
  Ledger WaitsFor Answers (requestsIn events) (recordsOf state) (repliesIn outputs)

section Steps

variable {config : Config} {events : List Event} {outputs : List Output}

@[simp] theorem repliesIn_append (first second : List Output) :
    repliesIn (first ++ second) = repliesIn first ++ repliesIn second :=
  List.filterMap_append

@[simp] theorem repliesIn_map (replies : List Reply) :
    repliesIn (replies.map Output.pushResolverReply) = replies := by
  simp [repliesIn, List.filterMap_map]

theorem requestsIn_snoc (events : List Event) (event : Event) :
    requestsIn (events ++ [event]) = requestsIn events ++ requestsIn [event] :=
  List.filterMap_append

theorem requestsIn_resolve (events : List Event) (m : ResolverMessage) :
    requestsIn (events ++ [.resolve m]) = requestsIn events ++ [m] :=
  requestsIn_snoc events (.resolve m)

@[simp] theorem repliesIn_nil : repliesIn [] = [] := rfl

theorem replyFor_ip4 (sha spa : List UInt8) {item : Request} {ip4 : List UInt8}
    (hmac : item.mac = none) (hip4 : item.ip4 = some ip4) :
    replyFor sha spa item =
      (addrEq ip4 spa).map fun same ↦ if same then some (macReply ip4 sha) else none := by
  simp only [replyFor, hmac, hip4]

theorem replyFor_mac (sha spa : List UInt8) {item : Request} {mac : List UInt8}
    (hmac : item.mac = some mac) (hip4 : item.ip4 = none) :
    replyFor sha spa item =
      (addrEq mac sha).map fun same ↦ if same then some (ip4Reply mac spa) else none := by
  simp only [replyFor, hmac, hip4]
  rcases addrEq mac sha with _ | _ | _ <;> rfl

/-- The text that a comparison of addresses lets through. -/
theorem eq_of_map_addrEq {a b text reply : List UInt8}
    (h : ((addrEq a b).map fun same ↦ if same then some reply else none) = some (some text)) :
    text = reply := by
  obtain ⟨same, -, hsame⟩ := Option.map_eq_some_iff.mp h
  split_ifs at hsame
  exact (Option.some.inj hsame).symm

/-- What answers an item is right for every request that the item waits for. -/
theorem answers_of_replyFor {sha spa : List UInt8} {item : Request} {text : List UInt8}
    (h : replyFor sha spa item = some (some text)) {m : ResolverMessage} (hm : WaitsFor item m) :
    Answers ⟨item.searchedBy, text, item.msgNr⟩ m := by
  obtain ⟨hsender, hnumber, hsearch⟩ := hm
  refine ⟨hsender, hnumber, ?_⟩
  cases hcommand : command m with
  | searchMac ip4 =>
    rw [hcommand] at hsearch
    rw [replyFor_ip4 sha spa hsearch.1 hsearch.2] at h
    exact ⟨sha, eq_of_map_addrEq h⟩
  | searchIp4 mac =>
    rw [hcommand] at hsearch
    rw [replyFor_mac sha spa hsearch.1 hsearch.2] at h
    exact ⟨spa, eq_of_map_addrEq h⟩
  | invalid =>
    rw [hcommand] at hsearch
    exact hsearch
  | fault =>
    rw [hcommand] at hsearch
    exact hsearch

/-- `register_resolve_reply` settles items. -/
theorem ledger_registerResolveReply (sha spa : List UInt8) {requests : List ResolverMessage}
    (items : List Request) {front back : List Request} {given : List Reply}
    (h : Ledger WaitsFor Answers requests (front ++ items ++ back) given) :
    let result := registerResolveReply sha spa items
    Ledger WaitsFor Answers requests
      ((result.1.map fun left ↦ front ++ left ++ back).getD []) (given ++ result.2) := by
  induction items generalizing front given with
  | nil => simpa [registerResolveReply] using h
  | cons item rest ih =>
    simp only [registerResolveReply]
    rcases hreply : replyFor sha spa item with _ | _ | text
    · simpa using h.forget
    · have hmoved : Ledger WaitsFor Answers requests (front ++ [item] ++ rest ++ back) given := by
        simpa using h
      simpa [Function.comp_def] using ih hmoved
    · rw [List.append_assoc, List.cons_append] at h
      have hsettled := h.settle fun m hm ↦ answers_of_replyFor hreply hm
      rw [← List.append_assoc] at hsettled
      simpa using ih hsettled

/-! ### One step -/

/-- A message for the resolver. -/
theorem correlationInvariant_resolve {server : Server} {m : ResolverMessage}
    (h : CorrelationInvariant events (some server) outputs)
    (hkept : NumberKept config (some server) (.resolve m)) :
    let result := step config (some server) (.resolve m)
    CorrelationInvariant (events ++ [.resolve m]) result.1 (outputs ++ result.2) := by
  unfold CorrelationInvariant at *
  have hnote : ∀ item : Request, server.resolving = none → WaitsFor item m →
      Ledger WaitsFor Answers (requestsIn events ++ [m]) (server.requests ++ [item])
        (repliesIn outputs) := by
    intro item hidle hitem
    have hledger := h.note hitem
    rwa [recordsOf, hidle, Option.map_none, Option.toList_none, List.append_nil] at hledger
  dsimp only
  rw [requestsIn_resolve, repliesIn_append]
  by_cases hbusy : server.resolving.isSome
  · simpa [step, hbusy] using h.ignore m
  have hidle : server.resolving = none := by simpa using hbusy
  simp only [step, hbusy, Bool.false_eq_true, if_false, resolve]
  cases hcommand : command m with
  | searchMac ip4 =>
    rcases hknown : knownMac config server.arpCache ip4 with _ | _ | mac
    · simpa [hknown, recordsOf] using (h.ignore m).forget
    · have hnumber : m.freshMsgNr = m.msgNr := hkept (by simp [deferred, hidle, hcommand, hknown])
      have hitem : WaitsFor ⟨none, some ip4, m.sender, m.freshMsgNr⟩ m := by
        refine ⟨rfl, hnumber, ?_⟩
        rw [hcommand]
        exact ⟨rfl, rfl⟩
      simpa [hknown, recordsOf] using hnote _ hidle hitem
    · have hreply : Answers ⟨m.sender, macReply ip4 mac, m.msgNr⟩ m := by
        refine ⟨rfl, rfl, ?_⟩
        rw [hcommand]
        exact ⟨mac, rfl⟩
      simp only [hknown]
      exact h.answer hreply
  | searchIp4 mac =>
    have hnumber : m.freshMsgNr = m.msgNr := hkept (by simp [deferred, hidle, hcommand])
    have hitem : WaitsFor ⟨some mac, none, m.sender, m.freshMsgNr⟩ m := by
      refine ⟨rfl, hnumber, ?_⟩
      rw [hcommand]
      exact ⟨rfl, rfl⟩
    simpa [recordsOf] using hnote _ hidle hitem
  | invalid => simpa using h.ignore m
  | fault => simpa [recordsOf] using (h.ignore m).forget

/-- What a step that gives no reply does: the server ends, or its records stay. -/
def Quiet (server : Server) (result : Option Server × List Output) : Prop :=
  (recordsOf result.1 = recordsOf (some server) ∨ result.1 = none) ∧ repliesIn result.2 = []

theorem quiet_self (server : Server) : Quiet server (some server, []) := ⟨Or.inl rfl, rfl⟩

/-- Such a step keeps the ledger. -/
theorem CorrelationInvariant.quiet {server : Server} {result : Option Server × List Output}
    {event : Event} (h : CorrelationInvariant events (some server) outputs)
    (hrequest : requestsIn [event] = []) (hquiet : Quiet server result) :
    CorrelationInvariant (events ++ [event]) result.1 (outputs ++ result.2) := by
  unfold CorrelationInvariant at *
  rw [requestsIn_snoc, hrequest, List.append_nil, repliesIn_append, hquiet.2, List.append_nil]
  rcases hquiet.1 with hsame | hended
  · rwa [hsame]
  · rw [hended]
    exact h.forget

theorem quiet_arpRequested (config : Config) (m : LinkMessage) (sha spa tpa : List UInt8)
    (server : Server) : Quiet server (arpRequested config m sha spa tpa server) := by
  unfold arpRequested
  split
  · exact ⟨Or.inr rfl, rfl⟩
  · exact quiet_self server
  · split
    · split_ifs
      · exact ⟨Or.inr rfl, rfl⟩
      · exact ⟨Or.inl rfl, rfl⟩
    · exact ⟨Or.inr rfl, rfl⟩

/-- A record on its way to the list gets there. -/
theorem quiet_pushRequest {server : Server} {resolving : Resolving}
    (h : server.resolving = some resolving) : Quiet server (pushRequest resolving server) := by
  unfold pushRequest
  split
  · exact ⟨Or.inr rfl, rfl⟩
  · refine ⟨Or.inl ?_, rfl⟩
    simp [recordsOf, h]

/-- An ARP packet gives no reply and leaves the records alone. -/
theorem quiet_receive (config : Config) (m : LinkMessage) (server : Server) :
    Quiet server (receive config m server) := by
  by_cases hpasses : PassesTests m
  · rw [receive_of_passes config hpasses server]
    split_ifs
    · exact quiet_arpRequested config m _ _ _ server
    · exact ⟨Or.inl rfl, rfl⟩
    · exact quiet_self server
  · rw [receive_of_fails config hpasses server]
    exact quiet_self server

/-- An ARP reply answers the requests that wait for it. -/
theorem correlationInvariant_register {server : Server} {registering : Registering}
    (h : CorrelationInvariant events (some server) outputs) :
    let result := register registering server
    CorrelationInvariant (events ++ [.register]) result.1 (outputs ++ result.2) := by
  unfold CorrelationInvariant at *
  have hrequests : requestsIn (events ++ [.register]) = requestsIn events := by
    rw [requestsIn_snoc]
    exact List.append_nil _
  have hall : Ledger WaitsFor Answers (requestsIn events) ([] ++ server.requests ++
      (server.resolving.map Resolving.request).toList) (repliesIn outputs) := h
  have hledger := ledger_registerResolveReply registering.sha registering.spa server.requests hall
  simp only [register]
  rw [hrequests, repliesIn_append, repliesIn_map]
  rcases hleft : (registerResolveReply registering.sha registering.spa server.requests).1
    with _ | left
  · simpa [hleft, recordsOf] using hledger
  · simpa [hleft, recordsOf] using hledger

/-- A server that has ended does nothing. -/
theorem correlationInvariant_ended (h : CorrelationInvariant events none outputs) (event : Event) :
    CorrelationInvariant (events ++ [event]) none outputs := by
  unfold CorrelationInvariant at *
  cases event with
  | resolve m =>
    rw [requestsIn_resolve]
    exact h.ignore m
  | push | receive | register =>
    rw [requestsIn_snoc]
    exact (List.append_nil (requestsIn events)).symm ▸ h

/-- Every step keeps the invariant. -/
theorem correlationInvariant_step {state : Option Server} {event : Event}
    (h : CorrelationInvariant events state outputs) (hkept : NumberKept config state event) :
    CorrelationInvariant (events ++ [event]) (step config state event).1
      (outputs ++ (step config state event).2) := by
  cases state with
  | none =>
    rw [step, List.append_nil]
    exact correlationInvariant_ended h event
  | some server =>
    have hself := quiet_self server
    cases event with
    | resolve m => exact correlationInvariant_resolve h hkept
    | push =>
      rw [step]
      cases hresolving : server.resolving with
      | none => exact h.quiet rfl hself
      | some resolving => exact h.quiet rfl (quiet_pushRequest hresolving)
    | receive m =>
      rw [step]
      split_ifs
      · exact h.quiet rfl hself
      · exact h.quiet rfl (quiet_receive config m server)
    | register =>
      rw [step]
      cases server.registering with
      | none => exact h.quiet rfl hself
      | some registering => exact correlationInvariant_register h

end Steps

/-! ### Runs -/

/-- The replies of a run are correlated with their requests. Assumes: every request that has to
wait finds its own number in the record that is made for it. -/
theorem replies_correlated (config : Config) {events : List Event}
    (hkept : Along (step config) (NumberKept config) (some Server.start) events) :
    Correlated events (run (step config) (some Server.start) events).2 := by
  have hstart : CorrelationInvariant [] (some Server.start) [] := Ledger.nil
  have hrun := run_induction hstart
    (fun _ _ _ _ hinvariant hnumber ↦ correlationInvariant_step hinvariant hnumber) hkept
  exact hrun.answered

/-- A server at 10.0.0.1. -/
def sampleConfig : Config := ⟨[10, 0, 0, 1], [2, 0, 0, 0, 0, 1]⟩

/-- A request of the IPv4 server for an address. -/
def sampleQuery (msgNr : UInt64) (address : String) (freshMsgNr : UInt64) : ResolverMessage :=
  ⟨ascii "ip4", msgNr, ascii "search-mac=" ++ ascii address, fun _ ↦ 0, freshMsgNr⟩

/-- The ARP reply of 10.0.0.2. -/
def sampleArpReply : LinkMessage where
  sender := ascii "eth"
  msgNr := 1
  fromAddr := [2, 0, 0, 0, 0, 2]
  toAddr := [2, 0, 0, 0, 0, 1]
  pl := [0, 1, 8, 0, 6, 4, 0, 2, 2, 0, 0, 0, 0, 2, 10, 0, 0, 2, 2, 0, 0, 0, 0, 1, 10, 0, 0, 1]

/-- A request for the address of the server, one that waits and finds its number in the record, and
one that the cache answers. -/
theorem replies_correlated_three :
    let events := [Event.resolve (sampleQuery 7 "10.0.0.1" 99),
      .resolve (sampleQuery 8 "10.0.0.2" 8), .push, .receive sampleArpReply, .register,
      .resolve (sampleQuery 9 "10.0.0.2" 99)]
    let outputs := (run (step sampleConfig) (some Server.start) events).2
    (repliesIn outputs).map Reply.msgNr = [7, 8, 9] ∧ Correlated events outputs := by
  intro events outputs
  have hkept : Along (step sampleConfig) (NumberKept sampleConfig) (some Server.start) events := by
    decide +kernel
  exact ⟨by decide +kernel, replies_correlated sampleConfig hkept⟩

/-- The reply to a request that had to wait, with the number that was in memory. -/
theorem deferred_reply_uncorrelated :
    let events := [Event.resolve (sampleQuery 7 "10.0.0.2" 99), .push, .receive sampleArpReply,
      .register]
    ¬ Correlated events (run (step sampleConfig) (some Server.start) events).2 := by
  intro events
  rintro ⟨answered, hsubperm, hanswers⟩
  have hreplies : (repliesIn (run (step sampleConfig) (some Server.start) events).2) =
      [⟨ascii "ip4", macReply [10, 0, 0, 2] [2, 0, 0, 0, 0, 2], 99⟩] := by
    decide +kernel
  rw [hreplies] at hanswers
  obtain ⟨m, rest, hanswer, -, rfl⟩ := List.forall₂_cons_left_iff.mp hanswers
  have hmem : m ∈ requestsIn events := hsubperm.subset List.mem_cons_self
  obtain rfl : m = sampleQuery 7 "10.0.0.2" 99 := List.mem_singleton.mp hmem
  exact absurd hanswer.2.1 (by decide)

end MyIPNG.Arp
