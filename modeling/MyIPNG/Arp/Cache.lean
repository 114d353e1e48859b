import MyIPNG.Arp.Correlation

/-!
# The ARP cache and the latest answer

An ARP reply reaches other servers in two ways: `run_in` hands its MAC address to the requests that
wait, and it stands in the cache for those that come later. The insertion into the cache keeps an
entry that is there, so the two agree only as long as no host changes its MAC address.

The machine of this module keeps a log of the ARP replies that `run_in` takes. `CacheAgrees` is the
claim of the cache: an answer from it names the MAC address of the last reply in the log with that
address, which is also what the requests got that were waiting for it. It holds in every run in
which a reply for an address of the cache names the MAC address of its entry (`cache_agrees`).
-/

set_option autoImplicit false
set_option relaxedAutoImplicit false

namespace MyIPNG.Arp

open Base Utils

/-! ### The replies of a run -/

/-- The sender addresses of a message that is a valid ARP reply, the IPv4 address first. -/
def arpReplyOf (m : LinkMessage) : Option (List UInt8 × List UInt8) :=
  if m.fromAddr.length = 6 ∧ m.toAddr.length = 6 ∧ 28 ≤ m.pl.length ∧ getUint16 m.pl 0 = 1 ∧
      getUint16 m.pl 2 = 0x0800 ∧ m.pl.getD 4 0 = 6 ∧ m.pl.getD 5 0 = 4 ∧ getUint16 m.pl 6 = 2 then
    some (slice m.pl 14 4, slice m.pl 8 6)
  else none

/-- The ARP reply that a step takes: `run_in` takes no message in the middle of its loop body. -/
def replyTaken : Option Server → Event → Option (List UInt8 × List UInt8)
  | some server, .receive m => if server.registering.isSome then none else arpReplyOf m
  | _, _ => none

/-- The server with the log of the ARP replies that it has taken. -/
def logged (config : Config) (state : Option Server × List (List UInt8 × List UInt8))
    (event : Event) : (Option Server × List (List UInt8 × List UInt8)) × List Output :=
  (((step config state.1 event).1, state.2 ++ (replyTaken state.1 event).toList),
    (step config state.1 event).2)

/-- The MAC address of the last reply with the given address. -/
def latest (log : List (List UInt8 × List UInt8)) (ip4 : List UInt8) : Option (List UInt8) :=
  log.reverse.lookup ip4

/-- A request that is answered from the cache gets the MAC address of the last reply for its
address, and so do the requests that `register_resolve_reply` answers. -/
def CacheAgrees (config : Config) (state : Option Server × List (List UInt8 × List UInt8))
    (event : Event) : Prop :=
  ∀ server, state.1 = some server →
    (∀ m ip4 cached, event = .resolve m → server.resolving = none → command m = .searchMac ip4 →
      addrEq ip4 config.ip4Addr = some false →
      findArpCache server.arpCache ip4 = some (some cached) →
        ∃ mac, latest state.2 ip4 = some mac ∧ (step config state.1 event).2 =
          [.pushResolverReply ⟨m.sender, macReply ip4 mac, m.msgNr⟩]) ∧
    (∀ registering, event = .register → server.registering = some registering →
      latest state.2 registering.spa = some registering.sha)

/-- A reply for an address of the cache names the MAC address of its entry. -/
def SameMac (state : Option Server × List (List UInt8 × List UInt8)) (event : Event) : Prop :=
  ∀ server ∈ state.1, ∀ reply ∈ replyTaken state.1 event,
    server.arpCache.lookup reply.1 = none ∨ server.arpCache.lookup reply.1 = some reply.2

instance decidableSameMac (state : Option Server × List (List UInt8 × List UInt8))
    (event : Event) : Decidable (SameMac state event) :=
  inferInstanceAs (Decidable (∀ server ∈ state.1, ∀ reply ∈ replyTaken state.1 event, _ ∨ _))

/-! ### The invariant -/

/-- The cache has the last reply of each address, and so has `run_in` in the middle of its loop
body. -/
structure IsLatest (server : Server) (log : List (List UInt8 × List UInt8)) : Prop where
  cache : ∀ ip4, server.arpCache.lookup ip4 = latest log ip4
  registering : ∀ registering, server.registering = some registering →
    latest log registering.spa = some registering.sha

theorem latest_snoc_self (log : List (List UInt8 × List UInt8)) (ip4 mac : List UInt8) :
    latest (log ++ [(ip4, mac)]) ip4 = some mac := by
  simp [latest]

theorem latest_snoc_other (log : List (List UInt8 × List UInt8)) {ip4 other : List UInt8}
    (mac : List UInt8) (h : other ≠ ip4) :
    latest (log ++ [(ip4, mac)]) other = latest log other := by
  have hkey : (other == ip4) = false := by simpa using h
  simp [latest, List.lookup_cons, hkey]

/-- What `run_in` does with a message: it takes an ARP reply, or it leaves cache and requests
alone. -/
theorem receive_cases (config : Config) (m : LinkMessage) (server : Server) :
    (∃ spa sha, arpReplyOf m = some (spa, sha) ∧ (receive config m server).1 =
      some { server with
        arpCache := insertArpCache server.arpCache spa sha
        registering := some ⟨sha, spa⟩ }) ∨
    (arpReplyOf m = none ∧
      ((receive config m server).1 = some server ∨ (receive config m server).1 = none)) := by
  have hrequested : (arpRequested config m (slice m.pl 8 6) (slice m.pl 14 4) (slice m.pl 24 4)
      server).1 = some server ∨ (arpRequested config m (slice m.pl 8 6) (slice m.pl 14 4)
        (slice m.pl 24 4) server).1 = none := by
    unfold arpRequested
    split
    · exact Or.inr rfl
    · exact Or.inl rfl
    · split
      · split_ifs
        · exact Or.inr rfl
        · exact Or.inl rfl
      · exact Or.inr rfl
  by_cases hreply : m.fromAddr.length = 6 ∧ m.toAddr.length = 6 ∧ 28 ≤ m.pl.length ∧
      getUint16 m.pl 0 = 1 ∧ getUint16 m.pl 2 = 0x0800 ∧ m.pl.getD 4 0 = 6 ∧ m.pl.getD 5 0 = 4 ∧
      getUint16 m.pl 6 = 2
  · refine Or.inl ⟨slice m.pl 14 4, slice m.pl 8 6, if_pos hreply, ?_⟩
    obtain ⟨hfrom, hto, hlong, hhtype, hptype, hhlen, hplen, hoperation⟩ := hreply
    rw [receive_of_passes config ⟨hfrom, hto, hlong, hhtype, hptype, hhlen, hplen⟩ server,
      if_neg (by rw [hoperation]; decide), if_pos hoperation]
  · refine Or.inr ⟨if_neg hreply, ?_⟩
    by_cases hpasses : PassesTests m
    · rw [receive_of_passes config hpasses server]
      split_ifs with hrequest hoperation
      · exact hrequested
      · obtain ⟨hfrom, hto, hlong, hhtype, hptype, hhlen, hplen⟩ := hpasses
        exact absurd ⟨hfrom, hto, hlong, hhtype, hptype, hhlen, hplen, hoperation⟩ hreply
      · exact Or.inl rfl
    · rw [receive_of_fails config hpasses server]
      exact Or.inl rfl

/-- An entry that agrees with the reply, or that the reply makes. -/
theorem lookup_insertArpCache_self {arpCache : List (List UInt8 × List UInt8)}
    {spa sha : List UInt8} (h : ∀ cached, arpCache.lookup spa = some cached → cached = sha) :
    (insertArpCache arpCache spa sha).lookup spa = some sha := by
  unfold insertArpCache
  cases hfound : arpCache.lookup spa with
  | none => simp [List.lookup_append, hfound]
  | some cached => simp [hfound, h cached hfound]

theorem lookup_insertArpCache_other (arpCache : List (List UInt8 × List UInt8))
    {spa other : List UInt8} (sha : List UInt8) (h : other ≠ spa) :
    (insertArpCache arpCache spa sha).lookup other = arpCache.lookup other := by
  have hkey : (other == spa) = false := by simpa using h
  unfold insertArpCache
  split_ifs
  · rfl
  · simp [List.lookup_append, List.lookup_cons, hkey]

/-- A reply that is taken keeps the invariant. Assumes: it agrees with the entry of its address. -/
theorem IsLatest.insert {server : Server} {log : List (List UInt8 × List UInt8)}
    (h : IsLatest server log) {spa sha : List UInt8}
    (hsame : ∀ cached, server.arpCache.lookup spa = some cached → cached = sha) :
    IsLatest { server with
      arpCache := insertArpCache server.arpCache spa sha
      registering := some ⟨sha, spa⟩ } (log ++ [(spa, sha)]) := by
  refine ⟨fun ip4 ↦ ?_, fun registering hregistering ↦ ?_⟩
  · by_cases hip4 : ip4 = spa
    · rw [hip4, latest_snoc_self]
      exact lookup_insertArpCache_self hsame
    · rw [latest_snoc_other log sha hip4, ← h.cache ip4]
      exact lookup_insertArpCache_other server.arpCache sha hip4
  · rw [← Option.some.inj hregistering]
    exact latest_snoc_self log spa sha

/-- The other steps leave the cache alone, and `run_in` has no reply to hand over that it had not
before. -/
def KeepsCache (server : Server) (state : Option Server) : Prop :=
  ∀ server', state = some server' → server'.arpCache = server.arpCache ∧
    (server'.registering = none ∨ server'.registering = server.registering)

theorem keepsCache_of_eq {server server' : Server} {state : Option Server}
    (hstate : state = some server') (hcache : server'.arpCache = server.arpCache)
    (hregistering : server'.registering = none ∨ server'.registering = server.registering) :
    KeepsCache server state := by
  intro other hother
  obtain rfl : server' = other := Option.some.inj (hstate.symm.trans hother)
  exact ⟨hcache, hregistering⟩

theorem keepsCache_none (server : Server) : KeepsCache server none :=
  fun _ hother ↦ absurd hother (by simp)

theorem IsLatest.keep {server server' : Server} {log : List (List UInt8 × List UInt8)}
    (h : IsLatest server log) {state : Option Server} (hkeeps : KeepsCache server state)
    (hstate : state = some server') : IsLatest server' log := by
  obtain ⟨hcache, hregistering⟩ := hkeeps server' hstate
  refine ⟨fun ip4 ↦ hcache ▸ h.cache ip4, fun registering hsome ↦ ?_⟩
  rcases hregistering with hnone | hsame
  · rw [hnone] at hsome
    exact absurd hsome (by simp)
  · exact h.registering registering (hsame ▸ hsome)

theorem keepsCache_resolve (config : Config) (m : ResolverMessage) (server : Server) :
    KeepsCache server (resolve config m server).1 := by
  unfold resolve
  split
  · split
    · exact keepsCache_none server
    · exact keepsCache_of_eq rfl rfl (Or.inr rfl)
    · exact keepsCache_of_eq rfl rfl (Or.inr rfl)
  · exact keepsCache_of_eq rfl rfl (Or.inr rfl)
  · exact keepsCache_of_eq rfl rfl (Or.inr rfl)
  · exact keepsCache_none server

theorem keepsCache_pushRequest (resolving : Resolving) (server : Server) :
    KeepsCache server (pushRequest resolving server).1 := by
  unfold pushRequest
  split
  · exact keepsCache_none server
  · exact keepsCache_of_eq rfl rfl (Or.inr rfl)

theorem keepsCache_register (registering : Registering) (server : Server) :
    KeepsCache server (register registering server).1 := by
  intro server' hserver'
  obtain ⟨left, -, rfl⟩ := Option.map_eq_some_iff.mp hserver'
  exact ⟨rfl, Or.inl rfl⟩

/-- A step either takes a reply, or leaves the cache alone. -/
theorem step_cache (config : Config) (server : Server) (event : Event) :
    (∃ spa sha, replyTaken (some server) event = some (spa, sha) ∧
      (step config (some server) event).1 = some { server with
        arpCache := insertArpCache server.arpCache spa sha
        registering := some ⟨sha, spa⟩ }) ∨
    (replyTaken (some server) event = none ∧
      KeepsCache server (step config (some server) event).1) := by
  cases event with
  | resolve m =>
    refine Or.inr ⟨rfl, ?_⟩
    rw [step]
    split_ifs
    · exact keepsCache_of_eq rfl rfl (Or.inr rfl)
    · exact keepsCache_resolve config m server
  | push =>
    refine Or.inr ⟨rfl, ?_⟩
    rw [step]
    cases server.resolving with
    | none => exact keepsCache_of_eq rfl rfl (Or.inr rfl)
    | some resolving => exact keepsCache_pushRequest resolving server
  | receive m =>
    rw [step, replyTaken]
    by_cases hbusy : server.registering.isSome
    · rw [if_pos hbusy, if_pos hbusy]
      exact Or.inr ⟨rfl, keepsCache_of_eq rfl rfl (Or.inr rfl)⟩
    · rw [if_neg hbusy, if_neg hbusy]
      rcases receive_cases config m server with htaken | ⟨hnone, hserver | hended⟩
      · exact Or.inl htaken
      · exact Or.inr ⟨hnone, keepsCache_of_eq hserver rfl (Or.inr rfl)⟩
      · exact Or.inr ⟨hnone, hended ▸ keepsCache_none server⟩
  | register =>
    refine Or.inr ⟨rfl, ?_⟩
    rw [step]
    cases server.registering with
    | none => exact keepsCache_of_eq rfl rfl (Or.inr rfl)
    | some registering => exact keepsCache_register registering server

/-- The invariant of the logged server. -/
def LatestInvariant (state : Option Server × List (List UInt8 × List UInt8)) : Prop :=
  ∀ server, state.1 = some server → IsLatest server state.2

theorem latestInvariant_step (config : Config)
    {state : Option Server × List (List UInt8 × List UInt8)} {event : Event}
    (h : LatestInvariant state) (hsame : SameMac state event) :
    LatestInvariant (logged config state event).1 := by
  obtain ⟨current, log⟩ := state
  cases current with
  | none => exact fun server hserver ↦ absurd hserver (by simp [logged, step])
  | some server =>
    have hlatest := h server rfl
    intro server' hserver'
    change (step config (some server) event).1 = some server' at hserver'
    change IsLatest server' (log ++ (replyTaken (some server) event).toList)
    rcases step_cache config server event with ⟨spa, sha, htaken, hstep⟩ | ⟨hnone, hkeeps⟩
    · obtain rfl := Option.some.inj (hstep.symm.trans hserver')
      rw [htaken]
      refine hlatest.insert fun cached hcached ↦ ?_
      rcases hsame server rfl (spa, sha) htaken with habsent | hentry
      · exact absurd (habsent.symm.trans hcached) (by simp)
      · exact Option.some.inj (hcached.symm.trans hentry)
    · rw [hnone]
      exact (List.append_nil log).symm ▸ hlatest.keep hkeeps hserver'

/-- What the invariant says about the answers of a step. -/
theorem cacheAgrees_of_latestInvariant (config : Config)
    {state : Option Server × List (List UInt8 × List UInt8)} {event : Event}
    (h : LatestInvariant state) : CacheAgrees config state event := by
  obtain ⟨current, log⟩ := state
  rintro server rfl
  have hlatest := h server rfl
  refine ⟨?_, fun registering _ hregistering ↦ hlatest.registering registering hregistering⟩
  rintro m ip4 cached rfl hidle hcommand hother hcached
  have hlookup : server.arpCache.lookup ip4 = some cached := by
    unfold findArpCache at hcached
    split_ifs at hcached
    exact Option.some.inj hcached
  refine ⟨cached, (hlatest.cache ip4).symm.trans hlookup, ?_⟩
  have hknown : knownMac config server.arpCache ip4 = some (some cached) := by
    rw [knownMac, hother]
    exact hcached
  simp only [step, hidle, Option.isSome_none, Bool.false_eq_true, if_false, resolve, hcommand,
    hknown]

/-- The ARP cache agrees with the latest answer, in every run. Assumes: every ARP reply for an
address of the cache names the MAC address of its entry. -/
theorem cache_agrees (config : Config) {events : List Event}
    (hsame : Along (logged config) SameMac (some Server.start, []) events) :
    Along (logged config) (CacheAgrees config) (some Server.start, []) events := by
  have hstart : LatestInvariant (some Server.start, []) := by
    rintro server hserver
    obtain rfl := Option.some.inj hserver
    exact ⟨fun ip4 ↦ rfl,
      fun registering hregistering ↦ absurd hregistering (by simp [Server.start])⟩
  exact hsame.of_invariant hstart
    (fun _ _ hinvariant hstep ↦ latestInvariant_step config hinvariant hstep)
    (fun _ _ hinvariant _ ↦ cacheAgrees_of_latestInvariant config hinvariant)

/-- An ARP reply of 10.0.0.2 with another MAC address than `sampleArpReply`. -/
def sampleMovedReply : LinkMessage where
  sender := ascii "eth"
  msgNr := 2
  fromAddr := [2, 0, 0, 0, 0, 9]
  toAddr := [2, 0, 0, 0, 0, 1]
  pl := [0, 1, 8, 0, 6, 4, 0, 2, 2, 0, 0, 0, 0, 9, 10, 0, 0, 2, 2, 0, 0, 0, 0, 1, 10, 0, 0, 1]

/-- A reply that comes twice, and a request that the cache answers. -/
theorem cache_agrees_repeated :
    Along (logged sampleConfig) (CacheAgrees sampleConfig) (some Server.start, [])
      [.receive sampleArpReply, .register, .receive sampleArpReply, .register,
        .resolve (sampleQuery 9 "10.0.0.2" 99)] :=
  cache_agrees sampleConfig (by decide +kernel)

/-- A host that changes its MAC address: the cache still answers with the first one. -/
theorem moved_host_keeps_old_mac :
    ¬ Along (logged sampleConfig) (CacheAgrees sampleConfig) (some Server.start, [])
      [.receive sampleArpReply, .register, .receive sampleMovedReply, .register,
        .resolve (sampleQuery 9 "10.0.0.2" 99)] := by
  rintro ⟨-, -, -, -, hagrees, -⟩
  let before := (run (logged sampleConfig) (some Server.start, []) [.receive sampleArpReply,
    .register, .receive sampleMovedReply, .register]).1
  have hstate : before.1 =
      some ⟨[], [([10, 0, 0, 2], [2, 0, 0, 0, 0, 2])], none, none⟩ := by decide +kernel
  obtain ⟨hanswer, -⟩ := hagrees _ hstate
  obtain ⟨mac, hlatest, houtput⟩ := hanswer (sampleQuery 9 "10.0.0.2" 99) [10, 0, 0, 2]
    [2, 0, 0, 0, 0, 2] rfl rfl (by decide +kernel) (by decide +kernel) (by decide +kernel)
  have hmac : latest before.2 [10, 0, 0, 2] = some [2, 0, 0, 0, 0, 9] := by decide +kernel
  obtain rfl := Option.some.inj (hmac.symm.trans hlatest)
  have hgiven : (step sampleConfig before.1 (.resolve (sampleQuery 9 "10.0.0.2" 99))).2 =
      [.pushResolverReply ⟨ascii "ip4", macReply [10, 0, 0, 2] [2, 0, 0, 0, 0, 2], 9⟩] := by
    decide +kernel
  have hdiffers : macReply [10, 0, 0, 2] [2, 0, 0, 0, 0, 2] ≠
      macReply [10, 0, 0, 2] [2, 0, 0, 0, 0, 9] := by decide +kernel
  have hequal := hgiven.symm.trans houtput
  simp only [List.cons.injEq, Output.pushResolverReply.injEq, Reply.mk.injEq] at hequal
  exact hdiffers hequal.1.2.1

end MyIPNG.Arp
