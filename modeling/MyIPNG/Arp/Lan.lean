import MyIPNG.Arp.Correlation
import MyIPNG.Arp.Resolution
import MyIPNG.Base.Network
import MyIPNG.Base.Reachability

/-!
# The ARP servers of a local network

Every host of a network runs the server, each with an address of its own. What one of them sends
reaches any of them, also itself, any number of times, in any order, or never.

No server lies and none is lied to: in every run, every entry of every cache and every answer of
every resolver names the two addresses of one host, and no server stops. The servers rely on each
other for that. A cache entry is what an ARP reply said, and an ARP reply says what its sender is;
and the assertion of `run_in` holds because no one asks for its own address.

Nothing gets stuck either: a request that waits for the address of a host can be answered from every
state that the network reaches, for the packet that asks is in the network.
-/

set_option autoImplicit false
set_option relaxedAutoImplicit false

namespace MyIPNG.Arp

open Base Utils

variable {ι : Type*}

/-! ### The network -/

/-- The hosts of a network: each has an IPv4 address of its own, and none the one that stands for no
address. -/
structure Lan (hosts : ι → Config) : Prop where
  ip4_length : ∀ host, (hosts host).ip4Addr.length = 4
  mac_length : ∀ host, (hosts host).mac.length = 6
  distinct : ∀ host other, (hosts host).ip4Addr = (hosts other).ip4Addr → host = other
  nonzero : ∀ host, (hosts host).ip4Addr ≠ List.replicate 4 0

/-- The two addresses are those of one host. -/
def Holds (hosts : ι → Config) (ip4 mac : List UInt8) : Prop :=
  ∃ host, (hosts host).ip4Addr = ip4 ∧ (hosts host).mac = mac

/-- A server with its history. -/
abbrev LanStation := Station (Option Server) Event Output

/-- The packet that an output puts on the link, with its addresses. -/
def Output.onLink : Output → Option (List UInt8 × List UInt8 × List UInt8)
  | .pushResolverReply _ => none
  | .arpRequest fromAddr toAddr packet => some (fromAddr, toAddr, packet)
  | .arpReply _ fromAddr toAddr packet _ => some (fromAddr, toAddr, packet)

/-- A message brings the packet of an output, with what the link puts behind it. -/
def Carries (output : Output) (m : LinkMessage) : Prop :=
  ∃ packet, output.onLink = some (m.fromAddr, m.toAddr, packet) ∧ packet <+: m.pl

/-- A message for the resolver whose address is one. -/
structure Asks (m : ResolverMessage) : Prop where
  noFault : command m ≠ .fault
  ip4_length : ∀ ip4, command m = .searchMac ip4 → ip4.length = 4
  mac_length : ∀ mac, command m = .searchIp4 mac → mac.length = 6

/-- What can happen at a host: its resolver is asked for addresses, and what the link brings was put
on it by one of the hosts. -/
def OnLan (stations : ι → LanStation) : ι × Event → Prop
  | (_, .resolve m) => Asks m
  | (_, .receive m) => ∃ sender, ∃ output ∈ (stations sender).outputs, Carries output m
  | (_, .push) => True
  | (_, .register) => True

/-- Every host before the first message. -/
def lanStart : ι → LanStation := fun _ ↦ .start (some Server.start)

/-- The servers of all hosts take their events. -/
def lanStep [DecidableEq ι] (hosts : ι → Config) :
    (ι → LanStation) → ι × Event → (ι → LanStation) × List (ι × Output) :=
  netStep fun host ↦ step (hosts host)

/-! ### What a host guarantees -/

/-- The addresses of an ARP request: no host that is asked is the one that asks. -/
structure AsksOther (hosts : ι → Config) (sha spa tpa : List UInt8) : Prop where
  sha_length : sha.length = 6
  spa_length : spa.length = 4
  tpa_length : tpa.length = 4
  other : ∀ host, (hosts host).ip4Addr = tpa → spa ≠ tpa

/-- What a host puts out is true: an answer of the resolver names the addresses of one host, an ARP
request asks others, and an ARP reply has the addresses of the host itself. -/
def IsTrue (hosts : ι → Config) (host : ι) : Output → Prop
  | .pushResolverReply reply => ∃ ip4 mac, Holds hosts ip4 mac ∧
      (reply.text = macReply ip4 mac ∨ reply.text = ip4Reply mac ip4)
  | .arpRequest fromAddr toAddr packet => ∃ spa tpa, AsksOther hosts fromAddr spa tpa ∧
      toAddr = bcAddr ∧ packet = arpBytes 1 fromAddr spa bcAddr tpa ++ List.replicate 16 0
  | .arpReply _ fromAddr toAddr packet _ => ∃ tpa, toAddr.length = 6 ∧ tpa.length = 4 ∧
      fromAddr = (hosts host).mac ∧
      packet = arpBytes 2 (hosts host).mac (hosts host).ip4Addr toAddr tpa

/-- What a server knows is true. -/
structure Knows (hosts : ι → Config) (server : Server) : Prop where
  cache : ∀ entry ∈ server.arpCache, Holds hosts entry.1 entry.2
  registering : ∀ registering, server.registering = some registering →
    Holds hosts registering.spa registering.sha
  requests : ∀ item ∈ server.requests, item.WellFormed
  resolving : ∀ resolving, server.resolving = some resolving →
    resolving.request.WellFormed ∧ AsksOther hosts resolving.sha resolving.spa resolving.tpa

/-- The ARP request of a host for the MAC address of an IPv4 address. -/
def Config.arpRequest (config : Config) (ip4 : List UInt8) : Output :=
  .arpRequest config.mac bcAddr
    (arpBytes 1 config.mac config.ip4Addr bcAddr ip4 ++ List.replicate 16 0)

/-- The ARP reply that answers a host, as the link brings it. -/
def replyMessage (config asking : Config) : LinkMessage :=
  ⟨[], 0, config.mac, asking.mac,
    arpBytes 2 config.mac config.ip4Addr asking.mac asking.ip4Addr⟩

/-- A request for a MAC address that waits has been sent to the network, and one that `run_resolver`
is about to put in the list is going to be. -/
structure Asked (hosts : ι → Config) (host : ι) (server : Server) (outputs : List Output) :
    Prop where
  waiting : ∀ item ∈ server.requests, ∀ ip4, item.ip4 = some ip4 → item.mac = none ∧
    AsksOther hosts (hosts host).mac (hosts host).ip4Addr ip4 ∧
    (hosts host).arpRequest ip4 ∈ outputs
  resolving : ∀ resolving ip4, server.resolving = some resolving →
    resolving.request.ip4 = some ip4 → resolving.request.mac = none ∧
    resolving.sha = (hosts host).mac ∧ resolving.spa = (hosts host).ip4Addr ∧ resolving.tpa = ip4

/-- The guarantee of a host: its server has not stopped, what it knows and what it has put out is
true, and it has asked for what waits. -/
def Honest (hosts : ι → Config) (host : ι) (station : LanStation) : Prop :=
  ∃ server, station.state = some server ∧ Knows hosts server ∧
    (∀ output ∈ station.outputs, IsTrue hosts host output) ∧
    Asked hosts host server station.outputs

section Steps

variable {hosts : ι → Config} {host : ι} {server : Server} {m : LinkMessage}

theorem Holds.lengths {ip4 mac : List UInt8} (h : Holds hosts ip4 mac) (hlan : Lan hosts) :
    ip4.length = 4 ∧ mac.length = 6 := by
  obtain ⟨host, rfl, rfl⟩ := h
  exact ⟨hlan.ip4_length host, hlan.mac_length host⟩

theorem mem_of_lookup {arpCache : List (List UInt8 × List UInt8)} {ip4 mac : List UInt8}
    (h : arpCache.lookup ip4 = some mac) : (ip4, mac) ∈ arpCache := by
  obtain ⟨before, behind, rfl, -⟩ := List.lookup_eq_some_iff.mp h
  exact List.mem_append_right _ List.mem_cons_self

/-! Each step of a server, as what it does to the state and what it puts out. -/

section Outcomes

variable {config : Config} {m : ResolverMessage} {ip4 mac : List UInt8}

theorem resolve_known (hcommand : command m = .searchMac ip4)
    (hknown : knownMac config server.arpCache ip4 = some (some mac)) :
    resolve config m server =
      (some server, [.pushResolverReply ⟨m.sender, macReply ip4 mac, m.msgNr⟩]) := by
  rw [resolve, hcommand]
  simp only [hknown]

theorem resolve_unknown (hcommand : command m = .searchMac ip4)
    (hunknown : knownMac config server.arpCache ip4 = some none) :
    resolve config m server =
      (some { server with resolving := some {
        request := ⟨none, some ip4, m.sender, m.freshMsgNr⟩
        sha := config.mac
        spa := config.ip4Addr
        tpa := ip4 } }, []) := by
  rw [resolve, hcommand]
  simp only [hunknown]

theorem resolve_searchIp4 (hcommand : command m = .searchIp4 mac) :
    resolve config m server =
      (some { server with resolving := some {
        request := ⟨some mac, none, m.sender, m.freshMsgNr⟩
        sha := mac
        spa := List.replicate 4 0
        tpa := List.replicate 4 0 } }, []) := by
  rw [resolve, hcommand]

theorem pushRequest_eq {resolving : Resolving} (hsha : resolving.sha.length = 6)
    (hspa : resolving.spa.length = 4) (htpa : resolving.tpa.length = 4) :
    pushRequest resolving server =
      (some { server with
        requests := server.requests ++ [resolving.request]
        resolving := none },
      [.arpRequest resolving.sha bcAddr (arpBytes 1 resolving.sha resolving.spa bcAddr
        resolving.tpa ++ List.replicate 16 0)]) := by
  rw [pushRequest, arpRequestPacket_eq hsha hspa htpa]

theorem register_eq {registering : Registering} (hsha : registering.sha.length = 6)
    (hspa : registering.spa.length = 4) (hrequests : ∀ item ∈ server.requests, item.WellFormed) :
    register registering server =
      (some { server with
        requests := server.requests.filter fun item ↦
          ¬ Searches registering.sha registering.spa item
        registering := none },
      ((server.requests.filter fun item ↦ Searches registering.sha registering.spa item).map
        fun item ↦ ⟨item.searchedBy, answerText registering.sha registering.spa item,
          item.msgNr⟩).map Output.pushResolverReply) := by
  rw [register, registerResolveReply_eq hsha hspa hrequests]
  rfl

end Outcomes

/-- The cache answers with an address that it has. -/
theorem Knows.findArpCache (h : Knows hosts server) (hlan : Lan hosts) {ip4 : List UInt8}
    (hlength : ip4.length = 4) :
    findArpCache server.arpCache ip4 = some (server.arpCache.lookup ip4) := by
  rw [Arp.findArpCache, if_neg]
  rw [List.any_eq_true]
  rintro ⟨entry, hentry, hdiffers⟩
  have hfour := ((h.cache entry hentry).lengths hlan).1
  exact absurd hdiffers (by simp [hfour, hlength])

/-- A step that keeps the guarantee of the host, with what it had put out before. -/
def Keeps (hosts : ι → Config) (host : ι) (server : Server) (before : List Output) (event : Event) :
    Prop :=
  ∃ next outputs, step (hosts host) (some server) event = (some next, outputs) ∧
    Knows hosts next ∧ (∀ output ∈ outputs, IsTrue hosts host output) ∧
    Asked hosts host next (before ++ outputs)

/-- What a host puts out takes nothing back. -/
theorem Asked.mono {before : List Output} (h : Asked hosts host server before)
    (outputs : List Output) : Asked hosts host server (before ++ outputs) where
  waiting item hitem ip4 hip4 := by
    obtain ⟨hmac, hother, hsent⟩ := h.waiting item hitem ip4 hip4
    exact ⟨hmac, hother, List.mem_append_left _ hsent⟩
  resolving := h.resolving

/-- A step that does nothing. -/
theorem keeps_idle {before : List Output} (hknows : Knows hosts server)
    (hasked : Asked hosts host server before) {event : Event}
    (hstep : step (hosts host) (some server) event = (some server, [])) :
    Keeps hosts host server before event :=
  ⟨server, [], hstep, hknows, List.forall_mem_nil _, by rwa [List.append_nil]⟩

/-- A step that puts something out that is true, and changes nothing. -/
theorem keeps_output {before : List Output} (hknows : Knows hosts server)
    (hasked : Asked hosts host server before) {event : Event} {output : Output}
    (hstep : step (hosts host) (some server) event = (some server, [output]))
    (htrue : IsTrue hosts host output) : Keeps hosts host server before event :=
  ⟨server, [output], hstep, hknows, List.forall_mem_singleton.mpr htrue, hasked.mono _⟩

/-- `run_resolver` is about to put a request in the list. -/
theorem keeps_resolving {before : List Output} (hknows : Knows hosts server)
    (hasked : Asked hosts host server before) {event : Event} {resolving : Resolving}
    (hitem : resolving.request.WellFormed)
    (haddresses : AsksOther hosts resolving.sha resolving.spa resolving.tpa)
    (hown : ∀ ip4, resolving.request.ip4 = some ip4 → resolving.request.mac = none ∧
      resolving.sha = (hosts host).mac ∧ resolving.spa = (hosts host).ip4Addr ∧
      resolving.tpa = ip4)
    (hstep : step (hosts host) (some server) event =
      (some { server with resolving := some resolving }, [])) :
    Keeps hosts host server before event := by
  refine ⟨_, [], hstep, ⟨hknows.cache, hknows.registering, hknows.requests, ?_⟩,
    List.forall_mem_nil _, (hasked.mono []).waiting, ?_⟩
  · intro found hfound
    rw [← Option.some.inj hfound]
    exact ⟨hitem, haddresses⟩
  · intro found ip4 hfound hip4
    rw [← Option.some.inj hfound] at hip4 ⊢
    exact hown ip4 hip4

theorem keeps_resolve (hlan : Lan hosts) {before : List Output} (hknows : Knows hosts server)
    (hasked : Asked hosts host server before) {m : ResolverMessage} (hasks : Asks m) :
    Keeps hosts host server before (.resolve m) := by
  by_cases hbusy : server.resolving.isSome
  · exact keeps_idle hknows hasked (if_pos hbusy)
  have hstep : step (hosts host) (some server) (.resolve m) = resolve (hosts host) m server :=
    if_neg hbusy
  have hown := hlan.ip4_length host
  cases hcommand : command m with
  | invalid => exact keeps_idle hknows hasked (by rw [hstep, resolve, hcommand])
  | fault => exact absurd hcommand hasks.noFault
  | searchIp4 mac =>
    refine keeps_resolving hknows hasked ⟨?_, ?_⟩ ?_ ?_ (hstep.trans (resolve_searchIp4 hcommand))
    · rintro _ ⟨⟩
      exact hasks.mac_length mac hcommand
    · exact fun _ hip4 ↦ absurd hip4 (by simp)
    · exact ⟨hasks.mac_length mac hcommand, rfl, rfl,
        fun other hnone ↦ absurd hnone (hlan.nonzero other)⟩
    · exact fun ip4 hip4 ↦ absurd hip4 (by simp)
  | searchMac ip4 =>
    have hlength := hasks.ip4_length ip4 hcommand
    have hequal := addrEq_of_length_eq (hlength.trans hown.symm)
    by_cases hsame : (hosts host).ip4Addr = ip4
    · have hknown : knownMac (hosts host) server.arpCache ip4 = some (some (hosts host).mac) := by
        rw [knownMac, hequal, decide_eq_true hsame]
      exact keeps_output hknows hasked (hstep.trans (resolve_known hcommand hknown))
        ⟨ip4, (hosts host).mac, ⟨host, hsame, rfl⟩, Or.inl rfl⟩
    · have hknown : knownMac (hosts host) server.arpCache ip4 =
          some (server.arpCache.lookup ip4) := by
        rw [knownMac, hequal, decide_eq_false hsame]
        exact hknows.findArpCache hlan hlength
      cases hlookup : server.arpCache.lookup ip4 with
      | some mac =>
        rw [hlookup] at hknown
        exact keeps_output hknows hasked (hstep.trans (resolve_known hcommand hknown))
          ⟨ip4, mac, hknows.cache _ (mem_of_lookup hlookup), Or.inl rfl⟩
      | none =>
        rw [hlookup] at hknown
        refine keeps_resolving hknows hasked ⟨?_, ?_⟩ ?_ ?_
          (hstep.trans (resolve_unknown hcommand hknown))
        · exact fun _ hmac ↦ absurd hmac (by simp)
        · rintro _ ⟨⟩
          exact hlength
        · exact ⟨hlan.mac_length host, hown, hlength, fun _ _ ↦ hsame⟩
        · exact fun asked hasks ↦ ⟨rfl, rfl, rfl, Option.some.inj hasks⟩

theorem keeps_push {before : List Output} (hknows : Knows hosts server)
    (hasked : Asked hosts host server before) : Keeps hosts host server before .push := by
  cases hresolving : server.resolving with
  | none => exact keeps_idle hknows hasked (by simp only [step, hresolving])
  | some resolving =>
    obtain ⟨hitem, haddresses⟩ := hknows.resolving resolving hresolving
    have hstep : step (hosts host) (some server) .push = pushRequest resolving server := by
      simp only [step, hresolving]
    refine ⟨_, _, hstep.trans (pushRequest_eq haddresses.sha_length haddresses.spa_length
      haddresses.tpa_length), ?_, ?_, ?_, ?_⟩
    · refine ⟨hknows.cache, hknows.registering, fun item hmem ↦ ?_,
        fun _ hnone ↦ absurd hnone (by simp)⟩
      rcases List.mem_append.mp hmem with hold | hnew
      · exact hknows.requests item hold
      · rw [List.mem_singleton.mp hnew]
        exact hitem
    · exact List.forall_mem_singleton.mpr ⟨resolving.spa, resolving.tpa, haddresses, rfl, rfl⟩
    · intro item hmem ip4 hip4
      rcases List.mem_append.mp hmem with hold | hnew
      · exact (hasked.mono _).waiting item hold ip4 hip4
      · rw [List.mem_singleton.mp hnew] at hip4 ⊢
        obtain ⟨hmac, hsha, hspa, htpa⟩ := hasked.resolving resolving ip4 hresolving hip4
        rw [hsha, hspa, htpa] at haddresses ⊢
        exact ⟨hmac, haddresses, List.mem_append_right _ List.mem_cons_self⟩
    · exact fun _ _ hnone ↦ absurd hnone (by simp)

theorem keeps_register (hlan : Lan hosts) {before : List Output} (hknows : Knows hosts server)
    (hasked : Asked hosts host server before) : Keeps hosts host server before .register := by
  cases hregistering : server.registering with
  | none => exact keeps_idle hknows hasked (by simp only [step, hregistering])
  | some registering =>
    have hholds := hknows.registering registering hregistering
    obtain ⟨hspa, hsha⟩ := hholds.lengths hlan
    have hstep : step (hosts host) (some server) .register = register registering server := by
      simp only [step, hregistering]
    refine ⟨_, _, hstep.trans (register_eq hsha hspa hknows.requests), ?_, ?_, ?_,
      hasked.resolving⟩
    · refine ⟨hknows.cache, fun _ hnone ↦ absurd hnone (by simp), ?_, hknows.resolving⟩
      exact fun item hitem ↦ hknows.requests item (List.mem_of_mem_filter hitem)
    · intro output houtput
      obtain ⟨reply, hreply, rfl⟩ := List.mem_map.mp houtput
      obtain ⟨item, -, rfl⟩ := List.mem_map.mp hreply
      refine ⟨registering.spa, registering.sha, hholds, ?_⟩
      show answerText _ _ _ = _ ∨ answerText _ _ _ = _
      unfold answerText
      split_ifs
      · exact Or.inr rfl
      · exact Or.inl rfl
    · exact fun item hitem ↦ (hasked.mono _).waiting item (List.mem_of_mem_filter hitem)

/-- What a true packet does at a host that takes it. -/
theorem keeps_receive (hlan : Lan hosts) {before : List Output} (hknows : Knows hosts server)
    (hasked : Asked hosts host server before) {sender : ι} {output : Output}
    (htrue : IsTrue hosts sender output) (hcarries : Carries output m) :
    Keeps hosts host server before (.receive m) := by
  by_cases hbusy : server.registering.isSome
  · exact keeps_idle hknows hasked (if_pos hbusy)
  have hstep : step (hosts host) (some server) (.receive m) = receive (hosts host) m server :=
    if_neg hbusy
  obtain ⟨packet, honLink, padding, hpl⟩ := hcarries
  cases output with
  | pushResolverReply reply => exact absurd honLink (by simp [Output.onLink])
  | arpRequest fromAddr toAddr sent =>
    obtain ⟨spa, tpa, haddresses, hto, hsent⟩ := htrue
    obtain ⟨rfl, rfl, rfl⟩ : fromAddr = m.fromAddr ∧ toAddr = m.toAddr ∧ sent = packet := by
      simpa [Output.onLink] using honLink
    rw [hsent, List.append_assoc] at hpl
    have hto' : m.toAddr.length = 6 := by rw [hto]; rfl
    by_cases hown : tpa = (hosts host).ip4Addr
    · refine keeps_output hknows hasked (hstep.trans (receive_request (hlan.mac_length host)
        haddresses.sha_length hto' haddresses.sha_length haddresses.spa_length rfl
        haddresses.tpa_length hown (haddresses.other host hown.symm) hpl.symm)) ?_
      exact ⟨spa, haddresses.sha_length, haddresses.spa_length, rfl, by rw [hown]⟩
    · have hequal := addrEq_of_length_eq (haddresses.tpa_length.trans (hlan.ip4_length host).symm)
      refine keeps_idle hknows hasked (hstep.trans ?_)
      rw [receive_arpBytes haddresses.sha_length hto' haddresses.sha_length haddresses.spa_length
        rfl haddresses.tpa_length hpl.symm, if_pos (by decide), arpRequested, hequal,
        decide_eq_false (Ne.symm hown)]
  | arpReply receiver fromAddr toAddr sent msgNr =>
    obtain ⟨tpa, hto, htpa, hfrom, hsent⟩ := htrue
    obtain ⟨rfl, rfl, rfl⟩ : fromAddr = m.fromAddr ∧ toAddr = m.toAddr ∧ sent = packet := by
      simpa [Output.onLink] using honLink
    rw [hsent] at hpl
    have hmac := hlan.mac_length sender
    have hholds : Holds hosts (hosts sender).ip4Addr (hosts sender).mac := ⟨sender, rfl, rfl⟩
    refine ⟨_, [], hstep.trans (receive_reply (hfrom ▸ hmac) hto hmac (hlan.ip4_length sender) hto
      htpa hpl.symm), ?_, List.forall_mem_nil _, (hasked.mono []).waiting,
      (hasked.mono []).resolving⟩
    refine ⟨fun entry hentry ↦ ?_, ?_, hknows.requests, hknows.resolving⟩
    · rw [insertArpCache] at hentry
      split_ifs at hentry
      · exact hknows.cache entry hentry
      · rcases List.mem_append.mp hentry with hold | hnew
        · exact hknows.cache entry hold
        · rw [List.mem_singleton.mp hnew]
          exact hholds
    · rintro _ ⟨⟩
      exact hholds

theorem honest_start (hosts : ι → Config) (host : ι) : Honest hosts host (lanStart host) := by
  refine ⟨Server.start, rfl, ⟨?_, ?_, ?_, ?_⟩, ?_, ?_, ?_⟩
  · exact List.forall_mem_nil _
  · exact fun _ hnone ↦ absurd hnone (by simp [Server.start])
  · exact List.forall_mem_nil _
  · exact fun _ hnone ↦ absurd hnone (by simp [Server.start])
  · exact List.forall_mem_nil _
  · exact List.forall_mem_nil _
  · exact fun _ _ hnone ↦ absurd hnone (by simp [Server.start])

/-- The step lemma: a host keeps its guarantee, and relies on what the senders of packets guarantee.
-/
theorem honest_step (hlan : Lan hosts) {stations : ι → LanStation} {event : Event}
    (hall : ∀ other, Honest hosts other (stations other)) (hok : OnLan stations (host, event)) :
    Honest hosts host ((stations host).take (step (hosts host)) event) := by
  obtain ⟨server, hserver, hknows, htrue, hasked⟩ := hall host
  have hkeeps : Keeps hosts host server (stations host).outputs event := by
    cases event with
    | resolve m => exact keeps_resolve hlan hknows hasked hok
    | push => exact keeps_push hknows hasked
    | register => exact keeps_register hlan hknows hasked
    | receive m =>
      obtain ⟨sender, output, houtput, hcarries⟩ := hok
      obtain ⟨-, -, -, hsent, -⟩ := hall sender
      exact keeps_receive hlan hknows hasked (hsent output houtput) hcarries
  obtain ⟨next, outputs, hstep, hknows', htrue', hasked'⟩ := hkeeps
  refine ⟨next, ?_, hknows', ?_, ?_⟩
  · rw [Station.take, hserver, hstep]
  · rw [Station.outputs_take, hserver, hstep]
    exact fun output houtput ↦
      (List.mem_append.mp houtput).elim (htrue output) (htrue' output)
  · rwa [Station.outputs_take, hserver, hstep]

end Steps

/-! ### Every run -/

section Run

variable [DecidableEq ι] {hosts : ι → Config}

theorem honest_run (hlan : Lan hosts) {events : List (ι × Event)}
    (hevents : Along (lanStep hosts) OnLan lanStart events) (host : ι) :
    Honest hosts host ((run (lanStep hosts) lanStart events).1 host) :=
  network_induction (honest_start hosts)
    (fun _ _ _ hall hok ↦ honest_step hlan hall hok) hevents host

/-- No server of a network lies, and none stops. Assumes: hosts with addresses of their own, whose
resolvers are asked for addresses, and a link that delivers only what one of the hosts has put on
it. In every run, every server goes on, every entry of its cache is the address of a host with the
MAC address of that host, and every answer of its resolver names the two addresses of one host. -/
theorem lan_tells_truth (hlan : Lan hosts) {events : List (ι × Event)}
    (hevents : Along (lanStep hosts) OnLan lanStart events) (host : ι) :
    let final := (run (lanStep hosts) lanStart events).1 host
    (∃ server, final.state = some server ∧
      ∀ entry ∈ server.arpCache, Holds hosts entry.1 entry.2) ∧
    ∀ reply, .pushResolverReply reply ∈ final.outputs → ∃ other,
      reply.text = macReply (hosts other).ip4Addr (hosts other).mac ∨
        reply.text = ip4Reply (hosts other).mac (hosts other).ip4Addr := by
  intro final
  obtain ⟨server, hserver, hknows, htrue, -⟩ := honest_run hlan hevents host
  refine ⟨⟨server, hserver, hknows.cache⟩, fun reply hreply ↦ ?_⟩
  obtain ⟨ip4, mac, ⟨other, rfl, rfl⟩, htext⟩ := htrue _ hreply
  exact ⟨other, htext⟩

end Run

/-- Two hosts, 10.0.0.1 and 10.0.0.2. -/
def sampleHosts (second : Bool) : Config :=
  if second then ⟨[10, 0, 0, 2], [2, 0, 0, 0, 0, 2]⟩ else sampleConfig

theorem lan_sampleHosts : Lan sampleHosts where
  ip4_length := by decide
  mac_length := by decide
  distinct := by decide
  nonzero := by decide

theorem asks_sampleQuery : Asks (sampleQuery 7 "10.0.0.2" 99) := by
  have hcommand : command (sampleQuery 7 "10.0.0.2" 99) = .searchMac [10, 0, 0, 2] := by
    decide +kernel
  refine ⟨?_, ?_, ?_⟩
  · rw [hcommand]
    exact Command.noConfusion
  · intro ip4 hip4
    rw [← Command.searchMac.inj (hcommand.symm.trans hip4)]
    rfl
  · intro mac hmac
    exact absurd (hcommand.symm.trans hmac) (by simp)

/-- 10.0.0.1 asks for 10.0.0.2. -/
def sampleAsked : List (Bool × Event) :=
  [(false, .resolve (sampleQuery 7 "10.0.0.2" 99)), (false, .push)]

/-- The ARP request, as the link brings it. -/
def sampleBroadcast : LinkMessage :=
  ⟨[], 0, [2, 0, 0, 0, 0, 1], bcAddr, arpBytes 1 [2, 0, 0, 0, 0, 1] [10, 0, 0, 1] bcAddr
    [10, 0, 0, 2] ++ List.replicate 16 0⟩

/-- It has its answer. -/
def sampleAnswered : List (Bool × Event) :=
  [(true, .receive sampleBroadcast),
    (false, .receive (replyMessage (sampleHosts true) (sampleHosts false))), (false, .register)]

theorem onLan_sampleAsked : Along (lanStep sampleHosts) OnLan lanStart sampleAsked :=
  ⟨asks_sampleQuery, trivial, trivial⟩

theorem onLan_sampleAnswered :
    Along (lanStep sampleHosts) OnLan lanStart (sampleAsked ++ sampleAnswered) := by
  refine ⟨asks_sampleQuery, trivial, ?_, ?_, trivial, trivial⟩
  · exact ⟨false, sampleConfig.arpRequest [10, 0, 0, 2], by decide +kernel, _, rfl, List.prefix_rfl⟩
  · exact ⟨true, .arpReply [] [2, 0, 0, 0, 0, 2] [2, 0, 0, 0, 0, 1] _ 0, by decide +kernel, _, rfl,
      List.prefix_rfl⟩

/-- The answer that the resolver of 10.0.0.1 gives. -/
theorem lan_tells_truth_two_hosts :
    let final := (run (lanStep sampleHosts) lanStart (sampleAsked ++ sampleAnswered)).1 false
    let text := macReply [10, 0, 0, 2] [2, 0, 0, 0, 0, 2]
    .pushResolverReply ⟨ascii "ip4", text, 99⟩ ∈ final.outputs ∧
      ∃ other, text = macReply (sampleHosts other).ip4Addr (sampleHosts other).mac ∨
        text = ip4Reply (sampleHosts other).mac (sampleHosts other).ip4Addr := by
  intro final text
  have hanswered : .pushResolverReply ⟨ascii "ip4", text, 99⟩ ∈ final.outputs := by decide +kernel
  exact ⟨hanswered, (lan_tells_truth lan_sampleHosts onLan_sampleAnswered false).2 _ hanswered⟩

/-! ### What can still happen -/

/-- A request waits in the list of a host. -/
def Waits (item : Request) (station : LanStation) : Prop :=
  ∃ server, station.state = some server ∧ item ∈ server.requests

/-- A request of a host has its answer and waits no more. -/
def Answered (item : Request) (text : List UInt8) (station : LanStation) : Prop :=
  .pushResolverReply ⟨item.searchedBy, text, item.msgNr⟩ ∈ station.outputs ∧ ¬ Waits item station

/-- `run_in` takes the next packet. -/
def Idle (station : LanStation) : Prop :=
  ∃ server, station.state = some server ∧ server.registering = none

section Registering

variable {hosts : ι → Config} {host : ι} {station : LanStation} {server : Server}
  {registering : Registering}

/-- What a host that keeps its guarantee knows, and has asked for. -/
theorem Honest.knows (h : Honest hosts host station) (hserver : station.state = some server) :
    Knows hosts server ∧ Asked hosts host server station.outputs := by
  obtain ⟨server', hserver', hknows, -, hasked⟩ := h
  obtain rfl : server' = server := Option.some.inj (hserver'.symm.trans hserver)
  exact ⟨hknows, hasked⟩

theorem step_receive_idle (config : Config) (m : LinkMessage) (hidle : server.registering = none) :
    step config (some server) (.receive m) = receive config m server := by
  show (if server.registering.isSome then _ else receive config m server) = _
  rw [hidle, Option.isSome_none, if_neg Bool.false_ne_true]

theorem state_register_idle (hserver : station.state = some server)
    (hidle : server.registering = none) :
    (station.take (step (hosts host)) .register).state = some server := by
  show (step (hosts host) station.state .register).1 = some server
  simp only [hserver, step, hidle]

/-- The step that answers the list, at a host that keeps its guarantee. -/
theorem take_register (hlan : Lan hosts) (h : Honest hosts host station)
    (hserver : station.state = some server) (hregistering : server.registering = some registering) :
    let next := station.take (step (hosts host)) .register
    next.state = some { server with
      requests := server.requests.filter fun item ↦
        ¬ Searches registering.sha registering.spa item
      registering := none } ∧
    next.outputs = station.outputs ++ ((server.requests.filter fun item ↦
      Searches registering.sha registering.spa item).map fun item ↦ ⟨item.searchedBy,
        answerText registering.sha registering.spa item, item.msgNr⟩).map
          Output.pushResolverReply := by
  intro next
  obtain ⟨hknows, -⟩ := h.knows hserver
  obtain ⟨hspa, hsha⟩ := (hknows.registering registering hregistering).lengths hlan
  have hstep : step (hosts host) station.state .register = register registering server := by
    simp only [hserver, step, hregistering]
  have hregister := hstep.trans (register_eq hsha hspa hknows.requests)
  exact ⟨congrArg Prod.fst hregister,
    (Station.outputs_take ..).trans (congrArg (station.outputs ++ ·.2) hregister)⟩

theorem idle_register (hlan : Lan hosts) (h : Honest hosts host station) :
    Idle (station.take (step (hosts host)) .register) := by
  obtain ⟨server, hserver, -⟩ := id h
  cases hregistering : server.registering with
  | none => exact ⟨server, state_register_idle hserver hregistering, hregistering⟩
  | some registering => exact ⟨_, (take_register hlan h hserver hregistering).1, rfl⟩

/-- A request that waits for what is being registered gets its answer. -/
theorem answered_register (hlan : Lan hosts) (h : Honest hosts host station)
    (hserver : station.state = some server) (hregistering : server.registering = some registering)
    {item : Request} (hitem : item ∈ server.requests) (hip4 : item.ip4 = some registering.spa) :
    Answered item (macReply registering.spa registering.sha)
      (station.take (step (hosts host)) .register) := by
  obtain ⟨hstate, houtputs⟩ := take_register hlan h hserver hregistering
  have hsearches : Searches registering.sha registering.spa item := Or.inr hip4
  constructor
  · have hmac := ((h.knows hserver).2.waiting item hitem _ hip4).1
    have htext : answerText registering.sha registering.spa item =
        macReply registering.spa registering.sha := by
      rw [answerText, hmac, if_neg (Option.some_ne_none _).symm]
    rw [houtputs, ← htext]
    apply List.mem_append_right
    apply List.mem_map_of_mem
    exact List.mem_map_of_mem (List.mem_filter.mpr ⟨hitem, decide_eq_true hsearches⟩)
  · rintro ⟨after, hafter, hleft⟩
    rw [← Option.some.inj (hstate.symm.trans hafter)] at hleft
    exact absurd hsearches (of_decide_eq_true (List.mem_filter.mp hleft).2)

/-- Otherwise it waits, unless it gets the answer that it waits for. -/
theorem waits_register (hlan : Lan hosts) (h : Honest hosts host station) {other : ι}
    {item : Request} (hip4 : item.ip4 = some (hosts other).ip4Addr) (hwaits : Waits item station) :
    let next := station.take (step (hosts host)) .register
    Answered item (macReply (hosts other).ip4Addr (hosts other).mac) next ∨ Waits item next := by
  intro next
  obtain ⟨server, hserver, hitem⟩ := hwaits
  cases hregistering : server.registering with
  | none => exact Or.inr ⟨server, state_register_idle hserver hregistering, hitem⟩
  | some registering =>
    obtain ⟨hknows, hasked⟩ := h.knows hserver
    by_cases hsame : registering.spa = (hosts other).ip4Addr
    · obtain ⟨holder, hholder, hmac⟩ := hknows.registering registering hregistering
      obtain rfl : holder = other := hlan.distinct holder other (hholder.trans hsame)
      rw [← hsame] at hip4
      rw [hmac, hholder]
      exact Or.inl (answered_register hlan h hserver hregistering hitem hip4)
    · refine Or.inr ⟨_, (take_register hlan h hserver hregistering).1, ?_⟩
      obtain ⟨hmac, -, -⟩ := hasked.waiting item hitem _ hip4
      have hkept : ¬ Searches registering.sha registering.spa item := by
        rw [Searches, hmac, hip4]
        rintro (hnone | hspa)
        · exact absurd hnone (Option.some_ne_none _).symm
        · exact hsame (Option.some.inj hspa).symm
      exact List.mem_filter.mpr ⟨hitem, decide_eq_true hkept⟩

/-- The ARP reply goes into the cache, and then it is registered. -/
theorem take_replyMessage (hlan : Lan hosts) (hserver : station.state = some server)
    (hidle : server.registering = none) (other : ι) :
    (station.take (step (hosts host))
      (.receive (replyMessage (hosts other) (hosts host)))).state = some { server with
        arpCache := insertArpCache server.arpCache (hosts other).ip4Addr (hosts other).mac
        registering := some ⟨(hosts other).mac, (hosts other).ip4Addr⟩ } := by
  have hmac := hlan.mac_length other
  have hasking := hlan.mac_length host
  show (step (hosts host) station.state _).1 = _
  rw [hserver, step_receive_idle _ _ hidle]
  rw [receive_reply hmac hasking hmac (hlan.ip4_length other) hasking (hlan.ip4_length host)
    (List.append_nil _).symm]

end Registering

section Progress

variable {hosts : ι → Config} {stations : ι → LanStation} {host other : ι} {item : Request}

/-- All hosts keep their guarantees. -/
def AllHonest (hosts : ι → Config) (stations : ι → LanStation) : Prop :=
  ∀ host, Honest hosts host (stations host)

/-- All hosts keep their guarantees, and a request waits at one of them. -/
structure Pending (hosts : ι → Config) (host : ι) (item : Request) (stations : ι → LanStation) :
    Prop where
  honest : AllHonest hosts stations
  waits : Waits item (stations host)

/-- No host waits for its own MAC address. -/
theorem Pending.asked (h : Pending hosts host item stations)
    (hip4 : item.ip4 = some (hosts other).ip4Addr) :
    other ≠ host ∧ AsksOther hosts (hosts host).mac (hosts host).ip4Addr (hosts other).ip4Addr ∧
      (hosts host).arpRequest (hosts other).ip4Addr ∈ (stations host).outputs := by
  obtain ⟨server, hserver, hitem⟩ := h.waits
  obtain ⟨-, hasked⟩ := (h.honest host).knows hserver
  obtain ⟨-, hothers, hsent⟩ := hasked.waiting item hitem _ hip4
  refine ⟨?_, hothers, hsent⟩
  rintro rfl
  exact hothers.other other rfl rfl

variable [DecidableEq ι]

theorem lanStep_self (hosts : ι → Config) (stations : ι → LanStation) (host : ι) (event : Event) :
    (lanStep hosts stations (host, event)).1 host =
      (stations host).take (step (hosts host)) event :=
  netStep_self ..

theorem AllHonest.next (hlan : Lan hosts) (h : AllHonest hosts stations) {event : ι × Event}
    (hok : OnLan stations event) : AllHonest hosts (lanStep hosts stations event).1 := by
  obtain ⟨host, event⟩ := event
  intro other
  by_cases hother : other = host
  · rw [hother, lanStep_self]
    exact honest_step hlan h hok
  · rw [lanStep, netStep_other _ _ hother]
    exact h other

/-- What has been put on the link can be delivered ever after. -/
theorem OnLan.later {event : ι × Event} (h : OnLan stations event) (hosts : ι → Config)
    (before : ι × Event) : OnLan (lanStep hosts stations before).1 event := by
  obtain ⟨host, event⟩ := event
  cases event with
  | receive m =>
    obtain ⟨sender, output, houtput, hcarries⟩ := h
    refine ⟨sender, output, ?_, hcarries⟩
    by_cases hsender : sender = before.1
    · rw [hsender, lanStep_self, Station.outputs_take, ← hsender]
      exact List.mem_append_left _ houtput
    · rw [lanStep, netStep_other _ _ hsender]
      exact houtput
  | _ => exact h

/-- What happens elsewhere leaves a request where it waits. -/
theorem Pending.elsewhere (hlan : Lan hosts) (h : Pending hosts host item stations)
    (hother : other ≠ host) {event : Event} (hok : OnLan stations (other, event)) :
    Pending hosts host item (lanStep hosts stations (other, event)).1 where
  honest := h.honest.next hlan hok
  waits := by
    rw [lanStep, netStep_other _ _ hother.symm]
    exact h.waits

/-- The host that is asked can answer. -/
theorem canReach_arpReply (hlan : Lan hosts) (h : Pending hosts host item stations)
    (hip4 : item.ip4 = some (hosts other).ip4Addr) :
    CanReach (lanStep hosts) OnLan stations fun next ↦ Pending hosts host item next ∧
      OnLan next (host, .receive (replyMessage (hosts other) (hosts host))) := by
  obtain ⟨hother, -, -⟩ := h.asked hip4
  have hregister : OnLan stations (other, .register) := trivial
  have hpending := h.elsewhere hlan hother hregister
  have hidle : Idle ((lanStep hosts stations (other, .register)).1 other) := by
    rw [lanStep_self]
    exact idle_register hlan (h.honest other)
  apply CanReach.next hregister
  generalize (lanStep hosts stations (other, .register)).1 = stations at hpending hidle ⊢
  obtain ⟨-, hothers, hsent⟩ := hpending.asked hip4
  let m : LinkMessage := ⟨[], 0, (hosts host).mac, bcAddr, arpBytes 1 (hosts host).mac
    (hosts host).ip4Addr bcAddr (hosts other).ip4Addr ++ List.replicate 16 0⟩
  have hok : OnLan stations (other, .receive m) :=
    ⟨host, (hosts host).arpRequest (hosts other).ip4Addr, hsent, m.pl, rfl, List.prefix_rfl⟩
  apply CanReach.next hok
  apply CanReach.here
  refine ⟨hpending.elsewhere hlan hother hok, other, ?_⟩
  obtain ⟨server, hserver, hnone⟩ := hidle
  let answer : Output := .arpReply [] (hosts other).mac (hosts host).mac
    (replyMessage (hosts other) (hosts host)).pl 0
  have hstep : step (hosts other) (stations other).state (.receive m) =
      (some server, [answer]) := by
    rw [hserver, step_receive_idle _ _ hnone]
    exact receive_request (hlan.mac_length other) hothers.sha_length rfl hothers.sha_length
      hothers.spa_length rfl hothers.tpa_length rfl (hothers.other other rfl) rfl
  refine ⟨answer, ?_, (replyMessage (hosts other) (hosts host)).pl, rfl, List.prefix_rfl⟩
  rw [lanStep_self, Station.outputs_take, hstep]
  exact List.mem_append_right _ List.mem_cons_self

/-- The answer reaches the request. -/
theorem canReach_answered (hlan : Lan hosts) (h : Pending hosts host item stations)
    (hip4 : item.ip4 = some (hosts other).ip4Addr)
    (hreply : OnLan stations (host, .receive (replyMessage (hosts other) (hosts host)))) :
    CanReach (lanStep hosts) OnLan stations fun next ↦
      Answered item (macReply (hosts other).ip4Addr (hosts other).mac) (next host) := by
  have hregister : OnLan stations (host, .register) := trivial
  have hhonest := h.honest.next hlan hregister
  have hnext : (lanStep hosts stations (host, .register)).1 host =
      (stations host).take (step (hosts host)) .register := lanStep_self ..
  have hidle := idle_register hlan (h.honest host)
  have hreply := hreply.later hosts (host, .register)
  apply CanReach.next hregister
  rcases waits_register hlan (h.honest host) hip4 h.waits with hanswered | hwaits
  · exact CanReach.here (hnext ▸ hanswered)
  rw [← hnext] at hwaits hidle
  generalize (lanStep hosts stations (host, .register)).1 = stations at *
  obtain ⟨server, hserver, hnone⟩ := hidle
  obtain ⟨server', hserver', hitem⟩ := hwaits
  obtain rfl : server = server' := Option.some.inj (hserver.symm.trans hserver')
  have htaken := lanStep_self hosts stations host
    (.receive (replyMessage (hosts other) (hosts host)))
  have hstate := (congrArg Station.state htaken).trans
    (take_replyMessage hlan hserver hnone other)
  have hhonest := hhonest.next hlan hreply
  apply CanReach.next hreply
  generalize (lanStep hosts stations _).1 = stations at *
  have hregister : OnLan stations (host, .register) := trivial
  apply CanReach.next hregister
  apply CanReach.here
  rw [lanStep_self]
  exact answered_register hlan (hhonest host) hstate rfl hitem hip4

/-- A request that waits for the MAC address of a host can get its answer, in every state that the
network reaches. Assumes: hosts with addresses of their own, whose resolvers are asked for
addresses, and a link that delivers only what one of the hosts has put on it. -/
theorem lan_can_answer (hlan : Lan hosts) {events : List (ι × Event)}
    (hevents : Along (lanStep hosts) OnLan lanStart events)
    (hwaits : Waits item ((run (lanStep hosts) lanStart events).1 host))
    (hip4 : item.ip4 = some (hosts other).ip4Addr) :
    CanReach (lanStep hosts) OnLan (run (lanStep hosts) lanStart events).1 fun next ↦
      Answered item (macReply (hosts other).ip4Addr (hosts other).mac) (next host) := by
  have hpending : Pending hosts host item (run (lanStep hosts) lanStart events).1 :=
    ⟨honest_run hlan hevents, hwaits⟩
  apply (canReach_arpReply hlan hpending hip4).trans
  rintro next ⟨hnext, hreply⟩
  exact canReach_answered hlan hnext hip4 hreply

end Progress

/-- 10.0.0.1 after its request. -/
theorem lan_can_answer_two_hosts :
    CanReach (lanStep sampleHosts) OnLan (run (lanStep sampleHosts) lanStart sampleAsked).1
      fun next ↦ Answered ⟨none, some [10, 0, 0, 2], ascii "ip4", 99⟩
        (macReply [10, 0, 0, 2] [2, 0, 0, 0, 0, 2]) (next false) := by
  have hwaits : Waits ⟨none, some [10, 0, 0, 2], ascii "ip4", 99⟩
      ((run (lanStep sampleHosts) lanStart sampleAsked).1 false) :=
    ⟨⟨[⟨none, some [10, 0, 0, 2], ascii "ip4", 99⟩], [], none, none⟩, by decide +kernel,
      List.mem_cons_self⟩
  exact @lan_can_answer _ sampleHosts false true _ _ lan_sampleHosts _ onLan_sampleAsked hwaits rfl

end MyIPNG.Arp
