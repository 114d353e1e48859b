import MyIPNG.Arp.Cache
import MyIPNG.Arp.Resolution
import MyIPNG.Icmp.Server
import MyIPNG.Ip4.RunOut
import MyIPNG.Ip4.Wire
import MyIPNG.Tcp.Wire
import MyIPNG.Udp.Server

/-!
# Results that cross the servers

Each server of the stack builds packets that another one, or the same one on another host, takes
apart. The theorems here put the two sides together.

`emitted_packets_verify` is about checksums. Both checksum functions are the one of RFC 1071 for
every buffer of at most `131000` bytes, and every packet that the stack makes passes the test of its
receiver: the headers of the IP server, the segments of TCP, the replies and the errors of ICMP, and
the datagrams of UDP.

`arp_resolution` is about the resolution of an address: a `search-mac` text at one ARP server, the
two packets between it and the server that has the address, the answers to the list of requests, and
the parser of the IP server that reads the MAC address from the answer.
-/

set_option autoImplicit false
set_option relaxedAutoImplicit false

namespace MyIPNG.Stack

open Base Utils

/-! ### Checksums -/

/-- What the IP server sums of a packet of `run_out`. -/
theorem ipChecksum_completeMsg (datagram : Ip4.Datagram) (fragmentOffset currentFragmentSize : ℕ) :
    ipChecksum ((Ip4.completeMsg datagram fragmentOffset currentFragmentSize).take
      (Ip4.headerSize (Ip4.completeMsg datagram fragmentOffset currentFragmentSize))) = 0 := by
  have hfirst : Ip4.byteAt (Ip4.completeMsg datagram fragmentOffset currentFragmentSize) 0 =
      ((4 : UInt8) <<< 4) ||| 5 := rfl
  have hsize :
      Ip4.headerSize (Ip4.completeMsg datagram fragmentOffset currentFragmentSize) = 20 := by
    rw [Ip4.headerSize, hfirst]
    decide
  have hverifies := Ip4.ipChecksum_fragmentHeader datagram fragmentOffset currentFragmentSize
  have hlength := Ip4.length_fragmentHeader datagram fragmentOffset currentFragmentSize
    (ipChecksum (Ip4.fragmentHeader datagram fragmentOffset currentFragmentSize 0))
  rw [hsize, Ip4.completeMsg, List.take_left' hlength]
  exact hverifies

/-- What the receiver sums of a segment of `send_tcp_packet`. Assumes: addresses of four bytes and a
segment size of sixteen bits. -/
theorem tcpUdpChecksum_sendTcpPacket {accepts : ℕ → Bool} {header : Tcp.OutSegment} {mss : Tcp.Mss}
    (hfrom : header.fromAddr.length = 4) (hto : header.toAddr.length = 4)
    (hmss : mss.value < 2 ^ 16) {segment : Tcp.OutSegment}
    (hsegment : segment ∈ (Tcp.sendTcpPacket accepts header mss).1) :
    tcpUdpChecksum segment.fromAddr segment.toAddr (Tcp.tcpPacket segment) 6 = 0 := by
  obtain ⟨seqNr, piece, rfl, hpiece⟩ :=
    Tcp.sendTcpLoop_header accepts header mss 0 header.payload header.seqNr 0 segment hsegment
  refine Tcp.tcpUdpChecksum_tcpPacket hfrom hto ?_
  change 20 + piece.length ≤ 131000
  omega

/-- What the receiver sums of a datagram of UDP's `run_out`. Assumes: at most `131000` bytes. -/
theorem tcpUdpChecksum_runOut {fresh : ℕ → UInt8} {source destination : Ip4.Address}
    {pl datagram : List UInt8} (h : Udp.runOut fresh source destination pl = some datagram)
    (hshort : datagram.length ≤ 131000) :
    tcpUdpChecksum source.bytes destination.bytes datagram 17 = 0 := by
  obtain ⟨hports, -, rfl⟩ := Udp.runOut_eq_some h
  rw [Udp.length_udpPacket hports] at hshort
  exact Udp.checksum_udpPacket source destination hports hshort

/-- The checksums of the stack are those of RFC 1071, for `tcp_udp_checksum` with the addresses, the
protocol and the length as a pseudo header, and whatever a server of the stack builds passes the
test of its receiver. Assumes: buffers of at most `131000` bytes, for which the accumulator does not
overflow, addresses of four bytes, and the sixteen bits of a segment size. -/
theorem emitted_packets_verify :
    (∀ p : List UInt8, p.length ≤ 131000 → ipChecksum p = rfc1071 p) ∧
    (∀ (source destination p : List UInt8) (protocolNumber : UInt8), source.length = 4 →
      destination.length = 4 → p.length ≤ 131000 →
        tcpUdpChecksum source destination p protocolNumber =
          rfc1071 (widePseudoHeader source destination protocolNumber p.length ++ p) ∧
        (p.length < 65536 → tcpUdpChecksum source destination p protocolNumber =
          rfc1071 (pseudoHeader source destination protocolNumber p.length ++ p))) ∧
    (∀ (datagram : Ip4.Datagram) (fragmentOffset currentFragmentSize : ℕ),
      let pl := Ip4.completeMsg datagram fragmentOffset currentFragmentSize
      ipChecksum (pl.take (Ip4.headerSize pl)) = 0) ∧
    (∀ (accepts : ℕ → Bool) (header : Tcp.OutSegment) (mss : Tcp.Mss),
      header.fromAddr.length = 4 → header.toAddr.length = 4 → mss.value < 2 ^ 16 →
        ∀ segment ∈ (Tcp.sendTcpPacket accepts header mss).1,
          tcpUdpChecksum segment.fromAddr segment.toAddr (Tcp.tcpPacket segment) 6 = 0) ∧
    (∀ (m : Icmp.InMessage) (reply : Icmp.OutMessage), m.pl.length ≤ 131000 →
      Icmp.runIn m = some reply → ipChecksum reply.pl = 0) ∧
    (∀ (m : Icmp.InMessage) (error : Icmp.OutMessage), Icmp.runErr m = some error →
      ipChecksum error.pl = 0) ∧
    (∀ (fresh : ℕ → UInt8) (source destination : Ip4.Address) (pl datagram : List UInt8),
      datagram.length ≤ 131000 → Udp.runOut fresh source destination pl = some datagram →
        tcpUdpChecksum source.bytes destination.bytes datagram 17 = 0) := by
  refine ⟨fun p hlength ↦ ipChecksum_eq_rfc1071 hlength, ?_, ipChecksum_completeMsg, ?_, ?_, ?_, ?_⟩
  · intro source destination p protocolNumber hsource hdestination hlength
    refine ⟨tcpUdpChecksum_eq_rfc1071 protocolNumber hsource hdestination hlength, fun hsmall ↦ ?_⟩
    rw [tcpUdpChecksum_eq protocolNumber hsource hdestination hsmall]
    refine ipChecksum_eq_rfc1071 ?_
    simp only [pseudoHeader, List.length_append, List.length_cons, List.length_nil]
    omega
  · intro accepts header mss hfrom hto hmss segment hsegment
    exact tcpUdpChecksum_sendTcpPacket hfrom hto hmss hsegment
  · intro m reply hshort hreply
    exact Icmp.ipChecksum_runIn hshort hreply
  · intro m error herror
    exact Icmp.ipChecksum_runErr herror
  · intro fresh source destination pl datagram hshort hout
    exact tcpUdpChecksum_runOut hout hshort

/-- The three bytes of one word and an odd byte, and an echo request that is all zero behind its
type. -/
theorem emitted_packets_verify_echo :
    ipChecksum [1, 2, 3] = rfc1071 [1, 2, 3] ∧
      ∃ reply, Icmp.runIn ⟨[], [10, 0, 0, 1], [10, 0, 0, 2], [8, 0, 0xf7, 0xff, 0, 0, 0, 0]⟩ =
        some reply ∧ ipChecksum reply.pl = 0 := by
  obtain ⟨hip, -, -, -, hecho, -⟩ := emitted_packets_verify
  refine ⟨hip [1, 2, 3] (by decide), _, rfl, ?_⟩
  exact hecho ⟨[], [10, 0, 0, 1], [10, 0, 0, 2], [8, 0, 0xf7, 0xff, 0, 0, 0, 0]⟩ _ (by decide) rfl

/-! ### Resolution of an address -/

/-- `addr_mac`: six bytes. -/
structure MacAddress where
  bytes : List UInt8
  length_eq : bytes.length = 6
deriving DecidableEq, Repr

/-- A request that waits at an ARP server, with addresses of their lengths. -/
structure PendingRequest where
  mac : Option MacAddress
  ip4 : Option Ip4.Address
  searchedBy : List UInt8
  msgNr : UInt64
deriving DecidableEq, Repr

/-- The `request` of a pending request. -/
def PendingRequest.record (pending : PendingRequest) : Arp.Request where
  mac := pending.mac.map MacAddress.bytes
  ip4 := pending.ip4.map Ip4.Address.bytes
  searchedBy := pending.searchedBy
  msgNr := pending.msgNr

theorem wellFormed_record (pending : PendingRequest) : pending.record.WellFormed := by
  constructor
  · intro bytes hbytes
    obtain ⟨mac, -, rfl⟩ := Option.map_eq_some_iff.mp hbytes
    exact mac.length_eq
  · intro bytes hbytes
    obtain ⟨ip4, -, rfl⟩ := Option.map_eq_some_iff.mp hbytes
    exact ip4.length_eq

/-- The parser of `th_sender` takes the MAC address from the text that answers `search-mac`. -/
theorem macAnswer_macReply {reply : Ip4.ResolverReply} {ip4 mac : List UInt8} (hmac : mac ≠ [])
    (hdata : reply.data = Arp.macReply ip4 mac) : Ip4.macAnswer reply = .mac mac := by
  have habsent : (61 : UInt8) ∉ ascii "ip4:" ++ toStr 46 false ip4 := by
    intro hmem
    rcases List.mem_append.mp hmem with hfront | hbehind
    · exact absurd hfront (by decide +kernel)
    · exact not_mem_toStr (by decide) (fun byte ↦ (byteText_spec false byte).2.2.2.2) ip4 hbehind
  have hcut : reply.data = (ascii "ip4:" ++ toStr 46 false ip4) ++
      (61 :: ascii "mac:" ++ toStr 58 true mac) := by
    rw [hdata, Arp.macReply, List.append_assoc]
    rfl
  have hfind : find (ascii "=mac:") reply.data =
      some (ascii "ip4:" ++ toStr 46 false ip4).length := by
    rw [hcut]
    exact find_behind habsent (ascii "mac:") (toStr 58 true mac)
  have hrest : reply.data.drop ((ascii "ip4:" ++ toStr 46 false ip4).length + 5) =
      toStr 58 true mac := by
    rw [hcut, ← List.drop_drop, List.drop_left]
    rfl
  have haddress : addrOfText reply.freshBytes (toStr 58 true mac) ⟨ascii ":", by decide⟩ true =
      some mac :=
    addrOfText_toStr reply.freshBytes (fun byte ↦ (byteText_spec true byte).2.2.2.1) hmac
      (by decide)
  rw [Ip4.macAnswer, hfind]
  simp only [hrest, haddress]

theorem bytes_ne_bytes {first second : Ip4.Address} (h : first ≠ second) :
    first.bytes ≠ second.bytes := by
  intro hbytes
  refine h ?_
  cases first
  cases second
  exact (Ip4.Address.mk.injEq _ _ _ _).mpr hbytes

/-- The entries of an ARP cache. -/
def cacheEntries (cache : List (Ip4.Address × MacAddress)) : List (List UInt8 × List UInt8) :=
  cache.map fun entry ↦ (entry.1.bytes, entry.2.bytes)

theorem length_of_mem_cacheEntries (cache : List (Ip4.Address × MacAddress)) :
    ∀ entry ∈ cacheEntries cache, entry.1.length = 4 := by
  intro entry hentry
  obtain ⟨typed, -, rfl⟩ := List.mem_map.mp hentry
  exact typed.1.length_eq

theorem lookup_cacheEntries {cache : List (Ip4.Address × MacAddress)} {ip4 : Ip4.Address}
    (habsent : ∀ entry ∈ cache, entry.1 ≠ ip4) : (cacheEntries cache).lookup ip4.bytes = none := by
  rw [List.lookup_eq_none_iff]
  intro entry hentry
  obtain ⟨typed, hmem, rfl⟩ := List.mem_map.mp hentry
  simpa using (bytes_ne_bytes (habsent typed hmem)).symm

/-- A MAC address is resolved from one ARP server to another. `A` handles `search-mac` for the
address of `B`, which is not in its cache; the packet that it sends makes `B` answer; the answer
maps the address of `B` to its MAC address in the cache of `A`, and `A` answers each pending request
for the one or the other once, removes those and keeps the rest in order. The parser of the IP
server reads the MAC address of `B` from the text of every request that did not come by MAC address.
Assumes: the two IP addresses differ, and `B` is between two packets. What the link puts behind a
packet, and its senders and numbers, are arbitrary. -/
theorem arp_resolution (ipA ipB : Ip4.Address) (macA macB : MacAddress) (hne : ipA ≠ ipB)
    (pending : List PendingRequest) (cache : List (Ip4.Address × MacAddress))
    (hcache : ∀ entry ∈ cache, entry.1 ≠ ipB) (m : Arp.ResolverMessage)
    (hm : m.data = ascii "search-mac=" ++ toStr 46 false ipB.bytes) (serverB : Arp.Server)
    (hserverB : serverB.registering = none) (senderA senderB paddingA paddingB : List UInt8)
    (nrA nrB : UInt64) :
    let configA : Arp.Config := ⟨ipA.bytes, macA.bytes⟩
    let configB : Arp.Config := ⟨ipB.bytes, macB.bytes⟩
    let requests := pending.map PendingRequest.record
    let asked : Arp.Request := ⟨none, some ipB.bytes, m.sender, m.freshMsgNr⟩
    ∃ packet reply resolving waiting cached answered,
      Arp.step configA (some ⟨requests, cacheEntries cache, none, none⟩) (.resolve m) =
        (some resolving, []) ∧
      Arp.step configA (some resolving) .push =
        (some waiting, [.arpRequest macA.bytes Arp.bcAddr packet]) ∧
      Arp.step configB (some serverB)
          (.receive ⟨senderB, nrB, macA.bytes, Arp.bcAddr, packet ++ paddingB⟩) =
        (some serverB, [.arpReply senderB macB.bytes macA.bytes reply nrB]) ∧
      Arp.step configA (some waiting)
          (.receive ⟨senderA, nrA, macB.bytes, macA.bytes, reply ++ paddingA⟩) =
        (some cached, []) ∧
      cached.arpCache.lookup ipB.bytes = some macB.bytes ∧
      Arp.step configA (some cached) .register =
        (some answered, ((requests ++ [asked]).filter fun item ↦
          Arp.Searches macB.bytes ipB.bytes item).map fun item ↦ .pushResolverReply
            ⟨item.searchedBy, Arp.answerText macB.bytes ipB.bytes item, item.msgNr⟩) ∧
      answered.requests =
        ((requests ++ [asked]).filter fun item ↦ ¬ Arp.Searches macB.bytes ipB.bytes item) ∧
      answered.arpCache = cached.arpCache ∧
      ∀ item : Arp.Request, item.mac ≠ some macB.bytes → ∀ text : Ip4.ResolverReply,
        text.data = Arp.answerText macB.bytes ipB.bytes item →
          Ip4.macAnswer text = .mac macB.bytes := by
  intro configA configB requests asked
  have hbytes := bytes_ne_bytes hne
  have habsent := lookup_cacheEntries hcache
  have hwellFormed : ∀ item ∈ requests ++ [asked], item.WellFormed := by
    intro item hitem
    rcases List.mem_append.mp hitem with hold | hnew
    · obtain ⟨typed, -, rfl⟩ := List.mem_map.mp hold
      exact wellFormed_record typed
    · rw [List.mem_singleton.mp hnew]
      exact wellFormed_record ⟨none, some ipB, m.sender, m.freshMsgNr⟩
  refine ⟨Arp.arpBytes 1 macA.bytes ipA.bytes Arp.bcAddr ipB.bytes ++ List.replicate 16 0,
    Arp.arpBytes 2 macB.bytes ipB.bytes macA.bytes ipA.bytes,
    ⟨requests, cacheEntries cache, some ⟨asked, macA.bytes, ipA.bytes, ipB.bytes⟩, none⟩,
    ⟨requests ++ [asked], cacheEntries cache, none, none⟩,
    ⟨requests ++ [asked], Arp.insertArpCache (cacheEntries cache) ipB.bytes macB.bytes, none,
      some ⟨macB.bytes, ipB.bytes⟩⟩,
    ⟨(requests ++ [asked]).filter fun item ↦ ¬ Arp.Searches macB.bytes ipB.bytes item,
      Arp.insertArpCache (cacheEntries cache) ipB.bytes macB.bytes, none, none⟩,
    ?_, ?_, ?_, ?_, Arp.lookup_insertArpCache_self (by simp [habsent]), ?_, rfl, rfl, ?_⟩
  · exact Arp.resolve_searchMac ipB.length_eq ipA.length_eq hbytes hm
      (length_of_mem_cacheEntries cache) habsent
  · change Arp.pushRequest _ _ = _
    rw [Arp.pushRequest, Arp.arpRequestPacket_eq macA.length_eq ipA.length_eq ipB.length_eq]
  · rw [Arp.step, hserverB]
    exact Arp.receive_request macB.length_eq macA.length_eq rfl macA.length_eq ipA.length_eq rfl
      ipB.length_eq rfl hbytes (List.append_assoc _ _ _)
  · exact Arp.receive_reply macB.length_eq macA.length_eq macB.length_eq ipB.length_eq
      macA.length_eq ipA.length_eq (by rfl)
  · change Arp.register _ _ = _
    rw [Arp.register]
    simp only [Arp.registerResolveReply_eq macB.length_eq ipB.length_eq hwellFormed,
      Option.map_some, List.map_map]
    rfl
  · intro item hitem text htext
    rw [Arp.answerText, if_neg hitem] at htext
    exact macAnswer_macReply (List.ne_nil_of_length_eq_add_one macB.length_eq) htext

/-- `10.0.0.1` resolves `10.0.0.2`, with a request for another address in front of it. -/
theorem arp_resolution_two_hosts :
    ∃ answered : Arp.Server, answered.requests = [⟨none, some [10, 0, 0, 3], [], 1⟩] ∧
      answered.arpCache.lookup [10, 0, 0, 2] = some [2, 0, 0, 0, 0, 2] := by
  obtain ⟨packet, reply, resolving, waiting, cached, answered, -, -, -, -, hcached, -, hrequests,
    hcache, -⟩ := arp_resolution ⟨[10, 0, 0, 1], rfl⟩ ⟨[10, 0, 0, 2], rfl⟩
      ⟨[2, 0, 0, 0, 0, 1], rfl⟩ ⟨[2, 0, 0, 0, 0, 2], rfl⟩ (by decide)
      [⟨none, some ⟨[10, 0, 0, 3], rfl⟩, [], 1⟩] [] (by decide)
      ⟨[], 7, ascii "search-mac=" ++ toStr 46 false [10, 0, 0, 2], fun _ ↦ 0, 99⟩ rfl
      Arp.Server.start rfl [] [] [] [] 0 0
  exact ⟨answered, hrequests, hcache ▸ hcached⟩

end MyIPNG.Stack
