import MyIPNG.Arp.Resolver

/-!
# A request and its answer between two ARP servers

The pieces of an address resolution, each as what it makes of addresses of the right length: the
command of a `search-mac` text, the ARP request that follows it (`arpRequestPacket_eq`), the answer
of the server that has the address (`receive_request`), what the answer does at the server that
asked (`receive_reply`) and what it does to the list of requests (`registerResolveReply_eq`).
-/

set_option autoImplicit false
set_option relaxedAutoImplicit false

namespace MyIPNG.Arp

open Base Utils

/-! ### The request -/

theorem decimal_plain (byte : UInt8) : 46 ∉ byteText false byte ∧ 61 ∉ byteText false byte :=
  ⟨(byteText_spec false byte).2.2.1, (byteText_spec false byte).2.2.2.2⟩

/-- The command of a `search-mac` text. -/
theorem command_searchMac {m : ResolverMessage} {ip4 : List UInt8} (hip4 : ip4 ≠ [])
    (hdata : m.data = ascii "search-mac=" ++ toStr 46 false ip4) :
    command m = .searchMac ip4 := by
  have hkey : (61 : UInt8) ∉ ascii "search-mac" := by decide +kernel
  have hvalue : (61 : UInt8) ∉ toStr 46 false ip4 :=
    not_mem_toStr (by decide) (fun byte ↦ (decimal_plain byte).2) ip4
  have hsplit : split m.data ⟨ascii "=", by decide⟩ =
      [ascii "search-mac", toStr 46 false ip4] := by
    rw [hdata]
    change split (ascii "search-mac" ++ 61 :: toStr 46 false ip4) ⟨[61], _⟩ = _
    rw [split_first hkey (toStr_ne_nil hip4) (by decide),
      split_absent hvalue (toStr_ne_nil hip4) (by decide)]
  have haddress : addrOfText m.freshBytes (toStr 46 false ip4) ⟨ascii ".", by decide⟩ false =
      some ip4 := addrOfText_toStr m.freshBytes (fun byte ↦ (decimal_plain byte).1) hip4 (by decide)
  unfold command
  rw [hsplit]
  simp only [if_true, haddress]
  rfl

/-- Addresses of one length are compared as a whole. -/
theorem addrEq_of_length_eq {a b : List UInt8} (h : a.length = b.length) :
    addrEq a b = some (decide (b = a)) := by
  rw [addrEq, if_pos h.le, h, List.take_length]

theorem addrEq_self (a : List UInt8) : addrEq a a = some true := by
  rw [addrEq_of_length_eq rfl, decide_eq_true rfl]

/-- A request for an address that is neither the server's own nor in the cache has to wait. -/
theorem resolve_searchMac {config : Config} {m : ResolverMessage} {server : Server}
    {ip4 : List UInt8} (hlength : ip4.length = 4) (hown : config.ip4Addr.length = 4)
    (hother : config.ip4Addr ≠ ip4)
    (hdata : m.data = ascii "search-mac=" ++ toStr 46 false ip4)
    (hkeys : ∀ entry ∈ server.arpCache, entry.1.length = 4)
    (habsent : server.arpCache.lookup ip4 = none) :
    resolve config m server =
      (some { server with resolving := some {
        request := ⟨none, some ip4, m.sender, m.freshMsgNr⟩
        sha := config.mac
        spa := config.ip4Addr
        tpa := ip4 } }, []) := by
  have hip4 : ip4 ≠ [] := List.ne_nil_of_length_eq_add_one hlength
  have hfind : findArpCache server.arpCache ip4 = some none := by
    rw [findArpCache, if_neg, habsent]
    rw [List.any_eq_true]
    rintro ⟨entry, hentry, hdiffers⟩
    exact absurd (hkeys entry hentry) (by simpa [hlength] using hdiffers)
  have hknown : knownMac config server.arpCache ip4 = some none := by
    rw [knownMac, addrEq_of_length_eq (hlength.trans hown.symm)]
    simpa [hother] using hfind
  rw [resolve, command_searchMac hip4 hdata]
  simp only [hknown]

/-- The bytes of an ARP packet for Ethernet and IPv4. -/
def arpBytes (operation : UInt8) (sha spa tha tpa : List UInt8) : List UInt8 :=
  [0, 1, 8, 0, 6, 4, 0, operation] ++ sha ++ spa ++ tha ++ tpa

/-- The ARP request for a target address, padded to 44 bytes. -/
theorem arpRequestPacket_eq {sha spa tpa : List UInt8} (hsha : sha.length = 6)
    (hspa : spa.length = 4) (htpa : tpa.length = 4) :
    arpRequestPacket sha spa tpa =
      some (arpBytes 1 sha spa bcAddr tpa ++ List.replicate 16 0) := by
  match sha, spa, tpa, hsha, hspa, htpa with
  | [_, _, _, _, _, _], [_, _, _, _], [_, _, _, _], _, _, _ => rfl

/-! ### The two packets, received -/

/-- What `run_in` reads from an ARP packet, whatever the link put behind it. -/
theorem fields_arpBytes {sha spa tha tpa : List UInt8} (hsha : sha.length = 6)
    (hspa : spa.length = 4) (htha : tha.length = 6) (htpa : tpa.length = 4) (operation : UInt8)
    (padding : List UInt8) :
    28 ≤ (arpBytes operation sha spa tha tpa ++ padding).length ∧
      slice (arpBytes operation sha spa tha tpa ++ padding) 8 6 = sha ∧
      slice (arpBytes operation sha spa tha tpa ++ padding) 14 4 = spa ∧
      slice (arpBytes operation sha spa tha tpa ++ padding) 24 4 = tpa ∧
      (arpBytes operation sha spa tha tpa ++ padding).take 28 =
        arpBytes operation sha spa tha tpa := by
  match sha, spa, tha, tpa, hsha, hspa, htha, htpa with
  | [_, _, _, _, _, _], [_, _, _, _], [_, _, _, _, _, _], [_, _, _, _], _, _, _, _ =>
    exact ⟨by simp [arpBytes], rfl, rfl, rfl, rfl⟩

/-- The answer to a request: the request with the operation of a reply, the own addresses in the
place of the sender and those of the sender in the place of the target. -/
theorem arpReplyPacket_eq {config : Config} {pl sha spa tha tpa : List UInt8}
    (hmac : config.mac.length = 6) (hsha : sha.length = 6) (hspa : spa.length = 4)
    (htha : tha.length = 6) (htpa : tpa.length = 4)
    (hpl : pl.take 28 = arpBytes 1 sha spa tha tpa) :
    arpReplyPacket config pl sha spa tpa = some (arpBytes 2 config.mac tpa sha spa) := by
  rw [arpReplyPacket, hpl]
  generalize config.mac = mac at *
  match mac, sha, spa, tha, tpa, hmac, hsha, hspa, htha, htpa with
  | [_, _, _, _, _, _], [_, _, _, _, _, _], [_, _, _, _], [_, _, _, _, _, _], [_, _, _, _],
    _, _, _, _, _ => simp [putAddr, overwrite, arpBytes]

section Received

variable {config : Config} {m : LinkMessage} {server : Server} {operation : UInt8}
  {sha spa tha tpa padding : List UInt8}

/-- What `run_in` does with an ARP packet for Ethernet and IPv4. Assumes: addresses of the right
lengths. -/
theorem receive_arpBytes (hfrom : m.fromAddr.length = 6) (hto : m.toAddr.length = 6)
    (hsha : sha.length = 6) (hspa : spa.length = 4) (htha : tha.length = 6)
    (htpa : tpa.length = 4) (hpl : m.pl = arpBytes operation sha spa tha tpa ++ padding) :
    receive config m server =
      if operation.toNat = 1 then arpRequested config m sha spa tpa server
      else if operation.toNat = 2 then
        (some { server with
          arpCache := insertArpCache server.arpCache spa sha
          registering := some ⟨sha, spa⟩ }, [])
      else (some server, []) := by
  obtain ⟨hlong, hreadSha, hreadSpa, hreadTpa, -⟩ :=
    fields_arpBytes hsha hspa htha htpa operation padding
  have hhtype : getUint16 m.pl 0 = 1 := by
    rw [hpl]
    change (0 : UInt8).toNat <<< 8 ||| (1 : UInt8).toNat = 1
    decide
  have hptype : getUint16 m.pl 2 = 0x0800 := by
    rw [hpl]
    change (8 : UInt8).toNat <<< 8 ||| (0 : UInt8).toNat = 0x0800
    decide
  have hhlen : m.pl.getD 4 0 = 6 := by rw [hpl]; rfl
  have hplen : m.pl.getD 5 0 = 4 := by rw [hpl]; rfl
  have hoperation : getUint16 m.pl 6 = operation.toNat := by
    rw [hpl]
    change (0 : UInt8).toNat <<< 8 ||| operation.toNat = operation.toNat
    simp
  rw [← hpl] at hlong hreadSha hreadSpa hreadTpa
  rw [receive_of_passes config ⟨hfrom, hto, hlong, hhtype, hptype, hhlen, hplen⟩ server,
    hoperation, hreadSha, hreadSpa, hreadTpa]

/-- A server answers a request for its own address. Assumes: addresses of the right lengths, and
another address of the sender. -/
theorem receive_request (hmac : config.mac.length = 6) (hfrom : m.fromAddr.length = 6)
    (hto : m.toAddr.length = 6) (hsha : sha.length = 6) (hspa : spa.length = 4)
    (htha : tha.length = 6) (htpa : tpa.length = 4) (hown : tpa = config.ip4Addr)
    (hother : spa ≠ tpa) (hpl : m.pl = arpBytes 1 sha spa tha tpa ++ padding) :
    receive config m server = (some server,
      [.arpReply m.sender config.mac sha (arpBytes 2 config.mac tpa sha spa) m.msgNr]) := by
  obtain ⟨-, -, -, -, hpacket⟩ := fields_arpBytes hsha hspa htha htpa 1 padding
  rw [← hpl] at hpacket
  have hsource : putAddr (List.replicate 6 0) 0 config.mac = some config.mac := by
    generalize config.mac = mac at *
    match mac, hmac with
    | [_, _, _, _, _, _], _ => rfl
  have hequal : addrEq tpa config.ip4Addr = some true := by rw [hown, addrEq_self]
  rw [receive_arpBytes hfrom hto hsha hspa htha htpa hpl, if_pos (by decide), arpRequested, hequal]
  simp only [arpReplyPacket_eq hmac hsha hspa htha htpa hpacket, hsource, hother, if_false]

/-- A reply goes into the cache, and then to the list of requests. Assumes: addresses of the right
lengths. -/
theorem receive_reply (hfrom : m.fromAddr.length = 6) (hto : m.toAddr.length = 6)
    (hsha : sha.length = 6) (hspa : spa.length = 4) (htha : tha.length = 6)
    (htpa : tpa.length = 4) (hpl : m.pl = arpBytes 2 sha spa tha tpa ++ padding) :
    receive config m server =
      (some { server with
        arpCache := insertArpCache server.arpCache spa sha
        registering := some ⟨sha, spa⟩ }, []) := by
  rw [receive_arpBytes hfrom hto hsha hspa htha htpa hpl, if_neg (by decide), if_pos (by decide)]

end Received

/-! ### The list of requests -/

/-- A request for one of the two addresses of an ARP reply. -/
def Searches (sha spa : List UInt8) (item : Request) : Prop :=
  item.mac = some sha ∨ item.ip4 = some spa

instance (sha spa : List UInt8) (item : Request) : Decidable (Searches sha spa item) :=
  inferInstanceAs (Decidable (_ ∨ _))

/-- The text that answers a request for one of the two addresses. -/
def answerText (sha spa : List UInt8) (item : Request) : List UInt8 :=
  if item.mac = some sha then ip4Reply sha spa else macReply spa sha

/-- A request whose addresses have the lengths of a MAC and of an IPv4 address. -/
structure Request.WellFormed (item : Request) : Prop where
  mac_length : ∀ mac, item.mac = some mac → mac.length = 6
  ip4_length : ∀ ip4, item.ip4 = some ip4 → ip4.length = 4

/-- Whether an ARP reply answers a request. Assumes: addresses of the right lengths. -/
theorem replyFor_eq {sha spa : List UInt8} (hsha : sha.length = 6) (hspa : spa.length = 4)
    {item : Request} (hitem : item.WellFormed) :
    replyFor sha spa item =
      some (if Searches sha spa item then some (answerText sha spa item) else none) := by
  obtain ⟨mac, ip4, searchedBy, msgNr⟩ := item
  have hbyIp4 : ∀ ip4' : List UInt8, ip4 = some ip4' →
      addrEq ip4' spa = some (decide (spa = ip4')) := fun ip4' hip4 ↦
    addrEq_of_length_eq ((hitem.ip4_length ip4' hip4).trans hspa.symm)
  have hbyMac : ∀ mac' : List UInt8, mac = some mac' →
      addrEq mac' sha = some (decide (sha = mac')) := fun mac' hmac ↦
    addrEq_of_length_eq ((hitem.mac_length mac' hmac).trans hsha.symm)
  simp only [replyFor, Searches, answerText]
  cases mac with
  | none =>
    cases ip4 with
    | none => simp
    | some ip4' =>
      by_cases hsame : spa = ip4'
      · simp [hsame, addrEq_self]
      · simp [hbyIp4 ip4' rfl, hsame, Ne.symm hsame]
  | some mac' =>
    by_cases hmac : sha = mac'
    · simp [hmac, addrEq_self]
    · cases ip4 with
      | none => simp [hbyMac mac' rfl, hmac, Ne.symm hmac]
      | some ip4' =>
        by_cases hsame : spa = ip4'
        · simp [hbyMac mac' rfl, hmac, Ne.symm hmac, hsame, addrEq_self]
        · simp [hbyMac mac' rfl, hbyIp4 ip4' rfl, hmac, Ne.symm hmac, hsame, Ne.symm hsame]

/-- `register_resolve_reply` answers the requests for one of the two addresses, each once, and
keeps the others in their order. Assumes: addresses of the right lengths. -/
theorem registerResolveReply_eq {sha spa : List UInt8} (hsha : sha.length = 6)
    (hspa : spa.length = 4) {requests : List Request}
    (hrequests : ∀ item ∈ requests, item.WellFormed) :
    registerResolveReply sha spa requests =
      (some (requests.filter fun item ↦ ¬ Searches sha spa item),
        (requests.filter fun item ↦ Searches sha spa item).map fun item ↦
          ⟨item.searchedBy, answerText sha spa item, item.msgNr⟩) := by
  induction requests with
  | nil => rfl
  | cons item rest ih =>
    have hrest := ih fun other hother ↦ hrequests other (List.mem_cons_of_mem _ hother)
    have hitem := replyFor_eq hsha hspa (hrequests item List.mem_cons_self)
    rw [registerResolveReply, hitem, hrest]
    by_cases hsearches : Searches sha spa item
    · simp [hsearches]
    · simp [hsearches]

end MyIPNG.Arp
