import MyIPNG.Shm.Programs
import MyIPNG.Tap.Server

/-!
# The start of the servers

The ARP server and the TCP server do not know the addresses of their host when they start. They ask
for them: the server of the device answers `get-mac` and the IP server answers `get-ip4`, each on
its meta queue (`run_meta`), and `cfg_runtime` asks until it has what it needs.

The numbers of the messages do not tell the answers apart. Each meta queue has its own counter, an
answer that comes late is still in the queue when the next question has been asked, and so the
answer of one server can have the number that the question to the other one got. The four
characters in front of an address do: in every run of any number of servers, some of which may be
started again at any time, what `cfg_runtime` returns is what the servers that it asks are
configured with.
-/

set_option autoImplicit false
set_option relaxedAutoImplicit false

namespace MyIPNG.Stack

open Base Utils Shm

/-! ### `run_meta` -/

/-- The loop body of `run_meta` of `ip4_server.cpp`: the text that answers a message, if there is
one. -/
def ip4RunMeta (ip4 kv : List UInt8) : Option (List UInt8) :=
  if (split kv ⟨ascii "=", ascii_equals_nonempty⟩).head? = some (ascii "get-ip4") then
    some (ascii "ip4=" ++ toStr 46 false ip4)
  else none

/-- A name in a field of a message, as a text in C. -/
def senderName (field : List UInt8) : List UInt8 := field.takeWhile fun c ↦ c != 0

/-- An answer that `push_meta_reply` is about to send. -/
structure MetaReply where
  receiver : List UInt8
  msgNr : UInt64
  text : List UInt8

/-- `run_meta` with its answers: it takes a message, and sends the answer if there is one. -/
def metaProgram (answer : List UInt8 → Option (List UInt8)) : Program where
  State := Option MetaReply
  start := none
  call
    | none => .wait ⟨.msgNew, none⟩
    | some reply =>
      .send reply.receiver (allocateShmMessage MsgType.msgReply.code reply.msgNr reply.text) false
  resume
    | none, .received (some m) =>
      (answer m.data).map fun text ↦ ⟨senderName m.sender, m.msgNr, text⟩
    | none, _ => none
    | some _, _ => none

/-! ### `cfg_runtime` -/

/-- `send_meta_request`: the message. -/
def metaRequest (request : List UInt8) : Message :=
  allocateShmMessage MsgType.msgNew.code 0 request

/-- What a reply says: the address behind the four characters of its kind. Nothing when the text of
the address has a number that is no `int`, for no one catches the exception. -/
def addressIn (kind : List UInt8) (fresh : ℕ → UInt8) (seperator : Splitter) (isHex : Bool)
    (reply : List UInt8) : Option (Option (List UInt8)) :=
  if reply.take 4 = kind then (addrOfText fresh (reply.drop 4) seperator isHex).map some
  else some none

/-- The MAC address in a reply. -/
def macIn (fresh : ℕ → UInt8) : List UInt8 → Option (Option (List UInt8)) :=
  addressIn (ascii "mac=") fresh ⟨ascii ":", ascii_colon_nonempty⟩ true

/-- The IPv4 address in a reply. -/
def ip4In (fresh : ℕ → UInt8) : List UInt8 → Option (Option (List UInt8)) :=
  addressIn (ascii "ip4=") fresh ⟨ascii ".", ascii_dot_nonempty⟩ false

/-- Where `cfg_runtime` of the ARP server is. -/
inductive ArpAt
  | askMac
  | waitMac (msgNr : UInt64)
  | askIp4
  | waitIp4 (msgNr : UInt64)
  | returned (mac ip4 : List UInt8)
  | died
deriving DecidableEq, Repr

/-- `cfg_runtime` of the ARP server: the addresses that it has, and where it is. -/
structure ArpCfg where
  macAddr : Option (List UInt8)
  ip4Addr : Option (List UInt8)
  position : ArpAt
deriving DecidableEq, Repr

/-- The end of the loop body, and the loop again up to its next call. -/
def arpLoop (macAddr ip4Addr : Option (List UInt8)) : ArpCfg :=
  match macAddr, ip4Addr with
  | some mac, some ip4 => ⟨macAddr, ip4Addr, .returned mac ip4⟩
  | some _, none => ⟨macAddr, ip4Addr, .askIp4⟩
  | none, _ => ⟨macAddr, ip4Addr, .askMac⟩

/-- The loop body from the IPv4 address on. -/
def arpIp4 (macAddr ip4Addr : Option (List UInt8)) : ArpCfg :=
  match ip4Addr with
  | none => ⟨macAddr, none, .askIp4⟩
  | some _ => arpLoop macAddr ip4Addr

/-- What `cfg_runtime` of the ARP server does with an answer. -/
def arpResume (fresh : ℕ → UInt8) (cfg : ArpCfg) : Answer → ArpCfg
  | .sent none =>
    match cfg.position with
    | .askMac => arpIp4 cfg.macAddr cfg.ip4Addr
    | .askIp4 => arpLoop cfg.macAddr cfg.ip4Addr
    | _ => cfg
  | .sent (some msgNr) =>
    match cfg.position with
    | .askMac => { cfg with position := .waitMac msgNr }
    | .askIp4 => { cfg with position := .waitIp4 msgNr }
    | _ => cfg
  | .received none =>
    match cfg.position with
    | .waitMac _ => arpIp4 cfg.macAddr cfg.ip4Addr
    | .waitIp4 _ => arpLoop cfg.macAddr cfg.ip4Addr
    | _ => cfg
  | .received (some m) =>
    match cfg.position with
    | .waitMac _ =>
      match macIn fresh m.data with
      | none => { cfg with position := .died }
      | some none => arpIp4 cfg.macAddr cfg.ip4Addr
      | some (some mac) => arpIp4 (some mac) cfg.ip4Addr
    | .waitIp4 _ =>
      match ip4In fresh m.data with
      | none => { cfg with position := .died }
      | some none => arpLoop cfg.macAddr cfg.ip4Addr
      | some (some ip4) => arpLoop cfg.macAddr (some ip4)
    | _ => cfg
  | .time _ => cfg

/-- `cfg_runtime` of the ARP server. Its `send_meta_request` waits for room in the queue. -/
def arpProgram (etherMeta ip4Meta : List UInt8) (fresh : ℕ → UInt8) : Program where
  State := ArpCfg
  start := ⟨none, none, .askMac⟩
  call cfg :=
    match cfg.position with
    | .askMac => .send etherMeta (metaRequest (ascii "get-mac")) true
    | .waitMac msgNr => .wait ⟨.msgReply, some msgNr⟩
    | .askIp4 => .send ip4Meta (metaRequest (ascii "get-ip4")) true
    | .waitIp4 msgNr => .wait ⟨.msgReply, some msgNr⟩
    | .returned _ _ => .done
    | .died => .done
  resume := arpResume fresh

/-- Where `cfg_runtime` of the TCP server is. -/
inductive TcpAt
  | loop
  | ask (now : UInt64)
  | waitReply
  | returned (ip4 : List UInt8)
  | died
deriving DecidableEq, Repr

/-- `cfg_runtime` of the TCP server: when it has asked last, with what number, and where it is. -/
structure TcpCfg where
  lastTx : UInt64
  msgNr : UInt64
  position : TcpAt
deriving DecidableEq, Repr

/-- What `cfg_runtime` of the TCP server does with an answer. -/
def tcpResume (fresh : ℕ → UInt8) (cfg : TcpCfg) : Answer → TcpCfg
  | .time now =>
    match cfg.position with
    | .loop => { cfg with position := if 2000000 < now - cfg.lastTx then .ask now else .waitReply }
    | _ => cfg
  | .sent none =>
    match cfg.position with
    | .ask _ => { cfg with position := .loop }
    | _ => cfg
  | .sent (some msgNr) =>
    match cfg.position with
    | .ask now => ⟨now, msgNr, .waitReply⟩
    | _ => cfg
  | .received none =>
    match cfg.position with
    | .waitReply => { cfg with position := .loop }
    | _ => cfg
  | .received (some m) =>
    match cfg.position with
    | .waitReply =>
      match ip4In fresh m.data with
      | none => { cfg with position := .died }
      | some none => { cfg with position := .loop }
      | some (some ip4) => { cfg with position := .returned ip4 }
    | _ => cfg

/-- `cfg_runtime` of the TCP server. Its `send_meta_request` does not wait for room. -/
def tcpProgram (ip4Meta : List UInt8) (fresh : ℕ → UInt8) : Program where
  State := TcpCfg
  start := ⟨0, 0, .loop⟩
  call cfg :=
    match cfg.position with
    | .loop => .clock
    | .ask _ => .send ip4Meta (metaRequest (ascii "get-ip4")) false
    | .waitReply => .wait ⟨.msgReply, some cfg.msgNr⟩
    | .returned _ => .done
    | .died => .done
  resume := tcpResume fresh

/-! ### The servers of a machine -/

/-- What a thread with a meta queue does, and what it is configured with. The bytes of an address
that its text does not give are those that are in memory. -/
inductive Role
  | device (config : Tap.Config)
  | ip4 (address : List UInt8)
  | arp (etherMeta ip4Meta : List UInt8) (fresh : ℕ → UInt8)
  | tcp (ip4Meta : List UInt8) (fresh : ℕ → UInt8)

/-- What a server answers. -/
def Role.answer : Role → List UInt8 → Option (List UInt8)
  | .device config, kv => Tap.runMeta config kv
  | .ip4 address, kv => ip4RunMeta address kv
  | .arp _ _ _, _ => none
  | .tcp _ _, _ => none

/-- The program of a thread. -/
def Role.program : Role → Program
  | .device config => metaProgram (Tap.runMeta config)
  | .ip4 address => metaProgram (ip4RunMeta address)
  | .arp etherMeta ip4Meta fresh => arpProgram etherMeta ip4Meta fresh
  | .tcp ip4Meta fresh => tcpProgram ip4Meta fresh

/-- What a server asks, and whom. -/
def Role.Asks : Role → List UInt8 → List UInt8 → Prop
  | .device _, _, _ => False
  | .ip4 _, _, _ => False
  | .arp etherMeta ip4Meta _, server, request =>
    server = etherMeta ∧ request = ascii "get-mac" ∨ server = ip4Meta ∧ request = ascii "get-ip4"
  | .tcp ip4Meta _, server, request => server = ip4Meta ∧ request = ascii "get-ip4"

/-- Whether a server asks for its addresses. -/
def Role.IsClient : Role → Prop
  | .device _ => False
  | .ip4 _ => False
  | .arp _ _ _ => True
  | .tcp _ _ => True

variable {π : Type*}

/-- The servers, with the names and the sizes of their meta queues. -/
structure Servers (π : Type*) where
  role : π → Role
  identifier : π → Identifier
  capacity : π → ℕ

/-- The threads of the servers. -/
def Servers.places (servers : Servers π) (place : π) : Place :=
  ⟨(servers.role place).program, servers.identifier place, servers.capacity place⟩

/-- Servers that are configured: each has a queue of its own, with a name that is a text in C, and
the addresses have their lengths. -/
structure Servers.Configured (servers : Servers π) : Prop where
  distinct : ∀ place other,
    (servers.identifier place).name = (servers.identifier other).name → place = other
  text : ∀ place, 0 ∉ (servers.identifier place).name
  mac : ∀ place config, servers.role place = .device config → config.macAddr.length = 6
  ip4 : ∀ place address, servers.role place = .ip4 address → address.length = 4

/-- Others may send what they want, but not in the name of a server that asks, and no replies to
it. -/
def Servers.Apart (servers : Servers π) : World servers.places → WorldEvent π → Prop
  | _, .outside identifier receiver m _ => ∀ client, (servers.role client).IsClient →
    senderName identifier.field ≠ (servers.identifier client).name ∧
      (m.type = MsgType.msgReply.code → receiver ≠ (servers.identifier client).name)
  | _, _ => True

/-- What is so about the result of `cfg_runtime`: the addresses are those of the servers that are
asked. -/
def Servers.Learned (servers : Servers π) : (role : Role) → role.program.State → Prop
  | .device _, _ => True
  | .ip4 _, _ => True
  | .arp etherMeta ip4Meta _, cfg =>
    cfg.position ≠ .died ∧ ∀ mac ip4, cfg.position = .returned mac ip4 →
      (∃ device config, servers.role device = .device config ∧
        (servers.identifier device).name = etherMeta ∧ config.macAddr = mac) ∧
      ∃ server, servers.role server = .ip4 ip4 ∧ (servers.identifier server).name = ip4Meta
  | .tcp ip4Meta _, cfg =>
    cfg.position ≠ .died ∧ ∀ ip4, cfg.position = .returned ip4 →
      ∃ server, servers.role server = .ip4 ip4 ∧ (servers.identifier server).name = ip4Meta

/-! ### The messages -/

/-- What is so about a message: a question in the name of a server that asks is one that it asks
there, and a reply to a server that asks is what one of the servers that it asks answers. -/
structure Genuine (servers : Servers π) (queue : List UInt8) (m : Message) : Prop where
  question : m.type = MsgType.msgNew.code → ∀ client, (servers.role client).IsClient →
    senderName m.sender = (servers.identifier client).name →
    (servers.role client).Asks queue m.data
  reply : m.type = MsgType.msgReply.code → ∀ client, (servers.role client).IsClient →
    queue = (servers.identifier client).name → ∃ server request,
      (servers.role client).Asks (servers.identifier server).name request ∧
      (servers.role server).answer request = some m.data

section Texts

theorem code_msgNew_ne : MsgType.msgNew.code ≠ MsgType.msgReply.code := by decide

theorem senderName_field {identifier : Identifier} (h : 0 ∉ identifier.name) :
    senderName identifier.field = identifier.name := by
  have hname : ∀ c ∈ identifier.name, (c != 0) = true := fun c hc ↦
    bne_iff_ne.mpr fun hzero ↦ h (hzero ▸ hc)
  rw [senderName, Identifier.field, List.takeWhile_append_of_pos hname]
  cases hcount : maxIdLength - identifier.name.length with
  | zero => simp
  | succ count => simp [List.replicate_succ]

@[simp] theorem type_stampMessage (counter : UInt64) (identifier : Identifier) (now : UInt64)
    (m : Message) : (stampMessage counter identifier now m).2.type = m.type := by
  unfold stampMessage
  split_ifs <;> rfl

@[simp] theorem data_stampMessage (counter : UInt64) (identifier : Identifier) (now : UInt64)
    (m : Message) : (stampMessage counter identifier now m).2.data = m.data := by
  unfold stampMessage
  split_ifs <;> rfl

@[simp] theorem sender_stampMessage (counter : UInt64) (identifier : Identifier) (now : UInt64)
    (m : Message) : (stampMessage counter identifier now m).2.sender = identifier.field := by
  unfold stampMessage
  split_ifs <;> rfl

/-- The two questions have one answer each. -/
theorem answer_of_question {role : Role} {request text : List UInt8}
    (hrequest : request = ascii "get-mac" ∨ request = ascii "get-ip4")
    (h : role.answer request = some text) :
    (∃ config, role = .device config ∧ request = ascii "get-mac" ∧
      text = ascii "mac=" ++ toStr 58 true config.macAddr) ∨
    ∃ address, role = .ip4 address ∧ request = ascii "get-ip4" ∧
      text = ascii "ip4=" ++ toStr 46 false address := by
  have hmac : (split (ascii "get-mac") ⟨ascii "=", by decide⟩).head? = some (ascii "get-mac") := by
    decide +kernel
  have hip4 : (split (ascii "get-ip4") ⟨ascii "=", by decide⟩).head? = some (ascii "get-ip4") := by
    decide +kernel
  have hdiffer : some (ascii "get-mac") ≠ some (ascii "get-ip4") := by decide +kernel
  cases role with
  | device config =>
    rcases hrequest with rfl | rfl
    · rw [Role.answer, Tap.runMeta, if_pos hmac] at h
      exact Or.inl ⟨config, rfl, rfl, (Option.some.inj h).symm⟩
    · rw [Role.answer, Tap.runMeta, hip4, if_neg hdiffer.symm] at h
      exact absurd h (Option.some_ne_none _).symm
  | ip4 address =>
    rcases hrequest with rfl | rfl
    · rw [Role.answer, ip4RunMeta, hmac, if_neg hdiffer] at h
      exact absurd h (Option.some_ne_none _).symm
    · rw [Role.answer, ip4RunMeta, if_pos hip4] at h
      exact Or.inr ⟨address, rfl, rfl, (Option.some.inj h).symm⟩
  | arp _ _ _ => exact absurd h (Option.some_ne_none _).symm
  | tcp _ _ => exact absurd h (Option.some_ne_none _).symm

variable {kind : List UInt8} (fresh : ℕ → UInt8) (seperator : Splitter) (isHex : Bool)
  (text : List UInt8)

theorem addressIn_kind (h : kind.length = 4) :
    addressIn kind fresh seperator isHex (kind ++ text) =
      (addrOfText fresh text seperator isHex).map some := by
  rw [addressIn, List.take_left' h, if_pos rfl, List.drop_left' h]

theorem addressIn_other {other : List UInt8} (h : other.length = 4) (hother : other ≠ kind) :
    addressIn kind fresh seperator isHex (other ++ text) = some none := by
  rw [addressIn, List.take_left' h, if_neg hother]

theorem macIn_mac {mac : List UInt8} (h : mac ≠ []) :
    macIn fresh (ascii "mac=" ++ toStr 58 true mac) = some (some mac) := by
  have hread : addrOfText fresh (toStr 58 true mac) ⟨ascii ":", ascii_colon_nonempty⟩ true =
      some mac :=
    addrOfText_toStr fresh (fun byte ↦ (byteText_spec true byte).2.2.2.1) h (by decide)
  rw [macIn, addressIn_kind _ _ _ _ (by decide), hread]
  rfl

theorem ip4In_ip4 {ip4 : List UInt8} (h : ip4 ≠ []) :
    ip4In fresh (ascii "ip4=" ++ toStr 46 false ip4) = some (some ip4) := by
  have hread : addrOfText fresh (toStr 46 false ip4) ⟨ascii ".", ascii_dot_nonempty⟩ false =
      some ip4 :=
    addrOfText_toStr fresh (fun byte ↦ (byteText_spec false byte).2.2.1) h (by decide)
  rw [ip4In, addressIn_kind _ _ _ _ (by decide), hread]
  rfl

theorem macIn_ip4 : macIn fresh (ascii "ip4=" ++ text) = some none :=
  addressIn_other _ _ _ _ (by decide) (by decide)

theorem ip4In_mac : ip4In fresh (ascii "mac=" ++ text) = some none :=
  addressIn_other _ _ _ _ (by decide) (by decide)

end Texts

/-! ### What the threads guarantee -/

section Guarantee

variable {servers : Servers π}

/-- A device that a server asks, with this address. -/
def HasMac (servers : Servers π) (etherMeta mac : List UInt8) : Prop :=
  ∃ device config, servers.role device = .device config ∧
    (servers.identifier device).name = etherMeta ∧ config.macAddr = mac

/-- An IP server that a server asks, with this address. -/
def HasIp4 (servers : Servers π) (ip4Meta ip4 : List UInt8) : Prop :=
  ∃ server, servers.role server = .ip4 ip4 ∧ (servers.identifier server).name = ip4Meta

/-- An answer is one to a question of the server that gets it, if that is one that asks. -/
def AnswersClient (servers : Servers π) (name : List UInt8) (role : Role) (reply : MetaReply) :
    Prop :=
  ∀ client, (servers.role client).IsClient → reply.receiver = (servers.identifier client).name →
    ∃ request, (servers.role client).Asks name request ∧ role.answer request = some reply.text

/-- What `cfg_runtime` of the ARP server keeps: its addresses are those of servers that it asks. -/
structure ArpKept (servers : Servers π) (etherMeta ip4Meta : List UInt8) (cfg : ArpCfg) : Prop where
  lives : cfg.position ≠ .died
  mac : ∀ mac, cfg.macAddr = some mac → HasMac servers etherMeta mac
  ip4 : ∀ ip4, cfg.ip4Addr = some ip4 → HasIp4 servers ip4Meta ip4
  returned : ∀ mac ip4, cfg.position = .returned mac ip4 →
    HasMac servers etherMeta mac ∧ HasIp4 servers ip4Meta ip4

/-- What `cfg_runtime` of the TCP server keeps. -/
structure TcpKept (servers : Servers π) (ip4Meta : List UInt8) (cfg : TcpCfg) : Prop where
  lives : cfg.position ≠ .died
  returned : ∀ ip4, cfg.position = .returned ip4 → HasIp4 servers ip4Meta ip4

/-- Where the loop of the ARP server goes on. -/
def ArpAt.GoesOn : ArpAt → Prop
  | .returned _ _ => False
  | .died => False
  | _ => True

/-- Where the loop of the TCP server goes on. -/
def TcpAt.GoesOn : TcpAt → Prop
  | .returned _ => False
  | .died => False
  | _ => True

/-- What a thread keeps: an answer that is about to be sent is one to a question, and an address
that `cfg_runtime` has is one of a server that it asks. -/
def Kept (servers : Servers π) (name : List UInt8) : (role : Role) → role.program.State → Prop
  | .device config, pending => ∀ reply, pending = some reply →
      AnswersClient servers name (.device config) reply
  | .ip4 address, pending => ∀ reply, pending = some reply →
      AnswersClient servers name (.ip4 address) reply
  | .arp etherMeta ip4Meta _, cfg => ArpKept servers etherMeta ip4Meta cfg
  | .tcp ip4Meta _, cfg => TcpKept servers ip4Meta cfg

/-- What the reply to a question says. -/
theorem Genuine.kinds {queue : List UInt8} {m : Message} (h : Genuine servers queue m)
    (htype : m.type = MsgType.msgReply.code) {client : π}
    (hclient : (servers.role client).IsClient)
    (hqueue : queue = (servers.identifier client).name) :
    (∃ server config, servers.role server = .device config ∧
      (servers.role client).Asks (servers.identifier server).name (ascii "get-mac") ∧
      m.data = ascii "mac=" ++ toStr 58 true config.macAddr) ∨
    ∃ server address, servers.role server = .ip4 address ∧
      (servers.role client).Asks (servers.identifier server).name (ascii "get-ip4") ∧
      m.data = ascii "ip4=" ++ toStr 46 false address := by
  obtain ⟨server, request, hasks, hanswer⟩ := h.reply htype client hclient hqueue
  have hrequest : request = ascii "get-mac" ∨ request = ascii "get-ip4" := by
    generalize servers.role client = role at hasks
    cases role with
    | device config => exact absurd hasks id
    | ip4 address => exact absurd hasks id
    | arp etherMeta ip4Meta fresh => exact hasks.imp And.right And.right
    | tcp ip4Meta fresh => exact Or.inr hasks.2
  rcases answer_of_question hrequest hanswer with ⟨config, hrole, rfl, htext⟩ |
    ⟨address, hrole, rfl, htext⟩
  · exact Or.inl ⟨server, config, hrole, hasks, htext⟩
  · exact Or.inr ⟨server, address, hrole, hasks, htext⟩

variable {etherMeta ip4Meta : List UInt8} {macAddr ip4Addr : Option (List UInt8)}

theorem arpKept_goesOn (hmac : ∀ mac, macAddr = some mac → HasMac servers etherMeta mac)
    (hip4 : ∀ ip4, ip4Addr = some ip4 → HasIp4 servers ip4Meta ip4) {position : ArpAt}
    (h : position.GoesOn) : ArpKept servers etherMeta ip4Meta ⟨macAddr, ip4Addr, position⟩ := by
  refine ⟨?_, hmac, hip4, ?_⟩
  · rintro rfl
    exact h
  · rintro _ _ rfl
    exact h.elim

theorem tcpKept_goesOn {cfg : TcpCfg} (h : cfg.position.GoesOn) : TcpKept servers ip4Meta cfg := by
  refine ⟨fun hdied ↦ ?_, fun ip4 hreturned ↦ ?_⟩
  · rw [hdied] at h
    exact h
  · rw [hreturned] at h
    exact h.elim

theorem arpKept_arpLoop (hmac : ∀ mac, macAddr = some mac → HasMac servers etherMeta mac)
    (hip4 : ∀ ip4, ip4Addr = some ip4 → HasIp4 servers ip4Meta ip4) :
    ArpKept servers etherMeta ip4Meta (arpLoop macAddr ip4Addr) := by
  cases macAddr with
  | none => exact arpKept_goesOn hmac hip4 trivial
  | some mac =>
    cases ip4Addr with
    | none => exact arpKept_goesOn hmac hip4 trivial
    | some ip4 =>
      refine ⟨ArpAt.noConfusion, hmac, hip4, fun mac' ip4' hreturned ↦ ?_⟩
      obtain ⟨rfl, rfl⟩ := ArpAt.returned.inj hreturned
      exact ⟨hmac mac rfl, hip4 ip4 rfl⟩

theorem arpKept_arpIp4 (hmac : ∀ mac, macAddr = some mac → HasMac servers etherMeta mac)
    (hip4 : ∀ ip4, ip4Addr = some ip4 → HasIp4 servers ip4Meta ip4) :
    ArpKept servers etherMeta ip4Meta (arpIp4 macAddr ip4Addr) := by
  cases ip4Addr with
  | none => exact arpKept_goesOn hmac hip4 trivial
  | some ip4 => exact arpKept_arpLoop hmac hip4

theorem byteText_length_le (hex : Bool) (byte : UInt8) : (byteText hex byte).length ≤ 3 := by
  have hdigits : ∀ n < 256, (Nat.toDigits 10 n).length ≤ 3 := by decide +kernel
  rw [byteText, List.length_map]
  cases hex with
  | true => exact (by decide : 2 ≤ 3)
  | false => exact hdigits _ byte.toNat_lt

theorem length_toStr_le (splitter : UInt8) (hex : Bool) (a : List UInt8) :
    (toStr splitter hex a).length ≤ 4 * a.length := by
  induction a with
  | nil => simp [toStr]
  | cons byte rest ih =>
    have hbyte := byteText_length_le hex byte
    cases rest with
    | nil =>
      simp only [toStr, List.map_cons, List.map_nil, List.intercalate_singleton, List.length_cons,
        List.length_nil]
      omega
    | cons next rest =>
      simp only [toStr, List.map_cons, List.intercalate_cons_cons, List.length_append,
        List.length_cons, List.length_nil] at ih ⊢
      omega

/-- A question of a server that asks. -/
theorem genuine_question (hconfigured : servers.Configured) {place : π}
    {receiver request : List UInt8} (hasks : (servers.role place).Asks receiver request)
    (hsmall : request.length < 2 ^ 32) (counter now : UInt64) :
    Genuine servers receiver
      (stampMessage counter (servers.identifier place) now (metaRequest request)).2 where
  question _ client _ hsender := by
    rw [sender_stampMessage, senderName_field (hconfigured.text place)] at hsender
    obtain rfl := hconfigured.distinct place client hsender
    rw [data_stampMessage, metaRequest, data_allocateShmMessage _ _ hsmall]
    exact hasks
  reply htype := by
    rw [type_stampMessage] at htype
    exact absurd htype code_msgNew_ne

/-- The text of an address behind its kind. -/
theorem length_addressText_lt {kind a : List UInt8} (hkind : kind.length = 4) (ha : a.length ≤ 6)
    (splitter : UInt8) (hex : Bool) : (kind ++ toStr splitter hex a).length < 2 ^ 32 := by
  have hlength := length_toStr_le splitter hex a
  rw [List.length_append]
  omega

theorem length_answer (hconfigured : servers.Configured) {place : π} {request text : List UInt8}
    (h : (servers.role place).answer request = some text) : text.length < 2 ^ 32 := by
  cases hrole : servers.role place with
  | device config =>
    have hmac := hconfigured.mac place config hrole
    rw [hrole, Role.answer, Tap.runMeta] at h
    split_ifs at h
    rw [← Option.some.inj h]
    exact length_addressText_lt (by decide) hmac.le 58 true
  | ip4 address =>
    have hip4 := hconfigured.ip4 place address hrole
    rw [hrole, Role.answer, ip4RunMeta] at h
    split_ifs at h
    rw [← Option.some.inj h]
    exact length_addressText_lt (by decide) (hip4.le.trans (by decide)) 46 false
  | arp _ _ _ =>
    rw [hrole] at h
    exact absurd h (Option.some_ne_none _).symm
  | tcp _ _ =>
    rw [hrole] at h
    exact absurd h (Option.some_ne_none _).symm

/-- An answer to a question. -/
theorem genuine_answer (hconfigured : servers.Configured) {place : π} {reply : MetaReply}
    (h : AnswersClient servers (servers.identifier place).name (servers.role place) reply)
    (counter now : UInt64) :
    Genuine servers reply.receiver (stampMessage counter (servers.identifier place) now
      (allocateShmMessage MsgType.msgReply.code reply.msgNr reply.text)).2 where
  question htype := by
    rw [type_stampMessage] at htype
    exact absurd htype code_msgNew_ne.symm
  reply _ client hclient hreceiver := by
    obtain ⟨request, hasks, hanswer⟩ := h client hclient hreceiver
    refine ⟨place, request, hasks, ?_⟩
    rw [data_stampMessage, data_allocateShmMessage _ _ (length_answer hconfigured hanswer)]
    exact hanswer

theorem type_of_selects {type : MsgType} (htype : type ≠ .msgAny) {msgNr : Option UInt64}
    {m : Message} (h : (⟨type, msgNr⟩ : Filter).selects m) : m.type = type.code := by
  rw [Filter.selects, Filter.admits, Bool.and_eq_true, Bool.or_eq_true] at h
  rcases h.1 with hcode | hany
  · exact eq_of_beq hcode
  · exact absurd (eq_of_beq hany) htype

theorem answersClient_none {name : List UInt8} {role : Role} (reply : MetaReply)
    (hnone : none = some reply) : AnswersClient servers name role reply :=
  absurd hnone (Option.some_ne_none _).symm

/-- `run_meta` answers the questions that it gets. -/
theorem guarantees_meta (hconfigured : servers.Configured) (place : π)
    {answer : List UInt8 → Option (List UInt8)} (hanswer : (servers.role place).answer = answer)
    (capacity : ℕ) :
    Guarantees (Genuine servers) ⟨metaProgram answer, servers.identifier place, capacity⟩
      fun pending ↦ ∀ reply, pending = some reply →
        AnswersClient servers (servers.identifier place).name (servers.role place) reply where
  start := answersClient_none
  sends pending receiver m blocking hkept hcall counter now := by
    cases pending with
    | none => exact absurd hcall (by simp [metaProgram])
    | some reply =>
      obtain ⟨rfl, rfl, -⟩ := Call.send.inj hcall
      exact genuine_answer hconfigured (hkept reply rfl) counter now
  sent pending receiver m blocking msgNr hkept hcall := by
    cases pending with
    | none => exact absurd hcall (by simp [metaProgram])
    | some reply => exact answersClient_none
  waited pending filter hkept hcall := by
    cases pending with
    | none => exact answersClient_none
    | some reply => exact answersClient_none
  received pending filter m hkept hcall hselects hm := by
    cases pending with
    | some reply => exact answersClient_none
    | none =>
      obtain rfl := Call.wait.inj hcall
      have htype := type_of_selects (by decide) hselects
      intro reply hreply client hclient hreceiver
      obtain ⟨text, htext, hmade⟩ := Option.map_eq_some_iff.mp hreply
      rw [← hmade] at hreceiver ⊢
      exact ⟨m.data, hm.question htype client hclient hreceiver, hanswer ▸ htext⟩
  time pending now hkept hcall := by
    cases pending with
    | none => exact absurd hcall (by simp [metaProgram])
    | some reply => exact absurd hcall (by simp [metaProgram])

variable {fresh : ℕ → UInt8}

/-- What the ARP server gets is the address of the one or of the other server. -/
theorem Genuine.addresses (hconfigured : servers.Configured) {place : π}
    (hrole : servers.role place = .arp etherMeta ip4Meta fresh) {m : Message}
    (h : Genuine servers (servers.identifier place).name m)
    (htype : m.type = MsgType.msgReply.code) :
    (∃ mac, macIn fresh m.data = some (some mac) ∧ ip4In fresh m.data = some none ∧
      HasMac servers etherMeta mac) ∨
    ∃ ip4, macIn fresh m.data = some none ∧ ip4In fresh m.data = some (some ip4) ∧
      HasIp4 servers ip4Meta ip4 := by
  have hdiffer : ascii "get-mac" ≠ ascii "get-ip4" := by decide +kernel
  have hclient : (servers.role place).IsClient := by
    rw [hrole]
    trivial
  rcases h.kinds htype hclient rfl with ⟨server, config, hserver, hasks, hdata⟩ |
    ⟨server, address, hserver, hasks, hdata⟩
  · rw [hrole] at hasks
    obtain ⟨hname, -⟩ := hasks.resolve_right fun hother ↦ hdiffer hother.2
    have hmac : config.macAddr ≠ [] :=
      List.ne_nil_of_length_eq_add_one (hconfigured.mac server config hserver)
    rw [hdata]
    exact Or.inl ⟨config.macAddr, macIn_mac fresh hmac, ip4In_mac fresh _, server, config, hserver,
      hname, rfl⟩
  · rw [hrole] at hasks
    obtain ⟨hname, -⟩ := hasks.resolve_left fun hother ↦ hdiffer hother.2.symm
    have hip4 : address ≠ [] :=
      List.ne_nil_of_length_eq_add_one (hconfigured.ip4 server address hserver)
    rw [hdata]
    exact Or.inr ⟨address, macIn_ip4 fresh _, ip4In_ip4 fresh hip4, server, hserver, hname⟩

/-- `cfg_runtime` of the ARP server asks its own questions, and learns what it is answered. -/
theorem guarantees_arp (hconfigured : servers.Configured) (place : π)
    (hrole : servers.role place = .arp etherMeta ip4Meta fresh) (capacity : ℕ) :
    Guarantees (Genuine servers)
      ⟨arpProgram etherMeta ip4Meta fresh, servers.identifier place, capacity⟩
      (ArpKept servers etherMeta ip4Meta) where
  start := arpKept_goesOn (fun _ h ↦ absurd h (Option.some_ne_none _).symm)
    (fun _ h ↦ absurd h (Option.some_ne_none _).symm) trivial
  sends cfg receiver m blocking hkept hcall counter now := by
    obtain ⟨macAddr, ip4Addr, position⟩ := cfg
    cases position with
    | askMac =>
      obtain ⟨rfl, rfl, -⟩ := Call.send.inj hcall
      have hasks : (servers.role place).Asks etherMeta (ascii "get-mac") := by
        rw [hrole]
        exact Or.inl ⟨rfl, rfl⟩
      exact genuine_question hconfigured hasks (by decide) counter now
    | askIp4 =>
      obtain ⟨rfl, rfl, -⟩ := Call.send.inj hcall
      have hasks : (servers.role place).Asks ip4Meta (ascii "get-ip4") := by
        rw [hrole]
        exact Or.inr ⟨rfl, rfl⟩
      exact genuine_question hconfigured hasks (by decide) counter now
    | _ => exact Call.noConfusion hcall
  sent cfg receiver m blocking msgNr hkept hcall := by
    obtain ⟨macAddr, ip4Addr, position⟩ := cfg
    cases position with
    | askMac =>
      cases msgNr with
      | none => exact arpKept_arpIp4 hkept.mac hkept.ip4
      | some msgNr => exact arpKept_goesOn hkept.mac hkept.ip4 trivial
    | askIp4 =>
      cases msgNr with
      | none => exact arpKept_arpLoop hkept.mac hkept.ip4
      | some msgNr => exact arpKept_goesOn hkept.mac hkept.ip4 trivial
    | _ => exact Call.noConfusion hcall
  waited cfg filter hkept hcall := by
    obtain ⟨macAddr, ip4Addr, position⟩ := cfg
    cases position with
    | waitMac msgNr => exact arpKept_arpIp4 hkept.mac hkept.ip4
    | waitIp4 msgNr => exact arpKept_arpLoop hkept.mac hkept.ip4
    | _ => exact Call.noConfusion hcall
  received cfg filter m hkept hcall hselects hm := by
    obtain ⟨macAddr, ip4Addr, position⟩ := cfg
    cases position with
    | waitMac msgNr =>
      obtain rfl := Call.wait.inj hcall
      have htype := type_of_selects (by decide) hselects
      show ArpKept servers etherMeta ip4Meta
        (arpResume fresh ⟨macAddr, ip4Addr, .waitMac msgNr⟩ (.received (some m)))
      rcases hm.addresses hconfigured hrole htype with ⟨mac, hmac, -, hhas⟩ | ⟨ip4, hmac, -, -⟩
      · simp only [arpResume, hmac]
        refine arpKept_arpIp4 (fun mac' hmac' ↦ ?_) hkept.ip4
        rw [← Option.some.inj hmac']
        exact hhas
      · simp only [arpResume, hmac]
        exact arpKept_arpIp4 hkept.mac hkept.ip4
    | waitIp4 msgNr =>
      obtain rfl := Call.wait.inj hcall
      have htype := type_of_selects (by decide) hselects
      show ArpKept servers etherMeta ip4Meta
        (arpResume fresh ⟨macAddr, ip4Addr, .waitIp4 msgNr⟩ (.received (some m)))
      rcases hm.addresses hconfigured hrole htype with ⟨mac, -, hip4, -⟩ | ⟨ip4, -, hip4, hhas⟩
      · simp only [arpResume, hip4]
        exact arpKept_arpLoop hkept.mac hkept.ip4
      · simp only [arpResume, hip4]
        refine arpKept_arpLoop hkept.mac fun ip4' hip4' ↦ ?_
        rw [← Option.some.inj hip4']
        exact hhas
    | _ => exact Call.noConfusion hcall
  time cfg now hkept hcall := hkept

/-- `cfg_runtime` of the TCP server. -/
theorem guarantees_tcp (hconfigured : servers.Configured) (place : π)
    (hrole : servers.role place = .tcp ip4Meta fresh) (capacity : ℕ) :
    Guarantees (Genuine servers)
      ⟨tcpProgram ip4Meta fresh, servers.identifier place, capacity⟩
      (TcpKept servers ip4Meta) where
  start := tcpKept_goesOn trivial
  sends cfg receiver m blocking hkept hcall counter now := by
    obtain ⟨lastTx, msgNr, position⟩ := cfg
    cases position with
    | ask asked =>
      obtain ⟨rfl, rfl, -⟩ := Call.send.inj hcall
      have hasks : (servers.role place).Asks ip4Meta (ascii "get-ip4") := by
        rw [hrole]
        exact ⟨rfl, rfl⟩
      exact genuine_question hconfigured hasks (by decide) counter now
    | _ => exact Call.noConfusion hcall
  sent cfg receiver m blocking msgNr hkept hcall := by
    obtain ⟨lastTx, number, position⟩ := cfg
    cases position with
    | ask asked =>
      cases msgNr with
      | none => exact tcpKept_goesOn trivial
      | some _ => exact tcpKept_goesOn trivial
    | _ => exact Call.noConfusion hcall
  waited cfg filter hkept hcall := by
    obtain ⟨lastTx, msgNr, position⟩ := cfg
    cases position with
    | waitReply => exact tcpKept_goesOn trivial
    | _ => exact Call.noConfusion hcall
  received cfg filter m hkept hcall hselects hm := by
    obtain ⟨lastTx, msgNr, position⟩ := cfg
    cases position with
    | waitReply =>
      obtain rfl := Call.wait.inj hcall
      have htype := type_of_selects (by decide) hselects
      have hclient : (servers.role place).IsClient := by
        rw [hrole]
        trivial
      show TcpKept servers ip4Meta
        (tcpResume fresh ⟨lastTx, msgNr, .waitReply⟩ (.received (some m)))
      rcases hm.kinds htype hclient rfl with ⟨server, config, -, -, hdata⟩ |
        ⟨server, address, hserver, hasks, hdata⟩
      · have hother := ip4In_mac fresh (toStr 58 true config.macAddr)
        rw [← hdata] at hother
        simp only [tcpResume, hother]
        exact tcpKept_goesOn trivial
      · have hread := ip4In_ip4 fresh
          (List.ne_nil_of_length_eq_add_one (hconfigured.ip4 server address hserver))
        rw [← hdata] at hread
        rw [hrole] at hasks
        simp only [tcpResume, hread]
        refine ⟨TcpAt.noConfusion, fun ip4 hreturned ↦ ?_⟩
        rw [← TcpAt.returned.inj hreturned]
        exact ⟨server, hserver, hasks.1⟩
    | _ => exact Call.noConfusion hcall
  time cfg now hkept hcall := by
    obtain ⟨lastTx, msgNr, position⟩ := cfg
    cases position with
    | loop =>
      show TcpKept servers ip4Meta (tcpResume fresh ⟨lastTx, msgNr, .loop⟩ (.time now))
      simp only [tcpResume]
      split_ifs
      · exact tcpKept_goesOn trivial
      · exact tcpKept_goesOn trivial
    | _ => exact Call.noConfusion hcall

/-- Every server guarantees its part. -/
theorem guarantees_places (hconfigured : servers.Configured) (place : π) :
    Guarantees (Genuine servers) (servers.places place)
      (Kept servers (servers.identifier place).name (servers.role place)) := by
  unfold Servers.places
  cases hrole : servers.role place with
  | device config =>
    have hkept := guarantees_meta hconfigured place (congrArg Role.answer hrole)
      (servers.capacity place)
    rwa [hrole] at hkept
  | ip4 address =>
    have hkept := guarantees_meta hconfigured place (congrArg Role.answer hrole)
      (servers.capacity place)
    rwa [hrole] at hkept
  | arp etherMeta ip4Meta fresh =>
    exact guarantees_arp hconfigured place hrole (servers.capacity place)
  | tcp ip4Meta fresh => exact guarantees_tcp hconfigured place hrole (servers.capacity place)

end Guarantee

/-! ### Every run -/

theorem Kept.learned {servers : Servers π} {name : List UInt8} {role : Role}
    {state : role.program.State} (h : Kept servers name role state) :
    servers.Learned role state := by
  cases role with
  | device config => trivial
  | ip4 address => trivial
  | arp etherMeta ip4Meta fresh => exact ⟨h.lives, h.returned⟩
  | tcp ip4Meta fresh => exact ⟨h.lives, h.returned⟩

/-- What `cfg_runtime` returns. Assumes: servers with names and addresses, and others that send
nothing in the name of a server that asks and no replies to one. In every run, with starts in any
order and at any time, calls that fail and answers that come late, the two loops do not end in an
exception, and the addresses that they return are those of the servers that they are told to ask. -/
theorem configuration_learned [DecidableEq π] {servers : Servers π}
    (hconfigured : servers.Configured) {events : List (WorldEvent π)}
    (hevents : Along (worldStep servers.places) servers.Apart (worldStart servers.places) events)
    (place : π) (thread : Thread (servers.role place).program)
    (hthread : (run (worldStep servers.places) (worldStart servers.places) events).1.threads place =
      some thread) :
    servers.Learned (servers.role place) thread.state := by
  have houtside : Along (worldStep servers.places) (FromOutside (Genuine servers))
      (worldStart servers.places) events := by
    refine hevents.of_invariant (I := fun _ ↦ True) trivial (fun _ _ _ _ ↦ trivial) ?_
    intro world event _ hapart
    cases event with
    | outside identifier receiver m now =>
      intro counter now
      constructor
      · intro _ client hclient hsender
        rw [sender_stampMessage] at hsender
        exact absurd hsender (hapart client hclient).1
      · intro htype client hclient hreceiver
        rw [type_stampMessage] at htype
        exact absurd hreceiver ((hapart client hclient).2 htype)
    | _ => trivial
  have hkeeps := programs_induction (guarantees_places hconfigured) houtside
  exact (hkeeps.threads place thread hthread).state.learned

/-- A device, an IP server, and an ARP server that asks them. -/
inductive SampleServer
  | tap
  | ip4
  | arp
deriving DecidableEq

/-- The three servers. -/
def sampleServers : Servers SampleServer where
  role
    | .tap => .device ⟨[2, 0, 0, 0, 0, 1], ⟨[], []⟩⟩
    | .ip4 => .ip4 [10, 0, 0, 1]
    | .arp => .arp (ascii "tap-meta") (ascii "ip4-meta") fun _ ↦ 0
  identifier
    | .tap => ⟨ascii "tap-meta", by decide⟩
    | .ip4 => ⟨ascii "ip4-meta", by decide⟩
    | .arp => ⟨ascii "arp-meta", by decide⟩
  capacity _ := 512

/-- The answer of the device comes late. It has the number that the question to the IP server got.
-/
def sampleStart : List (WorldEvent SampleServer) :=
  [.start .tap, .start .ip4, .start .arp,
    -- the first question, and its answer behind the time-out
    .run .arp 0 true, .fail .arp, .run .tap 0 true, .run .tap 0 true,
    -- the question to the IP server gets the late answer
    .run .arp 0 true, .run .arp 0 true,
    -- and both again
    .run .arp 0 true, .run .tap 0 true, .run .tap 0 true, .run .arp 0 true, .run .arp 0 true,
    .run .ip4 0 true, .run .ip4 0 true, .run .ip4 0 true, .run .ip4 0 true, .run .arp 0 true]

/-- The three servers after some events. -/
def sampleWorld (events : List (WorldEvent SampleServer)) : World sampleServers.places :=
  (run (worldStep sampleServers.places) (worldStart sampleServers.places) events).1

/-- The state of the ARP server. -/
def sampleCfg (events : List (WorldEvent SampleServer)) : Option ArpCfg :=
  ((sampleWorld events).threads .arp).map fun thread ↦ thread.state

theorem configured_sampleServers : sampleServers.Configured where
  distinct place other hname := by
    cases place <;> cases other <;> first | rfl | exact absurd hname (by decide +kernel)
  text place := by cases place <;> decide +kernel
  mac place config hrole := by
    cases place with
    | tap =>
      rw [← Role.device.inj hrole]
      rfl
    | ip4 => exact Role.noConfusion hrole
    | arp => exact Role.noConfusion hrole
  ip4 place address hrole := by
    cases place with
    | tap => exact Role.noConfusion hrole
    | ip4 =>
      rw [← Role.ip4.inj hrole]
      rfl
    | arp => exact Role.noConfusion hrole

/-- The addresses that the ARP server has after a late answer. -/
theorem configuration_learned_late_answer :
    sampleCfg sampleStart = some ⟨some [2, 0, 0, 0, 0, 1], some [10, 0, 0, 1],
      .returned [2, 0, 0, 0, 0, 1] [10, 0, 0, 1]⟩ ∧
    (∃ device config, sampleServers.role device = .device config ∧
      (sampleServers.identifier device).name = ascii "tap-meta" ∧
      config.macAddr = [2, 0, 0, 0, 0, 1]) ∧
    ∃ server, sampleServers.role server = .ip4 [10, 0, 0, 1] ∧
      (sampleServers.identifier server).name = ascii "ip4-meta" := by
  have hcfg : sampleCfg sampleStart = some ⟨some [2, 0, 0, 0, 0, 1], some [10, 0, 0, 1],
      .returned [2, 0, 0, 0, 0, 1] [10, 0, 0, 1]⟩ := by
    decide +kernel
  have hevents : Along (worldStep sampleServers.places) sampleServers.Apart
      (worldStart sampleServers.places) sampleStart :=
    ⟨trivial, trivial, trivial, trivial, trivial, trivial, trivial, trivial, trivial, trivial,
      trivial, trivial, trivial, trivial, trivial, trivial, trivial, trivial, trivial, trivial⟩
  obtain ⟨thread, hthread, hstate⟩ := Option.map_eq_some_iff.mp hcfg
  have hlearned := configuration_learned configured_sampleServers hevents .arp thread hthread
  exact ⟨hcfg, hlearned.2 _ _ (congrArg ArpCfg.position hstate)⟩

end MyIPNG.Stack
