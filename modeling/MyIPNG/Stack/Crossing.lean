import MyIPNG.Icmp.Server
import MyIPNG.Ip4.Sent
import MyIPNG.Ip4.Traffic
import MyIPNG.Stack.EndToEnd
import MyIPNG.Tap.Server
import MyIPNG.Tcp.Connection

/-!
# From host to host

A message of an upper layer on its way through two hosts: the IP server of the one cuts it into
packets, the server of the network device makes frames of them, the device of the other host reads
the frames, and the IP server there puts the packets together. The wire may bring the frames in any
order, between any others, and filled up behind their ends.

`datagram_crosses` says that the upper layer of the other host gets what was handed over, once. The
two corollaries are about what goes through: a segment of TCP decodes to its fields, which is what
`connection_delivers` asks of a network, and an echo request comes back with its identifier, its
number and its data.
-/

set_option autoImplicit false
set_option relaxedAutoImplicit false

namespace MyIPNG.Stack

open Base Utils

/-! ### The host that sends -/

/-- What the IP server hands to the server of the device for packets between two MAC addresses. -/
def HandedDown (sender fromMac toMac : List UInt8) (messages : List Shm.Message)
    (packets : List (List UInt8)) : Prop :=
  List.Forall₂ (fun m packet ↦
    (∃ contents, m.data = (Shm.wrapMessageDown contents fromMac toMac packet none).data) ∧
      m.sender.takeWhile (fun c ↦ c != 0) = sender) messages packets

/-- The way of a message of an upper layer through the host that sends it: it was queued in a run of
the IP server, its packets were handed to the server of the device, and that makes a frame of each
between the MAC addresses of the two hosts. -/
structure SentBy (config : Ip4.OutConfig) (device : Tap.Config) (m : Ip4.DownMessage)
    (reply : Ip4.ResolverReply) (toMac : List UInt8) (type : UInt16)
    (messages : List Shm.Message) : Prop where
  path : ∃ events trace fromNr toNr now effects message sent fromMac packets sender,
    Along (traced (Ip4.outStep config)) Ip4.FreshNumbers (some Ip4.Pending.start) events ∧
    (run (traced (Ip4.outStep config)) (some Ip4.Pending.start) events).2 = trace ∧
    (.packet m (some fromNr) (some toNr) now, effects) ∈ trace ∧
    .queued message message fromNr toNr ∈ effects ∧
    (.reply reply, sent) ∈ trace ∧ .transmit message fromMac toMac (some packets) ∈ sent ∧
    fromMac.length = 6 ∧ HandedDown sender fromMac toMac messages packets ∧
    device.mappings.mappingsOut.lookup sender = some type
  accepts : ∀ index, reply.accepts index = true
  nonempty : 1 ≤ m.pl.length
  small : m.pl.length ≤ 65515
  mtu_low : 28 ≤ config.mtuSize
  mtu_high : config.mtuSize ≤ 65535

/-! ### The host that receives -/

/-- A frame that the device of a host reads, with what its handling reads from its surroundings: the
bytes of a buffer that are not set, the clock, and those of a record that are not written. -/
structure FrameRead where
  buffer : List UInt8
  contents : ℕ → UInt8
  nowUs : UInt64
  fresh : ℕ → UInt8

/-- What can happen at the host that receives. -/
inductive HostEvent
  | frame (frame : FrameRead)
  | cleaner (now : UInt64)

/-- A host that receives: its device, the name of its IP server, and that server. -/
structure Host where
  device : Tap.Config
  ipQueue : List UInt8
  ip4 : Ip4.Config

/-- What the IP server gets of a frame. -/
def Host.inEvent (host : Host) : HostEvent → Option Ip4.InEvent
  | .cleaner now => some (.cleaner now)
  | .frame frame =>
    match Tap.runIn host.device frame.contents frame.buffer with
    | none => none
    | some (queue, m) =>
      if queue = host.ipQueue then
        (Shm.unwrapMessageUp m.data).map fun parts ↦
          .packet ⟨parts.pl.read m.data, frame.nowUs, frame.fresh⟩
      else none

/-- One event at the host that receives. -/
def Host.step (host : Host) : Ip4.Packets → HostEvent → Ip4.Packets × List Ip4.Output :=
  translated host.inEvent (Ip4.inStep host.ip4)

/-- The event brings a packet under a key to the IP server. -/
def Host.brings (host : Host) (key : UInt64) (event : HostEvent) : Bool :=
  (host.inEvent event).any (Ip4.ofKey key)

/-- Frames that arrive: the device of the other host made each of a message, the wire put something
behind it, and the buffer of the device holds it. -/
def Arrive (device : Tap.Config) (frames : List FrameRead) (messages : List Shm.Message) : Prop :=
  List.Forall₂ (fun frame m ↦ ∃ written, Tap.outgoing device m = .frame written ∧
    written <+: frame.buffer ∧ 42 ≤ frame.buffer.length ∧ frame.buffer.length ≤ 65536)
    frames messages

/-- What happens at a host in which the messages of another one arrive: their frames come in any
order, no other frame brings a packet under the key, and the cleaner passes in time. -/
structure ReceivedBy (host : Host) (device : Tap.Config) (messages : List Shm.Message)
    (key : UInt64) (packets : Ip4.Packets) (events : List HostEvent) : Prop where
  unseen : packets[key]? = none
  inTime : Along host.step (fun packets event ↦ ∀ next, host.inEvent event = some next →
    Ip4.InTime key packets next) packets events
  frames : ∃ own order, order.Perm messages ∧ Arrive device own order ∧
    events.filter (host.brings key) = own.map .frame

/-! ### The frames of a datagram -/

section Frames

variable {device : Tap.Config} {host : Host} {sender fromMac toMac : List UInt8} {type : UInt16}

/-- A frame at the host that it is for brings its packet to the IP server. Assumes: a packet that is
not empty and fits a frame. -/
theorem inEvent_frame (hfrom : fromMac.length = 6) (hto : toMac.length = 6)
    (htype : device.mappings.mappingsOut.lookup sender = some type)
    (hmac : toMac = host.device.macAddr)
    (hqueue : host.device.mappings.mappingsIn.lookup type = some host.ipQueue)
    {m : Shm.Message} {packet : List UInt8} (hpacket : packet ≠ []) (hsmall : packet.length ≤ 65536)
    (hdata : ∃ contents, m.data = (Shm.wrapMessageDown contents fromMac toMac packet none).data)
    (hsender : m.sender.takeWhile (fun c ↦ c != 0) = sender) {frame : FrameRead}
    {written : List UInt8} (hwritten : Tap.outgoing device m = .frame written)
    (hbegins : written <+: frame.buffer) (hlong : 42 ≤ frame.buffer.length)
    (hshort : frame.buffer.length ≤ 65536) :
    ∃ padding, host.inEvent (.frame frame) =
      some (.packet ⟨packet ++ padding, frame.nowUs, frame.fresh⟩) := by
  obtain ⟨contents, hdata⟩ := hdata
  obtain ⟨padding, hbuffer⟩ := hbegins
  have hmade : Tap.outgoing device m = .frame (Tap.packet type fromMac toMac packet) :=
    Tap.outgoing_wrapMessageDown type packet hfrom hto hpacket hsmall contents hdata
      (hsender ▸ htype)
  obtain rfl : written = Tap.packet type fromMac toMac packet := by
    simpa using hwritten.symm.trans hmade
  rw [← hbuffer] at hlong hshort
  obtain ⟨got, parts, hrun, hunwrap, -, -, hpl⟩ := Tap.runIn_packet type packet padding hfrom hto
    hmac hqueue hlong hshort frame.contents
  refine ⟨padding, ?_⟩
  rw [hbuffer] at hrun
  rw [Host.inEvent, hrun]
  simp only [if_true, hunwrap, Option.map_some, hpl.2]

/-- The packets of events that bring some under a key. -/
theorem filter_inEvents (host : Host) (key : UInt64) (events : List HostEvent) :
    (events.filterMap host.inEvent).filter (Ip4.ofKey key) =
      (events.filter (host.brings key)).filterMap host.inEvent := by
  induction events with
  | nil => rfl
  | cons event rest ih =>
    cases hevent : host.inEvent event with
    | none =>
      have hnot : host.brings key event = false := by rw [Host.brings, hevent]; rfl
      rw [List.filterMap_cons_none hevent, List.filter_cons_of_neg (by simp [hnot]), ih]
    | some next =>
      have hsame : host.brings key event = Ip4.ofKey key next := by rw [Host.brings, hevent]; rfl
      rw [List.filterMap_cons_some hevent, List.filter_cons, List.filter_cons, hsame]
      split_ifs
      · rw [List.filterMap_cons_some hevent, ih]
      · exact ih

/-- Frames that arrive bring their packets to the IP server. -/
theorem inEvents_arrive (hfrom : fromMac.length = 6) (hto : toMac.length = 6)
    (htype : device.mappings.mappingsOut.lookup sender = some type)
    (hmac : toMac = host.device.macAddr)
    (hqueue : host.device.mappings.mappingsIn.lookup type = some host.ipQueue)
    {frames : List FrameRead} {messages : List Shm.Message} {packets : List (List UInt8)}
    (harrive : Arrive device frames messages)
    (hdown : HandedDown sender fromMac toMac messages packets)
    (hfits : ∀ packet ∈ packets, packet ≠ [] ∧ packet.length ≤ 65536) :
    ∃ arrivals, (frames.map HostEvent.frame).filterMap host.inEvent = arrivals.map .packet ∧
      Ip4.Padded arrivals packets := by
  induction harrive generalizing packets with
  | nil =>
    obtain rfl := List.forall₂_nil_left_iff.mp hdown
    exact ⟨[], rfl, .nil⟩
  | @cons frame m frames messages hframe _ ih =>
    obtain ⟨packet, rest, ⟨hdata, hsender⟩, hrest, rfl⟩ := List.forall₂_cons_left_iff.mp hdown
    obtain ⟨⟨hnonempty, hsmall⟩, hothers⟩ := List.forall_mem_cons.mp hfits
    obtain ⟨written, hwritten, hbegins, hlong, hshort⟩ := hframe
    obtain ⟨padding, hevent⟩ := inEvent_frame hfrom hto htype hmac hqueue hnonempty hsmall hdata
      hsender hwritten hbegins hlong hshort
    obtain ⟨arrivals, hbrought, hpadded⟩ := ih hrest hothers
    refine ⟨⟨packet ++ padding, frame.nowUs, frame.fresh⟩ :: arrivals, ?_,
      .cons (List.prefix_append _ _) hpadded⟩
    rw [List.map_cons, List.filterMap_cons_some hevent, hbrought, List.map_cons]

end Frames

/-! ### A message from host to host -/

/-- The packets of a loop that came to an end and whose packets were all taken. -/
theorem tiles_of_fragmentLoop {accepts : ℕ → Bool} (haccepts : ∀ index, accepts index = true)
    {mtuSize : ℤ} (hsize : 0 < Ip4.useMtuSizeT mtuSize) {datagram : Ip4.Datagram} {fuel index : ℕ}
    {fragmentOffset : ℕ} {packets : List (List UInt8)}
    (h : Ip4.fragmentLoop accepts mtuSize datagram fuel index fragmentOffset = some packets) :
    packets = (cut (Ip4.useMtuSizeT mtuSize) datagram.payload fragmentOffset).map
      (Ip4.tileMsg datagram) := by
  induction fuel generalizing index fragmentOffset packets with
  | zero =>
    rw [Ip4.fragmentLoop] at h
    split_ifs at h with hinside
    rw [cut_end _ _ (by omega), ← Option.some.inj h]
    rfl
  | succ fuel ih =>
    by_cases hinside : fragmentOffset < datagram.payload.length
    · have hcount : fragmentOffset + min (Ip4.useMtuSizeT mtuSize)
          (datagram.payload.length - fragmentOffset) ≤ datagram.payload.length := by omega
      rw [Ip4.fragmentLoop, if_pos hinside, if_pos (haccepts index)] at h
      obtain ⟨rest, hrest, rfl⟩ := Option.map_eq_some_iff.mp h
      rw [ih hrest, cut_eq hsize datagram.payload hinside, List.map_cons, Ip4.tileMsg,
        length_slice _ _ _ hcount]
    · rw [Ip4.fragmentLoop, if_neg hinside] at h
      rw [cut_end _ _ (by omega), ← Option.some.inj h]
      rfl

/-- The packets of a message that was sent are the tiles of its datagram. -/
theorem SentBy.tiles {config : Ip4.OutConfig} {device : Tap.Config} {m : Ip4.DownMessage}
    {reply : Ip4.ResolverReply} {toMac : List UInt8} {type : UInt16} {messages : List Shm.Message}
    (h : SentBy config device m reply toMac type messages) :
    ∃ source destination protocol fromMac sender, source.bytes = m.fromAddr ∧
      destination.bytes = m.toAddr ∧ config.mappingsOut m.sender = some protocol ∧
      fromMac.length = 6 ∧ device.mappings.mappingsOut.lookup sender = some type ∧
      HandedDown sender fromMac toMac messages
        ((cut (Ip4.useMtuSizeT config.mtuSize) m.pl 0).map (Ip4.tileMsg
          ⟨reply.packetsId, protocol, source, destination, m.pl⟩)) := by
  obtain ⟨events, trace, fromNr, toNr, now, effects, message, sent, fromMac, packets, sender,
    hfresh, htrace, hpacket, hqueued, hreply, htransmit, hfrom, hdown, htype⟩ := h.path
  obtain ⟨-, hprovenance⟩ := Ip4.run_provenance config hfresh
  rw [htrace] at hprovenance
  obtain ⟨found, hfound, m', fromNr', toNr', now', queued, protocol, hby, hcontent, hprotocol,
    hpackets⟩ := hprovenance.sent _ hreply message fromMac toMac _ htransmit
  obtain rfl : reply = found := by simpa using hfound
  obtain ⟨rfl, -⟩ :=
    hprovenance.unique _ _ _ _ _ _ _ _ _ ⟨effects, hpacket, hqueued⟩ hby
  unfold Ip4.queuedMsg at hcontent
  split_ifs at hcontent with hlengths
  obtain rfl := Option.some.inj hcontent
  obtain ⟨hsize, -, -⟩ := Ip4.useMtuSizeT_spec h.mtu_low h.mtu_high
  rw [tiles_of_fragmentLoop h.accepts hsize hpackets.symm] at hdown
  exact ⟨_, _, protocol, fromMac, sender, rfl, rfl, hprotocol, hfrom, htype, hdown⟩

/-- The way of a message from one host to another: the IP server and the device of the one, the
reply of the resolver on which the message goes, the messages for the device, the type of the frames
and the protocol, the other host, the queue that gets the message there, and the records of its IP
server and the events there. -/
structure Crossing where
  config : Ip4.OutConfig
  device : Tap.Config
  reply : Ip4.ResolverReply
  messages : List Shm.Message
  type : UInt16
  protocol : UInt8
  host : Host
  queue : List UInt8
  packets : Ip4.Packets
  events : List HostEvent

/-- The key of the packets of a message on its way. -/
def Crossing.key (way : Crossing) (m : Ip4.DownMessage) : UInt64 :=
  Ip4.calcSessionId m.fromAddr m.toAddr way.protocol way.reply.packetsId

/-- A message takes its way: it was sent to the MAC address of the other host, whose device has the
IP server for the type of the frames, and whose IP server has the destination as its address and the
queue for the protocol; and its frames arrive there. -/
structure Crossing.Takes (way : Crossing) (m : Ip4.DownMessage) : Prop where
  sent : SentBy way.config way.device m way.reply way.host.device.macAddr way.type way.messages
  macLength : way.host.device.macAddr.length = 6
  type : way.host.device.mappings.mappingsIn.lookup way.type = some way.host.ipQueue
  address : way.host.ip4.listenAddr.bytes = m.toAddr
  protocol : way.config.mappingsOut m.sender = some way.protocol
  mapped : way.host.ip4.mappingsIn way.protocol = some way.queue
  received : ReceivedBy way.host way.device way.messages (way.key m) way.packets way.events

/-- What goes up at the other host under the key of a message. -/
def Crossing.passedUp (way : Crossing) (m : Ip4.DownMessage) (events : List HostEvent) :
    List Ip4.Output :=
  (run way.host.step way.packets events).2.filter (Ip4.upOf (way.key m))

/-- The packets of the frames of a message arrive as a datagram at the IP server of the other host.
-/
theorem Crossing.Takes.arrivesIn {way : Crossing} {m : Ip4.DownMessage} (h : way.Takes m) :
    ∃ datagram : Ip4.Datagram, Ip4.datagramKey datagram = way.key m ∧
      datagram.source.bytes = m.fromAddr ∧ datagram.destination.bytes = m.toAddr ∧
      datagram.payload = m.pl ∧ Ip4.ArrivesIn way.host.ip4 way.config.mtuSize way.packets
        (way.events.filterMap way.host.inEvent) datagram way.queue := by
  obtain ⟨source, destination, protocol, fromMac, sender, hsource, hdestination, hprotocol, hfrom,
    hsender, hdown⟩ := h.sent.tiles
  obtain rfl := Option.some.inj (h.protocol.symm.trans hprotocol)
  obtain ⟨own, order, horder, harrive, hown⟩ := h.received.frames
  obtain ⟨hsize, haligned, -⟩ := Ip4.useMtuSizeT_spec h.sent.mtu_low h.sent.mtu_high
  let datagram : Ip4.Datagram := ⟨way.reply.packetsId, way.protocol, source, destination, m.pl⟩
  have hcut : Ip4.CutInto datagram (cut (Ip4.useMtuSizeT way.config.mtuSize) m.pl 0) :=
    Ip4.cutInto_cut h.sent.small hsize haligned
  have hkey : Ip4.datagramKey datagram = way.key m := by
    rw [Ip4.datagramKey, Crossing.key, hsource, hdestination]
  have haddress : way.host.ip4.listenAddr = destination := by
    by_contra hne
    exact bytes_ne_bytes hne (h.address.trans hdestination.symm)
  -- the packets in the order in which their frames come
  obtain ⟨bare, hbare, hperm⟩ := List.perm_comp_forall₂ horder hdown
  have hfits : ∀ packet ∈ bare, packet ≠ [] ∧ packet.length ≤ 65536 := by
    intro packet hpacket
    obtain ⟨tile, htile, rfl⟩ := List.mem_map.mp (hperm.subset hpacket)
    have hlength : (Ip4.tileMsg datagram tile).length = tile.2.length + 20 :=
      Ip4.length_tileMsg (hcut.fits tile htile)
    have hinside := (hcut.fits tile htile).inside
    have hsmall := (hcut.fits tile htile).small
    rw [tileEnd] at hinside
    refine ⟨List.ne_nil_of_length_pos (l := Ip4.tileMsg datagram tile) (by omega), ?_⟩
    exact hlength.trans_le (by omega)
  obtain ⟨arrivals, hbrought, hpadded⟩ :=
    inEvents_arrive hfrom h.macLength hsender rfl h.type harrive hbare hfits
  refine ⟨datagram, hkey, hsource, hdestination, rfl, h.sent.nonempty, h.sent.small, haddress,
    h.mapped, hkey ▸ h.received.unseen, hkey ▸ along_translated.mp h.received.inTime, _, bare,
    arrivals, Ip4.fragmentLoop_tiles (fun _ ↦ rfl) hsize datagram 0 (Nat.zero_add _).ge, hperm, ?_,
    hpadded⟩
  rw [hkey, filter_inEvents, hown, hbrought]

/-- What goes up at a host, as what its IP server passes up of the packets that it gets. -/
theorem passedUp_eq (way : Crossing) (m : Ip4.DownMessage) (events : List HostEvent) :
    way.passedUp m events = (run (Ip4.inStep way.host.ip4) way.packets
      (events.filterMap way.host.inEvent)).2.filter (Ip4.upOf (way.key m)) := by
  have hrun : run way.host.step way.packets events = run (Ip4.inStep way.host.ip4) way.packets
      (events.filterMap way.host.inEvent) := run_translated way.host.inEvent way.packets events
  rw [Crossing.passedUp, hrun]

/-- The payload of a message that takes its way goes up with its addresses, once. -/
theorem Crossing.Takes.passedUp {way : Crossing} {m : Ip4.DownMessage} (h : way.Takes m) :
    ∃ fullPkt, way.passedUp m way.events =
      [.up way.queue ⟨way.key m, fullPkt, m.fromAddr, m.toAddr, m.pl⟩] := by
  obtain ⟨datagram, hkey, hsource, hdestination, hpayload, harrives⟩ := h.arrivesIn
  obtain ⟨-, fullPkt, hmessage⟩ :=
    Ip4.run_among_traffic h.sent.mtu_low h.sent.mtu_high harrives
  rw [hkey] at hmessage
  refine ⟨fullPkt, ?_⟩
  rw [passedUp_eq, hmessage, Ip4.messageFor, hkey, hsource, hdestination, hpayload]

/-! ### A sample network -/

/-- The device of a host of the sample network. -/
def sampleDevice (number : UInt8) : Tap.Config :=
  ⟨[2, 0, 0, 0, 0, number], ⟨[(0x0800, ascii "ip4")], [(ascii "ip4", 0x0800)]⟩⟩

/-- The name of the IP server in a message. -/
def sampleSender : List UInt8 := ascii "ip4" ++ List.replicate 29 0

theorem takeWhile_sampleSender : sampleSender.takeWhile (fun c ↦ c != 0) = ascii "ip4" := by
  decide +kernel

theorem lookup_sampleDevice (number : UInt8) :
    (sampleDevice number).mappings.mappingsOut.lookup (ascii "ip4") = some 0x0800 :=
  List.lookup_cons_self

/-- A message with the name of the IP server as its sender. -/
def named (m : Shm.Message) : Shm.Message :=
  { m with
    sender := sampleSender
    sender_length := by decide +kernel }

theorem data_named (m : Shm.Message) : (named m).data = m.data := rfl

/-- What the IP server hands to the device for a packet between two hosts of the sample network. -/
def sampleHanded (source destination : UInt8) (packet : List UInt8) : Shm.Message :=
  named (Shm.wrapMessageDown (fun _ ↦ 0) [2, 0, 0, 0, 0, source] [2, 0, 0, 0, 0, destination] packet
    none)

/-- A reply of the resolver for a host of the sample network. -/
def sampleAnswer (number : UInt8) (msgNr : UInt64) : Ip4.ResolverReply :=
  ⟨msgNr, ascii "=mac:" ++ toStr 58 true [2, 0, 0, 0, 0, number], fun _ ↦ 0, 7, fun _ ↦ true, 100⟩

/-- The packets of a message between two hosts of the sample network. -/
def samplePackets (source destination : UInt8) (pl : List UInt8) : List (List UInt8) :=
  (cut 8 pl 0).map (Ip4.tileMsg
    ⟨7, 1, ⟨[192, 168, 1, source], rfl⟩, ⟨[192, 168, 1, destination], rfl⟩, pl⟩)

/-- The frame of a packet, filled up to the length that the device asks for. -/
def sampleFrame (source destination : UInt8) (packet : List UInt8) : FrameRead :=
  ⟨Tap.packet 0x0800 [2, 0, 0, 0, 0, source] [2, 0, 0, 0, 0, destination] packet ++
    List.replicate (28 - packet.length) 0, fun _ ↦ 0, 0, fun _ ↦ 0⟩

/-- A frame is no pass of the cleaner. -/
theorem inTime_frame {host : Host} {key : UInt64} {frame : FrameRead} {next : Ip4.InEvent}
    (h : host.inEvent (.frame frame) = some next) (packets : Ip4.Packets) :
    Ip4.InTime key packets next := by
  cases next with
  | packet arrival => trivial
  | cleaner now =>
    unfold Host.inEvent at h
    dsimp only at h
    split at h
    · exact absurd h (by simp)
    · split_ifs at h
      simp at h

/-- A way through the sample network. The frames come the last one first, filled up to the length
that the device asks for. -/
def sampleCrossing (source destination : UInt8) (pl : List UInt8) : Crossing where
  config := ⟨⟨[192, 168, 1, source], rfl⟩, 24, fun _ ↦ 0, Ip4.sampleOutConfig.defaultGwAddr,
    fun sender ↦ [(ascii "icmp", 1)].lookup sender, 28⟩
  device := sampleDevice source
  reply := sampleAnswer source 5
  messages := (samplePackets source destination pl).map (sampleHanded source destination)
  type := 0x0800
  protocol := 1
  host := ⟨sampleDevice destination, ascii "ip4", ⟨⟨[192, 168, 1, destination], rfl⟩,
    fun protocol ↦ [(1, ascii "icmp")].lookup protocol, Ip4.insertionSortFragments⟩⟩
  queue := ascii "icmp"
  packets := ∅
  events := (samplePackets source destination pl).reverse.map fun packet ↦
    .frame (sampleFrame source destination packet)

/-- A message of the ICMP server between two hosts of the sample network. -/
def sampleDown (source destination : UInt8) (pl : List UInt8) : Ip4.DownMessage :=
  ⟨ascii "icmp", [192, 168, 1, source], [192, 168, 1, destination], pl⟩

/-- The run of the IP server in which a message of the sample network is sent. -/
def sampleRun (source destination : UInt8) (pl : List UInt8) : List Ip4.OutEvent :=
  [.packet (sampleDown source destination pl) (some 5) (some 6) 0,
    .reply (sampleAnswer destination 6), .reply (sampleAnswer source 5)]

theorem freshNumbers_sampleRun (config : Ip4.OutConfig) (source destination : UInt8)
    (pl : List UInt8) : Along (traced (Ip4.outStep config)) Ip4.FreshNumbers
      (some Ip4.Pending.start) (sampleRun source destination pl) := by
  refine ⟨⟨by decide, fun pm record hlive ↦ ?_⟩, ?_, ?_, trivial⟩
  · simp [Ip4.Pending.Live, Ip4.Pending.start] at hlive
  all_goals
    unfold Ip4.FreshNumbers
    split
    · simp_all
    · trivial

/-- What a computation shows of a message and its way through the sample network. -/
def computed (source destination : UInt8) (pl : List UInt8) : Bool :=
  let way := sampleCrossing source destination pl
  let message := Ip4.OutEvent.packet (sampleDown source destination pl) (some 5) (some 6) 0
  let queued := Ip4.outStep way.config (some Ip4.Pending.start) message
  let answered := Ip4.outStep way.config queued.1 (.reply (sampleAnswer destination 6))
  let sent := Ip4.outStep way.config answered.1 (.reply (sampleAnswer source 5))
  queued.2.contains (.queued 0 0 5 6) &&
    sent.2.contains (.transmit 0 [2, 0, 0, 0, 0, source] [2, 0, 0, 0, 0, destination]
      (some (samplePackets source destination pl))) &&
    way.events.all (way.host.brings (way.key (sampleDown source destination pl))) &&
    (samplePackets source destination pl).all fun packet ↦
      decide (packet.length ≤ 28 ∧ packet.length ≠ 0)

/-- A message takes its way through the sample network. Assumes: what a computation shows of it. -/
theorem takes_sampleCrossing {source destination : UInt8} {pl : List UInt8}
    (hlow : 1 ≤ pl.length) (hhigh : pl.length ≤ 65515)
    (hcomputed : computed source destination pl = true) :
    (sampleCrossing source destination pl).Takes (sampleDown source destination pl) := by
  simp only [computed, Bool.and_eq_true, List.contains_iff_mem, List.all_eq_true,
    decide_eq_true_eq] at hcomputed
  obtain ⟨⟨⟨hqueued, htransmit⟩, hbrings⟩, hlengths⟩ := hcomputed
  have hdevice : ∀ packet ∈ samplePackets source destination pl,
      Tap.outgoing (sampleDevice source) (sampleHanded source destination packet) =
        .frame (Tap.packet 0x0800 [2, 0, 0, 0, 0, source] [2, 0, 0, 0, 0, destination] packet) := by
    intro packet hpacket
    obtain ⟨hshort, hnonempty⟩ := hlengths packet hpacket
    have htype : (sampleDevice source).mappings.mappingsOut.lookup
        (sampleSender.takeWhile fun c ↦ c != 0) = some 0x0800 := by
      rw [takeWhile_sampleSender, lookup_sampleDevice]
    exact Tap.outgoing_wrapMessageDown 0x0800 packet rfl rfl (List.ne_nil_of_length_pos (by omega))
      (by omega) (fun _ ↦ 0) (data_named _) htype
  have hdown : HandedDown (ascii "ip4") [2, 0, 0, 0, 0, source] [2, 0, 0, 0, 0, destination]
      ((samplePackets source destination pl).map (sampleHanded source destination))
      (samplePackets source destination pl) :=
    List.forall₂_map_left_iff.mpr (List.forall₂_same.mpr fun packet _ ↦
      ⟨⟨fun _ ↦ 0, data_named _⟩, takeWhile_sampleSender⟩)
  have hframes : ∀ event ∈ (sampleCrossing source destination pl).events,
      ∃ frame, event = HostEvent.frame frame := by
    intro event hevent
    obtain ⟨packet, -, rfl⟩ := List.mem_map.mp hevent
    exact ⟨_, rfl⟩
  refine ⟨⟨⟨sampleRun source destination pl, _, 5, 6, 0, _, 0, _, [2, 0, 0, 0, 0, source],
    samplePackets source destination pl, ascii "ip4", freshNumbers_sampleRun _ _ _ _, rfl,
    List.mem_cons_self, hqueued, List.mem_cons_of_mem _ (List.mem_cons_of_mem _ List.mem_cons_self),
    htransmit, rfl, hdown, lookup_sampleDevice _⟩, fun _ ↦ rfl, hlow, hhigh, ?_, ?_⟩, rfl,
    List.lookup_cons_self, rfl, ?_, ?_, Std.ExtTreeMap.getElem?_empty, ?_, ?_⟩
  · change (28 : ℤ) ≤ 28
    decide
  · change (28 : ℤ) ≤ 65535
    decide
  · change [(ascii "icmp", (1 : UInt8))].lookup (ascii "icmp") = some 1
    exact List.lookup_cons_self
  · change [((1 : UInt8), ascii "icmp")].lookup 1 = some (ascii "icmp")
    exact List.lookup_cons_self
  · refine Along.of_invariant (I := fun _ ↦ True) trivial (fun _ _ _ _ ↦ trivial) ?_
      (along_of_forall hframes _)
    rintro packets _ - ⟨frame, rfl⟩ next hnext
    exact inTime_frame hnext packets
  · refine ⟨(samplePackets source destination pl).reverse.map (sampleFrame source destination),
      (samplePackets source destination pl).reverse.map (sampleHanded source destination),
      (List.reverse_perm _).map _, ?_, ?_⟩
    · refine List.forall₂_map_left_iff.mpr (List.forall₂_map_right_iff.mpr
        (List.forall₂_same.mpr fun packet hpacket ↦ ?_))
      have hsent := List.mem_reverse.mp hpacket
      obtain ⟨hshort, hnonempty⟩ := hlengths packet hsent
      refine ⟨_, hdevice packet hsent, List.prefix_append _ _, ?_⟩
      have hlength : (Tap.packet 0x0800 [2, 0, 0, 0, 0, source] [2, 0, 0, 0, 0, destination]
          packet).length = packet.length + 14 := Tap.length_packet 0x0800 packet rfl rfl
      rw [sampleFrame, List.length_append, List.length_replicate, hlength]
      omega
    · rw [List.filter_eq_self.mpr hbrings, List.map_map]
      rfl

/-! ### From host to host -/

/-- A message of an upper layer crosses from one host to another. Nothing goes up under its key
before its last frame, and then its payload goes up with its addresses, once. -/
theorem datagram_crosses {way : Crossing} {m : Ip4.DownMessage} (h : way.Takes m) :
    (∀ before after, way.events = before ++ after → after.any (way.host.brings (way.key m)) = true →
      way.passedUp m before = []) ∧
    ∃ fullPkt, way.passedUp m way.events =
      [.up way.queue ⟨way.key m, fullPkt, m.fromAddr, m.toAddr, m.pl⟩] := by
  refine ⟨fun before after hevents hafter ↦ ?_, h.passedUp⟩
  obtain ⟨datagram, hkey, -, -, -, harrives⟩ := h.arrivesIn
  obtain ⟨hquiet, -⟩ := Ip4.run_among_traffic h.sent.mtu_low h.sent.mtu_high harrives
  rw [hkey] at hquiet
  rw [passedUp_eq]
  refine hquiet _ (after.filterMap way.host.inEvent) (by rw [hevents, List.filterMap_append]) ?_
  obtain ⟨event, hevent, hbrings⟩ := List.any_eq_true.mp hafter
  obtain ⟨next, hnext, hkeyed⟩ := (Option.any_eq_true _ _).mp hbrings
  exact List.any_eq_true.mpr ⟨next, List.mem_filterMap.mpr ⟨event, hevent, hnext⟩, hkeyed⟩

/-- A way on which two frames come, the second one first. -/
theorem datagram_crosses_reversed :
    let request : List UInt8 := [8, 0, 0xf6, 0xfb, 0, 1, 0, 1, 1, 2]
    ∃ fullPkt, (sampleCrossing 1 2 request).passedUp (sampleDown 1 2 request)
        (sampleCrossing 1 2 request).events = [.up (ascii "icmp")
          ⟨(sampleCrossing 1 2 request).key (sampleDown 1 2 request), fullPkt, [192, 168, 1, 1],
            [192, 168, 1, 2], request⟩] :=
  (datagram_crosses (takes_sampleCrossing (by decide) (by decide) (by decide +kernel))).2

/-! ### What goes through -/

/-- A segment of TCP crosses: what goes up at the other host decodes to a segment with its payload,
which is one that the network of a connection may deliver. -/
theorem segment_crosses {way : Crossing} {sender : List UInt8} {out : Tcp.OutSegment}
    (h : way.Takes ⟨sender, out.fromAddr, out.toAddr, Tcp.tcpPacket out⟩) :
    ∃ message segment, way.passedUp ⟨sender, out.fromAddr, out.toAddr, Tcp.tcpPacket out⟩
        way.events = [.up way.queue message] ∧
      Tcp.decodeSegment message.fromAddr message.toAddr message.payload = some segment ∧
      segment.payload = out.payload ∧
      ∀ sent, out ∈ Tcp.emittedIn sent → Tcp.ReadFrom sent segment := by
  obtain ⟨fullPkt, hup⟩ := h.passedUp
  obtain ⟨source, destination, -, -, -, hsource, hdestination, -⟩ := h.sent.tiles
  have hfrom : out.fromAddr.length = 4 := by
    rw [← source.length_eq, hsource]
  have hto : out.toAddr.length = 4 := by
    rw [← destination.length_eq, hdestination]
  have hlength : (Tcp.tcpPacket out).length = 20 + out.payload.length :=
    Tcp.length_packetWith out _
  have hsmall : (Tcp.tcpPacket out).length ≤ 65515 := h.sent.small
  have hdecoded := Tcp.decodeSegment_tcpPacket out hfrom hto (by omega)
  exact ⟨_, _, hup, hdecoded, rfl, fun sent hout ↦ ⟨out, hout, hdecoded⟩⟩

/-- An echo request that `run_in` of the ICMP server takes. -/
structure IsEchoRequest (pl : List UInt8) : Prop where
  long : 8 ≤ pl.length
  verifies : ipChecksum pl = 0
  type : pl.getD 0 0 = 8
  code : pl.getD 1 0 = 0

/-- What the ICMP server gets of a message of the IP server. -/
def inMessage (message : Ip4.UpMessage) : Icmp.InMessage :=
  ⟨message.fullPkt, message.fromAddr, message.toAddr, message.payload⟩

/-- What the IP server gets of a message of the ICMP server. -/
def downMessage (sender : List UInt8) (answer : Icmp.OutMessage) : Ip4.DownMessage :=
  ⟨sender, answer.fromAddr, answer.toAddr, answer.pl⟩

/-- The answer to an echo request. -/
def echoAnswer (request : Ip4.DownMessage) : Icmp.OutMessage :=
  ⟨request.toAddr, request.fromAddr, Icmp.echoReply request.pl⟩

/-- An echo request that crosses is answered by the ICMP server of the other host, and the answer,
when it crosses back, is an echo reply from the other host whose checksum verifies and which has the
identifier, the number and the data of the request. -/
theorem echo_returns {there : Crossing} {request : Ip4.DownMessage}
    (hrequest : IsEchoRequest request.pl) (h : there.Takes request) :
    ∃ message, there.passedUp request there.events = [.up there.queue message] ∧
      Icmp.runIn (inMessage message) = some (echoAnswer request) ∧
      ∀ (back : Crossing) (sender : List UInt8),
        back.Takes (downMessage sender (echoAnswer request)) →
          ∃ returned, back.passedUp (downMessage sender (echoAnswer request)) back.events =
              [.up back.queue returned] ∧
            returned.fromAddr = request.toAddr ∧ returned.toAddr = request.fromAddr ∧
            returned.payload.take 2 = [0, 0] ∧ ipChecksum returned.payload = 0 ∧
            returned.payload.drop 4 = request.pl.drop 4 := by
  obtain ⟨fullPkt, hup⟩ := h.passedUp
  have hsmall : request.pl.length ≤ 131000 := h.sent.small.trans (by decide)
  have hlong := hrequest.long
  have hanswer : Icmp.runIn ⟨fullPkt, request.fromAddr, request.toAddr, request.pl⟩ =
      some (echoAnswer request) := by
    rw [Icmp.runIn, if_neg (by dsimp only; omega), if_neg (not_not.mpr hrequest.verifies),
      if_pos ⟨hrequest.type, hrequest.code⟩, echoAnswer]
  refine ⟨_, hup, hanswer, fun back sender hback ↦ ?_⟩
  obtain ⟨fullReply, hreturned⟩ := hback.passedUp
  exact ⟨_, hreturned, rfl, rfl, rfl, Icmp.ipChecksum_echoReply (by omega) hsmall, rfl⟩

/-- An echo request of ten bytes, in two packets, there and back. -/
theorem echo_returns_two_packets :
    let request := sampleDown 1 2 [8, 0, 0xf6, 0xfb, 0, 1, 0, 1, 1, 2]
    let answer := downMessage (ascii "icmp") (echoAnswer request)
    ∃ returned, (sampleCrossing 2 1 answer.pl).passedUp answer
        (sampleCrossing 2 1 answer.pl).events = [.up (ascii "icmp") returned] ∧
      returned.payload.drop 4 = [0, 1, 0, 1, 1, 2] := by
  intro request answer
  obtain ⟨message, -, -, hback⟩ := @echo_returns (sampleCrossing 1 2 request.pl) request
    ⟨by decide, by decide +kernel, rfl, rfl⟩
    (takes_sampleCrossing (by decide) (by decide) (by decide +kernel))
  obtain ⟨returned, hreturned, -, -, -, -, hdata⟩ :=
    hback (sampleCrossing 2 1 answer.pl) (ascii "icmp")
      (takes_sampleCrossing (by decide +kernel) (by decide +kernel) (by decide +kernel))
  exact ⟨returned, hreturned, hdata⟩

end MyIPNG.Stack
