import MyIPNG.Arp.Resolver
import MyIPNG.Ip4.RunIn
import MyIPNG.Shm.Wrapping
import MyIPNG.Utils.Mappings

/-!
# The servers of the network device

`tap_server.cpp` and `promisc_server.cpp` stand between the wire and the servers of the protocols.
`run_in` takes a frame from the device, looks whether it is for this host, and hands it to the
server of its type. `run_out` makes a frame of a message of a server and writes it to the device.
The two programs have the same code for that, up to what they do with a message after the write.

`runIn_packet` says what becomes of a frame of one device at another one. `runOut_frees` is about
the memory of the messages: the server of the TAP device releases a message twice when the device
does not take all of a frame, and the server of the promiscuous device never releases the message of
a frame that it made.

A length field that says more than there is reads as far as the message goes.
-/

set_option autoImplicit false
set_option relaxedAutoImplicit false

namespace MyIPNG.Tap

open Base Utils Arp

/-! ### The code -/

/-- What the server is configured with: the address of the device and the tables of the types. -/
structure Config where
  macAddr : List UInt8
  mappings : Mappings UInt16

/-- The type of a frame. -/
def frameType (buffer : List UInt8) : UInt16 :=
  UInt16.ofNat (((buffer.getD 12 0).toNat <<< 8) ||| (buffer.getD 13 0).toNat)

/-- "for us? or broadcast/multicast?" -/
def IsForUs (macAddr buffer : List UInt8) : Prop :=
  buffer.getD 0 0 &&& 1 ≠ 0 ∨ slice buffer 0 6 = macAddr ∨ slice buffer 0 6 = bcAddr

instance (macAddr buffer : List UInt8) : Decidable (IsForUs macAddr buffer) :=
  inferInstanceAs (Decidable (_ ∨ _))

/-- The loop body of `run_in` for what was read from the device: the name of the queue and the
message for it. -/
def runIn (config : Config) (contents : ℕ → UInt8) (buffer : List UInt8) :
    Option (List UInt8 × Shm.Message) :=
  if buffer.length < 42 then none
  else if ¬ IsForUs config.macAddr buffer then none
  else
    (config.mappings.mappingsIn.lookup (frameType buffer)).map fun queue ↦
      (queue, Shm.wrapMessageUp contents buffer (slice buffer 6 6) (slice buffer 0 6)
        (buffer.drop 14) none)

/-- `packet` of `run_out`. -/
def packet (type : UInt16) (fromAddr toAddr pl : List UInt8) : List UInt8 :=
  toAddr ++ fromAddr ++ [(type >>> 8).toUInt8, type.toUInt8] ++ pl

/-- What `run_out` makes of a message. -/
inductive Outgoing
  | assertionFails
  | refused
  | frame (packet : List UInt8)
deriving DecidableEq, Repr

/-- The tests of `run_out` and the frame. -/
def outgoing (config : Config) (m : Shm.Message) : Outgoing :=
  match Shm.unwrapMessageDown m.data with
  | none => .assertionFails
  | some parts =>
    if parts.fromArea.len ≠ 6 ∨ parts.toArea.len ≠ 6 then .refused
    else if parts.pl.len = 0 then .refused
    else
      match config.mappings.mappingsOut.lookup (m.sender.takeWhile fun c ↦ c != 0) with
      | none => .refused
      | some type => .frame (packet type (parts.fromArea.read m.data) (parts.toArea.read m.data)
          (parts.pl.read m.data))

/-- What `run_out` does with a message: it writes a frame, it releases the message. -/
inductive OutEffect
  | write (packet : List UInt8)
  | free
deriving DecidableEq, Repr

/-- The loop body of `run_out` of `tap_server.cpp`. `written` is what `write` returns. Nothing when
the assertion fails. -/
def tapRunOut (config : Config) (written : List UInt8 → ℤ) (m : Shm.Message) :
    Option (List OutEffect) :=
  match outgoing config m with
  | .assertionFails => none
  | .refused => some [.free]
  | .frame packet =>
    some (.write packet :: (if written packet ≠ packet.length then [.free] else []) ++ [.free])

/-- The loop body of `run_out` of `promisc_server.cpp`. What `sendto` returns is only logged. -/
def promiscRunOut (config : Config) (m : Shm.Message) : Option (List OutEffect) :=
  match outgoing config m with
  | .assertionFails => none
  | .refused => some [.free]
  | .frame packet => some [.write packet]

/-- `run_meta`: the text that answers a message, if there is one. -/
def runMeta (config : Config) (kv : List UInt8) : Option (List UInt8) :=
  if (split kv ⟨ascii "=", by decide⟩).head? = some (ascii "get-mac") then
    some (ascii "mac=" ++ toStr 58 true config.macAddr)
  else none

/-! ### From device to device -/

section Frame

variable (type : UInt16) {fromAddr toAddr : List UInt8} (pl padding : List UInt8)

theorem packet_append :
    packet type fromAddr toAddr pl ++ padding =
      toAddr ++ (fromAddr ++ ([(type >>> 8).toUInt8, type.toUInt8] ++ (pl ++ padding))) := by
  simp [packet]

theorem length_packet (hfrom : fromAddr.length = 6) (hto : toAddr.length = 6) :
    (packet type fromAddr toAddr pl).length = pl.length + 14 := by
  simp only [packet, List.length_append, hfrom, hto, List.length_cons, List.length_nil]
  omega

/-- The parts of a frame, read back. -/
theorem parts_packet (hfrom : fromAddr.length = 6) (hto : toAddr.length = 6) :
    let frame := packet type fromAddr toAddr pl ++ padding
    slice frame 0 6 = toAddr ∧ slice frame 6 6 = fromAddr ∧ frameType frame = type ∧
      frame.drop 14 = pl ++ padding := by
  intro frame
  have hframe : frame = toAddr ++ (fromAddr ++ ([(type >>> 8).toUInt8, type.toUInt8] ++
      (pl ++ padding))) := packet_append type pl padding
  have hbehind : frame.drop 12 = [(type >>> 8).toUInt8, type.toUInt8] ++ (pl ++ padding) := by
    rw [hframe, show 12 = 6 + 6 from rfl, ← List.drop_drop, List.drop_left' hto,
      List.drop_left' hfrom]
  have hbyte : ∀ index, frame.getD (12 + index) 0 =
      ([(type >>> 8).toUInt8, type.toUInt8] ++ (pl ++ padding)).getD index 0 := by
    intro index
    rw [← hbehind, List.getD_eq_getElem?_getD, List.getD_eq_getElem?_getD, List.getElem?_drop]
  refine ⟨?_, ?_, ?_, ?_⟩
  · rw [slice, hframe, List.drop_zero, List.take_left' hto]
  · rw [slice, hframe, List.drop_left' hto, List.take_left' hfrom]
  · have hor := Nat.shiftLeft_add_eq_or_of_lt type.toUInt8.toNat_lt (type >>> 8).toUInt8.toNat
    have hhigh : frame.getD 12 0 = (type >>> 8).toUInt8 := hbyte 0
    have hlow : frame.getD 13 0 = type.toUInt8 := hbyte 1
    rw [frameType, hhigh, hlow, ← hor, Nat.shiftLeft_eq]
    exact (congrArg UInt16.ofNat (toNat_twoBytes type)).trans UInt16.ofNat_toNat
  · rw [show 14 = 12 + 2 from rfl, ← List.drop_drop, hbehind]
    rfl

/-- A frame at a device that it is for, with a server for its type. The message that the server gets
has the payload of the frame, with what the wire put behind it. Assumes: a frame of at least 42
bytes that the buffer of the device holds. -/
theorem runIn_packet {config : Config} (hfrom : fromAddr.length = 6) (hto : toAddr.length = 6)
    (hmac : toAddr = config.macAddr) {queue : List UInt8}
    (hqueue : config.mappings.mappingsIn.lookup type = some queue)
    (hlong : 42 ≤ (packet type fromAddr toAddr pl ++ padding).length)
    (hshort : (packet type fromAddr toAddr pl ++ padding).length ≤ 65536) (contents : ℕ → UInt8) :
    ∃ m unwrapped, runIn config contents (packet type fromAddr toAddr pl ++ padding) =
        some (queue, m) ∧ Shm.unwrapMessageUp m.data = some unwrapped ∧
      unwrapped.fromArea.Shows m.data fromAddr ∧ unwrapped.toArea.Shows m.data toAddr ∧
      unwrapped.pl.Shows m.data (pl ++ padding) := by
  obtain ⟨htoPart, hfromPart, htype, hpl⟩ := parts_packet type pl padding hfrom hto
  have hlength := length_packet type pl hfrom hto
  generalize hframe : packet type fromAddr toAddr pl ++ padding = frame at *
  have hbehind : (pl ++ padding).length ≤ 65536 := by
    rw [← hpl, List.length_drop]
    omega
  have hsize := Shm.length_encodeUp contents frame fromAddr toAddr (pl ++ padding)
  have hsmall : Shm.sizeofWrappedUp + fromAddr.length + toAddr.length + (pl ++ padding).length +
      frame.length < 2 ^ 32 := by
    rw [hfrom, hto, Shm.sizeofWrappedUp]
    omega
  have hforUs : IsForUs config.macAddr frame := Or.inr (Or.inl (htoPart.trans hmac))
  obtain ⟨unwrapped, hunwrap, -, hfromArea, htoArea, hplArea⟩ :=
    Shm.unwrapMessageUp_encodeUp contents frame fromAddr toAddr (pl ++ padding) (by omega)
  have hdata := Shm.data_allocateShmMessage (Shm.addressed none).1 (Shm.addressed none).2
    (hsize.trans_lt hsmall)
  refine ⟨Shm.wrapMessageUp contents frame fromAddr toAddr (pl ++ padding) none, unwrapped, ?_⟩
  rw [Shm.wrapMessageUp, hdata]
  refine ⟨?_, hunwrap, hfromArea, htoArea, hplArea⟩
  rw [runIn, if_neg (by omega), if_neg (not_not.mpr hforUs), htype, hqueue, hfromPart, htoPart, hpl]
  rfl

/-- The frame that `run_out` makes of a message of a server with a type. Assumes: addresses of six
bytes and a payload that is not empty and that a message can hold. -/
theorem outgoing_wrapMessageDown {config : Config} (hfrom : fromAddr.length = 6)
    (hto : toAddr.length = 6) (hpl : pl ≠ []) (hsmall : pl.length ≤ 65536) (contents : ℕ → UInt8)
    {m : Shm.Message}
    (hm : m.data = (Shm.wrapMessageDown contents fromAddr toAddr pl none).data)
    (htype : config.mappings.mappingsOut.lookup (m.sender.takeWhile fun c ↦ c != 0) = some type) :
    outgoing config m = .frame (packet type fromAddr toAddr pl) := by
  obtain ⟨unwrapped, hunwrap, hfromArea, htoArea, hplArea⟩ :=
    Shm.wrapMessageDown_shows contents fromAddr toAddr pl none (by
      rw [hfrom, hto, Shm.sizeofWrappedDown]
      omega)
  rw [← hm] at hunwrap hfromArea htoArea hplArea
  have hplLen : unwrapped.pl.len ≠ 0 := by
    rw [hplArea.1]
    exact (List.length_pos_iff.mpr hpl).ne'
  rw [outgoing, hunwrap]
  simp only [hfromArea.1, hfrom, htoArea.1, hto, hplLen, htype, hfromArea.2, htoArea.2, hplArea.2,
    ne_eq, not_true_eq_false, or_self, if_false]

end Frame

/-! ### The memory of the messages -/

/-- A message is released exactly once by the server of the TAP device unless the device took less
than the frame that was made of it, and by the server of the promiscuous device exactly when no
frame was made of it. -/
theorem runOut_frees (config : Config) (written : List UInt8 → ℤ) {m : Shm.Message}
    {effects effects' : List OutEffect} (h : tapRunOut config written m = some effects)
    (h' : promiscRunOut config m = some effects') :
    (effects.count .free = 1 ↔
      ∀ packet, outgoing config m = .frame packet → written packet = packet.length) ∧
    (effects'.count .free = 1 ↔ ∀ packet, outgoing config m ≠ .frame packet) := by
  unfold tapRunOut at h
  unfold promiscRunOut at h'
  cases hout : outgoing config m with
  | assertionFails => simp [hout] at h
  | refused =>
    simp only [hout, Option.some.injEq] at h h'
    subst h h'
    simp
  | frame packet =>
    simp only [hout, Option.some.injEq] at h h'
    subst h h'
    by_cases hwhole : written packet = packet.length
    · simp [hwhole]
    · simp [hwhole]

end MyIPNG.Tap
