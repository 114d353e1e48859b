import MyIPNG.Shm.Queue

/-!
# The messages between the servers

`utils/shm_message.cpp`. Three packed structs carry what one server hands to another: `wrapped_up`
for a packet on its way up, `wrapped_up_tcp` for what TCP hands to a session's application, and
`wrapped_down` for a packet on its way down. Each has a type, the lengths of its parts and the parts
one behind the other.

The wrapping functions assign the fields one by one and copy the parts behind them, in a buffer that
`malloc` returns with any contents, so they are written here as a sequence of copies into a buffer.
`unwrapMessageUp` and its siblings return lengths and pointers into the message, a pointer being an
`Area` of it. `encodeUp_eq` and its siblings give the bytes of each message: no byte of the
allocated buffer is left. `unwrap_wrap` says what unwrapping reads from them.

Not modelled: a total of `2 ^ 64` bytes or more, which no address space holds.
-/

set_option autoImplicit false
set_option relaxedAutoImplicit false

namespace MyIPNG.Shm

open Base

/-! ### The structs -/

/-- The `type` of `wrapped_up` and `wrapped_up_tcp`. -/
def typeUp : ℕ := 0xdeadbeef

/-- The `type` of `wrapped_down`. -/
def typeDown : ℕ := 0xbeefdead

/-- `sizeof(wrapped_up)`. -/
def sizeofWrappedUp : ℕ := 36

/-- `sizeof(wrapped_up_tcp)`. -/
def sizeofWrappedUpTcp : ℕ := 44

/-- `sizeof(wrapped_down)`. -/
def sizeofWrappedDown : ℕ := 28

/-- A pointer into a message, as an offset, with the length that belongs to it. -/
structure Area where
  len : ℕ
  start : ℕ
deriving DecidableEq, Repr

/-- The bytes a pointer and its length stand for. -/
def Area.read (area : Area) (memory : List UInt8) : List UInt8 :=
  slice memory area.start area.len

/-- An unsigned field of a packed struct. -/
def field (memory : List UInt8) (offset width : ℕ) : ℕ := leValue (slice memory offset width)

/-- The bytes that `malloc` returns: `size` of them, with any contents. -/
def malloc (size : ℕ) (contents : ℕ → UInt8) : List UInt8 := (List.range size).map contents

/-- `allocate_shm_message` and the copy of the encoded bytes into it. The field `size` has
thirty-two bits, and `size` bytes are copied. -/
def allocateShmMessage (type : UInt32) (msgNr : UInt64) (encoded : List UInt8) : Message where
  id := 0
  sentAt := 0
  type := type
  msgNr := msgNr
  sender := List.replicate maxIdLength 0
  data := encoded.take (encoded.length % 2 ^ 32)
  sender_length := List.length_replicate
  size_lt := by
    have hmod := Nat.mod_lt encoded.length (show 0 < 2 ^ 32 by decide)
    rw [List.length_take]
    omega

/-- The type and the number of a message that may be a reply. -/
def addressed (replyTo : Option UInt64) : UInt32 × UInt64 :=
  match replyTo with
  | some msgNr => (MsgType.msgReply.code, msgNr)
  | none => (MsgType.msgNew.code, 0)

/-! ### `wrapped_up` -/

/-- The assignments and copies of `wrap_message_up`. -/
def assignmentsUp (fullPkt fromBytes toBytes pl : List UInt8) : List (ℕ × List UInt8) :=
  [(0, leBytes 4 typeUp),
    (4, leBytes 8 fullPkt.length),
    (12, leBytes 8 fromBytes.length),
    (20, leBytes 8 toBytes.length),
    (28, leBytes 8 pl.length),
    (sizeofWrappedUp, fromBytes),
    (sizeofWrappedUp + fromBytes.length, toBytes),
    (sizeofWrappedUp + fromBytes.length + toBytes.length, pl),
    (sizeofWrappedUp + fromBytes.length + toBytes.length + pl.length, fullPkt)]

/-- `wrap_message_up`, the overload that returns the bytes. -/
def encodeUp (contents : ℕ → UInt8) (fullPkt fromBytes toBytes pl : List UInt8) : List UInt8 :=
  let totalLength :=
    sizeofWrappedUp + fromBytes.length + toBytes.length + pl.length + fullPkt.length
  writeAll (malloc totalLength contents) (assignmentsUp fullPkt fromBytes toBytes pl)

/-- `wrap_message_up`. -/
def wrapMessageUp (contents : ℕ → UInt8) (fullPkt fromBytes toBytes pl : List UInt8)
    (replyTo : Option UInt64) : Message :=
  allocateShmMessage (addressed replyTo).1 (addressed replyTo).2
    (encodeUp contents fullPkt fromBytes toBytes pl)

/-- What `unwrap_message_up` returns. -/
structure UnwrappedUp where
  fullPkt : Area
  fromArea : Area
  toArea : Area
  pl : Area
deriving DecidableEq, Repr

/-- `unwrap_message_up`. Nothing when the assertion fails or the struct ends behind the message. -/
def unwrapMessageUp (m : List UInt8) : Option UnwrappedUp :=
  if m.length < sizeofWrappedUp then none
  else if field m 0 4 ≠ typeUp then none
  else
    let fullPktLen := field m 4 8
    let fromLen := field m 12 8
    let toLen := field m 20 8
    let plLen := field m 28 8
    some
      { fromArea := ⟨fromLen, sizeofWrappedUp⟩
        toArea := ⟨toLen, sizeofWrappedUp + fromLen⟩
        pl := ⟨plLen, sizeofWrappedUp + fromLen + toLen⟩
        fullPkt := ⟨fullPktLen, sizeofWrappedUp + fromLen + toLen + plLen⟩ }

/-! ### `wrapped_up_tcp` -/

/-- The assignments and copies of `wrap_message_up_tcp`. -/
def assignmentsUpTcp (sessionId : UInt64) (fromBytes : List UInt8) (fromPort : UInt16)
    (toBytes : List UInt8) (toPort : UInt16) (flags : UInt32) (pl : List UInt8) :
    List (ℕ × List UInt8) :=
  [(0, leBytes 4 typeUp),
    (12, leBytes 8 fromBytes.length),
    (20, leBytes 2 fromPort.toNat),
    (22, leBytes 8 toBytes.length),
    (30, leBytes 2 toPort.toNat),
    (32, leBytes 4 flags.toNat),
    (36, leBytes 8 pl.length),
    (4, leBytes 8 sessionId.toNat),
    (sizeofWrappedUpTcp, fromBytes),
    (sizeofWrappedUpTcp + fromBytes.length, toBytes),
    (sizeofWrappedUpTcp + fromBytes.length + toBytes.length, pl)]

/-- The bytes that `wrap_message_up_tcp` puts in its message, which `calloc` cleared. -/
def encodeUpTcp (sessionId : UInt64) (fromBytes : List UInt8) (fromPort : UInt16)
    (toBytes : List UInt8) (toPort : UInt16) (flags : UInt32) (pl : List UInt8) : List UInt8 :=
  let totalLength := sizeofWrappedUpTcp + fromBytes.length + toBytes.length + pl.length
  writeAll (List.replicate totalLength 0)
    (assignmentsUpTcp sessionId fromBytes fromPort toBytes toPort flags pl)

/-- `wrap_message_up_tcp`. It sets neither the type nor the number of the message. -/
def wrapMessageUpTcp (sessionId : UInt64) (fromBytes : List UInt8) (fromPort : UInt16)
    (toBytes : List UInt8) (toPort : UInt16) (flags : UInt32) (pl : List UInt8) : Message :=
  allocateShmMessage 0 0 (encodeUpTcp sessionId fromBytes fromPort toBytes toPort flags pl)

/-- What `unwrap_message_up_tcp` returns. -/
structure UnwrappedUpTcp where
  sessionId : UInt64
  fromArea : Area
  fromPort : UInt16
  toArea : Area
  toPort : UInt16
  flags : UInt32
  pl : Area
deriving DecidableEq, Repr

/-- `unwrap_message_up_tcp`. Nothing when the assertion fails or the struct ends behind the
message. -/
def unwrapMessageUpTcp (m : List UInt8) : Option UnwrappedUpTcp :=
  if m.length < sizeofWrappedUpTcp then none
  else if field m 0 4 ≠ typeUp then none
  else
    let fromLen := field m 12 8
    let toLen := field m 22 8
    let plLen := field m 36 8
    some
      { sessionId := UInt64.ofNat (field m 4 8)
        fromArea := ⟨fromLen, sizeofWrappedUpTcp⟩
        fromPort := UInt16.ofNat (field m 20 2)
        toArea := ⟨toLen, sizeofWrappedUpTcp + fromLen⟩
        toPort := UInt16.ofNat (field m 30 2)
        flags := UInt32.ofNat (field m 32 4)
        pl := ⟨plLen, sizeofWrappedUpTcp + fromLen + toLen⟩ }

/-! ### `wrapped_down` -/

/-- The assignments and copies of `wrap_message_down`. -/
def assignmentsDown (fromBytes toBytes pl : List UInt8) : List (ℕ × List UInt8) :=
  [(0, leBytes 4 typeDown),
    (4, leBytes 8 fromBytes.length),
    (12, leBytes 8 toBytes.length),
    (20, leBytes 8 pl.length),
    (sizeofWrappedDown, fromBytes),
    (sizeofWrappedDown + fromBytes.length, toBytes),
    (sizeofWrappedDown + fromBytes.length + toBytes.length, pl)]

/-- `wrap_message_down`, the overload that returns the bytes. -/
def encodeDown (contents : ℕ → UInt8) (fromBytes toBytes pl : List UInt8) : List UInt8 :=
  let totalLength := sizeofWrappedDown + fromBytes.length + toBytes.length + pl.length
  writeAll (malloc totalLength contents) (assignmentsDown fromBytes toBytes pl)

/-- `wrap_message_down`. -/
def wrapMessageDown (contents : ℕ → UInt8) (fromBytes toBytes pl : List UInt8)
    (replyTo : Option UInt64) : Message :=
  allocateShmMessage (addressed replyTo).1 (addressed replyTo).2
    (encodeDown contents fromBytes toBytes pl)

/-- What `unwrap_message_down` returns. -/
structure UnwrappedDown where
  fromArea : Area
  toArea : Area
  pl : Area
deriving DecidableEq, Repr

/-- `unwrap_message_down`. Nothing when the assertion fails or the struct ends behind the
message. -/
def unwrapMessageDown (m : List UInt8) : Option UnwrappedDown :=
  if m.length < sizeofWrappedDown then none
  else if field m 0 4 ≠ typeDown then none
  else
    let fromLen := field m 4 8
    let toLen := field m 12 8
    let plLen := field m 20 8
    some
      { fromArea := ⟨fromLen, sizeofWrappedDown⟩
        toArea := ⟨toLen, sizeofWrappedDown + fromLen⟩
        pl := ⟨plLen, sizeofWrappedDown + fromLen + toLen⟩ }

/-! ### The encoded bytes -/

/-- A pointer with a length that stand for the given bytes. -/
def Area.Shows (area : Area) (memory bytes : List UInt8) : Prop :=
  area.len = bytes.length ∧ area.read memory = bytes

theorem length_malloc (size : ℕ) (contents : ℕ → UInt8) : (malloc size contents).length = size := by
  rw [malloc, List.length_map, List.length_range]

/-- A field that was written reads the number that was written. -/
theorem field_eq {memory : List UInt8} {offset width value : ℕ}
    (hbytes : slice memory offset (leBytes width value).length = leBytes width value)
    (hfits : value < 256 ^ width) : field memory offset width = value := by
  rw [length_leBytes] at hbytes
  rw [field, hbytes, leValue_leBytes width value hfits]

theorem data_allocateShmMessage (type : UInt32) (msgNr : UInt64) {encoded : List UInt8}
    (hsize : encoded.length < 2 ^ 32) : (allocateShmMessage type msgNr encoded).data = encoded := by
  change encoded.take (encoded.length % 2 ^ 32) = encoded
  rw [Nat.mod_eq_of_lt hsize, List.take_length]

section Up

variable (contents : ℕ → UInt8) (fullPkt fromBytes toBytes pl : List UInt8)

theorem fits_assignmentsUp : ∀ write ∈ assignmentsUp fullPkt fromBytes toBytes pl,
    write.1 + write.2.length ≤ (malloc (sizeofWrappedUp + fromBytes.length + toBytes.length +
      pl.length + fullPkt.length) contents).length := by
  rw [length_malloc]
  simp only [assignmentsUp, List.forall_mem_cons, length_leBytes, sizeofWrappedUp]
  refine ⟨by omega, by omega, by omega, by omega, by omega, by omega, by omega, by omega,
    by omega, ?_⟩
  exact fun write hmem ↦ absurd hmem List.not_mem_nil

theorem length_encodeUp : (encodeUp contents fullPkt fromBytes toBytes pl).length =
    sizeofWrappedUp + fromBytes.length + toBytes.length + pl.length + fullPkt.length :=
  (length_writeAll _ _ (fits_assignmentsUp contents fullPkt fromBytes toBytes pl)).trans
    (length_malloc _ _)

theorem holds_encodeUp : Holds (encodeUp contents fullPkt fromBytes toBytes pl)
    (assignmentsUp fullPkt fromBytes toBytes pl) := by
  refine holds_writeAll _ _ (fits_assignmentsUp contents fullPkt fromBytes toBytes pl) ?_
  simp [assignmentsUp, Apart, sizeofWrappedUp]
  omega

/-- The packed layout of `wrapped_up`, its parts behind it. -/
theorem encodeUp_eq : encodeUp contents fullPkt fromBytes toBytes pl =
    leBytes 4 typeUp ++ (leBytes 8 fullPkt.length ++ (leBytes 8 fromBytes.length ++
      (leBytes 8 toBytes.length ++ (leBytes 8 pl.length ++
        (fromBytes ++ (toBytes ++ (pl ++ (fullPkt ++ [])))))))) := by
  have hholds := holds_encodeUp contents fullPkt fromBytes toBytes pl
  have hlength := length_encodeUp contents fullPkt fromBytes toBytes pl
  simp only [Holds, assignmentsUp, List.forall_mem_cons] at hholds
  obtain ⟨htype, hfullPktLen, hfromLen, htoLen, hplLen, hfrom, hto, hpl, hfullPkt, -⟩ := hholds
  rw [← List.drop_zero (l := encodeUp contents fullPkt fromBytes toBytes pl)]
  refine drop_eq_append htype (drop_eq_append hfullPktLen (drop_eq_append hfromLen
    (drop_eq_append htoLen (drop_eq_append hplLen (drop_eq_append hfrom (drop_eq_append hto
      (drop_eq_append hpl (drop_eq_append hfullPkt ?_))))))))
  exact List.drop_eq_nil_of_le hlength.le

/-- Where unwrapping finds the parts. Assumes: a total that has sixty-four bits. -/
theorem unwrapMessageUp_areas
    (hsize : sizeofWrappedUp + fromBytes.length + toBytes.length + pl.length + fullPkt.length <
      2 ^ 64) :
    unwrapMessageUp (encodeUp contents fullPkt fromBytes toBytes pl) = some
      { fromArea := ⟨fromBytes.length, sizeofWrappedUp⟩
        toArea := ⟨toBytes.length, sizeofWrappedUp + fromBytes.length⟩
        pl := ⟨pl.length, sizeofWrappedUp + fromBytes.length + toBytes.length⟩
        fullPkt := ⟨fullPkt.length,
          sizeofWrappedUp + fromBytes.length + toBytes.length + pl.length⟩ } := by
  have hholds := holds_encodeUp contents fullPkt fromBytes toBytes pl
  have hlength := length_encodeUp contents fullPkt fromBytes toBytes pl
  simp only [Holds, assignmentsUp, List.forall_mem_cons] at hholds
  obtain ⟨htype, hfullPktLen, hfromLen, htoLen, hplLen, -⟩ := hholds
  generalize encodeUp contents fullPkt fromBytes toBytes pl = m at *
  have hcode : field m 0 4 = typeUp := field_eq htype (by decide)
  rw [unwrapMessageUp, if_neg (by omega), if_neg (not_not.mpr hcode)]
  simp only [field_eq hfullPktLen (by omega), field_eq hfromLen (by omega),
    field_eq htoLen (by omega), field_eq hplLen (by omega)]

/-- Unwrapping reads the lengths and the parts. Assumes: a total that has sixty-four bits. -/
theorem unwrapMessageUp_encodeUp
    (hsize : sizeofWrappedUp + fromBytes.length + toBytes.length + pl.length + fullPkt.length <
      2 ^ 64) :
    ∃ unwrapped,
      unwrapMessageUp (encodeUp contents fullPkt fromBytes toBytes pl) = some unwrapped ∧
      unwrapped.fullPkt.Shows (encodeUp contents fullPkt fromBytes toBytes pl) fullPkt ∧
      unwrapped.fromArea.Shows (encodeUp contents fullPkt fromBytes toBytes pl) fromBytes ∧
      unwrapped.toArea.Shows (encodeUp contents fullPkt fromBytes toBytes pl) toBytes ∧
      unwrapped.pl.Shows (encodeUp contents fullPkt fromBytes toBytes pl) pl := by
  have hholds := holds_encodeUp contents fullPkt fromBytes toBytes pl
  simp only [Holds, assignmentsUp, List.forall_mem_cons] at hholds
  obtain ⟨-, -, -, -, -, hfrom, hto, hpl, hfullPkt, -⟩ := hholds
  exact ⟨_, unwrapMessageUp_areas contents fullPkt fromBytes toBytes pl hsize, ⟨rfl, hfullPkt⟩,
    ⟨rfl, hfrom⟩, ⟨rfl, hto⟩, ⟨rfl, hpl⟩⟩

end Up

section UpTcp

variable (sessionId : UInt64) (fromBytes : List UInt8) (fromPort : UInt16) (toBytes : List UInt8)
  (toPort : UInt16) (flags : UInt32) (pl : List UInt8)

theorem fits_assignmentsUpTcp :
    ∀ write ∈ assignmentsUpTcp sessionId fromBytes fromPort toBytes toPort flags pl,
      write.1 + write.2.length ≤ (List.replicate (sizeofWrappedUpTcp + fromBytes.length +
        toBytes.length + pl.length) (0 : UInt8)).length := by
  rw [List.length_replicate]
  simp only [assignmentsUpTcp, List.forall_mem_cons, length_leBytes, sizeofWrappedUpTcp]
  refine ⟨by omega, by omega, by omega, by omega, by omega, by omega, by omega, by omega,
    by omega, by omega, by omega, ?_⟩
  exact fun write hmem ↦ absurd hmem List.not_mem_nil

theorem length_encodeUpTcp :
    (encodeUpTcp sessionId fromBytes fromPort toBytes toPort flags pl).length =
      sizeofWrappedUpTcp + fromBytes.length + toBytes.length + pl.length :=
  (length_writeAll _ _ (fits_assignmentsUpTcp sessionId fromBytes fromPort toBytes toPort flags
    pl)).trans List.length_replicate

theorem holds_encodeUpTcp :
    Holds (encodeUpTcp sessionId fromBytes fromPort toBytes toPort flags pl)
      (assignmentsUpTcp sessionId fromBytes fromPort toBytes toPort flags pl) := by
  refine holds_writeAll _ _
    (fits_assignmentsUpTcp sessionId fromBytes fromPort toBytes toPort flags pl) ?_
  simp [assignmentsUpTcp, Apart, sizeofWrappedUpTcp]
  omega

/-- The packed layout of `wrapped_up_tcp`, its parts behind it. -/
theorem encodeUpTcp_eq : encodeUpTcp sessionId fromBytes fromPort toBytes toPort flags pl =
    leBytes 4 typeUp ++ (leBytes 8 sessionId.toNat ++ (leBytes 8 fromBytes.length ++
      (leBytes 2 fromPort.toNat ++ (leBytes 8 toBytes.length ++ (leBytes 2 toPort.toNat ++
        (leBytes 4 flags.toNat ++ (leBytes 8 pl.length ++
          (fromBytes ++ (toBytes ++ (pl ++ [])))))))))) := by
  have hholds := holds_encodeUpTcp sessionId fromBytes fromPort toBytes toPort flags pl
  have hlength := length_encodeUpTcp sessionId fromBytes fromPort toBytes toPort flags pl
  simp only [Holds, assignmentsUpTcp, List.forall_mem_cons] at hholds
  obtain ⟨htype, hfromLen, hfromPort, htoLen, htoPort, hflags, hplLen, hsessionId, hfrom, hto, hpl,
    -⟩ := hholds
  rw [← List.drop_zero (l := encodeUpTcp sessionId fromBytes fromPort toBytes toPort flags pl)]
  refine drop_eq_append htype (drop_eq_append hsessionId (drop_eq_append hfromLen
    (drop_eq_append hfromPort (drop_eq_append htoLen (drop_eq_append htoPort (drop_eq_append hflags
      (drop_eq_append hplLen (drop_eq_append hfrom (drop_eq_append hto
        (drop_eq_append hpl ?_))))))))))
  exact List.drop_eq_nil_of_le hlength.le

/-- Unwrapping reads the fields and the parts. Assumes: a total that has sixty-four bits. -/
theorem unwrapMessageUpTcp_encodeUpTcp
    (hsize : sizeofWrappedUpTcp + fromBytes.length + toBytes.length + pl.length < 2 ^ 64) :
    ∃ unwrapped,
      unwrapMessageUpTcp (encodeUpTcp sessionId fromBytes fromPort toBytes toPort flags pl) =
        some unwrapped ∧
      unwrapped.sessionId = sessionId ∧ unwrapped.fromPort = fromPort ∧
      unwrapped.toPort = toPort ∧ unwrapped.flags = flags ∧
      unwrapped.fromArea.Shows
        (encodeUpTcp sessionId fromBytes fromPort toBytes toPort flags pl) fromBytes ∧
      unwrapped.toArea.Shows
        (encodeUpTcp sessionId fromBytes fromPort toBytes toPort flags pl) toBytes ∧
      unwrapped.pl.Shows
        (encodeUpTcp sessionId fromBytes fromPort toBytes toPort flags pl) pl := by
  have hholds := holds_encodeUpTcp sessionId fromBytes fromPort toBytes toPort flags pl
  have hlength := length_encodeUpTcp sessionId fromBytes fromPort toBytes toPort flags pl
  simp only [Holds, assignmentsUpTcp, List.forall_mem_cons] at hholds
  obtain ⟨htype, hfromLen, hfromPort, htoLen, htoPort, hflags, hplLen, hsessionId, hfrom, hto, hpl,
    -⟩ := hholds
  generalize encodeUpTcp sessionId fromBytes fromPort toBytes toPort flags pl = m at *
  have hcode : field m 0 4 = typeUp := field_eq htype (by decide)
  rw [unwrapMessageUpTcp, if_neg (by omega), if_neg (not_not.mpr hcode)]
  refine ⟨_, rfl, ?_⟩
  simp only [Area.Shows, Area.read, field_eq hfromLen (by omega), field_eq htoLen (by omega),
    field_eq hplLen (by omega), field_eq hsessionId sessionId.toNat_lt,
    field_eq hfromPort fromPort.toNat_lt, field_eq htoPort toPort.toNat_lt,
    field_eq hflags flags.toNat_lt, UInt64.ofNat_toNat, UInt32.ofNat_toNat, UInt16.ofNat_toNat,
    true_and]
  exact ⟨hfrom, hto, hpl⟩

end UpTcp

section Down

variable (contents : ℕ → UInt8) (fromBytes toBytes pl : List UInt8)

theorem fits_assignmentsDown : ∀ write ∈ assignmentsDown fromBytes toBytes pl,
    write.1 + write.2.length ≤ (malloc (sizeofWrappedDown + fromBytes.length + toBytes.length +
      pl.length) contents).length := by
  rw [length_malloc]
  simp only [assignmentsDown, List.forall_mem_cons, length_leBytes, sizeofWrappedDown]
  refine ⟨by omega, by omega, by omega, by omega, by omega, by omega, by omega, ?_⟩
  exact fun write hmem ↦ absurd hmem List.not_mem_nil

theorem length_encodeDown : (encodeDown contents fromBytes toBytes pl).length =
    sizeofWrappedDown + fromBytes.length + toBytes.length + pl.length :=
  (length_writeAll _ _ (fits_assignmentsDown contents fromBytes toBytes pl)).trans
    (length_malloc _ _)

theorem holds_encodeDown : Holds (encodeDown contents fromBytes toBytes pl)
    (assignmentsDown fromBytes toBytes pl) := by
  refine holds_writeAll _ _ (fits_assignmentsDown contents fromBytes toBytes pl) ?_
  simp [assignmentsDown, Apart, sizeofWrappedDown]
  omega

/-- The packed layout of `wrapped_down`, its parts behind it. -/
theorem encodeDown_eq : encodeDown contents fromBytes toBytes pl =
    leBytes 4 typeDown ++ (leBytes 8 fromBytes.length ++ (leBytes 8 toBytes.length ++
      (leBytes 8 pl.length ++ (fromBytes ++ (toBytes ++ (pl ++ [])))))) := by
  have hholds := holds_encodeDown contents fromBytes toBytes pl
  have hlength := length_encodeDown contents fromBytes toBytes pl
  simp only [Holds, assignmentsDown, List.forall_mem_cons] at hholds
  obtain ⟨htype, hfromLen, htoLen, hplLen, hfrom, hto, hpl, -⟩ := hholds
  rw [← List.drop_zero (l := encodeDown contents fromBytes toBytes pl)]
  refine drop_eq_append htype (drop_eq_append hfromLen (drop_eq_append htoLen
    (drop_eq_append hplLen (drop_eq_append hfrom (drop_eq_append hto (drop_eq_append hpl ?_))))))
  exact List.drop_eq_nil_of_le hlength.le

/-- Unwrapping reads the lengths and the parts. Assumes: a total that has sixty-four bits. -/
theorem unwrapMessageDown_encodeDown
    (hsize : sizeofWrappedDown + fromBytes.length + toBytes.length + pl.length < 2 ^ 64) :
    ∃ unwrapped,
      unwrapMessageDown (encodeDown contents fromBytes toBytes pl) = some unwrapped ∧
      unwrapped.fromArea.Shows (encodeDown contents fromBytes toBytes pl) fromBytes ∧
      unwrapped.toArea.Shows (encodeDown contents fromBytes toBytes pl) toBytes ∧
      unwrapped.pl.Shows (encodeDown contents fromBytes toBytes pl) pl := by
  have hholds := holds_encodeDown contents fromBytes toBytes pl
  have hlength := length_encodeDown contents fromBytes toBytes pl
  simp only [Holds, assignmentsDown, List.forall_mem_cons] at hholds
  obtain ⟨htype, hfromLen, htoLen, hplLen, hfrom, hto, hpl, -⟩ := hholds
  generalize encodeDown contents fromBytes toBytes pl = m at *
  have hcode : field m 0 4 = typeDown := field_eq htype (by decide)
  rw [unwrapMessageDown, if_neg (by omega), if_neg (not_not.mpr hcode)]
  refine ⟨_, rfl, ?_⟩
  simp only [Area.Shows, Area.read, field_eq hfromLen (by omega), field_eq htoLen (by omega),
    field_eq hplLen (by omega), true_and]
  exact ⟨hfrom, hto, hpl⟩

end Down

/-! ### The messages -/

/-- The header of a message that answers the message `replyTo`, or none. -/
def Message.Addressed (m : Message) (replyTo : Option UInt64) : Prop :=
  (∀ n, replyTo = some n → m.type = MsgType.msgReply.code ∧ m.msgNr = n) ∧
    (replyTo = none → m.type = MsgType.msgNew.code)

theorem addressed_allocateShmMessage (replyTo : Option UInt64) (encoded : List UInt8) :
    (allocateShmMessage (addressed replyTo).1 (addressed replyTo).2 encoded).Addressed replyTo := by
  constructor
  · rintro n rfl
    exact ⟨rfl, rfl⟩
  · rintro rfl
    rfl

/-- What the receiver of a message on its way down reads. Assumes: a total that fits the field
`size`. -/
theorem wrapMessageDown_shows (contents : ℕ → UInt8) (fromBytes toBytes pl : List UInt8)
    (replyTo : Option UInt64)
    (hsize : sizeofWrappedDown + fromBytes.length + toBytes.length + pl.length < 2 ^ 32) :
    ∃ unwrapped,
      unwrapMessageDown (wrapMessageDown contents fromBytes toBytes pl replyTo).data =
        some unwrapped ∧
      unwrapped.fromArea.Shows (wrapMessageDown contents fromBytes toBytes pl replyTo).data
        fromBytes ∧
      unwrapped.toArea.Shows (wrapMessageDown contents fromBytes toBytes pl replyTo).data toBytes ∧
      unwrapped.pl.Shows (wrapMessageDown contents fromBytes toBytes pl replyTo).data pl := by
  have hlength := length_encodeDown contents fromBytes toBytes pl
  rw [wrapMessageDown, data_allocateShmMessage _ _ (hlength.trans_lt hsize)]
  exact unwrapMessageDown_encodeDown contents fromBytes toBytes pl (by omega)

/-- Unwrapping undoes wrapping, for the three formats: each message has the packed bytes of its
struct with the parts behind it, and unwrapping it returns the fields, and a length and a pointer
for each part. A message with an answered number is a reply to it, one without is a new message.
Assumes: for each format, a total that fits the field `size`. -/
theorem unwrap_wrap (contents : ℕ → UInt8) (fullPkt fromBytes toBytes pl : List UInt8)
    (sessionId : UInt64) (fromPort toPort : UInt16) (flags : UInt32) (replyTo : Option UInt64) :
    (sizeofWrappedUp + fromBytes.length + toBytes.length + pl.length + fullPkt.length < 2 ^ 32 →
      let m := wrapMessageUp contents fullPkt fromBytes toBytes pl replyTo
      m.data = leBytes 4 typeUp ++ (leBytes 8 fullPkt.length ++ (leBytes 8 fromBytes.length ++
        (leBytes 8 toBytes.length ++ (leBytes 8 pl.length ++
          (fromBytes ++ (toBytes ++ (pl ++ (fullPkt ++ [])))))))) ∧
      (∃ unwrapped, unwrapMessageUp m.data = some unwrapped ∧
        unwrapped.fullPkt.Shows m.data fullPkt ∧ unwrapped.fromArea.Shows m.data fromBytes ∧
        unwrapped.toArea.Shows m.data toBytes ∧ unwrapped.pl.Shows m.data pl) ∧
      m.Addressed replyTo) ∧
    (sizeofWrappedUpTcp + fromBytes.length + toBytes.length + pl.length < 2 ^ 32 →
      let m := wrapMessageUpTcp sessionId fromBytes fromPort toBytes toPort flags pl
      m.data = leBytes 4 typeUp ++ (leBytes 8 sessionId.toNat ++ (leBytes 8 fromBytes.length ++
        (leBytes 2 fromPort.toNat ++ (leBytes 8 toBytes.length ++ (leBytes 2 toPort.toNat ++
          (leBytes 4 flags.toNat ++ (leBytes 8 pl.length ++
            (fromBytes ++ (toBytes ++ (pl ++ [])))))))))) ∧
      ∃ unwrapped, unwrapMessageUpTcp m.data = some unwrapped ∧
        unwrapped.sessionId = sessionId ∧ unwrapped.fromPort = fromPort ∧
        unwrapped.toPort = toPort ∧ unwrapped.flags = flags ∧
        unwrapped.fromArea.Shows m.data fromBytes ∧ unwrapped.toArea.Shows m.data toBytes ∧
        unwrapped.pl.Shows m.data pl) ∧
    (sizeofWrappedDown + fromBytes.length + toBytes.length + pl.length < 2 ^ 32 →
      let m := wrapMessageDown contents fromBytes toBytes pl replyTo
      m.data = leBytes 4 typeDown ++ (leBytes 8 fromBytes.length ++ (leBytes 8 toBytes.length ++
        (leBytes 8 pl.length ++ (fromBytes ++ (toBytes ++ (pl ++ [])))))) ∧
      (∃ unwrapped, unwrapMessageDown m.data = some unwrapped ∧
        unwrapped.fromArea.Shows m.data fromBytes ∧ unwrapped.toArea.Shows m.data toBytes ∧
        unwrapped.pl.Shows m.data pl) ∧
      m.Addressed replyTo) := by
  refine ⟨fun hsize ↦ ?_, fun hsize ↦ ?_, fun hsize ↦ ?_⟩
  · have hlength := length_encodeUp contents fullPkt fromBytes toBytes pl
    dsimp only [wrapMessageUp]
    rw [data_allocateShmMessage _ _ (hlength.trans_lt hsize)]
    refine ⟨encodeUp_eq contents fullPkt fromBytes toBytes pl, ?_,
      addressed_allocateShmMessage replyTo _⟩
    exact unwrapMessageUp_encodeUp contents fullPkt fromBytes toBytes pl (by omega)
  · have hlength := length_encodeUpTcp sessionId fromBytes fromPort toBytes toPort flags pl
    dsimp only [wrapMessageUpTcp]
    rw [data_allocateShmMessage _ _ (hlength.trans_lt hsize)]
    refine ⟨encodeUpTcp_eq sessionId fromBytes fromPort toBytes toPort flags pl, ?_⟩
    exact unwrapMessageUpTcp_encodeUpTcp sessionId fromBytes fromPort toBytes toPort flags pl
      (by omega)
  · have hlength := length_encodeDown contents fromBytes toBytes pl
    refine ⟨?_, wrapMessageDown_shows contents fromBytes toBytes pl replyTo hsize,
      addressed_allocateShmMessage replyTo _⟩
    rw [wrapMessageDown, data_allocateShmMessage _ _ (hlength.trans_lt hsize)]
    exact encodeDown_eq contents fromBytes toBytes pl

/-- A packet with addresses of four bytes, wrapped as the answer to the message `7`. -/
theorem unwrap_wrap_reply :
    (wrapMessageUp (fun _ ↦ 0xaa) [1, 2, 3] [10, 0, 0, 1] [10, 0, 0, 2] [3] (some 7)).Addressed
        (some 7) ∧
      (∃ unwrapped, unwrapMessageUpTcp (wrapMessageUpTcp 5 [10, 0, 0, 1] 80 [10, 0, 0, 2] 1025 2
        [3]).data = some unwrapped ∧ unwrapped.toPort = 1025) := by
  obtain ⟨hup, htcp, -⟩ := unwrap_wrap (fun _ ↦ 0xaa) [1, 2, 3] [10, 0, 0, 1] [10, 0, 0, 2] [3] 5 80
    1025 2 (some 7)
  refine ⟨(hup (by decide)).2.2, ?_⟩
  obtain ⟨-, unwrapped, hunwrap, -, -, hport, -⟩ := htcp (by decide)
  exact ⟨unwrapped, hunwrap, hport⟩

end MyIPNG.Shm
