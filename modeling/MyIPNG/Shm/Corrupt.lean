import MyIPNG.Base.Reading
import MyIPNG.Shm.Wrapping

/-!
# Corrupt messages between the servers

`unwrap_message_up`, `unwrap_message_up_tcp` and `unwrap_message_down` on any message. The functions
take the struct from the memory that the message starts, whether the message is long enough for it
or not, so they are written here over a memory that goes on behind the message. Lengths and indices
are of type `size_t` and wrap around, and so do the pointers that are made from them.

None of the functions has a way to refuse a message: a wrong type fails an assertion, and every
other message is taken. The pointers that they return stay inside of the message exactly when the
struct and the lengths in it, added up as numbers, do (`areasFrom_inside_iff`): the first pointer
that leaves the message does so before a sum has wrapped around. Then they are the pointers of
`unwrapMessageUp` and its siblings (`unwrapMessageUpIn_eq`).
-/

set_option autoImplicit false
set_option relaxedAutoImplicit false

namespace MyIPNG.Shm

open Base

/-! ### The functions over memory -/

/-- What an unwrapping function does: it returns false, an assertion fails, or it returns true with
what it has read. -/
inductive Unwrapped (α : Type)
  | refused
  | assertionFailed
  | returned (value : α)
deriving DecidableEq, Repr

/-- An unsigned field of a packed struct that memory starts with. -/
def fieldIn (memory : ℕ → UInt8) (offset width : ℕ) : ℕ :=
  leValue ((List.range' offset width).map memory)

/-- `&p->data[index]`, as an offset of the message. -/
def dataPointer (sizeofStruct index : ℕ) : ℕ := sizeAdd sizeofStruct index

/-- `unwrap_message_up` of the message that memory starts with. -/
def unwrapMessageUpIn (memory : ℕ → UInt8) : Unwrapped UnwrappedUp :=
  if fieldIn memory 0 4 ≠ typeUp then .assertionFailed
  else
    let fromLen := fieldIn memory 12 8
    let toLen := fieldIn memory 20 8
    let plLen := fieldIn memory 28 8
    let fullPktLen := fieldIn memory 4 8
    .returned
      { fromArea := ⟨fromLen, dataPointer sizeofWrappedUp 0⟩
        toArea := ⟨toLen, dataPointer sizeofWrappedUp fromLen⟩
        pl := ⟨plLen, dataPointer sizeofWrappedUp (sizeAdd fromLen toLen)⟩
        fullPkt :=
          ⟨fullPktLen, dataPointer sizeofWrappedUp (sizeAdd (sizeAdd fromLen toLen) plLen)⟩ }

/-- `unwrap_message_up_tcp` of the message that memory starts with. -/
def unwrapMessageUpTcpIn (memory : ℕ → UInt8) : Unwrapped UnwrappedUpTcp :=
  if fieldIn memory 0 4 ≠ typeUp then .assertionFailed
  else
    let fromLen := fieldIn memory 12 8
    let toLen := fieldIn memory 22 8
    let plLen := fieldIn memory 36 8
    .returned
      { sessionId := UInt64.ofNat (fieldIn memory 4 8)
        fromArea := ⟨fromLen, dataPointer sizeofWrappedUpTcp 0⟩
        fromPort := UInt16.ofNat (fieldIn memory 20 2)
        toArea := ⟨toLen, dataPointer sizeofWrappedUpTcp fromLen⟩
        toPort := UInt16.ofNat (fieldIn memory 30 2)
        flags := UInt32.ofNat (fieldIn memory 32 4)
        pl := ⟨plLen, dataPointer sizeofWrappedUpTcp (sizeAdd fromLen toLen)⟩ }

/-- `unwrap_message_down` of the message that memory starts with. -/
def unwrapMessageDownIn (memory : ℕ → UInt8) : Unwrapped UnwrappedDown :=
  if fieldIn memory 0 4 ≠ typeDown then .assertionFailed
  else
    let fromLen := fieldIn memory 4 8
    let toLen := fieldIn memory 12 8
    let plLen := fieldIn memory 20 8
    .returned
      { fromArea := ⟨fromLen, dataPointer sizeofWrappedDown 0⟩
        toArea := ⟨toLen, dataPointer sizeofWrappedDown fromLen⟩
        pl := ⟨plLen, dataPointer sizeofWrappedDown (sizeAdd fromLen toLen)⟩ }

/-! ### What they should do -/

/-- The pointers of an unwrapped message, with their lengths. -/
def UnwrappedUp.areas (unwrapped : UnwrappedUp) : List Area :=
  [unwrapped.fromArea, unwrapped.toArea, unwrapped.pl, unwrapped.fullPkt]

@[inherit_doc UnwrappedUp.areas]
def UnwrappedUpTcp.areas (unwrapped : UnwrappedUpTcp) : List Area :=
  [unwrapped.fromArea, unwrapped.toArea, unwrapped.pl]

@[inherit_doc UnwrappedUp.areas]
def UnwrappedDown.areas (unwrapped : UnwrappedDown) : List Area :=
  [unwrapped.fromArea, unwrapped.toArea, unwrapped.pl]

/-- The function returns false, or what it returns lies inside of a message of the given size. -/
def Unwrapped.RefusesOrInside {α : Type} (areas : α → List Area) (size : ℕ) : Unwrapped α → Prop
  | .refused => True
  | .assertionFailed => False
  | .returned value => ∀ area ∈ areas value, area.start + area.len ≤ size

/-- A message with the type of its struct and room for the struct and for the parts whose lengths
stand at the given offsets. -/
def HasRoom (type sizeofStruct : ℕ) (lengths : List ℕ) (m : List UInt8) : Prop :=
  sizeofStruct ≤ m.length ∧ field m 0 4 = type ∧
    sizeofStruct + (lengths.map fun offset ↦ field m offset 8).sum ≤ m.length

/-! ### Pointers one behind the other -/

/-- The pointers to parts that follow each other from an index on. -/
def areasFrom (sizeofStruct : ℕ) : ℕ → List ℕ → List Area
  | _, [] => []
  | index, len :: rest =>
    ⟨len, dataPointer sizeofStruct index⟩ :: areasFrom sizeofStruct (sizeAdd index len) rest

theorem sizeAdd_of_lt {a b : ℕ} (h : a + b < 2 ^ 64) : sizeAdd a b = a + b := Nat.mod_eq_of_lt h

/-- The parts from an index inside of the message on are inside when their lengths add up to no more
than what is left. Assumes: a message of fewer than `2 ^ 64` bytes. -/
theorem areasFrom_inside_iff {sizeofStruct size index : ℕ} (hsize : size < 2 ^ 64)
    (hindex : sizeofStruct + index ≤ size) (lens : List ℕ) :
    (∀ area ∈ areasFrom sizeofStruct index lens, area.start + area.len ≤ size) ↔
      sizeofStruct + index + lens.sum ≤ size := by
  induction lens generalizing index with
  | nil => simpa [areasFrom] using hindex
  | cons len rest ih =>
    have hstart : dataPointer sizeofStruct index = sizeofStruct + index :=
      sizeAdd_of_lt (hindex.trans_lt hsize)
    rw [areasFrom, List.forall_mem_cons, hstart, List.sum_cons]
    by_cases hfits : sizeofStruct + index + len ≤ size
    · -- the index of the next part has not wrapped around
      have hnext : sizeAdd index len = index + len := sizeAdd_of_lt (by omega)
      rw [and_iff_right hfits, hnext, ih (by omega)]
      constructor
      · intro h
        omega
      · intro h
        omega
    · refine iff_of_false (fun h ↦ hfits h.1) ?_
      omega

/-- The parts behind a struct. -/
theorem areasFrom_zero_inside_iff {sizeofStruct size : ℕ} (hstruct : sizeofStruct < 2 ^ 64)
    (hsize : size < 2 ^ 64) (len : ℕ) (rest : List ℕ) :
    (∀ area ∈ areasFrom sizeofStruct 0 (len :: rest), area.start + area.len ≤ size) ↔
      sizeofStruct + (len :: rest).sum ≤ size := by
  by_cases hlong : sizeofStruct ≤ size
  · exact areasFrom_inside_iff hsize hlong (len :: rest)
  · refine iff_of_false (fun h ↦ hlong ?_) (by omega)
    have hfirst := h _ List.mem_cons_self
    rw [dataPointer, sizeAdd_of_lt hstruct] at hfirst
    dsimp only at hfirst
    omega

/-! ### The three functions -/

/-- A field inside of the message is read from the message. -/
theorem fieldIn_memoryOf {m : List UInt8} {offset width : ℕ} (h : offset + width ≤ m.length)
    (behind : ℕ → UInt8) :
    fieldIn (Reading.memoryOf m behind) offset width = field m offset width :=
  congrArg leValue (Reading.value_block_memoryOf h behind)

theorem fieldIn_lt (memory : ℕ → UInt8) (offset : ℕ) : fieldIn memory offset 8 < 2 ^ 64 := by
  have hlt := leValue_lt ((List.range' offset 8).map memory)
  rw [List.length_map, List.length_range'] at hlt
  exact hlt

theorem sizeAdd_zero_fieldIn (memory : ℕ → UInt8) (offset : ℕ) :
    sizeAdd 0 (fieldIn memory offset 8) = fieldIn memory offset 8 := by
  rw [sizeAdd_of_lt (by rw [Nat.zero_add]; exact fieldIn_lt memory offset), Nat.zero_add]

/-- An unwrapping function that tests the type and returns the parts whose lengths stand at the
given offsets of the struct. -/
theorem refusesOrInside_iff {α : Type} {areas : α → List Area} {value : α}
    {type sizeofStruct offset : ℕ} {offsets : List ℕ} (hstruct : sizeofStruct < 2 ^ 64)
    (htype : 4 ≤ sizeofStruct)
    (hoffsets : ∀ position ∈ offset :: offsets, position + 8 ≤ sizeofStruct)
    {m : List UInt8} (hsize : m.length < 2 ^ 64) (behind : ℕ → UInt8)
    (hareas : areas value = areasFrom sizeofStruct 0
      ((offset :: offsets).map fun position ↦ fieldIn (Reading.memoryOf m behind) position 8)) :
    (if fieldIn (Reading.memoryOf m behind) 0 4 ≠ type then Unwrapped.assertionFailed
      else .returned value).RefusesOrInside areas m.length ↔
      HasRoom type sizeofStruct (offset :: offsets) m := by
  have hinside := areasFrom_zero_inside_iff hstruct hsize
    (fieldIn (Reading.memoryOf m behind) offset 8)
    (offsets.map fun position ↦ fieldIn (Reading.memoryOf m behind) position 8)
  rw [← List.map_cons (f := fun position ↦ fieldIn (Reading.memoryOf m behind) position 8),
    ← hareas] at hinside
  by_cases hlong : sizeofStruct ≤ m.length
  · have hfields : (offset :: offsets).map
          (fun position ↦ fieldIn (Reading.memoryOf m behind) position 8) =
        (offset :: offsets).map fun position ↦ field m position 8 :=
      List.map_congr_left fun position hposition ↦
        fieldIn_memoryOf ((hoffsets position hposition).trans hlong) behind
    rw [fieldIn_memoryOf (htype.trans hlong), HasRoom, and_iff_right hlong, ← hfields]
    split_ifs with hwrong
    · exact iff_of_false id fun h ↦ hwrong h.1
    · rw [and_iff_right (not_not.mp hwrong)]
      exact hinside
  · refine iff_of_false ?_ fun h ↦ hlong h.1
    split_ifs with hwrong
    · exact id
    · intro hareasInside
      have hsum := hinside.mp hareasInside
      omega

/-- The fields of a struct that the message has room for. -/
theorem HasRoom.fieldIn_eq {type sizeofStruct : ℕ} {lengths : List ℕ} {m : List UInt8}
    (h : HasRoom type sizeofStruct lengths m) (behind : ℕ → UInt8) (offset width : ℕ)
    (hoffset : offset + width ≤ sizeofStruct) :
    fieldIn (Reading.memoryOf m behind) offset width = field m offset width :=
  fieldIn_memoryOf (hoffset.trans h.1) behind

section HasRoom

variable {m : List UInt8} (hsize : m.length < 2 ^ 64) (behind : ℕ → UInt8)

include hsize

/-- With room for everything `unwrap_message_up` returns the pointers of `unwrapMessageUp`. -/
theorem unwrapMessageUpIn_eq (h : HasRoom typeUp sizeofWrappedUp [12, 20, 28, 4] m) :
    ∃ unwrapped, unwrapMessageUp m = some unwrapped ∧
      unwrapMessageUpIn (Reading.memoryOf m behind) = .returned unwrapped := by
  have hfield := h.fieldIn_eq behind
  obtain ⟨hlong, htype, hroom⟩ := h
  simp only [List.map_cons, List.map_nil, List.sum_cons, List.sum_nil, sizeofWrappedUp] at hroom
  refine ⟨_, by rw [unwrapMessageUp, if_neg (not_lt.mpr hlong), if_neg (not_not.mpr htype)], ?_⟩
  rw [unwrapMessageUpIn, hfield 0 4 (by decide), if_neg (not_not.mpr htype),
    hfield 12 8 (by decide), hfield 20 8 (by decide), hfield 28 8 (by decide),
    hfield 4 8 (by decide)]
  simp only [dataPointer, sizeofWrappedUp]
  rw [sizeAdd_of_lt (by omega : field m 12 8 + field m 20 8 < 2 ^ 64),
    sizeAdd_of_lt (by omega : field m 12 8 + field m 20 8 + field m 28 8 < 2 ^ 64),
    sizeAdd_of_lt (by omega), sizeAdd_of_lt (by omega), sizeAdd_of_lt (by omega),
    sizeAdd_of_lt (by omega)]
  simp only [Nat.add_zero, Nat.add_assoc]

/-- With room for everything `unwrap_message_up_tcp` returns the pointers of
`unwrapMessageUpTcp`. -/
theorem unwrapMessageUpTcpIn_eq (h : HasRoom typeUp sizeofWrappedUpTcp [12, 22, 36] m) :
    ∃ unwrapped, unwrapMessageUpTcp m = some unwrapped ∧
      unwrapMessageUpTcpIn (Reading.memoryOf m behind) = .returned unwrapped := by
  have hfield := h.fieldIn_eq behind
  obtain ⟨hlong, htype, hroom⟩ := h
  simp only [List.map_cons, List.map_nil, List.sum_cons, List.sum_nil,
    sizeofWrappedUpTcp] at hroom
  refine ⟨_, by rw [unwrapMessageUpTcp, if_neg (not_lt.mpr hlong), if_neg (not_not.mpr htype)],
    ?_⟩
  rw [unwrapMessageUpTcpIn, hfield 0 4 (by decide), if_neg (not_not.mpr htype),
    hfield 12 8 (by decide), hfield 22 8 (by decide), hfield 36 8 (by decide),
    hfield 4 8 (by decide), hfield 20 2 (by decide), hfield 30 2 (by decide),
    hfield 32 4 (by decide)]
  simp only [dataPointer, sizeofWrappedUpTcp]
  rw [sizeAdd_of_lt (by omega : field m 12 8 + field m 22 8 < 2 ^ 64),
    sizeAdd_of_lt (by omega), sizeAdd_of_lt (by omega), sizeAdd_of_lt (by omega)]
  simp only [Nat.add_zero, Nat.add_assoc]

/-- With room for everything `unwrap_message_down` returns the pointers of `unwrapMessageDown`. -/
theorem unwrapMessageDownIn_eq (h : HasRoom typeDown sizeofWrappedDown [4, 12, 20] m) :
    ∃ unwrapped, unwrapMessageDown m = some unwrapped ∧
      unwrapMessageDownIn (Reading.memoryOf m behind) = .returned unwrapped := by
  have hfield := h.fieldIn_eq behind
  obtain ⟨hlong, htype, hroom⟩ := h
  simp only [List.map_cons, List.map_nil, List.sum_cons, List.sum_nil,
    sizeofWrappedDown] at hroom
  refine ⟨_, by rw [unwrapMessageDown, if_neg (not_lt.mpr hlong), if_neg (not_not.mpr htype)], ?_⟩
  rw [unwrapMessageDownIn, hfield 0 4 (by decide), if_neg (not_not.mpr htype),
    hfield 4 8 (by decide), hfield 12 8 (by decide), hfield 20 8 (by decide)]
  simp only [dataPointer, sizeofWrappedDown]
  rw [sizeAdd_of_lt (by omega : field m 4 8 + field m 12 8 < 2 ^ 64),
    sizeAdd_of_lt (by omega), sizeAdd_of_lt (by omega), sizeAdd_of_lt (by omega)]
  simp only [Nat.add_zero, Nat.add_assoc]

end HasRoom

section Inside

variable (m : Message) (behind : ℕ → UInt8)

theorem size_lt_two_pow_64 : m.data.length < 2 ^ 64 := m.size_lt.trans (by decide)

theorem unwrapMessageUpIn_inside_iff :
    (unwrapMessageUpIn (Reading.memoryOf m.data behind)).RefusesOrInside UnwrappedUp.areas m.size ↔
      HasRoom typeUp sizeofWrappedUp [12, 20, 28, 4] m.data := by
  refine refusesOrInside_iff (by decide) (by decide) (by decide) (size_lt_two_pow_64 m) behind ?_
  simp only [UnwrappedUp.areas, List.map_cons, List.map_nil, areasFrom, sizeAdd_zero_fieldIn]

theorem unwrapMessageUpTcpIn_inside_iff :
    (unwrapMessageUpTcpIn (Reading.memoryOf m.data behind)).RefusesOrInside
        UnwrappedUpTcp.areas m.size ↔
      HasRoom typeUp sizeofWrappedUpTcp [12, 22, 36] m.data := by
  refine refusesOrInside_iff (by decide) (by decide) (by decide) (size_lt_two_pow_64 m) behind ?_
  simp only [UnwrappedUpTcp.areas, List.map_cons, List.map_nil, areasFrom, sizeAdd_zero_fieldIn]

theorem unwrapMessageDownIn_inside_iff :
    (unwrapMessageDownIn (Reading.memoryOf m.data behind)).RefusesOrInside
        UnwrappedDown.areas m.size ↔
      HasRoom typeDown sizeofWrappedDown [4, 12, 20] m.data := by
  refine refusesOrInside_iff (by decide) (by decide) (by decide) (size_lt_two_pow_64 m) behind ?_
  simp only [UnwrappedDown.areas, List.map_cons, List.map_nil, areasFrom, sizeAdd_zero_fieldIn]

/-- Each of the three functions refuses a message or returns pointers that lie inside of it, exactly
when the message has the type of the struct and room for the struct and for all of its parts. -/
theorem unwrapping_inside_iff :
    ((unwrapMessageUpIn (Reading.memoryOf m.data behind)).RefusesOrInside
          UnwrappedUp.areas m.size ↔
        HasRoom typeUp sizeofWrappedUp [12, 20, 28, 4] m.data) ∧
      ((unwrapMessageUpTcpIn (Reading.memoryOf m.data behind)).RefusesOrInside
          UnwrappedUpTcp.areas m.size ↔
        HasRoom typeUp sizeofWrappedUpTcp [12, 22, 36] m.data) ∧
      ((unwrapMessageDownIn (Reading.memoryOf m.data behind)).RefusesOrInside
          UnwrappedDown.areas m.size ↔
        HasRoom typeDown sizeofWrappedDown [4, 12, 20] m.data) :=
  ⟨unwrapMessageUpIn_inside_iff m behind, unwrapMessageUpTcpIn_inside_iff m behind,
    unwrapMessageDownIn_inside_iff m behind⟩

end Inside

/-- The struct of `wrapped_up` alone, with lengths whose sum wraps around to zero. -/
def sampleCorrupt : List UInt8 :=
  leBytes 4 typeUp ++ leBytes 8 0 ++ leBytes 8 (2 ^ 64 - 1) ++ leBytes 8 1 ++ leBytes 8 0

/-- The message is not refused, and its first pointer stands for bytes far behind its end. -/
theorem wrapping_lengths_are_taken :
    (allocateShmMessage 1 1 sampleCorrupt).size = 36 ∧ ∀ behind,
      ¬ (unwrapMessageUpIn (Reading.memoryOf
        (allocateShmMessage 1 1 sampleCorrupt).data behind)).RefusesOrInside
          UnwrappedUp.areas (allocateShmMessage 1 1 sampleCorrupt).size := by
  refine ⟨by decide +kernel, fun behind ↦ ?_⟩
  rw [unwrapMessageUpIn_inside_iff]
  exact fun hroom ↦ absurd hroom.2.2 (by decide +kernel)

end MyIPNG.Shm
