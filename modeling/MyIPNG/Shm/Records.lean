import MyIPNG.Shm.Queue

/-!
# The byte area as a list of records

A record is a message together with the bytes that pad it to a multiple of eight, which are
whatever the area held before. `Represents` says that the bytes in use are the records one after
the other. The header of a record can be read off its bytes, so a record ends where its header
says (`Record.bytes_append_inj`) and the bytes in use determine the records
(`flatMap_bytes_append_inj`).

`scan_eq_locate` is the correctness of the scan: it finds the first record that the filter admits,
at the position where the records in front of it end, and no assertion fails. `represents_append`
and `represents_remove` are the two changes of the area.
-/

set_option autoImplicit false
set_option relaxedAutoImplicit false

namespace MyIPNG.Shm

open Base

/-! ### Lengths -/

theorem and_seven (x : ℕ) : x &&& 7 = x % 8 := Nat.and_two_pow_sub_one_eq_mod x 3

theorem pad8_mod (x : ℕ) : pad8 x % 8 = 0 := by
  unfold pad8
  rw [and_seven]
  split_ifs <;> omega

theorem pad8_lt (x : ℕ) : pad8 x < x + 8 := by
  unfold pad8
  rw [and_seven]
  split_ifs <;> omega

/-- The number of bytes that a message takes in the area. -/
def Message.recordLength (m : Message) : ℕ := pad8 (sizeofMessage + m.size)

theorem Message.length_header (m : Message) : m.header.length = sizeofMessage := by
  simp only [header, List.length_append, length_leBytes, m.sender_length, maxIdLength,
    sizeofMessage]

theorem Message.length_bytes (m : Message) : m.bytes.length = sizeofMessage + m.size := by
  rw [bytes, List.length_append, m.length_header, size]

theorem Message.length_bytes_le (m : Message) : m.bytes.length ≤ m.recordLength := by
  rw [m.length_bytes]
  exact le_pad8 _

theorem Message.recordLength_lt (m : Message) : m.recordLength < 2 ^ 33 := by
  have hpad := pad8_lt (sizeofMessage + m.size)
  have hsize : m.size < 2 ^ 32 := m.size_lt
  rw [recordLength]
  simp only [sizeofMessage] at *
  omega

/-! ### Records -/

/-- A message with data and the bytes that pad it. -/
structure Record where
  message : Message
  padding : List UInt8
  size_pos : 0 < message.size
  padding_length : message.bytes.length + padding.length = message.recordLength

/-- The bytes of a record. -/
def Record.bytes (record : Record) : List UInt8 := record.message.bytes ++ record.padding

/-- The number of bytes of a record. -/
def Record.length (record : Record) : ℕ := record.message.recordLength

theorem Record.length_bytes (record : Record) : record.bytes.length = record.length := by
  rw [bytes, List.length_append, record.padding_length, length]

theorem Record.length_mod (record : Record) : record.length % 8 = 0 := pad8_mod _

theorem Record.sizeofMessage_le (record : Record) : sizeofMessage ≤ record.length := by
  have h := record.message.length_bytes_le
  rw [record.message.length_bytes] at h
  exact (Nat.le_add_right _ _).trans h

/-- The bytes of a record, with the fields that the scan reads set apart. -/
theorem Record.bytes_eq (record : Record) :
    record.bytes =
      (leBytes 8 record.message.id.toNat ++ leBytes 8 record.message.sentAt.toNat) ++
        (leBytes 4 record.message.size ++ (leBytes 4 record.message.type.toNat ++
          (leBytes 8 record.message.msgNr.toNat ++
            (record.message.sender ++ (record.message.data ++ record.padding))))) := by
  simp only [bytes, Message.bytes, Message.header, List.append_assoc]

/-- The header fields of a record as the scan reads them. Assumes: the record stands at the
position. -/
theorem Record.header_at (record : Record) {data : List UInt8} {cur count : ℕ}
    {rest : List UInt8} (h : slice data cur count = record.bytes ++ rest) :
    sizeAt data cur = record.message.size ∧ typeAt data cur = record.message.type ∧
      msgNrAt data cur = record.message.msgNr := by
  rw [record.bytes_eq] at h
  simp only [List.append_assoc] at h
  have hsize : slice data (cur + 16) 4 = leBytes 4 record.message.size := by
    rw [← List.append_assoc] at h
    simpa only [List.length_append, length_leBytes] using slice_piece h
  have htype : slice data (cur + 20) 4 = leBytes 4 record.message.type.toNat := by
    rw [← List.append_assoc, ← List.append_assoc] at h
    simpa only [List.length_append, length_leBytes] using slice_piece h
  have hnumber : slice data (cur + 24) 8 = leBytes 8 record.message.msgNr.toNat := by
    rw [← List.append_assoc, ← List.append_assoc, ← List.append_assoc] at h
    simpa only [List.length_append, length_leBytes] using slice_piece h
  have hsizeLt : record.message.size < 256 ^ 4 := record.message.size_lt
  refine ⟨?_, ?_, ?_⟩
  · rw [sizeAt, hsize, leValue_leBytes 4 _ hsizeLt]
  · rw [typeAt, htype, leValue_leBytes 4 _ record.message.type.toNat_lt, UInt32.ofNat_toNat]
  · rw [msgNrAt, hnumber, leValue_leBytes 8 _ record.message.msgNr.toNat_lt, UInt64.ofNat_toNat]

/-! ### The area -/

/-- The bytes in use of a segment are the given records, one after the other. The segment is one
that `begin()` can have set up. -/
structure Represents (shm : SharedMemory) (records : List Record) : Prop where
  data_length : shm.data.length = shm.totalSize
  totalSize_lt : shm.totalSize < 2 ^ 63
  filled_le : shm.filled ≤ shm.totalSize
  contents : shm.data.take shm.filled = records.flatMap Record.bytes

/-- The number of bytes of a list of records. -/
def recordsLength (records : List Record) : ℕ := (records.map Record.length).sum

@[simp] theorem recordsLength_nil : recordsLength [] = 0 := rfl

@[simp] theorem recordsLength_cons (record : Record) (records : List Record) :
    recordsLength (record :: records) = record.length + recordsLength records := by
  simp [recordsLength]

@[simp] theorem recordsLength_append (first second : List Record) :
    recordsLength (first ++ second) = recordsLength first + recordsLength second := by
  simp [recordsLength]

theorem length_flatMap_bytes (records : List Record) :
    (records.flatMap Record.bytes).length = recordsLength records := by
  induction records with
  | nil => rfl
  | cons record records ih =>
    rw [List.flatMap_cons, List.length_append, ih, record.length_bytes, recordsLength_cons]

theorem recordsLength_mod (records : List Record) : recordsLength records % 8 = 0 := by
  induction records with
  | nil => rfl
  | cons record records ih =>
    have hrecord := record.length_mod
    rw [recordsLength_cons]
    omega

/-- The number of bytes in use is the number of bytes of the records. -/
theorem Represents.filled_eq {shm : SharedMemory} {records : List Record}
    (h : Represents shm records) : shm.filled = recordsLength records := by
  rw [← length_flatMap_bytes, ← h.contents, List.length_take, h.data_length,
    min_eq_left h.filled_le]

/-- The records from a position on, when the records in front of it end there. -/
theorem Represents.slice_eq {shm : SharedMemory} {front back : List Record}
    (h : Represents shm (front ++ back)) :
    slice shm.data (recordsLength front) (recordsLength back) = back.flatMap Record.bytes := by
  have hcontents := h.contents
  rw [h.filled_eq, recordsLength_append, ← take_append_slice, List.flatMap_append] at hcontents
  have hlength : (shm.data.take (recordsLength front)).length =
      (front.flatMap Record.bytes).length := by
    have hfilled := h.filled_eq
    have hfits := h.filled_le
    rw [recordsLength_append] at hfilled
    rw [List.length_take, length_flatMap_bytes, h.data_length]
    omega
  exact (List.append_inj hcontents hlength).2

/-- The bytes of the record at a position. -/
theorem Represents.slice_record {shm : SharedMemory} {front back : List Record} {record : Record}
    (h : Represents shm (front ++ record :: back)) :
    slice shm.data (recordsLength front) record.length = record.bytes := by
  have hslice := h.slice_eq
  rw [List.flatMap_cons, ← List.nil_append (record.bytes ++ _)] at hslice
  simpa only [List.length_nil, Nat.add_zero, record.length_bytes] using slice_piece hslice

/-- The bytes of the records in front of a position. -/
theorem Represents.take_eq {shm : SharedMemory} {front back : List Record}
    (h : Represents shm (front ++ back)) :
    shm.data.take (recordsLength front) = front.flatMap Record.bytes := by
  have hcontents := h.contents
  have hlength : recordsLength front ≤ shm.filled := by
    rw [h.filled_eq, recordsLength_append]
    exact Nat.le_add_right _ _
  rw [← min_eq_left hlength, ← List.take_take, hcontents, List.flatMap_append,
    ← length_flatMap_bytes, List.take_left]

/-! ### The scan -/

/-- The first record that a filter admits, by its position and its length. -/
def locate (filter : Filter) : ℕ → List Record → ScanResult
  | _, [] => .notFound
  | cur, record :: rest =>
    if filter.admits record.message.type record.message.msgNr then .found cur record.length
    else locate filter (cur + record.length) rest

/-- The scan finds the first record that the filter admits, and none of its assertions fails.
Assumes: the bytes in use are the given records. -/
theorem scan_eq_locate (address : DataAddress) {shm : SharedMemory} (filter : Filter)
    (front back : List Record) (h : Represents shm (front ++ back)) :
    scan address shm filter (recordsLength front) =
      locate filter (recordsLength front) back := by
  induction back generalizing front with
  | nil =>
    have hfilled := h.filled_eq
    rw [List.append_nil] at hfilled
    rw [scan, hfilled, Nat.sub_self, if_neg (by simp [sizeofMessage]), locate]
  | cons record rest ih =>
    have hslice := h.slice_eq
    rw [List.flatMap_cons] at hslice
    obtain ⟨hsize, htype, hnumber⟩ := record.header_at hslice
    have hfilled := h.filled_eq
    rw [recordsLength_append, recordsLength_cons] at hfilled
    have hroom : sizeofMessage ≤ shm.filled - recordsLength front := by
      have hrecord := record.sizeofMessage_le
      omega
    have hpositive : ¬ record.message.size = 0 := Nat.pos_iff_ne_zero.mp record.size_pos
    have haligned := address.aligned
    have hfront := recordsLength_mod front
    have hrecordMod := record.length_mod
    have htotal : pad8 (sizeofMessage + record.message.size) = record.length := rfl
    have hnext := ih (front ++ [record]) (by simpa using h)
    simp only [recordsLength_append, recordsLength_cons, recordsLength_nil, Nat.add_zero] at hnext
    rw [scan, if_pos hroom, hsize, htype, hnumber, locate]
    simp only [htotal, if_neg hpositive]
    split_ifs with hadmits hshort hmis hodd hless hstep
    · omega
    · omega
    · omega
    · omega
    · rfl
    · omega
    · exact hnext

/-- Where the located record stands among the records. -/
theorem locate_eq_found {filter : Filter} {records : List Record} {cur position length : ℕ}
    (h : locate filter cur records = .found position length) :
    ∃ front record back, records = front ++ record :: back ∧
      (∀ other ∈ front, filter.admits other.message.type other.message.msgNr = false) ∧
      filter.admits record.message.type record.message.msgNr = true ∧
      position = cur + recordsLength front ∧ length = record.length := by
  induction records generalizing cur with
  | nil => simp [locate] at h
  | cons first rest ih =>
    rw [locate] at h
    split_ifs at h with hadmits
    · cases h
      exact ⟨[], first, rest, rfl, by simp, hadmits, rfl, rfl⟩
    · obtain ⟨front, record, back, hrest, hfront, hrecord, hposition, hlength⟩ := ih h
      refine ⟨first :: front, record, back, by rw [hrest, List.cons_append], ?_, hrecord, ?_,
        hlength⟩
      · intro other hother
        rcases List.mem_cons.mp hother with rfl | hother
        · simpa using hadmits
        · exact hfront other hother
      · rw [hposition, recordsLength_cons, Nat.add_assoc]

theorem locate_ne_assertionFailed (filter : Filter) (cur : ℕ) (records : List Record) :
    locate filter cur records ≠ .assertionFailed := by
  induction records generalizing cur with
  | nil => simp [locate]
  | cons record rest ih =>
    rw [locate]
    split_ifs
    · simp
    · exact ih _

theorem locate_eq_notFound {filter : Filter} {records : List Record} {cur : ℕ}
    (h : locate filter cur records = .notFound) :
    ∀ record ∈ records, filter.admits record.message.type record.message.msgNr = false := by
  induction records generalizing cur with
  | nil => simp
  | cons first rest ih =>
    rw [locate] at h
    split_ifs at h with hadmits
    intro record hrecord
    rcases List.mem_cons.mp hrecord with rfl | hrest
    · simpa using hadmits
    · exact ih h record hrest

/-! ### The two changes of the area -/

/-- The record that a copy of a message behind the bytes in use makes: its padding is what the
area held there. Assumes: a message with data whose record fits in the area. -/
def appendedRecord (shm : SharedMemory) (m : Message) (hpos : 0 < m.size)
    (hfits : shm.filled + m.recordLength ≤ shm.data.length) : Record where
  message := m
  padding := slice shm.data (shm.filled + m.bytes.length) (m.recordLength - m.bytes.length)
  size_pos := hpos
  padding_length := by
    have hle := m.length_bytes_le
    rw [length_slice _ _ _ (by omega)]
    omega

/-- Copying a message behind the bytes in use and counting its padded length appends its record.
Assumes: the record fits. -/
theorem represents_append {shm : SharedMemory} {records : List Record}
    (h : Represents shm records) (m : Message) (hpos : 0 < m.size)
    (hfits : shm.filled + m.recordLength ≤ shm.totalSize) :
    ∃ record, record.message = m ∧
      Represents
        { shm with
          data := overwrite shm.data shm.filled m.bytes
          filled := shm.filled + m.recordLength }
        (records ++ [record]) := by
  have hlength := h.data_length
  have hle := m.length_bytes_le
  have hcontents : (overwrite shm.data shm.filled m.bytes).take (shm.filled + m.recordLength) =
      records.flatMap Record.bytes ++ m.bytes ++
        slice shm.data (shm.filled + m.bytes.length) (m.recordLength - m.bytes.length) := by
    have hsplit : shm.filled + m.recordLength =
        shm.filled + m.bytes.length + (m.recordLength - m.bytes.length) := by omega
    rw [hsplit, take_overwrite_add _ _ _ (by omega), h.contents]
  refine ⟨appendedRecord shm m hpos (by omega), rfl, ?_, h.totalSize_lt, hfits, ?_⟩
  · rw [length_overwrite _ _ _ (by omega), hlength]
  · rw [hcontents, List.flatMap_append]
    simp [Record.bytes, appendedRecord]

/-- What the area holds when the bytes behind a record were moved down over it: the records in
front, the records behind, and the last bytes of the area as they were. -/
theorem take_move {shm : SharedMemory} {front back : List Record} {record : Record}
    (h : Represents shm (front ++ record :: back)) :
    (move shm.data (recordsLength front) (recordsLength front + record.length)
        (recordsLength back)).take shm.filled =
      (front ++ back).flatMap Record.bytes ++
        slice shm.data (recordsLength front + recordsLength back) record.length := by
  have hfilled := h.filled_eq
  have hle := h.filled_le
  have hlength := h.data_length
  have hsplit : front ++ record :: back = (front ++ [record]) ++ back := by simp
  have hback : slice shm.data (recordsLength front + record.length) (recordsLength back) =
      back.flatMap Record.bytes := by
    rw [hsplit] at h
    have hslice := h.slice_eq
    simpa using hslice
  rw [recordsLength_append, recordsLength_cons] at hfilled
  rw [move, hback]
  have hbackLength := length_flatMap_bytes back
  have hsum : shm.filled =
      recordsLength front + (back.flatMap Record.bytes).length + record.length := by omega
  rw [hsum, take_overwrite_add _ _ _ (by omega), h.take_eq, List.flatMap_append, hbackLength]

/-- Cutting a record out of the area removes it from the records. -/
theorem represents_remove {shm : SharedMemory} {front back : List Record} {record : Record}
    (h : Represents shm (front ++ record :: back)) :
    Represents (removeRecord shm (recordsLength front) record.length) (front ++ back) := by
  have hfilled := h.filled_eq
  have hle := h.filled_le
  have hlength := h.data_length
  rw [recordsLength_append, recordsLength_cons] at hfilled
  have hleft : shm.filled - recordsLength front - record.length = recordsLength back := by omega
  have hshort : shm.filled - record.length = recordsLength (front ++ back) := by
    rw [recordsLength_append]
    omega
  unfold removeRecord
  simp only [hleft]
  split_ifs with hback
  · have hslice : (slice shm.data (recordsLength front + record.length)
        (recordsLength back)).length = recordsLength back := length_slice _ _ _ (by omega)
    refine ⟨?_, h.totalSize_lt, by simp only; omega, ?_⟩
    · change (move _ _ _ _).length = _
      rw [move, length_overwrite _ _ _ (by omega), hlength]
    · have hmoved := congrArg (List.take (shm.filled - record.length)) (take_move h)
      rw [List.take_take, min_eq_left (Nat.sub_le _ _), hshort,
        ← length_flatMap_bytes, List.take_left, length_flatMap_bytes] at hmoved
      change (move _ _ _ _).take (shm.filled - record.length) = _
      rw [hshort]
      exact hmoved
  · have hempty : back = [] := by
      cases back with
      | nil => rfl
      | cons other rest =>
        have hother := other.sizeofMessage_le
        simp only [recordsLength_cons, sizeofMessage] at hback hother
        omega
    subst hempty
    refine ⟨hlength, h.totalSize_lt, by simp only; omega, ?_⟩
    change shm.data.take (shm.filled - record.length) = _
    rw [hshort, List.append_nil]
    exact h.take_eq

end MyIPNG.Shm
