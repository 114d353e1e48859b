import MyIPNG.Base.Reading
import MyIPNG.Tcp.Wire

/-!
# The bytes that the header parser reads

`run_in` up to the lookup of the session once more, with the index of each byte of the packet that
it reads while it decodes the header and walks over the options. The packet stands at the start of
memory; what is behind it is arbitrary.

With enough turns for the walk, the result is the one of `decodeSegment` whatever stands behind the
packet (`value_readHeader`), and the walk needs at most forty turns (`walkReading_isSome`). The test
of the header length against the length of the packet stands behind the walk, so the options of a
SYN are walked over to the end that the header claims: the reads stay inside of the packet exactly
when those options that are inside end the walk (`stopsInside`, `below_walkReading`).
-/

set_option autoImplicit false
set_option relaxedAutoImplicit false

namespace MyIPNG.Tcp

open Base Utils

/-! ### The parser with its reads -/

/-- `get_uint16` of the bytes at an index. -/
def readUint16 (memory : ℕ → UInt8) (index : ℕ) : Reading UInt16 := do
  let first ← Reading.cell memory index
  let second ← Reading.cell memory (index + 1)
  return (first.toUInt16 <<< 8) ||| second.toUInt16

/-- `get_uint32` of the bytes at an index. -/
def readUint32 (memory : ℕ → UInt8) (index : ℕ) : Reading UInt32 := do
  let first ← Reading.cell memory index
  let second ← Reading.cell memory (index + 1)
  let third ← Reading.cell memory (index + 2)
  let fourth ← Reading.cell memory (index + 3)
  return (first.toUInt32 <<< 24) ||| (second.toUInt32 <<< 16) ||| (third.toUInt32 <<< 8) |||
    fourth.toUInt32

/-- The test for a segment size at `cur`: what it leaves in `mss_index`. The second byte is read
behind a kind of 2 only, and the two bytes of the size behind a valid length only. -/
def readMss (memory : ℕ → UInt8) (headerEnd cur : ℕ) (kind : UInt8) (mssIndex : Fin 8) :
    Reading (Fin 8) :=
  if kind = 2 then do
    let size ← Reading.cell memory (cur + 1)
    if size = 4 ∧ cur + 4 ≤ headerEnd then do
      let high ← Reading.cell memory (cur + 2)
      let low ← Reading.cell memory (cur + 3)
      return selectMss ((high.toNat <<< 8) ||| low.toNat) mssIndex
    else return mssIndex
  else return mssIndex

/-- The walk over the options from `cur` to the end of the header, for at most the given number of
turns: nothing when these are used up. -/
def walkReading (memory : ℕ → UInt8) (headerEnd : ℕ) : ℕ → ℕ → Fin 8 → Reading (Option (Fin 8))
  | 0, _, _ => pure none
  | turns + 1, cur, mssIndex =>
    if cur + 2 ≤ headerEnd then do
      let kind ← Reading.cell memory cur
      let mssIndex ← readMss memory headerEnd cur kind mssIndex
      if kind = 0 ∨ kind = 1 then walkReading memory headerEnd turns (cur + 1) mssIndex
      else do
        let size ← Reading.cell memory (cur + 1)
        if size = 0 then return some mssIndex
        else walkReading memory headerEnd turns (cur + size.toNat) mssIndex
    else return some mssIndex

/-- What `run_in` reads from the first twenty bytes. -/
structure Fields where
  sourcePort : UInt16
  destinationPort : UInt16
  headerSize : ℕ
  flags : UInt8
  windowSize : UInt16
  peerSeqNr : UInt32
  ackSeqNr : UInt32

/-- The reads of the fields, in the order of the source. -/
def readFields (memory : ℕ → UInt8) : Reading Fields := do
  let sourcePort ← readUint16 memory 0
  let destinationPort ← readUint16 memory 2
  let offset ← Reading.cell memory 12
  let flags ← Reading.cell memory 13
  let windowSize ← readUint16 memory 14
  let peerSeqNr ← readUint32 memory 4
  let ackSeqNr ← readUint32 memory 8
  return ⟨sourcePort, destinationPort, (offset >>> 4).toNat * 4, flags, windowSize, peerSeqNr,
    ackSeqNr⟩

/-- The options of a SYN are walked over, those of another segment are not looked at. -/
def readOptions (turns : ℕ) (memory : ℕ → UInt8) (fields : Fields) : Reading (Option (Fin 8)) :=
  if hasFlag fields.flags flagSyn ∧ hasFlag fields.flags flagAck = false then
    walkReading memory fields.headerSize turns 20 1
  else pure (some 1)

/-- The segment, when the header is not longer than the packet. -/
def Fields.segment (fields : Fields) (fromAddr toAddr pl : List UInt8) (mssIndex : Fin 8) :
    Option Segment :=
  if pl.length < fields.headerSize then none
  else if hint : (pl.drop fields.headerSize).length < 2 ^ 31 then
    some
      { fromAddr := fromAddr
        toAddr := toAddr
        sourcePort := fields.sourcePort
        destinationPort := fields.destinationPort
        peerSeqNr := fields.peerSeqNr
        ackSeqNr := fields.ackSeqNr
        flags := fields.flags
        windowSize := fields.windowSize
        mssIndex := mssIndex
        payload := pl.drop fields.headerSize
        payload_lt := hint }
  else none

/-- `run_in` up to the lookup of the session, for a packet that `behind` follows in memory: nothing
when the turns of the walk are used up, else nothing when the packet is dropped. -/
def readHeader (turns : ℕ) (fromAddr toAddr pl : List UInt8) (behind : ℕ → UInt8) :
    Reading (Option (Option Segment)) :=
  if pl.length < 20 then pure (some none)
  else if tcpUdpChecksum fromAddr toAddr pl 6 ≠ 0 then pure (some none)
  else do
    let memory := Reading.memoryOf pl behind
    let fields ← readFields memory
    if fields.headerSize < 20 then return some none
    else do
      let walked ← readOptions turns memory fields
      return walked.map (fields.segment fromAddr toAddr pl)

/-- The options in `bytes` end a walk over `room` bytes before `bytes` end: at an option of length
zero, or at one that reaches to the last byte of the room or behind it. -/
def stopsInside (room : ℕ) (bytes : List UInt8) : Bool :=
  if room < 2 then true
  else match bytes with
  | [] => false
  | kind :: rest =>
    if kind = 0 ∨ kind = 1 then stopsInside (room - 1) rest
    else match rest with
    | [] => false
    | size :: value =>
      -- The value of a segment size option has to be inside as well.
      if kind = 2 ∧ size = 4 ∧ 4 ≤ room ∧ value.length < 2 then false
      else if size = 0 then true
      else stopsInside (room - size.toNat) (rest.drop (size.toNat - 1))
termination_by room
decreasing_by
  · omega
  · rename_i hsize
    have hpos : size.toNat ≠ 0 := fun hzero ↦ hsize (UInt8.toNat_inj.mp hzero)
    omega

section Stops

variable {room : ℕ} {kind : UInt8} {rest : List UInt8} (hroom : 2 ≤ room)

include hroom

theorem stopsInside_nil : stopsInside room [] = false := by
  rw [stopsInside.eq_def, if_neg (by omega)]

theorem stopsInside_single (hone : kind = 0 ∨ kind = 1) :
    stopsInside room (kind :: rest) = stopsInside (room - 1) rest := by
  rw [stopsInside.eq_def, if_neg (by omega)]
  exact if_pos hone

theorem stopsInside_last (hone : ¬(kind = 0 ∨ kind = 1)) : stopsInside room [kind] = false := by
  rw [stopsInside.eq_def, if_neg (by omega)]
  exact if_neg hone

/-- An option with a length ends the walk, or leaves it to the options behind it. -/
theorem stopsInside_sized (hone : ¬(kind = 0 ∨ kind = 1)) (size : UInt8) (value : List UInt8) :
    stopsInside room (kind :: size :: value) = true ↔
      (kind = 2 → size = 4 → 4 ≤ room → 2 ≤ value.length) ∧
      (size ≠ 0 → stopsInside (room - size.toNat)
        ((size :: value).drop (size.toNat - 1)) = true) := by
  rw [stopsInside.eq_def, if_neg (by omega)]
  simp only [if_neg hone]
  by_cases hvalue : kind = 2 ∧ size = 4 ∧ 4 ≤ room ∧ value.length < 2
  · obtain ⟨hkind, hsize, hfour, hshort⟩ := hvalue
    rw [if_pos ⟨hkind, hsize, hfour, hshort⟩]
    simp only [Bool.false_eq_true, false_iff, not_and]
    intro hcomplete
    exact absurd (hcomplete hkind hsize hfour) (by omega)
  · have hcomplete : kind = 2 → size = 4 → 4 ≤ room → 2 ≤ value.length := by
      intro hkind hsize hfour
      by_contra hshort
      exact hvalue ⟨hkind, hsize, hfour, by omega⟩
    rw [if_neg hvalue, and_iff_right hcomplete]
    by_cases hsize : size = 0
    · simp only [hsize, if_true, ne_eq, not_true_eq_false, false_imp_iff]
    · simp only [hsize, if_false, ne_eq, not_false_eq_true, forall_const]

end Stops

/-! ### The walk -/

section Walk

variable {pl : List UInt8} {behind : ℕ → UInt8} {headerEnd turns cur : ℕ}

theorem value_readMss (memory : ℕ → UInt8) (headerEnd cur : ℕ) (kind : UInt8) (mssIndex : Fin 8) :
    (readMss memory headerEnd cur kind mssIndex).value =
      if kind = 2 ∧ memory (cur + 1) = 4 ∧ cur + 4 ≤ headerEnd then
        selectMss (((memory (cur + 2)).toNat <<< 8) ||| (memory (cur + 3)).toNat) mssIndex
      else mssIndex := by
  unfold readMss
  by_cases hkind : kind = 2
  · rw [if_pos hkind, Reading.value_bind, Reading.value_cell]
    by_cases hsize : memory (cur + 1) = 4 ∧ cur + 4 ≤ headerEnd
    · rw [if_pos hsize, if_pos ⟨hkind, hsize⟩]
      rfl
    · rw [if_neg hsize, if_neg fun h ↦ hsize h.2, Reading.value_pure]
  · rw [if_neg hkind, if_neg fun h ↦ hkind h.1, Reading.value_pure]

theorem below_readMss (memory : ℕ → UInt8) (n headerEnd cur : ℕ) (kind : UInt8) (mssIndex : Fin 8) :
    (readMss memory headerEnd cur kind mssIndex).Below n ↔
      (kind = 2 → cur + 1 < n ∧ (memory (cur + 1) = 4 ∧ cur + 4 ≤ headerEnd → cur + 3 < n)) := by
  unfold readMss
  by_cases hkind : kind = 2
  · rw [if_pos hkind, Reading.below_bind, Reading.value_cell]
    by_cases hsize : memory (cur + 1) = 4 ∧ cur + 4 ≤ headerEnd
    · rw [if_pos hsize]
      simp only [hkind, hsize, Reading.below_bind, Reading.below_cell, Reading.below_pure,
        and_true, forall_const]
      omega
    · rw [if_neg hsize]
      simp only [hkind, hsize, Reading.below_cell, Reading.below_pure, false_imp_iff,
        forall_const]
  · rw [if_neg hkind]
    simp only [Reading.below_pure, hkind, false_imp_iff]

/-- What one turn of the walk leaves, and what it reads. Assumes: two bytes of options. -/
theorem walkReading_succ (memory : ℕ → UInt8) (n : ℕ) (mssIndex : Fin 8)
    (hroom : cur + 2 ≤ headerEnd) :
    let walk := walkReading memory headerEnd (turns + 1) cur mssIndex
    let mss := readMss memory headerEnd cur (memory cur) mssIndex
    let next := fun size ↦ walkReading memory headerEnd turns (cur + size) mss.value
    (walk.value = if memory cur = 0 ∨ memory cur = 1 then (next 1).value
      else if memory (cur + 1) = 0 then some mss.value
      else (next (memory (cur + 1)).toNat).value) ∧
    (walk.Below n ↔ cur < n ∧ mss.Below n ∧
      if memory cur = 0 ∨ memory cur = 1 then (next 1).Below n
      else cur + 1 < n ∧ (memory (cur + 1) ≠ 0 → (next (memory (cur + 1)).toNat).Below n)) := by
  intro walk mss next
  have hwalk : walk = Reading.cell memory cur >>= fun kind ↦
      readMss memory headerEnd cur kind mssIndex >>= fun mssIndex ↦
        if kind = 0 ∨ kind = 1 then walkReading memory headerEnd turns (cur + 1) mssIndex
        else Reading.cell memory (cur + 1) >>= fun size ↦
          if size = 0 then pure (some mssIndex)
          else walkReading memory headerEnd turns (cur + size.toNat) mssIndex := by
    simp only [walk, walkReading, if_pos hroom]
  rw [hwalk, Reading.value_bind, Reading.below_bind, Reading.value_cell, Reading.below_cell,
    Reading.value_bind, Reading.below_bind]
  by_cases hkind : memory cur = 0 ∨ memory cur = 1
  · rw [if_pos hkind, if_pos hkind, if_pos hkind]
    exact ⟨rfl, Iff.rfl⟩
  · rw [if_neg hkind, if_neg hkind, if_neg hkind, Reading.value_bind, Reading.below_bind,
      Reading.value_cell, Reading.below_cell]
    by_cases hsize : memory (cur + 1) = 0
    · rw [if_pos hsize, if_pos hsize, Reading.value_pure]
      simp only [Reading.below_pure, and_true, ne_eq, hsize, not_true_eq_false, false_imp_iff]
      exact ⟨rfl, Iff.rfl⟩
    · rw [if_neg hsize, if_neg hsize]
      simp only [ne_eq, hsize, not_false_eq_true, forall_const]
      exact ⟨rfl, Iff.rfl⟩

/-- The walk is over. -/
theorem walkReading_of_lt (memory : ℕ → UInt8) (mssIndex : Fin 8) (hroom : headerEnd < cur + 2) :
    walkReading memory headerEnd (turns + 1) cur mssIndex = pure (some mssIndex) := by
  rw [walkReading, if_neg (by omega)]

theorem toNat_ne_zero {size : UInt8} (h : size ≠ 0) : size.toNat ≠ 0 :=
  fun hzero ↦ h (UInt8.toNat_inj.mp hzero)

/-- The walk ends. Assumes: more turns than bytes of options. -/
theorem walkReading_isSome (memory : ℕ → UInt8) (mssIndex : Fin 8) (h : headerEnd - cur < turns) :
    (walkReading memory headerEnd turns cur mssIndex).value.isSome := by
  induction turns generalizing cur mssIndex with
  | zero => omega
  | succ turns ih =>
    by_cases hroom : cur + 2 ≤ headerEnd
    · rw [(walkReading_succ memory 0 mssIndex hroom).1]
      by_cases hkind : memory cur = 0 ∨ memory cur = 1
      · rw [if_pos hkind]
        exact ih _ (by omega)
      · rw [if_neg hkind]
        by_cases hsize : memory (cur + 1) = 0
        · rw [if_pos hsize, Option.isSome_some]
        · have hpos := toNat_ne_zero hsize
          rw [if_neg hsize]
          exact ih _ (by omega)
    · rw [walkReading_of_lt memory mssIndex (by omega), Reading.value_pure, Option.isSome_some]

/-- The walk leaves what `walkOptions` leaves. Assumes: a header inside of the packet, and more
turns than bytes of options. -/
theorem value_walkReading (mssIndex : Fin 8) (hinside : headerEnd ≤ pl.length)
    (h : headerEnd - cur < turns) :
    (walkReading (Reading.memoryOf pl behind) headerEnd turns cur mssIndex).value =
      some (walkOptions pl headerEnd cur mssIndex) := by
  induction turns generalizing cur mssIndex with
  | zero => omega
  | succ turns ih =>
    unfold walkOptions
    by_cases hroom : cur + 2 ≤ headerEnd
    · have hmemory (i : ℕ) (hi : i < headerEnd) :
          Reading.memoryOf pl behind i = pl.getD i 0 := Reading.memoryOf_of_lt (by omega) behind 0
      have hmss :
          (readMss (Reading.memoryOf pl behind) headerEnd cur (pl.getD cur 0) mssIndex).value =
          if pl.getD cur 0 = 2 ∧ pl.getD (cur + 1) 0 = 4 ∧ cur + 4 ≤ headerEnd then
            selectMss (((pl.getD (cur + 2) 0).toNat <<< 8) ||| (pl.getD (cur + 3) 0).toNat) mssIndex
          else mssIndex := by
        rw [value_readMss, hmemory (cur + 1) (by omega)]
        by_cases hvalid : pl.getD cur 0 = 2 ∧ pl.getD (cur + 1) 0 = 4 ∧ cur + 4 ≤ headerEnd
        · rw [if_pos hvalid, if_pos hvalid, hmemory _ (by omega), hmemory _ (by omega)]
        · rw [if_neg hvalid, if_neg hvalid]
      rw [(walkReading_succ _ 0 mssIndex hroom).1, if_pos hroom]
      simp only [hmemory cur (by omega), hmemory (cur + 1) (by omega), hmss]
      by_cases hkind : pl.getD cur 0 = 0 ∨ pl.getD cur 0 = 1
      · rw [if_pos hkind, if_pos hkind]
        exact ih _ (by omega)
      · rw [if_neg hkind, if_neg hkind]
        by_cases hsize : pl.getD (cur + 1) 0 = 0
        · rw [if_pos hsize, if_pos hsize]
        · have hpos := toNat_ne_zero hsize
          rw [if_neg hsize, if_neg hsize]
          exact ih _ (by omega)
    · rw [walkReading_of_lt _ mssIndex (by omega), if_neg hroom, Reading.value_pure]

/-- The walk reads inside of the packet exactly when the options there end it. Assumes: more turns
than bytes of options. -/
theorem below_walkReading (mssIndex : Fin 8) (h : headerEnd - cur < turns) :
    (walkReading (Reading.memoryOf pl behind) headerEnd turns cur mssIndex).Below pl.length ↔
      stopsInside (headerEnd - cur) (pl.drop cur) = true := by
  induction turns generalizing cur mssIndex with
  | zero => omega
  | succ turns ih =>
    by_cases hroom : cur + 2 ≤ headerEnd
    · rw [(walkReading_succ _ _ mssIndex hroom).2, below_readMss]
      by_cases hcur : cur < pl.length
      · have hkind : Reading.memoryOf pl behind cur = pl[cur] :=
          Reading.memoryOf_getElem hcur behind
        rw [List.drop_eq_getElem_cons hcur, hkind]
        generalize pl[cur] = kind
        by_cases hone : kind = 0 ∨ kind = 1
        · have htwo : kind ≠ 2 := by rintro rfl; revert hone; decide
          rw [if_pos hone, stopsInside_single (by omega) hone, ih _ (by omega), Nat.sub_sub]
          simp only [hcur, htwo, false_imp_iff, true_and]
        · rw [if_neg hone]
          by_cases hnext : cur + 1 < pl.length
          · have hsize : Reading.memoryOf pl behind (cur + 1) = pl[cur + 1] :=
              Reading.memoryOf_getElem hnext behind
            have hrest (size : ℕ) (hpos : size ≠ 0) :
                (pl.drop (cur + 1)).drop (size - 1) = pl.drop (cur + size) := by
              rw [List.drop_drop, show cur + 1 + (size - 1) = cur + size by omega]
            rw [List.drop_eq_getElem_cons hnext] at hrest ⊢
            rw [hsize, stopsInside_sized (by omega) hone]
            generalize pl[cur + 1] = size at *
            have hvalue : (kind = 2 → cur + 1 < pl.length ∧
                (size = 4 ∧ cur + 4 ≤ headerEnd → cur + 3 < pl.length)) ↔
                (kind = 2 → size = 4 → 4 ≤ headerEnd - cur →
                  2 ≤ (pl.drop (cur + 1 + 1)).length) := by
              rw [List.length_drop]
              refine imp_congr_right fun _ ↦ ?_
              rw [and_iff_right hnext, and_imp]
              refine imp_congr_right fun _ ↦ ?_
              omega
            rw [and_iff_right hcur, hvalue, and_iff_right hnext]
            refine and_congr_right fun _ ↦ imp_congr_right fun hpos ↦ ?_
            have hnat := toNat_ne_zero hpos
            rw [hrest _ hnat, Nat.sub_sub]
            exact ih _ (by omega)
          · rw [List.drop_eq_nil_of_le (show pl.length ≤ cur + 1 by omega),
              stopsInside_last (by omega) hone]
            simp only [hnext, false_and, and_false, Bool.false_eq_true]
      · rw [List.drop_eq_nil_of_le (by omega), stopsInside_nil (by omega)]
        simp only [hcur, false_and, Bool.false_eq_true]
    · rw [walkReading_of_lt _ mssIndex (by omega), stopsInside.eq_def, if_pos (by omega)]
      simp only [Reading.below_pure]

/-- Options that are all there end the walk. -/
theorem stopsInside_of_le (room : ℕ) (bytes : List UInt8) (h : room ≤ bytes.length) :
    stopsInside room bytes = true := by
  fun_induction stopsInside room bytes with
  | case1 => rfl
  | case2 room hroom =>
    rw [List.length_nil] at h
    omega
  | case3 room hroom kind rest hone ih =>
    rw [List.length_cons] at h
    exact ih (by omega)
  | case4 room hroom kind hone =>
    rw [List.length_cons, List.length_nil] at h
    omega
  | case5 room hroom kind hone size value hshort =>
    rw [List.length_cons, List.length_cons] at h
    omega
  | case6 => rfl
  | case7 room hroom kind hone size value hshort hsize ih =>
    have hpos := toNat_ne_zero hsize
    simp only [List.length_cons] at h
    refine ih ?_
    rw [List.length_drop, List.length_cons]
    omega

end Walk

/-! ### The header -/

section Header

variable {turns : ℕ} {fromAddr toAddr pl : List UInt8} {behind : ℕ → UInt8}

theorem value_readUint16 {index : ℕ} (h : index + 1 < pl.length) :
    (readUint16 (Reading.memoryOf pl behind) index).value = getUint16 pl index := by
  simp only [readUint16, getUint16, Reading.value_bind, Reading.value_cell, Reading.value_pure]
  rw [Reading.memoryOf_of_lt (by omega) behind 0, Reading.memoryOf_of_lt h behind 0]

theorem value_readUint32 {index : ℕ} (h : index + 3 < pl.length) :
    (readUint32 (Reading.memoryOf pl behind) index).value = getUint32 pl index := by
  simp only [readUint32, getUint32, Reading.value_bind, Reading.value_cell, Reading.value_pure]
  rw [Reading.memoryOf_of_lt (by omega) behind 0, Reading.memoryOf_of_lt (by omega) behind 0,
    Reading.memoryOf_of_lt (by omega) behind 0, Reading.memoryOf_of_lt h behind 0]

/-- The fields of a packet. Assumes: twenty bytes. -/
theorem value_readFields (hlength : 20 ≤ pl.length) :
    (readFields (Reading.memoryOf pl behind)).value =
      ⟨getUint16 pl 0, getUint16 pl 2, headerSize pl, pl.getD 13 0, getUint16 pl 14, getUint32 pl 4,
        getUint32 pl 8⟩ := by
  simp only [readFields, Reading.value_bind, Reading.value_cell, Reading.value_pure]
  rw [value_readUint16 (by omega), value_readUint16 (by omega), value_readUint16 (by omega),
    value_readUint32 (by omega), value_readUint32 (by omega),
    Reading.memoryOf_of_lt (by omega) behind 0, Reading.memoryOf_of_lt (by omega) behind 0]
  rfl

theorem below_readFields (hlength : 20 ≤ pl.length) :
    (readFields (Reading.memoryOf pl behind)).Below pl.length := by
  simp only [readFields, readUint16, readUint32, Reading.below_bind, Reading.below_cell,
    Reading.below_pure, and_true]
  omega

/-- What the options leave. Assumes: a header inside of the packet. -/
theorem value_readOptions {fields : Fields} (hturns : fields.headerSize - 20 < turns)
    (hinside : fields.headerSize ≤ pl.length) :
    (readOptions turns (Reading.memoryOf pl behind) fields).value =
      some (if hasFlag fields.flags flagSyn ∧ hasFlag fields.flags flagAck = false then
        walkOptions pl fields.headerSize 20 1 else 1) := by
  unfold readOptions
  by_cases hsyn : hasFlag fields.flags flagSyn ∧ hasFlag fields.flags flagAck = false
  · rw [if_pos hsyn, if_pos hsyn, value_walkReading 1 hinside hturns]
  · rw [if_neg hsyn, if_neg hsyn, Reading.value_pure]

theorem readOptions_isSome (turns : ℕ) (memory : ℕ → UInt8) (fields : Fields)
    (hturns : fields.headerSize - 20 < turns) :
    (readOptions turns memory fields).value.isSome := by
  unfold readOptions
  by_cases hsyn : hasFlag fields.flags flagSyn ∧ hasFlag fields.flags flagAck = false
  · rw [if_pos hsyn]
    exact walkReading_isSome memory 1 hturns
  · rw [if_neg hsyn, Reading.value_pure, Option.isSome_some]

/-- A header has at most sixty bytes. -/
theorem headerSize_le (pl : List UInt8) : headerSize pl ≤ 60 := by
  have hshift : (pl.getD 12 0 >>> 4).toNat ≤ 15 := by
    have hlt := (pl.getD 12 0).toNat_lt
    rw [UInt8.toNat_shiftRight, Nat.shiftRight_eq_div_pow]
    change (pl.getD 12 0).toNat / 2 ^ 4 ≤ 15
    omega
  rw [headerSize]
  omega

/-- The parser behind the two tests in front of it. -/
theorem readHeader_of_valid (hlength : 20 ≤ pl.length)
    (hchecksum : tcpUdpChecksum fromAddr toAddr pl 6 = 0) :
    readHeader turns fromAddr toAddr pl behind = (readFields (Reading.memoryOf pl behind) >>= fun
      fields ↦ if fields.headerSize < 20 then pure (some none)
        else readOptions turns (Reading.memoryOf pl behind) fields >>= fun walked ↦
          pure (walked.map (fields.segment fromAddr toAddr pl))) := by
  rw [readHeader, if_neg (by omega), if_neg (not_not.mpr hchecksum)]

/-- The parser gives what `decodeSegment` gives, whatever stands behind the packet. Assumes: more
turns than bytes of options fit in a header. -/
theorem value_readHeader (hturns : 40 < turns) :
    (readHeader turns fromAddr toAddr pl behind).value =
      some (decodeSegment fromAddr toAddr pl) := by
  unfold decodeSegment
  by_cases hlength : pl.length < 20
  · rw [readHeader, if_pos hlength, if_pos hlength, Reading.value_pure]
  · by_cases hchecksum : tcpUdpChecksum fromAddr toAddr pl 6 ≠ 0
    · rw [readHeader, if_neg hlength, if_neg hlength, if_pos hchecksum, if_pos hchecksum,
        Reading.value_pure]
    · rw [readHeader_of_valid (by omega) (not_not.mp hchecksum), if_neg hlength, if_neg hchecksum,
        Reading.value_bind, value_readFields (by omega)]
      by_cases hsmall : headerSize pl < 20
      · rw [if_pos hsmall, if_pos hsmall, Reading.value_pure]
      · have hle := headerSize_le pl
        rw [if_neg hsmall, if_neg hsmall, Reading.value_bind, Reading.value_pure]
        by_cases hlong : pl.length < headerSize pl
        · obtain ⟨mssIndex, hwalked⟩ := Option.isSome_iff_exists.mp
            (readOptions_isSome turns (Reading.memoryOf pl behind)
              ⟨getUint16 pl 0, getUint16 pl 2, headerSize pl, pl.getD 13 0, getUint16 pl 14,
                getUint32 pl 4, getUint32 pl 8⟩ (by dsimp only; omega))
          rw [if_pos hlong, hwalked, Option.map_some, Fields.segment, if_pos hlong]
        · rw [if_neg hlong, value_readOptions (by dsimp only; omega) (by dsimp only; omega),
            Option.map_some, Fields.segment, if_neg hlong]

/-- Decoding the header and walking over the options read no byte behind the packet exactly when
the options do not have to end the walk, or do so inside of the packet. Assumes: a packet of twenty
bytes or more with a correct checksum. -/
theorem readHeader_inside_iff (hturns : 40 < turns) (hlength : 20 ≤ pl.length)
    (hchecksum : tcpUdpChecksum fromAddr toAddr pl 6 = 0) :
    ((readHeader turns fromAddr toAddr pl behind).Below pl.length ∧
        (readHeader turns fromAddr toAddr pl behind).value ≠ none) ↔
      (hasFlag (pl.getD 13 0) flagSyn → hasFlag (pl.getD 13 0) flagAck = false →
        pl.length < headerSize pl → stopsInside (headerSize pl - 20) (pl.drop 20) = true) := by
  rw [value_readHeader hturns, readHeader_of_valid hlength hchecksum, Reading.below_bind,
    value_readFields hlength, and_iff_right (below_readFields hlength)]
  refine (and_iff_left (Option.some_ne_none _)).trans ?_
  have hle := headerSize_le pl
  by_cases hsmall : headerSize pl < 20
  · rw [if_pos hsmall]
    exact iff_of_true (Reading.below_pure _ _) fun _ _ hlong ↦ absurd hlong (by omega)
  · rw [if_neg hsmall, Reading.below_bind, and_iff_left (Reading.below_pure _ _), readOptions]
    by_cases hsyn : hasFlag (pl.getD 13 0) flagSyn ∧ hasFlag (pl.getD 13 0) flagAck = false
    · rw [if_pos hsyn, below_walkReading 1 (by dsimp only; omega)]
      refine ⟨fun h _ _ _ ↦ h, fun h ↦ ?_⟩
      by_cases hlong : pl.length < headerSize pl
      · exact h hsyn.1 hsyn.2 hlong
      · exact stopsInside_of_le _ _ (by rw [List.length_drop]; dsimp only; omega)
    · rw [if_neg hsyn]
      exact iff_of_true (Reading.below_pure _ _) fun h1 h2 _ ↦ absurd ⟨h1, h2⟩ hsyn

/-- A SYN of twenty-two bytes that claims a header of sixty: its one option reaches to the end of
the header, so nothing behind the packet is read. -/
theorem readHeader_inside_long_option :
    let pl : List UInt8 :=
      [4, 1, 0, 80, 0, 0, 0, 7, 0, 0, 0, 0, 240, 2, 32, 0, 212, 93, 0, 0, 3, 40]
    (readHeader 41 [10, 0, 0, 2] [10, 0, 0, 1] pl fun _ ↦ 0).Below 22 ∧
      (readHeader 41 [10, 0, 0, 2] [10, 0, 0, 1] pl fun _ ↦ 0).value ≠ none := by
  intro pl
  exact (readHeader_inside_iff (by decide) (by decide) (by decide +kernel)).mpr
    fun _ _ _ ↦ by decide +kernel

/-- A SYN of twenty bytes that claims a header of sixty: the walk reads the byte behind it. -/
theorem readHeader_reads_behind :
    let pl : List UInt8 :=
      [4, 1, 0, 80, 0, 0, 0, 7, 0, 0, 0, 0, 240, 2, 32, 0, 215, 135, 0, 0]
    20 ≤ pl.length ∧ tcpUdpChecksum [10, 0, 0, 2] [10, 0, 0, 1] pl 6 = 0 ∧
      ¬(readHeader 41 [10, 0, 0, 2] [10, 0, 0, 1] pl fun _ ↦ 0).Below pl.length := by
  intro pl
  refine ⟨by decide, by decide +kernel, fun hinside ↦ ?_⟩
  have hlt := hinside 20 (by decide +kernel)
  exact absurd hlt (by decide)

end Header

end MyIPNG.Tcp
