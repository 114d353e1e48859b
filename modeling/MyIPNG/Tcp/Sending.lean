import MyIPNG.Base.Pieces
import MyIPNG.Tcp.Session

/-!
# What `send_tcp_packet` queues and what it reports

`send_tcp_packet` cuts a payload into segments of at most `mss` bytes and hands them to the IP queue
one by one, until one is refused. Whatever is refused, the segments that the queue took carry a
prefix of the payload, with sequence numbers that continue each other (`sendTcpLoop_contiguous`,
`sendTcpLoop_prefix`).

The return value counts a segment before it is sent. So it is the length of the queued prefix when
the queue takes every segment (`sendTcpLoop_accepted`), and more than that when a segment with data
is refused (`sendTcpLoop_refused`); `sendTcpPacket_reportsQueued_iff` puts the two together.
-/

set_option autoImplicit false
set_option relaxedAutoImplicit false

namespace MyIPNG.Tcp

open Base

/-! ### The segments of a payload -/

/-- The number of segments that a payload of the given length is cut into, at least one. -/
def segmentCount (mss : Mss) (length : ℕ) : ℕ := (length - 1) / mss.value + 1

theorem segmentCount_of_le {mss : Mss} {length : ℕ} (h : length ≤ mss.value) :
    segmentCount mss length = 1 := by
  have hmss := mss.positive
  rw [segmentCount, Nat.div_eq_of_lt (by omega)]

theorem segmentCount_of_lt {mss : Mss} {length : ℕ} (h : mss.value < length) :
    segmentCount mss length = segmentCount mss (length - mss.value) + 1 := by
  have hdiv := Nat.div_eq_sub_div mss.positive (show mss.value ≤ length - 1 by omega)
  rw [segmentCount, segmentCount, hdiv, Nat.sub_right_comm]

/-- Segments as pieces of the stream of sequence numbers. -/
def pieces (segments : List OutSegment) : List (Piece UInt8) :=
  segments.map fun segment ↦ (segment.seqNr, segment.payload)

/-! ### The loop -/

section Loop

variable (accepts : ℕ → Bool) (header : OutSegment) (mss : Mss)

/-- A refused send ends the loop. -/
theorem sendTcpLoop_of_refused {index : ℕ} (hrefused : accepts index = false)
    (payload : List UInt8) (localSeq : UInt32) (nSent : ℕ) :
    sendTcpLoop accepts header mss index payload localSeq nSent =
      ([], if 0 < nSent + min payload.length mss.value then
        ((nSent + min payload.length mss.value : ℕ) : ℤ) else -1) := by
  rw [sendTcpLoop]
  simp only [hrefused, if_true]

/-- A payload that fits in a segment is one send. -/
theorem sendTcpLoop_of_le {index : ℕ} (haccepted : accepts index = true) {payload : List UInt8}
    (hlength : payload.length ≤ mss.value) (localSeq : UInt32) (nSent : ℕ) :
    sendTcpLoop accepts header mss index payload localSeq nSent =
      ([{ header with seqNr := localSeq, payload := payload }],
        ((nSent + payload.length : ℕ) : ℤ)) := by
  rw [sendTcpLoop]
  simp only [haccepted, min_eq_left hlength, List.take_length, List.drop_length, List.length_nil,
    Nat.lt_irrefl, if_false, Bool.true_eq_false]

/-- A longer payload is a full segment and the rest. -/
theorem sendTcpLoop_of_lt {index : ℕ} (haccepted : accepts index = true) {payload : List UInt8}
    (hlength : mss.value < payload.length) (localSeq : UInt32) (nSent : ℕ) :
    sendTcpLoop accepts header mss index payload localSeq nSent =
      ({ header with seqNr := localSeq, payload := payload.take mss.value } ::
        (sendTcpLoop accepts header mss (index + 1) (payload.drop mss.value)
          (localSeq + UInt32.ofNat mss.value) (nSent + mss.value)).1,
        (sendTcpLoop accepts header mss (index + 1) (payload.drop mss.value)
          (localSeq + UInt32.ofNat mss.value) (nSent + mss.value)).2) := by
  have hmore : 0 < (payload.drop mss.value).length := by
    rw [List.length_drop]
    omega
  rw [sendTcpLoop]
  simp only [haccepted, min_eq_right hlength.le, hmore, if_true, if_false, Bool.true_eq_false]

/-- Induction along the loop: over the refused send, the last segment and a full segment with the
rest behind it. -/
theorem sendTcpLoop_induction
    {motive : ℕ → List UInt8 → UInt32 → ℕ → List OutSegment × ℤ → Prop}
    (refused : ∀ index payload localSeq nSent, accepts index = false →
      motive index payload localSeq nSent
        ([], if 0 < nSent + min payload.length mss.value then
          ((nSent + min payload.length mss.value : ℕ) : ℤ) else -1))
    (last : ∀ index payload localSeq nSent, accepts index = true → payload.length ≤ mss.value →
      motive index payload localSeq nSent
        ([{ header with seqNr := localSeq, payload := payload }],
          ((nSent + payload.length : ℕ) : ℤ)))
    (full : ∀ index payload localSeq nSent rest, accepts index = true →
      mss.value < payload.length →
      motive (index + 1) (payload.drop mss.value) (localSeq + UInt32.ofNat mss.value)
        (nSent + mss.value) rest →
      motive index payload localSeq nSent
        ({ header with seqNr := localSeq, payload := payload.take mss.value } :: rest.1, rest.2))
    (index : ℕ) (payload : List UInt8) (localSeq : UInt32) (nSent : ℕ) :
    motive index payload localSeq nSent
      (sendTcpLoop accepts header mss index payload localSeq nSent) := by
  induction hlength : payload.length using Nat.strong_induction_on
    generalizing index payload localSeq nSent with
  | _ length ih =>
    have hmss := mss.positive
    by_cases haccepted : accepts index = true
    · by_cases hfits : payload.length ≤ mss.value
      · rw [sendTcpLoop_of_le accepts header mss haccepted hfits]
        exact last index payload localSeq nSent haccepted hfits
      · have hlong : mss.value < payload.length := by omega
        rw [sendTcpLoop_of_lt accepts header mss haccepted hlong]
        refine full index payload localSeq nSent _ haccepted hlong ?_
        exact ih (payload.drop mss.value).length (by rw [List.length_drop]; omega) (index + 1) _ _
          _ rfl
    · have hrefused : accepts index = false := by simpa using haccepted
      rw [sendTcpLoop_of_refused accepts header mss hrefused]
      exact refused index payload localSeq nSent hrefused

/-- The queued segments continue each other. -/
theorem sendTcpLoop_contiguous (index : ℕ) (payload : List UInt8) (localSeq : UInt32)
    (nSent : ℕ) :
    Contiguous localSeq
      (pieces (sendTcpLoop accepts header mss index payload localSeq nSent).1) := by
  refine sendTcpLoop_induction accepts header mss
    (motive := fun _ _ localSeq _ result ↦ Contiguous localSeq (pieces result.1))
    (fun _ _ _ _ _ ↦ trivial) (fun _ _ _ _ _ _ ↦ ⟨rfl, trivial⟩) ?_ index payload localSeq nSent
  intro index payload localSeq nSent rest haccepted hlong hrest
  refine ⟨rfl, ?_⟩
  rwa [List.length_take, min_eq_left hlong.le]

/-- The queued segments carry a prefix of the payload. -/
theorem sendTcpLoop_prefix (index : ℕ) (payload : List UInt8) (localSeq : UInt32) (nSent : ℕ) :
    joined (pieces (sendTcpLoop accepts header mss index payload localSeq nSent).1) <+:
      payload := by
  refine sendTcpLoop_induction accepts header mss
    (motive := fun _ payload _ _ result ↦ joined (pieces result.1) <+: payload)
    (fun _ _ _ _ _ ↦ List.nil_prefix) ?_ ?_ index payload localSeq nSent
  · intro index payload localSeq nSent haccepted hfits
    change payload ++ [] <+: payload
    exact (List.append_nil payload).symm ▸ List.prefix_rfl
  · intro index payload localSeq nSent rest haccepted hlong hrest
    change payload.take mss.value ++ joined (pieces rest.1) <+: payload
    conv_rhs => rw [← List.take_append_drop mss.value payload]
    exact (List.prefix_append_right_inj _).mpr hrest

/-- Every queued segment has the given header, and a payload of at most `mss` bytes. -/
theorem sendTcpLoop_header (index : ℕ) (payload : List UInt8) (localSeq : UInt32) (nSent : ℕ) :
    ∀ segment ∈ (sendTcpLoop accepts header mss index payload localSeq nSent).1,
      ∃ seqNr piece, segment = { header with seqNr := seqNr, payload := piece } ∧
        piece.length ≤ mss.value := by
  refine sendTcpLoop_induction accepts header mss
    (motive := fun _ _ _ _ result ↦ ∀ segment ∈ result.1,
      ∃ seqNr piece, segment = { header with seqNr := seqNr, payload := piece } ∧
        piece.length ≤ mss.value)
    (fun _ _ _ _ _ _ hmem ↦ absurd hmem List.not_mem_nil) ?_ ?_ index payload localSeq nSent
  · intro index payload localSeq nSent haccepted hfits segment hmem
    exact ⟨localSeq, payload, List.mem_singleton.mp hmem, hfits⟩
  · intro index payload localSeq nSent rest haccepted hlong hrest segment hmem
    rcases List.mem_cons.mp hmem with hfirst | hlater
    · exact ⟨localSeq, payload.take mss.value, hfirst, List.length_take_le _ _⟩
    · exact hrest segment hlater

/-- When the queue takes every segment, the whole payload is queued and its length is reported. -/
theorem sendTcpLoop_accepted (index : ℕ) (payload : List UInt8) (localSeq : UInt32) (nSent : ℕ)
    (hall : ∀ i < segmentCount mss payload.length, accepts (index + i) = true) :
    let result := sendTcpLoop accepts header mss index payload localSeq nSent
    result.1.length = segmentCount mss payload.length ∧
      joined (pieces result.1) = payload ∧ result.2 = ((nSent + payload.length : ℕ) : ℤ) := by
  revert hall
  refine sendTcpLoop_induction accepts header mss
    (motive := fun index payload _ nSent result ↦
      (∀ i < segmentCount mss payload.length, accepts (index + i) = true) →
        result.1.length = segmentCount mss payload.length ∧
          joined (pieces result.1) = payload ∧ result.2 = ((nSent + payload.length : ℕ) : ℤ))
    ?_ ?_ ?_ index payload localSeq nSent
  · intro index payload localSeq nSent hrefused hall
    have hfirst := hall 0 (Nat.succ_pos _)
    rw [Nat.add_zero, hrefused] at hfirst
    exact absurd hfirst Bool.false_ne_true
  · intro index payload localSeq nSent haccepted hfits hall
    exact ⟨(segmentCount_of_le hfits).symm, List.append_nil payload, rfl⟩
  · intro index payload localSeq nSent rest haccepted hlong ih hall
    have hcount := segmentCount_of_lt hlong
    obtain ⟨hlength, hjoined, hvalue⟩ := ih fun i hi ↦ by
      rw [List.length_drop] at hi
      rw [Nat.add_assoc, Nat.add_comm 1]
      exact hall (i + 1) (by omega)
    rw [List.length_drop] at hlength hvalue
    refine ⟨?_, ?_, ?_⟩
    · rw [List.length_cons, hlength, hcount]
    · change payload.take mss.value ++ joined (pieces rest.1) = payload
      rw [hjoined, List.take_append_drop]
    · rw [hvalue]
      congr 1
      omega

/-- When a segment with data is refused, more is reported than was queued. -/
theorem sendTcpLoop_refused (index : ℕ) (payload : List UInt8) (localSeq : UInt32) (nSent : ℕ)
    (hpayload : payload ≠ [])
    (hsome : ∃ i < segmentCount mss payload.length, accepts (index + i) = false) :
    let result := sendTcpLoop accepts header mss index payload localSeq nSent
    ((nSent + (joined (pieces result.1)).length : ℕ) : ℤ) < result.2 := by
  revert hpayload hsome
  refine sendTcpLoop_induction accepts header mss
    (motive := fun index payload _ nSent result ↦ payload ≠ [] →
      (∃ i < segmentCount mss payload.length, accepts (index + i) = false) →
        ((nSent + (joined (pieces result.1)).length : ℕ) : ℤ) < result.2)
    ?_ ?_ ?_ index payload localSeq nSent
  · intro index payload localSeq nSent hrefused hpayload hsome
    have hpos : 0 < payload.length := List.length_pos_iff.mpr hpayload
    have hmss := mss.positive
    change ((nSent + 0 : ℕ) : ℤ) < _
    rw [if_pos (by omega)]
    omega
  · intro index payload localSeq nSent haccepted hfits hpayload hsome
    obtain ⟨i, hi, hrefused⟩ := hsome
    have hzero : i = 0 := by
      rw [segmentCount_of_le hfits] at hi
      omega
    rw [hzero, Nat.add_zero, haccepted] at hrefused
    exact absurd hrefused.symm Bool.false_ne_true
  · intro index payload localSeq nSent rest haccepted hlong ih hpayload hsome
    obtain ⟨i, hi, hrefused⟩ := hsome
    obtain ⟨j, rfl⟩ : ∃ j, i = j + 1 := by
      refine Nat.exists_eq_succ_of_ne_zero fun hzero ↦ ?_
      rw [hzero, Nat.add_zero, haccepted] at hrefused
      exact absurd hrefused.symm Bool.false_ne_true
    have hrest : payload.drop mss.value ≠ [] := by
      rw [Ne, List.drop_eq_nil_iff]
      omega
    have hlater := ih hrest ⟨j,
      by rw [segmentCount_of_lt hlong] at hi; rw [List.length_drop]; omega,
      by rwa [Nat.add_assoc, Nat.add_comm 1]⟩
    have hjoined : (joined (pieces ({ header with
        seqNr := localSeq, payload := payload.take mss.value } :: rest.1))).length =
          mss.value + (joined (pieces rest.1)).length := by
      change (payload.take mss.value ++ joined (pieces rest.1)).length = _
      rw [List.length_append, List.length_take, min_eq_left hlong.le]
    rw [hjoined, ← Nat.add_assoc]
    exact hlater

end Loop

/-! ### The report -/

/-- The report of a send: the queued segments carry a prefix of the payload under consecutive
sequence numbers, and the value is the length of the prefix, or `-1` when no segment was queued. -/
structure ReportsQueued (header : OutSegment) (result : List OutSegment × ℤ) : Prop where
  consecutive : Contiguous header.seqNr (pieces result.1)
  isPrefix : joined (pieces result.1) <+: header.payload
  value_of_queued : result.1 ≠ [] → result.2 = ((joined (pieces result.1)).length : ℤ)
  value_of_none : result.1 = [] → result.2 = -1

/-- `send_tcp_packet` reports what was queued exactly when there is nothing to send, or the queue
takes every segment. -/
theorem sendTcpPacket_reportsQueued_iff (accepts : ℕ → Bool) (header : OutSegment) (mss : Mss) :
    ReportsQueued header (sendTcpPacket accepts header mss) ↔
      header.payload = [] ∨
        ∀ i < segmentCount mss header.payload.length, accepts i = true := by
  have hcontiguous := sendTcpLoop_contiguous accepts header mss 0 header.payload header.seqNr 0
  have hsentFirst := sendTcpLoop_prefix accepts header mss 0 header.payload header.seqNr 0
  constructor
  · intro hreports
    by_contra hnot
    rw [not_or] at hnot
    obtain ⟨hpayload, hall⟩ := hnot
    simp only [not_forall, Bool.not_eq_true] at hall
    obtain ⟨i, hi, hrefused⟩ := hall
    have hmore : ((0 + (joined (pieces (sendTcpPacket accepts header mss).1)).length : ℕ) : ℤ) <
        (sendTcpPacket accepts header mss).2 :=
      sendTcpLoop_refused accepts header mss 0 header.payload header.seqNr 0 hpayload
        ⟨i, hi, by rwa [Nat.zero_add]⟩
    rw [Nat.zero_add] at hmore
    by_cases hnone : (sendTcpPacket accepts header mss).1 = []
    · have hvalue := hreports.value_of_none hnone
      omega
    · exact absurd (hreports.value_of_queued hnone) hmore.ne'
  · rintro (hempty | hall)
    · refine ⟨hcontiguous, hsentFirst, ?_, ?_⟩
      · rw [sendTcpPacket_empty accepts header mss hempty]
        intro hqueued
        split_ifs with haccepted
        · simp [pieces, joined, hempty]
        · simp [haccepted] at hqueued
      · rw [sendTcpPacket_empty accepts header mss hempty]
        intro hnone
        split_ifs with haccepted
        · simp [haccepted] at hnone
        · rfl
    · obtain ⟨hlength, hjoined, hvalue⟩ := sendTcpLoop_accepted accepts header mss 0 header.payload
        header.seqNr 0 fun i hi ↦ by rw [Nat.zero_add]; exact hall i hi
      refine ⟨hcontiguous, hsentFirst, fun _ ↦ ?_, fun hnone ↦ ?_⟩
      · rw [sendTcpPacket, hvalue, hjoined, Nat.zero_add]
      · rw [sendTcpPacket] at hnone
        rw [hnone] at hlength
        exact absurd hlength.symm (Nat.succ_ne_zero _)

/-- One byte for a queue that is full: nothing is queued, and one byte is reported. -/
theorem refused_segment_is_reported :
    ¬ ReportsQueued ⟨[10, 0, 0, 1], [10, 0, 0, 2], 80, 1025, 7, 9, 0x18, 8192, [1]⟩
      (sendTcpPacket (fun _ ↦ false)
        ⟨[10, 0, 0, 1], [10, 0, 0, 2], 80, 1025, 7, 9, 0x18, 8192, [1]⟩ minTcpMtu) := by
  rw [sendTcpPacket_single _ _ _ (by decide)]
  intro hreports
  exact absurd (hreports.value_of_none rfl) (by decide)

end MyIPNG.Tcp
