import MyIPNG.Tcp.Delivery

/-!
# The end of the peer's stream

The peer's stream ends with a FIN, at the number behind its last byte. `run_in` handles the FIN in
a block behind the data block, which looks neither at the order of the segment nor at what became
of its payload: the first FIN always sets `half_closed` and moves `peer_seq` up by one, and a FIN
that the data block did not acknowledge is acknowledged at `peer_seq` plus the payload size, also
when `peer_seq` counts the payload already.

`FinInOrder` is the condition on a FIN under which both are right. Along histories that meet it,
`half_closed` implies that the whole stream was handed over, `peer_seq` counts the FIN once, and no
acknowledgement is ahead of what was handed over (`fin_only_after_stream`). A FIN that overtakes
data does not meet it, and `half_closed` is set with the data missing (`fin_overtakes_data`).
-/

set_option autoImplicit false
set_option relaxedAutoImplicit false

namespace MyIPNG.Tcp

open Base

/-! ### A stream with its end -/

/-- The event carries a piece of a stream that ends with a FIN: without SYN and RST, the payload
reads the stream, and a FIN stands behind the last byte. -/
def StreamEvent (start : UInt32) (stream : List UInt8) : SessionEvent → Prop
  | .segment _ segment => Plain segment ∧
      IsPieceOf stream start (segment.peerSeqNr, segment.payload) ∧
      (hasFlag segment.flags flagFin = true →
        offset start segment.peerSeqNr + segment.payload.length = stream.length)
  | .write _ _ => True
  | .visit _ => True

/-- The condition on a FIN. Before `half_closed` is set: the segment is in order and the application
takes its payload, or it repeats the end of data that was accepted and its acknowledgement is
refused. Afterwards: the segment starts at most one number before `peerSeq`, or its acknowledgement
is refused. -/
def FinInOrder (start : UInt32) : Option Session → SessionEvent → Prop
  | some session, .segment environment segment =>
    hasFlag segment.flags flagFin = true →
      (session.halfClosed = false →
        segment.peerSeqNr = session.peerSeq ∧
            (segment.payload = [] ∨ environment.dataOk = true) ∨
          environment.finAckOk = false ∧
            session.peerSeq = segment.peerSeqNr + UInt32.ofNat segment.payload.length) ∧
      (session.halfClosed = true →
        environment.finAckOk = false ∨
          offset start session.peerSeq ≤ offset start segment.peerSeqNr + 1)
  | _, _ => True

instance (start : UInt32) : ∀ state event, Decidable (FinInOrder start state event)
  | some _, .segment _ _ => inferInstanceAs (Decidable (_ → _))
  | none, _ => isTrue (by simp [FinInOrder])
  | some _, .write _ _ => isTrue trivial
  | some _, .visit _ => isTrue trivial

/-- The whole stream was handed over. -/
def AllHanded (stream : List UInt8) (trace : Trace) : Prop :=
  ∃ chain : List (Piece UInt8), chain.Sublist (handedIn trace) ∧ joined chain = stream

theorem AllHanded.append {stream : List UInt8} {trace : Trace} (h : AllHanded stream trace)
    (more : Trace) : AllHanded stream (trace ++ more) := by
  obtain ⟨chain, hsublist, hjoined⟩ := h
  refine ⟨chain, ?_, hjoined⟩
  rw [handedIn_append]
  exact hsublist.trans (List.sublist_append_left _ _)

/-- `peerSeq` is the start plus the length of payloads handed over, plus one for the FIN. -/
def Counted (start : UInt32) (trace : Trace) (halfClosed : Bool) (peerSeq : UInt32) : Prop :=
  ∃ chain : List (Piece UInt8), chain.Sublist (handedIn trace) ∧
    peerSeq = start + UInt32.ofNat ((joined chain).length + if halfClosed then 1 else 0)

section Stream

variable {start : UInt32} {stream : List UInt8}

/-- An acknowledged number inside a history of pieces of the stream is a position of the stream,
and what comes before it was handed over. -/
theorem Acknowledged.position (hshort : stream.length < 2 ^ 32) {trace : Trace} {number : UInt32}
    (h : Acknowledged start trace number)
    (hpieces : ∀ piece ∈ handedIn trace, IsPieceOf stream start piece) :
    offset start number ≤ stream.length ∧
      ∃ chain : List (Piece UInt8), chain.Sublist (handedIn trace) ∧
        joined chain = stream.take (offset start number) ∧
        (joined chain).length = offset start number := by
  obtain ⟨chain, hsublist, hchain, hnumber⟩ := h
  obtain ⟨hjoined, hlength⟩ := contiguous_take hshort
    (fun piece hpiece ↦ hpieces piece (hsublist.subset hpiece)) hchain
  have hoffset : offset start number = (joined chain).length := by
    rw [hnumber, offset_add start (by omega)]
  rw [hoffset]
  exact ⟨hlength, chain, hsublist, hjoined, rfl⟩

/-- What holds of a session and its history. As long as `half_closed` is not set, `peerSeq` and the
acknowledgement numbers are acknowledged in the sense of the delivery of data. When it is set, the
whole stream was handed over and no number is ahead of the FIN. -/
structure FinInvariant (start : UInt32) (stream : List UInt8) (session : Session) (trace : Trace) :
    Prop where
  isOpen : session.state ≠ .closed
  pieces : ∀ piece ∈ handedIn trace, IsPieceOf stream start piece
  counted : Counted start trace session.halfClosed session.peerSeq
  before : session.halfClosed = false → Acknowledged start trace session.peerSeq
  after : session.halfClosed = true →
    AllHanded stream trace ∧ offset start session.peerSeq ≤ stream.length + 1
  acks : ∀ ack ∈ acksIn trace, Acknowledged start trace ack ∨
    session.halfClosed = true ∧ offset start ack ≤ stream.length + 1

/-- `peerSeq` itself may be acknowledged at any time. -/
theorem FinInvariant.ack_peerSeq {session : Session} {trace : Trace}
    (h : FinInvariant start stream session trace) :
    Acknowledged start trace session.peerSeq ∨
      session.halfClosed = true ∧ offset start session.peerSeq ≤ stream.length + 1 := by
  by_cases hclosed : session.halfClosed = true
  · exact Or.inr ⟨hclosed, (h.after hclosed).2⟩
  · exact Or.inl (h.before (by simpa using hclosed))

/-- An event that hands nothing over and leaves the receiving side alone keeps the invariant. -/
theorem finInvariant_quiet {session next : Session} {trace : Trace}
    (h : FinInvariant start stream session trace) {event : SessionEvent} {outputs : List Output}
    (hstate : next.state = session.state) (hclosed : next.halfClosed = session.halfClosed)
    (hquiet : Quiet session next event outputs) :
    FinInvariant start stream next (trace ++ [(event, outputs)]) := by
  have hhanded : handedIn (trace ++ [(event, outputs)]) = handedIn trace := by
    rw [handedIn_append, hquiet.handed_eq, List.append_nil]
  refine ⟨hstate ▸ h.isOpen, ?_, ?_, ?_, ?_, ?_⟩
  · rw [hhanded]
    exact h.pieces
  · rw [Counted, hhanded, hclosed, hquiet.peerSeq_eq]
    exact h.counted
  · rw [hclosed, hquiet.peerSeq_eq]
    exact fun hnot ↦ (h.before hnot).append _
  · rw [hclosed, hquiet.peerSeq_eq]
    exact fun hset ↦ ⟨(h.after hset).1.append _, (h.after hset).2⟩
  · intro ack hack
    rw [acksIn_append, List.mem_append] at hack
    rw [hclosed]
    rcases hack with hack | hack
    · exact (h.acks ack hack).imp_left fun hold ↦ hold.append _
    · rw [hquiet.acks ack hack]
      exact h.ack_peerSeq.imp_left fun hold ↦ hold.append _

/-! ### One segment -/

variable {environment : Environment} {segment : Segment} {session next : Session} {trace : Trace}
  {outputs : List Output}

/-- A payload handed over lies inside the stream, at `peerSeq`. -/
theorem handed_end_le (hevent : StreamEvent start stream (.segment environment segment))
    (hhands : handsOver environment segment session = true) :
    offset start session.peerSeq + segment.payload.length ≤ stream.length := by
  have hpayload : segment.payload ≠ [] := by
    simp only [handsOver, Bool.and_eq_true, bne_iff_ne] at hhands
    exact hhands.1.2
  have hend := end_le_of_isPieceOf hevent.2.1 hpayload
  rwa [← peerSeqNr_of_handsOver hhands]

/-- `half_closed` after a segment, as a number. -/
theorem halfClosed_count (heffect : SegmentEffect environment segment session next outputs) :
    (if next.halfClosed then 1 else 0) =
      (if session.halfClosed then 1 else 0) + finLength segment session := by
  rw [heffect.halfClosed_eq, received, finLength]
  by_cases hclosed : session.halfClosed = true
  · simp [hclosed]
  · simp [hclosed]

/-- A segment keeps the count of `peerSeq`. -/
theorem counted_segment (h : Counted start trace session.halfClosed session.peerSeq)
    (heffect : SegmentEffect environment segment session next outputs) :
    Counted start (trace ++ [(.segment environment segment, outputs)]) next.halfClosed
      next.peerSeq := by
  obtain ⟨chain, hsublist, hpeerSeq⟩ := h
  rw [Counted, handedIn_append, handedIn_segment heffect.outputs, halfClosed_count heffect,
    heffect.peerSeq_eq]
  change ∃ chain, _ ∧ session.peerSeq + UInt32.ofNat
    (acceptedLength environment segment session + finLength segment session) = _
  rcases acceptedLength_cases environment segment session with hnone | ⟨⟨hhands, -⟩, hlength⟩
  · refine ⟨chain, hsublist.trans (List.sublist_append_left _ _), ?_⟩
    rw [hnone, hpeerSeq, add_ofNat_add]
    congr 2
    omega
  · refine ⟨chain ++ [(segment.peerSeqNr, segment.payload)], ?_, ?_⟩
    · rw [if_pos hhands]
      exact hsublist.append (List.Sublist.refl _)
    · rw [hlength, hpeerSeq, add_ofNat_add, joined_append, List.length_append]
      congr 2
      simp only [joined_cons, joined_nil, List.append_nil]
      omega

/-- A payload handed over at an acknowledged `peerSeq` acknowledges the number behind it. -/
theorem acknowledged_segment (h : Acknowledged start trace session.peerSeq)
    (heffect : SegmentEffect environment segment session next outputs)
    (hhands : handsOver environment segment session = true) :
    Acknowledged start (trace ++ [(.segment environment segment, outputs)])
      (session.peerSeq + UInt32.ofNat segment.payload.length) := by
  refine h.extend ?_
  rw [handedIn_segment heffect.outputs, if_pos hhands, peerSeqNr_of_handsOver hhands]

/-- The position of `peerSeq` after a segment. -/
theorem offset_next (heffect : SegmentEffect environment segment session next outputs)
    (h : offset start session.peerSeq + (acceptedLength environment segment session +
      finLength segment session) < 2 ^ 32) :
    offset start next.peerSeq = offset start session.peerSeq +
      (acceptedLength environment segment session + finLength segment session) := by
  rw [heffect.peerSeq_eq]
  exact offset_add_ofNat start session.peerSeq h

/-- A FIN that is consumed in order. The stream was handed over with this segment at the latest;
`peerSeq` was at its end or is there after the payload. -/
theorem fin_consumed (hshort : stream.length + 1 < 2 ^ 32)
    (h : FinInvariant start stream session trace)
    (hevent : StreamEvent start stream (.segment environment segment))
    (horder : FinInOrder start (some session) (.segment environment segment))
    (heffect : SegmentEffect environment segment session next outputs)
    (hclosed : session.halfClosed = false) (hfin : hasFlag segment.flags flagFin = true) :
    AllHanded stream (trace ++ [(.segment environment segment, outputs)]) ∧
      (environment.finAckOk = false ∨
        offset start session.peerSeq + segment.payload.length = stream.length) := by
  have hend := hevent.2.2 hfin
  obtain ⟨hposition, chain, hsublist, hjoined, -⟩ :=
    (h.before hclosed).position (by omega) h.pieces
  rcases (horder hfin).1 hclosed with ⟨hnumber, hpayload⟩ | ⟨hrefused, hrepeated⟩
  · rw [hnumber] at hend
    refine ⟨?_, Or.inr hend⟩
    by_cases hempty : segment.payload = []
    · refine AllHanded.append ⟨chain, hsublist, ?_⟩ _
      rw [hjoined]
      simp only [hempty, List.length_nil, Nat.add_zero] at hend
      rw [hend, List.take_length]
    · have hhands : handsOver environment segment session = true := by
        have hdata := hpayload.resolve_left hempty
        simp [handsOver, reaches, hfin, hnumber, hempty, hdata]
      have hpiece : segment.payload =
          slice stream (offset start session.peerSeq) segment.payload.length := by
        have hpiece := hevent.2.1
        rwa [IsPieceOf, hnumber] at hpiece
      refine ⟨chain ++ [(segment.peerSeqNr, segment.payload)], ?_, ?_⟩
      · rw [handedIn_append, handedIn_segment heffect.outputs, if_pos hhands]
        exact hsublist.append (List.Sublist.refl _)
      · calc joined (chain ++ [(segment.peerSeqNr, segment.payload)])
            = stream.take (offset start session.peerSeq) ++
                slice stream (offset start session.peerSeq) segment.payload.length := by
              rw [joined_append, hjoined, ← hpiece]
              simp
          _ = stream := by rw [take_append_slice, hend, List.take_length]
  · refine ⟨AllHanded.append ⟨chain, hsublist, ?_⟩ _, Or.inl hrefused⟩
    have hatEnd : offset start session.peerSeq = stream.length := by
      rw [hrepeated, offset_add_ofNat start _ (by omega), hend]
    rw [hjoined, hatEnd, List.take_length]

/-- `peerSeq` after the data of a segment is a position of the stream, as long as `half_closed` is
not set. -/
theorem accepted_end_le (hshort : stream.length + 1 < 2 ^ 32)
    (h : FinInvariant start stream session trace)
    (hevent : StreamEvent start stream (.segment environment segment)) :
    offset start session.peerSeq + acceptedLength environment segment session +
        (if session.halfClosed then 0 else 1) ≤ stream.length + 1 := by
  rcases acceptedLength_cases environment segment session with hnone | ⟨⟨hhands, -⟩, hlength⟩
  · rw [hnone]
    by_cases hclosed : session.halfClosed = true
    · simpa [hclosed] using (h.after hclosed).2
    · have hposition := ((h.before (by simpa using hclosed)).position (by omega) h.pieces).1
      simpa [hclosed] using hposition
  · have hend := handed_end_le hevent hhands
    rw [hlength]
    split_ifs
    · omega
    · omega

/-- A FIN acknowledgement is not ahead of the FIN. It leaves only when the data block did not
acknowledge, so the payload is not counted twice. -/
theorem finAck_le (hshort : stream.length + 1 < 2 ^ 32)
    (h : FinInvariant start stream session trace)
    (hevent : StreamEvent start stream (.segment environment segment))
    (horder : FinInOrder start (some session) (.segment environment segment))
    (heffect : SegmentEffect environment segment session next outputs)
    (hfin : hasFlag segment.flags flagFin = true)
    (hnotAcked : acknowledges environment segment session = false)
    (hsent : environment.finAckOk = true) :
    offset start (next.peerSeq + UInt32.ofNat segment.payload.length) ≤ stream.length + 1 := by
  have hnone : acceptedLength environment segment session = 0 := by
    rcases acceptedLength_cases environment segment session with hnone | ⟨⟨-, hacked⟩, -⟩
    · exact hnone
    · exact absurd hacked (by simp [hnotAcked])
  have hend := hevent.2.2 hfin
  have hreach : offset start session.peerSeq + finLength segment session + segment.payload.length ≤
      stream.length + 1 := by
    by_cases hclosed : session.halfClosed = true
    · have hnear := ((horder hfin).2 hclosed).resolve_left (by simp [hsent])
      simp only [finLength, hclosed, Bool.not_true, Bool.and_false, Bool.false_eq_true, if_false]
      omega
    · have hclosed : session.halfClosed = false := by simpa using hclosed
      have hatEnd := (fin_consumed hshort h hevent horder heffect hclosed hfin).2.resolve_left
        (by simp [hsent])
      simp only [finLength, hfin, hclosed, Bool.not_false, Bool.and_self, if_true]
      omega
  have hroom : offset start session.peerSeq + (acceptedLength environment segment session +
      finLength segment session) < 2 ^ 32 := by omega
  have hnext := offset_next heffect hroom
  rw [offset_add_ofNat start _ (by omega), hnext]
  omega

theorem halfClosed_segment (heffect : SegmentEffect environment segment session next outputs) :
    next.halfClosed = (session.halfClosed || hasFlag segment.flags flagFin) :=
  heffect.halfClosed_eq

/-- Before the FIN, what a segment leaves acknowledged is in the history. -/
theorem before_segment (h : FinInvariant start stream session trace)
    (heffect : SegmentEffect environment segment session next outputs)
    (hnot : next.halfClosed = false) :
    Acknowledged start (trace ++ [(.segment environment segment, outputs)]) next.peerSeq := by
  obtain ⟨hclosed, hfin⟩ : session.halfClosed = false ∧
      hasFlag segment.flags flagFin = false := by simpa [halfClosed_segment heffect] using hnot
  have hcurrent := h.before hclosed
  have hpeerSeq : next.peerSeq =
      session.peerSeq + UInt32.ofNat (acceptedLength environment segment session) := by
    rw [heffect.peerSeq_eq, received, finLength, hfin]
    simp
  rcases acceptedLength_cases environment segment session with hnone | ⟨⟨hhands, -⟩, hlength⟩
  · rw [hpeerSeq, hnone]
    simpa using hcurrent.append _
  · rw [hpeerSeq, hlength]
    exact acknowledged_segment hcurrent heffect hhands

/-- After the FIN, the stream was handed over and the number is at most one behind its end. -/
theorem after_segment (hshort : stream.length + 1 < 2 ^ 32)
    (h : FinInvariant start stream session trace)
    (hevent : StreamEvent start stream (.segment environment segment))
    (horder : FinInOrder start (some session) (.segment environment segment))
    (heffect : SegmentEffect environment segment session next outputs)
    (hset : next.halfClosed = true) :
    AllHanded stream (trace ++ [(.segment environment segment, outputs)]) ∧
      offset start next.peerSeq ≤ stream.length + 1 := by
  have hbound := accepted_end_le hshort h hevent
  by_cases hclosed : session.halfClosed = true
  · have hfinLength : finLength segment session = 0 := by simp [finLength, hclosed]
    rw [if_pos hclosed] at hbound
    refine ⟨(h.after hclosed).1.append _, ?_⟩
    rw [offset_next heffect (by omega)]
    omega
  · have hclosed : session.halfClosed = false := by simpa using hclosed
    have hfin : hasFlag segment.flags flagFin = true := by
      simpa [halfClosed_segment heffect, hclosed] using hset
    have hfinLength : finLength segment session = 1 := by simp [finLength, hclosed, hfin]
    rw [if_neg (by simp [hclosed])] at hbound
    refine ⟨(fin_consumed hshort h hevent horder heffect hclosed hfin).1, ?_⟩
    rw [offset_next heffect (by omega)]
    omega

/-- Every acknowledgement that a segment causes is of bytes handed over, or comes after the FIN and
is at most one behind the end of the stream. -/
theorem acks_segment (hshort : stream.length + 1 < 2 ^ 32)
    (h : FinInvariant start stream session trace)
    (hevent : StreamEvent start stream (.segment environment segment))
    (horder : FinInOrder start (some session) (.segment environment segment))
    (heffect : SegmentEffect environment segment session next outputs) {ack : UInt32}
    (hack : ack ∈ acksIn [(.segment environment segment, outputs)]) :
    Acknowledged start (trace ++ [(.segment environment segment, outputs)]) ack ∨
      (next.halfClosed = true ∧ offset start ack ≤ stream.length + 1) := by
  obtain ⟨out, hout, rfl⟩ := mem_acksIn_singleton hack
  have hmono : session.halfClosed = true → next.halfClosed = true := by
    intro hclosed
    simp [halfClosed_segment heffect, hclosed]
  rcases (heffect.outputs.acks out hout).2 with hold | ⟨hhands, hnew⟩ |
    ⟨⟨hfin, hnotAcked, hsent⟩, hfinAck⟩
  · rw [hold]
    rcases h.ack_peerSeq with hcurrent | ⟨hclosed, hle⟩
    · exact Or.inl (hcurrent.append _)
    · exact Or.inr ⟨hmono hclosed, hle⟩
  · rw [hnew]
    by_cases hclosed : session.halfClosed = true
    · have hend := handed_end_le hevent hhands
      refine Or.inr ⟨hmono hclosed, ?_⟩
      rw [offset_add_ofNat start _ (by omega)]
      omega
    · exact Or.inl (acknowledged_segment (h.before (by simpa using hclosed)) heffect hhands)
  · refine Or.inr ⟨by simp [halfClosed_segment heffect, hfin], ?_⟩
    rw [hfinAck, ← heffect.peerSeq_eq]
    exact finAck_le hshort h hevent horder heffect hfin hnotAcked hsent

/-- The step lemma for segments: a segment of the stream whose FIN, if any, is in order keeps the
invariant. -/
theorem finInvariant_segment (hshort : stream.length + 1 < 2 ^ 32)
    (h : FinInvariant start stream session trace)
    (hevent : StreamEvent start stream (.segment environment segment))
    (horder : FinInOrder start (some session) (.segment environment segment))
    (heffect : SegmentEffect environment segment session next outputs) :
    FinInvariant start stream next (trace ++ [(.segment environment segment, outputs)]) := by
  refine ⟨heffect.state_eq ▸ h.isOpen, ?_, counted_segment h.counted heffect,
    before_segment h heffect, after_segment hshort h hevent horder heffect, ?_⟩
  · rw [handedIn_append, handedIn_segment heffect.outputs]
    intro piece hpiece
    rcases List.mem_append.mp hpiece with hpiece | hpiece
    · exact h.pieces piece hpiece
    · split_ifs at hpiece with hhands
      · rw [List.mem_singleton.mp hpiece]
        exact hevent.2.1
      · exact absurd hpiece List.not_mem_nil
  · intro ack hack
    rw [acksIn_append, List.mem_append] at hack
    rcases hack with hack | hack
    · rcases h.acks ack hack with hold | ⟨hclosed, hle⟩
      · exact Or.inl (hold.append _)
      · exact Or.inr ⟨by simp [halfClosed_segment heffect, hclosed], hle⟩
    · exact acks_segment hshort h hevent horder heffect hack

/-! ### Every history -/

/-- An event that carries the stream, with its FIN in order, keeps the invariant. -/
theorem finInvariant_step (config : Config) (sessionId : UInt64)
    (hshort : stream.length + 1 < 2 ^ 32) (h : FinInvariant start stream session trace)
    {event : SessionEvent} (hevent : StreamEvent start stream event)
    (horder : FinInOrder start (some session) event) :
    ∃ next, (traced (sessionStep config sessionId) (some session) event).1 = some next ∧
      FinInvariant start stream next
        (trace ++ (traced (sessionStep config sessionId) (some session) event).2) := by
  cases event with
  | segment environment segment =>
    obtain ⟨next, outputs, hstep, heffect⟩ :=
      segment_effect config environment sessionId hevent.1 h.isOpen
    refine ⟨next, ?_, ?_⟩
    · rw [traced, hstep]
    · rw [traced, hstep]
      exact finInvariant_segment hshort h hevent horder heffect
  | write flags what =>
    obtain ⟨-, hclosed, hstate⟩ := addFromL7_receiving session flags what
    exact ⟨_, rfl, finInvariant_quiet h hstate hclosed (write_quiet session flags what)⟩
  | visit accepts =>
    obtain ⟨-, hclosed, hstate, -⟩ := visit_receiving accepts session
    exact ⟨_, rfl, finInvariant_quiet h hstate hclosed (visit_quiet session accepts)⟩

end Stream

/-- The FIN of the peer is consumed only behind the whole stream. Assumes: an established session
that has seen no FIN, and a history of segments of one stream that ends with a FIN, writes and
visits, in which every FIN is in order. In every state reached, `half_closed` implies that the
stream was handed over, `peerSeq` counts the payloads and the FIN once, and no acknowledgement
number is ahead of what was handed over and the FIN. -/
theorem fin_only_after_stream (config : Config) (sessionId : UInt64) {session : Session}
    (hestablished : session.state = .established) (hclosed : session.halfClosed = false)
    {stream : List UInt8} (hshort : stream.length + 1 < 2 ^ 32) {events : List SessionEvent}
    (hevents : ∀ event ∈ events, StreamEvent session.peerSeq stream event)
    (horder : Along (traced (sessionStep config sessionId)) (FinInOrder session.peerSeq)
      (some session) events) :
    let start := session.peerSeq
    let final := run (traced (sessionStep config sessionId)) (some session) events
    ∃ current, final.1 = some current ∧
      (current.halfClosed = true → AllHanded stream final.2) ∧
      Counted start final.2 current.halfClosed current.peerSeq ∧
      ∀ ack ∈ acksIn final.2, ∃ chain : List (Piece UInt8), chain.Sublist (handedIn final.2) ∧
        joined chain <+: stream ∧
        offset start ack ≤ (joined chain).length + if current.halfClosed then 1 else 0 := by
  intro start final
  have hstart : FinInvariant start stream session [] := by
    refine ⟨by simp [hestablished], by simp [handedIn], ⟨[], List.nil_sublist _, ?_⟩,
      fun _ ↦ acknowledged_start _ _, ?_, by simp [acksIn, emittedIn]⟩
    · simp [hclosed, start]
    · exact fun hset ↦ absurd hset (by simp [hclosed])
  obtain ⟨current, hcurrent, hinvariant⟩ : ∃ current, final.1 = some current ∧
      FinInvariant start stream current final.2 := by
    refine run_induction
      (P := fun _ state trace ↦ ∃ current, state = some current ∧
        FinInvariant start stream current trace)
      ⟨session, rfl, hstart⟩ ?_ ((along_of_forall hevents _).and horder)
    rintro _ _ trace event ⟨current, rfl, hinvariant⟩ ⟨hevent, hinOrder⟩
    exact finInvariant_step config sessionId hshort hinvariant hevent hinOrder
  refine ⟨current, hcurrent, fun hset ↦ (hinvariant.after hset).1, hinvariant.counted, ?_⟩
  intro ack hack
  rcases hinvariant.acks ack hack with hacknowledged | ⟨hset, hle⟩
  · obtain ⟨-, chain, hsublist, hjoined, hlength⟩ :=
      hacknowledged.position (by omega) hinvariant.pieces
    refine ⟨chain, hsublist, ?_, by omega⟩
    rw [hjoined]
    exact List.take_prefix _ _
  · obtain ⟨chain, hsublist, hjoined⟩ := (hinvariant.after hset).1
    refine ⟨chain, hsublist, hjoined ▸ List.prefix_refl _, ?_⟩
    rwa [hjoined, if_pos hset]

theorem fin_only_after_stream_in_order :
    let data := sampleSegment 100 0 flagAck [7] (by decide)
    let fin := sampleSegment 101 0 (flagFin ||| flagAck) [] (by decide)
    let events := [SessionEvent.segment sampleEnvironment data, .segment sampleEnvironment fin]
    let final := run (traced (sessionStep sampleConfig 0)) (some (sampleSession 100 0)) events
    acksIn final.2 = [101, 102] ∧ ∃ current, final.1 = some current ∧
      (current.halfClosed = true → AllHanded [7] final.2) ∧
      Counted 100 final.2 current.halfClosed current.peerSeq := by
  intro data fin events final
  have hevents : ∀ event ∈ events, StreamEvent 100 [7] event := by
    simp only [events, List.forall_mem_cons, StreamEvent]
    exact ⟨by decide, by decide, by simp⟩
  have horder : Along (traced (sessionStep sampleConfig 0)) (FinInOrder 100)
      (some (sampleSession 100 0)) events := by decide +kernel
  have hestablished : (sampleSession 100 0).state = .established := rfl
  have hshort : [(7 : UInt8)].length + 1 < 2 ^ 32 := by decide
  obtain ⟨current, hcurrent, hhanded, hcounted, -⟩ :=
    fin_only_after_stream sampleConfig 0 hestablished rfl hshort hevents horder
  exact ⟨by decide +kernel, current, hcurrent, hhanded, hcounted⟩

/-- A FIN that overtakes the data of the stream is consumed, and the data is missing. -/
theorem fin_overtakes_data :
    let fin := sampleSegment 101 0 (flagFin ||| flagAck) [] (by decide)
    let events := [SessionEvent.segment sampleEnvironment fin]
    let final := run (traced (sessionStep sampleConfig 0)) (some (sampleSession 100 0)) events
    ((sampleSession 100 0).state = .established ∧ (sampleSession 100 0).halfClosed = false) ∧
      (∀ event ∈ events, StreamEvent 100 [7] event) ∧
      ∃ current, final.1 = some current ∧ current.halfClosed = true ∧
        ¬ AllHanded [7] final.2 := by
  intro fin events final
  have hevents : ∀ event ∈ events, StreamEvent 100 [7] event := by
    simp only [events, List.forall_mem_cons, StreamEvent]
    exact ⟨by decide, by simp⟩
  have hhanded : handedIn final.2 = [] := by decide +kernel
  have hclosed : final.1.map Session.halfClosed = some true := by decide +kernel
  obtain ⟨current, hcurrent, hset⟩ := Option.map_eq_some_iff.mp hclosed
  refine ⟨⟨rfl, rfl⟩, hevents, current, hcurrent, hset, ?_⟩
  rintro ⟨chain, hsublist, hjoined⟩
  rw [hhanded] at hsublist
  rw [List.sublist_nil.mp hsublist] at hjoined
  exact absurd hjoined (by simp)

end MyIPNG.Tcp
