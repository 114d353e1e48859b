import MyIPNG.Tcp.RunOut

/-!
# What one event does to a session

The events of a session read and write two sets of fields. The receiving side is `peerSeq` and
`halfClosed`; the sending side is the buffer `l7ToTcp` with `localSeq`, `inFlight` and the two FIN
flags. A segment without SYN and RST acts on the sending side through `ackPending` only and on the
receiving side through `deliverData` and `handleFin` only. `SegmentEffect` says all that such a
segment does, `VisitEffect` all that a visit of the sender does, and the histories of the following
modules are built from these two statements without unfolding `run_in` again.
-/

set_option autoImplicit false
set_option relaxedAutoImplicit false

namespace MyIPNG.Tcp

open Base

/-! ### Reading outputs -/

@[simp] theorem emitted_append (first second : List Output) :
    emitted (first ++ second) = emitted first ++ emitted second := List.filterMap_append

@[simp] theorem handedPayloads_append (first second : List Output) :
    handedPayloads (first ++ second) = handedPayloads first ++ handedPayloads second :=
  List.filterMap_append

@[simp] theorem emitted_nil : emitted [] = [] := rfl

@[simp] theorem handedPayloads_nil : handedPayloads [] = [] := rfl

@[simp] theorem emitted_cons_toIp (segment : OutSegment) (rest : List Output) :
    emitted (.toIp segment :: rest) = segment :: emitted rest := rfl

@[simp] theorem emitted_cons_toL7 (peer : List UInt8) (message : L7Message)
    (rest : List Output) : emitted (.toL7 peer message :: rest) = emitted rest := rfl

@[simp] theorem handedPayloads_cons_toIp (segment : OutSegment) (rest : List Output) :
    handedPayloads (.toIp segment :: rest) = handedPayloads rest := rfl

@[simp] theorem handedPayloads_cons_toL7 (peer : List UInt8) (message : L7Message)
    (rest : List Output) :
    handedPayloads (.toL7 peer message :: rest) =
      (if message.payload = [] then [] else [message.payload]) ++ handedPayloads rest := by
  by_cases h : message.payload = [] <;> simp [handedPayloads, h]

@[simp] theorem handedPayloads_map_toIp (segments : List OutSegment) :
    handedPayloads (segments.map .toIp) = [] := by
  induction segments with
  | nil => rfl
  | cons segment rest ih => rw [List.map_cons, handedPayloads_cons_toIp, ih]

/-! ### Data and FIN -/

/-- A segment without data is one send. -/
theorem sendAck_eq (accepted : Bool) (segment : Segment) (session : Session) (ackNr : UInt32) :
    sendAck accepted segment session ackNr =
      if accepted then
        ([replyHeader segment session.localSeq ackNr flagAck session.localWindowSize], 0)
      else ([], -1) :=
  sendTcpPacket_empty _ _ _ rfl

/-- The segment gets past the branches on the flags: it has the ACK or the FIN flag. -/
def reaches (segment : Segment) : Bool :=
  hasFlag segment.flags flagAck || hasFlag segment.flags flagFin

/-- The payload of a segment goes to the application: it is the next one and the queue of the
application takes it. -/
def handsOver (environment : Environment) (segment : Segment) (session : Session) : Bool :=
  reaches segment && segment.peerSeqNr == session.peerSeq && segment.payload != [] &&
    environment.dataOk

/-- The number of bytes by which the data of a segment moves `peerSeq` up: its payload was handed
over and the acknowledgement could be sent. -/
def acceptedLength (environment : Environment) (segment : Segment) (session : Session) : ℕ :=
  if handsOver environment segment session && environment.ackOk then segment.payload.length else 0

/-- `acked_packet`. -/
def acknowledges (environment : Environment) (segment : Segment) (session : Session) : Bool :=
  segment.peerSeqNr == session.peerSeq && environment.ackOk &&
    (if segment.payload = [] then !hasFlag segment.flags flagAck else environment.dataOk)

/-- `peerSeq` moves behind the payload, or the data moves it not at all. -/
theorem acceptedLength_cases (environment : Environment) (segment : Segment) (session : Session) :
    acceptedLength environment segment session = 0 ∨
      (handsOver environment segment session = true ∧
        acknowledges environment segment session = true) ∧
        acceptedLength environment segment session = segment.payload.length := by
  by_cases hhands : handsOver environment segment session = true
  · by_cases hok : environment.ackOk = true
    · have hparts := hhands
      simp only [handsOver, Bool.and_eq_true, bne_iff_ne] at hparts
      refine Or.inr ⟨⟨hhands, ?_⟩, by simp [acceptedLength, hhands, hok]⟩
      simp [acknowledges, hok, hparts.1.1.2, hparts.1.2, hparts.2]
    · exact Or.inl (by simp [acceptedLength, hok])
  · exact Or.inl (by simp [acceptedLength, hhands])

/-- All that the delivery of data does. -/
structure DataEffect (environment : Environment) (segment : Segment) (session : Session)
    (result : DataResult) : Prop where
  session_eq : result.session =
    { session with
      peerSeq := session.peerSeq + UInt32.ofNat (acceptedLength environment segment session) }
  handed_eq : handedPayloads result.outputs =
    if handsOver environment segment session then [segment.payload] else []
  acked_eq : result.ackedPacket = acknowledges environment segment session
  acks : ∀ out ∈ emitted result.outputs, (out.payload = [] ∧ out.flags = flagAck) ∧
    (out.ackNr = session.peerSeq ∨ handsOver environment segment session = true ∧
      out.ackNr = session.peerSeq + UInt32.ofNat segment.payload.length)

theorem deliverData_effect (environment : Environment) (sessionId : UInt64) (segment : Segment)
    (session : Session) (hreaches : reaches segment = true) :
    DataEffect environment segment session
      (deliverData environment sessionId segment session) := by
  unfold deliverData
  by_cases horder : segment.peerSeqNr = session.peerSeq
  · by_cases hempty : segment.payload = []
    · have hhands : handsOver environment segment session = false := by simp [handsOver, hempty]
      cases hack : hasFlag segment.flags flagAck <;> cases hok : environment.ackOk <;>
        refine ⟨?_, ?_, ?_, ?_⟩ <;>
        simp [horder, hempty, hack, hok, hhands, acceptedLength, acknowledges, sendAck_eq,
          replyHeader]
    · have hpos : 0 < segment.payload.length := List.length_pos_iff.mpr hempty
      cases hdata : environment.dataOk
      · have hhands : handsOver environment segment session = false := by simp [handsOver, hdata]
        refine ⟨?_, ?_, ?_, ?_⟩ <;>
          simp [horder, hpos, hdata, hhands, hempty, acceptedLength, acknowledges]
      · have hhands : handsOver environment segment session = true := by
          simp [handsOver, hdata, horder, hempty, hreaches]
        cases hok : environment.ackOk <;> refine ⟨?_, ?_, ?_, ?_⟩ <;>
          simp [horder, hpos, hdata, hok, hhands, hempty, acceptedLength, acknowledges, sendAck_eq,
            l7Message, replyHeader]
  · have hhands : handsOver environment segment session = false := by simp [handsOver, horder]
    cases hok : environment.ackOk <;> refine ⟨?_, ?_, ?_, ?_⟩ <;>
      simp [horder, hok, hhands, acceptedLength, acknowledges, sendAck_eq, replyHeader]

/-- The number by which the FIN of a segment moves `peerSeq` up. -/
def finLength (segment : Segment) (session : Session) : ℕ :=
  if hasFlag segment.flags flagFin && !session.halfClosed then 1 else 0

/-- The session after the FIN block. -/
theorem handleFin_session (environment : Environment) (segment : Segment) (ackedPacket : Bool)
    (session : Session) :
    (handleFin environment segment ackedPacket session).1 =
      { session with
        peerSeq := session.peerSeq + UInt32.ofNat (finLength segment session)
        halfClosed := session.halfClosed || hasFlag segment.flags flagFin } := by
  unfold handleFin finLength
  by_cases hfin : hasFlag segment.flags flagFin = true
  · by_cases hclosed : session.halfClosed = true
    · have hkeep : session = { session with halfClosed := true } := by rw [← hclosed]
      simpa [hfin, hclosed] using hkeep
    · simp [hfin, hclosed]
  · simp [hfin]

/-- The FIN block hands nothing over, and it acknowledges when the data block did not. -/
theorem handleFin_outputs (environment : Environment) (segment : Segment) (ackedPacket : Bool)
    (session : Session) :
    handedPayloads (handleFin environment segment ackedPacket session).2 = [] ∧
      ∀ out ∈ emitted (handleFin environment segment ackedPacket session).2,
        (out.payload = [] ∧ out.flags = flagAck) ∧ hasFlag segment.flags flagFin = true ∧
          ackedPacket = false ∧ environment.finAckOk = true ∧
          out.ackNr = (handleFin environment segment ackedPacket session).1.peerSeq +
            UInt32.ofNat segment.payload.length := by
  unfold handleFin
  cases hasFlag segment.flags flagFin
  · simp
  · cases ackedPacket
    · cases hok : environment.finAckOk <;> simp [sendAck_eq, replyHeader]
    · simp

/-- The code at `clean` leaves a valid session alone. At most it tells the application of a close,
which hands over no payload. -/
theorem clean_valid (environment : Environment) (sessionId : UInt64) (segment : Segment)
    (invalidWRst invalidIncAck cleanSession : Bool) (session : Session) :
    let cleaned := clean environment sessionId segment false invalidWRst invalidIncAck cleanSession
      (some session)
    cleaned.1 = some session ∧ emitted cleaned.2 = [] ∧ handedPayloads cleaned.2 = [] := by
  unfold clean
  cases cleanSession <;> cases environment.closeOk <;> simp [l7Message]

/-- The receiving side after a segment. -/
def received (environment : Environment) (segment : Segment) (session : Session) : Session :=
  { session with
    peerSeq := session.peerSeq +
      UInt32.ofNat (acceptedLength environment segment session + finLength segment session)
    halfClosed := session.halfClosed || hasFlag segment.flags flagFin }

/-- What a segment puts out: the payload, if it is handed over, and acknowledgements without
data. An acknowledgement number is `peerSeq` before the segment, or behind the payload that was
handed over, or, from the FIN block, the length of the payload behind `peerSeq` after the
segment. -/
structure OutputsEffect (environment : Environment) (segment : Segment) (session : Session)
    (outputs : List Output) : Prop where
  handed_eq : handedPayloads outputs =
    if handsOver environment segment session then [segment.payload] else []
  acks : ∀ out ∈ emitted outputs, (out.payload = [] ∧ out.flags = flagAck) ∧
    (out.ackNr = session.peerSeq ∨
      handsOver environment segment session = true ∧
        out.ackNr = session.peerSeq + UInt32.ofNat segment.payload.length ∨
      (hasFlag segment.flags flagFin = true ∧ acknowledges environment segment session = false ∧
        environment.finAckOk = true) ∧
        out.ackNr = (received environment segment session).peerSeq +
          UInt32.ofNat segment.payload.length)

theorem processData_effect (environment : Environment) (sessionId : UInt64) (segment : Segment)
    (invalidIncAck resend : Bool) (session : Session) (hreaches : reaches segment = true) :
    let result := processData environment sessionId segment false invalidIncAck resend session
    result.session = some (received environment segment session) ∧ result.resend = resend ∧
      OutputsEffect environment segment session result.outputs := by
  intro result
  obtain ⟨hsession, hhanded, hacked, hacks⟩ :=
    deliverData_effect environment sessionId segment session hreaches
  have hfin := handleFin_session environment segment
    (acknowledges environment segment session) (deliverData environment sessionId segment
      session).session
  have hafter : (handleFin environment segment (acknowledges environment segment session)
      (deliverData environment sessionId segment session).session).1 =
      received environment segment session := by
    rw [hfin, hsession]
    simp only [received, finLength, add_ofNat_add]
  obtain ⟨hfinHanded, hfinAcks⟩ := handleFin_outputs environment segment
    (acknowledges environment segment session) (deliverData environment sessionId segment
      session).session
  obtain ⟨hkept, hemitted, hcleanHanded⟩ := clean_valid environment sessionId segment true
    invalidIncAck (deliverData environment sessionId segment session).cleanSession
    (received environment segment session)
  simp only [result, processData, if_true, hacked, hafter]
  refine ⟨hkept, trivial, ?_, ?_⟩
  · simp only [handedPayloads_append, hhanded, hfinHanded, hcleanHanded, List.append_nil]
  · intro out hout
    simp only [emitted_append, hemitted, List.append_nil, List.mem_append] at hout
    rcases hout with hout | hout
    · obtain ⟨hempty, hold | hnew⟩ := hacks out hout
      · exact ⟨hempty, Or.inl hold⟩
      · exact ⟨hempty, Or.inr (Or.inl hnew)⟩
    · obtain ⟨hempty, hflag, hnotAcked, hok, hack⟩ := hfinAcks out hout
      rw [hafter] at hack
      exact ⟨hempty, Or.inr (Or.inr ⟨⟨hflag, hnotAcked, hok⟩, hack⟩)⟩

/-! ### A whole segment -/

/-- A segment without SYN and RST. -/
def Plain (segment : Segment) : Prop :=
  hasFlag segment.flags flagSyn = false ∧ hasFlag segment.flags flagRst = false

instance (segment : Segment) : Decidable (Plain segment) := inferInstanceAs (Decidable (_ ∧ _))

/-- The session after the acknowledgement that a segment brings, if any, and the decision to
resend. -/
def afterAck (segment : Segment) (session : Session) : Session × Bool :=
  if hasFlag segment.flags flagAck then ackPending session segment.ackSeqNr else (session, false)

/-- The session that a segment finds: `updated_ts` and `peer_window_size` are set first. -/
def touched (environment : Environment) (segment : Segment) (session : Session) : Session :=
  { session with updatedTs := environment.nowUs, peerWindowSize := segment.windowSize }

theorem afterAck_touched (environment : Environment) (segment : Segment) (session : Session) :
    afterAck segment (touched environment segment session) =
      (touched environment segment (afterAck segment session).1, (afterAck segment session).2) := by
  unfold afterAck ackPending touched
  dsimp only
  split_ifs <;> rfl

/-- An acknowledgement leaves the receiving side of a session alone. -/
theorem afterAck_receiving (segment : Segment) (session : Session) :
    (afterAck segment session).1.peerSeq = session.peerSeq ∧
      (afterAck segment session).1.halfClosed = session.halfClosed ∧
      (afterAck segment session).1.state = session.state := by
  unfold afterAck ackPending
  dsimp only
  split_ifs <;> exact ⟨rfl, rfl, rfl⟩

/-- The body of `run_in` for a closed session. -/
theorem runInSession_closed (config : Config) (environment : Environment) (sessionId : UInt64)
    (segment : Segment) {session : Session} (hclosed : session.state = .closed) :
    runInSession config environment sessionId segment session =
      let cleaned := clean environment sessionId segment true true false false
        (some (touched environment segment session))
      ⟨cleaned.1, cleaned.2, false⟩ :=
  if_pos hclosed

/-- The body of `run_in` for a segment without SYN and RST on an open session. -/
theorem runInSession_eq (config : Config) (environment : Environment) (sessionId : UInt64)
    {segment : Segment} (hplain : Plain segment) {session : Session}
    (hopen : session.state ≠ .closed) :
    runInSession config environment sessionId segment session =
      let acked := afterAck segment (touched environment segment session)
      if reaches segment then
        processData environment sessionId segment false false acked.2 acked.1
      else ⟨some (touched environment segment session), [], false⟩ := by
  simp only [runInSession, hopen, hplain.1, hplain.2, reaches, afterAck, touched]
  by_cases hack : hasFlag segment.flags flagAck = true
  · simp [hack]
  · by_cases hfin : hasFlag segment.flags flagFin = true
    · simp [hack, hfin]
    · simp [hack, hfin]

/-- What that body leaves, in terms of the session after the acknowledgement. -/
theorem runInSession_plain (config : Config) (environment : Environment) (sessionId : UInt64)
    {segment : Segment} (hplain : Plain segment) {session : Session}
    (hopen : session.state ≠ .closed) :
    let result := runInSession config environment sessionId segment session
    let acked := afterAck segment (touched environment segment session)
    result.session = some (received environment segment acked.1) ∧ result.resend = acked.2 ∧
      OutputsEffect environment segment acked.1 result.outputs := by
  intro result acked
  have hbody := runInSession_eq config environment sessionId hplain hopen
  by_cases hreaches : reaches segment = true
  · simp only [result, hbody, if_pos hreaches]
    exact processData_effect environment sessionId segment false acked.2 acked.1 hreaches
  · have hflags : hasFlag segment.flags flagAck = false ∧
        hasFlag segment.flags flagFin = false := by
      simpa [reaches] using hreaches
    have hacked : acked = (touched environment segment session, false) := by
      simp [acked, afterAck, hflags.1]
    simp only [result, hbody, if_neg hreaches, hacked]
    refine ⟨?_, trivial, ?_, ?_⟩
    · simp [received, acceptedLength, handsOver, finLength, hreaches, hflags.2]
    · simp [handsOver, hreaches]
    · simp

/-- The sending sides of two sessions are the same. -/
structure SameSending (session next : Session) : Prop where
  localSeq_eq : next.localSeq = session.localSeq
  l7ToTcp_eq : next.l7ToTcp = session.l7ToTcp
  inFlight_eq : next.inFlight = session.inFlight
  l7SendFin_eq : next.l7SendFin = session.l7SendFin
  finSent_eq : next.finSent = session.finSent
  mss_eq : next.mss = session.mss

/-- All that a segment without SYN and RST does to an open session: the acknowledgement acts on
the sending side, data and FIN on the receiving side. -/
structure SegmentEffect (environment : Environment) (segment : Segment) (session next : Session)
    (outputs : List Output) : Prop where
  state_eq : next.state = session.state
  peerSeq_eq : next.peerSeq = (received environment segment session).peerSeq
  halfClosed_eq : next.halfClosed = (received environment segment session).halfClosed
  sending : SameSending (afterAck segment session).1 next
  outputs : OutputsEffect environment segment session outputs

/-- The step lemma for segments. Assumes: the session is not closed. -/
theorem segment_effect (config : Config) (environment : Environment) (sessionId : UInt64)
    {segment : Segment} (hplain : Plain segment) {session : Session}
    (hopen : session.state ≠ .closed) :
    ∃ next outputs, sessionStep config sessionId (some session) (.segment environment segment) =
        (some next, outputs) ∧ SegmentEffect environment segment session next outputs := by
  obtain ⟨hsession, -, houtputs⟩ :=
    runInSession_plain config environment sessionId hplain hopen
  rw [afterAck_touched] at hsession houtputs
  obtain ⟨hpeerSeq, hhalfClosed, hstate⟩ := afterAck_receiving segment session
  have hhands : handsOver environment segment
      (touched environment segment (afterAck segment session).1) =
      handsOver environment segment session := by
    simp [handsOver, touched, hpeerSeq]
  have hreceived : (received environment segment
      (touched environment segment (afterAck segment session).1)).peerSeq =
      (received environment segment session).peerSeq := by
    simp only [received, acceptedLength, hhands, finLength]
    simp only [touched, hpeerSeq, hhalfClosed]
  refine ⟨_, (runInSession config environment sessionId segment session).outputs,
    Prod.ext hsession rfl, hstate, hreceived, ?_, ⟨rfl, rfl, rfl, rfl, rfl, rfl⟩,
    ⟨?_, ?_⟩⟩
  · simp [received, touched, hhalfClosed]
  · rw [houtputs.handed_eq, hhands]
  · intro out hout
    have hack := houtputs.acks out hout
    rw [hhands, hreceived] at hack
    simpa [touched, hpeerSeq, acknowledges] using hack

/-! ### A visit of the sender -/

/-- The bytes that a visit of the sender takes from the buffer. -/
def visitPayload (session : Session) : List UInt8 :=
  session.l7ToTcp.data.take (min 65536 session.mss.value)

/-- A visit of the sender sets the FIN flag: the application ended the stream and the segment
reaches its end. -/
def visitFin (session : Session) : Bool :=
  session.l7ToTcp.data.length ≤ min 65536 session.mss.value && session.l7SendFin

/-- A visit of the sender has something to send. -/
def Sends (session : Session) : Prop :=
  (session.inFlight = 0 ∧ session.finSent = false) ∧
    (visitPayload session ≠ [] ∨ visitFin session = true)

instance (session : Session) : Decidable (Sends session) := inferInstanceAs (Decidable (_ ∧ _))

/-- The session after a visit that sent. -/
def visited (session : Session) : Session :=
  { session with
    localSeq := session.localSeq + (if visitFin session then 1 else 0)
    finSent := visitFin session
    inFlight := (visitPayload session).length }

/-- What the sender peeks at: the bytes that it takes, and whether they end the stream. -/
theorem peek_visit (session : Session) :
    (session.l7ToTcp.peek (min 65536 session.mss.value)).1 = visitPayload session ∧
      (if (session.l7ToTcp.peek (min 65536 session.mss.value)).2 then session.l7SendFin
        else false) = visitFin session := by
  constructor
  · rw [TcpData.peek, visitPayload, Nat.min_comm session.l7ToTcp.data.length,
      ← List.take_eq_take_min]
  · simp only [TcpData.peek, visitFin]
    by_cases hlength : session.l7ToTcp.data.length ≤ min 65536 session.mss.value
    · simp [hlength]
    · simp [hlength]

/-- What the sender's send reports: `-1` for a refused segment without data, else the number of
bytes, whether the segment was taken or not. -/
theorem sendTcpPacket_visit (accepts : ℕ → Bool) (session : Session) :
    sendTcpPacket accepts (senderHeader session (visitPayload session) (visitFin session))
        session.mss =
      if accepts 0 = false ∧ visitPayload session = [] then ([], -1)
      else (if accepts 0 then [senderHeader session (visitPayload session) (visitFin session)]
        else [], ((visitPayload session).length : ℤ)) := by
  have hshort : (visitPayload session).length ≤ session.mss.value := by
    simp [visitPayload]
  rw [sendTcpPacket_single accepts
    (senderHeader session (visitPayload session) (visitFin session)) session.mss hshort]
  by_cases haccepted : accepts 0 = true
  · simp [haccepted, senderHeader]
  · by_cases hdata : visitPayload session = []
    · simp [haccepted, hdata, senderHeader]
    · simp [haccepted, hdata, senderHeader]

/-- All that a visit of the sender does. A refused segment with data counts as sent, and the
sender waits for its acknowledgement. -/
theorem senderVisit_eq (accepts : ℕ → Bool) (session : Session) :
    senderVisit accepts session =
      if Sends session then
        if accepts 0 = false ∧ visitPayload session = [] then ⟨session, [], true⟩
        else ⟨visited session, if accepts 0 then
          [.toIp (senderHeader session (visitPayload session) (visitFin session))] else [], false⟩
      else ⟨session, [], false⟩ := by
  obtain ⟨hgot, hend⟩ := peek_visit session
  unfold senderVisit
  simp only [hgot, hend, sendTcpPacket_visit]
  by_cases hidle : session.inFlight = 0 ∧ session.finSent = false
  · by_cases hwork : visitPayload session ≠ [] ∨ visitFin session = true
    · have hsends : Sends session := ⟨hidle, hwork⟩
      rw [if_neg (by simp [hidle.1, hidle.2]), if_pos hsends,
        if_pos (hwork.imp_left List.length_pos_iff.mpr)]
      by_cases hrefused : accepts 0 = false ∧ visitPayload session = []
      · simp only [if_pos hrefused, if_true, List.map_nil]
      · have hcounted : ((visitPayload session).length : ℤ) ≠ -1 := by omega
        simp only [if_neg hrefused, hcounted, if_false, if_true, hidle.2, and_true,
          Int.toNat_natCast, visited]
        by_cases hfin : visitFin session = true
        · by_cases haccepted : accepts 0 = true
          · simp [hfin, haccepted]
          · simp [hfin, haccepted]
        · by_cases haccepted : accepts 0 = true
          · simp [hfin, haccepted, hidle.2]
          · simp [hfin, haccepted, hidle.2]
    · have hsends : ¬ Sends session := fun h ↦ hwork h.2
      rw [if_neg hsends, if_neg (by simp [hidle.1, hidle.2]),
        if_neg (fun h ↦ hwork (h.imp_left List.length_pos_iff.mp))]
  · have hsends : ¬ Sends session := fun h ↦ hidle h.1
    rw [if_neg hsends, if_pos ((not_and_or.mp hidle).imp_right (by simp))]

/-- A visit of the sender leaves the receiving side alone, and what it sends acknowledges
`peerSeq`. -/
theorem visit_receiving (accepts : ℕ → Bool) (session : Session) :
    let result := senderVisit accepts session
    result.session.peerSeq = session.peerSeq ∧ result.session.halfClosed = session.halfClosed ∧
      result.session.state = session.state ∧ handedPayloads result.outputs = [] ∧
      ∀ out ∈ emitted result.outputs, out.ackNr = session.peerSeq := by
  intro result
  simp only [result, senderVisit_eq]
  split_ifs
  · simp
  · simp [visited, senderHeader]
  · simp [visited]
  · simp

/-- A write of the application leaves the receiving side alone. -/
theorem addFromL7_receiving (session : Session) (flags : UInt32) (what : List UInt8) :
    (addFromL7 session flags what).peerSeq = session.peerSeq ∧
      (addFromL7 session flags what).halfClosed = session.halfClosed ∧
      (addFromL7 session flags what).state = session.state := by
  unfold addFromL7
  dsimp only
  split_ifs <;> exact ⟨rfl, rfl, rfl⟩

/-! ### A sample session -/

/-- A server with one application on port 80. -/
def sampleConfig : Config :=
  ⟨fun port ↦ if port = 80 then some [104] else none, List.replicate 16 0⟩

/-- Every queue takes what it is sent. -/
def sampleEnvironment : Environment :=
  ⟨0, 0, true, true, true, true, true, true, true, true, true⟩

/-- A short segment of the peer of the sample session. -/
def sampleSegment (peerSeqNr ackSeqNr : UInt32) (flags : UInt8) (payload : List UInt8)
    (h : payload.length < 2 ^ 31) : Segment :=
  ⟨[10, 0, 0, 2], [10, 0, 0, 1], 1000, 80, peerSeqNr, ackSeqNr, flags, 1024, 1, payload, h⟩

/-- The session that the acknowledgement of a SYN cookie created. -/
def sampleSession (peerSeq localSeq : UInt32) : Session :=
  newSession (sampleSegment peerSeq localSeq flagAck [] length_nil_lt) [104]

end MyIPNG.Tcp
