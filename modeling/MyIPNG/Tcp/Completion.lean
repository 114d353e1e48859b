import MyIPNG.Base.Reachability
import MyIPNG.Tcp.Outstanding

/-!
# A connection can always be completed

`connection_delivers` says that nothing wrong is delivered. Here is the other half: no state that a
connection reaches is stuck. As long as no application ends its stream, the queues take what the
senders send and the numbers do not run over, there are from every state steps of the senders and
deliveries of packets behind which each application has got all that the other one wrote
(`connection_never_stuck`).

A round of the proof lets the sender visit the session, when nothing is in flight, delivers what is
in flight and delivers the acknowledgement. `Outstanding` gives that the acknowledgement moves the
front of the buffer up (`exchange`), and the buffer has an end. The packets are there to be
delivered: a network that has lost what is in flight for good would leave the sender waiting, for it
has no timer.
-/

set_option autoImplicit false
set_option relaxedAutoImplicit false

namespace MyIPNG.Tcp

open Base Utils

/-! ### Runs without the end of a stream -/

/-- What can happen to a connection in which no application ends its stream, no queue refuses what a
sender sends, and the numbers of what is written do not run over. -/
def Steady (start : Side → UInt32) (stations : Side → ConnectionEnd) :
    Side × SessionEvent → Prop
  | (side, .segment environment segment) =>
    Transmitted stations (side, .segment environment segment)
  | (side, .write flags what) => flags &&& 1 = 0 ∧
    (start side).toNat + (writtenIn (stations side).trace).length + what.length < 2 ^ 32 - 1
  | (_, .visit accepts) => accepts 0 = true

theorem Steady.transmitted {start : Side → UInt32} {stations : Side → ConnectionEnd}
    {event : Side × SessionEvent} (h : Steady start stations event) :
    Transmitted stations event := by
  obtain ⟨side, event⟩ := event
  cases event with
  | segment environment segment => exact h
  | write flags what =>
    have hroom := h.2
    show (writtenIn (stations side).trace).length + what.length < 2 ^ 32 - 1
    omega
  | visit accepts => trivial

/-- One direction of such a connection. -/
def Goes (start : Side → UInt32) (mss : Side → Mss) (side : Side)
    (sending receiving : ConnectionEnd) : Prop :=
  Flows start mss side sending receiving ∧ ∀ sender, sending.state = some sender →
    ∃ acked, Outstanding (start side) sender sending.trace receiving.trace acked

section Run

variable {config : Side → Config} {sessionId : Side → UInt64} {start : Side → UInt32}
  {mss : Side → Mss} {stations : Side → ConnectionEnd} {side : Side} {event : SessionEvent}

/-- An event at the end that sends. -/
theorem Goes.sender (h : Goes start mss side (stations side) (stations side.other))
    (hback : Goes start mss side.other (stations side.other) (stations side))
    (hok : Steady start stations (side, event)) :
    Goes start mss side ((stations side).take (sessionStep (config side) (sessionId side)) event)
      (stations side.other) := by
  refine ⟨h.1.sender hback.1 hok.transmitted, ?_⟩
  obtain ⟨sender, receiver, hsender, -, -⟩ := h.1
  obtain ⟨acked, houtstanding⟩ := h.2 sender hsender
  intro next hnext
  cases event with
  | segment environment segment =>
    have hplain := hback.1.plain hok.1
    obtain ⟨_, _, -, hsame, hopen⟩ := hback.1
    obtain rfl := Option.some.inj (hsame.symm.trans hsender)
    obtain ⟨after, outputs, hstep, heffect⟩ := segment_effect (config side) environment
      (sessionId side) hplain hopen.isOpen
    have haddresses := addresses_segment (config side) environment (sessionId side) hplain
      hopen.isOpen hstep
    rw [Station.take, hsender, hstep] at hnext ⊢
    obtain rfl := Option.some.inj hnext
    exact houtstanding.sender_segment heffect haddresses hok.1
  | write flags what =>
    rw [Station.take, hsender] at hnext ⊢
    obtain rfl := Option.some.inj hnext
    exact ⟨acked, houtstanding.sender_write hok.1 (Nat.lt_of_lt_of_le hok.2 (Nat.sub_le _ _))⟩
  | visit accepts =>
    rw [Station.take, hsender] at hnext ⊢
    obtain rfl := Option.some.inj hnext
    exact ⟨acked, houtstanding.sender_visit hok⟩

/-- An event at the end that receives. -/
theorem Goes.receiver (h : Goes start mss side (stations side) (stations side.other))
    (hok : Steady start stations (side.other, event)) :
    Goes start mss side (stations side)
      ((stations side.other).take (sessionStep (config side.other) (sessionId side.other))
        event) := by
  have hflows : Flows start mss side (stations side) ((stations side.other).take
      (sessionStep (config side.other) (sessionId side.other)) event) :=
    h.1.receiver hok.transmitted
  refine ⟨hflows, ?_⟩
  have hplain : ∀ {segment : Segment}, ReadFrom (stations side).trace segment → Plain segment :=
    h.1.plain
  obtain ⟨sender, receiver, hsender, hreceiver, hdirection⟩ := h.1
  obtain ⟨acked, houtstanding⟩ := h.2 sender hsender
  intro current hcurrent
  obtain rfl := Option.some.inj (hsender.symm.trans hcurrent)
  obtain ⟨_, after, hsame, hafter, hdirection'⟩ := hflows
  obtain rfl := Option.some.inj (hsender.symm.trans hsame)
  cases event with
  | segment environment segment =>
    obtain ⟨hread, -⟩ := hok
    rw [Side.other_other] at hread
    obtain ⟨next, outputs, hstep, heffect⟩ := segment_effect (config side.other) environment
      (sessionId side.other) (hplain hread) hdirection.isOpen
    rw [Station.take, hreceiver, hstep] at hafter hdirection' ⊢
    obtain rfl := Option.some.inj hafter
    exact ⟨acked, houtstanding.receiver_segment hdirection heffect hread hdirection'⟩
  | write flags what =>
    rw [Station.take, hreceiver]
    exact ⟨acked, houtstanding.receiver_write flags what⟩
  | visit accepts =>
    rw [Station.take, hreceiver]
    exact ⟨acked, houtstanding.receiver_visit hdirection accepts⟩

/-- Every run keeps both directions. -/
theorem goes_run (h : ∀ side, Goes start mss side (stations side) (stations side.other))
    {events : List (Side × SessionEvent)}
    (hevents : Along (connectionStep config sessionId) (Steady start) stations events)
    (side : Side) :
    Goes start mss side ((run (connectionStep config sessionId) stations events).1 side)
      ((run (connectionStep config sessionId) stations events).1 side.other) :=
  link_induction h (fun _ _ _ hgoes hback hok ↦ hgoes.sender hback hok)
    (fun _ _ _ hgoes _ hok ↦ hgoes.receiver hok) hevents side

end Run

/-! ### One exchange -/

section Answer

variable {environment : Environment} {segment : Segment}

/-- The answer of the data block. -/
theorem exists_ack_deliverData (hdataOk : environment.dataOk = true)
    (hackOk : environment.ackOk = true) (hack : hasFlag segment.flags flagAck = true)
    (hdata : segment.payload ≠ []) (sessionId : UInt64) (session : Session) :
    ∃ out ∈ emitted (deliverData environment sessionId segment session).outputs,
      out.ackNr = session.peerSeq + UInt32.ofNat (acceptedLength environment segment session) ∧
        out.flags = flagAck ∧ (out.fromAddr = segment.toAddr ∧ out.toAddr = segment.fromAddr) ∧
          out.payload = [] := by
  have hpos : 0 < segment.payload.length := List.length_pos_iff.mpr hdata
  unfold deliverData
  by_cases horder : segment.peerSeqNr = session.peerSeq
  · have hlength : acceptedLength environment segment session = segment.payload.length := by
      simp [acceptedLength, handsOver, reaches, hack, horder, hdata, hdataOk, hackOk]
    rw [hlength]
    simp [horder, hpos, hdataOk, hackOk, sendAck_eq, replyHeader]
  · have hlength : acceptedLength environment segment session = 0 := by
      simp [acceptedLength, handsOver, horder]
    rw [hlength, if_neg horder]
    split_ifs
    · simp [hackOk, sendAck_eq, replyHeader]
    · simp [hackOk, sendAck_eq, replyHeader]

/-- A segment with data is answered when the queues take everything, and the answer acknowledges
what is handed over then. -/
theorem exists_ack (config : Config) (hdataOk : environment.dataOk = true)
    (hackOk : environment.ackOk = true) (hplain : Plain segment)
    (hack : hasFlag segment.flags flagAck = true) (hdata : segment.payload ≠ [])
    (sessionId : UInt64) {session : Session} (hopen : session.state ≠ .closed) :
    ∃ out ∈ emitted (runInSession config environment sessionId segment session).outputs,
      out.ackNr = session.peerSeq + UInt32.ofNat (acceptedLength environment segment session) ∧
        out.flags = flagAck ∧ (out.fromAddr = segment.toAddr ∧ out.toAddr = segment.fromAddr) ∧
          out.payload = [] := by
  have hreaches : reaches segment = true := by simp [reaches, hack]
  have hpeerSeq : (afterAck segment (touched environment segment session)).1.peerSeq =
      session.peerSeq := (afterAck_receiving segment (touched environment segment session)).1
  obtain ⟨out, hout, hnumber, hrest⟩ := exists_ack_deliverData hdataOk hackOk hack hdata sessionId
    (afterAck segment (touched environment segment session)).1
  have hlength : acceptedLength environment segment
      (afterAck segment (touched environment segment session)).1 =
      acceptedLength environment segment session := by
    rw [acceptedLength, handsOver, hpeerSeq, ← handsOver, ← acceptedLength]
  rw [hlength, hpeerSeq] at hnumber
  refine ⟨out, ?_, hnumber, hrest⟩
  rw [runInSession_eq config environment sessionId hplain hopen]
  dsimp only
  rw [if_pos hreaches]
  unfold processData
  dsimp only
  rw [if_pos rfl, emitted_append, emitted_append]
  exact List.mem_append_left _ (List.mem_append_left _ hout)

end Answer

/-- A packet that was sent can be read. -/
theorem Sendable.read {out : OutSegment} (h : Sendable out) :
    decodeSegment out.fromAddr out.toAddr (tcpPacket out) =
      some (decoded out (h.short.trans_lt (by decide))) :=
  decodeSegment_tcpPacket out h.fromAddr h.toAddr (by have hshort := h.short; omega)

/-! ### One exchange -/

section Exchange

variable (config : Side → Config) (sessionId : Side → UInt64) {start : Side → UInt32}
  {mss : Side → Mss} {stations : Side → ConnectionEnd} {side : Side} {sender : Session} {acked : ℕ}

/-- What is in flight is delivered. Behind that the receiver has got more than the sender has
forgotten, and it has acknowledged all that it has got. -/
theorem deliver_flying (h : ∀ side, Goes start mss side (stations side) (stations side.other))
    (hsender : (stations side).state = some sender) (hflying : sender.inFlight ≠ 0)
    (houtstanding : Outstanding (start side) sender (stations side).trace
      (stations side.other).trace acked) :
    ∃ packet, Steady start stations (side.other, .segment sampleEnvironment packet) ∧
      let after := ((connectionStep config sessionId stations
        (side.other, .segment sampleEnvironment packet)).1 side.other).trace
      acked < (handedBytes after).length ∧ ∃ ack ∈ emittedIn after, Sendable ack ∧
        ack.ackNr = start side + UInt32.ofNat (handedBytes after).length ∧
          ack.flags = flagAck := by
  obtain ⟨out, hout, hsendable, hseqNr, hlength, hack⟩ := houtstanding.flying hflying
  have hread : ReadFrom (stations side).trace
      (decoded out (hsendable.short.trans_lt (by decide))) := ⟨out, hout, hsendable.read⟩
  set packet := decoded out (hsendable.short.trans_lt (by decide)) with hpacket
  have hsome : packet.payload ≠ [] := by
    intro hempty
    exact hflying (hlength.symm.trans (congrArg List.length hempty))
  have hplain : Plain packet := (h side).1.plain hread
  obtain ⟨_, receiver, hsame, hreceiver, hdirection⟩ := (h side).1
  obtain rfl := Option.some.inj (hsame.symm.trans hsender)
  have hexpects := houtstanding.expects hdirection
  obtain ⟨next, outputs, hstep, heffect⟩ := segment_effect (config side.other) sampleEnvironment
    (sessionId side.other) hplain hdirection.isOpen
  have hafter : ((connectionStep config sessionId stations
      (side.other, .segment sampleEnvironment packet)).1 side.other).trace =
      (stations side.other).trace ++ [(.segment sampleEnvironment packet, outputs)] := by
    rw [connectionStep, linkStep_self, Station.take, hreceiver, hstep]
  have hgrown : (handedBytes ((stations side.other).trace ++
      [(.segment sampleEnvironment packet, outputs)])).length =
      (handedBytes (stations side.other).trace).length +
        acceptedLength sampleEnvironment packet receiver := by
    rw [handedBytes_append, List.length_append, handedBytes, handedBytes,
      handedIn_segment heffect.outputs, acceptedLength]
    have hackOk : sampleEnvironment.ackOk = true := rfl
    by_cases hhands : handsOver sampleEnvironment packet receiver = true
    · simp [hhands, hackOk]
    · simp [hhands]
  refine ⟨packet, ⟨by rwa [Side.other_other], ?_⟩, ?_⟩
  · rw [hreceiver]
    exact fun _ ↦ rfl
  · simp only [hafter, hgrown]
    constructor
    · -- either it had got more already, or the packet is the next one
      by_cases hfront : (handedBytes (stations side.other).trace).length = acked
      · have horder : packet.peerSeqNr = receiver.peerSeq := by
          rw [hexpects, hfront, ← houtstanding.number, ← hseqNr]
          rfl
        have haccepted : acceptedLength sampleEnvironment packet receiver =
            packet.payload.length := by
          have hreaches : reaches packet = true := by
            simp only [reaches, hpacket, decoded, hack, Bool.true_or]
          simp [acceptedLength, handsOver, hreaches, horder, hsome, sampleEnvironment]
        have hpos := List.length_pos_iff.mpr hsome
        omega
      · have hacked := houtstanding.acked_le
        omega
    · obtain ⟨ack, hmem, hnumber, hflags, ⟨hfrom, hto⟩, hempty⟩ := exists_ack (config side.other)
        (rfl : sampleEnvironment.dataOk = true) (rfl : sampleEnvironment.ackOk = true) hplain hack
        hsome (sessionId side.other) hdirection.isOpen
      refine ⟨ack, ?_, ⟨?_, ?_, ?_⟩, ?_, hflags⟩
      · have houtputs : (runInSession (config side.other) sampleEnvironment (sessionId side.other)
            packet receiver).outputs = outputs := congrArg Prod.snd hstep
        rw [emittedIn_append, emittedIn_single, ← houtputs]
        exact List.mem_append_right _ hmem
      · rw [hfrom]
        exact hsendable.toAddr
      · rw [hto]
        exact hsendable.fromAddr
      · rw [hempty]
        exact Nat.zero_le _
      · rw [hnumber, hexpects, add_ofNat_add]

/-- The acknowledgement of all that is handed over, at a sender that has something in flight. -/
theorem deliver_ack (h : ∀ side, Goes start mss side (stations side) (stations side.other))
    (hsender : (stations side).state = some sender) (hflying : sender.inFlight ≠ 0)
    (houtstanding : Outstanding (start side) sender (stations side).trace
      (stations side.other).trace acked)
    (hahead : acked < (handedBytes (stations side.other).trace).length)
    {ack : OutSegment} (hmem : ack ∈ emittedIn (stations side.other).trace)
    (hsendable : Sendable ack)
    (hnumber : ack.ackNr = start side +
      UInt32.ofNat (handedBytes (stations side.other).trace).length)
    (hflags : ack.flags = flagAck) :
    ∃ packet next, Steady start stations (side, .segment sampleEnvironment packet) ∧
      ((connectionStep config sessionId stations
        (side, .segment sampleEnvironment packet)).1 side).state = some next ∧
      next.inFlight = 0 ∧ next.localSeq = start side +
        UInt32.ofNat (handedBytes (stations side.other).trace).length := by
  have hread : ReadFrom (stations side.other).trace
      (decoded ack (hsendable.short.trans_lt (by decide))) := ⟨ack, hmem, hsendable.read⟩
  set packet := decoded ack (hsendable.short.trans_lt (by decide)) with hpacket
  have hplain : Plain packet := (h side.other).1.plain hread
  have hroom := houtstanding.room
  have hhanded := houtstanding.handed_le
  have hisAck : hasFlag packet.flags flagAck = true := by
    show hasFlag ack.flags flagAck = true
    rw [hflags]
    decide
  have hopen : sender.state ≠ .closed := by
    obtain ⟨_, receiver, -, hsame, hdirection⟩ := (h side.other).1
    rw [Side.other_other, hsender] at hsame
    obtain rfl := Option.some.inj hsame
    exact hdirection.isOpen
  obtain ⟨next, outputs, hstep, heffect⟩ := segment_effect (config side) sampleEnvironment
    (sessionId side) hplain hopen
  -- what the receiver has got beyond the front is not more than what is in flight
  have hreach : (handedBytes (stations side.other).trace).length - acked ≤ sender.inFlight := by
    rcases houtstanding.edge with hsame | ⟨out, hout, hsome, hfront, hlength⟩
    · omega
    · have hshort := (houtstanding.front out hout hsome hfront).2 hflying
      omega
  have hafter : (afterAck packet sender).1 = (ackPending sender ack.ackNr).1 := by
    rw [afterAck, if_pos hisAck]
    rfl
  have hacked : (ackPending sender ack.ackNr).1.inFlight = 0 ∧
      (ackPending sender ack.ackNr).1.localSeq = ack.ackNr := by
    have hle : sender.localSeq ≤ ack.ackNr := by
      rw [houtstanding.number, hnumber, number_le_iff (by omega) (by omega)]
      exact Nat.le_of_lt hahead
    have hoffset : offset sender.localSeq ack.ackNr ≤ sender.inFlight := by
      rw [houtstanding.number, hnumber, offset_numbers (Nat.le_of_lt hahead) (by omega)]
      exact hreach
    rcases ackPending_cases sender ack.ackNr with ⟨-, -, heq⟩ | ⟨-, hlong, -⟩ | ⟨hnot, -⟩
    · rw [heq]
      exact ⟨rfl, rfl⟩
    · omega
    · exact absurd hle hnot
  refine ⟨packet, next, ⟨hread, ?_⟩, ?_, ?_, ?_⟩
  · rw [hsender]
    exact fun _ ↦ rfl
  · rw [connectionStep, linkStep_self, Station.take, hsender, hstep]
  · rw [heffect.sending.inFlight_eq, hafter]
    exact hacked.1
  · rw [heffect.sending.localSeq_eq, hafter, hacked.2, hnumber]

/-- A visit of a sender that waits for nothing and has more to send. -/
theorem visit_flies (houtstanding : Outstanding (start side) sender (stations side).trace
      (stations side.other).trace acked) (hidle : sender.inFlight = 0)
    (hmore : acked < (writtenIn (stations side).trace).length) :
    (senderVisit (fun _ ↦ true) sender).session.inFlight ≠ 0 := by
  have hdata : visitPayload sender ≠ [] := by
    have hpositive := sender.mss.positive
    rw [← List.length_pos_iff, visitPayload, houtstanding.data_eq, List.length_take,
      List.length_drop]
    omega
  have hsends : Sends sender := ⟨⟨hidle, houtstanding.notEnded.2⟩, Or.inl hdata⟩
  rw [senderVisit_eq, if_pos hsends, if_neg (by simp)]
  show (visitPayload sender).length ≠ 0
  exact fun hempty ↦ hdata (List.length_eq_zero_iff.mp hempty)

end Exchange

/-! ### Completion -/

/-- The event is a step of a sender or a delivery. -/
def NoWrite : Side × SessionEvent → Prop
  | (_, .write _ _) => False
  | _ => True

/-- What may happen while a connection is completed. -/
def Completing (start : Side → UInt32) (stations : Side → ConnectionEnd)
    (event : Side × SessionEvent) : Prop := Steady start stations event ∧ NoWrite event

/-- How much of what was written a sender still has in its buffer. -/
def remaining (start : Side → UInt32) (side : Side) (stations : Side → ConnectionEnd) : ℕ :=
  (writtenIn (stations side).trace).length -
    match (stations side).state with
    | some sender => offset (start side) sender.localSeq
    | none => 0

section Completion

variable (config : Side → Config) (sessionId : Side → UInt64) {start : Side → UInt32}
  {mss : Side → Mss} {stations : Side → ConnectionEnd} {side : Side} {sender : Session} {acked : ℕ}

/-- Both directions go on. -/
def Both (start : Side → UInt32) (mss : Side → Mss) (stations : Side → ConnectionEnd) : Prop :=
  ∀ side, Goes start mss side (stations side) (stations side.other)

theorem both_step (h : Both start mss stations) {event : Side × SessionEvent}
    (hok : Steady start stations event) :
    Both start mss (connectionStep config sessionId stations event).1 := by
  have hevents : Along (connectionStep config sessionId) (Steady start) stations [event] :=
    ⟨hok, trivial⟩
  exact fun side ↦ goes_run h hevents side

theorem remaining_eq (hsender : (stations side).state = some sender)
    (houtstanding : Outstanding (start side) sender (stations side).trace
      (stations side.other).trace acked) :
    remaining start side stations = (writtenIn (stations side).trace).length - acked := by
  have hroom := houtstanding.room
  have hhanded := houtstanding.handed_le
  have hacked := houtstanding.acked_le
  rw [remaining, hsender]
  show _ - offset (start side) sender.localSeq = _
  rw [houtstanding.number, offset_add _ (by omega)]

/-- A step that is no write leaves what was written alone. -/
theorem writtenIn_step (stations : Side → ConnectionEnd) {event : Side × SessionEvent}
    (h : NoWrite event) (side : Side) :
    writtenIn ((connectionStep config sessionId stations event).1 side).trace =
      writtenIn (stations side).trace := by
  obtain ⟨at', event⟩ := event
  by_cases hside : side = at'
  · subst hside
    rw [connectionStep, linkStep_self, Station.take]
    cases event with
    | segment environment segment => exact writtenIn_segment _ environment segment _
    | write flags what => exact absurd h id
    | visit accepts => exact writtenIn_visit _ accepts _
  · rw [connectionStep, linkStep_other _ hside]

/-- What was handed over stays handed over. -/
theorem handedBytes_step (stations : Side → ConnectionEnd) (event : Side × SessionEvent)
    (side : Side) :
    handedBytes (stations side).trace <+:
      handedBytes ((connectionStep config sessionId stations event).1 side).trace := by
  obtain ⟨at', event⟩ := event
  by_cases hside : side = at'
  · subst hside
    rw [connectionStep, linkStep_self, Station.take, handedBytes_append]
    exact List.prefix_append _ _
  · have hkept : (connectionStep config sessionId stations (at', event)).1 side = stations side :=
      linkStep_other _ hside _
    exact hkept ▸ List.prefix_refl _

/-- The place of the front is the one that the sender's number names. -/
theorem Outstanding.unique {start : UInt32} {sent got : Trace} {place : ℕ}
    (h : Outstanding start sender sent got acked)
    (hnumber : sender.localSeq = start + UInt32.ofNat place) (hplace : place < 2 ^ 32) :
    acked = place := by
  have hroom := h.room
  have hhanded := h.handed_le
  have hacked := h.acked_le
  exact (add_ofNat_inj start (by omega) hplace).mp (h.number.symm.trans hnumber)

/-- An exchange leaves less in the buffer. -/
theorem exchange (h : Both start mss stations) (hsender : (stations side).state = some sender)
    (hflying : sender.inFlight ≠ 0)
    (houtstanding : Outstanding (start side) sender (stations side).trace
      (stations side.other).trace acked) :
    CanReach (connectionStep config sessionId) (Completing start) stations fun next ↦
      Both start mss next ∧ remaining start side next <
        (writtenIn (stations side).trace).length - acked := by
  have hroom := houtstanding.room
  obtain ⟨packet, hpacket, hahead, ack, hmem, hsendable, hnumber, hflags⟩ :=
    deliver_flying config sessionId h hsender hflying houtstanding
  apply CanReach.next ⟨hpacket, trivial⟩
  have hboth : Both start mss _ := both_step config sessionId h hpacket
  have hwrite : NoWrite (side.other, .segment sampleEnvironment packet) := trivial
  have hwritten := writtenIn_step config sessionId stations hwrite side
  have hstays : (connectionStep config sessionId stations
      (side.other, .segment sampleEnvironment packet)).1 side = stations side :=
    linkStep_other stations side.other_ne.symm _
  generalize (connectionStep config sessionId stations
    (side.other, .segment sampleEnvironment packet)).1 = after at *
  have hsender' : (after side).state = some sender := by rw [hstays, hsender]
  obtain ⟨place, houtstanding'⟩ := (hboth side).2 sender hsender'
  have hplace := houtstanding.acked_le.trans houtstanding.handed_le
  obtain rfl := houtstanding'.unique houtstanding.number (by omega)
  obtain ⟨answer, next, hanswer, hnext, -, hfront⟩ := deliver_ack config sessionId hboth hsender'
    hflying houtstanding' hahead hmem hsendable hnumber hflags
  apply CanReach.next ⟨hanswer, trivial⟩
  apply CanReach.here
  have hfinal := both_step config sessionId hboth hanswer
  refine ⟨hfinal, ?_⟩
  obtain ⟨front, hlast⟩ := (hfinal side).2 next hnext
  have hhanded := houtstanding'.handed_le
  have hroom' := houtstanding'.room
  have hplaced := hlast.unique hfront (by omega)
  have hkept := writtenIn_step config sessionId after
    (show NoWrite (side, .segment sampleEnvironment answer) from trivial) side
  rw [remaining_eq hnext hlast, hkept, hwritten, hplaced]
  rw [hwritten] at hhanded
  omega

/-- As long as something is missing, one can get on. -/
theorem progress (h : Both start mss stations)
    (hmissing : handedBytes (stations side.other).trace ≠ writtenIn (stations side).trace) :
    CanReach (connectionStep config sessionId) (Completing start) stations fun next ↦
      Both start mss next ∧ remaining start side next < remaining start side stations := by
  obtain ⟨sender, receiver, hsender, -, hdirection⟩ := (h side).1
  obtain ⟨acked, houtstanding⟩ := (h side).2 sender hsender
  rw [remaining_eq hsender houtstanding]
  by_cases hidle : sender.inFlight = 0
  · have hmore : acked < (writtenIn (stations side).trace).length := by
      have hshorter : (handedBytes (stations side.other).trace).length ≠
          (writtenIn (stations side).trace).length :=
        fun hlength ↦ hmissing (hdirection.isPrefix.eq_of_length hlength)
      have hacked := houtstanding.acked_le
      have hhanded := houtstanding.handed_le
      omega
    have hok : Steady start stations (side, .visit fun _ ↦ true) := rfl
    apply CanReach.next ⟨hok, trivial⟩
    have hboth := both_step config sessionId h hok
    have hkept := writtenIn_step config sessionId stations
      (show NoWrite (side, .visit fun _ ↦ true) from trivial) side
    have hafter : ((connectionStep config sessionId stations
        (side, .visit fun _ ↦ true)).1 side).state =
        some (senderVisit (fun _ ↦ true) sender).session := by
      rw [connectionStep, linkStep_self, Station.take, hsender]
      rfl
    have hvisited : Outstanding (start side) (senderVisit (fun _ ↦ true) sender).session _ _
        acked := houtstanding.sender_visit rfl
    obtain ⟨place, houtstanding'⟩ := (hboth side).2 _ hafter
    have hplace := houtstanding.acked_le.trans houtstanding.handed_le
    have hroom := houtstanding.room
    obtain rfl := houtstanding'.unique hvisited.number (by omega)
    have hexchange := exchange config sessionId hboth hafter
      (visit_flies houtstanding hidle hmore) houtstanding'
    rwa [hkept] at hexchange
  · exact exchange config sessionId h hsender hidle houtstanding

/-- One direction can be completed. -/
theorem complete_side (h : Both start mss stations) (side : Side) :
    CanReach (connectionStep config sessionId) (Completing start) stations fun next ↦
      Both start mss next ∧
        handedBytes (next side.other).trace = writtenIn (next side).trace :=
  canReach_of_measure (remaining start side)
    (fun _ hboth hmissing ↦ progress config sessionId hboth hmissing) h

/-- A direction that is complete stays so while the other one is completed. -/
theorem complete_step (h : Both start mss stations ∧
      handedBytes (stations side.other).trace = writtenIn (stations side).trace)
    {event : Side × SessionEvent} (hok : Completing start stations event) :
    let next := (connectionStep config sessionId stations event).1
    Both start mss next ∧ handedBytes (next side.other).trace = writtenIn (next side).trace := by
  intro next
  have hboth : Both start mss next := both_step config sessionId h.1 hok.1
  refine ⟨hboth, ?_⟩
  obtain ⟨sender, receiver, -, -, hdirection⟩ := (hboth side).1
  have hwritten := writtenIn_step config sessionId stations hok.2 side
  have hgrown := (handedBytes_step config sessionId stations event side.other).length_le
  apply hdirection.isPrefix.eq_of_length
  apply le_antisymm hdirection.isPrefix.length_le
  rw [h.2] at hgrown
  rwa [hwritten]

/-- Both directions can be completed. -/
theorem complete_both (h : Both start mss stations) :
    CanReach (connectionStep config sessionId) (Completing start) stations fun next ↦
      ∀ side : Side, handedBytes (next side.other).trace = writtenIn (next side).trace := by
  apply (complete_side config sessionId h .near).trans
  intro middle hmiddle
  have hfar := (complete_side config sessionId hmiddle.1 .far).keeps hmiddle
    fun _ _ hcomplete hok ↦ complete_step config sessionId hcomplete hok
  obtain ⟨events, hevents, hreached, hnear⟩ := hfar
  refine ⟨events, hevents, fun side ↦ ?_⟩
  cases side with
  | near => exact hnear.2
  | far => exact hreached.2

end Completion

/-- Behind the handshake nothing is outstanding. -/
theorem Matched.both {sessions : Side → Session} (h : Matched sessions)
    (haddresses : ∀ side, (sessions side).localAddr.length = 4 ∧
      (sessions side).peerAddr.length = 4)
    (hopen : ∀ side, (sessions side).l7SendFin = false) (config : Side → Config) :
    Both (fun side ↦ (sessions side).localSeq) (fun side ↦ (sessions side).mss)
      fun side ↦ .start (some (sessions side)) := by
  intro side
  refine ⟨h.flows config side, fun sender hsender ↦ ⟨0, ?_⟩⟩
  rw [← Option.some.inj hsender]
  have hfresh := h.fresh side
  refine ⟨haddresses side, ⟨hopen side, hfresh.finSent_eq⟩, UInt32.toNat_lt _, ?_,
    hfresh.data_eq, le_refl _, le_refl _, List.forall_mem_nil _, List.forall_mem_nil _,
    fun hflying ↦ absurd hfresh.inFlight_eq hflying, Or.inl rfl, List.forall_mem_nil _⟩
  exact (UInt32.add_zero _).symm

/-- No state of a connection is stuck. Assumes: two sessions behind their handshake with addresses
of four bytes, and a run in which no application ends its stream, no queue refuses what a sender
sends, and the numbers do not run over. Then steps of the senders and deliveries of packets lead
from the state behind the run to one in which each application has got all that the other one
wrote. -/
theorem connection_never_stuck (config : Side → Config) (sessionId : Side → UInt64)
    {sessions : Side → Session} (hmatched : Matched sessions)
    (haddresses : ∀ side, (sessions side).localAddr.length = 4 ∧
      (sessions side).peerAddr.length = 4)
    (hopen : ∀ side, (sessions side).l7SendFin = false) {events : List (Side × SessionEvent)}
    (hevents : Along (connectionStep config sessionId)
      (Steady fun side ↦ (sessions side).localSeq)
      (fun side ↦ .start (some (sessions side))) events) :
    CanReach (connectionStep config sessionId)
      (Completing fun side ↦ (sessions side).localSeq)
      (run (connectionStep config sessionId) (fun side ↦ .start (some (sessions side))) events).1
      fun final ↦ ∀ side : Side, handedBytes (final side.other).trace =
        writtenIn (final side).trace :=
  complete_both config sessionId (goes_run (hmatched.both haddresses hopen config) hevents)

/-- A run that stops with a segment in flight and one more byte behind it. -/
theorem connection_never_stuck_in_flight :
    let start : Side → UInt32 := fun side ↦ (sampleEnds side).localSeq
    let events : List (Side × SessionEvent) := [(.near, .write 0 [1, 2, 3]),
      (.near, .visit fun _ ↦ true), (.far, .write 0 [7]), (.near, .write 0 [4])]
    let reached := (run (connectionStep (fun _ ↦ sampleConfig) fun _ ↦ 0)
      (fun side ↦ .start (some (sampleEnds side))) events).1
    handedBytes (reached .far).trace = [] ∧ writtenIn (reached .near).trace = [1, 2, 3, 4] ∧
      CanReach (connectionStep (fun _ ↦ sampleConfig) fun _ ↦ 0) (Completing start) reached
        fun final ↦ ∀ side : Side,
          handedBytes (final side.other).trace = writtenIn (final side).trace := by
  intro start events reached
  have haddresses : ∀ side, (sampleEnds side).localAddr.length = 4 ∧
      (sampleEnds side).peerAddr.length = 4 := by
    rintro (_ | _) <;> exact ⟨rfl, rfl⟩
  have hopen : ∀ side, (sampleEnds side).l7SendFin = false := by
    rintro (_ | _) <;> rfl
  have hevents : Along (connectionStep (fun _ ↦ sampleConfig) fun _ ↦ 0) (Steady start)
      (fun side ↦ .start (some (sampleEnds side))) events :=
    ⟨⟨rfl, by decide +kernel⟩, rfl, ⟨rfl, by decide +kernel⟩, ⟨rfl, by decide +kernel⟩, trivial⟩
  exact ⟨by decide +kernel, by decide +kernel, connection_never_stuck (fun _ ↦ sampleConfig)
    (fun _ ↦ 0) matched_sampleEnds haddresses hopen hevents⟩

end MyIPNG.Tcp
