import MyIPNG.Base.Link
import MyIPNG.Tcp.Stream
import MyIPNG.Tcp.Wire

/-!
# Two servers and the network between them

The results on one session take the segments that reach it as they come. Here both ends of a
connection are sessions of the server, and what reaches one of them is what the other one put out.
The network loses, delays, repeats and reorders packets: at any time it may deliver to one end any
packet that the other end has ever sent, as `run_in` decodes it.

`Direction` ties the sender of one direction to the receiver of it. What the receiving application
has got is the beginning of what the sending one wrote, every segment with data that was sent begins
at a place that was already handed over when it was sent, and every acknowledgement that was sent
names a place that is handed over. `connection_delivers` draws from it that in every state that the
connection reaches each application has got a prefix of what the other one wrote, and that the rest
is still in the buffer of the sender as long as that has not sent its FIN.

The receiving application must not get a payload twice; so its acknowledgement must not be refused
once the payload is handed over (`AckedWhenHanded`).
-/

set_option autoImplicit false
set_option relaxedAutoImplicit false

namespace MyIPNG.Tcp

open Base Utils

/-! ### The connection -/

/-- An end of a connection. -/
abbrev ConnectionEnd := Station (Option Session) SessionEvent Output

/-- The two ends of a connection take their events. -/
def connectionStep (config : Side → Config) (sessionId : Side → UInt64) :
    (Side → ConnectionEnd) → Side × SessionEvent → (Side → ConnectionEnd) × List (Side × Output) :=
  linkStep fun side ↦ sessionStep (config side) (sessionId side)

/-- The segment is a packet that was sent, as the receiver decodes it. -/
def ReadFrom (sent : Trace) (segment : Segment) : Prop :=
  ∃ out ∈ emittedIn sent, decodeSegment out.fromAddr out.toAddr (tcpPacket out) = some segment

/-- What can happen to a connection. A segment was sent by the other end, and when its payload is
handed over the acknowledgement can be sent; an application writes less than the sequence space. -/
def Transmitted (stations : Side → ConnectionEnd) : Side × SessionEvent → Prop
  | (side, .segment environment segment) => ReadFrom (stations side.other).trace segment ∧
      AckedWhenHanded (stations side).state (.segment environment segment)
  | (side, .write _ what) => (writtenIn (stations side).trace).length + what.length < 2 ^ 32 - 1
  | (_, .visit _) => True

/-- What the application has got, in one piece. -/
def handedBytes (trace : Trace) : List UInt8 := joined (handedIn trace)

/-- Two sessions behind their handshake: nothing was written or received, and each one expects the
number from which the other one counts. -/
structure Matched (sessions : Side → Session) : Prop where
  fresh : ∀ side, Fresh (sessions side)
  notHalfClosed : ∀ side, (sessions side).halfClosed = false
  peerSeq_eq : ∀ side, (sessions side).peerSeq = (sessions side.other).localSeq

/-! ### Packets read back -/

/-- A packet that decodes, decodes to the fields it was made from. -/
theorem decodeSegment_fields {out : OutSegment} {segment : Segment}
    (h : decodeSegment out.fromAddr out.toAddr (tcpPacket out) = some segment) :
    segment.peerSeqNr = out.seqNr ∧ segment.ackSeqNr = out.ackNr ∧ segment.flags = out.flags ∧
      segment.payload = out.payload := by
  unfold tcpPacket at h
  generalize tcpUdpChecksum out.fromAddr out.toAddr (packetWith out 0) 6 = checksum at h
  rw [decodeSegment, headerSize_packetWith] at h
  split_ifs at h
  rw [← Option.some.inj h]
  exact ⟨seqNr_packetWith out checksum, ackNr_packetWith out checksum, rfl, rfl⟩

/-! ### Histories -/

theorem handedBytes_append (first second : Trace) :
    handedBytes (first ++ second) = handedBytes first ++ handedBytes second := by
  rw [handedBytes, handedIn_append, joined_append, handedBytes, handedBytes]

theorem emittedIn_single (event : SessionEvent) (outputs : List Output) :
    emittedIn [(event, outputs)] = emitted outputs := by
  simp [emittedIn]

/-- Only a write adds to what was written. -/
theorem writtenIn_segment (sent : Trace) (environment : Environment) (segment : Segment)
    (outputs : List Output) :
    writtenIn (sent ++ [(.segment environment segment, outputs)]) = writtenIn sent := by
  rw [writtenIn_append]
  simp [writtenIn]

@[inherit_doc writtenIn_segment]
theorem writtenIn_visit (sent : Trace) (accepts : ℕ → Bool) (outputs : List Output) :
    writtenIn (sent ++ [(.visit accepts, outputs)]) = writtenIn sent := by
  rw [writtenIn_append]
  simp [writtenIn]

theorem writtenIn_write (sent : Trace) (flags : UInt32) (what : List UInt8)
    (outputs : List Output) :
    writtenIn (sent ++ [(.write flags what, outputs)]) = writtenIn sent ++ what := by
  rw [writtenIn_append]
  simp [writtenIn]

/-! ### One direction -/

/-- What holds between the sender and the receiver of one direction, and their histories. As long as
the sender has not sent its FIN, it has forgotten only bytes that are handed over. -/
structure Direction (start : UInt32) (mss : Mss) (sender receiver : Session) (sent got : Trace) :
    Prop where
  short : (writtenIn sent).length < 2 ^ 32 - 1
  stream : ∃ dropped, StreamInvariant start mss sender sent dropped ∧
    (sender.finSent = false → dropped ≤ (handedBytes got).length)
  plain : ∀ out ∈ emittedIn sent, hasFlag out.flags flagSyn = false ∧
    hasFlag out.flags flagRst = false
  offered : ∀ out ∈ emittedIn sent, out.payload ≠ [] →
    ∃ position ≤ (handedBytes got).length, out.seqNr = start + UInt32.ofNat position ∧
      out.payload = slice (writtenIn sent) position out.payload.length
  isOpen : receiver.state ≠ .closed
  isPrefix : handedBytes got <+: writtenIn sent
  counted : receiver.peerSeq =
    start + UInt32.ofNat ((handedBytes got).length + if receiver.halfClosed then 1 else 0)
  closed : receiver.halfClosed = true → sender.finSent = true
  acks : ∀ out ∈ emittedIn got, sender.finSent = true ∨
    ∃ count ≤ (handedBytes got).length, out.ackNr = start + UInt32.ofNat count

/-- What an acknowledgement makes of `localSeq` and of the FIN flag. -/
theorem localSeq_afterAck (segment : Segment) (session : Session) :
    (afterAck segment session).1.finSent = session.finSent ∧
      ((afterAck segment session).1.localSeq = session.localSeq ∨
        (afterAck segment session).1.localSeq = segment.ackSeqNr) := by
  unfold afterAck
  split_ifs
  · rcases ackPending_cases session segment.ackSeqNr with ⟨-, -, heq⟩ | ⟨-, -, heq⟩ | ⟨-, heq⟩
    · rw [heq]
      exact ⟨rfl, Or.inr rfl⟩
    · rw [heq]
      exact ⟨rfl, Or.inl rfl⟩
    · rw [heq]
      exact ⟨rfl, Or.inl rfl⟩
  · exact ⟨rfl, Or.inl rfl⟩

/-- What a visit of the sender puts out is the one segment that it has to send. -/
theorem emitted_senderVisit {accepts : ℕ → Bool} {session : Session} {out : OutSegment}
    (h : out ∈ emitted (senderVisit accepts session).outputs) :
    Sends session ∧ out = senderHeader session (visitPayload session) (visitFin session) := by
  rw [senderVisit_eq] at h
  split_ifs at h with hsends hrefused haccepted
  · exact absurd h List.not_mem_nil
  · exact ⟨hsends, List.mem_singleton.mp h⟩
  · exact absurd h List.not_mem_nil
  · exact absurd h List.not_mem_nil

/-- A FIN that was sent stays sent. -/
theorem finSent_senderVisit (accepts : ℕ → Bool) {session : Session}
    (h : session.finSent = true) :
    (senderVisit accepts session).session.finSent = true := by
  rw [senderVisit_eq, if_neg fun hsends ↦ absurd hsends.1.2 (by simp [h])]
  exact h

section Sender

variable {start : UInt32} {mss : Mss} {sender receiver next : Session} {sent got : Trace}

/-- A segment at the sender acts through its acknowledgement, which names a place that is handed
over. -/
theorem Direction.sender_segment (h : Direction start mss sender receiver sent got)
    {environment : Environment} {segment : Segment} {outputs : List Output}
    (heffect : SegmentEffect environment segment sender next outputs)
    (hread : ReadFrom got segment) :
    Direction start mss next receiver (sent ++ [(.segment environment segment, outputs)]) got := by
  obtain ⟨out, hout, hdecoded⟩ := hread
  obtain ⟨-, hackNr, -, -⟩ := decodeSegment_fields hdecoded
  obtain ⟨dropped, hstream, hdropped⟩ := h.stream
  obtain ⟨dropped', hstream'⟩ := hstream.segment heffect
  obtain ⟨hfinKept, hlocalSeq⟩ := localSeq_afterAck segment sender
  have hfin : next.finSent = sender.finSent := heffect.sending.finSent_eq.trans hfinKept
  have hshort := h.short
  have hhanded := h.isPrefix.length_le
  have hwritten := writtenIn_segment sent environment segment outputs
  refine ⟨by rwa [hwritten], ⟨dropped', hstream', fun hnotFin ↦ ?_⟩, ?_, ?_, h.isOpen,
    by rw [hwritten]; exact h.isPrefix, h.counted, fun hclosed ↦ hfin.trans (h.closed hclosed),
    by rw [hfin]; exact h.acks⟩
  · -- the number that is left is the old one or that of the acknowledgement
    have hnumber' : next.localSeq = start + UInt32.ofNat dropped' := by
      simpa [hnotFin] using hstream'.localSeq_eq
    have hnumber : sender.localSeq = start + UInt32.ofNat dropped := by
      simpa [← hfin, hnotFin] using hstream.localSeq_eq
    have hle' := hstream'.dropped_le
    have hle := hstream.dropped_le
    rw [hwritten] at hle'
    rw [heffect.sending.localSeq_eq] at hnumber'
    rcases hlocalSeq with hkept | hacked
    · have hsame := (add_ofNat_inj start (by omega) (by omega)).mp
        (hnumber'.symm.trans (hkept.trans hnumber))
      rw [hsame]
      exact hdropped (hfin ▸ hnotFin)
    · obtain ⟨count, hcount, hcounted⟩ := (h.acks out hout).resolve_left (by simp [← hfin, hnotFin])
      have hsame := (add_ofNat_inj start (by omega) (by omega)).mp
        (hnumber'.symm.trans (hacked.trans (hackNr.trans hcounted)))
      omega
  · rw [emittedIn_append, emittedIn_single]
    intro sentOut hsentOut
    rcases List.mem_append.mp hsentOut with hold | hnew
    · exact h.plain sentOut hold
    · rw [(heffect.outputs.acks sentOut hnew).1.2]
      exact ⟨by decide, by decide⟩
  · rw [emittedIn_append, emittedIn_single, hwritten]
    intro sentOut hsentOut hpayload
    rcases List.mem_append.mp hsentOut with hold | hnew
    · exact h.offered sentOut hold hpayload
    · exact absurd (heffect.outputs.acks sentOut hnew).1.1 hpayload

/-- A write adds to the end of the stream. -/
theorem Direction.sender_write (h : Direction start mss sender receiver sent got) (flags : UInt32)
    {what : List UInt8} (hshort : (writtenIn sent).length + what.length < 2 ^ 32 - 1) :
    Direction start mss (addFromL7 sender flags what) receiver
      (sent ++ [(.write flags what, [])]) got := by
  obtain ⟨dropped, hstream, hdropped⟩ := h.stream
  have hwritten := writtenIn_write sent flags what []
  have hfin : (addFromL7 sender flags what).finSent = sender.finSent := by
    unfold addFromL7
    dsimp only
    split_ifs <;> rfl
  have hemitted : emittedIn (sent ++ [(.write flags what, [])]) = emittedIn sent := by
    rw [emittedIn_append, emittedIn_single, emitted_nil, List.append_nil]
  refine ⟨?_, ⟨dropped, hstream.write flags what, fun hnotFin ↦ hdropped (hfin ▸ hnotFin)⟩, ?_, ?_,
    h.isOpen, ?_, h.counted, fun hclosed ↦ hfin.trans (h.closed hclosed),
    by rw [hfin]; exact h.acks⟩
  · rw [hwritten, List.length_append]
    exact hshort
  · rw [hemitted]
    exact h.plain
  · rw [hemitted, hwritten]
    intro out hout hpayload
    obtain ⟨position, hposition, hnumber, hslice⟩ := h.offered out hout hpayload
    refine ⟨position, hposition, hnumber, ?_⟩
    rwa [slice_append_left _ _ _ _
      (length_le_of_slice hslice (hposition.trans h.isPrefix.length_le))]
  · rw [hwritten]
    exact h.isPrefix.trans (List.prefix_append _ _)

/-- A visit of the sender sends from the first byte that it has not forgotten, which is handed over
or the next one. -/
theorem Direction.sender_visit (h : Direction start mss sender receiver sent got)
    (accepts : ℕ → Bool) :
    Direction start mss (senderVisit accepts sender).session receiver
      (sent ++ [(.visit accepts, (senderVisit accepts sender).outputs)]) got := by
  obtain ⟨dropped, hstream, hdropped⟩ := h.stream
  have hwritten := writtenIn_visit sent accepts (senderVisit accepts sender).outputs
  have hfin : (senderVisit accepts sender).session.finSent = false → sender.finSent = false := by
    intro hnotFin
    by_contra hsent
    exact absurd (finSent_senderVisit accepts (by simpa using hsent)) (by simp [hnotFin])
  refine ⟨by rw [hwritten]; exact h.short, ⟨dropped, hstream.visit accepts,
    fun hnotFin ↦ hdropped (hfin hnotFin)⟩, ?_, ?_, h.isOpen, by rw [hwritten]; exact h.isPrefix,
    h.counted, fun hclosed ↦ finSent_senderVisit accepts (h.closed hclosed), ?_⟩
  · rw [emittedIn_append, emittedIn_single]
    intro out hout
    rcases List.mem_append.mp hout with hold | hnew
    · exact h.plain out hold
    · rw [(emitted_senderVisit hnew).2, senderHeader]
      dsimp only
      cases visitFin sender <;> exact ⟨by decide, by decide⟩
  · rw [emittedIn_append, emittedIn_single, hwritten]
    intro out hout hpayload
    rcases List.mem_append.mp hout with hold | hnew
    · exact h.offered out hold hpayload
    · obtain ⟨⟨⟨-, hnotFin⟩, -⟩, rfl⟩ := emitted_senderVisit hnew
      refine ⟨dropped, hdropped hnotFin, ?_, ?_⟩
      · simpa [hnotFin, senderHeader] using hstream.localSeq_eq
      · change visitPayload sender = slice (writtenIn sent) dropped (visitPayload sender).length
        rw [slice, ← hstream.data_eq, visitPayload, List.length_take, ← List.take_eq_take_min]
  · intro out hout
    rcases h.acks out hout with hsent | hcount
    · exact Or.inl (finSent_senderVisit accepts hsent)
    · exact Or.inr hcount

end Sender

section Receiver

variable {start : UInt32} {mss : Mss} {sender receiver next : Session} {sent got : Trace}

/-- A packet of the sender at the receiver. Its payload is handed over only when it begins behind
all that was handed over, and no FIN was counted. -/
theorem Direction.receiver_segment (h : Direction start mss sender receiver sent got)
    {environment : Environment} {segment : Segment} {outputs : List Output}
    (heffect : SegmentEffect environment segment receiver next outputs)
    (hread : ReadFrom sent segment)
    (hacked : handsOver environment segment receiver = true → environment.ackOk = true) :
    Direction start mss sender next sent (got ++ [(.segment environment segment, outputs)]) := by
  obtain ⟨out, hout, hdecoded⟩ := hread
  obtain ⟨hseqNr, -, hflags, hpayload⟩ := decodeSegment_fields hdecoded
  obtain ⟨dropped, hstream, hdropped⟩ := h.stream
  have hshort := h.short
  have hhanded := h.isPrefix.length_le
  have hfinSent : hasFlag segment.flags flagFin = true → sender.finSent = true := by
    rw [hflags]
    exact hstream.fin out hout
  have hnew : handedBytes [(.segment environment segment, outputs)] =
      if handsOver environment segment receiver then segment.payload else [] := by
    rw [handedBytes, handedIn_segment heffect.outputs]
    split_ifs <;> simp
  -- a payload that is handed over goes on where the bytes handed over end
  have hnext : handsOver environment segment receiver = true → receiver.halfClosed = false ∧
      segment.payload = slice (writtenIn sent) (handedBytes got).length segment.payload.length := by
    intro hhands
    have horder := peerSeqNr_of_handsOver hhands
    have hsome : segment.payload ≠ [] := by
      simp only [handsOver, Bool.and_eq_true, bne_iff_ne] at hhands
      exact hhands.1.2
    obtain ⟨position, hposition, hnumber, hslice⟩ := h.offered out hout (hpayload ▸ hsome)
    have hsame : position = (handedBytes got).length + if receiver.halfClosed then 1 else 0 := by
      refine (add_ofNat_inj start (by omega) ?_).mp
        (hnumber.symm.trans (hseqNr.symm.trans (horder.trans h.counted)))
      split_ifs <;> omega
    cases hclosed : receiver.halfClosed with
    | true => simp only [hclosed, if_true] at hsame; omega
    | false =>
      rw [hclosed] at hsame
      refine ⟨rfl, ?_⟩
      rw [hpayload, hslice, hsame]
      simp [slice, List.length_take]
  have hgrown := handedBytes_append got [(.segment environment segment, outputs)]
  rw [hnew] at hgrown
  have haccepted : acceptedLength environment segment receiver =
      (if handsOver environment segment receiver then segment.payload else []).length := by
    rw [acceptedLength]
    by_cases hhands : handsOver environment segment receiver = true
    · simp [hhands, hacked hhands]
    · simp [hhands]
  have hlonger : (handedBytes got).length ≤
      (handedBytes (got ++ [(.segment environment segment, outputs)])).length := by
    rw [hgrown, List.length_append]
    exact Nat.le_add_right _ _
  refine ⟨hshort, ⟨dropped, hstream, fun hnotFin ↦ (hdropped hnotFin).trans hlonger⟩, h.plain, ?_,
    heffect.state_eq ▸ h.isOpen, ?_, ?_, ?_, ?_⟩
  · intro sentOut hsentOut hsome
    obtain ⟨position, hposition, hplace⟩ := h.offered sentOut hsentOut hsome
    exact ⟨position, hposition.trans hlonger, hplace⟩
  · rw [hgrown]
    by_cases hhands : handsOver environment segment receiver = true
    · rw [if_pos hhands, List.prefix_iff_eq_take.mp h.isPrefix, (hnext hhands).2, take_append_slice]
      exact List.take_prefix _ _
    · rw [if_neg hhands, List.append_nil]
      exact h.isPrefix
  · rw [heffect.peerSeq_eq, heffect.halfClosed_eq, hgrown, List.length_append, ← haccepted]
    simp only [received, h.counted, add_ofNat_add, finLength]
    congr 2
    cases receiver.halfClosed <;> cases hasFlag segment.flags flagFin <;> simp <;> omega
  · rw [heffect.halfClosed_eq]
    intro hclosed
    rcases (Bool.or_eq_true _ _).mp hclosed with hold | hflag
    · exact h.closed hold
    · exact hfinSent hflag
  · rw [emittedIn_append, emittedIn_single]
    intro ack hack
    by_cases hfin : sender.finSent = true
    · exact Or.inl hfin
    have hnotClosed : receiver.halfClosed = false := by
      by_contra hclosed
      exact hfin (h.closed (by simpa using hclosed))
    have hplace := h.counted
    rw [hnotClosed] at hplace
    rcases List.mem_append.mp hack with hold | hnow
    · obtain ⟨count, hcount, hnumber⟩ := (h.acks ack hold).resolve_left hfin
      exact Or.inr ⟨count, hcount.trans hlonger, hnumber⟩
    · rcases (heffect.outputs.acks ack hnow).2 with hold | ⟨hhands, hahead⟩ | ⟨⟨hflag, -⟩, -⟩
      · exact Or.inr ⟨_, hlonger, hold.trans hplace⟩
      · refine Or.inr ⟨_, le_refl _, hahead.trans ?_⟩
        rw [hplace, add_ofNat_add, hgrown, if_pos hhands, List.length_append]
        rfl
      · exact absurd (hfinSent hflag) hfin

/-- A write of the receiver has nothing to do with what it receives. -/
theorem Direction.receiver_write (h : Direction start mss sender receiver sent got)
    (flags : UInt32) (what : List UInt8) :
    Direction start mss sender (addFromL7 receiver flags what) sent
      (got ++ [(.write flags what, [])]) := by
  obtain ⟨hpeerSeq, hhalfClosed, hstate⟩ := addFromL7_receiving receiver flags what
  have hgrown : handedBytes (got ++ [(.write flags what, [])]) = handedBytes got := by
    rw [handedBytes_append]
    exact List.append_nil _
  have hemitted : emittedIn (got ++ [(.write flags what, [])]) = emittedIn got := by
    rw [emittedIn_append, emittedIn_single, emitted_nil, List.append_nil]
  exact ⟨h.short, by rw [hgrown]; exact h.stream, h.plain, by rw [hgrown]; exact h.offered,
    hstate ▸ h.isOpen, by rw [hgrown]; exact h.isPrefix,
    by rw [hpeerSeq, hhalfClosed, hgrown]; exact h.counted, by rw [hhalfClosed]; exact h.closed,
    by rw [hemitted, hgrown]; exact h.acks⟩

/-- A visit of the receiver acknowledges what is handed over. -/
theorem Direction.receiver_visit (h : Direction start mss sender receiver sent got)
    (accepts : ℕ → Bool) :
    Direction start mss sender (senderVisit accepts receiver).session sent
      (got ++ [(.visit accepts, (senderVisit accepts receiver).outputs)]) := by
  obtain ⟨hpeerSeq, hhalfClosed, hstate, -, hacks⟩ := visit_receiving accepts receiver
  have hgrown : handedBytes (got ++ [(.visit accepts, (senderVisit accepts receiver).outputs)]) =
      handedBytes got := by
    rw [handedBytes_append]
    exact List.append_nil _
  refine ⟨h.short, by rw [hgrown]; exact h.stream, h.plain, by rw [hgrown]; exact h.offered,
    hstate ▸ h.isOpen, by rw [hgrown]; exact h.isPrefix,
    by rw [hpeerSeq, hhalfClosed, hgrown]; exact h.counted, by rw [hhalfClosed]; exact h.closed, ?_⟩
  rw [hgrown, emittedIn_append, emittedIn_single]
  intro out hout
  rcases List.mem_append.mp hout with hold | hnew
  · exact h.acks out hold
  · by_cases hfin : sender.finSent = true
    · exact Or.inl hfin
    · have hnotClosed : receiver.halfClosed = false := by
        by_contra hclosed
        exact hfin (h.closed (by simpa using hclosed))
      refine Or.inr ⟨_, le_refl _, (hacks out hnew).trans ?_⟩
      rw [h.counted, hnotClosed]
      rfl

end Receiver

/-! ### Every run -/

/-- Both sessions are there, and the direction from the one to the other holds. -/
def Flows (start : Side → UInt32) (mss : Side → Mss) (side : Side)
    (sending receiving : ConnectionEnd) : Prop :=
  ∃ sender receiver, sending.state = some sender ∧ receiving.state = some receiver ∧
    Direction (start side) (mss side) sender receiver sending.trace receiving.trace

section Run

variable {config : Side → Config} {sessionId : Side → UInt64} {start : Side → UInt32}
  {mss : Side → Mss} {stations : Side → ConnectionEnd} {side : Side} {event : SessionEvent}

/-- A packet that an end has sent has neither SYN nor RST. -/
theorem Flows.plain {sending receiving : ConnectionEnd} (h : Flows start mss side sending receiving)
    {segment : Segment} (hread : ReadFrom sending.trace segment) : Plain segment := by
  obtain ⟨sender, receiver, -, -, hdirection⟩ := h
  obtain ⟨out, hout, hdecoded⟩ := hread
  obtain ⟨-, -, hflags, -⟩ := decodeSegment_fields hdecoded
  rw [Plain, hflags]
  exact hdirection.plain out hout

/-- An event at the end that sends. -/
theorem Flows.sender (h : Flows start mss side (stations side) (stations side.other))
    (hback : Flows start mss side.other (stations side.other) (stations side))
    (hok : Transmitted stations (side, event)) :
    Flows start mss side ((stations side).take (sessionStep (config side) (sessionId side)) event)
      (stations side.other) := by
  obtain ⟨sender, receiver, hsender, hreceiver, hdirection⟩ := h
  cases event with
  | segment environment segment =>
    have hplain := hback.plain hok.1
    obtain ⟨_, _, -, hsame, hopen⟩ := hback
    obtain rfl := Option.some.inj (hsame.symm.trans hsender)
    obtain ⟨next, outputs, hstep, heffect⟩ := segment_effect (config side) environment
      (sessionId side) hplain hopen.isOpen
    refine ⟨next, receiver, ?_, hreceiver, ?_⟩
    · rw [Station.take, hsender, hstep]
    · rw [Station.take, hsender, hstep]
      exact hdirection.sender_segment heffect hok.1
  | write flags what =>
    refine ⟨addFromL7 sender flags what, receiver, ?_, hreceiver, ?_⟩
    · rw [Station.take, hsender]
      rfl
    · rw [Station.take, hsender]
      exact hdirection.sender_write flags hok
  | visit accepts =>
    refine ⟨(senderVisit accepts sender).session, receiver, ?_, hreceiver, ?_⟩
    · rw [Station.take, hsender]
      rfl
    · rw [Station.take, hsender]
      exact hdirection.sender_visit accepts

/-- An event at the end that receives. -/
theorem Flows.receiver (h : Flows start mss side (stations side) (stations side.other))
    (hok : Transmitted stations (side.other, event)) :
    Flows start mss side (stations side)
      ((stations side.other).take (sessionStep (config side.other) (sessionId side.other))
        event) := by
  have hplain : ∀ {segment : Segment}, ReadFrom (stations side).trace segment → Plain segment :=
    h.plain
  obtain ⟨sender, receiver, hsender, hreceiver, hdirection⟩ := h
  cases event with
  | segment environment segment =>
    obtain ⟨hread, hacked⟩ := hok
    rw [Side.other_other] at hread
    rw [hreceiver] at hacked
    obtain ⟨next, outputs, hstep, heffect⟩ := segment_effect (config side.other) environment
      (sessionId side.other) (hplain hread) hdirection.isOpen
    refine ⟨sender, next, hsender, ?_, ?_⟩
    · rw [Station.take, hreceiver, hstep]
    · rw [Station.take, hreceiver, hstep]
      exact hdirection.receiver_segment heffect hread hacked
  | write flags what =>
    refine ⟨sender, addFromL7 receiver flags what, hsender, ?_, ?_⟩
    · rw [Station.take, hreceiver]
      rfl
    · rw [Station.take, hreceiver]
      exact hdirection.receiver_write flags what
  | visit accepts =>
    refine ⟨sender, (senderVisit accepts receiver).session, hsender, ?_, ?_⟩
    · rw [Station.take, hreceiver]
      rfl
    · rw [Station.take, hreceiver]
      exact hdirection.receiver_visit accepts

/-- Behind the handshake nothing has flowed in either direction. -/
theorem Matched.flows (config : Side → Config) {sessions : Side → Session} (h : Matched sessions)
    (side : Side) :
    Flows (fun side ↦ (sessions side).localSeq) (fun side ↦ (sessions side).mss) side
      (.start (some (sessions side))) (.start (some (sessions side.other))) := by
  have hstart : writtenIn (Station.start (some (sessions side)) : ConnectionEnd).trace = [] := rfl
  obtain ⟨current, dropped, hcurrent, hstream⟩ :=
    streamInvariant_run (config side) 0 (h.fresh side) (List.forall_mem_nil PlainEvent)
  obtain rfl := Option.some.inj hcurrent
  refine ⟨sessions side, sessions side.other, rfl, rfl, ?_, ⟨dropped, hstream, fun _ ↦ ?_⟩,
    List.forall_mem_nil _, List.forall_mem_nil _, ?_, List.nil_prefix, ?_, ?_,
    List.forall_mem_nil _⟩
  · rw [hstart]
    decide
  · exact hstream.dropped_le.trans (Nat.zero_le _)
  · simp [(h.fresh side.other).established]
  · simp [h.notHalfClosed, h.peerSeq_eq, Station.start, handedBytes, handedIn]
  · simp [h.notHalfClosed]

end Run

/-- What each application has got is a prefix of what the other one wrote. Assumes: two sessions
behind their handshake, a network that delivers only what was sent, to one end what the other end
sent, and acknowledgements that are not refused for a payload that was handed over; each application
writes less than the sequence space. Until a sender has sent its FIN the rest of what was written is
in its buffer. -/
theorem connection_delivers (config : Side → Config) (sessionId : Side → UInt64)
    {sessions : Side → Session} (hmatched : Matched sessions) {events : List (Side × SessionEvent)}
    (hevents : Along (connectionStep config sessionId) Transmitted
      (fun side ↦ .start (some (sessions side))) events) (side : Side) :
    let final := (run (connectionStep config sessionId)
      (fun side ↦ .start (some (sessions side))) events).1
    let written := writtenIn (final side).trace
    let handed := handedBytes (final side.other).trace
    handed <+: written ∧
      ∃ sender, (final side).state = some sender ∧
        (sender.finSent = false →
          ∃ left, written = handed ++ left ∧ left <:+ sender.l7ToTcp.data) := by
  intro final written handed
  obtain ⟨sender, receiver, hsender, -, hdirection⟩ :=
    link_induction (hmatched.flows config)
      (fun _ _ _ hflows hback hok ↦ hflows.sender hback hok)
      (fun _ _ _ hflows _ hok ↦ hflows.receiver hok) hevents side
  refine ⟨hdirection.isPrefix, sender, hsender, fun hnotFin ↦ ?_⟩
  obtain ⟨dropped, hstream, hdropped⟩ := hdirection.stream
  obtain ⟨left, hleft⟩ := hdirection.isPrefix
  refine ⟨left, hleft.symm, ?_⟩
  have hdata := hstream.data_eq
  rw [← hleft, List.drop_append_of_le_length (hdropped hnotFin)] at hdata
  rw [hdata]
  exact List.suffix_append _ _

/-- Two hosts with an open connection. -/
def sampleEnds : Side → Session
  | .near => sampleSession 100 1000
  | .far => { sampleSession 1000 100 with
      localAddr := [10, 0, 0, 2], localPort := 1000, peerAddr := [10, 0, 0, 1], peerPort := 80 }

theorem matched_sampleEnds : Matched sampleEnds := by
  refine ⟨?_, ?_, ?_⟩ <;> rintro (_ | _)
  · exact ⟨rfl, rfl, rfl, rfl⟩
  · exact ⟨rfl, rfl, rfl, rfl⟩
  all_goals rfl

/-- Three bytes from the one application to the other, and the packet once more. -/
theorem connection_delivers_three_bytes :
    let out : OutSegment := ⟨[10, 0, 0, 1], [10, 0, 0, 2], 80, 1000, 1000, 100,
      flagAck ||| flagPsh, 32768, [1, 2, 3]⟩
    let packet := decoded out (by decide)
    let events : List (Side × SessionEvent) := [(.near, .write 0 [1, 2, 3]),
      (.near, .visit fun _ ↦ true), (.far, .segment sampleEnvironment packet),
      (.far, .segment sampleEnvironment packet)]
    let final := (run (connectionStep (fun _ ↦ sampleConfig) fun _ ↦ 0)
      (fun side ↦ .start (some (sampleEnds side))) events).1
    handedBytes (final .far).trace = [1, 2, 3] ∧
      handedBytes (final .far).trace <+: writtenIn (final .near).trace := by
  intro out packet events final
  have hread : decodeSegment out.fromAddr out.toAddr (tcpPacket out) = some packet :=
    decodeSegment_tcpPacket out rfl rfl (by decide)
  have hevents : Along (connectionStep (fun _ ↦ sampleConfig) fun _ ↦ 0) Transmitted
      (fun side ↦ .start (some (sampleEnds side))) events :=
    ⟨(by decide : 0 + 3 < 2 ^ 32 - 1), trivial,
      ⟨⟨out, by decide +kernel, hread⟩, by decide +kernel⟩,
      ⟨⟨out, by decide +kernel, hread⟩, by decide +kernel⟩, trivial⟩
  exact ⟨by decide +kernel,
    (connection_delivers (fun _ ↦ sampleConfig) (fun _ ↦ 0) matched_sampleEnds hevents .near).1⟩

end MyIPNG.Tcp
