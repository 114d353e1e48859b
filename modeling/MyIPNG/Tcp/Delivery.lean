import MyIPNG.Base.Pieces
import MyIPNG.Tcp.Steps

/-!
# Delivery of the peer's data to the application

The receiving direction of a session, for segments that carry data and acknowledgements only. The
session keeps one number of it, `peerSeq`. A payload is handed to the application when its number
is `peerSeq`; whether `peerSeq` then moves depends on a second send, the acknowledgement.

`Acknowledged` says that a number is the start number plus the length of contiguous payloads that
were all handed over. `peerSeq` and every acknowledgement number that leaves are acknowledged in
this sense, in every history (`acks_only_handed_bytes`). The payloads handed over need not be
contiguous themselves: when the application takes a payload and the acknowledgement is refused,
`peerSeq` stays and a retransmission of the payload is handed over again
(`retransmission_handed_twice`). Histories without that coincidence hand over a prefix of the
peer's stream (`handed_prefix_of_acked`).
-/

set_option autoImplicit false
set_option relaxedAutoImplicit false

namespace MyIPNG.Tcp

open Base

/-! ### Histories -/

theorem emittedIn_append (first second : Trace) :
    emittedIn (first ++ second) = emittedIn first ++ emittedIn second := List.flatMap_append

theorem acksIn_append (first second : Trace) :
    acksIn (first ++ second) = acksIn first ++ acksIn second := by
  rw [acksIn, emittedIn_append, List.filter_append, List.map_append, acksIn, acksIn]

theorem handedIn_append (first second : Trace) :
    handedIn (first ++ second) = handedIn first ++ handedIn second := List.flatMap_append

/-- The acknowledgement numbers of one event are those of the segments it put out. -/
theorem mem_acksIn_singleton {event : SessionEvent} {outputs : List Output} {ack : UInt32}
    (h : ack ∈ acksIn [(event, outputs)]) : ∃ out ∈ emitted outputs, out.ackNr = ack := by
  simp only [acksIn, emittedIn, List.flatMap_cons, List.flatMap_nil, List.append_nil,
    List.mem_map, List.mem_filter] at h
  obtain ⟨out, ⟨hout, -⟩, hack⟩ := h
  exact ⟨out, hout, hack⟩

/-- A segment hands over at most its own payload. -/
theorem handedIn_segment {environment : Environment} {segment : Segment} {session : Session}
    {outputs : List Output} (h : OutputsEffect environment segment session outputs) :
    handedIn [(.segment environment segment, outputs)] =
      if handsOver environment segment session then [(segment.peerSeqNr, segment.payload)]
      else [] := by
  simp only [handedIn, List.flatMap_cons, List.flatMap_nil, List.append_nil, h.handed_eq]
  by_cases hhands : handsOver environment segment session = true
  · simp [hhands]
  · simp [hhands]

/-- A payload is handed over when its number is `peerSeq`. -/
theorem peerSeqNr_of_handsOver {environment : Environment} {segment : Segment} {session : Session}
    (h : handsOver environment segment session = true) : segment.peerSeqNr = session.peerSeq := by
  simp only [handsOver, Bool.and_eq_true, beq_iff_eq] at h
  exact h.1.1.2

/-! ### What has been handed over -/

/-- The number is the start number plus the length of contiguous payloads that were all handed
over. -/
def Acknowledged (start : UInt32) (trace : Trace) (number : UInt32) : Prop :=
  ∃ chain : List (Piece UInt8), chain.Sublist (handedIn trace) ∧ Contiguous start chain ∧
    number = start + UInt32.ofNat (joined chain).length

theorem acknowledged_start (start : UInt32) (trace : Trace) : Acknowledged start trace start :=
  ⟨[], List.nil_sublist _, trivial, by simp⟩

theorem Acknowledged.append {start number : UInt32} {trace : Trace}
    (h : Acknowledged start trace number) (more : Trace) :
    Acknowledged start (trace ++ more) number := by
  obtain ⟨chain, hsublist, hchain, hnumber⟩ := h
  refine ⟨chain, ?_, hchain, hnumber⟩
  rw [handedIn_append]
  exact hsublist.trans (List.sublist_append_left _ _)

/-- A payload handed over at an acknowledged number acknowledges the number behind it. -/
theorem Acknowledged.extend {start number : UInt32} {trace more : Trace} {payload : List UInt8}
    (h : Acknowledged start trace number) (hmore : handedIn more = [(number, payload)]) :
    Acknowledged start (trace ++ more) (number + UInt32.ofNat payload.length) := by
  obtain ⟨chain, hsublist, hchain, hnumber⟩ := h
  refine ⟨chain ++ [(number, payload)], ?_, contiguous_snoc hchain hnumber, ?_⟩
  · rw [handedIn_append, hmore]
    exact hsublist.append (List.Sublist.refl _)
  · rw [hnumber, add_ofNat_add]
    simp

/-! ### One event -/

/-- A segment without SYN, RST and FIN, a write of the application, or a visit of the sender. -/
def DataEvent : SessionEvent → Prop
  | .segment _ segment => Plain segment ∧ hasFlag segment.flags flagFin = false
  | .write _ _ => True
  | .visit _ => True

/-- An event that hands nothing over: `peerSeq` stays and is all that is acknowledged. -/
structure Quiet (session next : Session) (event : SessionEvent) (outputs : List Output) : Prop where
  peerSeq_eq : next.peerSeq = session.peerSeq
  handed_eq : handedIn [(event, outputs)] = []
  acks : ∀ ack ∈ acksIn [(event, outputs)], ack = session.peerSeq

theorem write_quiet (session : Session) (flags : UInt32) (what : List UInt8) :
    Quiet session (addFromL7 session flags what) (.write flags what) [] := by
  refine ⟨(addFromL7_receiving session flags what).1, rfl, ?_⟩
  intro ack hack
  exact absurd hack (by simp [acksIn, emittedIn])

theorem visit_quiet (session : Session) (accepts : ℕ → Bool) :
    Quiet session (senderVisit accepts session).session (.visit accepts)
      (senderVisit accepts session).outputs := by
  obtain ⟨hpeerSeq, -, -, -, hacks⟩ := visit_receiving accepts session
  refine ⟨hpeerSeq, rfl, ?_⟩
  intro ack hack
  obtain ⟨out, hout, rfl⟩ := mem_acksIn_singleton hack
  exact hacks out hout

/-- A segment whose payload is handed over: its number is `peerSeq`, which moves behind the payload
when the acknowledgement could be sent. -/
structure Delivers (session next : Session) (event : SessionEvent) (outputs : List Output)
    (environment : Environment) (segment : Segment) : Prop where
  event_eq : event = .segment environment segment
  hands : handsOver environment segment session = true
  peerSeq_eq : next.peerSeq = if environment.ackOk then
    session.peerSeq + UInt32.ofNat segment.payload.length else session.peerSeq
  handed_eq : handedIn [(event, outputs)] = [(session.peerSeq, segment.payload)]
  acks : ∀ ack ∈ acksIn [(event, outputs)],
    ack = session.peerSeq ∨ ack = session.peerSeq + UInt32.ofNat segment.payload.length

/-- The step lemma of this module. Assumes: the session is not closed. -/
theorem delivery_step (config : Config) (sessionId : UInt64) {session : Session}
    (hopen : session.state ≠ .closed) {event : SessionEvent} (hdata : DataEvent event) :
    ∃ next outputs, sessionStep config sessionId (some session) event = (some next, outputs) ∧
      next.state = session.state ∧
      (Quiet session next event outputs ∨
        ∃ environment segment, Delivers session next event outputs environment segment) := by
  cases event with
  | segment environment segment =>
    obtain ⟨next, outputs, hstep, heffect⟩ :=
      segment_effect config environment sessionId hdata.1 hopen
    have hfin : finLength segment session = 0 := by simp [finLength, hdata.2]
    have hpeerSeq := heffect.peerSeq_eq
    have hhanded := handedIn_segment heffect.outputs
    have hacks : ∀ ack ∈ acksIn [(SessionEvent.segment environment segment, outputs)],
        ack = session.peerSeq ∨ handsOver environment segment session = true ∧
          ack = session.peerSeq + UInt32.ofNat segment.payload.length := by
      intro ack hack
      obtain ⟨out, hout, rfl⟩ := mem_acksIn_singleton hack
      rcases (heffect.outputs.acks out hout).2 with hold | hnew | ⟨⟨hflag, -⟩, -⟩
      · exact Or.inl hold
      · exact Or.inr hnew
      · exact absurd hflag (by simp [hdata.2])
    refine ⟨next, outputs, hstep, heffect.state_eq, ?_⟩
    by_cases hhands : handsOver environment segment session = true
    · refine Or.inr ⟨environment, segment, rfl, hhands, ?_, ?_, ?_⟩
      · rw [hpeerSeq, received, acceptedLength, hfin, hhands]
        by_cases hok : environment.ackOk = true
        · simp [hok]
        · simp [hok]
      · rw [hhanded, if_pos hhands, peerSeqNr_of_handsOver hhands]
      · exact fun ack hack ↦ (hacks ack hack).imp_right And.right
    · refine Or.inl ⟨?_, ?_, ?_⟩
      · rw [hpeerSeq, received, acceptedLength, hfin]
        simp [hhands]
      · rw [hhanded, if_neg hhands]
      · exact fun ack hack ↦ (hacks ack hack).resolve_right fun h ↦ hhands h.1
  | write flags what =>
    exact ⟨_, [], rfl, (addFromL7_receiving session flags what).2.2,
      Or.inl (write_quiet session flags what)⟩
  | visit accepts =>
    exact ⟨_, _, rfl, (visit_receiving accepts session).2.2.1,
      Or.inl (visit_quiet session accepts)⟩

/-! ### Every history -/

/-- The session is there and open, `peerSeq` and all acknowledgement numbers so far are
acknowledged, and every payload handed over came with a segment. -/
structure DeliveryInvariant (start : UInt32) (events : List SessionEvent)
    (state : Option Session) (trace : Trace) : Prop where
  current : ∃ session, state = some session ∧ session.state ≠ .closed ∧
    Acknowledged start trace session.peerSeq
  acks : ∀ ack ∈ acksIn trace, Acknowledged start trace ack
  brought : ∀ piece ∈ handedIn trace, ∃ environment segment,
    .segment environment segment ∈ events ∧ piece = (segment.peerSeqNr, segment.payload)

theorem deliveryInvariant_step (config : Config) (sessionId : UInt64) {start : UInt32}
    {events : List SessionEvent} {state : Option Session} {trace : Trace}
    (h : DeliveryInvariant start events state trace) {event : SessionEvent}
    (hdata : DataEvent event) :
    DeliveryInvariant start (events ++ [event])
      (traced (sessionStep config sessionId) state event).1
      (trace ++ (traced (sessionStep config sessionId) state event).2) := by
  obtain ⟨⟨session, rfl, hopen, hcurrent⟩, hacks, hbrought⟩ := h
  obtain ⟨next, outputs, hstep, hstate, heffect⟩ := delivery_step config sessionId hopen hdata
  simp only [traced, hstep]
  have hkept : ∀ piece ∈ handedIn trace, ∃ environment segment,
      .segment environment segment ∈ events ++ [event] ∧
        piece = (segment.peerSeqNr, segment.payload) := by
    intro piece hpiece
    obtain ⟨environment, segment, hmem, heq⟩ := hbrought piece hpiece
    exact ⟨environment, segment, List.mem_append_left _ hmem, heq⟩
  rcases heffect with hquiet | ⟨environment, segment, hdelivers⟩
  · refine ⟨⟨next, rfl, hstate ▸ hopen, ?_⟩, ?_, ?_⟩
    · rw [hquiet.peerSeq_eq]
      exact hcurrent.append _
    · intro ack hack
      rw [acksIn_append, List.mem_append] at hack
      rcases hack with hack | hack
      · exact (hacks ack hack).append _
      · rw [hquiet.acks ack hack]
        exact hcurrent.append _
    · rw [handedIn_append, hquiet.handed_eq, List.append_nil]
      exact hkept
  · have hextended := hcurrent.extend hdelivers.handed_eq
    refine ⟨⟨next, rfl, hstate ▸ hopen, ?_⟩, ?_, ?_⟩
    · rw [hdelivers.peerSeq_eq]
      split_ifs with hok
      · exact hextended
      · exact hcurrent.append _
    · intro ack hack
      rw [acksIn_append, List.mem_append] at hack
      rcases hack with hack | hack
      · exact (hacks ack hack).append _
      · rcases hdelivers.acks ack hack with hold | hnew
        · rw [hold]
          exact hcurrent.append _
        · rw [hnew]
          exact hextended
    · rw [handedIn_append, hdelivers.handed_eq]
      intro piece hpiece
      rcases List.mem_append.mp hpiece with hpiece | hpiece
      · exact hkept piece hpiece
      · refine ⟨environment, segment, by simp [hdelivers.event_eq], ?_⟩
        rw [List.mem_singleton.mp hpiece, peerSeqNr_of_handsOver hdelivers.hands]

/-- The run lemma: the invariant holds after every history of an open session. -/
theorem deliveryInvariant_run (config : Config) (sessionId : UInt64) {session : Session}
    (hopen : session.state ≠ .closed) {events : List SessionEvent}
    (hevents : ∀ event ∈ events, DataEvent event) :
    DeliveryInvariant session.peerSeq events
      (run (traced (sessionStep config sessionId)) (some session) events).1
      (run (traced (sessionStep config sessionId)) (some session) events).2 := by
  have hstart : DeliveryInvariant session.peerSeq [] (some session) [] :=
    ⟨⟨session, rfl, hopen, acknowledged_start _ _⟩, by simp [acksIn, emittedIn],
      by simp [handedIn]⟩
  have halong : Along (traced (sessionStep config sessionId)) (fun _ event ↦ DataEvent event)
      (some session) events := along_of_forall hevents _
  exact run_induction hstart
    (fun _ _ _ _ hinvariant hdata ↦ deliveryInvariant_step config sessionId hinvariant hdata)
    halong

/-- The payload of a segment reads a stream at the offset of its number from the start. -/
def Carries (start : UInt32) (stream : List UInt8) : SessionEvent → Prop
  | .segment _ segment => IsPieceOf stream start (segment.peerSeqNr, segment.payload)
  | .write _ _ => True
  | .visit _ => True

/-- Payloads handed over from events that carry a stream are pieces of the stream. -/
theorem pieces_of_carries {start : UInt32} {events : List SessionEvent} {state : Option Session}
    {trace : Trace} (h : DeliveryInvariant start events state trace) {stream : List UInt8}
    (hcarries : ∀ event ∈ events, Carries start stream event) :
    ∀ piece ∈ handedIn trace, IsPieceOf stream start piece := by
  intro piece hpiece
  obtain ⟨environment, segment, hmem, rfl⟩ := h.brought piece hpiece
  exact hcarries _ hmem

/-- The server acknowledges only bytes that it handed to the application. Assumes: an established
session, and a history of segments without SYN, RST and FIN, writes and visits of the sender. In
every state reached, a payload is handed over only at `peerSeq`, and `peerSeq` moves only behind a
payload handed over; every acknowledgement number is the start plus the length of contiguous
payloads handed over. When the segments carry a stream shorter than the sequence space, these
payloads are a prefix of the stream. -/
theorem acks_only_handed_bytes (config : Config) (sessionId : UInt64) {session : Session}
    (hestablished : session.state = .established) {events : List SessionEvent}
    (hevents : ∀ event ∈ events, DataEvent event) :
    let start := session.peerSeq
    let final := run (traced (sessionStep config sessionId)) (some session) events
    ∃ current, final.1 = some current ∧
      (∀ event, DataEvent event → ∃ next outputs,
        sessionStep config sessionId (some current) event = (some next, outputs) ∧
          (handedIn [(event, outputs)] = [] ∧ next.peerSeq = current.peerSeq ∨
            ∃ environment segment, event = .segment environment segment ∧
              handedIn [(event, outputs)] = [(segment.peerSeqNr, segment.payload)] ∧
              segment.peerSeqNr = current.peerSeq ∧
              (next.peerSeq = current.peerSeq ∨
                next.peerSeq = current.peerSeq + UInt32.ofNat segment.payload.length))) ∧
      (∀ ack ∈ acksIn final.2, Acknowledged start final.2 ack) ∧
      ∀ stream : List UInt8, stream.length < 2 ^ 32 →
        (∀ event ∈ events, Carries start stream event) →
        ∀ ack ∈ acksIn final.2, ∃ count ≤ stream.length, ack = start + UInt32.ofNat count ∧
          ∃ chain : List (Piece UInt8), chain.Sublist (handedIn final.2) ∧
            joined chain = stream.take count := by
  intro start final
  have hnotClosed : session.state ≠ .closed := by simp [hestablished]
  have hinvariant := deliveryInvariant_run config sessionId hnotClosed hevents
  obtain ⟨⟨current, hcurrent, hopen, -⟩, hacks, -⟩ := id hinvariant
  refine ⟨current, hcurrent, ?_, hacks, ?_⟩
  · intro event hdata
    obtain ⟨next, outputs, hstep, -, hquiet | ⟨environment, segment, hdelivers⟩⟩ :=
      delivery_step config sessionId hopen hdata
    · exact ⟨next, outputs, hstep, Or.inl ⟨hquiet.handed_eq, hquiet.peerSeq_eq⟩⟩
    · have horder := peerSeqNr_of_handsOver hdelivers.hands
      refine ⟨next, outputs, hstep, Or.inr ⟨environment, segment, hdelivers.event_eq, ?_, horder,
        ?_⟩⟩
      · rw [hdelivers.handed_eq, horder]
      · rw [hdelivers.peerSeq_eq]
        split_ifs with hok
        · exact Or.inr rfl
        · exact Or.inl rfl
  · intro stream hshort hcarries ack hack
    obtain ⟨chain, hsublist, hchain, hnumber⟩ := hacks ack hack
    obtain ⟨htaken, hlength⟩ := contiguous_take hshort
      (fun piece hpiece ↦ pieces_of_carries hinvariant hcarries piece (hsublist.subset hpiece))
      hchain
    exact ⟨(joined chain).length, hlength, hnumber, chain, hsublist, htaken⟩

theorem acks_only_handed_bytes_reordered :
    let first := sampleSegment 100 0 flagAck [1, 2] (by decide)
    let second := sampleSegment 102 0 flagAck [3] (by decide)
    let events := [SessionEvent.segment sampleEnvironment second,
      .segment sampleEnvironment first, .segment sampleEnvironment second, .visit fun _ ↦ true]
    let final := run (traced (sessionStep sampleConfig 0)) (some (sampleSession 100 0)) events
    acksIn final.2 = [100, 102, 103] ∧
      ∀ ack ∈ acksIn final.2, ∃ count ≤ 3, ack = 100 + UInt32.ofNat count ∧
        ∃ chain : List (Piece UInt8), chain.Sublist (handedIn final.2) ∧
          joined chain = [1, 2, 3].take count := by
  intro first second events final
  have hevents : ∀ event ∈ events, DataEvent event := by
    simp only [events, List.forall_mem_cons, DataEvent]
    exact ⟨by decide, by decide, by decide, trivial, by simp⟩
  have hcarries : ∀ event ∈ events, Carries 100 [1, 2, 3] event := by
    simp only [events, List.forall_mem_cons, Carries]
    exact ⟨by decide, by decide, by decide, trivial, by simp⟩
  have hestablished : (sampleSession 100 0).state = .established := rfl
  obtain ⟨-, -, -, -, hstream⟩ := acks_only_handed_bytes sampleConfig 0 hestablished hevents
  exact ⟨by decide +kernel, hstream [1, 2, 3] (by decide) hcarries⟩

/-! ### Exactly-once delivery -/

/-- The acknowledgement of a payload that is handed over can be sent. -/
def AckedWhenHanded : Option Session → SessionEvent → Prop
  | some session, .segment environment segment =>
    handsOver environment segment session = true → environment.ackOk = true
  | _, _ => True

instance : ∀ state event, Decidable (AckedWhenHanded state event)
  | some _, .segment _ _ => inferInstanceAs (Decidable (_ → _))
  | none, _ => isTrue (by simp [AckedWhenHanded])
  | some _, .write _ _ => isTrue trivial
  | some _, .visit _ => isTrue trivial

/-- The payloads handed over so far are contiguous from the start and end at `peerSeq`. -/
def HandedContiguously (start : UInt32) (state : Option Session) (trace : Trace) : Prop :=
  ∃ session, state = some session ∧ session.state ≠ .closed ∧
    Contiguous start (handedIn trace) ∧
    session.peerSeq = start + UInt32.ofNat (joined (handedIn trace)).length

theorem handedContiguously_step (config : Config) (sessionId : UInt64) {start : UInt32}
    {state : Option Session} {trace : Trace} (h : HandedContiguously start state trace)
    {event : SessionEvent} (hdata : DataEvent event) (hacked : AckedWhenHanded state event) :
    HandedContiguously start (traced (sessionStep config sessionId) state event).1
      (trace ++ (traced (sessionStep config sessionId) state event).2) := by
  obtain ⟨session, rfl, hopen, hcontiguous, hpeerSeq⟩ := h
  obtain ⟨next, outputs, hstep, hstate, hquiet | ⟨environment, segment, hdelivers⟩⟩ :=
    delivery_step config sessionId hopen hdata
  · simp only [traced, hstep]
    refine ⟨next, rfl, hstate ▸ hopen, ?_, ?_⟩
    · rwa [handedIn_append, hquiet.handed_eq, List.append_nil]
    · rw [handedIn_append, hquiet.handed_eq, List.append_nil, hquiet.peerSeq_eq, hpeerSeq]
  · simp only [traced, hstep]
    have hok : environment.ackOk = true := by
      rw [hdelivers.event_eq] at hacked
      exact hacked hdelivers.hands
    refine ⟨next, rfl, hstate ▸ hopen, ?_, ?_⟩
    · rw [handedIn_append, hdelivers.handed_eq]
      exact contiguous_snoc hcontiguous hpeerSeq
    · rw [handedIn_append, hdelivers.handed_eq, hdelivers.peerSeq_eq, if_pos hok, hpeerSeq,
        add_ofNat_add]
      simp

/-- The payloads handed over are a prefix of the peer's stream. Assumes: an established session, a
history of segments without SYN, RST and FIN that carry the stream, writes and visits, in which
every payload that the application takes is acknowledged. -/
theorem handed_prefix_of_acked (config : Config) (sessionId : UInt64) {session : Session}
    (hestablished : session.state = .established) {stream : List UInt8}
    (hshort : stream.length < 2 ^ 32) {events : List SessionEvent}
    (hevents : ∀ event ∈ events, DataEvent event)
    (hcarries : ∀ event ∈ events, Carries session.peerSeq stream event)
    (hacked : Along (traced (sessionStep config sessionId)) AckedWhenHanded (some session) events) :
    joined (handedIn (run (traced (sessionStep config sessionId)) (some session) events).2) <+:
      stream := by
  have hopen : session.state ≠ .closed := by simp [hestablished]
  obtain ⟨-, -, -, hcontiguous, -⟩ : HandedContiguously session.peerSeq
      (run (traced (sessionStep config sessionId)) (some session) events).1
      (run (traced (sessionStep config sessionId)) (some session) events).2 :=
    run_induction (P := fun _ state trace ↦ HandedContiguously session.peerSeq state trace)
      ⟨session, rfl, hopen, trivial, by simp [handedIn]⟩
      (fun _ _ _ _ h hok ↦ handedContiguously_step config sessionId h hok.1 hok.2)
      ((along_of_forall hevents _).and hacked)
  have hpieces := pieces_of_carries (deliveryInvariant_run config sessionId hopen hevents) hcarries
  rw [(contiguous_take hshort hpieces hcontiguous).1]
  exact List.take_prefix _ _

theorem handed_prefix_of_acked_retransmission :
    let segment := sampleSegment 100 0 flagAck [7] (by decide)
    let events := [SessionEvent.segment { sampleEnvironment with dataOk := false } segment,
      .segment sampleEnvironment segment, .segment sampleEnvironment segment]
    let final := run (traced (sessionStep sampleConfig 0)) (some (sampleSession 100 0)) events
    joined (handedIn final.2) = [7] ∧ joined (handedIn final.2) <+: [7, 8] := by
  intro segment events final
  have hevents : ∀ event ∈ events, DataEvent event := by
    simp only [events, List.forall_mem_cons, DataEvent]
    exact ⟨by decide, by decide, by decide, by simp⟩
  have hcarries : ∀ event ∈ events, Carries 100 [7, 8] event := by
    simp only [events, List.forall_mem_cons, Carries]
    exact ⟨by decide, by decide, by decide, by simp⟩
  have hacked : Along (traced (sessionStep sampleConfig 0)) AckedWhenHanded
      (some (sampleSession 100 0)) events := by decide +kernel
  exact ⟨by decide +kernel,
    handed_prefix_of_acked sampleConfig 0 rfl (by decide) hevents hcarries hacked⟩

/-- The application takes a payload, the acknowledgement is refused, and the retransmission of the
payload is handed over once more. -/
theorem retransmission_handed_twice :
    let segment := sampleSegment 100 0 flagAck [7] (by decide)
    let events := [SessionEvent.segment { sampleEnvironment with ackOk := false } segment,
      .segment sampleEnvironment segment]
    let final := run (traced (sessionStep sampleConfig 0)) (some (sampleSession 100 0)) events
    (sampleSession 100 0).state = .established ∧ (∀ event ∈ events, DataEvent event) ∧
      (∀ event ∈ events, Carries 100 [7] event) ∧ joined (handedIn final.2) = [7, 7] ∧
      ¬ joined (handedIn final.2) <+: [7] := by
  intro segment events final
  have hevents : ∀ event ∈ events, DataEvent event := by
    simp only [events, List.forall_mem_cons, DataEvent]
    exact ⟨by decide, by decide, by simp⟩
  have hcarries : ∀ event ∈ events, Carries 100 [7] event := by
    simp only [events, List.forall_mem_cons, Carries]
    exact ⟨by decide, by decide, by simp⟩
  have htwice : joined (handedIn final.2) = [7, 7] := by decide +kernel
  exact ⟨rfl, hevents, hcarries, htwice, by rw [htwice]; decide⟩

end MyIPNG.Tcp
