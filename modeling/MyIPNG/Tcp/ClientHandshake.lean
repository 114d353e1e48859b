import MyIPNG.Tcp.Replies

/-!
# The handshake of a client

A session that `run_meta` opens waits for the SYN/ACK of the peer. `run_in` does not look at the
acknowledgement number of a SYN/ACK, and it counts `peer_seq` up for every SYN/ACK that it gets, in
the session that the first one has established as well.

`PeerView` is what an observer makes of the segments: the number of the SYN/ACK that established the
session, and how many bytes were accepted since. Over every history of SYN/ACKs, data, writes and
visits of the sender, the session is established by a fitting SYN/ACK only and `peer_seq` stays at
the number that the view gives, exactly when each SYN/ACK comes before the session is established
and acknowledges `local_seq` (`client_numbers_iff`).
-/

set_option autoImplicit false
set_option relaxedAutoImplicit false

namespace MyIPNG.Tcp

open Base

/-! ### Segments and views -/

/-- A SYN/ACK. -/
def IsSynAck (segment : Segment) : Prop :=
  (hasFlag segment.flags flagSyn = true ∧ hasFlag segment.flags flagAck = true) ∧
    hasFlag segment.flags flagRst = false ∧ hasFlag segment.flags flagFin = false

instance (segment : Segment) : Decidable (IsSynAck segment) := inferInstanceAs (Decidable (_ ∧ _))

/-- A SYN/ACK, a segment with data, a write of the application, or a visit of the sender. -/
def HandshakeEvent : SessionEvent → Prop
  | .segment _ segment =>
    IsSynAck segment ∨ Plain segment ∧ hasFlag segment.flags flagFin = false
  | .write _ _ => True
  | .visit _ => True

/-- The initial sequence number of the peer, and the bytes that were accepted behind it. -/
structure PeerView where
  isn : UInt32
  accepted : ℕ
deriving DecidableEq, Repr

/-- The next number that is expected from the peer: the SYN takes one number. -/
def PeerView.next (view : PeerView) : UInt32 := view.isn + 1 + UInt32.ofNat view.accepted

/-- The view with more bytes accepted. -/
def PeerView.add (view : PeerView) (accepted : ℕ) : PeerView :=
  ⟨view.isn, view.accepted + accepted⟩

/-- The bytes of a segment that are accepted: handed to the application and acknowledged. -/
def acceptedBytes (environment : Environment) (outputs : List Output) : ℕ :=
  if environment.ackOk then (handedPayloads outputs).flatten.length else 0

/-- What an observer makes of an event. -/
def peerView (config : Config) (sessionId : UInt64) :
    Option Session → Option PeerView → SessionEvent → Option PeerView
  | some session, view, .segment environment segment =>
    let accepted := acceptedBytes environment
      (runInSession config environment sessionId segment session).outputs
    if IsSynAck segment ∧ session.state ≠ .established then some ⟨segment.peerSeqNr, accepted⟩
    else view.map fun view ↦ view.add accepted
  | _, view, _ => view

/-- The session with its observer. -/
def clientStep (config : Config) (sessionId : UInt64) :=
  observed (sessionStep config sessionId) (peerView config sessionId)

/-- A SYN/ACK that acknowledges `local_seq`. -/
def Establishes (session : Session) : SessionEvent → Prop
  | .segment _ segment => IsSynAck segment ∧ segment.ackSeqNr = session.localSeq
  | .write _ _ => False
  | .visit _ => False

/-- The step establishes the session by a fitting SYN/ACK only, and in an established session
`peer_seq` is the number that the view gives. -/
def KeepsNumbers (config : Config) (sessionId : UInt64) (state : Option Session × Option PeerView)
    (event : SessionEvent) : Prop :=
  ∀ session next, state.1 = some session →
    (clientStep config sessionId state event).1.1 = some next → next.state = .established →
    (session.state ≠ .established → Establishes session event) ∧
      (clientStep config sessionId state event).1.2.map PeerView.next = some next.peerSeq

/-- A SYN/ACK comes before the session is established, and acknowledges `local_seq`. -/
def InTurn (state : Option Session × Option PeerView) : SessionEvent → Prop
  | .segment _ segment => IsSynAck segment → ∀ session, state.1 = some session →
    session.state ≠ .established ∧ segment.ackSeqNr = session.localSeq
  | .write _ _ => True
  | .visit _ => True

/-! ### One event -/

/-- The session of a client that waits for its SYN/ACK, or is established with the number that the
view gives. -/
structure ClientInvariant (session : Session) (view : Option PeerView) : Prop where
  isClient : session.isClient = true
  state : session.state = .synSent ∨ session.state = .established
  number : session.state = .established → view.map PeerView.next = some session.peerSeq

section Steps

variable (config : Config) (sessionId : UInt64) {environment : Environment} {segment : Segment}
  {session : Session} {view : Option PeerView}

theorem ClientInvariant.isOpen (h : ClientInvariant session view) : session.state ≠ .closed := by
  rcases h.state with hstate | hstate <;> simp [hstate]

theorem isClient_afterAck (segment : Segment) (session : Session) :
    (afterAck segment session).1.isClient = session.isClient := by
  unfold afterAck ackPending
  dsimp only
  split_ifs <;> rfl

/-- The bytes that are accepted move `peer_seq` up. -/
theorem acceptedBytes_eq {outputs : List Output}
    (h : OutputsEffect environment segment session outputs) :
    acceptedBytes environment outputs = acceptedLength environment segment session := by
  unfold acceptedBytes acceptedLength
  rw [h.handed_eq]
  cases environment.ackOk <;> cases handsOver environment segment session <;> simp

/-- `peer_seq` behind a segment without FIN. -/
theorem peerSeq_received (hfin : hasFlag segment.flags flagFin = false) :
    (received environment segment session).peerSeq =
      session.peerSeq + UInt32.ofNat (acceptedLength environment segment session) := by
  simp [received, finLength, hfin]

/-- What a SYN/ACK does to the session of a client. -/
theorem synAck_effect (environment : Environment) (hclient : session.isClient = true)
    (hopen : session.state ≠ .closed) (hsynAck : IsSynAck segment) :
    ∃ next, (runInSession config environment sessionId segment session).session = some next ∧
      next.isClient = true ∧ next.state = .established ∧
      next.peerSeq = (synAcked segment session).peerSeq + UInt32.ofNat (acceptedBytes environment
        (runInSession config environment sessionId segment session).outputs) ∧
      (session.state ≠ .established → acceptedBytes environment
        (runInSession config environment sessionId segment session).outputs = 0) := by
  obtain ⟨⟨hsyn, hack⟩, hrst, hfin⟩ := hsynAck
  have hnumber : (synAcked segment (touched environment segment session)).peerSeq =
      (synAcked segment session).peerSeq := by
    unfold synAcked touched
    dsimp only
    split_ifs <;> rfl
  have hkeeps : (synAcked segment (touched environment segment session)).isClient = true := by
    unfold synAcked touched
    dsimp only
    split_ifs <;> exact hclient
  have hstate := state_synAcked segment (touched environment segment session)
  have hnone : session.state ≠ .established → handsOver environment segment
      (synAcked segment (touched environment segment session)) = false := by
    intro hwaiting
    by_contra hnot
    have hhands : handsOver environment segment
        (synAcked segment (touched environment segment session)) = true := by simpa using hnot
    have hestablished := established_of_handsOver_synAcked environment segment hhands
    exact hwaiting hestablished
  have htouched : (touched environment segment session).isClient = true := hclient
  rw [runInSession_syn config environment sessionId segment hopen (by simp [hrst]) hsyn,
    synKnown_synAck_eq config environment sessionId segment htouched hack, sendAck_eq]
  cases environment.clientAckOk with
  | true =>
    have hreaches : reaches segment = true := by simp [reaches, hack]
    obtain ⟨hsession, -, houtputs⟩ := processData_effect environment sessionId segment true false
      (synAcked segment (touched environment segment session)) hreaches
    have haccepted := acceptedBytes_eq houtputs
    refine ⟨_, hsession, hkeeps, hstate, ?_, ?_⟩
    · rw [peerSeq_received hfin, hnumber]
      exact congrArg (fun n ↦ _ + UInt32.ofNat n) haccepted.symm
    · intro hwaiting
      refine haccepted.trans ?_
      rw [acceptedLength, hnone hwaiting]
      rfl
  | false =>
    obtain ⟨hkept, -, hhanded⟩ := clean_valid environment sessionId segment true true true
      (synAcked segment (touched environment segment session))
    have haccepted : acceptedBytes environment (clean environment sessionId segment false true true
        true (some (synAcked segment (touched environment segment session)))).2 = 0 := by
      rw [acceptedBytes, hhanded]
      split_ifs <;> rfl
    refine ⟨_, hkept, hkeeps, hstate, ?_, fun _ ↦ haccepted⟩
    rw [hnumber]
    exact (UInt32.add_zero _).symm.trans
      (congrArg (fun n ↦ _ + UInt32.ofNat n) haccepted.symm)

/-- What data does to the session of a client. -/
theorem data_effect (environment : Environment) (hopen : session.state ≠ .closed)
    (hplain : Plain segment) (hfin : hasFlag segment.flags flagFin = false) :
    ∃ next, (runInSession config environment sessionId segment session).session = some next ∧
      next.isClient = session.isClient ∧ next.state = session.state ∧
      next.peerSeq = session.peerSeq + UInt32.ofNat (acceptedBytes environment
        (runInSession config environment sessionId segment session).outputs) := by
  obtain ⟨hsession, -, houtputs⟩ :=
    runInSession_plain config environment sessionId hplain hopen
  obtain ⟨hpeerSeq, -, hstate⟩ :=
    afterAck_receiving segment (touched environment segment session)
  refine ⟨_, hsession, ?_, hstate, ?_⟩
  · exact isClient_afterAck segment (touched environment segment session)
  · rw [peerSeq_received hfin, acceptedBytes_eq houtputs, hpeerSeq]
    rfl

theorem PeerView.next_add (view : PeerView) (accepted : ℕ) :
    (view.add accepted).next = view.next + UInt32.ofNat accepted :=
  (add_ofNat_add _ _ _).symm

/-- An event that is no SYN/ACK: bytes are accepted, or nothing happens. -/
structure Advances (session next : Session) (view view' : Option PeerView) (accepted : ℕ) :
    Prop where
  isClient_eq : next.isClient = session.isClient
  state_eq : next.state = session.state
  peerSeq_eq : next.peerSeq = session.peerSeq + UInt32.ofNat accepted
  view_eq : view' = view.map fun view ↦ view.add accepted

/-- A SYN/ACK: the session is established, and `peer_seq` counted up. -/
structure Restarts (segment : Segment) (session next : Session) (view view' : Option PeerView)
    (accepted : ℕ) : Prop where
  isClient_eq : next.isClient = true
  state_eq : next.state = .established
  peerSeq_eq : next.peerSeq = (synAcked segment session).peerSeq + UInt32.ofNat accepted
  first : session.state ≠ .established → accepted = 0 ∧ view' = some ⟨segment.peerSeqNr, 0⟩
  again : session.state = .established → view' = view.map fun view ↦ view.add accepted

/-- An event that leaves the receiving side alone. -/
theorem advances_quiet {next : Session} (hclient : next.isClient = session.isClient)
    (hstate : next.state = session.state) (hnumber : next.peerSeq = session.peerSeq)
    (view : Option PeerView) : Advances session next view view 0 := by
  refine ⟨hclient, hstate, hnumber.trans (UInt32.add_zero _).symm, ?_⟩
  cases view <;> rfl

/-- All that an event of a handshake does. -/
theorem clientStep_cases (h : ClientInvariant session view) {event : SessionEvent}
    (hevent : HandshakeEvent event) :
    ∃ next view' accepted,
      (clientStep config sessionId (some session, view) event).1 = (some next, view') ∧
      ((∃ environment segment, event = .segment environment segment ∧ IsSynAck segment ∧
          Restarts segment session next view view' accepted) ∨
        (∀ environment segment, event = .segment environment segment → ¬ IsSynAck segment) ∧
          Advances session next view view' accepted) := by
  cases event with
  | segment environment segment =>
    rcases hevent with hsynAck | ⟨hplain, hfin⟩
    · obtain ⟨next, hnext, hclient, hstate, hnumber, hnone⟩ := synAck_effect config sessionId
        environment h.isClient h.isOpen hsynAck
      refine ⟨next, _, _, Prod.ext hnext rfl, Or.inl ⟨environment, segment, rfl, hsynAck, hclient,
        hstate, hnumber, fun hwaiting ↦ ⟨hnone hwaiting, ?_⟩, fun hestablished ↦ ?_⟩⟩
      · refine (if_pos ⟨hsynAck, hwaiting⟩).trans ?_
        rw [hnone hwaiting]
      · exact if_neg fun hboth ↦ hboth.2 hestablished
    · obtain ⟨next, hnext, hclient, hstate, hnumber⟩ := data_effect config sessionId
        environment h.isOpen hplain hfin
      have hother : ¬ IsSynAck segment := by
        intro hsynAck
        exact absurd (hsynAck.1.1.symm.trans hplain.1) (by simp)
      refine ⟨next, _, _, Prod.ext hnext rfl, Or.inr ⟨?_, hclient, hstate, hnumber, ?_⟩⟩
      · rintro _ _ ⟨⟩
        exact hother
      · exact if_neg fun hboth ↦ hother hboth.1
  | write flags what =>
    obtain ⟨hnumber, -, hstate⟩ := addFromL7_receiving session flags what
    have hclient : (addFromL7 session flags what).isClient = session.isClient := by
      unfold addFromL7
      dsimp only
      split_ifs <;> rfl
    exact ⟨_, view, 0, rfl, Or.inr ⟨by simp, advances_quiet hclient hstate hnumber view⟩⟩
  | visit accepts =>
    obtain ⟨hnumber, -, hstate, -, -⟩ := visit_receiving accepts session
    have hclient : (senderVisit accepts session).session.isClient = session.isClient := by
      rw [senderVisit_eq]
      split_ifs <;> rfl
    exact ⟨_, view, 0, rfl, Or.inr ⟨by simp, advances_quiet hclient hstate hnumber view⟩⟩

theorem map_next_add {number : UInt32} (h : view.map PeerView.next = some number)
    (accepted : ℕ) : (view.map fun view ↦ view.add accepted).map PeerView.next =
      some (number + UInt32.ofNat accepted) := by
  obtain ⟨found, rfl, rfl⟩ := Option.map_eq_some_iff.mp h
  exact congrArg some (found.next_add accepted)

/-- The step lemma. A step keeps the numbers exactly when it is in turn, and one that is in turn
keeps the invariant. -/
theorem client_step (h : ClientInvariant session view) {event : SessionEvent}
    (hevent : HandshakeEvent event) :
    (KeepsNumbers config sessionId (some session, view) event ↔
        InTurn (some session, view) event) ∧
      (InTurn (some session, view) event → ∃ next view',
        (clientStep config sessionId (some session, view) event).1 = (some next, view') ∧
          ClientInvariant next view') := by
  obtain ⟨next, view', accepted, hstep, hcases⟩ := clientStep_cases config sessionId h hevent
  have hkeeps : KeepsNumbers config sessionId (some session, view) event ↔
      (next.state = .established → (session.state ≠ .established → Establishes session event) ∧
        view'.map PeerView.next = some next.peerSeq) := by
    unfold KeepsNumbers
    rw [hstep]
    refine ⟨fun hall hstate ↦ hall session next rfl rfl hstate, ?_⟩
    rintro hnext _ _ ⟨⟩ ⟨⟩ hstate
    exact hnext hstate
  rw [hkeeps]
  rcases hcases with ⟨environment, segment, rfl, hsynAck, hrestarts⟩ | ⟨hother, hadvances⟩
  · by_cases hestablished : session.state = .established
    · -- `peer_seq` is one ahead of the view behind a repeated SYN/ACK
      have hturn : ¬ InTurn (some session, view) (.segment environment segment) :=
        fun hturn ↦ (hturn hsynAck session rfl).1 hestablished
      refine ⟨iff_of_false (fun hnumbers ↦ ?_) hturn, fun h ↦ absurd h hturn⟩
      have hnumber := (hnumbers hrestarts.state_eq).2
      have hbefore : (synAcked segment session).peerSeq = session.peerSeq + 1 := by
        unfold synAcked
        rw [if_pos hestablished]
      rw [hrestarts.again hestablished, map_next_add (h.number hestablished), hrestarts.peerSeq_eq,
        hbefore] at hnumber
      have hequal := (UInt32.add_left_inj _).mp (Option.some.inj hnumber)
      exact absurd (UInt32.left_eq_add.mp hequal) (by decide)
    · obtain ⟨rfl, rfl⟩ := hrestarts.first hestablished
      have hnumber : next.peerSeq = segment.peerSeqNr + 1 + UInt32.ofNat 0 := by
        rw [hrestarts.peerSeq_eq]
        unfold synAcked
        rw [if_neg hestablished]
      have hview : (some (⟨segment.peerSeqNr, 0⟩ : PeerView)).map PeerView.next =
          some next.peerSeq := congrArg some hnumber.symm
      refine ⟨⟨fun hnumbers _ _ hsession ↦ ?_, fun hturn _ ↦ ⟨fun _ ↦ ?_, hview⟩⟩, fun _ ↦ ?_⟩
      · obtain rfl := Option.some.inj hsession
        exact ⟨hestablished, ((hnumbers hrestarts.state_eq).1 hestablished).2⟩
      · exact ⟨hsynAck, (hturn hsynAck session rfl).2⟩
      · exact ⟨next, _, hstep, hrestarts.isClient_eq, Or.inr hrestarts.state_eq, fun _ ↦ hview⟩
  · have hturn : InTurn (some session, view) event := by
      cases event with
      | segment environment segment =>
        exact fun hsynAck ↦ absurd hsynAck (hother environment segment rfl)
      | write flags what => trivial
      | visit accepts => trivial
    have hnumber : session.state = .established →
        view'.map PeerView.next = some next.peerSeq := by
      intro hestablished
      rw [hadvances.view_eq, map_next_add (h.number hestablished), hadvances.peerSeq_eq]
    refine ⟨iff_of_true (fun hstate ↦ ?_) hturn, fun _ ↦ ⟨next, view', hstep, ?_, ?_, ?_⟩⟩
    · have hestablished := hadvances.state_eq.symm.trans hstate
      exact ⟨fun hwaiting ↦ absurd hestablished hwaiting, hnumber hestablished⟩
    · rw [hadvances.isClient_eq, h.isClient]
    · rw [hadvances.state_eq]
      exact h.state
    · rw [hadvances.state_eq]
      exact hnumber

end Steps

/-! ### Every history -/

/-- The session of a client behind its open: `run_meta` has counted the SYN. -/
def openedSession (fromAddr dstAddr : List UInt8) (srcPort dstPort : UInt16)
    (shmDataAddress : List UInt8) (localSeq : UInt32) : Session :=
  { openSession fromAddr dstAddr srcPort dstPort shmDataAddress localSeq with
    localSeq := localSeq + 1 }

/-- The handshake of a client over every history. The session is established by a SYN/ACK that
acknowledges `local_seq` only, and from then on `peer_seq` is the initial number of the peer, one
for the SYN and the bytes accepted, exactly when each SYN/ACK comes before the session is
established and acknowledges `local_seq`. -/
theorem client_numbers_iff (config : Config) (sessionId : UInt64) (fromAddr dstAddr : List UInt8)
    (srcPort dstPort : UInt16) (shmDataAddress : List UInt8) (localSeq : UInt32)
    (events : List SessionEvent) (hevents : ∀ event ∈ events, HandshakeEvent event) :
    Along (clientStep config sessionId) (KeepsNumbers config sessionId)
        (some (openedSession fromAddr dstAddr srcPort dstPort shmDataAddress localSeq), none)
        events ↔
      Along (clientStep config sessionId) InTurn
        (some (openedSession fromAddr dstAddr srcPort dstPort shmDataAddress localSeq), none)
        events := by
  refine along_iff_of_invariant (I := fun state ↦ ∃ session view,
    state = (some session, view) ∧ ClientInvariant session view) ?_ ?_ ?_ hevents
  · refine ⟨_, _, rfl, rfl, Or.inl rfl, fun hstate ↦ ?_⟩
    exact absurd hstate (by simp [openedSession, openSession])
  · rintro _ event ⟨session, view, rfl, hinvariant⟩ hevent
    exact (client_step config sessionId hinvariant hevent).1
  · rintro _ event ⟨session, view, rfl, hinvariant⟩ hevent hturn
    exact (client_step config sessionId hinvariant hevent).2 hturn

/-- The session of a client that has sent its SYN with the number 100. -/
def sampleOpened : Session := openedSession [10, 0, 0, 1] [10, 0, 0, 2] 40000 80 [104] 100

/-- A segment of the peer of that session. -/
def sampleAnswer (peerSeqNr ackSeqNr : UInt32) (flags : UInt8) (payload : List UInt8)
    (h : payload.length < 2 ^ 31) : Segment :=
  ⟨[10, 0, 0, 2], [10, 0, 0, 1], 80, 40000, peerSeqNr, ackSeqNr, flags, 1024, 1, payload, h⟩

/-- A SYN/ACK with the number 7, and two bytes of data. -/
theorem client_numbers_data :
    Along (clientStep sampleConfig 0) (KeepsNumbers sampleConfig 0) (some sampleOpened, none)
      [.segment sampleEnvironment (sampleAnswer 7 101 (flagSyn ||| flagAck) [] length_nil_lt),
        .segment sampleEnvironment (sampleAnswer 8 101 flagAck [1, 2] (by decide))] := by
  have hevents : ∀ event ∈ [SessionEvent.segment sampleEnvironment
      (sampleAnswer 7 101 (flagSyn ||| flagAck) [] length_nil_lt),
      .segment sampleEnvironment (sampleAnswer 8 101 flagAck [1, 2] (by decide))],
      HandshakeEvent event := by
    intro event hevent
    rcases List.mem_cons.mp hevent with rfl | hevent
    · exact Or.inl (by decide)
    · rw [List.mem_singleton.mp hevent]
      exact Or.inr (by decide)
  refine (client_numbers_iff sampleConfig 0 _ _ _ _ _ _ _ hevents).mpr ⟨?_, ?_, trivial⟩
  · rintro - session ⟨⟩
    decide
  · intro hsynAck
    exact absurd hsynAck (by decide)

/-- The session behind a SYN/ACK with the number 7. -/
def sampleAnswered (peerSeq : UInt32) : Session :=
  { sampleOpened with
    state := .established
    startPeerSeq := 7
    peerSeq := peerSeq
    peerWindowSize := 1024 }

/-- A SYN/ACK that comes twice, as it does when the peer misses the acknowledgement: `peer_seq` is 9
where the peer goes on with 8. A SYN/ACK that acknowledges another number establishes the session as
well. -/
theorem client_numbers_fail :
    (¬ Along (clientStep sampleConfig 0) (KeepsNumbers sampleConfig 0) (some sampleOpened, none)
      [.segment sampleEnvironment (sampleAnswer 7 101 (flagSyn ||| flagAck) [] length_nil_lt),
        .segment sampleEnvironment
          (sampleAnswer 7 101 (flagSyn ||| flagAck) [] length_nil_lt)]) ∧
    ¬ Along (clientStep sampleConfig 0) (KeepsNumbers sampleConfig 0) (some sampleOpened, none)
      [.segment sampleEnvironment
        (sampleAnswer 7 999 (flagSyn ||| flagAck) [] length_nil_lt)] := by
  constructor
  · rintro ⟨-, hsecond, -⟩
    have hnumber := (hsecond (sampleAnswered 8) (sampleAnswered 9) (by decide +kernel)
      (by decide +kernel) rfl).2
    exact absurd hnumber (by decide +kernel)
  · rintro ⟨hfirst, -⟩
    have hfits := (hfirst sampleOpened (sampleAnswered 8) rfl (by decide +kernel) rfl).1
      (by decide)
    exact absurd hfits.2 (by decide)

end MyIPNG.Tcp
