import MyIPNG.Tcp.Reset

/-!
# Data on established sessions

The state of a session is read by `run_in` only. The sender looks at the buffer and at the wish of
the application for a FIN, whatever the state is, and the delivery of data looks at the sequence
number. So a session that is not established sends when an application writes to it before the
SYN/ACK or after the reset and a pass of the sender comes then; a closed session sends the FIN that
was still wanted when it was closed; and a session that waits for its SYN/ACK hands over what has
the sequence number zero.

What a step finds decides whether data goes the wrong way (`data_only_established_iff`): a pass of
the sender must come to no session with something to send that is not established, and a segment
must bring no payload with the expected number to one. `Silent` is an invariant that gives that: a
session that is not established has nothing to send. It is kept when applications write only to
established sessions and no session is closed while a FIN is wanted (`data_only_established`).
-/

set_option autoImplicit false
set_option relaxedAutoImplicit false

namespace MyIPNG.Tcp

open Base Utils

/-! ### Sessions with nothing to send -/

/-- The sender waits for an acknowledgement, or has sent the FIN. -/
def Blocked (session : Session) : Prop := session.inFlight ≠ 0 ∨ session.finSent = true

instance (session : Session) : Decidable (Blocked session) := inferInstanceAs (Decidable (_ ∨ _))

/-- The application has written nothing that is still in the buffer and wants no FIN. -/
def Unwritten (session : Session) : Prop :=
  session.l7ToTcp.data = [] ∧ session.l7SendFin = false

instance (session : Session) : Decidable (Unwritten session) := inferInstanceAs (Decidable (_ ∧ _))

/-- A session that is not established has nothing to send. -/
structure Silent (session : Session) : Prop where
  waiting : session.state ≠ .established → session.state ≠ .closed → Unwritten session
  closed : session.state = .closed → Blocked session ∨ Unwritten session

/-- An established session is silent in any case. -/
theorem silent_of_established {session : Session} (h : session.state = .established) :
    Silent session := by
  refine ⟨fun hne ↦ absurd h hne, fun hclosed ↦ ?_⟩
  rw [h] at hclosed
  exact absurd hclosed (by decide)

/-- What a visit takes from the buffer is nothing only when the buffer is empty. -/
theorem visitPayload_eq_nil (session : Session) :
    visitPayload session = [] ↔ session.l7ToTcp.data = [] := by
  have hroom : min 65536 session.mss.value ≠ 0 := by
    have hpositive := session.mss.positive
    omega
  rw [visitPayload, List.take_eq_nil_iff, or_iff_right hroom]

/-- The sender has nothing to send for a session exactly when it waits, or the application has
written nothing. -/
theorem not_sends_iff (session : Session) :
    ¬ Sends session ↔ Blocked session ∨ Unwritten session := by
  have hidle : (session.inFlight = 0 ∧ session.finSent = false) ↔ ¬ Blocked session := by
    simp [Blocked]
  have hwork : (visitPayload session ≠ [] ∨ visitFin session = true) ↔ ¬ Unwritten session := by
    rw [Ne, visitPayload_eq_nil, Unwritten]
    by_cases hdata : session.l7ToTcp.data = []
    · simp [hdata, visitFin]
    · simp [hdata]
  rw [Sends, hidle, hwork]
  tauto

theorem Silent.idle {session : Session} (h : Silent session)
    (hstate : session.state ≠ .established) : Blocked session ∨ Unwritten session := by
  by_cases hclosed : session.state = .closed
  · exact h.closed hclosed
  · exact Or.inr (h.waiting hstate hclosed)

/-- The application wants a FIN that the sender would send next. -/
def FinPending (session : Session) : Prop :=
  session.l7SendFin = true ∧ session.inFlight = 0 ∧ session.finSent = false

instance (session : Session) : Decidable (FinPending session) := inferInstanceAs (Decidable (_ ∧ _))

/-- A session that is closed without a pending FIN is silent. -/
theorem silent_forgotten {session : Session} (h : ¬ FinPending session) :
    Silent (forgotten session) := by
  refine ⟨fun _ hopen ↦ absurd rfl hopen, fun _ ↦ ?_⟩
  by_cases hblocked : Blocked session
  · exact Or.inl hblocked
  · obtain ⟨hflight, hsent⟩ := not_or.mp hblocked
    refine Or.inr ⟨rfl, ?_⟩
    change session.l7SendFin = false
    by_contra hfin
    exact h ⟨by simpa using hfin, by simpa using hflight, by simpa using hsent⟩

/-- A silent session that is not established has no pending FIN. -/
theorem Silent.not_finPending {session : Session} (h : Silent session)
    (hstate : session.state ≠ .established) : ¬ FinPending session := by
  rintro ⟨hfin, hflight, hsent⟩
  have hwritten : ¬ Unwritten session := fun hnone ↦ by simp [hnone.2] at hfin
  have hfree : ¬ Blocked session := by simp [Blocked, hflight, hsent]
  exact (h.idle hstate).elim hfree hwritten

/-! ### The operations on a session -/

/-- A segment that closes an open session: an RST, or a SYN without ACK for a session of a
client. -/
def closes (segment : Segment) (session : Session) : Bool :=
  session.state != .closed && (hasFlag segment.flags flagRst ||
    (hasFlag segment.flags flagSyn && session.isClient && !hasFlag segment.flags flagAck))

/-- Payload with the expected sequence number before an open session is established. -/
def early (environment : Environment) (segment : Segment) (session : Session) : Bool :=
  session.state != .closed && session.state != .established &&
    (!hasFlag segment.flags flagSyn && !hasFlag segment.flags flagRst &&
      handsOver environment segment session)

section Segments

variable (config : Config) (environment : Environment) (sessionId : UInt64) (segment : Segment)

/-- What a segment that is invalid does behind the branches on the flags. -/
theorem processData_invalid (invalidIncAck : Bool) (session : Session) :
    let result := processData environment sessionId segment true invalidIncAck false session
    handedPayloads result.outputs = [] ∧
      ∃ finned, SameSending session finned ∧ result.session = some (forgotten finned) := by
  intro result
  have hfin := handleFin_session environment segment false session
  obtain ⟨hcleaned, hhanded, -⟩ := clean_invalid environment sessionId segment true invalidIncAck
    false (handleFin environment segment false session).1 (Or.inl rfl)
  constructor
  · have houtputs : result.outputs = (handleFin environment segment false session).2 ++
        (clean environment sessionId segment true true invalidIncAck false
          (some (handleFin environment segment false session).1)).2 := rfl
    rw [houtputs, handedPayloads_append, hhanded, List.append_nil]
    exact (handleFin_outputs environment segment false session).1
  · refine ⟨_, ?_, hcleaned⟩
    rw [hfin]
    exact ⟨rfl, rfl, rfl, rfl, rfl, rfl⟩

/-- The session of a client that a SYN/ACK finds, established. -/
def synAcked (session : Session) : Session :=
  let session := if session.state = .established then session
    else { session with
      state := .established
      startPeerSeq := segment.peerSeqNr
      peerSeq := segment.peerSeqNr }
  { session with peerSeq := session.peerSeq + 1 }

theorem state_synAcked (session : Session) : (synAcked segment session).state = .established := by
  unfold synAcked
  dsimp only
  split_ifs with hstate
  · exact hstate
  · rfl

/-- The SYN/ACK that establishes a session hands nothing over. -/
theorem established_of_handsOver_synAcked {session : Session}
    (h : handsOver environment segment (synAcked segment session) = true) :
    session.state = .established := by
  by_contra hstate
  have hnumber : segment.peerSeqNr = (synAcked segment session).peerSeq := by
    simp only [handsOver, Bool.and_eq_true, beq_iff_eq] at h
    exact h.1.1.2
  unfold synAcked at hnumber
  simp only [if_neg hstate] at hnumber
  exact absurd (UInt32.left_eq_add.mp hnumber) (by decide)

/-- The body of `run_in` for a SYN/ACK on the session of a client. -/
theorem synKnown_synAck_eq {session : Session} (hclient : session.isClient = true)
    (hack : hasFlag segment.flags flagAck = true) :
    synKnown config environment sessionId segment session =
      let sent := sendAck environment.clientAckOk segment (synAcked segment session)
        (synAcked segment session).peerSeq
      if sent.2 = -1 then
        let cleaned := clean environment sessionId segment false true true true
          (some (synAcked segment session))
        ⟨cleaned.1, sent.1.map .toIp ++ cleaned.2, false⟩
      else
        let rest := processData environment sessionId segment false true false
          (synAcked segment session)
        { rest with outputs := sent.1.map .toIp ++ rest.outputs } := by
  unfold synKnown
  rw [if_pos hclient, if_neg (by simp [hack])]
  rfl

/-- The body of `run_in` for a SYN without an acknowledgement on the session of a client. -/
theorem synKnown_plainSyn_eq {session : Session} (hclient : session.isClient = true)
    (hack : ¬ hasFlag segment.flags flagAck = true) :
    synKnown config environment sessionId segment session =
      processData environment sessionId segment true true false session := by
  unfold synKnown
  rw [if_pos hclient, if_pos (by simpa using hack)]

/-- The body of `run_in` for a SYN on the session of a server. -/
theorem synKnown_server_eq {session : Session} (hclient : ¬ session.isClient = true) :
    synKnown config environment sessionId segment session =
      if session.state ≠ .established then
        ⟨some session, sendSynCookie config environment sessionId segment, false⟩
      else if session.finSent = false ∨ session.halfClosed = false then ⟨some session, [], false⟩
      else ⟨none, [], false⟩ := by
  unfold synKnown
  rw [if_neg hclient]

/-- What a SYN/ACK does to the session of a client: it is established, and receives what the
segment brings if the acknowledgement could be sent. All that goes to the peer are
acknowledgements. -/
theorem synKnown_synAck {session : Session} (hclient : session.isClient = true)
    (hack : hasFlag segment.flags flagAck = true) :
    let result := synKnown config environment sessionId segment session
    (result.session = some (synAcked segment session) ∨
      result.session = some (received environment segment (synAcked segment session))) ∧
      (handedPayloads result.outputs ≠ [] → session.state = .established) ∧
      ∀ out ∈ emitted result.outputs, out.flags = flagAck := by
  intro result
  have hbody : result = _ :=
    synKnown_synAck_eq config environment sessionId segment hclient hack
  rw [hbody, sendAck_eq]
  cases environment.clientAckOk with
  | true =>
    have hreaches : reaches segment = true := by simp [reaches, hack]
    obtain ⟨hsession, -, houtputs⟩ := processData_effect environment sessionId segment true false
      (synAcked segment session) hreaches
    refine ⟨Or.inr hsession, ?_, ?_⟩
    · intro hhanded
      refine established_of_handsOver_synAcked environment segment ?_
      by_contra hnot
      have hnone := houtputs.handed_eq
      rw [if_neg hnot] at hnone
      exact hhanded hnone
    · intro out hout
      rcases List.mem_cons.mp hout with rfl | hrest
      · rfl
      · exact (houtputs.acks out hrest).1.2
  | false =>
    obtain ⟨hkept, hemitted, hhanded⟩ := clean_valid environment sessionId segment true true true
      (synAcked segment session)
    refine ⟨Or.inl hkept, fun h ↦ absurd hhanded h, ?_⟩
    intro out hout
    have hnone : out ∈ ([] : List OutSegment) := hemitted ▸ hout
    exact absurd hnone List.not_mem_nil

/-- All that a SYN does to an open session: it closes the session of a client, it establishes the
session of a client, it leaves the session alone, or it releases the session. -/
theorem synKnown_cases (session : Session) :
    let result := synKnown config environment sessionId segment session
    (session.isClient = true ∧ hasFlag segment.flags flagAck = false ∧
      handedPayloads result.outputs = [] ∧
      ∃ finned, SameSending session finned ∧ result.session = some (forgotten finned)) ∨
    (∃ next, result.session = some next ∧ next.state = .established ∧
      (handedPayloads result.outputs ≠ [] → session.state = .established)) ∨
    (handedPayloads result.outputs = [] ∧
      (result.session = some session ∨ result.session = none)) := by
  intro result
  by_cases hclient : session.isClient = true
  · by_cases hack : hasFlag segment.flags flagAck = true
    · obtain ⟨hsession, hhanded, -⟩ :=
        synKnown_synAck config environment sessionId segment hclient hack
      have hstate := state_synAcked segment session
      rcases hsession with hkept | hreceived
      · exact Or.inr (Or.inl ⟨_, hkept, hstate, hhanded⟩)
      · exact Or.inr (Or.inl ⟨_, hreceived, hstate, hhanded⟩)
    · have hresult := synKnown_plainSyn_eq config environment sessionId segment hclient hack
      simp only [result, hresult]
      exact Or.inl ⟨hclient, by simpa using hack,
        processData_invalid environment sessionId segment true session⟩
  · refine Or.inr (Or.inr ?_)
    simp only [result, synKnown_server_eq config environment sessionId segment hclient]
    split_ifs
    · exact ⟨handedPayloads_map_toIp _, Or.inl rfl⟩
    · exact ⟨rfl, Or.inl rfl⟩
    · exact ⟨rfl, Or.inr rfl⟩

/-- The body of `run_in` for a SYN on an open session. -/
theorem runInSession_syn {session : Session} (hopen : session.state ≠ .closed)
    (hrst : ¬ hasFlag segment.flags flagRst = true)
    (hsyn : hasFlag segment.flags flagSyn = true) :
    runInSession config environment sessionId segment session =
      synKnown config environment sessionId segment (touched environment segment session) := by
  unfold runInSession
  dsimp only
  rw [if_neg hopen, if_neg hrst, if_pos hsyn]
  rfl

variable {environment segment} {session : Session}

theorem silent_touched (h : Silent session) : Silent (touched environment segment session) :=
  ⟨h.waiting, h.closed⟩

theorem unwritten_afterAck (segment : Segment) (h : Unwritten session) :
    Unwritten (afterAck segment session).1 := by
  obtain ⟨hdata, hfin⟩ := h
  unfold Unwritten afterAck ackPending TcpData.forget
  dsimp only
  split_ifs <;> simp [hdata, hfin]

/-- A SYN. Assumes: one without an acknowledgement, which closes the session of a client, finds no
pending FIN. -/
theorem silent_synKnown (h : Silent session)
    (hclose : session.isClient = true → hasFlag segment.flags flagAck = false →
      ¬ FinPending session) {next : Session}
    (hnext : (synKnown config environment sessionId segment session).session = some next) :
    Silent next := by
  rcases synKnown_cases config environment sessionId segment session with
    ⟨hclient, hack, -, finned, hsame, hresult⟩ | ⟨other, hresult, hstate, -⟩ |
      ⟨-, hresult | hresult⟩
  · rw [hresult] at hnext
    rw [← Option.some.inj hnext]
    refine silent_forgotten ?_
    have hpending := hclose hclient hack
    rwa [FinPending, hsame.l7SendFin_eq, hsame.inFlight_eq, hsame.finSent_eq]
  · rw [hresult] at hnext
    rw [← Option.some.inj hnext]
    exact silent_of_established hstate
  · rw [hresult] at hnext
    rw [← Option.some.inj hnext]
    exact h
  · rw [hresult] at hnext
    exact absurd hnext (by simp)

/-- The step lemma for segments. Assumes: a segment that closes the session finds no pending FIN. -/
theorem silent_runInSession (h : Silent session)
    (hclose : closes segment session = true → ¬ FinPending session) {next : Session}
    (hnext : (runInSession config environment sessionId segment session).session = some next) :
    Silent next := by
  by_cases hclosed : session.state = .closed
  · rw [(runInSession_reset config environment sessionId segment (Or.inl hclosed)).1] at hnext
    rw [← Option.some.inj hnext]
    exact silent_forgotten (h.not_finPending (by simp [hclosed]))
  · by_cases hrst : hasFlag segment.flags flagRst = true
    · rw [(runInSession_reset config environment sessionId segment (Or.inr hrst)).1] at hnext
      rw [← Option.some.inj hnext]
      exact silent_forgotten (hclose (by simp [closes, hclosed, hrst]))
    · by_cases hsyn : hasFlag segment.flags flagSyn = true
      · rw [runInSession_syn config environment sessionId segment hclosed hrst hsyn] at hnext
        refine silent_synKnown config sessionId (silent_touched h) (fun hclient hack ↦ ?_) hnext
        have hown : session.isClient = true := hclient
        exact hclose (by simp [closes, hclosed, hsyn, hack, hown])
      · have hplain : Plain segment := ⟨by simpa using hsyn, by simpa using hrst⟩
        obtain ⟨after, outputs, hstep, heffect⟩ :=
          segment_effect config environment sessionId hplain hclosed
        have hafter : after = next := by
          have hsession := congrArg Prod.fst hstep
          exact Option.some.inj (hsession.symm.trans hnext)
        rw [← hafter]
        by_cases hstate : session.state = .established
        · exact silent_of_established (heffect.state_eq.trans hstate)
        · refine ⟨fun _ _ ↦ ?_, fun hafterClosed ↦ ?_⟩
          · obtain ⟨hdata, hfin⟩ := unwritten_afterAck segment
              (h.waiting hstate hclosed)
            exact ⟨by rw [heffect.sending.l7ToTcp_eq, hdata],
              by rw [heffect.sending.l7SendFin_eq, hfin]⟩
          · exact absurd (heffect.state_eq.symm.trans hafterClosed) hclosed

/-- What a segment hands over. Assumes: it is no payload that comes before the session is
established. The session is established before the segment and behind it. -/
theorem established_of_handed (hearly : early environment segment session = false)
    (hhanded : handedPayloads
      (runInSession config environment sessionId segment session).outputs ≠ []) :
    session.state = .established ∧ ∃ next,
      (runInSession config environment sessionId segment session).session = some next ∧
        next.state = .established := by
  have hopen : session.state ≠ .closed := by
    intro hclosed
    exact hhanded (runInSession_reset config environment sessionId segment (Or.inl hclosed)).2.1
  have hrst : ¬ hasFlag segment.flags flagRst = true := by
    intro hrst
    exact hhanded (runInSession_reset config environment sessionId segment (Or.inr hrst)).2.1
  by_cases hsyn : hasFlag segment.flags flagSyn = true
  · rw [runInSession_syn config environment sessionId segment hopen hrst hsyn] at hhanded ⊢
    rcases synKnown_cases config environment sessionId segment
      (touched environment segment session) with
      ⟨-, -, hnone, -⟩ | ⟨after, hresult, hstate, hbefore⟩ | ⟨hnone, -⟩
    · exact absurd hnone hhanded
    · exact ⟨hbefore hhanded, after, hresult, hstate⟩
    · exact absurd hnone hhanded
  · have hplain : Plain segment := ⟨by simpa using hsyn, by simpa using hrst⟩
    obtain ⟨after, outputs, hstep, heffect⟩ :=
      segment_effect config environment sessionId hplain hopen
    have houtputs : (runInSession config environment sessionId segment session).outputs = outputs :=
      congrArg Prod.snd hstep
    have hafter : (runInSession config environment sessionId segment session).session =
        some after := congrArg Prod.fst hstep
    have hhands : handsOver environment segment session = true := by
      by_contra hnot
      have hnone := heffect.outputs.handed_eq
      rw [if_neg hnot, ← houtputs] at hnone
      exact hhanded hnone
    have hstate : session.state = .established := by
      simpa [early, hopen, hhands, hplain.1, hplain.2] using hearly
    exact ⟨hstate, after, hafter, heffect.state_eq.trans hstate⟩

/-- Payload that comes before the session is established is handed over. -/
theorem handed_of_early (hearly : early environment segment session = true) :
    handedPayloads (runInSession config environment sessionId segment session).outputs ≠ [] := by
  simp only [early, Bool.and_eq_true, bne_iff_ne, Bool.not_eq_true'] at hearly
  obtain ⟨⟨hopen, -⟩, ⟨hsyn, hrst⟩, hhands⟩ := hearly
  obtain ⟨after, outputs, hstep, heffect⟩ :=
    segment_effect config environment sessionId ⟨hsyn, hrst⟩ hopen
  have houtputs : (runInSession config environment sessionId segment session).outputs = outputs :=
    congrArg Prod.snd hstep
  have hhanded := heffect.outputs.handed_eq
  rw [if_pos hhands] at hhanded
  rw [houtputs, hhanded]
  exact List.cons_ne_nil _ _

end Segments

/-- A message of an application that brings neither data nor the wish for a FIN. -/
def IsEmpty (message : List UInt8) : Prop :=
  message.drop 12 = [] ∧ messageFlags message &&& 1 = 0

instance (message : List UInt8) : Decidable (IsEmpty message) :=
  inferInstanceAs (Decidable (_ ∧ _))

/-- The application may write to the session: it is established, or closed with its sender waiting
for good. -/
def Writable (session : Session) : Prop :=
  session.state = .established ∨ session.state = .closed ∧ Blocked session

instance (session : Session) : Decidable (Writable session) := inferInstanceAs (Decidable (_ ∨ _))

/-- The step lemma for messages. Assumes: the message is empty, or the session may be written to. -/
theorem silent_addFromL7 {session : Session} (h : Silent session) {message : List UInt8}
    (hok : IsEmpty message ∨ Writable session) :
    Silent (addFromL7 session (messageFlags message) (message.drop 12)) := by
  have hsame : (addFromL7 session (messageFlags message) (message.drop 12)).inFlight =
      session.inFlight ∧ (addFromL7 session (messageFlags message) (message.drop 12)).finSent =
      session.finSent := by
    unfold addFromL7
    dsimp only
    split_ifs <;> exact ⟨rfl, rfl⟩
  have hstate := (addFromL7_receiving session (messageFlags message) (message.drop 12)).2.2
  rcases hok with ⟨hdata, hflag⟩ | hestablished | ⟨hclosed, hblocked⟩
  · have hkept : addFromL7 session (messageFlags message) (message.drop 12) = session := by
      simp [addFromL7, hdata, hflag]
    rwa [hkept]
  · exact silent_of_established (hstate.trans hestablished)
  · refine ⟨fun _ hopen ↦ absurd (hstate.trans hclosed) hopen, fun _ ↦ Or.inl ?_⟩
    rwa [Blocked, hsame.1, hsame.2]

/-- The step lemma for visits: the sender leaves a silent session alone, or it is established. -/
theorem silent_senderVisit {session : Session} (h : Silent session) (accepts : ℕ → Bool) :
    Silent (senderVisit accepts session).session := by
  by_cases hstate : session.state = .established
  · exact silent_of_established ((visit_receiving accepts session).2.2.1.trans hstate)
  · rw [senderVisit_eq, if_neg ((not_sends_iff session).mpr (h.idle hstate))]
    exact h

/-! ### A pass of the sender -/

/-- A pass of the sender ends at this session: the queue refuses its FIN, with no data before it. -/
def EndsPass (accepts : UInt64 → ℕ → Bool) (entry : UInt64 × Session) : Prop :=
  ¬ Blocked entry.2 ∧ entry.2.l7ToTcp.data = [] ∧ entry.2.l7SendFin = true ∧
    accepts entry.1 0 = false

instance (accepts : UInt64 → ℕ → Bool) (entry : UInt64 × Session) :
    Decidable (EndsPass accepts entry) := inferInstanceAs (Decidable (_ ∧ _))

/-- The sessions that a pass of the sender comes to before it ends. -/
def comesTo (accepts : UInt64 → ℕ → Bool) (sessions : Sessions) : List (UInt64 × Session) :=
  sessions.toList.takeWhile fun entry ↦ ¬ EndsPass accepts entry

/-- What a visit puts out: nothing when the sender has nothing to send or the queue refuses. -/
theorem outputs_senderVisit (accepts : ℕ → Bool) (session : Session) :
    (senderVisit accepts session).outputs ≠ [] ↔ Sends session ∧ accepts 0 = true := by
  rw [senderVisit_eq]
  by_cases hsends : Sends session
  · cases haccepts : accepts 0 with
    | true => simp [hsends]
    | false => by_cases hdata : visitPayload session = [] <;> simp [hsends, hdata]
  · simp [hsends]

theorem passOver_iff (accepts : UInt64 → ℕ → Bool) (entry : UInt64 × Session) :
    (senderVisit (accepts entry.1) entry.2).passOver = true ↔ EndsPass accepts entry := by
  have hends : EndsPass accepts entry ↔ Sends entry.2 ∧
      accepts entry.1 0 = false ∧ visitPayload entry.2 = [] := by
    rw [← not_not (a := Sends entry.2), not_sends_iff, visitPayload_eq_nil, EndsPass, not_or,
      Unwritten]
    by_cases hdata : entry.2.l7ToTcp.data = []
    · simp [hdata]
      tauto
    · simp [hdata]
  rw [hends, senderVisit_eq]
  by_cases hsends : Sends entry.2
  · by_cases hrefused : accepts entry.1 0 = false ∧ visitPayload entry.2 = []
    · simp [hsends, hrefused]
    · simp [hsends, hrefused]
  · simp [hsends]

/-- What the sender's loop puts out is what its visits put out, up to the session where it ends. -/
theorem outputs_senderLoop (accepts : UInt64 → ℕ → Bool) (rest : List (UInt64 × Session))
    (sessions : Sessions) :
    (senderLoop accepts rest sessions).2 =
      (rest.takeWhile fun entry ↦ ¬ EndsPass accepts entry).flatMap fun entry ↦
        (senderVisit (accepts entry.1) entry.2).outputs := by
  induction rest generalizing sessions with
  | nil => rfl
  | cons entry rest ih =>
    rw [senderLoop]
    dsimp only
    by_cases hends : EndsPass accepts entry
    · have hsilent : (senderVisit (accepts entry.1) entry.2).outputs = [] := by
        by_contra hout
        have haccepts := ((outputs_senderVisit _ _).mp hout).2
        exact absurd (haccepts.symm.trans hends.2.2.2) (by decide)
      rw [if_pos ((passOver_iff accepts entry).mpr hends), hsilent,
        List.takeWhile_cons_of_neg (by simpa using hends), List.flatMap_nil]
    · rw [if_neg (fun hover ↦ hends ((passOver_iff accepts entry).mp hover)), ih,
        List.takeWhile_cons_of_pos (by simpa using hends), List.flatMap_cons]

/-- What the sender's loop puts out comes from its visits. -/
theorem mem_senderLoop (accepts : UInt64 → ℕ → Bool) {rest : List (UInt64 × Session)}
    {sessions : Sessions} {out : Output} (h : out ∈ (senderLoop accepts rest sessions).2) :
    ∃ entry ∈ rest, out ∈ (senderVisit (accepts entry.1) entry.2).outputs := by
  rw [outputs_senderLoop] at h
  obtain ⟨entry, hentry, hout⟩ := List.mem_flatMap.mp h
  exact ⟨entry, (List.takeWhile_subset _) hentry, hout⟩

/-! ### Steps of the server -/

/-- The step hands over payload, and sends data and FINs, on established sessions only. -/
def OnlyEstablished (config : ServerConfig) (state : Option Server) : ThreadEvent → Prop
  | .data (.segment environment segment) => ∀ server, state = some server →
      handedPayloads (runIn config.toConfig environment segment server.sessions).2 ≠ [] →
      (∀ session, server.sessions[segmentId segment]? = some session →
        session.state = .established) ∧
      ∃ session, (runIn config.toConfig environment segment
        server.sessions).1[segmentId segment]? = some session ∧ session.state = .established
  | .data (.pass accepts) => ∀ server, state = some server →
      (∀ entry ∈ comesTo accepts server.sessions,
        (senderVisit (accepts entry.1) entry.2).outputs ≠ [] → entry.2.state = .established) ∧
      ∀ out ∈ (senderPass accepts server.sessions).2, ∃ entry ∈ comesTo accepts server.sessions,
        entry.2.state = .established ∧ out ∈ (senderVisit (accepts entry.1) entry.2).outputs
  | _ => True

/-- What the step finds. A segment brings no payload with the expected number to an open session
that is not established. At a session that is not established, for which the queue takes a segment,
a pass of the sender finds that it has to wait, or that the buffer is empty and no FIN is wanted. -/
def FindsQuiet (state : Option Server) : ThreadEvent → Prop
  | .data (.segment environment segment) => ∀ server session, state = some server →
      server.sessions[segmentId segment]? = some session →
      early environment segment session = false
  | .data (.pass accepts) => ∀ server, state = some server →
      ∀ entry ∈ comesTo accepts server.sessions, entry.2.state ≠ .established →
        accepts entry.1 0 = true → Blocked entry.2 ∨ Unwritten entry.2
  | _ => True

section Step

variable (config : ServerConfig)

theorem onlyEstablished_segment_iff (state : Option Server) (environment : Environment)
    (segment : Segment) :
    OnlyEstablished config state (.data (.segment environment segment)) ↔
      FindsQuiet state (.data (.segment environment segment)) := by
  constructor
  · intro h server session hserver hentry
    by_contra hearly
    have hearly : early environment segment session = true := by simpa using hearly
    have hhanded := handed_of_early config.toConfig (segmentId segment) hearly
    have houtputs := (runIn_known config.toConfig environment segment hentry).2
    have hstate := (h server hserver (houtputs ▸ hhanded)).1 session hentry
    simp [early, hstate] at hearly
  · intro h server hserver hhanded
    cases hentry : server.sessions[segmentId segment]? with
    | some session =>
      obtain ⟨hafter, houtputs⟩ := runIn_known config.toConfig environment segment hentry
      rw [houtputs] at hhanded
      obtain ⟨hbefore, next, hnext, hstate⟩ := established_of_handed config.toConfig
        (segmentId segment) (h server session hserver hentry) hhanded
      refine ⟨fun found hfound ↦ ?_, next, hafter.trans hnext, hstate⟩
      rwa [← Option.some.inj hfound]
    | none =>
      obtain ⟨hafter, houtputs⟩ := runIn_unknown config.toConfig environment segment hentry
      rw [houtputs] at hhanded
      refine ⟨fun found hfound ↦ absurd hfound (by simp), ?_⟩
      by_contra hnone
      refine hhanded (runInNew_other fun shmPeer hcompletes ↦ hnone ?_).2
      exact ⟨_, hafter.trans (session_runInNew_completes hcompletes), rfl⟩

theorem onlyEstablished_pass_iff (state : Option Server) (accepts : UInt64 → ℕ → Bool) :
    OnlyEstablished config state (.data (.pass accepts)) ↔
      FindsQuiet state (.data (.pass accepts)) := by
  constructor
  · intro h server hserver entry hentry hstate haccepts
    rw [← not_sends_iff]
    intro hsends
    exact hstate ((h server hserver).1 entry hentry
      ((outputs_senderVisit _ _).mpr ⟨hsends, haccepts⟩))
  · intro h server hserver
    have hvisit : ∀ entry ∈ comesTo accepts server.sessions,
        (senderVisit (accepts entry.1) entry.2).outputs ≠ [] → entry.2.state = .established := by
      intro entry hentry hout
      by_contra hstate
      obtain ⟨hsends, haccepts⟩ := (outputs_senderVisit _ _).mp hout
      exact (not_sends_iff _).mpr (h server hserver entry hentry hstate haccepts) hsends
    refine ⟨hvisit, fun out hout ↦ ?_⟩
    rw [senderPass, outputs_senderLoop] at hout
    obtain ⟨entry, hentry, hfrom⟩ := List.mem_flatMap.mp hout
    exact ⟨entry, hentry, hvisit entry hentry (List.ne_nil_of_mem hfrom), hfrom⟩

/-- A step lets data flow on established sessions only exactly when what it finds is quiet. -/
theorem onlyEstablished_iff (state : Option Server) (event : ThreadEvent) :
    OnlyEstablished config state event ↔ FindsQuiet state event := by
  cases event with
  | data input =>
    cases input with
    | segment environment segment =>
      exact onlyEstablished_segment_iff config state environment segment
    | message message => exact Iff.rfl
    | pass accepts => exact onlyEstablished_pass_iff config state accepts
  | _ => exact Iff.rfl

end Step

/-- Data flows on established sessions only, in every step of a run, exactly when every step finds
it so: no payload with the expected number for an open session that is not established, and no
session with something to send that is not established, where a pass of the sender comes to. -/
theorem data_only_established_iff (config : ServerConfig) (start : Option Server)
    (events : List ThreadEvent) :
    Along (threadStep config) (OnlyEstablished config) start events ↔
      Along (threadStep config) FindsQuiet start events :=
  along_congr (onlyEstablished_iff config) start events

/-! ### Runs that keep the sessions silent -/

/-- The step is none of those that leave a session with something to send that is not established:
a segment does not close a session with a pending FIN and is no payload before the session is
established, and a message is for a session that may be written to. -/
def Disciplined (state : Option Server) : ThreadEvent → Prop
  | .data (.segment environment segment) => ∀ server session, state = some server →
      server.sessions[segmentId segment]? = some session →
      (closes segment session = true → ¬ FinPending session) ∧
        early environment segment session = false
  | .data (.message message) => ∀ server session, state = some server →
      12 ≤ message.length → server.sessions[messageId message]? = some session →
      IsEmpty message ∨ Writable session
  | _ => True

/-- The invariant: every session is silent, also the one that `run_meta` is opening. -/
def SilentServer (state : Option Server) : Prop :=
  ∀ server, state = some server →
    (∀ (sessionId : UInt64) session, server.sessions[sessionId]? = some session →
      Silent session) ∧
    ∀ entry, pendingOpen server.metaThread = some entry → Silent entry.2

section Run

variable {config : ServerConfig} {state : Option Server} {event : ThreadEvent}

/-- The session of an open is silent. -/
theorem Opens.silent {entry : UInt64 × Session} (h : Opens entry) : Silent entry.2 := by
  obtain ⟨fromAddr, dstAddr, srcPort, dstPort, shmDataAddress, localSeq, -, hsession⟩ := h
  rw [hsession]
  refine ⟨fun _ _ ↦ ⟨rfl, rfl⟩, fun hclosed ↦ ?_⟩
  exact absurd hclosed (by simp [openSession])

/-- The step lemma for the invariant. -/
theorem silentServer_step (h : SilentServer state) (hok : Disciplined state event) :
    SilentServer (threadStep config state event).1 := by
  intro next hnext
  cases state with
  | none => exact absurd hnext (by simp [threadStep])
  | some server =>
    obtain ⟨hsessions, hpending⟩ := h server rfl
    constructor
    · intro sessionId session hentry
      have hstep := threadStep_entry hnext sessionId
      rw [hentry] at hstep
      generalize hafter : some session = after at hstep
      cases hstep with
      | idle hother => exact hsessions sessionId session hafter.symm
      | known hid hfound =>
        subst hid
        exact silent_runInSession _ _ (hsessions _ _ hfound) (hok server _ rfl hfound).1
          hafter.symm
      | unknown hid hfound =>
        obtain ⟨shmPeer, -, hmade⟩ := completes_of_session hafter.symm
        rw [hmade]
        exact silent_of_established rfl
      | write hid hfound =>
        obtain ⟨hlong, rfl⟩ := hid
        rw [Option.some.inj hafter]
        exact silent_addFromL7 (hsessions _ _ hfound) (hok server _ rfl hlong hfound)
      | visit hfound =>
        rw [Option.some.inj hafter]
        exact silent_senderVisit (hsessions _ _ hfound) _
      | insert hopened hfound =>
        rw [Option.some.inj hafter]
        exact hpending (sessionId, _) (by rw [hopened]; rfl)
      | remove hmeta => exact absurd hafter (by simp)
    · intro entry hentry
      rcases threadStep_pending hnext hentry with hsame | hopens | ⟨before, hbefore, hcounted⟩
      · exact hpending entry hsame
      · exact hopens.silent
      · have hsilent := hpending _ hbefore
        rw [hcounted]
        exact ⟨hsilent.waiting, hsilent.closed⟩

/-- In a server whose sessions are silent, a step of the allowed kind finds it quiet. -/
theorem findsQuiet_step (h : SilentServer state) (hok : Disciplined state event) :
    FindsQuiet state event := by
  cases event with
  | data input =>
    cases input with
    | segment environment segment =>
      intro server session hserver hentry
      exact (hok server session hserver hentry).2
    | message message => trivial
    | pass accepts =>
      intro server hserver entry hentry hstate _
      have hmem := List.takeWhile_subset _ hentry
      have hfound := Std.ExtTreeMap.mem_toList_iff_getElem?_eq_some.mp hmem
      exact ((h server hserver).1 _ _ hfound).idle hstate
  | _ => trivial

end Run

/-- Data flows on established sessions only. Assumes: along the run, no segment closes a session
with a pending FIN, no payload with the expected number comes before its session is established, and
no application writes to a session that is not established. -/
theorem data_only_established (config : ServerConfig) (events : List ThreadEvent)
    (h : Along (threadStep config) Disciplined (some .start) events) :
    Along (threadStep config) (OnlyEstablished config) (some .start) events := by
  have hstart : SilentServer (some .start) := by
    rintro server ⟨⟩
    refine ⟨fun sessionId session hentry ↦ ?_, fun entry hentry ↦ ?_⟩
    · exact absurd hentry (by simp [Server.start])
    · exact absurd hentry (by simp [Server.start, pendingOpen])
  exact Along.of_invariant hstart (fun _ _ ↦ silentServer_step)
    (fun _ _ hsilent hok ↦ (onlyEstablished_iff config _ _).mpr (findsQuiet_step hsilent hok)) h

/-- A message of an application. -/
def l7Write (sessionId : UInt64) (flags : ℕ) (what : List UInt8) : List UInt8 :=
  leBytes 8 sessionId.toNat ++ leBytes 4 flags ++ what

/-- The request of `tcp_test.cpp` to open a session. -/
def sampleOpen : MetaMessage where
  sender := ascii "test"
  msgNr := 1
  data := ascii
    "action=open\ndst-port=2500\ndst-addr-ip4=192.168.1.1\nshm-data-address=local-pl-tcp"

/-- What the sample server takes from its surroundings for it. -/
def sampleMeta : MetaEnvironment := ⟨fun _ ↦ 0, [40000], 100, true⟩

/-- The id of the session that it opens. -/
def sampleClientId : UInt64 := sessionIdOf 2500 40000 [192, 168, 1, 1] [10, 0, 0, 1]

/-- The SYN/ACK that comes for it. -/
def sampleClientSynAck : Segment where
  fromAddr := [192, 168, 1, 1]
  toAddr := [10, 0, 0, 1]
  sourcePort := 2500
  destinationPort := 40000
  peerSeqNr := 700
  ackSeqNr := 101
  flags := flagSyn ||| flagAck
  windowSize := 1024
  mssIndex := 1
  payload := []
  payload_lt := length_nil_lt

/-- A pass of the sender finds it quiet where all sessions are established. -/
theorem findsQuiet_pass {state : Option Server} (accepts : UInt64 → ℕ → Bool)
    (h : (state.map fun server ↦ server.sessions.toList.all fun entry ↦
      entry.2.state = .established) = some true) : FindsQuiet state (.data (.pass accepts)) := by
  intro server hserver entry hentry hstate
  rw [hserver] at h
  have hall := List.all_eq_true.mp (Option.some.inj h) entry (List.takeWhile_subset _ hentry)
  exact absurd (of_decide_eq_true hall) hstate

/-- The application writes before the SYN/ACK, and the sender comes behind it: the data goes out on
an established session. -/
theorem data_only_established_behind_syn_ack :
    Along (threadStep sampleServer) (OnlyEstablished sampleServer) (some .start)
      [.metaRequest sampleMeta sampleOpen, .metaReply true, .metaInsert,
        .data (.message (l7Write sampleClientId 0 [104, 105])),
        .data (.segment sampleEnvironment sampleClientSynAck), .data (.pass fun _ _ ↦ true)] := by
  refine (data_only_established_iff sampleServer _ _).mpr
    ⟨trivial, trivial, trivial, trivial, ?_, ?_, trivial⟩
  · intro _ session _ _
    have hsyn : hasFlag sampleClientSynAck.flags flagSyn = true := by decide
    simp [early, hsyn]
  · exact findsQuiet_pass _ (by decide +kernel)

-- that data is what the pass sends
example : ((run (threadStep sampleServer) (some .start)
    [.metaRequest sampleMeta sampleOpen, .metaReply true, .metaInsert,
      .data (.message (l7Write sampleClientId 0 [104, 105])),
      .data (.segment sampleEnvironment sampleClientSynAck)]).1.map fun server ↦
        (emitted (senderPass (fun _ _ ↦ true) server.sessions).2).map OutSegment.payload) =
    some [[104, 105]] := by
  decide +kernel

/-- A session is opened and the application writes before the SYN/ACK: the session is in the state
`synSent`, and the next pass of the sender sends the data. -/
theorem data_sent_before_syn_ack :
    (run (threadStep sampleServer) (some .start)
      [.metaRequest sampleMeta sampleOpen, .metaReply true, .metaInsert,
        .data (.message (l7Write sampleClientId 0 [104, 105]))]).1.map (fun server ↦
          (server.sessions[sampleClientId]?.map Session.state,
            (emitted (senderPass (fun _ _ ↦ true) server.sessions).2).map OutSegment.payload)) =
      some (some .synSent, [[104, 105]]) := by
  decide +kernel

end MyIPNG.Tcp
