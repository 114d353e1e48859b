import MyIPNG.Tcp.Stream

/-!
# Shifted sequence numbers

Two connections that differ only in their initial sequence numbers should behave alike. `shift d d'`
moves the numbers of our direction by `d` and those of the peer's direction by `d'`, in sessions,
segments and outputs, modulo `2 ^ 32`.

Of all that `run_in` does with sequence numbers, only the comparison `ack_seq_nr >= local_seq` sees
where in the sequence space they are; the comparison of the peer's numbers has two branches that do
the same. A segment without SYN and RST acts alike on the shifted session if and only if that
comparison is not made or comes out alike (`run_shift_iff`), and whole histories whose segments
meet this are shifted as a whole. An acknowledgement across `2 ^ 32` does not meet it
(`ack_across_wrap_differs`).
-/

set_option autoImplicit false
set_option relaxedAutoImplicit false

namespace MyIPNG.Tcp

open Base

/-! ### Shifts -/

/-- The session with `localSeq` moved by `d` and `peerSeq` by `d'`. -/
def Session.shift (d d' : UInt32) (session : Session) : Session :=
  { session with localSeq := session.localSeq + d, peerSeq := session.peerSeq + d' }

/-- The segment of the peer with its acknowledgement number moved by `d` and its sequence number
by `d'`. -/
def Segment.shift (d d' : UInt32) (segment : Segment) : Segment :=
  { segment with ackSeqNr := segment.ackSeqNr + d, peerSeqNr := segment.peerSeqNr + d' }

/-- The segment to the peer with its sequence number moved by `d` and its acknowledgement number
by `d'`. -/
def OutSegment.shift (d d' : UInt32) (out : OutSegment) : OutSegment :=
  { out with seqNr := out.seqNr + d, ackNr := out.ackNr + d' }

/-- Messages to the application carry no sequence numbers. -/
def Output.shift (d d' : UInt32) : Output → Output
  | .toIp segment => .toIp (segment.shift d d')
  | .toL7 peer message => .toL7 peer message

def InResult.shift (d d' : UInt32) (result : InResult) : InResult :=
  ⟨result.session.map (Session.shift d d'), result.outputs.map (Output.shift d d'), result.resend⟩

def SessionEvent.shift (d d' : UInt32) : SessionEvent → SessionEvent
  | .segment environment incoming => .segment environment (incoming.shift d d')
  | .write flags what => .write flags what
  | .visit accepts => .visit accepts

section Shift

variable (d d' : UInt32)

theorem shift_add (number step shift : UInt32) : number + shift + step = number + step + shift := by
  rw [UInt32.add_assoc, UInt32.add_comm shift, ← UInt32.add_assoc]

theorem offset_shift (start number shift : UInt32) :
    offset (start + shift) (number + shift) = offset start number := by
  have hsub : number + shift - (start + shift) = number - start := by grind
  rw [offset, offset, hsub]

@[simp] theorem payload_shift (segment : Segment) :
    (segment.shift d d').payload = segment.payload := rfl

@[simp] theorem flags_shift (segment : Segment) : (segment.shift d d').flags = segment.flags := rfl

@[simp] theorem halfClosed_shift (session : Session) :
    (session.shift d d').halfClosed = session.halfClosed := rfl

@[simp] theorem shmPeer_shift (session : Session) :
    (session.shift d d').shmPeer = session.shmPeer := rfl

@[simp] theorem l7Message_shift (sessionId : UInt64) (segment : Segment) (flags : UInt32)
    (payload : List UInt8) :
    l7Message sessionId (segment.shift d d') flags payload =
      l7Message sessionId segment flags payload := rfl

@[simp] theorem shift_toIp (segment : OutSegment) :
    (Output.toIp segment).shift d d' = .toIp (segment.shift d d') := rfl

@[simp] theorem shift_toL7 (peer : List UInt8) (message : L7Message) :
    (Output.toL7 peer message).shift d d' = .toL7 peer message := rfl

/-- A segment without data that is sent shifted. -/
theorem sendTcpPacket_shift (accepts : ℕ → Bool) (header : OutSegment) (mss : Mss)
    (h : header.payload = []) :
    sendTcpPacket accepts (header.shift d d') mss =
      ((sendTcpPacket accepts header mss).1.map (OutSegment.shift d d'),
        (sendTcpPacket accepts header mss).2) := by
  rw [sendTcpPacket_empty accepts header mss h,
    sendTcpPacket_empty accepts (header.shift d d') mss h]
  split_ifs <;> rfl

/-- An answer without data to the shifted segment is the shifted answer. -/
theorem sendAck_shift (accepted : Bool) (segment : Segment) (session : Session) (ackNr : UInt32) :
    sendAck accepted (segment.shift d d') (session.shift d d') (ackNr + d') =
      ((sendAck accepted segment session ackNr).1.map (OutSegment.shift d d'),
        (sendAck accepted segment session ackNr).2) :=
  sendTcpPacket_shift d d' _ (replyHeader segment session.localSeq ackNr flagAck
    session.localWindowSize) session.mss rfl

/-! ### The parts of the loop body -/

def DataResult.shift (result : DataResult) : DataResult :=
  { result with
    session := result.session.shift d d'
    outputs := result.outputs.map (Output.shift d d') }

theorem deliverData_shift (environment : Environment) (sessionId : UInt64) (segment : Segment)
    (session : Session) :
    deliverData environment sessionId (segment.shift d d') (session.shift d d') =
      (deliverData environment sessionId segment session).shift d d' := by
  have hack : (session.shift d d').peerSeq + UInt32.ofNat segment.payload.length =
      session.peerSeq + UInt32.ofNat segment.payload.length + d' := shift_add _ _ _
  unfold deliverData
  by_cases horder : segment.peerSeqNr = session.peerSeq
  · have hshifted : (segment.shift d d').peerSeqNr = (session.shift d d').peerSeq := by
      rw [Segment.shift, Session.shift, horder]
    rw [if_pos hshifted, if_pos horder]
    have hmessage : l7Message sessionId (segment.shift d d')
        (if (session.shift d d').halfClosed then miTcpFin else 0) segment.payload =
        l7Message sessionId segment (if session.halfClosed then miTcpFin else 0)
          segment.payload := rfl
    simp only [payload_shift, flags_shift, shmPeer_shift, hmessage, hack, sendAck_shift]
    generalize hsent : sendAck environment.ackOk segment session
      (session.peerSeq + UInt32.ofNat segment.payload.length) = sent
    by_cases hpos : 0 < segment.payload.length
    · cases environment.dataOk
      · simp [hpos, DataResult.shift]
      · by_cases hok : sent.2 = 0
        · simp [hpos, hok, DataResult.shift, Session.shift, shift_add]
        · simp [hpos, hok, DataResult.shift]
    · by_cases hflag : hasFlag segment.flags flagAck = true
      · simp [hpos, hflag, DataResult.shift]
      · by_cases hok : sent.2 = 0
        · simp [hpos, hflag, hok, DataResult.shift, Session.shift, shift_add]
        · simp [hpos, hflag, hok, DataResult.shift]
  · have hshifted : ¬ (segment.shift d d').peerSeqNr = (session.shift d d').peerSeq := by
      simpa [Segment.shift, Session.shift] using horder
    have hpeerSeq : (session.shift d d').peerSeq = session.peerSeq + d' := rfl
    rw [if_neg hshifted, if_neg horder, ite_self, ite_self, hpeerSeq, sendAck_shift]
    simp [DataResult.shift]

theorem handleFin_shift (environment : Environment) (segment : Segment) (ackedPacket : Bool)
    (session : Session) :
    handleFin environment (segment.shift d d') ackedPacket (session.shift d d') =
      ((handleFin environment segment ackedPacket session).1.shift d d',
        (handleFin environment segment ackedPacket session).2.map (Output.shift d d')) := by
  have hconsumed : (if (session.shift d d').halfClosed = false then
        { session.shift d d' with
          peerSeq := (session.shift d d').peerSeq + 1
          halfClosed := true }
      else session.shift d d') =
      (if session.halfClosed = false then
        { session with peerSeq := session.peerSeq + 1, halfClosed := true } else session).shift
        d d' := by
    by_cases hclosed : session.halfClosed = false
    · simp [hclosed, Session.shift, shift_add]
    · simp [hclosed]
  unfold handleFin
  simp only [flags_shift, hconsumed]
  by_cases hfin : hasFlag segment.flags flagFin = true
  · generalize (if session.halfClosed = false then
      { session with peerSeq := session.peerSeq + 1, halfClosed := true } else session) = consumed
    have hack : (consumed.shift d d').peerSeq + UInt32.ofNat segment.payload.length =
        consumed.peerSeq + UInt32.ofNat segment.payload.length + d' := shift_add _ _ _
    cases ackedPacket
    · simp [hfin, hack, sendAck_shift]
    · simp [hfin]
  · simp [hfin]

theorem clean_shift (environment : Environment) (sessionId : UInt64) (segment : Segment)
    (invalid invalidWRst invalidIncAck cleanSession : Bool) (session : Session) :
    clean environment sessionId (segment.shift d d') invalid invalidWRst invalidIncAck cleanSession
        (some (session.shift d d')) =
      ((clean environment sessionId segment invalid invalidWRst invalidIncAck cleanSession
          (some session)).1.map (Session.shift d d'),
        (clean environment sessionId segment invalid invalidWRst invalidIncAck cleanSession
          (some session)).2.map (Output.shift d d')) := by
  have hack : (segment.shift d d').peerSeqNr + (if invalidIncAck then 1 else 0) =
      segment.peerSeqNr + (if invalidIncAck then 1 else 0) + d' := shift_add _ _ _
  unfold clean
  cases invalid
  · cases cleanSession
    · simp
    · cases environment.closeOk <;> simp
  · have hrst := sendTcpPacket_shift d d' (fun _ ↦ environment.rstOk)
      (replyHeader segment session.localSeq (segment.peerSeqNr + if invalidIncAck then 1 else 0)
        flagRst segment.windowSize) minTcpMtu rfl
    have hheader : replyHeader (segment.shift d d') (session.shift d d').localSeq
        (segment.peerSeqNr + (if invalidIncAck then 1 else 0) + d') flagRst segment.windowSize =
        (replyHeader segment session.localSeq (segment.peerSeqNr + if invalidIncAck then 1 else 0)
          flagRst segment.windowSize).shift d d' := rfl
    have hwindow : (segment.shift d d').windowSize = segment.windowSize := rfl
    cases invalidWRst
    · cases environment.closeOk <;> simp [Session.shift]
    · simp only [Bool.true_or, if_true, Bool.true_and, Option.isSome_some, Option.map_some,
        Option.getD_some, hack, hwindow, hheader, hrst]
      cases environment.closeOk <;> simp [Session.shift]

/-- The part behind the branches on the flags. -/
theorem processData_shift (environment : Environment) (sessionId : UInt64) (segment : Segment)
    (invalid invalidIncAck resend : Bool) (session : Session) :
    processData environment sessionId (segment.shift d d') invalid invalidIncAck resend
        (session.shift d d') =
      (processData environment sessionId segment invalid invalidIncAck resend session).shift
        d d' := by
  have hdata : (if invalid = false then
        deliverData environment sessionId (segment.shift d d') (session.shift d d')
      else ⟨session.shift d d', [], false, false⟩) =
      (if invalid = false then deliverData environment sessionId segment session
        else ⟨session, [], false, false⟩).shift d d' := by
    split_ifs
    · exact deliverData_shift d d' environment sessionId segment session
    · rfl
  unfold processData
  rw [hdata]
  simp only [DataResult.shift, handleFin_shift, clean_shift, InResult.shift, List.map_append]

/-! ### The acknowledgement branch -/

/-- The comparison of the acknowledgement number with `localSeq` comes out alike when both are
moved. -/
def ComparesAlike (session : Session) (ackSeqNr : UInt32) : Prop :=
  session.localSeq ≤ ackSeqNr ↔ session.localSeq + d ≤ ackSeqNr + d

/-- The acknowledgement branch acts alike when its comparison comes out alike. -/
theorem ackPending_shift {session : Session} {ackSeqNr : UInt32}
    (halike : ComparesAlike d session ackSeqNr) :
    ackPending (session.shift d d') (ackSeqNr + d) =
      ((ackPending session ackSeqNr).1.shift d d', (ackPending session ackSeqNr).2) := by
  have hoffset : offset (session.shift d d').localSeq (ackSeqNr + d) =
      offset session.localSeq ackSeqNr := offset_shift _ _ _
  have hinFlight : (session.shift d d').inFlight = session.inFlight := rfl
  rcases ackPending_cases session ackSeqNr with ⟨hle, hpart, heq⟩ | ⟨hle, hahead, heq⟩ |
    ⟨hnot, heq⟩
  · rcases ackPending_cases (session.shift d d') (ackSeqNr + d) with ⟨-, -, heq'⟩ |
      ⟨-, hahead', -⟩ | ⟨hnot', -⟩
    · rw [heq, heq', hoffset]
      rfl
    · exact absurd hahead' (by omega)
    · exact absurd (halike.mp hle) hnot'
  · rcases ackPending_cases (session.shift d d') (ackSeqNr + d) with ⟨-, hpart', -⟩ |
      ⟨-, -, heq'⟩ | ⟨hnot', -⟩
    · exact absurd hpart' (by omega)
    · rw [heq, heq']
    · exact absurd (halike.mp hle) hnot'
  · rcases ackPending_cases (session.shift d d') (ackSeqNr + d) with ⟨hle', -⟩ | ⟨hle', -⟩ |
      ⟨-, heq'⟩
    · exact absurd (halike.mpr hle') hnot
    · exact absurd (halike.mpr hle') hnot
    · rw [heq, heq']
      rfl

/-- When the comparison differs, one side counts bytes as acknowledged, or does nothing, where the
other only sends again. -/
theorem comparesAlike_of_eq {session : Session} {ackSeqNr : UInt32}
    (hresend : (ackPending (session.shift d d') (ackSeqNr + d)).2 =
      (ackPending session ackSeqNr).2)
    (hlocalSeq : (ackPending (session.shift d d') (ackSeqNr + d)).1.localSeq =
      (ackPending session ackSeqNr).1.localSeq + d) :
    ComparesAlike d session ackSeqNr := by
  constructor
  · intro hle
    by_contra hnot'
    obtain ⟨-, heq'⟩ : _ ∧ _ := ((ackPending_cases (session.shift d d')
      (ackSeqNr + d)).resolve_left fun h ↦ hnot' h.1).resolve_left fun h ↦ hnot' h.1
    rcases ackPending_cases session ackSeqNr with ⟨-, -, heq⟩ | ⟨-, -, heq⟩ | ⟨hnot, -⟩
    · rw [heq, heq'] at hlocalSeq
      have hsame : session.localSeq = ackSeqNr := (UInt32.add_left_inj d).mp hlocalSeq
      exact hnot' (hsame ▸ UInt32.le_refl _)
    · rw [heq, heq'] at hresend
      exact absurd hresend (by simp)
    · exact hnot hle
  · intro hle'
    by_contra hnot
    obtain ⟨-, heq⟩ : _ ∧ _ := ((ackPending_cases session ackSeqNr).resolve_left
      fun h ↦ hnot h.1).resolve_left fun h ↦ hnot h.1
    rcases ackPending_cases (session.shift d d') (ackSeqNr + d) with ⟨-, -, heq'⟩ |
      ⟨-, -, heq'⟩ | ⟨hnot', -⟩
    · rw [heq, heq'] at hlocalSeq
      have hsame : ackSeqNr = session.localSeq := (UInt32.add_left_inj d).mp hlocalSeq
      exact hnot (hsame ▸ UInt32.le_refl _)
    · rw [heq, heq'] at hresend
      exact absurd hresend (by simp)
    · exact hnot' hle'

/-! ### A whole segment -/

/-- The comparison is not made, because the session is closed or the segment acknowledges nothing,
or it comes out alike. -/
def ActsAlike (session : Session) (segment : Segment) : Prop :=
  session.state = .closed ∨ hasFlag segment.flags flagAck = false ∨
    ComparesAlike d session segment.ackSeqNr

instance (session : Session) (segment : Segment) : Decidable (ActsAlike d session segment) :=
  inferInstanceAs (Decidable (session.state = .closed ∨ hasFlag segment.flags flagAck = false ∨
    (session.localSeq ≤ segment.ackSeqNr ↔ session.localSeq + d ≤ segment.ackSeqNr + d)))

theorem afterAck_shift {session : Session} {segment : Segment} (hopen : session.state ≠ .closed)
    (halike : ActsAlike d session segment) :
    afterAck (segment.shift d d') (session.shift d d') =
      ((afterAck segment session).1.shift d d', (afterAck segment session).2) := by
  unfold afterAck
  by_cases hack : hasFlag segment.flags flagAck = true
  · have hcompare : ComparesAlike d session segment.ackSeqNr :=
      (halike.resolve_left hopen).resolve_left (by simp [hack])
    simp only [flags_shift, hack, if_true]
    exact ackPending_shift d d' hcompare
  · simp [hack]

/-- A segment that acts alike on the shifted session. -/
theorem runInSession_shift (config : Config) (environment : Environment) (sessionId : UInt64)
    {segment : Segment} (hplain : Plain segment) {session : Session}
    (halike : ActsAlike d session segment) :
    runInSession config environment sessionId (segment.shift d d') (session.shift d d') =
      (runInSession config environment sessionId segment session).shift d d' := by
  by_cases hclosed : session.state = .closed
  · have hclean := clean_shift d d' environment sessionId segment true true false false
      (touched environment segment session)
    have htouched : touched environment (segment.shift d d') (session.shift d d') =
        (touched environment segment session).shift d d' := rfl
    have hclosed' : (session.shift d d').state = .closed := hclosed
    rw [runInSession_closed config environment sessionId segment hclosed,
      runInSession_closed config environment sessionId (segment.shift d d') hclosed']
    simp only [htouched, hclean, InResult.shift]
  · have hopen : (touched environment segment session).state ≠ .closed := hclosed
    have hacked := afterAck_shift d d' hopen halike
    have hplain' : Plain (segment.shift d d') := hplain
    have hclosed' : (session.shift d d').state ≠ .closed := hclosed
    rw [runInSession_eq config environment sessionId hplain hclosed,
      runInSession_eq config environment sessionId hplain' hclosed']
    have htouched : touched environment (segment.shift d d') (session.shift d d') =
        (touched environment segment session).shift d d' := rfl
    have hreaches : reaches (segment.shift d d') = reaches segment := rfl
    simp only [htouched, hreaches, hacked]
    split_ifs
    · exact processData_shift d d' environment sessionId segment false false _ _
    · rfl

/-- A segment acts alike on the shifted session only when the comparison is not made or comes out
alike. -/
theorem actsAlike_of_eq (config : Config) (environment : Environment) (sessionId : UInt64)
    {segment : Segment} (hplain : Plain segment) {session : Session}
    (heq : runInSession config environment sessionId (segment.shift d d') (session.shift d d') =
      (runInSession config environment sessionId segment session).shift d d') :
    ActsAlike d session segment := by
  by_cases hclosed : session.state = .closed
  · exact Or.inl hclosed
  by_cases hack : hasFlag segment.flags flagAck = true
  · obtain ⟨hsession, hresend, -⟩ :=
      runInSession_plain config environment sessionId hplain hclosed
    have hplain' : Plain (segment.shift d d') := hplain
    have hclosed' : (session.shift d d').state ≠ .closed := hclosed
    obtain ⟨hsession', hresend', -⟩ :=
      runInSession_plain config environment sessionId hplain' hclosed'
    have hafter : afterAck segment (touched environment segment session) =
        ackPending (touched environment segment session) segment.ackSeqNr := by
      simp [afterAck, hack]
    have hafter' : afterAck (segment.shift d d')
        (touched environment (segment.shift d d') (session.shift d d')) =
        ackPending ((touched environment segment session).shift d d')
          (segment.ackSeqNr + d) := by
      simp only [afterAck, flags_shift, hack, if_true]
      rfl
    rw [heq] at hsession' hresend'
    rw [hafter'] at hsession' hresend'
    rw [hafter] at hsession hresend
    refine Or.inr (Or.inr ?_)
    change ComparesAlike d (touched environment segment session) segment.ackSeqNr
    refine comparesAlike_of_eq d d' ?_ ?_
    · rw [← hresend', ← hresend]
      rfl
    · have hlocalSeq := congrArg (Option.map Session.localSeq) hsession'
      rw [InResult.shift, hsession] at hlocalSeq
      exact (Option.some.inj hlocalSeq).symm
  · exact Or.inr (Or.inl (by simpa using hack))

/-! ### Whole histories -/

theorem senderVisit_shift (accepts : ℕ → Bool) (session : Session) :
    (senderVisit accepts (session.shift d d')).session =
        (senderVisit accepts session).session.shift d d' ∧
      (senderVisit accepts (session.shift d d')).outputs =
        (senderVisit accepts session).outputs.map (Output.shift d d') := by
  have hsends : Sends (session.shift d d') ↔ Sends session := Iff.rfl
  have hpayload : visitPayload (session.shift d d') = visitPayload session := rfl
  have hfin : visitFin (session.shift d d') = visitFin session := rfl
  have hvisited : visited (session.shift d d') = (visited session).shift d d' := by
    simp only [visited, hfin, hpayload]
    simp only [Session.shift, shift_add]
  rw [senderVisit_eq, senderVisit_eq]
  simp only [hsends, hpayload, hfin, hvisited]
  split_ifs <;> exact ⟨rfl, rfl⟩

theorem addFromL7_shift (session : Session) (flags : UInt32) (what : List UInt8) :
    addFromL7 (session.shift d d') flags what = (addFromL7 session flags what).shift d d' := by
  unfold addFromL7
  dsimp only
  split_ifs <;> rfl

/-- A segment without SYN and RST for which the comparison is not made or comes out alike. Writes
and visits of the sender always act alike. -/
def ShiftSafe : Option Session → SessionEvent → Prop
  | some session, .segment _ segment => Plain segment ∧ ActsAlike d session segment
  | _, _ => True

instance : ∀ state event, Decidable (ShiftSafe d state event)
  | some _, .segment _ _ => inferInstanceAs (Decidable (_ ∧ _))
  | none, _ => isTrue (by simp [ShiftSafe])
  | some _, .write _ _ => isTrue trivial
  | some _, .visit _ => isTrue trivial

/-- An event that acts alike on the shifted session. -/
theorem sessionStep_shift (config : Config) (sessionId : UInt64) {state : Option Session}
    {event : SessionEvent} (hsafe : ShiftSafe d state event) :
    sessionStep config sessionId (state.map (Session.shift d d')) (event.shift d d') =
      ((sessionStep config sessionId state event).1.map (Session.shift d d'),
        (sessionStep config sessionId state event).2.map (Output.shift d d')) := by
  cases state with
  | none => rfl
  | some session =>
    cases event with
    | segment environment segment =>
      have hresult := runInSession_shift d d' config environment sessionId hsafe.1 hsafe.2
      change ((runInSession config environment sessionId (segment.shift d d')
        (session.shift d d')).session, (runInSession config environment sessionId
        (segment.shift d d') (session.shift d d')).outputs) = _
      rw [hresult]
      rfl
    | write flags what =>
      change (some (addFromL7 (session.shift d d') flags what), []) = _
      rw [addFromL7_shift]
      rfl
    | visit accepts =>
      obtain ⟨hsession, houtputs⟩ := senderVisit_shift d d' accepts session
      change (some (senderVisit accepts (session.shift d d')).session,
        (senderVisit accepts (session.shift d d')).outputs) = _
      rw [hsession, houtputs]
      rfl

end Shift

/-- The behaviour of the server does not depend on the position in the sequence space exactly where
the comparison does not. A segment without SYN and RST makes the same decisions on the shifted
session, forgets and hands over the same, and leaves the shifted session, if and only if the
comparison of its acknowledgement number is not made or comes out alike. A history whose segments
all meet this is the shifted history as a whole. -/
theorem run_shift_iff (config : Config) (sessionId : UInt64) (d d' : UInt32) :
    (∀ environment segment session, Plain segment →
      (runInSession config environment sessionId (segment.shift d d') (session.shift d d') =
          (runInSession config environment sessionId segment session).shift d d' ↔
        ActsAlike d session segment)) ∧
      ∀ session events, Along (sessionStep config sessionId) (ShiftSafe d) (some session) events →
        run (sessionStep config sessionId) (some (session.shift d d'))
            (events.map (SessionEvent.shift d d')) =
          ((run (sessionStep config sessionId) (some session) events).1.map (Session.shift d d'),
            (run (sessionStep config sessionId) (some session) events).2.map
              (Output.shift d d')) := by
  constructor
  · intro environment segment session hplain
    exact ⟨actsAlike_of_eq d d' config environment sessionId hplain,
      runInSession_shift d d' config environment sessionId hplain⟩
  · intro session events hsafe
    have hstep : ∀ state state' event, state' = Option.map (Session.shift d d') state →
        ShiftSafe d state event →
        (sessionStep config sessionId state' (event.shift d d')).1 =
            Option.map (Session.shift d d') (sessionStep config sessionId state event).1 ∧
          List.Forall₂ (fun output output' ↦ output.shift d d' = output')
            (sessionStep config sessionId state event).2
            (sessionStep config sessionId state' (event.shift d d')).2 := by
      rintro state _ event rfl hok
      rw [sessionStep_shift d d' config sessionId hok]
      refine ⟨rfl, ?_⟩
      rw [← List.forall₂_map_left_iff, List.forall₂_eq_eq_eq]
    have hstart : some (session.shift d d') = Option.map (Session.shift d d') (some session) := rfl
    obtain ⟨hstate, houtputs⟩ := run_lockstep (SessionEvent.shift d d') hstep hstart hsafe
    refine Prod.ext hstate ?_
    rw [← List.forall₂_map_left_iff, List.forall₂_eq_eq_eq] at houtputs
    exact houtputs.symm

theorem run_shift_iff_acked_write :
    let ack := sampleSegment 100 1003 flagAck [9] (by decide)
    let events := [SessionEvent.write 0 [1, 2, 3], .visit fun _ ↦ true,
      .segment sampleEnvironment ack]
    (runInSession sampleConfig sampleEnvironment 0 (ack.shift 5 7)
          ((sampleSession 100 1000).shift 5 7) =
        (runInSession sampleConfig sampleEnvironment 0 ack (sampleSession 100 1000)).shift 5 7 ↔
      ActsAlike 5 (sampleSession 100 1000) ack) ∧
      run (sessionStep sampleConfig 0) (some ((sampleSession 100 1000).shift 5 7))
          (events.map (SessionEvent.shift 5 7)) =
        ((run (sessionStep sampleConfig 0) (some (sampleSession 100 1000)) events).1.map
            (Session.shift 5 7),
          (run (sessionStep sampleConfig 0) (some (sampleSession 100 1000)) events).2.map
            (Output.shift 5 7)) := by
  intro ack events
  have hsafe : Along (sessionStep sampleConfig 0) (ShiftSafe 5) (some (sampleSession 100 1000))
      events := by decide +kernel
  exact ⟨(run_shift_iff sampleConfig 0 5 7).1 sampleEnvironment ack _ (by decide),
    (run_shift_iff sampleConfig 0 5 7).2 _ events hsafe⟩

/-- An acknowledgement of ten bytes in flight, and the same a little below `2 ^ 32`, so that the
acknowledgement number wraps. The first forgets the bytes, the second only sends again. -/
theorem ack_across_wrap_differs :
    let session := { sampleSession 100 1000 with
      l7ToTcp := ⟨0, [1, 2, 3, 4, 5, 6, 7, 8, 9, 10]⟩, inFlight := 10 }
    let ack := sampleSegment 100 1010 flagAck [] (by decide)
    let d : UInt32 := 4294966291
    let result := runInSession sampleConfig sampleEnvironment 0 ack session
    let shifted := runInSession sampleConfig sampleEnvironment 0 (ack.shift d 0)
      (session.shift d 0)
    Plain ack ∧ shifted ≠ result.shift d 0 ∧ (shifted.resend = true ∧ result.resend = false) ∧
      shifted.session.map (fun after ↦ after.l7ToTcp.data.length) = some 10 ∧
      result.session.map (fun after ↦ after.l7ToTcp.data.length) = some 0 := by
  decide +kernel

end MyIPNG.Tcp
