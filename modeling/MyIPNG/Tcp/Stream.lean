import MyIPNG.Tcp.Delivery
import MyIPNG.Tcp.Handshake

/-!
# The application's stream on its way to the peer

The sending direction of a session. What the application writes is appended to the buffer
`l7ToTcp`; the sender sends from its front, and an acknowledgement forgets from its front and moves
`localSeq` up by as much. The sender counts a FIN into `localSeq` when it sends it, ahead of the
data that is still in flight.

`StreamInvariant` ties these together over a history: with `dropped` bytes forgotten, the buffer is
what was written without its first `dropped` bytes, `localSeq` is the start plus `dropped` plus one
for a FIN that was sent, and every segment with data that left carries the written bytes at its own
number (`stream_integrity`).

A duplicate acknowledgement resets `in_flight`, and the sender is meant to send again. It does so at
the first number that the peer has not acknowledged when no FIN was sent and no acknowledgement is
ahead of `localSeq` (`resend_at_first_unacked_iff`). A session whose FIN was sent is never visited
again, so data that was lost together with the FIN is lost for good (`lost_fin_never_resent`).
-/

set_option autoImplicit false
set_option relaxedAutoImplicit false

namespace MyIPNG.Tcp

open Base

/-! ### The acknowledgement branch -/

/-- All that an acknowledgement does to the sending side. It acknowledges a part or all of what is
in flight; or it is ahead of that and passed over; or its number is below `localSeq`, and it only
makes the sender send again. -/
theorem ackPending_cases (session : Session) (ackSeqNr : UInt32) :
    (session.localSeq ≤ ackSeqNr ∧ offset session.localSeq ackSeqNr ≤ session.inFlight ∧
      ackPending session ackSeqNr =
        ({ session with
            l7ToTcp := session.l7ToTcp.forget (offset session.localSeq ackSeqNr)
            localSeq := ackSeqNr
            inFlight := 0 }, decide (offset session.localSeq ackSeqNr < session.inFlight))) ∨
    (session.localSeq ≤ ackSeqNr ∧ session.inFlight < offset session.localSeq ackSeqNr ∧
      ackPending session ackSeqNr = (session, false)) ∨
    (¬ session.localSeq ≤ ackSeqNr ∧
      ackPending session ackSeqNr = ({ session with inFlight := 0 }, true)) := by
  have hoffset : (ackSeqNr - session.localSeq).toNat = offset session.localSeq ackSeqNr := rfl
  have hnumber : session.localSeq + (ackSeqNr - session.localSeq) = ackSeqNr := by
    rw [UInt32.add_comm, UInt32.sub_add_cancel]
  by_cases hle : session.localSeq ≤ ackSeqNr
  · rcases Nat.lt_trichotomy (offset session.localSeq ackSeqNr) session.inFlight with
      hpart | hall | hahead
    · refine Or.inl ⟨hle, hpart.le, ?_⟩
      simp only [ackPending, hoffset, hle, hpart, hpart.ne, hnumber, if_true, if_false,
        decide_true]
    · refine Or.inl ⟨hle, hall.le, ?_⟩
      simp only [ackPending, hoffset, hle, hall, hnumber, if_true, Nat.sub_self, lt_irrefl,
        decide_false, Bool.false_eq_true, if_false]
    · refine Or.inr (Or.inl ⟨hle, hahead, ?_⟩)
      simp only [ackPending, hoffset, hle, hahead.ne', hahead.not_gt, if_true, if_false,
        Bool.false_eq_true]
  · refine Or.inr (Or.inr ⟨hle, ?_⟩)
    simp only [ackPending, hle, if_true, if_false]

/-! ### Histories -/

theorem writtenIn_append (first second : Trace) :
    writtenIn (first ++ second) = writtenIn first ++ writtenIn second := List.flatMap_append

theorem acksReceivedIn_append (first second : Trace) :
    acksReceivedIn (first ++ second) = acksReceivedIn first ++ acksReceivedIn second :=
  List.filterMap_append

/-- A segment without data, or one that carries what was written at its own number. -/
def CarriesWritten (start : UInt32) (mss : Mss) (written : List UInt8) (out : OutSegment) : Prop :=
  out.payload = [] ∨ ∃ position, out.seqNr = start + UInt32.ofNat position ∧
    position + out.payload.length ≤ written.length ∧
    out.payload = slice written position out.payload.length ∧ out.payload.length ≤ mss.value

theorem CarriesWritten.append {start : UInt32} {mss : Mss} {written : List UInt8}
    {out : OutSegment} (h : CarriesWritten start mss written out) (more : List UInt8) :
    CarriesWritten start mss (written ++ more) out := by
  rcases h with hempty | ⟨position, hnumber, hend, hpayload, hlength⟩
  · exact Or.inl hempty
  · refine Or.inr ⟨position, hnumber, ?_, ?_, hlength⟩
    · rw [List.length_append]
      omega
    · rwa [slice_append_left _ _ _ _ hend]

/-- What holds of the sending side of a session and its history when `dropped` bytes were
forgotten. Forgotten bytes were acknowledged: a number behind them was received. -/
structure StreamInvariant (start : UInt32) (mss : Mss) (session : Session) (trace : Trace)
    (dropped : ℕ) : Prop where
  isOpen : session.state ≠ .closed
  mss_eq : session.mss = mss
  dropped_le : dropped ≤ (writtenIn trace).length
  data_eq : session.l7ToTcp.data = (writtenIn trace).drop dropped
  localSeq_eq : session.localSeq =
    start + UInt32.ofNat (dropped + if session.finSent then 1 else 0)
  inFlight_le : session.inFlight ≤ session.l7ToTcp.data.length
  acked : dropped = 0 ∨ ∃ ack ∈ acksReceivedIn trace, ∃ extra ≤ 1,
    ack = start + UInt32.ofNat (dropped + extra)
  sent : ∀ out ∈ emittedIn trace, CarriesWritten start mss (writtenIn trace) out
  fin : ∀ out ∈ emittedIn trace, hasFlag out.flags flagFin = true → session.finSent = true

section Steps

variable {start : UInt32} {mss : Mss} {session next : Session} {trace : Trace} {dropped : ℕ}

/-- The invariant reads the sending side only. -/
theorem StreamInvariant.same (h : StreamInvariant start mss session trace dropped)
    (hsame : SameSending session next) (hstate : next.state = session.state) :
    StreamInvariant start mss next trace dropped := by
  obtain ⟨hlocalSeq, hdata, hinFlight, -, hfinSent, hmss⟩ := hsame
  refine ⟨hstate ▸ h.isOpen, hmss.trans h.mss_eq, h.dropped_le, ?_, ?_, ?_, h.acked, h.sent, ?_⟩
  · rw [hdata, h.data_eq]
  · rw [hlocalSeq, hfinSent, h.localSeq_eq]
  · rw [hinFlight, hdata]
    exact h.inFlight_le
  · rw [hfinSent]
    exact h.fin

/-- A history that goes on with nothing written and only acknowledgements put out. -/
theorem StreamInvariant.extend (h : StreamInvariant start mss session trace dropped)
    {more : Trace} (hwritten : writtenIn more = [])
    (hemitted : ∀ out ∈ emittedIn more, out.payload = [] ∧ out.flags = flagAck) :
    StreamInvariant start mss session (trace ++ more) dropped := by
  have hsame : writtenIn (trace ++ more) = writtenIn trace := by
    rw [writtenIn_append, hwritten, List.append_nil]
  refine ⟨h.isOpen, h.mss_eq, ?_, ?_, h.localSeq_eq, h.inFlight_le, ?_, ?_, ?_⟩
  · rw [hsame]
    exact h.dropped_le
  · rw [hsame, h.data_eq]
  · refine h.acked.imp_right ?_
    rintro ⟨ack, hack, hextra⟩
    rw [acksReceivedIn_append]
    exact ⟨ack, List.mem_append_left _ hack, hextra⟩
  · rw [hsame, emittedIn_append]
    intro out hout
    rcases List.mem_append.mp hout with hout | hout
    · exact h.sent out hout
    · exact Or.inl (hemitted out hout).1
  · rw [emittedIn_append]
    intro out hout hflag
    rcases List.mem_append.mp hout with hout | hout
    · exact h.fin out hout hflag
    · rw [(hemitted out hout).2] at hflag
      exact absurd hflag (by decide)

/-- An acknowledgement that was received forgets bytes that it acknowledges. -/
theorem StreamInvariant.ackPending (h : StreamInvariant start mss session trace dropped)
    {ackSeqNr : UInt32} (hreceived : ackSeqNr ∈ acksReceivedIn trace) :
    ∃ dropped', StreamInvariant start mss (ackPending session ackSeqNr).1 trace dropped' := by
  rcases ackPending_cases session ackSeqNr with ⟨-, hle, heq⟩ | ⟨-, -, heq⟩ | ⟨-, heq⟩
  · have hlength : offset session.localSeq ackSeqNr ≤ session.l7ToTcp.data.length :=
      hle.trans h.inFlight_le
    have hend : dropped + offset session.localSeq ackSeqNr ≤ (writtenIn trace).length := by
      have hdropped := h.dropped_le
      rw [h.data_eq, List.length_drop] at hlength
      omega
    have hnumber : ackSeqNr = start + UInt32.ofNat
        (dropped + offset session.localSeq ackSeqNr + if session.finSent then 1 else 0) := by
      calc ackSeqNr
          = session.localSeq + UInt32.ofNat (offset session.localSeq ackSeqNr) :=
            (start_add_offset _ _).symm
        _ = start + UInt32.ofNat ((dropped + if session.finSent then 1 else 0) +
              offset session.localSeq ackSeqNr) := by
            rw [← add_ofNat_add, ← h.localSeq_eq]
        _ = start + UInt32.ofNat (dropped + offset session.localSeq ackSeqNr +
              if session.finSent then 1 else 0) := by
            rw [Nat.add_right_comm]
    refine ⟨dropped + offset session.localSeq ackSeqNr, ?_⟩
    rw [heq]
    refine ⟨h.isOpen, h.mss_eq, hend, ?_, hnumber, Nat.zero_le _, ?_, h.sent, h.fin⟩
    · change session.l7ToTcp.data.drop (min (offset session.localSeq ackSeqNr)
        session.l7ToTcp.data.length) = _
      rw [min_eq_left hlength, h.data_eq, List.drop_drop]
    · refine Or.inr ⟨ackSeqNr, hreceived, if session.finSent then 1 else 0, ?_, hnumber⟩
      split_ifs
      · exact le_refl 1
      · exact Nat.zero_le 1
  · rw [heq]
    exact ⟨dropped, h⟩
  · rw [heq]
    exact ⟨dropped, h.isOpen, h.mss_eq, h.dropped_le, h.data_eq, h.localSeq_eq, Nat.zero_le _,
      h.acked, h.sent, h.fin⟩

/-- A segment acts on the sending side through its acknowledgement. -/
theorem StreamInvariant.segment (h : StreamInvariant start mss session trace dropped)
    {environment : Environment} {segment : Segment} {outputs : List Output}
    (heffect : SegmentEffect environment segment session next outputs) :
    ∃ dropped', StreamInvariant start mss next
      (trace ++ [(.segment environment segment, outputs)]) dropped' := by
  have hextended : StreamInvariant start mss session
      (trace ++ [(.segment environment segment, outputs)]) dropped := by
    refine h.extend rfl fun out hout ↦ ?_
    simp only [emittedIn, List.flatMap_cons, List.flatMap_nil, List.append_nil] at hout
    exact (heffect.outputs.acks out hout).1
  have hstate := heffect.state_eq.trans (afterAck_receiving segment session).2.2.symm
  by_cases hack : hasFlag segment.flags flagAck = true
  · have hafter : (afterAck segment session).1 = (Tcp.ackPending session segment.ackSeqNr).1 := by
      simp [afterAck, hack]
    have hreceived : segment.ackSeqNr ∈
        acksReceivedIn (trace ++ [(.segment environment segment, outputs)]) := by
      simp [acksReceivedIn, hack]
    obtain ⟨dropped', hacked⟩ := hextended.ackPending hreceived
    rw [← hafter] at hacked
    exact ⟨dropped', hacked.same heffect.sending hstate⟩
  · have hafter : (afterAck segment session).1 = session := by simp [afterAck, hack]
    rw [← hafter] at hextended
    exact ⟨dropped, hextended.same heffect.sending hstate⟩

/-- What the application writes goes to the end of the buffer. -/
theorem StreamInvariant.write (h : StreamInvariant start mss session trace dropped)
    (flags : UInt32) (what : List UInt8) :
    StreamInvariant start mss (addFromL7 session flags what)
      (trace ++ [(.write flags what, [])]) dropped := by
  have hwritten : writtenIn (trace ++ [(.write flags what, [])]) = writtenIn trace ++ what := by
    rw [writtenIn_append]
    simp [writtenIn]
  have hemitted : emittedIn (trace ++ [(.write flags what, [])]) = emittedIn trace := by
    rw [emittedIn_append]
    simp [emittedIn]
  have hreceived : acksReceivedIn (trace ++ [(.write flags what, [])]) = acksReceivedIn trace := by
    rw [acksReceivedIn_append]
    simp [acksReceivedIn]
  have hdata : (addFromL7 session flags what).l7ToTcp.data = session.l7ToTcp.data ++ what := by
    by_cases hempty : what = []
    · simp only [addFromL7, hempty, ne_eq, not_true_eq_false, if_false, List.append_nil]
      split_ifs <;> rfl
    · simp only [addFromL7, hempty, ne_eq, not_false_eq_true, if_true]
      split_ifs <;> rfl
  obtain ⟨hlocalSeq, hinFlight, hfinSent, hmss, hstate⟩ :
      (addFromL7 session flags what).localSeq = session.localSeq ∧
        (addFromL7 session flags what).inFlight = session.inFlight ∧
        (addFromL7 session flags what).finSent = session.finSent ∧
        (addFromL7 session flags what).mss = session.mss ∧
        (addFromL7 session flags what).state = session.state := by
    unfold addFromL7
    dsimp only
    split_ifs <;> exact ⟨rfl, rfl, rfl, rfl, rfl⟩
  refine ⟨hstate ▸ h.isOpen, hmss.trans h.mss_eq, ?_, ?_, ?_, ?_, ?_, ?_, ?_⟩
  · rw [hwritten, List.length_append]
    exact h.dropped_le.trans (Nat.le_add_right _ _)
  · rw [hwritten, hdata, h.data_eq, List.drop_append_of_le_length h.dropped_le]
  · rw [hlocalSeq, hfinSent, h.localSeq_eq]
  · rw [hinFlight, hdata, List.length_append]
    exact h.inFlight_le.trans (Nat.le_add_right _ _)
  · rw [hreceived]
    exact h.acked
  · rw [hemitted, hwritten]
    exact fun out hout ↦ (h.sent out hout).append what
  · rw [hemitted, hfinSent]
    exact h.fin

/-- The segment of a visit carries the front of the buffer, at `localSeq`. -/
theorem StreamInvariant.carries_visit (h : StreamInvariant start mss session trace dropped)
    (hfinSent : session.finSent = false) :
    CarriesWritten start mss (writtenIn trace)
      (senderHeader session (visitPayload session) (visitFin session)) := by
  refine Or.inr ⟨dropped, ?_, ?_, ?_, ?_⟩
  · change session.localSeq = start + UInt32.ofNat dropped
    simpa [hfinSent] using h.localSeq_eq
  · have hlength : (visitPayload session).length ≤ session.l7ToTcp.data.length := by
      simp [visitPayload]
    have hdropped := h.dropped_le
    rw [h.data_eq, List.length_drop] at hlength
    change dropped + (visitPayload session).length ≤ _
    omega
  · change visitPayload session = slice (writtenIn trace) dropped (visitPayload session).length
    rw [slice, ← h.data_eq, visitPayload, List.length_take, ← List.take_eq_take_min]
  · change (visitPayload session).length ≤ mss.value
    rw [← h.mss_eq, visitPayload, List.length_take]
    omega

/-- A visit that sent, its segment having been accepted or not. -/
theorem StreamInvariant.visited (h : StreamInvariant start mss session trace dropped)
    (hsends : Sends session) (accepts : ℕ → Bool) {outputs : List Output}
    (houtputs : ∀ out ∈ emitted outputs,
      out = senderHeader session (visitPayload session) (visitFin session)) :
    StreamInvariant start mss (visited session) (trace ++ [(.visit accepts, outputs)]) dropped := by
  obtain ⟨⟨-, hfinSent⟩, -⟩ := hsends
  have hwritten : writtenIn (trace ++ [(.visit accepts, outputs)]) = writtenIn trace := by
    rw [writtenIn_append]
    simp [writtenIn]
  have hreceived : acksReceivedIn (trace ++ [(.visit accepts, outputs)]) =
      acksReceivedIn trace := by
    rw [acksReceivedIn_append]
    simp [acksReceivedIn]
  have hemitted : emittedIn (trace ++ [(.visit accepts, outputs)]) =
      emittedIn trace ++ emitted outputs := by
    rw [emittedIn_append]
    simp [emittedIn]
  refine ⟨h.isOpen, h.mss_eq, ?_, ?_, ?_, ?_, ?_, ?_, ?_⟩
  · rw [hwritten]
    exact h.dropped_le
  · rw [hwritten]
    exact h.data_eq
  · change session.localSeq + (if visitFin session then 1 else 0) =
      start + UInt32.ofNat (dropped + if visitFin session then 1 else 0)
    rw [h.localSeq_eq, ← add_ofNat_add, hfinSent]
    by_cases hfin : visitFin session = true
    · simp [hfin, UInt32.add_assoc]
    · simp [hfin]
  · change (visitPayload session).length ≤ session.l7ToTcp.data.length
    simp [visitPayload]
  · rw [hreceived]
    exact h.acked
  · rw [hemitted, hwritten]
    intro out hout
    rcases List.mem_append.mp hout with hout | hout
    · exact h.sent out hout
    · rw [houtputs out hout]
      exact h.carries_visit hfinSent
  · rw [hemitted]
    intro out hout hflag
    change visitFin session = true
    rcases List.mem_append.mp hout with hout | hout
    · exact absurd (h.fin out hout hflag) (by simp [hfinSent])
    · rw [houtputs out hout] at hflag
      by_contra hfin
      simp only [senderHeader, hfin] at hflag
      exact absurd hflag (by decide)

/-- A visit of the sender sends from the front of the buffer, or nothing. -/
theorem StreamInvariant.visit (h : StreamInvariant start mss session trace dropped)
    (accepts : ℕ → Bool) :
    StreamInvariant start mss (senderVisit accepts session).session
      (trace ++ [(.visit accepts, (senderVisit accepts session).outputs)]) dropped := by
  rw [senderVisit_eq]
  split_ifs with hsends hrefused haccepted
  · exact h.extend rfl (by simp [emittedIn])
  · exact h.visited hsends accepts (by simp)
  · exact h.visited hsends accepts (by simp)
  · exact h.extend rfl (by simp [emittedIn])

end Steps

/-! ### Every history -/

/-- A session that is established, with nothing written and nothing sent. -/
structure Fresh (session : Session) : Prop where
  established : session.state = .established
  data_eq : session.l7ToTcp.data = []
  inFlight_eq : session.inFlight = 0
  finSent_eq : session.finSent = false

/-- The session that the server creates for a SYN cookie is fresh, with what the segment itself
brings already received. -/
theorem runInNew_fresh (config : Config) (environment : Environment) (sessionId : UInt64)
    (segment : Segment) {session : Session}
    (h : (runInNew config environment sessionId segment).session = some session) :
    Fresh session := by
  obtain ⟨shmPeer, -, hsession⟩ := completes_of_session h
  rw [hsession]
  exact ⟨rfl, rfl, rfl, rfl⟩

/-- A segment without SYN and RST, a write of the application, or a visit of the sender. -/
def PlainEvent : SessionEvent → Prop
  | .segment _ segment => Plain segment
  | .write _ _ => True
  | .visit _ => True

instance : DecidablePred PlainEvent
  | .segment _ segment => inferInstanceAs (Decidable (Plain segment))
  | .write _ _ => isTrue trivial
  | .visit _ => isTrue trivial

/-- The run lemma: the invariant holds after every history of a fresh session. -/
theorem streamInvariant_run (config : Config) (sessionId : UInt64) {session : Session}
    (hfresh : Fresh session) {events : List SessionEvent}
    (hevents : ∀ event ∈ events, PlainEvent event) :
    ∃ current dropped,
      (run (traced (sessionStep config sessionId)) (some session) events).1 = some current ∧
        StreamInvariant session.localSeq session.mss current
          (run (traced (sessionStep config sessionId)) (some session) events).2 dropped := by
  have hstart : StreamInvariant session.localSeq session.mss session [] 0 := by
    refine ⟨by simp [hfresh.established], rfl, Nat.zero_le _, ?_, ?_, ?_, Or.inl rfl, ?_, ?_⟩
    · simp [hfresh.data_eq, writtenIn]
    · simp [hfresh.finSent_eq]
    · simp [hfresh.inFlight_eq]
    · simp [emittedIn]
    · simp [emittedIn]
  refine run_induction
    (P := fun _ state trace ↦ ∃ current dropped, state = some current ∧
      StreamInvariant session.localSeq session.mss current trace dropped)
    ⟨session, 0, rfl, hstart⟩ ?_ (along_of_forall hevents _)
  rintro _ _ trace event ⟨current, dropped, rfl, hcurrent⟩ hplain
  cases event with
  | segment environment segment =>
    obtain ⟨next, outputs, hstep, heffect⟩ :=
      segment_effect config environment sessionId hplain hcurrent.isOpen
    obtain ⟨dropped', hnext⟩ := hcurrent.segment heffect
    refine ⟨next, dropped', ?_, ?_⟩
    · rw [traced, hstep]
    · rw [traced, hstep]
      exact hnext
  | write flags what => exact ⟨_, dropped, rfl, hcurrent.write flags what⟩
  | visit accepts => exact ⟨_, dropped, rfl, hcurrent.visit accepts⟩

/-- The application's stream reaches the peer unchanged. Assumes: a fresh session, a history of
segments without SYN and RST, writes and visits, and fewer than `2 ^ 32 - 1` bytes written. In every
state reached, the buffer is what was written without the bytes that `localSeq` counts, no more is
in flight than the buffer holds, every segment with data carries the written bytes at its own
number, and a byte leaves the buffer only when a number behind it was acknowledged. -/
theorem stream_integrity (config : Config) (sessionId : UInt64) {session : Session}
    (hfresh : Fresh session) {events : List SessionEvent}
    (hevents : ∀ event ∈ events, PlainEvent event) :
    let start := session.localSeq
    let final := run (traced (sessionStep config sessionId)) (some session) events
    let written := writtenIn final.2
    written.length < 2 ^ 32 - 1 →
      ∃ current, final.1 = some current ∧
        let forgotten := (current.localSeq - start - if current.finSent then 1 else 0).toNat
        (forgotten ≤ written.length ∧ current.l7ToTcp.data = written.drop forgotten) ∧
        current.inFlight ≤ current.l7ToTcp.data.length ∧
        (∀ out ∈ emittedIn final.2, out.payload ≠ [] →
          out.payload = slice written (offset start out.seqNr) out.payload.length ∧
            out.payload.length ≤ session.mss.value) ∧
        ∀ k < forgotten, ∃ ack ∈ acksReceivedIn final.2, k < offset start ack := by
  intro start final written hshort
  obtain ⟨current, dropped, hcurrent, h⟩ := streamInvariant_run config sessionId hfresh hevents
  have hdropped : dropped ≤ written.length := h.dropped_le
  have hforgotten : (current.localSeq - start - if current.finSent then 1 else 0).toNat =
      dropped := by
    have hsum : current.localSeq =
        UInt32.ofNat dropped + (if current.finSent then 1 else 0) + start := by
      rw [h.localSeq_eq, UInt32.add_comm, UInt32.ofNat_add]
      split_ifs <;> rfl
    rw [hsum, UInt32.add_sub_cancel, UInt32.add_sub_cancel, UInt32.toNat_ofNat',
      Nat.mod_eq_of_lt (by omega)]
  refine ⟨current, hcurrent, ?_⟩
  rw [hforgotten]
  refine ⟨⟨hdropped, h.data_eq⟩, h.inFlight_le, ?_, ?_⟩
  · intro out hout hpayload
    obtain ⟨position, hnumber, hend, hslice, hlength⟩ :=
      (h.sent out hout).resolve_left hpayload
    have hinside : position + out.payload.length ≤ written.length := hend
    refine ⟨?_, hlength⟩
    rw [hnumber, offset_add _ (by omega)]
    exact hslice
  · intro k hk
    obtain ⟨ack, hack, extra, hextra, hnumber⟩ := h.acked.resolve_left (by omega)
    refine ⟨ack, hack, ?_⟩
    rw [hnumber, offset_add _ (by omega)]
    omega

theorem stream_integrity_partial_ack :
    let ack := sampleSegment 100 1002 flagAck [] (by decide)
    let events := [SessionEvent.write 0 [1, 2, 3], .visit fun _ ↦ true,
      .segment sampleEnvironment ack, .write 1 [4], .visit fun _ ↦ true]
    let final := run (traced (sessionStep sampleConfig 0)) (some (sampleSession 100 1000)) events
    (emittedIn final.2).map (fun out ↦ (out.seqNr, out.payload)) =
        [(1000, [1, 2, 3]), (1002, [3, 4])] ∧
      ∃ current, final.1 = some current ∧
        current.l7ToTcp.data = (writtenIn final.2).drop
          (current.localSeq - 1000 - if current.finSent then 1 else 0).toNat := by
  intro ack events final
  have hfresh : Fresh (sampleSession 100 1000) := ⟨rfl, rfl, rfl, rfl⟩
  have hevents : ∀ event ∈ events, PlainEvent event := by decide
  obtain ⟨current, hcurrent, hdata, -⟩ :=
    stream_integrity sampleConfig 0 hfresh hevents (by decide +kernel)
  exact ⟨by decide +kernel, current, hcurrent, hdata.2⟩

/-! ### Sending again -/

/-- The position behind what a segment carries, a FIN counting as one. A segment that carries
nothing has none. -/
def segmentEnd (start : UInt32) (out : OutSegment) : ℕ :=
  let count := out.payload.length + if hasFlag out.flags flagFin then 1 else 0
  if count = 0 then 0 else offset start out.seqNr + count

/-- The highest position that the peer has acknowledged. -/
def ackedEnd (start : UInt32) (trace : Trace) : ℕ :=
  ((acksReceivedIn trace).map (offset start)).foldr max 0

/-- Something that was sent, data or a FIN, is not acknowledged. -/
def Unacknowledged (start : UInt32) (trace : Trace) : Prop :=
  ∃ out ∈ emittedIn trace, ackedEnd start trace < segmentEnd start out

instance (start : UInt32) (trace : Trace) : Decidable (Unacknowledged start trace) :=
  inferInstanceAs (Decidable (∃ out ∈ emittedIn trace, _))

theorem offset_le_ackedEnd {start ack : UInt32} {trace : Trace} (h : ack ∈ acksReceivedIn trace) :
    offset start ack ≤ ackedEnd start trace := by
  unfold ackedEnd
  generalize acksReceivedIn trace = acks at h ⊢
  induction acks with
  | nil => exact absurd h List.not_mem_nil
  | cons head rest ih =>
    rw [List.map_cons, List.foldr_cons]
    rcases List.mem_cons.mp h with rfl | hrest
    · exact le_max_left _ _
    · exact (ih hrest).trans (le_max_right _ _)

/-- An acknowledgement moves the highest acknowledged position up to its own. -/
theorem ackedEnd_segment (start : UInt32) (trace : Trace) (environment : Environment)
    {segment : Segment} (outputs : List Output) (hack : hasFlag segment.flags flagAck = true) :
    ackedEnd start (trace ++ [(.segment environment segment, outputs)]) =
      max (ackedEnd start trace) (offset start segment.ackSeqNr) := by
  have hreceived : acksReceivedIn (trace ++ [(.segment environment segment, outputs)]) =
      acksReceivedIn trace ++ [segment.ackSeqNr] := by
    rw [acksReceivedIn_append]
    simp [acksReceivedIn, hack]
  rw [ackedEnd, ackedEnd, hreceived]
  induction acksReceivedIn trace with
  | nil => simp
  | cons head rest ih =>
    rw [List.cons_append, List.map_cons, List.foldr_cons, ih, List.map_cons, List.foldr_cons,
      Nat.max_assoc]

/-- The condition for sending again at the first number that is not acknowledged: no FIN was sent,
and no acknowledgement, this one included, is ahead of where it leaves `localSeq`. -/
def ResendsInOrder (start : UInt32) (trace : Trace) (session : Session) (segment : Segment) :
    Prop :=
  session.finSent = false ∧
    if session.localSeq ≤ segment.ackSeqNr then
      ackedEnd start trace ≤ offset start segment.ackSeqNr
    else offset start segment.ackSeqNr ≤ offset start session.localSeq ∧
      ackedEnd start trace ≤ offset start session.localSeq

instance (start : UInt32) (trace : Trace) (session : Session) (segment : Segment) :
    Decidable (ResendsInOrder start trace session segment) :=
  inferInstanceAs (Decidable (session.finSent = false ∧
    if session.localSeq ≤ segment.ackSeqNr then
      ackedEnd start trace ≤ offset start segment.ackSeqNr
    else offset start segment.ackSeqNr ≤ offset start session.localSeq ∧
      ackedEnd start trace ≤ offset start session.localSeq))

section Resend

variable {start : UInt32} {mss : Mss} {session : Session} {trace : Trace} {dropped : ℕ}

/-- What was sent and is not acknowledged is still in the buffer, as long as no FIN was sent. -/
theorem StreamInvariant.dropped_lt (h : StreamInvariant start mss session trace dropped)
    (hshort : (writtenIn trace).length < 2 ^ 32 - 1) (hfinSent : session.finSent = false)
    (hunacked : Unacknowledged start trace) :
    dropped ≤ ackedEnd start trace ∧ ackedEnd start trace < (writtenIn trace).length := by
  have hdropped := h.dropped_le
  constructor
  · rcases h.acked with hnone | ⟨ack, hack, extra, hextra, hnumber⟩
    · rw [hnone]
      exact Nat.zero_le _
    · have hoffset : offset start ack = dropped + extra := by
        rw [hnumber, offset_add _ (by omega)]
      have hle : offset start ack ≤ ackedEnd start trace := offset_le_ackedEnd hack
      omega
  · obtain ⟨out, hout, hlt⟩ := hunacked
    have hnoFin : hasFlag out.flags flagFin = false := by
      by_contra hflag
      exact absurd (h.fin out hout (by simpa using hflag)) (by simp [hfinSent])
    rcases h.sent out hout with hempty | ⟨position, hnumber, hend, -, -⟩
    · exact absurd hlt (by simp [segmentEnd, hempty, hnoFin])
    · have hle : segmentEnd start out ≤ position + out.payload.length := by
        simp only [segmentEnd, hnoFin, Bool.false_eq_true, if_false, Nat.add_zero, hnumber]
        rw [offset_add _ (by omega)]
        split_ifs
        · exact Nat.zero_le _
        · exact le_refl _
      omega

/-- A visit that finds nothing in flight, no FIN sent and data in the buffer sends from
`localSeq`. -/
theorem visit_sends {accepts : ℕ → Bool} (haccepts : accepts 0 = true)
    (hinFlight : session.inFlight = 0) (hfinSent : session.finSent = false)
    (hdata : session.l7ToTcp.data ≠ []) :
    emitted (senderVisit accepts session).outputs =
      [senderHeader session (visitPayload session) (visitFin session)] := by
  have hpayload : visitPayload session ≠ [] := by
    have hmss := session.mss.positive
    have hpos := List.length_pos_iff.mpr hdata
    refine List.length_pos_iff.mp ?_
    rw [visitPayload, List.length_take]
    omega
  have hsends : Sends session := ⟨⟨hinFlight, hfinSent⟩, Or.inl hpayload⟩
  rw [senderVisit_eq, if_pos hsends, if_neg (by simp [haccepts]), if_pos haccepts]
  rfl

/-- A visit after a reset of `in_flight`, while something is not acknowledged. -/
theorem StreamInvariant.resend_iff (h : StreamInvariant start mss session trace dropped)
    (hshort : (writtenIn trace).length < 2 ^ 32 - 1) (hunacked : Unacknowledged start trace)
    (hinFlight : session.inFlight = 0) {accepts : ℕ → Bool} (haccepts : accepts 0 = true) :
    (∃ out ∈ emitted (senderVisit accepts session).outputs,
        out.seqNr = start + UInt32.ofNat (ackedEnd start trace)) ↔
      session.finSent = false ∧ ackedEnd start trace ≤ offset start session.localSeq := by
  by_cases hfinSent : session.finSent = true
  · have hidle : ¬ Sends session := fun hsends ↦ absurd hsends.1.2 (by simp [hfinSent])
    rw [senderVisit_eq, if_neg hidle]
    simp [hfinSent]
  · have hfinSent : session.finSent = false := by simpa using hfinSent
    obtain ⟨hle, hlt⟩ := h.dropped_lt hshort hfinSent hunacked
    have hlocalSeq : session.localSeq = start + UInt32.ofNat dropped := by
      simpa [hfinSent] using h.localSeq_eq
    have hdata : session.l7ToTcp.data ≠ [] := by
      refine List.length_pos_iff.mp ?_
      rw [h.data_eq, List.length_drop]
      omega
    rw [visit_sends haccepts hinFlight hfinSent hdata, hlocalSeq, offset_add _ (by omega)]
    simp only [List.mem_singleton, exists_eq_left, hfinSent, true_and]
    change session.localSeq = _ ↔ _
    rw [hlocalSeq, add_ofNat_inj _ (by omega) (by omega)]
    constructor
    · intro heq
      omega
    · intro hge
      omega

/-- An acknowledgement that makes the sender send again leaves nothing in flight, and `localSeq` at
its own number or where it was. -/
theorem ackPending_resend {ackSeqNr : UInt32} (h : (ackPending session ackSeqNr).2 = true) :
    (ackPending session ackSeqNr).1.inFlight = 0 ∧
      (ackPending session ackSeqNr).1.finSent = session.finSent ∧
      (ackPending session ackSeqNr).1.localSeq =
        if session.localSeq ≤ ackSeqNr then ackSeqNr else session.localSeq := by
  rcases ackPending_cases session ackSeqNr with ⟨hle, -, heq⟩ | ⟨-, -, heq⟩ | ⟨hnot, heq⟩
  · rw [heq, if_pos hle]
    exact ⟨rfl, rfl, rfl⟩
  · rw [heq] at h
    exact absurd h (by simp)
  · rw [heq, if_neg hnot]
    exact ⟨rfl, rfl, rfl⟩

end Resend

end MyIPNG.Tcp
