import MyIPNG.Tcp.Life
import MyIPNG.Tcp.Stream

/-!
# The FIN of the server

Two paths send a FIN for a session: the sender of `run_out`, behind the last byte that the
application wrote, and the close of `run_meta`. `payloadEnd` reads off the segments that were sent
the number behind the last byte of payload, which is where a FIN belongs.

The sender gets it right in a session that was not reset: what was sent and is not acknowledged is
still in the buffer (`SentInvariant`), so a FIN without data finds everything acknowledged. In a
session that was reset the buffer is gone, and the sender still sends the FIN of the application. A
close counts `local_seq` up before it sends, so its FIN is one number too far when all data is
acknowledged, and with data in flight it is somewhere inside of it. `fin_behind_data` has the
conditions under which every FIN of a life is in its place.
-/

set_option autoImplicit false
set_option relaxedAutoImplicit false

namespace MyIPNG.Tcp

open Base Utils

/-! ### Numbers of what was sent -/

/-- The number behind the last byte of payload of the segments, `start` when there is none. -/
def payloadEnd (start : UInt32) (segments : List OutSegment) : UInt32 :=
  segments.foldl (fun number segment ↦ if segment.payload = [] then number
    else segment.seqNr + UInt32.ofNat segment.payload.length) start

/-- What an observer makes of an event. -/
def sentEnd (config : Config) (sessionId : UInt64) (state : Option Session) (number : UInt32)
    (event : LifeEvent) : UInt32 :=
  payloadEnd number (emitted (lifeStep config sessionId state event).2)

/-- The life of a session with its observer. -/
def finStep (config : Config) (sessionId : UInt64) :=
  observed (lifeStep config sessionId) (sentEnd config sessionId)

/-- Every FIN that the step sends occupies the number behind the last byte of payload. -/
def FinAtEnd (config : Config) (sessionId : UInt64) (state : Option Session × UInt32)
    (event : LifeEvent) : Prop :=
  ∀ out ∈ emitted (finStep config sessionId state event).2, hasFlag out.flags flagFin = true →
    out.seqNr + UInt32.ofNat out.payload.length = (finStep config sessionId state event).1.2

/-- The bytes behind the last acknowledged one up to `number`. A FIN that was sent is counted in
`local_seq`. -/
def unacked (session : Session) (number : UInt32) : ℕ :=
  offset (session.localSeq - if session.finSent then 1 else 0) number

/-- The bytes that a segment acknowledges. -/
def ackedBytes (segment : Segment) (session : Session) : ℕ :=
  offset session.localSeq (afterAck segment session).1.localSeq

/-- What keeps every FIN in its place: the peer acknowledges only what was sent; the sender sends no
FIN without data for a session that was reset with bytes left unacknowledged; and a close that sends
its FIN finds exactly as many bytes unacknowledged as make up for the number that it counts. -/
def FinFits (state : Option Session × UInt32) : LifeEvent → Prop
  | .event (.segment _ segment) => ∀ session, state.1 = some session →
    session.state ≠ .closed → session.finSent = false → Plain segment →
    ackedBytes segment session ≤ unacked session state.2
  | .event (.write _ _) => True
  | .event (.visit accepts) => ∀ session, state.1 = some session →
    session.state = .closed → Sends session → visitPayload session = [] → accepts 0 = true →
    unacked session state.2 = 0
  | .close accepted => ∀ session, state.1 = some session → accepted = true →
    unacked session state.2 = if session.finSent then 2 else 1

/-! ### The invariant -/

/-- What was sent and is not acknowledged is in the buffer, unless the session was reset. -/
def SentInvariant (session : Session) (number : UInt32) : Prop :=
  session.state ≠ .closed → session.finSent = false →
    ∃ count, count ≤ session.l7ToTcp.data.length ∧ count ≤ 65536 ∧
      number = session.localSeq + UInt32.ofNat count

section Steps

variable (config : Config) (sessionId : UInt64) {session next : Session} {number : UInt32}

theorem unacked_eq {count : ℕ} (hfin : session.finSent = false) (hsmall : count ≤ 65536) :
    unacked session (session.localSeq + UInt32.ofNat count) = count := by
  rw [unacked, hfin]
  change offset (session.localSeq - 0) _ = count
  rw [UInt32.sub_zero]
  exact offset_add session.localSeq (by omega)

/-- The number behind the last byte of payload, counted from the first one that is not
acknowledged. -/
theorem number_eq (hfin : session.finSent = false) (number : UInt32) :
    number = session.localSeq + UInt32.ofNat (unacked session number) := by
  have hnumber := start_add_offset session.localSeq number
  rw [unacked, hfin]
  change number = session.localSeq + UInt32.ofNat (offset (session.localSeq - 0) number)
  rw [UInt32.sub_zero, hnumber]

/-- A visit that finds no data finds the buffer empty. -/
theorem data_of_visitPayload (h : visitPayload session = []) : session.l7ToTcp.data = [] := by
  have hmss := session.mss.positive
  have hlength := congrArg List.length h
  rw [visitPayload, List.length_take, List.length_nil] at hlength
  exact List.eq_nil_of_length_eq_zero (by omega)

/-- What the observer makes of a segment of the sender. -/
theorem payloadEnd_visit (number : UInt32) (session : Session) (payload : List UInt8)
    (sendFin : Bool) :
    payloadEnd number [senderHeader session payload sendFin] =
      if payload = [] then number else session.localSeq + UInt32.ofNat payload.length := rfl

/-- Replies do not count. -/
theorem payloadEnd_replies {outputs : List Output} (h : OnlyReplies outputs) :
    payloadEnd number (emitted outputs) = number := by
  unfold OnlyReplies at h
  unfold payloadEnd
  generalize emitted outputs = segments at h
  induction segments with
  | nil => rfl
  | cons segment rest ih =>
    rw [List.foldl_cons, if_pos (h segment List.mem_cons_self).1]
    exact ih fun out hout ↦ h out (List.mem_cons_of_mem _ hout)

/-- The invariant reads the state and the sending side. -/
theorem SentInvariant.same (h : SentInvariant session number) (hsending : SameSending session next)
    (hstate : next.state ≠ .closed → session.state ≠ .closed) : SentInvariant next number := by
  intro hopen hfin
  rw [hsending.finSent_eq] at hfin
  obtain ⟨count, hdata, hsmall, hnumber⟩ := h (hstate hopen) hfin
  exact ⟨count, hsending.l7ToTcp_eq ▸ hdata, hsmall, hsending.localSeq_eq ▸ hnumber⟩

/-- An acknowledgement. Assumes: it acknowledges only what was sent. -/
theorem SentInvariant.acked (h : SentInvariant session number) {segment : Segment}
    (hacked : session.state ≠ .closed → session.finSent = false →
      ackedBytes segment session ≤ unacked session number) :
    SentInvariant (afterAck segment session).1 number := by
  unfold ackedBytes at hacked
  unfold afterAck at hacked ⊢
  by_cases hack : hasFlag segment.flags flagAck = true
  · rw [if_pos hack] at hacked ⊢
    rcases ackPending_cases session segment.ackSeqNr with ⟨-, -, heq⟩ | ⟨-, -, heq⟩ | ⟨-, heq⟩
    · rw [heq] at hacked ⊢
      intro hopen hfin
      change session.finSent = false at hfin
      obtain ⟨count, hdata, hsmall, rfl⟩ := h hopen hfin
      have hle := hacked hopen hfin
      rw [unacked_eq hfin hsmall] at hle
      dsimp only at hle ⊢
      generalize hbytes : offset session.localSeq segment.ackSeqNr = bytes at *
      refine ⟨count - bytes, ?_, by omega, ?_⟩
      · simp only [TcpData.forget, List.length_drop]
        omega
      · have hnumber : segment.ackSeqNr = session.localSeq + UInt32.ofNat bytes := by
          rw [← hbytes, start_add_offset]
        rw [hnumber, add_ofNat_add, Nat.add_sub_cancel' hle]
    · rw [heq]
      exact h
    · rw [heq]
      exact h
  · rw [if_neg hack]
    exact h

/-- A segment. Assumes: it acknowledges only what was sent. -/
theorem SentInvariant.segment (h : SentInvariant session number) {segment : Segment}
    (hstep : SendingStep segment session next)
    (hacked : session.state ≠ .closed → session.finSent = false → Plain segment →
      ackedBytes segment session ≤ unacked session number) : SentInvariant next number := by
  cases hstep with
  | acked hopen hplain hstate hsending =>
    have hbefore := h.acked fun hopen hfin ↦ hacked hopen hfin hplain
    refine hbefore.same hsending fun _ ↦ ?_
    rw [(afterAck_receiving segment session).2.2]
    exact hopen
  | kept hopen _ hsending => exact h.same hsending fun _ ↦ hopen
  | forgot finned _ hnext =>
    intro hopen
    rw [hnext] at hopen
    exact absurd rfl hopen

/-- A write of the application. -/
theorem SentInvariant.write (h : SentInvariant session number) (flags : UInt32)
    (what : List UInt8) : SentInvariant (addFromL7 session flags what) number := by
  have hlength : session.l7ToTcp.data.length ≤
      (addFromL7 session flags what).l7ToTcp.data.length := by
    unfold addFromL7 TcpData.add
    dsimp only
    split_ifs <;> simp
  have hsame : (addFromL7 session flags what).state = session.state ∧
      (addFromL7 session flags what).finSent = session.finSent ∧
      (addFromL7 session flags what).localSeq = session.localSeq := by
    unfold addFromL7
    dsimp only
    split_ifs <;> exact ⟨rfl, rfl, rfl⟩
  intro hopen hfin
  rw [hsame.1] at hopen
  rw [hsame.2.1] at hfin
  obtain ⟨count, hdata, hsmall, hnumber⟩ := h hopen hfin
  exact ⟨count, hdata.trans hlength, hsmall, hsame.2.2.symm ▸ hnumber⟩

/-- The flags of the sender have a FIN when the visit sends one. -/
theorem fin_senderHeader (session : Session) (payload : List UInt8) (sendFin : Bool) :
    hasFlag (senderHeader session payload sendFin).flags flagFin = sendFin := by
  cases sendFin with
  | true => exact (by decide : hasFlag (flagFin ||| flagAck ||| flagPsh) flagFin = true)
  | false => exact (by decide : hasFlag (0 ||| flagAck ||| flagPsh) flagFin = false)

/-- A visit of the sender keeps the invariant. -/
theorem SentInvariant.visit (h : SentInvariant session number) (accepts : ℕ → Bool) :
    SentInvariant (senderVisit accepts session).session
      (payloadEnd number (emitted (senderVisit accepts session).outputs)) := by
  rw [senderVisit_eq]
  by_cases hsends : Sends session
  · rw [if_pos hsends]
    by_cases hrefused : accepts 0 = false ∧ visitPayload session = []
    · rw [if_pos hrefused]
      exact h
    · rw [if_neg hrefused]
      intro hopen hfin
      change visitFin session = false at hfin
      have hnumber : session.localSeq + (if visitFin session then 1 else 0) = session.localSeq := by
        rw [hfin]
        exact UInt32.add_zero _
      have hdata : visitPayload session ≠ [] :=
        hsends.2.resolve_right (by rw [hfin]; decide)
      by_cases haccepted : accepts 0 = true
      · rw [if_pos haccepted, emitted_cons_toIp, emitted_nil, payloadEnd_visit,
          if_neg hdata]
        refine ⟨(visitPayload session).length, ?_, ?_, congrArg (· + _) hnumber.symm⟩
        · exact List.length_take_le' _ _
        · exact (List.length_take_le _ _).trans (min_le_left _ _)
      · rw [if_neg haccepted]
        obtain ⟨count, hle, hsmall, hcount⟩ := h hopen hsends.1.2
        exact ⟨count, hle, hsmall, hcount.trans (congrArg (· + _) hnumber.symm)⟩
  · rw [if_neg hsends]
    exact h

/-- What a visit sends. Assumes: a FIN without data for a session that was reset finds nothing
unacknowledged. -/
theorem visit_finAtEnd (h : SentInvariant session number) (accepts : ℕ → Bool)
    (hreset : session.state = .closed → Sends session → visitPayload session = [] →
      accepts 0 = true → unacked session number = 0) :
    ∀ out ∈ emitted (senderVisit accepts session).outputs, hasFlag out.flags flagFin = true →
      out.seqNr + UInt32.ofNat out.payload.length =
        payloadEnd number (emitted (senderVisit accepts session).outputs) := by
  rw [senderVisit_eq]
  by_cases hsends : Sends session
  · rw [if_pos hsends]
    by_cases haccepted : accepts 0 = true
    · rw [if_neg (by simp [haccepted]), if_pos haccepted, emitted_cons_toIp, emitted_nil,
        payloadEnd_visit]
      intro out hout hflag
      obtain rfl := List.mem_singleton.mp hout
      rw [fin_senderHeader] at hflag
      change session.localSeq + UInt32.ofNat (visitPayload session).length = _
      by_cases hdata : visitPayload session = []
      · rw [if_pos hdata, hdata]
        refine (UInt32.add_zero _).trans ?_
        by_cases hclosed : session.state = .closed
        · have hnone := hreset hclosed hsends hdata haccepted
          rw [number_eq hsends.1.2 number, hnone]
          exact (UInt32.add_zero _).symm
        · obtain ⟨count, hle, -, rfl⟩ := h hclosed hsends.1.2
          rw [data_of_visitPayload hdata, List.length_nil, Nat.le_zero] at hle
          rw [hle]
          exact (UInt32.add_zero _).symm
      · rw [if_neg hdata]
    · intro out hout
      by_cases hdata : visitPayload session = []
      · rw [if_pos ⟨by simpa using haccepted, hdata⟩] at hout
        exact absurd hout List.not_mem_nil
      · rw [if_neg fun hboth ↦ hdata hboth.2, if_neg haccepted] at hout
        exact absurd hout List.not_mem_nil
  · rw [if_neg hsends]
    exact fun out hout ↦ absurd hout List.not_mem_nil

/-- The number of the FIN of a close. Assumes: the bytes that are not acknowledged make up for the
number that the close counts, and for that of a FIN that was sent. -/
theorem close_number (h : unacked session number = if session.finSent then 2 else 1) :
    session.localSeq + 1 = number := by
  rw [← start_add_offset (session.localSeq - if session.finSent then 1 else 0) number, ← unacked, h]
  cases session.finSent with
  | false =>
    change session.localSeq + 1 = session.localSeq - 0 + 1
    rw [UInt32.sub_zero]
  | true =>
    change session.localSeq + 1 = session.localSeq - 1 + (1 + 1)
    rw [← UInt32.add_assoc, UInt32.sub_add_cancel]

/-- The step lemma. A step that fits keeps the invariant, and its FIN is in its place. -/
theorem fin_step (h : SentInvariant session number) {event : LifeEvent}
    (hfits : FinFits (some session, number) event) :
    FinAtEnd config sessionId (some session, number) event ∧
      ∀ next, (finStep config sessionId (some session, number) event).1.1 = some next →
        SentInvariant next (finStep config sessionId (some session, number) event).1.2 := by
  cases event with
  | event event =>
    cases event with
    | segment environment segment =>
      have hreplies := reply_runInSession config environment sessionId segment session
      refine ⟨fun out hout hflag ↦ ?_, fun next hnext ↦ ?_⟩
      · exact absurd ((hreplies out hout).2.symm.trans hflag) (by decide)
      · change SentInvariant next (payloadEnd number
          (emitted (runInSession config environment sessionId segment session).outputs))
        rw [payloadEnd_replies hreplies]
        exact h.segment (runInSession_sending config environment sessionId hnext)
          (hfits session rfl)
    | write flags what =>
      refine ⟨fun out hout ↦ absurd hout List.not_mem_nil, fun next hnext ↦ ?_⟩
      obtain rfl := Option.some.inj hnext
      exact h.write flags what
    | visit accepts =>
      refine ⟨visit_finAtEnd h accepts (hfits session rfl), fun next hnext ↦ ?_⟩
      obtain rfl := Option.some.inj hnext
      exact h.visit accepts
  | close accepted =>
    refine ⟨?_, fun next hnext ↦ absurd hnext (by simp [finStep, observed, lifeStep])⟩
    change ∀ out ∈ emitted (closeFin accepted session), _ → _ =
      payloadEnd number (emitted (closeFin accepted session))
    rw [emitted_closeFin]
    cases accepted with
    | false => exact fun out hout ↦ absurd hout List.not_mem_nil
    | true =>
      intro out hout _
      obtain rfl := List.mem_singleton.mp hout
      exact (UInt32.add_zero _).trans (close_number (hfits session rfl rfl))

end Steps

/-! ### Every life -/

/-- Every FIN is behind the data. Assumes: every step of the life of a session fits. Every FIN that
is sent, by the sender or by a close, occupies the number behind the last byte of payload that was
sent, or `local_seq` of the start when none was: in a session as it is made that is the number
behind the SYN. -/
theorem fin_behind_data (config : Config) (sessionId : UInt64) (session : Session)
    (events : List LifeEvent)
    (hfits : Along (finStep config sessionId) FinFits (some session, session.localSeq) events) :
    Along (finStep config sessionId) (FinAtEnd config sessionId) (some session, session.localSeq)
      events := by
  refine hfits.of_invariant (I := fun state ↦ ∀ current, state.1 = some current →
    SentInvariant current state.2) ?_ ?_ ?_
  · rintro current ⟨⟩ _ _
    exact ⟨0, Nat.zero_le _, Nat.zero_le _, (UInt32.add_zero _).symm⟩
  · rintro ⟨state, number⟩ event hinvariant hok
    cases state with
    | none =>
      intro next hnext
      change (lifeStep config sessionId none event).1 = some next at hnext
      rw [lifeStep_none] at hnext
      exact absurd hnext (by simp)
    | some current => exact (fin_step config sessionId (hinvariant current rfl) hok).2
  · rintro ⟨state, number⟩ event hinvariant hok
    cases state with
    | none =>
      intro out hout
      change out ∈ emitted (lifeStep config sessionId none event).2 at hout
      rw [lifeStep_none] at hout
      exact absurd hout List.not_mem_nil
    | some current => exact (fin_step config sessionId (hinvariant current rfl) hok).1

/-- One byte is sent, and the session closed while it is in flight: the FIN is behind it. -/
theorem fin_behind_one_byte :
    Along (finStep sampleConfig 0) (FinAtEnd sampleConfig 0) (some (sampleSession 8 100), 100)
      [.event (.write 0 [9]), .event (.visit fun _ ↦ true), .close true] := by
  refine fin_behind_data sampleConfig 0 (sampleSession 8 100) _ ⟨trivial, ?_, ?_, trivial⟩
  · rintro _ ⟨⟩ hclosed
    exact absurd hclosed (by decide)
  · rintro _ ⟨⟩ -
    decide +kernel

/-- A client opens a session with the number 100 and closes it. -/
def sampleCloseRun : List ThreadEvent :=
  [.metaRequest ⟨fun _ ↦ 0, [40342], 100, true⟩ ⟨ascii "test", 1, ascii
      "action=open\ndst-port=80\ndst-addr-ip4=192.52.197.35\nshm-data-address=h"⟩,
    .metaReply true, .metaInsert,
    .metaRequest ⟨fun _ ↦ 0, [], 0, true⟩ ⟨ascii "test", 2, closeText 0x2ebd5fd4⟩, .metaFin true]

/-- The session of that client behind its SYN. -/
def sampleClosable : Session :=
  { openSession [10, 0, 0, 1] [192, 52, 197, 35] 40342 80 (ascii "h") 100 with localSeq := 101 }

/-- The FIN of the close has the number 102 where the SYN had 100 and no data was sent. And the
sender's FIN in a session that was reset: three bytes are sent from 100 on, the peer acknowledges
one of them and resets, the application ends its stream, and the FIN has the number 101. -/
theorem fin_not_behind_data :
    ((emitted (sends (run (threadStep sampleServer) (some .start) sampleCloseRun).2)).map
        fun out ↦ (out.seqNr, out.flags, out.payload)) =
        [(100, flagSyn, []), (102, flagFin, [])] ∧
      (¬ Along (finStep sampleConfig 0x2ebd5fd4) (FinAtEnd sampleConfig 0x2ebd5fd4)
        (some sampleClosable, 101) [.close true]) ∧
      ((emitted (run (lifeStep sampleConfig 0) (some (sampleSession 8 100))
        [.event (.write 0 [1, 2, 3]), .event (.visit fun _ ↦ true),
          .event (.segment sampleEnvironment (sampleSegment 8 101 flagAck [] length_nil_lt)),
          .event (.segment sampleEnvironment (sampleSegment 8 101 flagRst [] length_nil_lt)),
          .event (.write 1 []), .event (.visit fun _ ↦ true)]).2).map
        fun out ↦ (out.seqNr, out.flags, out.payload)) =
        [(100, flagAck ||| flagPsh, [1, 2, 3]), (101, flagFin ||| flagAck ||| flagPsh, [])] := by
  refine ⟨by decide +kernel, ?_, by decide +kernel⟩
  rintro ⟨hclose, -⟩
  have hnumber := hclose (metaHeader { sampleClosable with localSeq := 102 } flagFin)
    (by decide +kernel) (by decide)
  exact absurd hnumber (by decide +kernel)

end MyIPNG.Tcp
