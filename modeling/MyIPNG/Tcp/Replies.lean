import MyIPNG.Tcp.Established

/-!
# What any segment does to the sending side of its session

`SegmentEffect` is about segments without SYN and RST on an open session. Here the flags and the
state are arbitrary. Everything that `run_in` sends is a reply without data and without FIN
(`reply_runInSession`), and on the sending side of the session a segment can do one of three things
(`runInSession_sending`): an acknowledgement acts as `ackPending` says, or the sending side stays as
it is, or the session is closed and its buffers are forgotten.
-/

set_option autoImplicit false
set_option relaxedAutoImplicit false

namespace MyIPNG.Tcp

open Base

/-! ### Replies -/

/-- A segment without data and without FIN. -/
def IsReply (out : OutSegment) : Prop := out.payload = [] ∧ hasFlag out.flags flagFin = false

/-- All segments among the outputs are replies. -/
def OnlyReplies (outputs : List Output) : Prop := ∀ out ∈ emitted outputs, IsReply out

theorem onlyReplies_nil : OnlyReplies [] := fun _ hout ↦ absurd hout List.not_mem_nil

theorem OnlyReplies.append {first second : List Output} (hfirst : OnlyReplies first)
    (hsecond : OnlyReplies second) : OnlyReplies (first ++ second) := by
  intro out hout
  rw [emitted_append] at hout
  rcases List.mem_append.mp hout with hout | hout
  · exact hfirst out hout
  · exact hsecond out hout

theorem emitted_map_toIp (segments : List OutSegment) :
    emitted (segments.map .toIp) = segments := by
  induction segments with
  | nil => rfl
  | cons segment rest ih => rw [List.map_cons, emitted_cons_toIp, ih]

section Replies

variable (config : Config) (environment : Environment) (sessionId : UInt64) (segment : Segment)

/-- What is sent with the header of a reply. -/
theorem onlyReplies_send (accepted : Bool) (seqNr ackNr : UInt32) {flags : UInt8}
    (windowSize : UInt16) (mss : Mss) (hflags : hasFlag flags flagFin = false) :
    OnlyReplies ((sendTcpPacket (fun _ ↦ accepted)
      (replyHeader segment seqNr ackNr flags windowSize) mss).1.map .toIp) := by
  intro out hout
  rw [emitted_map_toIp, sendTcpPacket_empty _ _ _ rfl] at hout
  cases accepted with
  | true =>
    rw [if_pos rfl, List.mem_singleton] at hout
    rw [hout]
    exact ⟨rfl, hflags⟩
  | false => exact absurd hout List.not_mem_nil

theorem onlyReplies_sendAck (accepted : Bool) (session : Session) (ackNr : UInt32) :
    OnlyReplies ((sendAck accepted segment session ackNr).1.map .toIp) :=
  onlyReplies_send segment accepted _ _ _ _ (by decide)

theorem onlyReplies_toL7 (peer : List UInt8) (message : L7Message) :
    OnlyReplies [.toL7 peer message] := fun _ hout ↦ absurd hout List.not_mem_nil

theorem onlyReplies_sendSynCookie :
    OnlyReplies (sendSynCookie config environment sessionId segment) :=
  onlyReplies_send segment _ _ _ _ _ (by decide)

theorem onlyReplies_clean (invalid invalidWRst invalidIncAck cleanSession : Bool)
    (session : Session) :
    OnlyReplies (clean environment sessionId segment invalid invalidWRst invalidIncAck cleanSession
      (some session)).2 := by
  unfold clean
  by_cases hentered : (invalid || cleanSession) = true
  · rw [if_pos hentered]
    refine OnlyReplies.append ?_ ?_
    · by_cases hreset : (invalid && invalidWRst) = true
      · rw [if_pos hreset]
        exact onlyReplies_send segment _ _ _ _ _ (by decide)
      · rw [if_neg hreset]
        exact onlyReplies_nil
    · by_cases hclose : environment.closeOk = true
      · rw [if_pos hclose]
        exact onlyReplies_toL7 _ _
      · rw [if_neg hclose]
        exact onlyReplies_nil
  · rw [if_neg hentered]
    exact onlyReplies_nil

theorem onlyReplies_deliverData (session : Session) :
    OnlyReplies (deliverData environment sessionId segment session).outputs := by
  have hack := fun ackNr ↦ onlyReplies_sendAck segment environment.ackOk session ackNr
  unfold deliverData
  by_cases horder : segment.peerSeqNr = session.peerSeq
  · rw [if_pos horder]
    have hhanded (message : L7Message) : OnlyReplies
        (if 0 < segment.payload.length ∧ environment.dataOk then
          [Output.toL7 session.shmPeer message] else []) := by
      by_cases hdata : 0 < segment.payload.length ∧ environment.dataOk = true
      · rw [if_pos hdata]
        exact onlyReplies_toL7 _ _
      · rw [if_neg hdata]
        exact onlyReplies_nil
    generalize (if 0 < segment.payload.length then environment.dataOk else true) = ok
    cases ok with
    | false => exact hhanded _
    | true =>
      by_cases hsends : hasFlag segment.flags flagAck = false ∨ 0 < segment.payload.length
      · rw [if_pos rfl, if_pos hsends]
        dsimp only
        by_cases hsent : (sendAck environment.ackOk segment session
            (session.peerSeq + UInt32.ofNat segment.payload.length)).2 = 0
        · rw [if_pos hsent]
          exact (hhanded _).append (hack _)
        · rw [if_neg hsent]
          exact (hhanded _).append (hack _)
      · rw [if_pos rfl, if_neg hsends]
        exact hhanded _
  · rw [if_neg horder]
    split_ifs
    · exact hack _
    · exact hack _

theorem onlyReplies_handleFin (ackedPacket : Bool) (session : Session) :
    OnlyReplies (handleFin environment segment ackedPacket session).2 := by
  intro out hout
  obtain ⟨⟨hpayload, hflags⟩, -⟩ :=
    (handleFin_outputs environment segment ackedPacket session).2 out hout
  refine ⟨hpayload, ?_⟩
  rw [hflags]
  decide

theorem onlyReplies_processData (invalid invalidIncAck resend : Bool) (session : Session) :
    OnlyReplies (processData environment sessionId segment invalid invalidIncAck resend
      session).outputs := by
  refine (OnlyReplies.append ?_ (onlyReplies_handleFin environment segment _ _)).append
    (onlyReplies_clean environment sessionId segment _ _ _ _ _)
  cases invalid with
  | false => exact onlyReplies_deliverData environment sessionId segment session
  | true => exact onlyReplies_nil

theorem onlyReplies_synKnown (session : Session) :
    OnlyReplies (synKnown config environment sessionId segment session).outputs := by
  by_cases hclient : session.isClient = true
  · by_cases hack : hasFlag segment.flags flagAck = true
    · rw [synKnown_synAck_eq config environment sessionId segment hclient hack]
      dsimp only
      split_ifs
      · exact (onlyReplies_sendAck segment _ _ _).append
          (onlyReplies_clean environment sessionId segment _ _ _ _ _)
      · exact (onlyReplies_sendAck segment _ _ _).append
          (onlyReplies_processData environment sessionId segment _ _ _ _)
    · rw [synKnown_plainSyn_eq config environment sessionId segment hclient hack]
      exact onlyReplies_processData environment sessionId segment _ _ _ _
  · rw [synKnown_server_eq config environment sessionId segment hclient]
    split_ifs
    · exact onlyReplies_sendSynCookie config environment sessionId segment
    · exact onlyReplies_nil
    · exact onlyReplies_nil

/-- Everything that a segment makes its session send is a reply. -/
theorem reply_runInSession (session : Session) :
    OnlyReplies (runInSession config environment sessionId segment session).outputs := by
  unfold runInSession
  dsimp only
  split_ifs
  · exact onlyReplies_clean environment sessionId segment _ _ _ _ _
  · exact onlyReplies_clean environment sessionId segment _ _ _ _ _
  · exact onlyReplies_synKnown config environment sessionId segment _
  · exact onlyReplies_processData environment sessionId segment _ _ _ _
  · exact onlyReplies_nil
  · exact onlyReplies_processData environment sessionId segment _ _ _ _

end Replies

/-! ### The sending side -/

theorem SameSending.trans {first second third : Session} (h : SameSending first second)
    (h' : SameSending second third) : SameSending first third :=
  ⟨h'.localSeq_eq.trans h.localSeq_eq, h'.l7ToTcp_eq.trans h.l7ToTcp_eq,
    h'.inFlight_eq.trans h.inFlight_eq, h'.l7SendFin_eq.trans h.l7SendFin_eq,
    h'.finSent_eq.trans h.finSent_eq, h'.mss_eq.trans h.mss_eq⟩

theorem sameSending_touched (environment : Environment) (segment : Segment) (session : Session) :
    SameSending session (touched environment segment session) :=
  ⟨rfl, rfl, rfl, rfl, rfl, rfl⟩

theorem sameSending_received (environment : Environment) (segment : Segment) (session : Session) :
    SameSending session (received environment segment session) :=
  ⟨rfl, rfl, rfl, rfl, rfl, rfl⟩

theorem sameSending_synAcked (segment : Segment) (session : Session) :
    SameSending session (synAcked segment session) := by
  unfold synAcked
  dsimp only
  split_ifs <;> exact ⟨rfl, rfl, rfl, rfl, rfl, rfl⟩

/-- All that a segment can do to the sending side of its session. -/
inductive SendingStep (segment : Segment) (session next : Session) : Prop
  | acked (hopen : session.state ≠ .closed) (hplain : Plain segment)
      (hstate : next.state = session.state)
      (hsending : SameSending (afterAck segment session).1 next) :
      SendingStep segment session next
  | kept (hopen : session.state ≠ .closed) (hstate : next.state ≠ .closed)
      (hsending : SameSending session next) : SendingStep segment session next
  | forgot (finned : Session) (hsending : SameSending session finned)
      (hnext : next = forgotten finned) : SendingStep segment session next

/-- A SYN does not act on the sending side of an open session, or it closes the session. -/
theorem synKnown_sending (config : Config) (environment : Environment) (sessionId : UInt64)
    {segment : Segment} {session next : Session} (hopen : session.state ≠ .closed)
    (h : (synKnown config environment sessionId segment session).session = some next) :
    SendingStep segment session next := by
  by_cases hclient : session.isClient = true
  · by_cases hack : hasFlag segment.flags flagAck = true
    · have hstate := state_synAcked segment session
      have hsending := sameSending_synAcked segment session
      rcases (synKnown_synAck config environment sessionId segment hclient hack).1 with
        hkept | hreceived
      · obtain rfl := Option.some.inj (hkept.symm.trans h)
        exact .kept hopen (by simp [hstate]) hsending
      · obtain rfl := Option.some.inj (hreceived.symm.trans h)
        refine .kept hopen ?_ (hsending.trans (sameSending_received environment segment _))
        change (synAcked segment session).state ≠ .closed
        simp [hstate]
    · obtain ⟨-, finned, hsame, hforgot⟩ :=
        processData_invalid environment sessionId segment true session
      rw [synKnown_plainSyn_eq config environment sessionId segment hclient hack, hforgot] at h
      exact .forgot finned hsame (Option.some.inj h).symm
  · rw [synKnown_server_eq config environment sessionId segment hclient] at h
    split_ifs at h
    · obtain rfl := Option.some.inj h
      exact .kept hopen hopen ⟨rfl, rfl, rfl, rfl, rfl, rfl⟩
    · obtain rfl := Option.some.inj h
      exact .kept hopen hopen ⟨rfl, rfl, rfl, rfl, rfl, rfl⟩

/-- The step lemma for the sending side. -/
theorem runInSession_sending (config : Config) (environment : Environment) (sessionId : UInt64)
    {segment : Segment} {session next : Session}
    (h : (runInSession config environment sessionId segment session).session = some next) :
    SendingStep segment session next := by
  by_cases hreset : session.state = .closed ∨ hasFlag segment.flags flagRst = true
  · rw [(runInSession_reset config environment sessionId segment hreset).1] at h
    exact .forgot _ (sameSending_touched environment segment session) (Option.some.inj h).symm
  · obtain ⟨hopen, hrst⟩ := not_or.mp hreset
    by_cases hsyn : hasFlag segment.flags flagSyn = true
    · rw [runInSession_syn config environment sessionId segment hopen hrst hsyn] at h
      have htouched := sameSending_touched environment segment session
      have hstill : (touched environment segment session).state ≠ .closed := hopen
      cases synKnown_sending config environment sessionId hstill h with
      | acked _ hplain => exact absurd (hsyn.symm.trans hplain.1) (by simp)
      | kept _ hstate hsending => exact .kept hopen hstate (htouched.trans hsending)
      | forgot finned hsending hnext => exact .forgot finned (htouched.trans hsending) hnext
    · have hplain : Plain segment := ⟨by simpa using hsyn, by simpa using hrst⟩
      obtain ⟨after, outputs, hstep, heffect⟩ :=
        segment_effect config environment sessionId hplain hopen
      have hafter : after = next := by
        have hsession := congrArg Prod.fst hstep
        exact Option.some.inj (hsession.symm.trans h)
      rw [← hafter]
      exact .acked hopen hplain heffect.state_eq heffect.sending

end MyIPNG.Tcp
