import MyIPNG.Tcp.Established

/-!
# A segment that comes twice

The network may deliver a segment twice. For the sessions that the server accepts, a segment without
FIN that is processed a second time at once finds nothing left to do: its acknowledgement is
processed (`afterAck_again`), its payload lies before `peer_seq` (`not_handsOver_again`), a reset
session is reset already, and a session that was released is not made again by the SYN that released
it. `duplicate_segment` puts this together over the map of all sessions: the second processing
changes timestamps, and sets `peer_window_size` in a session that the first one made, and nothing
else.
-/

set_option autoImplicit false
set_option relaxedAutoImplicit false

namespace MyIPNG.Tcp

open Base

/-! ### The parts of the loop body, a second time -/

/-- All sends that a segment can cause succeed. -/
structure SendsSucceed (environment : Environment) : Prop where
  synAckOk : environment.synAckOk = true
  clientAckOk : environment.clientAckOk = true
  cookieRstOk : environment.cookieRstOk = true
  openOk : environment.openOk = true
  dataOk : environment.dataOk = true
  ackOk : environment.ackOk = true
  finAckOk : environment.finAckOk = true
  rstOk : environment.rstOk = true
  closeOk : environment.closeOk = true

/-- A session without its timestamp. -/
def timeless (session : Session) : Session := { session with updatedTs := 0 }

theorem forget_zero (buffer : TcpData) : buffer.forget 0 = buffer := by
  simp [TcpData.forget]

/-- An acknowledgement that names `localSeq` with nothing in flight changes nothing. -/
theorem ackPending_idle {session : Session} {ackSeqNr : UInt32}
    (hseq : session.localSeq = ackSeqNr) (hflight : session.inFlight = 0) :
    (ackPending session ackSeqNr).1 = session := by
  subst hseq
  have hflight' : session = { session with inFlight := 0 } := by rw [← hflight]
  simp only [ackPending, UInt32.le_refl, UInt32.sub_self, hflight, UInt32.toNat_zero, if_true,
    forget_zero, UInt32.add_zero, Nat.sub_zero, Bool.false_eq_true, if_false]
  exact hflight'.symm

/-- An acknowledgement that was processed is processed. -/
theorem ackPending_again (session : Session) (ackSeqNr : UInt32) :
    (ackPending (ackPending session ackSeqNr).1 ackSeqNr).1 = (ackPending session ackSeqNr).1 := by
  have hreached : session.localSeq + (ackSeqNr - session.localSeq) = ackSeqNr := by
    rw [UInt32.add_comm, UInt32.sub_add_cancel]
  by_cases hbehind : session.localSeq ≤ ackSeqNr
  · by_cases hall : (ackSeqNr - session.localSeq).toNat = session.inFlight
    · refine ackPending_idle ?_ ?_
      · simpa only [ackPending, if_pos hbehind, if_pos hall, Bool.false_eq_true, if_false] using
          hreached
      · simp only [ackPending, if_pos hbehind, if_pos hall, Bool.false_eq_true, if_false]
        omega
    · by_cases hpart : (ackSeqNr - session.localSeq).toNat < session.inFlight
      · refine ackPending_idle ?_ ?_
        · simpa only [ackPending, if_pos hbehind, if_neg hall, if_pos hpart, if_true] using hreached
        · simp only [ackPending, if_pos hbehind, if_neg hall, if_pos hpart, if_true]
      · have hbogus : (ackPending session ackSeqNr).1 = session := by
          simp only [ackPending, if_pos hbehind, if_neg hall, if_neg hpart, Bool.false_eq_true,
            if_false]
        rw [hbogus, hbogus]
  · have hstale : ∀ flight, (ackPending { session with inFlight := flight } ackSeqNr).1 =
        { session with inFlight := 0 } := by
      intro flight
      simp only [ackPending, if_neg hbehind, if_true]
    rw [hstale session.inFlight, hstale 0]

theorem afterAck_again (segment : Segment) (session : Session) :
    (afterAck segment (afterAck segment session).1).1 = (afterAck segment session).1 := by
  unfold afterAck
  split_ifs
  · exact ackPending_again session segment.ackSeqNr
  · rfl

theorem peerWindowSize_afterAck (segment : Segment) (session : Session) :
    (afterAck segment session).1.peerWindowSize = session.peerWindowSize := by
  unfold afterAck ackPending
  dsimp only
  split_ifs <;> rfl

/-- The acknowledgement does not read the receiving side. -/
theorem afterAck_receivedBy (segment : Segment) (session : Session) (peerSeq : UInt32)
    (halfClosed : Bool) :
    (afterAck segment { session with peerSeq := peerSeq, halfClosed := halfClosed }).1 =
      { (afterAck segment session).1 with peerSeq := peerSeq, halfClosed := halfClosed } := by
  unfold afterAck ackPending
  dsimp only
  split_ifs <;> rfl

section Again

variable {first second : Environment} {segment : Segment}

/-- A payload that was handed over lies before `peerSeq`, and one that was not is handed over no
more than before. Assumes: the sends succeed, and the segment has no FIN. -/
theorem not_handsOver_again (hfirst : SendsSucceed first)
    (hfin : hasFlag segment.flags flagFin = false) (session : Session) :
    handsOver second segment (received first segment session) = false := by
  have hnone : finLength segment session = 0 := by simp [finLength, hfin]
  by_cases hhands : handsOver first segment session = true
  · have hparts := hhands
    simp only [handsOver, Bool.and_eq_true, beq_iff_eq, bne_iff_ne] at hparts
    obtain ⟨⟨⟨-, hnumber⟩, hpayload⟩, -⟩ := hparts
    have hnext : (received first segment session).peerSeq =
        session.peerSeq + UInt32.ofNat segment.payload.length := by
      simp [received, acceptedLength, hhands, hfirst.ackOk, hnone]
    have hne : segment.peerSeqNr ≠ (received first segment session).peerSeq := by
      rw [hnext, hnumber]
      intro hsame
      have hpos := List.length_pos_iff.mpr hpayload
      have hlt := segment.payload_lt
      have hzero := congrArg UInt32.toNat (UInt32.left_eq_add.mp hsame)
      rw [UInt32.toNat_ofNat', UInt32.toNat_zero] at hzero
      omega
    simp [handsOver, hne]
  · have hsame : (received first segment session).peerSeq = session.peerSeq := by
      simp [received, acceptedLength, hhands, hnone]
    simp only [handsOver, hfirst.dataOk, Bool.and_true, Bool.not_eq_true] at hhands
    simp only [handsOver, hsame, hhands, Bool.false_and]

/-- A segment without SYN, RST and FIN on an open session whose acknowledgement is processed and
whose payload is not handed over: only `updated_ts` and `peer_window_size` are set. -/
theorem runInSession_nothing_new (config : Config) (sessionId : UInt64) (hplain : Plain segment)
    (hfin : hasFlag segment.flags flagFin = false) {session : Session}
    (hopen : session.state ≠ .closed) (hacked : (afterAck segment session).1 = session)
    (hhands : handsOver second segment session = false) :
    (runInSession config second sessionId segment session).session =
        some (touched second segment session) ∧
      handedPayloads (runInSession config second sessionId segment session).outputs = [] := by
  obtain ⟨hsession, -, houtputs⟩ := runInSession_plain config second sessionId hplain hopen
  have hsame : (afterAck segment (touched second segment session)).1 =
      touched second segment session := by
    rw [afterAck_touched, hacked]
  rw [hsame] at hsession houtputs
  have hnot : handsOver second segment (touched second segment session) = false := hhands
  constructor
  · rw [hsession]
    simp [received, acceptedLength, finLength, hnot, hfin]
  · rw [houtputs.handed_eq, hnot]
    rfl

/-- A SYN on the session of a server: the session stays as it is or is released. -/
theorem synKnown_server (config : Config) (environment : Environment) (sessionId : UInt64)
    (segment : Segment) {session : Session} (hserver : session.isClient = false) :
    let result := synKnown config environment sessionId segment session
    result.session = (if session.state = .established ∧ session.finSent = true ∧
      session.halfClosed = true then none else some session) ∧
      handedPayloads result.outputs = [] := by
  intro result
  have hclient : ¬ session.isClient = true := by simp [hserver]
  simp only [result, synKnown_server_eq config environment sessionId segment hclient]
  by_cases hstate : session.state = .established
  · rw [if_neg (not_not.mpr hstate)]
    by_cases hopen : session.finSent = false ∨ session.halfClosed = false
    · rw [if_pos hopen, if_neg]
      · exact ⟨rfl, rfl⟩
      · rintro ⟨-, hsent, hhalf⟩
        simp [hsent, hhalf] at hopen
    · simp only [not_or, Bool.not_eq_false] at hopen
      rw [if_neg (by simp [hopen]), if_pos ⟨hstate, hopen.1, hopen.2⟩]
      exact ⟨rfl, rfl⟩
  · rw [if_pos hstate, if_neg fun h ↦ hstate h.1]
    exact ⟨rfl, handedPayloads_map_toIp _⟩

/-- A segment that comes again finds the session that it left. Assumes: the sends succeed, the
segment has no FIN, and the session is that of a server. -/
theorem runInSession_again (config : Config) (second : Environment) (sessionId : UInt64)
    (hfirst : SendsSucceed first) (hfin : hasFlag segment.flags flagFin = false)
    {session next : Session} (hserver : session.isClient = false)
    (hnext : (runInSession config first sessionId segment session).session = some next) :
    let again := runInSession config second sessionId segment next
    again.session.map timeless = some (timeless next) ∧ handedPayloads again.outputs = [] := by
  intro again
  by_cases hreset : session.state = .closed ∨ hasFlag segment.flags flagRst = true
  · rw [(runInSession_reset config first sessionId segment hreset).1] at hnext
    obtain rfl := Option.some.inj hnext
    obtain ⟨hsession, hhanded, -⟩ := runInSession_reset config second sessionId segment
      (Or.inl (rfl : (forgotten (touched first segment session)).state = .closed))
    exact ⟨congrArg (Option.map timeless) hsession, hhanded⟩
  · obtain ⟨hopen, hrst⟩ := not_or.mp hreset
    by_cases hsyn : hasFlag segment.flags flagSyn = true
    · rw [runInSession_syn config first sessionId segment hopen hrst hsyn,
        (synKnown_server config first sessionId segment (show (touched first segment
          session).isClient = false from hserver)).1] at hnext
      split_ifs at hnext with hreleased
      obtain rfl := Option.some.inj hnext
      obtain ⟨hsession, hhanded⟩ := synKnown_server config second sessionId segment
        (show (touched second segment (touched first segment session)).isClient = false
          from hserver)
      have hkept := hsession.trans (if_neg hreleased)
      simp only [again, runInSession_syn config second sessionId segment
        (show (touched first segment session).state ≠ .closed from hopen) hrst hsyn]
      exact ⟨congrArg (Option.map timeless) hkept, hhanded⟩
    · have hplain : Plain segment := ⟨by simpa using hsyn, by simpa using hrst⟩
      rw [(runInSession_plain config first sessionId hplain hopen).1] at hnext
      obtain rfl := Option.some.inj hnext
      have hacked : (afterAck segment (received first segment
          (afterAck segment (touched first segment session)).1)).1 =
          received first segment (afterAck segment (touched first segment session)).1 := by
        rw [received, afterAck_receivedBy, afterAck_again]
      have hstate : (received first segment
          (afterAck segment (touched first segment session)).1).state ≠ .closed := by
        change (afterAck segment (touched first segment session)).1.state ≠ .closed
        rw [(afterAck_receiving segment _).2.2]
        exact hopen
      obtain ⟨hsession, hhanded⟩ := runInSession_nothing_new config sessionId hplain hfin hstate
        hacked (not_handsOver_again hfirst hfin _)
      refine ⟨?_, hhanded⟩
      simp only [again, hsession, Option.map_some, Option.some.injEq]
      -- the first processing has set `peer_window_size` already
      have hwindow := peerWindowSize_afterAck segment (touched first segment session)
      simp only [timeless, touched, received] at hwindow ⊢
      rw [hwindow]

/-- A segment that released its session makes none when it comes again. -/
theorem runInNew_released (config : Config) (second : Environment) (sessionId : UInt64)
    {session : Session}
    (hnone : (runInSession config first sessionId segment session).session = none) :
    (runInNew config second sessionId segment).session = none ∧
      handedPayloads (runInNew config second sessionId segment).outputs = [] := by
  refine runInNew_other fun shmPeer hcompletes ↦ ?_
  by_cases hclosed : session.state = .closed
  · rw [(runInSession_reset config first sessionId segment (Or.inl hclosed)).1] at hnone
    exact absurd hnone (by simp)
  · rw [(runInSession_plain config first sessionId ⟨hcompletes.syn, hcompletes.rst⟩ hclosed).1]
      at hnone
    exact absurd hnone (by simp)

/-- The check of the cookie has the same outcome during 64 seconds. -/
theorem completes_same_slot {config : Config} {sessionId : UInt64} {shmPeer : List UInt8}
    (hfirst : SendsSucceed first) (hslot : first.nowSec / 64 = second.nowSec / 64)
    (h : Completes config second sessionId segment shmPeer) :
    Completes config first sessionId segment shmPeer := by
  refine ⟨h.ack, h.rst, h.syn, h.fin, ?_, h.mapping, hfirst.openOk⟩
  have hcookie := h.cookie
  rw [PassesCookie, mySynCookie] at hcookie ⊢
  rwa [hslot]

/-- A segment without a session that comes again: it makes no session again, or it finds the session
that it made, with `peer_window_size` not set yet. -/
theorem runInNew_again (config : Config) (sessionId : UInt64) (segment : Segment)
    (hfirst : SendsSucceed first) (hslot : first.nowSec / 64 = second.nowSec / 64) :
    ((runInNew config first sessionId segment).session = none ∧
      (runInNew config second sessionId segment).session = none ∧
      handedPayloads (runInNew config second sessionId segment).outputs = []) ∨
    ∃ next, (runInNew config first sessionId segment).session = some next ∧
      (runInSession config second sessionId segment next).session =
        some (touched second segment next) ∧
      handedPayloads (runInSession config second sessionId segment next).outputs = [] := by
  by_cases hcompletes : ∃ shmPeer, Completes config first sessionId segment shmPeer
  · obtain ⟨shmPeer, hcompletes⟩ := hcompletes
    refine Or.inr ⟨_, session_runInNew_completes hcompletes, ?_⟩
    have hacked : (afterAck segment (received first segment (newSession segment shmPeer))).1 =
        received first segment (newSession segment shmPeer) := by
      rw [afterAck, if_pos hcompletes.ack]
      exact ackPending_idle rfl rfl
    exact runInSession_nothing_new config sessionId ⟨hcompletes.syn, hcompletes.rst⟩ hcompletes.fin
      (show TcpState.established ≠ .closed by decide) hacked
      (not_handsOver_again hfirst hcompletes.fin _)
  · have hnone := not_exists.mp hcompletes
    refine Or.inl ⟨(runInNew_other hnone).1, runInNew_other fun shmPeer hagain ↦ ?_⟩
    exact hnone shmPeer (completes_same_slot hfirst hslot hagain)

/-! ### The map of all sessions -/

/-- What `run_in` makes of the entry that the map has for a segment. -/
def runInEntry (config : Config) (environment : Environment) (segment : Segment) :
    Option Session → InResult
  | some session => runInSession config environment (segmentId segment) segment session
  | none => runInNew config environment (segmentId segment) segment

theorem runIn_entry (config : Config) (environment : Environment) (segment : Segment)
    (sessions : Sessions) :
    (runIn config environment segment sessions).1[segmentId segment]? =
        (runInEntry config environment segment sessions[segmentId segment]?).session ∧
      (runIn config environment segment sessions).2 =
        (runInEntry config environment segment sessions[segmentId segment]?).outputs := by
  cases hentry : sessions[segmentId segment]? with
  | some session => exact runIn_known config environment segment hentry
  | none => exact runIn_unknown config environment segment hentry

/-- A segment that comes again finds the entry that it left. Assumes: the sends that the first
processing makes succeed, the clock is in the same 64 seconds, the segment has no FIN, and the entry
is not the session of a client. -/
theorem runInEntry_again (config : Config) (hfirst : SendsSucceed first)
    (hslot : first.nowSec / 64 = second.nowSec / 64)
    (hfin : hasFlag segment.flags flagFin = false) {entry : Option Session}
    (hserver : ∀ session, entry = some session → session.isClient = false) :
    let once := runInEntry config first segment entry
    let twice := runInEntry config second segment once.session
    twice.session.map timeless = once.session.map (fun session ↦
        if entry.isSome then timeless session
        else { timeless session with peerWindowSize := segment.windowSize }) ∧
      handedPayloads twice.outputs = [] := by
  intro once twice
  cases entry with
  | some session =>
    cases hnext : (runInSession config first (segmentId segment) segment session).session with
    | some next =>
      simp only [once, twice, runInEntry, hnext]
      exact runInSession_again config second (segmentId segment) hfirst hfin
        (hserver session rfl) hnext
    | none =>
      obtain ⟨hagain, hhanded⟩ := runInNew_released config second (segmentId segment) hnext
      simp only [once, twice, runInEntry, hnext]
      exact ⟨congrArg (Option.map timeless) hagain, hhanded⟩
  | none =>
    rcases runInNew_again config (segmentId segment) segment hfirst hslot with
      ⟨hnone, hagain, hhanded⟩ | ⟨next, hnext, hagain, hhanded⟩
    · simp only [once, twice, runInEntry, hnone]
      exact ⟨congrArg (Option.map timeless) hagain, hhanded⟩
    · simp only [once, twice, runInEntry, hnext]
      exact ⟨congrArg (Option.map timeless) hagain, hhanded⟩

end Again

/-- A segment that comes twice. Assumes: the sends that the first processing makes succeed, the
clock is in the same 64 seconds, the segment has no FIN, and it belongs to no session of a client.
Processing it again at once leaves every session as it is but for its timestamp, except that
`peer_window_size` is set in a session that the segment itself has made, and hands nothing to the
application. -/
theorem duplicate_segment (config : Config) (first second : Environment) (segment : Segment)
    (sessions : Sessions) (hfirst : SendsSucceed first)
    (hslot : first.nowSec / 64 = second.nowSec / 64)
    (hfin : hasFlag segment.flags flagFin = false)
    (hserver : ∀ session, sessions[segmentId segment]? = some session →
      session.isClient = false) :
    let once := runIn config first segment sessions
    let twice := runIn config second segment once.1
    (∀ sessionId : UInt64, twice.1[sessionId]?.map timeless =
      once.1[sessionId]?.map fun session ↦ if sessionId ∈ sessions then timeless session
        else { timeless session with peerWindowSize := segment.windowSize }) ∧
      handedPayloads twice.2 = [] := by
  intro once twice
  obtain ⟨honce, -⟩ := runIn_entry config first segment sessions
  obtain ⟨htwice, houtputs⟩ := runIn_entry config second segment once.1
  obtain ⟨hagain, hhanded⟩ := runInEntry_again config hfirst hslot hfin hserver
  refine ⟨fun sessionId ↦ ?_, ?_⟩
  · simp only [Std.ExtTreeMap.mem_iff_isSome_getElem?]
    by_cases hid : sessionId = segmentId segment
    · rw [hid, htwice, honce]
      exact hagain
    · have hsame : once.1[sessionId]? = sessions[sessionId]? :=
        runIn_other config first segment hid sessions
      have hstill : twice.1[sessionId]? = once.1[sessionId]? :=
        runIn_other config second segment hid once.1
      rw [hstill, hsame]
      refine Option.map_congr fun session hsession ↦ ?_
      rw [if_pos (by rw [hsession]; rfl)]
  · rw [houtputs, honce]
    exact hhanded

theorem sampleAt_succeeds (now : ℕ) : SendsSucceed (sampleAt now) :=
  ⟨rfl, rfl, rfl, rfl, rfl, rfl, rfl, rfl, rfl⟩

/-- The sessions behind the handshake of the sample peer. -/
def sampleEstablished : Sessions := (runIn sampleConfig (sampleAt 10) (sampleAck 10) ∅).1

/-- The data of the sample peer comes twice and is handed over once. -/
theorem duplicate_segment_data :
    let once := runIn sampleConfig (sampleAt 10) sampleData sampleEstablished
    let twice := runIn sampleConfig (sampleAt 20) sampleData once.1
    handedPayloads once.2 = [[116, 101, 115, 116]] ∧
      (∀ sessionId : UInt64, twice.1[sessionId]?.map timeless =
        once.1[sessionId]?.map fun session ↦ if sessionId ∈ sampleEstablished then timeless session
          else { timeless session with peerWindowSize := sampleData.windowSize }) ∧
      handedPayloads twice.2 = [] := by
  refine ⟨by decide +kernel, duplicate_segment sampleConfig (sampleAt 10) (sampleAt 20) sampleData
    sampleEstablished (sampleAt_succeeds 10) (by decide) (by decide +kernel) ?_⟩
  intro session hsession
  have hclient : sampleEstablished[segmentId sampleData]?.map Session.isClient = some false := by
    decide +kernel
  rw [hsession] at hclient
  exact Option.some.inj hclient

/-- The acknowledgement that completes a handshake comes twice: the second one sets the window of
the peer, which the first one did not. -/
theorem duplicate_sets_peer_window :
    (SendsSucceed (sampleAt 10) ∧ hasFlag (sampleAck 10).flags flagFin = false) ∧
      ¬ ∀ sessionId : UInt64,
        (runIn sampleConfig (sampleAt 10) (sampleAck 10) sampleEstablished).1[sessionId]?.map
          timeless = sampleEstablished[sessionId]?.map timeless := by
  refine ⟨⟨sampleAt_succeeds 10, by decide +kernel⟩, fun hsame ↦ ?_⟩
  have hwindows := congrArg (Option.map Session.peerWindowSize) (hsame (segmentId sampleSyn))
  exact absurd hwindows (by decide +kernel)

end MyIPNG.Tcp
