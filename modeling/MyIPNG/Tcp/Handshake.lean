import MyIPNG.Tcp.Steps

/-!
# Handshakes with SYN cookies

A SYN for a port of the server makes no session. What the server needs to make one later is in the
sequence number of its answer: the hash of the connection and of the time in slots of 64 seconds,
with the slot and the index of the segment size in the low byte. `runInNew_completes` and
`runInNew_other` say what a segment without a session does: it completes a handshake and the session
is made, or nothing is made and nothing is handed over.

The acknowledgement is checked against the cookie of its own time, not of the time that it carries.
A cookie of another slot differs in its low byte, so a handshake is completed exactly when its two
ends fall into the same slot (`handshake_completes_iff`).
-/

set_option autoImplicit false
set_option relaxedAutoImplicit false

namespace MyIPNG.Tcp

open Base

/-! ### A segment without a session -/

theorem clean_none (environment : Environment) (sessionId : UInt64) (segment : Segment)
    (invalid invalidWRst invalidIncAck cleanSession : Bool) :
    (clean environment sessionId segment invalid invalidWRst invalidIncAck cleanSession none).1 =
      none := by
  unfold clean
  split_ifs <;> rfl

/-- Without a session the server hands nothing over when it cleans up. -/
theorem handedPayloads_clean_none (environment : Environment) (sessionId : UInt64)
    (segment : Segment) (invalid invalidWRst invalidIncAck cleanSession : Bool) :
    handedPayloads (clean environment sessionId segment invalid invalidWRst invalidIncAck
      cleanSession none).2 = [] := by
  unfold clean
  by_cases hentered : (invalid || cleanSession) = true
  · rw [if_pos hentered]
    by_cases hreset : (invalid && invalidWRst) = true
    · simp only [hreset, if_true]
      exact handedPayloads_map_toIp _
    · simp only [hreset]
      rfl
  · rw [if_neg hentered]
    rfl

/-- The index of the segment size that an acknowledgement carries. -/
def cookieIndex (segment : Segment) : Fin 8 := Fin.ofNat 8 ((segment.ackSeqNr - 1) &&& 7).toNat

/-- The check of an acknowledgement that may complete a handshake. -/
def PassesCookie (config : Config) (environment : Environment) (sessionId : UInt64)
    (segment : Segment) : Prop :=
  mySynCookie config sessionId (cookieIndex segment) environment.nowSec = segment.ackSeqNr - 1

instance (config : Config) (environment : Environment) (sessionId : UInt64) (segment : Segment) :
    Decidable (PassesCookie config environment sessionId segment) :=
  inferInstanceAs (Decidable (_ = _))

/-- The segment completes a handshake with a server that has no session for it. -/
structure Completes (config : Config) (environment : Environment) (sessionId : UInt64)
    (segment : Segment) (shmPeer : List UInt8) : Prop where
  ack : hasFlag segment.flags flagAck = true
  rst : hasFlag segment.flags flagRst = false
  syn : hasFlag segment.flags flagSyn = false
  fin : hasFlag segment.flags flagFin = false
  cookie : PassesCookie config environment sessionId segment
  mapping : config.mappingsIn segment.destinationPort = some shmPeer
  opened : environment.openOk = true

section Unknown

variable {config : Config} {environment : Environment} {sessionId : UInt64} {segment : Segment}

/-- A segment that completes a handshake opens the session and is then processed on it. -/
theorem runInNew_completes {shmPeer : List UInt8}
    (h : Completes config environment sessionId segment shmPeer) :
    runInNew config environment sessionId segment =
      let rest := processData environment sessionId segment false false false
        (newSession segment shmPeer)
      { rest with
        outputs := .toL7 shmPeer (l7Message sessionId segment miTcpOpen []) :: rest.outputs } := by
  have hcookie := h.cookie
  unfold PassesCookie cookieIndex at hcookie
  unfold runInNew ackUnknown
  rw [if_neg (by simp [h.rst]), if_neg (by simp [h.syn]), if_pos h.ack, if_pos h.fin]
  simp only [hcookie, ne_eq, not_true_eq_false, if_false, h.mapping, h.opened, if_true]

/-- The session that it makes, with what the segment itself brings already received. -/
theorem session_runInNew_completes {shmPeer : List UInt8}
    (h : Completes config environment sessionId segment shmPeer) :
    (runInNew config environment sessionId segment).session =
      some (received environment segment (newSession segment shmPeer)) := by
  have hreaches : reaches segment = true := by simp [reaches, h.ack]
  rw [runInNew_completes h]
  exact (processData_effect environment sessionId segment false false
    (newSession segment shmPeer) hreaches).1

/-- Every other segment without a session makes none and hands nothing over. -/
theorem runInNew_other (h : ∀ shmPeer, ¬ Completes config environment sessionId segment shmPeer) :
    (runInNew config environment sessionId segment).session = none ∧
      handedPayloads (runInNew config environment sessionId segment).outputs = [] := by
  unfold runInNew
  split_ifs with hrst hsyn hinvalid hack hfin
  · exact ⟨clean_none _ _ _ _ _ _ _, handedPayloads_clean_none _ _ _ _ _ _ _⟩
  · exact ⟨clean_none _ _ _ _ _ _ _, handedPayloads_clean_none _ _ _ _ _ _ _⟩
  · exact ⟨rfl, handedPayloads_map_toIp _⟩
  · unfold ackUnknown
    dsimp only
    by_cases hcookie : mySynCookie config sessionId
        (Fin.ofNat 8 ((segment.ackSeqNr - 1) &&& 7).toNat) environment.nowSec ≠
        segment.ackSeqNr - 1
    · rw [if_pos hcookie]
      exact ⟨rfl, handedPayloads_map_toIp _⟩
    · rw [if_neg hcookie]
      cases hmapping : config.mappingsIn segment.destinationPort with
      | none => exact ⟨rfl, rfl⟩
      | some shmPeer =>
        by_cases hopen : environment.openOk = true
        · refine absurd ⟨hack, ?_, ?_, hfin, not_not.mp hcookie, hmapping, hopen⟩ (h shmPeer)
          · simpa using hrst
          · simpa using hsyn
        · simp only [hopen]
          exact ⟨clean_none _ _ _ _ _ _ _, handedPayloads_clean_none _ _ _ _ _ _ _⟩
  · exact ⟨rfl, rfl⟩
  · exact ⟨rfl, rfl⟩

/-- A session that a segment makes is that of a completed handshake. -/
theorem completes_of_session {session : Session}
    (h : (runInNew config environment sessionId segment).session = some session) :
    ∃ shmPeer, Completes config environment sessionId segment shmPeer ∧
      session = received environment segment (newSession segment shmPeer) := by
  by_cases hcompletes : ∃ shmPeer, Completes config environment sessionId segment shmPeer
  · obtain ⟨shmPeer, hcompletes⟩ := hcompletes
    rw [session_runInNew_completes hcompletes] at h
    exact ⟨shmPeer, hcompletes, (Option.some.inj h).symm⟩
  · rw [(runInNew_other (not_exists.mp hcompletes)).1] at h
    exact absurd h (by simp)

end Unknown

/-! ### Cookies -/

/-- The mask of the cookie clears the low byte. -/
theorem and_highMask {number : ℕ} (h : number < 2 ^ 32) :
    number &&& 0xFFFFFF00 = number / 256 * 256 := by
  have hmask : (0xFFFFFF00 : ℕ) = (2 ^ 24 - 1) <<< 8 := by decide
  have hshift : number / 256 * 256 = (number >>> 8) <<< 8 := by
    rw [Nat.shiftLeft_eq, Nat.shiftRight_eq_div_pow]
  rw [hmask, hshift]
  apply Nat.eq_of_testBit_eq
  intro i
  simp only [Nat.testBit_and, Nat.testBit_shiftLeft, Nat.testBit_shiftRight,
    Nat.testBit_two_pow_sub_one]
  by_cases hhigh : 8 ≤ i
  · by_cases hinside : i - 8 < 24
    · simp [hhigh, hinside]
    · have hpow : 2 ^ 32 ≤ 2 ^ i := Nat.pow_le_pow_right (by decide) (by omega)
      have hzero : number.testBit i = false := Nat.testBit_lt_two_pow (h.trans_le hpow)
      simp [hhigh, hinside, hzero]
  · simp [hhigh]

/-- The low byte of a cookie: the slot of the time, and the index of the segment size. -/
theorem mySynCookie_mod (config : Config) (sessionId : UInt64) (mssIndex : Fin 8) (now : ℕ) :
    (mySynCookie config sessionId mssIndex now).toNat % 256 = now / 64 % 32 * 8 + mssIndex := by
  have hindex := mssIndex.isLt
  unfold mySynCookie
  dsimp only
  generalize Utils.siphash (leBytes 8 sessionId.toNat ++
    [(UInt32.ofNat (now / 64 % 32)).toUInt8]) config.synCookieSalt = sipOut
  generalize hslot : now / 64 % 32 = slot
  have hlt : slot < 32 := hslot ▸ Nat.mod_lt _ (by decide)
  have hhash := (sipOut.1 ^^^ sipOut.2).toNat_lt
  have htime : (UInt32.ofNat slot <<< 3).toNat = slot <<< 3 := by
    rw [UInt32.toNat_shiftLeft, UInt32.toNat_ofNat_of_lt' (by change slot < 2 ^ 32; omega)]
    change slot <<< 3 % 2 ^ 32 = _
    rw [Nat.shiftLeft_eq, Nat.mod_eq_of_lt (by omega)]
  have hlow : slot <<< 3 ||| mssIndex.val = slot * 8 + mssIndex.val := by
    rw [← Nat.shiftLeft_add_eq_or_of_lt hindex, Nat.shiftLeft_eq]
  have hsize : (UInt32.ofNat mssIndex.val).toNat = mssIndex.val :=
    UInt32.toNat_ofNat_of_lt' (by change mssIndex.val < 2 ^ 32; omega)
  rw [UInt32.toNat_or, UInt32.toNat_or, UInt32.toNat_and, htime, hsize, Nat.or_assoc, hlow]
  change ((sipOut.1 ^^^ sipOut.2).toNat &&& 0xFFFFFF00 ||| _) % 256 = _
  rw [and_highMask hhash]
  have hsum := Nat.shiftLeft_add_eq_or_of_lt (show slot * 8 + mssIndex.val < 2 ^ 8 by omega)
    ((sipOut.1 ^^^ sipOut.2).toNat / 256)
  rw [Nat.shiftLeft_eq] at hsum
  rw [← hsum]
  omega

/-- An acknowledgement of a cookie carries the index that the cookie was made with. -/
theorem cookieIndex_of_cookie {config : Config} {sessionId : UInt64} {mssIndex : Fin 8} {now : ℕ}
    {segment : Segment}
    (h : segment.ackSeqNr = mySynCookie config sessionId mssIndex now + 1) :
    cookieIndex segment = mssIndex := by
  have hmod := mySynCookie_mod config sessionId mssIndex now
  have hindex := mssIndex.isLt
  have hnumber : segment.ackSeqNr - 1 = mySynCookie config sessionId mssIndex now := by
    rw [h, UInt32.add_sub_cancel]
  rw [cookieIndex, hnumber]
  refine Fin.ext ?_
  rw [Fin.val_ofNat, UInt32.toNat_and]
  change ((mySynCookie config sessionId mssIndex now).toNat &&& 2 ^ 3 - 1) % 8 = mssIndex.val
  rw [Nat.and_two_pow_sub_one_eq_mod]
  omega

/-- Two cookies of one connection and one index are the same exactly when their times fall into
the same slot. -/
theorem mySynCookie_eq_iff (config : Config) (sessionId : UInt64) (mssIndex : Fin 8)
    (now now' : ℕ) :
    mySynCookie config sessionId mssIndex now = mySynCookie config sessionId mssIndex now' ↔
      now / 64 % 32 = now' / 64 % 32 := by
  constructor
  · intro hequal
    have hmod := mySynCookie_mod config sessionId mssIndex now
    have hmod' := mySynCookie_mod config sessionId mssIndex now'
    rw [hequal] at hmod
    omega
  · intro hslot
    unfold mySynCookie
    rw [hslot]

/-! ### Handshakes -/

/-- The acknowledgement of the answer `out` to a SYN: of the same connection, with the number behind
that of the answer. -/
structure Acknowledges (syn : Segment) (out : OutSegment) (ack : Segment) : Prop where
  sourcePort : ack.sourcePort = syn.sourcePort
  destinationPort : ack.destinationPort = syn.destinationPort
  fromAddr : ack.fromAddr = syn.fromAddr
  toAddr : ack.toAddr = syn.toAddr
  ackFlag : hasFlag ack.flags flagAck = true
  rstFlag : hasFlag ack.flags flagRst = false
  synFlag : hasFlag ack.flags flagSyn = false
  finFlag : hasFlag ack.flags flagFin = false
  number : ack.ackSeqNr = out.seqNr + 1

theorem Acknowledges.segmentId_eq {syn ack : Segment} {out : OutSegment}
    (h : Acknowledges syn out ack) : segmentId ack = segmentId syn := by
  unfold segmentId
  rw [h.sourcePort, h.destinationPort, h.fromAddr, h.toAddr]

/-- The answer to a SYN has the cookie of its time as its number. -/
theorem seqNr_sendSynCookie {config : Config} {environment : Environment} {sessionId : UInt64}
    {segment : Segment} {out : OutSegment}
    (h : .toIp out ∈ sendSynCookie config environment sessionId segment) :
    out.seqNr = mySynCookie config sessionId segment.mssIndex environment.nowSec := by
  unfold sendSynCookie at h
  dsimp only at h
  rw [sendTcpPacket_empty _ _ _ rfl] at h
  cases hok : environment.synAckOk with
  | true =>
    simp only [hok, if_true, List.map_cons, List.map_nil, List.mem_singleton,
      Output.toIp.injEq] at h
    rw [h]
    rfl
  | false => simp [hok] at h

/-- The acknowledgement of a cookie passes the check exactly when both fall into the same of the 32
slots. -/
theorem passesCookie_iff {config : Config} {environment : Environment}
    (environment' : Environment) {syn ack : Segment} {out : OutSegment}
    (hsent : .toIp out ∈ sendSynCookie config environment (segmentId syn) syn)
    (hack : Acknowledges syn out ack) :
    PassesCookie config environment' (segmentId ack) ack ↔
      environment.nowSec / 64 % 32 = environment'.nowSec / 64 % 32 := by
  have hnumber := hack.number
  rw [seqNr_sendSynCookie hsent] at hnumber
  rw [PassesCookie, cookieIndex_of_cookie hnumber, hack.segmentId_eq, hnumber,
    UInt32.add_sub_cancel, eq_comm]
  exact mySynCookie_eq_iff config (segmentId syn) syn.mssIndex _ _

/-- When a prompt handshake is completed. Assumes: `out` is the answer that `send_syn_cookie` sent,
`ack` acknowledges it less than 64 seconds later, and there is no session for the connection. The
acknowledgement passes the check, and makes a session with the segment size of the SYN if the port
has an application and its queue takes the message, exactly when both times fall into the same slot
of 64 seconds. -/
theorem handshake_completes_iff (config : Config) (environment environment' : Environment)
    (syn ack : Segment) (out : OutSegment) (sessions : Sessions)
    (hsent : .toIp out ∈ sendSynCookie config environment (segmentId syn) syn)
    (hack : Acknowledges syn out ack) (hunknown : sessions[segmentId ack]? = none)
    (hafter : environment.nowSec ≤ environment'.nowSec)
    (hprompt : environment'.nowSec - environment.nowSec < 64) :
    (PassesCookie config environment' (segmentId ack) ack ∧
      ∀ shmPeer, config.mappingsIn ack.destinationPort = some shmPeer →
        environment'.openOk = true →
        ∃ session, (runIn config environment' ack sessions).1[segmentId ack]? = some session ∧
          session.mss = mssRanges syn.mssIndex) ↔
      environment.nowSec / 64 = environment'.nowSec / 64 := by
  have hcheck := passesCookie_iff environment' hsent hack
  constructor
  · rintro ⟨hpasses, -⟩
    have hslot := hcheck.mp hpasses
    omega
  · intro hslot
    have hpasses := hcheck.mpr (by rw [hslot])
    refine ⟨hpasses, ?_⟩
    intro shmPeer hmapping hopened
    have hcompletes : Completes config environment' (segmentId ack) ack shmPeer :=
      ⟨hack.ackFlag, hack.rstFlag, hack.synFlag, hack.finFlag, hpasses, hmapping, hopened⟩
    have hnumber := hack.number
    rw [seqNr_sendSynCookie hsent] at hnumber
    refine ⟨_, (runIn_unknown config environment' ack hunknown).1.trans
      (session_runInNew_completes hcompletes), ?_⟩
    -- what the segment itself brings does not touch the segment size
    change mssRanges (cookieIndex ack) = _
    exact congrArg mssRanges (cookieIndex_of_cookie hnumber)

/-- The sample server, with the clock at the given second. -/
def sampleAt (now : ℕ) : Environment := { sampleEnvironment with nowSec := now }

/-- A SYN of the sample peer. -/
def sampleSyn : Segment := sampleSegment 7 0 flagSyn [] length_nil_lt

/-- The answer of the sample server to the SYN at the given second. -/
def sampleSynAck (now : ℕ) : OutSegment :=
  replyHeader sampleSyn (mySynCookie sampleConfig (segmentId sampleSyn) 1 now) 8
    (flagSyn ||| flagAck) initialLocalWindowSize

/-- The acknowledgement of the sample peer to that answer. -/
def sampleAck (now : ℕ) : Segment :=
  sampleSegment 8 ((sampleSynAck now).seqNr + 1) flagAck [] length_nil_lt

theorem sampleAck_acknowledges (now : ℕ) :
    Acknowledges sampleSyn (sampleSynAck now) (sampleAck now) := by
  refine ⟨rfl, rfl, rfl, rfl, ?_, ?_, ?_, ?_, rfl⟩
  · exact (by decide : hasFlag flagAck flagAck = true)
  · exact (by decide : hasFlag flagAck flagRst = false)
  · exact (by decide : hasFlag flagAck flagSyn = false)
  · exact (by decide : hasFlag flagAck flagFin = false)

theorem mem_sampleSynAck (now : ℕ) :
    .toIp (sampleSynAck now) ∈
      sendSynCookie sampleConfig (sampleAt now) (segmentId sampleSyn) sampleSyn := by
  unfold sendSynCookie
  dsimp only
  rw [sendTcpPacket_empty _ _ _ rfl]
  exact List.mem_singleton.mpr rfl

/-- Five seconds inside one slot: the handshake is completed. -/
theorem handshake_completes_in_slot :
    ∃ session, (runIn sampleConfig (sampleAt 15) (sampleAck 10) ∅).1[segmentId (sampleAck 10)]? =
      some session ∧ session.mss = mssRanges 1 :=
  ((handshake_completes_iff sampleConfig (sampleAt 10) (sampleAt 15) sampleSyn (sampleAck 10)
    (sampleSynAck 10) ∅ (mem_sampleSynAck 10) (sampleAck_acknowledges 10)
    Std.ExtTreeMap.getElem?_empty (by decide) (by decide)).mpr rfl).2 [104] rfl rfl

/-- One second over the end of a slot: the acknowledgement of an answer sent at second 63 comes at
second 64, and no session is made. -/
theorem handshake_fails_over_slot :
    .toIp (sampleSynAck 63) ∈
        sendSynCookie sampleConfig (sampleAt 63) (segmentId sampleSyn) sampleSyn ∧
      Acknowledges sampleSyn (sampleSynAck 63) (sampleAck 63) ∧
      ¬ PassesCookie sampleConfig (sampleAt 64) (segmentId (sampleAck 63)) (sampleAck 63) ∧
      (runIn sampleConfig (sampleAt 64) (sampleAck 63) ∅).1[segmentId (sampleAck 63)]? = none :=
  ⟨mem_sampleSynAck 63, sampleAck_acknowledges 63, by decide +kernel, by decide +kernel⟩

end MyIPNG.Tcp
