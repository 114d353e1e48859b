import MyIPNG.Tcp.Life
import MyIPNG.Tcp.Wire

/-!
# The segment size of the peer

The way of a segment size from an option of a SYN to the sender: the walk over the options
(`walkOptions_area`), the search in `mss_ranges` (`mssRanges_selectMss_le_iff`), the low bits of the
cookie and of its acknowledgement, the session that is made (`mss_of_created`), and the segments of
that session over its whole life (`payload_le_mss`).

The search takes the last entry of the table that is not above the given size. For a size below the
first entry there is none, and the default of `536` bytes stays: the session honours the size of the
peer exactly when it is `216` or more (`session_honours_mss_iff`).
-/

set_option autoImplicit false
set_option relaxedAutoImplicit false

namespace MyIPNG.Tcp

open Base Utils

/-! ### Options -/

/-- A well-formed option of a TCP header. -/
inductive TcpOption
  | noOperation
  | maximumSegmentSize (value : UInt16)
  | other (kind : UInt8) (data : List UInt8) (hkind : 3 ≤ kind) (hlength : data.length + 2 < 256)

/-- The bytes of an option. -/
def TcpOption.bytes : TcpOption → List UInt8
  | .noOperation => [1]
  | .maximumSegmentSize value => 2 :: 4 :: putUint16 value
  | .other kind data _ _ => kind :: UInt8.ofNat (data.length + 2) :: data

/-- An option area: options, and zeros up to the end of the header. -/
def optionArea (options : List TcpOption) (padding : ℕ) : List UInt8 :=
  options.flatMap TcpOption.bytes ++ List.replicate padding 0

/-- The segment sizes that options carry. -/
def segmentSizes (options : List TcpOption) : List UInt16 :=
  options.filterMap fun
    | .maximumSegmentSize value => some value
    | _ => none

/-! ### The walk -/

section Walk

variable {front rest : List UInt8} {kind size : UInt8} {headerEnd : ℕ}

theorem getD_behind (front rest : List UInt8) (index : ℕ) :
    (front ++ rest).getD (front.length + index) 0 = rest.getD index 0 := by
  rw [List.getD_eq_getElem?_getD, List.getD_eq_getElem?_getD,
    List.getElem?_append_right (Nat.le_add_right _ _), Nat.add_sub_cancel_left]

theorem walkOptions_of_lt {pl : List UInt8} {cur : ℕ} (mssIndex : Fin 8) (h : headerEnd < cur + 2) :
    walkOptions pl headerEnd cur mssIndex = mssIndex := by
  rw [walkOptions, if_neg (by omega)]

/-- The walk goes over an option of one byte. -/
theorem walkOptions_single (mssIndex : Fin 8) (hone : kind = 0 ∨ kind = 1) :
    walkOptions (front ++ kind :: rest) headerEnd front.length mssIndex =
      walkOptions (front ++ kind :: rest) headerEnd (front.length + 1) mssIndex := by
  by_cases hroom : front.length + 2 ≤ headerEnd
  · have hkind : (front ++ kind :: rest).getD front.length 0 = kind :=
      getD_behind front (kind :: rest) 0
    have htwo : kind ≠ 2 := by
      rintro rfl
      revert hone
      decide
    rw [walkOptions, if_pos hroom]
    simp only [hkind, htwo, false_and, if_false, if_pos hone]
  · rw [walkOptions_of_lt mssIndex (by omega), walkOptions_of_lt mssIndex (by omega)]

/-- The walk goes over an option with a length, and selects from a segment size. -/
theorem walkOptions_sized (front rest : List UInt8) (mssIndex : Fin 8)
    (hone : ¬(kind = 0 ∨ kind = 1)) (hsize : size ≠ 0) (hroom : front.length + 2 ≤ headerEnd) :
    walkOptions (front ++ kind :: size :: rest) headerEnd front.length mssIndex =
      walkOptions (front ++ kind :: size :: rest) headerEnd (front.length + size.toNat)
        (if kind = 2 ∧ size = 4 ∧ front.length + 4 ≤ headerEnd then
          selectMss (((rest.getD 0 0).toNat <<< 8) ||| (rest.getD 1 0).toNat) mssIndex
        else mssIndex) := by
  have hkind : (front ++ kind :: size :: rest).getD front.length 0 = kind :=
    getD_behind front (kind :: size :: rest) 0
  have hlength : (front ++ kind :: size :: rest).getD (front.length + 1) 0 = size :=
    getD_behind front (kind :: size :: rest) 1
  have hhigh : (front ++ kind :: size :: rest).getD (front.length + 2) 0 = rest.getD 0 0 :=
    getD_behind front (kind :: size :: rest) 2
  have hlow : (front ++ kind :: size :: rest).getD (front.length + 3) 0 = rest.getD 1 0 :=
    getD_behind front (kind :: size :: rest) 3
  rw [walkOptions, if_pos hroom]
  simp only [hkind, hlength, hhigh, hlow, if_neg hone, if_neg hsize]

/-- The two bytes of a segment size. -/
theorem mss_of_bytes (value : UInt16) (rest : List UInt8) :
    ((((putUint16 value ++ rest).getD 0 0).toNat <<< 8) |||
      ((putUint16 value ++ rest).getD 1 0).toNat) = value.toNat := by
  have hlt := value.toNat_lt
  change ((value >>> 8).toUInt8.toNat <<< 8) ||| value.toUInt8.toNat = value.toNat
  rw [UInt16.toNat_toUInt8, UInt16.toNat_toUInt8, UInt16.toNat_shiftRight]
  change (value.toNat >>> 8 % 256) <<< 8 ||| value.toNat % 256 = value.toNat
  rw [Nat.shiftLeft_eq, Nat.shiftRight_eq_div_pow, mul_or_eq_add 8 (by omega)]
  omega

/-- The walk over zeros selects nothing. -/
theorem walkOptions_padding (padding : ℕ) (front back : List UInt8) (mssIndex : Fin 8) :
    walkOptions (front ++ (List.replicate padding 0 ++ back)) (front.length + padding) front.length
      mssIndex = mssIndex := by
  induction padding generalizing front with
  | zero => exact walkOptions_of_lt mssIndex (by omega)
  | succ padding ih =>
    have hnext := ih (front ++ [0])
    rw [List.length_append, List.append_assoc, List.length_singleton, Nat.add_assoc,
      Nat.add_comm 1 padding] at hnext
    rw [List.replicate_succ, List.cons_append, walkOptions_single mssIndex (Or.inl rfl)]
    exact hnext

/-- The walk over an option area selects from each segment size in turn. -/
theorem walkOptions_area (options : List TcpOption) (padding : ℕ) (front back : List UInt8)
    (mssIndex : Fin 8) :
    walkOptions (front ++ (optionArea options padding ++ back))
        (front.length + (optionArea options padding).length) front.length mssIndex =
      (segmentSizes options).foldl (fun index value ↦ selectMss value.toNat index) mssIndex := by
  induction options generalizing front mssIndex with
  | nil =>
    have hzeros := walkOptions_padding padding front back mssIndex
    simpa [optionArea, segmentSizes] using hzeros
  | cons option options ih =>
    have harea : optionArea (option :: options) padding =
        option.bytes ++ optionArea options padding := by
      rw [optionArea, optionArea, List.flatMap_cons, List.append_assoc]
    have hnext (index : Fin 8) := ih (front ++ option.bytes) index
    simp only [List.length_append, List.append_assoc] at hnext
    rw [harea, List.append_assoc, List.length_append, ← Nat.add_assoc]
    cases option with
    | noOperation =>
      exact (walkOptions_single mssIndex (Or.inr rfl)).trans (hnext mssIndex)
    | maximumSegmentSize value =>
      have hroom : front.length + 4 ≤ front.length + 4 + (optionArea options padding).length :=
        Nat.le_add_right _ _
      have hstep := walkOptions_sized front
        (putUint16 value ++ (optionArea options padding ++ back)) mssIndex
        (show ¬((2 : UInt8) = 0 ∨ (2 : UInt8) = 1) by decide) (show (4 : UInt8) ≠ 0 by decide)
        (show front.length + 2 ≤ front.length + 4 + (optionArea options padding).length by omega)
      rw [if_pos ⟨rfl, rfl, hroom⟩, mss_of_bytes] at hstep
      exact hstep.trans (hnext _)
    | other kind data hkind hlength =>
      have hsize : (UInt8.ofNat (data.length + 2)).toNat = data.length + 2 :=
        UInt8.toNat_ofNat_of_lt' hlength
      have hnonzero : UInt8.ofNat (data.length + 2) ≠ 0 := by
        intro hzero
        rw [hzero] at hsize
        exact absurd hsize (by simp)
      have hone : ¬(kind = 0 ∨ kind = 1) := by
        rintro (rfl | rfl) <;> exact absurd hkind (by decide)
      have htwo : kind ≠ 2 := by
        rintro rfl
        exact absurd hkind (by decide)
      have hstep := walkOptions_sized front (data ++ (optionArea options padding ++ back)) mssIndex
        hone hnonzero (show front.length + 2 ≤ front.length + (data.length + 2) +
          (optionArea options padding).length by omega)
      rw [if_neg fun h ↦ htwo h.1, hsize] at hstep
      exact hstep.trans (hnext _)

end Walk

/-- The area of a packet, with one segment size. -/
theorem walkOptions_packet {pl : List UInt8} {options : List TcpOption} {padding : ℕ}
    {value : UInt16} (hlength : headerSize pl ≤ pl.length) (hheader : 20 ≤ headerSize pl)
    (harea : slice pl 20 (headerSize pl - 20) = optionArea options padding)
    (hone : segmentSizes options = [value]) :
    walkOptions pl (headerSize pl) 20 1 = selectMss value.toNat 1 := by
  have hfront : (pl.take 20).length = 20 := by
    rw [List.length_take]
    omega
  have hsplit : pl = pl.take 20 ++ (optionArea options padding ++ pl.drop (headerSize pl)) := by
    rw [← harea, ← List.append_assoc, take_append_slice, show 20 + (headerSize pl - 20) =
      headerSize pl by omega, List.take_append_drop]
  have hend : headerSize pl = 20 + (optionArea options padding).length := by
    rw [← harea, length_slice _ _ _ (by omega)]
    omega
  have hwalk := walkOptions_area options padding (pl.take 20) (pl.drop (headerSize pl)) 1
  rw [← hsplit, hfront, ← hend, hone] at hwalk
  exact hwalk

/-! ### The table -/

/-- The search in the table, written out. -/
theorem selectMss_eq (mss : ℕ) (mssIndex : Fin 8) :
    selectMss mss mssIndex =
      if 1500 ≤ mss then 7 else if 1460 ≤ mss then 6 else if 1452 ≤ mss then 5
      else if 1436 ≤ mss then 4 else if 1400 ≤ mss then 3 else if 984 ≤ mss then 2
      else if 536 ≤ mss then 1 else if 216 ≤ mss then 0 else mssIndex := rfl

/-- The entry that is found is not above the size exactly when the first one is not. -/
theorem mssRanges_selectMss_le_iff (mss : ℕ) :
    (mssRanges (selectMss mss 1)).value ≤ mss ↔ 216 ≤ mss := by
  rw [selectMss_eq]
  split_ifs <;> simp only [mssRanges] <;> omega

/-! ### The session -/

/-- What a packet that is not dropped says about its options. -/
theorem decodeSegment_some {fromAddr toAddr pl : List UInt8} {segment : Segment}
    (h : decodeSegment fromAddr toAddr pl = some segment) :
    20 ≤ headerSize pl ∧ headerSize pl ≤ pl.length ∧ segment.flags = pl.getD 13 0 ∧
      segment.mssIndex = if hasFlag (pl.getD 13 0) flagSyn ∧ hasFlag (pl.getD 13 0) flagAck = false
        then walkOptions pl (headerSize pl) 20 1 else 1 := by
  unfold decodeSegment at h
  split_ifs at h with hshort hchecksum hsmall hlong hint
  rw [← Option.some.inj h]
  exact ⟨Nat.le_of_not_lt hsmall, Nat.le_of_not_lt hlong, rfl, rfl⟩

/-- The segment size of a session is that of the SYN. Assumes: the acknowledgement of the answer
made the session. -/
theorem mss_of_created {config : Config} {environment environment' : Environment}
    {syn ack : Segment} {out : OutSegment} {sessions : Sessions} {session : Session}
    (hsent : .toIp out ∈ sendSynCookie config environment (segmentId syn) syn)
    (hack : Acknowledges syn out ack) (hunknown : sessions[segmentId ack]? = none)
    (hcreated : (runIn config environment' ack sessions).1[segmentId ack]? = some session) :
    session.mss = mssRanges syn.mssIndex := by
  have hnumber := hack.number
  rw [seqNr_sendSynCookie hsent] at hnumber
  rw [(runIn_unknown config environment' ack hunknown).1] at hcreated
  obtain ⟨shmPeer, -, rfl⟩ := completes_of_session hcreated
  change mssRanges (cookieIndex ack) = _
  exact congrArg mssRanges (cookieIndex_of_cookie hnumber)

theorem mss_afterAck (segment : Segment) (session : Session) :
    (afterAck segment session).1.mss = session.mss := by
  unfold afterAck ackPending
  dsimp only
  split_ifs <;> rfl

theorem SendingStep.mss_eq {segment : Segment} {session next : Session}
    (h : SendingStep segment session next) : next.mss = session.mss := by
  cases h with
  | acked _ _ _ hsending => exact hsending.mss_eq.trans (mss_afterAck segment session)
  | kept _ _ hsending => exact hsending.mss_eq
  | forgot finned hsending hnext =>
    rw [hnext]
    exact hsending.mss_eq

section Life

variable (config : Config) (sessionId : UInt64)

/-- A step of a life keeps the segment size, and sends nothing longer. -/
theorem mss_lifeStep (session : Session) (event : LifeEvent) :
    (∀ next, (lifeStep config sessionId (some session) event).1 = some next →
        next.mss = session.mss) ∧
      ∀ out ∈ emitted (lifeStep config sessionId (some session) event).2,
        out.payload.length ≤ session.mss.value := by
  cases event with
  | event event =>
    cases event with
    | segment environment segment =>
      refine ⟨fun next hnext ↦ ?_, fun out hout ↦ ?_⟩
      · exact (runInSession_sending config environment sessionId hnext).mss_eq
      · have hreply := reply_runInSession config environment sessionId segment session out hout
        rw [hreply.1]
        exact Nat.zero_le _
    | write flags what =>
      refine ⟨fun next hnext ↦ ?_, fun out hout ↦ absurd hout List.not_mem_nil⟩
      rw [← Option.some.inj hnext]
      unfold addFromL7
      dsimp only
      split_ifs <;> rfl
    | visit accepts =>
      have hshort : (visitPayload session).length ≤ session.mss.value := by
        simp [visitPayload]
      change (∀ next, some (senderVisit accepts session).session = some next → _) ∧
        ∀ out ∈ emitted (senderVisit accepts session).outputs, _
      rw [senderVisit_eq]
      split_ifs
      · exact ⟨fun next hnext ↦ (Option.some.inj hnext) ▸ rfl,
          fun out hout ↦ absurd hout List.not_mem_nil⟩
      · refine ⟨fun next hnext ↦ (Option.some.inj hnext) ▸ rfl, fun out hout ↦ ?_⟩
        rw [List.mem_singleton.mp hout]
        exact hshort
      · exact ⟨fun next hnext ↦ (Option.some.inj hnext) ▸ rfl,
          fun out hout ↦ absurd hout List.not_mem_nil⟩
      · exact ⟨fun next hnext ↦ (Option.some.inj hnext) ▸ rfl,
          fun out hout ↦ absurd hout List.not_mem_nil⟩
  | close accepted =>
    refine ⟨fun next hnext ↦ absurd hnext (by simp [lifeStep]), fun out hout ↦ ?_⟩
    change out ∈ emitted (closeFin accepted session) at hout
    rw [emitted_closeFin] at hout
    cases accepted with
    | true =>
      rw [List.mem_singleton.mp hout]
      exact Nat.zero_le _
    | false => exact absurd hout List.not_mem_nil

/-- Nothing that is sent over a life is longer than the segment size. -/
theorem payload_le_mss (session : Session) (events : List LifeEvent) :
    ∀ out ∈ emitted (run (lifeStep config sessionId) (some session) events).2,
      out.payload.length ≤ session.mss.value := by
  have hrun := run_induction (P := fun _ state outputs ↦
      (∀ current, state = some current → current.mss = session.mss) ∧
        ∀ out ∈ emitted outputs, out.payload.length ≤ session.mss.value)
    ⟨?_, fun out hout ↦ absurd hout List.not_mem_nil⟩ ?_
    (along_true (lifeStep config sessionId) (some session) events)
  · exact hrun.2
  · rintro current ⟨⟩
    rfl
  · rintro - state outputs event ⟨hmss, hbefore⟩ -
    cases state with
    | none =>
      rw [lifeStep_none, List.append_nil]
      exact ⟨fun current hcurrent ↦ absurd hcurrent (by simp), hbefore⟩
    | some current =>
      obtain ⟨hkept, hsent⟩ := mss_lifeStep config sessionId current event
      rw [hmss current rfl] at hkept hsent
      refine ⟨hkept, fun out hout ↦ ?_⟩
      rw [emitted_append] at hout
      rcases List.mem_append.mp hout with hout | hout
      · exact hbefore out hout
      · exact hsent out hout

end Life

/-- When a session honours the segment size of its peer. Assumes: the options of the SYN are
well-formed with the one segment size `value`, `out` is the answer to it, and the acknowledgement of
the answer made the session. The segment size of the session, and the payload of every segment that
is sent over its life, are at most `value` exactly when `value` is not below the first entry of the
table. -/
theorem session_honours_mss_iff {config : Config} {environment environment' : Environment}
    {fromAddr toAddr pl : List UInt8} {syn ack : Segment} {out : OutSegment} {sessions : Sessions}
    {session : Session} {options : List TcpOption} {padding : ℕ} {value : UInt16}
    (hdecode : decodeSegment fromAddr toAddr pl = some syn)
    (hsyn : hasFlag syn.flags flagSyn = true) (hnoAck : hasFlag syn.flags flagAck = false)
    (harea : slice pl 20 (headerSize pl - 20) = optionArea options padding)
    (hone : segmentSizes options = [value])
    (hsent : .toIp out ∈ sendSynCookie config environment (segmentId syn) syn)
    (hack : Acknowledges syn out ack) (hunknown : sessions[segmentId ack]? = none)
    (hcreated : (runIn config environment' ack sessions).1[segmentId ack]? = some session) :
    (session.mss.value ≤ value.toNat ∧ ∀ events : List LifeEvent,
        ∀ sent ∈ emitted (run (lifeStep config (segmentId ack)) (some session) events).2,
          sent.payload.length ≤ value.toNat) ↔
      216 ≤ value.toNat := by
  have hmss : session.mss = mssRanges (selectMss value.toNat 1) := by
    obtain ⟨hheader, hlength, hflags, hindex⟩ := decodeSegment_some hdecode
    rw [hflags] at hsyn hnoAck
    rw [if_pos ⟨hsyn, hnoAck⟩, walkOptions_packet hlength hheader harea hone] at hindex
    rw [mss_of_created hsent hack hunknown hcreated, hindex]
  have hiff := mssRanges_selectMss_le_iff value.toNat
  rw [← hmss] at hiff
  refine ⟨fun h ↦ hiff.mp h.1, fun h ↦ ⟨hiff.mpr h, fun events sent hsegment ↦ ?_⟩⟩
  exact (payload_le_mss config (segmentId ack) session events sent hsegment).trans (hiff.mpr h)

/-- The SYN of the sample peer on the wire, with a segment size of 600 bytes: 536 are selected. -/
theorem session_honours_mss_600 :
    ∃ session,
      (runIn sampleConfig (sampleAt 15) (sampleAck 10) ∅).1[segmentId (sampleAck 10)]? =
        some session ∧
      session.mss.value ≤ 600 ∧ ∀ events : List LifeEvent,
        ∀ sent ∈ emitted (run (lifeStep sampleConfig (segmentId (sampleAck 10))) (some session)
          events).2, sent.payload.length ≤ 600 := by
  have hdecode : decodeSegment [10, 0, 0, 2] [10, 0, 0, 1]
      [3, 232, 0, 80, 0, 0, 0, 7, 0, 0, 0, 0, 96, 2, 4, 0, 127, 65, 0, 0, 2, 4, 2, 88] =
        some sampleSyn := by decide +kernel
  have harea : slice
      [3, 232, 0, 80, 0, 0, 0, 7, 0, 0, 0, 0, 96, 2, 4, 0, 127, 65, 0, 0, 2, 4, 2, 88] 20 4 =
        optionArea [.maximumSegmentSize 600] 0 := by decide +kernel
  obtain ⟨session, hcreated⟩ := Option.isSome_iff_exists.mp (show
    ((runIn sampleConfig (sampleAt 15) (sampleAck 10) ∅).1[segmentId (sampleAck 10)]?).isSome = true
    by decide +kernel)
  refine ⟨session, hcreated, ?_⟩
  exact (session_honours_mss_iff hdecode (by decide) (by decide) harea rfl (mem_sampleSynAck 10)
    (sampleAck_acknowledges 10) Std.ExtTreeMap.getElem?_empty hcreated).mpr (by decide)

/-- The same SYN with a segment size of 100 bytes: the session is made with 536, and the sender
sends a segment of 200 bytes. -/
theorem small_mss_is_not_honoured :
    let pl : List UInt8 :=
      [3, 232, 0, 80, 0, 0, 0, 7, 0, 0, 0, 0, 96, 2, 4, 0, 129, 53, 0, 0, 2, 4, 0, 100]
    decodeSegment [10, 0, 0, 2] [10, 0, 0, 1] pl = some sampleSyn ∧
      slice pl 20 (headerSize pl - 20) = optionArea [.maximumSegmentSize 100] 0 ∧
      (runIn sampleConfig (sampleAt 10) sampleSyn ∅).2 = [.toIp (sampleSynAck 10)] ∧
      let created :=
        (runIn sampleConfig (sampleAt 15) (sampleAck 10) ∅).1[segmentId (sampleAck 10)]?
      (created.map fun session ↦ session.mss.value) = some 536 ∧
      (emitted (run (lifeStep sampleConfig (segmentId (sampleAck 10))) created
        [.event (.write 0 (List.replicate 200 0)), .event (.visit fun _ ↦ true)]).2).map
          (fun sent ↦ sent.payload.length) = [200] := by
  decide +kernel

end MyIPNG.Tcp
