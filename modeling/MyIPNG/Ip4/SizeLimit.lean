import MyIPNG.Ip4.Acceptance

/-!
# The size of reassembled datagrams

A datagram has at most 65535 bytes with its header of twenty bytes. `run_in` tests the length of
each packet, and the offset of a fragment is below 65536, but nothing tests where a fragment ends.
The record of a datagram grows to the highest end (`length_addFragment`), and `is_complete` compares
ends in 16-bit arithmetic, which a last fragment over the limit passes.

`payload_within_limit` says that the limit holds in every run in which each accepted packet ends
inside of it.
-/

set_option autoImplicit false
set_option relaxedAutoImplicit false

namespace MyIPNG.Ip4

open Base Utils

/-- The largest payload of a datagram: 65535 bytes without the header. -/
def maxPayloadSize : ℕ := 65535 - 20

/-- A packet that passes the tests ends inside of the largest datagram. -/
def EndsInside (config : Config) : InEvent → Prop
  | .packet arrival => PassesTests config arrival.pl →
    (fragmentOffset arrival.pl).toNat + (contents arrival.pl).length ≤ maxPayloadSize
  | .cleaner _ => True

/-- Every record is inside of the largest datagram. -/
def RecordsInside (packets : Packets) : Prop :=
  ∀ (key : UInt64) (p : Packet), packets[key]? = some p → p.data.length ≤ maxPayloadSize

/-- Every message that goes up is inside of the largest datagram. -/
def MessagesInside (outputs : List Output) : Prop :=
  ∀ queue message, Output.up queue message ∈ outputs → message.payload.length ≤ maxPayloadSize

section Steps

variable {config : Config} {packets : Packets}

/-- The record of a fragment that ends inside of the limit stays inside. -/
theorem RecordsInside.addFragment (h : RecordsInside packets) (arrival : Arrival) (key : UInt64)
    {offset : UInt16} {payload : List UInt8}
    (hend : offset.toNat + payload.length ≤ maxPayloadSize) (more : Bool) :
    (addFragment arrival (packets[key]?.getD noPacket) offset more payload).data.length ≤
      maxPayloadSize := by
  have hrecord : (packets[key]?.getD noPacket).data.length ≤ maxPayloadSize := by
    cases hentry : packets[key]? with
    | none => exact Nat.zero_le _
    | some p => exact h key p hentry
  rw [length_addFragment]
  exact max_le hrecord hend

/-- The store keeps the limit. -/
theorem RecordsInside.storeFragment (h : RecordsInside packets) (config : Config)
    (arrival : Arrival) (key : UInt64) {offset : UInt16} {payload : List UInt8}
    (hend : offset.toNat + payload.length ≤ maxPayloadSize) (more : Bool) :
    RecordsInside (storeFragment config arrival key offset more payload packets).1 ∧
      ∀ whole, (Ip4.storeFragment config arrival key offset more payload packets).2 =
        some whole → whole.length ≤ maxPayloadSize := by
  obtain ⟨hentry, hup⟩ := storeFragment_key config arrival key offset more payload packets
  have hadded := h.addFragment arrival key hend more
  rw [← data_isComplete config.sort] at hadded
  constructor
  · intro other p hp
    by_cases hother : key = other
    · subst hother
      rw [hentry] at hp
      split_ifs at hp with hcomplete
      rw [← Option.some.inj hp]
      exact hadded
    · rw [storeFragment_other config arrival hother] at hp
      exact h other p hp
  · intro whole hwhole
    rw [hup] at hwhole
    split_ifs at hwhole with hcomplete
    rw [← Option.some.inj hwhole]
    exact hadded

/-- One event keeps the limit. -/
theorem inside_step (h : RecordsInside packets) {event : InEvent}
    (hevent : EndsInside config event) :
    RecordsInside (inStep config packets event).1 ∧
      MessagesInside (inStep config packets event).2 := by
  cases event with
  | cleaner now =>
    refine ⟨fun key p hp ↦ ?_, fun _ _ hmem ↦ absurd hmem List.not_mem_nil⟩
    have hentry : (cleanPackets now packets)[key]? = some p := hp
    rw [cleanPackets, Std.ExtTreeMap.getElem?_filter', Option.filter_eq_some_iff] at hentry
    exact h key p hentry.1
  | packet arrival =>
    change RecordsInside (runIn config packets arrival).1 ∧
      MessagesInside (runIn config packets arrival).2
    by_cases hpasses : PassesTests config arrival.pl
    · have hend := hevent hpasses
      obtain ⟨queue, -, hwhole, hfragment⟩ := runIn_of_passes hpasses packets
      by_cases hkind : IsFragment arrival.pl
      · obtain ⟨hrecords, hpayload⟩ := h.storeFragment config arrival (packetKey arrival.pl) hend
          (moreFragments arrival.pl)
        have hrun := hfragment hkind
        dsimp only at hrun
        rw [hrun]
        refine ⟨hrecords, fun other message hmem ↦ ?_⟩
        obtain ⟨whole, hwhole, hmessage⟩ := Option.map_eq_some_iff.mp (Option.mem_toList.mp hmem)
        rw [← (Output.up.inj hmessage).2]
        exact hpayload whole hwhole
      · rw [hwhole hkind]
        refine ⟨h, fun other message hmem ↦ ?_⟩
        rw [(Output.up.inj (List.mem_singleton.mp hmem)).2]
        exact le_trans (Nat.le_add_left _ _) hend
    · obtain ⟨hsame, hnone⟩ := runIn_of_refused hpasses packets
      rw [hsame]
      exact ⟨h, fun queue message hmem ↦ absurd hmem (hnone queue message)⟩

end Steps

/-- A datagram that goes up respects the limit. Assumes: in the run, every packet that passes the
tests ends inside of the largest datagram. -/
theorem payload_within_limit (config : Config) {events : List InEvent}
    (h : ∀ event ∈ events, EndsInside config event) {queue : List UInt8} {message : UpMessage}
    (hup : Output.up queue message ∈ (run (inStep config) ∅ events).2) :
    message.payload.length ≤ maxPayloadSize := by
  have halong : Along (inStep config) (fun _ event ↦ EndsInside config event) ∅ events :=
    along_of_forall h ∅
  have hrun := run_induction (P := fun _ packets outputs ↦
    RecordsInside packets ∧ MessagesInside outputs) ?_ ?_ halong
  · exact hrun.2 queue message hup
  · refine ⟨fun key p hp ↦ ?_, fun _ _ hmem ↦ absurd hmem List.not_mem_nil⟩
    rw [Std.ExtTreeMap.getElem?_empty] at hp
    exact absurd hp (by simp)
  · rintro _ packets outputs event ⟨hrecords, hmessages⟩ hevent
    obtain ⟨hnext, hsent⟩ := inside_step hrecords hevent
    refine ⟨hnext, fun queue message hmem ↦ ?_⟩
    rcases List.mem_append.mp hmem with hbefore | hnew
    · exact hmessages queue message hbefore
    · exact hsent queue message hnew

/-- The server of the sample datagram with another sort. -/
def sampleReceiver : Config := { sampleConfig with sort := insertionSortFragments }

/-- The two fragments of the sample datagram, the last one first. -/
def sampleFragments : List InEvent :=
  [.packet (sampleArrival (8, slice sampleDatagram.payload 8 12)),
    .packet (sampleArrival (0, slice sampleDatagram.payload 0 8))]

theorem payload_within_limit_sample :
    ∃ queue message,
      Output.up queue message ∈ (run (inStep sampleReceiver) ∅ sampleFragments).2 ∧
        message.payload.length ≤ maxPayloadSize := by
  have hinside : ∀ event ∈ sampleFragments, EndsInside sampleReceiver event := by
    unfold sampleFragments
    refine List.forall_mem_cons.mpr ⟨fun _ ↦ ?_, List.forall_mem_cons.mpr ⟨fun _ ↦ ?_, ?_⟩⟩
    · decide +kernel
    · decide +kernel
    · exact List.forall_mem_nil _
  have hup : Output.up [117, 100, 112] (messageOf
      (sampleArrival (0, slice sampleDatagram.payload 0 8)).pl sampleDatagram.payload) ∈
        (run (inStep sampleReceiver) ∅ sampleFragments).2 := by
    decide +kernel
  exact ⟨_, _, hup, payload_within_limit sampleReceiver hinside hup⟩

/-- A packet with this header and as many zeros behind it. -/
def zerosBehind (header : List UInt8) (count : ℕ) : Arrival where
  pl := header ++ List.replicate count 0
  nowUs := 0
  fresh := fun _ ↦ 0

/-- The first fragment of a datagram, with 65512 bytes. -/
def sampleFirst : Arrival :=
  zerosBehind [0x45, 0, 0xff, 0xfc, 0, 1, 0x20, 0, 64, 17, 0xd7, 0x9b, 192, 168, 1, 1,
    192, 168, 1, 2] 65512

/-- The last fragment, with 24 bytes at the offset 65512. -/
def sampleLast : Arrival :=
  zerosBehind [0x45, 0, 0, 44, 0, 1, 0x1f, 0xfd, 64, 17, 0xd7, 0x6f, 192, 168, 1, 1,
    192, 168, 1, 2] 24

theorem length_zerosBehind (header : List UInt8) (count : ℕ) :
    (zerosBehind header count).pl.length = header.length + count := by
  rw [zerosBehind, List.length_append, List.length_replicate]

theorem length_contents {pl : List UInt8} (h : ipSize pl ≤ pl.length) :
    (contents pl).length = ipSize pl - headerSize pl := by
  rw [contents, List.length_drop, List.length_take, min_eq_left h]

/-- The first fragment is stored, with its 65512 bytes. -/
theorem runIn_sampleFirst :
    ∃ p, runIn sampleReceiver ∅ sampleFirst =
        ((∅ : Packets).insert (packetKey sampleFirst.pl) p, []) ∧
      p.data.length = 65512 ∧ p.fragments = [(0, 65512)] := by
  have hlength : sampleFirst.pl.length = 65532 := length_zerosBehind _ _
  have hsize : ipSize sampleFirst.pl = 65532 := by decide +kernel
  have hheader : headerSize sampleFirst.pl = 20 := by decide +kernel
  have hpasses : PassesTests sampleReceiver sampleFirst.pl := by
    refine ⟨by omega, ?_, ?_, by omega, by omega, ?_, ?_, ?_⟩ <;> decide +kernel
  have hcontents : (contents sampleFirst.pl).length = 65512 := by
    rw [length_contents (by omega), hsize, hheader]
  have hoffset : fragmentOffset sampleFirst.pl = 0 := by decide +kernel
  have hmore : moreFragments sampleFirst.pl = true := by decide +kernel
  obtain ⟨queue, -, -, hfragment⟩ := runIn_of_passes hpasses ∅
  have hrun := hfragment (Or.inr hmore)
  rw [hoffset, hmore] at hrun
  refine ⟨addFragment sampleFirst noPacket 0 true (contents sampleFirst.pl), hrun, ?_, ?_⟩
  · rw [length_addFragment, hcontents]
    rfl
  · change [] ++ [((0 : UInt16), UInt16.ofNat (contents sampleFirst.pl).length)] = _
    rw [hcontents]
    rfl

/-- Both fragments are accepted, and a datagram of 65536 bytes goes up. -/
theorem oversized_datagram_goes_up :
    ¬ ∀ queue message, Output.up queue message ∈
      (run (inStep sampleReceiver) ∅ [.packet sampleFirst, .packet sampleLast]).2 →
        message.payload.length ≤ maxPayloadSize := by
  obtain ⟨p, hfirst, hdata, hfragments⟩ := runIn_sampleFirst
  have hlength : sampleLast.pl.length = 44 := length_zerosBehind _ _
  have hpasses : PassesTests sampleReceiver sampleLast.pl := by
    refine ⟨by omega, ?_, ?_, ?_, ?_, ?_, ?_, ?_⟩ <;> decide +kernel
  have hoffset : fragmentOffset sampleLast.pl = 65512 := by decide +kernel
  have hmore : moreFragments sampleLast.pl = false := by decide +kernel
  have hcontents : contents sampleLast.pl = List.replicate 24 0 := by decide +kernel
  have hkey : packetKey sampleLast.pl = packetKey sampleFirst.pl := by decide +kernel
  let packets := (∅ : Packets).insert (packetKey sampleFirst.pl) p
  have hrecord : packets[packetKey sampleFirst.pl]?.getD noPacket = p := by
    rw [Std.ExtTreeMap.getElem?_insert_self, Option.getD_some]
  let added := addFragment sampleLast p 65512 false (List.replicate 24 0)
  have hcomplete : (isComplete sampleReceiver.sort added).1 = true := by
    have hranges : added.fragments = [(0, 65512), (65512, 24)] := by
      change p.fragments ++ _ = _
      rw [hfragments]
      rfl
    change contiguous 0 (insertionSortFragments.sort added.fragments) = true
    rw [hranges]
    decide +kernel
  have hlarge : (isComplete sampleReceiver.sort added).2.data.length = 65536 := by
    rw [data_isComplete, length_addFragment, hdata]
    rfl
  obtain ⟨queue, -, -, hfragment⟩ := runIn_of_passes hpasses packets
  have hrun := hfragment (Or.inl (by rw [hoffset]; decide))
  obtain ⟨-, hup⟩ := storeFragment_key sampleReceiver sampleLast (packetKey sampleFirst.pl) 65512
    false (List.replicate 24 0) packets
  rw [hrecord, if_pos hcomplete] at hup
  rw [hkey, hoffset, hmore, hcontents] at hrun
  dsimp only at hrun
  rw [hup] at hrun
  intro h
  have hmem : Output.up queue (messageOf sampleLast.pl
      (isComplete sampleReceiver.sort added).2.data) ∈
      (run (inStep sampleReceiver) ∅ [.packet sampleFirst, .packet sampleLast]).2 := by
    rw [run_cons, run_cons]
    change _ ∈ (runIn sampleReceiver ∅ sampleFirst).2 ++
      ((runIn sampleReceiver (runIn sampleReceiver ∅ sampleFirst).1 sampleLast).2 ++ [])
    rw [hfirst, hrun]
    exact List.mem_singleton.mpr rfl
  have hsmall := h _ _ hmem
  change (isComplete sampleReceiver.sort added).2.data.length ≤ maxPayloadSize at hsmall
  rw [hlarge] at hsmall
  exact absurd hsmall (by decide)

end MyIPNG.Ip4
