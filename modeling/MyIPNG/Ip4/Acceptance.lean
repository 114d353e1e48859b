import MyIPNG.Ip4.Soundness

/-!
# Which packets `run_in` accepts

`run_in` goes through a chain of tests before it passes a packet up or stores it. `PassesTests` are
the tests that it makes, and `runIn_of_passes` and `runIn_of_refused` what it does with a packet
that passes them and with one that does not. `WellFormed` is what a packet should be: it asks for a
header of twenty bytes besides. No test asks for that, and the checksum is taken over as many bytes
as the header says that it has, so a packet with a header of four to sixteen bytes can pass.

A packet is accepted (`Accepted`) when it makes the server pass a message up or changes a record.
`HandsOn` says which bytes of it are then in the message or in the record. `accepts_exactly_iff`
says for which packets accepting is being well formed.
-/

set_option autoImplicit false
set_option relaxedAutoImplicit false

namespace MyIPNG.Ip4

open Base Utils

/-! ### Packets -/

/-- A well-formed packet for this server. -/
structure WellFormed (config : Config) (pl : List UInt8) : Prop extends PassesTests config pl where
  header_full : 20 ≤ headerSize pl

/-- The packet makes the server pass a message up, or is stored. -/
def Accepted (config : Config) (packets : Packets) (arrival : Arrival) : Prop :=
  (∃ queue message, Output.up queue message ∈ (runIn config packets arrival).2) ∨
    (runIn config packets arrival).1 ≠ packets

/-- The bytes are put in at an offset: they are there, and what does not overlap with them stays. -/
structure PutIn (offset : ℕ) (bytes before after : List UInt8) : Prop where
  length_eq : after.length = max before.length (offset + bytes.length)
  written : slice after offset bytes.length = bytes
  kept : ∀ start count, start + count ≤ before.length →
    start + count ≤ offset ∨ offset + bytes.length ≤ start →
      slice after start count = slice before start count

/-- The bytes are all that is handed on of a packet. They are the payload of the message, or they
are put in the record of a fragment at its offset, and the record goes up or stays. -/
def HandsOn (config : Config) (packets : Packets) (arrival : Arrival) (bytes : List UInt8) :
    Prop :=
  ∃ queue, config.mappingsIn (byteAt arrival.pl 9) = some queue ∧
    (¬ IsFragment arrival.pl → ∃ message,
      (runIn config packets arrival).2 = [.up queue message] ∧ message.payload = bytes) ∧
    (IsFragment arrival.pl → ∃ data,
      PutIn (fragmentOffset arrival.pl).toNat bytes
        (packets[packetKey arrival.pl]?.getD noPacket).data data ∧
      ((∃ message, (runIn config packets arrival).2 = [.up queue message] ∧
          message.payload = data) ∨
        (runIn config packets arrival).2 = [] ∧ ∃ p,
          (runIn config packets arrival).1[packetKey arrival.pl]? = some p ∧ p.data = data))

/-! ### The loop body -/

section LoopBody

variable {config : Config} {arrival : Arrival}

/-- A fragment is put in its record. -/
theorem putIn_addFragment (arrival : Arrival) (p : Packet) (offset : UInt16) (more : Bool)
    (payload : List UInt8) :
    PutIn offset.toNat payload p.data (addFragment arrival p offset more payload).data := by
  have hgrown := length_grow arrival.fresh p.data (offset.toNat + payload.length)
  exact ⟨length_addFragment arrival p offset more payload,
    slice_overwrite_self _ _ _ (by omega),
    fun _ _ hinside hapart ↦ slice_addFragment_of_apart arrival more hinside hapart⟩

/-- A record with one more fragment is another record. -/
theorem length_fragments_isComplete (sort : FragmentSort) (arrival : Arrival) (p : Packet)
    (offset : UInt16) (more : Bool) (payload : List UInt8) :
    (isComplete sort (addFragment arrival p offset more payload)).2.fragments.length =
      p.fragments.length + 1 := by
  unfold isComplete
  split_ifs with hknown
  · exact List.length_append
  · exact ((sort.perm _).length_eq).trans List.length_append

theorem accepted_of_up {packets : Packets} {queue : List UInt8} {message : UpMessage}
    (h : (runIn config packets arrival).2 = [.up queue message]) :
    Accepted config packets arrival := by
  refine Or.inl ⟨queue, message, ?_⟩
  rw [h]
  exact List.mem_singleton.mpr rfl

/-- A packet that passes the tests is accepted, and it is handed on as it is. -/
theorem accepted_of_passes (h : PassesTests config arrival.pl) (packets : Packets) :
    Accepted config packets arrival ∧
      HandsOn config packets arrival (contents arrival.pl) := by
  obtain ⟨queue, hqueue, hwhole, hfragment⟩ := runIn_of_passes h packets
  by_cases hkind : IsFragment arrival.pl
  · have hrun := hfragment hkind
    dsimp only at hrun
    obtain ⟨hentry, hup⟩ := storeFragment_key config arrival (packetKey arrival.pl)
      (fragmentOffset arrival.pl) (moreFragments arrival.pl) (contents arrival.pl) packets
    let p := packets[packetKey arrival.pl]?.getD noPacket
    have hput := putIn_addFragment arrival p (fragmentOffset arrival.pl)
      (moreFragments arrival.pl) (contents arrival.pl)
    have hlength := length_fragments_isComplete config.sort arrival p (fragmentOffset arrival.pl)
      (moreFragments arrival.pl) (contents arrival.pl)
    rw [← data_isComplete config.sort (addFragment _ _ _ _ _)] at hput
    generalize isComplete config.sort (addFragment arrival p (fragmentOffset arrival.pl)
      (moreFragments arrival.pl) (contents arrival.pl)) = complete at hentry hup hput hlength
    split_ifs at hentry hup with hcomplete
    · have hout : (runIn config packets arrival).2 =
          [.up queue (messageOf arrival.pl complete.2.data)] := by
        rw [hrun, hup]
        rfl
      exact ⟨accepted_of_up hout, queue, hqueue, fun hnot ↦ absurd hkind hnot,
        fun _ ↦ ⟨complete.2.data, hput, Or.inl ⟨_, hout, rfl⟩⟩⟩
    · have hout : (runIn config packets arrival).2 = [] := by
        rw [hrun, hup]
        rfl
      have hrecord : (runIn config packets arrival).1[packetKey arrival.pl]? =
          some complete.2 := by
        rw [hrun]
        exact hentry
      refine ⟨Or.inr fun hsame ↦ ?_, queue, hqueue, fun hnot ↦ absurd hkind hnot,
        fun _ ↦ ⟨complete.2.data, hput, Or.inr ⟨hout, complete.2, hrecord, rfl⟩⟩⟩
      rw [hsame] at hrecord
      have hold : p = complete.2 := congrArg (Option.getD · noPacket) hrecord
      rw [hold] at hlength
      omega
  · have hout : (runIn config packets arrival).2 =
        [.up queue (messageOf arrival.pl (contents arrival.pl))] := by
      rw [hwhole hkind]
    exact ⟨accepted_of_up hout, queue, hqueue, fun _ ↦ ⟨_, hout, rfl⟩,
      fun hnot ↦ absurd hnot hkind⟩

theorem accepted_iff (packets : Packets) :
    Accepted config packets arrival ↔ PassesTests config arrival.pl := by
  refine ⟨fun haccepted ↦ ?_, fun h ↦ (accepted_of_passes h packets).1⟩
  by_contra hrefused
  obtain ⟨hsame, hnone⟩ := runIn_of_refused hrefused packets
  rcases haccepted with ⟨queue, message, hup⟩ | hchanged
  · exact hnone queue message hup
  · exact hchanged hsame

end LoopBody

/-! ### Well-formed packets -/

/-- `run_in` accepts exactly the well-formed packets, and hands on the bytes between the header
length and the total length, except for the packets that pass its tests with a header length below
twenty. -/
theorem accepts_exactly_iff (config : Config) (packets : Packets) (arrival : Arrival) :
    ((Accepted config packets arrival ↔ WellFormed config arrival.pl) ∧
      (Accepted config packets arrival →
        HandsOn config packets arrival (contents arrival.pl))) ↔
      20 ≤ headerSize arrival.pl ∨ ¬ PassesTests config arrival.pl := by
  have hhands : Accepted config packets arrival →
      HandsOn config packets arrival (contents arrival.pl) := fun haccepted ↦
    (accepted_of_passes ((accepted_iff packets).mp haccepted) packets).2
  rw [and_iff_left hhands, accepted_iff]
  constructor
  · intro h
    by_cases hpasses : PassesTests config arrival.pl
    · exact Or.inl (h.mp hpasses).header_full
    · exact Or.inr hpasses
  · rintro (hfull | hrefused)
    · exact ⟨fun hpasses ↦ ⟨hpasses, hfull⟩, fun h ↦ h.toPassesTests⟩
    · exact ⟨fun hpasses ↦ absurd hpasses hrefused, fun h ↦ h.toPassesTests⟩

/-- A UDP packet for the server with a header length of sixteen bytes, over which its checksum is
correct. -/
def sampleShortHeader : Arrival where
  pl := [0x44, 0, 0, 24, 0, 1, 0, 0, 64, 17, 0xba, 0x2b, 192, 168, 1, 1, 192, 168, 1, 2,
    1, 2, 3, 4]
  nowUs := 0
  fresh := fun _ ↦ 0

/-- The packet is accepted and is not well formed: its own destination address is the begin of the
payload that goes up. -/
theorem short_header_is_accepted :
    ¬ (Accepted sampleConfig ∅ sampleShortHeader ↔
      WellFormed sampleConfig sampleShortHeader.pl) := by
  have hup : (runIn sampleConfig ∅ sampleShortHeader).2 = [.up [117, 100, 112]
      (messageOf sampleShortHeader.pl [192, 168, 1, 2, 1, 2, 3, 4])] := by
    decide +kernel
  intro h
  have hfull := (h.mp (accepted_of_up hup)).header_full
  exact absurd hfull (by decide +kernel)

end MyIPNG.Ip4
