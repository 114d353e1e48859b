import MyIPNG.Base.Table
import MyIPNG.Ip4.RoundTrip
import Mathlib.Data.List.Sort

/-!
# Reassembly of arbitrary fragments

The store of `run_in` under fragments that nobody promises anything about: offsets, lengths and bits
are what an attacker wants them to be, ranges overlap, come twice, are empty, or end behind the
sixteen bits of the ranges. `Holds` says what a record has kept of the fragments stored in it. What
a record reads is certain only where no later fragment was written over an earlier one, so the
reading is promised for fragments that are apart.

`is_complete` compares ends in 16-bit arithmetic. An end that wraps is smaller than the offset it
belongs to, and the fragments are sorted, so behind a wrapped end no fragment passes the comparison
(`chained_of_contiguous`). Hence fragments that are found complete are chained, from position zero
on, and the record is as long as all of them together.

A run of the server is any sequence of packets and passes of the cleaner. `watchStep` follows the
fragments of one key beside it: those stored in the record since it was made.
-/

set_option autoImplicit false
set_option relaxedAutoImplicit false

namespace MyIPNG.Ip4

open Base Utils

/-! ### Records of arbitrary fragments -/

/-- Two tiles have no position in common. -/
def Apart (tile other : Tile UInt8) : Prop := tileEnd tile ≤ other.1 ∨ tileEnd other ≤ tile.1

/-- What a record has kept of the fragments stored in it, in the order of their arrival. -/
structure Holds (stored : List (Tile UInt8)) (p : Packet) : Prop where
  offset_lt : ∀ tile ∈ stored, tile.1 < 65536
  length_lt : ∀ tile ∈ stored, tile.2.length < 65536
  ranges : p.fragments.Perm (stored.map tileRange)
  inside : ∀ tile ∈ stored, tileEnd tile ≤ p.data.length
  reached : p.data = [] ∨ ∃ tile ∈ stored, tileEnd tile = p.data.length
  read : stored.Pairwise Apart → ∀ tile ∈ stored, slice p.data tile.1 tile.2.length = tile.2

theorem holds_noPacket : Holds [] noPacket where
  offset_lt := by simp
  length_lt := by simp
  ranges := List.Perm.refl _
  inside := by simp
  reached := Or.inl rfl
  read := by simp

/-- `is_complete` keeps what a record holds. -/
theorem Holds.isComplete {stored : List (Tile UInt8)} {p : Packet} (h : Holds stored p)
    (sort : FragmentSort) : Holds stored (isComplete sort p).2 := by
  unfold Ip4.isComplete
  split_ifs with hknown
  · exact h
  · exact ⟨h.offset_lt, h.length_lt, (sort.perm _).trans h.ranges, h.inside, h.reached, h.read⟩

theorem length_addFragment (arrival : Arrival) (p : Packet) (offset : UInt16) (more : Bool)
    (payload : List UInt8) :
    (addFragment arrival p offset more payload).data.length =
      max p.data.length (offset.toNat + payload.length) := by
  have hgrown := length_grow arrival.fresh p.data (offset.toNat + payload.length)
  rw [← hgrown]
  exact length_overwrite _ _ _ (by omega)

/-- A range of the record that the fragment is apart from reads what it did. -/
theorem slice_addFragment_of_apart (arrival : Arrival) {p : Packet} {offset : UInt16} (more : Bool)
    {payload : List UInt8} {start count : ℕ} (hinside : start + count ≤ p.data.length)
    (hapart : start + count ≤ offset.toNat ∨ offset.toNat + payload.length ≤ start) :
    slice (addFragment arrival p offset more payload).data start count =
      slice p.data start count := by
  have hgrown := length_grow arrival.fresh p.data (offset.toNat + payload.length)
  calc slice (addFragment arrival p offset more payload).data start count
      = slice (grow arrival.fresh p.data (offset.toNat + payload.length)) start count :=
        slice_overwrite_of_disjoint _ _ _ (by omega) _ _ hapart
    _ = slice p.data start count := slice_grow _ _ _ hinside

/-- A fragment that arrives is added to what the record holds. Assumes: a payload of an IP packet,
and nothing else. -/
theorem holds_addFragment {stored : List (Tile UInt8)} {p : Packet} (h : Holds stored p)
    (arrival : Arrival) (offset : UInt16) (more : Bool) {payload : List UInt8}
    (hpayload : payload.length < 65536) :
    Holds (stored ++ [(offset.toNat, payload)]) (addFragment arrival p offset more payload) := by
  have hlength := length_addFragment arrival p offset more payload
  refine ⟨?_, ?_, ?_, ?_, ?_, ?_⟩
  · exact List.forall_mem_append.mpr ⟨h.offset_lt, by simpa using offset.toNat_lt⟩
  · exact List.forall_mem_append.mpr ⟨h.length_lt, by simpa using hpayload⟩
  · rw [List.map_append, List.map_singleton, tileRange, UInt16.ofNat_toNat]
    exact h.ranges.append_right _
  · rw [hlength]
    refine List.forall_mem_append.mpr ⟨fun tile htile ↦ ?_, by simp [tileEnd]⟩
    exact (h.inside tile htile).trans (le_max_left _ _)
  · by_cases hlonger : p.data.length < offset.toNat + payload.length
    · refine Or.inr ⟨(offset.toNat, payload), by simp, ?_⟩
      rw [hlength, max_eq_right hlonger.le, tileEnd]
    · rw [max_eq_left (not_lt.mp hlonger)] at hlength
      rcases h.reached with hempty | ⟨tile, htile, hend⟩
      · rw [hempty, List.length_nil] at hlength
        exact Or.inl (List.length_eq_zero_iff.mp hlength)
      · exact Or.inr ⟨tile, List.mem_append_left _ htile, hend.trans hlength.symm⟩
  · intro hapart tile htile
    obtain ⟨hbefore, -, hnew⟩ := List.pairwise_append.mp hapart
    rcases List.mem_append.mp htile with hold | hlast
    · rw [slice_addFragment_of_apart arrival more (h.inside tile hold)
        (hnew tile hold _ List.mem_cons_self)]
      exact h.read hbefore tile hold
    · obtain rfl := List.mem_singleton.mp hlast
      have hgrown := length_grow arrival.fresh p.data (offset.toNat + payload.length)
      exact slice_overwrite_self _ _ _ (by omega)

/-! ### Complete records -/

/-- The scan of `is_complete` over sorted ranges finds only chains. Assumes: offsets and lengths of
sixteen bits; the position `start` where the scan stands is behind the offset `low` before it by a
length of sixteen bits, and the remaining offsets are not below `low`. -/
theorem chained_of_contiguous {tiles : List (Tile UInt8)} {low start : ℕ}
    (hoffset : ∀ tile ∈ tiles, tile.1 < 65536) (hlength : ∀ tile ∈ tiles, tile.2.length < 65536)
    (hsorted : tiles.Pairwise fun a b ↦ a.1 ≤ b.1) (hlow : ∀ tile ∈ tiles, low ≤ tile.1)
    (hstart : start < low + 65536)
    (h : contiguous (UInt16.ofNat start) (tiles.map tileRange) = true) : Chained start tiles := by
  induction tiles generalizing low start with
  | nil => trivial
  | cons tile rest ih =>
    obtain ⟨hfirst, hrest⟩ := List.pairwise_cons.mp hsorted
    have htile := hoffset tile List.mem_cons_self
    have hlowTile := hlow tile List.mem_cons_self
    have hshort := hlength tile List.mem_cons_self
    simp only [List.map_cons, contiguous, tileRange, ne_eq, ite_not] at h
    split_ifs at h with hequal
    have hmod : tile.1 = start % 65536 := by
      have hnat := congrArg UInt16.toNat hequal
      rwa [UInt16.toNat_ofNat', UInt16.toNat_ofNat', Nat.mod_eq_of_lt htile] at hnat
    -- a wrapped end would be below the offset it belongs to
    have hhere : tile.1 = start := by omega
    rw [← UInt16.ofNat_add] at h
    have hnext : tileEnd tile < tile.1 + 65536 := Nat.add_lt_add_left hshort tile.1
    exact ⟨hhere, ih (fun other hother ↦ hoffset other (List.mem_cons_of_mem _ hother))
      (fun other hother ↦ hlength other (List.mem_cons_of_mem _ hother)) hrest hfirst
      hnext h⟩

/-- What a reassembled payload is, given the fragments stored in its record: the concatenation of
their payloads in the order of their offsets, every byte from exactly one of them, and as long as
all of them together. -/
structure Reassembled (stored : List (Tile UInt8)) (payload : List UInt8) : Prop where
  concatenated : ∀ order : List (Tile UInt8), order.Perm stored →
    order.Pairwise (fun a b ↦ a.1 ≤ b.1) → payload = covered order
  once : ∀ position < payload.length,
    stored.countP (fun tile ↦ decide (Covers position tile)) = 1
  length_eq : payload.length = area stored

/-- The ranges of sorted fragments are sorted by offset. -/
theorem sorted_of_ranges {tiles : List (Tile UInt8)} (hoffset : ∀ tile ∈ tiles, tile.1 < 65536)
    (h : (tiles.map tileRange).Pairwise fun a b ↦ a.1 ≤ b.1) :
    tiles.Pairwise fun a b ↦ a.1 ≤ b.1 := by
  refine (List.pairwise_map.mp h).imp_of_mem fun {tile other} htile hother hle ↦ ?_
  rwa [tileRange, tileRange, UInt16.le_iff_toNat_le, UInt16.toNat_ofNat', UInt16.toNat_ofNat',
    Nat.mod_eq_of_lt (hoffset tile htile), Nat.mod_eq_of_lt (hoffset other hother)] at hle

/-- A record that is found complete holds fragments that can be chained. -/
theorem exists_chained {stored : List (Tile UInt8)} {p : Packet} (h : Holds stored p)
    {sort : FragmentSort} (hcomplete : (isComplete sort p).1 = true) :
    ∃ order : List (Tile UInt8), order.Perm stored ∧ Chained 0 order := by
  unfold isComplete at hcomplete
  split_ifs at hcomplete with hknown
  obtain ⟨order, hsort, hperm⟩ :=
    perm_map_iff_exists.mp ((sort.perm p.fragments).trans h.ranges)
  have hoffset : ∀ tile ∈ order, tile.1 < 65536 := fun tile htile ↦
    h.offset_lt tile (hperm.subset htile)
  have hsorted := sort.sorted p.fragments
  rw [hsort] at hsorted
  refine ⟨order, hperm, ?_⟩
  refine chained_of_contiguous hoffset (fun tile htile ↦ h.length_lt tile (hperm.subset htile))
    (sorted_of_ranges hoffset hsorted) (fun _ _ ↦ Nat.zero_le _) (Nat.zero_lt_succ _) ?_
  rw [← hsort]
  exact hcomplete

/-- A record that is found complete is reassembled from the fragments stored in it. -/
theorem reassembled_of_isComplete {stored : List (Tile UInt8)} {p : Packet} (h : Holds stored p)
    {sort : FragmentSort} (hcomplete : (isComplete sort p).1 = true) :
    Reassembled stored p.data := by
  obtain ⟨order, hperm, hchained⟩ := exists_chained h hcomplete
  have hapart : stored.Pairwise Apart :=
    (hperm.pairwise_iff fun {_ _} ↦ Or.symm).mp (hchained.pairwise.imp Or.inl)
  have hread := chained_read hchained fun tile htile ↦ h.read hapart tile (hperm.subset htile)
  have harea : p.data.length = area order := by
    by_cases hempty : order = []
    · rcases h.reached with hnone | ⟨tile, htile, -⟩
      · rw [hnone, hempty]
        rfl
      · rw [hempty] at hperm
        exact absurd (hperm.symm.subset htile) List.not_mem_nil
    · obtain ⟨last, hlast, hend⟩ := hchained.exists_end hempty
      have hinside := h.inside last (hperm.subset hlast)
      rcases h.reached with hnone | ⟨tile, htile, hreached⟩
      · rw [hnone] at hinside ⊢
        simp only [List.length_nil] at hinside ⊢
        omega
      · have hwithin := (hchained.within tile (hperm.symm.subset htile)).2
        omega
  have hwhole : p.data = covered order := by
    rwa [← harea, slice_full] at hread
  refine ⟨?_, ?_, ?_⟩
  · intro other hother hsorted
    rw [hwhole, hchained.covered_perm (hother.trans hperm.symm) hsorted]
  · intro position hposition
    rw [← hperm.countP_eq]
    exact hchained.countP_eq_one (Nat.zero_le _) (by omega)
  · rw [harea, area_perm hperm]

/-! ### The fragments of one key -/

/-- The fragment that `run_in` stores for a packet: the key of its record, its offset and its
payload. Nothing when a test fails or the packet is whole. -/
def acceptedFragment (config : Config) (pl : List UInt8) : Option (UInt64 × Tile UInt8) :=
  if 20 ≤ pl.length ∧ byteAt pl 0 >>> 4 = 4 ∧ slice pl 16 4 = config.listenAddr.bytes ∧
      headerSize pl ≤ ipSize pl ∧ ipSize pl ≤ pl.length ∧ byteAt pl 8 ≠ 0 ∧
      config.mappingsIn (byteAt pl 9) ≠ none ∧ ipChecksum (pl.take (headerSize pl)) = 0 ∧
      (0 < fragmentOffset pl ∨ moreFragments pl = true) then
    some (calcSessionId (slice pl 12 4) (slice pl 16 4) (byteAt pl 9) (packetId pl),
      ((fragmentOffset pl).toNat, slice pl (headerSize pl) (ipSize pl - headerSize pl)))
  else none

theorem ipSize_lt (pl : List UInt8) : ipSize pl < 65536 := by
  have hhigh := (byteAt pl 2).toNat_lt
  have hlow := (byteAt pl 3).toNat_lt
  rw [ipSize, ← Nat.shiftLeft_add_eq_or_of_lt hlow, Nat.shiftLeft_eq]
  omega

/-- The packets of which a fragment is stored are those that pass the tests and are fragments. -/
theorem acceptedFragment_eq_some_iff {config : Config} {pl : List UInt8} {key : UInt64}
    {tile : Tile UInt8} :
    acceptedFragment config pl = some (key, tile) ↔ PassesTests config pl ∧ IsFragment pl ∧
      key = packetKey pl ∧ tile = ((fragmentOffset pl).toNat, contents pl) := by
  rw [← slice_eq_contents]
  unfold acceptedFragment
  constructor
  · intro h
    split_ifs at h with htests
    obtain ⟨hlength, hversion, haddr, hheader, hsize, httl, hmapped, hchecksum, hkind⟩ := htests
    obtain ⟨rfl, rfl⟩ := Prod.mk.inj (Option.some.inj h)
    exact ⟨⟨hlength, hversion, haddr, hheader, hsize, httl, hmapped, hchecksum⟩, hkind, rfl, rfl⟩
  · rintro ⟨h, hkind, rfl, rfl⟩
    exact if_pos ⟨h.length_le, h.version, h.destination, h.header_le, h.size_le, h.ttl, h.mapped,
      h.checksum, hkind⟩

/-- A fragment is of a packet, so its payload is short. -/
theorem length_acceptedFragment {config : Config} {pl : List UInt8} {key : UInt64}
    {tile : Tile UInt8} (h : acceptedFragment config pl = some (key, tile)) :
    tile.2.length < 65536 := by
  have hsize := ipSize_lt pl
  obtain ⟨-, -, -, rfl⟩ := acceptedFragment_eq_some_iff.mp h
  simp only [contents, List.length_drop, List.length_take]
  omega

/-- A packet with a fragment goes to the store. -/
theorem runIn_fragment {config : Config} {arrival : Arrival} {key : UInt64} {tile : Tile UInt8}
    (h : acceptedFragment config arrival.pl = some (key, tile)) (packets : Packets) :
    ∃ queue fullPkt fromAddr toAddr, runIn config packets arrival =
      let stored := storeFragment config arrival key (UInt16.ofNat tile.1)
        (moreFragments arrival.pl) tile.2 packets
      (stored.1, (stored.2.map fun whole ↦
        Output.up queue ⟨key, fullPkt, fromAddr, toAddr, whole⟩).toList) := by
  obtain ⟨hpasses, hkind, rfl, rfl⟩ := acceptedFragment_eq_some_iff.mp h
  obtain ⟨queue, -, -, hfragment⟩ := runIn_of_passes hpasses packets
  refine ⟨queue, arrival.pl.take (ipSize arrival.pl), slice arrival.pl 12 4,
    slice arrival.pl 16 4, ?_⟩
  rw [hfragment hkind, UInt16.ofNat_toNat]
  rfl

/-- Every other packet leaves the records alone. -/
theorem runIn_other {config : Config} {arrival : Arrival}
    (h : acceptedFragment config arrival.pl = none) (packets : Packets) :
    (runIn config packets arrival).1 = packets := by
  by_cases hpasses : PassesTests config arrival.pl
  · have hwhole : ¬ IsFragment arrival.pl := by
      intro hkind
      have hsome := acceptedFragment_eq_some_iff.mpr ⟨hpasses, hkind, rfl, rfl⟩
      exact absurd (h.symm.trans hsome) (by simp)
    obtain ⟨queue, -, hrun, -⟩ := runIn_of_passes hpasses packets
    rw [hrun hwhole]
  · exact (runIn_of_refused hpasses packets).1

/-! ### Runs -/

/-- `packet_fragmentation_timeout`, in microseconds. -/
def packetFragmentationTimeout : UInt64 := 5000000

/-- A pass of the cleaner thread. -/
def cleanPackets (now : UInt64) (packets : Packets) : Packets :=
  packets.filter fun _ p ↦ !decide (packetFragmentationTimeout ≤ now - p.latestTs)

/-- What can reach the store: a packet from the link, and the time for a pass of the cleaner. -/
inductive InEvent
  | packet (arrival : Arrival)
  | cleaner (now : UInt64)

/-- One event of the receiving side. -/
def inStep (config : Config) (packets : Packets) : InEvent → Packets × List Output
  | .packet arrival => runIn config packets arrival
  | .cleaner now => (cleanPackets now packets, [])

/-- The fragments stored in the record of a key since it was made, after one more event. Assumes:
`stored` are those before it. -/
def storedNext (config : Config) (key : UInt64) (packets : Packets)
    (stored : List (Tile UInt8)) : InEvent → List (Tile UInt8)
  | .packet arrival =>
    match acceptedFragment config arrival.pl with
    | some (fragSession, tile) =>
      if fragSession = key then (if packets[key]? = none then [] else stored) ++ [tile]
      else stored
    | none => stored
  | .cleaner _ => stored

/-- The receiving side with the fragments of one key watched. -/
def watchStep (config : Config) (key : UInt64) (watched : Packets × List (Tile UInt8))
    (event : InEvent) : (Packets × List (Tile UInt8)) × List Output :=
  let next := inStep config watched.1 event
  ((next.1, storedNext config key watched.1 watched.2 event), next.2)

/-- The fragments stored in the record of a key since it was made, after a run. -/
def storedSince (config : Config) (key : UInt64) (events : List InEvent) : List (Tile UInt8) :=
  (run (watchStep config key) (∅, []) events).1.2

theorem run_watchStep (config : Config) (key : UInt64) (events : List InEvent) :
    (run (watchStep config key) (∅, []) events).1.1 = (run (inStep config) ∅ events).1 := by
  induction events using List.reverseRecOn with
  | nil => rfl
  | append_singleton events event ih =>
    rw [run_snoc, run_snoc, ← ih]
    rfl

/-- The record of the watched key holds what was stored in it. -/
def Watches (key : UInt64) (watched : Packets × List (Tile UInt8)) : Prop :=
  ∀ p, watched.1[key]? = some p → Holds watched.2 p

/-- The record of the watched key with one more fragment. -/
theorem Watches.addFragment {config : Config} {key : UInt64}
    {watched : Packets × List (Tile UInt8)} (h : Watches key watched) {arrival : Arrival}
    {tile : Tile UInt8} (hfragment : acceptedFragment config arrival.pl = some (key, tile)) :
    Holds (watchStep config key watched (.packet arrival)).1.2
      (addFragment arrival (watched.1[key]?.getD noPacket) (UInt16.ofNat tile.1)
        (moreFragments arrival.pl) tile.2) := by
  have hshort := length_acceptedFragment hfragment
  have htile : (UInt16.ofNat tile.1).toNat = tile.1 := by
    obtain ⟨-, -, -, rfl⟩ := acceptedFragment_eq_some_iff.mp hfragment
    rw [UInt16.ofNat_toNat]
  have hbefore : Holds (if watched.1[key]? = none then [] else watched.2)
      (watched.1[key]?.getD noPacket) := by
    cases hentry : watched.1[key]? with
    | none => exact holds_noPacket
    | some p => exact h p hentry
  have hadded := holds_addFragment hbefore arrival (UInt16.ofNat tile.1)
    (moreFragments arrival.pl) hshort
  rw [htile] at hadded
  simpa [watchStep, storedNext, hfragment] using hadded

/-- What `storeFragment` does with the record of its key. -/
theorem storeFragment_key (config : Config) (arrival : Arrival) (key : UInt64) (offset : UInt16)
    (more : Bool) (payload : List UInt8) (packets : Packets) :
    let complete := isComplete config.sort
      (addFragment arrival (packets[key]?.getD noPacket) offset more payload)
    let stored := storeFragment config arrival key offset more payload packets
    stored.1[key]? = (if complete.1 then none else some complete.2) ∧
      stored.2 = if complete.1 then some complete.2.data else none := by
  intro complete stored
  simp only [stored, storeFragment]
  by_cases hcomplete : complete.1 = true
  · simp only [complete] at hcomplete ⊢
    simp [hcomplete]
  · simp only [complete] at hcomplete ⊢
    simp [hcomplete]

/-- The records of the other keys stay. -/
theorem storeFragment_other (config : Config) (arrival : Arrival) {key other : UInt64}
    (hne : other ≠ key) (offset : UInt16) (more : Bool) (payload : List UInt8)
    (packets : Packets) :
    (storeFragment config arrival other offset more payload packets).1[key]? = packets[key]? := by
  unfold storeFragment
  dsimp only
  split_ifs with hcomplete
  · exact getElem?_erase_other hne
  · exact getElem?_insert_other hne _

/-- One event keeps the record of the watched key in step with what was stored in it. -/
theorem watches_step {config : Config} {key : UInt64} {watched : Packets × List (Tile UInt8)}
    (h : Watches key watched) (event : InEvent) :
    Watches key (watchStep config key watched event).1 := by
  cases event with
  | cleaner now =>
    intro p hp
    have hentry : (cleanPackets now watched.1)[key]? = some p := hp
    rw [cleanPackets, Std.ExtTreeMap.getElem?_filter', Option.filter_eq_some_iff] at hentry
    exact h p hentry.1
  | packet arrival =>
    cases haccepted : acceptedFragment config arrival.pl with
    | none =>
      intro p hp
      have hentry : (runIn config watched.1 arrival).1[key]? = some p := hp
      rw [runIn_other haccepted] at hentry
      have hsame : (watchStep config key watched (.packet arrival)).1.2 = watched.2 := by
        simp [watchStep, storedNext, haccepted]
      rw [hsame]
      exact h p hentry
    | some fragment =>
      obtain ⟨fragSession, tile⟩ := fragment
      obtain ⟨queue, fullPkt, fromAddr, toAddr, hstep⟩ := runIn_fragment haccepted watched.1
      intro p hp
      have hentry : (runIn config watched.1 arrival).1[key]? = some p := hp
      rw [hstep] at hentry
      by_cases hkey : fragSession = key
      · subst hkey
        have hadded := (h.addFragment haccepted).isComplete config.sort
        have hstored := (storeFragment_key config arrival fragSession (UInt16.ofNat tile.1)
          (moreFragments arrival.pl) tile.2 watched.1).1
        rw [hstored] at hentry
        split_ifs at hentry with hcomplete
        rwa [← Option.some.inj hentry]
      · have hsame : (watchStep config key watched (.packet arrival)).1.2 = watched.2 := by
          simp [watchStep, storedNext, haccepted, hkey]
        rw [hsame]
        refine h p ?_
        rwa [storeFragment_other config arrival hkey] at hentry

theorem watches_run (config : Config) (key : UInt64) (events : List InEvent) :
    Watches key (run (watchStep config key) (∅, []) events).1 := by
  have halong : Along (watchStep config key) (fun _ _ ↦ True) (∅, []) events :=
    along_of_forall (fun _ _ ↦ trivial) _
  refine run_induction (P := fun _ watched _ ↦ Watches key watched) ?_ ?_ halong
  · intro p hp
    rw [Std.ExtTreeMap.getElem?_empty] at hp
    exact absurd hp (by simp)
  · intro _ watched _ event h _
    exact watches_step h event

/-- Reassembly is sound for any fragments. Assumes: after any run of packets and passes of the
cleaner, the packet of a fragment makes the server pass a message up. Its payload is the
concatenation, in the order of their offsets, of the payloads of all fragments that were stored in
the record since it was made, this one included; every byte of it is from exactly one of them. -/
theorem reassembly_sound (config : Config) (events : List InEvent) {arrival : Arrival}
    {key : UInt64} {tile : Tile UInt8}
    (hfragment : acceptedFragment config arrival.pl = some (key, tile)) {queue : List UInt8}
    {message : UpMessage}
    (hup : Output.up queue message ∈ (runIn config (run (inStep config) ∅ events).1 arrival).2) :
    Reassembled (storedSince config key (events ++ [.packet arrival])) message.payload := by
  have hwatches := watches_run config key events
  obtain ⟨upQueue, fullPkt, fromAddr, toAddr, hstep⟩ :=
    runIn_fragment hfragment (run (inStep config) ∅ events).1
  have hadded := hwatches.addFragment hfragment
  rw [run_watchStep] at hadded
  have hpassed := (storeFragment_key config arrival key (UInt16.ofNat tile.1)
    (moreFragments arrival.pl) tile.2 (run (inStep config) ∅ events).1).2
  rw [hstep] at hup
  simp only [hpassed] at hup
  rw [storedSince, run_snoc]
  split_ifs at hup with hcomplete
  · simp only [Option.map_some, Option.toList_some, List.mem_singleton, Output.up.injEq] at hup
    rw [hup.2, data_isComplete]
    exact reassembled_of_isComplete hadded hcomplete
  · simp at hup

/-- Another sort of the fragments by their offsets. -/
def insertionSortFragments : FragmentSort where
  sort fragments := fragments.insertionSort fun a b ↦ a.1 ≤ b.1
  perm fragments := List.perm_insertionSort _ fragments
  sorted fragments := by
    have htotal : Std.Total fun a b : Fragment ↦ a.1 ≤ b.1 :=
      ⟨fun a b ↦ UInt16.le_total a.1 b.1⟩
    have htrans : IsTrans Fragment fun a b ↦ a.1 ≤ b.1 := ⟨fun _ _ _ ↦ UInt16.le_trans⟩
    exact List.pairwise_insertionSort _ fragments

/-- The packet of a tile of the sample datagram, which need not be one of its fragments. -/
def sampleArrival (tile : Tile UInt8) : Arrival := ⟨tileMsg sampleDatagram tile, 0, fun _ ↦ 0⟩

/-- An empty fragment, the last one at the same offset, and the first one. -/
theorem reassembly_sound_empty_fragment :
    Reassembled [(8, []), (8, slice sampleDatagram.payload 8 12),
      (0, slice sampleDatagram.payload 0 8)] sampleDatagram.payload := by
  let config : Config := { sampleConfig with sort := insertionSortFragments }
  let events : List InEvent := [.packet (sampleArrival (8, [])),
    .packet (sampleArrival (8, slice sampleDatagram.payload 8 12))]
  let arrival := sampleArrival (0, slice sampleDatagram.payload 0 8)
  have hfragment : acceptedFragment config arrival.pl =
      some (datagramKey sampleDatagram, (0, slice sampleDatagram.payload 0 8)) := by
    decide +kernel
  have hup : Output.up [117, 100, 112] ⟨datagramKey sampleDatagram, arrival.pl,
      sampleDatagram.source.bytes, sampleDatagram.destination.bytes, sampleDatagram.payload⟩ ∈
      (runIn config (run (inStep config) ∅ events).1 arrival).2 := by
    decide +kernel
  have hstored : storedSince config (datagramKey sampleDatagram)
      (events ++ [.packet arrival]) = [(8, []), (8, slice sampleDatagram.payload 8 12),
        (0, slice sampleDatagram.payload 0 8)] := by
    decide +kernel
  rw [← hstored]
  exact reassembly_sound config events hfragment hup

end MyIPNG.Ip4
