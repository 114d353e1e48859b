import MyIPNG.Ip4.Reassembly

/-!
# From `run_out` to `run_in`

The fragments of a datagram, sent by the fragmentation loop of one server and received by another
one in any order. `CutInto` says that tiles are a tiling of the payload and fit the wire; the tiles
of the fragmentation loop do. A run of the receiver over some of the fragments passes nothing up
and leaves what has arrived in the record of the datagram (`run_missing`); the fragment that
completes them passes the payload up (`run_all`).
-/

set_option autoImplicit false
set_option relaxedAutoImplicit false

namespace MyIPNG.Ip4

open Base Utils

/-- Tiles of the payload of a datagram that packets can carry. -/
structure CutInto (datagram : Datagram) (tiles : List (Tile UInt8)) : Prop where
  tiling : Tiles 0 tiles
  covers : covered tiles = datagram.payload
  fits : ∀ tile ∈ tiles, FitsWire datagram tile

section Receiver

variable {datagram : Datagram} {tiles arrived : List (Tile UInt8)} {config : Config}

theorem CutInto.area_eq (h : CutInto datagram tiles) : area tiles = datagram.payload.length := by
  rw [← length_covered, h.covers]

theorem CutInto.area_lt (h : CutInto datagram tiles) : area tiles < 65536 := by
  by_cases hnonempty : tiles = []
  · rw [hnonempty, area_nil]
    norm_num
  · obtain ⟨tile, htile, -⟩ := h.tiling.exists_last hnonempty
    have hsmall := (h.fits tile htile).small
    rw [h.area_eq]
    omega

/-- The record of the datagram at a server, or an empty one. -/
def recordOf (datagram : Datagram) (packets : Packets) : Packet :=
  packets[datagramKey datagram]?.getD noPacket

theorem stored_recordOf {packets : Packets} (hnone : packets[datagramKey datagram]? = none) :
    Stored tiles [] (recordOf datagram packets) := by
  rw [recordOf, hnone]
  exact stored_noPacket tiles

/-- What the server does with the fragment of a tile. -/
def storeTile (config : Config) (datagram : Datagram) (tile : Tile UInt8) (arrival : Arrival)
    (packets : Packets) : Packets × Option (List UInt8) :=
  storeFragment config arrival (datagramKey datagram) (UInt16.ofNat tile.1)
    (decide (tileEnd tile < datagram.payload.length)) tile.2 packets

/-- The record with a fragment added to it. Assumes: the tiles that have arrived, this one and some
others are all tiles. -/
theorem stored_addFragment (h : CutInto datagram tiles) {p : Packet}
    (hstored : Stored tiles arrived p) {tile : Tile UInt8} {missing : List (Tile UInt8)}
    (hall : (arrived ++ [tile] ++ missing).Perm tiles) (arrival : Arrival) :
    Stored tiles (arrived ++ [tile]) (addFragment arrival p (UInt16.ofNat tile.1)
      (decide (tileEnd tile < datagram.payload.length)) tile.2) := by
  have hsubset : arrived ⊆ tiles := fun other hother ↦
    hall.subset (List.mem_append_left _ (List.mem_append_left _ hother))
  have htile : tile ∈ tiles := hall.subset (by simp)
  have hnew : tile ∉ arrived := by
    have hnodup := (List.nodup_append.mp (hall.nodup_iff.mpr h.tiling.nodup)).1
    exact fun hmem ↦ (List.nodup_append.mp hnodup).2.2 tile hmem tile (by simp) rfl
  rw [← h.area_eq]
  exact stored_step h.tiling h.area_lt hstored hsubset htile hnew arrival

/-- A fragment after which others are still missing is added to the record. -/
theorem storeTile_missing (h : CutInto datagram tiles) {packets : Packets}
    (hstored : Stored tiles arrived (recordOf datagram packets)) {tile : Tile UInt8}
    {missing : List (Tile UInt8)} (hall : (arrived ++ [tile] ++ missing).Perm tiles)
    (hmissing : missing ≠ []) (config : Config) (arrival : Arrival) :
    (storeTile config datagram tile arrival packets).2 = none ∧
      Stored tiles (arrived ++ [tile])
        (recordOf datagram (storeTile config datagram tile arrival packets).1) := by
  have hadded := stored_addFragment h hstored hall arrival
  have hnot := isComplete_of_missing h.tiling h.area_lt hadded hmissing hall config.sort
  unfold recordOf at hadded hnot
  simp only [storeTile, storeFragment, hnot, Bool.false_eq_true, if_false, recordOf,
    Std.ExtTreeMap.getElem?_insert_self, Option.getD_some, true_and]
  exact hadded.isComplete config.sort

/-- The fragment that completes the tiles passes the payload on. -/
theorem storeTile_all (h : CutInto datagram tiles) {packets : Packets}
    (hstored : Stored tiles arrived (recordOf datagram packets)) {tile : Tile UInt8}
    (hall : (arrived ++ [tile]).Perm tiles) (config : Config) (arrival : Arrival) :
    (storeTile config datagram tile arrival packets).2 = some datagram.payload := by
  have hall' : (arrived ++ [tile] ++ []).Perm tiles := by rwa [List.append_nil]
  have hadded := stored_addFragment h hstored hall' arrival
  have hnonempty : tiles ≠ [] := by
    rintro rfl
    exact absurd hall.length_eq (by simp)
  obtain ⟨hcomplete, hdata⟩ :=
    isComplete_of_all h.tiling h.area_lt hnonempty hadded hall config.sort
  unfold recordOf at hcomplete hdata
  simp only [storeTile, storeFragment, hcomplete, if_true, data_isComplete, hdata, h.covers]

/-- A fragment is stored when the datagram has other fragments. -/
theorem stored_of_other (h : CutInto datagram tiles) {tile other : Tile UInt8}
    (htile : tile ∈ tiles) (hother : other ∈ tiles) (hne : tile ≠ other) :
    0 < tile.1 ∨ tileEnd tile < datagram.payload.length := by
  have hpos := List.length_pos_iff.mpr (h.tiling.nonempty other hother)
  have hwithin := (h.tiling.within other hother).2
  rw [h.area_eq] at hwithin
  rcases h.tiling.apart htile hother hne with hbefore | hafter
  · right
    rw [tileEnd] at hwithin
    omega
  · left
    rw [tileEnd] at hafter
    omega

/-- A fragment of several goes to the store, and what the store gives goes up. -/
theorem runIn_storeTile (h : CutInto datagram tiles) {queue : List UInt8}
    (haddr : config.listenAddr = datagram.destination)
    (hmapping : config.mappingsIn datagram.protocol = some queue) (packets : Packets)
    {tile other : Tile UInt8} (htile : tile ∈ tiles) (hother : other ∈ tiles)
    (hne : tile ≠ other) {arrival : Arrival} (harrival : arrival.pl = tileMsg datagram tile) :
    runIn config packets arrival =
      let stored := storeTile config datagram tile arrival packets
      (stored.1, (stored.2.map fun whole ↦ Output.up queue ⟨datagramKey datagram,
        arrival.pl, datagram.source.bytes, datagram.destination.bytes, whole⟩).toList) := by
  rw [runIn_tileMsg (h.fits tile htile) haddr hmapping packets harrival]
  simp only [if_pos (stored_of_other h htile hother hne)]
  rfl

/-! ### Runs of the receiver -/

/-- Messages that carry the given tiles of a datagram. -/
def Carry (datagram : Datagram) (arrivals : List Arrival) (tiles : List (Tile UInt8)) : Prop :=
  List.Forall₂ (fun arrival tile ↦ arrival.pl = tileMsg datagram tile) arrivals tiles

theorem carry_iff {arrivals : List Arrival} :
    Carry datagram arrivals tiles ↔ arrivals.map Arrival.pl = tiles.map (tileMsg datagram) := by
  rw [← List.forall₂_eq_eq_eq, List.forall₂_map_left_iff, List.forall₂_map_right_iff]
  rfl

/-- The tiles of messages in two parts. -/
theorem Carry.split {before after : List Arrival} (h : Carry datagram (before ++ after) tiles) :
    ∃ arriving missing, tiles = arriving ++ missing ∧ Carry datagram before arriving ∧
      Carry datagram after missing := by
  rw [carry_iff, List.map_append] at h
  obtain ⟨arriving, missing, hsplit, hbefore, hafter⟩ := List.map_eq_append_iff.mp h.symm
  exact ⟨arriving, missing, hsplit, carry_iff.mpr hbefore.symm, carry_iff.mpr hafter.symm⟩

/-- A run over fragments after which others are still missing passes nothing up and collects them
in the record. -/
theorem run_missing (h : CutInto datagram tiles) {queue : List UInt8}
    (haddr : config.listenAddr = datagram.destination)
    (hmapping : config.mappingsIn datagram.protocol = some queue)
    {arrivals : List Arrival} {arriving missing : List (Tile UInt8)} (hmissing : missing ≠ [])
    (hcarry : Carry datagram arrivals arriving) {packets : Packets}
    (hstored : Stored tiles arrived (recordOf datagram packets))
    (hall : (arrived ++ arriving ++ missing).Perm tiles) :
    (run (runIn config) packets arrivals).2 = [] ∧ Stored tiles (arrived ++ arriving)
      (recordOf datagram (run (runIn config) packets arrivals).1) := by
  induction hcarry generalizing arrived packets with
  | nil => exact ⟨rfl, by rwa [List.append_nil]⟩
  | @cons arrival tile arrivals arriving harrival hcarry ih =>
    have hsplit : arrived ++ (tile :: arriving) = arrived ++ [tile] ++ arriving := by simp
    rw [hsplit] at hall ⊢
    have hall' : (arrived ++ [tile] ++ (arriving ++ missing)).Perm tiles := by
      rwa [← List.append_assoc]
    obtain ⟨other, hother⟩ := List.exists_mem_of_ne_nil missing hmissing
    have hne : tile ≠ other := by
      have hnodup := List.nodup_append.mp (hall.nodup_iff.mpr h.tiling.nodup)
      exact hnodup.2.2 tile (by simp) other hother
    have hstep := runIn_storeTile h haddr hmapping packets (hall.subset (by simp))
      (hall.subset (List.mem_append_right _ hother)) hne harrival
    obtain ⟨hnothing, hadded⟩ := storeTile_missing h hstored hall'
      (List.append_ne_nil_of_right_ne_nil _ hmissing) config arrival
    have hnext : (runIn config packets arrival).1 =
        (storeTile config datagram tile arrival packets).1 := by rw [hstep]
    have hquiet : (runIn config packets arrival).2 = [] := by
      rw [hstep]
      simp [hnothing]
    rw [run_cons, hnext, hquiet]
    exact ih hadded hall

/-- A run over all fragments passes the payload up. -/
theorem run_all (h : CutInto datagram tiles) {queue : List UInt8}
    (haddr : config.listenAddr = datagram.destination)
    (hmapping : config.mappingsIn datagram.protocol = some queue)
    {arrivals : List Arrival} {last : Arrival} {tile : Tile UInt8}
    (hcarry : Carry datagram arrivals arrived) (hlast : last.pl = tileMsg datagram tile)
    {packets : Packets} (hnone : packets[datagramKey datagram]? = none)
    (hall : (arrived ++ [tile]).Perm tiles) :
    (run (runIn config) packets (arrivals ++ [last])).2 =
      [.up queue ⟨datagramKey datagram, last.pl, datagram.source.bytes,
        datagram.destination.bytes, datagram.payload⟩] := by
  obtain ⟨hquiet, hstored⟩ := run_missing h haddr hmapping (List.cons_ne_nil tile []) hcarry
    (stored_recordOf hnone) hall
  have htile : tile ∈ tiles := hall.subset (by simp)
  rw [run_snoc, hquiet]
  by_cases halone : arrived = []
  · rw [halone, List.nil_append] at hall
    obtain rfl := List.perm_singleton.mp hall.symm
    have hend : tileEnd tile = datagram.payload.length := by
      rw [← h.area_eq, tileEnd, h.tiling.1]
      simp
    have hwhole : tile.2 = datagram.payload := by
      rw [← h.covers]
      simp
    rw [runIn_tileMsg (h.fits tile htile) haddr hmapping _ hlast]
    simp [h.tiling.1, hend, hwhole]
  · obtain ⟨other, hother⟩ := List.exists_mem_of_ne_nil arrived halone
    have hne : tile ≠ other := by
      have hnodup := List.nodup_append.mp (hall.nodup_iff.mpr h.tiling.nodup)
      exact (hnodup.2.2 other hother tile (by simp)).symm
    rw [runIn_storeTile h haddr hmapping _ htile
      (hall.subset (List.mem_append_left _ hother)) hne hlast]
    simp [storeTile_all h hstored hall config last]

/-- A run over the fragments in any order: nothing goes up before the last one, and then one message
with the payload. -/
theorem run_permuted (h : CutInto datagram tiles) (hpayload : 1 ≤ datagram.payload.length)
    {queue : List UInt8} (haddr : config.listenAddr = datagram.destination)
    (hmapping : config.mappingsIn datagram.protocol = some queue) {packets : Packets}
    (hnone : packets[datagramKey datagram]? = none) {arrivals : List Arrival}
    (hperm : (arrivals.map Arrival.pl).Perm (tiles.map (tileMsg datagram))) :
    (∀ before after, arrivals = before ++ after → after ≠ [] →
        (run (runIn config) packets before).2 = []) ∧
      ∃ message, (run (runIn config) packets arrivals).2 = [.up queue message] ∧
        message.payload = datagram.payload := by
  obtain ⟨order, horder, hall⟩ := perm_map_iff_exists.mp hperm
  have hcarry : Carry datagram arrivals order := carry_iff.mpr horder
  constructor
  · rintro before after rfl hafter
    obtain ⟨arriving, missing, rfl, hbefore, hrest⟩ := hcarry.split
    have hmissing : missing ≠ [] := by
      rintro rfl
      exact hafter (List.forall₂_nil_right_iff.mp hrest)
    exact (run_missing h haddr hmapping hmissing hbefore (stored_recordOf hnone) hall).1
  · rcases List.eq_nil_or_concat' arrivals with rfl | ⟨before, last, rfl⟩
    · obtain rfl := List.forall₂_nil_left_iff.mp hcarry
      have harea := h.area_eq
      rw [← area_perm hall, area_nil] at harea
      omega
    · obtain ⟨arriving, missing, rfl, hbefore, hrest⟩ := hcarry.split
      obtain ⟨tile, rest, hlast, hnil, rfl⟩ := List.forall₂_cons_left_iff.mp hrest
      obtain rfl := List.forall₂_nil_left_iff.mp hnil
      exact ⟨_, run_all h haddr hmapping hbefore hlast hnone hall, rfl⟩

end Receiver

/-! ### Both ends -/

/-- What is promised of a fragment of a datagram: it fits the packets of the link, its header
verifies, it carries the bytes of the payload from its offset on, which is a multiple of eight, and
the bit for more fragments is set unless it is the last one. -/
structure GoodFragment (datagram : Datagram) (mtuSize : ℤ) (isLast : Prop)
    (fragment : List UInt8) : Prop where
  fits : (fragment.length : ℤ) ≤ mtuSize
  checksum : ipChecksum (fragment.take (headerSize fragment)) = 0
  aligned : 8 ∣ (fragmentOffset fragment).toNat
  carries : fragment.drop (headerSize fragment) = slice datagram.payload
    (fragmentOffset fragment).toNat (fragment.length - headerSize fragment)
  more : moreFragments fragment = true ↔ ¬ isLast

/-- The tiles of the fragmentation loop. -/
theorem cutInto_cut {datagram : Datagram} (hsmall : datagram.payload.length ≤ 65515) {size : ℕ}
    (hsize : 0 < size) (haligned : 8 ∣ size) :
    CutInto datagram (cut size datagram.payload 0) := by
  obtain ⟨htiles, hcovers⟩ := cut_tiles hsize datagram.payload 0
  refine ⟨htiles, hcovers, fun tile htile ↦ ?_⟩
  obtain ⟨hpiece, -, hstart⟩ := cut_tile haligned datagram.payload 0 (Nat.dvd_zero 8) tile htile
  have hwithin := (htiles.within tile htile).2
  rw [← length_covered, hcovers, List.drop_zero, Nat.zero_add] at hwithin
  exact ⟨hpiece, hwithin, hstart, hsmall⟩

/-- The packet of a tile that is not longer than the fragments is a good fragment. -/
theorem goodFragment_tileMsg {datagram : Datagram} {tile : Tile UInt8}
    (h : FitsWire datagram tile) {mtuSize : ℤ} (hsize : (tile.2.length : ℤ) + 20 ≤ mtuSize)
    {isLast : Prop} (hlast : tileEnd tile < datagram.payload.length ↔ ¬ isLast) :
    GoodFragment datagram mtuSize isLast (tileMsg datagram tile) := by
  have hsmall := h.small
  have hinside : tile.1 + tile.2.length ≤ datagram.payload.length := h.inside
  have hoffset : (fragmentOffset (tileMsg datagram tile)).toNat = tile.1 := by
    rw [fragmentOffset_tileMsg h, UInt16.toNat_ofNat', Nat.mod_eq_of_lt (by omega)]
  refine ⟨?_, ?_, ?_, ?_, ?_⟩
  · rw [length_tileMsg h]
    exact_mod_cast hsize
  · rw [headerSize_tileMsg]
    exact ipChecksum_tileMsg h
  · rw [hoffset]
    exact h.aligned
  · rw [headerSize_tileMsg, drop_tileMsg h, hoffset, length_tileMsg h, Nat.add_sub_cancel]
    exact h.piece
  · rw [moreFragments_tileMsg h, decide_eq_true_eq]
    exact hlast

/-- Reassembly undoes fragmentation. Assumes: a payload that fits a datagram, packets with room for
eight bytes, a link that takes every packet, and a receiver with the address and the protocol of the
datagram that has no record under its key. The fragments are good, and in any order of arrival the
receiver passes nothing up before the last one and then one message, with the payload. -/
theorem reassembly_undoes_fragmentation (config : Config) {datagram : Datagram} {mtuSize : ℤ}
    {queue : List UInt8} (hpayload : 1 ≤ datagram.payload.length)
    (hsmall : datagram.payload.length ≤ 65515) (hlow : 28 ≤ mtuSize) (hhigh : mtuSize ≤ 65535)
    (haddr : config.listenAddr = datagram.destination)
    (hmapping : config.mappingsIn datagram.protocol = some queue) {packets : Packets}
    (hnone : packets[datagramKey datagram]? = none) :
    ∃ fragments : List (List UInt8),
      (∀ fuel, datagram.payload.length ≤ fuel →
        fragmentLoop (fun _ ↦ true) mtuSize datagram fuel 0 0 = some fragments) ∧
      (∀ index, ∀ hindex : index < fragments.length,
        GoodFragment datagram mtuSize (index + 1 = fragments.length) fragments[index]) ∧
      ∀ arrivals : List Arrival, (arrivals.map Arrival.pl).Perm fragments →
        (∀ before after, arrivals = before ++ after → after ≠ [] →
          (run (runIn config) packets before).2 = []) ∧
        ∃ message, (run (runIn config) packets arrivals).2 = [.up queue message] ∧
          message.payload = datagram.payload := by
  obtain ⟨hsize, haligned, hroom⟩ := useMtuSizeT_spec hlow hhigh
  have hcut := cutInto_cut hsmall hsize haligned
  have hpieces := cut_tile haligned datagram.payload 0 (Nat.dvd_zero 8)
  have hloop := fun fuel (hfuel : datagram.payload.length ≤ fuel) ↦
    fragmentLoop_tiles (fun _ ↦ rfl : ∀ index, (fun _ ↦ true) index = true) hsize datagram 0
      (hfuel.trans (Nat.zero_add fuel).ge)
  generalize cut (useMtuSizeT mtuSize) datagram.payload 0 = tiles at *
  refine ⟨tiles.map (tileMsg datagram), hloop, ?_, ?_⟩
  · intro index hindex
    rw [List.length_map] at hindex
    have htile := List.getElem_mem hindex
    have hlast := hcut.tiling.end_lt_iff hindex
    rw [hcut.area_eq, Nat.zero_add] at hlast
    rw [List.getElem_map]
    refine goodFragment_tileMsg (hcut.fits _ htile) ?_ ?_
    · have hle := (hpieces _ htile).2.1
      omega
    · rw [hlast, List.length_map]
      omega
  · intro arrivals hperm
    exact run_permuted hcut hpayload haddr hmapping hnone hperm

/-- A sort of the fragments by their offsets. -/
def mergeSortFragments : FragmentSort where
  sort fragments := fragments.mergeSort fun a b ↦ a.1 ≤ b.1
  perm fragments := List.mergeSort_perm fragments _
  sorted fragments := by
    have htrans : ∀ a b c : Fragment, decide (a.1 ≤ b.1) = true → decide (b.1 ≤ c.1) = true →
        decide (a.1 ≤ c.1) = true := by
      intro a b c hab hbc
      rw [decide_eq_true_eq] at *
      exact UInt16.le_trans hab hbc
    have htotal : ∀ a b : Fragment, (decide (a.1 ≤ b.1) || decide (b.1 ≤ a.1)) = true := by
      intro a b
      rw [Bool.or_eq_true, decide_eq_true_eq, decide_eq_true_eq]
      exact UInt16.le_total a.1 b.1
    exact (List.pairwise_mergeSort htrans htotal fragments).imp of_decide_eq_true

/-- A datagram of twenty bytes. -/
def sampleDatagram : Datagram where
  packetsId := 7
  protocol := 17
  source := ⟨[192, 168, 1, 1], rfl⟩
  destination := ⟨[192, 168, 1, 2], rfl⟩
  payload := (List.range 20).map UInt8.ofNat

/-- The server that it is for. -/
def sampleConfig : Config where
  listenAddr := ⟨[192, 168, 1, 2], rfl⟩
  mappingsIn protocol := if protocol = 17 then some [117, 100, 112] else none
  sort := mergeSortFragments

theorem reassembly_undoes_fragmentation_reversed :
    ∃ fragments : List (List UInt8), fragments.length = 3 ∧
      fragmentLoop (fun _ ↦ true) 28 sampleDatagram 20 0 0 = some fragments ∧
      ∃ message, (run (runIn sampleConfig) ∅
          (fragments.reverse.map fun pl ↦ ⟨pl, 0, fun _ ↦ 0⟩)).2 = [.up [117, 100, 112] message] ∧
        message.payload = sampleDatagram.payload := by
  have hmapping : sampleConfig.mappingsIn sampleDatagram.protocol = some [117, 100, 112] := rfl
  have hnone : (∅ : Packets)[datagramKey sampleDatagram]? = none :=
    Std.ExtTreeMap.getElem?_empty
  have hlow : (28 : ℤ) ≤ 28 := le_refl _
  obtain ⟨fragments, hloop, -, harrivals⟩ := reassembly_undoes_fragmentation sampleConfig
    (by decide) (by decide) hlow (by decide) rfl hmapping hnone
  have hfragments := hloop 20 (by decide)
  have hcount : (fragmentLoop (fun _ ↦ true) 28 sampleDatagram 20 0 0).map List.length =
      some 3 := by
    decide +kernel
  rw [hfragments] at hcount
  refine ⟨fragments, Option.some.inj hcount, hfragments, (harrivals _ ?_).2⟩
  rw [List.map_map]
  exact (List.map_id _).symm ▸ List.reverse_perm fragments

end MyIPNG.Ip4
