import MyIPNG.Base.Projection
import MyIPNG.Ip4.Soundness

/-!
# A datagram among other traffic

The fragments of a datagram do not come alone, and not as they were sent: packets for other
datagrams come between them, broken ones too, the cleaner passes, and the link fills a short packet
up behind its end. `runIn_padded` says that what stands behind the end of a packet is not looked at,
and `ignores_others` and `reads_own` that the packets of the other keys do not touch the record of a
key. So what goes up for a datagram in such a run is what goes up when its fragments come alone
(`reassembly_among_traffic`).
-/

set_option autoImplicit false
set_option relaxedAutoImplicit false

namespace MyIPNG.Ip4

open Base Utils

/-! ### Padding -/

section Padding

variable {config : Config} {pl : List UInt8}

theorem byteAt_padded (padding : List UInt8) {index : ℕ} (h : index < pl.length) :
    byteAt (pl ++ padding) index = byteAt pl index := by
  rw [byteAt, byteAt, List.getD_eq_getElem?_getD, List.getElem?_append_left h,
    ← List.getD_eq_getElem?_getD]

/-- The fields of a packet do not depend on what stands behind it. -/
theorem fields_padded (h : PassesTests config pl) (padding : List UInt8) :
    headerSize (pl ++ padding) = headerSize pl ∧ ipSize (pl ++ padding) = ipSize pl ∧
      fragmentOffset (pl ++ padding) = fragmentOffset pl ∧
      moreFragments (pl ++ padding) = moreFragments pl ∧
      packetKey (pl ++ padding) = packetKey pl ∧
      slice (pl ++ padding) 12 4 = slice pl 12 4 ∧ slice (pl ++ padding) 16 4 = slice pl 16 4 := by
  have hlength := h.length_le
  have hbyte : ∀ index, index < 20 → byteAt (pl ++ padding) index = byteAt pl index :=
    fun index hindex ↦ byteAt_padded padding (by omega)
  have hslice : ∀ start, start + 4 ≤ 20 →
      slice (pl ++ padding) start 4 = slice pl start 4 :=
    fun start hstart ↦ slice_append_left _ _ _ _ (by omega)
  refine ⟨?_, ?_, ?_, ?_, ?_, hslice 12 (by omega), hslice 16 (by omega)⟩
  · rw [headerSize, hbyte 0 (by omega), headerSize]
  · rw [ipSize, hbyte 2 (by omega), hbyte 3 (by omega), ipSize]
  · rw [fragmentOffset, hbyte 6 (by omega), hbyte 7 (by omega), fragmentOffset]
  · rw [moreFragments, hbyte 6 (by omega), moreFragments]
  · rw [packetKey, packetId, hslice 12 (by omega), hslice 16 (by omega), hbyte 9 (by omega),
      hbyte 4 (by omega), hbyte 5 (by omega), packetKey, packetId]

theorem take_padded (h : PassesTests config pl) (padding : List UInt8) {count : ℕ}
    (hcount : count ≤ ipSize pl) : (pl ++ padding).take count = pl.take count :=
  List.take_append_of_le_length (hcount.trans h.size_le)

/-- A packet that passes the tests passes them with something behind it. -/
theorem passesTests_padded (h : PassesTests config pl) (padding : List UInt8) :
    PassesTests config (pl ++ padding) := by
  obtain ⟨hheader, hsize, -, -, -, -, hdestination⟩ := fields_padded h padding
  have hbyte : ∀ index, index < 20 → byteAt (pl ++ padding) index = byteAt pl index :=
    fun index hindex ↦ byteAt_padded padding (hindex.trans_le h.length_le)
  have hlength : pl.length ≤ (pl ++ padding).length := by simp
  refine ⟨h.length_le.trans hlength, ?_, ?_, ?_, ?_, ?_, ?_, ?_⟩
  · rw [hbyte 0 (by omega)]
    exact h.version
  · rw [hdestination]
    exact h.destination
  · rw [hheader, hsize]
    exact h.header_le
  · rw [hsize]
    exact h.size_le.trans hlength
  · rw [hbyte 8 (by omega)]
    exact h.ttl
  · rw [hbyte 9 (by omega)]
    exact h.mapped
  · rw [hheader, take_padded h padding h.header_le]
    exact h.checksum

/-- What stands behind the end of a packet is not looked at. -/
theorem runIn_padded (h : PassesTests config pl) (padding : List UInt8) (packets : Packets)
    (nowUs : UInt64) (fresh : ℕ → UInt8) :
    runIn config packets ⟨pl ++ padding, nowUs, fresh⟩ =
      runIn config packets ⟨pl, nowUs, fresh⟩ := by
  obtain ⟨hheader, hsize, hoffset, hmore, hkey, hsource, hdestination⟩ := fields_padded h padding
  obtain ⟨queue, hqueue, hwhole, hfragment⟩ :=
    @runIn_of_passes config ⟨pl, nowUs, fresh⟩ h packets
  obtain ⟨queue', hqueue', hwhole', hfragment'⟩ :=
    @runIn_of_passes config ⟨pl ++ padding, nowUs, fresh⟩ (passesTests_padded h padding) packets
  dsimp only at hqueue hwhole hfragment hqueue' hwhole' hfragment'
  rw [byteAt_padded padding (Nat.lt_of_lt_of_le (by omega) h.length_le), hqueue] at hqueue'
  obtain rfl := Option.some.inj hqueue'
  have hcontents : contents (pl ++ padding) = contents pl := by
    rw [contents, contents, hheader, hsize, take_padded h padding le_rfl]
  have hmessage : ∀ payload, messageOf (pl ++ padding) payload = messageOf pl payload := by
    intro payload
    rw [messageOf, messageOf, hkey, hsize, hsource, hdestination, take_padded h padding le_rfl]
  have hkind : IsFragment (pl ++ padding) ↔ IsFragment pl := by
    rw [IsFragment, IsFragment, hoffset, hmore]
  by_cases hfragments : IsFragment pl
  · rw [hfragment hfragments, hfragment' (hkind.mpr hfragments)]
    simp only [hkey, hoffset, hmore, hcontents, hmessage]
    rfl
  · rw [hwhole hfragments, hwhole' (fun hnot ↦ hfragments (hkind.mp hnot)), hcontents, hmessage]

end Padding

/-! ### The packets of one key -/

/-- The event is a packet with the key. -/
def ofKey (key : UInt64) : InEvent → Bool
  | .packet arrival => packetKey arrival.pl == key
  | .cleaner _ => false

/-- The output passes a message with the key up. -/
def upOf (key : UInt64) : Output → Bool
  | .up _ message => message.id == key
  | .icmpError .. => false

/-- A pass of the cleaner comes before the record of the key is too old. -/
def InTime (key : UInt64) (packets : Packets) : InEvent → Prop
  | .packet _ => True
  | .cleaner now =>
    (packets[key]?.all fun p ↦ now - p.latestTs < packetFragmentationTimeout) = true

instance (key : UInt64) (packets : Packets) :
    (event : InEvent) → Decidable (InTime key packets event)
  | .packet _ => isTrue trivial
  | .cleaner _ => inferInstanceAs (Decidable (_ = true))

section Key

variable (config : Config) (key : UInt64)

/-- A packet that fails a test changes no record and passes nothing up. -/
theorem silent_of_refused {config : Config} {arrival : Arrival}
    (h : ¬ PassesTests config arrival.pl) (packets : Packets) :
    (runIn config packets arrival).1 = packets ∧
      (runIn config packets arrival).2.filter (upOf key) = [] := by
  obtain ⟨hsame, hnone⟩ := runIn_of_refused h packets
  refine ⟨hsame, List.filter_eq_nil_iff.mpr fun output houtput ↦ ?_⟩
  cases output with
  | up queue message => exact absurd houtput (hnone queue message)
  | icmpError => simp [upOf]

/-- The packets of the other keys and the passes of the cleaner in time leave the record. -/
theorem ignores_others : Ignores (inStep config) (InTime key)
    (fun packets : Packets ↦ packets[key]?) (ofKey key) (upOf key) := by
  intro packets event hok hother
  cases event with
  | cleaner now =>
    refine ⟨?_, rfl⟩
    change (cleanPackets now packets)[key]? = packets[key]?
    rw [cleanPackets, Std.ExtTreeMap.getElem?_filter']
    cases hentry : packets[key]? with
    | none => rfl
    | some p =>
      have hyoung : now - p.latestTs < packetFragmentationTimeout := by
        simpa [InTime, hentry] using hok
      simp [Option.filter, UInt64.not_le.mpr hyoung]
  | packet arrival =>
    have hkey : packetKey arrival.pl ≠ key := by simpa [ofKey] using hother
    change (runIn config packets arrival).1[key]? = _ ∧
      (runIn config packets arrival).2.filter (upOf key) = []
    by_cases hpasses : PassesTests config arrival.pl
    · obtain ⟨queue, -, hwhole, hfragment⟩ := runIn_of_passes hpasses packets
      have hunseen : ∀ payload, upOf key (.up queue (messageOf arrival.pl payload)) = false :=
        fun payload ↦ beq_false_of_ne hkey
      by_cases hkind : IsFragment arrival.pl
      · rw [hfragment hkind]
        refine ⟨storeFragment_other config arrival hkey _ _ _ _, ?_⟩
        dsimp only
        cases (storeFragment config arrival (packetKey arrival.pl) (fragmentOffset arrival.pl)
          (moreFragments arrival.pl) (contents arrival.pl) packets).2 with
        | none => rfl
        | some whole => simp [hunseen]
      · rw [hwhole hkind]
        exact ⟨rfl, by simp [hunseen]⟩
    · obtain ⟨hsame, hnothing⟩ := silent_of_refused key hpasses packets
      exact ⟨by rw [hsame], hnothing⟩

/-- What a packet of the key does depends on the record of the key alone. -/
theorem reads_own : Reads (inStep config) (fun packets : Packets ↦ packets[key]?) (ofKey key)
    (upOf key) := by
  intro packets packets' event hown hview
  cases event with
  | cleaner now => simp [ofKey] at hown
  | packet arrival =>
    have hkey : packetKey arrival.pl = key := by simpa [ofKey] using hown
    change (runIn config packets arrival).1[key]? = (runIn config packets' arrival).1[key]? ∧
      (runIn config packets arrival).2.filter (upOf key) =
        (runIn config packets' arrival).2.filter (upOf key)
    by_cases hpasses : PassesTests config arrival.pl
    · obtain ⟨queue, hqueue, hwhole, hfragment⟩ := runIn_of_passes hpasses packets
      obtain ⟨queue', hqueue', hwhole', hfragment'⟩ := runIn_of_passes hpasses packets'
      obtain rfl := Option.some.inj (hqueue.symm.trans hqueue')
      by_cases hkind : IsFragment arrival.pl
      · obtain ⟨hentry, hpassed⟩ := storeFragment_key config arrival key
          (fragmentOffset arrival.pl) (moreFragments arrival.pl) (contents arrival.pl) packets
        obtain ⟨hentry', hpassed'⟩ := storeFragment_key config arrival key
          (fragmentOffset arrival.pl) (moreFragments arrival.pl) (contents arrival.pl) packets'
        dsimp only at hentry hpassed hentry' hpassed' hview
        rw [hview] at hentry hpassed
        rw [hfragment hkind, hfragment' hkind]
        dsimp only
        rw [hkey, hentry, hentry', hpassed, hpassed']
        exact ⟨rfl, rfl⟩
      · rw [hwhole hkind, hwhole' hkind]
        exact ⟨hview, rfl⟩
    · obtain ⟨hsame, hnothing⟩ := silent_of_refused key hpasses packets
      obtain ⟨hsame', hnothing'⟩ := silent_of_refused key hpasses packets'
      rw [hsame, hsame', hnothing, hnothing']
      exact ⟨hview, rfl⟩

end Key

/-! ### Fragments among other traffic -/

section Traffic

variable {config : Config} {datagram : Datagram} {tiles : List (Tile UInt8)}

/-- The packet of a tile passes the tests of a server with its address and its protocol. -/
theorem passesTests_tileMsg {tile : Tile UInt8} (h : FitsWire datagram tile)
    (haddr : config.listenAddr = datagram.destination)
    (hmapped : config.mappingsIn datagram.protocol ≠ none) :
    PassesTests config (tileMsg datagram tile) := by
  have hlength := length_tileMsg h
  have hsize := ipSize_tileMsg h
  have hheader : headerSize (tileMsg datagram tile) = 20 := headerSize_tileMsg
  refine ⟨by omega, ?_, ?_, by omega, by omega, ?_, hmapped, ?_⟩
  · change (((4 : UInt8) <<< 4) ||| 5) >>> 4 = 4
    decide
  · rw [tileMsg_eq h, slice_destination, haddr]
  · change (63 : UInt8) ≠ 0
    decide
  · rw [hheader]
    exact ipChecksum_tileMsg h

/-- Messages whose packets begin with the given ones. -/
def Padded (arrivals : List Arrival) (packets : List (List UInt8)) : Prop :=
  List.Forall₂ (fun arrival packet ↦ packet <+: arrival.pl) arrivals packets

/-- A run over packets with something behind them is a run over the packets. -/
theorem run_padded {arrivals : List Arrival} {bare : List (List UInt8)}
    (hpadded : Padded arrivals bare) (hpasses : ∀ packet ∈ bare, PassesTests config packet)
    (packets : Packets) :
    ∃ stripped, stripped.map Arrival.pl = bare ∧
      run (runIn config) packets arrivals = run (runIn config) packets stripped := by
  induction hpadded generalizing packets with
  | nil => exact ⟨[], rfl, rfl⟩
  | @cons arrival packet arrivals bare hbegins _ ih =>
    obtain ⟨padding, hpl⟩ := hbegins
    obtain ⟨hpacket, hrest⟩ := List.forall_mem_cons.mp hpasses
    have hstep : runIn config packets arrival =
        runIn config packets ⟨packet, arrival.nowUs, arrival.fresh⟩ := by
      rw [← runIn_padded hpacket padding packets arrival.nowUs arrival.fresh, hpl]
    obtain ⟨stripped, hstripped, hrun⟩ := ih hrest (runIn config packets arrival).1
    refine ⟨⟨packet, arrival.nowUs, arrival.fresh⟩ :: stripped,
      by rw [List.map_cons, hstripped], ?_⟩
    rw [run_cons, run_cons, hrun, hstep]

/-- What goes up of the fragments in any order is one message, with the fields of the datagram. -/
theorem run_message (h : CutInto datagram tiles) (hpayload : 1 ≤ datagram.payload.length)
    {queue : List UInt8} (haddr : config.listenAddr = datagram.destination)
    (hmapping : config.mappingsIn datagram.protocol = some queue) {packets : Packets}
    (hnone : packets[datagramKey datagram]? = none) {arrivals : List Arrival}
    (hperm : (arrivals.map Arrival.pl).Perm (tiles.map (tileMsg datagram))) :
    ∃ fullPkt, (run (runIn config) packets arrivals).2 = [.up queue ⟨datagramKey datagram, fullPkt,
      datagram.source.bytes, datagram.destination.bytes, datagram.payload⟩] := by
  obtain ⟨order, horder, hall⟩ := perm_map_iff_exists.mp hperm
  have hcarry : Carry datagram arrivals order := carry_iff.mpr horder
  rcases List.eq_nil_or_concat' arrivals with rfl | ⟨before, last, rfl⟩
  · obtain rfl := List.forall₂_nil_left_iff.mp hcarry
    have harea := h.area_eq
    rw [← area_perm hall, area_nil] at harea
    omega
  · obtain ⟨arriving, missing, rfl, hbefore, hrest⟩ := hcarry.split
    obtain ⟨tile, rest, hlast, hnil, rfl⟩ := List.forall₂_cons_left_iff.mp hrest
    obtain rfl := List.forall₂_nil_left_iff.mp hnil
    exact ⟨last.pl, run_all h haddr hmapping hbefore hlast hnone hall⟩

/-- A part of the fragments with something behind them, and others that are still missing. -/
theorem Padded.split {before after : List Arrival} {bare : List (List UInt8)}
    (h : Padded (before ++ after) bare) :
    ∃ first second, bare = first ++ second ∧ Padded before first ∧ Padded after second := by
  have hfirst := List.forall₂_take before.length h
  have hsecond := List.forall₂_drop before.length h
  rw [List.take_left] at hfirst
  rw [List.drop_left] at hsecond
  exact ⟨_, _, (List.take_append_drop before.length bare).symm, hfirst, hsecond⟩

/-- A datagram arrives in a run of a receiver with its address and its protocol. Its payload fits,
the receiver has no record under its key, the passes of the cleaner come in time, and the packets
under the key are its fragments in any order, each with anything behind it. -/
structure ArrivesIn (config : Config) (mtuSize : ℤ) (packets : Packets) (events : List InEvent)
    (datagram : Datagram) (queue : List UInt8) : Prop where
  nonempty : 1 ≤ datagram.payload.length
  small : datagram.payload.length ≤ 65515
  address : config.listenAddr = datagram.destination
  mapped : config.mappingsIn datagram.protocol = some queue
  unseen : packets[datagramKey datagram]? = none
  inTime : Along (inStep config) (InTime (datagramKey datagram)) packets events
  fragments : ∃ fragments order own,
    fragmentLoop (fun _ ↦ true) mtuSize datagram datagram.payload.length 0 0 = some fragments ∧
      order.Perm fragments ∧ events.filter (ofKey (datagramKey datagram)) = own.map .packet ∧
      Padded own order

/-- What goes up for a datagram. -/
def messageFor (datagram : Datagram) (fullPkt : List UInt8) : UpMessage :=
  ⟨datagramKey datagram, fullPkt, datagram.source.bytes, datagram.destination.bytes,
    datagram.payload⟩

/-- A datagram that arrives among other traffic. Nothing goes up under its key before the last
fragment, and then one message. -/
theorem run_among_traffic {config : Config} {mtuSize : ℤ} (hlow : 28 ≤ mtuSize)
    (hhigh : mtuSize ≤ 65535) {packets : Packets} {events : List InEvent} {queue : List UInt8}
    (h : ArrivesIn config mtuSize packets events datagram queue) :
    (∀ before after, events = before ++ after → after.any (ofKey (datagramKey datagram)) = true →
      (run (inStep config) packets before).2.filter (upOf (datagramKey datagram)) = []) ∧
    ∃ fullPkt, (run (inStep config) packets events).2.filter (upOf (datagramKey datagram)) =
      [.up queue (messageFor datagram fullPkt)] := by
  obtain ⟨hsize, haligned, -⟩ := useMtuSizeT_spec hlow hhigh
  have hcut := cutInto_cut h.small hsize haligned
  obtain ⟨fragments, order, own, hsent, horder, hown, hpadded⟩ := h.fragments
  rw [fragmentLoop_tiles (fun _ ↦ rfl) hsize datagram 0 (Nat.zero_add _).ge] at hsent
  obtain rfl := Option.some.inj hsent
  generalize cut (useMtuSizeT mtuSize) datagram.payload 0 = tiles at *
  have hpasses : ∀ packet ∈ order, PassesTests config packet := by
    intro packet hpacket
    obtain ⟨tile, htile, rfl⟩ := List.mem_map.mp (horder.subset hpacket)
    exact passesTests_tileMsg (hcut.fits tile htile) h.address (by simp [h.mapped])
  -- a run is seen as a run over the own packets alone, with nothing behind them
  have hseen : ∀ (seen : List InEvent) arrivals bare,
      Along (inStep config) (InTime (datagramKey datagram)) packets seen →
      seen.filter (ofKey (datagramKey datagram)) = arrivals.map .packet → Padded arrivals bare →
      (∀ packet ∈ bare, PassesTests config packet) → ∃ stripped : List Arrival,
        stripped.map Arrival.pl = bare ∧
        (run (inStep config) packets seen).2.filter (upOf (datagramKey datagram)) =
          (run (runIn config) packets stripped).2.filter (upOf (datagramKey datagram)) := by
    intro seen arrivals bare halong hfilter hbare hgood
    obtain ⟨stripped, hstripped, hrun⟩ := run_padded hbare hgood packets
    refine ⟨stripped, hstripped, ?_⟩
    rw [(run_projection (ignores_others config _) (reads_own config _) rfl halong).2, hfilter,
      run_map, ← hrun]
    rfl
  constructor
  · rintro before after rfl hafter
    rw [List.filter_append] at hown
    obtain ⟨early, late, rfl, hearly, hlate⟩ := List.map_eq_append_iff.mp hown.symm
    obtain ⟨first, second, rfl, hfirst, hsecond⟩ := hpadded.split
    obtain ⟨stripped, hstripped, hrun⟩ := hseen before early first (along_append.mp h.inTime).1
      hearly.symm hfirst (fun packet hpacket ↦ hpasses packet (List.mem_append_left _ hpacket))
    have hmissing : second ≠ [] := by
      rintro rfl
      obtain rfl := List.forall₂_nil_right_iff.mp hsecond
      rw [List.map_nil, eq_comm, List.filter_eq_nil_iff] at hlate
      obtain ⟨event, hevent, htrue⟩ := List.any_eq_true.mp hafter
      exact hlate event hevent htrue
    obtain ⟨tilesInOrder, hmap, hall⟩ := perm_map_iff_exists.mp horder
    obtain ⟨arriving, missing, rfl, rfl, rfl⟩ := List.map_eq_append_iff.mp hmap.symm
    rw [hrun, (run_missing hcut h.address h.mapped (by simpa using hmissing)
      (carry_iff.mpr hstripped) (stored_recordOf h.unseen) hall).1]
    rfl
  · obtain ⟨stripped, hstripped, hrun⟩ := hseen events own order h.inTime hown hpadded hpasses
    obtain ⟨fullPkt, hmessage⟩ := run_message hcut h.nonempty h.address h.mapped h.unseen
      (hstripped ▸ horder)
    refine ⟨fullPkt, ?_⟩
    rw [hrun, hmessage]
    simp [upOf, messageFor]

/-- A message goes up under the key of a packet of the run. -/
theorem up_key {config : Config} {packets : Packets} {events : List InEvent} {queue : List UInt8}
    {message : UpMessage} (h : .up queue message ∈ (run (inStep config) packets events).2) :
    ∃ arrival, .packet arrival ∈ events ∧ packetKey arrival.pl = message.id := by
  induction events generalizing packets with
  | nil => exact absurd h List.not_mem_nil
  | cons event rest ih =>
    rw [run_cons] at h
    rcases List.mem_append.mp h with hnow | hlater
    · cases event with
      | cleaner now => exact absurd hnow List.not_mem_nil
      | packet arrival =>
        refine ⟨arrival, List.mem_cons_self, ?_⟩
        by_contra hkey
        have hignored := (ignores_others config message.id packets (.packet arrival) trivial
          (beq_false_of_ne hkey)).2
        exact List.filter_eq_nil_iff.mp hignored _ hnow (beq_self_eq_true message.id)
    · obtain ⟨arrival, hmem, hkey⟩ := ih hlater
      exact ⟨arrival, List.mem_cons_of_mem _ hmem, hkey⟩

/-- Datagrams whose fragments come in between each other are reassembled apart. Assumes: packets
with room for eight bytes, and a run in which each datagram of a list arrives and every packet is
under the key of one of them. For each datagram exactly one message goes up, with its addresses and
its payload, and not before its last fragment, and no other message goes up. -/
theorem datagrams_reassembled_apart (config : Config) {mtuSize : ℤ} (hlow : 28 ≤ mtuSize)
    (hhigh : mtuSize ≤ 65535) {packets : Packets} {events : List InEvent}
    {datagrams : List (Datagram × List UInt8)}
    (harrive : ∀ entry ∈ datagrams, ArrivesIn config mtuSize packets events entry.1 entry.2)
    (hall : ∀ arrival, .packet arrival ∈ events →
      ∃ entry ∈ datagrams, packetKey arrival.pl = datagramKey entry.1) :
    (∀ entry ∈ datagrams,
      (∀ before after, events = before ++ after →
        after.any (ofKey (datagramKey entry.1)) = true →
          (run (inStep config) packets before).2.filter (upOf (datagramKey entry.1)) = []) ∧
      ∃ fullPkt, (run (inStep config) packets events).2.filter (upOf (datagramKey entry.1)) =
        [.up entry.2 (messageFor entry.1 fullPkt)]) ∧
    ∀ queue message, .up queue message ∈ (run (inStep config) packets events).2 →
      ∃ entry ∈ datagrams, ∃ fullPkt, queue = entry.2 ∧ message = messageFor entry.1 fullPkt := by
  have hone := fun entry hentry ↦ run_among_traffic hlow hhigh (harrive entry hentry)
  refine ⟨hone, fun queue message hup ↦ ?_⟩
  obtain ⟨arrival, hmem, hkey⟩ := up_key hup
  obtain ⟨entry, hentry, hequal⟩ := hall arrival hmem
  obtain ⟨fullPkt, honly⟩ := (hone entry hentry).2
  have hown : upOf (datagramKey entry.1) (.up queue message) = true :=
    beq_iff_eq.mpr (hkey.symm.trans hequal)
  have hfound := List.mem_filter.mpr ⟨hup, hown⟩
  rw [honly, List.mem_singleton] at hfound
  simp only [Output.up.injEq] at hfound
  exact ⟨entry, hentry, fullPkt, hfound⟩

/-- The packet of a part of the sample datagram under a packet id, with something behind it. -/
def samplePart (id : UInt16) (start count : ℕ) (padding : List UInt8) : Arrival :=
  ⟨tileMsg { sampleDatagram with packetsId := id }
    (start, slice sampleDatagram.payload start count) ++ padding, 0, fun _ ↦ 0⟩

/-- The fragments of two datagrams in between each other, one of them with two bytes behind it, and
a pass of the cleaner. -/
theorem datagrams_reassembled_apart_two :
    let config : Config := { sampleConfig with sort := insertionSortFragments }
    let events : List InEvent := [.packet (samplePart 7 16 4 []), .packet (samplePart 8 0 8 []),
      .packet (samplePart 7 8 8 [1, 2]), .cleaner 4000000, .packet (samplePart 8 16 4 []),
      .packet (samplePart 7 0 8 []), .packet (samplePart 8 8 8 [])]
    ∃ fullPkt, (run (inStep config) ∅ events).2.filter (upOf (datagramKey sampleDatagram)) =
      [.up [117, 100, 112] (messageFor sampleDatagram fullPkt)] := by
  intro config events
  have harrives : ∀ id order own, order.Perm [(samplePart id 0 8 []).pl, (samplePart id 8 8 []).pl,
      (samplePart id 16 4 []).pl] → Padded own order →
      Along (inStep config) (InTime (datagramKey { sampleDatagram with packetsId := id })) ∅
        events →
      events.filter (ofKey (datagramKey { sampleDatagram with packetsId := id })) =
        own.map .packet →
      fragmentLoop (fun _ ↦ true) 28 { sampleDatagram with packetsId := id } 20 0 0 =
        some [(samplePart id 0 8 []).pl, (samplePart id 8 8 []).pl, (samplePart id 16 4 []).pl] →
      ArrivesIn config 28 ∅ events { sampleDatagram with packetsId := id } [117, 100, 112] := by
    intro id order own hperm hpadded htime hown hsent
    exact ⟨(by decide : 1 ≤ sampleDatagram.payload.length),
      (by decide : sampleDatagram.payload.length ≤ 65515), rfl, rfl,
      Std.ExtTreeMap.getElem?_empty, htime, _, order, own, hsent, hperm, hown, hpadded⟩
  have hkeys : events.map (ofKey (datagramKey { sampleDatagram with packetsId := 7 })) =
        [true, false, true, false, false, true, false] ∧
      events.map (ofKey (datagramKey { sampleDatagram with packetsId := 8 })) =
        [false, true, false, false, true, false, true] := by
    decide +kernel
  simp only [events, List.map_cons, List.map_nil, List.cons.injEq, and_true] at hkeys
  have hfirst : ArrivesIn config 28 ∅ events sampleDatagram [117, 100, 112] := by
    refine harrives 7 _ [samplePart 7 16 4 [], samplePart 7 8 8 [1, 2], samplePart 7 0 8 []]
      (List.reverse_perm _) (.cons (List.prefix_refl _) (.cons ⟨[1, 2], ?_⟩
        (.cons (List.prefix_refl _) .nil))) (by decide +kernel) ?_ (by decide +kernel)
    · decide +kernel
    · simp only [events, List.filter_cons, hkeys]
      rfl
  have hsecond : ArrivesIn config 28 ∅ events { sampleDatagram with packetsId := 8 }
      [117, 100, 112] := by
    refine harrives 8
      [(samplePart 8 0 8 []).pl, (samplePart 8 16 4 []).pl, (samplePart 8 8 8 []).pl]
      [samplePart 8 0 8 [], samplePart 8 16 4 [], samplePart 8 8 8 []]
      (List.Perm.cons _ (List.Perm.swap _ _ _)) (.cons (List.prefix_refl _)
        (.cons (List.prefix_refl _) (.cons (List.prefix_refl _) .nil))) (by decide +kernel) ?_
      (by decide +kernel)
    simp only [events, List.filter_cons, hkeys]
    rfl
  have hall : (events.all fun event ↦
      match event with
      | .packet arrival => packetKey arrival.pl == datagramKey sampleDatagram ||
          packetKey arrival.pl == datagramKey { sampleDatagram with packetsId := 8 }
      | .cleaner _ => true) = true := by
    decide +kernel
  have hlow : (28 : ℤ) ≤ 28 := le_refl _
  refine ((@datagrams_reassembled_apart config 28 hlow (by decide) ∅ events
    [(sampleDatagram, [117, 100, 112]), ({ sampleDatagram with packetsId := 8 }, [117, 100, 112])]
    ?_ ?_).1 _ List.mem_cons_self).2
  · simp only [List.forall_mem_cons]
    exact ⟨hfirst, hsecond, List.forall_mem_nil _⟩
  · intro arrival harrival
    have hkey := List.all_eq_true.mp hall _ harrival
    simpa using hkey

end Traffic

end MyIPNG.Ip4
