import MyIPNG.Ip4.Wire

/-!
# Reassembly undoes fragmentation

The record of a datagram while its fragments arrive in any order. After some of the tiles have
arrived, the record reads each of them at its position, is not longer than the payload, lists the
range of each and knows whether the last tile was among them (`Stored`); a fragment that arrives
keeps this (`stored_step`).

`is_complete` tests whether the sorted ranges are a tiling (`contiguous_iff`). A tiling ends at the
sum of its lengths, so with the last tile there and another one missing the ranges are none. With
all tiles there, sorting gives them back in order and the record reads the payload.
-/

set_option autoImplicit false
set_option relaxedAutoImplicit false

namespace MyIPNG.Ip4

open Base Utils

/-! ### The test for completeness -/

/-- The range of a tile as the record lists it. -/
def tileRange (tile : Tile UInt8) : Fragment :=
  (UInt16.ofNat tile.1, UInt16.ofNat tile.2.length)

theorem ofNat_inj_of_lt {first second : ℕ} (hfirst : first < 65536) (hsecond : second < 65536) :
    UInt16.ofNat first = UInt16.ofNat second ↔ first = second := by
  rw [← UInt16.toNat_inj, UInt16.toNat_ofNat', UInt16.toNat_ofNat', Nat.mod_eq_of_lt hfirst,
    Nat.mod_eq_of_lt hsecond]

/-- The scan over the ranges of tiles accepts exactly the tilings. Assumes: no tile is empty and all
end within the sixteen bits of the ranges. -/
theorem contiguous_iff {tiles : List (Tile UInt8)} (hnonempty : ∀ tile ∈ tiles, tile.2 ≠ [])
    (hsmall : ∀ tile ∈ tiles, tileEnd tile < 65536) {start : ℕ} (hstart : start < 65536) :
    contiguous (UInt16.ofNat start) (tiles.map tileRange) = true ↔ Tiles start tiles := by
  induction tiles generalizing start with
  | nil => simp [contiguous, Tiles]
  | cons tile rest ih =>
    have hend := hsmall tile List.mem_cons_self
    have hoffset : tile.1 < 65536 := by
      rw [tileEnd] at hend
      omega
    have hrest := ih (fun other hother ↦ hnonempty other (List.mem_cons_of_mem _ hother))
      (fun other hother ↦ hsmall other (List.mem_cons_of_mem _ hother)) hend
    rw [tileEnd, UInt16.ofNat_add] at hrest
    simp only [List.map_cons, contiguous, tileRange, Tiles, ne_eq,
      ofNat_inj_of_lt hoffset hstart]
    by_cases hfirst : tile.1 = start
    · simp only [hfirst, not_true_eq_false, if_false, true_and]
      rw [← hfirst]
      exact hrest.trans ⟨fun htiles ↦ ⟨hnonempty tile List.mem_cons_self, htiles⟩, And.right⟩
    · simp [hfirst]

section Record

variable {tiles arrived : List (Tile UInt8)}

/-- Sorting the ranges of all tiles of a tiling puts the tiles in order. -/
theorem sorted_eq (htiles : Tiles 0 tiles) (hsmall : area tiles < 65536)
    {sorted : List (Tile UInt8)} (hperm : sorted.Perm tiles)
    (hsorted : (sorted.map tileRange).Pairwise fun a b ↦ a.1 ≤ b.1) : sorted = tiles := by
  have hstart : ∀ tile ∈ tiles, (UInt16.ofNat tile.1).toNat = tile.1 := by
    intro tile htile
    have hwithin := (htiles.within tile htile).2
    rw [tileEnd] at hwithin
    rw [UInt16.toNat_ofNat', Nat.mod_eq_of_lt (by omega)]
  refine htiles.eq_of_perm hperm ((List.pairwise_map.mp hsorted).imp_of_mem ?_)
  intro tile other htile hother hle
  rw [← hstart tile (hperm.subset htile), ← hstart other (hperm.subset hother)]
  exact UInt16.le_iff_toNat_le.mp hle

/-! ### The record while tiles arrive -/

/-- The record after some tiles of a tiling have arrived. -/
structure Stored (tiles arrived : List (Tile UInt8)) (p : Packet) : Prop where
  length_le : p.data.length ≤ area tiles
  read : ∀ tile ∈ arrived, slice p.data tile.1 tile.2.length = tile.2
  ranges : p.fragments.Perm (arrived.map tileRange)
  known : p.fullSizeKnown = true ↔ ∃ tile ∈ arrived, tileEnd tile = area tiles

theorem stored_noPacket (tiles : List (Tile UInt8)) : Stored tiles [] noPacket where
  length_le := Nat.zero_le _
  read := by simp
  ranges := List.Perm.refl _
  known := by simp [noPacket]

/-- `is_complete` keeps what the record stores. -/
theorem Stored.isComplete {p : Packet} (h : Stored tiles arrived p) (sort : FragmentSort) :
    Stored tiles arrived (isComplete sort p).2 := by
  unfold Ip4.isComplete
  split_ifs with hknown
  · exact h
  · exact ⟨h.length_le, h.read, (sort.perm _).trans h.ranges, h.known⟩

theorem data_isComplete (sort : FragmentSort) (p : Packet) :
    (isComplete sort p).2.data = p.data := by
  unfold isComplete
  split_ifs with hknown <;> rfl

theorem length_grow (fresh : ℕ → UInt8) (data : List UInt8) (size : ℕ) :
    (grow fresh data size).length = max data.length size := by
  unfold grow
  split_ifs with hshort
  · rw [List.length_append, List.length_map, List.length_range]
    omega
  · omega

theorem slice_grow (fresh : ℕ → UInt8) (data : List UInt8) (size : ℕ) {start count : ℕ}
    (h : start + count ≤ data.length) :
    slice (grow fresh data size) start count = slice data start count := by
  unfold grow
  split_ifs with hshort
  · exact slice_append_left _ _ _ _ h
  · rfl

/-- A tile that arrives is added to what the record stores. Assumes: it is a tile of the tiling, as
are those before it, and none of them. -/
theorem stored_step (htiles : Tiles 0 tiles) (hsmall : area tiles < 65536) {p : Packet}
    (h : Stored tiles arrived p) (hsubset : arrived ⊆ tiles) {tile : Tile UInt8}
    (htile : tile ∈ tiles) (hnew : tile ∉ arrived) (arrival : Arrival) :
    Stored tiles (arrived ++ [tile]) (addFragment arrival p (UInt16.ofNat tile.1)
      (decide (tileEnd tile < area tiles)) tile.2) := by
  have hend := (htiles.within tile htile).2
  have hlength := length_grow arrival.fresh p.data (tile.1 + tile.2.length)
  have hle := h.length_le
  rw [tileEnd] at hend
  have hoffset : (UInt16.ofNat tile.1).toNat = tile.1 := by
    rw [UInt16.toNat_ofNat', Nat.mod_eq_of_lt (by omega)]
  unfold addFragment
  rw [hoffset]
  refine ⟨?_, ?_, ?_, ?_⟩
  · rw [length_overwrite _ _ _ (by omega)]
    omega
  · intro other hother
    rcases List.mem_append.mp hother with hbefore | hlast
    · have hread := h.read other hbefore
      have hpos := List.length_pos_iff.mpr (htiles.nonempty other (hsubset hbefore))
      have hinside : other.1 + other.2.length ≤ p.data.length := by
        have hcount := congrArg List.length hread
        simp only [slice, List.length_take, List.length_drop] at hcount
        omega
      have happart := htiles.apart (hsubset hbefore) htile fun hequal ↦ hnew (hequal ▸ hbefore)
      rw [slice_overwrite_of_disjoint _ _ _ (by omega) _ _ happart,
        slice_grow _ _ _ hinside, hread]
    · obtain rfl := List.mem_singleton.mp hlast
      exact slice_overwrite_self _ _ _ (by omega)
  · rw [List.map_append]
    exact h.ranges.append_right _
  · by_cases hmore : tileEnd tile < area tiles
    · have hnot : ¬ tileEnd tile = area tiles := by omega
      simp [hmore, hnot, h.known, or_and_right, exists_or]
    · have hlast : tileEnd tile = area tiles := by
        have hwithin := (htiles.within tile htile).2
        omega
      simp [hlast]

/-! ### Completeness -/

/-- With all tiles there the record is complete, and it reads what they cover. -/
theorem isComplete_of_all (htiles : Tiles 0 tiles) (hsmall : area tiles < 65536)
    (hnonempty : tiles ≠ []) {p : Packet} (h : Stored tiles arrived p) (hall : arrived.Perm tiles)
    (sort : FragmentSort) : (isComplete sort p).1 = true ∧ p.data = covered tiles := by
  constructor
  · have hknown : p.fullSizeKnown = true := by
      obtain ⟨last, hlast, hend⟩ := htiles.exists_last hnonempty
      exact h.known.mpr ⟨last, hall.symm.subset hlast, hend.trans (Nat.zero_add _)⟩
    obtain ⟨sorted, hsort, hperm⟩ :=
      perm_map_iff_exists.mp ((sort.perm p.fragments).trans h.ranges)
    have hsorted := sort.sorted p.fragments
    rw [hsort] at hsorted
    have hequal := sorted_eq htiles hsmall (hperm.trans hall) hsorted
    simp only [isComplete, hknown, Bool.true_eq_false, if_false, hsort, hequal]
    refine (contiguous_iff htiles.nonempty ?_ (Nat.zero_lt_succ _)).mpr htiles
    intro tile htile
    have hwithin := (htiles.within tile htile).2
    omega
  · have hread := tiles_read htiles fun tile htile ↦ h.read tile (hall.symm.subset htile)
    rwa [slice, List.drop_zero, List.take_of_length_le h.length_le] at hread

/-- With a tile missing the record is not complete. -/
theorem isComplete_of_missing (htiles : Tiles 0 tiles) (hsmall : area tiles < 65536)
    {p : Packet} (h : Stored tiles arrived p) {missing : List (Tile UInt8)}
    (hmissing : missing ≠ []) (hall : (arrived ++ missing).Perm tiles) (sort : FragmentSort) :
    (isComplete sort p).1 = false := by
  have hsubset : ∀ tile ∈ arrived ++ missing, tile ∈ tiles := fun _ htile ↦ hall.subset htile
  by_cases hknown : p.fullSizeKnown = false
  · simp [isComplete, hknown]
  · obtain ⟨last, hlast, hend⟩ := h.known.mp (by simpa using hknown)
    obtain ⟨sorted, hsort, hperm⟩ :=
      perm_map_iff_exists.mp ((sort.perm p.fragments).trans h.ranges)
    have harrived : ∀ tile ∈ sorted, tile ∈ tiles := fun tile htile ↦
      hsubset tile (List.mem_append_left _ (hperm.subset htile))
    have hmore : 0 < area missing := area_pos hmissing fun tile htile ↦
      htiles.nonempty tile (hsubset tile (List.mem_append_right _ htile))
    -- a tiling of the arrived tiles would end at their area, which is less than where the last
    -- tile ends
    have hnot : ¬ Tiles 0 sorted := by
      intro hsorted
      have hwithin := (hsorted.within last (hperm.symm.subset hlast)).2
      have harea := area_perm hall
      rw [area_append, ← area_perm hperm] at harea
      omega
    have hends : ∀ tile ∈ sorted, tileEnd tile < 65536 := by
      intro tile htile
      have hwithin := (htiles.within tile (harrived tile htile)).2
      omega
    simp only [isComplete, hknown, hsort]
    refine Bool.eq_false_iff.mpr fun htrue ↦ hnot ?_
    exact (contiguous_iff (fun tile htile ↦ htiles.nonempty tile (harrived tile htile)) hends
      (Nat.zero_lt_succ _)).mp htrue

end Record

end MyIPNG.Ip4
