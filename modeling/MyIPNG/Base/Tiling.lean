import MyIPNG.Base.Bytes
import Mathlib.Data.List.Pairwise
import Mathlib.Data.List.Perm.Basic

/-!
# Tilings of a range

A tile is a list of elements with the position of its first element. Tiles are chained from a
position on when each begins where the one before it ended, and they are a tiling when moreover none
is empty. Chained tiles are in order and apart from each other, every position between their two
ends lies in exactly one of them (`Chained.countP_eq_one`), and a buffer that reads every tile at
its position reads their concatenation from the start (`chained_read`). Without its empty tiles a
chain is a tiling, and a tiling is the only ordered arrangement of its tiles.
-/

set_option autoImplicit false
set_option relaxedAutoImplicit false

namespace MyIPNG.Base

/-- A permutation of an image is the image of a permutation. -/
theorem perm_map_iff_exists {α β : Type*} {f : α → β} {image : List β} {source : List α} :
    image.Perm (source.map f) ↔ ∃ order : List α, image = order.map f ∧ order.Perm source :=
  (congrFun (congrFun (List.eq_map_comp_perm f) image) source).symm.to_iff

section Tiling

variable {α : Type*}

/-- A tile: the position of its first element, and its elements. -/
abbrev Tile (α : Type*) := ℕ × List α

/-- The position behind a tile. -/
def tileEnd (tile : Tile α) : ℕ := tile.1 + tile.2.length

/-- Each tile begins where the one before it ended, the first one at `start`. -/
def Chained (start : ℕ) : List (Tile α) → Prop
  | [] => True
  | tile :: rest => tile.1 = start ∧ Chained (tileEnd tile) rest

/-- No tile is empty and each begins where the one before it ended, the first one at `start`. -/
def Tiles (start : ℕ) : List (Tile α) → Prop
  | [] => True
  | tile :: rest => tile.1 = start ∧ tile.2 ≠ [] ∧ Tiles (tileEnd tile) rest

/-- The elements of the tiles, one tile after the other. -/
def covered (tiles : List (Tile α)) : List α := tiles.flatMap Prod.snd

/-- The number of elements of the tiles. -/
def area (tiles : List (Tile α)) : ℕ := (tiles.map fun tile ↦ tile.2.length).sum

@[simp] theorem covered_nil : covered ([] : List (Tile α)) = [] := rfl

@[simp] theorem covered_cons (tile : Tile α) (rest : List (Tile α)) :
    covered (tile :: rest) = tile.2 ++ covered rest := rfl

@[simp] theorem area_nil : area ([] : List (Tile α)) = 0 := rfl

@[simp] theorem area_cons (tile : Tile α) (rest : List (Tile α)) :
    area (tile :: rest) = tile.2.length + area rest := by
  simp [area]

@[simp] theorem area_append (first second : List (Tile α)) :
    area (first ++ second) = area first + area second := by
  simp [area]

theorem area_perm {first second : List (Tile α)} (h : first.Perm second) :
    area first = area second := (h.map _).sum_nat

theorem length_covered (tiles : List (Tile α)) : (covered tiles).length = area tiles := by
  simp [covered, area, List.length_flatMap]

/-- Tiles that are not empty cover something. -/
theorem area_pos {tiles : List (Tile α)} (htiles : tiles ≠ [])
    (hnonempty : ∀ tile ∈ tiles, tile.2 ≠ []) : 0 < area tiles := by
  cases tiles with
  | nil => exact absurd rfl htiles
  | cons tile rest =>
    have hpos := List.length_pos_iff.mpr (hnonempty tile List.mem_cons_self)
    rw [area_cons]
    omega

variable {start : ℕ} {tiles : List (Tile α)}

/-! ### Chains -/

/-- Every tile lies between the two ends of the chain. -/
theorem Chained.within (h : Chained start tiles) :
    ∀ tile ∈ tiles, start ≤ tile.1 ∧ tileEnd tile ≤ start + area tiles := by
  induction tiles generalizing start with
  | nil => simp
  | cons tile rest ih =>
    intro other hother
    have hfirst := h.1
    have harea := area_cons tile rest
    have hend : tileEnd tile = tile.1 + tile.2.length := rfl
    rcases List.mem_cons.mp hother with rfl | hrest
    · omega
    · obtain ⟨hlow, hhigh⟩ := ih h.2 other hrest
      omega

/-- The tiles are in order and apart from each other. -/
theorem Chained.pairwise (h : Chained start tiles) :
    tiles.Pairwise fun tile other ↦ tileEnd tile ≤ other.1 := by
  induction tiles generalizing start with
  | nil => exact List.Pairwise.nil
  | cons tile rest ih =>
    exact List.Pairwise.cons (fun other hother ↦ (h.2.within other hother).1) (ih h.2)

/-- The last tile of a chain reaches its end. -/
theorem Chained.exists_end (h : Chained start tiles) (hnonempty : tiles ≠ []) :
    ∃ tile ∈ tiles, tileEnd tile = start + area tiles := by
  induction tiles generalizing start with
  | nil => exact absurd rfl hnonempty
  | cons tile rest ih =>
    have hfirst := h.1
    have hend : tileEnd tile = tile.1 + tile.2.length := rfl
    by_cases hrest : rest = []
    · refine ⟨tile, List.mem_cons_self, ?_⟩
      rw [hrest, area_cons, area_nil]
      omega
    · obtain ⟨last, hlast, hequal⟩ := ih h.2 hrest
      refine ⟨last, List.mem_cons_of_mem _ hlast, ?_⟩
      rw [area_cons]
      omega

/-- The position lies in the tile. -/
def Covers (position : ℕ) (tile : Tile α) : Prop := tile.1 ≤ position ∧ position < tileEnd tile

instance (position : ℕ) (tile : Tile α) : Decidable (Covers position tile) :=
  inferInstanceAs (Decidable (_ ∧ _))

/-- Every position between the two ends of a chain lies in exactly one of its tiles. -/
theorem Chained.countP_eq_one (h : Chained start tiles) {position : ℕ} (hlow : start ≤ position)
    (hhigh : position < start + area tiles) :
    tiles.countP (fun tile ↦ decide (Covers position tile)) = 1 := by
  induction tiles generalizing start with
  | nil =>
    rw [area_nil] at hhigh
    omega
  | cons tile rest ih =>
    have hfirst := h.1
    have hend : tileEnd tile = tile.1 + tile.2.length := rfl
    rw [area_cons] at hhigh
    rw [List.countP_cons]
    by_cases hhere : position < tileEnd tile
    · have hcovers : Covers position tile := ⟨by omega, hhere⟩
      have hrest : rest.countP (fun tile ↦ decide (Covers position tile)) = 0 := by
        refine List.countP_eq_zero.mpr fun other hother ↦ ?_
        have hwithin := (h.2.within other hother).1
        have hbefore : ¬ Covers position other := fun hcovers ↦ by
          have hlower := hcovers.1
          omega
        simpa using hbefore
      simp [hcovers, hrest]
    · have hcovers : ¬ Covers position tile := fun hcovers ↦ hhere hcovers.2
      simp [hcovers, ih h.2 (by omega) (by omega)]

/-- A buffer that reads every tile of a chain at its position reads what they cover from the start
on. -/
theorem chained_read {buffer : List α} (h : Chained start tiles)
    (hread : ∀ tile ∈ tiles, slice buffer tile.1 tile.2.length = tile.2) :
    slice buffer start (area tiles) = covered tiles := by
  induction tiles generalizing start with
  | nil => simp [slice]
  | cons tile rest ih =>
    have hrest := ih h.2 fun other hother ↦ hread other (List.mem_cons_of_mem _ hother)
    have hfirst := hread tile List.mem_cons_self
    calc slice buffer start (area (tile :: rest))
        = slice buffer start tile.2.length ++
            slice buffer (start + tile.2.length) (area rest) := by
          rw [area_cons, slice_append_slice]
      _ = tile.2 ++ covered rest := by
          rw [← h.1, hfirst, ← hrest, tileEnd]
      _ = covered (tile :: rest) := (covered_cons tile rest).symm

/-! ### Tilings -/

theorem Tiles.chained (h : Tiles start tiles) : Chained start tiles := by
  induction tiles generalizing start with
  | nil => trivial
  | cons tile rest ih => exact ⟨h.1, ih h.2.2⟩

theorem Tiles.nonempty (h : Tiles start tiles) : ∀ tile ∈ tiles, tile.2 ≠ [] := by
  induction tiles generalizing start with
  | nil => simp
  | cons tile rest ih =>
    intro other hother
    rcases List.mem_cons.mp hother with rfl | hrest
    · exact h.2.1
    · exact ih h.2.2 other hrest

/-- Every tile lies between the start and the end of the tiling. -/
theorem Tiles.within (h : Tiles start tiles) :
    ∀ tile ∈ tiles, start ≤ tile.1 ∧ tileEnd tile ≤ start + area tiles :=
  h.chained.within

/-- The tiles are in order and apart from each other. -/
theorem Tiles.pairwise (h : Tiles start tiles) :
    tiles.Pairwise fun tile other ↦ tileEnd tile ≤ other.1 :=
  h.chained.pairwise

/-- Two different tiles are apart. -/
theorem Tiles.apart (h : Tiles start tiles) {tile other : Tile α} (htile : tile ∈ tiles)
    (hother : other ∈ tiles) (hne : tile ≠ other) :
    tileEnd tile ≤ other.1 ∨ tileEnd other ≤ tile.1 := by
  have hsymm : Std.Symm fun a b : Tile α ↦ tileEnd a ≤ b.1 ∨ tileEnd b ≤ a.1 :=
    ⟨fun _ _ ↦ Or.symm⟩
  have hpairwise : tiles.Pairwise fun a b ↦ tileEnd a ≤ b.1 ∨ tileEnd b ≤ a.1 :=
    h.pairwise.imp Or.inl
  exact hpairwise.forall htile hother hne

/-- A tile is known by where it begins. -/
theorem Tiles.eq_of_start (h : Tiles start tiles) {tile other : Tile α} (htile : tile ∈ tiles)
    (hother : other ∈ tiles) (hstart : tile.1 = other.1) : tile = other := by
  by_contra hne
  have hpos := List.length_pos_iff.mpr (h.nonempty tile htile)
  have hposOther := List.length_pos_iff.mpr (h.nonempty other hother)
  rcases h.apart htile hother hne with hbefore | hafter
  · rw [tileEnd] at hbefore
    omega
  · rw [tileEnd] at hafter
    omega

theorem Tiles.nodup (h : Tiles start tiles) : tiles.Nodup := by
  refine h.pairwise.imp_of_mem ?_
  rintro tile other htile - hbefore rfl
  have hpos := List.length_pos_iff.mpr (h.nonempty tile htile)
  rw [tileEnd] at hbefore
  omega

/-- Only the last tile reaches the end of the tiling. -/
theorem Tiles.end_lt_iff (h : Tiles start tiles) {index : ℕ} (hindex : index < tiles.length) :
    tileEnd tiles[index] < start + area tiles ↔ index + 1 < tiles.length := by
  induction tiles generalizing start index with
  | nil => exact absurd hindex (Nat.not_lt_zero _)
  | cons tile rest ih =>
    have hend : start + area (tile :: rest) = tileEnd tile + area rest := by
      rw [area_cons, tileEnd, h.1, Nat.add_assoc]
    rw [hend]
    cases index with
    | zero =>
      have harea : 0 < area rest ↔ rest ≠ [] := by
        refine ⟨?_, fun hrest ↦ area_pos hrest h.2.2.nonempty⟩
        rintro hpos rfl
        exact absurd hpos (Nat.lt_irrefl 0)
      rw [List.getElem_cons_zero, List.length_cons, Nat.lt_add_right_iff_pos, harea,
        Nat.add_lt_add_iff_right, List.length_pos_iff]
    | succ index =>
      rw [List.getElem_cons_succ, ih h.2.2, List.length_cons, Nat.add_lt_add_iff_right]

theorem Tiles.exists_last (h : Tiles start tiles) (hnonempty : tiles ≠ []) :
    ∃ tile ∈ tiles, tileEnd tile = start + area tiles :=
  h.chained.exists_end hnonempty

/-- A buffer that reads every tile of a tiling at its position reads what they cover from the start
on. -/
theorem tiles_read {buffer : List α} (h : Tiles start tiles)
    (hread : ∀ tile ∈ tiles, slice buffer tile.1 tile.2.length = tile.2) :
    slice buffer start (area tiles) = covered tiles :=
  chained_read h.chained hread

/-! ### Chains without their empty tiles -/

/-- The tiles that are not empty. -/
def solid (tiles : List (Tile α)) : List (Tile α) := tiles.filter fun tile ↦ !tile.2.isEmpty

theorem covered_solid (tiles : List (Tile α)) : covered (solid tiles) = covered tiles := by
  induction tiles with
  | nil => rfl
  | cons tile rest ih =>
    rw [solid] at ih
    by_cases hempty : tile.2 = []
    · simp [solid, hempty, ih]
    · simp [solid, hempty, ih]

theorem Chained.solid (h : Chained start tiles) : Tiles start (solid tiles) := by
  induction tiles generalizing start with
  | nil => trivial
  | cons tile rest ih =>
    have hrest := ih h.2
    rw [Base.solid] at hrest
    by_cases hempty : tile.2 = []
    · have hend : tileEnd tile = start := by
        rw [tileEnd, hempty, List.length_nil, Nat.add_zero, h.1]
      rw [hend] at hrest
      simpa [Base.solid, hempty] using hrest
    · simpa [Base.solid, hempty, Tiles, h.1] using hrest

/-- A tiling is the only arrangement of its tiles in the order of their positions. -/
theorem Tiles.eq_of_perm (h : Tiles start tiles) {order : List (Tile α)} (hperm : order.Perm tiles)
    (hsorted : order.Pairwise fun a b ↦ a.1 ≤ b.1) : order = tiles := by
  refine hperm.eq_of_pairwise ?_ hsorted (h.pairwise.imp fun hbefore ↦ ?_)
  · intro tile other htile hother hle hge
    exact h.eq_of_start (hperm.subset htile) hother (Nat.le_antisymm hle hge)
  · exact (Nat.le_add_right _ _).trans hbefore

/-- What chained tiles cover is what they cover in any order by their positions. -/
theorem Chained.covered_perm (h : Chained start tiles) {order : List (Tile α)}
    (hperm : order.Perm tiles) (hsorted : order.Pairwise fun a b ↦ a.1 ≤ b.1) :
    covered order = covered tiles := by
  have hsolid : Base.solid order = Base.solid tiles :=
    h.solid.eq_of_perm (hperm.filter _) (hsorted.filter _)
  rw [← covered_solid order, hsolid, covered_solid]

/-! ### Cutting a buffer -/

/-- The tiles of at most `size` elements that a buffer is cut into from a position on. -/
def cut (size : ℕ) (buffer : List α) (position : ℕ) : List (Tile α) :=
  if position < buffer.length ∧ 0 < size then
    let count := min size (buffer.length - position)
    (position, slice buffer position count) :: cut size buffer (position + count)
  else []
termination_by buffer.length - position

/-- One tile of a cut. -/
theorem cut_eq {size : ℕ} (hsize : 0 < size) (buffer : List α) {position : ℕ}
    (h : position < buffer.length) :
    cut size buffer position =
      (position, slice buffer position (min size (buffer.length - position))) ::
        cut size buffer (position + min size (buffer.length - position)) := by
  rw [cut, if_pos ⟨h, hsize⟩]

theorem cut_end (size : ℕ) (buffer : List α) {position : ℕ} (h : buffer.length ≤ position) :
    cut size buffer position = [] := by
  rw [cut, if_neg (by omega)]

/-- A buffer is cut into a tiling of what follows the position. -/
theorem cut_tiles {size : ℕ} (hsize : 0 < size) (buffer : List α) (position : ℕ) :
    Tiles position (cut size buffer position) ∧
      covered (cut size buffer position) = buffer.drop position := by
  fun_induction cut size buffer position with
  | case1 position hposition count ih =>
    have hcount : position + count ≤ buffer.length := by
      simp only [count]
      omega
    have hlength := length_slice buffer position count hcount
    refine ⟨⟨rfl, ?_, ?_⟩, ?_⟩
    · refine List.length_pos_iff.mp ?_
      rw [hlength]
      simp only [count]
      omega
    · rw [tileEnd, hlength]
      exact ih.1
    · rw [covered_cons, ih.2, slice, ← List.drop_drop, List.take_append_drop]
  | case2 position hposition =>
    refine ⟨trivial, ?_⟩
    rw [covered_nil, List.drop_eq_nil_of_le (by omega)]

/-- Every tile of a cut reads the buffer, has at most `size` elements, and begins at a multiple of
any number that divides the size and the first position. -/
theorem cut_tile {size divisor : ℕ} (hdivides : divisor ∣ size) (buffer : List α) (position : ℕ)
    (hposition : divisor ∣ position) :
    ∀ tile ∈ cut size buffer position, tile.2 = slice buffer tile.1 tile.2.length ∧
      tile.2.length ≤ size ∧ divisor ∣ tile.1 := by
  fun_induction cut size buffer position with
  | case1 position hinside count ih =>
    have hcount : position + count ≤ buffer.length := by
      simp only [count]
      omega
    have hlength := length_slice buffer position count hcount
    intro tile htile
    rcases List.mem_cons.mp htile with rfl | hrest
    · refine ⟨?_, ?_, hposition⟩
      · rw [hlength]
      · rw [hlength]
        exact min_le_left _ _
    · by_cases hfull : size ≤ buffer.length - position
      · refine ih ?_ tile hrest
        simp only [count, min_eq_left hfull]
        exact Nat.dvd_add hposition hdivides
      · have hend : buffer.length ≤ position + count := by
          simp only [count]
          omega
        rw [cut_end size buffer hend] at hrest
        exact absurd hrest List.not_mem_nil
  | case2 position hinside => simp

end Tiling

end MyIPNG.Base
