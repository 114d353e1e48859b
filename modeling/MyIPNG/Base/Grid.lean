import MyIPNG.Base.Bytes

/-!
# Grids, row by row

A grid with rows and columns as a list, one row behind the other. The element with number `k` is in
row `k / columns` and column `k % columns` (`flatMap_range_map`), and where every element is written
as the same number of cells, those of an element are found from its number (`slice_flatMap`).
-/

set_option autoImplicit false
set_option relaxedAutoImplicit false

namespace MyIPNG.Base

section Grid

variable {α ι : Type*}

/-- The row of an element. -/
theorem row_of_number {columns column : ℕ} (hcolumn : column < columns) (row : ℕ) :
    (row * columns + column) / columns = row := by
  rw [Nat.mul_comm, Nat.mul_add_div (Nat.zero_lt_of_lt hcolumn), Nat.div_eq_of_lt hcolumn,
    Nat.add_zero]

/-- A grid by the numbers of its elements. -/
theorem flatMap_range_map (rows columns : ℕ) (f : ℕ → ℕ → α) :
    (List.range rows).flatMap (fun row ↦ (List.range columns).map (f row)) =
      (List.range (rows * columns)).map fun k ↦ f (k / columns) (k % columns) := by
  induction rows with
  | zero => simp
  | succ rows ih =>
    rw [List.range_succ, List.flatMap_append, ih, Nat.succ_mul, List.range_add, List.map_append,
      List.flatMap_singleton, List.map_map]
    congr 1
    refine List.map_congr_left fun column hcolumn ↦ ?_
    have hless : column < columns := List.mem_range.mp hcolumn
    rw [Function.comp_apply, row_of_number hless, Nat.mul_add_mod_of_lt hless]

/-- The number of an element is below the number of all. -/
theorem number_lt {rows columns row column : ℕ} (hrow : row < rows) (hcolumn : column < columns) :
    row * columns + column < rows * columns := by
  calc row * columns + column < row * columns + columns := Nat.add_lt_add_left hcolumn _
    _ = (row + 1) * columns := (Nat.succ_mul row columns).symm
    _ ≤ rows * columns := Nat.mul_le_mul_right columns hrow

/-- An element of a grid. -/
theorem getD_flatMap_range_map {rows columns row column : ℕ} (hrow : row < rows)
    (hcolumn : column < columns) (f : ℕ → ℕ → α) (missing : α) :
    ((List.range rows).flatMap fun row ↦ (List.range columns).map (f row)).getD
      (row * columns + column) missing = f row column := by
  have hnumber := number_lt hrow hcolumn
  rw [flatMap_range_map, List.getD_eq_getElem?_getD, List.getElem?_map,
    List.getElem?_range hnumber, Option.map_some, Option.getD_some, row_of_number hcolumn,
    Nat.mul_add_mod_of_lt hcolumn]

/-- The cells of an element. -/
theorem slice_flatMap {items : List ι} {f : ι → List α} {width : ℕ}
    (hwidth : ∀ item ∈ items, (f item).length = width) {k : ℕ} (hk : k < items.length) :
    slice (items.flatMap f) (k * width) width = f items[k] := by
  induction items generalizing k with
  | nil => simp at hk
  | cons item items ih =>
    have hfirst : (f item).length = width := hwidth item List.mem_cons_self
    rw [List.flatMap_cons]
    cases k with
    | zero =>
      rw [Nat.zero_mul, slice_append_left _ _ _ _ (by omega), ← hfirst, slice_full]
      rfl
    | succ k =>
      rw [Nat.succ_mul, Nat.add_comm, ← hfirst, slice_append_right, hfirst,
        ih (fun other hother ↦ hwidth other (List.mem_cons_of_mem _ hother))
          (Nat.lt_of_succ_lt_succ hk)]
      rfl

end Grid

end MyIPNG.Base
