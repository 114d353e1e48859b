import Mathlib.Algebra.Group.Nat.Defs
import Mathlib.Data.Nat.Basic
import Mathlib.Tactic.Common

/-!
# The 32-bit sequence space

Sequence numbers are `UInt32` and wrap at `2 ^ 32`. `offset start number` is the distance from a
start number to a number, going up, as a natural number below `2 ^ 32`. A position counted from
the start as a natural number is the number `start + UInt32.ofNat position`; below `2 ^ 32` the
two views are inverse to each other.
-/

set_option autoImplicit false
set_option relaxedAutoImplicit false

namespace MyIPNG.Base

/-- The distance from `start` up to `number`, modulo `2 ^ 32`. -/
def offset (start number : UInt32) : ℕ := (number - start).toNat

/-- The number at a position below `2 ^ 32` has that position as its offset. -/
theorem offset_add (start : UInt32) {position : ℕ} (h : position < 2 ^ 32) :
    offset start (start + UInt32.ofNat position) = position := by
  rw [offset, UInt32.add_comm, UInt32.add_sub_cancel, UInt32.toNat_ofNat', Nat.mod_eq_of_lt h]

/-- Every number is the start moved up by its offset. -/
theorem start_add_offset (start number : UInt32) :
    start + UInt32.ofNat (offset start number) = number := by
  rw [offset, UInt32.ofNat_toNat, UInt32.add_comm, UInt32.sub_add_cancel]

/-- Moving up in two steps. -/
theorem add_ofNat_add (start : UInt32) (first second : ℕ) :
    start + UInt32.ofNat first + UInt32.ofNat second = start + UInt32.ofNat (first + second) := by
  rw [UInt32.add_assoc, UInt32.ofNat_add]

/-- Moving a number up inside the sequence space moves its offset up. -/
theorem offset_add_ofNat (start number : UInt32) {count : ℕ}
    (h : offset start number + count < 2 ^ 32) :
    offset start (number + UInt32.ofNat count) = offset start number + count := by
  calc offset start (number + UInt32.ofNat count)
      = offset start (start + UInt32.ofNat (offset start number + count)) := by
        rw [← add_ofNat_add, start_add_offset]
    _ = offset start number + count := offset_add start h

/-- Positions below `2 ^ 32` with the same number are equal. -/
theorem add_ofNat_inj (start : UInt32) {first second : ℕ} (hfirst : first < 2 ^ 32)
    (hsecond : second < 2 ^ 32) :
    start + UInt32.ofNat first = start + UInt32.ofNat second ↔ first = second := by
  constructor
  · intro h
    rw [← offset_add start hfirst, ← offset_add start hsecond, h]
  · intro h
    rw [h]

end MyIPNG.Base
