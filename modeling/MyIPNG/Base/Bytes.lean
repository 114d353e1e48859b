import Mathlib.Data.List.Basic
import Mathlib.Tactic.Ring
import Mathlib.Tactic.SplitIfs

/-!
# Byte buffers as lists

A buffer is the list of its bytes. `slice` reads a range, `overwrite` is a copy into the buffer
and `move` a copy of a range of the buffer onto another one. The lemmas say what a range reads
after a write, in the two forms the layers above need: a write behind a prefix keeps the prefix,
and a buffer cut at a position is the concatenation of its two parts.

`leBytes` writes a number in little-endian order in a given number of bytes, `leValue` reads it
back.
-/

set_option autoImplicit false
set_option relaxedAutoImplicit false

namespace MyIPNG.Base

/-! ### Ranges and writes -/

section Buffer

variable {α : Type*}

/-- The `count` elements of a buffer from position `start` on. -/
def slice (buffer : List α) (start count : ℕ) : List α := (buffer.drop start).take count

/-- The buffer after the elements of `source` were copied to position `start`. -/
def overwrite (buffer : List α) (start : ℕ) (source : List α) : List α :=
  buffer.take start ++ source ++ buffer.drop (start + source.length)

/-- The buffer after `count` elements from position `source` on were copied to position
`target`, the two ranges being allowed to overlap. -/
def move (buffer : List α) (target source count : ℕ) : List α :=
  overwrite buffer target (slice buffer source count)

theorem length_slice (buffer : List α) (start count : ℕ) (h : start + count ≤ buffer.length) :
    (slice buffer start count).length = count := by
  simp only [slice, List.length_take, List.length_drop]
  omega

theorem length_overwrite (buffer : List α) (start : ℕ) (source : List α)
    (h : start + source.length ≤ buffer.length) :
    (overwrite buffer start source).length = buffer.length := by
  simp only [overwrite, List.length_append, List.length_take, List.length_drop]
  omega

/-- A range of a concatenation that starts at the second part reads the second part. -/
theorem slice_append_right (front back : List α) (start count : ℕ) :
    slice (front ++ back) (front.length + start) count = slice back start count := by
  rw [slice, slice, ← List.drop_drop, List.drop_left]

/-- A range of a concatenation that ends inside the first part reads the first part. -/
theorem slice_append_left (front back : List α) (start count : ℕ)
    (h : start + count ≤ front.length) :
    slice (front ++ back) start count = slice front start count := by
  rw [slice, slice, List.drop_append_of_le_length (by omega), List.take_append_of_le_length]
  simp only [List.length_drop]
  omega

/-- The range that covers the whole buffer is the buffer. -/
theorem slice_full (buffer : List α) : slice buffer 0 buffer.length = buffer := by
  simp [slice]

/-- Two adjacent ranges of a buffer make the range that covers both. -/
theorem slice_append_slice (buffer : List α) (start first second : ℕ) :
    slice buffer start first ++ slice buffer (start + first) second =
      slice buffer start (first + second) := by
  rw [slice, slice, slice, ← List.drop_drop, List.take_add]

/-- A range inside a range. -/
theorem slice_slice (buffer : List α) (start count inner innerCount : ℕ)
    (h : inner + innerCount ≤ count) :
    slice (slice buffer start count) inner innerCount =
      slice buffer (start + inner) innerCount := by
  rw [slice, slice, slice, List.drop_take, List.take_take, List.drop_drop,
    min_eq_left (by omega)]

/-- A piece of what a range reads is read by the range of the piece alone. -/
theorem slice_piece {buffer front piece back : List α} {start count : ℕ}
    (h : slice buffer start count = front ++ (piece ++ back)) :
    slice buffer (start + front.length) piece.length = piece := by
  have hlength : (front ++ (piece ++ back)).length ≤ count := by
    rw [← h, slice, List.length_take]
    exact min_le_left _ _
  simp only [List.length_append] at hlength
  rw [← slice_slice buffer start count _ _ (by omega), h]
  have hright := slice_append_right front (piece ++ back) 0 piece.length
  rw [Nat.add_zero] at hright
  rw [hright, slice_append_left _ _ _ _ (by omega), slice_full]

/-- Reading past a prefix of known length: the part before a position, and the rest. -/
theorem take_append_slice (buffer : List α) (start count : ℕ) :
    buffer.take start ++ slice buffer start count = buffer.take (start + count) := by
  rw [slice, List.take_add]

/-- A write at the position where a prefix ends keeps the prefix and puts the source behind it. -/
theorem take_overwrite (buffer : List α) (start : ℕ) (source : List α)
    (h : start ≤ buffer.length) (count : ℕ) (hcount : count ≤ start) :
    (overwrite buffer start source).take count = buffer.take count := by
  rw [overwrite, List.append_assoc, List.take_append_of_le_length]
  · rw [List.take_take, min_eq_left hcount]
  · rw [List.length_take]
    omega

/-- What a buffer holds up to a position behind a write: the old prefix, the source, and the old
elements that follow the written range. -/
theorem take_overwrite_add (buffer : List α) (start : ℕ) (source : List α)
    (h : start ≤ buffer.length) (extra : ℕ) :
    (overwrite buffer start source).take (start + source.length + extra) =
      buffer.take start ++ source ++ slice buffer (start + source.length) extra := by
  have hlength : (buffer.take start ++ source).length = start + source.length := by
    rw [List.length_append, List.length_take, min_eq_left h]
  rw [overwrite, ← hlength, List.take_length_add_append, slice, hlength]

/-- A range that was just written reads what was written. -/
theorem slice_overwrite_self (buffer : List α) (start : ℕ) (source : List α)
    (h : start ≤ buffer.length) :
    slice (overwrite buffer start source) start source.length = source := by
  have hlength : (buffer.take start).length = start := by rw [List.length_take, min_eq_left h]
  have hright := slice_append_right (buffer.take start)
    (source ++ buffer.drop (start + source.length)) 0 source.length
  rw [hlength, Nat.add_zero] at hright
  rw [overwrite, List.append_assoc, hright, slice_append_left _ _ _ _ (by omega), slice_full]

/-- A range apart from the one that was written reads what it did. -/
theorem slice_overwrite_of_disjoint (buffer : List α) (start : ℕ) (source : List α)
    (h : start + source.length ≤ buffer.length) (position count : ℕ)
    (hdisjoint : position + count ≤ start ∨ start + source.length ≤ position) :
    slice (overwrite buffer start source) position count = slice buffer position count := by
  have hlength : (buffer.take start).length = start := by
    rw [List.length_take, min_eq_left (by omega)]
  rw [overwrite]
  rcases hdisjoint with hbefore | hafter
  · have htake : buffer.take start = slice buffer 0 start := by simp [slice]
    rw [List.append_assoc, slice_append_left _ _ _ _ (by omega), htake,
      slice_slice _ _ _ _ _ hbefore, Nat.zero_add]
  · obtain ⟨extra, rfl⟩ := Nat.exists_eq_add_of_le hafter
    have hfront : (buffer.take start ++ source).length = start + source.length := by
      rw [List.length_append, hlength]
    have hright := slice_append_right (buffer.take start ++ source)
      (buffer.drop (start + source.length)) extra count
    rw [hfront] at hright
    rw [hright, slice, slice, List.drop_drop]

/-- The buffer after a sequence of copies into it, each a position and the elements copied
there. -/
def writeAll (buffer : List α) (writes : List (ℕ × List α)) : List α :=
  writes.foldl (fun buffer write ↦ overwrite buffer write.1 write.2) buffer

/-- Two copies into a buffer that touch no common element. -/
def Apart (first second : ℕ × List α) : Prop :=
  first.1 + first.2.length ≤ second.1 ∨ second.1 + second.2.length ≤ first.1

/-- A buffer that holds, at each given position, the elements given for it. -/
def Holds (buffer : List α) (writes : List (ℕ × List α)) : Prop :=
  ∀ write ∈ writes, slice buffer write.1 write.2.length = write.2

theorem length_writeAll (buffer : List α) (writes : List (ℕ × List α))
    (hfits : ∀ write ∈ writes, write.1 + write.2.length ≤ buffer.length) :
    (writeAll buffer writes).length = buffer.length := by
  induction writes generalizing buffer with
  | nil => rfl
  | cons write writes ih =>
    have hwrite := length_overwrite buffer write.1 write.2 (hfits write List.mem_cons_self)
    have hrest := ih (overwrite buffer write.1 write.2) fun other hother ↦
      hwrite.symm ▸ hfits other (List.mem_cons_of_mem _ hother)
    exact hrest.trans hwrite

/-- A range apart from all copies reads what it did. -/
theorem slice_writeAll_of_apart (buffer : List α) (writes : List (ℕ × List α))
    (hfits : ∀ write ∈ writes, write.1 + write.2.length ≤ buffer.length) (range : ℕ × List α)
    (hapart : ∀ write ∈ writes, Apart range write) :
    slice (writeAll buffer writes) range.1 range.2.length =
      slice buffer range.1 range.2.length := by
  induction writes generalizing buffer with
  | nil => rfl
  | cons write writes ih =>
    have hwrite := hfits write List.mem_cons_self
    have hlength := length_overwrite buffer write.1 write.2 hwrite
    have hrest := ih (overwrite buffer write.1 write.2)
      (fun other hother ↦ hlength.symm ▸ hfits other (List.mem_cons_of_mem _ hother))
      (fun other hother ↦ hapart other (List.mem_cons_of_mem _ hother))
    refine hrest.trans ?_
    exact slice_overwrite_of_disjoint _ _ _ hwrite _ _ (hapart write List.mem_cons_self)

/-- Copies that are pairwise apart all stay. -/
theorem holds_writeAll (buffer : List α) (writes : List (ℕ × List α))
    (hfits : ∀ write ∈ writes, write.1 + write.2.length ≤ buffer.length)
    (hapart : writes.Pairwise Apart) : Holds (writeAll buffer writes) writes := by
  induction writes generalizing buffer with
  | nil => exact fun write hmem ↦ absurd hmem List.not_mem_nil
  | cons first writes ih =>
    obtain ⟨hfirst, hpairwise⟩ := List.pairwise_cons.mp hapart
    have hwrite := hfits first List.mem_cons_self
    have hlength := length_overwrite buffer first.1 first.2 hwrite
    have hothers : ∀ other ∈ writes,
        other.1 + other.2.length ≤ (overwrite buffer first.1 first.2).length :=
      fun other hother ↦ hlength.symm ▸ hfits other (List.mem_cons_of_mem _ hother)
    intro write hmem
    rcases List.mem_cons.mp hmem with rfl | hlater
    · have hkept := slice_writeAll_of_apart _ writes hothers write hfirst
      refine hkept.trans ?_
      exact slice_overwrite_self buffer write.1 write.2 (by omega)
    · exact ih _ hothers hpairwise write hlater

/-- A buffer from a position on, put together from what its next range reads and the rest. -/
theorem drop_eq_append {buffer part rest : List α} {start : ℕ}
    (hpart : slice buffer start part.length = part)
    (hrest : buffer.drop (start + part.length) = rest) : buffer.drop start = part ++ rest := by
  have hsplit := List.take_append_drop part.length (buffer.drop start)
  rw [List.drop_drop, hrest] at hsplit
  rw [← hsplit]
  exact congrArg (· ++ rest) hpart

end Buffer

/-! ### Numbers as bytes -/

/-- The `width` low bytes of a number, least significant byte first. -/
def leBytes : ℕ → ℕ → List UInt8
  | 0, _ => []
  | width + 1, n => UInt8.ofNat n :: leBytes width (n / 256)

/-- The number whose bytes, least significant first, are given. -/
def leValue : List UInt8 → ℕ
  | [] => 0
  | byte :: rest => byte.toNat + 256 * leValue rest

@[simp] theorem length_leBytes (width n : ℕ) : (leBytes width n).length = width := by
  induction width generalizing n with
  | zero => rfl
  | succ width ih => simp [leBytes, ih]

/-- Bytes read as a number below the power of 256 of their count. -/
theorem leValue_lt (bytes : List UInt8) : leValue bytes < 256 ^ bytes.length := by
  induction bytes with
  | nil => simp [leValue]
  | cons byte rest ih =>
    have hbyte := byte.toNat_lt
    rw [leValue, List.length_cons, Nat.pow_succ]
    omega


/-- Reading back a number that fits in the given number of bytes returns it. -/
theorem leValue_leBytes (width n : ℕ) (h : n < 256 ^ width) : leValue (leBytes width n) = n := by
  induction width generalizing n with
  | zero =>
    rw [pow_zero] at h
    simp only [leBytes, leValue]
    omega
  | succ width ih =>
    have hrest : n / 256 < 256 ^ width := by
      rw [pow_succ] at h
      omega
    simp only [leBytes, leValue, ih _ hrest, UInt8.toNat_ofNat']
    omega

end MyIPNG.Base
