import MyIPNG.Base.Bytes
import MyIPNG.Base.SequenceSpace

/-!
# Pieces of a stream in the sequence space

A piece is a list of elements with the sequence number of its first element. Pieces are contiguous
from a start number when each begins where the one before it ended, with numbers that wrap.

A piece belongs to a stream when it reads the stream at its own offset from the start. Contiguous
pieces of a stream shorter than `2 ^ 32` join to a range of the stream (`contiguous_joined`), and
to a prefix when they begin at the start (`contiguous_take`).
-/

set_option autoImplicit false
set_option relaxedAutoImplicit false

namespace MyIPNG.Base

section Pieces

variable {α : Type*}

/-- A piece of a stream: the number of its first element, and its elements. -/
abbrev Piece (α : Type*) := UInt32 × List α

/-- Each piece begins where the one before it ended, the first one at `start`. -/
def Contiguous (start : UInt32) : List (Piece α) → Prop
  | [] => True
  | piece :: rest => piece.1 = start ∧ Contiguous (start + UInt32.ofNat piece.2.length) rest

/-- The elements of the pieces, one piece after the other. -/
def joined (pieces : List (Piece α)) : List α := pieces.flatMap Prod.snd

@[simp] theorem joined_nil : joined ([] : List (Piece α)) = [] := rfl

@[simp] theorem joined_cons (piece : Piece α) (rest : List (Piece α)) :
    joined (piece :: rest) = piece.2 ++ joined rest := rfl

@[simp] theorem joined_append (first second : List (Piece α)) :
    joined (first ++ second) = joined first ++ joined second := List.flatMap_append

/-- Contiguous pieces are extended by a piece that begins at their end. -/
theorem contiguous_snoc {start number : UInt32} {pieces : List (Piece α)} {elements : List α}
    (h : Contiguous start pieces) (hnumber : number = start + UInt32.ofNat (joined pieces).length) :
    Contiguous start (pieces ++ [(number, elements)]) := by
  induction pieces generalizing start with
  | nil => exact ⟨by simpa using hnumber, trivial⟩
  | cons piece rest ih =>
    refine ⟨h.1, ih h.2 ?_⟩
    rw [hnumber, add_ofNat_add, joined_cons, List.length_append]

/-- The number of a piece is the start moved up by the elements of the pieces before it. -/
theorem contiguous_getElem {start : UInt32} {pieces : List (Piece α)} (h : Contiguous start pieces)
    {i : ℕ} (hi : i < pieces.length) :
    pieces[i].1 = start + UInt32.ofNat (joined (pieces.take i)).length := by
  induction pieces generalizing start i with
  | nil => exact absurd hi (Nat.not_lt_zero i)
  | cons piece rest ih =>
    cases i with
    | zero => simpa using h.1
    | succ i =>
      have hrest := ih h.2 (Nat.lt_of_succ_lt_succ hi)
      rw [List.getElem_cons_succ, hrest, List.take_succ_cons, joined_cons, List.length_append,
        add_ofNat_add]

/-- The piece reads the stream at its offset from the start. -/
def IsPieceOf (stream : List α) (start : UInt32) (piece : Piece α) : Prop :=
  piece.2 = slice stream (offset start piece.1) piece.2.length

instance [DecidableEq α] (stream : List α) (start : UInt32) (piece : Piece α) :
    Decidable (IsPieceOf stream start piece) := inferInstanceAs (Decidable (_ = _))

/-- A piece at a position inside the stream ends inside the stream. -/
theorem length_le_of_slice {stream elements : List α} {position : ℕ}
    (h : elements = slice stream position elements.length) (hposition : position ≤ stream.length) :
    position + elements.length ≤ stream.length := by
  have hlength := congrArg List.length h
  simp only [slice, List.length_take, List.length_drop] at hlength
  omega

/-- A piece of a stream that is not empty lies inside the stream. -/
theorem end_le_of_isPieceOf {stream : List α} {start : UInt32} {piece : Piece α}
    (h : IsPieceOf stream start piece) (hpiece : piece.2 ≠ []) :
    offset start piece.1 + piece.2.length ≤ stream.length := by
  have hpos : 0 < piece.2.length := List.length_pos_iff.mpr hpiece
  have hlength := congrArg List.length h
  simp only [slice, List.length_take, List.length_drop] at hlength
  omega

/-- Contiguous pieces of a stream join to a range of it. Assumes: the stream is shorter than the
sequence space, so that a number has one position in it. -/
theorem contiguous_joined {stream : List α} (hshort : stream.length < 2 ^ 32) {start : UInt32}
    {pieces : List (Piece α)} (hpieces : ∀ piece ∈ pieces, IsPieceOf stream start piece)
    {position : ℕ} (hposition : position ≤ stream.length)
    (h : Contiguous (start + UInt32.ofNat position) pieces) :
    joined pieces = slice stream position (joined pieces).length ∧
      position + (joined pieces).length ≤ stream.length := by
  induction pieces generalizing position with
  | nil => exact ⟨by simp [slice], by simpa using hposition⟩
  | cons piece rest ih =>
    obtain ⟨hnumber, hrest⟩ := h
    have hpiece := hpieces piece List.mem_cons_self
    rw [IsPieceOf, hnumber, offset_add start (by omega)] at hpiece
    have hend := length_le_of_slice hpiece hposition
    rw [add_ofNat_add] at hrest
    obtain ⟨hjoined, hlength⟩ :=
      ih (fun other hother ↦ hpieces other (List.mem_cons_of_mem _ hother)) hend hrest
    rw [joined_cons, List.length_append]
    refine ⟨?_, by omega⟩
    calc piece.2 ++ joined rest
        = slice stream position piece.2.length ++
            slice stream (position + piece.2.length) (joined rest).length := by
          rw [← hpiece, ← hjoined]
      _ = slice stream position (piece.2.length + (joined rest).length) :=
          slice_append_slice stream position _ _

/-- Contiguous pieces from the start of a stream join to a prefix of it. -/
theorem contiguous_take {stream : List α} (hshort : stream.length < 2 ^ 32) {start : UInt32}
    {pieces : List (Piece α)} (hpieces : ∀ piece ∈ pieces, IsPieceOf stream start piece)
    (h : Contiguous start pieces) :
    joined pieces = stream.take (joined pieces).length ∧
      (joined pieces).length ≤ stream.length := by
  obtain ⟨hjoined, hlength⟩ := contiguous_joined hshort hpieces (Nat.zero_le _) (by simpa using h)
  exact ⟨by simpa [slice] using hjoined, by omega⟩

end Pieces

end MyIPNG.Base
