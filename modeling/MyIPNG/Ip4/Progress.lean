import MyIPNG.Ip4.RoundTrip

/-!
# The fragmentation loop comes to an end

`use_mtu_size` is an `int`: the size of the packets of the link without the header, rounded down to
a multiple of eight. It is used as a `size_t`, so it behaves in three ways. A negative one is a very
large number, and the whole payload goes into one fragment. One of eight or more is the size of the
fragments. Zero, for packet sizes of 20 to 27, makes fragments without a byte, and the loop does not
move on.

`offsetAt` is `fragment_offset` before each turn of the loop, and `fragmentLoop_eq_none_iff` says
that the loop runs out of fuel exactly when it is still inside of the payload after so many turns.
`fragmentation_ends_iff` says when the loop ends and moves on in every turn whose packet the queue
takes.
-/

set_option autoImplicit false
set_option relaxedAutoImplicit false

namespace MyIPNG.Ip4

open Base Utils

/-! ### The turns of the loop -/

/-- `current_fragment_size`. -/
def currentFragmentSize (mtuSize : ℤ) (plLen fragmentOffset : ℕ) : ℕ :=
  min (useMtuSizeT mtuSize) (plLen - fragmentOffset)

/-- `fragment_offset` before a turn of the loop. Nothing when the loop has been left: the payload
was at its end, or a packet was refused. -/
def offsetAt (accepts : ℕ → Bool) (mtuSize : ℤ) (plLen : ℕ) : ℕ → Option ℕ
  | 0 => some 0
  | turn + 1 => (offsetAt accepts mtuSize plLen turn).bind fun fragmentOffset ↦
    if fragmentOffset < plLen ∧ accepts turn = true then
      some (fragmentOffset + currentFragmentSize mtuSize plLen fragmentOffset)
    else none

/-- The loop ends, and it has moved on in every turn whose packet was taken. -/
def EndsAdvancing (accepts : ℕ → Bool) (mtuSize : ℤ) (datagram : Datagram) : Prop :=
  (∃ turns, fragmentLoop accepts mtuSize datagram turns 0 0 ≠ none) ∧
    ∀ turn fragmentOffset next,
      offsetAt accepts mtuSize datagram.payload.length turn = some fragmentOffset →
      offsetAt accepts mtuSize datagram.payload.length (turn + 1) = some next →
        fragmentOffset < next

section Turns

variable {accepts : ℕ → Bool} {mtuSize : ℤ} {plLen turn fragmentOffset : ℕ}

theorem offsetAt_succ (h : offsetAt accepts mtuSize plLen turn = some fragmentOffset) :
    offsetAt accepts mtuSize plLen (turn + 1) =
      if fragmentOffset < plLen ∧ accepts turn = true then
        some (fragmentOffset + currentFragmentSize mtuSize plLen fragmentOffset)
      else none := by
  rw [offsetAt, h, Option.bind_some]

/-- A loop that has been left is not entered again. -/
theorem offsetAt_of_left (h : offsetAt accepts mtuSize plLen turn = none) (more : ℕ) :
    offsetAt accepts mtuSize plLen (turn + more) = none := by
  induction more with
  | zero => exact h
  | succ more ih => rw [← Nat.add_assoc, offsetAt, ih, Option.bind_none]

/-- The loop runs out of fuel exactly when it is still inside of the payload after so many turns.
Assumes: it stands where it is before its turn `turn`. -/
theorem fragmentLoop_eq_none_iff {datagram : Datagram} {fuel : ℕ}
    (h : offsetAt accepts mtuSize datagram.payload.length turn = some fragmentOffset) :
    fragmentLoop accepts mtuSize datagram fuel turn fragmentOffset = none ↔
      ∃ final, offsetAt accepts mtuSize datagram.payload.length (turn + fuel) = some final ∧
        final < datagram.payload.length := by
  induction fuel generalizing turn fragmentOffset with
  | zero =>
    rw [fragmentLoop, Nat.add_zero, h]
    by_cases hinside : fragmentOffset < datagram.payload.length
    · rw [if_pos hinside]
      exact ⟨fun _ ↦ ⟨fragmentOffset, rfl, hinside⟩, fun _ ↦ rfl⟩
    · rw [if_neg hinside]
      refine ⟨fun hsome ↦ absurd hsome (by simp), ?_⟩
      rintro ⟨final, hfinal, hlt⟩
      rw [Option.some.inj hfinal] at hinside
      exact absurd hlt hinside
  | succ fuel ih =>
    have hnext := offsetAt_succ h
    have hturn : turn + (fuel + 1) = turn + 1 + fuel := by omega
    rw [fragmentLoop, hturn]
    by_cases hinside : fragmentOffset < datagram.payload.length
    · rw [if_pos hinside]
      dsimp only
      by_cases haccepts : accepts turn = true
      · rw [if_pos ⟨hinside, haccepts⟩] at hnext
        rw [if_pos haccepts, Option.map_eq_none_iff]
        exact ih hnext
      · rw [if_neg fun hgoes ↦ haccepts hgoes.2] at hnext
        rw [if_neg haccepts, offsetAt_of_left hnext]
        simp
    · rw [if_neg fun hgoes ↦ hinside hgoes.1] at hnext
      rw [if_neg hinside, offsetAt_of_left hnext]
      simp

/-- A turn with an empty fragment leaves the loop where it is. -/
theorem offsetAt_of_empty (hsize : useMtuSizeT mtuSize = 0)
    (h : offsetAt accepts mtuSize plLen turn = some fragmentOffset)
    (hinside : fragmentOffset < plLen) (haccepts : accepts turn = true) :
    offsetAt accepts mtuSize plLen (turn + 1) = some fragmentOffset := by
  rw [offsetAt_succ h, if_pos ⟨hinside, haccepts⟩, currentFragmentSize, hsize, Nat.zero_min,
    Nat.add_zero]

/-- Every turn of the loop moves on by a byte or more. Assumes: fragments are not empty. -/
theorem offsetAt_advances (hsize : 0 < useMtuSizeT mtuSize) {next : ℕ}
    (h : offsetAt accepts mtuSize plLen turn = some fragmentOffset)
    (hnext : offsetAt accepts mtuSize plLen (turn + 1) = some next) : fragmentOffset < next := by
  rw [offsetAt_succ h] at hnext
  split_ifs at hnext with hgoes
  have hadded := Option.some.inj hnext
  unfold currentFragmentSize at hadded
  omega

/-- After as many turns the loop is at least so far. -/
theorem turn_le_offsetAt (hsize : 0 < useMtuSizeT mtuSize)
    (h : offsetAt accepts mtuSize plLen turn = some fragmentOffset) : turn ≤ fragmentOffset := by
  induction turn generalizing fragmentOffset with
  | zero => exact Nat.zero_le _
  | succ turn ih =>
    cases hbefore : offsetAt accepts mtuSize plLen turn with
    | none => exact absurd ((offsetAt_of_left hbefore 1).symm.trans h) (by simp)
    | some before =>
      have hle := ih hbefore
      have hlt := offsetAt_advances hsize hbefore h
      omega

/-- The loop is left in its first turn. -/
theorem endsAdvancing_of_left {datagram : Datagram}
    (h : offsetAt accepts mtuSize datagram.payload.length 1 = none) :
    EndsAdvancing accepts mtuSize datagram := by
  refine ⟨⟨1, fun hnone ↦ ?_⟩, fun turn fragmentOffset next _ hnext ↦ ?_⟩
  · obtain ⟨final, hfinal, -⟩ := (fragmentLoop_eq_none_iff rfl).mp hnone
    exact absurd (h.symm.trans hfinal) (by simp)
  · rw [Nat.add_comm, offsetAt_of_left h] at hnext
    exact absurd hnext (by simp)

/-- Fragments that are not empty come to the end of the payload. -/
theorem endsAdvancing_of_pos (hsize : 0 < useMtuSizeT mtuSize) (datagram : Datagram) :
    EndsAdvancing accepts mtuSize datagram := by
  refine ⟨⟨datagram.payload.length, fun hnone ↦ ?_⟩, fun _ _ _ ↦ offsetAt_advances hsize⟩
  obtain ⟨final, hfinal, hlt⟩ := (fragmentLoop_eq_none_iff rfl).mp hnone
  have hle := turn_le_offsetAt hsize hfinal
  omega

end Turns

/-! ### The sizes of packets -/

/-- Fragments are empty for the packet sizes that leave room for less than eight bytes. -/
theorem useMtuSizeT_eq_zero_iff (mtuSize : Int32) :
    useMtuSizeT mtuSize.toInt = 0 ↔ 20 ≤ mtuSize.toInt ∧ mtuSize.toInt < 28 := by
  have hlow := Int32.le_toInt mtuSize
  have hhigh := Int32.toInt_lt mtuSize
  unfold useMtuSizeT useMtuSize
  omega

/-- The fragmentation loop ends, and moves on in every turn whose packet the queue of the link
takes, exactly when the packet size leaves room for eight bytes or for no header, or there is
nothing to send, or the first packet is refused. -/
theorem fragmentation_ends_iff (accepts : ℕ → Bool) (mtuSize : Int32) (datagram : Datagram) :
    EndsAdvancing accepts mtuSize.toInt datagram ↔
      mtuSize.toInt < 20 ∨ 28 ≤ mtuSize.toInt ∨ datagram.payload = [] ∨ accepts 0 = false := by
  constructor
  · rintro ⟨-, hadvances⟩
    by_contra hcondition
    simp only [not_or, not_lt, not_le, Bool.not_eq_false] at hcondition
    obtain ⟨hlow, hhigh, hpayload, haccepts⟩ := hcondition
    have hzero := (useMtuSizeT_eq_zero_iff mtuSize).mpr ⟨hlow, hhigh⟩
    have hinside : 0 < datagram.payload.length := List.length_pos_iff.mpr hpayload
    have hnext := offsetAt_of_empty hzero rfl hinside haccepts
    exact absurd (hadvances 0 0 0 rfl hnext) (lt_irrefl 0)
  · intro hcondition
    by_cases hsize : useMtuSizeT mtuSize.toInt = 0
    · obtain ⟨hlow, hhigh⟩ := (useMtuSizeT_eq_zero_iff mtuSize).mp hsize
      refine endsAdvancing_of_left (if_neg ?_)
      rintro ⟨hinside, haccepts⟩
      rcases hcondition with hsmall | hlarge | hempty | hrefused
      · omega
      · omega
      · rw [hempty] at hinside
        exact absurd hinside (by simp)
      · exact absurd (hrefused.symm.trans haccepts) (by simp)
    · exact endsAdvancing_of_pos (Nat.pos_of_ne_zero hsize) datagram

/-- For a packet size of 27 and a queue that takes every packet the loop does not end, whatever the
number of turns. -/
theorem fragmentation_of_27_hangs :
    ¬ ∃ turns, fragmentLoop (fun _ ↦ true) 27 sampleDatagram turns 0 0 ≠ none := by
  have hstays : ∀ turn, offsetAt (fun _ ↦ true) 27 sampleDatagram.payload.length turn = some 0 := by
    intro turn
    induction turn with
    | zero => rfl
    | succ turn ih => exact offsetAt_of_empty (by decide) ih (by decide) rfl
  rintro ⟨turns, hends⟩
  exact hends ((fragmentLoop_eq_none_iff rfl).mpr ⟨0, hstays _, by decide⟩)

end MyIPNG.Ip4
