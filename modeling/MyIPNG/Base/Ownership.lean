import MyIPNG.Base.Heap

/-!
# Uses, deletions and owners of objects

A program that works on a heap leaves a trace of accesses: it uses objects and it deletes them.
`Safe` says that a trace never touches an object that it has deleted. `Effect` relates two heaps and
the trace between them; effects compose (`Effect.trans`), so a run is safe when each of its steps
has an effect.

`Owned` is the invariant that gives the steps their effects: every place that may hold a pointer
holds a pointer to an object that is there, and no two places hold the same one. A place that gives
its object to another place keeps it (`Owned.rename`), one that deletes its object holds nothing
afterwards (`Owned.free`).
-/

set_option autoImplicit false
set_option relaxedAutoImplicit false

namespace MyIPNG.Base

/-- What a program does to an object. -/
inductive Access
  | use (pointer : ℕ)
  | delete (pointer : ℕ)
deriving DecidableEq, Repr

/-- The object of an access. -/
def Access.pointer : Access → ℕ
  | .use pointer => pointer
  | .delete pointer => pointer

/-- No object is touched behind its deletion: neither used nor deleted again. -/
def Safe (trace : List Access) : Prop :=
  trace.Pairwise fun earlier later ↦ ∀ pointer, earlier = .delete pointer →
    later ≠ .use pointer ∧ later ≠ .delete pointer

namespace Heap

/-- The object was made and deleted. -/
def Dead {α : Type*} (heap : Heap α) (pointer : ℕ) : Prop :=
  pointer < heap.next ∧ heap.read pointer = none

end Heap

/-! ### Effects -/

section Effects

variable {α : Type*} {heap middle after : Heap α} {pointer : ℕ} {object : α}

/-- A trace from one heap to another: it touches no dead object, what is dead stays dead, what it
deletes is dead, and it is safe. -/
structure Effect (heap after : Heap α) (trace : List Access) : Prop where
  touched : ∀ access ∈ trace, ¬ heap.Dead access.pointer
  dead : ∀ pointer, heap.Dead pointer → after.Dead pointer
  gone : ∀ pointer, .delete pointer ∈ trace → after.Dead pointer
  safe : Safe trace

theorem Effect.refl (heap : Heap α) : Effect heap heap [] :=
  ⟨by simp, fun _ hdead ↦ hdead, by simp, List.Pairwise.nil⟩

/-- Effects compose. -/
theorem Effect.trans {first second : List Access} (h : Effect heap middle first)
    (h' : Effect middle after second) : Effect heap after (first ++ second) := by
  refine ⟨fun access haccess ↦ ?_, fun pointer hdead ↦ h'.dead _ (h.dead _ hdead),
    fun pointer hdelete ↦ ?_, List.pairwise_append.mpr ⟨h.safe, h'.safe, ?_⟩⟩
  · rcases List.mem_append.mp haccess with hfirst | hsecond
    · exact h.touched access hfirst
    · exact fun hdead ↦ h'.touched access hsecond (h.dead _ hdead)
  · rcases List.mem_append.mp hdelete with hfirst | hsecond
    · exact h'.dead _ (h.gone _ hfirst)
    · exact h'.gone _ hsecond
  · rintro _ hearlier later hlater pointer rfl
    have huntouched := h'.touched later hlater
    constructor
    · rintro rfl
      exact huntouched (h.gone pointer hearlier)
    · rintro rfl
      exact huntouched (h.gone pointer hearlier)

/-- An object that can be read is not dead. -/
theorem not_dead (h : heap.read pointer = some object) : ¬ heap.Dead pointer := by
  rintro ⟨-, hnone⟩
  rw [h] at hnone
  exact absurd hnone (by simp)

theorem safe_use (pointer : ℕ) : Safe [.use pointer] := List.pairwise_singleton _ _

/-- The object is read. -/
theorem effect_read (h : heap.read pointer = some object) : Effect heap heap [.use pointer] := by
  refine ⟨?_, fun _ hdead ↦ hdead, by simp, safe_use pointer⟩
  intro access haccess
  rw [List.mem_singleton.mp haccess]
  exact not_dead h

/-- The object is read and written. -/
theorem effect_write (h : heap.read pointer = some object) (changed : α) :
    Effect heap (heap.write pointer changed) [.use pointer] := by
  refine ⟨(effect_read h).touched, ?_, by simp, safe_use pointer⟩
  rintro other ⟨hmade, hnone⟩
  refine ⟨by rwa [Heap.next_write], ?_⟩
  rw [Heap.read_write h]
  split_ifs with hequal
  · rw [hequal, h] at hnone
    exact absurd hnone (by simp)
  · exact hnone

/-- An object is made and set up. -/
theorem effect_alloc (heap : Heap α) (object : α) :
    Effect heap (heap.alloc object) [.use heap.next] := by
  refine ⟨?_, ?_, by simp, safe_use heap.next⟩
  · intro access haccess hdead
    rw [List.mem_singleton.mp haccess] at hdead
    exact absurd hdead.1 (Nat.lt_irrefl _)
  · rintro other ⟨hmade, hnone⟩
    refine ⟨by rw [Heap.next_alloc]; omega, ?_⟩
    rw [Heap.read_alloc, if_neg (by omega)]
    exact hnone

/-- The object is deleted. -/
theorem effect_free (h : heap.read pointer = some object) :
    Effect heap (heap.free pointer) [.delete pointer] := by
  have hmade := Heap.lt_next h
  have hdead : (heap.free pointer).Dead pointer :=
    ⟨by rwa [Heap.next_free], by rw [Heap.read_free, if_pos rfl]⟩
  refine ⟨?_, ?_, ?_, List.pairwise_singleton _ _⟩
  · intro access haccess
    rw [List.mem_singleton.mp haccess]
    exact not_dead h
  · rintro other ⟨hother, hnone⟩
    refine ⟨by rwa [Heap.next_free], ?_⟩
    rw [Heap.read_free]
    split_ifs
    · rfl
    · exact hnone
  · intro other hother
    obtain rfl : other = pointer := by simpa using hother
    exact hdead

end Effects

/-! ### Owners -/

section Owners

variable {α ω : Type*} {heap : Heap α} {owns : ω → Option ℕ} {pointer : ℕ}

/-- Every owner has an object that is there, and no two owners have the same one. -/
structure Owned (heap : Heap α) (owns : ω → Option ℕ) : Prop where
  live : ∀ owner pointer, owns owner = some pointer → ∃ object, heap.read pointer = some object
  unique : ∀ owner other pointer, owns owner = some pointer → owns other = some pointer →
    owner = other

/-- Objects that are given to other owners, or to none. Assumes: what an owner has afterwards is
what its source had before, and no two owners have the same source. -/
theorem Owned.rename (h : Owned heap owns) {owns' : ω → Option ℕ} (source : ω → ω)
    (hsource : ∀ owner pointer, owns' owner = some pointer → owns (source owner) = some pointer)
    (hinjective : ∀ owner other pointer, owns' owner = some pointer → owns' other = some pointer →
      source owner = source other → owner = other) :
    Owned heap owns' := by
  refine ⟨fun owner pointer howns ↦ h.live _ _ (hsource owner pointer howns), ?_⟩
  intro owner other pointer howner hother
  exact hinjective owner other pointer howner hother
    (h.unique _ _ pointer (hsource owner pointer howner) (hsource other pointer hother))

/-- Objects that no owner has any more. -/
theorem Owned.subset (h : Owned heap owns) {owns' : ω → Option ℕ}
    (hsubset : ∀ owner pointer, owns' owner = some pointer → owns owner = some pointer) :
    Owned heap owns' :=
  h.rename id hsubset fun _ _ _ _ _ hequal ↦ hequal

/-- An owner gives its object to another one. Assumes: the giver holds nothing afterwards, and the
other owners keep what they have. -/
theorem Owned.give [DecidableEq ω] (h : Owned heap owns) {owns' : ω → Option ℕ} (giver taker : ω)
    (hgiver : owns giver = some pointer) (hnone : owns' giver = none)
    (htaker : owns' taker = some pointer)
    (hothers : ∀ owner pointer, owner ≠ taker → owns' owner = some pointer →
      owns owner = some pointer) :
    Owned heap owns' := by
  refine h.rename (fun owner ↦ if owner = taker then giver else owner) ?_ ?_
  · intro owner kept howns
    split_ifs with howner
    · rw [howner, htaker] at howns
      rw [hgiver, howns]
    · exact hothers owner kept howner howns
  · intro owner other kept howner hother hsource
    split_ifs at hsource with hfirst hsecond hsecond
    · rw [hfirst, hsecond]
    · rw [← hsource, hnone] at hother
      exact absurd hother (by simp)
    · rw [hsource, hnone] at howner
      exact absurd howner (by simp)
    · exact hsource

/-- An owner's object is written. -/
theorem Owned.write (h : Owned heap owns) {object : α} (hread : heap.read pointer = some object)
    (changed : α) : Owned (heap.write pointer changed) owns := by
  refine ⟨fun owner other howns ↦ ?_, h.unique⟩
  rw [Heap.read_write hread]
  split_ifs
  · exact ⟨changed, rfl⟩
  · exact h.live owner other howns

/-- An object is made for an owner. Assumes: the other owners keep what they have. -/
theorem Owned.alloc (h : Owned heap owns) (object : α) {owns' : ω → Option ℕ} (maker : ω)
    (hmaker : owns' maker = some heap.next)
    (hothers : ∀ owner pointer, owner ≠ maker → owns' owner = some pointer →
      owns owner = some pointer) :
    Owned (heap.alloc object) owns' := by
  have hold : ∀ owner pointer, owner ≠ maker → owns' owner = some pointer →
      pointer < heap.next := by
    intro owner pointer hother howns
    obtain ⟨found, hfound⟩ := h.live owner pointer (hothers owner pointer hother howns)
    exact Heap.lt_next hfound
  refine ⟨fun owner pointer howns ↦ ?_, fun owner other pointer howner hother ↦ ?_⟩
  · rw [Heap.read_alloc]
    by_cases hself : owner = maker
    · rw [hself, hmaker] at howns
      rw [if_pos (Option.some.inj howns).symm]
      exact ⟨object, rfl⟩
    · have hlt := hold owner pointer hself howns
      rw [if_neg (by omega)]
      exact h.live owner pointer (hothers owner pointer hself howns)
  · by_cases hself : owner = maker
    · by_cases hself' : other = maker
      · rw [hself, hself']
      · rw [hself, hmaker] at howner
        have hlt := hold other pointer hself' hother
        rw [← Option.some.inj howner] at hlt
        exact absurd hlt (Nat.lt_irrefl _)
    · by_cases hself' : other = maker
      · rw [hself', hmaker] at hother
        have hlt := hold owner pointer hself howner
        rw [← Option.some.inj hother] at hlt
        exact absurd hlt (Nat.lt_irrefl _)
      · exact h.unique owner other pointer (hothers owner pointer hself howner)
          (hothers other pointer hself' hother)

/-- An owner deletes its object. Assumes: it holds nothing afterwards, and the other owners keep
what they have. -/
theorem Owned.free (h : Owned heap owns) {owns' : ω → Option ℕ} (owner : ω)
    (howner : owns owner = some pointer) (hnone : owns' owner = none)
    (hothers : ∀ other pointer, owns' other = some pointer → owns other = some pointer) :
    Owned (heap.free pointer) owns' := by
  have hkept := h.subset hothers
  refine ⟨fun other kept hkeeps ↦ ?_, hkept.unique⟩
  have hne : kept ≠ pointer := by
    rintro rfl
    have hsame := h.unique owner other kept howner (hothers other kept hkeeps)
    rw [← hsame, hnone] at hkeeps
    exact absurd hkeeps (by simp)
  rw [Heap.read_free, if_neg hne]
  exact hkept.live other kept hkeeps

end Owners

end MyIPNG.Base
