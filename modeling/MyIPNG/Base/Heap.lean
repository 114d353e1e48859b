import Mathlib.Data.List.Basic
import Mathlib.Tactic.SplitIfs

/-!
# Objects that are made and deleted

A heap is the list of all objects that were ever made, with nothing in the place of those that were
deleted. A pointer is the place of an object, so two objects never have the same pointer, and
reading a pointer gives nothing exactly when the object was deleted or not yet made.
-/

set_option autoImplicit false
set_option relaxedAutoImplicit false

namespace MyIPNG.Base

/-- The objects made so far. -/
structure Heap (α : Type*) where
  objects : List (Option α)

namespace Heap

section Objects

variable {α : Type*}

/-- No object was made. -/
def empty : Heap α := ⟨[]⟩

/-- The pointer of the next object that is made. -/
def next (heap : Heap α) : ℕ := heap.objects.length

/-- The object at a pointer, unless it was deleted. -/
def read (heap : Heap α) (pointer : ℕ) : Option α := heap.objects[pointer]?.join

/-- The heap with one more object. -/
def alloc (heap : Heap α) (object : α) : Heap α := ⟨heap.objects ++ [some object]⟩

/-- The heap with another object at a pointer. -/
def write (heap : Heap α) (pointer : ℕ) (object : α) : Heap α :=
  ⟨heap.objects.set pointer (some object)⟩

/-- The heap without the object at a pointer. -/
def free (heap : Heap α) (pointer : ℕ) : Heap α := ⟨heap.objects.set pointer none⟩

variable {heap : Heap α} {pointer : ℕ} {object : α}

@[simp] theorem read_empty (pointer : ℕ) : (empty : Heap α).read pointer = none := rfl

@[simp] theorem next_empty : (empty : Heap α).next = 0 := rfl

@[simp] theorem next_alloc (heap : Heap α) (object : α) :
    (heap.alloc object).next = heap.next + 1 := by
  simp [next, alloc]

@[simp] theorem next_write (heap : Heap α) (pointer : ℕ) (object : α) :
    (heap.write pointer object).next = heap.next := by
  simp [next, write]

@[simp] theorem next_free (heap : Heap α) (pointer : ℕ) :
    (heap.free pointer).next = heap.next := by
  simp [next, free]

/-- An object that can be read was made. -/
theorem lt_next (h : heap.read pointer = some object) : pointer < heap.next := by
  by_contra hge
  rw [read, List.getElem?_eq_none (Nat.le_of_not_lt hge)] at h
  exact absurd h (by simp)

theorem read_alloc (heap : Heap α) (object : α) (other : ℕ) :
    (heap.alloc object).read other =
      if other = heap.next then some object else heap.read other := by
  unfold read alloc next
  dsimp only
  split_ifs with hequal
  · rw [hequal, List.getElem?_concat_length]
    rfl
  · rcases Nat.lt_or_gt_of_ne hequal with hbefore | hbehind
    · rw [List.getElem?_append_left hbefore]
    · rw [List.getElem?_eq_none (by simp; omega), List.getElem?_eq_none (by omega)]

theorem read_write (h : heap.read pointer = some object) (changed : α) (other : ℕ) :
    (heap.write pointer changed).read other =
      if other = pointer then some changed else heap.read other := by
  have hmade := lt_next h
  unfold read write
  dsimp only
  split_ifs with hequal
  · rw [hequal, List.getElem?_set_self hmade]
    rfl
  · rw [List.getElem?_set_ne (Ne.symm hequal)]

theorem read_free (heap : Heap α) (pointer other : ℕ) :
    (heap.free pointer).read other = if other = pointer then none else heap.read other := by
  unfold read free
  dsimp only
  split_ifs with hequal
  · rw [hequal, List.getElem?_set_self']
    cases heap.objects[pointer]? with
    | none => rfl
    | some object => rfl
  · rw [List.getElem?_set_ne (Ne.symm hequal)]

end Objects

end Heap

end MyIPNG.Base
