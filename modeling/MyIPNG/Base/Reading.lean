import Mathlib.Data.List.Basic
import Mathlib.Tactic.SplitIfs

/-!
# Computations that read memory by index

A computation that takes its inputs from memory, one cell at a time, with a log of the indices that
it has read. `Below n` says that all of them are below `n`: a buffer of `n` cells is not read behind
its end. The lemmas push it through the steps of a computation.
-/

set_option autoImplicit false
set_option relaxedAutoImplicit false

namespace MyIPNG.Base

universe u

variable {α β : Type u} {n : ℕ}

/-- The indices that were read, in order, and the result. -/
structure Reading (α : Type u) where
  reads : List ℕ
  value : α

namespace Reading

instance : Monad Reading where
  pure a := ⟨[], a⟩
  bind x f := ⟨x.reads ++ (f x.value).reads, (f x.value).value⟩

/-- One cell. -/
def cell (memory : ℕ → α) (index : ℕ) : Reading α := ⟨[index], memory index⟩

/-- A block of cells. -/
def block (memory : ℕ → α) (start count : ℕ) : Reading (List α) :=
  ⟨List.range' start count, (List.range' start count).map memory⟩

/-- A loop, and what its turns give one behind the other. -/
def each {ι : Type*} (turns : List ι) (body : ι → Reading (List α)) : Reading (List α) :=
  ⟨turns.flatMap fun turn ↦ (body turn).reads, turns.flatMap fun turn ↦ (body turn).value⟩

/-- Memory that starts with the given cells. -/
def memoryOf (cells : List α) (behind : ℕ → α) (index : ℕ) : α := cells.getD index (behind index)

/-- Every index that was read is below `n`. -/
def Below (n : ℕ) (x : Reading α) : Prop := ∀ index ∈ x.reads, index < n

instance (n : ℕ) (x : Reading α) : Decidable (x.Below n) :=
  inferInstanceAs (Decidable (∀ index ∈ x.reads, index < n))

@[simp] theorem value_pure (a : α) : (pure a : Reading α).value = a := rfl

@[simp] theorem value_bind (x : Reading α) (f : α → Reading β) :
    (x >>= f).value = (f x.value).value := rfl

@[simp] theorem value_cell (memory : ℕ → α) (index : ℕ) :
    (cell memory index).value = memory index := rfl

@[simp] theorem value_block (memory : ℕ → α) (start count : ℕ) :
    (block memory start count).value = (List.range' start count).map memory := rfl

@[simp] theorem value_each {ι : Type*} (turns : List ι) (body : ι → Reading (List α)) :
    (each turns body).value = turns.flatMap fun turn ↦ (body turn).value := rfl

@[simp] theorem below_pure (n : ℕ) (a : α) : (pure a : Reading α).Below n :=
  fun _ hmem ↦ absurd hmem List.not_mem_nil

@[simp] theorem below_bind (x : Reading α) (f : α → Reading β) :
    (x >>= f).Below n ↔ x.Below n ∧ (f x.value).Below n := by
  simp only [Below, bind, List.mem_append, or_imp, forall_and]

@[simp] theorem below_cell (memory : ℕ → α) (index : ℕ) :
    (cell memory index).Below n ↔ index < n := by
  simp [Below, cell]

@[simp] theorem below_block (memory : ℕ → α) (start count : ℕ) :
    (block memory start count).Below n ↔ count = 0 ∨ start + count ≤ n := by
  simp only [Below, block, List.mem_range'_1]
  constructor
  · intro h
    by_contra hnot
    have hlast := h (start + count - 1) (by omega)
    omega
  · rintro h index ⟨hlow, hhigh⟩
    omega

@[simp] theorem below_each {ι : Type*} (turns : List ι) (body : ι → Reading (List α)) :
    (each turns body).Below n ↔ ∀ turn ∈ turns, (body turn).Below n := by
  simp only [Below, each, List.mem_flatMap]
  constructor
  · intro h turn hturn index hindex
    exact h index ⟨turn, hturn, hindex⟩
  · rintro h index ⟨turn, hturn, hindex⟩
    exact h turn hturn index hindex

/-- Inside of the cells the memory is the cells. -/
theorem memoryOf_getElem {cells : List α} {index : ℕ} (h : index < cells.length)
    (behind : ℕ → α) : memoryOf cells behind index = cells[index] := by
  rw [memoryOf, List.getD_eq_getElem?_getD, List.getElem?_eq_getElem h, Option.getD_some]

/-- Inside of the cells it does not matter what stands for a missing one. -/
theorem memoryOf_of_lt {cells : List α} {index : ℕ} (h : index < cells.length) (behind : ℕ → α)
    (missing : α) : memoryOf cells behind index = cells.getD index missing := by
  rw [memoryOf_getElem h, List.getD_eq_getElem?_getD, List.getElem?_eq_getElem h, Option.getD_some]

/-- A block inside of the cells is a range of them. -/
theorem value_block_memoryOf {cells : List α} {start count : ℕ}
    (h : start + count ≤ cells.length) (behind : ℕ → α) :
    (block (memoryOf cells behind) start count).value = (cells.drop start).take count := by
  refine List.ext_getElem (by simp; omega) fun index hleft hright ↦ ?_
  have hindex : index < count := by simpa using hleft
  simp only [value_block, List.getElem_map, List.getElem_range', Nat.one_mul, List.getElem_take,
    List.getElem_drop]
  exact memoryOf_getElem (by omega) behind

end Reading

end MyIPNG.Base
