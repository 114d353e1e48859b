import Mathlib.Tactic.Common

/-!
# Tables

What the operations on an ordered map leave under a key: an operation on another key changes
nothing, `insertIfNew` keeps an entry that is there, and erasing a list of keys erases them all.
-/

set_option autoImplicit false
set_option relaxedAutoImplicit false

namespace MyIPNG.Base

section Table

variable {κ β : Type*} {cmp : κ → κ → Ordering} [Std.TransCmp cmp]
  {table : Std.ExtTreeMap κ β cmp} {key other : κ}

/-- What an erasure leaves was there before. -/
theorem getElem?_of_erase {kept : β} (h : (table.erase other)[key]? = some kept) :
    table[key]? = some kept := by
  rw [Std.ExtTreeMap.getElem?_erase] at h
  split_ifs at h
  exact h

variable [Std.LawfulEqCmp cmp]

theorem getElem?_insert_other (hne : other ≠ key) (value : β) :
    (table.insert other value)[key]? = table[key]? := by
  rw [Std.ExtTreeMap.getElem?_insert, if_neg (by simpa using hne)]

theorem getElem?_erase_other (hne : other ≠ key) : (table.erase other)[key]? = table[key]? := by
  rw [Std.ExtTreeMap.getElem?_erase, if_neg (by simpa using hne)]

theorem erase_of_none (h : table[key]? = none) : table.erase key = table := by
  refine Std.ExtTreeMap.ext_getElem? fun other ↦ ?_
  by_cases hequal : key = other
  · rw [← hequal, Std.ExtTreeMap.getElem?_erase_self, h]
  · exact getElem?_erase_other hequal

theorem erase_insert_self (table : Std.ExtTreeMap κ β cmp) (key : κ) (value : β) :
    (table.insert key value).erase key = table.erase key := by
  refine Std.ExtTreeMap.ext_getElem? fun other ↦ ?_
  by_cases hequal : key = other
  · rw [← hequal, Std.ExtTreeMap.getElem?_erase_self, Std.ExtTreeMap.getElem?_erase_self]
  · rw [getElem?_erase_other hequal, getElem?_erase_other hequal, getElem?_insert_other hequal]

theorem getElem?_insertIfNew_other (hne : other ≠ key) (value : β) :
    (table.insertIfNew other value)[key]? = table[key]? := by
  rw [Std.ExtTreeMap.getElem?_insertIfNew, if_neg fun h ↦ hne (by simpa using h.1)]

/-- An entry of the table stays. -/
theorem getElem?_insertIfNew_of_some {kept : β} (h : table[key]? = some kept) (value : β) :
    (table.insertIfNew other value)[key]? = some kept := by
  rw [Std.ExtTreeMap.getElem?_insertIfNew, if_neg, h]
  rintro ⟨hequal, habsent⟩
  have hsame : other = key := by simpa using hequal
  rw [hsame, Std.ExtTreeMap.mem_iff_isSome_getElem?, h] at habsent
  exact habsent rfl

theorem insertIfNew_of_some {kept : β} (h : table[key]? = some kept) (value : β) :
    table.insertIfNew key value = table := by
  refine Std.ExtTreeMap.ext_getElem? fun other ↦ ?_
  by_cases hequal : key = other
  · rw [← hequal, getElem?_insertIfNew_of_some h, h]
  · exact getElem?_insertIfNew_other hequal value

/-- A key without an entry gets the value. -/
theorem getElem?_insertIfNew_of_none (h : table[key]? = none) (value : β) :
    (table.insertIfNew key value)[key]? = some value := by
  rw [Std.ExtTreeMap.getElem?_insertIfNew, if_pos]
  refine ⟨by simp, fun hmem ↦ ?_⟩
  rw [Std.ExtTreeMap.mem_iff_isSome_getElem?, h] at hmem
  exact absurd hmem (by simp)

/-- An entry that was not there is the one that was put there. -/
theorem eq_of_getElem?_insertIfNew {value added : β} (hnew : table[key]? = none)
    (h : (table.insertIfNew other value)[key]? = some added) : other = key ∧ value = added := by
  by_cases hequal : other = key
  · subst hequal
    exact ⟨rfl, Option.some.inj ((getElem?_insertIfNew_of_none hnew value).symm.trans h)⟩
  · rw [getElem?_insertIfNew_other hequal, hnew] at h
    exact absurd h (by simp)

/-- The value of a new key is replaced. -/
theorem insert_insertIfNew_of_none (h : table[key]? = none) (value next : β) :
    (table.insertIfNew key value).insert key next = table.insertIfNew key next := by
  refine Std.ExtTreeMap.ext_getElem? fun other ↦ ?_
  by_cases hequal : key = other
  · rw [← hequal, Std.ExtTreeMap.getElem?_insert_self, getElem?_insertIfNew_of_none h]
  · rw [getElem?_insert_other hequal, getElem?_insertIfNew_other hequal,
      getElem?_insertIfNew_other hequal]

/-- A list of keys is erased. -/
theorem getElem?_foldl_erase [DecidableEq κ] (keys : List κ) (table : Std.ExtTreeMap κ β cmp)
    (key : κ) :
    (keys.foldl (fun table key ↦ table.erase key) table)[key]? =
      if key ∈ keys then none else table[key]? := by
  induction keys generalizing table with
  | nil => simp
  | cons first rest ih =>
    rw [List.foldl_cons, ih]
    by_cases hequal : first = key
    · simp [hequal]
    · rw [getElem?_erase_other hequal]
      simp [Ne.symm hequal]

end Table

end MyIPNG.Base
