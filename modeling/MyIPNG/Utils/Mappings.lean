import MyIPNG.Utils.Address

/-!
# The mappings of a configuration

The section `mappings` of a configuration file says which server gets what: an Ethernet type, an IP
protocol or a port stands for the name of a server. Three loops read it, `load_mappings_single` and
`load_mappings_duo` of `common.cpp` and `load_mappings` of `ip4_server.cpp`. They differ in the base
of the numbers, in their width, and in whether there is a table from names to numbers too.

A table is the list of its entries in the order in which they were inserted. `std::map::insert`
keeps an entry that is there, and so does `List.lookup`, which finds the first one. The numbers are
an `int` that is cut to the width of the key, so two keys of the file can be one number
(`lookup_names_iff`).
-/

set_option autoImplicit false
set_option relaxedAutoImplicit false

namespace MyIPNG.Utils

/-! ### The loops -/

/-- The two tables. -/
structure Mappings (κ : Type) where
  mappingsIn : List (κ × List UInt8)
  mappingsOut : List (List UInt8 × κ)
deriving DecidableEq, Repr

/-- The loop over the keys of the section and their values. Nothing when the program ends: a value
is empty, or a key is no number or no `int`. -/
def loadMappings {κ : Type} (base : ℕ) (cut : ℤ → κ) :
    List (List UInt8 × List UInt8) → Mappings κ → Option (Mappings κ)
  | [], mappings => some mappings
  | (key, v) :: rest, mappings =>
    if v = [] then none
    else
      match stoi base key with
      | .value k => loadMappings base cut rest
          ⟨mappings.mappingsIn ++ [(cut k, v)], mappings.mappingsOut ++ [(v, cut k)]⟩
      | .invalidArgument => none
      | .outOfRange => none

/-- `load_mappings_single`: decimal ports. -/
def loadMappingsSingle (entries : List (List UInt8 × List UInt8)) :
    Option (List (UInt16 × List UInt8)) :=
  (loadMappings 10 UInt16.ofInt entries ⟨[], []⟩).map Mappings.mappingsIn

/-- `load_mappings_duo`: Ethernet types in base 16. -/
def loadMappingsDuo (entries : List (List UInt8 × List UInt8)) : Option (Mappings UInt16) :=
  loadMappings 16 UInt16.ofInt entries ⟨[], []⟩

/-- `load_mappings` of the IP server: decimal protocols. -/
def loadMappingsIp4 (entries : List (List UInt8 × List UInt8)) : Option (Mappings UInt8) :=
  loadMappings 10 UInt8.ofInt entries ⟨[], []⟩

/-! ### What is found in the tables -/

section Lookup

variable {κ : Type} {base : ℕ} {cut : ℤ → κ}

/-- The two tables have the same entries. -/
theorem mappingsOut_eq {entries : List (List UInt8 × List UInt8)} {mappings loaded : Mappings κ}
    (h : loadMappings base cut entries mappings = some loaded)
    (hstart : mappings.mappingsOut = mappings.mappingsIn.map Prod.swap) :
    loaded.mappingsOut = loaded.mappingsIn.map Prod.swap := by
  induction entries generalizing mappings with
  | nil =>
    obtain rfl := Option.some.inj h
    exact hstart
  | cons entry rest ih =>
    obtain ⟨key, v⟩ := entry
    rw [loadMappings] at h
    split_ifs at h with hempty
    cases hread : stoi base key with
    | value k =>
      rw [hread] at h
      refine ih h ?_
      rw [List.map_append, hstart]
      rfl
    | invalidArgument => simp [hread] at h
    | outOfRange => simp [hread] at h

variable [DecidableEq κ]

/-- The number of a name leads back to the name when no entry in front of the first one with the
name has the number, and only then. -/
theorem lookup_swap_iff {table : List (κ × List UInt8)} {v : List UInt8} {k : κ}
    (h : (table.map Prod.swap).lookup v = some k) :
    ∃ front back, table = front ++ (k, v) :: back ∧ (∀ entry ∈ front, entry.2 ≠ v) ∧
      (table.lookup k = some v ↔ ∀ entry ∈ front, entry.1 ≠ k) := by
  induction table with
  | nil => simp at h
  | cons entry rest ih =>
    obtain ⟨number, name⟩ := entry
    rw [List.map_cons, Prod.swap_prod_mk, List.lookup_cons] at h
    by_cases hname : v = name
    · subst hname
      simp only [beq_self_eq_true, Option.some.injEq] at h
      subst h
      exact ⟨[], rest, rfl, List.forall_mem_nil _, by simp⟩
    · rw [beq_false_of_ne hname] at h
      obtain ⟨front, back, rfl, hnames, hiff⟩ := ih h
      refine ⟨(number, name) :: front, back, rfl, List.forall_mem_cons.mpr ⟨Ne.symm hname, hnames⟩,
        ?_⟩
      rw [List.lookup_cons, List.forall_mem_cons]
      by_cases hnumber : k = number
      · simp [hnumber, Ne.symm hname]
      · simp [beq_false_of_ne hnumber, hiff, Ne.symm hnumber]

/-- What a section that loads maps there and back. For the first entry with a name, the number that
the server's packets are sent with leads back to the server, unless an entry in front of it has the
same number after the cut. -/
theorem lookup_names_iff {entries : List (List UInt8 × List UInt8)} {mappings : Mappings κ}
    (h : loadMappings base cut entries ⟨[], []⟩ = some mappings) {v : List UInt8} {k : κ}
    (hout : mappings.mappingsOut.lookup v = some k) :
    ∃ front back, mappings.mappingsIn = front ++ (k, v) :: back ∧
      (∀ entry ∈ front, entry.2 ≠ v) ∧
      (mappings.mappingsIn.lookup k = some v ↔ ∀ entry ∈ front, entry.1 ≠ k) := by
  rw [mappingsOut_eq h rfl] at hout
  exact lookup_swap_iff hout

/-- Two keys of the file that are one Ethernet type. -/
example : (loadMappingsDuo [(ascii "0x10800", ascii "ip4"), (ascii "0x0800", ascii "other")]).map
    (fun mappings ↦ mappings.mappingsIn.lookup 0x0800) = some (some (ascii "ip4")) := by
  decide +kernel

end Lookup

end MyIPNG.Utils
