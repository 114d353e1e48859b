import Mathlib.Data.List.Basic

/-!
# Texts

A `std::string` is the list of its bytes. `split` of `utils/str.cpp` cuts a text at the occurrences
of a splitter, from left to right. Its loop does not come to an end for an empty splitter, so a
splitter is a text that is not empty; every call in the sources has one.
-/

set_option autoImplicit false
set_option relaxedAutoImplicit false

namespace MyIPNG.Utils

/-- The bytes of a text of the sources. -/
def ascii (text : String) : List UInt8 := text.toList.map fun c ↦ UInt8.ofNat c.toNat

/-- `std::string::find`: the first position at which a pattern stands. -/
def find (pattern : List UInt8) : List UInt8 → Option ℕ
  | [] => if pattern = [] then some 0 else none
  | c :: rest =>
    if pattern <+: c :: rest then some 0 else (find pattern rest).map (· + 1)

/-- A pattern that is found ends inside the text. -/
theorem find_le {pattern input : List UInt8} {pos : ℕ} (h : find pattern input = some pos) :
    pos + pattern.length ≤ input.length := by
  induction input generalizing pos with
  | nil =>
    rw [find] at h
    split_ifs at h with hempty
    simp [hempty, ← Option.some.inj h]
  | cons c rest ih =>
    rw [find] at h
    split_ifs at h with hhere
    · rw [← Option.some.inj h, Nat.zero_add]
      exact hhere.length_le
    · obtain ⟨pos', hpos', rfl⟩ := Option.map_eq_some_iff.mp h
      have hle := ih hpos'
      rw [List.length_cons]
      omega

/-- A text that is shorter than the pattern does not have it. -/
theorem find_of_length_lt {pattern input : List UInt8} (h : input.length < pattern.length) :
    find pattern input = none := by
  refine Option.eq_none_iff_forall_ne_some.mpr fun pos hpos ↦ ?_
  have hle := find_le hpos
  omega

/-- A pattern is found in the beginning of a text when that has all of it, and only then. -/
theorem find_take {pattern input : List UInt8} {pos : ℕ} (h : find pattern input = some pos)
    (hpattern : pattern ≠ []) (count : ℕ) :
    find pattern (input.take count) = if pos + pattern.length ≤ count then some pos else none := by
  have hlength : 0 < pattern.length := List.length_pos_iff.mpr hpattern
  induction input generalizing pos count with
  | nil =>
    rw [find, if_neg hpattern] at h
    exact absurd h (by simp)
  | cons c rest ih =>
    cases count with
    | zero =>
      rw [List.take_zero, if_neg (by omega)]
      exact find_of_length_lt hlength
    | succ count =>
      have hbeginning : pattern <+: c :: rest.take count ↔
          pattern <+: c :: rest ∧ pattern.length ≤ count + 1 := by
        rw [← List.take_succ_cons, List.prefix_take_iff]
      rw [find] at h
      rw [List.take_succ_cons]
      split_ifs at h with hhere
      · obtain rfl : 0 = pos := Option.some.inj h
        by_cases hlong : pattern.length ≤ count + 1
        · rw [find, if_pos (hbeginning.mpr ⟨hhere, hlong⟩), if_pos (by omega)]
        · rw [if_neg (by omega)]
          refine find_of_length_lt ?_
          rw [List.length_cons, List.length_take]
          omega
      · obtain ⟨pos', hpos', rfl⟩ := Option.map_eq_some_iff.mp h
        rw [find, if_neg fun hother ↦ hhere (hbeginning.mp hother).1, ih hpos']
        by_cases hlong : pos' + pattern.length ≤ count
        · rw [if_pos hlong, if_pos (by omega)]
          rfl
        · rw [if_neg hlong, if_neg (by omega)]
          rfl

/-- A text that another one can be cut at. -/
structure Splitter where
  text : List UInt8
  nonempty : text ≠ []
deriving DecidableEq, Repr

theorem ascii_equals_nonempty : ascii "=" ≠ [] := by decide

theorem ascii_dot_nonempty : ascii "." ≠ [] := by decide

theorem ascii_colon_nonempty : ascii ":" ≠ [] := by decide

theorem ascii_newline_nonempty : ascii "\n" ≠ [] := by decide

/-- `split`. -/
def split (input : List UInt8) (splitter : Splitter) : List (List UInt8) :=
  match _found : find splitter.text input with
  | none => if 0 < input.length then [input] else []
  | some pos =>
    let before := input.take pos
    let bytesLeft := input.length - (pos + splitter.text.length)
    if bytesLeft = 0 then [before, []]
    else before :: split (input.drop (pos + splitter.text.length)) splitter
termination_by input.length
decreasing_by
  have hlength := List.length_pos_iff.mpr splitter.nonempty
  have hend := find_le _found
  rw [List.length_drop]
  omega

/-! ### Cutting at a single byte -/

section SingleByte

variable {c : UInt8} {before : List UInt8}

theorem find_absent (h : c ∉ before) : find [c] before = none := by
  induction before with
  | nil => rfl
  | cons d rest ih =>
    obtain ⟨hne, hrest⟩ : c ≠ d ∧ c ∉ rest := by simpa using h
    rw [find, if_neg (by simp [hne]), ih hrest]
    rfl

theorem find_first (h : c ∉ before) (behind : List UInt8) :
    find [c] (before ++ c :: behind) = some before.length := by
  induction before with
  | nil =>
    rw [List.nil_append, find, if_pos (by simp)]
    rfl
  | cons d rest ih =>
    obtain ⟨hne, hrest⟩ : c ≠ d ∧ c ∉ rest := by simpa using h
    rw [List.cons_append, find, if_neg (by simp [hne]), ih hrest]
    rfl

/-- A text without the splitter is its only part. -/
theorem split_absent (h : c ∉ before) (hnonempty : before ≠ []) (hc : [c] ≠ []) :
    split before ⟨[c], hc⟩ = [before] := by
  rw [split]
  split
  · exact if_pos (List.length_pos_iff.mpr hnonempty)
  · next pos hfound =>
    rw [find_absent h] at hfound
    exact absurd hfound (by simp)

/-- The part before the first splitter, and the parts of what is behind it. -/
theorem split_first (h : c ∉ before) {behind : List UInt8} (hnonempty : behind ≠ [])
    (hc : [c] ≠ []) :
    split (before ++ c :: behind) ⟨[c], hc⟩ = before :: split behind ⟨[c], hc⟩ := by
  have hlength := List.length_pos_iff.mpr hnonempty
  rw [split]
  split
  · next hfound =>
    rw [find_first h] at hfound
    exact absurd hfound (by simp)
  · next pos hfound =>
    rw [find_first h] at hfound
    obtain rfl := Option.some.inj hfound
    rw [if_neg (by simp; omega), List.take_left]
    congr 2
    rw [← List.drop_drop, List.drop_left]
    rfl

/-- A pattern is found behind a text that its first byte does not occur in. -/
theorem find_behind (h : c ∉ before) (rest behind : List UInt8) :
    find (c :: rest) (before ++ (c :: rest ++ behind)) = some before.length := by
  induction before with
  | nil =>
    rw [List.nil_append, List.cons_append, find, if_pos]
    · rfl
    · exact List.prefix_append (c :: rest) behind
  | cons d before ih =>
    obtain ⟨hne, hbefore⟩ : c ≠ d ∧ c ∉ before := by simpa using h
    rw [List.cons_append, find, if_neg (by simp [hne]), ih hbefore]
    rfl

/-- Parts that were joined by a byte that none of them has are cut apart again. -/
theorem split_intercalate (hc : [c] ≠ []) {parts : List (List UInt8)} (hparts : parts ≠ [])
    (hnonempty : ∀ part ∈ parts, part ≠ []) (habsent : ∀ part ∈ parts, c ∉ part) :
    split ([c].intercalate parts) ⟨[c], hc⟩ = parts := by
  induction parts with
  | nil => exact absurd rfl hparts
  | cons part rest ih =>
    have hpart := habsent part List.mem_cons_self
    cases rest with
    | nil =>
      rw [List.intercalate_singleton]
      exact split_absent hpart (hnonempty part List.mem_cons_self) hc
    | cons next rest =>
      have hnext := hnonempty next (List.mem_cons_of_mem _ List.mem_cons_self)
      have hrest := ih (List.cons_ne_nil _ _)
        (fun other hother ↦ hnonempty other (List.mem_cons_of_mem _ hother))
        (fun other hother ↦ habsent other (List.mem_cons_of_mem _ hother))
      have hbehind : [c].intercalate (next :: rest) ≠ [] := by
        intro hempty
        cases rest with
        | nil => exact hnext (by rwa [List.intercalate_singleton] at hempty)
        | cons last rest => simp [List.intercalate_cons_cons, hnext] at hempty
      rw [List.intercalate_cons_cons, List.append_assoc, List.singleton_append,
        split_first hpart hbehind hc, hrest]

end SingleByte

end MyIPNG.Utils
