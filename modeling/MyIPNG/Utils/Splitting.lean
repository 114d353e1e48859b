import MyIPNG.Utils.Str

/-!
# Cutting and joining

What `split` of `utils/str.cpp` makes of a text, for every text and every splitter that is not
empty. `find` gives the first occurrence (`eq_of_find`, `find_eq_none_iff`), so a turn of the loop
takes a part that does not have the splitter and goes on behind the splitter, and the parts joined
by the splitter are the text. The turns that find a splitter are the occurrences that a scan from
left to right meets when it goes on behind each of them (`occurrences`).

`splitLoop` is the loop with a limit on its turns. It ends within as many turns as the text has
bytes and one more (`splitLoop_eq`). For an empty splitter it does not end (`splitLoop_empty`).
-/

set_option autoImplicit false
set_option relaxedAutoImplicit false

namespace MyIPNG.Utils

/-- The loop of `split` for any splitter, in at most the given number of turns. -/
def splitLoop (splitter : List UInt8) :
    ℕ → List UInt8 → List (List UInt8) → Option (List (List UInt8))
  | 0, _, _ => none
  | turns + 1, input, out =>
    match find splitter input with
    | none => some (if 0 < input.length then out ++ [input] else out)
    | some pos =>
      let before := input.take pos
      let bytesLeft := input.length - (pos + splitter.length)
      if bytesLeft = 0 then some (out ++ [before] ++ [[]])
      else splitLoop splitter turns (input.drop (pos + splitter.length)) (out ++ [before])

/-- The number of occurrences of the splitter that a scan from left to right meets. It goes on
behind an occurrence, so no two of them overlap. -/
def occurrences (splitter : Splitter) : List UInt8 → ℕ
  | [] => 0
  | c :: rest =>
    if splitter.text <+: c :: rest then
      occurrences splitter ((c :: rest).drop splitter.text.length) + 1
    else occurrences splitter rest
termination_by text => text.length
decreasing_by
  · have hlength := List.length_pos_iff.mpr splitter.nonempty
    rw [List.length_drop, List.length_cons]
    omega
  · exact Nat.lt_succ_self _

/-! ### The first occurrence -/

/-- Where the pattern is found. -/
theorem eq_of_find {pattern input : List UInt8} {pos : ℕ} (h : find pattern input = some pos) :
    input.take pos ++ (pattern ++ input.drop (pos + pattern.length)) = input := by
  induction input generalizing pos with
  | nil =>
    rw [find] at h
    split_ifs at h with hempty
    simp [hempty]
  | cons c rest ih =>
    rw [find] at h
    split_ifs at h with hhere
    · obtain ⟨behind, hbehind⟩ := hhere
      rw [← Option.some.inj h, List.take_zero, List.nil_append, Nat.zero_add, ← hbehind,
        List.drop_left]
    · obtain ⟨pos', hpos', rfl⟩ := Option.map_eq_some_iff.mp h
      rw [List.take_succ_cons, Nat.add_right_comm, List.drop_succ_cons, List.cons_append, ih hpos']

/-- A pattern is not found in a text that does not have it, and only then. -/
theorem find_eq_none_iff {pattern input : List UInt8} :
    find pattern input = none ↔ ¬ pattern <:+: input := by
  induction input with
  | nil =>
    rw [find, List.infix_nil]
    by_cases hempty : pattern = [] <;> simp [hempty]
  | cons c rest ih =>
    rw [find, List.infix_cons_iff]
    by_cases hhere : pattern <+: c :: rest
    · simp [hhere]
    · rw [if_neg hhere, Option.map_eq_none_iff, ih]
      simp [hhere]

/-- In front of the first occurrence there is no other one. -/
theorem not_infix_take {pattern input : List UInt8} {pos : ℕ} (h : find pattern input = some pos)
    (hpattern : pattern ≠ []) : ¬ pattern <:+: input.take pos := by
  have hlength := List.length_pos_iff.mpr hpattern
  have hbefore := find_take h hpattern pos
  rw [if_neg (by omega)] at hbefore
  exact find_eq_none_iff.mp hbefore

section Occurrences

variable {splitter : Splitter} {input : List UInt8}

/-- A text in which the splitter is found is not empty. -/
theorem ne_nil_of_find {pos : ℕ} (h : find splitter.text input = some pos) : input ≠ [] := by
  rintro rfl
  rw [find, if_neg splitter.nonempty] at h
  exact absurd h (by simp)

theorem occurrences_of_find_none (h : find splitter.text input = none) :
    occurrences splitter input = 0 := by
  induction input with
  | nil => rw [occurrences]
  | cons c rest ih =>
    rw [find] at h
    split_ifs at h with hhere
    rw [occurrences, if_neg hhere]
    exact ih (Option.map_eq_none_iff.mp h)

/-- The scan goes on behind the first occurrence. -/
theorem occurrences_of_find {pos : ℕ} (h : find splitter.text input = some pos) :
    occurrences splitter input =
      occurrences splitter (input.drop (pos + splitter.text.length)) + 1 := by
  induction input generalizing pos with
  | nil => exact absurd rfl (ne_nil_of_find h)
  | cons c rest ih =>
    rw [find] at h
    split_ifs at h with hhere
    · rw [occurrences, if_pos hhere, ← Option.some.inj h, Nat.zero_add]
    · obtain ⟨pos', hpos', rfl⟩ := Option.map_eq_some_iff.mp h
      rw [occurrences, if_neg hhere, ih hpos', Nat.add_right_comm, List.drop_succ_cons]

end Occurrences

/-! ### The turns of the loop -/

section Turns

variable {splitter : Splitter} {input : List UInt8} {pos : ℕ}

theorem split_of_find_none (h : find splitter.text input = none) :
    split input splitter = if 0 < input.length then [input] else [] := by
  rw [split]
  split
  · rfl
  · next pos hfound => simp [h] at hfound

theorem split_of_find (h : find splitter.text input = some pos) :
    split input splitter =
      if input.length - (pos + splitter.text.length) = 0 then [input.take pos, []]
      else input.take pos :: split (input.drop (pos + splitter.text.length)) splitter := by
  rw [split]
  split
  · next hfound => simp [h] at hfound
  · next other hfound =>
    obtain rfl : pos = other := Option.some.inj (h.symm.trans hfound)
    rfl

/-- The induction over the turns: the one that finds no splitter, the one that finds it at the end,
and one that goes on behind it. -/
theorem split_induction (splitter : Splitter) {P : List UInt8 → List (List UInt8) → Prop}
    (hnone : ∀ input, find splitter.text input = none →
      P input (if 0 < input.length then [input] else []))
    (hlast : ∀ input pos, find splitter.text input = some pos →
      input.drop (pos + splitter.text.length) = [] → P input [input.take pos, []])
    (hturn : ∀ input pos, find splitter.text input = some pos →
      input.drop (pos + splitter.text.length) ≠ [] →
      P (input.drop (pos + splitter.text.length))
        (split (input.drop (pos + splitter.text.length)) splitter) →
      P input (input.take pos :: split (input.drop (pos + splitter.text.length)) splitter))
    (input : List UInt8) : P input (split input splitter) := by
  induction hlength : input.length using Nat.strongRecOn generalizing input with
  | _ length ih =>
    have hpositive := List.length_pos_iff.mpr splitter.nonempty
    cases hfind : find splitter.text input with
    | none =>
      rw [split_of_find_none hfind]
      exact hnone input hfind
    | some pos =>
      have hend := find_le hfind
      rw [split_of_find hfind]
      split_ifs with hbytes
      · exact hlast input pos hfind (List.drop_eq_nil_of_le (by omega))
      · refine hturn input pos hfind ?_ (ih _ (by rw [List.length_drop]; omega) _ rfl)
        rw [ne_eq, List.drop_eq_nil_iff]
        omega

/-- A text that is not empty has a part. -/
theorem split_ne_nil (h : input ≠ []) : split input splitter ≠ [] := by
  cases hfind : find splitter.text input with
  | none => simp [split_of_find_none hfind, List.length_pos_iff.mpr h]
  | some pos =>
    rw [split_of_find hfind]
    split_ifs <;> simp

/-- The loop ends within as many turns as there are bytes and one more. -/
theorem splitLoop_eq (splitter : Splitter) {turns : ℕ} {input : List UInt8}
    (h : input.length < turns) (out : List (List UInt8)) :
    splitLoop splitter.text turns input out = some (out ++ split input splitter) := by
  have hlength := List.length_pos_iff.mpr splitter.nonempty
  induction turns generalizing input out with
  | zero => exact absurd h (Nat.not_lt_zero _)
  | succ turns ih =>
    cases hfind : find splitter.text input with
    | none =>
      simp only [splitLoop, hfind, split_of_find_none hfind]
      split_ifs <;> simp
    | some pos =>
      have hend := find_le hfind
      simp only [splitLoop, hfind, split_of_find hfind]
      split_ifs with hlast
      · simp
      · rw [ih (by rw [List.length_drop]; omega)]
        simp

/-- For an empty splitter the loop does not end. -/
theorem splitLoop_empty (turns : ℕ) {input : List UInt8} (h : input ≠ [])
    (out : List (List UInt8)) : splitLoop [] turns input out = none := by
  obtain ⟨c, rest, rfl⟩ := List.exists_cons_of_ne_nil h
  induction turns generalizing out with
  | zero => rfl
  | succ turns ih =>
    have hfind : find [] (c :: rest) = some 0 := by simp [find]
    simpa [splitLoop, hfind] using ih (out ++ [[]])

end Turns

/-! ### The parts -/

/-- The parts joined by the splitter are the text. -/
theorem intercalate_split (input : List UInt8) (splitter : Splitter) :
    splitter.text.intercalate (split input splitter) = input := by
  refine split_induction splitter (P := fun input parts ↦ splitter.text.intercalate parts = input)
    ?_ ?_ ?_ input
  · intro input hfind
    split_ifs with hsome
    · exact List.intercalate_singleton
    · exact (List.length_eq_zero_iff.mp (Nat.eq_zero_of_not_pos hsome)).symm
  · intro input pos hfind hend
    have htext := eq_of_find hfind
    rw [hend, List.append_nil] at htext
    rw [List.intercalate_cons_cons, List.intercalate_singleton, List.append_nil, htext]
  · intro input pos hfind hrest hjoined
    have hparts : split (input.drop (pos + splitter.text.length)) splitter ≠ [] :=
      split_ne_nil hrest
    obtain ⟨next, parts, hparts⟩ := List.exists_cons_of_ne_nil hparts
    rw [hparts] at hjoined ⊢
    rw [List.intercalate_cons_cons, hjoined, List.append_assoc, eq_of_find hfind]

/-- No part has the splitter. -/
theorem not_infix_of_mem_split (input : List UInt8) (splitter : Splitter) :
    ∀ part ∈ split input splitter, ¬ splitter.text <:+: part := by
  refine split_induction splitter
    (P := fun _ parts ↦ ∀ part ∈ parts, ¬ splitter.text <:+: part) ?_ ?_ ?_ input
  · intro input hfind part hpart
    split_ifs at hpart
    · rw [List.mem_singleton.mp hpart]
      exact find_eq_none_iff.mp hfind
    · exact absurd hpart List.not_mem_nil
  · intro input pos hfind hend
    have hempty : ¬ splitter.text <:+: [] := by
      rw [List.infix_nil]
      exact splitter.nonempty
    exact List.forall_mem_cons.mpr ⟨not_infix_take hfind splitter.nonempty,
      List.forall_mem_singleton.mpr hempty⟩
  · intro input pos hfind hrest hparts
    exact List.forall_mem_cons.mpr ⟨not_infix_take hfind splitter.nonempty, hparts⟩

/-- A part stands in the text. -/
theorem infix_of_mem_split (input : List UInt8) (splitter : Splitter) :
    ∀ part ∈ split input splitter, part <:+: input := by
  refine split_induction splitter (P := fun input parts ↦ ∀ part ∈ parts, part <:+: input)
    ?_ ?_ ?_ input
  · intro input hfind part hpart
    split_ifs at hpart
    · exact (List.mem_singleton.mp hpart) ▸ List.infix_rfl
    · exact absurd hpart List.not_mem_nil
  · intro input pos hfind hend
    exact List.forall_mem_cons.mpr ⟨(List.take_prefix _ _).isInfix,
      List.forall_mem_singleton.mpr List.nil_infix⟩
  · intro input pos hfind hrest hparts
    refine List.forall_mem_cons.mpr ⟨(List.take_prefix _ _).isInfix, fun part hpart ↦ ?_⟩
    exact (hparts part hpart).trans (List.drop_suffix _ _).isInfix

/-- There is one more part than the scan meets occurrences. An empty text has no part. -/
theorem length_split (input : List UInt8) (splitter : Splitter) :
    (split input splitter).length =
      if input = [] then 0 else occurrences splitter input + 1 := by
  refine split_induction splitter (P := fun input parts ↦ parts.length =
    if input = [] then 0 else occurrences splitter input + 1) ?_ ?_ ?_ input
  · intro input hfind
    rw [occurrences_of_find_none hfind]
    cases input with
    | nil => rfl
    | cons c rest => rfl
  · intro input pos hfind hend
    rw [if_neg (ne_nil_of_find hfind), occurrences_of_find hfind, hend, occurrences]
    rfl
  · intro input pos hfind hrest hlength
    rw [if_neg hrest] at hlength
    rw [if_neg (ne_nil_of_find hfind), occurrences_of_find hfind, List.length_cons, hlength]

/-- `split` undoes a join: its loop ends, the parts joined by the splitter are the text, no part
has the splitter, and there is one part more than occurrences, but no part of an empty text. -/
theorem split_inverts_join (input : List UInt8) (splitter : Splitter) :
    (∃ limit, ∀ turns, limit ≤ turns →
      splitLoop splitter.text turns input [] = some (split input splitter)) ∧
    splitter.text.intercalate (split input splitter) = input ∧
    (∀ part ∈ split input splitter, ¬ splitter.text <:+: part) ∧
    (split input splitter).length =
      if input = [] then 0 else occurrences splitter input + 1 := by
  refine ⟨⟨input.length + 1, fun turns hturns ↦ splitLoop_eq splitter hturns []⟩,
    intercalate_split input splitter, not_infix_of_mem_split input splitter,
    length_split input splitter⟩

-- a splitter that overlaps itself, and one that ends the text
example : split (ascii "xaaay") ⟨ascii "aa", by decide⟩ = [ascii "x", ascii "ay"] := by
  decide +kernel

example : split (ascii "a=") ⟨ascii "=", by decide⟩ = [ascii "a", []] := by decide +kernel

end MyIPNG.Utils
