import MyIPNG.Gopher.Server

/-!
# How a gopher request was cut

The handler looks for the line end anywhere in what has come and takes all of that, without its last
two bytes, for the selector. `receiveLine_spec` says where it stops: behind the chunk that completes
the first line end. So the selector is what stands before the line end when the stream was cut right
behind it, and more than that when it was not.
-/

set_option autoImplicit false
set_option relaxedAutoImplicit false

namespace MyIPNG.Gopher

open Utils

/-- One of the cuts of a stream is at the given position. -/
def CutsAt (position : ℕ) (chunks : List (List UInt8)) : Prop :=
  ∃ count, (chunks.take count).flatten.length = position

theorem length_line_end : (ascii "\r\n").length = 2 := by decide

theorem line_end_nonempty : ascii "\r\n" ≠ [] := by decide

/-- The cuts of a stream: the start, and those behind the first chunk. -/
theorem cut_cons_iff (start position : ℕ) (incoming : List UInt8) (chunks : List (List UInt8)) :
    (∃ taken, start + ((incoming :: chunks).take taken).flatten.length = position) ↔
      start = position ∨
        ∃ taken, start + incoming.length + (chunks.take taken).flatten.length = position := by
  constructor
  · rintro ⟨taken, htaken⟩
    cases taken with
    | zero => exact Or.inl htaken
    | succ taken =>
      rw [List.take_succ_cons, List.flatten_cons, List.length_append, ← Nat.add_assoc] at htaken
      exact Or.inr ⟨taken, htaken⟩
  · rintro (hstart | ⟨taken, htaken⟩)
    · exact ⟨0, hstart⟩
    · refine ⟨taken + 1, ?_⟩
      rw [List.take_succ_cons, List.flatten_cons, List.length_append, ← Nat.add_assoc, htaken]

/-- The chunks are taken up to a cut behind the line end, which is right behind it when there is a
cut. -/
theorem receiveLine_spec {chunks : List (List UInt8)} : ∀ {recvBuffer : List UInt8} {pos : ℕ},
    find (ascii "\r\n") (recvBuffer ++ chunks.flatten) = some pos → recvBuffer.length < pos + 2 →
      ∃ count, receiveLine recvBuffer chunks = some ((recvBuffer ++ chunks.flatten).take count) ∧
        pos + 2 ≤ count ∧ count ≤ (recvBuffer ++ chunks.flatten).length ∧
        (count = pos + 2 ↔
          ∃ taken, recvBuffer.length + (chunks.take taken).flatten.length = pos + 2) := by
  induction chunks with
  | nil =>
    intro recvBuffer pos hfind hshort
    have hle := find_le hfind
    rw [length_line_end, List.flatten_nil, List.append_nil] at hle
    omega
  | cons incoming chunks ih =>
    intro recvBuffer pos hfind hshort
    rw [List.flatten_cons, ← List.append_assoc] at hfind ⊢
    have hbuffer : ((recvBuffer ++ incoming) ++ chunks.flatten).take
        (recvBuffer ++ incoming).length = recvBuffer ++ incoming := List.take_left
    have hseen := find_take hfind line_end_nonempty (recvBuffer ++ incoming).length
    rw [hbuffer, length_line_end] at hseen
    rw [receiveLine, hseen, cut_cons_iff, or_iff_right (by omega), ← List.length_append]
    by_cases hcomplete : pos + 2 ≤ (recvBuffer ++ incoming).length
    · rw [if_pos hcomplete, if_neg (by simp)]
      refine ⟨(recvBuffer ++ incoming).length, by rw [hbuffer], hcomplete, ?_, ?_⟩
      · exact (List.prefix_append (recvBuffer ++ incoming) chunks.flatten).length_le
      · constructor
        · intro hexact
          exact ⟨0, hexact⟩
        · rintro ⟨taken, htaken⟩
          omega
    · rw [if_neg hcomplete, if_pos rfl]
      exact ih hfind (Nat.lt_of_not_le hcomplete)

/-- The selector of a division is what stands before the first line end if and only if the stream is
cut right behind it. -/
theorem selectorOf_eq_iff {stream : List UInt8} {pos : ℕ}
    (hfind : find (ascii "\r\n") stream = some pos) {chunks : List (List UInt8)}
    (hstream : chunks.flatten = stream) :
    selectorOf chunks = some (stream.take pos) ↔ CutsAt (pos + 2) chunks := by
  subst hstream
  obtain ⟨count, hline, hbehind, hinside, hcut⟩ :=
    @receiveLine_spec chunks [] pos hfind (Nat.succ_pos _)
  rw [List.nil_append] at hline hinside
  have hselector : selectorOf chunks = some (chunks.flatten.take (count - 2)) := by
    rw [selectorOf, hline, Option.map_some, List.length_take_of_le hinside, List.take_take,
      Nat.min_eq_left (Nat.sub_le count 2)]
  have hcuts : CutsAt (pos + 2) chunks ↔ count = pos + 2 := by
    rw [hcut]
    simp only [CutsAt, List.length_nil, Nat.zero_add]
  rw [hselector, hcuts, Option.some.injEq]
  constructor
  · intro hsame
    have hlengths := congrArg List.length hsame
    rw [List.length_take_of_le (by omega), List.length_take_of_le (by omega)] at hlengths
    omega
  · rintro rfl
    rw [Nat.add_sub_cancel]

/-- Two divisions of a stream make the handler act on the same selector, the bytes before the first
line end, if and only if both of them cut the stream right behind this line end. Assumes: the stream
has a line end. -/
theorem same_selector_iff {stream : List UInt8} {pos : ℕ}
    (hfind : find (ascii "\r\n") stream = some pos) {first second : List (List UInt8)}
    (hfirst : first.flatten = stream) (hsecond : second.flatten = stream) :
    (selectorOf first = some (stream.take pos) ∧ selectorOf second = some (stream.take pos)) ↔
      CutsAt (pos + 2) first ∧ CutsAt (pos + 2) second :=
  and_congr (selectorOf_eq_iff hfind hfirst) (selectorOf_eq_iff hfind hsecond)

theorem same_selector_cut : selectorOf [ascii "a\r", ascii "\n", ascii "b"] = some (ascii "a") ∧
    selectorOf [ascii "a\r\n", ascii "b"] = some (ascii "a") :=
  (@same_selector_iff (ascii "a\r\nb") 1 (by decide) _ _ (by decide) (by decide)).mpr
    ⟨⟨2, by decide⟩, ⟨1, by decide⟩⟩

/-- The byte behind the line end comes with it or later: the handler acts on two selectors. -/
theorem selector_depends_on_cut : ¬ (selectorOf [ascii "a\r\nb"] = some (ascii "a") ∧
    selectorOf [ascii "a\r\n", ascii "b"] = some (ascii "a")) := by
  decide

end MyIPNG.Gopher
