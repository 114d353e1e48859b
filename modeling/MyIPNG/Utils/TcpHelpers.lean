import Mathlib.Data.List.Basic

/-!
# Reading from the chunks of a session

`utils/tcp-helpers.cpp`: what the peer sends comes to a server on top of TCP in chunks, in the queue
`incoming` of its session. `recv_func` pops chunks until it has the bytes that it was asked for and
pushes what is left of the last one back to the front. The queue of the model holds all that will
come; a read that wants more than that waits.

`recvFunc_of_le` and `recvFunc_of_lt` say that a read is a read from the stream of bytes, however it
was divided into chunks.
-/

set_option autoImplicit false
set_option relaxedAutoImplicit false

namespace MyIPNG.Utils

/-- The loop of `recv_func`: the bytes and the queue behind them, or nothing when it waits for more
chunks than will come. -/
def recvLoop : ℕ → List (List UInt8) → Option (List UInt8 × List (List UInt8))
  | 0, incoming => some ([], incoming)
  | _ + 1, [] => none
  | todo + 1, values :: incoming =>
    if todo + 1 < values.length then
      some (values.take (todo + 1), values.drop (todo + 1) :: incoming)
    else (recvLoop (todo + 1 - values.length) incoming).map fun result ↦
      (values ++ result.1, result.2)

/-- `recv_func` without a stop. -/
def recvFunc (n : ℕ) (incoming : List (List UInt8)) :
    Option (List UInt8 × List (List UInt8)) :=
  if n = 0 then some ([], incoming) else recvLoop n incoming

/-- A read of bytes that come. -/
theorem recvLoop_of_le (incoming : List (List UInt8)) {n : ℕ} (h : n ≤ incoming.flatten.length) :
    ∃ rest, recvLoop n incoming = some (incoming.flatten.take n, rest) ∧
      rest.flatten = incoming.flatten.drop n := by
  induction incoming generalizing n with
  | nil =>
    have hzero : n = 0 := by simpa using h
    subst hzero
    exact ⟨[], rfl, rfl⟩
  | cons values incoming ih =>
    cases n with
    | zero => exact ⟨values :: incoming, by simp [recvLoop], by simp⟩
    | succ todo =>
      rw [recvLoop, List.flatten_cons]
      by_cases hlong : todo + 1 < values.length
      · refine ⟨values.drop (todo + 1) :: incoming, ?_, ?_⟩
        · rw [if_pos hlong, List.take_append_of_le_length (Nat.le_of_lt hlong)]
        · rw [List.flatten_cons, List.drop_append_of_le_length (Nat.le_of_lt hlong)]
      · have hrest : todo + 1 - values.length ≤ incoming.flatten.length := by
          rw [List.flatten_cons, List.length_append] at h
          omega
        obtain ⟨rest, hread, hflatten⟩ := ih hrest
        refine ⟨rest, ?_, ?_⟩
        · rw [if_neg hlong, hread, Option.map_some, List.take_append,
            List.take_of_length_le (Nat.le_of_not_lt hlong)]
        · rw [hflatten, List.drop_append, List.drop_of_length_le (Nat.le_of_not_lt hlong),
            List.nil_append]

/-- A read of more bytes than come. -/
theorem recvLoop_of_lt (incoming : List (List UInt8)) {n : ℕ} (h : incoming.flatten.length < n) :
    recvLoop n incoming = none := by
  induction incoming generalizing n with
  | nil =>
    obtain ⟨todo, rfl⟩ : ∃ todo, n = todo + 1 := ⟨n - 1, by simp at h; omega⟩
    rfl
  | cons values incoming ih =>
    rw [List.flatten_cons, List.length_append] at h
    obtain ⟨todo, rfl⟩ : ∃ todo, n = todo + 1 := ⟨n - 1, by omega⟩
    rw [recvLoop, if_neg (by omega), ih (by omega)]
    rfl

theorem recvFunc_of_le (incoming : List (List UInt8)) {n : ℕ} (h : n ≤ incoming.flatten.length) :
    ∃ rest, recvFunc n incoming = some (incoming.flatten.take n, rest) ∧
      rest.flatten = incoming.flatten.drop n := by
  unfold recvFunc
  split_ifs with hzero
  · subst hzero
    exact ⟨incoming, rfl, rfl⟩
  · exact recvLoop_of_le incoming h

theorem recvFunc_of_lt (incoming : List (List UInt8)) {n : ℕ} (h : incoming.flatten.length < n) :
    recvFunc n incoming = none := by
  rw [recvFunc, if_neg (by omega)]
  exact recvLoop_of_lt incoming h

end MyIPNG.Utils
