import Mathlib.Data.List.Basic
import Mathlib.Tactic.SplitIfs

/-!
# Lines in front of a body

Text protocols put lines that end with a carriage return and a line feed in front of a body, with an
empty line between them. `writeHead` is such a head, and `readHead` takes it from a stream again.
`readHead_writeHead` is the round trip: it holds for lines that are not empty and that have no
carriage return in them, and whatever the body is.
-/

set_option autoImplicit false
set_option relaxedAutoImplicit false

namespace MyIPNG.Base

/-- The end of a line. -/
def crlf : List UInt8 := [13, 10]

/-- The lines and the empty line behind them. -/
def writeHead (lines : List (List UInt8)) : List UInt8 :=
  lines.flatMap (fun line ↦ line ++ crlf) ++ crlf

/-- The first line of a stream, and what is behind it. -/
def readLine : List UInt8 → Option (List UInt8 × List UInt8)
  | [] => none
  | c :: rest =>
    if crlf <+: c :: rest then some ([], rest.drop 1)
    else (readLine rest).map fun read ↦ (c :: read.1, read.2)

/-- The lines of a stream up to an empty one, and what is behind it, in a number of turns. -/
def readLines : ℕ → List UInt8 → Option (List (List UInt8) × List UInt8)
  | 0, _ => none
  | turns + 1, stream =>
    match readLine stream with
    | none => none
    | some (line, rest) =>
      if line = [] then some ([], rest)
      else (readLines turns rest).map fun read ↦ (line :: read.1, read.2)

/-- The head of a stream and its body. -/
def readHead (stream : List UInt8) : Option (List (List UInt8) × List UInt8) :=
  readLines (stream.length + 1) stream

/-- A line has no carriage return in it and is not empty. -/
def IsLine (line : List UInt8) : Prop := line ≠ [] ∧ 13 ∉ line

instance (line : List UInt8) : Decidable (IsLine line) := inferInstanceAs (Decidable (_ ∧ _))

theorem readLine_append {line : List UInt8} (h : 13 ∉ line) (rest : List UInt8) :
    readLine (line ++ (crlf ++ rest)) = some (line, rest) := by
  induction line with
  | nil =>
    have hhere : crlf <+: 13 :: 10 :: rest := List.prefix_append crlf rest
    change readLine (13 :: 10 :: rest) = _
    rw [readLine, if_pos hhere]
    rfl
  | cons c line ih =>
    obtain ⟨hne, hline⟩ : 13 ≠ c ∧ 13 ∉ line := by simpa using h
    have hnot : ¬ crlf <+: c :: (line ++ (crlf ++ rest)) := by
      intro hhere
      exact hne (List.cons_prefix_cons.mp hhere).1
    rw [List.cons_append, readLine, if_neg hnot, ih hline]
    rfl

theorem readLines_append {lines : List (List UInt8)} (h : ∀ line ∈ lines, IsLine line)
    (body : List UInt8) {turns : ℕ} (hturns : lines.length < turns) :
    readLines turns (writeHead lines ++ body) = some (lines, body) := by
  induction lines generalizing turns with
  | nil =>
    obtain ⟨more, rfl⟩ := Nat.exists_eq_add_of_lt hturns
    have hempty := readLine_append (List.not_mem_nil (a := 13)) body
    rw [List.nil_append] at hempty
    change readLines (0 + more + 1) (crlf ++ body) = _
    rw [readLines, hempty]
    rfl
  | cons line lines ih =>
    obtain ⟨hnonempty, hplain⟩ := h line List.mem_cons_self
    obtain ⟨more, rfl⟩ := Nat.exists_eq_add_of_lt hturns
    have hrest : readLines (lines.length + 1 + more) (writeHead lines ++ body) =
        some (lines, body) :=
      ih (fun other hother ↦ h other (List.mem_cons_of_mem _ hother)) (by omega)
    have hsplit : writeHead (line :: lines) ++ body =
        line ++ (crlf ++ (writeHead lines ++ body)) := by
      simp only [writeHead, List.flatMap_cons, List.append_assoc]
    rw [hsplit, List.length_cons, readLines, readLine_append hplain]
    dsimp only
    rw [if_neg hnonempty, hrest]
    rfl

theorem length_le_writeHead (lines : List (List UInt8)) :
    lines.length ≤ (writeHead lines).length := by
  induction lines with
  | nil => exact Nat.zero_le _
  | cons line lines ih =>
    have hsplit : writeHead (line :: lines) = line ++ (crlf ++ writeHead lines) := by
      simp only [writeHead, List.flatMap_cons, List.append_assoc]
    rw [hsplit, List.length_cons, List.length_append, List.length_append]
    simp only [crlf, List.length_cons]
    omega

/-- A head in front of a body is read back. -/
theorem readHead_writeHead {lines : List (List UInt8)} (h : ∀ line ∈ lines, IsLine line)
    (body : List UInt8) : readHead (writeHead lines ++ body) = some (lines, body) := by
  apply readLines_append h
  have hle := length_le_writeHead lines
  rw [List.length_append]
  omega

end MyIPNG.Base
