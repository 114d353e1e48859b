import MyIPNG.Utils.Address
import Mathlib.Tactic.Common

/-!
# Meta messages of the servers for applications

`run_meta` of `http_server.cpp`, `vnc_server.cpp` and `gopher_server.cpp` takes requests to close a
session. The three functions have the same text up to the type of their sessions and one log line.
The loop over the lines of a message indexes the parts of a line without looking at their number,
and its `continue` for an unknown key goes on with the next line of a message that is released
already. `run_meta` of `tcp_server.cpp` looks at the number of parts and at the optional values, and
leaves its loop at the first wrong line.

A request to close consists of lines `action=close` and of lines with a session id in hexadecimal
digits. Every such request is handled well (`CloseRequest.harmless`); `run_meta_faultless_iff` says
which other messages do no harm.
-/

set_option autoImplicit false
set_option relaxedAutoImplicit false

namespace MyIPNG.L7

open Utils

/-! ### `my_stoull_hex` -/

/-- What `std::stoull` does: it returns a number or throws. -/
inductive Stoull
  | value (number : UInt64)
  | invalidArgument
  | outOfRange
deriving DecidableEq, Repr

/-- The number that digits of base 16 make up. -/
def hexMagnitude (digits : List ℕ) : ℕ := digits.foldl (fun number digit ↦ number * 16 + digit) 0

/-- `std::stoull` in base 16. A number behind a minus sign is taken from zero. -/
def stoull (text : List UInt8) : Stoull :=
  let text := text.dropWhile isSpace
  let negative := text.head? == some 45
  let text := if negative || text.head? == some 43 then text.drop 1 else text
  match leadingDigits 16 (dropHexMark text) with
  | [] => .invalidArgument
  | digits =>
    let magnitude := hexMagnitude digits
    if 2 ^ 64 ≤ magnitude then .outOfRange
    else .value (if negative then 0 - UInt64.ofNat magnitude else UInt64.ofNat magnitude)

/-- `my_stoull_hex`: only `std::invalid_argument` is caught, so nothing when `std::out_of_range`
leaves it. -/
def myStoullHex (text : List UInt8) : Option (Option UInt64) :=
  match stoull text with
  | .value number => some (some number)
  | .invalidArgument => some none
  | .outOfRange => none

/-! ### `run_meta` -/

/-- What can be seen of the handling of a message: the read of a part that a line does not have,
the read of an optional without a value, an exception that leaves the thread, and the release of
the message. -/
inductive MetaEvent
  | missingPart
  | emptyOptional
  | exception
  | freed
deriving DecidableEq, Repr

/-- What the body of the loop makes of a line. -/
inductive LineOutcome
  | fault (event : MetaEvent)
  | close
  | invalidAction
  | sessionId (number : Option UInt64)
  | invalidCommand
deriving DecidableEq, Repr

/-- How the loop over the lines is left: with a fault, through its `break`, or at its end with the
value of `session_id`. -/
inductive LoopEnd
  | faulted
  | invalid
  | done (sessionId : Option UInt64)
deriving DecidableEq, Repr

/-- The parts of a line. -/
def lineParts (line : List UInt8) : List (List UInt8) :=
  split line ⟨ascii "=", ascii_equals_nonempty⟩

/-- The lines of a message. -/
def metaLines (text : List UInt8) : List (List UInt8) :=
  split text ⟨ascii "\n", ascii_newline_nonempty⟩

/-- The body of the loop. -/
def metaLine (line : List UInt8) : LineOutcome :=
  match lineParts line with
  | [] => .fault .missingPart
  | key :: values =>
    if key = ascii "action" then
      match values with
      | [] => .fault .missingPart
      | value :: _ => if value = ascii "close" then .close else .invalidAction
    else if key = ascii "session-id" then
      match values with
      | [] => .fault .missingPart
      | value :: _ =>
        match myStoullHex value with
        | some number => .sessionId number
        | none => .fault .exception
    else .invalidCommand

/-- The loop over the lines. The `continue` behind the release of the message belongs to it. -/
def metaLoop : List (List UInt8) → Option UInt64 → List MetaEvent × LoopEnd
  | [], sessionId => ([], .done sessionId)
  | line :: rest, sessionId =>
    match metaLine line with
    | .fault event => ([event], .faulted)
    | .close => metaLoop rest sessionId
    | .invalidAction => ([], .invalid)
    | .sessionId number => metaLoop rest number
    | .invalidCommand =>
      let final := metaLoop rest sessionId
      (.freed :: final.1, final.2)

section RunMeta

variable {σ : Type*}

/-- The body of the loop of `run_meta`: what happens, and the sessions afterwards. A session that
is closed is stopped, joined, deleted and erased. -/
def runMeta (sessions : Std.ExtTreeMap UInt64 σ) (text : List UInt8) :
    List MetaEvent × Std.ExtTreeMap UInt64 σ :=
  let lines := metaLines text
  if lines.length < 2 then ([.freed], sessions)
  else
    let loop := metaLoop lines none
    match loop.2 with
    | .faulted => (loop.1, sessions)
    | .invalid => (loop.1 ++ [.freed], sessions)
    | .done none => (loop.1 ++ [.emptyOptional, .exception], sessions)
    | .done (some sessionId) =>
      if sessionId ∈ sessions then (loop.1 ++ [.freed], sessions.erase sessionId)
      else (loop.1 ++ [.freed], sessions)

/-- `run_meta` of `http_server.cpp`. -/
def httpRunMeta (sessions : Std.ExtTreeMap UInt64 σ) (text : List UInt8) :
    List MetaEvent × Std.ExtTreeMap UInt64 σ := runMeta sessions text

/-- `run_meta` of `vnc_server.cpp`. -/
def vncRunMeta (sessions : Std.ExtTreeMap UInt64 σ) (text : List UInt8) :
    List MetaEvent × Std.ExtTreeMap UInt64 σ := runMeta sessions text

/-- `run_meta` of `gopher_server.cpp`. -/
def gopherRunMeta (sessions : Std.ExtTreeMap UInt64 σ) (text : List UInt8) :
    List MetaEvent × Std.ExtTreeMap UInt64 σ := runMeta sessions text

end RunMeta

/-! ### Requests to close -/

/-- A number in hexadecimal digits and nothing else. -/
def HexNumber (text : List UInt8) (number : ℕ) : Prop :=
  ∃ digits, digits ≠ [] ∧ text.map (digitValue 16) = digits.map some ∧ hexMagnitude digits = number

/-- The line names the session. -/
def NamesSession (line : List UInt8) (sessionId : UInt64) : Prop :=
  ∃ digits, line = ascii "session-id=" ++ digits ∧ HexNumber digits sessionId.toNat

/-- A line of a request to close. -/
def RequestLine (line : List UInt8) : Prop :=
  line = ascii "action=close" ∨ ∃ sessionId, NamesSession line sessionId

/-- The message is a valid request to close the session. -/
structure CloseRequest (text : List UInt8) (sessionId : UInt64) : Prop where
  action : ascii "action=close" ∈ metaLines text
  lines : ∀ line ∈ metaLines text, RequestLine line
  names : ∃ line ∈ metaLines text, NamesSession line sessionId

section Faultless

variable {σ : Type*}

/-- A message is handled without fault: what happens and the sessions afterwards are as they should
be. A session is closed when it was there and is not there any more. -/
structure Faultless (sessions : Std.ExtTreeMap UInt64 σ) (text : List UInt8)
    (result : List MetaEvent × Std.ExtTreeMap UInt64 σ) : Prop where
  parts : .missingPart ∉ result.1
  optionals : .emptyOptional ∉ result.1
  exceptions : .exception ∉ result.1
  freedOnce : result.1.count .freed = 1
  closes : ∀ sessionId, sessionId ∈ sessions → sessionId ∉ result.2 → CloseRequest text sessionId

/-- The line has the key `action` and the value `close`, or the key `session-id` and a value that
`std::stoull` does not find out of range. -/
def Accepted (line : List UInt8) : Prop :=
  (∃ rest, lineParts line = ascii "action" :: ascii "close" :: rest) ∨
    ∃ value rest, lineParts line = ascii "session-id" :: value :: rest ∧ stoull value ≠ .outOfRange

/-- The line has the key `action` and a value other than `close`. -/
def OtherAction (line : List UInt8) : Prop :=
  ∃ value rest, lineParts line = ascii "action" :: value :: rest ∧ value ≠ ascii "close"

/-- The line has the key `session-id`. -/
def SessionLine (line : List UInt8) : Prop := (lineParts line).head? = some (ascii "session-id")

/-- The line has the key `session-id` and a value that `std::stoull` reads as this number. -/
def GivesNumber (line : List UInt8) (sessionId : UInt64) : Prop :=
  ∃ value rest, lineParts line = ascii "session-id" :: value :: rest ∧
    stoull value = .value sessionId

/-- The last of the lines with the key `session-id` has this number. -/
def LastNumber (lines : List (List UInt8)) (sessionId : UInt64) : Prop :=
  ∃ before line behind, lines = before ++ line :: behind ∧ GivesNumber line sessionId ∧
    ∀ other ∈ behind, ¬ SessionLine other

/-- The message does no harm: it has fewer than two lines, or accepted lines up to one with another
action, or accepted lines only and a number in the last line with the key `session-id`, which is the
id of no session unless the message is a request to close. -/
def Harmless (sessions : Std.ExtTreeMap UInt64 σ) (text : List UInt8) : Prop :=
  (metaLines text).length < 2 ∨
    (∃ before line behind, metaLines text = before ++ line :: behind ∧
      (∀ other ∈ before, Accepted other) ∧ OtherAction line) ∨
    (∀ line ∈ metaLines text, Accepted line) ∧ ∃ sessionId, LastNumber (metaLines text) sessionId ∧
      (sessionId ∈ sessions → ascii "action=close" ∈ metaLines text ∧
        ∀ line ∈ metaLines text, RequestLine line)

end Faultless

/-! ### Numbers in hexadecimal digits -/

section Digits

variable {text : List UInt8}

/-- What `std::stoull` reads from hexadecimal digits. -/
theorem stoull_hexNumber {sessionId : UInt64} (h : HexNumber text sessionId.toNat) :
    stoull text = .value sessionId := by
  obtain ⟨digits, hnonempty, hmap, hvalue⟩ := h
  cases text with
  | nil => exact absurd (List.map_eq_nil_iff.mp hmap.symm) hnonempty
  | cons c rest =>
    obtain ⟨digit, hdigit⟩ := exists_digit hmap List.mem_cons_self
    obtain ⟨hspace, hminus, hplus, -⟩ := digit_plain hdigit
    have htrim : (c :: rest).dropWhile isSpace = c :: rest :=
      List.dropWhile_cons_of_neg (by simp [hspace])
    have hread : leadingDigits 16 (dropHexMark (c :: rest)) = digits := by
      rw [dropHexMark_of_map hmap, leadingDigits_of_map hmap]
    obtain ⟨first, others, rfl⟩ := List.exists_cons_of_ne_nil hnonempty
    rw [stoull]
    simp only [htrim, List.head?_cons, Option.some.injEq, beq_iff_eq, hminus, hplus,
      Bool.or_eq_true, or_self, if_false, hread, hvalue]
    rw [if_neg (by have := sessionId.toNat_lt; omega), UInt64.ofNat_toNat]

/-- A line that names a session has two parts. -/
theorem lineParts_names {number : ℕ} (h : HexNumber text number) :
    lineParts (ascii "session-id=" ++ text) = [ascii "session-id", text] := by
  obtain ⟨digits, hnonempty, hmap, -⟩ := h
  have htext : text ≠ [] := by
    rintro rfl
    exact hnonempty (List.map_eq_nil_iff.mp hmap.symm)
  have habsent : (61 : UInt8) ∉ text := by
    intro hmem
    obtain ⟨digit, hdigit⟩ := exists_digit hmap hmem
    exact (digit_plain hdigit).2.2.2.2.2.2.2 rfl
  have hline : ascii "session-id=" ++ text = ascii "session-id" ++ 61 :: text := rfl
  have hsplitter : (⟨ascii "=", ascii_equals_nonempty⟩ : Splitter) = ⟨[61], by decide⟩ := by
    decide +kernel
  rw [lineParts, hline, hsplitter, split_first (by decide +kernel) htext,
    split_absent habsent htext]

end Digits

theorem lineParts_close : lineParts (ascii "action=close") = [ascii "action", ascii "close"] := by
  decide +kernel

theorem action_ne_sessionId : ascii "action" ≠ ascii "session-id" := by decide +kernel

/-! ### The lines -/

section Lines

variable {line : List UInt8} {sessionId : UInt64}

/-- A line of a request to close is accepted. -/
theorem RequestLine.accepted (h : RequestLine line) : Accepted line := by
  rcases h with rfl | ⟨sessionId, digits, rfl, hnumber⟩
  · exact .inl ⟨[], lineParts_close⟩
  · refine .inr ⟨digits, [], lineParts_names hnumber, ?_⟩
    rw [stoull_hexNumber hnumber]
    simp

/-- The number that a line of a request to close gives is the id of the session that it names. -/
theorem RequestLine.names (h : RequestLine line) (hgives : GivesNumber line sessionId) :
    NamesSession line sessionId := by
  obtain ⟨value, rest, hparts, hvalue⟩ := hgives
  rcases h with rfl | ⟨other, digits, rfl, hnumber⟩
  · rw [lineParts_close] at hparts
    exact absurd (List.cons.inj hparts).1 action_ne_sessionId
  · rw [lineParts_names hnumber] at hparts
    obtain rfl : digits = value := (List.cons.inj (List.cons.inj hparts).2).1
    rw [stoull_hexNumber hnumber] at hvalue
    obtain rfl : other = sessionId := Stoull.value.inj hvalue
    exact ⟨digits, rfl, hnumber⟩

theorem metaLine_close {rest : List (List UInt8)}
    (h : lineParts line = ascii "action" :: ascii "close" :: rest) : metaLine line = .close := by
  rw [metaLine, h]
  simp

theorem metaLine_sessionId {value : List UInt8} {rest : List (List UInt8)}
    {number : Option UInt64} (h : lineParts line = ascii "session-id" :: value :: rest)
    (hnumber : myStoullHex value = some number) : metaLine line = .sessionId number := by
  rw [metaLine, h]
  simp [action_ne_sessionId.symm, hnumber]

theorem metaLine_otherAction (h : OtherAction line) : metaLine line = .invalidAction := by
  obtain ⟨value, rest, hparts, hvalue⟩ := h
  rw [metaLine, hparts]
  simp [hvalue]

/-- A line that is not accepted and has no other action is a fault or has an unknown key. -/
theorem metaLine_fault (haccepted : ¬ Accepted line) (hother : ¬ OtherAction line) :
    metaLine line = .fault .missingPart ∨ metaLine line = .fault .exception ∨
      metaLine line = .invalidCommand := by
  rw [metaLine]
  rcases hparts : lineParts line with _ | ⟨key, values⟩
  · exact .inl rfl
  · dsimp only
    split_ifs with haction hsession
    · subst haction
      rcases values with _ | ⟨value, rest⟩
      · exact .inl rfl
      · by_cases hclose : value = ascii "close"
        · exact absurd (.inl ⟨rest, hclose ▸ hparts⟩) haccepted
        · exact absurd ⟨value, rest, hparts, hclose⟩ hother
    · subst hsession
      rcases values with _ | ⟨value, rest⟩
      · exact .inl rfl
      · have hrange : stoull value = .outOfRange := by
          by_contra hrange
          exact haccepted (.inr ⟨value, rest, hparts, hrange⟩)
        right
        left
        simp [myStoullHex, hrange]
    · exact .inr (.inr rfl)

theorem myStoullHex_some {value : List UInt8} :
    myStoullHex value = some (some sessionId) ↔ stoull value = .value sessionId := by
  rw [myStoullHex]
  cases stoull value <;> simp

/-- An accepted line has the key `action`, or sets the session id, to a number when it gives one. -/
theorem Accepted.cases (h : Accepted line) :
    (metaLine line = .close ∧ ¬ SessionLine line) ∨
    (SessionLine line ∧ ∃ number, metaLine line = .sessionId number ∧
      ∀ sessionId, GivesNumber line sessionId ↔ number = some sessionId) := by
  rcases h with ⟨rest, hparts⟩ | ⟨value, rest, hparts, hrange⟩
  · refine .inl ⟨metaLine_close hparts, ?_⟩
    rw [SessionLine, hparts]
    simp [action_ne_sessionId]
  · obtain ⟨number, hnumber⟩ : ∃ number, myStoullHex value = some number := by
      rw [myStoullHex]
      cases hvalue : stoull value with
      | value number => exact ⟨some number, rfl⟩
      | invalidArgument => exact ⟨none, rfl⟩
      | outOfRange => exact absurd hvalue hrange
    refine .inr ⟨by rw [SessionLine, hparts]; rfl, number, metaLine_sessionId hparts hnumber, ?_⟩
    intro sessionId
    constructor
    · rintro ⟨other, others, hother, hvalue⟩
      rw [hparts] at hother
      obtain rfl : value = other := (List.cons.inj (List.cons.inj hother).2).1
      rw [myStoullHex_some.mpr hvalue] at hnumber
      exact (Option.some.inj hnumber).symm
    · rintro rfl
      exact ⟨value, rest, hparts, myStoullHex_some.mp hnumber⟩

end Lines

/-! ### The loop -/

section Loop

variable {before behind lines : List (List UInt8)} {line : List UInt8} {sessionId : UInt64}

/-- The last number is behind the first line, or in the first line when no other line has the
key. -/
theorem lastNumber_cons : LastNumber (line :: lines) sessionId ↔ LastNumber lines sessionId ∨
    GivesNumber line sessionId ∧ ∀ other ∈ lines, ¬ SessionLine other := by
  constructor
  · rintro ⟨_ | ⟨first, before⟩, last, behind, hlines, hnumber, hothers⟩
    · obtain ⟨rfl, rfl⟩ := List.cons.inj hlines
      exact .inr ⟨hnumber, hothers⟩
    · obtain ⟨-, rfl⟩ := List.cons.inj hlines
      exact .inl ⟨before, last, behind, rfl, hnumber, hothers⟩
  · rintro (⟨before, last, behind, rfl, hnumber, hothers⟩ | ⟨hnumber, hothers⟩)
    · exact ⟨line :: before, last, behind, rfl, hnumber, hothers⟩
    · exact ⟨[], line, lines, rfl, hnumber, hothers⟩

theorem GivesNumber.sessionLine (h : GivesNumber line sessionId) : SessionLine line := by
  obtain ⟨value, rest, hparts, -⟩ := h
  rw [SessionLine, hparts]
  rfl

/-- The loop over accepted lines goes on behind them, with the number of the last line that has
one. -/
theorem metaLoop_accepted (h : ∀ line ∈ before, Accepted line) (start : Option UInt64) :
    ∃ number, (∀ behind, metaLoop (before ++ behind) start = metaLoop behind number) ∧
      ∀ sessionId, number = some sessionId ↔ LastNumber before sessionId ∨
        start = some sessionId ∧ ∀ line ∈ before, ¬ SessionLine line := by
  induction before generalizing start with
  | nil =>
    refine ⟨start, fun _ ↦ rfl, fun sessionId ↦ ?_⟩
    simp [LastNumber]
  | cons line rest ih =>
    have hrest := ih fun other hother ↦ h other (List.mem_cons_of_mem _ hother)
    rcases (h line List.mem_cons_self).cases with ⟨hline, hkey⟩ | ⟨hkey, read, hline, hread⟩
    · obtain ⟨number, hloop, hnumber⟩ := hrest start
      refine ⟨number, fun behind ↦ ?_, fun sessionId ↦ ?_⟩
      · rw [List.cons_append, metaLoop, hline]
        exact hloop behind
      · have hnone : ¬ GivesNumber line sessionId := fun hgives ↦ hkey hgives.sessionLine
        rw [hnumber, lastNumber_cons, List.forall_mem_cons]
        tauto
    · obtain ⟨number, hloop, hnumber⟩ := hrest read
      refine ⟨number, fun behind ↦ ?_, fun sessionId ↦ ?_⟩
      · rw [List.cons_append, metaLoop, hline]
        exact hloop behind
      · rw [hnumber, lastNumber_cons, hread, List.forall_mem_cons]
        tauto

/-- The loop over accepted lines: the value of `session_id` is the number of the last line that has
one. -/
theorem metaLoop_all_accepted (h : ∀ line ∈ lines, Accepted line) :
    ∃ number, metaLoop lines none = ([], .done number) ∧
      ∀ sessionId, number = some sessionId ↔ LastNumber lines sessionId := by
  obtain ⟨number, hloop, hnumber⟩ := metaLoop_accepted h none
  refine ⟨number, ?_, fun sessionId ↦ by simpa using hnumber sessionId⟩
  rw [← List.append_nil lines, hloop []]
  rfl

/-- The loop is left at the first line with another action. -/
theorem metaLoop_otherAction (h : ∀ line ∈ before, Accepted line) (hline : OtherAction line) :
    metaLoop (before ++ line :: behind) none = ([], .invalid) := by
  obtain ⟨number, hloop, -⟩ := metaLoop_accepted h none
  rw [hloop, metaLoop, metaLine_otherAction hline]

/-- A loop that ends with a fault has one among its events. -/
theorem metaLoop_faulted {start : Option UInt64} (h : (metaLoop lines start).2 = .faulted) :
    .missingPart ∈ (metaLoop lines start).1 ∨ .exception ∈ (metaLoop lines start).1 := by
  induction lines generalizing start with
  | nil => exact absurd h (by simp [metaLoop])
  | cons line rest ih =>
    rw [metaLoop] at h ⊢
    by_cases haccepted : Accepted line
    · rcases haccepted.cases with ⟨hline, -⟩ | ⟨-, number, hline, -⟩ <;> rw [hline] at h ⊢
      · exact ih h
      · exact ih h
    · by_cases hother : OtherAction line
      · rw [metaLine_otherAction hother] at h
        exact absurd h (by simp)
      · rcases metaLine_fault haccepted hother with hline | hline | hline <;> rw [hline] at h ⊢
        · exact .inl List.mem_cons_self
        · exact .inr List.mem_cons_self
        · exact (ih h).imp (List.mem_cons_of_mem _) (List.mem_cons_of_mem _)

/-- Lines are all accepted, or there is a first one that is not. -/
theorem accepted_or_first (lines : List (List UInt8)) : (∀ line ∈ lines, Accepted line) ∨
    ∃ before line behind, lines = before ++ line :: behind ∧ (∀ other ∈ before, Accepted other) ∧
      ¬ Accepted line := by
  induction lines with
  | nil => exact .inl (by simp)
  | cons first rest ih =>
    by_cases hfirst : Accepted first
    · rcases ih with hall | ⟨before, line, behind, rfl, hbefore, hline⟩
      · exact .inl (List.forall_mem_cons.mpr ⟨hfirst, hall⟩)
      · exact .inr ⟨first :: before, line, behind, rfl,
          List.forall_mem_cons.mpr ⟨hfirst, hbefore⟩, hline⟩
    · exact .inr ⟨[], first, rest, rfl, by simp, hfirst⟩

theorem NamesSession.givesNumber (h : NamesSession line sessionId) :
    GivesNumber line sessionId := by
  obtain ⟨digits, rfl, hnumber⟩ := h
  exact ⟨digits, [], lineParts_names hnumber, stoull_hexNumber hnumber⟩

/-- The lines of a request to close have a last number when one of them has the key. -/
theorem exists_lastNumber (hlines : ∀ line ∈ lines, RequestLine line) (hline : line ∈ lines)
    (hkey : SessionLine line) : ∃ sessionId, LastNumber lines sessionId := by
  induction lines generalizing line with
  | nil => exact absurd hline List.not_mem_nil
  | cons first rest ih =>
    obtain ⟨hfirst, hrest⟩ := List.forall_mem_cons.mp hlines
    by_cases hothers : ∃ other ∈ rest, SessionLine other
    · obtain ⟨other, hother, hotherKey⟩ := hothers
      obtain ⟨sessionId, hlast⟩ := ih hrest hother hotherKey
      exact ⟨sessionId, lastNumber_cons.mpr (.inl hlast)⟩
    · obtain rfl : line = first := by
        refine (List.mem_cons.mp hline).resolve_right fun hmem ↦ hothers ⟨line, hmem, hkey⟩
      rcases hfirst with rfl | ⟨sessionId, hnames⟩
      · rw [SessionLine, lineParts_close] at hkey
        exact absurd (Option.some.inj hkey) action_ne_sessionId
      · exact ⟨sessionId, lastNumber_cons.mpr (.inr ⟨hnames.givesNumber,
          fun other hother hotherKey ↦ hothers ⟨other, hother, hotherKey⟩⟩)⟩

end Loop

/-! ### Messages without fault -/

section Messages

variable {σ : Type*} {sessions : Std.ExtTreeMap UInt64 σ} {text : List UInt8}

/-- Every request to close does no harm. -/
theorem CloseRequest.harmless {sessionId : UInt64} (h : CloseRequest text sessionId)
    (sessions : Std.ExtTreeMap UInt64 σ) : Harmless sessions text := by
  obtain ⟨line, hline, hnames⟩ := h.names
  obtain ⟨number, hnumber⟩ := exists_lastNumber h.lines hline hnames.givesNumber.sessionLine
  exact .inr (.inr ⟨fun other hother ↦ (h.lines other hother).accepted, number, hnumber,
    fun _ ↦ ⟨h.action, h.lines⟩⟩)

theorem faultless_freed (sessions : Std.ExtTreeMap UInt64 σ) (text : List UInt8) :
    Faultless sessions text ([.freed], sessions) :=
  ⟨by simp, by simp, by simp, rfl, fun _ hthere hgone ↦ absurd hthere hgone⟩

/-- Nothing but the release of the message is seen when it is handled without fault. -/
theorem Faultless.events {result : List MetaEvent × Std.ExtTreeMap UInt64 σ}
    (h : Faultless sessions text result) : result.1 = [.freed] := by
  have hall : ∀ event ∈ result.1, event = .freed := by
    intro event hevent
    cases event with
    | missingPart => exact absurd hevent h.parts
    | emptyOptional => exact absurd hevent h.optionals
    | exception => exact absurd hevent h.exceptions
    | freed => rfl
  have hlength := List.count_eq_length.mpr fun event hevent ↦ (hall event hevent).symm
  rw [h.freedOnce] at hlength
  exact List.eq_replicate_iff.mpr ⟨hlength.symm, hall⟩

/-- A message that does no harm is handled without fault. -/
theorem Harmless.faultless (h : Harmless sessions text) :
    Faultless sessions text (runMeta sessions text) := by
  unfold runMeta
  by_cases hshort : (metaLines text).length < 2
  · rw [if_pos hshort]
    exact faultless_freed sessions text
  · rw [if_neg hshort]
    rcases h with hless | ⟨before, line, behind, hlines, hbefore, hline⟩ |
      ⟨haccepted, sessionId, hlast, hclose⟩
    · exact absurd hless hshort
    · rw [hlines, metaLoop_otherAction hbefore hline]
      exact faultless_freed sessions text
    · obtain ⟨number, hloop, hnumber⟩ := metaLoop_all_accepted haccepted
      obtain rfl := (hnumber sessionId).mpr hlast
      rw [hloop]
      dsimp only
      split_ifs with hthere
      · refine ⟨by simp, by simp, by simp, rfl, fun other hother hgone ↦ ?_⟩
        obtain rfl : sessionId = other := by
          by_contra hne
          exact hgone (Std.ExtTreeMap.mem_erase.mpr ⟨by simpa using hne, hother⟩)
        obtain ⟨haction, hrequest⟩ := hclose hother
        obtain ⟨before, line, behind, hlines, hgives, -⟩ := hlast
        have hline : line ∈ metaLines text := by simp [hlines]
        exact ⟨haction, hrequest, line, hline, (hrequest line hline).names hgives⟩
      · exact faultless_freed sessions text

/-- A message that is handled without fault does no harm. -/
theorem Faultless.harmless (h : Faultless sessions text (runMeta sessions text)) :
    Harmless sessions text := by
  unfold runMeta at h
  by_cases hshort : (metaLines text).length < 2
  · exact .inl hshort
  · rw [if_neg hshort] at h
    right
    rcases accepted_or_first (metaLines text) with
      haccepted | ⟨before, line, behind, hlines, hbefore, hline⟩
    · right
      obtain ⟨number, hloop, hnumber⟩ := metaLoop_all_accepted haccepted
      rw [hloop] at h
      cases number with
      | none => exact absurd h.optionals (by simp)
      | some sessionId =>
        refine ⟨haccepted, sessionId, (hnumber sessionId).mp rfl, fun hthere ↦ ?_⟩
        dsimp only at h
        rw [if_pos hthere] at h
        have hclose := h.closes sessionId hthere (by simp)
        exact ⟨hclose.action, hclose.lines⟩
    · left
      refine ⟨before, line, behind, hlines, hbefore, ?_⟩
      by_contra hother
      obtain ⟨number, hloop, -⟩ := metaLoop_accepted hbefore none
      rw [hlines, hloop, metaLoop] at h
      rcases metaLine_fault hline hother with hfault | hfault | hfault <;> rw [hfault] at h
      · exact absurd h.parts (by simp)
      · exact absurd h.exceptions (by simp)
      · -- the message is released in the loop, and once more behind it unless there is a fault
        have hfaulted : (metaLoop behind number).2 = .faulted →
            .missingPart ∈ (metaLoop behind number).1 ∨ .exception ∈ (metaLoop behind number).1 :=
          metaLoop_faulted
        rcases hbehind : metaLoop behind number with ⟨events, _ | _ | _ | sessionId⟩
        · rw [hbehind] at h hfaulted
          rcases hfaulted rfl with hfault | hfault
          · exact h.parts (List.mem_cons_of_mem _ hfault)
          · exact h.exceptions (List.mem_cons_of_mem _ hfault)
        · rw [hbehind] at h
          exact absurd h.freedOnce (by simp)
        · rw [hbehind] at h
          exact absurd h.optionals (by simp)
        · rw [hbehind] at h
          refine absurd h.freedOnce ?_
          dsimp only
          split_ifs <;> simp

/-- `run_meta` of the three servers handles a message without fault exactly when the message does no
harm: it reads no part that a line does not have and no optional without a value, lets no exception
escape, releases the message once, and closes a session only for a request that names it. -/
theorem run_meta_faultless_iff (sessions : Std.ExtTreeMap UInt64 σ) (text : List UInt8) :
    (Faultless sessions text (httpRunMeta sessions text) ↔ Harmless sessions text) ∧
      (Faultless sessions text (vncRunMeta sessions text) ↔ Harmless sessions text) ∧
      (Faultless sessions text (gopherRunMeta sessions text) ↔ Harmless sessions text) :=
  have hrunMeta : Faultless sessions text (runMeta sessions text) ↔ Harmless sessions text :=
    ⟨Faultless.harmless, Harmless.faultless⟩
  ⟨hrunMeta, hrunMeta, hrunMeta⟩

/-- A message with an empty line at its end: the first part of that line is read. -/
theorem run_meta_reads_missing_part :
    ¬ Faultless (∅ : Std.ExtTreeMap UInt64 ℕ) (ascii "action=close\nsession-id=1\n")
      (httpRunMeta ∅ (ascii "action=close\nsession-id=1\n")) := by
  intro h
  exact h.parts (by decide +kernel)

-- an unknown key: the message is released in the loop and behind it
example : (gopherRunMeta (∅ : Std.ExtTreeMap UInt64 ℕ)
    (ascii "action=close\nsession-id=1\nx=1")).1 = [.freed, .freed] := by
  decide +kernel

end Messages

end MyIPNG.L7
