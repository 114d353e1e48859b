import MyIPNG.Tcp.Meta

/-!
# The text of a request

What the lines of a message for `run_meta` say, apart from the order in which `run_meta` goes
through them. `item` is the meaning of one line: a key that is known, and the text of its value. A
line is read to its end when it has such a meaning and no number in it is out of range
(`Item.fits`). `Readable` and `Refused` are the messages of which every line is read, and those of
which some line has no meaning and all lines before it are read.

`parseLines_of_readable`, `parseLines_of_refused` and `parseLines_of_neither` say what `run_meta`
makes of each kind, and `field_foldl_setIn` that the last line with a key decides.
-/

set_option autoImplicit false
set_option relaxedAutoImplicit false

namespace MyIPNG.Tcp

open Base Utils

/-! ### Lines -/

/-- What a line says. -/
inductive Item
  | action (action : Action)
  | sessionId (value : List UInt8)
  | dstPort (value : List UInt8)
  | dstAddr (value : List UInt8)
  | shmDataAddress (value : List UInt8)
deriving DecidableEq, Repr

/-- The meaning of a line that is a known key and one value. -/
def item (line : List UInt8) : Option Item :=
  match split line ⟨ascii "=", ascii_equals_nonempty⟩ with
  | [key, value] =>
    if key = ascii "action" then
      if value = ascii "open" then some (.action .open)
      else if value = ascii "close" then some (.action .close)
      else none
    else if key = ascii "session-id" then some (.sessionId value)
    else if key = ascii "dst-port" then some (.dstPort value)
    else if key = ascii "dst-addr-ip4" then some (.dstAddr value)
    else if key = ascii "shm-data-address" then some (.shmDataAddress value)
    else none
  | _ => none

/-- The number that a text begins with. -/
def numberOf (base : ℕ) (text : List UInt8) : Option ℤ :=
  match stoi base text with
  | .value number => some number
  | _ => none

/-- The parts of the text of an address. -/
def addrParts (value : List UInt8) : List (List UInt8) :=
  split value ⟨ascii ".", ascii_dot_nonempty⟩

/-- No number of the line is out of range. Those of an address count up to the first part that has
no number. -/
def Item.fits : Item → Bool
  | .action _ => true
  | .sessionId value => stoi 16 value ≠ .outOfRange
  | .dstPort value => stoi 10 value ≠ .outOfRange
  | .dstAddr value =>
    ((addrParts value).takeWhile fun part ↦ stoi 10 part ≠ .invalidArgument).all fun part ↦
      stoi 10 part ≠ .outOfRange
  | .shmDataAddress _ => true

/-- What a line that is read sets. -/
def Item.setIn (freshBytes : ℕ → UInt8) (request : MetaRequest) : Item → MetaRequest
  | .action wanted => { request with action := wanted }
  | .sessionId value => { request with sessionId := (numberOf 16 value).map UInt64.ofInt }
  | .dstPort value => { request with dstPort := (numberOf 10 value).map UInt16.ofInt }
  | .dstAddr value =>
    { request with
      dstAddr := addrOfText freshBytes value ⟨ascii ".", ascii_dot_nonempty⟩ false }
  | .shmDataAddress value => { request with shmDataAddress := some value }

/-! ### Addresses -/

/-- The bytes of an address are as many as the parts of its text. -/
theorem length_of_addrLoop {base : ℕ} {fresh : ℕ → UInt8} {i : ℕ} {parts : List (List UInt8)}
    {a : List UInt8} (h : addrLoop base fresh i parts = some a) : a.length = parts.length := by
  induction parts generalizing i a with
  | nil =>
    rw [← Option.some.inj h]
    rfl
  | cons part rest ih =>
    unfold addrLoop at h
    split at h
    · obtain ⟨behind, hbehind, rfl⟩ := Option.map_eq_some_iff.mp h
      rw [List.length_cons, List.length_cons, ih hbehind]
    · rw [← Option.some.inj h]
      simp
    · exact absurd h (by simp)

/-- The constructor returns when no number that it comes to is out of range. -/
theorem isSome_addrLoop (base : ℕ) (fresh : ℕ → UInt8) (i : ℕ) (parts : List (List UInt8)) :
    (addrLoop base fresh i parts).isSome =
      (parts.takeWhile fun part ↦ stoi base part ≠ .invalidArgument).all fun part ↦
        stoi base part ≠ .outOfRange := by
  induction parts generalizing i with
  | nil => rfl
  | cons part rest ih =>
    cases hpart : stoi base part with
    | value number => simp [addrLoop, hpart, ih (i + 1)]
    | invalidArgument => simp [addrLoop, hpart]
    | outOfRange => simp [addrLoop, hpart]

theorem fits_dstAddr (freshBytes : ℕ → UInt8) (value : List UInt8) :
    (Item.dstAddr value).fits =
      (addrOfText freshBytes value ⟨ascii ".", ascii_dot_nonempty⟩ false).isSome :=
  (isSome_addrLoop 10 freshBytes 0 (addrParts value)).symm

/-! ### What `run_meta` makes of a line -/

/-- `my_stoi_hex` and `my_stoi_dec` return the number that the text begins with, when an exception
does not leave them. -/
theorem myStoi_eq (base : ℕ) (text : List UInt8) :
    myStoi base text =
      if stoi base text = .outOfRange then none else some (numberOf base text) := by
  rw [myStoi, numberOf]
  cases stoi base text <;> simp

/-- A line without a meaning is invalid, a number out of range throws, and every other line sets its
field. -/
theorem parseLine_eq (freshBytes : ℕ → UInt8) (line : List UInt8) (request : MetaRequest) :
    parseLine freshBytes line request =
      (item line).elim .invalid fun known ↦
        if known.fits then .request (known.setIn freshBytes request) else .throws := by
  unfold parseLine item
  generalize split line ⟨ascii "=", ascii_equals_nonempty⟩ = parts
  rcases parts with _ | ⟨key, _ | ⟨value, _ | ⟨more, rest⟩⟩⟩
  · rfl
  · rfl
  · dsimp only
    split_ifs
    · rfl
    · rfl
    · rfl
    · rw [myStoi_eq]
      by_cases hrange : stoi 16 value = .outOfRange <;> simp [Item.fits, Item.setIn, hrange]
    · rw [myStoi_eq]
      by_cases hrange : stoi 10 value = .outOfRange <;> simp [Item.fits, Item.setIn, hrange]
    · rw [Option.elim_some, fits_dstAddr freshBytes, Item.setIn]
      cases addrOfText freshBytes value ⟨ascii ".", ascii_dot_nonempty⟩ false <;> rfl
    · rfl
    · rfl
  · rfl

/-! ### Messages -/

/-- The line is read to its end. -/
def ReadsOn (line : List UInt8) : Prop := ∃ known, item line = some known ∧ known.fits = true

instance decidableReadsOn (line : List UInt8) : Decidable (ReadsOn line) :=
  decidable_of_iff ((item line).any Item.fits = true) (Option.any_eq_true Item.fits (item line))

/-- Every line of the message is read. -/
def Readable (lines : List (List UInt8)) : Prop := ∀ line ∈ lines, ReadsOn line

instance decidableReadable (lines : List (List UInt8)) : Decidable (Readable lines) :=
  List.decidableBAll ReadsOn lines

/-- Some line of the message has no meaning, and all lines before it are read. -/
def Refused : List (List UInt8) → Prop
  | [] => False
  | line :: rest => item line = none ∨ (ReadsOn line ∧ Refused rest)

/-- The lines of a message. -/
def requestLines (data : List UInt8) : List (List UInt8) :=
  split data ⟨ascii "\n", ascii_newline_nonempty⟩

/-- The value of the last line of a kind. -/
def lastItem {α : Type} (select : Item → Option α) (lines : List (List UInt8)) : Option α :=
  ((lines.filterMap item).filterMap select).getLast?

section Messages

variable (freshBytes : ℕ → UInt8) {lines : List (List UInt8)}

theorem parseLine_of_readsOn {line : List UInt8} {known : Item} (hknown : item line = some known)
    (hfits : known.fits = true) (request : MetaRequest) :
    parseLine freshBytes line request = .request (known.setIn freshBytes request) := by
  rw [parseLine_eq, hknown, Option.elim_some, if_pos hfits]

theorem parseLines_of_readable (h : Readable lines) (request : MetaRequest) :
    parseLines freshBytes lines request =
      .request ((lines.filterMap item).foldl (Item.setIn freshBytes) request) := by
  induction lines generalizing request with
  | nil => rfl
  | cons line rest ih =>
    obtain ⟨hline, hrest⟩ := List.forall_mem_cons.mp h
    obtain ⟨known, hknown, hfits⟩ := hline
    rw [parseLines, parseLine_of_readsOn freshBytes hknown hfits,
      List.filterMap_cons_some hknown, List.foldl_cons]
    exact ih hrest _

theorem parseLines_of_refused (h : Refused lines) (request : MetaRequest) :
    parseLines freshBytes lines request = .invalid := by
  induction lines generalizing request with
  | nil => exact h.elim
  | cons line rest ih =>
    rcases h with hnone | ⟨⟨known, hknown, hfits⟩, hrest⟩
    · rw [parseLines, parseLine_eq, hnone]
      rfl
    · rw [parseLines, parseLine_of_readsOn freshBytes hknown hfits]
      exact ih hrest _

theorem parseLines_of_neither (hreadable : ¬ Readable lines) (hrefused : ¬ Refused lines)
    (request : MetaRequest) : parseLines freshBytes lines request = .throws := by
  induction lines generalizing request with
  | nil => exact absurd (fun _ hline ↦ absurd hline List.not_mem_nil) hreadable
  | cons line rest ih =>
    cases hitem : item line with
    | none => exact absurd (Or.inl hitem) hrefused
    | some known =>
      cases hfits : known.fits with
      | false =>
        rw [parseLines, parseLine_eq, hitem, Option.elim_some, hfits]
        rfl
      | true =>
        have hline : ReadsOn line := ⟨known, hitem, hfits⟩
        rw [parseLines, parseLine_of_readsOn freshBytes hitem hfits]
        refine ih (fun hrest ↦ hreadable ?_) (fun hrest ↦ hrefused ?_) _
        · exact List.forall_mem_cons.mpr ⟨hline, hrest⟩
        · exact Or.inr ⟨hline, hrest⟩

/-- A field of the request is what the last line that sets it says, and what it was before when
there is none. Assumes: a line sets the field exactly when `select` finds a value in it. -/
theorem field_foldl_setIn {α β : Type} (field : MetaRequest → β) (select : Item → Option α)
    (read : α → β)
    (hset : ∀ request known, field (Item.setIn freshBytes request known) =
      (select known).elim (field request) read) (items : List Item) (request : MetaRequest) :
    field (items.foldl (Item.setIn freshBytes) request) =
      ((items.filterMap select).getLast?).elim (field request) read := by
  induction items using List.reverseRecOn with
  | nil => rfl
  | append_singleton items known ih =>
    rw [List.foldl_append, List.foldl_cons, List.foldl_nil, hset, ih, List.filterMap_append]
    cases hselect : select known with
    | none =>
      rw [List.filterMap_cons_none hselect, List.filterMap_nil, List.append_nil]
      rfl
    | some value =>
      rw [List.filterMap_cons_some hselect, List.filterMap_nil, List.getLast?_concat]
      rfl

end Messages

end MyIPNG.Tcp
