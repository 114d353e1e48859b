import MyIPNG.Utils.Str
import Mathlib.Algebra.Group.Int.Defs
import Mathlib.Algebra.Group.Nat.Defs
import Mathlib.Data.Int.Notation

/-!
# Addresses and their texts

`addr` of `utils/addresses.h`, the bytes of an address of any length, with the parts of `std::stoi`
and `memcmp` that it uses. The constructor from a text keeps the low byte of each number. A part
without a number ends its loop and leaves the rest of the bytes as `new` gave them; these are an
argument of the model. A number that is no `int` throws `std::out_of_range`, which no caller
catches. Comparing an address with a shorter one reads behind the end of the shorter one.
-/

set_option autoImplicit false
set_option relaxedAutoImplicit false

namespace MyIPNG.Utils

/-! ### `std::stoi` -/

/-- What `std::stoi` does: it returns a number or throws. -/
inductive Stoi
  | value (number : ℤ)
  | invalidArgument
  | outOfRange
deriving DecidableEq, Repr

/-- `isspace` of the C locale. -/
def isSpace (c : UInt8) : Bool := c == 32 || (9 ≤ c && c ≤ 13)

/-- The value of a digit of a base up to 36. -/
def digitValue (base : ℕ) (c : UInt8) : Option ℕ :=
  let value : Option ℕ :=
    if 48 ≤ c ∧ c ≤ 57 then some (c.toNat - 48)
    else if 97 ≤ c ∧ c ≤ 122 then some (c.toNat - 87)
    else if 65 ≤ c ∧ c ≤ 90 then some (c.toNat - 55)
    else none
  value.filter (· < base)

/-- The digits that a text begins with. -/
def leadingDigits (base : ℕ) : List UInt8 → List ℕ
  | [] => []
  | c :: rest =>
    match digitValue base c with
    | some digit => digit :: leadingDigits base rest
    | none => []

/-- A text without the `0x` that may stand before a number in base 16. -/
def dropHexMark : List UInt8 → List UInt8
  | 48 :: x :: c :: rest =>
    if (x = 120 ∨ x = 88) ∧ (digitValue 16 c).isSome then c :: rest else 48 :: x :: c :: rest
  | text => text

/-- `std::stoi` in base 10 or 16. -/
def stoi (base : ℕ) (text : List UInt8) : Stoi :=
  let text := text.dropWhile isSpace
  let negative := text.head? == some 45
  let text := if negative || text.head? == some 43 then text.drop 1 else text
  match leadingDigits base (if base = 16 then dropHexMark text else text) with
  | [] => .invalidArgument
  | digits =>
    let magnitude : ℤ := digits.foldl (fun (number : ℤ) (digit : ℕ) ↦ number * base + digit) 0
    let number := if negative then -magnitude else magnitude
    if number < -2 ^ 31 ∨ 2 ^ 31 ≤ number then .outOfRange else .value number

/-! ### Numbers in base 16 -/

/-- `{0:x}`: the text of a number in base 16. -/
def hexText (number : ℕ) : List UInt8 :=
  (Nat.toDigits 16 number).map fun c ↦ UInt8.ofNat c.toNat

/-- The byte of a digit below 16. -/
def hexByte (digit : ℕ) : UInt8 := UInt8.ofNat (Nat.digitChar digit).toNat

/-- A base in which numbers are read. -/
def IsBase (base : ℕ) : Prop := base = 10 ∨ base = 16

theorem IsBase.le {base : ℕ} (h : IsBase base) : base ≤ 16 := by
  rcases h with rfl | rfl
  · decide
  · decide

theorem digitValue_hexByte {base digit : ℕ} (hbase : IsBase base) (h : digit < base) :
    digitValue base (hexByte digit) = some digit := by
  rcases hbase with rfl | rfl
  · decide +revert
  · decide +revert

/-- A digit is no space, no sign, no mark of a number in base 16 and no splitter. -/
theorem digit_plain {c : UInt8} {digit : ℕ} (h : digitValue 16 c = some digit) :
    isSpace c = false ∧ c ≠ 45 ∧ c ≠ 43 ∧ c ≠ 120 ∧ c ≠ 88 ∧ c ≠ 46 ∧ c ≠ 58 ∧ c ≠ 61 := by
  have hall : ∀ n : Fin 256, (digitValue 16 (UInt8.ofNat n.val)).isSome →
      isSpace (UInt8.ofNat n.val) = false ∧ UInt8.ofNat n.val ≠ 45 ∧ UInt8.ofNat n.val ≠ 43 ∧
        UInt8.ofNat n.val ≠ 120 ∧ UInt8.ofNat n.val ≠ 88 ∧ UInt8.ofNat n.val ≠ 46 ∧
        UInt8.ofNat n.val ≠ 58 ∧ UInt8.ofNat n.val ≠ 61 := by
    decide +kernel
  have hc := hall ⟨c.toNat, c.toNat_lt⟩
  rw [UInt8.ofNat_toNat] at hc
  exact hc (by simp [h])

section Digits

variable {base : ℕ} {text : List UInt8} {digits : List ℕ}

theorem leadingDigits_of_map (h : text.map (digitValue base) = digits.map some) :
    leadingDigits base text = digits := by
  induction text generalizing digits with
  | nil =>
    rw [List.map_nil, eq_comm, List.map_eq_nil_iff] at h
    rw [h, leadingDigits]
  | cons c rest ih =>
    cases digits with
    | nil => exact absurd h (by simp)
    | cons digit digits =>
      obtain ⟨hdigit, hrest⟩ := List.cons.inj h
      rw [leadingDigits, hdigit, ih hrest]

theorem exists_digit (h : text.map (digitValue base) = digits.map some) {c : UInt8}
    (hc : c ∈ text) : ∃ digit, digitValue base c = some digit := by
  have hmem := List.mem_map_of_mem (f := digitValue base) hc
  rw [h] at hmem
  obtain ⟨digit, -, hdigit⟩ := List.mem_map.mp hmem
  exact ⟨digit, hdigit.symm⟩

theorem dropHexMark_of_map (h : text.map (digitValue 16) = digits.map some) :
    dropHexMark text = text := by
  unfold dropHexMark
  split
  · next x c rest =>
    -- the byte behind a leading zero is a digit
    obtain ⟨digit, hdigit⟩ := exists_digit h (c := x) (by simp)
    obtain ⟨-, -, -, hlower, hupper, -⟩ := digit_plain hdigit
    rw [if_neg (by simp [hlower, hupper])]
  · rfl

theorem map_digitValue_hexByte (hbase : IsBase base) (h : ∀ digit ∈ digits, digit < base) :
    (digits.map hexByte).map (digitValue base) = digits.map some := by
  rw [List.map_map]
  exact List.map_congr_left fun digit hdigit ↦ digitValue_hexByte hbase (h digit hdigit)

/-- The digits of a text of bytes make up a number. -/
structure Digits (base : ℕ) (text : List UInt8) (digits : List ℕ) (number : ℕ) : Prop where
  nonempty : digits ≠ []
  lt : ∀ digit ∈ digits, digit < base
  text_eq : text = digits.map hexByte
  value : digits.foldl (fun (value : ℤ) (digit : ℕ) ↦ value * base + digit) 0 = number

/-- The text of a number is the bytes of digits that make up the number. -/
theorem exists_digits (hbase : 1 < base) (number : ℕ) : ∃ digits,
    Digits base ((Nat.toDigits base number).map fun c ↦ UInt8.ofNat c.toNat) digits number := by
  induction number using Nat.strongRecOn with
  | _ number ih =>
    by_cases hsmall : number < base
    · refine ⟨[number], List.cons_ne_nil _ _, by simpa using hsmall, ?_, by simp⟩
      rw [Nat.toDigits_of_lt_base hsmall]
      rfl
    · have hle := Nat.le_of_not_lt hsmall
      obtain ⟨digits, hdigits⟩ := ih (number / base) (Nat.div_lt_self (by omega) hbase)
      refine ⟨digits ++ [number % base], by simp, ?_, ?_, ?_⟩
      · intro digit hdigit
        rcases List.mem_append.mp hdigit with hbefore | hlast
        · exact hdigits.lt digit hbefore
        · rw [List.mem_singleton.mp hlast]
          exact Nat.mod_lt _ (by omega)
      · rw [Nat.toDigits_of_base_le hbase hle, List.map_append, List.map_append, hdigits.text_eq]
        rfl
      · rw [List.foldl_append, hdigits.value, List.foldl_cons, List.foldl_nil]
        exact_mod_cast Nat.div_add_mod' number base

/-- What `std::stoi` reads from digits. -/
theorem Digits.stoi_eq {number : ℕ} (hbase : IsBase base) (h : Digits base text digits number) :
    stoi base text = if number < 2 ^ 31 then .value number else .outOfRange := by
  obtain ⟨hnonempty, hdigits, rfl, hvalue⟩ := h
  have hsixteen : ∀ digit ∈ digits, digit < 16 := fun digit hdigit ↦
    Nat.lt_of_lt_of_le (hdigits digit hdigit) hbase.le
  have hread : leadingDigits base (if base = 16 then dropHexMark (digits.map hexByte)
      else digits.map hexByte) = digits := by
    rw [dropHexMark_of_map (map_digitValue_hexByte (.inr rfl) hsixteen), ite_self,
      leadingDigits_of_map (map_digitValue_hexByte hbase hdigits)]
  obtain ⟨first, rest, rfl⟩ := List.exists_cons_of_ne_nil hnonempty
  obtain ⟨hspace, hminus, hplus, -⟩ :=
    digit_plain (digitValue_hexByte (.inr rfl) (hsixteen first List.mem_cons_self))
  have htrim : ((first :: rest).map hexByte).dropWhile isSpace = (first :: rest).map hexByte := by
    rw [List.map_cons, List.dropWhile_cons_of_neg (by simp [hspace])]
  have hhead : ((first :: rest).map hexByte).head? = some (hexByte first) := rfl
  rw [stoi]
  simp only [htrim, hhead, Option.some.injEq, beq_iff_eq, hminus, hplus, Bool.or_eq_true, or_self,
    if_false, hread]
  change (if _ then Stoi.outOfRange else Stoi.value _) = _
  rw [hvalue]
  by_cases hfits : number < 2 ^ 31
  · rw [if_neg (by omega), if_pos hfits]
  · rw [if_pos (by omega), if_neg hfits]

end Digits

theorem exists_digits_hexText (number : ℕ) :
    ∃ digits, Digits 16 (hexText number) digits number :=
  exists_digits (by decide) number

/-- What `std::stoi` reads from the text of a number. -/
theorem stoi_hexText (number : ℕ) :
    stoi 16 (hexText number) =
      if number < 2 ^ 31 then .value number else .outOfRange := by
  obtain ⟨digits, hdigits⟩ := exists_digits_hexText number
  exact hdigits.stoi_eq (.inr rfl)

/-! ### `addr` -/

/-- The loops of the constructor from the position `i` on: the bytes, or nothing when an exception
leaves it. -/
def addrLoop (base : ℕ) (fresh : ℕ → UInt8) : ℕ → List (List UInt8) → Option (List UInt8)
  | _, [] => some []
  | i, part :: rest =>
    match stoi base part with
    | .value number =>
      (addrLoop base fresh (i + 1) rest).map (UInt8.ofNat (number % 256).toNat :: ·)
    | .invalidArgument => some ((List.range' i (rest.length + 1)).map fresh)
    | .outOfRange => none

/-- `addr(what, seperator, is_hex)`. -/
def addrOfText (fresh : ℕ → UInt8) (what : List UInt8) (seperator : Splitter) (isHex : Bool) :
    Option (List UInt8) :=
  addrLoop (if isHex then 16 else 10) fresh 0 (split what seperator)

/-- The text of a byte, in decimal or as two hexadecimal digits. -/
def byteText (hex : Bool) (byte : UInt8) : List UInt8 :=
  let digits := if hex then [Nat.digitChar (byte.toNat / 16), Nat.digitChar (byte.toNat % 16)]
    else Nat.toDigits 10 byte.toNat
  digits.map fun c ↦ UInt8.ofNat c.toNat

/-- `to_str`. -/
def toStr (splitter : UInt8) (hex : Bool) (a : List UInt8) : List UInt8 :=
  [splitter].intercalate (a.map (byteText hex))

/-- `operator==`: nothing when `memcmp` reads behind the end of the second address. -/
def addrEq (a input : List UInt8) : Option Bool :=
  if a.length ≤ input.length then some (input.take a.length = a) else none

/-! ### An address read from its text -/

theorem exists_digits_byteText (hex : Bool) (byte : UInt8) :
    ∃ digits, Digits (if hex then 16 else 10) (byteText hex byte) digits byte.toNat := by
  cases hex with
  | false => exact exists_digits (by decide) byte.toNat
  | true =>
    have hbyte := byte.toNat_lt
    refine ⟨[byte.toNat / 16, byte.toNat % 16], List.cons_ne_nil _ _, ?_, rfl, ?_⟩
    · simp only [List.forall_mem_cons, if_true]
      exact ⟨by omega, by omega, by simp⟩
    · change (0 * 16 + ((byte.toNat / 16 : ℕ) : ℤ)) * 16 + ((byte.toNat % 16 : ℕ) : ℤ) = byte.toNat
      omega

/-- The text of a byte is its number in digits. -/
theorem byteText_spec (hex : Bool) (byte : UInt8) :
    stoi (if hex then 16 else 10) (byteText hex byte) = .value byte.toNat ∧
      byteText hex byte ≠ [] ∧ 46 ∉ byteText hex byte ∧ 58 ∉ byteText hex byte ∧
      61 ∉ byteText hex byte := by
  have hbase : IsBase (if hex then 16 else 10) := by
    cases hex with
    | false => exact .inl rfl
    | true => exact .inr rfl
  have hbyte := byte.toNat_lt
  obtain ⟨digits, hdigits⟩ := exists_digits_byteText hex byte
  have hread := hdigits.stoi_eq hbase
  rw [if_pos (show byte.toNat < 2 ^ 31 by omega)] at hread
  have hplain : ∀ c ∈ byteText hex byte, c ≠ 46 ∧ c ≠ 58 ∧ c ≠ 61 := by
    intro c hc
    rw [hdigits.text_eq] at hc
    obtain ⟨digit, hdigit, rfl⟩ := List.mem_map.mp hc
    have hsixteen := Nat.lt_of_lt_of_le (hdigits.lt digit hdigit) hbase.le
    exact (digit_plain (digitValue_hexByte (.inr rfl) hsixteen)).2.2.2.2.2
  refine ⟨hread, ?_, fun hmem ↦ (hplain _ hmem).1 rfl, fun hmem ↦ (hplain _ hmem).2.1 rfl,
    fun hmem ↦ (hplain _ hmem).2.2 rfl⟩
  rw [hdigits.text_eq]
  exact fun hempty ↦ hdigits.nonempty (List.map_eq_nil_iff.mp hempty)

theorem addrLoop_byteText (hex : Bool) (fresh : ℕ → UInt8) (i : ℕ) (a : List UInt8) :
    addrLoop (if hex then 16 else 10) fresh i (a.map (byteText hex)) = some a := by
  induction a generalizing i with
  | nil => rfl
  | cons byte rest ih =>
    have hlow : UInt8.ofNat (((byte.toNat : ℤ) % 256).toNat) = byte := by
      have hlt := byte.toNat_lt
      rw [show ((byte.toNat : ℤ) % 256).toNat = byte.toNat by omega, UInt8.ofNat_toNat]
    rw [List.map_cons, addrLoop, (byteText_spec hex byte).1, ih (i + 1)]
    change some (UInt8.ofNat (((byte.toNat : ℤ) % 256).toNat) :: rest) = _
    rw [hlow]

/-- The text of an address reads back as the address, when it is cut at the byte that joined it.
Assumes: no byte of the address has the splitter in its text. -/
theorem addrOfText_toStr (fresh : ℕ → UInt8) {c : UInt8} {hex : Bool}
    (habsent : ∀ byte, c ∉ byteText hex byte) {a : List UInt8} (ha : a ≠ []) (hc : [c] ≠ []) :
    addrOfText fresh (toStr c hex a) ⟨[c], hc⟩ hex = some a := by
  have hsplit : split (toStr c hex a) ⟨[c], hc⟩ = a.map (byteText hex) := by
    refine split_intercalate hc (by simpa using ha) ?_ ?_
    · intro part hpart
      obtain ⟨byte, -, rfl⟩ := List.mem_map.mp hpart
      exact (byteText_spec hex byte).2.1
    · intro part hpart
      obtain ⟨byte, -, rfl⟩ := List.mem_map.mp hpart
      exact habsent byte
  rw [addrOfText, hsplit]
  exact addrLoop_byteText hex fresh 0 a

/-- The text of an address reads back as the address, in decimal with dots and in base 16 with
colons, whatever the bytes of the address and however many there are. No exception leaves the
constructor and no byte stays as `new` gave it. -/
theorem address_text_lossless (fresh : ℕ → UInt8) (a : List UInt8) :
    addrOfText fresh (toStr 46 false a) ⟨ascii ".", ascii_dot_nonempty⟩ false = some a ∧
      addrOfText fresh (toStr 58 true a) ⟨ascii ":", ascii_colon_nonempty⟩ true = some a := by
  have hdot : (⟨ascii ".", ascii_dot_nonempty⟩ : Splitter) = ⟨[46], by decide⟩ := by decide +kernel
  have hcolon : (⟨ascii ":", ascii_colon_nonempty⟩ : Splitter) = ⟨[58], by decide⟩ := by
    decide +kernel
  rw [hdot, hcolon]
  by_cases hempty : a = []
  · -- the text of no bytes is empty and has no part
    subst hempty
    constructor <;> simp [addrOfText, toStr, split, find, addrLoop]
  · exact ⟨addrOfText_toStr fresh (fun byte ↦ (byteText_spec false byte).2.2.1) hempty _,
      addrOfText_toStr fresh (fun byte ↦ (byteText_spec true byte).2.2.2.1) hempty _⟩

/-- The text of an address has no byte that occurs neither in the texts of bytes nor as its
splitter. -/
theorem not_mem_toStr {c splitter : UInt8} {hex : Bool} (hc : c ≠ splitter)
    (habsent : ∀ byte, c ∉ byteText hex byte) (a : List UInt8) : c ∉ toStr splitter hex a := by
  induction a with
  | nil => exact List.not_mem_nil
  | cons byte rest ih =>
    cases rest with
    | nil =>
      rw [toStr, List.map_singleton, List.intercalate_singleton]
      exact habsent byte
    | cons next rest =>
      rw [toStr, List.map_cons, List.map_cons, List.intercalate_cons_cons]
      intro hmem
      rcases List.mem_append.mp hmem with hfront | hbehind
      · rcases List.mem_append.mp hfront with hbyte | hsplitter
        · exact habsent byte hbyte
        · exact hc (List.mem_singleton.mp hsplitter)
      · exact ih hbehind

theorem toStr_ne_nil {splitter : UInt8} {hex : Bool} {a : List UInt8} (ha : a ≠ []) :
    toStr splitter hex a ≠ [] := by
  obtain ⟨byte, rest, rfl⟩ := List.exists_cons_of_ne_nil ha
  have hbyte := (byteText_spec hex byte).2.1
  cases rest with
  | nil => simpa [toStr] using hbyte
  | cons next rest => simp [toStr, List.intercalate_cons_cons]

-- two texts that `tests/addresses_test.cpp` compares
example : addrOfText (fun _ ↦ 0) (ascii "1.2.33.4") ⟨ascii ".", by decide⟩ true =
    addrOfText (fun _ ↦ 0) (ascii "1.2.51.4") ⟨ascii ".", by decide⟩ false := by
  decide +kernel

example : toStr 58 true [0, 171, 16] = ascii "00:ab:10" := by decide +kernel

end MyIPNG.Utils
