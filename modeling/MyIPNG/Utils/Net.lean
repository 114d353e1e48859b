import Mathlib.Data.Nat.Bitwise

/-!
# Numbers in network order

`utils/net.cpp`: `put_uint16` and `put_uint32` write a number with its high byte first, `get_uint16`
and `get_uint32` read it. Reading is from a position of a buffer. `uint16_of_bytes` and
`uint32_of_bytes` put a number together from its bytes.
-/

set_option autoImplicit false
set_option relaxedAutoImplicit false

namespace MyIPNG.Utils

/-- `get_uint16` at a position. -/
def getUint16 (pl : List UInt8) (position : ℕ) : UInt16 :=
  ((pl.getD position 0).toUInt16 <<< 8) ||| (pl.getD (position + 1) 0).toUInt16

/-- `get_uint32` at a position. -/
def getUint32 (pl : List UInt8) (position : ℕ) : UInt32 :=
  ((pl.getD position 0).toUInt32 <<< 24) ||| ((pl.getD (position + 1) 0).toUInt32 <<< 16) |||
    ((pl.getD (position + 2) 0).toUInt32 <<< 8) ||| (pl.getD (position + 3) 0).toUInt32

/-- `put_uint16`. -/
def putUint16 (number : UInt16) : List UInt8 := [(number >>> 8).toUInt8, number.toUInt8]

/-- `put_uint32`. -/
def putUint32 (number : UInt32) : List UInt8 :=
  [(number >>> 24).toUInt8, (number >>> 16).toUInt8, (number >>> 8).toUInt8, number.toUInt8]

/-- A number is read from the start of a buffer that holds it. -/
theorem getUint16_take (pl : List UInt8) {position n : ℕ} (h : position + 2 ≤ n) :
    getUint16 (pl.take n) position = getUint16 pl position := by
  simp only [getUint16, List.getD_eq_getElem?_getD]
  rw [List.getElem?_take_of_lt (by omega), List.getElem?_take_of_lt (by omega)]

theorem getUint32_take (pl : List UInt8) {position n : ℕ} (h : position + 4 ≤ n) :
    getUint32 (pl.take n) position = getUint32 pl position := by
  simp only [getUint32, List.getD_eq_getElem?_getD]
  rw [List.getElem?_take_of_lt (by omega), List.getElem?_take_of_lt (by omega),
    List.getElem?_take_of_lt (by omega), List.getElem?_take_of_lt (by omega)]

@[simp] theorem length_putUint16 (number : UInt16) : (putUint16 number).length = 2 := rfl

@[simp] theorem length_putUint32 (number : UInt32) : (putUint32 number).length = 4 := rfl

/-- A number that ends in zero bits, with a smaller number put in their place. -/
theorem mul_or_eq_add {high low : ℕ} (width : ℕ) (hlow : low < 2 ^ width) :
    high * 2 ^ width ||| low = high * 2 ^ width + low := by
  rw [← Nat.shiftLeft_eq]
  exact (Nat.shiftLeft_add_eq_or_of_lt hlow high).symm

/-- A sixteen-bit number from its two bytes. -/
theorem uint16_of_bytes (number : UInt16) :
    ((number >>> 8).toUInt8.toUInt16 <<< 8) ||| number.toUInt8.toUInt16 = number := by
  have hlt := number.toNat_lt
  rw [← UInt16.toNat_inj]
  simp only [UInt16.toNat_or, UInt16.toNat_shiftLeft, UInt8.toNat_toUInt16, UInt16.toNat_toUInt8,
    UInt16.toNat_shiftRight]
  change (number.toNat >>> 8 % 256) <<< 8 % 65536 ||| number.toNat % 256 = number.toNat
  rw [Nat.shiftLeft_eq, Nat.shiftRight_eq_div_pow, Nat.mod_eq_of_lt (by omega),
    mul_or_eq_add 8 (by omega)]
  omega

/-- A thirty-two-bit number from its four bytes. -/
theorem uint32_of_bytes (number : UInt32) :
    ((number >>> 24).toUInt8.toUInt32 <<< 24) ||| ((number >>> 16).toUInt8.toUInt32 <<< 16) |||
      ((number >>> 8).toUInt8.toUInt32 <<< 8) ||| number.toUInt8.toUInt32 = number := by
  have hlt := number.toNat_lt
  rw [← UInt32.toNat_inj]
  simp only [UInt32.toNat_or, UInt32.toNat_shiftLeft, UInt8.toNat_toUInt32, UInt32.toNat_toUInt8,
    UInt32.toNat_shiftRight]
  change (number.toNat >>> 24 % 256) <<< 24 % 2 ^ 32 |||
    (number.toNat >>> 16 % 256) <<< 16 % 2 ^ 32 ||| (number.toNat >>> 8 % 256) <<< 8 % 2 ^ 32 |||
      number.toNat % 256 = number.toNat
  simp only [Nat.shiftLeft_eq, Nat.shiftRight_eq_div_pow]
  generalize number.toNat = n at *
  -- Each byte goes into the zero bits below the bytes before it, so a disjunction is a sum.
  rw [Nat.mod_eq_of_lt (show n / 2 ^ 24 % 256 * 2 ^ 24 < 2 ^ 32 by omega),
    Nat.mod_eq_of_lt (show n / 2 ^ 16 % 256 * 2 ^ 16 < 2 ^ 32 by omega),
    Nat.mod_eq_of_lt (show n / 2 ^ 8 % 256 * 2 ^ 8 < 2 ^ 32 by omega)]
  rw [mul_or_eq_add 24 (by omega),
    show n / 2 ^ 24 % 256 * 2 ^ 24 + n / 2 ^ 16 % 256 * 2 ^ 16 = n / 2 ^ 16 * 2 ^ 16 by omega,
    mul_or_eq_add 16 (by omega),
    show n / 2 ^ 16 * 2 ^ 16 + n / 2 ^ 8 % 256 * 2 ^ 8 = n / 2 ^ 8 * 2 ^ 8 by omega,
    mul_or_eq_add 8 (by omega)]
  omega

/-- A number is read from behind a part of the buffer. -/
theorem getUint32_append (front back : List UInt8) (position : ℕ) :
    getUint32 (front ++ back) (front.length + position) = getUint32 back position := by
  simp only [getUint32, List.getD_eq_getElem?_getD, Nat.add_assoc]
  rw [List.getElem?_append_right (by omega), List.getElem?_append_right (by omega),
    List.getElem?_append_right (by omega), List.getElem?_append_right (by omega)]
  simp only [Nat.add_sub_cancel_left]

/-- A number that was put into a buffer is read back. -/
theorem getUint32_putUint32 (number : UInt32) (back : List UInt8) :
    getUint32 (putUint32 number ++ back) 0 = number := uint32_of_bytes number

end MyIPNG.Utils
