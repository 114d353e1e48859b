import MyIPNG.Base.Bytes

/-!
# SipHash

`siphash` of `3dparty/SipHash`, with two rounds for a word of input, four at the end and eight bytes
of output, which its callers read as two 32-bit numbers. The keys of the records and the SYN cookies
are made with it.
-/

set_option autoImplicit false
set_option relaxedAutoImplicit false

namespace MyIPNG.Utils

open Base

/-- The four words of the state. -/
structure SipState where
  v0 : UInt64
  v1 : UInt64
  v2 : UInt64
  v3 : UInt64
deriving DecidableEq, Repr

/-- `ROTL`. -/
def rotl (x b : UInt64) : UInt64 := (x <<< b) ||| (x >>> (64 - b))

/-- `SIPROUND`. -/
def sipRound (state : SipState) : SipState :=
  let v0 := state.v0 + state.v1
  let v1 := rotl state.v1 13 ^^^ v0
  let v0 := rotl v0 32
  let v2 := state.v2 + state.v3
  let v3 := rotl state.v3 16 ^^^ v2
  let v0 := v0 + v3
  let v3 := rotl v3 21 ^^^ v0
  let v2 := v2 + v1
  let v1 := rotl v1 17 ^^^ v2
  let v2 := rotl v2 32
  ⟨v0, v1, v2, v3⟩

/-- `U8TO64_LE`: the number of at most eight bytes. -/
def u8To64Le (p : List UInt8) : UInt64 := UInt64.ofNat (leValue p)

/-- A word of the input: mixed in, `cROUNDS` rounds, mixed in again. -/
def absorb (state : SipState) (m : UInt64) : SipState :=
  let state := sipRound (sipRound { state with v3 := state.v3 ^^^ m })
  { state with v0 := state.v0 ^^^ m }

/-- `siphash` of an input under a key of sixteen bytes, as the two numbers of `sip_out`. -/
def siphash (input k : List UInt8) : UInt32 × UInt32 :=
  let k0 := u8To64Le (slice k 0 8)
  let k1 := u8To64Le (slice k 8 8)
  let start : SipState := ⟨0x736f6d6570736575 ^^^ k0, 0x646f72616e646f6d ^^^ k1,
    0x6c7967656e657261 ^^^ k0, 0x7465646279746573 ^^^ k1⟩
  let words := (List.range (input.length / 8)).map fun i ↦ u8To64Le (slice input (8 * i) 8)
  let left := input.drop (input.length / 8 * 8)
  let b := (UInt64.ofNat input.length <<< 56) ||| u8To64Le left
  let state := absorb (words.foldl absorb start) b
  let state := sipRound (sipRound (sipRound (sipRound { state with v2 := state.v2 ^^^ 0xff })))
  let b := state.v0 ^^^ state.v1 ^^^ state.v2 ^^^ state.v3
  (b.toUInt32, (b >>> 32).toUInt32)

-- two of the reference values of `vectors.h`, for the key `0, 1, …, 15`
example : siphash [] ((List.range 16).map UInt8.ofNat) = (0xdd0e0e31, 0x726fdb47) := by
  decide +kernel

example : siphash [0, 1, 2, 3, 4, 5, 6, 7, 8] ((List.range 16).map UInt8.ofNat) =
    (0x0ba9e4b0, 0x9e0082df) := by
  decide +kernel

end MyIPNG.Utils
