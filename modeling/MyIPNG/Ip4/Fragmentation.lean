import MyIPNG.Base.Tiling
import MyIPNG.Utils.Checksum

/-!
# Fragmentation

The loop of `run_out` in `ip4_server.cpp` that cuts the payload of a datagram into fragments and
sends each with a header of its own. The size of a fragment is the size of the link's packets
without the header, rounded down to a multiple of eight; both are `int` in the source and the result
is used as a `size_t`. The loop does not come to an end when that size is zero, so the model has an
amount of fuel and no result without enough of it.

For the packet sizes that leave room for eight bytes the loop ends, and the fragments are the tiles
of the payload (`fragmentLoop_tiles`).
-/

set_option autoImplicit false
set_option relaxedAutoImplicit false

namespace MyIPNG.Ip4

open Base Utils

/-! ### The code -/

/-- `addr_ip4`: four bytes. -/
structure Address where
  bytes : List UInt8
  length_eq : bytes.length = 4
deriving DecidableEq, Repr

/-- What the loop is about to send: the payload of an upper layer with the addresses, the protocol
of its sender and the random packet id. -/
structure Datagram where
  packetsId : UInt16
  protocol : UInt8
  source : Address
  destination : Address
  payload : List UInt8
deriving DecidableEq, Repr

/-- `use_mtu_size`: `(mtu_size - 20) & ~7`. -/
def useMtuSize (mtuSize : ℤ) : ℤ := (mtuSize - 20) / 8 * 8

/-- `size_t(use_mtu_size)`. -/
def useMtuSizeT (mtuSize : ℤ) : ℕ := (useMtuSize mtuSize % 2 ^ 64).toNat

/-- The header of a fragment, with a given checksum. -/
def fragmentHeader (datagram : Datagram) (fragmentOffset currentFragmentSize : ℕ)
    (checksum : UInt16) : List UInt8 :=
  let completeMsgSize := currentFragmentSize + 20
  let more : UInt8 :=
    if fragmentOffset + currentFragmentSize < datagram.payload.length then 1 else 0
  [((4 : UInt8) <<< 4) ||| 5, 0, UInt8.ofNat (completeMsgSize >>> 8), UInt8.ofNat completeMsgSize,
    (datagram.packetsId >>> 8).toUInt8, datagram.packetsId.toUInt8,
    UInt8.ofNat (fragmentOffset >>> 11) ||| (more <<< 5), UInt8.ofNat (fragmentOffset >>> 3),
    63, datagram.protocol, (checksum >>> 8).toUInt8, checksum.toUInt8] ++
    (datagram.source.bytes ++ datagram.destination.bytes)

/-- `complete_msg`: the header with its checksum, and a piece of the payload. -/
def completeMsg (datagram : Datagram) (fragmentOffset currentFragmentSize : ℕ) : List UInt8 :=
  let checksum := ipChecksum (fragmentHeader datagram fragmentOffset currentFragmentSize 0)
  fragmentHeader datagram fragmentOffset currentFragmentSize checksum ++
    slice datagram.payload fragmentOffset currentFragmentSize

/-- The fragmentation loop: the packets that the queue of the link takes. It stops at a packet that
the queue refuses. -/
def fragmentLoop (accepts : ℕ → Bool) (mtuSize : ℤ) (datagram : Datagram) :
    ℕ → ℕ → ℕ → Option (List (List UInt8))
  | 0, _, fragmentOffset => if fragmentOffset < datagram.payload.length then none else some []
  | fuel + 1, index, fragmentOffset =>
    if fragmentOffset < datagram.payload.length then
      let currentFragmentSize :=
        min (useMtuSizeT mtuSize) (datagram.payload.length - fragmentOffset)
      if accepts index then
        (fragmentLoop accepts mtuSize datagram fuel (index + 1)
          (fragmentOffset + currentFragmentSize)).map
            (completeMsg datagram fragmentOffset currentFragmentSize :: ·)
      else some []
    else some []

/-! ### The fragments are the tiles of the payload -/

/-- The packet that carries a tile of the payload. -/
def tileMsg (datagram : Datagram) (tile : Tile UInt8) : List UInt8 :=
  completeMsg datagram tile.1 tile.2.length

/-- The size of the fragments, for packet sizes that leave room for eight bytes. -/
theorem useMtuSizeT_spec {mtuSize : ℤ} (hlow : 28 ≤ mtuSize) (hhigh : mtuSize ≤ 65535) :
    0 < useMtuSizeT mtuSize ∧ 8 ∣ useMtuSizeT mtuSize ∧
      (useMtuSizeT mtuSize : ℤ) + 20 ≤ mtuSize := by
  unfold useMtuSizeT useMtuSize
  refine ⟨?_, ?_, ?_⟩ <;> omega

/-- The loop ends and sends the tiles of what is left of the payload. Assumes: fragments are not
empty, the queue takes every packet, and there is fuel for one turn a byte. -/
theorem fragmentLoop_tiles {accepts : ℕ → Bool} (haccepts : ∀ index, accepts index = true)
    {mtuSize : ℤ} (hsize : 0 < useMtuSizeT mtuSize) (datagram : Datagram) {fuel : ℕ} (index : ℕ)
    {fragmentOffset : ℕ} (hfuel : datagram.payload.length ≤ fragmentOffset + fuel) :
    fragmentLoop accepts mtuSize datagram fuel index fragmentOffset =
      some ((cut (useMtuSizeT mtuSize) datagram.payload fragmentOffset).map
        (tileMsg datagram)) := by
  induction fuel generalizing index fragmentOffset with
  | zero =>
    rw [fragmentLoop, if_neg (by omega), cut_end _ _ (by omega)]
    rfl
  | succ fuel ih =>
    by_cases hinside : fragmentOffset < datagram.payload.length
    · have hcount : fragmentOffset + min (useMtuSizeT mtuSize)
          (datagram.payload.length - fragmentOffset) ≤ datagram.payload.length := by omega
      rw [fragmentLoop, if_pos hinside, if_pos (haccepts index), ih (index + 1) (by omega),
        cut_eq hsize datagram.payload hinside, List.map_cons, Option.map_some, tileMsg,
        length_slice _ _ _ hcount]
    · rw [fragmentLoop, if_neg hinside, cut_end _ _ (by omega)]
      rfl

end MyIPNG.Ip4
