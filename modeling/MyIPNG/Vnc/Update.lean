import Mathlib.Data.Int.Notation
import MyIPNG.Base.Reading

/-!
# Updates of the framebuffer

`calculate_fb_update` of `vnc_server.cpp`: the message with a rectangle of the screen that a client
has asked for. The pixels of the screen are three bytes each, and a pixel in an update has four
bytes or one, as the depth says. The encodings are those of the RFB protocol: raw pixels, tiles of
16 by 16 pixels (hextile), a stream of zlib and a JPEG picture. The compressors of the last two are
parameters.

All reads of the framebuffer are logged. Behind its end is other memory. What is written to the
message is written from its start on without a gap, so that the bytes of the message have the
positions to which they are written.
-/

set_option autoImplicit false
set_option relaxedAutoImplicit false

namespace MyIPNG.Vnc

open Base Base.Reading

/-! ### The screen -/

/-- `frame_buffer`: the size of the screen and three bytes for each of its pixels. -/
structure FrameBuffer where
  w : ℕ
  h : ℕ
  buffer : List UInt8
  size : buffer.length = 3 * w * h

/-- Red, green and blue. -/
abbrev Rgb := UInt8 × UInt8 × UInt8

/-- The three bytes of the framebuffer at an offset. -/
def pixel (memory : ℕ → UInt8) (offset : ℕ) : Reading Rgb := do
  let r ← cell memory offset
  let g ← cell memory (offset + 1)
  let b ← cell memory (offset + 2)
  pure (r, g, b)

/-- The byte for a pixel at depth 8. -/
def byteOfPixel (r g b : UInt8) : UInt8 :=
  (r &&& (0xe0 : UInt8)) ||| ((g >>> (3 : UInt8)) &&& (0x1c : UInt8)) ||| (b >>> (6 : UInt8))

/-- `encode_pixel`. -/
def encodePixel (depth : UInt8) (rgb : Rgb) : List UInt8 :=
  if depth = 32 ∨ depth = 24 then [rgb.2.2, rgb.2.1, rgb.1, 255]
  else if depth = 8 then [byteOfPixel rgb.1 rgb.2.1 rgb.2.2]
  else []

/-- The parameters of a FramebufferUpdateRequest. -/
structure FbRequest where
  incremental : Bool
  x : ℕ
  y : ℕ
  w : ℕ
  h : ℕ
deriving DecidableEq, Repr

/-! ### Hextile -/

/-- The values of a loop variable that starts at zero and grows by 16 while it is below a bound. -/
def tileStarts (bound : ℕ) : List ℕ := (List.range ((bound + 15) / 16)).map (· * 16)

/-- The pixels of a tile, row by row: `ty` and `tx`. -/
def tilePositions : List (ℕ × ℕ) :=
  (List.range 16).flatMap fun ty ↦ (List.range 16).map fun tx ↦ (ty, tx)

/-- The offset of a pixel of the tile at `x` and `y`. -/
def tileOffset (w x y : ℕ) (position : ℕ × ℕ) : ℕ :=
  (y + position.1) * w * 3 + (x + position.2) * 3

/-- The scan of a tile for a pixel that is different from the first one. -/
def scanTile (memory : ℕ → UInt8) (w x y : ℕ) (solid : Rgb) : List (ℕ × ℕ) → Reading Bool
  | [] => pure false
  | position :: positions => do
    let current ← pixel memory (tileOffset w x y position)
    if current ≠ solid then pure true else scanTile memory w x y solid positions

/-- A tile: raw pixels, or the background of a tile with one colour. -/
def hextileTile (memory : ℕ → UInt8) (w : ℕ) (depth : UInt8) (x y : ℕ) : Reading (List UInt8) := do
  let solid ← pixel memory (y * w * 3 + x * 3)
  let different ← scanTile memory w x y solid tilePositions
  if different then
    let pixels ← each tilePositions fun position ↦ do
      let current ← pixel memory (tileOffset w x y position)
      pure (encodePixel depth current)
    pure (1 :: pixels)
  else pure (2 :: encodePixel depth solid)

/-- `hextile`. -/
def hextile (memory : ℕ → UInt8) (w h : ℕ) (depth : UInt8) : Reading (List UInt8) :=
  each (tileStarts h) fun y ↦ each (tileStarts w) fun x ↦ hextileTile memory w depth x y

/-! ### Raw pixels -/

/-- The two loops over the rectangle, and what they make of a pixel. -/
def eachPixel {α : Type} (memory : ℕ → UInt8) (request : FbRequest) (make : Rgb → List α) :
    Reading (List α) :=
  each (List.range' request.y request.h) fun yo ↦
    each (List.range' request.x request.w) fun xo ↦ do
      let current ← pixel memory (yo * request.w * 3 + xo * 3)
      pure (make current)

/-- The bits of pixels in black and white, eight in a byte. Bits that do not fill a byte are left
out. -/
def packBits : UInt8 → ℕ → List Bool → List UInt8
  | _, _, [] => []
  | bOut, bN, bit :: bits =>
    let next := (bOut <<< 1) ||| (if bit then 1 else 0)
    if bN + 1 = 8 then next :: packBits next 0 bits else packBits next (bN + 1) bits

/-- The pixels in `temp`. -/
def rawPixels (memory : ℕ → UInt8) (request : FbRequest) (depth : UInt8) : Reading (List UInt8) :=
  if depth = 32 ∨ depth = 24 then
    eachPixel memory request fun rgb ↦ [rgb.2.2, rgb.2.1, rgb.1, 255]
  else if depth = 8 then
    eachPixel memory request fun rgb ↦ [byteOfPixel rgb.1 rgb.2.1 rgb.2.2]
  else if depth = 1 then do
    let bits ← eachPixel memory request fun rgb ↦
      [decide (128 ≤ (rgb.1.toNat + rgb.2.1.toNat + rgb.2.2.toNat) / 3)]
    pure (packBits 0 0 bits)
  else pure []

/-! ### The message -/

/-- The encodings that the server knows. -/
inductive Encoding
  | raw
  | hextile
  | zlib
  | jpeg
deriving DecidableEq, Repr

/-- The number of an encoding in the protocol. -/
def Encoding.number : Encoding → ℕ
  | .raw => 0
  | .hextile => 5
  | .zlib => 6
  | .jpeg => 21

/-- The encoding that is taken: the last one that the client names, but the first zlib. -/
def selectEncoding (ce : Encoding) : List ℤ → Encoding
  | [] => ce
  | e :: encodings =>
    if e = 5 then selectEncoding .hextile encodings
    else if e = 6 then .zlib
    else if e = 21 then selectEncoding .jpeg encodings
    else selectEncoding ce encodings

/-- What the compressors make: `deflate` of the pixels, with all that the session has sent before in
its state, and `tjCompress2` of a picture with a width and a height. -/
structure Compressors where
  deflate : List UInt8 → List UInt8
  tjCompress2 : List UInt8 → ℕ → ℕ → List UInt8

/-- Two bytes, the higher one first. -/
def bytes16 (n : ℕ) : List UInt8 := [UInt8.ofNat (n >>> 8), UInt8.ofNat (n &&& 255)]

/-- Four bytes, the highest one first. -/
def bytes32 (n : ℕ) : List UInt8 :=
  [UInt8.ofNat (n >>> 24), UInt8.ofNat (n >>> 16), UInt8.ofNat (n >>> 8), UInt8.ofNat n]

/-- The first 16 bytes of the message. -/
def updateHeader (ce : Encoding) (request : FbRequest) : List UInt8 :=
  [0, 0, 0, 1] ++ bytes16 request.x ++ bytes16 request.y ++ bytes16 request.w ++
    bytes16 request.h ++ bytes32 ce.number

/-- What stands behind the header. -/
def updateBody (compressors : Compressors) (memory : ℕ → UInt8) (ce : Encoding)
    (request : FbRequest) (depth : UInt8) : Reading (List UInt8) :=
  match ce with
  | .raw => rawPixels memory request depth
  | .hextile => hextile memory request.w request.h depth
  | .zlib => do
    let temp ← rawPixels memory request depth
    pure (bytes32 (compressors.deflate temp).length ++ compressors.deflate temp)
  | .jpeg => do
    let picture ← block memory 0 (request.w * request.h * 3)
    pure (compressors.tjCompress2 picture request.w request.h)

/-- `calculate_fb_update`: the message, or nothing for a rectangle that is not on the screen. -/
def calculateFbUpdate (compressors : Compressors) (fb : FrameBuffer) (behind : ℕ → UInt8)
    (encodings : List ℤ) (request : FbRequest) (depth : UInt8) :
    Option (Reading (List UInt8)) :=
  if fb.w < request.x + request.w ∨ fb.h < request.y + request.h then none
  else some do
    let ce := selectEncoding .raw encodings
    let body ← updateBody compressors (memoryOf fb.buffer behind) ce request depth
    pure (updateHeader ce request ++ body)

/-! ### Values -/

@[simp] theorem value_pixel (memory : ℕ → UInt8) (offset : ℕ) :
    (pixel memory offset).value =
      (memory offset, memory (offset + 1), memory (offset + 2)) := rfl

@[simp] theorem below_pixel {n : ℕ} (memory : ℕ → UInt8) (offset : ℕ) :
    (pixel memory offset).Below n ↔ offset + 2 < n := by
  simp only [pixel, below_bind, below_cell, below_pure, and_true]
  omega

/-- The colour of a pixel. -/
def colour (memory : ℕ → UInt8) (offset : ℕ) : Rgb := (pixel memory offset).value

/-- The number of bytes of a pixel in an update. -/
def bytesPerPixel (depth : UInt8) : ℕ :=
  if depth = 32 ∨ depth = 24 then 4 else if depth = 8 then 1 else 0

theorem length_encodePixel (depth : UInt8) (rgb : Rgb) :
    (encodePixel depth rgb).length = bytesPerPixel depth := by
  unfold encodePixel bytesPerPixel
  split_ifs <;> rfl

/-- The depths with colours are not that of black and white. -/
theorem ne_one_of_colours {depth : UInt8} (hdepth : depth = 8 ∨ depth = 24 ∨ depth = 32) :
    depth ≠ 1 := by
  rcases hdepth with rfl | rfl | rfl <;> decide

theorem length_updateHeader (ce : Encoding) (request : FbRequest) :
    (updateHeader ce request).length = 16 := rfl

/-- The pixels of a raw update are encoded like those of a tile. -/
theorem rawPixels_eq {depth : UInt8} (hdepth : depth ≠ 1) (memory : ℕ → UInt8)
    (request : FbRequest) :
    (rawPixels memory request depth).value =
      (List.range' request.y request.h).flatMap fun yo ↦
        (List.range' request.x request.w).flatMap fun xo ↦
          encodePixel depth (colour memory (yo * request.w * 3 + xo * 3)) := by
  unfold rawPixels encodePixel
  split_ifs with hdeep height
  · rfl
  · rfl
  · simp

/-- Whether a tile has a pixel that is different from its first one. -/
def Differs (memory : ℕ → UInt8) (w x y : ℕ) : Prop :=
  ∃ position ∈ tilePositions,
    colour memory (tileOffset w x y position) ≠ colour memory (y * w * 3 + x * 3)

instance (memory : ℕ → UInt8) (w x y : ℕ) : Decidable (Differs memory w x y) :=
  inferInstanceAs (Decidable (∃ position ∈ tilePositions, _))

/-- The scan of a tile finds whether one of the pixels is different. -/
theorem value_scanTile (memory : ℕ → UInt8) (w x y : ℕ) (solid : Rgb)
    (positions : List (ℕ × ℕ)) : (scanTile memory w x y solid positions).value = true ↔
      ∃ position ∈ positions, colour memory (tileOffset w x y position) ≠ solid := by
  induction positions with
  | nil => simp [scanTile]
  | cons position positions ih =>
    rw [List.exists_mem_cons_iff, scanTile, value_bind]
    by_cases hdifferent : (pixel memory (tileOffset w x y position)).value ≠ solid
    · rw [if_pos hdifferent]
      exact iff_of_true rfl (Or.inl hdifferent)
    · rw [if_neg hdifferent, ih]
      exact (or_iff_right hdifferent).symm

/-- The bytes of a tile. -/
theorem value_hextileTile (memory : ℕ → UInt8) (w : ℕ) (depth : UInt8) (x y : ℕ) :
    (hextileTile memory w depth x y).value =
      if Differs memory w x y then
        1 :: tilePositions.flatMap fun position ↦
          encodePixel depth (colour memory (tileOffset w x y position))
      else 2 :: encodePixel depth (colour memory (y * w * 3 + x * 3)) := by
  have hscan : (scanTile memory w x y (pixel memory (y * w * 3 + x * 3)).value
      tilePositions).value = true ↔ Differs memory w x y :=
    value_scanTile memory w x y _ tilePositions
  simp only [hextileTile, value_bind]
  by_cases hdiffers : Differs memory w x y
  · rw [if_pos hdiffers, hscan.mpr hdiffers]
    rfl
  · rw [if_neg hdiffers, Bool.eq_false_iff.mpr (mt hscan.mp hdiffers)]
    rfl

end MyIPNG.Vnc
