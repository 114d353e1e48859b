import MyIPNG.Base.Grid
import MyIPNG.Vnc.Update

/-!
# What a client sees of hextile

The other end of `hextile`: a client reads tiles of 16 by 16 pixels in the order of the rows, each
with a number that says whether 256 pixels follow or the one that all of them have. `decodeHextile`
puts the tiles to their places and gives the picture row by row, as the raw encoding has it.

`decodeTile_hextileTile` says what the client reads from one tile, `decodeTiles_flatMap` what it
reads from a row of them. A picture of which both sides are multiples of 16 comes out as the pixels
of the raw encoding.
-/

set_option autoImplicit false
set_option relaxedAutoImplicit false

namespace MyIPNG.Vnc

open Base Base.Reading

/-! ### The client -/

/-- Pixels of a given number of bytes, and what is behind them. -/
def decodePixels (width : ℕ) : ℕ → List UInt8 → Option (List (List UInt8) × List UInt8)
  | 0, bytes => some ([], bytes)
  | count + 1, bytes =>
    if bytes.length < width then none
    else (decodePixels width count (bytes.drop width)).map fun result ↦
      (bytes.take width :: result.1, result.2)

/-- A tile: its 256 pixels, and what is behind it. -/
def decodeTile (width : ℕ) : List UInt8 → Option (List (List UInt8) × List UInt8)
  | 1 :: bytes => decodePixels width 256 bytes
  | 2 :: bytes =>
    if bytes.length < width then none
    else some (List.replicate 256 (bytes.take width), bytes.drop width)
  | _ => none

/-- A number of tiles, and what is behind them. -/
def decodeTiles (width : ℕ) : ℕ → List UInt8 → Option (List (List (List UInt8)) × List UInt8)
  | 0, bytes => some ([], bytes)
  | count + 1, bytes =>
    match decodeTile width bytes with
    | none => none
    | some (tile, rest) => (decodeTiles width count rest).map fun result ↦
      (tile :: result.1, result.2)

/-- The picture that tiles make, row by row. -/
def pictureOf (w h : ℕ) (tiles : List (List (List UInt8))) : List UInt8 :=
  (List.range h).flatMap fun y ↦ (List.range w).flatMap fun x ↦
    (tiles.getD (y / 16 * (w / 16) + x / 16) []).getD (y % 16 * 16 + x % 16) []

/-- The picture that a client makes from a stream of tiles. Nothing when the stream does not have as
many tiles as the picture or something is left over. -/
def decodeHextile (width w h : ℕ) (bytes : List UInt8) : Option (List UInt8) :=
  match decodeTiles width (h / 16 * (w / 16)) bytes with
  | some (tiles, []) => some (pictureOf w h tiles)
  | _ => none

/-- A request for the whole screen. -/
def wholeFrame (incremental : Bool) (fb : FrameBuffer) : FbRequest :=
  ⟨incremental, 0, 0, fb.w, fb.h⟩

/-! ### Tiles -/

theorem decodePixels_flatMap {ι : Type*} {width : ℕ} {f : ι → List UInt8}
    (hwidth : ∀ item, (f item).length = width) (items : List ι) (rest : List UInt8) :
    decodePixels width items.length (items.flatMap f ++ rest) = some (items.map f, rest) := by
  induction items with
  | nil => rfl
  | cons item items ih =>
    have hfirst := hwidth item
    rw [List.flatMap_cons, List.append_assoc, List.length_cons, decodePixels,
      if_neg (by rw [List.length_append]; omega), List.drop_left' hfirst,
      List.take_left' hfirst, ih]
    rfl

theorem length_tilePositions : tilePositions.length = 256 := by decide +kernel

/-- The pixels of a tile in an update. -/
def tilePixels (memory : ℕ → UInt8) (w : ℕ) (depth : UInt8) (x y : ℕ) : List (List UInt8) :=
  tilePositions.map fun position ↦
    encodePixel depth (colour memory (tileOffset w x y position))

/-- What the client reads from a tile are its pixels. -/
theorem decodeTile_hextileTile (memory : ℕ → UInt8) (w : ℕ) (depth : UInt8) (x y : ℕ)
    (rest : List UInt8) :
    decodeTile (bytesPerPixel depth) ((hextileTile memory w depth x y).value ++ rest) =
      some (tilePixels memory w depth x y, rest) := by
  rw [value_hextileTile]
  split_ifs with hdiffers
  · have hpixels := decodePixels_flatMap (fun position ↦
      length_encodePixel depth (colour memory (tileOffset w x y position))) tilePositions rest
    rw [length_tilePositions] at hpixels
    exact hpixels
  · have hwidth := length_encodePixel depth (colour memory (y * w * 3 + x * 3))
    -- all pixels have the colour of the first one
    have hsolid : tilePixels memory w depth x y =
        List.replicate 256 (encodePixel depth (colour memory (y * w * 3 + x * 3))) := by
      refine List.eq_replicate_iff.mpr ⟨?_, ?_⟩
      · rw [tilePixels, List.length_map, length_tilePositions]
      · intro pixel hpixel
        obtain ⟨position, hposition, rfl⟩ := List.mem_map.mp hpixel
        by_cases hsame : colour memory (tileOffset w x y position) =
            colour memory (y * w * 3 + x * 3)
        · rw [hsame]
        · exact absurd ⟨position, hposition, hsame⟩ hdiffers
    rw [List.cons_append, decodeTile, if_neg (by rw [List.length_append]; omega),
      List.take_left' hwidth, List.drop_left' hwidth, hsolid]

/-- What the client reads from tiles, one behind the other. -/
theorem decodeTiles_flatMap {ι : Type*} {width : ℕ} {encode : ι → List UInt8}
    {pixels : ι → List (List UInt8)}
    (htile : ∀ item rest, decodeTile width (encode item ++ rest) = some (pixels item, rest))
    (items : List ι) (rest : List UInt8) :
    decodeTiles width items.length (items.flatMap encode ++ rest) =
      some (items.map pixels, rest) := by
  induction items with
  | nil => rfl
  | cons item items ih =>
    rw [List.flatMap_cons, List.append_assoc, List.length_cons, decodeTiles, htile]
    simp only [ih]
    rfl

/-! ### The picture -/

/-- The tiles of a picture, row by row: `y` and `x`. -/
def tilesOf (w h : ℕ) : List (ℕ × ℕ) :=
  (tileStarts h).flatMap fun y ↦ (tileStarts w).map fun x ↦ (y, x)

theorem value_hextile (memory : ℕ → UInt8) (w h : ℕ) (depth : UInt8) :
    (hextile memory w h depth).value =
      (tilesOf w h).flatMap fun tile ↦ (hextileTile memory w depth tile.2 tile.1).value := by
  simp only [hextile, tilesOf, value_each, List.flatMap_assoc, List.flatMap_map]

theorem tileStarts_of_dvd {bound : ℕ} (hbound : 16 ∣ bound) :
    tileStarts bound = (List.range (bound / 16)).map (· * 16) := by
  rw [tileStarts]
  congr 2
  omega

/-- The tiles of a picture whose sides are multiples of 16. -/
theorem tilesOf_of_dvd {w h : ℕ} (hw : 16 ∣ w) (hh : 16 ∣ h) :
    tilesOf w h = (List.range (h / 16)).flatMap fun row ↦
      (List.range (w / 16)).map fun column ↦ (row * 16, column * 16) := by
  rw [tilesOf, tileStarts_of_dvd hw, tileStarts_of_dvd hh, List.flatMap_map]
  simp only [List.map_map]
  rfl

theorem length_tilesOf {w h : ℕ} (hw : 16 ∣ w) (hh : 16 ∣ h) :
    (tilesOf w h).length = h / 16 * (w / 16) := by
  rw [tilesOf_of_dvd hw hh, flatMap_range_map, List.length_map, List.length_range]

/-- The pixels of a tile, by row and column. -/
theorem getD_tilePixels (memory : ℕ → UInt8) (w : ℕ) (depth : UInt8) (x y : ℕ) {ty tx : ℕ}
    (hty : ty < 16) (htx : tx < 16) :
    (tilePixels memory w depth x y).getD (ty * 16 + tx) [] =
      encodePixel depth (colour memory ((y + ty) * w * 3 + (x + tx) * 3)) := by
  rw [tilePixels, tilePositions, List.map_flatMap]
  simp only [List.map_map]
  exact getD_flatMap_range_map hty htx (fun ty tx ↦
    encodePixel depth (colour memory (tileOffset w x y (ty, tx)))) []

/-- The tiles of a picture, by row and column. -/
theorem getD_map_tilesOf {w h : ℕ} (hw : 16 ∣ w) (hh : 16 ∣ h)
    (pixels : ℕ × ℕ → List (List UInt8)) {row column : ℕ} (hrow : row < h / 16)
    (hcolumn : column < w / 16) :
    ((tilesOf w h).map pixels).getD (row * (w / 16) + column) [] =
      pixels (row * 16, column * 16) := by
  rw [tilesOf_of_dvd hw hh, List.map_flatMap]
  simp only [List.map_map]
  exact getD_flatMap_range_map hrow hcolumn (fun row column ↦ pixels (row * 16, column * 16)) []

/-- Every pixel of the picture is that of the screen. -/
theorem pictureOf_tiles {w h : ℕ} (hw : 16 ∣ w) (hh : 16 ∣ h) (memory : ℕ → UInt8)
    (depth : UInt8) :
    pictureOf w h ((tilesOf w h).map fun tile ↦ tilePixels memory w depth tile.2 tile.1) =
      (List.range h).flatMap fun y ↦ (List.range w).flatMap fun x ↦
        encodePixel depth (colour memory (y * w * 3 + x * 3)) := by
  unfold pictureOf
  refine List.flatMap_congr fun y hy ↦ List.flatMap_congr fun x hx ↦ ?_
  have hyh : y < h := List.mem_range.mp hy
  have hxw : x < w := List.mem_range.mp hx
  rw [getD_map_tilesOf hw hh _ (Nat.div_lt_div_of_lt_of_dvd hh hyh)
      (Nat.div_lt_div_of_lt_of_dvd hw hxw),
    getD_tilePixels _ _ _ _ _ (Nat.mod_lt y (by omega)) (Nat.mod_lt x (by omega)),
    Nat.div_add_mod', Nat.div_add_mod']

/-- A client that reads hextile has the pixels of the raw encoding. -/
theorem decodeHextile_hextile {w h : ℕ} (hw : 16 ∣ w) (hh : 16 ∣ h) (memory : ℕ → UInt8)
    (depth : UInt8) :
    decodeHextile (bytesPerPixel depth) w h (hextile memory w h depth).value =
      some ((List.range h).flatMap fun y ↦ (List.range w).flatMap fun x ↦
        encodePixel depth (colour memory (y * w * 3 + x * 3))) := by
  have htiles := decodeTiles_flatMap (fun tile : ℕ × ℕ ↦
    decodeTile_hextileTile memory w depth tile.2 tile.1) (tilesOf w h) []
  rw [List.append_nil, length_tilesOf hw hh, ← value_hextile] at htiles
  rw [decodeHextile, htiles]
  exact congrArg some (pictureOf_tiles hw hh memory depth)

/-! ### Updates for the whole screen -/

/-- The update for a rectangle that is on the screen. -/
theorem calculateFbUpdate_of_le (compressors : Compressors) {fb : FrameBuffer}
    (behind : ℕ → UInt8) (encodings : List ℤ) {request : FbRequest}
    (hx : request.x + request.w ≤ fb.w) (hy : request.y + request.h ≤ fb.h) (depth : UInt8) :
    ∃ update, calculateFbUpdate compressors fb behind encodings request depth = some update ∧
      update.value.drop 16 = (updateBody compressors (memoryOf fb.buffer behind)
        (selectEncoding .raw encodings) request depth).value := by
  rw [calculateFbUpdate, if_neg (by omega)]
  exact ⟨_, rfl, List.drop_left' (length_updateHeader _ _)⟩

/-- The updates for the whole screen in two encodings, of which the first is tiles, show the same
picture: what a client reads from the tiles are the pixels of the second. -/
def ShowsSame (compressors : Compressors) (fb : FrameBuffer) (behind : ℕ → UInt8) (depth : UInt8)
    (tiled plain : List ℤ) (incremental : Bool) : Prop :=
  ∃ first second,
    calculateFbUpdate compressors fb behind tiled (wholeFrame incremental fb) depth = some first ∧
    calculateFbUpdate compressors fb behind plain (wholeFrame incremental fb) depth =
      some second ∧
    decodeHextile (bytesPerPixel depth) fb.w fb.h (first.value.drop 16) =
      some (second.value.drop 16)

/-- Hextile and the raw encoding show the same picture: what a client reads from the tiles of an
update for the whole screen are the pixels of the raw update. Assumes: the sides of the screen are
multiples of 16, the depth is one that both encodings have, and the encodings are taken. -/
theorem hextile_shows_raw (compressors : Compressors) {fb : FrameBuffer} (hw : 16 ∣ fb.w)
    (hh : 16 ∣ fb.h) (behind : ℕ → UInt8) {depth : UInt8}
    (hdepth : depth = 8 ∨ depth = 24 ∨ depth = 32) {tiled plain : List ℤ}
    (htiled : selectEncoding .raw tiled = .hextile) (hplain : selectEncoding .raw plain = .raw)
    (incremental : Bool) : ShowsSame compressors fb behind depth tiled plain incremental := by
  have hx : (wholeFrame incremental fb).x + (wholeFrame incremental fb).w ≤ fb.w :=
    (Nat.zero_add fb.w).le
  have hy : (wholeFrame incremental fb).y + (wholeFrame incremental fb).h ≤ fb.h :=
    (Nat.zero_add fb.h).le
  obtain ⟨first, hfirst, htiles⟩ := calculateFbUpdate_of_le compressors behind tiled hx hy depth
  obtain ⟨second, hsecond, hpixels⟩ :=
    calculateFbUpdate_of_le compressors behind plain hx hy depth
  have hnotBits := ne_one_of_colours hdepth
  refine ⟨first, second, hfirst, hsecond, ?_⟩
  rw [htiles, hpixels, htiled, hplain, updateBody, updateBody, rawPixels_eq hnotBits]
  have hdecode := decodeHextile_hextile hw hh (memoryOf fb.buffer behind) depth
  rw [List.range_eq_range', List.range_eq_range'] at hdecode
  exact hdecode

/-- A screen that has the same byte everywhere. -/
def greyScreen (w h : ℕ) (level : UInt8) : FrameBuffer :=
  ⟨w, h, List.replicate (3 * w * h) level, List.length_replicate⟩

theorem hextile_shows_raw_grey : ShowsSame ⟨id, fun picture _ _ ↦ picture⟩ (greyScreen 640 480 127)
    (fun _ ↦ 0) 24 [0, 5, 1] [0, 1] false :=
  hextile_shows_raw _ (Nat.dvd_of_mod_eq_zero rfl) (Nat.dvd_of_mod_eq_zero rfl) _
    (Or.inr (Or.inl rfl)) rfl rfl false

end MyIPNG.Vnc
