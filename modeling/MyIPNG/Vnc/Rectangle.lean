import MyIPNG.Base.Grid
import MyIPNG.Vnc.Hextile

/-!
# The rectangle of a raw update

A raw update has the pixels of the rectangle that was asked for, row by row. The loops of
`calculate_fb_update` take the width of the rectangle for the length of a row of the framebuffer
(`slice_rawPixels`), where it should be the width of the screen. So the update shows other pixels
unless the rectangle is as wide as the screen or has nothing but the first row.
-/

set_option autoImplicit false
set_option relaxedAutoImplicit false

namespace MyIPNG.Vnc

open Base Base.Reading

/-! ### The picture and its pixels -/

/-- The pixel of the screen in a column and a row. -/
def FrameBuffer.pixelAt (fb : FrameBuffer) (x y : ℕ) : Rgb :=
  colour (memoryOf fb.buffer fun _ ↦ 0) ((y * fb.w + x) * 3)

/-- A raw update shows the rectangle: each of its pixels is the encoded one of the screen. -/
def ShowsRectangle (compressors : Compressors) (fb : FrameBuffer) (behind : ℕ → UInt8)
    (encodings : List ℤ) (request : FbRequest) (depth : UInt8) : Prop :=
  ∃ update, calculateFbUpdate compressors fb behind encodings request depth = some update ∧
    ∀ k < request.w * request.h,
      slice (update.value.drop 16) (k * bytesPerPixel depth) (bytesPerPixel depth) =
        encodePixel depth (fb.pixelAt (request.x + k % request.w) (request.y + k / request.w))

/-- What is behind the framebuffer does not matter for its pixels. -/
theorem colour_memoryOf {fb : FrameBuffer} {number : ℕ} (hnumber : number < fb.w * fb.h)
    (behind other : ℕ → UInt8) :
    colour (memoryOf fb.buffer behind) (number * 3) =
      colour (memoryOf fb.buffer other) (number * 3) := by
  have hlast : number * 3 + 2 < fb.buffer.length := by
    rw [fb.size, Nat.mul_assoc]
    omega
  have hsame : ∀ offset, offset < fb.buffer.length →
      memoryOf fb.buffer behind offset = memoryOf fb.buffer other offset := fun offset hoffset ↦ by
    rw [memoryOf_getElem hoffset, memoryOf_getElem hoffset]
  simp only [colour, value_pixel]
  rw [hsame _ (by omega), hsame _ (by omega), hsame _ (by omega)]

/-! ### What the loops take -/

/-- The loops over a rectangle, by the numbers of its pixels. -/
theorem flatMap_rectangle (request : FbRequest) (make : ℕ → ℕ → List UInt8) :
    ((List.range' request.y request.h).flatMap fun yo ↦
      (List.range' request.x request.w).flatMap fun xo ↦ make yo xo) =
    (List.range (request.h * request.w)).flatMap fun k ↦
      make (request.y + k / request.w) (request.x + k % request.w) := by
  have hgrid := congrArg (fun rows : List (List UInt8) ↦ rows.flatMap id)
    (flatMap_range_map request.h request.w fun row column ↦
      make (request.y + row) (request.x + column))
  simp only [List.flatMap_assoc, List.flatMap_map, id] at hgrid
  simp only [List.range'_eq_map_range, List.flatMap_map]
  exact hgrid

/-- A pixel of a raw update is the one behind as many rows of the width of the rectangle. -/
theorem slice_rawPixels {depth : UInt8} (hdepth : depth ≠ 1) (memory : ℕ → UInt8)
    (request : FbRequest) {k : ℕ} (hk : k < request.w * request.h) :
    slice (rawPixels memory request depth).value (k * bytesPerPixel depth)
        (bytesPerPixel depth) =
      encodePixel depth (colour memory
        (((request.y + k / request.w) * request.w + (request.x + k % request.w)) * 3)) := by
  have hlength : k < (List.range (request.h * request.w)).length := by
    rwa [List.length_range, Nat.mul_comm]
  rw [rawPixels_eq hdepth, flatMap_rectangle,
    slice_flatMap (fun _ _ ↦ length_encodePixel depth _) hlength, List.getElem_range,
    ← Nat.add_mul]

/-! ### The rectangles that are shown -/

/-- A rectangle that is as wide as the screen, or of which only the first row of the screen has
pixels. -/
def WholeRows (w : ℕ) (request : FbRequest) : Prop :=
  request.w = 0 ∨ request.h = 0 ∨ request.w = w ∨ (request.y = 0 ∧ request.h = 1)

/-- The number of a pixel in the rectangle is below the number of all pixels of the screen. -/
theorem pixel_number_lt {w h : ℕ} {request : FbRequest} (hx : request.x + request.w ≤ w)
    (hy : request.y + request.h ≤ h) {k : ℕ} (hk : k < request.w * request.h) :
    (request.y + k / request.w) * w + (request.x + k % request.w) < w * h := by
  have hpos : 0 < request.w := Nat.pos_of_mul_pos_right (Nat.zero_lt_of_lt hk)
  have hrow : k / request.w < request.h := Nat.div_lt_of_lt_mul hk
  have hcolumn : k % request.w < request.w := Nat.mod_lt k hpos
  rw [Nat.mul_comm w h]
  exact number_lt (by omega) (by omega)

/-- The rows that a rectangle of whole rows takes are those of the screen. -/
theorem row_start_eq {w : ℕ} {request : FbRequest} (hrows : WholeRows w request) {k : ℕ}
    (hk : k < request.w * request.h) :
    (request.y + k / request.w) * request.w = (request.y + k / request.w) * w := by
  rcases hrows with hzero | hzero | hwide | ⟨hfirst, hone⟩
  · rw [hzero, Nat.zero_mul] at hk
    omega
  · rw [hzero, Nat.mul_zero] at hk
    omega
  · rw [hwide]
  · rw [hone, Nat.mul_one] at hk
    rw [hfirst, Nat.div_eq_of_lt hk, Nat.add_zero, Nat.zero_mul, Nat.zero_mul]

/-- A rectangle of whole rows is shown. -/
theorem showsRectangle_of_wholeRows (compressors : Compressors) {fb : FrameBuffer}
    (behind : ℕ → UInt8) {encodings : List ℤ} (hraw : selectEncoding .raw encodings = .raw)
    {request : FbRequest} (hx : request.x + request.w ≤ fb.w)
    (hy : request.y + request.h ≤ fb.h) {depth : UInt8} (hdepth : depth ≠ 1)
    (hrows : WholeRows fb.w request) :
    ShowsRectangle compressors fb behind encodings request depth := by
  obtain ⟨update, hupdate, hbody⟩ :=
    calculateFbUpdate_of_le compressors behind encodings hx hy depth
  refine ⟨update, hupdate, fun k hk ↦ ?_⟩
  rw [hbody, hraw, updateBody, slice_rawPixels hdepth _ _ hk, row_start_eq hrows hk,
    colour_memoryOf (pixel_number_lt hx hy hk) behind fun _ ↦ 0]
  rfl

/-- A screen with one white pixel. -/
def oneWhite (w h number : ℕ) : FrameBuffer where
  w := w
  h := h
  buffer := (List.range (3 * w * h)).map fun offset ↦ if offset / 3 = number then 255 else 0
  size := by rw [List.length_map, List.length_range]

theorem colour_oneWhite {w h : ℕ} (number : ℕ) {other : ℕ} (hother : other < w * h)
    (behind : ℕ → UInt8) :
    colour (memoryOf (oneWhite w h number).buffer behind) (other * 3) =
      if other = number then (255, 255, 255) else (0, 0, 0) := by
  have hbyte : ∀ part < 3, memoryOf (oneWhite w h number).buffer behind (other * 3 + part) =
      if other = number then 255 else 0 := by
    intro part hpart
    have hlength : other * 3 + part < (oneWhite w h number).buffer.length := by
      rw [(oneWhite w h number).size]
      change _ < 3 * w * h
      rw [Nat.mul_assoc]
      omega
    rw [memoryOf_getElem hlength]
    simp only [oneWhite, List.getElem_map, List.getElem_range]
    rw [row_of_number hpart]
  have hfirst := hbyte 0 (by omega)
  rw [Nat.add_zero] at hfirst
  simp only [colour, value_pixel, hfirst, hbyte 1 (by omega), hbyte 2 (by omega)]
  split_ifs <;> rfl

theorem encodePixel_white_ne_black {depth : UInt8} (hdepth : depth = 8 ∨ depth = 24 ∨ depth = 32) :
    encodePixel depth (255, 255, 255) ≠ encodePixel depth (0, 0, 0) := by
  rcases hdepth with rfl | rfl | rfl <;> decide

/-- A rectangle that is not of whole rows has a pixel for which the row starts elsewhere. -/
theorem exists_other_row {w : ℕ} {request : FbRequest} (hx : request.x + request.w ≤ w)
    (hrows : ¬ WholeRows w request) :
    ∃ k < request.w * request.h,
      (request.y + k / request.w) * request.w < (request.y + k / request.w) * w := by
  unfold WholeRows at hrows
  have hpos : 0 < request.w := by omega
  -- the first row of the rectangle, or the second one when the first is that of the screen
  obtain ⟨row, hrow, hbelow⟩ : ∃ row < request.h, 0 < request.y + row := by
    rcases Nat.eq_zero_or_pos request.y with hfirst | hlater
    · exact ⟨1, by omega, by omega⟩
    · exact ⟨0, by omega, by omega⟩
  refine ⟨request.w * row, Nat.mul_lt_mul_of_pos_left hrow hpos, ?_⟩
  rw [Nat.mul_div_cancel_left row hpos]
  exact Nat.mul_lt_mul_of_pos_left (by omega) hbelow

/-- A pixel for which the row starts elsewhere is not shown when it is the only white one: it is
taken from a black one. -/
theorem not_showsRectangle (compressors : Compressors) {w h : ℕ} (behind : ℕ → UInt8)
    {encodings : List ℤ} (hraw : selectEncoding .raw encodings = .raw) {request : FbRequest}
    (hx : request.x + request.w ≤ w) (hy : request.y + request.h ≤ h) {depth : UInt8}
    (hdepth : depth = 8 ∨ depth = 24 ∨ depth = 32) {k : ℕ} (hk : k < request.w * request.h)
    (hother : (request.y + k / request.w) * request.w < (request.y + k / request.w) * w) :
    ¬ ShowsRectangle compressors
      (oneWhite w h ((request.y + k / request.w) * w + (request.x + k % request.w))) behind
      encodings request depth := by
  rintro ⟨update, hupdate, hshows⟩
  have hnumber := pixel_number_lt hx hy hk
  have hnotBits := ne_one_of_colours hdepth
  obtain ⟨taken, htaken, hbody⟩ := @calculateFbUpdate_of_le compressors (oneWhite w h _) behind
    encodings request hx hy depth
  obtain rfl : update = taken := Option.some.inj (hupdate.symm.trans htaken)
  have hpixel := hshows k hk
  rw [hbody, hraw, updateBody, slice_rawPixels hnotBits _ _ hk,
    colour_oneWhite _ (by omega), if_neg (by omega)] at hpixel
  refine encodePixel_white_ne_black hdepth (hpixel.trans ?_).symm
  rw [FrameBuffer.pixelAt]
  change encodePixel depth (colour _ (((request.y + k / request.w) * w + _) * 3)) = _
  rw [colour_oneWhite _ hnumber, if_pos rfl]

/-- A raw update shows the rectangle whatever is on the screen if and only if the rectangle is as
wide as the screen, or has no row but the first one of the screen. Assumes: the rectangle is on the
screen, the raw encoding is taken and the depth is one of those for pixels with colours. -/
theorem rectangle_shown_iff (compressors : Compressors) {w h : ℕ} (behind : ℕ → UInt8)
    {encodings : List ℤ} (hraw : selectEncoding .raw encodings = .raw) {request : FbRequest}
    (hx : request.x + request.w ≤ w) (hy : request.y + request.h ≤ h) {depth : UInt8}
    (hdepth : depth = 8 ∨ depth = 24 ∨ depth = 32) :
    (∀ fb : FrameBuffer, fb.w = w → fb.h = h →
      ShowsRectangle compressors fb behind encodings request depth) ↔ WholeRows w request := by
  constructor
  · intro hshows
    by_contra hrows
    obtain ⟨k, hk, hother⟩ := exists_other_row hx hrows
    exact not_showsRectangle compressors behind hraw hx hy hdepth hk hother
      (hshows (oneWhite w h _) rfl rfl)
  · rintro hrows fb rfl rfl
    have hnotBits := ne_one_of_colours hdepth
    exact showsRectangle_of_wholeRows compressors behind hraw hx hy hnotBits hrows

theorem rectangle_shown_of_full_width : ShowsRectangle ⟨id, fun picture _ _ ↦ picture⟩
    (oneWhite 640 480 10240) (fun _ ↦ 0) [0, 1] ⟨false, 0, 16, 640, 32⟩ 24 :=
  (rectangle_shown_iff _ _ rfl (by decide) (by decide) (Or.inr (Or.inl rfl))).mpr
    (Or.inr (Or.inr (Or.inl rfl))) (oneWhite 640 480 10240) rfl rfl

/-- The left half of the first two rows: the first pixel of the second row is not shown. -/
theorem half_rows_not_shown : ¬ ShowsRectangle ⟨id, fun picture _ _ ↦ picture⟩
    (oneWhite 640 480 640) (fun _ ↦ 0) [0, 1] ⟨false, 0, 0, 320, 2⟩ 24 := by
  have hk : 320 < 320 * 2 := by decide
  exact @not_showsRectangle _ 640 480 _ _ rfl ⟨false, 0, 0, 320, 2⟩ (by decide) (by decide) 24
    (Or.inr (Or.inl rfl)) 320 hk (by decide)

end MyIPNG.Vnc
