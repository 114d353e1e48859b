import MyIPNG.Vnc.Rectangle

/-!
# The buffers of an update

`calculate_fb_update` allocates a message of `16 + 4 * w * h` bytes, and the framebuffer has
`3 * W * H` bytes. Raw updates stay inside of both (`rawPixels_fits`). Hextile works on whole tiles,
whatever the size of the rectangle, and puts a byte in front of each: how far it reads is decided by
the last tile (`below_hextile_iff`), how much it writes by the number of tiles and of those that
have more than one colour (`length_hextile`). `requestFits_iff` says for every encoding, the
compressed ones included, when an update stays inside of its buffers.
-/

set_option autoImplicit false
set_option relaxedAutoImplicit false

namespace MyIPNG.Vnc

open Base Base.Reading

/-! ### Raw updates -/

theorem length_packBits_le (bOut : UInt8) (bN : ℕ) (bits : List Bool) :
    (packBits bOut bN bits).length ≤ bits.length := by
  induction bits generalizing bOut bN with
  | nil => exact le_rfl
  | cons bit bits ih =>
    rw [packBits, List.length_cons]
    by_cases hfull : bN + 1 = 8
    · rw [if_pos hfull, List.length_cons]
      exact Nat.succ_le_succ (ih _ _)
    · rw [if_neg hfull]
      exact (ih _ _).trans (Nat.le_succ _)

/-- Loops over a rectangle of the screen read its framebuffer only. -/
theorem below_eachPixel {α : Type} (memory : ℕ → UInt8) {w h : ℕ} {request : FbRequest}
    (hx : request.x + request.w ≤ w) (hy : request.y + request.h ≤ h) (make : Rgb → List α) :
    (eachPixel memory request make).Below (3 * w * h) := by
  rw [eachPixel, below_each]
  intro yo hyo
  rw [below_each]
  intro xo hxo
  rw [List.mem_range'_1] at hyo hxo
  have hwidth : yo * request.w ≤ yo * w := Nat.mul_le_mul_left yo (by omega)
  have hnumber : yo * w + xo < h * w := number_lt (by omega) (by omega)
  rw [Nat.mul_comm h w] at hnumber
  have hsize : 3 * w * h = 3 * (w * h) := Nat.mul_assoc 3 w h
  rw [below_bind, below_pixel]
  exact ⟨by omega, below_pure _ _⟩

/-- Loops over a rectangle that make the same number of elements of each pixel. -/
theorem length_eachPixel {α : Type} (memory : ℕ → UInt8) (request : FbRequest) (width : ℕ)
    (make : Rgb → List α) (hwidth : ∀ rgb, (make rgb).length = width) :
    (eachPixel memory request make).value.length = width * (request.w * request.h) := by
  simp only [eachPixel, value_each, value_bind, value_pure, List.length_flatMap, hwidth,
    List.map_const', List.length_range', List.sum_replicate_nat]
  ring

/-- The pixels of a raw update fit the message and are read from the framebuffer. -/
theorem rawPixels_fits (memory : ℕ → UInt8) {w h : ℕ} {request : FbRequest}
    (hx : request.x + request.w ≤ w) (hy : request.y + request.h ≤ h) (depth : UInt8) :
    (rawPixels memory request depth).value.length ≤ 4 * (request.w * request.h) ∧
      (rawPixels memory request depth).Below (3 * w * h) := by
  unfold rawPixels
  split_ifs
  · exact ⟨(length_eachPixel memory request 4 _ fun _ ↦ rfl).le, below_eachPixel memory hx hy _⟩
  · refine ⟨?_, below_eachPixel memory hx hy _⟩
    rw [length_eachPixel memory request 1 _ fun _ ↦ rfl]
    omega
  · refine ⟨?_, ?_⟩
    · rw [value_bind, value_pure]
      refine (length_packBits_le _ _ _).trans ?_
      rw [length_eachPixel memory request 1 _ fun _ ↦ rfl]
      omega
    · rw [below_bind]
      exact ⟨below_eachPixel memory hx hy _, below_pure _ _⟩
  · exact ⟨Nat.zero_le _, below_pure _ _⟩

/-! ### Tiles -/

theorem mem_tilePositions {position : ℕ × ℕ} :
    position ∈ tilePositions ↔ position.1 < 16 ∧ position.2 < 16 := by
  simp only [tilePositions, List.mem_flatMap, List.mem_map, List.mem_range]
  constructor
  · rintro ⟨ty, hty, tx, htx, rfl⟩
    exact ⟨hty, htx⟩
  · rintro ⟨hty, htx⟩
    exact ⟨position.1, hty, position.2, htx, rfl⟩

theorem mem_tileStarts {bound start : ℕ} :
    start ∈ tileStarts bound ↔ start % 16 = 0 ∧ start < bound := by
  simp only [tileStarts, List.mem_map, List.mem_range]
  constructor
  · rintro ⟨index, hindex, rfl⟩
    omega
  · rintro ⟨hmod, hless⟩
    exact ⟨start / 16, by omega, by omega⟩

/-- A scan reads pixels of the tile. -/
theorem below_scanTile {n : ℕ} (memory : ℕ → UInt8) (w x y : ℕ) (solid : Rgb)
    {positions : List (ℕ × ℕ)}
    (hall : ∀ position ∈ positions, tileOffset w x y position + 2 < n) :
    (scanTile memory w x y solid positions).Below n := by
  induction positions with
  | nil => exact below_pure _ _
  | cons position positions ih =>
    obtain ⟨hfirst, hrest⟩ := List.forall_mem_cons.mp hall
    rw [scanTile, below_bind, below_pixel]
    refine ⟨hfirst, ?_⟩
    split_ifs
    · exact below_pure _ _
    · exact ih hrest

/-- A scan that finds no other pixel has read them all. -/
theorem below_of_scanTile {n : ℕ} {memory : ℕ → UInt8} {w x y : ℕ} {solid : Rgb}
    {positions : List (ℕ × ℕ)} (hsame : (scanTile memory w x y solid positions).value ≠ true)
    (hbelow : (scanTile memory w x y solid positions).Below n) :
    ∀ position ∈ positions, tileOffset w x y position + 2 < n := by
  induction positions with
  | nil => exact List.forall_mem_nil _
  | cons position positions ih =>
    rw [scanTile, value_bind] at hsame
    rw [scanTile, below_bind, below_pixel] at hbelow
    split_ifs at hsame hbelow with hdifferent
    · exact absurd rfl hsame
    · exact List.forall_mem_cons.mpr ⟨hbelow.1, ih hsame hbelow.2⟩

/-- A tile is read as a whole, in the scan or to be written. -/
theorem below_hextileTile_iff {n : ℕ} (memory : ℕ → UInt8) (w : ℕ) (depth : UInt8) (x y : ℕ) :
    (hextileTile memory w depth x y).Below n ↔
      ∀ position ∈ tilePositions, tileOffset w x y position + 2 < n := by
  have hfirst : (0, 0) ∈ tilePositions := mem_tilePositions.mpr ⟨by decide, by decide⟩
  have hstart : y * w * 3 + x * 3 = tileOffset w x y (0, 0) := rfl
  rw [hextileTile, below_bind, below_pixel, below_bind, hstart]
  constructor
  · rintro ⟨-, hscan, htile⟩
    split_ifs at htile with hdifferent
    · rw [below_bind, below_each] at htile
      intro position hposition
      have hpixel := htile.1 position hposition
      rw [below_bind, below_pixel] at hpixel
      exact hpixel.1
    · exact below_of_scanTile hdifferent hscan
  · intro hall
    refine ⟨hall _ hfirst, below_scanTile memory w x y _ hall, ?_⟩
    split_ifs
    · rw [below_bind, below_each]
      refine ⟨fun position hposition ↦ ?_, below_pure _ _⟩
      rw [below_bind, below_pixel]
      exact ⟨hall position hposition, below_pure _ _⟩
    · exact below_pure _ _

/-- The length that tiles cover. -/
def covered (length : ℕ) : ℕ := (length + 15) / 16 * 16

/-- Hextile reads up to the last pixel of the last tile. -/
theorem below_hextile_iff (memory : ℕ → UInt8) (w h : ℕ) (depth : UInt8) (n : ℕ) :
    (hextile memory w h depth).Below (3 * n) ↔
      w = 0 ∨ h = 0 ∨ (covered h - 1) * w + covered w ≤ n := by
  simp only [hextile, below_each, below_hextileTile_iff, tileOffset]
  constructor
  · intro hall
    rcases Nat.eq_zero_or_pos w with hzero | hwide
    · exact Or.inl hzero
    rcases Nat.eq_zero_or_pos h with hzero | hhigh
    · exact Or.inr (Or.inl hzero)
    have hlast := hall (covered h - 16) (mem_tileStarts.mpr (by unfold covered; omega))
      (covered w - 16) (mem_tileStarts.mpr (by unfold covered; omega)) (15, 15)
      (mem_tilePositions.mpr ⟨by decide, by decide⟩)
    have hrow : covered h - 16 + 15 = covered h - 1 := by unfold covered; omega
    have hcolumn : covered w - 16 + 15 = covered w - 1 := by unfold covered; omega
    have hcovered : w ≤ covered w := by unfold covered; omega
    dsimp only at hlast
    rw [hrow, hcolumn] at hlast
    refine Or.inr (Or.inr ?_)
    omega
  · intro hlast y hy x hx position hposition
    rw [mem_tileStarts] at hy hx
    rw [mem_tilePositions] at hposition
    have hrow : y + position.1 ≤ covered h - 1 := by unfold covered; omega
    have hcolumn : x + position.2 < covered w := by unfold covered; omega
    have hrows : (y + position.1) * w ≤ (covered h - 1) * w := Nat.mul_le_mul_right w hrow
    omega

/-- The number of the tiles of a picture that have more than one colour. -/
def differing (memory : ℕ → UInt8) (w h : ℕ) : ℕ :=
  (tilesOf w h).countP fun tile ↦ decide (Differs memory w tile.2 tile.1)

theorem length_hextileTile (memory : ℕ → UInt8) (w : ℕ) (depth : UInt8) (x y : ℕ) :
    (hextileTile memory w depth x y).value.length =
      if Differs memory w x y then 1 + 256 * bytesPerPixel depth
      else 1 + bytesPerPixel depth := by
  rw [value_hextileTile]
  split_ifs
  · simp only [List.length_cons, List.length_flatMap, length_encodePixel, List.map_const',
      length_tilePositions, List.sum_replicate_nat]
    omega
  · rw [List.length_cons, length_encodePixel, Nat.add_comm]

/-- Hextile writes a byte for each tile, with one pixel or all of them behind it. -/
theorem length_hextile (memory : ℕ → UInt8) (w h : ℕ) (depth : UInt8) :
    (hextile memory w h depth).value.length = (tilesOf w h).length +
      bytesPerPixel depth * ((tilesOf w h).length + 255 * differing memory w h) := by
  rw [value_hextile, differing]
  induction tilesOf w h with
  | nil => simp
  | cons tile tiles ih =>
    rw [List.flatMap_cons, List.length_append, ih, length_hextileTile, List.length_cons,
      List.countP_cons]
    by_cases hdiffers : Differs memory w tile.2 tile.1
    · rw [if_pos hdiffers, if_pos (decide_eq_true hdiffers)]
      ring
    · rw [if_neg hdiffers, if_neg (by rwa [decide_eq_true_eq])]
      ring

/-! ### Updates -/

/-- An update fits: every byte is written inside of the message and read inside of the
framebuffer. -/
def FitsBuffers (compressors : Compressors) (fb : FrameBuffer) (behind : ℕ → UInt8)
    (encodings : List ℤ) (request : FbRequest) (depth : UInt8) : Prop :=
  ∀ update, calculateFbUpdate compressors fb behind encodings request depth = some update →
    (∀ index < update.value.length, index < 16 + 4 * (request.w * request.h)) ∧
      update.Below (3 * (fb.w * fb.h))

/-- The tiles of a rectangle fit: the last of them ends inside of the framebuffer, and they have no
more bytes than four for each pixel of the rectangle. -/
def TilesFit (fb : FrameBuffer) (behind : ℕ → UInt8) (request : FbRequest) (depth : UInt8) : Prop :=
  request.w = 0 ∨ request.h = 0 ∨
    ((covered request.h - 1) * request.w + covered request.w ≤ fb.w * fb.h ∧
      (tilesOf request.w request.h).length + bytesPerPixel depth *
        ((tilesOf request.w request.h).length +
          255 * differing (memoryOf fb.buffer behind) request.w request.h) ≤
        4 * (request.w * request.h))

instance (fb : FrameBuffer) (behind : ℕ → UInt8) (request : FbRequest) (depth : UInt8) :
    Decidable (TilesFit fb behind request depth) := inferInstanceAs (Decidable (_ ∨ _))

/-- An update fits when what stands behind its header does. -/
theorem fitsBuffers_iff_body (compressors : Compressors) {fb : FrameBuffer} (behind : ℕ → UInt8)
    (encodings : List ℤ) {request : FbRequest} (hx : request.x + request.w ≤ fb.w)
    (hy : request.y + request.h ≤ fb.h) (depth : UInt8) {body : Reading (List UInt8)}
    (hbody : updateBody compressors (memoryOf fb.buffer behind) (selectEncoding .raw encodings)
      request depth = body) :
    FitsBuffers compressors fb behind encodings request depth ↔
      body.value.length ≤ 4 * (request.w * request.h) ∧ body.Below (3 * (fb.w * fb.h)) := by
  have hlength := length_updateHeader (selectEncoding .raw encodings) request
  simp only [FitsBuffers, calculateFbUpdate]
  rw [if_neg (by omega), hbody]
  simp only [Option.some.injEq, forall_eq', value_bind, value_pure, below_bind, List.length_append,
    hlength]
  constructor
  · rintro ⟨hwritten, hread⟩
    refine ⟨?_, hread.1⟩
    by_contra hlong
    exact absurd (hwritten (16 + 4 * (request.w * request.h)) (by omega)) (Nat.lt_irrefl _)
  · rintro ⟨hwritten, hread⟩
    exact ⟨fun index hindex ↦ by omega, hread, below_pure _ _⟩

/-- A picture without pixels has no tiles. -/
theorem tilesOf_of_zero {w h : ℕ} (hzero : w = 0 ∨ h = 0) : tilesOf w h = [] := by
  rcases hzero with rfl | rfl
  · simp [tilesOf, tileStarts]
  · rfl

/-- The tiles fit when hextile stays inside of both buffers. -/
theorem hextile_fits_iff (fb : FrameBuffer) (behind : ℕ → UInt8) (request : FbRequest)
    (depth : UInt8) :
    (hextile (memoryOf fb.buffer behind) request.w request.h depth).value.length ≤
        4 * (request.w * request.h) ∧
      (hextile (memoryOf fb.buffer behind) request.w request.h depth).Below
        (3 * (fb.w * fb.h)) ↔ TilesFit fb behind request depth := by
  rw [length_hextile, below_hextile_iff, TilesFit]
  constructor
  · rintro ⟨hwritten, hzero | hzero | hread⟩
    · exact Or.inl hzero
    · exact Or.inr (Or.inl hzero)
    · exact Or.inr (Or.inr ⟨hread, hwritten⟩)
  · rintro (hzero | hzero | ⟨hread, hwritten⟩)
    · refine ⟨?_, Or.inl hzero⟩
      rw [differing, tilesOf_of_zero (Or.inl hzero)]
      simp
    · refine ⟨?_, Or.inr (Or.inl hzero)⟩
      rw [differing, tilesOf_of_zero (Or.inr hzero)]
      simp
    · exact ⟨hwritten, Or.inr (Or.inr hread)⟩

/-- An update with hextile fits when its tiles do. -/
theorem fitsBuffers_iff_tilesFit (compressors : Compressors) {fb : FrameBuffer}
    (behind : ℕ → UInt8) {encodings : List ℤ} {request : FbRequest}
    (hx : request.x + request.w ≤ fb.w) (hy : request.y + request.h ≤ fb.h) (depth : UInt8)
    (htiles : selectEncoding .raw encodings = .hextile) :
    FitsBuffers compressors fb behind encodings request depth ↔
      TilesFit fb behind request depth := by
  rw [fitsBuffers_iff_body compressors behind encodings hx hy depth (by rw [htiles, updateBody]),
    hextile_fits_iff]

/-- What stands behind the header of the update for a rectangle of the screen has room: raw pixels
always, tiles when they fit, and what a compressor makes when it is no longer than four bytes for
each pixel, with its length of four bytes in front of a stream of zlib. -/
def BodyFits (compressors : Compressors) (fb : FrameBuffer) (behind : ℕ → UInt8)
    (request : FbRequest) (depth : UInt8) : Encoding → Prop
  | .raw => True
  | .hextile => TilesFit fb behind request depth
  | .zlib => 4 + (compressors.deflate
      (rawPixels (memoryOf fb.buffer behind) request depth).value).length ≤
        4 * (request.w * request.h)
  | .jpeg => (compressors.tjCompress2
      (block (memoryOf fb.buffer behind) 0 (request.w * request.h * 3)).value
        request.w request.h).length ≤ 4 * (request.w * request.h)

instance (compressors : Compressors) (fb : FrameBuffer) (behind : ℕ → UInt8) (request : FbRequest)
    (depth : UInt8) : (ce : Encoding) → Decidable (BodyFits compressors fb behind request depth ce)
  | .raw => inferInstanceAs (Decidable True)
  | .hextile => inferInstanceAs (Decidable (TilesFit _ _ _ _))
  | .zlib => inferInstanceAs (Decidable (_ ≤ _))
  | .jpeg => inferInstanceAs (Decidable (_ ≤ _))

/-- The update for a request stays inside of its buffers: the rectangle is not on the screen, and
there is none, or what stands behind the header has room. -/
def RequestFits (compressors : Compressors) (fb : FrameBuffer) (behind : ℕ → UInt8)
    (encodings : List ℤ) (request : FbRequest) (depth : UInt8) : Prop :=
  (fb.w < request.x + request.w ∨ fb.h < request.y + request.h) ∨
    BodyFits compressors fb behind request depth (selectEncoding .raw encodings)

instance (compressors : Compressors) (fb : FrameBuffer) (behind : ℕ → UInt8) (encodings : List ℤ)
    (request : FbRequest) (depth : UInt8) :
    Decidable (RequestFits compressors fb behind encodings request depth) :=
  inferInstanceAs (Decidable (_ ∨ _))

theorem fitsBuffers_of_raw (compressors : Compressors) {fb : FrameBuffer} (behind : ℕ → UInt8)
    {encodings : List ℤ} {request : FbRequest} (hx : request.x + request.w ≤ fb.w)
    (hy : request.y + request.h ≤ fb.h) (depth : UInt8)
    (hraw : selectEncoding .raw encodings = .raw) :
    FitsBuffers compressors fb behind encodings request depth := by
  rw [fitsBuffers_iff_body compressors behind encodings hx hy depth (by rw [hraw, updateBody]),
    ← Nat.mul_assoc 3]
  exact rawPixels_fits _ hx hy depth

theorem requestFits_iff (compressors : Compressors) (fb : FrameBuffer) (behind : ℕ → UInt8)
    (encodings : List ℤ) (request : FbRequest) (depth : UInt8) :
    FitsBuffers compressors fb behind encodings request depth ↔
      RequestFits compressors fb behind encodings request depth := by
  by_cases hscreen : fb.w < request.x + request.w ∨ fb.h < request.y + request.h
  · refine iff_of_true (fun update hupdate ↦ ?_) (Or.inl hscreen)
    rw [calculateFbUpdate, if_pos hscreen] at hupdate
    exact absurd hupdate (by simp)
  have hx : request.x + request.w ≤ fb.w := by omega
  have hy : request.y + request.h ≤ fb.h := by omega
  rw [RequestFits, or_iff_right hscreen]
  cases hencoding : selectEncoding .raw encodings with
  | raw => exact iff_of_true (fitsBuffers_of_raw compressors behind hx hy depth hencoding) trivial
  | hextile => exact fitsBuffers_iff_tilesFit compressors behind hx hy depth hencoding
  | zlib =>
    have hpixels := (rawPixels_fits (memoryOf fb.buffer behind) hx hy depth).2
    rw [Nat.mul_assoc 3] at hpixels
    rw [fitsBuffers_iff_body compressors behind encodings hx hy depth rfl, hencoding, updateBody,
      value_bind, value_pure, below_bind, and_iff_left ⟨hpixels, below_pure _ _⟩,
      List.length_append]
    rfl
  | jpeg =>
    have hrows : request.w * request.h * 3 ≤ 3 * (fb.w * fb.h) := by
      have harea : request.w * request.h ≤ fb.w * fb.h :=
        Nat.mul_le_mul (by omega) (by omega)
      omega
    have hpicture : (block (memoryOf fb.buffer behind) 0 (request.w * request.h * 3)).Below
        (3 * (fb.w * fb.h)) := (below_block _ _ _).mpr (Or.inr (by omega))
    rw [fitsBuffers_iff_body compressors behind encodings hx hy depth rfl, hencoding, updateBody,
      value_bind, value_pure, below_bind, and_iff_left ⟨hpicture, below_pure _ _⟩]
    rfl

/-- A raw update always fits its buffers. One with hextile does if and only if the last tile ends
inside of the framebuffer and the tiles have no more bytes than the message has room for. Assumes:
the rectangle is one that is accepted, and one of the two encodings is taken. -/
theorem update_fits_iff (compressors : Compressors) {fb : FrameBuffer} (behind : ℕ → UInt8)
    {encodings : List ℤ} {request : FbRequest} (hx : request.x + request.w ≤ fb.w)
    (hy : request.y + request.h ≤ fb.h) (depth : UInt8)
    (hencoding : selectEncoding .raw encodings = .raw ∨
      selectEncoding .raw encodings = .hextile) :
    FitsBuffers compressors fb behind encodings request depth ↔
      selectEncoding .raw encodings = .raw ∨ TilesFit fb behind request depth := by
  rcases hencoding with hraw | htiles
  · exact iff_of_true (fitsBuffers_of_raw compressors behind hx hy depth hraw) (Or.inl hraw)
  · rw [fitsBuffers_iff_tilesFit compressors behind hx hy depth htiles, htiles]
    exact (or_iff_right (by decide)).symm

/-- One tile at depth 8 fits, whatever its colours are. -/
theorem tilesFit_one_tile {fb : FrameBuffer} (hscreen : 256 ≤ fb.w * fb.h) (behind : ℕ → UInt8) :
    TilesFit fb behind ⟨false, 0, 0, 16, 16⟩ 8 := by
  have htiles : (tilesOf 16 16).length = 1 := rfl
  have hwidth : bytesPerPixel 8 = 1 := rfl
  have hcount : differing (memoryOf fb.buffer behind) 16 16 ≤ (tilesOf 16 16).length :=
    List.countP_le_length
  refine Or.inr (Or.inr ⟨hscreen, ?_⟩)
  dsimp only
  rw [htiles] at hcount
  rw [htiles, hwidth]
  omega

theorem update_fits_one_tile : FitsBuffers ⟨id, fun picture _ _ ↦ picture⟩
    (oneWhite 640 480 5) (fun _ ↦ 0) [0, 5] ⟨false, 0, 0, 16, 16⟩ 8 :=
  (@update_fits_iff _ (oneWhite 640 480 5) _ _ ⟨false, 0, 0, 16, 16⟩ (by decide) (by decide)
    8 (Or.inr rfl)).mpr (Or.inr (tilesFit_one_tile (by decide) _))

/-- The tile for a single pixel does not fit. -/
theorem not_tilesFit_one_pixel (fb : FrameBuffer) (behind : ℕ → UInt8) :
    ¬ TilesFit fb behind ⟨false, 0, 0, 1, 1⟩ 24 := by
  have htiles : (tilesOf 1 1).length = 1 := rfl
  have hwidth : bytesPerPixel 24 = 4 := rfl
  rintro (hzero | hzero | ⟨-, hwritten⟩)
  · exact absurd hzero (by decide)
  · exact absurd hzero (by decide)
  · dsimp only at hwritten
    rw [htiles, hwidth] at hwritten
    omega

/-- A request for one pixel: the tile has a byte more than the message. -/
theorem one_pixel_overflows : ¬ FitsBuffers ⟨id, fun picture _ _ ↦ picture⟩
    (greyScreen 640 480 0) (fun _ ↦ 0) [0, 5] ⟨false, 0, 0, 1, 1⟩ 24 := by
  rw [@fitsBuffers_iff_tilesFit _ (greyScreen 640 480 0) _ _ ⟨false, 0, 0, 1, 1⟩ (by decide)
    (by decide) 24 rfl]
  exact not_tilesFit_one_pixel _ _

end MyIPNG.Vnc
