import MyIPNG.Base.Grid
import MyIPNG.Base.Runs
import MyIPNG.Utils.Str
import MyIPNG.Vnc.Rectangle

/-!
# The clock on the screen

The thread `run_fb` of `vnc_server.cpp` moves a text over the screen. A position bounces off the
borders; once in a second the red of all pixels gets a little darker and the text is drawn at the
position with `draw_text`, which breaks off a row of a character at the end of the screen only. What
leaves the screen on the right comes in on the left, a row lower.

All bytes are written with a check of the position, and a failed check ends the run. In every run
none fails, the position stays on the screen, and a pixel is white, black, or a white one that got
darker in its red: the loop that fades the screen steps over green and blue.
-/

set_option autoImplicit false
set_option relaxedAutoImplicit false

namespace MyIPNG.Vnc

open Base Base.Reading

/-! ### Drawing -/

/-- A byte of the framebuffer is written. Nothing when it is not in the buffer. -/
def FrameBuffer.write (fb : FrameBuffer) (o : ℤ) (value : UInt8) : Option FrameBuffer :=
  if 0 ≤ o ∧ o < fb.buffer.length then
    some { fb with
      buffer := fb.buffer.set o.toNat value
      size := List.length_set.trans fb.size }
  else none

/-- The three bytes of a pixel. -/
def FrameBuffer.writePixel (fb : FrameBuffer) (o : ℤ) (r g b : UInt8) : Option FrameBuffer := do
  let fb ← fb.write (o + 0) r
  let fb ← fb.write (o + 1) g
  fb.write (o + 2) b

/-- `maxo`. -/
def FrameBuffer.maxo (fb : FrameBuffer) : ℤ := fb.w * fb.h * 3

/-- The loop over the columns of a row of a character, from `cx` on. The row of the font, and where
it begins on the screen. -/
def drawColumns (row : ℕ → UInt8) (r g b : UInt8) (start : ℤ) :
    ℕ → ℕ → FrameBuffer → Option FrameBuffer
  | 0, _, fb => some fb
  | left + 1, cx, fb =>
    let o := start + cx * 3
    if fb.maxo ≤ o then some fb
    else do
      let fb ← fb.writePixel o (if row cx ≠ 0 then r else 0) (if row cx ≠ 0 then g else 0)
        (if row cx ≠ 0 then b else 0)
      drawColumns row r g b start left (cx + 1) fb

/-- A row of a character: `(cy + y) * w * 3 + (x + i * 8) * 3` is where it begins. -/
def drawRow (font : ℕ → ℕ → ℕ → UInt8) (x y : ℤ) (c : UInt8) (r g b : UInt8) (i cy : ℕ)
    (fb : FrameBuffer) : Option FrameBuffer :=
  drawColumns (font (c &&& 127).toNat cy) r g b ((cy + y) * fb.w * 3 + (x + i * 8) * 3) 8 0 fb

/-- `draw_text`. -/
def drawText (font : ℕ → ℕ → ℕ → UInt8) (fb : FrameBuffer) (x y : ℤ) (text : List UInt8)
    (r g b : UInt8) : Option FrameBuffer :=
  text.zipIdx.foldlM (fun fb entry ↦
    (List.range 8).foldlM (fun fb cy ↦ drawRow font x y entry.1 r g b entry.2 cy fb) fb) fb

/-- A pixel gets darker in its red. -/
def FrameBuffer.fadePixel (fb : FrameBuffer) (subn : ℕ) (ox : ℕ) : Option FrameBuffer :=
  match fb.buffer[ox]? with
  | none => none
  | some red => if subn ≤ red.toNat then fb.write ox (red - UInt8.ofNat subn) else some fb

/-- The loops that fade the screen. -/
def FrameBuffer.fade (fb : FrameBuffer) (subn : ℕ) : Option FrameBuffer :=
  (List.range fb.h).foldlM (fun fb y ↦
    (List.range fb.w).foldlM (fun fb x ↦ fb.fadePixel subn (y * fb.w * 3 + x * 3)) fb) fb

/-! ### `run_fb` -/

/-- The state of the thread. -/
structure Drawing where
  fb : FrameBuffer
  x : ℤ
  y : ℤ
  dx : ℤ
  dy : ℤ
  latestUpdate : UInt64

/-- What the loop body reads: five values of `rand`, the clock, and the time of day. -/
structure DrawEvent where
  randHighX : ℕ
  randHighY : ℕ
  randLowX : ℕ
  randLowY : ℕ
  randSub : ℕ
  now : UInt64
  hour : ℕ
  min : ℕ
  sec : ℕ

/-- A coordinate and its step, bounced off the borders. -/
def bounce (size : ℤ) (randHigh randLow : ℕ) (position delta : ℤ) : ℤ × ℤ :=
  let moved := (position + delta, delta)
  let below := if size ≤ moved.1 then (size - 1, -((randHigh % 3 : ℕ) + 1 : ℤ)) else moved
  if below.1 < 0 then (0, ((randLow % 3 : ℕ) + 1 : ℤ)) else below

/-- `%02d`. -/
def twoDigits (n : ℕ) : List UInt8 :=
  (List.leftpad 2 '0' (Nat.toDigits 10 n)).map fun c ↦ UInt8.ofNat c.toNat

/-- The text, in an array of 16 bytes. -/
def clockText (event : DrawEvent) : List UInt8 :=
  (twoDigits event.hour ++ [58] ++ twoDigits event.min ++ [58] ++ twoDigits event.sec ++
    Utils.ascii " - MyIP").take 15

/-- The loop body. Nothing when a byte is written behind the framebuffer. -/
def drawStep (font : ℕ → ℕ → ℕ → UInt8) (drawing : Drawing) (event : DrawEvent) :
    Option Drawing :=
  let moved := bounce drawing.fb.w event.randHighX event.randLowX drawing.x drawing.dx
  let moved' := bounce drawing.fb.h event.randHighY event.randLowY drawing.y drawing.dy
  if 999999 ≤ event.now - drawing.latestUpdate then do
    let fb ← drawing.fb.fade (event.randSub % 5 + 1)
    let fb ← drawText font fb moved.1 moved'.1 (clockText event) 255 255 255
    some ⟨fb, moved.1, moved'.1, moved.2, moved'.2, event.now⟩
  else some ⟨drawing.fb, moved.1, moved'.1, moved.2, moved'.2, drawing.latestUpdate⟩

/-- The thread, which goes on for as long as no byte is written behind the framebuffer. -/
def runFb (font : ℕ → ℕ → ℕ → UInt8) (state : Option Drawing) (event : DrawEvent) :
    Option Drawing × List Unit :=
  (state.bind fun drawing ↦ drawStep font drawing event, [])

/-- The thread at its start, with the screen that `main` has made. -/
def Drawing.start (w h : ℕ) : Drawing where
  fb := ⟨w, h, List.replicate (3 * w * h) 0, List.length_replicate⟩
  x := w / 2
  y := h / 2
  dx := 1
  dy := 1
  latestUpdate := 0

/-! ### What is written -/

section Fold

variable {α β : Type*} {f : β → α → Option β} {P : β → Prop}

/-- A fold that may fail does not, when no step fails under an invariant. -/
theorem foldlM_keeps {list : List α}
    (hstep : ∀ b, ∀ a ∈ list, P b → ∃ next, f b a = some next ∧ P next) {b : β} (h : P b) :
    ∃ last, list.foldlM f b = some last ∧ P last := by
  induction list generalizing b with
  | nil => exact ⟨b, rfl, h⟩
  | cons a rest ih =>
    obtain ⟨next, hnext, hkept⟩ := hstep b a List.mem_cons_self h
    obtain ⟨last, hlast, hkept'⟩ :=
      ih (fun b a ha ↦ hstep b a (List.mem_cons_of_mem _ ha)) hkept
    exact ⟨last, by rw [List.foldlM_cons, hnext]; exact hlast, hkept'⟩

end Fold

/-- A pixel that was drawn white or black and may have got darker in its red. -/
def IsFaded (pixel : Rgb) : Prop :=
  pixel.2.1 = pixel.2.2 ∧ pixel.1 ≤ pixel.2.1 ∧ (pixel.2.1 = 0 ∨ pixel.2.1 = 255)

/-- The pixel with a number. -/
def FrameBuffer.pixelOf (fb : FrameBuffer) (number : ℕ) : Rgb :=
  colour (memoryOf fb.buffer fun _ ↦ 0) (number * 3)

/-- A screen of a size, all of whose pixels are such. -/
structure IsScreen (w h : ℕ) (fb : FrameBuffer) : Prop where
  width : fb.w = w
  height : fb.h = h
  faded : ∀ number < w * h, IsFaded (fb.pixelOf number)

section Writes

variable {fb : FrameBuffer} {w h number : ℕ}

theorem pixelOf_eq (fb : FrameBuffer) (number : ℕ) :
    fb.pixelOf number = (fb.buffer.getD (number * 3) 0, fb.buffer.getD (number * 3 + 1) 0,
      fb.buffer.getD (number * 3 + 2) 0) := rfl

theorem length_buffer (fb : FrameBuffer) : fb.buffer.length = fb.w * fb.h * 3 := by
  rw [fb.size]
  ring

theorem getD_set (buffer : List UInt8) {o : ℕ} (value : UInt8) (ho : o < buffer.length)
    (index : ℕ) :
    (buffer.set o value).getD index 0 = if index = o then value else buffer.getD index 0 := by
  rw [List.getD_eq_getElem?_getD, List.getD_eq_getElem?_getD]
  by_cases hindex : index = o
  · rw [hindex, List.getElem?_set_self ho, if_pos rfl, Option.getD_some]
  · rw [List.getElem?_set_ne (Ne.symm hindex), if_neg hindex]

theorem write_eq {o : ℕ} (value : UInt8) (ho : o < fb.buffer.length) :
    fb.write o value = some { fb with
      buffer := fb.buffer.set o value
      size := List.length_set.trans fb.size } := by
  rw [FrameBuffer.write, if_pos ⟨Int.natCast_nonneg o, Int.ofNat_lt.mpr ho⟩]
  rfl

theorem number_lt_screen {x y : ℕ} (hx : x < w) (hy : y < h) : y * w + x < w * h := by
  rw [Nat.mul_comm w h]
  exact number_lt hy hx

theorem IsScreen.lt_length (hfb : IsScreen w h fb) (hnumber : number < w * h) :
    number * 3 + 2 < fb.buffer.length := by
  rw [length_buffer, hfb.width, hfb.height]
  omega

/-- A screen with one pixel changed. -/
theorem IsScreen.change (hfb : IsScreen w h fb) (number : ℕ) {next : FrameBuffer}
    (hwidth : next.w = fb.w) (hheight : next.h = fb.h)
    (hsame : ∀ other ≠ number, next.pixelOf other = fb.pixelOf other)
    (hpixel : IsFaded (next.pixelOf number)) : IsScreen w h next where
  width := hwidth.trans hfb.width
  height := hheight.trans hfb.height
  faded other hother := by
    by_cases hnumber : other = number
    · rw [hnumber]
      exact hpixel
    · rw [hsame other hnumber]
      exact hfb.faded other hother

/-- A pixel of the screen that is written. -/
theorem writePixel_keeps (hfb : IsScreen w h fb) (hnumber : number < w * h) {r g b : UInt8}
    (hpixel : IsFaded (r, g, b)) :
    ∃ next, fb.writePixel (number * 3 : ℕ) r g b = some next ∧ IsScreen w h next := by
  have hsize := hfb.lt_length hnumber
  have hwrite : fb.writePixel (number * 3 : ℕ) r g b = some { fb with
      buffer := ((fb.buffer.set (number * 3) r).set (number * 3 + 1) g).set (number * 3 + 2) b
      size := by simpa using fb.size } := by
    show ((fb.write (number * 3 : ℕ) r).bind fun fb ↦
      (fb.write (number * 3 + 1 : ℕ) g).bind fun fb ↦ fb.write (number * 3 + 2 : ℕ) b) = _
    rw [write_eq r (by omega), Option.bind_some, write_eq g (by simp only [List.length_set]; omega),
      Option.bind_some, write_eq b (by simp only [List.length_set]; omega)]
  refine ⟨_, hwrite, hfb.change number rfl rfl (fun other hother ↦ ?_) ?_⟩
  · rw [pixelOf_eq, pixelOf_eq]
    simp (disch := (try simp only [List.length_set]) <;> omega) only [getD_set]
    simp (disch := omega) only [if_neg]
  · rw [pixelOf_eq]
    simp (disch := (try simp only [List.length_set]) <;> omega) only [getD_set]
    simpa using hpixel

/-- A pixel of the screen that gets darker. -/
theorem fadePixel_keeps (hfb : IsScreen w h fb) (hnumber : number < w * h) (subn : ℕ) :
    ∃ next, fb.fadePixel subn (number * 3) = some next ∧ IsScreen w h next := by
  have hsize := hfb.lt_length hnumber
  have hred : fb.buffer[number * 3]? = some (fb.pixelOf number).1 := by
    rw [pixelOf_eq, List.getD_eq_getElem?_getD, List.getElem?_eq_getElem (by omega),
      Option.getD_some]
  rw [FrameBuffer.fadePixel, hred]
  simp only
  split_ifs with hsub
  · refine ⟨_, write_eq _ (by omega), hfb.change number rfl rfl (fun other hother ↦ ?_) ?_⟩
    · rw [pixelOf_eq, pixelOf_eq fb other]
      simp (disch := omega) only [getD_set, if_neg]
    · obtain ⟨hsame, hle, hwhite⟩ := hfb.faded number hnumber
      have hdarker : (fb.pixelOf number).1 - UInt8.ofNat subn ≤ (fb.pixelOf number).1 := by
        rw [UInt8.le_iff_toNat_le, UInt8.toNat_sub_of_le]
        · exact Nat.sub_le _ _
        · rw [UInt8.le_iff_toNat_le, UInt8.toNat_ofNat']
          exact (Nat.mod_le _ _).trans hsub
      rw [pixelOf_eq]
      simp (disch := omega) only [getD_set, if_neg, if_true]
      exact ⟨hsame, UInt8.le_trans hdarker hle, hwhite⟩
  · exact ⟨fb, rfl, hfb⟩

/-- The columns of a row of a character, up to the end of the screen. -/
theorem drawColumns_keeps (row : ℕ → UInt8) (first left cx : ℕ) (hfb : IsScreen w h fb) :
    ∃ next, drawColumns row 255 255 255 (first * 3 : ℕ) left cx fb = some next ∧
      IsScreen w h next := by
  induction left generalizing cx fb with
  | zero => exact ⟨fb, rfl, hfb⟩
  | succ left ih =>
    have ho : ((first * 3 : ℕ) : ℤ) + cx * 3 = ((first + cx) * 3 : ℕ) := by
      push_cast
      ring
    have hmaxo : fb.maxo = (w * h * 3 : ℕ) := by
      rw [FrameBuffer.maxo, hfb.width, hfb.height]
      push_cast
      rfl
    rw [drawColumns, ho, hmaxo]
    by_cases hend : ((w * h * 3 : ℕ) : ℤ) ≤ ((first + cx) * 3 : ℕ)
    · rw [if_pos hend]
      exact ⟨fb, rfl, hfb⟩
    · rw [if_neg hend]
      have hnumber : first + cx < w * h := by omega
      have hcolour : ∀ value : UInt8, value = 0 ∨ value = 255 → IsFaded (value, value, value) :=
        fun value hvalue ↦ ⟨rfl, UInt8.le_refl value, hvalue⟩
      have hpixel := hcolour (if row cx ≠ 0 then 255 else 0) (by split_ifs <;> simp)
      obtain ⟨next, hnext, hkept⟩ := writePixel_keeps hfb hnumber hpixel
      obtain ⟨last, hlast, hkept'⟩ := ih (cx + 1) hkept
      rw [hnext]
      exact ⟨last, hlast, hkept'⟩

/-- A text at a position of the screen, in white. -/
theorem drawText_keeps (font : ℕ → ℕ → ℕ → UInt8) (hfb : IsScreen w h fb) {x y : ℤ} (hx : 0 ≤ x)
    (hy : 0 ≤ y) (text : List UInt8) :
    ∃ next, drawText font fb x y text 255 255 255 = some next ∧ IsScreen w h next := by
  refine foldlM_keeps (fun fb entry _ hfb ↦ foldlM_keeps (fun fb cy _ hfb ↦ ?_) hfb) hfb
  obtain ⟨column, rfl⟩ := Int.eq_ofNat_of_zero_le hx
  obtain ⟨line, rfl⟩ := Int.eq_ofNat_of_zero_le hy
  have hstart : ((cy : ℤ) + line) * fb.w * 3 + (column + entry.2 * 8) * 3 =
      (((cy + line) * fb.w + (column + entry.2 * 8)) * 3 : ℕ) := by
    push_cast
    ring
  rw [drawRow, hstart]
  exact drawColumns_keeps _ _ 8 0 hfb

/-- The whole screen gets darker in its red. -/
theorem fade_keeps (hfb : IsScreen w h fb) (subn : ℕ) :
    ∃ next, fb.fade subn = some next ∧ IsScreen w h next := by
  rw [FrameBuffer.fade, hfb.height]
  refine foldlM_keeps (fun fb y hy hfb ↦ ?_) hfb
  rw [hfb.width]
  refine foldlM_keeps (fun fb x hx hfb ↦ ?_) hfb
  have hnumber := number_lt_screen (List.mem_range.mp hx) (List.mem_range.mp hy)
  have hox : y * fb.w * 3 + x * 3 = (y * w + x) * 3 := by
    rw [hfb.width]
    ring
  rw [hox]
  exact fadePixel_keeps hfb hnumber subn

end Writes

/-! ### Every run -/

/-- A coordinate that bounced is inside. -/
theorem bounce_inside {size : ℤ} (h : 0 < size) (randHigh randLow : ℕ) (position delta : ℤ) :
    0 ≤ (bounce size randHigh randLow position delta).1 ∧
      (bounce size randHigh randLow position delta).1 < size := by
  simp only [bounce]
  split_ifs <;> constructor <;> simp only at * <;> omega

/-- The thread with its position on a screen. -/
structure OnScreen (w h : ℕ) (drawing : Drawing) : Prop where
  screen : IsScreen w h drawing.fb
  column : 0 ≤ drawing.x ∧ drawing.x < w
  line : 0 ≤ drawing.y ∧ drawing.y < h

section Run

variable {w h : ℕ}

theorem onScreen_step (font : ℕ → ℕ → ℕ → UInt8) (hw : 0 < w) (hh : 0 < h) {drawing : Drawing}
    (hdrawing : OnScreen w h drawing) (event : DrawEvent) :
    ∃ next, drawStep font drawing event = some next ∧ OnScreen w h next := by
  have hcolumn : 0 ≤ (bounce drawing.fb.w event.randHighX event.randLowX drawing.x drawing.dx).1 ∧
      (bounce drawing.fb.w event.randHighX event.randLowX drawing.x drawing.dx).1 < w := by
    rw [hdrawing.screen.width]
    exact bounce_inside (Int.natCast_pos.mpr hw) _ _ _ _
  have hline : 0 ≤ (bounce drawing.fb.h event.randHighY event.randLowY drawing.y drawing.dy).1 ∧
      (bounce drawing.fb.h event.randHighY event.randLowY drawing.y drawing.dy).1 < h := by
    rw [hdrawing.screen.height]
    exact bounce_inside (Int.natCast_pos.mpr hh) _ _ _ _
  simp only [drawStep]
  split_ifs with hdue
  · obtain ⟨faded, hfaded, hscreen⟩ := fade_keeps hdrawing.screen (event.randSub % 5 + 1)
    obtain ⟨drawn, hdrawn, hscreen'⟩ := drawText_keeps font hscreen hcolumn.1 hline.1
      (clockText event)
    rw [hfaded]
    exact ⟨_, by rw [Option.bind_eq_bind, Option.bind_some, hdrawn]; rfl, hscreen', hcolumn, hline⟩
  · exact ⟨_, rfl, hdrawing.screen, hcolumn, hline⟩

theorem onScreen_start (hw : 0 < w) (hh : 0 < h) : OnScreen w h (Drawing.start w h) where
  screen := by
    refine ⟨rfl, rfl, fun number _ ↦ ?_⟩
    have hzero : ∀ index, (List.replicate (3 * w * h) (0 : UInt8)).getD index 0 = 0 := by
      intro index
      rw [List.getD_eq_getElem?_getD, List.getElem?_replicate]
      split_ifs <;> rfl
    rw [pixelOf_eq]
    show IsFaded ((List.replicate _ _).getD _ 0, (List.replicate _ _).getD _ 0,
      (List.replicate _ _).getD _ 0)
    rw [hzero, hzero, hzero]
    exact ⟨rfl, UInt8.le_refl 0, Or.inl rfl⟩
  column := by
    show 0 ≤ (w : ℤ) / 2 ∧ (w : ℤ) / 2 < w
    omega
  line := by
    show 0 ≤ (h : ℤ) / 2 ∧ (h : ℤ) / 2 < h
    omega

/-- What is on the screen. Assumes: a screen with a pixel. In every run, with any font, any values
of `rand` and any clock, no byte is written behind the framebuffer, the position stays on the
screen, and every pixel is black, white, or a white one that is darker in its red. -/
theorem clock_stays_on_screen (font : ℕ → ℕ → ℕ → UInt8) (hw : 0 < w) (hh : 0 < h)
    (events : List DrawEvent) :
    ∃ drawing, (run (runFb font) (some (Drawing.start w h)) events).1 = some drawing ∧
      (0 ≤ drawing.x ∧ drawing.x < w) ∧ (0 ≤ drawing.y ∧ drawing.y < h) ∧
      drawing.fb.w = w ∧ drawing.fb.h = h ∧
      ∀ x < w, ∀ y < h, IsFaded (drawing.fb.pixelAt x y) := by
  have hrun := run_induction
    (P := fun _ state _ ↦ ∃ drawing, state = some drawing ∧ OnScreen w h drawing)
    ⟨Drawing.start w h, rfl, onScreen_start hw hh⟩ (fun _ state _ event hstate _ ↦ ?_)
    (along_true (runFb font) _ events)
  · obtain ⟨drawing, hdrawing, hscreen⟩ := hrun
    refine ⟨drawing, hdrawing, hscreen.column, hscreen.line, hscreen.screen.width,
      hscreen.screen.height, fun x hx y hy ↦ ?_⟩
    have hpixel := hscreen.screen.faded _ (number_lt_screen hx hy)
    rwa [FrameBuffer.pixelOf, ← hscreen.screen.width] at hpixel
  · obtain ⟨drawing, rfl, hscreen⟩ := hstate
    exact onScreen_step font hw hh hscreen event

end Run

/-- A loop body at noon. -/
def sampleDraw (now : UInt64) : DrawEvent := ⟨0, 0, 0, 0, 2, now, 12, 0, 0⟩

/-- Two updates of a small screen. The second one draws the last pixel again. -/
theorem clock_stays_on_screen_twice :
    let final := (run (runFb fun _ _ _ ↦ 255) (some (Drawing.start 2 2))
      [sampleDraw 0, sampleDraw 1000000, sampleDraw 1000000, sampleDraw 2000000]).1
    (final.map fun drawing ↦ (drawing.fb.pixelAt 0 0, drawing.fb.pixelAt 1 1)) =
      some ((252, 255, 255), (255, 255, 255)) ∧
    ∃ drawing, final = some drawing ∧ drawing.x < 2 ∧ drawing.y < 2 := by
  intro final
  obtain ⟨drawing, hdrawing, hcolumn, hline, -⟩ :=
    clock_stays_on_screen (fun _ _ _ ↦ 255) (show 0 < 2 by decide) (show 0 < 2 by decide)
      [sampleDraw 0, sampleDraw 1000000, sampleDraw 1000000, sampleDraw 2000000]
  exact ⟨by decide +kernel, drawing, hdrawing, hcolumn.2, hline.2⟩

end MyIPNG.Vnc
