import Karnix.Library.Runs
import Mathlib.Data.Int.Notation

/-!
# Scan-out of the framebuffer

The clocking area `dvi_area` of `CGA4HDMI.scala`, from the counters to the colour of a pixel, with
the control words and the memories of the controller held constant and the synchronisers
`BufferCC` left out.  The timing is that of one of the `cga_video_formats` of `cga.c`, which the
`video` command copies to the registers `CTRL3` to `CTRL6`.

The picture that the framebuffer describes is given by itself, pixel by pixel, with integers.
-/

namespace Karnix.Video

open Karnix.Library

/-! ## Section 1: Control words -/

/-- The control words of the controller. -/
structure CgaRegs where
  cgaCtrlWord : BitVec 32
  cgaCtrl2Word : BitVec 32
  cgaCtrl3Word : BitVec 32
  cgaCtrl4Word : BitVec 32
  cgaCtrl5Word : BitVec 32
  cgaCtrl6Word : BitVec 32

namespace CgaRegs

variable (r : CgaRegs)

def blankingEnabled : Bool := r.cgaCtrlWord.getLsbD 30
def videoMode : BitVec 2 := r.cgaCtrlWord.extractLsb 25 24
def scrollVDir : Bool := r.cgaCtrlWord.getLsbD 10
def scrollV : BitVec 10 := r.cgaCtrlWord.extractLsb 9 0

def cursorX : BitVec 7 := r.cgaCtrl2Word.extractLsb 6 0
def cursorY : BitVec 6 := r.cgaCtrl2Word.extractLsb 13 8
def cursorBottom : BitVec 4 := r.cgaCtrl2Word.extractLsb 19 16
def cursorTop : BitVec 4 := r.cgaCtrl2Word.extractLsb 23 20
def cursorBlink : BitVec 3 := r.cgaCtrl2Word.extractLsb 26 24
def cursorBlinkEnabled : Bool := r.cgaCtrl2Word.getLsbD 27
def cursorColor : BitVec 4 := r.cgaCtrl2Word.extractLsb 31 28

def horizBackPorch : BitVec 16 := r.cgaCtrl3Word.extractLsb 15 0
def horizFrontPorch : BitVec 16 := r.cgaCtrl3Word.extractLsb 31 16
def horizActive : BitVec 16 := r.cgaCtrl4Word.extractLsb 15 0
def horizSync : BitVec 16 := (r.cgaCtrl4Word.extractLsb 30 16).setWidth 16
def horizSyncPol : Bool := r.cgaCtrl4Word.getLsbD 31
def vertBackPorch : BitVec 16 := r.cgaCtrl5Word.extractLsb 15 0
def vertFrontPorch : BitVec 16 := r.cgaCtrl5Word.extractLsb 31 16
def vertActive : BitVec 16 := r.cgaCtrl6Word.extractLsb 15 0
def vertSync : BitVec 16 := (r.cgaCtrl6Word.extractLsb 30 16).setWidth 16
def vertSyncPol : Bool := r.cgaCtrl6Word.getLsbD 31

def horizTotalWidth : BitVec 16 :=
  r.horizBackPorch + r.horizActive + r.horizFrontPorch + r.horizSync

def vertTotalHeight : BitVec 16 :=
  r.vertBackPorch + r.vertActive + r.vertFrontPorch + r.vertSync

/-- The line that is shown on a line of the screen. -/
def scrolled (line : BitVec 16) : BitVec 16 :=
  if r.scrollVDir then line - r.scrollV.setWidth 16 else line + r.scrollV.setWidth 16

end CgaRegs

/-- `CGA_Video_Format`: the control words that a video mode is set up with. -/
structure CgaVideoFormat where
  ctrl3HfpHbp : BitVec 32
  ctrl4HspolHsyncHactive : BitVec 32
  ctrl5VfpVbp : BitVec 32
  ctrl6VspolVsyncVactive : BitVec 32

/-- `cga_video_formats`: generic 640x480, and the Addi 1024x600 display. -/
def cgaVideoFormats : Fin 2 → CgaVideoFormat
  | 0 => ⟨0x00200020, 0x00600280, 0x001B0010, 0x000201E0⟩
  | 1 => ⟨0x01a80028, 0x00300280, 0x008b000d, 0x000301e0⟩

/-- The control words after a format has been copied to them. -/
def CgaVideoFormat.regs (f : CgaVideoFormat) (ctrl ctrl2 : BitVec 32) : CgaRegs :=
  ⟨ctrl, ctrl2, f.ctrl3HfpHbp, f.ctrl4HspolHsyncHactive, f.ctrl5VfpVbp, f.ctrl6VspolVsyncVactive⟩

/-! ## Section 2: The clocking area -/

/-- The memories of the controller. -/
structure CgaMem where
  fb : ℕ → BitVec 32
  chargen : ℕ → BitVec 8
  palette : BitVec 4 → BitVec 32

/-- The number of words of `fb_mem`. -/
def fbWords : ℕ := 320 * (240 + 16) * 2 / 32

/-- The registers of `dvi_area`. -/
structure DviState where
  counterX : BitVec 16
  counterY : BitVec 16
  counterY_ : BitVec 16
  counterF : BitVec 7
  /-- The register in the read port of `fb_mem`. -/
  readPort : BitVec 32
  word : BitVec 32
  charMask : BitVec 8

/-- The colour lines. -/
structure Rgb where
  red : BitVec 8
  green : BitVec 8
  blue : BitVec 8
  deriving DecidableEq

/-- The colour in a word of the palette. -/
def Rgb.ofPalette (w : BitVec 32) : Rgb :=
  ⟨w.extractLsb 7 0, w.extractLsb 15 8, w.extractLsb 23 16⟩

/-- What `dvi_area` hands to the encoders. -/
structure DviOut where
  rgb : Rgb
  hSync : Bool
  vSync : Bool
  vBlank : Bool
  de : Bool

namespace DviState

variable (r : CgaRegs) (m : CgaMem) (st : DviState)

def hSync : Bool :=
  (decide (r.horizBackPorch + r.horizActive + r.horizFrontPorch ≤ st.counterX) &&
    decide (st.counterX < r.horizBackPorch + r.horizActive + r.horizFrontPorch + r.horizSync)) ^^
    r.horizSyncPol

def vSync : Bool :=
  (decide (r.vertBackPorch + r.vertActive + r.vertFrontPorch ≤ st.counterY) &&
    decide (st.counterY < r.vertBackPorch + r.vertActive + r.vertFrontPorch + r.vertSync)) ^^
    r.vertSyncPol

def de : Bool :=
  decide (r.horizBackPorch ≤ st.counterX) &&
    decide (st.counterX < r.horizBackPorch + r.horizActive) &&
    (decide (r.vertBackPorch ≤ st.counterY) &&
      decide (st.counterY < r.vertBackPorch + r.vertActive))

def vBlank : Bool :=
  decide (st.counterY < r.vertBackPorch) || decide (r.vertActive + r.vertBackPorch ≤ st.counterY)

/-- `word_load` in text mode. -/
def textLoad : Bool :=
  decide (r.horizBackPorch - 8 ≤ st.counterX) &&
    decide (st.counterX < r.horizBackPorch + r.horizActive) &&
    decide (st.counterY < r.vertBackPorch + r.vertActive + 16) && st.counterX &&& 6 == 6

/-- `word_address` in text mode. -/
def textAddress : BitVec 13 :=
  ((st.counterY_ - 16).extractLsb 9 4).setWidth 13 * 80 +
    ((st.counterX - (r.horizBackPorch - 8)).extractLsb 9 3).setWidth 13

/-- `word_load` in graphics mode. -/
def graphicsLoad : Bool :=
  decide (0 ≤ st.counterX) && decide (st.counterX < r.horizBackPorch + r.horizActive) &&
    decide (st.counterY_ < r.vertBackPorch + r.vertActive) && st.counterX &&& 30 == 30

/-- `word_address` in graphics mode; the sum has 14 bits, of which 13 are kept. -/
def graphicsAddress : BitVec 13 :=
  (((st.counterY_ - 16).extractLsb 9 1).setWidth 14 * 20 +
    (st.counterX.extractLsb 9 5).setWidth 14).setWidth 13

def wordLoad : Bool :=
  if r.videoMode = 0 then st.textLoad r else if r.videoMode = 1 then st.graphicsLoad r else false

def wordAddress : BitVec 13 :=
  if r.videoMode = 0 then st.textAddress r
  else if r.videoMode = 1 then st.graphicsAddress else 0

def charRow : BitVec 4 := st.counterY_.extractLsb 3 0

/-- `char_data`: the row of the glyph that is under the beam. -/
def charData : BitVec 8 := m.chargen (st.word.extractLsb 7 0 ++ st.charRow).toNat

def blinkFlag : Bool :=
  st.counterF.getLsbD r.cursorBlink.toNat && r.cursorBlinkEnabled &&
    decide (r.cursorTop ≤ st.charRow) && decide (st.charRow ≤ r.cursorBottom)

/-- The entry of the palette in text mode. -/
def textColor : BitVec 4 :=
  if (st.counterX - r.horizBackPorch).extractLsb 9 3 = r.cursorX ∧
      (st.counterY_ - r.vertBackPorch).extractLsb 9 4 = r.cursorY ∧ st.blinkFlag r then
    r.cursorColor
  else if st.charData m &&& st.charMask ≠ 0 then st.word.extractLsb 11 8
  else st.word.extractLsb 19 16

/-- The entry of the palette in graphics mode. -/
def graphicsColor : BitVec 4 :=
  ((st.word <<< ((st.counterX.extractLsb 4 1).toNat * 2)).extractLsb 31 30).setWidth 4

def rgb : Rgb :=
  if r.videoMode = 0 then
    if st.de r && !r.blankingEnabled then .ofPalette (m.palette (st.textColor r m)) else ⟨0, 0, 0⟩
  else if r.videoMode = 1 then
    if st.de r && !r.blankingEnabled then .ofPalette (m.palette st.graphicsColor) else ⟨0, 0, 0⟩
  else ⟨255, 0, 0⟩

def out : DviOut := ⟨st.rgb r m, st.hSync r, st.vSync r, st.vBlank r, st.de r⟩

/-- One clock of the pixels: the counters, what is fetched, and what is shifted out. -/
def clock : DviState where
  counterX := if st.counterX = r.horizTotalWidth - 1 then 0 else st.counterX + 1
  counterY :=
    if st.counterX = r.horizTotalWidth - 1 then
      if st.counterY = r.vertTotalHeight - 1 then 0 else st.counterY + 1
    else st.counterY
  counterY_ := r.scrolled st.counterY
  counterF := if st.counterX = 0 ∧ st.counterY = 0 then st.counterF + 1 else st.counterF
  readPort := if st.wordLoad r then m.fb (st.wordAddress r).toNat else st.readPort
  word := st.readPort
  charMask :=
    -- the register of the text mode keeps its value in the other modes
    if r.videoMode = 0 then
      if st.counterX &&& 7 = 7 then 0x80 else (0#1 ++ st.charMask.extractLsb 7 1)
    else st.charMask

/-- The registers at a clock. -/
def scan (n : ℕ) : DviState := trace (fun st (_ : Unit) => st.clock r m) st (fun _ => ()) n

end DviState

/-! ## Section 3: The picture in the framebuffer -/

/-- What is shown: text with a scroll and its direction, or graphics without one. -/
inductive Picture where
  | text (dir : Bool) (scroll : BitVec 10)
  | graphics

/-- The line of the text that is on a line of the screen. -/
def textLine (dir : Bool) (scroll : BitVec 10) (y : ℕ) : ℤ :=
  if dir then (y : ℤ) - scroll.toNat else y + scroll.toNat

/-- The cursor is shown in a cell, on a line of its glyph and in a frame. -/
def CursorShown (r : CgaRegs) (frame : BitVec 7) (column row glyphRow : ℕ) : Prop :=
  column = r.cursorX.toNat ∧ row = r.cursorY.toNat ∧ frame.getLsbD r.cursorBlink.toNat = true ∧
    r.cursorBlinkEnabled = true ∧ r.cursorTop.toNat ≤ glyphRow ∧ glyphRow ≤ r.cursorBottom.toNat

instance (r : CgaRegs) (frame : BitVec 7) (column row glyphRow : ℕ) :
    Decidable (CursorShown r frame column row glyphRow) := inferInstanceAs (Decidable (_ ∧ _))

/-- The entry of the palette for a pixel of the text. -/
def textPixel (r : CgaRegs) (m : CgaMem) (frame : BitVec 7) (dir : Bool) (scroll : BitVec 10)
    (x y : ℕ) : BitVec 4 :=
  let row := (textLine dir scroll y / 16 % 64).toNat
  let glyphRow := (textLine dir scroll y % 16).toNat
  let cell := m.fb (row * 80 + x / 8)
  if CursorShown r frame (x / 8) row glyphRow then r.cursorColor
  else if (m.chargen ((cell.extractLsb 7 0).toNat * 16 + glyphRow)).getLsbD (7 - x % 8) then
    cell.extractLsb 11 8
  else cell.extractLsb 19 16

/-- The entry of the palette for a pixel of the graphics: two bits of a word, the first pixel in
the highest ones. -/
def graphicsPixel (m : CgaMem) (x y : ℕ) : BitVec 4 :=
  ((m.fb (y / 2 * 20 + x / 32)).extractLsb' (30 - 2 * (x / 2 % 16)) 2).setWidth 4

namespace Picture

/-- The control word asks for the picture. -/
def Selected : Picture → CgaRegs → Prop
  | text dir scroll, r => r.videoMode = 0 ∧ r.scrollVDir = dir ∧ r.scrollV = scroll
  | graphics, r => r.videoMode = 1 ∧ r.scrollV = 0

/-- The entry of the palette for a pixel. -/
def pixel (r : CgaRegs) (m : CgaMem) (frame : BitVec 7) : Picture → ℕ → ℕ → BitVec 4
  | text dir scroll, x, y => textPixel r m frame dir scroll x y
  | graphics, x, y => graphicsPixel m x y

end Picture

/-- The clock at which a pixel of a frame is put out, from the beginning of the first frame on. -/
def CgaRegs.pixelClock (r : CgaRegs) (frame x y : ℕ) : ℕ :=
  (frame * r.vertTotalHeight.toNat + (r.vertBackPorch.toNat + y)) * r.horizTotalWidth.toNat +
    (r.horizBackPorch.toNat + x)

/-- Whatever is in the memories, in every frame every active pixel has the colour that it has in
the picture. -/
def ShowsPixels (f : CgaVideoFormat) (p : Picture) : Prop :=
  ∀ (ctrl ctrl2 : BitVec 32) (m : CgaMem) (st : DviState),
    p.Selected (f.regs ctrl ctrl2) → (f.regs ctrl ctrl2).blankingEnabled = false →
    st.counterX = 0 → st.counterY = 0 → ∀ frame x y, x < 640 → y < 480 →
    ((st.scan (f.regs ctrl ctrl2) m ((f.regs ctrl ctrl2).pixelClock frame x y)).out
      (f.regs ctrl ctrl2) m).de = true ∧
    ((st.scan (f.regs ctrl ctrl2) m ((f.regs ctrl ctrl2).pixelClock frame x y)).out
      (f.regs ctrl ctrl2) m).rgb = .ofPalette (m.palette (p.pixel (f.regs ctrl ctrl2) m
        (st.counterF + BitVec.ofNat 7 (frame + 1)) x y))

/-- No clock reads beyond the framebuffer. -/
def ReadsInside (f : CgaVideoFormat) (p : Picture) : Prop :=
  ∀ (ctrl ctrl2 : BitVec 32) (m : CgaMem) (st : DviState),
    p.Selected (f.regs ctrl ctrl2) → (f.regs ctrl ctrl2).blankingEnabled = false →
    st.counterX = 0 → st.counterY = 0 → ∀ n,
    (st.scan (f.regs ctrl ctrl2) m n).wordLoad (f.regs ctrl ctrl2) = true →
    ((st.scan (f.regs ctrl ctrl2) m n).wordAddress (f.regs ctrl ctrl2)).toNat < fbWords

/-- With a format, the screen shows the picture in the framebuffer. -/
def ShowsFramebuffer (f : CgaVideoFormat) (p : Picture) : Prop :=
  ShowsPixels f p ∧ ReadsInside f p

/-- The scrolls with which no line of the text is in the last row of the framebuffer, where the
cell after the last one of a line is no longer in it.  Lines are read from the vertical back porch
on to the front porch. -/
def Picture.AvoidsLastRow : Picture → Prop
  | text dir scroll =>
    if dir then 512 ≤ scroll.toNat ∧ scroll.toNat ≤ 1008
    else 16 ≤ scroll.toNat ∧ scroll.toNat ≤ 512
  | graphics => True

end Karnix.Video
