import Karnix.Library.Bytes

/-!
# Drawing text into the framebuffers

`hub_print_char` and `hub_print` of `hub.c`, `cga_video_print_char` and `cga_video_print` of
`cga.c`.  A framebuffer is the memory window of its controller, addressed from the base on
in bytes; the drawing code reads and writes it in 32-bit words.

Both character routines walk over the glyph in the same way, column by column in bands of
eight lines, and skip what lies outside the frame.  They differ in how a pixel is packed
into its word.
-/

namespace Karnix.Video

open Karnix.Library

/-! ## Section 1: Words of a framebuffer -/

/-- The word at byte address `a`. -/
def readWord (fb : Memory Byte) (a : ℕ) : BitVec 32 :=
  be32 (fb (a + 3)) (fb (a + 2)) (fb (a + 1)) (fb a)

/-- The framebuffer with the word at byte address `a` replaced. -/
def writeWord (fb : Memory Byte) (a : ℕ) (w : BitVec 32) : Memory Byte := fb.store a (leBytes32 w)

/-- `SWAP32`: the bytes of a word in the other order. -/
def swap32 (w : BitVec 32) : BitVec 32 :=
  be32 (w.setWidth 8) ((w >>> 8).setWidth 8) ((w >>> 16).setWidth 8) ((w >>> 24).setWidth 8)

/-! ## Section 2: Glyphs -/

/-- A font: its bytes and the size of its glyphs in pixels. -/
structure Font where
  bytes : ℕ → Byte
  width : ℕ
  height : ℕ

/-- The number of bands of eight lines, the last of which may be shorter. -/
def Font.lines (font : Font) : ℕ :=
  if font.height % 8 ≠ 0 then font.height / 8 + 1 else font.height / 8

/-- The byte of a glyph for a column of a band; bit 0 is the uppermost pixel. -/
def Font.column (font : Font) (c : Byte) (line col : ℕ) : Byte :=
  font.bytes (font.width * c.toNat * font.lines + line * font.width + col)

/-- The pixels of a frame. -/
structure Frame where
  width : ℕ
  height : ℕ

/-- The loops shared by `hub_print_char` and `cga_video_print_char`: `draw` is applied to
every pixel of the glyph box inside the frame, with the bit the font has for it. -/
def printChar (draw : Memory Byte → ℕ → ℕ → Bool → Memory Byte) (frame : Frame) (font : Font)
    (c : Byte) (x y : ℤ) (fb : Memory Byte) : Memory Byte :=
  (List.range font.lines).foldl (fun fb (line : ℕ) =>
    (List.range font.width).foldl (fun fb (col : ℕ) =>
      if 0 ≤ x + col ∧ x + col < frame.width then
        (List.range (min 8 (font.height - line * 8))).foldl (fun fb (bit : ℕ) =>
          if 0 ≤ y + line * 8 + bit ∧ y + line * 8 + bit < frame.height then
            draw fb (x + col).toNat (y + line * 8 + bit).toNat
              ((font.column c line col).getLsbD bit)
          else fb) fb
      else fb) fb) fb

/-! ## Section 3: HUB matrices -/

/-- The innermost block of `hub_print_char`.  No word is written for a matrix of another
type. -/
def hubDrawPixel (hubType : ℕ) (color : Byte) (frame : Frame) (fb : Memory Byte) (x y : ℕ)
    (lit : Bool) : Memory Byte :=
  let pixelIdx := y * frame.width + x
  if hubType = 12 then
    let mask := 1#32 <<< (31 - pixelIdx % 32)
    let tmp := swap32 (readWord fb (4 * (pixelIdx / 32)))
    writeWord fb (4 * (pixelIdx / 32)) (swap32 (if lit then tmp ||| mask else tmp &&& ~~~mask))
  else if hubType = 75 then
    let shift := (3 - pixelIdx % 4) * 8
    let tmp := swap32 (readWord fb (4 * (pixelIdx / 4))) &&& ~~~(0xff#32 <<< shift)
    writeWord fb (4 * (pixelIdx / 4))
      (swap32 (if lit then tmp ||| color.setWidth 32 <<< shift else tmp))
  else fb

/-- `hub_print_char`: a glyph on the panel, of a type that decides the order of its pixels. -/
def hubPrintChar (hubType : ℕ) (color : Byte) (frame : Frame) (font : Font) (c : Byte)
    (x y : ℤ) (fb : Memory Byte) : Memory Byte :=
  printChar (hubDrawPixel hubType color frame) frame font c x y fb

/-- The address of `HUB->CONTROL` in the window of the HUB controller. -/
def hubControlAddr : ℕ := 16 * 1024

/-- `HUB->CONTROL & HUB_MASK_TYPE` -/
def hubType (hub : Memory Byte) : ℕ := (readWord hub hubControlAddr &&& 0x0000007f).toNat

/-- `hub_print`, for the text that lies at the start of `text`. -/
def hubPrint (frame : Frame) (x y : ℤ) (color : BitVec 32) (text : List Byte) (font : Font)
    (hub : Memory Byte) : Memory Byte :=
  text.zipIdx.foldl (fun hub (c, i) =>
    hubPrintChar (hubType hub) (color.setWidth 8) frame font c (x + i * font.width) y hub) hub

/-! ## Section 4: The CGA framebuffer -/

/-- The innermost block of `cga_video_print_char`.  Bits 3 and 7 of the colours ask for the
glyph and the background to be or-ed to what is there. -/
def cgaDrawPixel (colors : Byte) (frame : Frame) (fb : Memory Byte) (x y : ℕ) (lit : Bool) :
    Memory Byte :=
  let pixelIdx := y * frame.width + x
  let shift := (15 - pixelIdx % 16) * 2
  let mask := 0x03#32 <<< shift
  let tmp := readWord fb (4 * (pixelIdx / 16))
  let fontColor := (colors &&& 0x3).setWidth 32
  let bgColor := (colors >>> 4 &&& 0x3).setWidth 32
  let tmp :=
    if lit then
      (if colors &&& 0x08 = 0 then tmp &&& ~~~mask else tmp) ||| fontColor <<< shift
    else
      (if colors &&& 0x80 = 0 then tmp &&& ~~~mask else tmp) ||| bgColor <<< shift
  writeWord fb (4 * (pixelIdx / 16)) tmp

/-- `cga_video_print_char`: a glyph in graphics mode. -/
def cgaVideoPrintChar (colors : Byte) (frame : Frame) (font : Font) (c : Byte) (x y : ℤ)
    (fb : Memory Byte) : Memory Byte :=
  printChar (cgaDrawPixel colors frame) frame font c x y fb

/-- `CGA_VIDEO_WIDTH` and `CGA_VIDEO_HEIGHT` -/
def cgaFrame : Frame := ⟨320, 240⟩

/-- `cga_video_print`: the text ends early at a zero byte. -/
def cgaVideoPrint (x y : ℤ) (colors : BitVec 32) (text : List Byte) (font : Font)
    (cga : Memory Byte) : Memory Byte :=
  (text.takeWhile (· ≠ 0)).zipIdx.foldl (fun cga (c, i) =>
    cgaVideoPrintChar (colors.setWidth 8) cgaFrame font c (x + i * font.width) y cga) cga

/-! ## Section 5: `hub_init` -/

/-- An entry of `hub_configs`. -/
structure HubConfig where
  matrixType : ℕ
  matrixWidth : ℕ
  matrixPlanes : ℕ
  matrixRowsPerPlane : ℕ
  matrixBitsPerPixel : ℕ

/-- `hub_configs`: the two panels that the firmware knows. -/
def hubConfigs : List HubConfig := [⟨12, 32, 4, 4, 1⟩, ⟨75, 80, 2, 20, 8⟩]

/-- What `hub_init` sets: the variables of `hub.c` and the window of the controller. -/
structure HubState where
  frameSize : ℕ := 0
  frame : Frame := ⟨0, 0⟩
  window : Memory Byte := fun _ => 0

/-- The value `hub_init` writes to `HUB->CONTROL` at the end. -/
def HubConfig.control (c : HubConfig) : BitVec 32 :=
  BitVec.ofNat 32 (255 <<< 8 ||| c.matrixWidth <<< 16 ||| c.matrixPlanes <<< 24
    ||| c.matrixType <<< 0 ||| 0x00000080)

/-- The offset of plane `i` in the framebuffer. -/
def HubConfig.planeOffset (c : HubConfig) (i : ℕ) : BitVec 32 :=
  BitVec.ofNat 32 (i * c.matrixWidth * c.matrixBitsPerPixel * c.matrixRowsPerPlane / 8)

/-- `hub_init`: `none` where it returns -1 because the type is unknown. -/
def hubInit (type : ℕ) (hub : HubState) : Option HubState :=
  (hubConfigs.find? fun c => c.matrixType = type).map fun c =>
    let off := writeWord hub.window hubControlAddr 0
    let planes := (List.range c.matrixPlanes).foldl (fun w i =>
      writeWord w (hubControlAddr + 4 + 4 * i) (c.planeOffset i)) off
    { frameSize := c.matrixWidth * c.matrixPlanes * c.matrixRowsPerPlane * c.matrixBitsPerPixel / 8
      frame := ⟨c.matrixWidth, c.matrixPlanes * c.matrixRowsPerPlane⟩
      window := writeWord planes hubControlAddr c.control }

end Karnix.Video
