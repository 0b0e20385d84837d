import Karnix.Library.CString

/-!
# The text console

`cga_text_print` and `cga_text_scroll_up` of `cga.c`.  The framebuffer in text mode is an array of
words with 64 rows of 80, of which 30 are seen; the function writes it through a pointer that the
escape sequences move.  A text is what comes before its zero byte, and a read behind that byte is
where the model gives up.

Waits for the blanking interval and delays are left out.
-/

namespace Karnix.Video

open Karnix.Library

/-! ## Section 1: The framebuffer and the registers -/

def cgaTextWidth : ℕ := 80

def cgaTextHeight : ℕ := 30

def cgaTextHeightTotal : ℕ := 64

/-- A pointer to a word, counted from the beginning of the framebuffer; the address space has
`2 ^ 30` words. -/
abbrev WordPtr := BitVec 30

/-- The words of the address space from the framebuffer on, and which were written. -/
structure TextFrame where
  words : WordPtr → BitVec 32
  /-- The last one first. -/
  written : List WordPtr

/-- `*p = w`, with a record of what has been written. -/
def TextFrame.store (f : TextFrame) (p : WordPtr) (w : BitVec 32) : TextFrame where
  words q := if q = p then w else f.words q
  written := p :: f.written

/-- `for(int j = 0; j < n; j++) p[j] = w` -/
def TextFrame.fill (f : TextFrame) (p : WordPtr) (w : BitVec 32) : ℕ → TextFrame
  | 0 => f
  | n + 1 => (f.fill p w n).store (p + BitVec.ofNat 30 n) w

/-- The framebuffer and the control registers. -/
structure CgaText where
  frame : TextFrame
  ctrl : BitVec 32
  ctrl2 : BitVec 32

/-- `CGA_CTRL_V_SCROLL`: the bits of the smooth scroll. -/
def cgaCtrlVScroll : BitVec 32 := 0x000003ff

/-- `CGA_CTRL_V_SCROLL_DIR`: the bit for its direction. -/
def cgaCtrlVScrollDir : BitVec 32 := 0x00000400

/-- `CGA_CTRL2_CURSOR_X`: the bits for the column of the cursor. -/
def cgaCtrl2CursorX : BitVec 32 := 0x000000ff

/-- `CGA_CTRL2_CURSOR_Y`: the bits for the row of the cursor. -/
def cgaCtrl2CursorY : BitVec 32 := 0x0000ff00

/-- `CGA_CTRL2_CURSOR_BLINK_EN`: the bit that shows the cursor. -/
def cgaCtrl2CursorBlinkEn : BitVec 32 := 0x08000000

/-- `cga_get_cursor_x` -/
def CgaText.cursorX (c : CgaText) : ℕ := (c.ctrl2 &&& cgaCtrl2CursorX).toNat

/-- `cga_get_cursor_y` -/
def CgaText.cursorY (c : CgaText) : ℕ := ((c.ctrl2 &&& cgaCtrl2CursorY) >>> 8).toNat

/-- `cga_set_cursor_xy`: the low eight bits of both go to the register. -/
def CgaText.setCursorXy (c : CgaText) (x y : ℕ) : CgaText :=
  let tmp := c.ctrl2 &&& ~~~cgaCtrl2CursorX
  let tmp := tmp ||| (BitVec.ofNat 32 x &&& 0xff)
  let tmp := tmp &&& ~~~cgaCtrl2CursorY
  { c with ctrl2 := tmp ||| (BitVec.ofNat 32 y &&& 0xff) <<< 8 }

/-- A column of the text moves up by a row, and its first word goes to the end. -/
def TextFrame.rotate (f : TextFrame) (col : ℕ) : TextFrame :=
  let tmp := f.words (BitVec.ofNat 30 col)
  ((List.range (cgaTextHeightTotal - 1)).foldl (fun f row =>
    f.store (BitVec.ofNat 30 (row * cgaTextWidth + col))
      (f.words (BitVec.ofNat 30 (row * cgaTextWidth + col + cgaTextWidth)))) f).store
    (BitVec.ofNat 30 ((cgaTextHeightTotal - 1) * cgaTextWidth + col)) tmp

/-- `cga_text_scroll_up`: the columns are rotated by a row, while the smooth scroll runs. -/
def CgaText.scrollUp (c : CgaText) : CgaText where
  frame := (List.range cgaTextWidth).foldl TextFrame.rotate c.frame
  ctrl :=
    -- smoothly, by a line of pixels at a time
    let ctrl := (List.range 16).foldl (fun tmp i =>
      tmp &&& ~~~cgaCtrlVScroll ||| BitVec.ofNat 32 i) (c.ctrl &&& ~~~cgaCtrlVScrollDir)
    ctrl &&& ~~~cgaCtrlVScroll
  ctrl2 := c.ctrl2 &&& ~~~cgaCtrl2CursorBlinkEn ||| cgaCtrl2CursorBlinkEn

/-! ## Section 2: Printing -/

/-- The variables of `cga_text_print`. -/
structure Printer where
  frame : TextFrame
  fb : WordPtr
  x : ℕ
  y : ℕ
  attributes : BitVec 32

/-- What the function does for a character or an escape sequence. -/
inductive TextOp where
  /-- A character that is shown. -/
  | shown (c : Byte)
  /-- `'\n'` -/
  | lineFeed
  /-- `'\r'` -/
  | carriageReturn
  /-- `'\t'` -/
  | tab
  /-- "Ctrl-U - erase line" -/
  | eraseLine
  /-- "Ctrl-L - erase entire screen" -/
  | eraseScreen
  /-- "Cursor to Home position" -/
  | home
  /-- `'F'` and `'B'`: the bits of the attributes that are replaced, and by what. -/
  | color (shift : ℕ) (n : ℤ)
  /-- `'D'`, `'U'`, `'L'` and `'R'`: by how many words the pointer is moved. -/
  | motion (n : ℤ)
  deriving DecidableEq

/-- The blank that rows and tabs are filled with. -/
def Printer.blank (p : Printer) : BitVec 32 := p.attributes ||| 0x20

/-- `fb - (fb - (uint32_t*)framebuffer) % CGA_TEXT_WIDTH` -/
def lineStart (fb : WordPtr) : WordPtr := fb - BitVec.ofInt 30 (fb.toInt.tmod cgaTextWidth)

/-- The row that is cleared below row `y`. -/
def rowBelow (y : ℕ) : WordPtr := BitVec.ofNat 30 ((y + 1) * cgaTextWidth)

/-- `8 - x % 8` -/
def tabSpaces (x : ℕ) : ℕ := 8 - x % 8

def Printer.exec (p : Printer) : TextOp → Printer
  | .shown c => { p with
      frame := p.frame.store p.fb (p.attributes ||| c.setWidth 32)
      fb := p.fb + 1
      x := p.x + 1 }
  | .lineFeed => { p with
      frame :=
        if cgaTextHeight ≤ p.y + 1 then p.frame.fill (rowBelow (p.y + 1)) p.blank cgaTextWidth
        else p.frame
      fb := p.fb + BitVec.ofNat 30 cgaTextWidth
      y := p.y + 1 }
  | .carriageReturn => { p with
      fb := lineStart p.fb
      x := 0 }
  | .tab => { p with
      frame := p.frame.fill p.fb p.blank (tabSpaces p.x)
      fb := p.fb + BitVec.ofNat 30 (tabSpaces p.x)
      x := p.x + tabSpaces p.x }
  | .eraseLine => { p with
      frame := p.frame.fill (lineStart p.fb) p.blank cgaTextWidth
      fb := lineStart p.fb
      x := 0 }
  | .eraseScreen => { p with
      frame := p.frame.fill 0 p.blank (cgaTextWidth * cgaTextHeight)
      fb := BitVec.ofNat 30 (cgaTextWidth * cgaTextHeight) }
  | .home => { p with
      x := 0
      y := 0 }
  | .color shift n => { p with
      attributes := p.attributes &&& ~~~(0xff#32 <<< shift) ||| BitVec.ofInt 32 n <<< shift }
  | .motion n => { p with fb := p.fb + BitVec.ofInt 30 n }

/-- The byte at the beginning of a text, or the zero byte behind it. -/
def cur (text : List Byte) : Byte := text.headD 0

/-- `while(text[++i] != ';')` from the beginning of a text on: what is behind the semicolon, if
there is one before the zero byte. -/
def skipArgument : List Byte → Option (List Byte)
  | [] => none
  | _ :: text =>
    match text.dropWhile (· ≠ 0x3b) with
    | [] => none
    | _ :: text => some text

/-- An escape sequence with an argument. -/
def withArgument (op : ℤ → TextOp) (text : List Byte) : Option (List TextOp × List Byte) :=
  (skipArgument text).map fun rest => ([op (CString.atoi text)], rest)

/-- The sequences that begin with `ESC [`.  What stands behind them is passed over by the loop,
which counts `i` up once more. -/
def bracket (text : List Byte) : Option (List TextOp × List Byte) :=
  let line := text.take 2 = [0x32, 0x4b]
  let text₁ := if line then text.drop 2 else text
  let screen := text₁.take 2 = [0x32, 0x4a]
  let home := cur text₁ = 0x48
  let text₂ := if home then text₁.drop 1 else text₁
  match text₂ with
  | [] => none
  | _ :: rest => some ((if line then [.eraseLine] else []) ++
      (if screen then [.eraseScreen] else []) ++ (if home then [.home] else []), rest)

/-- What stands behind an `ESC`: what it does, and the text after it. -/
def escape : List Byte → Option (List TextOp × List Byte)
  | [] => none
  | c :: text =>
    if c = 0x5b then bracket text
    else if c = 0x46 then withArgument (.color 8) text
    else if c = 0x42 then withArgument (.color 16) text
    else if c = 0x44 then withArgument (fun n => .motion (cgaTextWidth * n)) text
    else if c = 0x55 then withArgument (fun n => .motion (-(cgaTextWidth * n))) text
    else if c = 0x4c then withArgument (fun n => .motion (-n)) text
    else if c = 0x52 then withArgument .motion text
    else some ([], text)

/-- A character other than `ESC`. -/
def plain (c : Byte) : TextOp :=
  if c = 0x0a then .lineFeed
  else if c = 0x0d then .carriageReturn
  else if c = 0x09 then .tab
  else .shown c

theorem skipArgument_lt {text rest : List Byte} (h : skipArgument text = some rest) :
    rest.length < text.length := by
  cases text with
  | nil => cases h
  | cons c text =>
    rw [skipArgument] at h
    have hle := (List.dropWhile_suffix (fun b : Byte => decide (b ≠ 0x3b)) (l := text)).length_le
    split at h
    · cases h
    · rename_i heq
      cases h
      rw [heq, List.length_cons] at hle
      exact Nat.lt_succ_of_lt hle

theorem withArgument_lt {op : ℤ → TextOp} {text rest : List Byte} {ops : List TextOp}
    (h : withArgument op text = some (ops, rest)) : rest.length < text.length := by
  obtain ⟨rest', hskip, heq⟩ := Option.map_eq_some_iff.1 h
  cases heq
  exact skipArgument_lt hskip

theorem length_ite_drop {c : Prop} [Decidable c] (n : ℕ) (text : List Byte) :
    (if c then text.drop n else text).length ≤ text.length := by
  split
  · rw [List.length_drop]
    exact Nat.sub_le _ _
  · exact Nat.le_refl _

theorem bracket_lt {text rest : List Byte} {ops : List TextOp}
    (h : bracket text = some (ops, rest)) : rest.length < text.length := by
  simp only [bracket] at h
  split at h
  · cases h
  · rename_i heq
    cases h
    calc rest.length < _ := Nat.lt_succ_self _
      _ = _ := (congrArg List.length heq).symm
      _ ≤ _ := length_ite_drop 1 _
      _ ≤ _ := length_ite_drop 2 text

theorem escape_lt {text rest : List Byte} {ops : List TextOp}
    (h : escape text = some (ops, rest)) : rest.length < text.length := by
  cases text with
  | nil => cases h
  | cons c text =>
    rw [List.length_cons]
    simp only [escape] at h
    split at h
    · exact Nat.lt_succ_of_lt (bracket_lt h)
    all_goals
      repeat
        split at h
        · exact Nat.lt_succ_of_lt (withArgument_lt h)
      cases h
      exact Nat.lt_succ_self _

/-- The loop of `cga_text_print`, or none if it reads behind the end of the text. -/
def printLoop : List Byte → Printer → Option Printer
  | [], p => some p
  | c :: text, p =>
    if c = 0x1b then
      match _h : escape text with
      | none => none
      | some (ops, rest) => printLoop rest (ops.foldl Printer.exec p)
    else printLoop text (p.exec (plain c))
  termination_by text => text.length
  decreasing_by
  · exact Nat.lt_succ_of_lt (escape_lt _h)
  · exact Nat.lt_succ_self _

/-- `cga_text_print` from the end of its loop on. -/
def printEnd (c : CgaText) (p : Printer) : CgaText :=
  let y := if cgaTextWidth ≤ p.x then p.y + p.x / cgaTextWidth else p.y
  let x := if cgaTextWidth ≤ p.x then p.x % cgaTextWidth else p.x
  if cgaTextHeight ≤ y then
    let c := { c with frame := p.frame.fill (rowBelow y) p.blank cgaTextWidth }
    (CgaText.scrollUp^[y - (cgaTextHeight - 1)] c).setCursorXy x (cgaTextHeight - 1)
  else { c with frame := p.frame }.setCursorXy x y

/-- The pointer and the coordinates with which `cga_text_print` begins. -/
def CgaText.printer (c : CgaText) (x y : ℤ) (fgColor bgColor : BitVec 32) : Printer :=
  let x := if x < 0 then c.cursorX else x.toNat
  let y := if y < 0 then c.cursorY else y.toNat
  { frame := c.frame
    fb := BitVec.ofNat 30 (cgaTextWidth * y + x)
    x := x
    y := y
    attributes := bgColor <<< 16 ||| fgColor <<< 8 }

/-- `cga_text_print`: from the cursor or a given place on; no text, no effect. -/
def cgaTextPrint (c : CgaText) (x y : ℤ) (fgColor bgColor : BitVec 32) (text : Option CString) :
    Option CgaText :=
  match text with
  | none => some c
  | some text => (printLoop text.bytes (c.printer x y fgColor bgColor)).map (printEnd c)

end Karnix.Video
