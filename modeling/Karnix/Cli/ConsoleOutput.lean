import Karnix.Cli.Input
import Karnix.Library.Printf
import Karnix.Video.ConsoleBounds

/-!
# Console output

`xprintf` of `utils.c` and `cli_prompt` of `cli.c`.  The text is formatted into memory from the
heap, given to `printf` as a format, and then to `cga_text_print`.
-/

namespace Karnix.Cli

open Karnix.Library Karnix.Video
open Printf (percent printf)

/-! ## Section 1: `xprintf` -/

/-- What a call of `xprintf` does. -/
structure Output where
  /-- The bytes sent to the UART. -/
  uart : List Byte
  /-- What is wrong with a format, if anything is. -/
  fault : Option FmtFault
  /-- The screen, unless the text was read behind its end. -/
  screen : Option CgaText

/-- `vasprintf`: the text, if the heap has room for so many bytes. -/
def vasprintf (room : ℕ → Bool) (format : CString) (args : List FmtArg) :
    Except FmtFault (Option CString) :=
  let printed := printf format.bytes args
  match printed.fault with
  | some fault => .error fault
  | none =>
    let text := CString.ofBytes printed.out
    .ok (if room (text.bytes.length + 1) then some text else none)

/-- `xprintf`: what `vasprintf` makes of the format is printed, as a format again, and is shown on
the screen. -/
def xprintf (room : ℕ → Bool) (cga : CgaText) (format : CString) (args : List FmtArg) : Output :=
  match vasprintf room format args with
  | .error fault => ⟨[], some fault, none⟩
  | .ok none => ⟨[], none, some cga⟩
  | .ok (some text) =>
    -- the text is the format here
    let printed := printf text.bytes []
    ⟨printed.out, printed.fault, cgaTextPrint cga (-1) (-1) 15 0 (some text)⟩

/-- `"\rMONITOR["` -/
def promptBegin : List Byte := [0x0d, 0x4d, 0x4f, 0x4e, 0x49, 0x54, 0x4f, 0x52, 0x5b]

/-- `"]-> "` -/
def promptEnd : List Byte := [0x5d, 0x2d, 0x3e, 0x20]

/-- `"\rMONITOR[%p]-> %s"` -/
def promptFormat : CString :=
  ⟨promptBegin ++ [percent, 0x70] ++ promptEnd ++ [percent, 0x73], by decide⟩

/-- `cli_prompt`: the current address and the edit line. -/
def cliPrompt (room : ℕ → Bool) (cga : CgaText) (currentAddress : BitVec 32) (cliBuf : CString) :
    Output :=
  xprintf room cga promptFormat [.ptr currentAddress, .str cliBuf]

/-! ## Section 2: Faithful output -/

/-- The UART gets the text, nothing is taken for an argument, and only the screen is written. -/
def Output.Faithful (o : Output) (cga : CgaText) (text : List Byte) : Prop :=
  o.uart = text ∧ o.fault = none ∧ ∃ c' ws, o.screen = some c' ∧
    c'.frame.written = ws ++ cga.frame.written ∧ ∀ w ∈ ws, OnScreen w

/-- The escape sequences of the text are complete, and it stays on the screen from the cursor
on. -/
def FitsScreen (cga : CgaText) (text : List Byte) : Prop :=
  ∃ ops, textOps text = some ops ∧ (cga.printer (-1) (-1) 15 0).place.FitsAll ops

/-- The text is empty and not printed, or it has no percent sign and fits the screen. -/
def Printable (room : ℕ → Bool) (cga : CgaText) (text : List Byte) : Prop :=
  (room (text.length + 1) = false ∧ text = []) ∨
    (room (text.length + 1) = true ∧ percent ∉ text ∧ FitsScreen cga text)

variable {cga : CgaText} {format : CString} {args : List FmtArg}

/-- Whatever the format is, the text that it makes is printed as it is exactly if it is
printable. -/
theorem faithful_iff (room : ℕ → Bool) (cga : CgaText) (text : CString)
    (h : printf format.bytes args = ⟨text.bytes, none⟩) :
    (xprintf room cga format args).Faithful cga text.bytes ↔ Printable room cga text.bytes := by
  have htext : CString.ofBytes text.bytes = text := by
    obtain ⟨bytes, hzero⟩ := text
    simp only [CString.ofBytes, CString.mk.injEq]
    exact CString.bytes_ofBytes hzero
  rw [xprintf, vasprintf, h]
  simp only [htext]
  unfold Printable
  cases hroom : room (text.bytes.length + 1) with
  | false =>
    simp only [Bool.false_eq_true, if_false, true_and, false_and, or_false]
    constructor
    · rintro ⟨hempty, -⟩
      exact hempty.symm
    · intro hempty
      exact ⟨hempty.symm, rfl, cga, [], rfl, rfl, List.forall_mem_nil _⟩
  | true =>
    simp only [if_true, Bool.true_eq_false, false_and, false_or, true_and]
    rw [← Printf.printf_nil_iff, FitsScreen, ← writesScreen_iff]
    constructor
    · rintro ⟨huart, hfault, hscreen⟩
      refine ⟨?_, hscreen⟩
      cases hprinted : printf text.bytes [] with
      | mk out fault =>
        rw [hprinted] at huart hfault
        rw [← huart, ← hfault]
    · rintro ⟨hprinted, hscreen⟩
      rw [hprinted]
      exact ⟨rfl, rfl, hscreen⟩

/-! ## Section 3: The prompt -/

/-- A visual character, of those that `cli_process_input` takes into the line. -/
def IsVisual (b : Byte) : Prop := 0x20 ≤ b ∧ b < 0x7f

instance (b : Byte) : Decidable (IsVisual b) := inferInstanceAs (Decidable (_ ∧ _))

/-- The prompt with the edit line. -/
def promptText (currentAddress : BitVec 32) (line : List Byte) : List Byte :=
  promptBegin ++ Printf.address currentAddress ++ promptEnd ++ line

/-- What is shown of it. -/
def promptShown (currentAddress : BitVec 32) (line : List Byte) : List Byte :=
  promptBegin.tail ++ Printf.address currentAddress ++ promptEnd ++ line

theorem isVisual_hexDigit {v : ℕ} (h : v < 16) : IsVisual (Printf.hexDigit v) ∧
    Printf.hexDigit v ≠ percent := by
  revert v
  decide

theorem isVisual_hexDigits {n v : ℕ} : ∀ b ∈ Printf.hexDigits n v, IsVisual b ∧ b ≠ percent := by
  induction n generalizing v with
  | zero => exact List.forall_mem_nil _
  | succ n ih =>
    rw [Printf.hexDigits, List.forall_mem_append, List.forall_mem_singleton]
    exact ⟨ih, isVisual_hexDigit (Nat.mod_lt v (by decide))⟩

theorem isVisual_address (w : BitVec 32) :
    ∀ b ∈ Printf.address w, IsVisual b ∧ b ≠ percent := by
  rw [Printf.address, List.forall_mem_append, List.forall_mem_append, List.forall_mem_singleton]
  refine ⟨⟨by decide, fun b hb => ?_⟩, isVisual_hexDigit (Nat.mod_lt _ (by decide))⟩
  exact isVisual_hexDigits b ((List.dropWhile_suffix _).subset hb)

theorem isVisual_prompt (currentAddress : BitVec 32) {line : List Byte}
    (hline : ∀ b ∈ line, IsVisual b) : ∀ b ∈ promptShown currentAddress line, IsVisual b := by
  rw [promptShown, List.forall_mem_append, List.forall_mem_append, List.forall_mem_append]
  exact ⟨⟨⟨by decide, fun b hb => (isVisual_address currentAddress b hb).1⟩, by decide⟩, hline⟩

theorem length_hexDigits (n v : ℕ) : (Printf.hexDigits n v).length = n := by
  induction n generalizing v with
  | zero => rfl
  | succ n ih => rw [Printf.hexDigits, List.length_append, ih, List.length_singleton]

theorem length_address_le (w : BitVec 32) : (Printf.address w).length ≤ 10 := by
  have hle := (List.dropWhile_suffix (fun b : Byte => decide (b = 0x30))
    (l := Printf.hexDigits 7 (w.toNat / 16))).length_le
  rw [length_hexDigits] at hle
  rw [Printf.address]
  simp only [List.length_append, List.length_cons, List.length_nil]
  omega

/-- Visual characters are shown. -/
theorem textOps_visual {bs : List Byte} (h : ∀ b ∈ bs, IsVisual b) :
    textOps bs = some (bs.map TextOp.shown) := by
  induction bs with
  | nil =>
    rw [textOps]
    rfl
  | cons b bs ih =>
    obtain ⟨hvisual, hrest⟩ := List.forall_mem_cons.1 h
    have hkind : b ≠ 0x1b ∧ plain b = .shown b := by
      clear h ih hrest
      revert b
      decide
    rw [textOps, if_neg hkind.1, ih hrest, hkind.2]
    rfl

/-- Characters that are shown one behind the other. -/
theorem fitsAll_shown {bs : List Byte} {q : Place}
    (hfb : q.fb.toNat + bs.length ≤ cgaTextHeightTotal * cgaTextWidth)
    (hrow : q.y + (q.x + bs.length) / cgaTextWidth + 2 ≤ cgaTextHeightTotal) :
    q.FitsAll (bs.map TextOp.shown) := by
  induction bs generalizing q with
  | nil =>
    intro _
    show (rowBelow q.lastRow).toNat + cgaTextWidth ≤ _
    simp only [rowBelow, Place.lastRow, cgaTextWidth, cgaTextHeightTotal, BitVec.toNat_ofNat,
      List.length_nil, Nat.add_zero] at *
    rw [Nat.mod_eq_of_lt (by omega)]
    omega
  | cons b bs ih =>
    rw [List.length_cons] at hfb hrow
    refine ⟨?_, ih ?_ ?_⟩
    · show q.fb.toNat + 1 ≤ _
      omega
    · show (q.fb + 1).toNat + bs.length ≤ _
      rw [BitVec.toNat_add]
      simp only [cgaTextWidth, cgaTextHeightTotal] at *
      show (q.fb.toNat + 1) % 1073741824 + _ ≤ _
      omega
    · have hsum : q.x + 1 + bs.length = q.x + (bs.length + 1) := by omega
      show q.y + (q.x + 1 + bs.length) / cgaTextWidth + 2 ≤ _
      rw [hsum]
      exact hrow

/-- The beginning of the row that the cursor is in. -/
theorem lineStart_cursor {x y : ℕ} (hx : x < cgaTextWidth) (hy : y < cgaTextHeight) :
    (lineStart (BitVec.ofNat 30 (cgaTextWidth * y + x))).toNat = cgaTextWidth * y := by
  simp only [cgaTextWidth, cgaTextHeight] at *
  have hint : (BitVec.ofNat 30 (80 * y + x)).toInt = ((80 * y + x : ℕ) : ℤ) := by
    rw [BitVec.toInt_eq_toNat_of_lt] <;> rw [BitVec.toNat_ofNat, Nat.mod_eq_of_lt] <;> omega
  have hcolumn : ((80 * y + x : ℕ) : ℤ).tmod 80 = (x : ℤ) := by
    rw [Int.tmod_eq_emod_of_nonneg (Int.natCast_nonneg _)]
    omega
  rw [lineStart, hint]
  show (BitVec.ofNat 30 (80 * y + x) - BitVec.ofInt 30 (((80 * y + x : ℕ) : ℤ).tmod 80)).toNat = _
  rw [hcolumn, BitVec.ofInt_natCast, BitVec.toNat_sub, BitVec.toNat_ofNat, BitVec.toNat_ofNat]
  omega

/-- From a cursor on the screen every prompt fits. -/
theorem fitsScreen_prompt (hx : cga.cursorX < cgaTextWidth) (hy : cga.cursorY < cgaTextHeight)
    (currentAddress : BitVec 32) {line : List Byte} (hline : ∀ b ∈ line, IsVisual b)
    (hlen : line.length ≤ cliBufSize) : FitsScreen cga (promptText currentAddress line) := by
  -- the carriage return, and what is shown behind it
  have hops : textOps (promptText currentAddress line) =
      some (.carriageReturn :: (promptShown currentAddress line).map TextOp.shown) := by
    have htext : promptText currentAddress line = 0x0d :: promptShown currentAddress line := rfl
    rw [htext, textOps, if_neg (by decide), textOps_visual (isVisual_prompt currentAddress hline)]
    rfl
  have hlength : (promptShown currentAddress line).length ≤ 86 := by
    have haddress := length_address_le currentAddress
    have hbegin : promptBegin.tail.length = 8 := rfl
    have hend : promptEnd.length = 4 := rfl
    have hsize : cliBufSize = 64 := rfl
    rw [promptShown, List.length_append, List.length_append, List.length_append]
    omega
  have hstart := lineStart_cursor hx hy
  simp only [cgaTextWidth, cgaTextHeight] at hx hy hstart
  refine ⟨_, hops, trivial, fitsAll_shown ?_ ?_⟩
  · show (lineStart (BitVec.ofNat 30 (80 * cga.cursorY + cga.cursorX))).toNat + _ ≤ 64 * 80
    rw [hstart]
    omega
  · show cga.cursorY + (0 + _) / 80 + 2 ≤ 64
    omega

/-! ## Section 4: All output -/

theorem printf_prompt (currentAddress : BitVec 32) (cliBuf : CString) :
    printf promptFormat.bytes [.ptr currentAddress, .str cliBuf] =
      ⟨promptText currentAddress cliBuf.bytes, none⟩ := by
  have hbegin : percent ∉ promptBegin := by decide
  have hend : percent ∉ promptEnd := by decide
  have hformat : promptFormat.bytes =
      promptBegin ++ percent :: 0x70 :: (promptEnd ++ percent :: 0x73 :: []) := rfl
  rw [hformat, Printf.printf_append hbegin, Printf.printf_ptr, Printf.printf_append hend,
    Printf.printf_str, printf]
  simp only [Printed.prepend, promptText, List.append_nil, List.append_assoc]

theorem percent_notMem_prompt (currentAddress : BitVec 32) (line : List Byte) :
    percent ∉ promptText currentAddress line ↔ percent ∉ line := by
  have haddress : percent ∉ Printf.address currentAddress := fun hmem =>
    (isVisual_address currentAddress percent hmem).2 rfl
  have hbegin : percent ∉ promptBegin := by decide
  have hend : percent ∉ promptEnd := by decide
  simp only [promptText, List.mem_append, hbegin, haddress, hend, false_or]

/-- `"%s"` -/
def stringFormat : CString := ⟨[percent, 0x73], by decide⟩

/-- **Console output.**  A string behind any text is printed as it is exactly if both together
are printable; and the prompt shows the edit line exactly if that has no percent sign, and the heap
has room for the text. -/
theorem consoleOutput (room : ℕ → Bool) (cga : CgaText) :
    (∀ before arg : CString, percent ∉ before.bytes →
      ((xprintf room cga (before.append stringFormat) [.str arg]).Faithful cga
          (before.bytes ++ arg.bytes) ↔
        Printable room cga (before.bytes ++ arg.bytes))) ∧
    ∀ (currentAddress : BitVec 32) (cliBuf : CString), cga.cursorX < cgaTextWidth →
      cga.cursorY < cgaTextHeight → (∀ b ∈ cliBuf.bytes, IsVisual b) →
      cliBuf.bytes.length ≤ cliBufSize →
      ((cliPrompt room cga currentAddress cliBuf).Faithful cga
          (promptText currentAddress cliBuf.bytes) ↔
        room ((promptText currentAddress cliBuf.bytes).length + 1) = true ∧
          percent ∉ cliBuf.bytes) := by
  constructor
  · intro before arg hbefore
    refine faithful_iff room cga (before.append arg) ?_
    have hformat : (before.append stringFormat).bytes = before.bytes ++ percent :: 0x73 :: [] := rfl
    rw [hformat, Printf.printf_append hbefore, Printf.printf_str, printf]
    simp only [Printed.prepend, CString.append, List.append_nil]
  · intro currentAddress cliBuf hx hy hvisual hlen
    have hzero : (0 : Byte) ∉ promptText currentAddress cliBuf.bytes := by
      intro hmem
      rcases List.mem_cons.1 hmem with hreturn | hshown
      · exact absurd hreturn (by decide)
      · exact absurd (isVisual_prompt currentAddress hvisual 0 hshown) (by decide)
    have hiff := faithful_iff room cga ⟨_, hzero⟩ (printf_prompt currentAddress cliBuf)
    refine hiff.trans ?_
    have hfits := fitsScreen_prompt hx hy currentAddress hvisual hlen
    have hne : promptText currentAddress cliBuf.bytes ≠ [] := List.cons_ne_nil _ _
    rw [Printable, percent_notMem_prompt]
    simp only [hfits, hne, and_true, and_false, false_or]

/-- A screen that nothing was written to, with the cursor in its first corner. -/
def blankScreen : CgaText := ⟨⟨fun _ => 0, []⟩, 0, 0⟩

/-- The prompt behind the typed line `ls`, which is printed as it is. -/
theorem consoleOutput_ls :
    (cliPrompt (fun _ => true) blankScreen 0x80000000 ⟨[0x6c, 0x73], by decide⟩).Faithful
      blankScreen (promptText 0x80000000 [0x6c, 0x73]) :=
  ((consoleOutput (fun _ => true) blankScreen).2 0x80000000 ⟨[0x6c, 0x73], by decide⟩ (by decide)
    (by decide) (by decide) (by decide)).2 ⟨rfl, by decide⟩

/-- The heap has room, and the user has typed a percent sign and an `s`. -/
theorem not_faithful_percent :
    ¬ (cliPrompt (fun _ => true) blankScreen 0x80000000 ⟨[percent, 0x73], by decide⟩).Faithful
      blankScreen (promptText 0x80000000 [percent, 0x73]) := by
  intro hfaithful
  have hiff := faithful_iff (fun _ => true) blankScreen
    ⟨promptText 0x80000000 [percent, 0x73], by decide⟩
    (printf_prompt 0x80000000 ⟨[percent, 0x73], by decide⟩)
  rcases hiff.1 hfaithful with ⟨hroom, -⟩ | ⟨-, hpercent, -⟩
  · cases hroom
  · exact hpercent (by decide)

end Karnix.Cli
