import Karnix.Video.TextConsole
import Mathlib.Tactic.IntervalCases

/-!
# What the text console writes

`cga_text_print` counts its index past the end of a text where an escape sequence is not complete,
and its pointer may leave the framebuffer.  The cursor is on the screen after every text.
-/

namespace Karnix.Video

open Karnix.Library

/-! ## Section 1: The operations of a text -/

/-- The characters and escape sequences of a text, if all of them are complete. -/
def textOps : List Byte → Option (List TextOp)
  | [] => some []
  | c :: text =>
    if c = 0x1b then
      match _h : escape text with
      | none => none
      | some (ops, rest) => (textOps rest).map (ops ++ ·)
    else (textOps text).map (plain c :: ·)
  termination_by text => text.length
  decreasing_by
  · exact Nat.lt_succ_of_lt (escape_lt _h)
  · exact Nat.lt_succ_self _

variable {text rest : List Byte} {ops : List TextOp}

theorem textOps_of_none (h : escape text = none) : textOps (0x1b :: text) = none := by
  rw [textOps, if_pos rfl]
  split
  · rfl
  · rename_i heq
    rw [h] at heq
    cases heq

theorem textOps_of_some (h : escape text = some (ops, rest)) :
    textOps (0x1b :: text) = (textOps rest).map (ops ++ ·) := by
  rw [textOps, if_pos rfl]
  split
  · rename_i heq
    rw [h] at heq
    cases heq
  · rename_i heq
    rw [h] at heq
    cases heq
    rfl

theorem printLoop_of_none (h : escape text = none) (p : Printer) :
    printLoop (0x1b :: text) p = none := by
  rw [printLoop, if_pos rfl]
  split
  · rfl
  · rename_i heq
    rw [h] at heq
    cases heq

theorem printLoop_of_some (h : escape text = some (ops, rest)) (p : Printer) :
    printLoop (0x1b :: text) p = printLoop rest (ops.foldl Printer.exec p) := by
  rw [printLoop, if_pos rfl]
  split
  · rename_i heq
    rw [h] at heq
    cases heq
  · rename_i heq
    rw [h] at heq
    cases heq
    rfl

/-- The loop executes the operations of the text. -/
theorem printLoop_eq (text : List Byte) (p : Printer) :
    printLoop text p = (textOps text).map fun ops => ops.foldl Printer.exec p := by
  induction text, p using printLoop.induct with
  | case1 p =>
    rw [printLoop, textOps]
    rfl
  | case2 p text hnone => rw [printLoop_of_none hnone, textOps_of_none hnone, Option.map_none]
  | case3 p text ops rest hsome ih =>
    rw [printLoop_of_some hsome, textOps_of_some hsome, ih, Option.map_map]
    refine congrArg (Option.map · _) (funext fun os => ?_)
    exact (List.foldl_append ..).symm
  | case4 c text p hne ih =>
    rw [printLoop, textOps, if_neg hne, if_neg hne, ih, Option.map_map]
    rfl

/-! ## Section 2: Writes -/

/-- The word is one of the 64 rows of 80. -/
def OnScreen (p : WordPtr) : Prop := p.toNat < cgaTextHeightTotal * cgaTextWidth

/-- The `n` words from `p` on are. -/
def Fit (p : WordPtr) (n : ℕ) : Prop := p.toNat + n ≤ cgaTextHeightTotal * cgaTextWidth

/-- What was written between `f` and `f'` is on the screen exactly if `fits`. -/
def Writes (f f' : TextFrame) (fits : Prop) : Prop :=
  ∃ ws, f'.written = ws ++ f.written ∧ ((∀ w ∈ ws, OnScreen w) ↔ fits)

variable {f f₁ f₂ : TextFrame} {fits fits₁ : Prop}

theorem writes_nil (f : TextFrame) : Writes f f True :=
  ⟨[], rfl, iff_of_true (List.forall_mem_nil _) trivial⟩

theorem Writes.trans (h : Writes f f₁ fits) (h₁ : Writes f₁ f₂ fits₁) :
    Writes f f₂ (fits ∧ fits₁) := by
  obtain ⟨ws, hws, hfits⟩ := h
  obtain ⟨ws₁, hws₁, hfits₁⟩ := h₁
  refine ⟨ws₁ ++ ws, ?_, ?_⟩
  · rw [hws₁, hws, List.append_assoc]
  · rw [List.forall_mem_append, hfits, hfits₁, and_comm]

theorem Writes.of_iff (h : Writes f f₁ fits) (hiff : fits ↔ fits₁) : Writes f f₁ fits₁ := by
  obtain ⟨ws, hws, hfits⟩ := h
  exact ⟨ws, hws, hfits.trans hiff⟩

theorem writes_store (f : TextFrame) (p : WordPtr) (w : BitVec 32) :
    Writes f (f.store p w) (OnScreen p) :=
  ⟨[p], rfl, List.forall_mem_singleton⟩

/-- Words one behind the other are on the screen if the first ones are and the last one is. -/
theorem fit_succ_iff {p : WordPtr} {n : ℕ} (hn : 0 < n) :
    Fit p (n + 1) ↔ Fit p n ∧ OnScreen (p + BitVec.ofNat 30 n) := by
  unfold Fit OnScreen cgaTextHeightTotal cgaTextWidth
  rw [BitVec.toNat_add, BitVec.toNat_ofNat]
  omega

theorem writes_fill (f : TextFrame) (p : WordPtr) (w : BitVec 32) {n : ℕ} (hn : 0 < n) :
    Writes f (f.fill p w n) (Fit p n) := by
  obtain ⟨n, rfl⟩ : ∃ k, n = k + 1 := ⟨n - 1, by omega⟩
  clear hn
  induction n with
  | zero =>
    have hzero : p + BitVec.ofNat 30 0 = p := BitVec.add_zero p
    show Writes f (f.store (p + BitVec.ofNat 30 0) w) _
    rw [hzero]
    exact writes_store f p w
  | succ n ih =>
    exact (ih.trans (writes_store _ (p + BitVec.ofNat 30 (n + 1)) w)).of_iff
      (fit_succ_iff (Nat.succ_pos n)).symm

/-- A loop each pass of which stays on the screen. -/
theorem writes_foldl {α : Type} {step : TextFrame → α → TextFrame} {l : List α}
    (h : ∀ f, ∀ a ∈ l, Writes f (step f a) True) (f : TextFrame) :
    Writes f (l.foldl step f) True := by
  induction l generalizing f with
  | nil => exact writes_nil f
  | cons a l ih =>
    have hstep := h f a (List.mem_cons_self ..)
    have hrest := ih (fun f b hb => h f b (List.mem_cons_of_mem a hb)) (step f a)
    exact (hstep.trans hrest).of_iff ⟨fun _ => trivial, fun _ => ⟨trivial, trivial⟩⟩

theorem writes_cell (f : TextFrame) {row col : ℕ} (hrow : row < cgaTextHeightTotal)
    (hcol : col < cgaTextWidth) (w : BitVec 32) :
    Writes f (f.store (BitVec.ofNat 30 (row * cgaTextWidth + col)) w) True := by
  refine (writes_store f _ w).of_iff (iff_of_true ?_ trivial)
  unfold cgaTextHeightTotal cgaTextWidth at *
  have hlt : row * 80 + col < 64 * 80 := by omega
  show (BitVec.ofNat 30 (row * 80 + col)).toNat < 64 * 80
  rw [BitVec.toNat_ofNat, Nat.mod_eq_of_lt (by omega)]
  exact hlt

/-- Scrolling stays on the screen. -/
theorem writes_scrollUp (c : CgaText) : Writes c.frame c.scrollUp.frame True := by
  refine writes_foldl (fun f col hcol => ?_) c.frame
  have hcol := List.mem_range.1 hcol
  have hrows : Writes f ((List.range (cgaTextHeightTotal - 1)).foldl (fun f row =>
      f.store (BitVec.ofNat 30 (row * cgaTextWidth + col))
        (f.words (BitVec.ofNat 30 (row * cgaTextWidth + col + cgaTextWidth)))) f) True :=
    writes_foldl (fun f row hrow =>
      writes_cell f (Nat.lt_of_lt_pred (List.mem_range.1 hrow)) hcol _) f
  exact (hrows.trans (writes_cell _ (by decide) hcol _)).of_iff
    ⟨fun _ => trivial, fun _ => ⟨trivial, trivial⟩⟩

theorem writes_scrollUps (n : ℕ) (c : CgaText) :
    Writes c.frame (CgaText.scrollUp^[n] c).frame True := by
  induction n generalizing c with
  | zero => exact writes_nil c.frame
  | succ n ih =>
    exact ((writes_scrollUp c).trans (ih c.scrollUp)).of_iff
      ⟨fun _ => trivial, fun _ => ⟨trivial, trivial⟩⟩

/-! ## Section 3: Places -/

/-- Where the pointer and the coordinates are. -/
structure Place where
  fb : WordPtr
  x : ℕ
  y : ℕ
  deriving DecidableEq

def Printer.place (p : Printer) : Place := ⟨p.fb, p.x, p.y⟩

def Place.move (q : Place) : TextOp → Place
  | .shown _ => ⟨q.fb + 1, q.x + 1, q.y⟩
  | .lineFeed => ⟨q.fb + BitVec.ofNat 30 cgaTextWidth, q.x, q.y + 1⟩
  | .carriageReturn => ⟨lineStart q.fb, 0, q.y⟩
  | .tab => ⟨q.fb + BitVec.ofNat 30 (tabSpaces q.x), q.x + tabSpaces q.x, q.y⟩
  | .eraseLine => ⟨lineStart q.fb, 0, q.y⟩
  | .eraseScreen => ⟨BitVec.ofNat 30 (cgaTextWidth * cgaTextHeight), q.x, q.y⟩
  | .home => ⟨q.fb, 0, 0⟩
  | .color _ _ => q
  | .motion n => ⟨q.fb + BitVec.ofInt 30 n, q.x, q.y⟩

/-- The words that an operation writes are on the screen. -/
def Place.Fits (q : Place) : TextOp → Prop
  | .shown _ => Fit q.fb 1
  | .lineFeed => cgaTextHeight ≤ q.y + 1 → Fit (rowBelow (q.y + 1)) cgaTextWidth
  | .tab => Fit q.fb (tabSpaces q.x)
  | .eraseLine => Fit (lineStart q.fb) cgaTextWidth
  | _ => True

/-- The row of the cursor before the text is scrolled: the columns that were counted past the end
of the row make further rows. -/
def Place.lastRow (q : Place) : ℕ := q.y + q.x / cgaTextWidth

/-- All operations fit, and so does the row that is cleared in the end. -/
def Place.FitsAll (q : Place) : List TextOp → Prop
  | [] => cgaTextHeight ≤ q.lastRow → Fit (rowBelow q.lastRow) cgaTextWidth
  | op :: ops => q.Fits op ∧ (q.move op).FitsAll ops

instance Place.decidableFits (q : Place) : (op : TextOp) → Decidable (q.Fits op)
  | .shown _ | .tab | .eraseLine => inferInstanceAs (Decidable (_ ≤ _))
  | .lineFeed => inferInstanceAs (Decidable (_ ≤ _ → _ ≤ _))
  | .carriageReturn | .eraseScreen | .home | .color _ _ | .motion _ => .isTrue trivial

instance Place.decidableFitsAll : (q : Place) → (ops : List TextOp) → Decidable (q.FitsAll ops)
  | _, [] => inferInstanceAs (Decidable (_ ≤ _ → _ ≤ _))
  | q, op :: ops =>
    have := Place.decidableFitsAll (q.move op) ops
    inferInstanceAs (Decidable (_ ∧ _))

theorem place_exec (p : Printer) (op : TextOp) : (p.exec op).place = p.place.move op := by
  cases op <;> rfl

theorem tabSpaces_pos (x : ℕ) : 0 < tabSpaces x := by
  unfold tabSpaces
  omega

/-- **Step lemma.**  An operation writes inside the framebuffer exactly if it fits at its place. -/
theorem writes_exec (p : Printer) (op : TextOp) :
    Writes p.frame (p.exec op).frame (p.place.Fits op) := by
  cases op with
  | shown c => exact writes_store _ _ _
  | lineFeed =>
    show Writes p.frame (if _ then _ else _) _
    split
    · rename_i hlast
      exact (writes_fill _ _ _ (by decide)).of_iff ⟨fun h _ => h, fun h => h hlast⟩
    · rename_i hnot
      exact (writes_nil _).of_iff ⟨fun _ hlast => absurd hlast hnot, fun _ => trivial⟩
  | carriageReturn => exact writes_nil _
  | tab => exact writes_fill _ _ _ (tabSpaces_pos _)
  | eraseLine => exact writes_fill _ _ _ (by decide)
  | eraseScreen =>
    refine (writes_fill _ _ _ (by decide)).of_iff (iff_of_true ?_ trivial)
    show _ + _ ≤ _
    decide
  | home => exact writes_nil _
  | color => exact writes_nil _
  | motion => exact writes_nil _

/-- **Run lemma.**  The loop and the end of the function. -/
theorem writes_printEnd (c : CgaText) (p : Printer) :
    Writes p.frame (printEnd c p).frame
      (cgaTextHeight ≤ p.place.lastRow → Fit (rowBelow p.place.lastRow) cgaTextWidth) := by
  have hrow : (if cgaTextWidth ≤ p.x then p.y + p.x / cgaTextWidth else p.y) =
      p.place.lastRow := by
    split
    · rfl
    · rename_i hx
      rw [Place.lastRow, show p.place.x / cgaTextWidth = 0 from
        Nat.div_eq_of_lt (Nat.not_le.1 hx)]
      rfl
  simp only [printEnd, hrow]
  split
  · rename_i hlast
    have hclear := writes_fill p.frame (rowBelow p.place.lastRow) p.blank
      (show 0 < cgaTextWidth by decide)
    exact (hclear.trans (writes_scrollUps _ { c with
      frame := p.frame.fill (rowBelow p.place.lastRow) p.blank cgaTextWidth })).of_iff
        ⟨fun h _ => h.1, fun h => ⟨h hlast, trivial⟩⟩
  · rename_i hnot
    exact (writes_nil p.frame).of_iff ⟨fun _ hlast => absurd hlast hnot, fun _ => trivial⟩

/-- **Run lemma.**  A text does exactly if all its operations fit. -/
theorem writes_ops (c : CgaText) (ops : List TextOp) (p : Printer) :
    Writes p.frame (printEnd c (ops.foldl Printer.exec p)).frame (p.place.FitsAll ops) := by
  -- on the operations, each of which is made at the place that those before it have led to
  induction ops generalizing p with
  | nil => exact writes_printEnd c p
  | cons op ops ih =>
    have hrest := ih (p.exec op)
    rw [place_exec] at hrest
    exact (writes_exec p op).trans hrest

/-! ## Section 4: The cursor -/

theorem cursorX_setCursorXy (c : CgaText) {x y : ℕ} (hx : x < 256) :
    (c.setCursorXy x y).cursorX = x := by
  have hbits : (c.setCursorXy x y).ctrl2 &&& cgaCtrl2CursorX = BitVec.ofNat 32 x &&& 0xff := by
    apply BitVec.eq_of_getLsbD_eq
    intro i hi
    simp only [CgaText.setCursorXy, cgaCtrl2CursorX, cgaCtrl2CursorY, BitVec.getLsbD_and,
      BitVec.getLsbD_or, BitVec.getLsbD_not, BitVec.getLsbD_shiftLeft]
    interval_cases i <;> simp
  rw [CgaText.cursorX, hbits, BitVec.toNat_and, BitVec.toNat_ofNat]
  have hand : x % 2 ^ 32 &&& 0xff = x % 2 ^ 32 % 2 ^ 8 := Nat.and_two_pow_sub_one_eq_mod _ 8
  show x % 2 ^ 32 &&& 0xff = x
  rw [hand]
  omega

theorem cursorY_setCursorXy (c : CgaText) {x y : ℕ} (hy : y < 256) :
    (c.setCursorXy x y).cursorY = y := by
  have hbits : ((c.setCursorXy x y).ctrl2 &&& cgaCtrl2CursorY) >>> 8 =
      BitVec.ofNat 32 y &&& 0xff := by
    apply BitVec.eq_of_getLsbD_eq
    intro i hi
    simp only [CgaText.setCursorXy, cgaCtrl2CursorX, cgaCtrl2CursorY, BitVec.getLsbD_and,
      BitVec.getLsbD_or, BitVec.getLsbD_not, BitVec.getLsbD_shiftLeft, BitVec.getLsbD_ushiftRight]
    interval_cases i <;> simp
  rw [CgaText.cursorY, hbits, BitVec.toNat_and, BitVec.toNat_ofNat]
  have hand : y % 2 ^ 32 &&& 0xff = y % 2 ^ 32 % 2 ^ 8 := Nat.and_two_pow_sub_one_eq_mod _ 8
  show y % 2 ^ 32 &&& 0xff = y
  rw [hand]
  omega

/-- After every text the cursor is on the screen. -/
theorem cursor_printEnd (c : CgaText) (p : Printer) :
    (printEnd c p).cursorX < cgaTextWidth ∧ (printEnd c p).cursorY < cgaTextHeight := by
  have hcolumn : (if cgaTextWidth ≤ p.x then p.x % cgaTextWidth else p.x) < cgaTextWidth := by
    split
    · exact Nat.mod_lt _ (by decide)
    · rename_i hx
      exact Nat.not_le.1 hx
  simp only [printEnd]
  generalize (if cgaTextWidth ≤ p.x then p.x % cgaTextWidth else p.x) = x at hcolumn ⊢
  generalize (if cgaTextWidth ≤ p.x then p.y + p.x / cgaTextWidth else p.y) = y
  have hx : x < 256 := Nat.lt_trans hcolumn (by decide)
  split
  · rw [cursorX_setCursorXy _ hx, cursorY_setCursorXy _ (by decide)]
    exact ⟨hcolumn, by decide⟩
  · rename_i hlast
    have hrow := Nat.not_le.1 hlast
    rw [cursorX_setCursorXy _ hx, cursorY_setCursorXy _ (Nat.lt_trans hrow (by decide))]
    exact ⟨hcolumn, hrow⟩

/-! ## Section 5: Texts -/

/-- `cga_text_print` returns without reading behind the text, writes only words of the 64 rows, and
leaves the cursor on the screen. -/
def StaysOnScreen (c : CgaText) (x y : ℤ) (fgColor bgColor : BitVec 32) (text : CString) : Prop :=
  ∃ c' ws, cgaTextPrint c x y fgColor bgColor (some text) = some c' ∧
    c'.frame.written = ws ++ c.frame.written ∧ (∀ w ∈ ws, OnScreen w) ∧
    c'.cursorX < cgaTextWidth ∧ c'.cursorY < cgaTextHeight

variable {c : CgaText} {x y : ℤ} {fgColor bgColor : BitVec 32}

/-- The text is read to its end, and only the screen is written, exactly if the escape sequences
are complete and all operations fit. -/
theorem writesScreen_iff {text : CString} :
    (∃ c' ws, cgaTextPrint c x y fgColor bgColor (some text) = some c' ∧
      c'.frame.written = ws ++ c.frame.written ∧ ∀ w ∈ ws, OnScreen w) ↔
    ∃ ops, textOps text.bytes = some ops ∧ (c.printer x y fgColor bgColor).place.FitsAll ops := by
  rw [cgaTextPrint]
  simp only [printLoop_eq, Option.map_map]
  constructor
  · rintro ⟨c', ws, hrun, hws, hscreen⟩
    obtain ⟨ops, hops, rfl⟩ := Option.map_eq_some_iff.1 hrun
    obtain ⟨ws', hws', hfits⟩ := writes_ops c ops (c.printer x y fgColor bgColor)
    refine ⟨ops, hops, hfits.1 ?_⟩
    have hsame : ws' = ws := List.append_cancel_right (hws'.symm.trans hws)
    rw [hsame]
    exact hscreen
  · rintro ⟨ops, hops, hfits⟩
    obtain ⟨ws, hws, hscreen⟩ := writes_ops c ops (c.printer x y fgColor bgColor)
    exact ⟨_, ws, by rw [hops]; rfl, hws, hscreen.2 hfits⟩

theorem cursor_cgaTextPrint {text : CString} {c' : CgaText}
    (h : cgaTextPrint c x y fgColor bgColor (some text) = some c') :
    c'.cursorX < cgaTextWidth ∧ c'.cursorY < cgaTextHeight := by
  obtain ⟨p, -, rfl⟩ := Option.map_eq_some_iff.1 h
  exact cursor_printEnd c p

/-- **The text console.**  From every cursor and with every text, that is so exactly if no escape
sequence runs into the end of the text, and each character, tab, erased line and cleared row lies
in the framebuffer at the place that the text has led to. -/
theorem staysOnScreen_iff (c : CgaText) (x y : ℤ) (fgColor bgColor : BitVec 32) (text : CString) :
    StaysOnScreen c x y fgColor bgColor text ↔
      ∃ ops, textOps text.bytes = some ops ∧
        (c.printer x y fgColor bgColor).place.FitsAll ops := by
  rw [← writesScreen_iff]
  constructor
  · rintro ⟨c', ws, hrun, hws, hscreen, -⟩
    exact ⟨c', ws, hrun, hws, hscreen⟩
  · rintro ⟨c', ws, hrun, hws, hscreen⟩
    exact ⟨c', ws, hrun, hws, hscreen, cursor_cgaTextPrint hrun⟩

/-- "erase current line", as `cli_process_input` prints it. -/
def eraseLineText : CString := ⟨[0x1b, 0x5b, 0x32, 0x4b], by decide⟩

/-- Behind the sequence that erases the line another byte is passed over, and this is the zero
byte. -/
theorem not_staysOnScreen_eraseLine :
    ¬ StaysOnScreen ⟨⟨fun _ => 0, []⟩, 0, 0⟩ (-1) (-1) 15 0 eraseLineText := by
  rintro ⟨c', ws, hrun, hws, hscreen, -⟩
  obtain ⟨ops, hops, -⟩ := writesScreen_iff.1 ⟨c', ws, hrun, hws, hscreen⟩
  have hnone : textOps eraseLineText.bytes = none := textOps_of_none (by decide)
  rw [hnone] at hops
  cases hops

end Karnix.Video
