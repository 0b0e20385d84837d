import Karnix.Video.ScanTiming
import Mathlib.Tactic.Ring

/-!
# The picture on the screen

With the timing of a generic monitor scan-out shows the picture in the framebuffer.  The constants
that align it, 16 lines and 32 pixels, are those of that format alone; and after the last cell
of a line the text mode reads one more.
-/

namespace Karnix.Video

open Karnix.Library

/-! ## Section 1: Pixels and clocks -/

section Pixel

variable {r : CgaRegs} {m : CgaMem} {s : DviState} {hbp htotal vbp vtotal : ℕ}
  {k x y : ℕ} (ht : r.Timed hbp htotal vbp vtotal)

include ht

/-- Where the counters are at a pixel. -/
theorem pixelClock_digits (hx : x < 640) (hy : y < 480) :
    r.pixelClock k x y % htotal = hbp + x ∧
      r.pixelClock k x y / htotal = k * vtotal + (vbp + y) ∧
      r.pixelClock k x y / htotal % vtotal = vbp + y := by
  have htotal' := ht.total
  have hdigits : r.pixelClock k x y / htotal = k * vtotal + (vbp + y) ∧
      r.pixelClock k x y % htotal = hbp + x := by
    refine (Nat.div_mod_unique (by omega)).2 ⟨?_, by omega⟩
    rw [CgaRegs.pixelClock, ht.width, ht.height, ht.top, ht.left, Nat.mul_comm htotal,
      Nat.add_comm]
  refine ⟨hdigits.2, hdigits.1, ?_⟩
  rw [hdigits.1, Nat.mul_comm, Nat.mul_add_mod]
  exact Nat.mod_eq_of_lt (by omega)

variable (hX : s.counterX = 0) (hY : s.counterY = 0)

include hX hY

/-- The frame counter has gone on at the beginning of each frame. -/
theorem counterF_pixel (hx : x < 640) (hy : y < 480) :
    (s.scan r m (r.pixelClock k x y)).counterF =
      s.counterF + BitVec.ofNat 7 (k + 1) := by
  have hporch := ht.porch
  have htotal' := ht.total
  obtain ⟨hmod, hdiv, hline⟩ := pixelClock_digits (k := k) ht hx hy
  have hn := Nat.mod_add_div (r.pixelClock k x y) htotal
  have hframes : (r.pixelClock k x y + htotal * vtotal - 1) / (htotal * vtotal) =
      k + 1 := by
    have hpos : 0 < htotal * vtotal := Nat.mul_pos (by omega) (by omega)
    -- the place in the frame, which is not its first clock
    have hplace : r.pixelClock k x y =
        htotal * vtotal * k + (htotal * (vbp + y) + (hbp + x)) := by
      rw [hmod, hdiv] at hn
      rw [← hn]
      ring
    have hinside : htotal * (vbp + y) + (hbp + x) < htotal * vtotal := by
      calc htotal * (vbp + y) + (hbp + x) < htotal * (vbp + y) + htotal := by omega
        _ = htotal * (vbp + y + 1) := by ring
        _ ≤ htotal * vtotal := Nat.mul_le_mul_left _ (by omega)
    refine ((Nat.div_mod_unique (c := htotal * (vbp + y) + (hbp + x) - 1) hpos).2
      ⟨?_, by omega⟩).1
    rw [hplace, Nat.mul_succ]
    omega
  have hcount := DviState.scan_counterF (m := m) hX hY (r := r)
    (by rw [ht.width]; omega) (by rw [ht.height]; omega) (r.pixelClock k x y)
  rwa [ht.width, ht.height, hframes] at hcount

/-- The picture is active at its pixels. -/
theorem de_pixel (hx : x < 640) (hy : y < 480) :
    (s.scan r m (r.pixelClock k x y)).de r = true := by
  obtain ⟨hmod, -, hline⟩ := pixelClock_digits (k := k) ht hx hy
  simp only [DviState.de, Bool.and_eq_true, decide_eq_true_eq, BitVec.le_def, BitVec.lt_def,
    ht.left, ht.right, ht.top, ht.bottom, DviState.counterX_eq ht hX hY,
    DviState.counterY_eq ht hX hY, hmod, hline]
  omega

end Pixel

/-! ## Section 2: Text -/

theorem textLine_add (dir : Bool) (scroll : BitVec 10) (a y : ℕ) :
    textLine dir scroll (a + y) = textLine dir scroll y + a := by
  unfold textLine
  split <;> push_cast <;> ring

/-- The shown line, modulo the range of the counter. -/
theorem toNat_scrolled (r : CgaRegs) (c : BitVec 16) :
    ((r.scrolled c).toNat : ℤ) = textLine r.scrollVDir r.scrollV c.toNat % 65536 := by
  have hs := r.scrollV.isLt
  have hc := c.isLt
  have hwide : (r.scrollV.setWidth 16).toNat = r.scrollV.toNat := by
    rw [BitVec.toNat_setWidth]
    exact Nat.mod_eq_of_lt (Nat.lt_trans hs (by decide))
  unfold CgaRegs.scrolled textLine
  split
  · rw [BitVec.toNat_sub, hwide]
    omega
  · rw [BitVec.toNat_add, hwide]
    omega

/-- Without a scroll the counter is shown. -/
theorem scrolled_zero {r : CgaRegs} (h : r.scrollV = 0) (c : BitVec 16) : r.scrolled c = c := by
  rw [CgaRegs.scrolled, h]
  split
  · exact BitVec.sub_zero c
  · exact BitVec.add_zero c

section Text

variable {r : CgaRegs} {c : BitVec 16} {y : ℕ} (hc : c.toNat = 16 + y)

include hc

/-- The row of the cells that a line shows. -/
theorem row_scrolled : ((r.scrolled c).toNat + 65520) % 65536 / 16 % 64 =
    (textLine r.scrollVDir r.scrollV y / 16 % 64).toNat := by
  have hshown := toNat_scrolled r c
  rw [hc, textLine_add] at hshown
  omega

/-- The row of the glyphs that a line shows. -/
theorem glyphRow_scrolled :
    (r.scrolled c).toNat % 16 = (textLine r.scrollVDir r.scrollV y % 16).toNat := by
  have hshown := toNat_scrolled r c
  rw [hc, textLine_add] at hshown
  omega

end Text

theorem and_twoPow_ne_zero (d : BitVec 8) {i : ℕ} (hi : i < 8) :
    d &&& BitVec.twoPow 8 i ≠ 0 ↔ d.getLsbD i = true := by
  rw [BitVec.and_twoPow]
  split
  · rename_i hbit
    refine iff_of_true (fun hzero => ?_) hbit
    have := congrArg (fun b => BitVec.getLsbD b i) hzero
    simp [hi] at this
  · rename_i hbit
    exact iff_of_false (fun h => h rfl) hbit

/-- The index of a glyph row in the character generator. -/
theorem toNat_glyph (a : BitVec 8) (b : BitVec 4) : (a ++ b).toNat = a.toNat * 16 + b.toNat := by
  rw [BitVec.toNat_append, ← Nat.shiftLeft_add_eq_or_of_lt b.isLt, Nat.shiftLeft_eq]

/-- The two bits of a pixel of the graphics. -/
theorem pixel_of_word (w : BitVec 32) {k : ℕ} (hk : k < 16) :
    (w <<< (k * 2)).extractLsb 31 30 = w.extractLsb' (30 - 2 * k) 2 := by
  apply BitVec.eq_of_getLsbD_eq
  intro i hi
  simp only [BitVec.extractLsb, BitVec.getLsbD_extractLsb', BitVec.getLsbD_shiftLeft]
  have hin : 30 + i < 32 := by omega
  have hge : ¬ 30 + i < k * 2 := by omega
  have hplace : 30 + i - k * 2 = 30 - 2 * k + i := by omega
  simp [hin, hge, hplace]

section Pixel

variable {r : CgaRegs} {m : CgaMem} {s : DviState} {k x y : ℕ}
  (ht : r.Timed 32 800 16 525) (hX : s.counterX = 0) (hY : s.counterY = 0)

include ht hX hY

/-- **Text.**  With the timing of a generic monitor a pixel has the colour of its place in the
text. -/
theorem text_pixel (hmode : r.videoMode = 0) (hx : x < 640) (hy : y < 480) :
    (s.scan r m (r.pixelClock k x y)).textColor r m =
      textPixel r m (s.counterF + BitVec.ofNat 7 (k + 1)) r.scrollVDir r.scrollV x y := by
  obtain ⟨hmod, -, hline⟩ := pixelClock_digits (k := k) ht hx hy
  have hF := counterF_pixel (m := m) (k := k) ht hX hY hx hy
  generalize r.pixelClock k x y = n at *
  have hcX := DviState.counterX_eq (m := m) ht hX hY n
  have hcY := DviState.counterY_eq (m := m) ht hX hY n
  have hword := DviState.text_word (m := m) ht hX hY hmode (n := n) (by omega) (by omega)
    (by omega)
  have hmask := DviState.text_charMask (m := m) ht hX hY hmode (n := n) (by omega)
  have hshown := DviState.shownLine_eq (m := m) ht hX hY (n := n) (by omega)
  rw [hmod] at hcX hword hmask
  rw [hline] at hcY
  have hphase : (32 + x) % 8 = x % 8 := by omega
  rw [row_scrolled hcY, Nat.add_sub_cancel_left] at hword
  rw [hphase] at hmask
  have hcharRow : (s.scan r m n).charRow.toNat =
      (textLine r.scrollVDir r.scrollV y % 16).toNat := by
    rw [← glyphRow_scrolled hcY, DviState.charRow, hshown, BitVec.extractLsb_toNat]
    rfl
  have hcolumn : (((s.scan r m n).counterX - r.horizBackPorch).extractLsb 9 3).toNat = x / 8 := by
    have hsub := BitVec.toNat_sub_of_le (x := (s.scan r m n).counterX) (y := r.horizBackPorch)
      (by rw [BitVec.le_def, ht.left, hcX]; omega)
    rw [BitVec.extractLsb_toNat, hsub, ht.left, hcX, Nat.shiftRight_eq_div_pow]
    omega
  have hrow : (((s.scan r m n).counterY_ - r.vertBackPorch).extractLsb 9 4).toNat =
      (textLine r.scrollVDir r.scrollV y / 16 % 64).toNat := by
    have hporch : r.vertBackPorch = 16 := BitVec.eq_of_toNat_eq ht.top
    rw [← row_scrolled hcY, BitVec.extractLsb_toNat, hshown, hporch, DviState.toNat_sub_sixteen,
      Nat.shiftRight_eq_div_pow]
  have hcursor : (((s.scan r m n).counterX - r.horizBackPorch).extractLsb 9 3 = r.cursorX ∧
      ((s.scan r m n).counterY_ - r.vertBackPorch).extractLsb 9 4 = r.cursorY ∧
        (s.scan r m n).blinkFlag r) ↔
      CursorShown r (s.counterF + BitVec.ofNat 7 (k + 1)) (x / 8)
        (textLine r.scrollVDir r.scrollV y / 16 % 64).toNat
        (textLine r.scrollVDir r.scrollV y % 16).toNat := by
    simp only [CursorShown, DviState.blinkFlag, ← BitVec.toNat_inj, hcolumn, hrow, hF,
      Bool.and_eq_true, decide_eq_true_eq, BitVec.le_def, hcharRow, and_assoc]
  have hbit : (s.scan r m n).charData m &&& (s.scan r m n).charMask ≠ 0 ↔
      (m.chargen (((s.scan r m n).word.extractLsb 7 0).toNat * 16 +
        (textLine r.scrollVDir r.scrollV y % 16).toNat)).getLsbD (7 - x % 8) = true := by
    rw [hmask, and_twoPow_ne_zero _ (by omega), DviState.charData, toNat_glyph, hcharRow]
  rw [DviState.textColor, textPixel]
  simp only [hcursor, hbit]
  rw [hword]

/-- **Graphics.**  With the timing of a generic monitor a pixel has the colour of its place in
the picture. -/
theorem graphics_pixel (hmode : r.videoMode = 1) (hscroll : r.scrollV = 0) (hx : x < 640)
    (hy : y < 480) :
    (s.scan r m (r.pixelClock k x y)).graphicsColor = graphicsPixel m x y := by
  obtain ⟨hmod, -, hline⟩ := pixelClock_digits (k := k) ht hx hy
  generalize r.pixelClock k x y = n at *
  have hcX := DviState.counterX_eq (m := m) ht hX hY n
  have hcY := DviState.counterY_eq (m := m) ht hX hY n
  rw [hmod] at hcX
  rw [hline] at hcY
  have hshown : (r.scrolled (s.scan r m n).counterY).toNat = 16 + y := by
    rw [scrolled_zero hscroll, hcY]
  have hword := DviState.graphics_word (m := m) ht hX hY hmode (n := n) (by omega) (by omega)
    (by omega)
  have haddress : ((16 + y + 65520) % 65536 / 2 % 512 * 20 + ((32 + x) / 32 - 1) % 32) % 8192 =
      y / 2 * 20 + x / 32 := by
    have hrow : (16 + y + 65520) % 65536 / 2 % 512 = y / 2 := by omega
    have hblock : ((32 + x) / 32 - 1) % 32 = x / 32 := by omega
    rw [hrow, hblock]
    omega
  rw [hshown, hmod, haddress] at hword
  have hplace : ((s.scan r m n).counterX.extractLsb 4 1).toNat = x / 2 % 16 := by
    rw [BitVec.extractLsb_toNat, hcX, Nat.shiftRight_eq_div_pow]
    omega
  rw [DviState.graphicsColor, graphicsPixel, hplace, hword,
    pixel_of_word _ (Nat.mod_lt _ (by decide))]

end Pixel

/-! ## Section 4: Addresses -/

section Reads

variable {r : CgaRegs} {m : CgaMem} {s : DviState} (ht : r.Timed 32 800 16 525)
  (hX : s.counterX = 0) (hY : s.counterY = 0)

include ht hX hY

/-- What a clock of the text reads. -/
theorem text_read (hmode : r.videoMode = 0) {n : ℕ}
    (hload : (s.scan r m n).wordLoad r = true) :
    24 ≤ n % 800 ∧ n % 800 < 672 ∧ n / 800 % 525 < 512 ∧
      ((s.scan r m n).wordAddress r).toNat =
        ((r.scrolled (s.scan r m n).counterY).toNat + 65520) % 65536 / 16 % 64 * 80 +
          (n % 800 - 24) / 8 % 128 := by
  have hcX := DviState.counterX_eq (m := m) ht hX hY n
  rw [DviState.wordLoad, if_pos hmode, DviState.textLoad_iff ht, hcX,
    DviState.counterY_eq ht hX hY] at hload
  obtain ⟨hleft, hright, hline, hphase⟩ := hload
  refine ⟨hleft, hright, hline, ?_⟩
  rw [DviState.wordAddress, if_pos hmode, DviState.toNat_textAddress ht (by rw [hcX]; exact hleft),
    hcX, DviState.shownLine_eq ht hX hY (by omega)]

/-- No text is read beyond the framebuffer. -/
theorem text_inside (hmode : r.videoMode = 0)
    (hsafe : (Picture.text r.scrollVDir r.scrollV).AvoidsLastRow) {n : ℕ}
    (hload : (s.scan r m n).wordLoad r = true) :
    ((s.scan r m n).wordAddress r).toNat < fbWords := by
  obtain ⟨hleft, hright, hline, haddress⟩ := text_read ht hX hY hmode hload
  have hshown := toNat_scrolled r (s.scan r m n).counterY
  rw [DviState.counterY_eq ht hX hY] at hshown
  have hrow : ((r.scrolled (s.scan r m n).counterY).toNat + 65520) % 65536 / 16 % 64 < 63 := by
    simp only [Picture.AvoidsLastRow] at hsafe
    unfold textLine at hshown
    by_cases hdir : r.scrollVDir = true
    · rw [if_pos hdir] at hshown hsafe
      omega
    · rw [if_neg hdir] at hshown hsafe
      omega
  rw [haddress, fbWords]
  omega

/-- Otherwise the cell after the last one of the framebuffer is read in some line. -/
theorem text_outside (hmode : r.videoMode = 0)
    (hlast : ¬ (Picture.text r.scrollVDir r.scrollV).AvoidsLastRow) :
    ∃ n, (s.scan r m n).wordLoad r = true ∧
      ((s.scan r m n).wordAddress r).toNat = fbWords := by
  have hs := r.scrollV.isLt
  -- a line in the last row
  obtain ⟨y, hy, hlast⟩ : ∃ y : ℕ, y < 512 ∧
      (textLine r.scrollVDir r.scrollV y - 16) / 16 % 64 = 63 := by
    simp only [Picture.AvoidsLastRow] at hlast
    unfold textLine
    by_cases hdir : r.scrollVDir = true
    · simp only [if_pos hdir] at hlast ⊢
      rcases Nat.lt_or_ge r.scrollV.toNat 512 with hlt | hge
      · exact ⟨r.scrollV.toNat, hlt, by omega⟩
      · exact ⟨0, by decide, by omega⟩
    · simp only [if_neg hdir] at hlast ⊢
      rcases Nat.lt_or_ge r.scrollV.toNat 16 with hlt | hge
      · exact ⟨0, by decide, by omega⟩
      · exact ⟨1024 - r.scrollV.toNat, by omega, by omega⟩
  have hmod : (y * 800 + 670) % 800 = 670 := by omega
  have hdiv : (y * 800 + 670) / 800 % 525 = y := by omega
  have hload : (s.scan r m (y * 800 + 670)).wordLoad r = true := by
    rw [DviState.wordLoad, if_pos hmode, DviState.textLoad_iff ht, DviState.counterX_eq ht hX hY,
      DviState.counterY_eq ht hX hY, hmod, hdiv]
    omega
  refine ⟨_, hload, ?_⟩
  obtain ⟨-, -, -, haddress⟩ := text_read ht hX hY hmode hload
  have hshown := toNat_scrolled r (s.scan r m (y * 800 + 670)).counterY
  rw [DviState.counterY_eq ht hX hY, hdiv] at hshown
  rw [haddress, hmod, fbWords]
  omega

omit hX hY in
/-- No graphics are read beyond the framebuffer: above the picture the row is cut to the range of
the address. -/
theorem graphics_inside (hmode : r.videoMode = 1) {n : ℕ}
    (hload : (s.scan r m n).wordLoad r = true) :
    ((s.scan r m n).wordAddress r).toNat < fbWords := by
  have hne : r.videoMode ≠ 0 := by rw [hmode]; decide
  rw [DviState.wordLoad, if_neg hne, if_pos hmode, DviState.graphicsLoad_iff ht] at hload
  rw [DviState.wordAddress, if_neg hne, if_pos hmode, DviState.toNat_graphicsAddress, fbWords]
  obtain ⟨hright, hline, -⟩ := hload
  have hblock : (s.scan r m n).counterX.toNat / 32 % 32 ≤ 20 := by omega
  have hrow : ((s.scan r m n).counterY_.toNat + 65520) % 65536 / 2 % 512 < 240 ∨
      504 ≤ ((s.scan r m n).counterY_.toNat + 65520) % 65536 / 2 % 512 := by omega
  have hlt : ((s.scan r m n).counterY_.toNat + 65520) % 65536 / 2 % 512 < 512 :=
    Nat.mod_lt _ (by decide)
  generalize (s.scan r m n).counterX.toNat / 32 % 32 = block at *
  generalize ((s.scan r m n).counterY_.toNat + 65520) % 65536 / 2 % 512 = row at *
  have hsum : row * 20 + block < 5120 ∨ 8192 ≤ row * 20 + block ∧ row * 20 + block < 13312 := by
    omega
  generalize row * 20 + block = sum at *
  omega

end Reads

/-! ## Section 5: The formats -/

theorem showsPixels_generic (p : Picture) : ShowsPixels (cgaVideoFormats 0) p := by
  intro ctrl ctrl2 m s hsel hblank hX hY frame x y hx hy
  have ht := timed_generic ctrl ctrl2
  generalize (cgaVideoFormats 0).regs ctrl ctrl2 = r at *
  have hde := de_pixel (m := m) (k := frame) ht hX hY hx hy
  refine ⟨hde, ?_⟩
  cases p with
  | text dir scroll =>
    obtain ⟨hmode, rfl, rfl⟩ := hsel
    have hpixel := text_pixel (m := m) (k := frame) ht hX hY hmode hx hy
    simp only [DviState.out, DviState.rgb, if_pos hmode, hde, hblank, Bool.not_false,
      Bool.and_true, if_true, hpixel, Picture.pixel]
  | graphics =>
    obtain ⟨hmode, hscroll⟩ := hsel
    have hne : r.videoMode ≠ 0 := by rw [hmode]; decide
    have hpixel := graphics_pixel (m := m) (k := frame) ht hX hY hmode hscroll hx hy
    simp only [DviState.out, DviState.rgb, if_neg hne, if_pos hmode, hde, hblank, Bool.not_false,
      Bool.and_true, if_true, hpixel, Picture.pixel]

theorem readsInside_generic {p : Picture} (hsafe : p.AvoidsLastRow) :
    ReadsInside (cgaVideoFormats 0) p := by
  intro ctrl ctrl2 m s hsel _ hX hY n hload
  have ht := timed_generic ctrl ctrl2
  cases p with
  | text dir scroll =>
    obtain ⟨hmode, rfl, rfl⟩ := hsel
    exact text_inside ht hX hY hmode hsafe hload
  | graphics => exact graphics_inside ht hsel.1 hload

/-- The registers in the beginning, with the counters at the first clock of a frame. -/
def DviState.zero : DviState := ⟨0, 0, 0, 0, 0, 0, 0⟩

/-- A control word for a picture. -/
def Picture.ctrl : Picture → BitVec 32
  | text dir scroll => BitVec.ofNat 32 (dir.toNat * 1024 + scroll.toNat)
  | graphics => 0x01000000

theorem Picture.selected_ctrl (f : CgaVideoFormat) (p : Picture) (ctrl2 : BitVec 32) :
    p.Selected (f.regs p.ctrl ctrl2) ∧ (f.regs p.ctrl ctrl2).blankingEnabled = false := by
  cases p with
  | text dir scroll =>
    have hs := scroll.isLt
    have hd := Bool.toNat_lt dir
    have hword : (Picture.text dir scroll).ctrl.toNat = dir.toNat * 1024 + scroll.toNat := by
      rw [Picture.ctrl, BitVec.toNat_ofNat]
      omega
    have hbit : ∀ i, (Picture.text dir scroll).ctrl.getLsbD i =
        decide ((dir.toNat * 1024 + scroll.toNat) / 2 ^ i % 2 = 1) := by
      intro i
      rw [BitVec.getLsbD, Nat.testBit_eq_decide_div_mod_eq, hword]
    refine ⟨⟨?_, ?_, ?_⟩, ?_⟩
    · apply BitVec.eq_of_toNat_eq
      rw [CgaRegs.videoMode, BitVec.extractLsb_toNat]
      show (Picture.text dir scroll).ctrl.toNat >>> 24 % 4 = 0
      rw [hword, Nat.shiftRight_eq_div_pow]
      omega
    · refine (hbit 10).trans ?_
      have hplace : (dir.toNat * 1024 + scroll.toNat) / 2 ^ 10 % 2 = dir.toNat := by omega
      rw [hplace]
      cases dir <;> rfl
    · apply BitVec.eq_of_toNat_eq
      rw [CgaRegs.scrollV, BitVec.extractLsb_toNat]
      show (Picture.text dir scroll).ctrl.toNat >>> 0 % 1024 = _
      rw [hword, Nat.shiftRight_zero]
      omega
    · refine (hbit 30).trans (decide_eq_false ?_)
      omega
  | graphics =>
    have hmode : (0x01000000 : BitVec 32).extractLsb 25 24 = 1 := by decide
    have hscroll : (0x01000000 : BitVec 32).extractLsb 9 0 = 0 := by decide
    have hblank : (0x01000000 : BitVec 32).getLsbD 30 = false := by decide
    exact ⟨⟨hmode, hscroll⟩, hblank⟩

theorem readsInside_generic_iff (p : Picture) :
    ReadsInside (cgaVideoFormats 0) p ↔ p.AvoidsLastRow := by
  refine ⟨fun h => ?_, readsInside_generic⟩
  obtain ⟨hsel, hblank⟩ := p.selected_ctrl (cgaVideoFormats 0) 0
  have hread := h p.ctrl 0 ⟨fun _ => 0, fun _ => 0, fun _ => 0⟩ .zero hsel hblank rfl rfl
  cases p with
  | text dir scroll =>
    obtain ⟨hmode, hdir, hscroll⟩ := hsel
    by_contra hlast
    obtain ⟨n, hload, haddress⟩ :=
      text_outside (s := .zero) (timed_generic _ _) rfl rfl hmode
        (by rw [hdir, hscroll]; exact hlast)
    exact absurd (hread n hload) (Nat.not_lt.2 (Nat.le_of_eq haddress.symm))
  | graphics => exact trivial

/-- A framebuffer with one colour on one row of every glyph, or in one word. -/
def probeMem : Picture → CgaMem
  | .text dir scroll =>
    { fb := fun _ => 0x100
      chargen := fun a => if a = (textLine dir scroll 0 % 16).toNat then 0xff else 0
      palette := fun c => if c = 0 then 0 else 0xffffff }
  | .graphics =>
    { fb := fun a => if a = 0 then 0xffffffff else 0
      chargen := fun _ => 0
      palette := fun c => if c = 0 then 0 else 0xffffff }

theorem not_cursorShown {r : CgaRegs} (h : r.cursorBlinkEnabled = false) (frame : BitVec 7)
    (column row glyphRow : ℕ) : ¬ CursorShown r frame column row glyphRow := by
  intro hshown
  have hon := hshown.2.2.2.1
  rw [h] at hon
  exact Bool.noConfusion hon

/-- The first pixel of the probe in the picture. -/
theorem palette_probe {r : CgaRegs} (hcursor : r.cursorBlinkEnabled = false) (frame : BitVec 7)
    (p : Picture) : (probeMem p).palette (p.pixel r (probeMem p) frame 0 0) = 0xffffff := by
  cases p with
  | text dir scroll =>
    have hchar : ((0x100 : BitVec 32).extractLsb 7 0).toNat = 0 := by decide
    have hpixel : textPixel r (probeMem (.text dir scroll)) frame dir scroll 0 0 = 1 := by
      simp only [textPixel, if_neg (not_cursorShown hcursor frame _ _ _), probeMem, hchar,
        Nat.zero_mul, Nat.zero_add, if_true]
      decide
    exact congrArg (probeMem (.text dir scroll)).palette hpixel
  | graphics =>
    have hpixel : graphicsPixel (probeMem .graphics) 0 0 = 3 := by decide
    exact congrArg (probeMem .graphics).palette hpixel

section Addi

variable {r : CgaRegs} {s : DviState} (ht : r.Timed 40 1152 13 635) (hX : s.counterX = 0)
  (hY : s.counterY = 0)

include ht hX hY

/-- The row of the glyphs lags by three lines. -/
theorem textColor_probe (hmode : r.videoMode = 0) (hcursor : r.cursorBlinkEnabled = false) :
    (s.scan r (probeMem (.text r.scrollVDir r.scrollV)) (r.pixelClock 0 0 0)).textColor r
      (probeMem (.text r.scrollVDir r.scrollV)) = 0 := by
  obtain ⟨hmod, -, hline⟩ := pixelClock_digits (k := 0) (x := 0) (y := 0) ht (by decide)
    (by decide)
  generalize r.pixelClock 0 0 0 = n at *
  generalize hm : probeMem (.text r.scrollVDir r.scrollV) = m at *
  have hcY := DviState.counterY_eq (m := m) ht hX hY n
  have hword := DviState.text_word (m := m) ht hX hY hmode (n := n) (by omega) (by omega)
    (by omega)
  have hshown := toNat_scrolled r (s.scan r m n).counterY
  have hcell : (s.scan r m n).word = 0x100 := by rw [hword, ← hm]; rfl
  rw [hcY, hline, textLine_add] at hshown
  have hrow : (s.scan r m n).charRow.toNat ≠ (textLine r.scrollVDir r.scrollV 0 % 16).toNat := by
    rw [DviState.charRow, DviState.shownLine_eq ht hX hY (by omega), BitVec.extractLsb_toNat,
      Nat.shiftRight_zero]
    show _ % 16 ≠ _
    omega
  have hdata : (s.scan r m n).charData m = 0 := by
    have hchar : ((0x100 : BitVec 32).extractLsb 7 0).toNat = 0 := by decide
    rw [DviState.charData, toNat_glyph, hcell, hchar, Nat.zero_mul, Nat.zero_add, ← hm]
    exact if_neg (by rw [hm]; exact hrow)
  have hblink : (s.scan r m n).blinkFlag r = false := by
    rw [DviState.blinkFlag, hcursor, Bool.and_false, Bool.false_and, Bool.false_and]
  rw [DviState.textColor, hdata, hblink, hcell, if_neg (by simp), if_neg (by simp)]
  decide

/-- The first words are those of another row. -/
theorem graphicsColor_probe (hmode : r.videoMode = 1) (hscroll : r.scrollV = 0) :
    (s.scan r (probeMem .graphics) (r.pixelClock 0 0 0)).graphicsColor = 0 := by
  obtain ⟨hmod, -, hline⟩ := pixelClock_digits (k := 0) (x := 0) (y := 0) ht (by decide)
    (by decide)
  generalize r.pixelClock 0 0 0 = n at *
  have hcY := DviState.counterY_eq (m := probeMem .graphics) ht hX hY n
  have hshown : (r.scrolled (s.scan r (probeMem .graphics) n).counterY).toNat = 13 := by
    rw [scrolled_zero hscroll, hcY, hline]
  have hword := DviState.graphics_word (m := probeMem .graphics) ht hX hY hmode (n := n)
    (by omega) (by omega) (by omega)
  rw [hshown, hmod] at hword
  have hzero : (s.scan r (probeMem .graphics) n).word = 0#32 := hword.trans (by decide)
  rw [DviState.graphicsColor, hzero, BitVec.zero_shiftLeft]
  decide

end Addi

/-- The first pixel of the probe has another colour on the screen. -/
theorem not_showsPixels_addi (p : Picture) : ¬ ShowsPixels (cgaVideoFormats 1) p := by
  intro h
  obtain ⟨hsel, hblank⟩ := p.selected_ctrl (cgaVideoFormats 1) 0
  obtain ⟨hde, hrgb⟩ := h p.ctrl 0 (probeMem p) .zero hsel hblank rfl rfl 0 0 0 (by decide)
    (by decide)
  have ht := timed_addi p.ctrl 0
  have hcursor : ((cgaVideoFormats 1).regs p.ctrl 0).cursorBlinkEnabled = false := by
    show (0 : BitVec 32).getLsbD 27 = false
    decide
  rw [palette_probe hcursor] at hrgb
  generalize (cgaVideoFormats 1).regs p.ctrl 0 = r at *
  have hne : Rgb.ofPalette 0 ≠ Rgb.ofPalette 0xffffff := by decide
  refine hne (Eq.trans (Eq.symm ?_) hrgb)
  cases p with
  | text dir scroll =>
    obtain ⟨hmode, rfl, rfl⟩ := hsel
    simp only [DviState.out] at hde
    simp only [DviState.out, DviState.rgb, if_pos hmode, hde, hblank, Bool.not_false,
      Bool.and_true, if_true, textColor_probe ht (s := .zero) rfl rfl hmode hcursor]
    rfl
  | graphics =>
    obtain ⟨hmode, hscroll⟩ := hsel
    have hne : r.videoMode ≠ 0 := by rw [hmode]; decide
    simp only [DviState.out] at hde
    simp only [DviState.out, DviState.rgb, if_neg hne, if_pos hmode, hde, hblank, Bool.not_false,
      Bool.and_true, if_true, graphicsColor_probe ht (s := .zero) rfl rfl hmode hscroll]
    rfl

/-- **The screen.**  It shows the framebuffer exactly with the timing of a generic monitor, and in
text mode with a scroll that keeps off the last row. -/
theorem showsFramebuffer_iff (f : Fin 2) (p : Picture) :
    ShowsFramebuffer (cgaVideoFormats f) p ↔ f = 0 ∧ p.AvoidsLastRow := by
  rcases Fin.exists_fin_two.1 ⟨f, rfl⟩ with rfl | rfl
  · constructor
    · rintro ⟨-, hreads⟩
      exact ⟨rfl, (readsInside_generic_iff p).1 hreads⟩
    · rintro ⟨-, hsafe⟩
      exact ⟨showsPixels_generic p, readsInside_generic hsafe⟩
  · constructor
    · rintro ⟨hpixels, -⟩
      exact absurd hpixels (not_showsPixels_addi p)
    · rintro ⟨hf, -⟩
      exact absurd hf (by decide)

/-- Text without a scroll on the Addi display. -/
theorem not_showsFramebuffer_addi :
    ¬ ShowsFramebuffer (cgaVideoFormats 1) (.text false 0) :=
  fun h => not_showsPixels_addi _ h.1

end Karnix.Video
