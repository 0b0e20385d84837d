import Karnix.Library.DigitalLine
import Karnix.Video.GlyphPixels
import Mathlib.Algebra.Order.Ring.Abs

/-!
# Drawing lines

`cga_draw_pixel` and `cga_draw_line` of `cga.c`.  All arithmetic is that of `int`, so numbers are
machine words; what is larger wraps.

The loop of `cga_draw_line` ends when it stands on the end point.  Where nothing wraps it goes the
steps of the digital line with the same sides, so it arrives there after as many passes as the
longer side has pixels.  The number that grows most is the doubled error.
-/

namespace Karnix.Video.Drawing

open Karnix.Library

/-! ## Section 1: The functions -/

/-- `CGA_VIDEO_WIDTH`, `CGA_VIDEO_HEIGHT` and `CGA_FRAMEBUFFER_SIZE` -/
def cgaVideoWidth : ℕ := 320
def cgaVideoHeight : ℕ := 240
def cgaFramebufferSize : ℕ := cgaVideoWidth * cgaVideoHeight * 2 / 8

/-- The index of a pixel in `cga_draw_pixel` -/
def pixelIdx (x y : BitVec 32) : BitVec 32 := y * BitVec.ofNat 32 cgaVideoWidth + x

/-- The index of its word. -/
def wordIdx (x y : BitVec 32) : BitVec 32 := (pixelIdx x y).sshiftRight 4

/-- `cga_draw_pixel`: two bits of a word, if its index passes the test. -/
def cgaDrawPixel (color : BitVec 32) (fb : Memory Byte) (x y : BitVec 32) : Memory Byte :=
  if (wordIdx x y).slt 0 ∨ (BitVec.ofNat 32 (cgaFramebufferSize / 4)).slt (wordIdx x y) then fb
  else
    let pixelOffset := (15 - (pixelIdx x y &&& 0xf)) <<< 1
    let pixelMask := 0x03#32 <<< pixelOffset
    let pixelWord := readWord fb (4 * (wordIdx x y).toNat)
    let pixelWord := pixelWord &&& ~~~pixelMask
    let pixelWord := pixelWord ||| (color &&& 0x03) <<< pixelOffset
    writeWord fb (4 * (wordIdx x y).toNat) pixelWord

/-- `ABS`, which leaves the least of all numbers negative. -/
def abs (a : BitVec 32) : BitVec 32 := if (0#32).slt a then a else -1 * a

/-- The end points of a line. -/
structure Line where
  x0 : BitVec 32
  y0 : BitVec 32
  x1 : BitVec 32
  y1 : BitVec 32

/-- The variables of the loop. -/
structure Pen where
  x : BitVec 32
  y : BitVec 32
  err : BitVec 32

namespace Line

variable (l : Line)

def dx : BitVec 32 := abs (l.x1 - l.x0)
def dy : BitVec 32 := -abs (l.y1 - l.y0)
def sx : BitVec 32 := if l.x0.slt l.x1 then 1 else -1
def sy : BitVec 32 := if l.y0.slt l.y1 then 1 else -1

def start : Pen := ⟨l.x0, l.y0, l.dx + l.dy⟩

/-- The loop ends here. -/
def AtEnd (p : Pen) : Prop := p.x = l.x1 ∧ p.y = l.y1

instance (p : Pen) : Decidable (l.AtEnd p) := inferInstanceAs (Decidable (_ ∧ _))

/-- The first of the two steps, to the side. -/
def stepX (p : Pen) : Pen :=
  if l.dy.sle (2 * p.err) then { p with err := p.err + l.dy, x := p.x + l.sx } else p

/-- The rest of a pass after the end has been looked for. -/
def next (p : Pen) : Pen :=
  let e2 := 2 * p.err
  let p := l.stepX p
  if e2.sle l.dx then { p with err := p.err + l.dx, y := p.y + l.sy } else p

/-- `n` passes of the loop, and whether it has ended; `draw` is what is called for a point. -/
def loop {σ : Type} (draw : σ → BitVec 32 → BitVec 32 → σ) : ℕ → Pen → σ → σ × Bool
  | 0, _, s => (s, false)
  | n + 1, p, s =>
    let s := draw s p.x p.y
    if l.AtEnd p then (s, true) else loop draw n (l.next p) s

end Line

/-- `cga_draw_line` for `n` passes -/
def cgaDrawLine (l : Line) (color : BitVec 32) (n : ℕ) (fb : Memory Byte) : Memory Byte × Bool :=
  l.loop (cgaDrawPixel color) n l.start fb

namespace Line

variable (l : Line)

/-- The variables before pass `k`. -/
def pen (k : ℕ) : Pen := l.next^[k] l.start

variable {l}

/-- The calls of a loop that ends with pass `n`. -/
theorem loop_ends {σ : Type} (draw : σ → BitVec 32 → BitVec 32 → σ) {n : ℕ} {p : Pen} (s : σ)
    (hbefore : ∀ k < n, ¬ l.AtEnd (l.next^[k] p)) (hend : l.AtEnd (l.next^[n] p)) :
    l.loop draw (n + 1) p s =
      ((List.range (n + 1)).foldl (fun s k => draw s (l.next^[k] p).x (l.next^[k] p).y) s,
        true) := by
  induction n generalizing p s with
  | zero => exact if_pos hend
  | succ n ih =>
    have hp : ¬ l.AtEnd p := hbefore 0 (Nat.zero_lt_succ n)
    have hrest := ih (p := l.next p) (draw s p.x p.y)
      (fun k hk => hbefore (k + 1) (Nat.succ_lt_succ hk)) hend
    rw [loop]
    simp only [if_neg hp]
    rw [hrest]
    conv_rhs => rw [List.range_succ_eq_map, List.foldl_cons, List.foldl_map]
    rfl

theorem pen_succ (k : ℕ) : l.pen (k + 1) = l.next (l.pen k) := Function.iterate_succ_apply' _ _ _

end Line

/-! ## Section 2: Machine arithmetic -/

/-- The machine's result is the exact one. -/
def Fits (r : BitVec 32) (z : ℤ) : Prop := r.toInt = z

theorem Fits.bounds {r : BitVec 32} {z : ℤ} (h : Fits r z) : -2147483648 ≤ z ∧ z < 2147483648 := by
  have hlow := r.le_toInt
  have hhigh := r.toInt_lt
  rw [h] at hlow hhigh
  exact ⟨hlow, hhigh⟩

theorem bmod_of_bounds {z : ℤ} (hlow : -2147483648 ≤ z) (hhigh : z < 2147483648) :
    z.bmod (2 ^ 32) = z :=
  Int.bmod_eq_of_le (by omega) (by omega)

variable {a b : BitVec 32}

theorem fits_add (hlow : -2147483648 ≤ a.toInt + b.toInt) (hhigh : a.toInt + b.toInt < 2147483648) :
    Fits (a + b) (a.toInt + b.toInt) :=
  (BitVec.toInt_add a b).trans (bmod_of_bounds hlow hhigh)

theorem fits_sub (hlow : -2147483648 ≤ a.toInt - b.toInt) (hhigh : a.toInt - b.toInt < 2147483648) :
    Fits (a - b) (a.toInt - b.toInt) :=
  (BitVec.toInt_sub (x := a)).trans (bmod_of_bounds hlow hhigh)

theorem fits_mul (hlow : -2147483648 ≤ a.toInt * b.toInt) (hhigh : a.toInt * b.toInt < 2147483648) :
    Fits (a * b) (a.toInt * b.toInt) :=
  (BitVec.toInt_mul a b).trans (bmod_of_bounds hlow hhigh)

theorem fits_neg (hlow : -2147483648 ≤ -a.toInt) (hhigh : -a.toInt < 2147483648) :
    Fits (-a) (-a.toInt) :=
  BitVec.toInt_neg.trans (bmod_of_bounds hlow hhigh)

theorem toInt_abs (hlow : -2147483648 < a.toInt) : (abs a).toInt = a.toInt.natAbs := by
  have hhigh := a.toInt_lt
  have hone : (-1 : BitVec 32).toInt = -1 := by decide
  have hpos : (0#32).slt a = true ↔ 0 < a.toInt := by
    rw [BitVec.slt_iff_toInt_lt]
    rfl
  by_cases h : 0 < a.toInt
  · rw [abs, if_pos (hpos.mpr h)]
    omega
  · have hmul := fits_mul (a := -1) (b := a) (by rw [hone]; omega) (by rw [hone]; omega)
    rw [abs, if_neg (mt hpos.mp h), hmul, hone]
    omega

/-! ## Section 3: What is to hold of a line -/

/-- The sign of a difference, as the code takes it. -/
def side (z : ℤ) : ℤ := if 0 < z then 1 else -1

theorem side_mul_natAbs (z : ℤ) : side z * z.natAbs = z := by
  unfold side
  split <;> omega

theorem side_cases (z : ℤ) : side z = 1 ∨ side z = -1 := by
  unfold side
  split
  · exact Or.inl rfl
  · exact Or.inr rfl

theorem side_eq_sign {z : ℤ} (h : 0 < z.natAbs) : side z = z.sign := by
  unfold side
  split
  · next hpos => exact (Int.sign_eq_one_of_pos hpos).symm
  · next hneg => exact (Int.sign_eq_neg_one_of_neg (by omega)).symm

namespace Line

variable (l : Line)

/-- The exact differences of the coordinates. -/
def deltaX : ℤ := l.x1.toInt - l.x0.toInt
def deltaY : ℤ := l.y1.toInt - l.y0.toInt

/-- The number of steps. -/
def length : ℕ := max l.deltaX.natAbs l.deltaY.natAbs

/-- The point drawn in pass `k`. -/
def point (k : ℕ) : ℤ × ℤ := ((l.pen k).x.toInt, (l.pen k).y.toInt)

/-- Nothing overflows before the loop. -/
structure SetupFits : Prop where
  subX : Fits (l.x1 - l.x0) l.deltaX
  negX : Fits (-1 * (l.x1 - l.x0)) (-l.deltaX)
  subY : Fits (l.y1 - l.y0) l.deltaY
  negY : Fits (-1 * (l.y1 - l.y0)) (-l.deltaY)
  dy : Fits l.dy (-(abs (l.y1 - l.y0)).toInt)
  err : Fits (l.dx + l.dy) (l.dx.toInt + l.dy.toInt)

/-- Nothing overflows in a pass. -/
structure PassFits (p : Pen) : Prop where
  e2 : Fits (2 * p.err) (2 * p.err.toInt)
  errX : l.dy.sle (2 * p.err) → Fits (p.err + l.dy) (p.err.toInt + l.dy.toInt)
  x : l.dy.sle (2 * p.err) → Fits (p.x + l.sx) (p.x.toInt + l.sx.toInt)
  errY : (2 * p.err).sle l.dx → Fits ((l.stepX p).err + l.dx) ((l.stepX p).err.toInt + l.dx.toInt)
  y : (2 * p.err).sle l.dx → Fits (p.y + l.sy) (p.y.toInt + l.sy.toInt)

/-- A line as it is meant to be. -/
structure WellDrawn : Prop where
  /-- The loop ends, and these are the points it draws. -/
  calls : l.loop (fun points x y => points ++ [(x.toInt, y.toInt)]) (l.length + 1) l.start [] =
    ((List.range (l.length + 1)).map l.point, true)
  first : l.point 0 = (l.x0.toInt, l.y0.toInt)
  last : l.point l.length = (l.x1.toInt, l.y1.toInt)
  /-- Points that follow each other are neighbours. -/
  near : ∀ k < l.length, |(l.point (k + 1)).1 - (l.point k).1| ≤ 1 ∧
    |(l.point (k + 1)).2 - (l.point k).2| ≤ 1
  /-- Every pass goes on along the longer side. -/
  onX : l.deltaY.natAbs ≤ l.deltaX.natAbs → ∀ k < l.length,
    (l.point (k + 1)).1 - (l.point k).1 = l.deltaX.sign
  onY : l.deltaX.natAbs ≤ l.deltaY.natAbs → ∀ k < l.length,
    (l.point (k + 1)).2 - (l.point k).2 = l.deltaY.sign
  /-- The distance along the shorter side is at most half a pixel. -/
  halfY : l.deltaY.natAbs ≤ l.deltaX.natAbs → ∀ k ≤ l.length,
    2 * |((l.point k).2 - l.y0.toInt) * l.deltaX - ((l.point k).1 - l.x0.toInt) * l.deltaY| ≤
      |l.deltaX|
  halfX : l.deltaX.natAbs ≤ l.deltaY.natAbs → ∀ k ≤ l.length,
    2 * |((l.point k).2 - l.y0.toInt) * l.deltaX - ((l.point k).1 - l.x0.toInt) * l.deltaY| ≤
      |l.deltaY|
  setup : l.SetupFits
  passes : ∀ k < l.length, l.PassFits (l.pen k)

/-- Every coordinate is smaller than `2^29`. -/
structure Moderate : Prop where
  x0 : |l.x0.toInt| < 2 ^ 29
  y0 : |l.y0.toInt| < 2 ^ 29
  x1 : |l.x1.toInt| < 2 ^ 29
  y1 : |l.y1.toInt| < 2 ^ 29

/-- The doubled error stays in a word. -/
def ErrorFits : Prop :=
  if l.deltaY.natAbs ≤ l.deltaX.natAbs then
    2 * (l.deltaX.natAbs - l.deltaY.natAbs) +
      2 * DigitalLine.largestDeviation l.deltaX.natAbs l.deltaY.natAbs < 2 ^ 31
  else
    2 * (l.deltaY.natAbs - l.deltaX.natAbs) +
      2 * DigitalLine.largestDeviation l.deltaY.natAbs l.deltaX.natAbs ≤ 2 ^ 31

/-! ## Section 4: Before the loop -/

variable {l}

theorem Moderate.bounds (h : l.Moderate) :
    (-2 ^ 29 < l.x0.toInt ∧ l.x0.toInt < 2 ^ 29) ∧ (-2 ^ 29 < l.y0.toInt ∧ l.y0.toInt < 2 ^ 29) ∧
      (-2 ^ 29 < l.x1.toInt ∧ l.x1.toInt < 2 ^ 29) ∧ -2 ^ 29 < l.y1.toInt ∧ l.y1.toInt < 2 ^ 29 :=
  ⟨abs_lt.mp h.x0, abs_lt.mp h.y0, abs_lt.mp h.x1, abs_lt.mp h.y1⟩

theorem Moderate.delta (h : l.Moderate) :
    l.deltaX.natAbs < 2 ^ 30 ∧ l.deltaY.natAbs < 2 ^ 30 := by
  obtain ⟨hx0, hy0, hx1, hy1⟩ := h.bounds
  unfold deltaX deltaY
  omega

theorem Moderate.subX (h : l.Moderate) : Fits (l.x1 - l.x0) l.deltaX := by
  have := h.delta
  exact fits_sub (by unfold deltaX at this; omega) (by unfold deltaX at this; omega)

theorem Moderate.subY (h : l.Moderate) : Fits (l.y1 - l.y0) l.deltaY := by
  have := h.delta
  exact fits_sub (by unfold deltaY at this; omega) (by unfold deltaY at this; omega)

theorem Moderate.toInt_dx (h : l.Moderate) : l.dx.toInt = l.deltaX.natAbs := by
  have := h.delta
  rw [dx, toInt_abs (by rw [h.subX]; omega), h.subX]

theorem Moderate.toInt_absY (h : l.Moderate) :
    (abs (l.y1 - l.y0)).toInt = l.deltaY.natAbs := by
  have := h.delta
  rw [toInt_abs (by rw [h.subY]; omega), h.subY]

theorem Moderate.dy (h : l.Moderate) : Fits l.dy (-(abs (l.y1 - l.y0)).toInt) := by
  have := h.delta
  exact fits_neg (by rw [h.toInt_absY]; omega) (by rw [h.toInt_absY]; omega)

theorem Moderate.toInt_dy (h : l.Moderate) : l.dy.toInt = -(l.deltaY.natAbs : ℤ) :=
  h.dy.trans (congrArg _ h.toInt_absY)

/-- Negating a small difference. -/
theorem fits_neg_one {a : BitVec 32} {z : ℤ} (ha : Fits a z) (hz : z.natAbs < 2 ^ 30) :
    Fits (-1 * a) (-z) := by
  have hone : (-1 : BitVec 32).toInt = -1 := by decide
  have hmul := fits_mul (a := -1) (b := a) (by rw [hone, ha]; omega) (by rw [hone, ha]; omega)
  rw [hone, ha] at hmul
  exact hmul.trans (by omega)

theorem Moderate.setup (h : l.Moderate) : l.SetupFits where
  subX := h.subX
  negX := fits_neg_one h.subX h.delta.1
  subY := h.subY
  negY := fits_neg_one h.subY h.delta.2
  dy := h.dy
  err := by
    have := h.delta
    exact fits_add (by rw [h.toInt_dx, h.toInt_dy]; omega) (by rw [h.toInt_dx, h.toInt_dy]; omega)

theorem toInt_sx : l.sx.toInt = side l.deltaX := by
  have hiff : l.x0.slt l.x1 = true ↔ 0 < l.deltaX := by
    rw [BitVec.slt_iff_toInt_lt, deltaX, sub_pos]
  by_cases h : 0 < l.deltaX
  · rw [sx, if_pos (hiff.mpr h), side, if_pos h]
    rfl
  · rw [sx, if_neg (mt hiff.mp h), side, if_neg h]
    rfl

theorem toInt_sy : l.sy.toInt = side l.deltaY := by
  have hiff : l.y0.slt l.y1 = true ↔ 0 < l.deltaY := by
    rw [BitVec.slt_iff_toInt_lt, deltaY, sub_pos]
  by_cases h : 0 < l.deltaY
  · rw [sy, if_pos (hiff.mpr h), side, if_pos h]
    rfl
  · rw [sy, if_neg (mt hiff.mp h), side, if_neg h]
    rfl

/-! ## Section 5: The passes -/

/-- The pen after the steps of the digital line. -/
structure Exact (l : Line) (p : Pen) (s : DigitalLine.Steps) : Prop where
  x : p.x.toInt = l.x0.toInt + side l.deltaX * s.across
  y : p.y.toInt = l.y0.toInt + side l.deltaY * s.up
  err : p.err.toInt = DigitalLine.error l.deltaX.natAbs l.deltaY.natAbs s

theorem Moderate.exact_start (h : l.Moderate) : l.Exact l.start ⟨0, 0⟩ where
  x := by simp [start]
  y := by simp [start]
  err := by
    show (l.dx + l.dy).toInt = _
    rw [h.setup.err, h.toInt_dx, h.toInt_dy, DigitalLine.error]
    push_cast
    ring

variable {p : Pen} {s : DigitalLine.Steps}

/-- The two comparisons of a pass. -/
theorem Exact.sle_iff (h : l.Exact p s) (hl : l.Moderate)
    (he2 : Fits (2 * p.err) (2 * p.err.toInt)) :
    (l.dy.sle (2 * p.err) = true ↔
      -(l.deltaY.natAbs : ℤ) ≤ 2 * DigitalLine.error l.deltaX.natAbs l.deltaY.natAbs s) ∧
    ((2 * p.err).sle l.dx = true ↔
      2 * DigitalLine.error l.deltaX.natAbs l.deltaY.natAbs s ≤ l.deltaX.natAbs) := by
  rw [BitVec.sle_iff_toInt_le, BitVec.sle_iff_toInt_le, he2, hl.toInt_dx, hl.toInt_dy, h.err]
  exact ⟨Iff.rfl, Iff.rfl⟩

/-- The error after the step to the side. -/
theorem Exact.stepX_err (h : l.Exact p s) (hl : l.Moderate)
    (he2 : Fits (2 * p.err) (2 * p.err.toInt))
    (herrX : l.dy.sle (2 * p.err) → Fits (p.err + l.dy) (p.err.toInt + l.dy.toInt)) :
    (l.stepX p).err.toInt = DigitalLine.error l.deltaX.natAbs l.deltaY.natAbs s -
      (if -(l.deltaY.natAbs : ℤ) ≤ 2 * DigitalLine.error l.deltaX.natAbs l.deltaY.natAbs s
        then (l.deltaY.natAbs : ℤ) else 0) := by
  obtain ⟨hacross, -⟩ := h.sle_iff hl he2
  by_cases hc : l.dy.sle (2 * p.err) = true
  · rw [stepX, if_pos hc, if_pos (hacross.mp hc)]
    show (p.err + l.dy).toInt = _
    rw [herrX hc, h.err, hl.toInt_dy]
    ring
  · rw [stepX, if_neg hc, if_neg (mt hacross.mpr hc), h.err, sub_zero]

/-- **Step lemma.**  A pass in which nothing overflows makes the steps of the digital line. -/
theorem Exact.next (h : l.Exact p s) (hl : l.Moderate) (hfits : l.PassFits p) :
    l.Exact (l.next p) (DigitalLine.next l.deltaX.natAbs l.deltaY.natAbs s) := by
  obtain ⟨hacross, hup⟩ := h.sle_iff hl hfits.e2
  have herr := h.stepX_err hl hfits.e2 hfits.errX
  have hy : (l.stepX p).y = p.y := by
    unfold stepX
    split <;> rfl
  have hnext := DigitalLine.error_eq (a := l.deltaX.natAbs) (b := l.deltaY.natAbs)
    (DigitalLine.next l.deltaX.natAbs l.deltaY.natAbs s)
  rw [DigitalLine.deviation_next] at hnext
  have hs := DigitalLine.error_eq (a := l.deltaX.natAbs) (b := l.deltaY.natAbs) s
  -- the step to the side is kept by the step up
  have hx : (l.next p).x = (l.stepX p).x := by
    unfold Line.next
    dsimp only
    split <;> rfl
  refine ⟨?_, ?_, ?_⟩
  · rw [hx]
    by_cases hc : l.dy.sle (2 * p.err) = true
    · rw [stepX, if_pos hc, DigitalLine.next, if_pos (hacross.mp hc)]
      show (p.x + l.sx).toInt = _
      rw [hfits.x hc, h.x, toInt_sx]
      push_cast
      ring
    · rw [stepX, if_neg hc, DigitalLine.next, if_neg (mt hacross.mpr hc), h.x]
  · by_cases hc : (2 * p.err).sle l.dx = true
    · rw [Line.next, if_pos hc, DigitalLine.next, if_pos (hup.mp hc)]
      show ((l.stepX p).y + l.sy).toInt = _
      rw [hy, hfits.y hc, h.y, toInt_sy]
      push_cast
      ring
    · rw [Line.next, if_neg hc, DigitalLine.next, if_neg (mt hup.mpr hc), hy, h.y]
  · by_cases hc : (2 * p.err).sle l.dx = true
    · rw [if_pos (hup.mp hc)] at hnext
      rw [Line.next, if_pos hc]
      show ((l.stepX p).err + l.dx).toInt = _
      rw [hfits.errY hc, herr, hl.toInt_dx, hnext, hs]
      ring
    · rw [if_neg (mt hup.mpr hc)] at hnext
      rw [Line.next, if_neg hc, herr, hnext, hs]
      ring

/-- **Run lemma.**  As long as the doubled error fits, the pen is where the line without bounds is.
-/
theorem exact_pen (hl : l.Moderate) {k : ℕ} (hfits : ∀ i < k, l.PassFits (l.pen i)) :
    l.Exact (l.pen k) (DigitalLine.walk l.deltaX.natAbs l.deltaY.natAbs k) := by
  induction k with
  | zero => exact hl.exact_start
  | succ k ih =>
    rw [pen_succ, DigitalLine.walk_succ]
    exact (ih fun i hi => hfits i (Nat.lt_succ_of_lt hi)).next hl (hfits k (Nat.lt_succ_self k))

/-! ## Section 6: Where nothing overflows -/

theorem length_of_flat (hab : l.deltaY.natAbs ≤ l.deltaX.natAbs) : l.length = l.deltaX.natAbs :=
  max_eq_left hab

theorem length_of_steep (hab : l.deltaX.natAbs < l.deltaY.natAbs) : l.length = l.deltaY.natAbs :=
  max_eq_right hab.le

theorem error_bounds (hl : l.Moderate) (herr : l.ErrorFits) (hpos : 0 < l.length) (k : ℕ) :
    -2 ^ 31 ≤ 2 * DigitalLine.error l.deltaX.natAbs l.deltaY.natAbs
        (DigitalLine.walk l.deltaX.natAbs l.deltaY.natAbs k) ∧
      2 * DigitalLine.error l.deltaX.natAbs l.deltaY.natAbs
        (DigitalLine.walk l.deltaX.natAbs l.deltaY.natAbs k) < 2 ^ 31 := by
  obtain ⟨hx, hy⟩ := hl.delta
  rw [DigitalLine.error_eq]
  rcases Nat.lt_or_ge l.deltaX.natAbs l.deltaY.natAbs with hab | hab
  · rw [ErrorFits, if_neg (Nat.not_le.mpr hab)] at herr
    have hlarge := DigitalLine.le_deviation_of_steep hab k
    have hnear := (DigitalLine.walk_steep hab k).2.2
    omega
  · rw [ErrorFits, if_pos hab] at herr
    rw [length_of_flat hab] at hpos
    have hlarge := DigitalLine.deviation_le_of_flat hpos hab k
    have hnear := (DigitalLine.walk_flat hpos hab k).2.1
    omega

/-- A coordinate a step away from one that is still near the line. -/
theorem fits_coordinate {c d : BitVec 32} {z₀ z : ℤ} {n : ℕ} (hc : c.toInt = z₀ + side z * n)
    (hd : d.toInt = side z) (hz : -2 ^ 29 < z₀ ∧ z₀ < 2 ^ 29) (hn : n < 2 ^ 30) :
    Fits (c + d) (c.toInt + d.toInt) := by
  rcases side_cases z with hside | hside
  · rw [hside] at hc hd
    exact fits_add (by omega) (by omega)
  · rw [hside] at hc hd
    exact fits_add (by omega) (by omega)

/-- A pass before the end overflows nowhere. -/
theorem passFits (hl : l.Moderate) (herr : l.ErrorFits) {k : ℕ} (hk : k < l.length)
    (h : l.Exact (l.pen k) (DigitalLine.walk l.deltaX.natAbs l.deltaY.natAbs k)) :
    l.PassFits (l.pen k) := by
  obtain ⟨hx, hy⟩ := hl.delta
  have hlength : l.length < 2 ^ 30 := max_lt hx hy
  obtain ⟨hx0, hy0, -⟩ := hl.bounds
  obtain ⟨hacross, hup⟩ := DigitalLine.walk_le (a := l.deltaX.natAbs) (b := l.deltaY.natAbs) k
  obtain ⟨hlow, hhigh⟩ := error_bounds hl herr (Nat.zero_lt_of_lt hk) k
  have htwo : (2 : BitVec 32).toInt = 2 := by decide
  have herr' := h.err
  have he2 : Fits (2 * (l.pen k).err) (2 * (l.pen k).err.toInt) := by
    have hmul := fits_mul (a := 2) (b := (l.pen k).err) (by rw [htwo, herr']; omega)
      (by rw [htwo, herr']; omega)
    rwa [htwo] at hmul
  obtain ⟨hsideX, hsideY⟩ := h.sle_iff hl he2
  have hdx := hl.toInt_dx
  have hdy := hl.toInt_dy
  have herrX : l.dy.sle (2 * (l.pen k).err) →
      Fits ((l.pen k).err + l.dy) ((l.pen k).err.toInt + l.dy.toInt) := by
    intro hc
    have := hsideX.mp hc
    exact fits_add (by omega) (by omega)
  refine ⟨he2, herrX, fun _ => ?_, fun hc => ?_, fun _ => ?_⟩
  · exact fits_coordinate h.x toInt_sx hx0 (by omega)
  · have hstep := h.stepX_err hl he2 herrX
    have := hsideY.mp hc
    split at hstep
    · exact fits_add (by omega) (by omega)
    · exact fits_add (by omega) (by omega)
  · exact fits_coordinate h.y toInt_sy hy0 (by omega)

/-- **Run lemma.**  No pass before the end overflows. -/
theorem passes_fit (hl : l.Moderate) (herr : l.ErrorFits) (k : ℕ) (hk : k < l.length) :
    l.PassFits (l.pen k) := by
  induction k using Nat.strong_induction_on with
  | _ k ih => exact passFits hl herr hk (exact_pen hl fun i hi => ih i hi (hi.trans hk))

/-- Where no pass overflows, the doubled error stays in a word: some pass has the largest one. -/
theorem errorFits_of_passes (hl : l.Moderate) (hfits : ∀ k < l.length, l.PassFits (l.pen k)) :
    l.ErrorFits := by
  have hexact : ∀ k < l.length,
      l.Exact (l.pen k) (DigitalLine.walk l.deltaX.natAbs l.deltaY.natAbs k) := fun k hk =>
    exact_pen hl fun i hi => hfits i (hi.trans hk)
  rcases Nat.lt_or_ge l.deltaX.natAbs l.deltaY.natAbs with hab | hab
  · rw [ErrorFits, if_neg (Nat.not_le.mpr hab)]
    obtain ⟨k, hk, hdev⟩ := DigitalLine.exists_deviation_of_steep hab
    rw [← length_of_steep hab] at hk
    have hbounds := (hfits k hk).e2.bounds
    rw [(hexact k hk).err, DigitalLine.error_eq, hdev] at hbounds
    omega
  · rw [ErrorFits, if_pos hab]
    rcases Nat.eq_zero_or_pos l.deltaX.natAbs with hzero | hpos
    · rw [hzero] at hab ⊢
      rw [Nat.le_zero.mp hab]
      decide
    · obtain ⟨k, hk, hdev⟩ := DigitalLine.exists_deviation_of_flat hpos hab
      rw [← length_of_flat hab] at hk
      have hbounds := (hfits k hk).e2.bounds
      rw [(hexact k hk).err, DigitalLine.error_eq, hdev] at hbounds
      omega

/-! ## Section 7: The line -/

/-- The loop ends where the digital line arrives. -/
theorem Exact.atEnd_iff (h : l.Exact p s) :
    l.AtEnd p ↔ s = ⟨l.deltaX.natAbs, l.deltaY.natAbs⟩ := by
  have hx : l.x1.toInt = l.x0.toInt + side l.deltaX * l.deltaX.natAbs := by
    rw [side_mul_natAbs, deltaX]
    ring
  have hy : l.y1.toInt = l.y0.toInt + side l.deltaY * l.deltaY.natAbs := by
    rw [side_mul_natAbs, deltaY]
    ring
  have hsteps : ∀ z : ℤ, ∀ m n : ℕ, ∀ z₀ : ℤ, z₀ + side z * m = z₀ + side z * n ↔ m = n := by
    intro z m n z₀
    rcases side_cases z with hside | hside
    · rw [hside]
      omega
    · rw [hside]
      omega
  obtain ⟨across, up⟩ := s
  rw [AtEnd, ← BitVec.toInt_inj, ← BitVec.toInt_inj, h.x, h.y, hx, hy, hsteps, hsteps,
    DigitalLine.Steps.mk.injEq]

/-- The distance of a point is that of the digital line. -/
theorem Exact.deviation (h : l.Exact p s) :
    |(p.y.toInt - l.y0.toInt) * l.deltaX - (p.x.toInt - l.x0.toInt) * l.deltaY| =
      |DigitalLine.deviation l.deltaX.natAbs l.deltaY.natAbs s| := by
  have hprod : (p.y.toInt - l.y0.toInt) * l.deltaX - (p.x.toInt - l.x0.toInt) * l.deltaY =
      side l.deltaX * side l.deltaY *
        DigitalLine.deviation l.deltaX.natAbs l.deltaY.natAbs s := by
    have hX := side_mul_natAbs l.deltaX
    have hY := side_mul_natAbs l.deltaY
    rw [h.x, h.y, DigitalLine.deviation]
    linear_combination (-(side l.deltaY * s.up)) * hX + side l.deltaX * s.across * hY
  have hone : ∀ z : ℤ, |side z| = 1 := by
    intro z
    rcases side_cases z with hside | hside
    · rw [hside]
      rfl
    · rw [hside]
      rfl
  rw [hprod, abs_mul, abs_mul, hone, hone, one_mul, one_mul]

theorem foldl_points (f : ℕ → ℤ × ℤ) (n : ℕ) (points : List (ℤ × ℤ)) :
    (List.range n).foldl (fun points k => points ++ [f k]) points =
      points ++ (List.range n).map f := by
  induction n with
  | zero => simp
  | succ n ih => rw [List.range_succ, List.foldl_append, ih, List.map_append, ← List.append_assoc,
      List.foldl_cons, List.foldl_nil, List.map_singleton]

/-- A line in which nothing overflows is as it is meant to be. -/
theorem wellDrawn_of_passes (hl : l.Moderate) (hfits : ∀ k < l.length, l.PassFits (l.pen k)) :
    l.WellDrawn := by
  -- as nothing overflows, the pen walks the ideal line
  have hexact : ∀ k ≤ l.length,
      l.Exact (l.pen k) (DigitalLine.walk l.deltaX.natAbs l.deltaY.natAbs k) := fun k hk =>
    exact_pen hl fun i hi => hfits i (Nat.lt_of_lt_of_le hi hk)
  have hend : l.AtEnd (l.pen l.length) :=
    (hexact l.length (Nat.le_refl _)).atEnd_iff.mpr DigitalLine.walk_end
  have hbefore : ∀ k < l.length, ¬ l.AtEnd (l.pen k) := fun k hk hatEnd =>
    DigitalLine.walk_ne_end hk ((hexact k hk.le).atEnd_iff.mp hatEnd)
  have hstep : ∀ z : ℤ, ∀ m n : ℕ, (n = m ∨ n = m + 1) → |side z * n - side z * m| ≤ 1 := by
    intro z m n hmn
    rcases side_cases z with hside | hside <;> rw [hside, abs_le] <;> omega
  -- so it is half a pixel off at most
  have hhalf : ∀ k ≤ l.length, 2 * |((l.point k).2 - l.y0.toInt) * l.deltaX -
      ((l.point k).1 - l.x0.toInt) * l.deltaY| ≤ max l.deltaX.natAbs l.deltaY.natAbs := by
    intro k hk
    show 2 * |((l.pen k).y.toInt - l.y0.toInt) * l.deltaX -
      ((l.pen k).x.toInt - l.x0.toInt) * l.deltaY| ≤ _
    rw [(hexact k hk).deviation]
    exact DigitalLine.two_mul_abs_deviation_le hk
  -- the end, single steps, the flat and the steep line
  refine ⟨?_, rfl, ?_, fun k hk => ⟨?_, ?_⟩, fun hab k hk => ?_, fun hab k hk => ?_,
    fun hab k hk => ?_, fun hab k hk => ?_, hl.setup, hfits⟩
  · rw [loop_ends _ _ hbefore hend]
    exact congrArg (·, true) (foldl_points l.point _ [])
  · show ((l.pen l.length).x.toInt, (l.pen l.length).y.toInt) = _
    rw [hend.1, hend.2]
  · show |(l.pen (k + 1)).x.toInt - (l.pen k).x.toInt| ≤ 1
    rw [(hexact (k + 1) hk).x, (hexact k hk.le).x, add_sub_add_left_eq_sub]
    exact hstep _ _ _ (DigitalLine.walk_succ_cases k).1
  · show |(l.pen (k + 1)).y.toInt - (l.pen k).y.toInt| ≤ 1
    rw [(hexact (k + 1) hk).y, (hexact k hk.le).y, add_sub_add_left_eq_sub]
    exact hstep _ _ _ (DigitalLine.walk_succ_cases k).2
  · have hpos : 0 < l.deltaX.natAbs := by
      rw [← length_of_flat hab]
      exact Nat.zero_lt_of_lt hk
    show (l.pen (k + 1)).x.toInt - (l.pen k).x.toInt = _
    rw [(hexact (k + 1) hk).x, (hexact k hk.le).x, (DigitalLine.walk_flat hpos hab (k + 1)).1,
      (DigitalLine.walk_flat hpos hab k).1, ← side_eq_sign hpos]
    push_cast
    ring
  · have hpos : 0 < l.deltaY.natAbs := by
      rw [length, max_eq_right hab] at hk
      exact Nat.zero_lt_of_lt hk
    show (l.pen (k + 1)).y.toInt - (l.pen k).y.toInt = _
    rw [(hexact (k + 1) hk).y, (hexact k hk.le).y, DigitalLine.walk_up hpos hab (k + 1),
      DigitalLine.walk_up hpos hab k, ← side_eq_sign hpos]
    push_cast
    ring
  · rw [Int.abs_eq_natAbs l.deltaX]
    have h := hhalf k hk
    rwa [max_eq_left (by exact_mod_cast hab)] at h
  · rw [Int.abs_eq_natAbs l.deltaY]
    have h := hhalf k hk
    rwa [max_eq_right (by exact_mod_cast hab)] at h

/-- **Lines.**  A line of moderate coordinates is drawn as it is meant to be exactly if the doubled
error stays in a word. -/
theorem wellDrawn_iff (l : Line) (hl : l.Moderate) : l.WellDrawn ↔ l.ErrorFits :=
  ⟨fun h => errorFits_of_passes hl h.passes,
    fun h => wellDrawn_of_passes hl (passes_fit hl h)⟩

/-- A line through the whole screen. -/
theorem wellDrawn_diagonal : (⟨0, 0, 319, 239⟩ : Line).WellDrawn :=
  (wellDrawn_iff ⟨0, 0, 319, 239⟩ ⟨by decide, by decide, by decide, by decide⟩).mpr (by
    unfold ErrorFits; decide)

/-- The doubled error of this line leaves the word in the third pass. -/
theorem not_wellDrawn_wide :
    ¬ ∀ l : Line, l.Moderate → l.WellDrawn := by
  intro h
  let wide : Line := ⟨BitVec.ofInt 32 (-536870910), 0, 536870910, 268435455⟩
  have hwide : wide.Moderate := ⟨by decide, by decide, by decide, by decide⟩
  have hlength : 2 < wide.length := by decide
  have hfits := ((h wide hwide).passes 2 hlength).e2
  exact absurd hfits (by unfold Fits; decide)

end Line

end Karnix.Video.Drawing
