import Karnix.Video.LineDrawing

/-!
# Clipping

`cga_draw_pixel` clips by the index of the word, which is taken from the flattened index of the
pixel.  A point to the left or to the right of the screen has the index of a pixel in a row beside,
and the upper limit is one word too high.

A point is drawn right exactly if it is on the screen or its word index is out of range.  A line is
drawn right exactly if this holds of all its points, but for those that have the index of a pixel
the line has drawn before.
-/

namespace Karnix.Video.Drawing

open Karnix.Library

/-! ## Section 1: What is to hold -/

/-- The point is on the screen. -/
def OnScreen (x y : BitVec 32) : Prop :=
  (0 ≤ x.toInt ∧ x.toInt < cgaVideoWidth) ∧ 0 ≤ y.toInt ∧ y.toInt < cgaVideoHeight

/-- `cga_draw_pixel` does not return before it draws. -/
def InRange (x y : BitVec 32) : Prop :=
  0 ≤ (wordIdx x y).toInt ∧ (wordIdx x y).toInt ≤ (cgaFramebufferSize / 4 : ℕ)

/-- The clipping does what it is for. -/
def ClipsRight (x y : BitVec 32) : Prop := OnScreen x y ∨ ¬ InRange x y

/-- A pixel of the screen. -/
def screenPixel (fb : Memory Byte) (x y : ℕ) : BitVec 2 := cgaPixel fb (y * cgaVideoWidth + x)

/-- A point changes nothing but its pixel, and nothing outside the framebuffer. -/
def PixelRight (x y : BitVec 32) : Prop :=
  ∀ color fb,
    (∀ a, cgaFramebufferSize ≤ a → cgaDrawPixel color fb x y a = fb a) ∧
    ∀ u < cgaVideoWidth, ∀ v < cgaVideoHeight,
      screenPixel (cgaDrawPixel color fb x y) u v ≠ screenPixel fb u v →
        x.toInt = u ∧ y.toInt = v

namespace Line

variable (l : Line)

/-- Pass `k` is made. -/
def Drawn (k : ℕ) : Prop := ∀ i < k, ¬ l.AtEnd (l.pen i)

/-- One of the first `n` passes draws the pixel. -/
def Passes (n : ℕ) (u v : ℕ) : Prop :=
  ∃ k < n, l.Drawn k ∧ (l.pen k).x.toInt = u ∧ (l.pen k).y.toInt = v

/-- At any time the line has changed its points on the screen, and nothing else. -/
def DrawsRight : Prop :=
  ∀ color fb n,
    (∀ a, cgaFramebufferSize ≤ a → (cgaDrawLine l color n fb).1 a = fb a) ∧
    ∀ u < cgaVideoWidth, ∀ v < cgaVideoHeight,
      (l.Passes n u v →
        screenPixel (cgaDrawLine l color n fb).1 u v = color.setWidth 2) ∧
      (¬ l.Passes n u v →
        screenPixel (cgaDrawLine l color n fb).1 u v = screenPixel fb u v)

/-- Every point is clipped right, or has the index of a pixel that has been drawn before. -/
def ClipsRight : Prop :=
  ∀ k, l.Drawn k →
    Drawing.ClipsRight (l.pen k).x (l.pen k).y ∨
      ∃ i < k, OnScreen (l.pen i).x (l.pen i).y ∧
        pixelIdx (l.pen i).x (l.pen i).y = pixelIdx (l.pen k).x (l.pen k).y

end Line

/-! ## Section 2: The index of a pixel -/

variable {x y : BitVec 32}

theorem toInt_wordIdx (x y : BitVec 32) : (wordIdx x y).toInt = (pixelIdx x y).toInt / 16 := by
  rw [wordIdx, BitVec.toInt_sshiftRight, Int.shiftRight_eq_div_pow]
  rfl

/-- The point is drawn exactly if its index is that of a pixel or of the word behind. -/
theorem inRange_iff :
    InRange x y ↔ 0 ≤ (pixelIdx x y).toInt ∧ (pixelIdx x y).toInt < 76816 := by
  have hsize : ((cgaFramebufferSize / 4 : ℕ) : ℤ) = 4800 := by decide
  rw [InRange, toInt_wordIdx, hsize]
  omega

theorem toNat_pixelIdx (h : InRange x y) :
    ((pixelIdx x y).toNat : ℤ) = (pixelIdx x y).toInt := by
  have hidx := inRange_iff.mp h
  rw [BitVec.toInt_eq_toNat_cond] at hidx ⊢
  split at hidx
  · next hsmall => rw [if_pos hsmall]
  · omega

theorem toNat_wordIdx (h : InRange x y) : (wordIdx x y).toNat = (pixelIdx x y).toNat / 16 := by
  have hidx := toNat_pixelIdx h
  have hword := toInt_wordIdx x y
  have hrange := h.1
  rw [BitVec.toInt_eq_toNat_cond] at hword hrange
  split at hword
  · omega
  · next hlarge =>
    rw [if_neg hlarge] at hrange
    omega

theorem onScreen_of_toInt {u v : ℕ} (hu : u < cgaVideoWidth) (hv : v < cgaVideoHeight)
    (hx : x.toInt = u) (hy : y.toInt = v) : OnScreen x y := by
  rw [OnScreen, hx, hy]
  exact ⟨⟨Int.natCast_nonneg u, by exact_mod_cast hu⟩, Int.natCast_nonneg v, by exact_mod_cast hv⟩

/-- The index of a point on the screen. -/
theorem OnScreen.toInt_pixelIdx (h : OnScreen x y) :
    (pixelIdx x y).toInt = y.toInt * cgaVideoWidth + x.toInt := by
  obtain ⟨⟨hx, hx'⟩, hy, hy'⟩ := h
  have hwidth : (cgaVideoWidth : ℤ) = 320 := rfl
  have hheight : (cgaVideoHeight : ℤ) = 240 := rfl
  have hwidth' : (BitVec.ofNat 32 cgaVideoWidth).toInt = cgaVideoWidth := by decide
  have hmul := fits_mul (a := y) (b := BitVec.ofNat 32 cgaVideoWidth)
    (by rw [hwidth', hwidth]; omega) (by rw [hwidth', hwidth]; omega)
  have hadd := fits_add (a := y * BitVec.ofNat 32 cgaVideoWidth) (b := x)
    (by rw [hmul, hwidth', hwidth]; omega) (by rw [hmul, hwidth', hwidth]; omega)
  rw [hmul, hwidth'] at hadd
  exact hadd

theorem OnScreen.inRange (h : OnScreen x y) : InRange x y := by
  have hidx := h.toInt_pixelIdx
  obtain ⟨⟨hx, hx'⟩, hy, hy'⟩ := h
  have hwidth : (cgaVideoWidth : ℤ) = 320 := rfl
  have hheight : (cgaVideoHeight : ℤ) = 240 := rfl
  rw [inRange_iff, hidx, hwidth]
  omega

theorem OnScreen.toNat_pixelIdx_lt (h : OnScreen x y) : (pixelIdx x y).toNat < 76800 := by
  have hidx := h.toInt_pixelIdx
  rw [← toNat_pixelIdx h.inRange] at hidx
  obtain ⟨⟨hx, hx'⟩, hy, hy'⟩ := h
  have hwidth : (cgaVideoWidth : ℤ) = 320 := rfl
  have hheight : (cgaVideoHeight : ℤ) = 240 := rfl
  rw [hwidth] at hidx
  omega

/-- The index of a pixel of the screen tells which it is. -/
theorem OnScreen.toNat_pixelIdx_eq_iff (h : OnScreen x y) {u v : ℕ} (hu : u < cgaVideoWidth) :
    (pixelIdx x y).toNat = v * cgaVideoWidth + u ↔ x.toInt = u ∧ y.toInt = v := by
  have hidx := h.toInt_pixelIdx
  rw [← toNat_pixelIdx h.inRange] at hidx
  obtain ⟨⟨hx, hx'⟩, hy, hy'⟩ := h
  have hwidth : cgaVideoWidth = 320 := rfl
  rw [hwidth] at hu hidx hx' ⊢
  omega

/-! ## Section 3: One pixel -/

theorem inRange_cond :
    InRange x y ↔
      ¬ ((wordIdx x y).slt 0 ∨ (BitVec.ofNat 32 (cgaFramebufferSize / 4)).slt (wordIdx x y)) := by
  have hzero : (0 : BitVec 32).toInt = 0 := by decide
  have hsize : (BitVec.ofNat 32 (cgaFramebufferSize / 4)).toInt = (cgaFramebufferSize / 4 : ℕ) := by
    decide
  rw [BitVec.slt_iff_toInt_lt, BitVec.slt_iff_toInt_lt, hzero, hsize, InRange, not_or, not_lt,
    not_lt]

theorem cgaDrawPixel_of_not_inRange (color : BitVec 32) (fb : Memory Byte) (h : ¬ InRange x y) :
    cgaDrawPixel color fb x y = fb := by
  rw [inRange_cond, not_not] at h
  exact if_pos h

/-- The offset of the code is the place of the pixel in its word. -/
theorem toNat_pixelOffset (i : BitVec 32) :
    ((15 - (i &&& 0xf)) <<< 1).toNat = cgaPacking.shift i.toNat := by
  have hand : (i &&& 0xf).toNat = i.toNat % 16 := by
    rw [BitVec.toNat_and]
    exact Nat.and_two_pow_sub_one_eq_mod i.toNat 4
  have hshift : cgaPacking.shift i.toNat = (15 - i.toNat % 16) * 2 := rfl
  rw [BitVec.toNat_shiftLeft, BitVec.toNat_sub, hand, hshift, Nat.shiftLeft_eq]
  have hfifteen : (15 : BitVec 32).toNat = 15 := by decide
  rw [hfifteen]
  omega

theorem color_eq (color : BitVec 32) : color &&& 0x03 = (color.setWidth 2).setWidth 32 := by
  apply BitVec.eq_of_toNat_eq
  rw [BitVec.toNat_and, BitVec.toNat_setWidth, BitVec.toNat_setWidth]
  have hand := Nat.and_two_pow_sub_one_eq_mod color.toNat 2
  have hthree : (0x03 : BitVec 32).toNat = 2 ^ 2 - 1 := by decide
  rw [hthree, hand]
  omega

/-- **Step lemma.**  A point in range sets the pixel with its index. -/
theorem cgaWords_cgaDrawPixel (color : BitVec 32) (fb : Memory Byte) (h : InRange x y) :
    cgaWords (cgaDrawPixel color fb x y) =
      cgaPacking.put (cgaWords fb) (pixelIdx x y).toNat (color.setWidth 2) := by
  have hcond := inRange_cond.mp h
  rw [cgaDrawPixel, if_neg hcond]
  dsimp only
  rw [cgaWords_writeWord, toNat_wordIdx h, BitVec.shiftLeft_eq', BitVec.shiftLeft_eq',
    toNat_pixelOffset, color_eq]
  rfl

/-- A point in range changes no byte outside its word. -/
theorem cgaDrawPixel_other (color : BitVec 32) (fb : Memory Byte) (h : InRange x y) {a : ℕ}
    (ha : 4 * ((pixelIdx x y).toNat / 16) + 4 ≤ a) : cgaDrawPixel color fb x y a = fb a := by
  have hcond := inRange_cond.mp h
  rw [cgaDrawPixel, if_neg hcond, toNat_wordIdx h]
  exact Memory.store_of_ge fb _ (by rw [length_leBytes32]; exact ha)

theorem cgaPixel_self (color : BitVec 32) (fb : Memory Byte) (h : InRange x y) :
    cgaPixel (cgaDrawPixel color fb x y) (pixelIdx x y).toNat = color.setWidth 2 := by
  rw [cgaPixel, cgaWords_cgaDrawPixel color fb h]
  exact Packing.pixel_put_self _

theorem cgaPixel_other (color : BitVec 32) (fb : Memory Byte) (h : InRange x y) {i : ℕ}
    (hi : i ≠ (pixelIdx x y).toNat) : cgaPixel (cgaDrawPixel color fb x y) i = cgaPixel fb i := by
  rw [cgaPixel, cgaWords_cgaDrawPixel color fb h]
  exact Packing.pixel_put_of_ne _ hi

/-! ## Section 4: Points -/

/-- A framebuffer in which every pixel has the last colour. -/
def filled : Memory Byte := fun _ => 0xff

theorem extract_ones {s : ℕ} (hs : s + 2 ≤ 32) : (0xffffffff#32).extractLsb' s 2 = 3 := by
  have hone : 0xffffffff#32 = BitVec.allOnes 32 := by decide
  have hthree : (3 : BitVec 2) = BitVec.allOnes 2 := by decide
  apply BitVec.eq_of_getLsbD_eq
  intro j hj
  have hbit : s + j < 32 := by omega
  rw [hone, hthree, BitVec.getLsbD_extractLsb', BitVec.getLsbD_allOnes, BitVec.getLsbD_allOnes,
    decide_eq_true hj, decide_eq_true hbit]
  rfl

theorem cgaPixel_of_ones {fb : Memory Byte} {i : ℕ} (h : cgaWords fb (i / 16) = 0xffffffff) :
    cgaPixel fb i = 3 :=
  (congrArg (fun w : BitVec 32 => w.extractLsb' (cgaPacking.shift i) 2) h).trans
    (extract_ones (cgaPacking.shift_add_bits_le i))

theorem cgaWords_filled (k : ℕ) : cgaWords filled k = 0xffffffff := by
  show be32 0xff 0xff 0xff 0xff = _
  decide

/-- The word behind the framebuffer tells whether something was written there. -/
theorem cgaWords_of_outside {fb fb' : Memory Byte} {k : ℕ} (hk : cgaFramebufferSize / 4 ≤ k)
    (h : ∀ a, cgaFramebufferSize ≤ a → fb' a = fb a) : cgaWords fb' k = cgaWords fb k := by
  have hsize : cgaFramebufferSize = 19200 := rfl
  have hbyte : ∀ i, fb' (4 * k + i) = fb (4 * k + i) := fun i => h _ (by omega)
  have h₀ := hbyte 0
  rw [Nat.add_zero] at h₀
  rw [cgaWords, cgaWords, readWord, readWord, h₀, hbyte 1, hbyte 2, hbyte 3]

/-- A point on the screen writes inside the framebuffer. -/
theorem OnScreen.cgaDrawPixel_outside (h : OnScreen x y) (color : BitVec 32) (fb : Memory Byte)
    {a : ℕ} (ha : cgaFramebufferSize ≤ a) : cgaDrawPixel color fb x y a = fb a := by
  have hidx := h.toNat_pixelIdx_lt
  have hsize : cgaFramebufferSize = 19200 := rfl
  exact cgaDrawPixel_other color fb h.inRange (by omega)

/-- A point that is clipped right changes nothing but its pixel. -/
theorem ClipsRight.pixelRight (h : ClipsRight x y) : PixelRight x y := by
  intro color fb
  rcases h with hscreen | hout
  · refine ⟨fun a ha => hscreen.cgaDrawPixel_outside color fb ha, fun u hu v _ hne => ?_⟩
    by_contra hother
    refine hne (cgaPixel_other color fb hscreen.inRange fun heq => hother ?_)
    exact (hscreen.toNat_pixelIdx_eq_iff hu).mp heq.symm
  · rw [cgaDrawPixel_of_not_inRange color fb hout]
    exact ⟨fun _ _ => rfl, fun _ _ _ _ hne => absurd rfl hne⟩

/-- The pixel of the screen that has an index. -/
theorem screenPixel_of_index (fb : Memory Byte) (i : ℕ) :
    screenPixel fb (i % cgaVideoWidth) (i / cgaVideoWidth) = cgaPixel fb i := by
  rw [screenPixel, Nat.div_add_mod']

theorem index_bounds {i : ℕ} (h : i < 76800) :
    i % cgaVideoWidth < cgaVideoWidth ∧ i / cgaVideoWidth < cgaVideoHeight := by
  have hwidth : cgaVideoWidth = 320 := rfl
  have hheight : cgaVideoHeight = 240 := rfl
  rw [hwidth, hheight]
  omega

/-- Black over the last colour shows what was drawn in the word behind the framebuffer. -/
theorem index_lt_of_outside {fb : Memory Byte} (h : InRange x y)
    (hright : ∀ a, cgaFramebufferSize ≤ a → cgaDrawPixel 0 fb x y a = filled a) :
    (pixelIdx x y).toNat < 76800 := by
  by_contra hge
  have hself := cgaPixel_self 0 fb h
  have hword : cgaFramebufferSize / 4 ≤ (pixelIdx x y).toNat / 16 := by
    have hsize : cgaFramebufferSize / 4 = 4800 := by decide
    omega
  rw [cgaPixel_of_ones ((cgaWords_of_outside hword hright).trans (cgaWords_filled _))] at hself
  exact absurd hself (by decide)

theorem clipsRight_of_pixelRight (h : PixelRight x y) : ClipsRight x y := by
  by_contra hwrong
  rw [ClipsRight, not_or, not_not] at hwrong
  obtain ⟨hoff, hrange⟩ := hwrong
  obtain ⟨hout, hpixels⟩ := h 0 filled
  have hidx := index_lt_of_outside hrange hout
  obtain ⟨hu, hv⟩ := index_bounds hidx
  -- black is drawn on the pixel with the index
  have hself := cgaPixel_self 0 filled hrange
  obtain ⟨hx, hy⟩ := hpixels _ hu _ hv (by
    rw [screenPixel_of_index, screenPixel_of_index, hself,
      cgaPixel_of_ones (cgaWords_filled _)]
    decide)
  exact hoff (onScreen_of_toInt hu hv hx hy)

/-- **Points.**  A point is drawn as it should be exactly if its coordinates clip right. -/
theorem pixelRight_iff : PixelRight x y ↔ ClipsRight x y :=
  ⟨clipsRight_of_pixelRight, ClipsRight.pixelRight⟩

/-! ## Section 5: Lines -/

namespace Line

variable {l : Line}

/-- A pass that is made is the last of the calls so far. -/
theorem loop_succ_of_drawn {σ : Type} (draw : σ → BitVec 32 → BitVec 32 → σ) {n : ℕ} {p : Pen}
    (s : σ) (h : ∀ i < n, ¬ l.AtEnd (l.next^[i] p)) :
    (l.loop draw (n + 1) p s).1 =
      draw (l.loop draw n p s).1 (l.next^[n] p).x (l.next^[n] p).y := by
  induction n generalizing p s with
  | zero =>
    simp only [loop]
    split <;> rfl
  | succ n ih =>
    have hp : ¬ l.AtEnd p := h 0 (Nat.zero_lt_succ n)
    have hrest := ih (p := l.next p) (draw s p.x p.y) fun i hi => h (i + 1) (Nat.succ_lt_succ hi)
    have hnext : ∀ m, l.loop draw (m + 1) p s = l.loop draw m (l.next p) (draw s p.x p.y) :=
      fun m => if_neg hp
    rw [hnext, hnext]
    exact hrest

/-- After the end there are no calls. -/
theorem loop_succ_of_ended {σ : Type} (draw : σ → BitVec 32 → BitVec 32 → σ) {n : ℕ} {p : Pen}
    (s : σ) (h : ¬ ∀ i < n, ¬ l.AtEnd (l.next^[i] p)) :
    (l.loop draw (n + 1) p s).1 = (l.loop draw n p s).1 := by
  induction n generalizing p s with
  | zero => exact absurd (fun i hi => absurd hi (Nat.not_lt_zero i)) h
  | succ n ih =>
    by_cases hp : l.AtEnd p
    · have hlast : ∀ m, l.loop draw (m + 1) p s = (draw s p.x p.y, true) := fun m => if_pos hp
      rw [hlast, hlast]
    · have hnext : ∀ m, l.loop draw (m + 1) p s = l.loop draw m (l.next p) (draw s p.x p.y) :=
        fun m => if_neg hp
      rw [hnext, hnext]
      refine ih _ fun hall => h fun i hi => ?_
      cases i with
      | zero => exact hp
      | succ i => exact hall i (Nat.lt_of_succ_lt_succ hi)

theorem Drawn.of_lt {i k : ℕ} (h : l.Drawn k) (hi : i < k) : l.Drawn i :=
  fun j hj => h j (hj.trans hi)

theorem passes_succ {n u v : ℕ} :
    l.Passes (n + 1) u v ↔
      l.Passes n u v ∨ l.Drawn n ∧ (l.pen n).x.toInt = u ∧ (l.pen n).y.toInt = v := by
  constructor
  · rintro ⟨k, hk, hdrawn, hpoint⟩
    rcases Nat.lt_succ_iff_lt_or_eq.mp hk with hlt | rfl
    · exact Or.inl ⟨k, hlt, hdrawn, hpoint⟩
    · exact Or.inr ⟨hdrawn, hpoint⟩
  · rintro (⟨k, hk, hpasses⟩ | hlast)
    · exact ⟨k, Nat.lt_succ_of_lt hk, hpasses⟩
    · exact ⟨n, Nat.lt_succ_self n, hlast⟩

/-- What the framebuffer is to be after `n` passes. -/
structure Shows (l : Line) (color : BitVec 32) (fb : Memory Byte) (n : ℕ) (fb' : Memory Byte) :
    Prop where
  outside : ∀ a, cgaFramebufferSize ≤ a → fb' a = fb a
  drawn : ∀ u < cgaVideoWidth, ∀ v < cgaVideoHeight, l.Passes n u v →
    screenPixel fb' u v = color.setWidth 2
  kept : ∀ u < cgaVideoWidth, ∀ v < cgaVideoHeight, ¬ l.Passes n u v →
    screenPixel fb' u v = screenPixel fb u v

variable {color : BitVec 32} {fb fb' : Memory Byte} {n : ℕ}

theorem Shows.of_same (h : l.Shows color fb n fb')
    (hsame : ∀ u < cgaVideoWidth, ∀ v < cgaVideoHeight, l.Passes (n + 1) u v ↔ l.Passes n u v) :
    l.Shows color fb (n + 1) fb' where
  outside := h.outside
  drawn u hu v hv hp := h.drawn u hu v hv ((hsame u hu v hv).mp hp)
  kept u hu v hv hp := h.kept u hu v hv (mt (hsame u hu v hv).mpr hp)

/-- A point off the screen adds nothing to what is to be drawn. -/
theorem passes_succ_of_off (hoff : ¬ OnScreen (l.pen n).x (l.pen n).y) (u : ℕ)
    (hu : u < cgaVideoWidth) (v : ℕ) (hv : v < cgaVideoHeight) :
    l.Passes (n + 1) u v ↔ l.Passes n u v := by
  rw [passes_succ, or_iff_left]
  rintro ⟨-, hx, hy⟩
  exact hoff (onScreen_of_toInt hu hv hx hy)

/-- **Step lemma.**  A point on the screen. -/
theorem Shows.onScreen (h : l.Shows color fb n fb') (hdrawn : l.Drawn n)
    (hscreen : OnScreen (l.pen n).x (l.pen n).y) :
    l.Shows color fb (n + 1) (cgaDrawPixel color fb' (l.pen n).x (l.pen n).y) := by
  have hself := cgaPixel_self color fb' hscreen.inRange
  have hindex : ∀ {u v : ℕ}, u < cgaVideoWidth →
      ((pixelIdx (l.pen n).x (l.pen n).y).toNat = v * cgaVideoWidth + u ↔
        (l.pen n).x.toInt = u ∧ (l.pen n).y.toInt = v) := fun hu => hscreen.toNat_pixelIdx_eq_iff hu
  refine ⟨fun a ha => ?_, fun u hu v hv hp => ?_, fun u hu v hv hp => ?_⟩
  · rw [hscreen.cgaDrawPixel_outside color fb' ha]
    exact h.outside a ha
  · by_cases hpoint : (l.pen n).x.toInt = u ∧ (l.pen n).y.toInt = v
    · rw [screenPixel, ← (hindex hu).mpr hpoint]
      exact hself
    · have hbefore := (passes_succ.mp hp).resolve_right fun hlast => hpoint hlast.2
      rw [screenPixel, cgaPixel_other color fb' hscreen.inRange fun heq =>
        hpoint ((hindex hu).mp heq.symm)]
      exact h.drawn u hu v hv hbefore
  · rw [passes_succ, not_or] at hp
    rw [screenPixel, cgaPixel_other color fb' hscreen.inRange fun heq =>
      hp.2 ⟨hdrawn, (hindex hu).mp heq.symm⟩]
    exact h.kept u hu v hv hp.1

/-- **Step lemma.**  A point with the index of a pixel that has been drawn. -/
theorem Shows.redraw (h : l.Shows color fb n fb') (hdrawn : l.Drawn n)
    (hoff : ¬ OnScreen (l.pen n).x (l.pen n).y) {i : ℕ} (hi : i < n)
    (hscreen : OnScreen (l.pen i).x (l.pen i).y)
    (hindex : pixelIdx (l.pen i).x (l.pen i).y = pixelIdx (l.pen n).x (l.pen n).y) :
    l.Shows color fb (n + 1) (cgaDrawPixel color fb' (l.pen n).x (l.pen n).y) := by
  -- what a point does depends on its index only, so this pass repeats an earlier one
  have hrange : InRange (l.pen n).x (l.pen n).y := by
    rw [inRange_iff, ← hindex, ← inRange_iff]
    exact hscreen.inRange
  have hsame : ∀ j, cgaPixel (cgaDrawPixel color fb' (l.pen n).x (l.pen n).y) j =
      if j = (pixelIdx (l.pen i).x (l.pen i).y).toNat then color.setWidth 2
      else cgaPixel fb' j := by
    intro j
    rw [hindex]
    by_cases hj : j = (pixelIdx (l.pen n).x (l.pen n).y).toNat
    · rw [if_pos hj, hj]
      exact cgaPixel_self color fb' hrange
    · rw [if_neg hj]
      exact cgaPixel_other color fb' hrange hj
  refine ⟨fun a ha => ?_, fun u hu v hv hp => ?_, fun u hu v hv hp => ?_⟩
  · have hidx := hscreen.toNat_pixelIdx_lt
    have hsize : cgaFramebufferSize = 19200 := rfl
    rw [hindex] at hidx
    rw [cgaDrawPixel_other color fb' hrange (by omega)]
    exact h.outside a ha
  · rw [passes_succ_of_off hoff u hu v hv] at hp
    rw [screenPixel, hsame]
    split
    · rfl
    · exact h.drawn u hu v hv hp
  · rw [passes_succ_of_off hoff u hu v hv] at hp
    rw [screenPixel, hsame, if_neg]
    · exact h.kept u hu v hv hp
    · intro heq
      exact hp ⟨i, hi, hdrawn.of_lt hi, (hscreen.toNat_pixelIdx_eq_iff hu).mp heq.symm⟩

/-- **Run lemma.**  The passes so far show exactly the points of the line that are on the screen.
-/
theorem ClipsRight.shows (h : l.ClipsRight) (color : BitVec 32) (fb : Memory Byte) (n : ℕ) :
    l.Shows color fb n (cgaDrawLine l color n fb).1 := by
  induction n with
  | zero =>
    refine ⟨fun _ _ => rfl, ?_, fun _ _ _ _ _ => rfl⟩
    rintro u - v - ⟨k, hk, -⟩
    exact absurd hk (Nat.not_lt_zero k)
  | succ n ih =>
    by_cases hdrawn : l.Drawn n
    · have hloop : (cgaDrawLine l color (n + 1) fb).1 =
          cgaDrawPixel color (cgaDrawLine l color n fb).1 (l.pen n).x (l.pen n).y :=
        loop_succ_of_drawn _ fb hdrawn
      rw [hloop]
      by_cases hscreen : OnScreen (l.pen n).x (l.pen n).y
      · exact ih.onScreen hdrawn hscreen
      · rcases h n hdrawn with (hon | hout) | ⟨i, hi, hscreen', hindex⟩
        · exact absurd hon hscreen
        · rw [cgaDrawPixel_of_not_inRange _ _ hout]
          exact ih.of_same (passes_succ_of_off hscreen)
        · exact ih.redraw hdrawn hscreen hi hscreen' hindex
    · have hloop : (cgaDrawLine l color (n + 1) fb).1 = (cgaDrawLine l color n fb).1 :=
        loop_succ_of_ended _ fb hdrawn
      rw [hloop]
      exact ih.of_same fun u _ v _ => by
        rw [passes_succ, or_iff_left fun hlast => hdrawn hlast.1]

theorem drawsRight_iff_shows :
    l.DrawsRight ↔ ∀ color fb n, l.Shows color fb n (cgaDrawLine l color n fb).1 := by
  refine forall_congr' fun color => forall_congr' fun fb => forall_congr' fun n => ?_
  constructor
  · rintro ⟨houtside, hpixels⟩
    exact ⟨houtside, fun u hu v hv => (hpixels u hu v hv).1, fun u hu v hv => (hpixels u hu v hv).2⟩
  · rintro ⟨houtside, hdrawn, hkept⟩
    exact ⟨houtside, fun u hu v hv => ⟨hdrawn u hu v hv, hkept u hu v hv⟩⟩

theorem clipsRight_of_drawsRight (h : l.DrawsRight) : l.ClipsRight := by
  rw [drawsRight_iff_shows] at h
  intro k hdrawn
  by_contra hwrong
  rw [Drawing.ClipsRight, not_or, not_or, not_not] at hwrong
  obtain ⟨⟨hoff, hrange⟩, hnew⟩ := hwrong
  have hloop : (cgaDrawLine l 0 (k + 1) filled).1 =
      cgaDrawPixel 0 (cgaDrawLine l 0 k filled).1 (l.pen k).x (l.pen k).y :=
    loop_succ_of_drawn _ filled hdrawn
  have hshows := h 0 filled (k + 1)
  rw [hloop] at hshows
  have hidx := index_lt_of_outside hrange hshows.outside
  obtain ⟨hu, hv⟩ := index_bounds hidx
  have hself := cgaPixel_self 0 (cgaDrawLine l 0 k filled).1 hrange
  rw [← screenPixel_of_index] at hself
  -- black on the screen must have been drawn by a point of the line
  by_cases hp : l.Passes (k + 1) ((pixelIdx (l.pen k).x (l.pen k).y).toNat % cgaVideoWidth)
      ((pixelIdx (l.pen k).x (l.pen k).y).toNat / cgaVideoWidth)
  · rw [passes_succ_of_off hoff _ hu _ hv] at hp
    obtain ⟨i, hi, -, hx, hy⟩ := hp
    have hscreen : OnScreen (l.pen i).x (l.pen i).y := onScreen_of_toInt hu hv hx hy
    refine hnew ⟨i, hi, hscreen, BitVec.eq_of_toNat_eq ?_⟩
    rw [(hscreen.toNat_pixelIdx_eq_iff hu).mpr ⟨hx, hy⟩, Nat.div_add_mod']
  · have hkept := hshows.kept _ hu _ hv hp
    rw [hself, screenPixel_of_index, cgaPixel_of_ones (cgaWords_filled _)] at hkept
    exact absurd hkept (by decide)

/-- **Lines.**  A line is drawn as it should be exactly if all its points clip right. -/
theorem drawsRight_iff : l.DrawsRight ↔ l.ClipsRight :=
  ⟨clipsRight_of_drawsRight, fun h => drawsRight_iff_shows.mpr h.shows⟩

end Line

/-- **Clipping.**  Which points and which lines change what is on the screen as they should. -/
theorem clipping_iff (x y : BitVec 32) (l : Line) :
    (PixelRight x y ↔ ClipsRight x y) ∧ (l.DrawsRight ↔ l.ClipsRight) :=
  ⟨pixelRight_iff, Line.drawsRight_iff⟩

/-- The point to the left of the second row is drawn at the end of the first row. -/
theorem not_pixelRight_left : ¬ ∀ x y, PixelRight x y := by
  intro h
  rcases pixelRight_iff.mp (h (-1) 1) with ⟨⟨hx, -⟩, -⟩ | hout
  · exact absurd hx (by decide)
  · exact hout ⟨by decide, by decide⟩

end Karnix.Video.Drawing
