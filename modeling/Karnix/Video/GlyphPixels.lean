import Karnix.Library.PackedPixels
import Karnix.Video.Glyph

/-!
# What drawing a glyph changes

`cga_video_print_char` and `hub_print_char` walk over the glyph box in bands of eight lines
and pack every pixel into its word themselves.  Here the framebuffers are read as pixels: two
bits in the CGA framebuffer, one bit and one byte in the framebuffers of the HUB matrices,
whose words lie in memory with their bytes turned round.  A character is then exactly what a
reader of the font expects: the pixels of the glyph box inside the frame take the ink of
their font bit, once, and every other pixel of memory is what it was.
-/

namespace Karnix.Video

open Karnix.Library

/-! ## Section 1: Framebuffers as words -/

theorem be32_parts (w : BitVec 32) :
    be32 ((w >>> 24).setWidth 8) ((w >>> 16).setWidth 8) ((w >>> 8).setWidth 8) (w.setWidth 8)
      = w := by
  apply BitVec.eq_of_getLsbD_eq
  intro i hi
  simp only [be32, BitVec.getLsbD_or, BitVec.getLsbD_shiftLeft, BitVec.getLsbD_setWidth,
    BitVec.getLsbD_ushiftRight]
  interval_cases i <;> simp

theorem readWord_writeWord (fb : Memory Byte) (a : ℕ) (w : BitVec 32) :
    readWord (writeWord fb a w) a = w := by
  have hbyte : ∀ i, ∀ h : i < 4, writeWord fb a w (a + i) = (leBytes32 w)[i] :=
    fun i h => Memory.store_getElem fb a i (leBytes32 w) h
  have h₀ := hbyte 0 (by decide)
  rw [Nat.add_zero] at h₀
  rw [readWord, h₀, hbyte 1 (by decide), hbyte 2 (by decide), hbyte 3 (by decide)]
  exact be32_parts w

theorem readWord_writeWord_of_ne (fb : Memory Byte) {a b : ℕ} (h : b + 4 ≤ a ∨ a + 4 ≤ b)
    (w : BitVec 32) : readWord (writeWord fb a w) b = readWord fb b := by
  have hbyte : ∀ i, i < 4 → writeWord fb a w (b + i) = fb (b + i) := by
    intro i hi
    rcases h with h | h
    · exact Memory.store_of_lt fb _ (by omega)
    · exact Memory.store_of_ge fb _ (by rw [length_leBytes32]; omega)
  have h₀ := hbyte 0 (by decide)
  rw [Nat.add_zero] at h₀
  rw [readWord, readWord, h₀, hbyte 1 (by decide), hbyte 2 (by decide), hbyte 3 (by decide)]

theorem swap32_swap32 (w : BitVec 32) : swap32 (swap32 w) = w := by
  apply BitVec.eq_of_getLsbD_eq
  intro i hi
  simp only [swap32, be32, BitVec.getLsbD_or, BitVec.getLsbD_shiftLeft, BitVec.getLsbD_setWidth,
    BitVec.getLsbD_ushiftRight]
  interval_cases i <;> simp

/-- The words of the CGA framebuffer. -/
def cgaWords (fb : Memory Byte) (k : ℕ) : BitVec 32 := readWord fb (4 * k)

/-- The words of a HUB framebuffer, as the code turns them round. -/
def hubWords (fb : Memory Byte) (k : ℕ) : BitVec 32 := swap32 (readWord fb (4 * k))

theorem cgaWords_writeWord (fb : Memory Byte) (k : ℕ) (w : BitVec 32) :
    cgaWords (writeWord fb (4 * k) w) = Function.update (cgaWords fb) k w := by
  funext j
  by_cases h : j = k
  · subst h
    rw [cgaWords, Function.update_self, readWord_writeWord]
  · rw [cgaWords, Function.update_of_ne h, readWord_writeWord_of_ne fb (by omega), cgaWords]

theorem hubWords_writeWord (fb : Memory Byte) (k : ℕ) (w : BitVec 32) :
    hubWords (writeWord fb (4 * k) (swap32 w)) = Function.update (hubWords fb) k w := by
  funext j
  by_cases h : j = k
  · subst h
    rw [hubWords, Function.update_self, readWord_writeWord, swap32_swap32]
  · rw [hubWords, Function.update_of_ne h, readWord_writeWord_of_ne fb (by omega), hubWords]

/-! ## Section 2: One pixel -/

/-- Sixteen pixels of two bits fill a word of the CGA framebuffer. -/
def cgaPacking : Packing := ⟨2, 16, rfl⟩

/-- Thirty-two pixels fill a word for a matrix of type 12. -/
def hub12Packing : Packing := ⟨1, 32, rfl⟩

/-- Four pixels fill a word for a matrix of type 75. -/
def hub75Packing : Packing := ⟨8, 4, rfl⟩

/-- The colour of a pixel of the CGA framebuffer. -/
def cgaPixel (fb : Memory Byte) (i : ℕ) : BitVec 2 := cgaPacking.pixel (cgaWords fb) i

/-- A pixel of a matrix of type 12. -/
def hub12Pixel (fb : Memory Byte) (i : ℕ) : BitVec 1 := hub12Packing.pixel (hubWords fb) i

/-- A pixel of a matrix of type 75. -/
def hub75Pixel (fb : Memory Byte) (i : ℕ) : Byte := hub75Packing.pixel (hubWords fb) i

/-- What a pixel of the CGA framebuffer becomes: bits 0 and 1 of the colours are the colour of
the glyph, bits 4 and 5 that of the background, bits 3 and 7 ask for or-ing. -/
def cgaInk (colors : Byte) (lit : Bool) (old : BitVec 2) : BitVec 2 :=
  let color := if lit then (colors &&& 0x3).setWidth 2 else (colors >>> 4 &&& 0x3).setWidth 2
  let flag := if lit then colors &&& 0x08 else colors &&& 0x80
  if flag = 0 then color else old ||| color

/-- What a pixel of a matrix of type 12 becomes. -/
def hub12Ink (lit : Bool) (_old : BitVec 1) : BitVec 1 := if lit then 1 else 0

/-- What a pixel of a matrix of type 75 becomes. -/
def hub75Ink (color : Byte) (lit : Bool) (_old : Byte) : Byte := if lit then color else 0

/-- `draw` gives the pixel at a position the ink of the font bit and touches no other. -/
structure Inks {α : Type} (pixel : Memory Byte → ℕ → α) (ink : Bool → α → α) (frame : Frame)
    (draw : Memory Byte → ℕ → ℕ → Bool → Memory Byte) : Prop where
  self : ∀ fb x y lit, pixel (draw fb x y lit) (y * frame.width + x)
    = ink lit (pixel fb (y * frame.width + x))
  other : ∀ fb x y lit i, i ≠ y * frame.width + x → pixel (draw fb x y lit) i = pixel fb i

/-- A two-bit colour of the code, moved to its pixel, is the field with the colour. -/
theorem fieldValue_color (b : Byte) (i : ℕ) :
    (b &&& 0x3).setWidth 32 <<< ((15 - i % 16) * 2)
      = fieldValue ((b &&& 0x3).setWidth 2 : BitVec 2) (cgaPacking.shift i) := by
  have hsmall : (b &&& 0x3).setWidth 32 = ((b &&& 0x3).setWidth 2 : BitVec 2).setWidth 32 := by
    revert b
    decide
  rw [hsmall]
  rfl

/-- The word of a pixel after `cgaDrawPixel`. -/
def cgaWord (colors : Byte) (lit : Bool) (i : ℕ) (w : BitVec 32) : BitVec 32 :=
  let color := if lit then (colors &&& 0x3).setWidth 2 else (colors >>> 4 &&& 0x3).setWidth 2
  let flag := if lit then colors &&& 0x08 else colors &&& 0x80
  cgaPacking.merge i color (if flag = 0 then cgaPacking.clear i w else w)

theorem cgaDrawPixel_eq (colors : Byte) (frame : Frame) (fb : Memory Byte) (x y : ℕ)
    (lit : Bool) :
    cgaDrawPixel colors frame fb x y lit
      = writeWord fb (4 * ((y * frame.width + x) / 16))
          (cgaWord colors lit (y * frame.width + x)
            (cgaWords fb ((y * frame.width + x) / 16))) := by
  cases lit with
  | true =>
    simp only [cgaDrawPixel, if_true, fieldValue_color]
    rfl
  | false =>
    simp only [cgaDrawPixel, Bool.false_eq_true, if_false, fieldValue_color]
    rfl

theorem local_cgaWord (colors : Byte) (lit : Bool) (i : ℕ) :
    cgaPacking.Local i (cgaWord colors lit i) := by
  intro j w hword hne
  by_cases hflag : (if lit then colors &&& 0x08 else colors &&& 0x80) = 0
  · simp only [cgaWord, if_pos hflag]
    exact (Packing.local_merge _ _ _).comp (Packing.local_clear _ _) j w hword hne
  · simp only [cgaWord, if_neg hflag]
    exact Packing.local_merge _ _ _ j w hword hne

/-- **Step lemma.**  One pixel of the CGA framebuffer. -/
theorem cgaDrawPixel_inks (colors : Byte) (frame : Frame) :
    Inks cgaPixel (cgaInk colors) frame (cgaDrawPixel colors frame) := by
  constructor
  case self =>
    intro fb x y lit
    rw [cgaDrawPixel_eq, cgaPixel, cgaWords_writeWord]
    refine (Packing.pixel_update_self _).trans ?_
    by_cases hflag : (if lit then colors &&& 0x08 else colors &&& 0x80) = 0
    · simp only [cgaWord, cgaInk, if_pos hflag]
      exact Packing.extract_merge_clear _ _
    · simp only [cgaWord, cgaInk, if_neg hflag]
      exact Packing.extract_merge_self _ _
  case other =>
    intro fb x y lit i hne
    rw [cgaDrawPixel_eq, cgaPixel, cgaWords_writeWord]
    exact (local_cgaWord colors lit (y * frame.width + x)).pixel_update hne

/-! ### HUB matrices -/

/-- The word of a pixel of a matrix of type 12 after `hubDrawPixel`. -/
def hub12Word (lit : Bool) (i : ℕ) (w : BitVec 32) : BitVec 32 :=
  if lit then hub12Packing.merge i 1 w else hub12Packing.clear i w

/-- The word of a pixel of a matrix of type 75 after `hubDrawPixel`. -/
def hub75Word (color : Byte) (lit : Bool) (i : ℕ) (w : BitVec 32) : BitVec 32 :=
  if lit then hub75Packing.merge i color (hub75Packing.clear i w) else hub75Packing.clear i w

theorem hub12_shift (i : ℕ) : hub12Packing.shift i = 31 - i % 32 := by
  rw [Packing.shift]
  exact Nat.mul_one _

/-- The bit of the code is its pixel with a one. -/
theorem hub12_value (i : ℕ) :
    1#32 <<< (31 - i % 32) = fieldValue (1 : BitVec 1) (hub12Packing.shift i) := by
  have hone : (1 : BitVec 1).setWidth 32 = 1#32 := by decide
  rw [fieldValue, hone, hub12_shift]

/-- The bit of the code is the mask of its pixel. -/
theorem hub12_mask (i : ℕ) :
    1#32 <<< (31 - i % 32) = fieldMask 1 (hub12Packing.shift i) := by
  have hone : (BitVec.allOnes 1).setWidth 32 = 1#32 := by decide
  rw [fieldMask, hone, hub12_shift]

theorem hub12DrawPixel_eq (color : Byte) (frame : Frame) (fb : Memory Byte) (x y : ℕ)
    (lit : Bool) :
    hubDrawPixel 12 color frame fb x y lit
      = writeWord fb (4 * ((y * frame.width + x) / 32))
          (swap32 (hub12Word lit (y * frame.width + x)
            (hubWords fb ((y * frame.width + x) / 32)))) := by
  cases lit with
  | true =>
    simp only [hubDrawPixel, if_true, hub12_value]
    rfl
  | false =>
    simp only [hubDrawPixel, Bool.false_eq_true, if_false, if_true, hub12_mask]
    rfl

theorem hub75DrawPixel_eq (color : Byte) (frame : Frame) (fb : Memory Byte) (x y : ℕ)
    (lit : Bool) :
    hubDrawPixel 75 color frame fb x y lit
      = writeWord fb (4 * ((y * frame.width + x) / 4))
          (swap32 (hub75Word color lit (y * frame.width + x)
            (hubWords fb ((y * frame.width + x) / 4)))) := by
  have htype : ¬ 75 = 12 := by decide
  cases lit with
  | true =>
    simp only [hubDrawPixel, if_neg htype, if_true]
    rfl
  | false =>
    simp only [hubDrawPixel, if_neg htype, Bool.false_eq_true, if_false, if_true]
    rfl

theorem local_hub12Word (lit : Bool) (i : ℕ) : hub12Packing.Local i (hub12Word lit i) := by
  cases lit with
  | true => exact Packing.local_merge _ _ _
  | false => exact Packing.local_clear _ _

theorem local_hub75Word (color : Byte) (lit : Bool) (i : ℕ) :
    hub75Packing.Local i (hub75Word color lit i) := by
  cases lit with
  | true => exact (Packing.local_merge _ _ _).comp (Packing.local_clear _ _)
  | false => exact Packing.local_clear _ _

/-- **Step lemma.**  One pixel of a matrix of type 12. -/
theorem hub12DrawPixel_inks (color : Byte) (frame : Frame) :
    Inks hub12Pixel hub12Ink frame (hubDrawPixel 12 color frame) := by
  constructor
  case self =>
    intro fb x y lit
    rw [hub12DrawPixel_eq, hub12Pixel, hubWords_writeWord]
    refine (Packing.pixel_update_self _).trans ?_
    cases lit with
    | true =>
      -- or-ing a one to a single bit leaves a one, whatever it was
      have hone : ∀ b : BitVec 1, b ||| 1 = 1 := by decide
      exact (Packing.extract_merge_self _ _).trans (hone _)
    | false => exact Packing.extract_clear_self _
  case other =>
    intro fb x y lit i hne
    rw [hub12DrawPixel_eq, hub12Pixel, hubWords_writeWord]
    exact (local_hub12Word lit (y * frame.width + x)).pixel_update hne

/-- **Step lemma.**  One pixel of a matrix of type 75. -/
theorem hub75DrawPixel_inks (color : Byte) (frame : Frame) :
    Inks hub75Pixel (hub75Ink color) frame (hubDrawPixel 75 color frame) := by
  constructor
  case self =>
    intro fb x y lit
    rw [hub75DrawPixel_eq, hub75Pixel, hubWords_writeWord]
    refine (Packing.pixel_update_self _).trans ?_
    cases lit with
    | true => exact Packing.extract_merge_clear _ _
    | false => exact Packing.extract_clear_self _
  case other =>
    intro fb x y lit i hne
    rw [hub75DrawPixel_eq, hub75Pixel, hubWords_writeWord]
    exact (local_hub75Word color lit (y * frame.width + x)).pixel_update hne

/-! ## Section 3: The glyph box -/

/-- The font bit of a glyph pixel, counted from the upper left corner of the glyph. -/
def Font.lit (font : Font) (c : Byte) (col row : ℕ) : Bool :=
  (font.column c (row / 8) col).getLsbD (row % 8)

/-- The pixels of the glyph box (column and row) in the order in which they are drawn. -/
def Font.box (font : Font) : List (ℕ × ℕ) :=
  (List.range font.lines).flatMap fun line =>
    (List.range font.width).flatMap fun col =>
      (List.range (min 8 (font.height - line * 8))).map fun bit => (col, line * 8 + bit)

/-- The pass of the loops for one pixel of the glyph box. -/
def drawBoxPixel (draw : Memory Byte → ℕ → ℕ → Bool → Memory Byte) (frame : Frame) (font : Font)
    (c : Byte) (x y : ℤ) (fb : Memory Byte) (p : ℕ × ℕ) : Memory Byte :=
  if (0 ≤ x + p.1 ∧ x + p.1 < frame.width) ∧ 0 ≤ y + p.2 ∧ y + p.2 < frame.height then
    draw fb (x + p.1).toNat (y + p.2).toNat (font.lit c p.1 p.2)
  else fb

/-- The nested loops draw the pixels of the glyph box one after the other. -/
theorem printChar_eq (draw : Memory Byte → ℕ → ℕ → Bool → Memory Byte) (frame : Frame)
    (font : Font) (c : Byte) (x y : ℤ) (fb : Memory Byte) :
    printChar draw frame font c x y fb
      = font.box.foldl (drawBoxPixel draw frame font c x y) fb := by
  simp only [printChar, Font.box, List.foldl_flatMap, List.foldl_map]
  congr 1
  funext fb line
  congr 1
  funext fb col
  by_cases hx : 0 ≤ x + col ∧ x + col < frame.width
  · rw [if_pos hx]
    apply List.foldl_ext
    intro fb bit hbit
    -- a bit of a band lies in the line that the band and the bit say
    have hbit8 : bit < 8 := by
      have := List.mem_range.mp hbit
      omega
    have hdiv : (line * 8 + bit) / 8 = line := by omega
    have hmod : (line * 8 + bit) % 8 = bit := by omega
    have hcast : y + ((line * 8 + bit : ℕ) : ℤ) = y + line * 8 + bit := by
      omega
    simp only [drawBoxPixel, hx, true_and, and_self, Font.lit, hdiv, hmod, hcast]
  · rw [if_neg hx]
    symm
    refine List.foldl_fixed' ?_ _
    intro bit
    exact if_neg fun h => hx h.1

/-- A pixel lies in the box exactly if it lies in the glyph. -/
theorem Font.mem_box {font : Font} {p : ℕ × ℕ} :
    p ∈ font.box ↔ p.1 < font.width ∧ p.2 < font.height := by
  obtain ⟨col, row⟩ := p
  simp only [Font.box, List.mem_flatMap, List.mem_map, List.mem_range, Prod.mk.injEq]
  have hlines : font.height ≤ font.lines * 8 := by
    rw [Font.lines]
    split_ifs <;> omega
  constructor
  · rintro ⟨line, hline, col', hcol, bit, hbit, rfl, rfl⟩
    exact ⟨hcol, by omega⟩
  · rintro ⟨hcol, hrow⟩
    exact ⟨row / 8, by omega, col, hcol, row % 8, by omega, rfl, by omega⟩

/-- No pixel is drawn twice. -/
theorem Font.nodup_box (font : Font) : font.box.Nodup := by
  refine List.nodup_flatMap.mpr ⟨?_, ?_⟩
  · intro line _
    refine List.nodup_flatMap.mpr ⟨?_, ?_⟩
    · intro col _
      refine List.Nodup.map ?_ List.nodup_range
      intro bit bit' h
      have hrow := congrArg Prod.snd h
      exact Nat.add_left_cancel hrow
    · -- two columns share no pixel
      refine List.nodup_range.pairwise_of_forall_ne ?_
      intro col _ col' _ hne p hp hp'
      obtain ⟨bit, -, rfl⟩ := List.mem_map.mp hp
      obtain ⟨bit', -, heq⟩ := List.mem_map.mp hp'
      exact hne (congrArg Prod.fst heq).symm
  · -- two bands share no line
    refine List.nodup_range.pairwise_of_forall_ne ?_
    intro line _ line' _ hne p hp hp'
    obtain ⟨col, -, hcol⟩ := List.mem_flatMap.mp hp
    obtain ⟨col', -, hcol'⟩ := List.mem_flatMap.mp hp'
    obtain ⟨bit, hbit, rfl⟩ := List.mem_map.mp hcol
    obtain ⟨bit', hbit', heq⟩ := List.mem_map.mp hcol'
    have hrow := congrArg Prod.snd heq
    rw [List.mem_range] at hbit hbit'
    apply hne
    simp only at hrow
    omega

/-! ## Section 4: What is to be seen -/

/-- The font bit a glyph at `(x, y)` has for the pixel `(px, py)` of the frame, if its box
covers the pixel. -/
def Font.at (font : Font) (c : Byte) (x y : ℤ) (px py : ℕ) : Option Bool :=
  if (x ≤ px ∧ px < x + font.width) ∧ y ≤ py ∧ py < y + font.height then
    some (font.lit c (px - x).toNat (py - y).toNat)
  else none

/-- The framebuffer `fb'` is `fb` with the glyph drawn at `(x, y)`: in the frame every pixel
that the glyph box covers has taken the ink of its font bit, and every other pixel of the
memory is what it was. -/
structure DrawnOver {α : Type} (pixel : Memory Byte → ℕ → α) (ink : Bool → α → α)
    (frame : Frame) (font : Font) (c : Byte) (x y : ℤ) (fb fb' : Memory Byte) : Prop where
  inside : ∀ px py, px < frame.width → py < frame.height →
    pixel fb' (py * frame.width + px)
      = (font.at c x y px py).elim (pixel fb (py * frame.width + px))
          (fun lit => ink lit (pixel fb (py * frame.width + px)))
  outside : ∀ i, frame.width * frame.height ≤ i → pixel fb' i = pixel fb i

/-- The pixels of a frame have different places. -/
theorem place_injective {w px py qx qy : ℕ} (hp : px < w) (hq : qx < w)
    (h : py * w + px = qy * w + qx) : px = qx ∧ py = qy := by
  have hmod := congrArg (· % w) h
  simp only [Nat.mul_add_mod_self_right, Nat.mod_eq_of_lt hp, Nat.mod_eq_of_lt hq] at hmod
  subst hmod
  have hmul : py * w = qy * w := Nat.add_right_cancel h
  exact ⟨rfl, Nat.eq_of_mul_eq_mul_right (Nat.zero_lt_of_lt hp) hmul⟩

section Glyph

variable {α : Type} {pixel : Memory Byte → ℕ → α} {ink : Bool → α → α} {frame : Frame}
  {draw : Memory Byte → ℕ → ℕ → Bool → Memory Byte} {font : Font} {c : Byte} {x y : ℤ}

/-- A pass touches only the place of its pixel in the frame. -/
theorem drawBoxPixel_other (h : Inks pixel ink frame draw) {i : ℕ} {p : ℕ × ℕ}
    (hi : ∀ px py : ℕ, px < frame.width → py < frame.height → (px : ℤ) = x + p.1 →
      (py : ℤ) = y + p.2 → i ≠ py * frame.width + px) (fb : Memory Byte) :
    pixel (drawBoxPixel draw frame font c x y fb p) i = pixel fb i := by
  by_cases hin : (0 ≤ x + p.1 ∧ x + p.1 < frame.width) ∧ 0 ≤ y + p.2 ∧ y + p.2 < frame.height
  · rw [drawBoxPixel, if_pos hin]
    apply h.other
    exact hi _ _ (by omega) (by omega) (Int.toNat_of_nonneg hin.1.1)
      (Int.toNat_of_nonneg hin.2.1)
  · rw [drawBoxPixel, if_neg hin]

/-- **Run lemma.**  Code that inks one pixel at a time draws exactly the glyph. -/
theorem printChar_drawnOver (h : Inks pixel ink frame draw) (fb : Memory Byte) :
    DrawnOver pixel ink frame font c x y fb (printChar draw frame font c x y fb) := by
  rw [printChar_eq]
  constructor
  case inside =>
    intro px py hpx hpy
    by_cases hcover : (x ≤ px ∧ px < x + font.width) ∧ y ≤ py ∧ py < y + font.height
    · rw [Font.at, if_pos hcover, Option.elim_some]
      -- one pixel of the box is drawn here, and only in its own pass
      have hmem : ((px - x).toNat, (py - y).toNat) ∈ font.box :=
        Font.mem_box.mpr ⟨by omega, by omega⟩
      have hx : x + ((px - x).toNat : ℤ) = px := by omega
      have hy : y + ((py - y).toNat : ℤ) = py := by omega
      refine foldl_once font.nodup_box hmem ?_ ?_ fb
      · intro fb
        have hin : (0 ≤ x + ((px - x).toNat : ℤ) ∧ x + ((px - x).toNat : ℤ) < frame.width)
            ∧ 0 ≤ y + ((py - y).toNat : ℤ) ∧ y + ((py - y).toNat : ℤ) < frame.height := by
          omega
        rw [drawBoxPixel, if_pos hin, hx, hy]
        exact h.self fb px py _
      · intro fb p _ hne
        refine drawBoxPixel_other h ?_ fb
        intro qx qy hqx hqy hx' hy' heq
        obtain ⟨rfl, rfl⟩ := place_injective hpx hqx heq
        apply hne
        apply Prod.ext
        · change p.1 = (px - x).toNat
          omega
        · change p.2 = (py - y).toNat
          omega
    · rw [Font.at, if_neg hcover, Option.elim_none]
      refine foldl_untouched (fun fb p hp => drawBoxPixel_other h ?_ fb) fb
      intro qx qy hqx hqy hx' hy' heq
      obtain ⟨rfl, rfl⟩ := place_injective hpx hqx heq
      have hbox := Font.mem_box.mp hp
      omega
  case outside =>
    intro i hi
    refine foldl_untouched (fun fb p _ => drawBoxPixel_other h ?_ fb) fb
    intro qx qy hqx hqy _ _ heq
    -- the places of the frame end before `i`
    have hrow : (qy + 1) * frame.width ≤ frame.height * frame.width :=
      Nat.mul_le_mul_right _ hqy
    rw [Nat.succ_mul] at hrow
    rw [Nat.mul_comm] at hi
    omega

end Glyph

/-- `cga_video_print_char` and `hub_print_char` draw exactly the glyph, clipped to the frame,
for every character, position, font, colour byte and framebuffer. -/
theorem printsGlyph (colors : Byte) (frame : Frame) (font : Font) (c : Byte) (x y : ℤ)
    (fb : Memory Byte) :
    DrawnOver cgaPixel (cgaInk colors) frame font c x y fb
        (cgaVideoPrintChar colors frame font c x y fb)
      ∧ DrawnOver hub12Pixel hub12Ink frame font c x y fb
        (hubPrintChar 12 colors frame font c x y fb)
      ∧ DrawnOver hub75Pixel (hub75Ink colors) frame font c x y fb
        (hubPrintChar 75 colors frame font c x y fb) := by
  refine ⟨?_, ?_, ?_⟩
  · exact printChar_drawnOver (cgaDrawPixel_inks colors frame) fb
  · exact printChar_drawnOver (hub12DrawPixel_inks colors frame) fb
  · exact printChar_drawnOver (hub75DrawPixel_inks colors frame) fb

end Karnix.Video
