import Karnix.Library.PackedPixels
import Karnix.Library.WriteBack
import Karnix.Video.GlyphPixels
import Mathlib.Data.List.ProdSigma
import Mathlib.Tactic.Ring

/-!
# Copying an image into the framebuffer

`cga_bitblit` of `cga.c`.  The destination is an array of 32-bit words with sixteen pixels each,
the source an array of bytes with four pixels each.  The code keeps one word of the destination
in a variable, and stores it when it comes to another word and once more at its end.  An access
outside an array, or to a variable that nothing was assigned to, has no result in the model.
-/

namespace Karnix.Video

open Karnix.Library

/-! ## Section 1: The code -/

/-- `xs[i]`: an index outside the array is an access that C leaves open. -/
def readAt {α : Type} (xs : List α) (i : ℤ) : Option α := if 0 ≤ i then xs[i.toNat]? else none

/-- `xs[i] = v` -/
def writeAt {α : Type} (xs : List α) (i : ℤ) (v : α) : Option (List α) :=
  if 0 ≤ i ∧ i < xs.length then some (xs.set i.toNat v) else none

/-- The destination and the variables that live from pixel to pixel. -/
structure BlitState where
  dst : List (BitVec 32)
  wordIdx : Option ℤ := none
  wordIdxPrev : ℤ := -1
  pixelWord : Option (BitVec 32) := none

/-- `dst[i] = pixel_word` -/
def BlitState.store (s : BlitState) (i : ℤ) : Option (List (BitVec 32)) :=
  s.pixelWord.bind fun w => writeAt s.dst i w

/-- The block that goes on to the word `word_idx`. -/
def BlitState.load (s : BlitState) (wordIdx : ℤ) : Option BlitState :=
  if wordIdx ≠ s.wordIdxPrev then do
    let dst ← if s.wordIdxPrev ≠ -1 then s.store s.wordIdxPrev else some s.dst
    let w ← readAt dst wordIdx
    some { s with dst := dst, pixelWord := some w }
  else some s

/-- The body of the inner loop, for a row that starts at `src` and at the pixel `pixelIdx0`. -/
def BlitState.pixel (img : List Byte) (src pixelIdx0 : ℤ) (s : BlitState) (col : ℤ) :
    Option BlitState := do
  let pixelIdx := pixelIdx0 + col
  let pixelOffset := ((15 - pixelIdx % 16) * 2).toNat
  let pixelMask := 0x03#32 <<< pixelOffset
  let s ← s.load (pixelIdx / 16)
  let srcPixelOffset := ((3 - col % 4) * 2).toNat
  let b ← readAt img (src + col / 4)
  let srcWord :=
    if srcPixelOffset ≤ pixelOffset then b.setWidth 32 <<< (pixelOffset - srcPixelOffset)
    else b.setWidth 32 >>> (srcPixelOffset - pixelOffset)
  let w ← s.pixelWord
  some { s with
    wordIdx := some (pixelIdx / 16)
    wordIdxPrev := pixelIdx / 16
    pixelWord := some (w &&& ~~~pixelMask ||| srcWord &&& pixelMask) }

/-- The two loops: `src` and `pixel_idx_0` go on by a row after every row. -/
def BlitState.rows (img : List Byte) (src srcStride pixelIdx0 dstWidth : ℤ) (rows : ℕ)
    (colStart colEnd : ℤ) (s : BlitState) : Option BlitState :=
  (List.range rows).foldlM (fun s (row : ℕ) =>
    (List.range (colEnd - colStart).toNat).foldlM (fun s (k : ℕ) =>
      s.pixel img (src + row * srcStride) (pixelIdx0 + row * dstWidth) (colStart + k)) s) s

/-- `cga_bitblit`: the part of the image that lies in the frame, word by word. -/
def cgaBitblit (img : List Byte) (dst : List (BitVec 32))
    (x y srcWidth srcHeight dstWidth dstHeight : ℤ) : Option (List (BitVec 32)) :=
  let srcStride := srcWidth / 4
  if y ≥ dstHeight ∨ y + srcHeight ≤ 0 then some dst
  else
    let src := if y < 0 then -y * srcStride else 0
    let srcHeight := if y < 0 then srcHeight + y else srcHeight
    let y := if y < 0 then 0 else y
    let srcHeight := if y + srcHeight > dstHeight then dstHeight - y else srcHeight
    if x ≥ dstWidth ∨ x + srcWidth ≤ 0 then some dst
    else
      let colStart := if x < 0 then -x else 0
      let colEnd := if x + srcWidth > dstWidth then dstWidth - x else srcWidth
      let pixelIdx0 := y * dstWidth + x
      do
        let s ← BlitState.rows img src srcStride pixelIdx0 dstWidth srcHeight.toNat
          colStart colEnd { dst := dst }
        s.store (← s.wordIdx)

/-! ## Section 2: What it is for -/

/-- An image of two-bit pixels, four in a byte, the leftmost in the top bits. -/
structure Image where
  width : ℕ
  height : ℕ
  bytes : List Byte
  four_le : 4 ≤ width
  four_dvd : 4 ∣ width
  height_pos : 1 ≤ height
  length_bytes : bytes.length = width / 4 * height

/-- Pixel `(c, r)` of the image. -/
def Image.pixel (img : Image) (c r : ℕ) : BitVec 2 :=
  ((img.bytes[r * (img.width / 4) + c / 4]?).getD 0).extractLsb' ((3 - c % 4) * 2) 2

/-- The words of a frame and nothing else. -/
structure Screen (frame : Frame) where
  words : List (BitVec 32)
  length_words : words.length = (frame.width * frame.height + 15) / 16

/-- The words of an array. -/
def wordsOf (dst : List (BitVec 32)) (k : ℕ) : BitVec 32 := (dst[k]?).getD 0

/-- Pixel `i` of an array of words. -/
def wordsPixel (dst : List (BitVec 32)) (i : ℕ) : BitVec 2 := cgaPacking.pixel (wordsOf dst) i

/-- The image at `(x, y)` covers the pixel `(px, py)` of the frame. -/
def Image.Covers (img : Image) (x y : ℤ) (px py : ℕ) : Prop :=
  (x ≤ px ∧ px < x + img.width) ∧ y ≤ py ∧ py < y + img.height

/-- `dst'` is `dst` with the image at `(x, y)`, pixel by pixel. -/
structure Copied (img : Image) (frame : Frame) (x y : ℤ) (dst dst' : List (BitVec 32)) : Prop where
  size : dst'.length = dst.length
  covered : ∀ px py, px < frame.width → py < frame.height → img.Covers x y px py →
    wordsPixel dst' (py * frame.width + px) = img.pixel (px - x).toNat (py - y).toNat
  free : ∀ px py, px < frame.width → py < frame.height → ¬ img.Covers x y px py →
    wordsPixel dst' (py * frame.width + px) = wordsPixel dst (py * frame.width + px)
  outside : ∀ i, frame.width * frame.height ≤ i → wordsPixel dst' i = wordsPixel dst i

/-- The copy is made: every access is inside its array, and the image is drawn. -/
def Blits (img : Image) (frame : Frame) (x y : ℤ) (screen : Screen frame) : Prop :=
  ∃ dst', cgaBitblit img.bytes screen.words x y img.width img.height frame.width frame.height
      = some dst' ∧ Copied img frame x y screen.words dst'

/-! ## Section 3: One pixel -/

theorem readAt_natCast {α : Type} {xs : List α} {i : ℕ} (h : i < xs.length) :
    readAt xs (i : ℤ) = some xs[i] := by
  rw [readAt, if_pos (Int.natCast_nonneg i), Int.toNat_natCast, List.getElem?_eq_getElem h]

theorem writeAt_natCast {α : Type} {xs : List α} {i : ℕ} (h : i < xs.length) (v : α) :
    writeAt xs (i : ℤ) v = some (xs.set i v) := by
  rw [writeAt, if_pos ⟨Int.natCast_nonneg i, Int.ofNat_lt.mpr h⟩, Int.toNat_natCast]

theorem wordsOf_eq {dst : List (BitVec 32)} {k : ℕ} (h : k < dst.length) :
    wordsOf dst k = dst[k] := by
  rw [wordsOf, List.getElem?_eq_getElem h, Option.getD_some]

theorem wordsOf_set {dst : List (BitVec 32)} {k : ℕ} (h : k < dst.length) (w : BitVec 32) :
    wordsOf (dst.set k w) = Function.update (wordsOf dst) k w := by
  funext j
  by_cases hj : j = k
  · subst hj
    rw [Function.update_self, wordsOf, List.getElem?_set_self h, Option.getD_some]
  · rw [Function.update_of_ne hj, wordsOf, List.getElem?_set_ne (Ne.symm hj), wordsOf]

/-- The bits of a byte moved to another place, in either direction. -/
theorem getLsbD_moved (b : Byte) {a p k : ℕ} (ha : a + 2 ≤ 8) (hk : k < 32) (hlow : p ≤ k)
    (hhigh : k < p + 2) :
    (if a ≤ p then b.setWidth 32 <<< (p - a) else b.setWidth 32 >>> (a - p)).getLsbD k
      = b.getLsbD (a + (k - p)) := by
  by_cases hdir : a ≤ p
  · rw [if_pos hdir, BitVec.getLsbD_shiftLeft, BitVec.getLsbD_setWidth]
    have hpos : ¬ k < p - a := by omega
    have hsmall : a + (k - p) < 32 := by omega
    have hplace : k - (p - a) = a + (k - p) := by omega
    simp only [hk, hpos, hsmall, hplace, decide_true, decide_false, Bool.not_false, Bool.true_and]
  · rw [if_neg hdir, BitVec.getLsbD_ushiftRight, BitVec.getLsbD_setWidth]
    have hsmall : a + (k - p) < 32 := by omega
    have hplace : a - p + k = a + (k - p) := by omega
    simp only [hsmall, hplace, decide_true, Bool.true_and]

/-- Two bits of a byte moved to their place in a word. -/
theorem moved_and_mask (b : Byte) {a p : ℕ} (ha : a + 2 ≤ 8) :
    (if a ≤ p then b.setWidth 32 <<< (p - a) else b.setWidth 32 >>> (a - p)) &&& 0x03#32 <<< p
      = fieldValue (b.extractLsb' a 2) p := by
  have hones : 0x03#32 = (BitVec.allOnes 2).setWidth 32 := by decide
  apply BitVec.eq_of_getLsbD_eq
  intro k hk
  -- outside the field the mask and the value are zero, inside the bits of the byte are left
  by_cases hin : p ≤ k ∧ k < p + 2
  · have hpos : ¬ k < p := Nat.not_lt.mpr hin.1
    have hfield : k - p < 2 := by omega
    have hsmall : k - p < 32 := by omega
    rw [BitVec.getLsbD_and, getLsbD_moved b ha hk hin.1 hin.2, hones]
    simp only [fieldValue, BitVec.getLsbD_shiftLeft, BitVec.getLsbD_setWidth,
      BitVec.getLsbD_extractLsb', BitVec.getLsbD_allOnes, hk, hpos, hfield, hsmall, decide_true,
      decide_false, Bool.not_false, Bool.true_and, Bool.and_true]
  · rw [BitVec.getLsbD_and, hones]
    by_cases hpos : k < p
    · simp only [fieldValue, BitVec.getLsbD_shiftLeft, hpos, decide_true, Bool.not_true,
        Bool.and_false, Bool.false_and]
    · have hfield : ¬ k - p < 2 := by omega
      simp only [fieldValue, BitVec.getLsbD_shiftLeft, BitVec.getLsbD_setWidth,
        BitVec.getLsbD_extractLsb', BitVec.getLsbD_allOnes, hfield, decide_false, Bool.and_false,
        Bool.false_and]

/-! ## Section 4: The word in the variable -/

/-- The variables of the code are a cache of one line in front of the destination: the line is
`pixel_word`, and it is dirty from the first pixel on. -/
structure BlitState.Shows (s : BlitState) (c : WriteBack ℕ (BitVec 32)) : Prop where
  store : c.store = wordsOf s.dst
  clean : c.dirty = false → s.wordIdxPrev = -1 ∧ s.wordIdx = none
  dirty : c.dirty = true → s.wordIdxPrev = c.tag ∧ s.wordIdx = some (c.tag : ℤ)
    ∧ s.pixelWord = some c.line ∧ c.tag < s.dst.length

/-- Writing the variable back makes the destination what the cache shows. -/
theorem BlitState.Shows.store_eq {s : BlitState} {c : WriteBack ℕ (BitVec 32)} (h : s.Shows c)
    (hd : c.dirty = true) :
    ∃ dst, s.store c.tag = some dst ∧ wordsOf dst = c.view ∧ dst.length = s.dst.length := by
  obtain ⟨-, -, hword, htag⟩ := h.dirty hd
  refine ⟨s.dst.set c.tag c.line, ?_, ?_, List.length_set⟩
  · rw [BlitState.store, hword, Option.bind_some, writeAt_natCast htag]
  · rw [wordsOf_set htag, WriteBack.view_of_dirty c hd, h.store]

/-- **Step lemma.**  The block that goes on to another word loads the line of the cache. -/
theorem BlitState.Shows.load {s : BlitState} {c : WriteBack ℕ (BitVec 32)} (h : s.Shows c)
    (hcoh : c.Coherent Set.univ) {k : ℕ} (hk : k < s.dst.length) :
    ∃ s', s.load k = some s' ∧ s'.pixelWord = some (c.load k).line
      ∧ wordsOf s'.dst = (c.load k).store ∧ s'.dst.length = s.dst.length := by
  cases hd : c.dirty with
  | false =>
    -- nothing was loaded so far
    obtain ⟨hprev, -⟩ := h.clean hd
    have hne : (k : ℤ) ≠ s.wordIdxPrev := by
      rw [hprev]
      omega
    have hview : c.view = wordsOf s.dst := (WriteBack.view_of_clean c hd).trans h.store
    refine ⟨{ s with pixelWord := some s.dst[k] }, ?_, ?_, ?_, rfl⟩
    · rw [BlitState.load, if_pos hne, if_neg (not_not.mpr hprev)]
      simp only [Option.bind_eq_bind, Option.bind_some, readAt_natCast hk]
    · rw [hcoh.line_load (Set.mem_univ k), hview, wordsOf_eq hk]
    · rw [WriteBack.load]
      split_ifs
      · exact h.store.symm
      · exact hview.symm
  | true =>
    obtain ⟨hprev, -, hword, htag⟩ := h.dirty hd
    by_cases hk' : c.tag = k
    · -- the word is already there
      have heq : ¬ (k : ℤ) ≠ s.wordIdxPrev := by
        rw [hprev, hk', not_not]
      refine ⟨s, by rw [BlitState.load, if_neg heq], ?_, ?_, rfl⟩
      · rw [WriteBack.load, if_pos hk', hword]
      · rw [WriteBack.load, if_pos hk', h.store]
    · obtain ⟨dst, hstore, hview, hlen⟩ := h.store_eq hd
      have hne : (k : ℤ) ≠ s.wordIdxPrev := by
        rw [hprev]
        exact fun heq => hk' (Int.ofNat_inj.mp heq).symm
      have hload : s.wordIdxPrev ≠ -1 := by
        rw [hprev]
        omega
      have hkdst : k < dst.length := hlen ▸ hk
      refine ⟨{ s with dst := dst, pixelWord := some dst[k] }, ?_, ?_, ?_, hlen⟩
      · rw [BlitState.load, if_pos hne, if_pos hload, hprev, hstore]
        simp only [Option.bind_eq_bind, Option.bind_some, readAt_natCast hkdst]
      · rw [hcoh.line_load (Set.mem_univ k), ← hview, wordsOf_eq hkdst]
      · rw [WriteBack.load, if_neg hk', hview]

/-- The code is under way with `n` words in the destination and shows the words `V`; `begun`
says whether a pixel was copied. -/
structure BlitState.Holds (s : BlitState) (n : ℕ) (V : ℕ → BitVec 32) (begun : Bool) : Prop where
  length : s.dst.length = n
  cache : ∃ c : WriteBack ℕ (BitVec 32),
    s.Shows c ∧ c.Coherent Set.univ ∧ c.view = V ∧ c.dirty = begun

/-- Nothing was copied at the start. -/
theorem BlitState.holds_start (dst : List (BitVec 32)) :
    BlitState.Holds { dst := dst } dst.length (wordsOf dst) false := by
  refine ⟨rfl, ⟨wordsOf dst, 0, wordsOf dst 0, false⟩, ⟨rfl, ?_, ?_⟩, fun _ _ => rfl, rfl, rfl⟩
  · exact fun _ => ⟨rfl, rfl⟩
  · intro hd
    cases hd

variable {img : List Byte}

/-- **Step lemma.**  The body of the loop sets one pixel. -/
theorem BlitState.Holds.pixel {s : BlitState} {n : ℕ} {V : ℕ → BitVec 32} {begun : Bool}
    (h : s.Holds n V begun) {src col i : ℕ} {pixelIdx0 : ℤ} (hi : pixelIdx0 + col = i)
    (hword : i / 16 < n) (hbyte : src + col / 4 < img.length) :
    ∃ s', s.pixel img src pixelIdx0 col = some s' ∧ s'.Holds n
      (cgaPacking.put V i (img[src + col / 4].extractLsb' ((3 - col % 4) * 2) 2)) true := by
  obtain ⟨c, hshows, hcoh, hview, -⟩ := h.cache
  have hk : i / 16 < s.dst.length := by
    rw [h.length]
    exact hword
  obtain ⟨s₁, hload, hline, hstore, hlen⟩ := hshows.load hcoh hk
  -- the indices of the code are natural numbers
  have hoffset : ((15 - (i : ℤ) % 16) * 2).toNat = (15 - i % 16) * 2 := by omega
  have hsrcOffset : ((3 - (col : ℤ) % 4) * 2).toNat = (3 - col % 4) * 2 := by omega
  have hidx : (i : ℤ) / 16 = ((i / 16 : ℕ) : ℤ) := by omega
  have hsrc : (src : ℤ) + (col : ℤ) / 4 = ((src + col / 4 : ℕ) : ℤ) := by omega
  have hfits : (3 - col % 4) * 2 + 2 ≤ 8 := by omega
  let put := fun w => cgaPacking.merge i (img[src + col / 4].extractLsb' ((3 - col % 4) * 2) 2)
    (cgaPacking.clear i w)
  have heval : s.pixel img src pixelIdx0 col = some { s₁ with
      wordIdx := some ((i / 16 : ℕ) : ℤ)
      wordIdxPrev := ((i / 16 : ℕ) : ℤ)
      pixelWord := some (put (c.load (i / 16)).line) } := by
    simp only [BlitState.pixel, hi, hidx, hload, hoffset, hsrcOffset, hsrc, readAt_natCast hbyte,
      moved_and_mask _ hfits, Option.bind_eq_bind, Option.bind_some, hline]
    rfl
  refine ⟨_, heval, ?_, ?_⟩
  case refine_1 => exact hlen.trans h.length
  case refine_2 =>
    -- the new word is the line with the pixel set
    refine ⟨(c.load (i / 16)).edit put, ⟨?_, ?_, ?_⟩, WriteBack.coherent_edit _ put, ?_, rfl⟩
    · exact hstore.symm
    · intro hd
      cases hd
    · intro _
      refine ⟨?_, ?_, rfl, ?_⟩
      · exact congrArg Int.ofNat (c.tag_load (i / 16)).symm
      · exact congrArg (fun k : ℕ => some (k : ℤ)) (c.tag_load (i / 16)).symm
      · change (c.load (i / 16)).tag < _
        rw [c.tag_load, hlen]
        exact hk
    · rw [WriteBack.view_edit, c.view_load, c.tag_load, hcoh.line_load (Set.mem_univ _), hview]
      rfl

/-! ## Section 5: The part of the image in the frame -/

/-- The part of an image that the frame does not cut off: `rows` rows from row `r₀` on and
`cols` columns from column `c₀` on, which come to lie from the pixel `(x₀, y₀)` on. -/
structure Clip (img : Image) (frame : Frame) (x y : ℤ) where
  c₀ : ℕ
  r₀ : ℕ
  x₀ : ℕ
  y₀ : ℕ
  cols : ℕ
  rows : ℕ
  left : (x₀ : ℤ) = x + c₀
  top : (y₀ : ℤ) = y + r₀
  cols_le : x₀ + cols ≤ frame.width
  rows_le : y₀ + rows ≤ frame.height
  cols_le' : c₀ + cols ≤ img.width
  rows_le' : r₀ + rows ≤ img.height
  covers : ∀ px py, px < frame.width → py < frame.height →
    (img.Covers x y px py ↔ (x₀ ≤ px ∧ px < x₀ + cols) ∧ y₀ ≤ py ∧ py < y₀ + rows)

/-- The image is beside the frame. -/
def Image.Beside (img : Image) (frame : Frame) (x y : ℤ) : Prop :=
  (y ≥ frame.height ∨ y + img.height ≤ 0) ∨ x ≥ frame.width ∨ x + img.width ≤ 0

/-- The pixels of the part (row and column) in the order in which they are copied. -/
def Clip.pixels {img : Image} {frame : Frame} {x y : ℤ} (clip : Clip img frame x y) :
    List (ℕ × ℕ) :=
  (List.range clip.rows).flatMap fun row => (List.range clip.cols).map fun col => (row, col)

variable {image : Image} {frame : Frame} {x y : ℤ}

/-- What the code clips. -/
def Image.clip (img : Image) (frame : Frame) (x y : ℤ) (h : ¬ img.Beside frame x y) :
    Clip img frame x y where
  c₀ := (-x).toNat
  r₀ := (-y).toNat
  x₀ := x.toNat
  y₀ := y.toNat
  cols := (min (x + img.width) frame.width).toNat - x.toNat
  rows := (min (y + img.height) frame.height).toNat - y.toNat
  left := by omega
  top := by omega
  cols_le := by
    unfold Image.Beside at h
    omega
  rows_le := by
    unfold Image.Beside at h
    omega
  cols_le' := by
    unfold Image.Beside at h
    omega
  rows_le' := by
    unfold Image.Beside at h
    omega
  covers := by
    intro px py hpx hpy
    unfold Image.Covers
    omega

/-- The body of the loops for a pixel of the part. -/
def Clip.step (clip : Clip image frame x y) (s : BlitState) (p : ℕ × ℕ) : Option BlitState :=
  s.pixel image.bytes ((clip.r₀ + p.1) * (image.width / 4) : ℕ)
    (((clip.y₀ + p.1) * frame.width : ℕ) + x) (clip.c₀ + p.2 : ℕ)

/-- **Run lemma.**  Past the checks the code copies the pixels of the part one by one. -/
theorem cgaBitblit_eq (h : ¬ image.Beside frame x y) (dst : List (BitVec 32)) :
    cgaBitblit image.bytes dst x y image.width image.height frame.width frame.height
      = ((image.clip frame x y h).pixels.foldlM (image.clip frame x y h).step
          { dst := dst }).bind fun s => s.wordIdx.bind s.store := by
  obtain ⟨hy, hx⟩ := not_or.mp h
  have hrows : (if (if y < 0 then 0 else y) + (if y < 0 then image.height + y else image.height)
        > (frame.height : ℤ) then frame.height - (if y < 0 then 0 else y)
      else if y < 0 then image.height + y else image.height).toNat
      = (image.clip frame x y h).rows := by
    change _ = (min (y + image.height) frame.height).toNat - y.toNat
    split_ifs <;> omega
  have hcols : ((if x + image.width > frame.width then (frame.width : ℤ) - x else image.width)
      - (if x < 0 then -x else 0)).toNat = (image.clip frame x y h).cols := by
    change _ = (min (x + image.width) frame.width).toNat - x.toNat
    split_ifs <;> omega
  have hsrc : ∀ row : ℕ, (if y < 0 then -y * ((image.width : ℤ) / 4) else 0)
      + row * ((image.width : ℤ) / 4) = (((-y).toNat + row) * (image.width / 4) : ℕ) := by
    intro row
    have hneg : ((-y).toNat : ℤ) = if y < 0 then -y else 0 := by
      split_ifs <;> omega
    push_cast
    rw [hneg]
    split_ifs <;> ring
  have hidx : ∀ row : ℕ, (if y < 0 then 0 else y) * (frame.width : ℤ) + x + row * frame.width
      = (((y.toNat + row) * frame.width : ℕ) + x : ℤ) := by
    intro row
    have hpos : (y.toNat : ℤ) = if y < 0 then 0 else y := by
      split_ifs <;> omega
    push_cast
    rw [hpos]
    ring
  have hcol : ∀ k : ℕ, (if x < 0 then -x else 0) + (k : ℤ) = ((-x).toNat + k : ℕ) := by
    intro k
    split_ifs <;> omega
  simp only [cgaBitblit, if_neg hy, if_neg hx, BlitState.rows, hrows, hcols, hsrc, hidx, hcol]
  rw [Clip.pixels, foldlM_flatMap]
  simp only [List.foldlM_map]
  rfl

namespace Clip

variable (clip : Clip image frame x y)

theorem mem_pixels {p : ℕ × ℕ} : p ∈ clip.pixels ↔ p.1 < clip.rows ∧ p.2 < clip.cols := by
  refine List.mem_product.trans ?_
  rw [List.mem_range, List.mem_range]

theorem nodup_pixels : clip.pixels.Nodup := List.nodup_range.product List.nodup_range

/-- The place of a pixel of the part in the frame. -/
def place (p : ℕ × ℕ) : ℕ := (clip.y₀ + p.1) * frame.width + (clip.x₀ + p.2)

theorem place_lt {p : ℕ × ℕ} (hp : p ∈ clip.pixels) :
    clip.place p < frame.width * frame.height := by
  obtain ⟨hrow, hcol⟩ := clip.mem_pixels.mp hp
  have hrows := clip.rows_le
  have hcols := clip.cols_le
  have hmul : (clip.y₀ + p.1 + 1) * frame.width ≤ frame.height * frame.width :=
    Nat.mul_le_mul_right _ (by omega)
  rw [Nat.succ_mul] at hmul
  rw [place, Nat.mul_comm frame.width]
  omega

/-- The byte of a pixel of the part is a byte of the image. -/
theorem byte_lt {p : ℕ × ℕ} (hp : p ∈ clip.pixels) :
    (clip.r₀ + p.1) * (image.width / 4) + (clip.c₀ + p.2) / 4 < image.bytes.length := by
  obtain ⟨hrow, hcol⟩ := clip.mem_pixels.mp hp
  have hrows := clip.rows_le'
  have hcols := clip.cols_le'
  have hdvd := image.four_dvd
  have hmul : (clip.r₀ + p.1 + 1) * (image.width / 4) ≤ image.height * (image.width / 4) :=
    Nat.mul_le_mul_right _ (by omega)
  rw [Nat.succ_mul] at hmul
  rw [image.length_bytes, Nat.mul_comm (image.width / 4)]
  omega

/-- What the words show after a pixel of the part. -/
def put (V : ℕ → BitVec 32) (p : ℕ × ℕ) : ℕ → BitVec 32 :=
  cgaPacking.put V (clip.place p) (image.pixel (clip.c₀ + p.2) (clip.r₀ + p.1))

/-- A pixel of the frame is the place of a pixel of the part exactly if the image covers it. -/
theorem place_eq {px py : ℕ} (hpx : px < frame.width) {p : ℕ × ℕ} (hp : p ∈ clip.pixels)
    (h : clip.place p = py * frame.width + px) : px = clip.x₀ + p.2 ∧ py = clip.y₀ + p.1 := by
  obtain ⟨-, hcol⟩ := clip.mem_pixels.mp hp
  have hcols := clip.cols_le
  have hlt : clip.x₀ + p.2 < frame.width := by omega
  obtain ⟨hx, hy⟩ := place_injective hlt hpx h
  exact ⟨hx.symm, hy.symm⟩

/-- **Run lemma.**  Words in which the pixels of the part were put one by one show the image. -/
theorem copied {dst dst' : List (BitVec 32)} (hlen : dst'.length = dst.length)
    (hwords : wordsOf dst' = clip.pixels.foldl clip.put (wordsOf dst)) :
    Copied image frame x y dst dst' := by
  -- a pixel at the place of no pixel of the part is kept
  have hkeep : ∀ i, (∀ p ∈ clip.pixels, clip.place p ≠ i) →
      wordsPixel dst' i = wordsPixel dst i := by
    intro i hi
    rw [wordsPixel, hwords, wordsPixel]
    refine foldl_untouched ?_ (wordsOf dst)
    intro V p hp
    exact Packing.pixel_put_of_ne _ (Ne.symm (hi p hp))
  constructor
  case size => exact hlen
  case covered =>
    intro px py hpx hpy hcover
    have hin := (clip.covers px py hpx hpy).mp hcover
    have hleft := clip.left
    have htop := clip.top
    have hmem : (py - clip.y₀, px - clip.x₀) ∈ clip.pixels :=
      clip.mem_pixels.mpr ⟨by omega, by omega⟩
    have hplace : clip.place (py - clip.y₀, px - clip.x₀) = py * frame.width + px := by
      rw [place]
      simp only [Nat.add_sub_cancel' hin.1.1, Nat.add_sub_cancel' hin.2.1]
    have hcol : clip.c₀ + (px - clip.x₀) = (px - x).toNat := by omega
    have hrow : clip.r₀ + (py - clip.y₀) = (py - y).toNat := by omega
    rw [wordsPixel, hwords]
    refine foldl_once (f := fun _ => image.pixel (px - x).toNat (py - y).toNat)
      clip.nodup_pixels hmem ?_ ?_ (wordsOf dst)
    · intro V
      rw [put, hplace, hcol, hrow]
      exact Packing.pixel_put_self _
    · intro V p hp hne
      refine Packing.pixel_put_of_ne _ ?_
      intro heq
      obtain ⟨hx, hy⟩ := clip.place_eq hpx hp heq.symm
      apply hne
      apply Prod.ext
      · change p.1 = py - clip.y₀
        omega
      · change p.2 = px - clip.x₀
        omega
  case free =>
    intro px py hpx hpy hfree
    apply hkeep
    intro p hp heq
    obtain ⟨hx, hy⟩ := clip.place_eq hpx hp heq
    obtain ⟨hrow, hcol⟩ := clip.mem_pixels.mp hp
    apply hfree
    refine (clip.covers px py hpx hpy).mpr ?_
    omega
  case outside =>
    intro i hi
    apply hkeep
    intro p hp heq
    exact absurd (clip.place_lt hp) (by omega)

/-- **Step lemma.**  The body of the loops puts the pixel of the part. -/
theorem step_holds {s : BlitState} {V : ℕ → BitVec 32} {begun : Bool} {screen : Screen frame}
    (h : s.Holds screen.words.length V begun) {p : ℕ × ℕ} (hp : p ∈ clip.pixels) :
    ∃ s', clip.step s p = some s' ∧ s'.Holds screen.words.length (clip.put V p) true := by
  have hleft := clip.left
  have hidx : ((((clip.y₀ + p.1) * frame.width : ℕ) : ℤ) + x) + ((clip.c₀ + p.2 : ℕ) : ℤ)
      = (clip.place p : ℕ) := by
    rw [place]
    omega
  have hword : clip.place p / 16 < screen.words.length := by
    have hplace := clip.place_lt hp
    rw [screen.length_words]
    omega
  have hbyte := clip.byte_lt hp
  obtain ⟨s', hstep, hs'⟩ := h.pixel hidx hword hbyte
  refine ⟨s', hstep, ?_⟩
  have hpixel : image.pixel (clip.c₀ + p.2) (clip.r₀ + p.1)
      = (image.bytes[(clip.r₀ + p.1) * (image.width / 4) + (clip.c₀ + p.2) / 4]).extractLsb'
          ((3 - (clip.c₀ + p.2) % 4) * 2) 2 := by
    rw [Image.pixel, List.getElem?_eq_getElem hbyte, Option.getD_some]
  rw [put, hpixel]
  exact hs'

end Clip

/-! ## Section 6: When the image is copied -/

/-- An image beside the frame leaves the destination as it is. -/
theorem blits_of_beside (screen : Screen frame) (h : image.Beside frame x y) :
    Blits image frame x y screen := by
  refine ⟨screen.words, ?_, rfl, ?_, fun _ _ _ _ _ => rfl, fun _ _ => rfl⟩
  · rcases h with hy | hx
    · simp only [cgaBitblit, if_pos hy]
    · simp only [cgaBitblit, if_pos hx, ite_self]
  · intro px py hpx hpy hcover
    unfold Image.Covers at hcover
    unfold Image.Beside at h
    omega

/-- A frame with pixels gets the part of the image that lies in it. -/
theorem blits_of_pos (screen : Screen frame) (h : ¬ image.Beside frame x y)
    (hwidth : 0 < frame.width) (hheight : 0 < frame.height) : Blits image frame x y screen := by
  let clip := image.clip frame x y h
  have hfour := image.four_le
  have hone := image.height_pos
  have hcols : 0 < clip.cols := by
    change 0 < (min (x + image.width) frame.width).toNat - x.toNat
    unfold Image.Beside at h
    omega
  have hrows : 0 < clip.rows := by
    change 0 < (min (y + image.height) frame.height).toNat - y.toNat
    unfold Image.Beside at h
    omega
  have hfirst : (0, 0) ∈ clip.pixels := clip.mem_pixels.mpr ⟨hrows, hcols⟩
  -- the first pixel loads a word, and from then on the variable holds one
  obtain ⟨first, others, hpixels⟩ := List.exists_cons_of_ne_nil (List.ne_nil_of_mem hfirst)
  have hmem : ∀ p, p = first ∨ p ∈ others → p ∈ clip.pixels := by
    intro p hp
    rw [hpixels]
    exact List.mem_cons.mpr hp
  have hstart : BlitState.Holds { dst := screen.words } screen.words.length
      (wordsOf screen.words) false := BlitState.holds_start screen.words
  obtain ⟨s₁, hstep, hs₁⟩ := clip.step_holds hstart (hmem first (Or.inl rfl))
  have hothers : ∀ s V, BlitState.Holds s screen.words.length V true → ∀ p ∈ others,
      ∃ s', clip.step s p = some s' ∧ s'.Holds screen.words.length (clip.put V p) true :=
    fun s V hs p hp => clip.step_holds hs (hmem p (Or.inr hp))
  obtain ⟨s, hrun, hs⟩ :=
    foldlM_shows (R := fun s V => BlitState.Holds s screen.words.length V true) hothers hs₁
  obtain ⟨c, hshows, -, hview, hdirty⟩ := hs.cache
  obtain ⟨dst', hstore, hwords, hlen⟩ := hshows.store_eq hdirty
  refine ⟨dst', ?_, clip.copied (hlen.trans hs.length) ?_⟩
  · rw [cgaBitblit_eq h]
    change ((clip.pixels.foldlM clip.step _).bind _) = _
    rw [hpixels, List.foldlM_cons, hstep]
    change ((others.foldlM clip.step s₁).bind _) = _
    rw [hrun, Option.bind_some, (hshows.dirty hdirty).2.1]
    exact hstore
  · rw [hwords, hview, hpixels]
    rfl

/-- A frame without pixels makes the code store a word that it never loaded. -/
theorem not_blits_of_empty (screen : Screen frame) (h : ¬ image.Beside frame x y)
    (hempty : ¬ (0 < frame.width ∧ 0 < frame.height)) : ¬ Blits image frame x y screen := by
  rintro ⟨dst', hrun, -⟩
  let clip := image.clip frame x y h
  have hpixels : clip.pixels = [] := by
    apply List.eq_nil_iff_forall_not_mem.mpr
    intro p hp
    have hplace := clip.place_lt hp
    have hpos : 0 < frame.width * frame.height := Nat.zero_lt_of_lt hplace
    exact hempty ⟨Nat.pos_of_mul_pos_right hpos, Nat.pos_of_mul_pos_left hpos⟩
  rw [cgaBitblit_eq h] at hrun
  change ((clip.pixels.foldlM clip.step _).bind _) = _ at hrun
  rw [hpixels] at hrun
  cases hrun

/-- `cga_bitblit` copies every image to every position of every frame, pixel by pixel and
without an access outside the arrays, exactly if the image lies beside the frame or the frame
has pixels. -/
theorem blits_iff (image : Image) (frame : Frame) (x y : ℤ) (screen : Screen frame) :
    Blits image frame x y screen
      ↔ image.Beside frame x y ∨ 0 < frame.width ∧ 0 < frame.height := by
  constructor
  · intro hblits
    by_cases hbeside : image.Beside frame x y
    · exact Or.inl hbeside
    · right
      by_contra hempty
      exact not_blits_of_empty screen hbeside hempty hblits
  · intro h
    by_cases hbeside : image.Beside frame x y
    · exact blits_of_beside screen hbeside
    · have hpos := h.resolve_left hbeside
      exact blits_of_pos screen hbeside hpos.1 hpos.2

/-- On a frame of no columns, an image that begins left of it makes the code store a word that
nothing was assigned to. -/
theorem not_blits_noColumns :
    ¬ Blits ⟨4, 1, [0xe4], by decide, by decide, by decide, by decide⟩ ⟨0, 1⟩ (-1) 0
      ⟨[], by decide⟩ := by
  rintro ⟨dst', hrun, -⟩
  have hnone : cgaBitblit [0xe4] [] (-1) 0 4 1 0 1 = none := by decide
  exact Option.some_ne_none dst' (hrun.symm.trans hnone)

end Karnix.Video
