import Karnix.Video.ScanOut
import Mathlib.Algebra.Group.Nat.Defs

/-!
# The timing of scan-out

Where the counters are at each clock, and which word of the framebuffer is in the register `word`
then.
-/

namespace Karnix.Video

open Karnix.Library

namespace DviState

variable {r : CgaRegs} {m : CgaMem} {st : DviState}

/-! ## Section 1: The counters -/

theorem scan_succ (n : ℕ) : st.scan r m (n + 1) = (st.scan r m n).clock r m := rfl

/-- Counting on by one, in digits. -/
theorem div_mod_succ {b : ℕ} (hb : 0 < b) (n : ℕ) :
    n % b + 1 = b ∧ (n + 1) % b = 0 ∧ (n + 1) / b = n / b + 1 ∨
      n % b + 1 < b ∧ (n + 1) % b = n % b + 1 ∧ (n + 1) / b = n / b := by
  have hsplit := Nat.mod_add_div n b
  rcases Nat.lt_or_ge (n % b + 1) b with hlt | hge
  · have hnext : (n + 1) / b = n / b ∧ (n + 1) % b = n % b + 1 :=
      (Nat.div_mod_unique hb).2 ⟨by omega, hlt⟩
    exact Or.inr ⟨hlt, hnext.2, hnext.1⟩
  · have hlast : n % b + 1 = b := Nat.le_antisymm (Nat.mod_lt n hb) hge
    have hnext : (n + 1) / b = n / b + 1 ∧ (n + 1) % b = 0 :=
      (Nat.div_mod_unique hb).2 ⟨by rw [Nat.mul_add]; omega, hb⟩
    exact Or.inl ⟨hlast, hnext.2, hnext.1⟩

/-- A counter with its total. -/
theorem toNat_wrap {c t : BitVec 16} (hc : c.toNat < t.toNat) :
    (c = t - 1 ↔ c.toNat + 1 = t.toNat) ∧
      (if c = t - 1 then 0 else c + 1).toNat =
        if c.toNat + 1 = t.toNat then 0 else c.toNat + 1 := by
  have ht := t.isLt
  have hiff : c = t - 1 ↔ c.toNat + 1 = t.toNat := by
    rw [← BitVec.toNat_inj, BitVec.toNat_sub]
    simp only [BitVec.ofNat_eq_ofNat, BitVec.toNat_ofNat]
    omega
  refine ⟨hiff, ?_⟩
  by_cases h : c = t - 1
  · rw [if_pos h, if_pos (hiff.1 h)]
    rfl
  · rw [if_neg h, if_neg (mt hiff.2 h), BitVec.toNat_add]
    simp only [BitVec.ofNat_eq_ofNat, BitVec.toNat_ofNat]
    omega

/-- **Run lemma.**  The counters are the digits of the clock. -/
theorem scan_counters (hX : st.counterX = 0) (hY : st.counterY = 0)
    (hwidth : 0 < r.horizTotalWidth.toNat) (hheight : 0 < r.vertTotalHeight.toNat) (n : ℕ) :
    (st.scan r m n).counterX.toNat = n % r.horizTotalWidth.toNat ∧
      (st.scan r m n).counterY.toNat =
        n / r.horizTotalWidth.toNat % r.vertTotalHeight.toNat := by
  -- on the clocks; the line counter goes on exactly when the pixel counter wraps
  induction n with
  | zero =>
    have hdiv : 0 / r.horizTotalWidth.toNat = 0 := Nat.zero_div _
    rw [Nat.zero_mod, hdiv, Nat.zero_mod]
    exact ⟨by rw [scan, trace_zero, hX]; rfl, by rw [scan, trace_zero, hY]; rfl⟩
  | succ n ih =>
    obtain ⟨ihX, ihY⟩ := ih
    have hltX := Nat.mod_lt n hwidth
    have hltY := Nat.mod_lt (n / r.horizTotalWidth.toNat) hheight
    have hwrapX := toNat_wrap (ihX ▸ hltX)
    have hwrapY := toNat_wrap (ihY ▸ hltY)
    rw [scan_succ]
    simp only [clock]
    rw [hwrapX.2, ihX]
    rcases div_mod_succ hwidth n with ⟨hlast, hmod, hdiv⟩ | ⟨hlt, hmod, hdiv⟩
    · rw [hmod, hdiv, if_pos hlast, if_pos (hwrapX.1.2 (by rw [ihX]; exact hlast))]
      refine ⟨rfl, ?_⟩
      rw [hwrapY.2, ihY]
      rcases div_mod_succ hheight (n / r.horizTotalWidth.toNat) with ⟨h, hm, -⟩ | ⟨h, hm, -⟩
      · rw [if_pos h, hm]
      · rw [if_neg (Nat.ne_of_lt h), hm]
    · have hnot : ¬ (st.scan r m n).counterX = r.horizTotalWidth - 1 := by
        rw [hwrapX.1, ihX]
        exact Nat.ne_of_lt hlt
      rw [hmod, hdiv, if_neg (Nat.ne_of_lt hlt), if_neg hnot]
      exact ⟨rfl, ihY⟩

/-- The frame counter counts the beginnings of frames. -/
theorem scan_counterF (hX : st.counterX = 0) (hY : st.counterY = 0)
    (hwidth : 0 < r.horizTotalWidth.toNat) (hheight : 0 < r.vertTotalHeight.toNat) (n : ℕ) :
    (st.scan r m n).counterF = st.counterF + BitVec.ofNat 7
      ((n + r.horizTotalWidth.toNat * r.vertTotalHeight.toNat - 1) /
        (r.horizTotalWidth.toNat * r.vertTotalHeight.toNat)) := by
  have hpos := Nat.mul_pos hwidth hheight
  induction n with
  | zero =>
    rw [Nat.zero_add, Nat.div_eq_of_lt (Nat.sub_lt hpos Nat.one_pos)]
    exact (BitVec.add_zero _).symm
  | succ n ih =>
    obtain ⟨hcX, hcY⟩ := scan_counters (m := m) hX hY hwidth hheight n
    have hframe : (st.scan r m n).counterX = 0 ∧ (st.scan r m n).counterY = 0 ↔
        n % (r.horizTotalWidth.toNat * r.vertTotalHeight.toNat) = 0 := by
      rw [← BitVec.toNat_inj, ← BitVec.toNat_inj, hcX, hcY, Nat.mod_mul, Nat.add_eq_zero_iff,
        Nat.mul_eq_zero, or_iff_right (Nat.ne_of_gt hwidth)]
      rfl
    rw [scan_succ]
    simp only [clock, hframe]
    generalize r.horizTotalWidth.toNat * r.vertTotalHeight.toNat = b at *
    -- the quotient goes up at the multiples of the frame
    have hnext : n + 1 + b - 1 = n + b := by omega
    have hup : (n + b) / b = n / b + 1 := Nat.add_div_right n hpos
    rw [hnext, hup]
    split
    · rename_i hzero
      have hdown : (n + b - 1) / b = n / b := by
        have hsplit := Nat.mod_add_div n b
        exact ((Nat.div_mod_unique (c := b - 1) hpos).2 ⟨by omega, by omega⟩).1
      rw [ih, hdown, BitVec.add_assoc, BitVec.ofNat_add]
      rfl
    · rename_i hne
      have hsplit := Nat.mod_add_div n b
      have hlt := Nat.mod_lt n hpos
      have hsame : (n + b - 1) / b = n / b + 1 :=
        ((Nat.div_mod_unique (c := n % b - 1) hpos).2 ⟨by rw [Nat.mul_add]; omega, by omega⟩).1
      rw [ih, hsame]

/-- Within a line the shown line follows from the counter. -/
theorem scan_counterY_ (hX : st.counterX = 0) (hY : st.counterY = 0)
    (hwidth : 0 < r.horizTotalWidth.toNat) (hheight : 0 < r.vertTotalHeight.toNat) {n : ℕ}
    (hn : n % r.horizTotalWidth.toNat ≠ 0) :
    (st.scan r m n).counterY_ = r.scrolled (st.scan r m n).counterY := by
  cases n with
  | zero => exact absurd (Nat.zero_mod _) hn
  | succ n =>
    have hline : (st.scan r m n).counterY = (st.scan r m (n + 1)).counterY := by
      apply BitVec.eq_of_toNat_eq
      rw [(scan_counters hX hY hwidth hheight n).2, (scan_counters hX hY hwidth hheight _).2]
      rcases div_mod_succ hwidth n with ⟨-, hmod, -⟩ | ⟨-, -, hdiv⟩
      · exact absurd hmod hn
      · rw [hdiv]
    rw [← hline]
    rfl

/-! ## Section 2: The timing of a format -/

end DviState

/-- What the timing registers come to; a line begins and is left at the edge of a cell. -/
structure CgaRegs.Timed (r : CgaRegs) (hbp htotal vbp vtotal : ℕ) : Prop where
  left : r.horizBackPorch.toNat = hbp
  cell : (r.horizBackPorch - 8).toNat = hbp - 8
  right : (r.horizBackPorch + r.horizActive).toNat = hbp + 640
  width : r.horizTotalWidth.toNat = htotal
  top : r.vertBackPorch.toNat = vbp
  bottom : (r.vertBackPorch + r.vertActive).toNat = vbp + 480
  below : (r.vertBackPorch + r.vertActive + 16).toNat = vbp + 496
  height : r.vertTotalHeight.toNat = vtotal
  porch : 32 ≤ hbp ∧ hbp % 8 = 0
  total : hbp + 640 ≤ htotal ∧ vbp + 480 ≤ vtotal

theorem timed_generic (ctrl ctrl2 : BitVec 32) :
    ((cgaVideoFormats 0).regs ctrl ctrl2).Timed 32 800 16 525 := by
  constructor <;>
    simp [cgaVideoFormats, CgaVideoFormat.regs, CgaRegs.horizTotalWidth, CgaRegs.vertTotalHeight,
      CgaRegs.horizBackPorch, CgaRegs.horizActive, CgaRegs.horizFrontPorch, CgaRegs.horizSync,
      CgaRegs.vertBackPorch, CgaRegs.vertActive, CgaRegs.vertFrontPorch, CgaRegs.vertSync]

theorem timed_addi (ctrl ctrl2 : BitVec 32) :
    ((cgaVideoFormats 1).regs ctrl ctrl2).Timed 40 1152 13 635 := by
  constructor <;>
    simp [cgaVideoFormats, CgaVideoFormat.regs, CgaRegs.horizTotalWidth, CgaRegs.vertTotalHeight,
      CgaRegs.horizBackPorch, CgaRegs.horizActive, CgaRegs.horizFrontPorch, CgaRegs.horizSync,
      CgaRegs.vertBackPorch, CgaRegs.vertActive, CgaRegs.vertFrontPorch, CgaRegs.vertSync]

/-- A mask only sees the lower bits. -/
theorem and_eq_mod_and {a k : ℕ} (ha : a < 2 ^ k) (x : ℕ) : x &&& a = x % 2 ^ k &&& a := by
  have hlt : x &&& a < 2 ^ k := Nat.lt_of_le_of_lt Nat.and_le_right ha
  calc x &&& a = (x &&& a) % 2 ^ k := (Nat.mod_eq_of_lt hlt).symm
    _ = x % 2 ^ k &&& a % 2 ^ k := Nat.and_mod_two_pow ..
    _ = x % 2 ^ k &&& a := by rw [Nat.mod_eq_of_lt ha]

theorem and_six_iff (c : BitVec 16) : c &&& 6 = 6 ↔ 6 ≤ c.toNat % 8 := by
  have hall : ∀ x < 8, x &&& 6 = 6 ↔ 6 ≤ x := by decide
  rw [← BitVec.toNat_inj, BitVec.toNat_and]
  exact (congrArg (· = 6) (and_eq_mod_and (k := 3) (by decide) _)).to_iff.trans
    (hall _ (Nat.mod_lt _ (by decide)))

theorem and_seven_iff (c : BitVec 16) : c &&& 7 = 7 ↔ c.toNat % 8 = 7 := by
  have hall : ∀ x < 8, x &&& 7 = 7 ↔ x = 7 := by decide
  rw [← BitVec.toNat_inj, BitVec.toNat_and]
  exact (congrArg (· = 7) (and_eq_mod_and (k := 3) (by decide) _)).to_iff.trans
    (hall _ (Nat.mod_lt _ (by decide)))

theorem and_thirty_iff (c : BitVec 16) : c &&& 30 = 30 ↔ 30 ≤ c.toNat % 32 := by
  have hall : ∀ x < 32, x &&& 30 = 30 ↔ 30 ≤ x := by decide
  rw [← BitVec.toNat_inj, BitVec.toNat_and]
  exact (congrArg (· = 30) (and_eq_mod_and (k := 5) (by decide) _)).to_iff.trans
    (hall _ (Nat.mod_lt _ (by decide)))

namespace DviState

variable {r : CgaRegs} {m : CgaMem} {st : DviState} {hbp htotal vbp vtotal : ℕ}

/-- Where words of the text are loaded. -/
theorem textLoad_iff (ht : r.Timed hbp htotal vbp vtotal) :
    st.textLoad r = true ↔ hbp - 8 ≤ st.counterX.toNat ∧ st.counterX.toNat < hbp + 640 ∧
      st.counterY.toNat < vbp + 496 ∧ 6 ≤ st.counterX.toNat % 8 := by
  simp only [textLoad, Bool.and_eq_true, decide_eq_true_eq, beq_iff_eq, and_six_iff,
    BitVec.le_def, BitVec.lt_def, ht.cell, ht.right, ht.below, and_assoc]

/-- Where words of the graphics are loaded. -/
theorem graphicsLoad_iff (ht : r.Timed hbp htotal vbp vtotal) :
    st.graphicsLoad r = true ↔ st.counterX.toNat < hbp + 640 ∧
      st.counterY_.toNat < vbp + 480 ∧ 30 ≤ st.counterX.toNat % 32 := by
  simp only [graphicsLoad, Bool.and_eq_true, decide_eq_true_eq, beq_iff_eq, and_thirty_iff,
    BitVec.le_def, BitVec.lt_def, ht.right, ht.bottom, and_assoc]
  exact and_iff_right (Nat.zero_le _)

theorem toNat_sub_sixteen (c : BitVec 16) : (c - 16).toNat = (c.toNat + 65520) % 65536 := by
  rw [BitVec.toNat_sub, Nat.add_comm]
  rfl

theorem toNat_textAddress (ht : r.Timed hbp htotal vbp vtotal)
    (hle : hbp - 8 ≤ st.counterX.toNat) :
    (st.textAddress r).toNat = (st.counterY_.toNat + 65520) % 65536 / 16 % 64 * 80 +
      (st.counterX.toNat - (hbp - 8)) / 8 % 128 := by
  have hrow : (((st.counterY_ - 16).extractLsb 9 4).setWidth 13).toNat =
      (st.counterY_.toNat + 65520) % 65536 / 16 % 64 := by
    rw [BitVec.toNat_setWidth, BitVec.extractLsb_toNat, toNat_sub_sixteen,
      Nat.shiftRight_eq_div_pow]
    exact Nat.mod_eq_of_lt (Nat.lt_trans (Nat.mod_lt _ (by decide)) (by decide))
  have hcolumn : (((st.counterX - (r.horizBackPorch - 8)).extractLsb 9 3).setWidth 13).toNat =
      (st.counterX.toNat - (hbp - 8)) / 8 % 128 := by
    have hsub := BitVec.toNat_sub_of_le (BitVec.le_def.2 (ht.cell ▸ hle))
    rw [BitVec.toNat_setWidth, BitVec.extractLsb_toNat, hsub, ht.cell,
      Nat.shiftRight_eq_div_pow]
    exact Nat.mod_eq_of_lt (Nat.lt_trans (Nat.mod_lt _ (by decide)) (by decide))
  rw [textAddress, BitVec.toNat_add, BitVec.toNat_mul, hrow, hcolumn]
  simp only [BitVec.ofNat_eq_ofNat, BitVec.toNat_ofNat, Nat.reducePow, Nat.reduceMod]
  omega

theorem toNat_graphicsAddress :
    st.graphicsAddress.toNat = ((st.counterY_.toNat + 65520) % 65536 / 2 % 512 * 20 +
      st.counterX.toNat / 32 % 32) % 8192 := by
  have hrow : (((st.counterY_ - 16).extractLsb 9 1).setWidth 14).toNat =
      (st.counterY_.toNat + 65520) % 65536 / 2 % 512 := by
    rw [BitVec.toNat_setWidth, BitVec.extractLsb_toNat, toNat_sub_sixteen,
      Nat.shiftRight_eq_div_pow]
    exact Nat.mod_eq_of_lt (Nat.lt_trans (Nat.mod_lt _ (by decide)) (by decide))
  have hcolumn : ((st.counterX.extractLsb 9 5).setWidth 14).toNat =
      st.counterX.toNat / 32 % 32 := by
    rw [BitVec.toNat_setWidth, BitVec.extractLsb_toNat, Nat.shiftRight_eq_div_pow]
    exact Nat.mod_eq_of_lt (Nat.lt_trans (Nat.mod_lt _ (by decide)) (by decide))
  rw [graphicsAddress, BitVec.toNat_setWidth, BitVec.toNat_add, BitVec.toNat_mul, hrow, hcolumn]
  simp only [BitVec.ofNat_eq_ofNat, BitVec.toNat_ofNat, Nat.reducePow, Nat.reduceMod]
  omega

/-! ## Section 3: Words -/

/-- **Pipeline lemma.**  A word that is loaded two clocks before a block of pixels, and with which
nothing else has been loaded since, is the word of every pixel of the block. -/
theorem scan_word {n j : ℕ} {w : BitVec 32} (hj : j + 2 ≤ n)
    (hload : (st.scan r m (n - (j + 2))).wordLoad r = true)
    (hword : ∀ d, 2 ≤ d → d ≤ j + 2 → (st.scan r m (n - d)).wordLoad r = true →
      m.fb ((st.scan r m (n - d)).wordAddress r).toNat = w) : (st.scan r m n).word = w := by
  obtain ⟨t, rfl⟩ : ∃ t, n = t + 1 + j + 1 := ⟨n - (j + 2), by omega⟩
  have hfirst : t + 1 + j + 1 - (j + 2) = t := by omega
  rw [hfirst] at hload
  have hport := held (f := fun n => (st.scan r m n).readPort)
    (g := fun n => m.fb ((st.scan r m n).wordAddress r).toNat)
    (p := fun n => (st.scan r m n).wordLoad r) (fun _ => rfl) (t := t) (k := j) (a := w)
    hload (by simpa only [hfirst] using hword (j + 2) (by omega) (Nat.le_refl _) (by rwa [hfirst]))
    (fun i hi hl => by
      have hback : t + 1 + j + 1 - (j + 1 - i) = t + 1 + i := by omega
      simpa only [hback] using hword (j + 1 - i) (by omega) (by omega) (by rwa [hback]))
  exact hport

section Run

variable (ht : r.Timed hbp htotal vbp vtotal) (hX : st.counterX = 0) (hY : st.counterY = 0)

include ht hX hY

theorem counterX_eq (n : ℕ) : (st.scan r m n).counterX.toNat = n % htotal := by
  have hporch := ht.porch
  have htotal' := ht.total
  have hw := ht.width
  have hh := ht.height
  subst hw hh
  exact (scan_counters hX hY (by omega) (by omega) n).1

theorem counterY_eq (n : ℕ) : (st.scan r m n).counterY.toNat = n / htotal % vtotal := by
  have hporch := ht.porch
  have htotal' := ht.total
  have hw := ht.width
  have hh := ht.height
  subst hw hh
  exact (scan_counters hX hY (by omega) (by omega) n).2

theorem shownLine_eq {n : ℕ} (hn : n % htotal ≠ 0) :
    (st.scan r m n).counterY_ = r.scrolled (st.scan r m n).counterY := by
  have hporch := ht.porch
  have htotal' := ht.total
  have hw := ht.width
  have hh := ht.height
  subst hw hh
  exact scan_counterY_ hX hY (by omega) (by omega) hn

/-- The clocks of a line before a pixel. -/
theorem scan_back {n d : ℕ} (hd : d ≤ n % htotal) :
    (st.scan r m (n - d)).counterX.toNat = n % htotal - d ∧
      (st.scan r m (n - d)).counterY = (st.scan r m n).counterY := by
  have hporch := ht.porch
  have htotal' := ht.total
  have hpos : 0 < htotal := by omega
  have hsplit := Nat.mod_add_div n htotal
  have hlt := Nat.mod_lt n hpos
  have hback : (n - d) / htotal = n / htotal ∧ (n - d) % htotal = n % htotal - d :=
    (Nat.div_mod_unique hpos).2 ⟨by omega, by omega⟩
  refine ⟨by rw [counterX_eq ht hX hY, hback.2], BitVec.eq_of_toNat_eq ?_⟩
  rw [counterY_eq ht hX hY, counterY_eq ht hX hY, hback.1]

/-- The cell of a pixel of the text. -/
theorem text_word (hmode : r.videoMode = 0) {n : ℕ} (hleft : hbp ≤ n % htotal)
    (hright : n % htotal < hbp + 640) (hline : n / htotal % vtotal < vbp + 496) :
    (st.scan r m n).word = m.fb
      (((r.scrolled (st.scan r m n).counterY).toNat + 65520) % 65536 / 16 % 64 * 80 +
        (n % htotal - hbp) / 8) := by
  have hporch := ht.porch
  have hle := Nat.mod_le n htotal
  have hback := fun {d} => scan_back (m := m) (n := n) (d := d) ht hX hY
  -- the last two clocks of the cell before it load its word
  have hloads : ∀ d ≤ n % htotal % 8 + 2, 2 ≤ d →
      ((st.scan r m (n - d)).wordLoad r = true ↔ n % htotal % 8 < d) := by
    intro d hd hd'
    obtain ⟨hx, hy⟩ := hback (d := d) (by omega)
    rw [wordLoad, if_pos hmode, textLoad_iff ht, hx, hy, counterY_eq ht hX hY]
    omega
  apply scan_word (j := n % htotal % 8) (by omega)
  · rw [hloads _ (Nat.le_refl _) (by omega)]
    omega
  · intro d hd hle' hload
    have hphase := (hloads d hle' hd).1 hload
    obtain ⟨hx, hy⟩ := hback (d := d) (by omega)
    have hshown : (st.scan r m (n - d)).counterY_ = r.scrolled (st.scan r m n).counterY := by
      rw [← hy]
      refine shownLine_eq ht hX hY ?_
      rw [← counterX_eq (m := m) ht hX hY, hx]
      omega
    rw [wordAddress, if_pos hmode, toNat_textAddress ht (by rw [hx]; omega), hx, hshown]
    congr 2
    omega

/-- The word of a pixel of the graphics. -/
theorem graphics_word (hmode : r.videoMode = 1) {n : ℕ} (hleft : hbp ≤ n % htotal)
    (hright : n % htotal < hbp + 640)
    (hline : (r.scrolled (st.scan r m n).counterY).toNat < vbp + 480) :
    (st.scan r m n).word = m.fb
      ((((r.scrolled (st.scan r m n).counterY).toNat + 65520) % 65536 / 2 % 512 * 20 +
        (n % htotal / 32 - 1) % 32) % 8192) := by
  have hporch := ht.porch
  have hle := Nat.mod_le n htotal
  have hback := fun {d} => scan_back (m := m) (n := n) (d := d) ht hX hY
  have hne : r.videoMode ≠ 0 := by rw [hmode]; decide
  have hshown : ∀ d < n % htotal,
      (st.scan r m (n - d)).counterY_ = r.scrolled (st.scan r m n).counterY := by
    intro d hd
    obtain ⟨hx, hy⟩ := hback (d := d) (by omega)
    rw [← hy]
    refine shownLine_eq ht hX hY ?_
    rw [← counterX_eq (m := m) ht hX hY, hx]
    omega
  -- the last two clocks of the block before it load its word
  have hloads : ∀ d ≤ n % htotal % 32 + 2, d < n % htotal →
      ((st.scan r m (n - d)).wordLoad r = true ↔ 30 ≤ (n % htotal - d) % 32) := by
    intro d hd hlt
    obtain ⟨hx, hy⟩ := hback (d := d) (by omega)
    rw [wordLoad, if_neg hne, if_pos hmode, graphicsLoad_iff ht, hx, hshown d hlt]
    omega
  apply scan_word (j := n % htotal % 32) (by omega)
  · rw [hloads _ (Nat.le_refl _) (by omega)]
    omega
  · intro d hd hle' hload
    have hphase := (hloads d hle' (by omega)).1 hload
    obtain ⟨hx, hy⟩ := hback (d := d) (by omega)
    rw [wordAddress, if_neg hne, if_pos hmode, toNat_graphicsAddress, hx, hshown d (by omega)]
    congr 3
    omega

/-- The mask has the bit of a pixel in its cell. -/
theorem text_charMask (hmode : r.videoMode = 0) {n : ℕ} (hleft : 8 ≤ n % htotal) :
    (st.scan r m n).charMask = BitVec.twoPow 8 (7 - n % htotal % 8) := by
  have hshift : ∀ j < 7, (0#1 ++ (BitVec.twoPow 8 (7 - j)).extractLsb 7 1 : BitVec 8) =
      BitVec.twoPow 8 (7 - (j + 1)) := by decide
  have hporch := ht.porch
  have htotal' := ht.total
  generalize hj : n % htotal % 8 = j
  -- on the place in the cell; the mask is set in the last clock of the cell before
  induction j generalizing n with
  | zero =>
    obtain ⟨t, rfl⟩ : ∃ t, n = t + 1 := ⟨n - 1, by have := Nat.mod_le n htotal; omega⟩
    obtain ⟨hx, -⟩ := scan_back (m := m) (n := t + 1) (d := 1) ht hX hY (by omega)
    rw [scan_succ, clock]
    simp only [hmode, if_true]
    rw [if_pos ((and_seven_iff _).2 (by rw [Nat.add_sub_cancel] at hx; rw [hx]; omega))]
    rfl
  | succ j ih =>
    obtain ⟨t, rfl⟩ : ∃ t, n = t + 1 := ⟨n - 1, by have := Nat.mod_le n htotal; omega⟩
    obtain ⟨hx, -⟩ := scan_back (m := m) (n := t + 1) (d := 1) ht hX hY (by omega)
    rw [Nat.add_sub_cancel] at hx
    have hprev : t % htotal = (t + 1) % htotal - 1 := by
      rw [← hx, counterX_eq ht hX hY]
    rw [scan_succ, clock]
    simp only [hmode, if_true]
    rw [if_neg (mt (and_seven_iff _).1 (by rw [hx]; omega)), ih (by omega) (by omega)]
    exact hshift j (by omega)

end Run

end DviState

end Karnix.Video
