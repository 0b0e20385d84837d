import Karnix.Video.ConsoleBounds

/-!
# The cells of the text console

What a store, a cleared row and a scrolled screen do to the single cells of the 64 rows of 80.
-/

namespace Karnix.Video

open Karnix.Library

/-- The cells of the 64 rows. -/
def cgaTextCells : ℕ := cgaTextHeightTotal * cgaTextWidth

theorem cgaTextCells_eq : cgaTextCells = 5120 := rfl

/-- Cell `n` of the framebuffer. -/
def TextFrame.cell (f : TextFrame) (n : ℕ) : BitVec 32 := f.words (BitVec.ofNat 30 n)

variable {f : TextFrame} {k n : ℕ}

theorem ofNat_inj {a b : ℕ} (ha : a < 2 ^ 30) (hb : b < 2 ^ 30) :
    BitVec.ofNat 30 a = BitVec.ofNat 30 b ↔ a = b := by
  rw [← BitVec.toNat_inj, BitVec.toNat_ofNat, BitVec.toNat_ofNat, Nat.mod_eq_of_lt ha,
    Nat.mod_eq_of_lt hb]

/-! ## Section 1: Stores -/

theorem cell_store (hk : k < 2 ^ 30) (hn : n < 2 ^ 30) (w : BitVec 32) :
    (f.store (BitVec.ofNat 30 k) w).cell n = if n = k then w else f.cell n := by
  simp only [TextFrame.cell, TextFrame.store, ofNat_inj hn hk]

theorem cell_fill {m : ℕ} (hk : k + m ≤ 2 ^ 30) (hn : n < 2 ^ 30) (w : BitVec 32) :
    (f.fill (BitVec.ofNat 30 k) w m).cell n = if k ≤ n ∧ n < k + m then w else f.cell n := by
  induction m with
  | zero =>
    have hnot : ¬ (k ≤ n ∧ n < k + 0) := by omega
    rw [if_neg hnot]
    rfl
  | succ m ih =>
    have hlast : k + m < 2 ^ 30 := by omega
    rw [TextFrame.fill, ← BitVec.ofNat_add, cell_store hlast hn, ih (by omega)]
    -- the last cell, or one of those before it
    by_cases hn' : n = k + m
    · rw [if_pos hn', if_pos (by omega)]
    · rw [if_neg hn']
      by_cases hin : k ≤ n ∧ n < k + m
      · rw [if_pos hin, if_pos (by omega)]
      · rw [if_neg hin, if_neg (by omega)]

/-! ## Section 2: Scrolling -/

/-- **Run lemma.**  The rows of a column above row `m` have moved up. -/
theorem cell_rows {col m : ℕ} (hcol : col < 80) (hm : m ≤ 63) (hn : n < 5120) :
    ((List.range m).foldl (fun f row =>
      f.store (BitVec.ofNat 30 (row * cgaTextWidth + col))
        (f.words (BitVec.ofNat 30 (row * cgaTextWidth + col + cgaTextWidth)))) f).cell n
      = if n % 80 = col ∧ n / 80 < m then f.cell (n + 80) else f.cell n := by
  induction m generalizing n with
  | zero =>
    rw [if_neg (by omega)]
    rfl
  | succ m ih =>
    rw [List.range_succ, List.foldl_append, List.foldl_cons, List.foldl_nil]
    generalize hprev : (List.range m).foldl _ f = prev at ih ⊢
    have hread : prev.words (BitVec.ofNat 30 (m * cgaTextWidth + col + cgaTextWidth))
        = f.cell (m * 80 + col + 80) := by
      -- the row below has not moved yet
      have hbelow := ih (by omega) (n := m * 80 + col + 80) (by omega)
      rw [if_neg (by omega)] at hbelow
      exact hbelow
    rw [hread]
    have hplace : m * cgaTextWidth + col < 2 ^ 30 := by
      unfold cgaTextWidth
      omega
    rw [cell_store hplace (by omega), ih (by omega) hn]
    unfold cgaTextWidth
    by_cases hthis : n = m * 80 + col
    · subst hthis
      rw [if_pos rfl, if_pos (by omega)]
    · rw [if_neg hthis]
      by_cases habove : n % 80 = col ∧ n / 80 < m
      · rw [if_pos habove, if_pos (by omega)]
      · rw [if_neg habove, if_neg (by omega)]

/-- A column moves up, its first cell to the end. -/
theorem cell_rotate {col : ℕ} (hcol : col < 80) (hn : n < 5120) :
    (f.rotate col).cell n = if n % 80 = col then f.cell ((n + 80) % 5120) else f.cell n := by
  have hlast : (cgaTextHeightTotal - 1) * cgaTextWidth + col = 63 * 80 + col := rfl
  have hrows : cgaTextHeightTotal - 1 = 63 := rfl
  simp only [TextFrame.rotate]
  rw [hlast, cell_store (by omega) (by omega), hrows, cell_rows hcol (Nat.le_refl 63) hn]
  by_cases hend : n = 63 * 80 + col
  · have hcell : (n + 80) % 5120 = col := by omega
    rw [if_pos hend, if_pos (by omega), hcell]
    rfl
  · rw [if_neg hend]
    by_cases hthis : n % 80 = col
    · have hcell : (n + 80) % 5120 = n + 80 := by omega
      rw [if_pos (by omega), if_pos hthis, hcell]
    · rw [if_neg (by omega), if_neg hthis]

/-- **Run lemma.**  The first `m` columns have moved up. -/
theorem cell_columns {m : ℕ} (hm : m ≤ 80) (hn : n < 5120) :
    ((List.range m).foldl TextFrame.rotate f).cell n
      = if n % 80 < m then f.cell ((n + 80) % 5120) else f.cell n := by
  induction m generalizing n with
  | zero =>
    rw [if_neg (by omega)]
    rfl
  | succ m ih =>
    rw [List.range_succ, List.foldl_append, List.foldl_cons, List.foldl_nil,
      cell_rotate (by omega) hn]
    by_cases hthis : n % 80 = m
    · -- the column itself was not touched before
      rw [if_pos hthis, if_pos (by omega), ih (by omega) (by omega), if_neg (by omega)]
    · rw [if_neg hthis, ih (by omega) hn]
      by_cases hbefore : n % 80 < m
      · rw [if_pos hbefore, if_pos (by omega)]
      · rw [if_neg hbefore, if_neg (by omega)]

/-- Scrolling moves every row up by one, the first to the end. -/
theorem cell_scrollUp (c : CgaText) (hn : n < cgaTextCells) :
    c.scrollUp.frame.cell n = c.frame.cell ((n + 80) % cgaTextCells) := by
  rw [cgaTextCells_eq] at hn ⊢
  have hcolumns := cell_columns (f := c.frame) (Nat.le_refl 80) hn
  rw [if_pos (Nat.mod_lt n (by decide))] at hcolumns
  exact hcolumns

/-- Scrolling by `s` rows: a cell shows what was `s` rows below it. -/
theorem cell_scrollUps (s : ℕ) (c : CgaText) (hn : n < cgaTextCells) :
    (CgaText.scrollUp^[s] c).frame.cell n = c.frame.cell ((n + 80 * s) % cgaTextCells) := by
  induction s generalizing c with
  | zero =>
    rw [Nat.mul_zero, Nat.add_zero, Nat.mod_eq_of_lt hn]
    rfl
  | succ s ih =>
    have hmod : (n + 80 * s) % cgaTextCells < cgaTextCells := Nat.mod_lt _ (by decide)
    have hsum : n + 80 * s + 80 = n + 80 * (s + 1) := by omega
    rw [Function.iterate_succ_apply, ih, cell_scrollUp c hmod, Nat.mod_add_mod, hsum]

end Karnix.Video
