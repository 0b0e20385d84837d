import Mathlib.Algebra.Ring.Divisibility.Basic
import Mathlib.Data.Int.GCD
import Mathlib.Logic.Function.Iterate
import Mathlib.Tactic.LinearCombination
import Mathlib.Tactic.Linarith
import Mathlib.Tactic.Ring

/-!
# Digital lines

A line that goes `a` to one side and `b` up is drawn by steps to the side, steps up and steps that
are both.  An error term decides: it is `a - b` at the start, loses `b` with every step to the side
and gains `a` with every step up.

The error is the distance from the ideal line, in units in which one pixel is the longer side, and
a constant.  So every step goes one pixel along the longer side, the distance stays within half
a pixel, and the line arrives.
-/

namespace Karnix.Library.DigitalLine

/-! ## Section 1: Steps -/

/-- The steps made so far, to the side and up. -/
structure Steps where
  across : ℕ
  up : ℕ
  deriving DecidableEq

variable (a b : ℕ)

/-- The distance from the ideal line. -/
def deviation (s : Steps) : ℤ := a * s.up - b * s.across

/-- The error term, which decides where the next step goes. -/
def error (s : Steps) : ℤ := a * (s.up + 1) - b * (s.across + 1)

/-- One pass of the loop. -/
def next (s : Steps) : Steps where
  across := if -(b : ℤ) ≤ 2 * error a b s then s.across + 1 else s.across
  up := if 2 * error a b s ≤ a then s.up + 1 else s.up

/-- The steps after `k` passes. -/
def walk (k : ℕ) : Steps := (next a b)^[k] ⟨0, 0⟩

variable {a b}

theorem walk_zero : walk a b 0 = ⟨0, 0⟩ := rfl

theorem walk_succ (k : ℕ) : walk a b (k + 1) = next a b (walk a b k) :=
  Function.iterate_succ_apply' _ _ _

theorem error_eq (s : Steps) : error a b s = deviation a b s + (a - b) := by
  unfold error deviation
  ring

theorem deviation_next (s : Steps) :
    deviation a b (next a b s) =
      deviation a b s - (if -(b : ℤ) ≤ 2 * error a b s then (b : ℤ) else 0) +
        (if 2 * error a b s ≤ a then (a : ℤ) else 0) := by
  unfold deviation next
  by_cases hacross : -(b : ℤ) ≤ 2 * error a b s
  · by_cases hup : 2 * error a b s ≤ a
    · rw [if_pos hacross, if_pos hup, if_pos hacross, if_pos hup]
      push_cast
      ring
    · rw [if_pos hacross, if_neg hup, if_pos hacross, if_neg hup]
      push_cast
      ring
  · by_cases hup : 2 * error a b s ≤ a
    · rw [if_neg hacross, if_pos hup, if_neg hacross, if_pos hup]
      push_cast
      ring
    · rw [if_neg hacross, if_neg hup, if_neg hacross, if_neg hup]
      ring

/-! ## Section 2: The invariant -/

/-- Within half a pixel of the ideal line, if the line is longer to the side. -/
def NearFlat (a b : ℕ) (s : Steps) : Prop :=
  -(a : ℤ) < 2 * deviation a b s ∧ 2 * deviation a b s ≤ a

/-- Within half a pixel of the ideal line, if the line is longer upwards. -/
def NearSteep (a b : ℕ) (s : Steps) : Prop :=
  -(b : ℤ) ≤ 2 * deviation a b s ∧ 2 * deviation a b s < b

/-- **Step lemma.**  A flat line goes to the side in every pass. -/
theorem next_flat (hab : b ≤ a) {s : Steps} (h : NearFlat a b s) :
    (next a b s).across = s.across + 1 ∧ NearFlat a b (next a b s) := by
  obtain ⟨hlow, hhigh⟩ := h
  have herror := error_eq (a := a) (b := b) s
  have hacross : -(b : ℤ) ≤ 2 * error a b s := by omega
  refine ⟨if_pos hacross, ?_⟩
  rw [NearFlat, deviation_next, if_pos hacross]
  split <;> omega

/-- **Step lemma.**  A steep line goes up in every pass. -/
theorem next_steep (hab : a < b) {s : Steps} (h : NearSteep a b s) :
    (next a b s).up = s.up + 1 ∧ NearSteep a b (next a b s) := by
  obtain ⟨hlow, hhigh⟩ := h
  have herror := error_eq (a := a) (b := b) s
  have hup : 2 * error a b s ≤ a := by omega
  refine ⟨if_pos hup, ?_⟩
  rw [NearSteep, deviation_next, if_pos hup]
  split <;> omega

/-- **Run lemma.**  On a flat line every pass goes across, and stays near the line. -/
theorem walk_flat (ha : 0 < a) (hab : b ≤ a) (k : ℕ) :
    (walk a b k).across = k ∧ NearFlat a b (walk a b k) := by
  induction k with
  | zero => exact ⟨rfl, by simp [NearFlat, deviation, walk_zero, ha]⟩
  | succ k ih =>
    obtain ⟨hnext, hnear⟩ := next_flat hab ih.2
    rw [walk_succ]
    exact ⟨hnext.trans (congrArg (· + 1) ih.1), hnear⟩

/-- **Run lemma.**  On a steep line every pass goes up, and stays near the line. -/
theorem walk_steep (hab : a < b) (k : ℕ) :
    (walk a b k).up = k ∧ NearSteep a b (walk a b k) := by
  induction k with
  | zero =>
    have hb : 0 < b := Nat.zero_lt_of_lt hab
    exact ⟨rfl, by simp [NearSteep, deviation, walk_zero, hb]⟩
  | succ k ih =>
    obtain ⟨hnext, hnear⟩ := next_steep hab ih.2
    rw [walk_succ]
    exact ⟨hnext.trans (congrArg (· + 1) ih.1), hnear⟩

/-- A multiple that is smaller than what it is a multiple of. -/
theorem eq_zero_of_mul_lt {n z : ℤ} (hlow : -n < n * z) (hhigh : n * z < n) : z = 0 := by
  have hn : 0 < n := by omega
  have hz : z < 1 := by
    by_contra hge
    have := mul_le_mul_of_nonneg_left (not_lt.mp hge) hn.le
    omega
  have hz' : -1 < z := by
    by_contra hge
    have := mul_le_mul_of_nonneg_left (not_lt.mp hge) hn.le
    omega
  omega

/-- A pass makes one step or none in each direction. -/
theorem walk_succ_cases (k : ℕ) :
    ((walk a b (k + 1)).across = (walk a b k).across ∨
      (walk a b (k + 1)).across = (walk a b k).across + 1) ∧
    ((walk a b (k + 1)).up = (walk a b k).up ∨ (walk a b (k + 1)).up = (walk a b k).up + 1) := by
  simp only [walk_succ, next]
  constructor
  · split <;> simp
  · split <;> simp

/-- A pass makes at most one step in each direction. -/
theorem walk_le (k : ℕ) : (walk a b k).across ≤ k ∧ (walk a b k).up ≤ k := by
  induction k with
  | zero => exact ⟨Nat.le_refl 0, Nat.le_refl 0⟩
  | succ k ih =>
    have hstep := walk_succ_cases (a := a) (b := b) k
    omega

/-- The line arrives with the last step along the longer side. -/
theorem walk_end : walk a b (max a b) = ⟨a, b⟩ := by
  rcases Nat.lt_or_ge a b with hab | hab
  · rw [max_eq_right hab.le]
    obtain ⟨hup, hlow, hhigh⟩ := walk_steep hab b
    have hdev : deviation a b (walk a b b) = b * (a - (walk a b b).across) := by
      rw [deviation, hup]
      ring
    rw [hdev] at hlow hhigh
    have hzero := eq_zero_of_mul_lt (n := b) (z := a - (walk a b b).across) (by omega) (by omega)
    have hacross : (walk a b b).across = a := by omega
    cases hwalk : walk a b b with
    | mk across up =>
      rw [hwalk] at hup hacross
      rw [← hup, ← hacross]
  · rw [max_eq_left hab]
    rcases Nat.eq_zero_or_pos a with rfl | ha
    · obtain rfl := Nat.le_zero.mp hab
      rfl
    · obtain ⟨hacross, hlow, hhigh⟩ := walk_flat ha hab a
      have hdev : deviation a b (walk a b a) = a * ((walk a b a).up - b) := by
        rw [deviation, hacross]
        ring
      rw [hdev] at hlow hhigh
      have hzero := eq_zero_of_mul_lt (n := a) (z := (walk a b a).up - b) (by omega) (by omega)
      have hup : (walk a b a).up = b := by omega
      cases hwalk : walk a b a with
      | mk across up =>
        rw [hwalk] at hup hacross
        rw [← hup, ← hacross]

/-- A line that is not flat goes up in every pass. -/
theorem walk_up (hb : 0 < b) (hab : a ≤ b) (k : ℕ) : (walk a b k).up = k := by
  rcases Nat.lt_or_ge a b with hlt | hge
  · exact (walk_steep hlt k).1
  · obtain rfl : a = b := Nat.le_antisymm hab hge
    obtain ⟨hacross, hlow, hhigh⟩ := walk_flat hb hge k
    have hdev : deviation a a (walk a a k) = a * ((walk a a k).up - k) := by
      rw [deviation, hacross]
      ring
    rw [hdev] at hlow hhigh
    have hzero := eq_zero_of_mul_lt (n := a) (z := (walk a a k).up - k) (by omega) (by omega)
    omega

/-- The distance is at most half a pixel along the shorter side. -/
theorem two_mul_abs_deviation_le {k : ℕ} (hk : k ≤ max a b) :
    2 * |deviation a b (walk a b k)| ≤ max a b := by
  rcases Nat.lt_or_ge a b with hab | hab
  · rw [max_eq_right hab.le]
    obtain ⟨-, hlow, hhigh⟩ := walk_steep hab k
    rcases abs_cases (deviation a b (walk a b k)) with ⟨habs, -⟩ | ⟨habs, -⟩
    · omega
    · omega
  · rw [max_eq_left hab] at hk ⊢
    rcases Nat.eq_zero_or_pos a with rfl | ha
    · obtain rfl := Nat.le_zero.mp hab
      simp [deviation]
    · obtain ⟨-, hlow, hhigh⟩ := walk_flat ha hab k
      rcases abs_cases (deviation a b (walk a b k)) with ⟨habs, -⟩ | ⟨habs, -⟩
      · omega
      · omega

/-- The line does not arrive earlier. -/
theorem walk_ne_end {k : ℕ} (h : k < max a b) : walk a b k ≠ ⟨a, b⟩ := by
  intro hend
  rcases Nat.lt_or_ge a b with hab | hab
  · have hup := (walk_steep hab k).1
    rw [hend] at hup
    rw [max_eq_right hab.le] at h
    exact absurd hup (Nat.ne_of_gt h)
  · rw [max_eq_left hab] at h
    have hacross := (walk_flat (Nat.zero_lt_of_lt h) hab k).1
    rw [hend] at hacross
    exact absurd hacross (Nat.ne_of_gt h)

/-! ## Section 3: How large the error becomes -/

/-- The largest multiple of the common divisor of `n` and `m` that is at most half of `n`. -/
def largestDeviation (n m : ℕ) : ℕ := n.gcd m * (n / (2 * n.gcd m))

theorem two_mul_largestDeviation_le (n m : ℕ) : 2 * largestDeviation n m ≤ n := by
  calc 2 * largestDeviation n m = 2 * n.gcd m * (n / (2 * n.gcd m)) := by
        rw [largestDeviation, Nat.mul_assoc]
    _ ≤ n := Nat.mul_div_le n _

theorem le_largestDeviation {n m : ℕ} {d : ℤ} (hd : (n.gcd m : ℤ) ∣ d) (hle : 2 * d ≤ n) :
    d ≤ largestDeviation n m := by
  rcases Nat.eq_zero_or_pos (n.gcd m) with hg | hg
  · rw [hg, Nat.cast_zero, zero_dvd_iff] at hd
    rw [hd]
    exact Int.natCast_nonneg _
  · obtain ⟨t, rfl⟩ := hd
    have ht : t ≤ (n : ℤ) / (2 * n.gcd m) := by
      rw [Int.le_ediv_iff_mul_le (by omega)]
      linarith
    rw [largestDeviation]
    push_cast
    exact mul_le_mul_of_nonneg_left ht (Int.natCast_nonneg _)

/-- Every multiple of the common divisor is a distance at some step. -/
theorem exists_combination {n m : ℕ} (hn : 0 < n) {d : ℤ} (hd : (n.gcd m : ℤ) ∣ d) :
    ∃ k < n, ∃ j : ℤ, n * j - m * k = d := by
  obtain ⟨t, rfl⟩ := hd
  have hbezout := Nat.gcd_eq_gcd_ab n m
  -- the coefficient of `m` is taken modulo `n`
  have hn' : (0 : ℤ) < n := by omega
  have hmod := Int.emod_nonneg (-(n.gcdB m * t)) hn'.ne'
  have hlt := Int.emod_lt_of_pos (-(n.gcdB m * t)) hn'
  have hdiv := Int.emod_add_mul_ediv (-(n.gcdB m * t)) n
  refine ⟨((-(n.gcdB m * t)) % n).toNat, by omega, n.gcdA m * t - m * ((-(n.gcdB m * t)) / n), ?_⟩
  rw [Int.toNat_of_nonneg hmod, hbezout]
  linear_combination -(m : ℤ) * hdiv

theorem gcd_dvd_deviation (s : Steps) : (a.gcd b : ℤ) ∣ deviation a b s := by
  have ha : (a.gcd b : ℤ) ∣ a := Int.natCast_dvd_natCast.mpr (Nat.gcd_dvd_left a b)
  have hb : (a.gcd b : ℤ) ∣ b := Int.natCast_dvd_natCast.mpr (Nat.gcd_dvd_right a b)
  exact dvd_sub (ha.mul_right _) (hb.mul_right _)

theorem deviation_le_of_flat (ha : 0 < a) (hab : b ≤ a) (k : ℕ) :
    deviation a b (walk a b k) ≤ largestDeviation a b :=
  le_largestDeviation (gcd_dvd_deviation _) (walk_flat ha hab k).2.2

theorem le_deviation_of_steep (hab : a < b) (k : ℕ) :
    -(largestDeviation b a : ℤ) ≤ deviation a b (walk a b k) := by
  have hdvd : (b.gcd a : ℤ) ∣ -deviation a b (walk a b k) := by
    rw [Nat.gcd_comm]
    exact dvd_neg.mpr (gcd_dvd_deviation _)
  have hnear := (walk_steep hab k).2.1
  have := le_largestDeviation hdvd (by omega)
  omega

/-- A flat line reaches the largest distance before it ends. -/
theorem exists_deviation_of_flat (ha : 0 < a) (hab : b ≤ a) :
    ∃ k < a, deviation a b (walk a b k) = largestDeviation a b := by
  obtain ⟨k, hk, j, hj⟩ := exists_combination (n := a) (m := b) ha
    (d := largestDeviation a b) (Int.natCast_dvd_natCast.mpr (Nat.dvd_mul_right _ _))
  refine ⟨k, hk, ?_⟩
  obtain ⟨hacross, hlow, hhigh⟩ := walk_flat ha hab k
  have hlargest := two_mul_largestDeviation_le a b
  have hdiff : deviation a b (walk a b k) - largestDeviation a b = a * ((walk a b k).up - j) := by
    rw [deviation, hacross, ← hj]
    ring
  have hzero := eq_zero_of_mul_lt (n := a) (z := (walk a b k).up - j) (by omega) (by omega)
  rw [hzero] at hdiff
  omega

/-- A steep line reaches the largest distance to the other side before it ends. -/
theorem exists_deviation_of_steep (hab : a < b) :
    ∃ k < b, deviation a b (walk a b k) = -largestDeviation b a := by
  obtain ⟨k, hk, j, hj⟩ := exists_combination (n := b) (m := a) (Nat.zero_lt_of_lt hab)
    (d := largestDeviation b a) (Int.natCast_dvd_natCast.mpr (Nat.dvd_mul_right _ _))
  refine ⟨k, hk, ?_⟩
  obtain ⟨hup, hlow, hhigh⟩ := walk_steep hab k
  have hlargest := two_mul_largestDeviation_le b a
  have hdiff : deviation a b (walk a b k) + largestDeviation b a =
      b * (j - (walk a b k).across) := by
    rw [deviation, hup, ← hj]
    ring
  have hzero := eq_zero_of_mul_lt (n := b) (z := j - (walk a b k).across) (by omega) (by omega)
  rw [hzero] at hdiff
  omega

end Karnix.Library.DigitalLine
