import Karnix.Library.Crc
import Mathlib.Algebra.CharP.Two
import Mathlib.Algebra.Field.ZMod
import Mathlib.Algebra.Polynomial.Div
import Mathlib.Data.ZMod.Basic
import Mathlib.RingTheory.Coprime.Lemmas
import Mathlib.RingTheory.Polynomial.DegreeLT

/-!
# Check registers and division of polynomials

A message is a polynomial over the field of two elements, its first bit the highest coefficient,
and a check register the remainder of the division by the generator.  So a register that starts
at zero ends at zero exactly for the multiples of the generator, and as an error that is a short
burst is no multiple, it is seen.
-/

namespace Karnix.Library

open Polynomial Finset

namespace Crc

variable {w : ℕ}

/-! ## Polynomials -/

/-- A bit as a coefficient. -/
def coeffOf (b : Bool) : ZMod 2 := if b then 1 else 0

/-- The polynomial of a message. -/
noncomputable def msgPoly (bs : List Bool) : (ZMod 2)[X] :=
  bs.foldl (fun p b => p * X + C (coeffOf b)) 0

/-- The polynomial of a register, whose lowest bit is the highest coefficient. -/
noncomputable def regPoly (r : BitVec w) : (ZMod 2)[X] :=
  ∑ i ∈ range w, C (coeffOf (r.getLsbD i)) * X ^ (w - 1 - i)

/-- The generator: the polynomial of the register with its leading term. -/
noncomputable def genPoly (poly : BitVec w) : (ZMod 2)[X] := X ^ w + regPoly poly

theorem coeffOf_xor (b b' : Bool) : coeffOf (b ^^ b') = coeffOf b + coeffOf b' := by
  cases b <;> cases b' <;> decide

theorem regPoly_xor (r r' : BitVec w) : regPoly (r ^^^ r') = regPoly r + regPoly r' := by
  rw [regPoly, regPoly, regPoly, ← sum_add_distrib]
  refine sum_congr rfl fun i _ => ?_
  rw [BitVec.getLsbD_xor, coeffOf_xor, C_add, add_mul]

theorem regPoly_zero : regPoly (0 : BitVec w) = 0 := by
  have hzero := regPoly_xor (0 : BitVec w) 0
  rw [BitVec.xor_self] at hzero
  exact left_eq_add.1 hzero

/-- The coefficients of a register are its bits. -/
theorem coeff_regPoly (r : BitVec w) {i : ℕ} (h : i < w) :
    (regPoly r).coeff (w - 1 - i) = coeffOf (r.getLsbD i) := by
  rw [regPoly, finsetSum_coeff, sum_eq_single i]
  · rw [coeff_C_mul_X_pow, if_pos rfl]
  · intro k hk hne
    have hkw : k < w := mem_range.1 hk
    rw [coeff_C_mul_X_pow, if_neg (by omega)]
  · exact fun hi => absurd (mem_range.2 h) hi

theorem degree_regPoly_lt (r : BitVec w) : (regPoly r).degree < w := by
  refine mem_degreeLT.1 (Submodule.sum_mem _ fun i hi => mem_degreeLT.2 ?_)
  have hiw : i < w := mem_range.1 hi
  have hexp : w - 1 - i < w := by omega
  exact (degree_C_mul_X_pow_le _ _).trans_lt (WithBot.coe_lt_coe.2 hexp)

theorem monic_genPoly (poly : BitVec w) : (genPoly poly).Monic :=
  monic_X_pow_add (degree_regPoly_lt poly)

theorem degree_genPoly (poly : BitVec w) : (genPoly poly).degree = w := by
  rw [genPoly, degree_add_eq_left_of_degree_lt, degree_X_pow]
  rw [degree_X_pow]
  exact degree_regPoly_lt poly

/-- A register is a remainder: it is no multiple of the generator, unless it is zero. -/
theorem genPoly_dvd_regPoly_iff {poly r : BitVec w} : genPoly poly ∣ regPoly r ↔ r = 0 := by
  constructor
  · intro hdvd
    have hzero : regPoly r = 0 := by
      by_contra hne
      refine (monic_genPoly poly).not_dvd_of_degree_lt hne ?_ hdvd
      rw [degree_genPoly]
      exact degree_regPoly_lt r
    apply BitVec.eq_of_getLsbD_eq
    intro i hi
    have hcoeff := coeff_regPoly r hi
    rw [hzero, coeff_zero] at hcoeff
    cases hbit : r.getLsbD i with
    | false => simp
    | true => rw [hbit] at hcoeff; cases hcoeff
  · rintro rfl
    rw [regPoly_zero]
    exact dvd_zero _

/-! ## Steps -/

/-- A register moved on is multiplied by the variable, but loses its lowest bit. -/
theorem regPoly_shiftRight (r : BitVec w) :
    regPoly (r >>> 1) = X * regPoly r + C (coeffOf (r.getLsbD 0)) * X ^ w := by
  cases w with
  | zero =>
    rw [regPoly, regPoly, BitVec.getLsbD_of_ge _ _ (Nat.zero_le 0)]
    simp [coeffOf]
  | succ w =>
    have hlow : ∀ i, (r >>> 1).getLsbD i = r.getLsbD (i + 1) := by
      intro i
      rw [BitVec.getLsbD_ushiftRight, Nat.add_comm 1 i]
    have hhigh : r.getLsbD (w + 1) = false := BitVec.getLsbD_of_ge _ _ (Nat.le_refl _)
    rw [regPoly, regPoly, sum_range_succ, sum_range_succ', hlow, hhigh]
    simp only [hlow]
    rw [mul_add, mul_sum, add_assoc]
    have hsum : ∑ i ∈ range w, C (coeffOf (r.getLsbD (i + 1))) * X ^ (w + 1 - 1 - i) =
        ∑ i ∈ range w, X * (C (coeffOf (r.getLsbD (i + 1))) * X ^ (w + 1 - 1 - (i + 1))) := by
      refine sum_congr rfl fun i hi => ?_
      have hiw : i < w := mem_range.1 hi
      rw [mul_left_comm, ← pow_succ']
      congr 2
      omega
    rw [hsum]
    congr 1
    have hlast : (X : (ZMod 2)[X]) * (C (coeffOf (r.getLsbD 0)) * X ^ (w + 1 - 1 - 0)) =
        C (coeffOf (r.getLsbD 0)) * X ^ (w + 1) := by
      rw [mul_left_comm, ← pow_succ']
      rfl
    rw [hlast, CharTwo.add_self_eq_zero]
    simp [coeffOf]

theorem regPoly_shift (poly r : BitVec w) :
    regPoly (shift poly r) = X * regPoly r + C (coeffOf (r.getLsbD 0)) * genPoly poly := by
  unfold shift
  cases hbit : r.getLsbD 0 with
  | false => rw [if_neg Bool.false_ne_true, regPoly_shiftRight, hbit]; simp [coeffOf]
  | true =>
    rw [if_pos rfl, regPoly_xor, regPoly_shiftRight, hbit, genPoly]
    simp [coeffOf, add_assoc]

theorem regPoly_bitVal (hw : 0 < w) (b : Bool) :
    regPoly (bitVal w b) = C (coeffOf b) * X ^ (w - 1) := by
  rw [regPoly, sum_eq_single 0]
  · cases b <;> simp [bitVal, coeffOf, hw]
  · intro i hi hne
    have hiw : i < w := mem_range.1 hi
    cases b <;> simp [bitVal, coeffOf, hiw, hne]
  · exact fun h => absurd (mem_range.2 hw) h

/-- A step multiplies the register by the variable, and adds the bit, up to the generator. -/
theorem regPoly_bit (poly r : BitVec w) (hw : 0 < w) (b : Bool) :
    genPoly poly ∣ regPoly (bit poly r b) - (X * regPoly r + C (coeffOf b) * X ^ w) := by
  rw [bit, regPoly_shift, regPoly_xor, regPoly_bitVal hw, mul_add, mul_left_comm, ← pow_succ',
    Nat.sub_add_cancel hw, add_sub_cancel_left]
  exact dvd_mul_left _ _

theorem msgPoly_concat (bs : List Bool) (b : Bool) :
    msgPoly (bs ++ [b]) = msgPoly bs * X + C (coeffOf b) := List.foldl_append

/-- **A register is a remainder.** -/
theorem regPoly_bits (poly : BitVec w) (hw : 0 < w) (bs : List Bool) :
    genPoly poly ∣ regPoly (bits poly 0 bs) - msgPoly bs * X ^ w := by
  induction bs using List.reverseRecOn with
  | nil =>
    rw [bits_nil, regPoly_zero, msgPoly, List.foldl_nil, zero_mul, sub_zero]
    exact dvd_zero _
  | append_singleton bs b ih =>
    have hstep := regPoly_bit poly (bits poly 0 bs) hw b
    have hmul := ih.mul_left X
    rw [bits_append, bits_cons, bits_nil, msgPoly_concat]
    have hsum := dvd_add hstep hmul
    have heq : regPoly (bit poly (bits poly 0 bs) b) -
          (X * regPoly (bits poly 0 bs) + C (coeffOf b) * X ^ w) +
          X * (regPoly (bits poly 0 bs) - msgPoly bs * X ^ w) =
        regPoly (bit poly (bits poly 0 bs) b) - (msgPoly bs * X + C (coeffOf b)) * X ^ w := by
      ring
    rwa [heq] at hsum

/-! ## Multiples of the generator -/

/-- A generator with its highest bit has the constant coefficient 1. -/
theorem isCoprime_genPoly_X {poly : BitVec w} (hpoly : poly.msb = true) :
    IsCoprime (genPoly poly) X := by
  have hw : 0 < w := by
    rcases Nat.eq_zero_or_pos w with rfl | h
    · rw [BitVec.eq_nil poly] at hpoly
      cases hpoly
    · exact h
  have hbit : poly.getLsbD (w - 1) = true := by
    rwa [BitVec.msb_eq_getLsbD_last] at hpoly
  have hconst : (genPoly poly).coeff 0 = 1 := by
    have hcoeff := coeff_regPoly poly (Nat.sub_lt hw Nat.one_pos)
    rw [Nat.sub_self, hbit] at hcoeff
    rw [genPoly, coeff_add, hcoeff, coeff_X_pow, if_neg (Nat.ne_of_lt hw), zero_add]
    rfl
  obtain ⟨q, hq⟩ := X_dvd_iff.2 (show (genPoly poly - 1).coeff 0 = 0 by
    rw [coeff_sub, hconst, coeff_one_zero, sub_self])
  refine ⟨1, -q, ?_⟩
  rw [one_mul, neg_mul, mul_comm q, ← hq]
  ring

/-- **A message leaves a register of zeros exactly if it is a multiple of the generator.** -/
theorem bits_eq_zero_iff {poly : BitVec w} (hpoly : poly.msb = true) (hw : 0 < w)
    (bs : List Bool) : bits poly 0 bs = 0 ↔ genPoly poly ∣ msgPoly bs := by
  have hbits := regPoly_bits poly hw bs
  have hcancel : genPoly poly ∣ msgPoly bs * X ^ w ↔ genPoly poly ∣ msgPoly bs :=
    ⟨(isCoprime_genPoly_X hpoly).pow_right.dvd_of_dvd_mul_right, fun h => h.mul_right _⟩
  rw [← @genPoly_dvd_regPoly_iff _ poly, ← hcancel]
  exact dvd_iff_dvd_of_dvd_sub hbits

/-! ## Bursts -/

/-- An error whose places lie within `n` bits. -/
def IsBurst (n : ℕ) (bs : List Bool) : Prop :=
  ∃ i b j, bs = List.replicate i false ++ b ++ List.replicate j false ∧ b.length ≤ n ∧ true ∈ b

theorem msgPoly_foldl (p : (ZMod 2)[X]) (bs : List Bool) :
    bs.foldl (fun p b => p * X + C (coeffOf b)) p = p * X ^ bs.length + msgPoly bs := by
  induction bs using List.reverseRecOn with
  | nil => simp [msgPoly]
  | append_singleton bs b ih =>
    rw [List.foldl_append, ih, msgPoly_concat, List.length_append]
    simp only [List.foldl_cons, List.foldl_nil, List.length_singleton]
    ring

theorem msgPoly_append (bs bs' : List Bool) :
    msgPoly (bs ++ bs') = msgPoly bs * X ^ bs'.length + msgPoly bs' := by
  rw [msgPoly, List.foldl_append]
  exact msgPoly_foldl _ bs'

theorem msgPoly_replicate (n : ℕ) : msgPoly (List.replicate n false) = 0 := by
  induction n with
  | zero => rfl
  | succ n ih =>
    rw [List.replicate_succ', msgPoly_concat, ih]
    simp [coeffOf]

theorem coeff_msgPoly_succ (bs : List Bool) (b : Bool) (k : ℕ) :
    (msgPoly (bs ++ [b])).coeff (k + 1) = (msgPoly bs).coeff k := by
  rw [msgPoly_concat, coeff_add, coeff_mul_X, coeff_C_succ, add_zero]

theorem coeff_msgPoly_zero (bs : List Bool) (b : Bool) :
    (msgPoly (bs ++ [b])).coeff 0 = coeffOf b := by
  rw [msgPoly_concat, coeff_add, mul_coeff_zero, coeff_X_zero, mul_zero, zero_add, coeff_C_zero]

theorem degree_msgPoly_lt (bs : List Bool) : (msgPoly bs).degree < bs.length := by
  rw [degree_lt_iff_coeff_zero]
  induction bs using List.reverseRecOn with
  | nil => exact fun m _ => coeff_zero m
  | append_singleton bs b ih =>
    intro m hm
    rw [List.length_append, List.length_singleton] at hm
    cases m with
    | zero => omega
    | succ m => rw [coeff_msgPoly_succ, ih m (Nat.le_of_succ_le_succ hm)]

theorem msgPoly_ne_zero {bs : List Bool} (h : true ∈ bs) : msgPoly bs ≠ 0 := by
  induction bs using List.reverseRecOn with
  | nil => cases h
  | append_singleton bs b ih =>
    intro hzero
    rcases List.mem_append.1 h with hmem | hmem
    · refine ih hmem (Polynomial.ext fun k => ?_)
      rw [← coeff_msgPoly_succ bs b, hzero, coeff_zero, coeff_zero]
    · have hlast := coeff_msgPoly_zero bs b
      rw [hzero, coeff_zero, ← List.mem_singleton.1 hmem] at hlast
      cases hlast

/-- **A burst that fits into the register is seen.** -/
theorem bits_burst_ne_zero {poly : BitVec w} (hpoly : poly.msb = true) (hw : 0 < w)
    {bs : List Bool} (h : IsBurst w bs) : bits poly 0 bs ≠ 0 := by
  obtain ⟨i, b, j, rfl, hlen, hmem⟩ := h
  rw [Ne, bits_eq_zero_iff hpoly hw, msgPoly_append, msgPoly_append, msgPoly_replicate,
    msgPoly_replicate, zero_mul, zero_add, add_zero]
  intro hdvd
  have hb := ((isCoprime_genPoly_X hpoly).pow_right).dvd_of_dvd_mul_right hdvd
  refine (monic_genPoly poly).not_dvd_of_degree_lt (msgPoly_ne_zero hmem) ?_ hb
  rw [degree_genPoly]
  exact (degree_msgPoly_lt b).trans_le (WithBot.coe_le_coe.2 hlen)

end Crc

end Karnix.Library
