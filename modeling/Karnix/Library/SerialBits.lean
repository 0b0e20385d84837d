import Mathlib.Data.BitVec
import Mathlib.Data.Nat.Bitwise

/-!
# Bits on a serial bus

Words are sent bit by bit, the most significant bit first, while a select line is low.  What the
device on the bus sees is one list of bits for each time it was selected: its `Windows`.
-/

namespace Karnix.Library

/-! ## Bits of words -/

/-- The bits of a word, most significant first. -/
def msbFirst {n : ℕ} (x : BitVec n) : List Bool := (List.range n).map x.getMsbD

/-- The number with these bits, most significant first. -/
def ofBits (bs : List Bool) : ℕ := bs.foldl (fun n b => 2 * n + b.toNat) 0

@[simp] theorem length_msbFirst {n : ℕ} (x : BitVec n) : (msbFirst x).length = n := by
  simp [msbFirst]

theorem take_msbFirst_succ {n k : ℕ} (x : BitVec n) (hk : k < n) :
    (msbFirst x).take (k + 1) = (msbFirst x).take k ++ [x.getLsbD (n - 1 - k)] := by
  rw [List.take_succ_eq_append_getElem (by simpa using hk)]
  simp [msbFirst, BitVec.getMsbD, hk]

theorem msbFirst_append {m n : ℕ} (x : BitVec m) (y : BitVec n) :
    msbFirst (x ++ y) = msbFirst x ++ msbFirst y := by
  unfold msbFirst
  rw [List.range_add, List.map_append, List.map_map]
  congr 1
  · refine List.map_congr_left fun k hk => ?_
    have hlt : k < m := List.mem_range.mp hk
    simp [BitVec.getMsbD_append, hlt]
  · refine List.map_congr_left fun k hk => ?_
    simp [BitVec.getMsbD_append]

theorem ofBits_concat (bs : List Bool) (b : Bool) :
    ofBits (bs ++ [b]) = 2 * ofBits bs + b.toNat := by
  simp [ofBits]

theorem ofBits_range (n m : ℕ) :
    ofBits ((List.range n).map fun k => m.testBit (n - 1 - k)) = m % 2 ^ n := by
  -- the last bit is the lowest one, and the others are the bits of `m / 2`
  induction n generalizing m with
  | zero => simp [ofBits, Nat.mod_one]
  | succ n ih =>
    have hhigh : (List.range n).map (fun k => m.testBit (n + 1 - 1 - k)) =
        (List.range n).map fun k => (m / 2).testBit (n - 1 - k) := by
      refine List.map_congr_left fun k hk => ?_
      have hlt : k < n := List.mem_range.mp hk
      rw [show n + 1 - 1 - k = n - 1 - k + 1 by omega, Nat.testBit_succ]
    have hlow : (m.testBit (n + 1 - 1 - n)).toNat = m % 2 := by
      rw [show n + 1 - 1 - n = 0 by omega, Nat.testBit_zero]
      rcases Nat.mod_two_eq_zero_or_one m with h | h <;> simp [h]
    rw [List.range_succ, List.map_append, List.map_singleton, ofBits_concat, hhigh, ih, hlow,
      pow_succ', Nat.mod_mul]
    omega

/-- A word is the number of its bits. -/
theorem ofBits_msbFirst {n : ℕ} (x : BitVec n) : ofBits (msbFirst x) = x.toNat := by
  have hbits : msbFirst x = (List.range n).map fun k => x.toNat.testBit (n - 1 - k) := by
    refine List.map_congr_left fun k hk => ?_
    have hlt : k < n := List.mem_range.mp hk
    simp [BitVec.getMsbD, hlt, BitVec.getLsbD]
  rw [hbits, ofBits_range, Nat.mod_eq_of_lt x.isLt]

/-- The bits `n`, …, `0` of a word that is looked at bit by bit. -/
def downFrom (f : ℕ → Bool) : ℕ → List Bool
  | 0 => [f 0]
  | n + 1 => f (n + 1) :: downFrom f n

theorem downFrom_eq_map (f : ℕ → Bool) (n : ℕ) :
    downFrom f n = (List.range (n + 1)).map fun k => f (n - k) := by
  induction n with
  | zero => rfl
  | succ n ih =>
    rw [downFrom, ih, List.range_succ_eq_map (n := n + 1), List.map_cons, List.map_map]
    refine congrArg₂ List.cons rfl (List.map_congr_left fun k _ => ?_)
    simp

theorem downFrom_getLsbD {n : ℕ} (x : BitVec (n + 1)) : downFrom x.getLsbD n = msbFirst x := by
  rw [downFrom_eq_map]
  refine List.map_congr_left fun k hk => ?_
  have hlt : k < n + 1 := List.mem_range.mp hk
  simp [BitVec.getMsbD, hlt]

/-! ## Select windows -/

/-- What a device has seen: the bits of the windows that are over, and those of the window that is
open. -/
structure Windows where
  closed : List (List Bool)
  current : Option (List Bool)

namespace Windows

/-- One cycle of the bus: the device is not selected, or it is and there may be a bit. -/
def clock (w : Windows) : Option (Option Bool) → Windows
  | none => ⟨w.closed ++ w.current.toList, none⟩
  | some b => ⟨w.closed, some (w.current.getD [] ++ b.toList)⟩

/-- The bits of all windows. -/
def all (w : Windows) : List (List Bool) := w.closed ++ w.current.toList

/-- The bits of the window that is open. -/
def shifted (w : Windows) : List Bool := w.current.getD []

@[simp] theorem shifted_clock_none (w : Windows) : (w.clock none).shifted = [] := rfl

@[simp] theorem shifted_clock_idle (w : Windows) : (w.clock (some none)).shifted = w.shifted :=
  List.append_nil _

@[simp] theorem shifted_clock_bit (w : Windows) (b : Bool) :
    (w.clock (some (some b))).shifted = w.shifted ++ [b] := rfl

theorem clock_idle (closed : List (List Bool)) (bits : List Bool) :
    (Windows.mk closed (some bits)).clock (some none) = ⟨closed, some bits⟩ := by
  simp [clock]

/-- The device does not forget a window. -/
theorem length_all_le_clock (w : Windows) (b : Option (Option Bool)) :
    w.all.length ≤ (w.clock b).all.length := by
  cases b with
  | none => simp [all, clock]
  | some b => cases hc : w.current <;> simp [all, clock, hc]

end Windows

end Karnix.Library
