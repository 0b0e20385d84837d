import Mathlib.Data.Nat.ModEq
import Karnix.Library.Memory

/-!
# Circular buffers

A circular buffer of `size` cells lives in the addresses `0 .. size - 1` of a memory.
`slice ring size start n` is the list of the `n` cells met from `start` on, going round
at the end of the buffer.  The lemmas say how a slice splits, when it is a plain range of
the memory, and how it grows when a block is copied behind its end.
-/

namespace Karnix.Library.Ring

universe u

variable {α : Type u} (ring : Memory α) (size : ℕ)

/-- The `n` cells of the circular buffer from index `start` on. -/
def slice (start n : ℕ) : List α :=
  (List.range n).map fun i => ring ((start + i) % size)

@[simp] theorem length_slice (start n : ℕ) : (slice ring size start n).length = n := by
  simp [slice]

@[simp] theorem slice_zero (start : ℕ) : slice ring size start 0 = [] := rfl

theorem slice_mod (start n : ℕ) :
    slice ring size (start % size) n = slice ring size start n := by
  simp [slice, Nat.mod_add_mod]

theorem slice_add (start n k : ℕ) :
    slice ring size start (n + k) =
      slice ring size start n ++ slice ring size ((start + n) % size) k := by
  rw [slice_mod]
  simp [slice, List.range_add, Nat.add_assoc]

/-- A slice that does not reach the end of the buffer is a plain range. -/
theorem slice_eq_load {start n : ℕ} (h : start + n ≤ size) :
    slice ring size start n = ring.load start n := by
  apply List.map_congr_left
  intro i hi
  rw [Nat.mod_eq_of_lt (by have := List.mem_range.mp hi; omega)]

theorem slice_congr {ring ring' : Memory α} {size start n : ℕ}
    (h : ∀ i, i < n → ring ((start + i) % size) = ring' ((start + i) % size)) :
    slice ring size start n = slice ring' size start n := by
  apply List.map_congr_left
  intro i hi
  exact h i (List.mem_range.mp hi)

/-! ## Copying a block behind a slice -/

/-- Indices within one turn of each other are different cells. -/
theorem index_ne {size i j : ℕ} (start : ℕ) (hij : i < j) (hj : j < size) :
    (start + i) % size ≠ (start + j) % size := by
  intro h
  have hmod : i ≡ j [MOD size] := Nat.ModEq.add_left_cancel' start h
  have : i = j := by
    simpa [Nat.ModEq, Nat.mod_eq_of_lt hj, Nat.mod_eq_of_lt (hij.trans hj)] using hmod
  omega

/-- A block copied to the cells that follow a slice leaves the slice as it was. -/
theorem slice_store_tail (start n : ℕ) (xs : List α) (hroom : n + xs.length ≤ size)
    (hfit : (start + n) % size + xs.length ≤ size) :
    slice (ring.store ((start + n) % size) xs) size start n = slice ring size start n := by
  apply slice_congr
  intro i hi
  by_cases hbefore : (start + i) % size < (start + n) % size
  · exact Memory.store_of_lt ring xs hbefore
  · -- the cell is not one of the `xs.length` cells from `(start + n) % size` on
    by_cases hafter : (start + n) % size + xs.length ≤ (start + i) % size
    · exact Memory.store_of_ge ring xs hafter
    · exfalso
      obtain ⟨d, hd⟩ := Nat.exists_eq_add_of_le (Nat.le_of_not_lt hbefore)
      have hlt : (start + n) % size + d < size := by omega
      have hidx : (start + (n + d)) % size = (start + i) % size := by
        rw [hd, ← Nat.add_assoc, Nat.add_mod, Nat.mod_eq_of_lt (show d < size by omega),
          Nat.mod_eq_of_lt hlt]
      exact index_ne start (show i < n + d by omega) (by omega) hidx.symm

/-- **Growing a slice.**  A block that fits before the end of the buffer, copied to the
cells that follow a slice, extends the slice by that block. -/
theorem slice_store_append (start n : ℕ) (xs : List α) (hroom : n + xs.length ≤ size)
    (hfit : (start + n) % size + xs.length ≤ size) :
    slice (ring.store ((start + n) % size) xs) size start (n + xs.length) =
      slice ring size start n ++ xs := by
  rw [slice_add, slice_store_tail ring size start n xs hroom hfit, slice_eq_load _ _ hfit,
    Memory.load_store_self]

/-! ## Copying a block round the end -/

/-- The cells `xs` copied to the indices from `start` on, going round at the end. -/
def put (ring : Memory α) (size start : ℕ) : List α → Memory α
  | [] => ring
  | x :: xs => put (ring.store (start % size) [x]) size (start + 1) xs

@[simp] theorem put_nil (start : ℕ) : put ring size start [] = ring := rfl

theorem put_mod (start : ℕ) (xs : List α) :
    put ring size (start % size) xs = put ring size start xs := by
  induction xs generalizing ring start with
  | nil => rfl
  | cons x xs ih =>
    rw [put, put, Nat.mod_mod, ← ih _ (start % size + 1), Nat.mod_add_mod, ih]

theorem put_append (start : ℕ) (xs ys : List α) :
    put ring size start (xs ++ ys) =
      put (put ring size start xs) size (start + xs.length) ys := by
  induction xs generalizing ring start with
  | nil => rfl
  | cons x xs ih =>
    rw [List.cons_append, put, put, ih, List.length_cons, Nat.add_assoc, Nat.add_comm 1]

/-- A block that fits before the end of the buffer is copied as it is. -/
theorem put_eq_store {start : ℕ} {xs : List α} (hfit : start + xs.length ≤ size) :
    put ring size start xs = ring.store start xs := by
  induction xs generalizing ring start with
  | nil => simp
  | cons x xs ih =>
    rw [List.length_cons] at hfit
    rw [put, Nat.mod_eq_of_lt (by omega), ih _ (by omega)]
    exact (Memory.store_append ring start [x] xs).symm

/-- Only the cells of the block are written. -/
theorem put_of_ne {start k : ℕ} {xs : List α}
    (h : ∀ i < xs.length, k ≠ (start + i) % size) : put ring size start xs k = ring k := by
  induction xs generalizing ring start with
  | nil => rfl
  | cons x xs ih =>
    rw [put, ih _ fun i hi => ?_]
    · have hfirst := h 0 (Nat.succ_pos _)
      rw [Nat.add_zero] at hfirst
      rw [Memory.store_singleton, if_neg hfirst]
    · have hne := h (i + 1) (Nat.succ_lt_succ hi)
      rwa [Nat.add_comm i, ← Nat.add_assoc] at hne

/-- A block that is not longer than the buffer is found where it was copied to. -/
theorem put_getElem {start i : ℕ} {xs : List α} (hlen : xs.length ≤ size)
    (hi : i < xs.length) : put ring size start xs ((start + i) % size) = xs[i] := by
  induction xs generalizing ring start i with
  | nil => simp at hi
  | cons x xs ih =>
    rw [List.length_cons] at hlen hi
    cases i with
    | zero =>
      -- the cells that follow are other cells, so the first one stays
      rw [put, put_of_ne _ _ fun j hj => ?_]
      · rw [Memory.store_singleton, Nat.add_zero, if_pos rfl, List.getElem_cons_zero]
      · rw [Nat.add_assoc]
        exact index_ne start (Nat.lt_of_lt_of_le Nat.zero_lt_one (Nat.le_add_right 1 j)) (by omega)
    | succ i =>
      rw [put, List.getElem_cons_succ, ← ih _ (by omega) (by omega), Nat.add_comm i,
        ← Nat.add_assoc]

end Karnix.Library.Ring
