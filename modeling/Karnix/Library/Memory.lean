import Mathlib.Data.List.Basic
import Mathlib.Data.Nat.Notation

/-!
# Flat memories

A memory is a total function from addresses to cells.  `store` copies a list of
cells to an address (`memcpy` towards the memory), `load` copies a range out of it,
and `fill` writes one value over a range (`memset`).  The cell type is arbitrary:
bytes, half-words and audio samples all use the same operations.
-/

namespace Karnix.Library

universe u

/-- A memory with cells of type `α`, one per address. -/
abbrev Memory (α : Type u) := ℕ → α

namespace Memory

variable {α : Type u}

/-! ## Operations -/

/-- Copy the cells `xs` to the addresses from `a` on. -/
def store (m : Memory α) (a : ℕ) (xs : List α) : Memory α :=
  fun k => if a ≤ k then (xs[k - a]?).getD (m k) else m k

/-- The `n` cells from address `a` on. -/
def load (m : Memory α) (a n : ℕ) : List α :=
  (List.range n).map fun i => m (a + i)

/-- Write `x` to the `n` addresses from `a` on. -/
def fill (m : Memory α) (a n : ℕ) (x : α) : Memory α :=
  fun k => if a ≤ k ∧ k < a + n then x else m k

/-! ## Reading single cells -/

theorem store_of_lt (m : Memory α) {a k : ℕ} (xs : List α) (h : k < a) :
    m.store a xs k = m k := by
  simp [store, Nat.not_le.mpr h]

theorem store_of_ge (m : Memory α) {a k : ℕ} (xs : List α) (h : a + xs.length ≤ k) :
    m.store a xs k = m k := by
  have hlen : xs.length ≤ k - a := by omega
  simp [store, List.getElem?_eq_none hlen]

/-- Only the cells of the range are written. -/
theorem store_of_notMem (m : Memory α) {a k n : ℕ} {xs : List α} (hn : xs.length = n)
    (h : k ∉ List.range' a n) : m.store a xs k = m k := by
  rw [List.mem_range'_1, not_and, Nat.not_lt] at h
  rcases Nat.lt_or_ge k a with hlt | hge
  · exact store_of_lt m xs hlt
  · refine store_of_ge m xs ?_
    rw [hn]
    exact h hge

theorem store_getElem (m : Memory α) (a i : ℕ) (xs : List α) (h : i < xs.length) :
    m.store a xs (a + i) = xs[i] := by
  simp [store, h]

@[simp] theorem store_nil (m : Memory α) (a : ℕ) : m.store a [] = m := by
  funext k
  simp [store]

theorem store_singleton (m : Memory α) (a k : ℕ) (x : α) :
    m.store a [x] k = if k = a then x else m k := by
  split_ifs with h
  · subst h
    exact store_getElem m k 0 [x] Nat.one_pos
  · rcases Nat.lt_or_ge k a with hlt | hge
    · exact store_of_lt m [x] hlt
    · exact store_of_ge m [x] (Nat.lt_of_le_of_ne hge (Ne.symm h))

/-- Cells written one after the other. -/
theorem store_append (m : Memory α) (a : ℕ) (xs ys : List α) :
    m.store a (xs ++ ys) = (m.store a xs).store (a + xs.length) ys := by
  funext k
  rcases Nat.lt_or_ge k (a + xs.length) with hlt | hge
  · rw [store_of_lt _ ys hlt]
    by_cases hlow : a ≤ k
    · have hk : k - a < xs.length := by omega
      simp [store, hlow, List.getElem?_append_left hk]
    · simp [store, hlow]
  · have hlow : a ≤ k := Nat.le_trans (Nat.le_add_right a _) hge
    have hk : xs.length ≤ k - a := by omega
    rw [store, if_pos hlow, List.getElem?_append_right hk, store, if_pos hge, store_of_ge m xs hge,
      Nat.sub_sub]

/-- Cells written in front of others that were written before. -/
theorem store_store_front (m : Memory α) (a : ℕ) {n : ℕ} {xs : List α} (hn : xs.length = n)
    (ys : List α) : (m.store (a + n) ys).store a xs = m.store a (xs ++ ys) := by
  subst hn
  funext k
  rw [store_append]
  rcases Nat.lt_or_ge k a with hlow | hlow
  · rw [store_of_lt _ xs hlow, store_of_lt _ ys (by omega), store_of_lt _ ys (by omega),
      store_of_lt _ xs hlow]
  · rcases Nat.lt_or_ge k (a + xs.length) with hin | hge
    · obtain ⟨i, rfl⟩ := Nat.exists_eq_add_of_le hlow
      have hi : i < xs.length := Nat.lt_of_add_lt_add_left hin
      rw [store_getElem _ a i xs hi, store_of_lt _ ys hin, store_getElem _ a i xs hi]
    · rw [store_of_ge _ xs hge, store, store, if_pos hge, if_pos hge, store_of_ge m xs hge]

theorem fill_of_mem (m : Memory α) {a n k : ℕ} (x : α) (h₁ : a ≤ k) (h₂ : k < a + n) :
    m.fill a n x k = x := by
  simp [fill, h₁, h₂]

theorem fill_of_notMem (m : Memory α) {a n k : ℕ} (x : α) (h : k ∉ List.range' a n) :
    m.fill a n x k = m k :=
  if_neg fun hk => h (List.mem_range'_1.mpr hk)

/-- A loop keeps a cell that its body keeps. -/
theorem foldl_keeps {β : Type*} {f : Memory α → β → Memory α} {k : ℕ} {xs : List β}
    (h : ∀ m, ∀ x ∈ xs, f m x k = m k) (m : Memory α) : xs.foldl f m k = m k := by
  induction xs generalizing m with
  | nil => rfl
  | cons x xs ih =>
    rw [List.foldl_cons, ih fun m' y hy => h m' y (List.mem_cons_of_mem x hy)]
    exact h m x List.mem_cons_self

/-! ## Reading ranges -/

@[simp] theorem length_load (m : Memory α) (a n : ℕ) : (m.load a n).length = n := by
  simp [load]

@[simp] theorem load_zero (m : Memory α) (a : ℕ) : m.load a 0 = [] := rfl

@[simp] theorem getElem_load (m : Memory α) (a n i : ℕ) (h : i < (m.load a n).length) :
    (m.load a n)[i] = m (a + i) := by
  simp [load]

theorem load_congr {m m' : Memory α} {a n : ℕ} (h : ∀ i, i < n → m (a + i) = m' (a + i)) :
    m.load a n = m'.load a n := by
  apply List.map_congr_left
  intro i hi
  exact h i (List.mem_range.mp hi)

theorem eq_of_load_eq {m m' : Memory α} {a n : ℕ} (h : m.load a n = m'.load a n) {k : ℕ}
    (hlow : a ≤ k) (hhigh : k < a + n) : m k = m' k := by
  obtain ⟨i, rfl⟩ := Nat.exists_eq_add_of_le hlow
  have hi : i < n := by omega
  have := List.getElem_of_eq h (by simpa using hi)
  simpa using this

theorem load_add (m : Memory α) (a n k : ℕ) :
    m.load a (n + k) = m.load a n ++ m.load (a + n) k := by
  simp [load, List.range_add, Nat.add_assoc]

theorem load_succ (m : Memory α) (a n : ℕ) : m.load a (n + 1) = m a :: m.load (a + 1) n := by
  rw [Nat.add_comm n 1, load_add]
  simp [load]

theorem take_load (m : Memory α) (a n k : ℕ) (h : k ≤ n) : (m.load a n).take k = m.load a k := by
  obtain ⟨d, rfl⟩ := Nat.exists_eq_add_of_le h
  rw [load_add, List.take_left' (length_load m a k)]

theorem drop_load (m : Memory α) (a n k : ℕ) (h : k ≤ n) :
    (m.load a n).drop k = m.load (a + k) (n - k) := by
  obtain ⟨d, rfl⟩ := Nat.exists_eq_add_of_le h
  rw [load_add, List.drop_left' (length_load m a k), Nat.add_sub_cancel_left]

/-! ## Reading back what was written -/

theorem load_store_self (m : Memory α) (a : ℕ) (xs : List α) :
    (m.store a xs).load a xs.length = xs := by
  apply List.ext_getElem
  · simp
  · intro i h₁ h₂
    rw [getElem_load, store_getElem m a i xs h₂]

theorem load_store_take (m : Memory α) (a : ℕ) {n : ℕ} {xs : List α} (h : n ≤ xs.length) :
    (m.store a xs).load a n = xs.take n := by
  rw [← take_load _ a xs.length n h, load_store_self]

theorem load_store_of_disjoint (m : Memory α) {a b n : ℕ} (xs : List α)
    (h : b + n ≤ a ∨ a + xs.length ≤ b) : (m.store a xs).load b n = m.load b n := by
  apply load_congr
  intro i hi
  rcases h with h | h
  · exact store_of_lt m xs (by omega)
  · exact store_of_ge m xs (by omega)

/-- A range copied onto itself. -/
theorem store_load_self (m : Memory α) (a n : ℕ) : m.store a (m.load a n) = m := by
  funext k
  rcases Nat.lt_or_ge k a with hlow | hlow
  · exact store_of_lt m _ hlow
  · obtain ⟨i, rfl⟩ := Nat.exists_eq_add_of_le hlow
    rcases Nat.lt_or_ge i n with hi | hi
    · have hlen : i < (m.load a n).length := by rwa [length_load]
      rw [store_getElem m a i _ hlen, getElem_load]
    · exact store_of_ge m _ (by simpa using hi)

end Memory

end Karnix.Library
