import Mathlib.Data.List.Basic
import Mathlib.Data.List.Infix
import Mathlib.Data.Nat.Notation

/-!
# Bit stuffing and NRZI

A stream of bits on a line.  Stuffing puts a 0 behind every `n` ones in a row, so that the line
changes often enough; NRZI shows a 0 as a change of level and a 1 as none.

Both are defined from a state on (the ones in a row so far, the level), as senders and receivers
carry it.  The stuff bit behind a run of ones is put in front of the next bit; `padded` adds
the one that is due at the end.
-/

namespace Karnix.Library

namespace LineCode

/-! ## Stuffing -/

/-- The ones in a row behind one more bit; behind a full run the count starts again. -/
def next (n c : ℕ) (b : Bool) : ℕ := if b then (if c = n then 1 else c + 1) else 0

/-- The ones in a row behind the bits `bs`. -/
def count (n c : ℕ) (bs : List Bool) : ℕ := bs.foldl (next n) c

/-- The bits with stuff bits between them. -/
def stuff (n : ℕ) : ℕ → List Bool → List Bool
  | _, [] => []
  | c, b :: bs => (if c = n then [false] else []) ++ b :: stuff n (next n c b) bs

/-- The bits with all stuff bits. -/
def padded (n c : ℕ) (bs : List Bool) : List Bool :=
  stuff n c bs ++ if count n c bs = n then [false] else []

/-- The bits without the stuff bits between them. -/
def unstuff (n : ℕ) : ℕ → List Bool → List Bool
  | _, [] => []
  | c, b :: bs =>
    if c = n then unstuff n 0 bs else b :: unstuff n (if b then c + 1 else 0) bs

variable {n : ℕ}

@[simp] theorem count_nil (c : ℕ) : count n c [] = c := rfl

@[simp] theorem count_cons (c : ℕ) (b : Bool) (bs : List Bool) :
    count n c (b :: bs) = count n (next n c b) bs := rfl

theorem count_append (c : ℕ) (bs bs' : List Bool) :
    count n c (bs ++ bs') = count n (count n c bs) bs' := List.foldl_append

@[simp] theorem stuff_nil (c : ℕ) : stuff n c [] = [] := rfl

theorem stuff_append (c : ℕ) (bs bs' : List Bool) :
    stuff n c (bs ++ bs') = stuff n c bs ++ stuff n (count n c bs) bs' := by
  induction bs generalizing c with
  | nil => rfl
  | cons b bs ih => rw [List.cons_append, stuff, stuff, ih, count_cons, List.append_assoc,
      List.cons_append]

theorem next_of_ne {c : ℕ} (h : c ≠ n) (b : Bool) : next n c b = if b then c + 1 else 0 := by
  rw [next, if_neg h]

/-- Behind a stuff bit the count is that from 0 on. -/
theorem next_full (b : Bool) : next n n b = if b then 0 + 1 else 0 := by
  rw [next, if_pos rfl]

theorem unstuff_stuff (hn : 0 < n) (c : ℕ) (bs : List Bool) : unstuff n c (stuff n c bs) = bs := by
  induction bs generalizing c with
  | nil => rfl
  | cons b bs ih =>
    rw [stuff]
    by_cases hc : c = n
    · -- the stuff bit in front of the bit is dropped, and both sides count from 0
      subst hc
      have hz : (0 : ℕ) ≠ c := hn.ne
      rw [if_pos rfl, List.singleton_append, unstuff, if_pos rfl, unstuff, if_neg hz,
        ← next_full, ih]
    · rw [if_neg hc, List.nil_append, unstuff, if_neg hc, ← next_of_ne hc, ih]

/-! ## Runs of ones -/

theorem length_le_stuff (c : ℕ) (bs : List Bool) : bs.length ≤ (stuff n c bs).length := by
  induction bs generalizing c with
  | nil => exact Nat.le_refl 0
  | cons b bs ih =>
    rw [stuff, List.length_append, List.length_cons, List.length_cons]
    have := ih (next n c b)
    omega

theorem stuff_eq_self_or_lt (c : ℕ) (bs : List Bool) :
    stuff n c bs = bs ∨ bs.length < (stuff n c bs).length := by
  induction bs generalizing c with
  | nil => exact Or.inl rfl
  | cons b bs ih =>
    rw [stuff]
    by_cases hc : c = n
    · have hle := length_le_stuff (n := n) (next n c b) bs
      rw [if_pos hc, List.singleton_append, List.length_cons, List.length_cons, List.length_cons]
      exact Or.inr (by omega)
    · rw [if_neg hc, List.nil_append, List.length_cons, List.length_cons]
      rcases ih (next n c b) with h | h
      · exact Or.inl (by rw [h])
      · exact Or.inr (Nat.succ_lt_succ h)

/-- Stuffing leaves the bits alone or makes them longer. -/
theorem padded_eq_self_or_lt (c : ℕ) (bs : List Bool) :
    padded n c bs = bs ∨ bs.length < (padded n c bs).length := by
  have hle := length_le_stuff (n := n) c bs
  rw [padded]
  split_ifs with h
  · rw [List.length_append, List.length_singleton]
    exact Or.inr (by omega)
  · rw [List.append_nil]
    exact stuff_eq_self_or_lt c bs

theorem padded_eq_stuff_iff (c : ℕ) (bs : List Bool) :
    padded n c bs = stuff n c bs ↔ count n c bs ≠ n := by
  rw [padded]
  split_ifs with h <;> simp [h]

theorem stuff_eq_padded_or_lt (c : ℕ) (bs : List Bool) :
    padded n c bs = stuff n c bs ∨ (stuff n c bs).length < (padded n c bs).length := by
  rw [padded]
  split_ifs with h
  · rw [List.length_append, List.length_singleton]
    exact Or.inr (Nat.lt_succ_self _)
  · exact Or.inl (List.append_nil _)

/-- The ones at the end of the bits. -/
def onesAtEnd (bs : List Bool) : ℕ := (bs.reverse.takeWhile id).length

/-- The count goes round with every full run. -/
theorem count_eq_onesAtEnd (hn : 0 < n) (bs : List Bool) :
    count n 0 bs = if onesAtEnd bs = 0 then 0 else (onesAtEnd bs - 1) % n + 1 := by
  induction bs using List.reverseRecOn with
  | nil => rfl
  | append_singleton bs b ih =>
    rw [count_append, ih]
    cases b with
    | false =>
      have hzero : onesAtEnd (bs ++ [false]) = 0 := by simp [onesAtEnd]
      rw [hzero]
      rfl
    | true =>
      have hsucc : onesAtEnd (bs ++ [true]) = onesAtEnd bs + 1 := by simp [onesAtEnd]
      rw [hsucc, if_neg (Nat.succ_ne_zero _), Nat.add_sub_cancel]
      show next n _ true = _
      rw [next, if_pos rfl]
      by_cases h0 : onesAtEnd bs = 0
      · -- the first one of a run
        rw [if_pos h0, if_neg hn.ne, h0, Nat.zero_mod]
      · obtain ⟨u, hu⟩ := Nat.exists_eq_succ_of_ne_zero h0
        rw [if_neg h0, hu, Nat.succ_sub_one, Nat.succ_eq_add_one, ← Nat.mod_add_mod u n 1]
        by_cases hfull : u % n + 1 = n
        · rw [if_pos hfull, hfull, Nat.mod_self]
        · have hlt := Nat.mod_lt u hn
          rw [if_neg hfull, Nat.mod_eq_of_lt (show u % n + 1 < n by omega)]

/-- A stuff bit is due at the end behind a run of ones that is full, or full again. -/
theorem count_eq_full_iff (hn : 0 < n) (bs : List Bool) :
    count n 0 bs = n ↔ 0 < onesAtEnd bs ∧ n ∣ onesAtEnd bs := by
  rw [count_eq_onesAtEnd hn]
  by_cases h0 : onesAtEnd bs = 0
  · rw [if_pos h0, h0]
    exact ⟨fun h => absurd h hn.ne, fun h => absurd h.1 (Nat.lt_irrefl 0)⟩
  · obtain ⟨u, hu⟩ := Nat.exists_eq_succ_of_ne_zero h0
    have hlt := Nat.mod_lt u hn
    rw [if_neg h0, hu, Nat.succ_sub_one, Nat.succ_eq_add_one, Nat.dvd_iff_mod_eq_zero,
      ← Nat.mod_add_mod u n 1]
    constructor
    · intro h
      rw [h, Nat.mod_self]
      exact ⟨Nat.succ_pos u, rfl⟩
    · rintro ⟨-, h⟩
      by_contra hne
      rw [Nat.mod_eq_of_lt (show u % n + 1 < n by omega)] at h
      exact absurd h (Nat.succ_ne_zero _)

theorem length_lt_padded_full (bs : List Bool) : bs.length < (padded n n bs).length := by
  cases bs with
  | nil => simp [padded]
  | cons b bs =>
    have hle := length_le_stuff (n := n) (next n n b) bs
    rw [padded, stuff, if_pos rfl]
    simp only [List.length_append, List.length_cons, List.length_nil]
    omega

/-- A 0 ends every run of ones. -/
theorem replicate_infix_zero {c : ℕ} (hc : c < n) (bs : List Bool) :
    List.replicate n true <:+: List.replicate c true ++ false :: bs ↔
      List.replicate n true <:+: bs := by
  constructor
  · rintro ⟨s, t, h⟩
    rw [List.append_assoc] at h
    rcases List.append_eq_append_iff.mp h with ⟨u, hu, hrest⟩ | ⟨u, rfl, hrest⟩
    · -- the run would begin in front of the 0 and be too short
      have hlen := congrArg List.length hu
      simp only [List.length_replicate, List.length_append] at hlen
      rcases List.append_eq_append_iff.mp hrest with ⟨v, hv, -⟩ | ⟨v, hv, hv'⟩
      · have hlen' := congrArg List.length hv
        simp only [List.length_replicate, List.length_append] at hlen'
        omega
      · cases v with
        | nil =>
          have hlen' := congrArg List.length hv
          simp only [List.length_replicate, List.length_append, List.length_nil] at hlen'
          omega
        | cons x v =>
          have hx : x = false := (List.cons.inj hv').1.symm
          have hmem : false ∈ List.replicate n true := by
            rw [hv, hx]
            exact List.mem_append_right _ List.mem_cons_self
          exact absurd (List.eq_of_mem_replicate hmem) Bool.false_ne_true
    · cases u with
      | nil =>
        cases n with
        | zero => exact absurd hc (Nat.not_lt_zero c)
        | succ m => exact absurd (List.cons.inj hrest).1 Bool.false_ne_true
      | cons x u =>
        rw [List.cons_append, List.cons.injEq] at hrest
        exact ⟨u, t, by rw [List.append_assoc]; exact hrest.2.symm⟩
  · intro h
    exact h.trans ⟨List.replicate c true ++ [false], [], by simp⟩

/-- Bits that do not change when they are stuffed have no full run of ones, and the other way
round. -/
theorem padded_eq_self_iff {c : ℕ} (hc : c < n) (bs : List Bool) :
    padded n c bs = bs ↔ ¬ List.replicate n true <:+: List.replicate c true ++ bs := by
  induction bs generalizing c with
  | nil =>
    have hshort : ¬ List.replicate n true <:+: List.replicate c true ++ [] := by
      intro h
      have hlen := h.length_le
      rw [List.append_nil, List.length_replicate, List.length_replicate] at hlen
      exact Nat.not_le.mpr hc hlen
    have hpad : padded n c [] = [] := by simp [padded, Nat.ne_of_lt hc]
    exact ⟨fun _ => hshort, fun _ => hpad⟩
  | cons b bs ih =>
    have hcons : padded n c (b :: bs) = b :: padded n (next n c b) bs := by
      rw [padded, stuff, if_neg (Nat.ne_of_lt hc)]
      rfl
    rw [hcons, List.cons.injEq, eq_self_iff_true, true_and]
    cases b with
    | false =>
      -- no run goes over a 0
      rw [replicate_infix_zero hc]
      exact ih (Nat.zero_lt_of_lt hc)
    | true =>
      have hnext : next n c true = c + 1 := next_of_ne (Nat.ne_of_lt hc) true
      have hmove : List.replicate c true ++ true :: bs = List.replicate (c + 1) true ++ bs := by
        rw [List.replicate_succ', List.append_assoc, List.singleton_append]
      rw [hnext, hmove]
      rcases Nat.lt_or_eq_of_le hc with hlt | heq
      · exact ih hlt
      · -- the run is full: a stuff bit comes next, at the end at the latest
        have hne : padded n (c + 1) bs ≠ bs := by
          intro h
          have hlen := length_lt_padded_full (n := n) bs
          rw [← heq] at hlen
          rw [← heq] at h
          exact Nat.ne_of_gt hlen (congrArg List.length h)
        have hinfix : List.replicate n true <:+: List.replicate (c + 1) true ++ bs :=
          ⟨[], bs, by rw [← heq]; rfl⟩
        exact ⟨fun h => absurd h hne, fun h => absurd hinfix h⟩

/-! ## NRZI -/

/-- The level behind one more bit. -/
def toggle (level b : Bool) : Bool := if b then level else !level

/-- The levels that show the bits. -/
def nrzi : Bool → List Bool → List Bool
  | _, [] => []
  | level, b :: bs => toggle level b :: nrzi (toggle level b) bs

/-- The bits that the levels show. -/
def unNrzi : Bool → List Bool → List Bool
  | _, [] => []
  | level, x :: xs => (x == level) :: unNrzi x xs

@[simp] theorem length_nrzi (level : Bool) (bs : List Bool) :
    (nrzi level bs).length = bs.length := by
  induction bs generalizing level with
  | nil => rfl
  | cons b bs ih => rw [nrzi, List.length_cons, ih, List.length_cons]

theorem unNrzi_nrzi (level : Bool) (bs : List Bool) : unNrzi level (nrzi level bs) = bs := by
  induction bs generalizing level with
  | nil => rfl
  | cons b bs ih =>
    have hbit : (toggle level b == level) = b := by
      cases level <;> cases b <;> rfl
    rw [nrzi, unNrzi, hbit, ih]

theorem nrzi_append (level : Bool) (bs bs' : List Bool) :
    nrzi level (bs ++ bs') = nrzi level bs ++ nrzi (bs.foldl toggle level) bs' := by
  induction bs generalizing level with
  | nil => rfl
  | cons b bs ih => rw [List.cons_append, nrzi, nrzi, ih, List.cons_append, List.foldl_cons]

end LineCode

end Karnix.Library
