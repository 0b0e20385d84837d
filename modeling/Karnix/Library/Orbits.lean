import Mathlib.Data.Finset.Card
import Mathlib.Data.Nat.Find
import Mathlib.Logic.Function.Iterate

/-!
# Searches along an orbit

A search looks at `a`, `f a`, `f (f a)` and so on until it meets a value that ends it.  If the
values are of a finite set, it ends within as many places as the set has elements, or goes round
forever.
-/

namespace Karnix.Library

universe u

namespace Orbit

variable {α : Type u} {f : α → α} {a : α} {P : α → Prop} {k : ℕ}

/-- The search for `P` ends at place `k`. -/
def FirstAt (f : α → α) (P : α → Prop) (a : α) (k : ℕ) : Prop :=
  P (f^[k] a) ∧ ∀ j < k, ¬ P (f^[j] a)

theorem FirstAt.unique {k' : ℕ} (h : FirstAt f P a k) (h' : FirstAt f P a k') : k = k' := by
  rcases Nat.lt_trichotomy k k' with hlt | heq | hgt
  · exact absurd h.1 (h'.2 k hlt)
  · exact heq
  · exact absurd h'.1 (h.2 k' hgt)

theorem exists_firstAt (h : ∃ k, P (f^[k] a)) : ∃ k, FirstAt f P a k := by
  classical
  exact ⟨Nat.find h, Nat.find_spec h, fun _ => Nat.find_min h⟩

/-- A value that comes again is one that came before. -/
theorem iterate_of_again {i d : ℕ} (h : f^[i + d] a = f^[i] a) (n : ℕ) :
    f^[i + d + n] a = f^[i + n] a := by
  rw [Nat.add_comm (i + d), Function.iterate_add_apply, h, ← Function.iterate_add_apply,
    Nat.add_comm n]

/-- Every value of an orbit in a finite set comes early. -/
theorem exists_lt_card {S : Finset α} (hS : ∀ k, f^[k] a ∈ S) (k : ℕ) :
    ∃ j < S.card, f^[j] a = f^[k] a := by
  induction k using Nat.strong_induction_on with
  | _ k ih =>
    rcases Nat.lt_or_ge k S.card with hk | hk
    · exact ⟨k, hk, rfl⟩
    · -- two of the first values are equal, so that the orbit has come round
      have hcard : S.card < (Finset.range (S.card + 1)).card := by
        rw [Finset.card_range]
        exact Nat.lt_succ_self _
      obtain ⟨i, hi, j, hj, hne, heq⟩ :=
        Finset.exists_ne_map_eq_of_card_lt_of_maps_to hcard fun n _ => hS n
      obtain ⟨i, d, hd, hid, heq⟩ : ∃ i d, 0 < d ∧ i + d ≤ k ∧ f^[i + d] a = f^[i] a := by
        rw [Finset.mem_range] at hi hj
        rcases Nat.lt_or_gt_of_ne hne with hlt | hgt
        · refine ⟨i, j - i, by omega, by omega, ?_⟩
          rw [Nat.add_sub_cancel' hlt.le]
          exact heq.symm
        · refine ⟨j, i - j, by omega, by omega, ?_⟩
          rw [Nat.add_sub_cancel' hgt.le]
          exact heq
      obtain ⟨n, rfl⟩ := Nat.exists_eq_add_of_le hid
      obtain ⟨m, hm, hval⟩ := ih (i + n) (by omega)
      exact ⟨m, hm, hval.trans (iterate_of_again heq n).symm⟩

/-- A search that ends does so within as many places as there are values. -/
theorem FirstAt.lt_card {S : Finset α} (hS : ∀ k, f^[k] a ∈ S) (h : FirstAt f P a k) :
    k < S.card := by
  obtain ⟨j, hj, hval⟩ := exists_lt_card hS k
  by_contra hge
  refine h.2 j (by omega) ?_
  rw [hval]
  exact h.1

end Orbit

end Karnix.Library
