import Karnix.Library.Bytes
import Mathlib.Data.List.Nodup
import Mathlib.Logic.Function.Basic

/-!
# Pixels packed in words

A frame keeps its pixels in 32-bit words, the first pixel of a word in its top bits.  This
file says what a pixel of such a frame is, what setting or or-ing one pixel does to it and to
all others, and what is left of a pixel after a loop that draws one pixel at a time.
-/

namespace Karnix.Library

/-! ## Section 1: A field of a word -/

/-- The word with ones in the `n` bits from bit `s` on. -/
def fieldMask (n s : ℕ) : BitVec 32 := (BitVec.allOnes n).setWidth 32 <<< s

/-- The value `v` in the `n` bits from bit `s` on. -/
def fieldValue {n : ℕ} (v : BitVec n) (s : ℕ) : BitVec 32 := v.setWidth 32 <<< s

variable {n s t : ℕ}

/-- A field that is cleared and filled holds what it was filled with. -/
theorem extract_fill (h : s + n ≤ 32) (w : BitVec 32) (v : BitVec n) :
    ((w &&& ~~~fieldMask n s) ||| fieldValue v s).extractLsb' s n = v := by
  apply BitVec.eq_of_getLsbD_eq
  intro i hi
  have hbit : s + i < 32 := by omega
  have hnot : ¬ s + i < s := by omega
  simp [fieldMask, fieldValue, hi, hbit, hnot]

/-- A field that is or-ed holds both. -/
theorem extract_or (h : s + n ≤ 32) (w : BitVec 32) (v : BitVec n) :
    (w ||| fieldValue v s).extractLsb' s n = w.extractLsb' s n ||| v := by
  apply BitVec.eq_of_getLsbD_eq
  intro i hi
  have hbit : s + i < 32 := by omega
  have hnot : ¬ s + i < s := by omega
  simp [fieldValue, hi, hbit, hnot]

/-- A field that is cleared holds zero. -/
theorem extract_clear (h : s + n ≤ 32) (w : BitVec 32) :
    (w &&& ~~~fieldMask n s).extractLsb' s n = 0 := by
  have hfill := extract_fill h w 0
  have hzero : fieldValue (0 : BitVec n) s = 0#32 := by simp [fieldValue]
  rwa [hzero, BitVec.or_zero] at hfill

/-- Clearing a field keeps the fields beside it. -/
theorem extract_clear_other (h : s + n ≤ t ∨ t + n ≤ s) (w : BitVec 32) :
    (w &&& ~~~fieldMask n s).extractLsb' t n = w.extractLsb' t n := by
  apply BitVec.eq_of_getLsbD_eq
  intro i hi
  have hmask : (fieldMask n s).getLsbD (t + i) = false := by
    -- the bit lies above the mask or below it
    rcases h with h | h
    · have hout : ¬ t + i - s < n := by omega
      simp [fieldMask, hout]
    · have hlow : t + i < s := by omega
      simp [fieldMask, hlow]
  by_cases hbit : t + i < 32
  · simp only [BitVec.getLsbD_extractLsb', hi, BitVec.getLsbD_and, BitVec.getLsbD_not, hbit, hmask,
      decide_true, Bool.true_and, Bool.not_false, Bool.and_true]
  · simp [hi, BitVec.getLsbD_of_ge w _ (Nat.not_lt.mp hbit)]

/-- Or-ing a field keeps the fields beside it. -/
theorem extract_or_other (h : s + n ≤ t ∨ t + n ≤ s) (w : BitVec 32) (v : BitVec n) :
    (w ||| fieldValue v s).extractLsb' t n = w.extractLsb' t n := by
  apply BitVec.eq_of_getLsbD_eq
  intro i hi
  rcases h with h | h
  · have hout : n ≤ t + i - s := by omega
    simp [fieldValue, hi, BitVec.getLsbD_of_ge v _ hout]
  · have hlow : t + i < s := by omega
    simp [fieldValue, hi, hlow]

/-! ## Section 2: The pixels of a frame -/

/-- How pixels lie in words: `perWord` pixels of `bits` bits fill a word. -/
structure Packing where
  bits : ℕ
  perWord : ℕ
  full : perWord * bits = 32

namespace Packing

variable (p : Packing)

/-- The lowest bit of pixel `i` in its word. -/
def shift (i : ℕ) : ℕ := (p.perWord - 1 - i % p.perWord) * p.bits

/-- Pixel `i` of a frame. -/
def pixel (words : ℕ → BitVec 32) (i : ℕ) : BitVec p.bits :=
  (words (i / p.perWord)).extractLsb' (p.shift i) p.bits

/-- The word of pixel `i` without the pixel. -/
def clear (i : ℕ) (w : BitVec 32) : BitVec 32 := w &&& ~~~fieldMask p.bits (p.shift i)

/-- The word of pixel `i` with a value or-ed to the pixel. -/
def merge (i : ℕ) (v : BitVec p.bits) (w : BitVec 32) : BitVec 32 := w ||| fieldValue v (p.shift i)

theorem perWord_pos : 0 < p.perWord := by
  rcases Nat.eq_zero_or_pos p.perWord with h | h
  · have hfull := p.full
    rw [h, Nat.zero_mul] at hfull
    exact absurd hfull (by decide)
  · exact h

theorem shift_add_bits_le (i : ℕ) : p.shift i + p.bits ≤ 32 := by
  have hmod : i % p.perWord < p.perWord := Nat.mod_lt i p.perWord_pos
  calc p.shift i + p.bits
      = (p.perWord - 1 - i % p.perWord + 1) * p.bits := by rw [shift, Nat.succ_mul]
    _ ≤ p.perWord * p.bits := Nat.mul_le_mul_right _ (by omega)
    _ = 32 := p.full

/-- Two pixels of one word lie beside each other. -/
theorem shift_disjoint {i j : ℕ} (hword : i / p.perWord = j / p.perWord) (h : i ≠ j) :
    p.shift i + p.bits ≤ p.shift j ∨ p.shift j + p.bits ≤ p.shift i := by
  have hi : i % p.perWord < p.perWord := Nat.mod_lt i p.perWord_pos
  have hj : j % p.perWord < p.perWord := Nat.mod_lt j p.perWord_pos
  have hmod : i % p.perWord ≠ j % p.perWord := by
    intro heq
    apply h
    rw [← Nat.div_add_mod i p.perWord, ← Nat.div_add_mod j p.perWord, hword, heq]
  -- the pixel with the larger index has the lower bits
  have hstep : ∀ a b : ℕ, a < b → a * p.bits + p.bits ≤ b * p.bits := by
    intro a b hab
    rw [← Nat.succ_mul]
    exact Nat.mul_le_mul_right _ hab
  rcases Nat.lt_or_gt_of_ne hmod with hlt | hgt
  · exact Or.inr (hstep _ _ (by omega))
  · exact Or.inl (hstep _ _ (by omega))

/-! ### Changing the word of a pixel -/

variable {p} {words : ℕ → BitVec 32} {i j : ℕ} {f : BitVec 32 → BitVec 32}

theorem pixel_update_self (w : BitVec 32) :
    p.pixel (Function.update words (i / p.perWord) w) i = w.extractLsb' (p.shift i) p.bits := by
  rw [pixel, Function.update_self]

/-- A pixel of another word is not changed. -/
theorem pixel_update_of_ne (w : BitVec 32) (h : j / p.perWord ≠ i / p.perWord) :
    p.pixel (Function.update words (i / p.perWord) w) j = p.pixel words j := by
  rw [pixel, Function.update_of_ne h, pixel]

theorem extract_merge_clear (v : BitVec p.bits) (w : BitVec 32) :
    (p.merge i v (p.clear i w)).extractLsb' (p.shift i) p.bits = v :=
  extract_fill (p.shift_add_bits_le i) w v

theorem extract_merge_self (v : BitVec p.bits) (w : BitVec 32) :
    (p.merge i v w).extractLsb' (p.shift i) p.bits
      = w.extractLsb' (p.shift i) p.bits ||| v :=
  extract_or (p.shift_add_bits_le i) w v

theorem extract_clear_self (w : BitVec 32) :
    (p.clear i w).extractLsb' (p.shift i) p.bits = 0 :=
  extract_clear (p.shift_add_bits_le i) w

/-- What keeps the other pixels of the word in which pixel `i` lies. -/
def Local (p : Packing) (i : ℕ) (f : BitVec 32 → BitVec 32) : Prop :=
  ∀ j w, i / p.perWord = j / p.perWord → i ≠ j →
    (f w).extractLsb' (p.shift j) p.bits = w.extractLsb' (p.shift j) p.bits

theorem local_clear (p : Packing) (i : ℕ) : p.Local i (p.clear i) :=
  fun _ w hword hne => extract_clear_other (p.shift_disjoint hword hne) w

theorem local_merge (p : Packing) (i : ℕ) (v : BitVec p.bits) : p.Local i (p.merge i v) :=
  fun _ w hword hne => extract_or_other (p.shift_disjoint hword hne) w v

theorem Local.comp {g : BitVec 32 → BitVec 32} (hg : p.Local i g) (hf : p.Local i f) :
    p.Local i (fun w => g (f w)) := by
  intro j w hword hne
  rw [hg j (f w) hword hne, hf j w hword hne]

/-- A local change of the word of a pixel changes no other pixel. -/
theorem Local.pixel_update (hf : p.Local i f) (h : j ≠ i) :
    p.pixel (Function.update words (i / p.perWord) (f (words (i / p.perWord)))) j
      = p.pixel words j := by
  by_cases hword : j / p.perWord = i / p.perWord
  · rw [pixel, hword, Function.update_self, hf j _ hword.symm (Ne.symm h), pixel, hword]
  · exact pixel_update_of_ne _ hword

/-- The words of a frame with pixel `i` set. -/
def put (p : Packing) (words : ℕ → BitVec 32) (i : ℕ) (v : BitVec p.bits) : ℕ → BitVec 32 :=
  Function.update words (i / p.perWord) (p.merge i v (p.clear i (words (i / p.perWord))))

theorem pixel_put_self (v : BitVec p.bits) : p.pixel (p.put words i v) i = v :=
  (pixel_update_self _).trans (extract_merge_clear v _)

theorem pixel_put_of_ne (v : BitVec p.bits) (h : j ≠ i) :
    p.pixel (p.put words i v) j = p.pixel words j :=
  ((local_merge p i v).comp (local_clear p i)).pixel_update h

end Packing

/-! ## Section 3: Loops that draw -/

section Loops

variable {σ β ι α : Type*} {get : σ → ι → α} {step : σ → β → σ} {i : ι} {xs : List β}

/-- **Run lemma.**  A loop keeps a pixel that no pass draws. -/
theorem foldl_untouched (h : ∀ s, ∀ x ∈ xs, get (step s x) i = get s i) (s : σ) :
    get (xs.foldl step s) i = get s i := by
  induction xs generalizing s with
  | nil => rfl
  | cons x xs ih =>
    rw [List.foldl_cons, ih fun s y hy => h s y (List.mem_cons_of_mem x hy)]
    exact h s x List.mem_cons_self

/-- **Run lemma.**  A pixel that one pass draws is changed as that pass changes it. -/
theorem foldl_once {f : α → α} {a : β} (hnodup : xs.Nodup) (ha : a ∈ xs)
    (hself : ∀ s, get (step s a) i = f (get s i))
    (hother : ∀ s, ∀ x ∈ xs, x ≠ a → get (step s x) i = get s i) (s : σ) :
    get (xs.foldl step s) i = f (get s i) := by
  obtain ⟨before, behind, rfl⟩ := List.append_of_mem ha
  have hparts := List.nodup_middle.mp hnodup
  have hnotin : a ∉ before ++ behind := (List.nodup_cons.mp hparts).1
  rw [List.mem_append, not_or] at hnotin
  rw [List.foldl_append, List.foldl_cons]
  -- nothing behind the pass draws the pixel, and nothing before it
  have hbehind : ∀ s, get (behind.foldl step s) i = get s i := by
    refine foldl_untouched fun s x hx => hother s x ?_ ?_
    · exact List.mem_append_right _ (List.mem_cons_of_mem a hx)
    · intro heq
      exact hnotin.2 (heq ▸ hx)
  have hbefore : ∀ s, get (before.foldl step s) i = get s i := by
    refine foldl_untouched fun s x hx => hother s x (List.mem_append_left _ hx) ?_
    intro heq
    exact hnotin.1 (heq ▸ hx)
  rw [hbehind, hself, hbefore]

/-- A loop over the parts of a list is a loop over the list. -/
theorem foldlM_flatMap {γ : Type*} (f : γ → List β) (step : σ → β → Option σ) (ys : List γ)
    (s : σ) :
    (ys.flatMap f).foldlM step s = ys.foldlM (fun s y => (f y).foldlM step s) s := by
  induction ys generalizing s with
  | nil => rfl
  | cons y ys ih =>
    rw [List.flatMap_cons, List.foldlM_append, List.foldlM_cons]
    exact congrArg _ (funext ih)

/-- **Run lemma.**  A loop whose body has a result and does what `f` does to what is shown has
a result, and does what the loop of `f` does. -/
theorem foldlM_shows {τ : Type*} {step : σ → β → Option σ} {f : τ → β → τ} {R : σ → τ → Prop}
    (h : ∀ s t, R s t → ∀ x ∈ xs, ∃ s', step s x = some s' ∧ R s' (f t x)) {s : σ} {t : τ}
    (hs : R s t) : ∃ s', xs.foldlM step s = some s' ∧ R s' (xs.foldl f t) := by
  induction xs generalizing s t with
  | nil => exact ⟨s, rfl, hs⟩
  | cons x xs ih =>
    obtain ⟨s₁, hstep, hs₁⟩ := h s t hs x List.mem_cons_self
    obtain ⟨s', hrun, hs'⟩ := ih (fun s t hs y hy => h s t hs y (List.mem_cons_of_mem x hy)) hs₁
    refine ⟨s', ?_, hs'⟩
    rw [List.foldlM_cons, hstep]
    exact hrun

end Loops

end Karnix.Library
