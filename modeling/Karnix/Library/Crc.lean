import Karnix.Library.Bytes
import Mathlib.Data.BitVec
import Mathlib.Data.List.Basic
import Mathlib.Logic.Function.Iterate

/-!
# Cyclic redundancy checks

A check register of any width that takes in one bit after the other, least significant bit
of the register first.  The register is linear in exclusive or, so that the difference of two
messages decides whether their checks differ; and as long as the generator has its highest
bit, no step forgets anything, so that a changed bit is never lost again.
-/

namespace Karnix.Library

/-- The `k` lowest bits of a word, lowest first. -/
def lsbBits {w : ℕ} (x : BitVec w) (k : ℕ) : List Bool := (List.range k).map x.getLsbD

@[simp] theorem length_lsbBits {w : ℕ} (x : BitVec w) (k : ℕ) : (lsbBits x k).length = k := by
  rw [lsbBits, List.length_map, List.length_range]

@[simp] theorem getElem_lsbBits {w : ℕ} (x : BitVec w) {k i : ℕ} (h : i < (lsbBits x k).length) :
    (lsbBits x k)[i] = x.getLsbD i := by
  simp [lsbBits]

theorem lsbBits_append {w v : ℕ} (x : BitVec w) (y : BitVec v) (k : ℕ) :
    lsbBits (x ++ y) (v + k) = lsbBits y v ++ lsbBits x k := by
  rw [lsbBits, List.range_add, List.map_append, List.map_map]
  congr 1
  · apply List.map_congr_left
    intro i hi
    rw [BitVec.getLsbD_append, if_pos (List.mem_range.mp hi)]
  · apply List.map_congr_left
    intro i hi
    rw [Function.comp_apply, BitVec.getLsbD_append, if_neg (Nat.not_lt.mpr (Nat.le_add_right v i)),
      Nat.add_sub_cancel_left]

theorem lsbBits_add {w : ℕ} (x : BitVec w) (k v : ℕ) :
    lsbBits x (k + v) = lsbBits x k ++ lsbBits (x.extractLsb' k v) v := by
  rw [lsbBits, List.range_add, List.map_append, List.map_map]
  congr 1
  apply List.map_congr_left
  intro i hi
  rw [Function.comp_apply, BitVec.getLsbD_extractLsb', decide_eq_true (List.mem_range.mp hi),
    Bool.true_and]

/-- All the bits of a word make the word. -/
theorem lsbBits_injective {w : ℕ} : Function.Injective fun x : BitVec w => lsbBits x w := by
  intro x y h
  apply BitVec.eq_of_getLsbD_eq
  intro i hi
  have hx : i < (lsbBits x w).length := by rwa [length_lsbBits]
  have hy : i < (lsbBits y w).length := by rwa [length_lsbBits]
  rw [← getElem_lsbBits x hx, ← getElem_lsbBits y hy]
  exact List.getElem_of_eq h hx

theorem lsbBits_xor {w : ℕ} (x y : BitVec w) (k : ℕ) :
    lsbBits (x ^^^ y) k = List.zipWith xor (lsbBits x k) (lsbBits y k) := by
  apply List.ext_getElem
  · simp
  · intro i h₁ h₂
    simp

/-- Two maps that are linear in exclusive or agree if they agree on single bits. -/
theorem eq_of_twoPow {w v : ℕ} {f g : BitVec w → BitVec v}
    (hf : ∀ x y, f (x ^^^ y) = f x ^^^ f y) (hg : ∀ x y, g (x ^^^ y) = g x ^^^ g y)
    (h : ∀ i, i < w → f (BitVec.twoPow w i) = g (BitVec.twoPow w i)) : f = g := by
  have hzero : ∀ f : BitVec w → BitVec v, (∀ x y, f (x ^^^ y) = f x ^^^ f y) → f 0 = 0 := by
    intro f hf
    have h0 := hf 0 0
    rwa [BitVec.xor_self, BitVec.xor_self] at h0
  -- on words whose highest bits, from bit `k` on, are zero
  have hlow : ∀ k, k ≤ w → ∀ x : BitVec w, (∀ i, k ≤ i → x.getLsbD i = false) → f x = g x := by
    intro k
    induction k with
    | zero =>
      intro _ x hx
      have hx0 : x = 0 := BitVec.eq_of_getLsbD_eq fun i _ => by simpa using hx i (Nat.zero_le i)
      rw [hx0, hzero f hf, hzero g hg]
    | succ k ih =>
      intro hk x hx
      by_cases hbit : x.getLsbD k = true
      · have hrest : f (x ^^^ BitVec.twoPow w k) = g (x ^^^ BitVec.twoPow w k) := by
          apply ih (Nat.le_of_succ_le hk)
          intro i hi
          rw [BitVec.getLsbD_xor, BitVec.getLsbD_twoPow]
          rcases Nat.eq_or_lt_of_le hi with rfl | hlt
          · simp [hbit, Nat.lt_of_succ_le hk]
          · simp [hx i hlt, Nat.ne_of_lt hlt]
        have hx' : x = (x ^^^ BitVec.twoPow w k) ^^^ BitVec.twoPow w k := by
          rw [BitVec.xor_assoc, BitVec.xor_self, BitVec.xor_zero]
        rw [hx', hf, hg, hrest, h k hk]
      · apply ih (Nat.le_of_succ_le hk)
        intro i hi
        rcases Nat.eq_or_lt_of_le hi with rfl | hlt
        · simpa using hbit
        · exact hx i hlt
  funext x
  exact hlow w (Nat.le_refl w) x fun i hi => BitVec.getLsbD_of_ge x i hi

/-! ## Messages of bytes -/

/-- The bits of a message, the least significant bit of each byte first. -/
def msgBits (bs : List Byte) : List Bool := bs.flatMap fun b => lsbBits b 8

/-- The bits of a difference are the differences of the bits. -/
theorem msgBits_zipWith {bs es : List Byte} (h : bs.length = es.length) :
    msgBits (List.zipWith (· ^^^ ·) bs es) = List.zipWith xor (msgBits bs) (msgBits es) := by
  induction bs generalizing es with
  | nil => rfl
  | cons b bs ih =>
    cases es with
    | nil => cases h
    | cons e es =>
      have hhead : (lsbBits b 8).length = (lsbBits e 8).length := by
        rw [length_lsbBits, length_lsbBits]
      rw [List.zipWith_cons_cons, msgBits, msgBits, msgBits, List.flatMap_cons,
        List.flatMap_cons, List.flatMap_cons, List.zipWith_append hhead, ← lsbBits_xor]
      exact congrArg _ (ih (Nat.succ.inj h))

theorem length_msgBits (bs : List Byte) : (msgBits bs).length = 8 * bs.length := by
  induction bs with
  | nil => rfl
  | cons b bs ih =>
    rw [msgBits, List.flatMap_cons, List.length_append, length_lsbBits, List.length_cons]
    exact (congrArg (8 + ·) ih).trans (by omega)

namespace Crc

variable {w : ℕ}

/-! ## Operations -/

/-- The register moved on by one place. -/
def shift (poly r : BitVec w) : BitVec w :=
  if r.getLsbD 0 then (r >>> 1) ^^^ poly else r >>> 1

/-- A bit as a register. -/
def bitVal (w : ℕ) (b : Bool) : BitVec w := (BitVec.ofBool b).setWidth w

/-- The register after one more bit of the message. -/
def bit (poly r : BitVec w) (b : Bool) : BitVec w := shift poly (r ^^^ bitVal w b)

/-- The register after the bits `bs` of the message. -/
def bits (poly r : BitVec w) (bs : List Bool) : BitVec w := bs.foldl (bit poly) r

@[simp] theorem bits_nil (poly r : BitVec w) : bits poly r [] = r := rfl

@[simp] theorem bits_cons (poly r : BitVec w) (b : Bool) (bs : List Bool) :
    bits poly r (b :: bs) = bits poly (bit poly r b) bs := rfl

theorem bits_append (poly r : BitVec w) (bs bs' : List Bool) :
    bits poly r (bs ++ bs') = bits poly (bits poly r bs) bs' := List.foldl_append

/-! ## Linearity -/

variable {poly : BitVec w}

theorem shift_of_even {r : BitVec w} (h : r.getLsbD 0 = false) : shift poly r = r >>> 1 := by
  rw [shift, h]
  rfl

@[simp] theorem shift_zero : shift poly 0 = 0 := by
  rw [shift_of_even (by simp)]
  simp

theorem shift_xor (r r' : BitVec w) : shift poly (r ^^^ r') = shift poly r ^^^ shift poly r' := by
  simp only [shift, BitVec.getLsbD_xor, BitVec.ushiftRight_xor_distrib]
  cases r.getLsbD 0 <;> cases r'.getLsbD 0
  · rfl
  · simp only [Bool.false_xor, if_true, Bool.false_eq_true, if_false, BitVec.xor_assoc]
  · simp only [Bool.true_xor, Bool.not_false, if_true, Bool.false_eq_true, if_false]
    rw [BitVec.xor_assoc, BitVec.xor_assoc, BitVec.xor_comm poly]
  · simp only [Bool.true_xor, Bool.not_true, Bool.false_eq_true, if_false, if_true]
    rw [BitVec.xor_comm (r' >>> 1) poly, BitVec.xor_assoc, ← BitVec.xor_assoc poly poly,
      BitVec.xor_self, BitVec.zero_xor]

theorem bitVal_xor (b b' : Bool) : bitVal w (b ^^ b') = bitVal w b ^^^ bitVal w b' := by
  cases b <;> cases b' <;> simp [bitVal]

theorem bit_xor (r r' : BitVec w) (b b' : Bool) :
    bit poly (r ^^^ r') (b ^^ b') = bit poly r b ^^^ bit poly r' b' := by
  rw [bit, bit, bit, ← shift_xor, bitVal_xor]
  congr 1
  rw [BitVec.xor_assoc, BitVec.xor_assoc, ← BitVec.xor_assoc r', BitVec.xor_comm r',
    BitVec.xor_assoc]

theorem bits_xor (r r' : BitVec w) {bs bs' : List Bool} (h : bs.length = bs'.length) :
    bits poly (r ^^^ r') (List.zipWith xor bs bs') = bits poly r bs ^^^ bits poly r' bs' := by
  induction bs generalizing bs' r r' with
  | nil => rw [List.length_eq_zero_iff.mp h.symm]; rfl
  | cons b bs ih =>
    cases bs' with
    | nil => cases h
    | cons b' bs' =>
      rw [List.zipWith_cons_cons, bits_cons, bit_xor, ih _ _ (Nat.succ.inj h)]
      rfl

theorem bits_lsbBits_xor {v : ℕ} (r r' : BitVec w) (x y : BitVec v) (k : ℕ) :
    bits poly (r ^^^ r') (lsbBits (x ^^^ y) k) =
      bits poly r (lsbBits x k) ^^^ bits poly r' (lsbBits y k) := by
  rw [lsbBits_xor, bits_xor r r' (by rw [length_lsbBits, length_lsbBits])]

/-! ## Nothing is forgotten -/

/-- With the highest bit of the generator set, only the register of zeros moves on to zeros. -/
theorem shift_eq_zero (hpoly : poly.msb = true) {r : BitVec w} (h : shift poly r = 0) : r = 0 := by
  unfold shift at h
  split_ifs at h with hodd
  · -- the highest place of the register is empty after the move, so the generator shows in it
    have hshift : r >>> 1 = poly := BitVec.xor_eq_zero_iff.mp h
    have hmsb : (r >>> 1).msb = false := by simp
    rw [hshift, hpoly] at hmsb
    exact absurd hmsb Bool.true_eq_false_eq_False
  · apply BitVec.eq_of_getLsbD_eq
    intro i hi
    cases i with
    | zero => simpa using hodd
    | succ i =>
      have hbit := congrArg (fun x => x.getLsbD i) h
      simpa [BitVec.getLsbD_ushiftRight, Nat.add_comm] using hbit

theorem shift_injective (hpoly : poly.msb = true) : Function.Injective (shift poly) := by
  intro r r' h
  apply BitVec.xor_eq_zero_iff.mp
  apply shift_eq_zero hpoly
  rw [shift_xor, h, BitVec.xor_self]
  rfl

/-- Registers that differ still differ after the same bits. -/
theorem bits_injective (hpoly : poly.msb = true) (bs : List Bool) :
    Function.Injective fun r => bits poly r bs := by
  induction bs with
  | nil => exact fun _ _ h => h
  | cons b bs ih =>
    intro r r' h
    have hbit : bit poly r b = bit poly r' b := ih h
    exact (BitVec.xor_left_inj _).mp (shift_injective hpoly hbit)

/-! ## Errors -/

/-- **A flipped bit is seen.**  Whatever comes before and behind it, and wherever the
register starts, a message with one bit flipped has another check. -/
theorem bits_flip (hpoly : poly.msb = true) (hw : 0 < w) (r : BitVec w) (bs bs' : List Bool)
    (b : Bool) : bits poly r (bs ++ (!b) :: bs') ≠ bits poly r (bs ++ b :: bs') := by
  rw [bits_append, bits_append, bits_cons, bits_cons]
  intro h
  have hbit := shift_injective hpoly (bits_injective hpoly bs' h)
  have hval : bitVal w (!b) = bitVal w b := (BitVec.xor_right_inj _).mp hbit
  have hlsb := congrArg (fun x => x.getLsbD 0) hval
  cases b <;> simp [bitVal, hw] at hlsb

/-! ## Several places at once -/

/-- Empty low places move out without the generator. -/
theorem shift_iterate_of_low {r : BitVec w} {n : ℕ} (h : ∀ i, i < n → r.getLsbD i = false) :
    (shift poly)^[n] r = r >>> n := by
  induction n generalizing r with
  | zero => simp
  | succ n ih =>
    rw [Function.iterate_succ_apply, shift_of_even (h 0 (Nat.succ_pos n)), ih,
      ← BitVec.shiftRight_add, Nat.add_comm]
    intro i hi
    rw [BitVec.getLsbD_ushiftRight, Nat.add_comm]
    exact h (i + 1) (Nat.succ_lt_succ hi)

theorem shift_iterate_ne_zero (hpoly : poly.msb = true) {r : BitVec w} (h : r ≠ 0) (n : ℕ) :
    (shift poly)^[n] r ≠ 0 := by
  induction n with
  | zero => exact h
  | succ n ih =>
    rw [Function.iterate_succ_apply']
    exact fun h0 => ih (shift_eq_zero hpoly h0)

theorem shift_iterate_xor (r r' : BitVec w) (n : ℕ) :
    (shift poly)^[n] (r ^^^ r') = (shift poly)^[n] r ^^^ (shift poly)^[n] r' := by
  induction n generalizing r r' with
  | zero => rfl
  | succ n ih => rw [Function.iterate_succ_apply, shift_xor, ih]; rfl

/-- The `k` lowest bits of a word, as a register. -/
def low (w : ℕ) {v : ℕ} (x : BitVec v) (k : ℕ) : BitVec w := (x.setWidth k).setWidth w

theorem low_succ {v : ℕ} (x : BitVec v) (k : ℕ) :
    low w x (k + 1) = low w x k ^^^ (bitVal w (x.getLsbD k) <<< k) := by
  apply BitVec.eq_of_getLsbD_eq
  intro i hi
  rw [low, low, BitVec.getLsbD_xor, BitVec.getLsbD_shiftLeft]
  simp only [BitVec.getLsbD_setWidth, hi, decide_true, Bool.true_and, bitVal]
  rcases Nat.lt_trichotomy i k with hlt | rfl | hgt
  · simp [hlt, Nat.lt_succ_of_lt hlt]
  · have h0 : 0 < w := Nat.lt_of_le_of_lt (Nat.zero_le i) hi
    simp [h0]
  · have hne : i - k ≠ 0 := Nat.sub_ne_zero_of_lt hgt
    have h1 : ¬ i < k + 1 := Nat.not_lt.2 hgt
    simp [hne, h1, Nat.not_lt.2 (Nat.le_of_lt hgt)]

/-- Bits that fit into the register may be taken in all at once, and moved out then. -/
theorem bits_lsbBits {v : ℕ} (r : BitVec w) (x : BitVec v) {k : ℕ} (hk : k ≤ w) :
    bits poly r (lsbBits x k) = (shift poly)^[k] (r ^^^ low w x k) := by
  induction k with
  | zero =>
    have hlow : low w x 0 = 0 := BitVec.eq_of_getLsbD_eq fun i _ => by
      rw [low, BitVec.getLsbD_setWidth, BitVec.getLsbD_setWidth]
      simp
    rw [hlow]
    simp [lsbBits]
  | succ k ih =>
    -- the next bit waits `k` places higher
    have hbit : (shift poly)^[k] (bitVal w (x.getLsbD k) <<< k) = bitVal w (x.getLsbD k) := by
      rw [shift_iterate_of_low]
      · apply BitVec.eq_of_getLsbD_eq
        intro i hi
        rw [BitVec.getLsbD_ushiftRight, BitVec.getLsbD_shiftLeft]
        rcases Nat.eq_zero_or_pos i with rfl | hpos
        · simp [Nat.lt_of_succ_le hk]
        · cases x.getLsbD k <;> simp [bitVal, Nat.ne_of_gt hpos]
      · intro i hi
        rw [BitVec.getLsbD_shiftLeft]
        simp [hi]
    have hbits : lsbBits x (k + 1) = lsbBits x k ++ [x.getLsbD k] := by
      rw [lsbBits, List.range_succ, List.map_append]
      rfl
    rw [hbits, bits_append, ih (Nat.le_of_succ_le hk), bits_cons, bits_nil, bit,
      Function.iterate_succ_apply', low_succ, ← BitVec.xor_assoc,
      shift_iterate_xor (r ^^^ low w x k), hbit]

theorem low_self {v : ℕ} (x : BitVec v) : low w x v = x.setWidth w := by
  rw [low, BitVec.setWidth_eq]

/-! ## Bytes -/

/-- The register after the bytes `bs` of the message, each taken in at once and moved out then. -/
def bytes (poly r : BitVec w) (bs : List Byte) : BitVec w :=
  bs.foldl (fun r b => (shift poly)^[8] (r ^^^ b.setWidth w)) r

/-- Bytes that fit into the register are taken in bit by bit. -/
theorem bytes_eq_bits (hw : 8 ≤ w) (r : BitVec w) (bs : List Byte) :
    bytes poly r bs = bits poly r (msgBits bs) := by
  induction bs generalizing r with
  | nil => rfl
  | cons b bs ih =>
    have hbyte : (shift poly)^[8] (r ^^^ b.setWidth w) = bits poly r (lsbBits b 8) := by
      rw [bits_lsbBits r b hw, low_self]
    rw [bytes, List.foldl_cons, ← bytes, ih, hbyte, ← bits_append]
    rfl

/-- An error in a message changes the register by what the error alone leaves. -/
theorem bytes_zipWith (hw : 8 ≤ w) (r : BitVec w) {bs es : List Byte}
    (h : bs.length = es.length) :
    bytes poly r (List.zipWith (· ^^^ ·) bs es) = bytes poly r bs ^^^ bits poly 0 (msgBits es) := by
  have hlen : (msgBits bs).length = (msgBits es).length := by
    rw [length_msgBits, length_msgBits, h]
  rw [bytes_eq_bits hw, bytes_eq_bits hw, msgBits_zipWith h, ← bits_xor r 0 hlen]
  exact congrArg (bits poly · _) BitVec.xor_zero.symm

/-- Messages of one length lead to one register if their difference leaves zeros. -/
theorem bytes_eq_bytes_iff (hw : 8 ≤ w) (r : BitVec w) {bs bs' : List Byte}
    (h : bs.length = bs'.length) :
    bytes poly r bs = bytes poly r bs' ↔
      bits poly 0 (msgBits (List.zipWith (· ^^^ ·) bs bs')) = 0 := by
  have hlen : (msgBits bs).length = (msgBits bs').length := by
    rw [length_msgBits, length_msgBits, h]
  have hdiff := @bits_xor w poly r r (msgBits bs) (msgBits bs') hlen
  rw [BitVec.xor_self] at hdiff
  rw [bytes_eq_bits hw, bytes_eq_bits hw, msgBits_zipWith h, ← BitVec.xor_eq_zero_iff]
  exact ⟨hdiff.trans, hdiff.symm.trans⟩

/-! ## Most significant bit first -/

/-- The register moved on by one place in the other direction. -/
def shiftLeft (poly r : BitVec w) : BitVec w :=
  if r.msb then (r <<< 1) ^^^ poly else r <<< 1

/-- A byte at the upper end of the register. -/
def high (w : ℕ) (b : Byte) : BitVec w := BitVec.shiftLeft (b.setWidth w) (w - 8)

/-- The register after the bytes `bs` of the message, each at the upper end of the register. -/
def bytesLeft (poly r : BitVec w) (bs : List Byte) : BitVec w :=
  bs.foldl (fun r b => (shiftLeft poly)^[8] (r ^^^ high w b)) r

theorem reverse_xor (r r' : BitVec w) : (r ^^^ r').reverse = r.reverse ^^^ r'.reverse := by
  apply BitVec.eq_of_getLsbD_eq
  intro i _
  rw [BitVec.getLsbD_reverse, BitVec.getLsbD_xor, BitVec.getLsbD_reverse, BitVec.getLsbD_reverse,
    BitVec.getMsbD_xor]

theorem reverse_shiftLeft_one (r : BitVec w) : (r <<< 1).reverse = r.reverse >>> 1 := by
  apply BitVec.eq_of_getLsbD_eq
  intro i hi
  rw [BitVec.getLsbD_reverse, BitVec.getMsbD_shiftLeft, BitVec.getLsbD_ushiftRight,
    BitVec.getLsbD_reverse, Nat.add_comm]

/-- A step in the other direction is a step of the register read backwards. -/
theorem reverse_shiftLeft (poly r : BitVec w) :
    (shiftLeft poly r).reverse = shift poly.reverse r.reverse := by
  have hbit : r.reverse.getLsbD 0 = r.msb := BitVec.getLsbD_reverse
  unfold shiftLeft shift
  rw [hbit]
  split
  · rw [reverse_xor, reverse_shiftLeft_one]
  · exact reverse_shiftLeft_one r

theorem reverse_shiftLeft_iterate (poly r : BitVec w) (n : ℕ) :
    ((shiftLeft poly)^[n] r).reverse = (shift poly.reverse)^[n] r.reverse := by
  induction n generalizing r with
  | zero => rfl
  | succ n ih => rw [Function.iterate_succ_apply, ih, reverse_shiftLeft]; rfl

theorem shiftLeft_iterate_xor (poly r r' : BitVec w) (n : ℕ) :
    (shiftLeft poly)^[n] (r ^^^ r') = (shiftLeft poly)^[n] r ^^^ (shiftLeft poly)^[n] r' := by
  have hreverse : Function.Injective (BitVec.reverse : BitVec w → BitVec w) := by
    intro x y h
    rw [← BitVec.reverse_reverse_eq (x := x), ← BitVec.reverse_reverse_eq (x := y), h]
  apply hreverse
  rw [reverse_xor, reverse_shiftLeft_iterate, reverse_shiftLeft_iterate,
    reverse_shiftLeft_iterate, reverse_xor, shift_iterate_xor]

/-- A byte at the upper end, read backwards. -/
theorem reverse_high (hw : 8 ≤ w) (b : Byte) : (high w b).reverse = b.reverse.setWidth w := by
  apply BitVec.eq_of_getLsbD_eq
  intro i hi
  have hleft : (high w b).getMsbD i = (b.setWidth w).getMsbD (i + (w - 8)) :=
    BitVec.getMsbD_shiftLeft (b.setWidth w) (w - 8)
  rw [BitVec.getLsbD_reverse, hleft, BitVec.getLsbD_setWidth, BitVec.getLsbD_reverse,
    BitVec.getMsbD_eq_getLsbD, BitVec.getMsbD_eq_getLsbD, BitVec.getLsbD_setWidth]
  rcases Nat.lt_or_ge i 8 with hi8 | hi8
  · have hlt : i + (w - 8) < w := by omega
    have hlow : 7 - i < w := by omega
    have hat : w - 1 - (i + (w - 8)) = 7 - i := by omega
    simp [hi, hi8, hlt, hlow, hat]
  · have hge : ¬ i + (w - 8) < w := by omega
    simp [hge, Nat.not_lt.2 hi8]

/-- The bits of a message, the most significant bit of each byte first. -/
theorem msgBits_reverse (bs : List Byte) :
    msgBits (bs.map BitVec.reverse) = bs.flatMap fun b => (lsbBits b 8).reverse := by
  rw [msgBits, List.flatMap_map]
  refine List.flatMap_congr fun b _ => ?_
  apply List.ext_getElem
  · simp
  · intro i h₁ h₂
    have hi : i < 8 := by rwa [length_lsbBits] at h₁
    rw [getElem_lsbBits, BitVec.getLsbD_reverse, BitVec.getMsbD_eq_getLsbD]
    simp [hi]

/-- A register filled from its upper end is one read backwards. -/
theorem reverse_bytesLeft (hw : 8 ≤ w) (poly r : BitVec w) (bs : List Byte) :
    (bytesLeft poly r bs).reverse = bytes poly.reverse r.reverse (bs.map BitVec.reverse) := by
  induction bs generalizing r with
  | nil => rfl
  | cons b bs ih =>
    rw [bytesLeft, List.foldl_cons, ← bytesLeft, ih, reverse_shiftLeft_iterate, reverse_xor,
      reverse_high hw]
    rfl

end Crc

end Karnix.Library
