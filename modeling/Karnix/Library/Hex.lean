import Karnix.Library.Bytes

/-!
# Hexadecimal text

Numbers and bytes written with capital digits, most significant first, each byte with two.
-/

namespace Karnix.Library

namespace Hex

/-! ## Writing -/

/-- The character of a digit below 16. -/
def digit (v : ℕ) : Byte := if v < 10 then BitVec.ofNat 8 (0x30 + v) else BitVec.ofNat 8 (0x37 + v)

/-- The last `w` digits of a number. -/
def digits : ℕ → ℕ → List Byte
  | 0, _ => []
  | w + 1, v => digits w (v / 16) ++ [digit (v % 16)]

/-- Two digits for each byte. -/
def ofBytes (bs : List Byte) : List Byte := bs.flatMap fun b => digits 2 b.toNat

@[simp] theorem length_digits (w v : ℕ) : (digits w v).length = w := by
  induction w generalizing v with
  | zero => rfl
  | succ w ih => rw [digits, List.length_append, ih, List.length_singleton]

@[simp] theorem ofBytes_nil : ofBytes [] = [] := rfl

@[simp] theorem ofBytes_cons (b : Byte) (bs : List Byte) :
    ofBytes (b :: bs) = digits 2 b.toNat ++ ofBytes bs := rfl

theorem ofBytes_append (bs bs' : List Byte) : ofBytes (bs ++ bs') = ofBytes bs ++ ofBytes bs' :=
  List.flatMap_append

@[simp] theorem length_ofBytes (bs : List Byte) : (ofBytes bs).length = 2 * bs.length := by
  induction bs with
  | nil => rfl
  | cons b bs ih => rw [ofBytes_cons, List.length_append, length_digits, ih, List.length_cons,
      Nat.mul_succ, Nat.add_comm]

theorem digits_add (w k v : ℕ) : digits (w + k) v = digits w (v / 16 ^ k) ++ digits k v := by
  induction k generalizing v with
  | zero => simp [digits]
  | succ k ih =>
    rw [← Nat.add_assoc, digits, ih, digits, Nat.div_div_eq_div_mul, Nat.pow_succ',
      List.append_assoc]

theorem digits_byte (b : Byte) : digits 2 b.toNat = ofBytes [b] := (List.append_nil _).symm

/-- Two digits are those of the low byte. -/
theorem digits_two (v : ℕ) : digits 2 v = ofBytes [BitVec.ofNat 8 v] := by
  have hhigh : v % 256 / 16 % 16 = v / 16 % 16 := by omega
  have hlow : v % 256 % 16 = v % 16 := by omega
  rw [← digits_byte, BitVec.toNat_ofNat]
  simp only [digits, Nat.reducePow, hhigh, hlow]

theorem digits_four (v : ℕ) :
    digits 4 v = ofBytes [BitVec.ofNat 8 (v / 256), BitVec.ofNat 8 v] := by
  rw [digits_add 2 2, digits_two, digits_two, ← ofBytes_append]
  rfl

/-! ## Sums of bytes -/

/-- The sum of the bytes, as a byte. -/
def byteSum (bs : List Byte) : Byte := bs.foldr (· + ·) 0

@[simp] theorem byteSum_nil : byteSum [] = 0 := rfl

@[simp] theorem byteSum_cons (b : Byte) (bs : List Byte) :
    byteSum (b :: bs) = b + byteSum bs := rfl

theorem byteSum_append (bs bs' : List Byte) :
    byteSum (bs ++ bs') = byteSum bs + byteSum bs' := by
  induction bs with
  | nil => exact (BitVec.zero_add _).symm
  | cons b bs ih => rw [List.cons_append, byteSum_cons, byteSum_cons, ih, BitVec.add_assoc]

/-! ## Digits are graphic characters -/

theorem digit_toNat {v : ℕ} (h : v < 16) :
    (digit v).toNat = if v < 10 then 0x30 + v else 0x37 + v := by
  unfold digit
  split <;> rw [BitVec.toNat_ofNat, Nat.mod_eq_of_lt (by omega)]

/-- A digit, or a capital letter from A to F. -/
def IsDigit (c : Byte) : Prop :=
  0x30 ≤ c.toNat ∧ c.toNat ≤ 0x39 ∨ 0x41 ≤ c.toNat ∧ c.toNat ≤ 0x46

instance (c : Byte) : Decidable (IsDigit c) := inferInstanceAs (Decidable (_ ∨ _))

theorem isDigit_digit {v : ℕ} (h : v < 16) : IsDigit (digit v) := by
  rw [IsDigit, digit_toNat h]
  split <;> omega

theorem isDigit_digits {w v : ℕ} : ∀ c ∈ digits w v, IsDigit c := by
  induction w generalizing v with
  | zero => exact List.forall_mem_nil _
  | succ w ih =>
    rw [digits, List.forall_mem_append, List.forall_mem_singleton]
    exact ⟨ih, isDigit_digit (Nat.mod_lt v (by decide))⟩

theorem isDigit_ofBytes (bs : List Byte) : ∀ c ∈ ofBytes bs, IsDigit c := by
  intro c hc
  obtain ⟨b, -, hb⟩ := List.mem_flatMap.mp hc
  exact isDigit_digits c hb

/-! ## Ranges of bytes -/

theorem drop_ofBytes (bs : List Byte) (i : ℕ) :
    (ofBytes bs).drop (2 * i) = ofBytes (bs.drop i) := by
  induction i generalizing bs with
  | zero => rfl
  | succ i ih =>
    cases bs with
    | nil => simp
    | cons b bs =>
      rw [ofBytes_cons, Nat.mul_succ, Nat.add_comm, ← List.drop_drop,
        List.drop_left' (length_digits 2 b.toNat), ih, List.drop_succ_cons]

theorem take_ofBytes (bs : List Byte) (i : ℕ) :
    (ofBytes bs).take (2 * i) = ofBytes (bs.take i) := by
  induction i generalizing bs with
  | zero => rfl
  | succ i ih =>
    cases bs with
    | nil => simp
    | cons b bs =>
      rw [ofBytes_cons, Nat.mul_succ, Nat.add_comm, List.take_succ_cons, ofBytes_cons, ← ih,
        List.take_append, length_digits, Nat.add_sub_cancel_left,
        List.take_of_length_le (by rw [length_digits]; exact Nat.le_add_right 2 _)]

end Hex

end Karnix.Library
