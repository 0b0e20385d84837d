import Karnix.Library.Bytes
import Karnix.Library.Crc

/-!
# CRC16

The check-sum of `crc16.c`, used both for Modbus frames and for the configuration stored in
the EEPROM.
-/

namespace Karnix.Config

open Karnix.Library

/-- One pass of the loop over the bits of a byte. -/
def crcBit (crc : BitVec 16) : BitVec 16 :=
  if crc &&& 0x0001 ≠ 0 then (crc >>> 1) ^^^ 0xA001 else crc >>> 1

/-- One pass of the loop over the bytes. -/
def crcByte (crc : BitVec 16) (b : Byte) : BitVec 16 :=
  crcBit^[8] (crc ^^^ b.setWidth 16)

/-- `crc16`: the register starts full of ones and takes in byte after byte. -/
def crc16 (buf : List Byte) : BitVec 16 := buf.foldl crcByte 0xFFFF

/-! ## Appended check-sums -/

theorem crc16_append (bs bs' : List Byte) : crc16 (bs ++ bs') = bs'.foldl crcByte (crc16 bs) :=
  List.foldl_append

theorem crcBit_eq_shift : crcBit = Crc.shift 0xA001 := by
  funext crc
  have hodd : crc &&& 0x0001 = (BitVec.ofBool (crc.getLsbD 0)).setWidth 16 :=
    BitVec.and_one_eq_setWidth_ofBool_getLsbD
  unfold crcBit Crc.shift
  rw [hodd]
  cases crc.getLsbD 0 <;> rfl

/-- The low byte of the check-sum, as the next byte, moves the high byte down. -/
theorem crcByte_low (crc : BitVec 16) : crcByte crc (crc.setWidth 8) = crc >>> 8 := by
  rw [crcByte, crcBit_eq_shift, Crc.shift_iterate_of_low]
  · apply BitVec.eq_of_getLsbD_eq
    intro i hi
    rw [BitVec.getLsbD_ushiftRight, BitVec.getLsbD_ushiftRight, BitVec.getLsbD_xor]
    simp
  · intro i hi
    rw [BitVec.getLsbD_xor]
    simp [hi, Nat.lt_trans hi (show 8 < 16 by decide)]

/-- The check-sum of a message with its own check-sum behind it is zero. -/
theorem crc16_leBytes16 (bs : List Byte) : crc16 (bs ++ leBytes16 (crc16 bs)) = 0 := by
  have hhigh : (crc16 bs >>> 8) ^^^ ((crc16 bs >>> 8).setWidth 8).setWidth 16 = 0 := by
    apply BitVec.eq_of_getLsbD_eq
    intro i hi
    rw [BitVec.getLsbD_xor, BitVec.getLsbD_setWidth, BitVec.getLsbD_setWidth]
    rcases Nat.lt_or_ge i 8 with hi8 | hi8
    · simp [hi, hi8]
    · simp [Nat.not_lt.mpr hi8, BitVec.getLsbD_of_ge _ _ (show 16 ≤ 8 + i by omega)]
  rw [crc16_append]
  simp only [leBytes16, List.foldl_cons, List.foldl_nil]
  rw [crcByte_low, crcByte, hhigh]
  rfl

theorem crcByte_zero_ne_zero {crc : BitVec 16} (h : crc ≠ 0) : crcByte crc 0 ≠ 0 := by
  rw [crcByte, crcBit_eq_shift]
  apply Crc.shift_iterate_ne_zero rfl
  simpa using h

/-- The check-sum of zeros is not zero. -/
theorem crc16_zeros_ne_zero (n : ℕ) : crc16 (List.replicate n 0) ≠ 0 := by
  induction n with
  | zero => exact by decide
  | succ n ih =>
    rw [List.replicate_succ', crc16_append]
    exact crcByte_zero_ne_zero ih

/-- Zeros behind a message whose check-sum is zero leave it zero. -/
theorem crc16_append_zeros {bs : List Byte} (h : crc16 bs = 0) (n : ℕ) :
    crc16 (bs ++ List.replicate n 0) = 0 := by
  rw [crc16_append, h]
  induction n with
  | zero => rfl
  | succ n ih => exact ih

/-! ## Bits in the order of transmission -/

/-- `crc16` takes the message in bit by bit. -/
theorem foldl_crcByte (crc : BitVec 16) (bs : List Byte) :
    bs.foldl crcByte crc = Crc.bits 0xA001 crc (msgBits bs) := by
  have hbyte : crcByte = fun r b => (Crc.shift 0xA001)^[8] (r ^^^ b.setWidth 16) := by
    rw [← crcBit_eq_shift]
    rfl
  rw [hbyte]
  exact Crc.bytes_eq_bits (by decide) crc bs

/-- The check-sum of a message with an error differs by the check of the error alone. -/
theorem crc16_zipWith {bs es : List Byte} (h : bs.length = es.length) :
    crc16 (List.zipWith (· ^^^ ·) bs es) = crc16 bs ^^^ Crc.bits 0xA001 0 (msgBits es) := by
  have hlen : (msgBits bs).length = (msgBits es).length := by
    rw [length_msgBits, length_msgBits, h]
  rw [crc16, crc16, foldl_crcByte, foldl_crcByte, msgBits_zipWith h, ← Crc.bits_xor _ _ hlen]
  rfl

/-- Two bytes behind a message leave a check of zeros exactly if they are its check-sum. -/
theorem crc16_append_eq_zero_iff (bs : List Byte) (lo hi : Byte) :
    crc16 (bs ++ [lo, hi]) = 0 ↔ crc16 bs = be16 hi lo := by
  constructor
  · intro h
    -- the two bytes move the register out as a whole
    have hmove : crc16 (bs ++ [lo, hi]) = (Crc.shift 0xA001)^[16] (crc16 bs ^^^ (hi ++ lo)) := by
      have hbits : msgBits [lo, hi] = lsbBits (hi ++ lo) 16 := (lsbBits_append hi lo 8).symm
      rw [crc16_append, foldl_crcByte, hbits, Crc.bits_lsbBits _ _ (Nat.le_refl 16),
        Crc.low_self, BitVec.setWidth_eq]
    rw [hmove] at h
    have hzero : crc16 bs ^^^ (hi ++ lo) = 0 := by
      by_contra hne
      exact Crc.shift_iterate_ne_zero rfl hne 16 h
    rw [BitVec.xor_eq_zero_iff.1 hzero]
    apply BitVec.eq_of_getLsbD_eq
    intro i hi16
    simp only [be16, BitVec.getLsbD_append, BitVec.getLsbD_or, BitVec.getLsbD_shiftLeft,
      BitVec.getLsbD_setWidth]
    by_cases h8 : i < 8
    · simp [h8, hi16]
    · have hsub : i - 8 < 16 := by omega
      simp [h8, hi16, hsub, BitVec.getLsbD_of_ge lo i (Nat.le_of_not_lt h8)]
  · intro h
    have hbytes : leBytes16 (crc16 bs) = [lo, hi] := by
      rw [h, leBytes16, be16_low, be16_high]
    rw [← hbytes]
    exact crc16_leBytes16 bs

/-! ## Filling the check-sum in -/

/-- `add_crc`: the check-sum of the first `len` bytes, low byte first, behind them. -/
def addCrc (buf : Memory Byte) (len : ℕ) : Memory Byte :=
  buf.store len (leBytes16 (crc16 (buf.load 0 len)))

/-- The bytes in front of the check-sum stay as they are. -/
theorem load_addCrc (buf : Memory Byte) {a n len : ℕ} (h : a + n ≤ len) :
    (addCrc buf len).load a n = buf.load a n :=
  Memory.load_store_of_disjoint buf _ (Or.inl h)

end Karnix.Config
