import Karnix.Library.CrcPolynomial
import Karnix.Zmodem.Frames

/-!
# Check-sums of ZMODEM

The two tables hold the remainders of the bytes, so that a table step is eight steps of a check
register.  What is sent behind the data leads the receiver's register to the value it looks for,
and a burst that is no longer than the register leads it elsewhere.
-/

namespace Karnix.Zmodem

open Karnix.Library

/-! ## Section 1: The tables -/

theorem crctab_eq : crctab =
    (List.range 256).map fun i => (Crc.shiftLeft 0x1021)^[8] (BitVec.ofNat 16 i <<< 8) := by
  decide +kernel

theorem cr3tab_eq : cr3tab =
    (List.range 256).map fun i => (Crc.shift 0xedb88320)^[8] (BitVec.ofNat 32 i) := by
  decide +kernel


theorem getD_map_range {α : Type} (g : ℕ → α) {i : ℕ} (hi : i < 256) (d : α) :
    ((List.range 256).map g).getD i d = g i := by
  simp [hi]

theorem xor_and {w : ℕ} (x y m : BitVec w) : (x ^^^ y) &&& m = (x &&& m) ^^^ (y &&& m) := by
  apply BitVec.eq_of_getLsbD_eq
  intro i _
  simp only [BitVec.getLsbD_xor, BitVec.getLsbD_and, Bool.and_xor_distrib_right]

theorem xor_xor_xor_comm {w : ℕ} (a b c d : BitVec w) :
    a ^^^ b ^^^ (c ^^^ d) = a ^^^ c ^^^ (b ^^^ d) := by
  ac_rfl

theorem toNat_and_255_lt {w : ℕ} (x : BitVec w) : (x &&& 255).toNat < 256 := by
  rw [BitVec.toNat_and]
  refine Nat.lt_of_le_of_lt Nat.and_le_right ?_
  change (BitVec.ofNat w 255).toNat < 256
  rw [BitVec.toNat_ofNat]
  exact Nat.lt_of_le_of_lt (Nat.mod_le _ _) (by decide)

/-- A step with the table is eight steps of the register. -/
theorem updcrc_eq (c : Byte) (crc : BitVec 16) :
    updcrc c crc = (Crc.shiftLeft 0x1021)^[8] crc ^^^ c.setWidth 16 := by
  -- the two sides are linear in the register, so that single bits decide
  have hlinear : (fun crc : BitVec 16 =>
      (Crc.shiftLeft 0x1021)^[8] (((crc >>> 8) &&& 255) <<< 8) ^^^ crc <<< 8) =
        (Crc.shiftLeft 0x1021)^[8] := by
    apply eq_of_twoPow
    · intro x y
      rw [BitVec.ushiftRight_xor_distrib, xor_and, BitVec.shiftLeft_xor_distrib,
        Crc.shiftLeft_iterate_xor, BitVec.shiftLeft_xor_distrib]
      exact xor_xor_xor_comm _ _ _ _
    · exact fun x y => Crc.shiftLeft_iterate_xor _ x y 8
    · decide
  unfold updcrc
  rw [crctab_eq, getD_map_range _ (toNat_and_255_lt _), BitVec.ofNat_toNat, BitVec.setWidth_eq]
  exact congrArg (· ^^^ c.setWidth 16) (congrFun hlinear crc)

theorem updc32_eq (c : Byte) (crc : BitVec 32) :
    updc32 c crc = (Crc.shift 0xedb88320)^[8] (crc ^^^ c.setWidth 32) := by
  have hlinear : (fun x : BitVec 32 =>
      (Crc.shift 0xedb88320)^[8] (x &&& 0xff) ^^^ ((x >>> 8) &&& 0x00FFFFFF)) =
        (Crc.shift 0xedb88320)^[8] := by
    apply eq_of_twoPow
    · intro x y
      rw [BitVec.ushiftRight_xor_distrib, xor_and, xor_and, Crc.shift_iterate_xor]
      exact xor_xor_xor_comm _ _ _ _
    · exact fun x y => Crc.shift_iterate_xor x y 8
    · decide
  -- the byte is below what is moved down
  have hbyte : (crc >>> 8) = (crc ^^^ c.setWidth 32) >>> 8 := by
    have hzero : c.setWidth 32 >>> 8 = 0 := by
      apply BitVec.eq_of_toNat_eq
      have hc := c.isLt
      simp only [BitVec.toNat_ushiftRight, BitVec.toNat_setWidth, Nat.shiftRight_eq_div_pow]
      rw [Nat.mod_eq_of_lt (Nat.lt_trans hc (by decide)), Nat.div_eq_of_lt hc]
      rfl
    rw [BitVec.ushiftRight_xor_distrib, hzero]
    exact BitVec.xor_zero.symm
  unfold updc32
  rw [cr3tab_eq, getD_map_range _ (toNat_and_255_lt _), BitVec.ofNat_toNat, BitVec.setWidth_eq,
    hbyte]
  exact congrFun hlinear _

/-! ## Section 2: What a check-sum is good for -/

/-- The laws of a check-sum; `bitsOf` are the bits in the order in which it takes them. -/
structure Fcs.Lawful (f : Fcs) (bitsOf : List Byte → List Bool) : Prop where
  length_check : ∀ crc, (f.check crc).length = f.checkLength
  /-- What is sent behind the data is right. -/
  good_check : ∀ crc, f.good (f.over crc (f.check crc)) = true
  /-- Of two messages that are right, one is not the other with a burst of errors. -/
  detects : ∀ m m', m.length = m'.length → f.good (f.over f.start m) = true →
    f.good (f.over f.start m') = true →
      ¬ Crc.IsBurst f.width (bitsOf (List.zipWith (· ^^^ ·) m m'))

theorem Fcs.over_append (f : Fcs) (crc : BitVec f.width) (bs bs' : List Byte) :
    f.over crc (bs ++ bs') = f.over (f.over crc bs) bs' := List.foldl_append

/-! ## Section 3: Thirty-two bits -/

theorem over32_eq (crc : BitVec 32) (bs : List Byte) :
    fcs32.over crc bs = Crc.bytes 0xedb88320 crc bs := by
  have hupd : updc32 = fun b r => (Crc.shift 0xedb88320)^[8] (r ^^^ b.setWidth 32) := by
    funext b r
    exact updc32_eq b r
  show bs.foldl (fun crc c => updc32 c crc) crc = _
  rw [hupd]
  rfl

theorem msgBits_leBytes32 (x : BitVec 32) : msgBits (leBytes32 x) = lsbBits x 32 := by
  simp [msgBits, leBytes32, lsbBits, List.range_succ]

/-- A word into the register, and moved out. -/
theorem over32_leBytes32 (crc x : BitVec 32) :
    fcs32.over crc (leBytes32 x) = (Crc.shift 0xedb88320)^[32] (crc ^^^ x) := by
  rw [over32_eq, Crc.bytes_eq_bits (by decide), msgBits_leBytes32,
    Crc.bits_lsbBits crc x (Nat.le_refl 32), Crc.low_self, BitVec.setWidth_eq]

theorem good32_iff (crc : BitVec 32) : fcs32.good crc = true ↔ crc = 0xDEBB20E3 :=
  decide_eq_true_iff

theorem lawful32 : fcs32.Lawful msgBits where
  length_check crc := rfl
  good_check (crc : BitVec 32) := by
    have hones : crc ^^^ ~~~crc = 0xFFFFFFFF := by
      rw [← BitVec.xor_allOnes, ← BitVec.xor_assoc, BitVec.xor_self]
      rfl
    have hconst : (Crc.shift (0xedb88320 : BitVec 32))^[32] 0xFFFFFFFF = 0xDEBB20E3 := by
      decide +kernel
    refine (good32_iff _).2 ?_
    show fcs32.over crc (leBytes32 (~~~crc)) = 0xDEBB20E3
    rw [over32_leBytes32, hones]
    exact hconst
  detects m m' hlen hm hm' hburst := by
    have hsame := ((good32_iff _).1 hm).trans ((good32_iff _).1 hm').symm
    have heq : Crc.bytes 0xedb88320 0xFFFFFFFF m = Crc.bytes 0xedb88320 0xFFFFFFFF m' :=
      (over32_eq _ m).symm.trans (hsame.trans (over32_eq _ m'))
    have hzero := (Crc.bytes_eq_bytes_iff (by decide) _ hlen).1 heq
    exact Crc.bits_burst_ne_zero rfl (by decide) hburst hzero

/-! ## Section 4: Sixteen bits -/

/-- Eight steps of the register. -/
abbrev shift16 : BitVec 16 → BitVec 16 := (Crc.shiftLeft 0x1021)^[8]

theorem shift16_xor (x y : BitVec 16) : shift16 (x ^^^ y) = shift16 x ^^^ shift16 y :=
  Crc.shiftLeft_iterate_xor _ x y 8

theorem shift16_setWidth (c : Byte) : shift16 (c.setWidth 16) = Crc.high 16 c := by
  have hall : ∀ c : Byte, shift16 (c.setWidth 16) = Crc.high 16 c := by
    decide
  exact hall c

theorem shift16_eq_zero {x : BitVec 16} (h : shift16 x = 0) : x = 0 := by
  have hreverse : (Crc.shift (0x1021 : BitVec 16).reverse)^[8] x.reverse = 0 := by
    rw [← Crc.reverse_shiftLeft_iterate]
    exact congrArg BitVec.reverse h
  by_contra hne
  refine Crc.shift_iterate_ne_zero rfl ?_ 8 hreverse
  intro hzero
  apply hne
  rw [← BitVec.reverse_reverse_eq (x := x), hzero]
  rfl

/-- The check-sum of 16 bits over more bytes. -/
def over16 (crc : BitVec 16) (bs : List Byte) : BitVec 16 :=
  bs.foldl (fun crc c => updcrc c crc) crc

/-- The register of the source is two bytes behind the one of the library. -/
theorem shift16_over16 (crc : BitVec 16) (bs : List Byte) :
    shift16 (shift16 (over16 crc bs)) = Crc.bytesLeft 0x1021 (shift16 (shift16 crc)) bs := by
  induction bs generalizing crc with
  | nil => rfl
  | cons b bs ih =>
    show shift16 (shift16 (over16 (updcrc b crc) bs)) = _
    rw [ih, Crc.bytesLeft, Crc.bytesLeft, List.foldl_cons]
    congr 1
    show _ = shift16 (shift16 (shift16 crc) ^^^ Crc.high 16 b)
    rw [updcrc_eq, shift16_xor, shift16_xor, shift16_xor, shift16_setWidth]

theorem good16_iff (crc : BitVec 16) : fcs16.good crc = true ↔ crc = 0 := decide_eq_true_iff

/-- A message is right if its bits, the highest of each byte first, leave nothing. -/
theorem over16_eq_zero_iff (m : List Byte) : over16 0 m = 0 ↔
    Crc.bytes (0x1021 : BitVec 16).reverse 0 (m.map BitVec.reverse) = 0 := by
  have hstart : shift16 (shift16 0) = 0 := by decide +kernel
  have hreverse := Crc.reverse_bytesLeft (by decide) (0x1021 : BitVec 16) 0 m
  have hover := shift16_over16 0 m
  rw [hstart] at hover
  rw [← hover] at hreverse
  refine Iff.trans ?_ (Eq.congr_left hreverse)
  constructor
  · intro h
    rw [h, hstart]
    rfl
  · intro h
    apply shift16_eq_zero
    apply shift16_eq_zero
    rw [← BitVec.reverse_reverse_eq (x := shift16 (shift16 (over16 0 m))), h]
    rfl

/-- A register is made of the two bytes that are sent. -/
theorem high_xor_low (v : BitVec 16) :
    Crc.high 16 ((v >>> 8).setWidth 8) ^^^ (v.setWidth 8).setWidth 16 = v := by
  apply BitVec.eq_of_getLsbD_eq
  intro i hi
  have hhigh : (Crc.high 16 ((v >>> 8).setWidth 8)).getLsbD i =
      (((v >>> 8).setWidth 8).setWidth 16 <<< 8).getLsbD i := rfl
  rw [BitVec.getLsbD_xor, hhigh, BitVec.getLsbD_shiftLeft]
  rcases Nat.lt_or_ge i 8 with hlow | hge
  · simp [hi, hlow]
  · have hsub : i - 8 < 8 := by omega
    have hadd : 8 + (i - 8) = i := by omega
    have hsub' : i - 8 < 16 := by omega
    simp [hi, Nat.not_lt.2 hge, hsub, hsub', hadd]

theorem lawful16 :
    fcs16.Lawful fun bs => bs.flatMap fun b => (lsbBits b 8).reverse where
  length_check crc := rfl
  good_check (crc : BitVec 16) := by
    have hzero : ∀ x : BitVec 16, updcrc 0 x = shift16 x := by
      intro x
      rw [updcrc_eq]
      exact BitVec.xor_zero
    refine (good16_iff _).2 ?_
    show updcrc ((updcrc 0 (updcrc 0 crc)).setWidth 8)
      (updcrc ((updcrc 0 (updcrc 0 crc) >>> 8).setWidth 8) crc) = 0
    rw [hzero, hzero, updcrc_eq, updcrc_eq]
    show shift16 (shift16 crc ^^^ _) ^^^ _ = 0
    rw [shift16_xor, shift16_setWidth, BitVec.xor_assoc, high_xor_low, BitVec.xor_self]
    rfl
  detects m m' hlen hm hm' hburst := by
    have hm0 : over16 0 m = 0 := (good16_iff _).1 hm
    have hm0' : over16 0 m' = 0 := (good16_iff _).1 hm'
    have hlen' : (m.map BitVec.reverse).length = (m'.map BitVec.reverse).length := by
      rw [List.length_map, List.length_map, hlen]
    have heq := ((over16_eq_zero_iff m).1 hm0).trans ((over16_eq_zero_iff m').1 hm0').symm
    have hzero := (Crc.bytes_eq_bytes_iff (by decide) _ hlen').1 heq
    have hmap : List.zipWith (· ^^^ ·) (m.map BitVec.reverse) (m'.map BitVec.reverse) =
        (List.zipWith (· ^^^ ·) m m').map BitVec.reverse := by
      rw [List.zipWith_map, List.map_zipWith]
      simp only [Crc.reverse_xor]
    rw [hmap, Crc.msgBits_reverse] at hzero
    exact @Crc.bits_burst_ne_zero _ (0x1021 : BitVec 16).reverse rfl (by decide) _ hburst hzero

end Karnix.Zmodem
