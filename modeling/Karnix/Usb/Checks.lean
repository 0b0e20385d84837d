import Karnix.Library.Crc
import Karnix.Usb.Senders

/-!
# The checks of USB packets

`calc_crc5_usb` and `calc_crc16_usb` write out, for eleven and for eight bits at once, what a
check register does bit by bit.  Both are linear, so that single bits decide.
-/

namespace Karnix.Usb

open Karnix.Library

/-- The check of a token over address and endpoint. -/
def crc5 (bits : List Bool) : BitVec 5 := ~~~ Crc.bits 0x14 0x1F bits

/-- The check of a data packet. -/
def crc16 (bits : List Bool) : BitVec 16 := ~~~ Crc.bits 0xA001 0xFFFF bits

theorem reverse_xor {w : ℕ} (x y : BitVec w) : (x ^^^ y).reverse = x.reverse ^^^ y.reverse := by
  apply BitVec.eq_of_getLsbD_eq
  intro i hi
  simp only [BitVec.getLsbD_reverse, BitVec.getLsbD_xor, BitVec.getMsbD_xor]

theorem getD_zipWith_xor {l l' : List Bool} (h : l.length = l'.length) (i : ℕ) :
    (List.zipWith xor l l').getD i false = (l.getD i false ^^ l'.getD i false) := by
  rcases Nat.lt_or_ge i l.length with hlt | hge
  · have hlt' : i < l'.length := h ▸ hlt
    simp [List.getD_eq_getElem?_getD, hlt, hlt']
  · have hge' : l'.length ≤ i := h ▸ hge
    simp [List.getD_eq_getElem?_getD, hge, hge']

/-! ## CRC16 -/

theorem length_crc16Ret (c d : ℕ → Bool) : (crc16Ret c d).length = 16 := rfl

theorem crc16Ret_xor (c c' d d' : ℕ → Bool) :
    crc16Ret (fun i => c i ^^ c' i) (fun i => d i ^^ d' i) =
      List.zipWith xor (crc16Ret c d) (crc16Ret c' d') := by
  have : Std.Commutative xor := ⟨Bool.xor_comm⟩
  simp only [crc16Ret, List.zipWith_cons_cons, List.zipWith_nil_right, List.cons.injEq, and_true,
    true_and]
  refine ⟨?_, ?_, ?_, ?_, ?_, ?_, ?_, ?_, ?_, ?_, ?_⟩ <;> ac_rfl

theorem getLsbD_calcCrc16Usb (c : BitVec 16) (d : BitVec 8) (i : ℕ) :
    (calcCrc16Usb c d).getLsbD i = (crc16Ret c.getLsbD d.getLsbD).getD i false :=
  BitVec.getLsbD_ofBoolListLE

theorem calcCrc16Usb_xor (c c' : BitVec 16) (d d' : BitVec 8) :
    calcCrc16Usb (c ^^^ c') (d ^^^ d') = calcCrc16Usb c d ^^^ calcCrc16Usb c' d' := by
  apply BitVec.eq_of_getLsbD_eq
  intro i hi
  have hc : (c ^^^ c').getLsbD = fun i => c.getLsbD i ^^ c'.getLsbD i := by
    funext i
    exact BitVec.getLsbD_xor
  have hd : (d ^^^ d').getLsbD = fun i => d.getLsbD i ^^ d'.getLsbD i := by
    funext i
    exact BitVec.getLsbD_xor
  rw [BitVec.getLsbD_xor, getLsbD_calcCrc16Usb, getLsbD_calcCrc16Usb, getLsbD_calcCrc16Usb, hc, hd,
    crc16Ret_xor]
  exact getD_zipWith_xor ((length_crc16Ret _ _).trans (length_crc16Ret _ _).symm) i

/-- `calc_crc16_usb` on registers and bytes the other way round takes in the bits of a byte,
lowest first. -/
theorem calcCrc16Usb_eq (r : BitVec 16) (d : BitVec 8) :
    (calcCrc16Usb r.reverse d.reverse).reverse = Crc.bits 0xA001 r (lsbBits d 8) := by
  have hxor : ∀ (r r' : BitVec 16) (d d' : BitVec 8),
    (calcCrc16Usb (r ^^^ r').reverse (d ^^^ d').reverse).reverse =
      (calcCrc16Usb r.reverse d.reverse).reverse ^^^
        (calcCrc16Usb r'.reverse d'.reverse).reverse := by
    intro r r' d d'
    rw [reverse_xor, reverse_xor, calcCrc16Usb_xor, reverse_xor]
  have hreg : (fun r : BitVec 16 => (calcCrc16Usb r.reverse (0#8).reverse).reverse) =
      fun r => Crc.bits 0xA001 r (lsbBits 0#8 8) := by
    apply eq_of_twoPow
    · exact fun x y => hxor x y 0#8 0#8
    · exact fun x y => Crc.bits_lsbBits_xor x y 0#8 0#8 8
    · decide +kernel
  have hbyte : (fun d : BitVec 8 => (calcCrc16Usb (0#16).reverse d.reverse).reverse) =
      fun d => Crc.bits 0xA001 0#16 (lsbBits d 8) := by
    apply eq_of_twoPow
    · exact fun x y => hxor 0#16 0#16 x y
    · exact fun x y => Crc.bits_lsbBits_xor 0#16 0#16 x y 8
    · decide +kernel
  have hr : r = r ^^^ 0#16 := BitVec.xor_zero.symm
  have hd : d = 0#8 ^^^ d := BitVec.zero_xor.symm
  rw [hr, hd, hxor, Crc.bits_lsbBits_xor]
  exact congrArg₂ (· ^^^ ·) (congrFun hreg r) (congrFun hbyte d)

/-! ## CRC5 -/

theorem length_crc5Ret (d : ℕ → Bool) : (crc5Ret d).length = 5 := rfl

theorem crc5Ret_xor (d d' : ℕ → Bool) :
    crc5Ret (fun i => d i ^^ d' i) =
      List.zipWith xor (List.zipWith xor (crc5Ret d) (crc5Ret d')) (crc5Ret fun _ => false) := by
  have : Std.Commutative xor := ⟨Bool.xor_comm⟩
  simp only [crc5Ret, List.zipWith_cons_cons, List.zipWith_nil_right, List.cons.injEq, and_true,
    Bool.xor_true, Bool.not_xor_not, Bool.xor_self, Bool.not_false, Bool.not_inj_iff,
    Bool.xor_false]
  refine ⟨?_, ?_, ?_, ?_, ?_⟩ <;> ac_rfl

/-- `ret` as a word. -/
def crc5Word (d : ℕ → Bool) : BitVec 5 := BitVec.ofBoolListLE (crc5Ret d)

theorem crc5Word_xor (d d' : ℕ → Bool) :
    crc5Word (fun i => d i ^^ d' i) = crc5Word d ^^^ crc5Word d' ^^^ crc5Word fun _ => false := by
  have hbit : ∀ d i, (crc5Word d).getLsbD i = (crc5Ret d).getD i false :=
    fun d i => BitVec.getLsbD_ofBoolListLE
  apply BitVec.eq_of_getLsbD_eq
  intro i hi
  rw [BitVec.getLsbD_xor, BitVec.getLsbD_xor, hbit, hbit, hbit, hbit, crc5Ret_xor,
    getD_zipWith_xor (by simp [length_crc5Ret]), getD_zipWith_xor (by simp [length_crc5Ret])]

theorem calcCrc5Usb_def (x : BitVec 11) :
    calcCrc5Usb x = (crc5Word x.reverse.getLsbD).reverse ^^^ 0b11111 := rfl

theorem xor_xor_right {w : ℕ} (x y z : BitVec w) : (x ^^^ z) ^^^ (y ^^^ z) = x ^^^ y := by
  rw [BitVec.xor_assoc, ← BitVec.xor_assoc z, BitVec.xor_comm z, BitVec.xor_assoc y,
    BitVec.xor_self, BitVec.xor_zero]

/-- Apart from a constant `calc_crc5_usb` is linear. -/
theorem calcCrc5Usb_xor (x y : BitVec 11) :
    calcCrc5Usb (x ^^^ y) ^^^ calcCrc5Usb 0#11 =
      (calcCrc5Usb x ^^^ calcCrc5Usb 0#11) ^^^ (calcCrc5Usb y ^^^ calcCrc5Usb 0#11) := by
  have hd : (x ^^^ y).reverse.getLsbD = fun i => x.reverse.getLsbD i ^^ y.reverse.getLsbD i := by
    funext i
    rw [reverse_xor, BitVec.getLsbD_xor]
  have hzero : (0#11).reverse.getLsbD = fun _ => false := by
    funext i
    simp [BitVec.getLsbD_reverse]
  simp only [calcCrc5Usb_def, xor_xor_right]
  rw [hd, hzero, crc5Word_xor, reverse_xor, reverse_xor, BitVec.xor_assoc, BitVec.xor_self,
    BitVec.xor_zero]

/-- `calc_crc5_usb` is the check over eleven bits, lowest first. -/
theorem calcCrc5Usb_eq (x : BitVec 11) : calcCrc5Usb x = crc5 (lsbBits x 11) := by
  have hlinear : (fun x => calcCrc5Usb x ^^^ calcCrc5Usb 0#11) =
      fun x => Crc.bits 0x14 0#5 (lsbBits x 11) := by
    apply eq_of_twoPow
    · exact calcCrc5Usb_xor
    · exact fun x y => Crc.bits_lsbBits_xor 0#5 0#5 x y 11
    · decide +kernel
  have hcalc : calcCrc5Usb x = Crc.bits 0x14 0#5 (lsbBits x 11) ^^^ calcCrc5Usb 0#11 := by
    rw [← congrFun hlinear x, BitVec.xor_assoc, BitVec.xor_self, BitVec.xor_zero]
  have hcrc : Crc.bits 0x14 0x1F#5 (lsbBits x 11) =
      Crc.bits 0x14 0#5 (lsbBits x 11) ^^^ Crc.bits 0x14 0x1F#5 (lsbBits 0#11 11) := by
    rw [← Crc.bits_lsbBits_xor, BitVec.zero_xor, BitVec.xor_zero]
  have hconst : calcCrc5Usb 0#11 = ~~~ Crc.bits 0x14 0x1F#5 (lsbBits 0#11 11) := by decide +kernel
  rw [hcalc, hconst, crc5]
  show _ = ~~~ Crc.bits 0x14 0x1F#5 (lsbBits x 11)
  rw [hcrc, BitVec.not_xor_right]

end Karnix.Usb
