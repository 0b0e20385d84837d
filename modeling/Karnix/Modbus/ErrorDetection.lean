import Karnix.Library.CrcPolynomial
import Karnix.Modbus.Containment

/-!
# Errors on the Modbus line

`modbus_recv` compares the check-sum of a frame with the two bytes behind it, low byte first.  A
frame passes exactly if the check over all of it, these bytes included, is zero; so a frame that
passes no longer does with an error that is a burst of at most 16 bits.
-/

namespace Karnix.Modbus

open Karnix.Library
open Karnix.Config

variable {b : Build}

/-! ## Section 1: Frames with errors -/

namespace Frame

/-- The bytes of a frame. -/
def bytes (rx : Frame) : List Byte := rx.buf.load 0 rx.len

/-- A frame with the bits flipped that are set in `e`. -/
def corrupt (rx : Frame) (e : List Byte) : Frame :=
  { rx with buf := fun k => rx.buf k ^^^ e.getD k 0 }

theorem bytes_corrupt (rx : Frame) {e : List Byte} (h : e.length = rx.len) :
    (rx.corrupt e).bytes = List.zipWith (· ^^^ ·) rx.bytes e := by
  apply List.ext_getElem
  · rw [List.length_zipWith, bytes, bytes, Memory.length_load, Memory.length_load, h]
    exact (Nat.min_self _).symm
  · intro i h₁ h₂
    have hi : i < e.length := by
      rw [bytes, Memory.length_load] at h₁
      rwa [h]
    simp only [bytes, Memory.getElem_load, List.getElem_zipWith, corrupt, Nat.zero_add]
    rw [List.getD_eq_getElem?_getD, List.getElem?_eq_getElem hi, Option.getD_some]

/-- **The comparison succeeds exactly if the check over the whole frame is zero.** -/
theorem crcOk_iff (rx : Frame) (hmin : 2 ≤ rx.len) (hmax : rx.len - 2 < 2 ^ 16) :
    rx.CrcOk ↔ crc16 rx.bytes = 0 := by
  have hsplit : rx.bytes =
      rx.buf.load 0 (rx.len - 2) ++ [rx.buf (rx.len - 2), rx.buf (rx.len - 1)] := by
    obtain ⟨n, hn⟩ := Nat.exists_eq_add_of_le' hmin
    rw [bytes, hn, Memory.load_add, Nat.add_sub_cancel, Nat.zero_add]
    rfl
  rw [CrcOk, Nat.mod_eq_of_lt hmax, hsplit, crc16_append_eq_zero_iff]

end Frame

/-! ## Section 2: Bursts -/

/-- The check is the remainder of a division, and the generator is no divisor of a burst. -/
theorem not_crcOk_corrupt {rx : Frame} {e : List Byte} (hmin : 2 ≤ rx.len)
    (hmax : rx.len - 2 < 2 ^ 16) (hlen : e.length = rx.len) (hok : rx.CrcOk)
    (hburst : Crc.IsBurst 16 (msgBits e)) : ¬ (rx.corrupt e).CrcOk := by
  have hbytes : rx.bytes.length = e.length := by rw [Frame.bytes, Memory.length_load, hlen]
  rw [Frame.crcOk_iff rx hmin hmax] at hok
  rw [Frame.crcOk_iff (rx.corrupt e) hmin hmax, Frame.bytes_corrupt rx hlen,
    crc16_zipWith hbytes, hok]
  exact fun h => Crc.bits_burst_ne_zero rfl (by decide) hburst (BitVec.zero_xor.symm.trans h)

/-- The two bytes of `add_crc` are what the comparison asks for. -/
theorem crcOk_addCrc (buf : Memory Byte) {len : ℕ} (h : len < 2 ^ 16) :
    (Frame.mk (addCrc buf len) (len + 2)).CrcOk := by
  rw [Frame.crcOk_iff ⟨addCrc buf len, len + 2⟩ (Nat.le_add_left 2 len) h]
  have hbytes : (Frame.mk (addCrc buf len) (len + 2)).bytes =
      buf.load 0 len ++ leBytes16 (crc16 (buf.load 0 len)) := by
    show (addCrc buf len).load 0 (len + 2) = _
    rw [ Memory.load_add, load_addCrc buf (Nat.le_of_eq (Nat.zero_add len)),
      Nat.zero_add]
    exact congrArg _ (Memory.load_store_self buf len (leBytes16 _))
  rw [hbytes]
  exact crc16_leBytes16 _

/-- **Bursts are detected, and `add_crc` makes frames that pass.**  An error that lies within 16
bits of a frame whose check-sum was right makes the comparison fail, so that the frame is not
answered and changes nothing. -/
theorem errorDetection (io : RequestIo) (soc : Soc b) (tx : Memory Byte) :
    (∀ (rx : Frame) (e : List Byte), 5 ≤ rx.len → rx.len ≤ modbusRxBufSize → rx.CrcOk →
      e.length = rx.len → Crc.IsBurst 16 (msgBits e) →
        ¬ (rx.corrupt e).CrcOk ∧ modbusRecv io soc (rx.corrupt e) tx = ⟨0, none, soc⟩) ∧
    ∀ (buf : Memory Byte) (len : ℕ), len < 2 ^ 16 →
      (Frame.mk (addCrc buf len) (len + 2)).CrcOk := by
  refine ⟨fun rx e hmin hmax hok hlen hburst => ?_, fun buf len h => crcOk_addCrc buf h⟩
  unfold modbusRxBufSize at hmax
  have hfails : ¬ (rx.corrupt e).CrcOk :=
    not_crcOk_corrupt (by omega) (by omega) hlen hok hburst
  refine ⟨hfails, ?_⟩
  rw [modbusRecv_of_not_accepts fun haccepts => hfails haccepts.2.1]
  have hlong : ¬ (rx.corrupt e).len < 5 := Nat.not_lt.2 hmin
  rw [if_neg hlong]

/-- A request for the register at address 0. -/
def readRequest : Frame := ⟨fun k => [1, 3, 0, 0, 0, 1, 0x84, 0x0a].getD k 0, 8⟩

theorem errorDetection_readRequest :
    ¬ (readRequest.corrupt [0, 0, 0, 0x10, 0, 0, 0, 0]).CrcOk ∧
      (Frame.mk (addCrc readRequest.buf 6) 8).CrcOk := by
  obtain ⟨hbursts, hadd⟩ := errorDetection quietIo (powerUp monitorBuild) fun _ => 0
  have hok : readRequest.CrcOk := by decide +kernel
  have hburst : Crc.IsBurst 16 (msgBits [0, 0, 0, 0x10, 0, 0, 0, 0]) :=
    ⟨28, [true], 35, by decide, by decide, by decide⟩
  exact ⟨(hbursts readRequest _ (by decide) (by decide) hok rfl hburst).1,
    hadd readRequest.buf 6 (by decide)⟩

end Karnix.Modbus
