import Mathlib.Data.Nat.Digits.Lemmas
import Karnix.Modbus.Registers

/-!
# Modbus requests

`modbus_recv` and `modbus_error` of `modbus.c`: from a received frame to the frame in the
transmit buffer and its length.

`modbus_recv` leaves the transmit buffer of its caller alone until it has accepted the
frame, and clears all of it then.  `tx` is therefore an option: `none` for a buffer that
was never written.
-/

namespace Karnix.Modbus

open Karnix.Library
open Karnix.Config

variable {b : Build}

/-! ## Section 1: Frames -/

/-- `MODBUS_TX_BUF_SIZE`: the bytes of the buffer that replies are built in. -/
def modbusTxBufSize : ℕ := 128

/-- The function codes `modbus_recv` knows. -/
inductive Func where
  | readCoils | readDiscInput | readHoldRegs
  | writeOneCoilReg | writeOneHoldReg | writeManyCoilReg | writeManyHoldReg
  | id
  deriving DecidableEq, Repr

def Func.code : Func → Byte
  | .readCoils => 0x01
  | .readDiscInput => 0x02
  | .readHoldRegs => 0x03
  | .writeOneCoilReg => 0x05
  | .writeOneHoldReg => 0x06
  | .writeManyCoilReg => 0x0F
  | .writeManyHoldReg => 0x10
  | .id => 0x11

def Func.all : List Func :=
  [.readCoils, .readDiscInput, .readHoldRegs, .writeOneCoilReg, .writeOneHoldReg,
    .writeManyCoilReg, .writeManyHoldReg, .id]

def Func.ofCode? (c : Byte) : Option Func := Func.all.find? fun f => f.code = c

/-- Functions that store a register. -/
def Func.isWrite : Func → Bool
  | .writeOneCoilReg | .writeOneHoldReg | .writeManyCoilReg | .writeManyHoldReg => true
  | _ => false

/-- Functions that read a register. -/
def Func.isRead : Func → Bool
  | .readCoils | .readDiscInput | .readHoldRegs => true
  | _ => false

/-- A received frame: the buffer from its first byte on, and the number of bytes received.
What lies behind them in the buffer is arbitrary. -/
structure Frame where
  buf : Memory Byte
  len : ℕ

namespace Frame

def func (rx : Frame) : Byte := rx.buf 1

def regAddr (rx : Frame) : BitVec 16 := be16 (rx.buf 2) (rx.buf 3)

def qty (rx : Frame) : BitVec 16 := be16 (rx.buf 4) (rx.buf 5)

/-- The buffer from `rx_buf[7]` on. -/
def data (rx : Frame) : Memory Byte := fun k => rx.buf (7 + k)

/-- `rx_len - 2 - 7` as the 16-bit parameter of `modbus_store_reg` receives it. -/
def dataLen (rx : Frame) : ℕ := (((rx.len : ℤ) - 2 - 7) % 2 ^ 16).toNat

/-- The check-sum at the end of the frame is the one computed from the bytes before it. -/
def CrcOk (rx : Frame) : Prop :=
  crc16 (rx.buf.load 0 ((rx.len - 2) % 2 ^ 16)) = be16 (rx.buf (rx.len - 1)) (rx.buf (rx.len - 2))

instance (rx : Frame) : Decidable rx.CrcOk := inferInstanceAs (Decidable (_ = _))

end Frame

/-- `active_config.modbus_addr`: the address that the board answers to. -/
def Soc.modbusAddr (soc : Soc b) : Byte := (soc.activeConfig.read .modbusAddr).headD 0

/-- The frame is for this device: its own address, or a broadcast of `FUNC_ID`. -/
def Soc.Addressed (soc : Soc b) (rx : Frame) : Prop :=
  rx.buf 0 = soc.modbusAddr ∨ rx.buf 0 = 0x00 ∧ rx.func = Func.id.code

instance (soc : Soc b) (rx : Frame) : Decidable (soc.Addressed rx) :=
  inferInstanceAs (Decidable (_ ∨ _))

/-! ## Section 2: Replies -/

/-- A reply under construction: the transmit buffer and the length computed so far. -/
structure Reply where
  tx : Memory Byte
  len : ℕ

/-- `modbus_error`: the function code with its high bit, and the reason. -/
def modbusError (soc : Soc b) (f errCode : Byte) (tx : Memory Byte) : Reply :=
  ⟨addCrc (tx.store 0 [soc.modbusAddr, f ||| 0x80, errCode]) 3, 3 + 2⟩

/-- `ERR_FUNC_NOT_IMPLEMENTED`, `ERR_ADDR_NOT_AVAILABLE`, `ERR_WRONG_ARGS`, `ERR_SYS_ERROR` -/
def errFuncNotImplemented : Byte := 0x01
def errAddrNotAvailable : Byte := 0x02
def errWrongArgs : Byte := 0x03
def errSysError : Byte := 0x07

/-- The bytes of a text. -/
def ascii (s : String) : List Byte := s.toList.map fun c => BitVec.ofNat 8 c.toNat

/-- `%05d`: five digits or more. -/
def formatD5 (n : ℕ) : List Byte :=
  ((Nat.digits 10 n).reverse.map fun d => BitVec.ofNat 8 (48 + d)).leftpad 5 48

/-- The text `FUNC_ID` answers with. -/
def Build.idText (b : Build) : List Byte :=
  ascii "HUB12/75: build " ++ formatD5 b.buildNumber ++ ascii ", date: " ++ b.date

/-- `case FUNC_ID`.  `sprintf` ends the text with a zero byte. -/
def idReply (b : Build) (tx : Memory Byte) : Reply :=
  let len := b.idText.length
  ⟨addCrc ((tx.store 3 (b.idText ++ [0])).store 2 [BitVec.ofNat 8 len]) (len + 3), len + 3 + 2⟩

/-- The read functions.  An unknown register is answered with the error frame of
`modbus_error`, which the code behind the inner `switch` then treats as five data bytes. -/
def readReply (io : RequestIo) (soc : Soc b) (rx : Frame) (tx : Memory Byte) : Reply :=
  if rx.qty ≠ 1 then modbusError soc rx.func errWrongArgs tx
  else
    let r : Reply :=
      match readReg io soc (Reg.ofAddr? rx.regAddr) with
      | some r => ⟨tx.store r.pos r.bytes, r.len⟩
      | none => modbusError soc rx.func errAddrNotAvailable tx
    -- behind the inner `switch`: byte count and check-sum
    ⟨addCrc (r.tx.store 2 [BitVec.ofNat 8 r.len]) (r.len + 3), r.len + 3 + 2⟩

/-- The answer of the write functions to what `modbus_store_reg` returned. -/
def writeReply (rx : Frame) (st : Stored b) (tx : Memory Byte) : Reply :=
  if st.ret < 0 then
    if st.ret = -2 then modbusError st.soc rx.func errSysError tx
    else modbusError st.soc rx.func errWrongArgs tx
  else
    -- register and quantity are echoed, `rc` bytes of data follow
    let rc := st.ret.toNat
    let tx := (tx.store 2 (rx.buf.load 2 4)).store (2 + 4) (st.data.load 0 rc)
    ⟨addCrc tx (2 + 4 + rc), 2 + 4 + rc + 2⟩

/-! ## Section 3: `modbus_recv` -/

/-- What a call of `modbus_recv` returns and leaves behind. -/
structure Received (b : Build) where
  ret : ℤ
  tx : Option (Memory Byte)
  soc : Soc b

/-- The transmit buffer as the `switch` over the function code finds it: cleared, with the
address and the function code filled in. -/
def txStart (soc : Soc b) (rx : Frame) (tx : Memory Byte) : Memory Byte :=
  (tx.fill 0 modbusTxBufSize 0).store 0 [soc.modbusAddr, rx.func]

/-- `modbus_recv` from the point on where the frame is accepted. -/
def accept (io : RequestIo) (soc : Soc b) (rx : Frame) (tx : Memory Byte) : Reply × Soc b :=
  let tx := txStart soc rx tx
  match Func.ofCode? rx.func with
  | some .id => (idReply b tx, soc)
  | some .readCoils | some .readDiscInput | some .readHoldRegs => (readReply io soc rx tx, soc)
  | some .writeOneHoldReg | some .writeOneCoilReg
  | some .writeManyHoldReg | some .writeManyCoilReg =>
    -- all write functions store the one register
    let st := modbusStoreReg io soc rx.regAddr rx.data rx.dataLen
    (writeReply rx st tx, st.soc)
  | none => (modbusError soc rx.func errFuncNotImplemented tx, soc)

/-- `modbus_recv`.  `tx` is what the caller's transmit buffer contains. -/
def modbusRecv (io : RequestIo) (soc : Soc b) (rx : Frame) (tx : Memory Byte) : Received b :=
  if rx.len < 5 then ⟨-1, none, soc⟩
  else if rx.CrcOk ∧ soc.Addressed rx then
    let r := accept io soc rx tx
    ⟨r.1.len, some r.1.tx, r.2⟩
  else ⟨0, none, soc⟩

/-- The frames `modbus_recv` accepts: for this address, and with the right check-sum. -/
def Soc.Accepts (soc : Soc b) (rx : Frame) : Prop := 5 ≤ rx.len ∧ rx.CrcOk ∧ soc.Addressed rx

instance (soc : Soc b) (rx : Frame) : Decidable (soc.Accepts rx) :=
  inferInstanceAs (Decidable (_ ∧ _))

theorem modbusRecv_of_accepts {soc : Soc b} {rx : Frame} (h : soc.Accepts rx) (io : RequestIo)
    (tx : Memory Byte) :
    modbusRecv io soc rx tx =
      ⟨(accept io soc rx tx).1.len, some (accept io soc rx tx).1.tx, (accept io soc rx tx).2⟩ := by
  unfold modbusRecv
  rw [if_neg (Nat.not_lt.mpr h.1), if_pos h.2]

/-- A rejected frame leaves everything as it is; it is answered with -1 if it is too short
and with 0 otherwise. -/
theorem modbusRecv_of_not_accepts {soc : Soc b} {rx : Frame} (h : ¬ soc.Accepts rx)
    (io : RequestIo) (tx : Memory Byte) :
    modbusRecv io soc rx tx = ⟨if rx.len < 5 then -1 else 0, none, soc⟩ := by
  unfold modbusRecv
  by_cases hlen : rx.len < 5
  · rw [if_pos hlen, if_pos hlen]
  · have hrest : ¬ (rx.CrcOk ∧ soc.Addressed rx) := fun hr => h ⟨Nat.le_of_not_lt hlen, hr⟩
    rw [if_neg hlen, if_neg hlen, if_neg hrest]

/-! ## Section 4: The length of a reply -/

theorem length_formatD5_le {n : ℕ} (h : n < 2 ^ 31) : (formatD5 n).length ≤ 10 := by
  have hdigits : (Nat.digits 10 n).length ≤ 10 :=
    (Nat.digits_length_le_iff (by decide) n).mpr (by omega)
  simp only [formatD5, List.leftpad, List.length_append, List.length_replicate, List.length_map,
    List.length_reverse]
  omega

theorem length_idText_le (b : Build) : b.idText.length ≤ 45 := by
  have hnumber := length_formatD5_le b.buildNumber_lt
  have hfirst : (ascii "HUB12/75: build ").length = 16 := by decide
  have hsecond : (ascii ", date: ").length = 8 := by decide
  simp only [Build.idText, List.length_append, hfirst, hsecond, b.length_date]
  omega

end Karnix.Modbus
