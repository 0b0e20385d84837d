import Karnix.Library.SerialBits
import Karnix.Qspi.Bridge

/-!
# The wires of the QSPI bridge

What the bridge puts on the pins of the flash in a clock cycle, and the words it takes from them
and from the AXI bus.  The clock of the flash is the inverted system clock where it is let
through, so that a cycle has one clock pulse or none.

`Axi4.incr`, the address step of a burst, belongs to the bus library and is a parameter.
-/

namespace Karnix.Qspi

open Karnix.Library

/-! ## Section 1: Pins -/

/-- The pins of the flash in a clock cycle; a data pin that the bridge does not drive is `none`. -/
structure Pins where
  cs : Bool
  sclk : Bool
  io0 : Option Bool
  io1 : Option Bool
  io2 : Option Bool
  io3 : Option Bool
  deriving DecidableEq

namespace Pins

/-- The flash is not selected. -/
def high : Pins := ⟨true, false, none, none, none, none⟩

/-- The flash is selected, and there is no clock. -/
def low : Pins := ⟨false, false, none, none, none, none⟩

/-- The flash is selected and clocked, and the bridge drives nothing. -/
def clock : Pins := { low with sclk := true }

/-- A bit on `io0` while the flash is selected. -/
def bit (b : Bool) : Pins := { clock with io0 := some b }

end Pins

def SendSPI.pins (s : SendSPI) (valid : Bool) (data : BitVec 32) : Pins :=
  if valid then
    match s.phase with
    | .idle => .low
    | .send => .bit (data.getLsbD s.curBit.toNat)
    | .done => .high
  else .high

/-- `QSPISendCMD_QPI`: the pins while four bits a cycle are sent. -/
def SendCMD.pinsQPI (s : SendCMD 3) (valid : Bool) (data : BitVec 32) : Pins :=
  if valid then
    match s.phase with
    | .idle => .low
    | .sendCmd =>
      { Pins.clock with
        io0 := data.getLsbD (4 * s.curCycle.toNat)
        io1 := data.getLsbD (4 * s.curCycle.toNat + 1)
        io2 := data.getLsbD (4 * s.curCycle.toNat + 2)
        io3 := data.getLsbD (4 * s.curCycle.toNat + 3) }
    | .sendM => .clock
    | .done => .high
  else .high

/-- `QSPISendCMD_SPI`: the pins while one bit a cycle is sent. -/
def SendCMD.pinsSPI (s : SendCMD 5) (valid : Bool) (data : BitVec 32) : Pins :=
  if valid then
    match s.phase with
    | .idle => .low
    | .sendCmd => .bit (data.getLsbD s.curCycle.toNat)
    | .sendM => .clock
    | .done => .high
  else .high

/-- `QSPIReadWord32`, which leaves the flash selected. -/
def ReadWord32.pins (valid : Bool) : Pins := if valid then .clock else .low

/-! ## Section 2: Words -/

/-- The part of a request that is not in `Arw`. -/
structure Address where
  addr : BitVec 32
  burst : BitVec 2
  size : BitVec 3
  deriving DecidableEq

/-- `Axi4.incr`: the next address of a burst, from its address, type, length and size. -/
abbrev AddressStep := BitVec 32 → BitVec 2 → BitVec 8 → BitVec 3 → BitVec 32

/-- What the buses and the flash drive in a clock cycle.  `sectorWrite` is an APB write to the
register of the sector to be erased. -/
structure Cycle extends Input where
  address : Address
  wData : BitVec 32
  sectorWrite : Option (BitVec 32)
  io0 : Bool
  io2 : Bool
  io3 : Bool

/-- The bridge with its registers for words. -/
structure Wires where
  bridge : State
  address : Address
  qspiEraseSector : BitVec 32
  /-- `data` of `qpi_read` -/
  data : BitVec 32

/-- A word with its bytes in reverse order. -/
def swapBytes (x : BitVec 32) : BitVec 32 :=
  x.extractLsb' 0 8 ++ x.extractLsb' 8 8 ++ x.extractLsb' 16 8 ++ x.extractLsb' 24 8

/-- The four bits that `qpi_read` takes from the pins. -/
def storeNibble (data : BitVec 32) (curCycle : BitVec 3) (c : Cycle) : BitVec 32 :=
  let k := 4 * curCycle.toNat
  setBit (setBit (setBit (setBit data k c.io0) (k + 1) c.io1) (k + 2) c.io2) (k + 3) c.io3

namespace Wires

/-- `arw.addr(23 downto 0)`: the address as the flash gets it. -/
def addr24 (w : Wires) : BitVec 24 := w.address.addr.extractLsb' 0 24

/-- `spi_send.io.data`: the commands of the initialisation, or the word to be programmed. -/
def spiSendData (w : Wires) (c : Cycle) : BitVec 32 :=
  match w.bridge.phase with
  | .init1 => 0x50
  | .init2 => 0x012c02
  | .init3 => 0x04
  | .init4 => 0x38
  | .spiProgram => swapBytes c.wData
  | _ => 0

/-- `spi_cmd.io.data`: the code of the command, in front of its address. -/
def spiCmdData (w : Wires) : BitVec 32 :=
  match w.bridge.phase with
  | .spiCmdStatus | .spiCmdErase4kWait2 => 0x05
  | .spiCmdProgramWel | .spiCmdErase4kWel => 0x06
  | .spiCmdProgram => 0x02#8 ++ w.addr24
  | .spiCmdErase4k => 0x20#8 ++ w.qspiEraseSector.extractLsb' 0 24
  | .spiCmdRead => 0x6b#8 ++ w.addr24
  | _ => 0

/-- `qpi_cmd.io.data`: the code of the command, in front of its address. -/
def qpiCmdData (w : Wires) : BitVec 32 :=
  match w.bridge.phase with
  | .qpiCmdReadSetup => 0xc033
  | .qpiCmdRead => 0xeb#8 ++ w.addr24
  | _ => 0

/-- `io.qspi`.  A component that is not valid leaves the pins as they are by default. -/
def pins (w : Wires) (c : Cycle) : Pins :=
  let s := w.bridge
  match s.phase with
  | .init1 | .init2 | .init3 | .init4 | .spiCmdReadStatus | .spiCmdErase4kWaitReadStatus
  | .spiProgram => s.spiSend.pins (s.spiSendValid c.toInput) (w.spiSendData c)
  | .spiCmdStatus | .spiCmdProgramWel | .spiCmdProgram | .spiCmdErase4kWel | .spiCmdErase4k
  | .spiCmdErase4kWait2 => s.spiCmd.pinsSPI s.spiCmdValid w.spiCmdData
  | .spiCmdRead =>
    if s.spiCmd.ready then ReadWord32.pins s.qpiReadValid
    else s.spiCmd.pinsSPI s.spiCmdValid w.spiCmdData
  | .qpiCmdReadSetup => s.qpiCmd.pinsQPI s.qpiCmdValid w.qpiCmdData
  | .qpiCmdRead =>
    if s.qpiCmd.ready then ReadWord32.pins s.qpiReadValid
    else s.qpiCmd.pinsQPI s.qpiCmdValid w.qpiCmdData
  | .qpiRead => if s.qpiRead.ready then .low else ReadWord32.pins s.qpiReadValid
  | .qpiReadResponse => .low
  | .qpiReadRepeat => ReadWord32.pins s.qpiReadValid
  | .setup | .spiProgramResponse | .spiCmdErase4kWait | .spiCmdErase4kWaitResponse
  | .spiCmdReadStatusResponse => .high

/-- `io.axi.r.data`: the word that was shifted in, with its bytes in the order of the bus. -/
def rData (w : Wires) : BitVec 32 := swapBytes w.data

/-- The beat that the master takes in a cycle, and whether it is marked as the last one. -/
def rBeat (w : Wires) (c : Cycle) : Option (BitVec 32 × Bool) :=
  if w.bridge.rValid && c.rReady then some (w.rData, w.bridge.rLast) else none

/-- The request that is held, at the address of the next beat. -/
def incr (step : AddressStep) (w : Wires) : Address :=
  { w.address with
    addr := step w.address.addr w.address.burst w.bridge.arw.len w.address.size }

/-- A clock cycle of the bridge, with its data registers. -/
def next (step : AddressStep) (w : Wires) (c : Cycle) : Wires where
  bridge := w.bridge.next c.toInput
  address :=
    match w.bridge.phase with
    | .setup => c.address
    | .spiProgram => if w.bridge.spiSend.ready then w.incr step else w.address
    | .qpiReadResponse =>
      if c.rReady && !w.bridge.isEndBurst then w.incr step else w.address
    | _ => w.address
  qspiEraseSector := c.sectorWrite.getD w.qspiEraseSector
  data :=
    if w.bridge.qpiReadValid then storeNibble w.data w.bridge.qpiRead.curCycle c else w.data

end Wires

/-- What the flash sees in a cycle: nothing when it is not selected, else the bit at the clock if
there is one. -/
def Pins.seen (p : Pins) (c : Cycle) : Option (Option Bool) :=
  if p.cs then none else some (if p.sclk then some (p.io0.getD c.io0) else none)

/-! ## Section 3: Small facts -/

theorem getLsbD_setBit (x : BitVec 32) {k : ℕ} (hk : k < 32) (b : Bool) (j : ℕ) :
    (setBit x k b).getLsbD j = if j = k then b else x.getLsbD j := by
  unfold setBit
  by_cases hj : j = k
  · subst hj
    cases b <;> simp [hk]
  · cases b with
    | false =>
      by_cases h32 : j < 32
      · simp [h32, hj]
      · simp [BitVec.getLsbD_of_ge x j (not_lt.mp h32), hj]
    | true => simp [BitVec.getLsbD_twoPow, hj, Ne.symm hj]

theorem curCycle_eq_zero {w : ℕ} {x : BitVec w} : x = 0 ↔ x.toNat = 0 := by
  constructor
  · intro h
    rw [h]
    exact BitVec.toNat_zero
  · intro h
    exact BitVec.eq_of_toNat_eq (by rw [h]; exact BitVec.toNat_zero.symm)

theorem toNat_sub_one {w : ℕ} {x : BitVec w} (hw : 0 < w) (h : x.toNat ≠ 0) :
    (x - 1).toNat = x.toNat - 1 := by
  have hone : (1 : BitVec w).toNat = 1 := by
    rw [BitVec.ofNat_eq_ofNat, BitVec.toNat_ofNat]
    exact Nat.mod_eq_of_lt (Nat.one_lt_two_pow hw.ne')
  have hlt := x.isLt
  rw [BitVec.toNat_sub, hone, show 2 ^ w - 1 + x.toNat = x.toNat - 1 + 2 ^ w by omega,
    Nat.add_mod_right]
  exact Nat.mod_eq_of_lt (by omega)

@[simp] theorem Pins.seen_high (c : Cycle) : Pins.high.seen c = none := rfl

@[simp] theorem Pins.seen_low (c : Cycle) : Pins.low.seen c = some none := rfl

@[simp] theorem Pins.seen_clock (c : Cycle) : Pins.clock.seen c = some (some c.io0) := rfl

@[simp] theorem Pins.seen_bit (b : Bool) (c : Cycle) : (Pins.bit b).seen c = some (some b) := rfl

end Karnix.Qspi
