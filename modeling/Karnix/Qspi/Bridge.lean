import Mathlib.Data.BitVec
import Karnix.Library.Runs

/-!
# AXI4 to QSPI bridge

`Axi4SharedToQSPI` of `Axi4SharedToQSPI.scala`, one clock cycle at a time: the state machine, the
four components that shift bits over the QSPI bus, and the control register, which is written by
the APB bus and by the state machine.

What is shifted out, and the words that are read, are left out; of the input pins only `io1` is
there, from which the status of the flash is shifted in.
-/

namespace Karnix.Qspi

/-! ## Section 1: Shifting bits -/

/-- `QSPISendSPIPhase`: where the sender of bits on one line is. -/
inductive SendSPIPhase where
  | idle | send | done
  deriving DecidableEq, Repr

/-- The registers of `QSPISendSPI`, but for the word that it shifts out. -/
structure SendSPI where
  curBit : BitVec 5
  phase : SendSPIPhase
  dataIn : BitVec 32
  ready : Bool

def SendSPI.next (s : SendSPI) (valid : Bool) (lenBits : BitVec 5) (io1 : Bool) : SendSPI :=
  if valid then
    match s.phase with
    | .idle => { s with phase := .send, ready := false, curBit := lenBits }
    | .send =>
      { s with
        dataIn := s.dataIn.extractLsb' 0 31 ++ BitVec.ofBool io1
        curBit := s.curBit - 1
        phase := if s.curBit = 0 then .done else .send }
    | .done => { s with phase := .idle, ready := true }
  else { s with phase := .idle, ready := false }

/-- `QSPISendCMDPhase`: where the sender of a command is; `sendM` clocks the mode bits behind it.
-/
inductive SendCMDPhase where
  | idle | sendCmd | sendM | done
  deriving DecidableEq, Repr

/-- The registers of `QSPISendCMD_QPI` and `QSPISendCMD_SPI`, which differ in the width of their
counter. -/
structure SendCMD (w : ℕ) where
  curCycle : BitVec w
  phase : SendCMDPhase
  ready : Bool

def SendCMD.next {w : ℕ} (s : SendCMD w) (valid : Bool) (lenCycles : BitVec w) (mBits : BitVec 3)
    (mBitsPresent : Bool) : SendCMD w :=
  if valid then
    match s.phase with
    | .idle => { phase := .sendCmd, ready := false, curCycle := lenCycles }
    | .sendCmd =>
      if s.curCycle = 0 then
        if mBitsPresent then { s with curCycle := mBits.setWidth w, phase := .sendM }
        else { curCycle := mBits.setWidth w, ready := true, phase := .idle }
      else { s with curCycle := s.curCycle - 1 }
    | .sendM =>
      if s.curCycle = 0 then { curCycle := s.curCycle - 1, ready := true, phase := .idle }
      else { s with curCycle := s.curCycle - 1 }
    | .done => s
  else { s with phase := .idle, ready := false }

/-- The registers of `QSPIReadWord32`, but for the word that it shifts in. -/
structure ReadWord32 where
  curCycle : BitVec 3
  ready : Bool

def ReadWord32.next (s : ReadWord32) (valid : Bool) : ReadWord32 :=
  if valid then { curCycle := s.curCycle - 1, ready := s.curCycle = 0 || s.ready }
  else { curCycle := 7, ready := false }

/-! ## Section 2: The bridge -/

/-- `Axi4ToQSPIPhase`: the initialisation of the flash, and the stages of its commands. -/
inductive Phase where
  | init1 | init2 | init3 | init4 | setup
  | spiCmdProgramWel | spiCmdProgram | spiProgram | spiProgramResponse
  | spiCmdRead | qpiCmdRead | qpiCmdReadSetup | qpiRead | qpiReadRepeat | qpiReadResponse
  | spiCmdErase4k | spiCmdErase4kWel | spiCmdErase4kWait | spiCmdErase4kWait2
  | spiCmdErase4kWaitReadStatus | spiCmdErase4kWaitResponse
  | spiCmdStatus | spiCmdReadStatus | spiCmdReadStatusResponse
  deriving DecidableEq, Repr

/-- A request on the shared address channel. -/
structure Arw where
  write : Bool
  len : BitVec 8
  deriving DecidableEq

/-- What the buses and the flash drive in a clock cycle.  `ctrlWrite` is an APB write to the
control register. -/
structure Input where
  arwValid : Bool
  arw : Arw
  wValid : Bool
  wLast : Bool
  bReady : Bool
  rReady : Bool
  ctrlWrite : Option (BitVec 32)
  io1 : Bool

/-- The registers of the bridge and of its components. -/
structure State where
  phase : Phase
  lenBurst : BitVec 8
  arw : Arw
  qspiCtrlWord : BitVec 32
  spiSend : SendSPI
  qpiCmd : SendCMD 3
  spiCmd : SendCMD 5
  qpiRead : ReadWord32

/-- Bit `k` of a register gets the value `b`. -/
def setBit (word : BitVec 32) (k : ℕ) (b : Bool) : BitVec 32 :=
  if b then word ||| BitVec.twoPow 32 k else word &&& ~~~ BitVec.twoPow 32 k

namespace State

def qspiCtrlWriteEnabled (s : State) : Bool := s.qspiCtrlWord.getLsbD 31
def qspiCtrlCMDErase (s : State) : Bool := s.qspiCtrlWord.getLsbD 30
def qspiCtrlCMDStatus (s : State) : Bool := s.qspiCtrlWord.getLsbD 29

def setCMDErase (s : State) (b : Bool) : State :=
  { s with qspiCtrlWord := setBit s.qspiCtrlWord 30 b }
def setWriteEnabled (s : State) (b : Bool) : State :=
  { s with qspiCtrlWord := setBit s.qspiCtrlWord 31 b }
def setCMDStatus (s : State) (b : Bool) : State :=
  { s with qspiCtrlWord := setBit s.qspiCtrlWord 29 b }
def setCMDProgram (s : State) (b : Bool) : State :=
  { s with qspiCtrlWord := setBit s.qspiCtrlWord 28 b }
def setProgress (s : State) (b : Bool) : State :=
  { s with qspiCtrlWord := setBit s.qspiCtrlWord 16 b }

/-- `qspiCtrlStatus`: the low byte of the control word is the status of the flash. -/
def setStatus (s : State) (b : BitVec 8) : State :=
  { s with qspiCtrlWord := s.qspiCtrlWord.extractLsb' 8 24 ++ b }

/-- `isEndBurst`: the word under way is the last one. -/
def isEndBurst (s : State) : Bool := s.lenBurst = 0

/-- `io.axi.arw.ready`, where there is a request. -/
def arwReady (s : State) : Bool := s.phase = .setup

/-- `io.axi.w.ready`: the word that has been shifted out is taken. -/
def wReady (s : State) : Bool := s.phase = .spiProgram && s.spiSend.ready

/-- `io.axi.b.valid`: the response to a write is offered. -/
def bValid (s : State) : Bool := s.phase = .spiProgramResponse

/-- `io.axi.r.valid`: a word that was read is offered. -/
def rValid (s : State) : Bool := s.phase = .qpiReadResponse

/-- `io.axi.r.last`: it is the last one of the burst. -/
def rLast (s : State) : Bool := s.isEndBurst && !s.arw.write

/-- The word that is programmed is the last one. -/
def programEnd (s : State) (i : Input) : Bool := i.wLast || s.arw.len = 0

/-- `spi_send.io.valid`: there are bits to be shifted out on one line. -/
def spiSendValid (s : State) (i : Input) : Bool :=
  match s.phase with
  | .init1 | .init2 | .init3 | .init4 | .spiCmdReadStatus | .spiCmdErase4kWaitReadStatus =>
    !s.spiSend.ready
  | .spiProgram => !s.spiSend.ready || !s.programEnd i
  | _ => false

/-- `spi_send.io.len_bits`: how many of them, less one. -/
def spiSendLenBits (s : State) : BitVec 5 :=
  match s.phase with
  | .init1 | .init3 | .init4 | .spiCmdReadStatus | .spiCmdErase4kWaitReadStatus => 8 - 1
  | .init2 => 24 - 1
  | .spiProgram => 32 - 1
  | _ => 0

/-- `spi_cmd.io.valid`: there is a command to be sent on one line. -/
def spiCmdValid (s : State) : Bool :=
  match s.phase with
  | .spiCmdStatus | .spiCmdProgram | .spiCmdErase4kWait2 => true
  | .spiCmdProgramWel | .spiCmdErase4kWel | .spiCmdErase4k | .spiCmdRead => !s.spiCmd.ready
  | _ => false

/-- `spi_cmd.io.len_cycles`: its cycles less one, with the address if it has one. -/
def spiCmdLenCycles (s : State) : BitVec 5 :=
  match s.phase with
  | .spiCmdStatus | .spiCmdProgramWel | .spiCmdErase4kWel | .spiCmdErase4kWait2 => 8 - 1
  | .spiCmdProgram | .spiCmdErase4k | .spiCmdRead => 32 - 1
  | _ => 0

/-- `qpi_cmd.io.valid`: there is a command to be sent on four lines. -/
def qpiCmdValid (s : State) : Bool :=
  match s.phase with
  | .qpiCmdReadSetup | .qpiCmdRead => !s.qpiCmd.ready
  | _ => false

/-- `qpi_cmd.io.len_cycles`: its cycles less one. -/
def qpiCmdLenCycles (s : State) : BitVec 3 :=
  match s.phase with
  | .qpiCmdReadSetup => 4 - 1
  | .qpiCmdRead => 8 - 1
  | _ => 0

/-- `qpi_read.io.valid`: there is a word to be shifted in. -/
def qpiReadValid (s : State) : Bool :=
  match s.phase with
  | .qpiCmdRead => s.qpiCmd.ready
  | .spiCmdRead => s.spiCmd.ready
  | .qpiRead => !s.qpiRead.ready
  | .qpiReadRepeat => true
  | _ => false

/-- A phase is left when its component is ready. -/
def await (s : State) (ready : Bool) (p : Phase) : State :=
  if ready then { s with phase := p } else s

/-- `SETUP`: a request is accepted, or a command that was written to the registers is begun. -/
def setup (s : State) (i : Input) : State :=
  let s := { s with arw := i.arw, lenBurst := i.arw.len }
  if i.arwValid then
    if i.arw.write && s.qspiCtrlWriteEnabled then
      ({ s with phase := .spiCmdProgramWel }.setProgress true).setCMDProgram true
    else { s with phase := .spiCmdRead }
  else
    let s' := if s.qspiCtrlCMDErase && s.qspiCtrlWriteEnabled then
        { s with phase := .spiCmdErase4kWel }.setProgress true
      else s
    if s.qspiCtrlCMDStatus then { s' with phase := .spiCmdStatus }.setProgress true else s'

/-- What the state machine assigns in a clock cycle. -/
def sm (s : State) (i : Input) : State :=
  match s.phase with
  | .init1 => s.await s.spiSend.ready .init2
  | .init2 => s.await s.spiSend.ready .init3
  | .init3 => s.await s.spiSend.ready .setup
  | .init4 => s.await s.spiSend.ready .setup
  | .setup => s.setup i
  | .spiCmdStatus => s.await s.spiCmd.ready .spiCmdReadStatus
  | .spiCmdReadStatus => s.await s.spiSend.ready .spiCmdReadStatusResponse
  | .spiCmdReadStatusResponse =>
    ((({ s with phase := .setup }).setProgress false).setCMDStatus false).setStatus
      (s.spiSend.dataIn.setWidth 8)
  | .spiCmdProgramWel => s.await s.spiCmd.ready .spiCmdProgram
  | .spiCmdProgram => s.await s.spiCmd.ready .spiProgram
  | .spiProgram => s.await (s.spiSend.ready && s.programEnd i) .spiProgramResponse
  | .spiProgramResponse =>
    if i.bReady then ({ s with phase := .setup }.setProgress false).setCMDProgram false else s
  | .spiCmdErase4kWel => s.await s.spiCmd.ready .spiCmdErase4k
  | .spiCmdErase4k => s.await s.spiCmd.ready .spiCmdErase4kWait
  | .spiCmdErase4kWait => { s with phase := .spiCmdErase4kWait2 }
  | .spiCmdErase4kWait2 => s.await s.spiCmd.ready .spiCmdErase4kWaitReadStatus
  | .spiCmdErase4kWaitReadStatus => s.await s.spiSend.ready .spiCmdErase4kWaitResponse
  | .spiCmdErase4kWaitResponse =>
    -- the busy flag of the flash
    if s.spiSend.dataIn.getLsbD 0 then { s with phase := .spiCmdErase4kWait }
    else
      ((((({ s with phase := .setup }).setProgress false).setCMDStatus false).setCMDErase
        false).setWriteEnabled false).setStatus (s.spiSend.dataIn.setWidth 8)
  | .qpiCmdReadSetup => s.await s.qpiCmd.ready .qpiCmdRead
  | .qpiCmdRead => s.await s.qpiCmd.ready .qpiRead
  | .qpiRead => s.await s.qpiRead.ready .qpiReadResponse
  | .qpiReadResponse =>
    if i.rReady then
      if s.isEndBurst then { s with phase := .setup }
      else { s with lenBurst := s.lenBurst - 1, phase := .qpiReadRepeat }
    else s
  | .qpiReadRepeat => { s with phase := .qpiRead }
  | .spiCmdRead => s.await s.spiCmd.ready .qpiRead

/-- A clock cycle.  A write to the control register comes after what the state machine assigns
to its bits. -/
def next (s : State) (i : Input) : State :=
  { s.sm i with
    qspiCtrlWord := i.ctrlWrite.getD (s.sm i).qspiCtrlWord
    spiSend := s.spiSend.next (s.spiSendValid i) s.spiSendLenBits i.io1
    spiCmd := s.spiCmd.next s.spiCmdValid s.spiCmdLenCycles
      (if s.phase = .spiCmdRead then 8 - 1 else 0) (s.phase = .spiCmdRead)
    qpiCmd := s.qpiCmd.next s.qpiCmdValid s.qpiCmdLenCycles
      (if s.phase = .qpiCmdRead then 8 - 1 else 0) (s.phase = .qpiCmdRead)
    qpiRead := s.qpiRead.next s.qpiReadValid }

theorem next_phase (s : State) (i : Input) : (s.next i).phase = (s.sm i).phase := rfl

theorem next_arw (s : State) (i : Input) : (s.next i).arw = (s.sm i).arw := rfl

theorem next_lenBurst (s : State) (i : Input) : (s.next i).lenBurst = (s.sm i).lenBurst := rfl

@[simp] theorem await_true (s : State) (p : Phase) : s.await true p = { s with phase := p } := rfl

@[simp] theorem await_false (s : State) (p : Phase) : s.await false p = s := rfl

/-- The bridge after reset; the registers without a reset value are those of `x`. -/
def reset (x : State) : State where
  phase := .init1
  lenBurst := x.lenBurst
  arw := x.arw
  qspiCtrlWord := 0
  spiSend := { x.spiSend with phase := .idle, ready := false }
  qpiCmd := { x.qpiCmd with phase := .idle, ready := false }
  spiCmd := { x.spiCmd with phase := .idle, ready := false }
  qpiRead := { x.qpiRead with ready := false }

end State

end Karnix.Qspi
