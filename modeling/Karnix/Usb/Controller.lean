import Mathlib.Data.BitVec
import Karnix.Library.Runs

/-!
# USB 1.0 controller

`Apb3USB10Ctrl` of `Apb3USB10.scala`.  The registers of the bus interface run on the system
clock, the state machine on the USB clock, and the state machine's assignments to `COMMAND`
take effect on edges of the system clock.  A step is an instant at which one of the two
clocks, or both, have an edge.

The senders of tokens and data and the receiver are seen by the state machine through their
`ready` only, which is an input here.  `USBSendSE0`, which makes keep-alives and resets, is
modelled.
-/

namespace Karnix.Usb

/-! ## Section 1: Registers -/

/-- `USBMain`: what the controller is at on the bus. -/
inductive USBMain where
  | unconnected | waitCMDorSYNC | keepAlive | sendLongToken | sendShortToken | sendData
  | sendReset | receive
  deriving DecidableEq, Repr

/-- `USBCommand`, without `CMDNone`. -/
inductive USBCommand where
  | sendLongToken | sendShortToken | sendData | busReset
  deriving DecidableEq, Repr

def USBCommand.ofCode (code : BitVec 4) : Option USBCommand :=
  if code = 1 then some .sendLongToken
  else if code = 2 then some .sendShortToken
  else if code = 3 then some .sendData
  else if code = 4 then some .busReset
  else none

/-- The state in which the command is sent. -/
def USBCommand.state : USBCommand → USBMain
  | .sendLongToken => .sendLongToken
  | .sendShortToken => .sendShortToken
  | .sendData => .sendData
  | .busReset => .sendReset

def USBMain.isSender : USBMain → Bool
  | .sendLongToken | .sendShortToken | .sendData | .sendReset => true
  | _ => false

/-- The constants computed from `usbFrequency`. -/
structure Clocks where
  lowSpeedClockDiv : BitVec 8
  lowSpeedKeepAliveClocks : BitVec 16
  lowSpeedErrorClocks : BitVec 16

/-- The constants of the SoC: its USB clock has 11.9 MHz. -/
def karnixClocks : Clocks := ⟨7, 11899, 9519⟩

/-- The registers of `USBSendSE0`. -/
structure SendSE0 where
  clockDiv : BitVec 8
  bitCount : BitVec 16
  deriving DecidableEq

/-- The registers on the USB clock. -/
structure UsbRegs where
  state : USBMain
  /-- Guard timer. -/
  t1 : BitVec 16
  /-- Keep-alive timer. -/
  t2 : BitVec 16
  error : Bool
  report : Bool
  busy : Bool
  received : Bool
  sendSE0 : SendSE0
  deriving DecidableEq

structure Ctrl where
  usbCommandWord : BitVec 32
  usbControlWord : BitVec 32
  usb : UsbRegs
  deriving DecidableEq

/-- The bus lines, and `ready` of the components that are not modelled. -/
structure Signals where
  dm : Bool
  dp : Bool
  longTokenReady : Bool
  shortTokenReady : Bool
  dataReady : Bool
  receiverReady : Bool

inductive BusWrite where
  | command (word : BitVec 32)
  | control (word : BitVec 32)

/-- An instant at which clocks have edges; `write` is for the system clock. -/
structure Edge where
  signals : Signals
  usbClk : Bool
  sysClk : Bool
  write : Option BusWrite

/-- Neither line is high: nothing is connected. -/
def Signals.busError (sig : Signals) : Bool := !sig.dm && !sig.dp

/-- A low speed device is connected. -/
def Signals.busPresent (sig : Signals) : Bool := sig.dm && !sig.dp

/-- `K` on the bus. -/
def Signals.busActivity (sig : Signals) : Bool := !sig.dm && sig.dp

def startBit (word : BitVec 32) : Bool := word.getLsbD 31

/-- The command a command word selects. -/
def selected (word : BitVec 32) : Option USBCommand :=
  USBCommand.ofCode (word.extractLsb' 0 4)

namespace Ctrl

def cmdStart (s : Ctrl) : Bool := startBit s.usbCommandWord
def cmd (s : Ctrl) : Option USBCommand := selected s.usbCommandWord
def busEnable (s : Ctrl) : Bool := s.usbControlWord.getLsbD 31
def keepaliveEnable (s : Ctrl) : Bool := s.usbControlWord.getLsbD 30
def resetDelayBits (s : Ctrl) : BitVec 16 := s.usbControlWord.extractLsb' 0 16

/-! ## Section 2: `USBSendSE0` -/

/-- `send_se0.io.valid`: both lines are to be held low. -/
def se0Valid (s : Ctrl) : Bool :=
  decide (s.usb.state = .sendReset) || decide (s.usb.state = .keepAlive)

/-- `send_se0.io.len`: a keep-alive takes two bit intervals. -/
def se0Len (s : Ctrl) : BitVec 16 :=
  if s.usb.state = .sendReset then s.resetDelayBits
  else if s.usb.state = .keepAlive then 2
  else 0

/-- `clock_strobe`, once in a bit time while they are. -/
def se0Strobe (s : Ctrl) : Bool := s.se0Valid && decide (s.usb.sendSE0.clockDiv = 0)

/-- `send_se0.io.ready`: they have been low for long enough. -/
def se0Ready (s : Ctrl) : Bool := s.se0Strobe && decide (s.usb.sendSE0.bitCount = s.se0Len)

/-- The registers of `USBSendSE0` after an edge of the USB clock. -/
def se0Next (c : Clocks) (s : Ctrl) : SendSE0 :=
  if s.se0Valid then
    { clockDiv :=
        if s.usb.sendSE0.clockDiv = c.lowSpeedClockDiv then 0 else s.usb.sendSE0.clockDiv + 1
      bitCount := if s.se0Strobe then s.usb.sendSE0.bitCount + 1 else s.usb.sendSE0.bitCount }
  else ⟨0, 0⟩

/-! ## Section 3: The state machine -/

/-- `ready` of the component the state has selected. -/
def ready (s : Ctrl) (sig : Signals) : Bool :=
  match s.usb.state with
  | .sendLongToken => sig.longTokenReady
  | .sendShortToken => sig.shortTokenReady
  | .sendData => sig.dataReady
  | .sendReset | .keepAlive => s.se0Ready
  | .receive => sig.receiverReady
  | .unconnected | .waitCMDorSYNC => false

/-- The guard timer runs out. -/
def guardTimeout (c : Clocks) (s : Ctrl) (sig : Signals) : Bool :=
  sig.busError && decide (s.usb.state ≠ .sendReset) &&
    decide (s.usb.t1 = c.lowSpeedErrorClocks)

/-- The keep-alive timer has run out. -/
def keepAliveDue (c : Clocks) (s : Ctrl) (sig : Signals) : Bool :=
  s.keepaliveEnable && !sig.busError && decide (s.usb.t2 = c.lowSpeedKeepAliveClocks)

def guardTimer (c : Clocks) (s : Ctrl) (sig : Signals) (r : UsbRegs) : UsbRegs :=
  if s.guardTimeout c sig then
    { r with
      t1 := 0, state := .unconnected, error := true, report := true, received := false
      busy := false }
  else if sig.busError && decide (s.usb.state ≠ .sendReset) then { r with t1 := s.usb.t1 + 1 }
  else { r with t1 := 0 }

/-- `switch(state)`, whose assignments win over those of the guard timer. -/
def mainFSM (c : Clocks) (s : Ctrl) (sig : Signals) (r : UsbRegs) : UsbRegs :=
  match s.usb.state with
  | .unconnected =>
    if sig.busPresent then
      { r with busy := false, error := false, report := true, state := .waitCMDorSYNC }
    else { r with report := false }
  | .waitCMDorSYNC =>
    let r := { r with report := false }
    let r :=
      if s.cmdStart then
        match s.cmd with
        | some cmd => { r with state := cmd.state, busy := true, received := false }
        | none => { r with report := true, received := false }
      else r
    let r :=
      if sig.busActivity then { r with state := .receive, busy := true, received := false }
      else r
    -- the last assignment wins: a keep-alive goes before a command and before a reception
    let r := if s.keepaliveEnable && !sig.busError then { r with t2 := s.usb.t2 + 1 } else r
    if s.keepAliveDue c sig then { r with state := .keepAlive, busy := true } else r
  | .sendLongToken | .sendShortToken | .sendData | .sendReset =>
    if s.ready sig then
      { r with state := .waitCMDorSYNC, report := true, busy := false, t2 := 0 }
    else r
  | .keepAlive =>
    if s.ready sig then { r with state := .waitCMDorSYNC, busy := false, t2 := 0 } else r
  | .receive =>
    if s.ready sig then
      { r with state := .waitCMDorSYNC, received := true, busy := false, report := true }
    else r

/-- The registers on the USB clock after one of its edges; `bus_enable` low resets them. -/
def usbNext (c : Clocks) (s : Ctrl) (sig : Signals) : UsbRegs :=
  if s.busEnable then
    { s.mainFSM c sig (s.guardTimer c sig s.usb) with sendSE0 := s.se0Next c }
  else ⟨.unconnected, 0, 0, false, false, false, false, s.se0Next c⟩

/-- `switch(state)` assigns `False` to `cmd_start`. -/
def clearsStart (s : Ctrl) (sig : Signals) : Bool :=
  match s.usb.state with
  | .unconnected => sig.busPresent
  | .waitCMDorSYNC => s.cmdStart && s.cmd.isNone
  | .sendLongToken | .sendShortToken | .sendData | .sendReset | .keepAlive => s.ready sig
  | .receive => false

/-- What the state machine assigns to `COMMAND`. -/
def fsmCommand (c : Clocks) (s : Ctrl) (sig : Signals) : BitVec 32 :=
  let word :=
    if s.guardTimeout c sig then s.usbCommandWord &&& 0x7FFFFFF0#32 else s.usbCommandWord
  if s.clearsStart sig then word &&& 0x7FFFFFFF#32 else word

end Ctrl

/-- The value the processor writes to `COMMAND` at the edge. -/
def Edge.commandWrite (e : Edge) : Option (BitVec 32) :=
  match e.sysClk, e.write with
  | true, some (.command word) => some word
  | _, _ => none

/-- The controller after an edge.  A write of the processor wins over the state machine. -/
def step (c : Clocks) (s : Ctrl) (e : Edge) : Ctrl where
  usbCommandWord :=
    match e.commandWrite with
    | some word => word
    | none => if e.sysClk then s.fsmCommand c e.signals else s.usbCommandWord
  usbControlWord :=
    match e.sysClk, e.write with
    | true, some (.control word) => word
    | _, _ => s.usbControlWord
  usb := if e.usbClk then s.usbNext c e.signals else s.usb

/-- The controller after reset; the registers of `USBSendSE0` have no reset value. -/
def Ctrl.init (se0 : SendSE0) : Ctrl :=
  ⟨0, 22500, ⟨.unconnected, 0, 0, false, false, false, false, se0⟩⟩

/-! ## Section 4: Steps -/

namespace Ctrl

variable {c : Clocks} {s : Ctrl} {sig : Signals}

/-- A command that waits is launched, unless something more urgent comes up. -/
def launching (c : Clocks) (s : Ctrl) (sig : Signals) : Bool :=
  s.busEnable && decide (s.usb.state = .waitCMDorSYNC) && s.cmdStart && s.cmd.isSome &&
    !sig.busActivity && !s.keepAliveDue c sig

@[simp] theorem isSender_state (cmd : USBCommand) : cmd.state.isSender = true := by
  cases cmd <;> rfl

theorem guardTimer_state (c : Clocks) (s : Ctrl) (sig : Signals) (r : UsbRegs) :
    (s.guardTimer c sig r).state = .unconnected ∨ (s.guardTimer c sig r).state = r.state := by
  unfold guardTimer
  split
  · exact Or.inl rfl
  · split <;> exact Or.inr rfl

/-- A launch goes to the state of the command. -/
theorem usbNext_of_launching (h : s.launching c sig = true) :
    s.cmd.map USBCommand.state = some (s.usbNext c sig).state := by
  simp only [launching, Bool.and_eq_true, decide_eq_true_eq, Bool.not_eq_true'] at h
  obtain ⟨⟨⟨⟨⟨henable, hstate⟩, hstart⟩, hcmd⟩, hactivity⟩, hdue⟩ := h
  obtain ⟨cmd, hcmd⟩ := Option.isSome_iff_exists.mp hcmd
  simp only [usbNext, henable, mainFSM, hstate, hstart, hcmd, hactivity, hdue, if_true,
    Bool.false_eq_true, if_false, Option.map_some]
  split <;> rfl

/-- Out of `StateWaitCMDorSYNC`, by urgency. -/
theorem mainFSM_state_of_wait (hstate : s.usb.state = .waitCMDorSYNC) (r : UsbRegs) :
    (s.mainFSM c sig r).state =
      if s.keepAliveDue c sig then .keepAlive
      else if sig.busActivity then .receive
      else if s.cmdStart then (s.cmd.map USBCommand.state).getD r.state
      else r.state := by
  simp only [mainFSM, hstate]
  cases s.keepAliveDue c sig <;> cases sig.busActivity <;> cases s.cmdStart <;>
    cases s.cmd <;> simp <;> split <;> rfl

/-- Out of any other connected state: back to waiting when the component is ready. -/
theorem mainFSM_state_of_ne (hwait : s.usb.state ≠ .waitCMDorSYNC)
    (hconnected : s.usb.state ≠ .unconnected) (r : UsbRegs) :
    (s.mainFSM c sig r).state = if s.ready sig then .waitCMDorSYNC else r.state := by
  cases hstate : s.usb.state <;>
    simp only [mainFSM, hstate, ne_eq, not_true_eq_false] at hwait hconnected ⊢ <;>
    split <;> rfl

/-- The state machine is in the state of a sender because it was and that sender has not
finished, or because it launches the command. -/
theorem isSender_of_usbNext (h : (s.usbNext c sig).state.isSender = true) :
    ((s.usbNext c sig).state = s.usb.state ∧ s.ready sig = false) ∨
      s.launching c sig = true := by
  unfold usbNext at h ⊢
  cases henable : s.busEnable with
  | false => simp [henable, USBMain.isSender] at h
  | true =>
    simp only [henable, if_true] at h ⊢
    have hguard := guardTimer_state c s sig s.usb
    by_cases hunconnected : s.usb.state = .unconnected
    · -- from `StateUnconnected` there is no way into a sender
      rw [hunconnected, or_self] at hguard
      have : (s.mainFSM c sig (s.guardTimer c sig s.usb)).state.isSender = false := by
        simp only [mainFSM, hunconnected]
        split
        · rfl
        · exact congrArg USBMain.isSender hguard
      rw [this] at h
      exact absurd h (by decide)
    by_cases hwait : s.usb.state = .waitCMDorSYNC
    · -- a sender is entered only if neither a keep-alive nor a reception is more urgent
      right
      rw [mainFSM_state_of_wait hwait] at h
      have hidle : (s.guardTimer c sig s.usb).state.isSender = false := by
        rcases hguard with hg | hg <;> rw [hg]
        · rfl
        · rw [hwait]
          rfl
      cases hdue : s.keepAliveDue c sig <;> cases hactivity : sig.busActivity <;>
        cases hstart : s.cmdStart <;> cases hcmd : s.cmd <;>
        simp_all [launching, USBMain.isSender]
    · -- any other state is left when its component is ready
      left
      rw [mainFSM_state_of_ne hwait hunconnected] at h ⊢
      cases hready : s.ready sig with
      | true => simp [hready, USBMain.isSender] at h
      | false =>
        simp only [hready, Bool.false_eq_true, if_false] at h ⊢
        rcases hguard with hg | hg
        · rw [hg] at h
          exact absurd h (by decide)
        · exact ⟨hg, trivial⟩

end Ctrl

end Karnix.Usb
