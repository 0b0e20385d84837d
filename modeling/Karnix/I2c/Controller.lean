import Mathlib.Data.BitVec
import Karnix.Library.Runs

/-!
# I2C controller

`Apb3MicroI2CCtrl` of `MicroI2C.scala`, one clock cycle at a time.  The pin of SDA is driven in
some states only; where it is not, it is pulled up.  The slave can hold it low, and the level of
the wire is low as soon as one of the two makes it so.

The interrupt line is left out.
-/

namespace Karnix.I2c

/-! ## Section 1: Registers -/

/-- The values of `state`, under the names in its comments. -/
inductive Phase where
  | idle | start | txData | ack | stop1 | stop2 | stop3
  deriving DecidableEq, Repr

/-- The registers of the controller. -/
structure Ctrl where
  txData : BitVec 32
  rxData : BitVec 32
  clockDiv : BitVec 32
  enable : Bool
  txBusy : Bool
  needStart : Bool
  needStop : Bool
  txDrive : Bool
  txAck : Bool
  rxAck : Bool
  clockCounter : BitVec 32
  bitCounter : BitVec 8
  state : Phase
  scl : Bool
  sda : Bool
  tick : Bool
  deriving DecidableEq

/-- What the software does in a clock cycle. -/
inductive Access where
  | writeTxData (x : BitVec 32)
  | writeClockDiv (x : BitVec 32)
  | readClockDiv
  | writeControl (x : BitVec 32)
  deriving DecidableEq

/-- `busCtrl.isWriting(0x00)` -/
def Access.isTxData : Option Access → Bool
  | some (.writeTxData _) => true
  | _ => false

/-- `busCtrl.isReading(0x08) || busCtrl.isWriting(0x08)` -/
def Access.isClockDiv : Option Access → Bool
  | some (.writeClockDiv _) | some .readClockDiv => true
  | _ => false

/-- A write to the control register. -/
def Access.isControl : Option Access → Bool
  | some (.writeControl _) => true
  | _ => false

/-- What the software and the slave do in a clock cycle; `slave` is off when the slave holds SDA
low. -/
structure Input where
  access : Option Access
  slave : Bool

/-- The registers after reset. -/
def reset : Ctrl where
  txData := 0
  rxData := 0
  clockDiv := 0
  enable := false
  txBusy := false
  needStart := true
  needStop := true
  txDrive := true
  txAck := false
  rxAck := false
  clockCounter := 0
  bitCounter := 0
  state := .idle
  scl := false
  sda := false
  tick := false

/-- Bits `16` to `1` get those below them, and bit `0` is `b`. -/
def shift17 (x : BitVec 32) (b : Bool) : BitVec 32 :=
  x.extractLsb' 17 15 ++ x.extractLsb' 0 16 ++ BitVec.ofBool b

/-- Bits `7` to `1` get those below them, and bit `0` is `b`. -/
def shift8 (x : BitVec 32) (b : Bool) : BitVec 32 :=
  x.extractLsb' 8 24 ++ x.extractLsb' 0 7 ++ BitVec.ofBool b

namespace Ctrl

/-! ## Section 2: The pins -/

/-- `io.i2c.sda` as the controller drives it. -/
def sdaOut (s : Ctrl) : Option Bool :=
  if s.enable then
    match s.state with
    | .idle => if s.tick && 0 < s.bitCounter && s.txDrive then some s.sda else none
    | .start | .txData | .ack => if s.txDrive then some s.sda else none
    | .stop1 => if s.txAck then some s.sda else none
    | .stop2 => if s.txAck || (s.tick && s.scl && s.needStop) then some s.sda else none
    | .stop3 => some s.sda
  else none

/-- What the controller makes of SDA. -/
def level (s : Ctrl) : Bool := s.sdaOut.getD true

/-- The level of the wire. -/
def wire (s : Ctrl) (slave : Bool) : Bool := s.level && slave

/-! ## Section 3: A clock cycle -/

/-- A bit of data goes out and the level of the wire comes in. -/
def shiftBit (s : Ctrl) (wire : Bool) : Ctrl :=
  { s with
    sda := s.txData.getLsbD 7
    txData := shift17 s.txData false
    rxData := shift17 s.rxData wire
    state := if s.bitCounter = 0 then .ack else .txData
    bitCounter := if s.bitCounter = 0 then s.bitCounter else s.bitCounter - 1 }

/-- What the state machine assigns at a tick. -/
def onTick (s : Ctrl) (wire : Bool) : Ctrl :=
  match s.state with
  | .idle =>
    if 0 < s.bitCounter then
      if s.needStart then { s with state := .start, txBusy := true }
      else { s.shiftBit wire with scl := false, txBusy := true }
    else s
  | .start => { s with sda := false, scl := true, state := .txData }
  | .txData => { (if s.scl then s.shiftBit wire else s) with scl := !s.scl }
  | .ack =>
    if s.scl then
      { s with rxData := shift8 s.rxData wire, sda := true, state := .stop1, scl := !s.scl }
    else { s with scl := !s.scl }
  | .stop1 => { s with state := if s.scl then .stop1 else .stop2, scl := !s.scl }
  | .stop2 =>
    if s.scl then
      if s.needStop then
        { s with sda := false, scl := false, state := .stop3, txBusy := false, rxAck := wire }
      else { s with scl := false, state := .idle, txBusy := false, rxAck := wire }
    else { s with scl := !s.scl }
  | .stop3 => { s with state := .idle, sda := false, scl := true }

/-- The state machine.  In `STOP1` an acknowledgement is prepared in every cycle. -/
def sm (s : Ctrl) (wire : Bool) : Ctrl :=
  if s.enable then
    let s' := if s.tick then s.onTick wire else s
    if s.state = .stop1 ∧ s.txAck = true then { s' with sda := false } else s'
  else { s with state := .idle, scl := true, sda := true, txBusy := false }

/-- `clock_counter` and `tick`.  Where the controller is enabled, the counter goes on whatever
becomes of `clock_div`. -/
def clock (s : Ctrl) (access : Option Access) : BitVec 32 × Bool :=
  if s.enable then
    if s.clockCounter = 0 then (s.clockDiv, true) else (s.clockCounter - 1, false)
  else (if Access.isClockDiv access then s.clockDiv else s.clockCounter, s.tick)

/-- The registers that the software writes. -/
def write (s : Ctrl) : Option Access → Ctrl
  | some (.writeTxData x) => { s with txData := x }
  | some (.writeClockDiv x) => { s with clockDiv := x }
  | some (.writeControl x) =>
    { s with
      enable := x.getLsbD 0
      needStart := x.getLsbD 2
      needStop := x.getLsbD 3
      txDrive := x.getLsbD 4
      txAck := x.getLsbD 5 }
  | some .readClockDiv | none => s

/-- A clock cycle.  What the state machine assigns to `bit_counter` comes after its reload, and what
the software writes to a register comes last. -/
def next (s : Ctrl) (i : Input) : Ctrl :=
  let s' := s.sm (s.wire i.slave)
  ({ s' with
      clockCounter := (s.clock i.access).1
      tick := (s.clock i.access).2
      bitCounter := if s'.bitCounter ≠ s.bitCounter then s'.bitCounter
        else if Access.isTxData i.access then 7 else s.bitCounter }).write i.access

/-- The controller waits for data. -/
def Resting (s : Ctrl) : Prop := s.state = .idle ∧ s.bitCounter = 0

instance (s : Ctrl) : Decidable s.Resting := inferInstanceAs (Decidable (_ ∧ _))

/-! ## Section 4: What a cycle leaves as it is -/

section Next

variable (s : Ctrl) (i : Input)

theorem next_state : (s.next i).state = (s.sm (s.wire i.slave)).state := by
  rcases h : i.access with _ | (x | x | _ | x) <;> simp [next, write, h]

theorem next_scl : (s.next i).scl = (s.sm (s.wire i.slave)).scl := by
  rcases h : i.access with _ | (x | x | _ | x) <;> simp [next, write, h]

theorem next_sda : (s.next i).sda = (s.sm (s.wire i.slave)).sda := by
  rcases h : i.access with _ | (x | x | _ | x) <;> simp [next, write, h]

theorem next_rxData : (s.next i).rxData = (s.sm (s.wire i.slave)).rxData := by
  rcases h : i.access with _ | (x | x | _ | x) <;> simp [next, write, h]

theorem next_rxAck : (s.next i).rxAck = (s.sm (s.wire i.slave)).rxAck := by
  rcases h : i.access with _ | (x | x | _ | x) <;> simp [next, write, h]

theorem next_tick : (s.next i).tick = (s.clock i.access).2 := by
  rcases h : i.access with _ | (x | x | _ | x) <;> simp [next, write, h]

theorem next_clockCounter : (s.next i).clockCounter = (s.clock i.access).1 := by
  rcases h : i.access with _ | (x | x | _ | x) <;> simp [next, write, h]

theorem next_bitCounter : (s.next i).bitCounter =
    if (s.sm (s.wire i.slave)).bitCounter ≠ s.bitCounter then (s.sm (s.wire i.slave)).bitCounter
    else if Access.isTxData i.access then 7 else s.bitCounter := by
  rcases h : i.access with _ | (x | x | _ | x) <;> simp [next, write, h]

variable {s i}

theorem next_txData (h : Access.isTxData i.access = false) :
    (s.next i).txData = (s.sm (s.wire i.slave)).txData := by
  rcases ha : i.access with _ | (x | x | _ | x)
  case some.writeTxData => simp [Access.isTxData, ha] at h
  all_goals simp [next, write, ha]

/-- What the control register says. -/
def config (s : Ctrl) : Bool × Bool × Bool × Bool × Bool :=
  (s.enable, s.needStart, s.needStop, s.txDrive, s.txAck)

theorem onTick_config (s : Ctrl) (wire : Bool) : (s.onTick wire).config = s.config := by
  cases h : s.state with
  | idle =>
    simp only [onTick, h]
    split
    · split <;> rfl
    · rfl
  | start => simp [onTick, h, config]
  | txData =>
    simp only [onTick, h]
    split <;> rfl
  | ack =>
    simp only [onTick, h]
    split <;> rfl
  | stop1 => simp [onTick, h, config]
  | stop2 =>
    simp only [onTick, h]
    split
    · split <;> rfl
    · rfl
  | stop3 => simp [onTick, h, config]

theorem sm_config (s : Ctrl) (wire : Bool) : (s.sm wire).config = s.config := by
  have htick : (if s.tick then s.onTick wire else s).config = s.config := by
    split
    · exact s.onTick_config wire
    · rfl
  have hsda : ∀ s' : Ctrl, s'.config = s.config →
      (if s.state = .stop1 ∧ s.txAck = true then { s' with sda := false } else s').config =
        s.config := fun s' h => by split <;> exact h
  cases he : s.enable with
  | true => simpa only [sm, he, if_true] using hsda _ htick
  | false => simp [sm, he, config]

theorem next_config (h : Access.isControl i.access = false) : (s.next i).config = s.config := by
  rw [← sm_config s (s.wire i.slave)]
  rcases ha : i.access with _ | (x | x | _ | x)
  case some.writeControl => simp [Access.isControl, ha] at h
  all_goals simp [next, write, config, ha]

end Next

end Ctrl

end Karnix.I2c
