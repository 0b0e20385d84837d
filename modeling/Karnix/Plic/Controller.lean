import Karnix.Library.Runs
import Mathlib.Data.BitVec

/-!
# Interrupt controller and interrupt handler

`Apb3MicroPLICCtrl` of `MicroPLIC.scala`, one clock cycle at a time, together with
`externalInterrupt` of `main.c`, which works on it through the bus.

In a cycle in which `PENDING` is written over the bus, the bus value wins over the bits the
interrupt lines set in the same cycle: the slave factory emits its register write behind
the assignments of the component.
-/

namespace Karnix.Plic

open Karnix.Library

/-! ## Section 1: The controller -/

/-- One bit for each interrupt line. -/
abbrev Lines := BitVec 32

/-- The registers of `Apb3MicroPLICCtrl`: pending, enabled, and how each line is watched. -/
structure Regs where
  irqEnabled : Lines
  irqPending : Lines
  irqPolarity : Lines
  irqLastValue : Lines
  irqEdgeControl : Lines

/-- The lines with an active edge in this cycle, among those enabled and configured for
edges. -/
def Regs.edges (r : Regs) (irqLines : Lines) : Lines :=
  r.irqEnabled &&& r.irqEdgeControl &&& (irqLines ^^^ r.irqLastValue) &&&
    ~~~(irqLines ^^^ r.irqPolarity)

/-- The enabled lines configured for levels that are at their active level. -/
def Regs.levels (r : Regs) (irqLines : Lines) : Lines :=
  r.irqEnabled &&& ~~~r.irqEdgeControl &&& ~~~(irqLines ^^^ r.irqPolarity)

/-- One clock cycle.  `write` is what the bus writes to `PENDING` in this cycle, if it
does. -/
def Regs.clock (r : Regs) (irqLines : Lines) (write : Option Lines) : Regs :=
  { r with
    irqPending := write.getD (r.irqPending ||| r.edges irqLines ||| r.levels irqLines)
    irqLastValue := irqLines }

/-! ## Section 2: The handler -/

/-- The interrupts `externalInterrupt` handles. -/
inductive Irq where
  | uart0 | i2c | uart1 | mac | timer0 | timer1 | cgaVblank | usb1
  deriving DecidableEq, Repr

def Irq.num : Irq → ℕ
  | .uart0 => 0
  | .uart1 => 1
  | .mac => 2
  | .timer0 => 3
  | .timer1 => 4
  | .i2c => 5
  | .cgaVblank => 7
  | .usb1 => 10

/-- `PLIC_IRQ_…`: the bit of the line. -/
def Irq.mask (q : Irq) : Lines := 1#32 <<< q.num

/-- The order in which `externalInterrupt` looks at the interrupts. -/
def handlerOrder : List Irq := [.uart0, .i2c, .uart1, .mac, .timer0, .timer1, .cgaVblank, .usb1]

/-- Where the processor is. -/
inductive Cpu where
  /-- Not in `externalInterrupt`. -/
  | outside
  /-- About to read `PENDING` for the `if` of `q`; `rest` comes behind it. -/
  | test (q : Irq) (rest : List Irq)
  /-- The interrupt `q` was handled; about to read `PENDING` for `PENDING &= ~q`. -/
  | ackRead (q : Irq) (rest : List Irq)
  /-- About to write `value` to `PENDING`. -/
  | ackWrite (q : Irq) (rest : List Irq) (value : Lines)
  deriving DecidableEq, Repr

/-- On to the next `if`, or back to the interrupted program. -/
def Cpu.next : List Irq → Cpu
  | [] => .outside
  | q :: rest => .test q rest

/-- A bus access of an acknowledgement. -/
inductive Op where
  | ackRead (num : ℕ)
  | ackWrite (num : ℕ)
  deriving DecidableEq, Repr

/-- The controller and the processor. -/
structure State where
  regs : Regs
  cpu : Cpu

/-- A clock cycle: the levels of the interrupt lines, and whether the processor gets to its
next bus access in it, or enters the handler. -/
structure Cycle where
  irqLines : Lines
  go : Bool

/-- What the processor does when it gets to its next bus access. -/
def Cpu.go (pending : Lines) : Cpu → Cpu
  | .outside => if pending ≠ 0 then .next handlerOrder else .outside
  | .test q rest => if pending &&& q.mask ≠ 0 then .ackRead q rest else .next rest
  | .ackRead q rest => .ackWrite q rest (pending &&& ~~~q.mask)
  | .ackWrite _ rest _ => .next rest

/-- What the bus writes to `PENDING` in the cycle. -/
def State.busWrite (s : State) (c : Cycle) : Option Lines :=
  match s.cpu with
  | .ackWrite _ _ value => if c.go then some value else none
  | _ => none

/-- The bus access of an acknowledgement made in the cycle. -/
def State.op (s : State) (c : Cycle) : List Op :=
  match s.cpu with
  | .ackRead q _ => if c.go then [.ackRead q.num] else []
  | .ackWrite q _ _ => if c.go then [.ackWrite q.num] else []
  | _ => []

def step (s : State) (c : Cycle) : State where
  regs := s.regs.clock c.irqLines (s.busWrite c)
  cpu := if c.go then s.cpu.go s.regs.irqPending else s.cpu

/-- The acknowledgement accesses of a run, in order. -/
def ops : State → List Cycle → List Op
  | _, [] => []
  | s, c :: cs => s.op c ++ ops (step s c) cs

/-- The registers as `main` configures them, with nothing pending. -/
def configured : Regs where
  irqEnabled := 0x0000041f
  irqPending := 0
  irqPolarity := 0x0000077f
  irqLastValue := 0
  irqEdgeControl := 0xfffffff8

/-! ## Section 3: Single lines -/

/-- An edge is latched in the cycle in which it arrives, unless the bus writes `PENDING`. -/
theorem pending_of_edge {r : Regs} (irqLines : Lines) {i : ℕ}
    (h : (r.edges irqLines).getLsbD i = true) :
    (r.clock irqLines none).irqPending.getLsbD i = true := by
  simp [Regs.clock, h]

/-- Without a bus write a pending bit stays. -/
theorem pending_stays {r : Regs} (irqLines : Lines) {i : ℕ}
    (h : r.irqPending.getLsbD i = true) :
    (r.clock irqLines none).irqPending.getLsbD i = true := by
  simp [Regs.clock, h]

/-- The value written back for one line keeps the pending bits of the others. -/
theorem getLsbD_masked {pending : Lines} {q : Irq} {i : ℕ} (h : pending.getLsbD i = true)
    (hne : q.num ≠ i) : (pending &&& ~~~q.mask).getLsbD i = true := by
  have hi : i < 32 := BitVec.lt_of_getLsbD h
  have hmask : q.mask.getLsbD i = false := by
    simp only [Irq.mask, BitVec.getLsbD_shiftLeft, BitVec.getLsbD_one]
    by_cases hlt : i < q.num
    · simp [hlt]
    · have : i - q.num ≠ 0 := by omega
      simp [this]
  rw [BitVec.getLsbD_and, BitVec.getLsbD_not, h, hmask]
  simp [hi]

end Karnix.Plic
