import Karnix.Library.Bytes
import Karnix.Qspi.Wires

/-!
# Programming through the QSPI bridge

A write burst is to become two transactions of the flash: the write enable command, and a page
program with its address and the bytes of all beats.  The component that sends the words takes the
select line back at the end of each of them, so that the flash sees the page program end after the
first word; and it takes the bits of a word from the write channel whether there is a beat or not.
-/

namespace Karnix.Qspi.Programming

open Karnix.Library

/-! ## Section 1: The master -/

/-- A write burst: the request, and the data of its beats. -/
structure Burst where
  arw : Arw
  address : Address
  data : ℕ → BitVec 32

/-- What the environment chooses in a cycle: whether the master offers its next beat, and
everything else, among it the value of the write channel while there is no beat. -/
structure Env where
  offer : Bool
  other : Cycle

/-- The bridge, what the flash has seen since the request, the number of beats accepted, and whether
the next one is on offer. -/
structure Bus where
  wires : Wires
  windows : Windows
  accepted : ℕ
  held : Bool

/-- `w.valid`: a beat that was offered stays on offer until it is accepted. -/
def Burst.wValid (b : Burst) (u : Bus) (e : Env) : Bool :=
  decide (u.accepted ≤ b.arw.len.toNat) && (u.held || e.offer)

/-- The buses in a cycle.  The bridge looks at the address channel in `SETUP` only. -/
def Burst.cycle (b : Burst) (u : Bus) (e : Env) : Cycle :=
  { e.other with
    arwValid := true
    arw := b.arw
    address := b.address
    wValid := b.wValid u e
    wData := if b.wValid u e then b.data u.accepted else e.other.wData
    wLast := if b.wValid u e then u.accepted = b.arw.len.toNat else e.other.wLast }

section Bus

variable (incr : AddressStep)

/-- Bridge, flash and master after a clock cycle. -/
def busStep (b : Burst) (u : Bus) (e : Env) : Bus :=
  let c := b.cycle u e
  let taken := c.wValid && u.wires.bridge.wReady
  { wires := u.wires.next incr c
    windows := u.windows.clock ((u.wires.pins c).seen c)
    accepted := if taken then u.accepted + 1 else u.accepted
    held := c.wValid && !taken }

/-- The bus at clock edge `t`, when the request is made at edge `0` in state `w`. -/
def busAt (b : Burst) (w : Wires) (env : ℕ → Env) (t : ℕ) : Bus :=
  trace (busStep incr b) ⟨w, ⟨[], none⟩, 0, false⟩ env t

/-! ## Section 2: What a write burst has to do -/

/-- The command for a page, its address, and the bytes of all beats in order. -/
def Burst.program (b : Burst) : List Bool :=
  msbFirst 0x02#8 ++ msbFirst (b.address.addr.extractLsb' 0 24) ++
    (List.range (b.arw.len.toNat + 1)).flatMap fun k => (leBytes32 (b.data k)).flatMap msbFirst

/-- At clock edge `t` the response of the burst is raised, and it was right to: the flash has seen
the write enable command and the program command, each while it was selected once, and every bit of
a word was taken from a beat. -/
structure Programmed (b : Burst) (w : Wires) (env : ℕ → Env) (t : ℕ) : Prop where
  first : ∀ m, m < t → (busAt incr b w env m).wires.bridge.bValid = false
  valid : (busAt incr b w env t).wires.bridge.bValid = true
  windows : (busAt incr b w env t).windows.all = [msbFirst 0x06#8, b.program]
  beats : ∀ m, m < t → (busAt incr b w env m).wires.bridge.phase = .spiProgram →
    ((busAt incr b w env m).wires.pins (b.cycle (busAt incr b w env m) (env m))).sclk = true →
      b.wValid (busAt incr b w env m) (env m) = true

/-- What a write burst has to do. -/
def Programs (b : Burst) (w : Wires) (env : ℕ → Env) : Prop := ∃ t, Programmed incr b w env t

end Bus

/-! ## Section 3: Commands -/

/-- The two commands of a write burst. -/
inductive Command where
  | writeEnable | program

namespace Command

/-- The phase in which a command is sent. -/
def phase : Command → Phase
  | writeEnable => .spiCmdProgramWel
  | program => .spiCmdProgram

/-- The number of its first bit. -/
def first : Command → ℕ
  | writeEnable => 7
  | program => 31

/-- The word its bits are taken from. -/
def word (b : Burst) : Command → BitVec 32
  | writeEnable => 0x06
  | program => 0x02#8 ++ b.address.addr.extractLsb' 0 24

end Command

/-- The bridge has the request of the burst. -/
structure Holds (b : Burst) (u : Bus) : Prop where
  arw : u.wires.bridge.arw = b.arw
  address : u.wires.address = b.address

/-- The command sender has not begun. -/
structure Ahead (b : Burst) (m : Command) (closed : List (List Bool)) (u : Bus) : Prop
    extends Holds b u where
  phase : u.wires.bridge.phase = m.phase
  sender : u.wires.bridge.spiCmd.phase = .idle
  ready : u.wires.bridge.spiCmd.ready = false
  windows : u.windows = ⟨closed, none⟩

/-- The command sender is at bit `n`. -/
structure Sending (b : Burst) (m : Command) (n : ℕ) (closed : List (List Bool)) (bits : List Bool)
    (u : Bus) : Prop extends Holds b u where
  phase : u.wires.bridge.phase = m.phase
  sender : u.wires.bridge.spiCmd.phase = .sendCmd
  ready : u.wires.bridge.spiCmd.ready = false
  curCycle : u.wires.bridge.spiCmd.curCycle.toNat = n
  windows : u.windows = ⟨closed, some bits⟩

/-- The command has been sent. -/
structure Sent (b : Burst) (m : Command) (closed : List (List Bool)) (bits : List Bool) (u : Bus) :
    Prop extends Holds b u where
  phase : u.wires.bridge.phase = m.phase
  sender : u.wires.bridge.spiCmd.phase = .idle
  ready : u.wires.bridge.spiCmd.ready = true
  windows : u.windows = ⟨closed, some bits⟩

section Commands

variable {f : AddressStep}
variable {b : Burst} {u : Bus} {e : Env} {m : Command} {n : ℕ} {closed : List (List Bool)}
variable {bits : List Bool}

theorem busStep_windows {p : Pins} (h : u.wires.pins (b.cycle u e) = p) :
    (busStep f b u e).windows = u.windows.clock (p.seen (b.cycle u e)) := by
  rw [← h]
  rfl

/-- While a command is sent, and in the cycle after it, the request stays. -/
theorem Holds.step (h : Holds b u) (hphase : u.wires.bridge.phase = m.phase) :
    Holds b (busStep f b u e) := by
  refine ⟨?_, ?_⟩
  · rw [← h.arw]
    cases m <;> cases hr : u.wires.bridge.spiCmd.ready <;>
      simp [busStep, Wires.next, State.next, State.sm, hphase, Command.phase, hr]
  · rw [← h.address]
    cases m <;> simp [busStep, Wires.next, hphase, Command.phase]

/-- The sender while it is not ready. -/
theorem sending_facts (hphase : u.wires.bridge.phase = m.phase)
    (hready : u.wires.bridge.spiCmd.ready = false) (haddress : u.wires.address = b.address) :
    u.wires.pins (b.cycle u e) = u.wires.bridge.spiCmd.pinsSPI true (m.word b) ∧
      (busStep f b u e).wires.bridge.phase = m.phase ∧
      (busStep f b u e).wires.bridge.spiCmd =
        u.wires.bridge.spiCmd.next true (BitVec.ofNat 5 m.first) 0 false := by
  cases m <;>
    simp [Wires.pins, State.spiCmdValid, Wires.spiCmdData, Wires.addr24, busStep, Wires.next,
      State.next, State.sm, State.spiCmdLenCycles, hphase, Command.phase, Command.first,
      Command.word, hready, haddress]

/-- The sender selects the flash. -/
theorem Ahead.step (h : Ahead b m closed u) :
    Sending b m m.first closed [] (busStep f b u e) := by
  obtain ⟨hpins, hnext, hsender⟩ := sending_facts (f := f) (e := e) h.phase h.ready h.address
  have hlow : u.wires.pins (b.cycle u e) = .low := by
    rw [hpins]
    simp [SendCMD.pinsSPI, h.sender]
  have hregs : (busStep f b u e).wires.bridge.spiCmd =
      ⟨BitVec.ofNat 5 m.first, .sendCmd, false⟩ := by
    rw [hsender]
    simp [SendCMD.next, h.sender]
  refine ⟨h.toHolds.step h.phase, hnext, by rw [hregs], by rw [hregs], ?_, ?_⟩
  · rw [hregs]
    cases m <;> rfl
  · rw [busStep_windows hlow, h.windows]
    rfl

/-- A bit of a command. -/
theorem Sending.pins (h : Sending b m n closed bits u) :
    u.wires.pins (b.cycle u e) = .bit ((m.word b).getLsbD n) := by
  rw [(sending_facts (f := fun a _ _ _ => a) h.phase h.ready h.address).1]
  simp [SendCMD.pinsSPI, h.sender, h.curCycle]

theorem Sending.step (h : Sending b m (n + 1) closed bits u) :
    Sending b m n closed (bits ++ [(m.word b).getLsbD (n + 1)]) (busStep f b u e) := by
  obtain ⟨-, hnext, hsender⟩ := sending_facts (f := f) (e := e) h.phase h.ready h.address
  have hregs : (busStep f b u e).wires.bridge.spiCmd =
      { u.wires.bridge.spiCmd with curCycle := u.wires.bridge.spiCmd.curCycle - 1 } := by
    have hne : u.wires.bridge.spiCmd.curCycle ≠ 0 := by
      rw [Ne, curCycle_eq_zero, h.curCycle]
      exact Nat.succ_ne_zero n
    rw [hsender]
    simp only [SendCMD.next, h.sender, if_true, if_neg hne]
  refine ⟨h.toHolds.step h.phase, hnext, ?_, ?_, ?_, ?_⟩
  · rw [hregs]
    exact h.sender
  · rw [hregs]
    exact h.ready
  · rw [hregs]
    exact (toNat_sub_one (by decide) (by rw [h.curCycle]; exact Nat.succ_ne_zero n)).trans
      (by rw [h.curCycle]; rfl)
  · rw [busStep_windows h.pins, h.windows]
    rfl

theorem Sending.last (h : Sending b m 0 closed bits u) :
    Sent b m closed (bits ++ [(m.word b).getLsbD 0]) (busStep f b u e) := by
  obtain ⟨-, hnext, hsender⟩ := sending_facts (f := f) (e := e) h.phase h.ready h.address
  have hregs : (busStep f b u e).wires.bridge.spiCmd = ⟨0, .idle, true⟩ := by
    have hzero : u.wires.bridge.spiCmd.curCycle = 0 := curCycle_eq_zero.mpr h.curCycle
    rw [hsender]
    simp [SendCMD.next, h.sender, hzero]
  refine ⟨h.toHolds.step h.phase, hnext, by rw [hregs], by rw [hregs], ?_⟩
  rw [busStep_windows h.pins, h.windows]
  rfl

/-- After the write enable command the flash is not selected for a cycle. -/
theorem Sent.program (h : Sent b .writeEnable closed bits u) :
    Ahead b .program (closed ++ [bits]) (busStep f b u e) := by
  have hpins : u.wires.pins (b.cycle u e) = .high := by
    simp [Wires.pins, State.spiCmdValid, SendCMD.pinsSPI, h.phase, Command.phase, h.ready]
  have hregs : (busStep f b u e).wires.bridge.spiCmd =
      { u.wires.bridge.spiCmd with phase := .idle, ready := false } := by
    simp [busStep, Wires.next, State.next, SendCMD.next, State.spiCmdValid, h.phase,
      Command.phase, h.ready]
  refine ⟨h.toHolds.step h.phase, ?_, by rw [hregs], by rw [hregs], ?_⟩
  · simp [busStep, Wires.next, State.next, State.sm, h.phase, Command.phase, h.ready]
  · rw [busStep_windows hpins, h.windows]
    rfl

end Commands

/-! ## Section 4: Words -/

/-- The flash is selected, and no word has been begun. -/
structure Between (b : Burst) (closed : List (List Bool)) (bits : List Bool) (u : Bus) : Prop where
  arw : u.wires.bridge.arw = b.arw
  phase : u.wires.bridge.phase = .spiProgram
  sender : u.wires.bridge.spiSend.phase = .idle
  ready : u.wires.bridge.spiSend.ready = false
  windows : u.windows = ⟨closed, some bits⟩

/-- Bit `n` of a word is shifted out. -/
structure Shifting (b : Burst) (n : ℕ) (closed : List (List Bool)) (bits : List Bool) (u : Bus) :
    Prop where
  arw : u.wires.bridge.arw = b.arw
  phase : u.wires.bridge.phase = .spiProgram
  sender : u.wires.bridge.spiSend.phase = .send
  ready : u.wires.bridge.spiSend.ready = false
  curBit : u.wires.bridge.spiSend.curBit.toNat = n
  windows : u.windows = ⟨closed, some bits⟩

/-- The bits of a word have been shifted out. -/
structure Shifted (b : Burst) (closed : List (List Bool)) (bits : List Bool) (u : Bus) : Prop where
  arw : u.wires.bridge.arw = b.arw
  phase : u.wires.bridge.phase = .spiProgram
  sender : u.wires.bridge.spiSend.phase = .done
  ready : u.wires.bridge.spiSend.ready = false
  windows : u.windows = ⟨closed, some bits⟩

/-- The word is over, and the flash is not selected any more. -/
structure Ended (b : Burst) (closed : List (List Bool)) (u : Bus) : Prop where
  arw : u.wires.bridge.arw = b.arw
  phase : u.wires.bridge.phase = .spiProgram
  sender : u.wires.bridge.spiSend.phase = .idle
  ready : u.wires.bridge.spiSend.ready = true
  windows : u.windows = ⟨closed, none⟩

section Words

variable {f : AddressStep}
variable {b : Burst} {u : Bus} {e : Env} {n : ℕ} {closed : List (List Bool)} {bits : List Bool}

/-- The flash stays selected after the program command. -/
theorem Sent.between (h : Sent b .program closed bits u) :
    Between b closed bits (busStep f b u e) := by
  have hpins : u.wires.pins (b.cycle u e) = .low := by
    simp [Wires.pins, State.spiCmdValid, SendCMD.pinsSPI, h.phase, Command.phase, h.sender]
  have hregs : (busStep f b u e).wires.bridge.spiSend =
      { u.wires.bridge.spiSend with phase := .idle, ready := false } := by
    simp [busStep, Wires.next, State.next, SendSPI.next, State.spiSendValid, h.phase,
      Command.phase]
  refine ⟨(h.toHolds.step h.phase).arw, ?_, by rw [hregs], by rw [hregs], ?_⟩
  · simp [busStep, Wires.next, State.next, State.sm, h.phase, Command.phase, h.ready]
  · rw [busStep_windows hpins, h.windows]
    exact Windows.clock_idle closed bits

/-- The word sender while it is not ready. -/
theorem word_facts (hphase : u.wires.bridge.phase = .spiProgram)
    (hready : u.wires.bridge.spiSend.ready = false) :
    u.wires.pins (b.cycle u e) =
        u.wires.bridge.spiSend.pins true (swapBytes (b.cycle u e).wData) ∧
      (busStep f b u e).wires.bridge.phase = .spiProgram ∧
      (busStep f b u e).wires.bridge.arw = u.wires.bridge.arw ∧
      (busStep f b u e).wires.bridge.spiSend =
        u.wires.bridge.spiSend.next true (32 - 1) (b.cycle u e).io1 := by
  simp [Wires.pins, State.spiSendValid, Wires.spiSendData, busStep, Wires.next, State.next,
    State.sm, State.spiSendLenBits, hphase, hready]

/-- The word sender clocks the flash only with its bits. -/
theorem send_of_sclk {s : SendSPI} {valid : Bool} {data : BitVec 32}
    (h : (s.pins valid data).sclk = true) : s.phase = .send := by
  cases valid with
  | false => exact absurd h (by simp [SendSPI.pins, Pins.high])
  | true =>
    cases hs : s.phase with
    | send => rfl
    | idle => exact absurd h (by simp [SendSPI.pins, hs, Pins.low])
    | done => exact absurd h (by simp [SendSPI.pins, hs, Pins.high])

theorem Between.step (h : Between b closed bits u) :
    Shifting b 31 closed bits (busStep f b u e) := by
  obtain ⟨hpins, hnext, harw, hsender⟩ := word_facts (f := f) (b := b) (e := e) h.phase h.ready
  have hlow : u.wires.pins (b.cycle u e) = .low := by
    rw [hpins]
    simp [SendSPI.pins, h.sender]
  have hregs : (busStep f b u e).wires.bridge.spiSend =
      { u.wires.bridge.spiSend with phase := .send, ready := false, curBit := 32 - 1 } := by
    rw [hsender]
    simp [SendSPI.next, h.sender]
  refine ⟨harw.trans h.arw, hnext, by rw [hregs], by rw [hregs], ?_, ?_⟩
  · rw [hregs]
    rfl
  · rw [busStep_windows hlow, h.windows]
    exact Windows.clock_idle closed bits

/-- A bit of a word. -/
theorem Shifting.pins (h : Shifting b n closed bits u) :
    u.wires.pins (b.cycle u e) = .bit ((swapBytes (b.cycle u e).wData).getLsbD n) := by
  rw [(word_facts (f := fun a _ _ _ => a) h.phase h.ready).1]
  simp [SendSPI.pins, h.sender, h.curBit]

theorem Shifting.step (h : Shifting b (n + 1) closed bits u) :
    Shifting b n closed (bits ++ [(swapBytes (b.cycle u e).wData).getLsbD (n + 1)])
      (busStep f b u e) := by
  obtain ⟨-, hnext, harw, hsender⟩ := word_facts (f := f) (b := b) (e := e) h.phase h.ready
  have hne : u.wires.bridge.spiSend.curBit ≠ 0 := by
    rw [Ne, curCycle_eq_zero, h.curBit]
    exact Nat.succ_ne_zero n
  refine ⟨harw.trans h.arw, hnext, ?_, ?_, ?_, ?_⟩
  · rw [hsender]
    simp only [SendSPI.next, h.sender, if_true, if_neg hne]
  · rw [hsender]
    simp only [SendSPI.next, h.sender, if_true, h.ready]
  · rw [hsender]
    simp only [SendSPI.next, h.sender, if_true]
    rw [toNat_sub_one (by decide) (by rw [h.curBit]; exact Nat.succ_ne_zero n), h.curBit]
    rfl
  · rw [busStep_windows h.pins, h.windows]
    rfl

theorem Shifting.last (h : Shifting b 0 closed bits u) :
    Shifted b closed (bits ++ [(swapBytes (b.cycle u e).wData).getLsbD 0])
      (busStep f b u e) := by
  obtain ⟨-, hnext, harw, hsender⟩ := word_facts (f := f) (b := b) (e := e) h.phase h.ready
  have hzero : u.wires.bridge.spiSend.curBit = 0 := curCycle_eq_zero.mpr h.curBit
  refine ⟨harw.trans h.arw, hnext, ?_, ?_, ?_⟩
  · rw [hsender]
    simp [SendSPI.next, h.sender, hzero]
  · rw [hsender]
    simp [SendSPI.next, h.sender, h.ready]
  · rw [busStep_windows h.pins, h.windows]
    rfl

/-- The select line is taken back. -/
theorem Shifted.step (h : Shifted b closed bits u) :
    Ended b (closed ++ [bits]) (busStep f b u e) := by
  obtain ⟨hpins, hnext, harw, hsender⟩ := word_facts (f := f) (b := b) (e := e) h.phase h.ready
  have hhigh : u.wires.pins (b.cycle u e) = .high := by
    rw [hpins]
    simp [SendSPI.pins, h.sender]
  refine ⟨harw.trans h.arw, hnext, ?_, ?_, ?_⟩
  · rw [hsender]
    simp [SendSPI.next, h.sender]
  · rw [hsender]
    simp [SendSPI.next, h.sender]
  · rw [busStep_windows hhigh, h.windows]
    rfl

/-- The last word is followed by the response. -/
theorem Ended.response (h : Ended b closed u)
    (hend : u.wires.bridge.programEnd (b.cycle u e).toInput = true) :
    (busStep f b u e).wires.bridge.bValid = true ∧
      (busStep f b u e).windows = ⟨closed, none⟩ := by
  have hpins : u.wires.pins (b.cycle u e) = .high := by
    simp [Wires.pins, State.spiSendValid, SendSPI.pins, h.phase, h.ready, hend]
  refine ⟨?_, ?_⟩
  · simp [State.bValid, busStep, Wires.next, State.next, State.sm, h.phase, h.ready, hend]
  · rw [busStep_windows hpins, h.windows]
    exact congrArg (Windows.mk · none) (List.append_nil closed)

/-- Any other word is followed by one that is sent in a new window. -/
theorem Ended.again (h : Ended b closed u)
    (hend : u.wires.bridge.programEnd (b.cycle u e).toInput = false) :
    (busStep f b u e).wires.bridge.bValid = false ∧
      (busStep f b u e).windows = ⟨closed, some []⟩ := by
  have hpins : u.wires.pins (b.cycle u e) = .low := by
    simp [Wires.pins, State.spiSendValid, SendSPI.pins, h.phase, h.ready, h.sender, hend]
  refine ⟨?_, ?_⟩
  · simp [State.bValid, busStep, Wires.next, State.next, State.sm, h.phase, hend]
  · rw [busStep_windows hpins, h.windows]
    rfl

end Words

/-! ## Section 5: The whole burst -/

section Run

variable {f : AddressStep}
variable {b : Burst} {w : Wires} {g : ℕ → Env} {m : Command} {n t : ℕ}
variable {closed : List (List Bool)} {bits : List Bool}

/-- Up to `t` no beat was accepted and no response was raised, and before cycle 46 no bit of data
was shifted out. -/
def Quiet (f : AddressStep) (b : Burst) (w : Wires) (g : ℕ → Env) (t : ℕ) : Prop :=
  ∀ m, m < t → (busAt f b w g m).wires.bridge.bValid = false ∧
    (busAt f b w g m).wires.bridge.wReady = false ∧
    ((busAt f b w g m).wires.bridge.phase = .spiProgram →
      (busAt f b w g m).wires.bridge.spiSend.phase = .send → 46 ≤ m)

theorem busAt_succ (t : ℕ) :
    busAt f b w g (t + 1) = busStep f b (busAt f b w g t) (g t) := rfl

theorem Quiet.succ (h : Quiet f b w g t)
    (hb : (busAt f b w g t).wires.bridge.bValid = false)
    (hw : (busAt f b w g t).wires.bridge.wReady = false)
    (hdata : (busAt f b w g t).wires.bridge.phase = .spiProgram →
      (busAt f b w g t).wires.bridge.spiSend.phase = .send → 46 ≤ t) :
    Quiet f b w g (t + 1) := by
  intro m hm
  rcases Nat.lt_or_eq_of_le (Nat.lt_succ_iff.mp hm) with hlt | rfl
  · exact h m hlt
  · exact ⟨hb, hw, hdata⟩

/-- A phase in which a command is sent is quiet. -/
theorem Quiet.command (h : Quiet f b w g t)
    (hphase : (busAt f b w g t).wires.bridge.phase = m.phase) :
    Quiet f b w g (t + 1) := by
  refine h.succ ?_ ?_ ?_ <;> cases m <;>
    simp [State.bValid, State.wReady, hphase, Command.phase]

/-- So is a word before its end. -/
theorem Quiet.word (h : Quiet f b w g t)
    (hphase : (busAt f b w g t).wires.bridge.phase = .spiProgram)
    (hready : (busAt f b w g t).wires.bridge.spiSend.ready = false)
    (hdata : (busAt f b w g t).wires.bridge.spiSend.phase = .send → 46 ≤ t) :
    Quiet f b w g (t + 1) := by
  refine h.succ ?_ ?_ fun _ => hdata <;> simp [State.bValid, State.wReady, hphase, hready]

/-- Until a beat is accepted the first one is on offer from the first offer on. -/
theorem Quiet.waiting (h : Quiet f b w g t) :
    (busAt f b w g t).accepted = 0 ∧
      ((busAt f b w g t).held = true ↔ ∃ m < t, (g m).offer = true) := by
  induction t with
  | zero => simp [busAt]
  | succ t ih =>
    obtain ⟨hzero, hheld⟩ := ih fun m hm => h m (Nat.lt_succ_of_lt hm)
    have hw := (h t (Nat.lt_succ_self t)).2.1
    rw [busAt_succ]
    refine ⟨by simp [busStep, hw, hzero], ?_⟩
    simp only [busStep, Burst.cycle, Burst.wValid, hw, hzero, Bool.and_false, Bool.not_false,
      Bool.and_true, Nat.zero_le, decide_true, Bool.true_and, Bool.or_eq_true, hheld]
    constructor
    · rintro (⟨m, hm, hoffer⟩ | hoffer)
      · exact ⟨m, Nat.lt_succ_of_lt hm, hoffer⟩
      · exact ⟨t, Nat.lt_succ_self t, hoffer⟩
    · rintro ⟨m, hm, hoffer⟩
      rcases Nat.lt_or_eq_of_le (Nat.lt_succ_iff.mp hm) with hlt | rfl
      · exact Or.inl ⟨m, hlt, hoffer⟩
      · exact Or.inr hoffer

theorem Quiet.wValid_iff (h : Quiet f b w g t) :
    b.wValid (busAt f b w g t) (g t) = true ↔ ∃ m ≤ t, (g m).offer = true := by
  obtain ⟨hzero, hheld⟩ := h.waiting
  simp only [Burst.wValid, hzero, Nat.zero_le, decide_true, Bool.true_and, Bool.or_eq_true, hheld]
  constructor
  · rintro (⟨m, hm, hoffer⟩ | hoffer)
    · exact ⟨m, hm.le, hoffer⟩
    · exact ⟨t, le_rfl, hoffer⟩
  · rintro ⟨m, hm, hoffer⟩
    rcases Nat.lt_or_eq_of_le hm with hlt | rfl
    · exact Or.inl ⟨m, hlt, hoffer⟩
    · exact Or.inr hoffer

/-- **Run lemma.**  The sender comes to the end of its command. -/
theorem send_command (h : Quiet f b w g t)
    (hsend : Sending b m n closed bits (busAt f b w g t)) :
    Quiet f b w g (t + n + 1) ∧
      Sent b m closed (bits ++ downFrom (m.word b).getLsbD n)
        (busAt f b w g (t + n + 1)) := by
  induction n generalizing t bits with
  | zero => exact ⟨h.command hsend.phase, hsend.last⟩
  | succ n ih =>
    have hnext := ih (h.command hsend.phase) hsend.step
    rw [show t + (n + 1) + 1 = t + 1 + n + 1 by omega]
    rw [List.append_assoc] at hnext
    exact hnext

/-- **Run lemma.**  The sender comes to the end of its word; if the write channel keeps its data,
these are the bits. -/
theorem send_word (h : Quiet f b w g t) (ht : 46 ≤ t)
    (hshift : Shifting b n closed bits (busAt f b w g t)) :
    Quiet f b w g (t + n + 1) ∧ ∃ bits',
      Shifted b closed bits' (busAt f b w g (t + n + 1)) ∧
        ∀ x, (∀ j, t ≤ j → j ≤ t + n → (b.cycle (busAt f b w g j) (g j)).wData = x) →
          bits' = bits ++ downFrom (swapBytes x).getLsbD n := by
  induction n generalizing t bits with
  | zero =>
    refine ⟨h.word hshift.phase hshift.ready fun _ => ht, _, hshift.last, fun x hx => ?_⟩
    rw [hx t le_rfl le_rfl]
    rfl
  | succ n ih =>
    obtain ⟨hquiet, bits', hend, hbits⟩ :=
      ih (h.word hshift.phase hshift.ready fun _ => ht) (Nat.le_succ_of_le ht) hshift.step
    rw [show t + (n + 1) + 1 = t + 1 + n + 1 by omega]
    refine ⟨hquiet, bits', hend, fun x hx => ?_⟩
    rw [hbits x fun j hj hle => hx j (by omega) (by omega), hx t le_rfl (by omega),
      List.append_assoc]
    rfl

theorem Command.writeEnable_bits :
    downFrom (Command.word b .writeEnable).getLsbD 7 = msbFirst 0x06#8 := by
  change downFrom (0x06#32).getLsbD 7 = _
  decide

theorem Command.program_bits :
    downFrom (Command.word b .program).getLsbD 31 =
      msbFirst 0x02#8 ++ msbFirst (b.address.addr.extractLsb' 0 24) :=
  (downFrom_getLsbD _).trans (msbFirst_append _ _)

/-- The request is taken, and the write enable command begins. -/
theorem ahead_one (hsetup : w.bridge.phase = .setup) (hwrite : b.arw.write = true)
    (henabled : w.bridge.qspiCtrlWriteEnabled = true) :
    Quiet f b w g 1 ∧ Ahead b .writeEnable [] (busAt f b w g 1) := by
  have hzero : Quiet f b w g 0 := fun m hm => absurd hm (Nat.not_lt_zero m)
  have hpins : w.pins (b.cycle ⟨w, ⟨[], none⟩, 0, false⟩ (g 0)) = .high := by
    simp [Wires.pins, hsetup]
  have hsender : (busAt f b w g 1).wires.bridge.spiCmd =
      { w.bridge.spiCmd with phase := .idle, ready := false } := by
    simp [busAt, trace_succ, busStep, Wires.next, State.next, SendCMD.next, State.spiCmdValid,
      hsetup]
  have hregs : (busAt f b w g 1).wires.bridge.phase = .spiCmdProgramWel ∧
      (busAt f b w g 1).wires.bridge.arw = b.arw := by
    have hset : w.bridge.qspiCtrlWord.getLsbD 31 = true := henabled
    simp [busAt, trace_succ, busStep, Wires.next, State.next, State.sm, State.setup, hsetup,
      Burst.cycle, hwrite, State.qspiCtrlWriteEnabled, hset, State.setProgress,
      State.setCMDProgram]
  refine ⟨hzero.succ ?_ ?_ ?_, ⟨hregs.2, ?_⟩, hregs.1, by rw [hsender], by rw [hsender], ?_⟩
  · simp [busAt, State.bValid, hsetup]
  · simp [busAt, State.wReady, hsetup]
  · simp [busAt, hsetup]
  · simp [busAt, trace_succ, busStep, Wires.next, hsetup, Burst.cycle]
  · rw [busAt_succ, busStep_windows (u := busAt f b w g 0) hpins]
    rfl

/-- The first bit of data is shifted out in cycle 46. -/
theorem shifting_46 (hsetup : w.bridge.phase = .setup) (hwrite : b.arw.write = true)
    (henabled : w.bridge.qspiCtrlWriteEnabled = true) :
    Quiet f b w g 46 ∧
      Shifting b 31 [msbFirst 0x06#8] (msbFirst 0x02#8 ++
        msbFirst (b.address.addr.extractLsb' 0 24)) (busAt f b w g 46) := by
  obtain ⟨h1, hahead⟩ := ahead_one (f := f) (g := g) hsetup hwrite henabled
  obtain ⟨h10, hsent⟩ := send_command (h1.command hahead.phase) hahead.step
  have hprogram : Ahead b .program [msbFirst 0x06#8] (busAt f b w g 11) := by
    rw [← Command.writeEnable_bits (b := b)]
    exact hsent.program
  obtain ⟨h44, hsent'⟩ :=
    send_command ((h10.command hsent.phase).command hprogram.phase) hprogram.step
  have hbetween : Between b [msbFirst 0x06#8] (msbFirst 0x02#8 ++
      msbFirst (b.address.addr.extractLsb' 0 24)) (busAt f b w g 45) := by
    rw [← Command.program_bits (b := b)]
    exact hsent'.between
  refine ⟨(h44.command hsent'.phase).word hbetween.phase hbetween.ready fun hsend => ?_,
    hbetween.step⟩
  exact absurd (hbetween.sender.symm.trans hsend) (by decide)

/-- The first word ends in cycle 79. -/
theorem ended_79 (hsetup : w.bridge.phase = .setup) (hwrite : b.arw.write = true)
    (henabled : w.bridge.qspiCtrlWriteEnabled = true) :
    Quiet f b w g 79 ∧ ∃ bits,
      Ended b [msbFirst 0x06#8, bits] (busAt f b w g 79) ∧
        ∀ x, (∀ j, 46 ≤ j → j ≤ 77 → (b.cycle (busAt f b w g j) (g j)).wData = x) →
          bits = msbFirst 0x02#8 ++ msbFirst (b.address.addr.extractLsb' 0 24) ++
            msbFirst (swapBytes x) := by
  obtain ⟨h46, hshift⟩ := shifting_46 (f := f) (g := g) hsetup hwrite henabled
  obtain ⟨h78, bits, hshifted, hbits⟩ := send_word h46 le_rfl hshift
  refine ⟨h78.word hshifted.phase hshifted.ready fun _ => by decide, bits, hshifted.step,
    fun x hx => ?_⟩
  rw [← downFrom_getLsbD]
  exact hbits x hx

end Run

/-! ## Section 6: When a burst is programmed -/

section Exact

variable {f : AddressStep}
variable {b : Burst} {w : Wires} {g : ℕ → Env} {t : ℕ}

theorem length_windows_mono {m : ℕ} (h : m ≤ t) :
    (busAt f b w g m).windows.all.length ≤ (busAt f b w g t).windows.all.length := by
  induction h with
  | refl => exact le_rfl
  | step _ ih => exact ih.trans (Windows.length_all_le_clock _ _)

/-- The bits of a word, the bytes from the lowest one on. -/
theorem msbFirst_swapBytes (x : BitVec 32) :
    msbFirst (swapBytes x) = (leBytes32 x).flatMap msbFirst := by
  have hbyte : ∀ k, x.extractLsb' k 8 = (x >>> k).setWidth 8 := fun k => by
    refine BitVec.eq_of_getLsbD_eq fun j hj => ?_
    simp [hj]
  unfold swapBytes
  rw [msbFirst_append, msbFirst_append, msbFirst_append, hbyte, hbyte, hbyte, hbyte]
  simp [leBytes32]

/-- No response comes before the first word is over. -/
theorem Programmed.late (hsetup : w.bridge.phase = .setup) (hwrite : b.arw.write = true)
    (henabled : w.bridge.qspiCtrlWriteEnabled = true) (h : Programmed f b w g t) : 80 ≤ t := by
  obtain ⟨h79, bits, hended, -⟩ := ended_79 (f := f) (g := g) hsetup hwrite henabled
  by_contra hlt
  have hquiet : (busAt f b w g t).wires.bridge.bValid = false := by
    rcases Nat.lt_or_ge t 79 with h' | h'
    · exact (h79 t h').1
    · rw [show t = 79 by omega]
      simp [State.bValid, hended.phase]
  rw [h.valid] at hquiet
  exact absurd hquiet (by decide)

/-- The first bit of data is taken from a beat. -/
theorem Programmed.offered (hsetup : w.bridge.phase = .setup) (hwrite : b.arw.write = true)
    (henabled : w.bridge.qspiCtrlWriteEnabled = true) (h : Programmed f b w g t) :
    ∃ m ≤ 46, (g m).offer = true := by
  obtain ⟨h46, hshift⟩ := shifting_46 (f := f) (g := g) hsetup hwrite henabled
  have hle := h.late hsetup hwrite henabled
  refine h46.wValid_iff.mp (h.beats 46 (by omega) hshift.phase ?_)
  rw [hshift.pins]
  rfl

/-- A burst of more than one beat gets a third window. -/
theorem Programmed.single (hsetup : w.bridge.phase = .setup) (hwrite : b.arw.write = true)
    (henabled : w.bridge.qspiCtrlWriteEnabled = true) (h : Programmed f b w g t) :
    b.arw.len = 0 := by
  obtain ⟨h79, bits, hended, -⟩ := ended_79 (f := f) (g := g) hsetup hwrite henabled
  obtain ⟨m, hm, hoffer⟩ := h.offered hsetup hwrite henabled
  have hle := h.late hsetup hwrite henabled
  by_contra hlen
  have hpos : ¬ 0 = b.arw.len.toNat := fun h0 => hlen (curCycle_eq_zero.mpr h0.symm)
  have hvalid : b.wValid (busAt f b w g 79) (g 79) = true :=
    h79.wValid_iff.mpr ⟨m, by omega, hoffer⟩
  -- the first beat is not the last one
  have hend : (busAt f b w g 79).wires.bridge.programEnd
      (b.cycle (busAt f b w g 79) (g 79)).toInput = false := by
    simp only [State.programEnd, Burst.cycle, hvalid, if_true, h79.waiting.1, hended.arw,
      decide_eq_false hpos, decide_eq_false hlen, Bool.or_false]
  have hthree : 3 ≤ (busAt f b w g 80).windows.all.length := by
    rw [busAt_succ, (hended.again hend).2]
    exact le_rfl
  have hall := hthree.trans (length_windows_mono hle)
  rw [h.windows] at hall
  exact absurd hall (by simp)

/-- A single beat that comes in time is programmed. -/
theorem programs_of_single (hsetup : w.bridge.phase = .setup) (hwrite : b.arw.write = true)
    (henabled : w.bridge.qspiCtrlWriteEnabled = true) (hlen : b.arw.len = 0)
    (hoffer : ∃ m ≤ 46, (g m).offer = true) : Programs f b w g := by
  obtain ⟨h79, bits, hended, hbits⟩ :=
    ended_79 (f := f) (g := g) hsetup hwrite henabled
  obtain ⟨h46, hshift⟩ := shifting_46 (f := f) (g := g) hsetup hwrite henabled
  obtain ⟨m, hm, hoffer⟩ := hoffer
  have hvalid : ∀ j, 46 ≤ j → j ≤ 79 →
      b.wValid (busAt f b w g j) (g j) = true := fun j hj hle =>
    (Quiet.wValid_iff fun i hi => h79 i (by omega)).mpr ⟨m, by omega, hoffer⟩
  have hdata : bits = msbFirst 0x02#8 ++ msbFirst (b.address.addr.extractLsb' 0 24) ++
      msbFirst (swapBytes (b.data 0)) := by
    refine hbits (b.data 0) fun j hj hle => ?_
    have hzero : (busAt f b w g j).accepted = 0 :=
      (Quiet.waiting fun i hi => h79 i (by omega)).1
    simp only [Burst.cycle, hvalid j hj (by omega), if_true, hzero]
  have hend : (busAt f b w g 79).wires.bridge.programEnd
      (b.cycle (busAt f b w g 79) (g 79)).toInput = true := by
    simp only [State.programEnd, hended.arw, hlen, decide_true, Bool.or_true]
  obtain ⟨hresponse, hwindows⟩ := hended.response (f := f) hend
  refine ⟨80, fun j hj => ?_, hresponse, ?_, fun j hj hphase hclock => ?_⟩
  · rcases Nat.lt_or_ge j 79 with h' | h'
    · exact (h79 j h').1
    · rw [show j = 79 by omega]
      simp [State.bValid, hended.phase]
  · rw [busAt_succ, hwindows]
    simp [Windows.all, Burst.program, hlen, hdata, msbFirst_swapBytes]
  · -- a clock in this phase is one of the sender, so that it is a bit of data
    have hsend : (busAt f b w g j).wires.bridge.spiSend.phase = .send := by
      simp only [Wires.pins, hphase] at hclock
      exact send_of_sclk hclock
    rcases Nat.lt_or_ge j 79 with h' | h'
    · exact hvalid j ((h79 j h').2.2 hphase hsend) (by omega)
    · exact hvalid j (by omega) (by omega)

end Exact

/-- **Programming.**  A write burst is programmed exactly when it has one beat, and that beat is on
offer by the cycle in which its first bit is shifted out. -/
theorem programs_iff (incr : AddressStep) (b : Burst) (w : Wires) (env : ℕ → Env)
    (hsetup : w.bridge.phase = .setup) (hwrite : b.arw.write = true)
    (henabled : w.bridge.qspiCtrlWriteEnabled = true) :
    Programs incr b w env ↔ b.arw.len = 0 ∧ ∃ m ≤ 46, (env m).offer = true := by
  constructor
  · rintro ⟨t, h⟩
    exact ⟨h.single hsetup hwrite henabled, h.offered hsetup hwrite henabled⟩
  · rintro ⟨hlen, hoffer⟩
    exact programs_of_single hsetup hwrite henabled hlen hoffer

/-- An idle bridge with the write enable on. -/
def enabled : Wires where
  bridge :=
    { phase := .setup
      lenBurst := 0
      arw := ⟨false, 0⟩
      qspiCtrlWord := 0x80000000
      spiSend := ⟨0, .idle, 0, false⟩
      qpiCmd := ⟨0, .idle, false⟩
      spiCmd := ⟨0, .idle, false⟩
      qpiRead := ⟨7, false⟩ }
  address := ⟨0, 1, 2⟩
  qspiEraseSector := 0
  data := 0

/-- A burst of `len + 1` words. -/
def counting (len : BitVec 8) : Burst :=
  ⟨⟨true, len⟩, ⟨0xa0012344, 1, 2⟩, fun i => BitVec.ofNat 32 (0x12345678 + i)⟩

/-- The master offers its next beat in every cycle from `first` on. -/
def offering (first m : ℕ) : Env where
  offer := first ≤ m
  other :=
    { arwValid := false
      arw := ⟨false, 0⟩
      wValid := false
      wLast := false
      bReady := false
      rReady := false
      ctrlWrite := none
      io1 := true
      address := ⟨0, 1, 2⟩
      wData := 0
      sectorWrite := none
      io0 := true
      io2 := true
      io3 := true }

/-- A single word is programmed, also if it comes late. -/
theorem programs_single : Programs (fun a _ _ _ => a + 4) (counting 0) enabled (offering 40) :=
  (programs_iff (fun a _ _ _ => a + 4) (counting 0) enabled (offering 40) rfl rfl (by decide)).mpr
    ⟨rfl, 40, by decide, rfl⟩

/-- Two words are not, though both are on offer throughout. -/
theorem not_programs_double :
    ¬ Programs (fun a _ _ _ => a + 4) (counting 1) enabled (offering 0) := by
  rintro ⟨t, h⟩
  exact absurd (h.single rfl rfl (by decide)) (by decide)

end Karnix.Qspi.Programming
