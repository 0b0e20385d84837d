import Karnix.I2c.Controller

/-!
# The I2C bus

What the two wires show from one byte written to `tx_data` to the next: the conditions START and
STOP, which are changes of SDA while SCL stays high, and the pulses of SCL in between.

A STOP never shows, whatever is asked for: SCL is raised in the cycle in which SDA is let go.  In
the same way a START needs SCL to be high before the transfer, which it is not after a transfer
without STOP.
-/

namespace Karnix.I2c

open Karnix.Library

/-! ## Section 1: The wires -/

/-- The controller in cycle `n`, from reset. -/
def ctrlAt (inp : ℕ → Input) (n : ℕ) : Ctrl := trace Ctrl.next reset inp n

section Wires

variable (inp : ℕ → Input)

def scl (n : ℕ) : Bool := (ctrlAt inp n).scl

/-- The level of SDA in a cycle, which the controller and the slave make together. -/
def sda (n : ℕ) : Bool := (ctrlAt inp n).wire (inp n).slave

/-- A byte is written to `tx_data`. -/
def Writes (n : ℕ) : Prop := Access.isTxData (inp n).access = true

/-- SCL is high in a cycle and in the next one. -/
def High (n : ℕ) : Prop := scl inp n = true ∧ scl inp (n + 1) = true

/-- START: SDA falls while SCL stays high. -/
def StartAt (n : ℕ) : Prop := High inp n ∧ sda inp n = true ∧ sda inp (n + 1) = false

/-- STOP: SDA rises while SCL stays high. -/
def StopAt (n : ℕ) : Prop := High inp n ∧ sda inp n = false ∧ sda inp (n + 1) = true

/-- From `a` to `b` SDA does not change while SCL stays high. -/
def Still (a b : ℕ) : Prop := ∀ n, a ≤ n → n < b → High inp n → sda inp n = sda inp (n + 1)

/-- The number of pulses of SCL that begin between `a` and `a + d`. -/
def pulses (a d : ℕ) : ℕ :=
  (List.range d).countP fun j => !scl inp (a + j) && scl inp (a + j + 1)

/-- How the environment behaves.  The software writes data only while the controller is enabled and
waits for some, and its control register only while it waits; and the slave does not change SDA
while SCL stays high. -/
structure Obeys : Prop where
  data : ∀ n, Writes inp n → (ctrlAt inp n).enable = true ∧ (ctrlAt inp n).Resting
  control : ∀ n, Access.isControl (inp n).access = true → (ctrlAt inp n).Resting
  slave : ∀ n, High inp n → (inp (n + 1)).slave = (inp n).slave

/-! ## Section 2: A transfer -/

/-- The transfer of the byte `d`, written in cycle `w` with the control register as in `c`: the bits
go out from cycle `s` to cycle `p`, and from `p` to `e` there is the STOP. -/
structure Carries (c : Ctrl) (d : BitVec 8) (w s p e : ℕ) : Prop where
  order : w ≤ s ∧ s ≤ p ∧ p ≤ e
  rest : (ctrlAt inp e).Resting
  alone : w < e ∧ ∀ n, w < n → n < e → ¬ Writes inp n
  /-- The START, if there is to be one. -/
  start : if c.needStart then Still inp w s ∧ StartAt inp s else s = w
  /-- Nothing that looks like a START or a STOP among the bits. -/
  still : Still inp (if c.needStart then s + 1 else s) p
  /-- Nine pulses, and one more for a STOP. -/
  count : pulses inp s (p - s) = if c.needStop then 10 else 9
  bits : ∀ n k, s ≤ n → n ≤ p → scl inp n = true → pulses inp s (n - s) = k + 1 → k < 8 →
    (ctrlAt inp n).sdaOut = (if c.txDrive then some (d.getLsbD (7 - k)) else none) ∧
      (ctrlAt inp e).rxData.getLsbD (7 - k) = sda inp n
  ack : ∀ n, s ≤ n → n ≤ p → scl inp n = true → pulses inp s (n - s) = 9 →
    (ctrlAt inp n).sdaOut = (if c.txAck then some false else none) ∧
      (ctrlAt inp e).rxAck = sda inp n
  /-- The STOP, if there is to be one. -/
  stop : if c.needStop then StopAt inp p ∧ Still inp (p + 1) e else p = e

/-- The byte that is written. -/
def written : Option Access → BitVec 8
  | some (.writeTxData x) => x.setWidth 8
  | _ => 0

/-- Every byte that is written is transferred. -/
def CarriesAll : Prop :=
  ∀ w, Writes inp w → ∃ s p e, Carries inp (ctrlAt inp w) (written (inp w).access) w s p e

/-- No STOP is asked for, and a START only where SCL is high, the controller drives SDA and the
slave does not hold it low. -/
def Permitted (w : ℕ) : Prop :=
  (ctrlAt inp w).needStop = false ∧
    ((ctrlAt inp w).needStart = true →
      scl inp w = true ∧ (ctrlAt inp w).txDrive = true ∧ (inp w).slave = true)

end Wires

/-! ## Section 3: No STOP -/

/-- The levels in the phases after the data. -/
structure Sound (s : Ctrl) : Prop where
  off : s.enable = false → s.state = .idle
  stop1 : s.state = .stop1 → s.scl = false ∧ (s.txAck = false → s.sda = true)
  stop2 : s.state = .stop2 → s.scl = true ∧ s.sda = !s.txAck
  stop3 : s.state = .stop3 → s.scl = false

section Steps

variable {s : Ctrl} {i : Input} {wire : Bool}

theorem sm_off (h : s.enable = false) :
    s.sm wire = { s with state := .idle, scl := true, sda := true, txBusy := false } := by
  simp [Ctrl.sm, h]

theorem sm_of_tick (he : s.enable = true) (ht : s.tick = true) (hs : s.state ≠ .stop1) :
    s.sm wire = s.onTick wire := by
  simp [Ctrl.sm, he, ht, hs]

theorem sm_of_not_tick (he : s.enable = true) (ht : s.tick = false) (hs : s.state ≠ .stop1) :
    s.sm wire = s := by
  simp [Ctrl.sm, he, ht, hs]

/-- A controller that waits goes on waiting. -/
theorem resting_sm (h : s.Resting) : (s.sm wire).Resting := by
  obtain ⟨hs, hb⟩ := h
  cases he : s.enable with
  | false =>
    rw [sm_off he]
    exact ⟨rfl, hb⟩
  | true =>
    cases ht : s.tick with
    | false =>
      rw [sm_of_not_tick he ht (by rw [hs]; decide)]
      exact ⟨hs, hb⟩
    | true =>
      rw [sm_of_tick he ht (by rw [hs]; decide)]
      simp [Ctrl.onTick, Ctrl.Resting, hs, hb]

/-- Before the acknowledgement there is nothing to keep. -/
theorem Sound.early (he : s.enable = true) (h1 : s.state ≠ .stop1) (h2 : s.state ≠ .stop2)
    (h3 : s.state ≠ .stop3) : Sound s where
  off h := absurd (he.symm.trans h) (by decide)
  stop1 h := absurd h h1
  stop2 h := absurd h h2
  stop3 h := absurd h h3

/-- A tick keeps the levels. -/
theorem Sound.onTick (h : Sound s) (he : s.enable = true) (hs : s.state ≠ .stop1) :
    Sound (s.onTick wire) := by
  cases hp : s.state with
  | idle =>
    simp only [Ctrl.onTick, hp]
    split
    · split
      · refine .early he ?_ ?_ ?_ <;> simp
      · refine .early he ?_ ?_ ?_ <;> simp only [Ctrl.shiftBit] <;> split <;> decide
    · exact h
  | start =>
    simp only [Ctrl.onTick, hp]
    refine .early he ?_ ?_ ?_ <;> simp
  | txData =>
    simp only [Ctrl.onTick, hp]
    cases hl : s.scl with
    | false => refine .early he ?_ ?_ ?_ <;> simp [hp]
    | true => refine .early he ?_ ?_ ?_ <;> simp only [Ctrl.shiftBit, if_true] <;> split <;> decide
  | ack =>
    simp only [Ctrl.onTick, hp]
    cases hl : s.scl with
    | false => refine .early he ?_ ?_ ?_ <;> simp
    | true =>
      -- SCL falls, and SDA is let go
      refine ⟨fun h' => absurd (he.symm.trans h') (by decide), fun _ => ⟨rfl, fun _ => rfl⟩, ?_,
        ?_⟩ <;> simp
  | stop1 => exact absurd hp hs
  | stop2 =>
    simp only [Ctrl.onTick, hp, (h.stop2 hp).1, if_true]
    split
    · refine ⟨fun h' => absurd (he.symm.trans h') (by decide), ?_, ?_, fun _ => rfl⟩ <;> simp
    · refine .early he ?_ ?_ ?_ <;> simp
  | stop3 =>
    simp only [Ctrl.onTick, hp]
    refine .early he ?_ ?_ ?_ <;> simp

/-- `STOP1`, in which the acknowledgement is prepared in every cycle. -/
theorem sm_stop1 (he : s.enable = true) (hs : s.state = .stop1) (hl : s.scl = false) :
    s.sm wire =
      { s with
        state := if s.tick then .stop2 else .stop1
        scl := s.tick
        sda := if s.txAck then false else s.sda } := by
  rcases s with ⟨_, _, _, enable, _, _, _, _, txAck, _, _, _, state, scl, _, tick⟩
  obtain rfl : enable = true := he
  obtain rfl : state = .stop1 := hs
  obtain rfl : scl = false := hl
  cases tick <;> cases txAck <;> rfl

/-- A step of the state machine keeps the levels. -/
theorem Sound.sm (h : Sound s) : Sound (s.sm wire) := by
  cases he : s.enable with
  | false =>
    rw [sm_off he]
    exact ⟨fun _ => rfl, nofun, nofun, nofun⟩
  | true =>
    by_cases hs : s.state = .stop1
    · obtain ⟨hl, hsda⟩ := h.stop1 hs
      rw [sm_stop1 he hs hl]
      refine ⟨fun h' => absurd (he.symm.trans h') (by decide), ?_, ?_, ?_⟩
      all_goals
        cases ht : s.tick <;> cases ha : s.txAck <;> simp [hsda, ha]
    · cases ht : s.tick with
      | false =>
        rw [sm_of_not_tick he ht hs]
        exact h
      | true =>
        rw [sm_of_tick he ht hs]
        exact h.onTick he hs
/-- A cycle keeps the levels, as long as the control register is written at rest. -/
theorem Sound.next (h : Sound s) (hc : Access.isControl i.access = true → s.Resting) :
    Sound (s.next i) := by
  have hsm : Sound (s.sm (s.wire i.slave)) := h.sm
  cases ha : Access.isControl i.access with
  | true =>
    -- at rest nothing is to be kept
    have hs : (s.next i).state = .idle := by
      rw [Ctrl.next_state]
      exact (resting_sm (hc ha)).1
    refine ⟨fun _ => hs, ?_, ?_, ?_⟩ <;> rw [hs] <;> exact nofun
  | false =>
    have hconfig : (s.next i).config = (s.sm (s.wire i.slave)).config :=
      (Ctrl.next_config ha).trans (s.sm_config _).symm
    simp only [Ctrl.config, Prod.mk.injEq] at hconfig
    obtain ⟨henable, -, -, -, hack⟩ := hconfig
    refine ⟨?_, ?_, ?_, ?_⟩
    · rw [henable, Ctrl.next_state]
      exact hsm.off
    · rw [Ctrl.next_state, Ctrl.next_scl, hack, Ctrl.next_sda]
      exact hsm.stop1
    · rw [Ctrl.next_state, Ctrl.next_scl, Ctrl.next_sda, hack]
      exact hsm.stop2
    · rw [Ctrl.next_state, Ctrl.next_scl]
      exact hsm.stop3

/-- What the controller makes of SDA while it waits. -/
theorem level_resting (h : s.Resting) : s.level = true := by
  simp [Ctrl.level, Ctrl.sdaOut, h.1, h.2]

/-- In these phases `tx_drive` decides whether SDA is driven. -/
theorem level_data (he : s.enable = true)
    (hs : s.state = .start ∨ s.state = .txData ∨ s.state = .ack) :
    s.level = (!s.txDrive || s.sda) := by
  rcases hs with hs | hs | hs <;> cases hd : s.txDrive <;>
    simp [Ctrl.level, Ctrl.sdaOut, he, hs, hd]

/-- SDA is driven in the cycle in which a transfer begins. -/
theorem level_idle (he : s.enable = true) (hs : s.state = .idle) :
    s.level = (!(s.tick && decide (0 < s.bitCounter) && s.txDrive) || s.sda) := by
  simp only [Ctrl.level, Ctrl.sdaOut, he, hs, if_true]
  cases s.tick && decide (0 < s.bitCounter) && s.txDrive <;> rfl

theorem onTick_idle_start (hs : s.state = .idle) (hb : 0 < s.bitCounter)
    (hn : s.needStart = true) : s.onTick wire = { s with state := .start, txBusy := true } := by
  simp only [Ctrl.onTick, hs, if_pos hb, hn, if_true]

theorem onTick_idle_data (hs : s.state = .idle) (hb : 0 < s.bitCounter)
    (hn : s.needStart = false) :
    s.onTick wire = { s.shiftBit wire with scl := false, txBusy := true } := by
  simp only [Ctrl.onTick, hs, if_pos hb, hn]
  rfl

/-- Between the ticks nothing happens. -/
theorem next_of_not_tick (he : s.enable = true) (ht : s.tick = false) (hs : s.state ≠ .stop1) :
    (s.next i).state = s.state ∧ (s.next i).scl = s.scl ∧ (s.next i).sda = s.sda := by
  rw [Ctrl.next_state, Ctrl.next_scl, Ctrl.next_sda, sm_of_not_tick he ht hs]
  exact ⟨rfl, rfl, rfl⟩

/-- While SCL stays high, the controller does not raise SDA. -/
theorem level_next_low (h : Sound s) (hc : Access.isControl i.access = true → s.Resting)
    (hl : s.scl = true) (hl' : (s.next i).scl = true) (hlow : s.level = false) :
    (s.next i).level = false := by
  -- the controller is on, as it holds SDA low
  have he : s.enable = true := by
    cases he : s.enable with
    | true => rfl
    | false => simp [Ctrl.level, Ctrl.sdaOut, he] at hlow
  -- and its settings stay, as it is not at rest
  have hnc : Access.isControl i.access = false := by
    cases ha : Access.isControl i.access with
    | false => rfl
    | true =>
      rw [level_resting (hc ha)] at hlow
      exact absurd hlow (by decide)
  have hconfig : (s.next i).config = s.config := Ctrl.next_config hnc
  simp only [Ctrl.config, Prod.mk.injEq] at hconfig
  obtain ⟨henable, -, hstop, hdrive, hack⟩ := hconfig
  rw [Ctrl.next_scl] at hl'
  have hnext := Ctrl.next_state s i
  have hsda := Ctrl.next_sda s i
  cases hs : s.state with
  | idle =>
    -- SDA is only low here in the cycle of the tick that begins a frame
    rw [level_idle he hs] at hlow
    simp only [Bool.or_eq_false_iff, Bool.not_eq_false', Bool.and_eq_true, decide_eq_true_eq]
      at hlow
    obtain ⟨⟨⟨ht, hb⟩, hd⟩, hzero⟩ := hlow
    rw [sm_of_tick he ht (by rw [hs]; decide)] at hl' hnext hsda
    cases hn : s.needStart with
    | false =>
      rw [onTick_idle_data hs hb hn] at hl'
      exact absurd hl' Bool.false_ne_true
    | true =>
      rw [onTick_idle_start hs hb hn] at hnext hsda
      rw [level_data (henable.trans he) (Or.inl hnext), hdrive, hd, hsda, hzero]
      rfl
  | start =>
    rw [level_data he (Or.inl hs)] at hlow
    cases ht : s.tick with
    | false =>
      obtain ⟨hn, -, hz⟩ := next_of_not_tick (i := i) he ht (by rw [hs]; decide)
      rw [level_data (henable.trans he) (Or.inl (hn.trans hs)), hdrive, hz]
      exact hlow
    | true =>
      rw [sm_of_tick he ht (by rw [hs]; decide)] at hnext hsda
      simp only [Ctrl.onTick, hs] at hnext hsda
      rw [level_data (henable.trans he) (Or.inr (Or.inl hnext)), hdrive, hsda]
      cases hd : s.txDrive with
      | false => simp [hd] at hlow
      | true => rfl
  | txData =>
    rw [level_data he (Or.inr (Or.inl hs))] at hlow
    cases ht : s.tick with
    | false =>
      obtain ⟨hn, -, hz⟩ := next_of_not_tick (i := i) he ht (by rw [hs]; decide)
      rw [level_data (henable.trans he) (Or.inr (Or.inl (hn.trans hs))), hdrive, hz]
      exact hlow
    | true =>
      -- a tick would bring SCL down
      rw [sm_of_tick he ht (by rw [hs]; decide)] at hl'
      simp [Ctrl.onTick, hs, hl] at hl'
  | ack =>
    rw [level_data he (Or.inr (Or.inr hs))] at hlow
    cases ht : s.tick with
    | false =>
      obtain ⟨hn, -, hz⟩ := next_of_not_tick (i := i) he ht (by rw [hs]; decide)
      rw [level_data (henable.trans he) (Or.inr (Or.inr (hn.trans hs))), hdrive, hz]
      exact hlow
    | true =>
      -- a tick would bring SCL down
      rw [sm_of_tick he ht (by rw [hs]; decide)] at hl'
      simp [Ctrl.onTick, hs, hl] at hl'
  | stop1 =>
    -- SCL is low here
    rw [(h.stop1 hs).1] at hl
    exact absurd hl (by decide)
  | stop2 =>
    cases ht : s.tick with
    | false =>
      obtain ⟨hn, -, hz⟩ := next_of_not_tick (i := i) he ht (by rw [hs]; decide)
      have hdriven : s.txAck = true ∧ s.sda = false := by
        cases ha : s.txAck <;> simp [Ctrl.level, Ctrl.sdaOut, he, hs, ht, ha] at hlow ⊢
        exact hlow
      simp [Ctrl.level, Ctrl.sdaOut, henable, he, hn, hs, hack, hdriven.1, hz, hdriven.2]
    | true =>
      -- a tick would bring SCL down
      rw [sm_of_tick he ht (by rw [hs]; decide)] at hl'
      cases hn : s.needStop <;> simp [Ctrl.onTick, hs, hl, hn] at hl'
  | stop3 =>
    -- SCL is low here
    rw [h.stop3 hs] at hl
    exact absurd hl (by decide)

end Steps

section Stop

variable {inp : ℕ → Input}

theorem ctrlAt_succ (n : ℕ) : ctrlAt inp (n + 1) = (ctrlAt inp n).next (inp n) := rfl

/-- **Run lemma.**  The levels are kept in every cycle. -/
theorem Obeys.sound (h : Obeys inp) (n : ℕ) : Sound (ctrlAt inp n) := by
  induction n with
  | zero => exact ⟨fun _ => rfl, nofun, nofun, nofun⟩
  | succ n ih => exact ih.next (h.control n)

/-- No STOP is ever on the bus. -/
theorem Obeys.not_stopAt (h : Obeys inp) (n : ℕ) : ¬ StopAt inp n := by
  rintro ⟨hhigh, hlow, hup⟩
  obtain ⟨hlevel, hslave⟩ := Bool.and_eq_true_iff.mp hup
  rw [h.slave n hhigh] at hslave
  have hzero : (ctrlAt inp n).level = false := by
    simpa [sda, Ctrl.wire, hslave] using hlow
  have hnext : (ctrlAt inp (n + 1)).level = false :=
    level_next_low (h.sound n) (h.control n) hhigh.1 hhigh.2 hzero
  rw [hnext] at hlevel
  exact absurd hlevel (by decide)

/-- So a transfer that asks for one is not carried out. -/
theorem Obeys.needStop_of_carries (h : Obeys inp) {c : Ctrl} {d : BitVec 8} {w s p e : ℕ}
    (hc : Carries inp c d w s p e) : c.needStop = false := by
  cases hn : c.needStop with
  | false => rfl
  | true =>
    have hstop := hc.stop
    rw [hn, if_pos rfl] at hstop
    exact absurd hstop.1 (h.not_stopAt p)

end Stop

/-! ## Section 4: A START that is not possible -/

/-- A transfer that has begun its bits. -/
def Late (s : Ctrl) : Prop :=
  s.state = .txData ∨
    (s.state = .ack ∨ s.state = .stop1 ∨ s.state = .stop2 ∨ s.state = .stop3) ∧ s.bitCounter = 0

/-- A transfer before its START. -/
def Early (s : Ctrl) : Prop :=
  s.enable = true ∧ s.needStart = true ∧ (s.state = .idle ∧ 0 < s.bitCounter ∨ s.state = .start)

section Steps

variable {s : Ctrl} {i : Input}

theorem resting_next (h : s.Resting) (ha : Access.isTxData i.access = false) :
    (s.next i).Resting := by
  have hsm : (s.sm (s.wire i.slave)).Resting := resting_sm h
  refine ⟨by rw [Ctrl.next_state]; exact hsm.1, ?_⟩
  rw [Ctrl.next_bitCounter, hsm.2, h.2, ha]
  rfl

/-- Without a write the counter is left to the state machine. -/
theorem next_bitCounter_of_not_write (ha : Access.isTxData i.access = false) :
    (s.next i).bitCounter = (s.sm (s.wire i.slave)).bitCounter := by
  rw [Ctrl.next_bitCounter, ha]
  by_cases h : (s.sm (s.wire i.slave)).bitCounter = s.bitCounter
  · simp [h]
  · rw [if_pos h]

theorem Early.not_resting (h : Early s) : ¬ s.Resting := by
  rintro ⟨hs, hzero⟩
  rcases h.2.2 with ⟨-, hpos⟩ | hs'
  · rw [hzero] at hpos
    exact absurd hpos (by decide)
  · rw [hs] at hs'
    exact absurd hs' (by decide)

theorem not_resting_of_late (h : Late s) : ¬ s.Resting := by
  rintro ⟨hs, -⟩
  rcases h with h | ⟨h | h | h | h, -⟩ <;> rw [hs] at h <;> exact absurd h (by decide)

/-- The bits go on, or the transfer is over. -/
theorem late_next (h : Late s) (hsound : Sound s) (ha : Access.isTxData i.access = false) :
    Late (s.next i) ∨ (s.next i).Resting := by
  have he : s.enable = true := by
    cases he : s.enable with
    | true => rfl
    | false =>
      have hs := hsound.off he
      rcases h with h | ⟨h | h | h | h, -⟩ <;> rw [hs] at h <;> exact absurd h (by decide)
  simp only [Late, Ctrl.Resting, Ctrl.next_state, next_bitCounter_of_not_write ha]
  generalize s.wire i.slave = wire
  by_cases h1 : s.state = .stop1
  · have hb : s.bitCounter = 0 := by
      rcases h with h | ⟨-, hb⟩
      · rw [h1] at h
        exact absurd h (by decide)
      · exact hb
    rw [sm_stop1 he h1 (hsound.stop1 h1).1]
    cases s.tick with
    | false => exact Or.inl (Or.inr ⟨Or.inr (Or.inl rfl), hb⟩)
    | true => exact Or.inl (Or.inr ⟨Or.inr (Or.inr (Or.inl rfl)), hb⟩)
  · cases ht : s.tick with
    | false =>
      rw [sm_of_not_tick he ht h1]
      exact Or.inl h
    | true =>
      rw [sm_of_tick he ht h1]
      rcases h with h | ⟨h | h | h | h, hb⟩
      · cases hl : s.scl with
        | false => simp [Ctrl.onTick, h, hl]
        | true =>
          by_cases hb : s.bitCounter = 0
          · refine Or.inl (Or.inr ⟨Or.inl ?_, ?_⟩) <;>
              simp only [Ctrl.onTick, Ctrl.shiftBit, h, hl, if_true, if_pos hb]
            exact hb
          · refine Or.inl (Or.inl ?_)
            simp only [Ctrl.onTick, Ctrl.shiftBit, h, hl, if_true, if_neg hb]
      · cases hl : s.scl <;> simp [Ctrl.onTick, h, hl, hb]
      · exact absurd h h1
      · cases hn : s.needStop <;> simp [Ctrl.onTick, h, (hsound.stop2 h).1, hn, hb]
      · simp [Ctrl.onTick, h, hb]

/-- Among the bits, the controller does not pull SDA low while SCL stays high. -/
theorem level_next_late (h : Late s) (hsound : Sound s)
    (hc : Access.isControl i.access = true → s.Resting) (hl : s.scl = true)
    (hl' : (s.next i).scl = true) (hup : s.level = true) : (s.next i).level = true := by
  have he : s.enable = true := by
    cases he : s.enable with
    | true => rfl
    | false =>
      have hs := hsound.off he
      rcases h with h | ⟨h | h | h | h, -⟩ <;> rw [hs] at h <;> exact absurd h (by decide)
  -- no write to the control register comes while a bit is on its way
  have hnc : Access.isControl i.access = false :=
    Bool.eq_false_iff.mpr fun ha => not_resting_of_late h (hc ha)
  have hconfig : (s.next i).config = s.config := Ctrl.next_config hnc
  simp only [Ctrl.config, Prod.mk.injEq] at hconfig
  obtain ⟨henable, -, hstop, hdrive, hack⟩ := hconfig
  -- with SCL high, a tick ends the pulse
  have ht : s.tick = false := by
    cases ht : s.tick with
    | false => rfl
    | true =>
      rw [Ctrl.next_scl] at hl'
      rcases h with h | ⟨h | h | h | h, -⟩
      · rw [sm_of_tick he ht (by rw [h]; decide)] at hl'
        simp [Ctrl.onTick, h, hl] at hl'
      · rw [sm_of_tick he ht (by rw [h]; decide)] at hl'
        simp [Ctrl.onTick, h, hl] at hl'
      · rw [(hsound.stop1 h).1] at hl
        exact absurd hl (by decide)
      · rw [sm_of_tick he ht (by rw [h]; decide)] at hl'
        cases hn : s.needStop <;> simp [Ctrl.onTick, h, hl, hn] at hl'
      · rw [hsound.stop3 h] at hl
        exact absurd hl (by decide)
  -- during a data bit SDA follows the shift register, which does not move
  have hdata : s.state = .start ∨ s.state = .txData ∨ s.state = .ack →
      (s.next i).level = true := by
    intro hs
    have h1 : s.state ≠ .stop1 := by
      rcases hs with hs | hs | hs <;> rw [hs] <;> decide
    obtain ⟨hn, -, hz⟩ := next_of_not_tick (i := i) he ht h1
    rw [level_data (henable.trans he) (by rw [hn]; exact hs), hdrive, hz, ← level_data he hs]
    exact hup
  -- the four states of `Late`
  rcases h with h | ⟨h | h | h | h, -⟩
  · exact hdata (Or.inr (Or.inl h))
  · exact hdata (Or.inr (Or.inr h))
  · rw [(hsound.stop1 h).1] at hl
    exact absurd hl (by decide)
  · -- in `stop2`, only an acknowledge of the master holds SDA down
    obtain ⟨hn, -, hz⟩ := next_of_not_tick (i := i) he ht (by rw [h]; decide)
    have hsda := (hsound.stop2 h).2
    cases ha : s.txAck with
    | true => simp [Ctrl.level, Ctrl.sdaOut, he, h, ha, hsda] at hup
    | false =>
      simp only [Ctrl.level, Ctrl.sdaOut, henable, he, hn, h, hz, hsda, ha, if_true]
      split <;> rfl
  · rw [hsound.stop3 h] at hl
    exact absurd hl (by decide)

/-- Before the START, a controller that does not drive SDA leaves it alone. -/
theorem level_next_early (h : Early s) (hnc : Access.isControl i.access = false)
    (hd : s.txDrive = false) : (s.next i).level = true := by
  obtain ⟨he, hn, hs⟩ := h
  have hconfig : (s.next i).config = s.config := Ctrl.next_config hnc
  simp only [Ctrl.config, Prod.mk.injEq] at hconfig
  obtain ⟨henable, -, -, hdrive, -⟩ := hconfig
  have hstate : (s.next i).state = .idle ∨ (s.next i).state = .start ∨
      (s.next i).state = .txData := by
    cases ht : s.tick with
    | false =>
      have h1 : s.state ≠ .stop1 := by
        rcases hs with ⟨hs, -⟩ | hs <;> rw [hs] <;> decide
      rw [(next_of_not_tick he ht h1).1]
      rcases hs with ⟨hs, -⟩ | hs
      · exact Or.inl hs
      · exact Or.inr (Or.inl hs)
    | true =>
      rw [Ctrl.next_state]
      rcases hs with ⟨hs, hb⟩ | hs
      · rw [sm_of_tick he ht (by rw [hs]; decide), onTick_idle_start hs hb hn]
        exact Or.inr (Or.inl rfl)
      · rw [sm_of_tick he ht (by rw [hs]; decide)]
        simp [Ctrl.onTick, hs]
  rcases hstate with hs' | hs' | hs'
  · rw [level_idle (henable.trans he) hs', hdrive, hd, Bool.and_false]
    rfl
  · rw [level_data (henable.trans he) (Or.inl hs'), hdrive, hd]
    rfl
  · rw [level_data (henable.trans he) (Or.inr (Or.inl hs')), hdrive, hd]
    rfl

/-- The controller goes on to its START, or to the bits. -/
theorem early_next (h : Early s) (hnc : Access.isControl i.access = false)
    (ha : Access.isTxData i.access = false) :
    (Early (s.next i) ∧ (s.next i).scl = s.scl ∨ Late (s.next i)) ∧
      (s.next i).txDrive = s.txDrive := by
  obtain ⟨he, hn, hs⟩ := h
  have hconfig : (s.next i).config = s.config := Ctrl.next_config hnc
  simp only [Ctrl.config, Prod.mk.injEq] at hconfig
  obtain ⟨henable, hstart, -, hdrive, -⟩ := hconfig
  have h1 : s.state ≠ .stop1 := by
    rcases hs with ⟨hs, -⟩ | hs <;> rw [hs] <;> decide
  have hcount := next_bitCounter_of_not_write (s := s) ha
  refine ⟨?_, hdrive⟩
  cases ht : s.tick with
  | false =>
    obtain ⟨hstate, hl, -⟩ := next_of_not_tick (i := i) he ht h1
    rw [sm_of_not_tick he ht h1] at hcount
    refine Or.inl ⟨⟨henable.trans he, hstart.trans hn, ?_⟩, hl⟩
    rw [hstate, hcount]
    exact hs
  | true =>
    have hstate := Ctrl.next_state s i
    have hl := Ctrl.next_scl s i
    rw [sm_of_tick he ht h1] at hstate hl
    rcases hs with ⟨hs, hb⟩ | hs
    · rw [onTick_idle_start hs hb hn] at hstate hl
      exact Or.inl ⟨⟨henable.trans he, hstart.trans hn, Or.inr hstate⟩, hl⟩
    · refine Or.inr (Or.inl ?_)
      rw [hstate]
      simp [Ctrl.onTick, hs]

/-- An enabled controller that waits does nothing. -/
theorem sm_resting {wire : Bool} (he : s.enable = true) (h : s.Resting) : s.sm wire = s := by
  have h1 : s.state ≠ .stop1 := by
    rw [h.1]
    decide
  cases ht : s.tick with
  | false => exact sm_of_not_tick he ht h1
  | true =>
    rw [sm_of_tick he ht h1]
    have hb : ¬ 0 < s.bitCounter := by
      rw [h.2]
      decide
    simp only [Ctrl.onTick, h.1, if_neg hb]

theorem not_control_of_data (ha : Access.isTxData i.access = true) :
    Access.isControl i.access = false := by
  rcases h : i.access with _ | (x | x | _ | x) <;>
    simp [Access.isTxData, Access.isControl, h] at ha ⊢

/-- The cycle after data has been written. -/
theorem next_of_write (he : s.enable = true) (h : s.Resting)
    (ha : Access.isTxData i.access = true) :
    (s.next i).state = .idle ∧ (s.next i).bitCounter = 7 ∧ (s.next i).scl = s.scl ∧
      (s.next i).sda = s.sda ∧ (s.next i).config = s.config := by
  refine ⟨?_, ?_, ?_, ?_, Ctrl.next_config (not_control_of_data ha)⟩
  · rw [Ctrl.next_state, sm_resting he h]
    exact h.1
  · rw [Ctrl.next_bitCounter, sm_resting he h, ha]
    simp
  · rw [Ctrl.next_scl, sm_resting he h]
  · rw [Ctrl.next_sda, sm_resting he h]

end Steps

section Start

variable {inp : ℕ → Input} {w n : ℕ}

/-- Something is in the way of a START. -/
def Blocked (inp : ℕ → Input) (n : ℕ) : Prop :=
  scl inp n = false ∨ (ctrlAt inp n).txDrive = false ∨ (inp n).slave = false

/-- What was in the way stays, as long as SCL and the control register do. -/
theorem Blocked.succ (hobeys : Obeys inp) (h : Blocked inp n)
    (hl : scl inp (n + 1) = scl inp n)
    (hd : (ctrlAt inp (n + 1)).txDrive = (ctrlAt inp n).txDrive) : Blocked inp (n + 1) := by
  cases hs : scl inp n with
  | false => exact Or.inl (hl.trans hs)
  | true =>
    rcases h with h | h | h
    · rw [hs] at h
      exact absurd h (by decide)
    · exact Or.inr (Or.inl (hd.trans h))
    · exact Or.inr (Or.inr ((hobeys.slave n ⟨hs, hl.trans hs⟩).trans h))

/-- **Run lemma.**  After the write there is no START before the bits. -/
theorem blocked_window (hobeys : Obeys inp) (hw : Writes inp w)
    (hn : (ctrlAt inp w).needStart = true) (hblocked : Blocked inp w) (d : ℕ)
    (halone : ∀ m, w < m → m < w + 1 + d → ¬ Writes inp m) :
    Early (ctrlAt inp (w + 1 + d)) ∧ Blocked inp (w + 1 + d) ∨ Late (ctrlAt inp (w + 1 + d)) ∨
      (ctrlAt inp (w + 1 + d)).Resting := by
  induction d with
  | zero =>
    obtain ⟨he, hrest⟩ := hobeys.data w hw
    obtain ⟨hstate, hb, hl, -, hconfig⟩ := next_of_write he hrest hw
    simp only [Ctrl.config, Prod.mk.injEq] at hconfig
    obtain ⟨henable, hstart, -, hdrive, -⟩ := hconfig
    refine Or.inl ⟨⟨henable.trans he, hstart.trans hn, Or.inl ⟨hstate, ?_⟩⟩,
      hblocked.succ hobeys hl hdrive⟩
    rw [show (ctrlAt inp (w + 1 + 0)).bitCounter = 7 from hb]
    decide
  | succ d ih =>
    have hquiet : Access.isTxData (inp (w + 1 + d)).access = false :=
      Bool.eq_false_iff.mpr (halone (w + 1 + d) (by omega) (by omega))
    rcases ih fun m hm hlt => halone m hm (by omega) with ⟨hearly, hb⟩ | hlate | hrest
    · have hnc : Access.isControl (inp (w + 1 + d)).access = false :=
        Bool.eq_false_iff.mpr fun ha => hearly.not_resting (hobeys.control _ ha)
      obtain ⟨⟨hnext, hl⟩ | hnext, hdrive⟩ := early_next hearly hnc hquiet
      · exact Or.inl ⟨hnext, hb.succ hobeys hl hdrive⟩
      · exact Or.inr (Or.inl hnext)
    · exact Or.inr (late_next hlate (hobeys.sound _) hquiet)
    · exact Or.inr (Or.inr (resting_next hrest hquiet))

/-- Where SDA falls while SCL stays high, the controller pulls it. -/
theorem StartAt.level (hobeys : Obeys inp) (h : StartAt inp n) :
    (inp n).slave = true ∧ (ctrlAt inp n).level = true ∧ (ctrlAt inp (n + 1)).level = false := by
  obtain ⟨hhigh, hup, hlow⟩ := h
  obtain ⟨hlevel, hslave⟩ := Bool.and_eq_true_iff.mp hup
  refine ⟨hslave, hlevel, ?_⟩
  have hnext := hobeys.slave n hhigh
  rw [hslave] at hnext
  simpa [sda, Ctrl.wire, hnext] using hlow

/-- A transfer that cannot make its START makes none. -/
theorem not_startAt_of_blocked (hobeys : Obeys inp) (hw : Writes inp w)
    (hn : (ctrlAt inp w).needStart = true) (hblocked : Blocked inp w) {s e : ℕ} (hs : w ≤ s)
    (he : s < e) (halone : ∀ m, w < m → m < e → ¬ Writes inp m) : ¬ StartAt inp s := by
  intro hstart
  obtain ⟨hslave, hlevel, hlow⟩ := hstart.level hobeys
  rcases Nat.eq_or_lt_of_le hs with rfl | hlt
  · obtain ⟨hon, hrest⟩ := hobeys.data w hw
    obtain ⟨hstate, -, -, -, hconfig⟩ := next_of_write hon hrest hw
    simp only [Ctrl.config, Prod.mk.injEq] at hconfig
    obtain ⟨henable, -, -, hdrive, -⟩ := hconfig
    rcases hblocked with h | h | h
    · rw [hstart.1.1] at h
      exact absurd h (by decide)
    · have hup : (ctrlAt inp (w + 1)).level = true := by
        rw [ctrlAt_succ, level_idle (henable.trans hon) hstate, hdrive, h, Bool.and_false]
        rfl
      rw [hup] at hlow
      exact absurd hlow (by decide)
    · rw [hslave] at h
      exact absurd h (by decide)
  · obtain ⟨d, rfl⟩ := Nat.exists_eq_add_of_le (show w + 1 ≤ s from hlt)
    have hquiet : Access.isTxData (inp (w + 1 + d)).access = false :=
      Bool.eq_false_iff.mpr (halone (w + 1 + d) (by omega) he)
    have hup : (ctrlAt inp (w + 1 + d + 1)).level = true := by
      rcases blocked_window hobeys hw hn hblocked d fun m hm hm' => halone m hm (by omega) with
        ⟨hearly, hb⟩ | hlate | hrest
      · rcases hb with h | h | h
        · rw [hstart.1.1] at h
          exact absurd h (by decide)
        · exact level_next_early hearly
            (Bool.eq_false_iff.mpr fun ha => hearly.not_resting (hobeys.control _ ha)) h
        · rw [hslave] at h
          exact absurd h (by decide)
      · exact level_next_late hlate (hobeys.sound _) (hobeys.control _) hstart.1.1 hstart.1.2
          hlevel
      · exact level_resting (resting_next hrest hquiet)
    rw [hup] at hlow
    exact absurd hlow (by decide)

/-- A transfer that is carried out was permitted. -/
theorem Carries.permitted (hobeys : Obeys inp) {d : BitVec 8} {s p e : ℕ} (hw : Writes inp w)
    (h : Carries inp (ctrlAt inp w) d w s p e) : Permitted inp w := by
  refine ⟨hobeys.needStop_of_carries h, fun hn => ?_⟩
  by_contra hnot
  have hblocked : Blocked inp w := by
    unfold Blocked
    cases hl : scl inp w <;> cases hd : (ctrlAt inp w).txDrive <;> cases hs : (inp w).slave <;>
      simp [hl, hd, hs] at hnot ⊢
  have hstart := h.start
  rw [hn, if_pos rfl] at hstart
  -- there are pulses after the START, so that the transfer is not over yet
  have hlt : s < p := by
    by_contra hge
    have hcount := h.count
    rw [Nat.sub_eq_zero_of_le (not_lt.mp hge)] at hcount
    split at hcount <;> exact absurd hcount (by simp [pulses])
  exact not_startAt_of_blocked hobeys hw hn hblocked h.order.1 (hlt.trans_le h.order.2.2)
    h.alone.2 hstart.2

end Start

end Karnix.I2c
