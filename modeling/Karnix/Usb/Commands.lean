import Karnix.Usb.Controller

/-!
# Commands of the USB controller

A command that is written while a device is connected is followed through the run: it is
pending until the state machine goes to the state of its sender, and launched from then on.
The state machine may take its start bit back when that sender has finished, or when the
guard timer runs out and the device is disconnected.

It also does so at the end of a keep-alive, and at the end of the sender of an older command.
And the guard timer takes the start bit back on the system clock, before the edge of the USB
clock that would disconnect the device: if the lines are back by then, the device stays.
-/

namespace Karnix.Usb

open Karnix.Library

/-! ## Section 1: The command in `COMMAND` -/

/-- How far the command in `COMMAND` is.  `idle`: there is none, or it was written while no
device was connected, or the device was lost since. -/
inductive Job where
  | idle | pending | launched
  deriving DecidableEq, Repr

structure Tracked where
  ctrl : Ctrl
  job : Job
  /-- A start bit was taken back before its time, since the last edge of the USB clock. -/
  lost : Bool

/-- The processor writes a valid command with the start bit. -/
def Edge.startsCommand (e : Edge) : Bool :=
  match e.commandWrite with
  | some word => startBit word && (selected word).isSome
  | none => false

/-- The state machine takes the start bit back. -/
def Ctrl.cleared (c : Clocks) (s : Ctrl) (e : Edge) : Bool :=
  s.cmdStart && e.commandWrite.isNone && !(step c s e).cmdStart

def Tracked.nextJob (c : Clocks) (g : Tracked) (e : Edge) : Job :=
  if (step c g.ctrl e).usb.state = .unconnected then .idle
  else if e.commandWrite.isSome then
    if e.startsCommand && decide (g.ctrl.usb.state ≠ .unconnected) then .pending else .idle
  else if g.ctrl.cleared c e then .idle
  else if decide (g.job = .pending) && e.usbClk && g.ctrl.launching c e.signals then .launched
  else g.job

/-- The sender of the command in `COMMAND` has finished. -/
def Ctrl.completes (s : Ctrl) (sig : Signals) : Bool :=
  decide (s.cmd.map USBCommand.state = some s.usb.state) && s.ready sig

/-- The start bit is taken back, and not because the sender of the command has finished. -/
def Tracked.takenBack (c : Clocks) (g : Tracked) (e : Edge) : Bool :=
  decide (g.job ≠ .idle) && g.ctrl.cleared c e &&
    !(decide (g.job = .launched) && g.ctrl.completes e.signals)

/-- A step of the controller, with the command followed. -/
def trackStep (c : Clocks) (g : Tracked) (e : Edge) : Tracked :=
  ⟨step c g.ctrl e, g.nextJob c e, !e.usbClk && (g.lost || g.takenBack c e)⟩

/-- After reset there is no command. -/
def Tracked.init (se0 : SendSE0) : Tracked := ⟨.init se0, .idle, false⟩

/-- **Executed.**  The state machine takes the start bit of a command back only when the
sender that was launched for it has finished, or when the guard timer runs out and the next edge
of the USB clock disconnects the device. -/
def Executed (c : Clocks) (g : Tracked) (e : Edge) : Prop :=
  (g.job ≠ .idle → g.ctrl.cleared c e = true →
    (g.job = .launched ∧ g.ctrl.completes e.signals = true) ∨
      g.ctrl.guardTimeout c e.signals = true) ∧
  (e.usbClk = true → g.lost = true ∨ g.takenBack c e = true →
    (step c g.ctrl e).usb.state = .unconnected)

instance (c : Clocks) (g : Tracked) (e : Edge) : Decidable (Executed c g e) :=
  inferInstanceAs (Decidable ((_ → _ → _ ∨ _) ∧ (_ → _ → _)))

/-- A keep-alive ends on a system clock edge while a command is waiting. -/
def Tracked.dropped (c : Clocks) (g : Tracked) (e : Edge) : Bool :=
  decide (g.job ≠ .idle) && e.sysClk && e.commandWrite.isNone &&
    decide (g.ctrl.usb.state = .keepAlive) && g.ctrl.se0Ready &&
    !g.ctrl.guardTimeout c e.signals

/-- A command is written while the sender of another one runs, or on the very edge that
launches another one. -/
def Tracked.overrun (c : Clocks) (g : Tracked) (e : Edge) : Bool :=
  e.startsCommand &&
    (g.ctrl.usb.state.isSender && !(e.usbClk && g.ctrl.ready e.signals) ||
      e.usbClk && g.ctrl.launching c e.signals)

/-- The guard timer has taken a start bit back, and at the next edge of the USB clock the lines
are no longer both low, or a component is ready there, or a newer command is launched. -/
def Tracked.spared (c : Clocks) (g : Tracked) (e : Edge) : Bool :=
  (g.lost || g.takenBack c e) && e.usbClk && g.ctrl.busEnable &&
    (!g.ctrl.guardTimeout c e.signals || g.ctrl.ready e.signals || g.ctrl.launching c e.signals)

/-- None of them happens at the edge. -/
def Orderly (c : Clocks) (g : Tracked) (e : Edge) : Prop :=
  g.dropped c e = false ∧ g.spared c e = false ∧ g.overrun c e = false

instance (c : Clocks) (g : Tracked) (e : Edge) : Decidable (Orderly c g e) :=
  inferInstanceAs (Decidable (_ ∧ _ ∧ _))

/-! ## Section 2: The start bit -/

section StartBit

variable {c : Clocks} {s : Ctrl} {e : Edge}

theorem fsmCommand_of_kept (hguard : s.guardTimeout c e.signals = false)
    (hclear : s.clearsStart e.signals = false) :
    s.fsmCommand c e.signals = s.usbCommandWord := by
  simp [Ctrl.fsmCommand, hguard, hclear]

theorem startBit_fsmCommand_of_clears
    (h : s.guardTimeout c e.signals = true ∨ s.clearsStart e.signals = true) :
    startBit (s.fsmCommand c e.signals) = false := by
  rcases h with h | h
  · cases hclear : s.clearsStart e.signals <;>
      simp [Ctrl.fsmCommand, startBit, h, hclear]
  · cases hguard : s.guardTimeout c e.signals <;>
      simp [Ctrl.fsmCommand, startBit, h, hguard]

/-- When the start bit is taken back, the guard timer or the state machine did it. -/
theorem clears_of_cleared (h : s.cleared c e = true) :
    s.cmdStart = true ∧ e.sysClk = true ∧ e.commandWrite = none ∧
      (s.guardTimeout c e.signals = true ∨ s.clearsStart e.signals = true) := by
  simp only [Ctrl.cleared, Bool.and_eq_true, Option.isNone_iff_eq_none, Bool.not_eq_true']
    at h
  obtain ⟨⟨hstart, hwrite⟩, hnext⟩ := h
  have hcommand : (step c s e).usbCommandWord =
      if e.sysClk then s.fsmCommand c e.signals else s.usbCommandWord := by
    simp [step, hwrite]
  cases hsys : e.sysClk with
  | false =>
    -- without an edge of the system clock `COMMAND` stays
    rw [hsys, if_neg Bool.false_ne_true] at hcommand
    rw [Ctrl.cmdStart, hcommand] at hnext
    rw [Ctrl.cmdStart, hnext] at hstart
    exact absurd hstart (by decide)
  | true =>
    refine ⟨hstart, rfl, hwrite, ?_⟩
    by_contra hkept
    simp only [not_or, Bool.not_eq_true] at hkept
    rw [hsys, if_pos rfl, fsmCommand_of_kept hkept.1 hkept.2] at hcommand
    rw [Ctrl.cmdStart, hcommand] at hnext
    rw [Ctrl.cmdStart, hnext] at hstart
    exact absurd hstart (by decide)

/-- A command that is neither overwritten nor cleared stays as it is. -/
theorem command_kept (hstart : s.cmdStart = true) (hwrite : e.commandWrite = none)
    (hkept : s.cleared c e = false) : (step c s e).usbCommandWord = s.usbCommandWord := by
  have hcommand : (step c s e).usbCommandWord =
      if e.sysClk then s.fsmCommand c e.signals else s.usbCommandWord := by
    simp [step, hwrite]
  have hnext : startBit (step c s e).usbCommandWord = true := by
    simp only [Ctrl.cleared, hstart, hwrite, Option.isNone_none, Bool.true_and,
      Bool.not_eq_false'] at hkept
    exact hkept
  rw [hcommand] at hnext ⊢
  split
  · rename_i hsys
    rw [if_pos hsys] at hnext
    cases hguard : s.guardTimeout c e.signals with
    | true =>
      rw [startBit_fsmCommand_of_clears (Or.inl hguard)] at hnext
      exact absurd hnext (by decide)
    | false =>
      cases hclear : s.clearsStart e.signals with
      | true =>
        rw [startBit_fsmCommand_of_clears (Or.inr hclear)] at hnext
        exact absurd hnext (by decide)
      | false => exact fsmCommand_of_kept hguard hclear
  · rfl

end StartBit

/-! ## Section 3: The invariant -/

/-- What is known of a command that is followed. -/
structure Tracked.Inv (g : Tracked) : Prop where
  command : g.job ≠ .idle → g.ctrl.cmdStart = true ∧ g.ctrl.cmd.isSome = true
  connected : g.job ≠ .idle → g.ctrl.usb.state ≠ .unconnected
  /-- No sender runs while the command waits. -/
  pending : g.job = .pending → g.ctrl.usb.state.isSender = false
  /-- The sender that runs after the launch is its own. -/
  launched : g.job = .launched → g.ctrl.usb.state.isSender = true →
    g.ctrl.cmd.map USBCommand.state = some g.ctrl.usb.state
  /-- Only an edge of the USB clock disconnects the device. -/
  lost : g.lost = true → g.ctrl.usb.state ≠ .unconnected

section Invariant

variable {c : Clocks} {g : Tracked} {e : Edge}

theorem Tracked.inv_of_idle (h : g.job = .idle)
    (hlost : g.lost = true → g.ctrl.usb.state ≠ .unconnected) : g.Inv :=
  ⟨fun hn => absurd h hn, fun hn => absurd h hn, fun hp => absurd (h.symm.trans hp) (by decide),
    fun hl => absurd (h.symm.trans hl) (by decide), hlost⟩

theorem Tracked.takenBack_iff : g.takenBack c e = true ↔
    g.job ≠ .idle ∧ g.ctrl.cleared c e = true ∧
      ¬ (g.job = .launched ∧ g.ctrl.completes e.signals = true) := by
  simp [Tracked.takenBack, and_assoc, imp_iff_not_or]

/-- Between the edges of the USB clock the device stays connected. -/
theorem Tracked.Inv.lost_step (h : g.Inv) :
    (trackStep c g e).lost = true → (trackStep c g e).ctrl.usb.state ≠ .unconnected := by
  intro hlost
  simp only [trackStep, Bool.and_eq_true, Bool.not_eq_true', Bool.or_eq_true] at hlost
  obtain ⟨husb, hlost⟩ := hlost
  have hsame : (trackStep c g e).ctrl.usb = g.ctrl.usb := by simp [trackStep, step, husb]
  rw [hsame]
  rcases hlost with hlost | hback
  · exact h.lost hlost
  · exact h.connected (Tracked.takenBack_iff.1 hback).1

/-- The state machine leaves a connected state for `StateUnconnected` only at a timeout of the
guard timer at which nothing else is ready. -/
theorem Ctrl.unconnected_iff {s : Ctrl} {sig : Signals} (henable : s.busEnable = true)
    (hconnected : s.usb.state ≠ .unconnected) :
    (s.usbNext c sig).state = .unconnected ↔
      s.guardTimeout c sig = true ∧ s.ready sig = false ∧ s.launching c sig = false := by
  have hnext : (s.usbNext c sig).state = (s.mainFSM c sig (s.guardTimer c sig s.usb)).state := by
    simp only [Ctrl.usbNext, henable, if_true]
  have hguard : (s.guardTimer c sig s.usb).state =
      if s.guardTimeout c sig then .unconnected else s.usb.state := by
    unfold Ctrl.guardTimer
    split
    · rfl
    · split <;> rfl
  rw [hnext]
  by_cases hwait : s.usb.state = .waitCMDorSYNC
  · have hready : s.ready sig = false := by simp [Ctrl.ready, hwait]
    rw [Ctrl.mainFSM_state_of_wait hwait, hguard, hwait]
    have hcmd : ∀ cmd : USBCommand, cmd.state ≠ .unconnected := by rintro (_ | _ | _ | _) <;> decide
    cases htimeout : s.guardTimeout c sig with
    | false =>
      cases s.keepAliveDue c sig <;> cases sig.busActivity <;> cases s.cmdStart <;>
        cases s.cmd <;> simp [hcmd]
    | true =>
      -- both lines are low, so that only a command is more urgent
      have herror : sig.busError = true := by
        simp only [Ctrl.guardTimeout, Bool.and_eq_true] at htimeout
        exact htimeout.1.1
      have hdue : s.keepAliveDue c sig = false := by simp [Ctrl.keepAliveDue, herror]
      have hactivity : sig.busActivity = false := by
        simp only [Signals.busError, Bool.and_eq_true, Bool.not_eq_true'] at herror
        simp [Signals.busActivity, herror.2]
      simp only [hdue, hactivity, Ctrl.launching, henable, hwait, hready, if_true,
        Bool.false_eq_true, if_false]
      cases s.cmdStart <;> cases s.cmd <;> simp [hcmd]
  · rw [Ctrl.mainFSM_state_of_ne hwait hconnected, hguard]
    have hlaunch : s.launching c sig = false := by simp [Ctrl.launching, hwait]
    cases s.ready sig <;> cases s.guardTimeout c sig <;> simp [hlaunch, hconnected]

theorem nextJob_cases (c : Clocks) (g : Tracked) (e : Edge) :
    g.nextJob c e = .idle ∨
      ((step c g.ctrl e).usb.state ≠ .unconnected ∧
        ((g.nextJob c e = .pending ∧ e.startsCommand = true) ∨
          (e.commandWrite = none ∧ g.ctrl.cleared c e = false ∧
            ((g.nextJob c e = .launched ∧ g.job = .pending ∧ e.usbClk = true ∧
                g.ctrl.launching c e.signals = true) ∨
              (g.nextJob c e = g.job ∧
                (g.job = .pending → e.usbClk = true →
                  g.ctrl.launching c e.signals = false)))))) := by
  -- the cases follow the branches of `nextJob`
  unfold Tracked.nextJob
  split
  · exact Or.inl rfl
  rename_i hconnected
  cases hwrite : e.commandWrite with
  | some word =>
    rw [Option.isSome_some, if_pos rfl]
    split
    · rename_i hstarts
      exact Or.inr ⟨hconnected, Or.inl ⟨rfl, (Bool.and_eq_true _ _ ▸ hstarts).1⟩⟩
    · exact Or.inl rfl
  | none =>
    rw [Option.isSome_none, if_neg Bool.false_ne_true]
    split
    · exact Or.inl rfl
    rename_i hkept
    refine Or.inr ⟨hconnected, Or.inr ⟨rfl, Bool.not_eq_true _ ▸ hkept, ?_⟩⟩
    split
    · rename_i hlaunch
      simp only [Bool.and_eq_true, decide_eq_true_eq] at hlaunch
      exact Or.inl ⟨rfl, hlaunch.1.1, hlaunch.1.2, hlaunch.2⟩
    · rename_i hlaunch
      refine Or.inr ⟨rfl, fun hpending husb => ?_⟩
      simpa [hpending, husb] using hlaunch

theorem startsCommand_iff :
    e.startsCommand = true ↔
      ∃ word, e.commandWrite = some word ∧ startBit word = true ∧
        (selected word).isSome = true := by
  unfold Edge.startsCommand
  cases e.commandWrite <;> simp

/-- Where the state machine is after an edge that leaves it in the state of a sender. -/
theorem isSender_of_step (h : (step c g.ctrl e).usb.state.isSender = true) :
    ((step c g.ctrl e).usb.state = g.ctrl.usb.state ∧
        (e.usbClk = true → g.ctrl.ready e.signals = false)) ∨
      (e.usbClk = true ∧ g.ctrl.launching c e.signals = true) := by
  cases husb : e.usbClk with
  | false => exact Or.inl ⟨by simp [step, husb], fun hf => absurd hf (by decide)⟩
  | true =>
    simp only [step, husb, if_true] at h ⊢
    rcases Ctrl.isSender_of_usbNext h with ⟨hsame, hready⟩ | hlaunch
    · exact Or.inl ⟨hsame, fun _ => hready⟩
    · exact Or.inr ⟨trivial, hlaunch⟩

theorem state_of_launching (husb : e.usbClk = true)
    (hlaunch : g.ctrl.launching c e.signals = true) :
    g.ctrl.cmd.map USBCommand.state = some (step c g.ctrl e).usb.state := by
  simp only [step, husb, if_true]
  exact Ctrl.usbNext_of_launching hlaunch

/-- **Step.**  An edge without an overrun keeps the invariant. -/
theorem Tracked.Inv.step (h : g.Inv) (hover : g.overrun c e = false) :
    (trackStep c g e).Inv := by
  rcases nextJob_cases c g e with hidle | ⟨hconnected, ⟨hjob, hstarts⟩ | ⟨hwrite, hkept, hjob⟩⟩
  · exact Tracked.inv_of_idle hidle h.lost_step
  · -- a new command: no sender runs behind its back
    obtain ⟨word, hword, hstart, hvalid⟩ := startsCommand_iff.mp hstarts
    have hcommand : (Usb.step c g.ctrl e).usbCommandWord = word := by
      simp [Usb.step, hword]
    have hidle : (Usb.step c g.ctrl e).usb.state.isSender = false := by
      by_contra hsender
      rw [Bool.not_eq_false] at hsender
      rcases isSender_of_step hsender with ⟨hsame, hready⟩ | ⟨husb, hlaunch⟩
      · rw [hsame] at hsender
        have hrun : (e.usbClk && g.ctrl.ready e.signals) = false := by
          cases husb : e.usbClk with
          | false => rfl
          | true => exact hready husb
        simp [Tracked.overrun, hstarts, hsender, hrun] at hover
      · simp [Tracked.overrun, hstarts, husb, hlaunch] at hover
    refine ⟨fun _ => ?_, fun _ => hconnected, fun _ => hidle, fun hl => ?_, h.lost_step⟩
    · simp only [trackStep, Ctrl.cmdStart, Ctrl.cmd, hcommand]
      exact ⟨hstart, hvalid⟩
    · rw [trackStep, hjob] at hl
      cases hl
  · rcases hjob with ⟨hjob, hpending, husb, hlaunch⟩ | ⟨hjob, hwaits⟩
    · -- the launch
      obtain ⟨hstart, hvalid⟩ := h.command (by rw [hpending]; decide)
      have hcommand := command_kept hstart hwrite hkept
      refine ⟨fun _ => ?_, fun _ => hconnected, fun hp => ?_, fun _ _ => ?_, h.lost_step⟩
      · simp only [trackStep, Ctrl.cmdStart, Ctrl.cmd, hcommand]
        exact ⟨hstart, hvalid⟩
      · rw [trackStep, hjob] at hp
        cases hp
      · simp only [trackStep, Ctrl.cmd, hcommand]
        exact state_of_launching husb hlaunch
    · by_cases hidle : g.job = .idle
      · exact Tracked.inv_of_idle (hjob.trans hidle) h.lost_step
      -- the command goes on waiting, or its sender goes on
      obtain ⟨hstart, hvalid⟩ := h.command hidle
      have hcommand := command_kept hstart hwrite hkept
      refine ⟨fun _ => ?_, fun _ => hconnected, fun hp => ?_, fun hl hsender => ?_, h.lost_step⟩
      · simp only [trackStep, Ctrl.cmdStart, Ctrl.cmd, hcommand]
        exact ⟨hstart, hvalid⟩
      · have hpending : g.job = .pending := hjob.symm.trans hp
        by_contra hsender
        rw [Bool.not_eq_false] at hsender
        rcases isSender_of_step hsender with ⟨hsame, -⟩ | ⟨husb, hlaunch⟩
        · rw [trackStep, hsame, h.pending hpending] at hsender
          cases hsender
        · rw [hwaits hpending husb] at hlaunch
          cases hlaunch
      · have hlaunched : g.job = .launched := hjob.symm.trans hl
        simp only [trackStep, Ctrl.cmd, hcommand]
        rcases isSender_of_step hsender with ⟨hsame, -⟩ | ⟨husb, hlaunch⟩
        · rw [hsame]
          rw [trackStep, hsame] at hsender
          exact h.launched hlaunched hsender
        · exact state_of_launching husb hlaunch

/-- What is taken back outside a keep-alive is taken back in time, or by the guard timer. -/
theorem Tracked.Inv.cleared_iff (h : g.Inv) :
    (g.job ≠ .idle → g.ctrl.cleared c e = true →
        (g.job = .launched ∧ g.ctrl.completes e.signals = true) ∨
          g.ctrl.guardTimeout c e.signals = true) ↔
      g.dropped c e = false := by
  constructor
  · intro hexec
    by_contra hdrop
    simp only [Bool.not_eq_false, Tracked.dropped, Bool.and_eq_true, decide_eq_true_eq,
      Bool.not_eq_true', Option.isNone_iff_eq_none] at hdrop
    obtain ⟨⟨⟨⟨⟨hjob, hsys⟩, hwrite⟩, hstate⟩, hready⟩, hguard⟩ := hdrop
    have hclears : g.ctrl.clearsStart e.signals = true := by
      simp [Ctrl.clearsStart, Ctrl.ready, hstate, hready]
    have hcleared : g.ctrl.cleared c e = true := by
      have hstart : startBit g.ctrl.usbCommandWord = true := (h.command hjob).1
      have hoff := startBit_fsmCommand_of_clears (c := c) (s := g.ctrl) (Or.inr hclears)
      simp [Ctrl.cleared, Ctrl.cmdStart, hstart, hwrite, Usb.step, hsys, hoff]
    rcases hexec hjob hcleared with ⟨-, hdone⟩ | hout
    · -- a keep-alive is not the state of any command
      simp only [Ctrl.completes, hstate, Bool.and_eq_true, decide_eq_true_eq] at hdone
      obtain ⟨cmd, -, hcmd⟩ := Option.map_eq_some_iff.mp hdone.1
      have := Ctrl.isSender_state cmd
      rw [hcmd] at this
      cases this
    · rw [hguard] at hout
      cases hout
  · intro hdrop hjob hcleared
    obtain ⟨-, hsys, hwrite, hguard | hclears⟩ := clears_of_cleared hcleared
    · exact Or.inr hguard
    obtain ⟨hstart, hvalid⟩ := h.command hjob
    cases hstate : g.ctrl.usb.state with
    -- of the states that clear the start bit, the invariant leaves the keep-alive and the sender
    | unconnected => exact absurd hstate (h.connected hjob)
    | waitCMDorSYNC =>
      rw [Ctrl.clearsStart, hstate] at hclears
      simp [Option.isSome_iff_ne_none.mp hvalid] at hclears
    | receive => simp [Ctrl.clearsStart, hstate] at hclears
    | keepAlive =>
      right
      have hready : g.ctrl.se0Ready = true := by
        simpa [Ctrl.clearsStart, Ctrl.ready, hstate] using hclears
      simpa [Tracked.dropped, hjob, hsys, hwrite, hstate, hready] using hdrop
    | sendLongToken | sendShortToken | sendData | sendReset =>
      left
      have hsender : g.ctrl.usb.state.isSender = true := by rw [hstate]; rfl
      have hready : g.ctrl.ready e.signals = true := by
        simpa [Ctrl.clearsStart, hstate] using hclears
      have hlaunched : g.job = .launched := by
        cases hg : g.job with
        | idle => exact absurd hg hjob
        | pending =>
          rw [h.pending hg] at hsender
          cases hsender
        | launched => rfl
      refine ⟨hlaunched, ?_⟩
      simp [Ctrl.completes, hready, h.launched hlaunched hsender]

/-- What the guard timer has taken back is followed by a disconnection, unless the device is
spared. -/
theorem Tracked.Inv.disconnects_iff (h : g.Inv) :
    (e.usbClk = true → g.lost = true ∨ g.takenBack c e = true →
        (Usb.step c g.ctrl e).usb.state = .unconnected) ↔
      g.spared c e = false := by
  cases husb : e.usbClk with
  | false => simp [Tracked.spared, husb]
  | true =>
    have hnext : (Usb.step c g.ctrl e).usb = g.ctrl.usbNext c e.signals := by
      simp only [Usb.step, husb, if_true]
    rw [hnext]
    cases hback : g.lost || g.takenBack c e with
    | false =>
      rw [Bool.or_eq_false_iff] at hback
      simp [Tracked.spared, hback.1, hback.2]
    | true =>
      have hconnected : g.ctrl.usb.state ≠ .unconnected := by
        rcases Bool.or_eq_true _ _ ▸ hback with hlost | htaken
        · exact h.lost hlost
        · exact h.connected (Tracked.takenBack_iff.1 htaken).1
      rw [← Bool.or_eq_true, hback, Tracked.spared, hback, husb]
      cases henable : g.ctrl.busEnable with
      | false => simp [Ctrl.usbNext, henable]
      | true =>
        rw [Ctrl.unconnected_iff henable hconnected]
        simp [and_assoc]

/-- Under the invariant a command is lost exactly at the end of a keep-alive, or when the device
is spared. -/
theorem executed_iff (h : g.Inv) :
    Executed c g e ↔ g.dropped c e = false ∧ g.spared c e = false :=
  and_congr h.cleared_iff h.disconnects_iff

end Invariant

/-- A device that is idle, and no component ready. -/
def idleBus : Signals := ⟨true, false, false, false, false, false⟩

/-- An edge of the USB clock on an idle bus. -/
def usbTick : Edge := ⟨idleBus, true, false, none⟩

/-- An edge of the system clock on an idle bus. -/
def sysTick (write : Option BusWrite) : Edge := ⟨idleBus, false, true, write⟩

/-- `CONTROL` with the bus and keep-alives enabled. -/
def enableWord : BitVec 32 := 0xC00057E4

def longTokenWord : BitVec 32 := 0x80000011

/-- Waiting for a command, with the keep-alive timer at `t`. -/
def waiting (t : ℕ) : Tracked :=
  ⟨⟨0, enableWord, ⟨.waitCMDorSYNC, 0, BitVec.ofNat 16 t, false, false, false, false, ⟨0, 0⟩⟩⟩,
    .idle, false⟩

/-- On an idle bus the keep-alive timer counts up to its limit. -/
theorem waiting_usbTick (c : Clocks) {t : ℕ} (ht : t < c.lowSpeedKeepAliveClocks.toNat) :
    trackStep c (waiting t) usbTick = waiting (t + 1) := by
  -- the limit is not reached yet
  have hne : BitVec.ofNat 16 t ≠ c.lowSpeedKeepAliveClocks := by
    intro h
    have hmod := congrArg BitVec.toNat h
    have hlt := c.lowSpeedKeepAliveClocks.isLt
    rw [BitVec.toNat_ofNat, Nat.mod_eq_of_lt (by omega)] at hmod
    omega
  have hdue : (waiting t).ctrl.keepAliveDue c idleBus = false := by
    simp [Ctrl.keepAliveDue, waiting, hne]
  have hguard : (waiting t).ctrl.guardTimer c idleBus (waiting t).ctrl.usb =
      (waiting t).ctrl.usb := rfl
  have henable : (waiting t).ctrl.busEnable = true :=
    show enableWord.getLsbD 31 = true by decide
  have hkeep : (waiting t).ctrl.keepaliveEnable = true :=
    show enableWord.getLsbD 30 = true by decide
  have hstart : (waiting t).ctrl.cmdStart = false :=
    show (0 : BitVec 32).getLsbD 31 = false by decide
  have hwait : (waiting t).ctrl.usb.state = .waitCMDorSYNC := rfl
  have hcount : BitVec.ofNat 16 t + 1#16 = BitVec.ofNat 16 (t + 1) :=
    (BitVec.ofNat_add t 1).symm
  have hregs : (waiting t).ctrl.usbNext c idleBus = (waiting (t + 1)).ctrl.usb := by
    simp only [Ctrl.usbNext, henable, Ctrl.mainFSM, hwait, hstart, hkeep, hdue, hguard, if_true,
      Bool.false_eq_true, if_false]
    simp [waiting, idleBus, Signals.busError, Signals.busActivity, Ctrl.se0Next, Ctrl.se0Valid,
      hcount]
  have hstep : step c (waiting t).ctrl usbTick = (waiting (t + 1)).ctrl := by
    simp only [step, usbTick, Edge.commandWrite, hregs, if_true, Bool.false_eq_true, if_false]
    rfl
  have hjob : (waiting t).nextJob c usbTick = .idle := by
    simp [Tracked.nextJob, usbTick, Edge.commandWrite, waiting]
  rw [trackStep, hstep, hjob]
  rfl

theorem waiting_usbTicks (c : Clocks) (t n : ℕ)
    (hn : t + n ≤ c.lowSpeedKeepAliveClocks.toNat) :
    run (trackStep c) (waiting t) (List.replicate n usbTick) = waiting (t + n) := by
  induction n generalizing t with
  | zero => rfl
  | succ n ih =>
    rw [List.replicate_succ, run_cons, waiting_usbTick c (by omega), ih (t + 1) (by omega),
      show t + 1 + n = t + (n + 1) by omega]

/-- A device connects, a millisecond later a keep-alive begins, and a long token is written
while it is on the bus. -/
def keepAliveRun : List Edge :=
  [sysTick (some (.control enableWord)), usbTick, usbTick] ++
    (List.replicate 11898 usbTick ++
      (usbTick :: sysTick (some (.command longTokenWord)) ::
        (List.replicate 16 usbTick ++ [sysTick none])))

end Karnix.Usb
