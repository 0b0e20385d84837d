import Karnix.Plic.Controller

/-!
# No lost edge

Every acknowledgement `PENDING &= ~X` reads the pending bits of all lines and writes them
back some cycles later.  An edge that arrives in between is latched and then overwritten,
unless the value read already had the bit of its line.
-/

namespace Karnix.Plic

open Karnix.Library

/-! ## Section 1: Edges and acknowledgements -/

/-- Line `i` is enabled, configured for edges, and has an active edge in the cycle. -/
def State.ActiveEdge (s : State) (c : Cycle) (i : ℕ) : Prop :=
  (s.regs.edges c.irqLines).getLsbD i = true

/-- After state `s`, the line `i` is acknowledged in the cycles `cs`: `PENDING` is read for
it and later written. -/
def Acknowledged (s : State) (cs : List Cycle) (i : ℕ) : Prop :=
  [Op.ackRead i, Op.ackWrite i].Sublist (ops s cs)

/-- The value an acknowledgement writes back, if one is in progress: from the cycle in which
`PENDING` is read to that in which it is written. -/
def State.writeBack (s : State) (c : Cycle) : Option Lines :=
  match s.cpu with
  | .ackRead q _ => if c.go then some (s.regs.irqPending &&& ~~~q.mask) else none
  | .ackWrite _ _ value => some value
  | _ => none

/-- If an acknowledgement is in progress, the value it writes back has the bit `i`. -/
def State.KeepsEdge (s : State) (c : Cycle) (i : ℕ) : Prop :=
  ∀ value ∈ s.writeBack c, value.getLsbD i = true

/-- Active edges arrive outside of acknowledgements, or on lines whose bit is written
back. -/
def EdgesKept (s : State) (c : Cycle) : Prop :=
  ∀ value ∈ s.writeBack c, s.regs.edges c.irqLines &&& ~~~value = 0

instance (s : State) (c : Cycle) : Decidable (EdgesKept s c) :=
  Option.decidableForallMem _

theorem EdgesKept.keepsEdge {s : State} {c : Cycle} {i : ℕ} (h : EdgesKept s c)
    (hedge : s.ActiveEdge c i) : s.KeepsEdge c i := by
  intro value hvalue
  have hzero := h value hvalue
  have hi : i < 32 := BitVec.lt_of_getLsbD hedge
  have hbit := congrArg (BitVec.getLsbD · i) hzero
  rw [State.ActiveEdge] at hedge
  simp only [BitVec.getLsbD_and, BitVec.getLsbD_not, hedge, hi, decide_true, Bool.true_and,
    BitVec.ofNat_eq_ofNat, BitVec.getLsbD_zero, Bool.not_eq_false'] at hbit
  exact hbit

/-! ## Section 2: After the edge -/

/-- The pending bit of line `i` is set, and a write in progress keeps it unless it belongs
to an acknowledgement of the same line whose read is among the accesses `before`. -/
structure Held (s : State) (i : ℕ) (before : List Op) : Prop where
  pending : s.regs.irqPending.getLsbD i = true
  write : ∀ q rest value, s.cpu = .ackWrite q rest value →
    value.getLsbD i = true ∨ q.num = i ∧ Op.ackRead i ∈ before

theorem Cpu.next_ne_ackWrite (irqs : List Irq) (q : Irq) (rest : List Irq) (value : Lines) :
    Cpu.next irqs ≠ .ackWrite q rest value := by
  cases irqs <;> simp [Cpu.next]

/-- The cycle in which an edge arrives, if the condition is met, leaves it held. -/
theorem held_of_edge {s : State} {c : Cycle} {i : ℕ} (hedge : s.ActiveEdge c i)
    (hkeep : s.KeepsEdge c i) : Held (step s c) i [] := by
  -- without a bus write the register takes the edge over
  have hlatch := pending_of_edge c.irqLines hedge
  obtain ⟨regs, cpu⟩ := s
  obtain ⟨irqLines, go⟩ := c
  cases cpu with
  | outside =>
    refine ⟨hlatch, fun q rest value h => ?_⟩
    simp only [step, Cpu.go] at h
    split_ifs at h
    exact absurd h (Cpu.next_ne_ackWrite _ _ _ _)
  | test q rest =>
    refine ⟨hlatch, fun q' rest' value h => ?_⟩
    simp only [step, Cpu.go] at h
    split_ifs at h
    exact absurd h (Cpu.next_ne_ackWrite _ _ _ _)
  | ackRead q rest =>
    refine ⟨hlatch, fun q' rest' value h => Or.inl ?_⟩
    cases go with
    | false => simp [step] at h
    | true =>
      -- `PENDING` is read in the cycle of the edge, before it is latched
      simp only [step, Cpu.go, if_true, Cpu.ackWrite.injEq] at h
      exact hkeep value (by simp [State.writeBack, h.2.2])
  | ackWrite q rest value =>
    have hbit : value.getLsbD i = true := hkeep value rfl
    cases go with
    | true =>
      -- the bus write wins over the latch, so the value written must have the bit
      refine ⟨hbit, fun q' rest' value' h => ?_⟩
      exact absurd h (Cpu.next_ne_ackWrite _ _ _ _)
    | false =>
      refine ⟨hlatch, fun q' rest' value' h => Or.inl ?_⟩
      simp only [step, Bool.false_eq_true, if_false, Cpu.ackWrite.injEq] at h
      rw [← h.2.2]
      exact hbit

/-- **Step lemma.**  A held edge stays held, unless the cycle completes an acknowledgement
of its line. -/
theorem held_step {s : State} {c : Cycle} {i : ℕ} {before : List Op} (h : Held s i before)
    (hack : ¬ [Op.ackRead i, Op.ackWrite i].Sublist (before ++ s.op c)) :
    Held (step s c) i (before ++ s.op c) := by
  obtain ⟨regs, cpu⟩ := s
  obtain ⟨irqLines, go⟩ := c
  have hstays := pending_stays irqLines h.pending
  cases cpu with
  | outside =>
    refine ⟨hstays, fun q rest value heq => ?_⟩
    simp only [step, Cpu.go] at heq
    split_ifs at heq
    exact absurd heq (Cpu.next_ne_ackWrite _ _ _ _)
  | test q rest =>
    refine ⟨hstays, fun q' rest' value heq => ?_⟩
    simp only [step, Cpu.go] at heq
    split_ifs at heq
    exact absurd heq (Cpu.next_ne_ackWrite _ _ _ _)
  | ackRead q rest =>
    refine ⟨hstays, fun q' rest' value heq => ?_⟩
    cases go with
    | false => simp [step] at heq
    | true =>
      simp only [step, Cpu.go, if_true, Cpu.ackWrite.injEq] at heq
      obtain ⟨rfl, rfl, rfl⟩ := heq
      -- the value read has the bit; only the acknowledgement of its own line removes it
      by_cases hq : q.num = i
      · exact Or.inr ⟨hq, by simp [State.op, hq]⟩
      · exact Or.inl (getLsbD_masked h.pending hq)
  | ackWrite q rest value =>
    cases go with
    | true =>
      refine ⟨?_, fun q' rest' value' heq => absurd heq (Cpu.next_ne_ackWrite _ _ _ _)⟩
      rcases h.write q rest value rfl with hbit | ⟨rfl, hread⟩
      · exact hbit
      · -- read and write of the line itself: its acknowledgement is complete
        refine absurd ?_ hack
        exact (List.singleton_sublist.mpr hread).append (List.Sublist.refl _)
    | false =>
      refine ⟨hstays, fun q' rest' value' heq => ?_⟩
      simpa [State.op] using h.write q' rest' value' (by simpa [step] using heq)

/-- A held edge stays held through any cycles that do not acknowledge its line. -/
theorem held_run {s : State} {i : ℕ} {before : List Op} (h : Held s i before) {cs : List Cycle}
    (hack : ¬ [Op.ackRead i, Op.ackWrite i].Sublist (before ++ ops s cs)) :
    Held (run step s cs) i (before ++ ops s cs) := by
  -- the accesses of the cycles done so far are moved to `before`
  induction cs generalizing s before with
  | nil => simpa [ops] using h
  | cons c cs ih =>
    simp only [ops, ← List.append_assoc, run_cons] at hack ⊢
    refine ih (held_step h fun hsub => hack ?_) hack
    exact hsub.trans (List.sublist_append_left _ _)

/-! ## Section 3: The condition is needed -/

/-- When the condition fails for an edge, the write in progress discards it. -/
theorem lost_of_not_kept {s : State} {c : Cycle} {i : ℕ} (hkeep : ¬ s.KeepsEdge c i) :
    ∃ cs, ¬ Acknowledged (step s c) cs i ∧
      (run step (step s c) cs).regs.irqPending.getLsbD i = false := by
  simp only [State.KeepsEdge, Option.mem_def, not_forall, Bool.not_eq_true] at hkeep
  obtain ⟨value, hvalue, hbit⟩ := hkeep
  obtain ⟨regs, cpu⟩ := s
  obtain ⟨irqLines, go⟩ := c
  cases cpu with
  | outside => simp [State.writeBack] at hvalue
  | test q rest => simp [State.writeBack] at hvalue
  | ackRead q rest =>
    cases go with
    | false => simp [State.writeBack] at hvalue
    | true =>
      -- the processor writes in the next cycle
      refine ⟨[⟨irqLines, true⟩], ?_, ?_⟩
      · simp [Acknowledged, ops, step, State.op, Cpu.go]
      · simp only [State.writeBack, if_true, Option.some.injEq] at hvalue
        rw [← hvalue] at hbit
        exact hbit
  | ackWrite q rest value' =>
    simp only [State.writeBack, Option.some.injEq] at hvalue
    subst hvalue
    cases go with
    | true =>
      -- the write is in the very cycle of the edge
      exact ⟨[], by simp [Acknowledged, ops], hbit⟩
    | false =>
      refine ⟨[⟨irqLines, true⟩], ?_, hbit⟩
      simp [Acknowledged, ops, step, State.op]

/-- **An edge is kept exactly under the condition.**  Whatever the cycles after it, the
pending bit of a line with an active edge stays set until the line is acknowledged, if and
only if no acknowledgement in progress writes its bit back as zero. -/
theorem edge_kept_iff {s : State} {c : Cycle} {i : ℕ} (hedge : s.ActiveEdge c i) :
    (∀ cs, ¬ Acknowledged (step s c) cs i →
      (run step (step s c) cs).regs.irqPending.getLsbD i = true) ↔ s.KeepsEdge c i := by
  constructor
  · intro hheld
    by_contra hkeep
    obtain ⟨cs, hack, hlost⟩ := lost_of_not_kept hkeep
    rw [hheld cs hack] at hlost
    exact absurd hlost (by decide)
  · intro hkeep cs hack
    exact (held_run (held_of_edge hedge hkeep) hack).pending

/-! ## Section 4: Runs -/

/-- **No lost edge.**  In every run of the controller and the handler, from any state, in
which active edges meet the condition, the pending bit of a line with an active edge is set
until the line is acknowledged by a read and a write of `PENDING` after the edge. -/
theorem noLostEdge (s : State) (before : List Cycle) (c : Cycle) (after : List Cycle) (i : ℕ)
    (hkept : RunMeets step EdgesKept s (before ++ c :: after))
    (hedge : (run step s before).ActiveEdge c i)
    (hack : ¬ Acknowledged (step (run step s before) c) after i) :
    (run step s (before ++ c :: after)).regs.irqPending.getLsbD i = true := by
  have hc : EdgesKept (run step s before) c := (RunMeets.append.mp hkept).2.1
  rw [run_append, run_cons]
  exact (edge_kept_iff hedge).mpr (hc.keepsEdge hedge) after hack

/-- An edge of TIMER1 that arrives as UART0 is about to be acknowledged is still pending when the
handler is done with UART0. -/
theorem noLostEdge_timer1 :
    (run step ⟨{ configured with irqPending := 1 }, .outside⟩
      ([⟨0, true⟩, ⟨0, true⟩] ++
        ⟨0x10, false⟩ :: [⟨0x10, true⟩, ⟨0x10, true⟩])).regs.irqPending.getLsbD 4 = true :=
  noLostEdge ⟨{ configured with irqPending := 1 }, .outside⟩ [⟨0, true⟩, ⟨0, true⟩] ⟨0x10, false⟩
    [⟨0x10, true⟩, ⟨0x10, true⟩] 4 (by decide +kernel) (by unfold State.ActiveEdge; decide +kernel)
    (by unfold Acknowledged; decide +kernel)

/-- UART0 is pending and the processor has read `PENDING` to acknowledge it. -/
def duringAck : State :=
  run step ⟨{ configured with irqPending := 1 }, .outside⟩ [⟨0, true⟩, ⟨0, true⟩, ⟨0, true⟩]

/-- TIMER1 then has an edge, its pending bit is set, and the write that acknowledges UART0
clears it, without any acknowledgement of TIMER1. -/
theorem timer1_edge_lost :
    duringAck.cpu = .ackWrite .uart0 [.i2c, .uart1, .mac, .timer0, .timer1, .cgaVblank, .usb1] 0 ∧
      duringAck.ActiveEdge ⟨0x10, false⟩ 4 ∧
      (step duringAck ⟨0x10, false⟩).regs.irqPending.getLsbD 4 = true ∧
      ¬ Acknowledged (step duringAck ⟨0x10, false⟩) [⟨0x10, true⟩] 4 ∧
      (run step duringAck [⟨0x10, false⟩, ⟨0x10, true⟩]).regs.irqPending.getLsbD 4 = false := by
  unfold State.ActiveEdge Acknowledged
  refine ⟨?_, ?_, ?_, ?_, ?_⟩ <;> decide +kernel

end Karnix.Plic
