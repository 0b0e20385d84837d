import Karnix.Qspi.Bridge

/-!
# Responses of the QSPI bridge

Every request gets its beats on its own channel, and no other ones, before the next request is
accepted.

A write that is accepted with the write enable off is treated as a read.  And at the end of a word
the bridge takes the next one whether the master offers it or not, so that a write can end
without its last beat.
-/

namespace Karnix.Qspi

open Karnix.Library

/-! ## Section 1: The bus monitor -/

/-- The request accepted last, and the beats of each channel since then. -/
structure Monitor where
  request : Option Arw
  r : ℕ
  w : ℕ
  b : ℕ
  deriving DecidableEq

/-- The bridge and its monitor. -/
structure Bus where
  bridge : State
  monitor : Monitor

namespace Bus

/-- A request is accepted: it is offered, and the bridge is ready for one. -/
def arwFire (u : Bus) (i : Input) : Bool := i.arwValid && u.bridge.arwReady

def rFire (u : Bus) (i : Input) : Bool := u.bridge.rValid && i.rReady
def wFire (u : Bus) (i : Input) : Bool := i.wValid && u.bridge.wReady
def bFire (u : Bus) (i : Input) : Bool := u.bridge.bValid && i.bReady

/-- What the monitor counts in a cycle. -/
def count (u : Bus) (i : Input) : Monitor :=
  if u.arwFire i then ⟨some i.arw, 0, 0, 0⟩
  else
    { u.monitor with
      r := u.monitor.r + (u.rFire i).toNat
      w := u.monitor.w + (u.wFire i).toNat
      b := u.monitor.b + (u.bFire i).toNat }

/-- A clock cycle of the bridge, with the beats that the monitor counts. -/
def step (u : Bus) (i : Input) : Bus := ⟨u.bridge.next i, u.count i⟩

/-- The bus after reset, with a monitor that has seen nothing. -/
def reset (x : State) : Bus := ⟨x.reset, none, 0, 0, 0⟩

end Bus

namespace Monitor

/-- The request has got all its beats, and only those. -/
def Complete (m : Monitor) : Prop :=
  match m.request with
  | none => m.r = 0 ∧ m.w = 0 ∧ m.b = 0
  | some q =>
    if q.write then m.r = 0 ∧ m.w = q.len.toNat + 1 ∧ m.b = 1
    else m.r = q.len.toNat + 1 ∧ m.w = 0 ∧ m.b = 0

/-- No beat is on a wrong channel, too early or one too many. -/
def Lawful (m : Monitor) : Prop :=
  match m.request with
  | none => m.r = 0 ∧ m.w = 0 ∧ m.b = 0
  | some q =>
    if q.write then
      m.r = 0 ∧ m.w ≤ q.len.toNat + 1 ∧ m.b ≤ 1 ∧ (m.b = 1 → m.w = q.len.toNat + 1)
    else m.r ≤ q.len.toNat + 1 ∧ m.w = 0 ∧ m.b = 0

instance (m : Monitor) : Decidable m.Complete := by
  unfold Complete
  split <;> infer_instance

instance (m : Monitor) : Decidable m.Lawful := by
  unfold Lawful
  split <;> infer_instance

end Monitor

/-- The response discipline in a cycle: the counts stay lawful, and a request is accepted only when
the one before it is complete. -/
def Served (u : Bus) (i : Input) : Prop :=
  (u.step i).monitor.Lawful ∧ (u.arwFire i = true → u.monitor.Complete)

/-- The master marks the last beat of a write, and no other one. -/
def LastBeat (u : Bus) (i : Input) : Prop :=
  match u.monitor.request with
  | none => True
  | some q =>
    q.write = true → u.monitor.w ≤ q.len.toNat → i.wValid = true →
      (i.wLast = true ↔ u.monitor.w = q.len.toNat)

instance (u : Bus) (i : Input) : Decidable (Served u i) := inferInstanceAs (Decidable (_ ∧ _))

instance (u : Bus) (i : Input) : Decidable (LastBeat u i) := by
  unfold LastBeat
  split <;> infer_instance

/-- The bridge takes a request for what it is, and at the end of a word there is a beat on offer
or nothing that looks like the last one. -/
def Heeded (u : Bus) (i : Input) : Prop :=
  (u.arwFire i = true → i.arw.write = true → u.bridge.qspiCtrlWriteEnabled = true) ∧
    (u.bridge.wReady = true → i.wValid = false → u.bridge.programEnd i = false)

instance (u : Bus) (i : Input) : Decidable (Heeded u i) := inferInstanceAs (Decidable (_ ∧ _))

/-- The master takes and offers beats without delay. -/
def Prompt (u : Bus) (i : Input) : Prop :=
  i.rReady = true ∧ i.bReady = true ∧ i.wValid = true ∧ LastBeat u i

/-! ## Section 2: What a cycle can do -/

/-- What a phase is for. -/
inductive Kind where
  | idle | read | program | response
  deriving DecidableEq

def Phase.kind : Phase → Kind
  | .spiCmdRead | .qpiCmdRead | .qpiCmdReadSetup | .qpiRead | .qpiReadRepeat
  | .qpiReadResponse => .read
  | .spiCmdProgramWel | .spiCmdProgram | .spiProgram => .program
  | .spiProgramResponse => .response
  | _ => .idle

section Steps

variable {s : State} {i : Input}

/-- In a phase for a command no request is begun. -/
theorem next_idle (h : s.phase.kind = .idle) (hi : (i.arwValid && s.arwReady) = false) :
    (s.next i).phase.kind = .idle := by
  rw [State.next_phase]
  cases hphase : s.phase with
  | setup =>
    have hvalid : i.arwValid = false := by simpa [State.arwReady, hphase] using hi
    have hsm : s.sm i = s.setup i := by simp [State.sm, hphase]
    simp only [hsm, State.setup, hvalid, Bool.false_eq_true, if_false]
    split_ifs
    · rfl
    · rfl
    · rfl
    · exact h
  | init1 | init2 | init3 | init4 | spiCmdReadStatus | spiCmdErase4kWaitReadStatus =>
    cases hready : s.spiSend.ready <;> simp [State.sm, hphase, hready, Phase.kind]
  | spiCmdStatus | spiCmdErase4kWel | spiCmdErase4k | spiCmdErase4kWait2 =>
    cases hready : s.spiCmd.ready <;> simp [State.sm, hphase, hready, Phase.kind]
  | spiCmdReadStatusResponse | spiCmdErase4kWait =>
    rw [State.sm, hphase]
    rfl
  | spiCmdErase4kWaitResponse =>
    rw [State.sm, hphase]
    dsimp only
    split_ifs <;> rfl
  | _ => simp [hphase, Phase.kind] at h

/-- A request is accepted: its kind decides where the bridge goes. -/
theorem next_accept (h : (i.arwValid && s.arwReady) = true) :
    (s.next i).arw = i.arw ∧ (s.next i).lenBurst = i.arw.len ∧
      (s.next i).phase =
        if i.arw.write && s.qspiCtrlWriteEnabled then .spiCmdProgramWel else .spiCmdRead := by
  obtain ⟨hvalid, hready⟩ := Bool.and_eq_true_iff.mp h
  have hphase : s.phase = .setup := by simpa [State.arwReady] using hready
  have hsm : s.sm i = s.setup i := by simp [State.sm, hphase]
  rw [State.next_phase, State.next_arw, State.next_lenBurst, hsm, State.setup, if_pos hvalid]
  split_ifs with hwrite henabled henabled
  · exact ⟨rfl, rfl, rfl⟩
  · exact absurd hwrite henabled
  · exact absurd henabled hwrite
  · exact ⟨rfl, rfl, rfl⟩

/-- A read that does not put out a beat. -/
theorem next_read_wait (h : s.phase.kind = .read) (hr : (s.rValid && i.rReady) = false) :
    (s.next i).phase.kind = .read ∧ (s.next i).lenBurst = s.lenBurst := by
  rw [State.next_phase, State.next_lenBurst]
  cases hphase : s.phase with
  | spiCmdRead => cases hready : s.spiCmd.ready <;> simp [State.sm, hphase, hready, Phase.kind]
  | qpiCmdRead | qpiCmdReadSetup =>
    cases hready : s.qpiCmd.ready <;> simp [State.sm, hphase, hready, Phase.kind]
  | qpiRead => cases hready : s.qpiRead.ready <;> simp [State.sm, hphase, hready, Phase.kind]
  | qpiReadRepeat => simp [State.sm, hphase, Phase.kind]
  | qpiReadResponse =>
    have hready : i.rReady = false := by simpa [State.rValid, hphase] using hr
    simp [State.sm, hphase, hready, Phase.kind]
  | _ => simp [hphase, Phase.kind] at h

/-- A beat of a read. -/
theorem next_read_beat (hr : (s.rValid && i.rReady) = true) :
    (s.lenBurst = 0 ∧ (s.next i).phase.kind = .idle) ∨
      (s.lenBurst ≠ 0 ∧ (s.next i).phase.kind = .read ∧
        (s.next i).lenBurst = s.lenBurst - 1) := by
  obtain ⟨hvalid, hready⟩ := Bool.and_eq_true_iff.mp hr
  have hphase : s.phase = .qpiReadResponse := by simpa [State.rValid] using hvalid
  rw [State.next_phase, State.next_lenBurst]
  simp only [State.sm, hphase, hready, if_true, State.isEndBurst, decide_eq_true_eq]
  split_ifs with hend
  · exact Or.inl ⟨hend, rfl⟩
  · exact Or.inr ⟨hend, rfl, rfl⟩

/-- A write stays with its request until it takes the last word. -/
theorem next_program (h : s.phase.kind = .program) :
    (s.next i).arw = s.arw ∧
      (s.next i).phase.kind = if s.wReady && s.programEnd i then .response else .program := by
  rw [State.next_phase, State.next_arw]
  cases hphase : s.phase with
  | spiCmdProgramWel | spiCmdProgram =>
    cases hready : s.spiCmd.ready <;> simp [State.sm, hphase, hready, Phase.kind, State.wReady]
  | spiProgram =>
    cases hready : s.spiSend.ready <;> cases hend : s.programEnd i <;>
      simp [State.sm, hphase, hready, hend, Phase.kind, State.wReady]
  | _ => simp [hphase, Phase.kind] at h

theorem next_response (h : s.phase.kind = .response) :
    (s.next i).arw = s.arw ∧
      (s.next i).phase.kind = if i.bReady then .idle else .response := by
  rw [State.next_phase, State.next_arw]
  cases hphase : s.phase with
  | spiProgramResponse =>
    cases hready : i.bReady <;>
      simp [State.sm, hphase, hready, Phase.kind, State.setProgress, State.setCMDProgram]
  | _ => simp [hphase, Phase.kind] at h

end Steps

/-! ## Section 3: The discipline is kept -/

theorem pos_of_ne_zero {w : ℕ} {x : BitVec w} (h : x ≠ 0) : 0 < x.toNat :=
  Nat.pos_of_ne_zero fun h0 => h (BitVec.eq_of_toNat_eq h0)

theorem toNat_pred {w : ℕ} {x : BitVec w} (h : x ≠ 0) : (x - 1).toNat = x.toNat - 1 := by
  have hpos := pos_of_ne_zero h
  have hone : (1 : BitVec w).toNat = 1 := Nat.mod_eq_of_lt (Nat.lt_of_le_of_lt hpos x.isLt)
  rw [BitVec.toNat_sub_of_le (by rw [BitVec.le_def, hone]; exact hpos), hone]

/-- What the monitor shows in each kind of phase. -/
def Bus.Inv (u : Bus) : Prop :=
  match u.bridge.phase.kind with
  | .idle => u.monitor.Complete
  | .read =>
    ∃ q, u.monitor.request = some q ∧ q.write = false ∧
      u.monitor.r + u.bridge.lenBurst.toNat = q.len.toNat ∧ u.monitor.w = 0 ∧ u.monitor.b = 0
  | .program =>
    u.monitor.request = some u.bridge.arw ∧ u.bridge.arw.write = true ∧ u.monitor.r = 0 ∧
      u.monitor.w ≤ u.bridge.arw.len.toNat ∧ u.monitor.b = 0
  | .response =>
    u.monitor.request = some u.bridge.arw ∧ u.bridge.arw.write = true ∧ u.monitor.r = 0 ∧
      u.monitor.w = u.bridge.arw.len.toNat + 1 ∧ u.monitor.b = 0

theorem Monitor.Complete.lawful {m : Monitor} (h : m.Complete) : m.Lawful := by
  unfold Monitor.Complete at h
  unfold Monitor.Lawful
  cases hq : m.request with
  | none => simpa [hq] using h
  | some q =>
    cases hw : q.write with
    | false =>
      simp only [hq, hw, Bool.false_eq_true, if_false] at h ⊢
      exact ⟨h.1.le, h.2⟩
    | true =>
      simp only [hq, hw, if_true] at h ⊢
      exact ⟨h.1, h.2.1.le, h.2.2.le, fun _ => h.2.1⟩

namespace Bus

variable {u : Bus} {i : Input}

theorem Inv.of_idle (h : u.Inv) (hk : u.bridge.phase.kind = .idle) : u.monitor.Complete := by
  rw [Inv, hk] at h
  exact h

/-- In every phase the counts are lawful. -/
theorem Inv.lawful (h : u.Inv) : u.monitor.Lawful := by
  unfold Inv at h
  cases hk : u.bridge.phase.kind with
  | idle =>
    rw [hk] at h
    exact Monitor.Complete.lawful h
  | read =>
    rw [hk] at h
    obtain ⟨q, hq, hw, hr, hrest⟩ := h
    simp only [Monitor.Lawful, hq, hw, Bool.false_eq_true, if_false]
    exact ⟨by omega, hrest⟩
  | program =>
    rw [hk] at h
    obtain ⟨hq, hw, hr, hwords, hb⟩ := h
    simp only [Monitor.Lawful, hq, hw, if_true]
    exact ⟨hr, by omega, by omega, by omega⟩
  | response =>
    rw [hk] at h
    obtain ⟨hq, hw, hr, hwords, hb⟩ := h
    simp only [Monitor.Lawful, hq, hw, if_true]
    exact ⟨hr, hwords.le, by omega, fun _ => hwords⟩

/-- Each channel is active in phases of its own kind only. -/
theorem fires_of_idle (hk : u.bridge.phase.kind = .idle) :
    u.rFire i = false ∧ u.wFire i = false ∧ u.bFire i = false := by
  unfold rFire wFire bFire State.rValid State.wReady State.bValid
  cases hp : u.bridge.phase <;> simp [hp, Phase.kind] at hk ⊢

theorem fires_of_read (hk : u.bridge.phase.kind = .read) :
    u.arwFire i = false ∧ u.wFire i = false ∧ u.bFire i = false := by
  unfold arwFire wFire bFire State.arwReady State.wReady State.bValid
  cases hp : u.bridge.phase <;> simp [hp, Phase.kind] at hk ⊢

theorem fires_of_program (hk : u.bridge.phase.kind = .program) :
    u.arwFire i = false ∧ u.rFire i = false ∧ u.bFire i = false := by
  unfold arwFire rFire bFire State.arwReady State.rValid State.bValid
  cases hp : u.bridge.phase <;> simp [hp, Phase.kind] at hk ⊢

theorem fires_of_response (hk : u.bridge.phase.kind = .response) :
    u.arwFire i = false ∧ u.rFire i = false ∧ u.wFire i = false ∧ u.bFire i = i.bReady := by
  unfold arwFire rFire wFire bFire State.arwReady State.rValid State.wReady State.bValid
  cases hp : u.bridge.phase <;> simp [hp, Phase.kind] at hk ⊢

/-- An idle bridge waits, or takes a request and begins to count anew. -/
theorem Inv.step_idle (h : u.Inv) (hheed : Heeded u i) (hk : u.bridge.phase.kind = .idle) :
    (u.step i).Inv := by
  show Bus.Inv ⟨u.bridge.next i, u.count i⟩
  obtain ⟨hr, hw, hb⟩ := fires_of_idle (i := i) hk
  have hcomplete := h.of_idle hk
  cases hfire : u.arwFire i with
  | false =>
    have hcount : u.count i = u.monitor := by simp [count, hfire, hr, hw, hb]
    rw [Inv, next_idle hk hfire, hcount]
    exact hcomplete
  | true =>
    obtain ⟨harw, hlen, hphase⟩ := next_accept hfire
    have hcount : u.count i = ⟨some i.arw, 0, 0, 0⟩ := if_pos hfire
    cases hwrite : i.arw.write with
    | false =>
      rw [hwrite, Bool.false_and, if_neg Bool.false_ne_true] at hphase
      rw [Inv, hphase, hcount, hlen]
      exact ⟨i.arw, rfl, hwrite, Nat.zero_add _, rfl, rfl⟩
    | true =>
      -- writing is enabled, so the request is taken for a write
      rw [hwrite, hheed.1 hfire hwrite] at hphase
      rw [Inv, hphase, hcount, harw]
      exact ⟨rfl, hwrite, rfl, Nat.zero_le _, rfl⟩

/-- A word that is read takes one from `lenBurst`; the one at 0 is the last. -/
theorem Inv.step_read (h : u.Inv) (hk : u.bridge.phase.kind = .read) : (u.step i).Inv := by
  show Bus.Inv ⟨u.bridge.next i, u.count i⟩
  obtain ⟨ha, hw, hb⟩ := fires_of_read (i := i) hk
  rw [Inv, hk] at h
  obtain ⟨q, hq, hwrite, hr, hw0, hb0⟩ := h
  cases hfire : u.rFire i with
  | false =>
    obtain ⟨hkind, hlen⟩ := next_read_wait hk hfire
    have hcount : u.count i = u.monitor := by simp [count, ha, hfire, hw, hb]
    rw [Inv, hkind, hcount, hlen]
    exact ⟨q, hq, hwrite, hr, hw0, hb0⟩
  | true =>
    have hcount : u.count i = { u.monitor with r := u.monitor.r + 1 } := by
      simp [count, ha, hfire, hw, hb]
    rcases next_read_beat hfire with ⟨hzero, hkind⟩ | ⟨hne, hkind, hlen⟩
    · -- the last word
      rw [Inv, hkind, hcount]
      rw [hzero] at hr
      simp only [Monitor.Complete, hq, hwrite, Bool.false_eq_true, if_false]
      exact ⟨congrArg (· + 1) hr, hw0, hb0⟩
    · have hpos := pos_of_ne_zero hne
      rw [Inv, hkind, hcount, hlen, toNat_pred hne]
      exact ⟨q, hq, hwrite, by dsimp only; omega, hw0, hb0⟩

/-- The bridge ends a burst of writes with the word that is the last one of the request. -/
theorem programEnd_iff (hwords : u.monitor.w ≤ u.bridge.arw.len.toNat)
    (hbeat : i.wLast = true ↔ u.monitor.w = u.bridge.arw.len.toNat) :
    u.bridge.programEnd i = true ↔ u.monitor.w = u.bridge.arw.len.toNat := by
  rw [State.programEnd, Bool.or_eq_true, hbeat, decide_eq_true_iff]
  constructor
  · rintro (hw | h0)
    · exact hw
    · -- a request for one word
      rw [h0] at hwords ⊢
      exact Nat.le_zero.mp hwords
  · exact Or.inl

/-- A word that is taken counts, and the last one ends the burst. -/
theorem Inv.step_program (h : u.Inv) (hlast : LastBeat u i) (hheed : Heeded u i)
    (hk : u.bridge.phase.kind = .program) : (u.step i).Inv := by
  show Bus.Inv ⟨u.bridge.next i, u.count i⟩
  obtain ⟨ha, hr, hb⟩ := fires_of_program (i := i) hk
  rw [Inv, hk] at h
  obtain ⟨hq, hwrite, hr0, hwords, hb0⟩ := h
  obtain ⟨harw, hkind⟩ := next_program (i := i) hk
  have hcount : u.count i = { u.monitor with w := u.monitor.w + (u.wFire i).toNat } := by
    simp [count, ha, hr, hb]
  cases hready : u.bridge.wReady with
  | false =>
    rw [hready, Bool.false_and, if_neg Bool.false_ne_true] at hkind
    rw [Inv, hkind, hcount, harw, wFire, hready, Bool.and_false]
    exact ⟨hq, hwrite, hr0, hwords, hb0⟩
  | true =>
    cases hvalid : i.wValid with
    | false =>
      -- a word that the master did not offer, but not the last one
      have hend := hheed.2 hready hvalid
      rw [hend, Bool.and_false, if_neg Bool.false_ne_true] at hkind
      rw [Inv, hkind, hcount, harw, wFire, hvalid, Bool.false_and]
      exact ⟨hq, hwrite, hr0, hwords, hb0⟩
    | true =>
      have hbeat : i.wLast = true ↔ u.monitor.w = u.bridge.arw.len.toNat := by
        rw [LastBeat, hq] at hlast
        exact hlast hwrite hwords hvalid
      have hend := programEnd_iff hwords hbeat
      rw [hready, Bool.true_and] at hkind
      rw [Inv, hkind, hcount, harw, wFire, hvalid, hready]
      split_ifs with hdone
      · -- the last word: only the response is missing
        exact ⟨hq, hwrite, hr0, congrArg (· + 1) (hend.mp hdone), hb0⟩
      · have hne := mt hend.mpr hdone
        exact ⟨hq, hwrite, hr0, Nat.lt_of_le_of_ne hwords hne, hb0⟩

/-- The response is offered until the master takes it. -/
theorem Inv.step_response (h : u.Inv) (hk : u.bridge.phase.kind = .response) :
    (u.step i).Inv := by
  show Bus.Inv ⟨u.bridge.next i, u.count i⟩
  obtain ⟨ha, hr, hw, hb⟩ := fires_of_response (i := i) hk
  rw [Inv, hk] at h
  obtain ⟨hq, hwrite, hr0, hwords, hb0⟩ := h
  obtain ⟨harw, hkind⟩ := next_response (i := i) hk
  have hcount : u.count i = { u.monitor with b := u.monitor.b + i.bReady.toNat } := by
    simp [count, ha, hr, hw, hb]
  cases hready : i.bReady with
  | false =>
    rw [hready, if_neg Bool.false_ne_true] at hkind
    rw [Inv, hkind, hcount, harw, hready]
    exact ⟨hq, hwrite, hr0, hwords, hb0⟩
  | true =>
    rw [hready, if_pos rfl] at hkind
    rw [Inv, hkind, hcount, hready]
    simp only [Monitor.Complete, hq, hwrite, if_true]
    exact ⟨hr0, hwords, congrArg (· + 1) hb0⟩

/-- **Step lemma.**  Beats and phases go together. -/
theorem Inv.step (h : u.Inv) (hlast : LastBeat u i) (hheed : Heeded u i) : (u.step i).Inv := by
  cases hk : u.bridge.phase.kind with
  | idle => exact h.step_idle hheed hk
  | read => exact h.step_read hk
  | program => exact h.step_program hlast hheed hk
  | response => exact h.step_response hk

/-- A cycle of a bus in order is served. -/
theorem Inv.served (h : u.Inv) (hlast : LastBeat u i) (hheed : Heeded u i) : Served u i := by
  refine ⟨(h.step hlast hheed).lawful, fun hfire => h.of_idle ?_⟩
  have hready := (Bool.and_eq_true_iff.mp hfire).2
  have hphase : u.bridge.phase = .setup := by simpa [State.arwReady] using hready
  rw [hphase]
  rfl

theorem inv_reset (x : State) : (reset x).Inv := ⟨rfl, rfl, rfl⟩

end Bus

/-! ## Section 4: Requests come to an end -/

/-- How many more cycles a sender needs at most. -/
def SendSPI.rank (s : SendSPI) : ℕ :=
  if s.ready then 0
  else
    match s.phase with
    | .idle => 34
    | .send => s.curBit.toNat + 2
    | .done => 1

def SendCMD.rank {w : ℕ} (s : SendCMD w) : ℕ :=
  if s.ready then 0
  else
    match s.phase with
    | .idle => 2 ^ w + 10
    | .sendCmd => s.curCycle.toNat + 10
    | .sendM => s.curCycle.toNat + 1
    | .done => 0

def ReadWord32.rank (s : ReadWord32) : ℕ := if s.ready then 0 else s.curCycle.toNat + 1

section Rank

theorem SendSPI.rank_le (s : SendSPI) : s.rank ≤ 34 := by
  unfold rank
  have hlt := s.curBit.isLt
  split_ifs
  · exact Nat.zero_le _
  · cases s.phase <;> dsimp only <;> omega

theorem SendCMD.rank_le {w : ℕ} (s : SendCMD w) : s.rank ≤ 2 ^ w + 10 := by
  unfold rank
  have hlt := s.curCycle.isLt
  split_ifs
  · exact Nat.zero_le _
  · cases s.phase <;> dsimp only <;> omega

theorem ReadWord32.rank_le (s : ReadWord32) : s.rank ≤ 8 := by
  unfold rank
  have hlt := s.curCycle.isLt
  split_ifs <;> omega

theorem SendSPI.rank_next {s : SendSPI} (h : s.ready = false) (lenBits : BitVec 5) (io1 : Bool) :
    (s.next true lenBits io1).rank < s.rank := by
  cases hp : s.phase with
  | idle =>
    have hlt := lenBits.isLt
    simp only [next, rank, h, hp, if_true, Bool.false_eq_true, if_false]
    omega
  | send =>
    by_cases h0 : s.curBit = 0
    · simp [next, rank, h, hp, h0]
    · have hpred := toNat_pred h0
      have hpos := pos_of_ne_zero h0
      simp only [next, rank, h, hp, h0, if_true, Bool.false_eq_true, if_false, hpred]
      omega
  | done => simp [next, rank, h, hp]

theorem SendCMD.rank_next {w : ℕ} {s : SendCMD w} (h : s.ready = false) (hp : s.phase ≠ .done)
    (lenCycles : BitVec w) (mBits : BitVec 3) (mBitsPresent : Bool) :
    (s.next true lenCycles mBits mBitsPresent).rank < s.rank := by
  cases hphase : s.phase with
  | idle =>
    have hlt := lenCycles.isLt
    simp only [next, rank, h, hphase, if_true, Bool.false_eq_true, if_false]
    omega
  | sendCmd =>
    by_cases h0 : s.curCycle = 0
    · have hm : (mBits.setWidth w).toNat ≤ mBits.toNat := by
        rw [BitVec.toNat_setWidth]
        exact Nat.mod_le _ _
      have hlt := mBits.isLt
      cases mBitsPresent with
      | false => simp [next, rank, h, hphase, h0]
      | true =>
        simp only [next, rank, h, hphase, h0, if_true, Bool.false_eq_true, if_false]
        omega
    · have hpred := toNat_pred h0
      have hpos := pos_of_ne_zero h0
      simp only [next, rank, h, hphase, h0, if_true, Bool.false_eq_true, if_false, hpred]
      omega
  | sendM =>
    by_cases h0 : s.curCycle = 0
    · simp [next, rank, h, hphase, h0]
    · have hpred := toNat_pred h0
      have hpos := pos_of_ne_zero h0
      simp only [next, rank, h, hphase, h0, if_true, Bool.false_eq_true, if_false, hpred]
      omega
  | done => exact absurd hphase hp

theorem SendCMD.next_ne_done {w : ℕ} {s : SendCMD w} (hp : s.phase ≠ .done) (valid : Bool)
    (lenCycles : BitVec w) (mBits : BitVec 3) (mBitsPresent : Bool) :
    (s.next valid lenCycles mBits mBitsPresent).phase ≠ .done := by
  unfold next
  cases valid with
  | false => simp
  | true =>
    cases hphase : s.phase with
    | idle => simp
    | sendCmd =>
      dsimp only
      split_ifs <;> simp
    | sendM =>
      dsimp only
      split_ifs <;> simp
    | done => exact absurd hphase hp

theorem ReadWord32.rank_next {s : ReadWord32} (h : s.ready = false) :
    (s.next true).rank < s.rank := by
  by_cases h0 : s.curCycle = 0
  · simp [next, rank, h, h0]
  · have hpred := toNat_pred h0
    have hpos := pos_of_ne_zero h0
    have hnot : (decide (s.curCycle = 0) || false) = false := by
      rw [decide_eq_false h0]
      rfl
    simp only [next, rank, h, hnot, if_true, Bool.false_eq_true, if_false, hpred]
    omega

end Rank

namespace Bus

/-- How many more cycles the request in progress needs at most, if the master is prompt. -/
def rank (u : Bus) : ℕ :=
  let s := u.bridge
  let beats := s.lenBurst.toNat * 11
  let words := (s.arw.len.toNat + 1 - u.monitor.w) * 35
  match s.phase with
  | .qpiCmdReadSetup => beats + 31 + s.qpiCmd.rank
  | .qpiCmdRead => beats + 12 + s.qpiCmd.rank
  | .spiCmdRead => beats + 12 + s.spiCmd.rank
  | .qpiReadRepeat => beats + 11
  | .qpiRead => beats + 2 + s.qpiRead.rank
  | .qpiReadResponse => beats + 1
  | .spiCmdProgramWel => words + 79 + s.spiCmd.rank
  | .spiCmdProgram => words + 36 + s.spiCmd.rank
  | .spiProgram => words + 1 + s.spiSend.rank
  | .spiProgramResponse => 1
  | _ => 0

/-- No sender of commands is ever in the phase that nothing leaves. -/
def Sound (u : Bus) : Prop :=
  u.bridge.spiCmd.phase ≠ .done ∧ u.bridge.qpiCmd.phase ≠ .done

theorem Sound.step {u : Bus} (h : u.Sound) (i : Input) : (u.step i).Sound :=
  ⟨SendCMD.next_ne_done h.1 _ _ _ _, SendCMD.next_ne_done h.2 _ _ _ _⟩

theorem sound_reset (x : State) : (reset x).Sound :=
  ⟨show SendCMDPhase.idle ≠ .done by decide, show SendCMDPhase.idle ≠ .done by decide⟩

variable {u : Bus} {i : Input}

/-- A command that is being sent gets nearer to its end. -/
theorem qpiCmd_rank_next (hs : u.Sound) (i : Input) (hvalid : u.bridge.qpiCmdValid = true)
    (hready : u.bridge.qpiCmd.ready = false) :
    (u.bridge.next i).qpiCmd.rank < u.bridge.qpiCmd.rank := by
  simp only [State.next, hvalid]
  exact SendCMD.rank_next hready hs.2 _ _ _

theorem spiCmd_rank_next (hs : u.Sound) (i : Input) (hvalid : u.bridge.spiCmdValid = true)
    (hready : u.bridge.spiCmd.ready = false) :
    (u.bridge.next i).spiCmd.rank < u.bridge.spiCmd.rank := by
  simp only [State.next, hvalid]
  exact SendCMD.rank_next hready hs.1 _ _ _

/-- A read in progress gets nearer to its end. -/
theorem rank_step_read (hs : u.Sound) (hk : u.bridge.phase.kind = .read) (hp : Prompt u i) :
    (u.step i).rank < u.rank := by
  show rank ⟨u.bridge.next i, u.count i⟩ < u.rank
  cases hphase : u.bridge.phase with
  | qpiCmdReadSetup =>
    cases hready : u.bridge.qpiCmd.ready with
    | false =>
      -- the sender of the command gets nearer to its end
      have hnext := qpiCmd_rank_next hs i (by simp [State.qpiCmdValid, hphase, hready]) hready
      simp only [rank, State.next_phase, State.next_lenBurst, State.sm, hphase, hready,
        State.await_false]
      omega
    | true =>
      -- the next stage is begun, whose cycles are counted already
      have hle := (u.bridge.next i).qpiCmd.rank_le
      simp only [rank, State.next_phase, State.next_lenBurst, State.sm, hphase, hready,
        State.await_true]
      omega
  | qpiCmdRead =>
    cases hready : u.bridge.qpiCmd.ready with
    | false =>
      have hnext := qpiCmd_rank_next hs i (by simp [State.qpiCmdValid, hphase, hready]) hready
      simp only [rank, State.next_phase, State.next_lenBurst, State.sm, hphase, hready,
        State.await_false]
      omega
    | true =>
      have hle := (u.bridge.next i).qpiRead.rank_le
      simp only [rank, State.next_phase, State.next_lenBurst, State.sm, hphase, hready,
        State.await_true]
      omega
  | spiCmdRead =>
    cases hready : u.bridge.spiCmd.ready with
    | false =>
      have hnext := spiCmd_rank_next hs i (by simp [State.spiCmdValid, hphase, hready]) hready
      simp only [rank, State.next_phase, State.next_lenBurst, State.sm, hphase, hready,
        State.await_false]
      omega
    | true =>
      have hle := (u.bridge.next i).qpiRead.rank_le
      simp only [rank, State.next_phase, State.next_lenBurst, State.sm, hphase, hready,
        State.await_true]
      omega
  | qpiReadRepeat =>
    -- the reader of a word is started anew
    have hle := (u.bridge.next i).qpiRead.rank_le
    simp only [rank, State.next_phase, State.next_lenBurst, State.sm, hphase]
    omega
  | qpiRead =>
    cases hready : u.bridge.qpiRead.ready with
    | false =>
      have hnext : (u.bridge.next i).qpiRead.rank < u.bridge.qpiRead.rank := by
        simp only [State.next, State.qpiReadValid, hphase, hready, Bool.not_false]
        exact ReadWord32.rank_next hready
      simp only [rank, State.next_phase, State.next_lenBurst, State.sm, hphase, hready,
        State.await_false]
      omega
    | true =>
      simp only [rank, State.next_phase, State.next_lenBurst, State.sm, hphase, hready,
        State.await_true]
      omega
  | qpiReadResponse =>
    -- the master takes the word; it was the last one, or there is one less to come
    simp only [rank, State.next_phase, State.next_lenBurst, State.sm, hphase, hp.1, if_true,
      State.isEndBurst, decide_eq_true_eq]
    split_ifs with hend
    · exact Nat.succ_pos _
    · have hpos := pos_of_ne_zero hend
      simp only [toNat_pred hend]
      omega
  | _ => simp [hphase, Phase.kind] at hk

/-- A write in progress gets nearer to its end. -/
theorem rank_step_program (h : u.Inv) (hs : u.Sound) (hk : u.bridge.phase.kind = .program)
    (hp : Prompt u i) : (u.step i).rank < u.rank := by
  show rank ⟨u.bridge.next i, u.count i⟩ < u.rank
  obtain ⟨ha, hr, hb⟩ := fires_of_program (i := i) hk
  have hcount : (u.count i).w = u.monitor.w + (u.wFire i).toNat := by
    simp [count, ha]
  rw [Inv, hk] at h
  obtain ⟨hq, hwrite, hr0, hwords, hb0⟩ := h
  cases hphase : u.bridge.phase with
  | spiCmdProgramWel =>
    cases hready : u.bridge.spiCmd.ready with
    | false =>
      have hnext := spiCmd_rank_next hs i (by simp [State.spiCmdValid, hphase, hready]) hready
      simp only [rank, State.next_phase, State.next_arw, State.sm, hphase, hready,
        State.await_false, hcount]
      omega
    | true =>
      have hle := (u.bridge.next i).spiCmd.rank_le
      simp only [rank, State.next_phase, State.next_arw, State.sm, hphase, hready,
        State.await_true, hcount]
      omega
  | spiCmdProgram =>
    cases hready : u.bridge.spiCmd.ready with
    | false =>
      have hnext := spiCmd_rank_next hs i (by simp [State.spiCmdValid, hphase]) hready
      simp only [rank, State.next_phase, State.next_arw, State.sm, hphase, hready,
        State.await_false, hcount]
      omega
    | true =>
      have hle := (u.bridge.next i).spiSend.rank_le
      simp only [rank, State.next_phase, State.next_arw, State.sm, hphase, hready,
        State.await_true, hcount]
      omega
  | spiProgram =>
    cases hready : u.bridge.spiSend.ready with
    | false =>
      have hnext : (u.bridge.next i).spiSend.rank < u.bridge.spiSend.rank := by
        simp only [State.next, State.spiSendValid, hphase, hready, Bool.not_false, Bool.true_or]
        exact SendSPI.rank_next hready _ _
      simp only [rank, State.next_phase, State.next_arw, State.sm, hphase, hready, Bool.false_and,
        State.await_false, hcount]
      omega
    | true =>
      -- the word that is on offer is taken
      have hfire : u.wFire i = true := by
        simp [wFire, hp.2.2.1, State.wReady, hphase, hready]
      have hle := (u.bridge.next i).spiSend.rank_le
      simp only [rank, State.next_phase, State.next_arw, State.sm, hphase, hready, Bool.true_and,
        hcount, hfire, Bool.toNat_true]
      cases u.bridge.programEnd i with
      | false =>
        simp only [State.await_false, hphase]
        omega
      | true =>
        simp only [State.await_true]
        omega
  | _ => simp [hphase, Phase.kind] at hk

theorem rank_step_response (hk : u.bridge.phase.kind = .response) (hp : Prompt u i) :
    (u.step i).rank < u.rank := by
  show rank ⟨u.bridge.next i, u.count i⟩ < u.rank
  cases hphase : u.bridge.phase with
  | spiProgramResponse =>
    simp [rank, State.next_phase, State.sm, hphase, hp.2.1, State.setCMDProgram,
      State.setProgress]
  | _ => simp [hphase, Phase.kind] at hk

/-- **Step lemma.**  With a prompt master a request gets nearer to its end in every cycle. -/
theorem rank_step (h : u.Inv) (hs : u.Sound) (hk : u.bridge.phase.kind ≠ .idle)
    (hp : Prompt u i) : (u.step i).rank < u.rank := by
  cases hkind : u.bridge.phase.kind with
  | idle => exact absurd hkind hk
  | read => exact rank_step_read hs hkind hp
  | program => exact rank_step_program h hs hkind hp
  | response => exact rank_step_response hkind hp

theorem rank_pos (hk : u.bridge.phase.kind ≠ .idle) : 0 < u.rank := by
  unfold rank
  cases hphase : u.bridge.phase <;> rw [hphase] at hk <;>
    first | exact absurd rfl hk | (simp only [hphase]; omega)

/-- A prompt master heeds the bridge as long as a request is in progress. -/
theorem heeded_of_prompt (hk : u.bridge.phase.kind ≠ .idle) (hp : Prompt u i) :
    u.arwFire i = false ∧ Heeded u i := by
  have hfire : u.arwFire i = false := by
    cases hkind : u.bridge.phase.kind with
    | idle => exact absurd hkind hk
    | read => exact (fires_of_read hkind).1
    | program => exact (fires_of_program hkind).1
    | response => exact (fires_of_response hkind).1
  refine ⟨hfire, fun h => ?_, fun _ h => ?_⟩
  · rw [hfire] at h
    cases h
  · rw [hp.2.2.1] at h
    cases h

/-- **Run lemma.**  A prompt master brings the request in progress to its end. -/
theorem exists_complete (h : u.Inv) (hs : u.Sound) {js : List Input}
    (hrun : RunMeets step Prompt u js) (hlen : u.rank ≤ js.length) :
    ∃ js', js' <+: js ∧ (run step u js').monitor.Complete ∧
      (run step u js').monitor.request = u.monitor.request := by
  induction js generalizing u with
  | nil =>
    have hzero : u.rank = 0 := Nat.le_zero.mp hlen
    refine ⟨[], List.nil_prefix, h.of_idle ?_, rfl⟩
    by_contra hk
    exact Nat.ne_of_gt (rank_pos hk) hzero
  | cons i js ih =>
    by_cases hk : u.bridge.phase.kind = .idle
    · exact ⟨[], List.nil_prefix, h.of_idle hk, rfl⟩
    · obtain ⟨hfire, hheed⟩ := heeded_of_prompt hk hrun.1
      have hlt := rank_step h hs hk hrun.1
      have hle : (u.step i).rank ≤ js.length := by
        rw [List.length_cons] at hlen
        omega
      obtain ⟨js', hpre, hcomplete, hreq⟩ :=
        ih (h.step hrun.1.2.2.2 hheed) (hs.step i) hrun.2 hle
      refine ⟨i :: js', (List.prefix_cons_inj i).mpr hpre, hcomplete, hreq.trans ?_⟩
      simp [step, count, hfire]

end Bus

/-- In a run in which writes are accepted with the write enable on and words are taken when they
are offered, every request gets its own beats and only those before the next one is accepted;
and a prompt master gets them all within a bounded number of cycles. -/
theorem qspiDiscipline (x : State) {is : List Input}
    (hrun : RunMeets Bus.step (fun u i => LastBeat u i ∧ Heeded u i) (Bus.reset x) is) :
    RunMeets Bus.step Served (Bus.reset x) is ∧
      ∃ n, ∀ js, RunMeets Bus.step Prompt (run Bus.step (Bus.reset x) is) js → n ≤ js.length →
        ∃ js', js' <+: js ∧
          (run Bus.step (run Bus.step (Bus.reset x) is) js').monitor.Complete ∧
          (run Bus.step (run Bus.step (Bus.reset x) is) js').monitor.request =
            (run Bus.step (Bus.reset x) is).monitor.request := by
  have hstep : ∀ u i, u.Inv ∧ u.Sound → LastBeat u i ∧ Heeded u i →
      (u.step i).Inv ∧ (u.step i).Sound :=
    fun u i h hok => ⟨h.1.step hok.1 hok.2, h.2.step i⟩
  have hinit : (Bus.reset x).Inv ∧ (Bus.reset x).Sound := ⟨Bus.inv_reset x, Bus.sound_reset x⟩
  constructor
  · exact hrun.of_invariant (fun u => u.Inv ∧ u.Sound) hstep
      (fun u i h hok => h.1.served hok.1 hok.2) hinit
  · obtain ⟨hinv, hsound⟩ := hrun.invariant (fun u => u.Inv ∧ u.Sound) hstep hinit
    exact ⟨_, fun js hjs hlen => Bus.exists_complete hinv hsound hjs hlen⟩

/-- Registers full of zeros. -/
def zeros : State :=
  ⟨.init1, 0, ⟨false, 0⟩, 0, ⟨0, .idle, 0, false⟩, ⟨0, .idle, false⟩, ⟨0, .idle, false⟩, ⟨0, false⟩⟩

/-- A master that asks for one word all the time, after it has set the control register. -/
def asking (write : Bool) (word : BitVec 32) (n : ℕ) : List Input :=
  ⟨false, ⟨write, 0⟩, true, true, true, true, some word, false⟩ ::
    List.replicate n ⟨true, ⟨write, 0⟩, true, true, true, true, none, false⟩

/-- Two writes of one word with the write enable on, up to the end of the second one. -/
theorem qspiDiscipline_writes :
    RunMeets Bus.step Served (Bus.reset zeros) (asking true 0x80000000 210) ∧
      (run Bus.step (Bus.reset zeros) (asking true 0x80000000 210)).monitor =
        ⟨some ⟨true, 0⟩, 0, 1, 1⟩ :=
  ⟨(qspiDiscipline zeros (by decide +kernel)).1, by decide +kernel⟩

/-- A write with the write enable off: the bridge puts out a word on the read channel. -/
theorem qspiDiscipline_disabled :
    ¬ ∀ (x : State) (is : List Input), RunMeets Bus.step LastBeat (Bus.reset x) is →
      RunMeets Bus.step Served (Bus.reset x) is := by
  intro hall
  have hserved := hall zeros (asking true 0 110) (by decide +kernel)
  exact absurd hserved (by decide +kernel)

end Karnix.Qspi
