import Karnix.Library.Runs
import Karnix.Modbus.Transport

/-!
# The configuration lock

`reg_config_write` guards the configuration registers: a request can write them only while
it is not zero, and the main loop counts it down once per turn.  Requests over UDP are
executed by the interrupt of the MAC, also while the main loop is between two accesses to the
variable.  The events of a run are requests, in whatever state they arrive and with whatever
the EEPROM does, and single accesses of the main loop.

A request that writes the variable between the load and the store of the main loop is lost:
the store puts back the count-down of the old value.
-/

namespace Karnix.Modbus

open Karnix.Library
open Karnix.Config

variable {b : Build}

/-! ## Section 1: Steps -/

/-- What happens next: a frame is handed to `modbus_recv`, or the main loop makes its next access
to `reg_config_write`. -/
inductive Event where
  | request (io : RequestIo) (rx : Frame) (tx : Memory Byte)
  | access

/-- The next access of `reg_sys_counter++; if(reg_config_write) reg_config_write--;`. -/
def Soc.access (soc : Soc b) : Soc b :=
  match soc.countDown with
  | .start =>
    { soc with
      regSysCounter := soc.regSysCounter + 1
      countDown := if soc.regConfigWrite ≠ 0 then .tested else .start }
  | .tested => { soc with countDown := .loaded soc.regConfigWrite }
  | .loaded w => { soc with regConfigWrite := w - 1, countDown := .start }

def step (soc : Soc b) : Event → Soc b
  | .request io rx tx => (modbusRecv io soc rx tx).soc
  | .access => soc.access

/-- The event ends a turn of the main loop: the test has failed, or the store is made. -/
def EndsTurn (soc : Soc b) : Event → Prop
  | .request .. => False
  | .access => (step soc .access).countDown = .start

instance (soc : Soc b) : (e : Event) → Decidable (EndsTurn soc e)
  | .request .. => isFalse id
  | .access => inferInstanceAs (Decidable (_ = _))

/-- The number of turns of the main loop that end in a run. -/
def turns (soc : Soc b) : List Event → ℕ
  | [] => 0
  | e :: es => (if EndsTurn soc e then 1 else 0) + turns (step soc e) es

/-- The frame is an accepted write of `REG_CONFIG_WRITE`. -/
def Soc.WritesLock (soc : Soc b) (rx : Frame) : Prop :=
  soc.Accepts rx ∧ ((Func.ofCode? rx.func).any Func.isWrite) ∧ rx.regAddr = Reg.configWrite.addr

instance (soc : Soc b) (rx : Frame) : Decidable (soc.WritesLock rx) :=
  inferInstanceAs (Decidable (_ ∧ _ ∧ _))

/-- The value of a four-byte write. -/
def Frame.value (rx : Frame) : BitVec 32 := be32 (rx.data 0) (rx.data 1) (rx.data 2) (rx.data 3)

/-- The event is an accepted write of `REG_CONFIG_WRITE`. -/
def Unlocks (soc : Soc b) : Event → Prop
  | .request _ rx _ => soc.WritesLock rx
  | .access => False

/-- If the event is the store of the main loop, the variable still is what the main loop has
loaded, and that is not zero (or it was one and is zero by now). -/
def Undisturbed (soc : Soc b) : Event → Prop
  | .request .. => True
  | .access => ∀ w, soc.countDown = .loaded w →
      (soc.regConfigWrite = w ∧ w ≠ 0) ∨ (soc.regConfigWrite = 0 ∧ w = 1)

instance (P : BitVec 32 → Prop) [DecidablePred P] :
    (c : CountDown) → Decidable (∀ w, c = .loaded w → P w)
  | .start | .tested => isTrue nofun
  | .loaded w => decidable_of_iff (P w) ⟨fun h _ e => by cases e; exact h, fun h => h w rfl⟩

instance (soc : Soc b) : (e : Event) → Decidable (Undisturbed soc e)
  | .request .. => isTrue trivial
  | .access => inferInstanceAs (Decidable (∀ _, _ → _))

/-! ## Section 2: What a request does to the lock and to the EEPROM -/

/-- An accepted frame stores a register, or it changes nothing. -/
theorem accept_cases (io : RequestIo) (soc : Soc b) (rx : Frame) (tx : Memory Byte) :
    ((Func.ofCode? rx.func).any Func.isWrite = true ∧
        (accept io soc rx tx).2 = (modbusStoreReg io soc rx.regAddr rx.data rx.dataLen).soc) ∨
      ((Func.ofCode? rx.func).any Func.isWrite = false ∧ (accept io soc rx tx).2 = soc) := by
  unfold accept
  cases hfunc : Func.ofCode? rx.func with
  | none => exact Or.inr ⟨rfl, rfl⟩
  | some f =>
    cases f with
    | readCoils | readDiscInput | readHoldRegs | id => exact Or.inr ⟨rfl, rfl⟩
    | writeOneCoilReg | writeOneHoldReg | writeManyCoilReg | writeManyHoldReg =>
      exact Or.inl ⟨rfl, rfl⟩

/-- The configuration registers lie in the guarded range. -/
theorem guarded_of_configField {r : Reg} {data : Memory Byte} {f : Field} {xs : List Byte}
    (h : configField? b data r = some (f, xs)) : r.addr.toNat ≥ 40 ∧ r.addr.toNat < 50 := by
  cases r with
  | ipAddr | gwAddr | netmask | mbusAddr | mbusBaud | macAddr | hubType | configOptions => decide
  | framebuffer | sysCounter | irqCounter | scratch | printText | clearText | color | videoMode
  | audiodac0Buffer | configWrite | reboot => simp [configField?] at h

/-- While the lock is closed no register write reaches the EEPROM. -/
theorem modbusStoreReg_eeprom {io : RequestIo} {soc : Soc b} {reg : BitVec 16}
    {data : Memory Byte} {dataLen : ℕ} (hlock : soc.regConfigWrite = 0) :
    (modbusStoreReg io soc reg data dataLen).soc.eeprom = soc.eeprom := by
  unfold modbusStoreReg
  split_ifs with hguard
  · rfl
  · rcases storeSwitch_cases io soc (Reg.ofAddr? reg) data dataLen with h | ⟨r, f, xs, hr, hf, -⟩
    · exact h.eeprom
    · -- the registers kept in the EEPROM all lie in the guarded range
      have hrange := guarded_of_configField hf
      rw [Reg.addr_of_ofAddr? hr] at hrange
      exact absurd ⟨hrange.1, hrange.2, hlock⟩ hguard

/-- Only a write of `REG_CONFIG_WRITE` changes the lock, and it sets it to its value. -/
theorem modbusStoreReg_lock (io : RequestIo) (soc : Soc b) (reg : BitVec 16)
    (data : Memory Byte) (dataLen : ℕ) :
    (modbusStoreReg io soc reg data dataLen).soc.regConfigWrite =
      if reg = Reg.configWrite.addr then be32 (data 0) (data 1) (data 2) (data 3)
      else soc.regConfigWrite := by
  unfold modbusStoreReg
  split_ifs with hguard hreg hreg
  · -- the number of the lock register is outside the guarded range
    subst hreg
    exact absurd hguard.2.1 (by decide)
  · rfl
  · subst hreg
    rw [Reg.ofAddr?_addr]
    rfl
  · have hne : Reg.ofAddr? reg ≠ some .configWrite := by
      intro h
      exact hreg (Reg.addr_of_ofAddr? h).symm
    rcases storeSwitch_cases io soc (Reg.ofAddr? reg) data dataLen with h | ⟨r, f, xs, -, -, h⟩
    · have hlock := h.lock
      rwa [if_neg hne] at hlock
    · exact h.regConfigWrite

/-- A request changes the lock exactly when it is an accepted write of it. -/
theorem modbusRecv_lock (io : RequestIo) (soc : Soc b) (rx : Frame) (tx : Memory Byte) :
    (soc.WritesLock rx ∧ (modbusRecv io soc rx tx).soc.regConfigWrite = rx.value) ∨
      (¬ soc.WritesLock rx ∧
        (modbusRecv io soc rx tx).soc.regConfigWrite = soc.regConfigWrite) := by
  by_cases hacc : soc.Accepts rx
  · rw [modbusRecv_of_accepts hacc]
    rcases accept_cases io soc rx tx with ⟨hwrite, heff⟩ | ⟨hread, heff⟩
    · rw [heff, modbusStoreReg_lock]
      split_ifs with hreg
      · exact Or.inl ⟨⟨hacc, hwrite, hreg⟩, rfl⟩
      · exact Or.inr ⟨fun h => hreg h.2.2, rfl⟩
    · rw [heff]
      refine Or.inr ⟨fun h => ?_, rfl⟩
      have hwrite := h.2.1
      simp [hread] at hwrite
  · rw [modbusRecv_of_not_accepts hacc]
    exact Or.inr ⟨fun h => hacc h.1, rfl⟩

/-- While the lock is closed no request reaches the EEPROM. -/
theorem modbusRecv_eeprom (io : RequestIo) {soc : Soc b} (rx : Frame) (tx : Memory Byte)
    (hlock : soc.regConfigWrite = 0) : (modbusRecv io soc rx tx).soc.eeprom = soc.eeprom := by
  by_cases hacc : soc.Accepts rx
  · rw [modbusRecv_of_accepts hacc]
    rcases accept_cases io soc rx tx with ⟨-, heff⟩ | ⟨-, heff⟩
    · rw [heff]
      exact modbusStoreReg_eeprom hlock
    · rw [heff]
  · rw [modbusRecv_of_not_accepts hacc]

/-! ## Section 3: Accesses of the main loop -/

/-- An access that does not end the turn leaves the lock alone. -/
theorem access_lock_of_not_end {soc : Soc b} (h : ¬ EndsTurn soc .access) :
    soc.access.regConfigWrite = soc.regConfigWrite := by
  unfold Soc.access
  cases hat : soc.countDown with
  | start | tested => rfl
  | loaded w => exact absurd (by simp [EndsTurn, step, Soc.access, hat]) h

/-- **Access rule.**  A turn of the main loop counts the lock down by one and stops at zero
exactly when no request has come in between. -/
theorem access_lock_iff {soc : Soc b} (hend : EndsTurn soc .access) :
    soc.access.regConfigWrite.toNat = soc.regConfigWrite.toNat - 1 ↔
      Undisturbed soc .access := by
  simp only [EndsTurn, step, Soc.access, Undisturbed] at hend ⊢
  cases hat : soc.countDown with
  | start =>
    -- the test has failed: the lock is closed and stays so
    simp only [hat] at hend
    have hzero : soc.regConfigWrite = 0 := by
      by_contra hne
      rw [if_pos hne] at hend
      cases hend
    simp [hzero]
  | tested => simp [hat] at hend
  | loaded w =>
    simp only [CountDown.loaded.injEq, forall_eq']
    constructor
    · intro hcount
      have hlt := soc.regConfigWrite.isLt
      by_cases hw : w = 0
      · -- the store of -1 counts nothing down
        subst hw
        exact absurd hcount (by simp; omega)
      · by_cases hlock : soc.regConfigWrite = 0
        · refine Or.inr ⟨hlock, ?_⟩
          rw [hlock] at hcount
          bv_omega
        · exact Or.inl ⟨by bv_omega, hw⟩
    · rintro (⟨heq, hne⟩ | ⟨hzero, rfl⟩)
      · rw [heq]
        bv_omega
      · rw [hzero]
        decide

/-- **Step lemma.**  An event that writes nothing to the lock counts it down by the turn it ends,
if it ends one. -/
theorem step_lock {soc : Soc b} {e : Event} (hquiet : ¬ Unlocks soc e) (h : Undisturbed soc e) :
    (step soc e).regConfigWrite.toNat =
      soc.regConfigWrite.toNat - if EndsTurn soc e then 1 else 0 := by
  cases e with
  | request io rx tx =>
    rcases modbusRecv_lock io soc rx tx with ⟨hwrite, -⟩ | ⟨-, hsame⟩
    · exact absurd hwrite hquiet
    · have hnone : ¬ EndsTurn soc (.request io rx tx) := id
      rw [if_neg hnone, step, hsame, Nat.sub_zero]
  | access =>
    by_cases hend : EndsTurn soc .access
    · rw [if_pos hend]
      exact (access_lock_iff hend).mpr h
    · rw [if_neg hend, step, access_lock_of_not_end hend, Nat.sub_zero]

/-! ## Section 4: Runs -/

/-- **Run lemma.**  Along a run without further write the lock counts down with the turns of the
main loop. -/
theorem run_lock {soc : Soc b} {es : List Event}
    (hquiet : RunMeets step (fun s e => ¬ Unlocks s e) soc es)
    (hrun : RunMeets step Undisturbed soc es) :
    (run step soc es).regConfigWrite.toNat = soc.regConfigWrite.toNat - turns soc es := by
  induction es generalizing soc with
  | nil => rfl
  | cons e es ih =>
    rw [run_cons, ih hquiet.2 hrun.2, step_lock hquiet.1 hrun.1, turns, Nat.sub_sub]

/-- The EEPROM changes only while a request is executed that finds the lock open. -/
def EepromGuarded (soc : Soc b) (e : Event) : Prop :=
  (step soc e).eeprom ≠ soc.eeprom → (∃ io rx tx, e = .request io rx tx) ∧ soc.regConfigWrite ≠ 0

/-- Only an accepted write of `REG_CONFIG_WRITE` opens the lock. -/
def LockGuarded (soc : Soc b) (e : Event) : Prop :=
  soc.regConfigWrite = 0 → (step soc e).regConfigWrite ≠ 0 → Unlocks soc e

/-- After an accepted write of `v` to `REG_CONFIG_WRITE` and a run `es` without a further
one, the lock has counted down by one for each turn of the main loop: it is closed exactly
when `v` turns or more have ended. -/
def LockExpires (soc : Soc b) (e : Event) (es : List Event) : Prop :=
  ∀ io rx tx, e = .request io rx tx → soc.WritesLock rx →
    RunMeets step (fun s e => ¬ Unlocks s e) (step soc e) es →
      ((run step (step soc e) es).regConfigWrite = 0 ↔ rx.value.toNat ≤ turns (step soc e) es)

theorem eepromGuarded (soc : Soc b) (e : Event) : EepromGuarded soc e := by
  intro hchange
  cases e with
  | access =>
    refine absurd ?_ hchange
    simp only [step, Soc.access]
    cases soc.countDown <;> rfl
  | request io rx tx =>
    exact ⟨⟨io, rx, tx, rfl⟩, fun hlock => hchange (modbusRecv_eeprom io rx tx hlock)⟩

theorem lockGuarded {soc : Soc b} {e : Event} (h : Undisturbed soc e) : LockGuarded soc e := by
  intro hclosed hopen
  by_contra hquiet
  have hcount := step_lock hquiet h
  rw [hclosed] at hcount
  exact hopen (BitVec.eq_of_toNat_eq (by rw [hcount]; simp))

theorem lockExpires {soc : Soc b} {e : Event} {es : List Event}
    (hrest : RunMeets step Undisturbed (step soc e) es) : LockExpires soc e es := by
  rintro io rx tx rfl hwrite hquiet
  -- the write sets the lock to its value, the run behind it counts down from there
  have hvalue : (step soc (.request io rx tx)).regConfigWrite = rx.value := by
    rcases modbusRecv_lock io soc rx tx with ⟨-, hset⟩ | ⟨hnot, -⟩
    · exact hset
    · exact absurd hwrite hnot
  have hcount := run_lock hquiet hrest
  rw [hvalue] at hcount
  constructor
  · intro hzero
    rw [hzero] at hcount
    have : (0 : ℕ) = rx.value.toNat - turns (step soc (.request io rx tx)) es := hcount
    omega
  · intro hturns
    apply BitVec.eq_of_toNat_eq
    rw [hcount]
    simpa using Nat.sub_eq_zero_of_le hturns

/-- A write of `v` to `REG_CONFIG_WRITE`. -/
def writeLock (v : Byte) : Event :=
  .request quietIo (writeFrame .configWrite [0, 0, 0, v]) fun _ => 0

end Karnix.Modbus
