import Karnix.Modbus.RtuFraming

/-!
# The microsecond timer and the intervals measured with it

`MachineTimer` divides the clock of the system and counts microseconds in 32 bits.  `get_mtime`
reads the counter as a 64-bit value with a zero upper half, and `delay_us`, `uart_read` and
`modbus_rtu_poll` subtract two such readings modulo `2 ^ 64`.  Time is counted in microseconds
without end; the counter shows it modulo `2 ^ 32`.
-/

namespace Karnix.Timer

open Karnix.Library Karnix.Modbus Karnix.Modbus.Rtu

/-! ## Section 1: `MachineTimer` -/

/-- The registers of `MachineTimer`. -/
structure MachineTimer where
  counter : BitVec 8
  microCounter : BitVec 32

/-- One clock: after as many as there are in a microsecond, the microseconds are counted. -/
def MachineTimer.clock (clockMHz : ℕ) (t : MachineTimer) : MachineTimer :=
  if t.counter.toNat = clockMHz - 1 then ⟨0, t.microCounter + 1⟩
  else ⟨t.counter + 1, t.microCounter⟩

/-- The time after a number of clocks, from what the registers showed in the beginning. -/
def MachineTimer.micros (clockMHz : ℕ) (t : MachineTimer) (clocks : ℕ) : ℕ :=
  t.microCounter.toNat + (t.counter.toNat + clocks) / clockMHz

/-- The counter shows the time modulo `2 ^ 32`. -/
theorem microCounter_eq {clockMHz : ℕ} (hpos : 0 < clockMHz) (hle : clockMHz ≤ 256)
    (t : MachineTimer) (ht : t.counter.toNat < clockMHz) (n : ℕ) :
    (trace (fun t (_ : Unit) => t.clock clockMHz) t (fun _ => ()) n).microCounter.toNat =
      getMtime (t.micros clockMHz n) := by
  have hall : (trace (fun t (_ : Unit) => t.clock clockMHz) t (fun _ => ()) n).counter.toNat =
      (t.counter.toNat + n) % clockMHz ∧
      (trace (fun t (_ : Unit) => t.clock clockMHz) t (fun _ => ()) n).microCounter.toNat =
        t.micros clockMHz n % 4294967296 := by
    -- on the clocks; the divider wraps exactly when the quotient goes up
    induction n with
    | zero =>
      have hdiv : (t.counter.toNat + 0) / clockMHz = 0 := Nat.div_eq_of_lt (by omega)
      rw [MachineTimer.micros, hdiv]
      exact ⟨(Nat.mod_eq_of_lt ht).symm, (Nat.mod_eq_of_lt t.microCounter.isLt).symm⟩
    | succ n ih =>
      obtain ⟨hcounter, hmicro⟩ := ih
      rw [trace_succ, MachineTimer.clock, hcounter]
      have hsplit := Nat.mod_add_div (t.counter.toNat + n) clockMHz
      have hlt := Nat.mod_lt (t.counter.toNat + n) hpos
      split
      · rename_i hlast
        have hnext : (t.counter.toNat + (n + 1)) / clockMHz = (t.counter.toNat + n) / clockMHz + 1 ∧
            (t.counter.toNat + (n + 1)) % clockMHz = 0 :=
          (Nat.div_mod_unique hpos).2 ⟨by rw [Nat.mul_add]; omega, hpos⟩
        rw [MachineTimer.micros, hnext.1, hnext.2]
        rw [MachineTimer.micros] at hmicro
        refine ⟨rfl, ?_⟩
        rw [BitVec.toNat_add, hmicro]
        show (_ + 1) % 4294967296 = _
        omega
      · rename_i hnot
        have hnext : (t.counter.toNat + (n + 1)) / clockMHz = (t.counter.toNat + n) / clockMHz ∧
            (t.counter.toNat + (n + 1)) % clockMHz = (t.counter.toNat + n) % clockMHz + 1 :=
          (Nat.div_mod_unique hpos).2 ⟨by omega, by omega⟩
        rw [MachineTimer.micros, hnext.1, hnext.2]
        refine ⟨?_, hmicro⟩
        simp only [BitVec.toNat_add, hcounter]
        exact Nat.mod_eq_of_lt (by simp; omega)
  exact hall.2

/-! ## Section 2: Intervals -/

/-- A time before the end of an interval shows the same period of the counter as its beginning. -/
def Unwrapped (d t₀ t : ℕ) : Prop := t < t₀ + d → t / 0x100000000 = t₀ / 0x100000000

instance (d t₀ t : ℕ) : Decidable (Unwrapped d t₀ t) := inferInstanceAs (Decidable (_ → _))

/-- The test of the source, with the readings of the counter. -/
def Passed (d t₀ t : ℕ) : Prop := d ≤ elapsed (getMtime t) (getMtime t₀)

instance (d t₀ t : ℕ) : Decidable (Passed d t₀ t) := inferInstanceAs (Decidable (_ ≤ _))

/-- Before the end of an interval the test succeeds exactly after the counter has wrapped. -/
theorem passed_iff {d t₀ t : ℕ} (hle : t₀ ≤ t) (hd : d < 0x100000000) (ht : t < t₀ + d) :
    Passed d t₀ t ↔ t / 0x100000000 ≠ t₀ / 0x100000000 := by
  unfold Passed elapsed getMtime
  omega

/-- The test never ends an interval too early exactly if the counter has not wrapped. -/
theorem passed_sound_iff {d t₀ t : ℕ} (hle : t₀ ≤ t) (hd : d < 0x100000000) :
    (Passed d t₀ t → t₀ + d ≤ t) ↔ Unwrapped d t₀ t := by
  rcases Nat.lt_or_ge t (t₀ + d) with hlt | hge
  · have hpassed := passed_iff hle hd hlt
    constructor
    · intro hsound _
      by_contra hne
      exact absurd (hsound (hpassed.2 hne)) (Nat.not_le.2 hlt)
    · intro hun hp
      exact absurd (hun hlt) (hpassed.1 hp)
  · exact iff_of_true (fun _ => hge) (fun hlt => absurd hlt (Nat.not_lt.2 hge))

/-! ## Section 3: `delay_us` and `uart_read` -/

/-- `delay_us`: the time at which it returns, from that of its first reading and those of the
ones in its loop. -/
def delayUs (us : BitVec 32) (t₀ : ℕ) (readings : List ℕ) : Option ℕ :=
  readings.find? fun t => Passed us.toNat t₀ t

/-- What a pass of the inner loop of `uart_read` finds: the bytes in the FIFO, and the time of the
next reading of the counter, which is for the timeout if there are none, and else for the
bytes that come next. -/
structure UartPoll where
  avail : ℕ
  now : ℕ

/-- `1000LL * timeout`, of milliseconds that may be negative. -/
def timeoutUs (timeout : BitVec 32) : ℕ := (1000 * timeout.signExtend 64).toNat

/-- What `uart_read` comes to. -/
inductive UartResult where
  /-- It is still in its loop. -/
  | reading
  /-- It has got enough bytes. -/
  | done (bytesRead : ℕ)
  /-- It has given up; with the readings it compared. -/
  | gaveUp (bytesRead t₀ t : ℕ)

/-- The loops of `uart_read`. -/
def uartLoop (size : ℕ) (timeout : BitVec 32) (bytesRead t₀ : ℕ) : List UartPoll → UartResult
  | [] => .reading
  | p :: ps =>
    if p.avail = 0 then
      if Passed (timeoutUs timeout) t₀ p.now then .gaveUp bytesRead t₀ p.now
      else uartLoop size timeout bytesRead t₀ ps
    else if bytesRead + p.avail < size then uartLoop size timeout (bytesRead + p.avail) p.now ps
    else .done (bytesRead + p.avail)

/-- `uart_read`, from its first reading of the counter on. -/
def uartRead (size : ℕ) (timeout : BitVec 32) (t₀ : ℕ) (polls : List UartPoll) : UartResult :=
  if 0 < size then uartLoop size timeout 0 t₀ polls else .done 0

/-- The pairs of readings that the loops compare. -/
def uartChecks (size : ℕ) (timeout : BitVec 32) (bytesRead t₀ : ℕ) : List UartPoll → List (ℕ × ℕ)
  | [] => []
  | p :: ps =>
    if p.avail = 0 then
      if Passed (timeoutUs timeout) t₀ p.now then [(t₀, p.now)]
      else (t₀, p.now) :: uartChecks size timeout bytesRead t₀ ps
    else if bytesRead + p.avail < size then uartChecks size timeout (bytesRead + p.avail) p.now ps
    else []

/-- `delay_us` returns after the delay at the earliest. -/
def DelayOk (us : BitVec 32) (t₀ : ℕ) (readings : List ℕ) : Prop :=
  ∀ t, delayUs us t₀ readings = some t → t₀ + us.toNat ≤ t

/-- `uart_read` gives up after its timeout at the earliest. -/
def UartOk (size : ℕ) (timeout : BitVec 32) (t₀ : ℕ) (polls : List UartPoll) : Prop :=
  ∀ bytesRead s t, uartRead size timeout t₀ polls = .gaveUp bytesRead s t →
    s + timeoutUs timeout ≤ t

/-- No reading of the loop before the end of the delay comes after a wrap of the counter. -/
def DelayUnwrapped (us : BitVec 32) (t₀ : ℕ) (readings : List ℕ) : Prop :=
  ∀ t ∈ readings, Unwrapped us.toNat t₀ t

/-- No comparison before the end of the timeout comes after a wrap of the counter. -/
def UartUnwrapped (size : ℕ) (timeout : BitVec 32) (t₀ : ℕ) (polls : List UartPoll) : Prop :=
  0 < size → ∀ c ∈ uartChecks size timeout 0 t₀ polls, Unwrapped (timeoutUs timeout) c.1 c.2

theorem unwrapped_of_not_passed {d t₀ t : ℕ} (hle : t₀ ≤ t) (hd : d < 0x100000000)
    (h : ¬ Passed d t₀ t) : Unwrapped d t₀ t :=
  (passed_sound_iff hle hd).1 fun hpassed => absurd hpassed h

/-- **The delay.**  It does not end too early exactly if no comparison comes after a wrap. -/
theorem delayOk_iff {us : BitVec 32} {t₀ : ℕ} {readings : List ℕ}
    (h : (t₀ :: readings).Pairwise (· ≤ ·)) :
    DelayOk us t₀ readings ↔ DelayUnwrapped us t₀ readings := by
  have hus : us.toNat < 0x100000000 := us.isLt
  obtain ⟨hle, hsorted⟩ := List.pairwise_cons.1 h
  clear h
  -- on the readings; those after the end of the delay do not matter
  induction readings with
  | nil => exact iff_of_true (fun t ht => by cases ht) (fun t ht => absurd ht List.not_mem_nil)
  | cons r rs ih =>
    obtain ⟨hrs, hsorted⟩ := List.pairwise_cons.1 hsorted
    have hr := hle r (List.mem_cons_self ..)
    by_cases hpassed : Passed us.toNat t₀ r
    · have hfound : delayUs us t₀ (r :: rs) = some r :=
        List.find?_cons_of_pos (decide_eq_true hpassed)
      have hsound := passed_sound_iff hr hus
      constructor
      · intro hok t ht
        have hend := hok r hfound
        rcases List.mem_cons.1 ht with rfl | ht
        · exact hsound.1 fun _ => hend
        · exact fun hlt => absurd hlt (Nat.not_lt.2 (Nat.le_trans hend (hrs t ht)))
      · intro hun t ht
        rw [hfound] at ht
        exact Option.some.inj ht ▸ hsound.2 (hun r (List.mem_cons_self ..)) hpassed
    · have hskip : delayUs us t₀ (r :: rs) = delayUs us t₀ rs :=
        List.find?_cons_of_neg (by simpa using hpassed)
      rw [DelayOk, hskip, DelayUnwrapped, List.forall_mem_cons]
      refine (ih (fun t ht => hle t (List.mem_cons_of_mem r ht)) hsorted).trans ?_
      exact (and_iff_right (unwrapped_of_not_passed hr hus hpassed)).symm

theorem uartLoop_iff {size : ℕ} {timeout : BitVec 32} (htimeout : timeoutUs timeout < 0x100000000)
    {bytesRead t₀ : ℕ} {polls : List UartPoll}
    (h : (t₀ :: polls.map UartPoll.now).Pairwise (· ≤ ·)) :
    (∀ b s t, uartLoop size timeout bytesRead t₀ polls = .gaveUp b s t →
      s + timeoutUs timeout ≤ t) ↔
      ∀ c ∈ uartChecks size timeout bytesRead t₀ polls, Unwrapped (timeoutUs timeout) c.1 c.2 := by
  -- on the passes; after bytes the interval begins anew
  induction polls generalizing bytesRead t₀ with
  | nil => exact iff_of_true (fun b s t ht => by cases ht) (fun c hc => absurd hc List.not_mem_nil)
  | cons p ps ih =>
    rw [List.map_cons] at h
    obtain ⟨hle, hsorted⟩ := List.pairwise_cons.1 h
    have hp := hle p.now (List.mem_cons_self ..)
    have hrest : (t₀ :: ps.map UartPoll.now).Pairwise (· ≤ ·) :=
      List.pairwise_cons.2 ⟨fun t ht => hle t (List.mem_cons_of_mem _ ht),
        (List.pairwise_cons.1 hsorted).2⟩
    rw [uartLoop, uartChecks]
    by_cases havail : p.avail = 0
    · rw [if_pos havail, if_pos havail]
      by_cases hpassed : Passed (timeoutUs timeout) t₀ p.now
      · rw [if_pos hpassed, if_pos hpassed, List.forall_mem_singleton,
          ← passed_sound_iff hp htimeout]
        constructor
        · intro hok _
          exact hok bytesRead t₀ p.now rfl
        · intro hsound b s t heq
          cases heq
          exact hsound hpassed
      · rw [if_neg hpassed, if_neg hpassed, List.forall_mem_cons]
        exact (ih hrest).trans
          (and_iff_right (unwrapped_of_not_passed hp htimeout hpassed)).symm
    · rw [if_neg havail, if_neg havail]
      split
      · exact ih hsorted
      · exact iff_of_true (fun b s t ht => by cases ht) (fun c hc => absurd hc List.not_mem_nil)

/-- **The serial line.**  Its timeout does not end too early exactly if no comparison comes after a
wrap. -/
theorem uartOk_iff {size : ℕ} {timeout : BitVec 32} (htimeout : timeoutUs timeout < 0x100000000)
    {t₀ : ℕ} {polls : List UartPoll} (h : (t₀ :: polls.map UartPoll.now).Pairwise (· ≤ ·)) :
    UartOk size timeout t₀ polls ↔ UartUnwrapped size timeout t₀ polls := by
  rw [UartOk, UartUnwrapped, uartRead]
  by_cases hsize : 0 < size
  · rw [if_pos hsize]
    exact (uartLoop_iff htimeout h).trans ⟨fun hc _ => hc, fun hc => hc hsize⟩
  · rw [if_neg hsize]
    exact iff_of_true (fun b s t ht => by cases ht) (fun hpos => absurd hpos hsize)

/-! ## Section 4: `modbus_rtu_poll` -/

/-- The burst is taken for finished: the comparison comes out true, or it has, and the bytes
are about to be taken. -/
def Finishes (w : World) : Prop :=
  match w.poll with
  | .readClock t => rxDelayUs ≤ elapsed t w.vars.rxTimestamp
  | .complete => True
  | _ => False

/-- A burst is taken for finished after the silence at the earliest. -/
def PollOk (w : World) : Event → Prop
  | .poll => Finishes w → w.lastRx + rxDelayUs ≤ w.now
  | _ => True

/-- Before the end of the silence, no byte has come since the clock was read, and the counter has
not wrapped between the last byte and that reading. -/
def PollOrdered (w : World) : Event → Prop
  | .poll => w.now < w.lastRx + rxDelayUs →
    match w.poll with
    | .readClock _ => w.ReadingOrdered
    | .complete => w.lastRx < w.clockAt
    | _ => True
  | _ => True

instance (w : World) : ∀ e, Decidable (PollOrdered w e)
  | .wait _ | .rx _ _ => isTrue trivial
  | .poll =>
    match hpoll : w.poll with
    | .readClock _ =>
      decidable_of_iff (w.now < w.lastRx + rxDelayUs → w.ReadingOrdered)
        (by simp only [PollOrdered, hpoll])
    | .complete =>
      decidable_of_iff (w.now < w.lastRx + rxDelayUs → w.lastRx < w.clockAt)
        (by simp only [PollOrdered, hpoll])
    | .idle | .sawBytes | .took _ =>
      isTrue (by simp [PollOrdered, hpoll])

/-- Not much of a period of the counter goes by between the reading of the clock and the
comparison. -/
def Prompt (w : World) : Event → Prop
  | .poll => w.poll.isReadClock = true → w.now + rxDelayUs < w.clockAt + 2 ^ 32
  | _ => True

/-- The time stamp is that of the last byte, and the clock was read when it says. -/
structure Stamped (w : World) : Prop where
  timestamp : w.vars.rxTimestamp = getMtime w.lastRx
  lastRx_le : w.lastRx ≤ w.now
  clockAt_le : w.clockAt ≤ w.now
  reading : ∀ t, w.poll = .readClock t → t = getMtime w.clockAt
  /-- Unless a byte has come since, the silence was long enough. -/
  complete : w.poll = .complete → w.lastRx < w.clockAt → w.lastRx + rxDelayUs ≤ w.now

theorem stamped_init (buf : Memory Byte) (now : ℕ) : Stamped (Rtu.init buf now) :=
  ⟨rfl, Nat.le_refl _, Nat.le_refl _, fun _ ht => (by cases ht), fun hc => (by cases hc)⟩

/-- **Step lemma.**  A step that ends no burst too early keeps the readings. -/
theorem stamped_step {w : World} (h : Stamped w) {e : Event} (hok : PollOk w e) :
    Stamped (Rtu.step w e) := by
  cases e with
  | wait us =>
    have hmore : ∀ {t : ℕ}, t ≤ w.now → t ≤ w.now + us := fun ht => Nat.le_add_right_of_le ht
    exact ⟨h.timestamp, hmore h.lastRx_le, hmore h.clockAt_le, h.reading,
      fun hc hlt => hmore (h.complete hc hlt)⟩
  | rx c more =>
    exact ⟨rfl, Nat.le_refl _, h.clockAt_le, h.reading,
      fun _ hlt => absurd h.clockAt_le (Nat.not_le.2 hlt)⟩
  | poll =>
    rw [PollOk, Finishes] at hok
    rw [Rtu.step]
    cases hpoll : w.poll with
    | idle =>
      simp only [World.pollStep, hpoll]
      split
      · exact ⟨h.timestamp, h.lastRx_le, h.clockAt_le, fun _ ht => (by cases ht),
          fun hc => (by cases hc)⟩
      · exact h
    | sawBytes =>
      simp only [World.pollStep, hpoll]
      exact ⟨h.timestamp, h.lastRx_le, Nat.le_refl _, fun t ht => (by cases ht; rfl),
        fun hc => (by cases hc)⟩
    | readClock t =>
      simp only [World.pollStep, hpoll] at hok ⊢
      split
      · rename_i hpassed
        exact ⟨h.timestamp, h.lastRx_le, h.clockAt_le, fun _ ht => (by cases ht),
          fun _ _ => hok hpassed⟩
      · exact ⟨h.timestamp, h.lastRx_le, h.clockAt_le, fun _ ht => (by cases ht),
          fun hc => (by cases hc)⟩
    | complete | took frame =>
      simp only [World.pollStep, hpoll]
      exact ⟨h.timestamp, h.lastRx_le, h.clockAt_le, fun _ ht => (by cases ht),
        fun hc => (by cases hc)⟩

/-- **Step lemma.**  With the readings in order no burst is ended too early. -/
theorem pollOk_of_ordered {w : World} (h : Stamped w) {e : Event} (hordered : PollOrdered w e) :
    PollOk w e := by
  cases e with
  | wait us | rx c more => trivial
  | poll =>
    rw [PollOk, Finishes]
    rw [PollOrdered] at hordered
    cases hpoll : w.poll with
    | idle | sawBytes | took frame => exact fun hf => absurd hf id
    | readClock t =>
      rw [hpoll] at hordered
      intro hpassed
      by_contra hearly
      obtain ⟨hle, hwrap⟩ := hordered (Nat.lt_of_not_le hearly)
      simp only [h.reading t hpoll, h.timestamp, elapsed_of_ordered hle hwrap] at hpassed
      have hclock := h.clockAt_le
      omega
    | complete =>
      rw [hpoll] at hordered
      intro _
      by_contra hearly
      exact hearly (h.complete hpoll (hordered (Nat.lt_of_not_le hearly)))

/-- **Step lemma.**  Without the order a prompt poll ends a burst too early. -/
theorem ordered_of_pollOk {w : World} (h : Stamped w) {e : Event} (hprompt : Prompt w e)
    (hok : PollOk w e) : PollOrdered w e := by
  cases e with
  | wait us | rx c more => trivial
  | poll =>
    rw [PollOk, Finishes] at hok
    rw [PollOrdered]
    intro hearly
    cases hpoll : w.poll with
    | idle | sawBytes | took frame => trivial
    | readClock t =>
      rw [hpoll] at hok
      have hlate : w.now + rxDelayUs < w.clockAt + 2 ^ 32 := hprompt (by rw [hpoll]; rfl)
      have hnot : ¬ rxDelayUs ≤ elapsed (getMtime w.clockAt) (getMtime w.lastRx) := by
        intro hpassed
        rw [h.reading t hpoll, h.timestamp] at hok
        exact absurd (hok hpassed) (Nat.not_le.2 hearly)
      have hclock := h.clockAt_le
      have hlast := h.lastRx_le
      unfold elapsed getMtime rxDelayUs at *
      exact ⟨by omega, by omega⟩
    | complete =>
      rw [hpoll] at hok
      exact absurd (hok trivial) (Nat.not_le.2 hearly)

section PollRun

variable {buf : Memory Byte} {now : ℕ} {es : List Event}

/-- **Run lemma.**  With readings in order, no poll of a run finishes a burst too early. -/
theorem pollOk_run (hordered : RunMeets Rtu.step PollOrdered (Rtu.init buf now) es) :
    RunMeets Rtu.step PollOk (Rtu.init buf now) es :=
  hordered.of_invariant Stamped (fun _ _ h ho => stamped_step h (pollOk_of_ordered h ho))
    (fun _ _ h ho => pollOk_of_ordered h ho) (stamped_init buf now)

/-- **Run lemma.**  The order is needed, as long as the polls are prompt. -/
theorem pollOrdered_run (hprompt : RunMeets Rtu.step Prompt (Rtu.init buf now) es)
    (hok : RunMeets Rtu.step PollOk (Rtu.init buf now) es) :
    RunMeets Rtu.step PollOrdered (Rtu.init buf now) es :=
  (hprompt.and hok).of_invariant Stamped (fun _ _ h ho => stamped_step h ho.2)
    (fun _ _ h ho => ordered_of_pollOk h ho.1 ho.2) (stamped_init buf now)

end PollRun

/-! ## Section 5: All three -/

/-- **Intervals and the wrap of the counter.**  For readings in the order of time, and intervals
below `2 ^ 32` microseconds, `delay_us` and `uart_read` end no interval too early exactly if no
comparison before its end comes after a wrap of the counter.  `modbus_rtu_poll`, which receive
interrupts can come into, ends none too early if its readings are in order, and only then if it
is prompt. -/
theorem intervals_iff (us timeout : BitVec 32) (t₀ t₁ size now : ℕ) (readings : List ℕ)
    (polls : List UartPoll) (buf : Memory Byte) (es : List Event)
    (hreadings : (t₀ :: readings).Pairwise (· ≤ ·)) (htimeout : timeoutUs timeout < 0x100000000)
    (hpolls : (t₁ :: polls.map UartPoll.now).Pairwise (· ≤ ·)) :
    (DelayOk us t₀ readings ↔ DelayUnwrapped us t₀ readings) ∧
      (UartOk size timeout t₁ polls ↔ UartUnwrapped size timeout t₁ polls) ∧
      (RunMeets Rtu.step PollOrdered (Rtu.init buf now) es →
        RunMeets Rtu.step PollOk (Rtu.init buf now) es) ∧
      (RunMeets Rtu.step Prompt (Rtu.init buf now) es →
        RunMeets Rtu.step PollOk (Rtu.init buf now) es →
        RunMeets Rtu.step PollOrdered (Rtu.init buf now) es) :=
  ⟨delayOk_iff hreadings, uartOk_iff htimeout hpolls, pollOk_run, pollOrdered_run⟩

/-- Ten microseconds, a timeout of a millisecond and a burst of two bytes that is polled too early
first, all before the wrap. -/
theorem intervals_before_wrap :
    DelayOk 10 1000 [1004, 1012] ∧ UartOk 4 1 1000 [⟨0, 1500⟩, ⟨2, 1900⟩, ⟨0, 2950⟩] ∧
      RunMeets Rtu.step PollOk (Rtu.init (fun _ => 0) 1000) [.rx 0x11 [], .wait 500, .rx 0x12 [],
        .poll, .poll, .poll, .wait 9000, .wait 1500, .poll, .poll, .poll, .poll, .poll] := by
  obtain ⟨hdelay, huart, hpoll, -⟩ :=
    intervals_iff 10 1 1000 1000 4 1000 [1004, 1012] [⟨0, 1500⟩, ⟨2, 1900⟩, ⟨0, 2950⟩]
      (fun _ => 0) [.rx 0x11 [], .wait 500, .rx 0x12 [], .poll, .poll, .poll, .wait 9000,
        .wait 1500, .poll, .poll, .poll, .poll, .poll] (by decide) (by decide) (by decide)
  exact ⟨hdelay.2 (by unfold DelayUnwrapped; decide), huart.2 (by unfold UartUnwrapped; decide),
    hpoll (by decide +kernel)⟩

/-- A delay of a millisecond that begins 16 microseconds before the wrap is over after them, and
a burst is finished with its last byte if the interrupt comes behind the reading of the clock. -/
theorem delay_over_at_wrap : ¬ DelayOk 1000 0xfffffff0 [0xfffffff8, 0x100000000] ∧
    ¬ RunMeets Rtu.step PollOk (Rtu.init (fun _ => 0) 1000)
      [.rx 0x11 [], .wait 500, .poll, .poll, .wait 1, .rx 0x12 [], .poll] := by
  refine ⟨fun hok => absurd (hok 0x100000000 (by decide)) (by decide), fun hrun => ?_⟩
  obtain ⟨-, -, -, -, -, -, hpoll, -⟩ := hrun
  exact absurd (hpoll (show 10000 ≤ elapsed 1500 1501 by decide)) (by decide)

end Karnix.Timer
