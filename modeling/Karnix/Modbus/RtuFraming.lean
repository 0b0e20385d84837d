import Mathlib.Data.List.Basic
import Karnix.Library.Bytes
import Karnix.Library.Runs

/-!
# Modbus RTU: from bytes to frames

`modbus_rtu_rx`, the receive interrupt handler, collects bytes and notes the time;
`modbus_rtu_poll`, called from the main loop, takes them for a frame once no byte has come
for 10 ms.  The poll reads the number of bytes, the clock and the time of the last byte one
after the other, and the interrupt handler may run between any two of these steps.

The clock is the 32-bit microsecond counter, read as a 64-bit value with a zero upper half,
and the difference of two readings is taken modulo 2^64.  It is right as long as the clock
was read after the last byte and has not wrapped around since.
-/

namespace Karnix.Modbus.Rtu

open Karnix.Library

/-! ## Section 1: The program -/

/-- `MODBUS_RX_BUF_SIZE`: the bytes of a frame that are collected. -/
def rxBufSize : ℕ := 128

/-- `MODBUS_RX_DELAY_US`: how long the line is silent behind a frame. -/
def rxDelayUs : ℕ := 10000

/-- What `get_mtime` returns at a given time. -/
def getMtime (now : ℕ) : ℕ := now % 2 ^ 32

/-- The difference of two `unsigned long long` values. -/
def elapsed (t ts : ℕ) : ℕ := (((t : ℤ) - ts) % 2 ^ 64).toNat

/-- The variables of `modbus_rtu.c`: the bytes so far, and when the last of them came. -/
structure Vars where
  rxBuf : Memory Byte
  rxLen : ℕ
  rxTimestamp : ℕ

/-- One byte taken from the UART: stored, and the index moved on or back to the start. -/
def Vars.push (v : Vars) (c : Byte) : Vars :=
  { v with
    rxBuf := v.rxBuf.store v.rxLen [c]
    rxLen := if v.rxLen + 1 ≥ rxBufSize then 0 else v.rxLen + 1 }

/-- `modbus_rtu_rx`: the byte that raised the interrupt, and those that are in the FIFO by
then. -/
def modbusRtuRx (now : ℕ) (c : Byte) (more : List Byte) (v : Vars) : Vars :=
  { (more.foldl Vars.push (v.push c)) with rxTimestamp := getMtime now }

/-- Where `modbus_rtu_poll` is, as receive interrupts come between its accesses. -/
inductive Poll where
  /-- Not running. -/
  | idle
  /-- `modbus_rtu_rx_len > 0` was seen. -/
  | sawBytes
  /-- The clock was read. -/
  | readClock (t : ℕ)
  /-- The comparison came out true; interrupts are about to be disabled. -/
  | complete
  /-- Interrupts are enabled again, `modbus_recv` is about to be called. -/
  | took (frame : List Byte)

/-- The poll has read the clock and goes on to read the time stamp and to compare. -/
def Poll.isReadClock : Poll → Bool
  | .readClock _ => true
  | _ => false

/-- The program together with what surrounds it. -/
structure World where
  vars : Vars
  poll : Poll := .idle
  /-- The frames handed to `modbus_recv`. -/
  delivered : List (List Byte) := []
  now : ℕ
  /-- The bursts before the last one. -/
  past : List (List Byte) := []
  /-- The last burst, as far as it has arrived; empty if there was none yet. -/
  burst : List Byte := []
  /-- When the last byte arrived. -/
  lastRx : ℕ
  /-- When the poll last read the clock. -/
  clockAt : ℕ
  /-- Since the last byte a poll has run to completion that read the clock when the silence
  after that byte was long enough. -/
  served : Bool := true

inductive Event where
  /-- Some microseconds pass. -/
  | wait (us : ℕ)
  /-- The receive interrupt. -/
  | rx (c : Byte) (more : List Byte)
  /-- The main loop makes the next step of `modbus_rtu_poll`. -/
  | poll

/-- The next byte belongs to the last burst. -/
def World.Continues (w : World) : Prop := w.burst ≠ [] ∧ w.now < w.lastRx + rxDelayUs

instance (w : World) : Decidable w.Continues := inferInstanceAs (Decidable (_ ∧ _))

/-- The poll that is running ends.  It counts as a poll in the silence if it read the clock
late enough. -/
def World.endPoll (w : World) : World :=
  { w with
    poll := .idle
    served := w.served || decide (w.lastRx + rxDelayUs ≤ w.clockAt) }

/-- One step of `modbus_rtu_poll`, up to its next access to what the interrupt changes. -/
def World.pollStep (w : World) : World :=
  match w.poll with
  | .idle => if w.vars.rxLen > 0 then { w with poll := .sawBytes } else w
  | .sawBytes => { w with poll := .readClock (getMtime w.now), clockAt := w.now }
  | .readClock t =>
    if elapsed t w.vars.rxTimestamp ≥ rxDelayUs then { w with poll := .complete } else w.endPoll
  | .complete =>
    { w with
      poll := .took (w.vars.rxBuf.load 0 w.vars.rxLen)
      vars := { w.vars with rxLen := 0 } }
  | .took frame => { w.endPoll with delivered := w.delivered ++ [frame] }

/-- The receive interrupt, and the burst its bytes belong to. -/
def World.rxStep (w : World) (c : Byte) (more : List Byte) : World :=
  { w with
    vars := modbusRtuRx w.now c more w.vars
    lastRx := w.now
    served := false
    past := if w.Continues ∨ w.burst = [] then w.past else w.past ++ [w.burst]
    burst := if w.Continues then w.burst ++ c :: more else c :: more }

def step (w : World) : Event → World
  | .wait us => { w with now := w.now + us }
  | .rx c more => w.rxStep c more
  | .poll => w.pollStep

/-- The state `modbus_rtu_init` leaves at a given time. -/
def init (buf : Memory Byte) (now : ℕ) : World where
  vars := ⟨buf, 0, getMtime now⟩
  now := now
  lastRx := now
  clockAt := now

/-! ## Section 2: Assumptions and requirements -/

/-- The arrival of bytes.  A burst is shorter than the buffer; before a new one begins, a
poll has run to completion in the silence after the one before. -/
def Arrives (w : World) : Event → Prop
  | .rx c more =>
    if w.Continues then (w.burst ++ c :: more).length < rxBufSize
    else w.served = true ∧ (c :: more).length < rxBufSize
  | _ => True

/-- No byte has come since the clock was read, and the 32-bit counter has not wrapped around
between the last byte and that reading. -/
def World.ReadingOrdered (w : World) : Prop :=
  w.lastRx ≤ w.clockAt ∧ w.lastRx / 2 ^ 32 = w.clockAt / 2 ^ 32

instance (w : World) : Decidable w.ReadingOrdered := inferInstanceAs (Decidable (_ ∧ _))

/-- Where the poll is about to compare the times, the readings are in order. -/
def ClockOrdered (w : World) : Event → Prop
  | .poll => w.poll.isReadClock = true → w.ReadingOrdered
  | _ => True

instance (w : World) : ∀ e, Decidable (Arrives w e)
  | .wait _ | .poll => isTrue trivial
  | .rx c more =>
    inferInstanceAs (Decidable (if w.Continues then (w.burst ++ c :: more).length < rxBufSize
      else w.served = true ∧ (c :: more).length < rxBufSize))

instance (w : World) : ∀ e, Decidable (ClockOrdered w e)
  | .wait _ | .rx _ _ => isTrue trivial
  | .poll => inferInstanceAs (Decidable (_ → _))

/-- All bursts that have arrived. -/
def World.bursts (w : World) : List (List Byte) :=
  if w.burst = [] then w.past else w.past ++ [w.burst]

/-- What the poll has taken from the buffer and not yet handed over. -/
def World.taken (w : World) : List (List Byte) :=
  match w.poll with
  | .took frame => [frame]
  | _ => []

/-- What is in the receive buffer. -/
def World.buffered (w : World) : List (List Byte) :=
  if w.vars.rxLen = 0 then [] else [w.vars.rxBuf.load 0 w.vars.rxLen]

/-- The buffer does not overflow, and the frames handed to `modbus_recv`, the one being
handed over and the one in the buffer are together the bursts, in order. -/
def World.Framed (w : World) : Prop :=
  w.vars.rxLen < rxBufSize ∧ w.delivered ++ w.taken ++ w.buffered = w.bursts

/-! ## Section 3: The buffer -/

theorem push_of_room {v : Vars} {c : Byte} (h : v.rxLen + 1 < rxBufSize) :
    v.push c = { v with rxBuf := v.rxBuf.store v.rxLen [c], rxLen := v.rxLen + 1 } := by
  simp only [Vars.push, if_neg (Nat.not_le.mpr h)]

/-- As long as there is room the bytes of an interrupt are appended to the buffer. -/
theorem foldl_push {cs : List Byte} {v : Vars} (h : v.rxLen + cs.length < rxBufSize) :
    (cs.foldl Vars.push v).rxLen = v.rxLen + cs.length ∧
      (cs.foldl Vars.push v).rxBuf.load 0 (v.rxLen + cs.length) =
        v.rxBuf.load 0 v.rxLen ++ cs := by
  induction cs generalizing v with
  | nil => simp
  | cons c cs ih =>
    simp only [List.length_cons] at h
    have hroom : v.rxLen + 1 < rxBufSize := by omega
    rw [List.foldl_cons, push_of_room hroom]
    obtain ⟨hlen, hload⟩ := ih (v := { v with
      rxBuf := v.rxBuf.store v.rxLen [c], rxLen := v.rxLen + 1 }) (by simp only; omega)
    have hbyte : (v.rxBuf.store v.rxLen [c]).load 0 (v.rxLen + 1) =
        v.rxBuf.load 0 v.rxLen ++ [c] := by
      rw [Memory.load_add, Memory.load_store_of_disjoint _ _ (Or.inl (by omega)), Nat.zero_add]
      exact congrArg _ (Memory.load_store_self v.rxBuf v.rxLen [c])
    have hcount : v.rxLen + (c :: cs).length = v.rxLen + 1 + cs.length := by
      rw [List.length_cons]
      omega
    rw [hcount]
    refine ⟨hlen, ?_⟩
    rw [hload, hbyte, List.append_assoc]
    rfl

/-- The interrupt handler appends its bytes to the buffer. -/
theorem modbusRtuRx_append (now : ℕ) (c : Byte) (more : List Byte) {v : Vars}
    (h : v.rxLen + (c :: more).length < rxBufSize) :
    (modbusRtuRx now c more v).rxLen = v.rxLen + (c :: more).length ∧
      (modbusRtuRx now c more v).rxBuf.load 0 (v.rxLen + (c :: more).length) =
        v.rxBuf.load 0 v.rxLen ++ c :: more :=
  foldl_push h

/-- Two readings of the clock in order and without wrap-around have the right difference. -/
theorem elapsed_of_ordered {t₀ t₁ : ℕ} (hle : t₀ ≤ t₁) (hwrap : t₀ / 2 ^ 32 = t₁ / 2 ^ 32) :
    elapsed (getMtime t₁) (getMtime t₀) = t₁ - t₀ := by
  have h₀ := Nat.div_add_mod t₀ (2 ^ 32)
  have h₁ := Nat.div_add_mod t₁ (2 ^ 32)
  have hlt := Nat.mod_lt t₁ (show 0 < 2 ^ 32 by decide)
  unfold elapsed getMtime
  rw [hwrap] at h₀
  omega

/-! ## Section 4: The invariant -/

/-- All bursts were delivered, and the next byte begins a new one. -/
structure Quiet (w : World) : Prop where
  empty : w.vars.rxLen = 0
  idle : w.poll = .idle
  delivered : w.delivered = w.bursts
  silent : w.burst = [] ∨ w.lastRx + rxDelayUs ≤ w.now

/-- The poll is at a step it can have reached while a burst is collected; it goes on to take
the buffer only if the burst was over when it read the clock. -/
def PollCollecting (w : World) : Prop :=
  match w.poll with
  | .idle | .sawBytes => True
  | .readClock t => t = getMtime w.clockAt
  | .complete => w.lastRx + rxDelayUs ≤ w.clockAt
  | .took _ => False

/-- The last burst is in the buffer, the ones before were delivered. -/
structure Collecting (w : World) : Prop where
  nonempty : w.burst ≠ []
  rxLen : w.vars.rxLen = w.burst.length
  fits : w.burst.length < rxBufSize
  buffer : w.vars.rxBuf.load 0 w.vars.rxLen = w.burst
  timestamp : w.vars.rxTimestamp = getMtime w.lastRx
  delivered : w.delivered = w.past
  unserved : w.served = false
  poll : PollCollecting w

/-- The last burst was taken from the buffer and is about to be handed over. -/
structure Handing (w : World) : Prop where
  nonempty : w.burst ≠ []
  empty : w.vars.rxLen = 0
  poll : w.poll = .took w.burst
  delivered : w.delivered = w.past
  unserved : w.served = false
  silent : w.lastRx + rxDelayUs ≤ w.clockAt

/-- The invariant of runs in which the clock readings are in order. -/
structure Inv (w : World) : Prop where
  clockAt_le : w.clockAt ≤ w.now
  phase : Quiet w ∨ Collecting w ∨ Handing w

theorem inv_init (buf : Memory Byte) (now : ℕ) : Inv (init buf now) :=
  ⟨le_refl now, Or.inl ⟨rfl, rfl, rfl, Or.inl rfl⟩⟩

/-- The invariant is what the requirement asks for. -/
theorem Inv.framed {w : World} (h : Inv w) : w.Framed := by
  rcases h.phase with hq | hc | hh
  · refine ⟨by rw [hq.empty]; decide, ?_⟩
    simp [World.taken, World.buffered, hq.idle, hq.empty, hq.delivered]
  · have hpos : w.vars.rxLen ≠ 0 := by
      rw [hc.rxLen]
      exact fun h0 => hc.nonempty (List.eq_nil_of_length_eq_zero h0)
    have htaken : w.taken = [] := by
      have hpoll := hc.poll
      unfold PollCollecting at hpoll
      unfold World.taken
      cases hw : w.poll with
      | took frame => simp [hw] at hpoll
      | idle | sawBytes | readClock t | complete => rfl
    refine ⟨by rw [hc.rxLen]; exact hc.fits, ?_⟩
    simp [World.buffered, World.bursts, htaken, hpos, hc.buffer, hc.delivered, hc.nonempty]
  · refine ⟨by rw [hh.empty]; decide, ?_⟩
    simp [World.taken, World.buffered, World.bursts, hh.poll, hh.empty, hh.delivered, hh.nonempty]

/-- Bytes that begin a burst are collected from its start. -/
theorem collecting_new {w : World} {c : Byte} {more : List Byte} (hq : Quiet w)
    (harr : Arrives w (.rx c more)) : Collecting (w.rxStep c more) := by
  -- the silence before is long enough for a burst of its own
  have hnot : ¬ w.Continues := by
    rintro ⟨hne, hlt⟩
    rcases hq.silent with h | h
    · exact hne h
    · omega
  simp only [Arrives, if_neg hnot] at harr
  have hpush := modbusRtuRx_append w.now c more (v := w.vars)
    (by rw [hq.empty]; simpa using harr.2)
  rw [hq.empty, Nat.zero_add, Memory.load_zero, List.nil_append] at hpush
  simp only [World.rxStep, hnot, false_or, if_false]
  refine ⟨by simp, hpush.1, harr.2, ?_, rfl, ?_, rfl, ?_⟩
  · simp only [hpush.1]
    exact hpush.2
  · rw [hq.delivered]
    rfl
  · simp [PollCollecting, hq.idle]

/-- Bytes of the same burst are appended to what was collected. -/
theorem collecting_more {w : World} {c : Byte} {more : List Byte} (hle : w.clockAt ≤ w.now)
    (hc : Collecting w) (harr : Arrives w (.rx c more)) : Collecting (w.rxStep c more) := by
  by_cases hcont : w.Continues
  · simp only [Arrives, if_pos hcont, List.length_append] at harr
    have hpush := modbusRtuRx_append w.now c more (v := w.vars)
      (by rw [hc.rxLen]; exact harr)
    rw [hc.buffer] at hpush
    simp only [World.rxStep, hcont, true_or, if_true]
    refine ⟨by simp, ?_, by simpa using harr, ?_, rfl, hc.delivered, rfl, ?_⟩
    · simp only [hpush.1, hc.rxLen, List.length_append]
    · simp only [hpush.1]
      exact hpush.2
    · have hpoll := hc.poll
      unfold PollCollecting at hpoll ⊢
      cases hw : w.poll with
      | idle | sawBytes => trivial
      | readClock t => simpa [hw] using hpoll
      | complete =>
        -- the burst was over when the clock was read, so this byte cannot belong to it
        have hlate : w.lastRx + rxDelayUs ≤ w.clockAt := by simpa [hw] using hpoll
        have hearly := hcont.2
        omega
      | took frame => simp [hw] at hpoll
  · -- a new burst would have had to wait for a poll in the silence
    simp only [Arrives, if_neg hcont] at harr
    rw [hc.unserved] at harr
    exact absurd harr.1 (by decide)

/-- While a frame is being handed over no byte arrives. -/
theorem not_arrives_handing {w : World} {c : Byte} {more : List Byte} (hle : w.clockAt ≤ w.now)
    (hh : Handing w) : ¬ Arrives w (.rx c more) := by
  intro harr
  have hnot : ¬ w.Continues := fun hcont => by
    have hearly := hcont.2
    have hlate := hh.silent
    omega
  simp only [Arrives, if_neg hnot, hh.unserved] at harr
  exact absurd harr.1 (by decide)

/-- A step of the poll while a burst is collected. -/
theorem poll_collecting {w : World} (hle : w.clockAt ≤ w.now) (hc : Collecting w)
    (hclock : ClockOrdered w .poll) : Inv w.pollStep := by
  have hpos : w.vars.rxLen > 0 := by
    rw [hc.rxLen]
    exact List.length_pos_of_ne_nil hc.nonempty
  have hpoll := hc.poll
  unfold PollCollecting at hpoll
  cases hw : w.poll with
  | idle =>
    simp only [World.pollStep, hw, if_pos hpos]
    exact ⟨hle, Or.inr (Or.inl { hc with poll := trivial })⟩
  | sawBytes =>
    simp only [World.pollStep, hw]
    exact ⟨le_refl _, Or.inr (Or.inl { hc with poll := rfl })⟩
  | readClock t =>
    have ht : t = getMtime w.clockAt := by simpa [hw] using hpoll
    obtain ⟨hord, hwrap⟩ : w.ReadingOrdered := hclock (by rw [hw]; rfl)
    -- the readings are in order, so the comparison is about the real silence
    have hdiff : elapsed t w.vars.rxTimestamp = w.clockAt - w.lastRx := by
      rw [ht, hc.timestamp]
      exact elapsed_of_ordered hord hwrap
    simp only [World.pollStep, hw, hdiff]
    split_ifs with hover
    · exact ⟨hle, Or.inr (Or.inl { hc with
        poll := show w.lastRx + rxDelayUs ≤ w.clockAt by omega })⟩
    · -- too early: this poll does not count as one in the silence
      have hearly : ¬ w.lastRx + rxDelayUs ≤ w.clockAt := by omega
      refine ⟨hle, Or.inr (Or.inl { hc with poll := trivial, unserved := ?_ })⟩
      simp [World.endPoll, hc.unserved, hearly]
  | complete =>
    have hlate : w.lastRx + rxDelayUs ≤ w.clockAt := by simpa [hw] using hpoll
    simp only [World.pollStep, hw, hc.buffer]
    exact ⟨hle, Or.inr (Or.inr ⟨hc.nonempty, rfl, rfl, hc.delivered, hc.unserved, hlate⟩)⟩
  | took frame => simp [hw] at hpoll

/-- Handing over the frame ends the poll. -/
theorem poll_handing {w : World} (hle : w.clockAt ≤ w.now) (hh : Handing w) : Inv w.pollStep := by
  have hlate := hh.silent
  simp only [World.pollStep, hh.poll]
  refine ⟨hle, Or.inl ⟨hh.empty, rfl, ?_, Or.inr (hlate.trans hle)⟩⟩
  simp [World.bursts, World.endPoll, hh.delivered, hh.nonempty]

/-- **Step lemma.**  Every event that the assumptions allow keeps the invariant. -/
theorem inv_step {w : World} {e : Event} (h : Inv w) (harr : Arrives w e)
    (hclock : ClockOrdered w e) : Inv (step w e) := by
  cases e with
  | wait us =>
    have hle : w.clockAt ≤ w.now + us := h.clockAt_le.trans (Nat.le_add_right _ _)
    rcases h.phase with hq | hc | hh
    · exact ⟨hle, Or.inl { hq with
        silent := hq.silent.imp_right fun hs => hs.trans (Nat.le_add_right _ _) }⟩
    · exact ⟨hle, Or.inr (Or.inl { hc with })⟩
    · exact ⟨hle, Or.inr (Or.inr { hh with })⟩
  | rx c more =>
    rcases h.phase with hq | hc | hh
    · exact ⟨h.clockAt_le, Or.inr (Or.inl (collecting_new hq harr))⟩
    · exact ⟨h.clockAt_le, Or.inr (Or.inl (collecting_more h.clockAt_le hc harr))⟩
    · exact absurd harr (not_arrives_handing h.clockAt_le hh)
  | poll =>
    rcases h.phase with hq | hc | hh
    · -- nothing to poll
      have hsame : w.pollStep = w := by simp [World.pollStep, hq.idle, hq.empty]
      simp only [step, hsame]
      exact h
    · exact poll_collecting h.clockAt_le hc hclock
    · exact poll_handing h.clockAt_le hh

/-- **Framing.**  From `modbus_rtu_init` on, in every run in which bytes arrive as assumed
and every comparison finds its clock reading in order, the receive buffer never fills up and
`modbus_recv` gets exactly the bursts, each once, whole and in order. -/
theorem rtuFraming (buf : Memory Byte) (now : ℕ) (es : List Event)
    (harr : RunMeets step Arrives (init buf now) es)
    (hclock : RunMeets step ClockOrdered (init buf now) es) :
    (run step (init buf now) es).Framed := by
  have hboth : RunMeets step (fun w e => Arrives w e ∧ ClockOrdered w e) (init buf now) es :=
    harr.and hclock
  exact (RunMeets.invariant Inv (fun w e h hok => inv_step h hok.1 hok.2) hboth
    (inv_init buf now)).framed

/-- A burst of two bytes, a poll in the silence after it, and the begin of another burst. -/
theorem rtuFraming_two :
    (run step (init (fun _ => 0) 0)
      [.rx 1 [], .wait 100, .rx 2 [], .wait 10000, .poll, .poll, .poll, .poll, .poll,
        .rx 3 []]).Framed :=
  rtuFraming (fun _ => 0) 0 _ (by decide +kernel) (by decide +kernel)

/-- A run in which the second byte of a burst arrives after the poll has read the clock and
before it reads the time stamp. -/
def splitRun : List Event :=
  [.rx 1 [], .poll, .wait 100, .poll, .wait 1, .rx 2 [], .poll, .poll, .poll, .wait 100, .rx 3 []]

/-- The poll then takes the two bytes for a frame, and the third byte of the burst for the
begin of another. -/
theorem rtuFraming_split :
    RunMeets step Arrives (init (fun _ => 0) 0) splitRun ∧
      (run step (init (fun _ => 0) 0) splitRun).delivered = [[1, 2]] ∧
      (run step (init (fun _ => 0) 0) splitRun).bursts = [[1, 2, 3]] ∧
      ¬ (run step (init (fun _ => 0) 0) splitRun).Framed := by
  refine ⟨by decide +kernel, by decide +kernel, by decide +kernel, ?_⟩
  rintro ⟨-, hframes⟩
  revert hframes
  decide +kernel

end Karnix.Modbus.Rtu
