import Mathlib.Data.Nat.ModEq
import Karnix.Library.Runs
import Karnix.Audio.Dac

/-!
# Audio ring buffer: no sample is lost or repeated

The main program calls `audiodac0_submit_buffer`; `audiodac0_isr` may run between its
tests and its masked part, and whenever no call is in progress.  An interrupt handler may
also call `audiodac0_submit_buffer` itself.  The events of a run are these steps, in any
order.

The abstract view of the ring buffer is a queue: `pending d` lists the samples between the
playback and the fill index.  As long as no call fills the ring completely, submitting
appends to the queue what the call reports as accepted, and the interrupt handler removes
from its front what it sends.  A call that fills the ring completely sets the fill index
onto the playback index, and the full ring is then taken for an empty one.
-/

namespace Karnix.Audio

open Karnix.Library
open Karnix.Library.Ring

/-! ## Section 1: The queue in the ring -/

namespace AudioDac

/-- Both indices lie inside a ring buffer that exists. -/
structure WellFormed (d : AudioDac) : Prop where
  playback_lt : d.playbackPtr < d.ringSize
  fill_lt : d.fillPtr < d.ringSize

/-- The samples waiting in the ring buffer, oldest first. -/
def pending (d : AudioDac) : List Sample :=
  slice d.ring d.ringSize d.playbackPtr d.samplesFilled

@[simp] theorem length_pending (d : AudioDac) : d.pending.length = d.samplesFilled := by
  simp [pending]

theorem WellFormed.samplesFilled_lt {d : AudioDac} (h : d.WellFormed) :
    d.samplesFilled < d.ringSize := by
  have := h.playback_lt
  have := h.fill_lt
  unfold samplesFilled
  split <;> omega

/-- The fill index is `samplesFilled` cells behind the playback index. -/
theorem WellFormed.fillPtr_eq {d : AudioDac} (h : d.WellFormed) :
    (d.playbackPtr + d.samplesFilled) % d.ringSize = d.fillPtr := by
  have hp := h.playback_lt
  have hf := h.fill_lt
  unfold samplesFilled
  split
  · rw [Nat.add_sub_cancel' (by omega), Nat.mod_eq_of_lt hf]
  · have : d.playbackPtr + (d.ringSize - d.playbackPtr + d.fillPtr)
        = d.fillPtr + d.ringSize := by omega
    rw [this, Nat.add_mod_right, Nat.mod_eq_of_lt hf]

/-- `samplesFilled` is the only distance below the ring size from the playback index to
the fill index. -/
theorem WellFormed.samplesFilled_unique {d : AudioDac} (h : d.WellFormed) {n : ℕ}
    (hn : n < d.ringSize) (hfill : (d.playbackPtr + n) % d.ringSize = d.fillPtr) :
    d.samplesFilled = n := by
  have hmod : d.samplesFilled ≡ n [MOD d.ringSize] :=
    Nat.ModEq.add_left_cancel' d.playbackPtr (h.fillPtr_eq.trans hfill.symm)
  simpa [Nat.ModEq, Nat.mod_eq_of_lt hn, Nat.mod_eq_of_lt h.samplesFilled_lt] using hmod

end AudioDac

/-! ## Section 2: What the interrupt handler does to the queue -/

/-- `d'` is `d` after `k` samples were sent from the front of the queue. -/
structure Drained (d d' : AudioDac) (k : ℕ) : Prop where
  ring : d'.ring = d.ring
  ringSize : d'.ringSize = d.ringSize
  fillPtr : d'.fillPtr = d.fillPtr
  playbackPtr : d'.playbackPtr = (d.playbackPtr + k) % d.ringSize
  sent : d'.sentSamples = d.sentSamples ++ slice d.ring d.ringSize d.playbackPtr k

theorem sentSamples_play (d : AudioDac) (xs : List Sample) :
    (d.play xs).sentSamples = d.sentSamples ++ xs := by
  simp [AudioDac.play, AudioDac.sentSamples, FifoEntry.sample?, Function.comp_def]

theorem drained_play {d : AudioDac} {k : ℕ} {xs : List Sample}
    (hxs : xs = slice d.ring d.ringSize d.playbackPtr k) : Drained d (d.play xs) k where
  ring := rfl
  ringSize := rfl
  fillPtr := rfl
  playbackPtr := by simp [AudioDac.play, hxs]
  sent := by rw [sentSamples_play, hxs]

/-- Every run of `audiodac0_isr` sends a prefix of the queue. -/
theorem audiodac0Isr_drained (hw : DacStatus) {d : AudioDac} (h : d.WellFormed) :
    ∃ k, k ≤ d.samplesFilled ∧ Drained d (audiodac0Isr hw d).2 k := by
  -- the counter of empty FIFOs is not part of the queue
  obtain ⟨d₁, hd₁, hisr⟩ : ∃ d₁ : AudioDac,
      d₁ = (if hw.cmdInt then { d with fifoEmpty := d.fifoEmpty + 1 } else d) ∧
      d₁.ring = d.ring ∧ d₁.ringSize = d.ringSize ∧ d₁.fillPtr = d.fillPtr ∧
      d₁.playbackPtr = d.playbackPtr ∧ d₁.sent = d.sent := by
    refine ⟨_, rfl, ?_⟩
    split <;> simp
  obtain ⟨hring, hsize, hfill, hplay, hsent⟩ := hisr
  have hd : ∀ {d' k}, Drained d₁ d' k → Drained d d' k := by
    intro d' k hk
    refine ⟨hk.ring.trans hring, hk.ringSize.trans hsize, hk.fillPtr.trans hfill, ?_, ?_⟩
    · rw [hk.playbackPtr, hplay, hsize]
    · rw [hk.sent, hring, hsize, hplay]
      simp [AudioDac.sentSamples, hsent]
  have hp₁ : d₁.playbackPtr < d₁.ringSize := by rw [hplay, hsize]; exact h.playback_lt
  have hf₁ : d₁.fillPtr < d₁.ringSize := by rw [hfill, hsize]; exact h.fill_lt
  have hfilled : d.samplesFilled = d₁.samplesFilled := by
    simp [AudioDac.samplesFilled, hfill, hplay, hsize]
  rw [hfilled]
  have hnone : Drained d₁ d₁ 0 :=
    ⟨rfl, rfl, rfl, by rw [Nat.add_zero, Nat.mod_eq_of_lt hp₁], by simp⟩
  unfold audiodac0Isr
  simp only [← hd₁]
  split_ifs with hspace hempty hahead hsecond
  · exact ⟨0, Nat.zero_le _, hd hnone⟩
  · refine ⟨0, Nat.zero_le _, hd ⟨rfl, rfl, rfl, hnone.playbackPtr, ?_⟩⟩
    simp [AudioDac.sentSamples, List.filterMap_append, FifoEntry.sample?]
  · -- one block up to the fill index
    have hle := audiodacXmit_le hw.avail 1
      (min (hw.avail 0 / 3) (d₁.fillPtr - d₁.playbackPtr))
    refine ⟨_, ?_, hd (drained_play (slice_eq_load _ _ ?_).symm)⟩
    · simp only [AudioDac.samplesFilled, ge_iff_le, hahead.le, if_true]
      omega
    · omega
  · -- a block up to the end of the ring, then one from its start
    have hle := audiodacXmit_le hw.avail 1
      (min (hw.avail 0 / 3) (d₁.ringSize - d₁.playbackPtr))
    set first := audiodacXmit hw.avail 1
      (min (hw.avail 0 / 3) (d₁.ringSize - d₁.playbackPtr)) with hfirst
    have hle₂ := audiodacXmit_le hw.avail first.2
      (min (hw.avail 0 / 3 - first.1) d₁.fillPtr)
    set n := (audiodacXmit hw.avail first.2
      (min (hw.avail 0 / 3 - first.1) d₁.fillPtr)).1 with hn
    have hend : first.1 = d₁.ringSize - d₁.playbackPtr := by omega
    refine ⟨first.1 + n, ?_, hd (drained_play ?_)⟩
    · have hbehind : ¬ d₁.fillPtr ≥ d₁.playbackPtr := by omega
      simp only [AudioDac.samplesFilled, hbehind, if_false]
      omega
    · have hwrap : (d₁.playbackPtr + first.1) % d₁.ringSize = 0 := by
        rw [hend, Nat.add_sub_cancel' hp₁.le, Nat.mod_self]
      rw [slice_add, hwrap, slice_eq_load _ _ (by omega), slice_eq_load _ _ (by omega)]
  · have hle := audiodacXmit_le hw.avail 1
      (min (hw.avail 0 / 3) (d₁.ringSize - d₁.playbackPtr))
    refine ⟨_, ?_, hd (drained_play (slice_eq_load _ _ ?_).symm)⟩
    · have hbehind : ¬ d₁.fillPtr ≥ d₁.playbackPtr := by omega
      simp only [AudioDac.samplesFilled, hbehind, if_false]
      omega
    · omega

/-- Draining keeps the indices in range and removes the sent samples from the queue. -/
theorem Drained.pending {d d' : AudioDac} {k : ℕ} (h : d.WellFormed)
    (hk : k ≤ d.samplesFilled) (hdrain : Drained d d' k) :
    d'.WellFormed ∧ d'.sentSamples ++ d'.pending = d.sentSamples ++ d.pending := by
  have hpos : 0 < d.ringSize := Nat.zero_lt_of_lt h.fill_lt
  have hwf : d'.WellFormed := by
    refine ⟨?_, ?_⟩
    · rw [hdrain.playbackPtr, hdrain.ringSize]
      exact Nat.mod_lt _ hpos
    · rw [hdrain.fillPtr, hdrain.ringSize]
      exact h.fill_lt
  -- the queue is what was sent, followed by the `r` samples that stay
  obtain ⟨r, hr⟩ := Nat.exists_eq_add_of_le hk
  have hrest : d'.samplesFilled = r := by
    apply hwf.samplesFilled_unique
    · rw [hdrain.ringSize]
      have := h.samplesFilled_lt
      omega
    · rw [hdrain.playbackPtr, hdrain.ringSize, hdrain.fillPtr, Nat.mod_add_mod, Nat.add_assoc,
        ← hr, h.fillPtr_eq]
  refine ⟨hwf, ?_⟩
  rw [hdrain.sent, AudioDac.pending, AudioDac.pending, hrest, hr, hdrain.ring, hdrain.ringSize,
    hdrain.playbackPtr, slice_add, List.append_assoc]

/-! ## Section 3: What a submit call does to the queue -/

/-- `d'` is `d` after the samples `xs` were appended to the queue. -/
structure Filled (d d' : AudioDac) (xs : List Sample) : Prop where
  ringSize : d'.ringSize = d.ringSize
  playbackPtr : d'.playbackPtr = d.playbackPtr
  fillPtr : d'.fillPtr = (d.playbackPtr + (d.samplesFilled + xs.length)) % d.ringSize
  sent : d'.sent = d.sent
  ring : slice d'.ring d.ringSize d.playbackPtr (d.samplesFilled + xs.length) = d.pending ++ xs

/-- There is room for `n` samples, or the fill index is behind the playback index and the
call stops short of it. -/
def AudioDac.Roomy (d : AudioDac) (n : ℕ) : Prop :=
  d.fillPtr < d.playbackPtr ∨ n + d.samplesFilled < d.ringSize

instance (d : AudioDac) (n : ℕ) : Decidable (d.Roomy n) := by
  unfold AudioDac.Roomy
  infer_instance

/-- Copying `xs` to the fill index, when it fits before the end of the ring. -/
theorem filled_store {d : AudioDac} (h : d.WellFormed) (xs : List Sample)
    (hroom : d.samplesFilled + xs.length ≤ d.ringSize)
    (hfit : d.fillPtr + xs.length ≤ d.ringSize) :
    slice (d.ring.store d.fillPtr xs) d.ringSize d.playbackPtr (d.samplesFilled + xs.length) =
      d.pending ++ xs := by
  have hfill := h.fillPtr_eq
  rw [← hfill] at hfit ⊢
  exact slice_store_append d.ring d.ringSize _ _ xs hroom hfit

/-- A call that finds room appends what it reports as accepted to the queue. -/
theorem submitCopy_filled {d : AudioDac} (h : d.WellFormed) (buf : List Sample)
    (hroom : d.Roomy buf.length) :
    d.samplesFilled + (submitCopy buf d).1 < d.ringSize ∧
      Filled d (submitCopy buf d).2 (buf.take (submitCopy buf d).1) ∧
      (submitCopy buf d).1 ≤ buf.length := by
  have hp := h.playback_lt
  have hf := h.fill_lt
  have hfill := h.fillPtr_eq
  by_cases hahead : d.fillPtr ≥ d.playbackPtr
  · have hfilled : d.samplesFilled = d.fillPtr - d.playbackPtr := by
      simp [AudioDac.samplesFilled, hahead]
    have hn : buf.length + d.samplesFilled < d.ringSize := by
      rcases hroom with hbehind | hn
      · omega
      · exact hn
    by_cases hend : buf.length ≤ d.ringSize - d.fillPtr
    · -- the buffer fits before the end of the ring
      have hlow : min buf.length (d.ringSize - d.fillPtr) = buf.length := by omega
      have hcopy : submitCopy buf d =
          (buf.length, { d with
            ring := d.ring.store d.fillPtr buf
            fillPtr := (d.fillPtr + buf.length) % d.ringSize }) := by
        simp [submitCopy, hahead, hlow]
      rw [hcopy]
      refine ⟨by simpa [Nat.add_comm] using hn, ⟨rfl, rfl, ?_, rfl, ?_⟩, le_refl _⟩
      · simp only [List.take_length]
        rw [← Nat.add_assoc, Nat.add_mod (d.playbackPtr + d.samplesFilled), hfill,
          Nat.add_mod d.fillPtr, Nat.mod_eq_of_lt hf]
      · simp only [List.take_length]
        exact filled_store h buf (by omega) (by omega)
    · -- the buffer goes round: a low part up to the end, a high part from the start
      obtain ⟨low, hlow⟩ : ∃ low, low = d.ringSize - d.fillPtr := ⟨_, rfl⟩
      obtain ⟨high, hhigh⟩ : ∃ high, high = buf.length - low := ⟨_, rfl⟩
      have hlen : buf.length = low + high := by omega
      have hcopy : submitCopy buf d =
          (low + high, { d with
            ring := (d.ring.store d.fillPtr (buf.take low)).store 0 (buf.drop low)
            fillPtr := high }) := by
        have hmin : min buf.length (d.ringSize - d.fillPtr) = low := by omega
        have hmin' : min (buf.length - low) d.playbackPtr = high := by omega
        have hne : high ≠ 0 := by omega
        have htake : (buf.drop low).take high = buf.drop low := by
          rw [List.take_of_length_le]; simp [hhigh]
        simp only [submitCopy, hahead, if_true, hmin, hmin', hne, ne_eq, not_false_eq_true, htake]
      rw [hcopy]
      have hlowlen : (buf.take low).length = low := by simp; omega
      have hhighlen : (buf.drop low).length = high := by simp [hhigh]
      have hfirst := filled_store h (buf.take low) (by omega) (by omega)
      rw [hlowlen] at hfirst
      -- the low part ends where the ring does
      have hwrap : (d.playbackPtr + (d.samplesFilled + low)) % d.ringSize = 0 := by
        have : d.playbackPtr + (d.samplesFilled + low) = d.ringSize := by omega
        rw [this, Nat.mod_self]
      refine ⟨by simp only; omega, ⟨rfl, rfl, ?_, rfl, ?_⟩, by simp only; omega⟩
      · simp only [hlen.symm, List.take_length]
        rw [hlen, ← Nat.add_assoc d.samplesFilled, ← Nat.add_assoc, Nat.add_mod, hwrap,
          Nat.zero_add, Nat.mod_mod, Nat.mod_eq_of_lt (by omega)]
      · have hsecond := slice_store_append (d.ring.store d.fillPtr (buf.take low)) d.ringSize
          d.playbackPtr (d.samplesFilled + low) (buf.drop low)
          (by omega) (by rw [hwrap]; omega)
        rw [hwrap, hfirst, hhighlen, List.append_assoc, List.take_append_drop] at hsecond
        simp only [hlen.symm, List.take_length]
        rw [hlen, ← Nat.add_assoc]
        exact hsecond
  · -- the fill index is behind: the call stops one cell short of the playback index
    have hfilled : d.samplesFilled = d.ringSize - d.playbackPtr + d.fillPtr := by
      simp only [AudioDac.samplesFilled, hahead, if_false]
    obtain ⟨low, hlow⟩ : ∃ low, low = min buf.length (d.playbackPtr - d.fillPtr - 1) := ⟨_, rfl⟩
    have hcopy : submitCopy buf d =
        (low, { d with
          ring := d.ring.store d.fillPtr (buf.take low)
          fillPtr := d.fillPtr + low }) := by
      simp only [submitCopy, hahead, if_false, ← hlow]
    rw [hcopy]
    have hlowlen : (buf.take low).length = low := by simp; omega
    refine ⟨by simp only; omega, ⟨rfl, rfl, ?_, rfl, ?_⟩, by simp only; omega⟩
    · simp only [hlowlen]
      have : d.playbackPtr + (d.samplesFilled + low) = d.fillPtr + low + d.ringSize := by omega
      rw [this, Nat.add_mod_right, Nat.mod_eq_of_lt (by omega)]
    · have := filled_store h (buf.take low) (by omega) (by omega)
      simpa only [hlowlen] using this

/-- Filling keeps the indices in range and appends to the queue. -/
theorem Filled.pending {d d' : AudioDac} {xs : List Sample} (h : d.WellFormed)
    (hroom : d.samplesFilled + xs.length < d.ringSize) (hfilled : Filled d d' xs) :
    d'.WellFormed ∧ d'.sentSamples ++ d'.pending = d.sentSamples ++ d.pending ++ xs := by
  have hpos : 0 < d.ringSize := Nat.zero_lt_of_lt h.fill_lt
  have hwf : d'.WellFormed := by
    refine ⟨?_, ?_⟩
    · rw [hfilled.playbackPtr, hfilled.ringSize]
      exact h.playback_lt
    · rw [hfilled.fillPtr, hfilled.ringSize]
      exact Nat.mod_lt _ hpos
  have hcount : d'.samplesFilled = d.samplesFilled + xs.length := by
    apply hwf.samplesFilled_unique
    · rw [hfilled.ringSize]
      exact hroom
    · rw [hfilled.playbackPtr, hfilled.ringSize, hfilled.fillPtr]
  refine ⟨hwf, ?_⟩
  rw [AudioDac.pending, hcount, hfilled.ringSize, hfilled.playbackPtr, hfilled.ring,
    AudioDac.sentSamples, hfilled.sent, List.append_assoc]
  rfl

/-! ## Section 4: Runs -/

/-- The driver with its callers.  `calling` is the buffer of a call of the main program
that has made its tests but not yet masked interrupts; `accepted` collects, in order, the
prefixes the calls reported as accepted. -/
structure Playback where
  dac : AudioDac
  calling : Option (List Sample) := none
  accepted : List Sample := []

/-- The state after `audiodac0_start_playback`, with the log of the FIFO empty before. -/
def Playback.start (ring : Memory Sample) (size : ℕ) (hw : DacStatus) (d : AudioDac) :
    Playback where
  dac := audiodac0StartPlayback ring size hw { d with sent := [] }

inductive Event where
  /-- The main program calls `audiodac0_submit_buffer`, which makes its tests. -/
  | submit (buf : List Sample)
  /-- The call of the main program runs its masked part and returns. -/
  | copy (restart : Option DacStatus)
  /-- `audiodac0_isr` runs. -/
  | isr (hw : DacStatus)
  /-- An interrupt handler calls `audiodac0_submit_buffer`. -/
  | submitFromIsr (buf : List Sample) (restart : Option DacStatus)

/-- Run the masked part of a call for `buf` and log what it accepted. -/
def Playback.accept (p : Playback) (buf : List Sample) (restart : Option DacStatus) : Playback :=
  let r := submitCritical buf restart p.dac
  { p with dac := r.2, accepted := p.accepted ++ buf.take r.1 }

def Playback.step (p : Playback) : Event → Playback
  | .submit buf =>
    if p.calling.isNone && submitCheck p.dac then { p with calling := some buf } else p
  | .copy restart =>
    match p.calling with
    | some buf => { p.accept buf restart with calling := none }
    | none => p
  | .isr hw => { p with dac := (audiodac0Isr hw p.dac).2 }
  | .submitFromIsr buf restart =>
    if submitCheck p.dac then p.accept buf restart else p

/-- No sample is lost or repeated: what was sent is a prefix of what was accepted, and the
driver's own count is the number of accepted samples still to be sent. -/
structure Playback.NoLoss (p : Playback) : Prop where
  playback_lt : p.dac.playbackPtr < p.dac.ringSize
  fill_lt : p.dac.fillPtr < p.dac.ringSize
  sent_prefix : p.dac.sentSamples <+: p.accepted
  unsent : p.accepted.length = p.dac.sentSamples.length + p.dac.samplesFilled

/-- No call of this step fills the ring completely: it finds the fill index behind the
playback index, or asks for at most `audiodac0_samples_available()` samples. -/
def Playback.NotFilledUp (p : Playback) : Event → Prop
  | .copy _ => ∀ buf, p.calling = some buf → p.dac.Roomy buf.length
  | .submitFromIsr buf _ => p.dac.Roomy buf.length
  | _ => True

/-- The invariant: the accepted samples are those sent followed by those in the ring. -/
structure Playback.Inv (p : Playback) : Prop where
  wellFormed : p.dac.WellFormed
  accepted : p.accepted = p.dac.sentSamples ++ p.dac.pending

theorem Playback.Inv.noLoss {p : Playback} (h : p.Inv) : p.NoLoss where
  playback_lt := h.wellFormed.playback_lt
  fill_lt := h.wellFormed.fill_lt
  sent_prefix := h.accepted ▸ List.prefix_append _ _
  unsent := by simp [h.accepted]

theorem Playback.Inv.isr {p : Playback} (h : p.Inv) (hw : DacStatus) :
    ({ p with dac := (audiodac0Isr hw p.dac).2 } : Playback).Inv := by
  obtain ⟨k, hk, hdrain⟩ := audiodac0Isr_drained hw h.wellFormed
  obtain ⟨hwf, hqueue⟩ := hdrain.pending h.wellFormed hk
  exact ⟨hwf, h.accepted.trans hqueue.symm⟩

theorem Playback.Inv.accept {p : Playback} (h : p.Inv) {buf : List Sample}
    (restart : Option DacStatus) (hroom : p.dac.Roomy buf.length) :
    (p.accept buf restart).Inv := by
  obtain ⟨hfree, hfilled, hle⟩ := submitCopy_filled h.wellFormed buf hroom
  have hlen : (buf.take (submitCopy buf p.dac).1).length = (submitCopy buf p.dac).1 := by
    simpa using hle
  obtain ⟨hwf, hqueue⟩ := hfilled.pending h.wellFormed (by rw [hlen]; exact hfree)
  have hcopied : ({ p with
      dac := (submitCopy buf p.dac).2
      accepted := p.accepted ++ buf.take (submitCopy buf p.dac).1 } : Playback).Inv :=
    ⟨hwf, by rw [hqueue, h.accepted]⟩
  -- a restart of the FIFO is one more run of the interrupt handler
  cases restart with
  | none => exact hcopied
  | some hw => exact hcopied.isr hw

theorem Playback.Inv.step {p : Playback} (h : p.Inv) {e : Event} (hroom : p.NotFilledUp e) :
    (p.step e).Inv := by
  cases e with
  | submit buf =>
    simp only [Playback.step]
    split
    · exact ⟨h.wellFormed, h.accepted⟩
    · exact h
  | copy restart =>
    cases hcalling : p.calling with
    | none => simpa [Playback.step, hcalling] using h
    | some buf =>
      -- the condition is about the moment of the copy, not that of the tests
      have hacc := h.accept restart (hroom buf hcalling)
      simpa [Playback.step, hcalling] using ⟨hacc.wellFormed, hacc.accepted⟩
  | isr hw => exact h.isr hw
  | submitFromIsr buf restart =>
    simp only [Playback.step]
    split
    · exact h.accept restart hroom
    · exact h

theorem Playback.start_inv (ring : Memory Sample) {size : ℕ} (hsize : 10 ≤ size)
    (hw : DacStatus) (d : AudioDac) : (Playback.start ring size hw d).Inv := by
  -- before its call of `audiodac0_isr` the ring is empty
  have hfresh : ({ dac := { d with
      sent := [], ringNull := false, ring := ring, fillPtr := 0, playbackPtr := 0,
      ringSize := size } } : Playback).Inv := by
    refine ⟨⟨?_, ?_⟩, ?_⟩
    · simp only; omega
    · simp only; omega
    · simp [AudioDac.sentSamples, AudioDac.pending, AudioDac.samplesFilled]
  have hstart := hfresh.isr hw
  simpa [Playback.start, audiodac0StartPlayback, Nat.not_lt.mpr hsize] using hstart

/-- **No loss, no duplication.**  In every run from `audiodac0_start_playback` in which no
call fills the ring completely, nothing accepted is lost, repeated or reordered. -/
theorem playback_noLoss (ring : Memory Sample) (size : ℕ) (hsize : 10 ≤ size)
    (hw : DacStatus) (d : AudioDac) (events : List Event)
    (hroom : RunMeets Playback.step Playback.NotFilledUp (Playback.start ring size hw d) events) :
    (run Playback.step (Playback.start ring size hw d) events).NoLoss :=
  (hroom.invariant Playback.Inv (fun _ _ h hok => h.step hok)
    (Playback.start_inv ring hsize hw d)).noLoss

/-- A run that goes round a ring of ten samples: six are submitted, four of them sent, and
six more submitted across the end of the ring. -/
theorem playback_noLoss_ten :
    (run Playback.step (Playback.start (fun _ => 0) 10 ⟨false, fun _ => 0⟩ {})
      [.submit [1, 2, 3, 4, 5, 6], .copy none, .isr ⟨false, fun _ => 12⟩,
        .submit [7, 8, 9, 10, 11, 12], .copy none]).NoLoss :=
  playback_noLoss _ 10 (by decide) _ _ _
    ⟨trivial, by simp only [Playback.NotFilledUp]; intro buf hbuf; cases hbuf; decide, trivial,
      trivial, by simp only [Playback.NotFilledUp]; intro buf hbuf; cases hbuf; decide, trivial⟩

/-- Ten samples submitted to an empty ring of ten are accepted, and then gone: the ring
counts as empty. -/
theorem submit_full_ring_loses :
    ¬ (run Playback.step (Playback.start (fun _ => 0) 10 ⟨false, fun _ => 0⟩ {})
      [.submit (List.replicate 10 1), .copy none]).NoLoss := by
  intro h
  have hcount : (10 : ℕ) = 0 + 0 := h.unsent
  omega

end Karnix.Audio
