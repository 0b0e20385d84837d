import Karnix.Library.Ring

/-!
# Audio DAC driver

The driver of `audiodac.c`: a ring buffer of 16-bit samples, filled by
`audiodac0_submit_buffer` and drained into the command FIFO of the DAC by
`audiodac0_isr`.

The FIFO itself drains on its own, so what the driver reads in the `TX_AVAIL` field of the
status register is an input: a stream of readings, one for each time the register is read
during a call.  Everything pushed into the FIFO is appended to `sent`.
-/

namespace Karnix.Audio

open Karnix.Library

/-- A `short` of the ring buffer. -/
abbrev Sample := BitVec 16

/-! ## Command words -/

/-- What one `SS enable, data, SS disable` triple in the command FIFO carries. -/
inductive FifoEntry where
  /-- A sample of the ring buffer. -/
  | sample (s : Sample)
  /-- The value `0x7f7f` sent when the ring buffer is empty. -/
  | filler
  deriving DecidableEq, Repr

/-- The sample an entry stands for; the filler is not one. -/
def FifoEntry.sample? : FifoEntry → Option Sample
  | .sample s => some s
  | .filler => none

/-- The data word of a sample: 12 bits, offset binary, with the channel number. -/
def dataWord (s : Sample) : BitVec 32 :=
  (BitVec.ofInt 32 (s.toInt + 0x8000) >>> 4) ||| 0b0010000000000000#32

/-- The three words `audiodac_xmit` writes to the data register for one entry. -/
def FifoEntry.words : FifoEntry → List (BitVec 32)
  | .sample s => [0x11000001#32, dataWord s, 0x10000001#32]
  | .filler => [0x11000001#32, dataWord 0x7f7f#16, 0x10000001#32]

/-! ## Driver state -/

/-- The status register as seen during one call of `audiodac0_isr`: the pending bit of the
"FIFO empty" interrupt, and the successive readings of `TX_AVAIL`. -/
structure DacStatus where
  cmdInt : Bool
  avail : ℕ → ℕ

/-- The variables of `audiodac.c`.  `ringNull` says that `audiodac0_tx_ring_buffer` is
still `NULL`. -/
structure AudioDac where
  ringNull : Bool := true
  ring : Memory Sample := fun _ => 0
  ringSize : ℕ := 0
  playbackPtr : ℕ := 0
  fillPtr : ℕ := 0
  fifoEmpty : ℕ := 0
  bufferEmpty : ℕ := 0
  /-- Everything written to the command FIFO, oldest first. -/
  sent : List FifoEntry := []

namespace AudioDac

/-- The ring samples among what was sent, oldest first. -/
def sentSamples (d : AudioDac) : List Sample := d.sent.filterMap FifoEntry.sample?

/-- `audiodac0_samples_filled`: how many samples wait in the ring, from the two positions. -/
def samplesFilled (d : AudioDac) : ℕ :=
  if d.fillPtr ≥ d.playbackPtr then d.fillPtr - d.playbackPtr
  else d.ringSize - d.playbackPtr + d.fillPtr

/-- `audiodac0_samples_available`: how many more the ring takes; one place stays empty, so that a
full ring does not look like an empty one. -/
def samplesAvailable (d : AudioDac) : ℤ :=
  (d.ringSize : ℤ) - d.samplesFilled - 1

end AudioDac

/-! ## `audiodac_xmit` -/

/-- The `for` loop of one pass of `audiodac_xmit`, with `room` free sample slots.  The loop
bound is taken against `len`, which the body decrements.  The result is what is left. -/
def xmitPass (room : ℕ) : ℕ → ℕ → ℕ
  | _, 0 => 0
  | i, len + 1 => if i < min room (len + 1) then xmitPass room (i + 1) len else len + 1

/-- The `while` loop of `audiodac_xmit` from reading `k` of the status register on: what is
left of `len` samples, and the number of the next reading.  Every pass sends at least one
sample, so `len` rounds are enough. -/
def xmitLoop (avail : ℕ → ℕ) : ℕ → ℕ → ℕ → ℕ × ℕ
  | 0, k, len => (len, k)
  | fuel + 1, k, len =>
    if len = 0 then (0, k)
    else if avail k < 3 then (len, k + 1)
    else xmitLoop avail fuel (k + 1) (xmitPass (avail k / 3) 0 len)

/-- `audiodac_xmit` for a buffer of `len` samples: how many were sent, and the number of
the next reading of the status register. -/
def audiodacXmit (avail : ℕ → ℕ) (k len : ℕ) : ℕ × ℕ :=
  let r := xmitLoop avail len k len
  (len - r.1, r.2)

theorem xmitPass_le (room : ℕ) : ∀ i len, xmitPass room i len ≤ len
  | _, 0 => by simp [xmitPass]
  | i, len + 1 => by
    unfold xmitPass
    split
    · exact Nat.le_succ_of_le (xmitPass_le room (i + 1) len)
    · exact le_refl _

/-- A pass with room for a sample sends at least one. -/
theorem xmitPass_lt {room len : ℕ} (hroom : 0 < room) (hlen : 0 < len) :
    xmitPass room 0 len < len := by
  obtain ⟨n, rfl⟩ : ∃ n, len = n + 1 := ⟨len - 1, by omega⟩
  have hbound : 0 < min room (n + 1) := by omega
  simp only [xmitPass, hbound, if_true]
  exact Nat.lt_succ_of_le (xmitPass_le room 1 n)

/-- The rounds of `audiodacXmit` are enough: its loop stops because everything was sent or because
the FIFO was full. -/
theorem xmitLoop_stops (avail : ℕ → ℕ) (fuel k len : ℕ) (hfuel : len ≤ fuel) :
    (xmitLoop avail fuel k len).1 = 0 ∨
      ∃ j, avail j < 3 ∧ (xmitLoop avail fuel k len).2 = j + 1 := by
  induction fuel generalizing k len with
  | zero => exact Or.inl (by simp [xmitLoop]; omega)
  | succ fuel ih =>
    unfold xmitLoop
    split_ifs with hzero hfull
    · exact Or.inl rfl
    · exact Or.inr ⟨k, hfull, rfl⟩
    · -- a pass sends at least one sample, so the rest needs one round less
      have hless : xmitPass (avail k / 3) 0 len < len := xmitPass_lt (by omega) (by omega)
      exact ih (k + 1) _ (by omega)

theorem audiodacXmit_le (avail : ℕ → ℕ) (k len : ℕ) : (audiodacXmit avail k len).1 ≤ len :=
  Nat.sub_le _ _

/-! ## `audiodac0_isr` -/

/-- Send the `n` samples from the playback position on and move it behind them. -/
def AudioDac.play (d : AudioDac) (samples : List Sample) : AudioDac :=
  { d with
    playbackPtr := (d.playbackPtr + samples.length) % d.ringSize
    sent := d.sent ++ samples.map .sample }

/-- `audiodac0_isr`: the number of samples sent and the state after it. -/
def audiodac0Isr (hw : DacStatus) (d : AudioDac) : ℕ × AudioDac :=
  let d := if hw.cmdInt then { d with fifoEmpty := d.fifoEmpty + 1 } else d
  let space := hw.avail 0 / 3
  if space < 1 then (0, d)
  else if d.fillPtr = d.playbackPtr then
    -- nothing to play: the FIFO gets filler
    let n := (audiodacXmit hw.avail 1 (min space 128)).1
    (0, { d with
      bufferEmpty := d.bufferEmpty + 1
      sent := d.sent ++ List.replicate n .filler })
  else if d.fillPtr > d.playbackPtr then
    -- the samples lie in one block
    let n := (audiodacXmit hw.avail 1 (min space (d.fillPtr - d.playbackPtr))).1
    (n, d.play (d.ring.load d.playbackPtr n))
  else
    -- the samples go round the end of the ring: first those up to the end
    let samplesToSend := min space (d.ringSize - d.playbackPtr)
    let first := audiodacXmit hw.avail 1 samplesToSend
    -- second part, only if the FIFO took all of the first
    if first.1 = samplesToSend ∧ space - first.1 > 0 ∧ d.fillPtr > 0 then
      let n := (audiodacXmit hw.avail first.2 (min (space - first.1) d.fillPtr)).1
      (first.1 + n, d.play (d.ring.load d.playbackPtr first.1 ++ d.ring.load 0 n))
    else (first.1, d.play (d.ring.load d.playbackPtr first.1))

/-! ## `audiodac0_submit_buffer` and `audiodac0_start_playback` -/

/-- The tests `audiodac0_submit_buffer` makes before it masks interrupts: `true` when the
call goes on. -/
def submitCheck (d : AudioDac) : Bool :=
  !(d.ringNull || d.ringSize == 0) && !((d.fillPtr : ℤ) == (d.playbackPtr : ℤ) - 1)

/-- The part of `audiodac0_submit_buffer` between masking and unmasking interrupts, up to
the restart of the FIFO: the number of samples taken and the state after it. -/
def submitCopy (buf : List Sample) (d : AudioDac) : ℕ × AudioDac :=
  if d.fillPtr ≥ d.playbackPtr then
    -- up to the end of the ring, then from its start up to the playback index itself
    let lowPart := min buf.length (d.ringSize - d.fillPtr)
    let d₁ := { d with
      ring := d.ring.store d.fillPtr (buf.take lowPart)
      fillPtr := (d.fillPtr + lowPart) % d.ringSize }
    let highPart := min (buf.length - lowPart) d.playbackPtr
    if highPart ≠ 0 then
      (lowPart + highPart,
        { d₁ with
          ring := d₁.ring.store 0 ((buf.drop lowPart).take highPart)
          fillPtr := highPart })
    else (lowPart, d₁)
  else
    -- here the copy stops one cell short of the playback index
    let lowPart := min buf.length (d.playbackPtr - d.fillPtr - 1)
    (lowPart,
      { d with
        ring := d.ring.store d.fillPtr (buf.take lowPart)
        fillPtr := d.fillPtr + lowPart })

/-- The masked part of `audiodac0_submit_buffer`.  `restart` is the status register as the
call to `audiodac0_isr` finds it when the "FIFO empty" interrupt is pending. -/
def submitCritical (buf : List Sample) (restart : Option DacStatus) (d : AudioDac) :
    ℕ × AudioDac :=
  let r := submitCopy buf d
  match restart with
  | none => r
  | some hw => (r.1, (audiodac0Isr hw r.2).2)

/-- `audiodac0_submit_buffer`, when no interrupt arrives between its tests and the masked
part. -/
def audiodac0SubmitBuffer (buf : List Sample) (restart : Option DacStatus) (d : AudioDac) :
    ℕ × AudioDac :=
  if submitCheck d then submitCritical buf restart d else (0, d)

/-- `audiodac0_start_playback` with a ring buffer of `size` samples. -/
def audiodac0StartPlayback (ring : Memory Sample) (size : ℕ) (hw : DacStatus) (d : AudioDac) :
    AudioDac :=
  if size < 10 then d
  else
    (audiodac0Isr hw
      { d with
        ringNull := false
        ring := ring
        fillPtr := 0
        playbackPtr := 0
        ringSize := size }).2

end Karnix.Audio
