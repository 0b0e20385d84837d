import Karnix.Audio.NoLoss
import Karnix.Modbus.Transport

/-!
# Submitting samples and reporting the level

`audiodac0_submit_buffer` computes the free space anew: up to the end of the ring, then up to
the playback index, or up to the cell before it.  `submitSpace` is what this comes to, and
`submit_spec` describes the whole call: it puts that many samples into the slots that follow
the fill index, going round.

The register `REG_AUDIODAC0_BUFFER` submits the samples of a request and answers with the fill
level, by a formula of its own.
-/

namespace Karnix.Modbus

open Karnix.Library
open Karnix.Audio

variable {b : Build}

/-! ## Section 1: What a submit call does -/

/-- The room `audiodac0_submit_buffer` finds, as it counts it. -/
def submitSpace (d : AudioDac) : ℕ :=
  if d.fillPtr ≥ d.playbackPtr then d.ringSize - d.fillPtr + d.playbackPtr
  else d.playbackPtr - d.fillPtr - 1

/-- `d` after the samples `xs` were put behind the fill index. -/
def submitted (d : AudioDac) (xs : List Sample) : AudioDac :=
  { d with
    ring := Ring.put d.ring d.ringSize d.fillPtr xs
    fillPtr := (d.fillPtr + xs.length) % d.ringSize }

theorem submitted_nil {d : AudioDac} (h : d.WellFormed) : submitted d [] = d := by
  unfold submitted
  rw [Ring.put_nil, List.length_nil, Nat.add_zero, Nat.mod_eq_of_lt h.fill_lt]

theorem submitCopy_spec {d : AudioDac} (h : d.WellFormed) (buf : List Sample) :
    submitCopy buf d =
      (min buf.length (submitSpace d), submitted d (buf.take (submitSpace d))) := by
  have hp := h.playback_lt
  have hf := h.fill_lt
  unfold submitCopy
  by_cases hahead : d.fillPtr ≥ d.playbackPtr
  · obtain ⟨low, hlow⟩ : ∃ low, low = min buf.length (d.ringSize - d.fillPtr) := ⟨_, rfl⟩
    obtain ⟨high, hhigh⟩ : ∃ high, high = min (buf.length - low) d.playbackPtr := ⟨_, rfl⟩
    have hlowlen : (buf.take low).length = low := by
      rw [List.length_take]; omega
    have hhighlen : ((buf.drop low).take high).length = high := by
      rw [List.length_take, List.length_drop]; omega
    have hcount : min buf.length (submitSpace d) = low + high := by
      rw [submitSpace, if_pos hahead]; omega
    have htaken : buf.take (submitSpace d) = buf.take low ++ (buf.drop low).take high := by
      rw [List.take_eq_take_min, Nat.min_comm, hcount, List.take_add]
    have hput : Ring.put d.ring d.ringSize d.fillPtr (buf.take low) =
        d.ring.store d.fillPtr (buf.take low) :=
      Ring.put_eq_store _ _ (by rw [hlowlen]; omega)
    simp only [if_pos hahead, ← hlow, ← hhigh, hcount, htaken]
    split
    · -- a high part is copied only when the low part went up to the end
      rename_i hne
      have hend : d.fillPtr + low = d.ringSize := by omega
      rw [submitted, Ring.put_append, hlowlen, List.length_append, hlowlen, hhighlen, hend,
        ← Ring.put_mod _ _ d.ringSize, Nat.mod_self, hput,
        Ring.put_eq_store _ _ (by rw [hhighlen]; omega), ← Nat.add_assoc, hend,
        Nat.add_mod_left, Nat.mod_eq_of_lt (by omega)]
    · rename_i hzero
      have hzero' : high = 0 := not_not.mp hzero
      rw [hzero', List.take_zero, List.append_nil, submitted, hput, hlowlen, Nat.add_zero]
  · obtain ⟨low, hlow⟩ : ∃ low, low = min buf.length (d.playbackPtr - d.fillPtr - 1) := ⟨_, rfl⟩
    have hspace : min buf.length (submitSpace d) = low := by
      rw [submitSpace, if_neg hahead, hlow]
    have htaken : buf.take (submitSpace d) = buf.take low := by
      rw [List.take_eq_take_min, Nat.min_comm, hspace]
    have hlowlen : (buf.take low).length = low := by
      rw [List.length_take]; omega
    simp only [if_neg hahead, ← hlow, hspace, htaken]
    rw [submitted, hlowlen, Ring.put_eq_store _ _ (by rw [hlowlen]; omega),
      Nat.mod_eq_of_lt (show d.fillPtr + low < d.ringSize by omega)]

/-- The whole call.  When the fill index is the one before the playback index the call
returns early, and there is no room either. -/
theorem submit_spec {d : AudioDac} (h : d.WellFormed) (hring : d.ringNull = false)
    (buf : List Sample) :
    audiodac0SubmitBuffer buf none d =
      (min buf.length (submitSpace d), submitted d (buf.take (submitSpace d))) := by
  have hp := h.playback_lt
  unfold audiodac0SubmitBuffer
  split
  · exact submitCopy_spec h buf
  · rename_i hcheck
    have hfull : (d.fillPtr : ℤ) = (d.playbackPtr : ℤ) - 1 := by
      by_contra hne
      refine hcheck ?_
      have hsize : d.ringSize ≠ 0 := by omega
      simp [submitCheck, hring, hsize, hne]
    have hspace : submitSpace d = 0 := by
      rw [submitSpace, if_neg (by omega)]
      omega
    rw [hspace, Nat.min_zero, List.take_zero, submitted_nil h]

/-! ## Section 2: The accounting of a submit call -/

/-- The number of samples of a buffer of `n` that the ring has room for, by
`audiodac0_samples_available`. -/
def accepts (n : ℕ) (d : AudioDac) : ℕ := min n d.samplesAvailable.toNat

/-- The call accepts what there is room for, returns the number of accepted samples, puts them
into the slots that follow the fill index, raises the level by their number and leaves the
other slots alone. -/
structure Accounted (buf : List Sample) (d : AudioDac) : Prop where
  returns : (audiodac0SubmitBuffer buf none d).1 = accepts buf.length d
  stored : ∀ (i : ℕ) (hi : i < buf.length), i < accepts buf.length d →
    (audiodac0SubmitBuffer buf none d).2.ring ((d.fillPtr + i) % d.ringSize) = buf[i]
  others : ∀ k, (∀ i < accepts buf.length d, k ≠ (d.fillPtr + i) % d.ringSize) →
    (audiodac0SubmitBuffer buf none d).2.ring k = d.ring k
  filled : (audiodac0SubmitBuffer buf none d).2.samplesFilled =
    d.samplesFilled + accepts buf.length d

theorem wellFormed_submitted {d : AudioDac} (h : d.WellFormed) (xs : List Sample) :
    (submitted d xs).WellFormed where
  playback_lt := h.playback_lt
  fill_lt := Nat.mod_lt _ (Nat.zero_lt_of_lt h.fill_lt)

theorem samplesFilled_submitted {d : AudioDac} (h : d.WellFormed) {xs : List Sample}
    (hroom : d.samplesFilled + xs.length < d.ringSize) :
    (submitted d xs).samplesFilled = d.samplesFilled + xs.length := by
  refine (wellFormed_submitted h xs).samplesFilled_unique hroom ?_
  calc (d.playbackPtr + (d.samplesFilled + xs.length)) % d.ringSize
      = ((d.playbackPtr + d.samplesFilled) % d.ringSize + xs.length) % d.ringSize := by
        rw [Nat.mod_add_mod, Nat.add_assoc]
    _ = (d.fillPtr + xs.length) % d.ringSize := by rw [h.fillPtr_eq]

theorem samplesAvailable_toNat {d : AudioDac} (h : d.WellFormed) :
    d.samplesAvailable.toNat + d.samplesFilled + 1 = d.ringSize := by
  have hlt := h.samplesFilled_lt
  unfold AudioDac.samplesAvailable
  omega

/-- The room the call finds is the free space, and one slot more when the fill index is not
behind the playback index. -/
theorem submitSpace_eq {d : AudioDac} (h : d.WellFormed) :
    submitSpace d = d.samplesAvailable.toNat + if d.fillPtr ≥ d.playbackPtr then 1 else 0 := by
  have hp := h.playback_lt
  have hf := h.fill_lt
  have havail := samplesAvailable_toNat h
  unfold submitSpace
  unfold AudioDac.samplesFilled at havail
  split
  · rename_i hahead
    rw [if_pos hahead] at havail
    omega
  · rename_i hbehind
    rw [if_neg hbehind] at havail
    omega

theorem accounted_iff {d : AudioDac} (h : d.WellFormed) (hring : d.ringNull = false)
    (buf : List Sample) : Accounted buf d ↔ d.Roomy buf.length := by
  have havail := samplesAvailable_toNat h
  have hspace := submitSpace_eq h
  have hspec := submit_spec h hring buf
  have hcount : min buf.length (submitSpace d) = accepts buf.length d ↔ d.Roomy buf.length := by
    unfold AudioDac.Roomy accepts
    split at hspace <;> omega
  refine ⟨fun hacc => hcount.mp ?_, fun hroomy => ?_⟩
  · have hret := hacc.returns
    rwa [hspec] at hret
  · obtain ⟨m, hm⟩ : ∃ m, m = accepts buf.length d := ⟨_, rfl⟩
    have hmin := hcount.mpr hroomy
    have htaken : buf.take (submitSpace d) = buf.take m := by
      rw [List.take_eq_take_min, Nat.min_comm, hmin, hm]
    have hle : m ≤ buf.length ∧ m ≤ d.samplesAvailable.toNat := by
      rw [hm]
      exact ⟨Nat.min_le_left _ _, Nat.min_le_right _ _⟩
    have hlen : (buf.take m).length = m := by
      rw [List.length_take, Nat.min_eq_left hle.1]
    rw [hmin, htaken, ← hm] at hspec
    refine ⟨?_, fun i hi hlt => ?_, fun k hk => ?_, ?_⟩
    · rw [hspec, hm]
    · rw [← hm] at hlt
      rw [hspec]
      refine (Ring.put_getElem _ _ (by omega) (by omega)).trans ?_
      exact List.getElem_take
    · rw [hspec]
      exact Ring.put_of_ne _ _ fun i hi => hk i (by omega)
    · rw [hspec, ← hm]
      exact (samplesFilled_submitted h (by omega)).trans (by rw [hlen])

/-! ## Section 3: The level in the reply -/

/-- The samples that the data of a request carry. -/
def requestSamples (data : Memory Byte) (dataLen : ℕ) : List Sample :=
  (List.range (dataLen / 2)).map fun i => be16 (data (i * 2)) (data (i * 2 + 1))

/-- The fill level in the data of a reply. -/
def replyLevel (data : Memory Byte) : ℕ := (be16 (data 0) (data 1)).toNat

/-- The level that `modbus_store_reg` computes. -/
def replyFill (d : AudioDac) : ℤ :=
  if d.playbackPtr ≤ d.fillPtr then (d.fillPtr : ℤ) - d.playbackPtr
  else (d.ringSize : ℤ) - d.playbackPtr + d.fillPtr - 1

/-- Every buffer is what some request carries. -/
theorem exists_requestSamples (buf : List Sample) :
    ∃ data dataLen, requestSamples data dataLen = buf := by
  refine ⟨fun k => if k % 2 = 0 then (buf.getD (k / 2) 0 >>> 8).setWidth 8
    else (buf.getD (k / 2) 0).setWidth 8, buf.length * 2, ?_⟩
  apply List.ext_getElem
  · simp [requestSamples]
  · intro i h₁ h₂
    have hodd : ¬ (i * 2 + 1) % 2 = 0 := by omega
    have hhalf : (i * 2 + 1) / 2 = i := by omega
    simp [requestSamples, hhalf, be16_parts, h₂]

theorem be16_ofInt (f : ℤ) :
    be16 (BitVec.ofInt 8 (f / 256)) (BitVec.ofInt 8 f) = BitVec.ofInt 16 f := by
  refine Eq.trans ?_ (be16_parts (BitVec.ofInt 16 f))
  congr 1
  · apply BitVec.eq_of_toNat_eq
    simp only [BitVec.toNat_ofInt, BitVec.toNat_setWidth, BitVec.toNat_ushiftRight]
    rw [Nat.shiftRight_eq_div_pow]
    omega
  · apply BitVec.eq_of_toNat_eq
    simp only [BitVec.toNat_ofInt, BitVec.toNat_setWidth]
    omega

theorem replyLevel_storeAudio (io : RequestIo) (soc : Soc b) (data : Memory Byte)
    (dataLen : ℕ) :
    replyLevel (storeAudio io soc data dataLen).data =
      (BitVec.ofInt 16
        (replyFill (audiodac0SubmitBuffer (requestSamples data dataLen) io.dac
          soc.audiodac0).2)).toNat :=
  congrArg BitVec.toNat (be16_ofInt _)

/-- A level is reported as it is when the samples lie in one block and it fits into 16 bits;
otherwise the formula is one short. -/
theorem replyFill_iff {d : AudioDac} (h : d.WellFormed) :
    (BitVec.ofInt 16 (replyFill d)).toNat = d.samplesFilled ↔
      d.playbackPtr ≤ d.fillPtr ∧ d.samplesFilled < 65536 := by
  have hp := h.playback_lt
  rw [BitVec.toNat_ofInt]
  unfold replyFill AudioDac.samplesFilled
  split <;> omega

/-! ## Section 4: Accounting and report -/

/-- The submit call accounts for every sample, and the reply to a request that submits the
buffer reports the level found after it. -/
structure SubmitsAndReports (soc : Soc b) (buf : List Sample) : Prop where
  accounted : Accounted buf soc.audiodac0
  reported : ∀ (io : RequestIo) (data : Memory Byte) (dataLen : ℕ), io.dac = none →
    requestSamples data dataLen = buf →
    replyLevel (storeAudio io soc data dataLen).data =
      (storeAudio io soc data dataLen).soc.audiodac0.samplesFilled

/-- **Submit and report.**  All of it holds exactly when the samples, old and new, end before
the end of the ring, and the level fits into the two bytes of the reply. -/
theorem submitsAndReports_iff (soc : Soc b) (buf : List Sample)
    (hring : soc.audiodac0.ringNull = false) (hwf : soc.audiodac0.WellFormed) :
    SubmitsAndReports soc buf ↔
      soc.audiodac0.playbackPtr ≤ soc.audiodac0.fillPtr ∧
        soc.audiodac0.fillPtr + buf.length < soc.audiodac0.ringSize ∧
        soc.audiodac0.fillPtr + buf.length - soc.audiodac0.playbackPtr < 65536 := by
  obtain ⟨d, hd⟩ : ∃ d, d = soc.audiodac0 := ⟨_, rfl⟩
  rw [← hd] at hring hwf ⊢
  have hp := hwf.playback_lt
  have hf := hwf.fill_lt
  have hacc := accounted_iff hwf hring buf
  -- what a request for `buf` reports, and what the level is then
  have hreport : (∀ (io : RequestIo) (data : Memory Byte) (dataLen : ℕ), io.dac = none →
      requestSamples data dataLen = buf →
      replyLevel (storeAudio io soc data dataLen).data =
        (storeAudio io soc data dataLen).soc.audiodac0.samplesFilled) ↔
      (submitted d (buf.take (submitSpace d))).playbackPtr ≤
          (submitted d (buf.take (submitSpace d))).fillPtr ∧
        (submitted d (buf.take (submitSpace d))).samplesFilled < 65536 := by
    rw [← replyFill_iff (wellFormed_submitted hwf _)]
    have hsub : (audiodac0SubmitBuffer buf none d).2 =
        submitted d (buf.take (submitSpace d)) := by rw [submit_spec hwf hring buf]
    rw [← hsub, hd]
    constructor
    · intro hall
      obtain ⟨data, dataLen, hbuf⟩ := exists_requestSamples buf
      have hone := hall quietIo data dataLen rfl hbuf
      rw [replyLevel_storeAudio, hbuf] at hone
      exact hone.trans (congrArg (fun xs => AudioDac.samplesFilled
        (audiodac0SubmitBuffer xs none soc.audiodac0).2) hbuf)
    · intro hone io data dataLen hdac hbuf
      rw [replyLevel_storeAudio, hbuf, hdac, hone, ← hbuf, ← hdac]
      rfl
  have hspace := submitSpace_eq hwf
  have havail := samplesAvailable_toNat hwf
  have hlen : (buf.take (submitSpace d)).length = min (submitSpace d) buf.length :=
    List.length_take
  have hfill : (submitted d (buf.take (submitSpace d))).fillPtr =
      (d.fillPtr + min (submitSpace d) buf.length) % d.ringSize := by rw [← hlen]; rfl
  constructor
  · intro hcontract
    obtain ⟨hone, hshort⟩ := hreport.mp hcontract.reported
    have hroomy := hacc.mp (hd ▸ hcontract.accounted)
    rw [hfill] at hone
    -- the fill index is ahead: else the level would come out wrong
    have hahead : d.fillPtr ≥ d.playbackPtr := by
      by_contra hbehind
      -- behind the playback index, the copy stops short of it
      rw [if_neg hbehind, Nat.add_zero] at hspace
      rw [AudioDac.samplesFilled, if_neg hbehind] at havail
      have hlt : d.fillPtr + min (submitSpace d) buf.length < d.playbackPtr := by omega
      rw [Nat.mod_eq_of_lt (hlt.trans hp)] at hone
      exact absurd hone (Nat.not_le.mpr hlt)
    have hfilled : d.samplesFilled = d.fillPtr - d.playbackPtr := if_pos hahead
    have hn : buf.length + d.samplesFilled < d.ringSize := hroomy.resolve_left (by omega)
    rw [if_pos hahead] at hspace
    have hmin : min (submitSpace d) buf.length = buf.length := by omega
    rw [hmin] at hone hlen
    -- and the copy does not go round
    have hend : d.fillPtr + buf.length < d.ringSize := by
      by_contra hround
      have hwrap : (d.fillPtr + buf.length) % d.ringSize =
          d.fillPtr + buf.length - d.ringSize := by
        rw [Nat.mod_eq_sub_mod (Nat.le_of_not_lt hround), Nat.mod_eq_of_lt (by omega)]
      have hle : d.playbackPtr ≤ d.fillPtr + buf.length - d.ringSize := hwrap ▸ hone
      omega
    have hroom : d.samplesFilled + (buf.take (submitSpace d)).length < d.ringSize := by omega
    rw [samplesFilled_submitted hwf hroom] at hshort
    exact ⟨hahead, hend, by omega⟩
  · rintro ⟨hahead, hend, hshort⟩
    -- a copy in one piece
    have hfilled : d.samplesFilled = d.fillPtr - d.playbackPtr := if_pos hahead
    rw [if_pos hahead] at hspace
    have hmin : min (submitSpace d) buf.length = buf.length := by omega
    rw [hmin] at hfill hlen
    rw [Nat.mod_eq_of_lt hend] at hfill
    have hroom : d.samplesFilled + (buf.take (submitSpace d)).length < d.ringSize := by omega
    refine ⟨hd ▸ hacc.mpr (Or.inr (by omega)), hreport.mpr ⟨?_, ?_⟩⟩
    · rw [hfill]
      exact Nat.le_add_right_of_le hahead
    · rw [samplesFilled_submitted hwf hroom]
      omega

/-- Five samples wait in a ring of twenty, and three more are submitted. -/
def halfFull : Soc monitorBuild :=
  { powerUp monitorBuild with
    audiodac0 := { ringNull := false, ringSize := 20, playbackPtr := 4, fillPtr := 9 } }

theorem submitsAndReports_halfFull :
    (4 ≤ 9 ∧ 9 + 3 < 20 ∧ 9 + 3 - 4 < 65536) ∧ SubmitsAndReports halfFull [1, 2, 3] := by
  refine ⟨by decide, ?_⟩
  exact (submitsAndReports_iff halfFull [1, 2, 3] rfl ⟨by decide, by decide⟩).mpr (by decide)

/-- An empty ring of ten samples that the playback has gone half way through. -/
def drainedRing : Soc monitorBuild :=
  { powerUp monitorBuild with
    audiodac0 := { ringNull := false, ringSize := 10, playbackPtr := 5, fillPtr := 5 } }

/-- It has room for nine samples.  A buffer of twelve is reported as accepted with ten, and
the ring is empty again. -/
theorem not_submitsAndReports_drainedRing :
    drainedRing.audiodac0.ringNull = false ∧ drainedRing.audiodac0.WellFormed ∧
      drainedRing.audiodac0.samplesAvailable = 9 ∧
      (audiodac0SubmitBuffer (List.replicate 12 7) none drainedRing.audiodac0).1 = 10 ∧
      (audiodac0SubmitBuffer (List.replicate 12 7) none drainedRing.audiodac0).2.samplesFilled
        = 0 ∧
      ¬ SubmitsAndReports drainedRing (List.replicate 12 7) := by
  refine ⟨rfl, ⟨by decide, by decide⟩, by decide, by decide, by decide, fun h => ?_⟩
  exact absurd h.accounted.returns (by decide)

end Karnix.Modbus
