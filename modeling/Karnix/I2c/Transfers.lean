import Karnix.I2c.Bus

/-!
# Transfers on the I2C bus

A transfer without STOP, with a START only where SCL is high before it, shows its nine pulses with
the bits of the byte, and brings in what the slave drives.  Together with what is known of STOP and
START, these are all the transfers that are carried out.
-/

namespace Karnix.I2c

open Karnix.Library

/-! ## Section 1: Bits -/

theorem getLsbD_shift17 (x : BitVec 32) (b : Bool) {j : ℕ} (hj : j ≤ 16) :
    (shift17 x b).getLsbD j = if j = 0 then b else x.getLsbD (j - 1) := by
  simp only [shift17, BitVec.getLsbD_append, BitVec.getLsbD_ofBool]
  by_cases h0 : j = 0
  · simp [h0]
  · have h1 : ¬ j < 1 := by omega
    have h16 : j - 1 < 16 := by omega
    simp [h0, h1, h16]

theorem getLsbD_shift8 (x : BitVec 32) (b : Bool) {j : ℕ} (hj : j ≤ 7) :
    (shift8 x b).getLsbD j = if j = 0 then b else x.getLsbD (j - 1) := by
  simp only [shift8, BitVec.getLsbD_append, BitVec.getLsbD_ofBool]
  by_cases h0 : j = 0
  · simp [h0]
  · have h1 : ¬ j < 1 := by omega
    have h7 : j - 1 < 7 := by omega
    simp [h0, h1, h7]

/-! ## Section 2: Pulses -/

/-- The phase of pulse `k` and of the low time before it; pulse `9` is the acknowledgement. -/
def phaseOf (k : ℕ) (high : Bool) : Phase :=
  if k ≤ 7 then .txData else if k = 8 then .ack else if high then .stop2 else .stop1

/-- The controller is in pulse `k`, or in the low time before it; `samples` are the levels of the
pulses so far.  Pulse `0` is the time after the START. -/
structure Pulse (c : Ctrl) (d : BitVec 8) (k : ℕ) (high : Bool) (samples : List Bool) (s : Ctrl) :
    Prop where
  le_nine : k ≤ 9
  config : s.config = c.config
  state : s.state = phaseOf k high
  scl : s.scl = high
  counter : s.bitCounter.toNat = 7 - k
  sda : k ≤ 8 → s.sda = if k = 0 then false else d.getLsbD (8 - k)
  txData : ∀ j, k ≤ j → j ≤ 7 → s.txData.getLsbD j = d.getLsbD (j - k)
  rxData : ∀ j, j + 1 < k → samples[j]? = some (s.rxData.getLsbD (k - 2 - j))

/-- What the controller drives in pulse `j + 1`. -/
def bitOut (c : Ctrl) (d : BitVec 8) (j : ℕ) : Option Bool :=
  if j < 8 then if c.txDrive then some (d.getLsbD (7 - j)) else none
  else if c.txAck then some false else none

section Steps

variable {c s : Ctrl} {d : BitVec 8} {k : ℕ} {high : Bool} {samples : List Bool} {i : Input}

/-- The parts of the configuration. -/
theorem Pulse.parts (h : Pulse c d k high samples s) :
    s.enable = c.enable ∧ s.needStop = c.needStop ∧ s.txDrive = c.txDrive ∧ s.txAck = c.txAck := by
  have hconfig := h.config
  simp only [Ctrl.config, Prod.mk.injEq] at hconfig
  exact ⟨hconfig.1, hconfig.2.2.1, hconfig.2.2.2.1, hconfig.2.2.2.2⟩

theorem phaseOf_ne_idle : phaseOf k high ≠ .idle := by
  unfold phaseOf
  split
  · decide
  · split
    · decide
    · split <;> decide

theorem Pulse.not_resting (h : Pulse c d k high samples s) : ¬ s.Resting := fun hrest =>
  phaseOf_ne_idle (h.state.symm.trans hrest.1)

/-- What is driven in a pulse. -/
theorem Pulse.sdaOut (h : Pulse c d (k + 1) true samples s) (hsound : Sound s)
    (he : c.enable = true) (hstop : c.needStop = false) : s.sdaOut = bitOut c d k := by
  obtain ⟨henable, hneed, hdrive, hack⟩ := h.parts
  have hstate := h.state
  have hle := h.le_nine
  unfold phaseOf at hstate
  by_cases h7 : k + 1 ≤ 7
  · rw [if_pos h7] at hstate
    have hsda := h.sda (by omega)
    rw [if_neg (Nat.succ_ne_zero k), show 8 - (k + 1) = 7 - k by omega] at hsda
    simp [Ctrl.sdaOut, bitOut, henable, he, hstate, hdrive, hsda, show k < 8 by omega]
  · rw [if_neg h7] at hstate
    by_cases h8 : k + 1 = 8
    · rw [if_pos h8] at hstate
      have hsda := h.sda (by omega)
      rw [if_neg (Nat.succ_ne_zero k), show 8 - (k + 1) = 7 - k by omega] at hsda
      simp [Ctrl.sdaOut, bitOut, henable, he, hstate, hdrive, hsda, show k < 8 by omega]
    · rw [if_neg h8, if_pos rfl] at hstate
      have hsda := (hsound.stop2 hstate).2
      cases ha : c.txAck <;>
        simp [Ctrl.sdaOut, bitOut, henable, he, hstate, hneed, hstop, hack, ha, hsda,
          show ¬ k < 8 by omega]

/-- Between the ticks the machine keeps everything but an acknowledgement it prepares. -/
theorem sm_not_tick {b : Bool} (he : s.enable = true) (ht : s.tick = false) :
    ∃ z, s.sm b = { s with sda := z } ∧ (s.state ≠ .stop1 → z = s.sda) := by
  by_cases hack : s.state = .stop1 ∧ s.txAck = true
  · exact ⟨false, by simp [Ctrl.sm, he, ht, hack], fun hs => absurd hack.1 hs⟩
  · have hkeep : s.sm b = s := by
      simp only [Ctrl.sm, if_pos he, ht, if_neg hack]
      exact if_neg Bool.false_ne_true
    exact ⟨s.sda, hkeep, fun _ => rfl⟩

/-- Between the ticks a pulse goes on. -/
theorem Pulse.stay (h : Pulse c d k high samples s) (he : c.enable = true) (ht : s.tick = false)
    (ha : Access.isTxData i.access = false) (hc : Access.isControl i.access = false) :
    Pulse c d k high samples (s.next i) := by
  obtain ⟨z, hsm, hz⟩ := sm_not_tick (b := s.wire i.slave) (h.parts.1.trans he) ht
  refine ⟨h.le_nine, (Ctrl.next_config hc).trans h.config, ?_, ?_, ?_, ?_, ?_, ?_⟩
  · rw [Ctrl.next_state, hsm]
    exact h.state
  · rw [Ctrl.next_scl, hsm]
    exact h.scl
  · rw [next_bitCounter_of_not_write ha, hsm]
    exact h.counter
  · intro hk
    have h1 : s.state ≠ .stop1 := by
      rw [h.state]
      unfold phaseOf
      split
      · decide
      · rw [if_pos (by omega)]
        decide
    rw [Ctrl.next_sda, hsm]
    exact (hz h1).trans (h.sda hk)
  · rw [Ctrl.next_txData ha, hsm]
    exact h.txData
  · rw [Ctrl.next_rxData, hsm]
    exact h.rxData

/-- At a tick SCL rises. -/
theorem Pulse.rise (h : Pulse c d k false samples s) (b : Bool) (he : c.enable = true)
    (ht : s.tick = true) (ha : Access.isTxData i.access = false)
    (hc : Access.isControl i.access = false) :
    Pulse c d k true (samples ++ [b]) (s.next i) := by
  have hon := h.parts.1.trans he
  have hle := h.le_nine
  have hstate := h.state
  -- nothing but SCL changes, and the phase of an acknowledgement
  have hsm : ∃ z, s.sm (s.wire i.slave) =
      { s with state := phaseOf k true, scl := true, sda := z } ∧ (k ≤ 8 → z = s.sda) := by
    unfold phaseOf at hstate ⊢
    by_cases h7 : k ≤ 7
    · rw [if_pos h7] at hstate ⊢
      refine ⟨s.sda, ?_, fun _ => rfl⟩
      rw [sm_of_tick hon ht (by rw [hstate]; decide)]
      simp [Ctrl.onTick, hstate, h.scl]
    · rw [if_neg h7] at hstate ⊢
      by_cases h8 : k = 8
      · rw [if_pos h8] at hstate ⊢
        refine ⟨s.sda, ?_, fun _ => rfl⟩
        rw [sm_of_tick hon ht (by rw [hstate]; decide)]
        simp [Ctrl.onTick, hstate, h.scl]
      · rw [if_neg h8, if_neg Bool.false_ne_true] at hstate
        rw [if_neg h8, if_pos rfl]
        refine ⟨if s.txAck then false else s.sda, ?_, fun h' => absurd h' (by omega)⟩
        rw [sm_stop1 hon hstate h.scl, ht]
        rfl
  obtain ⟨z, hsm, hz⟩ := hsm
  refine ⟨hle, (Ctrl.next_config hc).trans h.config, ?_, ?_, ?_, ?_, ?_, ?_⟩
  · rw [Ctrl.next_state, hsm]
  · rw [Ctrl.next_scl, hsm]
  · rw [next_bitCounter_of_not_write ha, hsm]
    exact h.counter
  · intro h8
    rw [Ctrl.next_sda, hsm]
    exact (hz h8).trans (h.sda h8)
  · rw [Ctrl.next_txData ha, hsm]
    exact h.txData
  · intro j hj
    have hget := h.rxData j hj
    obtain ⟨hlt, -⟩ := List.getElem?_eq_some_iff.mp hget
    rw [Ctrl.next_rxData, hsm, List.getElem?_append_left hlt]
    exact hget

/-- What comes in at the end of pulse `k`. -/
theorem samples_shift {rx rx' : BitVec 32} {b : Bool}
    (hold : ∀ j, j + 1 < k → samples[j]? = some (rx.getLsbD (k - 2 - j)))
    (hlast : 0 < k → samples[k - 1]? = some b)
    (hnew : ∀ j, j < k → rx'.getLsbD j = if j = 0 then b else rx.getLsbD (j - 1)) (j : ℕ)
    (hj : j + 1 < k + 1) : samples[j]? = some (rx'.getLsbD (k + 1 - 2 - j)) := by
  rw [hnew _ (by omega)]
  by_cases hk : j + 1 = k
  · rw [if_pos (by omega), show j = k - 1 by omega]
    exact hlast (by omega)
  · rw [if_neg (by omega), show k + 1 - 2 - j - 1 = k - 2 - j by omega]
    exact hold j (by omega)

/-- At a tick SCL falls, and the next bit goes out. -/
theorem Pulse.fall (h : Pulse c d k true samples s) (he : c.enable = true) (hk : k ≤ 8)
    (hlast : 0 < k → samples[k - 1]? = some (s.wire i.slave)) (ht : s.tick = true)
    (ha : Access.isTxData i.access = false) (hc : Access.isControl i.access = false) :
    Pulse c d (k + 1) false samples (s.next i) := by
  have hon := h.parts.1.trans he
  have hstate := h.state
  have hcount := h.counter
  unfold phaseOf at hstate
  by_cases h7 : k ≤ 7
  · -- a bit of the byte has been sent, and the next one, or the acknowledgement, follows
    rw [if_pos h7] at hstate
    have hsm : s.sm (s.wire i.slave) = { s.shiftBit (s.wire i.slave) with scl := false } := by
      rw [sm_of_tick hon ht (by rw [hstate]; decide)]
      simp [Ctrl.onTick, hstate, h.scl]
    refine ⟨by omega, (Ctrl.next_config hc).trans h.config, ?_, ?_, ?_, ?_, ?_, ?_⟩
    · rw [Ctrl.next_state, hsm]
      unfold phaseOf
      by_cases hzero : s.bitCounter = 0
      · have hz : s.bitCounter.toNat = 0 := by rw [hzero]; rfl
        rw [if_neg (by omega), if_pos (by omega)]
        simp only [Ctrl.shiftBit, if_pos hzero]
      · have hz : s.bitCounter.toNat ≠ 0 := fun h0 => hzero (BitVec.eq_of_toNat_eq h0)
        rw [if_pos (by omega)]
        simp only [Ctrl.shiftBit, if_neg hzero]
    · rw [Ctrl.next_scl, hsm]
    · rw [next_bitCounter_of_not_write ha, hsm]
      by_cases hzero : s.bitCounter = 0
      · have hz : s.bitCounter.toNat = 0 := by rw [hzero]; rfl
        simp only [Ctrl.shiftBit, if_pos hzero]
        omega
      · have hz : s.bitCounter.toNat ≠ 0 := fun h0 => hzero (BitVec.eq_of_toNat_eq h0)
        simp only [Ctrl.shiftBit, if_neg hzero]
        have hlt := s.bitCounter.isLt
        rw [BitVec.toNat_sub_of_le (by rw [BitVec.le_def]; exact Nat.one_le_iff_ne_zero.mpr hz),
          hcount]
        rfl
    · intro h8
      rw [Ctrl.next_sda, hsm, if_neg (Nat.succ_ne_zero k), show 8 - (k + 1) = 7 - k by omega]
      exact h.txData 7 h7 le_rfl
    · intro j hj hj7
      rw [Ctrl.next_txData ha, hsm]
      refine (getLsbD_shift17 s.txData false (by omega)).trans ?_
      rw [if_neg (by omega), h.txData (j - 1) (by omega) (by omega),
        show j - 1 - k = j - (k + 1) by omega]
    · rw [Ctrl.next_rxData, hsm]
      exact samples_shift h.rxData hlast fun j hj => getLsbD_shift17 s.rxData _ (by omega)
  · -- the acknowledgement has been taken, and SDA is released
    obtain rfl : k = 8 := by omega
    rw [if_neg h7, if_pos rfl] at hstate
    have hsm : s.sm (s.wire i.slave) =
        { s with
          rxData := shift8 s.rxData (s.wire i.slave)
          sda := true
          state := .stop1
          scl := false } := by
      rw [sm_of_tick hon ht (by rw [hstate]; decide)]
      simp [Ctrl.onTick, hstate, h.scl]
    refine ⟨le_rfl, (Ctrl.next_config hc).trans h.config, ?_, ?_, ?_,
      fun h9 => absurd h9 (by decide), fun j hj hj7 => absurd hj (by omega), ?_⟩
    · rw [Ctrl.next_state, hsm]
      rfl
    · rw [Ctrl.next_scl, hsm]
    · rw [next_bitCounter_of_not_write ha, hsm]
      exact hcount
    · rw [Ctrl.next_rxData, hsm]
      exact samples_shift h.rxData hlast fun j hj => getLsbD_shift8 s.rxData _ (by omega)

/-- The acknowledgement comes in, and the transfer is over. -/
theorem Pulse.finish (h : Pulse c d 9 true samples s) (he : c.enable = true)
    (hstop : c.needStop = false) (ht : s.tick = true) (ha : Access.isTxData i.access = false) :
    (s.next i).Resting ∧ (s.next i).scl = false ∧ (s.next i).rxData = s.rxData ∧
      (s.next i).rxAck = s.wire i.slave := by
  have hon := h.parts.1.trans he
  have hstate : s.state = .stop2 := h.state
  have hsm : s.sm (s.wire i.slave) =
      { s with scl := false, state := .idle, txBusy := false, rxAck := s.wire i.slave } := by
    rw [sm_of_tick hon ht (by rw [hstate]; decide)]
    simp [Ctrl.onTick, hstate, h.scl, h.parts.2.1, hstop]
  refine ⟨⟨?_, ?_⟩, ?_, ?_, ?_⟩
  · rw [Ctrl.next_state, hsm]
  · rw [next_bitCounter_of_not_write ha, hsm]
    exact BitVec.eq_of_toNat_eq h.counter
  · rw [Ctrl.next_scl, hsm]
  · rw [Ctrl.next_rxData, hsm]
  · rw [Ctrl.next_rxAck, hsm]

end Steps

/-! ## Section 3: A transfer under way -/

section Run

variable {inp : ℕ → Input} {c : Ctrl} {d : BitVec 8} {w s a n k : ℕ} {high : Bool}
variable {samples : List Bool}

theorem pulses_succ (a m : ℕ) :
    pulses inp a (m + 1) =
      pulses inp a m + if !scl inp (a + m) && scl inp (a + m + 1) then 1 else 0 := by
  simp [pulses, List.range_succ, List.countP_cons]

/-- No pulse begins in a cycle in which SCL is high, or low in the next one. -/
theorem pulses_step (hs : s ≤ n) (h : scl inp n = true ∨ scl inp (n + 1) = false) :
    pulses inp s (n + 1 - s) = pulses inp s (n - s) := by
  rw [show n + 1 - s = n - s + 1 by omega, pulses_succ, show s + (n - s) = n by omega]
  rcases h with h | h <;> simp [h]

/-- **Ticks.**  What lasts from cycle to cycle, until there is a tick, comes to a tick. -/
theorem exists_tick {P : ℕ → Prop} (hon : ∀ n, P n → (ctrlAt inp n).enable = true)
    (hstay : ∀ n, P n → (ctrlAt inp n).tick = false → P (n + 1)) (h : P n) :
    ∃ m, P m ∧ (ctrlAt inp m).tick = true := by
  -- induction on the counter
  generalize hv : (ctrlAt inp n).clockCounter.toNat = v
  induction v generalizing n with
  | zero =>
    cases ht : (ctrlAt inp n).tick with
    | true => exact ⟨n, h, ht⟩
    | false =>
      refine ⟨n + 1, hstay n h ht, ?_⟩
      have hzero : (ctrlAt inp n).clockCounter = 0 := BitVec.eq_of_toNat_eq hv
      rw [ctrlAt_succ, Ctrl.next_tick]
      simp [Ctrl.clock, hon n h, hzero]
  | succ v ih =>
    cases ht : (ctrlAt inp n).tick with
    | true => exact ⟨n, h, ht⟩
    | false =>
      refine ih (hstay n h ht) ?_
      have hne : (ctrlAt inp n).clockCounter ≠ 0 := by
        intro h0
        rw [h0] at hv
        exact absurd hv (by simp)
      rw [ctrlAt_succ, Ctrl.next_clockCounter]
      simp only [Ctrl.clock, hon n h, if_true, if_neg hne]
      rw [BitVec.toNat_sub_of_le (by rw [BitVec.le_def, hv]; exact Nat.succ_le_succ v.zero_le), hv]
      rfl

/-- In cycle `n` the transfer is in pulse `k` or in the low time before it, and all is well so
far. -/
structure Underway (inp : ℕ → Input) (c : Ctrl) (d : BitVec 8) (w s a n k : ℕ) (high : Bool)
    (samples : List Bool) : Prop where
  pulse : Pulse c d k high samples (ctrlAt inp n)
  begun : high = false → 0 < k
  lt : w < n
  le : s ≤ n
  quiet : ∀ m, w < m → m < n → ¬ Writes inp m
  count : pulses inp s (n - s) = if high then k else k - 1
  length : samples.length = if high then k else k - 1
  past : ∀ m j, s ≤ m → m ≤ n → scl inp m = true → pulses inp s (m - s) = j + 1 →
    (ctrlAt inp m).sdaOut = bitOut c d j ∧ samples[j]? = some (sda inp m)
  still : Still inp a n

namespace Underway

/-- The software leaves the controller alone. -/
theorem alone (h : Underway inp c d w s a n k high samples) (hobeys : Obeys inp) :
    Access.isTxData (inp n).access = false ∧ Access.isControl (inp n).access = false :=
  ⟨Bool.eq_false_iff.mpr fun ha => h.pulse.not_resting (hobeys.data n ha).2,
    Bool.eq_false_iff.mpr fun ha => h.pulse.not_resting (hobeys.control n ha)⟩

theorem quiet_succ (h : Underway inp c d w s a n k high samples) (hobeys : Obeys inp) :
    ∀ m, w < m → m < n + 1 → ¬ Writes inp m := by
  intro m hm hlt
  rcases Nat.lt_or_eq_of_le (Nat.lt_succ_iff.mp hlt) with hlt | rfl
  · exact h.quiet m hm hlt
  · exact Bool.eq_false_iff.mp (h.alone hobeys).1

/-- What was seen up to `n` stays, and there is one more cycle to look at. -/
theorem past_succ (h : Underway inp c d w s a n k high samples) {samples' : List Bool}
    (hsub : ∀ (j : ℕ) (b : Bool), samples[j]? = some b → samples'[j]? = some b)
    (hnew : scl inp (n + 1) = true → ∀ j, pulses inp s (n + 1 - s) = j + 1 →
      (ctrlAt inp (n + 1)).sdaOut = bitOut c d j ∧ samples'[j]? = some (sda inp (n + 1))) :
    ∀ m j, s ≤ m → m ≤ n + 1 → scl inp m = true → pulses inp s (m - s) = j + 1 →
      (ctrlAt inp m).sdaOut = bitOut c d j ∧ samples'[j]? = some (sda inp m) := by
  intro m j hm hle hscl hj
  rcases Nat.lt_or_eq_of_le hle with hlt | rfl
  · obtain ⟨hout, hsample⟩ := h.past m j hm (Nat.lt_succ_iff.mp hlt) hscl hj
    exact ⟨hout, hsub j _ hsample⟩
  · exact hnew hscl j hj

theorem still_succ (h : Underway inp c d w s a n k high samples)
    (hnew : High inp n → sda inp n = sda inp (n + 1)) : Still inp a (n + 1) := by
  intro m hm hlt hhigh
  rcases Nat.lt_or_eq_of_le (Nat.lt_succ_iff.mp hlt) with hlt | rfl
  · exact h.still m hm hlt hhigh
  · exact hnew hhigh

end Underway

/-- In a pulse the controller keeps what it makes of SDA. -/
theorem Pulse.level_eq {x y : Ctrl} (hx : Pulse c d k true samples x)
    (hy : Pulse c d k true samples y) (hsx : Sound x) (hsy : Sound y) (he : c.enable = true)
    (hstop : c.needStop = false) : x.level = y.level := by
  cases k with
  | zero =>
    have hlevel : ∀ z : Ctrl, Pulse c d 0 true samples z → z.level = !c.txDrive := by
      intro z hz
      rw [level_data (hz.parts.1.trans he) (Or.inr (Or.inl hz.state)), hz.parts.2.2.1,
        show z.sda = false from hz.sda (Nat.zero_le 8), Bool.or_false]
    rw [hlevel x hx, hlevel y hy]
  | succ k =>
    unfold Ctrl.level
    rw [hx.sdaOut hsx he hstop, hy.sdaOut hsy he hstop]

/-- Between the ticks the pulse goes on, and the slave keeps what it has. -/
theorem Underway.stay (h : Underway inp c d w s a n k high samples) (hobeys : Obeys inp)
    (he : c.enable = true) (hstop : c.needStop = false) (ht : (ctrlAt inp n).tick = false) :
    Underway inp c d w s a (n + 1) k high samples := by
  obtain ⟨ha, hc⟩ := h.alone hobeys
  have hnext : Pulse c d k high samples (ctrlAt inp (n + 1)) := h.pulse.stay he ht ha hc
  have hscl : scl inp n = high := h.pulse.scl
  have hscl' : scl inp (n + 1) = high := hnext.scl
  have hsame : High inp n → sda inp n = sda inp (n + 1) := by
    intro hhigh
    obtain rfl : high = true := hscl.symm.trans hhigh.1
    unfold sda Ctrl.wire
    rw [hobeys.slave n hhigh,
      h.pulse.level_eq hnext (hobeys.sound n) (hobeys.sound (n + 1)) he hstop]
  have hcount : pulses inp s (n + 1 - s) = pulses inp s (n - s) := by
    refine pulses_step h.le ?_
    cases high with
    | true => exact Or.inl hscl
    | false => exact Or.inr hscl'
  refine ⟨hnext, h.begun, Nat.lt_succ_of_lt h.lt, Nat.le_succ_of_le h.le, h.quiet_succ hobeys,
    hcount.trans h.count, h.length, h.past_succ (fun _ _ hb => hb) ?_, h.still_succ hsame⟩
  intro hup j hj
  obtain rfl : high = true := hscl'.symm.trans hup
  rw [hcount] at hj
  obtain ⟨-, hsample⟩ := h.past n j h.le le_rfl hscl hj
  rw [h.count, if_pos rfl] at hj
  subst hj
  exact ⟨hnext.sdaOut (hobeys.sound _) he hstop, hsample.trans (congrArg some (hsame ⟨hscl, hup⟩))⟩

/-- A tick that begins pulse `k`. -/
theorem Underway.rise (h : Underway inp c d w s a n k false samples) (hobeys : Obeys inp)
    (he : c.enable = true) (hstop : c.needStop = false) (ht : (ctrlAt inp n).tick = true) :
    Underway inp c d w s a (n + 1) k true (samples ++ [sda inp (n + 1)]) := by
  obtain ⟨ha, hc⟩ := h.alone hobeys
  have hnext : Pulse c d k true (samples ++ [sda inp (n + 1)]) (ctrlAt inp (n + 1)) :=
    h.pulse.rise _ he ht ha hc
  have hscl : scl inp n = false := h.pulse.scl
  have hscl' : scl inp (n + 1) = true := hnext.scl
  have hk := h.begun rfl
  have hle := h.le
  have hcount : pulses inp s (n + 1 - s) = k := by
    have hold := h.count
    rw [if_neg Bool.false_ne_true] at hold
    rw [show n + 1 - s = n - s + 1 by omega, pulses_succ, show s + (n - s) = n by omega, hold,
      hscl, hscl', if_pos (by decide)]
    omega
  have hlength : samples.length = k - 1 := by
    have hold := h.length
    rw [if_neg Bool.false_ne_true] at hold
    exact hold
  refine ⟨hnext, fun h' => absurd h' (by decide), Nat.lt_succ_of_lt h.lt, Nat.le_succ_of_le hle,
    h.quiet_succ hobeys, by rw [hcount, if_pos rfl], ?_, h.past_succ ?_ ?_,
    h.still_succ fun hhigh => absurd (hscl.symm.trans hhigh.1) (by decide)⟩
  · rw [List.length_append, hlength, List.length_singleton, if_pos rfl]
    omega
  · intro j b hb
    obtain ⟨hlt, -⟩ := List.getElem?_eq_some_iff.mp hb
    rw [List.getElem?_append_left hlt]
    exact hb
  · intro _ j hj
    obtain rfl : k = j + 1 := hcount.symm.trans hj
    refine ⟨hnext.sdaOut (hobeys.sound _) he hstop, ?_⟩
    rw [List.getElem?_append_right (by omega), show j - samples.length = 0 by omega]
    rfl

/-- A tick that ends pulse `k`. -/
theorem Underway.fall (h : Underway inp c d w s a n k true samples) (hobeys : Obeys inp)
    (he : c.enable = true) (hk : k ≤ 8) (ht : (ctrlAt inp n).tick = true) :
    Underway inp c d w s a (n + 1) (k + 1) false samples := by
  obtain ⟨ha, hc⟩ := h.alone hobeys
  have hscl : scl inp n = true := h.pulse.scl
  have hold : pulses inp s (n - s) = k := by
    have hcount := h.count
    rw [if_pos rfl] at hcount
    exact hcount
  have hlast : 0 < k → samples[k - 1]? = some (sda inp n) := fun hpos =>
    (h.past n (k - 1) h.le le_rfl hscl (by omega)).2
  have hnext : Pulse c d (k + 1) false samples (ctrlAt inp (n + 1)) :=
    h.pulse.fall he hk hlast ht ha hc
  have hscl' : scl inp (n + 1) = false := hnext.scl
  refine ⟨hnext, fun _ => Nat.succ_pos k, Nat.lt_succ_of_lt h.lt, Nat.le_succ_of_le h.le,
    h.quiet_succ hobeys, ?_, ?_, h.past_succ (fun _ _ hb => hb) ?_, ?_⟩
  · rw [pulses_step h.le (Or.inl hscl), hold, if_neg Bool.false_ne_true, Nat.add_sub_cancel]
  · have hlength := h.length
    rw [if_pos rfl] at hlength
    rw [hlength, if_neg Bool.false_ne_true, Nat.add_sub_cancel]
  · intro hup
    rw [hscl'] at hup
    exact absurd hup (by decide)
  · exact h.still_succ fun hhigh => absurd (hscl'.symm.trans hhigh.2) (by decide)

/-- The end of the acknowledgement is the end of the transfer. -/
theorem Underway.finish (h : Underway inp c d w s (if c.needStart then s + 1 else s) n 9 true
    samples) (hobeys : Obeys inp) (he : c.enable = true) (hstop : c.needStop = false)
    (ht : (ctrlAt inp n).tick = true) (hws : w ≤ s)
    (hstart : if c.needStart then Still inp w s ∧ StartAt inp s else s = w) :
    Carries inp c d w s (n + 1) (n + 1) := by
  obtain ⟨ha, hc⟩ := h.alone hobeys
  have hscl : scl inp n = true := h.pulse.scl
  obtain ⟨hrest, hlow, hrx, hack⟩ := h.pulse.finish (i := inp n) he hstop ht ha
  have hscl' : scl inp (n + 1) = false := hlow
  have hcount : pulses inp s (n - s) = 9 := by
    have hold := h.count
    rw [if_pos rfl] at hold
    exact hold
  have hle := h.le
  -- a cycle with SCL high is not the last one
  have hbefore : ∀ m, m ≤ n + 1 → scl inp m = true → m ≤ n := by
    intro m hm hup
    rcases Nat.lt_or_eq_of_le hm with hlt | rfl
    · exact Nat.lt_succ_iff.mp hlt
    · rw [hscl'] at hup
      exact absurd hup (by decide)
  obtain ⟨-, hlast⟩ := h.past n 8 hle le_rfl hscl hcount
  refine ⟨⟨hws, by omega, le_rfl⟩, hrest, ⟨Nat.lt_succ_of_lt h.lt, h.quiet_succ hobeys⟩, hstart,
    h.still_succ fun hhigh => absurd (hscl'.symm.trans hhigh.2) (by decide), ?_, ?_, ?_, ?_⟩
  · rw [hstop, pulses_step hle (Or.inl hscl), hcount]
    rfl
  · intro m j hm hme hup hj hj8
    obtain ⟨hout, hsample⟩ := h.past m j hm (hbefore m hme hup) hup hj
    refine ⟨hout.trans (if_pos hj8), ?_⟩
    have hrxbit := h.pulse.rxData j (by omega)
    rw [hsample, Option.some_inj] at hrxbit
    rw [hrxbit, ctrlAt_succ, hrx, show 9 - 2 - j = 7 - j by omega]
  · intro m hm hme hup hj
    obtain ⟨hout, hsample⟩ := h.past m 8 hm (hbefore m hme hup) hup hj
    refine ⟨hout.trans (if_neg (by decide)), ?_⟩
    rw [hlast, Option.some_inj] at hsample
    rw [ctrlAt_succ, hack, ← hsample]
    rfl
  · rw [hstop]
    rfl

/-- Low time comes to its pulse. -/
theorem Underway.exists_rise (h : Underway inp c d w s a n k false samples) (hobeys : Obeys inp)
    (he : c.enable = true) (hstop : c.needStop = false) :
    ∃ m samples', Underway inp c d w s a m k true samples' := by
  obtain ⟨m, hm, ht⟩ := exists_tick (P := fun m => Underway inp c d w s a m k false samples)
    (fun _ hm => hm.pulse.parts.1.trans he) (fun _ hm ht => hm.stay hobeys he hstop ht) h
  exact ⟨m + 1, _, hm.rise hobeys he hstop ht⟩

/-- A pulse comes to its end. -/
theorem Underway.exists_tick_high (h : Underway inp c d w s a n k true samples)
    (hobeys : Obeys inp) (he : c.enable = true) (hstop : c.needStop = false) :
    ∃ m, Underway inp c d w s a m k true samples ∧ (ctrlAt inp m).tick = true :=
  exists_tick (P := fun m => Underway inp c d w s a m k true samples)
    (fun _ hm => hm.pulse.parts.1.trans he) (fun _ hm ht => hm.stay hobeys he hstop ht) h

/-- **Run lemma.**  A transfer that has got to some pulse gets to the acknowledgement; `j` pulses
are left. -/
theorem Underway.exists_ack (h : Underway inp c d w s a n k true samples) (hobeys : Obeys inp)
    (he : c.enable = true) (hstop : c.needStop = false) (j : ℕ) (hj : k + j = 9) :
    ∃ m samples', Underway inp c d w s a m 9 true samples' ∧ (ctrlAt inp m).tick = true := by
  induction j generalizing n k samples with
  | zero =>
    obtain rfl : k = 9 := hj
    obtain ⟨m, hm, ht⟩ := h.exists_tick_high hobeys he hstop
    exact ⟨m, samples, hm, ht⟩
  | succ j ih =>
    obtain ⟨m, hm, ht⟩ := h.exists_tick_high hobeys he hstop
    obtain ⟨m', samples', hm'⟩ :=
      (hm.fall hobeys he (by omega) ht).exists_rise hobeys he hstop
    exact ih hm' (by omega)

/-! ## Section 4: The beginning of a transfer -/

/-- The transfer of `x`, written in cycle `w`, has not begun its bits in cycle `n`. -/
structure Waiting (inp : ℕ → Input) (w : ℕ) (x : BitVec 32) (phase : Phase) (n : ℕ) : Prop where
  lt : w < n
  state : (ctrlAt inp n).state = phase
  counter : (ctrlAt inp n).bitCounter = 7
  config : (ctrlAt inp n).config = (ctrlAt inp w).config
  txData : (ctrlAt inp n).txData = x
  sda : (ctrlAt inp n).sda = (ctrlAt inp w).sda
  quiet : ∀ m, w < m → m < n → ¬ Writes inp m
  /-- Nothing has happened on the bus. -/
  same : ∀ m, w ≤ m → m ≤ n → scl inp m = scl inp w ∧
    (scl inp w = true → (inp m).slave = (inp w).slave ∧ (ctrlAt inp m).level = true)

namespace Waiting

variable {x : BitVec 32} {phase : Phase}

theorem not_resting (h : Waiting inp w x phase n) : ¬ (ctrlAt inp n).Resting := by
  rintro ⟨-, hzero⟩
  rw [h.counter] at hzero
  exact absurd hzero (by decide)

theorem alone (h : Waiting inp w x phase n) (hobeys : Obeys inp) :
    Access.isTxData (inp n).access = false ∧ Access.isControl (inp n).access = false :=
  ⟨Bool.eq_false_iff.mpr fun ha => h.not_resting (hobeys.data n ha).2,
    Bool.eq_false_iff.mpr fun ha => h.not_resting (hobeys.control n ha)⟩

theorem quiet_succ (h : Waiting inp w x phase n) (hobeys : Obeys inp) :
    ∀ m, w < m → m < n + 1 → ¬ Writes inp m := by
  intro m hm hlt
  rcases Nat.lt_or_eq_of_le (Nat.lt_succ_iff.mp hlt) with hlt | rfl
  · exact h.quiet m hm hlt
  · exact Bool.eq_false_iff.mp (h.alone hobeys).1

/-- SDA has not changed since the write. -/
theorem still (h : Waiting inp w x phase n) : Still inp w n := by
  intro m hm hlt hhigh
  obtain ⟨hscl, hrest⟩ := h.same m hm hlt.le
  obtain ⟨hslave, hlevel⟩ := hrest (hscl.symm.trans hhigh.1)
  obtain ⟨-, hrest'⟩ := h.same (m + 1) (Nat.le_succ_of_le hm) hlt
  obtain ⟨hslave', hlevel'⟩ := hrest' (hscl.symm.trans hhigh.1)
  unfold I2c.sda Ctrl.wire
  rw [hslave, hlevel, hslave', hlevel']

/-- No pulse has begun while the controller waits. -/
theorem pulses_eq_zero (h : Waiting inp w x phase n) {a m : ℕ} (ha : w ≤ a) (hm : a + m ≤ n) :
    pulses inp a m = 0 := by
  induction m with
  | zero => rfl
  | succ m ih =>
    have h1 := (h.same (a + m) (by omega) (by omega)).1
    have h2 := (h.same (a + m + 1) (by omega) hm).1
    rw [pulses_succ, ih (by omega), h1, h2]
    cases scl inp w <;> rfl

/-- The parts of the configuration. -/
theorem parts (h : Waiting inp w x phase n) :
    (ctrlAt inp n).enable = (ctrlAt inp w).enable ∧
      (ctrlAt inp n).needStart = (ctrlAt inp w).needStart ∧
      (ctrlAt inp n).txDrive = (ctrlAt inp w).txDrive := by
  have hconfig := h.config
  simp only [Ctrl.config, Prod.mk.injEq] at hconfig
  exact ⟨hconfig.1, hconfig.2.1, hconfig.2.2.2.1⟩

/-- What a controller makes of SDA that has not begun. -/
theorem level_of_sda {s : Ctrl} (he : s.enable = true) (hs : s.state = .idle ∨ s.state = .start)
    (hsda : s.sda = true) : s.level = true := by
  rcases hs with hs | hs
  · rw [level_idle he hs, hsda, Bool.or_true]
  · rw [level_data he (Or.inl hs), hsda, Bool.or_true]

/-- The cycle after the write. -/
theorem of_write (hobeys : Obeys inp) (hw : (inp w).access = some (.writeTxData x))
    (hsda : scl inp w = true → (ctrlAt inp w).sda = true) : Waiting inp w x .idle (w + 1) := by
  have hwrites : Writes inp w := by simp [Writes, Access.isTxData, hw]
  obtain ⟨he, hrest⟩ := hobeys.data w hwrites
  obtain ⟨hstate, hb, hl, hz, hconfig⟩ := next_of_write he hrest hwrites
  have henable : (ctrlAt inp (w + 1)).enable = true := (congrArg Prod.fst hconfig).trans he
  refine ⟨Nat.lt_succ_self w, hstate, hb, hconfig, ?_, hz, fun m hm hlt => by omega, ?_⟩
  · rw [ctrlAt_succ]
    simp [Ctrl.next, Ctrl.write, hw]
  · intro m hm hle
    rcases Nat.eq_or_lt_of_le hm with rfl | hlt
    · exact ⟨rfl, fun _ => ⟨rfl, level_resting hrest⟩⟩
    · obtain rfl : m = w + 1 := by omega
      refine ⟨hl, fun hup => ⟨hobeys.slave w ⟨hup, hl.trans hup⟩, ?_⟩⟩
      exact level_of_sda henable (Or.inl hstate) (hz.trans (hsda hup))

/-- A cycle that changes nothing but the phase. -/
theorem succ (h : Waiting inp w x phase n) (hobeys : Obeys inp)
    (hon : (ctrlAt inp w).enable = true) (hsda : scl inp w = true → (ctrlAt inp w).sda = true)
    {phase' : Phase} (hphase : phase' = .idle ∨ phase' = .start) {z : Bool}
    (hsm : (ctrlAt inp n).sm ((ctrlAt inp n).wire (inp n).slave) =
      { ctrlAt inp n with state := phase', txBusy := z }) :
    Waiting inp w x phase' (n + 1) := by
  obtain ⟨ha, hc⟩ := h.alone hobeys
  have hconfig : (ctrlAt inp (n + 1)).config = (ctrlAt inp w).config :=
    (Ctrl.next_config hc).trans h.config
  have henable : (ctrlAt inp (n + 1)).enable = true := (congrArg Prod.fst hconfig).trans hon
  have hstate : (ctrlAt inp (n + 1)).state = phase' := by
    rw [ctrlAt_succ, Ctrl.next_state, hsm]
  have hz : (ctrlAt inp (n + 1)).sda = (ctrlAt inp w).sda := by
    rw [ctrlAt_succ, Ctrl.next_sda, hsm]
    exact h.sda
  have hl : scl inp (n + 1) = scl inp n := by
    unfold scl
    rw [ctrlAt_succ, Ctrl.next_scl, hsm]
  refine ⟨Nat.lt_succ_of_lt h.lt, hstate, ?_, hconfig, ?_, hz, h.quiet_succ hobeys, ?_⟩
  · rw [ctrlAt_succ, next_bitCounter_of_not_write ha, hsm]
    exact h.counter
  · rw [ctrlAt_succ, Ctrl.next_txData ha, hsm]
    exact h.txData
  · intro m hm hle
    rcases Nat.lt_or_eq_of_le hle with hlt | rfl
    · exact h.same m hm (Nat.lt_succ_iff.mp hlt)
    · obtain ⟨hscl, hrest⟩ := h.same n h.lt.le le_rfl
      refine ⟨hl.trans hscl, fun hup => ⟨?_, ?_⟩⟩
      · have hhigh : High inp n := ⟨hscl.trans hup, (hl.trans hscl).trans hup⟩
        exact (hobeys.slave n hhigh).trans (hrest hup).1
      · refine level_of_sda henable ?_ (hz.trans (hsda hup))
        rw [hstate]
        exact hphase

/-- Between the ticks the controller waits on. -/
theorem stay (h : Waiting inp w x phase n) (hobeys : Obeys inp)
    (hon : (ctrlAt inp w).enable = true) (hsda : scl inp w = true → (ctrlAt inp w).sda = true)
    (hphase : phase = .idle ∨ phase = .start) (ht : (ctrlAt inp n).tick = false) :
    Waiting inp w x phase (n + 1) := by
  have h1 : (ctrlAt inp n).state ≠ .stop1 := by
    rw [h.state]
    rcases hphase with rfl | rfl <;> decide
  refine h.succ hobeys hon hsda hphase (z := (ctrlAt inp n).txBusy) ?_
  rw [sm_of_not_tick (h.parts.1.trans hon) ht h1, ← h.state]

/-- The tick that comes to the START. -/
theorem start (h : Waiting inp w x .idle n) (hobeys : Obeys inp)
    (hon : (ctrlAt inp w).enable = true) (hsda : scl inp w = true → (ctrlAt inp w).sda = true)
    (hneed : (ctrlAt inp w).needStart = true) (ht : (ctrlAt inp n).tick = true) :
    Waiting inp w x .start (n + 1) := by
  have hb : 0 < (ctrlAt inp n).bitCounter := by
    rw [h.counter]
    decide
  refine h.succ hobeys hon hsda (Or.inr rfl) (z := true) ?_
  rw [sm_of_tick (h.parts.1.trans hon) ht (by rw [h.state]; decide),
    onTick_idle_start h.state hb (h.parts.2.1.trans hneed)]

/-- The tick that begins a transfer without START. -/
theorem underway (h : Waiting inp w x .idle n) (hobeys : Obeys inp)
    (hon : (ctrlAt inp w).enable = true) (hneed : (ctrlAt inp w).needStart = false)
    (ht : (ctrlAt inp n).tick = true) :
    Underway inp (ctrlAt inp w) (x.setWidth 8) w w w (n + 1) 1 false [] := by
  obtain ⟨ha, hc⟩ := h.alone hobeys
  have hb : 0 < (ctrlAt inp n).bitCounter := by
    rw [h.counter]
    decide
  have hne : (ctrlAt inp n).bitCounter ≠ 0 := by
    rw [h.counter]
    decide
  have hsm : ∀ b, (ctrlAt inp n).sm b =
      { (ctrlAt inp n).shiftBit b with scl := false, txBusy := true } := fun b => by
    rw [sm_of_tick (h.parts.1.trans hon) ht (by rw [h.state]; decide),
      onTick_idle_data h.state hb (h.parts.2.1.trans hneed)]
  have hbit : ∀ j, j ≤ 7 → (ctrlAt inp n).txData.getLsbD j = (x.setWidth 8).getLsbD j := by
    intro j hj
    rw [h.txData, BitVec.getLsbD_setWidth, decide_eq_true (show j < 8 by omega), Bool.true_and]
  have hlow : scl inp (n + 1) = false := by
    unfold scl
    rw [ctrlAt_succ, Ctrl.next_scl, hsm]
  have hpulses : ∀ m, w ≤ m → m ≤ n + 1 → pulses inp w (m - w) = 0 := by
    intro m hm hle
    rcases Nat.lt_or_eq_of_le hle with hlt | rfl
    · exact h.pulses_eq_zero le_rfl (by omega)
    · rw [pulses_step h.lt.le (Or.inr hlow)]
      exact h.pulses_eq_zero le_rfl (Nat.add_sub_cancel' h.lt.le).le
  refine ⟨⟨by decide, (Ctrl.next_config hc).trans h.config, ?_, hlow, ?_, ?_, ?_,
    fun j hj => absurd hj (Nat.not_lt.mpr (Nat.le_add_left 1 j))⟩, fun _ => Nat.one_pos,
    Nat.lt_succ_of_lt h.lt, Nat.le_succ_of_le h.lt.le, h.quiet_succ hobeys, ?_, rfl, ?_, ?_⟩
  · rw [ctrlAt_succ, Ctrl.next_state, hsm]
    exact if_neg hne
  · rw [ctrlAt_succ, next_bitCounter_of_not_write ha, hsm]
    simp only [Ctrl.shiftBit, h.counter]
    rfl
  · intro _
    rw [ctrlAt_succ, Ctrl.next_sda, hsm]
    exact hbit 7 le_rfl
  · intro j hj hj7
    rw [ctrlAt_succ, Ctrl.next_txData ha, hsm]
    refine (getLsbD_shift17 _ false (by omega)).trans ?_
    rw [if_neg (by omega), hbit (j - 1) (by omega)]
  · rw [hpulses (n + 1) (Nat.le_succ_of_le h.lt.le) le_rfl]
    rfl
  · intro m j hm hle _ hj
    rw [hpulses m hm hle] at hj
    exact absurd hj (by omega)
  · intro m hm hlt hhigh
    rcases Nat.lt_or_eq_of_le (Nat.lt_succ_iff.mp hlt) with hlt | rfl
    · exact h.still m hm hlt hhigh
    · exact absurd (hlow.symm.trans hhigh.2) (by decide)

/-- The tick that makes the START. -/
theorem underway_start (h : Waiting inp w x .start n) (hobeys : Obeys inp)
    (hon : (ctrlAt inp w).enable = true) (hscl : scl inp w = true)
    (hdrive : (ctrlAt inp w).txDrive = true) (hslave : (inp w).slave = true)
    (ht : (ctrlAt inp n).tick = true) :
    StartAt inp n ∧
      Underway inp (ctrlAt inp w) (x.setWidth 8) w n (n + 1) (n + 1) 0 true [] := by
  obtain ⟨ha, hc⟩ := h.alone hobeys
  -- the tick pulls SDA down while SCL stays high
  have hsm : ∀ b, (ctrlAt inp n).sm b =
      { ctrlAt inp n with sda := false, scl := true, state := .txData } := fun b => by
    rw [sm_of_tick (h.parts.1.trans hon) ht (by rw [h.state]; decide)]
    simp only [Ctrl.onTick, h.state]
  have hconfig : (ctrlAt inp (n + 1)).config = (ctrlAt inp w).config :=
    (Ctrl.next_config hc).trans h.config
  have hparts := hconfig
  simp only [Ctrl.config, Prod.mk.injEq] at hparts
  obtain ⟨henable, -, -, hdrive', -⟩ := hparts
  have hstate : (ctrlAt inp (n + 1)).state = .txData := by
    rw [ctrlAt_succ, Ctrl.next_state, hsm]
  have hz : (ctrlAt inp (n + 1)).sda = false := by
    rw [ctrlAt_succ, Ctrl.next_sda, hsm]
  have hup : scl inp (n + 1) = true := by
    unfold scl
    rw [ctrlAt_succ, Ctrl.next_scl, hsm]
  obtain ⟨hsame, hrest⟩ := h.same n h.lt.le le_rfl
  obtain ⟨hslaven, hleveln⟩ := hrest hscl
  have hhigh : High inp n := ⟨hsame.trans hscl, hup⟩
  have hlevel : (ctrlAt inp (n + 1)).level = false := by
    rw [level_data (henable.trans hon) (Or.inr (Or.inl hstate)), hdrive', hdrive, hz]
    rfl
  -- which is a START on the bus
  have hstart : StartAt inp n := by
    refine ⟨hhigh, ?_, ?_⟩
    · unfold I2c.sda Ctrl.wire
      rw [hleveln, hslaven, hslave]
      rfl
    · unfold I2c.sda Ctrl.wire
      rw [hlevel]
      rfl
  -- and no clock pulse
  have hpulses : ∀ m, n ≤ m → m ≤ n + 1 → pulses inp n (m - n) = 0 := by
    intro m hm hle
    rcases Nat.eq_or_lt_of_le hm with rfl | hlt
    · rw [Nat.sub_self]
      rfl
    · obtain rfl : m = n + 1 := by omega
      rw [pulses_step le_rfl (Or.inl hhigh.1), Nat.sub_self]
      rfl
  refine ⟨hstart, ⟨⟨by decide, hconfig, hstate, hup, ?_, fun _ => hz, ?_,
    fun j hj => absurd hj (by omega)⟩, fun h' => absurd h' (by decide), Nat.lt_succ_of_lt h.lt,
    Nat.le_succ n, h.quiet_succ hobeys, ?_, rfl, ?_, fun m hm hlt => by omega⟩⟩
  · rw [ctrlAt_succ, next_bitCounter_of_not_write ha, hsm]
    simp only [h.counter]
    rfl
  · intro j _ hj
    rw [ctrlAt_succ, Ctrl.next_txData ha, hsm]
    simp only [h.txData]
    rw [BitVec.getLsbD_setWidth, decide_eq_true (show j - 0 < 8 by omega), Bool.true_and,
      Nat.sub_zero]
  · rw [hpulses (n + 1) (Nat.le_succ n) le_rfl]
    rfl
  · intro m j hm hle _ hj
    rw [hpulses m hm hle] at hj
    exact absurd hj (by omega)

end Waiting

/-! ## Section 5: Every transfer -/

/-- Without STOP the levels at rest are those of a controller that has just been enabled, or SCL is
low. -/
structure Calm (s : Ctrl) : Prop where
  rest : s.state = .idle → s.scl = true → s.sda = true
  needStop : ¬ s.Resting → s.needStop = false
  state : s.state ≠ .stop3

/-- A tick of a transfer without STOP. -/
theorem Calm.onTick {s : Ctrl} {b : Bool} (h : Calm s) (hsound : Sound s)
    (hrest : ¬ s.Resting) (h1 : s.state ≠ .stop1) :
    ((s.onTick b).state = .idle → (s.onTick b).scl = false) ∧
      (s.onTick b).state ≠ .stop3 := by
  cases hs : s.state with
  | idle =>
    have hne : s.bitCounter ≠ 0 := fun hb => hrest ⟨hs, hb⟩
    have hpos : 0 < s.bitCounter := by
      rw [BitVec.lt_def]
      exact Nat.pos_of_ne_zero fun hz => hne (BitVec.eq_of_toNat_eq hz)
    cases hn : s.needStart with
    | true =>
      rw [onTick_idle_start hs hpos hn]
      simp
    | false =>
      rw [onTick_idle_data hs hpos hn]
      simp only [Ctrl.shiftBit, if_neg hne]
      simp
  | start =>
    simp [Ctrl.onTick, hs]
  | txData =>
    simp only [Ctrl.onTick, hs]
    cases hl : s.scl with
    | false => simp [hs]
    | true =>
      simp only [if_true, Ctrl.shiftBit]
      split <;> simp
  | ack =>
    simp only [Ctrl.onTick, hs]
    cases hl : s.scl with
    | false => simp
    | true => simp
  | stop1 => exact absurd hs h1
  | stop2 =>
    simp only [Ctrl.onTick, hs, (hsound.stop2 hs).1, h.needStop hrest, if_true]
    simp
  | stop3 => exact absurd hs h.state

theorem Calm.next {s : Ctrl} {i : Input} (h : Calm s) (hsound : Sound s)
    (hdata : Access.isTxData i.access = true → s.enable = true ∧ s.Resting ∧ s.needStop = false)
    (hcontrol : Access.isControl i.access = true → s.Resting) : Calm (s.next i) := by
  cases ha : Access.isTxData i.access with
  | true =>
    obtain ⟨he, hrest, hstop⟩ := hdata ha
    obtain ⟨hstate, -, hl, hz, hconfig⟩ := next_of_write he hrest ha
    simp only [Ctrl.config, Prod.mk.injEq] at hconfig
    refine ⟨fun _ hup => ?_, fun _ => hconfig.2.2.1.trans hstop, by rw [hstate]; decide⟩
    rw [hz]
    exact h.rest hrest.1 (hl.symm.trans hup)
  | false =>
    by_cases hrest : s.Resting
    · have hnext := resting_next (i := i) hrest ha
      refine ⟨fun _ => ?_, fun hr => absurd hnext hr, by rw [hnext.1]; decide⟩
      rw [Ctrl.next_scl, Ctrl.next_sda]
      cases he : s.enable with
      | true =>
        rw [sm_resting he hrest]
        exact h.rest hrest.1
      | false =>
        rw [sm_off he]
        exact fun _ => rfl
    · have hconfig : (s.next i).config = s.config :=
        Ctrl.next_config (Bool.eq_false_iff.mpr fun hc => hrest (hcontrol hc))
      simp only [Ctrl.config, Prod.mk.injEq] at hconfig
      have hstop : (s.next i).needStop = false := hconfig.2.2.1.trans (h.needStop hrest)
      suffices hsm : ((s.sm (s.wire i.slave)).state = .idle →
          (s.sm (s.wire i.slave)).scl = true → (s.sm (s.wire i.slave)).sda = true) ∧
          (s.sm (s.wire i.slave)).state ≠ .stop3 by
        refine ⟨?_, fun _ => hstop, ?_⟩
        · rw [Ctrl.next_state, Ctrl.next_scl, Ctrl.next_sda]
          exact hsm.1
        · rw [Ctrl.next_state]
          exact hsm.2
      cases he : s.enable with
      | false =>
        rw [sm_off he]
        simp
      | true =>
        by_cases h1 : s.state = .stop1
        · rw [sm_stop1 he h1 (hsound.stop1 h1).1]
          cases s.tick <;> simp
        · cases ht : s.tick with
          | false =>
            rw [sm_of_not_tick he ht h1]
            exact ⟨h.rest, h.state⟩
          | true =>
            rw [sm_of_tick he ht h1]
            obtain ⟨hlow, hne⟩ := h.onTick (b := s.wire i.slave) hsound hrest h1
            exact ⟨fun hs hup => absurd ((hlow hs).symm.trans hup) Bool.false_ne_true, hne⟩

/-- Every byte that is permitted is transferred. -/
theorem carries_of_permitted (hobeys : Obeys inp) (hw : Writes inp w) (h : Permitted inp w)
    (hsda : scl inp w = true → (ctrlAt inp w).sda = true) :
    ∃ s p e, Carries inp (ctrlAt inp w) (written (inp w).access) w s p e := by
  obtain ⟨hstop, hneed⟩ := h
  obtain ⟨hon, -⟩ := hobeys.data w hw
  obtain ⟨x, hx⟩ : ∃ x, (inp w).access = some (.writeTxData x) := by
    rcases ha : (inp w).access with _ | (x | x | _ | x)
    case some.writeTxData => exact ⟨x, rfl⟩
    all_goals simp [Writes, Access.isTxData, ha] at hw
  have hwritten : written (inp w).access = x.setWidth 8 := by
    rw [hx]
    rfl
  rw [hwritten]
  obtain ⟨n, hwait, ht⟩ := exists_tick (P := Waiting inp w x .idle)
    (fun _ hm => hm.parts.1.trans hon) (fun _ hm ht => hm.stay hobeys hon hsda (Or.inl rfl) ht)
    (Waiting.of_write hobeys hx hsda)
  cases hn : (ctrlAt inp w).needStart with
  | false =>
    obtain ⟨m, samples, hrise⟩ := (hwait.underway hobeys hon hn ht).exists_rise hobeys hon hstop
    obtain ⟨e, samples', hack, ht'⟩ := hrise.exists_ack hobeys hon hstop 8 rfl
    have hend : Underway inp (ctrlAt inp w) (x.setWidth 8) w w
        (if (ctrlAt inp w).needStart then w + 1 else w) e 9 true samples' := by
      rw [hn]
      exact hack
    refine ⟨w, e + 1, e + 1, hend.finish hobeys hon hstop ht' le_rfl ?_⟩
    rw [hn]
    rfl
  | true =>
    obtain ⟨hscl, hdrive, hslave⟩ := hneed hn
    obtain ⟨s, hstart, ht'⟩ := exists_tick (P := Waiting inp w x .start)
      (fun _ hm => hm.parts.1.trans hon) (fun _ hm ht => hm.stay hobeys hon hsda (Or.inr rfl) ht)
      (hwait.start hobeys hon hsda hn ht)
    obtain ⟨hs, hunder⟩ := hstart.underway_start hobeys hon hscl hdrive hslave ht'
    obtain ⟨e, samples', hack, ht''⟩ := hunder.exists_ack hobeys hon hstop 9 rfl
    have hend : Underway inp (ctrlAt inp w) (x.setWidth 8) w s
        (if (ctrlAt inp w).needStart then s + 1 else s) e 9 true samples' := by
      rw [hn]
      exact hack
    refine ⟨s, e + 1, e + 1, hend.finish hobeys hon hstop ht'' hstart.lt.le ?_⟩
    rw [hn]
    exact ⟨hstart.still, hs⟩

end Run

/-- **Transfers.**  Every byte is transferred exactly when no STOP is asked for, and a START only
where SCL is high before it, SDA is driven and the slave does not hold it low. -/
theorem carriesAll_iff (inp : ℕ → Input) (hobeys : Obeys inp) :
    CarriesAll inp ↔ ∀ w, Writes inp w → Permitted inp w := by
  constructor
  · intro h w hw
    obtain ⟨s, p, e, hc⟩ := h w hw
    exact hc.permitted hobeys hw
  · intro h w hw
    have hcalm : ∀ n, Calm (ctrlAt inp n) := by
      intro n
      induction n with
      | zero =>
        exact ⟨fun _ hl => absurd hl Bool.false_ne_true, fun hr => absurd ⟨rfl, rfl⟩ hr, nofun⟩
      | succ n ih =>
        exact ih.next (hobeys.sound n)
          (fun ha => ⟨(hobeys.data n ha).1, (hobeys.data n ha).2, (h n ha).1⟩) (hobeys.control n)
    exact carries_of_permitted hobeys hw (h w hw) ((hcalm w).rest (hobeys.data w hw).2.1)

/-- The control register is set to `control` in cycle `0`, and `0xa5` is written in cycle `2` and,
if `again`, in cycle `40`; the slave leaves SDA alone. -/
def bytes (control : BitVec 32) (again : Bool) (n : ℕ) : Input where
  access :=
    if n = 0 then some (.writeControl control)
    else if n = 2 ∨ (again = true ∧ n = 40) then some (.writeTxData 0xa5)
    else none
  slave := true

theorem writes_bytes {control : BitVec 32} {again : Bool} {n : ℕ}
    (h : Writes (bytes control again) n) : n = 2 ∨ again = true ∧ n = 40 := by
  unfold Writes bytes at h
  by_cases h0 : n = 0
  · simp [h0, Access.isTxData] at h
  · by_contra hn
    simp [h0, hn, Access.isTxData] at h

theorem obeys_bytes {control : BitVec 32} {again : Bool}
    (h2 : (ctrlAt (bytes control again) 2).enable = true ∧
      (ctrlAt (bytes control again) 2).Resting)
    (h40 : again = true → (ctrlAt (bytes control again) 40).enable = true ∧
      (ctrlAt (bytes control again) 40).Resting) : Obeys (bytes control again) where
  data n hn := by
    rcases writes_bytes hn with rfl | ⟨hagain, rfl⟩
    · exact h2
    · exact h40 hagain
  control n hn := by
    have h0 : n = 0 := by
      by_contra h0
      unfold bytes at hn
      by_cases hw : n = 2 ∨ again = true ∧ n = 40 <;> simp [h0, hw, Access.isControl] at hn
    rw [h0]
    exact ⟨rfl, rfl⟩
  slave _ _ := rfl

/-- A byte with a START and without STOP is transferred. -/
theorem carriesAll_byte : CarriesAll (bytes 0x15 false) := by
  refine (carriesAll_iff (bytes 0x15 false)
    (obeys_bytes (by decide +kernel) nofun)).mpr fun w hw => ?_
  rcases writes_bytes hw with rfl | ⟨hagain, -⟩
  · exact ⟨by decide +kernel, fun _ => by decide +kernel⟩
  · exact absurd hagain (by decide)

/-- Two bytes with a START each are not: the second START does not show. -/
theorem not_carriesAll_startAgain :
    Obeys (bytes 0x15 true) ∧ ¬ CarriesAll (bytes 0x15 true) := by
  have hobeys : Obeys (bytes 0x15 true) :=
    obeys_bytes (by decide +kernel) fun _ => by decide +kernel
  refine ⟨hobeys, fun h => ?_⟩
  have hw : Writes (bytes 0x15 true) 40 := rfl
  obtain ⟨s, p, e, hc⟩ := h 40 hw
  have hscl := ((hc.permitted hobeys hw).2 (by decide +kernel)).1
  exact absurd hscl (by decide +kernel)

end Karnix.I2c
