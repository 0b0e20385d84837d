import Karnix.Sram.Bridge

/-!
# Read bursts of the SRAM bridge

A beat takes a cycle for each half of the word and then waits for the master.  The bridge
leaves the cycle of the high half when `w.last` is high, although that signal belongs to the
write channel; as long as it is low, and the burst has more than one beat, the bridge stays
and steps the address.
-/

namespace Karnix.Sram

open Karnix.Library

variable {n : ℕ} (cfg : Config n)

/-! ## Section 1: Bursts -/

/-- A transfer on the read data channel: the data and `r.last`. -/
def State.rBeat (s : State n) (i : Input n) : Option (BitVec 32 × Bool) :=
  if s.rValid && i.rReady then some (s.readData, s.rLast) else none

/-- The beats a read burst has to return: the words from the start address on, the last one
marked. -/
def readBeats (a : Arw n) (mem : Memory Half) : List (BitVec 32 × Bool) :=
  (List.range (a.len.toNat + 1)).map fun k =>
    (wordAt mem (cfg.beatWord a k), decide (k = a.len.toNat))

/-- Before clock edge `t` the bridge has not come back to `SETUP`. -/
def Busy (s : State n) (inp : ℕ → Input n) (t : ℕ) : Prop :=
  ∀ m, 0 < m → m ≤ t → (trace (step cfg) s inp m).phase ≠ .setup

/-- The master accepts read data again and again. -/
def EventuallyReady (inp : ℕ → Input n) : Prop := ∀ t, ∃ m, t ≤ m ∧ (inp m).rReady = true

/-- What a read burst that is accepted in the first cycle has to do. -/
structure ReadBurst (s : State n) (inp : ℕ → Input n) (a : Arw n) : Prop where
  /-- Whatever the stalls, the beats returned so far are the first of those due, and the
  memory is as it was. -/
  partial_beats : ∀ t, Busy cfg s inp t →
    observed (step cfg) State.rBeat s inp t <+: readBeats cfg a s.mem ∧
      (trace (step cfg) s inp t).mem = s.mem
  /-- When the master does not stall forever, the bridge returns all beats and comes back to
  `SETUP`. -/
  complete : EventuallyReady inp → ∃ t, Busy cfg s inp t ∧
    (trace (step cfg) s inp (t + 1)).phase = .setup ∧
    observed (step cfg) State.rBeat s inp (t + 1) = readBeats cfg a s.mem ∧
    (trace (step cfg) s inp (t + 1)).mem = s.mem

/-- In every cycle the burst spends in `ACCESSHigh` the write channel drives `w.last`, or the
burst has one beat. -/
def LastHigh (s : State n) (inp : ℕ → Input n) (a : Arw n) : Prop :=
  ∀ t, Busy cfg s inp t → (trace (step cfg) s inp t).phase = .accessHigh →
    (inp t).w.last = true ∨ a.len = 0

/-! ## Section 2: One beat -/

/-- The bridge is in beat `k` of the read burst `a`. -/
structure Reading (a : Arw n) (mem : Memory Half) (k : ℕ) (s : State n) : Prop where
  le_len : k ≤ a.len.toNat
  lenBurst : s.lenBurst.toNat = a.len.toNat - k
  mem_eq : s.mem = mem
  /-- By the phase: which address is set up, and how much of the word was read. -/
  beat : (s.phase = .accessLow ∧ s.arw = { a with addr := cfg.beatAddr a k }) ∨
    (s.phase = .accessHigh ∧ s.arw = { a with addr := cfg.beatAddr a k } ∧
      s.readData.extractLsb' 0 16 = mem (2 * cfg.beatWord a k)) ∨
    (s.phase = .response ∧ s.arw = { a with addr := cfg.beatAddr a (k + 1) } ∧
      s.readData = wordAt mem (cfg.beatWord a k))

variable {cfg} {a : Arw n} {mem : Memory Half} {k : ℕ} {s : State n} {i : Input n}

theorem Reading.phase_ne_setup (h : Reading cfg a mem k s) : s.phase ≠ .setup := by
  rcases h.beat with ⟨hp, -⟩ | ⟨hp, -⟩ | ⟨hp, -⟩ <;> rw [hp] <;> decide

theorem Reading.low (h : Reading cfg a mem k s) (hread : a.write = false)
    (hincr : cfg.IncrWords a) (hphase : s.phase = .accessLow) :
    Reading cfg a mem k (step cfg s i) ∧ (step cfg s i).phase = .accessHigh ∧
      s.rBeat i = none := by
  rcases h.beat with ⟨-, harw⟩ | ⟨hp, -⟩ | ⟨hp, -⟩
  · have hword : cfg.word s.arw.addr = cfg.beatWord a k := by
      rw [harw]
      exact hincr k h.le_len
    have hwrite : s.arw.write = false := by rw [harw]; exact hread
    have hstep : step cfg s i =
        { s with
          phase := .accessHigh
          readData := s.readData.extractLsb' 16 16 ++ s.mem (2 * cfg.beatWord a k) } := by
      simp [step, hphase, State.accessLow, hwrite, hword]
    refine ⟨⟨h.le_len, ?_, ?_, Or.inr (Or.inl ⟨?_, ?_, ?_⟩)⟩, ?_, ?_⟩
    · rw [hstep]; exact h.lenBurst
    · rw [hstep]; exact h.mem_eq
    · rw [hstep]
    · rw [hstep]; exact harw
    · rw [hstep]
      simp only [BitVec.extractLsb'_append_eq_right, h.mem_eq]
    · rw [hstep]
    · simp [State.rBeat, State.rValid, hphase]
  · rw [hp] at hphase
    exact absurd hphase (by decide)
  · rw [hp] at hphase
    exact absurd hphase (by decide)

/-- The high half is read in one cycle when `w.last` is high. -/
theorem Reading.high (h : Reading cfg a mem k s) (hread : a.write = false)
    (hincr : cfg.IncrWords a) (hphase : s.phase = .accessHigh)
    (hlast : i.w.last = true ∨ a.len = 0) :
    Reading cfg a mem k (step cfg s i) ∧ (step cfg s i).phase = .response ∧
      s.rBeat i = none := by
  rcases h.beat with ⟨hp, -⟩ | ⟨-, harw, hlow⟩ | ⟨hp, -⟩
  · rw [hp] at hphase
    exact absurd hphase (by decide)
  · have hword : cfg.word s.arw.addr = cfg.beatWord a k := by
      rw [harw]
      exact hincr k h.le_len
    have hwrite : s.arw.write = false := by rw [harw]; exact hread
    have hexit : i.w.last = true ∨ s.arw.len = 0#8 := by rw [harw]; exact hlast
    have hstep : step cfg s i =
        { s with
          phase := .response
          arw := { s.arw with addr := cfg.next s.arw s.arw.addr }
          readData := s.mem (2 * cfg.beatWord a k + 1) ++ s.readData.extractLsb' 0 16 } := by
      simp [step, hphase, State.accessHigh, hwrite, hword, hexit]
    refine ⟨⟨h.le_len, ?_, ?_, Or.inr (Or.inr ⟨?_, ?_, ?_⟩)⟩, ?_, ?_⟩
    · rw [hstep]; exact h.lenBurst
    · rw [hstep]; exact h.mem_eq
    · rw [hstep]
    · rw [hstep]
      simp only [harw, beatAddr_succ, Config.next]
    · rw [hstep]
      simp only [hlow, h.mem_eq, wordAt]
    · rw [hstep]
    · simp [State.rBeat, State.rValid, hphase]
  · rw [hp] at hphase
    exact absurd hphase (by decide)

/-- In `RESPONSE` the beat is offered until the master takes it; then the next one begins,
or the burst is over. -/
theorem Reading.response (h : Reading cfg a mem k s) (hread : a.write = false)
    (hphase : s.phase = .response) :
    (i.rReady = false ∧ step cfg s i = s ∧ s.rBeat i = none) ∨
      (i.rReady = true ∧
        s.rBeat i = some (wordAt mem (cfg.beatWord a k), decide (k = a.len.toNat)) ∧
        (step cfg s i).mem = mem ∧
        ((k = a.len.toNat ∧ (step cfg s i).phase = .setup) ∨
          (k < a.len.toNat ∧ (step cfg s i).phase = .accessLow ∧
            Reading cfg a mem (k + 1) (step cfg s i)))) := by
  rcases h.beat with ⟨hp, -⟩ | ⟨hp, -⟩ | ⟨-, harw, hdata⟩
  · rw [hp] at hphase
    exact absurd hphase (by decide)
  · rw [hp] at hphase
    exact absurd hphase (by decide)
  · have hwrite : s.arw.write = false := by rw [harw]; exact hread
    cases hready : i.rReady with
    | false =>
      exact Or.inl ⟨rfl, by simp [step, hphase, hwrite, hready], by simp [State.rBeat, hready]⟩
    | true =>
      -- `lenBurst` counts down the beats that are left after this one
      have hend : s.isEndBurst = decide (k = a.len.toNat) := by
        have hlen := h.lenBurst
        have hle := h.le_len
        have hzero : s.lenBurst = 0 ↔ s.lenBurst.toNat = 0 := by
          constructor
          · intro h0
            rw [h0]
            rfl
          · intro h0
            exact BitVec.eq_of_toNat_eq h0
        simp only [State.isEndBurst, hzero, hlen]
        congr 1
        exact propext ⟨fun h0 => by omega, fun h0 => by omega⟩
      have hbeat : s.rBeat i =
          some (wordAt mem (cfg.beatWord a k), decide (k = a.len.toNat)) := by
        simp [State.rBeat, State.rValid, State.rLast, hphase, hwrite, hready, hdata, hend]
      refine Or.inr ⟨rfl, hbeat, ?_⟩
      by_cases hk : k = a.len.toNat
      · -- the last beat was taken
        have hstep : step cfg s i = { s with phase := .setup } := by
          simp [step, hphase, hwrite, hready, hend, hk]
        rw [hstep]
        exact ⟨h.mem_eq, Or.inl ⟨hk, rfl⟩⟩
      · have hstep : step cfg s i =
            { s with lenBurst := s.lenBurst - 1, phase := .accessLow } := by
          simp [step, hphase, hwrite, hready, hend, hk]
        have hlt : k < a.len.toNat := lt_of_le_of_ne h.le_len hk
        have hlen := h.lenBurst
        rw [hstep]
        refine ⟨h.mem_eq, Or.inr ⟨hlt, rfl, ⟨hlt, ?_, h.mem_eq, Or.inl ⟨rfl, harw⟩⟩⟩⟩
        simp only [BitVec.toNat_sub, BitVec.ofNat_eq_ofNat, BitVec.toNat_ofNat]
        omega

/-! ## Section 3: The whole burst -/

/-- At clock edge `t` the bridge is in beat `k`, and the beats before it were returned. -/
structure AtBeat (cfg : Config n) (s : State n) (inp : ℕ → Input n) (a : Arw n) (k t : ℕ) :
    Prop where
  busy : Busy cfg s inp t
  reading : Reading cfg a s.mem k (trace (step cfg) s inp t)
  returned : observed (step cfg) State.rBeat s inp t = (readBeats cfg a s.mem).take k

theorem readBeats_take_succ (hk : k ≤ a.len.toNat) :
    (readBeats cfg a mem).take (k + 1) = (readBeats cfg a mem).take k ++
      [(wordAt mem (cfg.beatWord a k), decide (k = a.len.toNat))] := by
  have hlt : k < (readBeats cfg a mem).length := by simp [readBeats]; omega
  rw [List.take_succ_eq_append_getElem hlt]
  simp [readBeats]

theorem readBeats_take_all :
    (readBeats cfg a mem).take (a.len.toNat + 1) = readBeats cfg a mem := by
  rw [List.take_of_length_le (by simp [readBeats])]

section Burst

variable {inp : ℕ → Input n} {t : ℕ}

/-- The bridge stays busy in a cycle that does not end in `SETUP`. -/
theorem Busy.succ (h : Busy cfg s inp t) (hnext : (trace (step cfg) s inp (t + 1)).phase ≠ .setup) :
    Busy cfg s inp (t + 1) := by
  intro m hm hmt
  rcases Nat.lt_or_ge m (t + 1) with hlt | hge
  · exact h m hm (Nat.lt_succ_iff.mp hlt)
  · rw [le_antisymm hmt hge]
    exact hnext

theorem Busy.of_succ (h : Busy cfg s inp (t + 1)) : Busy cfg s inp t :=
  fun m hm hmt => h m hm (Nat.le_succ_of_le hmt)

/-- The address handshake begins beat `0`. -/
theorem AtBeat.start (hsetup : s.phase = .setup) (hvalid : (inp 0).arwValid = true)
    (harw : (inp 0).arw = a) : AtBeat cfg s inp a 0 1 := by
  have hstep : trace (step cfg) s inp 1 =
      { s with phase := .accessLow, arw := a, lenBurst := a.len } := by
    simp [trace_succ, step, hsetup, hvalid, harw]
  have hreading : Reading cfg a s.mem 0 (trace (step cfg) s inp 1) := by
    rw [hstep]
    exact ⟨Nat.zero_le _, rfl, rfl, Or.inl ⟨rfl, rfl⟩⟩
  have hzero : Busy cfg s inp 0 := fun m hm hm0 => absurd hm (by omega)
  refine ⟨hzero.succ hreading.phase_ne_setup, hreading, ?_⟩
  rw [observed_succ_none]
  · rfl
  · simp [State.rBeat, State.rValid, hsetup]

/-- A cycle that returns nothing and stays in the beat. -/
theorem AtBeat.succ (h : AtBeat cfg s inp a k t)
    (hnext : Reading cfg a s.mem k (trace (step cfg) s inp (t + 1)))
    (hnone : (trace (step cfg) s inp t).rBeat (inp t) = none) :
    AtBeat cfg s inp a k (t + 1) := by
  refine ⟨h.busy.succ hnext.phase_ne_setup, hnext, ?_⟩
  rw [observed_succ_none hnone]
  exact h.returned

theorem AtBeat.low (h : AtBeat cfg s inp a k t) (hread : a.write = false)
    (hincr : cfg.IncrWords a) (hphase : (trace (step cfg) s inp t).phase = .accessLow) :
    AtBeat cfg s inp a k (t + 1) ∧ (trace (step cfg) s inp (t + 1)).phase = .accessHigh := by
  obtain ⟨hnext, hhigh, hnone⟩ := h.reading.low (i := inp t) hread hincr hphase
  exact ⟨h.succ hnext hnone, hhigh⟩

theorem AtBeat.high (h : AtBeat cfg s inp a k t) (hread : a.write = false)
    (hincr : cfg.IncrWords a) (hlast : LastHigh cfg s inp a)
    (hphase : (trace (step cfg) s inp t).phase = .accessHigh) :
    AtBeat cfg s inp a k (t + 1) ∧ (trace (step cfg) s inp (t + 1)).phase = .response := by
  obtain ⟨hnext, hresponse, hnone⟩ :=
    h.reading.high (i := inp t) hread hincr hphase (hlast t h.busy hphase)
  exact ⟨h.succ hnext hnone, hresponse⟩

/-- A cycle in `RESPONSE`: the bridge waits, ends the burst, or goes on to the next beat. -/
theorem AtBeat.response (h : AtBeat cfg s inp a k t) (hread : a.write = false)
    (hphase : (trace (step cfg) s inp t).phase = .response) :
    ((inp t).rReady = false ∧ AtBeat cfg s inp a k (t + 1) ∧
        (trace (step cfg) s inp (t + 1)).phase = .response) ∨
      ((inp t).rReady = true ∧
        ((trace (step cfg) s inp (t + 1)).phase = .setup ∧
            observed (step cfg) State.rBeat s inp (t + 1) = readBeats cfg a s.mem ∧
            (trace (step cfg) s inp (t + 1)).mem = s.mem ∨
          k < a.len.toNat ∧ AtBeat cfg s inp a (k + 1) (t + 1))) := by
  rcases h.reading.response (i := inp t) hread hphase with
    ⟨hstall, hsame, hnone⟩ | ⟨hready, hbeat, hmem, hnext⟩
  · -- the master stalls, and nothing changes
    have hsame' : trace (step cfg) s inp (t + 1) = trace (step cfg) s inp t := hsame
    refine Or.inl ⟨hstall, h.succ ?_ hnone, ?_⟩
    · rw [hsame']
      exact h.reading
    · rw [hsame']
      exact hphase
  · have hreturned : observed (step cfg) State.rBeat s inp (t + 1) =
        (readBeats cfg a s.mem).take (k + 1) := by
      rw [observed_succ_some hbeat, h.returned, readBeats_take_succ h.reading.le_len]
    refine Or.inr ⟨hready, ?_⟩
    rcases hnext with ⟨hk, hsetup⟩ | ⟨hk, -, hreading⟩
    · refine Or.inl ⟨hsetup, ?_, hmem⟩
      rw [hreturned, hk, readBeats_take_all]
    · exact Or.inr ⟨hk, h.busy.succ hreading.phase_ne_setup, hreading, hreturned⟩

/-- Every busy cycle belongs to some beat. -/
theorem AtBeat.of_busy (hread : a.write = false) (hincr : cfg.IncrWords a)
    (hlast : LastHigh cfg s inp a) (hstart : AtBeat cfg s inp a 0 1) (t : ℕ)
    (hbusy : Busy cfg s inp (t + 1)) : ∃ k, AtBeat cfg s inp a k (t + 1) := by
  induction t with
  | zero => exact ⟨0, hstart⟩
  | succ t ih =>
    -- one cycle further, in the same beat or in the next
    obtain ⟨k, hk⟩ := ih hbusy.of_succ
    rcases hk.reading.beat with ⟨hphase, -⟩ | ⟨hphase, -⟩ | ⟨hphase, -⟩
    · exact ⟨k, (hk.low hread hincr hphase).1⟩
    · exact ⟨k, (hk.high hread hincr hlast hphase).1⟩
    · rcases hk.response hread hphase with ⟨-, hnext, -⟩ | ⟨-, ⟨hsetup, -⟩ | ⟨-, hnext⟩⟩
      · exact ⟨k, hnext⟩
      · exact absurd hsetup (hbusy (t + 2) (by omega) le_rfl)
      · exact ⟨k + 1, hnext⟩

/-- Every beat is offered to the master. -/
theorem AtBeat.exists_response (h : AtBeat cfg s inp a k t) (hread : a.write = false)
    (hincr : cfg.IncrWords a) (hlast : LastHigh cfg s inp a) :
    ∃ m, AtBeat cfg s inp a k m ∧ (trace (step cfg) s inp m).phase = .response := by
  rcases h.reading.beat with ⟨hphase, -⟩ | ⟨hphase, -⟩ | ⟨hphase, -⟩
  · obtain ⟨h', hphase'⟩ := h.low hread hincr hphase
    exact ⟨t + 2, h'.high hread hincr hlast hphase'⟩
  · exact ⟨t + 1, h.high hread hincr hlast hphase⟩
  · exact ⟨t, h, hphase⟩

/-- The master takes the offered beat, `d` cycles later at the latest. -/
theorem AtBeat.exists_ready (h : AtBeat cfg s inp a k t) (hread : a.write = false)
    (hphase : (trace (step cfg) s inp t).phase = .response) (d : ℕ)
    (hready : (inp (t + d)).rReady = true) :
    ∃ m, AtBeat cfg s inp a k m ∧ (trace (step cfg) s inp m).phase = .response ∧
      (inp m).rReady = true := by
  -- induction on how long the master still stalls
  induction d generalizing t with
  | zero => exact ⟨t, h, hphase, hready⟩
  | succ d ih =>
    rcases h.response hread hphase with ⟨-, hnext, hphase'⟩ | ⟨hnow, -⟩
    · exact ih hnext hphase' (by rw [show t + 1 + d = t + (d + 1) by omega]; exact hready)
    · exact ⟨t, h, hphase, hnow⟩

/-- When the master does not stall forever, the current beat is returned. -/
theorem AtBeat.exists_taken (h : AtBeat cfg s inp a k t) (hread : a.write = false)
    (hincr : cfg.IncrWords a) (hlast : LastHigh cfg s inp a) (hfair : EventuallyReady inp) :
    ∃ m, AtBeat cfg s inp a k m ∧
      ((trace (step cfg) s inp (m + 1)).phase = .setup ∧
          observed (step cfg) State.rBeat s inp (m + 1) = readBeats cfg a s.mem ∧
          (trace (step cfg) s inp (m + 1)).mem = s.mem ∨
        k < a.len.toNat ∧ AtBeat cfg s inp a (k + 1) (m + 1)) := by
  -- the beat is offered, and the master is ready some time after that
  obtain ⟨m, hm, hphase⟩ := h.exists_response hread hincr hlast
  obtain ⟨m', hle, hready⟩ := hfair m
  obtain ⟨d, rfl⟩ := Nat.exists_eq_add_of_le hle
  obtain ⟨j, hj, hphase', hnow⟩ := hm.exists_ready hread hphase d hready
  rcases hj.response hread hphase' with ⟨hstall, -⟩ | ⟨-, hnext⟩
  · rw [hstall] at hnow
    exact absurd hnow (by decide)
  · exact ⟨j, hj, hnext⟩

/-- A burst whose master does not stall forever comes to its end: `d` is the number of beats
after the current one. -/
theorem AtBeat.complete (h : AtBeat cfg s inp a k t) (hread : a.write = false)
    (hincr : cfg.IncrWords a) (hlast : LastHigh cfg s inp a) (hfair : EventuallyReady inp)
    (d : ℕ) (hd : k + d = a.len.toNat) :
    ∃ m, Busy cfg s inp m ∧ (trace (step cfg) s inp (m + 1)).phase = .setup ∧
      observed (step cfg) State.rBeat s inp (m + 1) = readBeats cfg a s.mem ∧
      (trace (step cfg) s inp (m + 1)).mem = s.mem := by
  induction d generalizing k t with
  | zero =>
    obtain ⟨m, hm, hend | ⟨hlt, -⟩⟩ := h.exists_taken hread hincr hlast hfair
    · exact ⟨m, hm.busy, hend⟩
    · exact absurd hlt (by omega)
  | succ d ih =>
    obtain ⟨m, hm, hend | ⟨-, hnext⟩⟩ := h.exists_taken hread hincr hlast hfair
    · exact ⟨m, hm.busy, hend⟩
    · exact ih hnext (by omega)

end Burst

/-- **Read burst.**  While the write channel drives `w.last` in every cycle of `ACCESSHigh`, a
read burst returns its words in order, the last one marked, however long the master stalls,
and the memory stays as it is. -/
theorem readBurst (cfg : Config n) (s : State n) (inp : ℕ → Input n) (a : Arw n)
    (hsetup : s.phase = .setup) (hvalid : (inp 0).arwValid = true) (harw : (inp 0).arw = a)
    (hread : a.write = false) (hincr : cfg.IncrWords a) (hlast : LastHigh cfg s inp a) :
    ReadBurst cfg s inp a := by
  have hstart : AtBeat cfg s inp a 0 1 := AtBeat.start hsetup hvalid harw
  refine ⟨fun t hbusy => ?_, fun hfair => ?_⟩
  · cases t with
    | zero => exact ⟨List.nil_prefix, rfl⟩
    | succ t =>
      obtain ⟨k, hk⟩ := AtBeat.of_busy hread hincr hlast hstart t hbusy
      rw [hk.returned]
      exact ⟨List.take_prefix k _, hk.reading.mem_eq⟩
  · exact hstart.complete hread hincr hlast hfair a.len.toNat (Nat.zero_add _)

/-- A burst of two words at the start of the SRAM. -/
def twoWords : Arw 32 := ⟨0x90000000#32, 1#8, 2#3, 1#2, false⟩

/-- An idle bridge; half-word `k` of the SRAM holds `k`. -/
def idle : State 32 := ⟨.setup, 0, twoWords, 0, fun k => BitVec.ofNat 16 k⟩

/-- The burst is requested in every cycle, the master takes read data in every other one, and
the write channel drives `last`. -/
def readInput (last : Bool) (t : ℕ) : Input 32 :=
  ⟨true, twoWords, false, ⟨0, 0, last⟩, false, t % 2 = 0⟩

/-- With `w.last` high the two words come back. -/
theorem readBurst_twoWords : ReadBurst pageConfig idle (readInput true) twoWords :=
  readBurst pageConfig idle (readInput true) twoWords rfl rfl rfl rfl
    (by unfold Config.IncrWords; decide +kernel) fun _ _ _ => Or.inl rfl

example : observed (step pageConfig) State.rBeat idle (readInput true) 10 =
    [(0x00010000#32, false), (0x00030002#32, true)] := by decide +kernel

/-! ## Section 4: A read without `w.last` -/

/-- As long as the write channel keeps `w.last` low, a burst of more than one beat stays in
`ACCESSHigh` and returns nothing. -/
theorem accessHigh_stays (cfg : Config n) (s : State n) (inp : ℕ → Input n)
    (hsetup : s.phase = .setup)
    (hvalid : (inp 0).arwValid = true) (hlen : (inp 0).arw.len ≠ 0)
    (hlow : ∀ t, (inp t).w.last = false) (t : ℕ) :
    (trace (step cfg) s inp (t + 2)).phase = .accessHigh ∧
      (trace (step cfg) s inp (t + 2)).arw.len = (inp 0).arw.len ∧
      observed (step cfg) State.rBeat s inp (t + 2) = [] := by
  induction t with
  | zero =>
    -- the handshake and the low half of beat `0`
    have hone : trace (step cfg) s inp 1 =
        { s with phase := .accessLow, arw := (inp 0).arw, lenBurst := (inp 0).arw.len } := by
      simp [trace_succ, step, hsetup, hvalid]
    have htwo : trace (step cfg) s inp 2 = (trace (step cfg) s inp 1).accessLow cfg (inp 1) := by
      rw [trace_succ, step, hone]
    refine ⟨?_, ?_, ?_⟩
    · rw [htwo, State.accessLow]
      split <;> rfl
    · rw [htwo, State.accessLow, hone]
      dsimp only
      split <;> rfl
    · simp [observed, State.rBeat, State.rValid, hsetup, hone]
  | succ t ih =>
    obtain ⟨hphase, hlen', hnone⟩ := ih
    have hnext : trace (step cfg) s inp (t + 3) =
        (trace (step cfg) s inp (t + 2)).accessHigh cfg (inp (t + 2)) := by
      rw [trace_succ, step, hphase]
    -- neither exit of `ACCESSHigh` is open
    have hstay : ¬((inp (t + 2)).w.last = true ∨ (trace (step cfg) s inp (t + 2)).arw.len = 0) := by
      rw [hlow, hlen']
      simpa using hlen
    refine ⟨?_, ?_, ?_⟩
    · rw [hnext]
      simpa [State.accessHigh] using hstay
    · rw [hnext, State.accessHigh, ← hlen']
      dsimp only
      split <;> rfl
    · rw [observed_succ_none, hnone]
      simp [State.rBeat, State.rValid, hphase]

/-- A read burst of two words on a bus that keeps `w.last` low: the bridge never answers. -/
theorem readBurst_last_low : ¬ ReadBurst pageConfig idle (readInput false) twoWords := by
  intro h
  have hfair : EventuallyReady (readInput false) := fun t =>
    ⟨2 * t, by omega, by simp [readInput]⟩
  obtain ⟨t, -, hsetup, -⟩ := h.complete hfair
  -- the bridge would have to come back to `SETUP`
  cases t with
  | zero => exact absurd hsetup (by decide)
  | succ t =>
    have hstay := accessHigh_stays pageConfig idle (readInput false) rfl rfl
      (by decide) (fun _ => rfl) t
    rw [hstay.1] at hsetup
    exact absurd hsetup (by decide)

end Karnix.Sram
