import Karnix.Sram.Bridge

/-!
# Write bursts of the SRAM bridge

The bridge comes to the low half of a word only once in a write burst, in the cycle after the
address handshake, and drives it from whatever the write channel holds then.  All further
beats stay in `ACCESSHigh`.
-/

namespace Karnix.Sram

open Karnix.Library

variable {n : ℕ}

/-! ## Section 1: The master -/

/-- A write burst: the request, and data and strobes of its beats. -/
structure Burst (n : ℕ) where
  arw : Arw n
  data : ℕ → BitVec 32
  strb : ℕ → BitVec 4

/-- What the environment chooses in a cycle: whether the master offers its next beat, the
value of the write channel while it does not, and `b.ready`. -/
structure Cycle where
  offer : Bool
  idle : WPayload
  bReady : Bool

/-- The bridge, the number of beats accepted, and whether the next one is on offer. -/
structure Bus (n : ℕ) where
  bridge : State n
  accepted : ℕ
  held : Bool

/-- `w.valid`: a beat that was offered stays on offer until it is accepted. -/
def Burst.wValid (b : Burst n) (u : Bus n) (c : Cycle) : Bool :=
  decide (u.accepted ≤ b.arw.len.toNat) && (u.held || c.offer)

/-- The write channel: the beat on offer, or its idle value. -/
def Burst.payload (b : Burst n) (u : Bus n) (c : Cycle) : WPayload :=
  if b.wValid u c then
    ⟨b.data u.accepted, b.strb u.accepted, u.accepted = b.arw.len.toNat⟩
  else c.idle

/-- The bus in a cycle.  The bridge looks at the address channel in `SETUP` only. -/
def Burst.input (b : Burst n) (u : Bus n) (c : Cycle) : Input n :=
  ⟨true, b.arw, b.wValid u c, b.payload u c, c.bReady, false⟩

/-- Bridge and master after a clock cycle. -/
def busStep (cfg : Config n) (b : Burst n) (u : Bus n) (c : Cycle) : Bus n :=
  let i := b.input u c
  let taken := u.bridge.wReady i
  { bridge := step cfg u.bridge i
    accepted := if taken then u.accepted + 1 else u.accepted
    held := i.wValid && !taken }

/-- The bus at clock edge `t`, when the request is made at edge `0` in state `s`. -/
def busAt (cfg : Config n) (b : Burst n) (s : State n) (env : ℕ → Cycle) (t : ℕ) : Bus n :=
  trace (busStep cfg b) ⟨s, 0, false⟩ env t

/-! ## Section 2: What a write burst has to do -/

/-- The strobed bytes of the low half of word `w` replaced. -/
def storeLow (mem : Memory Half) (w : ℕ) (strb : BitVec 4) (data : BitVec 32) : Memory Half :=
  writeHalf mem (2 * w) (strb.getLsbD 0) (strb.getLsbD 1) (data.extractLsb' 0 16)

/-- The strobed bytes of the high half of word `w` replaced. -/
def storeHigh (mem : Memory Half) (w : ℕ) (strb : BitVec 4) (data : BitVec 32) : Memory Half :=
  writeHalf mem (2 * w + 1) (strb.getLsbD 2) (strb.getLsbD 3) (data.extractLsb' 16 16)

/-- The strobed bytes of word `w` replaced. -/
def storeWord (mem : Memory Half) (w : ℕ) (strb : BitVec 4) (data : BitVec 32) : Memory Half :=
  storeHigh (storeLow mem w strb data) w strb data

/-- The memory after the first `k` beats. -/
def Burst.stored (cfg : Config n) (b : Burst n) (mem : Memory Half) : ℕ → Memory Half
  | 0 => mem
  | k + 1 => storeWord (b.stored cfg mem k) (cfg.beatWord b.arw k) (b.strb k) (b.data k)

/-- Some beat strobes byte `j` of half-word `x`. -/
def Burst.Strobes (cfg : Config n) (b : Burst n) (x j : ℕ) : Prop :=
  ∃ k, k ≤ b.arw.len.toNat ∧ x / 2 = cfg.beatWord b.arw k ∧
    (b.strb k).getLsbD (2 * (x % 2) + j) = true

/-- Byte `j` of a half-word. -/
def byteOf (x : Half) (j : ℕ) : BitVec 8 := x.extractLsb' (8 * j) 8

/-- At clock edge `t` the response of the burst is raised, and it was right to. -/
structure Responds (cfg : Config n) (s : State n) (b : Burst n) (env : ℕ → Cycle) (t : ℕ) :
    Prop where
  first : ∀ m, m < t → (busAt cfg b s env m).bridge.bValid = false
  valid : (busAt cfg b s env t).bridge.bValid = true
  accepted : (busAt cfg b s env t).accepted = b.arw.len.toNat + 1
  mem_eq : (busAt cfg b s env t).bridge.mem = b.stored cfg s.mem (b.arw.len.toNat + 1)
  untouched : ∀ m, m ≤ t → ∀ x j, j < 2 → ¬ b.Strobes cfg x j →
    byteOf ((busAt cfg b s env m).bridge.mem x) j = byteOf (s.mem x) j
  /-- The response is held, with the bridge unchanged, until the master takes it; then the
  bridge is in `SETUP`. -/
  single : ∀ m, t ≤ m → (∀ j, t ≤ j → j < m → (env j).bReady = false) →
    (busAt cfg b s env m).bridge = (busAt cfg b s env t).bridge ∧
      ((env m).bReady = true → (busAt cfg b s env (m + 1)).bridge.phase = .setup)

/-- What a write burst has to do: accept its beats, store them, and respond once. -/
def WriteBurst (cfg : Config n) (s : State n) (b : Burst n) (env : ℕ → Cycle) : Prop :=
  ∃ t, Responds cfg s b env t

/-- The first beat is on offer in the cycle after the address handshake, every later one in
the cycle after its predecessor was accepted, and the later ones leave out the low half. -/
def Seamless (len : ℕ) (strb : ℕ → BitVec 4) (offer : ℕ → Bool) : Prop :=
  (offer 0 = true ∨ offer 1 = true) ∧
    ∀ k, 0 < k → k ≤ len →
      offer (k + 2) = true ∧ (strb k).getLsbD 0 = false ∧ (strb k).getLsbD 1 = false

/-! ## Section 3: Bytes -/

section Bytes

variable {mem : Memory Half} {w x j : ℕ} {strb : BitVec 4} {data : BitVec 32}

theorem byteOf_mergeHalf (old : Half) (ble bhe : Bool) (dat : Half) (hj : j < 2) :
    byteOf (mergeHalf old ble bhe dat) j =
      if (if j = 0 then ble else bhe) then byteOf dat j else byteOf old j := by
  rcases (show j = 0 ∨ j = 1 by omega) with rfl | rfl
  · simp only [byteOf, mergeHalf, Nat.mul_zero, BitVec.extractLsb'_append_eq_right, if_true]
  · simp only [byteOf, mergeHalf, Nat.mul_one, BitVec.extractLsb'_append_eq_left, one_ne_zero,
      if_false]

theorem byteOf_writeHalf (a : ℕ) (ble bhe : Bool) (dat : Half) (hj : j < 2) :
    byteOf (writeHalf mem a ble bhe dat x) j =
      if x = a ∧ (if j = 0 then ble else bhe) = true then byteOf dat j
      else byteOf (mem x) j := by
  by_cases hx : x = a
  · subst hx
    rw [writeHalf_self, byteOf_mergeHalf _ _ _ _ hj]
    simp only [true_and]
  · rw [writeHalf_of_ne mem ble bhe dat hx, if_neg fun h => hx h.1]

/-- The low half of a word: bytes 0 and 1. -/
theorem byteOf_storeLow (hj : j < 2) :
    byteOf (storeLow mem w strb data x) j =
      if x = 2 * w ∧ strb.getLsbD j = true then byteOf (data.extractLsb' 0 16) j
      else byteOf (mem x) j := by
  rw [storeLow, byteOf_writeHalf _ _ _ _ hj]
  rcases (show j = 0 ∨ j = 1 by omega) with rfl | rfl <;> simp

/-- The high half of a word: bytes 2 and 3. -/
theorem byteOf_storeHigh (hj : j < 2) :
    byteOf (storeHigh mem w strb data x) j =
      if x = 2 * w + 1 ∧ strb.getLsbD (2 + j) = true then byteOf (data.extractLsb' 16 16) j
      else byteOf (mem x) j := by
  rw [storeHigh, byteOf_writeHalf _ _ _ _ hj]
  rcases (show j = 0 ∨ j = 1 by omega) with rfl | rfl <;> simp

/-- A word write leaves the bytes that are not strobed. -/
theorem byteOf_storeLow_of_not (hj : j < 2)
    (h : ¬(x / 2 = w ∧ strb.getLsbD (2 * (x % 2) + j) = true)) :
    byteOf (storeLow mem w strb data x) j = byteOf (mem x) j := by
  rw [byteOf_storeLow hj, if_neg]
  rintro ⟨rfl, hstrb⟩
  exact h ⟨by omega, by rw [show 2 * (2 * w % 2) + j = j by omega]; exact hstrb⟩

theorem byteOf_storeHigh_of_not (hj : j < 2)
    (h : ¬(x / 2 = w ∧ strb.getLsbD (2 * (x % 2) + j) = true)) :
    byteOf (storeHigh mem w strb data x) j = byteOf (mem x) j := by
  rw [byteOf_storeHigh hj, if_neg]
  rintro ⟨rfl, hstrb⟩
  exact h ⟨by omega, by rw [show 2 * ((2 * w + 1) % 2) + j = 2 + j by omega]; exact hstrb⟩

theorem storeLow_disabled (h0 : strb.getLsbD 0 = false) (h1 : strb.getLsbD 1 = false) :
    storeLow mem w strb data = mem := by
  rw [storeLow, h0, h1, writeHalf_disabled]

theorem storeHigh_even : storeHigh mem w strb data (2 * x) = mem (2 * x) :=
  writeHalf_of_ne mem _ _ _ (by omega)

theorem byteOf_storeWord_even (hj : j < 2) :
    byteOf (storeWord mem w strb data (2 * x)) j =
      if x = w ∧ strb.getLsbD j = true then byteOf (data.extractLsb' 0 16) j
      else byteOf (mem (2 * x)) j := by
  have hhalf : 2 * x = 2 * w ↔ x = w := by omega
  rw [storeWord, storeHigh_even, byteOf_storeLow hj]
  simp only [hhalf]

end Bytes

/-! ## Section 4: What the bridge stores -/

/-- What the bridge stores in a burst whose beats are on offer in time, up to the high half of
beat `k`: the low half of beat `0` only, and the high halves of the beats before `k`. -/
def Burst.written (cfg : Config n) (b : Burst n) (mem : Memory Half) : ℕ → Memory Half
  | 0 => storeLow mem (cfg.beatWord b.arw 0) (b.strb 0) (b.data 0)
  | k + 1 => storeHigh (b.written cfg mem k) (cfg.beatWord b.arw k) (b.strb k) (b.data k)

section Written

variable {cfg : Config n} {b : Burst n} {mem : Memory Half} {k x j : ℕ}

/-- When the later beats leave out the low halves, the bridge is at most a low half ahead. -/
theorem written_eq_storeLow
    (hstrb : ∀ k, 0 < k → k ≤ b.arw.len.toNat →
      (b.strb k).getLsbD 0 = false ∧ (b.strb k).getLsbD 1 = false)
    (hk : k ≤ b.arw.len.toNat) :
    b.written cfg mem k =
      storeLow (b.stored cfg mem k) (cfg.beatWord b.arw k) (b.strb k) (b.data k) := by
  induction k with
  | zero => rfl
  | succ k ih =>
    -- the low half the bridge skips is one that the beat does not strobe
    obtain ⟨h0, h1⟩ := hstrb (k + 1) (Nat.succ_pos k) hk
    rw [storeLow_disabled h0 h1, Burst.written, ih (by omega)]
    rfl

theorem written_eq_stored
    (hstrb : ∀ k, 0 < k → k ≤ b.arw.len.toNat →
      (b.strb k).getLsbD 0 = false ∧ (b.strb k).getLsbD 1 = false) :
    b.written cfg mem (b.arw.len.toNat + 1) = b.stored cfg mem (b.arw.len.toNat + 1) := by
  rw [Burst.written, written_eq_storeLow hstrb le_rfl]
  rfl

theorem byteOf_written_of_not (hj : j < 2) (hx : ¬ b.Strobes cfg x j)
    (hk : k ≤ b.arw.len.toNat + 1) : byteOf (b.written cfg mem k x) j = byteOf (mem x) j := by
  induction k with
  | zero => exact byteOf_storeLow_of_not hj fun h => hx ⟨0, Nat.zero_le _, h⟩
  | succ k ih =>
    rw [Burst.written, byteOf_storeHigh_of_not hj fun h => hx ⟨k, by omega, h⟩]
    exact ih (by omega)

/-- After the first beat the low halves are left alone. -/
theorem written_even : b.written cfg mem k (2 * x) = b.written cfg mem 0 (2 * x) := by
  induction k with
  | zero => rfl
  | succ k ih => exact storeHigh_even.trans ih

end Written

/-! ## Section 5: The run -/

/-- At the clock edge of the high half of beat `k`. -/
structure Writing (cfg : Config n) (b : Burst n) (mem : Memory Half) (k : ℕ) (u : Bus n) :
    Prop where
  phase : u.bridge.phase = .accessHigh
  arw : u.bridge.arw = { b.arw with addr := cfg.beatAddr b.arw k }
  accepted : u.accepted = k
  held : u.held = decide (k = 0)
  mem_eq : u.bridge.mem = b.written cfg mem k

/-- The response is raised, with `k` beats accepted. -/
structure Responding (b : Burst n) (mem : Memory Half) (k : ℕ) (u : Bus n) : Prop where
  phase : u.bridge.phase = .response
  write : u.bridge.arw.write = true
  accepted : u.accepted = k
  mem_eq : u.bridge.mem = mem

section Run

variable {cfg : Config n} {b : Burst n} {mem : Memory Half} {k : ℕ} {u : Bus n} {c : Cycle}

theorem Writing.bValid (h : Writing cfg b mem k u) : u.bridge.bValid = false := by
  simp [State.bValid, h.phase]

theorem Responding.bValid (h : Responding b mem k u) : u.bridge.bValid = true := by
  simp [State.bValid, h.phase, h.write]

/-- The high half of a word, as the bridge writes it. -/
theorem step_accessHigh_write (cfg : Config n) {s : State n} (i : Input n)
    (hphase : s.phase = .accessHigh)
    (hwrite : s.arw.write = true) :
    step cfg s i =
      { s with
        mem := storeHigh s.mem (cfg.word s.arw.addr) i.w.strb i.w.data
        arw := if i.wValid then { s.arw with addr := cfg.next s.arw s.arw.addr } else s.arw
        phase := if i.w.last = true ∨ s.arw.len = 0 then .response else .accessHigh } := by
  simp [step, hphase, State.accessHigh, hwrite, storeHigh]

theorem Writing.step_valid (h : Writing cfg b mem k u) (hwrite : b.arw.write = true)
    (hincr : cfg.IncrWords b.arw) (hk : k ≤ b.arw.len.toNat)
    (hvalid : k = 0 ∨ c.offer = true) :
    busStep cfg b u c =
      { bridge :=
          { u.bridge with
            mem := b.written cfg mem (k + 1)
            arw := { b.arw with addr := cfg.beatAddr b.arw (k + 1) }
            phase := if k = b.arw.len.toNat then .response else .accessHigh }
        accepted := k + 1
        held := false } := by
  have hv : b.wValid u c = true := by
    simpa [Burst.wValid, h.accepted, h.held, hk] using hvalid
  have hw : (b.input u c).w = ⟨b.data k, b.strb k, k = b.arw.len.toNat⟩ := by
    rw [Burst.input, Burst.payload, if_pos hv, h.accepted]
  have hword : cfg.word (cfg.beatAddr b.arw k) = cfg.beatWord b.arw k := hincr k hk
  have hready : u.bridge.wReady (b.input u c) = true := by
    simp [State.wReady, h.phase, h.arw, Burst.input, hv, hwrite]
  -- a burst of one beat ends with beat 0, so the test for it adds nothing
  have hlast : ((b.input u c).w.last = true ∨ u.bridge.arw.len = 0) ↔
      k = b.arw.len.toNat := by
    rw [hw, h.arw, decide_eq_true_iff]
    refine or_iff_left_of_imp fun hz => ?_
    rw [hz] at hk ⊢
    exact Nat.le_zero.mp hk
  have hstep := step_accessHigh_write cfg (b.input u c) h.phase
    (by rw [h.arw]; exact hwrite)
  rw [if_congr hlast rfl rfl, if_pos (show (b.input u c).wValid = true from hv), hw, h.mem_eq,
    h.arw, hword] at hstep
  simp only [busStep, hready, hstep, if_true, Bool.not_true, Bool.and_false, h.accepted,
    Burst.written, beatAddr_succ, Config.next]

theorem Writing.next (h : Writing cfg b mem k u) (hwrite : b.arw.write = true)
    (hincr : cfg.IncrWords b.arw) (hk : k < b.arw.len.toNat)
    (hvalid : k = 0 ∨ c.offer = true) : Writing cfg b mem (k + 1) (busStep cfg b u c) := by
  rw [h.step_valid hwrite hincr hk.le hvalid]
  exact ⟨if_neg hk.ne, rfl, rfl, by simp, rfl⟩

theorem Writing.last (h : Writing cfg b mem b.arw.len.toNat u) (hwrite : b.arw.write = true)
    (hincr : cfg.IncrWords b.arw) (hvalid : b.arw.len.toNat = 0 ∨ c.offer = true) :
    Responding b (b.written cfg mem (b.arw.len.toNat + 1)) (b.arw.len.toNat + 1)
      (busStep cfg b u c) := by
  rw [h.step_valid hwrite hincr le_rfl hvalid]
  exact ⟨if_pos rfl, hwrite, rfl, rfl⟩

/-- A later beat that is not on offer, with `w.last` high on the idle channel: the bridge
takes the burst for finished. -/
theorem Writing.missed (h : Writing cfg b mem k u) (hwrite : b.arw.write = true)
    (hk : k ≠ 0) (hoffer : c.offer = false) (hlast : c.idle.last = true) :
    (busStep cfg b u c).bridge.bValid = true ∧ (busStep cfg b u c).accepted = k := by
  have hv : b.wValid u c = false := by simp [Burst.wValid, h.held, hk, hoffer]
  have hw : (b.input u c).w = c.idle := by simp [Burst.input, Burst.payload, hv]
  have hready : u.bridge.wReady (b.input u c) = false := by
    simp [State.wReady, Burst.input, hv]
  have hstep := step_accessHigh_write cfg (b.input u c) h.phase
    (by rw [h.arw]; exact hwrite)
  rw [if_neg (show ¬(b.input u c).wValid = true from fun h => by
    rw [show (b.input u c).wValid = b.wValid u c from rfl, hv] at h; cases h)] at hstep
  constructor
  · simp [busStep, hstep, State.bValid, hw, hlast, h.arw, hwrite]
  · simp [busStep, hready, h.accepted]

/-- The response is held until the master takes it. -/
theorem Responding.step (h : Responding b mem k u) :
    (c.bReady = false → (busStep cfg b u c).bridge = u.bridge) ∧
      (c.bReady = true → (busStep cfg b u c).bridge.phase = .setup) := by
  constructor <;> intro hready <;>
    simp [busStep, Karnix.Sram.step, h.phase, h.write, Burst.input, hready]

variable {s : State n} {env : ℕ → Cycle}

theorem busAt_succ (t : ℕ) :
    busAt cfg b s env (t + 1) = busStep cfg b (busAt cfg b s env t) (env t) := rfl

theorem busAt_one (hsetup : s.phase = .setup) :
    busAt cfg b s env 1 =
      ⟨{ s with phase := .accessLow, arw := b.arw, lenBurst := b.arw.len }, 0,
        (env 0).offer⟩ := by
  rw [show busAt cfg b s env 1 = busStep cfg b ⟨s, 0, false⟩ (env 0) from rfl]
  simp [busStep, Karnix.Sram.step, hsetup, Burst.input, Burst.wValid, State.wReady]

/-- After the low half of the first beat, driven by whatever is on the write channel. -/
theorem busAt_two (hsetup : s.phase = .setup) (hwrite : b.arw.write = true)
    (hincr : cfg.IncrWords b.arw) :
    busAt cfg b s env 2 =
      ⟨{ s with
          phase := .accessHigh
          arw := b.arw
          lenBurst := b.arw.len
          mem := storeLow s.mem (cfg.beatWord b.arw 0)
            (b.payload (busAt cfg b s env 1) (env 1)).strb
            (b.payload (busAt cfg b s env 1) (env 1)).data }, 0,
        (env 0).offer || (env 1).offer⟩ := by
  have hword : cfg.word b.arw.addr = cfg.beatWord b.arw 0 := hincr 0 (Nat.zero_le _)
  rw [busAt_succ, busAt_one hsetup]
  simp [busStep, Karnix.Sram.step, State.accessLow, Burst.input, Burst.wValid, State.wReady,
    hwrite, hword, storeLow]

theorem writing_zero (hsetup : s.phase = .setup) (hwrite : b.arw.write = true)
    (hincr : cfg.IncrWords b.arw) (hstart : (env 0).offer = true ∨ (env 1).offer = true) :
    Writing cfg b s.mem 0 (busAt cfg b s env 2) := by
  have hoffer : ((env 0).offer || (env 1).offer) = true := by simpa using hstart
  have hpayload : b.payload (busAt cfg b s env 1) (env 1) =
      ⟨b.data 0, b.strb 0, 0 = b.arw.len.toNat⟩ := by
    rw [busAt_one hsetup, Burst.payload, if_pos]
    simpa [Burst.wValid] using hstart
  rw [busAt_two hsetup hwrite hincr, hpayload]
  exact ⟨rfl, rfl, rfl, hoffer, rfl⟩

/-- With no beat on offer yet, the low half is driven by the idle channel. -/
theorem busAt_two_idle (hsetup : s.phase = .setup) (hwrite : b.arw.write = true)
    (hincr : cfg.IncrWords b.arw) (h0 : (env 0).offer = false) (h1 : (env 1).offer = false) :
    (busAt cfg b s env 2).bridge.mem =
      storeLow s.mem (cfg.beatWord b.arw 0) (env 1).idle.strb (env 1).idle.data := by
  have hpayload : b.payload (busAt cfg b s env 1) (env 1) = (env 1).idle := by
    rw [busAt_one hsetup, Burst.payload, if_neg]
    simp [Burst.wValid, h0, h1]
  rw [busAt_two hsetup hwrite hincr, hpayload]

/-- **Run.**  As long as the beats are on offer in time, beat `k` is at clock edge `k + 2`. -/
theorem writing_at (hsetup : s.phase = .setup) (hwrite : b.arw.write = true)
    (hincr : cfg.IncrWords b.arw) (hstart : (env 0).offer = true ∨ (env 1).offer = true)
    (hk : k ≤ b.arw.len.toNat)
    (hoffer : ∀ j, 0 < j → j < k → (env (j + 2)).offer = true) :
    Writing cfg b s.mem k (busAt cfg b s env (k + 2)) := by
  induction k with
  | zero => exact writing_zero hsetup hwrite hincr hstart
  | succ k ih =>
    have h := ih (by omega) fun j h0 hj => hoffer j h0 (by omega)
    refine h.next hwrite hincr (by omega) ?_
    rcases Nat.eq_zero_or_pos k with hz | hpos
    · exact Or.inl hz
    · exact Or.inr (hoffer k hpos (by omega))

/-- Before the response there is none. -/
theorem bValid_before (hsetup : s.phase = .setup) (hwrite : b.arw.write = true)
    (hincr : cfg.IncrWords b.arw) (hstart : (env 0).offer = true ∨ (env 1).offer = true)
    (hk : k ≤ b.arw.len.toNat)
    (hoffer : ∀ j, 0 < j → j < k → (env (j + 2)).offer = true) (m : ℕ) (hm : m < k + 3) :
    (busAt cfg b s env m).bridge.bValid = false := by
  match m with
  | 0 => simp [busAt, State.bValid, hsetup]
  | 1 => simp [busAt_one hsetup, State.bValid]
  | m + 2 =>
    exact (writing_at hsetup hwrite hincr hstart (by omega : m ≤ b.arw.len.toNat)
      fun j h0 hj => hoffer j h0 (by omega)).bValid

/-- The response is held, with the bridge unchanged, until the master takes it. -/
theorem Responding.held {m : ℕ} (h : Responding b mem k (busAt cfg b s env m)) (d : ℕ)
    (hready : ∀ j, m ≤ j → j < m + d → (env j).bReady = false) :
    (busAt cfg b s env (m + d)).bridge = (busAt cfg b s env m).bridge := by
  induction d with
  | zero => rfl
  | succ d ih =>
    have hsame := ih fun j hj hlt => hready j hj (by omega)
    have hphase : (busAt cfg b s env (m + d)).bridge.phase = .response := by
      rw [hsame]
      exact h.phase
    have hwrite : (busAt cfg b s env (m + d)).bridge.arw.write = true := by
      rw [hsame]
      exact h.write
    rw [← hsame]
    exact (Responding.step (b := b) ⟨hphase, hwrite, rfl, rfl⟩).1
      (hready (m + d) (Nat.le_add_right m d) (by omega))

end Run

/-! ## Section 6: The burst -/

section Main

variable {cfg : Config n} {b : Burst n} {s : State n} {env : ℕ → Cycle}

/-- A burst whose beats are on offer in time is accepted in full, and the bridge has stored
what `Burst.written` says. -/
theorem responding_of_offered (hsetup : s.phase = .setup) (hwrite : b.arw.write = true)
    (hincr : cfg.IncrWords b.arw) (hstart : (env 0).offer = true ∨ (env 1).offer = true)
    (hoffer : ∀ k, 0 < k → k ≤ b.arw.len.toNat → (env (k + 2)).offer = true) :
    Responding b (b.written cfg s.mem (b.arw.len.toNat + 1)) (b.arw.len.toNat + 1)
      (busAt cfg b s env (b.arw.len.toNat + 3)) := by
  have h := writing_at hsetup hwrite hincr hstart le_rfl fun j h0 hj => hoffer j h0 hj.le
  refine h.last hwrite hincr ?_
  rcases Nat.eq_zero_or_pos b.arw.len.toNat with hz | hpos
  · exact Or.inl hz
  · exact Or.inr (hoffer _ hpos le_rfl)

/-- Until then no byte changes that the burst does not strobe. -/
theorem untouched_of_offered (hsetup : s.phase = .setup) (hwrite : b.arw.write = true)
    (hincr : cfg.IncrWords b.arw) (hstart : (env 0).offer = true ∨ (env 1).offer = true)
    (hoffer : ∀ k, 0 < k → k ≤ b.arw.len.toNat → (env (k + 2)).offer = true)
    (m : ℕ) (hm : m ≤ b.arw.len.toNat + 3) {x j : ℕ} (hj : j < 2) (hx : ¬ b.Strobes cfg x j) :
    byteOf ((busAt cfg b s env m).bridge.mem x) j = byteOf (s.mem x) j := by
  match m with
  | 0 => rfl
  | 1 => rw [busAt_one hsetup]
  | m + 2 =>
    rcases Nat.lt_or_ge b.arw.len.toNat m with hlt | hle
    · -- the clock edge of the response
      rw [show m + 2 = b.arw.len.toNat + 3 by omega,
        (responding_of_offered hsetup hwrite hincr hstart hoffer).mem_eq]
      exact byteOf_written_of_not hj hx le_rfl
    · rw [(writing_at hsetup hwrite hincr hstart hle
        fun j h0 hj => hoffer j h0 (by omega)).mem_eq]
      exact byteOf_written_of_not hj hx (by omega)

/-- A seamless burst does what it has to. -/
theorem writeBurst_of_seamless (hsetup : s.phase = .setup) (hwrite : b.arw.write = true)
    (hincr : cfg.IncrWords b.arw)
    (hseam : Seamless b.arw.len.toNat b.strb fun t => (env t).offer) :
    WriteBurst cfg s b env := by
  obtain ⟨hstart, hbeats⟩ := hseam
  have hoffer : ∀ k, 0 < k → k ≤ b.arw.len.toNat → (env (k + 2)).offer = true :=
    fun k h0 hk => (hbeats k h0 hk).1
  have hresp := responding_of_offered hsetup hwrite hincr hstart hoffer
  refine ⟨b.arw.len.toNat + 3, ?_, hresp.bValid, hresp.accepted, ?_, ?_, ?_⟩
  · exact bValid_before hsetup hwrite hincr hstart le_rfl fun j h0 hj => hoffer j h0 hj.le
  · rw [hresp.mem_eq]
    exact written_eq_stored fun k h0 hk => (hbeats k h0 hk).2
  · exact fun m hm x j hj hx =>
      untouched_of_offered hsetup hwrite hincr hstart hoffer m hm hj hx
  · -- the response is held, and taken once
    intro m hm hready
    obtain ⟨d, rfl⟩ := Nat.exists_eq_add_of_le hm
    have hsame := hresp.held d hready
    refine ⟨hsame, fun hnow => ?_⟩
    have hhere : Responding b (b.written cfg s.mem (b.arw.len.toNat + 1))
        (busAt cfg b s env (b.arw.len.toNat + 3 + d)).accepted
        (busAt cfg b s env (b.arw.len.toNat + 3 + d)) := by
      refine ⟨?_, ?_, rfl, ?_⟩ <;> rw [hsame]
      · exact hresp.phase
      · exact hresp.write
      · exact hresp.mem_eq
    exact hhere.step.2 hnow

/-- The first response tells when the burst is over. -/
theorem Responds.eq_of_first {t t' : ℕ} (h : Responds cfg s b env t)
    (hfirst : ∀ m, m < t' → (busAt cfg b s env m).bridge.bValid = false)
    (hvalid : (busAt cfg b s env t').bridge.bValid = true) : t = t' := by
  rcases Nat.lt_trichotomy t t' with hlt | heq | hgt
  · exact absurd h.valid (by rw [hfirst t hlt]; decide)
  · exact heq
  · exact absurd hvalid (by rw [h.first t' hgt]; decide)

/-- From the second clock edge on to the response, the low halves are left alone. -/
theorem even_stays (hsetup : s.phase = .setup) (hwrite : b.arw.write = true)
    (hincr : cfg.IncrWords b.arw) (x d : ℕ)
    (hbefore : ∀ m, m < d + 2 → (busAt cfg b s env m).bridge.bValid = false) :
    ((busAt cfg b s env (d + 2)).bridge.phase = .accessHigh ∨
        (busAt cfg b s env (d + 2)).bridge.phase = .response) ∧
      (busAt cfg b s env (d + 2)).bridge.arw.write = true ∧
      (busAt cfg b s env (d + 2)).bridge.mem (2 * x) =
        (busAt cfg b s env 2).bridge.mem (2 * x) := by
  induction d with
  | zero =>
    refine ⟨?_, ?_, rfl⟩ <;> rw [busAt_two hsetup hwrite hincr]
    · exact Or.inl rfl
    · exact hwrite
  | succ d ih =>
    obtain ⟨hphase, hw, hmem⟩ := ih fun m hm => hbefore m (by omega)
    have hnow := hbefore (d + 2) (by omega)
    -- a bridge in `RESPONSE` would have raised the response already
    have hhigh : (busAt cfg b s env (d + 2)).bridge.phase = .accessHigh := by
      refine hphase.resolve_right fun hr => ?_
      rw [State.bValid, hr, hw] at hnow
      exact absurd hnow (by decide)
    have hstep := step_accessHigh_write cfg
      (b.input (busAt cfg b s env (d + 2)) (env (d + 2))) hhigh hw
    have hnext : (busAt cfg b s env (d + 3)).bridge =
        step cfg (busAt cfg b s env (d + 2)).bridge
          (b.input (busAt cfg b s env (d + 2)) (env (d + 2))) := rfl
    rw [hnext, hstep]
    refine ⟨?_, ?_, storeHigh_even.trans hmem⟩
    · dsimp only
      split
      · exact Or.inr rfl
      · exact Or.inl rfl
    · dsimp only
      split <;> exact hw

end Main

section Necessity

variable {cfg : Config n} {a : Arw n} {strb : ℕ → BitVec 4}

/-- A bridge in `SETUP` over a cleared memory. -/
def cleared (a : Arw n) : State n := ⟨.setup, 0, a, 0, fun _ => 0⟩

/-- A write channel that drives all ones while it holds no beat. -/
def ones : WPayload := ⟨BitVec.allOnes 32, BitVec.allOnes 4, true⟩

/-- All beats but the first are all ones. -/
def onesAfter (k : ℕ) : BitVec 32 := if k = 0 then 0 else BitVec.allOnes 32

theorem stored_zero_even (k x j : ℕ) (hj : j < 2) :
    byteOf ((⟨a, fun _ => 0, strb⟩ : Burst n).stored cfg (fun _ => 0) k (2 * x)) j = 0 := by
  have hzero : byteOf (0 : Half) j = 0 := by simp [byteOf]
  induction k with
  | zero => exact hzero
  | succ k ih =>
    rw [Burst.stored, byteOf_storeWord_even hj]
    split
    · exact hzero
    · exact ih

/-- A strobed byte of a later beat ends up all ones, whatever the beats after it do. -/
theorem stored_onesAfter_even (cfg : Config n) (a : Arw n) {k j : ℕ} (hk : 0 < k) (hj : j < 2)
    (hstrb : (strb k).getLsbD j = true) (d : ℕ) :
    byteOf ((⟨a, onesAfter, strb⟩ : Burst n).stored cfg (fun _ => 0) (k + 1 + d)
      (2 * cfg.beatWord a k)) j = BitVec.allOnes 8 := by
  have hones : ∀ m, 0 < m →
      byteOf ((onesAfter m).extractLsb' 0 16) j = BitVec.allOnes 8 := by
    intro m hm
    rw [onesAfter, if_neg hm.ne']
    rcases (show j = 0 ∨ j = 1 by omega) with rfl | rfl <;> decide
  induction d with
  | zero =>
    rw [Nat.add_zero, Burst.stored, byteOf_storeWord_even hj, if_pos ⟨rfl, hstrb⟩]
    exact hones k hk
  | succ d ih =>
    rw [← Nat.add_assoc, Burst.stored, byteOf_storeWord_even hj]
    split
    · exact hones _ (by omega)
    · exact ih

/-- With no beat on offer by the cycle after the handshake, the bridge stores the idle channel
in the low half of the first word. -/
theorem offered_of_writeBurst (hwrite : a.write = true) (hincr : cfg.IncrWords a)
    (offer bReady : ℕ → Bool)
    (h : WriteBurst cfg (cleared a) ⟨a, fun _ => 0, strb⟩ fun t =>
      ⟨offer t, ones, bReady t⟩) :
    offer 0 = true ∨ offer 1 = true := by
  by_contra hnone
  obtain ⟨h0, h1⟩ := not_or.mp hnone
  rw [Bool.not_eq_true] at h0 h1
  obtain ⟨t, ht⟩ := h
  match t, ht with
  | 0, ht => exact absurd ht.valid (by simp [busAt, cleared, State.bValid])
  | 1, ht => exact absurd ht.valid (by rw [busAt_one rfl]; simp [State.bValid])
  | d + 2, ht =>
    have hstays := (even_stays rfl hwrite hincr (cfg.beatWord a 0) d ht.first).2.2
    rw [ht.mem_eq, busAt_two_idle rfl hwrite hincr h0 h1] at hstays
    -- the beats carry zeros only, but the idle channel was stored
    have hzero : byteOf (storeLow (cleared a).mem (cfg.beatWord a 0) ones.strb ones.data
        (2 * cfg.beatWord a 0)) 0 = 0 := by
      rw [← hstays]
      exact stored_zero_even _ _ 0 (by decide)
    rw [byteOf_storeLow (by decide), if_pos ⟨rfl, by decide⟩] at hzero
    exact absurd hzero (by decide)

/-- A later beat that comes late is lost when the idle channel drives `w.last`. -/
theorem offered_later_of_writeBurst (hwrite : a.write = true) (hincr : cfg.IncrWords a)
    (data : ℕ → BitVec 32) (offer bReady : ℕ → Bool) (hstart : offer 0 = true ∨ offer 1 = true)
    (h : WriteBurst cfg (cleared a) ⟨a, data, strb⟩ fun t => ⟨offer t, ones, bReady t⟩)
    (k : ℕ) (hpos : 0 < k) (hk : k ≤ a.len.toNat) : offer (k + 2) = true := by
  obtain ⟨t, ht⟩ := h
  induction k using Nat.strong_induction_on with
  | _ k ih =>
    -- the first beat that is late ends the burst, with `k` beats accepted
    by_contra hmiss
    rw [Bool.not_eq_true] at hmiss
    have hoffer : ∀ j, 0 < j → j < k → offer (j + 2) = true :=
      fun j h0 hj => ih j hj h0 (by omega)
    have hat : Writing cfg ⟨a, data, strb⟩ (cleared a).mem k
        (busAt cfg ⟨a, data, strb⟩ (cleared a) (fun t => ⟨offer t, ones, bReady t⟩) (k + 2)) :=
      writing_at rfl hwrite hincr hstart hk hoffer
    obtain ⟨hvalid, haccepted⟩ := hat.missed (c := ⟨offer (k + 2), ones, bReady (k + 2)⟩)
      hwrite hpos.ne' hmiss rfl
    have hend : t = k + 3 :=
      ht.eq_of_first (bValid_before rfl hwrite hincr hstart hk hoffer) hvalid
    have hall := ht.accepted
    rw [hend] at hall
    have hnow : k = a.len.toNat + 1 := haccepted.symm.trans hall
    omega

/-- The low half of a later beat is not stored. -/
theorem unstrobed_of_writeBurst (hwrite : a.write = true) (hincr : cfg.IncrWords a)
    (idle : ℕ → WPayload) (offer bReady : ℕ → Bool) (hstart : offer 0 = true ∨ offer 1 = true)
    (hoffer : ∀ k, 0 < k → k ≤ a.len.toNat → offer (k + 2) = true)
    (h : WriteBurst cfg (cleared a) ⟨a, onesAfter, strb⟩ fun t =>
      ⟨offer t, idle t, bReady t⟩)
    (k : ℕ) (hpos : 0 < k) (hk : k ≤ a.len.toNat) (j : ℕ) (hj : j < 2) :
    (strb k).getLsbD j = false := by
  by_contra hbit
  rw [Bool.not_eq_false] at hbit
  obtain ⟨t, ht⟩ := h
  have hresp : Responding ⟨a, onesAfter, strb⟩
      ((⟨a, onesAfter, strb⟩ : Burst n).written cfg (cleared a).mem (a.len.toNat + 1))
      (a.len.toNat + 1)
      (busAt cfg ⟨a, onesAfter, strb⟩ (cleared a) (fun t => ⟨offer t, idle t, bReady t⟩)
        (a.len.toNat + 3)) :=
    responding_of_offered rfl hwrite hincr hstart hoffer
  have hend : t = a.len.toNat + 3 :=
    ht.eq_of_first (bValid_before rfl hwrite hincr hstart le_rfl
      fun j h0 hj => hoffer j h0 hj.le) hresp.bValid
  -- the byte stays zero in the SRAM, and is to be all ones
  have hmem := ht.mem_eq
  rw [hend, hresp.mem_eq] at hmem
  have hzero : byteOf ((⟨a, onesAfter, strb⟩ : Burst n).written cfg (cleared a).mem
      (a.len.toNat + 1) (2 * cfg.beatWord a k)) j = 0 := by
    rw [written_even, Burst.written, byteOf_storeLow hj]
    rcases (show j = 0 ∨ j = 1 by omega) with rfl | rfl <;>
      simp [onesAfter, byteOf, cleared]
  have hones := stored_onesAfter_even cfg a hpos hj hbit (a.len.toNat - k)
  rw [show k + 1 + (a.len.toNat - k) = a.len.toNat + 1 by omega] at hones
  rw [hmem] at hzero
  exact absurd (hzero.symm.trans hones) (by decide)

end Necessity

/-- **Write burst.**  A write burst is stored, whatever the memory, the data and the idle
value of the write channel are, exactly when its first beat is on offer in the cycle after
the address handshake, every later one in the cycle after its predecessor was accepted, and
no later one strobes a byte of the low half of its word. -/
theorem writeBurst_iff (cfg : Config n) (a : Arw n) (hwrite : a.write = true)
    (hincr : cfg.IncrWords a) (strb : ℕ → BitVec 4) (offer : ℕ → Bool) :
    (∀ (s : State n) (data : ℕ → BitVec 32) (idle : ℕ → WPayload) (bReady : ℕ → Bool),
        s.phase = .setup →
          WriteBurst cfg s ⟨a, data, strb⟩ fun t => ⟨offer t, idle t, bReady t⟩) ↔
      Seamless a.len.toNat strb offer := by
  constructor
  · -- data and idle values are chosen so that what goes wrong can be seen in the memory
    intro h
    have hstart := offered_of_writeBurst hwrite hincr offer (fun _ => false)
      (h (cleared a) (fun _ => 0) (fun _ => ones) (fun _ => false) rfl)
    have hoffer := offered_later_of_writeBurst hwrite hincr (fun _ => 0) offer (fun _ => false)
      hstart (h (cleared a) (fun _ => 0) (fun _ => ones) (fun _ => false) rfl)
    have hstrb := unstrobed_of_writeBurst hwrite hincr (fun _ => ones) offer (fun _ => false)
      hstart hoffer (h (cleared a) onesAfter (fun _ => ones) (fun _ => false) rfl)
    exact ⟨hstart, fun k h0 hk =>
      ⟨hoffer k h0 hk, hstrb k h0 hk 0 (by decide), hstrb k h0 hk 1 (by decide)⟩⟩
  · intro hseam s data idle bReady hsetup
    exact writeBurst_of_seamless hsetup hwrite hincr hseam

/-- A write of two words at the start of the SRAM. -/
def twoWrites : Arw 32 := ⟨0x90000000#32, 1#8, 2#3, 1#2, true⟩

/-- The second word is offered at once and has its high half written only. -/
theorem writeBurst_high_half :
    WriteBurst pageConfig (cleared twoWrites)
      ⟨twoWrites, fun _ => 0xDEADBEEF#32, fun k => if k = 0 then 0xF#4 else 0xC#4⟩
      fun t => ⟨true, ones, t % 2 = 0⟩ := by
  refine (writeBurst_iff pageConfig twoWrites rfl
    (by unfold Config.IncrWords; decide +kernel) _ fun _ => true).2 ⟨Or.inl rfl, ?_⟩
    (cleared twoWrites) _ (fun _ => ones) (fun t => t % 2 = 0) rfl
  intro k h0 hk
  rw [if_neg h0.ne']
  exact ⟨rfl, by decide, by decide⟩

/-- A write of two words, all bytes strobed and both beats on offer throughout: the low half of
the second word is not stored. -/
theorem writeBurst_loses_low_half :
    ¬ WriteBurst pageConfig (cleared twoWrites)
      ⟨twoWrites, fun _ => 0xDEADBEEF#32, fun _ => 0xF#4⟩ fun _ => ⟨true, ones, false⟩ := by
  rintro ⟨t, ht⟩
  have hend : t = 4 := ht.eq_of_first (by decide +kernel) (by decide +kernel)
  have hhalf := congrFun ht.mem_eq 2
  rw [hend] at hhalf
  exact absurd hhalf (by decide +kernel)

end Karnix.Sram
