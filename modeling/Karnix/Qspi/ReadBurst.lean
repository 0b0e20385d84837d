import Karnix.Library.Bytes
import Karnix.Qspi.Wires

/-!
# Read bursts of the QSPI bridge

The flash answers the command `0x6b`, a 24-bit address and eight further clocks with its bytes
from that address on, four bits at a clock, as long as it stays selected.  A read burst keeps it
selected from the command to the last beat and gives it eight clocks for each beat, none while the
master stalls, so that the beats are the words of the flash.
-/

namespace Karnix.Qspi.Reading

open Karnix.Library

/-! ## Section 1: The flash -/

/-- The bytes of a flash, and what it has seen of the bus. -/
structure Flash where
  bytes : Memory Byte
  windows : Windows

/-- Half a byte of the bytes from `a` on, the high one first. -/
def nibble (bytes : Memory Byte) (a n : ℕ) : BitVec 4 :=
  (bytes (a + n / 2)).extractLsb' (4 * (1 - n % 2)) 4

/-- What the flash puts on its pins while it is selected. -/
def Flash.output (f : Flash) : Option (BitVec 4) :=
  let bits := f.windows.shifted
  if ofBits (bits.take 8) = 0x6b ∧ 40 ≤ bits.length then
    some (nibble f.bytes (ofBits ((bits.drop 8).take 24)) (bits.length - 40))
  else none

/-- The levels of the pins where the flash drives them. -/
def drive (c : Cycle) : Option (BitVec 4) → Cycle
  | none => c
  | some x =>
    { c with
      io0 := x.getLsbD 0
      io1 := x.getLsbD 1
      io2 := x.getLsbD 2
      io3 := x.getLsbD 3 }

/-- The bridge and its flash. -/
structure Link where
  wires : Wires
  flash : Flash

namespace Link

/-- A cycle as the bridge sees it. -/
def levels (u : Link) (c : Cycle) : Cycle :=
  if (u.wires.pins c).cs then c else drive c u.flash.output

/-- A clock cycle of the bridge and of the flash that sees its pins. -/
def step (incr : AddressStep) (u : Link) (c : Cycle) : Link where
  wires := u.wires.next incr (u.levels c)
  flash := { u.flash with windows := u.flash.windows.clock ((u.wires.pins c).seen (u.levels c)) }

/-- The beat that the master takes in a cycle, and whether it is marked as the last one. -/
def rBeat (u : Link) (c : Cycle) : Option (BitVec 32 × Bool) := u.wires.rBeat c

end Link

/-! ## Section 2: A read burst -/

/-- What is read: `len + 1` words of `bytes` from `addr` on. -/
structure Request where
  bytes : Memory Byte
  addr : BitVec 24
  len : BitVec 8

/-- The little-endian word at `a`. -/
def wordAt (bytes : Memory Byte) (a : ℕ) : BitVec 32 :=
  bytes (a + 3) ++ bytes (a + 2) ++ bytes (a + 1) ++ bytes a

/-- The beat of word `k`, marked if it is the last one. -/
def Request.beat (q : Request) (k : ℕ) : BitVec 32 × Bool :=
  (wordAt q.bytes (q.addr.toNat + 4 * k), decide (k = q.len.toNat))

def Request.beats (q : Request) : List (BitVec 32 × Bool) :=
  (List.range (q.len.toNat + 1)).map q.beat

section Burst

variable (incr : AddressStep)

/-- In no cycle after the first and up to `t` is the bridge back in `SETUP`. -/
def Busy (u : Link) (c : ℕ → Cycle) (t : ℕ) : Prop :=
  ∀ m, 0 < m → m ≤ t → (trace (Link.step incr) u c m).wires.bridge.phase ≠ .setup

/-- The master takes read data again and again. -/
def EventuallyReady (c : ℕ → Cycle) : Prop := ∀ m, ∃ n, m ≤ n ∧ (c n).rReady = true

/-- **Read burst.**  The beats are the words of the flash, in order.  The flash stays selected
from the cycle after the request on, and when beat `k` is returned it has seen the clocks of the
command and eight for each beat up to this one.  If the master does not stall forever, all beats
are returned. -/
structure ReadsFlash (q : Request) (u : Link) (c : ℕ → Cycle) : Prop where
  beats : ∀ t, Busy incr u c t → observed (Link.step incr) Link.rBeat u c t <+: q.beats
  selected : ∀ t, 0 < t → Busy incr u c t →
    ((trace (Link.step incr) u c t).wires.pins (c t)).cs = false
  clocks : ∀ t, Busy incr u c t → ((trace (Link.step incr) u c t).rBeat (c t)).isSome = true →
    (trace (Link.step incr) u c t).flash.windows.shifted.length =
      40 + 8 * ((observed (Link.step incr) Link.rBeat u c t).length + 1)
  complete : EventuallyReady c → ∃ t, Busy incr u c t ∧
    (trace (Link.step incr) u c (t + 1)).wires.bridge.phase = .setup ∧
    observed (Link.step incr) Link.rBeat u c (t + 1) = q.beats

end Burst

/-! ## Section 3: Where the bridge is -/

/-- The bits of the command with its address. -/
def Request.command (q : Request) : List Bool := msbFirst (0x6b#8 ++ q.addr)

/-- The bytes of a word in the order in which the flash gives them. -/
def Request.word (q : Request) (k : ℕ) : BitVec 32 :=
  let a := q.addr.toNat + 4 * k
  q.bytes a ++ q.bytes (a + 1) ++ q.bytes (a + 2) ++ q.bytes (a + 3)

/-- Beat `k` of a request is under way. -/
structure Serving (q : Request) (k : ℕ) (u : Link) : Prop where
  le_len : k ≤ q.len.toNat
  lenBurst : u.wires.bridge.lenBurst.toNat = q.len.toNat - k
  write : u.wires.bridge.arw.write = false
  bytes : u.flash.bytes = q.bytes

/-- The command sender has not begun. -/
structure Selecting (q : Request) (u : Link) : Prop extends Serving q 0 u where
  phase : u.wires.bridge.phase = .spiCmdRead
  addr : u.wires.addr24 = q.addr
  sender : u.wires.bridge.spiCmd.phase = .idle
  ready : u.wires.bridge.spiCmd.ready = false
  shifted : u.flash.windows.shifted = []

/-- The flash has seen `n` clocks of the command. -/
structure Commanding (q : Request) (n : ℕ) (u : Link) : Prop extends Serving q 0 u where
  phase : u.wires.bridge.phase = .spiCmdRead
  addr : u.wires.addr24 = q.addr
  sender :
    n < 32 ∧ u.wires.bridge.spiCmd.phase = .sendCmd ∧
        u.wires.bridge.spiCmd.curCycle.toNat = 31 - n ∨
      32 ≤ n ∧ u.wires.bridge.spiCmd.phase = .sendM ∧
        u.wires.bridge.spiCmd.curCycle.toNat = 39 - n
  ready : u.wires.bridge.spiCmd.ready = false
  length : u.flash.windows.shifted.length = n
  shifted : u.flash.windows.shifted.take 32 = q.command.take n

/-- The flash is about to give half-byte `m` of word `k`, or has given all eight of them. -/
structure Fetching (q : Request) (k m : ℕ) (u : Link) : Prop extends Serving q k u where
  phase :
    m = 0 ∧ (u.wires.bridge.phase = .spiCmdRead ∧ u.wires.bridge.spiCmd.ready = true ∨
        u.wires.bridge.phase = .qpiReadRepeat) ∨
      0 < m ∧ u.wires.bridge.phase = .qpiRead
  ready : u.wires.bridge.qpiRead.ready = decide (m = 8)
  curCycle : m < 8 → u.wires.bridge.qpiRead.curCycle.toNat = 7 - m
  length : u.flash.windows.shifted.length = 40 + 8 * k + m
  shifted : u.flash.windows.shifted.take 32 = q.command
  data : ∀ j < 32, 32 - 4 * m ≤ j → u.wires.data.getLsbD j = (q.word k).getLsbD j

/-- Word `k` is on offer. -/
structure Offering (q : Request) (k : ℕ) (u : Link) : Prop extends Serving q k u where
  phase : u.wires.bridge.phase = .qpiReadResponse
  length : u.flash.windows.shifted.length = 40 + 8 * (k + 1)
  shifted : u.flash.windows.shifted.take 32 = q.command
  data : u.wires.data = q.word k

/-- Beat `k` is under way, and is offered in `d` cycles. -/
inductive Progress (q : Request) (u : Link) : ℕ → ℕ → Prop
  | select : Selecting q u → Progress q u 0 50
  | command {n : ℕ} : n < 40 → Commanding q n u → Progress q u 0 (49 - n)
  | fetch {k m : ℕ} : m ≤ 8 → Fetching q k m u → Progress q u k (9 - m)
  | offer {k : ℕ} : Offering q k u → Progress q u k 0

section Steps

variable {f : AddressStep}
variable {q : Request} {u : Link} {c : Cycle} {k m n : ℕ}

theorem step_shifted {p : Pins} (h : u.wires.pins c = p) :
    (u.step f c).flash.windows.shifted =
      (u.flash.windows.clock (p.seen (u.levels c))).shifted := by
  rw [← h]
  rfl

theorem length_command : q.command.length = 32 := length_msbFirst _

/-- In the phases before a response nothing changes in the request. -/
theorem Serving.step (h : Serving q k u)
    (hphase : u.wires.bridge.phase = .spiCmdRead ∨ u.wires.bridge.phase = .qpiReadRepeat ∨
      u.wires.bridge.phase = .qpiRead) : Serving q k (u.step f c) := by
  have hregs : (u.step f c).wires.bridge.lenBurst = u.wires.bridge.lenBurst ∧
      (u.step f c).wires.bridge.arw = u.wires.bridge.arw := by
    simp only [Link.step, Wires.next, State.next]
    rcases hphase with hp | hp | hp
    · cases hr : u.wires.bridge.spiCmd.ready <;> simp [State.sm, hp, hr]
    · simp [State.sm, hp]
    · cases hr : u.wires.bridge.qpiRead.ready <;> simp [State.sm, hp, hr]
  exact ⟨h.le_len, by rw [hregs.1]; exact h.lenBurst, by rw [hregs.2]; exact h.write, h.bytes⟩

/-- The sender selects the flash. -/
theorem Selecting.step (h : Selecting q u) :
    u.wires.pins c = .low ∧ Commanding q 0 (u.step f c) := by
  have hvalid : u.wires.bridge.spiCmdValid = true := by
    simp [State.spiCmdValid, h.phase, h.ready]
  have hpins : u.wires.pins c = .low := by
    simp [Wires.pins, h.phase, h.ready, SendCMD.pinsSPI, hvalid, h.sender]
  have hsender : (u.step f c).wires.bridge.spiCmd = ⟨32 - 1, .sendCmd, false⟩ := by
    simp [Link.step, Wires.next, State.next, SendCMD.next, hvalid, h.sender,
      State.spiCmdLenCycles, h.phase]
  have hshifted : (u.step f c).flash.windows.shifted = [] := by
    rw [step_shifted hpins, Pins.seen_low, Windows.shifted_clock_idle, h.shifted]
  refine ⟨hpins, h.toServing.step (Or.inl h.phase), ?_, ?_, Or.inl ⟨by decide, ?_, ?_⟩, ?_, ?_, ?_⟩
  · simp [Link.step, Wires.next, State.next, State.sm, h.phase, h.ready]
  · rw [← h.addr]
    simp [Link.step, Wires.next, Wires.addr24, h.phase]
  · rw [hsender]
  · rw [hsender]
    rfl
  · rw [hsender]
  · rw [hshifted]
    rfl
  · rw [hshifted]
    rfl

theorem Commanding.valid (h : Commanding q n u) : u.wires.bridge.spiCmdValid = true := by
  simp [State.spiCmdValid, h.phase, h.ready]

/-- What stays when the command goes on. -/
theorem Commanding.stay (h : Commanding q n u) :
    (u.step f c).wires.bridge.phase = .spiCmdRead ∧
      (u.step f c).wires.addr24 = q.addr := by
  refine ⟨?_, ?_⟩
  · simp [Link.step, Wires.next, State.next, State.sm, h.phase, h.ready]
  · rw [← h.addr]
    simp [Link.step, Wires.next, Wires.addr24, h.phase]

/-- A bit of the command. -/
theorem Commanding.bit (h : Commanding q n u) (hn : n < 32) :
    (u.wires.pins c).cs = false ∧ Commanding q (n + 1) (u.step f c) := by
  have hsender : u.wires.bridge.spiCmd.phase = .sendCmd ∧
      u.wires.bridge.spiCmd.curCycle.toNat = 31 - n := by
    rcases h.sender with ⟨-, hs⟩ | ⟨hge, -⟩
    · exact hs
    · omega
  obtain ⟨hphase, hcur⟩ := hsender
  have hpins : u.wires.pins c = .bit ((0x6b#8 ++ q.addr).getLsbD (31 - n)) := by
    have hdata : u.wires.spiCmdData = 0x6b#8 ++ q.addr := by
      simp [Wires.spiCmdData, h.phase, h.addr]
    simp [Wires.pins, h.phase, h.ready, SendCMD.pinsSPI, h.valid, hphase, hcur, hdata]
  have hshifted : (u.step f c).flash.windows.shifted =
      u.flash.windows.shifted ++ [(0x6b#8 ++ q.addr).getLsbD (31 - n)] := by
    rw [step_shifted hpins, Pins.seen_bit, Windows.shifted_clock_bit]
  have hnext : (u.step f c).wires.bridge.spiCmd.ready = false ∧
      (n + 1 < 32 ∧ (u.step f c).wires.bridge.spiCmd.phase = .sendCmd ∧
          (u.step f c).wires.bridge.spiCmd.curCycle.toNat = 31 - (n + 1) ∨
        32 ≤ n + 1 ∧ (u.step f c).wires.bridge.spiCmd.phase = .sendM ∧
          (u.step f c).wires.bridge.spiCmd.curCycle.toNat = 39 - (n + 1)) := by
    by_cases hlast : n = 31
    · have hzero : u.wires.bridge.spiCmd.curCycle = 0 := by
        rw [curCycle_eq_zero, hcur, hlast]
      simp [Link.step, Wires.next, State.next, SendCMD.next, h.valid, hphase, hzero, h.phase,
        h.ready, hlast]
    · have hzero : u.wires.bridge.spiCmd.curCycle ≠ 0 := by
        rw [Ne, curCycle_eq_zero, hcur]
        omega
      have hsub : (u.wires.bridge.spiCmd.curCycle - 1).toNat = 31 - (n + 1) := by
        rw [toNat_sub_one (by decide) (by rw [hcur]; omega), hcur]
        omega
      have hsend : (u.step f c).wires.bridge.spiCmd =
          { u.wires.bridge.spiCmd with curCycle := u.wires.bridge.spiCmd.curCycle - 1 } := by
        simp only [Link.step, Wires.next, State.next, SendCMD.next, h.valid, hphase]
        rw [if_pos trivial, if_neg hzero]
      rw [hsend]
      exact ⟨h.ready, Or.inl ⟨by omega, hphase, hsub⟩⟩
  have htake : q.command.take (n + 1) =
      q.command.take n ++ [(0x6b#8 ++ q.addr).getLsbD (31 - n)] := take_msbFirst_succ _ hn
  refine ⟨by rw [hpins]; rfl, h.toServing.step (Or.inl h.phase), h.stay.1, h.stay.2, hnext.2,
    hnext.1, ?_, ?_⟩
  · rw [hshifted, List.length_append, h.length, List.length_singleton]
  · -- so far no bit lies behind the command
    have hall : u.flash.windows.shifted.take 32 = u.flash.windows.shifted :=
      List.take_of_length_le (by rw [h.length]; omega)
    rw [hshifted, htake, ← h.shifted, hall]
    refine List.take_of_length_le ?_
    rw [List.length_append, h.length, List.length_singleton]
    omega

/-- A dummy clock; the last one ends the command. -/
theorem Commanding.dummy (h : Commanding q n u) (hge : 32 ≤ n) (hn : n < 40) :
    (u.wires.pins c).cs = false ∧
      (n + 1 < 40 ∧ Commanding q (n + 1) (u.step f c) ∨
        n + 1 = 40 ∧ Fetching q 0 0 (u.step f c)) := by
  -- all 32 bits are out, so the sender counts dummy clocks
  have hsender : u.wires.bridge.spiCmd.phase = .sendM ∧
      u.wires.bridge.spiCmd.curCycle.toNat = 39 - n := by
    rcases h.sender with ⟨hlt, -⟩ | ⟨-, hs⟩
    · omega
    · exact hs
  obtain ⟨hphase, hcur⟩ := hsender
  -- the clock edge shifts one more bit into the flash, behind the command
  have hpins : u.wires.pins c = .clock := by
    simp [Wires.pins, h.phase, h.ready, SendCMD.pinsSPI, h.valid, hphase]
  have hshifted : (u.step f c).flash.windows.shifted =
      u.flash.windows.shifted ++ [(u.levels c).io0] := by
    rw [step_shifted hpins, Pins.seen_clock, Windows.shifted_clock_bit]
  have hlength : (u.step f c).flash.windows.shifted.length = n + 1 := by
    rw [hshifted, List.length_append, h.length, List.length_singleton]
  have htake : (u.step f c).flash.windows.shifted.take 32 = q.command := by
    rw [hshifted, List.take_append_of_le_length (by rw [h.length]; exact hge), h.shifted]
    exact List.take_of_length_le (by rw [length_command]; exact hge)
  have hserving := h.toServing.step (f := f) (c := c) (Or.inl h.phase)
  refine ⟨by rw [hpins]; rfl, ?_⟩
  -- the last dummy clock hands over to the reader of words
  by_cases hlast : n = 39
  · have hzero : u.wires.bridge.spiCmd.curCycle = 0 := by
      rw [curCycle_eq_zero, hcur, hlast]
    have hready : (u.step f c).wires.bridge.spiCmd.ready = true := by
      simp [Link.step, Wires.next, State.next, SendCMD.next, h.valid, hphase, hzero]
    have hread : (u.step f c).wires.bridge.qpiRead = ⟨7, false⟩ := by
      simp [Link.step, Wires.next, State.next, ReadWord32.next, State.qpiReadValid, h.phase,
        h.ready]
    refine Or.inr ⟨by omega, hserving, Or.inl ⟨rfl, Or.inl ⟨h.stay.1, hready⟩⟩, ?_, ?_, ?_, htake,
      fun j hj hle => absurd hj (by omega)⟩
    · rw [hread]
      rfl
    · rw [hread]
      exact fun _ => rfl
    · rw [hlength, hlast]
  · have hzero : u.wires.bridge.spiCmd.curCycle ≠ 0 := by
      rw [Ne, curCycle_eq_zero, hcur]
      omega
    have hsub : (u.wires.bridge.spiCmd.curCycle - 1).toNat = 39 - (n + 1) := by
      rw [toNat_sub_one (by decide) (by rw [hcur]; omega), hcur]
      omega
    have hsend : (u.step f c).wires.bridge.spiCmd =
        { u.wires.bridge.spiCmd with curCycle := u.wires.bridge.spiCmd.curCycle - 1 } := by
      simp only [Link.step, Wires.next, State.next, SendCMD.next, h.valid, hphase]
      rw [if_pos trivial, if_neg hzero]
    refine Or.inl ⟨by omega, hserving, h.stay.1, h.stay.2, Or.inr ⟨by omega, ?_, ?_⟩, ?_, hlength,
      ?_⟩
    · rw [hsend]
      exact hphase
    · rw [hsend]
      exact hsub
    · rw [hsend]
      exact h.ready
    · rw [htake]
      exact (List.take_of_length_le (by rw [length_command]; omega)).symm

/-! ## Section 4: The words -/

theorem getLsbD_storeNibble (data : BitVec 32) (k : BitVec 3) (c : Cycle) (x : BitVec 4) (j : ℕ) :
    (storeNibble data k (drive c (some x))).getLsbD j =
      if j / 4 = k.toNat then x.getLsbD (j % 4) else data.getLsbD j := by
  have hk := k.isLt
  unfold storeNibble drive
  simp only []
  rw [getLsbD_setBit _ (by omega), getLsbD_setBit _ (by omega), getLsbD_setBit _ (by omega),
    getLsbD_setBit _ (by omega)]
  by_cases hsame : j / 4 = k.toNat
  · -- the four bits of this half-byte
    have hcases : j % 4 = 0 ∨ j % 4 = 1 ∨ j % 4 = 2 ∨ j % 4 = 3 := by omega
    rw [if_pos hsame]
    rcases hcases with h | h | h | h <;> rw [h]
    · rw [if_neg (by omega), if_neg (by omega), if_neg (by omega), if_pos (by omega)]
    · rw [if_neg (by omega), if_neg (by omega), if_pos (by omega)]
    · rw [if_neg (by omega), if_pos (by omega)]
    · rw [if_pos (by omega)]
  · rw [if_neg hsame, if_neg (by omega), if_neg (by omega), if_neg (by omega), if_neg (by omega)]

theorem getLsbD_nibble (bytes : Memory Byte) (a n : ℕ) {i : ℕ} (hi : i < 4) :
    (nibble bytes a n).getLsbD i = (bytes (a + n / 2)).getLsbD (4 * (1 - n % 2) + i) := by
  simp [nibble, hi]

theorem Request.getLsbD_word (q : Request) (k : ℕ) {j : ℕ} (hj : j < 32) :
    (q.word k).getLsbD j =
      (q.bytes (q.addr.toNat + 4 * k + (3 - j / 8))).getLsbD (j % 8) := by
  simp only [Request.word, BitVec.getLsbD_append]
  -- the four bytes, from the lowest bits on
  by_cases h8 : j < 8
  · rw [if_pos h8, show 3 - j / 8 = 3 by omega, Nat.mod_eq_of_lt h8]
  · rw [if_neg h8]
    by_cases h16 : j - 8 < 8
    · rw [if_pos h16, show 3 - j / 8 = 2 by omega, show j % 8 = j - 8 by omega]
    · rw [if_neg h16]
      by_cases h24 : j - 8 - 8 < 8
      · rw [if_pos h24, show 3 - j / 8 = 1 by omega, show j % 8 = j - 8 - 8 by omega]
      · rw [if_neg h24, show 3 - j / 8 = 0 by omega, show j % 8 = j - 8 - 8 - 8 by omega,
          Nat.add_zero]

/-- The half-byte that goes to bits `4 * (7 - m)` and above. -/
theorem Request.getLsbD_nibble_word (q : Request) {k m j : ℕ} (hj : j < 32) (hm : j / 4 = 7 - m)
    (hm8 : m < 8) :
    (nibble q.bytes q.addr.toNat (8 * k + m)).getLsbD (j % 4) = (q.word k).getLsbD j := by
  rw [getLsbD_nibble _ _ _ (Nat.mod_lt _ (by decide)), q.getLsbD_word k hj,
    show q.addr.toNat + (8 * k + m) / 2 = q.addr.toNat + 4 * k + (3 - j / 8) by omega,
    show 4 * (1 - (8 * k + m) % 2) + j % 4 = j % 8 by omega]

/-- The beat of a word that has been read. -/
theorem Request.swapBytes_word (q : Request) (k : ℕ) :
    swapBytes (q.word k) = wordAt q.bytes (q.addr.toNat + 4 * k) := by
  have hbyte : ∀ i < 4, (q.word k).extractLsb' (8 * i) 8 =
      q.bytes (q.addr.toNat + 4 * k + (3 - i)) := by
    intro i hi
    refine BitVec.eq_of_getLsbD_eq fun j hj => ?_
    rw [BitVec.getLsbD_extractLsb', q.getLsbD_word k (by omega),
      show (8 * i + j) / 8 = i by omega, show (8 * i + j) % 8 = j by omega]
    simp [hj]
  unfold swapBytes wordAt
  rw [show (q.word k).extractLsb' 0 8 = _ from hbyte 0 (by decide),
    show (q.word k).extractLsb' 8 8 = _ from hbyte 1 (by decide),
    show (q.word k).extractLsb' 16 8 = _ from hbyte 2 (by decide),
    show (q.word k).extractLsb' 24 8 = _ from hbyte 3 (by decide)]
  rfl

/-- After the command the flash gives its half-bytes. -/
theorem output_eq (hbytes : u.flash.bytes = q.bytes)
    (hshifted : u.flash.windows.shifted.take 32 = q.command)
    (hlength : u.flash.windows.shifted.length = 40 + n) :
    u.flash.output = some (nibble q.bytes q.addr.toNat n) := by
  have hsplit : q.command = msbFirst 0x6b#8 ++ msbFirst q.addr := msbFirst_append _ _
  have hcommand : u.flash.windows.shifted.take 8 = msbFirst 0x6b#8 := by
    have h8 : u.flash.windows.shifted.take 8 = (u.flash.windows.shifted.take 32).take 8 := by
      rw [List.take_take]
      rfl
    rw [h8, hshifted, hsplit]
    exact List.take_left' (length_msbFirst _)
  have haddr : (u.flash.windows.shifted.drop 8).take 24 = msbFirst q.addr := by
    have h32 : (u.flash.windows.shifted.drop 8).take 24 =
        (u.flash.windows.shifted.take 32).drop 8 := by rw [List.drop_take]
    rw [h32, hshifted, hsplit]
    exact List.drop_left' (length_msbFirst _)
  simp only [Flash.output, hcommand, haddr, ofBits_msbFirst, hlength, hbytes]
  rw [if_pos ⟨rfl, Nat.le_add_right 40 n⟩, Nat.add_sub_cancel_left]

/-! ## Section 5: Words and responses -/

/-- A half-byte of a word. -/
theorem Fetching.nibble (h : Fetching q k m u) (hm : m < 8) :
    (u.wires.pins c).cs = false ∧ Fetching q k (m + 1) (u.step f c) := by
  have hcur := h.curCycle hm
  have hready : u.wires.bridge.qpiRead.ready = false := by
    rw [h.ready]
    exact decide_eq_false (by omega)
  -- three phases read a half-byte
  have hphase : u.wires.bridge.qpiReadValid = true ∧ u.wires.pins c = .clock ∧
      (u.step f c).wires.bridge.phase = .qpiRead ∧
      (u.wires.bridge.phase = .spiCmdRead ∨ u.wires.bridge.phase = .qpiReadRepeat ∨
        u.wires.bridge.phase = .qpiRead) := by
    rcases h.phase with ⟨-, ⟨hp, hr⟩ | hp⟩ | ⟨-, hp⟩
    · simp [State.qpiReadValid, Wires.pins, ReadWord32.pins, Link.step, Wires.next, State.next,
        State.sm, hp, hr]
    · simp [State.qpiReadValid, Wires.pins, ReadWord32.pins, Link.step, Wires.next, State.next,
        State.sm, hp]
    · simp [State.qpiReadValid, Wires.pins, ReadWord32.pins, Link.step, Wires.next, State.next,
        State.sm, hp, hready]
  obtain ⟨hvalid, hpins, hnext, hp⟩ := hphase
  have hcs : (u.wires.pins c).cs = false := by
    rw [hpins]
    rfl
  have hread : (u.step f c).wires.bridge.qpiRead =
      ⟨u.wires.bridge.qpiRead.curCycle - 1, decide (u.wires.bridge.qpiRead.curCycle = 0)⟩ := by
    simp [Link.step, Wires.next, State.next, ReadWord32.next, hvalid, hready]
  have hzero : u.wires.bridge.qpiRead.curCycle = 0 ↔ m + 1 = 8 := by
    rw [curCycle_eq_zero, hcur]
    omega
  have hshifted : (u.step f c).flash.windows.shifted =
      u.flash.windows.shifted ++ [(u.levels c).io0] := by
    rw [step_shifted hpins, Pins.seen_clock, Windows.shifted_clock_bit]
  have hlevels : u.levels c =
      drive c (some (Reading.nibble q.bytes q.addr.toNat (8 * k + m))) := by
    have hout := output_eq h.bytes h.shifted (n := 8 * k + m) (by rw [h.length]; omega)
    simp [Link.levels, hcs, hout]
  refine ⟨hcs, h.toServing.step hp, Or.inr ⟨by omega, hnext⟩, ?_, ?_, ?_, ?_, ?_⟩
  · rw [hread]
    exact decide_eq_decide.mpr hzero
  · intro hlt
    rw [hread]
    exact (toNat_sub_one (by decide) (by omega)).trans (by omega)
  · rw [hshifted, List.length_append, h.length, List.length_singleton]
    omega
  · rw [hshifted, List.take_append_of_le_length (by rw [h.length]; omega), h.shifted]
  · intro j hj hle
    have hdata : (u.step f c).wires.data =
        storeNibble u.wires.data u.wires.bridge.qpiRead.curCycle (u.levels c) := by
      simp [Link.step, Wires.next, hvalid]
    rw [hdata, hlevels, getLsbD_storeNibble, hcur]
    split
    · exact q.getLsbD_nibble_word hj ‹_› hm
    · exact h.data j hj (by omega)

/-- The word has been read. -/
theorem Fetching.done (h : Fetching q k 8 u) :
    (u.wires.pins c).cs = false ∧ Offering q k (u.step f c) := by
  have hphase : u.wires.bridge.phase = .qpiRead := by
    rcases h.phase with ⟨h0, -⟩ | ⟨-, hp⟩
    · omega
    · exact hp
  have hready : u.wires.bridge.qpiRead.ready = true := h.ready
  have hpins : u.wires.pins c = .low := by simp [Wires.pins, hphase, hready]
  have hshifted : (u.step f c).flash.windows.shifted = u.flash.windows.shifted := by
    rw [step_shifted hpins, Pins.seen_low, Windows.shifted_clock_idle]
  have hdata : (u.step f c).wires.data = u.wires.data := by
    simp [Link.step, Wires.next, State.qpiReadValid, hphase, hready]
  refine ⟨by rw [hpins]; rfl, h.toServing.step (Or.inr (Or.inr hphase)), ?_, ?_, ?_, ?_⟩
  · simp [Link.step, Wires.next, State.next, State.sm, hphase, hready]
  · rw [hshifted, h.length]
    omega
  · rw [hshifted, h.shifted]
  · rw [hdata]
    exact BitVec.eq_of_getLsbD_eq fun j hj => h.data j hj (by omega)

/-- A word on offer: the bridge waits, ends the burst, or goes on to the next beat. -/
theorem Offering.step (h : Offering q k u) :
    (u.wires.pins c).cs = false ∧
      (c.rReady = false ∧ u.rBeat c = none ∧ Offering q k (u.step f c) ∨
        c.rReady = true ∧ u.rBeat c = some (q.beat k) ∧
          (k = q.len.toNat ∧ (u.step f c).wires.bridge.phase = .setup ∨
            k < q.len.toNat ∧ Fetching q (k + 1) 0 (u.step f c))) := by
  have hpins : u.wires.pins c = .low := by simp [Wires.pins, h.phase]
  have hshifted : (u.step f c).flash.windows.shifted = u.flash.windows.shifted := by
    rw [step_shifted hpins, Pins.seen_low, Windows.shifted_clock_idle]
  have hrready : (u.levels c).rReady = c.rReady := by
    unfold Link.levels
    split
    · rfl
    · cases u.flash.output <;> rfl
  -- the last word is on offer exactly if nothing is left to be read
  have hend : u.wires.bridge.isEndBurst = decide (k = q.len.toNat) := by
    have hlen := h.lenBurst
    have hle := h.le_len
    refine decide_eq_decide.mpr (curCycle_eq_zero.trans ?_)
    omega
  refine ⟨by rw [hpins]; rfl, ?_⟩
  cases hr : c.rReady with
  | false =>
    -- the master stalls, and the word stays on offer
    have hbridge : (u.step f c).wires.bridge.lenBurst = u.wires.bridge.lenBurst ∧
        (u.step f c).wires.bridge.arw = u.wires.bridge.arw ∧
        (u.step f c).wires.bridge.phase = .qpiReadResponse := by
      simp [Link.step, Wires.next, State.next, State.sm, h.phase, hrready, hr]
    have hdata : (u.step f c).wires.data = u.wires.data := by
      simp [Link.step, Wires.next, State.qpiReadValid, h.phase]
    refine Or.inl ⟨rfl, by simp [Link.rBeat, Wires.rBeat, hr], ⟨h.le_len, ?_, ?_, h.bytes⟩,
      hbridge.2.2, ?_, ?_, ?_⟩
    · rw [hbridge.1, h.lenBurst]
    · rw [hbridge.2.1, h.write]
    · rw [hshifted, h.length]
    · rw [hshifted, h.shifted]
    · rw [hdata, h.data]
  | true =>
    -- the master takes the word
    have hbeat : u.rBeat c = some (q.beat k) := by
      simp [Link.rBeat, Wires.rBeat, State.rValid, State.rLast, Wires.rData, h.phase, hr, h.data,
        hend, h.write, q.swapBytes_word, Request.beat]
    refine Or.inr ⟨rfl, hbeat, ?_⟩
    by_cases hk : k = q.len.toNat
    · -- it was the last one
      refine Or.inl ⟨hk, ?_⟩
      simp [Link.step, Wires.next, State.next, State.sm, h.phase, hrready, hr, hend, hk]
    · -- the next one is fetched
      have hle := h.le_len
      have hlen := h.lenBurst
      have hbridge : (u.step f c).wires.bridge.lenBurst = u.wires.bridge.lenBurst - 1 ∧
          (u.step f c).wires.bridge.arw = u.wires.bridge.arw ∧
          (u.step f c).wires.bridge.phase = .qpiReadRepeat := by
        simp [Link.step, Wires.next, State.next, State.sm, h.phase, hrready, hr, hend, hk]
      have hread : (u.step f c).wires.bridge.qpiRead = ⟨7, false⟩ := by
        simp [Link.step, Wires.next, State.next, ReadWord32.next, State.qpiReadValid, h.phase]
      refine Or.inr ⟨by omega, ⟨by omega, ?_, ?_, h.bytes⟩, Or.inl ⟨rfl, Or.inr hbridge.2.2⟩, ?_,
        ?_, ?_, ?_, fun j hj hle => absurd hj (by omega)⟩
      · rw [hbridge.1, toNat_sub_one (by decide) (by omega)]
        omega
      · rw [hbridge.2.1, h.write]
      · rw [hread]
        rfl
      · rw [hread]
        exact fun _ => rfl
      · rw [hshifted]
        exact h.length
      · rw [hshifted, h.shifted]

/-- **Step lemma.**  Beat `k` comes a cycle closer to its offer, or it is on offer. -/
theorem Progress.step {d : ℕ} (h : Progress q u k (d + 1)) :
    (u.wires.pins c).cs = false ∧ u.rBeat c = none ∧ Progress q (u.step f c) k d := by
  have hnone : u.wires.bridge.phase ≠ .qpiReadResponse → u.rBeat c = none := by
    intro hp
    simp [Link.rBeat, Wires.rBeat, State.rValid, hp]
  generalize he : d + 1 = e at h
  cases h with
  | select h =>
    obtain ⟨hpins, hnext⟩ := h.step (f := f) (c := c)
    refine ⟨by rw [hpins]; rfl, hnone (by rw [h.phase]; decide), ?_⟩
    rw [show d = 49 - 0 by omega]
    exact .command (by decide) hnext
  | command hn h =>
    rename_i n
    refine ⟨?_, hnone (by rw [h.phase]; decide), ?_⟩
    · by_cases hlt : n < 32
      · exact (h.bit (f := f) hlt).1
      · exact (h.dummy (f := f) (by omega) hn).1
    · by_cases hlt : n < 32
      · rw [show d = 49 - (n + 1) by omega]
        exact .command (by omega) (h.bit hlt).2
      · rcases (h.dummy (c := c) (by omega) hn).2 with ⟨hlt', hnext⟩ | ⟨heq, hnext⟩
        · rw [show d = 49 - (n + 1) by omega]
          exact .command hlt' hnext
        · rw [show d = 9 - 0 by omega]
          exact .fetch (by decide) hnext
  | fetch hm h =>
    rename_i m
    have hp : u.wires.bridge.phase ≠ .qpiReadResponse := by
      rcases h.phase with ⟨-, ⟨hp, -⟩ | hp⟩ | ⟨-, hp⟩ <;> rw [hp] <;> decide
    by_cases hlt : m < 8
    · obtain ⟨hcs, hnext⟩ := h.nibble (f := f) (c := c) hlt
      refine ⟨hcs, hnone hp, ?_⟩
      rw [show d = 9 - (m + 1) by omega]
      exact .fetch (by omega) hnext
    · obtain rfl : m = 8 := by omega
      obtain ⟨hcs, hnext⟩ := h.done (f := f) (c := c)
      refine ⟨hcs, hnone hp, ?_⟩
      rw [show d = 0 by omega]
      exact .offer hnext
  | offer h => omega

theorem Progress.offering (h : Progress q u k 0) : Offering q k u := by
  generalize he : 0 = e at h
  cases h with
  | select h => omega
  | command hn h => omega
  | fetch hm h => omega
  | offer h => exact h

theorem Progress.phase_ne_setup {d : ℕ} (h : Progress q u k d) :
    u.wires.bridge.phase ≠ .setup := by
  cases h with
  | select h => rw [h.phase]; decide
  | command hn h => rw [h.phase]; decide
  | fetch hm h =>
    rcases h.phase with ⟨-, ⟨hp, -⟩ | hp⟩ | ⟨-, hp⟩ <;> rw [hp] <;> decide
  | offer h => rw [h.phase]; decide

theorem Progress.le_len {d : ℕ} (h : Progress q u k d) : k ≤ q.len.toNat := by
  cases h with
  | select h => exact h.le_len
  | command hn h => exact h.le_len
  | fetch hm h => exact h.le_len
  | offer h => exact h.le_len

/-- A request begins beat `0`. -/
theorem Progress.start (hsetup : u.wires.bridge.phase = .setup) (hvalid : c.arwValid = true)
    (hread : c.arw.write = false) :
    Progress ⟨u.flash.bytes, c.address.addr.extractLsb' 0 24, c.arw.len⟩ (u.step f c) 0 50 := by
  have hpins : u.wires.pins c = .high := by simp [Wires.pins, hsetup]
  have hlevels : u.levels c = c := by simp [Link.levels, hpins, Pins.high]
  have hshifted : (u.step f c).flash.windows.shifted = [] := by
    rw [step_shifted hpins, Pins.seen_high, Windows.shifted_clock_none]
  have hregs : (u.step f c).wires.bridge.phase = .spiCmdRead ∧
      (u.step f c).wires.bridge.lenBurst = c.arw.len ∧
      (u.step f c).wires.bridge.arw = c.arw := by
    simp [Link.step, Wires.next, State.next, State.sm, State.setup, hsetup, hlevels, hvalid, hread]
  have hsender : (u.step f c).wires.bridge.spiCmd =
      { u.wires.bridge.spiCmd with phase := .idle, ready := false } := by
    simp [Link.step, Wires.next, State.next, SendCMD.next, State.spiCmdValid, hsetup]
  refine .select ⟨⟨Nat.zero_le _, ?_, ?_, rfl⟩, hregs.1, ?_, ?_, ?_, hshifted⟩
  · rw [hregs.2.1]
    rfl
  · rw [hregs.2.2, hread]
  · simp [Link.step, Wires.next, Wires.addr24, hsetup, hlevels]
  · rw [hsender]
  · rw [hsender]

end Steps

/-! ## Section 6: The whole burst -/

section Run

variable {f : AddressStep}
variable {q : Request} {u : Link} {c : ℕ → Cycle} {k d t : ℕ}

theorem Request.take_beats_succ (hk : k ≤ q.len.toNat) :
    q.beats.take (k + 1) = q.beats.take k ++ [q.beat k] := by
  have hlt : k < q.beats.length := by
    simp only [Request.beats, List.length_map, List.length_range]
    omega
  rw [List.take_succ_eq_append_getElem hlt]
  simp [Request.beats]

/-- At clock edge `t` beat `k` is under way, and the beats before it were returned. -/
structure AtBeat (f : AddressStep) (q : Request) (u : Link) (c : ℕ → Cycle) (k d t : ℕ) :
    Prop where
  busy : Busy f u c t
  progress : Progress q (trace (Link.step f) u c t) k d
  returned : observed (Link.step f) Link.rBeat u c t = q.beats.take k

theorem Busy.succ (h : Busy f u c t)
    (hnext : (trace (Link.step f) u c (t + 1)).wires.bridge.phase ≠ .setup) :
    Busy f u c (t + 1) := by
  intro m hm hmt
  rcases Nat.lt_or_ge m (t + 1) with hlt | hge
  · exact h m hm (Nat.lt_succ_iff.mp hlt)
  · rw [le_antisymm hmt hge]
    exact hnext

theorem Busy.of_succ (h : Busy f u c (t + 1)) : Busy f u c t :=
  fun m hm hmt => h m hm (Nat.le_succ_of_le hmt)

/-- A cycle before the offer. -/
theorem AtBeat.closer (h : AtBeat f q u c k (d + 1) t) : AtBeat f q u c k d (t + 1) := by
  obtain ⟨-, hnone, hnext⟩ := h.progress.step (f := f) (c := c t)
  refine ⟨h.busy.succ hnext.phase_ne_setup, hnext, ?_⟩
  rw [observed_succ_none hnone, h.returned]

/-- A cycle of the offer. -/
theorem AtBeat.offered (h : AtBeat f q u c k 0 t) :
    (c t).rReady = false ∧ AtBeat f q u c k 0 (t + 1) ∨
      (c t).rReady = true ∧
        ((trace (Link.step f) u c (t + 1)).wires.bridge.phase = .setup ∧
            observed (Link.step f) Link.rBeat u c (t + 1) = q.beats ∨
          k < q.len.toNat ∧ AtBeat f q u c (k + 1) 9 (t + 1)) := by
  rcases (h.progress.offering.step (f := f) (c := c t)).2 with
    ⟨hstall, hnone, hnext⟩ | ⟨hready, hbeat, hnext⟩
  · have hprogress : Progress q (trace (Link.step f) u c (t + 1)) k 0 := .offer hnext
    refine Or.inl ⟨hstall, h.busy.succ hprogress.phase_ne_setup, hprogress, ?_⟩
    rw [observed_succ_none hnone, h.returned]
  · have hreturned : observed (Link.step f) Link.rBeat u c (t + 1) = q.beats.take (k + 1) := by
      rw [observed_succ_some hbeat, h.returned, Request.take_beats_succ h.progress.le_len]
    refine Or.inr ⟨hready, ?_⟩
    rcases hnext with ⟨hk, hsetup⟩ | ⟨hk, hfetch⟩
    · refine Or.inl ⟨hsetup, ?_⟩
      rw [hreturned, hk]
      exact List.take_of_length_le (by simp [Request.beats])
    · have hprogress : Progress q (trace (Link.step f) u c (t + 1)) (k + 1) (9 - 0) :=
        .fetch (Nat.zero_le 8) hfetch
      exact Or.inr ⟨hk, h.busy.succ hprogress.phase_ne_setup, hprogress, hreturned⟩

/-- **Run lemma.**  Every busy cycle belongs to some beat. -/
theorem AtBeat.of_busy (hstart : AtBeat f q u c 0 50 1) (t : ℕ)
    (hbusy : Busy f u c (t + 1)) : ∃ k d, AtBeat f q u c k d (t + 1) := by
  induction t with
  | zero => exact ⟨0, 50, hstart⟩
  | succ t ih =>
    -- one cycle further, in the same beat or in the next
    obtain ⟨k, d, h⟩ := ih hbusy.of_succ
    cases d with
    | succ d => exact ⟨k, d, h.closer⟩
    | zero =>
      rcases h.offered with ⟨-, hnext⟩ | ⟨-, ⟨hsetup, -⟩ | ⟨-, hnext⟩⟩
      · exact ⟨k, 0, hnext⟩
      · exact absurd hsetup (hbusy (t + 2) (by omega) le_rfl)
      · exact ⟨k + 1, 9, hnext⟩

/-- The beat is offered after `d` cycles. -/
theorem AtBeat.exists_offer (h : AtBeat f q u c k d t) : AtBeat f q u c k 0 (t + d) := by
  induction d generalizing t with
  | zero => exact h
  | succ d ih =>
    rw [show t + (d + 1) = t + 1 + d by omega]
    exact ih h.closer

/-- The offer stays until the master takes it, `n` cycles later at the latest. -/
theorem AtBeat.exists_ready (h : AtBeat f q u c k 0 t) (n : ℕ)
    (hready : (c (t + n)).rReady = true) :
    ∃ m, AtBeat f q u c k 0 m ∧ (c m).rReady = true := by
  induction n generalizing t with
  | zero => exact ⟨t, h, hready⟩
  | succ n ih =>
    rcases h.offered with ⟨-, hnext⟩ | ⟨hnow, -⟩
    · exact ih hnext (by rw [show t + 1 + n = t + (n + 1) by omega]; exact hready)
    · exact ⟨t, h, hnow⟩

/-- The current beat is taken, when the master does not stall forever. -/
theorem AtBeat.exists_taken (h : AtBeat f q u c k d t) (hfair : EventuallyReady c) :
    ∃ m, Busy f u c m ∧
      ((trace (Link.step f) u c (m + 1)).wires.bridge.phase = .setup ∧
          observed (Link.step f) Link.rBeat u c (m + 1) = q.beats ∨
        k < q.len.toNat ∧ AtBeat f q u c (k + 1) 9 (m + 1)) := by
  obtain ⟨m, hle, hready⟩ := hfair (t + d)
  obtain ⟨n, rfl⟩ := Nat.exists_eq_add_of_le hle
  obtain ⟨j, hj, hnow⟩ := h.exists_offer.exists_ready n hready
  rcases hj.offered with ⟨hstall, -⟩ | ⟨-, hnext⟩
  · rw [hstall] at hnow
    exact absurd hnow (by decide)
  · exact ⟨j, hj.busy, hnext⟩

/-- A burst whose master does not stall forever comes to its end; `n` beats are left after this
one. -/
theorem AtBeat.complete (h : AtBeat f q u c k d t) (hfair : EventuallyReady c) (n : ℕ)
    (hn : k + n = q.len.toNat) :
    ∃ m, Busy f u c m ∧ (trace (Link.step f) u c (m + 1)).wires.bridge.phase = .setup ∧
      observed (Link.step f) Link.rBeat u c (m + 1) = q.beats := by
  induction n generalizing k d t with
  | zero =>
    obtain ⟨m, hbusy, hend | ⟨hlt, -⟩⟩ := h.exists_taken hfair
    · exact ⟨m, hbusy, hend⟩
    · omega
  | succ n ih =>
    obtain ⟨m, hbusy, hend | ⟨-, hnext⟩⟩ := h.exists_taken hfair
    · exact ⟨m, hbusy, hend⟩
    · exact ih hnext (by omega)

end Run

/-- A read burst returns the words of the flash, whatever the bridge did before, however long the
master stalls, and whatever is written to the registers meanwhile. -/
theorem readsFlash (incr : AddressStep) (u : Link) (c : ℕ → Cycle)
    (hsetup : u.wires.bridge.phase = .setup) (hvalid : (c 0).arwValid = true)
    (hread : (c 0).arw.write = false) :
    ReadsFlash incr ⟨u.flash.bytes, (c 0).address.addr.extractLsb' 0 24, (c 0).arw.len⟩ u c := by
  have hprogress := Progress.start (f := incr) hsetup hvalid hread
  have hzero : Busy incr u c 0 := fun m hm hm0 => absurd hm (by omega)
  have hstart : AtBeat incr ⟨u.flash.bytes, (c 0).address.addr.extractLsb' 0 24, (c 0).arw.len⟩
      u c 0 50 1 := by
    refine ⟨hzero.succ hprogress.phase_ne_setup, hprogress, ?_⟩
    rw [observed_succ_none]
    · rfl
    · simp [Link.rBeat, Wires.rBeat, State.rValid, hsetup]
  refine ⟨fun t hbusy => ?_, fun t ht hbusy => ?_, fun t hbusy hsome => ?_, fun hfair => ?_⟩
  · cases t with
    | zero => exact List.nil_prefix
    | succ t =>
      obtain ⟨k, d, h⟩ := AtBeat.of_busy hstart t hbusy
      rw [h.returned]
      exact List.take_prefix k _
  · obtain ⟨t, rfl⟩ := Nat.exists_eq_succ_of_ne_zero ht.ne'
    obtain ⟨k, d, h⟩ := AtBeat.of_busy hstart t hbusy
    cases d with
    | zero => exact (h.progress.offering.step (f := incr)).1
    | succ d => exact (h.progress.step (f := incr)).1
  · cases t with
    | zero => simp [Link.rBeat, Wires.rBeat, State.rValid, hsetup] at hsome
    | succ t =>
      obtain ⟨k, d, h⟩ := AtBeat.of_busy hstart t hbusy
      cases d with
      | succ d =>
        rw [(h.progress.step (f := incr)).2.1] at hsome
        exact absurd hsome (by decide)
      | zero =>
        have hle := h.progress.le_len
        have hlen : (observed (Link.step incr) Link.rBeat u c (t + 1)).length = k := by
          rw [h.returned, List.length_take, Request.beats, List.length_map, List.length_range]
          exact Nat.min_eq_left (Nat.le_succ_of_le hle)
        rw [hlen]
        exact h.progress.offering.length
  · exact hstart.complete hfair _ (Nat.zero_add _)

/-- A bridge that has just finished something else, on a flash whose bytes count up. -/
def idleLink : Link where
  wires :=
    { bridge :=
        { phase := .setup
          lenBurst := 0
          arw := ⟨false, 0⟩
          qspiCtrlWord := 0
          spiSend := ⟨0, .idle, 0, false⟩
          qpiCmd := ⟨0, .idle, false⟩
          spiCmd := ⟨0, .idle, false⟩
          qpiRead := ⟨7, false⟩ }
      address := ⟨0, 1, 2⟩
      qspiEraseSector := 0
      data := 0 }
  flash := ⟨fun a => BitVec.ofNat 8 a, ⟨[], none⟩⟩

/-- A master that reads two words and stalls in two cycles of three. -/
def stalling (t : ℕ) : Cycle where
  arwValid := true
  arw := ⟨false, 1⟩
  wValid := false
  wLast := false
  bReady := false
  rReady := t % 3 = 0
  ctrlWrite := none
  io1 := true
  address := ⟨0xa0000010, 1, 2⟩
  wData := 0
  sectorWrite := none
  io0 := true
  io2 := true
  io3 := true

theorem readsFlash_stalling :
    ReadsFlash (fun a _ _ _ => a + 4) ⟨idleLink.flash.bytes, 0x10, 1⟩ idleLink stalling :=
  readsFlash (fun a _ _ _ => a + 4) idleLink stalling rfl rfl rfl

example : observed (Link.step fun a _ _ _ => a + 4) Link.rBeat idleLink stalling 66 =
    [(0x13121110#32, false), (0x17161514#32, true)] := by decide +kernel

end Karnix.Qspi.Reading
