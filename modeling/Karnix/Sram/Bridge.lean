import Mathlib.Data.BitVec
import Karnix.Library.Memory
import Karnix.Library.Runs

/-!
# AXI4 to SRAM bridge

`Axi4SharedToSram` of `Axi4SharedToSRAM.scala`, one clock cycle at a time, with the
asynchronous 16-bit SRAM behind it.  A 32-bit word is two half-words, the low one at the
even address.  The SRAM control lines are folded into their effect: a half-word read in the
cycle, or the enabled bytes of a half-word written at its end.

`Axi4.incr`, the address step of a burst, belongs to the bus library and is a parameter.
-/

namespace Karnix.Sram

open Karnix.Library

/-! ## Section 1: The SRAM -/

abbrev Half := BitVec 16

/-- The half-word `old` with the bytes enabled by `ble` and `bhe` replaced. -/
def mergeHalf (old : Half) (ble bhe : Bool) (dat : Half) : Half :=
  (if bhe then dat.extractLsb' 8 8 else old.extractLsb' 8 8) ++
    (if ble then dat.extractLsb' 0 8 else old.extractLsb' 0 8)

/-- One write cycle of the chip: the bytes that are strobed are stored. -/
def writeHalf (mem : Memory Half) (a : ℕ) (ble bhe : Bool) (dat : Half) : Memory Half :=
  fun k => if k = a then mergeHalf (mem a) ble bhe dat else mem k

/-- The word made of two half-words. -/
def wordAt (mem : Memory Half) (w : ℕ) : BitVec 32 := mem (2 * w + 1) ++ mem (2 * w)

/-! ## Section 2: The bridge -/

/-- `Axi4ToSRAMPhase`: a word is accessed in two halves. -/
inductive Phase where
  | setup | accessLow | accessHigh | response
  deriving DecidableEq, Repr

/-- The shared address channel. -/
structure Arw (n : ℕ) where
  addr : BitVec n
  len : BitVec 8
  size : BitVec 3
  burst : BitVec 2
  write : Bool

/-- The write data channel without its handshake. -/
structure WPayload where
  data : BitVec 32
  strb : BitVec 4
  last : Bool

/-- What the bus drives in a clock cycle. -/
structure Input (n : ℕ) where
  arwValid : Bool
  arw : Arw n
  wValid : Bool
  w : WPayload
  bReady : Bool
  rReady : Bool

/-- The registers of the bridge, and the SRAM. -/
structure State (n : ℕ) where
  phase : Phase
  lenBurst : BitVec 8
  arw : Arw n
  readData : BitVec 32
  mem : Memory Half

/-- The widths and the address step of the bus library: `incr addr burst len size`. -/
structure Config (n : ℕ) where
  addressSRAMWidth : ℕ
  incr : BitVec n → BitVec 2 → BitVec 8 → BitVec 3 → BitVec n

variable {n : ℕ}

/-- The number of the word an address selects: `addr[addressSRAMWidth : 2]`. -/
def Config.word (cfg : Config n) (addr : BitVec n) : ℕ :=
  addr.toNat / 4 % 2 ^ (cfg.addressSRAMWidth - 1)

/-- The address of the next beat. -/
def Config.next (cfg : Config n) (a : Arw n) (addr : BitVec n) : BitVec n :=
  cfg.incr addr a.burst a.len a.size

/-- `isEndBurst`: the word under way is the last one. -/
def State.isEndBurst (s : State n) : Bool := s.lenBurst = 0

/-- `io.axi.w.ready`: the word is taken while its high half is written. -/
def State.wReady (s : State n) (i : Input n) : Bool :=
  decide (s.phase = .accessHigh) && i.wValid && s.arw.write

/-- `io.axi.b.valid`: the response to a write is offered. -/
def State.bValid (s : State n) : Bool := decide (s.phase = .response) && s.arw.write

/-- `io.axi.r.valid`: a word that was read is offered. -/
def State.rValid (s : State n) : Bool := decide (s.phase = .response) && !s.arw.write

/-- `io.axi.r.last`: it is the last one of the burst. -/
def State.rLast (s : State n) : Bool := s.isEndBurst && !s.arw.write

/-- The low half of a word: written, or read into the low half of `readData`. -/
def State.accessLow (cfg : Config n) (s : State n) (i : Input n) : State n :=
  let a := 2 * cfg.word s.arw.addr
  if s.arw.write then
    { s with
      phase := .accessHigh
      mem := writeHalf s.mem a (i.w.strb.getLsbD 0) (i.w.strb.getLsbD 1)
        (i.w.data.extractLsb' 0 16) }
  else
    { s with phase := .accessHigh, readData := s.readData.extractLsb' 16 16 ++ s.mem a }

/-- The high half of a word, the step to the next address, and the way on. -/
def State.accessHigh (cfg : Config n) (s : State n) (i : Input n) : State n :=
  let a := 2 * cfg.word s.arw.addr + 1
  let s' :=
    if s.arw.write then
      { s with
        mem := writeHalf s.mem a (i.w.strb.getLsbD 2) (i.w.strb.getLsbD 3)
          (i.w.data.extractLsb' 16 16) }
    else { s with readData := s.mem a ++ s.readData.extractLsb' 0 16 }
  { s' with
    arw := if i.wValid || !s.arw.write then { s.arw with addr := cfg.next s.arw s.arw.addr }
      else s.arw
    phase := if i.w.last || s.arw.len = 0 then .response else .accessHigh }

def step (cfg : Config n) (s : State n) (i : Input n) : State n :=
  match s.phase with
  | .setup =>
    { s with
      arw := i.arw
      lenBurst := i.arw.len
      phase := if i.arwValid then .accessLow else .setup }
  | .accessLow => s.accessLow cfg i
  | .accessHigh => s.accessHigh cfg i
  | .response =>
    if s.arw.write then
      if i.bReady then { s with phase := .setup } else s
    else if i.rReady then
      if s.isEndBurst then { s with phase := .setup }
      else { s with lenBurst := s.lenBurst - 1, phase := .accessLow }
    else s

/-- The address of beat `k` of a burst. -/
def Config.beatAddr (cfg : Config n) (a : Arw n) (k : ℕ) : BitVec n := (cfg.next a)^[k] a.addr

/-- The word number of beat `k`. -/
def Config.beatWord (cfg : Config n) (a : Arw n) (k : ℕ) : ℕ :=
  (cfg.word a.addr + k) % 2 ^ (cfg.addressSRAMWidth - 1)

/-- What `Axi4.incr` does for an `INCR` burst of four-byte beats that keeps inside its 4 KB
page: each beat addresses the next word. -/
def Config.IncrWords (cfg : Config n) (a : Arw n) : Prop :=
  ∀ k, k ≤ a.len.toNat → cfg.word (cfg.beatAddr a k) = cfg.beatWord a k

/-- The bridge of the SoC over a bus library that steps the address by four bytes within its
4 KB page, as for an aligned `INCR` burst. -/
def pageConfig : Config 32 :=
  ⟨18, fun addr _ _ _ => addr.extractLsb' 12 20 ++ (addr.extractLsb' 0 12 + 4#12)⟩

/-! ## Section 3: Half-words -/

/-- A half-word is its two bytes. -/
theorem append_extract_bytes (x : Half) : x.extractLsb' 8 8 ++ x.extractLsb' 0 8 = x := by
  ext i hi
  simp only [BitVec.getElem_append, BitVec.getElem_extractLsb']
  split
  · rw [Nat.zero_add]
    exact BitVec.getLsbD_eq_getElem hi
  · rw [show 8 + (i - 8) = i by omega]
    exact BitVec.getLsbD_eq_getElem hi

theorem writeHalf_self (mem : Memory Half) (a : ℕ) (ble bhe : Bool) (dat : Half) :
    writeHalf mem a ble bhe dat a = mergeHalf (mem a) ble bhe dat := by
  simp [writeHalf]

theorem writeHalf_of_ne (mem : Memory Half) {a k : ℕ} (ble bhe : Bool) (dat : Half)
    (h : k ≠ a) : writeHalf mem a ble bhe dat k = mem k := by
  simp [writeHalf, h]

/-- A write without enabled bytes changes nothing. -/
theorem writeHalf_disabled (mem : Memory Half) (a : ℕ) (dat : Half) :
    writeHalf mem a false false dat = mem := by
  funext k
  by_cases h : k = a
  · subst h
    rw [writeHalf_self, mergeHalf, if_neg Bool.false_ne_true, if_neg Bool.false_ne_true]
    exact append_extract_bytes (mem k)
  · exact writeHalf_of_ne mem false false dat h

theorem beatAddr_succ (cfg : Config n) (a : Arw n) (k : ℕ) :
    cfg.beatAddr a (k + 1) = cfg.next a (cfg.beatAddr a k) :=
  Function.iterate_succ_apply' (cfg.next a) k a.addr

end Karnix.Sram
