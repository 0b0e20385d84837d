import Karnix.Memops.Memcpy
import Karnix.Memops.Memset
import Karnix.Memops.Memmove

/-!
# The primitives and the byte loops

In the upper half of the addresses the assembly functions do what the byte loops do.  The exception
is a destination that ends with the last address of all: its end is 0 as a word, and a loop over
bytes that compares with it stops after one byte.
-/

namespace Karnix.Memops

open Karnix.Library Karnix.Library.Rv32
open Reg

variable {L : Type} [DecidableEq L]

/-! ## Section 1: What is to hold -/

/-- The bytes of a range have addresses from `0x80000000` on, and do not wrap. -/
def Upper (a size : Word) : Prop :=
  ∀ i, i < size.toNat → 2 ^ 31 ≤ a.toNat + i ∧ a.toNat + i < 2 ^ 32

def Apart (dst src size : Word) : Prop :=
  dst.toNat + size.toNat ≤ src.toNat ∨ src.toNat + size.toNat ≤ dst.toNat

/-- A call with three arguments, and any other registers. -/
def Calls (reg : Reg → Word) (x y z : Word) : Prop := reg a0 = x ∧ reg a1 = y ∧ reg a2 = z

/-- A function returns, and has left the memory `mem`. -/
def Returns (p : Code L) (m : Machine) (mem : Memory Byte) (ok : Access → Prop) : Prop :=
  ∃ m', Halts p m m' ∧ Done m mem ok m'

def MemcpyMeets (dst src size : Word) : Prop :=
  ∀ reg mem, Calls reg dst src size → Returns memcpy (enter reg mem)
    (copyUp mem dst.toNat src.toNat size.toNat) (Fits dst.toNat src.toNat size.toNat)

def MemmoveMeets (dst src size : Word) : Prop :=
  ∀ reg mem, Calls reg dst src size → Returns memmove (enter reg mem)
    (copyEither mem dst.toNat src.toNat size.toNat) (Fits dst.toNat src.toNat size.toNat)

def MemsetMeets (dst ch size : Word) : Prop :=
  ∀ reg mem, Calls reg dst ch size → Returns memset (enter reg mem)
    (setUp mem dst.toNat (ch.setWidth 8) size.toNat) (OnlyStores dst.toNat size.toNat)

/-- The end of the destination is 0 as a word, and a loop over bytes would have to reach it. -/
def EndWraps (dst size : Word) : Prop := dst.toNat + size.toNat = 2 ^ 32 ∧ 2 ≤ size.toNat

/-! ## Section 2: The three functions -/

theorem returns_of_reaches {p : Code L} {m : Machine} {mem : Memory Byte} {ok : Access → Prop}
    (h : Reaches p p m (Done m mem ok)) : Returns p m mem ok := by
  obtain ⟨fuel, m', hrun, hdone⟩ := h
  exact ⟨m', ⟨fuel, hrun⟩, hdone⟩

/-- Two memories that a function leaves are the same. -/
theorem Returns.unique {p : Code L} {m : Machine} {mem mem' : Memory Byte} {ok : Access → Prop}
    (h : Returns p m mem ok) (h' : Returns p m mem' ok) : mem = mem' := by
  obtain ⟨m₁, hhalt, hdone⟩ := h
  obtain ⟨m₂, hhalt', hdone'⟩ := h'
  rw [← hdone.mem, ← hdone'.mem, hhalt.unique hhalt']

theorem Upper.fits {a size : Word} (h : Upper a size) : a.toNat + size.toNat ≤ 2 ^ 32 := by
  rcases Nat.eq_zero_or_pos size.toNat with hzero | hpos
  · rw [hzero]
    exact a.isLt.le
  · have := (h (size.toNat - 1) (by omega)).2
    omega

theorem Upper.high {a size : Word} (h : Upper a size) (h8 : 8 ≤ size.toNat) : 2 ^ 31 ≤ a.toNat :=
  (h 0 (by omega)).1

theorem entry_of_calls {reg : Reg → Word} {dst src size : Word} (h : Calls reg dst src size)
    (mem : Memory Byte) : Entry mem dst.toNat src.toNat size.toNat (enter reg mem) :=
  ⟨rfl, h.1.trans (word_toNat dst).symm, h.2.1.trans (word_toNat src).symm,
    h.2.2.trans (word_toNat size).symm, rfl⟩

/-- Registers for a call. -/
def callRegs (x y z : Word) : Reg → Word
  | .a0 => x
  | .a1 => y
  | .a2 => z
  | _ => 0

theorem calls_callRegs (x y z : Word) : Calls (callRegs x y z) x y z := ⟨rfl, rfl, rfl⟩

theorem memmove_meets {dst src size : Word} (hdst : Upper dst size) (hsrc : Upper src size) :
    MemmoveMeets dst src size := by
  intro reg mem hcalls
  rw [copyEither_eq]
  exact returns_of_reaches (memmove_reaches ⟨size.isLt, hdst.fits, hsrc.fits⟩ dst.isLt src.isLt
    (entry_of_calls hcalls mem))

/-- The loop stops after one byte. -/
theorem stopAt_wraps {dst n : ℕ} (h : dst + n = 2 ^ 32) (h2 : 2 ≤ n) : stopAt dst n 0 = 1 :=
  if_pos ⟨h, by omega⟩

theorem stopAt_whole {dst n : ℕ} (h : ¬ (dst + n = 2 ^ 32 ∧ 2 ≤ n)) : stopAt dst n 0 = n := by
  rw [stopAt]
  split_ifs with hw
  · omega
  · rfl

theorem memcpy_meets_iff {dst src size : Word} (hdst : Upper dst size) (hsrc : Upper src size)
    (hapart : Apart dst src size) :
    MemcpyMeets dst src size ↔
      ¬ (EndWraps dst size ∧ (size.toNat < 8 ∨ dst.toNat % 4 ≠ src.toNat % 4)) := by
  have hreturns : ∀ reg mem, Calls reg dst src size → Returns memcpy (enter reg mem)
      (mem.store dst.toNat
        (mem.load src.toNat (memcpyStop dst.toNat src.toNat size.toNat)))
      (Fits dst.toNat src.toNat size.toNat) := fun reg mem hcalls =>
    returns_of_reaches (memcpy_reaches ⟨size.isLt, hdst.fits, hsrc.fits⟩ hapart hdst.high
      (entry_of_calls hcalls mem))
  have hcopy : ∀ mem, copyUp mem dst.toNat src.toNat size.toNat =
      mem.store dst.toNat (mem.load src.toNat size.toNat) := by
    intro mem
    apply copyUp_eq
    rcases hapart with ha | ha
    · exact .inl (by omega)
    · exact .inr ha
  constructor
  · rintro hmeets ⟨⟨hend, h2⟩, hbytes⟩
    have hstop : memcpyStop dst.toNat src.toNat size.toNat = 1 := by
      rw [memcpyStop, if_neg (by omega), stopAt_wraps hend h2]
    -- a second byte that is not there yet
    let mem : Memory Byte := fun a => if a = src.toNat + 1 then 1 else 0
    have hcalls := calls_callRegs dst src size
    have hsame := (hreturns _ mem hcalls).unique (hmeets _ mem hcalls)
    rw [hstop, hcopy] at hsame
    have hcell := congrFun hsame (dst.toNat + 1)
    rw [Memory.store_of_ge _ _ (by rw [Memory.length_load]),
      Memory.store_getElem _ _ 1 _ (by rw [Memory.length_load]; omega),
      Memory.getElem_load] at hcell
    have hne : ¬ dst.toNat + 1 = src.toNat + 1 := by
      rcases hapart with ha | ha <;> omega
    simp only [mem, if_neg hne, if_true] at hcell
    exact absurd hcell (by decide)
  · intro hbytes reg mem hcalls
    have hstop : memcpyStop dst.toNat src.toNat size.toNat = size.toNat := by
      rw [memcpyStop]
      split_ifs with hwords
      · rfl
      · exact stopAt_whole fun hw => hbytes ⟨hw, by omega⟩
    have := hreturns reg mem hcalls
    rwa [hstop, ← hcopy] at this

theorem memset_meets_iff {dst ch size : Word} (hdst : Upper dst size) :
    MemsetMeets dst ch size ↔ ¬ (EndWraps dst size ∧ size.toNat < 8) := by
  have hreturns : ∀ reg mem, Calls reg dst ch size → Returns memset (enter reg mem)
      (mem.store dst.toNat (List.replicate (memsetStop dst.toNat size.toNat) (ch.setWidth 8)))
      (OnlyStores dst.toNat size.toNat) := fun reg mem hcalls =>
    returns_of_reaches (memset_reaches hdst.fits size.isLt hdst.high rfl
      (hcalls.1.trans (word_toNat dst).symm) (congrArg _ hcalls.2.1)
      (hcalls.2.2.trans (word_toNat size).symm) rfl)
  constructor
  · rintro hmeets ⟨⟨hend, h2⟩, h8⟩
    have hstop : memsetStop dst.toNat size.toNat = 1 := by
      rw [memsetStop, if_neg (by omega), stopAt_wraps hend h2]
    -- a second byte that is not set yet
    let mem : Memory Byte := fun _ => ~~~ ch.setWidth 8
    have hcalls := calls_callRegs dst ch size
    have hsame := (hreturns _ mem hcalls).unique (hmeets _ mem hcalls)
    rw [hstop, setUp_eq] at hsame
    have hcell := congrFun hsame (dst.toNat + 1)
    rw [Memory.store_of_ge _ _ (by rw [List.length_replicate]),
      Memory.store_getElem _ _ 1 _ (by rw [List.length_replicate]; omega),
      List.getElem_replicate] at hcell
    have hbit := congrArg (fun b => b.getLsbD 0) hcell
    simp [mem] at hbit
  · intro hbytes reg mem hcalls
    have hstop : memsetStop dst.toNat size.toNat = size.toNat := by
      rw [memsetStop]
      split_ifs with hwords
      · rfl
      · exact stopAt_whole fun hw => hbytes ⟨hw, by omega⟩
    have := hreturns reg mem hcalls
    rwa [hstop, ← setUp_eq] at this

/-! ## Section 3: All of them -/

/-- **The primitives are the byte loops**, but for bytes in front of the end of the addresses: there
`memcpy` and `memset` fail exactly where they go byte by byte. -/
theorem primitives_iff (dst src ch size : Word) (hdst : Upper dst size) (hsrc : Upper src size) :
    (Apart dst src size → (MemcpyMeets dst src size ↔
      ¬ (EndWraps dst size ∧ (size.toNat < 8 ∨ dst.toNat % 4 ≠ src.toNat % 4)))) ∧
    MemmoveMeets dst src size ∧
    (MemsetMeets dst ch size ↔ ¬ (EndWraps dst size ∧ size.toNat < 8)) :=
  ⟨memcpy_meets_iff hdst hsrc, memmove_meets hdst hsrc, memset_meets_iff hdst⟩

/-- Twenty-one bytes between two buffers with the same alignment. -/
theorem primitives_twentyOne :
    MemcpyMeets 0x80000003 0x80001003 21 ∧ MemmoveMeets 0x80000003 0x80001003 21 ∧
      MemsetMeets 0x80000003 0x141 21 := by
  have h := primitives_iff 0x80000003 0x80001003 0x141 21 (by unfold Upper; decide)
    (by unfold Upper; decide)
  have hend : ¬ EndWraps 0x80000003 21 := by
    unfold EndWraps
    decide
  exact ⟨(h.1 (.inl (by decide))).mpr fun hw => hend hw.1, h.2.1, h.2.2.mpr fun hw => hend hw.1⟩

/-- The last two bytes of all: only the first of them is written. -/
theorem not_primitives_top :
    Upper 0xfffffffe 2 ∧ Upper 0x80000000 2 ∧ Apart 0xfffffffe 0x80000000 2 ∧
      ¬ MemcpyMeets 0xfffffffe 0x80000000 2 ∧ ¬ MemsetMeets 0xfffffffe 0x41 2 := by
  have hdst : Upper 0xfffffffe 2 := by
    unfold Upper
    decide
  have hsrc : Upper 0x80000000 2 := by
    unfold Upper
    decide
  have hapart : Apart 0xfffffffe 0x80000000 2 := by
    unfold Apart
    decide
  have hend : EndWraps 0xfffffffe 2 := by
    unfold EndWraps
    decide
  refine ⟨hdst, hsrc, hapart, ?_, ?_⟩
  · rw [memcpy_meets_iff hdst hsrc hapart, not_not]
    exact ⟨hend, .inl (by decide)⟩
  · rw [memset_meets_iff hdst, not_not]
    exact ⟨hend, by decide⟩

end Karnix.Memops
