import Karnix.Library.Runs
import Mathlib.Data.BitVec

/-!
# The heap

`init_sbrk` and `_sbrk` of `utils.c`, which give `malloc` its memory.  Addresses are 32-bit
words.  `init_sbrk` is handed the size of the heap in bytes and adds it to a pointer to words,
so that the limit lies four times as far away; and `_sbrk` compares a sum that may wrap with the
limit, but not with the start of the heap.
-/

namespace Karnix.Heap

open Karnix.Library

/-! ## Section 1: `init_sbrk` and `_sbrk` -/

/-- `_ram_heap_start` and `_ram_heap_end`, set by the linker. -/
structure Linker where
  ramHeapStart : BitVec 32
  ramHeapEnd : BitVec 32

/-- `sbrk_heap_end`, `heap_start` and `heap_end`. -/
structure State where
  sbrkHeapEnd : BitVec 32
  heapStart : BitVec 32
  heapEnd : BitVec 32
  deriving DecidableEq

variable (ram : Linker)

/-- The heap between the symbols of the linker. -/
def Linker.heap : State := ⟨ram.ramHeapStart, ram.ramHeapStart, ram.ramHeapEnd⟩

/-- `init_sbrk`.  The size is added to a pointer to `unsigned int`. -/
def initSbrk (heap size : BitVec 32) : State :=
  if heap = 0 then ram.heap else ⟨heap, heap, heap + 4 * size⟩

/-- The heap that `_sbrk` works on: that of the linker, if none was set up. -/
def State.ready (s : State) : State := if s.sbrkHeapEnd = 0 then ram.heap else s

/-- The test of `_sbrk`: the sum, in 32 bits, has reached the limit. -/
def State.Refuses (s : State) (incr : BitVec 32) : Prop := s.heapEnd ≤ s.sbrkHeapEnd + incr

instance (s : State) (incr : BitVec 32) : Decidable (s.Refuses incr) :=
  inferInstanceAs (Decidable (_ ≤ _))

/-- `_sbrk`: the old end of the heap, or nothing where it returns -1. -/
def sbrk (s : State) (incr : BitVec 32) : Option (BitVec 32) × State :=
  let s := s.ready ram
  if s.Refuses incr then (none, s)
  else (some s.sbrkHeapEnd, { s with sbrkHeapEnd := s.sbrkHeapEnd + incr })

/-- The state after a call. -/
def step (s : State) (incr : BitVec 32) : State := (sbrk ram s incr).2

/-! ## Section 2: What the heap promises -/

/-- A range of addresses. -/
structure Range where
  lo : ℕ
  hi : ℕ

/-- The memory that `init_sbrk` is given. -/
def given (heap size : BitVec 32) : Range :=
  if heap = 0 then ⟨ram.ramHeapStart.toNat, ram.ramHeapEnd.toNat⟩
  else ⟨heap.toNat, heap.toNat + size.toNat⟩

/-- The break lies in the range. -/
def Range.Holds (r : Range) (s : State) : Prop :=
  r.lo ≤ s.sbrkHeapEnd.toNat ∧ s.sbrkHeapEnd.toNat ≤ r.hi

/-- A call that fails changes nothing; one that grows the heap returns a block in the range; and
the break stays in the range. -/
def CallOk (r : Range) (s : State) (incr : BitVec 32) : Prop :=
  match sbrk ram s incr with
  | (none, s') => s' = s
  | (some p, s') =>
    (0 ≤ incr.toInt → r.lo ≤ p.toNat ∧ p.toNat + incr.toNat ≤ r.hi) ∧ r.Holds s'

/-- The blocks that calls return: address and size. -/
def blocks : State → List (BitVec 32) → List (ℕ × ℕ)
  | _, [] => []
  | s, incr :: incrs =>
    match sbrk ram s incr with
    | (none, s') => blocks s' incrs
    | (some p, s') => (p.toNat, incr.toNat) :: blocks s' incrs

/-- The blocks have no byte in common. -/
def Apart (a b : ℕ × ℕ) : Prop := a.1 + a.2 ≤ b.1 ∨ b.1 + b.2 ≤ a.1

/-- In a run of calls each is as it should be, and growing calls in succession return blocks
apart from each other. -/
def Confined (r : Range) (s : State) (incrs : List (BitVec 32)) : Prop :=
  RunMeets (step ram) (CallOk ram r) s incrs ∧
    ∀ before growing after, incrs = before ++ growing ++ after →
      (∀ incr ∈ growing, 0 ≤ incr.toInt) →
        (blocks ram (run (step ram) s before) growing).Pairwise Apart

/-- Where the limit of `_sbrk` lies: four times the size behind the start of the heap. -/
def limit (heap size : BitVec 32) : ℕ :=
  if heap = 0 then ram.ramHeapEnd.toNat else (heap.toNat + 4 * size.toNat) % 0x100000000

/-- From `b` on the break is to move by `incr`: to an address that lies before the limit, and yet
behind the end of the range or before its start; or beyond `2 ^ 32`, where it wraps. -/
def Range.Misses (r : Range) (limit : ℕ) (b incr : ℤ) : Prop :=
  (b + incr) % 0x100000000 < limit ∧
    ((b + incr) % 0x100000000 < r.lo ∨ r.hi < (b + incr) % 0x100000000 ∨
      0 ≤ incr ∧ 0x100000000 ≤ b + incr)

instance (r : Range) (limit : ℕ) (b incr : ℤ) : Decidable (r.Misses limit b incr) :=
  inferInstanceAs (Decidable (_ ∧ _))

/-- No increment moves the break out of the range; it moves with those that stay before the
limit. -/
def NoneMisses (r : Range) (limit : ℕ) : ℤ → List (BitVec 32) → Prop
  | _, [] => True
  | b, incr :: incrs =>
    ¬ r.Misses limit b incr.toInt ∧
      NoneMisses r limit
        (if (b + incr.toInt) % 0x100000000 < limit then (b + incr.toInt) % 0x100000000 else b) incrs

/-! ## Section 3: One call -/

variable {ram} {r : Range} {s : State} {incr : BitVec 32}

theorem sbrk_of_refuses (ram : Linker) (h0 : s.sbrkHeapEnd ≠ 0) (h : s.Refuses incr) :
    sbrk ram s incr = (none, s) := by
  rw [sbrk, State.ready, if_neg h0]
  exact if_pos h

theorem sbrk_of_not_refuses (ram : Linker) (h0 : s.sbrkHeapEnd ≠ 0) (h : ¬ s.Refuses incr) :
    sbrk ram s incr =
      (some s.sbrkHeapEnd, { s with sbrkHeapEnd := s.sbrkHeapEnd + incr }) := by
  rw [sbrk, State.ready, if_neg h0]
  exact if_neg h

theorem Range.Holds.ne_zero (hlo : 0 < r.lo) (h : r.Holds s) : s.sbrkHeapEnd ≠ 0 := by
  intro h0
  have hlow := h.1
  rw [h0] at hlow
  exact absurd (Nat.lt_of_lt_of_le hlo hlow) (Nat.lt_irrefl 0)

/-- The sum of the source is that of the signed numbers, modulo `2 ^ 32`. -/
theorem toNat_add_eq (b incr : BitVec 32) :
    ((b + incr).toNat : ℤ) = (b.toNat + incr.toInt) % 0x100000000 := by
  have hadd := BitVec.toNat_add b incr
  have hint := BitVec.toInt_eq_toNat_cond incr
  split at hint <;> omega

theorem toInt_of_nonneg (h : 0 ≤ incr.toInt) : incr.toInt = incr.toNat := by
  have hint := BitVec.toInt_eq_toNat_cond incr
  have hincr := incr.isLt
  split at hint <;> omega

/-- The test of `_sbrk` on numbers. -/
theorem refuses_iff : s.Refuses incr ↔
    ¬ (s.sbrkHeapEnd.toNat + incr.toInt) % 0x100000000 < s.heapEnd.toNat := by
  rw [← toNat_add_eq, State.Refuses, BitVec.le_def]
  omega

/-- **Step lemma.**  While the break is in the range, a call is as it should be exactly if it does
not move the break out of it. -/
theorem callOk_iff (hlo : 0 < r.lo) (hhi : r.hi < r.lo + 0x100000000) (hs : r.Holds s) :
    CallOk ram r s incr ↔ ¬ r.Misses s.heapEnd.toNat s.sbrkHeapEnd.toNat incr.toInt := by
  have h0 := hs.ne_zero hlo
  by_cases href : s.Refuses incr
  · rw [CallOk, sbrk_of_refuses ram h0 href]
    exact iff_of_true rfl fun h => refuses_iff.1 href h.1
  · have hbelow := not_not.1 (mt refuses_iff.2 href)
    rw [CallOk, sbrk_of_not_refuses ram h0 href, Range.Misses, and_iff_right hbelow]
    have hadd := toNat_add_eq s.sbrkHeapEnd incr
    obtain ⟨hlow, hhigh⟩ := hs
    constructor
    · rintro ⟨hblock, hlow', hhigh'⟩ hmiss
      simp only at hlow' hhigh'
      -- a growing sum that wraps would have to pass the whole range
      rcases hmiss with hmiss | hmiss | ⟨hpos, hwrap⟩
      · omega
      · omega
      · have hend := (hblock hpos).2
        have hnat := toInt_of_nonneg hpos
        omega
    · intro hmiss
      refine ⟨fun hpos => ⟨hlow, ?_⟩, ?_, ?_⟩
      · have hnat := toInt_of_nonneg hpos
        omega
      · simp only
        omega
      · simp only
        omega

/-- The break stays in the range. -/
theorem holds_step (hlo : 0 < r.lo) (hs : r.Holds s) (h : CallOk ram r s incr) :
    r.Holds (step ram s incr) := by
  have h0 := hs.ne_zero hlo
  by_cases href : s.Refuses incr
  · rw [step, sbrk_of_refuses ram h0 href]
    exact hs
  · rw [CallOk, sbrk_of_not_refuses ram h0 href] at h
    rw [step, sbrk_of_not_refuses ram h0 href]
    exact h.2

/-! ## Section 4: Runs of calls -/

/-- Blocks of growing calls lie behind the break they start from, one behind the other. -/
theorem blocks_sorted (hlo : 0 < r.lo) (hhi : r.hi < r.lo + 0x100000000)
    {growing : List (BitVec 32)} (hs : r.Holds s)
    (hrun : RunMeets (step ram) (CallOk ram r) s growing)
    (hpos : ∀ incr ∈ growing, 0 ≤ incr.toInt) :
    (∀ b ∈ blocks ram s growing, s.sbrkHeapEnd.toNat ≤ b.1) ∧
      (blocks ram s growing).Pairwise Apart := by
  -- on the calls; the next ones start from the end of the block of the first
  induction growing generalizing s with
  | nil => exact ⟨fun b hb => absurd hb List.not_mem_nil, List.Pairwise.nil⟩
  | cons incr incrs ih =>
    have h0 := hs.ne_zero hlo
    have hnext := ih (holds_step hlo hs hrun.1) hrun.2
      fun i hi => hpos i (List.mem_cons_of_mem incr hi)
    by_cases href : s.Refuses incr
    · have hsbrk := sbrk_of_refuses ram h0 href
      rw [step, hsbrk] at hnext
      rw [blocks, hsbrk]
      exact hnext
    · have hsbrk := sbrk_of_not_refuses ram h0 href
      have hcall := hrun.1
      rw [CallOk, hsbrk] at hcall
      obtain ⟨hblock, hlow, -⟩ := hcall
      rw [step, hsbrk] at hnext
      rw [blocks, hsbrk]
      have hend := (hblock (hpos incr (List.mem_cons_self ..))).2
      have hadd := BitVec.toNat_add s.sbrkHeapEnd incr
      simp only at hlow
      have hge : s.sbrkHeapEnd.toNat + incr.toNat = (s.sbrkHeapEnd + incr).toNat := by omega
      refine ⟨fun b hb => ?_, List.Pairwise.cons (fun b hb => ?_) hnext.2⟩
      · rcases List.mem_cons.1 hb with rfl | hb
        · exact Nat.le_refl _
        · exact Nat.le_trans (hge ▸ Nat.le_add_right _ _) (hnext.1 b hb)
      · exact Or.inl (hge ▸ hnext.1 b hb)

/-- A run of calls that are as they should be, on the numbers. -/
theorem callsOk_iff (hlo : 0 < r.lo) (hhi : r.hi < r.lo + 0x100000000) (hs : r.Holds s)
    (incrs : List (BitVec 32)) : RunMeets (step ram) (CallOk ram r) s incrs ↔
      NoneMisses r s.heapEnd.toNat s.sbrkHeapEnd.toNat incrs := by
  induction incrs generalizing s with
  | nil => exact Iff.rfl
  | cons incr incrs ih =>
    have h0 := hs.ne_zero hlo
    rw [RunMeets, NoneMisses, ← callOk_iff hlo hhi hs]
    refine and_congr_right fun hcall => ?_
    rw [ih (holds_step hlo hs hcall)]
    by_cases href : s.Refuses incr
    · rw [step, sbrk_of_refuses ram h0 href, if_neg (refuses_iff.1 href)]
    · have hbelow := not_not.1 (mt refuses_iff.2 href)
      have hadd := toNat_add_eq s.sbrkHeapEnd incr
      rw [step, sbrk_of_not_refuses ram h0 href, if_pos hbelow, ← hadd]

/-- **Run lemma.**  From a break in the range, a run of calls is confined exactly if none moves the
break out of it. -/
theorem confined_iff_of_holds (hlo : 0 < r.lo) (hhi : r.hi < r.lo + 0x100000000) (hs : r.Holds s)
    (incrs : List (BitVec 32)) :
    Confined ram r s incrs ↔ NoneMisses r s.heapEnd.toNat s.sbrkHeapEnd.toNat incrs := by
  rw [← @callsOk_iff ram r s hlo hhi hs]
  refine ⟨And.left, fun hrun => ⟨hrun, ?_⟩⟩
  rintro before growing after rfl hpos
  have happend := RunMeets.append.1 (RunMeets.append.1 hrun).1
  have hmid := RunMeets.invariant r.Holds (fun s incr => holds_step hlo) happend.1 hs
  exact (blocks_sorted hlo hhi hmid happend.2 hpos).2

/-- **The heap is confined to the memory it is given.**  This is so exactly for the runs in which no
increment moves the break out of that memory and not up to the limit. -/
theorem confined_iff (ram : Linker) (hstart : 0 < ram.ramHeapStart.toNat)
    (hend : ram.ramHeapStart.toNat ≤ ram.ramHeapEnd.toNat) (heap size : BitVec 32)
    (incrs : List (BitVec 32)) :
    Confined ram (given ram heap size) (initSbrk ram heap size) incrs ↔
      NoneMisses (given ram heap size) (limit ram heap size) (given ram heap size).lo incrs := by
  have hlt := ram.ramHeapEnd.isLt
  have hsize := size.isLt
  by_cases h0 : heap = 0
  · rw [given, initSbrk, limit, if_pos h0, if_pos h0, if_pos h0]
    exact confined_iff_of_holds hstart (by simp only; omega) ⟨Nat.le_refl _, hend⟩ incrs
  · have hlimit : (heap + 4 * size).toNat = (heap.toNat + 4 * size.toNat) % 0x100000000 := by
      rw [BitVec.toNat_add, BitVec.toNat_mul, Nat.add_mod_mod]
      rfl
    have hpos : 0 < heap.toNat := Nat.pos_of_ne_zero fun h => h0 (BitVec.eq_of_toNat_eq h)
    rw [given, initSbrk, limit, if_neg h0, if_neg h0, if_neg h0, ← hlimit]
    exact confined_iff_of_holds hpos (by simp only; omega)
      ⟨Nat.le_refl _, Nat.le_add_right _ _⟩ incrs

/-- The SRAM of the board, and blocks of 1 KiB and 4 KiB in it. -/
theorem confined_sram :
    Confined ⟨0x80002000, 0x80008000⟩ (given ⟨0x80002000, 0x80008000⟩ 0x90000000 0x80000)
      (initSbrk ⟨0x80002000, 0x80008000⟩ 0x90000000 0x80000) [0x400, 0x1000, 0xfffffc00] :=
  (confined_iff ⟨0x80002000, 0x80008000⟩ (by decide) (by decide) 0x90000000 0x80000
    [0x400, 0x1000, 0xfffffc00]).2 ⟨by decide, by decide, by decide, trivial⟩

/-- A request for twice the SRAM is granted: the limit is four times as far as it should be. -/
theorem not_confined_sram :
    ¬ Confined ⟨0x80002000, 0x80008000⟩ (given ⟨0x80002000, 0x80008000⟩ 0x90000000 0x80000)
      (initSbrk ⟨0x80002000, 0x80008000⟩ 0x90000000 0x80000) [0x100000] := by
  rintro ⟨⟨hcall, -⟩, -⟩
  exact absurd (hcall.1 (by decide)).2 (by decide)

end Karnix.Heap
