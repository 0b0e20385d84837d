import Karnix.Library.Rv32

/-!
# The assembly memory primitives

`memcpy`, `memset` and `memmove` of `memops.S`, line by line, as the preprocessor leaves them for
`__riscv_xlen == 32` with neither `__riscv_abi_rve` nor `HAVE_RISCV_MEMMOVE_HALF_WORDS`.  The local
labels `0:`, `1:`, … are used several times over in the source; here each has a name of its own.
-/

namespace Karnix.Memops

open Karnix.Library Karnix.Library.Rv32
open Reg

def SZREG : Word := 4

/-! ## Section 1: memcpy -/

/-- `head0` and `tail0` are the labels `0`, `done` is the second label `1`. -/
inductive MemcpyLabel where
  | head0 | main | l1 | l2 | l3 | l4 | l5 | l6 | l7 | bops | tail0 | done
  deriving DecidableEq

def memcpy : Code MemcpyLabel := [
  -- save initial dst value
  .mv t2 a0,
  -- threshold for byte-by-byte copying
  .li a3 (2 * SZREG),
  .bltu a2 a3 .bops,
  -- the same alignment for load/store operations
  .andi a3 a0 (SZREG - 1),
  .andi a4 a1 (SZREG - 1),
  .bne a3 a4 .bops,
  .beqz a3 .main,
  -- handle head misalignments
  .addi a3 a3 (-SZREG),
  .add a2 a2 a3,
  .sub a3 a0 a3,
  .label .head0,
  .lb a5 0 a1,
  .sb a5 0 a0,
  .addi a1 a1 1,
  .addi a0 a0 1,
  .blt a0 a3 .head0,
  .label .main,
  .mv t0 s0,
  .mv t1 s1,
  .li a7 (16 * SZREG),
  .mv a3 a7,
  .bltu a2 a7 .l7,
  .label .l1,
  .lw a4 (8 * SZREG) a1,
  .lw a5 (9 * SZREG) a1,
  .lw s0 (10 * SZREG) a1,
  .lw s1 (11 * SZREG) a1,
  .sw a4 (8 * SZREG) a0,
  .sw a5 (9 * SZREG) a0,
  .sw s0 (10 * SZREG) a0,
  .sw s1 (11 * SZREG) a0,
  .lw a4 (12 * SZREG) a1,
  .lw a5 (13 * SZREG) a1,
  .lw s0 (14 * SZREG) a1,
  .lw s1 (15 * SZREG) a1,
  .sw a4 (12 * SZREG) a0,
  .sw a5 (13 * SZREG) a0,
  .sw s0 (14 * SZREG) a0,
  .sw s1 (15 * SZREG) a0,
  .label .l2,
  .lw a4 (4 * SZREG) a1,
  .lw a5 (5 * SZREG) a1,
  .lw s0 (6 * SZREG) a1,
  .lw s1 (7 * SZREG) a1,
  .sw a4 (4 * SZREG) a0,
  .sw a5 (5 * SZREG) a0,
  .sw s0 (6 * SZREG) a0,
  .sw s1 (7 * SZREG) a0,
  .label .l3,
  .lw a4 (2 * SZREG) a1,
  .lw a5 (3 * SZREG) a1,
  .sw a4 (2 * SZREG) a0,
  .sw a5 (3 * SZREG) a0,
  .label .l4,
  .lw s0 (1 * SZREG) a1,
  .sw s0 (1 * SZREG) a0,
  .label .l5,
  .lw s1 (0 * SZREG) a1,
  .sw s1 (0 * SZREG) a0,
  .add a0 a0 a3,
  .add a1 a1 a3,
  .sub a2 a2 a3,
  .label .l6,
  .bgeu a2 a7 .l1,
  .label .l7,
  .srli a3 a7 1,
  .bgeu a2 a3 .l2,
  .srli a3 a3 1,
  .bgeu a2 a3 .l3,
  .srli a3 a3 1,
  .bgeu a2 a3 .l4,
  .srli a3 a3 1,
  .bgeu a2 a3 .l5,
  -- restore s0, s1
  .mv s1 t1,
  .mv s0 t0,
  -- handle tail misalignment
  .label .bops,
  .beqz a2 .done,
  .add a2 a2 a0,
  .label .tail0,
  .lb a4 0 a1,
  .sb a4 0 a0,
  .addi a1 a1 1,
  .addi a0 a0 1,
  .bltu a0 a2 .tail0,
  -- return initial a0
  .label .done,
  .mv a0 t2,
  .ret]

/-! ## Section 2: memset -/

/-- `head0` is the label `0` of the head, `tail0` the one of the tail, and `word1` the first `1`. -/
inductive MemsetLabel where
  | head0 | main | word1 | l0 | l1 | l2 | l3 | l4 | l5 | l6 | l7 | bops | tail0 | l9
  deriving DecidableEq

def memset : Code MemsetLabel := [
  -- quit if sz is zero
  .beqz a2 .l9,
  -- will return a0 untouched, further a5 = dst
  .mv a5 a0,
  -- threshold for byte-by-byte operations
  .li a3 (2 * SZREG),
  .bltu a2 a3 .bops,
  -- is dst aligned to register size
  .andi a3 a5 (SZREG - 1),
  .beqz a3 .main,
  -- handle head misalignment
  .addi a3 a3 (-SZREG),
  .add a2 a2 a3,
  .sub a3 a5 a3,
  .label .head0,
  .sb a1 0 a5,
  .addi a5 a5 1,
  .blt a5 a3 .head0,
  .label .main,
  -- zero set byte
  .beqz a1 .word1,
  -- propagate set value to whole register
  .andi a1 a1 255,
  .slli a3 a1 8,
  .or a1 a1 a3,
  .slli a3 a1 16,
  .or a1 a1 a3,
  .label .word1,
  .li a4 (32 * SZREG),
  .mv a3 a4,
  .bltu a2 a4 .l7,
  .label .l0,
  .sw a1 (16 * SZREG) a5,
  .sw a1 (17 * SZREG) a5,
  .sw a1 (18 * SZREG) a5,
  .sw a1 (19 * SZREG) a5,
  .sw a1 (20 * SZREG) a5,
  .sw a1 (21 * SZREG) a5,
  .sw a1 (22 * SZREG) a5,
  .sw a1 (23 * SZREG) a5,
  .sw a1 (24 * SZREG) a5,
  .sw a1 (25 * SZREG) a5,
  .sw a1 (26 * SZREG) a5,
  .sw a1 (27 * SZREG) a5,
  .sw a1 (28 * SZREG) a5,
  .sw a1 (29 * SZREG) a5,
  .sw a1 (30 * SZREG) a5,
  .sw a1 (31 * SZREG) a5,
  .label .l1,
  .sw a1 (8 * SZREG) a5,
  .sw a1 (9 * SZREG) a5,
  .sw a1 (10 * SZREG) a5,
  .sw a1 (11 * SZREG) a5,
  .sw a1 (12 * SZREG) a5,
  .sw a1 (13 * SZREG) a5,
  .sw a1 (14 * SZREG) a5,
  .sw a1 (15 * SZREG) a5,
  .label .l2,
  .sw a1 (4 * SZREG) a5,
  .sw a1 (5 * SZREG) a5,
  .sw a1 (6 * SZREG) a5,
  .sw a1 (7 * SZREG) a5,
  .label .l3,
  .sw a1 (2 * SZREG) a5,
  .sw a1 (3 * SZREG) a5,
  .label .l4,
  .sw a1 (1 * SZREG) a5,
  .label .l5,
  .sw a1 (0 * SZREG) a5,
  .add a5 a5 a3,
  .sub a2 a2 a3,
  .label .l6,
  .bgeu a2 a4 .l0,
  .beqz a2 .l9,
  .label .l7,
  .srli a3 a4 1,
  .bgeu a2 a3 .l1,
  .srli a3 a3 1,
  .bgeu a2 a3 .l2,
  .srli a3 a3 1,
  .bgeu a2 a3 .l3,
  .srli a3 a3 1,
  .bgeu a2 a3 .l4,
  .srli a3 a3 1,
  .bgeu a2 a3 .l5,
  -- handle tail misalignment
  .label .bops,
  .add a2 a2 a5,
  .label .tail0,
  .sb a1 0 a5,
  .addi a5 a5 1,
  .bltu a5 a2 .tail0,
  .label .l9,
  .ret]

/-! ## Section 3: memmove -/

/-- The parts of `memmove` in the order of the source; those of the way down end in `R`. -/
inductive MemmoveLabel where
  | direction | head0 | aligned1 | width1 | word0 | bytes | bytes1 | byte0 | finish
  | reverse | head0R | aligned1R | width1R | word0R | bytesR | bytes1R | byte0R
  deriving DecidableEq

def memmove : Code MemmoveLabel := [
  -- save a0, s1
  .mv t2 a0,
  .mv t1 s1,
  -- threshold for byte operations
  .li a5 (2 * SZREG),
  -- find out mutual buffer alignment
  .andi a3 a0 3,
  .andi a4 a1 3,
  .li s1 4,
  .beq a3 a4 .direction,
  .li s1 0,
  -- copy from the end if dst > src
  .label .direction,
  .bltu a1 a0 .reverse,
  -- byte copy if sz is less than threshold
  .bltu a2 a5 .bytes,
  -- byte copy if src and dst are mutual unaligned
  .beqz s1 .bytes,
  .beqz a4 .aligned1,
  -- handle head misalignment by byte copying
  .sub a4 s1 a4,
  .sub a2 a2 a4,
  .add a4 a4 a0,
  .label .head0,
  .lb a3 0 a1,
  .sb a3 0 a0,
  .addi a1 a1 1,
  .addi a0 a0 1,
  .bltu a0 a4 .head0,
  -- calculate last address and tail misaligned bytes number
  .label .aligned1,
  .addi a4 s1 (-1),
  .xori a4 a4 (-1),
  .and a4 a2 a4,
  .sub a2 a2 a4,
  .add a4 a4 a0,
  .label .width1,
  .li a5 4,
  .bne s1 a5 .bytes1,
  .label .word0,
  .lw a3 0 a1,
  .sw a3 0 a0,
  .add a1 a1 s1,
  .add a0 a0 s1,
  .bltu a0 a4 .word0,
  -- byte copy
  .label .bytes,
  .label .bytes1,
  .beqz a2 .finish,
  .add a2 a2 a0,
  .label .byte0,
  .lb a3 0 a1,
  .sb a3 0 a0,
  .addi a1 a1 1,
  .addi a0 a0 1,
  .bltu a0 a2 .byte0,
  .label .finish,
  -- restore saved registers
  .mv s1 t1,
  .mv a0 t2,
  .ret,
  .label .reverse,
  -- start from the end: src += sz, dst += sz
  .add a0 a0 a2,
  .add a1 a1 a2,
  -- here: a5 = threshold for byte-by-byte copying
  .bltu a2 a5 .bytesR,
  -- byte copy if src and dst are mutual unaligned
  .beqz s1 .bytesR,
  -- fix head misaligned bytes
  .add a4 a4 a2,
  .addi a3 s1 (-1),
  .and a4 a4 a3,
  .beqz a4 .aligned1R,
  -- handle head misalignment
  .sub a2 a2 a4,
  .sub a5 a0 a4,
  .label .head0R,
  .addi a1 a1 (-1),
  .addi a0 a0 (-1),
  .lb a3 0 a1,
  .sb a3 0 a0,
  .bgtu a0 a5 .head0R,
  -- calculate last address and tail misaligned bytes number
  .label .aligned1R,
  .addi a4 s1 (-1),
  .xori a4 a4 (-1),
  .and a4 a2 a4,
  .sub a2 a2 a4,
  .sub a4 a0 a4,
  .label .width1R,
  .li a5 4,
  .bne s1 a5 .bytes1R,
  .label .word0R,
  .sub a1 a1 s1,
  .sub a0 a0 s1,
  .lw a3 0 a1,
  .sw a3 0 a0,
  .bltu a4 a0 .word0R,
  -- byte copy
  .label .bytesR,
  .label .bytes1R,
  .beqz a2 .finish,
  .sub a5 a0 a2,
  .label .byte0R,
  .addi a1 a1 (-1),
  .addi a0 a0 (-1),
  .lb a3 0 a1,
  .sb a3 0 a0,
  .bgtu a0 a5 .byte0R,
  .j .finish]

/-! ## Section 4: The byte loops -/

/-- `for (i = 0; i < n; i++) dst[i] = src[i];` -/
def copyUp (mem : Memory Byte) (dst src n : ℕ) : Memory Byte :=
  (List.range n).foldl (fun mem i => mem.store (dst + i) [mem (src + i)]) mem

/-- `for (i = n; i > 0; i--) dst[i - 1] = src[i - 1];` -/
def copyDown (mem : Memory Byte) (dst src : ℕ) : ℕ → Memory Byte
  | 0 => mem
  | i + 1 => copyDown (mem.store (dst + i) [mem (src + i)]) dst src i

/-- Upwards or downwards, so that no byte is overwritten before it is copied. -/
def copyEither (mem : Memory Byte) (dst src n : ℕ) : Memory Byte :=
  if dst ≤ src then copyUp mem dst src n else copyDown mem dst src n

/-- `for (i = 0; i < n; i++) dst[i] = c;` -/
def setUp (mem : Memory Byte) (dst : ℕ) (c : Byte) (n : ℕ) : Memory Byte :=
  (List.range n).foldl (fun mem i => mem.store (dst + i) [c]) mem

variable {mem : Memory Byte} {dst src n : ℕ} {c : Byte}

/-- Upwards, the source may only be ahead. -/
theorem copyUp_eq (h : dst ≤ src ∨ src + n ≤ dst) :
    copyUp mem dst src n = mem.store dst (mem.load src n) := by
  induction n with
  | zero => exact (Memory.store_nil mem dst).symm
  | succ n ih =>
    rw [copyUp, List.range_succ, List.foldl_append, ← copyUp, ih (by omega), Memory.load_add,
      Memory.store_append, Memory.length_load]
    have hcell : (mem.store dst (mem.load src n)) (src + n) = mem (src + n) := by
      rcases h with h | h
      · exact Memory.store_of_ge mem _ (by rw [Memory.length_load]; omega)
      · exact Memory.store_of_lt mem _ (by omega)
    rw [List.foldl_cons, List.foldl_nil, hcell]
    rfl

/-- Downwards, the source may only be behind. -/
theorem copyDown_eq (h : src ≤ dst) : copyDown mem dst src n = mem.store dst (mem.load src n) := by
  induction n generalizing mem with
  | zero => exact (Memory.store_nil mem dst).symm
  | succ n ih =>
    have hlow : (mem.store (dst + n) [mem (src + n)]).load src n = mem.load src n :=
      Memory.load_store_of_disjoint mem _ (.inl (by omega))
    rw [copyDown, ih, hlow, Memory.store_store_front mem dst (Memory.length_load ..),
      Memory.load_add]
    rfl

theorem copyEither_eq : copyEither mem dst src n = mem.store dst (mem.load src n) := by
  rw [copyEither]
  split_ifs with h
  · exact copyUp_eq (.inl h)
  · exact copyDown_eq (Nat.le_of_not_le h)

theorem setUp_eq : setUp mem dst c n = mem.store dst (List.replicate n c) := by
  induction n with
  | zero => exact (Memory.store_nil mem dst).symm
  | succ n ih =>
    rw [setUp, List.range_succ, List.foldl_append, ← setUp, ih, List.replicate_succ',
      Memory.store_append, List.length_replicate]
    rfl

/-! ## Section 5: Calls -/

/-- The machine at the entry of a function, with nothing logged. -/
def enter (reg : Reg → Word) (mem : Memory Byte) : Machine := ⟨reg, mem, []⟩

/-- The bytes `a, …, a + n - 1`. -/
def Within (a n : ℕ) (addr width : ℕ) : Prop := a ≤ addr ∧ addr + width ≤ a + n

/-- An access to a word is aligned, and loads and stores stay in their ranges. -/
def Fits (dst src n : ℕ) : Access → Prop
  | .load addr width => width ∣ addr ∧ Within src n addr width
  | .store addr width => width ∣ addr ∧ Within dst n addr width

/-- What a function leaves behind that was entered with `m` and is to leave the memory `mem`. -/
structure Done (m : Machine) (mem : Memory Byte) (ok : Access → Prop) (m' : Machine) : Prop where
  mem : m'.mem = mem
  a0 : m'.reg a0 = m.reg a0
  s0 : m'.reg s0 = m.reg s0
  s1 : m'.reg s1 = m.reg s1
  accesses : ∀ x ∈ m'.log, ok x

end Karnix.Memops
