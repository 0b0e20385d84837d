import Karnix.Library.Bytes
import Karnix.Library.Program

/-!
# The ELF loader

`fat exec` of `cli_fat.c`: the headers of an ELF file, the table of its sections, and the loop
that loads them; and `check_ram_regions` of `soc.h`.

The file system is taken to deliver the bytes of the file, or to fail at any call.  Beside the
memory stand the ranges that were written, and the ranges of the heap that were read.  Local
variables are not part of the memory.  Messages are left out, but not the reads they make.
-/

namespace Karnix.Cli.Elf

open Karnix.Library

/-! ## Section 1: Headers -/

/-- The members of `Elf32_Ehdr` that the loader uses. -/
structure Ehdr where
  magic : BitVec 32
  eiClass : Byte
  eiOsabi : Byte
  eMachine : BitVec 16
  eEntry : BitVec 32
  eShoff : BitVec 32
  eShentsize : BitVec 16
  eShnum : BitVec 16

/-- `sizeof(Elf32_Ehdr)`, so many bytes are read from the beginning of the file. -/
def ehdrSize : ℕ := 52

def Ehdr.ofMemory (m : Memory Byte) : Ehdr where
  magic := leWord (m.load 0 4)
  eiClass := m 4
  eiOsabi := m 7
  eMachine := be16 (m 19) (m 18)
  eEntry := leWord (m.load 24 4)
  eShoff := leWord (m.load 32 4)
  eShentsize := be16 (m 47) (m 46)
  eShnum := be16 (m 49) (m 48)

/-- The tests on the file header: the magic number, `ELFCLASS32`, `ELFOSABI_SYSV`, `EM_RISCV`. -/
def Ehdr.Accepted (elf : Ehdr) : Prop :=
  elf.magic = 0x464c457f ∧ elf.eiClass = 1 ∧ elf.eiOsabi = 0 ∧ elf.eMachine = 0xF3

instance (elf : Ehdr) : Decidable elf.Accepted := inferInstanceAs (Decidable (_ ∧ _))

/-- `elf.e_shnum * elf.e_shentsize`: the size of the table, which need not be one of 40 bytes a
section. -/
def Ehdr.tableSize (elf : Ehdr) : ℕ := elf.eShnum.toNat * elf.eShentsize.toNat

/-- The members of `Elf32_Shdr` that the loader uses. -/
structure Shdr where
  shType : BitVec 32
  shFlags : BitVec 32
  shAddr : BitVec 32
  shOffset : BitVec 32
  shSize : BitVec 32

/-- `sizeof(Elf32_Shdr)`: the entries of the table that the loader steps through. -/
def shdrSize : ℕ := 40

/-- The section header that lies at `p`. -/
def Shdr.ofMemory (m : Memory Byte) (p : ℕ) : Shdr where
  shType := leWord (m.load (p + 4) 4)
  shFlags := leWord (m.load (p + 8) 4)
  shAddr := leWord (m.load (p + 12) 4)
  shOffset := leWord (m.load (p + 16) 4)
  shSize := leWord (m.load (p + 20) 4)

/-- `SHT_PROGBITS` and `SHT_NOBITS`: sections that the file has the bytes of, and those that it has
not. -/
def shtProgbits : BitVec 32 := 1
def shtNobits : BitVec 32 := 8

namespace Shdr

/-- The section has an address and a size. -/
def Active (s : Shdr) : Prop := s.shAddr ≠ 0 ∧ s.shSize ≠ 0

instance (s : Shdr) : Decidable s.Active := inferInstanceAs (Decidable (_ ∧ _))

/-- The section is to be loaded. -/
def Progbits (s : Shdr) : Prop := s.shType = shtProgbits ∧ s.Active

instance (s : Shdr) : Decidable s.Progbits := inferInstanceAs (Decidable (_ ∧ _))

/-- The section is to be zeroed. -/
def Nobits (s : Shdr) : Prop := s.shType = shtNobits ∧ s.Active

instance (s : Shdr) : Decidable s.Nobits := inferInstanceAs (Decidable (_ ∧ _))

end Shdr

/-! ## Section 2: `check_ram_regions` -/

/-- `ram_regions`: where each of them begins, and its size. -/
def ramRegions : List (BitVec 32 × BitVec 32) :=
  [(0x80000000, 72 * 1024), (0x90000000, 512 * 1024)]

/-- `check_ram_regions`: 0 if one of the regions holds the range; the sums may wrap around. -/
def checkRamRegions (addr size : BitVec 32) : ℤ :=
  if ramRegions.any fun r => addr ≥ r.1 && addr + size ≤ r.1 + r.2 then 0 else -1

/-! ## Section 3: What the loader calls -/

/-- A range of the memory. -/
structure Span where
  addr : ℕ
  len : ℕ
  deriving DecidableEq, Repr

/-- What the file system and the heap do. -/
structure LoaderIo where
  /-- Call `k` of the file system succeeds; if not, this many bytes were read before. -/
  file : ℕ → Option ℕ
  /-- The block that `malloc` returns for a size. -/
  malloc : ℕ → Option ℕ

structure Loader where
  mem : Memory Byte
  /-- The offset in the file. -/
  pos : ℕ := 0
  /-- The calls of the file system so far. -/
  calls : ℕ := 0
  /-- The ranges written, the last one first. -/
  writes : List Span := []
  /-- The ranges of the table of sections that were read, the last one first. -/
  reads : List Span := []

/-- A piece of the loader; it gives up where the source jumps to one of its exits. -/
abbrev Load := Program Loader

variable (io : LoaderIo) (file : List Byte)

/-- `fat_file_seek` from the start of the file.  The offset is an `int`. -/
def fatFileSeek (offset : BitVec 32) : Load PUnit := fun s =>
  if offset.toInt < 0 ∨ (io.file s.calls).isSome then (none, { s with calls := s.calls + 1 })
  else (some ⟨⟩, { s with pos := offset.toNat, calls := s.calls + 1 })

/-- The bytes `fat_file_read` delivers for a buffer of `len`, and whether it succeeds. -/
def delivered (s : Loader) (len : ℕ) : List Byte × Bool :=
  match io.file s.calls with
  | none => ((file.drop s.pos).take len, true)
  | some n => (((file.drop s.pos).take len).take n, false)

/-- `fat_file_read` into the memory, with the tests for success and for a partial read that follow
each of its calls. -/
def fatFileRead (dst len : ℕ) : Load PUnit := fun s =>
  let r := delivered io file s len
  let s' := { s with
    mem := s.mem.store dst r.1
    pos := s.pos + r.1.length
    calls := s.calls + 1
    writes := ⟨dst, r.1.length⟩ :: s.writes }
  if r.2 ∧ r.1.length = len then (some ⟨⟩, s') else (none, s')

/-- `fat_file_read` of the file header into a local variable, with the same tests. -/
def readEhdr : Load Ehdr := fun s =>
  let r := delivered io file s ehdrSize
  let s' := { s with pos := s.pos + r.1.length, calls := s.calls + 1 }
  if r.2 ∧ r.1.length = ehdrSize then (some (Ehdr.ofMemory fun k => r.1.getD k 0), s')
  else (none, s')

/-- `memset` with its arguments in the order of C: place, byte, count. -/
def memset (dst : ℕ) (c : BitVec 32) (n : ℕ) : Load PUnit :=
  .modify fun s => { s with
    mem := s.mem.fill dst n (c.setWidth 8)
    writes := ⟨dst, n⟩ :: s.writes }

/-- The members of `secth`, which the message about the section reads all. -/
def readShdr (p : ℕ) : Load Shdr := fun s =>
  (some (Shdr.ofMemory s.mem p), { s with reads := ⟨p + 4, 20⟩ :: s.reads })

/-! ## Section 4: The loader -/

/-- Load, zero or skip a section. -/
def placeSection (secth : Shdr) : Load PUnit :=
  if secth.Progbits then
    if checkRamRegions secth.shAddr secth.shSize ≠ 0 then Program.abort
    else do
      fatFileSeek io secth.shOffset
      fatFileRead io file secth.shAddr.toNat secth.shSize.toNat
  else if secth.Nobits then memset secth.shAddr.toNat secth.shSize 0
  else pure ⟨⟩

/-- The body of the loop over the sections. -/
def loadSection (shbuf sect : ℕ) : Load PUnit := do
  let secth ← readShdr (shbuf + sect * shdrSize)
  placeSection io file secth

/-- The loop, from section `sect` on, with `n` sections to go. -/
def loadSections (shbuf : ℕ) : ℕ → ℕ → Load PUnit
  | 0, _ => pure ⟨⟩
  | n + 1, sect => do
    loadSection io file shbuf sect
    loadSections shbuf n (sect + 1)

/-- From the table of sections on. -/
def loadTable (elf : Ehdr) (shbuf : ℕ) : Load (BitVec 32) := do
  fatFileSeek io elf.eShoff
  fatFileRead io file shbuf elf.tableSize
  loadSections io file shbuf elf.eShnum.toNat 0
  pure elf.eEntry

/-- `fat exec`: it returns what it sets `current_address` to. -/
def fatExec : Load (BitVec 32) := do
  let elf ← readEhdr io file
  if elf.Accepted then
    match io.malloc elf.tableSize with
    | none => Program.abort
    | some shbuf => loadTable io file elf shbuf
  else Program.abort

end Karnix.Cli.Elf
