import Karnix.Cli.ElfLoader

/-!
# What the ELF loader loads

The loader is meant to write only to RAM, to read its table of sections only, and to leave every
section in memory as the file has it, or zeroed.  It does so if the table has entries of 40 bytes,
no section wraps around the end of the address space or lies over the table or over the monitor's
own memory, and the sections to be zeroed are covered by sections that are loaded: nothing is ever
zeroed.
-/

namespace Karnix.Cli.Elf

open Karnix.Library

/-! ## Section 1: Ranges of RAM -/

/-- The range lies inside one of the regions. -/
def InRam (addr len : ℕ) : Prop :=
  ∃ r ∈ ramRegions, r.1.toNat ≤ addr ∧ addr + len ≤ r.1.toNat + r.2.toNat

/-- The end of the range wraps around, and is then found below the end of a region. -/
def Wrapped (addr size : BitVec 32) : Prop :=
  0x100000000 ≤ addr.toNat + size.toNat ∧
    ∃ r ∈ ramRegions, r.1.toNat ≤ addr.toNat ∧
      addr.toNat + size.toNat - 0x100000000 ≤ r.1.toNat + r.2.toNat

instance (addr len : ℕ) : Decidable (InRam addr len) :=
  List.decidableBEx _ ramRegions

instance (addr size : BitVec 32) : Decidable (Wrapped addr size) :=
  have : Decidable (∃ r ∈ ramRegions, r.1.toNat ≤ addr.toNat ∧
      addr.toNat + size.toNat - 0x100000000 ≤ r.1.toNat + r.2.toNat) :=
    List.decidableBEx _ ramRegions
  inferInstanceAs (Decidable (_ ∧ _))

/-- The RAM of `linker_monitor_xip.ld`: the data, the stack and the heap of the monitor itself. -/
def monitorRam : ℕ := 0x80000000
def monitorRamSize : ℕ := 16 * 1024

/-- The range leaves the monitor's own memory alone.  The first region has it, and
`check_ram_regions` does not ask. -/
def SparesMonitor (addr len : ℕ) : Prop :=
  addr + len ≤ monitorRam ∨ monitorRam + monitorRamSize ≤ addr

instance (addr len : ℕ) : Decidable (SparesMonitor addr len) :=
  inferInstanceAs (Decidable (_ ∨ _))

/-- The regions end inside the address space. -/
theorem ramRegions_end : ∀ r ∈ ramRegions, r.1.toNat + r.2.toNat < 0x100000000 := by
  refine List.forall_mem_cons.mpr ⟨?_, List.forall_mem_singleton.mpr ?_⟩ <;> decide

/-- The sum of the C code. -/
theorem toNat_sum (x y : BitVec 32) : (x + y).toNat = (x.toNat + y.toNat) % 0x100000000 :=
  BitVec.toNat_add x y

theorem checkRamRegions_eq_zero_iff (addr size : BitVec 32) :
    checkRamRegions addr size = 0 ↔
      ∃ r ∈ ramRegions, r.1.toNat ≤ addr.toNat ∧
        (addr.toNat + size.toNat) % 0x100000000 ≤ r.1.toNat + r.2.toNat := by
  unfold checkRamRegions
  rw [ite_eq_left_iff, not_imp_comm, List.any_eq_true]
  simp only [show ¬ (-1 : ℤ) = 0 by decide, not_false_eq_true, true_imp_iff, Bool.and_eq_true,
    decide_eq_true_eq]
  refine exists_congr fun r => and_congr_right fun hr => ?_
  have hend := ramRegions_end r hr
  rw [ge_iff_le, BitVec.le_def, BitVec.le_def, toNat_sum, toNat_sum, Nat.mod_eq_of_lt hend]

/-- `check_ram_regions` accepts the ranges inside a region and those that wrap around. -/
theorem checkRamRegions_iff (addr size : BitVec 32) :
    checkRamRegions addr size = 0 ↔ InRam addr.toNat size.toNat ∨ Wrapped addr size := by
  rw [checkRamRegions_eq_zero_iff]
  have haddr : addr.toNat < 0x100000000 := addr.isLt
  have hsize : size.toNat < 0x100000000 := size.isLt
  rcases Nat.lt_or_ge (addr.toNat + size.toNat) 0x100000000 with hlt | hge
  · rw [Nat.mod_eq_of_lt hlt]
    refine (or_iff_left fun hwrap => ?_).symm
    exact absurd hwrap.1 (Nat.not_le.mpr hlt)
  · have hmod : (addr.toNat + size.toNat) % 0x100000000 =
        addr.toNat + size.toNat - 0x100000000 := by
      rw [Nat.mod_eq_sub_mod hge, Nat.mod_eq_of_lt (by omega)]
    rw [hmod]
    have hout : ¬ InRam addr.toNat size.toNat := by
      rintro ⟨r, hr, -, hle⟩
      have hend := ramRegions_end r hr
      omega
    rw [or_iff_right hout]
    exact (and_iff_right hge).symm

/-- The check is exact but for the ranges that wrap around. -/
theorem checkRamRegions_exact_iff (addr size : BitVec 32) :
    (checkRamRegions addr size = 0 ↔ InRam addr.toNat size.toNat) ↔ ¬ Wrapped addr size := by
  rw [checkRamRegions_iff, or_iff_left_iff_imp]
  constructor
  · intro h hwrap
    obtain ⟨r, hr, -, hle⟩ := h hwrap
    have hend := ramRegions_end r hr
    have hge := hwrap.1
    omega
  · exact fun h hwrap => absurd hwrap h

/-! ## Section 2: What the file says -/

section File

variable (file : List Byte)

/-- The byte of the file at an offset. -/
def byteAt : Memory Byte := fun k => file.getD k 0

/-- The header of the file. -/
def ehdr : Ehdr := Ehdr.ofMemory (byteAt file)

/-- The header of section `k`: at `e_shoff + k * e_shentsize`. -/
def shdrAt (k : ℕ) : Shdr :=
  Shdr.ofMemory (byteAt file) ((ehdr file).eShoff.toNat + k * (ehdr file).eShentsize.toNat)

def sections : List Shdr := (List.range (ehdr file).eShnum.toNat).map (shdrAt file)

end File

namespace Shdr

/-- The address belongs to the section. -/
def Covers (s : Shdr) (a : ℕ) : Prop :=
  s.shAddr.toNat ≤ a ∧ a < s.shAddr.toNat + s.shSize.toNat

instance (s : Shdr) (a : ℕ) : Decidable (s.Covers a) := inferInstanceAs (Decidable (_ ∧ _))

/-- The bytes of the file for the section. -/
def data (s : Shdr) (file : List Byte) : List Byte :=
  (file.drop s.shOffset.toNat).take s.shSize.toNat

/-- The section lies in the file. -/
def InFile (s : Shdr) (file : List Byte) : Prop :=
  s.shOffset.toNat + s.shSize.toNat ≤ file.length

theorem length_data {s : Shdr} {file : List Byte} (h : s.InFile file) :
    (s.data file).length = s.shSize.toNat := by
  unfold InFile at h
  rw [data, List.length_take, List.length_drop]
  omega

/-- The section can be loaded. -/
structure Loadable (s : Shdr) (file : List Byte) : Prop where
  ram : InRam s.shAddr.toNat s.shSize.toNat
  offset : 0 ≤ s.shOffset.toInt
  inFile : s.InFile file

end Shdr

/-- The header is accepted, and the file has the table of sections. -/
structure HasTable (file : List Byte) : Prop where
  header : ehdrSize ≤ file.length
  accepted : (ehdr file).Accepted
  offset : 0 ≤ (ehdr file).eShoff.toInt
  table : (ehdr file).tableSize = 0 ∨
    (ehdr file).eShoff.toNat + (ehdr file).tableSize ≤ file.length

/-- The loop gets to section `k`: nothing keeps the sections before it from being loaded. -/
def Reached (file : List Byte) (k : ℕ) : Prop :=
  k < (ehdr file).eShnum.toNat ∧
    ∀ j < k, (shdrAt file j).Progbits → (shdrAt file j).Loadable file

/-- The command gets to its end if nothing fails. -/
structure Loadable (file : List Byte) : Prop extends HasTable file where
  sections : ∀ s ∈ sections file, s.Progbits → s.Loadable file

/-- Every address of every section, unless a later section covers it, has the byte of the file or a
zero. -/
def SectionsLoaded (file : List Byte) (m : Memory Byte) : Prop :=
  ∀ before s after, sections file = before ++ s :: after → s.Active → ∀ a, s.Covers a →
    (∀ t ∈ after, t.Progbits ∨ t.Nobits → ¬ t.Covers a) →
      (s.shType = shtProgbits →
        file[s.shOffset.toNat + (a - s.shAddr.toNat)]? = some (m a)) ∧
      (s.shType = shtNobits → m a = 0)

/-- The state before the command. -/
def start (m : Memory Byte) : Loader := { mem := m }

/-- What the command may do.  It writes no memory of its own but the block for the table. -/
structure ExecOk (io : LoaderIo) (file : List Byte) (m : Memory Byte) : Prop where
  writes : ∀ w ∈ (fatExec io file (start m)).2.writes, w.len = 0 ∨
    InRam w.addr w.len ∧ SparesMonitor w.addr w.len ∨
    ∃ shbuf, io.malloc (ehdr file).tableSize = some shbuf ∧
      shbuf ≤ w.addr ∧ w.addr + w.len ≤ shbuf + (ehdr file).tableSize
  reads : ∀ w ∈ (fatExec io file (start m)).2.reads,
    ∃ shbuf, io.malloc (ehdr file).tableSize = some shbuf ∧
      shbuf ≤ w.addr ∧ w.addr + w.len ≤ shbuf + (ehdr file).tableSize
  loaded : (fatExec io file (start m)).1.isSome →
    SectionsLoaded file (fatExec io file (start m)).2.mem

/-! ## Section 3: The sections in memory -/

/-- The memory after the sections were loaded. -/
def image (file : List Byte) (ss : List Shdr) (m : Memory Byte) : Memory Byte :=
  ss.foldl (fun m s => if s.Progbits then m.store s.shAddr.toNat (s.data file) else m) m

/-- A section, or a part of it, is written over the range it covers. -/
theorem store_not_covered {s : Shdr} {bs : List Byte} (hlen : bs.length ≤ s.shSize.toNat) {a : ℕ}
    (h : ¬ s.Covers a) (m : Memory Byte) : m.store s.shAddr.toNat bs a = m a := by
  rcases Nat.lt_or_ge a s.shAddr.toNat with hlow | hhigh
  · exact Memory.store_of_lt m _ hlow
  · refine Memory.store_of_ge m _ ?_
    have hout : ¬ a < s.shAddr.toNat + s.shSize.toNat := fun hlt => h ⟨hhigh, hlt⟩
    omega

theorem image_keeps {file : List Byte} {ss : List Shdr} {a : ℕ}
    (h : ∀ s ∈ ss, s.Progbits → ¬ s.Covers a) (m : Memory Byte) : image file ss m a = m a := by
  refine Memory.foldl_keeps ?_ m
  intro m s hs
  split_ifs with hload
  · exact store_not_covered (List.length_take_le _ _) (h s hs hload) m
  · rfl

/-- The last section that covers an address decides what is there. -/
theorem image_covered {file : List Byte} {before after : List Shdr} {s : Shdr} {a : ℕ}
    (hload : s.Progbits) (hfile : s.InFile file) (ha : s.Covers a)
    (hafter : ∀ t ∈ after, t.Progbits → ¬ t.Covers a) (m : Memory Byte) :
    file[s.shOffset.toNat + (a - s.shAddr.toNat)]? =
      some (image file (before ++ s :: after) m a) := by
  unfold image
  rw [List.foldl_append, List.foldl_cons, if_pos hload]
  have hkeep : image file after ((image file before m).store s.shAddr.toNat (s.data file)) a = _ :=
    image_keeps hafter _
  unfold image at hkeep
  rw [hkeep]
  obtain ⟨k, rfl⟩ := Nat.exists_eq_add_of_le ha.1
  have hk : k < (s.data file).length := by
    rw [Shdr.length_data hfile]
    exact Nat.lt_of_add_lt_add_left ha.2
  rw [Memory.store_getElem _ _ _ _ hk, Nat.add_sub_cancel_left]
  unfold Shdr.data at hk ⊢
  rw [List.getElem_take, List.getElem_drop, List.getElem?_eq_getElem]

/-! ## Section 4: A run of the loader -/

variable {io : LoaderIo} {file : List Byte} {shbuf : ℕ}

/-- The table has headers where the loader looks for them, and no section that the loop gets to
wraps around or lies over the table in memory or over the monitor's own memory. -/
structure Sane (file : List Byte) (shbuf : ℕ) : Prop where
  table : (ehdr file).eShnum = 0 ∨ (ehdr file).eShentsize.toNat = shdrSize ∨
    (ehdr file).eShnum = 1 ∧ 24 ≤ (ehdr file).eShentsize.toNat
  noWrap : ∀ k, Reached file k → (shdrAt file k).Progbits →
    ¬ Wrapped (shdrAt file k).shAddr (shdrAt file k).shSize
  apart : ∀ k, Reached file k → (shdrAt file k).Progbits ∨ (shdrAt file k).Nobits →
    ∀ i < (ehdr file).tableSize, ¬ (shdrAt file k).Covers (shbuf + i)
  own : ∀ k, Reached file k → (shdrAt file k).Progbits ∨ (shdrAt file k).Nobits →
    SparesMonitor (shdrAt file k).shAddr.toNat (shdrAt file k).shSize.toNat

/-- A range that the loader may write. -/
def MayWrite (file : List Byte) (shbuf : ℕ) (w : Span) : Prop :=
  w.len = 0 ∨ InRam w.addr w.len ∧ SparesMonitor w.addr w.len ∨
    shbuf ≤ w.addr ∧ w.addr + w.len ≤ shbuf + (ehdr file).tableSize

/-- A range of the table. -/
def MayRead (file : List Byte) (shbuf : ℕ) (w : Span) : Prop :=
  shbuf ≤ w.addr ∧ w.addr + w.len ≤ shbuf + (ehdr file).tableSize

/-- The loader has kept to its ranges. -/
structure Kept (file : List Byte) (shbuf : ℕ) (s : Loader) : Prop where
  writes : ∀ w ∈ s.writes, MayWrite file shbuf w
  reads : ∀ w ∈ s.reads, MayRead file shbuf w

/-- The table in memory is that of the file. -/
def Intact (file : List Byte) (shbuf : ℕ) (m : Memory Byte) : Prop :=
  ∀ k < (ehdr file).tableSize, m (shbuf + k) = byteAt file ((ehdr file).eShoff.toNat + k)

theorem reached_of_loadable (h : Loadable file) {s : Shdr} (hs : s ∈ sections file) :
    ∃ k, Reached file k ∧ shdrAt file k = s := by
  obtain ⟨k, hk, rfl⟩ := List.mem_map.mp hs
  refine ⟨k, ⟨List.mem_range.mp hk, fun j hj => h.sections _ ?_⟩, rfl⟩
  exact List.mem_map.mpr ⟨j, List.mem_range.mpr (hj.trans (List.mem_range.mp hk)), rfl⟩

theorem section_mem {k : ℕ} (hk : k < (ehdr file).eShnum.toNat) :
    shdrAt file k ∈ sections file :=
  List.mem_map.mpr ⟨k, List.mem_range.mpr hk, rfl⟩

/-- Where the loader looks for a header there is one. -/
theorem Sane.entry (h : Sane file shbuf) {k : ℕ} (hk : k < (ehdr file).eShnum.toNat) :
    k * shdrSize = k * (ehdr file).eShentsize.toNat ∧
      k * shdrSize + 24 ≤ (ehdr file).tableSize := by
  unfold Ehdr.tableSize
  rcases h.table with hzero | hforty | ⟨hone, hsize⟩
  · rw [hzero] at hk
    exact absurd hk (Nat.not_lt_zero k)
  · refine ⟨by rw [hforty], ?_⟩
    rw [hforty]
    calc k * shdrSize + 24 ≤ k * shdrSize + shdrSize := Nat.add_le_add_left (by decide) _
      _ = (k + 1) * shdrSize := (Nat.succ_mul k shdrSize).symm
      _ ≤ (ehdr file).eShnum.toNat * shdrSize := Nat.mul_le_mul_right _ hk
  · rw [hone] at hk ⊢
    obtain rfl : k = 0 := Nat.lt_one_iff.mp hk
    refine ⟨by rw [Nat.zero_mul, Nat.zero_mul], ?_⟩
    show 0 * shdrSize + 24 ≤ 1 * (ehdr file).eShentsize.toNat
    omega

theorem shdr_congr {m m' : Memory Byte} {p p' : ℕ} (h : ∀ i < 24, m (p + i) = m' (p' + i)) :
    Shdr.ofMemory m p = Shdr.ofMemory m' p' := by
  have hword : ∀ off, off + 4 ≤ 24 → m.load (p + off) 4 = m'.load (p' + off) 4 := by
    intro off hoff
    apply List.map_congr_left
    intro i hi
    have hlt := List.mem_range.mp hi
    rw [Nat.add_assoc, Nat.add_assoc]
    exact h (off + i) (by omega)
  unfold Shdr.ofMemory
  rw [hword 4 (by decide), hword 8 (by decide), hword 12 (by decide), hword 16 (by decide),
    hword 20 (by decide)]

/-- The loader finds the header of the file. -/
theorem Intact.header (h : Sane file shbuf) {m : Memory Byte} (hm : Intact file shbuf m) {k : ℕ}
    (hk : k < (ehdr file).eShnum.toNat) :
    Shdr.ofMemory m (shbuf + k * shdrSize) = shdrAt file k := by
  obtain ⟨hplace, hfit⟩ := h.entry hk
  refine shdr_congr fun i hi => ?_
  rw [Nat.add_assoc, ← hplace, Nat.add_assoc]
  exact hm _ (by omega)

/-! ### The calls -/

/-- A seek changes nothing but the position. -/
theorem fatFileSeek_spec {offset : BitVec 32} {s s' : Loader} {v : Option PUnit}
    (h : fatFileSeek io offset s = (v, s')) :
    s'.mem = s.mem ∧ s'.writes = s.writes ∧ s'.reads = s.reads ∧
      (v.isSome → s'.pos = offset.toNat ∧ 0 ≤ offset.toInt) := by
  unfold fatFileSeek at h
  split_ifs at h with hfails
  · cases h
    exact ⟨rfl, rfl, rfl, nofun⟩
  · cases h
    exact ⟨rfl, rfl, rfl, fun _ => ⟨rfl, not_lt.mp (not_or.mp hfails).1⟩⟩

theorem length_delivered_le (io : LoaderIo) (file : List Byte) (s : Loader) (len : ℕ) :
    (delivered io file s len).1.length ≤ len := by
  unfold delivered
  cases io.file s.calls with
  | none => exact List.length_take_le _ _
  | some n =>
    show (((file.drop s.pos).take len).take n).length ≤ len
    rw [List.length_take]
    exact Nat.le_trans (Nat.min_le_right _ _) (List.length_take_le _ _)

theorem delivered_of_ok {s : Loader} {len : ℕ} (h : (delivered io file s len).2 = true) :
    (delivered io file s len).1 = (file.drop s.pos).take len := by
  unfold delivered at h ⊢
  cases hio : io.file s.calls with
  | none => rfl
  | some n =>
    rw [hio] at h
    exact absurd h Bool.false_ne_true

/-- A read writes no more than it was asked for, and all of it if it succeeds. -/
theorem fatFileRead_spec {dst len : ℕ} {s s' : Loader} {v : Option PUnit}
    (h : fatFileRead io file dst len s = (v, s')) :
    ∃ bs : List Byte, bs.length ≤ len ∧ s'.mem = s.mem.store dst bs ∧
      s'.writes = ⟨dst, bs.length⟩ :: s.writes ∧ s'.reads = s.reads ∧
      (v.isSome → bs = (file.drop s.pos).take len ∧ bs.length = len) := by
  refine ⟨(delivered io file s len).1, length_delivered_le io file s len, ?_⟩
  unfold fatFileRead at h
  by_cases hok : (delivered io file s len).2 ∧ (delivered io file s len).1.length = len
  · cases h.symm.trans (if_pos hok)
    exact ⟨rfl, rfl, rfl, fun _ => ⟨delivered_of_ok hok.1, hok.2⟩⟩
  · cases h.symm.trans (if_neg hok)
    exact ⟨rfl, rfl, rfl, nofun⟩

theorem ehdr_congr {m m' : Memory Byte} (h : ∀ k < ehdrSize, m k = m' k) :
    Ehdr.ofMemory m = Ehdr.ofMemory m' := by
  have hbyte : ∀ k < 52, m k = m' k := h
  have hword : ∀ off, off + 4 ≤ 52 → m.load off 4 = m'.load off 4 := fun off hoff =>
    Memory.load_congr fun i hi => h (off + i) (Nat.lt_of_lt_of_le (Nat.add_lt_add_left hi off) hoff)
  unfold Ehdr.ofMemory
  rw [hword 0 (by decide), hword 24 (by decide), hword 32 (by decide), hbyte 4 (by decide),
    hbyte 7 (by decide), hbyte 18 (by decide), hbyte 19 (by decide), hbyte 46 (by decide),
    hbyte 47 (by decide), hbyte 48 (by decide), hbyte 49 (by decide)]

/-- The header that is read is that of the file. -/
theorem readEhdr_spec {m : Memory Byte} {s' : Loader} {v : Option Ehdr}
    (h : readEhdr io file (start m) = (v, s')) :
    s'.mem = m ∧ s'.writes = [] ∧ s'.reads = [] ∧
      (v = none ∨ v = some (ehdr file) ∧ ehdrSize ≤ file.length) := by
  unfold readEhdr at h
  by_cases hok : (delivered io file (start m) ehdrSize).2 ∧
      (delivered io file (start m) ehdrSize).1.length = ehdrSize
  · cases h.symm.trans (if_pos hok)
    have hbytes : (delivered io file (start m) ehdrSize).1 = file.take ehdrSize :=
      delivered_of_ok hok.1
    have hlen : ehdrSize ≤ file.length := by
      have hsize := hok.2
      rw [hbytes, List.length_take] at hsize
      omega
    refine ⟨rfl, rfl, rfl, Or.inr ⟨congrArg some (ehdr_congr fun k hk => ?_), hlen⟩⟩
    show (delivered io file (start m) ehdrSize).1.getD k 0 = file.getD k 0
    rw [hbytes, List.getD_eq_getElem?_getD, List.getD_eq_getElem?_getD, List.getElem?_take_of_lt hk]
  · cases h.symm.trans (if_neg hok)
    exact ⟨rfl, rfl, rfl, Or.inl rfl⟩

/-! ### The loop -/

theorem InRam.of_le {addr len len' : ℕ} (h : InRam addr len) (hle : len' ≤ len) :
    InRam addr len' := by
  obtain ⟨r, hr, hlow, hhigh⟩ := h
  exact ⟨r, hr, hlow, Nat.le_trans (Nat.add_le_add_left hle addr) hhigh⟩

theorem SparesMonitor.of_le {addr len len' : ℕ} (h : SparesMonitor addr len) (hle : len' ≤ len) :
    SparesMonitor addr len' :=
  h.imp_left fun hend => (Nat.add_le_add_left hle addr).trans hend

theorem Kept.write {s : Loader} (h : Kept file shbuf s) {s' : Loader} {w : Span}
    (hw : MayWrite file shbuf w) (hwrites : s'.writes = w :: s.writes)
    (hreads : s'.reads = s.reads) : Kept file shbuf s' := by
  refine ⟨fun x hx => ?_, fun x hx => h.reads x (hreads ▸ hx)⟩
  rw [hwrites] at hx
  rcases List.mem_cons.mp hx with rfl | hold
  · exact hw
  · exact h.writes x hold

/-- Loading a section that does not lie over the table. -/
theorem Intact.store {m : Memory Byte} (hm : Intact file shbuf m) {s : Shdr} {bs : List Byte}
    (hlen : bs.length ≤ s.shSize.toNat)
    (hapart : ∀ k < (ehdr file).tableSize, ¬ s.Covers (shbuf + k)) :
    Intact file shbuf (m.store s.shAddr.toNat bs) := by
  intro k hk
  rw [store_not_covered hlen (hapart k hk)]
  exact hm k hk

theorem fill_zero (m : Memory Byte) (a : ℕ) (x : Byte) : m.fill a 0 x = m :=
  funext fun _ => Memory.fill_of_notMem m x List.not_mem_nil

/-- What a piece of the loop leaves behind: `loaded` tells whether it went through. -/
structure Placed (file : List Byte) (shbuf : ℕ) (ss : List Shdr) (m : Memory Byte) (s' : Loader)
    (loaded : Prop) : Prop where
  kept : Kept file shbuf s'
  intact : Intact file shbuf s'.mem
  image : loaded → s'.mem = image file ss m
  loadable : loaded → ∀ s ∈ ss, s.Progbits → s.Loadable file

/-- **Step lemma.**  One section. -/
theorem placeSection_spec {secth : Shdr} {s s' : Loader} {v : Option PUnit}
    (hkept : Kept file shbuf s) (hm : Intact file shbuf s.mem)
    (hwrap : secth.Progbits → ¬ Wrapped secth.shAddr secth.shSize)
    (hapart : secth.Progbits ∨ secth.Nobits →
      ∀ k < (ehdr file).tableSize, ¬ secth.Covers (shbuf + k))
    (hown : secth.Progbits ∨ secth.Nobits →
      SparesMonitor secth.shAddr.toNat secth.shSize.toNat)
    (hrun : placeSection io file secth s = (v, s')) :
    Placed file shbuf [secth] s.mem s' v.isSome := by
  have himage : image file [secth] s.mem =
      if secth.Progbits then s.mem.store secth.shAddr.toNat (secth.data file) else s.mem := rfl
  have hsingle : ∀ {P : Shdr → Prop}, P secth → ∀ s ∈ [secth], P s := fun hP s hs =>
    List.mem_singleton.mp hs ▸ hP
  unfold placeSection at hrun
  split_ifs at hrun with hload hcheck hzero
  · -- the check fails
    cases hrun
    exact ⟨hkept, hm, nofun, nofun⟩
  · -- a section to be loaded
    have hram : InRam secth.shAddr.toNat secth.shSize.toNat := by
      rw [ne_eq, not_not, checkRamRegions_iff] at hcheck
      exact hcheck.resolve_right (hwrap hload)
    cases hseek : fatFileSeek io secth.shOffset s with
    | mk u s₁ =>
      obtain ⟨hmem₁, hwrites₁, hreads₁, hpos⟩ := fatFileSeek_spec hseek
      have hkept₁ : Kept file shbuf s₁ := ⟨hwrites₁ ▸ hkept.writes, hreads₁ ▸ hkept.reads⟩
      cases u with
      | none =>
        cases (Program.bind_of_none hseek).symm.trans hrun
        exact ⟨hkept₁, hmem₁ ▸ hm, nofun, nofun⟩
      | some _ =>
        rw [Program.bind_of_some hseek] at hrun
        obtain ⟨bs, hlen, hmem', hwrites', hreads', hall⟩ := fatFileRead_spec hrun
        have hrange : InRam secth.shAddr.toNat bs.length ∧
            SparesMonitor secth.shAddr.toNat bs.length :=
          ⟨hram.of_le hlen, (hown (Or.inl hload)).of_le hlen⟩
        refine ⟨hkept₁.write (Or.inr (Or.inl hrange)) hwrites' hreads', ?_, ?_, ?_⟩
        · rw [hmem', hmem₁]
          exact hm.store hlen (hapart (Or.inl hload))
        · intro hv
          rw [himage, if_pos hload, hmem', hmem₁, (hall hv).1, (hpos rfl).1]
          rfl
        · intro hv
          obtain ⟨hbs, hsize⟩ := hall hv
          refine hsingle fun _ => ⟨hram, (hpos rfl).2, ?_⟩
          rw [hbs, List.length_take, List.length_drop, (hpos rfl).1] at hsize
          have hnonzero : secth.shSize.toNat ≠ 0 := fun hz =>
            hload.2.2 (BitVec.eq_of_toNat_eq hz)
          unfold Shdr.InFile
          omega
  · -- a section to be zeroed: `memset` gets its arguments the wrong way round
    cases hrun
    refine ⟨hkept.write (Or.inl rfl) rfl rfl, ?_, ?_, ?_⟩
    · show Intact file shbuf (s.mem.fill _ 0 _)
      rw [fill_zero]
      exact hm
    · intro _
      rw [himage, if_neg hload]
      exact fill_zero s.mem _ _
    · exact fun _ => hsingle fun hno => absurd hno hload
  · cases hrun
    refine ⟨hkept, hm, fun _ => ?_, fun _ => hsingle fun hno => absurd hno hload⟩
    rw [himage, if_neg hload]

theorem loadSection_spec (h : Sane file shbuf) {s s' : Loader} {v : Option PUnit} {k : ℕ}
    (hkept : Kept file shbuf s) (hm : Intact file shbuf s.mem)
    (hk : Reached file k) (hrun : loadSection io file shbuf k s = (v, s')) :
    Placed file shbuf [shdrAt file k] s.mem s' v.isSome := by
  have hread : readShdr (shbuf + k * shdrSize) s =
      (some (shdrAt file k), { s with reads := ⟨shbuf + k * shdrSize + 4, 20⟩ :: s.reads }) := by
    rw [← hm.header h hk.1]
    rfl
  unfold loadSection at hrun
  rw [Program.bind_of_some hread] at hrun
  have hkept₁ : Kept file shbuf
      { s with reads := ⟨shbuf + k * shdrSize + 4, 20⟩ :: s.reads } := by
    refine ⟨hkept.writes, fun w hw => ?_⟩
    rcases List.mem_cons.mp hw with rfl | hold
    · have hfit := (h.entry hk.1).2
      show shbuf ≤ shbuf + k * shdrSize + 4 ∧
        shbuf + k * shdrSize + 4 + 20 ≤ shbuf + (ehdr file).tableSize
      omega
    · exact hkept.reads w hold
  have hplaced := placeSection_spec hkept₁ hm (h.noWrap k hk) (h.apart k hk) (h.own k hk) hrun
  exact hplaced

/-- **Run lemma.**  The sections from `sect` on. -/
theorem loadSections_spec (h : Sane file shbuf) {n sect : ℕ} {s s' : Loader} {v : Option PUnit}
    (hn : sect + n ≤ (ehdr file).eShnum.toNat)
    (hbefore : ∀ j < sect, (shdrAt file j).Progbits → (shdrAt file j).Loadable file)
    (hkept : Kept file shbuf s)
    (hm : Intact file shbuf s.mem) (hrun : loadSections io file shbuf n sect s = (v, s')) :
    Placed file shbuf ((List.range' sect n).map (shdrAt file)) s.mem s' v.isSome := by
  induction n generalizing sect s with
  | zero =>
    cases hrun
    exact ⟨hkept, hm, fun _ => rfl, fun _ _ hs => absurd hs List.not_mem_nil⟩
  | succ n ih =>
    cases hfirst : loadSection io file shbuf sect s with
    | mk u s₁ =>
      have hplaced := loadSection_spec h hkept hm ⟨by omega, hbefore⟩ hfirst
      cases u with
      | none =>
        cases (Program.bind_of_none hfirst).symm.trans hrun
        exact ⟨hplaced.kept, hplaced.intact, nofun, nofun⟩
      | some _ =>
        have hrest : loadSections io file shbuf n (sect + 1) s₁ = (v, s') :=
          (Program.bind_of_some hfirst).symm.trans hrun
        have hbefore' : ∀ j < sect + 1, (shdrAt file j).Progbits →
            (shdrAt file j).Loadable file := by
          intro j hj
          rcases Nat.lt_succ_iff_lt_or_eq.mp hj with hlt | rfl
          · exact hbefore j hlt
          · exact hplaced.loadable rfl _ (List.mem_singleton_self _)
        have hlast := ih (by omega) hbefore' hplaced.kept hplaced.intact hrest
        rw [List.range'_succ, List.map_cons]
        refine ⟨hlast.kept, hlast.intact, fun hv => ?_, fun hv => ?_⟩
        · rw [hlast.image hv, hplaced.image rfl]
          rfl
        · intro t ht
          rcases List.mem_cons.mp ht with rfl | hin
          · exact hplaced.loadable rfl _ (List.mem_singleton_self _)
          · exact hlast.loadable hv t hin

/-! ### The command -/

theorem Kept.mayWrite {s : Loader} (h : Kept file shbuf s)
    (hmalloc : io.malloc (ehdr file).tableSize = some shbuf) :
    (∀ w ∈ s.writes, w.len = 0 ∨ InRam w.addr w.len ∧ SparesMonitor w.addr w.len ∨
        ∃ p, io.malloc (ehdr file).tableSize = some p ∧
          p ≤ w.addr ∧ w.addr + w.len ≤ p + (ehdr file).tableSize) ∧
      ∀ w ∈ s.reads, ∃ p, io.malloc (ehdr file).tableSize = some p ∧
        p ≤ w.addr ∧ w.addr + w.len ≤ p + (ehdr file).tableSize :=
  ⟨fun w hw => (h.writes w hw).imp_right (Or.imp_right fun hin => ⟨shbuf, hmalloc, hin⟩),
    fun w hw => ⟨shbuf, hmalloc, h.reads w hw⟩⟩

/-- The table is read to where `malloc` put it. -/
theorem intact_of_read {s s' : Loader}
    (h : fatFileRead io file shbuf (ehdr file).tableSize s = (some ⟨⟩, s'))
    (hpos : s.pos = (ehdr file).eShoff.toNat) : Intact file shbuf s'.mem := by
  obtain ⟨bs, -, hmem, -, -, hall⟩ := fatFileRead_spec h
  obtain ⟨hbs, hsize⟩ := hall rfl
  intro k hk
  have hlt : k < bs.length := hsize.symm ▸ hk
  rw [hmem, Memory.store_getElem _ _ _ _ hlt]
  show bs[k] = file.getD ((ehdr file).eShoff.toNat + k) 0
  rw [List.getD_eq_getElem?_getD, ← hpos, ← List.getElem?_drop, ← List.getElem?_take_of_lt hk,
    ← hbs, List.getElem?_eq_getElem hlt]
  rfl

/-- The table is read and its sections are placed. -/
theorem loadTable_spec (h : HasTable file → Sane file shbuf) (hlength : ehdrSize ≤ file.length)
    (haccepted : (ehdr file).Accepted) {s s' : Loader} {v : Option (BitVec 32)}
    (hkept : Kept file shbuf s) (hrun : loadTable io file (ehdr file) shbuf s = (v, s')) :
    Kept file shbuf s' ∧
      (v.isSome → ∃ m : Memory Byte, (∀ a, (∀ k < (ehdr file).tableSize, a ≠ shbuf + k) →
          m a = s.mem a) ∧ s'.mem = image file (sections file) m ∧
        Loadable file) := by
  unfold loadTable at hrun
  -- the place of the table
  cases hseek : fatFileSeek io (ehdr file).eShoff s with
  | mk u s₁ =>
    obtain ⟨hmem₁, hwrites₁, hreads₁, hpos⟩ := fatFileSeek_spec hseek
    have hkept₁ : Kept file shbuf s₁ := ⟨hwrites₁ ▸ hkept.writes, hreads₁ ▸ hkept.reads⟩
    cases u with
    | none =>
      cases (Program.bind_of_none hseek).symm.trans hrun
      exact ⟨hkept₁, nofun⟩
    | some _ =>
      rw [Program.bind_of_some hseek] at hrun
      -- the table itself
      cases hread : fatFileRead io file shbuf (ehdr file).tableSize s₁ with
      | mk u s₂ =>
        obtain ⟨bs, hlen, hmem₂, hwrites₂, hreads₂, hall⟩ := fatFileRead_spec hread
        have hkept₂ : Kept file shbuf s₂ :=
          hkept₁.write (Or.inr (Or.inr ⟨Nat.le_refl _, Nat.add_le_add_left hlen _⟩)) hwrites₂
            hreads₂
        cases u with
        | none =>
          cases (Program.bind_of_none hread).symm.trans hrun
          exact ⟨hkept₂, nofun⟩
        | some _ =>
          obtain ⟨hbs, hsize⟩ := hall rfl
          -- it was read in full, so the file has it
          have htable : HasTable file := by
            refine ⟨hlength, haccepted, (hpos rfl).2, ?_⟩
            rw [hbs, List.length_take, List.length_drop, (hpos rfl).1] at hsize
            omega
          have hintact : Intact file shbuf s₂.mem := intact_of_read hread (hpos rfl).1
          rw [Program.bind_of_some hread] at hrun
          -- its sections, one by one
          cases hloop : loadSections io file shbuf (ehdr file).eShnum.toNat 0 s₂ with
          | mk u s₃ =>
            have hplaced := loadSections_spec (h htable) (by omega)
              (fun j hj => absurd hj (Nat.not_lt_zero j)) hkept₂ hintact hloop
            rw [← List.range_eq_range'] at hplaced
            cases u with
            | none =>
              cases (Program.bind_of_none hloop).symm.trans hrun
              exact ⟨hplaced.kept, nofun⟩
            | some _ =>
              cases (Program.bind_of_some hloop).symm.trans hrun
              refine ⟨hplaced.kept, fun _ =>
                ⟨s₂.mem, ?_, hplaced.image rfl, htable, hplaced.loadable rfl⟩⟩
              -- only the table was written before
              intro a ha
              rw [hmem₂, hmem₁]
              refine Memory.store_of_notMem _ rfl fun hmem => ?_
              obtain ⟨hlow, hhigh⟩ := List.mem_range'_1.mp hmem
              exact ha (a - shbuf) (by omega) (by omega)

/-- What the command leaves behind. -/
theorem fatExec_spec
    (hsane : ∀ p, io.malloc (ehdr file).tableSize = some p → HasTable file → Sane file p)
    (m : Memory Byte) {s' : Loader} {v : Option (BitVec 32)}
    (hrun : fatExec io file (start m) = (v, s')) :
    (s'.writes = [] ∧ s'.reads = [] ∧ v = none) ∨
      ∃ p, io.malloc (ehdr file).tableSize = some p ∧ Kept file p s' ∧
        (v.isSome → Loadable file ∧ ∃ m' : Memory Byte,
          (∀ a, (∀ k < (ehdr file).tableSize, a ≠ p + k) → m' a = m a) ∧
            s'.mem = image file (sections file) m') := by
  unfold fatExec at hrun
  cases hread : readEhdr io file (start m) with
  | mk u s₁ =>
    obtain ⟨hmem₁, hwrites₁, hreads₁, hheader⟩ := readEhdr_spec hread
    rcases hheader with rfl | ⟨rfl, hlength⟩
    · cases (Program.bind_of_none hread).symm.trans hrun
      exact Or.inl ⟨hwrites₁, hreads₁, rfl⟩
    · rw [Program.bind_of_some hread] at hrun
      split_ifs at hrun with haccepted
      · cases hmalloc : io.malloc (ehdr file).tableSize with
        | none =>
          rw [hmalloc] at hrun
          cases hrun
          exact Or.inl ⟨hwrites₁, hreads₁, rfl⟩
        | some p =>
          rw [hmalloc] at hrun
          have hkept : Kept file p s₁ := by
            refine ⟨fun w hw => ?_, fun w hw => ?_⟩
            · rw [hwrites₁] at hw
              exact absurd hw List.not_mem_nil
            · rw [hreads₁] at hw
              exact absurd hw List.not_mem_nil
          obtain ⟨hkept', hloaded⟩ :=
            loadTable_spec (hsane p hmalloc) hlength haccepted hkept hrun
          rw [hmem₁] at hloaded
          refine Or.inr ⟨p, rfl, hkept', fun hv => ?_⟩
          obtain ⟨m', hother, himage, hloadable⟩ := hloaded hv
          exact ⟨hloadable, m', hother, himage⟩
      · cases hrun
        exact Or.inl ⟨hwrites₁, hreads₁, rfl⟩

/-! ### A run in which nothing fails -/

/-- A file system without errors, and a heap that returns one block. -/
def quietLoader (shbuf : ℕ) : LoaderIo := ⟨fun _ => none, fun _ => some shbuf⟩

theorem quiet_fatFileSeek {shbuf : ℕ} {offset : BitVec 32} (h : 0 ≤ offset.toInt) (s : Loader) :
    fatFileSeek (quietLoader shbuf) offset s =
      (some ⟨⟩, { s with pos := offset.toNat, calls := s.calls + 1 }) :=
  if_neg (not_or.mpr ⟨not_lt.mpr h, Bool.false_ne_true⟩)

theorem quiet_fatFileRead {shbuf dst len : ℕ} {s : Loader}
    (h : len = 0 ∨ s.pos + len ≤ file.length) :
    (fatFileRead (quietLoader shbuf) file dst len s).1 = some ⟨⟩ := by
  have hbytes : delivered (quietLoader shbuf) file s len = ((file.drop s.pos).take len, true) := rfl
  have hlen : ((file.drop s.pos).take len).length = len := by
    rw [List.length_take, List.length_drop]
    omega
  simp only [fatFileRead, hbytes, hlen, and_self, if_true]

theorem quiet_placeSection {shbuf : ℕ} {secth : Shdr}
    (h : secth.Progbits → secth.Loadable file) (s : Loader) :
    (placeSection (quietLoader shbuf) file secth s).1 = some ⟨⟩ := by
  unfold placeSection
  split_ifs with hload hcheck hzero
  · exact absurd ((checkRamRegions_iff _ _).mpr (Or.inl (h hload).ram)) hcheck
  · rw [Program.bind_of_some (quiet_fatFileSeek (h hload).offset s)]
    exact quiet_fatFileRead (Or.inr (h hload).inFile)
  · rfl
  · rfl

theorem exists_of_fst {σ α : Type} {r : Option α × σ} {a : α} (h : r.1 = some a) :
    ∃ s, r = (some a, s) := ⟨r.2, Prod.ext h rfl⟩

theorem quiet_loadSections (hsane : Sane file shbuf) (h : Loadable file) {n sect : ℕ} {s : Loader}
    (hn : sect + n ≤ (ehdr file).eShnum.toNat) (hkept : Kept file shbuf s)
    (hm : Intact file shbuf s.mem) :
    (loadSections (quietLoader shbuf) file shbuf n sect s).1 = some ⟨⟩ := by
  induction n generalizing sect s with
  | zero => rfl
  | succ n ih =>
    have hk : sect < (ehdr file).eShnum.toNat := by omega
    have hfirst : (loadSection (quietLoader shbuf) file shbuf sect s).1 = some ⟨⟩ := by
      have hread : readShdr (shbuf + sect * shdrSize) s = (some (shdrAt file sect),
          { s with reads := ⟨shbuf + sect * shdrSize + 4, 20⟩ :: s.reads }) := by
        rw [← hm.header hsane hk]
        rfl
      unfold loadSection
      rw [Program.bind_of_some hread]
      exact quiet_placeSection (h.sections _ (section_mem hk)) _
    obtain ⟨s₁, hfirst⟩ := exists_of_fst hfirst
    have hreached : Reached file sect :=
      ⟨hk, fun j hj => h.sections _ (section_mem (hj.trans hk))⟩
    have hplaced := loadSection_spec hsane hkept hm hreached hfirst
    unfold loadSections
    rw [Program.bind_of_some hfirst]
    exact ih (by omega) hplaced.kept hplaced.intact

/-- A file that can be loaded is loaded. -/
theorem quiet_fatExec (hsane : Sane file shbuf) (h : Loadable file) (m : Memory Byte) :
    (fatExec (quietLoader shbuf) file (start m)).1 = some (ehdr file).eEntry := by
  have hheader : (readEhdr (quietLoader shbuf) file (start m)).1 = some (ehdr file) := by
    have hlen : (delivered (quietLoader shbuf) file (start m) ehdrSize).1.length = ehdrSize := by
      show ((file.drop 0).take ehdrSize).length = ehdrSize
      rw [List.length_take, List.drop_zero]
      have hle := h.header
      omega
    cases hread : readEhdr (quietLoader shbuf) file (start m) with
    | mk v s₁ =>
      rcases (readEhdr_spec hread).2.2.2 with rfl | ⟨rfl, -⟩
      · unfold readEhdr at hread
        cases hread.symm.trans (if_pos ⟨rfl, hlen⟩)
      · rfl
  obtain ⟨s₁, hheader⟩ := exists_of_fst hheader
  obtain ⟨hmem₁, hwrites₁, hreads₁, -⟩ := readEhdr_spec hheader
  have hkept₁ : Kept file shbuf s₁ := by
    refine ⟨fun w hw => ?_, fun w hw => ?_⟩
    · rw [hwrites₁] at hw
      exact absurd hw List.not_mem_nil
    · rw [hreads₁] at hw
      exact absurd hw List.not_mem_nil
  unfold fatExec
  rw [Program.bind_of_some hheader, if_pos h.accepted]
  show (loadTable (quietLoader shbuf) file (ehdr file) shbuf s₁).1 = _
  unfold loadTable
  rw [Program.bind_of_some (quiet_fatFileSeek h.offset s₁)]
  have hkept₂ : Kept file shbuf
      { s₁ with pos := (ehdr file).eShoff.toNat, calls := s₁.calls + 1 } :=
    ⟨hkept₁.writes, hkept₁.reads⟩
  generalize hs₂ : { s₁ with pos := (ehdr file).eShoff.toNat, calls := s₁.calls + 1 } = s₂
    at hkept₂ ⊢
  have hpos : s₂.pos = (ehdr file).eShoff.toNat := by rw [← hs₂]
  have htable : (fatFileRead (quietLoader shbuf) file shbuf (ehdr file).tableSize s₂).1 =
      some ⟨⟩ := quiet_fatFileRead (hpos ▸ h.table)
  obtain ⟨s₃, htable⟩ := exists_of_fst htable
  obtain ⟨bs, hlen, -, hwrites₃, hreads₃, -⟩ := fatFileRead_spec htable
  have hkept₃ : Kept file shbuf s₃ :=
    hkept₂.write (Or.inr (Or.inr ⟨Nat.le_refl _, Nat.add_le_add_left hlen _⟩)) hwrites₃ hreads₃
  rw [Program.bind_of_some htable]
  have hloop : (loadSections (quietLoader shbuf) file shbuf (ehdr file).eShnum.toNat 0 s₃).1 =
      some ⟨⟩ :=
    quiet_loadSections hsane h (Nat.le_of_eq (Nat.zero_add _)) hkept₃
      (intact_of_read htable hpos)
  obtain ⟨s₄, hloop⟩ := exists_of_fst hloop
  rw [Program.bind_of_some hloop]
  rfl

/-! ## Section 5: When the sections are loaded -/

/-- Every address of a section to be zeroed that no later section covers gets a zero from the file,
from the last section before it that is loaded there. -/
def ZeroedByFile (file : List Byte) : Prop :=
  ∀ before s after, sections file = before ++ s :: after → s.Nobits → ∀ a, s.Covers a →
    (∀ t ∈ after, t.Progbits ∨ t.Nobits → ¬ t.Covers a) →
      ∃ before₁ t before₂, before = before₁ ++ t :: before₂ ∧ t.Progbits ∧ t.Covers a ∧
        (∀ u ∈ before₂, u.Progbits → ¬ u.Covers a) ∧
          file[t.shOffset.toNat + (a - t.shAddr.toNat)]? = some 0

/-- The last element of a list with a property. -/
theorem exists_last {α : Type} {P : α → Prop} {xs : List α} (h : ∃ x ∈ xs, P x) :
    ∃ ys x zs, xs = ys ++ x :: zs ∧ P x ∧ ∀ z ∈ zs, ¬ P z := by
  induction xs with
  | nil =>
    obtain ⟨x, hx, -⟩ := h
    exact absurd hx List.not_mem_nil
  | cons y xs ih =>
    by_cases hrest : ∃ x ∈ xs, P x
    · obtain ⟨ys, x, zs, rfl, hx, hlast⟩ := ih hrest
      exact ⟨y :: ys, x, zs, rfl, hx, hlast⟩
    · obtain ⟨x, hx, hP⟩ := h
      refine ⟨[], y, xs, rfl, ?_, fun z hz hPz => hrest ⟨z, hz, hPz⟩⟩
      rcases List.mem_cons.mp hx with rfl | hin
      · exact hP
      · exact absurd ⟨x, hin, hP⟩ hrest

theorem not_progbits_of_nobits {s : Shdr} (h : s.Nobits) : ¬ s.Progbits := by
  intro hload
  exact absurd (h.1.symm.trans hload.1) (by decide)

/-- A section to be zeroed is passed over when memory is built up. -/
theorem image_nobits {file : List Byte} {before₁ before₂ after : List Shdr} {s t : Shdr} {a : ℕ}
    (hs : s.Nobits) (hload : t.Progbits) (hfile : t.InFile file) (ha : t.Covers a)
    (hbefore : ∀ u ∈ before₂, u.Progbits → ¬ u.Covers a)
    (hafter : ∀ u ∈ after, u.Progbits → ¬ u.Covers a) (m : Memory Byte) :
    file[t.shOffset.toNat + (a - t.shAddr.toNat)]? =
      some (image file ((before₁ ++ t :: before₂) ++ s :: after) m a) := by
  rw [List.append_assoc, List.cons_append]
  refine image_covered hload hfile ha (fun u hu hprog => ?_) m
  rcases List.mem_append.mp hu with hu | hu
  · exact hbefore u hu hprog
  · rcases List.mem_cons.mp hu with rfl | hu
    · exact absurd hprog (not_progbits_of_nobits hs)
    · exact hafter u hu hprog

theorem mem_split {α : Type} {before after : List α} {x : α} {xs : List α}
    (h : xs = before ++ x :: after) : x ∈ xs := by
  rw [h]
  exact List.mem_append_right _ List.mem_cons_self

/-- Memory that is nowhere zero before shows what is not zeroed. -/
theorem zeroedByFile_of_execOk (hsane : Sane file shbuf) (h : Loadable file)
    (hok : ExecOk (quietLoader shbuf) file fun _ => 1) : ZeroedByFile file := by
  intro before s after hsplit hs a ha hafter
  obtain ⟨s', hrun⟩ := exists_of_fst (quiet_fatExec hsane h fun _ => 1)
  have hzero : s'.mem a = 0 := by
    have hloaded := hok.loaded
    rw [hrun] at hloaded
    exact (hloaded rfl before s after hsplit hs.2 a ha hafter).2 hs.1
  obtain ⟨m', hother, himage⟩ : ∃ m' : Memory Byte,
      (∀ a, (∀ k < (ehdr file).tableSize, a ≠ shbuf + k) → m' a = 1) ∧
        s'.mem = image file (sections file) m' := by
    rcases fatExec_spec (fun p hp _ => (Option.some.inj hp) ▸ hsane) (fun _ => 1) hrun with
      ⟨-, -, hnone⟩ | ⟨p, hp, -, hloaded⟩
    · cases hnone
    · obtain rfl : shbuf = p := Option.some.inj hp
      exact (hloaded rfl).2
  have hafter' : ∀ u ∈ after, u.Progbits → ¬ u.Covers a := fun u hu hprog =>
    hafter u hu (Or.inl hprog)
  rw [himage, hsplit] at hzero
  by_cases hcovered : ∃ t ∈ before, t.Progbits ∧ t.Covers a
  · obtain ⟨before₁, t, before₂, rfl, ⟨hprog, hcov⟩, hlast⟩ := exists_last hcovered
    have hbefore : ∀ u ∈ before₂, u.Progbits → ¬ u.Covers a := fun u hu hprog' hcov' =>
      hlast u hu ⟨hprog', hcov'⟩
    have htmem : t ∈ sections file := mem_split (hsplit.trans (List.append_assoc ..))
    refine ⟨before₁, t, before₂, rfl, hprog, hcov, hbefore, ?_⟩
    rw [image_nobits hs hprog (h.sections t htmem hprog).inFile hcov hbefore hafter' m', hzero]
  · -- nothing was loaded there: the old byte is still in memory
    have hkeep : image file (before ++ s :: after) m' a = m' a := by
      refine image_keeps (fun u hu hprog => ?_) m'
      rcases List.mem_append.mp hu with hu | hu
      · exact fun hcov => hcovered ⟨u, hu, hprog, hcov⟩
      · rcases List.mem_cons.mp hu with rfl | hu
        · exact absurd hprog (not_progbits_of_nobits hs)
        · exact hafter' u hu hprog
    have hold : m' a = 1 := by
      obtain ⟨k, hreached, rfl⟩ := reached_of_loadable h (mem_split hsplit)
      exact hother a fun i hi hai => hsane.apart k hreached (Or.inr hs) i hi (hai ▸ ha)
    rw [hkeep, hold] at hzero
    exact absurd hzero (by decide)

/-- If the file has the zeros, every section is as it should be. -/
theorem sectionsLoaded_of_zeroed (h : Loadable file) (hzeroed : ZeroedByFile file)
    (m : Memory Byte) : SectionsLoaded file (image file (sections file) m) := by
  intro before s after hsplit hactive a ha hafter
  have hafter' : ∀ u ∈ after, u.Progbits → ¬ u.Covers a := fun u hu hprog =>
    hafter u hu (Or.inl hprog)
  refine ⟨fun htype => ?_, fun htype => ?_⟩
  · rw [hsplit]
    exact image_covered ⟨htype, hactive⟩
      (h.sections s (mem_split hsplit) ⟨htype, hactive⟩).inFile ha hafter' m
  · have hs : s.Nobits := ⟨htype, hactive⟩
    obtain ⟨before₁, t, before₂, rfl, hprog, hcov, hbefore, hbyte⟩ :=
      hzeroed before s after hsplit hs a ha hafter
    have htmem : t ∈ sections file := mem_split (hsplit.trans (List.append_assoc ..))
    rw [image_nobits hs hprog (h.sections t htmem hprog).inFile hcov hbefore hafter' m,
      ← hsplit] at hbyte
    exact Option.some.inj hbyte

theorem execOk_of_zeroed (hsane : HasTable file → Sane file shbuf)
    (hzeroed : Loadable file → ZeroedByFile file) (m : Memory Byte)
    (hmalloc : ∀ p, io.malloc (ehdr file).tableSize = some p → p = shbuf) :
    ExecOk io file m := by
  cases hrun : fatExec io file (start m) with
  | mk v s' =>
    rcases fatExec_spec (fun p hp => hmalloc p hp ▸ hsane) m hrun with
      ⟨hwrites, hreads, rfl⟩ | ⟨p, hp, hkept, hloaded⟩
    · -- it gave up before it touched the memory
      refine ⟨?_, ?_, ?_⟩ <;> rw [hrun]
      · intro w hw
        rw [hwrites] at hw
        exact absurd hw List.not_mem_nil
      · intro w hw
        rw [hreads] at hw
        exact absurd hw List.not_mem_nil
      · exact nofun
    · obtain ⟨hwrites, hreads⟩ := hkept.mayWrite hp
      refine ⟨?_, ?_, ?_⟩ <;> rw [hrun]
      · exact hwrites
      · exact hreads
      · intro hv
        obtain ⟨hloadable, m', -, himage⟩ := hloaded hv
        rw [himage]
        exact sectionsLoaded_of_zeroed hloadable (hzeroed hloadable) m'

/-- An executable with one section of the given type: four bytes at 0x80005000. -/
def oneSection (shType : Byte) : List Byte :=
  [0x7f, 0x45, 0x4c, 0x46, 1, 1, 1, 0] ++ List.replicate 8 0 ++ [2, 0, 0xf3, 0, 1, 0, 0, 0] ++
    -- entry, program headers, section headers, flags
    [0, 0x50, 0, 0x80] ++ [0, 0, 0, 0] ++ [52, 0, 0, 0] ++ [0, 0, 0, 0] ++
    [52, 0, 0, 0, 0, 0, 40, 0, 1, 0, 0, 0] ++
    -- the section header and the data
    [0, 0, 0, 0, shType, 0, 0, 0, 3, 0, 0, 0, 0, 0x50, 0, 0x80, 92, 0, 0, 0, 4, 0, 0, 0] ++
    List.replicate 16 0 ++ [1, 2, 3, 4]

theorem sane_oneSection {shType : Byte} (h : shType = 1 ∨ shType = 8) :
    Sane (oneSection shType) 0x80003000 := by
  have hfirst : ∀ k, Reached (oneSection shType) k → k = 0 := by
    rintro k ⟨hk, -⟩
    have hone : (ehdr (oneSection shType)).eShnum.toNat = 1 := by
      rcases h with rfl | rfl <;> decide +kernel
    exact Nat.lt_one_iff.mp (hone ▸ hk)
  refine ⟨?_, fun k hk _ => ?_, fun k hk _ => ?_, fun k hk _ => ?_⟩
  · rcases h with rfl | rfl <;> decide +kernel
  all_goals
    rw [hfirst k hk]
    rcases h with rfl | rfl <;> decide +kernel

end Karnix.Cli.Elf
