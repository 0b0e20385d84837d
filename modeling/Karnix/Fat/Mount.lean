import Karnix.Fat.Buffer
import Mathlib.Data.Nat.ModEq
import Mathlib.Tactic.IntervalCases

/-!
# The FAT driver: mounting

`fat.c` from `get_part_lba` to `fat_mount`.  A volume is mounted from three sectors, of which
nothing is known: the boot sector of the disk, that of the partition, and `FsInfo`.  What the
volume then is to be follows from the format, and the mount meets it on some contents only: it
divides by the size of a cluster before it knows it to be a number other than zero, takes any
such number for a power of two, reads bit 7 of `ext_flags` the other way round, never sees that
clusters may start anywhere, and leaves the flags of the new `Fat` as `malloc` has left them.
-/

namespace Karnix.Fat

open Karnix.Library
open Program (Keeps)
open Fallible (Succeeds Ends keeps_then keeps_modify)

/-! ## Section 1: What the sectors say -/

/-- The members of `Bpb` that are read. -/
structure Bpb where
  jump : Byte
  bytesPerSect : ℕ
  sectPerClust : ℕ
  resSectCnt : ℕ
  fatCnt : ℕ
  rootEntCnt : ℕ
  sectCnt16 : ℕ
  sectPerFat16 : ℕ
  sectCnt32 : ℕ
  sectPerFat32 : ℕ
  extFlags : BitVec 16
  rootCluster : ℕ
  infoSect : ℕ
  fsType : List Byte
  deriving DecidableEq

/-- `uint16_t` and `uint32_t` members of a packed structure. -/
def half (buf : Sector) (off : ℕ) : BitVec 16 := be16 (buf (off + 1)) (buf off)
def word (buf : Sector) (off : ℕ) : BitVec 32 := leWord (buf.load off 4)

/-- `(Bpb*)buf`: the members of the boot sector, from the bytes of a sector. -/
def bpbOf (buf : Sector) : Bpb where
  jump := buf 0
  bytesPerSect := (half buf 11).toNat
  sectPerClust := (buf 13).toNat
  resSectCnt := (half buf 14).toNat
  fatCnt := (buf 16).toNat
  rootEntCnt := (half buf 17).toNat
  sectCnt16 := (half buf 19).toNat
  sectPerFat16 := (half buf 22).toNat
  sectCnt32 := (word buf 32).toNat
  sectPerFat32 := (word buf 36).toNat
  extFlags := half buf 40
  rootCluster := (word buf 44).toNat
  infoSect := (half buf 48).toNat
  fsType := buf.load 82 8

/-- `"FAT32   "` -/
def fat32Name : List Byte := [0x46, 0x41, 0x54, 0x33, 0x32, 0x20, 0x20, 0x20]

/-- The tests of `check_fat` on which it returns false. -/
def Bpb.Rejected (bpb : Bpb) : Prop :=
  (bpb.jump ≠ 0xeb ∧ bpb.jump ≠ 0xe9) ∨
  bpb.fatCnt ≠ 2 ∨
  (bpb.rootEntCnt ≠ 0 ∨ bpb.sectCnt16 ≠ 0 ∨ bpb.sectPerFat16 ≠ 0) ∨
  bpb.infoSect ≠ 1 ∨
  bpb.fsType ≠ fat32Name ∨
  bpb.bytesPerSect ≠ 512 ∨
  (bpb.extFlags &&& 0x80 = 0 ∧ 1 < bpb.extFlags &&& 0x0f)

instance (bpb : Bpb) : Decidable bpb.Rejected := inferInstanceAs (Decidable (_ ∨ _))

/-- `sect_cnt`, the sectors that hold clusters. -/
def Bpb.sectCnt (bpb : Bpb) : ℕ :=
  u32 (bpb.sectCnt32 + (0x100000000 - u32 (bpb.resSectCnt + bpb.fatCnt * bpb.sectPerFat32)))

/-- `check_fat`; nothing where it divides by zero. -/
def checkFat (bpb : Bpb) : Option Bool :=
  if bpb.Rejected then some false
  else if bpb.sectPerClust = 0 then none
  else some (decide (65525 ≤ bpb.sectCnt / bpb.sectPerClust))

/-- `get_part_lba`: where a partition begins, if the sector has a signature and the partition is
one of FAT32. -/
def getPartLba (buf : Sector) (partition : Fin 4) : Option ℕ :=
  if half buf 510 ≠ 0xaa55 then none
  else if buf (446 + 16 * partition + 4) ≠ 0x0c then none
  else some (word buf (446 + 16 * partition + 8)).toNat

/-- `__builtin_ctz`: the number of the lowest bit that is set. -/
def ctz (n : ℕ) : ℕ := (List.range 32).findIdx n.testBit

/-- The tests of `fat_mount` on `FsInfo`. -/
def InfoOk (buf : Sector) : Prop :=
  word buf 508 = 0xaa550000 ∧ word buf 0 = 0x41615252 ∧ word buf 484 = 0x61417272 ∧
    word buf 492 ≠ 0xffffffff ∧ word buf 488 ≠ 0xffffffff

instance (buf : Sector) : Decidable (InfoOk buf) := inferInstanceAs (Decidable (_ ∧ _))

/-! ## Section 2: `fat_mount` -/

variable (ops : DiskOps) (partition : Fin 4) (name : List Byte)

/-- `ops->read(dev, g_buf, sect)`: a sector goes to the global buffer, or garbage if the disk
fails. -/
def readGlobal (sect : ℕ) : FatM Bool := fun s =>
  match ops.read s.calls with
  | none => (some (.ok true), { s with gBuf := s.disk sect, calls := s.calls + 1 })
  | some garbage => (some (.ok false), { s with gBuf := garbage, calls := s.calls + 1 })

/-- `check_fat(g_buf)`: what `check_fat` says of the sector in the global buffer. -/
def checkGlobal : FatM Bool := do
  let gBuf ← .read State.gBuf
  match checkFat (bpbOf gBuf) with
  | some ok => pure ok
  | none => .abort

/-- The part of `probe` for a disk with a partition table, which is in `g_buf`. -/
def probePart : FatM ℕ := do
  let gBuf ← .read State.gBuf
  match getPartLba gBuf partition with
  | none => .throw .noFat
  | some lba => do
    let ok ← readGlobal ops lba
    if !ok then .throw .io
    else do
      let ok ← checkGlobal
      if ok then pure lba else .throw .noFat

/-- `probe`: the first sector is the boot sector of the volume, or that of the partitions. -/
def probe : FatM ℕ := do
  let ok ← readGlobal ops 0
  if !ok then .throw .io
  else do
    let ok ← checkGlobal
    if ok then if partition = 0 then pure 0 else .throw .noFat
    else probePart ops partition

/-- What `fat_mount` makes of the boot sector: `mirror` is bit 7 of `ext_flags`, and `use_first`
bit 0. -/
def Bpb.volume (bpb : Bpb) (lba : ℕ) : Volume :=
  let mirror := bpb.extFlags &&& 0x80 ≠ 0
  let useFirst := bpb.extFlags &&& 1 = 0
  let fat0 := u32 (lba + bpb.resSectCnt)
  let fat1 := u32 (lba + bpb.resSectCnt + bpb.sectPerFat32)
  { ops := ops
    clustMsk := u32 (bpb.sectPerClust + 0xffffffff)
    clustCnt := u32 (bpb.sectPerFat32 * 128)
    infoSect := u32 (lba + bpb.infoSect)
    fatSect := if useFirst then fat0 else fat1
    mirrorSect := if mirror then if useFirst then fat1 else fat0 else 0
    dataSect := u32 (lba + bpb.resSectCnt + bpb.fatCnt * bpb.sectPerFat32)
    rootClust := bpb.rootCluster
    clustShift := ctz bpb.sectPerClust
    name := name }

/-- The part of `fat_mount` for `FsInfo`, which is in `g_buf`, and the name.  `malloc` has left
something in the members of `Fat`, and no flag is set or cleared. -/
def takeInfo (v : Volume) : FatM Volume := do
  let gBuf ← .read State.gBuf
  if ¬ InfoOk gBuf then .throw .noFat
  else do
    .modify fun s => { s with lastUsed := (word gBuf 492).toNat, freeCnt := word gBuf 488 }
    if name.length > 32 then .throw .param
    else do
      .modify fun s => { s with sect := 0 }
      pure v

/-- The part of `fat_mount` behind `probe`. -/
def loadInfo (v : Volume) : FatM Volume := do
  let ok ← readGlobal ops v.infoSect
  if !ok then .throw .io else takeInfo name v

/-- `fat_mount`: find the volume, take its geometry from the boot sector, and `FsInfo`. -/
def fatMount : FatM Volume := do
  let lba ← probe ops partition
  let gBuf ← .read State.gBuf
  loadInfo ops name ((bpbOf gBuf).volume ops name lba)

/-! ## Section 3: What a mounted volume is to be -/

section Format

variable (bpb : Bpb) (lba : ℕ)

/-- The boot sector of a partition: of the entire disk if that is formatted FAT32, which is
partition 0 then, or the sector that the partition table names. -/
def BootAt (disk : ℕ → Sector) (partition : Fin 4) (lba : ℕ) : Prop :=
  (checkFat (bpbOf (disk 0)) = some true ∧ partition = 0 ∧ lba = 0) ∨
  (checkFat (bpbOf (disk 0)) = some false ∧ getPartLba (disk 0) partition = some lba)

/-- The first sector of a FAT. -/
def Bpb.fatAt (n : ℕ) : ℕ := u32 (lba + bpb.resSectCnt + n * bpb.sectPerFat32)

/-- The first sector that holds clusters. -/
def Bpb.dataAt : ℕ := u32 (lba + bpb.resSectCnt + bpb.fatCnt * bpb.sectPerFat32)

/-- FAT32 mirrors what is written to one FAT into the other unless bit 7 of `ext_flags` is set. -/
def Bpb.Mirrored : Prop := bpb.extFlags &&& 0x80 = 0

/-- If it is set, bits 0 to 3 are the number of the only FAT that is in use. -/
def Bpb.active : ℕ := (bpb.extFlags &&& 0x0f).toNat

instance : Decidable bpb.Mirrored := inferInstanceAs (Decidable (_ = _))

/-- The FATs that the volume reads and writes; it writes one FAT only if `fat_sect[1]` is 0. -/
def Volume.FollowsFats (v : Volume) : Prop :=
  if bpb.Mirrored then
    v.mirrorSect ≠ 0 ∧
      ((v.fatSect = bpb.fatAt lba 0 ∧ v.mirrorSect = bpb.fatAt lba 1) ∨
        (v.fatSect = bpb.fatAt lba 1 ∧ v.mirrorSect = bpb.fatAt lba 0))
  else v.fatSect = bpb.fatAt lba bpb.active ∧ v.mirrorSect = 0

end Format

variable (v : Volume)

/-- Entry `i` of a cluster. -/
def Volume.entryAt (dir : Dir) (clust i : ℕ) : Dir :=
  { dir with clust := clust, sect := u32 (v.clustToSect clust + i / 16), idx := i % 16 * 32 }

/-- On to the first entry of the cluster that the FAT has next. -/
def crossCluster (dir : Dir) : FatM Dir := do
  let r ← getFat v dir.clust
  if r.2 = .bad ∨ r.2 = .free then .throw .broken
  else if r.2 = .last then .throw .eof
  else pure (v.dirAtClust dir r.1)

/-- A walk through a directory goes through the entries of `n` sectors, of sixteen entries each,
and crosses to the next cluster behind them. -/
def Volume.WalksBy (n : ℕ) : Prop :=
  ∀ (dir : Dir) (clust : ℕ) (s : State),
    (∀ i, i < 16 * n → dirAdvance v i (v.dirAtClust dir clust) s =
      (some (.ok (v.entryAt dir clust i)), s)) ∧
    dirAdvance v (16 * n) (v.dirAtClust dir clust) s = crossCluster v (v.dirAtClust dir clust) s

/-- Whatever operation comes first: it finds nothing to be flushed. -/
structure State.Clean (s : State) : Prop where
  bufDirty : s.bufDirty = false
  infoDirty : s.infoDirty = false
  updateBuf : ∀ sect, (updateBuf v sect s).2.writes = s.writes
  syncFs : (syncFs v s).2.writes = s.writes

/-- A volume as the boot sector `bpb` in sector `lba` describes it. -/
structure WellMounted (bpb : Bpb) (lba : ℕ) (s : State) : Prop where
  cluster : ∃ k, bpb.sectPerClust = 2 ^ k ∧ v.clustShift = k ∧ v.clustMsk = 2 ^ k - 1
  fats : v.FollowsFats bpb lba
  infoSect : v.infoSect = u32 (lba + bpb.infoSect)
  dataSect : v.dataSect = bpb.dataAt lba
  walks : v.WalksBy bpb.sectPerClust
  clean : s.Clean v

/-- The mount ends, that is, it does not divide by zero; it writes nothing; and it fails or
leaves the volume as the boot sector describes it. -/
def MountSafe (s : State) : Prop :=
  Ends (fatMount ops partition name) s fun r s' =>
    s'.disk = s.disk ∧ s'.writes = s.writes ∧
      ∀ v, r = .ok v → ∃ lba, BootAt s.disk partition lba ∧
        WellMounted v (bpbOf (s.disk lba)) lba s'

/-! ## Section 4: When the mount goes right -/

/-- The sector that is checked is one of FAT32 whose clusters have no sectors. -/
def Divides (s : State) : Prop :=
  ops.read s.calls = none ∧
    (checkFat (bpbOf (s.disk 0)) = none ∨
      (checkFat (bpbOf (s.disk 0)) = some false ∧ ∃ lba,
        getPartLba (s.disk 0) partition = some lba ∧ ops.read (s.calls + 1) = none ∧
          checkFat (bpbOf (s.disk lba)) = none))

/-- The boot sector in sector `lba` is accepted, after so many calls of the disk operations. -/
def Boots (s : State) (lba calls : ℕ) : Prop :=
  ops.read s.calls = none ∧
    ((checkFat (bpbOf (s.disk 0)) = some true ∧ partition = 0 ∧ lba = 0 ∧ calls = s.calls + 1) ∨
      (checkFat (bpbOf (s.disk 0)) = some false ∧ getPartLba (s.disk 0) partition = some lba ∧
        ops.read (s.calls + 1) = none ∧ checkFat (bpbOf (s.disk lba)) = some true ∧
        calls = s.calls + 2))

/-- `FsInfo` and the name are accepted as well. -/
def Accepts (s : State) (lba : ℕ) : Prop :=
  ∃ calls, Boots ops partition s lba calls ∧ ops.read calls = none ∧
    InfoOk (s.disk (u32 (lba + (bpbOf (s.disk lba)).infoSect))) ∧ name.length ≤ 32

/-- Bit 0 of `ext_flags`. -/
def Bpb.second (bpb : Bpb) : ℕ := (bpb.extFlags &&& 1).toNat

/-- What the driver takes for granted of a boot sector.  It writes to both FATs if bit 7 is set,
unless the other one starts in sector 0. -/
structure Bpb.Suits (bpb : Bpb) (lba : ℕ) : Prop where
  cluster : ∃ k, bpb.sectPerClust = 2 ^ k
  unmirrored : ¬ bpb.Mirrored
  noOther : bpb.fatAt lba (1 - bpb.second) = 0
  active : bpb.fatAt lba bpb.second = bpb.fatAt lba bpb.active
  aligned : bpb.sectPerClust ∣ bpb.dataAt lba

/-! ## Section 5: Walking through a cluster -/

section Walking

variable {v} {k : ℕ} {dir : Dir} {clust : ℕ}

/-- The test of `dir_next`, for clusters of `2 ^ k` sectors. -/
theorem sect_and_mask (hk : k ≤ 32) (hshift : v.clustShift = k) (hmsk : v.clustMsk = 2 ^ k - 1)
    (clust j : ℕ) : u32 (u32 (v.clustToSect clust + j) + 1) &&& v.clustMsk =
      (v.dataSect + (j + 1)) % 2 ^ k := by
  have hu : ∀ n, u32 n ≡ n [MOD 2 ^ k] := fun n => Nat.mod_mod_of_dvd n (pow_dvd_pow 2 hk)
  have hstart : v.clustToSect clust ≡ v.dataSect [MOD 2 ^ k] := by
    rw [Volume.clustToSect, hshift]
    exact (hu _).trans (Nat.mul_add_mod_self_right _ _ _)
  rw [hmsk, Nat.and_two_pow_sub_one_eq_mod]
  calc u32 (u32 (v.clustToSect clust + j) + 1) ≡ u32 (v.clustToSect clust + j) + 1 [MOD 2 ^ k] :=
        hu _
    _ ≡ v.clustToSect clust + j + 1 [MOD 2 ^ k] := (hu _).add_right 1
    _ ≡ v.dataSect + (j + 1) [MOD 2 ^ k] := hstart.add_right (j + 1)

theorem dirAtClust_eq : v.dirAtClust dir clust = v.entryAt dir clust 0 := by
  have hu : u32 (v.clustToSect clust) = v.clustToSect clust := Nat.mod_mod _ _
  rw [Volume.dirAtClust, Volume.entryAt, Nat.zero_div, Nat.add_zero, hu]

/-- Behind an entry that is not the last one of its sector is the next one. -/
theorem dirNext_inside {i : ℕ} (hi : i % 16 ≠ 15) :
    dirNext v (v.entryAt dir clust i) = pure (v.entryAt dir clust (i + 1)) := by
  have hidx : i % 16 * 32 + 32 < 512 := by omega
  have hsect : (i + 1) / 16 = i / 16 := by omega
  have hnext : (i + 1) % 16 * 32 = i % 16 * 32 + 32 := by omega
  have hdir : { v.entryAt dir clust i with idx := i % 16 * 32 + 32 } =
      v.entryAt dir clust (i + 1) := by
    rw [Volume.entryAt, Volume.entryAt, hsect, hnext]
  exact (if_pos hidx).trans (congrArg pure hdir)

theorem dirNext_of_ge {d : Dir} (h : ¬ d.idx + 32 < 512) :
    dirNext v d =
      if u32 (d.sect + 1) &&& v.clustMsk ≠ 0 then pure { d with sect := u32 (d.sect + 1), idx := 0 }
      else crossCluster v d := if_neg h

/-- Behind the last one of a sector, the mask decides. -/
theorem dirNext_edge {i : ℕ} (hi : i % 16 = 15) :
    dirNext v (v.entryAt dir clust i) =
      if u32 (u32 (v.clustToSect clust + i / 16) + 1) &&& v.clustMsk ≠ 0 then
        pure (v.entryAt dir clust (i + 1))
      else crossCluster v (v.dirAtClust dir clust) := by
  have hidx : ¬ (v.entryAt dir clust i).idx + 32 < 512 := by
    show ¬ i % 16 * 32 + 32 < 512
    omega
  have hsect : (i + 1) / 16 = i / 16 + 1 := by omega
  have hnext : (i + 1) % 16 * 32 = 0 := by omega
  have hu : u32 (u32 (v.clustToSect clust + i / 16) + 1) =
      u32 (v.clustToSect clust + (i / 16 + 1)) := Nat.mod_add_mod _ _ _
  have hentry : v.entryAt dir clust (i + 1) =
      ⟨dir.sclust, clust, u32 (u32 (v.clustToSect clust + i / 16) + 1), 0⟩ := by
    rw [Volume.entryAt, hsect, hnext, hu]
  have hcross : crossCluster v (v.entryAt dir clust i) =
      crossCluster v (v.dirAtClust dir clust) := by
    simp only [crossCluster, Volume.entryAt, Volume.dirAtClust]
  have hhere : (v.entryAt dir clust i).sect = u32 (v.clustToSect clust + i / 16) := rfl
  rw [dirNext_of_ge hidx, hcross, hentry, hhere]
  rfl

/-- **Step lemma.** Inside a cluster the next entry follows, if clusters start at multiples of
their size. -/
theorem dirNext_entryAt (hk : k ≤ 32) (hshift : v.clustShift = k) (hmsk : v.clustMsk = 2 ^ k - 1)
    (haligned : 2 ^ k ∣ v.dataSect) {i : ℕ} (hi : i + 1 < 16 * 2 ^ k) :
    dirNext v (v.entryAt dir clust i) = pure (v.entryAt dir clust (i + 1)) := by
  by_cases hedge : i % 16 = 15
  · have hin : i / 16 + 1 < 2 ^ k := by omega
    have hmask := sect_and_mask hk hshift hmsk clust (i / 16)
    rw [Nat.add_mod, Nat.mod_eq_zero_of_dvd haligned, Nat.zero_add, Nat.mod_mod,
      Nat.mod_eq_of_lt hin] at hmask
    rw [dirNext_edge hedge, hmask]
    exact if_pos (Nat.succ_ne_zero _)
  · exact dirNext_inside hedge

/-- Behind the last entry of a cluster, the walk crosses to the next one. -/
theorem dirNext_last (hk : k ≤ 32) (hshift : v.clustShift = k) (hmsk : v.clustMsk = 2 ^ k - 1)
    (haligned : 2 ^ k ∣ v.dataSect) {i : ℕ} (hi : i + 1 = 16 * 2 ^ k) :
    dirNext v (v.entryAt dir clust i) = crossCluster v (v.dirAtClust dir clust) := by
  have hedge : i % 16 = 15 := by omega
  have hend : i / 16 + 1 = 2 ^ k := by omega
  have hmask := sect_and_mask hk hshift hmsk clust (i / 16)
  rw [hend, Nat.add_mod_right, Nat.mod_eq_zero_of_dvd haligned] at hmask
  rw [dirNext_edge hedge, hmask]
  exact if_neg (not_not_intro rfl)

theorem dirAdvance_succ {n : ℕ} {s s' : State} {dir dir' : Dir}
    (h : dirNext v dir s = (some (.ok dir'), s')) :
    dirAdvance v (n + 1) dir s = dirAdvance v n dir' s' := by
  rw [dirAdvance, Fallible.bind_of_ok h]

/-- The last of some steps. -/
theorem dirAdvance_snoc {n : ℕ} {s s' : State} {dir dir' : Dir}
    (h : dirAdvance v n dir s = (some (.ok dir'), s')) :
    dirAdvance v (n + 1) dir s = dirNext v dir' s' := by
  induction n generalizing dir s with
  | zero =>
    obtain ⟨rfl, rfl⟩ : dir = dir' ∧ s = s' := by
      cases h
      exact ⟨rfl, rfl⟩
    rcases hrun : dirNext v dir s with ⟨_ | e | d, s₁⟩
    · rw [dirAdvance, Fallible.bind_of_none hrun]
    · rw [dirAdvance, Fallible.bind_of_error hrun]
    · rw [dirAdvance_succ hrun]
      rfl
  | succ n ih =>
    obtain ⟨d, s₁, hrun, hrest⟩ := Fallible.exists_of_bind_ok h
    rw [dirAdvance_succ hrun]
    exact ih hrest

/-- **Run lemma.** The walk through the entries of a cluster. -/
theorem dirAdvance_entryAt (hk : k ≤ 32) (hshift : v.clustShift = k)
    (hmsk : v.clustMsk = 2 ^ k - 1) (haligned : 2 ^ k ∣ v.dataSect) (s : State) {i : ℕ}
    (hi : i < 16 * 2 ^ k) :
    dirAdvance v i (v.dirAtClust dir clust) s = (some (.ok (v.entryAt dir clust i)), s) := by
  induction i with
  | zero => rw [dirAtClust_eq, dirAdvance, Fallible.pure_apply]
  | succ i ih =>
    rw [dirAdvance_snoc (ih (Nat.lt_of_succ_lt hi)), dirNext_entryAt hk hshift hmsk haligned hi,
      Fallible.pure_apply]

theorem walksBy_of_dvd (hk : k ≤ 32) (hshift : v.clustShift = k) (hmsk : v.clustMsk = 2 ^ k - 1)
    (haligned : 2 ^ k ∣ v.dataSect) : v.WalksBy (2 ^ k) := by
  intro dir clust s
  refine ⟨fun i hi => dirAdvance_entryAt hk hshift hmsk haligned s hi, ?_⟩
  obtain ⟨i, hi⟩ : ∃ i, i + 1 = 16 * 2 ^ k := ⟨16 * 2 ^ k - 1, by have := Nat.two_pow_pos k; omega⟩
  rw [← hi, dirAdvance_snoc (dirAdvance_entryAt hk hshift hmsk haligned s (by omega)),
    dirNext_last hk hshift hmsk haligned hi]

/-- A state in which the FAT ends every chain: its first sector is in the buffer. -/
def State.endOfChains (v : Volume) (s : State) : State :=
  { s with sect := u32 v.fatSect, buf := fun _ => 0xff }

theorem crossCluster_endOfChains (dir : Dir) (s : State) :
    crossCluster v (v.dirAtClust dir 2) (s.endOfChains v) =
      (some (.error .eof), s.endOfChains v) := by
  have hbuf : updateBuf v (u32 v.fatSect) (s.endOfChains v) =
      (some (.ok ⟨⟩), s.endOfChains v) := by
    rw [updateBuf, Fallible.read_bind]
    exact congrFun (if_neg (not_not_intro rfl)) _
  have hval : entryVal (item (s.endOfChains v).buf 2) = 0x0fffffff := by
    show entryVal (item (fun _ => 0xff) 2) = _
    decide
  have hkind : v.kindOf 0x0fffffff = some .last := by simp [Volume.kindOf]
  have hget : getFat v 2 (s.endOfChains v) =
      (some (.ok (0x0fffffff, .last)), s.endOfChains v) := by
    have hsect : u32 (v.fatSect + 2 / 128) = u32 v.fatSect := rfl
    rw [getFat, hsect, Fallible.bind_of_ok hbuf, Fallible.read_bind]
    simp only [id, Nat.reduceMod, hval, hkind]
    rfl
  rw [crossCluster, Volume.dirAtClust, Fallible.bind_of_ok hget]
  rfl

/-- Clusters that start anywhere else are left too early. -/
theorem dvd_of_walksBy (hk : k ≤ 32) (hshift : v.clustShift = k) (hmsk : v.clustMsk = 2 ^ k - 1)
    (s : State) (h : v.WalksBy (2 ^ k)) : 2 ^ k ∣ v.dataSect := by
  by_contra hnot
  have hpos : 0 < v.dataSect % 2 ^ k :=
    Nat.pos_of_ne_zero fun h0 => hnot (Nat.dvd_of_mod_eq_zero h0)
  have hlt : v.dataSect % 2 ^ k < 2 ^ k := Nat.mod_lt _ (Nat.two_pow_pos k)
  -- the sector of the first cluster whose number behind it is a multiple of the size
  obtain ⟨j, hj⟩ : ∃ j, v.dataSect % 2 ^ k + (j + 1) = 2 ^ k :=
    ⟨2 ^ k - v.dataSect % 2 ^ k - 1, by omega⟩
  have hmask := sect_and_mask hk hshift hmsk 2 j
  rw [← Nat.mod_add_mod, hj, Nat.mod_self] at hmask
  have hedge : (16 * j + 15) % 16 = 15 := by omega
  have hj' : (16 * j + 15) / 16 = j := by omega
  have hwalk := (h ⟨0, 0, 0, 0⟩ 2 (s.endOfChains v)).1
  have hstay := hwalk (16 * j + 15 + 1) (by omega)
  rw [dirAdvance_snoc (hwalk (16 * j + 15) (by omega)), dirNext_edge hedge, hj', hmask,
    if_neg (not_not_intro rfl), crossCluster_endOfChains] at hstay
  cases hstay

end Walking

/-! ## Section 6: What the mount does -/

section Runs

variable {ops partition name} {s : State}

/-- The state once a sector has been read to the global buffer. -/
def State.loaded (s : State) (gBuf : Sector) : State :=
  { s with gBuf := gBuf, calls := s.calls + 1 }

theorem readGlobal_ok (h : ops.read s.calls = none) (sect : ℕ) :
    readGlobal ops sect s = (some (.ok true), s.loaded (s.disk sect)) := by
  rw [readGlobal, h]
  rfl

theorem readGlobal_failed {garbage : Sector} (h : ops.read s.calls = some garbage) (sect : ℕ) :
    readGlobal ops sect s = (some (.ok false), s.loaded garbage) := by
  rw [readGlobal, h]
  rfl

theorem checkGlobal_ok {gBuf : Sector} {ok : Bool} (h : checkFat (bpbOf gBuf) = some ok) :
    checkGlobal (s.loaded gBuf) = (some (.ok ok), s.loaded gBuf) := by
  have hgBuf : checkFat (bpbOf (s.loaded gBuf).gBuf) = some ok := h
  rw [checkGlobal, Fallible.read_bind, hgBuf]
  rfl

theorem checkGlobal_divides {gBuf : Sector} (h : checkFat (bpbOf gBuf) = none) :
    checkGlobal (s.loaded gBuf) = (none, s.loaded gBuf) := by
  have hgBuf : checkFat (bpbOf (s.loaded gBuf).gBuf) = none := h
  rw [checkGlobal, Fallible.read_bind, hgBuf]
  rfl

/-- Nothing on the disk has changed, and the flags are as they were. -/
structure Untouched (s s' : State) : Prop where
  disk : s'.disk = s.disk
  writes : s'.writes = s.writes
  bufDirty : s'.bufDirty = s.bufDirty
  infoDirty : s'.infoDirty = s.infoDirty

instance : IsPreorder State Untouched where
  refl _ := ⟨rfl, rfl, rfl, rfl⟩
  trans _ _ _ h h' := ⟨h'.disk.trans h.disk, h'.writes.trans h.writes,
    h'.bufDirty.trans h.bufDirty, h'.infoDirty.trans h.infoDirty⟩

instance keeps_untouched_readGlobal (sect : ℕ) : Keeps Untouched (readGlobal ops sect) := by
  constructor
  intro s
  rw [readGlobal]
  split <;> exact ⟨rfl, rfl, rfl, rfl⟩

instance keeps_untouched_checkGlobal : Keeps Untouched checkGlobal := by
  refine keeps_then fun gBuf => ?_
  cases checkFat (bpbOf gBuf) with
  | none => exact Fallible.keeps_abort
  | some ok => exact Fallible.keeps_pure _

instance keeps_untouched_probe : Keeps Untouched (probe ops partition) := by
  have hpart : Keeps Untouched (probePart ops partition) := by
    refine keeps_then fun gBuf => ?_
    cases getPartLba gBuf partition with
    | none => exact Fallible.keeps_throw _
    | some lba => infer_instance
  unfold probe
  infer_instance

/-- The mount changes neither the disk nor the flags. -/
instance keeps_untouched_fatMount : Keeps Untouched (fatMount ops partition name) := by
  have hinfo : ∀ gBuf, Keeps Untouched (Fallible.modify fun s : State =>
      { s with lastUsed := (word gBuf 492).toNat, freeCnt := word gBuf 488 } : FatM PUnit) :=
    fun _ => keeps_modify fun _ => ⟨rfl, rfl, rfl, rfl⟩
  have hsect : Keeps Untouched (Fallible.modify fun s : State => { s with sect := 0 } :
      FatM PUnit) := keeps_modify fun _ => ⟨rfl, rfl, rfl, rfl⟩
  unfold fatMount loadInfo takeInfo
  infer_instance

/-- The sector that the partition table names. -/
theorem probePart_read {lba : ℕ} {ok : Bool} (hpart : getPartLba (s.disk 0) partition = some lba)
    (hread : ops.read (s.calls + 1) = none) (hcheck : checkFat (bpbOf (s.disk lba)) = some ok) :
    probePart ops partition (s.loaded (s.disk 0)) =
      (if ok then pure lba else .throw .noFat : FatM ℕ)
        ((s.loaded (s.disk 0)).loaded (s.disk lba)) := by
  have hgBuf : getPartLba (s.loaded (s.disk 0)).gBuf partition = some lba := hpart
  rw [probePart, Fallible.read_bind, hgBuf]
  exact (Fallible.bind_of_ok (readGlobal_ok hread lba)).trans
    (Fallible.bind_of_ok (checkGlobal_ok hcheck))

theorem probePart_divides {lba : ℕ} (hpart : getPartLba (s.disk 0) partition = some lba)
    (hread : ops.read (s.calls + 1) = none) (hcheck : checkFat (bpbOf (s.disk lba)) = none) :
    probePart ops partition (s.loaded (s.disk 0)) =
      (none, (s.loaded (s.disk 0)).loaded (s.disk lba)) := by
  have hgBuf : getPartLba (s.loaded (s.disk 0)).gBuf partition = some lba := hpart
  rw [probePart, Fallible.read_bind, hgBuf]
  exact (Fallible.bind_of_ok (readGlobal_ok hread lba)).trans
    (Fallible.bind_of_none (checkGlobal_divides hcheck))

/-- The first sector of the disk. -/
theorem probe_read (partition : Fin 4) {ok : Bool} (hread : ops.read s.calls = none)
    (hcheck : checkFat (bpbOf (s.disk 0)) = some ok) :
    probe ops partition s =
      (if ok then if partition = 0 then pure 0 else .throw .noFat
        else probePart ops partition : FatM ℕ) (s.loaded (s.disk 0)) := by
  rw [probe]
  exact (Fallible.bind_of_ok (readGlobal_ok hread 0)).trans
    (Fallible.bind_of_ok (checkGlobal_ok hcheck))

/-- `probe` finds the boot sector, which it leaves in the global buffer. -/
theorem probe_ok {lba calls : ℕ} (h : Boots ops partition s lba calls) :
    Succeeds (probe ops partition) s fun r s' =>
      r = lba ∧ s'.gBuf = s.disk lba ∧ s'.calls = calls ∧ Untouched s s' := by
  obtain ⟨hread, ⟨hcheck, rfl, rfl, rfl⟩ | ⟨hcheck, hpart, hread', hcheck', rfl⟩⟩ := h
  · refine ⟨0, s.loaded (s.disk 0), ?_, rfl, rfl, rfl, rfl, rfl, rfl, rfl⟩
    exact (probe_read _ hread hcheck).trans rfl
  · refine ⟨lba, (s.loaded (s.disk 0)).loaded (s.disk lba), ?_, rfl, rfl, rfl, rfl, rfl, rfl, rfl⟩
    exact (probe_read _ hread hcheck).trans (probePart_read hpart hread' hcheck')

/-- `check_fat` divides by zero. -/
theorem probe_divides (h : Divides ops partition s) : ∃ s', probe ops partition s = (none, s') := by
  obtain ⟨hread, hcheck | ⟨hcheck, lba, hpart, hread', hcheck'⟩⟩ := h
  · refine ⟨s.loaded (s.disk 0), ?_⟩
    rw [probe]
    exact (Fallible.bind_of_ok (readGlobal_ok hread 0)).trans
      (Fallible.bind_of_none (checkGlobal_divides hcheck))
  · exact ⟨_, (probe_read _ hread hcheck).trans (probePart_divides hpart hread' hcheck')⟩

/-- What is known of the boot sector if the disk has a partition table. -/
theorem probePart_ends (hread : ops.read s.calls = none)
    (hcheck : checkFat (bpbOf (s.disk 0)) = some false) (hnot : ¬ Divides ops partition s) :
    Ends (probePart ops partition) (s.loaded (s.disk 0)) fun r _ =>
      ∀ lba, r = .ok lba → ∃ calls, Boots ops partition s lba calls := by
  cases hpart : getPartLba (s.disk 0) partition with
  | none =>
    refine ⟨.error .noFat, s.loaded (s.disk 0), ?_, by simp⟩
    have hgBuf : getPartLba (s.loaded (s.disk 0)).gBuf partition = none := hpart
    rw [probePart, Fallible.read_bind, hgBuf]
    rfl
  | some lba =>
    cases hread' : ops.read (s.calls + 1) with
    | some garbage =>
      refine ⟨.error .io, (s.loaded (s.disk 0)).loaded garbage, ?_, by simp⟩
      have hgBuf : getPartLba (s.loaded (s.disk 0)).gBuf partition = some lba := hpart
      rw [probePart, Fallible.read_bind, hgBuf]
      exact Fallible.bind_of_ok (readGlobal_failed hread' lba)
    | none =>
      cases hcheck' : checkFat (bpbOf (s.disk lba)) with
      | none => exact absurd ⟨hread, .inr ⟨hcheck, lba, hpart, hread', hcheck'⟩⟩ hnot
      | some ok =>
        have hrun := probePart_read hpart hread' hcheck'
        cases ok with
        | false => exact ⟨.error .noFat, _, hrun, by simp⟩
        | true =>
          refine ⟨.ok lba, _, hrun, ?_⟩
          rintro _ ⟨⟩
          exact ⟨_, hread, .inr ⟨hcheck, hpart, hread', hcheck', rfl⟩⟩

/-- If it does not divide by zero, `probe` finds a boot sector that is accepted, or fails. -/
theorem probe_ends (hnot : ¬ Divides ops partition s) :
    Ends (probe ops partition) s fun r _ =>
      ∀ lba, r = .ok lba → ∃ calls, Boots ops partition s lba calls := by
  cases hread : ops.read s.calls with
  | some garbage =>
    refine ⟨.error .io, s.loaded garbage, ?_, by simp⟩
    rw [probe]
    exact Fallible.bind_of_ok (readGlobal_failed hread 0)
  | none =>
    cases hcheck : checkFat (bpbOf (s.disk 0)) with
    | none => exact absurd ⟨hread, .inl hcheck⟩ hnot
    | some ok =>
      have hrun := probe_read partition hread hcheck
      cases ok with
      | false =>
        obtain ⟨r, s', hpart, hr⟩ := probePart_ends hread hcheck hnot
        exact ⟨r, s', hrun.trans hpart, hr⟩
      | true =>
        by_cases h0 : partition = 0
        · refine ⟨.ok 0, s.loaded (s.disk 0), hrun.trans (congrFun (if_pos h0) _), ?_⟩
          rintro _ ⟨⟩
          exact ⟨_, hread, .inl ⟨hcheck, h0, rfl, rfl⟩⟩
        · exact ⟨.error .noFat, s.loaded (s.disk 0), hrun.trans (congrFun (if_neg h0) _), by simp⟩

theorem takeInfo_ok (v : Volume) (hinfo : InfoOk s.gBuf) (hlen : name.length ≤ 32) :
    takeInfo name v s = (some (.ok v), { s with
      lastUsed := (word s.gBuf 492).toNat
      freeCnt := word s.gBuf 488
      sect := 0 }) := by
  rw [takeInfo, Fallible.read_bind, if_neg (not_not_intro hinfo), Fallible.modify_bind,
    if_neg (Nat.not_lt.2 hlen)]
  rfl

theorem takeInfo_refuses (v : Volume) (h : ¬ (InfoOk s.gBuf ∧ name.length ≤ 32)) :
    ∃ e s', takeInfo name v s = (some (.error e), s') := by
  by_cases hinfo : InfoOk s.gBuf
  · have hlen : name.length > 32 := by
      by_contra hle
      exact h ⟨hinfo, Nat.not_lt.1 hle⟩
    refine ⟨.param, { s with lastUsed := (word s.gBuf 492).toNat, freeCnt := word s.gBuf 488 }, ?_⟩
    rw [takeInfo, Fallible.read_bind, if_neg (not_not_intro hinfo), Fallible.modify_bind,
      if_pos hlen]
    rfl
  · refine ⟨.noFat, s, ?_⟩
    rw [takeInfo, Fallible.read_bind, if_pos hinfo]
    rfl

/-- The part behind `probe` succeeds if the rest is accepted, and fails otherwise. -/
theorem loadInfo_ends (ops : DiskOps) (name : List Byte) (v : Volume) :
    Ends (loadInfo ops name v) s fun r _ =>
      (∀ v', r = .ok v' → v' = v ∧ ops.read s.calls = none ∧ InfoOk (s.disk v.infoSect) ∧
        name.length ≤ 32) ∧
      (ops.read s.calls = none → InfoOk (s.disk v.infoSect) → name.length ≤ 32 → r = .ok v) := by
  cases hread : ops.read s.calls with
  | some garbage =>
    refine ⟨.error .io, s.loaded garbage, ?_, by simp⟩
    rw [loadInfo]
    exact Fallible.bind_of_ok (readGlobal_failed hread _)
  | none =>
    have hfirst : loadInfo ops name v s = takeInfo name v (s.loaded (s.disk v.infoSect)) := by
      rw [loadInfo]
      exact Fallible.bind_of_ok (readGlobal_ok hread v.infoSect)
    by_cases hok : InfoOk (s.disk v.infoSect) ∧ name.length ≤ 32
    · refine ⟨.ok v, _, hfirst.trans (takeInfo_ok v hok.1 hok.2), ?_, fun _ _ _ => rfl⟩
      rintro _ ⟨⟩
      exact ⟨rfl, rfl, hok⟩
    · obtain ⟨e, s', hrun⟩ := takeInfo_refuses (s := s.loaded (s.disk v.infoSect)) v hok
      exact ⟨.error e, s', hfirst.trans hrun, by simp, fun _ hinfo hlen => absurd ⟨hinfo, hlen⟩ hok⟩

theorem fatMount_accepts {lba : ℕ} (h : Accepts ops partition name s lba) :
    Succeeds (fatMount ops partition name) s fun v s' =>
      v = (bpbOf (s.disk lba)).volume ops name lba ∧ Untouched s s' := by
  obtain ⟨calls, hboots, hread, hinfo, hlen⟩ := h
  obtain ⟨found, s₁, hprobe, hfound, hgBuf, rfl, hdisk⟩ := probe_ok hboots
  rw [hfound] at hprobe
  obtain ⟨r, s', hload, -, hok⟩ := loadInfo_ends ops name (s := s₁)
    ((bpbOf s₁.gBuf).volume ops name lba)
  have hrun : fatMount ops partition name s = (some r, s') := by
    rw [fatMount, Fallible.bind_of_ok hprobe]
    exact hload
  rw [hgBuf] at hok
  rw [hok hread (by rwa [hdisk.disk]) hlen] at hrun
  exact ⟨_, s', hrun, rfl, Fallible.keeps_of_eq hrun⟩

theorem fatMount_ends (hnot : ¬ Divides ops partition s) :
    Ends (fatMount ops partition name) s fun r s' => Untouched s s' ∧
      ∀ v, r = .ok v → ∃ lba, Accepts ops partition name s lba ∧
        v = (bpbOf (s.disk lba)).volume ops name lba := by
  obtain ⟨e | lba, s₁, hprobe, hboots⟩ := probe_ends hnot
  · have hrun : fatMount ops partition name s = (some (.error e), s₁) :=
      Fallible.bind_of_error hprobe
    exact ⟨.error e, s₁, hrun, Fallible.keeps_of_eq hrun, by simp⟩
  · obtain ⟨calls, hboots⟩ := hboots lba rfl
    obtain ⟨found, s₂, hprobe', -, hgBuf, rfl, hdisk⟩ := probe_ok hboots
    obtain ⟨-, rfl⟩ : lba = found ∧ s₁ = s₂ := by
      rw [hprobe] at hprobe'
      cases hprobe'
      exact ⟨rfl, rfl⟩
    obtain ⟨r, s', hload, hr, -⟩ := loadInfo_ends ops name (s := s₁)
      ((bpbOf s₁.gBuf).volume ops name lba)
    have hrun : fatMount ops partition name s = (some r, s') := by
      rw [fatMount, Fallible.bind_of_ok hprobe]
      exact hload
    refine ⟨r, s', hrun, Fallible.keeps_of_eq hrun, fun v hv => ?_⟩
    obtain ⟨rfl, hread, hinfo, hlen⟩ := hr v hv
    rw [hgBuf, hdisk.disk] at hinfo
    exact ⟨lba, ⟨_, hboots, hread, hinfo, hlen⟩, by rw [hgBuf]⟩

end Runs

/-! ## Section 7: The volume against the format -/

/-- Without flags nothing is flushed. -/
theorem State.clean_of_flags {s : State} (hbuf : s.bufDirty = false) (hinfo : s.infoDirty = false) :
    s.Clean v := by
  have hsync : syncBuf v s = (some (.ok ⟨⟩), s) := by
    rw [syncBuf, Fallible.read_bind]
    simp only [id, hbuf, Bool.false_eq_true, if_false]
    rfl
  refine ⟨hbuf, hinfo, fun sect => ?_, ?_⟩
  · by_cases hsect : s.sect = sect
    · have hrun : updateBuf v sect s = (some (.ok ⟨⟩), s) :=
        congrFun (if_neg (not_not_intro hsect)) s
      rw [hrun]
    · have hrun : updateBuf v sect s = loadBuf v sect s :=
        (congrFun (if_pos hsect) s).trans (Fallible.bind_of_ok hsync)
      rw [hrun, loadBuf]
      cases hread : v.ops.read s.calls with
      | none =>
        have hok : opsRead v sect s = (some (.ok (s.disk sect, true)),
            { s with calls := s.calls + 1 }) := by rw [opsRead, hread]
        rw [Fallible.bind_of_ok hok]
        rfl
      | some garbage =>
        have hfail : opsRead v sect s = (some (.ok (garbage, false)),
            { s with calls := s.calls + 1 }) := by rw [opsRead, hread]
        rw [Fallible.bind_of_ok hfail]
        rfl
  · have hrun : syncFs v s = (some (.ok ⟨⟩), s) := by
      rw [syncFs, Fallible.bind_of_ok hsync, Fallible.read_bind]
      simp only [id, hinfo, Bool.false_eq_true, if_false]
      rfl
    rw [hrun]

theorem ctz_two_pow {k : ℕ} (hk : k < 8) : ctz (2 ^ k) = k := by
  interval_cases k <;> decide

/-- A cluster has fewer than 256 sectors. -/
theorem sectPerClust_lt {buf : Sector} {k : ℕ} (h : (bpbOf buf).sectPerClust = 2 ^ k) : k < 8 := by
  have hlt : 2 ^ k < 2 ^ 8 := by
    rw [← h]
    exact (buf 13).isLt
  exact (Nat.pow_lt_pow_iff_right (by decide)).1 hlt

section Volumes

variable {ops name} {bpb : Bpb} {lba : ℕ}

theorem second_cases (bpb : Bpb) : bpb.second = 0 ∨ bpb.second = 1 := by
  have hlt : bpb.second < 2 := by
    rw [Bpb.second, BitVec.toNat_and]
    exact Nat.and_lt_two_pow _ (n := 1) (by decide)
  omega

theorem second_eq_zero : bpb.second = 0 ↔ bpb.extFlags &&& 1 = 0 := by
  rw [Bpb.second, ← BitVec.toNat_inj]
  rfl

/-- The FAT that is read, and the other one. -/
theorem volume_fatSect : (bpb.volume ops name lba).fatSect = bpb.fatAt lba bpb.second := by
  rcases second_cases bpb with h | h
  · rw [Bpb.fatAt, h, Nat.zero_mul]
    exact if_pos (second_eq_zero.1 h)
  · rw [Bpb.fatAt, h, Nat.one_mul]
    exact if_neg fun h0 => by simp [second_eq_zero.2 h0] at h

theorem volume_mirrorSect : (bpb.volume ops name lba).mirrorSect =
    if bpb.Mirrored then 0 else bpb.fatAt lba (1 - bpb.second) := by
  have hother : (if bpb.extFlags &&& 1 = 0 then u32 (lba + bpb.resSectCnt + bpb.sectPerFat32)
      else u32 (lba + bpb.resSectCnt)) = bpb.fatAt lba (1 - bpb.second) := by
    rcases second_cases bpb with h | h
    · rw [Bpb.fatAt, h, Nat.one_mul]
      exact if_pos (second_eq_zero.1 h)
    · rw [Bpb.fatAt, h, Nat.zero_mul]
      exact if_neg fun h0 => by simp [second_eq_zero.2 h0] at h
  rw [← hother]
  exact ite_not _ _ _

/-- The FATs follow the format if it has one in use, and the driver knows no other. -/
theorem followsFats_iff : (bpb.volume ops name lba).FollowsFats bpb lba ↔
    ¬ bpb.Mirrored ∧ bpb.fatAt lba (1 - bpb.second) = 0 ∧
      bpb.fatAt lba bpb.second = bpb.fatAt lba bpb.active := by
  rw [Volume.FollowsFats, volume_fatSect, volume_mirrorSect]
  by_cases h : bpb.Mirrored
  · simp [h]
  · simp [h, and_comm]

variable {buf : Sector} {s : State}

/-- The mask of a cluster of a power of two sectors. -/
theorem volume_clustMsk (ops : DiskOps) (name : List Byte) (lba : ℕ) {k : ℕ} (hk : k < 8)
    (hpow : bpb.sectPerClust = 2 ^ k) :
    (bpb.volume ops name lba).clustMsk = 2 ^ k - 1 := by
  have hpos : 0 < 2 ^ k := Nat.two_pow_pos k
  have hlt : 2 ^ k < 2 ^ 8 := Nat.pow_lt_pow_right (by decide) hk
  show (bpb.sectPerClust + 0xffffffff) % 0x100000000 = _
  rw [hpow]
  omega

/-- The mount makes of a boot sector what the format says, and nothing is left to be flushed, if
and only if the sector suits the driver and the flags happen to be clear. -/
theorem wellMounted_iff :
    WellMounted ((bpbOf buf).volume ops name lba) (bpbOf buf) lba s ↔
      (bpbOf buf).Suits lba ∧ s.bufDirty = false ∧ s.infoDirty = false := by
  constructor
  · intro h
    obtain ⟨k, hpow, hshift, hmsk⟩ := h.cluster
    obtain ⟨hunmirrored, hother, hactive⟩ := followsFats_iff.1 h.fats
    have hwalks := h.walks
    rw [hpow] at hwalks
    have hk : k ≤ 32 := (Nat.le_of_lt (sectPerClust_lt hpow)).trans (by decide)
    have haligned := dvd_of_walksBy hk hshift hmsk s hwalks
    rw [h.dataSect, ← hpow] at haligned
    exact ⟨⟨⟨k, hpow⟩, hunmirrored, hother, hactive, haligned⟩, h.clean.bufDirty, h.clean.infoDirty⟩
  · rintro ⟨h, hbuf, hinfo⟩
    obtain ⟨k, hpow⟩ := h.cluster
    have hk := sectPerClust_lt hpow
    have hshift : ((bpbOf buf).volume ops name lba).clustShift = k := by
      show ctz (bpbOf buf).sectPerClust = k
      rw [hpow]
      exact ctz_two_pow hk
    have hmsk := volume_clustMsk ops name lba hk hpow
    have haligned : 2 ^ k ∣ ((bpbOf buf).volume ops name lba).dataSect := by
      rw [← hpow]
      exact h.aligned
    refine ⟨⟨k, hpow, hshift, hmsk⟩, ?_, rfl, rfl, ?_, State.clean_of_flags _ hbuf hinfo⟩
    · exact followsFats_iff.2 ⟨h.unmirrored, h.noOther, h.active⟩
    · rw [hpow]
      exact walksBy_of_dvd ((Nat.le_of_lt hk).trans (by decide)) hshift hmsk haligned

end Volumes

/-! ## Section 8: Mounting arbitrary media -/

theorem Accepts.bootAt {s : State} {lba : ℕ} (h : Accepts ops partition name s lba) :
    BootAt s.disk partition lba := by
  obtain ⟨calls, ⟨-, ⟨hcheck, h0, hlba, -⟩ | ⟨hcheck, hpart, -⟩⟩, -⟩ := h
  · exact .inl ⟨hcheck, h0, hlba⟩
  · exact .inr ⟨hcheck, hpart⟩

/-- A partition has one boot sector. -/
theorem BootAt.unique {disk : ℕ → Sector} {lba lba' : ℕ} (h : BootAt disk partition lba)
    (h' : BootAt disk partition lba') : lba = lba' := by
  obtain ⟨hcheck, -, rfl⟩ | ⟨hcheck, hpart⟩ := h <;>
    obtain ⟨hcheck', -, rfl⟩ | ⟨hcheck', hpart'⟩ := h'
  · rfl
  · rw [hcheck] at hcheck'
    cases hcheck'
  · rw [hcheck] at hcheck'
    cases hcheck'
  · rw [hpart] at hpart'
    exact Option.some.inj hpart'

/-- The mount is safe if and only if it meets no boot sector of FAT32 whose clusters have no
sectors, and any boot sector that it accepts suits it and finds the flags of the new `Fat`
clear. -/
theorem mountSafe_iff (s : State) : MountSafe ops partition name s ↔
    ¬ Divides ops partition s ∧ ∀ lba, Accepts ops partition name s lba →
      (bpbOf (s.disk lba)).Suits lba ∧ s.bufDirty = false ∧ s.infoDirty = false := by
  constructor
  · rintro ⟨r, s', hrun, -, -, hwell⟩
    refine ⟨fun hdivides => ?_, fun lba haccepts => ?_⟩
    · obtain ⟨s₁, hprobe⟩ := probe_divides hdivides
      rw [fatMount, Fallible.bind_of_none hprobe] at hrun
      cases hrun
    · obtain ⟨v, s₁, hrun', rfl, hsame⟩ := fatMount_accepts haccepts
      rw [hrun] at hrun'
      cases hrun'
      obtain ⟨lba', hboot, hmounted⟩ := hwell _ rfl
      rw [← (haccepts.bootAt ops partition name).unique partition hboot, wellMounted_iff,
        hsame.bufDirty, hsame.infoDirty] at hmounted
      exact hmounted
  · rintro ⟨hnot, hsuits⟩
    refine (fatMount_ends hnot).mono fun r s' ⟨hsame, hr⟩ => ?_
    refine ⟨hsame.disk, hsame.writes, fun v hv => ?_⟩
    obtain ⟨lba, haccepts, rfl⟩ := hr v hv
    obtain ⟨hfits, hbuf, hinfo⟩ := hsuits lba haccepts
    refine ⟨lba, haccepts.bootAt, wellMounted_iff.2 ⟨hfits, ?_, ?_⟩⟩
    · rw [hsame.bufDirty, hbuf]
    · rw [hsame.infoDirty, hinfo]

/-- A boot sector of FAT32 with clusters of no sectors. -/
def noClusters : Sector :=
  (((Memory.store (fun _ => 0) 0 [0xeb]).store 11 [0x00, 0x02, 0, 32, 0, 2]).store 48 [1, 0]).store
    82 fat32Name

/-- A card of such sectors, and memory without anything in it. -/
def noClustersCard : State where
  lastUsed := 0
  freeCnt := 0
  sect := 0
  buf := fun _ => 0
  bufDirty := false
  infoDirty := false
  gBuf := fun _ => 0
  gLen := 0
  gCrc := 0
  disk := fun _ => noClusters
  calls := 0
  writes := []

/-- Sector 0 passes every test up to the division. -/
theorem not_mountSafe_noClusters :
    ¬ MountSafe workingOps 0 [0x6d, 0x6e, 0x74] noClustersCard := by
  rintro ⟨r, s', hrun, -⟩
  have hdivides : Divides workingOps 0 noClustersCard :=
    ⟨rfl, .inl (by decide)⟩
  obtain ⟨s₁, hprobe⟩ := probe_divides hdivides
  rw [fatMount, Fallible.bind_of_none hprobe] at hrun
  cases hrun

end Karnix.Fat
