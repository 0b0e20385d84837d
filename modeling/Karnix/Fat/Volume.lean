import Karnix.Library.Bytes
import Karnix.Library.Fallible

/-!
# The FAT driver: buffer and cluster chains

`fat.c` from `sect_to_clust` to `clust_clear`: the buffer of one sector through which the
driver reads and writes everything but the contents of files, the entries of the FAT, and the
routines that release and extend chains of clusters.

The disk operations may fail at any call, and then leave anything in their target.  Sectors and
clusters are numbers below 2^32; `u32` stands where the arithmetic of the source may wrap.
-/

namespace Karnix.Fat

open Karnix.Library

/-! ## Section 1: Volumes and their state -/

/-- The contents of a sector; only the first 512 bytes are used. -/
abbrev Sector := Memory Byte

/-- `uint32_t`: what is left of a number in 32 bits. -/
def u32 (n : ℕ) : ℕ := n % 0x100000000

/-- What an entry of the FAT says of its cluster: the values `CLUST_FREE`, `CLUST_USED`,
`CLUST_USED | CLUST_LAST` and `CLUST_BAD` of the flags. -/
inductive Kind
  | free | used | last | bad
  deriving DecidableEq, Repr

/-- The error codes.  One function returns the flags of a cluster instead, or a variable for them
that was never assigned; this one may be 0, which is no error. -/
inductive Err
  | noFat | broken | io | param | path | eof | denied | full
  | flags (kind : Kind)
  | stale (flags : Byte)
  deriving DecidableEq, Repr

/-- `DiskOps`: what call number `k` leaves in its target if it fails.  What the local variables of
the driver hold that are never assigned is as little up to the driver, and stands here too. -/
structure DiskOps where
  read : ℕ → Option Sector
  write : ℕ → Option Sector
  /-- The flags of `stretch_chain`, after `k` calls. -/
  staleFlags : ℕ → Byte
  /-- The cluster that its callers pass. -/
  staleClust : ℕ → ℕ

/-- Operations none of which fails. -/
def workingOps : DiskOps := ⟨fun _ => none, fun _ => none, fun _ => 0, fun _ => 0⟩

/-- No call fails. -/
class DiskOps.Reliable (ops : DiskOps) : Prop where
  read : ∀ k, ops.read k = none
  write : ∀ k, ops.write k = none

instance : workingOps.Reliable := ⟨fun _ => rfl, fun _ => rfl⟩

/-- The members of `Fat` that do not change once the volume is mounted. -/
structure Volume where
  ops : DiskOps
  clustMsk : ℕ
  clustCnt : ℕ
  infoSect : ℕ
  /-- The active FAT. -/
  fatSect : ℕ
  /-- The other FAT, or 0. -/
  mirrorSect : ℕ
  dataSect : ℕ
  rootClust : ℕ
  clustShift : ℕ
  name : List Byte

/-- Where a sector that is written comes from: `Fat.buf` or `File.buf`. -/
inductive Origin
  | volume | file
  deriving DecidableEq, Repr

/-- A call of the write operation. -/
structure DiskWrite where
  origin : Origin
  sect : ℕ
  deriving DecidableEq, Repr

/-- The members of `Fat` that change, the globals of `fat.c`, and the disk. -/
structure State where
  lastUsed : ℕ
  freeCnt : BitVec 32
  sect : ℕ
  buf : Sector
  /-- `FAT_BUF_DIRTY` -/
  bufDirty : Bool
  /-- `FAT_INFO_DIRTY` -/
  infoDirty : Bool
  gBuf : Memory Byte
  gLen : ℕ
  gCrc : Byte
  disk : ℕ → Sector
  /-- The disk operations so far. -/
  calls : ℕ
  /-- The writes so far, the last one first. -/
  writes : List DiskWrite

/-- A piece of the driver. -/
abbrev FatM := Fallible Err State

variable (v : Volume)

/-! ## Section 2: Clusters and sectors -/

/-- `sect_to_clust`: the cluster that a sector of the data area lies in. -/
def Volume.sectToClust (sect : ℕ) : ℕ :=
  u32 (u32 (sect + (0x100000000 - v.dataSect)) / 2 ^ v.clustShift + 2)

/-- `clust_to_sect`: the first sector of a cluster. -/
def Volume.clustToSect (clust : ℕ) : ℕ :=
  u32 (u32 (clust + 0xfffffffe) * 2 ^ v.clustShift + v.dataSect)

/-- `1 << fat->clust_shift`, the sectors of a cluster. -/
def Volume.sectPerClust : ℕ := 2 ^ v.clustShift

/-! ## Section 3: The buffer -/

/-- A call of `ops.read`: what it leaves in the buffer, and whether it succeeds. -/
def opsRead (sect : ℕ) : FatM (Sector × Bool) := fun s =>
  match v.ops.read s.calls with
  | none => (some (.ok (s.disk sect, true)), { s with calls := s.calls + 1 })
  | some garbage => (some (.ok (garbage, false)), { s with calls := s.calls + 1 })

/-- A call of `ops.write`. -/
def opsWrite (origin : Origin) (buf : Sector) (sect : ℕ) : FatM Bool := fun s =>
  match v.ops.write s.calls with
  | none => (some (.ok true), { s with
      disk := fun k => if k = sect then buf else s.disk k
      calls := s.calls + 1
      writes := ⟨origin, sect⟩ :: s.writes })
  | some garbage => (some (.ok false), { s with
      disk := fun k => if k = sect then garbage else s.disk k
      calls := s.calls + 1
      writes := ⟨origin, sect⟩ :: s.writes })

/-- `sync_buf`: the buffer is written out if it has been changed. -/
def syncBuf : FatM PUnit := do
  let fat ← .read id
  if fat.bufDirty then do
    let ok ← opsWrite v .volume fat.buf fat.sect
    if ok then .modify fun s => { s with bufDirty := false }
    else .throw .io
  else pure ⟨⟩

/-- The rest of `update_buf` for another sector than the one buffered. -/
def loadBuf (sect : ℕ) : FatM PUnit := do
  let r ← opsRead v sect
  if r.2 then .modify fun s => { s with buf := r.1, sect := sect }
  else do
    .modify fun s => { s with buf := r.1 }
    .throw .io

/-- `update_buf`: the buffer holds that sector; the one before is written out first. -/
def updateBuf (sect : ℕ) : FatM PUnit := do
  let fat ← .read id
  if fat.sect ≠ sect then do
    syncBuf v
    loadBuf v sect
  else pure ⟨⟩

/-- Change the buffer, which makes it dirty. -/
def editBuf (f : Sector → Sector) : FatM PUnit :=
  .modify fun s => { s with buf := f s.buf, bufDirty := true }

/-- `info->next_free = fat->last_used; info->free_cnt = fat->free_cnt` -/
def putInfo (lastUsed : ℕ) (freeCnt : BitVec 32) (buf : Sector) : Sector :=
  (buf.store 492 (leBytes32 (BitVec.ofNat 32 lastUsed))).store 488 (leBytes32 freeCnt)

/-- The part of `sync_fs` that writes `FsInfo`. -/
def syncInfo : FatM PUnit := do
  updateBuf v v.infoSect
  let fat ← .read id
  editBuf (putInfo fat.lastUsed fat.freeCnt)
  syncBuf v
  .modify fun s => { s with infoDirty := false }

/-- `sync_fs`: the buffer, and `FsInfo` if its counters have changed. -/
def syncFs : FatM PUnit := do
  syncBuf v
  let fat ← .read id
  if fat.infoDirty then syncInfo v else pure ⟨⟩

/-! ## Section 4: Entries of the FAT -/

/-- `items[idx]`: a link of the FAT, in the sector that holds it. -/
def item (buf : Sector) (idx : ℕ) : BitVec 32 := leWord (buf.load (4 * idx) 4)

/-- `items[idx] = w` -/
def setItem (idx : ℕ) (w : BitVec 32) (buf : Sector) : Sector := buf.store (4 * idx) (leBytes32 w)

/-- The value of an entry: the upper nibble is ignored. -/
def entryVal (w : BitVec 32) : ℕ := (w &&& 0x0fffffff).toNat

/-- The flags for the value of an entry, if it is a valid one. -/
def Volume.kindOf (val : ℕ) : Option Kind :=
  if val = 0 then some .free
  else if val = 0x0ffffff7 then some .bad
  else if val ≥ 0x0ffffff8 then some .last
  else if val ≥ 2 ∧ val < v.clustCnt then some .used
  else none

/-- `get_fat`: the value of an entry, and its flags. -/
def getFat (clust : ℕ) : FatM (ℕ × Kind) := do
  updateBuf v (u32 (v.fatSect + clust / 128))
  let fat ← .read id
  match v.kindOf (entryVal (item fat.buf (clust % 128))) with
  | some kind => pure (entryVal (item fat.buf (clust % 128)), kind)
  | none => .throw .broken

/-- The upper nibble is preserved. -/
def mergeEntry (old : BitVec 32) (val : BitVec 32) : BitVec 32 :=
  (old &&& 0xf0000000) ||| (val &&& 0x0fffffff)

/-- `put_fat2`: a link in one of the two FATs; its upper four bits stay. -/
def putFat2 (fatSect clust val : ℕ) : FatM PUnit := do
  updateBuf v (u32 (fatSect + clust / 128))
  editBuf fun buf => setItem (clust % 128)
    (mergeEntry (item buf (clust % 128)) (BitVec.ofNat 32 val)) buf

/-- `put_fat`: the mirror first, if there is one. -/
def putFat (clust val : ℕ) : FatM PUnit :=
  if v.mirrorSect ≠ 0 then do
    putFat2 v v.mirrorSect clust val
    putFat2 v v.fatSect clust val
  else putFat2 v v.fatSect clust val

/-! ## Section 5: Chains -/

/-- The loop of `remove_chain`.  Each round clears an entry, and a cleared one ends the loop, so
that there are fewer rounds than clusters. -/
def removeLinks : ℕ → ℕ → FatM PUnit
  | 0, _ => .abort
  | n + 1, clust => do
    let r ← getFat v clust
    if r.2 = .bad ∨ r.2 = .free then .throw .broken
    else do
      putFat v clust 0
      .modify fun s => { s with freeCnt := s.freeCnt + 1 }
      if r.2 = .last then pure ⟨⟩ else removeLinks n r.1

/-- `remove_chain`: every cluster from that one on is free, and counted. -/
def removeChain (clust : ℕ) : FatM PUnit := do
  .modify fun s => { s with infoDirty := true }
  removeLinks v (v.clustCnt + 1) clust
  syncFs v

/-- `if (++clust >= fat->clust_cnt) clust = 2` -/
def Volume.succClust (clust : ℕ) : ℕ := if u32 (clust + 1) ≥ v.clustCnt then 2 else u32 (clust + 1)

/-- The search of `stretch_chain` behind cluster `clust`; `flags` is the variable of this name,
which may not have been assigned yet.  If there was a round for each cluster and the search has
not ended, it is taken not to return: it passes the same clusters again, and goes round for ever
unless the disk fails. -/
def scan : ℕ → ℕ → Option Kind → FatM ℕ
  | 0, _, _ => .abort
  | n + 1, clust, flags => do
    let fat ← .read id
    if v.succClust clust = fat.lastUsed then .throw .full
    else do
      let r ← (getFat v (v.succClust clust)).attempt
      match r with
      | .ok r => if r.2 = .free then pure (v.succClust clust) else scan n (v.succClust clust) r.2
      | .error _ =>
        -- the source returns the flags here, not the error
        match flags with
        | some kind => .throw (.flags kind)
        | none => do
          let fat ← .read id
          .throw (.stale (v.ops.staleFlags fat.calls))

/-- The search of `stretch_chain` from `last_used` on. -/
def scanAll (flags : Option Kind) : FatM ℕ := do
  let fat ← .read id
  scan v (v.clustCnt + 1) fat.lastUsed flags

/-- The part of `stretch_chain` that finds a free cluster. -/
def findFree (prev : ℕ) : FatM ℕ :=
  if prev ≠ 0 then do
    let r ← getFat v (v.succClust prev)
    if r.2 = .free then pure (v.succClust prev) else scanAll v r.2
  else scanAll v none

/-- The part of `stretch_chain` that links the cluster to the one before it. -/
def addLink (prev clust : ℕ) : FatM PUnit :=
  if prev ≠ 0 then putFat v prev clust else pure ⟨⟩

/-- `stretch_chain`: a free cluster gets the end mark, and the cluster `prev` is linked to it. -/
def stretchChain (prev : ℕ) : FatM ℕ := do
  .modify fun s => { s with infoDirty := true }
  let clust ← findFree v prev
  putFat v clust 0x0fffffff
  addLink v prev clust
  .modify fun s => { s with lastUsed := clust, freeCnt := s.freeCnt - 1 }
  syncFs v
  pure clust

/-- The variable that a caller of `stretch_chain` has for the cluster, and that held `old`: it is
as it was if flags are returned that happen to be 0. -/
def stretchInto (old prev : ℕ) : FatM ℕ := do
  let r ← (stretchChain v prev).attempt
  match r with
  | .ok clust => pure clust
  | .error (.stale flags) => if flags = 0 then pure old else .throw (.stale flags)
  | .error err => .throw err

/-- `stretch_chain` into a variable that holds nothing yet. -/
def stretchNew (prev : ℕ) : FatM ℕ := do
  let fat ← .read id
  stretchInto v (v.ops.staleClust fat.calls) prev

/-- `create_chain`: a chain of one cluster. -/
def createChain : FatM ℕ := stretchNew v 0

/-- The loop of `clust_clear`. -/
def clearSects : ℕ → ℕ → FatM PUnit
  | 0, _ => pure ⟨⟩
  | n + 1, sect => do
    .modify fun s => { s with sect := sect, bufDirty := true }
    syncBuf v
    clearSects n (u32 (sect + 1))

/-- `clust_clear`: zeros go to all sectors of a cluster. -/
def clustClear (clust : ℕ) : FatM PUnit := do
  syncBuf v
  .modify fun s => { s with buf := s.buf.fill 0 512 0 }
  clearSects v v.sectPerClust (v.clustToSect clust)

end Karnix.Fat
