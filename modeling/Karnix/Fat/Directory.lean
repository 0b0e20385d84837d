import Karnix.Fat.Volume

/-!
# The FAT driver: directories

`fat.c` from `dir_at_clust` to `dir_add`, `fat_dir_create`, `fat_unlink`, and the functions that
list a directory.

A `Dir` is handed from call to call instead of being changed in place; no caller uses what a
call that fails has made of it.  Where a loop runs over the entries of a directory, it may take
a round for each entry the volume has room for: a loop that goes on longer goes round in a cycle
of clusters.
-/

namespace Karnix.Fat

open Karnix.Library

variable (v : Volume)

/-! ## Section 1: Moving in a directory -/

/-- `Dir`, a place in a directory: its first cluster, the cluster and the sector it has come to,
and the index of the slot in that sector. -/
structure Dir where
  sclust : ℕ
  clust : ℕ
  sect : ℕ
  idx : ℕ
  deriving DecidableEq, Repr

/-- `Loc`, where the slots of an entry begin: the first one of its long name, if it has one. -/
structure Loc where
  sect : ℕ
  idx : ℕ
  deriving DecidableEq, Repr

/-- `dir_at_clust`: to the first slot of a cluster. -/
def Volume.dirAtClust (dir : Dir) (clust : ℕ) : Dir :=
  { dir with clust := clust, sect := v.clustToSect clust, idx := 0 }

/-- `dir_enter`.  The cluster is zero for `..` entries that point to the root. -/
def Volume.dirEnter (clust : ℕ) : Dir :=
  let clust := if clust = 0 then v.rootClust else clust
  ⟨clust, clust, v.clustToSect clust, 0⟩

/-- `dir_next`: the next slot, in the same sector, the same cluster, or the next cluster of the
chain. -/
def dirNext (dir : Dir) : FatM Dir :=
  if dir.idx + 32 < 512 then pure { dir with idx := dir.idx + 32 }
  else if u32 (dir.sect + 1) &&& v.clustMsk ≠ 0 then
    pure { dir with sect := u32 (dir.sect + 1), idx := 0 }
  else do
    let r ← getFat v dir.clust
    if r.2 = .bad ∨ r.2 = .free then .throw .broken
    else if r.2 = .last then .throw .eof
    else pure (v.dirAtClust dir r.1)

/-- `dir_advance`: so many slots further. -/
def dirAdvance : ℕ → Dir → FatM Dir
  | 0, dir => pure dir
  | n + 1, dir => do
    let dir ← dirNext v dir
    dirAdvance n dir

/-- `dir_next_stretch`: as `dir_next`, but at the end of the chain it gets a new cluster, which is
cleared. -/
def dirNextStretch (dir : Dir) : FatM Dir := do
  let r ← (dirNext v dir).attempt
  match r with
  | .ok dir' => pure dir'
  | .error .eof => do
    let next ← stretchNew v dir.clust
    clustClear v next
    pure (v.dirAtClust dir next)
  | .error err => .throw err

/-- The entries that the volume has room for.  A walk that passes more of them is taken not to end.
Where `sect_per_clust` is no power of two, `clust_msk` does not go with `clust_shift`, and a walk
may pass more and end all the same. -/
def Volume.maxEntries : ℕ := v.clustCnt * v.sectPerClust * 16

/-! ## Section 2: Entries -/

/-- `SFN_FREE`, `SFN_PAD` -/
def sfnFree : Byte := 0xe5
def sfnPad : Byte := 0x20

/-- `FAT_ATTR_LFN`, `FAT_ATTR_DIR`, `FAT_ATTR_ARCHIVE` -/
def attrLfn : Byte := 0x0f
def attrDir : Byte := 0x10
def attrArchive : Byte := 0x20

/-- An entry is the 32 bytes at `idx` of the buffer.  `sfn_is_last` -/
def SfnIsLast (buf : Sector) (idx : ℕ) : Prop := buf idx = 0

/-- `sfn_is_free`: the slot is deleted, or the end mark. -/
def SfnIsFree (buf : Sector) (idx : ℕ) : Prop := buf idx = 0 ∨ buf idx = sfnFree

/-- `sfn_is_lfn`: the slot is a part of a long name. -/
def SfnIsLfn (buf : Sector) (idx : ℕ) : Prop := buf (idx + 11) = attrLfn

instance (buf : Sector) (idx : ℕ) : Decidable (SfnIsLast buf idx) :=
  inferInstanceAs (Decidable (_ = _))
instance (buf : Sector) (idx : ℕ) : Decidable (SfnIsFree buf idx) :=
  inferInstanceAs (Decidable (_ ∨ _))
instance (buf : Sector) (idx : ℕ) : Decidable (SfnIsLfn buf idx) :=
  inferInstanceAs (Decidable (_ = _))

/-- `sfn->name`: the eleven bytes, as they are padded in the slot. -/
def sfnName (buf : Sector) (idx : ℕ) : List Byte := buf.load idx 11

/-- `sfn->attr` -/
def sfnAttr (buf : Sector) (idx : ℕ) : Byte := buf (idx + 11)

/-- `sfn->size` -/
def sfnSize (buf : Sector) (idx : ℕ) : BitVec 32 := leWord (buf.load (idx + 28) 4)

/-- `sfn_cluster`: the first cluster of what the entry is for, from its two halves. -/
def sfnCluster (buf : Sector) (idx : ℕ) : ℕ :=
  (be16 (buf (idx + 21)) (buf (idx + 20))).toNat * 0x10000 +
    (be16 (buf (idx + 27)) (buf (idx + 26))).toNat

/-- `sfn->clust_hi = clust >> 16; sfn->clust_lo = clust & 0xffff` -/
def putCluster (idx clust : ℕ) (buf : Sector) : Sector :=
  (buf.store (idx + 20) (leBytes16 (BitVec.ofNat 16 (clust / 0x10000)))).store (idx + 26)
    (leBytes16 (BitVec.ofNat 16 clust))

/-- `encode_timestamp`, with the date and time of `fat_get_timestamp`. -/
def stampDate : BitVec 16 := 0x0021
def stampTime : BitVec 16 := 0

/-! ## Section 3: Short names -/

/-- The full stop that separates a name from its extension. -/
def dot : Byte := 0x2e

/-- `to_upper`, for the letters of ASCII. -/
def toUpper (c : Byte) : Byte := if 0x61 ≤ c ∧ c ≤ 0x7a then c &&& 0xdf else c

/-- The special characters allowed in short names. -/
def sfnSpecial : List Byte :=
  [0x21, 0x23, 0x24, 0x25, 0x26, 0x27, 0x28, 0x29, 0x2d, 0x40, 0x5e, 0x5f, 0x60, 0x7b, 0x7d,
    0x7e, 0x20]

/-- `sfn_char`: a character of a short name, with `_` for those that are not allowed. -/
def sfnChar (c : Byte) : Byte :=
  if 0x41 ≤ toUpper c ∧ toUpper c ≤ 0x5a then toUpper c
  else if toUpper c ∈ sfnSpecial then toUpper c
  else 0x5f

/-- The part of a name before the first full stop, at most eight characters. -/
def sfnBase (name : List Byte) : List Byte := (name.take 8).takeWhile fun c => c != dot

/-- At most three characters from behind the first full stop that follows the base. -/
def sfnExt (name : List Byte) : List Byte :=
  (((name.drop (sfnBase name).length).dropWhile fun c => c != dot).drop 1).take 3

/-- `put_sfn_name`: the base and the extension, each padded with blanks. -/
def putSfnName (name : List Byte) : List Byte :=
  (sfnBase name).map sfnChar ++ List.replicate (8 - (sfnBase name).length) sfnPad ++
    ((sfnExt name).map sfnChar ++ List.replicate (3 - (sfnExt name).length) sfnPad)

/-- What `parse_sfn_name` makes of a short name. -/
def sfnText (raw : List Byte) : List Byte :=
  ((raw.take 8).takeWhile fun c => c != sfnPad) ++
    ((if raw.getD 8 0 ≠ sfnPad then [dot] else []) ++
      ((raw.drop 8).takeWhile fun c => c != sfnPad))

/-- `parse_sfn_name`: the name of a short entry goes to the global buffer. -/
def parseSfnName (raw : List Byte) : FatM PUnit :=
  .modify fun s => { s with gBuf := s.gBuf.store 0 (sfnText raw), gLen := (sfnText raw).length }

/-- `get_crc`: the check-sum that ties the slots of a long name to their short entry. -/
def getCrc (name : List Byte) : Byte :=
  name.foldl (fun sum c => ((sum &&& 1) <<< 7) + (sum >>> 1) + c) 0

/-! ## Section 4: Long names -/

/-- `g_lfn_indices`: where the thirteen characters of a slot lie. -/
def lfnIndices : List ℕ := [1, 3, 5, 7, 9, 14, 16, 18, 20, 22, 24, 28, 30]

def lfnIndex (i : ℕ) : ℕ := lfnIndices.getD i 0

/-- The two bytes for character `i` of a fragment: the character, the terminator, or padding. -/
def lfnUnit (frag : List Byte) (i : ℕ) : List Byte :=
  if i < frag.length then [frag.getD i 0, 0x00]
  else if i = frag.length then [0x00, 0x00]
  else [0xff, 0xff]

/-- `put_lfn_name_frag`: thirteen characters of a long name go into its slot. -/
def putLfnNameFrag (idx : ℕ) (frag : List Byte) (buf : Sector) : Sector :=
  (List.range 13).foldl (fun buf i => buf.store (idx + lfnIndex i) (lfnUnit frag i)) buf

/-- The loop of `parse_lfn_name` over the characters of a fragment, from character `i` on. -/
def takeFrag (idx pos : ℕ) : ℕ → ℕ → FatM PUnit
  | 0, _ => pure ⟨⟩
  | n + 1, i => do
    let fat ← .read id
    if fat.buf (idx + lfnIndex i) = 0xff then .throw .broken
    else if fat.buf (idx + lfnIndex i) = 0 then pure ⟨⟩
    else do
      .modify fun s => { s with
        gBuf := s.gBuf.store (pos + i) [fat.buf (idx + lfnIndex i)]
        gLen := s.gLen + 1 }
      takeFrag idx pos n (i + 1)

/-- The loop of `parse_lfn_name` over the fragments, the last one first. -/
def takeFrags : ℕ → Dir → FatM Dir
  | 0, dir => pure dir
  | cnt + 1, dir => do
    let fat ← .read id
    if sfnAttr fat.buf dir.idx ≠ attrLfn ∨ fat.buf (dir.idx + 13) ≠ fat.gCrc then .throw .broken
    else do
      takeFrag dir.idx (13 * cnt) 13 0
      let dir ← dirNext v dir
      updateBuf v dir.sect
      takeFrags cnt dir

/-- The last test of `parse_lfn_name`. -/
def checkLen (dir : Dir) : FatM Dir := do
  let fat ← .read id
  if fat.gLen ≤ 255 then pure dir else .throw .broken

/-- `parse_lfn_name`; it returns where the short entry is. -/
def parseLfnName (dir : Dir) : FatM Dir := do
  updateBuf v dir.sect
  let fat ← .read id
  .modify fun s => { s with gCrc := fat.buf (dir.idx + 13), gLen := 0 }
  if fat.buf dir.idx &&& 0x40 = 0 then .throw .broken
  else if (fat.buf dir.idx &&& 0x1f).toNat > 20 then .throw .broken
  else do
    let dir ← takeFrags v (fat.buf dir.idx &&& 0x1f).toNat dir
    checkLen dir

/-! ## Section 5: `dir_search` -/

/-- `g_len == len && !memcmp(g_buf, name, len)` -/
def State.ParsedIs (s : State) (name : List Byte) : Prop := s.gBuf.load 0 s.gLen = name

instance (s : State) (name : List Byte) : Decidable (s.ParsedIs name) :=
  inferInstanceAs (Decidable (_ = _))

/-- The loop of `dir_search`.  It returns where the short entry is, and where its first entry. -/
def searchFrom (name : List Byte) : ℕ → Dir → FatM (Dir × Loc)
  | 0, _ => .abort
  | n + 1, dir => do
    updateBuf v dir.sect
    let fat ← .read id
    if SfnIsLast fat.buf dir.idx then .throw .eof
    else if SfnIsFree fat.buf dir.idx then do
      let next ← dirNext v dir
      searchFrom name n next
    else if SfnIsLfn fat.buf dir.idx then do
      let sfn ← parseLfnName v dir
      let fat ← .read id
      if SfnIsFree fat.buf sfn.idx ∨ SfnIsLfn fat.buf sfn.idx ∨
          fat.gCrc ≠ getCrc (sfnName fat.buf sfn.idx) then .throw .broken
      else if fat.ParsedIs name then pure (sfn, ⟨dir.sect, dir.idx⟩)
      else do
        let next ← dirNext v sfn
        searchFrom name n next
    else if sfnName fat.buf dir.idx = putSfnName name then pure (dir, ⟨dir.sect, dir.idx⟩)
    else do
      let next ← dirNext v dir
      searchFrom name n next

/-- `dir_search`: the entry of that name, from the beginning of the directory on. -/
def dirSearch (dir : Dir) (name : List Byte) : FatM (Dir × Loc) :=
  searchFrom v name (v.maxEntries + 1) (v.dirAtClust dir dir.sclust)

/-- `dir_at_root`: the place is the first slot of the root directory. -/
def Volume.DirAtRoot (dir : Dir) : Prop :=
  dir.clust = v.rootClust ∧ dir.sect = v.clustToSect v.rootClust ∧ dir.idx = 0

instance (dir : Dir) : Decidable (v.DirAtRoot dir) := inferInstanceAs (Decidable (_ ∧ _))

/-! ## Section 6: Paths -/

def slash : Byte := 0x2f

/-- The component a path starts with. -/
def firstName (path : List Byte) : List Byte := path.takeWhile fun c => c != slash

/-- `last_subpath_len`: the last component, or nothing. -/
def lastName (path : List Byte) : List Byte :=
  if (path.drop (firstName path).length).dropWhile (fun c => c == slash) = [] then firstName path
  else []

/-- What `follow_path` finds: the entry, or the directory and the first component that is not
there (`FAT_ERR_EOF`). -/
structure Found where
  found : Bool
  dir : Dir
  loc : Loc
  path : List Byte

/-- The loop of `follow_path`; each component has a character at least. -/
def followFrom : ℕ → Found → ℕ → Bool → FatM Found
  | 0, _, _, _ => .abort
  | n + 1, at_, dirClust, dirEnterable =>
    let str := at_.path.dropWhile fun c => c == slash
    if firstName str = [] then pure { at_ with path := str }
    else if !dirEnterable then .throw .path
    else do
      let r ← (dirSearch v (v.dirEnter dirClust) (firstName str)).attempt
      match r with
      | .error .eof => pure ⟨false, v.dirEnter dirClust, at_.loc, str⟩
      | .error err => .throw err
      | .ok (dir, loc) => do
        let fat ← .read id
        followFrom n ⟨true, dir, loc, str.drop (firstName str).length⟩
          (sfnCluster fat.buf dir.idx) (sfnAttr fat.buf dir.idx &&& attrDir ≠ 0)

/-- `follow_path`: from the root of the volume that the path names first, one name after the other.
-/
def followPath (path : List Byte) : FatM Found :=
  match path with
  | [] => .throw .path
  | c :: str =>
    if c ≠ slash then .throw .path
    else if firstName str = [] ∨ firstName str ≠ v.name then .throw .path
    else followFrom v (str.length + 1)
      ⟨true, v.dirEnter v.rootClust, ⟨0, 0⟩, str.drop (firstName str).length⟩
      (v.dirEnter v.rootClust).clust true

/-! ## Section 7: `dir_add` -/

/-- What the search of `dir_add` for free entries keeps. -/
structure FreeRun where
  cnt : ℕ
  sect : ℕ
  idx : ℕ
  eod : Bool
  deriving DecidableEq, Repr

/-- Look at one more entry. -/
def FreeRun.visit (r : FreeRun) (buf : Sector) (dir : Dir) : FreeRun :=
  let eod := r.eod || decide (SfnIsLast buf dir.idx)
  if r.eod ∨ SfnIsFree buf dir.idx then
    if r.cnt = 0 then ⟨1, dir.sect, dir.idx, eod⟩ else ⟨r.cnt + 1, r.sect, r.idx, eod⟩
  else ⟨0, r.sect, r.idx, eod⟩

/-- The search of `dir_add` for consecutive free entries. -/
def findSlots (need : ℕ) : ℕ → FreeRun → Dir → FatM (FreeRun × Dir)
  | 0, _, _ => .abort
  | n + 1, r, dir =>
    if need ≤ r.cnt then pure (r, dir)
    else do
      updateBuf v dir.sect
      let fat ← .read id
      let next ← dirNextStretch v dir
      findSlots need n (r.visit fat.buf dir) next

/-- Create a new end of the directory. -/
def putEod (eod : Bool) (dir : Dir) : FatM PUnit :=
  if eod then do
    updateBuf v dir.sect
    editBuf fun buf => buf.store dir.idx [0x00]
  else pure ⟨⟩

/-- The entry for fragment `i` of a long name, counted from 1. -/
def putLfn (idx : ℕ) (name : List Byte) (crc mask : Byte) (i : ℕ) (buf : Sector) : Sector :=
  let buf := putLfnNameFrag idx ((name.drop (13 * (i - 1))).take 13) buf
  let buf := buf.store (idx + 11) [attrLfn]
  let buf := buf.store idx [mask ||| BitVec.ofNat 8 i]
  let buf := buf.store (idx + 13) [crc]
  let buf := buf.store (idx + 12) [0]
  buf.store (idx + 26) (leBytes16 0)

/-- The loop of `dir_add` over the fragments. -/
def putLfns (name : List Byte) (crc : Byte) : ℕ → Byte → Dir → FatM Dir
  | 0, _, dir => pure dir
  | i + 1, mask, dir => do
    updateBuf v dir.sect
    editBuf (putLfn dir.idx name crc mask (i + 1))
    let next ← dirNext v dir
    putLfns name crc i 0 next

/-- The short entry. -/
def putSfn (idx : ℕ) (name : List Byte) (attr : Byte) (clust : ℕ) (buf : Sector) : Sector :=
  let buf := buf.store idx (putSfnName name)
  let buf := putCluster idx clust buf
  let buf := buf.store (idx + 11) [attr, 0, 0]
  let buf := buf.store (idx + 14) (leBytes16 stampTime)
  let buf := buf.store (idx + 22) (leBytes16 stampTime)
  let buf := buf.store (idx + 16) (leBytes16 stampDate)
  let buf := buf.store (idx + 24) (leBytes16 stampDate)
  let buf := buf.store (idx + 18) (leBytes16 stampDate)
  buf.store (idx + 28) (leBytes32 0)

/-- `dir_add` behind the search, which has found the free entries `r.1` and stopped at `r.2`. -/
def putEntries (name : List Byte) (attr : Byte) (clust : ℕ) (r : FreeRun × Dir) : FatM Dir := do
  putEod v r.1.eod r.2
  let sfn ← putLfns v name (getCrc (putSfnName name)) ((name.length + 12) / 13) 0x40
    ⟨r.2.sclust, v.sectToClust r.1.sect, r.1.sect, r.1.idx⟩
  updateBuf v sfn.sect
  editBuf (putSfn sfn.idx name attr clust)
  pure sfn

/-- `dir_add`; it returns where the short entry is. -/
def dirAdd (sclust : ℕ) (name : List Byte) (attr : Byte) (clust : ℕ) : FatM Dir :=
  let lfns := (name.length + 12) / 13
  if name.length = 0 ∨ name.length > 255 then .throw .param
  else do
    let r ← findSlots v (lfns + 1) (v.maxEntries + 1) ⟨0, 0, 0, false⟩ (v.dirEnter sclust)
    putEntries v name attr clust r

/-! ## Section 8: Directories -/

/-- The loop of `fat_unlink` that makes sure that a directory is empty. -/
def checkEmpty : ℕ → Dir → FatM PUnit
  | 0, _ => .abort
  | n + 1, tmp => do
    updateBuf v tmp.sect
    let fat ← .read id
    if SfnIsLast fat.buf tmp.idx then pure ⟨⟩
    else if ¬ SfnIsFree fat.buf tmp.idx then .throw .denied
    else do
      let next ← dirNext v tmp
      checkEmpty n next

/-- The loop of `remove_entries`, up to the entry `last`. -/
def removeFrom (last : Dir) : ℕ → Dir → FatM PUnit
  | 0, _ => .abort
  | n + 1, dir => do
    updateBuf v dir.sect
    editBuf fun buf => buf.store dir.idx [sfnFree]
    if dir.sect = last.sect ∧ dir.idx = last.idx then pure ⟨⟩
    else do
      let next ← dirNext v dir
      removeFrom last n next

/-- `remove_entries`: all slots of an entry are marked as deleted. -/
def removeEntries (dir : Dir) (loc : Loc) : FatM PUnit :=
  removeFrom v dir (v.maxEntries + 1)
    { dir with clust := v.sectToClust loc.sect, sect := loc.sect, idx := loc.idx }

/-- The test of `fat_unlink` on directories. -/
def checkDir (attr : Byte) (clust : ℕ) : FatM PUnit :=
  if attr &&& attrDir ≠ 0 then do
    let tmp ← dirAdvance v 2 (v.dirEnter clust)
    checkEmpty v (v.maxEntries + 1) tmp
  else pure ⟨⟩

/-- `fat_unlink`: a file that is not protected, or an empty directory, is deleted with its chain.
-/
def fatUnlink (path : List Byte) : FatM PUnit := do
  let r ← followPath v path
  if !r.found then .throw .eof
  else if v.DirAtRoot r.dir then .throw .denied
  else do
    let fat ← .read id
    -- `FAT_ATTR_RO | FAT_ATTR_SYS | FAT_ATTR_LABEL`
    if sfnAttr fat.buf r.dir.idx &&& 0x0d ≠ 0 then .throw .denied
    else do
      checkDir v (sfnAttr fat.buf r.dir.idx) (sfnCluster fat.buf r.dir.idx)
      removeChain v (sfnCluster fat.buf r.dir.idx)
      removeEntries v r.dir r.loc
      syncFs v

/-! ## Section 9: Listing -/

/-- The members of `DirInfo`; the dates and times as they stand in the entry. -/
structure DirInfo where
  name : List Byte
  size : BitVec 32
  attr : Byte
  created : List Byte
  modified : List Byte
  deriving DecidableEq, Repr

/-- The end of `fat_dir_read`, with the name in the global buffer. -/
def readInfo (dir : Dir) : FatM (DirInfo × Dir) := do
  let fat ← .read id
  pure (⟨fat.gBuf.load 0 fat.gLen, sfnSize fat.buf dir.idx, sfnAttr fat.buf dir.idx,
    fat.buf.load (dir.idx + 14) 4, fat.buf.load (dir.idx + 22) 4⟩, dir)

/-- The loop of `fat_dir_read`. -/
def readFrom : ℕ → Dir → FatM (DirInfo × Dir)
  | 0, _ => .abort
  | n + 1, dir => do
    updateBuf v dir.sect
    let fat ← .read id
    if SfnIsLast fat.buf dir.idx then .throw .eof
    else if SfnIsFree fat.buf dir.idx then do
      let next ← dirNext v dir
      readFrom n next
    else if SfnIsLfn fat.buf dir.idx then do
      let sfn ← parseLfnName v dir
      updateBuf v sfn.sect
      let fat ← .read id
      if SfnIsFree fat.buf sfn.idx ∨ fat.gCrc ≠ getCrc (sfnName fat.buf sfn.idx) then
        .throw .broken
      else readInfo sfn
    else do
      parseSfnName (sfnName fat.buf dir.idx)
      readInfo dir

/-- `fat_dir_read`; it leaves the directory at the short entry. -/
def fatDirRead (dir : Dir) : FatM (DirInfo × Dir) := readFrom v (v.maxEntries + 1) dir

/-- `fat_dir_next`, which only checks its argument before it calls `dir_next`. -/
def fatDirNext (dir : Dir) : FatM Dir := dirNext v dir

end Karnix.Fat
