import Karnix.Fat.Directory

/-!
# The FAT driver: files

`fat_file_open`, `fat_file_close`, `fat_file_read`, `fat_file_write`, `fat_file_seek` and
`fat_file_sync` of `fat.c`, on a file that belongs to a mounted volume.
-/

namespace Karnix.Fat

open Karnix.Library

variable (v : Volume)

/-! ## Section 1: Files -/

/-- The bits of `File.flags`: what the user asks for, and what the driver keeps. -/
structure FileFlags where
  write : Bool := false
  read : Bool := false
  append : Bool := false
  trunc : Bool := false
  create : Bool := false
  accessed : Bool := false
  modified : Bool := false
  fileDirty : Bool := false
  deriving DecidableEq, Repr

/-- `File`: where its entry lies, where its data begins and where it has come to, its size, and its
own buffer of a sector. -/
structure File where
  dirSect : ℕ
  dirIdx : ℕ
  sclust : ℕ
  clust : ℕ
  sect : ℕ
  size : ℕ
  offset : ℕ
  attr : Byte
  flags : FileFlags
  buf : Sector

/-- A file and the state of its volume. -/
structure Session where
  fat : State
  file : File

/-- A piece of the driver that works on an open file. -/
abbrev FileM := Fallible Err Session

/-- Work on the volume of the file. -/
def onFat {α : Type} (p : FatM α) : FileM α :=
  p.zoom Session.fat fun fat s => { s with fat := fat }

/-- Change the file. -/
def editFile (f : File → File) : FileM PUnit := .modify fun s => { s with file := f s.file }

/-- `FAT_SEEK_START`, `FAT_SEEK_CURR`, `FAT_SEEK_END` -/
inductive Whence
  | start | curr | fileEnd
  deriving DecidableEq, Repr

/-! ## Section 2: `fat_file_seek` -/

/-- `512 << file->fat->clust_shift` -/
def Volume.clustSize : ℕ := 512 * v.sectPerClust

/-- Where `offset` is counted from. -/
def File.base (f : File) : Whence → ℕ
  | .start => 0
  | .curr => f.offset
  | .fileEnd => f.size

/-- `off64`: where a seek is to go, which may be outside of what a file can be. -/
def File.target (f : File) (offset : ℤ) (seek : Whence) : ℤ := f.base seek + offset

/-- Backtracking is not possible: start the scan from the beginning. -/
def File.backtrack (f : File) (off : ℕ) : File :=
  if off / v.clustSize < f.offset / v.clustSize then
    { f with clust := f.sclust, sect := v.clustToSect f.sclust, offset := 0 }
  else f

/-- The cluster behind the one of the file; the chain is extended at its end. -/
def nextClust (clust : ℕ) : FatM ℕ := do
  let r ← getFat v clust
  if r.2 = .bad ∨ r.2 = .free then .throw .broken
  else if r.2 = .last then stretchInto v r.1 clust
  else pure r.1

/-- Follow the cluster chain. -/
def followChain : ℕ → FileM PUnit
  | 0 => pure ⟨⟩
  | n + 1 => do
    let s ← .read id
    let next ← onFat (nextClust v s.file.clust)
    editFile fun f => { f with clust := next }
    followChain n

/-- Write back the file buffer, which belongs to sector `ssect`. -/
def flushFile (ssect : ℕ) : FileM PUnit := do
  let s ← .read id
  if s.file.flags.fileDirty then do
    let ok ← onFat (opsWrite v .file s.file.buf ssect)
    if ok then editFile fun f => { f with flags := { f.flags with fileDirty := false } }
    else .throw .io
  else pure ⟨⟩

/-- Read the sector the file is at. -/
def loadFile : FileM PUnit := do
  let s ← .read id
  let r ← onFat (opsRead v s.file.sect)
  editFile fun f => { f with buf := r.1 }
  if r.2 then pure ⟨⟩ else .throw .io

/-- Update the file buffer when moving to a new sector. -/
def updateFile (ssect : ℕ) : FileM PUnit := do
  let s ← .read id
  if s.file.sect ≠ ssect then do
    flushFile v ssect
    loadFile v
  else pure ⟨⟩

/-- The file at offset `off`, in the cluster it has been brought to. -/
def File.moveTo (f : File) (off : ℕ) : File :=
  { f with sect := u32 (v.clustToSect f.clust + (off / 512 &&& v.clustMsk)), offset := off }

/-- `fat_file_seek` to an offset in range. -/
def seekTo (off : ℕ) : FileM PUnit := do
  let s ← .read id
  editFile fun f => f.backtrack v off
  let s' ← .read id
  followChain v (off / v.clustSize - s'.file.offset / v.clustSize)
  editFile fun f => f.moveTo v off
  updateFile v s.file.sect

/-- `fat_file_seek`: an offset that does not fit into 32 bits is refused. -/
def fatFileSeek (offset : ℤ) (seek : Whence) : FileM PUnit := do
  let s ← .read id
  if s.file.target offset seek < 0 ∨ s.file.target offset seek > 0xffffffff then .throw .eof
  else seekTo v (s.file.target offset seek).toNat

/-! ## Section 3: `fat_file_read` and `fat_file_write` -/

/-- The error code of a call. -/
def errOf : Except Err PUnit → Option Err
  | .ok _ => none
  | .error e => some e

/-- How many bytes a round of `fat_file_read` takes from the buffer. -/
def File.readCnt (f : File) (len : ℕ) : ℕ :=
  min len (min (512 - f.offset % 512) (f.size - f.offset))

/-- The loop of `fat_file_read`: `acc` are the bytes delivered so far.  A round takes a byte at
least. -/
def readLoop : ℕ → ℕ → List Byte → FileM (List Byte × Option Err)
  | 0, _, acc => pure (acc, none)
  | n + 1, len, acc => do
    let s ← .read id
    if len = 0 ∨ s.file.size ≤ s.file.offset then pure (acc, none)
    else do
      let r ← (fatFileSeek v (s.file.readCnt len) .curr).attempt
      match errOf r with
      | none =>
        readLoop n (len - s.file.readCnt len)
          (acc ++ s.file.buf.load (s.file.offset % 512) (s.file.readCnt len))
      | some err =>
        pure (acc ++ s.file.buf.load (s.file.offset % 512) (s.file.readCnt len), some err)

/-- `fat_file_read`: the bytes delivered, and the error code. -/
def fatFileRead (len : ℕ) : FileM (List Byte × Option Err) := do
  let s ← .read id
  if s.file.flags.read then readLoop v len len [] else pure ([], some .denied)

/-- How many bytes a round of `fat_file_write` puts into the buffer. -/
def File.writeCnt (f : File) (len : ℕ) : ℕ := min len (512 - f.offset % 512)

/-- Put bytes into the buffer. -/
def File.put (f : File) (data : List Byte) : File :=
  { f with buf := f.buf.store (f.offset % 512) data, flags := { f.flags with fileDirty := true } }

/-- The loop of `fat_file_write`; it returns the number of bytes taken. -/
def writeLoop : ℕ → List Byte → ℕ → FileM ℕ
  | 0, _, bytes => pure bytes
  | n + 1, src, bytes => do
    let s ← .read id
    if src = [] then pure bytes
    else do
      editFile fun f => f.put (src.take (f.writeCnt src.length))
      let r ← (fatFileSeek v (s.file.writeCnt src.length) .curr).attempt
      match errOf r with
      | none =>
        writeLoop n (src.drop (s.file.writeCnt src.length)) (bytes + s.file.writeCnt src.length)
      | some _ => pure (bytes + s.file.writeCnt src.length)

/-- `fat_file_write`: the number of bytes, and the error code.  The error that ends the loop is
another variable than the one returned. -/
def fatFileWrite (data : List Byte) : FileM (ℕ × Option Err) := do
  let s ← .read id
  if s.file.flags.write then do
    editFile fun f => { f with flags := { f.flags with modified := true, accessed := true } }
    let bytes ← writeLoop v data.length data 0
    editFile fun f => { f with size := max f.size f.offset }
    pure (bytes, none)
  else pure (0, some .denied)

/-! ## Section 4: `fat_file_sync` and `fat_file_close` -/

/-- The directory entry of a file that was accessed or modified. -/
def File.putEntry (f : File) (buf : Sector) : Sector :=
  let buf := if f.flags.accessed then buf.store (f.dirIdx + 18) (leBytes16 stampDate) else buf
  if f.flags.modified then
    let buf := buf.store (f.dirIdx + 11) [sfnAttr buf f.dirIdx ||| attrArchive]
    let buf := buf.store (f.dirIdx + 28) (leBytes32 (BitVec.ofNat 32 f.size))
    let buf := buf.store (f.dirIdx + 24) (leBytes16 stampDate)
    buf.store (f.dirIdx + 22) (leBytes16 stampTime)
  else buf

/-- Write the buffer of a modified file. -/
def syncData : FileM PUnit := do
  let s ← .read id
  if s.file.flags.modified then do
    let ok ← onFat (opsWrite v .file s.file.buf s.file.sect)
    if ok then pure ⟨⟩ else .throw .io
  else pure ⟨⟩

/-- Update the directory entry. -/
def syncEntry : FileM PUnit := do
  let s ← .read id
  if s.file.flags.accessed ∨ s.file.flags.modified then onFat do
    updateBuf v s.file.dirSect
    editBuf s.file.putEntry
  else pure ⟨⟩

/-- `fat_file_sync`: the buffer of the file, its entry, and then the volume are written out. -/
def fatFileSync : FileM PUnit := do
  syncData v
  syncEntry v
  onFat (syncFs v)
  editFile fun f => { f with flags := { f.flags with accessed := false, modified := false } }

/-- `fat_file_close`, which leaves nothing open but what `fat_file_sync` brings to the disk. -/
def fatFileClose : FileM PUnit := fatFileSync v

/-! ## Section 5: `fat_file_open` -/

/-- Where `fat_file_open` finds the entry of the file, or puts it. -/
def openEntry (path : List Byte) (flags : FileFlags) : FatM Dir := do
  let r ← followPath v path
  if r.found then pure r.dir
  else if !flags.create then .throw .denied
  else if lastName r.path = [] then .throw .path
  else do
    let clust ← createChain v
    dirAdd v r.dir.sclust (lastName r.path) attrArchive clust

/-- The file for the entry at `dir`, which is in the buffer of the volume. -/
def File.ofEntry (s : State) (dir : Dir) (flags : FileFlags) (buf : Sector) : File :=
  let size := (sfnSize s.buf dir.idx).toNat
  { dirSect := dir.sect
    dirIdx := dir.idx
    sclust := sfnCluster s.buf dir.idx
    clust := sfnCluster s.buf dir.idx
    sect := 0xffffffff
    offset := 0
    attr := sfnAttr s.buf dir.idx
    size := if flags.trunc then 0 else size
    flags := if size ≠ 0 ∧ flags.trunc then { flags with modified := true } else flags
    buf := buf }

/-- `fat_file_open`, into a `File` whose members have any value. -/
def fatFileOpen (path : List Byte) (flags : FileFlags) : FileM PUnit := do
  let dir ← onFat (openEntry v path flags)
  .modify fun s => { s with file := .ofEntry s.fat dir flags s.file.buf }
  fatFileSeek v 0 (if flags.append then .fileEnd else .start)

end Karnix.Fat
