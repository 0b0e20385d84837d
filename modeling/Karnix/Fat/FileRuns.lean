import Karnix.Fat.FileSync
import Karnix.Fat.Paths

/-!
# Files as byte sequences

To its user a file is a sequence of bytes with a size and a position.  Over every run of writes,
reads, seeks and syncs for which the volume has room, the driver delivers what this sequence says,
and after `fat_file_close` the disk holds it.
-/

namespace Karnix.Fat

open Karnix.Library
open Fallible (Succeeds Fails Ends)
open Link (Chain freeCount)

/-! ## Section 1: The file of the user -/

/-- A byte is known if it was there at the start or has been written since. -/
structure PlainFile where
  size : ℕ
  offset : ℕ
  content : ℕ → Option Byte

/-- A call of the user. -/
inductive FileOp
  | write (src : List Byte)
  | read (len : ℕ)
  | seek (offset : ℤ) (whence : Whence)
  | sync

namespace PlainFile

/-- Where a seek is counted from. -/
def base (a : PlainFile) : Whence → ℕ
  | .start => 0
  | .curr => a.offset
  | .fileEnd => a.size

/-- How many bytes a read delivers. -/
def readCnt (a : PlainFile) (len : ℕ) : ℕ := min len (a.size - a.offset)

/-- Where a call leaves the file. -/
def target (a : PlainFile) : FileOp → ℤ
  | .write src => a.offset + src.length
  | .read len => a.offset + a.readCnt len
  | .seek offset whence => a.base whence + offset
  | .sync => a.offset

/-- A call: a write changes the bytes from the offset on, and the size if it goes beyond. -/
def step (a : PlainFile) (op : FileOp) : PlainFile :=
  match op with
  | .write src =>
    { size := max a.size (a.offset + src.length)
      offset := a.offset + src.length
      content := fun i =>
        if a.offset ≤ i ∧ i < a.offset + src.length then src[i - a.offset]? else a.content i }
  | op => { a with offset := (a.target op).toNat }

/-- The bytes `out` are those from the offset on, as far as they are known. -/
def Shows (a : PlainFile) (out : List Byte) : Prop :=
  ∀ k b, k < out.length → a.content (a.offset + k) = some b → out[k]? = some b

/-- What a call returns. -/
def Returns (a : PlainFile) : FileOp → List Byte × Option Err → Prop
  | .read len, out => out.1.length = a.readCnt len ∧ a.Shows out.1 ∧ out.2 = none
  | _, out => out = ([], none)

/-- A call stays in the file's range, and in the room that the volume has for it: a cluster is
left over. -/
def Fits (a : PlainFile) (v : Volume) (room : ℕ) (op : FileOp) : Prop :=
  0 ≤ a.target op ∧ a.target op ≤ 0xffffffff ∧ (a.target op).toNat / v.clustSize + 2 ≤ room

/-- A run of the operations on the byte sequence. -/
def run (a : PlainFile) : List FileOp → PlainFile := List.foldl step a

/-- What a run returns, operation by operation. -/
def Outputs (a : PlainFile) : List FileOp → List (List Byte × Option Err) → Prop
  | [], outs => outs = []
  | op :: ops, outs =>
    ∃ out rest, outs = out :: rest ∧ a.Returns op out ∧ (a.step op).Outputs ops rest

/-- A run for which there is room. -/
def RunFits (a : PlainFile) (v : Volume) (room : ℕ) : List FileOp → Prop
  | [] => True
  | op :: ops => a.Fits v room op ∧ (a.step op).RunFits v room ops

end PlainFile

/-! ## Section 2: The file of the driver -/

variable (v : Volume) (L : List (List ℕ)) (l : List ℕ)

/-- The call of the driver. -/
def FileOp.run : FileOp → FileM (List Byte × Option Err)
  | .write src => do
    let r ← fatFileWrite v src
    pure ([], r.2)
  | .read len => fatFileRead v len
  | .seek offset whence => do
    fatFileSeek v offset whence
    pure ([], none)
  | .sync => do
    fatFileSync v
    pure ([], none)

/-- A run of calls of the driver, with what each of them returns. -/
def runFile : List FileOp → FileM (List (List Byte × Option Err))
  | [] => pure []
  | op :: ops => do
    let out ← op.run v
    let outs ← runFile ops
    pure (out :: outs)

/-- The file of the driver stands for the one of the user. -/
structure Session.Implements (s : Session) (a : PlainFile) : Prop extends
    s.Open v L l, s.HasEntry v L l where
  saved : s.Saved
  read : s.file.flags.read = true
  write : s.file.flags.write = true
  offset : s.file.offset = a.offset
  size : s.file.size = a.size
  sized : a.size ≤ 512 * v.sectCnt l
  content : ∀ i b, a.content i = some b → i < 512 * v.sectCnt l ∧ s.byteAt v l i = b

variable {v L l} {L' : List (List ℕ)} {l' : List ℕ} {s s' : Session} {a : PlainFile}

/-- What an access keeps, whatever it does to position and contents. -/
theorem Session.Implements.of_moves {a' : PlainFile} (h : s.Implements v L l a)
    (hm : s.Moves v L l L' l' s')
    (hdir : sfnCluster (s'.fat.view s.file.dirSect) s.file.dirIdx = s.file.sclust)
    (hsaved : s'.Saved) (hoff : s'.file.offset = a'.offset) (hsize : s'.file.size = a'.size)
    (hsized : a'.size ≤ 512 * v.sectCnt l')
    (hcontent : ∀ i b, a'.content i = some b → i < 512 * v.sectCnt l' ∧ s'.byteAt v l' i = b) :
    s'.Implements v L' l' a' := by
  refine ⟨hm.opened, ⟨hm.dir h.dir, ?_⟩, hsaved, hm.read.trans h.read, hm.write.trans h.write,
    hoff, hsize, hsized, hcontent⟩
  rw [hm.dirSect, hm.dirIdx, hm.sclust]
  exact hdir

/-! ## Section 3: Each call -/

section Laid

variable (hv : v.Laid) (hd : v.DataLaid)
include hv hd

/-- The sector with the entry is not touched but by a sync. -/
theorem Session.Moves.view_dirSect (hm : s.Moves v L l L' l' s') (h : s.HasEntry v L l)
    (hquiet : ∀ sect, ¬ v.Reserved sect → ¬ v.InData l' sect →
      s'.fat.view sect = s.fat.view sect) :
    s'.fat.view s.file.dirSect = s.fat.view s.file.dirSect := by
  obtain ⟨m, hm', hne, hin⟩ := hm.dir h.dir
  rw [hm.dirSect] at hin
  obtain ⟨hres, hdata⟩ := sect_apart hv hd hm.opened.books hm.opened.mem hm' hne hin
  exact hquiet _ hres hdata

/-- After a seek the position is the one that the user has asked for. -/
theorem Session.Implements.of_sought {off : ℕ} (h : s.Implements v L l a)
    (hs : s.Sought v L l off L' l' s') : s'.Implements v L' l' { a with offset := off } := by
  have hdir := hs.toMoves.view_dirSect hv hd h.toHasEntry hs.quiet
  have hgrown := sectCnt_grown (v := v) hs.grows
  refine h.of_moves hs.toMoves (by rw [hdir, h.cluster]) (fun hmod => ?_) hs.offset
    (hs.size.trans h.size) (h.sized.trans (by omega)) fun i b hi => ?_
  · obtain ⟨hbuf, hsize⟩ := h.saved (hs.modified ▸ hmod)
    refine ⟨hs.loaded hbuf, ?_⟩
    rw [hs.dirSect, hs.dirIdx, hs.size, hdir, hsize]
  · obtain ⟨hlt, hbyte⟩ := h.content i b hi
    exact ⟨by omega, by rw [hs.byteAt hlt, hbyte]⟩

/-- After a write the bytes of the user stand in the file, and nothing else has changed. -/
theorem Session.Implements.of_wrote {src : List Byte} (h : s.Implements v L l a)
    (hw : s.Wrote v L l src L' l' s')
    (hsize : s'.file.size = max s.file.size (s.file.offset + src.length))
    (hmod : s'.file.flags.modified = true) : s'.Implements v L' l' (a.step (.write src)) := by
  have hdir := hw.toMoves.view_dirSect hv hd h.toHasEntry hw.quiet
  have hgrown := sectCnt_grown (v := v) hw.grows
  have hend := hw.opened.sector_lt
  rw [hw.offset] at hend
  refine h.of_moves hw.toMoves (by rw [hdir, h.cluster]) (fun hmod' => ?_) ?_ ?_ ?_ fun i b hi => ?_
  · rw [hmod] at hmod'
    cases hmod'
  · rw [hw.offset, h.offset]
    rfl
  · rw [hsize, h.size, h.offset]
    rfl
  · have hsized := h.sized
    have hoff := h.offset
    show max a.size (a.offset + src.length) ≤ _
    omega
  · rw [PlainFile.step] at hi
    simp only at hi
    rw [← h.offset] at hi
    split_ifs at hi with hin
    · refine ⟨by omega, ?_⟩
      rw [hw.bytes i (.inr hin), written, if_pos hin, List.getD_eq_getElem?_getD, hi]
      rfl
    · obtain ⟨hlt, hbyte⟩ := h.content i b hi
      refine ⟨by omega, ?_⟩
      rw [hw.bytes i (.inl hlt), written, if_neg hin, hbyte]

end Laid

/-- After a sync the file holds what it held before. -/
theorem Session.Implements.of_stored (h : s.Implements v L l a) (hs : s.Stored v L l s') :
    s'.Implements v L l a := by
  have hclean : s'.fat.view = s'.fat.disk := State.view_of_clean hs.onDisk.synced.1
  have hsectors : ∀ q < v.sectCnt l, s'.sector v l q = s.sector v l q := by
    intro q hq
    rw [Session.sector, hs.offset, hclean, hs.onDisk.disk q hq, hs.buf]
    split_ifs with hcur
    · rw [Session.sector, if_pos hcur]
    · rfl
  refine h.of_moves hs.toMoves ?_ (fun _ => ⟨?_, ?_⟩) (hs.offset.trans h.offset)
    (hs.size.trans h.size) h.sized fun i b hi => ?_
  · rw [hclean]
    exact hs.onDisk.dirCluster
  · have hcur := hs.opened.sector_lt
    rw [hs.opened.sect, hclean, hs.onDisk.disk _ hcur, ← hsectors _ hcur, Session.sector,
      if_pos rfl]
  · rw [hs.dirSect, hs.dirIdx, hs.size, hclean]
    exact hs.onDisk.dirSize
  · obtain ⟨hlt, hbyte⟩ := h.content i b hi
    exact ⟨hlt, by rw [Session.byteAt, hsectors _ (by omega), ← hbyte, Session.byteAt]⟩

/-- The bytes of the driver are those of the user. -/
theorem Session.Implements.shows (h : s.Implements v L l a) (n : ℕ) :
    a.Shows (s.bytes v l n) := by
  intro k b hk hb
  rw [length_bytes] at hk
  obtain ⟨-, hbyte⟩ := h.content _ _ hb
  rw [Session.bytes, List.getElem?_map, List.getElem?_range hk, Option.map_some, h.offset, hbyte]

section Calls

variable [v.ops.Reliable] (hv : v.Laid) (hd : v.DataLaid)
include hv hd

/-- **Step lemma.** A call of the driver does what the call of the user says. -/
theorem run_implements {op : FileOp} (h : s.Implements v L l a)
    (hfits : a.Fits v (s.room v l) op) :
    Succeeds (op.run v) s fun out s' => a.Returns op out ∧
      ∃ L' l', s'.Implements v L' l' (a.step op) ∧ s.Moves v L l L' l' s' := by
  obtain ⟨hlow, hmax, hroom⟩ := hfits
  cases op with
  | write src =>
    have htarget : (a.target (.write src)).toNat = s.file.offset + src.length := by
      rw [h.offset]
      exact Int.toNat_natCast _
    have hle : s.file.offset + src.length ≤ 0xffffffff := by
      rw [← htarget]
      omega
    rw [htarget] at hroom
    refine (fatFileWrite_spec hv hd h.toOpen h.write hle hroom).bind ?_
    rintro _ s' ⟨rfl, L', l', hw, hsize, hmod⟩
    exact .pure ⟨rfl, L', l', h.of_wrote hv hd hw hsize hmod, hw.toMoves⟩
  | read len =>
    have hcnt : a.readCnt len = min len (s.file.size - s.file.offset) := by
      rw [h.size, h.offset]
      rfl
    have htarget : (a.target (.read len)).toNat = s.file.offset + a.readCnt len := by
      rw [h.offset]
      exact Int.toNat_natCast _
    have hle : s.file.offset + a.readCnt len ≤ 0xffffffff := by
      rw [← htarget]
      omega
    have hsize : s.file.size ≤ 512 * v.sectCnt l := by
      rw [h.size]
      exact h.sized
    rw [htarget] at hroom
    refine (fatFileRead_spec hv hd h.toOpen h.read hsize hcnt hle hroom).mono ?_
    rintro _ s' ⟨rfl, L', l', hs⟩
    refine ⟨⟨length_bytes _, h.shows _, rfl⟩, L', l', ?_, hs.toMoves⟩
    have himp := h.of_sought hv hd hs
    rwa [← htarget] at himp
  | seek offset whence =>
    have htarget : s.file.target offset whence = (a.target (.seek offset whence)).toNat := by
      rw [Int.toNat_of_nonneg hlow, File.target]
      cases whence <;> simp [File.base, PlainFile.target, PlainFile.base, h.offset, h.size]
    refine (fatFileSeek_sought hv hd h.toOpen htarget (by omega) hroom).bind ?_
    rintro _ s' ⟨L', l', hs⟩
    exact .pure ⟨rfl, L', l', h.of_sought hv hd hs, hs.toMoves⟩
  | sync =>
    refine (fatFileSync_stored hv hd h.toOpen h.toHasEntry h.saved).bind ?_
    rintro _ s' hs
    exact .pure ⟨rfl, L, l, h.of_stored hs, hs.toMoves⟩

/-- **Run lemma.**  The calls of a run return what the byte sequence says, and the file holds it.
-/
theorem runFile_implements (ops : List FileOp) (h : s.Implements v L l a)
    (hfits : a.RunFits v (s.room v l) ops) :
    Succeeds (runFile v ops) s fun outs s' => a.Outputs ops outs ∧
      ∃ L' l', s'.Implements v L' l' (a.run ops) ∧ s.Moves v L l L' l' s' := by
  induction ops generalizing s a L l with
  | nil => exact .pure ⟨rfl, L, l, h, .refl h.toOpen⟩
  | cons op ops ih =>
    refine (run_implements hv hd h hfits.1).bind ?_
    rintro out s₁ ⟨hout, L₁, l₁, h₁, hm₁⟩
    refine (ih h₁ (by rw [hm₁.room]; exact hfits.2)).bind ?_
    rintro outs s' ⟨houts, L', l', h', hm⟩
    exact .pure ⟨⟨out, outs, rfl, hout, houts⟩, L', l', h', hm₁.trans hm⟩

end Calls

/-! ## Section 4: Closing -/

/-- Where a file is: its first cluster, and its entry. -/
structure FilePlace where
  sclust : ℕ
  dirSect : ℕ
  dirIdx : ℕ

def File.place (f : File) : FilePlace := ⟨f.sclust, f.dirSect, f.dirIdx⟩

/-- The volume has the file `a`: its chain in the FAT, its bytes in the sectors of the chain, and
its size and its first cluster in its entry, which belongs to another chain. -/
structure State.Stores (v : Volume) (L : List (List ℕ)) (l : List ℕ) (p : FilePlace)
    (a : PlainFile) (t : State) : Prop where
  books : t.Books v L
  mem : l ∈ L
  head : l.head? = some p.sclust
  parent : ∃ m ∈ L, m ≠ l ∧ v.InData m p.dirSect
  content : ∀ i b, a.content i = some b →
    i < 512 * v.sectCnt l ∧ t.disk (v.sectAt l (i / 512)) (i % 512) = b
  size : sfnSize (t.disk p.dirSect) p.dirIdx = BitVec.ofNat 32 a.size
  cluster : sfnCluster (t.disk p.dirSect) p.dirIdx = p.sclust
  sized : a.size ≤ 512 * v.sectCnt l
  bounded : a.size ≤ 0xffffffff

/-- A run in its range leaves the size of the file there. -/
theorem PlainFile.run_size_le {room : ℕ} (ops : List FileOp) (hsize : a.size ≤ 0xffffffff)
    (hfits : a.RunFits v room ops) : (a.run ops).size ≤ 0xffffffff := by
  induction ops generalizing a with
  | nil => exact hsize
  | cons op ops ih =>
    refine ih (a := a.step op) ?_ hfits.2
    obtain ⟨-, hmax, -⟩ := hfits.1
    cases op with
    | write src =>
      have htarget : (a.offset : ℤ) + src.length ≤ 0xffffffff := hmax
      show max a.size (a.offset + src.length) ≤ 0xffffffff
      omega
    | read len => exact hsize
    | seek offset whence => exact hsize
    | sync => exact hsize

/-- Calls, and the file closed after them. -/
def runAndClose (v : Volume) (ops : List FileOp) : FileM (List (List Byte × Option Err)) := do
  let outs ← runFile v ops
  fatFileClose v
  pure outs

section Close

variable [v.ops.Reliable] (hv : v.Laid) (hd : v.DataLaid)
include hv hd

/-- After a run and `fat_file_close` the volume has the file that the user has made of it. -/
theorem runAndClose_stores (ops : List FileOp) (h : s.Implements v L l a)
    (hbounded : a.size ≤ 0xffffffff) (hfits : a.RunFits v (s.room v l) ops) :
    Succeeds (runAndClose v ops) s fun outs s' => a.Outputs ops outs ∧
      ∃ L' l', s.Moves v L l L' l' s' ∧ s'.fat.Stores v L' l' s.file.place (a.run ops) := by
  refine (runFile_implements hv hd ops h hfits).bind ?_
  rintro outs s₁ ⟨houts, L', l', h₁, hm⟩
  refine (fatFileSync_stored hv hd h₁.toOpen h₁.toHasEntry h₁.saved).bind fun _ s' hs => ?_
  have hplace : s.file.place = s₁.file.place := by
    rw [File.place, File.place, hm.sclust, hm.dirSect, hm.dirIdx]
  rw [hplace]
  refine .pure ⟨houts, L', l', hm.trans hs.toMoves, hs.opened.books, hs.opened.mem, h₁.head,
    h₁.dir, fun i b hi => ?_, ?_, hs.onDisk.dirCluster, h₁.sized,
    PlainFile.run_size_le ops hbounded hfits⟩
  · obtain ⟨hlt, hbyte⟩ := h₁.content i b hi
    exact ⟨hlt, by rw [hs.onDisk.disk _ (by omega), ← hbyte, Session.byteAt]⟩
  · rw [← h₁.size]
    exact hs.onDisk.dirSize

end Close

/-! ## Section 5: Opening -/

/-- `FAT_READ | FAT_WRITE`: the flags that a file is opened with here. -/
def readWrite : FileFlags := { write := true, read := true }

/-- `fat_file_open` for reading and writing, once the entry is found. -/
def openFound (v : Volume) (dir : Dir) : FileM PUnit := do
  .modify fun s => { s with file := .ofEntry s.fat dir readWrite s.file.buf }
  fatFileSeek v 0 .start

theorem fatFileOpen_eq (v : Volume) (path : List Byte) : fatFileOpen v path readWrite = (do
    let dir ← onFat (openEntry v path readWrite)
    openFound v dir) := rfl

/-- The search for its path has found the file. -/
structure State.AtEntry (v : Volume) (L : List (List ℕ)) (l : List ℕ) (p : FilePlace)
    (a : PlainFile) (dir : Dir) (t : State) : Prop extends t.Stores v L l p a where
  dirSect : dir.sect = p.dirSect
  dirIdx : dir.idx = p.dirIdx
  sect : t.sect = p.dirSect

variable {p : FilePlace} {dir : Dir} {t : State}

/-- The members of the file that is opened. -/
theorem ofEntry_eq (h : t.AtEntry v L l p a dir) (buf : Sector) :
    File.ofEntry t dir readWrite buf =
      { dirSect := p.dirSect, dirIdx := p.dirIdx, sclust := p.sclust, clust := p.sclust
        sect := 0xffffffff, size := a.size, offset := 0, attr := sfnAttr t.buf p.dirIdx
        flags := readWrite, buf := buf } := by
  have hbuf : t.buf = t.disk p.dirSect := by
    rw [← State.view_of_clean h.books.clean, ← h.sect]
    exact WriteBack.Coherent.line_eq h.books.exact (Set.mem_univ _)
  have hcluster : sfnCluster t.buf p.dirIdx = p.sclust := by rw [hbuf, h.cluster]
  have hsize : (sfnSize t.buf p.dirIdx).toNat = a.size := by
    have hbounded := h.bounded
    rw [hbuf, h.size, BitVec.toNat_ofNat]
    exact Nat.mod_eq_of_lt (by omega)
  rw [File.ofEntry, h.dirSect, h.dirIdx, hcluster, hsize]
  simp [readWrite]

/-- A buffer that is as its sector hides nothing. -/
theorem Session.Open.sector_eq (h : s.Open v L l) (hbuf : s.file.buf = s.fat.view s.file.sect)
    (q : ℕ) : s.sector v l q = s.fat.view (v.sectAt l q) := by
  rw [Session.sector]
  split_ifs with hq
  · rw [hbuf, h.sect, hq]
  · rfl

/-- A buffer that has not been changed is not written when the file moves to another sector. -/
theorem updateFile_clean [v.ops.Reliable] {ssect : ℕ} (h : s.file.flags.fileDirty = false)
    (hne : s.file.sect ≠ ssect) :
    Succeeds (updateFile v ssect) s fun _ s' => s'.fat = { s.fat with calls := s.fat.calls + 1 } ∧
      s'.file = { s.file with buf := s.fat.disk s.file.sect } := by
  have hflush : Succeeds (flushFile v ssect) s fun _ s' => s = s' := by
    refine Succeeds.read_bind ?_
    simp only [id, h, Bool.false_eq_true, if_false]
    exact .pure rfl
  refine Succeeds.read_bind ?_
  simp only [id]
  rw [if_pos hne]
  refine hflush.bind ?_
  rintro _ _ rfl
  exact (loadFile_spec s).mono fun _ s' h => ⟨h.2, h.1⟩

theorem updateFile_moved [v.ops.Reliable] {sect : ℕ} (h : s.file.flags.fileDirty = false)
    (hne : sect ≠ s.file.sect) :
    Succeeds (updateFile v s.file.sect)
      { s with file := { s.file with sect := sect, offset := 0 } } fun _ s' =>
      s'.fat = { s.fat with calls := s.fat.calls + 1 } ∧
        s'.file = { s.file with sect := sect, offset := 0, buf := s.fat.disk sect } :=
  updateFile_clean h hne

section Open

variable [v.ops.Reliable] (hv : v.Laid) (hd : v.DataLaid)
include hv hd

/-- The first seek of a file loads its first sector. -/
theorem seekTo_zero (hl : ∀ c ∈ l, v.IsClust c)
    (hclust : l[0]? = some s.file.clust) (hoff : s.file.offset = 0)
    (hdirty : s.file.flags.fileDirty = false) (hne : v.sectAt l 0 ≠ s.file.sect) :
    Succeeds (seekTo v 0) s fun _ s' => s'.fat = { s.fat with calls := s.fat.calls + 1 } ∧
      s'.file = { s.file with
        sect := v.sectAt l 0, offset := 0, buf := s.fat.disk (v.sectAt l 0) } := by
  have hback : s.file.backtrack v 0 = s.file := by
    rw [File.backtrack, hoff, if_neg (Nat.lt_irrefl _)]
  have hsect : (s.file.moveTo v 0).sect = v.sectAt l (0 / 512) :=
    moveTo_sect hv hd hl (by rw [Nat.zero_div, hclust])
  rw [Nat.zero_div] at hsect
  have hmove : s.file.moveTo v 0 = { s.file with sect := v.sectAt l 0, offset := 0 } := by
    rw [← hsect, File.moveTo]
  have hstay : Succeeds
      (followChain v (0 / v.clustSize - (s.file.backtrack v 0).offset / v.clustSize))
      { s with file := s.file.backtrack v 0 } fun _ s₁ => s = s₁ := by
    rw [Nat.zero_div, Nat.zero_sub, hback]
    exact .pure rfl
  refine Succeeds.read_bind (Succeeds.modify_bind (Succeeds.read_bind (hstay.bind ?_)))
  rintro _ _ rfl
  refine Succeeds.modify_bind ?_
  simp only [hmove]
  exact updateFile_moved hdirty hne

omit [v.ops.Reliable] in
/-- The first sector of a chain is in the data area. -/
theorem sectAt_zero_lt {c : ℕ} (hc : v.IsClust c) (hhead : l.head? = some c) :
    v.sectAt l 0 < v.dataSect + (v.clustCnt - 2) * v.sectPerClust := by
  have hpos := sectPerClust_pos v
  have hle : (c - 2 + 1) * v.sectPerClust ≤ (v.clustCnt - 2) * v.sectPerClust :=
    Nat.mul_le_mul_right _ (by have := hc.1; have := hc.2; omega)
  rw [Nat.add_mul, Nat.one_mul] at hle
  rw [Volume.sectAt, Nat.zero_div, List.getD_eq_getElem?_getD, ← List.head?_eq_getElem?, hhead,
    Option.getD_some, (clustToSect_eq hv hd hc).1, Nat.zero_mod]
  omega

/-- The file that is opened is the one that the volume has. -/
theorem openFound_implements
    (hmax : v.dataSect + (v.clustCnt - 2) * v.sectPerClust ≤ 0xffffffff)
    (h : s.fat.AtEntry v L l p a dir) :
    Succeeds (openFound v dir) s fun _ s' => s'.Implements v L l { a with offset := 0 } ∧
      s'.fat = { s.fat with calls := s.fat.calls + 1 } ∧ s'.file.place = p := by
  have hclean : s.fat.view = s.fat.disk := State.view_of_clean h.books.clean
  obtain ⟨m, hm, hne, hin⟩ := h.parent
  obtain ⟨-, hapart⟩ := sect_apart hv hd h.books h.mem hm hne hin
  have hclust : ∀ c ∈ l, v.IsClust c := fun _ => h.books.isClust h.mem
  have hfirst : l[0]? = some p.sclust := by rw [← List.head?_eq_getElem?, h.head]
  have hlt := sectAt_zero_lt hv hd (hclust _ (List.mem_of_getElem? hfirst)) h.head
  refine Succeeds.modify_bind ?_
  rw [ofEntry_eq h]
  refine Succeeds.of_eq (q := seekTo v 0) rfl ?_
  refine (seekTo_zero hv hd hclust hfirst rfl rfl (Nat.ne_of_lt (hlt.trans_le hmax))).mono ?_
  rintro _ s' ⟨hfat, hfile⟩
  have hview : s'.fat.view = s.fat.disk := by
    rw [hfat, ← hclean]
    rfl
  have hbooks : s'.fat.Books v L := by
    have hb := h.books
    rw [hfat]
    exact ⟨hb.exact, hb.hint, hb.valid, hb.mirrored, hb.keeps, hb.freeCnt, hb.clean, hb.info⟩
  have hbuf : s'.file.buf = s'.fat.view s'.file.sect := by rw [hview, hfile]
  have hopen : s'.Open v L l := by
    refine ⟨hbooks, h.mem, ?_, ?_, ?_, fun _ => hbuf, ?_⟩
    · rw [hfile, h.head]
    · rw [hfile]
      show l[0 / v.clustSize]? = some p.sclust
      rw [Nat.zero_div, hfirst]
    · rw [hfile]
      show v.sectAt l 0 = v.sectAt l (0 / 512)
      rw [Nat.zero_div]
    · rw [hfat]
      exact h.sect ▸ hapart
  refine ⟨⟨hopen, ⟨?_, ?_⟩, fun _ => ⟨hbuf, ?_⟩, ?_, ?_, ?_, ?_, h.sized, fun i b hi => ?_⟩, hfat,
    ?_⟩
  · rw [hfile]
    exact ⟨m, hm, hne, hin⟩
  · rw [hview, hfile]
    exact h.cluster
  · rw [hview, hfile]
    exact h.size
  rotate_right 2
  · obtain ⟨hlt, hbyte⟩ := h.content i b hi
    exact ⟨hlt, by rw [Session.byteAt, hopen.sector_eq hbuf, hview, hbyte]⟩
  all_goals exact hfile ▸ rfl

omit hv hd in
/-- The search for the path has found the entry, and left the volume alone. -/
theorem atEntry_of_namedBy {loc : Loc} (h : s.fat.Stores v L l p a)
    (hnamed : namedBy v path s.fat = (some (.ok (some (.entry dir loc))), t))
    (hdir : dir.sect = p.dirSect ∧ dir.idx = p.dirIdx) :
    t.AtEntry v L l p a dir ∧ t.view = s.fat.view := by
  have hview := view_of_namedBy hnamed
  have hbooks : t.Books v L := h.books.of_peek hview
    (keeps_of_namedBy (R := State.StaysExact) hnamed h.books.exact) (keeps_of_namedBy hnamed)
  have hdisk : t.disk = s.fat.disk := by
    rw [← State.view_of_clean hbooks.clean, hview, State.view_of_clean h.books.clean]
  refine ⟨⟨⟨hbooks, h.mem, h.head, h.parent, ?_, ?_, ?_, h.sized, h.bounded⟩, hdir.1, hdir.2,
    (namedBy_sect hnamed).trans hdir.1⟩, hview⟩
  · exact hdisk ▸ h.content
  · exact hdisk ▸ h.size
  · exact hdisk ▸ h.cluster

/-- Opening a file, a run of calls, and closing it. -/
def openRunClose (v : Volume) (path : List Byte) (ops : List FileOp) :
    FileM (List (List Byte × Option Err)) := do
  fatFileOpen v path readWrite
  runAndClose v ops

/-- **Files.** If the volume has a file that the path names and there is room, it may be opened,
written, read, brought to the disk and sought in at will: the calls return what the byte sequence
of the user says, and after `fat_file_close` the volume has the file that the user has made of it.
It takes free clusters only.  The other chains are as they were, and so are all sectors but those
of the FATs, the file and its entry. -/
theorem openRunClose_stores {loc : Loc}
    (hmax : v.dataSect + (v.clustCnt - 2) * v.sectPerClust ≤ 0xffffffff) (ops : List FileOp)
    (h : s.fat.Stores v L l p a)
    (hnamed : namedBy v path s.fat = (some (.ok (some (.entry dir loc))), t))
    (hdir : dir.sect = p.dirSect ∧ dir.idx = p.dirIdx)
    (hfits : { a with offset := 0 : PlainFile }.RunFits v
      (l.length + freeCount (v.table s.fat.view) v.clusts) ops) :
    Succeeds (openRunClose v path ops) s fun outs s' =>
      { a with offset := 0 : PlainFile }.Outputs ops outs ∧
      ∃ L' l', s'.fat.Stores v L' l' p ({ a with offset := 0 : PlainFile }.run ops) ∧
        l <+: l' ∧ (∀ c ∈ l', c ∉ l → v.table s.fat.view c = .free) ∧
        (∀ m ∈ L, m ≠ l → m ∈ L' ∧ m ≠ l') ∧
        ∀ sect, ¬ v.Reserved sect → ¬ v.InData l' sect → sect ≠ p.dirSect →
          s'.fat.disk sect = s.fat.disk sect := by
  obtain ⟨hentry, hseen⟩ := atEntry_of_namedBy h hnamed hdir
  have hopen : onFat (openEntry v path readWrite) s = (some (.ok dir), { s with fat := t }) := by
    rw [onFat, Fallible.zoom, openEntry_named hnamed]
    rfl
  have hfound : Succeeds (fatFileOpen v path readWrite) s fun _ s' =>
      s'.Implements v L l { a with offset := 0 } ∧ s'.fat = { t with calls := t.calls + 1 } ∧
        s'.file.place = p := by
    refine Succeeds.of_eq ?_ (openFound_implements (s := { s with fat := t }) hv hd hmax hentry)
    rw [fatFileOpen_eq, Fallible.bind_of_ok hopen]
  refine hfound.bind ?_
  rintro _ s₁ ⟨himp, hfat, hplace⟩
  have hview : s₁.fat.view = s.fat.view := by
    rw [hfat, ← hseen]
    rfl
  have hroom : s₁.room v l = l.length + freeCount (v.table s.fat.view) v.clusts := by
    rw [Session.room, hview]
  refine (runAndClose_stores hv hd ops himp h.bounded (hroom ▸ hfits)).mono ?_
  rintro outs s' ⟨houts, L', l', hm, hs⟩
  rw [hplace] at hs
  refine ⟨houts, L', l', hs, hm.grows, hview ▸ hm.takes.free, hm.others,
    fun sect hres hin hdir => ?_⟩
  have hdirSect : s₁.file.dirSect = p.dirSect := congrArg FilePlace.dirSect hplace
  have hrest := hm.rest sect hres hin (hdirSect ▸ hdir)
  rwa [State.view_of_clean hs.books.clean, hview, State.view_of_clean h.books.clean] at hrest

end Open

/-! ## Section 6: A card -/

section Card

theorem pairVolume_dataLaid : pairVolume.DataLaid where
  mask := by decide
  fits := by decide
  behind sect h := by
    show sect < 1072
    rcases h with h | ⟨c, hc, h | ⟨-, h⟩⟩
    · have hinfo : sect = 1 := h
      omega
    · have hlt : c < 66560 := hc
      have hsect : sect = 32 + c / 128 := h
      omega
    · have hlt : c < 66560 := hc
      have hsect : sect = 552 + c / 128 := h
      omega

/-- The first sector of a FAT with two chains of one cluster. -/
def filedFat : Sector := setItem 3 0x0fffffff (setItem 2 0x0fffffff fun _ => 0)

/-- A directory with a deleted entry and an empty file named `A`. -/
def filedDir : Sector :=
  putCluster 32 3 (Memory.store (Memory.store (fun _ => 0) 0 [0xe5]) 32
    (putSfnName [0x41] ++ [attrArchive]))

/-- A card with the root directory and an empty file. -/
def cardFiled : State :=
  { cardState 3 with
    freeCnt := 66556
    disk := fun sect =>
      if sect = 1 then putInfo 3 66556 fun _ => 0
      else if sect = 32 ∨ sect = 552 then filedFat
      else if sect = 1072 then filedDir
      else fun _ => 0 }

theorem cardFiled_view : cardFiled.view = cardFiled.disk := State.view_of_clean rfl

theorem item_zero (i : ℕ) : item (fun _ => 0) i = 0 := by
  show leWord [0, 0, 0, 0] = 0
  decide

theorem item_filedFat (i : ℕ) : item filedFat i = if i = 2 ∨ i = 3 then 0x0fffffff else 0 := by
  rw [filedFat]
  by_cases h3 : i = 3
  · rw [h3, item_setItem_self, if_pos (.inr rfl)]
  · rw [item_setItem_of_ne h3]
    by_cases h2 : i = 2
    · rw [h2, item_setItem_self, if_pos (.inl rfl)]
    · rw [item_setItem_of_ne h2, item_zero, if_neg (not_or.2 ⟨h2, h3⟩)]

/-- The entries of both FATs. -/
theorem cardFiled_entryWord {c fat : ℕ} (hfat : fat = 32 ∨ fat = 552) (hc : c < 66560) :
    entryWord fat cardFiled.view c = if c = 2 ∨ c = 3 then 0x0fffffff else 0 := by
  have hsect : Volume.entrySect fat c = fat + c / 128 := Nat.mod_eq_of_lt (by omega)
  rw [entryWord, hsect, cardFiled_view]
  show item (if fat + c / 128 = 1 then _ else if fat + c / 128 = 32 ∨ fat + c / 128 = 552 then _
    else if fat + c / 128 = 1072 then _ else _) (c % 128) = _
  rw [if_neg (by omega)]
  by_cases hlow : c < 128
  · rw [if_pos (by omega), item_filedFat, Nat.mod_eq_of_lt hlow]
  · rw [if_neg (by omega), if_neg (by omega), item_zero, if_neg (by omega)]

theorem cardFiled_table {c : ℕ} (hc : pairVolume.IsClust c) :
    pairVolume.table cardFiled.view c = if c = 2 ∨ c = 3 then .last else .free := by
  have hword := cardFiled_entryWord (.inl rfl) hc.2
  rw [Volume.table, if_pos hc.2, Volume.entry_eq]
  show pairVolume.link (entryVal (entryWord 32 cardFiled.view c)) = _
  rw [hword]
  split_ifs
  · exact link_last _
  · exact link_free _

theorem cardFiled_freeCount :
    freeCount (pairVolume.table cardFiled.view) pairVolume.clusts = 66556 := by
  have hfilter : pairVolume.clusts.filter (fun c => pairVolume.table cardFiled.view c = .free) =
      Finset.Ico 4 66560 := by
    ext c
    rw [Finset.mem_filter, mem_clusts, Finset.mem_Ico]
    constructor
    · rintro ⟨hc, hfree⟩
      rw [cardFiled_table hc] at hfree
      have hlt : 2 ≤ c ∧ c < 66560 := hc
      split_ifs at hfree with hused
      omega
    · intro hc
      have hclust : pairVolume.IsClust c := ⟨by omega, hc.2⟩
      exact ⟨hclust, by rw [cardFiled_table hclust, if_neg (by omega)]⟩
  rw [freeCount, hfilter]
  exact Nat.card_Ico 4 66560

theorem cardFiled_books : cardFiled.Books pairVolume [[2], [3]] := by
  have h2 : pairVolume.IsClust 2 := ⟨by decide, by decide⟩
  have h3 : pairVolume.IsClust 3 := ⟨by decide, by decide⟩
  refine ⟨fun _ _ => rfl, h3, fun c hlow hc => ?_, fun _ c hc => ?_, ⟨?_, by decide, ?_, ?_⟩, ?_,
    rfl, fun _ => ?_⟩
  · have hclust : pairVolume.IsClust c := ⟨hlow, hc⟩
    have htable := cardFiled_table hclust
    split_ifs at htable
    · rw [kind_of_table_last htable]
      exact Option.some_ne_none _
    · rw [(kind_of_table_free htable).2]
      exact Option.some_ne_none _
  · exact (cardFiled_entryWord (.inr rfl) hc).trans (cardFiled_entryWord (.inl rfl) hc).symm
  · intro l hl
    rcases List.mem_pair.1 hl with rfl | rfl
    · exact ⟨2, .last (by rw [cardFiled_table h2, if_pos (.inl rfl)])⟩
    · exact ⟨3, .last (by rw [cardFiled_table h3, if_pos (.inr rfl)])⟩
  · intro c hc
    rcases List.mem_pair.1 hc with rfl | rfl
    · exact mem_clusts.2 h2
    · exact mem_clusts.2 h3
  · intro c hc hout
    have hne : ¬ (c = 2 ∨ c = 3) := fun h => hout (List.mem_pair.2 h)
    exact .inl (by rw [cardFiled_table (mem_clusts.1 hc), if_neg hne])
  · rw [cardFiled_freeCount]
    rfl
  · rw [State.Counted, cardFiled_view]
    constructor
    · exact item_setItem_self 122 _ _
    · exact (item_setItem_of_ne (by decide : 123 ≠ 122) _ _).trans (item_setItem_self 123 _ _)

/-- An empty file, as the user sees it. -/
def emptyFile : PlainFile := ⟨0, 0, fun _ => none⟩

theorem cardFiled_stores : cardFiled.Stores pairVolume [[2], [3]] [3] ⟨3, 1072, 32⟩ emptyFile where
  books := cardFiled_books
  mem := by decide
  head := rfl
  parent := ⟨[2], by decide, by decide, 0, by decide, by decide⟩
  content i b h := by cases h
  size := by decide
  cluster := by decide
  sized := Nat.zero_le _
  bounded := Nat.zero_le _

/-- `/mnt/A` -/
def pathToFiled : List Byte := [0x2f, 0x6d, 0x6e, 0x74, 0x2f, 0x41]

theorem cardFiled_named : namedBy pairVolume pathToFiled cardFiled =
    (some (.ok (some (.entry ⟨2, 2, 1072, 32⟩ ⟨1072, 32⟩))),
      (namedBy pairVolume pathToFiled cardFiled).2) :=
  Prod.ext rfl rfl

/-- Bytes are written into two clusters, and read again. -/
def writeAndRead : List FileOp :=
  [.write [1, 2, 3], .seek 600 .start, .write [4], .seek 1 .start, .read 600]

theorem openRunClose_stores_card :
    Succeeds (openRunClose pairVolume pathToFiled writeAndRead)
      ⟨cardFiled, .ofEntry cardFiled ⟨2, 2, 0, 0⟩ readWrite fun _ => 0⟩ fun outs s' =>
      emptyFile.Outputs writeAndRead outs ∧
      ∃ L' l', s'.fat.Stores pairVolume L' l' ⟨3, 1072, 32⟩ (emptyFile.run writeAndRead) ∧
        [3] <+: l' ∧ (∀ c ∈ l', c ∉ [3] → pairVolume.table cardFiled.view c = .free) ∧
        (∀ m ∈ [[2], [3]], m ≠ [3] → m ∈ L' ∧ m ≠ l') ∧
        ∀ sect, ¬ pairVolume.Reserved sect → ¬ pairVolume.InData l' sect → sect ≠ 1072 →
          s'.fat.disk sect = cardFiled.disk sect := by
  have hfits : emptyFile.RunFits pairVolume 66557 writeAndRead :=
    ⟨⟨by decide, by decide, by decide⟩, ⟨by decide, by decide, by decide⟩,
      ⟨by decide, by decide, by decide⟩, ⟨by decide, by decide, by decide⟩,
      ⟨by decide, by decide, by decide⟩, trivial⟩
  refine openRunClose_stores
    (s := ⟨cardFiled, .ofEntry cardFiled ⟨2, 2, 0, 0⟩ readWrite fun _ => 0⟩) pairVolume_laid
    pairVolume_dataLaid (by decide) writeAndRead cardFiled_stores cardFiled_named ⟨rfl, rfl⟩ ?_
  dsimp only
  rw [cardFiled_freeCount, List.length_singleton]
  exact hfits

end Card

end Karnix.Fat
