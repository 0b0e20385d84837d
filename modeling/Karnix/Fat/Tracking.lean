import Karnix.Fat.Steps
import Karnix.Library.Ghost

/-!
# The sector that the buffer of a file belongs to

The buffer of a file is loaded with the contents of a sector, changed, and written back later;
`File.sect` is where the driver takes it to belong.  Here the calls are followed by a ghost that
keeps the sector which the buffer was really loaded from, so that one can say whether the two
agree.  The driver with the ghost is the driver: it erases to the routines of `fat.c`.

A seek can fail at four places: out of range, in the chain of clusters, when the buffer is
written back, and when it is loaded.  What it has done to the buffer by then is the step lemma.
-/

namespace Karnix.Fat

open Karnix.Library
open Program (Keeps)
open Fallible (Erases)

/-! ## Section 1: The ghost -/

/-- A session, and what is followed beside it. -/
structure Tracked where
  session : Session
  /-- The sector that the buffer of the file was loaded from; none after a read that failed. -/
  owner : Option ℕ
  /-- The writes of that buffer, the last one first: where it belonged, and where it went. -/
  written : List (Option ℕ × ℕ)
  /-- How many bytes have been put into the buffer. -/
  placed : ℕ
  /-- A seek of `fat_file_write` has failed. -/
  failed : Bool

/-- A piece of the driver with the ghost. -/
abbrev TrackedM := Fallible Err Tracked

variable (v : Volume)

namespace Tracked

/-- The file. -/
def file (t : Tracked) : File := t.session.file

/-- An open file: the seek of `fat_file_open` has loaded the sector it is at. -/
def opened (s : Session) : Tracked := ⟨s, some s.file.sect, [], 0, false⟩

/-- A call begins. -/
def fresh (t : Tracked) : Tracked := { t with written := [], placed := 0, failed := false }

/-- The buffer goes to sector `sect`. -/
def note (sect : ℕ) (t : Tracked) : Tracked :=
  { t with written := (t.owner, sect) :: t.written }

/-- The buffer belongs to the sector recorded in the file. -/
def Belongs (t : Tracked) : Prop := t.owner = some t.file.sect

end Tracked

/-- The buffer is marked for writing: a seek writes a dirty one, `fat_file_sync` that of a
modified file. -/
def File.Marked (f : File) : Prop := f.flags.fileDirty = true ∨ f.flags.modified = true

/-- A piece of the driver that leaves the ghost alone. -/
def onSession {α : Type} (p : FileM α) : TrackedM α :=
  p.zoom Tracked.session fun s t => { t with session := s }

/-! ## Section 2: The driver with the ghost -/

namespace Tracked

/-- `flushFile`, and which sector the buffer was written to. -/
def flushFile (ssect : ℕ) : TrackedM PUnit := do
  .modify fun t => if t.file.flags.fileDirty then t.note ssect else t
  onSession (Fat.flushFile v ssect)

/-- `loadFile`, and which sector the buffer belongs to once it has been read. -/
def loadFile : TrackedM PUnit := do
  .modify fun t => { t with owner := none }
  onSession (Fat.loadFile v)
  .modify fun t => { t with owner := some t.file.sect }

/-- `updateFile` with the two above. -/
def updateFile (ssect : ℕ) : TrackedM PUnit := do
  let s ← .read Tracked.session
  if s.file.sect ≠ ssect then do
    flushFile v ssect
    loadFile v
  else pure ⟨⟩

/-- `seekTo` with the record of what happens to the buffer. -/
def seekTo (off : ℕ) : TrackedM PUnit := do
  let s ← .read Tracked.session
  onSession (editFile fun f => f.backtrack v off)
  let s' ← .read Tracked.session
  onSession (followChain v (off / v.clustSize - s'.file.offset / v.clustSize))
  onSession (editFile fun f => f.moveTo v off)
  updateFile v s.file.sect

/-- `fatFileSeek` with the record of what happens to the buffer. -/
def fatFileSeek (offset : ℤ) (seek : Whence) : TrackedM PUnit := do
  let s ← .read Tracked.session
  if s.file.target offset seek < 0 ∨ s.file.target offset seek > 0xffffffff then .throw .eof
  else seekTo v (s.file.target offset seek).toNat

/-- `writeLoop`, and how many bytes have gone into the buffer, also where the call fails later. -/
def writeLoop : ℕ → List Byte → ℕ → TrackedM ℕ
  | 0, _, bytes => pure bytes
  | n + 1, src, bytes => do
    let s ← .read Tracked.session
    if src = [] then pure bytes
    else do
      onSession (editFile fun f => f.put (src.take (f.writeCnt src.length)))
      .modify fun t => { t with placed := t.placed + s.file.writeCnt src.length }
      let r ← (fatFileSeek v (s.file.writeCnt src.length) .curr).attempt
      match errOf r with
      | none =>
        writeLoop n (src.drop (s.file.writeCnt src.length)) (bytes + s.file.writeCnt src.length)
      | some _ => do
        .modify fun t => { t with failed := true }
        pure (bytes + s.file.writeCnt src.length)

/-- `fatFileWrite` with the record of what happens to the buffer. -/
def fatFileWrite (data : List Byte) : TrackedM (ℕ × Option Err) := do
  let s ← .read Tracked.session
  if s.file.flags.write then do
    onSession
      (editFile fun f => { f with flags := { f.flags with modified := true, accessed := true } })
    let bytes ← writeLoop v data.length data 0
    onSession (editFile fun f => { f with size := max f.size f.offset })
    pure (bytes, none)
  else pure (0, some .denied)

/-- `fatFileSync`, and which sector the buffer was written to. -/
def fatFileSync : TrackedM PUnit := do
  .modify fun t => if t.file.flags.modified then t.note t.file.sect else t
  onSession (Fat.fatFileSync v)

end Tracked

/-! ## Section 3: Erasure -/

section Erasure

variable {α : Type}

theorem erases_onSession (p : FileM α) : Erases Tracked.session (onSession p) p :=
  Fallible.erases_zoom (fun _ _ => rfl) p

theorem session_note_ite (c : Tracked → Bool) (sect : Tracked → ℕ) (t : Tracked) :
    (if c t then t.note (sect t) else t).session = t.session := by
  split <;> rfl

theorem erases_flushFile (ssect : ℕ) :
    Erases Tracked.session (Tracked.flushFile v ssect) (flushFile v ssect) :=
  .ghost_bind (session_note_ite _ fun _ => ssect) (erases_onSession _)

theorem erases_loadFile : Erases Tracked.session (Tracked.loadFile v) (loadFile v) :=
  .ghost_bind (fun _ => rfl) (.bind_ghost (fun _ => rfl) (erases_onSession _))

theorem erases_updateFile (ssect : ℕ) :
    Erases Tracked.session (Tracked.updateFile v ssect) (updateFile v ssect) := by
  refine .bind Fallible.erases_read fun s => .ite ?_ (Fallible.erases_pure _)
  exact .bind (erases_flushFile v ssect) fun _ => erases_loadFile v

theorem erases_seekTo (off : ℕ) :
    Erases Tracked.session (Tracked.seekTo v off) (seekTo v off) := by
  refine .bind Fallible.erases_read fun s => .bind (erases_onSession _) fun _ => ?_
  refine .bind Fallible.erases_read fun s' => .bind (erases_onSession _) fun _ => ?_
  exact .bind (erases_onSession _) fun _ => erases_updateFile v _

theorem erases_fatFileSeek (offset : ℤ) (seek : Whence) :
    Erases Tracked.session (Tracked.fatFileSeek v offset seek) (fatFileSeek v offset seek) :=
  .bind Fallible.erases_read fun _ => .ite (Fallible.erases_throw _) (erases_seekTo v _)

theorem erases_writeLoop (n : ℕ) (src : List Byte) (bytes : ℕ) :
    Erases Tracked.session (Tracked.writeLoop v n src bytes) (writeLoop v n src bytes) := by
  induction n generalizing src bytes with
  | zero => exact Fallible.erases_pure bytes
  | succ n ih =>
    refine .bind Fallible.erases_read fun s => .ite (Fallible.erases_pure _) ?_
    refine .bind (erases_onSession _) fun _ => .ghost_bind (fun _ => rfl) ?_
    refine .bind (erases_fatFileSeek v _ _).attempt fun r => ?_
    cases r with
    | ok _ => exact ih _ _
    | error _ => exact .ghost_bind (fun _ => rfl) (Fallible.erases_pure _)

theorem erases_fatFileWrite (data : List Byte) :
    Erases Tracked.session (Tracked.fatFileWrite v data) (fatFileWrite v data) := by
  refine .bind Fallible.erases_read fun s => .ite ?_ (Fallible.erases_pure _)
  refine .bind (erases_onSession _) fun _ => .bind (erases_writeLoop v _ _ _) fun bytes => ?_
  exact .bind (erases_onSession _) fun _ => Fallible.erases_pure _

theorem erases_fatFileSync :
    Erases Tracked.session (Tracked.fatFileSync v) (fatFileSync v) :=
  .ghost_bind (session_note_ite _ fun t => t.file.sect) (erases_onSession _)

end Erasure

/-! ## Section 4: Where a seek fails -/

/-- The chain of clusters is followed to the one of offset `off`. -/
def chainRun (off : ℕ) (s : Session) : Option (Except Err PUnit) × Session :=
  followChain v (off / v.clustSize - (s.file.backtrack v off).offset / v.clustSize)
    { s with file := s.file.backtrack v off }

/-- The search for a cluster to extend the chain with passes all clusters, and does not end. -/
def ChainEndless (off : ℕ) (s : Session) : Prop := (chainRun v off s).1 = none

/-- The chain cannot be followed or extended. -/
def ChainFails (off : ℕ) (s : Session) : Prop :=
  ∃ e s₁, chainRun v off s = (some (.error e), s₁)

/-- The seek leads to another sector than that of the file; `s₁` is the session when the chain
has been followed. -/
def Moves (off : ℕ) (s s₁ : Session) : Prop :=
  chainRun v off s = (some (.ok ⟨⟩), s₁) ∧ (s₁.file.moveTo v off).sect ≠ s.file.sect

/-- The disk operation that writes the buffer back fails. -/
def FlushFails (off : ℕ) (s : Session) : Prop :=
  ∃ s₁, Moves v off s s₁ ∧ s.file.flags.fileDirty = true ∧ v.ops.write s₁.fat.calls ≠ none

/-- The number of the disk operation that loads the buffer. -/
def loadCall (s s₁ : Session) : ℕ := s₁.fat.calls + if s.file.flags.fileDirty then 1 else 0

/-- The disk operation that loads the buffer fails. -/
def LoadFails (off : ℕ) (s : Session) : Prop :=
  ∃ s₁, Moves v off s s₁ ∧ (s.file.flags.fileDirty = true → v.ops.write s₁.fat.calls = none) ∧
    v.ops.read (loadCall s s₁) ≠ none

/-- A seek to offset `off` fails. -/
def SeekFails (off : ℕ) (s : Session) : Prop :=
  ChainFails v off s ∨ FlushFails v off s ∨ LoadFails v off s

theorem Moves.unique {off : ℕ} {s s₁ s₂ : Session} (h : Moves v off s s₁)
    (h' : Moves v off s s₂) : s₁ = s₂ := by
  have heq := h.1.symm.trans h'.1
  exact congrArg Prod.snd heq

theorem Moves.not_chainFails {off : ℕ} {s s₁ : Session} (h : Moves v off s s₁) :
    ¬ ChainFails v off s := by
  rintro ⟨e, s₂, hrun⟩
  have heq := h.1.symm.trans hrun
  injection heq with hres
  injection hres with hres
  cases hres

/-! ## Section 5: What a seek does to the buffer -/

/-- What a piece of the driver leaves of what is followed: where the buffer belongs, the writes of
it, the sector of the file, and whether the buffer is dirty. -/
structure Leaves (t t' : Tracked) (owner : Option ℕ) (ws : List (Option ℕ × ℕ)) (sect : ℕ)
    (dirty : Bool) : Prop where
  owner : t'.owner = owner
  written : t'.written = ws ++ t.written
  sect : t'.file.sect = sect
  flags : t'.file.flags = { t.file.flags with fileDirty := dirty }
  placed : t'.placed = t.placed
  failed : t'.failed = t.failed

theorem Leaves.trans {t t₁ t₂ : Tracked} {o o' : Option ℕ} {ws ws' : List (Option ℕ × ℕ)}
    {k k' : ℕ} {d d' : Bool} (h : Leaves t t₁ o ws k d) (h' : Leaves t₁ t₂ o' ws' k' d') :
    Leaves t t₂ o' (ws' ++ ws) k' d' where
  owner := h'.owner
  written := by rw [h'.written, h.written, List.append_assoc]
  sect := h'.sect
  flags := by rw [h'.flags, h.flags]
  placed := h'.placed.trans h.placed
  failed := h'.failed.trans h.failed

/-- The writes of the buffer that a seek away from sector `sect` makes. -/
def Tracked.flushes (t : Tracked) : List (Option ℕ × ℕ) :=
  if t.file.flags.fileDirty then [(t.owner, t.file.sect)] else []

section Following

/-- The sector and the flags of the file are the same. -/
def SameSect (s s' : Session) : Prop :=
  s'.file.sect = s.file.sect ∧ s'.file.flags = s.file.flags

instance : IsPreorder Session SameSect where
  refl _ := ⟨rfl, rfl⟩
  trans _ _ _ h h' := ⟨h'.1.trans h.1, h'.2.trans h.2⟩

theorem keeps_onFat {α : Type} {R : Session → Session → Prop}
    (h : ∀ s fat, R s { s with fat := fat }) (p : FatM α) : Keeps R (onFat p) :=
  ⟨fun s => h s _⟩

theorem keeps_followChain (n : ℕ) : Keeps SameSect (followChain v n) := by
  induction n with
  | zero => exact Fallible.keeps_pure _
  | succ n ih =>
    have hnext : ∀ clust, Keeps SameSect (onFat (nextClust v clust)) :=
      fun _ => keeps_onFat (fun _ _ => ⟨rfl, rfl⟩) _
    have hset : ∀ next : ℕ, Keeps SameSect (editFile fun f => { f with clust := next }) :=
      fun _ => Fallible.keeps_modify fun _ => ⟨rfl, rfl⟩
    unfold followChain
    infer_instance

end Following

section Parts

variable {v}

theorem onSession_of_eq {α : Type} {p : FileM α} {t : Tracked} {s : Session}
    {r : Option (Except Err α)} (h : p t.session = (r, s)) :
    onSession p t = (r, { t with session := s }) := by
  rw [onSession, Fallible.zoom, h]

theorem onFat_of_eq {α : Type} {p : FatM α} {s : Session} {fat : State}
    {r : Option (Except Err α)} (h : p s.fat = (r, fat)) :
    onFat p s = (r, { s with fat := fat }) := by
  rw [onFat, Fallible.zoom, h]

theorem opsWrite_run (origin : Origin) (buf : Sector) (sect : ℕ) (fat : State) :
    ∃ fat', opsWrite v origin buf sect fat =
      (some (.ok (v.ops.write fat.calls).isNone), fat') ∧ fat'.calls = fat.calls + 1 ∧
      fat'.writes = ⟨origin, sect⟩ :: fat.writes := by
  unfold opsWrite
  cases v.ops.write fat.calls <;> exact ⟨_, rfl, rfl, rfl⟩

theorem opsRead_run (sect : ℕ) (fat : State) :
    ∃ buf fat', opsRead v sect fat = (some (.ok (buf, (v.ops.read fat.calls).isNone)), fat') := by
  unfold opsRead
  cases v.ops.read fat.calls <;> exact ⟨_, _, rfl⟩

/-- A dirty buffer is written back, or stays dirty. -/
theorem flushFile_run (ssect : ℕ) {s : Session} (h : s.file.flags.fileDirty = true) :
    ∃ fat, fat.calls = s.fat.calls + 1 ∧ fat.writes = ⟨.file, ssect⟩ :: s.fat.writes ∧
      flushFile v ssect s = if v.ops.write s.fat.calls = none then
        (some (.ok ⟨⟩), ⟨fat, { s.file with flags := { s.file.flags with fileDirty := false } }⟩)
      else (some (.error .io), ⟨fat, s.file⟩) := by
  obtain ⟨fat, hwrite, hcalls, hwrites⟩ := opsWrite_run (v := v) .file s.file.buf ssect s.fat
  refine ⟨fat, hcalls, hwrites, ?_⟩
  rw [flushFile, Fallible.read_bind]
  refine (congrFun (if_pos h) s).trans ((Fallible.bind_of_ok (onFat_of_eq hwrite)).trans ?_)
  cases v.ops.write s.fat.calls with
  | none => rfl
  | some garbage => rfl

theorem flushFile_of_clean (ssect : ℕ) {s : Session}
    (h : s.file.flags.fileDirty = false) :
    flushFile v ssect s = (some (.ok ⟨⟩), s) := by
  rw [flushFile, Fallible.read_bind]
  exact congrFun (if_neg (Bool.eq_false_iff.1 h)) s

/-- The buffer is loaded, or holds anything. -/
theorem loadFile_run (s : Session) :
    ∃ fat buf, loadFile v s =
      (some (if v.ops.read s.fat.calls = none then .ok ⟨⟩ else .error .io),
        ⟨fat, { s.file with buf := buf }⟩) := by
  obtain ⟨buf, fat, hread⟩ := opsRead_run (v := v) s.file.sect s.fat
  refine ⟨fat, buf, ?_⟩
  rw [loadFile, Fallible.read_bind]
  refine (Fallible.bind_of_ok (onFat_of_eq hread)).trans ?_
  cases v.ops.read s.fat.calls with
  | none => rfl
  | some garbage => rfl

theorem Tracked.flushFile_of_goes (ssect : ℕ) {t : Tracked}
    (h : t.file.flags.fileDirty = true → v.ops.write t.session.fat.calls = none) :
    ∃ t', Tracked.flushFile v ssect t = (some (.ok ⟨⟩), t') ∧
      Leaves t t' t.owner (if t.file.flags.fileDirty then [(t.owner, ssect)] else [])
        t.file.sect false ∧
      t'.session.fat.calls = t.session.fat.calls + if t.file.flags.fileDirty then 1 else 0 := by
  cases hdirty : t.file.flags.fileDirty with
  | false =>
    refine ⟨t, ?_, ⟨rfl, rfl, rfl, ?_, rfl, rfl⟩, rfl⟩
    · rw [Tracked.flushFile, Fallible.modify_bind, if_neg (Bool.eq_false_iff.1 hdirty)]
      exact onSession_of_eq (flushFile_of_clean ssect hdirty)
    · rw [← hdirty]
  | true =>
    obtain ⟨fat, hcalls, -, hrun⟩ := flushFile_run (v := v) ssect hdirty
    rw [if_pos (h hdirty)] at hrun
    have hflush : Tracked.flushFile v ssect t = (some (.ok ⟨⟩), { t.note ssect with
        session := ⟨fat, { t.file with flags := { t.file.flags with fileDirty := false } }⟩ }) := by
      rw [Tracked.flushFile, Fallible.modify_bind, if_pos hdirty]
      exact onSession_of_eq hrun
    exact ⟨_, hflush, ⟨rfl, rfl, rfl, rfl, rfl, rfl⟩, hcalls⟩

theorem Tracked.flushFile_of_fails (ssect : ℕ) {t : Tracked}
    (hdirty : t.file.flags.fileDirty = true)
    (h : v.ops.write t.session.fat.calls ≠ none) :
    ∃ t', Tracked.flushFile v ssect t = (some (.error .io), t') ∧
      Leaves t t' t.owner [(t.owner, ssect)] t.file.sect true := by
  obtain ⟨fat, -, -, hrun⟩ := flushFile_run (v := v) ssect hdirty
  rw [if_neg h] at hrun
  have hflush : Tracked.flushFile v ssect t =
      (some (.error .io), { t.note ssect with session := ⟨fat, t.file⟩ }) := by
    rw [Tracked.flushFile, Fallible.modify_bind, if_pos hdirty]
    exact onSession_of_eq hrun
  refine ⟨_, hflush, ⟨rfl, rfl, rfl, ?_, rfl, rfl⟩⟩
  rw [← hdirty]
  rfl

theorem Tracked.loadFile_of_goes {t : Tracked} (h : v.ops.read t.session.fat.calls = none) :
    ∃ t', Tracked.loadFile v t = (some (.ok ⟨⟩), t') ∧
      Leaves t t' (some t.file.sect) [] t.file.sect t.file.flags.fileDirty := by
  obtain ⟨fat, buf, hrun⟩ := loadFile_run (v := v) t.session
  rw [if_pos h] at hrun
  have hload := onSession_of_eq (t := { t with owner := none }) hrun
  exact ⟨_, Fallible.bind_of_ok hload, ⟨rfl, rfl, rfl, rfl, rfl, rfl⟩⟩

theorem Tracked.loadFile_of_fails {t : Tracked} (h : v.ops.read t.session.fat.calls ≠ none) :
    ∃ t', Tracked.loadFile v t = (some (.error .io), t') ∧
      Leaves t t' none [] t.file.sect t.file.flags.fileDirty := by
  obtain ⟨fat, buf, hrun⟩ := loadFile_run (v := v) t.session
  rw [if_neg h] at hrun
  have hload := onSession_of_eq (t := { t with owner := none }) hrun
  have hfail : Tracked.loadFile v t = (some (.error .io), { t with
      session := ⟨fat, { t.file with buf := buf }⟩
      owner := none }) := by
    rw [Tracked.loadFile, Fallible.modify_bind]
    exact Fallible.bind_of_error hload
  exact ⟨_, hfail, ⟨rfl, rfl, rfl, rfl, rfl, rfl⟩⟩

end Parts

/-! ## Section 6: How a seek ends -/

/-- The ends of a seek to offset `off`: what it returns, and what it leaves. -/
inductive SeekEnds (off : ℕ) (t : Tracked) : Except Err PUnit → Tracked → Prop
  /-- The chain cannot be followed, but the file may have gone back to its beginning. -/
  | chain {e : Err} {t' : Tracked} (h : ChainFails v off t.session)
      (left : Leaves t t' t.owner [] (t.file.backtrack v off).sect t.file.flags.fileDirty) :
      SeekEnds off t (.error e) t'
  /-- The file is at another sector, but the buffer is the old one. -/
  | flush {k : ℕ} {t' : Tracked} (h : FlushFails v off t.session) (hne : k ≠ t.file.sect)
      (left : Leaves t t' t.owner t.flushes k true) : SeekEnds off t (.error .io) t'
  /-- The file is at another sector, and the buffer holds anything. -/
  | load {k : ℕ} {t' : Tracked} (h : LoadFails v off t.session) (hne : k ≠ t.file.sect)
      (left : Leaves t t' none t.flushes k false) : SeekEnds off t (.error .io) t'
  /-- The sector is the same. -/
  | stays {t' : Tracked} (h : ¬ SeekFails v off t.session)
      (left : Leaves t t' t.owner [] t.file.sect t.file.flags.fileDirty) :
      SeekEnds off t (.ok ⟨⟩) t'
  /-- Another sector is in the buffer. -/
  | moves {k : ℕ} {t' : Tracked} (h : ¬ SeekFails v off t.session) (hne : k ≠ t.file.sect)
      (left : Leaves t t' (some k) t.flushes k false) : SeekEnds off t (.ok ⟨⟩) t'

section Ends

variable {v} {off : ℕ} {t : Tracked}

/-- The file changed. -/
def Tracked.setFile (t : Tracked) (f : File) : Tracked :=
  { t with session := { t.session with file := f } }

theorem setFile_fat (t : Tracked) (f : File) : (t.setFile f).session.fat = t.session.fat := rfl

theorem onSession_editFile (f : File → File) (t : Tracked) :
    onSession (editFile f) t = (some (.ok ⟨⟩), t.setFile (f t.file)) := rfl

/-- The part of a seek that follows the chain, and the rest. -/
theorem seekTo_eq : Tracked.seekTo v off t =
    (onSession (followChain v
        (off / v.clustSize - (t.file.backtrack v off).offset / v.clustSize)) >>= fun _ =>
      onSession (editFile fun f => f.moveTo v off) >>= fun _ =>
        Tracked.updateFile v t.file.sect) (t.setFile (t.file.backtrack v off)) := by
  rw [Tracked.seekTo, Fallible.read_bind, Fallible.bind_of_ok (onSession_editFile _ t),
    Fallible.read_bind]
  rfl

theorem onSession_chain {s₁ : Session} {r : Option (Except Err PUnit)}
    (h : chainRun v off t.session = (r, s₁)) :
    onSession (followChain v
        (off / v.clustSize - (t.file.backtrack v off).offset / v.clustSize))
      (t.setFile (t.file.backtrack v off)) = (r, { t with session := s₁ }) :=
  onSession_of_eq h

/-- With the chain followed, the rest of a seek is `updateFile`. -/
theorem seekTo_of_chain {s₁ : Session} (h : chainRun v off t.session = (some (.ok ⟨⟩), s₁)) :
    Tracked.seekTo v off t =
      Tracked.updateFile v t.file.sect
        ({ t with session := s₁ }.setFile (s₁.file.moveTo v off)) := by
  have hrun := onSession_chain h
  rw [seekTo_eq, Fallible.bind_of_ok hrun, Fallible.bind_of_ok (onSession_editFile _ _)]
  rfl

/-- A chain that cannot be followed ends the seek. -/
theorem seekTo_of_chain_error {s₁ : Session} {r : Option (Except Err PUnit)}
    (h : chainRun v off t.session = (r, s₁)) (hr : r ≠ some (.ok ⟨⟩)) :
    Tracked.seekTo v off t = (r, { t with session := s₁ }) := by
  have hrun := onSession_chain h
  rw [seekTo_eq]
  rcases r with _ | e | ⟨⟩
  · exact Fallible.bind_of_none hrun
  · exact Fallible.bind_of_error hrun
  · exact absurd rfl hr

/-- The chain keeps the sector and the flags of the file. -/
theorem chainRun_keeps {s₁ : Session} {r : Option (Except Err PUnit)}
    (h : chainRun v off t.session = (r, s₁)) :
    s₁.file.sect = (t.file.backtrack v off).sect ∧ s₁.file.flags = t.file.flags := by
  obtain ⟨hsect, hflags⟩ := (keeps_followChain v _).of_eq h
  refine ⟨hsect, hflags.trans ?_⟩
  show (t.file.backtrack v off).flags = t.file.flags
  unfold File.backtrack
  split <;> rfl

theorem updateFile_of_same {ssect : ℕ} (h : t.file.sect = ssect) :
    Tracked.updateFile v ssect t = (some (.ok ⟨⟩), t) := by
  rw [Tracked.updateFile, Fallible.read_bind]
  exact congrFun (if_neg (not_not_intro h)) t

theorem updateFile_of_ne {ssect : ℕ} (h : t.file.sect ≠ ssect) :
    Tracked.updateFile v ssect t =
      (Tracked.flushFile v ssect >>= fun _ => Tracked.loadFile v) t := by
  rw [Tracked.updateFile, Fallible.read_bind]
  exact congrFun (if_pos h) t

theorem flags_of_at (f : File) (sect offset : ℕ) :
    ({ f with sect := sect, offset := offset } : File).flags = f.flags := rfl

theorem moveTo_flags (f : File) : (f.moveTo v off).flags = f.flags := flags_of_at f _ _

/-- The file is at another sector, but the buffer has not been touched. -/
theorem leaves_setFile (s₁ : Session) {f : File} (h : f.flags = t.file.flags) :
    Leaves t ({ t with session := s₁ }.setFile f) t.owner [] f.sect t.file.flags.fileDirty :=
  ⟨rfl, rfl, rfl, h, rfl, rfl⟩

/-- A seek that stays in its sector does not use the disk. -/
theorem not_seekFails_of_same {s s₁ : Session}
    (h : chainRun v off s = (some (.ok ⟨⟩), s₁))
    (hsect : (s₁.file.moveTo v off).sect = s.file.sect) : ¬ SeekFails v off s := by
  have hmoves : ∀ s₂, ¬ Moves v off s s₂ := by
    rintro s₂ ⟨hrun, hne⟩
    obtain rfl : s₁ = s₂ := congrArg Prod.snd (h.symm.trans hrun)
    exact hne hsect
  rintro (⟨e, s₂, hrun⟩ | ⟨s₂, hm, -⟩ | ⟨s₂, hm, -⟩)
  · rw [h] at hrun
    cases hrun
  · exact hmoves s₂ hm
  · exact hmoves s₂ hm

/-- A seek to another sector fails where its disk operations do. -/
theorem Moves.seekFails_iff {s s₁ : Session} (h : Moves v off s s₁) :
    SeekFails v off s ↔ (s.file.flags.fileDirty = true ∧ v.ops.write s₁.fat.calls ≠ none) ∨
      ((s.file.flags.fileDirty = true → v.ops.write s₁.fat.calls = none) ∧
        v.ops.read (loadCall s s₁) ≠ none) := by
  constructor
  · rintro (hc | ⟨s₂, hm, hflush⟩ | ⟨s₂, hm, hload⟩)
    · exact absurd hc (h.not_chainFails v)
    · rw [h.unique v hm]
      exact Or.inl hflush
    · rw [h.unique v hm]
      exact Or.inr hload
  · rintro (hflush | hload)
    · exact Or.inr (Or.inl ⟨s₁, h, hflush⟩)
    · exact Or.inr (Or.inr ⟨s₁, h, hload⟩)

/-- The file is at another sector: the buffer is written back and loaded. -/
theorem updateFile_ends {r : Except Err PUnit} {t₁ t' : Tracked} {s₁ : Session} {k : ℕ}
    (hmoves : Moves v off t.session s₁)
    (hleft : Leaves t t₁ t.owner [] k t.file.flags.fileDirty)
    (hcalls : t₁.session.fat.calls = s₁.fat.calls) (hne : k ≠ t.file.sect)
    (hrun : (Tracked.flushFile v t.file.sect >>= fun _ => Tracked.loadFile v) t₁ =
      (some r, t')) : SeekEnds v off t r t' := by
  have hdirty : t₁.file.flags.fileDirty = t.file.flags.fileDirty := by rw [hleft.flags]
  by_cases hw : t.file.flags.fileDirty = true → v.ops.write s₁.fat.calls = none
  · obtain ⟨t₂, hflush, hleft₂, hcalls₂⟩ := Tracked.flushFile_of_goes (v := v) t.file.sect
      (t := t₁) (by rwa [hdirty, hcalls])
    rw [hdirty, hleft.owner, hleft.sect] at hleft₂
    have hleft₂ : Leaves t t₂ t.owner t.flushes k false := by
      rw [← List.append_nil t.flushes]
      exact hleft.trans hleft₂
    have hcall : t₂.session.fat.calls = loadCall t.session s₁ := by
      rw [hcalls₂, hcalls, hdirty]
      rfl
    rw [Fallible.bind_of_ok hflush] at hrun
    by_cases hr : v.ops.read (loadCall t.session s₁) = none
    · obtain ⟨t₃, hload, hleft₃⟩ := Tracked.loadFile_of_goes (v := v) (t := t₂) (by rwa [hcall])
      rw [hleft₂.sect, hleft₂.flags] at hleft₃
      rw [hload] at hrun
      cases hrun
      refine .moves (fun hfails => ?_) hne (hleft₂.trans hleft₃)
      rcases hmoves.seekFails_iff.1 hfails with ⟨hd, hwrite⟩ | ⟨-, hread⟩
      · exact hwrite (hw hd)
      · exact hread hr
    · obtain ⟨t₃, hload, hleft₃⟩ := Tracked.loadFile_of_fails (v := v) (t := t₂) (by rwa [hcall])
      rw [hleft₂.sect, hleft₂.flags] at hleft₃
      rw [hload] at hrun
      cases hrun
      exact .load ⟨s₁, hmoves, hw, hr⟩ hne (hleft₂.trans hleft₃)
  · obtain ⟨hd, hwrite⟩ := Classical.not_imp.1 hw
    obtain ⟨t₂, hflush, hleft₂⟩ := Tracked.flushFile_of_fails (v := v) t.file.sect
      (t := t₁) (hdirty.trans hd) (by rwa [hcalls])
    rw [hleft.owner, hleft.sect] at hleft₂
    rw [Fallible.bind_of_error hflush] at hrun
    cases hrun
    refine .flush ⟨s₁, hmoves, hd, hwrite⟩ hne ?_
    rw [Tracked.flushes, if_pos hd]
    exact hleft.trans hleft₂

/-- **Step lemma.** A seek that returns ends in one of these ways. -/
theorem seekTo_ends {r : Except Err PUnit} {t' : Tracked}
    (hrun : Tracked.seekTo v off t = (some r, t')) : SeekEnds v off t r t' := by
  rcases hchain : chainRun v off t.session with ⟨_ | e | ⟨⟩, s₁⟩
  · rw [seekTo_of_chain_error hchain nofun] at hrun
    cases hrun
  · rw [seekTo_of_chain_error hchain nofun] at hrun
    cases hrun
    obtain ⟨hsect, hflags⟩ := chainRun_keeps hchain
    exact .chain ⟨e, s₁, hchain⟩ ⟨rfl, rfl, hsect, hflags, rfl, rfl⟩
  have hleft : Leaves t _ t.owner [] (s₁.file.moveTo v off).sect t.file.flags.fileDirty :=
    leaves_setFile s₁ ((moveTo_flags s₁.file).trans (chainRun_keeps hchain).2)
  rw [seekTo_of_chain hchain] at hrun
  -- the sector may be the old one, and then nothing is left to be done
  by_cases hsame : (s₁.file.moveTo v off).sect = t.file.sect
  · rw [updateFile_of_same (hleft.sect.trans hsame)] at hrun
    cases hrun
    rw [hsame] at hleft
    exact .stays (not_seekFails_of_same hchain hsame) hleft
  · rw [updateFile_of_ne fun h => hsame (hleft.sect.symm.trans h)] at hrun
    exact updateFile_ends ⟨hchain, hsame⟩ hleft (congrArg State.calls (setFile_fat _ _)) hsame
      hrun

end Ends

/-! ## Section 7: The log is complete -/

/-- The writes of the buffer in the log are those that the driver has made. -/
def Logged (t t' : Tracked) : Prop :=
  ∃ ws, t'.written = ws ++ t.written ∧
    t'.session.fat.dataWrites = ws.map Prod.snd ++ t.session.fat.dataWrites

instance : IsPreorder Tracked Logged where
  refl _ := ⟨[], rfl, rfl⟩
  trans _ _ _ h h' := by
    obtain ⟨ws, hw, hd⟩ := h
    obtain ⟨ws', hw', hd'⟩ := h'
    refine ⟨ws' ++ ws, ?_, ?_⟩
    · rw [hw', hw, List.append_assoc]
    · rw [hd', hd, List.map_append, List.append_assoc]

/-- No file is written. -/
def SameData (s s' : Session) : Prop := s'.fat.dataWrites = s.fat.dataWrites

instance : IsPreorder Session SameData where
  refl _ := rfl
  trans _ _ _ h h' := h'.trans h

section Log

variable {α : Type}

theorem State.Grows.dataWrites {s s' : State} (h : s.Grows s') :
    s'.dataWrites = s.dataWrites := by
  obtain ⟨ws, hws, horigin, -⟩ := h.writes
  have hnone : (ws.filter fun w => w.origin = .file) = [] := by
    rw [List.filter_eq_nil_iff]
    intro w hw
    simp [horigin w hw]
  rw [State.dataWrites, State.dataWrites, hws, List.filter_append, hnone, List.nil_append]

instance sameData_onFat (p : FatM α) [h : Keeps State.Grows p] : Keeps SameData (onFat p) :=
  ⟨fun s => (h.run s.fat).dataWrites⟩

instance sameData_editFile (f : File → File) : Keeps SameData (editFile f) := ⟨fun _ => rfl⟩

instance sameData_followChain (n : ℕ) : Keeps SameData (followChain v n) := by
  have hnext : ∀ clust, Keeps State.Grows (nextClust v clust) := by
    intro clust
    unfold nextClust
    infer_instance
  induction n with
  | zero => exact Fallible.keeps_pure _
  | succ n ih =>
    unfold followChain
    infer_instance

instance sameData_loadFile : Keeps SameData (loadFile v) := by
  unfold loadFile
  infer_instance

instance logged_onSession (p : FileM α) [h : Keeps SameData p] : Keeps Logged (onSession p) :=
  ⟨fun t => ⟨[], rfl, h.run t.session⟩⟩

theorem logged_modify {f : Tracked → Tracked} (hs : ∀ t, (f t).session = t.session)
    (hw : ∀ t, (f t).written = t.written) :
    Keeps Logged (Fallible.modify f : TrackedM PUnit) :=
  Fallible.keeps_modify fun t => ⟨[], hw t, congrArg (fun s => s.fat.dataWrites) (hs t)⟩

theorem dataWrites_cons {s s' : State} {sect : ℕ} (h : s'.writes = ⟨.file, sect⟩ :: s.writes) :
    s'.dataWrites = sect :: s.dataWrites := by
  rw [State.dataWrites, h]
  rfl

/-- A write is noted when the driver makes it. -/
instance logged_flushFile (ssect : ℕ) : Keeps Logged (Tracked.flushFile v ssect) := by
  constructor
  intro t
  rw [Tracked.flushFile, Fallible.modify_bind]
  cases hdirty : t.file.flags.fileDirty with
  | false =>
    rw [if_neg Bool.false_ne_true, onSession_of_eq (flushFile_of_clean ssect hdirty)]
    exact ⟨[], rfl, rfl⟩
  | true =>
    obtain ⟨fat, -, hwrites, hrun⟩ := flushFile_run (v := v) ssect hdirty
    rw [if_pos rfl]
    split at hrun <;> rw [onSession_of_eq (t := t.note ssect) hrun] <;>
      exact ⟨[(t.owner, ssect)], rfl, dataWrites_cons hwrites⟩

instance logged_loadFile : Keeps Logged (Tracked.loadFile v) := by
  have hlose := logged_modify (f := fun t => { t with owner := none }) (fun _ => rfl) fun _ => rfl
  have hown := logged_modify (f := fun t => { t with owner := some t.file.sect })
    (fun _ => rfl) fun _ => rfl
  unfold Tracked.loadFile
  infer_instance

instance logged_updateFile (ssect : ℕ) : Keeps Logged (Tracked.updateFile v ssect) := by
  unfold Tracked.updateFile
  infer_instance

instance logged_seekTo (off : ℕ) : Keeps Logged (Tracked.seekTo v off) := by
  unfold Tracked.seekTo
  infer_instance

instance logged_fatFileSeek (offset : ℤ) (seek : Whence) :
    Keeps Logged (Tracked.fatFileSeek v offset seek) := by
  unfold Tracked.fatFileSeek
  infer_instance

instance logged_writeLoop (n : ℕ) (src : List Byte) (bytes : ℕ) :
    Keeps Logged (Tracked.writeLoop v n src bytes) := by
  have hplace : ∀ cnt : ℕ, Keeps Logged (Fallible.modify fun t : Tracked =>
      { t with placed := t.placed + cnt } : TrackedM PUnit) :=
    fun _ => logged_modify (fun _ => rfl) fun _ => rfl
  have hfail := logged_modify (f := fun t => { t with failed := true }) (fun _ => rfl) fun _ => rfl
  induction n generalizing src bytes with
  | zero => exact Fallible.keeps_pure _
  | succ n ih =>
    have hrest : ∀ (cnt : ℕ) (r : Except Err PUnit), Keeps Logged (match errOf r with
        | none => Tracked.writeLoop v n (src.drop cnt) (bytes + cnt)
        | some _ => do
          .modify fun t => { t with failed := true }
          pure (bytes + cnt) : TrackedM ℕ) := by
      intro cnt r
      cases r with
      | ok _ => exact ih _ _
      | error _ => exact Fallible.keeps_bind
    unfold Tracked.writeLoop
    infer_instance

instance logged_fatFileWrite (data : List Byte) :
    Keeps Logged (Tracked.fatFileWrite v data) := by
  unfold Tracked.fatFileWrite
  infer_instance

/-- A sync writes the buffer of a modified file, and no other file. -/
theorem dataWrites_fatFileSync (s : Session) : (fatFileSync v s).2.fat.dataWrites =
    (if s.file.flags.modified then [s.file.sect] else []) ++ s.fat.dataWrites := by
  have hrest : Keeps SameData (do
      syncEntry v
      onFat (syncFs v)
      editFile fun f =>
        { f with flags := { f.flags with accessed := false, modified := false } } :
      FileM PUnit) := by
    unfold syncEntry
    infer_instance
  have hdata : ∃ r s', syncData v s = (some r, s') ∧ s'.fat.dataWrites =
      (if s.file.flags.modified then [s.file.sect] else []) ++ s.fat.dataWrites := by
    rw [syncData, Fallible.read_bind]
    cases hmod : s.file.flags.modified with
    | false => exact ⟨.ok ⟨⟩, s, congrFun (if_neg (Bool.eq_false_iff.1 hmod)) s, rfl⟩
    | true =>
      obtain ⟨fat, hwrite, -, hwrites⟩ :=
        opsWrite_run (v := v) .file s.file.buf s.file.sect s.fat
      refine ⟨if v.ops.write s.fat.calls = none then .ok ⟨⟩ else .error .io,
        { s with fat := fat }, ?_, dataWrites_cons hwrites⟩
      refine (congrFun (if_pos hmod) s).trans
        ((Fallible.bind_of_ok (onFat_of_eq hwrite)).trans ?_)
      cases v.ops.write s.fat.calls <;> rfl
  obtain ⟨e | _, s', hrun, hs'⟩ := hdata
  · rw [fatFileSync, Fallible.bind_of_error hrun]
    exact hs'
  · rw [fatFileSync, Fallible.bind_of_ok hrun]
    exact (hrest.run s').trans hs'

instance logged_fatFileSync : Keeps Logged (Tracked.fatFileSync v) := by
  constructor
  intro t
  have hdata := dataWrites_fatFileSync v t.session
  rw [Tracked.fatFileSync, Fallible.modify_bind]
  cases hmod : t.file.flags.modified with
  | false =>
    rw [if_neg Bool.false_ne_true]
    rw [show t.session.file.flags.modified = false from hmod] at hdata
    exact ⟨[], rfl, hdata⟩
  | true =>
    rw [if_pos rfl]
    rw [show t.session.file.flags.modified = true from hmod] at hdata
    exact ⟨[(t.owner, t.file.sect)], rfl, hdata⟩

end Log

end Karnix.Fat
