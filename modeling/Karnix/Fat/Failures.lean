import Karnix.Fat.Tracking

/-!
# Failing disks under an open file

`fat_file_write`, `fat_file_seek`, `fat_file_sync` and `fat_file_close` on one open file, in any
order and with disk operations and allocations that fail in any pattern.  `fat_file_write`
returns another variable than the one that holds the error of its loop, and `fat_file_seek`
moves the file before the buffer has followed, so that what a failed call leaves is written to
the wrong sector by a later one.  Proved is in which runs this does not happen.
-/

namespace Karnix.Fat

open Karnix.Library
open Program (Keeps)
open Fallible (Erases Returns)

variable (v : Volume)

/-! ## Section 1: Calls -/

/-- A call that works on an open file. -/
inductive Call
  | write (data : List Byte)
  | seek (offset : ℤ) (whence : Whence)
  | sync
  | close

/-- A call that returns an error code only. -/
def codeOf {σ : Type} (p : Fallible Err σ PUnit) : Fallible Err σ (ℕ × Option Err) := do
  let r ← p.attempt
  pure (0, errOf r)

/-- A call: the number of bytes of `fat_file_write`, and the error code. -/
def Call.run : Call → FileM (ℕ × Option Err)
  | .write data => fatFileWrite v data
  | .seek offset whence => codeOf (fatFileSeek v offset whence)
  | .sync => codeOf (fatFileSync v)
  | .close => codeOf (fatFileClose v)

/-- A call with the ghost. -/
def Call.exec : Call → TrackedM (ℕ × Option Err)
  | .write data => Tracked.fatFileWrite v data
  | .seek offset whence => codeOf (Tracked.fatFileSeek v offset whence)
  | .sync => codeOf (Tracked.fatFileSync v)
  | .close => codeOf (Tracked.fatFileSync v)

theorem Call.erases_exec (c : Call) : Erases Tracked.session (c.exec v) (c.run v) := by
  have hcode : ∀ {q : TrackedM PUnit} {p : FileM PUnit}, Erases Tracked.session q p →
      Erases Tracked.session (codeOf q) (codeOf p) :=
    fun h => h.attempt.bind fun _ => Fallible.erases_pure _
  cases c with
  | write data => exact erases_fatFileWrite v data
  | seek offset whence => exact hcode (erases_fatFileSeek v offset whence)
  | sync => exact hcode (erases_fatFileSync v)
  | close => exact hcode (erases_fatFileSync v)

instance Call.logged_exec (c : Call) : Keeps Logged (c.exec v) := by
  cases c <;> unfold Call.exec <;> try unfold codeOf
  all_goals infer_instance

/-- The log of a call holds the writes of the buffer that the driver has made in it. -/
theorem Call.written_exec {c : Call} {t t' : Tracked} {r : Option (Except Err (ℕ × Option Err))}
    (hrun : c.exec v t.fresh = (r, t')) :
    t'.session.fat.dataWrites = t'.written.map Prod.snd ++ t.session.fat.dataWrites := by
  obtain ⟨ws, hws, hdata⟩ := (c.logged_exec v).of_eq hrun
  have hwritten : t'.written = ws := hws.trans (List.append_nil ws)
  rw [hwritten]
  exact hdata

/-! ## Section 2: What is asked of a call -/

/-- The failure of a seek that `fat_file_write` makes is reported, no more bytes are counted than
have been put into the buffer, a buffer marked for writing belongs to the sector of the file, and
no buffer was written to another sector than its own. -/
structure Sound (t : Tracked) (r : ℕ × Option Err) : Prop where
  reported : t.failed = true → r.2 ≠ none
  counted : r.1 ≤ t.placed
  belongs : t.file.Marked → t.Belongs
  home : ∀ w ∈ t.written, w.1 = some w.2

/-- The call returns, and is sound. -/
def CallSound (c : Call) (t : Tracked) : Prop :=
  ∃ r t', c.exec v t.fresh = (some (.ok r), t') ∧ Sound t' r

theorem CallSound.sound {c : Call} {t t' : Tracked} {r : ℕ × Option Err} (h : CallSound v c t)
    (hrun : c.exec v t.fresh = (some (.ok r), t')) : Sound t' r := by
  obtain ⟨r₁, t₁, hrun₁, hsound⟩ := h
  cases hrun₁.symm.trans hrun
  exact hsound

/-- `P` holds of every call of a run and the state before it. -/
def Along (P : Call → Tracked → Prop) : List Call → Tracked → Prop
  | [], _ => True
  | c :: cs, t => P c t ∧ ∀ r t', c.exec v t.fresh = (some (.ok r), t') → Along P cs t'

/-! ## Section 3: Where calls are sound -/

/-- The offset that a seek asks for is none of a file. -/
def OutOfRange (offset : ℤ) (seek : Whence) (f : File) : Prop :=
  f.target offset seek < 0 ∨ f.target offset seek > 0xffffffff

/-- A call of `fat_file_seek` comes to an end and does not fail. -/
def SeekGoes (offset : ℤ) (seek : Whence) (s : Session) : Prop :=
  ¬ OutOfRange offset seek s.file ∧ ¬ ChainEndless v (s.file.target offset seek).toNat s ∧
    ¬ SeekFails v (s.file.target offset seek).toNat s

/-- A seek to offset `off` does not fail when the buffer is written back; when it is loaded, only
if the file is not modified; and in the chain, only if the buffer is not marked or the file is
still at its sector. -/
structure SeekMeets (off : ℕ) (s : Session) : Prop where
  flush : ¬ FlushFails v off s
  load : LoadFails v off s → s.file.flags.modified = false
  chain : ChainFails v off s → s.file.Marked → (s.file.backtrack v off).sect = s.file.sect

/-- The session in a round of `fat_file_write`, before it seeks. -/
def Session.round (src : List Byte) (s : Session) : Session :=
  { s with file := s.file.put (src.take (s.file.writeCnt src.length)) }

/-- No round of `fat_file_write` makes a seek that fails. -/
def RoundsGo : ℕ → List Byte → Session → Prop
  | 0, _, _ => True
  | n + 1, src, s => src = [] ∨
    (SeekGoes v (s.file.writeCnt src.length) .curr (s.round src) ∧
      ∀ s', fatFileSeek v (s.file.writeCnt src.length) .curr (s.round src) =
        (some (.ok ⟨⟩), s') → RoundsGo n (src.drop (s.file.writeCnt src.length)) s')

/-- The file is modified: `fat_file_write` says so before the first byte. -/
def Session.modify (s : Session) : Session := { s with file :=
  { s.file with flags := { s.file.flags with modified := true, accessed := true } } }

/-- A seek comes to an end and does not fail too late; a write into a file that is open for writing
finds the buffer where it belongs, and its seeks come to an end and do not fail. -/
def Call.Meets : Call → Tracked → Prop
  | .write data, t => t.file.flags.write = true →
    t.Belongs ∧ RoundsGo v data.length data t.session.modify
  | .seek offset whence, t => ¬ OutOfRange offset whence t.file →
    ¬ ChainEndless v (t.file.target offset whence).toNat t.session ∧
      SeekMeets v (t.file.target offset whence).toNat t.session
  | .sync, _ => True
  | .close, _ => True

/-! ## Section 4: Seeks -/

section Returning

instance returns_opsWrite (origin : Origin) (buf : Sector) (sect : ℕ) :
    Returns (opsWrite v origin buf sect) := by
  constructor
  intro fat
  obtain ⟨fat', hrun, -⟩ := opsWrite_run (v := v) origin buf sect fat
  exact ⟨_, fat', hrun⟩

instance returns_opsRead (sect : ℕ) : Returns (opsRead v sect) := by
  constructor
  intro fat
  obtain ⟨buf, fat', hrun⟩ := opsRead_run (v := v) sect fat
  exact ⟨_, fat', hrun⟩

instance returns_onFat {α : Type} (p : FatM α) [Returns p] : Returns (onFat p) :=
  Fallible.returns_zoom

instance returns_editFile (f : File → File) : Returns (editFile f) := Fallible.returns_modify _

instance returns_onSession {α : Type} (p : FileM α) [Returns p] : Returns (onSession p) :=
  Fallible.returns_zoom

instance returns_updateFile (ssect : ℕ) : Returns (Tracked.updateFile v ssect) := by
  have hflush : Returns (flushFile v ssect) := by
    unfold flushFile
    infer_instance
  have hload : Returns (loadFile v) := by
    unfold loadFile
    infer_instance
  unfold Tracked.updateFile Tracked.flushFile Tracked.loadFile
  infer_instance

instance returns_syncBuf : Returns (syncBuf v) := by
  unfold syncBuf
  infer_instance

instance returns_updateBuf (sect : ℕ) : Returns (updateBuf v sect) := by
  unfold updateBuf loadBuf
  infer_instance

instance returns_editBuf (f : Sector → Sector) : Returns (editBuf f) := Fallible.returns_modify _

instance returns_fatFileSync : Returns (Tracked.fatFileSync v) := by
  have hdata : Returns (syncData v) := by
    unfold syncData
    infer_instance
  have hentry : Returns (syncEntry v) := by
    unfold syncEntry
    infer_instance
  have hinfo : Returns (syncInfo v) := by
    unfold syncInfo
    infer_instance
  have hfs : Returns (syncFs v) := by
    unfold syncFs
    infer_instance
  unfold Tracked.fatFileSync fatFileSync
  infer_instance

end Returning

section Seeks

variable {v} {off : ℕ} {t t' : Tracked}

theorem Leaves.marked {o : Option ℕ} {ws : List (Option ℕ × ℕ)} {k : ℕ} {d : Bool}
    (h : Leaves t t' o ws k d) : t'.file.Marked ↔ d = true ∨ t.file.flags.modified = true := by
  rw [File.Marked, h.flags]

theorem Leaves.belongs {o : Option ℕ} {ws : List (Option ℕ × ℕ)} {k : ℕ} {d : Bool}
    (h : Leaves t t' o ws k d) : t'.Belongs ↔ o = some k := by
  rw [Tracked.Belongs, h.owner, h.sect]

/-- A dirty buffer that belongs to its sector is written there. -/
theorem flushes_home (h : t.file.Marked → t.Belongs) : ∀ w ∈ t.flushes, w.1 = some w.2 := by
  intro w hw
  unfold Tracked.flushes at hw
  split at hw
  · rw [List.mem_singleton.1 hw]
    exact h (Or.inl ‹_›)
  · cases hw

/-- A marked buffer that is at another sector than the file does not belong there. -/
theorem not_belongs_of_ne {k : ℕ} (hin : t.file.Marked → t.Belongs) (hm : t.file.Marked)
    (hne : k ≠ t.file.sect) : t.owner ≠ some k := by
  intro howner
  have hbelongs : t.owner = some t.file.sect := hin hm
  exact hne (Option.some.inj (howner.symm.trans hbelongs))

theorem SeekMeets.of_goes {s : Session} (h : ¬ SeekFails v off s) : SeekMeets v off s where
  flush hflush := h (Or.inr (Or.inl hflush))
  load hload := absurd (Or.inr (Or.inr hload)) h
  chain hchain := absurd (Or.inl hchain) h

/-- After a seek, whatever it returns, a marked buffer belongs to the sector of the file and has
been written nowhere else: exactly if the seek does not fail too late. -/
theorem SeekEnds.kept_iff {r : Except Err PUnit} (hends : SeekEnds v off t r t')
    (hin : t.file.Marked → t.Belongs) (hfresh : t.written = []) :
    ((t'.file.Marked → t'.Belongs) ∧ ∀ w ∈ t'.written, w.1 = some w.2) ↔
      SeekMeets v off t.session := by
  cases hends with
  | chain h left =>
    have hmoves : ∀ s₁, ¬ Moves v off t.session s₁ := fun _ hm => hm.not_chainFails v h
    rw [left.marked, left.belongs, left.written, hfresh]
    constructor
    · rintro ⟨hb, -⟩
      refine ⟨?_, ?_, fun _ hm => ?_⟩
      · exact fun ⟨s₁, hm, _⟩ => hmoves s₁ hm
      · exact fun ⟨s₁, hm, _⟩ => absurd hm (hmoves s₁)
      · have howner : t.owner = some t.file.sect := hin hm
        exact Option.some.inj ((hb hm).symm.trans howner)
    · intro hmeets
      refine ⟨fun hm => ?_, nofun⟩
      have hsect : (t.file.backtrack v off).sect = t.file.sect := hmeets.chain h hm
      rw [hsect]
      exact hin hm
  | flush h hne left =>
    -- the buffer is still dirty, and belongs to the sector the file has left
    obtain ⟨s₁, hm, hdirty, hw⟩ := h
    rw [left.marked, left.belongs]
    constructor
    · rintro ⟨hb, -⟩
      exact absurd (hb (Or.inl rfl)) (not_belongs_of_ne hin (Or.inl hdirty) hne)
    · exact fun hmeets => absurd ⟨s₁, hm, hdirty, hw⟩ hmeets.flush
  | load h hne left =>
    obtain ⟨s₁, hm, hflush, hread⟩ := h
    rw [left.marked, left.belongs, left.written, hfresh, List.append_nil]
    constructor
    · rintro ⟨hb, -⟩
      refine ⟨?_, fun _ => ?_, fun hc => absurd hc (hm.not_chainFails v)⟩
      · rintro ⟨s₂, hm₂, hdirty, hw⟩
        rw [← hm.unique v hm₂] at hw
        exact hw (hflush hdirty)
      · by_contra hmod
        cases hb (Or.inr (Bool.eq_true_of_not_eq_false hmod))
    · intro hmeets
      have hmod : t.file.flags.modified = false := hmeets.load ⟨s₁, hm, hflush, hread⟩
      refine ⟨?_, flushes_home hin⟩
      rintro (hd | hd)
      · cases hd
      · rw [hmod] at hd
        cases hd
  | stays h left =>
    rw [left.marked, left.belongs, left.written, hfresh]
    exact ⟨fun _ => .of_goes h, fun _ => ⟨hin, nofun⟩⟩
  | moves h hne left =>
    rw [left.belongs, left.written, hfresh, List.append_nil]
    exact ⟨fun _ => .of_goes h, fun _ => ⟨fun _ => rfl, flushes_home hin⟩⟩

/-- A seek counts nothing, and does not change what was asked for when the file was opened. -/
theorem SeekEnds.counts {r : Except Err PUnit} (h : SeekEnds v off t r t') :
    t'.failed = t.failed ∧ t'.placed = t.placed ∧
      t'.file.flags.modified = t.file.flags.modified := by
  cases h with
  | chain _ left | flush _ _ left | load _ _ left | stays _ left | moves _ _ left =>
    refine ⟨left.failed, left.placed, ?_⟩
    rw [left.flags]

theorem SeekEnds.fails_iff {r : Except Err PUnit} (h : SeekEnds v off t r t') :
    SeekFails v off t.session ↔ r ≠ .ok ⟨⟩ := by
  cases h with
  | chain h left => exact iff_of_true (Or.inl h) nofun
  | flush h _ left => exact iff_of_true (Or.inr (Or.inl h)) nofun
  | load h _ left => exact iff_of_true (Or.inr (Or.inr h)) nofun
  | stays h left | moves h _ left => exact iff_of_false h fun hne => hne rfl

/-- With the chain followed, the rest of a seek returns. -/
theorem seekTo_returns (h : ¬ ChainEndless v off t.session) :
    ∃ r t', Tracked.seekTo v off t = (some r, t') := by
  rcases hchain : chainRun v off t.session with ⟨_ | e | ⟨⟩, s₁⟩
  · exact absurd (congrArg Prod.fst hchain) h
  · exact ⟨_, _, seekTo_of_chain_error hchain nofun⟩
  · rw [seekTo_of_chain hchain]
    exact Returns.run _

theorem not_endless_of_seekTo {r : Except Err PUnit}
    (hrun : Tracked.seekTo v off t = (some r, t')) : ¬ ChainEndless v off t.session := by
  intro hendless
  rcases hchain : chainRun v off t.session with ⟨q, s₁⟩
  obtain rfl : q = none := (congrArg Prod.fst hchain).symm.trans hendless
  rw [seekTo_of_chain_error hchain nofun] at hrun
  cases hrun

theorem fatFileSeek_of_out {offset : ℤ} {seek : Whence} (h : OutOfRange offset seek t.file) :
    Tracked.fatFileSeek v offset seek t = (some (.error .eof), t) := by
  rw [Tracked.fatFileSeek, Fallible.read_bind]
  exact congrFun (if_pos h) t

theorem fatFileSeek_of_range {offset : ℤ} {seek : Whence}
    (h : ¬ OutOfRange offset seek t.file) : Tracked.fatFileSeek v offset seek t =
      Tracked.seekTo v (t.file.target offset seek).toNat t := by
  rw [Tracked.fatFileSeek, Fallible.read_bind]
  exact congrFun (if_neg h) t

/-- A seek that goes returns, without an error. -/
theorem seek_goes {offset : ℤ} {seek : Whence} (h : SeekGoes v offset seek t.session) :
    ∃ t', Tracked.fatFileSeek v offset seek t = (some (.ok ⟨⟩), t') := by
  obtain ⟨hrange, hends, hgoes⟩ := h
  obtain ⟨r, t', hrun⟩ := seekTo_returns hends
  have hok : r = .ok ⟨⟩ := by
    by_contra hne
    exact hgoes ((seekTo_ends hrun).fails_iff.2 hne)
  subst hok
  exact ⟨t', (fatFileSeek_of_range hrange).trans hrun⟩

theorem codeOf_returns {σ : Type} {p : Fallible Err σ PUnit} {s : σ}
    (h : ∃ q s', p s = (some q, s')) : ∃ r s', codeOf p s = (some (.ok r), s') := by
  obtain ⟨q, s', hrun⟩ := h
  exact ⟨_, s', Fallible.bind_of_ok (Fallible.attempt_of_some hrun)⟩

theorem codeOf_ok {σ : Type} {p : Fallible Err σ PUnit} {s s' : σ} {r : ℕ × Option Err}
    (h : codeOf p s = (some (.ok r), s')) : ∃ q, p s = (some q, s') ∧ r = (0, errOf q) := by
  obtain ⟨q, s₁, hrun, hret⟩ := Fallible.exists_of_bind_ok h
  cases hret
  rcases hp : p s with ⟨_ | q', s₂⟩
  · rw [Fallible.attempt_of_none hp] at hrun
    cases hrun
  · rw [Fallible.attempt_of_some hp] at hrun
    cases hrun
    exact ⟨q, rfl, rfl⟩

/-- A call in which no seek of `fat_file_write` failed. -/
theorem sound_iff {r : ℕ × Option Err} (hfailed : t'.failed = false) (hcount : r.1 ≤ t'.placed) :
    Sound t' r ↔ (t'.file.Marked → t'.Belongs) ∧ ∀ w ∈ t'.written, w.1 = some w.2 := by
  refine ⟨fun h => ⟨h.belongs, h.home⟩, fun h => ⟨fun hf => ?_, hcount, h.1, h.2⟩⟩
  rw [hfailed] at hf
  cases hf

/-- **Step lemma**, for `fat_file_seek`. -/
theorem sound_seek_iff {offset : ℤ} {whence : Whence} {r : ℕ × Option Err}
    (hin : t.file.Marked → t.Belongs)
    (hrun : (Call.seek offset whence).exec v t.fresh = (some (.ok r), t')) :
    Sound t' r ↔ (Call.seek offset whence).Meets v t := by
  obtain ⟨q, hseek, rfl⟩ := codeOf_ok hrun
  by_cases hout : OutOfRange offset whence t.file
  · rw [fatFileSeek_of_out (t := t.fresh) hout] at hseek
    cases hseek
    exact iff_of_true ((sound_iff rfl (Nat.zero_le _)).2 ⟨hin, nofun⟩) fun h => absurd hout h
  · rw [fatFileSeek_of_range (t := t.fresh) hout] at hseek
    have hends := seekTo_ends hseek
    rw [sound_iff hends.counts.1 (Nat.zero_le _), hends.kept_iff hin rfl]
    have hends : ¬ ChainEndless v _ t.session := not_endless_of_seekTo (t := t.fresh) hseek
    exact ⟨fun h _ => ⟨hends, h⟩, fun h => (h hout).2⟩

end Seeks

/-! ## Section 5: Writes -/

section Writes

variable {v} {t t' : Tracked} {src : List Byte}

/-- A round of `fat_file_write`, before it seeks. -/
def Tracked.round (t : Tracked) (src : List Byte) : Tracked :=
  { t with session := t.session.round src, placed := t.placed + t.file.writeCnt src.length }

/-- The buffer belongs to the sector of the file, and was written to no other than its own. -/
def Tracked.Kept (t : Tracked) : Prop := t.Belongs ∧ ∀ w ∈ t.written, w.1 = some w.2

theorem round_kept : (t.round src).Kept ↔ t.Kept := Iff.rfl

/-- How many bytes a round takes. -/
def Tracked.cnt (t : Tracked) (src : List Byte) : ℕ := t.file.writeCnt src.length

/-- A round ends the loop if its seek fails, and else another one follows. -/
theorem writeLoop_round {n bytes b : ℕ} (hne : src ≠ [])
    (hrun : Tracked.writeLoop v (n + 1) src bytes t = (some (.ok b), t')) :
    (∃ e t₂, Tracked.fatFileSeek v (t.cnt src) .curr (t.round src) = (some (.error e), t₂) ∧
      b = bytes + t.cnt src ∧ t' = { t₂ with failed := true }) ∨
    ∃ t₂, Tracked.fatFileSeek v (t.cnt src) .curr (t.round src) = (some (.ok ⟨⟩), t₂) ∧
      Tracked.writeLoop v n (src.drop (t.cnt src)) (bytes + t.cnt src) t₂ =
        (some (.ok b), t') := by
  rw [Tracked.writeLoop, Fallible.read_bind] at hrun
  have hround := (congrFun (if_neg hne) t).symm.trans hrun
  rw [Fallible.bind_of_ok (onSession_editFile _ t), Fallible.modify_bind] at hround
  obtain ⟨q, t₂, hfirst, hrest⟩ := Fallible.exists_of_bind_ok hround
  have hattempt : (Tracked.fatFileSeek v (t.cnt src) .curr).attempt (t.round src) =
      (some (.ok q), t₂) := hfirst
  rcases hseek : Tracked.fatFileSeek v (t.cnt src) .curr (t.round src) with ⟨_ | q', t₃⟩
  · rw [Fallible.attempt_of_none hseek] at hattempt
    cases hattempt
  · rw [Fallible.attempt_of_some hseek] at hattempt
    cases hattempt
    cases q with
    | ok _ => exact Or.inr ⟨t₂, rfl, hrest⟩
    | error e =>
      cases hrest
      exact Or.inl ⟨e, t₂, rfl, rfl, rfl⟩

/-- A seek that does not fail loses no buffer, and finds none. -/
theorem seek_kept {off : ℕ} (h : SeekEnds v off t (.ok ⟨⟩) t')
    (hdirty : t.file.flags.fileDirty = true) : t'.Kept ↔ t.Kept := by
  cases h with
  | stays _ left =>
    rw [Tracked.Kept, left.belongs, left.written]
    exact Iff.rfl
  | moves _ _ left =>
    -- the buffer is loaded, but has been written before
    rw [Tracked.Kept, left.belongs, left.written, Tracked.flushes, if_pos hdirty,
      List.singleton_append, List.forall_mem_cons]
    exact ⟨fun h => h.2, fun h => ⟨rfl, h⟩⟩

/-- What the loop of `fat_file_write` leaves: no seek has failed exactly if the rounds go, and
then the buffer is as it was. -/
structure LoopEnds (n : ℕ) (src : List Byte) (bytes : ℕ) (t : Tracked) (b : ℕ) (t' : Tracked) :
    Prop where
  failed : t'.failed = false ↔ RoundsGo v n src t.session
  kept : t'.failed = false → (t'.Kept ↔ t.Kept)
  count : b + t.placed = bytes + t'.placed
  modified : t'.file.flags.modified = t.file.flags.modified

/-- The seek of a round. -/
theorem seek_round {r : Except Err PUnit}
    (hseek : Tracked.fatFileSeek v (t.cnt src) .curr (t.round src) = (some r, t')) :
    (SeekGoes v (t.cnt src) .curr (t.session.round src) ↔ r = .ok ⟨⟩) ∧
      (r = .ok ⟨⟩ → (t'.Kept ↔ t.Kept)) ∧ t'.failed = t.failed ∧
      t'.placed = t.placed + t.cnt src ∧
      t'.file.flags.modified = t.file.flags.modified := by
  by_cases hout : OutOfRange (t.cnt src) .curr (t.round src).file
  · rw [fatFileSeek_of_out hout] at hseek
    cases hseek
    exact ⟨iff_of_false (fun h => h.1 hout) nofun, nofun, rfl, rfl, rfl⟩
  · rw [fatFileSeek_of_range hout] at hseek
    have hends := seekTo_ends hseek
    obtain ⟨hfailed, hplaced, hmod⟩ := hends.counts
    refine ⟨?_, ?_, hfailed, hplaced, hmod⟩
    · have hiff : ¬ SeekFails v _ (t.session.round src) ↔ r = .ok ⟨⟩ :=
        not_iff_comm.1 hends.fails_iff.symm
      exact ⟨fun h => hiff.1 h.2.2, fun h => ⟨hout, not_endless_of_seekTo hseek, hiff.2 h⟩⟩
    · rintro rfl
      exact (seek_kept (t := t.round src) hends rfl).trans round_kept

/-- **Run lemma.** The loop of `fat_file_write`. -/
theorem writeLoop_ends {n bytes b : ℕ} (hfresh : t.failed = false)
    (hrun : Tracked.writeLoop v n src bytes t = (some (.ok b), t')) :
    LoopEnds (v := v) n src bytes t b t' := by
  -- on the rounds that are left: nothing has failed before the first of them
  induction n generalizing src bytes t with
  | zero =>
    cases hrun
    exact ⟨iff_of_true hfresh trivial, fun _ => Iff.rfl, rfl, rfl⟩
  | succ n ih =>
    by_cases hne : src = []
    · rw [Tracked.writeLoop, Fallible.read_bind] at hrun
      cases (congrFun (if_pos hne) t).symm.trans hrun
      exact ⟨iff_of_true hfresh (Or.inl hne), fun _ => Iff.rfl, rfl, rfl⟩
    rcases writeLoop_round hne hrun with ⟨e, t₂, hseek, rfl, rfl⟩ | ⟨t₂, hseek, hrest⟩
    · obtain ⟨hgoes, -, -, hplaced, hmod⟩ := seek_round hseek
      refine ⟨iff_of_false (by simp) ?_, fun hok => (by cases hok), ?_, hmod⟩
      · rintro (hnil | ⟨hgo, -⟩)
        · exact hne hnil
        · cases hgoes.1 hgo
      · show bytes + t.cnt src + t.placed = bytes + t₂.placed
        rw [hplaced, Nat.add_assoc, Nat.add_comm t.placed]
    · obtain ⟨hgoes, hkept, hfailed, hplaced, hmod⟩ := seek_round hseek
      have hends := ih (hfailed.trans hfresh) hrest
      have hsession := (erases_fatFileSeek v _ _).run hseek
      refine ⟨hends.failed.trans ?_, fun hf => (hends.kept hf).trans (hkept rfl), ?_,
        hends.modified.trans hmod⟩
      · constructor
        · refine fun h => Or.inr ⟨hgoes.2 rfl, fun s' hs' => ?_⟩
          have hsame : t₂.session = s' := congrArg Prod.snd (hsession.symm.trans hs')
          rw [← hsame]
          exact h
        · rintro (hnil | ⟨-, hrounds⟩)
          · exact absurd hnil hne
          · exact hrounds _ hsession
      · have hcount := hends.count
        rw [hplaced] at hcount
        omega

/-- **Run lemma.** The loop returns if its rounds go. -/
theorem writeLoop_returns {n : ℕ} (bytes : ℕ) (h : RoundsGo v n src t.session) :
    ∃ b t', Tracked.writeLoop v n src bytes t = (some (.ok b), t') := by
  induction n generalizing src bytes t with
  | zero => exact ⟨bytes, t, rfl⟩
  | succ n ih =>
    rw [Tracked.writeLoop, Fallible.read_bind]
    by_cases hne : src = []
    · exact ⟨bytes, t, congrFun (if_pos hne) t⟩
    obtain ⟨hgoes, hrest⟩ := h.resolve_left hne
    obtain ⟨t₂, hseek⟩ := seek_goes (t := t.round src) hgoes
    have hsession := (erases_fatFileSeek v _ _).run hseek
    obtain ⟨b, t', hloop⟩ := ih (bytes + t.cnt src) (hrest _ hsession)
    refine ⟨b, t', (congrFun (if_neg hne) t).trans ?_⟩
    rw [Fallible.bind_of_ok (onSession_editFile _ t), Fallible.modify_bind]
    exact (Fallible.bind_of_ok (Fallible.attempt_of_some hseek)).trans hloop

/-- The file is open for writing. -/
def Tracked.modify (t : Tracked) : Tracked := { t with session := t.session.modify }

/-- `fat_file_write` into a file that is open for writing. -/
theorem fatFileWrite_run {data : List Byte} {r : ℕ × Option Err}
    (hw : t.file.flags.write = true)
    (hrun : Tracked.fatFileWrite v data t = (some (.ok r), t')) :
    ∃ b t₂, Tracked.writeLoop v data.length data 0 t.modify = (some (.ok b), t₂) ∧
      r = (b, none) ∧ t' = t₂.setFile { t₂.file with size := max t₂.file.size t₂.file.offset } := by
  rw [Tracked.fatFileWrite, Fallible.read_bind] at hrun
  have hopen := (congrFun (if_pos hw) t).symm.trans hrun
  rw [Fallible.bind_of_ok (onSession_editFile _ t)] at hopen
  obtain ⟨b, t₂, hloop, hrest⟩ := Fallible.exists_of_bind_ok hopen
  cases hrest
  exact ⟨b, t₂, hloop, rfl, rfl⟩

theorem fatFileWrite_returns {data : List Byte}
    (h : t.file.flags.write = true → RoundsGo v data.length data t.session.modify) :
    ∃ r t', Tracked.fatFileWrite v data t = (some (.ok r), t') := by
  rw [Tracked.fatFileWrite, Fallible.read_bind]
  by_cases hw : t.file.flags.write = true
  · obtain ⟨b, t₂, hloop⟩ := writeLoop_returns (t := t.modify) 0 (h hw)
    refine ⟨(b, none), t₂.setFile { t₂.file with size := max t₂.file.size t₂.file.offset },
      (congrFun (if_pos hw) t).trans ?_⟩
    rw [Fallible.bind_of_ok (onSession_editFile _ t)]
    exact Fallible.bind_of_ok hloop
  · exact ⟨(0, some .denied), t, congrFun (if_neg hw) t⟩

/-- **Step lemma**, for `fat_file_write`. -/
theorem sound_write_iff {data : List Byte} {r : ℕ × Option Err}
    (hin : t.file.Marked → t.Belongs)
    (hrun : (Call.write data).exec v t.fresh = (some (.ok r), t')) :
    Sound t' r ↔ (Call.write data).Meets v t := by
  by_cases hw : t.file.flags.write = true
  · obtain ⟨b, t₂, hloop, rfl, rfl⟩ := fatFileWrite_run (t := t.fresh) hw hrun
    have hends := writeLoop_ends (t := t.fresh.modify) rfl hloop
    have hstart : t.fresh.modify.Kept ↔ t.Belongs := and_iff_left nofun
    have hmod : t₂.file.flags.modified = true := hends.modified
    constructor
    · intro hsound
      have hfailed : t₂.failed = false :=
        Bool.eq_false_iff.2 fun hf => hsound.reported hf rfl
      refine fun _ => ⟨hstart.1 ((hends.kept hfailed).1 ?_), hends.failed.1 hfailed⟩
      exact ⟨hsound.belongs (Or.inr hmod), hsound.home⟩
    · intro hmeets
      obtain ⟨hbelongs, hrounds⟩ := hmeets hw
      have hfailed : t₂.failed = false := hends.failed.2 hrounds
      obtain ⟨hb, hhome⟩ := (hends.kept hfailed).2 (hstart.2 hbelongs)
      have hcount : b + 0 = 0 + t₂.placed := hends.count
      refine ⟨fun hf => absurd (hfailed.symm.trans hf) nofun, ?_, fun _ => hb, hhome⟩
      show b ≤ t₂.placed
      omega
  · have hdenied : Tracked.fatFileWrite v data t.fresh =
        (some (.ok (0, some .denied)), t.fresh) := by
      rw [Tracked.fatFileWrite, Fallible.read_bind]
      exact congrFun (if_neg hw) t.fresh
    cases hdenied.symm.trans hrun
    exact iff_of_true ((sound_iff rfl (Nat.zero_le _)).2 ⟨hin, nofun⟩) fun h => absurd h hw

end Writes

/-! ## Section 6: Syncs -/

/-- The file is at the same sector, and no more than before is to be written. -/
def SyncKeeps (s s' : Session) : Prop :=
  s'.file.sect = s.file.sect ∧ (s'.file.Marked → s.file.Marked)

instance : IsPreorder Session SyncKeeps where
  refl _ := ⟨rfl, id⟩
  trans _ _ _ h h' := ⟨h'.1.trans h.1, h.2 ∘ h'.2⟩

theorem keeps_fatFileSync : Keeps SyncKeeps (fatFileSync v) := by
  have hfat : ∀ {α : Type} (p : FatM α), Keeps SyncKeeps (onFat p) :=
    keeps_onFat fun _ _ => ⟨rfl, id⟩
  have hdata : Keeps SyncKeeps (syncData v) := by
    unfold syncData
    infer_instance
  have hentry : Keeps SyncKeeps (syncEntry v) := by
    unfold syncEntry
    infer_instance
  have hclear : Keeps SyncKeeps (editFile fun f =>
      { f with flags := { f.flags with accessed := false, modified := false } }) :=
    Fallible.keeps_modify fun s => ⟨rfl, fun h => Or.inl (h.resolve_right nofun)⟩
  unfold fatFileSync
  infer_instance

/-- Where a sync writes the buffer of a file. -/
def Tracked.syncs (t : Tracked) : List (Option ℕ × ℕ) :=
  if t.file.flags.modified then [(t.owner, t.file.sect)] else []

theorem fatFileSync_run {t t' : Tracked} {r : Except Err PUnit}
    (hrun : Tracked.fatFileSync v t = (some r, t')) :
    SyncKeeps t.session t'.session ∧
      t' = { t with session := t'.session, written := t.syncs ++ t.written } := by
  rw [Tracked.fatFileSync, Fallible.modify_bind] at hrun
  unfold Tracked.syncs
  split at hrun
  · rw [if_pos ‹_›]
    cases hrun' : fatFileSync v t.session with
    | mk q s' =>
      have hghost := onSession_of_eq (t := t.note t.file.sect) hrun'
      cases hghost.symm.trans hrun
      exact ⟨(keeps_fatFileSync v).of_eq hrun', rfl⟩
  · rw [if_neg ‹_›]
    cases hrun' : fatFileSync v t.session with
    | mk q s' =>
      have hghost := onSession_of_eq (t := t) hrun'
      cases hghost.symm.trans hrun
      exact ⟨(keeps_fatFileSync v).of_eq hrun', rfl⟩

/-- **Step lemma**, for `fat_file_sync`: it writes the buffer where it belongs. -/
theorem sound_sync {t t' : Tracked} {r : ℕ × Option Err} (hin : t.file.Marked → t.Belongs)
    (hrun : codeOf (Tracked.fatFileSync v) t.fresh = (some (.ok r), t')) : Sound t' r := by
  obtain ⟨q, hsync, rfl⟩ := codeOf_ok hrun
  obtain ⟨⟨hsect, hmarked⟩, heq⟩ := fatFileSync_run v hsync
  rw [heq]
  refine (sound_iff rfl (Nat.zero_le _)).2 ⟨fun hm => ?_, fun w hw => ?_⟩
  · show t.owner = some t'.session.file.sect
    rw [hsect]
    exact hin (hmarked hm)
  · have hmem : w ∈ t.fresh.syncs := List.append_nil t.fresh.syncs ▸ hw
    unfold Tracked.syncs at hmem
    split at hmem
    · rw [List.mem_singleton.1 hmem]
      exact hin (Or.inr ‹_›)
    · cases hmem

/-! ## Section 7: Runs -/

/-- **Step lemma.**  A call that returns is sound exactly if it meets the condition. -/
theorem sound_iff_meets {c : Call} {t t' : Tracked} {r : ℕ × Option Err}
    (hin : t.file.Marked → t.Belongs) (hrun : c.exec v t.fresh = (some (.ok r), t')) :
    Sound t' r ↔ c.Meets v t := by
  cases c with
  | write data => exact sound_write_iff hin hrun
  | seek offset whence => exact sound_seek_iff hin hrun
  | sync => exact iff_of_true (sound_sync v hin hrun) trivial
  | close => exact iff_of_true (sound_sync v hin hrun) trivial

/-- A call that meets the condition returns. -/
theorem returns_of_meets {c : Call} {t : Tracked} (h : c.Meets v t) :
    ∃ r t', c.exec v t.fresh = (some (.ok r), t') := by
  cases c with
  | write data => exact fatFileWrite_returns (t := t.fresh) fun hw => (h hw).2
  | seek offset whence =>
    by_cases hout : OutOfRange offset whence t.file
    · exact codeOf_returns ⟨_, _, fatFileSeek_of_out (t := t.fresh) hout⟩
    · obtain ⟨q, t', hrun⟩ := seekTo_returns (t := t.fresh) (h hout).1
      exact codeOf_returns ⟨q, t', (fatFileSeek_of_range (t := t.fresh) hout).trans hrun⟩
  | sync => exact codeOf_returns (Returns.run t.fresh)
  | close => exact codeOf_returns (Returns.run t.fresh)

/-- A call is sound exactly if it meets the condition. -/
theorem callSound_iff {c : Call} {t : Tracked} (hin : t.file.Marked → t.Belongs) :
    CallSound v c t ↔ c.Meets v t := by
  constructor
  · rintro ⟨r, t', hrun, hsound⟩
    exact (sound_iff_meets v hin hrun).1 hsound
  · intro hmeets
    obtain ⟨r, t', hrun⟩ := returns_of_meets v hmeets
    exact ⟨r, t', hrun, (sound_iff_meets v hin hrun).2 hmeets⟩

/-- **Run lemma.**  So are all calls of a run, exactly if each meets it where the run has come to.
-/
theorem along_sound_iff (calls : List Call) {t : Tracked} (hin : t.file.Marked → t.Belongs) :
    Along v (CallSound v) calls t ↔ Along v (Call.Meets v) calls t := by
  induction calls generalizing t with
  | nil => exact Iff.rfl
  | cons c cs ih =>
    -- a sound call leaves a marked buffer where it belongs, so that the next one finds it there
    have hrest : CallSound v c t → ((∀ r t', c.exec v t.fresh = (some (.ok r), t') →
        Along v (CallSound v) cs t') ↔ ∀ r t', c.exec v t.fresh = (some (.ok r), t') →
          Along v (Call.Meets v) cs t') := by
      intro hsound
      constructor
      · exact fun h r t' hrun => (ih (hsound.sound v hrun).belongs).1 (h r t' hrun)
      · exact fun h r t' hrun => (ih (hsound.sound v hrun).belongs).2 (h r t' hrun)
    rw [Along, Along, ← callSound_iff v hin]
    exact and_congr_right hrest

/-- A volume whose first write fails. -/
def failingVolume : Volume where
  ops := ⟨fun _ => none, fun k => if k = 0 then some fun _ => 0 else none, fun _ => 0,
    fun _ => 0⟩
  clustMsk := 1
  clustCnt := 1000
  infoSect := 1
  fatSect := 32
  mirrorSect := 0
  dataSect := 100
  rootClust := 2
  clustShift := 1
  name := []

/-- A file of 511 bytes that is open for writing at its end. -/
def appendSession : Session where
  fat :=
    { lastUsed := 5, freeCnt := 900, sect := 0, buf := fun _ => 0, bufDirty := false
      infoDirty := false, gBuf := fun _ => 0, gLen := 0, gCrc := 0, disk := fun _ _ => 0
      calls := 0, writes := [] }
  file :=
    { dirSect := 200, dirIdx := 32, sclust := 3, clust := 3, sect := 102, size := 511
      offset := 511, attr := 0, flags := { write := true }, buf := fun _ => 0 }

end Karnix.Fat
