import Karnix.Fat.File
import Karnix.Library.WriteBack

/-!
# The buffer of a volume as a cache

The sector buffer of the driver is a write-back cache of one line.  With disk operations that
succeed, `sync_buf` and `update_buf` are the operations of the cache, and what the routines read
is the `view`: what the sectors hold once the buffer is written back.
-/

namespace Karnix.Fat

open Karnix.Library
open Fallible (Succeeds Fails Ends)

/-! ## Section 1: What the sectors hold -/

namespace State

/-- The buffer and the disk behind it. -/
def cache (s : State) : WriteBack ℕ Sector := ⟨s.disk, s.sect, s.buf, s.bufDirty⟩

/-- What the sectors hold once the buffer is written back. -/
def view (s : State) : ℕ → Sector := s.cache.view

/-- The buffer stands for its sector.  After `fat_mount` that is sector 0, which has not been
read. -/
def Coherent (s : State) : Prop := s.cache.Coherent {sect | sect ≠ 0}

/-- Nothing is left to be written. -/
def Synced (s : State) : Prop := s.bufDirty = false ∧ s.infoDirty = false

/-- What has to do with `FsInfo` is the same. -/
structure SameInfo (s s' : State) : Prop where
  lastUsed : s'.lastUsed = s.lastUsed
  freeCnt : s'.freeCnt = s.freeCnt
  infoDirty : s'.infoDirty = s.infoDirty

/-- The globals are the same. -/
structure SameGlobals (s s' : State) : Prop where
  gBuf : s'.gBuf = s.gBuf
  gLen : s'.gLen = s.gLen
  gCrc : s'.gCrc = s.gCrc

/-- The sectors of the files that were written. -/
def dataWrites (s : State) : List ℕ :=
  (s.writes.filter fun w => w.origin = .file).map DiskWrite.sect

/-- What a step that only reads does. -/
structure Reads (s s' : State) : Prop extends SameInfo s s' where
  view : s'.view = s.view
  coherent : s.Coherent → s'.Coherent
  clean : s.bufDirty = false → s'.bufDirty = false ∧ s'.disk = s.disk ∧ s'.writes = s.writes

theorem view_of_clean {s : State} (h : s.bufDirty = false) : s.view = s.disk :=
  WriteBack.view_of_clean s.cache h

@[refl] theorem SameInfo.refl (s : State) : SameInfo s s := ⟨rfl, rfl, rfl⟩

theorem SameInfo.trans {s₁ s₂ s₃ : State} (h : SameInfo s₁ s₂) (h' : SameInfo s₂ s₃) :
    SameInfo s₁ s₃ :=
  ⟨h'.lastUsed.trans h.lastUsed, h'.freeCnt.trans h.freeCnt, h'.infoDirty.trans h.infoDirty⟩

theorem SameGlobals.refl (s : State) : SameGlobals s s := ⟨rfl, rfl, rfl⟩

theorem SameGlobals.trans {s₁ s₂ s₃ : State} (h : SameGlobals s₁ s₂) (h' : SameGlobals s₂ s₃) :
    SameGlobals s₁ s₃ := ⟨h'.gBuf.trans h.gBuf, h'.gLen.trans h.gLen, h'.gCrc.trans h.gCrc⟩

theorem Reads.refl (s : State) : Reads s s :=
  ⟨.refl s, rfl, id, fun h => ⟨h, rfl, rfl⟩⟩

theorem Reads.trans {s₁ s₂ s₃ : State} (h : Reads s₁ s₂) (h' : Reads s₂ s₃) : Reads s₁ s₃ := by
  refine ⟨h.toSameInfo.trans h'.toSameInfo, h'.view.trans h.view, h'.coherent ∘ h.coherent, ?_⟩
  intro hclean
  obtain ⟨hd, hdisk, hw⟩ := h.clean hclean
  obtain ⟨hd', hdisk', hw'⟩ := h'.clean hd
  exact ⟨hd', hdisk'.trans hdisk, hw'.trans hw⟩

instance : IsPreorder State Reads where
  refl := Reads.refl
  trans _ _ _ := Reads.trans

end State

/-! ## Section 2: The disk operations -/

variable (v : Volume) [v.ops.Reliable] {s : State}

theorem opsRead_eq (sect : ℕ) :
    opsRead v sect s = (some (.ok (s.disk sect, true)), { s with calls := s.calls + 1 }) := by
  rw [opsRead, DiskOps.Reliable.read]

theorem opsWrite_eq (origin : Origin) (buf : Sector) (sect : ℕ) :
    opsWrite v origin buf sect s = (some (.ok true), { s with
      disk := Function.update s.disk sect buf
      calls := s.calls + 1
      writes := ⟨origin, sect⟩ :: s.writes }) := by
  rw [opsWrite, DiskOps.Reliable.write]
  have hupd : (fun k => if k = sect then buf else s.disk k) = Function.update s.disk sect buf := by
    funext k
    rw [Function.update_apply]
  rw [← hupd]

/-! ## Section 3: `sync_buf` and `update_buf` -/

/-- What a step that works on the buffer alone does. -/
structure State.Buffers (s s' : State) (cache : WriteBack ℕ Sector) : Prop
    extends SameInfo s s', SameGlobals s s' where
  cache : s'.cache = cache
  data : s'.dataWrites = s.dataWrites

/-- The calls of the write operation for the buffer that `sync_buf` makes. -/
def State.flushWrites (s : State) : List DiskWrite :=
  if s.bufDirty then ⟨.volume, s.sect⟩ :: s.writes else s.writes

/-- `sync_buf` writes the line back. -/
theorem syncBuf_spec : Succeeds (syncBuf v) s fun _ s' =>
    s.Buffers s' s.cache.flush ∧ s'.writes = s.flushWrites := by
  cases hd : s.bufDirty with
  | false =>
    refine ⟨⟨⟩, s, ?_, ⟨⟨.refl s, .refl s, ?_, rfl⟩, ?_⟩⟩
    · rw [syncBuf, Fallible.read_bind]
      simp only [id, hd, Bool.false_eq_true, if_false]
      rfl
    · rw [WriteBack.flush, WriteBack.view_of_clean s.cache hd]
      show (⟨s.disk, s.sect, s.buf, s.bufDirty⟩ : WriteBack ℕ Sector) = _
      rw [hd]
      rfl
    · rw [State.flushWrites, hd]
      rfl
  | true =>
    refine ⟨⟨⟩, { s with
      disk := Function.update s.disk s.sect s.buf
      bufDirty := false
      calls := s.calls + 1
      writes := ⟨.volume, s.sect⟩ :: s.writes }, ?_, ?_⟩
    · rw [syncBuf, Fallible.read_bind]
      simp only [id, hd, if_true]
      rw [Fallible.bind_of_ok (opsWrite_eq v ..)]
      rfl
    · refine ⟨⟨⟨rfl, rfl, rfl⟩, ⟨rfl, rfl, rfl⟩, ?_, rfl⟩, ?_⟩
      · rw [WriteBack.flush, WriteBack.view_of_dirty s.cache hd]
        rfl
      · rw [State.flushWrites, hd]
        rfl

/-- `update_buf` loads the line: the buffer shows the sector, and the disk the same as before. -/
theorem updateBuf_spec (sect : ℕ) : Succeeds (updateBuf v sect) s fun _ s' =>
    s.Buffers s' (s.cache.load sect) ∧
      s'.writes = if s.sect = sect then s.writes else s.flushWrites := by
  by_cases h : s.sect = sect
  · refine ⟨⟨⟩, s, ?_, ⟨⟨.refl s, .refl s, ?_, rfl⟩, ?_⟩⟩
    · rw [updateBuf, Fallible.read_bind]
      simp only [id, ne_eq, h, not_true, if_false]
      rfl
    · exact (if_pos h).symm
    · exact (if_pos h).symm
  · obtain ⟨_, s₁, hrun, hs₁, hw⟩ := syncBuf_spec v (s := s)
    refine ⟨⟨⟩, { s₁ with buf := s₁.disk sect, sect := sect, calls := s₁.calls + 1 }, ?_, ?_⟩
    · rw [updateBuf, Fallible.read_bind]
      simp only [id, ne_eq, h, not_false_eq_true, if_true]
      rw [Fallible.bind_of_ok hrun, loadBuf, Fallible.bind_of_ok (opsRead_eq v sect)]
      rfl
    · have hcache : s₁.disk = s.view ∧ s₁.bufDirty = false := by
        have hflush := hs₁.cache
        exact ⟨congrArg WriteBack.store hflush, congrArg WriteBack.dirty hflush⟩
      refine ⟨⟨hs₁.toSameInfo.trans ⟨rfl, rfl, rfl⟩, hs₁.toSameGlobals.trans ⟨rfl, rfl, rfl⟩, ?_,
        hs₁.data⟩, ?_⟩
      · show (⟨s₁.disk, sect, s₁.disk sect, s₁.bufDirty⟩ : WriteBack ℕ Sector) = _
        rw [hcache.1, hcache.2]
        exact (if_neg h).symm
      · rw [if_neg h]
        exact hw

/-! ## Section 4: What is read -/

theorem State.Buffers.reads_load {s' : State} {sect : ℕ} (h : s.Buffers s' (s.cache.load sect))
    (hw : s'.writes = if s.sect = sect then s.writes else s.flushWrites) : s.Reads s' := by
  refine ⟨h.toSameInfo, ?_, ?_, ?_⟩
  · rw [State.view, h.cache, WriteBack.view_load, State.view]
  · intro hc
    rw [State.Coherent, h.cache]
    exact WriteBack.Coherent.load hc sect
  · intro hclean
    have hview : s.cache.view = s.disk := State.view_of_clean hclean
    refine ⟨?_, ?_, ?_⟩
    · refine (congrArg WriteBack.dirty h.cache).trans ?_
      rw [WriteBack.load]
      split_ifs
      · exact hclean
      · rfl
    · refine (congrArg WriteBack.store h.cache).trans ?_
      rw [WriteBack.load, hview]
      split_ifs <;> rfl
    · rw [hw, State.flushWrites, hclean]
      exact ite_self _

/-- After `update_buf` the buffer holds the sector. -/
theorem updateBuf_reads {sect : ℕ} (hc : s.Coherent) (h0 : sect ≠ 0) :
    Succeeds (updateBuf v sect) s fun _ s' =>
      s.Reads s' ∧ s.SameGlobals s' ∧ s'.sect = sect ∧ s'.buf = s.view sect := by
  refine (updateBuf_spec v sect).mono fun _ s' ⟨h, hw⟩ => ?_
  refine ⟨h.reads_load hw, h.toSameGlobals, ?_, ?_⟩
  · exact (congrArg WriteBack.tag h.cache).trans (WriteBack.tag_load s.cache sect)
  · exact (congrArg WriteBack.line h.cache).trans (WriteBack.Coherent.line_load hc h0)

instance keeps_reads_updateBuf (sect : ℕ) : Program.Keeps State.Reads (updateBuf v sect) := by
  constructor
  intro s
  obtain ⟨_, s', hrun, h, hw⟩ := updateBuf_spec v sect (s := s)
  rw [hrun]
  exact h.reads_load hw

/-! ## Section 5: `get_fat` -/

/-- The sector with the entry of a cluster. -/
def Volume.entrySect (fatSect clust : ℕ) : ℕ := u32 (fatSect + clust / 128)

/-- The value of the entry of a cluster, in sectors with the contents `w`. -/
def Volume.entry (w : ℕ → Sector) (clust : ℕ) : ℕ :=
  entryVal (item (w (Volume.entrySect v.fatSect clust)) (clust % 128))

/-- The flags of a cluster, if its entry is a valid one. -/
def Volume.kind (w : ℕ → Sector) (clust : ℕ) : Option Kind := v.kindOf (v.entry w clust)

variable {v}

/-- `get_fat` reads the entry that the view of the disk has for the cluster. -/
theorem getFat_ok {clust : ℕ} {kind : Kind} (hc : s.Coherent)
    (h0 : Volume.entrySect v.fatSect clust ≠ 0) (hk : v.kind s.view clust = some kind) :
    Succeeds (getFat v clust) s fun r s' =>
      r = (v.entry s.view clust, kind) ∧ s.Reads s' ∧ s.SameGlobals s' := by
  refine (updateBuf_reads v hc h0).bind fun _ s₁ ⟨hr, hg, _, hbuf⟩ => ?_
  refine Succeeds.read_bind ?_
  have hentry : entryVal (item s₁.buf (clust % 128)) = v.entry s.view clust := by
    rw [hbuf]
    rfl
  simp only [id, hentry]
  rw [show v.kindOf (v.entry s.view clust) = some kind from hk]
  exact .pure ⟨rfl, hr, hg⟩

end Karnix.Fat
