import Karnix.Fat.Buffer

/-!
# What the routines of the driver keep

A relation between states that the buffer routine and the parser of names keep to is kept by
every routine that only reads.  One that all writes through the buffer keep to as well is kept
by every routine that works on a volume.
-/

namespace Karnix.Fat

open Karnix.Library
open Program (Keeps)
open Fallible (keeps_then keeps_modify)

variable (v : Volume)

/-! ## Section 1: Routines that read -/

/-- The globals may change, and nothing else of the volume. -/
class ParseSteps (R : State → State → Prop) : Prop extends IsPreorder State R where
  globals : ∀ (s : State) (gBuf : Memory Byte) (gLen : ℕ) (gCrc : Byte),
    R s { s with gBuf := gBuf, gLen := gLen, gCrc := gCrc }

/-- The buffer may be moved. -/
class ReadSteps (R : State → State → Prop) : Prop where
  updateBuf : ∀ sect, Keeps R (updateBuf v sect)

section Readers

variable {R : State → State → Prop} [ParseSteps R]

instance keeps_parseSfnName (raw : List Byte) : Keeps R (parseSfnName raw) :=
  keeps_modify fun s => ParseSteps.globals s _ _ s.gCrc

instance keeps_takeFrag (idx pos n i : ℕ) : Keeps R (takeFrag idx pos n i) := by
  induction n generalizing i with
  | zero => exact Fallible.keeps_pure _
  | succ n ih =>
    have hput : ∀ c : Byte, Keeps R (Fallible.modify fun s : State => { s with
        gBuf := s.gBuf.store (pos + i) [c]
        gLen := s.gLen + 1 } : FatM PUnit) :=
      fun c => keeps_modify fun s => ParseSteps.globals s _ _ s.gCrc
    unfold takeFrag
    infer_instance

instance keeps_checkLen (dir : Dir) : Keeps R (checkLen dir) := by
  unfold checkLen
  infer_instance

variable [ReadSteps v R]

instance keeps_updateBuf (sect : ℕ) : Keeps R (updateBuf v sect) := ReadSteps.updateBuf sect

instance keeps_getFat (clust : ℕ) : Keeps R (getFat v clust) := by
  refine keeps_then fun _ => keeps_then fun fat => ?_
  cases v.kindOf (entryVal (item fat.buf (clust % 128))) with
  | none => exact Fallible.keeps_throw _
  | some kind => exact Fallible.keeps_pure _

instance keeps_dirNext (dir : Dir) : Keeps R (dirNext v dir) := by
  unfold dirNext
  infer_instance

instance keeps_dirAdvance (n : ℕ) (dir : Dir) : Keeps R (dirAdvance v n dir) := by
  induction n generalizing dir with
  | zero => exact Fallible.keeps_pure _
  | succ n ih => exact keeps_then fun dir => ih dir

instance keeps_takeFrags (cnt : ℕ) (dir : Dir) : Keeps R (takeFrags v cnt dir) := by
  induction cnt generalizing dir with
  | zero => exact Fallible.keeps_pure _
  | succ cnt ih =>
    unfold takeFrags
    infer_instance

instance keeps_parseLfnName (dir : Dir) : Keeps R (parseLfnName v dir) := by
  have hset : ∀ c : Byte, Keeps R (Fallible.modify fun s : State => { s with
      gCrc := c
      gLen := 0 } : FatM PUnit) :=
    fun c => keeps_modify fun s => ParseSteps.globals s s.gBuf 0 c
  unfold parseLfnName
  infer_instance

instance keeps_searchFrom (name : List Byte) (n : ℕ) (dir : Dir) :
    Keeps R (searchFrom v name n dir) := by
  induction n generalizing dir with
  | zero => exact Fallible.keeps_abort
  | succ n ih =>
    have hnext : ∀ dir, Keeps R (dirNext v dir >>= searchFrom v name n : FatM (Dir × Loc)) :=
      fun _ => inferInstance
    unfold searchFrom
    refine keeps_then fun _ => keeps_then fun fat => ?_
    split
    · infer_instance
    split
    · exact hnext dir
    split <;> infer_instance

instance keeps_dirSearch (dir : Dir) (name : List Byte) : Keeps R (dirSearch v dir name) :=
  keeps_searchFrom v name _ _

instance keeps_followFrom (n : ℕ) (f : Found) (clust : ℕ) (enterable : Bool) :
    Keeps R (followFrom v n f clust enterable) := by
  induction n generalizing f clust enterable with
  | zero => exact Fallible.keeps_abort
  | succ n ih =>
    have htail : ∀ r : Except Err (Dir × Loc), Keeps R (match r with
        | .error .eof =>
          pure ⟨false, v.dirEnter clust, f.loc, f.path.dropWhile fun c => c == slash⟩
        | .error err => .throw err
        | .ok (dir, loc) => do
          let fat ← .read id
          followFrom v n ⟨true, dir, loc, (f.path.dropWhile fun c => c == slash).drop
            (firstName (f.path.dropWhile fun c => c == slash)).length⟩
            (sfnCluster fat.buf dir.idx) (sfnAttr fat.buf dir.idx &&& attrDir ≠ 0) :
            FatM Found) := by
      rintro (e | ⟨dir, loc⟩)
      · cases e <;> infer_instance
      · exact keeps_then fun fat => ih ..
    unfold followFrom
    have := htail
    infer_instance

instance keeps_followPath (path : List Byte) : Keeps R (followPath v path) := by
  unfold followPath
  cases path <;> infer_instance

end Readers

/-- With disk operations that succeed, what is read is not changed by reading it. -/
instance : ParseSteps State.Reads where
  globals _ _ _ _ := ⟨⟨rfl, rfl, rfl⟩, rfl, id, fun h => ⟨h, rfl, rfl⟩⟩

instance [v.ops.Reliable] : ReadSteps v State.Reads where
  updateBuf := keeps_reads_updateBuf v

/-! ## Section 2: Routines that write -/

/-- The writes in between come from the buffer, and a change of `FsInfo` that is to be written is
not forgotten. -/
structure State.Grows (s s' : State) : Prop where
  writes : ∃ ws, s'.writes = ws ++ s.writes ∧ (∀ w ∈ ws, w.origin = .volume) ∧
    (s.infoDirty = true → s'.infoDirty = true ∨ ws ≠ [])

namespace State.Grows

theorem of_eq {s s' : State} (hw : s'.writes = s.writes)
    (hi : s.infoDirty = true → s'.infoDirty = true) : Grows s s' :=
  ⟨[], hw, fun _ h => absurd h List.not_mem_nil, fun h => Or.inl (hi h)⟩

theorem trans {s₁ s₂ s₃ : State} (h : Grows s₁ s₂) (h' : Grows s₂ s₃) : Grows s₁ s₃ := by
  obtain ⟨ws, hws, horigin, hinfo⟩ := h
  obtain ⟨ws', hws', horigin', hinfo'⟩ := h'
  refine ⟨ws' ++ ws, ?_, ?_, ?_⟩
  · rw [hws', hws, List.append_assoc]
  · intro w hw
    rcases List.mem_append.mp hw with hw | hw
    · exact horigin' w hw
    · exact horigin w hw
  · intro hdirty
    rcases hinfo hdirty with h | h
    · rcases hinfo' h with h | h
      · exact Or.inl h
      · exact Or.inr fun hnil => h (List.append_eq_nil_iff.mp hnil).1
    · exact Or.inr fun hnil => h (List.append_eq_nil_iff.mp hnil).2

end State.Grows

instance : ParseSteps State.Grows where
  refl _ := .of_eq rfl id
  trans _ _ _ := .trans
  globals _ _ _ _ := .of_eq rfl id

instance grows_opsRead (sect : ℕ) : Keeps State.Grows (opsRead v sect) := by
  constructor
  intro s
  unfold opsRead
  split <;> exact .of_eq rfl id

/-- A write of the buffer is recorded, whether it succeeds or not. -/
theorem opsWrite_writes (origin : Origin) (buf : Sector) (sect : ℕ) (s : State) :
    (opsWrite v origin buf sect s).2.writes = ⟨origin, sect⟩ :: s.writes ∧
      (opsWrite v origin buf sect s).2.infoDirty = s.infoDirty := by
  unfold opsWrite
  split <;> exact ⟨rfl, rfl⟩

instance grows_opsWrite (buf : Sector) (sect : ℕ) :
    Keeps State.Grows (opsWrite v .volume buf sect) := by
  constructor
  intro s
  obtain ⟨hw, hi⟩ := opsWrite_writes v .volume buf sect s
  refine ⟨[⟨.volume, sect⟩], hw, fun w hmem => ?_, fun h => Or.inr (List.cons_ne_nil _ _)⟩
  rw [List.mem_singleton.mp hmem]

/-- A change that has to do neither with the writes nor with `FsInfo`. -/
theorem grows_modify {f : State → State} (hw : ∀ s, (f s).writes = s.writes)
    (hi : ∀ s, s.infoDirty = true → (f s).infoDirty = true) :
    Keeps State.Grows (Fallible.modify f : FatM PUnit) :=
  keeps_modify fun s => .of_eq (hw s) (hi s)

instance grows_syncBuf : Keeps State.Grows (syncBuf v) := by
  have := grows_modify (f := fun s => { s with bufDirty := false }) (fun _ => rfl) fun _ => id
  unfold syncBuf
  infer_instance

instance grows_loadBuf (sect : ℕ) : Keeps State.Grows (loadBuf v sect) := by
  have hok := fun buf : Sector =>
    grows_modify (f := fun s => { s with buf := buf, sect := sect }) (fun _ => rfl) fun _ => id
  have herr := fun buf : Sector =>
    grows_modify (f := fun s => { s with buf := buf }) (fun _ => rfl) fun _ => id
  unfold loadBuf
  infer_instance

instance : ReadSteps v State.Grows where
  updateBuf sect := by
    unfold updateBuf
    infer_instance

instance grows_editBuf (f : Sector → Sector) : Keeps State.Grows (editBuf f) :=
  grows_modify (fun _ => rfl) fun _ => id

/-- A dirty buffer is written, or an attempt is made. -/
theorem syncBuf_writes {s : State} (hd : s.bufDirty = true) :
    (syncBuf v s).2.writes = ⟨.volume, s.sect⟩ :: s.writes := by
  rw [syncBuf, Fallible.read_bind]
  simp only [id, hd, if_true]
  obtain ⟨hw, -⟩ := opsWrite_writes v .volume s.buf s.sect s
  have hok : ∃ ok, opsWrite v .volume s.buf s.sect s =
      (some (.ok ok), (opsWrite v .volume s.buf s.sect s).2) := by
    unfold opsWrite
    cases v.ops.write s.calls with
    | none => exact ⟨true, rfl⟩
    | some garbage => exact ⟨false, rfl⟩
  obtain ⟨ok, hrun⟩ := hok
  rw [Fallible.bind_of_ok hrun]
  cases ok <;> exact hw

/-- The mark that `FsInfo` is to be written is only taken back after a write. -/
instance grows_syncInfo : Keeps State.Grows (syncInfo v) := by
  have hrest : ∀ fat : State, Keeps State.Grows (do
      editBuf (putInfo fat.lastUsed fat.freeCnt)
      syncBuf v
      Fallible.modify fun s => { s with infoDirty := false } : FatM PUnit) := by
    intro fat
    constructor
    intro s
    rw [show editBuf (putInfo fat.lastUsed fat.freeCnt) = Fallible.modify _ from rfl,
      Fallible.modify_bind]
    have hw := syncBuf_writes v (s := { s with
      buf := putInfo fat.lastUsed fat.freeCnt s.buf
      bufDirty := true }) rfl
    have hgrows : ∀ s' : State, s'.writes = ⟨.volume, s.sect⟩ :: s.writes → s.Grows s' := by
      refine fun s' h => ⟨[⟨.volume, s.sect⟩], h, fun w hmem => ?_, fun _ => Or.inr ?_⟩
      · rw [List.mem_singleton.mp hmem]
      · exact List.cons_ne_nil _ _
    rcases hrun : syncBuf v _ with ⟨_ | e | _, s'⟩ <;> rw [hrun] at hw
    · rw [Fallible.bind_of_none hrun]
      exact hgrows s' hw
    · rw [Fallible.bind_of_error hrun]
      exact hgrows s' hw
    · rw [Fallible.bind_of_ok hrun]
      exact hgrows _ hw
  unfold syncInfo
  infer_instance

instance grows_syncFs : Keeps State.Grows (syncFs v) := by
  unfold syncFs
  infer_instance

/-- The mark is set. -/
instance grows_setInfoDirty :
    Keeps State.Grows (Fallible.modify fun s => { s with infoDirty := true } : FatM PUnit) :=
  grows_modify (fun _ => rfl) fun _ _ => rfl

instance grows_putFat2 (fatSect clust val : ℕ) :
    Keeps State.Grows (putFat2 v fatSect clust val) := by
  unfold putFat2
  infer_instance

instance grows_putFat (clust val : ℕ) : Keeps State.Grows (putFat v clust val) := by
  unfold putFat
  infer_instance

instance grows_removeLinks (n clust : ℕ) : Keeps State.Grows (removeLinks v n clust) := by
  induction n generalizing clust with
  | zero => exact Fallible.keeps_abort
  | succ n ih =>
    have := grows_modify (f := fun s => { s with freeCnt := s.freeCnt + 1 })
      (fun _ => rfl) fun _ => id
    unfold removeLinks
    infer_instance

instance grows_removeChain (clust : ℕ) : Keeps State.Grows (removeChain v clust) := by
  unfold removeChain
  infer_instance

instance grows_scan (n clust : ℕ) (flags : Option Kind) :
    Keeps State.Grows (scan v n clust flags) := by
  induction n generalizing clust flags with
  | zero => exact Fallible.keeps_abort
  | succ n ih =>
    unfold scan
    refine keeps_then fun fat => ?_
    split
    · infer_instance
    · refine keeps_then fun r => ?_
      rcases r with e | r
      · cases flags <;> infer_instance
      · infer_instance

instance grows_findFree (prev : ℕ) : Keeps State.Grows (findFree v prev) := by
  unfold findFree scanAll
  infer_instance

instance grows_addLink (prev clust : ℕ) : Keeps State.Grows (addLink v prev clust) := by
  unfold addLink
  infer_instance

/-- What `stretch_chain` does once the mark is set. -/
theorem grows_stretchRest (prev : ℕ) : Keeps State.Grows (do
    let clust ← findFree v prev
    putFat v clust 0x0fffffff
    addLink v prev clust
    Fallible.modify fun s => { s with lastUsed := clust, freeCnt := s.freeCnt - 1 }
    syncFs v
    pure clust : FatM ℕ) := by
  have := fun clust => grows_modify (f := fun s => { s with
    lastUsed := clust
    freeCnt := s.freeCnt - 1 }) (fun _ => rfl) fun _ => id
  infer_instance

instance grows_stretchChain (prev : ℕ) : Keeps State.Grows (stretchChain v prev) :=
  keeps_then fun _ => grows_stretchRest v prev

instance grows_stretchInto (old prev : ℕ) : Keeps State.Grows (stretchInto v old prev) := by
  unfold stretchInto
  refine keeps_then fun r => ?_
  rcases r with e | clust
  · cases e <;> infer_instance
  · infer_instance

end Karnix.Fat
