import Karnix.Fat.FileContents

/-!
# A file on the disk

`fat_file_sync` writes the buffer of a modified file to its sector, and the size to its entry.
What is not marked as modified is on the disk already, so that after `fat_file_close` the disk
holds the whole file.
-/

namespace Karnix.Fat

open Karnix.Library
open Fallible (Succeeds Fails Ends)
open Link (Chain freeCount)

variable {v : Volume} {L L' : List (List ℕ)} {l l' : List ℕ} {s s' s₁ : Session} {t t₁ t' : State}
  {i k q off : ℕ}

/-! ## Section 1: The entry of a file -/

/-- The entry is in a directory, which has a chain of its own, and inside of its sector. -/
structure Session.HasEntry (v : Volume) (L : List (List ℕ)) (l : List ℕ) (s : Session) : Prop where
  dir : ∃ m ∈ L, m ≠ l ∧ v.InData m s.file.dirSect
  cluster : sfnCluster (s.fat.view s.file.dirSect) s.file.dirIdx = s.file.sclust

/-- What is not marked as modified is on the disk, and the size in the entry. -/
def Session.Saved (s : Session) : Prop :=
  s.file.flags.modified = false → s.file.buf = s.fat.view s.file.sect ∧
    sfnSize (s.fat.view s.file.dirSect) s.file.dirIdx = BitVec.ofNat 32 s.file.size

/-- The chains share no cluster. -/
theorem State.Books.disjoint {m : List ℕ} (h : t.Books v L) (hl : l ∈ L) (hm : m ∈ L)
    (hne : m ≠ l) : l.Disjoint m := fun _ hc hc' =>
  hne (h.keeps.eq_of_mem hl hm hc hc').symm

/-- A sector of another chain is none of the FATs, and none of the file. -/
theorem sect_apart {m : List ℕ} {sect : ℕ} (hv : v.Laid) (hd : v.DataLaid) (h : t.Books v L)
    (hl : l ∈ L) (hm : m ∈ L) (hne : m ≠ l) (hin : v.InData m sect) :
    ¬ v.Reserved sect ∧ ¬ v.InData l sect := by
  obtain ⟨i, hi, rfl⟩ := hin
  have hclust : ∀ c ∈ m, v.IsClust c := fun _ => h.isClust hm
  exact ⟨not_reserved_sectAt hv hd hclust hi,
    not_inData_of_disjoint hv hd hclust (fun _ => h.isClust hl) (h.disjoint hl hm hne).symm hi⟩

/-- The file grows, and its directory does not. -/
theorem Session.Moves.dir (h : s.Moves v L l L' l' s')
    (hdir : ∃ m ∈ L, m ≠ l ∧ v.InData m s.file.dirSect) :
    ∃ m ∈ L', m ≠ l' ∧ v.InData m s'.file.dirSect := by
  obtain ⟨m, hm, hne, hin⟩ := hdir
  obtain ⟨hm', hne'⟩ := h.others m hm hne
  exact ⟨m, hm', hne', h.dirSect ▸ hin⟩

/-! ## Section 2: The directory entry -/

/-- The cells of an entry that `fat_file_sync` leaves alone. -/
theorem putEntry_of_notMem (f : File) (buf : Sector) (hk : 20 ≤ k ∧ k < 22 ∨ 26 ≤ k ∧ k < 28) :
    f.putEntry buf (f.dirIdx + k) = buf (f.dirIdx + k) := by
  have hstore : ∀ (m : Sector) (a : ℕ) (xs : List Byte),
      (f.dirIdx + k < a ∨ a + xs.length ≤ f.dirIdx + k) →
      m.store a xs (f.dirIdx + k) = m (f.dirIdx + k) := by
    rintro m a xs (h | h)
    · exact Memory.store_of_lt m xs h
    · exact Memory.store_of_ge m xs h
  have hacc : ∀ m : Sector, m.store (f.dirIdx + 18) (leBytes16 stampDate) (f.dirIdx + k) =
      m (f.dirIdx + k) := fun m => hstore m _ _ (by rw [length_leBytes16]; omega)
  rw [File.putEntry]
  split_ifs
  · rw [hstore _ _ _ (by rw [length_leBytes16]; omega),
      hstore _ _ _ (by rw [length_leBytes16]; omega),
      hstore _ _ _ (by rw [length_leBytes32]; omega),
      hstore _ _ _ (by rw [List.length_singleton]; omega), hacc]
  · rw [hstore _ _ _ (by rw [length_leBytes16]; omega),
      hstore _ _ _ (by rw [length_leBytes16]; omega),
      hstore _ _ _ (by rw [length_leBytes32]; omega),
      hstore _ _ _ (by rw [List.length_singleton]; omega)]
  · exact hacc buf
  · rfl

/-- The first cluster stays. -/
theorem putEntry_cluster (f : File) (buf : Sector) :
    sfnCluster (f.putEntry buf) f.dirIdx = sfnCluster buf f.dirIdx := by
  rw [sfnCluster, putEntry_of_notMem f buf (by omega), putEntry_of_notMem f buf (by omega),
    putEntry_of_notMem f buf (by omega), putEntry_of_notMem f buf (by omega), sfnCluster]

/-- The size is put in. -/
theorem putEntry_size {f : File} (hmod : f.flags.modified = true) (buf : Sector) :
    sfnSize (f.putEntry buf) f.dirIdx = BitVec.ofNat 32 f.size := by
  simp only [File.putEntry, hmod, if_true, sfnSize]
  rw [Memory.load_store_of_disjoint _ _ (by rw [length_leBytes16]; omega),
    Memory.load_store_of_disjoint _ _ (by rw [length_leBytes16]; omega),
    ← length_leBytes32 (BitVec.ofNat 32 f.size), Memory.load_store_self, leWord_leBytes32]

/-- An access alone does not touch it. -/
theorem putEntry_size_of_not {f : File} (hmod : f.flags.modified = false) (buf : Sector) :
    sfnSize (f.putEntry buf) f.dirIdx = sfnSize buf f.dirIdx := by
  simp only [File.putEntry, hmod, Bool.false_eq_true, if_false, sfnSize]
  split_ifs
  · rw [Memory.load_store_of_disjoint _ _ (by rw [length_leBytes16]; omega)]
  · rfl

/-! ## Section 3: `fat_file_sync` -/

/-- The books are right once `sync_fs` has written what was left, if no sector of the FATs had been
changed. -/
theorem State.Syncs.books (hs : t₁.Syncs v t') (hv : v.Laid) (h : t.Books v L)
    (heq : ∀ sect, v.Reserved sect → t₁.view sect = t.view sect) (hinfo : t.SameInfo t₁) :
    t'.Books v L := by
  have hrel := hs.relinks hv
  have htable : v.table t'.view = v.table t.view := hrel.table.trans (table_congr hv heq)
  refine ⟨hs.exact, ?_, hrel.valid (valid_congr hv heq h.valid),
    hrel.mirrored (mirrored_congr hv heq h.mirrored), htable ▸ h.keeps, ?_, hs.synced.1,
    fun _ => ?_⟩
  · rw [hs.lastUsed, hinfo.lastUsed]
    exact h.hint
  · rw [hs.freeCnt, hinfo.freeCnt, htable]
    exact h.freeCnt
  · cases hdirty : t₁.infoDirty with
    | true => exact hs.counted hdirty
    | false =>
      rw [State.Counted, hs.view, Volume.withInfo, if_neg (by simp [hdirty]), heq _ (.inl rfl),
        hs.freeCnt, hinfo.freeCnt, hs.lastUsed, hinfo.lastUsed]
      exact h.info (hinfo.infoDirty ▸ hdirty)

/-- No other sector than `FsInfo` is changed. -/
theorem State.Syncs.view_of_ne {sect : ℕ} (hs : t₁.Syncs v t') (h : sect ≠ v.infoSect) :
    t'.view sect = t₁.view sect := by
  rw [hs.view, Volume.withInfo]
  split_ifs
  · exact Function.update_of_ne h _ _
  · rfl

/-- The volume once the buffer of a modified file is written. -/
def Session.dataSynced (s : Session) : State :=
  if s.file.flags.modified then s.fat.wrote s.file.sect s.file.buf else s.fat

/-- The disk holds the file then. -/
theorem view_dataSynced (hv : v.Laid) (hd : v.DataLaid) (h : s.Open v L l) (hsaved : s.Saved)
    (hq : q < v.sectCnt l) : s.dataSynced.view (v.sectAt l q) = s.sector v l q := by
  rw [Session.dataSynced, Session.sector]
  by_cases hcur : q = s.file.offset / 512
  · rw [if_pos hcur, hcur, ← h.sect]
    split_ifs with hmod
    · rw [h.books.view_wrote, Function.update_self]
    · exact (hsaved (by simpa using hmod)).1.symm
  · rw [if_neg hcur]
    split_ifs
    · rw [h.books.view_wrote, Function.update_of_ne]
      rw [h.sect]
      exact fun heq => hcur (sectAt_injective hv hd h.isClust h.nodup hq h.sector_lt heq)
    · rfl

theorem view_dataSynced_of_ne {sect : ℕ} (h : s.Open v L l) (hne : sect ≠ s.file.sect) :
    s.dataSynced.view sect = s.fat.view sect := by
  rw [Session.dataSynced]
  split_ifs
  · rw [h.books.view_wrote, Function.update_of_ne hne]
  · rfl

theorem sect_reserved (hv : v.Laid) (hd : v.DataLaid) (h : s.Open v L l) :
    ¬ v.Reserved s.file.sect := by
  rw [h.sect]
  exact not_reserved_sectAt hv hd h.isClust h.sector_lt

/-- The writes of `fat_file_sync` go to the sector of the buffer. -/
theorem dataWrites_dataSynced {sect : ℕ} (h : s.Open v L l)
    (hin : sect ∈ s.dataSynced.dataWrites) :
    sect ∈ s.fat.dataWrites ∨ v.InData l sect := by
  rw [Session.dataSynced] at hin
  split_ifs at hin
  · rw [State.dataWrites_wrote, List.mem_cons] at hin
    exact hin.symm.imp_right fun heq => ⟨_, h.sector_lt, heq.trans h.sect⟩
  · exact .inl hin

theorem table_dataSynced (hv : v.Laid) (hd : v.DataLaid) (h : s.Open v L l) :
    v.table s.dataSynced.view = v.table s.fat.view := by
  refine table_congr hv fun sect hres => view_dataSynced_of_ne h ?_
  rintro rfl
  exact sect_reserved hv hd h hres

theorem books_dataSynced (hv : v.Laid) (hd : v.DataLaid) (h : s.Open v L l) :
    s.dataSynced.Books v L := by
  rw [Session.dataSynced]
  split_ifs
  · refine h.books.wrote hv _ (sect_reserved hv hd h) fun heq => ?_
    exact h.apart ⟨_, h.sector_lt, heq.trans h.sect⟩
  · exact h.books

variable [v.ops.Reliable]

theorem syncData_spec (s : Session) :
    Succeeds (syncData v) s fun _ s' => s' = { s with fat := s.dataSynced } := by
  refine Succeeds.read_bind ?_
  simp only [id, Session.dataSynced]
  split_ifs
  · have hwrite : onFat (opsWrite v .file s.file.buf s.file.sect) s =
        (some (.ok true), { s with fat := s.fat.wrote s.file.sect s.file.buf }) := by
      rw [onFat, Fallible.zoom, opsWrite_eq]
      rfl
    exact Succeeds.of_eq (Fallible.bind_of_ok hwrite) (.pure rfl)
  · exact .pure rfl

/-- The volume once the entry of the file is changed, in its buffer. -/
structure Session.EntrySynced (s s' : Session) : Prop extends s.fat.Edits s'.fat where
  file : s'.file = s.file
  other : ∀ sect, sect ≠ s.file.dirSect → s'.fat.view sect = s.fat.view sect
  entry : s'.fat.view s.file.dirSect = s.fat.view s.file.dirSect ∧
      s.file.flags.modified = false ∨
    s'.fat.view s.file.dirSect = s.file.putEntry (s.fat.view s.file.dirSect)
  sect : s'.fat.sect = s.fat.sect ∨ s'.fat.sect = s.file.dirSect

theorem syncEntry_spec (hs : s.fat.Exact) :
    Succeeds (syncEntry v) s fun _ s' => s.EntrySynced s' := by
  refine Succeeds.read_bind ?_
  simp only [id]
  split_ifs with hflags
  · refine (editSect_spec hs s.file.dirSect s.file.putEntry).zoom fun _ t ⟨hview, hsect, he⟩ => ?_
    refine ⟨he, rfl, fun sect hne => ?_, .inr ?_, .inr hsect⟩
    · show t.view sect = _
      rw [hview, Function.update_of_ne hne]
    · show t.view s.file.dirSect = _
      rw [hview, Function.update_self]
  · rw [not_or] at hflags
    exact .pure ⟨⟨⟨rfl, rfl, rfl⟩, hs, rfl⟩, rfl, fun _ _ => rfl,
      .inl ⟨rfl, by simpa using hflags.2⟩, .inl rfl⟩

/-- The volume holds the file on the disk, its size and its first cluster in its entry; nothing
is left to be written. -/
structure Session.OnDisk (v : Volume) (L : List (List ℕ)) (l : List ℕ) (s : Session) (t : State) :
    Prop where
  books : t.Books v L
  synced : t.Synced
  apart : ¬ v.InData l t.sect
  table : v.table t.view = v.table s.fat.view
  rest : ∀ sect, ¬ v.Reserved sect → ¬ v.InData l sect → sect ≠ s.file.dirSect →
    t.view sect = s.fat.view sect
  data : ∀ sect ∈ t.dataWrites, sect ∈ s.fat.dataWrites ∨ v.InData l sect
  disk : ∀ q < v.sectCnt l, t.disk (v.sectAt l q) = s.sector v l q
  dirCluster : sfnCluster (t.disk s.file.dirSect) s.file.dirIdx = s.file.sclust
  dirSize : sfnSize (t.disk s.file.dirSect) s.file.dirIdx = BitVec.ofNat 32 s.file.size

omit [v.ops.Reliable] in
/-- The three steps of `fat_file_sync` together. -/
theorem Session.EntrySynced.onDisk (hv : v.Laid) (hd : v.DataLaid) (h : s.Open v L l)
    (hentry : s.HasEntry v L l) (hsaved : s.Saved)
    (he : ({ s with fat := s.dataSynced } : Session).EntrySynced s₁) (hs : s₁.fat.Syncs v t) :
    s.OnDisk v L l t := by
  -- the sector of the entry is neither reserved nor one of the file
  obtain ⟨m, hm, hne, hin⟩ := hentry.dir
  obtain ⟨hdirRes, hdirData⟩ := sect_apart hv hd h.books h.mem hm hne hin
  have hclean : t.view = t.disk := State.view_of_clean hs.synced.1
  have heq : ∀ sect, v.Reserved sect → s₁.fat.view sect = s.dataSynced.view sect := by
    intro sect hres
    refine he.other sect ?_
    rintro rfl
    exact hdirRes hres
  -- only the information sector and the sector of the entry change
  have hview : ∀ sect, ¬ v.Reserved sect → sect ≠ s.file.dirSect →
      t.view sect = s.dataSynced.view sect := by
    intro sect hres hne
    rw [hs.view_of_ne fun h => hres (.inl h)]
    exact he.other sect hne
  have hdirView : t.disk s.file.dirSect = s₁.fat.view s.file.dirSect := by
    rw [← hclean]
    exact hs.view_of_ne fun heq => hdirRes (.inl heq)
  have hput := he.entry
  simp only [view_dataSynced_of_ne h fun heq => hdirData ⟨_, h.sector_lt, heq.trans h.sect⟩]
    at hput
  refine ⟨hs.books hv (books_dataSynced hv hd h) heq he.toSameInfo, hs.synced, ?_, ?_,
    fun sect hres hin hne => ?_, fun sect hin => ?_, fun q hq => ?_, ?_, ?_⟩
  · rw [hs.sect]
    split_ifs
    · exact not_inData_of_reserved hv hd h.isClust (.inl rfl)
    · rcases he.sect with hsect | hsect
      · rw [hsect, Session.dataSynced]
        split_ifs <;> exact h.apart
      · rw [hsect]
        exact hdirData
  · rw [(hs.relinks hv).table, table_congr hv heq, table_dataSynced hv hd h]
  · rw [hview sect hres hne, view_dataSynced_of_ne h]
    rintro rfl
    exact hin ⟨_, h.sector_lt, h.sect⟩
  · refine dataWrites_dataSynced h ?_
    rw [hs.data, he.data] at hin
    exact hin
  · rw [← hclean, hview _ (not_reserved_sectAt hv hd h.isClust hq)
      fun heq => hdirData ⟨q, hq, heq.symm⟩, view_dataSynced hv hd h hsaved hq]
  · -- the first cluster is as it was
    rw [hdirView]
    rcases hput with ⟨hsame, -⟩ | hput
    · rw [hsame, hentry.cluster]
    · rw [hput, putEntry_cluster, hentry.cluster]
  · -- the size is stored if the file was modified
    rw [hdirView]
    rcases hput with ⟨hsame, hmod⟩ | hput
    · rw [hsame, (hsaved hmod).2]
    · rw [hput]
      cases hmod : s.file.flags.modified with
      | true => exact putEntry_size hmod _
      | false => rw [putEntry_size_of_not hmod, (hsaved hmod).2]

/-- The file has been brought to the disk, and is as it was. -/
structure Session.Stored (v : Volume) (L : List (List ℕ)) (l : List ℕ) (s s' : Session) : Prop
    extends s.Moves v L l L l s' where
  onDisk : s.OnDisk v L l s'.fat
  offset : s'.file.offset = s.file.offset
  size : s'.file.size = s.file.size
  buf : s'.file.buf = s.file.buf
  modified : s'.file.flags.modified = false

/-- **Step lemma.** `fat_file_sync` brings the file to the disk. -/
theorem fatFileSync_stored (hv : v.Laid) (hd : v.DataLaid) (h : s.Open v L l)
    (hentry : s.HasEntry v L l) (hsaved : s.Saved) :
    Succeeds (fatFileSync v) s fun _ s' => s.Stored v L l s' := by
  refine (syncData_spec s).bind ?_
  rintro _ _ rfl
  refine (syncEntry_spec (s := { s with fat := s.dataSynced })
    (books_dataSynced hv hd h).exact).bind fun _ s₁ he => ?_
  have hsync : Succeeds (onFat (syncFs v)) s₁ fun _ s₂ =>
      s₂.file = s.file ∧ s.OnDisk v L l s₂.fat :=
    (syncFs_spec (v := v) he.exact).zoom (t := s₁)
      fun _ t hs => ⟨he.file, he.onDisk hv hd h hentry hsaved hs⟩
  refine hsync.bind ?_
  rintro _ s₂ ⟨hfile, hdisk⟩
  have hbuf : s.file.buf = s₂.fat.view s.file.sect := by
    rw [h.sect, State.view_of_clean hdisk.synced.1, hdisk.disk _ h.sector_lt, Session.sector,
      if_pos rfl]
  have hopen : ({ s₂ with file := { s₂.file with
      flags := { s₂.file.flags with accessed := false, modified := false } } } : Session).Open
        v L l := by
    refine ⟨hdisk.books, h.mem, ?_, ?_, ?_, fun _ => ?_, hdisk.apart⟩
    · exact hfile ▸ h.head
    · exact hfile ▸ h.clust
    · exact hfile ▸ h.sect
    · exact hfile ▸ hbuf
  refine .modify ⟨⟨hopen, List.prefix_rfl, fun _ hm hne => ⟨hm, hne⟩, ?_, ?_, hdisk.rest,
    hdisk.data, ?_, ?_, ?_, ?_, ?_⟩, hdisk, ?_, ?_, ?_, rfl⟩
  · exact congrArg (fun table => l.length + freeCount table v.clusts) hdisk.table
  · exact hdisk.table ▸ .refl _ l
  all_goals exact hfile ▸ rfl

end Karnix.Fat
