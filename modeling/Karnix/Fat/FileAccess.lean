import Karnix.Fat.FileLayout

/-!
# Seeking, reading and writing

An open file has a sector of its own in a buffer, which may be newer than the one on the disk.
What the file holds is the buffer in the place of this sector, and the sectors of the chain
elsewhere.  `fat_file_seek` writes the buffer back and loads another one: what the file holds does
not change.
-/

namespace Karnix.Fat

open Karnix.Library
open Fallible (Succeeds Fails Ends)
open Link (Chain TakesFree freeCount)

variable (v : Volume) (L : List (List ℕ)) (l : List ℕ)

/-! ## Section 1: Open files -/

/-- The file has the clusters `l`, and is at its offset in them. -/
structure Session.Open (s : Session) : Prop where
  books : s.fat.Books v L
  mem : l ∈ L
  head : l.head? = some s.file.sclust
  clust : l[s.file.offset / v.clustSize]? = some s.file.clust
  sect : s.file.sect = v.sectAt l (s.file.offset / 512)
  buf : s.file.flags.fileDirty = false → s.file.buf = s.fat.view s.file.sect
  apart : ¬ v.InData l s.fat.sect

/-- Sector `q` of the file. -/
def Session.sector (s : Session) (q : ℕ) : Sector :=
  if q = s.file.offset / 512 then s.file.buf else s.fat.view (v.sectAt l q)

/-- Byte `i` of the file. -/
def Session.byteAt (s : Session) (i : ℕ) : Byte := s.sector v l (i / 512) (i % 512)

/-- The clusters of the file and the free ones. -/
def Session.room (s : Session) : ℕ := l.length + freeCount (v.table s.fat.view) v.clusts

/-- What an access leaves alone: the other chains and all sectors but those of the file and the
one with its entry, and the members of the file that have nothing to do with its position and its
contents. -/
structure Session.Moves (s : Session) (L' : List (List ℕ)) (l' : List ℕ) (s' : Session) : Prop where
  opened : s'.Open v L' l'
  /-- The chain of the file is the old one, or this one extended by clusters that were free. -/
  grows : l <+: l'
  others : ∀ m ∈ L, m ≠ l → m ∈ L' ∧ m ≠ l'
  room : s'.room v l' = s.room v l
  takes : TakesFree (v.table s.fat.view) l (v.table s'.fat.view) l'
  /-- Sectors outside of the FATs, of the file and of its entry hold what they held. -/
  rest : ∀ sect, ¬ v.Reserved sect → ¬ v.InData l' sect → sect ≠ s.file.dirSect →
    s'.fat.view sect = s.fat.view sect
  /-- The buffer of the file was written to sectors of the file only. -/
  data : ∀ sect ∈ s'.fat.dataWrites, sect ∈ s.fat.dataWrites ∨ v.InData l' sect
  /-- The file is the same one, opened in the same way. -/
  sclust : s'.file.sclust = s.file.sclust
  dirSect : s'.file.dirSect = s.file.dirSect
  dirIdx : s'.file.dirIdx = s.file.dirIdx
  read : s'.file.flags.read = s.file.flags.read
  write : s'.file.flags.write = s.file.flags.write

variable {v L l} {L' L'' : List (List ℕ)} {l' l'' : List ℕ} {s s' s₁ s₂ : Session} {i k q off : ℕ}

theorem Session.Moves.refl (h : s.Open v L l) : s.Moves v L l L l s :=
  ⟨h, List.prefix_rfl, fun _ hm hne => ⟨hm, hne⟩, rfl, .refl _ l, fun _ _ _ _ => rfl,
    fun _ h => .inl h, rfl, rfl, rfl, rfl, rfl⟩

theorem Session.Moves.trans (h : s.Moves v L l L' l' s₁) (h' : s₁.Moves v L' l' L'' l'' s₂) :
    s.Moves v L l L'' l'' s₂ := by
  refine ⟨h'.opened, h.grows.trans h'.grows, fun m hm hne => ?_, h'.room.trans h.room,
    h.takes.trans h'.takes, fun sect hres hdata hdir => ?_, fun sect hsect => ?_,
    h'.sclust.trans h.sclust, h'.dirSect.trans h.dirSect, h'.dirIdx.trans h.dirIdx,
    h'.read.trans h.read, h'.write.trans h.write⟩
  · obtain ⟨hm', hne'⟩ := h.others m hm hne
    exact h'.others m hm' hne'
  · rw [h'.rest sect hres hdata (h.dirSect ▸ hdir)]
    exact h.rest sect hres (fun hin => hdata (inData_grown h'.grows hin)) hdir
  · rcases h'.data sect hsect with hold | hin
    · exact (h.data sect hold).imp_right (inData_grown h'.grows)
    · exact .inr hin

namespace Session.Open

theorem isClust (h : s.Open v L l) : ∀ c ∈ l, v.IsClust c := fun _ => h.books.isClust h.mem

theorem nodup (h : s.Open v L l) : l.Nodup := by
  obtain ⟨c, hchain⟩ := h.books.keeps.chain l h.mem
  exact hchain.nodup

theorem index_lt (h : s.Open v L l) : s.file.offset / v.clustSize < l.length :=
  (List.getElem?_eq_some_iff.1 h.clust).1

end Session.Open

/-- Clusters, sectors and bytes. -/
theorem div_clustSize (v : Volume) (off : ℕ) :
    off / v.clustSize = off / 512 / v.sectPerClust := by
  rw [Volume.clustSize, Nat.div_div_eq_div_mul]

theorem sector_lt_iff : off / 512 < v.sectCnt l ↔ off / v.clustSize < l.length := by
  rw [div_clustSize, Volume.sectCnt, Nat.div_lt_iff_lt_mul (sectPerClust_pos v)]

theorem Session.Open.sector_lt (h : s.Open v L l) : s.file.offset / 512 < v.sectCnt l :=
  sector_lt_iff.2 h.index_lt

section Laid

variable (hv : v.Laid) (hd : v.DataLaid)
include hv hd

/-- The sector that `fat_file_seek` computes. -/
theorem moveTo_sect {f : File} (hl : ∀ c ∈ l, v.IsClust c)
    (hclust : l[off / v.clustSize]? = some f.clust) :
    (f.moveTo v off).sect = v.sectAt l (off / 512) := by
  have hlt := (List.getElem?_eq_some_iff.1 hclust).1
  have hsect := (sectAt_bounds hv hd hl (sector_lt_iff.2 hlt)).2
  have hget : l.getD (off / 512 / v.sectPerClust) 0 = f.clust := by
    rw [List.getD_eq_getElem?_getD, ← div_clustSize, hclust]
    rfl
  have hmod : off / 512 &&& v.clustMsk = off / 512 % v.sectPerClust := by
    rw [hd.mask, Volume.sectPerClust, Nat.and_two_pow_sub_one_eq_mod]
  rw [Volume.sectAt, hget] at hsect ⊢
  show u32 (v.clustToSect f.clust + (off / 512 &&& v.clustMsk)) = _
  rw [hmod]
  exact Nat.mod_eq_of_lt hsect

end Laid

/-! ## Section 2: Sectors of the file are written -/

section Congr

variable {w w' : ℕ → Sector} (hv : v.Laid) (heq : ∀ sect, v.Reserved sect → w' sect = w sect)
include hv heq

/-- The links depend on the sectors of the FAT alone. -/
theorem entryWord_congr {c : ℕ} (hc : c < v.clustCnt) :
    entryWord v.fatSect w' c = entryWord v.fatSect w c ∧
      (v.mirrorSect ≠ 0 → entryWord v.mirrorSect w' c = entryWord v.mirrorSect w c) := by
  constructor
  · rw [entryWord, entryWord, heq]
    exact .inr ⟨c, hc, .inl (hv.entrySect_fat hc)⟩
  · intro hm
    rw [entryWord, entryWord, heq]
    exact .inr ⟨c, hc, .inr ⟨hm, hv.entrySect_mirror hc⟩⟩

theorem table_congr : v.table w' = v.table w := by
  funext c
  rw [Volume.table, Volume.table]
  split_ifs with hc
  · rw [Volume.entry_eq, Volume.entry_eq, (entryWord_congr hv heq hc).1]
  · rfl

theorem valid_congr (h : v.Valid w) : v.Valid w' := by
  intro c h2 hc
  rw [Volume.kind, Volume.entry_eq, (entryWord_congr hv heq hc).1]
  exact h c h2 hc

theorem mirrored_congr (h : v.Mirrored w) : v.Mirrored w' := by
  intro hm c hc
  rw [(entryWord_congr hv heq hc).2 hm, (entryWord_congr hv heq hc).1]
  exact h hm c hc

end Congr

/-- The contents of a file are written to a sector, past the buffer of the volume. -/
def State.wrote (sect : ℕ) (buf : Sector) (s : State) : State :=
  { s with
    disk := Function.update s.disk sect buf
    calls := s.calls + 1
    writes := ⟨.file, sect⟩ :: s.writes }

theorem State.dataWrites_wrote (sect : ℕ) (buf : Sector) (s : State) :
    (s.wrote sect buf).dataWrites = sect :: s.dataWrites := by
  rw [State.dataWrites, State.wrote, List.filter_cons_of_pos (by simp), List.map_cons]
  rfl

theorem State.Books.view_wrote {t : State} (h : t.Books v L) (sect : ℕ) (buf : Sector) :
    (t.wrote sect buf).view = Function.update t.view sect buf := by
  rw [State.view_of_clean h.clean]
  exact State.view_of_clean h.clean

theorem State.Books.wrote {t : State} (hv : v.Laid) (h : t.Books v L) {sect : ℕ} (buf : Sector)
    (hres : ¬ v.Reserved sect) (hsect : t.sect ≠ sect) : (t.wrote sect buf).Books v L := by
  have hview := h.view_wrote sect buf
  have heq : ∀ k, v.Reserved k → (t.wrote sect buf).view k = t.view k := by
    intro k hk
    rw [hview, Function.update_of_ne]
    rintro rfl
    exact hres hk
  have htable := table_congr hv heq
  refine ⟨?_, h.hint, valid_congr hv heq h.valid, mirrored_congr hv heq h.mirrored,
    htable ▸ h.keeps, htable ▸ h.freeCnt, h.clean, fun hinfo => ?_⟩
  · intro hclean hmem
    show t.buf = Function.update t.disk sect buf t.sect
    rw [Function.update_of_ne hsect]
    exact h.exact hclean hmem
  · rw [State.Counted, heq _ (.inl rfl)]
    exact h.info hinfo

variable [v.ops.Reliable]

/-- The buffer of the file is written back. -/
theorem flushFile_spec (s : Session) (ssect : ℕ) :
    Succeeds (flushFile v ssect) s fun _ s' =>
      s'.file = { s.file with flags := { s.file.flags with fileDirty := false } } ∧
      s'.fat = if s.file.flags.fileDirty then s.fat.wrote ssect s.file.buf else s.fat := by
  refine Succeeds.read_bind ?_
  simp only [id]
  split_ifs with hdirty
  · have hwrite : onFat (opsWrite v .file s.file.buf ssect) s =
        (some (.ok true), { s with fat := s.fat.wrote ssect s.file.buf }) := by
      rw [onFat, Fallible.zoom, opsWrite_eq]
      rfl
    exact Succeeds.of_eq (Fallible.bind_of_ok hwrite) (.modify ⟨rfl, rfl⟩)
  · refine .pure ⟨?_, rfl⟩
    rw [Bool.not_eq_true] at hdirty
    rw [← hdirty]

/-- The sector the file is at is read. -/
theorem loadFile_spec (s : Session) :
    Succeeds (loadFile v) s fun _ s' =>
      s'.file = { s.file with buf := s.fat.disk s.file.sect } ∧
      s'.fat = { s.fat with calls := s.fat.calls + 1 } := by
  refine Succeeds.read_bind ?_
  have hread : onFat (opsRead v s.file.sect) s = (some (.ok (s.fat.disk s.file.sect, true)),
      { s with fat := { s.fat with calls := s.fat.calls + 1 } }) := by
    rw [onFat, Fallible.zoom, opsRead_eq]
  exact Succeeds.of_eq (Fallible.bind_of_ok hread) (Succeeds.modify_bind (.pure ⟨rfl, rfl⟩))

/-! ## Section 3: `fat_file_seek` -/

omit [v.ops.Reliable]

/-- The volume after the buffer has been written back. -/
def Session.flushed (s : Session) (ssect : ℕ) : State :=
  if s.file.flags.fileDirty then s.fat.wrote ssect s.file.buf else s.fat

/-- On the way from `s` to the offset `off` in the chain that is `l'` now; the buffer still
belongs to the sector that `s` was at. -/
structure Session.Arrives (v : Volume) (L : List (List ℕ)) (l : List ℕ) (s : Session) (off : ℕ)
    (L' : List (List ℕ)) (l' : List ℕ) (t : Session) : Prop where
  start : s.Open v L l
  grown : Grown v L l s.fat L' l' t.fat
  apart : ¬ v.InData l' t.fat.sect
  clust : l'[off / v.clustSize]? = some t.file.clust
  file : t.file = { s.file with
    clust := t.file.clust, sect := v.sectAt l' (off / 512), offset := off }

namespace Session.Arrives

variable {t : Session} (h : s.Arrives v L l off L' l' t)
include h

theorem isClust : ∀ c ∈ l', v.IsClust c := fun _ => h.grown.books.isClust h.grown.mem

theorem nodup : l'.Nodup := by
  obtain ⟨c, hchain⟩ := h.grown.books.keeps.chain l' h.grown.mem
  exact hchain.nodup

theorem start_sect : s.file.sect = v.sectAt l' (s.file.offset / 512) := by
  rw [h.start.sect, sectAt_grown h.grown.grows h.start.sector_lt]

theorem start_lt : s.file.offset / 512 < v.sectCnt l' :=
  h.start.sector_lt.trans_le (sectCnt_grown h.grown.grows)

theorem sector_lt : off / 512 < v.sectCnt l' :=
  sector_lt_iff.2 (List.getElem?_eq_some_iff.1 h.clust).1

theorem head : l'.head? = some s.file.sclust := by
  obtain ⟨tail, rfl⟩ := h.grown.grows
  have hhead := h.start.head
  cases l with
  | nil => cases hhead
  | cons c l => exact hhead

/-- No other sector has been written. -/
theorem view_flushed_of_ne {sect : ℕ} (hne : sect ≠ s.file.sect) :
    (t.flushed s.file.sect).view sect = t.fat.view sect := by
  rw [Session.flushed]
  split_ifs
  · rw [h.grown.books.view_wrote, Function.update_of_ne hne]
  · rfl

theorem data_flushed {sect : ℕ} (hsect : sect ∈ (t.flushed s.file.sect).dataWrites) :
    sect ∈ t.fat.dataWrites ∨ v.InData l' sect := by
  rw [Session.flushed] at hsect
  split_ifs at hsect
  · rw [State.dataWrites_wrote, List.mem_cons] at hsect
    refine hsect.symm.imp_right fun heq => ?_
    exact ⟨_, h.start_lt, heq.trans h.start_sect⟩
  · exact .inl hsect

variable (hv : v.Laid) (hd : v.DataLaid)
include hv hd

/-- The contents have not changed on the way. -/
theorem view_sectAt (hq : q < v.sectCnt l) :
    t.fat.view (v.sectAt l' q) = s.fat.view (v.sectAt l q) := by
  rw [sectAt_grown h.grown.grows hq]
  exact h.grown.frame.other _ (not_reserved_sectAt hv hd h.start.isClust hq)

/-- Once the buffer is written back, the sectors of the chain hold the file. -/
theorem view_flushed (hq : q < v.sectCnt l) :
    (t.flushed s.file.sect).view (v.sectAt l' q) = s.sector v l q := by
  have hflags : t.file.flags = s.file.flags := by rw [h.file]
  have hbuf : t.file.buf = s.file.buf := by rw [h.file]
  rw [Session.flushed, hflags, hbuf, Session.sector]
  by_cases hcur : q = s.file.offset / 512
  · rw [if_pos hcur]
    split_ifs with hdirty
    · rw [h.grown.books.view_wrote, h.start_sect, hcur, Function.update_self]
    · rw [h.view_sectAt hv hd hq, h.start.buf (by simpa using hdirty), h.start.sect, hcur]
  · rw [if_neg hcur]
    split_ifs
    · rw [h.grown.books.view_wrote, Function.update_of_ne, h.view_sectAt hv hd hq]
      rw [h.start_sect]
      intro heq
      exact hcur (sectAt_injective hv hd (h.isClust) (h.nodup)
        (hq.trans_le (sectCnt_grown h.grown.grows)) (h.start_lt) heq)
    · exact h.view_sectAt hv hd hq

theorem books_flushed : (t.flushed s.file.sect).Books v L' := by
  rw [Session.flushed]
  split_ifs
  · refine h.grown.books.wrote hv _ ?_ ?_
    · rw [h.start_sect]
      exact not_reserved_sectAt hv hd (h.isClust) (h.start_lt)
    · rintro heq
      exact h.apart ⟨_, h.start_lt, heq.trans (h.start_sect)⟩
  · exact h.grown.books

theorem table_flushed : v.table (t.flushed s.file.sect).view = v.table t.fat.view := by
  refine table_congr hv fun k hk => h.view_flushed_of_ne ?_
  rintro rfl
  refine not_reserved_sectAt hv hd h.isClust h.start_lt ?_
  rwa [← h.start_sect]

end Session.Arrives

/-- The file has been brought to the offset `off`, and holds what it held. -/
structure Session.Sought (v : Volume) (L : List (List ℕ)) (l : List ℕ) (s : Session) (off : ℕ)
    (L' : List (List ℕ)) (l' : List ℕ) (s' : Session) : Prop extends s.Moves v L l L' l' s' where
  offset : s'.file.offset = off
  size : s'.file.size = s.file.size
  modified : s'.file.flags.modified = s.file.flags.modified
  quiet : ∀ sect, ¬ v.Reserved sect → ¬ v.InData l' sect → s'.fat.view sect = s.fat.view sect
  loaded : s.file.buf = s.fat.view s.file.sect → s'.file.buf = s'.fat.view s'.file.sect
  sectors : ∀ q < v.sectCnt l, s'.sector v l' q = s.sector v l q

namespace Session.Arrives

variable {t : Session} (h : s.Arrives v L l off L' l' t)
include h

/-- What has to be seen to once the buffer belongs to the new sector. -/
theorem sought (hbooks : s'.fat.Books v L') (htable : v.table s'.fat.view = v.table t.fat.view)
    (hsect : s'.fat.sect = t.fat.sect)
    (hfile : s'.file = { t.file with
      buf := s'.file.buf, flags := { t.file.flags with fileDirty := s'.file.flags.fileDirty } })
    (hbuf : s'.file.flags.fileDirty = false → s'.file.buf = s'.fat.view s'.file.sect)
    (hloaded : s.file.buf = s.fat.view s.file.sect → s'.file.buf = s'.fat.view s'.file.sect)
    (hrest : ∀ sect, ¬ v.InData l' sect → s'.fat.view sect = t.fat.view sect)
    (hdata : ∀ sect ∈ s'.fat.dataWrites, sect ∈ t.fat.dataWrites ∨ v.InData l' sect)
    (hsectors : ∀ q < v.sectCnt l, s'.sector v l' q = s.sector v l q) :
    s.Sought v L l off L' l' s' := by
  have hoff : s'.file.offset = off := by rw [hfile, h.file]
  refine ⟨⟨⟨hbooks, h.grown.mem, ?_, ?_, ?_, hbuf, hsect ▸ h.apart⟩, h.grown.grows,
    h.grown.others, ?_, htable ▸ h.grown.takes, fun sect hres hin _ => ?_, fun sect hin => ?_, ?_,
    ?_, ?_, ?_, ?_⟩, hoff, ?_, ?_, fun sect hres hin => ?_, hloaded, hsectors⟩
  · rw [hfile, h.file]
    exact h.head
  · rw [hoff, h.clust, hfile]
  · rw [hoff, hfile, h.file]
  · rw [Session.room, htable]
    exact h.grown.room
  · rw [hrest sect hin]
    exact h.grown.frame.other sect hres
  · rw [← h.grown.data]
    exact hdata sect hin
  rotate_right
  · rw [hrest sect hin]
    exact h.grown.frame.other sect hres
  all_goals rw [hfile, h.file]

variable (hv : v.Laid) (hd : v.DataLaid) [v.ops.Reliable]
include hv hd

/-- The buffer is exchanged, if the file is at another sector now. -/
theorem updateFile_sought :
    Succeeds (updateFile v s.file.sect) t fun _ s' => s.Sought v L l off L' l' s' := by
  have hsect : t.file.sect = v.sectAt l' (off / 512) := by rw [h.file]
  have hbuf : t.file.buf = s.file.buf := by rw [h.file]
  have hflags : t.file.flags = s.file.flags := by rw [h.file]
  have hoff : t.file.offset = off := by rw [h.file]
  refine Succeeds.read_bind ?_
  simp only [id]
  split_ifs with hsame
  · -- the file is at another sector: the buffer is saved and filled again
    refine (flushFile_spec t s.file.sect).bind fun _ t₁ ⟨hfile₁, hfat₁⟩ => ?_
    refine (loadFile_spec t₁).mono fun _ s' ⟨hfile, hfat⟩ => ?_
    change t₁.fat = t.flushed s.file.sect at hfat₁
    have hnew : s'.file.sect = v.sectAt l' (off / 512) := by rw [hfile, hfile₁, hsect]
    have hview : s'.fat.view = (t.flushed s.file.sect).view := by
      rw [hfat, hfat₁]
      rfl
    have hbooks : s'.fat.Books v L' := by
      have hb := h.books_flushed hv hd
      rw [← hfat₁] at hb
      rw [hfat]
      exact ⟨hb.exact, hb.hint, hb.valid, hb.mirrored, hb.keeps, hb.freeCnt, hb.clean, hb.info⟩
    have hbuf' : s'.file.buf = s'.fat.view s'.file.sect := by
      rw [State.view_of_clean hbooks.clean, hfat, hfile]
    refine h.sought hbooks ?_ ?_ ?_ (fun _ => hbuf') (fun _ => hbuf') (fun sect hin => ?_)
      (fun sect hin => ?_) fun q hq => ?_
    · rw [hview, h.table_flushed hv hd]
    · rw [hfat, hfat₁, Session.flushed]
      split_ifs <;> rfl
    · rw [hfile, hfile₁]
    · rw [hview]
      refine h.view_flushed_of_ne ?_
      rintro rfl
      exact hin ⟨_, h.start_lt, h.start_sect⟩
    · refine h.data_flushed ?_
      rw [hfat, hfat₁] at hin
      exact hin
    · -- the sector of the position is read from the buffer just filled
      rw [Session.sector]
      split_ifs with hq'
      · rw [hbuf', hnew, hview]
        have hoff' : s'.file.offset = off := by rw [hfile, hfile₁, hoff]
        rw [hoff'] at hq'
        rw [← hq', h.view_flushed hv hd hq]
      · rw [hview, h.view_flushed hv hd hq]
  · -- the file is at the same sector
    have hcur : s.file.offset / 512 = off / 512 := by
      rw [not_not, hsect, h.start_sect] at hsame
      exact (sectAt_injective hv hd h.isClust h.nodup h.sector_lt h.start_lt hsame).symm
    have hloaded : s.file.buf = s.fat.view s.file.sect → t.file.buf = t.fat.view t.file.sect := by
      intro hsaved
      rw [hbuf, hsaved, h.start.sect, hsect, ← hcur, h.view_sectAt hv hd h.start.sector_lt]
    refine .pure (h.sought h.grown.books rfl rfl rfl (fun hclean => ?_) hloaded (fun _ _ => rfl)
      (fun _ hin => .inl hin) fun q hq => ?_)
    · rw [hflags] at hclean
      exact hloaded (h.start.buf hclean)
    · rw [Session.sector, Session.sector, hoff, hcur, hbuf, h.view_sectAt hv hd hq]

end Session.Arrives

/-- Where the walk along the chain begins. -/
theorem backtrack_spec (h : s.Open v L l) (off : ℕ) :
    ∃ k, l[k]? = some (s.file.backtrack v off).clust ∧
      k + (off / v.clustSize - (s.file.backtrack v off).offset / v.clustSize) =
        off / v.clustSize ∧
      ∀ d, ({ s.file.backtrack v off with clust := d }).moveTo v off =
        { s.file with
          clust := d
          sect := u32 (v.clustToSect d + (off / 512 &&& v.clustMsk))
          offset := off } := by
  rw [File.backtrack]
  split_ifs with hback
  · refine ⟨0, ?_, ?_, fun d => rfl⟩
    · rw [← List.head?_eq_getElem?]
      exact h.head
    · rw [Nat.zero_div, Nat.zero_add, Nat.sub_zero]
  · exact ⟨_, h.clust, by omega, fun d => rfl⟩

variable [v.ops.Reliable]

/-- **Step lemma.** `fat_file_seek` brings an open file to any offset for which there are
clusters. -/
theorem seekTo_sought (hv : v.Laid) (hd : v.DataLaid) (h : s.Open v L l)
    (hroom : off / v.clustSize + 2 ≤ s.room v l) :
    Succeeds (seekTo v off) s fun _ s' => ∃ L' l', s.Sought v L l off L' l' s' := by
  obtain ⟨k, hk, hsum, hmove⟩ := backtrack_spec h off
  refine Succeeds.read_bind (Succeeds.modify_bind (Succeeds.read_bind ?_))
  refine (followChain_grown (t := { s with file := s.file.backtrack v off }) hv h.books h.mem hk
    fun _ => ?_).bind ?_
  · show k + (off / v.clustSize - (s.file.backtrack v off).offset / v.clustSize) + 2 ≤ _
    rw [hsum]
    exact hroom
  · rintro _ t ⟨L', l', d, hg, hfile, hd', hres⟩
    refine Succeeds.modify_bind ?_
    have hclust : l'[off / v.clustSize]? = some d := by
      rw [← hsum]
      exact hd'
    have hisClust : ∀ c ∈ l', v.IsClust c := fun _ => hg.books.isClust hg.mem
    have hsect := moveTo_sect (f := t.file) hv hd hisClust (by rw [hclust, hfile])
    have hmoved : t.file.moveTo v off = { s.file with
        clust := d, sect := v.sectAt l' (off / 512), offset := off } := by
      rw [← hsect, hfile, hmove d]
    have harr : s.Arrives v L l off L' l' { t with file := t.file.moveTo v off } := by
      refine ⟨h, hg, ?_, ?_, ?_⟩
      · show ¬ v.InData l' t.fat.sect
        rcases hres with hres | ⟨hfat, rfl⟩
        · exact not_inData_of_reserved hv hd hisClust hres
        · rw [hfat]
          exact h.apart
      · show l'[off / v.clustSize]? = some (t.file.moveTo v off).clust
        rw [hmoved, hclust]
      · show t.file.moveTo v off = _
        rw [hmoved]
    exact (harr.updateFile_sought hv hd).mono fun _ s' hs' => ⟨L', l', hs'⟩

end Karnix.Fat
