import Karnix.Fat.Allocation
import Karnix.Library.Chains
import Mathlib.Dynamics.PeriodicPts.Defs

/-!
# The chains of a volume

What `put_fat`, `remove_chain` and `stretch_chain` do to the FAT as a table of links, on a disk
that works.  Both copies of the FAT get the same entries, the upper nibble of each entry stays as
it is, and no other sector but the one of `FsInfo` changes.
-/

namespace Karnix.Fat

open Karnix.Library
open Fallible (Succeeds Fails Ends)
open Link (Chain Broken release)
open Orbit (FirstAt)
open Program (Keeps)

variable (v : Volume) (w : ℕ → Sector)

/-! ## Section 1: The FAT as a table -/

/-- The word with the entry of a cluster, in the FAT at `fatSect`. -/
def entryWord (fatSect : ℕ) (w : ℕ → Sector) (clust : ℕ) : BitVec 32 :=
  item (w (Volume.entrySect fatSect clust)) (clust % 128)

/-- The link for an entry with the value `val`. -/
def Kind.link (val : ℕ) : Kind → Link ℕ
  | .free => .free
  | .used => .next val
  | .last => .last
  | .bad => .bad

/-- What an entry with the value `val` says. -/
def Volume.link (val : ℕ) : Link ℕ := ((v.kindOf val).map (Kind.link val)).getD .bad

/-- The links of the active FAT, as the disk and the buffer show them. -/
def Volume.table (clust : ℕ) : Link ℕ :=
  if clust < v.clustCnt then v.link (v.entry w clust) else .bad

/-- Every cluster has a valid entry. -/
def Volume.Valid : Prop := ∀ c, 2 ≤ c → c < v.clustCnt → v.kind w c ≠ none

/-- Both FATs hold the same, if there are two. -/
def Volume.Mirrored : Prop :=
  v.mirrorSect ≠ 0 → ∀ c < v.clustCnt, entryWord v.mirrorSect w c = entryWord v.fatSect w c

/-- A sector of one of the FATs, or `FsInfo`. -/
def Volume.Reserved (sect : ℕ) : Prop :=
  sect = v.infoSect ∨ ∃ c < v.clustCnt,
    sect = v.fatSect + c / 128 ∨ (v.mirrorSect ≠ 0 ∧ sect = v.mirrorSect + c / 128)

/-- The FATs and `FsInfo` share no sector, and an entry has room for the number of a cluster. -/
structure Volume.Laid : Prop where
  clusts : v.clustCnt ≤ 0x0ffffff7
  fat : ∀ c < v.clustCnt, v.fatSect + c / 128 < 0x100000000
  mirror : ∀ c < v.clustCnt, v.mirrorSect + c / 128 < 0x100000000
  apart : v.mirrorSect ≠ 0 →
    ∀ c < v.clustCnt, ∀ d < v.clustCnt, v.fatSect + c / 128 ≠ v.mirrorSect + d / 128
  info : ∀ c < v.clustCnt, v.infoSect ≠ v.fatSect + c / 128 ∧
    (v.mirrorSect ≠ 0 → v.infoSect ≠ v.mirrorSect + c / 128)

/-- `FsInfo` holds the counter of the free clusters and the cluster taken last. -/
def State.Counted (s : State) : Prop :=
  item (s.view v.infoSect) 122 = s.freeCnt ∧
    item (s.view v.infoSect) 123 = BitVec.ofNat 32 s.lastUsed

/-- What `put_fat2` makes of the sectors. -/
def putWord (fatSect clust val : ℕ) (w : ℕ → Sector) : ℕ → Sector :=
  Function.update w (Volume.entrySect fatSect clust)
    (setItem (clust % 128) (mergeEntry (entryWord fatSect w clust) (BitVec.ofNat 32 val))
      (w (Volume.entrySect fatSect clust)))

/-- What `put_fat` makes of the sectors. -/
def Volume.putEntry (clust val : ℕ) (w : ℕ → Sector) : ℕ → Sector :=
  if v.mirrorSect ≠ 0 then putWord v.fatSect clust val (putWord v.mirrorSect clust val w)
  else putWord v.fatSect clust val w

/-! ## Section 2: Entries -/

theorem item_setItem_self (idx : ℕ) (x : BitVec 32) (buf : Sector) :
    item (setItem idx x buf) idx = x := by
  rw [item, setItem, ← length_leBytes32 x, Memory.load_store_self, leWord_leBytes32]

theorem item_setItem_of_ne {idx i : ℕ} (h : i ≠ idx) (x : BitVec 32) (buf : Sector) :
    item (setItem idx x buf) i = item buf i := by
  rw [item, setItem, Memory.load_store_of_disjoint, item]
  rw [length_leBytes32]
  omega

theorem entryVal_mergeEntry (old : BitVec 32) {val : ℕ} (h : val < 0x10000000) :
    entryVal (mergeEntry old (BitVec.ofNat 32 val)) = val := by
  have hmask : mergeEntry old (BitVec.ofNat 32 val) &&& 0x0fffffff =
      BitVec.ofNat 32 val &&& 0x0fffffff := by
    ext i hi
    simp only [mergeEntry, BitVec.getElem_and, BitVec.getElem_or]
    interval_cases i <;> simp
  rw [entryVal, hmask, BitVec.toNat_and, BitVec.toNat_ofNat,
    Nat.mod_eq_of_lt (by omega : val < 2 ^ 32)]
  exact (Nat.and_two_pow_sub_one_eq_mod val 28).trans (Nat.mod_eq_of_lt h)

/-- The upper nibble is kept. -/
theorem mergeEntry_nibble (old val : BitVec 32) :
    mergeEntry old val &&& 0xf0000000 = old &&& 0xf0000000 := by
  ext i hi
  simp only [mergeEntry, BitVec.getElem_and, BitVec.getElem_or]
  interval_cases i <;> simp

variable {v w} {c d f g val : ℕ}

theorem entryWord_putWord_self (f c val : ℕ) (w : ℕ → Sector) :
    entryWord f (putWord f c val w) c =
      mergeEntry (entryWord f w c) (BitVec.ofNat 32 val) := by
  rw [entryWord, putWord, Function.update_self, item_setItem_self]

theorem entryWord_putWord_of_ne (h : Volume.entrySect g d = Volume.entrySect f c →
    d % 128 ≠ c % 128) : entryWord g (putWord f c val w) d = entryWord g w d := by
  rw [entryWord, putWord]
  by_cases hsect : Volume.entrySect g d = Volume.entrySect f c
  · rw [hsect, Function.update_self, item_setItem_of_ne (h hsect), entryWord, hsect]
  · rw [Function.update_of_ne hsect, entryWord]

theorem Volume.entry_eq (v : Volume) (w : ℕ → Sector) (c : ℕ) :
    v.entry w c = entryVal (entryWord v.fatSect w c) := rfl

namespace Volume.Laid

theorem entrySect_fat (hv : v.Laid) (hc : c < v.clustCnt) :
    entrySect v.fatSect c = v.fatSect + c / 128 := Nat.mod_eq_of_lt (hv.fat c hc)

theorem entrySect_mirror (hv : v.Laid) (hc : c < v.clustCnt) :
    entrySect v.mirrorSect c = v.mirrorSect + c / 128 := Nat.mod_eq_of_lt (hv.mirror c hc)

/-- Two entries of a FAT. -/
theorem fat_ne (hv : v.Laid) (hc : c < v.clustCnt) (hd : d < v.clustCnt) (h : d ≠ c) :
    entrySect v.fatSect d = entrySect v.fatSect c → d % 128 ≠ c % 128 := by
  rw [hv.entrySect_fat hc, hv.entrySect_fat hd]
  omega

theorem mirror_ne (hv : v.Laid) (hc : c < v.clustCnt) (hd : d < v.clustCnt) (h : d ≠ c) :
    entrySect v.mirrorSect d = entrySect v.mirrorSect c → d % 128 ≠ c % 128 := by
  rw [hv.entrySect_mirror hc, hv.entrySect_mirror hd]
  omega

theorem fat_ne_mirror (hv : v.Laid) (hm : v.mirrorSect ≠ 0) (hc : c < v.clustCnt)
    (hd : d < v.clustCnt) : entrySect v.fatSect c ≠ entrySect v.mirrorSect d := by
  rw [hv.entrySect_fat hc, hv.entrySect_mirror hd]
  exact hv.apart hm c hc d hd

end Volume.Laid

/-! ## Section 3: What a put does to the table -/

/-- The word of an entry after a put. -/
theorem entryWord_putEntry_fat (hv : v.Laid) (hc : c < v.clustCnt) (hd : d < v.clustCnt) :
    entryWord v.fatSect (v.putEntry c val w) d =
      if d = c then mergeEntry (entryWord v.fatSect w c) (BitVec.ofNat 32 val)
      else entryWord v.fatSect w d := by
  have hone : ∀ w', entryWord v.fatSect (putWord v.fatSect c val w') d =
      if d = c then mergeEntry (entryWord v.fatSect w' c) (BitVec.ofNat 32 val)
      else entryWord v.fatSect w' d := by
    intro w'
    split_ifs with h
    · rw [h, entryWord_putWord_self]
    · exact entryWord_putWord_of_ne (hv.fat_ne hc hd h)
  rw [Volume.putEntry]
  by_cases hm : v.mirrorSect ≠ 0
  · have hkeep : ∀ e < v.clustCnt, entryWord v.fatSect (putWord v.mirrorSect c val w) e =
        entryWord v.fatSect w e := fun e he =>
      entryWord_putWord_of_ne fun h => absurd h (hv.fat_ne_mirror hm he hc)
    rw [if_pos hm, hone, hkeep c hc, hkeep d hd]
  · rw [if_neg hm]
    exact hone w

theorem entryWord_putEntry_mirror (hv : v.Laid) (hm : v.mirrorSect ≠ 0) (hc : c < v.clustCnt)
    (hd : d < v.clustCnt) :
    entryWord v.mirrorSect (v.putEntry c val w) d =
      if d = c then mergeEntry (entryWord v.mirrorSect w c) (BitVec.ofNat 32 val)
      else entryWord v.mirrorSect w d := by
  rw [Volume.putEntry, if_pos hm, entryWord_putWord_of_ne fun h =>
    absurd h.symm (hv.fat_ne_mirror hm hc hd)]
  split_ifs with h
  · rw [h, entryWord_putWord_self]
  · exact entryWord_putWord_of_ne (hv.mirror_ne hc hd h)

/-- The upper nibbles of the entries are the same. -/
def Volume.SameNibbles (v : Volume) (w w' : ℕ → Sector) : Prop :=
  ∀ c < v.clustCnt,
    entryWord v.fatSect w' c &&& 0xf0000000 = entryWord v.fatSect w c &&& 0xf0000000 ∧
    (v.mirrorSect ≠ 0 →
      entryWord v.mirrorSect w' c &&& 0xf0000000 = entryWord v.mirrorSect w c &&& 0xf0000000)

/-- The table is `t` now, and nothing else has changed but `FsInfo`. -/
structure Volume.Relinks (v : Volume) (w w' : ℕ → Sector) (t : ℕ → Link ℕ) : Prop where
  table : v.table w' = t
  nibbles : v.SameNibbles w w'
  mirrored : v.Mirrored w → v.Mirrored w'
  valid : v.Valid w → v.Valid w'
  other : ∀ sect, ¬ v.Reserved sect → w' sect = w sect

namespace Volume.Relinks

theorem refl (v : Volume) (w : ℕ → Sector) : v.Relinks w w (v.table w) :=
  ⟨rfl, fun _ _ => ⟨rfl, fun _ => rfl⟩, id, id, fun _ _ => rfl⟩

theorem trans {w₁ w₂ w₃ : ℕ → Sector} {t t' : ℕ → Link ℕ} (h : v.Relinks w₁ w₂ t)
    (h' : v.Relinks w₂ w₃ t') : v.Relinks w₁ w₃ t' := by
  refine ⟨h'.table, fun c hc => ⟨?_, fun hm => ?_⟩, h'.mirrored ∘ h.mirrored, h'.valid ∘ h.valid,
    fun sect hsect => ?_⟩
  · exact (h'.nibbles c hc).1.trans (h.nibbles c hc).1
  · exact ((h'.nibbles c hc).2 hm).trans ((h.nibbles c hc).2 hm)
  · exact (h'.other sect hsect).trans (h.other sect hsect)

end Volume.Relinks

/-- **Step lemma.** `put_fat` changes one link. -/
theorem relinks_putEntry (hv : v.Laid) (hc : c < v.clustCnt) (hval : val < 0x10000000)
    (hkind : v.kindOf val ≠ none) :
    v.Relinks w (v.putEntry c val w) (Function.update (v.table w) c (v.link val)) := by
  have hentry : ∀ d < v.clustCnt,
      v.entry (v.putEntry c val w) d = if d = c then val else v.entry w d := by
    intro d hd
    rw [Volume.entry_eq, entryWord_putEntry_fat hv hc hd]
    split_ifs with h
    · exact entryVal_mergeEntry _ hval
    · rfl
  refine ⟨?_, fun d hd => ⟨?_, fun hm => ?_⟩, fun hmirr hm d hd => ?_, fun hvalid d h2 hd => ?_,
    fun sect hsect => ?_⟩
  · funext d
    rw [Function.update_apply, Volume.table]
    by_cases hd : d < v.clustCnt
    · rw [if_pos hd, hentry d hd]
      split_ifs with h
      · rfl
      · rw [Volume.table, if_pos hd]
    · have hne : d ≠ c := fun h => hd (h ▸ hc)
      rw [if_neg hd, if_neg hne, Volume.table, if_neg hd]
  · rw [entryWord_putEntry_fat hv hc hd]
    split_ifs with h
    · rw [mergeEntry_nibble, h]
    · rfl
  · rw [entryWord_putEntry_mirror hv hm hc hd]
    split_ifs with h
    · rw [mergeEntry_nibble, h]
    · rfl
  · rw [entryWord_putEntry_mirror hv hm hc hd, entryWord_putEntry_fat hv hc hd, hmirr hm c hc,
      hmirr hm d hd]
  · rw [Volume.kind, hentry d hd]
    split_ifs with h
    · exact hkind
    · exact hvalid d h2 hd
  · have hfat : sect ≠ Volume.entrySect v.fatSect c := by
      rw [hv.entrySect_fat hc]
      exact fun h => hsect (.inr ⟨c, hc, .inl h⟩)
    rw [Volume.putEntry]
    split_ifs with hm
    · have hmirr : sect ≠ Volume.entrySect v.mirrorSect c := by
        rw [hv.entrySect_mirror hc]
        exact fun h => hsect (.inr ⟨c, hc, .inr ⟨hm, h⟩⟩)
      rw [putWord, Function.update_of_ne hfat, putWord, Function.update_of_ne hmirr]
    · rw [putWord, Function.update_of_ne hfat]

/-- A write to the sector of `FsInfo` changes no link. -/
theorem relinks_info (hv : v.Laid) (buf : Sector) :
    v.Relinks w (Function.update w v.infoSect buf) (v.table w) := by
  have hfat : ∀ c < v.clustCnt, entryWord v.fatSect (Function.update w v.infoSect buf) c =
      entryWord v.fatSect w c := by
    intro c hc
    rw [entryWord, Function.update_of_ne, entryWord]
    rw [hv.entrySect_fat hc]
    exact (hv.info c hc).1.symm
  have hmirror : v.mirrorSect ≠ 0 → ∀ c < v.clustCnt,
      entryWord v.mirrorSect (Function.update w v.infoSect buf) c = entryWord v.mirrorSect w c := by
    intro hm c hc
    rw [entryWord, Function.update_of_ne, entryWord]
    rw [hv.entrySect_mirror hc]
    exact ((hv.info c hc).2 hm).symm
  refine ⟨?_, fun c hc => ⟨by rw [hfat c hc], fun hm => by rw [hmirror hm c hc]⟩,
    fun hmirr hm c hc => ?_, fun hvalid c h2 hc => ?_,
    fun sect hsect => Function.update_of_ne (fun h => hsect (.inl h)) _ _⟩
  · funext c
    rw [Volume.table, Volume.table]
    split_ifs with hc
    · rw [Volume.entry_eq, hfat c hc, Volume.entry_eq]
    · rfl
  · rw [hmirror hm c hc, hfat c hc, hmirr hm c hc]
  · rw [Volume.kind, Volume.entry_eq, hfat c hc]
    exact hvalid c h2 hc

/-! ## Section 4: Links -/

theorem kindOf_free (v : Volume) : v.kindOf 0 = some .free := if_pos rfl

theorem kindOf_last (v : Volume) : v.kindOf 0x0fffffff = some .last := by
  rw [Volume.kindOf, if_neg (by decide), if_neg (by decide), if_pos (by decide)]

theorem kindOf_clust (hv : v.Laid) (h2 : 2 ≤ c) (hc : c < v.clustCnt) :
    v.kindOf c = some .used := by
  have hle := hv.clusts
  rw [Volume.kindOf, if_neg (by omega), if_neg (by omega), if_neg (by omega), if_pos ⟨h2, hc⟩]

theorem link_free (v : Volume) : v.link 0 = .free := by
  rw [Volume.link, kindOf_free]
  rfl

theorem link_last (v : Volume) : v.link 0x0fffffff = .last := by
  rw [Volume.link, kindOf_last]
  rfl

theorem link_clust (hv : v.Laid) (h2 : 2 ≤ c) (hc : c < v.clustCnt) : v.link c = .next c := by
  rw [Volume.link, kindOf_clust hv h2 hc]
  rfl

/-- What is behind each kind of entry. -/
theorem table_of_kind (hc : c < v.clustCnt) {kind : Kind} (hk : v.kind w c = some kind) :
    v.table w c = kind.link (v.entry w c) := by
  rw [Volume.table, if_pos hc, Volume.link, show v.kindOf (v.entry w c) = some kind from hk]
  rfl

/-- A link that is no sign of a bad cluster comes from an entry. -/
theorem exists_kind (h : v.table w c ≠ .bad) :
    c < v.clustCnt ∧ ∃ kind, v.kind w c = some kind ∧ v.table w c = kind.link (v.entry w c) := by
  rw [Volume.table] at h
  split_ifs at h with hc
  · cases hk : v.kind w c with
    | none =>
      refine absurd ?_ h
      rw [Volume.link, show v.kindOf (v.entry w c) = none from hk]
      rfl
    | some kind => exact ⟨hc, kind, rfl, table_of_kind hc hk⟩
  · exact absurd rfl h

/-- The driver takes an entry for an end mark if the table has the end there. -/
theorem kind_of_table_last (h : v.table w c = .last) : v.kind w c = some .last := by
  obtain ⟨-, kind, hk, htable⟩ :=
    exists_kind (v := v) (w := w) (c := c) (by simp [h])
  rw [h] at htable
  cases kind <;> first | exact hk | cases htable

theorem kind_of_table_next (h : v.table w c = .next d) :
    v.kind w c = some .used ∧ v.entry w c = d := by
  obtain ⟨-, kind, hk, htable⟩ :=
    exists_kind (v := v) (w := w) (c := c) (by simp [h])
  rw [h] at htable
  cases kind <;> first | exact ⟨hk, (Link.next.inj htable).symm⟩ | cases htable

/-- A free link is an entry with the value 0. -/
theorem kind_of_table_free (h : v.table w c = .free) :
    c < v.clustCnt ∧ v.kind w c = some .free := by
  obtain ⟨hc, kind, hk, htable⟩ :=
    exists_kind (v := v) (w := w) (c := c) (by simp [h])
  rw [h] at htable
  cases kind <;> first | exact ⟨hc, hk⟩ | cases htable

/-- The next cluster is one of the volume. -/
theorem entry_lt_of_used (hk : v.kind w c = some .used) :
    2 ≤ v.entry w c ∧ v.entry w c < v.clustCnt := by
  rw [Volume.kind, Volume.kindOf] at hk
  split_ifs at hk with h₁ h₂ h₃ h₄
  · cases hk
  · cases hk
  · cases hk
  · exact h₄

/-! ## Section 5: What the routines do to the sectors -/

/-- What a step that may write to the buffer leaves alone. -/
structure State.Edits (s s' : State) : Prop extends SameInfo s s' where
  exact : s'.Exact
  data : s'.dataWrites = s.dataWrites

theorem State.Edits.trans {s₁ s₂ s₃ : State} (h : State.Edits s₁ s₂) (h' : State.Edits s₂ s₃) :
    State.Edits s₁ s₃ :=
  ⟨h.toSameInfo.trans h'.toSameInfo, h'.exact, h'.data.trans h.data⟩

variable [v.ops.Reliable] {s : State}

/-- The buffer is loaded with a sector. -/
theorem updateBuf_edits (hs : s.Exact) (sect : ℕ) :
    Succeeds (updateBuf v sect) s fun _ s' =>
      s'.view = s.view ∧ s'.sect = sect ∧ s'.buf = s.view sect ∧ s.Edits s' := by
  refine (updateBuf_spec v sect).mono fun _ s' ⟨h, _⟩ => ⟨?_, ?_, ?_, h.toSameInfo, ?_, h.data⟩
  · rw [State.view, h.cache, WriteBack.view_load, State.view]
  · exact (congrArg WriteBack.tag h.cache).trans (WriteBack.tag_load s.cache sect)
  · exact (congrArg WriteBack.line h.cache).trans
      (WriteBack.Coherent.line_load hs (Set.mem_univ sect))
  · rw [State.Exact, h.cache]
    exact WriteBack.Coherent.load hs sect

/-- The state once the buffer has been changed. -/
def State.edited (f : Sector → Sector) (s : State) : State :=
  { s with buf := f s.buf, bufDirty := true }

omit [v.ops.Reliable] in
theorem State.view_edited (f : Sector → Sector) (s : State) :
    (s.edited f).view = Function.update s.view s.sect (f s.buf) := WriteBack.view_edit s.cache f

omit [v.ops.Reliable] in
theorem State.edits_edited (f : Sector → Sector) (s : State) : s.Edits (s.edited f) :=
  ⟨⟨rfl, rfl, rfl⟩, WriteBack.coherent_edit f (c := s.cache), rfl⟩

/-- The buffer is loaded with a sector and changed. -/
theorem editSect_spec (hs : s.Exact) (sect : ℕ) (f : Sector → Sector) :
    Succeeds (do updateBuf v sect; editBuf f) s fun _ s' =>
      s'.view = Function.update s.view sect (f (s.view sect)) ∧ s'.sect = sect ∧ s.Edits s' := by
  refine (updateBuf_edits hs sect).bind fun _ s₁ ⟨hview, hsect, hbuf, he⟩ => .modify ?_
  refine ⟨?_, hsect, he.trans (s₁.edits_edited f)⟩
  have hedit := s₁.view_edited f
  rwa [hview, hsect, hbuf] at hedit

theorem putFat2_spec (hs : s.Exact) (f c val : ℕ) :
    Succeeds (putFat2 v f c val) s fun _ s' => s'.view = putWord f c val s.view ∧ s.Edits s' :=
  (editSect_spec hs (Volume.entrySect f c) _).mono fun _ _ ⟨hview, _, he⟩ => ⟨hview, he⟩

/-- `put_fat` on a disk that works: the entry of the cluster is changed in both FATs, but for its
upper four bits. -/
theorem putFat_spec (hs : s.Exact) (c val : ℕ) :
    Succeeds (putFat v c val) s fun _ s' => s'.view = v.putEntry c val s.view ∧ s.Edits s' := by
  rw [putFat, Volume.putEntry]
  split
  · refine (putFat2_spec hs v.mirrorSect c val).bind ?_
    rintro _ s₁ ⟨hview, he⟩
    refine (putFat2_spec he.exact v.fatSect c val).mono ?_
    rintro _ s' ⟨hview', he'⟩
    exact ⟨by rw [hview', hview], he.trans he'⟩
  · exact putFat2_spec hs v.fatSect c val

/-- The sectors after `sync_fs`. -/
def Volume.withInfo (v : Volume) (s : State) : ℕ → Sector :=
  if s.infoDirty then
    Function.update s.view v.infoSect (putInfo s.lastUsed s.freeCnt (s.view v.infoSect))
  else s.view

/-- What `sync_fs` does: the disk is what was shown before, and nothing is left to be written. -/
structure State.Syncs (v : Volume) (s s' : State) : Prop where
  view : s'.view = v.withInfo s
  synced : s'.Synced
  exact : s'.Exact
  lastUsed : s'.lastUsed = s.lastUsed
  freeCnt : s'.freeCnt = s.freeCnt
  data : s'.dataWrites = s.dataWrites
  sect : s'.sect = if s.infoDirty then v.infoSect else s.sect

theorem syncBuf_clean (hs : s.Exact) : Succeeds (syncBuf v) s fun _ s' =>
    s'.view = s.view ∧ s'.bufDirty = false ∧ s'.sect = s.sect ∧ s.Edits s' := by
  refine (syncBuf_spec v).mono fun _ s' ⟨h, _⟩ => ⟨?_, ?_, ?_, h.toSameInfo, ?_, h.data⟩
  · rw [State.view, h.cache, WriteBack.view_flush, State.view]
  · exact congrArg WriteBack.dirty h.cache
  · exact congrArg WriteBack.tag h.cache
  · rw [State.Exact, h.cache]
    exact WriteBack.Coherent.flush hs

/-- `sync_fs` succeeds on a disk that works. -/
theorem syncFs_spec (hs : s.Exact) : Succeeds (syncFs v) s fun _ s' => s.Syncs v s' := by
  refine (syncBuf_clean hs).bind fun _ s₁ ⟨hview₁, hclean, hsect₁, he₁⟩ => Succeeds.read_bind ?_
  simp only [id]
  split_ifs with hinfo
  · refine (updateBuf_edits he₁.exact v.infoSect).bind fun _ s₂ ⟨hview₂, hsect, hbuf, he₂⟩ => ?_
    refine Succeeds.read_bind (Succeeds.modify_bind ?_)
    have he := he₁.trans (he₂.trans (s₂.edits_edited (putInfo s₂.lastUsed s₂.freeCnt)))
    refine (syncBuf_clean he.exact).bind fun _ s₃ ⟨hview₃, hclean₃, hsect₃, he₃⟩ => .modify ?_
    have he' := he.trans he₃
    refine ⟨?_, ⟨hclean₃, rfl⟩, he'.exact, he'.lastUsed, he'.freeCnt, he'.data, ?_⟩
    rotate_left
    · rw [← he₁.infoDirty, if_pos hinfo]
      exact hsect₃.trans hsect
    show s₃.view = _
    rw [hview₃, State.view_edited, hview₂, hsect, hbuf, hview₁, Volume.withInfo,
      if_pos (he₁.infoDirty ▸ hinfo), (he₁.trans he₂).lastUsed, (he₁.trans he₂).freeCnt]
  · refine .pure ⟨?_, ⟨hclean, by simpa using hinfo⟩, he₁.exact, he₁.lastUsed, he₁.freeCnt,
      he₁.data, ?_⟩
    rotate_left
    · rw [← he₁.infoDirty, if_neg hinfo]
      exact hsect₁
    rw [Volume.withInfo, ← he₁.infoDirty, if_neg hinfo, hview₁]

omit [v.ops.Reliable] in
/-- It changes no link, as `FsInfo` lies in front of the FATs. -/
theorem State.Syncs.relinks {s' : State} (h : s.Syncs v s') (hv : v.Laid) :
    v.Relinks s.view s'.view (v.table s.view) := by
  rw [h.view, Volume.withInfo]
  split_ifs
  · exact relinks_info hv _
  · exact .refl v s.view

omit [v.ops.Reliable] in
/-- `FsInfo` is up to date then, if it was to be written. -/
theorem State.Syncs.counted {s' : State} (h : s.Syncs v s') (hinfo : s.infoDirty = true) :
    s'.Counted v := by
  rw [State.Counted, h.view, Volume.withInfo, if_pos hinfo, Function.update_self, h.freeCnt,
    h.lastUsed]
  constructor
  · exact item_setItem_self 122 _ _
  · exact (item_setItem_of_ne (by decide : 123 ≠ 122) _ _).trans (item_setItem_self 123 _ _)

/-! ## Section 6: `remove_chain` -/

theorem getFat_edits {kind : Kind} (hs : s.Exact) (hk : v.kind s.view c = some kind) :
    Succeeds (getFat v c) s fun r s' =>
      r = (v.entry s.view c, kind) ∧ s'.view = s.view ∧
        s'.sect = Volume.entrySect v.fatSect c ∧ s.Edits s' := by
  refine (updateBuf_edits hs _).bind fun _ s₁ ⟨hview, hsect, hbuf, he⟩ => Succeeds.read_bind ?_
  have hentry : entryVal (item s₁.buf (c % 128)) = v.entry s.view c := by
    rw [hbuf]
    rfl
  simp only [id, hentry]
  rw [show v.kindOf (v.entry s.view c) = some kind from hk]
  exact .pure ⟨rfl, hview, hsect, he⟩

theorem getFat_fails (hs : s.Exact) (hk : v.kind s.view c = none) :
    Fails (getFat v c) s .broken fun s' => s'.view = s.view ∧ s.Edits s' := by
  refine (updateBuf_edits hs _).bind_fails fun _ s₁ ⟨hview, _, hbuf, he⟩ => Fails.read_bind ?_
  have hentry : entryVal (item s₁.buf (c % 128)) = v.entry s.view c := by
    rw [hbuf]
    rfl
  simp only [id, hentry]
  rw [show v.kindOf (v.entry s.view c) = none from hk]
  exact .throw ⟨hview, he⟩

/-- The clusters `l` are released. -/
structure State.Releases (v : Volume) (l : List ℕ) (s s' : State) : Prop
    extends v.Relinks s.view s'.view (release (v.table s.view) l) where
  exact : s'.Exact
  data : s'.dataWrites = s.dataWrites
  lastUsed : s'.lastUsed = s.lastUsed
  freeCnt : s'.freeCnt = s.freeCnt + BitVec.ofNat 32 l.length

omit [v.ops.Reliable] in
/-- Nothing is released where the chain breaks off at once. -/
theorem State.Edits.releases_nil {s' : State} (h : s.Edits s') (hview : s'.view = s.view) :
    s.Releases v [] s' := by
  refine ⟨?_, h.exact, h.data, h.lastUsed, ?_⟩
  · rw [hview, Link.release_nil]
    exact .refl v s.view
  · rw [h.freeCnt]
    exact (BitVec.add_zero _).symm

omit [v.ops.Reliable] in
/-- A cluster is released, and then others. -/
theorem State.Releases.cons {s₁ s' : State} {l : List ℕ} (h₁ : s.Releases v [c] s₁)
    (h : s₁.Releases v l s') : s.Releases v (c :: l) s' := by
  have htable : release (v.table s.view) (c :: l) = release (v.table s₁.view) l := by
    rw [h₁.table, Link.release_cons, Link.release_cons, Link.release_nil]
  refine ⟨?_, h.exact, h.data.trans h₁.data, h.lastUsed.trans h₁.lastUsed, ?_⟩
  · rw [htable]
    exact h₁.toRelinks.trans h.toRelinks
  · rw [h.freeCnt, h₁.freeCnt, BitVec.add_assoc, ← BitVec.ofNat_add, List.length_singleton,
      List.length_cons, Nat.add_comm]

omit [v.ops.Reliable] in
/-- An entry has been cleared, and is counted. -/
theorem State.Edits.releases_put {s' : State} (hv : v.Laid) (hc : c < v.clustCnt)
    (hview : s'.view = v.putEntry c 0 s.view) (h : s.Edits s') :
    s.Releases v [c] { s' with freeCnt := s'.freeCnt + 1 } := by
  refine ⟨?_, h.exact, h.data, h.lastUsed, ?_⟩
  · have hput := relinks_putEntry (w := s.view) hv hc (by decide : 0 < 0x10000000)
      (by simp [kindOf_free])
    rw [link_free] at hput
    rw [Link.release_cons, Link.release_nil]
    exact hview ▸ hput
  · exact congrArg (· + 1) h.freeCnt

/-- How `remove_chain` ends: with the end of the chain, or where there is none. -/
def Volume.Removal (v : Volume) (w : ℕ → Sector) (c : ℕ) (l : List ℕ) (r : Except Err PUnit) :
    Prop :=
  r = .ok ⟨⟩ ∧ Chain (v.table w) c l ∨ r = .error .broken ∧ Broken (v.table w) c l

/-- **Run lemma.** Each round releases a cluster that was not free, so that the rounds are
enough. -/
theorem removeLinks_spec (hv : v.Laid) {n : ℕ} (hs : s.Exact) (hc : c < v.clustCnt)
    (hn : v.clustCnt < n + Link.freeCount (v.table s.view) (Finset.range v.clustCnt)) :
    Ends (removeLinks v n c) s fun r s' =>
      ∃ l, s.Releases v l s' ∧ s'.infoDirty = s.infoDirty ∧ v.Removal s.view c l r := by
  induction n generalizing s c with
  | zero =>
    -- more clusters would be free than there are
    have hle := Finset.card_filter_le (Finset.range v.clustCnt) fun c => v.table s.view c = .free
    rw [Finset.card_range] at hle
    exact absurd hle (Nat.not_le.2 (by rwa [Nat.zero_add] at hn))
  | succ n ih =>
    rw [removeLinks]
    cases hk : v.kind s.view c with
    | none =>
      -- an entry that is not valid
      have hbad : v.table s.view c = .bad := by
        rw [Volume.table, if_pos hc, Volume.link, show v.kindOf (v.entry s.view c) = none from hk]
        rfl
      refine (getFat_fails hs hk).bind.ends ?_
      rintro s' ⟨hview, he⟩
      exact ⟨[], he.releases_nil hview, he.infoDirty, .inr ⟨rfl, .stop (.inr hbad)⟩⟩
    | some kind =>
      have htable := table_of_kind hc hk
      refine (getFat_edits hs hk).bind_ends ?_
      rintro _ s₁ ⟨rfl, hview, -, he⟩
      by_cases hstop : kind = .bad ∨ kind = .free
      · -- the chain is broken here
        refine Fails.ends (e := .broken) (Q := fun s' => s' = s₁) ?_ ?_
        · rw [if_pos hstop]
          exact .throw rfl
        · rintro s' rfl
          refine ⟨[], he.releases_nil hview, he.infoDirty, .inr ⟨rfl, .stop ?_⟩⟩
          rcases hstop with rfl | rfl
          · exact .inr htable
          · exact .inl htable
      · -- the cluster is released, so that one more is free
        have hused : v.table s.view c ≠ .free := by
          rw [htable]
          cases kind <;> simp_all [Kind.link]
        rw [if_neg hstop]
        refine (putFat_spec he.exact c 0).bind_ends ?_
        rintro _ s₂ ⟨hview₂, he₂⟩
        refine Ends.modify_bind ?_
        have hrel := (he.trans he₂).releases_put hv hc (by rw [hview₂, hview])
        have hinfo : s₂.infoDirty = s.infoDirty := (he.trans he₂).infoDirty
        have hcount : Link.freeCount (v.table s₂.view) (Finset.range v.clustCnt) =
            Link.freeCount (v.table s.view) (Finset.range v.clustCnt) + 1 := by
          have htab := hrel.table
          rw [Link.release_cons, Link.release_nil] at htab
          exact (congrArg (Link.freeCount · _) htab).trans
            (Link.freeCount_release (Finset.mem_range.2 hc) hused)
        by_cases hlast : kind = .last
        · subst hlast
          -- the end of the chain
          refine ⟨.ok ⟨⟩, _, ?_, [c], hrel, hinfo, .inl ⟨rfl, .last htable⟩⟩
          rw [if_pos rfl]
          rfl
        · have hkind : kind = .used := by
            cases kind <;> simp_all
          subst hkind
          rw [if_neg hlast]
          have hnext := entry_lt_of_used hk
          -- the next cluster, by induction
          refine (ih (s := { s₂ with freeCnt := s₂.freeCnt + 1 }) hrel.exact hnext.2 ?_).mono ?_
          · show v.clustCnt < n + Link.freeCount (v.table s₂.view) (Finset.range v.clustCnt)
            rw [hcount]
            omega
          · rintro r s' ⟨l, hrel', hinfo', hend⟩
            refine ⟨c :: l, hrel.cons hrel', hinfo'.trans hinfo, ?_⟩
            have htab := hrel.table
            rw [Link.release_cons, Link.release_nil] at htab
            rw [Volume.Removal, htab] at hend
            refine hend.imp (And.imp_right ?_) (And.imp_right ?_)
            · exact Chain.cons_released htable
            · exact Broken.next htable

omit [v.ops.Reliable] in
/-- Releasing ends with `sync_fs`, which keeps what has been released. -/
theorem State.Syncs.releases {l : List ℕ} {s₁ s' : State} (hv : v.Laid)
    (hrel : ({ s with infoDirty := true } : State).Releases v l s₁) (h : s₁.Syncs v s') :
    s.Releases v l s' :=
  ⟨hrel.table ▸ hrel.toRelinks.trans (h.relinks hv), h.exact, h.data.trans hrel.data,
    h.lastUsed.trans hrel.lastUsed, h.freeCnt.trans hrel.freeCnt⟩

/-- A chain that ends is released as a whole. -/
theorem removeChain_chain (hv : v.Laid) (hs : s.Exact) (hc : c < v.clustCnt) {l : List ℕ}
    (hchain : Chain (v.table s.view) c l) :
    Succeeds (removeChain v c) s fun _ s' => s.Releases v l s' ∧ s'.Synced ∧ s'.Counted v := by
  refine Succeeds.modify_bind ?_
  obtain ⟨r, s₁, hrun, l', hrel, hinfo, hend⟩ :=
    removeLinks_spec (s := { s with infoDirty := true }) (n := v.clustCnt + 1) hv hs hc (by omega)
  rcases hend with ⟨rfl, hchain'⟩ | ⟨-, hbroken⟩
  · obtain rfl := hchain'.unique hchain
    refine Succeeds.of_eq (Fallible.bind_of_ok hrun) ((syncFs_spec hrel.exact).mono ?_)
    rintro _ s' h
    exact ⟨h.releases hv hrel, h.synced, h.counted hinfo⟩
  · exact absurd hchain hbroken.not_chain

/-- **Releasing a chain.** On a disk that works, `remove_chain` always ends.  If the clusters from
`c` on form a chain it succeeds, and nothing is left to be written; else it fails with
`FAT_ERR_BROKEN`.  In both cases exactly the clusters that it has passed are free then, each of
them is counted, both FATs hold the same if they did, and no other link, upper nibble or sector
but `FsInfo` has changed. -/
theorem removeChain_releases (hv : v.Laid) (hs : s.Exact) (hc : c < v.clustCnt) :
    Ends (removeChain v c) s fun r s' =>
      ∃ l, s.Releases v l s' ∧ v.Removal s.view c l r ∧
        (r = .ok ⟨⟩ → s'.Synced ∧ s'.Counted v) := by
  refine Ends.modify_bind ?_
  refine (removeLinks_spec (s := { s with infoDirty := true }) hv hs hc (by omega)).bind ?_ ?_
  · rintro _ s₁ ⟨l, hrel, hinfo, hend⟩
    refine (syncFs_spec hrel.exact).ends fun _ s' h => ?_
    exact ⟨l, h.releases hv hrel, hend, fun _ => ⟨h.synced, h.counted hinfo⟩⟩
  · rintro e s₁ ⟨l, hrel, -, hend⟩
    refine ⟨l, ⟨hrel.toRelinks, hrel.exact, hrel.data, hrel.lastUsed, hrel.freeCnt⟩, hend,
      fun h => ?_⟩
    cases h

/-! ## Section 7: The search for a free cluster -/

/-- A cluster that has an entry. -/
def Volume.IsClust (v : Volume) (c : ℕ) : Prop := 2 ≤ c ∧ c < v.clustCnt

omit [v.ops.Reliable] in
theorem succClust_eq (hv : v.Laid) (hc : v.IsClust c) :
    v.succClust c = if c + 1 < v.clustCnt then c + 1 else 2 := by
  have hle := hv.clusts
  have hlt := hc.2
  have hu : u32 (c + 1) = c + 1 := Nat.mod_eq_of_lt (by omega)
  rw [Volume.succClust, hu]
  split_ifs <;> omega

omit [v.ops.Reliable] in
/-- The clusters are passed in a circle. -/
theorem succClust_iterate (hv : v.Laid) (hc : v.IsClust c) (j : ℕ) :
    v.succClust^[j] c = 2 + (c - 2 + j) % (v.clustCnt - 2) := by
  obtain ⟨h2, hlt⟩ := hc
  have hpos : 0 < v.clustCnt - 2 := by omega
  induction j with
  | zero =>
    rw [Function.iterate_zero, id, Nat.add_zero, Nat.mod_eq_of_lt (by omega)]
    omega
  | succ j ih =>
    have hx := Nat.mod_lt (c - 2 + j) hpos
    have hsucc : (c - 2 + (j + 1)) % (v.clustCnt - 2) =
        if (c - 2 + j) % (v.clustCnt - 2) + 1 < v.clustCnt - 2
          then (c - 2 + j) % (v.clustCnt - 2) + 1 else 0 := by
      rw [← Nat.add_assoc, ← Nat.mod_add_mod]
      split_ifs with h
      · exact Nat.mod_eq_of_lt h
      · rw [show (c - 2 + j) % (v.clustCnt - 2) + 1 = v.clustCnt - 2 by omega, Nat.mod_self]
    rw [Function.iterate_succ_apply', ih, succClust_eq hv ⟨by omega, by omega⟩, hsucc]
    split_ifs <;> omega

omit [v.ops.Reliable] in
theorem isClust_iterate (hv : v.Laid) (hc : v.IsClust c) (j : ℕ) :
    v.IsClust (v.succClust^[j] c) := by
  obtain ⟨h2, hlt⟩ := hc
  have hx := Nat.mod_lt (c - 2 + j) (by omega : 0 < v.clustCnt - 2)
  rw [succClust_iterate hv ⟨h2, hlt⟩]
  exact ⟨by omega, by omega⟩

omit [v.ops.Reliable] in
/-- Each of them comes up. -/
theorem exists_iterate (hv : v.Laid) (hc : v.IsClust c) (hd : v.IsClust d) :
    ∃ j, v.succClust^[j] c = d := by
  obtain ⟨h2, hlt⟩ := hc
  obtain ⟨h2', hlt'⟩ := hd
  refine ⟨d - 2 + (v.clustCnt - 2 - (c - 2)), ?_⟩
  rw [succClust_iterate hv ⟨h2, hlt⟩,
    show c - 2 + (d - 2 + (v.clustCnt - 2 - (c - 2))) = d - 2 + (v.clustCnt - 2) by omega,
    Nat.add_mod_right, Nat.mod_eq_of_lt (by omega)]
  omega

/-- What the search finds: a free cluster, or that there is none but perhaps the one it began
behind, at which it never looks. -/
def Volume.Search (v : Volume) (w : ℕ → Sector) (hint : ℕ) (r : Except Err ℕ) : Prop :=
  (∃ c, r = .ok c ∧ v.IsClust c ∧ v.table w c = .free) ∨
    r = .error .full ∧ ∀ c, v.IsClust c → v.table w c = .free → c = hint

omit [v.ops.Reliable] in
theorem table_free_of_kind (hc : v.IsClust c) (hk : v.kind w c = some .free) :
    v.table w c = .free := table_of_kind hc.2 hk

omit [v.ops.Reliable] in
/-- Once it is back, the search has passed all clusters. -/
theorem full_of_firstAt {h k : ℕ} (hv : v.Laid) (hh : v.IsClust h)
    (hk : FirstAt v.succClust (v.Stops w h) (v.succClust h) k)
    (hback : v.succClust^[k] (v.succClust h) = h) (hc : v.IsClust c)
    (hfree : v.table w c = .free) : c = h := by
  obtain ⟨j, hj⟩ := exists_iterate hv hh hc
  have hperiod : Function.IsPeriodicPt v.succClust (k + 1) h := hback
  rw [← hperiod.iterate_mod_apply j] at hj
  have hlt := Nat.mod_lt j (by omega : 0 < k + 1)
  cases hi : j % (k + 1) with
  | zero =>
    rw [hi] at hj
    exact hj.symm
  | succ i =>
    rw [hi] at hj
    refine absurd (.inr (.inl ?_)) (hk.2 i (by omega))
    rw [← Function.iterate_succ_apply, hj]
    exact (kind_of_table_free hfree).2

/-- **Run lemma.** If all entries are valid, the search ends. -/
theorem scanAll_spec (hv : v.Laid) (hs : s.Exact) (hvalid : v.Valid s.view)
    (hint : v.IsClust s.lastUsed) (flags : Option Kind) :
    Ends (scanAll v flags) s fun r s' => s.Looks s' ∧ v.Search s.view s.lastUsed r := by
  obtain ⟨j, hj⟩ := exists_iterate hv (isClust_iterate hv hint 1) hint
  obtain ⟨k, hk⟩ := Orbit.exists_firstAt
    (P := v.Stops s.view s.lastUsed) (a := v.succClust s.lastUsed) ⟨j, .inl hj⟩
  obtain ⟨n, flags', s₁, hl, -, -, hrun⟩ := scanAll_reaches flags hs hk
  have hnext : v.succClust (v.succClust^[k] s.lastUsed) =
      v.succClust^[k] (v.succClust s.lastUsed) := by
    rw [← Function.iterate_succ_apply, Function.iterate_succ_apply']
  have hclust : v.IsClust (v.succClust^[k] (v.succClust s.lastUsed)) :=
    isClust_iterate hv (isClust_iterate hv hint 1) k
  by_cases hback : v.succClust^[k] (v.succClust s.lastUsed) = s.lastUsed
  · have hfull := scan_hint (n := n) flags' (hnext.trans (hback.trans hl.lastUsed.symm))
    refine (hfull.of_eq hrun).ends fun s' hl' => ⟨hl.trans hl', .inr ⟨rfl, fun c hc hfree => ?_⟩⟩
    exact full_of_firstAt hv hint hk hback hc hfree
  · have hfree := (hk.1.resolve_left hback).resolve_right (hvalid _ hclust.1 hclust.2)
    have hok := scan_free (n := n) (c := v.succClust^[k] s.lastUsed) flags' (hl.exact hs)
      (by rwa [hnext, hl.lastUsed]) (by rw [hnext, hl.view]; exact hfree)
    refine (hok.of_eq hrun).ends fun c s' ⟨hc, hl'⟩ => ⟨hl.trans hl', .inl ⟨c, rfl, ?_⟩⟩
    rw [hc, hnext]
    exact ⟨hclust, table_free_of_kind hclust hfree⟩

/-- Behind the end of a chain, or without one. -/
theorem findFree_spec (hv : v.Laid) (hs : s.Exact) (hvalid : v.Valid s.view)
    (hint : v.IsClust s.lastUsed) {prev : ℕ} (hprev : prev = 0 ∨ v.IsClust prev) :
    Ends (findFree v prev) s fun r s' => s.Looks s' ∧ v.Search s.view s.lastUsed r := by
  rw [findFree]
  split_ifs with h0
  · have hclust : v.IsClust (v.succClust prev) :=
      isClust_iterate hv (hprev.resolve_left h0) 1
    obtain ⟨kind, hkind⟩ := Option.ne_none_iff_exists'.1 (hvalid _ hclust.1 hclust.2)
    refine (getFat_looks hs hkind).bind_ends fun r s₁ ⟨hr, hl⟩ => ?_
    subst hr
    by_cases hfree : kind = .free
    · rw [if_pos hfree]
      refine ⟨_, s₁, rfl, hl, .inl ⟨_, rfl, hclust, table_free_of_kind hclust ?_⟩⟩
      rw [hkind, hfree]
    · rw [if_neg hfree]
      refine (scanAll_spec hv (hl.exact hs) (hl.view ▸ hvalid) (hl.lastUsed ▸ hint) _).mono ?_
      rintro r s' ⟨hl', hr⟩
      exact ⟨hl.trans hl', hl.view ▸ hl.lastUsed ▸ hr⟩
  · exact scanAll_spec hv hs hvalid hint none

/-! ## Section 8: `stretch_chain` -/

/-- The links once cluster `c` has been taken, for the end `prev` of a chain or for none. -/
def taken (t : ℕ → Link ℕ) (prev c : ℕ) : ℕ → Link ℕ :=
  if prev = 0 then Function.update t c .last
  else Function.update (Function.update t c .last) prev (.next c)

/-- Cluster `c` is taken: it has the end mark and the link from `prev`, the next search begins at
it, and one less is free. -/
structure State.Takes (v : Volume) (prev c : ℕ) (s s' : State) : Prop
    extends v.Relinks s.view s'.view (taken (v.table s.view) prev c) where
  exact : s'.Exact
  data : s'.dataWrites = s.dataWrites
  lastUsed : s'.lastUsed = c
  freeCnt : s'.freeCnt = s.freeCnt - 1
  synced : s'.Synced
  counted : s'.Counted v
  sect : s'.sect = v.infoSect

/-- The search only looks: hint and counter stay, no data is written, and a clean buffer stays
clean. -/
structure State.Peeks (s s' : State) : Prop extends SameInfo s s' where
  data : s'.dataWrites = s.dataWrites
  clean : s.bufDirty = false → s'.bufDirty = false

instance : ParseSteps State.Peeks where
  refl _ := ⟨⟨rfl, rfl, rfl⟩, rfl, id⟩
  trans _ _ _ h h' := ⟨h.toSameInfo.trans h'.toSameInfo, h'.data.trans h.data, h'.clean ∘ h.clean⟩
  globals _ _ _ _ := ⟨⟨rfl, rfl, rfl⟩, rfl, id⟩

instance : ReadSteps v State.Peeks where
  updateBuf sect := by
    constructor
    intro s
    obtain ⟨_, s', hrun, h, hw⟩ := updateBuf_spec v sect (s := s)
    rw [hrun]
    exact ⟨h.toSameInfo, h.data, fun hclean => ((h.reads_load hw).clean hclean).1⟩

/-- The buffer still stands for its sector. -/
def State.StaysExact (s s' : State) : Prop := s.Exact → s'.Exact

instance : ParseSteps State.StaysExact where
  refl _ := id
  trans _ _ _ h h' := h' ∘ h
  globals _ _ _ _ := id

instance : ReadSteps v State.StaysExact where
  updateBuf sect := by
    constructor
    intro s hs
    obtain ⟨_, s', hrun, h, -⟩ := updateBuf_spec v sect (s := s)
    rw [hrun, State.Exact, h.cache]
    exact WriteBack.Coherent.load hs sect

section Search

omit [v.ops.Reliable]

variable {R : State → State → Prop} [ParseSteps R] [ReadSteps v R]

instance keeps_scan (n c : ℕ) (flags : Option Kind) : Keeps R (scan v n c flags) := by
  induction n generalizing c flags with
  | zero => exact Fallible.keeps_abort
  | succ n ih =>
    unfold scan
    refine Fallible.keeps_then fun fat => ?_
    split
    · infer_instance
    · refine Fallible.keeps_then fun r => ?_
      rcases r with e | r
      · cases flags <;> infer_instance
      · infer_instance

instance keeps_findFree (prev : ℕ) : Keeps R (findFree v prev) := by
  unfold findFree scanAll
  infer_instance

end Search

/-- How `stretch_chain` ends: with a free cluster taken, or with an error if none is free but the
one it begins behind. -/
def Volume.Stretch (v : Volume) (prev : ℕ) (s : State) (r : Except Err ℕ) (s' : State) : Prop :=
  (∃ c, r = .ok c ∧ v.IsClust c ∧ v.table s.view c = .free ∧ s.Takes v prev c s') ∨
    r = .error .full ∧ (∀ c, v.IsClust c → v.table s.view c = .free → c = s.lastUsed) ∧
      s'.view = s.view ∧ s'.Exact ∧ State.Peeks { s with infoDirty := true } s'

/-- The puts for the cluster found. -/
theorem puts_spec (hv : v.Laid) (hs : s.Exact) {prev : ℕ} (hc : v.IsClust c)
    (hprev : prev = 0 ∨ v.IsClust prev) :
    Succeeds (puts v prev c) s fun _ s' =>
      v.Relinks s.view s'.view (taken (v.table s.view) prev c) ∧ s.Edits s' := by
  refine (putFat_spec hs c 0x0fffffff).bind ?_
  rintro _ s₁ ⟨hview₁, he₁⟩
  have hput₁ := relinks_putEntry (w := s.view) hv hc.2 (by decide : 0x0fffffff < 0x10000000)
    (by simp [kindOf_last])
  rw [link_last, ← hview₁] at hput₁
  rw [addLink, taken]
  by_cases h0 : prev = 0
  · rw [if_neg (not_not_intro h0), if_pos h0]
    exact .pure ⟨hput₁, he₁⟩
  · rw [if_pos h0, if_neg h0]
    have hp := hprev.resolve_left h0
    refine (putFat_spec he₁.exact prev c).mono ?_
    rintro _ s' ⟨hview, he⟩
    refine ⟨?_, he₁.trans he⟩
    have hlt := hv.clusts
    have hput := relinks_putEntry (w := s₁.view) hv hp.2
      (Nat.lt_of_lt_of_le hc.2 (hlt.trans (by decide)) : c < 0x10000000)
      (by simp [kindOf_clust hv hc.1 hc.2])
    rw [link_clust hv hc.1 hc.2, hput₁.table, ← hview] at hput
    exact hput₁.trans hput

/-- **Extending a chain.** On a disk that works, and if all entries are valid, `stretch_chain`
always ends: it takes a cluster that was free, and links it to the chain; or no cluster is free
but perhaps the one taken last. -/
theorem stretchChain_spec (hv : v.Laid) (hs : s.Exact) (hvalid : v.Valid s.view)
    (hint : v.IsClust s.lastUsed) {prev : ℕ} (hprev : prev = 0 ∨ v.IsClust prev) :
    Ends (stretchChain v prev) s fun r s' => v.Stretch prev s r s' := by
  refine Ends.modify_bind ?_
  obtain ⟨r, s₁, hrun, hl, hfound⟩ :=
    findFree_spec (s := { s with infoDirty := true }) hv hs hvalid hint hprev
  have hpeek : State.Peeks { s with infoDirty := true } s₁ := Fallible.keeps_of_eq hrun
  rcases hfound with ⟨c, rfl, hc, hfree⟩ | ⟨rfl, hfull⟩
  · obtain ⟨_, s₂, hputs, hrel, he⟩ := puts_spec hv (hl.exact hs) hc hprev
    obtain ⟨_, s₃, hput, hlink⟩ := Fallible.exists_of_bind_ok hputs
    obtain ⟨_, s', hsync, h⟩ := syncFs_spec (v := v)
      (s := { s₂ with lastUsed := c, freeCnt := s₂.freeCnt - 1 }) he.exact
    refine ⟨.ok c, s', ?_, .inl ⟨c, rfl, hc, hfree, ?_⟩⟩
    · rw [Fallible.bind_of_ok hrun, Fallible.bind_of_ok hput, Fallible.bind_of_ok hlink,
        Fallible.modify_bind, Fallible.bind_of_ok hsync]
      rfl
    · rw [hl.view] at hrel
      have hinfo : s₂.infoDirty = true := he.infoDirty.trans hpeek.infoDirty
      refine ⟨hrel.table ▸ hrel.trans (h.relinks hv), h.exact, ?_, h.lastUsed, ?_, h.synced,
        h.counted hinfo, h.sect.trans (if_pos hinfo)⟩
      · exact h.data.trans (he.data.trans hpeek.data)
      · rw [h.freeCnt]
        exact congrArg (· - 1) (he.freeCnt.trans hpeek.freeCnt)
  · refine ⟨.error .full, s₁, Fallible.bind_of_error hrun, .inr ⟨rfl, hfull, hl.view,
      hl.exact hs, hpeek⟩⟩

/-- A caller gets a cluster or an error: no variable is used that was never assigned. -/
theorem stretchInto_spec (hv : v.Laid) (hs : s.Exact) (hvalid : v.Valid s.view)
    (hint : v.IsClust s.lastUsed) {prev : ℕ} (hprev : prev = 0 ∨ v.IsClust prev) (old : ℕ) :
    Ends (stretchInto v old prev) s fun r s' => v.Stretch prev s r s' := by
  refine stretchInto_ends (stretchChain_spec hv hs hvalid hint hprev) fun flags s' hend => ?_
  rcases hend with ⟨c, hr, -⟩ | ⟨hr, -⟩ <;> cases hr

/-! ## Section 9: A card -/

section Card

omit [v.ops.Reliable]

/-- The card with the flag that makes the driver write both FATs. -/
def pairVolume : Volume :=
  Bpb.volume workingOps [0x6d, 0x6e, 0x74] { cardBpb with extFlags := 0x80 } 0

instance : pairVolume.ops.Reliable := inferInstanceAs workingOps.Reliable

theorem pairVolume_laid : pairVolume.Laid where
  clusts := by decide
  fat c hc := by
    have hlt : c < 66560 := hc
    show 32 + c / 128 < _
    omega
  mirror c hc := by
    have hlt : c < 66560 := hc
    show 552 + c / 128 < _
    omega
  apart _ c hc d _ := by
    have hlt : c < 66560 := hc
    show 32 + c / 128 ≠ 552 + d / 128
    omega
  info c _ := by
    show 1 ≠ 32 + c / 128 ∧ (_ → 1 ≠ 552 + c / 128)
    omega

theorem removeChain_releases_card :
    Ends (removeChain pairVolume 2) cardLinked (fun r s' =>
      ∃ l, cardLinked.Releases pairVolume l s' ∧ pairVolume.Removal cardLinked.view 2 l r ∧
        (r = .ok ⟨⟩ → s'.Synced ∧ s'.Counted pairVolume)) ∧
      (removeChain pairVolume 2 cardLinked).1 = some (.ok ⟨⟩) :=
  ⟨removeChain_releases pairVolume_laid cardLinked_exact (by decide), rfl⟩

end Card

end Karnix.Fat
