import Karnix.Fat.Bookkeeping

/-!
# Where the bytes of a file are

The sectors of a file are those of the clusters of its chain, one cluster after the other.  They
are no sectors of the FATs, and two chains have none in common.  `fat_file_seek` follows the chain,
and extends it where it ends.
-/

namespace Karnix.Fat

open Karnix.Library
open Fallible (Succeeds Fails Ends)
open Link (Chain TakesFree freeCount)

variable (v : Volume)

/-! ## Section 1: The sectors of a chain -/

/-- The clusters have their sectors behind the FATs, and the numbers of these have 32 bits. -/
structure Volume.DataLaid : Prop where
  mask : v.clustMsk = v.sectPerClust - 1
  fits : v.dataSect + (v.clustCnt - 2) * v.sectPerClust ≤ 0x100000000
  behind : ∀ sect, v.Reserved sect → sect < v.dataSect

/-- Sector `i` of the clusters `l`. -/
def Volume.sectAt (l : List ℕ) (i : ℕ) : ℕ :=
  v.clustToSect (l.getD (i / v.sectPerClust) 0) + i % v.sectPerClust

/-- How many sectors the clusters `l` have. -/
def Volume.sectCnt (l : List ℕ) : ℕ := l.length * v.sectPerClust

/-- A sector of the clusters `l`. -/
def Volume.InData (l : List ℕ) (sect : ℕ) : Prop := ∃ i < v.sectCnt l, sect = v.sectAt l i

variable {v} {l l' : List ℕ} {c d i j k n sect : ℕ}

theorem sectPerClust_pos (v : Volume) : 0 < v.sectPerClust := Nat.two_pow_pos _

theorem div_lt_length (hi : i < v.sectCnt l) : i / v.sectPerClust < l.length :=
  (Nat.div_lt_iff_lt_mul (sectPerClust_pos v)).2 hi

theorem getD_mem (hi : i < v.sectCnt l) : l.getD (i / v.sectPerClust) 0 ∈ l := by
  have hlt := div_lt_length hi
  rw [List.getD_eq_getElem?_getD, List.getElem?_eq_getElem hlt]
  exact List.getElem_mem hlt

section Laid

variable (hv : v.Laid) (hd : v.DataLaid)
include hv hd

theorem clustToSect_eq (hc : v.IsClust c) :
    v.clustToSect c = v.dataSect + (c - 2) * v.sectPerClust ∧
      v.dataSect + (c - 2) * v.sectPerClust + v.sectPerClust ≤ 0x100000000 := by
  obtain ⟨h2, hlt⟩ := hc
  have hle := hv.clusts
  have hfits := hd.fits
  have hmul : (c - 2) * v.sectPerClust + v.sectPerClust ≤ (v.clustCnt - 2) * v.sectPerClust := by
    rw [← Nat.succ_mul]
    exact Nat.mul_le_mul_right _ (by omega)
  have hpos := sectPerClust_pos v
  have hsub : u32 (c + 0xfffffffe) = c - 2 := by
    rw [u32]
    omega
  refine ⟨?_, by omega⟩
  rw [Volume.clustToSect, hsub, ← Volume.sectPerClust, Nat.add_comm]
  exact Nat.mod_eq_of_lt (by omega)

/-- Sectors of the data area. -/
theorem sectAt_bounds (hl : ∀ c ∈ l, v.IsClust c) (hi : i < v.sectCnt l) :
    v.dataSect ≤ v.sectAt l i ∧ v.sectAt l i < 0x100000000 := by
  obtain ⟨heq, hle⟩ := clustToSect_eq hv hd (hl _ (getD_mem hi))
  have hmod := Nat.mod_lt i (sectPerClust_pos v)
  rw [Volume.sectAt, heq]
  omega

/-- They are not sectors of the FATs. -/
theorem not_reserved_sectAt (hl : ∀ c ∈ l, v.IsClust c) (hi : i < v.sectCnt l) :
    ¬ v.Reserved (v.sectAt l i) := fun h =>
  absurd (hd.behind _ h) (Nat.not_lt.2 (sectAt_bounds hv hd hl hi).1)

theorem not_inData_of_reserved (hl : ∀ c ∈ l, v.IsClust c) (h : v.Reserved sect) :
    ¬ v.InData l sect := by
  rintro ⟨i, hi, rfl⟩
  exact not_reserved_sectAt hv hd hl hi h

/-- The same sector is the same one of the same cluster. -/
theorem sectAt_eq_iff (hl : ∀ c ∈ l, v.IsClust c) (hl' : ∀ c ∈ l', v.IsClust c)
    (hi : i < v.sectCnt l) (hj : j < v.sectCnt l') (h : v.sectAt l i = v.sectAt l' j) :
    l.getD (i / v.sectPerClust) 0 = l'.getD (j / v.sectPerClust) 0 ∧
      i % v.sectPerClust = j % v.sectPerClust := by
  have hc := hl _ (getD_mem hi)
  have hc' := hl' _ (getD_mem hj)
  have hpos := sectPerClust_pos v
  have hmod := Nat.mod_lt i hpos
  have hmod' := Nat.mod_lt j hpos
  rw [Volume.sectAt, Volume.sectAt, (clustToSect_eq hv hd hc).1, (clustToSect_eq hv hd hc').1,
    Nat.add_assoc, Nat.add_assoc] at h
  have hsum := Nat.add_left_cancel h
  have hclust : l.getD (i / v.sectPerClust) 0 - 2 = l'.getD (j / v.sectPerClust) 0 - 2 := by
    have hdiv := congrArg (· / v.sectPerClust) hsum
    simpa only [Nat.mul_add_div hpos, Nat.mul_comm _ v.sectPerClust, Nat.div_eq_of_lt hmod,
      Nat.div_eq_of_lt hmod', Nat.add_zero] using hdiv
  rw [hclust] at hsum
  have hge := hc.1
  have hge' := hc'.1
  exact ⟨by omega, Nat.add_left_cancel hsum⟩

/-- In a chain each sector has its place. -/
theorem sectAt_injective (hl : ∀ c ∈ l, v.IsClust c) (hnodup : l.Nodup) (hi : i < v.sectCnt l)
    (hj : j < v.sectCnt l) (h : v.sectAt l i = v.sectAt l j) : i = j := by
  obtain ⟨hclust, hmod⟩ := sectAt_eq_iff hv hd hl hl hi hj h
  have hlt := div_lt_length hi
  have hlt' := div_lt_length hj
  rw [List.getD_eq_getElem?_getD, List.getElem?_eq_getElem hlt, List.getD_eq_getElem?_getD,
    List.getElem?_eq_getElem hlt'] at hclust
  have hdiv := (hnodup.getElem_inj_iff).1 hclust
  rw [← Nat.div_add_mod i v.sectPerClust, ← Nat.div_add_mod j v.sectPerClust, hdiv, hmod]

/-- Chains that share no cluster share no sector. -/
theorem not_inData_of_disjoint (hl : ∀ c ∈ l, v.IsClust c) (hl' : ∀ c ∈ l', v.IsClust c)
    (hdisj : l.Disjoint l') (hi : i < v.sectCnt l) : ¬ v.InData l' (v.sectAt l i) := by
  rintro ⟨j, hj, heq⟩
  obtain ⟨hclust, -⟩ := sectAt_eq_iff hv hd hl hl' hi hj heq
  exact hdisj (getD_mem hi) (hclust ▸ getD_mem hj)

end Laid

/-- A chain that is extended keeps its sectors. -/
theorem sectAt_grown (hgrows : l <+: l') (hi : i < v.sectCnt l) : v.sectAt l' i = v.sectAt l i := by
  have hlt := div_lt_length hi
  rw [Volume.sectAt, Volume.sectAt, List.getD_eq_getElem?_getD, List.getD_eq_getElem?_getD,
    List.getElem?_eq_getElem hlt, List.getElem?_eq_getElem (hlt.trans_le hgrows.length_le),
    hgrows.getElem hlt]

theorem sectCnt_grown (hgrows : l <+: l') : v.sectCnt l ≤ v.sectCnt l' :=
  Nat.mul_le_mul_right _ hgrows.length_le

theorem inData_grown (hgrows : l <+: l') (h : v.InData l sect) : v.InData l' sect := by
  obtain ⟨i, hi, rfl⟩ := h
  exact ⟨i, hi.trans_le (sectCnt_grown hgrows), (sectAt_grown hgrows hi).symm⟩

/-! ## Section 2: Following a chain -/

/-- The chain `l` of the chains `L` has grown to `l'`, and the books are still right. -/
structure Grown (v : Volume) (L : List (List ℕ)) (l : List ℕ) (s : State) (L' : List (List ℕ))
    (l' : List ℕ) (s' : State) : Prop where
  books : s'.Books v L'
  mem : l' ∈ L'
  grows : l <+: l'
  others : ∀ m ∈ L, m ≠ l → m ∈ L' ∧ m ≠ l'
  room : l'.length + freeCount (v.table s'.view) v.clusts =
    l.length + freeCount (v.table s.view) v.clusts
  takes : TakesFree (v.table s.view) l (v.table s'.view) l'
  frame : v.Frame s.view s'.view
  data : s'.dataWrites = s.dataWrites

variable {L L' L'' : List (List ℕ)} {l'' : List ℕ} {s s₁ s₂ : State} {p old : ℕ}

/-- Something has been looked at. -/
theorem Grown.of_view (h : s₁.Books v L) (hl : l ∈ L) (hview : s₁.view = s.view)
    (hdata : s₁.dataWrites = s.dataWrites) : Grown v L l s L l s₁ :=
  ⟨h, hl, List.prefix_rfl, fun _ hm hne => ⟨hm, hne⟩, by rw [hview], hview ▸ .refl _ l,
    hview ▸ .refl v s.view, hdata⟩

theorem Grown.trans (h : Grown v L l s L' l' s₁) (h' : Grown v L' l' s₁ L'' l'' s₂) :
    Grown v L l s L'' l'' s₂ := by
  refine ⟨h'.books, h'.mem, h.grows.trans h'.grows, fun m hm hne => ?_, h'.room.trans h.room,
    h.takes.trans h'.takes, h.frame.trans h'.frame, h'.data.trans h.data⟩
  obtain ⟨hm', hne'⟩ := h.others m hm hne
  exact h'.others m hm' hne'

variable [v.ops.Reliable]

/-- An entry is looked at. -/
theorem getFat_books {kind : Kind} (h : s.Books v L) (hkind : v.kind s.view p = some kind) :
    Succeeds (getFat v p) s fun r s' => r = (v.entry s.view p, kind) ∧ s'.view = s.view ∧
      s'.Books v L ∧ s'.sect = Volume.entrySect v.fatSect p ∧ s'.dataWrites = s.dataWrites := by
  obtain ⟨r, s', hrun, hr, hview, hsect, he⟩ := getFat_edits h.exact hkind
  exact ⟨r, s', hrun, hr, hview, h.of_peek hview he.exact (Fallible.keeps_of_eq hrun), hsect,
    he.data⟩

/-- The end of a chain is extended, if there is a free cluster besides the one taken last. -/
theorem extend_grown (hv : v.Laid) (h : s.Books v L) (hl : l ∈ L) (hp : l.getLast? = some p)
    (hfree : 2 ≤ freeCount (v.table s.view) v.clusts) :
    Succeeds (stretchInto v old p) s fun d s' =>
      Grown v L l s ((l ++ [d]) :: L.erase l) (l ++ [d]) s' ∧ s'.sect = v.infoSect := by
  have hpl : p ∈ l := List.mem_of_getLast? hp
  have hclust := h.isClust hl hpl
  have h0 : p ≠ 0 := fun h0 => absurd hclust.1 (by omega)
  obtain ⟨c, hchain⟩ := h.keeps.chain l hl
  obtain ⟨r, s', hrun, hok, -, hframe⟩ := extend_books hv h hl hp
  obtain ⟨r', s'', hrun', hend⟩ :=
    stretchInto_spec hv h.exact h.valid h.hint (.inr hclust : p = 0 ∨ v.IsClust p) old
  rw [hrun] at hrun'
  cases hrun'
  rcases hend with ⟨d, rfl, hd, hdfree, ht⟩ | ⟨rfl, hfull, -⟩
  · refine ⟨d, s', hrun, ⟨hok d rfl, List.mem_cons_self, List.prefix_append l [d], fun m hm hne =>
      ⟨List.mem_cons_of_mem _ ((List.mem_erase_of_ne hne).2 hm), fun heq => ?_⟩, ?_, ?_,
      hframe, ht.data⟩, ht.sect⟩
    · refine hne (h.keeps.eq_of_mem hm hl (heq ▸ List.mem_append_left _ hpl) hpl)
    · rw [ht.table, List.length_append, List.length_singleton,
        freeCount_taken h0 hd (hchain.last_of_getLast? hp) hdfree]
      omega
    · rw [ht.table, taken, if_neg h0]
      exact .append hdfree
  · -- one of the free clusters is not the one taken last
    obtain ⟨a, ha, b, hb, hne⟩ := Finset.one_lt_card.1 hfree
    rw [Finset.mem_filter, mem_clusts] at ha hb
    exact absurd ((hfull a ha.1 ha.2).trans (hfull b hb.1 hb.2).symm) hne

/-- **Step lemma.** The cluster behind number `k` of a chain. -/
theorem nextClust_grown (hv : v.Laid) (h : s.Books v L) (hl : l ∈ L) (hk : l[k]? = some p)
    (hroom : k + 3 ≤ l.length + freeCount (v.table s.view) v.clusts) :
    Succeeds (nextClust v p) s fun d s' => ∃ L' l',
      Grown v L l s L' l' s' ∧ l'[k + 1]? = some d ∧ v.Reserved s'.sect := by
  have hpl : p ∈ l := List.mem_of_getElem? hk
  have hclust := h.isClust hl hpl
  obtain ⟨c, hchain⟩ := h.keeps.chain l hl
  have hreserved : v.Reserved (Volume.entrySect v.fatSect p) :=
    .inr ⟨p, hclust.2, .inl (hv.entrySect_fat hclust.2)⟩
  have hlt := (List.getElem?_eq_some_iff.1 hk).1
  rcases Nat.lt_or_ge (k + 1) l.length with hnext | hend
  · have htable : v.table s.view p = .next l[k + 1] := by
      rw [← (List.getElem?_eq_some_iff.1 hk).2]
      exact hchain.link_getElem hnext
    obtain ⟨hkind, hentry⟩ := kind_of_table_next htable
    refine (getFat_books h hkind).bind fun r s₁ ⟨hr, hview, h₁, hsect, hdata⟩ => ?_
    subst hr
    refine .pure ⟨L, l, .of_view h₁ hl hview hdata, ?_, hsect ▸ hreserved⟩
    rw [hentry, List.getElem?_eq_getElem hnext]
  · have hlast : l.getLast? = some p := by
      rw [List.getLast?_eq_getElem?, show l.length - 1 = k by omega, hk]
    have hkind := kind_of_table_last (hchain.last_of_getLast? hlast)
    refine (getFat_books h hkind).bind fun r s₁ ⟨hr, hview, h₁, hsect, hdata⟩ => ?_
    subst hr
    refine (extend_grown hv h₁ hl hlast (by rw [hview]; omega)).mono fun d s' ⟨hg, hsect'⟩ => ?_
    refine ⟨_, _, (Grown.of_view h₁ hl hview hdata).trans hg, ?_, .inl hsect'⟩
    rw [List.getElem?_append_right hend, show k + 1 - l.length = 0 by omega]
    rfl

/-- **Run lemma.** `n` clusters further on. -/
theorem followChain_grown (hv : v.Laid) {t : Session} (h : t.fat.Books v L) (hl : l ∈ L)
    (hk : l[k]? = some t.file.clust)
    (hroom : n ≠ 0 → k + n + 2 ≤ l.length + freeCount (v.table t.fat.view) v.clusts) :
    Succeeds (followChain v n) t fun _ t' => ∃ L' l' d,
      Grown v L l t.fat L' l' t'.fat ∧ t'.file = { t.file with clust := d } ∧
        l'[k + n]? = some d ∧ (v.Reserved t'.fat.sect ∨ t'.fat = t.fat ∧ l' = l) := by
  induction n generalizing t L l k with
  | zero => exact .pure ⟨L, l, t.file.clust, .of_view h hl rfl rfl, rfl, hk, .inr ⟨rfl, rfl⟩⟩
  | succ n ih =>
    have hroom' := hroom (Nat.succ_ne_zero n)
    have hnext := nextClust_grown hv h hl hk (by omega)
    have hstep : Succeeds (onFat (nextClust v t.file.clust)) t fun d t₁ => ∃ L' l',
        t₁.file = t.file ∧ Grown v L l t.fat L' l' t₁.fat ∧ l'[k + 1]? = some d ∧
          v.Reserved t₁.fat.sect :=
      hnext.zoom fun _ _ ⟨L', l', hg, hd, hres⟩ => ⟨L', l', rfl, hg, hd, hres⟩
    refine Succeeds.read_bind (hstep.bind ?_)
    rintro d t₁ ⟨L', l', hfile, hg, hd, hres⟩
    refine Succeeds.modify_bind ?_
    have hroom₁ := hg.room
    refine (ih (t := { t₁ with file := { t₁.file with clust := d } }) hg.books hg.mem hd
      fun _ => ?_).mono ?_
    · show k + 1 + n + 2 ≤ l'.length + freeCount (v.table t₁.fat.view) v.clusts
      omega
    · rintro _ t' ⟨L'', l'', e, hg', hfile', he, hres'⟩
      refine ⟨L'', l'', e, hg.trans hg', by rw [hfile', hfile], ?_, .inl ?_⟩
      · rw [← he, Nat.add_right_comm, Nat.add_assoc]
      · rcases hres' with hres' | ⟨hfat, -⟩
        · exact hres'
        · rw [hfat]
          exact hres

end Karnix.Fat
