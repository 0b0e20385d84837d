import Karnix.Fat.Mount
import Karnix.Fat.Steps
import Karnix.Library.Orbits

/-!
# Allocating clusters

`stretch_chain` looks for a free cluster behind the one it allocated last, which the mount takes
from `FsInfo` as it is.  The search ends when it is back at that cluster: it never looks at the
cluster itself, and does not end at all if the cluster is none of those that it passes.  It passes
the clusters that the FAT has entries for, of which the last ones may have no sectors.
-/

namespace Karnix.Fat

open Karnix.Library
open Program (Keeps)
open Fallible (Succeeds Fails Ends keeps_then)
open Orbit (FirstAt)

/-! ## Section 1: What an allocation is to do -/

/-- The clusters of a volume: the FAT has an entry for them, and their sectors lie inside. -/
def Bpb.DataCluster (bpb : Bpb) (c : ℕ) : Prop :=
  2 ≤ c ∧ c < 128 * bpb.sectPerFat32 ∧
    bpb.resSectCnt + bpb.fatCnt * bpb.sectPerFat32 + (c - 1) * bpb.sectPerClust ≤ bpb.sectCnt32

instance (bpb : Bpb) (c : ℕ) : Decidable (bpb.DataCluster c) := inferInstanceAs (Decidable (_ ∧ _))

variable (bpb : Bpb) (v : Volume) (prev : ℕ) (s : State)

/-- A cluster of the volume is free, in sectors with the contents `w`. -/
def Bpb.HasFree (w : ℕ → Sector) : Prop := ∃ c, bpb.DataCluster c ∧ v.kind w c = some .free

/-- On a disk that works, `stretch_chain` ends; it returns no variable that was never assigned; it
returns a free cluster of the volume; it returns `FAT_ERR_FULL` if and only if there is none; and
with an error nothing has changed. -/
def Allocates : Prop :=
  Ends (stretchChain v prev) s fun r s' =>
    (∀ flags, r ≠ .error (.stale flags)) ∧
    (∀ c, r = .ok c → v.kind s.view c = some .free ∧ bpb.DataCluster c) ∧
    (r = .error .full ↔ ¬ bpb.HasFree v s.view) ∧
    ∀ e, r = .error e → s'.view = s.view

/-- The puts of `stretch_chain`: the end mark of the new cluster, and the link to it. -/
def puts (clust : ℕ) : FatM PUnit := do
  putFat v clust 0x0fffffff
  addLink v prev clust

/-- A cluster is found, and one of the puts fails. -/
def PutFails : Prop :=
  ∃ c s₁ e s₂, findFree v prev { s with infoDirty := true } = (some (.ok c), s₁) ∧
    puts v prev c s₁ = (some (.error e), s₂)

/-- The puts are done, and `sync_fs` fails. -/
def SyncFails : Prop :=
  ∃ c s₁ s₂ e s₃, findFree v prev { s with infoDirty := true } = (some (.ok c), s₁) ∧
    puts v prev c s₁ = (some (.ok ⟨⟩), s₂) ∧
    syncFs v { s₂ with lastUsed := c, freeCnt := s₂.freeCnt - 1 } = (some (.error e), s₃)

/-- Whatever the disk does: with an error other than a failed put nothing has changed. -/
def ErrorsSafe : Prop :=
  ∀ e s', stretchChain v prev s = (some (.error e), s') →
    PutFails v prev s ∨ s'.view = s.view

/-! ## Section 2: When it does so -/

/-- What ends the search behind the cluster `hint`: this cluster, a free one, or an entry of the
FAT that is none. -/
def Volume.Stops (w : ℕ → Sector) (hint c : ℕ) : Prop :=
  c = hint ∨ v.kind w c = some .free ∨ v.kind w c = none

/-- The first cluster behind the hint that ends the search is the hint, and no cluster is free;
or a free one, of the volume; or it has no valid entry, and is not the very first if `flags` has
no value yet, and some cluster is free. -/
def SearchFits (w : ℕ → Sector) (hint : ℕ) (assigned : Prop) : Prop :=
  ∃ k, FirstAt v.succClust (v.Stops w hint) (v.succClust hint) k ∧
    if v.succClust^[k] (v.succClust hint) = hint then ¬ bpb.HasFree v w
    else if v.kind w (v.succClust^[k] (v.succClust hint)) = some .free then
      bpb.DataCluster (v.succClust^[k] (v.succClust hint))
    else bpb.HasFree v w ∧ (k = 0 → assigned)

/-- The cluster behind the end of the chain comes first. -/
def AllocationFits (w : ℕ → Sector) (hint : ℕ) : Prop :=
  if prev = 0 then SearchFits bpb v w hint False
  else if v.kind w (v.succClust prev) = some .free then bpb.DataCluster (v.succClust prev)
  else if v.kind w (v.succClust prev) = none then bpb.HasFree v w
  else SearchFits bpb v w hint True

/-! ## Section 3: Looking at entries -/

/-- The buffer stands for its sector.  It does so from the first sector on that is read behind
`fat_mount`, as long as no read fails. -/
def State.Exact : Prop := s.cache.Coherent Set.univ

/-- What looking at an entry does. -/
structure State.Looks (s s' : State) : Prop where
  view : s'.view = s.view
  exact : s.Exact → s'.Exact
  lastUsed : s'.lastUsed = s.lastUsed

namespace State.Looks

theorem refl (s : State) : Looks s s := ⟨rfl, id, rfl⟩

theorem trans {s₁ s₂ s₃ : State} (h : Looks s₁ s₂) (h' : Looks s₂ s₃) : Looks s₁ s₃ :=
  ⟨h'.view.trans h.view, h'.exact ∘ h.exact, h'.lastUsed.trans h.lastUsed⟩

end State.Looks

/-- The mark that `FsInfo` is to be written. -/
theorem looks_mark : s.Looks { s with infoDirty := true } := ⟨rfl, id, rfl⟩

section Reliable

variable {v s} {w : ℕ → Sector} {c h n : ℕ} [v.ops.Reliable]

theorem updateBuf_looks (hs : s.Exact) (sect : ℕ) :
    Succeeds (updateBuf v sect) s fun _ s' => s.Looks s' ∧ s'.buf = s.view sect := by
  refine (updateBuf_spec v sect).mono fun _ s' ⟨h, _⟩ => ⟨⟨?_, fun _ => ?_, h.lastUsed⟩, ?_⟩
  · rw [State.view, h.cache, WriteBack.view_load, State.view]
  · rw [State.Exact, h.cache]
    exact WriteBack.Coherent.load hs sect
  · exact (congrArg WriteBack.line h.cache).trans
      (WriteBack.Coherent.line_load hs (Set.mem_univ sect))

/-- A valid entry is returned with its kind, and the view of the disk stays. -/
theorem getFat_looks {kind : Kind} (hs : s.Exact) (hk : v.kind s.view c = some kind) :
    Succeeds (getFat v c) s fun r s' => r = (v.entry s.view c, kind) ∧ s.Looks s' := by
  refine (updateBuf_looks hs _).bind fun _ s₁ ⟨hl, hbuf⟩ => ?_
  refine Succeeds.read_bind ?_
  have hentry : entryVal (item s₁.buf (c % 128)) = v.entry s.view c := by
    rw [hbuf]
    rfl
  simp only [id, hentry]
  rw [show v.kindOf (v.entry s.view c) = some kind from hk]
  exact .pure ⟨rfl, hl⟩

theorem getFat_invalid (hs : s.Exact) (hk : v.kind s.view c = none) :
    Fails (getFat v c) s .broken fun s' => s.Looks s' := by
  refine (updateBuf_looks hs _).bind_fails fun _ s₁ ⟨hl, hbuf⟩ => ?_
  refine Fails.read_bind ?_
  have hentry : entryVal (item s₁.buf (c % 128)) = v.entry s.view c := by
    rw [hbuf]
    rfl
  simp only [id, hentry]
  rw [show v.kindOf (v.entry s.view c) = none from hk]
  exact .throw hl

/-! ## Section 4: The search -/

omit [v.ops.Reliable] in
/-- A round that has looked at the entry. -/
theorem scan_looked {flags : Option Kind} {r : ℕ × Kind} {s' : State}
    (hc : v.succClust c ≠ s.lastUsed) (hrun : getFat v (v.succClust c) s = (some (.ok r), s')) :
    scan v (n + 1) c flags s =
      (if r.2 = .free then pure (v.succClust c) else scan v n (v.succClust c) (some r.2) :
        FatM ℕ) s' := by
  cases flags <;>
  · rw [scan, Fallible.read_bind]
    simp only [id, hc, if_false]
    rw [Fallible.bind_of_ok (Fallible.attempt_of_some hrun)]

/-- **Step lemma.** A cluster that does not end the search. -/
theorem scan_skip (flags : Option Kind) (hs : s.Exact)
    (hc : ¬ v.Stops s.view s.lastUsed (v.succClust c)) :
    ∃ kind s', s.Looks s' ∧
      scan v (n + 1) c flags s = scan v n (v.succClust c) (some kind) s' := by
  obtain ⟨hhint, hfree, hvalid⟩ : v.succClust c ≠ s.lastUsed ∧
      v.kind s.view (v.succClust c) ≠ some .free ∧ v.kind s.view (v.succClust c) ≠ none := by
    simpa only [Volume.Stops, not_or] using hc
  obtain ⟨kind, hkind⟩ := Option.ne_none_iff_exists'.1 hvalid
  obtain ⟨_, s', hrun, rfl, hl⟩ := getFat_looks hs hkind
  refine ⟨kind, s', hl, ?_⟩
  have hnot : kind ≠ .free := fun h => hfree (by rw [hkind, h])
  exact (scan_looked hhint hrun).trans (congrFun (if_neg hnot) s')

/-- **Run lemma.** Clusters that do not end the search. -/
theorem scan_skips {k : ℕ} (flags : Option Kind) (hs : s.Exact)
    (hk : ∀ j < k, ¬ v.Stops s.view s.lastUsed (v.succClust^[j] (v.succClust c))) :
    ∃ flags' s', s.Looks s' ∧ (k = 0 → flags' = flags) ∧ (k ≠ 0 → ∃ kind, flags' = some kind) ∧
      scan v (n + k) c flags s = scan v n (v.succClust^[k] c) flags' s' := by
  induction k generalizing c flags s with
  | zero => exact ⟨flags, s, .refl s, fun _ => rfl, fun h => absurd rfl h, rfl⟩
  | succ k ih =>
    obtain ⟨kind, s₁, hl, hrun⟩ := scan_skip (n := n + k) flags hs (hk 0 (Nat.succ_pos k))
    have hk' : ∀ j < k, ¬ v.Stops s₁.view s₁.lastUsed
        (v.succClust^[j] (v.succClust (v.succClust c))) := by
      intro j hj
      rw [hl.view, hl.lastUsed]
      exact hk (j + 1) (Nat.succ_lt_succ hj)
    obtain ⟨flags', s', hl', hzero, hsucc, hrun'⟩ := ih (some kind) (hl.exact hs) hk'
    refine ⟨flags', s', hl.trans hl', fun h => absurd h (Nat.succ_ne_zero k), fun _ => ?_, ?_⟩
    · by_cases h0 : k = 0
      · exact ⟨kind, hzero h0⟩
      · exact hsucc h0
    · exact hrun.trans hrun'

omit [v.ops.Reliable] in
/-- Back at the hint the search ends with an error, as every cluster has been looked at. -/
theorem scan_hint (flags : Option Kind) (hc : v.succClust c = s.lastUsed) :
    Fails (scan v (n + 1) c flags) s .full fun s' => s.Looks s' := by
  refine ⟨s, ?_, .refl s⟩
  cases flags <;>
  · rw [scan, Fallible.read_bind]
    simp only [id, hc, if_true]
    rfl

/-- A free cluster ends the search, and is its result. -/
theorem scan_free (flags : Option Kind) (hs : s.Exact) (hc : v.succClust c ≠ s.lastUsed)
    (hfree : v.kind s.view (v.succClust c) = some .free) :
    Succeeds (scan v (n + 1) c flags) s fun r s' => r = v.succClust c ∧ s.Looks s' := by
  obtain ⟨_, s', hrun, rfl, hl⟩ := getFat_looks hs hfree
  exact ⟨v.succClust c, s', scan_looked hc hrun, rfl, hl⟩

/-- An entry that is not valid: the flags of the cluster before it are returned. -/
theorem scan_invalid (kind : Kind) (hs : s.Exact) (hc : v.succClust c ≠ s.lastUsed)
    (hinvalid : v.kind s.view (v.succClust c) = none) :
    Fails (scan v (n + 1) c (some kind)) s (.flags kind) fun s' => s.Looks s' := by
  obtain ⟨s', hrun, hl⟩ := getFat_invalid hs hinvalid
  refine ⟨s', ?_, hl⟩
  rw [scan, Fallible.read_bind]
  simp only [id, hc, if_false]
  rw [Fallible.bind_of_ok (Fallible.attempt_of_some hrun)]
  rfl

/-- They have not been assigned yet. -/
theorem scan_unassigned (hs : s.Exact) (hc : v.succClust c ≠ s.lastUsed)
    (hinvalid : v.kind s.view (v.succClust c) = none) :
    ∃ flags, Fails (scan v (n + 1) c none) s (.stale flags) fun s' => s.Looks s' := by
  obtain ⟨s', hrun, hl⟩ := getFat_invalid hs hinvalid
  refine ⟨v.ops.staleFlags s'.calls, s', ?_, hl⟩
  rw [scan, Fallible.read_bind]
  simp only [id, hc, if_false]
  rw [Fallible.bind_of_ok (Fallible.attempt_of_some hrun)]
  rfl

omit [v.ops.Reliable] in
/-- The clusters that the search passes. -/
theorem succClust_iterate_mem (k : ℕ) :
    v.succClust^[k] (v.succClust c) ∈ insert 2 (Finset.range v.clustCnt) := by
  have hsucc : ∀ c, v.succClust c ∈ insert 2 (Finset.range v.clustCnt) := by
    intro c
    rw [Volume.succClust]
    split
    · exact Finset.mem_insert_self 2 _
    · rename_i hlt
      exact Finset.mem_insert_of_mem (Finset.mem_range.2 (Nat.not_le.1 hlt))
  rw [← Function.iterate_succ_apply, Function.iterate_succ_apply']
  exact hsucc _

/-- The search gets to the cluster that ends it: there are rounds enough. -/
theorem scanAll_reaches {k : ℕ} (flags : Option Kind) (hs : s.Exact)
    (hk : FirstAt v.succClust (v.Stops s.view s.lastUsed) (v.succClust s.lastUsed) k) :
    ∃ n flags' s', s.Looks s' ∧ (k = 0 → flags' = flags) ∧ (k ≠ 0 → ∃ kind, flags' = some kind) ∧
      scanAll v flags s = scan v (n + 1) (v.succClust^[k] s.lastUsed) flags' s' := by
  have hlt : k < v.clustCnt + 1 := by
    refine Nat.lt_of_lt_of_le (hk.lt_card succClust_iterate_mem) ?_
    refine (Finset.card_insert_le 2 _).trans ?_
    rw [Finset.card_range]
  obtain ⟨flags', s', hl, hzero, hsucc, hrun⟩ :=
    scan_skips (n := v.clustCnt - k + 1) flags hs hk.2
  have hfuel : v.clustCnt - k + 1 + k = v.clustCnt + 1 := by omega
  rw [hfuel] at hrun
  exact ⟨v.clustCnt - k, flags', s', hl, hzero, hsucc, hrun⟩

/-- If there is none, the search goes round forever. -/
theorem scanAll_endless (flags : Option Kind) (hs : s.Exact)
    (hnot : ∀ k, ¬ v.Stops s.view s.lastUsed (v.succClust^[k] (v.succClust s.lastUsed))) :
    ∃ s', scanAll v flags s = (none, s') := by
  obtain ⟨flags', s', -, -, -, hrun⟩ :=
    scan_skips (n := 0) (k := v.clustCnt + 1) flags hs fun j _ => hnot j
  rw [Nat.zero_add] at hrun
  exact ⟨s', hrun⟩

/-! ## Section 5: Behind the search -/

theorem putFat2_succeeds (fatSect val : ℕ) :
    Succeeds (putFat2 v fatSect c val) s fun _ _ => True :=
  (updateBuf_spec v _).bind fun _ _ _ => .modify trivial

theorem putFat_succeeds (val : ℕ) : Succeeds (putFat v c val) s fun _ _ => True := by
  rw [putFat]
  split
  · exact (putFat2_succeeds _ val).bind fun _ _ _ => putFat2_succeeds _ val
  · exact putFat2_succeeds _ val

theorem addLink_succeeds (prev : ℕ) : Succeeds (addLink v prev c) s fun _ _ => True := by
  rw [addLink]
  split
  · exact putFat_succeeds c
  · exact .pure trivial

theorem syncFs_succeeds : Succeeds (syncFs v) s fun _ _ => True := by
  refine (syncBuf_spec v).bind fun _ s₁ _ => Succeeds.read_bind ?_
  split
  · refine (updateBuf_spec v _).bind fun _ s₂ _ => Succeeds.read_bind ?_
    refine Succeeds.modify_bind ((syncBuf_spec v).bind fun _ s₃ _ => ?_)
    exact .modify trivial
  · exact .pure trivial

variable {prev : ℕ}

omit [v.ops.Reliable] in
/-- An error that a caller gets is one that was returned. -/
theorem stretchChain_of_stretchInto_error {old : ℕ} {e : Err} {s' : State}
    (h : stretchInto v old prev s = (some (.error e), s')) :
    stretchChain v prev s = (some (.error e), s') := by
  rcases hrun : stretchChain v prev s with ⟨_ | e₁ | c, s₁⟩
  · rw [stretchInto, Fallible.bind_of_none (Fallible.attempt_of_none hrun)] at h
    cases h
  · rw [stretchInto, Fallible.bind_of_ok (Fallible.attempt_of_some hrun)] at h
    cases e₁
    case stale flags =>
      dsimp only at h
      split at h <;> cases h
      rfl
    all_goals
      cases h
      rfl
  · rw [stretchInto, Fallible.bind_of_ok (Fallible.attempt_of_some hrun)] at h
    cases h

/-- Once a cluster is found it is returned. -/
theorem stretchChain_of_found
    (h : Succeeds (findFree v prev) { s with infoDirty := true } fun r _ => r = c) :
    Succeeds (stretchChain v prev) s fun r _ => r = c := by
  refine Succeeds.modify_bind (h.bind fun r s₁ hr => ?_)
  refine (putFat_succeeds _).bind fun _ s₂ _ => (addLink_succeeds prev).bind fun _ s₃ _ => ?_
  exact Succeeds.modify_bind (syncFs_succeeds.bind fun _ s₄ _ => .pure hr)

omit [v.ops.Reliable] in
/-- If a cluster or an error is returned, it is the caller's. -/
theorem stretchInto_ends {old : ℕ} {Q : Except Err ℕ → State → Prop}
    (h : Ends (stretchChain v prev) s Q) (hstale : ∀ flags s', ¬ Q (.error (.stale flags)) s') :
    Ends (stretchInto v old prev) s Q := by
  obtain ⟨r, s', hrun, hQ⟩ := h
  refine ⟨r, s', ?_, hQ⟩
  rw [stretchInto, Fallible.bind_of_ok (Fallible.attempt_of_some hrun)]
  rcases r with e | c
  · cases e
    case stale flags => exact absurd hQ (hstale flags s')
    all_goals rfl
  · rfl

omit [v.ops.Reliable] in
/-- An error of the search is returned. -/
theorem stretchChain_of_error {e : Err} {Q : State → Prop}
    (h : Fails (findFree v prev) { s with infoDirty := true } e Q) :
    Fails (stretchChain v prev) s e Q :=
  Fails.modify_bind h.bind

omit [v.ops.Reliable] in
theorem stretchChain_of_none (h : ∃ s', findFree v prev { s with infoDirty := true } = (none, s')) :
    ∃ s', stretchChain v prev s = (none, s') := by
  obtain ⟨s', hrun⟩ := h
  refine ⟨s', ?_⟩
  rw [stretchChain, Fallible.modify_bind]
  exact Fallible.bind_of_none hrun

/-! ## Section 6: What each outcome is worth -/

variable {bpb : Bpb}

omit [v.ops.Reliable] in
theorem allocates_of_ok (h : Succeeds (stretchChain v prev) s fun r _ => r = c)
    (hfree : v.kind s.view c = some .free) : Allocates bpb v prev s ↔ bpb.DataCluster c := by
  obtain ⟨_, s', hrun, rfl⟩ := h
  constructor
  · rintro ⟨r, s₁, hrun', -, hok, -⟩
    rw [hrun] at hrun'
    cases hrun'
    exact (hok _ rfl).2
  · intro hdata
    refine ⟨_, s', hrun, by simp, ?_, ⟨by simp, fun hnone => absurd ⟨_, hdata, hfree⟩ hnone⟩,
      by simp⟩
    rintro _ ⟨⟩
    exact ⟨hfree, hdata⟩

omit [v.ops.Reliable] in
theorem allocates_of_full
    (h : Fails (stretchChain v prev) s .full fun s' => s'.view = s.view) :
    Allocates bpb v prev s ↔ ¬ bpb.HasFree v s.view := by
  obtain ⟨s', hrun, hview⟩ := h
  constructor
  · rintro ⟨r, s₁, hrun', -, -, hfull, -⟩
    rw [hrun] at hrun'
    cases hrun'
    exact hfull.1 rfl
  · exact fun hnone => ⟨_, s', hrun, by simp, by simp, ⟨fun _ => hnone, fun _ => rfl⟩,
      fun _ _ => hview⟩

omit [v.ops.Reliable] in
theorem allocates_of_error {e : Err} (he : e ≠ .full) (hstale : ∀ flags, e ≠ .stale flags)
    (h : Fails (stretchChain v prev) s e fun s' => s'.view = s.view) :
    Allocates bpb v prev s ↔ bpb.HasFree v s.view := by
  obtain ⟨s', hrun, hview⟩ := h
  constructor
  · rintro ⟨r, s₁, hrun', -, -, hfull, -⟩
    rw [hrun] at hrun'
    cases hrun'
    by_contra hnone
    exact he (Except.error.inj (hfull.2 hnone))
  · intro hfree
    refine ⟨_, s', hrun, fun flags h => hstale flags (Except.error.inj h), by simp,
      ⟨fun h => ?_, fun hnone => absurd hfree hnone⟩, fun _ _ => hview⟩
    exact absurd (Except.error.inj h) he

omit [v.ops.Reliable] in
theorem not_allocates_of_stale {flags : Byte} {Q : State → Prop}
    (h : Fails (stretchChain v prev) s (.stale flags) Q) : ¬ Allocates bpb v prev s := by
  obtain ⟨s', hrun, -⟩ := h
  rintro ⟨r, s₁, hrun', hstale, -⟩
  rw [hrun] at hrun'
  cases hrun'
  exact hstale flags rfl

omit [v.ops.Reliable] in
theorem not_allocates_of_none (h : ∃ s', stretchChain v prev s = (none, s')) :
    ¬ Allocates bpb v prev s := by
  obtain ⟨s', hrun⟩ := h
  rintro ⟨r, s₁, hrun', -⟩
  rw [hrun] at hrun'
  cases hrun'

omit [v.ops.Reliable] in
/-- The place where the search ends is the only one. -/
theorem searchFits_iff {k d : ℕ} {assigned : Prop}
    (hk : FirstAt v.succClust (v.Stops w h) (v.succClust h) k)
    (hd : v.succClust^[k] (v.succClust h) = d) :
    SearchFits bpb v w h assigned ↔
      if d = h then ¬ bpb.HasFree v w
      else if v.kind w d = some .free then bpb.DataCluster d
      else bpb.HasFree v w ∧ (k = 0 → assigned) := by
  rw [← hd]
  refine ⟨?_, fun hbody => ⟨k, hk, hbody⟩⟩
  rintro ⟨k', hk', hbody⟩
  obtain rfl := hk.unique hk'
  exact hbody

/-- The round that ends the search. -/
theorem allocates_of_stop {flags : Option Kind} {s₁ : State} (hs : s.Exact) (hl : s.Looks s₁)
    (hfind : findFree v prev { s with infoDirty := true } = scan v (n + 1) c flags s₁)
    (hstop : v.Stops s.view s.lastUsed (v.succClust c)) :
    Allocates bpb v prev s ↔
      if v.succClust c = s.lastUsed then ¬ bpb.HasFree v s.view
      else if v.kind s.view (v.succClust c) = some .free then bpb.DataCluster (v.succClust c)
      else bpb.HasFree v s.view ∧ flags ≠ none := by
  by_cases hhint : v.succClust c = s.lastUsed
  · rw [if_pos hhint]
    have hfull := scan_hint (n := n) flags (hhint.trans hl.lastUsed.symm)
    exact allocates_of_full (stretchChain_of_error ((hfull.of_eq hfind).mono
      fun s' h => (hl.trans h).view))
  · have hne : v.succClust c ≠ s₁.lastUsed := fun h => hhint (h.trans hl.lastUsed)
    rw [if_neg hhint]
    by_cases hfree : v.kind s.view (v.succClust c) = some .free
    · rw [if_pos hfree]
      have hok := scan_free (n := n) flags (hl.exact hs) hne (by rw [hl.view, hfree])
      exact allocates_of_ok (stretchChain_of_found ((hok.of_eq hfind).mono fun r s' h => h.1)) hfree
    · have hinvalid : v.kind s₁.view (v.succClust c) = none := by
        rw [hl.view]
        exact (hstop.resolve_left hhint).resolve_left hfree
      rw [if_neg hfree]
      cases flags with
      | some kind =>
        have hfail := scan_invalid (n := n) kind (hl.exact hs) hne hinvalid
        rw [allocates_of_error (by simp) (by simp) (stretchChain_of_error ((hfail.of_eq hfind).mono
          fun s' h => (hl.trans h).view))]
        simp
      | none =>
        obtain ⟨flags, hstale⟩ := scan_unassigned (n := n) (hl.exact hs) hne hinvalid
        simp [not_allocates_of_stale (stretchChain_of_error (hstale.of_eq hfind))]

/-- The search behind the hint, after whatever came before it. -/
theorem allocates_iff_searchFits {flags : Option Kind} {s₁ : State} (hs : s.Exact)
    (hl : s.Looks s₁)
    (hfind : findFree v prev { s with infoDirty := true } = scanAll v flags s₁) :
    Allocates bpb v prev s ↔ SearchFits bpb v s.view s.lastUsed (flags ≠ none) := by
  by_cases hends : ∃ k, v.Stops s.view s.lastUsed (v.succClust^[k] (v.succClust s.lastUsed))
  · obtain ⟨k, hk⟩ := Orbit.exists_firstAt hends
    have hk₁ : FirstAt v.succClust (v.Stops s₁.view s₁.lastUsed) (v.succClust s₁.lastUsed) k := by
      rw [hl.view, hl.lastUsed]
      exact hk
    obtain ⟨n, flags', s₂, hl₂, hzero, hsucc, hrun⟩ := scanAll_reaches flags (hl.exact hs) hk₁
    rw [hl.lastUsed] at hrun
    have hnext : v.succClust^[k] (v.succClust s.lastUsed) =
        v.succClust (v.succClust^[k] s.lastUsed) := by
      rw [← Function.iterate_succ_apply, Function.iterate_succ_apply']
    have hstop := hk.1
    rw [hnext] at hstop
    -- `flags` has a value behind the first cluster
    have hassigned : flags' ≠ none ↔ (k = 0 → flags ≠ none) := by
      by_cases h0 : k = 0
      · rw [hzero h0]
        exact ⟨fun h _ => h, fun h => h h0⟩
      · obtain ⟨kind, hkind⟩ := hsucc h0
        rw [hkind]
        exact ⟨fun _ h => absurd h h0, fun _ => Option.some_ne_none kind⟩
    rw [searchFits_iff hk hnext, allocates_of_stop hs (hl.trans hl₂) (hfind.trans hrun) hstop,
      hassigned]
  · have hnot : ∀ k, ¬ v.Stops s₁.view s₁.lastUsed
        (v.succClust^[k] (v.succClust s₁.lastUsed)) := by
      rw [hl.view, hl.lastUsed]
      exact fun k hk => hends ⟨k, hk⟩
    obtain ⟨s', hrun⟩ := scanAll_endless flags (hl.exact hs) hnot
    have hnone := stretchChain_of_none ⟨s', hfind.trans hrun⟩
    refine iff_of_false (not_allocates_of_none hnone) ?_
    rintro ⟨k, hk, -⟩
    exact hends ⟨k, hk.1⟩

/-- **Allocation on a disk that works.** -/
theorem allocates_iff_fits (hs : s.Exact) :
    Allocates bpb v prev s ↔ AllocationFits bpb v prev s.view s.lastUsed := by
  have hmark := looks_mark s
  rw [AllocationFits]
  by_cases h0 : prev = 0
  · have hfind : findFree v prev = scanAll v none := if_neg (not_not_intro h0)
    rw [if_pos h0, allocates_iff_searchFits hs hmark (congrFun hfind _)]
    simp only [ne_eq, not_true]
  · have hfind : findFree v prev = (do
        let r ← getFat v (v.succClust prev)
        if r.2 = .free then pure (v.succClust prev) else scanAll v r.2) := if_pos h0
    rw [if_neg h0]
    cases hkind : v.kind s.view (v.succClust prev) with
    | none =>
      rw [if_neg (by simp), if_pos rfl]
      refine allocates_of_error (by simp : Err.broken ≠ .full) (by simp)
        (stretchChain_of_error ?_)
      rw [hfind]
      exact ((getFat_invalid (hmark.exact hs) hkind).mono
        fun s' h => (hmark.trans h).view).bind
    | some kind =>
      obtain ⟨_, s₁, hrun, rfl, hl⟩ := getFat_looks (hmark.exact hs) hkind
      have hrest := (congrFun hfind _).trans (Fallible.bind_of_ok hrun)
      by_cases hfree : kind = .free
      · rw [if_pos (by rw [hfree])]
        refine allocates_of_ok (stretchChain_of_found ⟨v.succClust prev, s₁, ?_, rfl⟩)
          (by rw [hkind, hfree])
        exact hrest.trans (congrFun (if_pos hfree) s₁)
      · rw [if_neg (by simpa using hfree), if_neg (by simp),
          allocates_iff_searchFits hs (hmark.trans hl)
            (hrest.trans (congrFun (if_neg hfree) s₁))]
        simp only [ne_eq, reduceCtorEq, not_false_eq_true]

end Reliable

/-! ## Section 7: Disks that fail -/

/-- The sectors hold the same. -/
def State.SameView (s s' : State) : Prop := s'.view = s.view

instance : ParseSteps State.SameView where
  refl _ := rfl
  trans _ _ _ h h' := Eq.trans h' h
  globals _ _ _ _ := rfl

section Failing

variable {v s prev}

/-- A write that fails spoils its target, but not the buffer, which is still to be written. -/
theorem syncBuf_ends : Ends (syncBuf v) s fun r s' =>
    s'.view = s.view ∧ (r = .ok ⟨⟩ → s'.bufDirty = false) := by
  cases hd : s.bufDirty with
  | false =>
    refine ⟨.ok ⟨⟩, s, ?_, rfl, fun _ => hd⟩
    rw [syncBuf, Fallible.read_bind]
    simp only [id, hd, Bool.false_eq_true, if_false]
    rfl
  | true =>
    have hview : s.view = Function.update s.disk s.sect s.buf := WriteBack.view_of_dirty s.cache hd
    have hstart : syncBuf v s = (do
        let ok ← opsWrite v .volume s.buf s.sect
        if ok then .modify fun s => { s with bufDirty := false }
        else .throw .io : FatM PUnit) s := by
      rw [syncBuf, Fallible.read_bind]
      simp only [id, hd, if_true]
    cases hwrite : v.ops.write s.calls with
    | none =>
      refine ⟨.ok ⟨⟩, { s with
        disk := fun k => if k = s.sect then s.buf else s.disk k
        calls := s.calls + 1
        writes := ⟨.volume, s.sect⟩ :: s.writes
        bufDirty := false }, ?_, ?_, fun _ => rfl⟩
      · rw [hstart, Fallible.bind_of_ok (by rw [opsWrite, hwrite])]
        rfl
      · rw [hview, State.view_of_clean rfl]
        funext k
        exact (Function.update_apply s.disk s.sect s.buf k).symm
    | some garbage =>
      refine ⟨.error .io, { s with
        disk := fun k => if k = s.sect then garbage else s.disk k
        calls := s.calls + 1
        writes := ⟨.volume, s.sect⟩ :: s.writes }, ?_, ?_, by simp⟩
      · rw [hstart, Fallible.bind_of_ok (by rw [opsWrite, hwrite])]
        rfl
      · rw [hview]
        refine (WriteBack.view_of_dirty _ hd).trans ?_
        funext k
        simp only [State.cache, Function.update_apply]
        split_ifs <;> rfl

theorem sameView_loadBuf (sect : ℕ) (h : s.bufDirty = false) :
    s.SameView (loadBuf v sect s).2 := by
  have hkeep : (loadBuf v sect s).2.bufDirty = s.bufDirty ∧
      (loadBuf v sect s).2.disk = s.disk := by
    cases hread : v.ops.read s.calls with
    | none =>
      rw [loadBuf, Fallible.bind_of_ok (by rw [opsRead, hread])]
      exact ⟨rfl, rfl⟩
    | some garbage =>
      rw [loadBuf, Fallible.bind_of_ok (by rw [opsRead, hread])]
      exact ⟨rfl, rfl⟩
  rw [State.SameView, State.view_of_clean (hkeep.1.trans h), hkeep.2, State.view_of_clean h]

instance : ReadSteps v State.SameView where
  updateBuf sect := by
    constructor
    intro s
    by_cases hsect : s.sect = sect
    · have hrun : updateBuf v sect s = (some (.ok ⟨⟩), s) :=
        congrFun (if_neg (not_not_intro hsect)) s
      rw [hrun]
      rfl
    · have hrun : updateBuf v sect s = (syncBuf v >>= fun _ => loadBuf v sect) s :=
        congrFun (if_pos hsect) s
      obtain ⟨e | _, s₁, hsync, hview, hclean⟩ := syncBuf_ends (v := v) (s := s)
      · rw [hrun, Fallible.bind_of_error hsync]
        exact hview
      · rw [hrun, Fallible.bind_of_ok hsync]
        exact (sameView_loadBuf sect (hclean rfl)).trans hview

/-- The search only looks: whatever it comes to, the disk and the buffer show the same sectors. -/
instance sameView_scan (n c : ℕ) (flags : Option Kind) :
    Keeps State.SameView (scan v n c flags) := by
  induction n generalizing c flags with
  | zero => exact Fallible.keeps_abort
  | succ n ih =>
    unfold scan
    refine keeps_then fun fat => ?_
    split
    · infer_instance
    · refine keeps_then fun r => ?_
      rcases r with e | r
      · cases flags <;> infer_instance
      · infer_instance

instance sameView_findFree (prev : ℕ) : Keeps State.SameView (findFree v prev) := by
  unfold findFree scanAll
  infer_instance

/-- An error comes from the search, from a put, or from `sync_fs`. -/
theorem errorsSafe_of_not_syncFails (h : ¬ SyncFails v prev s) : ErrorsSafe v prev s := by
  intro e s' hrun
  rw [stretchChain, Fallible.modify_bind] at hrun
  rcases hfind : findFree v prev { s with infoDirty := true } with ⟨_ | e₁ | c, s₁⟩
  · rw [Fallible.bind_of_none hfind] at hrun
    cases hrun
  · rw [Fallible.bind_of_error hfind] at hrun
    cases hrun
    have hsame : State.SameView { s with infoDirty := true } s' := Fallible.keeps_of_eq hfind
    exact .inr hsame
  · rw [Fallible.bind_of_ok hfind] at hrun
    rcases hput : putFat v c 0x0fffffff s₁ with ⟨_ | e₁ | _, s₂⟩
    · rw [Fallible.bind_of_none hput] at hrun
      cases hrun
    · exact .inl ⟨c, s₁, e₁, s₂, hfind, by rw [puts, Fallible.bind_of_error hput]⟩
    · rw [Fallible.bind_of_ok hput] at hrun
      rcases hlink : addLink v prev c s₂ with ⟨_ | e₁ | _, s₃⟩
      · rw [Fallible.bind_of_none hlink] at hrun
        cases hrun
      · refine .inl ⟨c, s₁, e₁, s₃, hfind, ?_⟩
        rw [puts, Fallible.bind_of_ok hput]
        exact hlink
      · rw [Fallible.bind_of_ok hlink, Fallible.modify_bind] at hrun
        rcases hsync : syncFs v { s₃ with lastUsed := c, freeCnt := s₃.freeCnt - 1 } with
          ⟨_ | e₁ | _, s₄⟩
        · rw [Fallible.bind_of_none hsync] at hrun
          cases hrun
        · refine absurd ⟨c, s₁, s₃, e₁, s₄, hfind, ?_, hsync⟩ h
          rw [puts, Fallible.bind_of_ok hput]
          exact hlink
        · rw [Fallible.bind_of_ok hsync] at hrun
          cases hrun

end Failing

/-! ## Section 8: Allocation -/

/-- On a disk that works, `stretch_chain` allocates as it should if and only if the entries of
the FAT fit the hint; and on any disk, an error other than a failed put leaves all as it was
unless `sync_fs` fails behind the puts. -/
theorem stretchChain_iff (ops : DiskOps) (name : List Byte) (lba : ℕ) (hs : s.Exact) :
    (ops.Reliable → (Allocates bpb (bpb.volume ops name lba) prev s ↔
      AllocationFits bpb (bpb.volume ops name lba) prev s.view s.lastUsed)) ∧
    (¬ SyncFails (bpb.volume ops name lba) prev s →
      ErrorsSafe (bpb.volume ops name lba) prev s) := by
  refine ⟨fun hops => ?_, errorsSafe_of_not_syncFails⟩
  have : (bpb.volume ops name lba).ops.Reliable := hops
  exact allocates_iff_fits hs

section Card

/-- A card with 65536 clusters of a sector each, and FATs for 66560. -/
def cardBpb : Bpb where
  jump := 0xeb
  bytesPerSect := 512
  sectPerClust := 1
  resSectCnt := 32
  fatCnt := 2
  rootEntCnt := 0
  sectCnt16 := 0
  sectPerFat16 := 0
  sectCnt32 := 66608
  sectPerFat32 := 520
  extFlags := 0
  rootCluster := 2
  infoSect := 1
  fsType := fat32Name

example : checkFat cardBpb = some true := by decide

def cardVolume : Volume := cardBpb.volume workingOps [0x6d, 0x6e, 0x74] 0

instance : cardVolume.ops.Reliable := inferInstanceAs workingOps.Reliable

/-- Every entry of the FAT is 0. -/
def cardState (hint : ℕ) : State where
  lastUsed := hint
  freeCnt := 65535
  sect := 0
  buf := fun _ => 0
  bufDirty := false
  infoDirty := false
  gBuf := fun _ => 0
  gLen := 0
  gCrc := 0
  disk := fun _ _ => 0
  calls := 0
  writes := []

theorem cardState_exact (hint : ℕ) : (cardState hint).Exact := fun _ _ => rfl

theorem cardState_kind (hint c : ℕ) : cardVolume.kind (cardState hint).view c = some .free := by
  have hentry : cardVolume.entry (cardState hint).view c = 0 := by
    show entryVal (leWord [0, 0, 0, 0]) = 0
    decide
  rw [Volume.kind, hentry]
  exact if_pos rfl

/-- The search ends with the first cluster behind the hint. -/
theorem cardState_searchFits (hint c : ℕ) (hc : cardVolume.succClust hint = c) (hne : c ≠ hint) :
    SearchFits cardBpb cardVolume (cardState hint).view hint False ↔ cardBpb.DataCluster c := by
  have hstop : FirstAt cardVolume.succClust (cardVolume.Stops (cardState hint).view hint)
      (cardVolume.succClust hint) 0 := ⟨.inr (.inl (cardState_kind hint _)), by simp⟩
  rw [searchFits_iff hstop hc, if_neg hne, if_pos (cardState_kind hint c)]

/-- A card with a chain of the clusters 2 and 3, and one of cluster 4. -/
def cardLinked : State :=
  { cardState 2 with
    disk := fun sect =>
      if sect = 32 ∨ sect = 552 then
        setItem 4 0x0fffffff (setItem 3 0x0fffffff (setItem 2 3 fun _ => 0))
      else fun _ => 0 }

theorem cardLinked_exact : cardLinked.Exact := fun _ _ => rfl

/-- The chain of cluster 3 is extended, and the search passes it and cluster 4. -/
theorem stretchChain_card : Allocates cardBpb cardVolume 3 cardLinked := by
  refine ((stretchChain_iff cardBpb 3 cardLinked workingOps [0x6d, 0x6e, 0x74] 0
    cardLinked_exact).1 inferInstance).2 ?_
  have hstop : FirstAt cardVolume.succClust (cardVolume.Stops cardLinked.view 2)
      (cardVolume.succClust 2) 2 := by
    unfold Volume.Stops
    refine ⟨by decide +kernel, fun j hj => ?_⟩
    obtain rfl | rfl : j = 0 ∨ j = 1 := by omega
    · decide +kernel
    · decide +kernel
  show SearchFits cardBpb cardVolume cardLinked.view 2 True
  rw [searchFits_iff hstop (by decide : _ = 5), if_neg (by decide), if_pos (by decide +kernel)]
  decide

/-- Behind the last cluster of the card are entries of the FAT without sectors. -/
theorem not_allocates_card : ¬ Allocates cardBpb cardVolume 0 (cardState 65537) := by
  rw [allocates_iff_fits (cardState_exact 65537)]
  intro h
  have hdata := (cardState_searchFits 65537 65538 (by decide) (by decide)).1 h
  exact absurd hdata (by decide)

end Card

end Karnix.Fat
