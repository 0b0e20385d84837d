import Karnix.Fat.Chains
import Karnix.Fat.File
import Mathlib.Order.Interval.Finset.Nat

/-!
# The books of a volume

The rest of the driver asks for new chains, follows chains and extends them at their end, and
releases them.  Over every run of such calls the chains stay chains, no two of them share a
cluster, none loses one, and the counter of the free clusters is right, in memory and on the disk.
-/

namespace Karnix.Fat

open Karnix.Library
open Fallible (Succeeds Fails Ends)
open Link (Chain Broken release freeCount)

variable (v : Volume)

/-! ## Section 1: The calls -/

/-- What is asked for: the first cluster of a new chain, the cluster behind `p` in its chain, or
the release of the chain from `c` on. -/
inductive ChainOp
  | create
  | follow (p : ℕ)
  | remove (c : ℕ)

/-- A call, and the chains after it.  For a cluster that is in no chain there is none. -/
def ChainOp.run (L : List (List ℕ)) : ChainOp → FatM (List (List ℕ))
  | .create => do
    let c ← createChain v
    pure ([c] :: L)
  | .follow p =>
    match L.find? fun l => p ∈ l with
    | none => pure L
    | some l => do
      let d ← nextClust v p
      pure (if l.getLast? = some p then (l ++ [d]) :: L.erase l else L)
  | .remove c =>
    match L.find? fun l => l.head? = some c with
    | none => pure L
    | some l => do
      removeChain v c
      pure (L.erase l)

/-- Calls in a row.  One that fails leaves the chains as they are. -/
def runOps : List ChainOp → List (List ℕ) → FatM (List (List ℕ))
  | [], L => pure L
  | op :: ops, L => do
    let r ← (op.run v L).attempt
    runOps ops (r.toOption.getD L)

/-! ## Section 2: The books -/

/-- The clusters of the volume. -/
def Volume.clusts : Finset ℕ := Finset.Ico 2 v.clustCnt

/-- The chains `L` are those of the volume, and the books are right. -/
structure State.Books (L : List (List ℕ)) (s : State) : Prop where
  /-- The buffer stands for its sector. -/
  exact : s.Exact
  /-- The search for a free cluster begins behind a cluster of the volume. -/
  hint : v.IsClust s.lastUsed
  /-- Every entry of the FAT is one that the driver knows, and the second FAT is like the first. -/
  valid : v.Valid s.view
  mirrored : v.Mirrored s.view
  /-- The chains share no cluster, and what is outside of them is free or bad. -/
  keeps : Link.Keeps (v.table s.view) v.clusts L
  /-- The counter is the number of the free clusters. -/
  freeCnt : s.freeCnt = BitVec.ofNat 32 (freeCount (v.table s.view) v.clusts)
  /-- The buffer has been written. -/
  clean : s.bufDirty = false
  /-- `FsInfo` holds the counter, unless it is marked to be written. -/
  info : s.infoDirty = false → s.Counted v

/-- What never changes: the upper nibbles of the entries, and all other sectors. -/
structure Volume.Frame (w w' : ℕ → Sector) : Prop where
  nibbles : v.SameNibbles w w'
  other : ∀ sect, ¬ v.Reserved sect → w' sect = w sect

variable {v} {s s' : State} {L L' : List (List ℕ)} {w : ℕ → Sector} {l : List ℕ} {c p prev old : ℕ}

theorem Volume.Frame.refl (v : Volume) (w : ℕ → Sector) : v.Frame w w :=
  ⟨(Volume.Relinks.refl v w).nibbles, fun _ _ => rfl⟩

theorem Volume.Frame.trans {w₁ w₂ w₃ : ℕ → Sector} (h : v.Frame w₁ w₂) (h' : v.Frame w₂ w₃) :
    v.Frame w₁ w₃ := by
  refine ⟨fun c hc => ⟨?_, fun hm => ?_⟩, fun sect hsect => ?_⟩
  · exact (h'.nibbles c hc).1.trans (h.nibbles c hc).1
  · exact ((h'.nibbles c hc).2 hm).trans ((h.nibbles c hc).2 hm)
  · exact (h'.other sect hsect).trans (h.other sect hsect)

theorem Volume.Relinks.frame {w' : ℕ → Sector} {t : ℕ → Link ℕ} (h : v.Relinks w w' t) :
    v.Frame w w' := ⟨h.nibbles, h.other⟩

@[simp] theorem mem_clusts : c ∈ v.clusts ↔ v.IsClust c := Finset.mem_Ico

namespace State.Books

/-- The clusters of a chain. -/
theorem isClust (h : s.Books v L) (hl : l ∈ L) (hc : c ∈ l) : v.IsClust c :=
  mem_clusts.1 (h.keeps.mem c (List.mem_flatten_of_mem hl hc))

/-- The chain that a cluster begins. -/
theorem chain_of_head (h : s.Books v L) (hl : l ∈ L) (hc : l.head? = some c) :
    Chain (v.table s.view) c l := by
  obtain ⟨d, hchain⟩ := h.keeps.chain l hl
  rwa [Option.some.inj (hc.symm.trans hchain.head?)]

/-- The chain that is worked on comes first. -/
theorem keeps_erase (h : s.Books v L) (hl : l ∈ L) :
    Link.Keeps (v.table s.view) v.clusts (l :: L.erase l) := h.keeps.perm (List.perm_cons_erase hl)

/-- A cluster is taken: the books are right with the chain it has been put into. -/
theorem of_takes (h : s.Books v L) (hc : v.IsClust c) (ht : s.Takes v prev c s')
    (hkeeps : Link.Keeps (taken (v.table s.view) prev c) v.clusts L')
    (hcount : freeCount (v.table s.view) v.clusts =
      freeCount (taken (v.table s.view) prev c) v.clusts + 1) : s'.Books v L' := by
  refine ⟨ht.exact, ht.lastUsed ▸ hc, ht.valid h.valid, ht.mirrored h.mirrored,
    ht.table ▸ hkeeps, ?_, ht.synced.1, fun _ => ht.counted⟩
  rw [ht.freeCnt, h.freeCnt, hcount, ht.table, BitVec.ofNat_add]
  exact BitVec.add_sub_cancel _ _

/-- No cluster is free: the chains and their books are as they were. -/
theorem of_full (h : s.Books v L) (hview : s'.view = s.view) (hexact : s'.Exact)
    (hpeek : State.Peeks { s with infoDirty := true } s') : s'.Books v L := by
  refine ⟨hexact, ?_, hview ▸ h.valid, hview ▸ h.mirrored, hview ▸ h.keeps, ?_,
    hpeek.clean h.clean, fun hinfo => ?_⟩
  · rw [hpeek.lastUsed]
    exact h.hint
  · rw [hpeek.freeCnt, hview]
    exact h.freeCnt
  · rw [hpeek.infoDirty] at hinfo
    cases hinfo

/-- Something has been looked at. -/
theorem of_peek (h : s.Books v L) (hview : s'.view = s.view) (hexact : s'.Exact)
    (hpeek : State.Peeks s s') : s'.Books v L := by
  refine ⟨hexact, hpeek.lastUsed ▸ h.hint, hview ▸ h.valid, hview ▸ h.mirrored, hview ▸ h.keeps,
    ?_, hpeek.clean h.clean, fun hinfo => ?_⟩
  · rw [hpeek.freeCnt, hview]
    exact h.freeCnt
  · rw [State.Counted, hview, hpeek.freeCnt, hpeek.lastUsed]
    exact h.info (hpeek.infoDirty ▸ hinfo)

end State.Books

/-- There is a free cluster less. -/
theorem freeCount_taken {t : ℕ → Link ℕ} (h0 : p ≠ 0) (hc : v.IsClust c) (hlast : t p = .last)
    (hfree : t c = .free) : freeCount t v.clusts = freeCount (taken t p c) v.clusts + 1 := by
  have hne : p ≠ c := by
    rintro rfl
    cases hlast.symm.trans hfree
  rw [taken, if_neg h0, Link.freeCount_take (x := .last) (mem_clusts.2 hc) hfree (by simp),
    Link.freeCount_change (r := p)]
  · rw [Function.update_of_ne hne, hlast]
    simp
  · simp

/-! ## Section 3: Each call keeps them -/

variable [v.ops.Reliable]

/-- A cluster for the chain that ends with `prev`, or for a new one. -/
theorem stretchInto_books (hv : v.Laid) (h : s.Books v L) {L' : ℕ → List (List ℕ)}
    (hprev : prev = 0 ∨ v.IsClust prev)
    (hchains : ∀ c, v.IsClust c → v.table s.view c = .free →
      Link.Keeps (taken (v.table s.view) prev c) v.clusts (L' c) ∧
      freeCount (v.table s.view) v.clusts =
        freeCount (taken (v.table s.view) prev c) v.clusts + 1) :
    Ends (stretchInto v old prev) s fun r s' =>
      (∀ c, r = .ok c → s'.Books v (L' c)) ∧ (∀ e, r = .error e → s'.Books v L) ∧
      v.Frame s.view s'.view := by
  refine (stretchInto_spec hv h.exact h.valid h.hint hprev old).mono fun r s' hend => ?_
  rcases hend with ⟨c, rfl, hc, hfree, ht⟩ | ⟨rfl, -, hview, hexact, hpeek⟩
  · obtain ⟨hkeeps, hcount⟩ := hchains c hc hfree
    refine ⟨fun c' h' => ?_, fun e h' => ?_, ht.frame⟩
    · cases h'
      exact h.of_takes hc ht hkeeps hcount
    · cases h'
  · refine ⟨fun c' h' => ?_, fun e _ => h.of_full hview hexact hpeek, ?_⟩
    · cases h'
    · rw [hview]
      exact .refl v s.view

/-- A new chain of one cluster, or an error and the books as they were. -/
theorem createChain_books (hv : v.Laid) (h : s.Books v L) :
    Ends (createChain v) s fun r s' =>
      (∀ c, r = .ok c → s'.Books v ([c] :: L)) ∧ (∀ e, r = .error e → s'.Books v L) ∧
      v.Frame s.view s'.view := by
  refine Ends.read_bind (stretchInto_books hv h (.inl rfl) fun c hc hfree => ?_)
  rw [taken, if_pos rfl]
  exact ⟨h.keeps.create (mem_clusts.2 hc) hfree,
    Link.freeCount_take (mem_clusts.2 hc) hfree (by simp)⟩

/-- A chain is extended at its end. -/
theorem extend_books (hv : v.Laid) (h : s.Books v L) (hl : l ∈ L) (hp : l.getLast? = some p) :
    Ends (stretchInto v old p) s fun r s' =>
      (∀ c, r = .ok c → s'.Books v ((l ++ [c]) :: L.erase l)) ∧
      (∀ e, r = .error e → s'.Books v L) ∧ v.Frame s.view s'.view := by
  have hpl : p ∈ l := List.mem_of_getLast? hp
  have hclust := h.isClust hl hpl
  obtain ⟨d, hchain⟩ := h.keeps.chain l hl
  have hlast := hchain.last_of_getLast? hp
  have h0 : p ≠ 0 := fun h0 => absurd hclust.1 (by omega)
  refine stretchInto_books hv h (.inr hclust) fun c hc hfree => ?_
  refine ⟨?_, freeCount_taken h0 hc hlast hfree⟩
  rw [taken, if_neg h0]
  exact (h.keeps_erase hl).extend (mem_clusts.2 hc) hfree hp

/-- The next cluster of a chain, or a new one at its end. -/
theorem nextClust_books (hv : v.Laid) (h : s.Books v L) (hl : l ∈ L) (hp : p ∈ l) :
    Ends (nextClust v p) s fun r s' =>
      (∀ d, r = .ok d →
        s'.Books v (if l.getLast? = some p then (l ++ [d]) :: L.erase l else L)) ∧
      (∀ e, r = .error e → s'.Books v L) ∧ v.Frame s.view s'.view := by
  obtain ⟨c, hchain⟩ := h.keeps.chain l hl
  have hlook : ∀ {kind : Kind}, v.kind s.view p = some kind →
      ∃ s₁, getFat v p s = (some (.ok (v.entry s.view p, kind)), s₁) ∧ s₁.view = s.view ∧
        s₁.Books v L := by
    intro kind hkind
    obtain ⟨_, s₁, hrun, rfl, hview, _, he⟩ := getFat_edits h.exact hkind
    exact ⟨s₁, hrun, hview, h.of_peek hview he.exact (Fallible.keeps_of_eq hrun)⟩
  rcases hchain.link_of_mem hp with hlast | ⟨d, -, hnext⟩
  · obtain ⟨s₁, hrun, hview, h₁⟩ := hlook (kind_of_table_last hlast)
    have heq : nextClust v p s = stretchInto v (v.entry s.view p) p s₁ :=
      Fallible.bind_of_ok hrun
    have hp' := hchain.getLast?_of_last hp hlast
    refine ((extend_books hv h₁ hl hp').of_eq heq).mono fun r s' ⟨hok, herr, hframe⟩ => ?_
    simp only [if_pos hp']
    exact ⟨hok, herr, hview ▸ hframe⟩
  · obtain ⟨hkind, hentry⟩ := kind_of_table_next hnext
    obtain ⟨s₁, hrun, hview, h₁⟩ := hlook hkind
    have heq : nextClust v p s = (some (.ok (v.entry s.view p)), s₁) := Fallible.bind_of_ok hrun
    have hp' : l.getLast? ≠ some p := by
      intro hp'
      cases hnext.symm.trans (hchain.last_of_getLast? hp')
    refine ⟨_, s₁, heq, fun d _ => ?_, fun e he => ?_, ?_⟩
    · rwa [if_neg hp']
    · cases he
    · rw [hview]
      exact .refl v s.view

/-- A chain is released: its clusters are free, counted, and in no chain. -/
theorem removeChain_books (hv : v.Laid) (h : s.Books v L) (hl : l ∈ L) (hc : l.head? = some c) :
    Succeeds (removeChain v c) s fun _ s' => s'.Books v (L.erase l) ∧ v.Frame s.view s'.view := by
  have hchain := h.chain_of_head hl hc
  have hclust := h.isClust hl hchain.mem_head
  refine (removeChain_chain hv h.exact hclust.2 hchain).mono ?_
  rintro _ s' ⟨hrel, hsynced, hcounted⟩
  refine ⟨⟨hrel.exact, hrel.lastUsed ▸ h.hint, hrel.valid h.valid, hrel.mirrored h.mirrored,
    hrel.table ▸ (h.keeps_erase hl).remove, ?_, hsynced.1, fun _ => hcounted⟩, hrel.frame⟩
  rw [hrel.freeCnt, h.freeCnt, hrel.table, ← BitVec.ofNat_add]
  refine congrArg (BitVec.ofNat 32) (Link.freeCount_releaseAll hchain.nodup fun d hd => ?_).symm
  exact ⟨mem_clusts.2 (h.isClust hl hd), hchain.ne_free_of_mem hd⟩

/-! ## Section 4: Runs -/

/-- **Step lemma.** A call, whether it succeeds or not. -/
theorem run_books (hv : v.Laid) (h : s.Books v L) (op : ChainOp) :
    Ends (op.run v L) s fun r s' =>
      s'.Books v (r.toOption.getD L) ∧ v.Frame s.view s'.view := by
  cases op with
  | create =>
    refine (createChain_books hv h).bind (fun c s' ⟨hok, _, hframe⟩ => ?_) ?_
    · exact ⟨_, s', rfl, hok c rfl, hframe⟩
    · rintro e s' ⟨-, herr, hframe⟩
      exact ⟨herr e rfl, hframe⟩
  | follow p =>
    rw [ChainOp.run]
    cases hfind : L.find? fun l => p ∈ l with
    | none => exact ⟨_, s, rfl, h, .refl v s.view⟩
    | some l =>
      have hl := List.mem_of_find?_eq_some hfind
      have hp : p ∈ l := by simpa using List.find?_some hfind
      refine (nextClust_books hv h hl hp).bind (fun c s' ⟨hok, _, hframe⟩ => ?_) ?_
      · exact ⟨_, s', rfl, hok c rfl, hframe⟩
      · rintro e s' ⟨-, herr, hframe⟩
        exact ⟨herr e rfl, hframe⟩
  | remove c =>
    rw [ChainOp.run]
    cases hfind : L.find? fun l => l.head? = some c with
    | none => exact ⟨_, s, rfl, h, .refl v s.view⟩
    | some l =>
      have hl := List.mem_of_find?_eq_some hfind
      have hc : l.head? = some c := by simpa using List.find?_some hfind
      refine (removeChain_books hv h hl hc).bind_ends fun _ s' ⟨hbooks, hframe⟩ => ?_
      exact ⟨_, s', rfl, hbooks, hframe⟩

/-- **Run lemma.** On a disk that works, and from any state in which the books are right: over
every run of calls the chains share no cluster, no cluster in use is outside of them, both FATs
hold the same, and the counter of the free clusters is right, also in `FsInfo` unless a mark says
that it is to be written. -/
theorem runOps_books (hv : v.Laid) (ops : List ChainOp) (h : s.Books v L) :
    Succeeds (runOps v ops L) s fun L' s' => s'.Books v L' ∧ v.Frame s.view s'.view := by
  induction ops generalizing s L with
  | nil => exact .pure ⟨h, .refl v s.view⟩
  | cons op ops ih =>
    refine (run_books hv h op).attempt.bind fun r s₁ ⟨h₁, hframe₁⟩ => ?_
    refine (ih h₁).mono fun L' s' ⟨h', hframe⟩ => ?_
    exact ⟨h', hframe₁.trans hframe⟩

section Card

omit [v.ops.Reliable]

/-- Every entry of the FAT is 0, and `FsInfo` says so. -/
def cardBooked : State :=
  { cardState 2 with
    freeCnt := 66558
    disk := Function.update (fun _ _ => 0) 1 (putInfo 2 66558 fun _ => 0) }

theorem cardBooked_view :
    cardBooked.view = Function.update (fun _ _ => 0) 1 (putInfo 2 66558 fun _ => 0) :=
  State.view_of_clean rfl

theorem cardBooked_view_of_ne {k : ℕ} (hk : k ≠ 1) : cardBooked.view k = fun _ => 0 := by
  rw [cardBooked_view, Function.update_of_ne hk]

theorem cardBooked_entry (c : ℕ) (h1 : Volume.entrySect 32 c ≠ 1) :
    pairVolume.entry cardBooked.view c = 0 := by
  rw [Volume.entry_eq, entryWord]
  show entryVal (item (cardBooked.view (Volume.entrySect 32 c)) (c % 128)) = 0
  rw [cardBooked_view_of_ne h1]
  show entryVal (leWord [0, 0, 0, 0]) = 0
  decide

theorem cardBooked_table (hc : pairVolume.IsClust c) :
    pairVolume.table cardBooked.view c = .free := by
  refine table_free_of_kind hc ?_
  have hlt : c < 66560 := hc.2
  have hsect : Volume.entrySect 32 c = 32 + c / 128 := Nat.mod_eq_of_lt (by omega)
  rw [Volume.kind, cardBooked_entry c (by omega), kindOf_free]

theorem cardBooked_books : cardBooked.Books pairVolume [] := by
  have hfree : freeCount (pairVolume.table cardBooked.view) pairVolume.clusts = 66558 := by
    rw [freeCount, Finset.filter_true_of_mem fun c hc => cardBooked_table (mem_clusts.1 hc)]
    exact Nat.card_Ico 2 66560
  refine ⟨fun _ _ => rfl, ⟨by decide, by decide⟩, fun c h2 hc => ?_, fun _ c hc => ?_,
    ⟨by simp, List.nodup_nil, by simp, fun c hc _ => .inl (cardBooked_table (mem_clusts.1 hc))⟩,
    ?_, rfl, fun _ => ?_⟩
  · rw [(kind_of_table_free (cardBooked_table ⟨h2, hc⟩)).2]
    exact Option.some_ne_none _
  · have hlt : c < 66560 := hc
    have hfat : Volume.entrySect 32 c = 32 + c / 128 := Nat.mod_eq_of_lt (by omega)
    have hmirror : Volume.entrySect 552 c = 552 + c / 128 := Nat.mod_eq_of_lt (by omega)
    show item (cardBooked.view (Volume.entrySect 552 c)) (c % 128) =
      item (cardBooked.view (Volume.entrySect 32 c)) (c % 128)
    rw [cardBooked_view_of_ne (by omega), cardBooked_view_of_ne (by omega)]
  · rw [hfree]
    rfl
  · show item (cardBooked.view 1) 122 = _ ∧ item (cardBooked.view 1) 123 = _
    rw [cardBooked_view, Function.update_self]
    constructor
    · exact item_setItem_self 122 _ _
    · exact (item_setItem_of_ne (by decide : 123 ≠ 122) _ _).trans (item_setItem_self 123 _ _)

/-- Two chains are begun, the first one is extended, and the other one is released. -/
theorem runOps_books_card :
    Succeeds (runOps pairVolume [.create, .create, .follow 3, .remove 4] []) cardBooked
      fun L' s' => s'.Books pairVolume L' ∧ pairVolume.Frame cardBooked.view s'.view :=
  runOps_books pairVolume_laid [.create, .create, .follow 3, .remove 4] cardBooked_books

end Card

end Karnix.Fat
