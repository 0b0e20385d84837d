import Mathlib.Data.Finset.Card
import Mathlib.Data.List.Flatten
import Mathlib.Data.List.Nodup
import Mathlib.Data.List.Pairwise

/-!
# Chains of cells in a table

A table says of each cell which one follows it in its chain, that it is the last one, that it is
free, or that it is unusable.  A set of chains that share no cell, and outside of which no cell is
in use, stays one when a chain is begun, extended or released, and the number of free cells moves
with the cells of the chains.
-/

namespace Karnix.Library

universe u

/-- What a table says of a cell. -/
inductive Link (ι : Type u)
  | free | next (i : ι) | last | bad
  deriving DecidableEq

namespace Link

variable {ι : Type u}

/-! ## Chains -/

/-- The cells from `c` to the end of the chain. -/
inductive Chain (t : ι → Link ι) : ι → List ι → Prop
  | last {c : ι} (h : t c = .last) : Chain t c [c]
  | next {c d : ι} {l : List ι} (h : t c = .next d) (hl : Chain t d l) : Chain t c (c :: l)

namespace Chain

variable {t t' : ι → Link ι} {c d p r : ι} {l l' : List ι}

theorem head? (h : Chain t c l) : l.head? = some c := by
  cases h <;> rfl

theorem ne_nil (h : Chain t c l) : l ≠ [] := by
  rintro rfl
  cases h

theorem mem_head (h : Chain t c l) : c ∈ l := List.mem_of_head? h.head?

theorem unique (h : Chain t c l) (h' : Chain t c l') : l = l' := by
  induction h generalizing l' with
  | last hc =>
    cases h' with
    | last => rfl
    | next hc' => cases hc.symm.trans hc'
  | next hc _ ih =>
    cases h' with
    | last hc' => cases hc.symm.trans hc'
    | next hc' hl' =>
      obtain rfl : _ = _ := Link.next.inj (hc.symm.trans hc')
      rw [ih hl']

/-- From each of its cells on, a chain is a chain. -/
theorem exists_suffix (h : Chain t c l) (hd : d ∈ l) : ∃ l', Chain t d l' ∧ l' <:+ l := by
  induction h with
  | last hc =>
    obtain rfl := List.mem_singleton.1 hd
    exact ⟨_, .last hc, List.suffix_rfl⟩
  | next hc hl ih =>
    rcases List.mem_cons.1 hd with rfl | hd
    · exact ⟨_, .next hc hl, List.suffix_rfl⟩
    · obtain ⟨l', hl', hsuf⟩ := ih hd
      exact ⟨l', hl', hsuf.trans (List.suffix_cons _ _)⟩

/-- A chain that came back to a cell would not end. -/
theorem nodup (h : Chain t c l) : l.Nodup := by
  induction h with
  | last => exact List.nodup_singleton _
  | next hc hl ih =>
    refine List.nodup_cons.2 ⟨fun hmem => ?_, ih⟩
    obtain ⟨l', hl', hsuf⟩ := hl.exists_suffix hmem
    have hle := hsuf.length_le
    rw [hl'.unique (.next hc hl), List.length_cons] at hle
    exact Nat.not_succ_le_self _ hle

theorem congr (h : Chain t c l) (heq : ∀ d ∈ l, t' d = t d) : Chain t' c l := by
  induction h with
  | last hc => exact .last ((heq _ (List.mem_singleton_self _)).trans hc)
  | next hc _ ih =>
    refine .next ((heq _ List.mem_cons_self).trans hc) (ih fun d hd => ?_)
    exact heq d (List.mem_cons_of_mem _ hd)

/-- The cells of a chain are in use. -/
theorem link_of_mem (h : Chain t c l) (hd : d ∈ l) : t d = .last ∨ ∃ e ∈ l, t d = .next e := by
  induction h with
  | last hc =>
    obtain rfl := List.mem_singleton.1 hd
    exact .inl hc
  | next hc hl ih =>
    rcases List.mem_cons.1 hd with rfl | hd
    · exact .inr ⟨_, List.mem_cons_of_mem _ hl.mem_head, hc⟩
    · refine (ih hd).imp_right ?_
      rintro ⟨e, he, hde⟩
      exact ⟨e, List.mem_cons_of_mem _ he, hde⟩

theorem ne_free_of_mem (h : Chain t c l) (hd : d ∈ l) : t d ≠ .free := by
  intro hfree
  rcases h.link_of_mem hd with hlast | ⟨e, -, hnext⟩
  · cases hfree.symm.trans hlast
  · cases hfree.symm.trans hnext

/-- Each cell but the last links the one behind it. -/
theorem link_getElem (h : Chain t c l) {k : ℕ} (hk : k + 1 < l.length) :
    t l[k] = .next l[k + 1] := by
  induction h generalizing k with
  | last _ => exact absurd hk (by simp)
  | next hc hl ih =>
    cases k with
    | zero =>
      have hhead := hl.head?
      rw [List.head?_eq_getElem?, List.getElem?_eq_getElem (by simpa using hk)] at hhead
      simp only [List.getElem_cons_zero, List.getElem_cons_succ, Option.some.inj hhead, hc]
    | succ k => exact ih (by simpa using hk)

/-- The last cell is marked as such. -/
theorem last_of_getLast? (h : Chain t c l) (hp : l.getLast? = some p) : t p = .last := by
  induction h with
  | last hc =>
    rw [List.getLast?_singleton] at hp
    rw [← Option.some.inj hp, hc]
  | next _ hl ih =>
    rw [List.getLast?_cons_of_ne_nil hl.ne_nil] at hp
    exact ih hp

/-- No other cell is the last one of a chain. -/
theorem getLast?_of_last (h : Chain t c l) (hp : p ∈ l) (hlast : t p = .last) :
    l.getLast? = some p := by
  induction h with
  | last _ =>
    rw [List.getLast?_singleton, List.mem_singleton.1 hp]
  | next hc hl ih =>
    rw [List.getLast?_cons_of_ne_nil hl.ne_nil]
    rcases List.mem_cons.1 hp with rfl | hp
    · cases hc.symm.trans hlast
    · exact ih hp

/-- A cell is appended: the last one is linked to it, and it is the last one now. -/
theorem append (h : Chain t c l) (hp : l.getLast? = some p) (hr : t' r = .last)
    (hpr : t' p = .next r) (heq : ∀ d ∈ l, d ≠ p → t' d = t d) : Chain t' c (l ++ [r]) := by
  have hnodup := h.nodup
  induction h with
  | last hc =>
    rw [List.getLast?_singleton] at hp
    obtain rfl := Option.some.inj hp
    exact .next hpr (.last hr)
  | next hc hl ih =>
    rw [List.getLast?_cons_of_ne_nil hl.ne_nil] at hp
    obtain ⟨hnot, hnodup⟩ := List.nodup_cons.1 hnodup
    have hne : _ ≠ p := ne_of_mem_of_not_mem (List.mem_of_getLast? hp) hnot |>.symm
    refine .next ((heq _ List.mem_cons_self hne).trans hc) (ih hp (fun d hd => ?_) hnodup)
    exact heq d (List.mem_cons_of_mem _ hd)

end Chain

/-! ## Releasing -/

variable [DecidableEq ι]

/-- The cells of `l` are released. -/
def release (t : ι → Link ι) (l : List ι) : ι → Link ι := fun c => if c ∈ l then .free else t c

/-- From `c` on the cells `l` are passed, each once; then comes one that is free or unusable or
has been passed. -/
inductive Broken : (ι → Link ι) → ι → List ι → Prop
  | stop {t : ι → Link ι} {c : ι} (h : t c = .free ∨ t c = .bad) : Broken t c []
  | next {t : ι → Link ι} {c d : ι} {l : List ι} (h : t c = .next d)
      (hl : Broken (Function.update t c .free) d l) : Broken t c (c :: l)

variable {t : ι → Link ι} {c : ι} {l l' : List ι}

theorem release_nil : release t [] = t := by
  funext c
  exact if_neg List.not_mem_nil

theorem release_cons : release t (c :: l) = release (Function.update t c .free) l := by
  funext d
  simp only [release, List.mem_cons, Function.update_apply]
  by_cases hd : d ∈ l
  · simp only [hd, or_true, if_true]
  · simp only [hd, or_false, if_false]

/-- A chain whose first cell has been released. -/
theorem Chain.cons_released {d : ι} (h : t c = .next d)
    (hl : Chain (Function.update t c .free) d l) : Chain t c (c :: l) := by
  refine .next h (hl.congr fun e he => (Function.update_of_ne ?_ _ _).symm)
  rintro rfl
  exact hl.ne_free_of_mem he (Function.update_self ..)

/-- Where a chain ends, none breaks off. -/
theorem Broken.not_chain (h : Broken t c l) : ¬ Chain t c l' := by
  induction h generalizing l' with
  | stop hc =>
    intro hchain
    rcases hchain.link_of_mem hchain.mem_head with hlast | ⟨e, -, hnext⟩
    · rw [hlast] at hc
      simp at hc
    · rw [hnext] at hc
      simp at hc
  | next hc _ ih =>
    intro hchain
    cases hchain with
    | last hc' => cases hc.symm.trans hc'
    | next hc' hl' =>
      obtain rfl : _ = _ := Link.next.inj (hc.symm.trans hc')
      have hnot := (List.nodup_cons.1 (Chain.next hc hl').nodup).1
      refine ih (hl'.congr fun e he => Function.update_of_ne ?_ _ _)
      rintro rfl
      exact hnot he

/-! ## Sets of chains -/

/-- The chains `L` share no cell; they are all that the table has in the cells `S`. -/
structure Keeps (t : ι → Link ι) (S : Finset ι) (L : List (List ι)) : Prop where
  chain : ∀ l ∈ L, ∃ c, Chain t c l
  nodup : L.flatten.Nodup
  mem : ∀ c ∈ L.flatten, c ∈ S
  rest : ∀ c ∈ S, c ∉ L.flatten → t c = .free ∨ t c = .bad

/-- How many of the cells `S` are free. -/
def freeCount (t : ι → Link ι) (S : Finset ι) : ℕ := (S.filter fun c => t c = .free).card

variable {S : Finset ι} {L : List (List ι)} {p r : ι} {i : ℕ}

omit [DecidableEq ι] in
/-- A free cell is in no chain. -/
theorem Keeps.not_mem (h : Keeps t S L) (hr : t r = .free) (hl : l ∈ L) : r ∉ l := by
  intro hmem
  obtain ⟨c, hchain⟩ := h.chain l hl
  exact hchain.ne_free_of_mem hmem hr

/-- A cell of the free ones is taken. -/
theorem freeCount_take {x : Link ι} (hr : r ∈ S) (hfree : t r = .free) (hx : x ≠ .free) :
    freeCount t S = freeCount (Function.update t r x) S + 1 := by
  have herase : (S.filter fun c => Function.update t r x c = .free) =
      (S.filter fun c => t c = .free).erase r := by
    ext c
    rw [Finset.mem_erase, Finset.mem_filter, Finset.mem_filter, Function.update_apply]
    by_cases hc : c = r <;> simp [hc, hx]
  have hmem : r ∈ S.filter fun c => t c = .free := Finset.mem_filter.2 ⟨hr, hfree⟩
  rw [freeCount, freeCount, herase, Finset.card_erase_add_one hmem]

/-- A cell that is not free is changed, and is not free then. -/
theorem freeCount_change {x : Link ι} (hr : t r ≠ .free) (hx : x ≠ .free) :
    freeCount (Function.update t r x) S = freeCount t S := by
  refine congrArg Finset.card (Finset.filter_congr fun c _ => ?_)
  rw [Function.update_apply]
  by_cases hc : c = r <;> simp [hc, hr, hx]

/-- A cell that is not free is released. -/
theorem freeCount_release (hr : r ∈ S) (hused : t r ≠ .free) :
    freeCount (Function.update t r .free) S = freeCount t S + 1 := by
  have hinsert : (S.filter fun c => Function.update t r .free c = .free) =
      insert r (S.filter fun c => t c = .free) := by
    ext c
    rw [Finset.mem_insert, Finset.mem_filter, Finset.mem_filter, Function.update_apply]
    by_cases hc : c = r <;> simp [hc, hr]
  have hnot : r ∉ S.filter fun c => t c = .free := fun h => hused (Finset.mem_filter.1 h).2
  rw [freeCount, freeCount, hinsert, Finset.card_insert_of_notMem hnot]

/-- The cells of a list are released. -/
theorem freeCount_releaseAll (hnodup : l.Nodup) (hmem : ∀ c ∈ l, c ∈ S ∧ t c ≠ .free) :
    freeCount (release t l) S = freeCount t S + l.length := by
  induction l generalizing t with
  | nil => rw [release_nil, List.length_nil, Nat.add_zero]
  | cons c l ih =>
    obtain ⟨hnot, hnodup⟩ := List.nodup_cons.1 hnodup
    obtain ⟨hc, hused⟩ := hmem c List.mem_cons_self
    rw [release_cons, ih hnodup, freeCount_release hc hused, List.length_cons]
    · omega
    · intro d hd
      obtain ⟨hS, hne⟩ := hmem d (List.mem_cons_of_mem _ hd)
      rw [Function.update_of_ne fun h : d = c => hnot (h ▸ hd)]
      exact ⟨hS, hne⟩

/-- A chain of one cell is begun, if the cell was free. -/
theorem Keeps.create (h : Keeps t S L) (hr : r ∈ S) (hfree : t r = .free) :
    Keeps (Function.update t r .last) S ([r] :: L) := by
  have hnot : r ∉ L.flatten := by
    intro hmem
    obtain ⟨l, hl, hrl⟩ := List.mem_flatten.1 hmem
    exact h.not_mem hfree hl hrl
  refine ⟨fun l hl => ?_, ?_, fun c hc => ?_, fun c hc hout => ?_⟩
  · rcases List.mem_cons.1 hl with rfl | hold
    · exact ⟨r, .last (Function.update_self ..)⟩
    · obtain ⟨c, hchain⟩ := h.chain l hold
      refine ⟨c, hchain.congr fun d hd => Function.update_of_ne ?_ _ _⟩
      rintro rfl
      exact h.not_mem hfree hold hd
  · rw [List.flatten_cons, List.singleton_append]
    exact List.nodup_cons.2 ⟨hnot, h.nodup⟩
  · rw [List.flatten_cons, List.singleton_append] at hc
    rcases List.mem_cons.1 hc with rfl | hc
    · exact hr
    · exact h.mem c hc
  · rw [List.flatten_cons, List.singleton_append, List.mem_cons, not_or] at hout
    rw [Function.update_of_ne hout.1]
    exact h.rest c hc hout.2

omit [DecidableEq ι] in
/-- The order of the chains does not matter. -/
theorem Keeps.perm {L' : List (List ι)} (h : Keeps t S L) (hp : L.Perm L') : Keeps t S L' := by
  have hflat : L.flatten.Perm L'.flatten := hp.flatten
  refine ⟨fun l hl => h.chain l (hp.mem_iff.2 hl), hflat.nodup_iff.1 h.nodup,
    fun c hc => h.mem c (hflat.mem_iff.2 hc), fun c hc hout => h.rest c hc ?_⟩
  rwa [hflat.mem_iff]

omit [DecidableEq ι] in
/-- A cell is in one chain. -/
theorem Keeps.eq_of_mem {l' : List ι} {c : ι} (h : Keeps t S L) (hl : l ∈ L) (hl' : l' ∈ L)
    (hc : c ∈ l) (hc' : c ∈ l') : l = l' := by
  by_contra hne
  have hsymm : Std.Symm (@List.Disjoint ι) := ⟨fun _ _ => List.Disjoint.symm⟩
  exact (List.nodup_flatten.1 h.nodup).2.forall hl hl' hne hc hc'

omit [DecidableEq ι] in
/-- Chains off the cells that change. -/
theorem Keeps.chain_congr {t' : ι → Link ι} (h : Keeps t S (l :: L)) {l' : List ι} (hl' : l' ∈ L)
    (heq : ∀ d, d ∈ l' → d ∉ l → t' d = t d) : ∃ c, Chain t' c l' := by
  obtain ⟨c, hchain⟩ := h.chain l' (List.mem_cons_of_mem _ hl')
  refine ⟨c, hchain.congr fun d hd => heq d hd fun hdl => ?_⟩
  have hdisj := (List.nodup_append.1 (List.flatten_cons ▸ h.nodup)).2.2
  exact hdisj d hdl d (List.mem_flatten_of_mem hl' hd) rfl

/-- A chain is extended by a cell that was free. -/
theorem Keeps.extend (h : Keeps t S (l :: L)) (hr : r ∈ S) (hfree : t r = .free)
    (hp : l.getLast? = some p) :
    Keeps (Function.update (Function.update t r .last) p (.next r)) S ((l ++ [r]) :: L) := by
  have hpl : p ∈ l := List.mem_of_getLast? hp
  have hrl : r ∉ l := h.not_mem hfree List.mem_cons_self
  have hrp : r ≠ p := fun heq => hrl (heq ▸ hpl)
  have hrL : r ∉ L.flatten := by
    intro hmem
    obtain ⟨l', hl', hrl'⟩ := List.mem_flatten.1 hmem
    exact h.not_mem hfree (List.mem_cons_of_mem _ hl') hrl'
  have hflat : ((l ++ [r]) :: L).flatten.Perm (r :: (l :: L).flatten) := by
    rw [List.flatten_cons, List.flatten_cons, List.append_assoc]
    exact List.perm_middle
  refine ⟨fun l' hl' => ?_, ?_, fun c hc => ?_, fun c hc hout => ?_⟩
  · rcases List.mem_cons.1 hl' with rfl | hold
    · obtain ⟨c, hchain⟩ := h.chain l List.mem_cons_self
      refine ⟨c, hchain.append hp ?_ (Function.update_self ..) fun d hd hne => ?_⟩
      · rw [Function.update_of_ne hrp, Function.update_self]
      · rw [Function.update_of_ne hne, Function.update_of_ne fun heq : d = r => hrl (heq ▸ hd)]
    · refine h.chain_congr hold fun d hd hdl => ?_
      rw [Function.update_of_ne fun heq : d = p => hdl (heq ▸ hpl), Function.update_of_ne]
      rintro rfl
      exact hrL (List.mem_flatten_of_mem hold hd)
  · refine hflat.nodup_iff.2 (List.nodup_cons.2 ⟨?_, h.nodup⟩)
    rw [List.flatten_cons, List.mem_append, not_or]
    exact ⟨hrl, hrL⟩
  · rcases List.mem_cons.1 (hflat.mem_iff.1 hc) with rfl | hc
    · exact hr
    · exact h.mem c hc
  · rw [hflat.mem_iff, List.mem_cons, not_or] at hout
    have hcp : c ≠ p := by
      rintro rfl
      exact hout.2 (List.mem_flatten_of_mem List.mem_cons_self hpl)
    rw [Function.update_of_ne hcp, Function.update_of_ne hout.1]
    exact h.rest c hc hout.2

/-- The cells that `l'` has and `l` has not were free, and no cell has become free. -/
structure TakesFree (t : ι → Link ι) (l : List ι) (t' : ι → Link ι) (l' : List ι) : Prop where
  free : ∀ c ∈ l', c ∉ l → t c = .free
  kept : ∀ c, t' c = .free → t c = .free

namespace TakesFree

variable {t' t'' : ι → Link ι} {l'' : List ι}

omit [DecidableEq ι] in
theorem refl (t : ι → Link ι) (l : List ι) : TakesFree t l t l :=
  ⟨fun _ hc hnot => absurd hc hnot, fun _ => id⟩

omit [DecidableEq ι] in
theorem trans (h : TakesFree t l t' l') (h' : TakesFree t' l' t'' l'') : TakesFree t l t'' l'' := by
  refine ⟨fun c hc hnot => ?_, fun c hfree => h.kept c (h'.kept c hfree)⟩
  by_cases hc' : c ∈ l'
  · exact h.free c hc' hnot
  · exact h.kept c (h'.free c hc hc')

/-- A chain is extended by a free cell. -/
theorem append (hfree : t r = .free) :
    TakesFree t l (Function.update (Function.update t r .last) p (.next r)) (l ++ [r]) := by
  refine ⟨fun c hc hnot => ?_, fun c hfree' => ?_⟩
  · rcases List.mem_append.1 hc with hold | hnew
    · exact absurd hold hnot
    · exact List.mem_singleton.1 hnew ▸ hfree
  · by_cases hp : c = p
    · rw [hp, Function.update_self] at hfree'
      cases hfree'
    rw [Function.update_of_ne hp] at hfree'
    by_cases hr : c = r
    · exact hr ▸ hfree
    · rwa [Function.update_of_ne hr] at hfree'

end TakesFree

/-- A chain is released: its cells are free, and the other chains stay. -/
theorem Keeps.remove (h : Keeps t S (l :: L)) : Keeps (release t l) S L := by
  have happ := List.nodup_append.1 (List.flatten_cons ▸ h.nodup)
  refine ⟨fun l' hl' => h.chain_congr hl' fun d _ hdl => if_neg hdl, happ.2.1, fun c hc => ?_,
    fun c hc hout => ?_⟩
  · refine h.mem c ?_
    rw [List.flatten_cons, List.mem_append]
    exact .inr hc
  · by_cases hcl : c ∈ l
    · exact .inl (if_pos hcl)
    · rw [release, if_neg hcl]
      refine h.rest c hc ?_
      rw [List.flatten_cons, List.mem_append, not_or]
      exact ⟨hcl, hout⟩

end Link

end Karnix.Library
