import Mathlib.Data.List.Basic
import Mathlib.Data.Nat.Notation

/-!
# Layout of C structures

A structure type is a list of members, each with a size and an alignment.  A compiler that
lays members out in declaration order places each at the next multiple of its alignment,
and rounds the size of the whole up to the largest alignment.
-/

namespace Karnix.Library

universe u

structure Member (ι : Type u) where
  name : ι
  size : ℕ
  align : ℕ

/-- A member with the offset it is placed at. -/
structure Placed (ι : Type u) where
  name : ι
  offset : ℕ
  size : ℕ

namespace StructLayout

variable {ι : Type u}

/-- The least multiple of `a` that is at least `n`. -/
def alignUp (a n : ℕ) : ℕ := (n + a - 1) / a * a

/-- The members placed one after the other, the first not before offset `o`. -/
def place : ℕ → List (Member ι) → List (Placed ι)
  | _, [] => []
  | o, m :: ms =>
    ⟨m.name, alignUp m.align o, m.size⟩ :: place (alignUp m.align o + m.size) ms

/-- The first offset behind all members. -/
def endOffset : ℕ → List (Member ι) → ℕ
  | o, [] => o
  | o, m :: ms => endOffset (alignUp m.align o + m.size) ms

/-- `sizeof`: the end of the last member, rounded up to the largest alignment. -/
def sizeOf (ms : List (Member ι)) : ℕ :=
  alignUp ((ms.map Member.align).foldl max 1) (endOffset 0 ms)

/-- Where the member of a given name is placed. -/
def find? [DecidableEq ι] (ms : List (Member ι)) (name : ι) : Option (Placed ι) :=
  (place 0 ms).find? fun p => p.name = name

/-! ## Members do not overlap -/

theorem le_alignUp {a : ℕ} (ha : 0 < a) (n : ℕ) : n ≤ alignUp a n := by
  unfold alignUp
  have hdiv := Nat.div_add_mod (n + a - 1) a
  have hmod := Nat.mod_lt (n + a - 1) ha
  have hcomm : a * ((n + a - 1) / a) = (n + a - 1) / a * a := Nat.mul_comm _ _
  omega

theorem le_endOffset {ms : List (Member ι)} (h : ∀ m ∈ ms, 0 < m.align) (o : ℕ) :
    o ≤ endOffset o ms := by
  induction ms generalizing o with
  | nil => exact Nat.le_refl o
  | cons m ms ih =>
    have hm := le_alignUp (h m (List.mem_cons_self ..)) o
    have hrest := ih (fun m' hm' => h m' (List.mem_cons_of_mem _ hm')) (alignUp m.align o + m.size)
    simp only [endOffset]
    omega

/-- Every placed member lies between the first offset and the end. -/
theorem place_bounds {ms : List (Member ι)} (h : ∀ m ∈ ms, 0 < m.align) {o : ℕ}
    {p : Placed ι} (hp : p ∈ place o ms) : o ≤ p.offset ∧ p.offset + p.size ≤ endOffset o ms := by
  induction ms generalizing o with
  | nil => simp [place] at hp
  | cons m ms ih =>
    have hm := le_alignUp (h m (List.mem_cons_self ..)) o
    have hms : ∀ m' ∈ ms, 0 < m'.align := fun m' hm' => h m' (List.mem_cons_of_mem _ hm')
    simp only [place, List.mem_cons] at hp
    rcases hp with rfl | hp
    · exact ⟨hm, le_endOffset hms _⟩
    · have := ih hms hp
      simp only [endOffset]
      omega

/-- Members are placed in order, each behind the one before. -/
theorem place_pairwise {ms : List (Member ι)} (h : ∀ m ∈ ms, 0 < m.align) (o : ℕ) :
    (place o ms).Pairwise fun p q => p.offset + p.size ≤ q.offset := by
  induction ms generalizing o with
  | nil => exact List.Pairwise.nil
  | cons m ms ih =>
    have hms : ∀ m' ∈ ms, 0 < m'.align := fun m' hm' => h m' (List.mem_cons_of_mem _ hm')
    refine List.Pairwise.cons ?_ (ih hms _)
    intro q hq
    exact (place_bounds hms hq).1

/-- A placed member has the name and the size it was declared with. -/
theorem exists_of_mem_place {ms : List (Member ι)} {o : ℕ} {p : Placed ι} (hp : p ∈ place o ms) :
    ∃ m ∈ ms, m.name = p.name ∧ m.size = p.size := by
  induction ms generalizing o with
  | nil => simp [place] at hp
  | cons m ms ih =>
    rcases List.mem_cons.mp hp with rfl | hrest
    · exact ⟨m, List.mem_cons_self .., rfl, rfl⟩
    · obtain ⟨m', hm', h⟩ := ih hrest
      exact ⟨m', List.mem_cons_of_mem m hm', h⟩

theorem mem_place_of_mem {ms : List (Member ι)} {m : Member ι} (hm : m ∈ ms) (o : ℕ) :
    ∃ p ∈ place o ms, p.name = m.name := by
  induction ms generalizing o with
  | nil => simp at hm
  | cons m' ms ih =>
    rcases List.mem_cons.mp hm with rfl | hrest
    · exact ⟨_, List.mem_cons_self .., rfl⟩
    · obtain ⟨p, hp, h⟩ := ih hrest (alignUp m'.align o + m'.size)
      exact ⟨p, List.mem_cons_of_mem _ hp, h⟩

variable [DecidableEq ι]

/-- Every member is placed somewhere. -/
theorem exists_find? {ms : List (Member ι)} {m : Member ι} (hm : m ∈ ms) :
    ∃ p, find? ms m.name = some p := by
  obtain ⟨p, hp, hname⟩ := mem_place_of_mem hm 0
  apply Option.isSome_iff_exists.mp
  exact List.find?_isSome.mpr ⟨p, hp, by simpa using hname⟩

theorem find?_mem {ms : List (Member ι)} {name : ι} {p : Placed ι} (h : find? ms name = some p) :
    p ∈ place 0 ms ∧ p.name = name := by
  refine ⟨List.mem_of_find?_eq_some h, ?_⟩
  simpa using List.find?_some h

theorem find?_bounds {ms : List (Member ι)} (h : ∀ m ∈ ms, 0 < m.align) {name : ι}
    {p : Placed ι} (hp : find? ms name = some p) : p.offset + p.size ≤ sizeOf ms := by
  have hend := (place_bounds h (find?_mem hp).1).2
  have hpos : 0 < (ms.map Member.align).foldl max 1 := by
    have : ∀ (l : List ℕ) (k : ℕ), 0 < k → 0 < l.foldl max k := by
      intro l
      induction l with
      | nil => exact fun k hk => hk
      | cons a l ih => exact fun k hk => ih _ (Nat.lt_of_lt_of_le hk (Nat.le_max_left k a))
    exact this _ 1 Nat.one_pos
  exact Nat.le_trans hend (le_alignUp hpos _)

/-- **Members of different names occupy different bytes.** -/
theorem find?_disjoint {ms : List (Member ι)} (h : ∀ m ∈ ms, 0 < m.align) {n n' : ι}
    (hne : n ≠ n') {p q : Placed ι} (hp : find? ms n = some p) (hq : find? ms n' = some q) :
    p.offset + p.size ≤ q.offset ∨ q.offset + q.size ≤ p.offset := by
  obtain ⟨hp, hpn⟩ := find?_mem hp
  obtain ⟨hq, hqn⟩ := find?_mem hq
  obtain ⟨i, hi, rfl⟩ := List.getElem_of_mem hp
  obtain ⟨j, hj, rfl⟩ := List.getElem_of_mem hq
  have hpair := List.pairwise_iff_getElem.mp (place_pairwise h 0)
  rcases Nat.lt_trichotomy i j with hij | rfl | hij
  · exact Or.inl (hpair i j hi hj hij)
  · exact absurd (hpn.symm.trans hqn) hne
  · exact Or.inr (hpair j i hj hi hij)

end StructLayout

end Karnix.Library
