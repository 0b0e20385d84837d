import Mathlib.Data.Nat.Init
import Mathlib.Logic.Function.Basic
import Karnix.Library.Bytes
import Karnix.Library.Memory

/-!
# The descriptor loop of `usb10_init`

The response to the configuration request is a list of descriptors, each linked to the next by
its `bLength` byte.  The loop goes along the list and keeps the first descriptor of each of
three types in a variable of its own; a variable whose first byte is zero is free.

The response lies at the start of the array `bulk_config_data`; what is behind it is arbitrary.
Offsets are counted from the start of the array.
-/

namespace Karnix.Usb.Descriptors

open Karnix.Library

/-! ## Section 1: The loop -/

/-- The descriptor types the loop looks for. -/
inductive Kind where
  | config | interface | endpoint
  deriving DecidableEq, Repr

/-- `bDescriptorType`, for the descriptors that are looked for. -/
def Kind.code : Kind → Byte
  | .config => 2
  | .interface => 4
  | .endpoint => 5

/-- `sizeof` of the descriptor structure, which is packed. -/
def Kind.size : Kind → ℕ
  | .config => 9
  | .interface => 9
  | .endpoint => 7

instance (k : Kind) : NeZero k.size := ⟨by cases k <;> decide⟩

/-- The case of the `switch` a type byte selects. -/
def Kind.ofCode? (b : Byte) : Option Kind :=
  if b = 2 then some .config
  else if b = 4 then some .interface
  else if b = 5 then some .endpoint
  else none

/-- `usb10_config_descr`, `usb10_interface_descr` and `usb10_endpoint_descr`, byte by byte. -/
abbrev Globals := (k : Kind) → Fin k.size → Byte

/-- What the loop changes, and the offsets it has read, oldest first. -/
structure Parse where
  bytesParsed : ℕ
  descr : Globals
  reads : List ℕ

/-- The bytes `memcpy` takes from offset `p` on. -/
def copied (data : Memory Byte) (p : ℕ) (k : Kind) : Fin k.size → Byte := fun i => data (p + i)

/-- The `switch`: the variables, and what it reads apart from the type byte. -/
def saveFirst (data : Memory Byte) (p : ℕ) (descr : Globals) : Globals × List ℕ :=
  match Kind.ofCode? (data (p + 1)) with
  | some k =>
    if descr k 0 = 0 then (Function.update descr k (copied data p k), List.range' p k.size)
    else (descr, [])
  | none => (descr, [])

/-- The body of the loop. -/
def parseStep (data : Memory Byte) (s : Parse) : Parse :=
  let p := s.bytesParsed
  let saved := saveFirst data p s.descr
  { bytesParsed := p + (data p).toNat
    descr := saved.1
    reads := s.reads ++ (p + 1) :: saved.2 ++ [p] }

/-- The loop, with a bound on its rounds. -/
def parseLoop (data : Memory Byte) (ret : ℕ) : ℕ → Parse → Option Parse
  | 0, _ => none
  | fuel + 1, s =>
    if s.bytesParsed < ret then parseLoop data ret fuel (parseStep data s) else some s

/-- The old descriptors are marked as obsolete. -/
def start (globals : Globals) : Parse where
  bytesParsed := 0
  descr := fun k i => if i = 0 then 0 else globals k i
  reads := []

/-! ## Section 2: The list of descriptors -/

variable (data : Memory Byte) (ret : ℕ)

/-- The offsets of the descriptors linked from offset `p` on. -/
inductive Chain : ℕ → List ℕ → Prop where
  | done {p : ℕ} (h : ret ≤ p) : Chain p []
  | link {p : ℕ} {ps : List ℕ} (h : p < ret) (hps : Chain (p + (data p).toNat) ps) :
      Chain p (p :: ps)

/-- A descriptor of the list is of the given type. -/
def IsKind (k : Kind) (p : ℕ) : Bool := data (p + 1) = k.code

/-- It has all its fields, and was received as a whole. -/
def Complete (k : Kind) (p : ℕ) : Prop := k.size ≤ (data p).toNat ∧ p + (data p).toNat ≤ ret

instance (k : Kind) (p : ℕ) : Decidable (Complete data ret k p) := by
  unfold Complete
  infer_instance

/-- The first complete descriptor of a type. -/
def firstComplete (k : Kind) (ps : List ℕ) : Option ℕ :=
  ps.find? fun p => IsKind data k p && decide (Complete data ret k p)

/-- The loop ends, has read received bytes only, and leaves for each type the first complete
descriptor, or a variable marked as obsolete. -/
def ParsesWell (globals : Globals) : Prop :=
  ∃ fuel s ps, parseLoop data ret fuel (start globals) = some s ∧ Chain data ret 0 ps ∧
    (∀ p ∈ s.reads, p < ret) ∧
    ∀ k, (∀ p, firstComplete data ret k ps = some p → s.descr k = copied data p k) ∧
      (firstComplete data ret k ps = none → s.descr k 0 = 0)

/-- The offsets that links lead to. -/
inductive Linked : ℕ → Prop where
  | first (h : 0 < ret) : Linked 0
  | next {p : ℕ} (hp : Linked p) (h : p + (data p).toNat < ret) : Linked (p + (data p).toNat)

/-- Every descriptor has a length, its type byte was received, and the first of each of the
three types is complete. -/
structure WellLinked : Prop where
  length : ∀ p, Linked data ret p → data p ≠ 0
  type : ∀ p, Linked data ret p → p + 1 < ret
  complete : ∀ k p, Linked data ret p → IsKind data k p = true →
    (∀ q < p, Linked data ret q → IsKind data k q = false) → Complete data ret k p

/-! ## Section 3: Lists that end -/

variable {data ret} {p q : ℕ} {ps ps' : List ℕ}

theorem Chain.unique (h : Chain data ret p ps) (h' : Chain data ret p ps') : ps = ps' := by
  induction h generalizing ps' with
  | done h =>
    cases h' with
    | done => rfl
    | link hlt => exact absurd h (Nat.not_le.mpr hlt)
  | link h _ ih =>
    cases h' with
    | done hge => exact absurd hge (Nat.not_le.mpr h)
    | link _ hps' => rw [ih hps']

/-- A descriptor without a length would be linked to itself, and the list would not end. -/
theorem Chain.length_ne (h : Chain data ret p ps) : ∀ q ∈ ps, data q ≠ 0 := by
  induction h with
  | done => simp
  | @link p ps h hps ih =>
    intro q hq
    rcases List.mem_cons.mp hq with rfl | hq
    · intro hzero
      have hself : Chain data ret q ps := by
        have hps' := hps
        rwa [hzero] at hps'
      exact absurd (congrArg List.length (hself.unique (Chain.link h hps))) (by simp)
    · exact ih q hq

/-- The list goes forward: every descriptor lies behind the ones before it. -/
theorem Chain.sorted (h : Chain data ret p ps) :
    (∀ q ∈ ps, p ≤ q) ∧ ps.Pairwise (· < ·) := by
  induction h with
  | done => simp
  | @link p ps h hps ih =>
    have hne : data p ≠ 0 := (Chain.link h hps).length_ne p List.mem_cons_self
    have hpos : 0 < (data p).toNat := Nat.pos_of_ne_zero fun hzero =>
      hne (BitVec.eq_of_toNat_eq (by simpa using hzero))
    obtain ⟨hge, hsorted⟩ := ih
    refine ⟨fun q hq => ?_, List.pairwise_cons.mpr ⟨fun q hq => ?_, hsorted⟩⟩
    · rcases List.mem_cons.mp hq with rfl | hq
      · exact Nat.le_refl _
      · exact Nat.le_trans (Nat.le_add_right _ _) (hge q hq)
    · exact Nat.lt_of_lt_of_le (Nat.lt_add_of_pos_right hpos) (hge q hq)

theorem Chain.next_mem (h : Chain data ret p ps) (hq : q ∈ ps)
    (hlt : q + (data q).toNat < ret) : q + (data q).toNat ∈ ps := by
  induction h with
  | done => cases hq
  | @link p ps h hps ih =>
    rcases List.mem_cons.mp hq with rfl | hq
    · cases hps with
      | done hge => exact absurd hge (Nat.not_le.mpr hlt)
      | link => exact List.mem_cons_of_mem _ List.mem_cons_self
    · exact List.mem_cons_of_mem _ (ih hq)

theorem Chain.linked_of_mem (h : Chain data ret p ps) (hp : p < ret → Linked data ret p) :
    ∀ q ∈ ps, Linked data ret q := by
  induction h with
  | done => simp
  | @link p ps h hps ih =>
    intro q hq
    rcases List.mem_cons.mp hq with rfl | hq
    · exact hp h
    · exact ih (fun hlt => Linked.next (hp h) hlt) q hq

/-- The list holds the offsets that links lead to. -/
theorem Chain.mem_iff (h : Chain data ret 0 ps) : q ∈ ps ↔ Linked data ret q := by
  refine ⟨h.linked_of_mem Linked.first q, fun hq => ?_⟩
  induction hq with
  | first hret =>
    cases h with
    | done hge => exact absurd hge (Nat.not_le.mpr hret)
    | link => exact List.mem_cons_self
  | next _ hlt ih => exact h.next_mem ih hlt

/-- If every descriptor has a length, the list ends. -/
theorem exists_chain (hne : ∀ q, Linked data ret q → data q ≠ 0) :
    ∃ ps, Chain data ret 0 ps := by
  have hfrom : ∀ n p, ret - p = n → (p < ret → Linked data ret p) →
      ∃ ps, Chain data ret p ps := by
    intro n
    induction n using Nat.strong_induction_on with
    | h n ih =>
      intro p hn hp
      by_cases hlt : p < ret
      · have hpos : 0 < (data p).toNat := Nat.pos_of_ne_zero fun hzero =>
          hne p (hp hlt) (BitVec.eq_of_toNat_eq (by simpa using hzero))
        obtain ⟨ps, hps⟩ := ih (ret - (p + (data p).toNat)) (by omega) _ rfl
          fun hlt' => Linked.next (hp hlt) hlt'
        exact ⟨p :: ps, Chain.link hlt hps⟩
      · exact ⟨[], Chain.done (Nat.le_of_not_lt hlt)⟩
  exact hfrom _ 0 rfl Linked.first

/-! ## Section 4: What the loop does on a list -/

variable {s s' : Parse} {k : Kind}

theorem ofCode?_eq_some {b : Byte} : Kind.ofCode? b = some k ↔ b = k.code := by
  unfold Kind.ofCode?
  constructor
  · intro h
    split_ifs at h with h₂ h₄ h₅ <;> obtain rfl := Option.some.inj h
    · exact h₂
    · exact h₄
    · exact h₅
  · rintro rfl
    cases k <;> rfl

theorem parseStep_descr (s : Parse) (k : Kind) :
    (parseStep data s).descr k =
      if IsKind data k s.bytesParsed = true ∧ s.descr k 0 = 0 then copied data s.bytesParsed k
      else s.descr k := by
  have hkind : IsKind data k s.bytesParsed = true ↔
      Kind.ofCode? (data (s.bytesParsed + 1)) = some k := by
    rw [ofCode?_eq_some, IsKind, decide_eq_true_eq]
  simp only [parseStep, saveFirst, hkind]
  cases hcode : Kind.ofCode? (data (s.bytesParsed + 1)) with
  | none => simp
  | some k' =>
    dsimp only
    by_cases hk : k' = k
    · subst hk
      by_cases hfree : s.descr k' 0 = 0
      · rw [if_pos hfree, if_pos ⟨rfl, hfree⟩]
        exact Function.update_self ..
      · rw [if_neg hfree, if_neg fun h => hfree h.2]
    · have hne : ¬ (some k' = some k ∧ s.descr k 0 = 0) := fun h => hk (Option.some.inj h.1)
      rw [if_neg hne]
      by_cases hfree : s.descr k' 0 = 0
      · rw [if_pos hfree]
        exact Function.update_of_ne (Ne.symm hk) ..
      · rw [if_neg hfree]

theorem range'_lt_iff {n : ℕ} (hn : 0 < n) : (∀ a ∈ List.range' p n, a < ret) ↔ p + n ≤ ret := by
  constructor
  · intro h
    have hlast := h (p + (n - 1)) (List.mem_range'_1.mpr (by omega))
    omega
  · intro h a ha
    have := List.mem_range'_1.mp ha
    omega

/-- What the body reads: the length and the type, and the structure it copies. -/
theorem parseStep_reads (s : Parse) :
    (∀ a ∈ (parseStep data s).reads, a < ret) ↔
      (∀ a ∈ s.reads, a < ret) ∧ s.bytesParsed + 1 < ret ∧
        ∀ k, IsKind data k s.bytesParsed = true → s.descr k 0 = 0 →
          s.bytesParsed + k.size ≤ ret := by
  have hsaved : (∀ a ∈ (saveFirst data s.bytesParsed s.descr).2, a < ret) ↔
      ∀ k, IsKind data k s.bytesParsed = true → s.descr k 0 = 0 →
        s.bytesParsed + k.size ≤ ret := by
    have hkind : ∀ k, IsKind data k s.bytesParsed = true ↔
        Kind.ofCode? (data (s.bytesParsed + 1)) = some k := fun k => by
      rw [ofCode?_eq_some, IsKind, decide_eq_true_eq]
    simp only [saveFirst, hkind]
    cases hcode : Kind.ofCode? (data (s.bytesParsed + 1)) with
    | none => simp
    | some k' =>
      simp only [Option.some.injEq, forall_eq']
      by_cases hfree : s.descr k' 0 = 0
      · rw [if_pos hfree, range'_lt_iff (NeZero.pos k'.size)]
        exact ⟨fun h _ => h, fun h => h hfree⟩
      · rw [if_neg hfree]
        exact ⟨fun _ h => absurd h hfree, fun _ => by simp⟩
  rw [← hsaved]
  simp only [parseStep, List.mem_append, List.mem_cons, List.not_mem_nil, or_false]
  constructor
  · intro h
    exact ⟨fun a ha => h a (Or.inl (Or.inl ha)), h _ (Or.inl (Or.inr (Or.inl rfl))),
      fun a ha => h a (Or.inl (Or.inr (Or.inr ha)))⟩
  · rintro ⟨hbefore, htype, hcopied⟩ a ((ha | rfl | ha) | rfl)
    · exact hbefore a ha
    · exact htype
    · exact hcopied a ha
    · exact Nat.lt_of_succ_lt htype

/-- The variable of a type after the loop has gone along a list. -/
theorem descr_of_chain (h : Chain data ret s.bytesParsed ps) (k : Kind) :
    ((parseStep data)^[ps.length] s).descr k =
      if s.descr k 0 = 0 then
        (ps.find? (IsKind data k)).elim (s.descr k) fun q => copied data q k
      else s.descr k := by
  generalize hp : s.bytesParsed = p at h
  induction h generalizing s with
  | done => exact (ite_self _).symm
  | @link p ps h hps ih =>
    have hne : data p ≠ 0 := (Chain.link h hps).length_ne p List.mem_cons_self
    have hnext := ih (s := parseStep data s) (by rw [← hp]; rfl)
    rw [List.length_cons, Function.iterate_succ_apply, hnext]
    by_cases hfree : s.descr k 0 = 0
    · rw [if_pos hfree]
      cases hkind : IsKind data k p with
      | true =>
        -- the copy has a length, so the variable is taken from now on
        have htaken : ¬ copied data p k 0 = 0 := by simpa [copied] using hne
        have hstep : (parseStep data s).descr k = copied data p k := by
          rw [parseStep_descr, hp, if_pos ⟨hkind, hfree⟩]
        rw [hstep, if_neg htaken, List.find?_cons_of_pos hkind]
        rfl
      | false =>
        have hstep : (parseStep data s).descr k = s.descr k := by
          rw [parseStep_descr, hp, if_neg fun h => Bool.false_ne_true (hkind ▸ h.1)]
        rw [hstep, if_pos hfree, List.find?_cons_of_neg (by rw [hkind]; decide)]
    · have hstep : (parseStep data s).descr k = s.descr k := by
        rw [parseStep_descr, if_neg fun h => hfree h.2]
      rw [hstep, if_neg hfree, if_neg hfree]

theorem reads_of_chain (h : Chain data ret s.bytesParsed ps) :
    (∀ a ∈ ((parseStep data)^[ps.length] s).reads, a < ret) ↔
      (∀ a ∈ s.reads, a < ret) ∧ (∀ q ∈ ps, q + 1 < ret) ∧
        ∀ k q, s.descr k 0 = 0 → ps.find? (IsKind data k) = some q → q + k.size ≤ ret := by
  generalize hp : s.bytesParsed = p at h
  induction h generalizing s with
  | done => simp
  | @link p ps h hps ih =>
    have hne : data p ≠ 0 := (Chain.link h hps).length_ne p List.mem_cons_self
    have hnext := ih (s := parseStep data s) (by rw [← hp]; rfl)
    have htaken : ∀ k, ¬ copied data p k 0 = 0 := fun k => by simpa [copied] using hne
    rw [List.length_cons, Function.iterate_succ_apply, hnext, parseStep_reads, hp]
    simp only [parseStep_descr, hp, List.forall_mem_cons]
    constructor
    · rintro ⟨⟨hbefore, htype, hcopied⟩, htypes, hrest⟩
      refine ⟨hbefore, ⟨htype, htypes⟩, fun k q hfree hfind => ?_⟩
      cases hkind : IsKind data k p with
      | true =>
        rw [List.find?_cons_of_pos hkind] at hfind
        obtain rfl := Option.some.inj hfind
        exact hcopied k hkind hfree
      | false =>
        rw [List.find?_cons_of_neg (by rw [hkind]; decide)] at hfind
        exact hrest k q (by simp [hkind, hfree]) hfind
    · rintro ⟨hbefore, ⟨htype, htypes⟩, hfirst⟩
      refine ⟨⟨hbefore, htype, fun k hkind hfree => ?_⟩, htypes, fun k q hfree hfind => ?_⟩
      · exact hfirst k p hfree (List.find?_cons_of_pos hkind)
      · cases hkind : IsKind data k p with
        | true =>
          by_cases hslot : s.descr k 0 = 0
          · rw [if_pos ⟨hkind, hslot⟩] at hfree
            exact absurd hfree (htaken k)
          · rw [if_neg fun h => hslot h.2] at hfree
            exact absurd hfree hslot
        | false =>
          rw [if_neg fun h => Bool.false_ne_true (hkind ▸ h.1)] at hfree
          exact hfirst k q hfree ((List.find?_cons_of_neg (by rw [hkind]; decide)).trans hfind)

/-! ## Section 5: The loop and the list -/

theorem loop_of_chain (h : Chain data ret s.bytesParsed ps) :
    parseLoop data ret (ps.length + 1) s = some ((parseStep data)^[ps.length] s) := by
  generalize hp : s.bytesParsed = p at h
  induction h generalizing s with
  | done hge =>
    rw [parseLoop, if_neg (by omega)]
    rfl
  | @link p ps hlt hps ih =>
    rw [List.length_cons, parseLoop, if_pos (by omega), ih (by rw [← hp]; rfl),
      Function.iterate_succ_apply]

theorem chain_of_loop {fuel : ℕ} (h : parseLoop data ret fuel s = some s') :
    ∃ ps, Chain data ret s.bytesParsed ps ∧ s' = (parseStep data)^[ps.length] s := by
  induction fuel generalizing s with
  | zero => cases h
  | succ fuel ih =>
    rw [parseLoop] at h
    split at h
    · rename_i hlt
      obtain ⟨ps, hps, rfl⟩ := ih h
      exact ⟨s.bytesParsed :: ps, Chain.link hlt hps, rfl⟩
    · rename_i hge
      obtain rfl := Option.some.inj h
      exact ⟨[], Chain.done (Nat.le_of_not_lt hge), rfl⟩

theorem Chain.next_le (h : Chain data ret p ps) {q r : ℕ} (hq : q ∈ ps) (hr : r ∈ ps)
    (hlt : q < r) : q + (data q).toNat ≤ r := by
  induction h with
  | done => cases hq
  | @link p ps h hps ih =>
    have hge := (Chain.link h hps).sorted.1
    rcases List.mem_cons.mp hr with rfl | hr'
    · exact absurd hlt (Nat.not_lt.mpr (hge q hq))
    · rcases List.mem_cons.mp hq with rfl | hq'
      · exact hps.sorted.1 r hr'
      · exact ih hq' hr'

/-- The first descriptor of a type, on the list. -/
theorem Chain.find?_iff (h : Chain data ret 0 ps) :
    ps.find? (IsKind data k) = some p ↔
      Linked data ret p ∧ IsKind data k p = true ∧
        ∀ q < p, Linked data ret q → IsKind data k q = false := by
  constructor
  · intro hfind
    obtain ⟨hkind, as, bs, rfl, hbefore⟩ := List.find?_eq_some_iff_append.mp hfind
    refine ⟨h.mem_iff.mp (by simp), hkind, fun q hlt hq => ?_⟩
    have hsorted := List.pairwise_append.mp h.sorted.2
    have hafter := (List.pairwise_cons.mp hsorted.2.1).1
    rcases List.mem_append.mp (h.mem_iff.mpr hq) with hq | hq
    · simpa using hbefore q hq
    · rcases List.mem_cons.mp hq with rfl | hq
      · exact absurd hlt (Nat.lt_irrefl q)
      · exact absurd hlt (Nat.lt_asymm (hafter q hq))
  · rintro ⟨hp, hkind, hbefore⟩
    obtain ⟨as, bs, rfl⟩ := List.append_of_mem (h.mem_iff.mpr hp)
    refine List.find?_eq_some_iff_append.mpr ⟨hkind, as, bs, rfl, fun q hq => ?_⟩
    have hsorted := List.pairwise_append.mp h.sorted.2
    have hlt : q < p := hsorted.2.2 q hq p List.mem_cons_self
    rw [hbefore q hlt (h.mem_iff.mp (List.mem_append_left _ hq))]
    rfl

/-- A descriptor that is both the first of its type and complete is the first complete one. -/
theorem firstComplete_of_find (hfind : ps.find? (IsKind data k) = some p)
    (hcomplete : Complete data ret k p) : firstComplete data ret k ps = some p := by
  obtain ⟨hkind, as, bs, rfl, hbefore⟩ := List.find?_eq_some_iff_append.mp hfind
  refine List.find?_eq_some_iff_append.mpr
    ⟨by rw [hkind, decide_eq_true hcomplete]; rfl, as, bs, rfl, fun q hq => ?_⟩
  have hnot := hbefore q hq
  cases hkind' : IsKind data k q with
  | true => rw [hkind'] at hnot; exact absurd hnot (by decide)
  | false => rfl

theorem firstComplete_of_none (hfind : ps.find? (IsKind data k) = none) :
    firstComplete data ret k ps = none := by
  refine List.find?_eq_none.mpr fun q hq hboth => ?_
  exact List.find?_eq_none.mp hfind q hq (Bool.and_eq_true_iff.mp hboth).1

/-- **Parsing descriptors.**  The loop does what it should exactly on responses in which every
descriptor has a length and a type byte, and the first one of each type is complete. -/
theorem parsesWell_iff (data : Memory Byte) (ret : ℕ) (globals : Globals) :
    ParsesWell data ret globals ↔ WellLinked data ret := by
  have hfree : ∀ k, (start globals).descr k 0 = 0 := fun k =>
    (if_pos rfl : (if (0 : Fin k.size) = 0 then (0 : Byte) else globals k 0) = 0)
  constructor
  · -- from the run to the response
    rintro ⟨fuel, s, ps, hloop, hchain, hreads, hkinds⟩
    obtain ⟨ps', hchain', rfl⟩ := chain_of_loop hloop
    obtain rfl := hchain'.unique hchain
    obtain ⟨-, htypes, -⟩ := (reads_of_chain hchain').mp hreads
    refine ⟨fun p hp => hchain.length_ne p (hchain.mem_iff.mpr hp),
      fun p hp => htypes p (hchain.mem_iff.mpr hp), fun k p hp hkind hfirst => ?_⟩
    have hmem := hchain.mem_iff.mpr hp
    have hfind := hchain.find?_iff.mpr ⟨hp, hkind, hfirst⟩
    have hdescr := descr_of_chain hchain' k
    rw [if_pos (hfree k), hfind] at hdescr
    cases hcomplete : firstComplete data ret k ps' with
    | none =>
      -- the variable holds the bytes from `p` on, and is not free
      have hzero := (hkinds k).2 hcomplete
      rw [hdescr] at hzero
      exact absurd hzero (hchain.length_ne p hmem)
    | some q =>
      have hcopy := ((hkinds k).1 q hcomplete).symm.trans hdescr
      have hlen : data q = data p := congrFun hcopy 0
      have hq := List.mem_of_find?_eq_some hcomplete
      have hqboth := List.find?_some hcomplete
      obtain ⟨hqkind, hqcomplete⟩ := Bool.and_eq_true_iff.mp hqboth
      have hqc : Complete data ret k q := of_decide_eq_true hqcomplete
      -- no complete descriptor of the type stands before or behind the first one
      rcases Nat.lt_trichotomy p q with hlt | rfl | hgt
      · refine ⟨hlen ▸ hqc.1, Nat.le_trans (hchain.next_le hmem hq hlt) ?_⟩
        exact Nat.le_of_lt (Nat.lt_of_succ_lt (htypes q hq))
      · exact hqc
      · have := hfirst q hgt (hchain.mem_iff.mp hq)
        rw [this] at hqkind
        exact absurd hqkind (by decide)
  · -- from the response to the run
    intro h
    obtain ⟨ps, hchain⟩ := exists_chain h.length
    have hchain' : Chain data ret (start globals).bytesParsed ps := hchain
    have hcomplete : ∀ k q, ps.find? (IsKind data k) = some q → Complete data ret k q := by
      intro k q hfind
      obtain ⟨hq, hkind, hfirst⟩ := hchain.find?_iff.mp hfind
      exact h.complete k q hq hkind hfirst
    refine ⟨_, _, ps, loop_of_chain hchain', hchain, (reads_of_chain hchain').mpr
      ⟨by simp [start], fun q hq => h.type q (hchain.mem_iff.mp hq), fun k q _ hfind => ?_⟩,
      fun k => ?_⟩
    · exact Nat.le_trans (Nat.add_le_add_left (hcomplete k q hfind).1 q) (hcomplete k q hfind).2
    · have hdescr := descr_of_chain hchain' k
      rw [if_pos (hfree k)] at hdescr
      cases hfind : ps.find? (IsKind data k) with
      | none =>
        rw [hfind] at hdescr
        rw [firstComplete_of_none hfind]
        exact ⟨nofun, fun _ => by rw [hdescr]; exact hfree k⟩
      | some q =>
        rw [hfind] at hdescr
        rw [firstComplete_of_find hfind (hcomplete k q hfind)]
        refine ⟨fun p hp => ?_, nofun⟩
        obtain rfl := Option.some.inj hp
        exact hdescr

/-- A configuration descriptor, followed by a byte that is zero. -/
def zeroLength : Memory Byte := fun p => [9, 2, 10, 0, 1, 1, 0, 0x80, 50].getD p 0

/-- The loop does not end on it. -/
theorem not_parsesWell_zeroLength : ¬ ParsesWell zeroLength 10 fun _ _ => 0 := by
  rintro ⟨-, -, ps, -, hchain, -⟩
  have hzero : Linked zeroLength 10 9 := Linked.next (Linked.first (by decide)) (by decide)
  exact hchain.length_ne 9 (hchain.mem_iff.mpr hzero) rfl

end Karnix.Usb.Descriptors
