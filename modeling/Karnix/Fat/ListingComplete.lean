import Karnix.Fat.Cursors

/-!
# What is listed

From the calls of `fat_dir_read` to the whole listing: when the names that are read are those of
the entries, and when the listing has all live entries and nothing else.
-/

namespace Karnix.Fat

open Karnix.Library
open Fallible (Succeeds Fails Ends)

/-! ## Section 1: Names -/

theorem Slot.length_text_le (t : Slot) : t.text.length ≤ 13 :=
  (List.takeWhile_sublist _).length_le

theorem Slot.length_units (t : Slot) : t.units.length = 13 := rfl

/-- The buffer has the texts of fragments, from number `i` on, at their places. -/
def HoldsTexts (g : Memory Byte) : ℕ → List Slot → Prop
  | _, [] => True
  | i, t :: ts => g.load (13 * i) t.text.length = t.text ∧ HoldsTexts g (i + 1) ts

theorem HoldsTexts.append {g : Memory Byte} {i : ℕ} {ts us : List Slot} :
    HoldsTexts g i (ts ++ us) ↔ HoldsTexts g i ts ∧ HoldsTexts g (i + ts.length) us := by
  induction ts generalizing i with
  | nil => exact (and_iff_right trivial).symm
  | cons t ts ih =>
    rw [List.cons_append, HoldsTexts, HoldsTexts, ih, and_assoc, List.length_cons, Nat.add_assoc,
      Nat.add_comm 1]

/-- Behind the places of the fragments nothing is written. -/
theorem storeTexts_of_ge {k : ℕ} (ts : List Slot) (g : Memory Byte) (h : 13 * ts.length ≤ k) :
    storeTexts ts g k = g k := by
  induction ts generalizing g with
  | nil => rfl
  | cons t ts ih =>
    have htext := t.length_text_le
    rw [List.length_cons] at h
    rw [storeTexts, ih _ (by omega)]
    exact Memory.store_of_ge g t.text (by omega)

/-- Each fragment is at its place. -/
theorem holdsTexts_storeTexts (ts : List Slot) (g : Memory Byte) :
    HoldsTexts (storeTexts ts g) 0 ts.reverse := by
  induction ts generalizing g with
  | nil => trivial
  | cons t ts ih =>
    rw [List.reverse_cons, HoldsTexts.append, List.length_reverse, Nat.zero_add]
    refine ⟨ih _, ?_, trivial⟩
    have hkept : (storeTexts ts (g.store (13 * ts.length) t.text)).load (13 * ts.length)
        t.text.length = (g.store (13 * ts.length) t.text).load (13 * ts.length) t.text.length :=
      Memory.load_congr fun i _ => storeTexts_of_ge ts _ (Nat.le_add_right _ i)
    rw [storeTexts, hkept, Memory.load_store_self]

/-- All fragments are full up to the one in which the name ends. -/
def Contiguous : List Slot → Prop
  | [] => True
  | t :: ts => t.text.length = 13 ∧ Contiguous ts ∨ ∀ u ∈ ts, u.text = []

/-- Then the buffer has the texts one behind the other. -/
theorem load_contiguous {g : Memory Byte} {i : ℕ} {ts : List Slot} (h : HoldsTexts g i ts)
    (hc : Contiguous ts) :
    g.load (13 * i) (ts.flatMap Slot.text).length = ts.flatMap Slot.text := by
  induction ts generalizing i with
  | nil => rfl
  | cons t ts ih =>
    rw [List.flatMap_cons, List.length_append]
    rcases hc with ⟨hfull, hrest⟩ | hempty
    · have hnext : 13 * i + t.text.length = 13 * (i + 1) := by omega
      rw [Memory.load_add, h.1, hnext, ih h.2 hrest]
    · have hnil : ts.flatMap Slot.text = [] := List.flatMap_eq_nil_iff.2 hempty
      rw [hnil, List.length_nil, List.append_nil, Nat.add_zero, h.1]

/-- The lower bytes of the characters of a slot. -/
theorem Slot.map_units (t : Slot) :
    t.units.map (fun u => u.setWidth 8) = lfnIndices.map fun i => t.buf (t.idx + i) := by
  rw [Slot.units, List.map_map]
  exact List.map_congr_left fun i _ => be16_low _ _

/-- A character that is shown by a byte is zero if its lower byte is. -/
theorem eq_zero_of_low {x : Byte} {u : BitVec 16} (hx : x.setWidth 16 = u)
    (hu : u.setWidth 8 = (0 : Byte)) : u = 0 := by
  have hlow : x = 0 := by
    rw [← hu, ← hx, BitVec.setWidth_setWidth_of_le x (by decide)]
    exact (BitVec.setWidth_eq x).symm
  rw [← hx, hlow]
  rfl

theorem ne_zero_of_low {u : BitVec 16} (hu : u.setWidth 8 ≠ (0 : Byte)) : (u != 0) = true := by
  refine bne_iff_ne.2 fun h => hu ?_
  rw [h]
  rfl

/-- The slots of a name that bytes show are contiguous. -/
theorem contiguous_of_shown {ts : List Slot} {xs : List Byte}
    (hlen : xs.length = (ts.flatMap Slot.text).length)
    (hxs : xs.map (fun c => c.setWidth 16) =
      (ts.flatMap Slot.units).takeWhile fun c => c != 0) : Contiguous ts := by
  induction ts generalizing xs with
  | nil => trivial
  | cons t ts ih =>
    rw [List.flatMap_cons, List.length_append] at hlen
    rw [List.flatMap_cons] at hxs
    have hsplit := List.takeWhile_append_dropWhile (p := fun c : Byte => c != 0)
      (l := lfnIndices.map fun i => t.buf (t.idx + i))
    rw [← t.map_units] at hsplit
    have htext : (t.units.map fun u => u.setWidth 8).takeWhile (fun c => c != 0) = t.text := by
      rw [t.map_units]
      rfl
    rw [htext] at hsplit
    obtain ⟨us, vs, hunits, hus, hvs⟩ := List.map_eq_append_iff.1 hsplit.symm
    have hall := List.all_takeWhile (p := fun c : Byte => c != 0)
      (l := lfnIndices.map fun i => t.buf (t.idx + i))
    have hpos : ∀ u ∈ us, (u != 0) = true := by
      intro u hu
      refine ne_zero_of_low (bne_iff_ne.1 ?_)
      have hmem : u.setWidth 8 ∈ t.text := hus ▸ List.mem_map_of_mem hu
      exact List.all_eq_true.1 hall _ hmem
    have huslen : us.length = t.text.length := by rw [← hus, List.length_map]
    rw [hunits, List.append_assoc, List.takeWhile_append_of_pos hpos] at hxs
    obtain ⟨xs₁, xs₂, rfl, hxs₁, hxs₂⟩ := List.map_eq_append_iff.1 hxs
    have hxslen : xs₁.length = us.length := by rw [← hxs₁, List.length_map]
    rw [List.length_append] at hlen
    cases vs with
    | nil =>
      -- a full slot
      have hfull : t.text.length = 13 := by
        rw [← huslen, ← t.length_units, hunits, List.append_nil]
      exact Or.inl ⟨hfull, ih (by omega) hxs₂⟩
    | cons u vs =>
      -- the text ends in this slot, and so does the name
      have hlow : u.setWidth 8 = (0 : Byte) := by
        have hne : (t.units.map fun u => u.setWidth 8).dropWhile (fun c : Byte => c != 0) ≠ [] := by
          rw [← hvs]
          exact List.cons_ne_nil _ _
        have hhead := List.head_dropWhile_not (fun c : Byte => c != 0) hne
        simp only [← hvs, List.map_cons, List.head_cons] at hhead
        exact not_not.1 (mt bne_iff_ne.2 (Bool.eq_false_iff.1 hhead))
      have hnil : xs₂ = [] := by
        cases xs₂ with
        | nil => rfl
        | cons x xs₂ =>
          rw [List.cons_append, List.takeWhile_cons] at hxs₂
          by_cases hu : u = 0
          · rw [hu] at hxs₂
            cases hxs₂
          · rw [if_pos (bne_iff_ne.2 hu), List.map_cons] at hxs₂
            exact absurd (eq_zero_of_low (List.cons.inj hxs₂).1 hlow) hu
      refine Or.inr (List.flatMap_eq_nil_iff.1 (List.length_eq_zero_iff.1 ?_))
      rw [hnil, List.length_nil] at hlen
      omega

/-- The name that is read is the long name exactly if the texts of the slots are. -/
theorem nameRead_iff {run : List Slot} {g : Memory Byte} :
    ((storeTexts run g).load 0 (run.flatMap Slot.text).length).map (fun c => c.setWidth 16) =
        longName run ↔
      (run.reverse.flatMap Slot.text).map (fun c => c.setWidth 16) = longName run := by
  have hlen : (run.flatMap Slot.text).length = (run.reverse.flatMap Slot.text).length :=
    ((List.reverse_perm run).symm.flatMap_right _).length_eq
  have hload : Contiguous run.reverse →
      (storeTexts run g).load 0 (run.flatMap Slot.text).length = run.reverse.flatMap Slot.text := by
    intro hc
    rw [hlen]
    exact load_contiguous (holdsTexts_storeTexts run g) hc
  constructor
  · intro h
    rw [← hload (contiguous_of_shown (by rw [Memory.length_load, hlen]) h)]
    exact h
  · intro h
    rw [hload (contiguous_of_shown rfl h)]
    exact h

/-! ## Section 2: Live entries -/

theorem liveEntries_skip (k : ℕ) (ss : List Slot) :
    liveEntries k ss = liveEntries 0 (ss.drop k) := by
  induction k generalizing ss with
  | zero => rfl
  | succ k ih =>
    cases ss with
    | nil => simp [liveEntries]
    | cons s ss => rw [liveEntries, ih, List.drop_succ_cons]

theorem listable_skip {out : List Slot} {last : Bool} (k : ℕ) (ss : List Slot) :
    Listable out last k ss ↔ Listable out last 0 (ss.drop k) := by
  induction k generalizing ss with
  | zero => exact Iff.rfl
  | succ k ih =>
    cases ss with
    | nil => simp [Listable]
    | cons s ss => rw [Listable, ih, List.drop_succ_cons]

theorem listable_last {out ss : List Slot} {last : Bool} (h : ss ≠ []) :
    Listable out last 0 ss ↔ Listable out false 0 ss := by
  obtain ⟨s, ss, rfl⟩ := List.exists_cons_of_ne_nil h
  rw [Listable, Listable]

/-- Labels are not live entries, and neither are slots of long names. -/
theorem attr_liveEntries (ss : List Slot) :
    ∀ k, ∀ e ∈ liveEntries k ss, e.attr &&& 0x08 = 0 := by
  induction ss with
  | nil =>
    intro k e he
    cases k <;> exact absurd he List.not_mem_nil
  | cons s ss ih =>
    intro k e he
    cases k with
    | succ k => exact ih k e he
    | zero =>
      rw [liveEntries] at he
      split at he
      · exact absurd he List.not_mem_nil
      split at he
      · exact ih 0 e he
      split at he
      · split at he
        · rename_i sfn _
          by_cases hlabel : sfn.IsLabel
          · rw [if_pos hlabel] at he
            exact ih 0 e he
          · rw [if_neg hlabel] at he
            rcases List.mem_cons.1 he with rfl | he
            · exact not_not.1 hlabel
            · exact ih _ e he
        · exact ih 0 e he
      · rename_i hlfn
        by_cases hlabel : s.IsLabel
        · rw [if_pos hlabel] at he
          exact ih 0 e he
        · rw [if_neg hlabel] at he
          rcases List.mem_cons.1 he with rfl | he
          · exact not_not.1 hlabel
          · exact ih 0 e he

/-- The name of an entry. -/
def nameOf (sfn : Slot) : Option (List Slot) → List (BitVec 16)
  | none => sfn.shortName
  | some run => longName run

/-- Where nothing is read, there may only be no live entry any more. -/
theorem listable_of_none {out ss : List Slot} (h : nextEntry ss = none) :
    Listable out false 0 ss ↔ liveEntries 0 ss = [] := by
  induction ss with
  | nil => exact iff_of_true (fun hlast => Bool.noConfusion hlast) rfl
  | cons s ss ih =>
    rw [nextEntry] at h
    rw [Listable, liveEntries]
    by_cases h1 : s.IsLast
    · rw [if_pos h1, if_pos h1]
      exact iff_of_true trivial rfl
    by_cases h2 : s.IsFree
    · rw [if_neg h1, if_pos h2] at h ⊢
      rw [if_neg h1, if_pos h2]
      exact ih h
    by_cases h3 : s.IsLfn
    · rw [if_neg h1, if_neg h2, if_pos h3] at h ⊢
      rw [if_neg h1, if_neg h2, if_pos h3]
      have htext : lfnRun (s :: ss) ≠ none → ¬ TextOk ((s :: ss).take s.cnt) := by
        intro hrun htext
        rw [if_pos ⟨Option.isSome_iff_ne_none.2 hrun, htext⟩] at h
        cases h
      cases hrun : lfnRun (s :: ss) with
      | none => exact Iff.rfl
      | some sfn =>
        have hbad := htext (by rw [hrun]; exact Option.some_ne_none sfn)
        by_cases hlabel : sfn.IsLabel
        · simp only [if_pos hlabel]
          exact and_iff_right hbad
        · simp only [if_neg hlabel]
          exact iff_of_false (fun hok => hbad hok.1.1) (List.cons_ne_nil _ _)
    · rw [if_neg h1, if_neg h2, if_neg h3] at h
      cases h

/-- What is read is a live entry, or a label that should not be. -/
theorem listable_of_some (out : List Slot) {ss tl : List Slot} {run : Option (List Slot)}
    {sfn : Slot} (h : nextEntry ss = some (run, sfn :: tl)) :
    tl.length < ss.length ∧ (∀ r, run = some r → TextOk r) ∧
      (sfn.IsLabel → ¬ Listable out false 0 ss) ∧
      (¬ sfn.IsLabel → liveEntries 0 ss = sfn.entry (nameOf sfn run) :: liveEntries 0 tl ∧
        (Listable out false 0 ss ↔ (∀ r, run = some r → NameOk r) ∧ Listable out true 0 tl)) := by
  induction ss with
  | nil => cases h
  | cons s ss ih =>
    rw [nextEntry] at h
    rw [Listable, liveEntries]
    by_cases h1 : s.IsLast
    · -- behind the end mark there is nothing to be read
      rw [if_pos h1] at h
      cases h
    by_cases h2 : s.IsFree
    · -- a free slot is passed over
      rw [if_neg h1, if_pos h2] at h
      simp only [if_neg h1, if_pos h2]
      obtain ⟨hlen, hrest⟩ := ih h
      exact ⟨Nat.lt_succ_of_lt hlen, hrest⟩
    by_cases h3 : s.IsLfn
    · -- a long name, with the short entry behind it
      rw [if_neg h1, if_neg h2, if_pos h3] at h
      simp only [if_neg h1, if_neg h2, if_pos h3]
      split at h
      · rename_i hok
        obtain ⟨sfn', hrun⟩ := Option.isSome_iff_exists.1 hok.1
        obtain ⟨-, -, -, tl', hdrop, -⟩ := lfnRun_eq_some_iff.1 hrun
        rw [hdrop] at h
        obtain ⟨rfl, htl⟩ := Prod.mk.inj (Option.some.inj h)
        obtain ⟨rfl, rfl⟩ := List.cons.inj htl
        have htail : ss.drop s.cnt = tl' := by
          have hboth := congrArg List.tail hdrop
          rwa [List.tail_drop, List.drop_succ_cons] at hboth
        refine ⟨?_, fun r hr => Option.some.inj hr ▸ hok.2, ?_, ?_⟩
        · rw [← htail, List.length_drop, List.length_cons]
          omega
        · intro hlabel
          simp only [hrun, if_pos hlabel]
          exact fun hlist => hlist.1 hok.2
        · intro hlabel
          simp only [hrun, if_neg hlabel]
          refine ⟨?_, ?_⟩
          · rw [liveEntries_skip, htail]
            rfl
          · rw [listable_skip, htail]
            exact and_congr_left fun _ =>
              ⟨fun hname r hr => Option.some.inj hr ▸ hname, fun hname => hname _ rfl⟩
      · cases h
    · -- an entry with its short name alone
      rw [if_neg h1, if_neg h2, if_neg h3] at h
      simp only [if_neg h1, if_neg h2, if_neg h3]
      obtain ⟨rfl, htl⟩ := Prod.mk.inj (Option.some.inj h)
      obtain ⟨rfl, rfl⟩ := List.cons.inj htl
      refine ⟨Nat.lt_succ_self _, fun r hr => (by cases hr), ?_, ?_⟩
      · exact fun hlabel hlist => hlist.1 hlabel
      · intro hlabel
        rw [if_neg hlabel]
        refine ⟨rfl, and_congr_left fun _ => iff_of_true hlabel ?_⟩
        intro r hr
        cases hr

/-- Nothing looks like an entry where nothing is read. -/
theorem noEntry_iff {ss : List Slot} : NoEntry ss ↔ nextEntry ss = none := by
  induction ss with
  | nil => exact iff_of_true trivial rfl
  | cons s ss ih =>
    rw [NoEntry, nextEntry]
    by_cases h1 : s.IsLast
    · rw [if_pos h1, if_pos h1]
      exact iff_of_true trivial rfl
    by_cases h2 : s.IsFree
    · rw [if_neg h1, if_neg h1, if_pos h2, if_pos h2]
      exact ih
    by_cases h3 : s.IsLfn
    · rw [if_neg h1, if_neg h1, if_neg h2, if_neg h2, if_pos h3, and_iff_right h3,
        ← Option.isSome_iff_ne_none]
      by_cases hok : (lfnRun (s :: ss)).isSome ∧ TextOk ((s :: ss).take s.cnt)
      · rw [if_pos hok]
        exact iff_of_false (fun hnot => hnot hok.1 hok.2) (Option.some_ne_none _)
      · rw [if_neg hok]
        exact iff_of_true (fun hrun htext => hok ⟨hrun, htext⟩) rfl
    · rw [if_neg h1, if_neg h1, if_neg h2, if_neg h2, if_neg h3]
      exact iff_of_false (fun h => h3 h.1) (Option.some_ne_none _)

/-- What is read tells of the entry exactly if its long name is well formed. -/
theorem infoRead_entry_iff {info : DirInfo} {sfn : Slot} {run : Option (List Slot)}
    (h : InfoRead info sfn run) (htext : ∀ r, run = some r → TextOk r) :
    info.entry = sfn.entry (nameOf sfn run) ↔ ∀ r, run = some r → NameOk r := by
  obtain ⟨hentry, hname⟩ := h
  have hnames : info.entry = sfn.entry (nameOf sfn run) ↔
      info.name.map (fun c => c.setWidth 16) = nameOf sfn run := by
    rw [hentry]
    exact ⟨fun heq => congrArg Entry.name heq, fun heq => congrArg sfn.entry heq⟩
  rw [hnames]
  cases run with
  | none =>
    refine iff_of_true ?_ fun r hr => by cases hr
    rw [show info.name = sfnText sfn.rawName from hname]
    rfl
  | some run =>
    obtain ⟨g, hname⟩ := hname
    rw [hname]
    refine nameRead_iff.trans ⟨fun hshown r hr => ?_, fun hok => (hok run rfl).2⟩
    obtain rfl := Option.some.inj hr
    exact ⟨htext run rfl, hshown⟩

/-! ## Section 3: Lists from which the same is read -/

/-- From both lists the same is read, up to where the reading ends. -/
inductive Agree : List Slot → List Slot → Prop
  | same (ss : List Slot) : Agree ss ss
  | none {ss ss' : List Slot} (h : nextEntry ss = none) (h' : nextEntry ss' = none)
      (hne' : ss' ≠ []) : Agree ss ss'
  | some {ss ss' tl tl' : List Slot} {run : Option (List Slot)} {sfn : Slot}
      (h : nextEntry ss = some (run, sfn :: tl)) (h' : nextEntry ss' = some (run, sfn :: tl'))
      (hne : tl ≠ []) (hne' : tl' ≠ []) (htl : Agree tl tl') : Agree ss ss'

namespace Agree

variable {ss ss' : List Slot}

theorem of_none (h : Agree ss ss') (hnone : nextEntry ss = Option.none) :
    nextEntry ss' = Option.none := by
  cases h with
  | same => exact hnone
  | none _ h' => exact h'
  | some h =>
    rw [hnone] at h
    cases h

theorem of_some {run : Option (List Slot)} {sfn : Slot} {tl : List Slot} (h : Agree ss ss')
    (hsome : nextEntry ss = Option.some (run, sfn :: tl)) :
    ∃ tl', nextEntry ss' = Option.some (run, sfn :: tl') ∧ Agree tl tl' ∧ (tl = [] → tl' = []) := by
  cases h with
  | same => exact ⟨tl, hsome, .same tl, id⟩
  | none h =>
    rw [hsome] at h
    cases h
  | some h h' hne _ htl =>
    rw [hsome] at h
    cases h
    exact ⟨_, h', htl, fun hnil => absurd hnil hne⟩

theorem ne_nil (h : Agree ss ss') (hne : ss ≠ []) : ss' ≠ [] := by
  cases h with
  | same => exact hne
  | none _ _ hne' => exact hne'
  | some _ h' =>
    rintro rfl
    cases h'

/-- A deleted entry in front. -/
theorem skip {s : Slot} (hlast : ¬ s.IsLast) (hfree : s.IsFree) (h : Agree ss ss') :
    Agree (s :: ss) (s :: ss') := by
  have hnext : ∀ l, nextEntry (s :: l) = nextEntry l := fun l => by
    rw [nextEntry, if_neg hlast, if_pos hfree]
  cases h with
  | same => exact .same _
  | none h h' => exact .none ((hnext _).trans h) ((hnext _).trans h') (List.cons_ne_nil _ _)
  | some h h' hne hne' htl => exact .some ((hnext _).trans h) ((hnext _).trans h') hne hne' htl

end Agree

theorem stopsIn_skip (k : ℕ) (ss : List Slot) : StopsIn k ss ↔ StopsIn 0 (ss.drop k) := by
  induction k generalizing ss with
  | zero => exact Iff.rfl
  | succ k ih =>
    cases ss with
    | nil => simp [StopsIn]
    | cons s ss => rw [StopsIn, ih, List.drop_succ_cons]

theorem StopsIn.ne_nil {ss : List Slot} (h : StopsIn 0 ss) : ss ≠ [] := by
  rintro rfl
  exact h

/-- A long name that is broken within the slots `T`, whatever comes behind them. -/
theorem nextEntry_broken {s : Slot} {T : List Slot} (hlast : ¬ s.IsLast) (hfree : ¬ s.IsFree)
    (hlfn : s.IsLfn)
    (hbroken : s.seq &&& 0x40 = 0 ∨ 20 < s.cnt ∨ ∃ t ∈ (s :: T).take s.cnt, ¬ t.Fits s.crc)
    (ss : List Slot) : nextEntry (s :: T ++ ss) = none := by
  rw [List.cons_append, nextEntry, if_neg hlast, if_neg hfree, if_pos hlfn, if_neg]
  rintro ⟨hrun, htext⟩
  obtain ⟨sfn, hrun⟩ := Option.isSome_iff_exists.1 hrun
  obtain ⟨⟨hflag, hcnt, ⟨-, hall⟩, -⟩, -⟩ := accepted_iff.1 ⟨hrun, htext⟩
  rcases hbroken with hzero | hlong | ⟨t, ht, hnot⟩
  · exact hflag hzero
  · omega
  · refine hnot (hall t ?_)
    rw [← List.cons_append, List.take_append]
    exact List.mem_append_left _ ht

/-- A long name whose slots are in `T`, with its short entry. -/
theorem nextEntry_within {s : Slot} {T : List Slot} (hlast : ¬ s.IsLast) (hfree : ¬ s.IsFree)
    (hlfn : s.IsLfn) (hcnt : s.cnt < (s :: T).length) (ss : List Slot) :
    nextEntry (s :: T ++ ss) =
      if (lfnRun (s :: T)).isSome ∧ TextOk ((s :: T).take s.cnt) then
        some (some ((s :: T).take s.cnt), (s :: T).drop s.cnt ++ ss)
      else none := by
  have htake : (s :: (T ++ ss)).take s.cnt = (s :: T).take s.cnt := by
    rw [← List.cons_append, List.take_append_of_le_length (Nat.le_of_lt hcnt)]
  have hdrop : (s :: (T ++ ss)).drop s.cnt = (s :: T).drop s.cnt ++ ss := by
    rw [← List.cons_append, List.drop_append_of_le_length (Nat.le_of_lt hcnt)]
  have hrun : lfnRun (s :: (T ++ ss)) = lfnRun (s :: T) := by
    obtain ⟨sfn, tl, htl⟩ := List.exists_cons_of_ne_nil
      (List.length_pos_iff.1 (by rw [List.length_drop]; omega) : (s :: T).drop s.cnt ≠ [])
    rw [lfnRun, lfnRun, htake, hdrop, htl]
    rfl
  rw [List.cons_append, nextEntry, if_neg hlast, if_neg hfree, if_pos hlfn, htake, hdrop, hrun]

/-- If a listing ends within the slots `T`, it is the same whatever comes behind them. -/
theorem agree_of_stopsIn (ss ss' : List Slot) (n : ℕ) : ∀ {T : List Slot}, T.length ≤ n →
    StopsIn 0 T → Agree (T ++ ss) (T ++ ss') := by
  induction n with
  | zero =>
    intro T hlen hstops
    exact absurd (List.length_eq_zero_iff.1 (Nat.le_zero.1 hlen)) hstops.ne_nil
  | succ n ih =>
    intro T hlen hstops
    obtain ⟨s, T, rfl⟩ := List.exists_cons_of_ne_nil hstops.ne_nil
    rw [List.length_cons] at hlen
    rw [StopsIn] at hstops
    by_cases h1 : s.IsLast
    · have hnone : ∀ l, nextEntry (s :: T ++ l) = none := fun l => by
        rw [List.cons_append, nextEntry, if_pos h1]
      exact .none (hnone ss) (hnone ss') (List.cons_ne_nil _ _)
    by_cases h2 : s.IsFree
    · rw [if_neg h1, if_pos h2] at hstops
      exact .skip h1 h2 (ih (by omega) hstops)
    by_cases h3 : s.IsLfn
    · rw [if_neg h1, if_neg h2, if_pos h3] at hstops
      split at hstops
      · rename_i hbroken
        exact .none (nextEntry_broken h1 h2 h3 hbroken ss) (nextEntry_broken h1 h2 h3 hbroken ss')
          (List.cons_ne_nil _ _)
      · obtain ⟨hcnt, hrest⟩ := hstops
        have hnext := nextEntry_within h1 h2 h3 hcnt
        by_cases hok : (lfnRun (s :: T)).isSome ∧ TextOk ((s :: T).take s.cnt)
        · -- the name is read, and the listing goes on behind its short entry
          obtain ⟨sfn, tl, htl⟩ := List.exists_cons_of_ne_nil
            (List.length_pos_iff.1 (by rw [List.length_drop]; omega) : (s :: T).drop s.cnt ≠ [])
          have htail : T.drop s.cnt = tl := by
            have hboth := congrArg List.tail htl
            rwa [List.tail_drop, List.drop_succ_cons] at hboth
          have hstops' := (stopsIn_skip _ _).1 (hrest hok)
          rw [htail] at hstops'
          have hlen' : tl.length ≤ n := by
            rw [← htail, List.length_drop]
            omega
          have hsome : ∀ l, nextEntry (s :: T ++ l) =
              some (some ((s :: T).take s.cnt), sfn :: (tl ++ l)) := fun l => by
            rw [hnext, if_pos hok, htl, List.cons_append]
          have hne : ∀ l, tl ++ l ≠ [] := fun l => by simp [hstops'.ne_nil]
          exact .some (hsome ss) (hsome ss') (hne ss) (hne ss') (ih hlen' hstops')
        · exact .none (by rw [hnext, if_neg hok]) (by rw [hnext, if_neg hok]) (List.cons_ne_nil _ _)
    · rw [if_neg h1, if_neg h2, if_neg h3] at hstops
      have hsome : ∀ l, nextEntry (s :: T ++ l) = some (none, s :: (T ++ l)) := fun l => by
        rw [List.cons_append, nextEntry, if_neg h1, if_neg h2, if_neg h3]
      have hne : ∀ l, T ++ l ≠ [] := fun l => by simp [hstops.ne_nil]
      exact .some (hsome ss) (hsome ss') (hne ss) (hne ss') (ih (by omega) hstops)

/-! ## Section 4: The listing -/

section Run

variable {v : Volume} [v.ops.Reliable] {w : ℕ → Sector} {beyond : Dir}

/-- A listing ends where nothing is read. -/
theorem listFrom_end {n : ℕ} {dir : Dir} {ss : List Slot} {s : State}
    (htape : Tape v w beyond dir ss) (hc : s.Coherent) (hw : s.view = w)
    (hlen : ss.length ≤ v.maxEntries + 1) (hnone : nextEntry ss = none) :
    Succeeds (listFrom v (n + 1) dir) s fun r _ => r.1 = [] := by
  obtain ⟨e, s₁, hrun, -⟩ := (readFrom_spec _ htape hc hw hlen).1 hnone
  have hattempt : (fatDirRead v dir).attempt s = (some (.ok (.error e)), s₁) := by
    rw [Fallible.attempt, fatDirRead, hrun]
  by_cases heof : e = .eof
  · subst heof
    exact ⟨([], none), s₁, Fallible.bind_of_ok hattempt, rfl⟩
  · refine ⟨([], some e), s₁, (Fallible.bind_of_ok hattempt).trans ?_, rfl⟩
    cases e <;> first | rfl | exact absurd rfl heof

/-- **Step lemma.**  A listing goes on behind the entry that is read: at the next slot of the
directory, or beyond its end. -/
theorem listFrom_step {n : ℕ} {dir : Dir} {ss tl : List Slot} {run : Option (List Slot)}
    {sfn : Slot} {s : State} (htape : Tape v w beyond dir ss) (hc : s.Coherent) (hw : s.view = w)
    (hlen : ss.length ≤ v.maxEntries + 1) (hsome : nextEntry ss = some (run, sfn :: tl)) :
    ∃ info dir₂ s₂, InfoRead info sfn run ∧ s.Reads s₂ ∧ (tl = [] → dir₂ = beyond) ∧
      (tl ≠ [] → Tape v w beyond dir₂ tl) ∧ ∀ P : List DirInfo → Prop,
        Succeeds (listFrom v (n + 1) dir) s (fun r _ => P r.1) ↔
          Succeeds (listFrom v n dir₂) s₂ fun r _ => P (info :: r.1) := by
  obtain ⟨⟨info, dir₁⟩, s₁, hrun, htape₁, hr₁, sfn', rest, htl, hinfo⟩ :=
    (readFrom_spec _ htape hc hw hlen).2 run _ hsome
  obtain ⟨rfl, rfl⟩ := List.cons.inj htl
  have hattempt : (fatDirRead v dir).attempt s = (some (.ok (.ok (info, dir₁))), s₁) := by
    rw [Fallible.attempt, fatDirRead, hrun]
  have hgo : ∀ {r : Except Err Dir} {s₂ : State} {dir₂ : Dir},
      (fatDirNext v dir₁).attempt s₁ = (some (.ok r), s₂) →
      dir₁.goOn r = dir₂ →
      ∀ P : List DirInfo → Prop, Succeeds (listFrom v (n + 1) dir) s (fun r _ => P r.1) ↔
        Succeeds (listFrom v n dir₂) s₂ fun r _ => P (info :: r.1) := by
    rintro r s₂ _ hnext rfl P
    have hstep : listFrom v (n + 1) dir s =
        (listFrom v n (dir₁.goOn r) >>= fun rest => pure (info :: rest.1, rest.2)) s₂ :=
      (Fallible.bind_of_ok hattempt).trans (Fallible.bind_of_ok hnext)
    refine Iff.trans ⟨Succeeds.of_eq hstep.symm, Succeeds.of_eq hstep⟩ ?_
    rw [Fallible.succeeds_bind_iff]
    simp only [Fallible.succeeds_pure_iff]
  cases tl with
  | nil =>
    obtain ⟨hend, hoff⟩ := htape₁.of_singleton
    obtain ⟨s₂, hnext, hr₂, -⟩ := hend s₁ (hr₁.coherent hc) (hr₁.view.trans hw)
    have hnext' : (fatDirNext v dir₁).attempt s₁ = (some (.ok (.error .eof)), s₂) := by
      rw [Fallible.attempt, fatDirNext, hnext]
    exact ⟨info, beyond, s₂, hinfo, hr₁.trans hr₂, fun _ => rfl, fun h => absurd rfl h,
      hgo hnext' hoff⟩
  | cons t tl =>
    obtain ⟨next, hleads, htail⟩ := htape₁.of_cons
    obtain ⟨dir₂, s₂, hnext, rfl, hr₂, -⟩ := hleads s₁ (hr₁.coherent hc) (hr₁.view.trans hw)
    have hnext' : (fatDirNext v dir₁).attempt s₁ = (some (.ok (.ok dir₂)), s₂) := by
      rw [Fallible.attempt, fatDirNext, hnext]
    exact ⟨info, dir₂, s₂, hinfo, hr₁.trans hr₂, fun h => absurd h (List.cons_ne_nil _ _),
      fun _ => htail, hgo hnext' rfl⟩

/-- **Run lemma.**  The listing of the slots `ss` has the live entries of the slots `ss'`, from
which the same is read, exactly if `ss'` is listed, with the slots `out` behind it. -/
theorem listFrom_iff {out : List Slot} {beyond' : Dir} (hout : Tape v w beyond' beyond out)
    (houtlen : out.length ≤ v.maxEntries + 1) (n : ℕ) :
    ∀ {dir : Dir} {ss ss' : List Slot} {s : State},
    Tape v w beyond dir ss → Agree ss ss' → s.Coherent → s.view = w → ss.length ≤ n →
    ss.length ≤ v.maxEntries + 1 →
    (Succeeds (listFrom v (n + 1) dir) s (fun r _ => r.1.map DirInfo.entry = liveEntries 0 ss') ↔
      Listable out false 0 ss') := by
  induction n with
  | zero =>
    intro dir ss ss' s htape _ _ _ hlen
    exact absurd (List.length_eq_zero_iff.1 (Nat.le_zero.1 hlen)) htape.ne_nil
  | succ n ih =>
    intro dir ss ss' s htape hagree hc hw hlen hmax
    cases hnext : nextEntry ss with
    -- no entry is left, and the listing ends
    | none =>
      rw [listable_of_none (hagree.of_none hnext)]
      obtain ⟨r, s', hrun, hr⟩ := listFrom_end (n := n + 1) htape hc hw hmax hnext
      constructor
      · rintro ⟨r', s'', hrun', hr'⟩
        rw [hrun] at hrun'
        cases hrun'
        rw [← hr', hr]
        rfl
      · intro hlive
        refine ⟨r, s', hrun, ?_⟩
        show r.1.map DirInfo.entry = _
        rw [hr, hlive]
        rfl
    | some next =>
      obtain ⟨run, tl⟩ := next
      -- an entry: the pass of the loop, and what it says about the slots
      obtain ⟨r₀, s₀, -, -, -, sfn, rest, rfl, -⟩ :=
        (readFrom_spec _ htape hc hw hmax).2 run tl hnext
      obtain ⟨info, dir₂, s₂, hinfo, hr₂, hoff, htail, hstep⟩ :=
        listFrom_step (n := n + 1) htape hc hw hmax hnext
      obtain ⟨rest', hnext', hagree', hnil⟩ := hagree.of_some hnext
      obtain ⟨-, htext, hlabel, hlive⟩ := listable_of_some out hnext'
      have hlt := (listable_of_some out hnext).1
      rw [hstep fun infos => infos.map DirInfo.entry = liveEntries 0 ss']
      have hattr : info.entry.attr = sfnAttr sfn.buf sfn.idx := by rw [hinfo.1]; rfl
      by_cases hsfn : sfn.IsLabel
      · -- a label is printed
        refine iff_of_false ?_ (hlabel hsfn)
        rintro ⟨r, s', -, hr⟩
        have hmem : info.entry ∈ liveEntries 0 ss' := by
          rw [← hr]
          exact List.mem_cons_self
        refine hsfn ?_
        rw [← hattr]
        exact attr_liveEntries ss' 0 _ hmem
      · obtain ⟨hentries, hlist⟩ := hlive hsfn
        rw [hlist, hentries]
        have hname := infoRead_entry_iff hinfo htext
        -- the first entry, and the rest of the listing
        have hsplit : Succeeds (listFrom v (n + 1) dir₂) s₂ (fun r _ =>
              (info :: r.1).map DirInfo.entry = sfn.entry (nameOf sfn run) :: liveEntries 0 rest') ↔
            (∀ r, run = some r → NameOk r) ∧ Succeeds (listFrom v (n + 1) dir₂) s₂
              fun r _ => r.1.map DirInfo.entry = liveEntries 0 rest' := by
          rw [← hname]
          constructor
          · rintro ⟨r, s', hrun, hr⟩
            obtain ⟨hhead, hrest⟩ := List.cons.inj hr
            exact ⟨hhead, r, s', hrun, hrest⟩
          · rintro ⟨hhead, r, s', hrun, hrest⟩
            refine ⟨r, s', hrun, ?_⟩
            show (info :: r.1).map DirInfo.entry = _
            rw [List.map_cons, hhead, hrest]
        rw [hsplit]
        refine and_congr_right fun _ => ?_
        have hc₂ := hr₂.coherent hc
        have hw₂ := hr₂.view.trans hw
        by_cases hrest : rest = []
        · -- the directory is left
          obtain rfl := hoff hrest
          rw [hnil hrest, Listable, noEntry_iff]
          constructor
          · rintro ⟨r, s', hrun, hr⟩ -
            by_contra hsome
            obtain ⟨⟨run', tl'⟩, hsome⟩ := Option.ne_none_iff_exists'.1 hsome
            obtain ⟨_, _, -, -, -, sfn', rest', rfl, -⟩ :=
              (readFrom_spec _ hout hc₂ hw₂ houtlen).2 run' tl' hsome
            obtain ⟨info', dir', s₃, -, -, -, -, hstep'⟩ :=
              listFrom_step (n := n) hout hc₂ hw₂ houtlen hsome
            obtain ⟨_, _, -, hfalse⟩ :=
              (hstep' fun infos => infos.map DirInfo.entry = []).1 ⟨r, s', hrun, hr⟩
            cases hfalse
          · intro hnone
            refine (listFrom_end hout hc₂ hw₂ houtlen (hnone rfl)).mono fun r s' hr => ?_
            rw [hr]
            rfl
        · -- the rest of the directory, by induction
          rw [listable_last (hagree'.ne_nil hrest)]
          exact ih (htail hrest) hagree' hc₂ hw₂ (by omega) (by omega)

end Run

/-! ## Section 5: Directories -/

section Directory

variable {v : Volume} [v.ops.Reliable] {s : State} {c : ℕ} {cs : List ℕ}

variable (v c) in
/-- `dir_next` always finds the end of a cluster, or the listing ends before it takes the first
cluster to end where it does not. -/
def KeepsToClusters (s : State) : Prop :=
  v.dataSect % v.sectPerClust = 0 ∨ StopsIn 0 ((List.range v.endCnt).map (v.slot s.view c))

omit [v.ops.Reliable] in
/-- What is read from the slots that `dir_next` walks over is what is read from the slots of the
directory. -/
theorem agree_walked (h : KeepsToClusters v c s) :
    Agree (v.walked s.view (c :: cs)) (v.slots s.view (c :: cs)) := by
  rcases h with haligned | hstops
  · rw [walked_eq haligned]
    exact .same _
  · have hslots : (List.range v.slotCnt).map (v.slot s.view c) =
        (List.range v.endCnt).map (v.slot s.view c) ++
          ((List.range v.slotCnt).drop v.endCnt).map (v.slot s.view c) := by
      have hsplit := List.take_append_drop v.endCnt (List.range v.slotCnt)
      rw [List.take_range, Nat.min_eq_left (endCnt_bounds v).2] at hsplit
      rw [← List.map_append, hsplit]
    rw [Volume.walked, Volume.slots, List.flatMap_cons, List.flatMap_cons, hslots,
      List.append_assoc]
    exact agree_of_stopsIn _ _ _ (Nat.le_refl _) hstops

/-- The listing of a directory, with enough calls. -/
theorem listFrom_chain_iff (hv : v.Numbered) (hs : s.Coherent)
    (hchain : v.IsChain s.view (c :: cs)) (hkeeps : KeepsToClusters v c s) {n : ℕ}
    (hn : (v.slots s.view (c :: cs)).length ≤ n) :
    Succeeds (listFrom v (n + 1) (v.dirEnter c)) s (fun r _ =>
        r.1.map DirInfo.entry = liveEntries 0 (v.slots s.view (c :: cs))) ↔
      Listable (v.slotsBehind s.view ((c :: cs).getLast (List.cons_ne_nil c cs))) false 0
        (v.slots s.view (c :: cs)) := by
  obtain ⟨h2, hc, hlast⟩ := hchain.last
  have hslots := hchain.slots_le
  have hwalked := length_walked_le v s.view (c :: cs)
  have hout := tape_behind c hv h2 hc hlast
  have houtlen : (v.slotsBehind s.view ((c :: cs).getLast (List.cons_ne_nil c cs))).length ≤
      v.maxEntries + 1 := by
    have hone := hchain.last.slots_le
    rw [Volume.slots, List.flatMap_singleton, List.length_map, List.length_range] at hone
    rw [Volume.slotsBehind, List.length_map, List.length_range']
    exact Nat.le_succ_of_le hone
  rw [dirEnter_eq_cursor hchain.head_ne]
  exact listFrom_iff hout houtlen n (tape_chain hv cs hchain) (agree_walked hkeeps) hs rfl
    (Nat.le_trans hwalked hn) (Nat.le_succ_of_le (Nat.le_trans hwalked hslots))

end Directory

/-! ## Section 6: A directory of one cluster -/

/-- A volume with clusters of one sector, its FAT in sector 1 and cluster 2 in sector 8. -/
def smallVolume : Volume where
  ops := workingOps
  clustMsk := 0
  clustCnt := 128
  infoSect := 0
  fatSect := 1
  mirrorSect := 0
  dataSect := 8
  rootClust := 2
  clustShift := 0
  name := []

instance : smallVolume.ops.Reliable := ⟨fun _ => rfl, fun _ => rfl⟩

/-- The mounted volume: each cluster is the last of its chain, sector 8 has the contents `dir`,
and every other sector has entries named `A`. -/
def smallState (dir : Sector) : State where
  lastUsed := 0
  freeCnt := 0
  sect := 0
  buf := fun _ => 0
  bufDirty := false
  infoDirty := false
  gBuf := fun _ => 0
  gLen := 0
  gCrc := 0
  disk := fun sect =>
    if sect = 1 then fun i => if i % 4 = 3 then 0x0f else 0xff
    else if sect = 8 then dir
    else fun i => if i % 32 = 0 then 0x41 else if i % 32 < 11 then 0x20 else 0
  calls := 0
  writes := []

theorem numbered_smallVolume : smallVolume.Numbered where
  mask := rfl
  data := by decide
  fat := by decide
  fits := by decide

theorem coherent_smallState (dir : Sector) : (smallState dir).Coherent :=
  fun _ h => absurd rfl h

theorem isChain_smallState (dir : Sector) :
    smallVolume.IsChain (smallState dir).view [2] := by
  have hfat : (smallState dir).disk 1 = fun i => if i % 4 = 3 then 0x0f else 0xff := by
    simp [smallState]
  have hsect : Volume.entrySect smallVolume.fatSect 2 = 1 := by decide
  refine ⟨by decide, by decide, ?_⟩
  rw [State.view_of_clean rfl, Volume.kind, Volume.entry, hsect, hfat]
  decide

end Karnix.Fat
