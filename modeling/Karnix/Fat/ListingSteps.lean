import Karnix.Fat.Listing

/-!
# Reading an entry of a directory

What one call of `fat_dir_read` does is stated on the slots from the cursor on: a `Tape` is a
cursor with the slots that `dir_next` leads it over.
-/

namespace Karnix.Fat

open Karnix.Library
open Fallible (Succeeds Fails Ends)

variable (v : Volume) (w : ℕ → Sector)

/-! ## Section 1: Cursors -/

/-- `dir_next` leads to the next cursor, or to the end of the directory. -/
def Leads (dir : Dir) : Option Dir → Prop
  | some next => ∀ s : State, s.Coherent → s.view = w →
      Succeeds (dirNext v dir) s fun d s' => d = next ∧ s.Reads s' ∧ s.SameGlobals s'
  | none => ∀ s : State, s.Coherent → s.view = w →
      Fails (dirNext v dir) s .eof fun s' => s.Reads s' ∧ s.SameGlobals s'

/-- The cursor, the slots from it to the end, and where `dir_next` leaves it there. -/
inductive Tape (beyond : Dir) : Dir → List Slot → Prop
  | last {dir : Dir} (h0 : dir.sect ≠ 0) (hend : Leads v w dir none) (hoff : dir.stepOff = beyond) :
      Tape beyond dir [⟨w dir.sect, dir.idx⟩]
  | cons {dir next : Dir} {ss : List Slot} (h0 : dir.sect ≠ 0)
      (hnext : Leads v w dir (some next)) (htail : Tape beyond next ss) :
      Tape beyond dir (⟨w dir.sect, dir.idx⟩ :: ss)

variable {v w} {beyond : Dir}

namespace Tape

theorem sect_ne {dir : Dir} {ss : List Slot} (h : Tape v w beyond dir ss) : dir.sect ≠ 0 := by
  cases h with
  | last h0 => exact h0
  | cons h0 => exact h0

/-- The slot at the cursor. -/
theorem head {dir : Dir} {t : Slot} {ss : List Slot} (h : Tape v w beyond dir (t :: ss)) :
    t = ⟨w dir.sect, dir.idx⟩ := by
  cases h <;> rfl

theorem ne_nil {dir : Dir} {ss : List Slot} (h : Tape v w beyond dir ss) : ss ≠ [] := by
  cases h <;> exact List.cons_ne_nil _ _

/-- The end of the tape. -/
theorem of_singleton {dir : Dir} {t : Slot} (h : Tape v w beyond dir [t]) :
    Leads v w dir none ∧ dir.stepOff = beyond := by
  cases h with
  | last h0 hend hoff => exact ⟨hend, hoff⟩
  | cons h0 hnext htail => exact absurd rfl htail.ne_nil

theorem of_cons {dir : Dir} {t t' : Slot} {ss : List Slot}
    (h : Tape v w beyond dir (t :: t' :: ss)) :
    ∃ next, Leads v w dir (some next) ∧ Tape v w beyond next (t' :: ss) := by
  cases h with
  | cons h0 hnext htail => exact ⟨_, hnext, htail⟩

end Tape

/-! ## Section 2: Long names -/

theorem State.reads_globals (s : State) (g : Memory Byte) (l : ℕ) (c : Byte) :
    s.Reads { s with gBuf := g, gLen := l, gCrc := c } :=
  ⟨⟨rfl, rfl, rfl⟩, rfl, id, fun h => ⟨h, rfl, rfl⟩⟩

/-- The characters of a fragment from number `i` on. -/
def fragText (buf : Sector) (idx i n : ℕ) : List Byte :=
  ((List.range' i n).map fun j => buf (idx + lfnIndex j)).takeWhile fun c => c != 0

theorem fragText_succ (buf : Sector) (idx i n : ℕ) : fragText buf idx i (n + 1) =
    if buf (idx + lfnIndex i) = 0 then []
    else buf (idx + lfnIndex i) :: fragText buf idx (i + 1) n := by
  rw [fragText, List.range'_succ, List.map_cons, List.takeWhile_cons]
  by_cases h : buf (idx + lfnIndex i) = 0
  · rw [if_pos h, h]
    rfl
  · rw [if_neg h, if_pos (bne_iff_ne.2 h)]
    rfl

/-- A fragment goes to its place in the buffer for the name, unless it has a character that is
taken for padding. -/
theorem takeFrag_spec (idx pos : ℕ) (n : ℕ) : ∀ (i : ℕ) (s : State),
    (0xff ∉ fragText s.buf idx i n → takeFrag idx pos n i s =
      (some (.ok ⟨⟩), { s with
        gBuf := s.gBuf.store (pos + i) (fragText s.buf idx i n)
        gLen := s.gLen + (fragText s.buf idx i n).length })) ∧
    (0xff ∈ fragText s.buf idx i n →
      ∃ g l, takeFrag idx pos n i s =
        (some (.error .broken), { s with gBuf := g, gLen := l })) := by
  induction n with
  | zero =>
    intro i s
    refine ⟨fun _ => ?_, fun h => absurd h List.not_mem_nil⟩
    have hnil : fragText s.buf idx i 0 = [] := rfl
    rw [hnil, Memory.store_nil]
    rfl
  | succ n ih =>
    intro i s
    rw [fragText_succ]
    by_cases hff : s.buf (idx + lfnIndex i) = 0xff
    · have hne : ¬ s.buf (idx + lfnIndex i) = 0 := by rw [hff]; decide
      rw [if_neg hne, hff]
      refine ⟨fun h => absurd List.mem_cons_self h, fun _ => ⟨s.gBuf, s.gLen, ?_⟩⟩
      rw [takeFrag, Fallible.read_bind]
      simp only [id, hff, if_true]
      rfl
    · by_cases h0 : s.buf (idx + lfnIndex i) = 0
      · rw [if_pos h0, Memory.store_nil]
        refine ⟨fun _ => ?_, fun h => absurd h List.not_mem_nil⟩
        rw [takeFrag, Fallible.read_bind]
        simp only [id, h0]
        rfl
      · -- the character is stored, and the rest of the fragment behind it
        rw [if_neg h0]
        obtain ⟨hok, hbad⟩ := ih (i + 1) { s with
          gBuf := s.gBuf.store (pos + i) [s.buf (idx + lfnIndex i)]
          gLen := s.gLen + 1 }
        have hstep : takeFrag idx pos (n + 1) i s = takeFrag idx pos n (i + 1) { s with
            gBuf := s.gBuf.store (pos + i) [s.buf (idx + lfnIndex i)]
            gLen := s.gLen + 1 } := by
          rw [takeFrag, Fallible.read_bind]
          simp only [id, hff, h0, if_false]
          rfl
        constructor
        · intro hnot
          rw [hstep, hok fun h => hnot (List.mem_cons_of_mem _ h)]
          have hstore : ∀ xs, (s.gBuf.store (pos + i) [s.buf (idx + lfnIndex i)]).store
              (pos + (i + 1)) xs = s.gBuf.store (pos + i) (s.buf (idx + lfnIndex i) :: xs) :=
            fun xs => (Memory.store_append s.gBuf (pos + i) [s.buf (idx + lfnIndex i)] xs).symm
          rw [hstore, List.length_cons, Nat.add_assoc, Nat.add_comm 1]
        · intro hmem
          rw [hstep]
          rcases List.mem_cons.1 hmem with h | h
          · exact absurd h.symm hff
          · exact hbad h

/-- The texts of the slots, each at its place. -/
def storeTexts : List Slot → Memory Byte → Memory Byte
  | [], g => g
  | t :: ts, g => storeTexts ts (g.store (13 * ts.length) t.text)

section Parse

variable [v.ops.Reliable]

/-- The text of a slot has been taken, and is in front of those of `cnt` slots. -/
def State.took (s : State) (cnt : ℕ) (t : Slot) : State :=
  { s with gBuf := s.gBuf.store (13 * cnt) t.text, gLen := s.gLen + t.text.length }

theorem State.reads_took (s : State) (cnt : ℕ) (t : Slot) : s.Reads (s.took cnt t) :=
  s.reads_globals _ _ s.gCrc

omit [v.ops.Reliable] in
/-- A round of the loop of `parse_lfn_name` takes a slot that fits the name. -/
theorem takeFrags_fits (cnt : ℕ) {dir : Dir} {s : State}
    (h : (⟨s.buf, dir.idx⟩ : Slot).Fits s.gCrc) :
    takeFrags v (cnt + 1) dir s =
      (dirNext v dir >>= fun dir => updateBuf v dir.sect >>= fun _ => takeFrags v cnt dir)
        (s.took cnt ⟨s.buf, dir.idx⟩) := by
  have hslot : ¬ (sfnAttr s.buf dir.idx ≠ attrLfn ∨ s.buf (dir.idx + 13) ≠ s.gCrc) := by
    rw [not_or, not_not, not_not]
    exact ⟨h.1, h.2.1⟩
  have hrun := (takeFrag_spec dir.idx (13 * cnt) 13 0 s).1 h.2.2
  rw [takeFrags, Fallible.read_bind]
  simp only [id]
  rw [if_neg hslot, Fallible.bind_of_ok hrun]
  rfl

omit [v.ops.Reliable] in
/-- With any other slot the name is broken. -/
theorem takeFrags_broken {cnt : ℕ} {dir : Dir} {s : State}
    (h : ¬ (⟨s.buf, dir.idx⟩ : Slot).Fits s.gCrc) :
    Fails (takeFrags v (cnt + 1) dir) s .broken s.Reads := by
  by_cases hhead : sfnAttr s.buf dir.idx ≠ attrLfn ∨ s.buf (dir.idx + 13) ≠ s.gCrc
  · refine ⟨s, ?_, .refl s⟩
    rw [takeFrags, Fallible.read_bind]
    simp only [id]
    rw [if_pos hhead]
    rfl
  · -- a slot of the name, with a character that is taken for padding
    have hslot := hhead
    rw [not_or, not_not, not_not] at hslot
    have hff : 0xff ∈ fragText s.buf dir.idx 0 13 := by
      by_contra hnot
      exact h ⟨hslot.1, hslot.2, hnot⟩
    obtain ⟨g, l, hrun⟩ := (takeFrag_spec dir.idx (13 * cnt) 13 0 s).2 hff
    refine ⟨_, ?_, s.reads_globals g l s.gCrc⟩
    rw [takeFrags, Fallible.read_bind]
    simp only [id]
    rw [if_neg hhead, Fallible.bind_of_error hrun]

/-- The cursor is moved on, and the sector of the next slot is in the buffer. -/
theorem Tape.next_loaded {α : Type} {dir next : Dir} {ss : List Slot} {s : State}
    (hnext : Leads v w dir (some next)) (htail : Tape v w beyond next ss) (hc : s.Coherent)
    (hw : s.view = w) : ∃ s', s.Reads s' ∧ s.SameGlobals s' ∧ s'.buf = w next.sect ∧
      ∀ f : Dir → FatM α,
        (dirNext v dir >>= fun dir => updateBuf v dir.sect >>= fun _ => f dir) s = f next s' := by
  obtain ⟨d, s₁, hrun₁, rfl, hr₁, hg₁⟩ := hnext s hc hw
  obtain ⟨_, s₂, hrun₂, hr₂, hg₂, -, hbuf⟩ := updateBuf_reads v (hr₁.coherent hc) htail.sect_ne
  refine ⟨s₂, hr₁.trans hr₂, hg₁.trans hg₂, by rw [hbuf, hr₁.view, hw], fun f => ?_⟩
  rw [Fallible.bind_of_ok hrun₁, Fallible.bind_of_ok hrun₂]

/-- **Run lemma.** The rounds of `parse_lfn_name` take the slots from the cursor on, if they all
fit the name and there is another one behind them; else the name is broken or the directory ends. -/
theorem takeFrags_spec (cnt : ℕ) : ∀ {dir : Dir} {ss : List Slot} {s : State},
    Tape v w beyond dir ss → s.Coherent → s.view = w → s.buf = w dir.sect →
    (cnt < ss.length → (∀ t ∈ ss.take cnt, t.Fits s.gCrc) →
      Succeeds (takeFrags v cnt dir) s fun dir' s' =>
        Tape v w beyond dir' (ss.drop cnt) ∧ s.Reads s' ∧ s'.gCrc = s.gCrc ∧
        s'.gBuf = storeTexts (ss.take cnt) s.gBuf ∧
        s'.gLen = s.gLen + ((ss.take cnt).flatMap Slot.text).length) ∧
    (¬ (cnt < ss.length ∧ ∀ t ∈ ss.take cnt, t.Fits s.gCrc) →
      ∃ e, Fails (takeFrags v cnt dir) s e s.Reads) := by
  induction cnt with
  | zero =>
    intro dir ss s htape hc hw hbuf
    refine ⟨fun _ _ => .pure ⟨htape, .refl s, rfl, rfl, rfl⟩, fun h => absurd ⟨?_, ?_⟩ h⟩
    · exact List.length_pos_iff.2 htape.ne_nil
    · intro t ht
      exact absurd ht List.not_mem_nil
  | succ cnt ih =>
    intro dir ss s htape hc hw hbuf
    obtain ⟨t, ss, rfl⟩ := List.exists_cons_of_ne_nil htape.ne_nil
    have ht : (⟨s.buf, dir.idx⟩ : Slot) = t := by rw [hbuf, htape.head]
    by_cases hthis : t.Fits s.gCrc
    · -- the fragment is taken; the rest is read from the next slot on
      have hstep := takeFrags_fits (v := v) cnt (ht ▸ hthis)
      rw [ht] at hstep
      have htook := s.reads_took cnt t
      have hview := htook.view.trans hw
      cases ss with
      | nil =>
        refine ⟨fun hlt => absurd hlt (by simp), fun _ => ⟨.eof, Fails.of_eq hstep ?_⟩⟩
        refine Fails.bind ((htape.of_singleton.1 _ (htook.coherent hc) hview).mono ?_)
        exact fun s' h => htook.trans h.1
      | cons t' ss =>
        obtain ⟨next, hnext, htail⟩ := htape.of_cons
        obtain ⟨s₂, hr, hg, hb, hmove⟩ :=
          htail.next_loaded (α := Dir) hnext (htook.coherent hc) hview
        have hreads := htook.trans hr
        have hcrc : s₂.gCrc = s.gCrc := hg.gCrc
        rw [hmove] at hstep
        obtain ⟨hgood, hbad⟩ := ih htail (hreads.coherent hc) (hreads.view.trans hw) hb
        rw [hcrc] at hgood hbad
        constructor
        · intro hlt hall
          have hlen : ((t' :: ss).take cnt).length = cnt :=
            List.length_take_of_le (Nat.le_of_lt (Nat.lt_of_succ_lt_succ hlt))
          refine Succeeds.of_eq hstep ((hgood (Nat.lt_of_succ_lt_succ hlt) fun u hu =>
            hall u (List.mem_cons_of_mem _ hu)).mono ?_)
          rintro d' s₃ ⟨hd', hr₃, hcrc₃, hgbuf₃, hglen₃⟩
          refine ⟨hd', hreads.trans hr₃, hcrc₃, ?_, ?_⟩
          · -- the texts of the other slots go in front of this one
            rw [hgbuf₃, hg.gBuf, State.took, List.take_succ_cons, storeTexts, hlen]
          · rw [hglen₃, hg.gLen, State.took, List.take_succ_cons, List.flatMap_cons,
              List.length_append, Nat.add_assoc]
        · -- one of the other slots does not fit, or there are too few
          intro hnot
          obtain ⟨e, hfails⟩ := hbad fun ⟨hlt, hall⟩ => hnot ⟨Nat.succ_lt_succ hlt, by
            rw [List.take_succ_cons, List.forall_mem_cons]
            exact ⟨hthis, hall⟩⟩
          exact ⟨e, Fails.of_eq hstep (hfails.mono fun _ => hreads.trans)⟩
    · refine ⟨fun _ hall => absurd (hall t List.mem_cons_self) hthis, fun _ => ⟨.broken, ?_⟩⟩
      exact takeFrags_broken (ht ▸ hthis)

/-- What `parse_lfn_name` asks of the slots from the cursor on. -/
def Parses (t : Slot) (ss : List Slot) : Prop :=
  t.seq &&& 0x40 ≠ 0 ∧ t.cnt ≤ 20 ∧
    (t.cnt < (t :: ss).length ∧ ∀ u ∈ (t :: ss).take t.cnt, u.Fits t.crc) ∧
    (((t :: ss).take t.cnt).flatMap Slot.text).length ≤ 255

/-- The sector of the cursor gets into the buffer. -/
theorem Tape.load {dir : Dir} {ss : List Slot} {s : State} (h : Tape v w beyond dir ss)
    (hc : s.Coherent) (hw : s.view = w) :
    Succeeds (updateBuf v dir.sect) s fun _ s' =>
      s.Reads s' ∧ s.SameGlobals s' ∧ s'.buf = w dir.sect := by
  refine (updateBuf_reads v hc h.sect_ne).mono ?_
  rintro _ s' ⟨hr, hg, -, hb⟩
  exact ⟨hr, hg, by rw [hb, hw]⟩

theorem parseLfnName_spec {dir : Dir} {t : Slot} {ss : List Slot} {s : State}
    (htape : Tape v w beyond dir (t :: ss)) (hc : s.Coherent) (hw : s.view = w) :
    (Parses t ss → Succeeds (parseLfnName v dir) s fun dir' s' =>
      Tape v w beyond dir' ((t :: ss).drop t.cnt) ∧ s.Reads s' ∧ s'.gCrc = t.crc ∧
      s'.gBuf = storeTexts ((t :: ss).take t.cnt) s.gBuf ∧
      s'.gLen = (((t :: ss).take t.cnt).flatMap Slot.text).length) ∧
    (¬ Parses t ss → ∃ e, Fails (parseLfnName v dir) s e s.Reads) := by
  -- the first fragment gives the check sum and the number of fragments
  have ht := htape.head
  obtain ⟨_, s₁, hrun₁, hr₁, hg₁, hb₁⟩ := htape.load hc hw
  have hreads := hr₁.trans (s₁.reads_globals s₁.gBuf 0 t.crc)
  have hseq : s₁.buf dir.idx = t.seq := by rw [hb₁, ht]; rfl
  have hcrc : s₁.buf (dir.idx + 13) = t.crc := by rw [hb₁, ht]; rfl
  obtain ⟨hgood, hbad⟩ := takeFrags_spec t.cnt htape
    (s := { s₁ with gCrc := t.crc, gLen := 0 }) (hreads.coherent hc)
    (hreads.view.trans hw) hb₁
  have hstep : parseLfnName v dir s =
      (if t.seq &&& 0x40 = 0 then .throw .broken
      else if t.cnt > 20 then .throw .broken
      else takeFrags v t.cnt dir >>= fun dir => checkLen dir : FatM Dir)
        { s₁ with gCrc := t.crc, gLen := 0 } := by
    rw [parseLfnName, Fallible.bind_of_ok hrun₁, Fallible.read_bind, Fallible.modify_bind]
    simp only [id, hseq, hcrc]
    rfl
  -- it must be the last one of a name
  by_cases hflag : t.seq &&& 0x40 = 0
  · refine ⟨fun h => absurd hflag h.1, fun _ => ⟨.broken, Fails.of_eq hstep ?_⟩⟩
    rw [if_pos hflag]
    exact .throw hreads
  -- a name has at most 20 fragments
  by_cases hcnt : t.cnt > 20
  · refine ⟨fun h => absurd hcnt (Nat.not_lt.2 h.2.1), fun _ => ⟨.broken, Fails.of_eq hstep ?_⟩⟩
    rw [if_neg hflag, if_pos hcnt]
    exact .throw hreads
  rw [if_neg hflag, if_neg hcnt] at hstep
  -- the fragments fit together, or one of them ends the parsing
  by_cases hfits : t.cnt < (t :: ss).length ∧ ∀ u ∈ (t :: ss).take t.cnt, u.Fits t.crc
  · have hfrags := hgood hfits.1 hfits.2
    constructor
    · intro hparses
      refine Succeeds.of_eq hstep (hfrags.bind ?_)
      rintro dir' s₂ ⟨htape', hr₂, hcrc₂, hbuf₂, hlen₂⟩
      rw [Nat.zero_add] at hlen₂
      refine Succeeds.read_bind ?_
      simp only [id, hlen₂, if_pos hparses.2.2.2]
      refine .pure ⟨htape', hreads.trans hr₂, hcrc₂, ?_, hlen₂⟩
      rw [hbuf₂]
      exact congrArg _ hg₁.gBuf
    · -- the pieces are all there, and too long together
      intro hnot
      refine ⟨.broken, Fails.of_eq hstep (hfrags.bind_fails ?_)⟩
      rintro dir' s₂ ⟨-, hr₂, -, -, hlen₂⟩
      rw [Nat.zero_add] at hlen₂
      have hlong : ¬ (((t :: ss).take t.cnt).flatMap Slot.text).length ≤ 255 :=
        fun hle => hnot ⟨hflag, Nat.not_lt.1 hcnt, hfits, hle⟩
      refine Fails.read_bind ?_
      simp only [id, hlen₂, if_neg hlong]
      exact .throw (hreads.trans hr₂)
  · refine ⟨fun h => absurd h.2.2.1 hfits, fun _ => ?_⟩
    obtain ⟨e, hfails⟩ := hbad hfits
    exact ⟨e, Fails.of_eq hstep (Fails.bind (hfails.mono fun s' h => hreads.trans h))⟩

end Parse

/-! ## Section 3: `fat_dir_read` -/

/-- The entry that is read from slots on: the slots of its long name if it has one, and its short
entry with what comes behind it. -/
def nextEntry : List Slot → Option (Option (List Slot) × List Slot)
  | [] => none
  | s :: ss =>
    if s.IsLast then none
    else if s.IsFree then nextEntry ss
    else if s.IsLfn then
      if (lfnRun (s :: ss)).isSome ∧ TextOk ((s :: ss).take s.cnt) then
        some (some ((s :: ss).take s.cnt), (s :: ss).drop s.cnt)
      else none
    else some (none, s :: ss)

/-- The short entry of a long name, and what comes behind it. -/
theorem lfnRun_eq_some_iff {t sfn : Slot} {ss : List Slot} :
    lfnRun (t :: ss) = some sfn ↔ t.seq &&& 0x40 ≠ 0 ∧ t.cnt ≤ 20 ∧
      (∀ u ∈ (t :: ss).take t.cnt, u.IsLfn ∧ u.crc = t.crc) ∧
      ∃ tl, (t :: ss).drop t.cnt = sfn :: tl ∧ ¬ sfn.IsFree ∧ t.crc = getCrc sfn.rawName := by
  have hhead : ∀ l : List Slot, l.head? = some sfn ↔ ∃ tl, l = sfn :: tl := by
    intro l
    cases l with
    | nil => simp
    | cons a l => simp [eq_comm]
  rw [lfnRun]
  split
  · rename_i h
    rw [Option.filter_eq_some_iff, hhead, decide_eq_true_eq]
    constructor
    · rintro ⟨⟨tl, htl⟩, hsfn⟩
      exact ⟨h.1, h.2.1, h.2.2, tl, htl, hsfn⟩
    · rintro ⟨-, -, -, tl, htl, hsfn⟩
      exact ⟨⟨tl, htl⟩, hsfn⟩
  · rename_i h
    constructor
    · intro hnone
      cases hnone
    · rintro ⟨hflag, hcnt, hall, -⟩
      exact absurd ⟨hflag, hcnt, hall⟩ h

/-- The slots that are read as those of a long name. -/
theorem accepted_iff {t sfn : Slot} {ss : List Slot} :
    lfnRun (t :: ss) = some sfn ∧ TextOk ((t :: ss).take t.cnt) ↔ Parses t ss ∧
      ∃ tl, (t :: ss).drop t.cnt = sfn :: tl ∧ ¬ sfn.IsFree ∧ t.crc = getCrc sfn.rawName := by
  rw [lfnRun_eq_some_iff]
  constructor
  · rintro ⟨⟨hflag, hcnt, hall, tl, htl, hsfn⟩, hff, hlen⟩
    have hlt : t.cnt < (t :: ss).length := by
      by_contra hge
      rw [List.drop_eq_nil_of_le (Nat.not_lt.1 hge)] at htl
      cases htl
    refine ⟨⟨hflag, hcnt, ⟨hlt, fun u hu => ?_⟩, hlen⟩, tl, htl, hsfn⟩
    exact ⟨(hall u hu).1, (hall u hu).2, fun h => hff (List.mem_flatMap.2 ⟨u, hu, h⟩)⟩
  · rintro ⟨⟨hflag, hcnt, ⟨-, hall⟩, hlen⟩, htl⟩
    refine ⟨⟨hflag, hcnt, fun u hu => ⟨(hall u hu).1, (hall u hu).2.1⟩, htl⟩, ?_, hlen⟩
    intro hmem
    obtain ⟨u, hu, h⟩ := List.mem_flatMap.1 hmem
    exact (hall u hu).2.2 h

/-- The name that is read. -/
def NameRead (name : List Byte) (sfn : Slot) : Option (List Slot) → Prop
  | none => name = sfnText sfn.rawName
  | some run => ∃ g, name = (storeTexts run g).load 0 (run.flatMap Slot.text).length

/-- What is read of an entry. -/
def InfoRead (info : DirInfo) (sfn : Slot) (run : Option (List Slot)) : Prop :=
  info.entry = sfn.entry (info.name.map fun c => c.setWidth 16) ∧ NameRead info.name sfn run

section Read

variable [v.ops.Reliable]

omit [v.ops.Reliable] in
/-- The end of `fat_dir_read`: the size, the attributes and the first cluster from the short entry.
-/
theorem readInfo_spec {dir : Dir} {sfn : Slot} {rest : List Slot} {s : State}
    {run : Option (List Slot)} (htape : Tape v w beyond dir (sfn :: rest))
    (hbuf : s.buf = w dir.sect) (hname : NameRead (s.gBuf.load 0 s.gLen) sfn run) :
    Succeeds (readInfo dir) s fun r s' => Tape v w beyond r.2 (sfn :: rest) ∧ s.Reads s' ∧
      InfoRead r.1 sfn run := by
  refine Succeeds.read_bind (.pure ⟨htape, .refl s, ?_, hname⟩)
  rw [htape.head, Slot.entry, ← hbuf]
  rfl

/-- The short entry behind a long name. -/
theorem readLong_spec {dir : Dir} {t : Slot} {ss : List Slot} {s : State}
    (htape : Tape v w beyond dir (t :: ss)) (hc : s.Coherent) (hw : s.view = w) :
    (¬ ((lfnRun (t :: ss)).isSome ∧ TextOk ((t :: ss).take t.cnt)) →
      ∃ e, Fails (parseLfnName v dir >>= fun sfn => updateBuf v sfn.sect >>= fun _ =>
        Fallible.read id >>= fun fat =>
        if SfnIsFree fat.buf sfn.idx ∨ fat.gCrc ≠ getCrc (sfnName fat.buf sfn.idx) then
          .throw .broken
        else readInfo sfn) s e s.Reads) ∧
    (∀ sfn, lfnRun (t :: ss) = some sfn → TextOk ((t :: ss).take t.cnt) →
      Succeeds (parseLfnName v dir >>= fun sfn => updateBuf v sfn.sect >>= fun _ =>
        Fallible.read id >>= fun fat =>
        if SfnIsFree fat.buf sfn.idx ∨ fat.gCrc ≠ getCrc (sfnName fat.buf sfn.idx) then
          .throw .broken
        else readInfo sfn) s fun r s' =>
      Tape v w beyond r.2 ((t :: ss).drop t.cnt) ∧ s.Reads s' ∧ ∃ rest,
        (t :: ss).drop t.cnt = sfn :: rest ∧
        InfoRead r.1 sfn (some ((t :: ss).take t.cnt))) := by
  obtain ⟨hgood, hbad⟩ := parseLfnName_spec htape hc hw
  by_cases hparses : Parses t ss
  · -- the slots give a name, and the short entry is looked at
    obtain ⟨dir', s₁, hrun₁, htape', hr₁, hcrc₁, hbuf₁, hlen₁⟩ := hgood hparses
    obtain ⟨sfn, rest, hdrop⟩ := List.exists_cons_of_ne_nil htape'.ne_nil
    rw [hdrop] at htape'
    obtain ⟨_, s₂, hrun₂, hr₂, hg₂, hb₂⟩ := htape'.load (hr₁.coherent hc) (hr₁.view.trans hw)
    have hslot : sfn.IsFree ∨ t.crc ≠ getCrc sfn.rawName ↔
        SfnIsFree s₂.buf dir'.idx ∨ s₂.gCrc ≠ getCrc (sfnName s₂.buf dir'.idx) := by
      rw [hg₂.gCrc, hcrc₁, hb₂, htape'.head]
      exact Iff.rfl
    have hrest : ∀ {sfn' : Slot}, lfnRun (t :: ss) = some sfn' ∧ TextOk ((t :: ss).take t.cnt) ↔
        sfn' = sfn ∧ ¬ (sfn.IsFree ∨ t.crc ≠ getCrc sfn.rawName) := by
      intro sfn'
      rw [accepted_iff, hdrop, and_iff_right hparses, not_or, not_not]
      constructor
      · rintro ⟨tl, heq, hsfn⟩
        cases heq
        exact ⟨rfl, hsfn⟩
      · rintro ⟨rfl, hsfn⟩
        exact ⟨rest, rfl, hsfn⟩
    by_cases hends : sfn.IsFree ∨ t.crc ≠ getCrc sfn.rawName
    · -- the short entry does not belong to the name
      constructor
      · refine fun _ => ⟨.broken, s₂, ?_, hr₁.trans hr₂⟩
        rw [Fallible.bind_of_ok hrun₁, Fallible.bind_of_ok hrun₂, Fallible.read_bind]
        simp only [id, if_pos (hslot.1 hends)]
        rfl
      · exact fun sfn' hrun htext => absurd hends (hrest.1 ⟨hrun, htext⟩).2
    · -- it does, and is read
      constructor
      · intro hnot
        obtain ⟨hrun, htext⟩ := hrest.2 ⟨rfl, hends⟩
        exact absurd ⟨Option.isSome_iff_exists.2 ⟨sfn, hrun⟩, htext⟩ hnot
      · intro sfn' hrun htext
        obtain rfl := (hrest.1 ⟨hrun, htext⟩).1
        have hname : NameRead (s₂.gBuf.load 0 s₂.gLen) sfn' (some ((t :: ss).take t.cnt)) :=
          ⟨s.gBuf, by rw [hg₂.gBuf, hg₂.gLen, hbuf₁, hlen₁]⟩
        refine Succeeds.of_eq ?_ ((readInfo_spec htape' hb₂ hname).mono ?_)
        · rw [Fallible.bind_of_ok hrun₁, Fallible.bind_of_ok hrun₂, Fallible.read_bind]
          simp only [id, if_neg (mt hslot.2 hends)]
        · rintro r s' ⟨htape'', hr, hinfo⟩
          exact ⟨hdrop ▸ htape'', hr₁.trans (hr₂.trans hr), rest, hdrop, hinfo⟩
  · -- the slots do not give a name
    constructor
    · intro _
      obtain ⟨e, hfails⟩ := hbad hparses
      exact ⟨e, Fails.bind hfails⟩
    · exact fun sfn hrun htext => absurd (accepted_iff.1 ⟨hrun, htext⟩).1 hparses

omit [v.ops.Reliable] in
/-- An entry without a long name. -/
theorem readShort_spec {dir : Dir} {t : Slot} {ss : List Slot} {s : State}
    (htape : Tape v w beyond dir (t :: ss)) (hbuf : s.buf = w dir.sect) :
    Succeeds (parseSfnName (sfnName s.buf dir.idx) >>= fun _ => readInfo dir) s fun r s' =>
      Tape v w beyond r.2 (t :: ss) ∧ s.Reads s' ∧ InfoRead r.1 t none := by
  have hraw : sfnName s.buf dir.idx = t.rawName := by rw [htape.head, hbuf]; rfl
  have hname : NameRead
      ((s.gBuf.store 0 (sfnText t.rawName)).load 0 (sfnText t.rawName).length) t none :=
    Memory.load_store_self ..
  rw [hraw]
  refine Succeeds.modify_bind ((readInfo_spec (s := { s with
    gBuf := s.gBuf.store 0 (sfnText t.rawName)
    gLen := (sfnText t.rawName).length }) htape hbuf hname).mono ?_)
  rintro r s' ⟨ht, hr, hinfo⟩
  exact ⟨ht, (s.reads_globals _ _ s.gCrc).trans hr, hinfo⟩

/-- What a round of the loop of `fat_dir_read` does with the slot at the cursor. -/
def readSlot (v : Volume) (m : ℕ) (dir : Dir) (t : Slot) : FatM (DirInfo × Dir) :=
  if t.IsLast then .throw .eof
  else if t.IsFree then dirNext v dir >>= readFrom v m
  else if t.IsLfn then
    parseLfnName v dir >>= fun sfn => updateBuf v sfn.sect >>= fun _ =>
      Fallible.read id >>= fun fat =>
      if SfnIsFree fat.buf sfn.idx ∨ fat.gCrc ≠ getCrc (sfnName fat.buf sfn.idx) then
        .throw .broken
      else readInfo sfn
  else parseSfnName t.rawName >>= fun _ => readInfo dir

theorem readFrom_succ {dir : Dir} {t : Slot} {ss : List Slot} {s : State} (m : ℕ)
    (htape : Tape v w beyond dir (t :: ss)) (hc : s.Coherent) (hw : s.view = w) :
    ∃ s', s.Reads s' ∧ s'.buf = w dir.sect ∧
      readFrom v (m + 1) dir s = readSlot v m dir t s' := by
  obtain ⟨_, s', hrun, hr, -, hbuf⟩ := htape.load hc hw
  refine ⟨s', hr, hbuf, ?_⟩
  rw [readFrom, Fallible.bind_of_ok hrun, Fallible.read_bind, htape.head, ← hbuf]
  rfl

/-- **Read.**  A call finds the next entry, and fails if there is none. -/
theorem readFrom_spec (m : ℕ) : ∀ {dir : Dir} {ss : List Slot} {s : State},
    Tape v w beyond dir ss → s.Coherent → s.view = w → ss.length ≤ m →
    (nextEntry ss = none → ∃ e, Fails (readFrom v m dir) s e s.Reads) ∧
    (∀ run tl, nextEntry ss = some (run, tl) → Succeeds (readFrom v m dir) s fun r s' =>
      Tape v w beyond r.2 tl ∧ s.Reads s' ∧
      ∃ sfn rest, tl = sfn :: rest ∧ InfoRead r.1 sfn run) := by
  induction m with
  | zero =>
    intro dir ss s htape _ _ hlen
    exact absurd (List.length_eq_zero_iff.1 (Nat.le_zero.1 hlen)) htape.ne_nil
  | succ m ih =>
    intro dir ss s htape hc hw hlen
    obtain ⟨t, ss, rfl⟩ := List.exists_cons_of_ne_nil htape.ne_nil
    obtain ⟨s₁, hr₁, hb₁, hstep⟩ := readFrom_succ m htape hc hw
    have hc₁ := hr₁.coherent hc
    have hw₁ := hr₁.view.trans hw
    by_cases h1 : t.IsLast
    · -- the end mark
      rw [readSlot, if_pos h1] at hstep
      rw [nextEntry, if_pos h1]
      refine ⟨fun _ => ⟨.eof, Fails.of_eq hstep (.throw hr₁)⟩, fun run tl hnone => ?_⟩
      cases hnone
    by_cases h2 : t.IsFree
    · -- the entry is skipped, and the others are read in the remaining rounds
      rw [readSlot, if_neg h1, if_pos h2] at hstep
      rw [nextEntry, if_neg h1, if_pos h2]
      cases ss with
      | nil =>
        refine ⟨fun _ => ⟨.eof, Fails.of_eq hstep (Fails.bind ?_)⟩, fun run tl hnone => ?_⟩
        · exact (htape.of_singleton.1 s₁ hc₁ hw₁).mono fun s' h => hr₁.trans h.1
        · cases hnone
      | cons t' ss =>
        obtain ⟨next, hnext, htail⟩ := htape.of_cons
        obtain ⟨_, s₂, hrun₂, rfl, hr₂, -⟩ := hnext s₁ hc₁ hw₁
        have hr := hr₁.trans hr₂
        obtain ⟨hend, hfound⟩ := ih htail (hr.coherent hc) (hr.view.trans hw)
          (Nat.le_of_succ_le_succ hlen)
        rw [Fallible.bind_of_ok hrun₂] at hstep
        constructor
        · intro hnone
          obtain ⟨e, hfails⟩ := hend hnone
          exact ⟨e, Fails.of_eq hstep (hfails.mono fun s' h => hr.trans h)⟩
        · intro run tl hsome
          refine Succeeds.of_eq hstep ((hfound run tl hsome).mono ?_)
          rintro r s' ⟨ht, hr', hinfo⟩
          exact ⟨ht, hr.trans hr', hinfo⟩
    by_cases h3 : t.IsLfn
    · -- a long name, and the short entry behind it
      rw [readSlot, if_neg h1, if_neg h2, if_pos h3] at hstep
      rw [nextEntry, if_neg h1, if_neg h2, if_pos h3]
      obtain ⟨hbad, hgood⟩ := readLong_spec htape hc₁ hw₁
      by_cases h : (lfnRun (t :: ss)).isSome ∧ TextOk ((t :: ss).take t.cnt)
      · rw [if_pos h]
        refine ⟨fun hnone => (by cases hnone), fun run tl hsome => ?_⟩
        cases hsome
        obtain ⟨sfn, hsfn⟩ := Option.isSome_iff_exists.1 h.1
        refine Succeeds.of_eq hstep ((hgood sfn hsfn h.2).mono ?_)
        rintro r s' ⟨ht, hr, rest, hdrop, hinfo⟩
        exact ⟨ht, hr₁.trans hr, sfn, rest, hdrop, hinfo⟩
      · rw [if_neg h]
        obtain ⟨e, hfails⟩ := hbad h
        refine ⟨fun _ => ⟨e, Fails.of_eq hstep (hfails.mono fun s' h => hr₁.trans h)⟩, ?_⟩
        intro run tl hsome
        cases hsome
    · -- an entry with its short name
      rw [readSlot, if_neg h1, if_neg h2, if_neg h3] at hstep
      rw [nextEntry, if_neg h1, if_neg h2, if_neg h3]
      refine ⟨fun hnone => (by cases hnone), fun run tl hsome => ?_⟩
      cases hsome
      have hraw : t.rawName = sfnName s₁.buf dir.idx := by rw [htape.head, hb₁]; rfl
      rw [hraw] at hstep
      refine Succeeds.of_eq hstep ((readShort_spec htape hb₁).mono ?_)
      rintro r s' ⟨ht, hr, hinfo⟩
      exact ⟨ht, hr₁.trans hr, t, ss, rfl, hinfo⟩

end Read

end Karnix.Fat
