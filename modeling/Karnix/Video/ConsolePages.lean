import Karnix.Video.ConsoleCursor

/-!
# Texts printed in parts

`cga_text_print` clears a row below the screen when it comes to a line feed and when it ends, and
scrolls the screen only at its end.  A text that is printed in parts is cleared and scrolled more
often.  Here both are compared with a console that clears the row below its own after every
character and is never scrolled.
-/

namespace Karnix.Video

open Karnix.Library

/-! ## Section 1: A console that is never scrolled -/

/-- The cells, and the cell that the next character is written to. -/
structure Console where
  cells : ℕ → BitVec 32
  pos : ℕ

/-- How many cells an operation writes. -/
def TextOp.width (pos : ℕ) : TextOp → ℕ
  | .shown _ => 1
  | .tab => tabSpaces pos
  | _ => 0

/-- What it writes: the character, or a blank, with the colours. -/
def TextOp.value (attributes : BitVec 32) : TextOp → BitVec 32
  | .shown c => attributes ||| c.setWidth 32
  | _ => attributes ||| 0x20

/-- The `k` cells from `pos` on are `w`. -/
def overwrite (pos k : ℕ) (w : BitVec 32) (cells : ℕ → BitVec 32) (n : ℕ) : BitVec 32 :=
  if pos ≤ n ∧ n < pos + k then w else cells n

/-- Behind the screen the row below `row` is blank. -/
def tidy (blank : BitVec 32) (row : ℕ) (cells : ℕ → BitVec 32) (n : ℕ) : BitVec 32 :=
  if cgaTextHeight ≤ row ∧ n / cgaTextWidth = row + 1 then blank else cells n

/-- A character, and the row below is cleared. -/
def Console.step (attributes : BitVec 32) (s : Console) (op : TextOp) : Console where
  cells := tidy (attributes ||| 0x20) (op.next s.pos s.pos / cgaTextWidth)
    (overwrite s.pos (op.width s.pos) (op.value attributes) s.cells)
  pos := op.next s.pos s.pos

/-- A text on the endless console, operation by operation. -/
def Console.run (attributes : BitVec 32) (s : Console) (ops : List TextOp) : Console :=
  ops.foldl (Console.step attributes) s

variable {blank w : BitVec 32} {pos k n row row' : ℕ} {cells : ℕ → BitVec 32} {op : TextOp}
  {ops : List TextOp}

theorem tidy_of_lt (h : row < cgaTextHeight) : tidy blank row cells n = cells n :=
  if_neg fun hin => absurd hin.1 (Nat.not_le.mpr h)

theorem tidy_of_ne (h : n / cgaTextWidth ≠ row + 1) : tidy blank row cells n = cells n :=
  if_neg fun hin => h hin.2

theorem tidy_below (hrow : cgaTextHeight ≤ row) (h : n / cgaTextWidth = row + 1) :
    tidy blank row cells n = blank := if_pos ⟨hrow, h⟩

/-- What an operation writes lies in one row. -/
theorem width_le (op : TextOp) (pos : ℕ) : pos % 80 + op.width pos ≤ 80 := by
  cases op with
  | shown c =>
    change pos % 80 + 1 ≤ 80
    omega
  | tab =>
    change pos % 80 + tabSpaces pos ≤ 80
    unfold tabSpaces
    omega
  | lineFeed | carriageReturn | eraseLine | eraseScreen | home | color | motion =>
    change pos % 80 + 0 ≤ 80
    omega

theorem tabSpaces_column (y x : ℕ) : tabSpaces (80 * y + x) = tabSpaces x := by
  unfold tabSpaces
  omega

/-- Going on does not depend on the way the column is counted. -/
theorem next_column (y x : ℕ) (op : TextOp) :
    op.next x (80 * y + x) = op.next (80 * y + x) (80 * y + x) := by
  cases op with
  | tab => exact congrArg (80 * y + x + ·) (tabSpaces_column y x).symm
  | shown | lineFeed | carriageReturn | eraseLine | eraseScreen | home | color | motion => rfl

/-- **Step lemma.**  Clearing the row below before a write makes no difference, if that row is
blank when it is entered. -/
theorem tidy_overwrite {pos k : ℕ}
    (hrow' : row' = pos / 80 ∨ row' = pos / 80 + 1)
    (hblank : row' = pos / 80 + 1 → cgaTextHeight ≤ pos / 80 → n / 80 = row' → cells n = blank) :
    tidy blank row' (overwrite pos k w cells) n
      = tidy blank row' (overwrite pos k w (tidy blank (pos / 80) cells)) n := by
  by_cases hbelow : cgaTextHeight ≤ row' ∧ n / 80 = row' + 1
  · rw [tidy_below hbelow.1 hbelow.2, tidy_below hbelow.1 hbelow.2]
  · have hskip : ∀ c, tidy blank row' c n = c n := fun c => if_neg hbelow
    rw [hskip, hskip]
    by_cases hin : pos ≤ n ∧ n < pos + k
    · rw [overwrite, overwrite, if_pos hin, if_pos hin]
    · rw [overwrite, overwrite, if_neg hin, if_neg hin]
      by_cases hold : cgaTextHeight ≤ pos / 80 ∧ n / 80 = pos / 80 + 1
      · -- the row below is the row that is entered
        have henter : row' = pos / 80 + 1 := by
          rcases hrow' with hsame | hnext
          · rw [hsame] at hbelow
            exact absurd hold hbelow
          · exact hnext
        rw [tidy_below hold.1 hold.2]
        exact hblank henter hold.1 (hold.2.trans henter.symm)
      · exact (if_neg hold).symm

/-! ## Section 2: One call -/

/-- The variables of `cga_text_print` are those of the console, except that the row below is
cleared later, if at all. -/
structure Printer.Shows (p : Printer) (s : Console) : Prop where
  points : p.place.Points
  pos : p.fb.toNat = s.pos
  cells : ∀ n, n < cgaTextCells →
    tidy p.blank (s.pos / cgaTextWidth) p.frame.cell n = s.cells n
  /-- A row that was entered with a line feed has a blank row below. -/
  below : p.x < cgaTextWidth → cgaTextHeight ≤ p.y → ∀ n, n < cgaTextCells →
    n / cgaTextWidth = p.y + 1 → p.frame.cell n = p.blank

variable {p : Printer} {s : Console}

theorem Printer.Shows.pos_eq (h : p.Shows s) : s.pos = 80 * p.y + p.x := h.pos.symm.trans h.points

theorem Printer.Shows.row_eq (h : p.Shows s) : s.pos / 80 = p.place.lastRow := by
  rw [h.pos_eq]
  change _ = p.y + p.x / 80
  omega

/-- A place in the rows of the screen is bounded. -/
theorem bound_of_points {q : Place} (hpoints : q.Points) (hrow : q.lastRow ≤ 62) : q.Bound := by
  have hfb : q.fb.toNat = 80 * q.y + q.x := hpoints
  have hrow' : q.y + q.x / 80 ≤ 62 := hrow
  exact ⟨by omega, by omega⟩

/-- What an operation does to the cells. -/
theorem cell_exec (hpoints : p.place.Points) (hop : op.IsPlain) (hrow : p.place.lastRow ≤ 62)
    (hn : n < cgaTextCells) :
    (p.exec op).frame.cell n =
      if op = .lineFeed ∧ cgaTextHeight ≤ p.y + 1 ∧ n / cgaTextWidth = p.y + 2 then p.blank
      else overwrite p.fb.toNat (op.width p.fb.toNat) (op.value p.attributes) p.frame.cell n := by
  have hpos : p.fb.toNat = 80 * p.y + p.x := hpoints
  have hrow' : p.y + p.x / 80 ≤ 62 := hrow
  have hfb : p.fb = BitVec.ofNat 30 p.fb.toNat := by rw [BitVec.ofNat_toNat, BitVec.setWidth_eq]
  have hn30 : n < 2 ^ 30 := Nat.lt_trans hn (by decide)
  have hnothing : ∀ w, overwrite p.fb.toNat 0 w p.frame.cell n = p.frame.cell n :=
    fun w => if_neg (by omega)
  cases op with
  -- one cell is written
  | shown c =>
    have hnot : ¬ (TextOp.shown c = .lineFeed ∧ cgaTextHeight ≤ p.y + 1
        ∧ n / cgaTextWidth = p.y + 2) := fun hin => nomatch hin.1
    have hstore := cell_store (f := p.frame) (k := p.fb.toNat) (by omega) hn30
      (p.attributes ||| c.setWidth 32)
    rw [← hfb] at hstore
    have hcell : n = p.fb.toNat ↔ p.fb.toNat ≤ n ∧ n < p.fb.toNat + 1 := by omega
    rw [if_neg hnot]
    exact hstore.trans (if_congr hcell rfl rfl)
  -- only a line feed on the last line of the page clears a row
  | lineFeed =>
    simp only [true_and]
    change TextFrame.cell (if cgaTextHeight ≤ p.y + 1 then _ else p.frame) n = _
    by_cases hlast : cgaTextHeight ≤ p.y + 1
    · have hplace : (p.y + 1 + 1) * cgaTextWidth + cgaTextWidth ≤ 2 ^ 30 := by
        unfold cgaTextWidth
        omega
      rw [if_pos hlast, rowBelow, cell_fill hplace hn30]
      unfold cgaTextWidth at *
      by_cases hbelow : n / 80 = p.y + 2
      · rw [if_pos (by omega), if_pos ⟨hlast, hbelow⟩]
      · rw [if_neg (by omega), if_neg fun hin => hbelow hin.2]
        exact (hnothing _).symm
    · rw [if_neg hlast, if_neg fun hin => hlast hin.1]
      exact (hnothing _).symm
  | carriageReturn =>
    have hnot : ¬ (TextOp.carriageReturn = .lineFeed ∧ cgaTextHeight ≤ p.y + 1
        ∧ n / cgaTextWidth = p.y + 2) := fun hin => nomatch hin.1
    rw [if_neg hnot]
    exact (hnothing _).symm
  -- a tab writes spaces up to the next tab stop
  | tab =>
    have hnot : ¬ (TextOp.tab = .lineFeed ∧ cgaTextHeight ≤ p.y + 1
        ∧ n / cgaTextWidth = p.y + 2) := fun hin => nomatch hin.1
    have hspaces := tabSpaces_bounds p.x
    have hcolumn : tabSpaces p.fb.toNat = tabSpaces p.x := by
      rw [hpos]
      exact tabSpaces_column p.y p.x
    have hfill := cell_fill (f := p.frame) (k := p.fb.toNat) (m := tabSpaces p.x) (by omega) hn30
      p.blank
    rw [← hfb] at hfill
    rw [if_neg hnot]
    change (p.frame.fill p.fb p.blank (tabSpaces p.x)).cell n
      = overwrite p.fb.toNat (tabSpaces p.fb.toNat) p.blank p.frame.cell n
    rw [hfill, hcolumn, overwrite]
  | eraseLine | eraseScreen | home | color | motion => exact absurd hop id

/-- The row of an operation that is not a line feed. -/
theorem y_exec (hop : op.IsPlain) (hne : op ≠ .lineFeed) : (p.exec op).y = p.y := by
  cases op with
  | shown | carriageReturn | tab => rfl
  | lineFeed => exact absurd rfl hne
  | eraseLine | eraseScreen | home | color | motion => exact absurd hop id

theorem attributes_exec (hop : op.IsPlain) : (p.exec op).attributes = p.attributes := by
  cases op with
  | shown | lineFeed | carriageReturn | tab => rfl
  | eraseLine | eraseScreen | home | color | motion => exact absurd hop id

theorem attributes_foldl (hplain : ∀ op ∈ ops, op.IsPlain) :
    (ops.foldl Printer.exec p).attributes = p.attributes := by
  induction ops generalizing p with
  | nil => rfl
  | cons op ops ih =>
    rw [List.forall_mem_cons] at hplain
    exact (ih hplain.2).trans (attributes_exec hplain.1)

/-- **Step lemma.**  A row that is entered is blank then. -/
theorem entered_blank (h : p.Shows s) (hop : op.IsPlain)
    (hcleared : (p.place.move op).Cleared) (hnext : (p.place.move op).lastRow = s.pos / 80 + 1)
    (hlast : cgaTextHeight ≤ s.pos / 80) (hn : n < cgaTextCells)
    (hin : n / 80 = s.pos / 80 + 1) :
    p.frame.cell n = p.blank ∨ op = .lineFeed ∧ cgaTextHeight ≤ p.y + 1 ∧ n / 80 = p.y + 2 := by
  have hpos := h.pos_eq
  have hwide : (p.place.move op).x < 160 := hcleared (by
    unfold cgaTextHeight at hlast
    omega)
  unfold cgaTextHeight at hlast ⊢
  by_cases hx : p.x < 80
  · -- the row was entered with a line feed, which cleared the one below
    left
    exact h.below hx (by unfold cgaTextHeight; omega) n hn (by unfold cgaTextWidth; omega)
  · right
    cases op with
    | shown c =>
      have hrow : p.y + (p.x + 1) / 80 = s.pos / 80 + 1 := hnext
      have hlt : p.x + 1 < 160 := hwide
      omega
    | lineFeed =>
      have hlt : p.x < 160 := hwide
      exact ⟨rfl, by omega, by omega⟩
    | carriageReturn =>
      have hrow : p.y + 0 / 80 = s.pos / 80 + 1 := hnext
      omega
    | tab =>
      have hrow : p.y + (p.x + tabSpaces p.x) / 80 = s.pos / 80 + 1 := hnext
      have hlt : p.x + tabSpaces p.x < 160 := hwide
      omega
    | eraseLine | eraseScreen | home | color | motion => exact absurd hop id

/-- **Step lemma.**  The loop does to its variables what the console does. -/
theorem Printer.Shows.exec (h : p.Shows s) (hop : op.IsPlain)
    (hreturn : op = .carriageReturn → p.x < cgaTextWidth) (hcleared : (p.place.move op).Cleared)
    (hrow : (p.place.move op).lastRow ≤ 62) : (p.exec op).Shows (s.step p.attributes op) := by
  have hstep := lastRow_move (q := p.place) hop hreturn
  have hbound := bound_of_points h.points (Nat.le_trans hstep.1 hrow)
  have hpos := h.pos_eq
  -- where the step leads, as a place and as a position
  have hpoints : (p.exec op).place.Points := by
    rw [place_exec]
    exact (points_move hbound hop h.points).mpr hreturn
  have hnext : (p.exec op).fb.toNat = op.next s.pos s.pos := by
    have hmove := toNat_move hbound hop
    rw [← place_exec] at hmove
    change (p.exec op).fb.toNat = op.next p.x p.fb.toNat at hmove
    rw [hmove, h.pos, hpos]
    exact next_column p.y p.x op
  have hrow' : op.next s.pos s.pos / 80 = (p.place.move op).lastRow := by
    have hpoints' : (p.exec op).fb.toNat = 80 * (p.exec op).y + (p.exec op).x := hpoints
    rw [← place_exec, ← hnext, hpoints']
    change _ = (p.exec op).y + (p.exec op).x / 80
    omega
  -- what it leaves in each cell
  have hblank : (p.exec op).blank = p.blank := congrArg (· ||| 0x20) (attributes_exec hop)
  have hcell := fun n hn => cell_exec h.points hop (Nat.le_trans hstep.1 hrow) (n := n) hn
  rw [h.pos] at hcell
  rw [← h.row_eq] at hstep
  constructor
  case points => exact hpoints
  case pos => exact hnext
  case cells =>
    intro n hn
    have hold : ∀ w k, overwrite s.pos k w s.cells n
        = overwrite s.pos k w (tidy p.blank (s.pos / 80) p.frame.cell) n := by
      intro w k
      rw [overwrite, overwrite, ← h.cells n hn]
      rfl
    change tidy (p.exec op).blank (op.next s.pos s.pos / 80) (p.exec op).frame.cell n
      = tidy p.blank (op.next s.pos s.pos / 80)
          (overwrite s.pos (op.width s.pos) (op.value p.attributes) s.cells) n
    rw [hblank]
    by_cases hcleared' : op = .lineFeed ∧ cgaTextHeight ≤ p.y + 1 ∧ n / cgaTextWidth = p.y + 2
    · -- the line feed has cleared the row that it enters, or the one below
      have hleft : (p.exec op).frame.cell n = p.blank := (hcell n hn).trans (if_pos hcleared')
      obtain ⟨rfl, hlast, hin⟩ := hcleared'
      have hafter : (p.place.move .lineFeed).lastRow = p.y + 1 + p.x / 80 := rfl
      have hwide : (p.place.move .lineFeed).Cleared := hcleared
      unfold cgaTextHeight cgaTextWidth at *
      by_cases hbelow : n / 80 = (p.place.move .lineFeed).lastRow + 1
      · rw [hrow', tidy_below (by unfold cgaTextHeight; omega) hbelow,
          tidy_below (by unfold cgaTextHeight; omega) hbelow]
      · have hx : p.x < 160 := hwide (by omega)
        rw [hrow', tidy_of_ne hbelow, tidy_of_ne hbelow, hleft, hold, overwrite,
          if_neg (by change ¬ (s.pos ≤ n ∧ n < s.pos + 0); omega),
          tidy_below (by unfold cgaTextHeight; omega) (by unfold cgaTextWidth; omega)]
    · -- any other cell holds what the operation has left in it
      have hleft := (hcell n hn).trans (if_neg hcleared')
      have hpointwise : ∀ r, tidy p.blank r (p.exec op).frame.cell n
          = tidy p.blank r (overwrite s.pos (op.width s.pos) (op.value p.attributes)
              p.frame.cell) n := by
        intro r
        rw [tidy, tidy, hleft]
      have hpointwise' : ∀ r, tidy p.blank r
            (overwrite s.pos (op.width s.pos) (op.value p.attributes) s.cells) n
          = tidy p.blank r (overwrite s.pos (op.width s.pos) (op.value p.attributes)
              (tidy p.blank (s.pos / 80) p.frame.cell)) n := by
        intro r
        rw [tidy, tidy, hold]
      rw [hpointwise, hpointwise']
      refine tidy_overwrite (by omega) ?_
      intro henter hlast hin
      rcases entered_blank h hop hcleared (hrow'.symm.trans henter) hlast hn (hin.trans henter)
        with hold' | hfeed
      · exact hold'
      · exact absurd hfeed hcleared'
  case below =>
    intro hx hlast n hn hin
    rw [hblank, hcell n hn]
    by_cases hfeed : op = .lineFeed
    · subst hfeed
      exact if_pos ⟨rfl, hlast, hin⟩
    · rw [if_neg fun hin' => hfeed hin'.1]
      rw [y_exec hop hfeed] at hlast hin
      have hx' : p.x < 80 := by
        by_cases hcr : op = .carriageReturn
        · exact hreturn hcr
        · have hmove : (p.place.move op).x < 80 := by
            rw [← place_exec]
            exact hx
          exact Nat.lt_of_le_of_lt (x_move (q := p.place) hop hcr) hmove
      have hwidth := width_le op s.pos
      have hin' : n / 80 = p.y + 1 := hin
      -- the row below is not written
      rw [overwrite, if_neg (by omega)]
      exact h.below hx' hlast n hn hin

/-- **Run lemma.**  The loop does to its variables what the console does. -/
theorem Printer.Shows.foldl (h : p.Shows s) (hplain : ∀ op ∈ ops, op.IsPlain)
    (hfollows : p.place.Follows ops) (hrow : (p.place.after ops).lastRow ≤ 62) :
    (ops.foldl Printer.exec p).Shows (s.run p.attributes ops) := by
  induction ops generalizing p s with
  | nil => exact h
  | cons op ops ih =>
    obtain ⟨hreturn, hcleared, hrest⟩ := follows_cons hplain hfollows
    rw [List.forall_mem_cons] at hplain
    have hle := lastRow_le_after hplain.2 hrest.1
    have hstep := h.exec hplain.1 hreturn hcleared (Nat.le_trans hle hrow)
    rw [← place_exec] at hrest
    have hrow' : ((p.exec op).place.after ops).lastRow ≤ 62 := by
      rw [place_exec]
      exact hrow
    have hrun := ih hstep hplain.2 hrest hrow'
    rw [attributes_exec hplain.1] at hrun
    exact hrun

/-- The row and the column of the cursor at the end of the function. -/
theorem cursor_printEnd_eq (c : CgaText) (p : Printer) (hrow : p.place.lastRow ≤ 62) :
    (printEnd c p).cursorX = p.x % 80 ∧ (printEnd c p).cursorY = min p.place.lastRow 29 := by
  have hrow' : p.y + p.x / 80 ≤ 62 := hrow
  have hy : (if cgaTextWidth ≤ p.x then p.y + p.x / cgaTextWidth else p.y) = p.place.lastRow := by
    change _ = p.y + p.x / 80
    unfold cgaTextWidth
    split_ifs <;> omega
  have hx : (if cgaTextWidth ≤ p.x then p.x % cgaTextWidth else p.x) = p.x % 80 := by
    unfold cgaTextWidth
    split_ifs <;> omega
  have hcolumn : p.x % 80 < 256 := by omega
  simp only [printEnd, hx, hy]
  by_cases hlast : cgaTextHeight ≤ p.place.lastRow
  · rw [if_pos hlast, cursorX_setCursorXy _ hcolumn, cursorY_setCursorXy _ (by decide)]
    unfold cgaTextHeight at hlast ⊢
    exact ⟨rfl, by omega⟩
  · have hsmall : p.place.lastRow < 256 := by omega
    rw [if_neg hlast, cursorX_setCursorXy _ hcolumn, cursorY_setCursorXy _ hsmall]
    unfold cgaTextHeight at hlast
    exact ⟨rfl, by omega⟩

/-- The cells at the end of the function: the row below is cleared, and the screen scrolled. -/
theorem cell_printEnd (c : CgaText) (p : Printer) (hrow : p.place.lastRow ≤ 62)
    (hn : n < cgaTextCells) :
    (printEnd c p).frame.cell n = tidy p.blank p.place.lastRow p.frame.cell
      ((n + 80 * (p.place.lastRow - 29)) % cgaTextCells) := by
  have hy : (if cgaTextWidth ≤ p.x then p.y + p.x / cgaTextWidth else p.y) = p.place.lastRow := by
    change _ = p.y + p.x / 80
    unfold cgaTextWidth
    split_ifs <;> omega
  simp only [printEnd, hy]
  by_cases hlast : cgaTextHeight ≤ p.place.lastRow
  · rw [if_pos hlast]
    have hscroll := cell_scrollUps (p.place.lastRow - (cgaTextHeight - 1))
      { c with frame := p.frame.fill (rowBelow p.place.lastRow) p.blank cgaTextWidth } hn
    have hmod : (n + 80 * (p.place.lastRow - 29)) % cgaTextCells < cgaTextCells :=
      Nat.mod_lt _ (by decide)
    refine hscroll.trans ?_
    change TextFrame.cell (p.frame.fill (rowBelow p.place.lastRow) p.blank cgaTextWidth)
      ((n + 80 * (p.place.lastRow - 29)) % cgaTextCells) = _
    generalize (n + 80 * (p.place.lastRow - 29)) % cgaTextCells = m at hmod
    have hplace : (p.place.lastRow + 1) * cgaTextWidth + cgaTextWidth ≤ 2 ^ 30 := by
      unfold cgaTextWidth
      omega
    rw [rowBelow, cell_fill hplace (Nat.lt_trans hmod (by decide)), tidy]
    unfold cgaTextWidth
    by_cases hbelow : m / 80 = p.place.lastRow + 1
    · rw [if_pos (by omega), if_pos ⟨hlast, hbelow⟩]
    · rw [if_neg (by omega), if_neg fun hin => hbelow hin.2]
  · rw [if_neg hlast, tidy_of_lt (Nat.not_le.mp hlast)]
    have hzero : p.place.lastRow - 29 = 0 := by
      unfold cgaTextHeight at hlast
      omega
    rw [hzero, Nat.mul_zero, Nat.add_zero, Nat.mod_eq_of_lt hn]
    rfl

/-- The end of the function shows the console, scrolled so far that its row is seen. -/
theorem Printer.Shows.ends (h : p.Shows s) (hrow : p.place.lastRow ≤ 62) (c : CgaText) :
    (∀ n, n < cgaTextCells → (printEnd c p).frame.cell n
        = s.cells ((n + 80 * (s.pos / 80 - 29)) % cgaTextCells))
      ∧ (printEnd c p).cursorX = s.pos % 80 ∧ (printEnd c p).cursorY = min (s.pos / 80) 29 := by
  obtain ⟨hx, hy⟩ := cursor_printEnd_eq c p hrow
  have hpos := h.pos_eq
  refine ⟨?_, ?_, ?_⟩
  · intro n hn
    have hmod : (n + 80 * (s.pos / 80 - 29)) % cgaTextCells < cgaTextCells :=
      Nat.mod_lt _ (by decide)
    rw [cell_printEnd c p hrow hn, ← h.row_eq]
    exact h.cells _ hmod
  · rw [hx]
    omega
  · rw [hy, h.row_eq]

/-- Printing starts with the cells as they are. -/
theorem shows_printer {c : CgaText} {x y : ℤ} {fgColor bgColor : BitVec 32} {col row : ℕ}
    (hplace : (c.printer x y fgColor bgColor).place = ⟨BitVec.ofNat 30 (80 * row + col), col, row⟩)
    (hcol : col < 80) (hrow : row < 30) :
    (c.printer x y fgColor bgColor).Shows ⟨c.frame.cell, 80 * row + col⟩ := by
  have hfb : (c.printer x y fgColor bgColor).fb = BitVec.ofNat 30 (80 * row + col) :=
    congrArg Place.fb hplace
  have hx : (c.printer x y fgColor bgColor).x = col := congrArg Place.x hplace
  have hy : (c.printer x y fgColor bgColor).y = row := congrArg Place.y hplace
  have hpos : (c.printer x y fgColor bgColor).fb.toNat = 80 * row + col := by
    rw [hfb, BitVec.toNat_ofNat, Nat.mod_eq_of_lt (by omega)]
  refine ⟨?_, hpos, ?_, ?_⟩
  · change (c.printer x y fgColor bgColor).fb.toNat
      = 80 * (c.printer x y fgColor bgColor).y + (c.printer x y fgColor bgColor).x
    rw [hpos, hx, hy]
  · intro n _
    refine tidy_of_lt ?_
    change (80 * row + col) / 80 < 30
    omega
  · intro _ hlast
    rw [hy] at hlast
    exact absurd hrow (Nat.not_lt.mpr hlast)

/-- `bg_color << 16 | fg_color << 8` -/
def textAttributes (fgColor bgColor : BitVec 32) : BitVec 32 := bgColor <<< 16 ||| fgColor <<< 8

/-- The place at which printing starts. -/
def startPlace (col row : ℕ) : Place := ⟨BitVec.ofNat 30 (80 * row + col), col, row⟩

/-- What a call leaves, given the console that it shows: the screen is scrolled so far that the
row of the cursor is seen. -/
structure CgaText.Printed (c : CgaText) (blank : BitVec 32) (s : Console) : Prop where
  cells : ∀ n, n < cgaTextCells →
    c.frame.cell n = s.cells ((n + 80 * (s.pos / 80 - 29)) % cgaTextCells)
  cursorX : c.cursorX = s.pos % 80
  cursorY : c.cursorY = min (s.pos / 80) 29
  below : 30 ≤ s.pos / 80 → ∀ n, n < cgaTextCells → n / 80 = s.pos / 80 + 1 → s.cells n = blank

/-- **Run lemma.**  A call prints what the console prints. -/
theorem print_spec {c : CgaText} {x y : ℤ} {fgColor bgColor : BitVec 32} {col row : ℕ}
    {text : CString} (hplace : (c.printer x y fgColor bgColor).place = startPlace col row)
    (hcol : col < 80) (hrow : row < 30) (hesc : (0x1b : Byte) ∉ text.bytes)
    (hfollows : (startPlace col row).Follows (text.bytes.map plain))
    (hlast : ((startPlace col row).after (text.bytes.map plain)).lastRow ≤ 62) :
    ∃ c', cgaTextPrint c x y fgColor bgColor (some text) = some c'
      ∧ c'.Printed (textAttributes fgColor bgColor ||| 0x20)
        (Console.run (textAttributes fgColor bgColor) ⟨c.frame.cell, 80 * row + col⟩
          (text.bytes.map plain))
      ∧ (Console.run (textAttributes fgColor bgColor) ⟨c.frame.cell, 80 * row + col⟩
          (text.bytes.map plain)).pos
        = ((startPlace col row).after (text.bytes.map plain)).fb.toNat
      ∧ ((startPlace col row).after (text.bytes.map plain)).Points := by
  have hplain : ∀ op ∈ text.bytes.map plain, op.IsPlain := by
    intro op hop
    obtain ⟨b, -, rfl⟩ := List.mem_map.mp hop
    exact isPlain_plain b
  have hstart := shows_printer (c := c) hplace hcol hrow
  have hrun := hstart.foldl hplain (by rw [hplace]; exact hfollows) (by rw [hplace]; exact hlast)
  have hend := hrun.ends (by rw [place_foldl, hplace]; exact hlast) c
  refine ⟨_, ?_, ⟨hend.1, hend.2.1, hend.2.2, ?_⟩, ?_, ?_⟩
  · rw [cgaTextPrint, printLoop_plain hesc]
    rfl
  · intro hbelow n hn hin
    refine (hrun.cells n hn).symm.trans ?_
    have hblank : ((text.bytes.map plain).foldl Printer.exec (c.printer x y fgColor bgColor)).blank
        = textAttributes fgColor bgColor ||| 0x20 :=
      congrArg (· ||| 0x20) (attributes_foldl hplain)
    rw [← hblank]
    exact tidy_below hbelow hin
  · rw [← hplace, ← place_foldl]
    exact hrun.pos.symm
  · rw [← hplace, ← place_foldl]
    exact hrun.points

/-! ## Section 3: A console that was scrolled -/

/-- The console `s'` is `s` after it was scrolled by `r` rows. -/
structure Console.Scrolled (blank : BitVec 32) (r : ℕ) (s s' : Console) : Prop where
  pos : s.pos = s'.pos + 80 * r
  top : r = 0 ∨ 29 ≤ s'.pos / 80
  cells : ∀ n, n < cgaTextCells → s'.cells n = s.cells ((n + 80 * r) % cgaTextCells)
  below : 0 < r → s'.pos / 80 = 29 → ∀ n, n < cgaTextCells → n / 80 = 30 → s'.cells n = blank

theorem row_le_next (op : TextOp) (pos : ℕ) : pos / 80 ≤ op.next pos pos / 80 := by
  cases op with
  | shown c =>
    change pos / 80 ≤ (pos + 1) / 80
    omega
  | lineFeed =>
    change pos / 80 ≤ (pos + 80) / 80
    omega
  | carriageReturn =>
    change pos / 80 ≤ (pos - pos % 80) / 80
    omega
  | tab =>
    change pos / 80 ≤ (pos + tabSpaces pos) / 80
    omega
  | eraseLine | eraseScreen | home | color | motion => exact Nat.le_refl _

theorem row_le_run (attributes : BitVec 32) (s : Console) (ops : List TextOp) :
    s.pos / 80 ≤ (s.run attributes ops).pos / 80 := by
  induction ops generalizing s with
  | nil => exact Nat.le_refl _
  | cons op ops ih => exact Nat.le_trans (row_le_next op s.pos) (ih (s.step attributes op))

/-- Going on is the same in every row. -/
theorem next_scrolled (op : TextOp) (pos r : ℕ) :
    op.next (pos + 80 * r) (pos + 80 * r) = op.next pos pos + 80 * r := by
  cases op with
  | shown c =>
    change pos + 80 * r + 1 = pos + 1 + 80 * r
    omega
  | lineFeed =>
    change pos + 80 * r + 80 = pos + 80 + 80 * r
    omega
  | carriageReturn =>
    change pos + 80 * r - (pos + 80 * r) % 80 = pos - pos % 80 + 80 * r
    omega
  | tab =>
    change pos + 80 * r + tabSpaces (pos + 80 * r) = pos + tabSpaces pos + 80 * r
    unfold tabSpaces
    omega
  | eraseLine | eraseScreen | home | color | motion => rfl

theorem width_scrolled (op : TextOp) (pos r : ℕ) : op.width (pos + 80 * r) = op.width pos := by
  cases op with
  | tab =>
    change tabSpaces (pos + 80 * r) = tabSpaces pos
    unfold tabSpaces
    omega
  | shown | lineFeed | carriageReturn | eraseLine | eraseScreen | home | color | motion => rfl

variable {attributes : BitVec 32} {r : ℕ} {s' : Console}

/-- **Step lemma.**  A character goes to the same cell, scrolled or not. -/
theorem Console.Scrolled.step (h : Console.Scrolled (attributes ||| 0x20) r s s')
    (hrow : (s.step attributes op).pos / 80 ≤ 62) :
    Console.Scrolled (attributes ||| 0x20) r (s.step attributes op) (s'.step attributes op) := by
  have hpos := h.pos
  have hnext : op.next s.pos s.pos = op.next s'.pos s'.pos + 80 * r := by
    rw [hpos]
    exact next_scrolled op s'.pos r
  have hwidth : op.width s.pos = op.width s'.pos := by
    rw [hpos]
    exact width_scrolled op s'.pos r
  have hle := row_le_next op s'.pos
  have hin := width_le op s'.pos
  have hrow' : op.next s.pos s.pos / 80 ≤ 62 := hrow
  rw [hnext] at hrow'
  -- the row below row 29 is blank, scrolled or not
  have hbelow : 0 < r → op.next s'.pos s'.pos / 80 = 29 → ∀ n, n < cgaTextCells → n / 80 = 30 →
      (s'.step attributes op).cells n = attributes ||| 0x20 := by
    intro hr hrow29 n hn hn30
    have hold : s'.pos / 80 = 29 := by
      rcases h.top with hzero | htop
      · omega
      · omega
    change tidy _ (op.next s'.pos s'.pos / 80) (overwrite s'.pos _ _ s'.cells) n = _
    rw [tidy_of_lt (by unfold cgaTextHeight; omega), overwrite, if_neg (by omega)]
    exact h.below hr hold n hn hn30
  refine ⟨hnext, ?_, ?_, hbelow⟩
  · rcases h.top with hzero | htop
    · exact Or.inl hzero
    · exact Or.inr (Nat.le_trans htop hle)
  · intro n hn
    rcases Nat.eq_zero_or_pos r with hzero | hr
    · -- nothing was scrolled
      subst hzero
      have hcells : ∀ m, m < cgaTextCells → s'.cells m = s.cells m := by
        intro m hm
        rw [h.cells m hm, Nat.mul_zero, Nat.add_zero, Nat.mod_eq_of_lt hm]
      have hsame : s'.pos = s.pos := by omega
      rw [Nat.mul_zero, Nat.add_zero, Nat.mod_eq_of_lt hn]
      change tidy _ _ (overwrite _ _ _ s'.cells) n = tidy _ _ (overwrite _ _ _ s.cells) n
      rw [tidy, tidy, overwrite, overwrite, hcells n hn, hsame]
    · have htop : 29 ≤ s'.pos / 80 := by
        rcases h.top with hzero | htop
        · omega
        · exact htop
      rw [cgaTextCells_eq] at hn ⊢
      have hcell := h.cells n (by rw [cgaTextCells_eq]; exact hn)
      rw [cgaTextCells_eq] at hcell
      have hrange : (s.pos ≤ (n + 80 * r) % 5120 ∧ (n + 80 * r) % 5120 < s.pos + op.width s.pos)
          ↔ s'.pos ≤ n ∧ n < s'.pos + op.width s'.pos := by
        rw [hwidth]
        omega
      have hbelow' : (n + 80 * r) % 5120 / 80 = (op.next s'.pos s'.pos + 80 * r) / 80 + 1
          ↔ n / 80 = op.next s'.pos s'.pos / 80 + 1 := by omega
      by_cases h29 : op.next s'.pos s'.pos / 80 = 29 ∧ n / 80 = 30
      · -- the console that was not scrolled clears the row here
        rw [hbelow hr h29.1 n (by rw [cgaTextCells_eq]; exact hn) h29.2]
        change _ = tidy _ (op.next s.pos s.pos / 80) _ _
        rw [hnext, tidy_below]
        · unfold cgaTextHeight
          omega
        · exact hbelow'.mpr (by omega)
      · change tidy _ (op.next s'.pos s'.pos / 80) (overwrite s'.pos _ _ s'.cells) n
          = tidy _ (op.next s.pos s.pos / 80) (overwrite s.pos _ _ s.cells) _
        have hclear : (cgaTextHeight ≤ (op.next s'.pos s'.pos + 80 * r) / 80
              ∧ (n + 80 * r) % 5120 / 80 = (op.next s'.pos s'.pos + 80 * r) / 80 + 1)
            ↔ cgaTextHeight ≤ op.next s'.pos s'.pos / 80
              ∧ n / 80 = op.next s'.pos s'.pos / 80 + 1 := by
          rw [hbelow']
          unfold cgaTextHeight
          omega
        rw [tidy, tidy, overwrite, overwrite, hnext, hcell]
        exact (if_congr hclear rfl (if_congr hrange rfl rfl)).symm

/-- **Run lemma.**  A text keeps two consoles apart by the rows that one has scrolled. -/
theorem Console.Scrolled.run (h : Console.Scrolled (attributes ||| 0x20) r s s')
    (hrow : (s.run attributes ops).pos / 80 ≤ 62) :
    Console.Scrolled (attributes ||| 0x20) r (s.run attributes ops) (s'.run attributes ops) := by
  induction ops generalizing s s' with
  | nil => exact h
  | cons op ops ih =>
    have hle := row_le_run attributes (s.step attributes op) ops
    exact ih (h.step (Nat.le_trans hle hrow)) hrow

end Karnix.Video
