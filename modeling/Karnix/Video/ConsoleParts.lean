import Karnix.Video.ConsolePages

/-!
# The cursor follows the text

For a text without escape sequences that stays on the screen: when the pointer and the cursor of
`cga_text_print` are the same place throughout, and when a text printed in parts leaves the same
screen as the text in one.
-/

namespace Karnix.Video

open Karnix.Library

/-! ## Section 1: What is asked -/

/-- The same cells, and the same cursor. -/
def CgaText.SameScreen (c c' : CgaText) : Prop :=
  (∀ n, n < cgaTextCells → c.frame.cell n = c'.frame.cell n)
    ∧ c.cursorX = c'.cursorX ∧ c.cursorY = c'.cursorY

/-- The cursor follows the text from `(x, y)` on, whatever is on the screen. -/
structure FollowsText (x y : ℕ) (fgColor bgColor : BitVec 32) (text : CString) : Prop where
  /-- At every step the pointer is at the cell that the coordinates say. -/
  pointer : ∀ (c : CgaText) (a b : List Byte) (p : Printer), text.bytes = a ++ b →
    printLoop a (c.printer x y fgColor bgColor) = some p →
    p.fb.toNat = cgaTextWidth * (p.y + p.x / cgaTextWidth) + p.x % cgaTextWidth
  /-- A carriage return leads to column 0 of the row. -/
  carriageReturn : ∀ (c : CgaText) (a b : List Byte) (p p' : Printer),
    text.bytes = a ++ 0x0d :: b → printLoop a (c.printer x y fgColor bgColor) = some p →
    printLoop (a ++ [0x0d]) (c.printer x y fgColor bgColor) = some p' →
    p'.fb.toNat = cgaTextWidth * (p.fb.toNat / cgaTextWidth) ∧ p'.x = 0
  /-- A tab leads to the next multiple of 8. -/
  tab : ∀ (c : CgaText) (a b : List Byte) (p p' : Printer),
    text.bytes = a ++ 0x09 :: b → printLoop a (c.printer x y fgColor bgColor) = some p →
    printLoop (a ++ [0x09]) (c.printer x y fgColor bgColor) = some p' →
    p'.x = (p.x / 8 + 1) * 8 ∧ p'.fb.toNat = p.fb.toNat + (p'.x - p.x)
  /-- The cursor is set to the cell of the pointer, less the rows that were scrolled. -/
  cursor : ∀ (c c' : CgaText) (p : Printer),
    printLoop text.bytes (c.printer x y fgColor bgColor) = some p →
    cgaTextPrint c x y fgColor bgColor (some text) = some c' →
    c'.cursorX = p.fb.toNat % cgaTextWidth
      ∧ c'.cursorY = p.fb.toNat / cgaTextWidth
        - (p.fb.toNat / cgaTextWidth - (cgaTextHeight - 1))
  /-- Printed in two parts the text leaves the same screen and cursor. -/
  parts : ∀ (c : CgaText) (a b : CString), text = a.append b →
    ∃ c' c₁ c₂, cgaTextPrint c x y fgColor bgColor (some text) = some c'
      ∧ cgaTextPrint c x y fgColor bgColor (some a) = some c₁
      ∧ cgaTextPrint c₁ (-1) (-1) fgColor bgColor (some b) = some c₂ ∧ c₂.SameScreen c'

/-! ## Section 2: A text that is good -/

variable {x y : ℕ} {fgColor bgColor : BitVec 32} {text : CString} {c : CgaText}

theorem place_printer (c : CgaText) (x y : ℕ) (fgColor bgColor : BitVec 32) :
    (c.printer x y fgColor bgColor).place = startPlace x y := by
  have hx : ¬ (x : ℤ) < 0 := Int.not_lt.mpr (Int.natCast_nonneg x)
  have hy : ¬ (y : ℤ) < 0 := Int.not_lt.mpr (Int.natCast_nonneg y)
  simp only [CgaText.printer, if_neg hx, if_neg hy, Int.toNat_natCast]
  rfl

theorem place_printer_cursor (c : CgaText) (fgColor bgColor : BitVec 32) :
    (c.printer (-1) (-1) fgColor bgColor).place = startPlace c.cursorX c.cursorY := rfl

theorem toNat_start (hx : x < 80) (hy : y < 30) : (startPlace x y).fb.toNat = 80 * y + x := by
  change (BitVec.ofNat 30 (80 * y + x)).toNat = _
  rw [BitVec.toNat_ofNat, Nat.mod_eq_of_lt (by omega)]

theorem points_start (hx : x < 80) (hy : y < 30) : (startPlace x y).Points := toNat_start hx hy

theorem lastRow_start (hx : x < 80) : (startPlace x y).lastRow = y := by
  change y + x / 80 = y
  omega

theorem bound_start (hx : x < 80) (hy : y < 30) : (startPlace x y).Bound := by
  refine bound_of_points (points_start hx hy) ?_
  rw [lastRow_start hx]
  omega

theorem plain_map (bs : List Byte) : ∀ op ∈ bs.map plain, op.IsPlain := by
  intro op hop
  obtain ⟨b, -, rfl⟩ := List.mem_map.mp hop
  exact isPlain_plain b

/-- The text stays on the screen: its operations fit from the start on. -/
theorem fitsAll_of_stays (hesc : (0x1b : Byte) ∉ text.bytes)
    (hstay : StaysOnScreen c x y fgColor bgColor text) :
    (startPlace x y).FitsAll (text.bytes.map plain) := by
  obtain ⟨ops, hops, hfits⟩ := (staysOnScreen_iff c x y fgColor bgColor text).mp hstay
  rw [textOps_plain hesc] at hops
  cases hops
  rw [place_printer] at hfits
  exact hfits

/-- The row of a console is that of the cursor. -/
theorem row_of_points {q : Place} {pos : ℕ} (hpos : pos = q.fb.toNat) (hpoints : q.Points) :
    pos / 80 = q.lastRow := by
  have hfb : q.fb.toNat = 80 * q.y + q.x := hpoints
  rw [hpos, hfb]
  change _ = q.y + q.x / 80
  omega

/-- A console that was scrolled until its row is seen. -/
theorem scrolled_of_printed {blank : BitVec 32} {S : Console} (h : c.Printed blank S)
    (hrow : S.pos / 80 ≤ 62) :
    Console.Scrolled blank (S.pos / 80 - 29) S
      ⟨c.frame.cell, 80 * c.cursorY + c.cursorX⟩ := by
  have hx := h.cursorX
  have hy := h.cursorY
  refine ⟨?_, ?_, h.cells, ?_⟩
  · change S.pos = 80 * c.cursorY + c.cursorX + _
    omega
  · change _ ∨ 29 ≤ (80 * c.cursorY + c.cursorX) / 80
    omega
  · intro hs _ n hn hin
    have hmod : (n + 80 * (S.pos / 80 - 29)) % cgaTextCells < cgaTextCells :=
      Nat.mod_lt _ (by decide)
    refine (h.cells n hn).trans (h.below (by omega) _ hmod ?_)
    rw [cgaTextCells_eq] at hn ⊢
    omega

/-- **Run lemma.**  A second text goes on as if it had been printed with the first. -/
theorem print_again {S : Console} {q : Place} {b : CString}
    (hc : c.Printed (textAttributes fgColor bgColor ||| 0x20) S) (hpos : S.pos = q.fb.toNat)
    (hpoints : q.Points) (hrow : q.lastRow ≤ 62) (hesc : (0x1b : Byte) ∉ b.bytes)
    (hfollows : q.Follows (b.bytes.map plain))
    (hlast : (q.after (b.bytes.map plain)).lastRow ≤ 62)
    (hrun : (S.run (textAttributes fgColor bgColor) (b.bytes.map plain)).pos / 80 ≤ 62) :
    ∃ c₂, cgaTextPrint c (-1) (-1) fgColor bgColor (some b) = some c₂
      ∧ ∀ c', c'.Printed (textAttributes fgColor bgColor ||| 0x20)
          (S.run (textAttributes fgColor bgColor) (b.bytes.map plain)) → c₂.SameScreen c' := by
  have hrowS := row_of_points hpos hpoints
  have hfb : q.fb.toNat = 80 * q.y + q.x := hpoints
  have hlastRow : q.lastRow = q.y + q.x / 80 := rfl
  have hx := hc.cursorX
  have hy := hc.cursorY
  have hcolumn : c.cursorX < 80 := by omega
  have hrow' : c.cursorY < 30 := by omega
  -- the second text starts from the folded place
  have hfolded : Place.Folded (S.pos / 80 - 29) (q.x / 80) q (startPlace c.cursorX c.cursorY) := by
    constructor
    · change q.x = c.cursorX + _
      omega
    · change q.y + _ = c.cursorY + _
      omega
  have hafter := (hfolded.after (plain_map b.bytes) hfollows.1).2.lastRow_eq
  obtain ⟨c₂, hprint, hc₂, -⟩ := print_spec (place_printer_cursor c fgColor bgColor) hcolumn hrow'
    hesc (hfolded.follows (plain_map b.bytes) hfollows) (by omega)
  have hscrolled := (scrolled_of_printed hc (by omega)).run hrun
  refine ⟨c₂, hprint, fun c' hc' => ?_⟩
  -- the rows scrolled by both calls are those that one call scrolls
  have hsum := hscrolled.pos
  have htop := hscrolled.top
  refine ⟨?_, ?_, ?_⟩
  · intro n hn
    rw [hc₂.cells n hn, hscrolled.cells _ (Nat.mod_lt _ (by decide)), hc'.cells n hn,
      Nat.mod_add_mod]
    refine congrArg _ (congrArg (· % cgaTextCells) ?_)
    omega
  · rw [hc₂.cursorX, hc'.cursorX]
    omega
  · rw [hc₂.cursorY, hc'.cursorY]
    omega

/-- The text in two parts. -/
theorem parts_of_follows (hx : x < 80) (hy : y < 30) (hesc : (0x1b : Byte) ∉ text.bytes)
    (hfollows : (startPlace x y).Follows (text.bytes.map plain))
    (hlast : ((startPlace x y).after (text.bytes.map plain)).lastRow ≤ 62) (c : CgaText)
    {a b : CString} (htext : text = a.append b) :
    ∃ c' c₁ c₂, cgaTextPrint c x y fgColor bgColor (some text) = some c'
      ∧ cgaTextPrint c x y fgColor bgColor (some a) = some c₁
      ∧ cgaTextPrint c₁ (-1) (-1) fgColor bgColor (some b) = some c₂ ∧ c₂.SameScreen c' := by
  subst htext
  have hops : (a.append b).bytes.map plain = a.bytes.map plain ++ b.bytes.map plain :=
    List.map_append
  have hescA : (0x1b : Byte) ∉ a.bytes := fun h => hesc (List.mem_append_left _ h)
  have hescB : (0x1b : Byte) ∉ b.bytes := fun h => hesc (List.mem_append_right _ h)
  obtain ⟨c', hprint, hc', hpos, hpoints⟩ :=
    print_spec (place_printer c x y fgColor bgColor) hx hy hesc hfollows hlast
  have hrow := row_of_points hpos hpoints
  rw [hops] at hfollows hlast hc' hrow
  obtain ⟨hreturnsA, hreturnsB⟩ := returns_append.mp hfollows.1
  rw [after_append] at hlast hrow
  have hend : (((startPlace x y).after (a.bytes.map plain)).after (b.bytes.map plain)).Cleared := by
    rw [← after_append]
    exact hfollows.2
  have hfollowsA : (startPlace x y).Follows (a.bytes.map plain) :=
    ⟨hreturnsA, cleared_of_after (plain_map b.bytes) hreturnsB hend⟩
  have hlastA : ((startPlace x y).after (a.bytes.map plain)).lastRow ≤ 62 :=
    Nat.le_trans (lastRow_le_after (plain_map b.bytes) hreturnsB) hlast
  obtain ⟨c₁, hprint₁, hc₁, hposA, hpointsA⟩ :=
    print_spec (place_printer c x y fgColor bgColor) hx hy hescA hfollowsA hlastA
  -- the console of the text is that of its parts
  rw [Console.run, List.foldl_append] at hc' hrow
  obtain ⟨c₂, hprint₂, hsame⟩ := print_again hc₁ hposA hpointsA hlastA hescB ⟨hreturnsB, hend⟩ hlast
    (Nat.le_trans (Nat.le_of_eq hrow) hlast)
  exact ⟨c', c₁, c₂, hprint, hprint₁, hprint₂, hsame c' hc'⟩

/-! ## Section 3: A text that is not -/

theorem y_le_move {q : Place} {op : TextOp} (hop : op.IsPlain) : q.y ≤ (q.move op).y := by
  cases op with
  | shown | carriageReturn | tab => exact Nat.le_refl q.y
  | lineFeed => exact Nat.le_succ q.y
  | eraseLine | eraseScreen | home | color | motion => exact absurd hop id

theorem y_le_after {q : Place} {ops : List TextOp} (hplain : ∀ op ∈ ops, op.IsPlain) :
    q.y ≤ (q.after ops).y := by
  induction ops generalizing q with
  | nil => exact Nat.le_refl _
  | cons op ops ih =>
    rw [List.forall_mem_cons] at hplain
    exact Nat.le_trans (y_le_move hplain.1) (ih hplain.2)

/-- **Run lemma.**  The last cell of the last row keeps what it held, unless a line feed clears
the row. -/
theorem cell_untouched {p : Printer} {ops : List TextOp} {r : ℕ} (hpoints : p.place.Points)
    (hplain : ∀ op ∈ ops, op.IsPlain) (hreturns : p.place.Returns ops)
    (hrow : (p.place.after ops).lastRow ≤ r) (hr : r ≤ 62)
    (hclear : (p.place.after ops).y + 1 < r ∨ r ≤ 30) :
    (ops.foldl Printer.exec p).frame.cell (80 * r + 79) = p.frame.cell (80 * r + 79) := by
  induction ops generalizing p with
  | nil => rfl
  | cons op ops ih =>
    -- what comes later leaves the cell alone, so only this operation matters
    rw [List.forall_mem_cons] at hplain
    have hnext : (p.place.move op).lastRow ≤ r :=
      Nat.le_trans (lastRow_le_after hplain.2 hreturns.2) hrow
    have hhere : p.place.lastRow ≤ r :=
      Nat.le_trans (lastRow_move hplain.1 hreturns.1).1 hnext
    have hbound := bound_of_points hpoints (Nat.le_trans hhere hr)
    have hpoints' : (p.exec op).place.Points := by
      rw [place_exec]
      exact (points_move hbound hplain.1 hpoints).mpr hreturns.1
    have hn : 80 * r + 79 < cgaTextCells := by
      rw [cgaTextCells_eq]
      omega
    rw [List.foldl_cons, ih hpoints' hplain.2 (by rw [place_exec]; exact hreturns.2)
      (by rw [place_exec]; exact hrow) (by rw [place_exec]; exact hclear),
      cell_exec hpoints hplain.1 (Nat.le_trans hhere hr) hn]
    have hfb : p.fb.toNat = 80 * p.y + p.x := hpoints
    have hfb' : (p.exec op).fb.toNat = 80 * (p.exec op).y + (p.exec op).x := hpoints'
    have hnext' : (p.exec op).y + (p.exec op).x / 80 ≤ r := by
      rw [← place_exec] at hnext
      exact hnext
    have hy : (p.exec op).y ≤ (p.place.after (op :: ops)).y := by
      have hsame : (p.exec op).y = (p.place.move op).y := congrArg Place.y (place_exec p op)
      rw [hsame]
      exact y_le_after hplain.2
    -- the row that a line feed clears is another one
    have hfeed : ¬ (op = .lineFeed ∧ cgaTextHeight ≤ p.y + 1
        ∧ (80 * r + 79) / cgaTextWidth = p.y + 2) := by
      rintro ⟨rfl, hlast, hin⟩
      have hy' : p.y + 1 ≤ (p.place.after (.lineFeed :: ops)).y := hy
      unfold cgaTextHeight at hlast
      unfold cgaTextWidth at hin
      omega
    -- what reaches the end of the row goes on to the next
    have hwrite : ¬ (p.fb.toNat ≤ 80 * r + 79
        ∧ 80 * r + 79 < p.fb.toNat + op.width p.fb.toNat) := by
      rintro ⟨hlow, hhigh⟩
      have hmove := toNat_move hbound hplain.1
      rw [← place_exec] at hmove
      have hmove' : (p.exec op).fb.toNat = op.next p.x p.fb.toNat := hmove
      rw [hfb] at hhigh hlow hmove'
      rw [next_column] at hmove'
      have hgo : 80 * p.y + p.x + op.width (80 * p.y + p.x)
          ≤ op.next (80 * p.y + p.x) (80 * p.y + p.x) ∨ op.width (80 * p.y + p.x) = 0 := by
        cases op with
        | shown | tab => exact Or.inl (Nat.le_refl _)
        | lineFeed | carriageReturn => exact Or.inr rfl
        | eraseLine | eraseScreen | home | color | motion => exact absurd hplain.1 id
      omega
    rw [if_neg hfeed, overwrite, if_neg hwrite]

theorem print_eq (hesc : (0x1b : Byte) ∉ text.bytes) (c : CgaText) (x y : ℤ) :
    cgaTextPrint c x y fgColor bgColor (some text) = some (printEnd c
      ((text.bytes.map plain).foldl Printer.exec (c.printer x y fgColor bgColor))) := by
  rw [cgaTextPrint, printLoop_plain hesc]
  rfl

/-- A byte array that is part of a string. -/
theorem exists_append {a b : List Byte} (h : text.bytes = a ++ b) :
    ∃ s t : CString, s.bytes = a ∧ t.bytes = b ∧ text = s.append t := by
  have hzero := text.noZero
  rw [h, List.mem_append, not_or] at hzero
  refine ⟨⟨a, hzero.1⟩, ⟨b, hzero.2⟩, rfl, rfl, ?_⟩
  cases text
  cases h
  rfl

/-- The end of the last row is seen at the end of the screen. -/
theorem cell_end (c : CgaText) {p : Printer} (hlow : 29 ≤ p.place.lastRow)
    (hhigh : p.place.lastRow ≤ 62) :
    (printEnd c p).frame.cell 2399 = p.frame.cell (80 * p.place.lastRow + 79) := by
  have hcell : (2399 + 80 * (p.place.lastRow - 29)) % cgaTextCells
      = 80 * p.place.lastRow + 79 := by
    rw [cgaTextCells_eq]
    omega
  rw [cell_printEnd c p hhigh (by decide), hcell, tidy_of_ne]
  unfold cgaTextWidth
  omega

/-- The row below it is blank. -/
theorem cell_below_end (c : CgaText) {p : Printer} (hlow : 30 ≤ p.place.lastRow)
    (hhigh : p.place.lastRow ≤ 62) : (printEnd c p).frame.cell 2479 = p.blank := by
  rw [cell_printEnd c p hhigh (by decide), tidy_below hlow]
  rw [cgaTextCells_eq]
  unfold cgaTextWidth
  omega

variable (fgColor bgColor) in
/-- **Run lemma.**  In one call the last row is never cleared, if it lies two rows below the row
that is counted. -/
theorem cell_one {ops : List TextOp} (hx : x < 80) (hy : y < 30)
    (hplain : ∀ op ∈ ops, op.IsPlain) (hreturns : (startPlace x y).Returns ops)
    (hrow : 31 ≤ ((startPlace x y).after ops).lastRow)
    (hlast : ((startPlace x y).after ops).lastRow ≤ 62)
    (hwide : 160 ≤ ((startPlace x y).after ops).x) (c : CgaText) :
    (printEnd c (ops.foldl Printer.exec (c.printer x y fgColor bgColor))).frame.cell 2399
      = c.frame.cell (80 * ((startPlace x y).after ops).lastRow + 79) := by
  have hplace := place_printer c x y fgColor bgColor
  have hend : (ops.foldl Printer.exec (c.printer x y fgColor bgColor)).place
      = (startPlace x y).after ops := by rw [place_foldl, hplace]
  have hlastRow : ((startPlace x y).after ops).lastRow
      = ((startPlace x y).after ops).y + ((startPlace x y).after ops).x / 80 := rfl
  rw [cell_end c (by rw [hend]; omega) (by rw [hend]; exact hlast), hend]
  rw [← hplace] at hreturns hlast hlastRow hwide ⊢
  exact cell_untouched (by rw [hplace]; exact points_start hx hy) hplain hreturns (Nat.le_refl _)
    hlast (Or.inl (by omega))

/-- **Run lemma.**  In two calls the first clears the row that the second comes to. -/
theorem cell_two {opsA opsB : List TextOp} (hplainA : ∀ op ∈ opsA, op.IsPlain)
    (hplainB : ∀ op ∈ opsB, op.IsPlain)
    (hreturns : ((startPlace x y).after opsA).Returns opsB)
    (hrow : 30 ≤ ((startPlace x y).after opsA).lastRow)
    (hlast : (((startPlace x y).after opsA).after opsB).lastRow
      = ((startPlace x y).after opsA).lastRow + 1)
    (hhigh : ((startPlace x y).after opsA).lastRow ≤ 62) (c : CgaText) {c₁ : CgaText}
    (hc₁ : c₁ = printEnd c (opsA.foldl Printer.exec (c.printer x y fgColor bgColor))) :
    (printEnd c₁ (opsB.foldl Printer.exec (c₁.printer (-1) (-1) fgColor bgColor))).frame.cell 2399
      = textAttributes fgColor bgColor ||| 0x20 := by
  have hend : (opsA.foldl Printer.exec (c.printer x y fgColor bgColor)).place
      = (startPlace x y).after opsA := by rw [place_foldl, place_printer]
  -- the first call
  have hblank : c₁.frame.cell 2479 = textAttributes fgColor bgColor ||| 0x20 := by
    rw [hc₁, cell_below_end c (by rw [hend]; exact hrow) (by rw [hend]; exact hhigh)]
    exact congrArg (· ||| 0x20) (attributes_foldl hplainA)
  have hcursor := cursor_printEnd_eq c
    (opsA.foldl Printer.exec (c.printer x y fgColor bgColor)) (by rw [hend]; exact hhigh)
  rw [← hc₁, hend] at hcursor
  generalize (startPlace x y).after opsA = q at hreturns hrow hlast hhigh hcursor hend
  have hcolumn : c₁.cursorX = q.x % 80 := hcursor.1.trans (congrArg (·.x % 80) hend)
  have hrow' : c₁.cursorY = 29 := by
    rw [hcursor.2]
    omega
  -- the second call, from the last row of the screen
  have hfolded : Place.Folded (q.lastRow - 29) (q.x / 80) q (startPlace c₁.cursorX c₁.cursorY) := by
    have hlastRow : q.lastRow = q.y + q.x / 80 := rfl
    constructor
    · change q.x = c₁.cursorX + _
      omega
    · change q.y + _ = c₁.cursorY + _
      omega
  obtain ⟨hreturns', hafter⟩ := hfolded.after hplainB hreturns
  have hsum := hafter.lastRow_eq
  have hrow30 : ((startPlace c₁.cursorX c₁.cursorY).after opsB).lastRow = 30 := by omega
  have hplace := place_printer_cursor c₁ fgColor bgColor
  have hend₂ : (opsB.foldl Printer.exec (c₁.printer (-1) (-1) fgColor bgColor)).place.lastRow
      = 30 := by rw [place_foldl, hplace, hrow30]
  rw [cell_end c₁ (by omega) (by omega), hend₂]
  rw [← hblank]
  refine cell_untouched (r := 30) ?_ hplainB ?_ ?_ (by decide) (Or.inr (Nat.le_refl 30))
  · rw [hplace]
    exact points_start (by omega) (by omega)
  · rw [hplace]
    exact hreturns'
  · rw [hplace]
    exact Nat.le_of_eq hrow30

/-- If the last row was not cleared when it was entered, the text in two parts leaves another
screen than in one. -/
theorem cleared_of_parts (hx : x < 80) (hy : y < 30) (hesc : (0x1b : Byte) ∉ text.bytes)
    (hreturns : (startPlace x y).Returns (text.bytes.map plain))
    (hlast : ((startPlace x y).after (text.bytes.map plain)).lastRow ≤ 62)
    (hparts : ∀ (c : CgaText) (a b : CString), text = a.append b →
      ∃ c' c₁ c₂, cgaTextPrint c x y fgColor bgColor (some text) = some c'
        ∧ cgaTextPrint c x y fgColor bgColor (some a) = some c₁
        ∧ cgaTextPrint c₁ (-1) (-1) fgColor bgColor (some b) = some c₂ ∧ c₂.SameScreen c') :
    ((startPlace x y).after (text.bytes.map plain)).Cleared := by
  intro hrow
  by_contra hwide
  -- the text up to the row above the last, and the rest
  obtain ⟨opsA, opsB, hops, hrowA⟩ := exists_row (plain_map text.bytes) hreturns
    (by rw [lastRow_start hx]; omega) (Nat.le_refl _)
  obtain ⟨bytesA, bytesB, hbytes, rfl, rfl⟩ := List.map_eq_append_iff.mp hops
  obtain ⟨a, b, rfl, rfl, rfl⟩ := exists_append hbytes
  have hescA : (0x1b : Byte) ∉ a.bytes := fun h => hesc (List.mem_append_left _ h)
  have hescB : (0x1b : Byte) ∉ b.bytes := fun h => hesc (List.mem_append_right _ h)
  -- a screen none of whose cells is blank
  let c : CgaText := ⟨⟨fun _ => (textAttributes fgColor bgColor ||| 0x20) + 1, []⟩, 0, 0⟩
  obtain ⟨c', c₁, c₂, hprint, hprint₁, hprint₂, hsame⟩ := hparts c a b rfl
  rw [print_eq hesc] at hprint
  rw [print_eq hescA] at hprint₁
  rw [print_eq hescB] at hprint₂
  have hone := cell_one fgColor bgColor hx hy (plain_map _) hreturns hrow hlast
    (Nat.not_lt.mp hwide) c
  rw [hops] at hreturns hlast hrowA hrow
  rw [after_append] at hlast hrowA hrow
  have htwo := cell_two (plain_map a.bytes) (plain_map b.bytes) (returns_append.mp hreturns).2
    (by omega) hrowA.symm (by omega) c (Option.some.inj hprint₁).symm
  have hseen := hsame.1 2399 (by decide)
  rw [← Option.some.inj hprint, ← Option.some.inj hprint₂, hone, htwo] at hseen
  have hne : ∀ w : BitVec 32, w ≠ w + 1 := by
    intro w heq
    have hnat := congrArg BitVec.toNat heq
    rw [BitVec.toNat_add] at hnat
    change w.toNat = (w.toNat + 1) % 2 ^ 32 at hnat
    omega
  exact hne _ hseen

/-! ## Section 4: When the cursor follows the text -/

/-- The variables of the loop after a part of the text. -/
theorem place_printLoop {a : List Byte} (hesc : (0x1b : Byte) ∉ a) {p : Printer}
    (h : printLoop a (c.printer x y fgColor bgColor) = some p) :
    p.place = (startPlace x y).after (a.map plain) := by
  rw [printLoop_plain hesc] at h
  cases h
  rw [place_foldl, place_printer]

/-- **Step lemma.**  A character more. -/
theorem printLoop_snoc {a b : List Byte} {d : Byte} {p p' : Printer}
    (htext : text.bytes = a ++ d :: b) (hesc : (0x1b : Byte) ∉ text.bytes)
    (h : printLoop a (c.printer x y fgColor bgColor) = some p)
    (h' : printLoop (a ++ [d]) (c.printer x y fgColor bgColor) = some p') :
    p' = p.exec (plain d) := by
  rw [htext, List.mem_append, List.mem_cons, not_or, not_or] at hesc
  have hsnoc : (0x1b : Byte) ∉ a ++ [d] := by
    rw [List.mem_append, List.mem_singleton, not_or]
    exact ⟨hesc.1, hesc.2.1⟩
  rw [printLoop_plain hesc.1] at h
  rw [printLoop_plain hsnoc, List.map_append, List.foldl_append] at h'
  cases h
  cases h'
  rfl

/-- From every place on the screen and for every text without escape sequences that stays in the
64 rows, the cursor follows the text exactly if every carriage return is met before the end of
the row and the text does not end two rows below the row that is counted.  Where the text goes
does not depend on the screen. -/
theorem followsText_iff {x y : ℕ} (hx : x < cgaTextWidth) (hy : y < cgaTextHeight)
    (fgColor bgColor : BitVec 32) {text : CString} (hesc : (0x1b : Byte) ∉ text.bytes)
    {c₀ : CgaText} (hstay : StaysOnScreen c₀ x y fgColor bgColor text) :
    FollowsText x y fgColor bgColor text
      ↔ (startPlace x y).Follows (text.bytes.map plain) := by
  have hfits := fitsAll_of_stays hesc hstay
  have hbound := bound_start hx hy
  have hstart := points_start hx hy
  have hplain := plain_map text.bytes
  -- where the whole text leads to
  have hwhole : ∀ ops, ops = text.bytes.map plain → (startPlace x y).Returns ops →
      ((startPlace x y).after ops).Points ∧ ((startPlace x y).after ops).lastRow ≤ 62 := by
    rintro ops rfl hreturns
    have hfits' : (startPlace x y).FitsAll (text.bytes.map plain ++ []) := by
      rw [List.append_nil]
      exact hfits
    have hpoints := points_after hbound hstart hplain hfits' hreturns
    exact ⟨hpoints, lastRow_le (bound_after hbound hplain hfits') hpoints (fitsAll_append hfits')⟩
  constructor
  · intro h
    -- the pointer tells that every carriage return is met in time
    have hreturns : (startPlace x y).Returns (text.bytes.map plain) := by
      refine returns_of_points hbound hplain hfits ?_
      intro opsA opsB hops
      obtain ⟨a, b, hbytes, rfl, rfl⟩ := List.map_eq_append_iff.mp hops
      have hescA : (0x1b : Byte) ∉ a := fun h => hesc (hbytes ▸ List.mem_append_left _ h)
      have hpointer := h.pointer c₀ a b _ hbytes (printLoop_plain hescA _)
      have hplace := place_printLoop hescA (printLoop_plain hescA (c₀.printer x y fgColor bgColor))
      rw [← hplace]
      refine hpointer.trans ?_
      change cgaTextWidth * (Printer.y _ + Printer.x _ / cgaTextWidth) + Printer.x _ % cgaTextWidth
        = 80 * Printer.y _ + Printer.x _
      unfold cgaTextWidth
      omega
    exact ⟨hreturns, cleared_of_parts hx hy hesc hreturns (hwhole _ rfl hreturns).2 h.parts⟩
  · intro h
    -- all that is asked for, each part at the place that the text before it has led to
    obtain ⟨hpointsEnd, hlast⟩ := hwhole _ rfl h.1
    constructor
    case pointer =>
      intro c a b p htext hp
      have hescA : (0x1b : Byte) ∉ a := fun h => hesc (htext ▸ List.mem_append_left _ h)
      have hplace := place_printLoop hescA hp
      have hops : text.bytes.map plain = a.map plain ++ b.map plain := by
        rw [htext, List.map_append]
      have hreturns := h.1
      rw [hops] at hfits hreturns
      have hpoints := points_after hbound hstart (plain_map a) hfits (returns_append.mp hreturns).1
      rw [← hplace] at hpoints
      -- the pointer stands at that place
      have hfb : p.fb.toNat = 80 * p.y + p.x := hpoints
      unfold cgaTextWidth
      omega
    case carriageReturn =>
      intro c a b p p' htext hp hp'
      have hescA : (0x1b : Byte) ∉ a := fun h => hesc (htext ▸ List.mem_append_left _ h)
      have hplace := place_printLoop hescA hp
      rw [htext, List.map_append] at hfits
      have hbound' := bound_after hbound (plain_map a) hfits
      rw [← hplace] at hbound'
      have hy := hbound'.y_le
      have hfb : p.fb.toNat ≤ 5120 + 80 * p.y := hbound'.fb_le
      have hy' : p.y ≤ 62 := hy
      cases printLoop_snoc htext hesc hp hp'
      refine ⟨?_, rfl⟩
      -- the row begins inside the address space, so that the pointer does not wrap
      have hsmall : p.fb.toNat < 2 ^ 29 := by omega
      refine (toNat_lineStart hsmall).trans ?_
      unfold cgaTextWidth
      omega
    case tab =>
      intro c a b p p' htext hp hp'
      have hescA : (0x1b : Byte) ∉ a := fun h => hesc (htext ▸ List.mem_append_left _ h)
      have hplace := place_printLoop hescA hp
      rw [htext, List.map_append] at hfits
      have hbound' := bound_after hbound (plain_map a) hfits
      rw [← hplace] at hbound'
      have hmove : (p.place.move .tab).fb.toNat = p.fb.toNat + tabSpaces p.x :=
        toNat_move hbound' trivial
      cases printLoop_snoc htext hesc hp hp'
      have hspaces : tabSpaces p.x = 8 - p.x % 8 := rfl
      constructor
      · change p.x + tabSpaces p.x = (p.x / 8 + 1) * 8
        omega
      · refine hmove.trans ?_
        change p.fb.toNat + tabSpaces p.x = p.fb.toNat + (p.x + tabSpaces p.x - p.x)
        omega
    case cursor =>
      intro c c' p hp hprint
      have hplace := place_printLoop hesc hp
      rw [← hplace] at hpointsEnd hlast
      have hrow := row_of_points rfl hpointsEnd
      have hfb : p.fb.toNat = 80 * p.y + p.x := hpointsEnd
      obtain ⟨hcolumn, hrow'⟩ := cursor_printEnd_eq c p hlast
      rw [cgaTextPrint] at hprint
      simp only [hp, Option.map_some, Option.some.injEq] at hprint
      rw [← hprint, hcolumn, hrow']
      have hrow'' : p.fb.toNat / 80 = p.place.lastRow := hrow
      unfold cgaTextWidth cgaTextHeight
      omega
    case parts =>
      intro c a b htext
      exact parts_of_follows hx hy hesc h hlast c htext

/-- A line end in the last row of the screen, and then tabs and a letter over the end of a row. -/
def lineEndAndTabs : CString := ⟨[0x61, 0x0d, 0x0a] ++ List.replicate 10 0x09 ++ [0x62], by decide⟩

theorem followsText_lineEndAndTabs : FollowsText 78 29 15 0 lineEndAndTabs := by
  have hstay : StaysOnScreen ⟨⟨fun _ => 0, []⟩, 0, 0⟩ (78 : ℕ) (29 : ℕ) 15 0 lineEndAndTabs := by
    refine (staysOnScreen_iff _ _ _ _ _ _).mpr ⟨_, textOps_plain (by decide), ?_⟩
    rw [place_printer]
    decide +kernel
  exact (followsText_iff (by decide) (by decide) 15 0 (by decide) hstay).mpr (by decide +kernel)

/-- A letter in the last column and a carriage return. -/
def wrapReturn : CString := ⟨[0x61, 0x0d], by decide⟩

/-- The text stays on the screen, and the carriage return leads the pointer to the second row
while the first one is counted. -/
theorem not_followsText_wrapReturn :
    (∀ c, StaysOnScreen c (79 : ℕ) (0 : ℕ) 15 0 wrapReturn)
      ∧ ¬ FollowsText 79 0 15 0 wrapReturn := by
  constructor
  · intro c
    refine (staysOnScreen_iff _ _ _ _ _ _).mpr ⟨_, textOps_plain (by decide), ?_⟩
    rw [place_printer]
    refine ⟨?_, trivial, ?_⟩
    · change _ + _ ≤ _
      decide
    · intro hlast
      exact absurd hlast (by decide)
  · intro h
    have hpointer := h.pointer ⟨⟨fun _ => 0, []⟩, 0, 0⟩ [0x61, 0x0d] [] _ rfl
      (printLoop_plain (by decide) _)
    exact absurd hpointer (by decide)

end Karnix.Video
