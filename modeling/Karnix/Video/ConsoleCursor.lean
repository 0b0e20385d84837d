import Karnix.Video.ConsoleCells

/-!
# The pointer and the coordinates of the text console

`cga_text_print` moves a pointer through the framebuffer and counts a column and a row beside it.
Columns past the end of a row are counted on, and folded into rows at the end.  Here it is said
for texts without escape sequences when both are the same place.
-/

namespace Karnix.Video

open Karnix.Library

/-! ## Section 1: Texts without escape sequences -/

/-- A character, a line feed, a carriage return or a tab. -/
def TextOp.IsPlain : TextOp → Prop
  | .shown _ | .lineFeed | .carriageReturn | .tab => True
  | _ => False

theorem isPlain_plain (c : Byte) : (plain c).IsPlain := by
  unfold plain
  split_ifs <;> trivial

/-- Such a text is executed character by character. -/
theorem textOps_plain {text : List Byte} (h : (0x1b : Byte) ∉ text) :
    textOps text = some (text.map plain) := by
  induction text with
  | nil =>
    rw [textOps]
    rfl
  | cons c text ih =>
    rw [List.mem_cons, not_or] at h
    rw [textOps, if_neg (Ne.symm h.1), ih h.2]
    rfl

theorem printLoop_plain {text : List Byte} (h : (0x1b : Byte) ∉ text) (p : Printer) :
    printLoop text p = some ((text.map plain).foldl Printer.exec p) := by
  rw [printLoop_eq, textOps_plain h]
  rfl

/-! ## Section 2: Moves -/

/-- The place after some operations. -/
def Place.after (q : Place) (ops : List TextOp) : Place := ops.foldl Place.move q

theorem place_foldl (ops : List TextOp) (p : Printer) :
    (ops.foldl Printer.exec p).place = p.place.after ops := by
  induction ops generalizing p with
  | nil => rfl
  | cons op ops ih =>
    rw [List.foldl_cons, ih, place_exec, Place.after, Place.after, List.foldl_cons]

/-- What is known of a place as long as only the screen is written. -/
structure Place.Bound (q : Place) : Prop where
  y_le : q.y ≤ 62
  fb_le : q.fb.toNat ≤ 5120 + 80 * q.y

/-- The pointer and the coordinates are the same place. -/
def Place.Points (q : Place) : Prop := q.fb.toNat = 80 * q.y + q.x

/-- The cell behind `pos` from which an operation goes on, in column `x`. -/
def TextOp.next (x pos : ℕ) : TextOp → ℕ
  | .shown _ => pos + 1
  | .lineFeed => pos + 80
  | .carriageReturn => pos - pos % 80
  | .tab => pos + tabSpaces x
  | _ => pos

variable {q : Place} {op : TextOp} {ops : List TextOp}

theorem toNat_lineStart {fb : WordPtr} (h : fb.toNat < 2 ^ 29) :
    (lineStart fb).toNat = fb.toNat - fb.toNat % 80 := by
  have hint : fb.toInt = (fb.toNat : ℤ) := BitVec.toInt_eq_toNat_of_lt (by omega)
  have hcolumn : (fb.toNat : ℤ).tmod cgaTextWidth = ((fb.toNat % 80 : ℕ) : ℤ) := by
    rw [Int.tmod_eq_emod_of_nonneg (Int.natCast_nonneg _)]
    rfl
  rw [lineStart, hint, hcolumn, BitVec.ofInt_natCast, BitVec.toNat_sub, BitVec.toNat_ofNat]
  omega

theorem tabSpaces_bounds (x : ℕ) : 0 < tabSpaces x ∧ tabSpaces x ≤ 8 := by
  unfold tabSpaces
  omega

/-- Where the pointer is moved to. -/
theorem toNat_move (h : q.Bound) (hop : op.IsPlain) :
    (q.move op).fb.toNat = op.next q.x q.fb.toNat := by
  have hy := h.y_le
  have hfb := h.fb_le
  have hspaces := tabSpaces_bounds q.x
  cases op with
  | shown c =>
    change (q.fb + 1).toNat = _
    rw [BitVec.toNat_add]
    change (q.fb.toNat + 1) % 2 ^ 30 = q.fb.toNat + 1
    omega
  | lineFeed =>
    change (q.fb + BitVec.ofNat 30 80).toNat = q.fb.toNat + 80
    rw [BitVec.toNat_add, BitVec.toNat_ofNat]
    omega
  | carriageReturn => exact toNat_lineStart (by omega)
  | tab =>
    change (q.fb + BitVec.ofNat 30 (tabSpaces q.x)).toNat = q.fb.toNat + tabSpaces q.x
    rw [BitVec.toNat_add, BitVec.toNat_ofNat]
    omega
  | eraseLine | eraseScreen | home | color | motion => exact absurd hop id

/-- A cleared row on the screen leaves one more row before the end. -/
theorem fit_rowBelow {y : ℕ} (hy : y ≤ 200) : Fit (rowBelow y) cgaTextWidth ↔ y ≤ 62 := by
  unfold Fit rowBelow cgaTextWidth cgaTextHeightTotal
  rw [BitVec.toNat_ofNat, Nat.mod_eq_of_lt (by omega)]
  omega

/-- **Step lemma.**  Writes on the screen keep the bound. -/
theorem bound_move (h : q.Bound) (hop : op.IsPlain) (hfits : q.Fits op) : (q.move op).Bound := by
  have hy := h.y_le
  have hfb := h.fb_le
  have hmove := toNat_move h hop
  cases op with
  | shown c =>
    refine ⟨hy, ?_⟩
    have hfit : q.fb.toNat + 1 ≤ 5120 := hfits
    rw [hmove]
    change q.fb.toNat + 1 ≤ 5120 + 80 * q.y
    omega
  | lineFeed =>
    have hrow : q.y + 1 ≤ 62 := by
      by_cases hlast : cgaTextHeight ≤ q.y + 1
      · exact (fit_rowBelow (by omega)).mp (hfits hlast)
      · unfold cgaTextHeight at hlast
        omega
    refine ⟨hrow, ?_⟩
    rw [hmove]
    change q.fb.toNat + 80 ≤ 5120 + 80 * (q.y + 1)
    omega
  | carriageReturn =>
    refine ⟨hy, ?_⟩
    rw [hmove]
    change q.fb.toNat - q.fb.toNat % 80 ≤ 5120 + 80 * q.y
    omega
  | tab =>
    refine ⟨hy, ?_⟩
    have hfit : q.fb.toNat + tabSpaces q.x ≤ 5120 := hfits
    rw [hmove]
    change q.fb.toNat + tabSpaces q.x ≤ 5120 + 80 * q.y
    omega
  | eraseLine | eraseScreen | home | color | motion => exact absurd hop id

/-- **Step lemma.**  The pointer and the coordinates stay together exactly if a carriage return
is met before the end of the row. -/
theorem points_move (h : q.Bound) (hop : op.IsPlain) (hpoints : q.Points) :
    (q.move op).Points ↔ (op = .carriageReturn → q.x < cgaTextWidth) := by
  have hmove := toNat_move h hop
  unfold Place.Points at hpoints ⊢
  rw [hmove]
  cases op with
  | shown c =>
    refine iff_of_true ?_ fun hcr => ?_
    · change q.fb.toNat + 1 = 80 * q.y + (q.x + 1)
      omega
    · cases hcr
  | lineFeed =>
    refine iff_of_true ?_ fun hcr => ?_
    · change q.fb.toNat + 80 = 80 * (q.y + 1) + q.x
      omega
    · cases hcr
  | carriageReturn =>
    change q.fb.toNat - q.fb.toNat % 80 = 80 * q.y + 0 ↔ (_ → q.x < 80)
    constructor
    · intro heq _
      omega
    · intro hx
      have hx := hx rfl
      omega
  | tab =>
    refine iff_of_true ?_ fun hcr => ?_
    · change q.fb.toNat + tabSpaces q.x = 80 * q.y + (q.x + tabSpaces q.x)
      omega
    · cases hcr
  | eraseLine | eraseScreen | home | color | motion => exact absurd hop id

/-! ## Section 3: Runs -/

/-- Every carriage return is met before the end of the row, counted from the last one on. -/
def Place.Returns : Place → List TextOp → Prop
  | _, [] => True
  | q, op :: ops => (op = .carriageReturn → q.x < cgaTextWidth) ∧ (q.move op).Returns ops

instance Place.decidableReturns : (q : Place) → (ops : List TextOp) → Decidable (q.Returns ops)
  | _, [] => .isTrue trivial
  | q, op :: ops =>
    have := Place.decidableReturns (q.move op) ops
    inferInstanceAs (Decidable (_ ∧ _))

theorem after_append (q : Place) (a b : List TextOp) :
    q.after (a ++ b) = (q.after a).after b := List.foldl_append ..

theorem returns_append {a b : List TextOp} :
    q.Returns (a ++ b) ↔ q.Returns a ∧ (q.after a).Returns b := by
  induction a generalizing q with
  | nil => exact ⟨fun h => ⟨trivial, h⟩, fun h => h.2⟩
  | cons op a ih =>
    rw [List.cons_append, Place.Returns, Place.Returns, ih, and_assoc]
    rfl

theorem fitsAll_append {a b : List TextOp} (h : q.FitsAll (a ++ b)) : (q.after a).FitsAll b := by
  induction a generalizing q with
  | nil => exact h
  | cons op a ih => exact ih h.2

/-- **Run lemma.**  Writes on the screen keep the bound. -/
theorem bound_after {a b : List TextOp} (h : q.Bound) (hplain : ∀ op ∈ a, op.IsPlain)
    (hfits : q.FitsAll (a ++ b)) : (q.after a).Bound := by
  induction a generalizing q with
  | nil => exact h
  | cons op a ih =>
    rw [List.forall_mem_cons] at hplain
    exact ih (bound_move h hplain.1 hfits.1) hplain.2 hfits.2

/-- **Run lemma.**  The pointer and the coordinates stay together. -/
theorem points_after {a b : List TextOp} (h : q.Bound) (hpoints : q.Points)
    (hplain : ∀ op ∈ a, op.IsPlain) (hfits : q.FitsAll (a ++ b)) (hreturns : q.Returns a) :
    (q.after a).Points := by
  induction a generalizing q with
  | nil => exact hpoints
  | cons op a ih =>
    rw [List.forall_mem_cons] at hplain
    exact ih (bound_move h hplain.1 hfits.1) ((points_move h hplain.1 hpoints).mpr hreturns.1)
      hplain.2 hfits.2 hreturns.2

/-- **Run lemma.**  They do not, if a carriage return is met behind the end of the row. -/
theorem returns_of_points (h : q.Bound) (hplain : ∀ op ∈ ops, op.IsPlain)
    (hfits : q.FitsAll ops) (hpoints : ∀ a b, ops = a ++ b → (q.after a).Points) :
    q.Returns ops := by
  induction ops generalizing q with
  | nil => trivial
  | cons op ops ih =>
    rw [List.forall_mem_cons] at hplain
    have hhere : q.Points := hpoints [] (op :: ops) rfl
    have hnext : (q.move op).Points := hpoints [op] ops rfl
    refine ⟨(points_move h hplain.1 hhere).mp hnext, ?_⟩
    refine ih (bound_move h hplain.1 hfits.1) hplain.2 hfits.2 ?_
    rintro a b rfl
    exact hpoints (op :: a) b rfl

/-! ### Rows -/

/-- **Step lemma.**  The row of the cursor stays or goes on by one. -/
theorem lastRow_move (hop : op.IsPlain) (hreturns : op = .carriageReturn → q.x < cgaTextWidth) :
    q.lastRow ≤ (q.move op).lastRow ∧ (q.move op).lastRow ≤ q.lastRow + 1 := by
  unfold Place.lastRow cgaTextWidth
  cases op with
  | shown c =>
    change q.y + q.x / 80 ≤ q.y + (q.x + 1) / 80 ∧ q.y + (q.x + 1) / 80 ≤ _
    omega
  | lineFeed =>
    change q.y + q.x / 80 ≤ q.y + 1 + q.x / 80 ∧ q.y + 1 + q.x / 80 ≤ _
    omega
  | carriageReturn =>
    have hx : q.x < 80 := hreturns rfl
    change q.y + q.x / 80 ≤ q.y + 0 / 80 ∧ q.y + 0 / 80 ≤ _
    omega
  | tab =>
    have hspaces := tabSpaces_bounds q.x
    change q.y + q.x / 80 ≤ q.y + (q.x + tabSpaces q.x) / 80
      ∧ q.y + (q.x + tabSpaces q.x) / 80 ≤ _
    omega
  | eraseLine | eraseScreen | home | color | motion => exact absurd hop id

theorem lastRow_le_after (hplain : ∀ op ∈ ops, op.IsPlain) (hreturns : q.Returns ops) :
    q.lastRow ≤ (q.after ops).lastRow := by
  induction ops generalizing q with
  | nil => exact Nat.le_refl _
  | cons op ops ih =>
    rw [List.forall_mem_cons] at hplain
    exact Nat.le_trans (lastRow_move hplain.1 hreturns.1).1 (ih hplain.2 hreturns.2)

/-- The last row is on the screen. -/
theorem lastRow_le (h : q.Bound) (hpoints : q.Points) (hfits : q.FitsAll []) :
    q.lastRow ≤ 62 := by
  have hy := h.y_le
  have hfb := h.fb_le
  unfold Place.Points at hpoints
  by_cases hlast : cgaTextHeight ≤ q.lastRow
  · refine (fit_rowBelow ?_).mp (hfits hlast)
    unfold Place.lastRow cgaTextWidth
    omega
  · unfold cgaTextHeight at hlast
    omega

/-- Every row is reached from the row above it. -/
theorem exists_row {r : ℕ} (hplain : ∀ op ∈ ops, op.IsPlain) (hreturns : q.Returns ops)
    (hlow : q.lastRow < r) (hhigh : r ≤ (q.after ops).lastRow) :
    ∃ a b, ops = a ++ b ∧ (q.after a).lastRow + 1 = r := by
  induction ops generalizing q with
  | nil => exact absurd hlow (Nat.not_lt.mpr hhigh)
  | cons op ops ih =>
    rw [List.forall_mem_cons] at hplain
    by_cases hnext : (q.move op).lastRow < r
    · obtain ⟨a, b, rfl, hrow⟩ := ih hplain.2 hreturns.2 hnext hhigh
      exact ⟨op :: a, b, rfl, hrow⟩
    · have hstep := (lastRow_move hplain.1 hreturns.1).2
      refine ⟨[], op :: ops, rfl, ?_⟩
      change q.lastRow + 1 = r
      omega

/-! ### Columns -/

/-- A row from the second below the screen on was entered at most one row below the row that is
counted, so that it was cleared. -/
def Place.Cleared (q : Place) : Prop := 31 ≤ q.lastRow → q.x < 160

instance (q : Place) : Decidable q.Cleared := inferInstanceAs (Decidable (_ → _))

theorem x_move (hop : op.IsPlain) (hne : op ≠ .carriageReturn) : q.x ≤ (q.move op).x := by
  cases op with
  | shown c => exact Nat.le_succ q.x
  | lineFeed => exact Nat.le_refl q.x
  | carriageReturn => exact absurd rfl hne
  | tab => exact Nat.le_add_right q.x _
  | eraseLine | eraseScreen | home | color | motion => exact absurd hop id

/-- Behind the end of a row columns are only counted on. -/
theorem x_le_after (hplain : ∀ op ∈ ops, op.IsPlain) (hreturns : q.Returns ops)
    (hx : cgaTextWidth ≤ q.x) : q.x ≤ (q.after ops).x := by
  induction ops generalizing q with
  | nil => exact Nat.le_refl _
  | cons op ops ih =>
    rw [List.forall_mem_cons] at hplain
    have hne : op ≠ .carriageReturn := fun heq => absurd (hreturns.1 heq) (Nat.not_lt.mpr hx)
    have hmove := x_move (q := q) hplain.1 hne
    exact Nat.le_trans hmove (ih hplain.2 hreturns.2 (Nat.le_trans hx hmove))

/-- What is not cleared stays so to the end. -/
theorem cleared_of_after (hplain : ∀ op ∈ ops, op.IsPlain) (hreturns : q.Returns ops)
    (h : (q.after ops).Cleared) : q.Cleared := by
  intro hrow
  by_contra hx
  have hwide : 160 ≤ q.x := Nat.not_lt.mp hx
  have hend := h (Nat.le_trans hrow (lastRow_le_after hplain hreturns))
  have hle := x_le_after hplain hreturns (Nat.le_trans (by decide) hwide)
  omega

/-- The carriage returns are met in time, and the last row was cleared. -/
def Place.Follows (q : Place) (ops : List TextOp) : Prop :=
  q.Returns ops ∧ (q.after ops).Cleared

instance (q : Place) (ops : List TextOp) : Decidable (q.Follows ops) :=
  inferInstanceAs (Decidable (_ ∧ _))

theorem follows_cons (hplain : ∀ o ∈ op :: ops, o.IsPlain) (h : q.Follows (op :: ops)) :
    (op = .carriageReturn → q.x < cgaTextWidth) ∧ (q.move op).Cleared
      ∧ (q.move op).Follows ops := by
  rw [List.forall_mem_cons] at hplain
  exact ⟨h.1.1, cleared_of_after hplain.2 h.1.2 h.2, h.1.2, h.2⟩

/-! ### Starting again -/

/-- The place `q'` is `q` after its columns were folded into rows and the text was scrolled by
`s` rows. -/
def Place.Folded (s k : ℕ) (q q' : Place) : Prop := q.x = q'.x + 80 * k ∧ q.y + k = q'.y + s

variable {s k : ℕ} {q' : Place}

theorem Place.Folded.lastRow_eq (h : Place.Folded s k q q') : q.lastRow = q'.lastRow + s := by
  obtain ⟨hx, hy⟩ := h
  unfold Place.lastRow cgaTextWidth
  omega

/-- **Step lemma.**  An operation moves both places alike. -/
theorem Place.Folded.move (h : Place.Folded s k q q') (hop : op.IsPlain)
    (hreturns : op = .carriageReturn → q.x < cgaTextWidth) :
    Place.Folded s k (q.move op) (q'.move op) := by
  obtain ⟨hx, hy⟩ := h
  cases op with
  | shown c =>
    refine ⟨?_, hy⟩
    change q.x + 1 = q'.x + 1 + 80 * k
    omega
  | lineFeed =>
    refine ⟨hx, ?_⟩
    change q.y + 1 + k = q'.y + 1 + s
    omega
  | carriageReturn =>
    -- a carriage return is met in the row that is counted
    have hlt : q.x < 80 := hreturns rfl
    have hk : k = 0 := by omega
    subst hk
    exact ⟨rfl, hy⟩
  | tab =>
    refine ⟨?_, hy⟩
    change q.x + tabSpaces q.x = q'.x + tabSpaces q'.x + 80 * k
    unfold tabSpaces
    omega
  | eraseLine | eraseScreen | home | color | motion => exact absurd hop id

/-- **Run lemma.**  So does a text. -/
theorem Place.Folded.after (h : Place.Folded s k q q') (hplain : ∀ op ∈ ops, op.IsPlain)
    (hreturns : q.Returns ops) :
    q'.Returns ops ∧ Place.Folded s k (q.after ops) (q'.after ops) := by
  induction ops generalizing q q' with
  | nil => exact ⟨trivial, h⟩
  | cons op ops ih =>
    rw [List.forall_mem_cons] at hplain
    obtain ⟨hreturns', hafter⟩ := ih (h.move hplain.1 hreturns.1) hplain.2 hreturns.2
    refine ⟨⟨?_, hreturns'⟩, hafter⟩
    intro heq
    have hx := hreturns.1 heq
    have hle := h.1
    omega

/-- A text that goes on from the folded place is good as it was. -/
theorem Place.Folded.follows (h : Place.Folded s k q q') (hplain : ∀ op ∈ ops, op.IsPlain)
    (hfollows : q.Follows ops) : q'.Follows ops := by
  obtain ⟨hreturns, hafter⟩ := h.after hplain hfollows.1
  refine ⟨hreturns, ?_⟩
  intro hrow
  have hrow' : 31 ≤ (q.after ops).lastRow := by
    rw [hafter.lastRow_eq]
    exact Nat.le_trans hrow (Nat.le_add_right _ s)
  have hwide := hfollows.2 hrow'
  have hx := hafter.1
  omega

end Karnix.Video
