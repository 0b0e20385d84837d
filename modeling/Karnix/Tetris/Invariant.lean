import Mathlib.Algebra.BigOperators.Group.Finset.Piecewise
import Mathlib.Algebra.Order.Ring.Int
import Karnix.Tetris.Game

/-!
# The invariant of the game

Every piece in play lies inside the arena on free cells, locking it sets exactly its four cells,
and the arena holds four cells for each locked piece less ten for each cleared line.
-/

namespace Karnix.Tetris

open Karnix.Library

/-! ## Section 1: Counting cells -/

/-- The occupied cells of a line. -/
def lineCount (a : Arena) (y : ℕ) : ℕ :=
  ((Finset.range arenaWidth).filter fun x : ℕ => a y x ≠ 0).card

/-- The occupied cells of the arena. -/
def occupied (a : Arena) : ℕ := ∑ y ∈ Finset.range arenaHeight, lineCount a y

/-- A cell, as column and row, of the arena. -/
def Inside (c : ℤ × ℤ) : Prop :=
  (0 ≤ c.1 ∧ c.1 < arenaWidth) ∧ 0 ≤ c.2 ∧ c.2 < arenaHeight

instance (c : ℤ × ℤ) : Decidable (Inside c) := by
  unfold Inside
  infer_instance

/-- Every cell is empty or occupied. -/
def Clean (a : Arena) : Prop := ∀ c, Inside c → a c.2 c.1 = 0 ∨ a c.2 c.1 = 1

theorem lineCount_congr {a a' : Arena} {y y' : ℕ}
    (h : ∀ x : ℕ, x < arenaWidth → a y x = a' y' x) : lineCount a y = lineCount a' y' := by
  unfold lineCount
  congr 1
  exact Finset.filter_congr fun x hx => by rw [h x (Finset.mem_range.mp hx)]

theorem lineCount_full {a : Arena} {y : ℕ} (h : lineFull a y = true) :
    lineCount a y = arenaWidth := by
  have hall := lineFull_iff.mp h
  unfold lineCount
  rw [Finset.filter_true_of_mem fun x hx => hall x (Finset.mem_range.mp hx), Finset.card_range]

theorem lineCount_set {a : Arena} {c : ℤ × ℤ} (hc : Inside c) (hfree : a c.2 c.1 = 0) (y : ℕ) :
    lineCount (a.set c.2 c.1 1) y = lineCount a y + if y = c.2.toNat then 1 else 0 := by
  obtain ⟨⟨x₀, y₀⟩, rfl⟩ : ∃ p : ℕ × ℕ, ((p.1 : ℤ), (p.2 : ℤ)) = c :=
    ⟨(c.1.toNat, c.2.toNat), Prod.ext (Int.toNat_of_nonneg hc.1.1) (Int.toNat_of_nonneg hc.2.1)⟩
  simp only [Int.toNat_natCast] at hfree ⊢
  by_cases hy : y = y₀
  · subst hy
    rw [if_pos rfl]
    have hx₀ : x₀ ∈ Finset.range arenaWidth :=
      Finset.mem_range.mpr (Int.ofNat_lt.mp hc.1.2)
    -- the one cell that is new
    have hinsert : ((Finset.range arenaWidth).filter fun x : ℕ => a.set y x₀ 1 y x ≠ 0) =
        insert x₀ ((Finset.range arenaWidth).filter fun x : ℕ => a y x ≠ 0) := by
      ext x
      simp only [Finset.mem_filter, Finset.mem_insert, Arena.set]
      by_cases hx : x = x₀
      · subst hx
        simpa using hx₀
      · simp [hx]
    unfold lineCount
    rw [hinsert, Finset.card_insert_of_notMem]
    simp [hfree]
  · rw [if_neg hy, Nat.add_zero]
    refine lineCount_congr fun x _ => if_neg fun h => hy ?_
    exact_mod_cast h.1

/-- A free cell that is set. -/
theorem occupied_set {a : Arena} {c : ℤ × ℤ} (hc : Inside c) (hfree : a c.2 c.1 = 0) :
    occupied (a.set c.2 c.1 1) = occupied a + 1 := by
  have hrow : c.2.toNat ∈ Finset.range arenaHeight := Finset.mem_range.mpr (by
    have := hc.2
    omega)
  unfold occupied
  rw [Finset.sum_congr rfl fun y _ => lineCount_set hc hfree y, Finset.sum_add_distrib,
    Finset.sum_ite_eq', if_pos hrow]

/-- Removing line `y` from a sum over lines: those above move down and an empty one appears. -/
theorem sum_remove (f f' : ℕ → ℕ) {y : ℕ} (hzero : f' 0 = 0) (hdown : ∀ k < y, f' (k + 1) = f k)
    (hbelow : ∀ k, y < k → f' k = f k) {n : ℕ} (hn : y < n) :
    ∑ k ∈ Finset.range n, f' k + f y = ∑ k ∈ Finset.range n, f k := by
  induction n, hn using Nat.le_induction with
  | base =>
    rw [Finset.sum_range_succ', hzero, Nat.add_zero, Finset.sum_range_succ f,
      Finset.sum_congr rfl fun k hk => hdown k (Finset.mem_range.mp hk)]
  | succ n hn ih =>
    rw [Finset.sum_range_succ, Finset.sum_range_succ, ← ih, hbelow n hn]
    omega

theorem occupied_clearLine {a : Arena} {y : ℕ} (hy : y < arenaHeight) (h : lineFull a y = true) :
    occupied (clearLine a y) + arenaWidth = occupied a := by
  rw [← lineCount_full h]
  refine sum_remove (lineCount a) (lineCount (clearLine a y)) ?_ (fun k hk => ?_)
    (fun k hk => ?_) hy
  · unfold lineCount
    rw [Finset.card_eq_zero, Finset.filter_eq_empty_iff]
    exact fun x hx hne => hne (clearLine_zero a y (Finset.mem_range.mp hx))
  · exact lineCount_congr fun x hx => clearLine_succ a hk hx
  · exact lineCount_congr fun x _ => clearLine_below a hk x

theorem Clean.clearLine {a : Arena} (h : Clean a) (y : ℕ) : Clean (clearLine a y) := by
  intro c hc
  rw [clearLine_eq]
  beta_reduce
  rw [if_pos hc.1]
  split_ifs with htop hlow
  · exact Or.inl rfl
  · refine h (c.1, c.2 - 1) ⟨hc.1, ?_⟩
    have := hc.2
    constructor <;> simp only <;> omega
  · exact h c hc

/-- Every line that `checkLines` clears takes a full line of cells away. -/
theorem checkLinesLoop_spec (a : Arena) (cleared : ℕ) {n : ℕ} (hn : n ≤ arenaHeight)
    (hclean : Clean a) :
    Clean (checkLinesLoop a cleared n).1 ∧
      occupied (checkLinesLoop a cleared n).1 + arenaWidth * (checkLinesLoop a cleared n).2 =
        occupied a + arenaWidth * cleared := by
  fun_induction checkLinesLoop a cleared n with
  | case1 a cleared => exact ⟨hclean, rfl⟩
  | case2 a cleared y hfull ih =>
    obtain ⟨hclean', hcount⟩ := ih hn (hclean.clearLine y)
    have hline := occupied_clearLine (Nat.lt_of_succ_le hn) hfull
    refine ⟨hclean', ?_⟩
    rw [hcount, ← hline, Nat.mul_succ]
    omega
  | case3 a cleared y hnot ih => exact ih (Nat.le_of_succ_le hn) hclean

/-! ## Section 2: The cells of the piece -/

/-- The cells of a turned tetromino in its box. -/
def shape (tetromino : Fin 7) (rotation : ℕ) : List (ℕ × ℕ) :=
  Game.box.filter fun p => filled tetromino rotation p.1 p.2

/-- The cells a tetromino covers in the arena. -/
def cellsAt (tetromino : Fin 7) (rotation : ℕ) (posX posY : ℤ) : List (ℤ × ℤ) :=
  (shape tetromino rotation).map fun p => (p.1 + posX, p.2 + posY)

/-- The cells of the current piece. -/
def Game.cells (g : Game) : List (ℤ × ℤ) :=
  cellsAt g.currTetrominoIdx g.currRotation g.currX g.currY

theorem filled_mod (tetromino : Fin 7) (rotation x y : ℕ) :
    filled tetromino rotation x y = filled tetromino (rotation % 4) x y := by
  unfold filled rotate
  rw [Nat.mod_mod]

theorem mem_box {p : ℕ × ℕ} : p ∈ Game.box ↔ p.1 < tetrominoWidth ∧ p.2 < tetrominoHeight := by
  obtain ⟨x, y⟩ := p
  simp [Game.box, and_comm]

theorem nodup_cellsAt (tetromino : Fin 7) (rotation : ℕ) (posX posY : ℤ) :
    (cellsAt tetromino rotation posX posY).Nodup := by
  have hbox : Game.box.Nodup := by decide
  refine (hbox.filter _).map fun p q hpq => ?_
  simp only [Prod.mk.injEq] at hpq
  exact Prod.ext (by omega) (by omega)

/-- Seven shapes in four rotations, all of four cells. -/
theorem length_shape (tetromino : Fin 7) (rotation : ℕ) :
    (shape tetromino rotation).length = 4 := by
  have hall : ∀ t : Fin 7, ∀ r : Fin 4, (shape t r.val).length = 4 := by decide
  have hmod : shape tetromino rotation = shape tetromino (rotation % 4) :=
    List.filter_congr fun p _ => filled_mod tetromino rotation p.1 p.2
  rw [hmod]
  exact hall tetromino ⟨rotation % 4, Nat.mod_lt _ (by decide)⟩

theorem length_cells (g : Game) : g.cells.length = 4 := by
  unfold Game.cells cellsAt
  rw [List.length_map, length_shape]

/-- `validPos` by cells: inside the arena, or above it, and not on one that is taken. -/
theorem validPos_iff {a : Arena} {tetromino : Fin 7} {rotation : ℕ} {posX posY : ℤ} :
    validPos a tetromino rotation posX posY = true ↔
      ∀ c ∈ cellsAt tetromino rotation posX posY,
        (0 ≤ c.1 ∧ c.1 < arenaWidth) ∧ c.2 < arenaHeight ∧ ¬ (0 ≤ c.2 ∧ a c.2 c.1 = 1) := by
  have hcell : ∀ x y : ℕ, validCell a tetromino rotation posX posY x y = true ↔
      (filled tetromino rotation x y = true →
        (0 ≤ x + posX ∧ x + posX < arenaWidth) ∧ y + posY < arenaHeight ∧
          ¬ (0 ≤ y + posY ∧ a (y + posY) (x + posX) = 1)) := by
    intro x y
    unfold validCell
    by_cases hfilled : filled tetromino rotation x y = true
    · rw [if_pos hfilled]
      simp only [hfilled, forall_const]
      split_ifs with hrange
      · refine iff_of_false not_false fun h => ?_
        omega
      · have hin : (0 ≤ x + posX ∧ x + posX < arenaWidth) ∧ y + posY < arenaHeight := by omega
        simp [hin, imp_iff_not_or, not_le]
    · rw [if_neg hfilled]
      exact iff_of_true rfl fun h => absurd h hfilled
  simp only [validPos, cellsAt, shape, List.all_eq_true, List.mem_range, List.mem_map,
    List.mem_filter, mem_box, hcell]
  constructor
  · rintro h _ ⟨⟨x, y⟩, ⟨⟨hx, hy⟩, hfilled⟩, rfl⟩
    exact h x hx y hy hfilled
  · intro h x hx y hy hfilled
    exact h _ ⟨(x, y), ⟨⟨hx, hy⟩, hfilled⟩, rfl⟩

/-- The piece lies inside the arena, on free cells. -/
def Game.Placed (g : Game) : Prop := ∀ c ∈ g.cells, Inside c ∧ g.arena c.2 c.1 = 0

/-- A piece that is valid, and not above the arena, is placed. -/
theorem placed_of_fits {g : Game} (hclean : Clean g.arena) (hy : 0 ≤ g.currY)
    (h : g.fits g.currRotation g.currX g.currY = true) : g.Placed := by
  intro c hc
  obtain ⟨hcol, hrow, hfree⟩ := validPos_iff.mp h c hc
  have hinside : Inside c := by
    refine ⟨hcol, ?_, hrow⟩
    obtain ⟨p, -, rfl⟩ := List.mem_map.mp hc
    simp only
    omega
  refine ⟨hinside, (hclean c hinside).resolve_right fun hone => hfree ⟨hinside.2.1, hone⟩⟩

/-! ## Section 3: Locking a piece -/

/-- `addToArena` sets the cells of the piece that lie in the arena. -/
theorem addToArena_arena (g : Game) :
    g.addToArena.arena =
      g.cells.foldl (fun a c => if Inside c then a.set c.2 c.1 1 else a) g.arena := by
  have hcell : ∀ (a : Arena) (p : ℕ × ℕ), g.addCell a p =
      if filled g.currTetrominoIdx g.currRotation p.1 p.2 = true then
        if Inside (p.1 + g.currX, p.2 + g.currY) then
          a.set (p.2 + g.currY) (p.1 + g.currX) 1 else a
      else a := by
    intro a p
    unfold Game.addCell Inside
    simp only [Int.add_comm]
  simp only [Game.addToArena, Game.cells, cellsAt, shape, List.foldl_map, List.foldl_filter]
  congr 1
  funext a p
  exact hcell a p

/-- Setting distinct free cells of the arena, one after the other. -/
theorem foldl_set_cells {cs : List (ℤ × ℤ)} (hnodup : cs.Nodup) {a : Arena}
    (hfree : ∀ c ∈ cs, Inside c ∧ a c.2 c.1 = 0) :
    occupied (cs.foldl (fun a c => if Inside c then a.set c.2 c.1 1 else a) a) =
        occupied a + cs.length ∧
      ∀ c, cs.foldl (fun a c => if Inside c then a.set c.2 c.1 1 else a) a c.2 c.1 =
        if c ∈ cs then 1 else a c.2 c.1 := by
  induction cs generalizing a with
  | nil => exact ⟨by simp, fun c => by simp⟩
  | cons d cs ih =>
    obtain ⟨hd, hnodup'⟩ := List.nodup_cons.mp hnodup
    obtain ⟨hin, hzero⟩ := hfree d List.mem_cons_self
    have hset : ∀ c, a.set d.2 d.1 1 c.2 c.1 = if c = d then 1 else a c.2 c.1 := by
      intro c
      unfold Arena.set
      exact if_congr ⟨fun h => Prod.ext h.2 h.1, fun h => h ▸ ⟨rfl, rfl⟩⟩ rfl rfl
    obtain ⟨hcount, hcells⟩ := ih hnodup' (a := a.set d.2 d.1 1) fun c hc => by
      have hne : c ≠ d := fun h => hd (h ▸ hc)
      rw [hset, if_neg hne]
      exact hfree c (List.mem_cons_of_mem d hc)
    rw [List.foldl_cons, if_pos hin]
    refine ⟨?_, fun c => ?_⟩
    · rw [hcount, occupied_set hin hzero, List.length_cons]
      omega
    · rw [hcells, hset]
      by_cases hmem : c ∈ cs
      · rw [if_pos hmem, if_pos (List.mem_cons_of_mem d hmem)]
      · rw [if_neg hmem]
        exact if_congr (by simp [hmem]) rfl rfl

/-- What locking the piece does: four free cells of the arena are set, and no other cell
changes. -/
structure Game.Locks (g : Game) : Prop where
  placed : g.Placed
  four : g.cells.Nodup ∧ g.cells.length = 4
  arena : ∀ c : ℤ × ℤ, g.addToArena.arena c.2 c.1 = if c ∈ g.cells then 1 else g.arena c.2 c.1

theorem locks_of_placed {g : Game} (h : g.Placed) : g.Locks := by
  have hnodup : g.cells.Nodup := nodup_cellsAt ..
  refine ⟨h, ⟨hnodup, length_cells g⟩, fun c => ?_⟩
  rw [addToArena_arena]
  exact (foldl_set_cells hnodup h).2 c

theorem occupied_addToArena {g : Game} (h : g.Placed) :
    occupied g.addToArena.arena = occupied g.arena + 4 := by
  have hnodup : g.cells.Nodup := nodup_cellsAt ..
  rw [addToArena_arena, (foldl_set_cells hnodup h).1, length_cells]

theorem Clean.addToArena {g : Game} (hclean : Clean g.arena) (h : g.Placed) :
    Clean g.addToArena.arena := by
  intro c hc
  rw [(locks_of_placed h).arena c]
  split_ifs
  · exact Or.inr rfl
  · exact hclean c hc

/-! ## Section 4: Runs -/

/-- The current piece is valid where it is. -/
def Game.Valid (g : Game) : Prop := g.fits g.currRotation g.currX g.currY = true

/-- There is a current piece: the game is not over, and the piece is not locked yet. -/
def Session.InPlay (s : Session) : Prop :=
  (s.place = .loop ∧ s.game.gameOver = false) ∨ s.place = .addToArena

/-- What holds at every moment of a game. -/
structure Session.Sound (s : Session) : Prop where
  /-- The current piece is valid, and its four cells are free cells of the arena. -/
  piece : s.InPlay → s.game.Valid ∧ s.game.Placed
  /-- A piece about to be locked overwrites nothing and loses no cell. -/
  lock : s.place = .addToArena → s.game.Locks
  count : (occupied s.game.arena : ℤ) = 4 * s.locked - arenaWidth * s.cleared

/-- The invariant of a session: the piece in play is valid, and the cells that are taken are
accounted for. -/
structure Session.Inv (s : Session) : Prop where
  clean : Clean s.game.arena
  piece : s.InPlay → s.game.Valid ∧ 0 ≤ s.game.currY
  count : occupied s.game.arena + arenaWidth * s.cleared = 4 * s.locked

theorem Session.Inv.placed {s : Session} (h : s.Inv) (hplay : s.InPlay) : s.game.Placed :=
  placed_of_fits h.clean (h.piece hplay).2 (h.piece hplay).1

theorem Session.Inv.sound {s : Session} (h : s.Inv) : s.Sound where
  piece := fun hplay => ⟨(h.piece hplay).1, h.placed hplay⟩
  lock := fun hplace => locks_of_placed (h.placed (Or.inr hplace))
  count := by
    have := h.count
    omega

/-- A key moves or turns the piece only to where it is valid, and never up. -/
theorem processInputs_spec {g : Game} (hvalid : g.Valid) (hy : 0 ≤ g.currY) (k : Key) :
    (g.processInputs k).arena = g.arena ∧ (g.processInputs k).gameOver = g.gameOver ∧
      (g.processInputs k).Valid ∧ 0 ≤ (g.processInputs k).currY := by
  cases k <;> simp only [Game.processInputs] <;> split
  case right.isTrue h => exact ⟨rfl, rfl, h, hy⟩
  case left.isTrue h => exact ⟨rfl, rfl, h, hy⟩
  case up.isTrue h => exact ⟨rfl, rfl, h, hy⟩
  case down.isTrue h => exact ⟨rfl, rfl, h, Int.le_add_one hy⟩
  all_goals exact ⟨rfl, rfl, hvalid, hy⟩

theorem moveDown_spec {g g' : Game} (h : g.moveDown = some g') (hy : 0 ≤ g.currY) :
    g'.arena = g.arena ∧ g'.Valid ∧ 0 ≤ g'.currY := by
  unfold Game.moveDown at h
  split at h
  · rename_i hfits
    obtain rfl := Option.some.inj h
    exact ⟨rfl, hfits, Int.le_add_one hy⟩
  · cases h

/-- A new piece is in play only if it is valid. -/
theorem newTetromino_spec (rand : ℕ) (g : Game) :
    (g.newTetromino rand).arena = g.arena ∧ (g.newTetromino rand).currY = 0 ∧
      ((g.newTetromino rand).gameOver = false → (g.newTetromino rand).Valid) := by
  refine ⟨rfl, rfl, fun h => ?_⟩
  simpa [Game.newTetromino, Game.Valid, Game.fits] using h

/-- **Step lemma.**  It holds after every key, tick and piece. -/
theorem Session.Inv.step {s : Session} (h : s.Inv) (e : Event) : (s.step e).Inv := by
  obtain ⟨g, place, locked, cleared⟩ := s
  cases place with
  | loop =>
    cases hover : g.gameOver with
    | true =>
      cases e with
      -- the game is over, and only a new one could be begun
      | input k => simpa [Session.step, hover] using h
      | tick => simpa [Session.step, hover] using h
      | call rand => exact h
    | false =>
      obtain ⟨hvalid, hy⟩ := h.piece (Or.inl ⟨rfl, hover⟩)
      cases e with
      | input k =>
        -- the piece is moved where it is valid, or not at all
        obtain ⟨harena, -, hvalid', hy'⟩ := processInputs_spec hvalid hy k
        have hstep : Session.step ⟨g, .loop, locked, cleared⟩ (.input k) =
            ⟨g.processInputs k, .loop, locked, cleared⟩ := by simp [Session.step, hover]
        rw [hstep]
        exact ⟨harena.symm ▸ h.clean, fun _ => ⟨hvalid', hy'⟩, harena.symm ▸ h.count⟩
      | tick =>
        cases hdown : g.moveDown with
        | some g' =>
          obtain ⟨harena, hvalid', hy'⟩ := moveDown_spec hdown hy
          have hstep : Session.step ⟨g, .loop, locked, cleared⟩ .tick =
              ⟨g', .loop, locked, cleared⟩ := by simp [Session.step, hover, hdown]
          rw [hstep]
          exact ⟨harena.symm ▸ h.clean, fun _ => ⟨hvalid', hy'⟩, harena.symm ▸ h.count⟩
        | none =>
          -- the piece stays where it was valid, and is locked there next
          have hstep : Session.step ⟨g, .loop, locked, cleared⟩ .tick =
              ⟨g, .addToArena, locked, cleared⟩ := by simp [Session.step, hover, hdown]
          rw [hstep]
          exact ⟨h.clean, fun _ => ⟨hvalid, hy⟩, h.count⟩
      | call rand => exact h
  | addToArena =>
    cases e with
    | input k => exact h
    | tick => exact h
    | call rand =>
      -- four free cells are taken
      have hplaced : g.Placed := h.placed (Or.inr rfl)
      refine ⟨h.clean.addToArena hplaced, fun hplay => ?_, ?_⟩
      · rcases hplay with ⟨hplace, -⟩ | hplace <;> cases hplace
      · have hcount := h.count
        have hlocked := occupied_addToArena hplaced
        simp only [Session.step] at hcount ⊢
        omega
  | checkLines =>
    cases e with
    | input k => exact h
    | tick => exact h
    | call rand =>
      -- each line that is cleared frees a line of cells
      obtain ⟨hclean, hlines⟩ := checkLinesLoop_spec g.arena 0 (Nat.le_refl _) h.clean
      refine ⟨hclean, fun hplay => ?_, ?_⟩
      · rcases hplay with ⟨hplace, -⟩ | hplace <;> cases hplace
      · have hcount := h.count
        simp only [Session.step, Game.checkLines, Game.clearedLines] at hcount ⊢
        rw [Nat.mul_add]
        omega
  | newTetromino =>
    cases e with
    | input k => exact h
    | tick => exact h
    | call rand =>
      -- the new piece is at the top, and valid unless the game is over
      obtain ⟨-, hy, hvalid⟩ := newTetromino_spec rand g
      refine ⟨h.clean, fun hplay => ?_, h.count⟩
      rcases hplay with ⟨-, hover⟩ | hplace
      · exact ⟨hvalid hover, hy ▸ Int.le_refl 0⟩
      · cases hplace

/-- The arena is empty after `memset`. -/
theorem occupied_cleared (a : Arena) : occupied a.cleared = 0 := by
  refine Finset.sum_eq_zero fun y hy => ?_
  unfold lineCount
  rw [Finset.card_eq_zero, Finset.filter_eq_empty_iff]
  intro x hx hne
  have hx' := Finset.mem_range.mp hx
  have hy' := Finset.mem_range.mp hy
  exact hne (if_pos ⟨by omega, by omega⟩)

theorem inv_start (rand : ℕ) (g : Game) : (Session.start rand g).Inv := by
  obtain ⟨-, hy, hvalid⟩ := newTetromino_spec rand
    { g with arena := g.arena.cleared, score := 0, gameOver := false, currRotation := 0 }
  refine ⟨fun c hc => Or.inl ?_, fun hplay => ?_, ?_⟩
  · exact if_pos ⟨hc.2, hc.1⟩
  · rcases hplay with ⟨-, hover⟩ | hplace
    · exact ⟨hvalid hover, Int.le_of_eq hy.symm⟩
    · cases hplace
  · change occupied g.arena.cleared + arenaWidth * 0 = 4 * 0
    rw [occupied_cleared, Nat.mul_zero, Nat.mul_zero]

/-- The first piece of a game fits into the empty arena, whichever it is. -/
theorem inPlay_start (rand : ℕ) (g : Game) : (Session.start rand g).InPlay := by
  have hinside : ∀ t : Fin 7, ∀ c ∈ cellsAt t 0 3 0, Inside c := by decide
  obtain ⟨idx, hidx⟩ : ∃ idx : Fin 7, idx = ⟨rand % 7, Nat.mod_lt _ (by decide)⟩ := ⟨_, rfl⟩
  have hvalid : validPos g.arena.cleared idx 0 3 0 = true := by
    refine validPos_iff.mpr fun c hc => ?_
    have hin := hinside idx c hc
    have hempty : g.arena.cleared c.2 c.1 = 0 := if_pos ⟨hin.2, hin.1⟩
    refine ⟨hin.1, hin.2.2, fun hone => ?_⟩
    rw [hempty] at hone
    exact absurd hone.2 (by decide)
  refine Or.inl ⟨rfl, ?_⟩
  change (!validPos g.arena.cleared ⟨rand % 7, _⟩ 0 3 0) = false
  rw [← hidx, hvalid]
  rfl

/-- **The game.**  At every moment of every game, whatever pieces come and whatever keys and
ticks are found: the piece in play is valid and covers four free cells of the arena, a piece
that is locked sets exactly these, and the arena holds four cells for each locked piece less a
line of cells for each cleared line. -/
theorem game_sound (rand : ℕ) (g : Game) (es : List Event) :
    (run Session.step (Session.start rand g) es).Sound := by
  have hrun : RunMeets Session.step (fun _ _ => True) (Session.start rand g) es :=
    RunMeets.of_forall fun _ _ => trivial
  exact (hrun.invariant Session.Inv (fun s e h _ => h.step e) (inv_start rand g)).sound

end Karnix.Tetris
