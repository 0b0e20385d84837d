import Karnix.Library.Bytes
import Karnix.Library.Runs

/-!
# Tetris

The game of `tetris.c` and the part of the main loop that drives it.  The arena is a function
of row and column; only the cells with `0 ≤ y < A_HEIGHT` and `0 ≤ x < A_WIDTH` belong to it.
What `rand` returns is an input.

A time tick that finds the piece blocked calls `addToArena`, `checkLines` and `newTetromino`
in turn.  These calls are steps of their own, so that the states between them can be looked
at.
-/

namespace Karnix.Tetris

open Karnix.Library

/-! ## Section 1: Pieces -/

/-- `A_WIDTH`, `A_HEIGHT`, `T_WIDTH` and `T_HEIGHT` -/
def arenaWidth : ℕ := 10
def arenaHeight : ℕ := 20
def tetrominoWidth : ℕ := 4
def tetrominoHeight : ℕ := 4

def tetrominoes : Fin 7 → List ℕ
  | 0 => [0, 0, 0, 0, 1, 1, 1, 1, 0, 0, 0, 0, 0, 0, 0, 0]
  | 1 => [0, 0, 0, 0, 0, 1, 1, 0, 0, 1, 1, 0, 0, 0, 0, 0]
  | 2 => [0, 0, 0, 0, 0, 0, 1, 1, 0, 1, 1, 0, 0, 0, 0, 0]
  | 3 => [0, 0, 0, 0, 1, 1, 0, 0, 0, 1, 1, 0, 0, 0, 0, 0]
  | 4 => [0, 0, 0, 0, 0, 1, 0, 0, 1, 1, 1, 0, 0, 0, 0, 0]
  | 5 => [0, 0, 0, 0, 1, 0, 0, 0, 1, 1, 1, 0, 0, 0, 0, 0]
  | 6 => [0, 0, 0, 0, 0, 0, 0, 1, 0, 1, 1, 1, 0, 0, 0, 0]

/-- `rotate`: the place in the shape that a cell of the box shows. -/
def rotate (x y : ℤ) (rotation : ℕ) : ℤ :=
  match rotation % 4 with
  | 0 => x + y * tetrominoWidth
  | 1 => 12 + y - x * tetrominoWidth
  | 2 => 15 - y * tetrominoWidth - x
  | _ => 3 - y + x * tetrominoWidth

/-- The tetromino has a cell at `(x, y)` of its rotated box. -/
def filled (tetromino : Fin 7) (rotation : ℕ) (x y : ℕ) : Bool :=
  (tetrominoes tetromino)[(rotate x y rotation).toNat]? = some 1

/-! ## Section 2: The state -/

/-- `arena[y][x]`, with 0 for a free cell. -/
abbrev Arena := ℤ → ℤ → Byte

def Arena.set (a : Arena) (y x : ℤ) (v : Byte) : Arena :=
  fun y' x' => if y' = y ∧ x' = x then v else a y' x'

/-- The variables of `tetris.c`: the arena, the piece in play, the score and the end of the game.
-/
structure Game where
  arena : Arena
  /-- An `int`. -/
  score : BitVec 32
  gameOver : Bool
  currTetrominoIdx : Fin 7
  currRotation : ℕ
  currX : ℤ
  currY : ℤ

/-! ## Section 3: Moving and placing a piece -/

/-- The body of the loop of `validPos` for the cell `(x, y)` of the box: `true` when it does
not return. -/
def validCell (a : Arena) (tetromino : Fin 7) (rotation : ℕ) (posX posY : ℤ) (x y : ℕ) : Bool :=
  if filled tetromino rotation x y then
    let arenaX := x + posX
    let arenaY := y + posY
    if 0 > arenaX ∨ arenaWidth ≤ arenaX ∨ arenaHeight ≤ arenaY then false
    else !(decide (0 ≤ arenaY) && a arenaY arenaX == 1)
  else true

/-- `validPos`: every cell of the piece is inside, and free. -/
def validPos (a : Arena) (tetromino : Fin 7) (rotation : ℕ) (posX posY : ℤ) : Bool :=
  (List.range tetrominoWidth).all fun x =>
    (List.range tetrominoHeight).all fun y => validCell a tetromino rotation posX posY x y

/-- `TETRIS_EVENT_*`: what the player can ask for. -/
inductive Key where
  | right | left | up | down
  deriving DecidableEq, Repr

namespace Game

/-- `validPos` of the current piece, moved and turned. -/
def fits (g : Game) (rotation : ℕ) (posX posY : ℤ) : Bool :=
  validPos g.arena g.currTetrominoIdx rotation posX posY

/-- `processInputs`: the piece is turned or moved if it fits there. -/
def processInputs (g : Game) : Key → Game
  | .up =>
    let nextRotation := (g.currRotation + 1) % 4
    if g.fits nextRotation g.currX g.currY then { g with currRotation := nextRotation } else g
  | .left =>
    if g.fits g.currRotation (g.currX - 1) g.currY then { g with currX := g.currX - 1 } else g
  | .right =>
    if g.fits g.currRotation (g.currX + 1) g.currY then { g with currX := g.currX + 1 } else g
  | .down =>
    if g.fits g.currRotation g.currX (g.currY + 1) then { g with currY := g.currY + 1 } else g

/-- `moveDown`: `none` when it returns `0`. -/
def moveDown (g : Game) : Option Game :=
  if g.fits g.currRotation g.currX (g.currY + 1) then some { g with currY := g.currY + 1 }
  else none

/-- The cells of the box of a tetromino, row by row. -/
def box : List (ℕ × ℕ) :=
  (List.range tetrominoHeight).flatMap fun y => (List.range tetrominoWidth).map fun x => (x, y)

/-- The body of the loop of `addToArena`. -/
def addCell (g : Game) (a : Arena) (p : ℕ × ℕ) : Arena :=
  if filled g.currTetrominoIdx g.currRotation p.1 p.2 then
    let arenaX := g.currX + p.1
    let arenaY := g.currY + p.2
    if (0 ≤ arenaX ∧ arenaX < arenaWidth) ∧ 0 ≤ arenaY ∧ arenaY < arenaHeight then
      a.set arenaY arenaX 1
    else a
  else a

/-- `addToArena`: the cells of the piece are set. -/
def addToArena (g : Game) : Game := { g with arena := box.foldl g.addCell g.arena }

/-- `newTetromino`, with what `rand` returns. -/
def newTetromino (rand : ℕ) (g : Game) : Game :=
  let idx : Fin 7 := ⟨rand % 7, Nat.mod_lt _ (by decide)⟩
  let x : ℤ := arenaWidth / 2 - tetrominoWidth / 2
  { g with
    currTetrominoIdx := idx
    currRotation := 0
    currX := x
    currY := 0
    gameOver := !validPos g.arena idx 0 x 0 }

/-- `newGame`: the score and the end are set back, and there is a new piece. -/
def newGame (rand : ℕ) (g : Game) : Game :=
  newTetromino rand { g with score := 0, gameOver := false, currRotation := 0 }

end Game

/-! ## Section 4: Clearing lines -/

/-- The line `y` has no empty cell. -/
def lineFull (a : Arena) (y : ℕ) : Bool :=
  (List.range arenaWidth).all fun x => !(a y x == 0)

/-- Line `y` becomes a copy of the line above. -/
def copyLine (a : Arena) (y : ℕ) : Arena :=
  (List.range arenaWidth).foldl (fun a' (x : ℕ) => a'.set y x (a' (y - 1) x)) a

/-- The lines from `y` up become copies of those above them, the lowest first. -/
def dropLines : ℕ → Arena → Arena
  | 0, a => a
  | y + 1, a => dropLines y (copyLine a (y + 1))

/-- Remove line `y`: those above it drop, and the top line is free. -/
def clearLine (a : Arena) (y : ℕ) : Arena :=
  (List.range arenaWidth).foldl (fun a' (x : ℕ) => a'.set 0 x 0) (dropLines y a)

/-- The number of full lines above line `n`. -/
def fullLines (a : Arena) (n : ℕ) : ℕ := ((List.range n).filter (lineFull a)).length

theorem foldl_set (f : Arena → ℕ → Byte) (y : ℤ) (v : ℕ → Byte) (n : ℕ) (a : Arena)
    (hf : ∀ a' : Arena, ∀ x < n, (∀ y' x', y' ≠ y → a' y' x' = a y' x') → f a' x = v x) :
    (List.range n).foldl (fun a' (x : ℕ) => a'.set y x (f a' x)) a =
      fun (y' x' : ℤ) => if y' = y ∧ 0 ≤ x' ∧ x' < n then v x'.toNat else a y' x' := by
  induction n with
  | zero =>
    funext y' x'
    have hout : ¬ (y' = y ∧ 0 ≤ x' ∧ x' < ((0 : ℕ) : ℤ)) := by omega
    rw [if_neg hout]
    rfl
  | succ n ih =>
    have ih' := ih fun a' x hx => hf a' x (Nat.lt_succ_of_lt hx)
    rw [List.range_succ, List.foldl_append, ih', List.foldl_cons, List.foldl_nil]
    rw [hf _ n (Nat.lt_succ_self n) fun y' x' hne =>
      if_neg fun h : y' = y ∧ 0 ≤ x' ∧ x' < n => hne h.1]
    funext y' x'
    unfold Arena.set
    beta_reduce
    by_cases hlast : y' = y ∧ x' = n
    · rw [if_pos hlast, if_pos (by omega), hlast.2, Int.toNat_natCast]
    · rw [if_neg hlast]
      by_cases hset : y' = y ∧ 0 ≤ x' ∧ x' < n
      · rw [if_pos hset, if_pos (by omega)]
      · rw [if_neg hset, if_neg (by omega)]

theorem copyLine_eq (a : Arena) (y : ℕ) :
    copyLine a (y + 1) =
      fun (y' x' : ℤ) => if y' = y + 1 ∧ 0 ≤ x' ∧ x' < arenaWidth then a y x' else a y' x' := by
  have hloop := foldl_set (fun a' (x : ℕ) => a' (((y + 1 : ℕ) : ℤ) - 1) x) ((y + 1 : ℕ) : ℤ)
    (fun x => a y x) arenaWidth a
    (fun a' x _ hkept => by
      rw [hkept _ _ (by omega)]
      congr 1
      omega)
  unfold copyLine
  rw [hloop]
  funext y' x'
  by_cases h : y' = y + 1 ∧ 0 ≤ x' ∧ x' < arenaWidth
  · rw [if_pos h, if_pos (by push_cast; exact h), Int.toNat_of_nonneg h.2.1]
  · rw [if_neg h, if_neg (by push_cast; exact h)]

/-- Within the columns of the arena, the lines up to `y` move one down. -/
theorem dropLines_eq (y : ℕ) (a : Arena) :
    dropLines y a =
      fun (y' x' : ℤ) => if (0 < y' ∧ y' ≤ y) ∧ 0 ≤ x' ∧ x' < arenaWidth then a (y' - 1) x'
        else a y' x' := by
  induction y generalizing a with
  | zero =>
    funext y' x'
    rw [if_neg (by omega)]
    rfl
  | succ y ih =>
    rw [dropLines.eq_def]
    simp only
    rw [ih, copyLine_eq]
    funext y' x'
    beta_reduce
    by_cases hcol : 0 ≤ x' ∧ x' < arenaWidth
    · by_cases hlow : 0 < y' ∧ y' ≤ y
      · rw [if_pos ⟨hlow, hcol⟩, if_neg (by omega), if_pos ⟨by omega, hcol⟩]
      · rw [if_neg fun h => hlow h.1]
        by_cases hlast : y' = y + 1
        · have hy : y' - 1 = y := by omega
          rw [if_pos ⟨hlast, hcol⟩, if_pos ⟨by omega, hcol⟩, hy]
        · rw [if_neg fun h => hlast h.1, if_neg (by omega)]
    · rw [if_neg fun h => hcol h.2, if_neg fun h => hcol h.2, if_neg fun h => hcol h.2]

/-- What `clearLine` leaves: line `y` is gone, those above it have moved down, and the
topmost line is empty. -/
theorem clearLine_eq (a : Arena) (y : ℕ) :
    clearLine a y =
      fun (y' x' : ℤ) => if 0 ≤ x' ∧ x' < arenaWidth then
          if y' = 0 then 0 else if 0 < y' ∧ y' ≤ y then a (y' - 1) x' else a y' x'
        else a y' x' := by
  unfold clearLine
  rw [foldl_set (fun _ _ => 0) 0 (fun _ => 0) arenaWidth _ fun _ _ _ _ => rfl, dropLines_eq]
  funext y' x'
  beta_reduce
  by_cases hcol : 0 ≤ x' ∧ x' < arenaWidth
  · by_cases htop : y' = 0
    · rw [if_pos ⟨htop, hcol⟩, if_pos hcol, if_pos htop]
    · rw [if_neg fun h => htop h.1, if_pos hcol, if_neg htop]
      by_cases hlow : 0 < y' ∧ y' ≤ y
      · rw [if_pos ⟨hlow, hcol⟩, if_pos hlow]
      · rw [if_neg fun h => hlow h.1, if_neg hlow]
  · rw [if_neg fun h => hcol h.2, if_neg fun h => hcol h.2, if_neg hcol]

theorem lineFull_iff {a : Arena} {y : ℕ} :
    lineFull a y = true ↔ ∀ x : ℕ, x < arenaWidth → a y x ≠ 0 := by
  simp [lineFull]

theorem lineFull_congr {a a' : Arena} {y y' : ℕ}
    (h : ∀ x : ℕ, x < arenaWidth → a y x = a' y' x) : lineFull a y = lineFull a' y' := by
  rw [Bool.eq_iff_iff, lineFull_iff, lineFull_iff]
  exact forall₂_congr fun x hx => by rw [h x hx]

/-- The topmost line after `clearLine`. -/
theorem clearLine_zero (a : Arena) (y : ℕ) {x : ℕ} (hx : x < arenaWidth) :
    clearLine a y (0 : ℕ) x = 0 := by
  rw [clearLine_eq]
  beta_reduce
  rw [if_pos ⟨by omega, by exact_mod_cast hx⟩, if_pos Nat.cast_zero]

/-- A line that moved down. -/
theorem clearLine_succ (a : Arena) {y k : ℕ} (hk : k < y) {x : ℕ} (hx : x < arenaWidth) :
    clearLine a y (k + 1 : ℕ) x = a k x := by
  rw [clearLine_eq]
  beta_reduce
  have hy : ((k + 1 : ℕ) : ℤ) - 1 = k := by omega
  rw [if_pos ⟨by omega, by exact_mod_cast hx⟩, if_neg (by omega), if_pos (by omega), hy]

/-- A line below the one removed. -/
theorem clearLine_below (a : Arena) {y k : ℕ} (hk : y < k) (x : ℤ) :
    clearLine a y k x = a k x := by
  rw [clearLine_eq]
  beta_reduce
  by_cases hcol : 0 ≤ x ∧ x < arenaWidth
  · rw [if_pos hcol, if_neg (by omega), if_neg (by omega)]
  · rw [if_neg hcol]

theorem fullLines_clearLine {a : Arena} {y : ℕ} (h : lineFull a y = true) :
    fullLines (clearLine a y) (y + 1) < fullLines a (y + 1) := by
  have htop : lineFull (clearLine a y) 0 = false := by
    rw [Bool.eq_false_iff, Ne, lineFull_iff]
    exact fun hall => hall 0 (by decide) (clearLine_zero a y (by decide))
  have hrest : (List.range y).filter (lineFull (clearLine a y) ∘ Nat.succ) =
      (List.range y).filter (lineFull a) :=
    List.filter_congr fun k hk =>
      lineFull_congr fun x hx => clearLine_succ a (List.mem_range.mp hk) hx
  have hcleared : fullLines (clearLine a y) (y + 1) = fullLines a y := by
    rw [fullLines, List.range_succ_eq_map, List.filter_cons_of_neg (by rw [htop]; decide),
      List.filter_map, List.length_map, hrest, fullLines]
  have hbefore : fullLines a (y + 1) = fullLines a y + 1 := by
    simp [fullLines, List.range_succ, h]
  omega

/-- The loop of `checkLines`, with `y + 1` lines still to check.  A line that was cleared is
checked again. -/
def checkLinesLoop (a : Arena) (clearedLines : ℕ) (n : ℕ) : Arena × ℕ :=
  match n with
  | 0 => (a, clearedLines)
  | y + 1 =>
    if lineFull a y then checkLinesLoop (clearLine a y) (clearedLines + 1) (y + 1)
    else checkLinesLoop a clearedLines y
termination_by n + fullLines a n
decreasing_by
  · exact Nat.add_lt_add_left (fullLines_clearLine ‹_›) _
  · have hnot : lineFull a y = false := Bool.eq_false_of_not_eq_true ‹_›
    have hfull : fullLines a (y + 1) = fullLines a y := by
      simp [fullLines, List.range_succ, hnot]
    rw [Nat.succ_eq_add_one, hfull]
    omega

/-- `checkLines`: full lines are removed, each for 100 points. -/
def Game.checkLines (g : Game) : Game :=
  let r := checkLinesLoop g.arena 0 arenaHeight
  { g with
    arena := r.1
    score := if 0 < r.2 then g.score + BitVec.ofNat 32 (100 * r.2) else g.score }

/-- The number of lines `checkLines` clears. -/
def Game.clearedLines (g : Game) : ℕ := (checkLinesLoop g.arena 0 arenaHeight).2

/-! ## Section 5: The main loop -/

/-- Where the program stands: in the main loop, or before one of the calls that follow a
blocked `moveDown`. -/
inductive Place where
  | loop | addToArena | checkLines | newTetromino
  deriving DecidableEq, Repr

/-- The game with its counters: the pieces locked and the lines cleared. -/
structure Session where
  game : Game
  place : Place := .loop
  locked : ℕ := 0
  cleared : ℕ := 0

inductive Event where
  /-- A key is found pressed. -/
  | input (k : Key)
  /-- The frame time has elapsed. -/
  | tick
  /-- The next call is made; `rand` is what `rand` returns in it. -/
  | call (rand : ℕ)

/-- One step of the game screen.  The other screens leave the variables alone until a new game
is started. -/
def Session.step (s : Session) (e : Event) : Session :=
  match s.place, e with
  | .loop, .input k => if s.game.gameOver then s else { s with game := s.game.processInputs k }
  | .loop, .tick =>
    if s.game.gameOver then s
    else
      match s.game.moveDown with
      | some g => { s with game := g }
      | none => { s with place := .addToArena }
  | .addToArena, .call _ =>
    { s with game := s.game.addToArena, place := .checkLines, locked := s.locked + 1 }
  | .checkLines, .call _ =>
    { s with
      game := s.game.checkLines
      place := .newTetromino
      cleared := s.cleared + s.game.clearedLines }
  | .newTetromino, .call rand => { s with game := s.game.newTetromino rand, place := .loop }
  | _, _ => s

/-- `memset` of the arena. -/
def Arena.cleared (a : Arena) : Arena :=
  fun y x => if (0 ≤ y ∧ y < arenaHeight) ∧ 0 ≤ x ∧ x < arenaWidth then 0 else a y x

/-- The start of a game. -/
def Session.start (rand : ℕ) (g : Game) : Session :=
  { game := { g with arena := g.arena.cleared }.newGame rand }

end Karnix.Tetris
