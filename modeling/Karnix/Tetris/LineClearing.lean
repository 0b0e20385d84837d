import Karnix.Tetris.Game

/-!
# Clearing lines

`checkLines` removes one full line after the other and looks at the same line again, because
another line has moved into its place.  What it leaves is the arena as a list of lines, from top
to bottom, without the full ones and with empty lines in front.

The invariant of the loop: the lines from `n` down have been checked and stay as they are, and the
lines above `n` are still to be filtered.
-/

namespace Karnix.Tetris

open Karnix.Library

/-! ## Section 1: The arena as a list of lines -/

/-- `arena[y]`: the cells of a line, from the left. -/
def Arena.line (a : Arena) (y : ℕ) : List Byte := (List.range arenaWidth).map fun (x : ℕ) => a y x

/-- The lines above line `n`, the topmost first. -/
def Arena.lines (a : Arena) (n : ℕ) : List (List Byte) := (List.range n).map a.line

def emptyLine : List Byte := List.replicate arenaWidth 0

/-- No cell of the line is empty. -/
def isFull (line : List Byte) : Bool := line.all fun cell => !(cell == 0)

/-- The lines that are not full, at the bottom, and as many empty lines above them as were
full. -/
def compacted (lines : List (List Byte)) : List (List Byte) :=
  List.replicate (lines.countP isFull) emptyLine ++ lines.filter fun line => !isFull line

theorem lineFull_eq (a : Arena) (y : ℕ) : lineFull a y = isFull (a.line y) := by
  simp [lineFull, isFull, Arena.line, Function.comp_def]

theorem isFull_emptyLine : isFull emptyLine = false := by decide

theorem lines_succ (a : Arena) (n : ℕ) : a.lines (n + 1) = a.lines n ++ [a.line n] := by
  simp [Arena.lines, List.range_succ]

theorem line_congr {a a' : Arena} {y y' : ℕ} (h : ∀ x : ℕ, x < arenaWidth → a y x = a' y' x) :
    a.line y = a'.line y' :=
  List.map_congr_left fun x hx => h x (List.mem_range.mp hx)

/-! ## Section 2: The list of lines without the full ones -/

/-- A line that is not full stays at the bottom. -/
theorem compacted_concat_kept {lines : List (List Byte)} {line : List Byte}
    (h : isFull line = false) : compacted (lines ++ [line]) = compacted lines ++ [line] := by
  simp [compacted, List.countP_append, h]

/-- In place of a full line there is an empty line on top. -/
theorem compacted_concat_full {lines : List (List Byte)} {line : List Byte}
    (h : isFull line = true) : compacted (lines ++ [line]) = compacted (emptyLine :: lines) := by
  have hcount : (lines ++ [line]).countP isFull = lines.countP isFull + 1 := by
    simp [List.countP_append, h]
  have hfilter : (lines ++ [line]).filter (fun l => !isFull l) =
      lines.filter fun l => !isFull l := by
    simp [h]
  unfold compacted
  rw [hcount, hfilter, List.countP_cons_of_neg (by simp [isFull_emptyLine]),
    List.filter_cons_of_pos (by simp [isFull_emptyLine]), List.replicate_succ', List.append_assoc,
    List.singleton_append]

/-- No full line is left. -/
theorem not_isFull_of_mem_compacted {lines : List (List Byte)} {line : List Byte}
    (h : line ∈ compacted lines) : isFull line = false := by
  rcases List.mem_append.mp h with hempty | hkept
  · rw [List.eq_of_mem_replicate hempty]
    exact isFull_emptyLine
  · simpa using (List.mem_filter.mp hkept).2

/-! ## Section 3: The loop -/

/-- Removing line `y` puts an empty line on top of those above it. -/
theorem lines_clearLine (a : Arena) (y : ℕ) :
    (clearLine a y).lines (y + 1) = emptyLine :: a.lines y := by
  have htop : (clearLine a y).line 0 = emptyLine := by
    refine List.eq_replicate_iff.mpr ⟨by simp [Arena.line], fun cell hcell => ?_⟩
    obtain ⟨x, hx, rfl⟩ := List.mem_map.mp hcell
    exact clearLine_zero a y (List.mem_range.mp hx)
  have hrest : (List.range y).map ((clearLine a y).line ∘ Nat.succ) = a.lines y :=
    List.map_congr_left fun k hk =>
      line_congr fun x hx => clearLine_succ a (List.mem_range.mp hk) hx
  rw [Arena.lines, List.range_succ_eq_map, List.map_cons, List.map_map, htop, hrest]

/-- **Run lemma.** The lines above `n` are compacted, those from `n` down stay, and every full line
above `n` is counted. -/
theorem checkLinesLoop_lines (a : Arena) (cleared n : ℕ) :
    (checkLinesLoop a cleared n).1.lines n = compacted (a.lines n) ∧
      (∀ k, n ≤ k → (checkLinesLoop a cleared n).1.line k = a.line k) ∧
      (checkLinesLoop a cleared n).2 = cleared + (a.lines n).countP isFull := by
  fun_induction checkLinesLoop a cleared n with
  | case1 a cleared => exact ⟨rfl, fun _ _ => rfl, rfl⟩
  | case2 a cleared y hfull ih =>
    obtain ⟨hlines, hbelow, hcount⟩ := ih
    rw [lineFull_eq] at hfull
    rw [lines_clearLine] at hlines hcount
    refine ⟨?_, fun k hk => ?_, ?_⟩
    · rw [hlines, lines_succ, compacted_concat_full hfull]
    · rw [hbelow k hk]
      exact line_congr fun x _ => clearLine_below a hk x
    · rw [hcount, lines_succ, List.countP_append, List.countP_cons_of_neg (by
        simp [isFull_emptyLine]), List.countP_singleton, if_pos hfull]
      omega
  | case3 a cleared y hfull ih =>
    obtain ⟨hlines, hbelow, hcount⟩ := ih
    rw [Bool.not_eq_true, lineFull_eq] at hfull
    refine ⟨?_, fun k hk => hbelow k (Nat.le_of_succ_le hk), ?_⟩
    · rw [lines_succ, lines_succ, hlines, hbelow y (Nat.le_refl y), compacted_concat_kept hfull]
    · rw [hcount, lines_succ, List.countP_append, List.countP_singleton, hfull]
      simp

/-! ## Section 4: The function -/

/-- What is to hold between the game before `checkLines` and the game after it. -/
structure LinesCleared (g g' : Game) : Prop where
  /-- The lines that were not full are at the bottom, in their order, under empty lines. -/
  lines : g'.arena.lines arenaHeight =
    List.replicate ((g.arena.lines arenaHeight).countP isFull) emptyLine ++
      (g.arena.lines arenaHeight).filter fun line => !isFull line
  /-- No line is full. -/
  noneFull : ∀ y < arenaHeight, isFull (g'.arena.line y) = false
  /-- A hundred points for every full line, in 32 bits. -/
  score : g'.score = g.score + BitVec.ofNat 32 (100 * (g.arena.lines arenaHeight).countP isFull)
  /-- A hundred points for every full line, as a number, unless an `int` is too small for it. -/
  scoreInt : g.score.toInt + 100 * (g.arena.lines arenaHeight).countP isFull < 2 ^ 31 →
    g'.score.toInt = g.score.toInt + 100 * (g.arena.lines arenaHeight).countP isFull

/-- An `int` that does not overflow. -/
theorem toInt_add_ofNat {s : BitVec 32} {k : ℕ} (h : s.toInt + k < 2 ^ 31) :
    (s + BitVec.ofNat 32 k).toInt = s.toInt + k := by
  have hlow := BitVec.le_toInt s
  rw [BitVec.toInt_add, BitVec.toInt_eq_toNat_bmod (BitVec.ofNat 32 k), Int.add_bmod_bmod,
    BitVec.toNat_ofNat, Nat.mod_eq_of_lt (by omega)]
  exact Int.bmod_eq_of_le (by omega) (by omega)

/-- **Line clearing.**  Exactly the full lines are removed, the others drop in their order, and
each one removed is worth 100 points. -/
theorem linesCleared (g : Game) : LinesCleared g g.checkLines := by
  obtain ⟨hlines, -, hcount⟩ := checkLinesLoop_lines g.arena 0 arenaHeight
  have hlines' : g.checkLines.arena.lines arenaHeight = compacted (g.arena.lines arenaHeight) :=
    hlines
  have hscore : g.checkLines.score =
      g.score + BitVec.ofNat 32 (100 * (g.arena.lines arenaHeight).countP isFull) := by
    rw [Nat.zero_add] at hcount
    rw [← hcount]
    show (if 0 < _ then _ else _) = _
    split
    · rfl
    · next hnone => simp [Nat.eq_zero_of_not_pos hnone]
  refine ⟨hlines', fun y hy => ?_, hscore, fun hfits => ?_⟩
  · apply not_isFull_of_mem_compacted
    rw [← hlines']
    exact List.mem_map_of_mem (List.mem_range.mpr hy)
  · rw [hscore]
    exact_mod_cast toInt_add_ofNat (by exact_mod_cast hfits)

end Karnix.Tetris
