import Karnix.Library.Bytes
import Karnix.Library.Runs

/-!
# The command line editor

`cli_process_input` of `cli.c` with the history it edits.  The editor takes its input in
batches, as `console_poll` finds them in the receive buffer.

A recalled history entry ends the loop over the batch, and the terminating NUL of the edit line
is written behind the loop only.  These are the two ways in which the ends of the batches
show.
-/

namespace Karnix.Cli

open Karnix.Library

/-! ## Section 1: The editor -/

/-- `CLI_BUF_SIZE`: the bytes of an edit line, with its NUL. -/
def cliBufSize : ℕ := 64

/-- `CLI_HISTORY_SIZE`: the lines that are kept. -/
def cliHistorySize : ℕ := 5

/-- Where row `i` of `cli_history` begins. -/
def row (i : ℕ) : ℕ := i * (cliBufSize + 1)

/-- `esc_flag`: 0, 1 after ESC, and 2 after ESC `[`. -/
inductive EscFlag where
  | none | esc | bracket
  deriving DecidableEq, Repr

/-- The variables of the editor, and the lines handed to `cli_process_command` so far. -/
structure Editor where
  cliHistory : Memory Byte
  cliHistoryIdx : ℕ
  cliBufLen : ℕ
  escFlag : EscFlag
  commands : List (List Byte)

namespace Editor

/-- `cli_buf`, which points to the row the index selects. -/
def cliBuf (s : Editor) : ℕ := row s.cliHistoryIdx

/-- `strlen` of row `i`, in the array from there on. -/
def rowLen (s : Editor) (i : ℕ) : ℕ := strlen s.cliHistory (row i) (row cliHistorySize - row i)

/-- `cli_buf[i] = c` -/
def put (s : Editor) (i : ℕ) (c : Byte) : Editor :=
  { s with cliHistory := s.cliHistory.store (s.cliBuf + i) [c] }

/-- The entry with index `i` becomes the edit line. -/
def recallEntry (s : Editor) (i : ℕ) : Editor :=
  { s with cliHistoryIdx := i, cliBufLen := s.rowLen i }

/-- `cli_history_popup`: the entry before, or the last one behind the first. -/
def cliHistoryPopup (s : Editor) : Editor :=
  s.recallEntry (if s.cliHistoryIdx = 0 then cliHistorySize - 1 else s.cliHistoryIdx - 1)

/-- `cli_history_popdown`: the entry behind, round and round. -/
def cliHistoryPopdown (s : Editor) : Editor :=
  s.recallEntry ((s.cliHistoryIdx + 1) % cliHistorySize)

/-- `cli_history_push`: the next entry is the edit line, and is empty. -/
def cliHistoryPush (s : Editor) : Editor :=
  { { s with cliHistoryIdx := (s.cliHistoryIdx + 1) % cliHistorySize }.put 0 0 with
    cliBufLen := 0 }

/-- Enter on a line that is not empty: the command gets a copy of the line. -/
def enter (s : Editor) : Editor :=
  let s := s.put s.cliBufLen 0
  { s with commands := s.commands ++ [s.cliHistory.load s.cliBuf s.cliBufLen] }.cliHistoryPush

/-- One pass of the loop of `cli_process_input`, and whether it jumps behind the loop. -/
def key (s : Editor) (c : Byte) : Editor × Bool :=
  match s.escFlag with
  | .esc => ({ s with escFlag := if c = 0x5b then .bracket else .none }, false)
  | .bracket =>
    let s := { s with escFlag := .none }
    if c = 0x41 then (s.cliHistoryPopup, true)
    else if c = 0x42 then (s.cliHistoryPopdown, true)
    else (s, false)
  | .none =>
    if c = 0x07 then (s, false)
    -- backspace writes a NUL, the only key but Enter that does
    else if c = 0x08 then
      if s.cliBufLen = 0 then (s, false)
      else ({ s.put (s.cliBufLen - 1) 0 with cliBufLen := s.cliBufLen - 1 }, false)
    else if c = 0x0a ∨ c = 0x0d then
      -- on an empty line Enter is another arrow up
      if s.cliBufLen = 0 then (s.cliHistoryPopup, true) else (s.enter, false)
    else if c = 0x1b then ({ s with escFlag := .esc }, false)
    -- the text stays in the row
    else if c = 0x15 ∨ c = 0x0c then ({ s with cliBufLen := 0 }, false)
    else if s.cliBufLen ≥ cliBufSize then (s, false)
    else if 0x20 ≤ c ∧ c < 0x7f then
      ({ s.put s.cliBufLen c with cliBufLen := s.cliBufLen + 1 }, false)
    else (s, false)

/-- The loop of `cli_process_input`. -/
def loop (s : Editor) : List Byte → Editor
  | [] => s
  | c :: cs => if (s.key c).2 then (s.key c).1 else (s.key c).1.loop cs

/-- The edit line gets its NUL. -/
def terminate (s : Editor) : Editor := s.put s.cliBufLen 0

end Editor

/-- `cli_process_input`: all characters of a batch, and then the NUL behind the line. -/
def cliProcessInput (s : Editor) (buf : List Byte) : Editor :=
  if buf = [] then s else (s.loop buf).terminate

/-- The editor after start-up: zeros in all lines, and the first one is edited. -/
def Editor.init : Editor := ⟨fun _ => 0, 0, 0, .none, []⟩

/-! ## Section 2: Batches -/

/-- What there is to see of the editor: the history as strings, which entry is edited and
how far, the escape state, and the commands executed. -/
structure View where
  history : List (List Byte)
  historyIdx : ℕ
  editLine : List Byte
  escFlag : EscFlag
  commands : List (List Byte)
  deriving DecidableEq

namespace Editor

/-- The string in row `i`. -/
def entry (s : Editor) (i : ℕ) : List Byte :=
  cString s.cliHistory (row i) (row cliHistorySize - row i)

def view (s : Editor) : View where
  history := (List.range cliHistorySize).map s.entry
  historyIdx := s.cliHistoryIdx
  editLine := s.cliHistory.load s.cliBuf s.cliBufLen
  escFlag := s.escFlag
  commands := s.commands

/-- Whether `b` follows in the same batch as `a` or in the next one makes no difference. -/
def BatchFree (s : Editor) (a b : List Byte) : Prop :=
  (cliProcessInput s (a ++ b)).view = (cliProcessInput (cliProcessInput s a) b).view

/-- No key of the batch recalls a history entry, so that none jumps out of the loop. -/
def RecallsNothing : Editor → List Byte → Prop
  | _, [] => True
  | s, c :: cs => (s.key c).2 = false ∧ RecallsNothing (s.key c).1 cs

/-- A NUL follows the edit line. -/
def Terminated (s : Editor) : Prop := s.cliHistory (s.cliBuf + s.cliBufLen) = 0

/-! ## Section 3: Invariant -/

/-- The edit line fits into its row, and has no NUL inside; every row ends with a NUL. -/
structure Inv (s : Editor) : Prop where
  idx_lt : s.cliHistoryIdx < cliHistorySize
  len_le : s.cliBufLen ≤ cliBufSize
  row_end : ∀ i, i < cliHistorySize → s.cliHistory (row i + cliBufSize) = 0
  line_ne : ∀ k, k < s.cliBufLen → s.cliHistory (s.cliBuf + k) ≠ 0

section Invariant

variable {s : Editor}

@[simp] theorem put_apply (s : Editor) (i : ℕ) (c : Byte) (k : ℕ) :
    (s.put i c).cliHistory k = if k = s.cliBuf + i then c else s.cliHistory k :=
  Memory.store_singleton _ _ _ _

@[simp] theorem cliBuf_put (s : Editor) (i : ℕ) (c : Byte) : (s.put i c).cliBuf = s.cliBuf := rfl

@[simp] theorem cliBufLen_put (s : Editor) (i : ℕ) (c : Byte) :
    (s.put i c).cliBufLen = s.cliBufLen := rfl

/-- A byte of one row is not the last one of any row, unless it is at its end. -/
theorem row_add_ne {i j k : ℕ} (hk : k < cliBufSize) : row j + cliBufSize ≠ row i + k := by
  simp only [row, cliBufSize] at hk ⊢
  omega

theorem inv_init : init.Inv :=
  ⟨by decide, by decide, fun _ _ => rfl, fun k hk => absurd hk (Nat.not_lt_zero k)⟩

/-- Writing a NUL at the end of the line or behind it. -/
theorem Inv.put_nul (h : s.Inv) {n i : ℕ} (hn : n ≤ i) (hlen : n ≤ s.cliBufLen) :
    ({ s.put i 0 with cliBufLen := n } : Editor).Inv := by
  refine ⟨h.idx_lt, hlen.trans h.len_le, fun j hj => ?_, fun k hk => ?_⟩
  · have hend := h.row_end j hj
    simp only [put_apply]
    split_ifs
    · rfl
    · exact hend
  · have hne := h.line_ne k (lt_of_lt_of_le hk hlen)
    have hkn : k < n := hk
    have hout : s.cliBuf + k ≠ s.cliBuf + i := by omega
    show (s.put i 0).cliHistory (s.cliBuf + k) ≠ 0
    rw [put_apply, if_neg hout]
    exact hne

theorem Inv.terminate (h : s.Inv) : s.terminate.Inv ∧ s.terminate.Terminated :=
  ⟨h.put_nul le_rfl le_rfl, by simp [Terminated, Editor.terminate]⟩

/-- A typed character goes behind the line, as long as there is room for it and a NUL. -/
theorem Inv.type (h : s.Inv) {c : Byte} (hc : c ≠ 0) (hlen : s.cliBufLen < cliBufSize) :
    ({ s.put s.cliBufLen c with cliBufLen := s.cliBufLen + 1 } : Editor).Inv := by
  refine ⟨h.idx_lt, hlen, fun j hj => ?_, fun k hk => ?_⟩
  · show (s.put s.cliBufLen c).cliHistory (row j + cliBufSize) = 0
    have hout : row j + cliBufSize ≠ s.cliBuf + s.cliBufLen := row_add_ne hlen
    rw [put_apply, if_neg hout]
    exact h.row_end j hj
  · show (s.put s.cliBufLen c).cliHistory (s.cliBuf + k) ≠ 0
    rw [put_apply]
    split_ifs with heq
    · exact hc
    · exact h.line_ne k (lt_of_le_of_ne (Nat.lt_succ_iff.mp hk) fun hk' => heq (by rw [hk']))

theorem row_room {i : ℕ} (hi : i < cliHistorySize) :
    cliBufSize < row cliHistorySize - row i := by
  simp only [row, cliBufSize, cliHistorySize] at hi ⊢
  omega

theorem Inv.recallEntry (h : s.Inv) {i : ℕ} (hi : i < cliHistorySize) :
    (s.recallEntry i).Inv ∧ (s.recallEntry i).Terminated := by
  obtain ⟨hle, hnul, hne⟩ := strlen_spec (row_room hi) (h.row_end i hi)
  exact ⟨⟨hi, hle, h.row_end, hne⟩, hnul⟩

theorem Inv.popup (h : s.Inv) : s.cliHistoryPopup.Inv ∧ s.cliHistoryPopup.Terminated := by
  have hidx := h.idx_lt
  apply h.recallEntry
  simp only [cliHistorySize] at hidx ⊢
  split_ifs <;> omega

theorem Inv.popdown (h : s.Inv) : s.cliHistoryPopdown.Inv ∧ s.cliHistoryPopdown.Terminated :=
  h.recallEntry (Nat.mod_lt _ (by decide))

theorem Inv.enter (h : s.Inv) : s.enter.Inv ∧ s.enter.Terminated := by
  have hline := h.terminate.1
  have hnext : (s.cliHistoryIdx + 1) % cliHistorySize < cliHistorySize := Nat.mod_lt _ (by decide)
  -- the next row, with an empty line in it
  have hfresh : ({ s.terminate with
      commands := s.commands ++ [s.terminate.cliHistory.load s.cliBuf s.cliBufLen]
      cliHistoryIdx := (s.cliHistoryIdx + 1) % cliHistorySize
      cliBufLen := 0 } : Editor).Inv :=
    ⟨hnext, Nat.zero_le _, hline.row_end, fun k hk => absurd hk (Nat.not_lt_zero k)⟩
  exact ⟨hfresh.put_nul le_rfl le_rfl, (put_apply _ 0 0 _).trans (if_pos rfl)⟩

theorem Inv.esc (h : s.Inv) (e : EscFlag) : ({ s with escFlag := e } : Editor).Inv :=
  ⟨h.idx_lt, h.len_le, h.row_end, h.line_ne⟩

/-- **Step lemma.**  A key keeps the invariant; one that jumps out of the loop has recalled an
entry. -/
theorem Inv.key (h : s.Inv) (c : Byte) :
    (s.key c).1.Inv ∧
      ((s.key c).2 = true → (s.key c).1.Terminated ∧ (s.key c).1.escFlag = .none) := by
  -- the cases of `key`, in their order
  unfold Editor.key
  cases hesc : s.escFlag with
  | esc => exact ⟨h.esc _, fun hf => by cases hf⟩
  | bracket =>
    dsimp only
    split_ifs with hup hdown
    · exact ⟨(h.esc .none).popup.1, fun _ => ⟨(h.esc .none).popup.2, rfl⟩⟩
    · exact ⟨(h.esc .none).popdown.1, fun _ => ⟨(h.esc .none).popdown.2, rfl⟩⟩
    · exact ⟨h.esc .none, fun hf => by cases hf⟩
  | none =>
    dsimp only
    split_ifs with hbell hback hempty henter hempty hescape hkill hfull hvisual
    · exact ⟨h, fun hf => by cases hf⟩
    · exact ⟨h, fun hf => by cases hf⟩
    · exact ⟨h.put_nul le_rfl (Nat.sub_le _ _), fun hf => by cases hf⟩
    · exact ⟨h.popup.1, fun _ => ⟨h.popup.2, hesc⟩⟩
    · exact ⟨h.enter.1, fun hf => by cases hf⟩
    · exact ⟨h.esc .esc, fun hf => by cases hf⟩
    · exact ⟨⟨h.idx_lt, Nat.zero_le _, h.row_end, fun k hk => absurd hk (Nat.not_lt_zero k)⟩,
        fun hf => by cases hf⟩
    · exact ⟨h, fun hf => by cases hf⟩
    · -- a graphic character is no NUL
      have hne : c ≠ 0 := by
        rintro rfl
        exact absurd hvisual.1 (by decide)
      exact ⟨h.type hne (Nat.lt_of_not_le hfull), fun hf => by cases hf⟩
    · exact ⟨h, fun hf => by cases hf⟩

theorem Inv.loop (h : s.Inv) (cs : List Byte) : (s.loop cs).Inv := by
  induction cs generalizing s with
  | nil => exact h
  | cons c cs ih =>
    unfold Editor.loop
    split
    · exact (h.key c).1
    · exact ih (h.key c).1

/-- **Run lemma.**  Between two batches the invariant holds and the line is terminated. -/
theorem Inv.batches (h : s.Inv) (hterm : s.Terminated) (bs : List (List Byte)) :
    (run cliProcessInput s bs).Inv ∧ (run cliProcessInput s bs).Terminated := by
  induction bs generalizing s with
  | nil => exact ⟨h, hterm⟩
  | cons b bs ih =>
    rw [run_cons]
    by_cases hb : b = []
    · rw [cliProcessInput, if_pos hb]
      exact ih h hterm
    · rw [cliProcessInput, if_neg hb]
      exact ih (h.loop b).terminate.1 (h.loop b).terminate.2

/-! ## Section 4: Where a batch may end -/

/-- Where no key of `a` jumps out of the loop, the loop goes on behind `a`. -/
theorem loop_append (a b : List Byte) (h : s.RecallsNothing a) :
    s.loop (a ++ b) = (s.loop a).loop b := by
  induction a generalizing s with
  | nil => rfl
  | cons c a ih =>
    simp only [List.cons_append, Editor.loop, h.1, Bool.false_eq_true, if_false]
    exact ih h.2

/-- Behind a key that jumps out of the loop nothing is handled. -/
theorem loop_append_of_recall (a b : List Byte) (h : ¬ s.RecallsNothing a) :
    s.loop (a ++ b) = s.loop a := by
  induction a generalizing s with
  | nil => exact absurd trivial h
  | cons c a ih =>
    simp only [List.cons_append, Editor.loop]
    cases hkey : (s.key c).2 with
    | true => simp
    | false =>
      simp only [Bool.false_eq_true, if_false]
      exact ih fun hrest => h ⟨hkey, hrest⟩

theorem esc_of_recall (hinv : s.Inv) (a : List Byte) (h : ¬ s.RecallsNothing a) :
    (s.loop a).escFlag = .none := by
  induction a generalizing s with
  | nil => exact absurd trivial h
  | cons c a ih =>
    unfold Editor.loop
    cases hkey : (s.key c).2 with
    | true => exact ((hinv.key c).2 hkey).2
    | false =>
      simp only [Bool.false_eq_true, if_false]
      exact ih (hinv.key c).1 fun hrest => h ⟨hkey, hrest⟩

theorem terminate_of_terminated (h : s.Terminated) : s.terminate = s := by
  have hsame : s.cliHistory.store (s.cliBuf + s.cliBufLen) [0] = s.cliHistory := by
    funext k
    rw [Memory.store_singleton]
    split_ifs with hk
    · rw [hk]
      exact h.symm
    · rfl
  rw [Editor.terminate, Editor.put, hsame]

/-- A batch that recalls nothing and leaves the line terminated may be cut off there. -/
theorem batchFree_of_terminated {a : List Byte} (hall : s.RecallsNothing a)
    (hterm : (s.loop a).Terminated) (b : List Byte) : s.BatchFree a b := by
  unfold BatchFree
  by_cases ha : a = []
  · subst ha
    rfl
  have hfirst : cliProcessInput s a = s.loop a := by
    rw [cliProcessInput, if_neg ha, terminate_of_terminated hterm]
  have hboth : cliProcessInput s (a ++ b) = ((s.loop a).loop b).terminate := by
    rw [cliProcessInput, if_neg (by simp [ha]), loop_append a b hall]
  rw [hfirst, hboth]
  by_cases hb : b = []
  · subst hb
    rw [cliProcessInput, if_pos rfl, Editor.loop, terminate_of_terminated hterm]
  · rw [cliProcessInput, if_neg hb]

/-- Behind a recalled entry a further ESC shows the difference. -/
theorem not_batchFree_of_recall (hinv : s.Inv) {a : List Byte} (h : ¬ s.RecallsNothing a) :
    ¬ s.BatchFree a [0x1b] := by
  intro hfree
  have ha : a ≠ [] := by
    rintro rfl
    exact h trivial
  have hesc : (s.loop a).escFlag = .none := esc_of_recall hinv a h
  have hone : cliProcessInput s (a ++ [0x1b]) = (s.loop a).terminate := by
    rw [cliProcessInput, if_neg (by simp), loop_append_of_recall a _ h]
  have htwo : (cliProcessInput (cliProcessInput s a) [0x1b]).escFlag = .esc := by
    rw [cliProcessInput, if_neg (by simp), cliProcessInput, if_neg ha]
    simp [Editor.loop, Editor.key, Editor.terminate, Editor.put, hesc]
  have heq := congrArg View.escFlag hfree
  rw [hone] at heq
  exact absurd (hesc.symm.trans (heq.trans htwo)) (by decide)

/-- The entry that is edited, once the line is terminated. -/
theorem entry_of_terminated (h : s.Inv) (hterm : s.Terminated) :
    s.entry s.cliHistoryIdx = s.cliHistory.load s.cliBuf s.cliBufLen :=
  cString_eq_load (lt_of_le_of_lt h.len_le (row_room h.idx_lt)) h.line_ne hterm

/-- The keys that complete an arrow up. -/
def arrowUp : EscFlag → List Byte
  | .none => [0x1b, 0x5b, 0x41]
  | .esc => [0x5b, 0x41]
  | .bracket => [0x41]

theorem loop_arrowUp (s : Editor) :
    s.loop (arrowUp s.escFlag) = { s with escFlag := .none }.cliHistoryPopup := by
  obtain ⟨history, idx, len, flag, commands⟩ := s
  cases flag <;> simp [arrowUp, Editor.loop, Editor.key]

/-- When stale text follows the edit line, an arrow up leaves it in the history. -/
theorem not_batchFree_of_not_terminated (hinv : s.Inv) (hs : s.Terminated) {a : List Byte}
    (hall : s.RecallsNothing a) (hterm : ¬ (s.loop a).Terminated) :
    ¬ s.BatchFree a (arrowUp (s.loop a).escFlag) := by
  intro hfree
  have ha : a ≠ [] := by
    rintro rfl
    exact hterm hs
  have hup : arrowUp (s.loop a).escFlag ≠ [] := by
    cases (s.loop a).escFlag <;> simp [arrowUp]
  obtain ⟨u, hu⟩ : ∃ u, u = s.loop a := ⟨_, rfl⟩
  have huinv : u.Inv := hu ▸ hinv.loop a
  rw [← hu] at hup hterm
  -- in one batch the recall finds the line with the stale text, in two without
  have hone : (cliProcessInput s (a ++ arrowUp u.escFlag)).entry u.cliHistoryIdx =
      u.entry u.cliHistoryIdx := by
    rw [cliProcessInput, if_neg (by simp [ha]), loop_append a _ hall, ← hu, loop_arrowUp,
      terminate_of_terminated (huinv.esc .none).popup.2]
    rfl
  have htwo : (cliProcessInput (cliProcessInput s a) (arrowUp u.escFlag)).entry u.cliHistoryIdx =
      u.terminate.entry u.cliHistoryIdx := by
    rw [cliProcessInput, if_neg hup, cliProcessInput, if_neg ha, ← hu,
      show u.escFlag = u.terminate.escFlag from rfl, loop_arrowUp,
      terminate_of_terminated (huinv.terminate.1.esc .none).popup.2]
    rfl
  have hsame : u.entry u.cliHistoryIdx = u.terminate.entry u.cliHistoryIdx := by
    have hrows := List.map_inj_left.mp (congrArg View.history hfree) u.cliHistoryIdx
      (List.mem_range.mpr huinv.idx_lt)
    rw [← hu] at hrows
    rw [← hone, ← htwo]
    exact hrows
  apply hterm
  -- the two entries are of one length, so that the NUL is where the line ends
  have hlen : strlen u.cliHistory u.cliBuf (row cliHistorySize - u.cliBuf) = u.cliBufLen := by
    have hline := congrArg List.length (hsame.trans (entry_of_terminated huinv.terminate.1
      huinv.terminate.2))
    rw [Memory.length_load] at hline
    exact hline
  have hnul := (strlen_spec (row_room huinv.idx_lt) (huinv.row_end _ huinv.idx_lt)).2.1
  rw [Terminated, ← hlen]
  exact hnul

end Invariant

end Editor

/-- **Batching.**  After any batches, a further one may be cut off behind `a`, whatever keys
follow, if and only if no key of `a` recalls a history entry and `a` leaves a NUL behind the
edit line. -/
theorem batching_iff (batches : List (List Byte)) (a : List Byte) :
    (∀ b, (run cliProcessInput .init batches).BatchFree a b) ↔
      (run cliProcessInput .init batches).RecallsNothing a ∧
        ((run cliProcessInput .init batches).loop a).Terminated := by
  obtain ⟨hinv, hterm⟩ := Editor.inv_init.batches rfl batches
  constructor
  · intro hfree
    have hall : (run cliProcessInput .init batches).RecallsNothing a := by
      by_contra h
      exact Editor.not_batchFree_of_recall hinv h (hfree _)
    refine ⟨hall, ?_⟩
    by_contra h
    exact Editor.not_batchFree_of_not_terminated hinv hterm hall h (hfree _)
  · rintro ⟨hall, hend⟩ b
    exact Editor.batchFree_of_terminated hall hend b

/-- An arrow up and an `x` in one batch: the `x` is lost. -/
theorem batching_arrowUp : ¬ Editor.init.BatchFree [0x1b, 0x5b, 0x41] [0x78] := by
  unfold Editor.BatchFree
  decide +kernel

end Karnix.Cli
