import Karnix.Cli.ConsoleOutput

/-!
# The line editor in memory

`cli_process_input` once more, now with `cli_buf` as the pointer of its own that it is in `cli.c`,
with the copy of the line in `cli_tmp`, and with a record of the writes to `cli_history`.  It
follows the editor of the batches, and neither a write nor a copy leaves its bounds.

What the editor shows goes through `xprintf`, which gives the text to `printf` as a format.  A
percent sign in the line is taken for a conversion then, and `%n` stores where no argument
says.
-/

namespace Karnix.Cli

open Karnix.Library
open Printf (percent printf)

/-! ## Section 1: The line editor -/

/-- A line handed to `cli_process_command`: the bytes copied to `cli_tmp`, and `cli_buf_len`. -/
structure Executed where
  cliTmp : List Byte
  len : ℕ

/-- A write to `cli_history`: the slot that was the current one, and the place. -/
structure Write where
  slot : ℕ
  place : ℕ

/-- What the editor is built into: `DEBUG_CLI`, and the words that `command_list` has a command
for. -/
structure Shell where
  debugCli : Bool
  known : List Byte → Bool

/-- The variables of the editor, what it has executed and what it has written. -/
structure LineEditor where
  cliHistory : Memory Byte
  cliHistoryIdx : ℕ
  cliBuf : ℕ
  cliBufLen : ℕ
  escFlag : EscFlag
  executed : List Executed
  writes : List Write
  /-- The texts that `xprintf` has made, and given to `printf` as formats. -/
  printed : List (List Byte)

/-- A blank or a tab, at which `strtok` cuts a command line. -/
def isBlank (c : Byte) : Bool := c = 0x20 || c = 0x09

/-- `tolower`: a capital letter of ASCII as a small one, as the commands are compared. -/
def toLower (c : Byte) : Byte := if 0x41 ≤ c ∧ c ≤ 0x5a then c + 0x20 else c

/-- The first word of a command line, in small letters. -/
def firstWord (line : List Byte) : List Byte :=
  ((line.dropWhile isBlank).takeWhile (!isBlank ·)).map toLower

/-- `"Unknown command: "` -/
def unknownBegin : List Byte :=
  [0x55, 0x6e, 0x6b, 0x6e, 0x6f, 0x77, 0x6e, 0x20, 0x63, 0x6f, 0x6d, 0x6d, 0x61, 0x6e, 0x64, 0x3a,
    0x20]

/-- `"argn is 0!"` -/
def argnText : List Byte := [0x61, 0x72, 0x67, 0x6e, 0x20, 0x69, 0x73, 0x20, 0x30, 0x21]

/-- `"\r\n"` -/
def newLine : List Byte := [0x0d, 0x0a]

/-- `"\033[2K"` -/
def eraseLine : List Byte := [0x1b, 0x5b, 0x32, 0x4b]

/-- `"\033[2J"` and `"\033[H"` -/
def eraseScreen : List (List Byte) := [[0x1b, 0x5b, 0x32, 0x4a], [0x1b, 0x5b, 0x48]]

/-- What `cli_process_command` itself shows for a line; the commands are not looked into. -/
def processCommand (sh : Shell) (line : List Byte) : List (List Byte) :=
  newLine ::
    if firstWord line = [] then if sh.debugCli then [argnText ++ newLine] else []
    else if sh.known (firstWord line) then []
    else [unknownBegin ++ firstWord line ++ newLine]

namespace LineEditor

/-- The text is given to `xprintf`. -/
def print (s : LineEditor) (texts : List (List Byte)) : LineEditor :=
  { s with printed := s.printed ++ texts }

/-- `cli_buf[i] = c` -/
def put (s : LineEditor) (i : ℕ) (c : Byte) : LineEditor :=
  { s with
    cliHistory := s.cliHistory.store (s.cliBuf + i) [c]
    writes := s.writes ++ [⟨s.cliHistoryIdx, s.cliBuf + i⟩] }

/-- `cli_buf = cli_history[cli_history_idx]` -/
def select (s : LineEditor) : LineEditor := { s with cliBuf := row s.cliHistoryIdx }

/-- `cli_buf_len = strlen(cli_buf)` -/
def measure (s : LineEditor) : LineEditor :=
  { s with cliBufLen := strlen s.cliHistory s.cliBuf (row cliHistorySize - s.cliBuf) }

/-- `cli_history_popup`: the entry before, or the last one behind the first. -/
def cliHistoryPopup (s : LineEditor) : LineEditor :=
  { s with
    cliHistoryIdx :=
      if s.cliHistoryIdx = 0 then cliHistorySize - 1 else s.cliHistoryIdx - 1 }.select.measure

/-- `cli_history_popdown`: the entry behind, round and round. -/
def cliHistoryPopdown (s : LineEditor) : LineEditor :=
  { s with cliHistoryIdx := (s.cliHistoryIdx + 1) % cliHistorySize }.select.measure

/-- `cli_history_push`: the next entry is the edit line, and its first byte is set to 0. -/
def cliHistoryPush (s : LineEditor) : LineEditor :=
  { { s with cliHistoryIdx := (s.cliHistoryIdx + 1) % cliHistorySize }.select.put 0 0 with
    cliBufLen := 0 }

/-- Enter on a line that is not empty. -/
def enter (sh : Shell) (s : LineEditor) : LineEditor :=
  let s := s.put s.cliBufLen 0
  -- `memcpy(cli_tmp, cli_buf, cli_buf_len+1)`
  let cliTmp := s.cliHistory.load s.cliBuf (s.cliBufLen + 1)
  ({ s with executed := s.executed ++ [Executed.mk cliTmp s.cliBufLen] }.print
    (processCommand sh (cliTmp.takeWhile (· ≠ 0)))).cliHistoryPush

/-- One pass of the loop of `cli_process_input`, and whether it jumps behind the loop. -/
def key (sh : Shell) (s : LineEditor) (c : Byte) : LineEditor × Bool :=
  match s.escFlag with
  | .esc => ({ s with escFlag := if c = 0x5b then .bracket else .none }, false)
  | .bracket =>
    let s := { s with escFlag := .none }
    if c = 0x41 then (s.cliHistoryPopup.print [eraseLine], true)
    else if c = 0x42 then (s.cliHistoryPopdown.print [eraseLine], true)
    else (s, false)
  | .none =>
    if c = 0x07 then (s.print [[c]], false)
    else if c = 0x08 then
      if s.cliBufLen = 0 then (s, false)
      else
        (({ s with cliBufLen := s.cliBufLen - 1 }.print [[c, 0x20, c]]).put (s.cliBufLen - 1) 0,
          false)
    else if c = 0x0a ∨ c = 0x0d then
      if s.cliBufLen = 0 then (s.cliHistoryPopup.print [eraseLine], true) else (s.enter sh, false)
    else if c = 0x1b then ({ s with escFlag := .esc }, false)
    else if c = 0x15 ∨ c = 0x0c then
      ({ s with cliBufLen := 0 }.print (if c = 0x15 then [eraseLine] else eraseScreen), false)
    else if s.cliBufLen ≥ cliBufSize then (s, false)
    else if 0x20 ≤ c ∧ c < 0x7f then
      ({ s.put s.cliBufLen c with cliBufLen := s.cliBufLen + 1 }, false)
    else (s, false)

/-- The loop of `cli_process_input`. -/
def loop (sh : Shell) (s : LineEditor) : List Byte → LineEditor
  | [] => s
  | c :: cs => if (s.key sh c).2 then (s.key sh c).1 else loop sh (s.key sh c).1 cs

/-- The string that `cli_buf` points to. -/
def line (s : LineEditor) : List Byte :=
  cString s.cliHistory s.cliBuf (row cliHistorySize - s.cliBuf)

/-- A call of `cli_process_input`. -/
structure Batch where
  buf : List Byte
  /-- `current_address` when the prompt is shown; a command may have changed it. -/
  currentAddress : BitVec 32

/-- `cli_process_input`: all characters of a batch, the NUL behind the line, and the prompt with
it. -/
def processInput (sh : Shell) (s : LineEditor) (b : Batch) : LineEditor :=
  if b.buf = [] then s
  else
    let s := (s.loop sh b.buf).put (s.loop sh b.buf).cliBufLen 0
    -- `cli_prompt`
    s.print [promptText b.currentAddress s.line]

/-- The editor after start-up: zeros in all lines, and the first one is edited. -/
def init : LineEditor := ⟨fun _ => 0, 0, row 0, 0, .none, [], [], []⟩

/-! ## Section 2: The editor of the batches -/

/-- What the editor of the batches has of it. -/
def toEditor (s : LineEditor) : Editor where
  cliHistory := s.cliHistory
  cliHistoryIdx := s.cliHistoryIdx
  cliBufLen := s.cliBufLen
  escFlag := s.escFlag
  commands := s.executed.map fun cmd => cmd.cliTmp.take cmd.len

/-- `cli_buf` points to the slot with the index. -/
def Points (s : LineEditor) : Prop := s.cliBuf = row s.cliHistoryIdx

section Simulation

variable (sh : Shell) {s : LineEditor}

theorem toEditor_put (h : s.Points) (i : ℕ) (c : Byte) :
    (s.put i c).toEditor = s.toEditor.put i c := by
  rw [put, h]
  rfl

theorem toEditor_enter (h : s.Points) : (s.enter sh).toEditor = s.toEditor.enter := by
  have htake : ∀ (m : Memory Byte) (a n : ℕ), (m.load a (n + 1)).take n = m.load a n :=
    fun m a n => Memory.take_load m a (n + 1) n (Nat.le_succ n)
  obtain ⟨history, idx, buf, len, flag, executed, writes, printed⟩ := s
  obtain rfl : buf = row idx := h
  simp only [enter, put, print, cliHistoryPush, select, toEditor, List.map_append,
    List.map_singleton, htake]
  rfl

/-- What a key leaves of the two editors agrees, and so does whether it jumps. -/
structure Agree (p : LineEditor × Bool) (q : Editor × Bool) : Prop where
  editor : p.1.toEditor = q.1
  jump : p.2 = q.2
  points : p.1.Points

theorem agree_ite {φ : Prop} [Decidable φ] {p p' : LineEditor × Bool} {q q' : Editor × Bool}
    (h : φ → Agree p q) (h' : ¬ φ → Agree p' q') :
    Agree (if φ then p else p') (if φ then q else q') := by
  by_cases hφ : φ
  · rw [if_pos hφ, if_pos hφ]
    exact h hφ
  · rw [if_neg hφ, if_neg hφ]
    exact h' hφ

/-- **Step lemma.**  A key does the same in both. -/
theorem agree_key (h : s.Points) (c : Byte) : Agree (s.key sh c) (s.toEditor.key c) := by
  have henter := toEditor_enter sh h
  obtain ⟨history, idx, buf, len, flag, executed, writes, printed⟩ := s
  obtain rfl : buf = row idx := h
  -- the cases of `key`, in their order
  cases flag with
  | esc => exact ⟨rfl, rfl, rfl⟩
  | bracket =>
    refine agree_ite (fun _ => ⟨rfl, rfl, rfl⟩) fun _ => ?_
    exact agree_ite (fun _ => ⟨rfl, rfl, rfl⟩) fun _ => ⟨rfl, rfl, rfl⟩
  | none =>
    refine agree_ite (fun _ => ⟨rfl, rfl, rfl⟩) fun _ => ?_
    refine agree_ite (fun _ => ?_) fun _ => ?_
    · exact agree_ite (fun _ => ⟨rfl, rfl, rfl⟩) fun _ => ⟨rfl, rfl, rfl⟩
    refine agree_ite (fun _ => ?_) fun _ => ?_
    · exact agree_ite (fun _ => ⟨rfl, rfl, rfl⟩) fun _ => ⟨henter, rfl, rfl⟩
    refine agree_ite (fun _ => ⟨rfl, rfl, rfl⟩) fun _ => ?_
    refine agree_ite (fun _ => ⟨rfl, rfl, rfl⟩) fun _ => ?_
    refine agree_ite (fun _ => ⟨rfl, rfl, rfl⟩) fun _ => ?_
    exact agree_ite (fun _ => ⟨rfl, rfl, rfl⟩) fun _ => ⟨rfl, rfl, rfl⟩

/-- **Run lemma.**  A batch does the same in both. -/
theorem toEditor_loop (h : s.Points) (cs : List Byte) :
    (s.loop sh cs).toEditor = s.toEditor.loop cs ∧ (s.loop sh cs).Points := by
  induction cs generalizing s with
  | nil => exact ⟨rfl, h⟩
  | cons c cs ih =>
    obtain ⟨hkey, hjump, hpoints⟩ := agree_key sh h c
    unfold loop Editor.loop
    rw [hjump]
    split
    · exact ⟨hkey, hpoints⟩
    · rw [← hkey]
      exact ih hpoints

theorem toEditor_processInput (h : s.Points) (b : Batch) :
    (s.processInput sh b).toEditor = cliProcessInput s.toEditor b.buf ∧
      (s.processInput sh b).Points := by
  obtain ⟨hloop, hpoints⟩ := toEditor_loop sh h b.buf
  unfold processInput cliProcessInput
  split
  · exact ⟨rfl, h⟩
  · refine ⟨?_, hpoints⟩
    rw [Editor.terminate, ← hloop]
    exact toEditor_put hpoints _ _

end Simulation

/-! ## Section 3: Bounds -/

/-- The write is inside the slot that was the current one. -/
def Inside (w : Write) : Prop :=
  w.slot < cliHistorySize ∧ row w.slot ≤ w.place ∧ w.place ≤ row w.slot + cliBufSize

/-- `cli_tmp` has room for the copy, which is as many printable characters as are announced, and a
NUL. -/
def Fits (cmd : Executed) : Prop :=
  cmd.cliTmp.length ≤ cliBufSize + 1 ∧
    ∃ line, cmd.cliTmp = line ++ [0] ∧ line.length = cmd.len ∧ ∀ c ∈ line, IsVisual c

/-- The key is taken into the line. -/
def Types (s : LineEditor) (c : Byte) : Prop :=
  s.escFlag = .none ∧ s.cliBufLen < cliBufSize ∧ IsVisual c

instance (s : LineEditor) (c : Byte) : Decidable (s.Types c) := inferInstanceAs (Decidable (_ ∧ _))

/-- No percent sign is taken into the line. -/
def TypesNoPercent (sh : Shell) : LineEditor → List Byte → Prop
  | _, [] => True
  | s, c :: cs =>
    (s.Types c → c ≠ percent) ∧ ((s.key sh c).2 = false → TypesNoPercent sh (s.key sh c).1 cs)

instance TypesNoPercent.decidable (sh : Shell) :
    ∀ (s : LineEditor) (cs : List Byte), Decidable (TypesNoPercent sh s cs)
  | _, [] => isTrue trivial
  | s, c :: cs =>
    have := TypesNoPercent.decidable sh (s.key sh c).1 cs
    inferInstanceAs (Decidable (_ ∧ (_ → _)))

/-- A visual character that `printf` prints as it is. -/
def Harmless (c : Byte) : Prop := IsVisual c ∧ c ≠ percent

/-- What has been written, executed and printed, and the text in all the slots. -/
structure Recorded (s : LineEditor) : Prop where
  text : ∀ k, s.cliHistory k = 0 ∨ Harmless (s.cliHistory k)
  writes : ∀ w ∈ s.writes, Inside w
  executed : ∀ cmd ∈ s.executed, Fits cmd
  printed : ∀ text ∈ s.printed, percent ∉ text

/-- The invariant of the line editor. -/
structure Safe (s : LineEditor) : Prop where
  points : s.Points
  editor : s.toEditor.Inv
  recorded : s.Recorded

section Printed

/-- The first word has no percent sign, unless the line has one. -/
theorem percent_notMem_firstWord {line : List Byte} (h : percent ∉ line) :
    percent ∉ firstWord line := by
  have hlower : ∀ c : Byte, toLower c = percent → c = percent := by decide
  intro hmem
  obtain ⟨c, hc, hpercent⟩ := List.mem_map.1 hmem
  refine h (hlower c hpercent ▸ ?_)
  exact (List.dropWhile_suffix _).subset ((List.takeWhile_prefix _).subset hc)

theorem processCommand_printed (sh : Shell) {line : List Byte} (h : percent ∉ line) :
    ∀ text ∈ processCommand sh line, percent ∉ text := by
  have hword := percent_notMem_firstWord h
  have hbegin : percent ∉ unknownBegin := by decide
  have hnewLine : percent ∉ newLine := by decide
  unfold processCommand
  rw [List.forall_mem_cons]
  refine ⟨hnewLine, ?_⟩
  split_ifs
  · exact List.forall_mem_singleton.2 (by decide)
  · exact List.forall_mem_nil _
  · exact List.forall_mem_nil _
  · rw [List.forall_mem_singleton]
    simp only [List.mem_append, not_or]
    exact ⟨⟨hbegin, hword⟩, hnewLine⟩

theorem Recorded.print {s : LineEditor} (h : s.Recorded) {texts : List (List Byte)}
    (htexts : ∀ text ∈ texts, percent ∉ text) : (s.print texts).Recorded := by
  refine ⟨h.text, h.writes, h.executed, fun text htext => ?_⟩
  rcases List.mem_append.1 htext with hold | hnew
  · exact h.printed text hold
  · exact htexts text hnew

/-- What `cli_buf` points to has no percent sign. -/
theorem Recorded.percent_notMem_line {s : LineEditor} (h : s.Recorded) : percent ∉ s.line := by
  intro hmem
  obtain ⟨k, -, hk⟩ := List.mem_map.1 ((List.takeWhile_prefix _).subset hmem)
  rcases h.text _ with hzero | hharmless
  · rw [hk] at hzero
    cases hzero
  · exact hharmless.2 hk

end Printed

section Invariant

variable (sh : Shell) {s : LineEditor}

theorem Recorded.put (h : s.Recorded) (hpoints : s.Points) (hidx : s.cliHistoryIdx < cliHistorySize)
    {i : ℕ} (hi : i ≤ cliBufSize) {c : Byte} (hc : c = 0 ∨ Harmless c) : (s.put i c).Recorded := by
  refine ⟨fun k => ?_, fun w hw => ?_, h.executed, h.printed⟩
  · have hcell : (s.put i c).cliHistory k = if k = s.cliBuf + i then c else s.cliHistory k :=
      Memory.store_singleton _ _ _ _
    rw [hcell]
    split
    · exact hc
    · exact h.text k
  · rcases List.mem_append.1 hw with hold | hnew
    · exact h.writes w hold
    · obtain rfl := List.mem_singleton.1 hnew
      rw [hpoints]
      exact ⟨hidx, Nat.le_add_right _ _, Nat.add_le_add_left hi _⟩

/-- The line that Enter copies, with its NUL. -/
theorem enter_line (h : s.Safe) :
    ∃ line, (s.put s.cliBufLen 0).cliHistory.load s.cliBuf (s.cliBufLen + 1) = line ++ [0] ∧
      line.length = s.cliBufLen ∧ ∀ c ∈ line, Harmless c := by
  refine ⟨s.cliHistory.load s.cliBuf s.cliBufLen, ?_, Memory.length_load _ _ _, ?_⟩
  · have hlast := Memory.load_store_self s.cliHistory (s.cliBuf + s.cliBufLen) [0]
    rw [Memory.load_add]
    show (s.cliHistory.store (s.cliBuf + s.cliBufLen) [0]).load s.cliBuf s.cliBufLen ++ _ = _
    rw [Memory.load_store_of_disjoint _ _ (Or.inl (Nat.le_refl _))]
    exact congrArg _ hlast
  · intro c hc
    obtain ⟨k, hk, rfl⟩ := List.mem_map.1 hc
    -- inside the line there is no NUL
    have hne := h.editor.line_ne k (List.mem_range.1 hk)
    have hbuf : s.toEditor.cliBuf = s.cliBuf := h.points.symm
    rw [hbuf] at hne
    exact (h.recorded.text _).resolve_left hne

/-- The copy of the line fits, and `cli_process_command` prints nothing of it that `printf`
would take for a conversion. -/
theorem fits_enter (h : s.Safe) :
    Fits ⟨(s.put s.cliBufLen 0).cliHistory.load s.cliBuf (s.cliBufLen + 1), s.cliBufLen⟩ ∧
      percent ∉ ((s.put s.cliBufLen 0).cliHistory.load s.cliBuf (s.cliBufLen + 1)).takeWhile
        (· ≠ 0) := by
  have hlen : s.cliBufLen ≤ cliBufSize := h.editor.len_le
  obtain ⟨line, htmp, hline, hharmless⟩ := enter_line h
  refine ⟨⟨?_, line, htmp, hline, fun c hc => (hharmless c hc).1⟩, fun hmem => ?_⟩
  · rw [Memory.length_load]
    exact Nat.succ_le_succ hlen
  · have hin := (List.takeWhile_prefix _).subset hmem
    rw [htmp, List.mem_append, List.mem_singleton] at hin
    rcases hin with hin | hzero
    · exact (hharmless percent hin).2 rfl
    · cases hzero

theorem Recorded.enter (h : s.Safe) : (s.enter sh).Recorded := by
  have hnul := h.recorded.put h.points h.editor.idx_lt h.editor.len_le (Or.inl rfl)
  have hnext : (s.cliHistoryIdx + 1) % cliHistorySize < cliHistorySize := Nat.mod_lt _ (by decide)
  obtain ⟨hfits, hpercent⟩ := fits_enter h
  -- the command is noted, and the next slot selected
  have hnoted : ({ s.put s.cliBufLen 0 with
      executed := s.executed ++
        [⟨(s.put s.cliBufLen 0).cliHistory.load s.cliBuf (s.cliBufLen + 1), s.cliBufLen⟩]
      cliHistoryIdx := (s.cliHistoryIdx + 1) % cliHistorySize
      cliBuf := row ((s.cliHistoryIdx + 1) % cliHistorySize) } : LineEditor).Recorded := by
    refine ⟨hnul.text, hnul.writes, fun cmd hcmd => ?_, hnul.printed⟩
    rcases List.mem_append.1 hcmd with hold | hnew
    · exact h.recorded.executed cmd hold
    · obtain rfl := List.mem_singleton.1 hnew
      exact hfits
  have hprint := hnoted.print (processCommand_printed sh hpercent)
  have hput := hprint.put rfl hnext (Nat.zero_le _) (Or.inl rfl)
  exact ⟨hput.text, hput.writes, hput.executed, hput.printed⟩

/-- **Step lemma.**  A key keeps within the bounds, if it does not put a percent sign into the
line. -/
theorem Recorded.key (h : s.Safe) {c : Byte} (hc : s.Types c → c ≠ percent) :
    (s.key sh c).1.Recorded := by
  have hkeep := h.recorded
  have hidx : s.cliHistoryIdx < cliHistorySize := h.editor.idx_lt
  have herase : ∀ text ∈ [eraseLine], percent ∉ text := by decide
  -- the cases of `key`, in their order
  unfold LineEditor.key
  cases hesc : s.escFlag with
  | esc => exact ⟨hkeep.text, hkeep.writes, hkeep.executed, hkeep.printed⟩
  | bracket =>
    have hshown := hkeep.print herase
    dsimp only
    split_ifs
    · exact ⟨hshown.text, hshown.writes, hshown.executed, hshown.printed⟩
    · exact ⟨hshown.text, hshown.writes, hshown.executed, hshown.printed⟩
    · exact ⟨hkeep.text, hkeep.writes, hkeep.executed, hkeep.printed⟩
  | none =>
    dsimp only
    split_ifs with hbell hback hempty henter hempty hescape hkill hctrlU hfull hvisual
    · subst hbell
      exact hkeep.print (by decide)
    · exact hkeep
    · subst hback
      have hlen : s.cliBufLen - 1 ≤ cliBufSize := Nat.le_trans (Nat.sub_le _ _) h.editor.len_le
      have hshown := @Recorded.print _ hkeep [[0x08, 0x20, 0x08]] (by decide)
      have hput := hshown.put h.points hidx hlen (Or.inl rfl)
      exact ⟨hput.text, hput.writes, hput.executed, hput.printed⟩
    · have hshown := hkeep.print herase
      exact ⟨hshown.text, hshown.writes, hshown.executed, hshown.printed⟩
    · exact Recorded.enter sh h
    · exact ⟨hkeep.text, hkeep.writes, hkeep.executed, hkeep.printed⟩
    · have hshown := hkeep.print herase
      exact ⟨hshown.text, hshown.writes, hshown.executed, hshown.printed⟩
    · have hshown := @Recorded.print _ hkeep eraseScreen (by decide)
      exact ⟨hshown.text, hshown.writes, hshown.executed, hshown.printed⟩
    · exact hkeep
    · have hne := hc ⟨hesc, Nat.lt_of_not_le hfull, hvisual⟩
      have hput := hkeep.put h.points hidx (Nat.le_of_not_le hfull) (Or.inr ⟨hvisual, hne⟩)
      exact ⟨hput.text, hput.writes, hput.executed, hput.printed⟩
    · exact hkeep

theorem Safe.key (h : s.Safe) {c : Byte} (hc : s.Types c → c ≠ percent) :
    (s.key sh c).1.Safe := by
  have hagree := agree_key sh h.points c
  refine ⟨hagree.points, ?_, Recorded.key sh h hc⟩
  rw [hagree.editor]
  exact (h.editor.key c).1

theorem Safe.loop (h : s.Safe) {cs : List Byte} (hcs : TypesNoPercent sh s cs) :
    (s.loop sh cs).Safe := by
  induction cs generalizing s with
  | nil => exact h
  | cons c cs ih =>
    unfold LineEditor.loop
    split
    · exact h.key sh hcs.1
    · rename_i hjump
      exact ih (h.key sh hcs.1) (hcs.2 (by simpa using hjump))

/-- **Step lemma.**  A batch keeps within the bounds. -/
theorem Safe.processInput (h : s.Safe) {b : Batch} (hb : TypesNoPercent sh s b.buf) :
    (s.processInput sh b).Safe := by
  have hloop := h.loop sh hb
  have hpoints := (toEditor_processInput sh h.points b).2
  unfold LineEditor.processInput at hpoints ⊢
  split
  · exact h
  · have hput := hloop.recorded.put hloop.points hloop.editor.idx_lt hloop.editor.len_le
      (Or.inl rfl)
    refine ⟨hloop.points, ?_, hput.print (List.forall_mem_singleton.2 ?_)⟩
    · have heditor := hloop.editor.terminate.1
      rw [Editor.terminate, ← toEditor_put hloop.points] at heditor
      exact heditor
    · rw [percent_notMem_prompt]
      exact hput.percent_notMem_line

end Invariant

theorem safe_init : init.Safe where
  points := rfl
  editor := Editor.inv_init
  recorded := ⟨fun _ => Or.inl rfl, List.forall_mem_nil _, List.forall_mem_nil _,
    List.forall_mem_nil _⟩

/-- **Run lemma.**  So do all batches. -/
theorem safe_run (sh : Shell) {batches : List Batch}
    (h : RunMeets (processInput sh) (fun s b => TypesNoPercent sh s b.buf) init batches) :
    (Library.run (processInput sh) init batches).Safe :=
  h.invariant Safe (fun _ _ hs hb => hs.processInput sh hb) safe_init

/-- What is promised of a state of the editor. -/
structure Bounded (s : LineEditor) : Prop where
  idx_lt : s.cliHistoryIdx < cliHistorySize
  points : s.cliBuf = row s.cliHistoryIdx
  len_le : s.cliBufLen ≤ cliBufSize
  /-- Every slot has a NUL among its bytes. -/
  nul : ∀ slot < cliHistorySize, ∃ k ≤ cliBufSize, s.cliHistory (row slot + k) = 0
  writes : ∀ w ∈ s.writes, Inside w
  executed : ∀ cmd ∈ s.executed, Fits cmd
  /-- `printf` takes nothing for an argument, through which it could store. -/
  prints : ∀ text ∈ s.printed, (printf text []).fault = none

theorem Safe.bounded {s : LineEditor} (h : s.Safe) : s.Bounded where
  idx_lt := h.editor.idx_lt
  points := h.points
  len_le := h.editor.len_le
  nul slot hslot := ⟨cliBufSize, Nat.le_refl _, h.editor.row_end slot hslot⟩
  writes := h.recorded.writes
  executed := h.recorded.executed
  prints text htext := by rw [Printf.printf_of_notMem (h.recorded.printed text htext)]

/-- **The line editor keeps within its bounds.**  So it does behind any batches, and inside the
loop over a further one behind any of its keys, as long as no percent sign is taken into a
line. -/
theorem bounded_loop (sh : Shell) (batches : List Batch) (cs : List Byte)
    (hrun : RunMeets (processInput sh) (fun s b => TypesNoPercent sh s b.buf) init batches)
    (hcs : TypesNoPercent sh (Library.run (processInput sh) init batches) cs) :
    (Library.run (processInput sh) init batches).Bounded ∧
      ((Library.run (processInput sh) init batches).loop sh cs).Bounded :=
  ⟨(safe_run sh hrun).bounded, ((safe_run sh hrun).loop sh hcs).bounded⟩

/-- A shell that knows no command. -/
def bareShell : Shell := ⟨false, fun _ => false⟩

/-- `a`, Enter, arrow up and `b`. -/
theorem bounded_loop_recall :
    (Library.run (processInput bareShell) init
        [⟨[0x61, 0x0d], 0x80000000⟩, ⟨[0x1b, 0x5b, 0x41], 0x80000000⟩]).Bounded ∧
      ((Library.run (processInput bareShell) init
        [⟨[0x61, 0x0d], 0x80000000⟩, ⟨[0x1b, 0x5b, 0x41], 0x80000000⟩]).loop bareShell
          [0x62]).Bounded :=
  bounded_loop bareShell [⟨[0x61, 0x0d], 0x80000000⟩, ⟨[0x1b, 0x5b, 0x41], 0x80000000⟩] [0x62]
    (by decide +kernel) (by decide +kernel)

/-- A percent sign and an `n` make the prompt store through an argument that it does not have. -/
theorem not_bounded_percent :
    ¬ (Library.run (processInput bareShell) init [⟨[percent, 0x6e], 0x80000000⟩]).Bounded := by
  intro h
  have hprints := h.prints (promptText 0x80000000 [percent, 0x6e]) (by decide +kernel)
  have hprompt : promptText 0x80000000 [percent, 0x6e] =
      (promptBegin ++ Printf.address 0x80000000 ++ promptEnd) ++ [percent, 0x6e] := rfl
  have hbefore : percent ∉ promptBegin ++ Printf.address 0x80000000 ++ promptEnd := by
    decide +kernel
  rw [hprompt, Printf.printf_append hbefore, Printf.printf] at hprints
  exact absurd hprints (by decide +kernel)

end LineEditor

end Karnix.Cli
