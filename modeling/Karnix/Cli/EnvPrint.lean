import Karnix.Cli.ConsoleOutput
import Mathlib.Logic.Function.Iterate

/-!
# The walk through the environment

`env print` of `cli_env.c`.  The environment is a region of the flash memory with records one
behind the other: the lengths of a name and of a value, the name and the value.  The command
steps over the records by their lengths, but prints names and values as strings that end with a
zero byte.  Addresses are counted from `ENV_MEM_ADDRESS` on.

Of `xprintf` only the output on the UART is followed here; what the same text does on the screen
is said in `ConsoleOutput`.
-/

namespace Karnix.Cli

open Karnix.Library
open Printf (percent printf)

/-! ## Section 1: The code -/

/-- `ENV_MEM_SIZE`: the bytes of flash that hold the variables. -/
def envMemSize : ℕ := 0x10000

/-- `"ENV: "` -/
def envBegin : List Byte := [0x45, 0x4e, 0x56, 0x3a, 0x20]

/-- `" = "` -/
def envBetween : List Byte := [0x20, 0x3d, 0x20]

/-- `"\r\n"` -/
def envEnd : List Byte := [0x0d, 0x0a]

/-- `"ENV: %s = %s\r\n"` -/
def envFormat : CString :=
  ⟨envBegin ++ [percent, 0x73] ++ envBetween ++ [percent, 0x73] ++ envEnd, by decide⟩

/-- What `xprintf` sends to the UART. -/
def uartOutput (room : ℕ → Bool) (format : CString) (args : List FmtArg) : Printed :=
  match vasprintf room format args with
  | .error fault => ⟨[], some fault⟩
  | .ok none => ⟨[], none⟩
  | .ok (some text) => printf text.bytes []

/-- A call of `xprintf` for a record: the strings that it is given, and what is printed. -/
structure EnvLine where
  name : CString
  value : CString
  printed : Printed

/-- The string at address `a`, if it ends inside the region. -/
def strAt (env : Memory Byte) (a : ℕ) : Option CString :=
  let bytes := env.load a (envMemSize - a)
  if 0 ∈ bytes then some (CString.ofBytes bytes) else none

/-- What the message of a build with `DEBUG_CLI` tells: the pointer that lies behind the region. -/
inductive EnvMessage where
  | varName (a : ℕ)
  | varValue (a : ℕ)

/-- The command between two passes of its loop, or where it came to. -/
inductive EnvRun where
  /-- The pointer and the lines so far. -/
  | walking (p : ℕ) (lines : List EnvLine)
  /-- The loop has ended, possibly with a message behind the lines. -/
  | finished (lines : List EnvLine) (message : Option EnvMessage) (envCount : ℕ)
  /-- A byte outside the region was read. -/
  | outside

/-- A pass of the loop.  The makefile sets `DEBUG_CLI` for the build that runs from flash. -/
def EnvRun.step (debugCli : Bool) (room : ℕ → Bool) (env : Memory Byte) : EnvRun → EnvRun
  | .walking p lines =>
    -- nothing counts the variables
    if p ≥ envMemSize then .finished lines none 0
    else if p + 1 ≥ envMemSize then .outside
    else
      let nameLen := (env p).toNat
      let valueLen := (env (p + 1)).toNat
      if nameLen ≠ 0 then
        if nameLen = 255 then .finished lines none 0
        else if debugCli ∧ p + 2 ≥ envMemSize then .finished lines (some (.varName (p + 2))) 0
        else if debugCli ∧ p + 2 + nameLen ≥ envMemSize then
          .finished lines (some (.varValue (p + 2 + nameLen))) 0
        else
          match strAt env (p + 2), strAt env (p + 2 + nameLen) with
          | some name, some value =>
            let printed := uartOutput room envFormat [.str name, .str value]
            .walking (p + 2 + nameLen + valueLen) (lines ++ [⟨name, value, printed⟩])
          | _, _ => .outside
      else .walking p lines
  | .finished lines message envCount => .finished lines message envCount
  | .outside => .outside

/-- `cli_cmd_env` for `print`, after `n` passes. -/
def envPrint (debugCli : Bool) (room : ℕ → Bool) (env : Memory Byte) (n : ℕ) : EnvRun :=
  (EnvRun.step debugCli room env)^[n] (.walking 0 [])

/-! ## Section 2: What it is for -/

/-- The address behind the record at `p`. -/
def nextRecord (env : Memory Byte) (p : ℕ) : ℕ := p + 2 + (env p).toNat + (env (p + 1)).toNat

/-- The records from address `p` on, up to the first erased one or the end of the region; one
without a name is none. -/
def recordsFrom (env : Memory Byte) (p : ℕ) : List ℕ :=
  if p < envMemSize then
    if (env p).toNat = 255 then []
    else if (env p).toNat = 0 then recordsFrom env (nextRecord env p)
    else p :: recordsFrom env (nextRecord env p)
  else []
  termination_by envMemSize - p
  decreasing_by
  all_goals
    unfold nextRecord
    omega

/-- `"ENV: name = value\r\n"` -/
def envText (name value : CString) : List Byte :=
  envBegin ++ name.bytes ++ envBetween ++ value.bytes ++ envEnd

/-- The line of a record, from its own name and value bytes only. -/
def ownLine (env : Memory Byte) (p : ℕ) : EnvLine :=
  let name := CString.ofBytes (env.load (p + 2) (env p).toNat)
  let value := CString.ofBytes (env.load (p + 2 + (env p).toNat) (env (p + 1)).toNat)
  ⟨name, value, ⟨envText name value, none⟩⟩

/-- The command ends, has read nothing outside the region, and has printed the records and nothing
else. -/
def PrintsEnv (debugCli : Bool) (room : ℕ → Bool) (env : Memory Byte) : Prop :=
  ∃ n envCount, envPrint debugCli room env n =
    .finished ((recordsFrom env 0).map (ownLine env)) none envCount

/-! ## Section 3: The condition -/

/-- The header at `q` is met by stepping over records from `p` on. -/
inductive Met (env : Memory Byte) (p : ℕ) : ℕ → Prop where
  | start : Met env p p
  | next (q : ℕ) : Met env p q → q < envMemSize → (env q).toNat ≠ 255 →
      Met env p (nextRecord env q)

/-- A zero byte of the region is among the `n` bytes from address `a` on, or right behind. -/
def EndsWithin (env : Memory Byte) (a n : ℕ) : Prop :=
  ∃ i, i ≤ n ∧ a + i < envMemSize ∧ env (a + i) = 0

/-- The header at `p` lies in the region and is that of a record or erased, and the record can
be printed: name and value end with a zero byte, there is no percent sign in them, and the heap
has room for the line. -/
structure GoodRecord (room : ℕ → Bool) (env : Memory Byte) (p : ℕ) : Prop where
  inside : p + 1 < envMemSize
  named : (env p).toNat ≠ 0
  name : (env p).toNat ≠ 255 → EndsWithin env (p + 2) (env p).toNat
  value : (env p).toNat ≠ 255 →
    EndsWithin env (p + 2 + (env p).toNat) (env (p + 1)).toNat
  plain : (env p).toNat ≠ 255 → percent ∉ (ownLine env p).name.bytes ∧
    percent ∉ (ownLine env p).value.bytes
  fits : (env p).toNat ≠ 255 → room ((ownLine env p).printed.out.length + 1) = true

/-- Every header that is met is good. -/
def GoodEnv (room : ℕ → Bool) (env : Memory Byte) : Prop :=
  ∀ p, Met env 0 p → p < envMemSize → GoodRecord room env p

/-! ## Section 4: Strings -/

theorem eq_of_bytes {s t : CString} (h : s.bytes = t.bytes) : s = t := by
  cases s
  cases t
  cases h
  rfl

variable {debugCli : Bool} {room : ℕ → Bool} {env : Memory Byte}

/-- A string ends at the first zero byte. -/
theorem bytes_load {a i m : ℕ} (hbefore : ∀ j, j < i → env (a + j) ≠ 0) (hzero : env (a + i) = 0)
    (him : i ≤ m) : (CString.ofBytes (env.load a m)).bytes = env.load a i := by
  obtain ⟨d, rfl⟩ := Nat.exists_eq_add_of_le him
  have hall : ∀ b ∈ env.load a i, decide (b ≠ 0) = true := by
    intro b hb
    obtain ⟨j, hj, rfl⟩ := List.mem_map.mp hb
    exact decide_eq_true (hbefore j (List.mem_range.mp hj))
  rw [CString.ofBytes, Memory.load_add]
  simp only [List.takeWhile_append_of_pos hall]
  cases d with
  | zero => rw [Memory.load_zero, List.takeWhile_nil, List.append_nil]
  | succ d =>
    have hstop : ¬ decide (env (a + i) ≠ 0) = true := by
      rw [hzero]
      decide
    rw [Memory.load_succ, List.takeWhile_cons, if_neg hstop, List.append_nil]

/-- The first of the zero bytes of the region. -/
theorem exists_first {a i : ℕ} (hin : a + i < envMemSize) (hzero : env (a + i) = 0) :
    ∃ j, j ≤ i ∧ a + j < envMemSize ∧ env (a + j) = 0 ∧ ∀ k, k < j → env (a + k) ≠ 0 := by
  have hex : ∃ j, env (a + j) = 0 := ⟨i, hzero⟩
  have hle : Nat.find hex ≤ i := Nat.find_min' hex hzero
  exact ⟨Nat.find hex, hle, by omega, Nat.find_spec hex, fun k hk => Nat.find_min hex hk⟩

/-- What is printed of `n` bytes as a string is what these bytes are, exactly if they end in
time. -/
theorem strAt_iff {a n : ℕ} :
    strAt env a = some (CString.ofBytes (env.load a n)) ↔ EndsWithin env a n := by
  constructor
  · intro h
    have hmem : 0 ∈ env.load a (envMemSize - a) := by
      by_contra hnot
      simp only [strAt, if_neg hnot] at h
      cases h
    simp only [strAt, if_pos hmem] at h
    obtain ⟨i, hi, hzero⟩ := List.mem_map.mp hmem
    rw [List.mem_range] at hi
    obtain ⟨j, -, hj, hjzero, hbefore⟩ := exists_first (by omega) hzero
    have hwhole := bytes_load hbefore hjzero (m := envMemSize - a) (by omega)
    -- the string has as many bytes as stand before its end
    have hlen : (CString.ofBytes (env.load a n)).bytes.length = j := by
      rw [← Option.some.inj h, hwhole, Memory.length_load]
    refine ⟨j, ?_, hj, hjzero⟩
    calc j = (CString.ofBytes (env.load a n)).bytes.length := hlen.symm
      _ ≤ (env.load a n).length := (List.takeWhile_prefix _).length_le
      _ = n := Memory.length_load env a n
  · rintro ⟨i, hin, hi, hzero⟩
    obtain ⟨j, hji, hj, hjzero, hbefore⟩ := exists_first hi hzero
    have hmem : 0 ∈ env.load a (envMemSize - a) :=
      List.mem_map.mpr ⟨j, List.mem_range.mpr (by omega), hjzero⟩
    simp only [strAt, if_pos hmem]
    refine congrArg some (eq_of_bytes ?_)
    rw [bytes_load hbefore hjzero (by omega), bytes_load hbefore hjzero (by omega)]

/-! ## Section 5: One line -/

theorem printf_envFormat (name value : CString) :
    printf envFormat.bytes [.str name, .str value] = ⟨envText name value, none⟩ := by
  have hbegin : percent ∉ envBegin := by decide
  have hbetween : percent ∉ envBetween := by decide
  have hend : percent ∉ envEnd := by decide
  have hformat : envFormat.bytes =
      envBegin ++ percent :: 0x73 :: (envBetween ++ percent :: 0x73 :: envEnd) := rfl
  rw [hformat, Printf.printf_append hbegin, Printf.printf_str, Printf.printf_append hbetween,
    Printf.printf_str, Printf.printf_of_notMem hend]
  simp only [Printed.prepend, envText, List.append_assoc]

theorem uartOutput_env (name value : CString) :
    uartOutput room envFormat [.str name, .str value]
      = if room ((envText name value).length + 1) then printf (envText name value) []
        else ⟨[], none⟩ := by
  have hzero : (0 : Byte) ∉ envText name value := by
    simp only [envText, List.mem_append, not_or]
    exact ⟨⟨⟨⟨by decide, name.noZero⟩, by decide⟩, value.noZero⟩, by decide⟩
  have htext := CString.bytes_ofBytes hzero
  rw [uartOutput, vasprintf, printf_envFormat]
  simp only [htext]
  cases room ((envText name value).length + 1) with
  | false => rfl
  | true => exact congrArg (fun text => printf text []) htext

variable (room) in
/-- A line is printed as it is exactly if there is room for it and no percent sign in it. -/
theorem uartOutput_iff (name value : CString) :
    uartOutput room envFormat [.str name, .str value] = ⟨envText name value, none⟩
      ↔ room ((envText name value).length + 1) = true
        ∧ percent ∉ name.bytes ∧ percent ∉ value.bytes := by
  have htext : percent ∉ envText name value ↔ percent ∉ name.bytes ∧ percent ∉ value.bytes := by
    have hbegin : percent ∉ envBegin := by decide
    have hbetween : percent ∉ envBetween := by decide
    have hend : percent ∉ envEnd := by decide
    simp only [envText, List.mem_append, not_or]
    tauto
  rw [uartOutput_env]
  cases hroom : room ((envText name value).length + 1) with
  | false =>
    -- a line is never empty
    simp only [Bool.false_eq_true, if_false, false_and, iff_false]
    intro h
    have hlen := congrArg (fun r : Printed => r.out.length) h
    simp only [envText, envBegin, List.length_append, List.length_cons, List.length_nil] at hlen
    omega
  | true =>
    simp only [if_true, true_and]
    exact (Printf.printf_nil_iff _).trans htext

/-- The call of `xprintf` for the record at `p`, if the strings end inside the region. -/
def lineAt (room : ℕ → Bool) (env : Memory Byte) (p : ℕ) : Option EnvLine :=
  match strAt env (p + 2), strAt env (p + 2 + (env p).toNat) with
  | some name, some value => some ⟨name, value, uartOutput room envFormat [.str name, .str value]⟩
  | _, _ => none

/-- The line of a record is printed from its own bytes exactly if the record is good. -/
theorem lineAt_iff {p : ℕ} (hin : p + 1 < envMemSize) (hnamed : (env p).toNat ≠ 0)
    (herased : (env p).toNat ≠ 255) :
    lineAt room env p = some (ownLine env p) ↔ GoodRecord room env p := by
  constructor
  · intro h
    rw [lineAt] at h
    split at h
    · rename_i name value hname hvalue
      have hline := Option.some.inj h
      have hname' : name = (ownLine env p).name := congrArg EnvLine.name hline
      have hvalue' : value = (ownLine env p).value := congrArg EnvLine.value hline
      have hprinted := congrArg EnvLine.printed hline
      subst hname' hvalue'
      obtain ⟨hroom, hplain⟩ := (uartOutput_iff room _ _).mp hprinted
      exact ⟨hin, hnamed, fun _ => strAt_iff.mp hname, fun _ => strAt_iff.mp hvalue,
        fun _ => hplain, fun _ => hroom⟩
    · cases h
  · intro h
    have hprinted := (uartOutput_iff room _ _).mpr ⟨h.fits herased, h.plain herased⟩
    rw [lineAt, strAt_iff.mpr (h.name herased), strAt_iff.mpr (h.value herased)]
    refine congrArg some ?_
    rw [ownLine]
    exact congrArg _ hprinted

/-! ## Section 6: The walk -/

/-- The lines of `before` were printed first. -/
def EnvRun.Began (before : List EnvLine) : EnvRun → Prop
  | .walking _ lines => before <+: lines
  | .finished lines .. => before <+: lines
  | .outside => True

/-- **Step lemma.**  What was printed stays printed. -/
theorem began_step {before : List EnvLine} {s : EnvRun} (h : s.Began before) :
    (s.step debugCli room env).Began before := by
  cases s with
  | outside => trivial
  | finished lines message envCount => exact h
  | walking p lines =>
    simp only [EnvRun.step]
    split_ifs
    · exact h
    · trivial
    · exact h
    · exact h
    · exact h
    · split
      · exact h.trans (List.prefix_append _ _)
      · trivial
    · exact h

variable (debugCli room env) in
theorem began_iterate {before : List EnvLine} {s : EnvRun} (h : s.Began before) (n : ℕ) :
    ((EnvRun.step debugCli room env)^[n] s).Began before := by
  induction n generalizing s with
  | zero => exact h
  | succ n ih => exact ih (began_step h)

/-- The run from `s` ends with exactly these lines. -/
def EndsWith (debugCli : Bool) (room : ℕ → Bool) (env : Memory Byte) (s : EnvRun)
    (lines : List EnvLine) : Prop :=
  ∃ n envCount, (EnvRun.step debugCli room env)^[n] s = .finished lines none envCount

theorem endsWith_finished {lines lines' : List EnvLine} {message : Option EnvMessage}
    {envCount : ℕ} : EndsWith debugCli room env (.finished lines message envCount) lines' ↔
      lines = lines' ∧ message = none := by
  have hstay : ∀ n, (EnvRun.step debugCli room env)^[n] (.finished lines message envCount)
      = .finished lines message envCount := fun n => Function.iterate_fixed rfl n
  constructor
  · rintro ⟨n, c, h⟩
    rw [hstay] at h
    cases h
    exact ⟨rfl, rfl⟩
  · rintro ⟨rfl, rfl⟩
    exact ⟨0, envCount, rfl⟩

theorem not_endsWith_outside {lines : List EnvLine} :
    ¬ EndsWith debugCli room env .outside lines := by
  rintro ⟨n, c, h⟩
  rw [Function.iterate_fixed rfl n] at h
  cases h

/-- A pass does not change where a run ends. -/
theorem endsWith_step {p : ℕ} {lines lines' : List EnvLine} :
    EndsWith debugCli room env (.walking p lines) lines'
      ↔ EndsWith debugCli room env ((EnvRun.walking p lines).step debugCli room env) lines' := by
  constructor
  · rintro ⟨n, c, h⟩
    cases n with
    | zero => cases h
    | succ n => exact ⟨n, c, h⟩
  · rintro ⟨n, c, h⟩
    exact ⟨n + 1, c, h⟩

/-- A header without a name stops the walk for ever. -/
theorem not_endsWith_of_fixed {p : ℕ} {lines lines' : List EnvLine}
    (h : (EnvRun.walking p lines).step debugCli room env = .walking p lines) :
    ¬ EndsWith debugCli room env (.walking p lines) lines' := by
  rintro ⟨n, c, hrun⟩
  rw [Function.iterate_fixed h n] at hrun
  cases hrun

/-- A record whose name or value would lie behind the region is not printed. -/
theorem step_message {p : ℕ} (hin : p + 1 < envMemSize) (hnamed : (env p).toNat ≠ 0)
    (herased : (env p).toNat ≠ 255) (hbehind : p + 2 + (env p).toNat ≥ envMemSize)
    (lines : List EnvLine) :
    ∃ message, EnvRun.step true room env (.walking p lines) = .finished lines (some message) 0 := by
  have hend : ¬ p ≥ envMemSize := by omega
  have hheader : ¬ p + 1 ≥ envMemSize := by omega
  simp only [EnvRun.step, if_neg hend, if_neg hheader, if_pos hnamed, if_neg herased, true_and,
    if_pos hbehind]
  by_cases hname : p + 2 ≥ envMemSize
  · exact ⟨_, if_pos hname⟩
  · exact ⟨_, if_neg hname⟩

/-- The pass over a record. -/
theorem step_record {p : ℕ} (hin : p + 1 < envMemSize) (hnamed : (env p).toNat ≠ 0)
    (herased : (env p).toNat ≠ 255)
    (hvalue : ¬ (debugCli = true ∧ p + 2 + (env p).toNat ≥ envMemSize)) (lines : List EnvLine) :
    (EnvRun.walking p lines).step debugCli room env
      = (lineAt room env p).elim .outside
          (fun line => .walking (nextRecord env p) (lines ++ [line])) := by
  have hend : ¬ p ≥ envMemSize := by omega
  have hheader : ¬ p + 1 ≥ envMemSize := by omega
  have hname : ¬ (debugCli = true ∧ p + 2 ≥ envMemSize) := fun h => hvalue ⟨h.1, by omega⟩
  simp only [EnvRun.step, if_neg hend, if_neg hheader, if_pos hnamed, if_neg herased,
    if_neg hname, if_neg hvalue, lineAt]
  cases strAt env (p + 2) with
  | none => rfl
  | some name =>
    cases strAt env (p + 2 + (env p).toNat) with
    | none => rfl
    | some value => rfl

/-- The headers met from `p` on are `p` and those met behind the record. -/
theorem met_iff {p q : ℕ} :
    Met env p q ↔ q = p ∨
      (p < envMemSize ∧ (env p).toNat ≠ 255) ∧ Met env (nextRecord env p) q := by
  constructor
  · intro h
    induction h with
    | start => exact Or.inl rfl
    | next q _ hq herased ih =>
      right
      rcases ih with rfl | ⟨hp, hmet⟩
      · exact ⟨⟨hq, herased⟩, .start⟩
      · exact ⟨hp, .next q hmet hq herased⟩
  · rintro (rfl | ⟨⟨hp, herased⟩, hmet⟩)
    · exact .start
    · induction hmet with
      | start => exact .next p .start hp herased
      | next q _ hq herased' ih => exact .next q ih hq herased'

/-- The lines of the records from `p` on. -/
def ownLines (env : Memory Byte) (p : ℕ) : List EnvLine := (recordsFrom env p).map (ownLine env)

variable (debugCli room env) in
/-- **Run lemma.**  From `p` on the records are printed exactly if all headers met are good. -/
theorem walk_iff (p : ℕ) (lines : List EnvLine) :
    EndsWith debugCli room env (.walking p lines) (lines ++ ownLines env p)
      ↔ ∀ q, Met env p q → q < envMemSize → GoodRecord room env q := by
  -- on the part of the region that is left
  induction hn : envMemSize - p using Nat.strong_induction_on generalizing p lines with
  | _ n ih =>
    subst hn
    by_cases hp : p < envMemSize
    case neg =>
      -- behind the region: the walk is over, and there are no records
      have hrecords : ownLines env p = [] := by
        rw [ownLines, recordsFrom, if_neg hp]
        rfl
      have hstep : (EnvRun.walking p lines).step debugCli room env = .finished lines none 0 := by
        simp only [EnvRun.step, if_pos (Nat.not_lt.mp hp)]
      rw [endsWith_step, hstep, endsWith_finished, hrecords, List.append_nil]
      refine iff_of_true ⟨rfl, rfl⟩ ?_
      intro q hmet hq
      rcases met_iff.mp hmet with rfl | ⟨⟨hp', -⟩, -⟩
      · exact absurd hq hp
      · exact absurd hp' hp
    have hend : ¬ p ≥ envMemSize := Nat.not_le.mpr hp
    by_cases hheader : p + 1 < envMemSize
    case neg =>
      -- the second byte of the header lies behind the region
      have hstep : (EnvRun.walking p lines).step debugCli room env = .outside := by
        simp only [EnvRun.step, if_neg hend, if_pos (Nat.not_lt.mp hheader)]
      rw [endsWith_step, hstep]
      exact iff_of_false not_endsWith_outside fun h => hheader (h p .start hp).inside
    have hheader' : ¬ p + 1 ≥ envMemSize := Nat.not_le.mpr hheader
    by_cases hnamed : (env p).toNat = 0
    · -- a name of no bytes: the walk goes round for ever
      have hstep : (EnvRun.walking p lines).step debugCli room env = .walking p lines := by
        simp only [EnvRun.step, if_neg hend, if_neg hheader', if_neg (not_not.mpr hnamed)]
      exact iff_of_false (not_endsWith_of_fixed hstep) fun h => (h p .start hp).named hnamed
    by_cases herased : (env p).toNat = 255
    · -- erased flash: the walk is over
      have hrecords : ownLines env p = [] := by
        rw [ownLines, recordsFrom, if_pos hp, if_pos herased]
        rfl
      have hstep : (EnvRun.walking p lines).step debugCli room env = .finished lines none 0 := by
        simp only [EnvRun.step, if_neg hend, if_neg hheader', if_pos hnamed, if_pos herased]
      rw [endsWith_step, hstep, endsWith_finished, hrecords, List.append_nil]
      refine iff_of_true ⟨rfl, rfl⟩ ?_
      intro q hmet _
      rcases met_iff.mp hmet with rfl | ⟨⟨-, hnot⟩, -⟩
      · exact ⟨hheader, hnamed, fun h => absurd herased h, fun h => absurd herased h,
          fun h => absurd herased h, fun h => absurd herased h⟩
      · exact absurd herased hnot
    by_cases hdebug : debugCli = true ∧ p + 2 + (env p).toNat ≥ envMemSize
    · -- the value would lie behind the region: there is a message, and no line
      obtain ⟨rfl, hbehind⟩ := hdebug
      obtain ⟨message, hstep⟩ : ∃ message, EnvRun.step true room env (.walking p lines) =
          .finished lines (some message) 0 := step_message hheader hnamed herased hbehind lines
      rw [endsWith_step, hstep, endsWith_finished]
      refine iff_of_false (fun h => Option.some_ne_none message h.2) fun h => ?_
      obtain ⟨i, -, hin, -⟩ := (h p .start hp).value herased
      omega
    -- a record: its line, and the walk behind it
    have hrecords : ownLines env p = ownLine env p :: ownLines env (nextRecord env p) := by
      rw [ownLines, recordsFrom, if_pos hp, if_neg herased, if_neg hnamed]
      rfl
    have hrest : (∀ q, Met env p q → q < envMemSize → GoodRecord room env q)
        ↔ GoodRecord room env p
          ∧ ∀ q, Met env (nextRecord env p) q → q < envMemSize → GoodRecord room env q := by
      constructor
      · intro h
        exact ⟨h p .start hp, fun q hq => h q (met_iff.mpr (Or.inr ⟨⟨hp, herased⟩, hq⟩))⟩
      · rintro ⟨hgood, h⟩ q hmet
        rcases met_iff.mp hmet with rfl | ⟨-, hq⟩
        · exact fun _ => hgood
        · exact h q hq
    rw [endsWith_step, step_record hheader hnamed herased hdebug, hrecords, hrest,
      ← lineAt_iff hheader hnamed herased]
    cases hline : lineAt room env p with
    | none =>
      -- a string has no end in the region
      refine iff_of_false not_endsWith_outside ?_
      rintro ⟨h, -⟩
      cases h
    | some line =>
      rw [Option.elim_some]
      by_cases hown : line = ownLine env p
      · -- the record shows its own bytes; the rest is left to the induction
        subst hown
        have hless : envMemSize - nextRecord env p < envMemSize - p := by
          unfold nextRecord
          omega
        have hbehind := ih _ hless (nextRecord env p) (lines ++ [ownLine env p]) rfl
        rw [List.append_assoc, List.singleton_append] at hbehind
        rw [hbehind]
        exact (and_iff_right rfl).symm
      · -- another line was printed in its place
        refine iff_of_false ?_ fun h => hown (Option.some.inj h.1)
        rintro ⟨n, c, hrun⟩
        have hstart : (EnvRun.walking (nextRecord env p) (lines ++ [line])).Began
            (lines ++ [line]) := List.prefix_rfl
        have hbegan := began_iterate debugCli room env hstart n
        rw [hrun] at hbegan
        have hprefix : lines ++ [line] <+: lines ++ ownLine env p :: ownLines env _ := hbegan
        rw [List.prefix_append_right_inj, List.cons_prefix_cons] at hprefix
        exact hown hprefix.1

/-- `env print` ends, reads only the region and prints exactly the records, each from its own
bytes, exactly if every header that it meets is good. -/
theorem printsEnv_iff (debugCli : Bool) (room : ℕ → Bool) (env : Memory Byte) :
    PrintsEnv debugCli room env ↔ GoodEnv room env := by
  have h := walk_iff debugCli room env 0 []
  rw [List.nil_append] at h
  exact h

/-- A region of zero bytes is walked through for ever. -/
theorem not_printsEnv_zero : ¬ PrintsEnv true (fun _ => true) (fun _ => 0) := by
  have hstep : (EnvRun.walking 0 []).step true (fun _ => true) (fun _ => 0) = .walking 0 [] := rfl
  exact not_endsWith_of_fixed hstep

end Karnix.Cli
