import Karnix.Cli.ConsoleQueue
import Karnix.Keyboard.Keymap

/-!
# Key handlers

`kbd_keycode` of `keyboard.c` and its handlers.  A handler queues bytes with `put_queue`, one at
a time, or with `puts_queue`, a whole text.  Both share the console buffer and its length with
`console_rx`.  They disagree about a buffer that gets full: `put_queue` fills it, and
terminates the text with a zero behind it; `puts_queue` refuses.

The keys are handled in the main loop with interrupts enabled, and `console_rx` is called by
the receive interrupt, so that it may run between any two accesses to the buffer and its length.
-/

namespace Karnix.Keyboard

open Karnix.Library Karnix.Cli.Queue

/-! ## Section 1: Handlers -/

/-- What a handler does to the queue. -/
inductive Call where
  | putQueue (ch : Byte)
  | putsQueue (cp : List Byte)

/-- `capslock_state`, `numlock_state`, `dead_key_next` and `applic_state`. -/
structure Modes where
  capslockState : Bool
  numlockState : Bool
  deadKeyNext : Bool
  applicState : Bool

/-- The calls of a handler, and the modes it leaves. -/
abbrev Handler := Modes → List Call × Modes

/-- A handler that leaves the modes alone. -/
def queues (cs : List Call) : Handler := fun m => (cs, m)

/-- The text before the terminating zero. -/
def cString (bs : List Byte) : List Byte := bs.takeWhile (· ≠ 0)

/-- `applkey`: an escape sequence that ends with the key, in one of its two forms. -/
def applkey (key : Byte) (mode : Bool) : Handler :=
  queues [.putsQueue (cString [0x1b, if mode then 0x4f else 0x5b, key, 0])]

/-- `fn_enter`, which queues a line feed as well with `KEYBOARD_CRLF`. -/
def fnEnter (keyboardCrlf : Bool) : Handler :=
  queues (if keyboardCrlf then [.putQueue 0x0d, .putQueue 0x0a] else [.putQueue 0x0d])

/-- `fn_caps_toggle`: caps lock on or off, in turns. -/
def fnCapsToggle : Handler := fun m => ([], { m with capslockState := !m.capslockState })

/-- `fn_caps_on`: caps lock is switched on. -/
def fnCapsOn : Handler := fun m => ([], { m with capslockState := true })

/-- `fn_bare_num`: num lock on or off, in turns. -/
def fnBareNum : Handler := fun m => ([], { m with numlockState := !m.numlockState })

/-- `fn_num`: a key of the application, or num lock. -/
def fnNum : Handler := fun m => if m.applicState then applkey 0x50 true m else fnBareNum m

/-- `fn_compose`: the next character is swallowed. -/
def fnCompose : Handler := fun m => ([], { m with deadKeyNext := true })

/-- `fn_handler`.  Those that do nothing are not told apart. -/
def fnHandler (keyboardCrlf : Bool) (value : ℕ) : Handler :=
  match value with
  | 1 => fnEnter keyboardCrlf
  | 7 => fnCapsToggle
  | 8 => fnNum
  | 13 => fnCapsOn
  | 14 => fnCompose
  | 19 => fnBareNum
  | _ => queues []

/-- `k_spec`: the handler of the table, when the key goes down. -/
def kSpec (keyboardCrlf : Bool) (value : Byte) (upFlag : Bool) : Handler :=
  if upFlag then queues [] else fnHandler keyboardCrlf value.toNat

/-- `k_lowercase`: the character itself, when the key goes down. -/
def kLowercase (value : Byte) (upFlag : Bool) : Handler :=
  if upFlag then queues [] else queues [.putQueue value]

/-- `k_unicode`: the character, unless it is to be swallowed. -/
def kUnicode (value : Byte) (upFlag : Bool) : Handler :=
  if upFlag then queues []
  else fun m => if m.deadKeyNext then ([], { m with deadKeyNext := false })
    else ([.putQueue value], m)

/-- `k_self`: a key that stands for its character. -/
def kSelf (value : Byte) (upFlag : Bool) : Handler := kUnicode value upFlag

/-- `k_fn`: the text of a function key, if it has one. -/
def kFn (value : Byte) (upFlag : Bool) : Handler :=
  if upFlag then queues []
  else
    match (funcTable.getD value.toNat none) with
    | some cp => queues [.putsQueue cp]
    | none => queues []

/-- `cur_chars`: how the sequences of the four arrows end. -/
def curChars : List Byte := ascii ['B', 'D', 'C', 'A']

/-- `k_cur`: the sequence of an arrow. -/
def kCur (value : Byte) (upFlag : Bool) : Handler :=
  if upFlag then queues [] else applkey (curChars.getD value.toNat 0) false

/-- `pad_chars`: what the keys of the pad stand for with num lock. -/
def padChars : List Byte :=
  ascii ['0', '1', '2', '3', '4', '5', '6', '7', '8', '9', '+', '-', '*', '/'] ++ 0x0d ::
    ascii [',', '.', '?', '(', ')', '#']

/-- `app_map`: how the sequences of the pad end for an application. -/
def appMap : List Byte :=
  ascii ['p', 'q', 'r', 's', 't', 'u', 'v', 'w', 'x', 'y', 'l', 'S', 'R', 'Q', 'M', 'n', 'n',
    'm', 'P', 'Q', 'S']

/-- What the keys of the pad stand for while num lock is off. -/
def padCursor (value : ℕ) : Option Handler :=
  match value with
  | 15 | 16 => some (kFn 22 false) -- K_PCOMMA and K_PDOT: K_REMOVE
  | 0 => some (kFn 21 false) -- K_INSERT
  | 1 => some (kFn 23 false) -- K_SELECT
  | 2 => some (kCur 0 false) -- K_DOWN
  | 3 => some (kFn 25 false) -- K_PGDN
  | 4 => some (kCur 1 false) -- K_LEFT
  | 6 => some (kCur 2 false) -- K_RIGHT
  | 7 => some (kFn 20 false) -- K_FIND
  | 8 => some (kCur 3 false) -- K_UP
  | 9 => some (kFn 24 false) -- K_PGUP
  | 5 => some fun m => applkey 0x47 m.applicState m
  | _ => none

/-- What the keys of the pad stand for while num lock is on. -/
def padChar (keyboardCrlf : Bool) (value : ℕ) : Handler :=
  let ch := .putQueue (padChars.getD value 0)
  -- K_PENTER
  queues (if value = 14 ∧ keyboardCrlf then [ch, .putQueue 0x0a] else [ch])

/-- `k_pad`: for the application, as a cursor key, or as a character. -/
def kPad (keyboardCrlf : Bool) (value : Byte) (upFlag : Bool) : Handler :=
  if upFlag then queues []
  else fun m =>
    if m.applicState && !m.capslockState then applkey (appMap.getD value.toNat 0) true m
    else
      match (if m.numlockState then none else padCursor value.toNat) with
      | some handler => handler m
      | none => padChar keyboardCrlf value.toNat m

/-- `k_shift`, which queues its value like a character, and changes no mode. -/
def kShift (value : Byte) (upFlag : Bool) : Handler :=
  if upFlag then queues [] else queues [.putQueue value]

/-- `k_meta`: the character behind an escape. -/
def kMeta (value : Byte) (upFlag : Bool) : Handler :=
  if upFlag then queues [] else queues [.putQueue 0x1b, .putQueue value]

/-- `k_ascii`, which queues its value like a character. -/
def kAscii (value : Byte) (upFlag : Bool) : Handler :=
  if upFlag then queues [] else queues [.putQueue value]

/-- `k_handler`.  `k_dead`, `k_cons`, `k_lock`, `k_slock`, `k_dead2`, `k_brl` and `k_ignore` do
nothing. -/
def kHandler (keyboardCrlf : Bool) (type : ℕ) : Byte → Bool → Handler :=
  match type with
  | 0 => kSelf
  | 1 => kFn
  | 2 => kSpec keyboardCrlf
  | 3 => kPad keyboardCrlf
  | 6 => kCur
  | 7 => kShift
  | 8 => kMeta
  | 9 => kAscii
  | 11 => kLowercase
  | _ => fun _ _ => queues []

/-- What `kbd_keycode` is called with. -/
structure KeyEvent where
  keycode : ℕ
  shiftPressed : Bool
  ctrlPressed : Bool
  altPressed : Bool
  upFlag : Bool

/-- The map that the modifiers select. -/
def keymap (e : KeyEvent) (m : Modes) : List ℕ :=
  let shiftFinal := m.capslockState ^^ e.shiftPressed
  if shiftFinal && e.ctrlPressed then shiftCtrlMap
  else if e.ctrlPressed && e.altPressed then ctrlAltMap
  else if e.ctrlPressed then ctrlMap
  else if e.altPressed then altMap
  else if shiftFinal then shiftMap
  else plainMap

/-- `kbd_keycode`: the key of the map for the modifiers, and the handler for its type. -/
def kbdKeycode (keyboardCrlf : Bool) (e : KeyEvent) : Handler := fun m =>
  if e.keycode < nrKeys then
    let keysym := (keymap e m).getD e.keycode 0
    if ktyp keysym < 0xf0 then kUnicode (kval keysym) e.upFlag m
    else kHandler keyboardCrlf (ktyp keysym - 0xf0) (kval keysym) e.upFlag m
  else ([], m)

/-! ## Section 2: The queue -/

/-- Where `put_queue` or `puts_queue` is, between two accesses to the buffer or its length. -/
inductive Point where
  /-- Neither is running. -/
  | idle
  /-- `put_queue` has found room. -/
  | room (ch : Byte)
  /-- It has loaded the length to count it up. -/
  | loaded (ch : Byte) (len : ℕ)
  /-- It has stored the length counted up; the byte itself goes to the old one. -/
  | counted (ch : Byte) (len : ℕ)
  /-- It has stored the byte. -/
  | stored
  /-- It has loaded the length once more, for the terminating zero. -/
  | zero (len : ℕ)
  /-- `puts_queue` has found room. -/
  | roomFor (cp : List Byte)
  /-- It copies its text of `size` bytes: what is left of it, and where that goes. -/
  | copying (rest : List Byte) (dst size : ℕ)
  /-- It has loaded the length to add the size. -/
  | loadedFor (size len : ℕ)
  deriving DecidableEq

/-- The console buffer, the modes, the indices that `put_queue` and `puts_queue` have written
to, and the key that is being handled. -/
structure KbdData where
  console : Console
  modes : Modes
  written : List ℕ
  /-- The calls that the key still has to make. -/
  todo : List Call
  /-- Where the call is that runs. -/
  point : Point
  /-- What was in the queue when the key came. -/
  ahead : List Byte
  /-- The bytes of the key. -/
  bytes : List Byte

/-- The bytes of a call. -/
def Call.text : Call → List Byte
  | .putQueue ch => [ch]
  | .putsQueue cp => cp

namespace KbdData

/-- `kbd->len`: how many bytes wait in the buffer of the console. -/
def len (k : KbdData) : ℕ := k.console.consoleRxBufLen

/-- The bytes in the queue. -/
def queued (k : KbdData) : List Byte := k.console.consoleRxBuf.load 0 k.len

/-- A key is being handled. -/
def busy (k : KbdData) : Bool := decide (k.point ≠ .idle) || !k.todo.isEmpty

/-- A store into the buffer. -/
def write (k : KbdData) (i : ℕ) (bs : List Byte) : KbdData :=
  { k with
    console := { k.console with consoleRxBuf := k.console.consoleRxBuf.store i bs }
    written := k.written ++ List.range' i bs.length }

/-- A store into the length. -/
def setLen (k : KbdData) (n : ℕ) : KbdData :=
  { k with console := { k.console with consoleRxBufLen := n } }

/-- The next access of the key that is being handled. -/
def access (k : KbdData) : KbdData :=
  match k.point with
  | .idle =>
    match k.todo with
    | [] => k
    | .putQueue ch :: cs =>
      { k with todo := cs, point := if k.len ≥ consoleRxBufSize then .idle else .room ch }
    | .putsQueue cp :: cs =>
      { k with
        todo := cs
        point := if k.len + cp.length ≥ consoleRxBufSize then .idle else .roomFor cp }
  | .room ch => { k with point := .loaded ch k.len }
  | .loaded ch l => { k.setLen (l + 1) with point := .counted ch l }
  | .counted ch l => { k.write l [ch] with point := .stored }
  | .stored => { k with point := .zero k.len }
  | .zero l => { k.write l [0] with point := .idle }
  | .roomFor cp => { k with point := .copying cp k.len cp.length }
  | .copying (b :: rest) dst size =>
    { k.write dst [b] with point := .copying rest (dst + 1) size }
  | .copying [] _ size => { k with point := .loadedFor size k.len }
  | .loadedFor size l => { k.setLen (l + size) with point := .idle }

/-- `console_poll`, with what it hands on. -/
def consolePoll (k : KbdData) : List Byte × KbdData :=
  if k.len = 0 then ([], k)
  else (k.console.consoleRxBuf.load 0 (min k.len consoleRxBufSize), k.setLen 0)

end KbdData

inductive Event where
  /-- A key is pressed, repeats or is released. -/
  | key (e : KeyEvent)
  /-- The key that is being handled makes its next access. -/
  | access
  /-- `console_rx` runs. -/
  | rx (fifo : List Byte)
  /-- `console_poll` runs. -/
  | poll

section System

variable (keyboardCrlf : Bool)

/-- What a key asks of the queue. -/
def keyCalls (k : KbdData) (e : KeyEvent) : List Call := (kbdKeycode keyboardCrlf e k.modes).1

/-- A key is about to make its calls. -/
def KbdData.begin (k : KbdData) (e : KeyEvent) : KbdData :=
  { k with
    modes := (kbdKeycode keyboardCrlf e k.modes).2
    todo := keyCalls keyboardCrlf k e
    ahead := k.queued
    bytes := (keyCalls keyboardCrlf k e).flatMap Call.text }

/-- The main loop comes to the next key, and to `console_poll`, when a key is done with. -/
def step (k : KbdData) : Event → KbdData
  | .key e => if k.busy then k else k.begin keyboardCrlf e
  | .access => k.access
  | .rx fifo => { k with console := k.console.consoleRx fifo }
  | .poll => if k.busy then k else k.consolePoll.2

/-- The keyboard and the console when the monitor starts. -/
def init (buf : Memory Byte) : KbdData :=
  ⟨Console.init buf, ⟨false, false, false, false⟩, [], [], .idle, [], []⟩

/-! ## Section 3: What the queue promises -/

/-- Nothing was written outside the buffer, and there are no more bytes than fit into it. -/
structure KbdData.Inside (k : KbdData) : Prop where
  written : ∀ i ∈ k.written, i < consoleRxBufSize
  len_le : k.len ≤ consoleRxBufSize

/-- The bytes that are in the queue behind `ahead` when they are queued as a whole or not at
all. -/
def appended (ahead bytes : List Byte) : List Byte :=
  ahead ++ if ahead.length + bytes.length ≤ consoleRxBufSize then bytes else []

/-- After the step nothing is outside the buffer, and if it is the last one of a key, the bytes of
the key are in the queue behind the others, all of them or, where they do not fit, none. -/
def StepOk (k : KbdData) (e : Event) : Prop :=
  (step keyboardCrlf k e).Inside ∧
    (k.busy = true → (step keyboardCrlf k e).busy = false →
      (step keyboardCrlf k e).queued = appended k.ahead k.bytes)

/-- No call ends its text exactly at the end of the buffer, each behind those before it. -/
def Misses (len : ℕ) : List Call → Prop
  | [] => True
  | c :: cs => len + c.text.length ≠ consoleRxBufSize ∧ Misses (len + c.text.length) cs

/-- The texts of a key, each behind the one before, do not end exactly at the end of the
buffer. -/
def NeverFills (k : KbdData) : Event → Prop
  | .key e => k.busy = false → Misses k.len (keyCalls keyboardCrlf k e)
  | _ => True

/-- No byte comes while a key is being handled. -/
def Undisturbed (k : KbdData) : Event → Prop
  | .rx fifo => k.busy = true → fifo = []
  | _ => True

end System

instance Misses.decidable : ∀ (len : ℕ) (cs : List Call), Decidable (Misses len cs)
  | _, [] => isTrue trivial
  | len, c :: cs =>
    have := Misses.decidable (len + c.text.length) cs
    inferInstanceAs (Decidable (_ ∧ _))

instance (keyboardCrlf : Bool) (k : KbdData) : ∀ e, Decidable (NeverFills keyboardCrlf k e)
  | .key _ => inferInstanceAs (Decidable (_ → _))
  | .access | .rx _ | .poll => isTrue trivial

instance (k : KbdData) : ∀ e, Decidable (Undisturbed k e)
  | .rx _ => inferInstanceAs (Decidable (_ → _))
  | .key _ | .access | .poll => isTrue trivial

/-! ## Section 4: What handlers call -/

/-- A handler queues single bytes, or one text. -/
def Plain (cs : List Call) : Prop :=
  (∃ bs : List Byte, cs = bs.map .putQueue) ∨ ∃ cp, cp ≠ [] ∧ cs = [.putsQueue cp]

theorem plain_nil : Plain [] := Or.inl ⟨[], rfl⟩

theorem plain_one (ch : Byte) : Plain [.putQueue ch] := Or.inl ⟨[ch], rfl⟩

theorem plain_two (ch ch' : Byte) : Plain [.putQueue ch, .putQueue ch'] :=
  Or.inl ⟨[ch, ch'], rfl⟩

variable {keyboardCrlf : Bool} {m : Modes} {value : Byte} {upFlag : Bool}

theorem plain_applkey (key : Byte) (mode : Bool) : Plain (applkey key mode m).1 := by
  refine Or.inr ⟨_, ?_, rfl⟩
  intro hnil
  rw [cString, List.takeWhile_cons_of_pos (by decide)] at hnil
  cases hnil

theorem plain_fnHandler (value : ℕ) : Plain (fnHandler keyboardCrlf value m).1 := by
  unfold fnHandler
  split
  · rw [fnEnter]
    cases keyboardCrlf
    · exact plain_one _
    · exact plain_two _ _
  · exact plain_nil
  · rw [fnNum]
    split
    · exact plain_applkey _ _
    · exact plain_nil
  all_goals exact plain_nil

theorem plain_kUnicode : Plain (kUnicode value upFlag m).1 := by
  unfold kUnicode
  cases upFlag with
  | true => exact plain_nil
  | false =>
    simp only [Bool.false_eq_true, if_false]
    split
    · exact plain_nil
    · exact plain_one _

/-- No text of `func_table` is empty. -/
theorem funcTable_ne_nil {cp : List Byte} {value : ℕ} (h : funcTable.getD value none = some cp) :
    cp ≠ [] := by
  have hall : ∀ text ∈ funcTable, text ≠ some [] := by decide
  rintro rfl
  rw [List.getD_eq_getElem?_getD] at h
  cases htext : funcTable[value]? with
  | none => rw [htext] at h; cases h
  | some text =>
    rw [htext] at h
    exact hall text (List.mem_of_getElem? htext) h

theorem plain_kFn : Plain (kFn value upFlag m).1 := by
  unfold kFn
  split
  · exact plain_nil
  · cases htext : funcTable.getD value.toNat none with
    | some cp => exact Or.inr ⟨cp, funcTable_ne_nil htext, rfl⟩
    | none => exact plain_nil

theorem plain_kCur : Plain (kCur value upFlag m).1 := by
  unfold kCur
  split
  · exact plain_nil
  · exact plain_applkey _ _

theorem plain_padCursor {value : ℕ} {handler : Handler} (h : padCursor value = some handler) :
    Plain (handler m).1 := by
  unfold padCursor at h
  split at h <;> cases h
  all_goals first | exact plain_kFn | exact plain_kCur | exact plain_applkey _ _

theorem plain_padChar (value : ℕ) : Plain (padChar keyboardCrlf value m).1 := by
  unfold padChar queues
  simp only
  split
  · exact plain_two _ _
  · exact plain_one _

theorem plain_kPad : Plain (kPad keyboardCrlf value upFlag m).1 := by
  unfold kPad
  cases upFlag with
  | true => exact plain_nil
  | false =>
    simp only [Bool.false_eq_true, if_false]
    split
    · exact plain_applkey _ _
    · split
      · rename_i handler hcursor
        cases hnum : m.numlockState with
        | true => rw [hnum] at hcursor; cases hcursor
        | false => rw [hnum] at hcursor; exact plain_padCursor hcursor
      · exact plain_padChar _

theorem plain_kHandler (type : ℕ) : Plain (kHandler keyboardCrlf type value upFlag m).1 := by
  unfold kHandler
  split
  · exact plain_kUnicode
  · exact plain_kFn
  · unfold kSpec
    split
    · exact plain_nil
    · exact plain_fnHandler _
  · exact plain_kPad
  · exact plain_kCur
  · cases upFlag
    · exact plain_one _
    · exact plain_nil
  · cases upFlag
    · exact plain_two _ _
    · exact plain_nil
  · cases upFlag
    · exact plain_one _
    · exact plain_nil
  · cases upFlag
    · exact plain_one _
    · exact plain_nil
  · exact plain_nil

/-- Every key queues single bytes, or one text. -/
theorem plain_kbdKeycode (e : KeyEvent) : Plain (kbdKeycode keyboardCrlf e m).1 := by
  unfold kbdKeycode
  split
  · simp only
    split
    · exact plain_kUnicode
    · exact plain_kHandler _
  · exact plain_nil

/-! ## Section 5: Calls without an interrupt -/

namespace KbdData

/-- `put_queue` as a whole, as it is if no interrupt comes into it. -/
def putQueue (k : KbdData) (ch : Byte) : ℤ × KbdData :=
  if k.len ≥ consoleRxBufSize then (-4, k)
  else (1, ((k.write k.len [ch]).write (k.len + 1) [0]).setLen (k.len + 1))

/-- `puts_queue` as a whole, with a text before its terminating zero. -/
def putsQueue (k : KbdData) (cp : List Byte) : ℤ × KbdData :=
  if k.len + cp.length ≥ consoleRxBufSize then (-4, k)
  else (cp.length, (k.write k.len cp).setLen (k.len + cp.length))

def call (k : KbdData) : Call → KbdData
  | .putQueue ch => (k.putQueue ch).2
  | .putsQueue cp => (k.putsQueue cp).2

def calls (k : KbdData) (cs : List Call) : KbdData := cs.foldl call k

end KbdData

variable {k : KbdData} {bs cp : List Byte}

theorem putQueue_full (h : consoleRxBufSize ≤ k.len) (ch : Byte) : k.call (.putQueue ch) = k := by
  rw [KbdData.call, KbdData.putQueue, if_pos h]

/-- A byte goes behind the others, and a zero behind it. -/
theorem putQueue_room (h : k.len < consoleRxBufSize) (ch : Byte) :
    (k.call (.putQueue ch)).len = k.len + 1 ∧
      (k.call (.putQueue ch)).queued = k.queued ++ [ch] ∧
      (k.call (.putQueue ch)).written = k.written ++ [k.len, k.len + 1] := by
  rw [KbdData.call, KbdData.putQueue, if_neg (Nat.not_le.2 h)]
  refine ⟨rfl, ?_, by simp [KbdData.setLen, KbdData.write]⟩
  have hzero : ((k.console.consoleRxBuf.store k.len [ch]).store (k.len + 1) [0]).load 0
      (k.len + 1) = (k.console.consoleRxBuf.store k.len [ch]).load 0 (k.len + 1) :=
    Memory.load_store_of_disjoint _ _ (Or.inl (by omega))
  have hold : (k.console.consoleRxBuf.store k.len [ch]).load 0 k.len = k.queued :=
    Memory.load_store_of_disjoint _ _ (Or.inl (by omega))
  have hnew : (k.console.consoleRxBuf.store k.len [ch]).load k.len 1 = [ch] :=
    Memory.load_store_self _ _ _
  refine hzero.trans ?_
  rw [Memory.load_add, hold, Nat.zero_add, hnew]

theorem putsQueue_refused (h : consoleRxBufSize ≤ k.len + cp.length) :
    k.call (.putsQueue cp) = k := by
  rw [KbdData.call, KbdData.putsQueue, if_pos h]

/-- A text goes behind the other bytes. -/
theorem putsQueue_room (h : k.len + cp.length < consoleRxBufSize) :
    (k.call (.putsQueue cp)).len = k.len + cp.length ∧
      (k.call (.putsQueue cp)).queued = k.queued ++ cp ∧
      (k.call (.putsQueue cp)).written = k.written ++ List.range' k.len cp.length := by
  rw [KbdData.call, KbdData.putsQueue, if_neg (Nat.not_le.2 h)]
  refine ⟨rfl, ?_, rfl⟩
  have hold : (k.console.consoleRxBuf.store k.len cp).load 0 k.len = k.queued :=
    Memory.load_store_of_disjoint _ _ (Or.inl (by omega))
  have hnew : (k.console.consoleRxBuf.store k.len cp).load k.len cp.length = cp :=
    Memory.load_store_self _ _ _
  show (k.console.consoleRxBuf.store k.len cp).load 0 (k.len + cp.length) = k.queued ++ cp
  rw [Memory.load_add, hold, Nat.zero_add, hnew]

theorem KbdData.Inside.putQueue (h : k.Inside) (hroom : k.len + 1 < consoleRxBufSize) (ch : Byte) :
    (k.call (.putQueue ch)).Inside := by
  obtain ⟨hlen, -, hwritten⟩ := putQueue_room (Nat.lt_of_succ_lt hroom) ch
  refine ⟨fun i hi => ?_, by omega⟩
  rw [hwritten, List.mem_append] at hi
  rcases hi with hi | hi
  · exact h.written i hi
  · simp only [List.mem_cons, List.not_mem_nil, or_false] at hi
    omega

theorem KbdData.Inside.putsQueue (h : k.Inside) (hroom : k.len + cp.length < consoleRxBufSize) :
    (k.call (.putsQueue cp)).Inside := by
  obtain ⟨hlen, -, hwritten⟩ := putsQueue_room hroom
  refine ⟨fun i hi => ?_, by omega⟩
  rw [hwritten, List.mem_append] at hi
  rcases hi with hi | hi
  · exact h.written i hi
  · have hrange := List.mem_range'_1.1 hi
    omega

theorem calls_full (h : consoleRxBufSize ≤ k.len) : k.calls (bs.map .putQueue) = k := by
  induction bs with
  | nil => rfl
  | cons ch bs ih =>
    rw [List.map_cons, KbdData.calls, List.foldl_cons, putQueue_full h]
    exact ih

/-- Bytes that leave room behind them are queued one behind the other. -/
theorem calls_room (h : k.Inside) (hroom : k.len + bs.length < consoleRxBufSize) :
    (k.calls (bs.map .putQueue)).Inside ∧
      (k.calls (bs.map .putQueue)).queued = k.queued ++ bs := by
  induction bs generalizing k with
  | nil => exact ⟨h, (List.append_nil _).symm⟩
  | cons ch bs ih =>
    rw [List.length_cons] at hroom
    have hless : k.len < consoleRxBufSize := by omega
    obtain ⟨hlen, hqueued, -⟩ := putQueue_room hless ch
    have hrest : (k.call (.putQueue ch)).len + bs.length < consoleRxBufSize := by omega
    obtain ⟨hinside, hbytes⟩ := ih (h.putQueue (by omega) ch) hrest
    rw [hqueued, List.append_assoc] at hbytes
    exact ⟨hinside, hbytes⟩

theorem mem_written_calls {i : ℕ} (h : i ∈ k.written) :
    i ∈ (k.calls (bs.map .putQueue)).written := by
  induction bs generalizing k with
  | nil => exact h
  | cons ch bs ih =>
    refine ih ?_
    rcases Nat.lt_or_ge k.len consoleRxBufSize with hroom | hfull
    · rw [(putQueue_room hroom ch).2.2]
      exact List.mem_append_left _ h
    · rw [putQueue_full hfull]
      exact h

/-- Where the queue gets full, the terminating zero is written behind the buffer. -/
theorem written_of_fills (hroom : k.len < consoleRxBufSize)
    (hfills : consoleRxBufSize ≤ k.len + bs.length) :
    consoleRxBufSize ∈ (k.calls (bs.map .putQueue)).written := by
  induction bs generalizing k with
  | nil =>
    rw [List.length_nil] at hfills
    omega
  | cons ch bs ih =>
    rw [List.length_cons] at hfills
    obtain ⟨hlen, -, hwritten⟩ := putQueue_room hroom ch
    rcases Nat.lt_or_ge (k.len + 1) consoleRxBufSize with hless | hlast
    · exact ih (by omega) (by omega)
    · refine mem_written_calls (k := k.call (.putQueue ch)) ?_
      have hend : consoleRxBufSize = k.len + 1 := by omega
      rw [hwritten, hend]
      simp

theorem misses_of_full {len : ℕ} (h : consoleRxBufSize ≤ len) :
    Misses len (bs.map .putQueue) := by
  induction bs generalizing len with
  | nil => trivial
  | cons ch bs ih =>
    refine ⟨?_, ih (Nat.le_add_right_of_le h)⟩
    simp only [Call.text, List.length_cons, List.length_nil]
    omega

theorem misses_of_room {len : ℕ} (h : len < consoleRxBufSize) (hbs : bs ≠ []) :
    Misses len (bs.map .putQueue) ↔ len + bs.length < consoleRxBufSize := by
  induction bs generalizing len with
  | nil => exact absurd rfl hbs
  | cons ch bs ih =>
    rw [List.map_cons, Misses]
    simp only [Call.text, List.length_cons, List.length_nil]
    cases bs with
    | nil =>
      simp only [List.map_nil, Misses, and_true, List.length_nil]
      omega
    | cons ch' bs =>
      constructor
      · rintro ⟨hne, hrest⟩
        have hlt := (ih (by omega) (List.cons_ne_nil _ _)).1 hrest
        rw [List.length_cons] at hlt ⊢
        omega
      · intro hlt
        rw [List.length_cons] at hlt
        refine ⟨by omega, (ih (by omega) (List.cons_ne_nil _ _)).2 ?_⟩
        rw [List.length_cons]
        omega

theorem flatMap_text (bs : List Byte) : (bs.map Call.putQueue).flatMap Call.text = bs := by
  induction bs with
  | nil => rfl
  | cons ch bs ih =>
    rw [List.map_cons, List.flatMap_cons, ih]
    rfl

/-- The calls leave nothing outside the buffer, and queue all their bytes or none. -/
def CallsOk (k : KbdData) (cs : List Call) : Prop :=
  (k.calls cs).Inside ∧
    (k.calls cs).queued =
      k.queued ++ if k.len + (cs.flatMap Call.text).length ≤ consoleRxBufSize then
        cs.flatMap Call.text else []

theorem callsOk_bytes (bs : List Byte) (h : k.Inside) :
    CallsOk k (bs.map .putQueue) ↔ Misses k.len (bs.map .putQueue) := by
  rw [CallsOk, flatMap_text]
  by_cases hbs : bs = []
  · subst hbs
    rw [ite_self, List.append_nil]
    exact iff_of_true ⟨h, rfl⟩ trivial
  have hpos : 0 < bs.length := List.length_pos_of_ne_nil hbs
  rcases Nat.lt_or_ge k.len consoleRxBufSize with hroom | hfull
  · rw [misses_of_room hroom hbs]
    constructor
    · rintro ⟨hinside, -⟩
      by_contra hfills
      exact Nat.lt_irrefl _ (hinside.written _ (written_of_fills hroom (Nat.not_lt.1 hfills)))
    · intro hlt
      rw [if_pos (Nat.le_of_lt hlt)]
      exact calls_room h hlt
  · rw [calls_full hfull, if_neg (by omega), List.append_nil]
    exact iff_of_true ⟨h, rfl⟩ (misses_of_full hfull)

theorem callsOk_text (h : k.Inside) (hcp : cp ≠ []) :
    CallsOk k [.putsQueue cp] ↔ Misses k.len [.putsQueue cp] := by
  have hcall : k.calls [.putsQueue cp] = k.call (.putsQueue cp) := rfl
  rw [CallsOk, hcall]
  simp only [List.flatMap_cons, List.flatMap_nil, List.append_nil, Call.text, Misses, and_true]
  rcases Nat.lt_trichotomy (k.len + cp.length) consoleRxBufSize with hlt | heq | hgt
  · rw [if_pos (Nat.le_of_lt hlt)]
    exact iff_of_true ⟨h.putsQueue hlt, (putsQueue_room hlt).2.1⟩ (Nat.ne_of_lt hlt)
  · -- a text that fits exactly is refused
    rw [putsQueue_refused (Nat.le_of_eq heq.symm), if_pos (Nat.le_of_eq heq)]
    refine iff_of_false ?_ (fun hne => hne heq)
    rintro ⟨-, hqueued⟩
    exact hcp (List.append_right_eq_self.1 hqueued.symm)
  · rw [putsQueue_refused (Nat.le_of_lt hgt), if_neg (Nat.not_le.2 hgt), List.append_nil]
    exact iff_of_true ⟨h, rfl⟩ (Nat.ne_of_gt hgt)

/-- **Without an interrupt.**  A key is queued as it should be exactly if none of its texts would
end at the end of the buffer. -/
theorem callsOk_key_iff (h : k.Inside) (e : KeyEvent) :
    CallsOk k (keyCalls keyboardCrlf k e) ↔ Misses k.len (keyCalls keyboardCrlf k e) := by
  have hplain : Plain (keyCalls keyboardCrlf k e) := plain_kbdKeycode e
  rcases hplain with ⟨bs, hbs⟩ | ⟨cp, hcp, htext⟩
  · rw [hbs]
    exact callsOk_bytes bs h
  · rw [htext]
    exact callsOk_text h hcp

/-! ## Section 6: Access by access -/

namespace KbdData

/-- The same buffer, the same length, and the same stores. -/
structure Same (k k' : KbdData) : Prop where
  console : k.console = k'.console
  written : k.written = k'.written

namespace Same

variable {k k' k'' : KbdData}

theorem symm (h : k.Same k') : k'.Same k := ⟨h.console.symm, h.written.symm⟩

theorem len (h : k.Same k') : k.len = k'.len := by rw [KbdData.len, h.console, ← KbdData.len]

theorem queued (h : k.Same k') : k.queued = k'.queued := by
  rw [KbdData.queued, h.console, h.len, ← KbdData.queued]

theorem inside (h : k.Same k') (hk : k'.Inside) : k.Inside :=
  ⟨fun i hi => hk.written i (h.written ▸ hi), h.len ▸ hk.len_le⟩

theorem call (h : k.Same k') (c : Call) : (k.call c).Same (k'.call c) := by
  have hlen := h.len
  obtain ⟨hconsole, hwritten⟩ := h
  cases c with
  | putQueue ch =>
    simp only [KbdData.call, KbdData.putQueue, hlen]
    by_cases hfull : k'.len ≥ consoleRxBufSize
    · simp only [if_pos hfull]
      exact ⟨hconsole, hwritten⟩
    · simp only [if_neg hfull]
      constructor <;> simp only [setLen, write, hconsole, hwritten]
  | putsQueue cp =>
    simp only [KbdData.call, KbdData.putsQueue, hlen]
    by_cases hfull : k'.len + cp.length ≥ consoleRxBufSize
    · simp only [if_pos hfull]
      exact ⟨hconsole, hwritten⟩
    · simp only [if_neg hfull]
      constructor <;> simp only [setLen, write, hconsole, hwritten]

theorem calls (h : k.Same k') (cs : List Call) : (k.calls cs).Same (k'.calls cs) := by
  induction cs generalizing k k' with
  | nil => exact h
  | cons c cs ih => exact ih (h.call c)

end Same

/-- The call that runs is completed without an interrupt. -/
def endCall (k : KbdData) : KbdData :=
  match k.point with
  | .idle => k
  | .room ch => k.call (.putQueue ch)
  | .loaded ch l => ((k.write l [ch]).write (l + 1) [0]).setLen (l + 1)
  | .counted ch l => (k.write l [ch]).write k.len [0]
  | .stored => k.write k.len [0]
  | .zero l => k.write l [0]
  | .roomFor cp => k.call (.putsQueue cp)
  | .copying rest dst size => (k.write dst rest).setLen (k.len + size)
  | .loadedFor size l => k.setLen (l + size)

/-- The key is completed without an interrupt. -/
def finish (k : KbdData) : KbdData := k.endCall.calls k.todo

/-- There is still the room that the call has found. -/
def PointOk (k : KbdData) : Prop :=
  match k.point with
  | .room _ => k.len < consoleRxBufSize
  | .loaded _ l => l < consoleRxBufSize
  | .roomFor cp => k.len + cp.length < consoleRxBufSize
  | .copying _ _ size => k.len + size < consoleRxBufSize
  | .loadedFor size l => l + size < consoleRxBufSize
  | _ => True

theorem write_cons (k : KbdData) (i : ℕ) (b : Byte) (bs : List Byte) :
    k.write i (b :: bs) = (k.write i [b]).write (i + 1) bs := by
  have hstore : k.console.consoleRxBuf.store i (b :: bs) =
      (k.console.consoleRxBuf.store i [b]).store (i + 1) bs := Memory.store_append _ _ [b] bs
  simp only [write, hstore, List.length_cons, List.length_nil, List.range'_succ, List.range'_zero,
    List.append_assoc, List.singleton_append]

theorem not_busy_iff {k : KbdData} : k.busy = false ↔ k.point = .idle ∧ k.todo = [] := by
  simp [busy]

/-- When a key is done with nothing is left to complete. -/
theorem finish_of_not_busy {k : KbdData} (h : k.busy = false) : k.finish = k := by
  obtain ⟨hpoint, htodo⟩ := not_busy_iff.1 h
  rw [finish, endCall, hpoint, htodo]
  rfl

/-- **Step lemma.**  An access leaves to be done what it does not do itself. -/
theorem same_finish {k : KbdData} (h : k.PointOk) : k.access.finish.Same k.finish := by
  unfold PointOk at h
  unfold finish
  cases hpoint : k.point with
  | idle =>
    cases htodo : k.todo with
    -- nothing is left to be done
    | nil => simp only [access, hpoint, htodo]; exact ⟨rfl, rfl⟩
    | cons c cs =>
      have hend : k.endCall = k := by simp only [endCall, hpoint]
      have hcons : k.endCall.calls (c :: cs) = (k.call c).calls cs := by rw [hend]; rfl
      rw [hcons]
      cases c with
      | putQueue ch =>
        -- a character: the length is tested first
        rcases Nat.lt_or_ge k.len consoleRxBufSize with hroom | hfull
        · have haccess : k.access = { k with todo := cs, point := .room ch } := by
            simp only [access, hpoint, htodo, ge_iff_le, if_neg (Nat.not_le.2 hroom)]
          rw [haccess]
          refine Same.calls (Same.call ?_ (.putQueue ch)) cs
          exact ⟨rfl, rfl⟩
        · have haccess : k.access = { k with todo := cs, point := .idle } := by
            simp only [access, hpoint, htodo, ge_iff_le, if_pos hfull]
          rw [haccess, putQueue_full hfull]
          refine Same.calls ?_ cs
          exact ⟨rfl, rfl⟩
      | putsQueue cp =>
        -- a text: the length is tested first, with that of the text
        rcases Nat.lt_or_ge (k.len + cp.length) consoleRxBufSize with hroom | hfull
        · have haccess : k.access = { k with todo := cs, point := .roomFor cp } := by
            simp only [access, hpoint, htodo, ge_iff_le, if_neg (Nat.not_le.2 hroom)]
          rw [haccess]
          refine Same.calls (Same.call ?_ (.putsQueue cp)) cs
          exact ⟨rfl, rfl⟩
        · have haccess : k.access = { k with todo := cs, point := .idle } := by
            simp only [access, hpoint, htodo, ge_iff_le, if_pos hfull]
          rw [haccess, putsQueue_refused hfull]
          refine Same.calls ?_ cs
          exact ⟨rfl, rfl⟩
  | room ch =>
    -- the test has been passed, and is passed again
    rw [hpoint] at h
    simp only [access, endCall, hpoint, call, putQueue, ge_iff_le, if_neg (Nat.not_le.2 h)]
    refine Same.calls ?_ _
    exact ⟨rfl, rfl⟩
  | roomFor cp =>
    -- the test has been passed, and is passed again
    rw [hpoint] at h
    simp only [access, endCall, hpoint, call, putsQueue, ge_iff_le, if_neg (Nat.not_le.2 h)]
    refine Same.calls ?_ _
    exact ⟨rfl, rfl⟩
  | loaded ch l | counted ch l | stored | zero l | loadedFor size l =>
    simp only [access, endCall, hpoint]
    refine Same.calls ?_ _
    exact ⟨rfl, rfl⟩
  | copying rest dst size =>
    cases rest with
    | nil =>
      -- the copy is over
      have hnil : k.write dst [] = k := by
        simp only [write, Memory.store_nil, List.length_nil, List.range'_zero, List.append_nil]
      simp only [access, endCall, hpoint, hnil]
      refine Same.calls ?_ _
      exact ⟨rfl, rfl⟩
    | cons b rest =>
      -- one byte of the copy
      simp only [access, endCall, hpoint, write_cons k dst b rest]
      refine Same.calls ?_ _
      exact ⟨rfl, rfl⟩

theorem written_call (k : KbdData) (c : Call) : k.written ⊆ (k.call c).written := by
  cases c with
  | putQueue ch =>
    simp only [call, putQueue]
    split
    · exact List.Subset.refl _
    · simp only [setLen, write, List.append_assoc]
      exact List.subset_append_left _ _
  | putsQueue cp =>
    simp only [call, putsQueue]
    split
    · exact List.Subset.refl _
    · exact List.subset_append_left _ _

theorem written_calls (k : KbdData) (cs : List Call) : k.written ⊆ (k.calls cs).written := by
  induction cs generalizing k with
  | nil => exact List.Subset.refl _
  | cons c cs ih => exact List.Subset.trans (k.written_call c) (ih (k.call c))

theorem written_endCall (k : KbdData) : k.written ⊆ k.endCall.written := by
  unfold endCall
  split
  case h_1 | h_9 => exact List.Subset.refl _
  case h_2 | h_7 => exact k.written_call _
  all_goals
    simp only [setLen, write, List.append_assoc]
    exact List.subset_append_left _ _

/-- What has been stored has been stored when the key is completed. -/
theorem written_finish (k : KbdData) : k.written ⊆ k.finish.written :=
  List.Subset.trans k.written_endCall (k.endCall.written_calls k.todo)

/-- **Step lemma.**  The room is still there after an access, and the length is no larger than
the buffer. -/
theorem pointOk_access {k : KbdData} (h : k.PointOk) (hlen : k.len ≤ consoleRxBufSize) :
    k.access.PointOk ∧ k.access.len ≤ consoleRxBufSize := by
  unfold PointOk at h
  cases hpoint : k.point with
  | idle =>
    cases htodo : k.todo with
    | nil =>
      simp only [access, hpoint, htodo]
      exact ⟨by simp only [PointOk, hpoint], hlen⟩
    | cons c cs =>
      cases c with
      | putQueue ch =>
        simp only [access, hpoint, htodo, ge_iff_le]
        split
        · exact ⟨trivial, hlen⟩
        · rename_i hroom
          exact ⟨Nat.not_le.1 hroom, hlen⟩
      | putsQueue cp =>
        simp only [access, hpoint, htodo, ge_iff_le]
        split
        · exact ⟨trivial, hlen⟩
        · rename_i hroom
          exact ⟨Nat.not_le.1 hroom, hlen⟩
  | room ch | roomFor cp =>
    rw [hpoint] at h
    simp only [access, hpoint]
    exact ⟨h, hlen⟩
  | loaded ch l =>
    rw [hpoint] at h
    simp only [access, hpoint]
    exact ⟨trivial, h⟩
  | counted ch l | stored | zero l =>
    simp only [access, hpoint]
    exact ⟨trivial, hlen⟩
  | copying rest dst size =>
    rw [hpoint] at h
    cases rest <;> simp only [access, hpoint] <;> exact ⟨h, hlen⟩
  | loadedFor size l =>
    rw [hpoint] at h
    simp only [access, hpoint]
    exact ⟨trivial, Nat.le_of_lt h⟩

theorem key_access (k : KbdData) : k.access.ahead = k.ahead ∧ k.access.bytes = k.bytes := by
  unfold access
  split
  case h_1 => split <;> exact ⟨rfl, rfl⟩
  all_goals exact ⟨rfl, rfl⟩

/-! ## Section 7: Runs -/

/-- Nothing is outside the buffer, and when the key that is being handled is completed it has
been queued as it should be. -/
structure Inv (k : KbdData) : Prop where
  inside : k.Inside
  point : k.PointOk
  finish : k.busy = true → k.finish.Inside ∧ k.finish.queued = appended k.ahead k.bytes

end KbdData

open KbdData

theorem inv_of_not_busy (h : k.busy = false) (hinside : k.Inside) : k.Inv := by
  refine ⟨hinside, ?_, fun hbusy => ?_⟩
  · simp only [PointOk, (not_busy_iff.1 h).1]
  · rw [h] at hbusy
    cases hbusy

theorem length_queued (k : KbdData) : k.queued.length = k.len := Memory.length_load _ _ _

/-- **Step lemma.**  A key begins. -/
theorem KbdData.Inv.begin (h : k.Inv) (hbusy : k.busy = false) {e : KeyEvent}
    (hmisses : Misses k.len (keyCalls keyboardCrlf k e)) : (k.begin keyboardCrlf e).Inv := by
  have hpoint : (k.begin keyboardCrlf e).point = .idle := (not_busy_iff.1 hbusy).1
  have hfinish : (k.begin keyboardCrlf e).finish.Same (k.calls (keyCalls keyboardCrlf k e)) := by
    have hend : (k.begin keyboardCrlf e).endCall = k.begin keyboardCrlf e := by
      simp only [endCall, hpoint]
    rw [KbdData.finish, hend]
    refine Same.calls ?_ _
    exact ⟨rfl, rfl⟩
  obtain ⟨hinside, hqueued⟩ := (callsOk_key_iff h.inside e).2 hmisses
  refine ⟨⟨h.inside.written, h.inside.len_le⟩, ?_, fun _ => ⟨hfinish.inside hinside, ?_⟩⟩
  · simp only [PointOk, hpoint]
  · rw [hfinish.queued, hqueued, ← length_queued]
    rfl

/-- **Step lemma.**  An access goes on with the key. -/
theorem KbdData.Inv.access (h : k.Inv) : k.access.Inv := by
  cases hbusy : k.busy with
  | false =>
    obtain ⟨hpoint, htodo⟩ := not_busy_iff.1 hbusy
    have hsame : k.access = k := by simp only [KbdData.access, hpoint, htodo]
    rwa [hsame]
  | true =>
    obtain ⟨hinside, hqueued⟩ := h.finish hbusy
    have hsame := same_finish h.point
    obtain ⟨hpoint, hlen⟩ := pointOk_access h.point h.inside.len_le
    have hfinish : k.access.finish.Inside := hsame.inside hinside
    refine ⟨⟨fun i hi => hfinish.written i (k.access.written_finish hi), hlen⟩, hpoint,
      fun _ => ⟨hfinish, ?_⟩⟩
    rw [hsame.queued, hqueued, (key_access k).1, (key_access k).2]

theorem len_consoleRx_le {q : Console} (h : q.consoleRxBufLen ≤ consoleRxBufSize)
    (fifo : List Byte) : (q.consoleRx fifo).consoleRxBufLen ≤ consoleRxBufSize := by
  induction fifo generalizing q with
  | nil => exact h
  | cons c fifo ih =>
    refine ih ?_
    rcases Nat.lt_or_ge q.consoleRxBufLen consoleRxBufSize with hroom | hfull
    · rw [receive_room hroom]
      exact hroom
    · rw [receive_full hfull]
      exact h

/-- **Step lemma.**  A step keeps the invariant if no text fills the buffer and no byte comes into
a key. -/
theorem KbdData.Inv.step (h : k.Inv) {e : Event} (hfills : NeverFills keyboardCrlf k e)
    (hquiet : Undisturbed k e) : (step keyboardCrlf k e).Inv := by
  cases e with
  | key e =>
    rw [Keyboard.step]
    split
    · exact h
    · rename_i hbusy
      rw [Bool.not_eq_true] at hbusy
      exact h.begin hbusy (hfills hbusy)
  | access => exact h.access
  | rx fifo =>
    cases hbusy : k.busy with
    | false =>
      exact inv_of_not_busy hbusy ⟨h.inside.written, len_consoleRx_le h.inside.len_le fifo⟩
    | true =>
      obtain rfl := hquiet hbusy
      exact h
  | poll =>
    rw [Keyboard.step]
    split
    · exact h
    · rename_i hbusy
      rw [Bool.not_eq_true] at hbusy
      unfold consolePoll
      split
      · exact h
      · exact inv_of_not_busy hbusy ⟨h.inside.written, Nat.zero_le _⟩

/-- A step that keeps the invariant does what the queue promises. -/
theorem KbdData.Inv.stepOk (h : k.Inv) {e : Event} (h' : (Keyboard.step keyboardCrlf k e).Inv) :
    StepOk keyboardCrlf k e := by
  refine ⟨h'.inside, fun hbusy hdone => ?_⟩
  cases e with
  | key e | poll =>
    rw [Keyboard.step, if_pos hbusy, hbusy] at hdone
    cases hdone
  | rx fifo => exact absurd (hdone.symm.trans hbusy) Bool.false_ne_true
  | access =>
    have hsame := same_finish h.point
    rw [Keyboard.step] at hdone ⊢
    rw [finish_of_not_busy hdone] at hsame
    rw [hsame.queued, (h.finish hbusy).2]

/-- **The keyboard and the console queue.**  In a run of keys, `console_rx` and `console_poll` in
which no text that a key queues would end at the end of the buffer, and no byte comes while a key
is being handled, nothing is written outside the buffer, and keys are queued as a whole or not at
all. -/
theorem keyboard_queue (keyboardCrlf : Bool) (buf : Memory Byte) (es : List Event)
    (hfills : RunMeets (step keyboardCrlf) (NeverFills keyboardCrlf) (init buf) es)
    (hquiet : RunMeets (step keyboardCrlf) Undisturbed (init buf) es) :
    RunMeets (step keyboardCrlf) (StepOk keyboardCrlf) (init buf) es :=
  (hfills.and hquiet).of_invariant KbdData.Inv (fun _ _ hk hok => hk.step hok.1 hok.2)
    (fun _ _ hk hok => hk.stepOk (hk.step hok.1 hok.2))
    (inv_of_not_busy rfl ⟨fun _ hi => absurd hi List.not_mem_nil, Nat.zero_le _⟩)

/-- A byte over the serial line, and `Alt` with the key `a`, which queues two bytes; another byte
comes when they are in the queue. -/
def metaRun : List Event :=
  [.rx [0x41], .key ⟨30, false, false, true, false⟩] ++ List.replicate 12 .access ++
    [.rx [0x42], .poll, .rx [0x43]]

theorem keyboard_queue_meta : RunMeets (step false) (StepOk false) (init fun _ => 0) metaRun :=
  keyboard_queue false (fun _ => 0) metaRun (by decide +kernel) (by decide +kernel)

/-- 63 bytes have come over the serial line when the key `a` is pressed.  With 62 bytes it is
enough that two more come when `put_queue` has tested the length. -/
theorem not_keyboard_queue :
    ¬ RunMeets (step false) (StepOk false) (init fun _ => 0)
      ([.rx (List.replicate 63 0x41), .key ⟨30, false, false, false, false⟩] ++
        List.replicate 6 .access) ∧
    ¬ RunMeets (step false) (StepOk false) (init fun _ => 0)
      ([.rx (List.replicate 62 0x41), .key ⟨30, false, false, false, false⟩, .access,
        .rx [0x42, 0x43]] ++ List.replicate 3 .access) := by
  constructor
  · rintro ⟨-, -, -, -, -, -, -, ⟨hinside, -⟩, -⟩
    exact absurd (hinside.written 64 (by decide +kernel)) (by decide)
  · rintro ⟨-, -, -, -, -, -, ⟨hinside, -⟩, -⟩
    exact absurd (hinside.written 64 (by decide +kernel)) (by decide)

end Karnix.Keyboard
