import Karnix.Keyboard.Handlers
import Mathlib.Data.List.Count

/-!
# HID reports

`kbd_hid_keycode` of `keyboard.c`.  A boot report has the modifiers and six slots with the keys
that are down, in no particular order.  The presses and releases are the differences between a
report and the last one that was not an error; a report that has the same key in every slot as the
last one makes the key in its last slot repeat.
-/

namespace Karnix.Keyboard

open Karnix.Library

/-! ## Section 1: `kbd_hid_keycode` -/

/-- `KEY_A`, the first code of a key; those before it are errors. -/
def keyA : Byte := 4

/-- `hid_keycode_to_linux_event`: the code that a key of a report has in the tables. -/
def hidKeycodeToLinuxEvent : List ℕ :=
  [0, 0, 0, 0, 30, 48, 46, 32, 18, 33, 34, 35, 23, 36, 37, 38,
   50, 49, 24, 25, 16, 19, 31, 20, 22, 47, 17, 45, 21, 44, 2, 3,
   4, 5, 6, 7, 8, 9, 10, 11, 28, 1, 14, 15, 57, 12, 13, 26,
   27, 43, 43, 39, 40, 41, 51, 52, 53, 58, 59, 60, 61, 62, 63, 64,
   65, 66, 67, 68, 87, 88, 99, 70, 119, 110, 102, 104, 111, 107, 109, 106,
   105, 108, 103, 69, 98, 55, 74, 78, 96, 79, 80, 81, 75, 76, 77, 71,
   72, 73, 82, 83, 86, 127, 116, 117, 183, 184, 185, 186, 187, 188, 189, 190,
   191, 192, 193, 194, 134, 138, 130, 132, 128, 129, 131, 137, 133, 135, 136, 113,
   115, 114, 24, 24, 24, 121, 24, 89, 93, 124, 92, 94, 95, 24, 24, 24,
   122, 123, 90, 91, 85, 24, 24, 24, 24, 24, 24, 24, 111, 24, 24, 24,
   24, 24, 24, 24, 24, 24, 24, 24, 24, 24, 24, 24, 24, 24, 24, 24,
   24, 24, 24, 24, 24, 24, 179, 180, 24, 24, 24, 24, 24, 24, 24, 24,
   24, 24, 24, 24, 24, 24, 24, 24, 24, 24, 24, 24, 24, 24, 24, 24,
   24, 24, 24, 24, 24, 24, 24, 24, 111, 24, 24, 24, 24, 24, 24, 24,
   29, 42, 56, 125, 97, 54, 100, 126, 164, 166, 165, 163, 161, 115, 114, 113,
   150, 158, 159, 128, 136, 177, 178, 176, 142, 152, 173, 140, 24, 24, 24, 24]

/-- `hid_response`: the modifiers, and bytes 2 to 7. -/
structure Report where
  modifiers : Byte
  slots : Vector Byte 6
  deriving DecidableEq

/-- Why `kbd_hid_keycode` calls `kbd_keycode`: a key has gone, has come, or all are held on. -/
inductive HidEvent where
  | release (key : Byte)
  | press (key : Byte)
  /-- With the last key of the report, if there is one. -/
  | again (key : Option Byte)
  deriving DecidableEq

/-- The number of the event that is handed to `kbd_keycode`. -/
def HidEvent.keyEvent : HidEvent → ℕ
  | .release key => hidKeycodeToLinuxEvent.getD key.toNat 0
  | .press key => hidKeycodeToLinuxEvent.getD key.toNat 0
  | .again (some key) => hidKeycodeToLinuxEvent.getD key.toNat 0
  | .again none => 0

/-- The call of `kbd_keycode`, with the modifiers of the report. -/
def HidEvent.call (r : Report) (e : HidEvent) : KeyEvent where
  keycode := e.keyEvent
  shiftPressed := r.modifiers &&& 0x22 ≠ 0
  ctrlPressed := r.modifiers &&& 0x11 ≠ 0
  altPressed := r.modifiers &&& 0xcc ≠ 0
  upFlag := match e with
    | .release _ => true
    | _ => false

/-- The report is not an error. -/
def Report.Accepted (r : Report) : Prop := ¬ (0 < r.slots[0] ∧ r.slots[0] < keyA)

instance (r : Report) : Decidable r.Accepted := inferInstanceAs (Decidable (¬ _))

def Report.keys (r : Report) : List Byte := r.slots.toList

/-- The keys of one report that are not in another one. -/
def newKeys (r prev : Report) : List Byte :=
  r.keys.filter fun key => keyA ≤ key ∧ key ∉ prev.keys

/-- `repeat_key_event`, as a key. -/
def repeatKey (r : Report) : Option Byte :=
  r.keys.foldl (fun last key => if keyA ≤ key then some key else last) none

/-- `repeat_flag`: at how many places two reports show the same key. -/
def repeatFlag (prev r : Report) : ℕ :=
  (List.zip r.keys prev.keys).countP fun pair => pair.1 == pair.2

/-- `kbd_hid_keycode`: the calls of `kbd_keycode`, and `prev_hid_response` after them. -/
def kbdHidKeycode (prev r : Report) : List HidEvent × Report :=
  if r.Accepted then
    ((newKeys prev r).map .release ++ (newKeys r prev).map .press ++
      if repeatFlag prev r = 6 then [.again (repeatKey r)] else [], r)
  else ([], prev)

/-- `prev_hid_response` when the monitor starts. -/
def noKeys : Report := ⟨0, Vector.replicate 6 0⟩

/-- The calls of a sequence of reports. -/
def events : Report → List Report → List HidEvent
  | _, [] => []
  | prev, r :: rs => (kbdHidKeycode prev r).1 ++ events (kbdHidKeycode prev r).2 rs

/-- `prev_hid_response` after a sequence of reports. -/
def remembered (prev : Report) (rs : List Report) : Report :=
  rs.foldl (fun prev r => (kbdHidKeycode prev r).2) prev

/-! ## Section 2: The keys that are down -/

/-- A press of the key, or a release. -/
def edge (key : Byte) : HidEvent → Option Bool
  | .press key' => if key' = key then some true else none
  | .release key' => if key' = key then some false else none
  | .again _ => none

/-- The presses and releases of a key. -/
def edges (key : Byte) (es : List HidEvent) : List Bool := es.filterMap (edge key)

/-- Presses and releases take turns; `next` is the first one. -/
def Alternate : Bool → List Bool → Prop
  | _, [] => True
  | next, e :: es => e = next ∧ Alternate (!next) es

/-- The last report that was not an error. -/
def lastAccepted (rs : List Report) : Option Report :=
  (rs.filter fun r => r.Accepted).getLast?

/-- The key is down: it was pressed and has not been released. -/
def Down (key : Byte) (rs : List Report) : Prop :=
  (edges key (events noKeys rs)).getLast? = some true

/-- What holds of a key after a sequence of reports: it is pressed and released in turns, it is
down if the last report says so, and it repeats only while it is down, for a report with the
slots of the one before. -/
structure Follows (key : Byte) (rs : List Report) : Prop where
  alternate : Alternate true (edges key (events noKeys rs))
  down : Down key rs ↔ ∃ r, lastAccepted rs = some r ∧ key ∈ r.keys
  again : ∀ before r after, rs = before ++ r :: after →
    .again (some key) ∈ (kbdHidKeycode (remembered noKeys before) r).1 →
    Down key before ∧ Down key (before ++ [r]) ∧ r.Accepted ∧
      ∃ prev, lastAccepted before = some prev ∧ r.slots = prev.slots

/-- No key is in two slots. -/
def Report.Distinct (r : Report) : Prop := (r.keys.filter fun key => keyA ≤ key).Nodup

instance (r : Report) : Decidable r.Distinct := inferInstanceAs (Decidable (List.Nodup _))

/-! ## Section 3: One report -/

variable {prev r : Report} {key : Byte} {rs : List Report}

theorem mem_newKeys : key ∈ newKeys r prev ↔ key ∈ r.keys ∧ keyA ≤ key ∧ key ∉ prev.keys := by
  rw [newKeys, List.mem_filter, decide_eq_true_iff]

theorem nodup_newKeys (h : r.Distinct) : (newKeys r prev).Nodup := by
  refine h.sublist ?_
  have hsplit : newKeys r prev =
      (r.keys.filter fun key => keyA ≤ key).filter fun key => key ∉ prev.keys := by
    rw [newKeys, List.filter_filter]
    congr 1
    funext key
    rw [Bool.decide_and, Bool.and_comm]
  rw [hsplit]
  exact List.filter_sublist

theorem count_newKeys (h : r.Distinct) :
    (newKeys r prev).count key = if key ∈ newKeys r prev then 1 else 0 :=
  (nodup_newKeys h).count

@[simp] theorem edges_append (es es' : List HidEvent) :
    edges key (es ++ es') = edges key es ++ edges key es' := List.filterMap_append

theorem edges_map {f : Byte → HidEvent} {b : Bool}
    (hf : ∀ key', edge key (f key') = if key' = key then some b else none) (l : List Byte) :
    edges key (l.map f) = List.replicate (l.count key) b := by
  induction l with
  | nil => rfl
  | cons key' l ih =>
    rw [List.map_cons, edges, List.filterMap_cons, hf, List.count_cons]
    by_cases heq : key' = key
    · rw [if_pos heq, heq, if_pos (beq_self_eq_true key), List.replicate_succ]
      exact congrArg (b :: ·) ih
    · rw [if_neg heq, if_neg (by simpa using heq)]
      exact ih

theorem edges_release (l : List Byte) :
    edges key (l.map .release) = List.replicate (l.count key) false := edges_map (fun _ => rfl) l

theorem edges_press (l : List Byte) :
    edges key (l.map .press) = List.replicate (l.count key) true := edges_map (fun _ => rfl) l

/-- **Step lemma.**  A report that is not an error has one press, one release or neither, as it
differs from the one before. -/
theorem edges_kbdHidKeycode (hprev : prev.Distinct) (hr : r.Distinct) (hkey : keyA ≤ key)
    (haccept : r.Accepted) :
    edges key (kbdHidKeycode prev r).1 =
      if key ∈ prev.keys then if key ∈ r.keys then [] else [false]
      else if key ∈ r.keys then [true] else [] := by
  have hagain : edges key (if repeatFlag prev r = 6 then [.again (repeatKey r)] else []) = [] := by
    split <;> rfl
  rw [kbdHidKeycode, if_pos haccept]
  simp only [edges_append, edges_release, edges_press, hagain, List.append_nil,
    count_newKeys hprev, count_newKeys hr, mem_newKeys, hkey, true_and]
  by_cases hold : key ∈ prev.keys <;> by_cases hnew : key ∈ r.keys <;> simp [hold, hnew]

/-- The slots are equal where all six were found to be. -/
theorem slots_eq (h : repeatFlag prev r = 6) : r.slots = prev.slots := by
  have hlen : (List.zip r.keys prev.keys).length = 6 := by simp [Report.keys]
  have hall := List.countP_eq_length.1 (h.trans hlen.symm)
  apply Vector.ext
  intro i hi
  have hmem : (r.slots[i], prev.slots[i]) ∈ List.zip r.keys prev.keys := by
    refine List.mem_iff_getElem.2 ⟨i, by omega, ?_⟩
    simp [Report.keys]
  simpa using hall _ hmem

theorem foldl_repeatKey (l : List Byte) (last : Option Byte)
    (h : l.foldl (fun last key => if keyA ≤ key then some key else last) last = some key) :
    last = some key ∨ key ∈ l := by
  induction l generalizing last with
  | nil => exact Or.inl h
  | cons key' l ih =>
    rcases ih _ h with hlast | hmem
    · simp only at hlast
      by_cases hkey' : keyA ≤ key'
      · rw [if_pos hkey'] at hlast
        exact Or.inr (Option.some.inj hlast ▸ List.mem_cons_self ..)
      · rw [if_neg hkey'] at hlast
        exact Or.inl hlast
    · exact Or.inr (List.mem_cons_of_mem _ hmem)

/-- What a repeat says about the report. -/
theorem again_mem (h : .again (some key) ∈ (kbdHidKeycode prev r).1) :
    r.Accepted ∧ r.slots = prev.slots ∧ key ∈ r.keys := by
  rw [kbdHidKeycode] at h
  split at h
  · rename_i haccept
    simp only [List.mem_append, List.mem_map, reduceCtorEq, and_false, exists_false, false_or] at h
    split at h
    · rename_i hflag
      have hrepeat := HidEvent.again.inj (List.mem_singleton.1 h)
      exact ⟨haccept, slots_eq hflag, (foldl_repeatKey r.keys none hrepeat.symm).resolve_left
        (fun hnone => by cases hnone)⟩
    · cases h
  · cases h

/-! ## Section 4: Sequences of reports -/

theorem remembered_eq (prev : Report) (rs : List Report) :
    remembered prev rs = (lastAccepted rs).getD prev := by
  induction rs generalizing prev with
  | nil => rfl
  | cons r rs ih =>
    rw [remembered, List.foldl_cons, ← remembered, ih]
    by_cases haccept : r.Accepted
    · rw [kbdHidKeycode, if_pos haccept, lastAccepted, lastAccepted,
        List.filter_cons_of_pos (by simpa using haccept), List.getLast?_cons]
      rfl
    · rw [kbdHidKeycode, if_neg haccept, lastAccepted, lastAccepted,
        List.filter_cons_of_neg (by simpa using haccept)]

theorem distinct_noKeys : noKeys.Distinct := by decide

/-- **Run lemma.**  The presses and releases alternate from the state in the remembered report,
and lead to that in the last one. -/
theorem alternate_events (hprev : prev.Distinct) (hrs : ∀ r ∈ rs, r.Distinct)
    (hkey : keyA ≤ key) :
    Alternate (decide (key ∉ prev.keys)) (edges key (events prev rs)) ∧
      (edges key (events prev rs)).getLast?.getD (decide (key ∈ prev.keys)) =
        decide (key ∈ (remembered prev rs).keys) := by
  induction rs generalizing prev with
  | nil => exact ⟨trivial, rfl⟩
  | cons r rs ih =>
    have hr := hrs r (List.mem_cons_self ..)
    have hrest := fun r' h => hrs r' (List.mem_cons_of_mem r h)
    rw [events, edges_append, remembered, List.foldl_cons, ← remembered]
    by_cases haccept : r.Accepted
    · have hnext : (kbdHidKeycode prev r).2 = r := by rw [kbdHidKeycode, if_pos haccept]
      obtain ⟨halt, hlast⟩ := ih hr hrest
      rw [edges_kbdHidKeycode hprev hr hkey haccept, hnext, ← hlast]
      by_cases hold : key ∈ prev.keys <;> by_cases hnew : key ∈ r.keys <;>
        simp [hold, hnew, Alternate, List.getLast?_cons] at halt ⊢ <;> exact halt
    · rw [kbdHidKeycode, if_neg haccept]
      exact ih hprev hrest

theorem not_mem_noKeys (hkey : keyA ≤ key) : key ∉ noKeys.keys := by
  intro hmem
  have hzero : ∀ key ∈ noKeys.keys, key = 0 := by decide
  rw [hzero key hmem] at hkey
  exact absurd hkey (by decide)

theorem down_iff (hrs : ∀ r ∈ rs, r.Distinct) (hkey : keyA ≤ key) :
    Down key rs ↔ key ∈ (remembered noKeys rs).keys := by
  have hlast := (alternate_events distinct_noKeys hrs hkey).2
  rw [decide_eq_false (not_mem_noKeys hkey)] at hlast
  rw [Down, ← decide_eq_true_iff (p := key ∈ (remembered noKeys rs).keys), ← hlast]
  cases (edges key (events noKeys rs)).getLast? <;> simp

/-- A key that is in the remembered report is in one that was accepted. -/
theorem mem_remembered (hkey : keyA ≤ key) :
    key ∈ (remembered noKeys rs).keys ↔ ∃ r, lastAccepted rs = some r ∧ key ∈ r.keys := by
  rw [remembered_eq]
  cases lastAccepted rs with
  | none => simp [not_mem_noKeys hkey]
  | some r => simp

/-- **Keyboard events follow the keys.** -/
theorem hidReports_follow (rs : List Report) (hrs : ∀ r ∈ rs, r.Distinct) (key : Byte)
    (hkey : keyA ≤ key) : Follows key rs where
  alternate := by
    have halt := (alternate_events distinct_noKeys hrs hkey).1
    rwa [decide_eq_true (not_mem_noKeys hkey)] at halt
  down := (down_iff hrs hkey).trans (mem_remembered hkey)
  again := by
    rintro before r after rfl hagain
    obtain ⟨haccept, hslots, hmem⟩ := again_mem hagain
    have hbefore : ∀ r ∈ before, r.Distinct := fun r' h => hrs r' (List.mem_append_left _ h)
    have hto : ∀ r' ∈ before ++ [r], r'.Distinct := fun r' h => by
      rcases List.mem_append.1 h with h | h
      · exact hbefore r' h
      · exact List.mem_singleton.1 h ▸ hrs r (List.mem_append_right _ (List.mem_cons_self ..))
    have hkeys : key ∈ (remembered noKeys before).keys := by
      rw [Report.keys, ← hslots]
      exact hmem
    have hafter : remembered noKeys (before ++ [r]) = r := by
      rw [remembered, List.foldl_append, List.foldl_cons, List.foldl_nil, kbdHidKeycode,
        if_pos haccept]
    refine ⟨(down_iff hbefore hkey).2 hkeys, (down_iff hto hkey).2 ?_, haccept, ?_⟩
    · rw [hafter]
      exact hmem
    · obtain ⟨prev, hprev, -⟩ := (mem_remembered hkey).1 hkeys
      refine ⟨prev, hprev, ?_⟩
      rw [remembered_eq, hprev] at hslots
      exact hslots

/-- The key `a`, twice the same report, an error, and `b` in its place. -/
theorem hidReports_follow_a :
    Follows 4 [⟨0, #v[4, 0, 0, 0, 0, 0]⟩, ⟨0, #v[4, 0, 0, 0, 0, 0]⟩, ⟨0, #v[1, 1, 1, 1, 1, 1]⟩,
      ⟨0, #v[5, 0, 0, 0, 0, 0]⟩] :=
  hidReports_follow _ (by simp only [List.forall_mem_cons]; decide) 4 (by decide)

end Karnix.Keyboard
