import Karnix.Fat.Allocation
import Karnix.Fat.File
import Mathlib.Data.List.TakeWhile

/-!
# Paths

What a path names is the root, or an entry found by matching each component in the directory that
the components before it name.  `follow_path` leaves either in the same `Dir`: for the root its
first slot, for an entry its slot, and in a `Loc` where the entry starts, which it does not set
for the root.  `fat_dir_open` and `fat_unlink` then tell the root by its slot, which the first
entry of the root is in as well; `fat_stat` and `fat_file_open` do not tell it at all.

The disk operations may fail in any pattern.
-/

namespace Karnix.Fat

open Karnix.Library
open Program (Keeps)
open Fallible (keeps_then)

variable (v : Volume)

/-! ## Section 1: What a path names -/

/-- The components of a path. -/
def components (path : List Byte) : List (List Byte) :=
  (path.splitOn slash).filter fun name => name ≠ []

/-- What a path names: the root, or the entry at `dir` with its first slot at `loc`. -/
inductive Named
  | root
  | entry (dir : Dir) (loc : Loc)

/-- The cluster of what is named, and whether it is a directory. -/
def Named.enter : Named → FatM (ℕ × Bool)
  | .root => pure (v.rootClust, true)
  | .entry dir _ => do
    updateBuf v dir.sect
    let fat ← .read id
    pure (sfnCluster fat.buf dir.idx, sfnAttr fat.buf dir.idx &&& attrDir ≠ 0)

/-- Match each component in the directory named by the ones before it.  Nothing is named if one
is not there. -/
def nameFrom : List (List Byte) → Named → FatM (Option Named)
  | [], at_ => pure (some at_)
  | name :: names, at_ => do
    let r ← at_.enter v
    if !r.2 then .throw .path
    else do
      let found ← (dirSearch v (v.dirEnter r.1) name).attempt
      match found with
      | .error .eof => pure none
      | .error err => .throw err
      | .ok (dir, loc) => nameFrom names (.entry dir loc)

/-- What a path names on the volume: its first component is the name of the volume. -/
def namedBy : List Byte → FatM (Option Named)
  | [] => .throw .path
  | c :: str =>
    if c ≠ slash ∨ firstName str = [] ∨ firstName str ≠ v.name then .throw .path
    else nameFrom v (components (str.drop (firstName str).length)) .root

/-! ## Section 2: The functions -/

/-- `follow_path`, where `garbage` is what `loc` holds before. -/
def followPathInto (garbage : Loc) (path : List Byte) : FatM Found :=
  match path with
  | [] => .throw .path
  | c :: str =>
    if c ≠ slash then .throw .path
    else if firstName str = [] ∨ firstName str ≠ v.name then .throw .path
    else followFrom v (str.length + 1)
      ⟨true, v.dirEnter v.rootClust, garbage, str.drop (firstName str).length⟩
      (v.dirEnter v.rootClust).clust true

/-- What a function takes for what the path names: the root, or the slot at `idx` of a sector. -/
inductive Subject
  | root
  | slot (sect idx : ℕ)
  deriving DecidableEq

/-- `fat_dir_open` behind `follow_path`. -/
def dirOpenOn (dir : Dir) : Subject → FatM Dir
  | .root => pure dir
  | .slot sect idx => do
    updateBuf v sect
    let fat ← .read id
    if sfnAttr fat.buf idx &&& attrDir = 0 then .throw .path
    else pure (v.dirEnter (sfnCluster fat.buf idx))

def dirOpenSubject (r : Found) : Subject :=
  if v.DirAtRoot r.dir then .root else .slot r.dir.sect r.dir.idx

/-- `fat_dir_open`: the directory that a path names. -/
def fatDirOpen (path : List Byte) : FatM Dir := do
  let r ← followPath v path
  if !r.found then .throw .eof else dirOpenOn v r.dir (dirOpenSubject v r)

/-- `fat_stat` behind `follow_path`. -/
def statOn (dir : Dir) : Subject → FatM DirInfo
  | .root => .throw .path
  | .slot sect idx => do
    let r ← fatDirRead v { dir with clust := v.sectToClust sect, sect := sect, idx := idx }
    pure r.1

def statSubject (r : Found) : Subject := .slot r.loc.sect r.loc.idx

/-- `fat_stat`: what the entry that a path names says; the place of an entry is garbage where none
was found. -/
def fatStat (garbage : Loc) (path : List Byte) : FatM DirInfo := do
  let r ← followPathInto v garbage path
  if !r.found then .throw .eof
  else if firstName r.path ≠ [] then .throw .path
  else statOn v r.dir (statSubject r)

/-- `fat_unlink` behind `follow_path`; `dir_ptr` is the slot in the buffer. -/
def unlinkOn (r : Found) : Subject → FatM PUnit
  | .root => .throw .denied
  | .slot _ idx => do
    let fat ← .read id
    if sfnAttr fat.buf idx &&& 0x0d ≠ 0 then .throw .denied
    else do
      checkDir v (sfnAttr fat.buf idx) (sfnCluster fat.buf idx)
      removeChain v (sfnCluster fat.buf idx)
      removeEntries v r.dir r.loc
      syncFs v

def unlinkSubject (r : Found) (s : State) : Subject :=
  if v.DirAtRoot r.dir then .root else .slot s.sect r.dir.idx

/-- `fat_file_open` behind `follow_path` and the creation of a file; `dir_ptr` is the slot in the
buffer. -/
def fileOpenOn (dir : Dir) (flags : FileFlags) : Subject → FileM PUnit
  | .root => .throw .path
  | .slot _ idx => do
    .modify fun s => { s with file := .ofEntry s.fat { dir with idx := idx } flags s.file.buf }
    fatFileSeek v 0 (if flags.append then .fileEnd else .start)

def fileOpenSubject (dir : Dir) (s : State) : Subject := .slot s.sect dir.idx

/-! ## Section 3: What the functions are to do -/

/-- What `follow_path` leaves for what a path names. -/
def Named.found (garbage : Loc) : Named → Found
  | .root => ⟨true, v.dirEnter v.rootClust, garbage, []⟩
  | .entry dir loc => ⟨true, dir, loc, []⟩

/-- The slot of the entry that is named. -/
def Named.subject : Named → Subject
  | .root => .root
  | .entry dir _ => .slot dir.sect dir.idx

/-- The first of its slots. -/
def Named.first : Named → Subject
  | .root => .root
  | .entry _ loc => .slot loc.sect loc.idx

/-- A function works on what the path names: `follow_path` leads there, and the function goes on
with it.  If the path names nothing the function fails, and nothing has changed. -/
structure ActsOn {α : Type} (path : List Byte) (s : State) (f : FatM α)
    (act : Named → State → Subject → FatM α) (takes : Named → State → Subject)
    (wants : Named → Subject) : Prop where
  ends : (namedBy v path s).1 ≠ none
  named : ∀ at_ s', namedBy v path s = (some (.ok (some at_)), s') →
    f s = act at_ s' (takes at_ s') s' ∧ takes at_ s' = wants at_
  unnamed : (∀ at_ s', namedBy v path s ≠ (some (.ok (some at_)), s')) →
    ∃ e s', f s = (some (.error e), s') ∧ s'.view = s.view

def DirOpenActs (path : List Byte) (s : State) : Prop :=
  ActsOn v path s (fatDirOpen v path) (fun at_ _ => dirOpenOn v (at_.found v ⟨0, 0⟩).dir)
    (fun at_ _ => dirOpenSubject v (at_.found v ⟨0, 0⟩)) Named.subject

def StatActs (garbage : Loc) (path : List Byte) (s : State) : Prop :=
  ActsOn v path s (fatStat v garbage path) (fun at_ _ => statOn v (at_.found v garbage).dir)
    (fun at_ _ => statSubject (at_.found v garbage)) Named.first

def UnlinkActs (path : List Byte) (s : State) : Prop :=
  ActsOn v path s (fatUnlink v path) (fun at_ _ => unlinkOn v (at_.found v ⟨0, 0⟩))
    (fun at_ s' => unlinkSubject v (at_.found v ⟨0, 0⟩) s') Named.subject

/-- `fat_file_open` works on the entry that is named.  If the last component is missing it may
create it, and then works on the new entry. -/
structure FileOpenActs (path : List Byte) (flags : FileFlags) (t : Session) : Prop where
  ends : (namedBy v path t.fat).1 ≠ none
  named : ∀ at_ s', namedBy v path t.fat = (some (.ok (some at_)), s') →
    fatFileOpen v path flags t = fileOpenOn v (at_.found v ⟨0, 0⟩).dir flags
      (fileOpenSubject (at_.found v ⟨0, 0⟩).dir s') { t with fat := s' } ∧
    fileOpenSubject (at_.found v ⟨0, 0⟩).dir s' = at_.subject
  failed : ∀ err s', namedBy v path t.fat = (some (.error err), s') →
    ∃ e t', fatFileOpen v path flags t = (some (.error e), t') ∧ t'.fat.view = t.fat.view
  missing : ∀ s', namedBy v path t.fat = (some (.ok none), s') → flags.create = false →
    ∃ e t', fatFileOpen v path flags t = (some (.error e), t') ∧ t'.fat.view = t.fat.view
  created : ∀ s' dir s₂, namedBy v path t.fat = (some (.ok none), s') →
    openEntry v path flags t.fat = (some (.ok dir), s₂) →
      fatFileOpen v path flags t =
        fileOpenOn v dir flags (fileOpenSubject dir s₂) { t with fat := s₂ } ∧
      fileOpenSubject dir s₂ = .slot dir.sect dir.idx

/-- A file that cannot be created leaves nothing behind. -/
def CreateSafe (path : List Byte) (flags : FileFlags) (s : State) : Prop :=
  ∀ s' e s₂, namedBy v path s = (some (.ok none), s') →
    openEntry v path flags s = (some (.error e), s₂) → s₂.view = s.view

/-! ## Section 4: When they do -/

/-- The search for every component ends. -/
def PathEnds (path : List Byte) (s : State) : Prop := (namedBy v path s).1 ≠ none

/-- The path does not name the root. -/
def NotRoot (path : List Byte) (s : State) : Prop :=
  ∀ s', namedBy v path s ≠ (some (.ok (some .root)), s')

/-- The entry that the path names is not where a walk through the root starts. -/
def NotRootSlot (path : List Byte) (s : State) : Prop :=
  ∀ dir loc s', namedBy v path s = (some (.ok (some (.entry dir loc))), s') → ¬ v.DirAtRoot dir

/-- The directory takes a new entry: the name is not too long, there are free slots for it or a
cluster to stretch the directory with, and the slots are written. -/
structure DirTakes (sclust : ℕ) (name : List Byte) (attr : Byte) (clust : ℕ) (s : State) :
    Prop where
  length : name.length ≤ 255
  room : ∀ e s', findSlots v ((name.length + 12) / 13 + 1) (v.maxEntries + 1) ⟨0, 0, 0, false⟩
    (v.dirEnter sclust) s ≠ (some (.error e), s')
  written : ∀ r s' e s₂, findSlots v ((name.length + 12) / 13 + 1) (v.maxEntries + 1)
      ⟨0, 0, 0, false⟩ (v.dirEnter sclust) s = (some (.ok r), s') →
    putEntries v name attr clust r s' ≠ (some (.error e), s₂)

/-- If the walk ends at a last component that is not there and the file is to be created: its
cluster is allocated without a failing put or sync, and the directory takes the new entry. -/
def CreateFits (path : List Byte) (flags : FileFlags) (s : State) : Prop :=
  ∀ r s', followPath v path s = (some (.ok r), s') → r.found = false → flags.create = true →
    lastName r.path ≠ [] →
      ¬ PutFails v 0 s' ∧ ¬ SyncFails v 0 s' ∧
        ∀ clust s₁, createChain v s' = (some (.ok clust), s₁) →
          DirTakes v r.dir.sclust (lastName r.path) attrArchive clust s₁

/-! ## Section 5: The buffer behind a search -/

section Buffer

variable {v} {s s' : State} {dir dir' : Dir} {n : ℕ}

theorem loadBuf_sect {sect : ℕ} {u : PUnit} (h : loadBuf v sect s = (some (.ok u), s')) :
    s'.sect = sect := by
  obtain ⟨r, s₁, hread, hrest⟩ := Fallible.exists_of_bind_ok h
  by_cases hok : r.2 = true
  · rw [if_pos hok] at hrest
    cases hrest
    rfl
  · rw [if_neg hok] at hrest
    cases hrest

theorem updateBuf_sect {sect : ℕ} {u : PUnit} (h : updateBuf v sect s = (some (.ok u), s')) :
    s'.sect = sect := by
  by_cases hsect : s.sect = sect
  · have hrun : updateBuf v sect s = (some (.ok ⟨⟩), s) := congrFun (if_neg (not_not_intro hsect)) s
    rw [hrun] at h
    cases h
    exact hsect
  · have hrun : updateBuf v sect s = (syncBuf v >>= fun _ => loadBuf v sect) s :=
      congrFun (if_pos hsect) s
    rw [hrun] at h
    obtain ⟨_, s₁, -, hload⟩ := Fallible.exists_of_bind_ok h
    exact loadBuf_sect hload

/-- There is nothing to be done for the sector that is buffered. -/
theorem updateBuf_same {sect : ℕ} (h : s.sect = sect) :
    updateBuf v sect s = (some (.ok ⟨⟩), s) := congrFun (if_neg (not_not_intro h)) s

theorem takeFrags_sect (hs : s.sect = dir.sect)
    (h : takeFrags v n dir s = (some (.ok dir'), s')) : s'.sect = dir'.sect := by
  induction n generalizing dir s with
  | zero =>
    cases h
    exact hs
  | succ n ih =>
    rw [takeFrags, Fallible.read_bind] at h
    split at h
    · cases h
    · obtain ⟨_, s₁, -, h⟩ := Fallible.exists_of_bind_ok h
      obtain ⟨dir₁, s₂, -, h⟩ := Fallible.exists_of_bind_ok h
      obtain ⟨_, s₃, hload, h⟩ := Fallible.exists_of_bind_ok h
      exact ih (updateBuf_sect hload) h

theorem parseLfnName_sect (h : parseLfnName v dir s = (some (.ok dir'), s')) :
    s'.sect = dir'.sect := by
  obtain ⟨_, s₁, hload, h⟩ := Fallible.exists_of_bind_ok h
  rw [Fallible.read_bind, Fallible.modify_bind] at h
  split at h
  · cases h
  split at h
  · cases h
  obtain ⟨dir₁, s₂, hfrags, h⟩ := Fallible.exists_of_bind_ok h
  rw [checkLen, Fallible.read_bind] at h
  split at h
  · cases h
    have hsect : s₁.sect = dir.sect := updateBuf_sect hload
    exact takeFrags_sect (by exact hsect) hfrags
  · cases h

/-- The entry that is found is in the buffer. -/
theorem searchFrom_sect {name : List Byte} {r : Dir × Loc}
    (h : searchFrom v name n dir s = (some (.ok r), s')) : s'.sect = r.1.sect := by
  induction n generalizing dir s with
  | zero => cases h
  | succ n ih =>
    obtain ⟨_, s₁, hload, h⟩ := Fallible.exists_of_bind_ok h
    have hnext : ∀ {d s₁}, (dirNext v d >>= searchFrom v name n) s₁ = (some (.ok r), s') →
        s'.sect = r.1.sect := by
      intro d s₁ h
      obtain ⟨d', s₂, -, h⟩ := Fallible.exists_of_bind_ok h
      exact ih h
    rw [Fallible.read_bind] at h
    split at h
    · cases h
    split at h
    · exact hnext h
    split at h
    · obtain ⟨sfn, s₂, hparse, h⟩ := Fallible.exists_of_bind_ok h
      rw [Fallible.read_bind] at h
      split at h
      · cases h
      split at h
      · cases h
        exact parseLfnName_sect hparse
      · exact hnext h
    split at h
    · cases h
      exact updateBuf_sect hload
    · exact hnext h

theorem dirSearch_sect {name : List Byte} {r : Dir × Loc}
    (h : dirSearch v dir name s = (some (.ok r), s')) : s'.sect = r.1.sect := searchFrom_sect h

end Buffer

/-! ## Section 6: Components -/

theorem components_slash (str : List Byte) : components (slash :: str) = components str := by
  rw [components, components, List.splitOn_cons_eq_if_modifyHead, if_pos (by decide)]
  simp

theorem components_dropWhile (str : List Byte) :
    components (str.dropWhile fun c => c == slash) = components str := by
  induction str with
  | nil => rfl
  | cons c str ih =>
    by_cases hc : c = slash
    · subst hc
      rw [List.dropWhile_cons_of_pos (by decide), ih, components_slash]
    · rw [List.dropWhile_cons_of_neg (by simpa using hc)]

theorem notMem_firstName (str : List Byte) : slash ∉ firstName str := by
  intro h
  simpa using List.mem_takeWhile_imp h

theorem drop_firstName (str : List Byte) :
    str.drop (firstName str).length = str.dropWhile fun c => c != slash := by
  have happ : firstName str ++ (str.dropWhile fun c => c != slash) = str :=
    List.takeWhile_append_dropWhile
  calc str.drop (firstName str).length
      = (firstName str ++ str.dropWhile fun c => c != slash).drop (firstName str).length := by
        rw [happ]
    _ = str.dropWhile fun c => c != slash := List.drop_left

/-- The first component, and what is behind it. -/
theorem components_firstName {str : List Byte} (h : firstName str ≠ []) :
    components str = firstName str :: components (str.drop (firstName str).length) := by
  rw [drop_firstName]
  have happ : firstName str ++ (str.dropWhile fun c => c != slash) = str :=
    List.takeWhile_append_dropWhile
  conv_lhs => rw [← happ]
  cases hrest : str.dropWhile fun c => c != slash with
  | nil =>
    have hnil : components [] = [] := rfl
    rw [List.append_nil, hnil, components, List.splitOn_eq_singleton (notMem_firstName str)]
    simp [h]
  | cons c rest =>
    have hc : c = slash := by
      have hhead := List.head_dropWhile_not (fun c => c != slash) (l := str) (by simp [hrest])
      simpa [hrest] using hhead
    subst hc
    rw [components_slash, components,
      List.splitOn_append_cons_self_of_not_mem (notMem_firstName str)]
    simp [h, components]

theorem components_nil {str : List Byte} (h : firstName (str.dropWhile fun c => c == slash) = []) :
    str.dropWhile (fun c => c == slash) = [] := by
  cases hstr : str.dropWhile fun c => c == slash with
  | nil => rfl
  | cons c rest =>
    have hhead := List.head_dropWhile_not (fun c => c == slash) (l := str) (by simp [hstr])
    have hc : (c != slash) = true := by simpa [hstr] using hhead
    rw [hstr, firstName, List.takeWhile_cons_of_pos (p := fun c => c != slash) hc] at h
    cases h

/-! ## Section 7: `follow_path` against what a path names -/

section Following

variable {v} {s : State} {garbage : Loc}

/-- What `follow_path` returns for what matching the components gives. -/
def Agrees (v : Volume) (garbage : Loc) (a : Option (Except Err (Option Named)) × State)
    (b : Option (Except Err Found) × State) : Prop :=
  b.2 = a.2 ∧ match a.1 with
    | none => b.1 = none
    | some (.error e) => b.1 = some (.error e)
    | some (.ok none) => ∃ r, b.1 = some (.ok r) ∧ r.found = false
    | some (.ok (some at_)) => b.1 = some (.ok (at_.found v garbage))

/-- **Step lemma.** A component that is matched; the rest is what follows from there. -/
theorem followFrom_agrees {n : ℕ} {path : List Byte} {at_ : Named} {clust : ℕ} {enterable : Bool}
    (hn : path.length < n) (henter : at_.enter v s = (some (.ok (clust, enterable)), s)) :
    Agrees v garbage (nameFrom v (components path) at_ s)
      (followFrom v n { at_.found v garbage with path := path } clust enterable s) := by
  induction n generalizing path at_ clust enterable s with
  | zero => exact absurd hn (Nat.not_lt_zero _)
  | succ n ih =>
    obtain ⟨str, hstr⟩ : ∃ str, (path.dropWhile fun c => c == slash) = str := ⟨_, rfl⟩
    have hcomponents : components path = components str := by rw [← hstr, components_dropWhile]
    rw [followFrom]
    simp only [hstr]
    by_cases hname : firstName str = []
    · have hnil : str = [] := by
        rw [← hstr] at hname ⊢
        exact components_nil hname
      rw [hcomponents, if_pos hname, hnil]
      refine ⟨rfl, ?_⟩
      cases at_ <;> rfl
    · rw [hcomponents, components_firstName hname, if_neg hname, nameFrom,
        Fallible.bind_of_ok henter]
      cases enterable with
      | false => exact ⟨rfl, rfl⟩
      | true =>
        simp only [Bool.not_true, Bool.false_eq_true, if_false]
        rcases hsearch : dirSearch v (v.dirEnter clust) (firstName str) s with ⟨_ | e | r, s₁⟩
        · have hnone := Fallible.attempt_of_none hsearch
          rw [Fallible.bind_of_none hnone, Fallible.bind_of_none hnone]
          exact ⟨rfl, rfl⟩
        · have herror := Fallible.attempt_of_some hsearch
          rw [Fallible.bind_of_ok herror, Fallible.bind_of_ok herror]
          cases e <;> first
            | exact ⟨rfl, _, rfl, rfl⟩
            | exact ⟨rfl, rfl⟩
        · have hok := Fallible.attempt_of_some hsearch
          rw [Fallible.bind_of_ok hok, Fallible.bind_of_ok hok]
          have hsect : s₁.sect = r.1.sect := dirSearch_sect hsearch
          have henter₁ : (Named.entry r.1 r.2).enter v s₁ =
              (some (.ok (sfnCluster s₁.buf r.1.idx,
                decide (sfnAttr s₁.buf r.1.idx &&& attrDir ≠ 0))), s₁) := by
            rw [Named.enter, Fallible.bind_of_ok (updateBuf_same hsect)]
            rfl
          have hlen : (str.drop (firstName str).length).length < n := by
            have hpos : 0 < (firstName str).length := List.length_pos_iff.2 hname
            have hfirst : (firstName str).length ≤ str.length :=
              (List.takeWhile_sublist _).length_le
            have hle : str.length ≤ path.length := by
              rw [← hstr]
              exact (List.dropWhile_sublist _).length_le
            rw [List.length_drop]
            omega
          exact ih hlen henter₁

theorem dirEnter_rootClust : (v.dirEnter v.rootClust).clust = v.rootClust := by
  rw [Volume.dirEnter]
  exact ite_self _

/-- **Run lemma.** `follow_path` leads to what the path names. -/
theorem followPathInto_agrees (v : Volume) (garbage : Loc) (path : List Byte) (s : State) :
    Agrees v garbage (namedBy v path s) (followPathInto v garbage path s) := by
  cases path with
  | nil => exact ⟨rfl, rfl⟩
  | cons c str =>
    by_cases hc : c ≠ slash
    · rw [namedBy, followPathInto, if_pos hc, if_pos (.inl hc)]
      exact ⟨rfl, rfl⟩
    · by_cases hname : firstName str = [] ∨ firstName str ≠ v.name
      · rw [namedBy, followPathInto, if_neg hc, if_pos hname, if_pos (.inr hname)]
        exact ⟨rfl, rfl⟩
      · have hnot : ¬ (c ≠ slash ∨ firstName str = [] ∨ firstName str ≠ v.name) := by
          rintro (h | h)
          · exact hc h
          · exact hname h
        rw [namedBy, followPathInto, if_neg hc, if_neg hname, if_neg hnot, dirEnter_rootClust]
        have hlen : (str.drop (firstName str).length).length < str.length + 1 := by
          rw [List.length_drop]
          omega
        exact followFrom_agrees hlen rfl

theorem followPath_eq (path : List Byte) : followPath v path = followPathInto v ⟨0, 0⟩ path := by
  cases path <;> rfl

variable {path : List Byte} {at_ : Named} {s' : State}

theorem followPathInto_named (h : namedBy v path s = (some (.ok (some at_)), s')) :
    followPathInto v garbage path s = (some (.ok (at_.found v garbage)), s') := by
  have hagrees := followPathInto_agrees v garbage path s
  rw [h] at hagrees
  exact Prod.ext hagrees.2 hagrees.1

theorem followPathInto_missing (garbage : Loc) (h : namedBy v path s = (some (.ok none), s')) :
    ∃ r, followPathInto v garbage path s = (some (.ok r), s') ∧ r.found = false := by
  have hagrees := followPathInto_agrees v garbage path s
  rw [h] at hagrees
  obtain ⟨hstate, r, hr, hfound⟩ := hagrees
  exact ⟨r, Prod.ext hr hstate, hfound⟩

theorem followPathInto_error (garbage : Loc) {err : Err}
    (h : namedBy v path s = (some (.error err), s')) :
    followPathInto v garbage path s = (some (.error err), s') := by
  have hagrees := followPathInto_agrees v garbage path s
  rw [h] at hagrees
  exact Prod.ext hagrees.2 hagrees.1

instance keeps_followPathInto {R : State → State → Prop} [ParseSteps R] (v : Volume)
    [ReadSteps v R] (garbage : Loc) (path : List Byte) :
    Keeps R (followPathInto v garbage path) := by
  unfold followPathInto
  cases path <;> infer_instance

/-- The search for what a path names only reads. -/
theorem keeps_of_namedBy {R : State → State → Prop} [ParseSteps R] [ReadSteps v R]
    {r : Except Err (Option Named)} (h : namedBy v path s = (some r, s')) : R s s' := by
  have hagrees := followPathInto_agrees v ⟨0, 0⟩ path s
  have hkeeps := (keeps_followPathInto (R := R) v ⟨0, 0⟩ path).run s
  rw [h] at hagrees
  rwa [hagrees.1] at hkeeps

/-- The entry that is named is in the buffer. -/
theorem nameFrom_sect {names : List (List Byte)} {dir : Dir} {loc : Loc}
    (hs : ∀ d l, at_ = .entry d l → s.sect = d.sect)
    (h : nameFrom v names at_ s = (some (.ok (some (.entry dir loc))), s')) :
    s'.sect = dir.sect := by
  induction names generalizing at_ s with
  | nil =>
    cases h
    exact hs dir loc rfl
  | cons name names ih =>
    obtain ⟨r, s₁, -, h⟩ := Fallible.exists_of_bind_ok h
    split at h
    · cases h
    · obtain ⟨found, s₂, hsearch, h⟩ := Fallible.exists_of_bind_ok h
      rcases found with e | ⟨d, l⟩
      · cases e <;> cases h
      · refine ih (fun d' l' hd => ?_) h
        cases hd
        rcases hrun : dirSearch v (v.dirEnter r.1) name s₁ with ⟨_ | e | p, s₃⟩
        · rw [Fallible.attempt_of_none hrun] at hsearch
          cases hsearch
        · rw [Fallible.attempt_of_some hrun] at hsearch
          cases hsearch
        · rw [Fallible.attempt_of_some hrun] at hsearch
          cases hsearch
          exact dirSearch_sect hrun

theorem namedBy_sect {dir : Dir} {loc : Loc}
    (h : namedBy v path s = (some (.ok (some (.entry dir loc))), s')) : s'.sect = dir.sect := by
  cases path with
  | nil => cases h
  | cons c str =>
    rw [namedBy] at h
    split at h
    · cases h
    · exact nameFrom_sect (by simp) h

end Following

/-! ## Section 8: When a function works on what is named -/

section Functions

variable {v} {α : Type} {path : List Byte} {s : State} {garbage : Loc}

/-- A function that follows the path and goes on with what it takes for the named works on it if
and only if the path ends and this is the one that it wants. -/
theorem actsOn_iff {f : FatM α} (rest : Found → FatM α)
    {act : Named → State → Subject → FatM α} {takes : Named → State → Subject}
    {wants : Named → Subject}
    (hf : f = do
      let r ← followPathInto v garbage path
      if !r.found then .throw .eof else rest r)
    (hrest : ∀ at_ s', rest (at_.found v garbage) s' = act at_ s' (takes at_ s') s') :
    ActsOn v path s f act takes wants ↔ PathEnds v path s ∧
      ∀ at_ s', namedBy v path s = (some (.ok (some at_)), s') → takes at_ s' = wants at_ := by
  constructor
  · exact fun h => ⟨h.ends, fun at_ s' hnamed => (h.named at_ s' hnamed).2⟩
  · rintro ⟨hends, htakes⟩
    refine ⟨hends, fun at_ s' hnamed => ⟨?_, htakes at_ s' hnamed⟩, fun hunnamed => ?_⟩
    · have hfound : (at_.found v garbage).found = true := by cases at_ <;> rfl
      rw [hf, Fallible.bind_of_ok (followPathInto_named hnamed), ← hrest]
      simp only [hfound, Bool.not_true, Bool.false_eq_true, if_false]
    · have hview : ∀ {x s'}, followPathInto v garbage path s = (x, s') → s'.view = s.view :=
        fun hrun => Fallible.keeps_of_eq (R := State.SameView) hrun
      rcases hrun : namedBy v path s with ⟨_ | err | found, s'⟩
      · exact absurd (congrArg Prod.fst hrun) hends
      · have hfollow := followPathInto_error garbage hrun
        exact ⟨err, s', by rw [hf, Fallible.bind_of_error hfollow], hview hfollow⟩
      · cases found with
        | some at_ => exact absurd hrun (hunnamed at_ s')
        | none =>
          obtain ⟨r, hfollow, hr⟩ := followPathInto_missing garbage hrun
          refine ⟨.eof, s', ?_, hview hfollow⟩
          rw [hf, Fallible.bind_of_ok hfollow]
          simp only [hr, Bool.not_false, if_true]
          rfl

theorem dirAtRoot_root : v.DirAtRoot (v.dirEnter v.rootClust) := by
  refine ⟨dirEnter_rootClust, ?_, rfl⟩
  rw [Volume.dirEnter]
  exact congrArg v.clustToSect (ite_self _)

/-- `fat_dir_open` takes an entry in the first slot of the root for the root. -/
theorem dirOpenActs_iff :
    DirOpenActs v path s ↔ PathEnds v path s ∧ NotRootSlot v path s := by
  rw [DirOpenActs, actsOn_iff (fun r => dirOpenOn v r.dir (dirOpenSubject v r))
    (by rw [fatDirOpen, followPath_eq]) fun _ _ => rfl]
  refine and_congr_right fun _ => ⟨fun h dir loc s' hnamed hroot => ?_, fun h at_ s' hnamed => ?_⟩
  · have htakes : dirOpenSubject v ⟨true, dir, loc, []⟩ = .slot dir.sect dir.idx := h _ s' hnamed
    have hmistaken : dirOpenSubject v ⟨true, dir, loc, []⟩ = .root := if_pos hroot
    cases hmistaken.symm.trans htakes
  · cases at_ with
    | root => exact if_pos dirAtRoot_root
    | entry dir loc => exact if_neg (h dir loc s' hnamed)

/-- `fat_stat` takes what it finds in `loc` for the root. -/
theorem statActs_iff :
    StatActs v garbage path s ↔ PathEnds v path s ∧ NotRoot v path s := by
  have hstat : fatStat v garbage path = (do
      let r ← followPathInto v garbage path
      if !r.found then .throw .eof
      else if firstName r.path ≠ [] then .throw .path
      else statOn v r.dir (statSubject r)) := rfl
  rw [StatActs, actsOn_iff _ hstat fun at_ s' => by cases at_ <;> rfl]
  refine and_congr_right fun _ => ⟨fun h s' hnamed => ?_, fun h at_ s' hnamed => ?_⟩
  · cases h _ s' hnamed
  · cases at_ with
    | root => exact absurd hnamed (h s')
    | entry dir loc => rfl

/-- `fat_unlink` takes an entry in the first slot of the root for the root. -/
theorem unlinkActs_iff :
    UnlinkActs v path s ↔ PathEnds v path s ∧ NotRootSlot v path s := by
  have hunlink : fatUnlink v path = (do
      let r ← followPathInto v ⟨0, 0⟩ path
      if !r.found then .throw .eof
      else do
        let fat ← .read id
        unlinkOn v r (unlinkSubject v r fat)) := by
    rw [fatUnlink, followPath_eq]
    refine congrArg _ (funext fun r => ?_)
    by_cases hfound : (!r.found) = true
    · rw [if_pos hfound, if_pos hfound]
    · rw [if_neg hfound, if_neg hfound]
      funext s
      rw [Fallible.read_bind]
      by_cases hroot : v.DirAtRoot r.dir
      · rw [if_pos hroot, unlinkSubject, if_pos hroot]
        rfl
      · rw [if_neg hroot, unlinkSubject, if_neg hroot]
        rfl
  rw [UnlinkActs, actsOn_iff _ hunlink fun _ _ => rfl]
  refine and_congr_right fun _ => ⟨fun h dir loc s' hnamed hroot => ?_, fun h at_ s' hnamed => ?_⟩
  · have htakes : unlinkSubject v ⟨true, dir, loc, []⟩ s' = .slot dir.sect dir.idx := h _ s' hnamed
    have hmistaken : unlinkSubject v ⟨true, dir, loc, []⟩ s' = .root := if_pos hroot
    cases hmistaken.symm.trans htakes
  · cases at_ with
    | root => exact if_pos dirAtRoot_root
    | entry dir loc =>
      refine (if_neg (h dir loc s' hnamed)).trans ?_
      rw [namedBy_sect hnamed]
      rfl

end Functions

/-! ## Section 9: Opening and creating files -/

section Files

variable {v} {path : List Byte} {flags : FileFlags} {s s' : State} {t : Session} {garbage : Loc}

/-- The entry of a new file is in the buffer. -/
theorem dirAdd_sect {sclust clust : ℕ} {name : List Byte} {attr : Byte} {dir : Dir}
    (h : dirAdd v sclust name attr clust s = (some (.ok dir), s')) : s'.sect = dir.sect := by
  rw [dirAdd] at h
  split at h
  · cases h
  · obtain ⟨r, s₁, -, h⟩ := Fallible.exists_of_bind_ok h
    rw [putEntries] at h
    obtain ⟨_, s₂, -, h⟩ := Fallible.exists_of_bind_ok h
    obtain ⟨sfn, s₃, -, h⟩ := Fallible.exists_of_bind_ok h
    obtain ⟨_, s₄, hload, h⟩ := Fallible.exists_of_bind_ok h
    have hsect : s₄.sect = sfn.sect := updateBuf_sect hload
    cases h
    exact hsect

/-- `fat_file_open` once its entry is found. -/
theorem fatFileOpen_ok {dir : Dir} (h : openEntry v path flags t.fat = (some (.ok dir), s')) :
    fatFileOpen v path flags t =
      fileOpenOn v dir flags (fileOpenSubject dir s') { t with fat := s' } := by
  have hzoom : onFat (openEntry v path flags) t = (some (.ok dir), { t with fat := s' }) := by
    rw [onFat, Fallible.zoom, h]
  rw [fatFileOpen, Fallible.bind_of_ok hzoom]
  rfl

theorem fatFileOpen_error {e : Err} (h : openEntry v path flags t.fat = (some (.error e), s')) :
    fatFileOpen v path flags t = (some (.error e), { t with fat := s' }) := by
  have hzoom : onFat (openEntry v path flags) t = (some (.error e), { t with fat := s' }) := by
    rw [onFat, Fallible.zoom, h]
  exact Fallible.bind_of_error hzoom

theorem openEntry_named {at_ : Named} (h : namedBy v path s = (some (.ok (some at_)), s')) :
    openEntry v path flags s = (some (.ok (at_.found v ⟨0, 0⟩).dir), s') := by
  rw [openEntry, followPath_eq, Fallible.bind_of_ok (followPathInto_named h)]
  cases at_ <;> rfl

theorem view_of_namedBy {r : Except Err (Option Named)} (h : namedBy v path s = (some r, s')) :
    s'.view = s.view :=
  keeps_of_namedBy (R := State.SameView) h

/-- `fat_file_open` takes the first slot of the buffer for the root. -/
theorem fileOpenActs_iff :
    FileOpenActs v path flags t ↔ PathEnds v path t.fat ∧ NotRoot v path t.fat := by
  constructor
  · refine fun h => ⟨h.ends, fun s' hnamed => ?_⟩
    cases (h.named _ s' hnamed).2
  · rintro ⟨hends, hroot⟩
    refine ⟨hends, fun at_ s' hnamed => ⟨fatFileOpen_ok (openEntry_named hnamed), ?_⟩,
      fun err s' hrun => ?_, fun s' hrun hcreate => ?_, fun s' dir s₂ hrun hopen => ?_⟩
    · cases at_ with
      | root => exact absurd hnamed (hroot s')
      | entry dir loc =>
        show Subject.slot s'.sect dir.idx = .slot dir.sect dir.idx
        rw [namedBy_sect hnamed]
    · have hopen : openEntry v path flags t.fat = (some (.error err), s') := by
        rw [openEntry, followPath_eq, Fallible.bind_of_error (followPathInto_error _ hrun)]
      exact ⟨err, _, fatFileOpen_error hopen, view_of_namedBy hrun⟩
    · obtain ⟨r, hfollow, hr⟩ := followPathInto_missing ⟨0, 0⟩ hrun
      have hopen : openEntry v path flags t.fat = (some (.error .denied), s') := by
        rw [openEntry, followPath_eq, Fallible.bind_of_ok hfollow]
        simp only [hr, hcreate, Bool.not_false, Bool.false_eq_true, if_false, if_true]
        rfl
      exact ⟨.denied, _, fatFileOpen_error hopen, view_of_namedBy hrun⟩
    · refine ⟨fatFileOpen_ok hopen, ?_⟩
      obtain ⟨r, hfollow, hr⟩ := followPathInto_missing ⟨0, 0⟩ hrun
      rw [openEntry, followPath_eq, Fallible.bind_of_ok hfollow] at hopen
      simp only [hr, Bool.false_eq_true, if_false] at hopen
      split at hopen
      · cases hopen
      split at hopen
      · cases hopen
      obtain ⟨clust, s₁, -, hadd⟩ := Fallible.exists_of_bind_ok hopen
      rw [fileOpenSubject, dirAdd_sect hadd]

/-- `dir_add` takes the entry of a directory that takes it. -/
theorem dirAdd_ne_error {sclust clust : ℕ} {name : List Byte} {attr : Byte} {e : Err}
    (hname : name ≠ []) (h : DirTakes v sclust name attr clust s) :
    dirAdd v sclust name attr clust s ≠ (some (.error e), s') := by
  have hlen : ¬ (name.length = 0 ∨ name.length > 255) := by
    rintro (hzero | hlong)
    · exact hname (List.length_eq_zero_iff.mp hzero)
    · exact absurd h.length (by omega)
  rw [dirAdd, if_neg hlen]
  rcases hroom : findSlots v ((name.length + 12) / 13 + 1) (v.maxEntries + 1) ⟨0, 0, 0, false⟩
    (v.dirEnter sclust) s with ⟨_ | err | r, s₁⟩
  · rw [Fallible.bind_of_none hroom]
    simp
  · exact absurd hroom (h.room err s₁)
  · rw [Fallible.bind_of_ok hroom]
    exact h.written r s₁ e s' hroom

/-- A file that is not created leaves nothing behind, unless it was a put, the sync behind the
puts, or `dir_add` that failed. -/
theorem createSafe_of_fits (h : CreateFits v path flags s) : CreateSafe v path flags s := by
  intro s' e s₂ hrun hopen
  have hview := view_of_namedBy hrun
  obtain ⟨r, hfollow, hr⟩ := followPathInto_missing ⟨0, 0⟩ hrun
  rw [openEntry, followPath_eq, Fallible.bind_of_ok hfollow] at hopen
  rw [← followPath_eq] at hfollow
  simp only [hr, Bool.false_eq_true, if_false] at hopen
  split at hopen
  · -- without the flag nothing is created
    cases hopen
    exact hview
  next hflag =>
  split at hopen
  · -- a directory on the path is not there
    cases hopen
    exact hview
  next hname =>
  obtain ⟨hputs, hsync, htakes⟩ := h r s' hfollow hr (by simpa using hflag) hname
  rcases hcreate : createChain v s' with ⟨_ | err | clust, s₁⟩
  · rw [Fallible.bind_of_none hcreate] at hopen
    cases hopen
  · rw [Fallible.bind_of_error hcreate] at hopen
    cases hopen
    have hstretch : stretchChain v 0 s' = (some (.error e), s₂) :=
      stretchChain_of_stretchInto_error hcreate
    exact ((errorsSafe_of_not_syncFails hsync e s₂ hstretch).resolve_left hputs).trans hview
  · rw [Fallible.bind_of_ok hcreate] at hopen
    exact absurd hopen (dirAdd_ne_error hname (htakes clust s₁ hcreate))

end Files

/-! ## Section 10: Paths -/

end Karnix.Fat
