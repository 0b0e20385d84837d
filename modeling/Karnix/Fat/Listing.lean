import Karnix.Fat.Buffer

/-!
# Listing a directory

The loop of `fat ls`, which reads an entry and advances until `fat_dir_read` fails, and what it
should list: the live entries of the directory, each with its own name.

A directory is a chain of clusters; its slots are the places for an entry in their sectors, in
order.
-/

namespace Karnix.Fat

open Karnix.Library

/-! ## Section 1: `fat ls` -/

section Ls

variable (v : Volume)

/-- `dir_next` has moved to the next sector before it looks for the next cluster.  This is where
it leaves the directory if it fails. -/
def Dir.stepOff (dir : Dir) : Dir := { dir with sect := u32 (dir.sect + 1), idx := 0 }

/-- Where the listing goes on after `fat_dir_next`; its error is not looked at. -/
def Dir.goOn (dir : Dir) : Except Err Dir → Dir
  | .ok next => next
  | .error _ => dir.stepOff

/-- The loop of `fat ls`: what it prints, and the error it ends with, which is none at
`FAT_ERR_EOF`. -/
def listFrom : ℕ → Dir → FatM (List DirInfo × Option Err)
  | 0, _ => .abort
  | n + 1, dir => do
    let r ← (fatDirRead v dir).attempt
    match r with
    | .error .eof => pure ([], none)
    | .error err => pure ([], some err)
    | .ok (info, dir) => do
      let r ← (fatDirNext v dir).attempt
      let rest ← listFrom n (dir.goOn r)
      pure (info :: rest.1, rest.2)

end Ls

/-! ## Section 2: Slots -/

/-- The place of an entry: the contents of its sector, and where it is in it. -/
structure Slot where
  buf : Sector
  idx : ℕ

namespace Slot

variable (s : Slot)

/-- The end mark: a directory has no entries behind it. -/
def IsLast : Prop := SfnIsLast s.buf s.idx

/-- Deleted, or the end mark. -/
def IsFree : Prop := SfnIsFree s.buf s.idx

def IsLfn : Prop := SfnIsLfn s.buf s.idx

/-- The attribute of a volume label, which slots of long names have, too. -/
def IsLabel : Prop := sfnAttr s.buf s.idx &&& 0x08 ≠ 0

instance : Decidable s.IsLast := inferInstanceAs (Decidable (SfnIsLast _ _))
instance : Decidable s.IsFree := inferInstanceAs (Decidable (SfnIsFree _ _))
instance : Decidable s.IsLfn := inferInstanceAs (Decidable (SfnIsLfn _ _))
instance : Decidable s.IsLabel := inferInstanceAs (Decidable (_ ≠ _))

/-- The first byte of a slot of a long name. -/
def seq : Byte := s.buf s.idx

/-- The number of slots that the first one gives. -/
def cnt : ℕ := (s.seq &&& 0x1f).toNat

/-- The checksum of the short name that goes with a slot of a long name. -/
def crc : Byte := s.buf (s.idx + 13)

/-- The short name. -/
def rawName : List Byte := sfnName s.buf s.idx

/-- The thirteen characters of a slot of a long name. -/
def units : List (BitVec 16) :=
  lfnIndices.map fun i => be16 (s.buf (s.idx + i + 1)) (s.buf (s.idx + i))

/-- The lower bytes of the characters, up to the first zero. -/
def text : List Byte := (lfnIndices.map fun i => s.buf (s.idx + i)).takeWhile fun c => c != 0

end Slot

/-- The slots of a long name come before the short entry, the last part of the name first.  The
first slot is marked and gives their number; all have the checksum of the short name.  This is
the short entry, for slots that begin so. -/
def lfnRun : List Slot → Option Slot
  | [] => none
  | s :: ss =>
    if s.seq &&& 0x40 ≠ 0 ∧ s.cnt ≤ 20 ∧
        ∀ t ∈ (s :: ss).take s.cnt, t.IsLfn ∧ t.crc = s.crc then
      ((s :: ss).drop s.cnt).head?.filter fun sfn =>
        decide (¬ sfn.IsFree ∧ s.crc = getCrc sfn.rawName)
    else none

/-! ## Section 3: Live entries -/

/-- What a listing tells of an entry; names in the characters of long names. -/
structure Entry where
  name : List (BitVec 16)
  size : BitVec 32
  attr : Byte
  created : List Byte
  modified : List Byte
  deriving DecidableEq

def DirInfo.entry (info : DirInfo) : Entry :=
  ⟨info.name.map fun c => c.setWidth 16, info.size, info.attr, info.created, info.modified⟩

/-- What the short entry tells, with a name. -/
def Slot.entry (s : Slot) (name : List (BitVec 16)) : Entry :=
  ⟨name, sfnSize s.buf s.idx, sfnAttr s.buf s.idx, s.buf.load (s.idx + 14) 4,
    s.buf.load (s.idx + 22) 4⟩

def Slot.shortName (s : Slot) : List (BitVec 16) := (sfnText s.rawName).map fun c => c.setWidth 16

/-- The long name in its slots, up to the terminator. -/
def longName (run : List Slot) : List (BitVec 16) :=
  (run.reverse.flatMap Slot.units).takeWhile fun c => c != 0

/-- The live entries: not deleted, no volume label, and no slot of a long name that has no short
entry.  A number of slots is skipped first. -/
def liveEntries : ℕ → List Slot → List Entry
  | _, [] => []
  | k + 1, _ :: ss => liveEntries k ss
  | 0, s :: ss =>
    if s.IsLast then []
    else if s.IsFree then liveEntries 0 ss
    else if s.IsLfn then
      match lfnRun (s :: ss) with
      | some sfn =>
        if sfn.IsLabel then liveEntries 0 ss
        else sfn.entry (longName ((s :: ss).take s.cnt)) :: liveEntries s.cnt ss
      | none => liveEntries 0 ss
    else if s.IsLabel then liveEntries 0 ss
    else s.entry s.shortName :: liveEntries 0 ss

/-! ## Section 4: Directories -/

namespace Volume

variable (v : Volume)

/-- The numbers of the volume fit together; a cluster has a power of two of sectors. -/
structure Numbered : Prop where
  mask : v.clustMsk + 1 = v.sectPerClust
  data : 0 < v.dataSect
  fat : 0 < v.fatSect ∧ v.fatSect + v.clustCnt / 128 < 0x100000000
  fits : v.dataSect + v.clustCnt * v.sectPerClust ≤ 0x100000000

/-- A chain of clusters that ends. -/
def IsChain (w : ℕ → Sector) : List ℕ → Prop
  | [] => False
  | [c] => 2 ≤ c ∧ c < v.clustCnt ∧ v.kind w c = some .last
  | c :: d :: cs => 2 ≤ c ∧ c < v.clustCnt ∧ v.kind w c = some .used ∧ v.entry w c = d ∧
      IsChain w (d :: cs)

/-- Slot number `k` from the beginning of a cluster on. -/
def slot (w : ℕ → Sector) (c k : ℕ) : Slot := ⟨w (v.clustToSect c + k / 16), 32 * (k % 16)⟩

/-- The slots of a cluster. -/
def slotCnt : ℕ := 16 * v.sectPerClust

/-- The slots of a cluster before the first sector whose number is a multiple of the size of a
cluster.  There `dir_next` takes the cluster to end. -/
def endCnt : ℕ := 16 * (v.sectPerClust - v.dataSect % v.sectPerClust)

/-- The slots of a directory. -/
def slots (w : ℕ → Sector) (cs : List ℕ) : List Slot :=
  cs.flatMap fun c => (List.range v.slotCnt).map (v.slot w c)

/-- As many slots behind where `dir_next` takes the cluster to end. -/
def slotsBehind (w : ℕ → Sector) (c : ℕ) : List Slot :=
  (List.range' v.endCnt v.slotCnt).map (v.slot w c)

end Volume

/-- `fat ls` lists the live entries of the directory with the clusters `c :: cs`, and ends after
one call for each slot and one more. -/
def ListsDirectory (v : Volume) (s : State) (c : ℕ) (cs : List ℕ) : Prop :=
  Fallible.Succeeds (listFrom v ((v.slots s.view (c :: cs)).length + 1) (v.dirEnter c)) s
    fun r _ => r.1.map DirInfo.entry = liveEntries 0 (v.slots s.view (c :: cs))

/-! ## Section 5: Directories that are listed -/

/-- The text in the slots of a long name is one that is read. -/
def TextOk (run : List Slot) : Prop :=
  0xff ∉ run.flatMap Slot.text ∧ (run.flatMap Slot.text).length ≤ 255

instance (run : List Slot) : Decidable (TextOk run) := inferInstanceAs (Decidable (_ ∧ _))

/-- A long name of at most 255 characters, all of them below `U+00FF`, and nothing behind it. -/
def NameOk (run : List Slot) : Prop :=
  TextOk run ∧ (run.reverse.flatMap Slot.text).map (fun c => c.setWidth 16) = longName run

instance (run : List Slot) : Decidable (NameOk run) := inferInstanceAs (Decidable (_ ∧ _))

/-- Slots without anything that looks like an entry, up to an end mark or a long name that is
broken. -/
def NoEntry : List Slot → Prop
  | [] => True
  | s :: ss =>
    if s.IsLast then True
    else if s.IsFree then NoEntry ss
    else s.IsLfn ∧ (lfnRun (s :: ss) ≠ none → ¬ TextOk ((s :: ss).take s.cnt))

/-- What the loop of `parse_lfn_name` over the fragments asks of a slot. -/
def Slot.Fits (crc : Byte) (t : Slot) : Prop := t.IsLfn ∧ t.crc = crc ∧ 0xff ∉ t.text

instance (crc : Byte) (t : Slot) : Decidable (t.Fits crc) := inferInstanceAs (Decidable (_ ∧ _))

/-- A listing ends within the slots, at an end mark or at a long name that is broken, before
`dir_next` is asked for the slot behind them. -/
def StopsIn : ℕ → List Slot → Prop
  | _, [] => False
  | k + 1, _ :: ss => StopsIn k ss
  | 0, s :: ss =>
    if s.IsLast then True
    else if s.IsFree then StopsIn 0 ss
    else if s.IsLfn then
      if s.seq &&& 0x40 = 0 ∨ 20 < s.cnt ∨ ∃ t ∈ (s :: ss).take s.cnt, ¬ t.Fits s.crc then True
      else s.cnt < (s :: ss).length ∧
        ((lfnRun (s :: ss)).isSome ∧ TextOk ((s :: ss).take s.cnt) → StopsIn s.cnt ss)
    else StopsIn 0 ss

/-- There are no volume labels, all long names are well formed, no live entry comes after a slot
of a long name that has no short entry, and this does not look like having one; and if the last
slot is that of a live entry, there is nothing that looks like an entry in the slots `out` behind
the directory.  `last` is whether the slot before was that of a live entry. -/
def Listable (out : List Slot) : Bool → ℕ → List Slot → Prop
  | last, _, [] => last = true → NoEntry out
  | last, k + 1, _ :: ss => Listable out last k ss
  | _, 0, s :: ss =>
    if s.IsLast then True
    else if s.IsFree then Listable out false 0 ss
    else if s.IsLfn then
      match lfnRun (s :: ss) with
      | some sfn =>
        if sfn.IsLabel then ¬ TextOk ((s :: ss).take s.cnt) ∧ liveEntries 0 ss = []
        else NameOk ((s :: ss).take s.cnt) ∧ Listable out true s.cnt ss
      | none => liveEntries 0 ss = []
    else ¬ s.IsLabel ∧ Listable out true 0 ss

end Karnix.Fat
