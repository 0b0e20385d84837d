import Mathlib.Data.Set.Basic
import Mathlib.Logic.Function.Basic

/-!
# A write-back cache of one line

A store is accessed through one line, which holds the contents of one address.  Changes are made
in the line and reach the store when another address is loaded.  What the accesses see is the
`view`; the operations that move the line do not change it.
-/

namespace Karnix.Library

universe u v

/-- A store and the line in front of it. -/
structure WriteBack (ι : Type u) (β : Type v) where
  store : ι → β
  tag : ι
  line : β
  dirty : Bool

namespace WriteBack

variable {ι : Type u} {β : Type v} [DecidableEq ι]

/-! ## Operations -/

/-- The contents of the store once the line is written back. -/
def view (c : WriteBack ι β) : ι → β :=
  if c.dirty then Function.update c.store c.tag c.line else c.store

/-- Write the line back, if it has been changed. -/
def flush (c : WriteBack ι β) : WriteBack ι β := { c with store := c.view, dirty := false }

/-- Move the line to the address `i`. -/
def load (c : WriteBack ι β) (i : ι) : WriteBack ι β :=
  if c.tag = i then c else ⟨c.view, i, c.view i, false⟩

/-- Change the line, which the store behind it does not see yet. -/
def edit (c : WriteBack ι β) (f : β → β) : WriteBack ι β :=
  { c with line := f c.line, dirty := true }

/-- A clean line holds what the store holds, if its address is one of `S`. -/
def Coherent (S : Set ι) (c : WriteBack ι β) : Prop :=
  c.dirty = false → c.tag ∈ S → c.line = c.store c.tag

/-! ## What the accesses see -/

variable (c : WriteBack ι β) {S : Set ι}

theorem view_of_clean (h : c.dirty = false) : c.view = c.store := by
  rw [view, h]
  rfl

theorem view_of_dirty (h : c.dirty = true) : c.view = Function.update c.store c.tag c.line := by
  rw [view, h]
  rfl

@[simp] theorem view_flush : c.flush.view = c.view := view_of_clean c.flush rfl

@[simp] theorem view_load (i : ι) : (c.load i).view = c.view := by
  rw [load]
  split_ifs
  · rfl
  · exact view_of_clean ⟨c.view, i, c.view i, false⟩ rfl

/-- A change to the line is a change to its address. -/
theorem view_edit (f : β → β) : (c.edit f).view = Function.update c.view c.tag (f c.line) := by
  rw [view_of_dirty (c.edit f) rfl]
  cases hd : c.dirty with
  | false =>
    rw [view_of_clean c hd]
    rfl
  | true =>
    rw [view_of_dirty c hd, Function.update_idem]
    rfl

/-- The line shows what is seen at its address. -/
theorem Coherent.line_eq {c : WriteBack ι β} (h : c.Coherent S) (ht : c.tag ∈ S) :
    c.line = c.view c.tag := by
  cases hd : c.dirty with
  | false =>
    rw [view_of_clean c hd]
    exact h hd ht
  | true => rw [view_of_dirty c hd, Function.update_self]

theorem Coherent.line_load {c : WriteBack ι β} (h : c.Coherent S) {i : ι} (hi : i ∈ S) :
    (c.load i).line = c.view i := by
  rw [load]
  split_ifs with ht
  · subst ht
    exact h.line_eq hi
  · rfl

@[simp] theorem tag_load (i : ι) : (c.load i).tag = i := by
  rw [load]
  split_ifs with ht
  · exact ht
  · rfl

/-! ## Coherence -/

theorem Coherent.flush {c : WriteBack ι β} (h : c.Coherent S) : c.flush.Coherent S :=
  fun _ ht => h.line_eq ht

theorem Coherent.load {c : WriteBack ι β} (h : c.Coherent S) (i : ι) : (c.load i).Coherent S := by
  rw [WriteBack.load]
  split_ifs
  · exact h
  · exact fun _ _ => rfl

omit [DecidableEq ι] in
theorem coherent_edit (f : β → β) : (c.edit f).Coherent S := by
  intro hd
  cases hd

end WriteBack

end Karnix.Library
