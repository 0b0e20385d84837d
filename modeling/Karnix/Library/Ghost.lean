import Karnix.Library.Fallible

/-!
# Ghost state

To say what a program does it may help to follow something beside its state that the program
itself does not keep.  A program on states with such a ghost is erased to the one without, if
both return the same and lead to the same states.
-/

namespace Karnix.Library.Fallible

universe u

variable {ε σ τ α β : Type u} {view : τ → σ}

/-- On what `view` shows of its states, `q` does what `p` does. -/
def Erases (view : τ → σ) (q : Fallible ε τ α) (p : Fallible ε σ α) : Prop :=
  ∀ t, (q t).1 = (p (view t)).1 ∧ view (q t).2 = (p (view t)).2

/-! ## Runs -/

section Runs

variable {q : Fallible ε τ α} {p : Fallible ε σ α} {t t' : τ} {s : σ}
  {r : Option (Except ε α)}

theorem Erases.run (h : Erases view q p) (hrun : q t = (r, t')) : p (view t) = (r, view t') := by
  obtain ⟨hres, hstate⟩ := h t
  rw [hrun] at hres hstate
  exact Prod.ext hres.symm hstate.symm

end Runs

/-! ## Rules -/

theorem erases_pure (a : α) : Erases view (pure a : Fallible ε τ α) (pure a) :=
  fun _ => ⟨rfl, rfl⟩

theorem erases_throw (e : ε) : Erases view (throw e : Fallible ε τ α) (throw e) :=
  fun _ => ⟨rfl, rfl⟩

/-- The program reads its own state. -/
theorem erases_read : Erases view (read view : Fallible ε τ σ) (read id) :=
  fun _ => ⟨rfl, rfl⟩

/-- A program that leaves the ghost alone. -/
theorem erases_zoom {set : σ → τ → τ} (h : ∀ s t, view (set s t) = s) (p : Fallible ε σ α) :
    Erases view (p.zoom view set) p := fun t => ⟨rfl, h (p (view t)).2 t⟩

/-- **Sequence rule.**  The ghost is erased part by part. -/
theorem Erases.bind {q : Fallible ε τ α} {p : Fallible ε σ α} {g : α → Fallible ε τ β}
    {f : α → Fallible ε σ β} (h : Erases view q p) (hf : ∀ a, Erases view (g a) (f a)) :
    Erases view (q >>= g) (p >>= f) := by
  intro t
  rcases hq : q t with ⟨_ | e | a, t₁⟩
  · rw [bind_of_none hq, bind_of_none (h.run hq)]
    exact ⟨rfl, rfl⟩
  · rw [bind_of_error hq, bind_of_error (h.run hq)]
    exact ⟨rfl, rfl⟩
  · rw [bind_of_ok hq, bind_of_ok (h.run hq)]
    exact hf a t₁

theorem Erases.ite {c : Prop} [Decidable c] {q q' : Fallible ε τ α} {p p' : Fallible ε σ α}
    (h : Erases view q p) (h' : Erases view q' p') :
    Erases view (if c then q else q') (if c then p else p') := by
  split
  · exact h
  · exact h'

theorem Erases.attempt {q : Fallible ε τ α} {p : Fallible ε σ α} (h : Erases view q p) :
    Erases view q.attempt p.attempt := by
  intro t
  rcases hq : q t with ⟨_ | r, t₁⟩
  · rw [attempt_of_none hq, attempt_of_none (h.run hq)]
    exact ⟨rfl, rfl⟩
  · rw [attempt_of_some hq, attempt_of_some (h.run hq)]
    exact ⟨rfl, rfl⟩

/-- The ghost changes first, which the program does not see. -/
theorem Erases.ghost_bind {g : τ → τ} {q : PUnit → Fallible ε τ α} {p : Fallible ε σ α}
    (hg : ∀ t, view (g t) = view t) (h : Erases view (q ⟨⟩) p) :
    Erases view (modify g >>= q) p := by
  intro t
  rw [modify_bind, ← hg t]
  exact h (g t)

/-- The ghost changes at last. -/
theorem Erases.bind_ghost {g : τ → τ} {q : Fallible ε τ PUnit} {p : Fallible ε σ PUnit}
    (hg : ∀ t, view (g t) = view t) (h : Erases view q p) :
    Erases view (q >>= fun _ => modify g) p := by
  intro t
  rcases hq : q t with ⟨_ | e | a, t₁⟩
  · rw [bind_of_none hq, h.run hq]
    exact ⟨rfl, rfl⟩
  · rw [bind_of_error hq, h.run hq]
    exact ⟨rfl, rfl⟩
  · rw [bind_of_ok hq, h.run hq]
    exact ⟨rfl, hg t₁⟩

end Karnix.Library.Fallible
