import Karnix.Library.Program

/-!
# Programs that may fail

A call returns a value or an error, or does not return, and leaves a state in each case.  What
one run does is stated with `Succeeds` (it returns a value) and `Ends` (it returns); what all
runs do to the state, with the rules for `Program.Keeps`; that all runs return, with `Returns`.
-/

namespace Karnix.Library

universe u

/-- A program that returns a value or an error. -/
def Fallible (ε σ α : Type u) := Program σ (Except ε α)

namespace Fallible

variable {ε σ τ α β : Type u}

/-! ## Operations -/

instance : Monad (Fallible ε σ) where
  pure a := fun s => (some (.ok a), s)
  bind p f := fun s =>
    match p s with
    | (some (.ok a), s') => f a s'
    | (some (.error e), s') => (some (.error e), s')
    | (none, s') => (none, s')

/-- The value of `f`, with the state as it is. -/
def read (f : σ → α) : Fallible ε σ α := fun s => (some (.ok (f s)), s)

/-- The state changed by `f`. -/
def modify (f : σ → σ) : Fallible ε σ PUnit := fun s => (some (.ok ⟨⟩), f s)

/-- Return an error, with the state as it is. -/
def throw (e : ε) : Fallible ε σ α := fun s => (some (.error e), s)

/-- Never return: a loop without an end, or a step that C leaves open. -/
def abort : Fallible ε σ α := fun s => (none, s)

/-- Hand the error over as a value. -/
def attempt (p : Fallible ε σ α) : Fallible ε σ (Except ε α) := fun s =>
  match p s with
  | (some r, s') => (some (.ok r), s')
  | (none, s') => (none, s')

/-- Work on a part of a larger state. -/
def zoom (get : τ → σ) (set : σ → τ → τ) (p : Fallible ε σ α) : Fallible ε τ α := fun t =>
  ((p (get t)).1, set (p (get t)).2 t)

/-! ## Runs -/

theorem pure_apply (a : α) (s : σ) : (pure a : Fallible ε σ α) s = (some (.ok a), s) := rfl

theorem read_bind (g : σ → α) (f : α → Fallible ε σ β) (s : σ) :
    (read g >>= f) s = f (g s) s := rfl

theorem modify_bind (g : σ → σ) (f : PUnit → Fallible ε σ β) (s : σ) :
    (modify g >>= f) s = f ⟨⟩ (g s) := rfl

theorem bind_of_ok {p : Fallible ε σ α} {f : α → Fallible ε σ β} {s s' : σ} {a : α}
    (h : p s = (some (.ok a), s')) : (p >>= f) s = f a s' := by
  show (match p s with
    | (some (.ok a), s') => f a s'
    | (some (.error e), s') => (some (.error e), s')
    | (none, s') => (none, s')) = _
  rw [h]

theorem bind_of_error {p : Fallible ε σ α} {f : α → Fallible ε σ β} {s s' : σ} {e : ε}
    (h : p s = (some (.error e), s')) : (p >>= f) s = (some (.error e), s') := by
  show (match p s with
    | (some (.ok a), s') => f a s'
    | (some (.error e), s') => (some (.error e), s')
    | (none, s') => (none, s')) = _
  rw [h]

theorem bind_of_none {p : Fallible ε σ α} {f : α → Fallible ε σ β} {s s' : σ}
    (h : p s = (none, s')) : (p >>= f) s = (none, s') := by
  show (match p s with
    | (some (.ok a), s') => f a s'
    | (some (.error e), s') => (some (.error e), s')
    | (none, s') => (none, s')) = _
  rw [h]

theorem attempt_of_some {p : Fallible ε σ α} {s s' : σ} {r : Except ε α}
    (h : p s = (some r, s')) : p.attempt s = (some (.ok r), s') := by
  rw [attempt, h]

theorem attempt_of_none {p : Fallible ε σ α} {s s' : σ} (h : p s = (none, s')) :
    p.attempt s = (none, s') := by
  rw [attempt, h]

/-- A sequence succeeds if both parts do. -/
theorem exists_of_bind_ok {p : Fallible ε σ α} {f : α → Fallible ε σ β} {s s' : σ} {b : β}
    (h : (p >>= f) s = (some (.ok b), s')) :
    ∃ a s₁, p s = (some (.ok a), s₁) ∧ f a s₁ = (some (.ok b), s') := by
  rcases hp : p s with ⟨_ | e | a, s₁⟩
  · rw [bind_of_none hp] at h
    cases h
  · rw [bind_of_error hp] at h
    cases h
  · rw [bind_of_ok hp] at h
    exact ⟨a, s₁, rfl, h⟩

/-! ## One run -/

/-- The call returns, and its result and the state it leaves satisfy `Q`. -/
def Ends (p : Fallible ε σ α) (s : σ) (Q : Except ε α → σ → Prop) : Prop :=
  ∃ r s', p s = (some r, s') ∧ Q r s'

/-- The call returns a value, and this and the state it leaves satisfy `Q`. -/
def Succeeds (p : Fallible ε σ α) (s : σ) (Q : α → σ → Prop) : Prop :=
  ∃ a s', p s = (some (.ok a), s') ∧ Q a s'

/-- The call returns the error `e`, and the state it leaves satisfies `Q`. -/
def Fails (p : Fallible ε σ α) (s : σ) (e : ε) (Q : σ → Prop) : Prop :=
  ∃ s', p s = (some (.error e), s') ∧ Q s'

variable {p : Fallible ε σ α} {f : α → Fallible ε σ β} {s : σ}

theorem Succeeds.pure {a : α} {Q : α → σ → Prop} (h : Q a s) :
    Succeeds (Pure.pure a : Fallible ε σ α) s Q := ⟨a, s, rfl, h⟩

theorem Succeeds.read {g : σ → α} {Q : α → σ → Prop} (h : Q (g s) s) :
    Succeeds (Fallible.read g : Fallible ε σ α) s Q := ⟨g s, s, rfl, h⟩

theorem Succeeds.modify {g : σ → σ} {Q : PUnit → σ → Prop} (h : Q ⟨⟩ (g s)) :
    Succeeds (Fallible.modify g : Fallible ε σ PUnit) s Q := ⟨⟨⟩, g s, rfl, h⟩

theorem Succeeds.read_bind {g : σ → α} {Q : β → σ → Prop} (h : Succeeds (f (g s)) s Q) :
    Succeeds (Fallible.read g >>= f) s Q := h

theorem Succeeds.modify_bind {g : σ → σ} {f : PUnit → Fallible ε σ β} {Q : β → σ → Prop}
    (h : Succeeds (f ⟨⟩) (g s) Q) : Succeeds (Fallible.modify g >>= f) s Q := h

/-- Two calls that go on in the same way. -/
theorem Succeeds.of_eq {q : Fallible ε σ α} {s₁ : σ} {Q : α → σ → Prop} (heq : p s = q s₁)
    (h : Succeeds q s₁ Q) : Succeeds p s Q := by
  obtain ⟨a, s', hrun, hQ⟩ := h
  exact ⟨a, s', heq.trans hrun, hQ⟩

theorem Fails.of_eq {q : Fallible ε σ α} {s₁ : σ} {e : ε} {Q : σ → Prop} (heq : p s = q s₁)
    (h : Fails q s₁ e Q) : Fails p s e Q := by
  obtain ⟨s', hrun, hQ⟩ := h
  exact ⟨s', heq.trans hrun, hQ⟩

theorem Ends.of_eq {q : Fallible ε σ α} {s₁ : σ} {Q : Except ε α → σ → Prop} (heq : p s = q s₁)
    (h : Ends q s₁ Q) : Ends p s Q := by
  obtain ⟨r, s', hrun, hQ⟩ := h
  exact ⟨r, s', heq.trans hrun, hQ⟩

theorem Succeeds.mono {Q Q' : α → σ → Prop} (h : Succeeds p s Q)
    (hle : ∀ a s', Q a s' → Q' a s') : Succeeds p s Q' := by
  obtain ⟨a, s', hrun, hq⟩ := h
  exact ⟨a, s', hrun, hle a s' hq⟩

/-- **Sequence rule.**  What the first part promises is what the second one starts from. -/
theorem Succeeds.bind {P : α → σ → Prop} {Q : β → σ → Prop} (hp : Succeeds p s P)
    (hf : ∀ a s', P a s' → Succeeds (f a) s' Q) : Succeeds (p >>= f) s Q := by
  obtain ⟨a, s₁, hrun, ha⟩ := hp
  obtain ⟨b, s', hrun', hb⟩ := hf a s₁ ha
  exact ⟨b, s', (bind_of_ok hrun).trans hrun', hb⟩

theorem succeeds_bind_iff {Q : β → σ → Prop} :
    Succeeds (p >>= f) s Q ↔ Succeeds p s fun a s' => Succeeds (f a) s' Q := by
  refine ⟨?_, fun h => h.bind fun _ _ => id⟩
  rintro ⟨b, s', hrun, hb⟩
  obtain ⟨a, s₁, hp, hf⟩ := exists_of_bind_ok hrun
  exact ⟨a, s₁, hp, b, s', hf, hb⟩

theorem succeeds_pure_iff {a : α} {Q : α → σ → Prop} :
    Succeeds (Pure.pure a : Fallible ε σ α) s Q ↔ Q a s := by
  refine ⟨?_, Succeeds.pure⟩
  rintro ⟨b, s', hrun, hQ⟩
  cases hrun
  exact hQ

theorem Succeeds.bind_fails {P : α → σ → Prop} {e : ε} {Q : σ → Prop} (hp : Succeeds p s P)
    (hf : ∀ a s', P a s' → Fails (f a) s' e Q) : Fails (p >>= f) s e Q := by
  obtain ⟨a, s₁, hrun, ha⟩ := hp
  obtain ⟨s', hrun', hq⟩ := hf a s₁ ha
  exact ⟨s', (bind_of_ok hrun).trans hrun', hq⟩

theorem Succeeds.bind_ends {P : α → σ → Prop} {Q : Except ε β → σ → Prop}
    (hp : Succeeds p s P) (hf : ∀ a s', P a s' → Ends (f a) s' Q) : Ends (p >>= f) s Q := by
  obtain ⟨a, s₁, hrun, ha⟩ := hp
  obtain ⟨r, s', hrun', hq⟩ := hf a s₁ ha
  exact ⟨r, s', (bind_of_ok hrun).trans hrun', hq⟩

theorem Succeeds.ends {Q : α → σ → Prop} {Q' : Except ε α → σ → Prop} (h : Succeeds p s Q)
    (hle : ∀ a s', Q a s' → Q' (.ok a) s') : Ends p s Q' := by
  obtain ⟨a, s', hrun, hq⟩ := h
  exact ⟨.ok a, s', hrun, hle a s' hq⟩

theorem Fails.throw {e : ε} {Q : σ → Prop} (h : Q s) :
    Fails (Fallible.throw e : Fallible ε σ α) s e Q := ⟨s, rfl, h⟩

theorem Fails.read_bind {g : σ → α} {e : ε} {Q : σ → Prop} (h : Fails (f (g s)) s e Q) :
    Fails (Fallible.read g >>= f) s e Q := h

theorem Fails.modify_bind {g : σ → σ} {f : PUnit → Fallible ε σ β} {e : ε} {Q : σ → Prop}
    (h : Fails (f ⟨⟩) (g s) e Q) : Fails (Fallible.modify g >>= f) s e Q := h

theorem Fails.mono {e : ε} {Q Q' : σ → Prop} (h : Fails p s e Q) (hle : ∀ s', Q s' → Q' s') :
    Fails p s e Q' := by
  obtain ⟨s', hrun, hq⟩ := h
  exact ⟨s', hrun, hle s' hq⟩

/-- An error ends a sequence. -/
theorem Fails.bind {e : ε} {Q : σ → Prop} (h : Fails p s e Q) : Fails (p >>= f) s e Q := by
  obtain ⟨s', hrun, hq⟩ := h
  exact ⟨s', bind_of_error hrun, hq⟩

theorem Fails.ends {e : ε} {Q : σ → Prop} {Q' : Except ε α → σ → Prop} (h : Fails p s e Q)
    (hle : ∀ s', Q s' → Q' (.error e) s') : Ends p s Q' := by
  obtain ⟨s', hrun, hq⟩ := h
  exact ⟨.error e, s', hrun, hle s' hq⟩

theorem Ends.read_bind {g : σ → α} {Q : Except ε β → σ → Prop} (h : Ends (f (g s)) s Q) :
    Ends (Fallible.read g >>= f) s Q := h

theorem Ends.modify_bind {g : σ → σ} {f : PUnit → Fallible ε σ β} {Q : Except ε β → σ → Prop}
    (h : Ends (f ⟨⟩) (g s) Q) : Ends (Fallible.modify g >>= f) s Q := h

theorem Ends.mono {Q Q' : Except ε α → σ → Prop} (h : Ends p s Q)
    (hle : ∀ r s', Q r s' → Q' r s') : Ends p s Q' := by
  obtain ⟨r, s', hrun, hq⟩ := h
  exact ⟨r, s', hrun, hle r s' hq⟩

/-- **Sequence rule.**  The second part is only run if the first one has succeeded. -/
theorem Ends.bind {P : Except ε α → σ → Prop} {Q : Except ε β → σ → Prop} (hp : Ends p s P)
    (hok : ∀ a s', P (.ok a) s' → Ends (f a) s' Q)
    (herr : ∀ e s', P (.error e) s' → Q (.error e) s') : Ends (p >>= f) s Q := by
  obtain ⟨e | a, s₁, hrun, hq⟩ := hp
  · exact ⟨.error e, s₁, bind_of_error hrun, herr e s₁ hq⟩
  · obtain ⟨r, s', hrun', hr⟩ := hok a s₁ hq
    exact ⟨r, s', (bind_of_ok hrun).trans hrun', hr⟩

theorem Ends.attempt {Q : Except ε α → σ → Prop} (h : Ends p s Q) :
    Succeeds p.attempt s Q := by
  obtain ⟨r, s', hrun, hq⟩ := h
  exact ⟨r, s', attempt_of_some hrun, hq⟩

section Zoom

variable {get : τ → σ} {set : σ → τ → τ} {t : τ}

theorem Succeeds.zoom {Q : α → σ → Prop} {Q' : α → τ → Prop} (h : Succeeds p (get t) Q)
    (hle : ∀ a s', Q a s' → Q' a (set s' t)) : Succeeds (p.zoom get set) t Q' := by
  obtain ⟨a, s', hrun, hq⟩ := h
  refine ⟨a, set s' t, ?_, hle a s' hq⟩
  rw [Fallible.zoom, hrun]

theorem Fails.zoom {e : ε} {Q : σ → Prop} {Q' : τ → Prop} (h : Fails p (get t) e Q)
    (hle : ∀ s', Q s' → Q' (set s' t)) : Fails (p.zoom get set) t e Q' := by
  obtain ⟨s', hrun, hq⟩ := h
  refine ⟨set s' t, ?_, hle s' hq⟩
  rw [Fallible.zoom, hrun]

theorem Ends.zoom {Q : Except ε α → σ → Prop} {Q' : Except ε α → τ → Prop}
    (h : Ends p (get t) Q) (hle : ∀ r s', Q r s' → Q' r (set s' t)) :
    Ends (p.zoom get set) t Q' := by
  obtain ⟨r, s', hrun, hq⟩ := h
  refine ⟨r, set s' t, ?_, hle r s' hq⟩
  rw [Fallible.zoom, hrun]

end Zoom

/-! ## All runs -/

section Rules

open Program (Keeps)

variable {R : σ → σ → Prop}

theorem keeps_modify {g : σ → σ} (h : ∀ s, R s (g s)) :
    Keeps R (modify g : Fallible ε σ PUnit) := ⟨h⟩

/-- What a run that is known does. -/
theorem keeps_of_eq [h : Keeps R p] {s' : σ} {v : Option (Except ε α)} (hrun : p s = (v, s')) :
    R s s' := Keeps.of_eq h hrun

instance keeps_ite {c : Prop} [Decidable c] {q : Fallible ε σ α} [hp : Keeps R p]
    [hq : Keeps R q] : Keeps R (if c then p else q : Fallible ε σ α) := by
  split
  · exact hp
  · exact hq

instance keeps_attempt [hp : Keeps R p] : Keeps R p.attempt := by
  constructor
  intro s
  have h := hp.run s
  show R s (match p s with
    | (some r, s') => ((some (Except.ok r), s') : Option (Except ε (Except ε α)) × σ)
    | (none, s') => (none, s')).2
  rcases hrun : p s with ⟨_ | r, s'⟩ <;> rw [hrun] at h <;> exact h

instance keeps_zoom {S : τ → τ → Prop} {get : τ → σ} {set : σ → τ → τ}
    [hp : Keeps (fun s s' => ∀ t, get t = s → S t (set s' t)) p] :
    Keeps S (p.zoom get set) := ⟨fun t => hp.run (get t) t rfl⟩

variable [IsPreorder σ R]

instance keeps_pure (a : α) : Keeps R (pure a : Fallible ε σ α) := ⟨fun s => refl_of R s⟩

instance keeps_throw (e : ε) : Keeps R (throw e : Fallible ε σ α) := ⟨fun s => refl_of R s⟩

instance keeps_abort : Keeps R (abort : Fallible ε σ α) := ⟨fun s => refl_of R s⟩

instance keeps_read (g : σ → α) : Keeps R (read g : Fallible ε σ α) := ⟨fun s => refl_of R s⟩

/-- **Sequence rule.**  A sequence keeps what both parts keep. -/
instance keeps_bind [hp : Keeps R p] [hf : ∀ a, Keeps R (f a)] :
    Keeps R (p >>= f : Fallible ε σ β) := by
  constructor
  intro s
  have hfirst := hp.run s
  rcases h : p s with ⟨_ | e | a, s₁⟩ <;> rw [h] at hfirst
  · rw [bind_of_none h]
    exact hfirst
  · rw [bind_of_error h]
    exact hfirst
  · rw [bind_of_ok h]
    exact trans_of R hfirst ((hf a).run s₁)

/-- The rule, where the second part is shown by hand. -/
theorem keeps_then [Keeps R p] (hf : ∀ a, Keeps R (f a)) : Keeps R (p >>= f : Fallible ε σ β) :=
  keeps_bind

end Rules

/-! ## Calls that return -/

/-- The call returns from every state. -/
class Returns (p : Fallible ε σ α) : Prop where
  run : ∀ s, ∃ r s', p s = (some r, s')

section Returning

instance returns_pure (a : α) : Returns (pure a : Fallible ε σ α) := ⟨fun s => ⟨_, s, rfl⟩⟩

instance returns_throw (e : ε) : Returns (throw e : Fallible ε σ α) := ⟨fun s => ⟨_, s, rfl⟩⟩

instance returns_read (g : σ → α) : Returns (read g : Fallible ε σ α) := ⟨fun s => ⟨_, s, rfl⟩⟩

instance returns_modify (g : σ → σ) : Returns (modify g : Fallible ε σ PUnit) :=
  ⟨fun s => ⟨_, g s, rfl⟩⟩

instance returns_ite {c : Prop} [Decidable c] {q : Fallible ε σ α} [hp : Returns p]
    [hq : Returns q] : Returns (if c then p else q : Fallible ε σ α) := by
  split
  · exact hp
  · exact hq

instance returns_attempt [hp : Returns p] : Returns p.attempt := by
  constructor
  intro s
  obtain ⟨r, s', hrun⟩ := hp.run s
  exact ⟨_, s', attempt_of_some hrun⟩

instance returns_zoom {get : τ → σ} {set : σ → τ → τ} [hp : Returns p] :
    Returns (p.zoom get set) := by
  constructor
  intro t
  obtain ⟨r, s', hrun⟩ := hp.run (get t)
  exact ⟨r, set s' t, by rw [zoom, hrun]⟩

/-- **Sequence rule.**  A sequence returns if both parts do. -/
instance returns_bind [hp : Returns p] [hf : ∀ a, Returns (f a)] :
    Returns (p >>= f : Fallible ε σ β) := by
  constructor
  intro s
  obtain ⟨e | a, s₁, hrun⟩ := hp.run s
  · exact ⟨_, s₁, bind_of_error hrun⟩
  · obtain ⟨r, s', hrest⟩ := (hf a).run s₁
    exact ⟨r, s', (bind_of_ok hrun).trans hrest⟩

end Returning

end Fallible

end Karnix.Library
