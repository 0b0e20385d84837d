import Mathlib.Data.Nat.Notation
import Mathlib.Order.Defs.Unbundled

/-!
# Programs that may not return

A program works on a state, and returns a value unless it waits for something that does not
come, or gives up.  What every run of it does to the state is stated as a relation between the
states before and after; for a relation that is reflexive and transitive it is enough that each
operation of the program keeps to it.
-/

namespace Karnix.Library

universe u

/-- What a program returns if it does, and the state it has reached. -/
def Program (σ α : Type u) := σ → Option α × σ

namespace Program

variable {σ α β : Type u}

/-! ## Operations -/

instance : Monad (Program σ) where
  pure a := fun s => (some a, s)
  bind p f := fun s =>
    match p s with
    | (some a, s') => f a s'
    | (none, s') => (none, s')

/-- The value of `f`, with the state as it is. -/
def read (f : σ → α) : Program σ α := fun s => (some (f s), s)

/-- The state changed by `f`. -/
def modify (f : σ → σ) : Program σ PUnit := fun s => (some ⟨⟩, f s)

/-- Give up: the program never returns. -/
def abort : Program σ α := fun s => (none, s)

/-! ## What runs return -/

theorem pure_apply (a : α) (s : σ) : (pure a : Program σ α) s = (some a, s) := rfl

theorem bind_of_some {p : Program σ α} {f : α → Program σ β} {s s' : σ} {a : α}
    (h : p s = (some a, s')) : (p >>= f) s = f a s' := by
  show (match p s with | (some a, s') => f a s' | (none, s') => (none, s')) = _
  rw [h]

theorem bind_of_none {p : Program σ α} {f : α → Program σ β} {s s' : σ}
    (h : p s = (none, s')) : (p >>= f) s = (none, s') := by
  show (match p s with | (some a, s') => f a s' | (none, s') => (none, s')) = _
  rw [h]

/-- A sequence returns if both parts do. -/
theorem exists_of_bind {p : Program σ α} {f : α → Program σ β} {s s' : σ} {b : β}
    (h : (p >>= f) s = (some b, s')) :
    ∃ a s₁, p s = (some a, s₁) ∧ f a s₁ = (some b, s') := by
  cases hp : p s with
  | mk v s₁ =>
    cases v with
    | none =>
      rw [bind_of_none hp] at h
      cases h
    | some a =>
      rw [bind_of_some hp] at h
      exact ⟨a, s₁, rfl, h⟩

/-- A sequence waits in its first part, or in the second. -/
theorem waits_of_bind {p : Program σ α} {f : α → Program σ β} {s s' : σ}
    (h : (p >>= f) s = (none, s')) :
    p s = (none, s') ∨ ∃ a s₁, p s = (some a, s₁) ∧ f a s₁ = (none, s') := by
  cases hp : p s with
  | mk v s₁ =>
    cases v with
    | none =>
      rw [bind_of_none hp] at h
      cases h
      exact Or.inl rfl
    | some a =>
      rw [bind_of_some hp] at h
      exact Or.inr ⟨a, s₁, rfl, h⟩

theorem pure_bind (a : α) (f : α → Program σ β) : pure a >>= f = f a := rfl

theorem bind_assoc {γ : Type u} (p : Program σ α) (f : α → Program σ β) (g : β → Program σ γ) :
    p >>= f >>= g = p >>= fun a => f a >>= g := by
  funext s
  cases hp : p s with
  | mk v s₁ =>
    cases v with
    | none => rw [bind_of_none hp, bind_of_none (bind_of_none hp)]
    | some a =>
      have hfirst : (p >>= f) s = f a s₁ := bind_of_some hp
      rw [bind_of_some hp]
      cases hf : f a s₁ with
      | mk w s₂ =>
        rw [hf] at hfirst
        cases w with
        | none => rw [bind_of_none hf, bind_of_none hfirst]
        | some b => rw [bind_of_some hf, bind_of_some hfirst]

theorem ite_bind {c : Prop} [Decidable c] (p q : Program σ α) (f : α → Program σ β) :
    (if c then p else q) >>= f = if c then p >>= f else q >>= f := by
  split <;> rfl

theorem exists_of_ite {c : Prop} [Decidable c] {p q : Program σ α} {s s' : σ} {a : α}
    (h : (if c then p else q) s = (some a, s')) :
    (c ∧ p s = (some a, s')) ∨ (¬ c ∧ q s = (some a, s')) := by
  by_cases hc : c
  · rw [if_pos hc] at h
    exact Or.inl ⟨hc, h⟩
  · rw [if_neg hc] at h
    exact Or.inr ⟨hc, h⟩

/-- Every value that `p` returns satisfies `P`. -/
def Returns (P : α → Prop) (p : Program σ α) : Prop := ∀ s a s', p s = (some a, s') → P a

theorem returns_pure {P : α → Prop} {a : α} (h : P a) : Returns P (pure a : Program σ α) := by
  intro s a' s' hrun
  cases hrun
  exact h

theorem returns_bind {P : β → Prop} {p : Program σ α} {f : α → Program σ β}
    (h : ∀ a, Returns P (f a)) : Returns P (p >>= f) := by
  intro s b s' hrun
  obtain ⟨a, s₁, -, hf⟩ := exists_of_bind hrun
  exact h a s₁ b s' hf

theorem returns_ite {P : α → Prop} {c : Prop} [Decidable c] {p q : Program σ α}
    (hp : c → Returns P p) (hq : ¬ c → Returns P q) : Returns P (if c then p else q) := by
  split
  · exact hp ‹c›
  · exact hq ‹¬ c›

/-! ## What all runs do -/

/-- Every run of `p`, also one that waits forever, leads to a state related by `R`.  It is a
class so that the rules are found along the text of a program. -/
class Keeps (R : σ → σ → Prop) (p : Program σ α) : Prop where
  run : ∀ s, R s (p s).2

section Rules

variable {R : σ → σ → Prop}

theorem keeps_modify {f : σ → σ} (h : ∀ s, R s (f s)) : Keeps R (modify f) := ⟨h⟩

instance keeps_ite {c : Prop} [Decidable c] {p q : Program σ α} [hp : Keeps R p]
    [hq : Keeps R q] : Keeps R (if c then p else q) := by
  split
  · exact hp
  · exact hq

/-- What a run that is known does. -/
theorem Keeps.of_eq {p : Program σ α} (h : Keeps R p) {s s' : σ} {v : Option α}
    (hrun : p s = (v, s')) : R s s' := by
  have hp := h.run s
  rw [hrun] at hp
  exact hp

theorem Keeps.mono {R' : σ → σ → Prop} {p : Program σ α} (h : Keeps R p)
    (hle : ∀ s s', R s s' → R' s s') : Keeps R' p := ⟨fun s => hle s _ (h.run s)⟩

variable [IsPreorder σ R]

instance keeps_pure (a : α) : Keeps R (pure a : Program σ α) := ⟨fun s => refl_of R s⟩

instance keeps_abort : Keeps R (abort : Program σ α) := ⟨fun s => refl_of R s⟩

instance keeps_read (f : σ → α) : Keeps R (read f) := ⟨fun s => refl_of R s⟩

/-- **Sequence rule.**  A sequence keeps what both parts keep. -/
instance keeps_bind {p : Program σ α} {f : α → Program σ β} [hp : Keeps R p]
    [hf : ∀ a, Keeps R (f a)] : Keeps R (p >>= f) := by
  constructor
  intro s
  have hfirst := hp.run s
  cases h : p s with
  | mk v s₁ =>
    rw [h] at hfirst
    cases v with
    | none =>
      rw [bind_of_none h]
      exact hfirst
    | some a =>
      rw [bind_of_some h]
      exact trans_of R hfirst ((hf a).run s₁)

end Rules

/-! ## What runs that return do, and runs that do not -/

/-- What a run that waits does may be less than what one that returns does, but goes on from it. -/
class Continues (R R' : σ → σ → Prop) : Prop extends IsPreorder σ R where
  le : ∀ s s', R s s' → R' s s'
  trans' : ∀ s s₁ s₂, R s s₁ → R' s₁ s₂ → R' s s₂

/-- Runs of `p` that return lead to states related by `R`, and those that wait forever to states
related by `R'`. -/
class Leads (R R' : σ → σ → Prop) (p : Program σ α) : Prop where
  returns : ∀ s a s', p s = (some a, s') → R s s'
  waits : ∀ s s', p s = (none, s') → R' s s'

section LeadsRules

variable {R R' : σ → σ → Prop}

theorem leads_modify {f : σ → σ} (h : ∀ s, R s (f s)) : Leads R R' (modify f) where
  returns s _ _ hrun := by
    cases hrun
    exact h s
  waits _ _ hrun := by cases hrun

instance leads_ite {c : Prop} [Decidable c] {p q : Program σ α} [hp : Leads R R' p]
    [hq : Leads R R' q] : Leads R R' (if c then p else q) := by
  split
  · exact hp
  · exact hq

/-- What all runs do, whether they return or not. -/
theorem Keeps.leads [Continues R R'] {p : Program σ α} (h : Keeps R p) : Leads R R' p where
  returns _ _ _ hrun := h.of_eq hrun
  waits _ _ hrun := Continues.le _ _ (h.of_eq hrun)

theorem Leads.of_eq [Continues R R'] {p : Program σ α} (h : Leads R R' p) {s s' : σ}
    {v : Option α} (hrun : p s = (v, s')) : R' s s' := by
  cases v with
  | none => exact h.waits s s' hrun
  | some a => exact Continues.le _ _ (h.returns s a s' hrun)

variable [Continues R R']

instance leads_pure (a : α) : Leads R R' (pure a : Program σ α) := (keeps_pure a).leads

instance leads_read (f : σ → α) : Leads R R' (read f) := (keeps_read f).leads

/-- **Sequence rule.**  The second part only counts if the first one returns. -/
instance leads_bind {p : Program σ α} {f : α → Program σ β} [hp : Leads R R' p]
    [hf : ∀ a, Leads R R' (f a)] : Leads R R' (p >>= f) where
  returns s b s' hrun := by
    obtain ⟨a, s₁, hfirst, hrest⟩ := exists_of_bind hrun
    exact trans_of R (hp.returns s a s₁ hfirst) ((hf a).returns s₁ b s' hrest)
  waits s s' hrun := by
    rcases waits_of_bind hrun with hfirst | ⟨a, s₁, hfirst, hrest⟩
    · exact hp.waits s s' hfirst
    · exact Continues.trans' s s₁ s' (hp.returns s a s₁ hfirst) ((hf a).waits s₁ s' hrest)

end LeadsRules

/-! ## Runs that return if there is enough -/

/-- If the state has at least `n` of what `μ` measures, `p` returns, and uses at most `n` of it. -/
class Uses (μ : σ → ℕ) (n : outParam ℕ) (p : Program σ α) : Prop where
  returns : ∀ s, n ≤ μ s → ∃ a s', p s = (some a, s') ∧ μ s ≤ μ s' + n

section UsesRules

variable {μ : σ → ℕ} {n m : ℕ}

theorem Uses.mono {p : Program σ α} (h : Uses μ n p) (hle : n ≤ m) : Uses μ m p where
  returns s hs := by
    obtain ⟨a, s', hrun, huse⟩ := h.returns s (Nat.le_trans hle hs)
    exact ⟨a, s', hrun, Nat.le_trans huse (Nat.add_le_add_left hle _)⟩

theorem uses_modify {f : σ → σ} (h : ∀ s, μ (f s) = μ s) : Uses μ 0 (modify f) where
  returns s _ := ⟨⟨⟩, f s, rfl, Nat.le_of_eq (h s).symm⟩

instance uses_pure (a : α) : Uses μ 0 (pure a : Program σ α) where
  returns s _ := ⟨a, s, rfl, Nat.le_refl _⟩

instance uses_read (f : σ → α) : Uses μ 0 (read f) where
  returns s _ := ⟨f s, s, rfl, Nat.le_refl _⟩

instance uses_ite {c : Prop} [Decidable c] {p q : Program σ α} [hp : Uses μ n p]
    [hq : Uses μ m q] : Uses μ (max n m) (if c then p else q) := by
  split
  · exact hp.mono (Nat.le_max_left n m)
  · exact hq.mono (Nat.le_max_right n m)

/-- **Sequence rule.**  What both parts use adds up. -/
instance uses_bind {p : Program σ α} {f : α → Program σ β} [hp : Uses μ n p]
    [hf : ∀ a, Uses μ m (f a)] : Uses μ (n + m) (p >>= f) where
  returns s hs := by
    obtain ⟨a, s₁, hfirst, huse⟩ := hp.returns s (Nat.le_trans (Nat.le_add_right n m) hs)
    have hleft : m ≤ μ s₁ := by omega
    obtain ⟨b, s', hrest, huse'⟩ := (hf a).returns s₁ hleft
    exact ⟨b, s', (bind_of_some hfirst).trans hrest, by omega⟩

end UsesRules

/-! ## Attempts -/

/-- The states in which up to `n` attempts begin, each one after another that asks for it. -/
def attempts (p : Program σ α) (again : α → Bool) : ℕ → σ → List σ
  | 0, _ => []
  | n + 1, s => s ::
    match p s with
    | (some a, s') => if again a then attempts p again n s' else []
    | (none, _) => []

/-- After an attempt that asks for another one. -/
theorem attempts_of_again {p : Program σ α} {again : α → Bool} {n : ℕ} {s s' : σ} {a : α}
    (h : p s = (some a, s')) (ha : again a = true) :
    attempts p again (n + 1) s = s :: attempts p again n s' := by
  rw [attempts, h]
  exact congrArg (s :: ·) (if_pos ha)

/-- After an attempt that is the last one. -/
theorem attempts_of_last {p : Program σ α} {again : α → Bool} {n : ℕ} {s s' : σ} {a : α}
    (h : p s = (some a, s')) (ha : again a = false) :
    attempts p again (n + 1) s = [s] := by
  rw [attempts, h]
  exact congrArg (s :: ·) (if_neg (Bool.eq_false_iff.1 ha))

/-- At most one of the attempts is the last one. -/
theorem attempts_last_unique {p : Program σ α} {again : α → Bool} {n : ℕ} {s m m' t t' : σ}
    {a a' : α} (hm : m ∈ attempts p again n s) (hm' : m' ∈ attempts p again n s)
    (h : p m = (some a, t)) (ha : again a = false) (h' : p m' = (some a', t'))
    (ha' : again a' = false) : m = m' := by
  -- on the attempts that are left, of which the first is the last one or neither of both
  induction n generalizing s with
  | zero => cases hm
  | succ n ih =>
    rcases hs : p s with ⟨_ | b, s'⟩
    · rw [attempts, hs] at hm hm'
      rw [List.mem_singleton.1 hm, List.mem_singleton.1 hm']
    · cases hb : again b with
      | false =>
        rw [attempts_of_last hs hb] at hm hm'
        rw [List.mem_singleton.1 hm, List.mem_singleton.1 hm']
      | true =>
        rw [attempts_of_again hs hb] at hm hm'
        rcases List.mem_cons.1 hm with rfl | hmem
        · rw [hs] at h
          cases h
          exact absurd hb (Bool.eq_false_iff.1 ha)
        rcases List.mem_cons.1 hm' with rfl | hmem'
        · rw [hs] at h'
          cases h'
          exact absurd hb (Bool.eq_false_iff.1 ha')
        exact ih hmem hmem'

end Program

end Karnix.Library
