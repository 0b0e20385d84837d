import Karnix.Library.Program

/-!
# Loops of programs

A loop as the text of a program has it: every round goes on with a value, or ends the loop with
one.  If each round that goes on uses up some of a measure of the state, as one does that takes a
byte of an input, the loop is what its text says: a round, and the loop again.
-/

namespace Karnix.Library.Program

universe u

variable {σ α β : Type u}

/-- Two sequences that agree after their first parts. -/
theorem bind_congr_left {p q : Program σ α} {f : α → Program σ β} {s s' : σ} (h : p s = q s') :
    (p >>= f) s = (q >>= f) s' := by
  rcases hq : q s' with ⟨_ | a, s₁⟩ <;> rw [hq] at h
  · rw [bind_of_none h, bind_of_none hq]
  · rw [bind_of_some h, bind_of_some hq]

/-! ## Rounds -/

/-- Up to `n` rounds from the value `a`. -/
def rounds (body : α → Program σ (α ⊕ β)) : ℕ → α → Program σ β
  | 0, _ => abort
  | n + 1, a => body a >>= Sum.elim (rounds body n) pure

/-- The loop, where there are no more rounds than the measure `μ` allows. -/
def loop (μ : σ → ℕ) (body : α → Program σ (α ⊕ β)) (a : α) : Program σ β :=
  fun s => rounds body (μ s + 1) a s

/-! ## What uses up some of the measure -/

/-- Every run that returns has used up some of what `μ` measures. -/
class Shrinks (μ : σ → ℕ) (p : Program σ α) : Prop where
  lt : ∀ s a s', p s = (some a, s') → μ s' < μ s

/-- Not to increase the measure is a preorder. -/
instance isPreorder_measure (μ : σ → ℕ) : IsPreorder σ fun s s' => μ s' ≤ μ s where
  refl s := Nat.le_refl (μ s)
  trans _ _ _ h h' := Nat.le_trans h' h

section Shrinks

variable {μ : σ → ℕ}

instance shrinks_abort : Shrinks μ (abort : Program σ α) where
  lt s a s' h := by cases h

/-- The first part uses up some, and the second adds nothing. -/
instance shrinks_bind {p : Program σ α} {f : α → Program σ β} [hp : Shrinks μ p]
    [hf : ∀ a, Keeps (fun s s' => μ s' ≤ μ s) (f a)] : Shrinks μ (p >>= f) where
  lt s b s' h := by
    obtain ⟨a, s₁, hfirst, hrest⟩ := exists_of_bind h
    exact Nat.lt_of_le_of_lt ((hf a).of_eq hrest) (hp.lt s a s₁ hfirst)

/-- The rule, where the second part is shown by hand. -/
theorem shrinks_first {p : Program σ α} {f : α → Program σ β} [Shrinks μ p]
    (hf : ∀ a, Keeps (fun s s' => μ s' ≤ μ s) (f a)) : Shrinks μ (p >>= f) := shrinks_bind

/-- The first part adds nothing, and the second uses up some. -/
theorem shrinks_then {p : Program σ α} {f : α → Program σ β}
    [hp : Keeps (fun s s' => μ s' ≤ μ s) p] (hf : ∀ a, Shrinks μ (f a)) :
    Shrinks μ (p >>= f) where
  lt s b s' h := by
    obtain ⟨a, s₁, hfirst, hrest⟩ := exists_of_bind h
    exact Nat.lt_of_lt_of_le ((hf a).lt s₁ b s' hrest) (hp.of_eq hfirst)

theorem Shrinks.le {p : Program σ α} [hp : Shrinks μ p] {s s' : σ} {a : α}
    (h : p s = (some a, s')) : μ s' ≤ μ s := Nat.le_of_lt (hp.lt s a s' h)

end Shrinks

/-! ## What a loop is -/

section Loop

variable {μ : σ → ℕ} {body : α → Program σ (α ⊕ β)}

/-- Every round that goes on has used up some of what `μ` measures. -/
def Descends (μ : σ → ℕ) (body : α → Program σ (α ⊕ β)) : Prop :=
  ∀ a s a' s', body a s = (some (.inl a'), s') → μ s' < μ s

theorem descends_of_shrinks (h : ∀ a, Shrinks μ (body a)) : Descends μ body :=
  fun a s a' s' hrun => (h a).lt s (.inl a') s' hrun

/-- More rounds than the measure allows change nothing. -/
theorem rounds_congr (h : Descends μ body) {n m : ℕ} {a : α} {s : σ} (hn : μ s < n)
    (hm : μ s < m) : rounds body n a s = rounds body m a s := by
  induction n generalizing m a s with
  | zero => exact absurd hn (Nat.not_lt_zero _)
  | succ n ih =>
    cases m with
    | zero => exact absurd hm (Nat.not_lt_zero _)
    | succ m =>
      unfold rounds
      rcases hrun : body a s with ⟨_ | r, s'⟩
      · rw [bind_of_none hrun, bind_of_none hrun]
      · rw [bind_of_some hrun, bind_of_some hrun]
        cases r with
        | inl a' =>
          have hlt := h a s a' s' hrun
          exact ih (Nat.lt_of_lt_of_le hlt (Nat.le_of_lt_succ hn))
            (Nat.lt_of_lt_of_le hlt (Nat.le_of_lt_succ hm))
        | inr b => rfl

/-- **A loop is a round, and the loop again.** -/
theorem loop_eq (h : Descends μ body) (a : α) :
    loop μ body a = body a >>= Sum.elim (loop μ body) pure := by
  funext s
  show (body a >>= Sum.elim (rounds body (μ s)) pure) s = _
  rcases hrun : body a s with ⟨_ | r, s'⟩
  · rw [bind_of_none hrun, bind_of_none hrun]
  · rw [bind_of_some hrun, bind_of_some hrun]
    cases r with
    | inl a' => exact rounds_congr h (h a s a' s' hrun) (Nat.lt_succ_self _)
    | inr b => rfl

/-- A round that goes on. -/
theorem loop_of_inl (h : Descends μ body) {a a' : α} {s s' : σ}
    (hrun : body a s = (some (.inl a'), s')) : loop μ body a s = loop μ body a' s' := by
  rw [loop_eq h, bind_of_some hrun]
  rfl

/-- A round that ends the loop. -/
theorem loop_of_inr {a : α} {b : β} {s s' : σ} (hrun : body a s = (some (.inr b), s')) :
    loop μ body a s = (some b, s') := by
  show (body a >>= Sum.elim (rounds body (μ s)) pure) s = _
  rw [bind_of_some hrun]
  rfl

/-! ## What loops keep -/

variable {R : σ → σ → Prop} [IsPreorder σ R]

/-- **Run lemma.**  Rounds keep what each of them keeps. -/
instance keeps_rounds [h : ∀ a, Keeps R (body a)] (n : ℕ) (a : α) :
    Keeps R (rounds body n a) := by
  induction n generalizing a with
  | zero => exact keeps_abort
  | succ n ih =>
    have hrest : ∀ r, Keeps R (Sum.elim (rounds body n) (pure : β → Program σ β) r) := by
      intro r
      cases r with
      | inl a' => exact ih a'
      | inr b => exact keeps_pure b
    exact keeps_bind

/-- A loop keeps what its rounds keep. -/
instance keeps_loop [∀ a, Keeps R (body a)] (a : α) : Keeps R (loop μ body a) where
  run s := (keeps_rounds (μ s + 1) a).run s

end Loop

/-- A loop has used up what its last round has. -/
instance shrinks_loop {μ : σ → ℕ} {body : α → Program σ (α ⊕ β)} [h : ∀ a, Shrinks μ (body a)]
    (a : α) : Shrinks μ (loop μ body a) where
  lt s b s' hrun := by
    -- on the rounds
    have hrounds : ∀ n a s, rounds body n a s = (some b, s') → μ s' < μ s := by
      intro n
      induction n with
      | zero => intro a s hrun; cases hrun
      | succ n ih =>
        intro a s hrun
        obtain ⟨r, s₁, hfirst, hrest⟩ := exists_of_bind hrun
        have hlt := (h a).lt s r s₁ hfirst
        cases r with
        | inl a' => exact Nat.lt_trans (ih a' s₁ hrest) hlt
        | inr b' => cases hrest; exact hlt
    exact hrounds _ a s hrun

end Karnix.Library.Program
