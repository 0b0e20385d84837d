import Mathlib.Data.List.Basic
import Mathlib.Data.Nat.Notation

/-!
# Runs of a step function

A system is given by a function `step : σ → ι → σ`: the state after one step, as a
function of the state before it and of everything the environment chooses in that
step.  A run is a list of such choices.  `RunMeets step ok s is` says that every step
of the run `is` from `s` is taken in a state, and with a choice, that satisfies `ok`;
`RunMeets.invariant` is the induction rule for it.

Clocked systems are driven by a stream of inputs instead; `trace` gives their state at
each clock edge.
-/

namespace Karnix.Library

universe u v w

variable {σ : Type u} {ι : Type v}

/-! ## Finite runs -/

/-- The state at the end of the run `is` from `s`. -/
def run (step : σ → ι → σ) (s : σ) (is : List ι) : σ := is.foldl step s

@[simp] theorem run_nil (step : σ → ι → σ) (s : σ) : run step s [] = s := rfl

@[simp] theorem run_cons (step : σ → ι → σ) (s : σ) (i : ι) (is : List ι) :
    run step s (i :: is) = run step (step s i) is := rfl

theorem run_append (step : σ → ι → σ) (s : σ) (is js : List ι) :
    run step s (is ++ js) = run step (run step s is) js := List.foldl_append ..

/-- Every step of the run `is` from `s` satisfies `ok`. -/
def RunMeets (step : σ → ι → σ) (ok : σ → ι → Prop) : σ → List ι → Prop
  | _, [] => True
  | s, i :: is => ok s i ∧ RunMeets step ok (step s i) is

instance RunMeets.decidable (step : σ → ι → σ) (ok : σ → ι → Prop) [∀ s i, Decidable (ok s i)] :
    ∀ s is, Decidable (RunMeets step ok s is)
  | _, [] => isTrue trivial
  | s, i :: is =>
    have := RunMeets.decidable step ok (step s i) is
    inferInstanceAs (Decidable (ok s i ∧ RunMeets step ok (step s i) is))

namespace RunMeets

variable {step : σ → ι → σ} {ok ok' : σ → ι → Prop} {s : σ}

theorem append {is js : List ι} :
    RunMeets step ok s (is ++ js) ↔
      RunMeets step ok s is ∧ RunMeets step ok (run step s is) js := by
  induction is generalizing s with
  | nil => simp [RunMeets]
  | cons i is ih => simp [RunMeets, ih, and_assoc]

/-- What every choice of a run satisfies on its own. -/
theorem of_forall {P : ι → Prop} {is : List ι} (h : ∀ i ∈ is, P i) :
    RunMeets step (fun _ i => P i) s is := by
  induction is generalizing s with
  | nil => trivial
  | cons i is ih =>
    exact ⟨h i (List.mem_cons_self ..), ih fun j hj => h j (List.mem_cons_of_mem i hj)⟩

theorem and {is : List ι} (h : RunMeets step ok s is) (h' : RunMeets step ok' s is) :
    RunMeets step (fun s i => ok s i ∧ ok' s i) s is := by
  induction is generalizing s with
  | nil => trivial
  | cons i is ih => exact ⟨⟨h.1, h'.1⟩, ih h.2 h'.2⟩

theorem congr (h : ∀ s i, ok s i ↔ ok' s i) {is : List ι} :
    RunMeets step ok s is ↔ RunMeets step ok' s is := by
  induction is generalizing s with
  | nil => exact Iff.rfl
  | cons i is ih => exact and_congr (h s i) ih

/-- **Invariant rule.**  What holds initially, and is preserved by every step that
satisfies `ok`, holds at the end of every run whose steps all satisfy `ok`. -/
theorem invariant (Inv : σ → Prop) (hstep : ∀ s i, Inv s → ok s i → Inv (step s i))
    {is : List ι} (hrun : RunMeets step ok s is) (h0 : Inv s) : Inv (run step s is) := by
  -- the state the invariant is carried to is the start of the rest of the run
  induction is generalizing s with
  | nil => exact h0
  | cons i is ih => exact ih hrun.2 (hstep s i h0 hrun.1)

/-- Under an invariant that allowed steps preserve, what holds of every allowed step holds of
every step of the run. -/
theorem of_invariant (Inv : σ → Prop) (hstep : ∀ s i, Inv s → ok s i → Inv (step s i))
    (hok : ∀ s i, Inv s → ok s i → ok' s i) {is : List ι} (hrun : RunMeets step ok s is)
    (h0 : Inv s) : RunMeets step ok' s is := by
  induction is generalizing s with
  | nil => trivial
  | cons i is ih => exact ⟨hok s i h0 hrun.1, ih hrun.2 (hstep s i h0 hrun.1)⟩

end RunMeets

/-! ## Clocked systems -/

/-- The state at clock edge `n`, with input `inp n` sampled at that edge. -/
def trace (step : σ → ι → σ) (s : σ) (inp : ℕ → ι) : ℕ → σ
  | 0 => s
  | n + 1 => step (trace step s inp n) (inp n)

@[simp] theorem trace_zero (step : σ → ι → σ) (s : σ) (inp : ℕ → ι) :
    trace step s inp 0 = s := rfl

theorem trace_succ (step : σ → ι → σ) (s : σ) (inp : ℕ → ι) (n : ℕ) :
    trace step s inp (n + 1) = step (trace step s inp n) (inp n) := rfl

/-- **A register with an enable.**  Once it has been loaded, it keeps its value as long as it is
loaded with nothing else. -/
theorem held {β : Type w} {f g : ℕ → β} {p : ℕ → Bool}
    (hstep : ∀ n, f (n + 1) = if p n then g n else f n) {t k : ℕ} {a : β}
    (hload : p t = true) (hval : g t = a)
    (hkeep : ∀ i < k, p (t + 1 + i) = true → g (t + 1 + i) = a) : f (t + 1 + k) = a := by
  induction k with
  | zero => rw [Nat.add_zero, hstep, if_pos hload, hval]
  | succ k ih =>
    have hreg := ih fun i hi => hkeep i (Nat.lt_succ_of_lt hi)
    rw [← Nat.add_assoc, hstep]
    split
    · exact hkeep k (Nat.lt_succ_self k) ‹_›
    · exact hreg

/-- What the system has put out before clock edge `n`: `out s i` is what it puts out in a
cycle that begins in state `s` with input `i`. -/
def observed {β : Type w} (step : σ → ι → σ) (out : σ → ι → Option β) (s : σ) (inp : ℕ → ι) :
    ℕ → List β
  | 0 => []
  | n + 1 => observed step out s inp n ++ (out (trace step s inp n) (inp n)).toList

theorem observed_succ_none {β : Type w} {step : σ → ι → σ} {out : σ → ι → Option β} {s : σ}
    {inp : ℕ → ι} {n : ℕ} (h : out (trace step s inp n) (inp n) = none) :
    observed step out s inp (n + 1) = observed step out s inp n := by
  simp [observed, h]

theorem observed_succ_some {β : Type w} {step : σ → ι → σ} {out : σ → ι → Option β} {s : σ}
    {inp : ℕ → ι} {n : ℕ} {x : β} (h : out (trace step s inp n) (inp n) = some x) :
    observed step out s inp (n + 1) = observed step out s inp n ++ [x] := by
  simp [observed, h]

end Karnix.Library
