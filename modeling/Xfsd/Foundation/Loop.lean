import Mathlib.Tactic.Common

/-!
# Foundation - Loops with a measure

A loop is a step function that either leaves with a result or goes on with a new
state.  When every turn that goes on lowers a measure, the loop is a total
function.  Facts about its result are proved turn by turn.

Main results:

- Theorem {lit}`loop_eq`: the unfolding equation.
- Theorem {lit}`loop_induction`: a relation between start states and results
  holds of the loop when exits establish it and turns carry it back.
-/

namespace Foundation

universe u v

variable {σ : Type u} {ρ : Type v}

/-- Every turn that goes on lowers the measure. -/
def Decreases (step : σ → ρ ⊕ σ) (μ : σ → Nat) : Prop :=
  ∀ s s', step s = .inr s' → μ s' < μ s

/-- Run a loop from a state. -/
def loop (step : σ → ρ ⊕ σ) (μ : σ → Nat) (h : Decreases step μ) (s : σ) : ρ :=
  match _hs : step s with
  | .inl r => r
  | .inr s' => loop step μ h s'
termination_by μ s
decreasing_by exact h s s' ‹_›

variable {step : σ → ρ ⊕ σ} {μ : σ → Nat} {h : Decreases step μ}

/-- A loop takes one turn and goes on from there. -/
theorem loop_eq (s : σ) :
    loop step μ h s =
      match step s with
      | .inl r => r
      | .inr s' => loop step μ h s' := by
  rw [loop]
  split <;> rename_i hs <;> rw [hs]

theorem loop_of_exit {s : σ} {r : ρ} (hs : step s = .inl r) : loop step μ h s = r := by
  rw [loop_eq, hs]

theorem loop_of_turn {s s' : σ} (hs : step s = .inr s') :
    loop step μ h s = loop step μ h s' := by
  rw [loop_eq, hs]

/-- The rule of loops: what exits establish and turns carry back holds of the result. -/
theorem loop_induction {P : σ → ρ → Prop}
    (hexit : ∀ s r, step s = .inl r → P s r)
    (hturn : ∀ s s' r, step s = .inr s' → P s' r → P s r) (s : σ) :
    P s (loop step μ h s) := by
  induction hn : μ s using Nat.strongRecOn generalizing s with
  | ind n ih =>
      cases hs : step s with
      | inl r =>
          rw [loop_of_exit hs]
          exact hexit s r hs
      | inr s' =>
          rw [loop_of_turn hs]
          have hlt : μ s' < n := hn ▸ h s s' hs
          exact hturn s s' _ hs (ih (μ s') hlt s' rfl)

end Foundation
