import Mathlib.Logic.Function.Basic
import Mathlib.Tactic.Common

/-!
# Foundation - Updates seen through a view

A representation is updated by operations that are explained on a view of it.  An
operation tracks its explanation at a representation when the view of the result is
the explained update of the view.  Where the view forgets nothing, operations
inherit the algebra of their explanations.

Main results:

- Theorem {lit}`Tracks.commute`: operations whose explanations commute commute.
- Theorem {lit}`view_foldl`: a run of operations is explained step by step.
-/

namespace Foundation

variable {ρ ν ι : Type*}

/-- An operation does to the view what its explanation says. -/
def Tracks (view : ρ → ν) (apply : ι → ρ → ρ) (explain : ι → ν → ν) (i : ι) : Prop :=
  ∀ r, view (apply i r) = explain i (view r)

variable {view : ρ → ν} {apply : ι → ρ → ρ} {explain : ι → ν → ν}

/-- Operations whose explanations commute commute, where the view forgets nothing. -/
theorem Tracks.commute (hview : Function.Injective view) {i j : ι}
    (hi : Tracks view apply explain i) (hj : Tracks view apply explain j)
    (hcomm : ∀ v, explain i (explain j v) = explain j (explain i v)) (r : ρ) :
    apply i (apply j r) = apply j (apply i r) := by
  apply hview
  rw [hi, hj, hj, hi]
  exact hcomm (view r)

/-- A run of operations is explained step by step. -/
theorem view_foldl {is : List ι} (h : ∀ i ∈ is, Tracks view apply explain i) (r : ρ) :
    view (is.foldl (fun r i => apply i r) r) = is.foldl (fun v i => explain i v) (view r) := by
  induction is generalizing r with
  | nil => rfl
  | cons i is ih =>
      rcases List.forall_mem_cons.mp h with ⟨hi, his⟩
      rw [List.foldl_cons, List.foldl_cons, ih his, hi]

end Foundation
