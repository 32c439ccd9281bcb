import Mathlib.Tactic.Common

/-!
# Foundation - Runs that give up early

A run over a list takes a state from element to element and gives up as soon as a step brings
it beyond a limit.  When no step brings a state back below the limit, giving up early decides
nothing that going on to the end would decide otherwise.

Main results:

- Theorem {lit}`foldUntil_of_beyond`: a complete run that ends beyond the limit gives up.
- Theorem {lit}`foldUntil_of_not_beyond`: a complete run that ends within the limit does not.
-/

namespace Foundation

variable {σ α : Type*} (step : σ → α → σ) (beyond : σ → Prop) [DecidablePred beyond]

/-- Take a state from element to element; give up after a step that brings it beyond the limit. -/
def foldUntil (s : σ) : List α → Except σ σ
  | [] => .ok s
  | x :: xs => if beyond (step s x) then .error (step s x) else foldUntil (step s x) xs

variable {step beyond} {s : σ} {xs : List α}

/-- A complete run that ends beyond the limit gives up, in a state beyond the limit that it has
after some of the elements. -/
theorem foldUntil_of_beyond (hs : beyond s → xs ≠ []) (h : beyond (xs.foldl step s)) :
    ∃ ys, ys <+: xs ∧ foldUntil step beyond s xs = .error (ys.foldl step s) ∧
      beyond (ys.foldl step s) := by
  induction xs generalizing s with
  | nil => exact absurd rfl (hs h)
  | cons x xs ih =>
      rw [foldUntil]
      by_cases hx : beyond (step s x)
      · exact ⟨[x], (List.prefix_cons_inj x).mpr xs.nil_prefix, if_pos hx, hx⟩
      · rw [if_neg hx]
        rcases ih (fun h => absurd h hx) h with ⟨ys, hys, herror, hbeyond⟩
        exact ⟨x :: ys, (List.prefix_cons_inj x).mpr hys, herror, hbeyond⟩

section Monotone

variable (hstep : ∀ s x, beyond s → beyond (step s x))

include hstep

omit [DecidablePred beyond] in
/-- What is beyond the limit stays beyond it. -/
theorem beyond_foldl (hs : beyond s) : beyond (xs.foldl step s) := by
  induction xs generalizing s with
  | nil => exact hs
  | cons x xs ih => exact ih (hstep s x hs)

/-- A complete run that ends within the limit does not give up. -/
theorem foldUntil_of_not_beyond (h : ¬beyond (xs.foldl step s)) :
    foldUntil step beyond s xs = .ok (xs.foldl step s) := by
  induction xs generalizing s with
  | nil => rfl
  | cons x xs ih =>
      rw [List.foldl_cons] at h ⊢
      rw [foldUntil, if_neg fun hx => h (beyond_foldl hstep hx), ih h]

end Monotone

end Foundation
