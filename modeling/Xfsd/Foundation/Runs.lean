import Mathlib.Data.List.Basic
import Mathlib.Tactic.Common

/-!
# Foundation - Sorted runs

Runs of consecutive places, each with a start and a length, such as the extents of a
file.  Sorted runs that do not overlap and leave no gap stand one after another: each
run that is not empty starts where the runs before it end.

Main results:

- Theorem {lit}`Covering.start_eq`: the first run that is not empty starts at the first
  place that is to be covered.
- Theorem {lit}`Covering.tail`: the other runs cover what comes after it.
-/

namespace Foundation

variable {α : Type*} (start count : α → Nat)

/-- A place lies in a run. -/
def InRun (e : α) (b : Nat) : Prop :=
  start e ≤ b ∧ b < start e + count e

instance (e : α) (b : Nat) : Decidable (InRun start count e b) :=
  inferInstanceAs (Decidable (_ ∧ _))

/-- The runs are sorted and disjoint, none that is not empty starts before {lit}`lo`, and they
cover every place from {lit}`lo` to before {lit}`hi`. -/
structure Covering (es : List α) (lo hi : Nat) : Prop where
  sorted : es.Pairwise fun e e' => start e ≤ start e'
  disjoint : es.Pairwise fun e e' => ∀ b, InRun start count e b → ¬InRun start count e' b
  after : ∀ e ∈ es, count e = 0 ∨ lo ≤ start e
  covered : ∀ b, lo ≤ b → b < hi → ∃ e ∈ es, InRun start count e b

variable {start count} {e : α} {es : List α} {lo hi : Nat}

/-- An empty run covers nothing. -/
theorem Covering.of_empty (h : Covering start count (e :: es) lo hi) (hempty : count e = 0) :
    Covering start count es lo hi where
  sorted := (List.pairwise_cons.mp h.sorted).2
  disjoint := (List.pairwise_cons.mp h.disjoint).2
  after := fun e' he' => h.after e' (List.mem_cons_of_mem e he')
  covered := by
    intro b hlo hhi
    rcases h.covered b hlo hhi with ⟨e', he', hin⟩
    rcases List.mem_cons.mp he' with rfl | he'
    · unfold InRun at hin
      omega
    · exact ⟨e', he', hin⟩

/-- The first run that is not empty starts at the first place that is to be covered. -/
theorem Covering.start_eq (h : Covering start count (e :: es) lo hi) (hlt : lo < hi)
    (hcount : count e ≠ 0) : start e = lo := by
  have hge : lo ≤ start e := (h.after e List.mem_cons_self).resolve_left hcount
  rcases h.covered lo (Nat.le_refl lo) hlt with ⟨e', he', hle, -⟩
  rcases List.mem_cons.mp he' with rfl | he'
  · omega
  · have hsorted := (List.pairwise_cons.mp h.sorted).1 e' he'
    omega

/-- The runs after it start where it ends, or later. -/
theorem Covering.end_le (h : Covering start count (e :: es) lo hi) {e' : α} (he' : e' ∈ es) :
    count e' = 0 ∨ start e + count e ≤ start e' := by
  have hsorted := (List.pairwise_cons.mp h.sorted).1 e' he'
  have hdisjoint := (List.pairwise_cons.mp h.disjoint).1 e' he' (start e')
  unfold InRun at hdisjoint
  omega

/-- The other runs cover what comes after it. -/
theorem Covering.tail (h : Covering start count (e :: es) lo hi) (hlt : lo < hi)
    (hcount : count e ≠ 0) : Covering start count es (lo + count e) hi where
  sorted := (List.pairwise_cons.mp h.sorted).2
  disjoint := (List.pairwise_cons.mp h.disjoint).2
  after := by
    intro e' he'
    rw [← h.start_eq hlt hcount]
    exact h.end_le he'
  covered := by
    intro b hlo hhi
    have hstart := h.start_eq hlt hcount
    rcases h.covered b (by omega) hhi with ⟨e', he', hin⟩
    rcases List.mem_cons.mp he' with rfl | he'
    · unfold InRun at hin
      omega
    · exact ⟨e', he', hin⟩

end Foundation
