import Mathlib.Data.List.Basic
import Mathlib.Tactic.Common

/-!
# Foundation - Lists in pieces

A list is handed out in pieces, each one where the pieces before it have left off.
The pieces together are a beginning of the list exactly when each of them is one of
what is left at its turn.

Main results:

- Theorem {lit}`flatten_isPrefix_drop_iff`: pieces are judged one by one.
- Theorem {lit}`take_isPrefix_drop_iff`: a piece from the front of the list in the
  place of a later piece.
-/

namespace Foundation

variable {α : Type*} {xs ys zs : List α}

/-- A concatenation starts a list exactly when its parts start what they stand before. -/
theorem append_isPrefix_iff : xs ++ ys <+: zs ↔ xs <+: zs ∧ ys <+: zs.drop xs.length := by
  constructor
  · intro h
    rcases h with ⟨rest, rfl⟩
    refine ⟨⟨ys ++ rest, by rw [List.append_assoc]⟩, rest, ?_⟩
    rw [List.append_assoc, List.drop_left]
  · intro h
    rcases h with ⟨⟨zs', rfl⟩, hys⟩
    rw [List.drop_left] at hys
    exact (List.prefix_append_right_inj xs).mpr hys

/-- Each piece starts what is left of the list at its turn. -/
def InTurn (xs : List α) : Nat → List (List α) → Prop
  | _, [] => True
  | off, piece :: pieces => piece <+: xs.drop off ∧ InTurn xs (off + piece.length) pieces

/-- Pieces together start a list exactly when each of them does at its turn. -/
theorem flatten_isPrefix_drop_iff {off : Nat} {pieces : List (List α)} :
    pieces.flatten <+: xs.drop off ↔ InTurn xs off pieces := by
  induction pieces generalizing off with
  | nil => simp [InTurn]
  | cons piece pieces ih =>
      rw [List.flatten_cons, append_isPrefix_iff, InTurn, List.drop_drop, ih]

/-- The first elements of a list start what is left of it exactly when as many are left, and
they are the same. -/
theorem take_isPrefix_drop_iff {off len : Nat} (hlen : len ≤ xs.length) (hoff : off ≤ xs.length) :
    xs.take len <+: xs.drop off ↔
      off + len ≤ xs.length ∧ (xs.drop off).take len = xs.take len := by
  have htake : (xs.take len).length = len := List.length_take_of_le hlen
  rw [List.prefix_iff_eq_take, htake]
  constructor
  · intro h
    have hlength := congrArg List.length h
    rw [htake, List.length_take, List.length_drop] at hlength
    exact ⟨by omega, h.symm⟩
  · intro h
    exact h.2.symm

end Foundation
