import Mathlib.Data.List.Basic
import Mathlib.Tactic.Common

/-!
# Foundation - Resolving paths

A file system, as far as path resolution is concerned, is a map from nodes to
directories, where a directory sends names to nodes.  A path is a list of
components; the empty component stands still, but only in a directory.

Main results:

- Definition {lit}`Resolves`: the derivations of component-wise lookup.
- Theorems {lit}`resolve_eq_reached_iff`, {lit}`resolve_eq_missing_iff` and
  {lit}`resolve_eq_notDirectory_iff`: what each outcome of resolution means in
  terms of derivations.
-/

namespace Foundation

variable {ι α : Type*}

/-- What resolving a path comes to. -/
inductive Resolution (ι : Type*) where
  | reached (node : ι)
  | missing
  | notDirectory
deriving DecidableEq

section Resolve

variable (look : ι → Option (List α → Option ι))

/-- Resolve a list of components from a node. -/
def resolve : ι → List (List α) → Resolution ι
  | node, [] => .reached node
  | node, name :: rest =>
      match look node with
      | none => .notDirectory
      | some dir =>
          match name with
          | [] => resolve node rest
          | _ :: _ =>
              match dir name with
              | none => .missing
              | some child => resolve child rest

/-- Component-wise lookup leads from a node to a node. -/
inductive Resolves : ι → List (List α) → ι → Prop where
  | nil (node : ι) : Resolves node [] node
  | stay {node target : ι} {dir : List α → Option ι} {rest : List (List α)} :
      look node = some dir → Resolves node rest target → Resolves node ([] :: rest) target
  | step {node child target : ι} {dir : List α → Option ι} {name : List α}
      {rest : List (List α)} : look node = some dir → name ≠ [] → dir name = some child →
      Resolves child rest target → Resolves node (name :: rest) target

/-- Some nonempty component has no entry in the directory that the components before it
lead to. -/
def MissesAt (node : ι) (path : List (List α)) : Prop :=
  ∃ before name after reached dir, path = before ++ name :: after ∧
    Resolves look node before reached ∧ look reached = some dir ∧ name ≠ [] ∧ dir name = none

/-- Some component, empty or not, is applied to a node that is not a directory. -/
def BlockedAt (node : ι) (path : List (List α)) : Prop :=
  ∃ before name after reached, path = before ++ name :: after ∧
    Resolves look node before reached ∧ look reached = none

variable {look} {node child : ι} {dir : List α → Option ι} {name : List α}

theorem missesAt_nil : ¬MissesAt look node [] := by
  intro h
  rcases h with ⟨before, name, after, reached, dir, hpath, -⟩
  simp at hpath

theorem blockedAt_nil : ¬BlockedAt look node [] := by
  intro h
  rcases h with ⟨before, name, after, reached, hpath, -⟩
  simp at hpath

/-- A node that is not a directory blocks every component. -/
theorem blocked_cons (name : List α) (rest : List (List α)) (hlook : look node = none) :
    (∀ target, ¬Resolves look node (name :: rest) target) ∧
      ¬MissesAt look node (name :: rest) ∧ BlockedAt look node (name :: rest) := by
  refine ⟨?_, ?_, [], name, rest, node, rfl, .nil node, hlook⟩
  · intro target h
    cases h with
    | stay hdir _ => simp [hlook] at hdir
    | step hdir _ _ _ => simp [hlook] at hdir
  · intro h
    rcases h with ⟨before, name', after, reached, dir, hpath, hbefore, hdir, -, -⟩
    cases hbefore with
    | nil => simp [hlook] at hdir
    | stay hdir' _ => simp [hlook] at hdir'
    | step hdir' _ _ _ => simp [hlook] at hdir'

/-- A name that the directory does not have is missed. -/
theorem misses_cons (rest : List (List α)) (hlook : look node = some dir) (hname : name ≠ [])
    (hmiss : dir name = none) :
    (∀ target, ¬Resolves look node (name :: rest) target) ∧
      MissesAt look node (name :: rest) ∧ ¬BlockedAt look node (name :: rest) := by
  have hstep : ∀ path reached, Resolves look node (name :: path) reached → False := by
    intro path reached h
    cases h with
    | stay _ _ => exact hname rfl
    | step hdir _ hchild _ =>
        rw [hlook, Option.some.injEq] at hdir
        rw [hdir, hchild] at hmiss
        cases hmiss
  refine ⟨fun target => hstep rest target,
    ⟨[], name, rest, node, dir, rfl, .nil node, hlook, hname, hmiss⟩, ?_⟩
  intro h
  rcases h with ⟨before, name', after, reached, hpath, hbefore, hblocked⟩
  cases before with
  | nil =>
      cases hbefore
      simp [hlook] at hblocked
  | cons first before =>
      rw [List.cons_append, List.cons.injEq] at hpath
      rw [← hpath.1] at hbefore
      exact hstep _ _ hbefore

section Advance

variable {next : ι} (rest : List (List α)) (hlook : look node = some dir)
  (hnext : (name = [] ∧ next = node) ∨ (name ≠ [] ∧ dir name = some next))

include hlook hnext

/-- What follows a component that leads on is resolved from where it leads. -/
theorem resolves_cons_iff (target : ι) :
    Resolves look node (name :: rest) target ↔ Resolves look next rest target := by
  rcases hnext with ⟨rfl, rfl⟩ | ⟨hname, hchild⟩
  · constructor
    · intro h
      cases h with
      | stay _ htail => exact htail
      | step _ hne _ _ => exact absurd rfl hne
    · exact Resolves.stay hlook
  · constructor
    · intro h
      cases h with
      | stay _ _ => exact absurd rfl hname
      | step hdir _ hchild' htail =>
          rw [hlook, Option.some.injEq] at hdir
          rw [hdir, hchild', Option.some.injEq] at hchild
          exact hchild ▸ htail
    · exact Resolves.step hlook hname hchild

/-- A component is missing after it exactly when it is missing from where it leads. -/
theorem missesAt_cons_iff : MissesAt look node (name :: rest) ↔ MissesAt look next rest := by
  constructor
  · intro h
    rcases h with ⟨before, name', after, reached, dir', hpath, hbefore, hdir', hne, hmiss⟩
    cases before with
    | nil =>
        -- the component that leads on is not the one that is missed
        cases hbefore
        rw [hlook, Option.some.injEq] at hdir'
        rw [List.nil_append, List.cons.injEq] at hpath
        rw [← hpath.1, ← hdir'] at hmiss
        rw [← hpath.1] at hne
        rcases hnext with ⟨hnil, -⟩ | ⟨-, hchild⟩
        · exact absurd hnil hne
        · rw [hmiss] at hchild
          cases hchild
    | cons first before =>
        rw [List.cons_append, List.cons.injEq] at hpath
        rw [← hpath.1] at hbefore
        exact ⟨before, name', after, reached, dir', hpath.2,
          (resolves_cons_iff before hlook hnext reached).mp hbefore, hdir', hne, hmiss⟩
  · intro h
    rcases h with ⟨before, name', after, reached, dir', hpath, hbefore, hrest⟩
    refine ⟨name :: before, name', after, reached, dir', ?_,
      (resolves_cons_iff before hlook hnext reached).mpr hbefore, hrest⟩
    rw [hpath, List.cons_append]

/-- A component is blocked after it exactly when it is blocked from where it leads. -/
theorem blockedAt_cons_iff : BlockedAt look node (name :: rest) ↔ BlockedAt look next rest := by
  constructor
  · intro h
    rcases h with ⟨before, name', after, reached, hpath, hbefore, hblocked⟩
    cases before with
    | nil =>
        cases hbefore
        rw [hlook] at hblocked
        cases hblocked
    | cons first before =>
        rw [List.cons_append, List.cons.injEq] at hpath
        rw [← hpath.1] at hbefore
        exact ⟨before, name', after, reached, hpath.2,
          (resolves_cons_iff before hlook hnext reached).mp hbefore, hblocked⟩
  · intro h
    rcases h with ⟨before, name', after, reached, hpath, hbefore, hblocked⟩
    refine ⟨name :: before, name', after, reached, ?_,
      (resolves_cons_iff before hlook hnext reached).mpr hbefore, hblocked⟩
    rw [hpath, List.cons_append]

end Advance

/-- The outcome of resolution says which derivation there is. -/
theorem resolve_spec (node : ι) (path : List (List α)) :
    (∀ target, resolve look node path = .reached target ↔ Resolves look node path target) ∧
      (resolve look node path = .missing ↔ MissesAt look node path) ∧
      (resolve look node path = .notDirectory ↔ BlockedAt look node path) := by
  induction path generalizing node with
  | nil =>
      refine ⟨fun target => ⟨?_, ?_⟩, ?_, ?_⟩
      · intro h
        cases h
        exact .nil node
      · intro h
        cases h
        rfl
      · simp [resolve, missesAt_nil]
      · simp [resolve, blockedAt_nil]
  | cons name rest ih =>
      cases hlook : look node with
      | none =>
          rcases blocked_cons name rest hlook with ⟨hres, hmiss, hblock⟩
          have hresolve : resolve look node (name :: rest) = .notDirectory := by
            simp [resolve, hlook]
          rw [hresolve]
          exact ⟨fun target => iff_of_false (by simp) (hres target),
            iff_of_false (by simp) hmiss, iff_of_true rfl hblock⟩
      | some dir =>
          cases name with
          | nil =>
              have hresolve : resolve look node ([] :: rest) = resolve look node rest := by
                simp [resolve, hlook]
              have hnext : (([] : List α) = [] ∧ node = node) ∨
                  (([] : List α) ≠ [] ∧ dir [] = some node) := Or.inl ⟨rfl, rfl⟩
              rw [hresolve, missesAt_cons_iff rest hlook hnext, blockedAt_cons_iff rest hlook hnext]
              refine ⟨fun target => ?_, (ih node).2⟩
              rw [resolves_cons_iff rest hlook hnext]
              exact (ih node).1 target
          | cons c name =>
              cases hchild : dir (c :: name) with
              | none =>
                  rcases misses_cons rest hlook (List.cons_ne_nil c name) hchild with
                    ⟨hres, hmiss, hblock⟩
                  have hresolve : resolve look node ((c :: name) :: rest) = .missing := by
                    simp [resolve, hlook, hchild]
                  rw [hresolve]
                  exact ⟨fun target => iff_of_false (by simp) (hres target),
                    iff_of_true rfl hmiss, iff_of_false (by simp) hblock⟩
              | some child =>
                  have hresolve : resolve look node ((c :: name) :: rest) =
                      resolve look child rest := by
                    simp [resolve, hlook, hchild]
                  have hnext : ((c :: name) = [] ∧ child = node) ∨
                      ((c :: name) ≠ [] ∧ dir (c :: name) = some child) :=
                    Or.inr ⟨List.cons_ne_nil c name, hchild⟩
                  rw [hresolve, missesAt_cons_iff rest hlook hnext,
                    blockedAt_cons_iff rest hlook hnext]
                  refine ⟨fun target => ?_, (ih child).2⟩
                  rw [resolves_cons_iff rest hlook hnext]
                  exact (ih child).1 target

theorem resolve_eq_reached_iff {path : List (List α)} {target : ι} :
    resolve look node path = .reached target ↔ Resolves look node path target :=
  (resolve_spec node path).1 target

theorem resolve_eq_missing_iff {path : List (List α)} :
    resolve look node path = .missing ↔ MissesAt look node path :=
  (resolve_spec node path).2.1

theorem resolve_eq_notDirectory_iff {path : List (List α)} :
    resolve look node path = .notDirectory ↔ BlockedAt look node path :=
  (resolve_spec node path).2.2

end Resolve

end Foundation
