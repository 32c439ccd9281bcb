import Mathlib.Data.List.Basic
import Mathlib.Tactic.Common

/-!
# Foundation - Memory around one object

A C object is modelled by the memory around it: a total map from integer
addresses, counted from the first element of the object, to its elements.
Addresses outside the object are the neighbouring memory.  Copies into such a
memory are collected as patches, and a run of patches is understood through the
last patch that touches an address.

Main results:

- Theorem {lit}`replay_apply`: after a run of patches an address holds what its
  last patch wrote, or its old contents.
- Theorem {lit}`replay_agree_iff`: an address is independent of the initial
  memory exactly when some patch hits it.
-/

namespace Foundation

variable {α : Type*}

/-- The memory around one object, addressed from its first element. -/
abbrev Memory (α : Type*) := Int → α

/-- Two memories agree on the addresses from {lit}`lo` to before {lit}`hi`. -/
def AgreeOn (m m' : Memory α) (lo hi : Int) : Prop :=
  ∀ a, lo ≤ a → a < hi → m a = m' a

theorem AgreeOn.mono {m m' : Memory α} {lo lo' hi hi' : Int} (h : AgreeOn m m' lo hi)
    (hlo : lo ≤ lo') (hhi : hi' ≤ hi) : AgreeOn m m' lo' hi' :=
  fun a ha hb => h a (by omega) (by omega)

/-! ## Copies -/

/-- Copy {lit}`n` elements of {lit}`src` to the addresses from {lit}`dst` on. -/
def Memory.blit (m : Memory α) (dst : Int) (n : Nat) (src : Nat → α) : Memory α :=
  fun a => if dst ≤ a ∧ a < dst + n then src (a - dst).toNat else m a

/-- Inside the target range a copy stores the source element. -/
theorem Memory.blit_inside {m : Memory α} {dst a : Int} {n : Nat} {src : Nat → α}
    (hlo : dst ≤ a) (hhi : a < dst + n) :
    m.blit dst n src a = src (a - dst).toNat := by
  simp [Memory.blit, hlo, hhi]

/-- Outside the target range a copy changes nothing. -/
theorem Memory.blit_outside {m : Memory α} {dst a : Int} {n : Nat} {src : Nat → α}
    (h : a < dst ∨ dst + n ≤ a) : m.blit dst n src a = m a := by
  unfold Memory.blit
  rw [if_neg]
  omega

@[simp]
theorem Memory.blit_zero (m : Memory α) (dst : Int) (src : Nat → α) :
    m.blit dst 0 src = m := by
  funext a
  exact Memory.blit_outside (by omega)

/-! ## Runs of copies -/

/-- One copy into a memory: where it starts, how long it is, what it stores. -/
structure Patch (α : Type*) where
  dst : Int
  len : Nat
  val : Nat → α

/-- The addresses a patch stores to. -/
def Patch.Hits (p : Patch α) (a : Int) : Prop :=
  p.dst ≤ a ∧ a < p.dst + p.len

instance (p : Patch α) (a : Int) : Decidable (p.Hits a) :=
  inferInstanceAs (Decidable (_ ∧ _))

/-- Carry out one patch. -/
def Memory.patch (m : Memory α) (p : Patch α) : Memory α :=
  m.blit p.dst p.len p.val

/-- Where a patch hits, it stores its element. -/
theorem Memory.patch_of_hits {m : Memory α} {p : Patch α} {a : Int} (h : p.Hits a) :
    m.patch p a = p.val (a - p.dst).toNat :=
  Memory.blit_inside h.1 h.2

/-- Everywhere else it changes nothing. -/
theorem Memory.patch_of_not_hits {m : Memory α} {p : Patch α} {a : Int} (h : ¬p.Hits a) :
    m.patch p a = m a := by
  apply Memory.blit_outside
  unfold Patch.Hits at h
  omega

/-- Carry out a run of patches, first to last. -/
def Memory.replay (m : Memory α) : List (Patch α) → Memory α
  | [] => m
  | p :: ps => (m.patch p).replay ps

/-- The last patch of a run that stores to {lit}`a`. -/
def lastHit (a : Int) : List (Patch α) → Option (Patch α)
  | [] => none
  | p :: ps =>
      match lastHit a ps with
      | some q => some q
      | none => if p.Hits a then some p else none

/-- A run leaves at each address what the last patch there stored. -/
theorem Memory.replay_apply (m : Memory α) (ps : List (Patch α)) (a : Int) :
    m.replay ps a =
      match lastHit a ps with
      | some p => p.val (a - p.dst).toNat
      | none => m a := by
  induction ps generalizing m with
  | nil => rfl
  | cons p ps ih =>
      simp only [Memory.replay, lastHit, ih]
      cases lastHit a ps with
      | some q => rfl
      | none =>
          by_cases h : p.Hits a
          · simp only [h, if_true]
            exact Memory.patch_of_hits h
          · simp only [h, if_false]
            exact Memory.patch_of_not_hits h

/-- The last hit is the first one from the end. -/
theorem lastHit_eq_find? (a : Int) (ps : List (Patch α)) :
    lastHit a ps = ps.reverse.find? fun p => p.Hits a := by
  induction ps with
  | nil => rfl
  | cons p ps ih =>
      rw [lastHit, ih, List.reverse_cons, List.find?_append]
      cases ps.reverse.find? fun p => p.Hits a with
      | some q => rfl
      | none =>
          by_cases hp : p.Hits a
          · simp [hp]
          · simp [hp]

/-- The last hit is a member of the run and stores to the address. -/
theorem lastHit_some {a : Int} {ps : List (Patch α)} {p : Patch α}
    (h : lastHit a ps = some p) : p ∈ ps ∧ p.Hits a := by
  induction ps with
  | nil => simp [lastHit] at h
  | cons q qs ih =>
      simp only [lastHit] at h
      cases hrest : lastHit a qs with
      | some r =>
          rw [hrest] at h
          cases h
          exact ⟨List.mem_cons_of_mem q (ih hrest).1, (ih hrest).2⟩
      | none =>
          rw [hrest] at h
          by_cases hq : q.Hits a
          · simp only [hq, if_true, Option.some.injEq] at h
            subst h
            exact ⟨List.mem_cons_self, hq⟩
          · simp [hq] at h

/-- There is no last hit exactly when no patch of the run stores to the address. -/
theorem lastHit_eq_none_iff {a : Int} {ps : List (Patch α)} :
    lastHit a ps = none ↔ ∀ p ∈ ps, ¬p.Hits a := by
  induction ps with
  | nil => simp [lastHit]
  | cons q qs ih =>
      simp only [lastHit, List.forall_mem_cons]
      cases hrest : lastHit a qs with
      | some r =>
          have hr := lastHit_some hrest
          simp only [reduceCtorEq, false_iff, not_and]
          intro _ hall
          exact hall r hr.1 hr.2
      | none =>
          have hall := ih.mp hrest
          by_cases hq : q.Hits a
          · simp [hq]
          · simpa [hq] using hall

/-- A run without a hit at an address keeps its contents. -/
theorem Memory.replay_of_not_hit {m : Memory α} {ps : List (Patch α)} {a : Int}
    (h : ∀ p ∈ ps, ¬p.Hits a) : m.replay ps a = m a := by
  rw [Memory.replay_apply, lastHit_eq_none_iff.mpr h]

/-- Two runs of the same patches agree at an address, whatever the memories
they start from, exactly when some patch hits the address. -/
theorem Memory.replay_agree_iff [Nontrivial α] {ps : List (Patch α)} {a : Int} :
    (∀ m m' : Memory α, m.replay ps a = m'.replay ps a) ↔ ∃ p ∈ ps, p.Hits a := by
  constructor
  · intro hagree
    by_contra hnone
    push Not at hnone
    rcases exists_pair_ne α with ⟨x, y, hxy⟩
    have h := hagree (fun _ => x) (fun _ => y)
    rw [Memory.replay_of_not_hit hnone, Memory.replay_of_not_hit hnone] at h
    exact hxy h
  · intro h m m'
    rcases h with ⟨p, hp, hhit⟩
    rw [Memory.replay_apply, Memory.replay_apply]
    cases hlast : lastHit a ps with
    | some q => rfl
    | none => exact absurd hhit (lastHit_eq_none_iff.mp hlast p hp)

end Foundation
