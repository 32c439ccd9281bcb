import Xfsd.Foundation.ByteOrder

/-!
# Foundation - Computations that look at a memory

A computation that looks at a memory one address after the other, where to look next
depending on what it has seen.  It can be run on a memory, and it can be run on what is
known of a memory, where it comes to a result only if all that it looks at is known.

Main results:

- Theorem {lit}`Probe.eval_mono`: who knows more comes to the same result.
- Theorem {lit}`Knows.run_eq`: a result that comes from what is known is the result on
  the memory itself.
- Theorem {lit}`Knows.patch`: what is known of a memory is known after the same copy to both.
-/

namespace Foundation

variable {α β γ : Type}

/-! ## Computations -/

/-- A computation that looks at addresses of a memory before it comes to its result. -/
inductive Probe (α β : Type) where
  | done (result : β)
  | look (a : Int) (next : α → Probe α β)

namespace Probe

/-- One computation after the other. -/
def bind : Probe α β → (β → Probe α γ) → Probe α γ
  | done r, f => f r
  | look a next, f => look a fun x => (next x).bind f

instance : Monad (Probe α) where
  pure := done
  bind := bind

/-- Look at one address. -/
def peek (a : Int) : Probe α α :=
  look a done

/-- The result on a memory. -/
def run (m : Memory α) : Probe α β → β
  | done r => r
  | look a next => (next (m a)).run m

/-- The result on what is known of a memory, if nothing else is looked at. -/
def eval (k : Memory (Option α)) : Probe α β → Option β
  | done r => some r
  | look a next =>
      match k a with
      | some x => (next x).eval k
      | none => none

@[simp]
theorem run_pure (m : Memory α) (r : β) : (pure r : Probe α β).run m = r := rfl

@[simp]
theorem run_bind (m : Memory α) (p : Probe α β) (f : β → Probe α γ) :
    (p >>= f).run m = (f (p.run m)).run m := by
  induction p with
  | done r => rfl
  | look a next ih => exact ih (m a)

/-- After a look the computation goes on with what it has seen. -/
@[simp]
theorem run_peek_bind (m : Memory α) (a : Int) (f : α → Probe α γ) :
    (Probe.peek a >>= f).run m = (f (m a)).run m := rfl

@[simp]
theorem run_ite (m : Memory α) (c : Prop) [Decidable c] (p q : Probe α β) :
    (if c then p else q).run m = if c then p.run m else q.run m := by
  split <;> rfl

end Probe

/-! ## What is known of a memory -/

/-- All that is known of a memory is right. -/
def Knows (k : Memory (Option α)) (m : Memory α) : Prop :=
  ∀ a x, k a = some x → m a = x

/-- Who knows the second knows the first. -/
def KnownFrom (k k' : Memory (Option α)) : Prop :=
  ∀ a x, k a = some x → k' a = some x

/-- Who knows more comes to the same result. -/
theorem Probe.eval_mono {k k' : Memory (Option α)} (h : KnownFrom k k') {p : Probe α β} {r : β}
    (hr : p.eval k = some r) : p.eval k' = some r := by
  induction p with
  | done r' => exact hr
  | look a next ih =>
      rw [Probe.eval] at hr ⊢
      cases hx : k a with
      | none =>
          rw [hx] at hr
          cases hr
      | some x =>
          rw [hx] at hr
          rw [h a x hx]
          exact ih x hr

/-- A result that comes from what is known is the result on the memory itself. -/
theorem Knows.run_eq {k : Memory (Option α)} {m : Memory α} (h : Knows k m) {p : Probe α β}
    {r : β} (hr : p.eval k = some r) : p.run m = r := by
  induction p with
  | done r' => exact Option.some.inj hr
  | look a next ih =>
      rw [Probe.eval] at hr
      cases hx : k a with
      | none =>
          rw [hx] at hr
          cases hr
      | some x =>
          rw [hx] at hr
          rw [Probe.run, h a x hx]
          exact ih x hr

/-! ## Copies -/

/-- The same copy of other elements. -/
def Patch.map (f : α → β) (p : Patch α) : Patch β where
  dst := p.dst
  len := p.len
  val := fun i => f (p.val i)

theorem Patch.map_hits (f : α → β) (p : Patch α) (a : Int) : (p.map f).Hits a ↔ p.Hits a :=
  Iff.rfl

/-- What is known but for a stretch from an address on. -/
def Memory.forget (k : Memory (Option α)) (lo : Int) (n : Nat) : Memory (Option α) :=
  fun a => if lo ≤ a ∧ a < lo + n then none else k a

/-- What is known of a memory is known after the same copy to both. -/
theorem Knows.patch {k : Memory (Option α)} {m : Memory α} (h : Knows k m) (p : Patch α) :
    Knows (k.patch (p.map some)) (m.patch p) := by
  intro a x hx
  by_cases hhits : p.Hits a
  · rw [Memory.patch_of_hits ((p.map_hits some a).mpr hhits)] at hx
    rw [Memory.patch_of_hits hhits]
    exact Option.some.inj hx
  · rw [Memory.patch_of_not_hits (mt (p.map_hits some a).mp hhits)] at hx
    rw [Memory.patch_of_not_hits hhits]
    exact h a x hx

/-- After a copy to a stretch the rest is known as before. -/
theorem Knows.patch_forget {k : Memory (Option α)} {m : Memory α} (h : Knows k m) {p : Patch α}
    {n : Nat} (hlen : p.len ≤ n) : Knows (k.forget p.dst n) (m.patch p) := by
  intro a x hx
  unfold Memory.forget at hx
  split at hx
  · cases hx
  · rename_i hout
    have hmiss : ¬p.Hits a := by
      unfold Patch.Hits
      omega
    rw [Memory.patch_of_not_hits hmiss]
    exact h a x hx

/-- A copy keeps what is known in order. -/
theorem KnownFrom.patch {k k' : Memory (Option α)} (h : KnownFrom k k') (p : Patch (Option α)) :
    KnownFrom (k.patch p) (k'.patch p) := by
  intro a x hx
  by_cases hhits : p.Hits a
  · rw [Memory.patch_of_hits hhits] at hx ⊢
    exact hx
  · rw [Memory.patch_of_not_hits hhits] at hx ⊢
    exact h a x hx

theorem KnownFrom.forget {k k' : Memory (Option α)} (h : KnownFrom k k') (lo : Int) (n : Nat) :
    KnownFrom (k.forget lo n) (k'.forget lo n) := by
  intro a x hx
  unfold Memory.forget at hx ⊢
  split at hx
  · cases hx
  · rename_i hout
    rw [if_neg hout]
    exact h a x hx

/-! ## Words -/

/-- Look at a 16-bit number stored most significant byte first. -/
def probeBE16 (a : Int) : Probe Byte (BitVec 16) := do
  let b0 ← .peek a
  let b1 ← .peek (a + 1)
  pure (b0 ++ b1)

/-- Look at a 32-bit number stored most significant byte first. -/
def probeBE32 (a : Int) : Probe Byte (BitVec 32) := do
  let b0 ← .peek a
  let b1 ← .peek (a + 1)
  let b2 ← .peek (a + 2)
  let b3 ← .peek (a + 3)
  pure (b0 ++ b1 ++ b2 ++ b3)

/-- Look at a 64-bit number stored most significant byte first. -/
def probeBE64 (a : Int) : Probe Byte (BitVec 64) := do
  let b0 ← .peek a
  let b1 ← .peek (a + 1)
  let b2 ← .peek (a + 2)
  let b3 ← .peek (a + 3)
  let b4 ← .peek (a + 4)
  let b5 ← .peek (a + 5)
  let b6 ← .peek (a + 6)
  let b7 ← .peek (a + 7)
  pure (b0 ++ b1 ++ b2 ++ b3 ++ b4 ++ b5 ++ b6 ++ b7)

section Words

variable (m : Memory Byte) (a : Int)

@[simp]
theorem run_probeBE16_bind (f : BitVec 16 → Probe Byte γ) :
    (probeBE16 a >>= f).run m = (f (loadBE16 m a)).run m := rfl

@[simp]
theorem run_probeBE32_bind (f : BitVec 32 → Probe Byte γ) :
    (probeBE32 a >>= f).run m = (f (loadBE32 m a)).run m := rfl

@[simp]
theorem run_probeBE64_bind (f : BitVec 64 → Probe Byte γ) :
    (probeBE64 a >>= f).run m = (f (loadBE64 m a)).run m := rfl

end Words

end Foundation
