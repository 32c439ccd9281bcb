import Xfsd.Foundation.Store

/-!
# Foundation - Copies between objects

A copy takes bytes from one object to another.  Two stretches of memory hold the same
bytes when they agree index by index, whatever their addresses; copies produce such
stretches, and stores elsewhere do not disturb them.

Main results:

- Theorem {lit}`copyFrom_same`: the target of a copy holds the bytes of its source.
- Theorems {lit}`SameBytes.copyFrom_of_disjoint` and {lit}`SameBytes.write_of_disjoint`:
  stores elsewhere do not disturb a stretch.
- Theorems {lit}`SameBytes.loadBE16` and {lit}`SameBytes.loadBE64`: the same bytes are the
  same numbers.
-/

namespace Foundation

/-- {lit}`memcpy` between two objects: {lit}`n` bytes from {lit}`src` on in the second one go
to {lit}`dst` in the first. -/
def Memory.copyFrom (m : Memory Byte) (dst : Int) (s : Memory Byte) (src : Int) (n : Nat) :
    Memory Byte :=
  m.blit dst n fun i => s (src + i)

/-- Two stretches of {lit}`n` bytes hold the same bytes. -/
def SameBytes (m : Memory Byte) (a : Int) (m' : Memory Byte) (a' : Int) (n : Nat) : Prop :=
  ∀ i : Nat, i < n → m (a + i) = m' (a' + i)

variable {m m' m'' s : Memory Byte} {a a' a'' dst src : Int} {n k : Nat}

/-- A copy changes nothing outside its range. -/
theorem Memory.copyFrom_outside {b : Int} (h : b < dst ∨ dst + n ≤ b) :
    m.copyFrom dst s src n b = m b :=
  Memory.blit_outside h

/-- The target of a copy holds the bytes of its source. -/
theorem copyFrom_same (m : Memory Byte) (dst : Int) (s : Memory Byte) (src : Int) (n : Nat) :
    SameBytes (m.copyFrom dst s src n) dst s src n := by
  intro i hi
  rw [Memory.copyFrom, Memory.blit_inside (by omega) (by omega), add_sub_cancel_left,
    Int.toNat_natCast]

theorem SameBytes.trans (h : SameBytes m a m' a' n) (h' : SameBytes m' a' m'' a'' n) :
    SameBytes m a m'' a'' n :=
  fun i hi => (h i hi).trans (h' i hi)

/-- A copy elsewhere does not disturb a stretch. -/
theorem SameBytes.copyFrom_of_disjoint (h : SameBytes m a m' a' n)
    (hdisjoint : a + n ≤ dst ∨ dst + k ≤ a) :
    SameBytes (m.copyFrom dst s src k) a m' a' n := by
  intro i hi
  rw [Memory.copyFrom_outside (by omega), h i hi]

/-- A store elsewhere does not disturb a stretch. -/
theorem SameBytes.write_of_disjoint {xs : List Byte} (h : SameBytes m a m' a' n)
    (hdisjoint : a + n ≤ dst ∨ dst + xs.length ≤ a) :
    SameBytes (m.write dst xs) a m' a' n := by
  intro i hi
  rw [Memory.write_outside (by omega), h i hi]

/-- A copy to the start of an object agrees with its source. -/
theorem agreeOn_copyFrom (m s : Memory Byte) {hi : Int} (h : hi ≤ n) :
    AgreeOn (m.copyFrom 0 s 0 n) s 0 hi := by
  intro a ha hlt
  rw [Memory.copyFrom, Memory.blit_inside ha (by omega)]
  congr 1
  omega

/-! ## Strings in stretches -/

variable {xs : List Byte}

/-- The store of a byte is the store of a string. -/
theorem Memory.set_eq_write (m : Memory Byte) (a : Int) (x : Byte) : m.set a x = m.write a [x] := by
  rw [Memory.write_cons, Memory.write_nil]

/-- A store of as many bytes replaces a part of a string. -/
theorem Spells.write_between {ys zs : List Byte} (h : Spells m a (xs ++ (ys ++ zs)))
    (ys' : List Byte) (hlength : ys'.length = ys.length) :
    Spells (m.write (a + xs.length) ys') a (xs ++ (ys' ++ zs)) := by
  rcases spells_append_iff.mp h with ⟨hxs, hrest⟩
  rcases spells_append_iff.mp hrest with ⟨-, hzs⟩
  refine spells_append_iff.mpr ⟨hxs.write_of_disjoint (Or.inl le_rfl), ?_⟩
  refine spells_append_iff.mpr ⟨spells_write m _ ys', ?_⟩
  rw [hlength]
  exact hzs.write_of_disjoint (Or.inr (by rw [hlength]))

/-- A store behind a string makes it longer. -/
theorem Spells.write_behind (h : Spells m a xs) (ys : List Byte) :
    Spells (m.write (a + xs.length) ys) a (xs ++ ys) :=
  spells_append_iff.mpr ⟨h.write_of_disjoint (Or.inl le_rfl), spells_write m _ ys⟩

/-- A memory that agrees on a string spells it. -/
theorem Spells.of_agreeOn (h : Spells m a xs) (hagree : AgreeOn m' m a (a + xs.length)) :
    Spells m' a xs :=
  h.congr fun i _ => hagree (a + i) (by omega) (by omega)

/-- A copy of a string is a store of it. -/
theorem Memory.copyFrom_eq_write (h : Spells s src xs) :
    m.copyFrom dst s src xs.length = m.write dst xs := by
  ext b
  by_cases hin : dst ≤ b ∧ b < dst + xs.length
  · have hi : (b - dst).toNat < xs.length := by omega
    have hcopy := copyFrom_same m dst s src xs.length _ hi
    have hwrite := spells_write m dst xs _ hi
    have haddr : dst + ((b - dst).toNat : Int) = b := by omega
    rw [haddr] at hcopy hwrite
    rw [hcopy, hwrite, h _ hi]
  · rw [Memory.copyFrom_outside (by omega), Memory.write_outside (by omega)]

/-! ## Numbers in stretches -/

theorem SameBytes.loadBE16 (h : SameBytes m a m' a' 2) : loadBE16 m a = loadBE16 m' a' :=
  loadBE16_congr h

/-- The number at an index of an array of 64-bit numbers. -/
theorem SameBytes.loadBE64 (h : SameBytes m a m' a' (8 * n)) {i : Nat} (hi : i < n) :
    loadBE64 m (a + 8 * i) = loadBE64 m' (a' + 8 * i) := by
  apply loadBE64_congr
  intro j hj
  have hbyte := h (8 * i + j) (by omega)
  simpa [add_assoc] using hbyte

end Foundation
