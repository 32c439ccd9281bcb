import Xfsd.Foundation.Spelling

/-!
# Foundation - Storing byte strings

A store writes a byte string into memory from an address on.  What was stored is
spelled there, everything else keeps its contents, and storing what a memory
already spells changes nothing.  A machine word is stored as the bytes of its
representation, least significant byte first.

Main results:

- Theorems {lit}`spells_write` and {lit}`Memory.write_outside`: a store is exact.
- Theorem {lit}`Memory.write_eq_self_iff`: a store changes nothing exactly when its
  bytes stand there already.
- Theorems {lit}`spells_beBytes16_iff`, {lit}`spells_beBytes32_iff` and
  {lit}`spells_beBytes64_iff`: the big-endian digits of a number stand at an address
  exactly when a load finds the number there.
-/

namespace Foundation

variable {m m' : Memory Byte} {a : Int} {xs ys : List Byte}

/-! ## Stores -/

/-- Store a byte. -/
def Memory.set (m : Memory Byte) (a : Int) (x : Byte) : Memory Byte :=
  fun b => if b = a then x else m b

/-- Store a byte string from an address on. -/
def Memory.write (m : Memory Byte) (a : Int) (bytes : List Byte) : Memory Byte :=
  m.blit a bytes.length fun i => bytes.getD i 0

@[simp]
theorem Memory.write_nil (m : Memory Byte) (a : Int) : m.write a [] = m := by
  simp [Memory.write]

/-- A store changes nothing outside its range. -/
theorem Memory.write_outside {b : Int} (h : b < a ∨ a + xs.length ≤ b) :
    m.write a xs b = m b :=
  Memory.blit_outside h

/-- What was stored stands there. -/
theorem spells_write (m : Memory Byte) (a : Int) (xs : List Byte) :
    Spells (m.write a xs) a xs := by
  intro i hi
  rw [Memory.write, Memory.blit_inside (by omega) (by omega)]
  simp [hi]

/-- A store puts its first byte first. -/
theorem Memory.write_cons (m : Memory Byte) (a : Int) (x : Byte) (xs : List Byte) :
    m.write a (x :: xs) = (m.set a x).write (a + 1) xs := by
  ext b
  have hspells := spells_cons_iff.mp (spells_write m a (x :: xs))
  rcases lt_trichotomy b a with hb | rfl | hb
  · rw [Memory.write_outside (Or.inl hb), Memory.write_outside (Or.inl (by omega)), Memory.set,
      if_neg (by omega)]
  · rw [hspells.1, Memory.write_outside (Or.inl (by omega)), Memory.set, if_pos rfl]
  · by_cases hin : b < a + 1 + xs.length
    · have hi : (b - (a + 1)).toNat < xs.length := by omega
      have haddr : a + 1 + ((b - (a + 1)).toNat : Int) = b := by omega
      have hleft := hspells.2 _ hi
      have hright := spells_write (m.set a x) (a + 1) xs _ hi
      rw [haddr] at hleft hright
      rw [hleft, hright]
    · rw [Memory.write_outside (Or.inr (by simp only [List.length_cons]; omega)),
        Memory.write_outside (Or.inr (by omega)), Memory.set, if_neg (by omega)]

/-- A store of a concatenation is a store of its parts. -/
theorem Memory.write_append (m : Memory Byte) (a : Int) (xs ys : List Byte) :
    m.write a (xs ++ ys) = (m.write a xs).write (a + xs.length) ys := by
  induction xs generalizing m a with
  | nil => simp
  | cons x xs ih =>
      rw [List.cons_append, Memory.write_cons, Memory.write_cons, ih, List.length_cons,
        Nat.cast_add, Nat.cast_one, add_assoc, add_comm 1]

/-- A store of other bytes does not disturb a string. -/
theorem Spells.write_of_disjoint {b : Int} (h : Spells m a xs)
    (hdisjoint : a + xs.length ≤ b ∨ b + ys.length ≤ a) : Spells (m.write b ys) a xs := by
  intro i hi
  rw [Memory.write_outside (by omega), h i hi]

/-- Memories that spell one string agree on it. -/
theorem AgreeOn.of_spells (h : Spells m a xs) (h' : Spells m' a xs) :
    AgreeOn m m' a (a + xs.length) := by
  intro b hlo hhi
  have hi : (b - a).toNat < xs.length := by omega
  have haddr : a + ((b - a).toNat : Int) = b := by omega
  rw [← haddr, h _ hi, h' _ hi]

/-- A store changes nothing exactly when its bytes stand there already. -/
theorem Memory.write_eq_self_iff : m.write a xs = m ↔ Spells m a xs := by
  constructor
  · intro h
    rw [← h]
    exact spells_write m a xs
  · intro h
    funext b
    by_cases hin : a ≤ b ∧ b < a + xs.length
    · exact AgreeOn.of_spells (spells_write m a xs) h b hin.1 hin.2
    · exact Memory.write_outside (by omega)

/-! ## Numbers in memory -/

/-- The last byte of a concatenation. -/
theorem low_append {w : Nat} (x : BitVec w) (y : Byte) : (x ++ y).setWidth 8 = y := by
  ext i hi
  simp [BitVec.getLsbD_append, hi]

/-- The bytes of a concatenation before the last one. -/
theorem high_append {w k : Nat} (x : BitVec w) (y : Byte) :
    ((x ++ y) >>> (k + 8)).setWidth 8 = (x >>> k).setWidth 8 := by
  ext i hi
  simp [BitVec.getLsbD_append, Nat.add_right_comm]

theorem beBytes16_append (x y : Byte) : beBytes16 (x ++ y) = [x, y] := by
  simp only [beBytes16, low_append, high_append (k := 0)]
  simp

theorem beBytes32_append (x0 x1 x2 x3 : Byte) :
    beBytes32 (x0 ++ x1 ++ x2 ++ x3) = [x0, x1, x2, x3] := by
  simp only [beBytes32, low_append, high_append (k := 0), high_append (k := 8),
    high_append (k := 16)]
  simp [low_append]

theorem beBytes64_append (x0 x1 x2 x3 x4 x5 x6 x7 : Byte) :
    beBytes64 (x0 ++ x1 ++ x2 ++ x3 ++ x4 ++ x5 ++ x6 ++ x7) =
      [x0, x1, x2, x3, x4, x5, x6, x7] := by
  simp only [beBytes64, low_append, high_append (k := 0), high_append (k := 8),
    high_append (k := 16), high_append (k := 24), high_append (k := 32), high_append (k := 40),
    high_append (k := 48)]
  simp [low_append]

/-- The digits of a 16-bit number stand at an address exactly when a load finds it there. -/
theorem spells_beBytes16_iff {x : BitVec 16} : Spells m a (beBytes16 x) ↔ loadBE16 m a = x := by
  refine ⟨loadBE16_of_spells, ?_⟩
  rintro rfl
  rw [loadBE16, beBytes16_append]
  simp [spells_cons_iff]

/-- The digits of a 32-bit number stand at an address exactly when a load finds it there. -/
theorem spells_beBytes32_iff {x : BitVec 32} : Spells m a (beBytes32 x) ↔ loadBE32 m a = x := by
  refine ⟨loadBE32_of_spells, ?_⟩
  rintro rfl
  rw [loadBE32, beBytes32_append]
  simp [spells_cons_iff, add_assoc]

/-- The digits of a 64-bit number stand at an address exactly when a load finds it there. -/
theorem spells_beBytes64_iff {x : BitVec 64} : Spells m a (beBytes64 x) ↔ loadBE64 m a = x := by
  refine ⟨loadBE64_of_spells, ?_⟩
  rintro rfl
  rw [loadBE64, beBytes64_append]
  simp [spells_cons_iff, add_assoc]

/-! ## The representation of machine words -/

/-- The bytes of a 32-bit object on a little-endian machine. -/
def leBytes32 (x : BitVec 32) : List Byte :=
  (beBytes32 x).reverse

/-- The bytes of a 64-bit object on a little-endian machine. -/
def leBytes64 (x : BitVec 64) : List Byte :=
  (beBytes64 x).reverse

@[simp]
theorem length_leBytes32 (x : BitVec 32) : (leBytes32 x).length = 4 := rfl

@[simp]
theorem length_leBytes64 (x : BitVec 64) : (leBytes64 x).length = 8 := rfl

/-- A 32-bit number is the concatenation of its digits. -/
theorem exists_bytes32 (x : BitVec 32) : ∃ x0 x1 x2 x3 : Byte, x = x0 ++ x1 ++ x2 ++ x3 :=
  ⟨_, _, _, _, (loadBE32_of_spells (spells_spelling 0 (beBytes32 x))).symm⟩

/-- A 64-bit number is the concatenation of its digits. -/
theorem exists_bytes64 (x : BitVec 64) :
    ∃ x0 x1 x2 x3 x4 x5 x6 x7 : Byte, x = x0 ++ x1 ++ x2 ++ x3 ++ x4 ++ x5 ++ x6 ++ x7 :=
  ⟨_, _, _, _, _, _, _, _, (loadBE64_of_spells (spells_spelling 0 (beBytes64 x))).symm⟩

end Foundation
