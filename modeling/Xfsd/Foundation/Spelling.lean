import Xfsd.Foundation.ByteOrder
import Xfsd.Foundation.Stdio

/-!
# Foundation - Byte strings in memory

A memory spells a byte string at an address when the bytes of the string stand
there one after another.  Formats are described by the strings that their values
are written as, and a reader is understood by what it finds in a memory that
spells such a string.

Main results:

- Theorem {lit}`spells_append_iff`: concatenated strings stand one after the other.
- Theorems {lit}`loadBE16_of_spells`, {lit}`loadBE32_of_spells` and
  {lit}`loadBE64_of_spells`: a big-endian load finds the number that was written.
-/

namespace Foundation

/-- The bytes of a string stand in memory from an address on. -/
def Spells (m : Memory Byte) (a : Int) (bytes : List Byte) : Prop :=
  ∀ (i : Nat) (h : i < bytes.length), m (a + i) = bytes[i]

instance (m : Memory Byte) (a : Int) (bytes : List Byte) : Decidable (Spells m a bytes) :=
  inferInstanceAs (Decidable (∀ (i : Nat) (h : i < bytes.length), m (a + i) = bytes[i]))

variable {m m' : Memory Byte} {a a' : Int} {xs ys : List Byte}

@[simp]
theorem spells_nil (m : Memory Byte) (a : Int) : Spells m a [] := by
  intro i h
  simp at h

/-- Concatenated strings stand one after the other. -/
theorem spells_append_iff :
    Spells m a (xs ++ ys) ↔ Spells m a xs ∧ Spells m (a + xs.length) ys := by
  constructor
  · intro h
    refine ⟨?_, ?_⟩
    · intro i hi
      have hi' : i < (xs ++ ys).length := by
        simp only [List.length_append]
        omega
      rw [h i hi', List.getElem_append_left hi]
    · intro i hi
      have hi' : xs.length + i < (xs ++ ys).length := by
        simp only [List.length_append]
        omega
      have hat := h (xs.length + i) hi'
      rw [List.getElem_append_right (by omega)] at hat
      simpa [add_assoc] using hat
  · intro h i hi
    rcases h with ⟨hxs, hys⟩
    by_cases hlt : i < xs.length
    · rw [hxs i hlt, List.getElem_append_left hlt]
    · have hi' : i - xs.length < ys.length := by
        simp only [List.length_append] at hi
        omega
      rw [List.getElem_append_right (by omega), ← hys (i - xs.length) hi']
      congr 1
      omega

theorem spells_cons_iff {x : Byte} :
    Spells m a (x :: xs) ↔ m a = x ∧ Spells m (a + 1) xs := by
  have happend : Spells m a ([x] ++ xs) ↔ Spells m a [x] ∧ Spells m (a + [x].length) xs :=
    spells_append_iff
  rw [List.singleton_append, List.length_singleton, Nat.cast_one] at happend
  rw [happend]
  refine and_congr_left fun _ => ⟨fun h => ?_, fun h i hi => ?_⟩
  · simpa using h 0 (by simp)
  · simp only [List.length_singleton, Nat.lt_one_iff] at hi
    subst hi
    simpa using h

/-- A string that one memory spells is spelled by a memory with the same bytes. -/
theorem Spells.congr (h : Spells m a xs)
    (hagree : ∀ i : Nat, i < xs.length → m' (a' + i) = m (a + i)) : Spells m' a' xs := by
  intro i hi
  rw [hagree i hi, h i hi]

/-- The memory that holds a byte string at an address and zeros elsewhere. -/
def spelling (a : Int) (bytes : List Byte) : Memory Byte :=
  fun x => if a ≤ x then bytes.getD (x - a).toNat 0 else 0

theorem spells_spelling (a : Int) (bytes : List Byte) : Spells (spelling a bytes) a bytes := by
  intro i hi
  simp [spelling, hi]

/-! ## Numbers as byte strings -/

/-- A 16-bit number, most significant byte first. -/
def beBytes16 (x : BitVec 16) : List Byte :=
  [(x >>> 8).setWidth 8, x.setWidth 8]

/-- A 32-bit number, most significant byte first. -/
def beBytes32 (x : BitVec 32) : List Byte :=
  [(x >>> 24).setWidth 8, (x >>> 16).setWidth 8, (x >>> 8).setWidth 8, x.setWidth 8]

/-- A 64-bit number, most significant byte first. -/
def beBytes64 (x : BitVec 64) : List Byte :=
  [(x >>> 56).setWidth 8, (x >>> 48).setWidth 8, (x >>> 40).setWidth 8, (x >>> 32).setWidth 8,
    (x >>> 24).setWidth 8, (x >>> 16).setWidth 8, (x >>> 8).setWidth 8, x.setWidth 8]

@[simp]
theorem length_beBytes16 (x : BitVec 16) : (beBytes16 x).length = 2 := rfl

@[simp]
theorem length_beBytes32 (x : BitVec 32) : (beBytes32 x).length = 4 := rfl

@[simp]
theorem length_beBytes64 (x : BitVec 64) : (beBytes64 x).length = 8 := rfl

theorem loadBE16_of_spells {x : BitVec 16} (h : Spells m a (beBytes16 x)) :
    loadBE16 m a = x := by
  simp only [beBytes16, spells_cons_iff] at h
  rcases h with ⟨h0, h1, -⟩
  rw [loadBE16, h0, h1]
  apply BitVec.eq_of_getLsbD_eq
  intro i hi
  simp only [BitVec.getLsbD_append, BitVec.getLsbD_setWidth, BitVec.getLsbD_ushiftRight]
  interval_cases i <;> simp

theorem loadBE32_of_spells {x : BitVec 32} (h : Spells m a (beBytes32 x)) :
    loadBE32 m a = x := by
  simp only [beBytes32, spells_cons_iff, add_assoc] at h
  rcases h with ⟨h0, h1, h2, h3, -⟩
  norm_num at h2 h3
  rw [loadBE32, h0, h1, h2, h3]
  apply BitVec.eq_of_getLsbD_eq
  intro i hi
  simp only [BitVec.getLsbD_append, BitVec.getLsbD_setWidth, BitVec.getLsbD_ushiftRight]
  interval_cases i <;> simp

theorem loadBE64_of_spells {x : BitVec 64} (h : Spells m a (beBytes64 x)) :
    loadBE64 m a = x := by
  simp only [beBytes64, spells_cons_iff, add_assoc] at h
  rcases h with ⟨h0, h1, h2, h3, h4, h5, h6, h7, -⟩
  norm_num at h2 h3 h4 h5 h6 h7
  rw [loadBE64, h0, h1, h2, h3, h4, h5, h6, h7]
  apply BitVec.eq_of_getLsbD_eq
  intro i hi
  simp only [BitVec.getLsbD_append, BitVec.getLsbD_setWidth, BitVec.getLsbD_ushiftRight]
  interval_cases i <;> simp

end Foundation
