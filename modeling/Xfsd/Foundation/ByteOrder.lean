import Xfsd.Foundation.Memory
import Mathlib.Data.BitVec
import Mathlib.Tactic.IntervalCases

/-!
# Foundation - Words in byte memory

Loads of 16-, 32- and 64-bit words from a byte memory, in the byte order of a
little-endian machine and in network byte order.  Each load is the
concatenation of its bytes, so the two orders are mirror images.

Main results:

- Theorems {lit}`loadBE16_congr`, {lit}`loadBE32_congr`, {lit}`loadBE64_congr`:
  a load depends only on its own bytes.
-/

namespace Foundation

/-- A byte of memory. -/
abbrev Byte := BitVec 8

instance : Nontrivial Byte :=
  ⟨⟨0, 1, by decide⟩⟩

variable (m : Memory Byte) (a : Int)

/-! ## Loads -/

/-- A 16-bit load on a little-endian machine. -/
def loadLE16 : BitVec 16 :=
  m (a + 1) ++ m a

/-- A 32-bit load on a little-endian machine. -/
def loadLE32 : BitVec 32 :=
  m (a + 3) ++ m (a + 2) ++ m (a + 1) ++ m a

/-- A 64-bit load on a little-endian machine. -/
def loadLE64 : BitVec 64 :=
  m (a + 7) ++ m (a + 6) ++ m (a + 5) ++ m (a + 4) ++
    m (a + 3) ++ m (a + 2) ++ m (a + 1) ++ m a

/-- The 16-bit number stored most significant byte first. -/
def loadBE16 : BitVec 16 :=
  m a ++ m (a + 1)

/-- The 32-bit number stored most significant byte first. -/
def loadBE32 : BitVec 32 :=
  m a ++ m (a + 1) ++ m (a + 2) ++ m (a + 3)

/-- The 64-bit number stored most significant byte first. -/
def loadBE64 : BitVec 64 :=
  m a ++ m (a + 1) ++ m (a + 2) ++ m (a + 3) ++
    m (a + 4) ++ m (a + 5) ++ m (a + 6) ++ m (a + 7)

/-! ## Locality -/

variable {m a} {m' : Memory Byte} {a' : Int}

theorem loadBE16_congr (h : ∀ i : Nat, i < 2 → m (a + i) = m' (a' + i)) :
    loadBE16 m a = loadBE16 m' a' := by
  have h0 := h 0 (by omega)
  have h1 := h 1 (by omega)
  simp only [Nat.cast_zero, add_zero, Nat.cast_one] at h0 h1
  simp only [loadBE16, h0, h1]

theorem loadBE32_congr (h : ∀ i : Nat, i < 4 → m (a + i) = m' (a' + i)) :
    loadBE32 m a = loadBE32 m' a' := by
  have h0 := h 0 (by omega)
  have h1 := h 1 (by omega)
  have h2 := h 2 (by omega)
  have h3 := h 3 (by omega)
  simp only [Nat.cast_zero, add_zero, Nat.cast_one, Nat.cast_ofNat] at h0 h1 h2 h3
  simp only [loadBE32, h0, h1, h2, h3]

theorem loadBE64_congr (h : ∀ i : Nat, i < 8 → m (a + i) = m' (a' + i)) :
    loadBE64 m a = loadBE64 m' a' := by
  have h0 := h 0 (by omega)
  have h1 := h 1 (by omega)
  have h2 := h 2 (by omega)
  have h3 := h 3 (by omega)
  have h4 := h 4 (by omega)
  have h5 := h 5 (by omega)
  have h6 := h 6 (by omega)
  have h7 := h 7 (by omega)
  simp only [Nat.cast_zero, add_zero, Nat.cast_one, Nat.cast_ofNat]
    at h0 h1 h2 h3 h4 h5 h6 h7
  simp only [loadBE64, h0, h1, h2, h3, h4, h5, h6, h7]

end Foundation
