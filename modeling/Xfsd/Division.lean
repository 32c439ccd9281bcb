import Xfsd.Types
import Mathlib.Algebra.Order.Floor.Div
import Mathlib.Order.Bounds.Basic

/-!
# XFSD - Division of 64-bit numbers

The division helpers of {lit}`xfsd_asm.h`.  The first macro {lit}`do_div` has a body
for each build and is captured in {lit}`xfs_do_div` and {lit}`xfs_do_mod` before it is
redefined on top of them; the rounding helpers rely on its side effect, which the
32-bit Windows build does not have.

A helper that takes a pointer to an object of {lit}`n` bytes returns its result and
what it leaves in the object.

Main results:

- Theorem {lit}`doDiv_linux64`: the 64-bit build divides in place.
- Theorem {lit}`divisionExact_iff`: all helpers are exact in the 64-bit build, and in the
  Windows build only for the divisor 1.
-/

namespace Xfsd

open Foundation

/-! ## The helpers -/

/-- The first {lit}`do_div( n, base)` of a build: its value, and what it leaves in
{lit}`n`. -/
def doDivMacro : Build → BitVec 64 → BitVec 64 → BitVec 64 × BitVec 64
  | .win32, n, base => (n % base, n)
  | .linux64, n, base => (n % base, n / base)

/-- {lit}`xfs_do_div` on an object of {lit}`n` bytes. -/
def xfsDoDiv (bld : Build) : (n : Nat) → BitVec (8 * n) → BitVec 32 → BitVec 32 × BitVec (8 * n)
  | 4, a, b => (a % b, a / b)
  | 8, a, b =>
      let (mod, a) := doDivMacro bld a (b.setWidth 64)
      (mod.setWidth 32, a)
  | _, a, _ => (0, a)

/-- {lit}`xfs_do_mod` on an object of {lit}`n` bytes: the division is done on a copy. -/
def xfsDoMod (bld : Build) : (n : Nat) → BitVec (8 * n) → BitVec 32 → BitVec 32 × BitVec (8 * n)
  | 4, a, b => (a % b, a)
  | 8, a, b =>
      let (mod, _) := doDivMacro bld a (b.setWidth 64)
      (mod.setWidth 32, a)
  | _, a, _ => (0, a)

variable (bld : Build)

/-- {lit}`do_div( a, b)` as redefined, on a 64-bit object. -/
def doDiv (a : BitVec 64) (b : BitVec 32) : BitVec 32 × BitVec 64 :=
  xfsDoDiv bld 8 a b

/-- {lit}`do_mod( a, b)` on a 64-bit object. -/
def doMod (a : BitVec 64) (b : BitVec 32) : BitVec 32 × BitVec 64 :=
  xfsDoMod bld 8 a b

/-- {lit}`roundup_64`. -/
def roundup64 (x : BitVec 64) (y : BitVec 32) : BitVec 64 :=
  let x := x + (y - 1).setWidth 64
  let (_, x) := doDiv bld x y
  x * y.setWidth 64

/-- {lit}`howmany_64`. -/
def howmany64 (x : BitVec 64) (y : BitVec 32) : BitVec 64 :=
  let x := x + (y - 1).setWidth 64
  let (_, x) := doDiv bld x y
  x

/-! ## What the helpers compute -/

variable {x : BitVec 64} {y : BitVec 32}

/-- The remainder by a 32-bit divisor, in either build. -/
theorem toNat_rem (hy : 1 ≤ y.toNat) :
    ((x % y.setWidth 64).setWidth 32).toNat = x.toNat % y.toNat := by
  have hlt : x.toNat % y.toNat < y.toNat := Nat.mod_lt _ (by omega)
  simp only [BitVec.toNat_setWidth, BitVec.toNat_umod]
  rw [Nat.mod_eq_of_lt (by omega : y.toNat < 2 ^ 64), Nat.mod_eq_of_lt (by omega)]

theorem doDiv_fst (hy : 1 ≤ y.toNat) : (doDiv bld x y).1.toNat = x.toNat % y.toNat := by
  cases bld <;> exact toNat_rem hy

theorem doMod_fst (hy : 1 ≤ y.toNat) : (doMod bld x y).1.toNat = x.toNat % y.toNat := by
  cases bld <;> exact toNat_rem hy

@[simp]
theorem doMod_snd (x : BitVec 64) (y : BitVec 32) : (doMod bld x y).2 = x := rfl

/-- The Windows build leaves the dividend as it is. -/
@[simp]
theorem doDiv_win32 (x : BitVec 64) (y : BitVec 32) : (doDiv .win32 x y).2 = x := rfl

/-- The 64-bit build divides in place. -/
theorem doDiv_linux64 (x : BitVec 64) (y : BitVec 32) :
    (doDiv .linux64 x y).2.toNat = x.toNat / y.toNat := by
  have hdiv : (doDiv .linux64 x y).2 = x / y.setWidth 64 := rfl
  rw [hdiv, BitVec.toNat_udiv, BitVec.toNat_setWidth,
    Nat.mod_eq_of_lt (by omega : y.toNat < 2 ^ 64)]

/-- The dividend of the rounding helpers. -/
theorem toNat_add_pred (hy : 1 ≤ y.toNat) (hle : x.toNat + y.toNat - 1 < 2 ^ 64) :
    (x + (y - 1).setWidth 64).toNat = x.toNat + y.toNat - 1 := by
  have hpred : (y - 1).toNat = y.toNat - 1 := BitVec.toNat_sub_of_le (BitVec.le_def.mpr hy)
  rw [BitVec.toNat_add, BitVec.toNat_setWidth, hpred,
    Nat.mod_eq_of_lt (by omega : y.toNat - 1 < 2 ^ 64)]
  have hassoc : x.toNat + (y.toNat - 1) = x.toNat + y.toNat - 1 := by omega
  rw [hassoc, Nat.mod_eq_of_lt hle]

/-- Where the division is exact on the dividend of the rounding helpers, they are exact. -/
theorem howmany64_toNat (hy : 1 ≤ y.toNat) (hle : x.toNat + y.toNat - 1 < 2 ^ 64)
    (hdiv : ∀ z, (doDiv bld z y).2.toNat = z.toNat / y.toNat) :
    (howmany64 bld x y).toNat = x.toNat ⌈/⌉ y.toNat := by
  have hquot := hdiv (x + (y - 1).setWidth 64)
  rw [toNat_add_pred hy hle] at hquot
  exact hquot

/-- The least multiple of a positive number that is not below another one. -/
theorem isLeast_ceilDiv_mul {n d : Nat} (hd : 0 < d) :
    IsLeast {k | d ∣ k ∧ n ≤ k} (n ⌈/⌉ d * d) := by
  refine ⟨⟨Nat.dvd_mul_left _ _, ?_⟩, ?_⟩
  · rw [Nat.mul_comm]
    exact (ceilDiv_le_iff_le_mul hd).mp le_rfl
  · rintro k ⟨⟨q, rfl⟩, hle⟩
    rw [Nat.mul_comm]
    exact Nat.mul_le_mul_left d ((ceilDiv_le_iff_le_mul hd).mpr hle)

theorem roundup64_isLeast (hy : 1 ≤ y.toNat) (hle : x.toNat + y.toNat - 1 < 2 ^ 64)
    (hdiv : ∀ z, (doDiv bld z y).2.toNat = z.toNat / y.toNat) :
    IsLeast {k | y.toNat ∣ k ∧ x.toNat ≤ k} (roundup64 bld x y).toNat := by
  have hceil : (x.toNat ⌈/⌉ y.toNat) * y.toNat ≤ x.toNat + y.toNat - 1 := by
    rw [Nat.ceilDiv_eq_add_pred_div]
    exact Nat.div_mul_le_self _ _
  have hprod : (roundup64 bld x y).toNat = x.toNat ⌈/⌉ y.toNat * y.toNat := by
    have hmul : roundup64 bld x y = howmany64 bld x y * y.setWidth 64 := rfl
    rw [hmul, BitVec.toNat_mul, howmany64_toNat bld hy hle hdiv, BitVec.toNat_setWidth,
      Nat.mod_eq_of_lt (by omega : y.toNat < 2 ^ 64), Nat.mod_eq_of_lt (by omega)]
  rw [hprod]
  exact isLeast_ceilDiv_mul (by omega)

/-! ## Exactness -/

/-- Every helper is exact on a dividend and a divisor. -/
structure DivisionExact (x : BitVec 64) (y : BitVec 32) : Prop where
  div_quot : (doDiv bld x y).2.toNat = x.toNat / y.toNat
  div_rem : (doDiv bld x y).1.toNat = x.toNat % y.toNat
  mod_rem : (doMod bld x y).1.toNat = x.toNat % y.toNat
  mod_kept : (doMod bld x y).2 = x
  howmany : x.toNat + y.toNat - 1 < 2 ^ 64 → (howmany64 bld x y).toNat = x.toNat ⌈/⌉ y.toNat
  roundup : x.toNat + y.toNat - 1 < 2 ^ 64 →
    IsLeast {k | y.toNat ∣ k ∧ x.toNat ≤ k} (roundup64 bld x y).toNat

/-- All helpers are exact in the 64-bit build, and in the Windows build only for the
divisor 1. -/
theorem divisionExact_iff (x : BitVec 64) (y : BitVec 32) (hy : 1 ≤ y.toNat) :
    DivisionExact bld x y ↔ bld = .linux64 ∨ y = 1 := by
  constructor
  · intro h
    cases bld with
    | linux64 => exact Or.inl rfl
    | win32 =>
        right
        by_contra hne
        have hlarge : 2 ≤ y.toNat := by
          by_contra hsmall
          have hone : y.toNat = (1 : BitVec 32).toNat := by
            have htoNat : (1 : BitVec 32).toNat = 1 := rfl
            omega
          exact hne (BitVec.eq_of_toNat_eq hone)
        -- only the dividend 0 is its own quotient, and howmany_64 fails on it
        have hzero : x.toNat = 0 := by
          have hquot := h.div_quot
          rw [doDiv_win32] at hquot
          by_contra hpos
          have hlt := Nat.div_lt_self (Nat.pos_of_ne_zero hpos) hlarge
          omega
        have hle : x.toNat + y.toNat - 1 < 2 ^ 64 := by omega
        have hmany := h.howmany hle
        have hkept : howmany64 .win32 x y = x + (y - 1).setWidth 64 := rfl
        rw [hkept, toNat_add_pred hy hle, hzero, zero_ceilDiv] at hmany
        omega
  · intro h
    have hdiv : ∀ z : BitVec 64, (doDiv bld z y).2.toNat = z.toNat / y.toNat := by
      intro z
      cases bld with
      | linux64 => exact doDiv_linux64 z y
      | win32 =>
          have hone : y = 1 := h.resolve_left (by decide)
          have htoNat : (1 : BitVec 32).toNat = 1 := rfl
          rw [doDiv_win32, hone, htoNat, Nat.div_one]
    exact ⟨hdiv x, doDiv_fst bld hy, doMod_fst bld hy, doMod_snd bld x y,
      fun hle => howmany64_toNat bld hy hle hdiv, fun hle => roundup64_isLeast bld hy hle hdiv⟩

/-- The 64-bit build divides 10 by 4. -/
theorem divisionExact_linux64 : DivisionExact .linux64 10 4 :=
  (divisionExact_iff .linux64 10 4 (by decide)).mpr (Or.inl rfl)

/-- The Windows build does not divide 10 by 4. -/
theorem not_divisionExact_win32 :
    ¬DivisionExact .win32 10 4 ∧ howmany64 .win32 10 4 = 13 ∧ roundup64 .win32 10 4 = 52 := by
  refine ⟨fun h => ?_, by decide, by decide⟩
  exact absurd h.div_quot (by decide)

end Xfsd
