import Xfsd.Foundation.ByteOrder
import Xfsd.Foundation.Word
import Mathlib.Tactic.Linarith

/-!
# XFSD - Machine types, byte swaps and masks

The part of {lit}`xfsd_types.h`, {lit}`xfsd_asm.h` and {lit}`xfs_bit.h` that the
reader uses.  The sources compile in two variants, a 32-bit Windows build and a
64-bit build; they differ in the width of {lit}`long`, of {lit}`size_t`, and of
{lit}`xfs_fsblock_t`.  C's fixed-width integers are bit vectors of their width.

Main results:

- Theorems {lit}`be16ToCpu_loadLE16`, {lit}`be32ToCpu_loadLE32` and
  {lit}`be64ToCpu_loadLE64`: swapping a little-endian load gives the number
  stored in network order.
- Theorem {lit}`Build.toLong_eq_bmod`: what a 64-bit offset becomes as a {lit}`long`.
-/

namespace Xfsd

open Foundation

/-- The two variants the preprocessor selects with {lit}`WIN32`. -/
inductive Build where
  | win32
  | linux64
deriving DecidableEq, Repr

namespace Build

/-- {lit}`BITS_PER_LONG`. -/
def bitsPerLong : Build → Nat
  | win32 => 32
  | linux64 => 64

/-- {lit}`XFS_BIG_BLKNOS`. -/
def xfsBigBlknos : Build → Bool
  | win32 => false
  | linux64 => true

/-- Conversion of a signed 64-bit value to {lit}`long`. -/
def toLong : Build → BitVec 64 → Int
  | win32, x => (x.setWidth 32).toInt
  | linux64, x => x.toInt

/-- Conversion of an {lit}`int` to {lit}`size_t`. -/
def toSizeT : Build → BitVec 32 → Nat
  | win32, x => x.toNat
  | linux64, x => (x.signExtend 64).toNat

/-- Conversion of a 64-bit byte count to the width of a pointer. -/
def toPtrdiff : Build → BitVec 64 → Int
  | win32, x => (x.setWidth 32).toNat
  | linux64, x => x.toNat

/-- Nonnegative {lit}`int` values convert to {lit}`size_t` unchanged. -/
theorem toSizeT_of_lt (b : Build) {x : BitVec 32} (h : x.toNat < 2 ^ 31) :
    b.toSizeT x = x.toNat := by
  cases b with
  | win32 => rfl
  | linux64 =>
      have hmsb : x.msb = false := by
        rw [BitVec.msb_eq_decide]
        simp
        omega
      simp only [toSizeT, BitVec.signExtend_eq_setWidth_of_msb_false hmsb,
        BitVec.toNat_setWidth]
      omega

theorem bitsPerLong_pos (b : Build) : 0 < b.bitsPerLong := by
  cases b <;> decide

/-- Conversion to {lit}`long` is the balanced remainder. -/
theorem toLong_eq_bmod (b : Build) (x : BitVec 64) :
    b.toLong x = Int.bmod x.toNat (2 ^ b.bitsPerLong) := by
  cases b with
  | win32 =>
      simp only [toLong, bitsPerLong, BitVec.toInt_eq_toNat_bmod, BitVec.toNat_setWidth]
      rw [Int.natCast_emod]
      exact Int.emod_bmod _ _
  | linux64 =>
      simp only [toLong, bitsPerLong, BitVec.toInt_eq_toNat_bmod]

end Build

/-! ## Byte swaps -/

/-- {lit}`REVERSE_BITS16`. -/
def reverseBits16 (x : BitVec 16) : BitVec 16 :=
  ((x &&& 0x00ff#16) <<< 8) ||| ((x &&& 0xff00#16) >>> 8)

/-- {lit}`REVERSE_BITS32`. -/
def reverseBits32 (x : BitVec 32) : BitVec 32 :=
  ((x &&& 0x000000ff#32) <<< 24) |||
  ((x &&& 0x0000ff00#32) <<< 8) |||
  ((x &&& 0x00ff0000#32) >>> 8) |||
  ((x &&& 0xff000000#32) >>> 24)

/-- {lit}`REVERSE_BITS64`. -/
def reverseBits64 (x : BitVec 64) : BitVec 64 :=
  ((x &&& 0x00000000000000ff#64) <<< 56) |||
  ((x &&& 0x000000000000ff00#64) <<< 40) |||
  ((x &&& 0x0000000000ff0000#64) <<< 24) |||
  ((x &&& 0x00000000ff000000#64) <<< 8) |||
  ((x &&& 0x000000ff00000000#64) >>> 8) |||
  ((x &&& 0x0000ff0000000000#64) >>> 24) |||
  ((x &&& 0x00ff000000000000#64) >>> 40) |||
  ((x &&& 0xff00000000000000#64) >>> 56)

/-- {lit}`be16_to_cpu`. -/
def be16ToCpu (x : BitVec 16) : BitVec 16 :=
  reverseBits16 x

/-- {lit}`be32_to_cpu`. -/
def be32ToCpu (x : BitVec 32) : BitVec 32 :=
  reverseBits32 x

/-- {lit}`be64_to_cpu`. -/
def be64ToCpu (x : BitVec 64) : BitVec 64 :=
  reverseBits64 x

/-- Swapping reverses the order of the two bytes. -/
theorem reverseBits16_append (b0 b1 : Byte) :
    reverseBits16 (b1 ++ b0) = b0 ++ b1 := by
  apply BitVec.eq_of_getLsbD_eq
  intro i hi
  simp only [reverseBits16, BitVec.getLsbD_or, BitVec.getLsbD_shiftLeft,
    BitVec.getLsbD_ushiftRight, BitVec.getLsbD_and, BitVec.getLsbD_append]
  interval_cases i <;> simp

/-- Swapping reverses the order of the four bytes. -/
theorem reverseBits32_append (b0 b1 b2 b3 : Byte) :
    reverseBits32 (b3 ++ b2 ++ b1 ++ b0) = b0 ++ b1 ++ b2 ++ b3 := by
  apply BitVec.eq_of_getLsbD_eq
  intro i hi
  simp only [reverseBits32, BitVec.getLsbD_or, BitVec.getLsbD_shiftLeft,
    BitVec.getLsbD_ushiftRight, BitVec.getLsbD_and, BitVec.getLsbD_append]
  interval_cases i <;> simp

/-- Swapping reverses the order of the eight bytes. -/
theorem reverseBits64_append (b0 b1 b2 b3 b4 b5 b6 b7 : Byte) :
    reverseBits64 (b7 ++ b6 ++ b5 ++ b4 ++ b3 ++ b2 ++ b1 ++ b0) =
      b0 ++ b1 ++ b2 ++ b3 ++ b4 ++ b5 ++ b6 ++ b7 := by
  apply BitVec.eq_of_getLsbD_eq
  intro i hi
  simp only [reverseBits64, BitVec.getLsbD_or, BitVec.getLsbD_shiftLeft,
    BitVec.getLsbD_ushiftRight, BitVec.getLsbD_and, BitVec.getLsbD_append]
  interval_cases i <;> simp

@[simp]
theorem be16ToCpu_loadLE16 (m : Memory Byte) (a : Int) :
    be16ToCpu (loadLE16 m a) = loadBE16 m a :=
  reverseBits16_append _ _

@[simp]
theorem be32ToCpu_loadLE32 (m : Memory Byte) (a : Int) :
    be32ToCpu (loadLE32 m a) = loadBE32 m a :=
  reverseBits32_append _ _ _ _

@[simp]
theorem be64ToCpu_loadLE64 (m : Memory Byte) (a : Int) :
    be64ToCpu (loadLE64 m a) = loadBE64 m a :=
  reverseBits64_append _ _ _ _ _ _ _ _

/-- {lit}`get_unaligned_be32` copies four bytes into a local and swaps it. -/
def getUnalignedBe32 (m : Memory Byte) (p : Int) : BitVec 32 :=
  be32ToCpu (loadLE32 m p)

/-- {lit}`get_unaligned_be64` copies eight bytes into a local and swaps it. -/
def getUnalignedBe64 (m : Memory Byte) (p : Int) : BitVec 64 :=
  be64ToCpu (loadLE64 m p)

/-! ## Masks -/

/-- {lit}`xfs_mask64lo`: the {lit}`n` low bits set. -/
def xfsMask64lo (n : Nat) : BitVec 64 :=
  (1#64 <<< n) - 1#64

/-- Masking with {lit}`xfs_mask64lo` is the remainder modulo the power of two. -/
theorem toNat_and_xfsMask64lo (x : BitVec 64) {n : Nat} (hn : n < 64) :
    (x &&& xfsMask64lo n).toNat = x.toNat % 2 ^ n := by
  have hpow : 2 ^ n < 2 ^ 64 := Nat.pow_lt_pow_right (by omega) hn
  have hpos : 0 < 2 ^ n := Nat.two_pow_pos n
  have hshift : (1#64 <<< n).toNat = 2 ^ n := by
    rw [BitVec.toNat_shiftLeft, BitVec.toNat_ofNat, Nat.shiftLeft_eq]
    rw [Nat.mod_eq_of_lt (by omega : 1 < 2 ^ 64), one_mul, Nat.mod_eq_of_lt hpow]
  have hmask : (xfsMask64lo n).toNat = 2 ^ n - 1 := by
    unfold xfsMask64lo
    rw [BitVec.toNat_sub, hshift]
    simp only [BitVec.toNat_ofNat]
    omega
  rw [BitVec.toNat_and, hmask, Nat.and_two_pow_sub_one_eq_mod]

end Xfsd
