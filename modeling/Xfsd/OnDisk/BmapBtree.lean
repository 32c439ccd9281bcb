import Xfsd.Types

/-!
# XFSD - Extent records

The extent record decoder of {lit}`xfsd_bmap_btree.c`.  A record packs a state
flag, a file offset, a start block and a block count into two 64-bit words; the
start block straddles the words and is truncated where {lit}`xfs_fsblock_t` has
32 bits.

Main results:

- Theorems {lit}`brStartoff_toNat`, {lit}`brStartblock_modEq` and
  {lit}`brBlockcount_toNat`: the decoded fields as digits of the two words.
- Theorem {lit}`brStartblock_lt`: a decoded start block has at most 52 bits.
-/

namespace Xfsd

open Foundation

/-- {lit}`xfs_exntst_t`, as far as a record can say. -/
inductive XfsExntst where
  | xfsExtNorm
  | xfsExtUnwritten
deriving DecidableEq, Repr

/-- {lit}`xfs_bmbt_rec_host_t`. -/
structure XfsBmbtRecHost where
  l0 : BitVec 64
  l1 : BitVec 64
deriving DecidableEq

/-- {lit}`xfs_bmbt_irec_t`.  {lit}`br_startblock` is widened to 64 bits in both builds. -/
structure XfsBmbtIrec where
  brStartoff : BitVec 64
  brStartblock : BitVec 64
  brBlockcount : BitVec 64
  brState : XfsExntst
deriving DecidableEq

/-- {lit}`sizeof( xfs_bmbt_rec_t)`. -/
def sizeofXfsBmbtRec : Int := 16

/-- {lit}`__xfs_bmbt_get_all`. -/
def xfsBmbtGetAll' (b : Build) (l0 l1 : BitVec 64) : XfsBmbtIrec where
  brStartoff := (l0 &&& xfsMask64lo 63) >>> 9
  brStartblock :=
    if b.xfsBigBlknos then
      ((l0 &&& xfsMask64lo 9) <<< 43) ||| (l1 >>> 21)
    else
      ((l1 >>> 21).setWidth 32).setWidth 64
  brBlockcount := l1 &&& xfsMask64lo 21
  brState := if l0 >>> 63 ≠ 0 then .xfsExtUnwritten else .xfsExtNorm

/-- {lit}`xfs_bmbt_get_all`. -/
def xfsBmbtGetAll (b : Build) (r : XfsBmbtRecHost) : XfsBmbtIrec :=
  xfsBmbtGetAll' b r.l0 r.l1

/-! ## The fields as digits -/

variable (b : Build) (r : XfsBmbtRecHost)

theorem brStartoff_toNat :
    (xfsBmbtGetAll b r).brStartoff.toNat = r.l0.toNat % 2 ^ 63 / 2 ^ 9 := by
  simp only [xfsBmbtGetAll, xfsBmbtGetAll', BitVec.toNat_ushiftRight, Nat.shiftRight_eq_div_pow]
  rw [toNat_and_xfsMask64lo _ (by omega)]

theorem brBlockcount_toNat :
    (xfsBmbtGetAll b r).brBlockcount.toNat = r.l1.toNat % 2 ^ 21 := by
  simp only [xfsBmbtGetAll, xfsBmbtGetAll']
  rw [toNat_and_xfsMask64lo _ (by omega)]

/-- The 52-bit start block of a record, whatever the build. -/
def XfsBmbtRecHost.startblock : Nat :=
  r.l0.toNat % 2 ^ 9 * 2 ^ 43 + r.l1.toNat / 2 ^ 21

theorem XfsBmbtRecHost.startblock_lt : r.startblock < 2 ^ 52 := by
  unfold startblock
  have h0 : r.l0.toNat % 2 ^ 9 < 2 ^ 9 := Nat.mod_lt _ (by omega)
  have h1 : r.l1.toNat < 2 ^ 64 := r.l1.isLt
  omega

/-- The 64-bit build decodes the whole start block. -/
theorem brStartblock_toNat_linux64 :
    (xfsBmbtGetAll .linux64 r).brStartblock.toNat = r.startblock := by
  have h0 : r.l0.toNat % 2 ^ 9 < 2 ^ 9 := Nat.mod_lt _ (by omega)
  have h1 : r.l1.toNat < 2 ^ 64 := r.l1.isLt
  have hlow : r.l1.toNat / 2 ^ 21 < 2 ^ 43 := by omega
  simp only [xfsBmbtGetAll, xfsBmbtGetAll', Build.xfsBigBlknos, if_true, BitVec.toNat_or,
    BitVec.toNat_shiftLeft, BitVec.toNat_ushiftRight, Nat.shiftRight_eq_div_pow,
    Nat.shiftLeft_eq]
  rw [toNat_and_xfsMask64lo _ (by omega)]
  rw [Nat.mod_eq_of_lt (by omega), Nat.mul_comm]
  rw [← Nat.two_pow_add_eq_or_of_lt hlow]
  unfold XfsBmbtRecHost.startblock
  omega

/-- The 32-bit build keeps the low 32 bits of the start block. -/
theorem brStartblock_toNat_win32 :
    (xfsBmbtGetAll .win32 r).brStartblock.toNat = r.startblock % 2 ^ 32 := by
  simp only [xfsBmbtGetAll, xfsBmbtGetAll', Build.xfsBigBlknos, Bool.false_eq_true, if_false,
    BitVec.toNat_setWidth, BitVec.toNat_ushiftRight, Nat.shiftRight_eq_div_pow]
  unfold XfsBmbtRecHost.startblock
  omega

/-- Either build decodes the start block up to the width of {lit}`long`. -/
theorem brStartblock_modEq :
    (xfsBmbtGetAll b r).brStartblock.toNat ≡ r.startblock [MOD 2 ^ b.bitsPerLong] := by
  cases b with
  | win32 =>
      rw [brStartblock_toNat_win32]
      exact Nat.mod_modEq _ _
  | linux64 => rw [brStartblock_toNat_linux64]

theorem brStartblock_lt : (xfsBmbtGetAll b r).brStartblock.toNat < 2 ^ 52 := by
  cases b with
  | win32 =>
      rw [brStartblock_toNat_win32]
      omega
  | linux64 =>
      rw [brStartblock_toNat_linux64]
      exact r.startblock_lt

theorem brBlockcount_lt : (xfsBmbtGetAll b r).brBlockcount.toNat < 2 ^ 21 := by
  rw [brBlockcount_toNat]
  exact Nat.mod_lt _ (by omega)

theorem brStartoff_lt : (xfsBmbtGetAll b r).brStartoff.toNat < 2 ^ 54 := by
  rw [brStartoff_toNat]
  omega

end Xfsd
