import Xfsd.OnDisk.BmapBtree
import Xfsd.Unaligned

/-!
# XFSD - Packing extent records

The writers of extent records in {lit}`xfsd_bmap_btree.c` and the getters of their
single fields.  A record in memory is a pair of words, a record on disk is two
big-endian words at an address.

Main results:

- Theorem {lit}`bmbtWords_toNat`: the words of an extent as sums of its fields.
- Theorems {lit}`xfsBmbtGetAll_setAll` and {lit}`xfsBmbtSetAll_getAll`: packing and
  unpacking are inverse.
- Theorem {lit}`hostRec_diskSetAllf`: a record that was written to disk is read back.
-/

namespace Xfsd

open Foundation

attribute [ext] XfsBmbtIrec XfsBmbtRecHost

/-! ## Writers -/

/-- {lit}`cpu_to_be64`. -/
def cpuToBe64 (x : BitVec 64) : BitVec 64 :=
  reverseBits64 x

/-- {lit}`xfs_mask64hi`: the {lit}`n` high bits set. -/
def xfsMask64hi (n : Nat) : BitVec 64 :=
  BitVec.allOnes 64 <<< (64 - n)

/-- {lit}`isnullstartblock`, where {lit}`xfs_fsblock_t` has 32 bits. -/
def isnullstartblock (x : BitVec 32) : Bool :=
  x &&& (((1#32 <<< 15) - 1#32) <<< 17) == ((1#32 <<< 15) - 1#32) <<< 17

/-- {lit}`extent_flag`. -/
def extentFlag : XfsExntst → BitVec 64
  | .xfsExtNorm => 0
  | .xfsExtUnwritten => 1

/-- The two words that {lit}`xfs_bmbt_set_allf` and {lit}`xfs_bmbt_disk_set_allf` make of
their arguments.  Where {lit}`xfs_fsblock_t` has 32 bits, the marks of a delayed
allocation spread over the bits that a record has and the type has not. -/
def bmbtWords (b : Build) (startoff startblock blockcount : BitVec 64) (state : XfsExntst) :
    XfsBmbtRecHost :=
  if b.xfsBigBlknos then
    { l0 := (extentFlag state <<< 63) ||| (startoff <<< 9) ||| (startblock >>> 43)
      l1 := (startblock <<< 21) ||| (blockcount &&& xfsMask64lo 21) }
  else
    let startblock32 := startblock.setWidth 32
    if isnullstartblock startblock32 then
      { l0 := (extentFlag state <<< 63) ||| (startoff <<< 9) ||| xfsMask64lo 9
        l1 := xfsMask64hi 11 ||| (startblock32.setWidth 64 <<< 21) |||
          (blockcount &&& xfsMask64lo 21) }
    else
      { l0 := (extentFlag state <<< 63) ||| (startoff <<< 9)
        l1 := (startblock32.setWidth 64 <<< 21) ||| (blockcount &&& xfsMask64lo 21) }

/-- {lit}`xfs_bmbt_set_allf`: the old record is overwritten. -/
def xfsBmbtSetAllf (b : Build) (_r : XfsBmbtRecHost) (startoff startblock blockcount : BitVec 64)
    (state : XfsExntst) : XfsBmbtRecHost :=
  bmbtWords b startoff startblock blockcount state

/-- {lit}`xfs_bmbt_set_all`. -/
def xfsBmbtSetAll (b : Build) (r : XfsBmbtRecHost) (s : XfsBmbtIrec) : XfsBmbtRecHost :=
  xfsBmbtSetAllf b r s.brStartoff s.brStartblock s.brBlockcount s.brState

/-- {lit}`xfs_bmbt_disk_set_allf` on the record at an address. -/
def xfsBmbtDiskSetAllf (b : Build) (m : Memory Byte) (r : Int)
    (startoff startblock blockcount : BitVec 64) (state : XfsExntst) : Memory Byte :=
  let words := bmbtWords b startoff startblock blockcount state
  (m.write r (leBytes64 (cpuToBe64 words.l0))).write (r + 8) (leBytes64 (cpuToBe64 words.l1))

/-! ## Getters -/

/-- The words of the record at an address, swapped. -/
def hostRec (m : Memory Byte) (r : Int) : XfsBmbtRecHost where
  l0 := be64ToCpu (loadLE64 m r)
  l1 := be64ToCpu (loadLE64 m (r + 8))

/-- {lit}`xfs_extent_state`. -/
def xfsExtentState (_blks : BitVec 64) (extentFlag : BitVec 32) : XfsExntst :=
  if extentFlag ≠ 0 then .xfsExtUnwritten else .xfsExtNorm

/-- {lit}`xfs_bmbt_get_blockcount`. -/
def xfsBmbtGetBlockcount (r : XfsBmbtRecHost) : BitVec 64 :=
  r.l1 &&& xfsMask64lo 21

/-- {lit}`xfs_bmbt_get_startblock`. -/
def xfsBmbtGetStartblock (b : Build) (r : XfsBmbtRecHost) : BitVec 64 :=
  if b.xfsBigBlknos then
    ((r.l0 &&& xfsMask64lo 9) <<< 43) ||| (r.l1 >>> 21)
  else
    ((r.l1 >>> 21).setWidth 32).setWidth 64

/-- {lit}`xfs_bmbt_get_startoff`. -/
def xfsBmbtGetStartoff (r : XfsBmbtRecHost) : BitVec 64 :=
  (r.l0 &&& xfsMask64lo 63) >>> 9

/-- {lit}`xfs_bmbt_get_state`. -/
def xfsBmbtGetState (r : XfsBmbtRecHost) : XfsExntst :=
  xfsExtentState (xfsBmbtGetBlockcount r) ((r.l0 >>> 63).setWidth 32)

/-- {lit}`xfs_bmbt_disk_get_blockcount`. -/
def xfsBmbtDiskGetBlockcount (m : Memory Byte) (r : Int) : BitVec 64 :=
  be64ToCpu (loadLE64 m (r + 8)) &&& xfsMask64lo 21

/-- {lit}`xfs_bmbt_disk_get_startoff`. -/
def xfsBmbtDiskGetStartoff (m : Memory Byte) (r : Int) : BitVec 64 :=
  (be64ToCpu (loadLE64 m r) &&& xfsMask64lo 63) >>> 9

/-! ## Extents that a record can hold -/

/-- An extent whose fields fit a record. -/
structure Extent extends XfsBmbtIrec where
  startoff_lt : brStartoff.toNat < 2 ^ 54
  startblock_lt : brStartblock.toNat < 2 ^ 52
  blockcount_lt : brBlockcount.toNat < 2 ^ 21

/-- The words of an extent as sums of its fields. -/
theorem bmbtWords_toNat (e : Extent) :
    (bmbtWords .linux64 e.brStartoff e.brStartblock e.brBlockcount e.brState).l0.toNat =
        (extentFlag e.brState).toNat * 2 ^ 63 + e.brStartoff.toNat * 2 ^ 9 +
          e.brStartblock.toNat / 2 ^ 43 ∧
      (bmbtWords .linux64 e.brStartoff e.brStartblock e.brBlockcount e.brState).l1.toNat =
        e.brStartblock.toNat % 2 ^ 43 * 2 ^ 21 + e.brBlockcount.toNat := by
  rcases e with ⟨⟨startoff, startblock, blockcount, state⟩, hoff, hblock, hcount⟩
  simp only at hoff hblock hcount
  have hflag : (extentFlag state).toNat ≤ 1 := by
    cases state <;> decide
  have hwords : bmbtWords .linux64 startoff startblock blockcount state =
      { l0 := (extentFlag state <<< 63) ||| (startoff <<< 9) ||| (startblock >>> 43)
        l1 := (startblock <<< 21) ||| (blockcount &&& xfsMask64lo 21) } := rfl
  rw [hwords]
  refine ⟨?_, ?_⟩
  · simp only [BitVec.toNat_or, BitVec.toNat_shiftLeft, BitVec.toNat_ushiftRight,
      Nat.shiftLeft_eq, Nat.shiftRight_eq_div_pow]
    rw [Nat.mod_eq_of_lt (by omega : (extentFlag state).toNat * 2 ^ 63 < 2 ^ 64),
      Nat.mod_eq_of_lt (by omega : startoff.toNat * 2 ^ 9 < 2 ^ 64)]
    have hhigh : (extentFlag state).toNat * 2 ^ 63 ||| startoff.toNat * 2 ^ 9 =
        ((extentFlag state).toNat * 2 ^ 54 + startoff.toNat) * 2 ^ 9 := by
      rw [← Nat.shiftLeft_eq, shiftLeft_or_eq _ (by omega)]
      omega
    rw [hhigh, ← Nat.shiftLeft_eq, shiftLeft_or_eq _ (by omega)]
    omega
  · simp only [BitVec.toNat_or, BitVec.toNat_shiftLeft, Nat.shiftLeft_eq]
    rw [toNat_and_xfsMask64lo _ (by omega), Nat.mod_eq_of_lt hcount]
    have hlow : startblock.toNat * 2 ^ 21 % 2 ^ 64 = startblock.toNat % 2 ^ 43 * 2 ^ 21 := by
      omega
    rw [hlow, ← Nat.shiftLeft_eq, shiftLeft_or_eq _ hcount, Nat.shiftLeft_eq]

/-- The state of a record is its highest bit. -/
theorem brState_eq (b : Build) (r : XfsBmbtRecHost) :
    extentFlag (xfsBmbtGetAll b r).brState = BitVec.ofNat 64 (r.l0.toNat / 2 ^ 63) := by
  have hlt := r.l0.isLt
  have hshift : (r.l0 >>> 63).toNat = r.l0.toNat / 2 ^ 63 := by
    rw [BitVec.toNat_ushiftRight, Nat.shiftRight_eq_div_pow]
  simp only [xfsBmbtGetAll, xfsBmbtGetAll']
  by_cases hzero : r.l0 >>> 63 = 0
  · have hdigit : r.l0.toNat / 2 ^ 63 = 0 := by
      rw [← hshift, hzero]
      rfl
    rw [hdigit, if_neg (not_not.mpr hzero)]
    rfl
  · have hdigit : r.l0.toNat / 2 ^ 63 = 1 := by
      have hne : r.l0.toNat / 2 ^ 63 ≠ 0 := fun hdigit =>
        hzero (BitVec.eq_of_toNat_eq (hshift.trans hdigit))
      omega
    rw [hdigit, if_pos hzero]
    rfl

theorem extentFlag_injective {s t : XfsExntst} (h : extentFlag s = extentFlag t) : s = t := by
  cases s <;> cases t <;> first | rfl | cases h

/-! ## Packing and unpacking -/

/-- Unpacking what was packed gives the extent. -/
theorem xfsBmbtGetAll_words (e : Extent) :
    xfsBmbtGetAll .linux64
        (bmbtWords .linux64 e.brStartoff e.brStartblock e.brBlockcount e.brState) =
      e.toXfsBmbtIrec := by
  have hoff := e.startoff_lt
  have hblock := e.startblock_lt
  have hcount := e.blockcount_lt
  rcases bmbtWords_toNat e with ⟨h0, h1⟩
  have hflag : (extentFlag e.brState).toNat ≤ 1 := by
    cases e.brState <;> decide
  generalize hr : bmbtWords .linux64 e.brStartoff e.brStartblock e.brBlockcount e.brState = r
    at h0 h1 ⊢
  apply XfsBmbtIrec.ext
  case brStartoff =>
    apply BitVec.eq_of_toNat_eq
    rw [brStartoff_toNat, h0]
    omega
  case brStartblock =>
    apply BitVec.eq_of_toNat_eq
    rw [brStartblock_toNat_linux64, XfsBmbtRecHost.startblock, h0, h1]
    omega
  case brBlockcount =>
    apply BitVec.eq_of_toNat_eq
    rw [brBlockcount_toNat, h1]
    omega
  case brState =>
    apply extentFlag_injective
    apply BitVec.eq_of_toNat_eq
    rw [brState_eq, BitVec.toNat_ofNat, h0]
    omega

theorem xfsBmbtGetAll_setAll (e : Extent) (r : XfsBmbtRecHost) :
    xfsBmbtGetAll .linux64 (xfsBmbtSetAll .linux64 r e.toXfsBmbtIrec) = e.toXfsBmbtIrec :=
  xfsBmbtGetAll_words e

/-- What a record says fits a record. -/
def XfsBmbtRecHost.extent (r : XfsBmbtRecHost) : Extent where
  toXfsBmbtIrec := xfsBmbtGetAll .linux64 r
  startoff_lt := brStartoff_lt .linux64 r
  startblock_lt := brStartblock_lt .linux64 r
  blockcount_lt := brBlockcount_lt .linux64 r

/-- Packing what was unpacked gives the record. -/
theorem xfsBmbtSetAll_getAll (r r' : XfsBmbtRecHost) :
    xfsBmbtSetAll .linux64 r' (xfsBmbtGetAll .linux64 r) = r := by
  have hlt0 := r.l0.isLt
  have hlt1 := r.l1.isLt
  rcases bmbtWords_toNat r.extent with ⟨h0, h1⟩
  have hflag : (extentFlag r.extent.brState).toNat = r.l0.toNat / 2 ^ 63 := by
    have hstate : extentFlag r.extent.brState = _ := brState_eq .linux64 r
    rw [hstate, BitVec.toNat_ofNat]
    omega
  have hstartoff : r.extent.brStartoff.toNat = _ := brStartoff_toNat .linux64 r
  have hstartblock : r.extent.brStartblock.toNat = _ := brStartblock_toNat_linux64 r
  have hblockcount : r.extent.brBlockcount.toNat = _ := brBlockcount_toNat .linux64 r
  rw [hflag, hstartoff, hstartblock, XfsBmbtRecHost.startblock] at h0
  rw [hstartblock, hblockcount, XfsBmbtRecHost.startblock] at h1
  have hset : xfsBmbtSetAll .linux64 r' (xfsBmbtGetAll .linux64 r) =
      bmbtWords .linux64 r.extent.brStartoff r.extent.brStartblock r.extent.brBlockcount
        r.extent.brState := rfl
  rw [hset]
  apply XfsBmbtRecHost.ext
  case l0 =>
    apply BitVec.eq_of_toNat_eq
    omega
  case l1 =>
    apply BitVec.eq_of_toNat_eq
    omega

/-- A record that was written to disk is read back. -/
theorem hostRec_diskSetAllf (b : Build) (m : Memory Byte) (r : Int)
    (startoff startblock blockcount : BitVec 64) (state : XfsExntst) :
    hostRec (xfsBmbtDiskSetAllf b m r startoff startblock blockcount state) r =
      bmbtWords b startoff startblock blockcount state := by
  generalize hwords : bmbtWords b startoff startblock blockcount state = words
  have hbytes : ∀ x : BitVec 64, leBytes64 (cpuToBe64 x) = beBytes64 x := leBytes64_be64ToCpu
  have hdisk : xfsBmbtDiskSetAllf b m r startoff startblock blockcount state =
      (m.write r (beBytes64 words.l0)).write (r + 8) (beBytes64 words.l1) := by
    simp only [xfsBmbtDiskSetAllf, hwords, hbytes]
  have hfirst : Spells ((m.write r (beBytes64 words.l0)).write (r + 8) (beBytes64 words.l1)) r
      (beBytes64 words.l0) := by
    apply (spells_write m r (beBytes64 words.l0)).write_of_disjoint
    left
    rw [length_beBytes64]
    omega
  have hsecond := spells_write (m.write r (beBytes64 words.l0)) (r + 8) (beBytes64 words.l1)
  rw [hdisk, hostRec, be64ToCpu_loadLE64, be64ToCpu_loadLE64, loadBE64_of_spells hfirst,
    loadBE64_of_spells hsecond]

/-- The getters of single fields agree with the fields of {lit}`xfs_bmbt_get_all`. -/
structure GettersAgree (b : Build) (r : XfsBmbtRecHost) : Prop where
  startoff : xfsBmbtGetStartoff r = (xfsBmbtGetAll b r).brStartoff
  startblock : xfsBmbtGetStartblock b r = (xfsBmbtGetAll b r).brStartblock
  blockcount : xfsBmbtGetBlockcount r = (xfsBmbtGetAll b r).brBlockcount
  state : xfsBmbtGetState r = (xfsBmbtGetAll b r).brState

theorem gettersAgree (b : Build) (r : XfsBmbtRecHost) : GettersAgree b r := by
  refine ⟨rfl, rfl, rfl, ?_⟩
  have hcut : (r.l0 >>> 63).setWidth 32 = 0 ↔ r.l0 >>> 63 = 0 := by
    have hlt := r.l0.isLt
    rw [← BitVec.toNat_inj, ← BitVec.toNat_inj, BitVec.toNat_setWidth,
      BitVec.toNat_ushiftRight, Nat.shiftRight_eq_div_pow]
    simp only [BitVec.ofNat_eq_ofNat, BitVec.toNat_ofNat, Nat.zero_mod]
    omega
  simp only [xfsBmbtGetState, xfsExtentState, xfsBmbtGetAll, xfsBmbtGetAll', ne_eq, hcut]

end Xfsd
