import Xfsd.Foundation.Copy
import Xfsd.OnDisk.BmapRecord

/-!
# XFSD - Roots of extent trees

The root of an extent tree in its two forms: on disk, behind a header of 4 bytes in the
inode, and in memory, behind a header of 24 bytes.  In both forms an array of keys is
followed by an array of pointers, which starts behind as many keys as a block of its length
has room for.  The conversions of {lit}`xfsd_bmap_btree.c` copy the arrays that are in use.

Main results:

- Theorem {lit}`RootForm.arrays_le`: the arrays of a block lie in the block.
- Theorem {lit}`converts_of_header`: what both conversions do behind the header.
- Theorem {lit}`Converts.view_eq`: a conversion keeps the root.
- Theorem {lit}`rootConversion_exact`: to memory and back, the root is the same, and each
  conversion stays in the areas of its target.
-/

namespace Xfsd

open Foundation

/-! ## Sizes and addresses -/

/-- {lit}`XFS_BTREE_LBLOCK_LEN`, which {lit}`XFS_BMBT_BLOCK_LEN` stands for. -/
def xfsBtreeLblockLen : BitVec 32 := 24#32

/-- {lit}`sizeof( xfs_bmdr_block_t)`. -/
def sizeofXfsBmdrBlock : BitVec 32 := 4#32

/-- The records or, in an inner node, the pairs of a key and a pointer that a block has room
for behind a header.  The division is one of {lit}`size_t`. -/
def blockMaxrecs (hdrLen : BitVec 32) (b : Build) (blocklen : BitVec 32) (leaf : Bool) :
    BitVec 32 :=
  let blocklen := blocklen - hdrLen
  if leaf then BitVec.ofNat 32 (b.toSizeT blocklen / 16)
  else BitVec.ofNat 32 (b.toSizeT blocklen / (8 + 8))

/-- {lit}`xfs_bmbt_maxrecs`. -/
def xfsBmbtMaxrecs : Build → BitVec 32 → Bool → BitVec 32 :=
  blockMaxrecs xfsBtreeLblockLen

/-- {lit}`xfs_bmdr_maxrecs`. -/
def xfsBmdrMaxrecs : Build → BitVec 32 → Bool → BitVec 32 :=
  blockMaxrecs sizeofXfsBmdrBlock

/-- The address of a key, counted from 1. -/
def blockKeyAddr (hdrLen : BitVec 32) (block index : Int) : Int :=
  block + hdrLen.toNat + (index - 1) * 8

/-- The address of a pointer, counted from 1, in a block with room for {lit}`maxrecs`. -/
def blockPtrAddr (hdrLen : BitVec 32) (block index : Int) (maxrecs : BitVec 32) : Int :=
  block + hdrLen.toNat + maxrecs.toInt * 8 + (index - 1) * 8

/-- {lit}`XFS_BMBT_KEY_ADDR`. -/
def xfsBmbtKeyAddr : Int → Int → Int :=
  blockKeyAddr xfsBtreeLblockLen

/-- {lit}`XFS_BMBT_PTR_ADDR`. -/
def xfsBmbtPtrAddr : Int → Int → BitVec 32 → Int :=
  blockPtrAddr xfsBtreeLblockLen

/-- {lit}`XFS_BMDR_KEY_ADDR`. -/
def xfsBmdrKeyAddr : Int → Int → Int :=
  blockKeyAddr sizeofXfsBmdrBlock

/-- {lit}`XFS_BMDR_PTR_ADDR`. -/
def xfsBmdrPtrAddr : Int → Int → BitVec 32 → Int :=
  blockPtrAddr sizeofXfsBmdrBlock

/-- {lit}`XFS_BMAP_BROOT_PTR_ADDR`. -/
def xfsBmapBrootPtrAddr (b : Build) (bb i : Int) (sz : BitVec 32) : Int :=
  xfsBmbtPtrAddr bb i (xfsBmbtMaxrecs b sz false)

/-! ## The conversions -/

/-- {lit}`XFS_BMAP_MAGIC`. -/
def xfsBmapMagic : BitVec 32 := 0x424d4150#32

/-- {lit}`NULLDFSBNO`. -/
def nulldfsbno : BitVec 64 := BitVec.allOnes 64

/-- {lit}`cpu_to_be32`. -/
def cpuToBe32 (x : BitVec 32) : BitVec 32 :=
  reverseBits32 x

/-- {lit}`mem_cpy`, from one object to another. -/
def memCpy (b : Build) (m : Memory Byte) (dst : Int) (s : Memory Byte) (src : Int)
    (n : BitVec 32) : Memory Byte :=
  m.copyFrom dst s src (b.toSizeT n)

/-- {lit}`xfs_bmdr_to_bmbt`, from the block {lit}`dblock` in one object to the block
{lit}`rblock` in another. -/
def xfsBmdrToBmbt (b : Build) (dm : Memory Byte) (dblock : Int) (dblocklen : BitVec 32)
    (rm : Memory Byte) (rblock : Int) (rblocklen : BitVec 32) : Memory Byte :=
  let rm := rm.write rblock (leBytes32 (cpuToBe32 xfsBmapMagic))
  let rm := rm.copyFrom (rblock + 4) dm dblock 2
  let rm := rm.copyFrom (rblock + 6) dm (dblock + 2) 2
  let rm := rm.write (rblock + 8) (leBytes64 (cpuToBe64 nulldfsbno))
  let rm := rm.write (rblock + 16) (leBytes64 (cpuToBe64 nulldfsbno))
  let dmxr := xfsBmdrMaxrecs b dblocklen false
  let fkp := xfsBmdrKeyAddr dblock 1
  let tkp := xfsBmbtKeyAddr rblock 1
  let fpp := xfsBmdrPtrAddr dblock 1 dmxr
  let tpp := xfsBmapBrootPtrAddr b rblock 1 rblocklen
  let dmxr := (be16ToCpu (loadLE16 dm (dblock + 2))).setWidth 32
  let rm := memCpy b rm tkp dm fkp (8 * dmxr)
  memCpy b rm tpp dm fpp (8 * dmxr)

/-- {lit}`xfs_bmbt_to_bmdr`, from the block {lit}`rblock` in one object to the block
{lit}`dblock` in another. -/
def xfsBmbtToBmdr (b : Build) (rm : Memory Byte) (rblock : Int) (rblocklen : BitVec 32)
    (dm : Memory Byte) (dblock : Int) (dblocklen : BitVec 32) : Memory Byte :=
  let dm := dm.copyFrom dblock rm (rblock + 4) 2
  let dm := dm.copyFrom (dblock + 2) rm (rblock + 6) 2
  let dmxr := xfsBmdrMaxrecs b dblocklen false
  let fkp := xfsBmbtKeyAddr rblock 1
  let tkp := xfsBmdrKeyAddr dblock 1
  let fpp := xfsBmapBrootPtrAddr b rblock 1 rblocklen
  let tpp := xfsBmdrPtrAddr dblock 1 dmxr
  let dmxr := (be16ToCpu (loadLE16 dm (dblock + 2))).setWidth 32
  let dm := memCpy b dm tkp rm fkp (8 * dmxr)
  memCpy b dm tpp rm fpp (8 * dmxr)

/-! ## Roots as values -/

/-- What a root says, whatever its form. -/
structure BmapRoot where
  level : BitVec 16
  numrecs : BitVec 16
  keys : List (BitVec 64)
  ptrs : List (BitVec 64)
deriving DecidableEq

/-- The forms of a root: on disk, and in memory. -/
inductive RootForm where
  | bmdr
  | bmbt
deriving DecidableEq, Repr

namespace RootForm

/-- The length of the header. -/
def hdrLen : RootForm → BitVec 32
  | bmdr => sizeofXfsBmdrBlock
  | bmbt => xfsBtreeLblockLen

/-- The offset of {lit}`bb_level`; {lit}`bb_numrecs` follows it. -/
def levelOff : RootForm → Int
  | bmdr => 0
  | bmbt => 4

variable (f : RootForm) (b : Build)

/-- {lit}`xfs_bmdr_maxrecs` or {lit}`xfs_bmbt_maxrecs`, for an inner node. -/
def maxrecs (blocklen : BitVec 32) : BitVec 32 :=
  blockMaxrecs f.hdrLen b blocklen false

/-- {lit}`XFS_BMDR_KEY_ADDR` or {lit}`XFS_BMBT_KEY_ADDR`. -/
def keyAddr (block index : Int) : Int :=
  blockKeyAddr f.hdrLen block index

/-- {lit}`XFS_BMDR_PTR_ADDR`, or {lit}`XFS_BMAP_BROOT_PTR_ADDR`, of a block of a given length. -/
def ptrAddr (block : Int) (blocklen : BitVec 32) (index : Int) : Int :=
  blockPtrAddr f.hdrLen block index (f.maxrecs b blocklen)

/-- {lit}`bb_level` of a block. -/
def level (m : Memory Byte) (block : Int) : BitVec 16 :=
  be16ToCpu (loadLE16 m (block + f.levelOff))

/-- {lit}`bb_numrecs` of a block. -/
def numrecs (m : Memory Byte) (block : Int) : BitVec 16 :=
  be16ToCpu (loadLE16 m (block + f.levelOff + 2))

/-- The root that a block holds. -/
def view (m : Memory Byte) (block : Int) (blocklen : BitVec 32) : BmapRoot where
  level := f.level m block
  numrecs := f.numrecs m block
  keys := (List.range (f.numrecs m block).toNat).map fun i : Nat =>
    be64ToCpu (loadLE64 m (f.keyAddr block (i + 1)))
  ptrs := (List.range (f.numrecs m block).toNat).map fun i : Nat =>
    be64ToCpu (loadLE64 m (f.ptrAddr b block blocklen (i + 1)))

/-- A block has room for a number of keys and pointers. -/
def Room (blocklen : BitVec 32) (n : Nat) : Prop :=
  (n : Int) ≤ (f.maxrecs b blocklen).toInt

instance (blocklen : BitVec 32) (n : Nat) : Decidable (f.Room b blocklen n) :=
  inferInstanceAs (Decidable (_ ≤ _))

/-- The address lies in the header of a block. -/
def InHeader (block a : Int) : Prop :=
  block ≤ a ∧ a < block + f.hdrLen.toNat

/-- The address lies in the key area of a block. -/
def InKeys (block : Int) (blocklen : BitVec 32) (a : Int) : Prop :=
  f.keyAddr block 1 ≤ a ∧ a < f.keyAddr block 1 + 8 * (f.maxrecs b blocklen).toInt

/-- The address lies in the pointer area of a block. -/
def InPtrs (block : Int) (blocklen : BitVec 32) (a : Int) : Prop :=
  f.ptrAddr b block blocklen 1 ≤ a ∧
    a < f.ptrAddr b block blocklen 1 + 8 * (f.maxrecs b blocklen).toInt

theorem keyAddr_succ (block : Int) (i : Nat) :
    f.keyAddr block (i + 1) = f.keyAddr block 1 + 8 * i := by
  simp only [keyAddr, blockKeyAddr]
  omega

theorem ptrAddr_succ (block : Int) (blocklen : BitVec 32) (i : Nat) :
    f.ptrAddr b block blocklen (i + 1) = f.ptrAddr b block blocklen 1 + 8 * i := by
  simp only [ptrAddr, blockPtrAddr]
  omega

/-- The pointer area starts where the key area ends. -/
theorem ptrAddr_eq (block : Int) (blocklen : BitVec 32) :
    f.ptrAddr b block blocklen 1 = f.keyAddr block 1 + 8 * (f.maxrecs b blocklen).toInt := by
  simp only [ptrAddr, blockPtrAddr, keyAddr, blockKeyAddr]
  omega

/-- The two arrays do not overlap. -/
theorem not_inPtrs_of_inKeys {block a : Int} {blocklen : BitVec 32}
    (h : f.InKeys b block blocklen a) : ¬f.InPtrs b block blocklen a := by
  have hstart := f.ptrAddr_eq b block blocklen
  unfold InKeys at h
  unfold InPtrs
  omega

/-- The arrays of a block that is as long as its header lie in the block. -/
theorem arrays_le {block : Int} {blocklen : BitVec 32}
    (h : (f.hdrLen.toNat : Int) ≤ blocklen.toInt) :
    f.ptrAddr b block blocklen 1 + 8 * (f.maxrecs b blocklen).toInt ≤ block + blocklen.toInt := by
  have hhdr : f.hdrLen.toNat ≤ 24 := by
    cases f <;> decide
  have hlt := blocklen.isLt
  have hlen : blocklen.toInt = blocklen.toNat := by
    rw [BitVec.toInt_eq_toNat_cond] at h ⊢
    split at h <;> rename_i hsmall
    · rw [if_pos hsmall]
    · omega
  have hsmall : blocklen.toNat < 2 ^ 31 := by
    rw [BitVec.toInt_eq_toNat_cond] at hlen
    split at hlen <;> omega
  have hsub : (blocklen - f.hdrLen).toNat = blocklen.toNat - f.hdrLen.toNat := by
    apply BitVec.toNat_sub_of_le
    rw [BitVec.le_def]
    omega
  have hmax : (f.maxrecs b blocklen).toInt =
      ((blocklen.toNat - f.hdrLen.toNat) / 16 : Nat) := by
    have hcut : f.maxrecs b blocklen =
        BitVec.ofNat 32 ((blocklen.toNat - f.hdrLen.toNat) / 16) := by
      rw [maxrecs, blockMaxrecs, ← hsub, ← b.toSizeT_of_lt (by omega)]
      rfl
    rw [hcut, BitVec.toInt_eq_toNat_of_lt] <;> rw [BitVec.toNat_ofNat] <;> omega
  rw [ptrAddr_eq, hmax]
  simp only [keyAddr, blockKeyAddr]
  omega

end RootForm

/-! ## What a conversion does -/

/-- A conversion of a root from a block of one form to a block of another: it copies level,
counter, keys and pointers, and changes its target in its areas only. -/
structure Converts (b : Build) (f f' : RootForm) (s : Memory Byte) (block : Int)
    (blocklen : BitVec 32) (t t' : Memory Byte) (tblock : Int) (tblocklen : BitVec 32) :
    Prop where
  level : SameBytes t' (tblock + f'.levelOff) s (block + f.levelOff) 2
  numrecs : SameBytes t' (tblock + f'.levelOff + 2) s (block + f.levelOff + 2) 2
  keys : SameBytes t' (f'.keyAddr tblock 1) s (f.keyAddr block 1)
    (8 * (f.numrecs s block).toNat)
  ptrs : SameBytes t' (f'.ptrAddr b tblock tblocklen 1) s (f.ptrAddr b block blocklen 1)
    (8 * (f.numrecs s block).toNat)
  inside : ∀ a, t' a ≠ t a →
    f'.InHeader tblock a ∨ f'.InKeys b tblock tblocklen a ∨ f'.InPtrs b tblock tblocklen a

/-- What both conversions do behind the header: where there is room, the two copies of the
arrays finish a conversion whose header is done. -/
theorem converts_of_header {b : Build} {f f' : RootForm} {s t t₁ : Memory Byte}
    {block tblock : Int} {blocklen tblocklen : BitVec 32}
    (hroom : f'.Room b tblocklen (f.numrecs s block).toNat)
    (hlevel : SameBytes t₁ (tblock + f'.levelOff) s (block + f.levelOff) 2)
    (hnumrecs : SameBytes t₁ (tblock + f'.levelOff + 2) s (block + f.levelOff + 2) 2)
    (hheader : ∀ a, t₁ a ≠ t a → f'.InHeader tblock a) :
    Converts b f f' s block blocklen t
      (memCpy b
        (memCpy b t₁ (f'.keyAddr tblock 1) s (f.keyAddr block 1)
          (8 * (f.numrecs s block).setWidth 32))
        (f'.ptrAddr b tblock tblocklen 1) s (f.ptrAddr b block blocklen 1)
        (8 * (f.numrecs s block).setWidth 32)) tblock tblocklen := by
  have hlt := (f.numrecs s block).isLt
  have hlen : b.toSizeT (8 * (f.numrecs s block).setWidth 32) =
      8 * (f.numrecs s block).toNat := by
    have hprod : (8 * (f.numrecs s block).setWidth 32 : BitVec 32).toNat =
        8 * (f.numrecs s block).toNat := by
      rw [BitVec.toNat_mul, BitVec.toNat_setWidth]
      simp only [BitVec.ofNat_eq_ofNat, BitVec.toNat_ofNat]
      omega
    rw [b.toSizeT_of_lt (by omega), hprod]
  simp only [memCpy, hlen]
  have hptr := f'.ptrAddr_eq b tblock tblocklen
  have hkey : f'.keyAddr tblock 1 = tblock + f'.hdrLen.toNat := by
    simp [RootForm.keyAddr, blockKeyAddr]
  have hoff : f'.levelOff + 4 ≤ f'.hdrLen.toNat := by
    cases f' <;> decide
  unfold RootForm.Room at hroom
  refine ⟨?_, ?_, ?_, copyFrom_same _ _ _ _ _, ?_⟩
  · exact (hlevel.copyFrom_of_disjoint (by omega)).copyFrom_of_disjoint (by omega)
  · exact (hnumrecs.copyFrom_of_disjoint (by omega)).copyFrom_of_disjoint (by omega)
  · exact (copyFrom_same _ _ _ _ _).copyFrom_of_disjoint (by omega)
  · intro a ha
    by_contra hout
    push Not at hout
    rcases hout with ⟨hnotHeader, hnotKeys, hnotPtrs⟩
    unfold RootForm.InKeys at hnotKeys
    unfold RootForm.InPtrs at hnotPtrs
    rw [Memory.copyFrom_outside (by omega), Memory.copyFrom_outside (by omega)] at ha
    exact hnotHeader (hheader a ha)

/-- A conversion keeps the root. -/
theorem Converts.view_eq {b : Build} {f f' : RootForm} {s t t' : Memory Byte}
    {block tblock : Int} {blocklen tblocklen : BitVec 32}
    (h : Converts b f f' s block blocklen t t' tblock tblocklen) :
    f'.view b t' tblock tblocklen = f.view b s block blocklen := by
  have hlevel : f'.level t' tblock = f.level s block := by
    rw [RootForm.level, RootForm.level, be16ToCpu_loadLE16, be16ToCpu_loadLE16]
    exact h.level.loadBE16
  have hnumrecs : f'.numrecs t' tblock = f.numrecs s block := by
    rw [RootForm.numrecs, RootForm.numrecs, be16ToCpu_loadLE16, be16ToCpu_loadLE16]
    exact h.numrecs.loadBE16
  simp only [RootForm.view, hlevel, hnumrecs, BmapRoot.mk.injEq, true_and]
  refine ⟨List.map_congr_left fun i hi => ?_, List.map_congr_left fun i hi => ?_⟩
  · rw [be64ToCpu_loadLE64, be64ToCpu_loadLE64, RootForm.keyAddr_succ, RootForm.keyAddr_succ]
    exact h.keys.loadBE64 (List.mem_range.mp hi)
  · rw [be64ToCpu_loadLE64, be64ToCpu_loadLE64, RootForm.ptrAddr_succ, RootForm.ptrAddr_succ]
    exact h.ptrs.loadBE64 (List.mem_range.mp hi)

/-- The conversion to memory. -/
theorem xfsBmdrToBmbt_converts {b : Build} {dm : Memory Byte} (dblock rblock : Int)
    {rblocklen : BitVec 32} (dblocklen : BitVec 32) (rm : Memory Byte)
    (hroom : RootForm.bmbt.Room b rblocklen (RootForm.bmdr.numrecs dm dblock).toNat) :
    Converts b .bmdr .bmbt dm dblock dblocklen rm
      (xfsBmdrToBmbt b dm dblock dblocklen rm rblock rblocklen) rblock rblocklen := by
  have hlevel : dblock + RootForm.bmdr.levelOff = dblock := add_zero dblock
  have hcount : be16ToCpu (loadLE16 dm (dblock + 2)) = RootForm.bmdr.numrecs dm dblock := by
    rw [RootForm.numrecs, hlevel]
  have hnumrecs : rblock + RootForm.bmbt.levelOff + 2 = rblock + 6 := add_assoc rblock 4 2
  unfold xfsBmdrToBmbt
  simp only [hcount]
  apply converts_of_header hroom
  case hlevel =>
    rw [hlevel]
    apply SameBytes.write_of_disjoint _ (by simp [RootForm.levelOff]; omega)
    apply SameBytes.write_of_disjoint _ (by simp [RootForm.levelOff]; omega)
    apply SameBytes.copyFrom_of_disjoint _ (by simp [RootForm.levelOff]; omega)
    exact copyFrom_same _ _ _ _ _
  case hnumrecs =>
    rw [hlevel, hnumrecs]
    apply SameBytes.write_of_disjoint _ (by simp; omega)
    apply SameBytes.write_of_disjoint _ (by simp; omega)
    exact copyFrom_same _ _ _ _ _
  case hheader =>
    intro a ha
    by_contra hout
    have hlen : RootForm.bmbt.hdrLen.toNat = 24 := rfl
    rw [RootForm.InHeader, hlen] at hout
    apply ha
    rw [Memory.write_outside (by simp; omega), Memory.write_outside (by simp; omega),
      Memory.copyFrom_outside (by omega), Memory.copyFrom_outside (by omega),
      Memory.write_outside (by simp; omega)]

/-- The conversion to disk. -/
theorem xfsBmbtToBmdr_converts {b : Build} {rm : Memory Byte} (rblock dblock : Int)
    {dblocklen : BitVec 32} (rblocklen : BitVec 32) (dm : Memory Byte)
    (hroom : RootForm.bmdr.Room b dblocklen (RootForm.bmbt.numrecs rm rblock).toNat) :
    Converts b .bmbt .bmdr rm rblock rblocklen dm
      (xfsBmbtToBmdr b rm rblock rblocklen dm dblock dblocklen) dblock dblocklen := by
  have hlevel : dblock + RootForm.bmdr.levelOff = dblock := add_zero dblock
  have hnumrecs : rblock + RootForm.bmbt.levelOff + 2 = rblock + 6 := add_assoc rblock 4 2
  have hcopied :=
    copyFrom_same (dm.copyFrom dblock rm (rblock + 4) 2) (dblock + 2) rm (rblock + 6) 2
  -- the counter is read back from the target
  have hcount : be16ToCpu (loadLE16 ((dm.copyFrom dblock rm (rblock + 4) 2).copyFrom
      (dblock + 2) rm (rblock + 6) 2) (dblock + 2)) = RootForm.bmbt.numrecs rm rblock := by
    rw [RootForm.numrecs, hnumrecs, be16ToCpu_loadLE16, be16ToCpu_loadLE16]
    exact hcopied.loadBE16
  unfold xfsBmbtToBmdr
  simp only [hcount]
  apply converts_of_header hroom
  case hlevel =>
    rw [hlevel]
    exact (copyFrom_same _ _ _ _ _).copyFrom_of_disjoint (by omega)
  case hnumrecs =>
    rw [hlevel, hnumrecs]
    exact hcopied
  case hheader =>
    intro a ha
    by_contra hout
    have hlen : RootForm.bmdr.hdrLen.toNat = 4 := rfl
    rw [RootForm.InHeader, hlen] at hout
    apply ha
    rw [Memory.copyFrom_outside (by omega), Memory.copyFrom_outside (by omega)]

/-- To memory and back to disk: the root is the same, each conversion changes its target in
its areas only, and the two arrays do not overlap. -/
structure RootConversion (b : Build) (dm : Memory Byte) (dblock : Int) (dblocklen : BitVec 32)
    (rm : Memory Byte) (rblock : Int) (rblocklen : BitVec 32) (dm2 : Memory Byte) (dblock2 : Int)
    (dblocklen2 : BitVec 32) : Prop where
  root : RootForm.bmdr.view b
      (xfsBmbtToBmdr b (xfsBmdrToBmbt b dm dblock dblocklen rm rblock rblocklen) rblock rblocklen
        dm2 dblock2 dblocklen2) dblock2 dblocklen2 =
    RootForm.bmdr.view b dm dblock dblocklen
  toMemory : ∀ a, xfsBmdrToBmbt b dm dblock dblocklen rm rblock rblocklen a ≠ rm a →
    RootForm.bmbt.InHeader rblock a ∨ RootForm.bmbt.InKeys b rblock rblocklen a ∨
      RootForm.bmbt.InPtrs b rblock rblocklen a
  toDisk : ∀ a, xfsBmbtToBmdr b (xfsBmdrToBmbt b dm dblock dblocklen rm rblock rblocklen) rblock
      rblocklen dm2 dblock2 dblocklen2 a ≠ dm2 a →
    RootForm.bmdr.InHeader dblock2 a ∨ RootForm.bmdr.InKeys b dblock2 dblocklen2 a ∨
      RootForm.bmdr.InPtrs b dblock2 dblocklen2 a
  apart : ∀ (f : RootForm) (block : Int) (blocklen : BitVec 32) (a : Int),
    f.InKeys b block blocklen a → ¬f.InPtrs b block blocklen a

/-- A root survives the way to memory and back, wherever there is room for it. -/
theorem rootConversion_exact (b : Build) (dm rm dm2 : Memory Byte) (dblock rblock dblock2 : Int)
    (dblocklen rblocklen dblocklen2 : BitVec 32)
    (hmemory : RootForm.bmbt.Room b rblocklen (RootForm.bmdr.numrecs dm dblock).toNat)
    (hdisk : RootForm.bmdr.Room b dblocklen2 (RootForm.bmdr.numrecs dm dblock).toNat) :
    RootConversion b dm dblock dblocklen rm rblock rblocklen dm2 dblock2 dblocklen2 := by
  have hto := xfsBmdrToBmbt_converts dblock rblock dblocklen rm hmemory
  have hview := hto.view_eq
  have hcount : RootForm.bmbt.numrecs (xfsBmdrToBmbt b dm dblock dblocklen rm rblock rblocklen)
      rblock = RootForm.bmdr.numrecs dm dblock := congrArg BmapRoot.numrecs hview
  have hback := xfsBmbtToBmdr_converts rblock dblock2 rblocklen dm2 (hcount ▸ hdisk)
  refine ⟨hback.view_eq.trans hview, hto.inside, hback.inside, ?_⟩
  exact fun f block blocklen a => f.not_inPtrs_of_inKeys b

/-- A root of level 1 with two keys and two pointers. -/
def twoChildrenRoot : Memory Byte :=
  spelling 0 (beBytes16 1 ++ beBytes16 2 ++ beBytes64 0 ++ beBytes64 100 ++
    beBytes64 40 ++ beBytes64 41)

/-- Two children, in blocks with room for two, for three and for five. -/
theorem rootConversion_twoChildren :
    RootConversion .linux64 twoChildrenRoot 0 36 (fun _ => 0) 0 72 (fun _ => 0) 0 84 :=
  rootConversion_exact .linux64 twoChildrenRoot (fun _ => 0) (fun _ => 0) 0 0 0 36 72 84
    (by decide) (by decide)

end Xfsd
