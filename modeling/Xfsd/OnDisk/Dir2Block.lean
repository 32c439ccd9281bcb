import Xfsd.OnDisk.Superblock
import Xfsd.OnDisk.Dinode
import Xfsd.OnDisk.Dir2Sf
import Xfsd.Unaligned

/-!
# XFSD - Sizing a block directory for the inode

A directory in block form is one block: a header, the data entries, an array of leaf entries
with the addresses of the data entries, and a tail that counts the leaf entries.  The function
{lit}`xfs_dir2_block_sfsize` of {lit}`xfsd_dir2_sf.c` goes through the leaf entries to find the
size of the same directory in short form, gives up when that is more than the inode has room
for, and otherwise fills a short-form header.

Main results:

- Theorem {lit}`toInt_xfsDir2SfHdrSizeInt`: both models of {lit}`xfs_dir2_sf_hdr_size` agree.
-/

namespace Xfsd

open Foundation

/-- {lit}`XFS_BIG_INUMS`, which needs {lit}`XFS_BIG_BLKNOS`. -/
def Build.xfsBigInums : Build → Bool
  | .win32 => false
  | .linux64 => true

/-! ## Mounts and inodes -/

/-- The part of {lit}`xfs_mount_t` that directories use. -/
structure XfsMount where
  mSb : XfsSb
  mDirblksize : BitVec 32

/-- The part of {lit}`xfs_inode_t` that decides on the sizes of its forks. -/
structure XfsInode where
  iMount : XfsMount
  iD : XfsIcdinode

/-- {lit}`mp->m_sb.sb_blocklog + mp->m_sb.sb_dirblklog`. -/
def XfsMount.dirBlockLog (mp : XfsMount) : Nat :=
  mp.mSb.sbBlocklog.toNat + mp.mSb.sbDirblklog.toNat

/-- What {lit}`xfs_dir_mount` sets for directory blocks. -/
def xfsDirMount (mp : XfsMount) : XfsMount :=
  { mp with mDirblksize := 1#32 <<< mp.dirBlockLog }

/-- {lit}`xfs_dir_mount` has been called: what it asserts of the superblock, with
{lit}`XFS_MAX_BLOCKSIZE` for the bound, and what it has set. -/
structure XfsMount.DirMounted (mp : XfsMount) : Prop where
  blocksize_le : 2 ^ mp.dirBlockLog ≤ 1 <<< 16
  mounted : xfsDirMount mp = mp

/-- {lit}`XFS_LITINO`. -/
def xfsLitino (mp : XfsMount) : BitVec 32 :=
  mp.mSb.sbInodesize.setWidth 32 - 100#32

/-- {lit}`XFS_IFORK_BOFF`. -/
def xfsIforkBoff (ip : XfsInode) : BitVec 32 :=
  ip.iD.diForkoff.setWidth 32 <<< 3

/-- {lit}`XFS_IFORK_DSIZE`. -/
def xfsIforkDsize (ip : XfsInode) : BitVec 32 :=
  if ip.iD.diForkoff ≠ 0 then xfsIforkBoff ip else xfsLitino ip.iMount

/-! ## Block directories -/

variable (m : Memory Byte)

/-- {lit}`xfs_dir2_block_tail_p`: the tail is the last 8 bytes of the block. -/
def xfsDir2BlockTailP (mp : XfsMount) (hdr : Int) : Int :=
  hdr + mp.mDirblksize.toInt - 8

/-- {lit}`btp->count`, swapped. -/
def btpCount (btp : Int) : BitVec 32 :=
  be32ToCpu (loadLE32 m btp)

/-- {lit}`xfs_dir2_block_leaf_p`: the leaf entries, of 8 bytes each, end where the tail starts. -/
def xfsDir2BlockLeafP (btp : Int) : Int :=
  btp - (btpCount m btp).toNat * 8

/-- {lit}`blp[i].address`, swapped. -/
def blpAddress (blp : Int) (i : Nat) : BitVec 32 :=
  be32ToCpu (loadLE32 m (blp + i * 8 + 4))

/-- {lit}`XFS_DIR2_NULL_DATAPTR`. -/
def xfsDir2NullDataptr : BitVec 32 := 0#32

/-- {lit}`xfs_dir2_dataptr_to_byte`. -/
def xfsDir2DataptrToByte (dp : BitVec 32) : BitVec 64 :=
  dp.setWidth 64 <<< 3

/-- {lit}`xfs_dir2_byte_to_off`: the mask is an {lit}`int`. -/
def xfsDir2ByteToOff (mp : XfsMount) (byte : BitVec 64) : BitVec 32 :=
  (byte &&& (1#32 <<< mp.dirBlockLog - 1#32).signExtend 64).setWidth 32

/-- {lit}`xfs_dir2_dataptr_to_off`. -/
def xfsDir2DataptrToOff (mp : XfsMount) (dp : BitVec 32) : BitVec 32 :=
  xfsDir2ByteToOff mp (xfsDir2DataptrToByte dp)

/-- {lit}`dep->inumber`, swapped. -/
def depInumber (dep : Int) : BitVec 64 :=
  be64ToCpu (loadLE64 m dep)

/-- {lit}`dep->namelen`. -/
def depNamelen (dep : Int) : Byte :=
  m (dep + 8)

/-- {lit}`dep->name[i]`. -/
def depName (dep : Int) (i : Nat) : Byte :=
  m (dep + 9 + i)

/-- The character {lit}`.` that special names are made of. -/
def dot : Byte := 0x2e#8

/-! ## Short-form headers -/

/-- {lit}`xfs_dir2_sf_hdr_size`, of a counter that is an {lit}`int`. -/
def xfsDir2SfHdrSizeInt (i8count : BitVec 32) : BitVec 32 :=
  10 - (if i8count = 0 then 1 else 0) * (8 - 4)

/-- The counter of a header is converted to an {lit}`int`. -/
theorem toInt_xfsDir2SfHdrSizeInt (i8count : Byte) :
    (xfsDir2SfHdrSizeInt (i8count.setWidth 32)).toInt = xfsDir2SfHdrSize i8count := by
  have hzero : i8count.setWidth 32 = 0 ↔ i8count = 0 := by
    rw [← BitVec.toNat_inj, ← BitVec.toNat_inj, BitVec.toNat_setWidth]
    simp only [BitVec.ofNat_eq_ofNat, BitVec.toNat_ofNat]
    omega
  rw [xfsDir2SfHdrSizeInt, xfsDir2SfHdrSize]
  by_cases h : i8count = 0
  · rw [if_pos h, if_pos (hzero.mpr h)]
    decide
  · rw [if_neg h, if_neg (mt hzero.mp h)]
    decide

/-- {lit}`xfs_dir2_sf_put_ino`. -/
def xfsDir2SfPutIno (hdr dst : Int) (ino : BitVec 64) : Memory Byte :=
  if sfHdrI8count m hdr ≠ 0 then putUnalignedBe64 ino m dst
  else putUnalignedBe32 (ino.setWidth 32) m dst

/-- {lit}`xfs_dir2_sf_get_parent_ino`. -/
def xfsDir2SfGetParentIno (hdr : Int) : BitVec 64 :=
  xfsDir2SfGetIno m hdr (hdr + 2)

/-- {lit}`xfs_dir2_sf_put_parent_ino`. -/
def xfsDir2SfPutParentIno (hdr : Int) (ino : BitVec 64) : Memory Byte :=
  xfsDir2SfPutIno m hdr (hdr + 2) ino

/-! ## The sizing loop -/

/-- The locals of {lit}`xfs_dir2_block_sfsize` that add up what its entries need. -/
structure SfsizeLocals where
  count : BitVec 32
  i8count : BitVec 32
  namelen : BitVec 32
  parent : BitVec 64
deriving DecidableEq

namespace SfsizeLocals

/-- The locals before the loop. -/
def start : SfsizeLocals where
  count := 0
  i8count := 0
  namelen := 0
  parent := 0

/-- What the loop does with the data entry {lit}`dep`. -/
def visit (b : Build) (dep : Int) (s : SfsizeLocals) : SfsizeLocals :=
  let isdot := depNamelen m dep = 1 ∧ depName m dep 0 = dot
  let isdotdot := depNamelen m dep = 2 ∧ depName m dep 0 = dot ∧ depName m dep 1 = dot
  let s :=
    if b.xfsBigInums = true ∧ ¬isdot then
      { s with i8count := s.i8count + if 0xffffffff#64 < depInumber m dep then 1 else 0 }
    else s
  if ¬isdot ∧ ¬isdotdot then
    { s with
      count := s.count + 1
      namelen := s.namelen + (depNamelen m dep).setWidth 32 }
  else if isdotdot then { s with parent := depInumber m dep }
  else s

/-- The size that the loop computes from its locals. -/
def size (s : SfsizeLocals) : BitVec 32 :=
  xfsDir2SfHdrSizeInt s.i8count + s.count + s.count * 2 + s.namelen +
    if s.i8count ≠ 0 then 8 * s.count else 4 * s.count

end SfsizeLocals

/-- The loop of {lit}`xfs_dir2_block_sfsize` over the leaf entries with some indices.  It ends
with a size that is a failure, or with its locals and the last size. -/
def sfsizeLoop (b : Build) (dp : XfsInode) (hdr blp : Int) :
    List Nat → SfsizeLocals → BitVec 32 → Except (BitVec 32) (SfsizeLocals × BitVec 32)
  | [], s, size => .ok (s, size)
  | i :: is, s, size =>
      let addr := blpAddress m blp i
      if addr = xfsDir2NullDataptr then
        sfsizeLoop b dp hdr blp is s size
      else
        let dep := hdr + (xfsDir2DataptrToOff dp.iMount addr).toNat
        let s := s.visit m b dep
        let size := s.size
        if (xfsIforkDsize dp).toInt < size.toInt then .error size
        else sfsizeLoop b dp hdr blp is s size

/-- {lit}`xfs_dir2_block_sfsize`, of the block at {lit}`hdr` in one object; the header at
{lit}`sfhp` in another one is filled if the loop does not give up. -/
def xfsDir2BlockSfsize (b : Build) (dp : XfsInode) (hdr : Int) (sf : Memory Byte)
    (sfhp : Int) : BitVec 32 × Memory Byte :=
  let btp := xfsDir2BlockTailP dp.iMount hdr
  let blp := xfsDir2BlockLeafP m btp
  match sfsizeLoop m b dp hdr blp (List.range (btpCount m btp).toNat) .start 0 with
  | .error size => (size, sf)
  | .ok (s, size) =>
      let sf := sf.set sfhp (s.count.setWidth 8)
      let sf := sf.set (sfhp + 1) (s.i8count.setWidth 8)
      (size, xfsDir2SfPutParentIno sf sfhp s.parent)

end Xfsd
