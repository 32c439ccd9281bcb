import Xfsd.Types

/-!
# XFSD - Inode cores

The in-core inode {lit}`xfs_icdinode_t` with its decoder
{lit}`xfs_dinode_from_disk` from {lit}`read_file.c`, and the fork macros of
{lit}`xfs_dinode.h`.  A {lit}`xfs_dinode_t *` is an address in the block buffer.

Main results:

- Definition {lit}`xfsDinodeFromDisk`: the decoded core.
-/

namespace Xfsd

open Foundation

/-- {lit}`xfs_ictimestamp_t`. -/
structure XfsIctimestamp where
  tSec : BitVec 32
  tNsec : BitVec 32
deriving DecidableEq, Inhabited

/-- {lit}`xfs_icdinode_t`. -/
structure XfsIcdinode where
  diMagic : BitVec 16
  diMode : BitVec 16
  diVersion : BitVec 8
  diFormat : BitVec 8
  diOnlink : BitVec 16
  diUid : BitVec 32
  diGid : BitVec 32
  diNlink : BitVec 32
  diProjidLo : BitVec 16
  diProjidHi : BitVec 16
  diPad : Fin 6 → Byte
  diFlushiter : BitVec 16
  diAtime : XfsIctimestamp
  diMtime : XfsIctimestamp
  diCtime : XfsIctimestamp
  diSize : BitVec 64
  diNblocks : BitVec 64
  diExtsize : BitVec 32
  diNextents : BitVec 32
  diAnextents : BitVec 16
  diForkoff : BitVec 8
  diAformat : BitVec 8
  diDmevmask : BitVec 32
  diDmstate : BitVec 16
  diFlags : BitVec 16
  diGen : BitVec 32
deriving Inhabited

/-- {lit}`xfs_dinode_from_disk`; the source structure {lit}`xfs_dinode_t` is packed. -/
def xfsDinodeFromDisk (m : Memory Byte) (raw : Int) : XfsIcdinode where
  diMagic := be16ToCpu (loadLE16 m raw)
  diMode := be16ToCpu (loadLE16 m (raw + 2))
  diVersion := m (raw + 4)
  diFormat := m (raw + 5)
  diOnlink := be16ToCpu (loadLE16 m (raw + 6))
  diUid := be32ToCpu (loadLE32 m (raw + 8))
  diGid := be32ToCpu (loadLE32 m (raw + 12))
  diNlink := be32ToCpu (loadLE32 m (raw + 16))
  diProjidLo := be16ToCpu (loadLE16 m (raw + 20))
  diProjidHi := be16ToCpu (loadLE16 m (raw + 22))
  diPad := fun i => m (raw + 24 + i.val)
  diFlushiter := be16ToCpu (loadLE16 m (raw + 30))
  diAtime :=
    { tSec := be32ToCpu (loadLE32 m (raw + 32))
      tNsec := be32ToCpu (loadLE32 m (raw + 36)) }
  diMtime :=
    { tSec := be32ToCpu (loadLE32 m (raw + 40))
      tNsec := be32ToCpu (loadLE32 m (raw + 44)) }
  diCtime :=
    { tSec := be32ToCpu (loadLE32 m (raw + 48))
      tNsec := be32ToCpu (loadLE32 m (raw + 52)) }
  diSize := be64ToCpu (loadLE64 m (raw + 56))
  diNblocks := be64ToCpu (loadLE64 m (raw + 64))
  diExtsize := be32ToCpu (loadLE32 m (raw + 72))
  diNextents := be32ToCpu (loadLE32 m (raw + 76))
  diAnextents := be16ToCpu (loadLE16 m (raw + 80))
  diForkoff := m (raw + 82)
  diAformat := m (raw + 83)
  diDmevmask := be32ToCpu (loadLE32 m (raw + 84))
  diDmstate := be16ToCpu (loadLE16 m (raw + 88))
  diFlags := be16ToCpu (loadLE16 m (raw + 90))
  diGen := be32ToCpu (loadLE32 m (raw + 92))

/-! ## File types and fork formats -/

/-- {lit}`S_IFREG`. -/
def sIfreg : BitVec 32 := 0o100000#32

/-- {lit}`S_IFDIR`. -/
def sIfdir : BitVec 32 := 0o040000#32

/-- {lit}`S_IFMT`. -/
def sIfmt : BitVec 32 := 0o170000#32

/-- {lit}`XFS_DINODE_FMT_LOCAL`. -/
def xfsDinodeFmtLocal : BitVec 8 := 1#8

/-- {lit}`XFS_DINODE_FMT_EXTENTS`. -/
def xfsDinodeFmtExtents : BitVec 8 := 2#8

/-- {lit}`XFS_DFORK_DPTR`: the data fork follows the 100-byte {lit}`xfs_dinode_t`. -/
def xfsDforkDptr (raw : Int) : Int :=
  raw + 100

/-- {lit}`raw->di_size`, swapped. -/
def rawDiSize (m : Memory Byte) (raw : Int) : BitVec 64 :=
  be64ToCpu (loadLE64 m (raw + 56))

/-- {lit}`XFS_DFORK_NEXTENTS( raw, XFS_DATA_FORK)`. -/
def xfsDforkNextents (m : Memory Byte) (raw : Int) : BitVec 32 :=
  be32ToCpu (loadLE32 m (raw + 76))

/-! ## What the reader's decisions depend on -/

/-- The inode is a directory: {lit}`( cur.di_mode & S_IFMT) == S_IFDIR`. -/
def XfsIcdinode.IsDir (cur : XfsIcdinode) : Prop :=
  cur.diMode.setWidth 32 &&& sIfmt = sIfdir

instance (cur : XfsIcdinode) : Decidable cur.IsDir :=
  inferInstanceAs (Decidable (_ = _))

end Xfsd
