import Xfsd.OnDisk.Superblock
import Xfsd.OnDisk.Dinode
import Xfsd.OnDisk.BmapBtree
import Xfsd.OnDisk.Dir2SfFormat
import Xfsd.Foundation.Spelling
import Xfsd.Foundation.Stdio

/-!
# XFSD - Writing on-disk structures

The byte strings of superblocks, inodes and extent records, field by field in
the order of their on-disk structures, and images put together from them.

Main results:

- Theorem {lit}`spells_dataFork`: the data fork of a stored inode stands where the
  reader looks for it.
- Definition {lit}`diskImage`: an image from a superblock, inodes and data.
-/

namespace Xfsd

open Foundation

/-! ## Structures as byte strings -/

/-- The bytes of {lit}`xfs_dsb_t`. -/
def XfsSb.encode (sb : XfsSb) : List Byte :=
  beBytes32 sb.sbMagicnum ++ beBytes32 sb.sbBlocksize ++ beBytes64 sb.sbDblocks ++
  beBytes64 sb.sbRblocks ++ beBytes64 sb.sbRextents ++ List.ofFn sb.sbUuid ++
  beBytes64 sb.sbLogstart ++ beBytes64 sb.sbRootino ++ beBytes64 sb.sbRbmino ++
  beBytes64 sb.sbRsumino ++ beBytes32 sb.sbRextsize ++ beBytes32 sb.sbAgblocks ++
  beBytes32 sb.sbAgcount ++ beBytes32 sb.sbRbmblocks ++ beBytes32 sb.sbLogblocks ++
  beBytes16 sb.sbVersionnum ++ beBytes16 sb.sbSectsize ++ beBytes16 sb.sbInodesize ++
  beBytes16 sb.sbInopblock ++ List.ofFn sb.sbFname ++
  [sb.sbBlocklog, sb.sbSectlog, sb.sbInodelog, sb.sbInopblog, sb.sbAgblklog, sb.sbRextslog,
    sb.sbInprogress, sb.sbImaxPct] ++
  beBytes64 sb.sbIcount ++ beBytes64 sb.sbIfree ++ beBytes64 sb.sbFdblocks ++
  beBytes64 sb.sbFrextents ++ beBytes64 sb.sbUquotino ++ beBytes64 sb.sbGquotino ++
  beBytes16 sb.sbQflags ++ [sb.sbFlags, sb.sbSharedVn] ++ beBytes32 sb.sbInoalignmt ++
  beBytes32 sb.sbUnit ++ beBytes32 sb.sbWidth ++ [sb.sbDirblklog, sb.sbLogsectlog] ++
  beBytes16 sb.sbLogsectsize ++ beBytes32 sb.sbLogsunit ++ beBytes32 sb.sbFeatures2 ++
  beBytes32 sb.sbBadFeatures2

/-- The bytes of a timestamp. -/
def XfsIctimestamp.encode (t : XfsIctimestamp) : List Byte :=
  beBytes32 t.tSec ++ beBytes32 t.tNsec

theorem XfsIctimestamp.length_encode (t : XfsIctimestamp) : t.encode.length = 8 := rfl

/-- The 96 bytes of an inode core. -/
def XfsIcdinode.encode (core : XfsIcdinode) : List Byte :=
  beBytes16 core.diMagic ++ beBytes16 core.diMode ++ [core.diVersion, core.diFormat] ++
  beBytes16 core.diOnlink ++ beBytes32 core.diUid ++ beBytes32 core.diGid ++
  beBytes32 core.diNlink ++ beBytes16 core.diProjidLo ++ beBytes16 core.diProjidHi ++
  List.ofFn core.diPad ++ beBytes16 core.diFlushiter ++ core.diAtime.encode ++
  core.diMtime.encode ++ core.diCtime.encode ++ beBytes64 core.diSize ++
  beBytes64 core.diNblocks ++ beBytes32 core.diExtsize ++ beBytes32 core.diNextents ++
  beBytes16 core.diAnextents ++ [core.diForkoff, core.diAformat] ++
  beBytes32 core.diDmevmask ++ beBytes16 core.diDmstate ++ beBytes16 core.diFlags ++
  beBytes32 core.diGen

/-- The bytes of an inode: its core, the link of the unlinked list, and its data fork. -/
def inodeBytes (core : XfsIcdinode) (dataFork : List Byte) : List Byte :=
  core.encode ++ beBytes32 0xffffffff#32 ++ dataFork

theorem XfsIcdinode.length_encode (core : XfsIcdinode) : core.encode.length = 96 := by
  unfold encode
  simp only [List.length_append]
  simp only [XfsIctimestamp.length_encode, List.length_cons, List.length_nil,
    List.length_ofFn, length_beBytes16, length_beBytes32, length_beBytes64]

/-- The data fork of a stored inode stands where {lit}`XFS_DFORK_DPTR` points. -/
theorem spells_dataFork {m : Memory Byte} {raw : Int} {core : XfsIcdinode}
    {dataFork : List Byte} (h : Spells m raw (inodeBytes core dataFork)) :
    Spells m (xfsDforkDptr raw) dataFork := by
  have hfork := (spells_append_iff.mp h).2
  have haddr : raw + ((96 + 4 : Nat) : Int) = xfsDforkDptr raw := rfl
  rw [List.length_append, core.length_encode, length_beBytes32, haddr] at hfork
  exact hfork

/-- The bytes of {lit}`xfs_bmbt_rec_t`. -/
def XfsBmbtRecHost.encode (r : XfsBmbtRecHost) : List Byte :=
  beBytes64 r.l0 ++ beBytes64 r.l1

/-- The record of a written extent. -/
def extentRecord (startoff startblock blockcount : Nat) : XfsBmbtRecHost where
  l0 := BitVec.ofNat 64 (startoff * 2 ^ 9 + startblock / 2 ^ 43)
  l1 := BitVec.ofNat 64 (startblock % 2 ^ 43 * 2 ^ 21 + blockcount)

/-! ## Images -/

/-- The superblock of a file system with blocks of {lit}`2 ^ blocklog` bytes and inodes of
{lit}`2 ^ inodelog` bytes; fields that do not describe the geometry are zero. -/
def geometrySb (blocklog inodelog agblklog agblocks agcount rootino : Nat) : XfsSb :=
  { (default : XfsSb) with
    sbMagicnum := 0x58465342#32
    sbBlocksize := BitVec.ofNat 32 (2 ^ blocklog)
    sbDblocks := BitVec.ofNat 64 (agblocks * agcount)
    sbRootino := BitVec.ofNat 64 rootino
    sbAgblocks := BitVec.ofNat 32 agblocks
    sbAgcount := BitVec.ofNat 32 agcount
    sbSectsize := 512#16
    sbInodesize := BitVec.ofNat 16 (2 ^ inodelog)
    sbInopblock := BitVec.ofNat 16 (2 ^ (blocklog - inodelog))
    sbBlocklog := BitVec.ofNat 8 blocklog
    sbSectlog := 9#8
    sbInodelog := BitVec.ofNat 8 inodelog
    sbInopblog := BitVec.ofNat 8 (blocklog - inodelog)
    sbAgblklog := BitVec.ofNat 8 agblklog }

/-- The core of a short-form directory. -/
def dirCore : XfsIcdinode :=
  { (default : XfsIcdinode) with
    diMagic := 0x494e#16
    diMode := 0o040755#16
    diVersion := 2#8
    diFormat := xfsDinodeFmtLocal }

/-- The core of a regular file of a given size with a given number of extents. -/
def fileCore (size nextents : Nat) : XfsIcdinode :=
  { (default : XfsIcdinode) with
    diMagic := 0x494e#16
    diMode := 0o100644#16
    diVersion := 2#8
    diFormat := xfsDinodeFmtExtents
    diSize := BitVec.ofNat 64 size
    diNextents := BitVec.ofNat 32 nextents }

/-- An image of a given size that begins with a superblock and holds stretches of bytes. -/
def diskImage (sb : XfsSb) (size : BitVec 63) (stretches : List (Nat × List Byte)) :
    FileImage Byte :=
  FileImage.sparse size.toNat ((0, sb.encode) :: stretches) size.isLt

/-- An entry with a name of one byte and a 32-bit inode number. -/
def letterEntry (c : Byte) (ino : BitVec 32) : SfEntry where
  name := [c]
  offset := 0
  ino := ino.setWidth 64
  name_pos := Nat.one_pos
  name_le := Nat.le_add_left 1 254
  ino_lt := by
    rw [BitVec.toNat_setWidth]
    omega

/-- A directory of such entries. -/
def letterDir (parent : BitVec 32) (entries : List (Byte × BitVec 32))
    (length_le : entries.length ≤ 254) : SfDir where
  parent := parent.setWidth 64
  entries := entries.map fun e => letterEntry e.1 e.2
  parent_lt := by
    rw [BitVec.toNat_setWidth]
    omega
  count_le := by
    rw [List.length_map]
    omega
  i8count_le := by
    refine Nat.le_trans List.countP_le_length ?_
    rw [List.length_cons, List.length_map, List.length_map]
    omega

/-- A root directory with one file, inode 9, under the name {lit}`a`. -/
def singleFileDir : SfDir :=
  letterDir 8 [(0x61#8, 9)] (by decide)

/-- A root directory with two files, inodes 9 and 11, under the names {lit}`a` and {lit}`x`. -/
def twoFileDir : SfDir :=
  letterDir 10 [(0x61#8, 9), (0x78#8, 11)] (by decide)

/-- An image with blocks of 512 bytes and one file: its core, its extents, its data, and
the length that the image is cut to. -/
def singleFileImage (core : XfsIcdinode) (extents : List XfsBmbtRecHost)
    (data : List (Nat × List Byte)) (size : BitVec 63) : FileImage Byte :=
  diskImage (geometrySb 9 8 6 64 1 8) size
    ((2048, inodeBytes dirCore singleFileDir.encode) ::
      (2304, inodeBytes core (extents.flatMap XfsBmbtRecHost.encode)) :: data)

end Xfsd
