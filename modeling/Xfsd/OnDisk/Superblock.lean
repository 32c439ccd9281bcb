import Xfsd.Types

/-!
# XFSD - The superblock

The in-core superblock {lit}`xfs_sb_t` and its decoder {lit}`xfs_sb_from_disk`
from {lit}`read_super.c`.  The on-disk {lit}`xfs_dsb_t` is the memory of the static
{lit}`dsb`; the decoder loads every field at its offset in that layout.

Main results:

- Structures {lit}`ValidBlocks` and {lit}`ValidGeometry`: the relation between block
  size, inode size and group size that every superblock made by {lit}`mkfs` satisfies.
- Theorem {lit}`ValidBlocks.slot_le`: an inode lies inside its block.
-/

namespace Xfsd

open Foundation

/-- {lit}`xfs_sb_t`. -/
structure XfsSb where
  sbMagicnum : BitVec 32
  sbBlocksize : BitVec 32
  sbDblocks : BitVec 64
  sbRblocks : BitVec 64
  sbRextents : BitVec 64
  sbUuid : Fin 16 → Byte
  sbLogstart : BitVec 64
  sbRootino : BitVec 64
  sbRbmino : BitVec 64
  sbRsumino : BitVec 64
  sbRextsize : BitVec 32
  sbAgblocks : BitVec 32
  sbAgcount : BitVec 32
  sbRbmblocks : BitVec 32
  sbLogblocks : BitVec 32
  sbVersionnum : BitVec 16
  sbSectsize : BitVec 16
  sbInodesize : BitVec 16
  sbInopblock : BitVec 16
  sbFname : Fin 12 → Byte
  sbBlocklog : BitVec 8
  sbSectlog : BitVec 8
  sbInodelog : BitVec 8
  sbInopblog : BitVec 8
  sbAgblklog : BitVec 8
  sbRextslog : BitVec 8
  sbInprogress : BitVec 8
  sbImaxPct : BitVec 8
  sbIcount : BitVec 64
  sbIfree : BitVec 64
  sbFdblocks : BitVec 64
  sbFrextents : BitVec 64
  sbUquotino : BitVec 64
  sbGquotino : BitVec 64
  sbQflags : BitVec 16
  sbFlags : BitVec 8
  sbSharedVn : BitVec 8
  sbInoalignmt : BitVec 32
  sbUnit : BitVec 32
  sbWidth : BitVec 32
  sbDirblklog : BitVec 8
  sbLogsectlog : BitVec 8
  sbLogsectsize : BitVec 16
  sbLogsunit : BitVec 32
  sbFeatures2 : BitVec 32
  sbBadFeatures2 : BitVec 32
deriving Inhabited

/-- {lit}`sizeof( xfs_sb_t)`, which is also {lit}`sizeof( xfs_dsb_t)`. -/
def sizeofXfsSb : BitVec 32 := 208#32

/-- {lit}`xfs_sb_from_disk`. -/
def xfsSbFromDisk (dsb : Memory Byte) : XfsSb where
  sbMagicnum := be32ToCpu (loadLE32 dsb 0)
  sbBlocksize := be32ToCpu (loadLE32 dsb 4)
  sbDblocks := be64ToCpu (loadLE64 dsb 8)
  sbRblocks := be64ToCpu (loadLE64 dsb 16)
  sbRextents := be64ToCpu (loadLE64 dsb 24)
  sbUuid := fun i => dsb (32 + i.val)
  sbLogstart := be64ToCpu (loadLE64 dsb 48)
  sbRootino := be64ToCpu (loadLE64 dsb 56)
  sbRbmino := be64ToCpu (loadLE64 dsb 64)
  sbRsumino := be64ToCpu (loadLE64 dsb 72)
  sbRextsize := be32ToCpu (loadLE32 dsb 80)
  sbAgblocks := be32ToCpu (loadLE32 dsb 84)
  sbAgcount := be32ToCpu (loadLE32 dsb 88)
  sbRbmblocks := be32ToCpu (loadLE32 dsb 92)
  sbLogblocks := be32ToCpu (loadLE32 dsb 96)
  sbVersionnum := be16ToCpu (loadLE16 dsb 100)
  sbSectsize := be16ToCpu (loadLE16 dsb 102)
  sbInodesize := be16ToCpu (loadLE16 dsb 104)
  sbInopblock := be16ToCpu (loadLE16 dsb 106)
  sbFname := fun i => dsb (108 + i.val)
  sbBlocklog := dsb 120
  sbSectlog := dsb 121
  sbInodelog := dsb 122
  sbInopblog := dsb 123
  sbAgblklog := dsb 124
  sbRextslog := dsb 125
  sbInprogress := dsb 126
  sbImaxPct := dsb 127
  sbIcount := be64ToCpu (loadLE64 dsb 128)
  sbIfree := be64ToCpu (loadLE64 dsb 136)
  sbFdblocks := be64ToCpu (loadLE64 dsb 144)
  sbFrextents := be64ToCpu (loadLE64 dsb 152)
  sbUquotino := be64ToCpu (loadLE64 dsb 160)
  sbGquotino := be64ToCpu (loadLE64 dsb 168)
  sbQflags := be16ToCpu (loadLE16 dsb 176)
  sbFlags := dsb 178
  sbSharedVn := dsb 179
  sbInoalignmt := be32ToCpu (loadLE32 dsb 180)
  sbUnit := be32ToCpu (loadLE32 dsb 184)
  sbWidth := be32ToCpu (loadLE32 dsb 188)
  sbDirblklog := dsb 192
  sbLogsectlog := dsb 193
  sbLogsectsize := be16ToCpu (loadLE16 dsb 194)
  sbLogsunit := be32ToCpu (loadLE32 dsb 196)
  sbFeatures2 := be32ToCpu (loadLE32 dsb 200)
  sbBadFeatures2 := be32ToCpu (loadLE32 dsb 204)

/-! ## Geometry -/

/-- A valid XFS block size: a power of two between 512 and 65536. -/
def ValidBlocksize (bs : Nat) : Prop :=
  ∃ k, 9 ≤ k ∧ k ≤ 16 ∧ bs = 2 ^ k

theorem ValidBlocksize.pos {bs : Nat} (h : ValidBlocksize bs) : 0 < bs := by
  rcases h with ⟨k, -, -, rfl⟩
  exact Nat.two_pow_pos k

theorem ValidBlocksize.le {bs : Nat} (h : ValidBlocksize bs) : bs ≤ 65536 := by
  rcases h with ⟨k, -, hk, rfl⟩
  exact Nat.pow_le_pow_right (by omega) hk

theorem ValidBlocksize.ge {bs : Nat} (h : ValidBlocksize bs) : 512 ≤ bs := by
  rcases h with ⟨k, hk, -, rfl⟩
  have h := Nat.pow_le_pow_right (show 0 < 2 by omega) hk
  omega

/-- A block that fits the reader's buffer holds a power of two of inodes. -/
structure ValidBlocks (sb : XfsSb) : Prop where
  blocksize_eq : sb.sbBlocksize.toNat = sb.sbInodesize.toNat * 2 ^ sb.sbInopblog.toNat
  blocksize_pos : 0 < sb.sbBlocksize.toNat
  blocksize_le : sb.sbBlocksize.toNat ≤ 4096

/-- The fields that locate inodes and blocks fit together: also block numbers within a group
fit the bits that packed numbers reserve for them. -/
structure ValidGeometry (sb : XfsSb) : Prop extends ValidBlocks sb where
  agblocks_le : sb.sbAgblocks.toNat ≤ 2 ^ sb.sbAgblklog.toNat
  agcount_pos : 1 ≤ sb.sbAgcount.toNat

instance (sb : XfsSb) : Decidable (ValidBlocks sb) :=
  decidable_of_iff
    (sb.sbBlocksize.toNat = sb.sbInodesize.toNat * 2 ^ sb.sbInopblog.toNat ∧
      0 < sb.sbBlocksize.toNat ∧ sb.sbBlocksize.toNat ≤ 4096)
    ⟨fun ⟨h1, h2, h3⟩ => ⟨h1, h2, h3⟩, fun ⟨h1, h2, h3⟩ => ⟨h1, h2, h3⟩⟩

instance (sb : XfsSb) : Decidable (ValidGeometry sb) :=
  decidable_of_iff
    (ValidBlocks sb ∧ sb.sbAgblocks.toNat ≤ 2 ^ sb.sbAgblklog.toNat ∧ 1 ≤ sb.sbAgcount.toNat)
    ⟨fun ⟨h1, h2, h3⟩ => ⟨h1, h2, h3⟩, fun ⟨h1, h2, h3⟩ => ⟨h1, h2, h3⟩⟩

namespace ValidBlocks

variable {sb : XfsSb} (h : ValidBlocks sb)

include h

theorem inodesize_pos : 0 < sb.sbInodesize.toNat := by
  have hpos := h.blocksize_pos
  rw [h.blocksize_eq] at hpos
  exact Nat.pos_of_mul_pos_right hpos

/-- A block holds at most 4096 inodes. -/
theorem inopblog_le : sb.sbInopblog.toNat ≤ 12 := by
  have hle := h.blocksize_le
  have hsize := h.inodesize_pos
  rw [h.blocksize_eq] at hle
  by_contra hlarge
  have hpow : 2 ^ 13 ≤ 2 ^ sb.sbInopblog.toNat := Nat.pow_le_pow_right (by omega) (by omega)
  have hmul := Nat.mul_le_mul hsize hpow
  omega

/-- An inode lies inside its block. -/
theorem slot_le {i : Nat} (hi : i < 2 ^ sb.sbInopblog.toNat) :
    sb.sbInodesize.toNat * i + sb.sbInodesize.toNat ≤ sb.sbBlocksize.toNat := by
  rw [h.blocksize_eq, ← Nat.mul_succ]
  exact Nat.mul_le_mul_left _ hi

theorem slot_lt {i : Nat} (hi : i < 2 ^ sb.sbInopblog.toNat) :
    sb.sbInodesize.toNat * i < 4096 := by
  have hle := h.slot_le hi
  have hpos := h.inodesize_pos
  have hblock := h.blocksize_le
  omega

end ValidBlocks

end Xfsd
