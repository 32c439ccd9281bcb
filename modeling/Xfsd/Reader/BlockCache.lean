import Xfsd.Reader.Calls
import Xfsd.OnDisk.Encode

/-!
# XFSD - The block buffer

{lit}`cache_block_from_disk` reads a block into a static buffer of 4096 bytes, and two
calls of {lit}`init_mem` hand out the inode in it.  Block size, inode size and the
number of inodes per block come from three fields of the superblock, and nothing
compares them with the size of the buffer.

Main results:

- Theorem {lit}`readInodeRelative_slice`: the inode that is handed out lies in the block.
- Theorem {lit}`holdsInode_iff`: the buffer holds the block exactly when it has 4096
  bytes, or the image ends before the buffer does.
-/

namespace Xfsd

open Foundation

/-! ## Geometries -/

/-- A superblock geometry that XFS allows, with the logarithms of its block size and inode
size. -/
structure AllowedGeometry (sb : XfsSb) (blocklog inodelog : Nat) : Prop where
  blocklog_ge : 9 ≤ blocklog
  blocklog_le : blocklog ≤ 16
  inodelog_ge : 8 ≤ inodelog
  inodelog_le : inodelog ≤ 11
  inodelog_le_blocklog : inodelog ≤ blocklog
  blocksize_eq : sb.sbBlocksize.toNat = 2 ^ blocklog
  inodesize_eq : sb.sbInodesize.toNat = 2 ^ inodelog
  inopblog_eq : sb.sbInopblog.toNat = blocklog - inodelog

namespace AllowedGeometry

variable {sb : XfsSb} {blocklog inodelog : Nat} (h : AllowedGeometry sb blocklog inodelog)

include h

theorem blocksize_le : sb.sbBlocksize.toNat ≤ 65536 := by
  rw [h.blocksize_eq]
  exact Nat.pow_le_pow_right (by omega) h.blocklog_le

theorem inopblog_le : sb.sbInopblog.toNat ≤ 8 := by
  have hlog := h.inopblog_eq
  have hle := h.blocklog_le
  have hge := h.inodelog_ge
  omega

/-- A block holds a power of two of inodes. -/
theorem blocksize_eq_mul :
    sb.sbBlocksize.toNat = 2 ^ sb.sbInopblog.toNat * sb.sbInodesize.toNat := by
  have hle := h.inodelog_le_blocklog
  rw [h.blocksize_eq, h.inodesize_eq, h.inopblog_eq, ← Nat.pow_add]
  congr 1
  omega

/-- An inode lies inside its block. -/
theorem slot_le (ino : Nat) :
    (ino % 2 ^ sb.sbInopblog.toNat + 1) * sb.sbInodesize.toNat ≤ sb.sbBlocksize.toNat := by
  rw [h.blocksize_eq_mul]
  exact Nat.mul_le_mul_right _ (Nat.mod_lt ino (Nat.two_pow_pos _))

end AllowedGeometry

/-! ## The block and the inode in it -/

variable (g : Globals)

/-- {lit}`cache_block_from_disk` stores the byte at an index of {lit}`block_buf`. -/
def CacheStoresAt (block : BitVec 64) (w : World) (i : Int) : Prop :=
  ∃ ev ∈ (cacheBlockFromDisk g block w).log.drop w.log.length, ev.StoresTo .blockBuf i

instance (block : BitVec 64) (w : World) (i : Int) : Decidable (CacheStoresAt g block w i) :=
  inferInstanceAs (Decidable (∃ ev ∈ _, IoEvent.StoresTo .blockBuf i ev))

/-- The index of an inode in its block. -/
def inodeSlot (inode : BitVec 32) : Nat :=
  inode.toNat % 2 ^ g.sb.sbInopblog.toNat

/-- The block of an inode is stored inside {lit}`block_buf`, and what the two calls of
{lit}`init_mem` hand out is the inode's slot in it. -/
structure HoldsInode (inode : BitVec 32) (w : World) : Prop where
  inside : ∀ i, CacheStoresAt g (inodeBlock g inode) w i → 0 ≤ i ∧ i < 4096
  first : (readInodeRelative g inode w).1 =
    some ((inodeSlot g inode * g.sb.sbInodesize.toNat : Nat) : Int)
  last : (readInodeRelative g inode w).2.2.blockBufp =
    ((inodeSlot g inode + 1) * g.sb.sbInodesize.toNat : Nat)
  inBlock : (inodeSlot g inode + 1) * g.sb.sbInodesize.toNat ≤ g.sb.sbBlocksize.toNat

/-- A block is stored from the start of the buffer, as far as the image supplies it. -/
theorem cacheStoresAt_iff (inode : BitVec 32) (w : World) (i : Int) :
    CacheStoresAt g (inodeBlock g inode) w i ↔
      0 ≤ i ∧
        i < freadBytes g.file (fseekSet w.pos (inodeOffset g inode)) (blockRequest g) := by
  have hlog : (cacheBlockFromDisk g (inodeBlock g inode) w).log =
      (inodeWorld g inode w).log := by
    rw [cacheBlockFromDisk, readBlocks_eq]
    rfl
  rw [CacheStoresAt, hlog, inodeWorld_log, List.drop_left]
  simp [IoEvent.StoresTo]

variable {g} {blocklog inodelog : Nat}

/-- The two calls of {lit}`init_mem` hand out the slot of the inode, which lies in the
block. -/
theorem readInodeRelative_slice (hgeometry : AllowedGeometry g.sb blocklog inodelog)
    (inode : BitVec 32) (w : World) :
    (readInodeRelative g inode w).1 =
        some ((inodeSlot g inode * g.sb.sbInodesize.toNat : Nat) : Int) ∧
      (readInodeRelative g inode w).2.2.blockBufp =
        ((inodeSlot g inode + 1) * g.sb.sbInodesize.toNat : Nat) ∧
      (inodeSlot g inode + 1) * g.sb.sbInodesize.toNat ≤ g.sb.sbBlocksize.toNat := by
  have hslot : (inodeSlot g inode + 1) * g.sb.sbInodesize.toNat ≤ g.sb.sbBlocksize.toNat :=
    hgeometry.slot_le inode.toNat
  have hblock := hgeometry.blocksize_le
  have hk := hgeometry.inopblog_le
  have hsucc : (inodeSlot g inode + 1) * g.sb.sbInodesize.toNat =
      inodeSlot g inode * g.sb.sbInodesize.toNat + g.sb.sbInodesize.toNat := Nat.succ_mul _ _
  have hcomm : g.sb.sbInodesize.toNat * (inode.toNat % 2 ^ g.sb.sbInopblog.toNat) =
      inodeSlot g inode * g.sb.sbInodesize.toNat := Nat.mul_comm _ _
  have haddr : inodeAddr g inode = (inodeSlot g inode * g.sb.sbInodesize.toNat : Nat) := by
    rw [inodeAddr_eq_of_lt g (by omega) (by omega), hcomm]
  have hsize : (g.sb.sbInodesize.setWidth 32).toInt = (g.sb.sbInodesize.toNat : Int) := by
    rw [BitVec.toInt_eq_toNat_of_lt] <;> rw [BitVec.toNat_setWidth] <;> omega
  refine ⟨?_, ?_, hslot⟩
  · rw [readInodeRelative_eq, haddr]
  · rw [readInodeRelative_eq]
    change inodeAddr g inode + (g.sb.sbInodesize.setWidth 32).toInt = _
    rw [haddr, hsize, hsucc, Nat.cast_add]

/-- The buffer holds the block of an inode exactly when the block has at most 4096 bytes, or
the image ends at most 4096 bytes behind the place that is read. -/
theorem holdsInode_iff (hgeometry : AllowedGeometry g.sb blocklog inodelog)
    (inode : BitVec 32) (w : World) :
    HoldsInode g inode w ↔
      g.sb.sbBlocksize.toNat ≤ 4096 ∨
        g.file.size ≤ fseekSet w.pos (inodeOffset g inode) + 4096 := by
  have hblock := hgeometry.blocksize_le
  have hrequest : blockRequest g = g.sb.sbBlocksize.toNat := blockRequest_eq g (by omega)
  have hgot : freadBytes g.file (fseekSet w.pos (inodeOffset g inode)) (blockRequest g) ≤ 4096 ↔
      g.sb.sbBlocksize.toNat ≤ 4096 ∨
        g.file.size ≤ fseekSet w.pos (inodeOffset g inode) + 4096 := by
    rw [hrequest, freadBytes]
    omega
  rw [← hgot]
  constructor
  · intro h
    by_contra hlarge
    have hlast := h.inside 4096 ((cacheStoresAt_iff g inode w 4096).mpr (by omega))
    omega
  · intro hle
    rcases readInodeRelative_slice hgeometry inode w with ⟨hfirst, hlast, hin⟩
    refine ⟨fun i hi => ?_, hfirst, hlast, hin⟩
    rcases (cacheStoresAt_iff g inode w i).mp hi with ⟨hlo, hhi⟩
    omega

/-- A file system with blocks of {lit}`2 ^ blocklog` bytes and inodes of 256 bytes. -/
def blocksOf (blocklog : Nat) : Globals :=
  (init .linux64 (diskImage (geometrySb blocklog 8 6 64 1 64) 0x100000#63 [])).1

theorem allowedGeometry_blocksOf_twelve : AllowedGeometry (blocksOf 12).sb 12 8 := by
  constructor <;> decide +kernel

/-- Blocks of 4096 bytes are held. -/
theorem holdsInode_fourKilobytes : HoldsInode (blocksOf 12) 65 (startWorld 0 zeroed) :=
  (holdsInode_iff allowedGeometry_blocksOf_twelve 65 _).mpr (Or.inl (by decide +kernel))

/-- Blocks of 8192 bytes are not: the byte behind the buffer is overwritten. -/
theorem not_holdsInode_eightKilobytes :
    AllowedGeometry (blocksOf 13).sb 13 8 ∧
      ¬HoldsInode (blocksOf 13) 65 (startWorld 0 zeroed) := by
  refine ⟨by constructor <;> decide +kernel, fun h => ?_⟩
  have hstores : CacheStoresAt (blocksOf 13) (inodeBlock (blocksOf 13) 65)
      (startWorld 0 zeroed) 4096 := by
    decide +kernel
  exact absurd (h.inside 4096 hstores).2 (by decide)

end Xfsd
