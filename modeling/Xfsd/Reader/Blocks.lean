import Xfsd.Tslib.ReadFile

/-!
# XFSD - What one block read and one inode read do

Every read of the reader is one transfer from the image.  This module names the
quantities of that transfer, and states the effect of {lit}`read_blocks` and
{lit}`read_inode_relative` once, so that later modules never unfold them.

Main results:

- Theorem {lit}`readBlocks_eq`: a block read is one transfer, and its result does
  not depend on what was transferred.
- Theorem {lit}`readInodeRelative_eq`: an inode read is one transfer of a block to
  the start of the block buffer, with the inode at a fixed offset in it.
- Theorem {lit}`inodeWorld_agree`: the bytes that the transfer reached are bytes of
  the image, whatever the buffer held before.
-/

namespace Xfsd

open Foundation

variable (g : Globals)

/-! ## Block reads -/

/-- The offset that {lit}`read_blocks` seeks to. -/
def blockOffset (block : BitVec 64) : Int :=
  g.build.toLong (block * g.sb.sbBlocksize.setWidth 64)

/-- The offset is the balanced remainder of the linear offset. -/
theorem blockOffset_eq_bmod (block : BitVec 64) :
    blockOffset g block =
      Int.bmod (block.toNat * g.sb.sbBlocksize.toNat : Nat) (2 ^ g.build.bitsPerLong) := by
  have hdvd : 2 ^ g.build.bitsPerLong ∣ 2 ^ 64 := by
    cases g.build <;> exact Nat.pow_dvd_pow 2 (by decide)
  rw [blockOffset, Build.toLong_eq_bmod, BitVec.toNat_mul, BitVec.toNat_setWidth,
    Nat.mod_eq_of_lt (by omega : g.sb.sbBlocksize.toNat < 2 ^ 64)]
  exact bmod_congr ((Nat.mod_modEq _ _).of_dvd hdvd)

/-- The seek goes to a given natural number exactly when it is the linear offset of the
block up to the width of {lit}`long`, and a {lit}`long` can hold it. -/
theorem blockOffset_eq_natCast_iff (block : BitVec 64) (t : Nat) :
    blockOffset g block = (t : Int) ↔
      block.toNat * g.sb.sbBlocksize.toNat ≡ t [MOD 2 ^ g.build.bitsPerLong] ∧
        t < 2 ^ (g.build.bitsPerLong - 1) := by
  rw [blockOffset_eq_bmod, bmod_two_pow_eq_natCast_iff g.build.bitsPerLong_pos]

/-- The offset of a block that a {lit}`long` can hold is linear in its number. -/
theorem blockOffset_eq {block : BitVec 64}
    (h : block.toNat * g.sb.sbBlocksize.toNat < 2 ^ (g.build.bitsPerLong - 1)) :
    blockOffset g block = (block.toNat * g.sb.sbBlocksize.toNat : Nat) :=
  (blockOffset_eq_natCast_iff g block _).mpr ⟨Nat.ModEq.refl _, h⟩

/-- {lit}`sb.sb_blocksize * nmeb`, an unsigned 32-bit product. -/
def blockBytes (nmeb : BitVec 32) : BitVec 64 :=
  (g.sb.sbBlocksize * nmeb).setWidth 64

/-- A read of {lit}`nmeb` blocks stops inside them when {lit}`size` bytes are left. -/
def Partial (nmeb : BitVec 32) (size : BitVec 64) : Prop :=
  size ≠ 0 ∧ size < blockBytes g nmeb

instance (nmeb : BitVec 32) (size : BitVec 64) : Decidable (Partial g nmeb size) :=
  inferInstanceAs (Decidable (_ ∧ _))

/-- What {lit}`read_blocks` returns. -/
def consumed (nmeb : BitVec 32) (size : BitVec 64) : BitVec 64 :=
  if Partial g nmeb size then size else blockBytes g nmeb

/-- How many bytes {lit}`read_blocks` asks {lit}`fread` for. -/
def requested (nmeb : BitVec 32) (size : BitVec 64) : Nat :=
  if Partial g nmeb size then
    g.build.toSizeT (size.setWidth 32) * g.build.toSizeT 1
  else
    g.build.toSizeT g.sb.sbBlocksize * g.build.toSizeT nmeb

/-- A block read is one transfer, and its result does not depend on what was
transferred. -/
theorem readBlocks_eq (mem : Pointer) (block : BitVec 64) (nmeb : BitVec 32)
    (size : BitVec 64) (w : World) :
    readBlocks g mem block nmeb size w =
      (consumed g nmeb size,
        w.transfer g mem (blockOffset g block) (requested g nmeb size)) := by
  by_cases h : Partial g nmeb size
  · rw [consumed, requested, if_pos h, if_pos h, ← readFileLength_world]
    exact if_pos h
  · rw [consumed, requested, if_neg h, if_neg h, ← readFileLength_world]
    exact if_neg h

/-! ## Inode reads -/

/-- The number of bytes that {lit}`cache_block_from_disk` asks for. -/
def blockRequest : Nat :=
  requested g 1 0

theorem blockRequest_eq (h : g.sb.sbBlocksize.toNat < 2 ^ 31) :
    blockRequest g = g.sb.sbBlocksize.toNat := by
  have hone : g.build.toSizeT 1 = 1 := g.build.toSizeT_of_lt (by decide)
  have hcut : ¬Partial g 1 0 := fun h => h.1 rfl
  rw [blockRequest, requested, if_neg hcut, g.build.toSizeT_of_lt h, hone, Nat.mul_one]

/-- The address of an inode in the block buffer. -/
def inodeAddr (inode : BitVec 32) : Int :=
  ((g.sb.sbInodesize.setWidth 64 *
    (inode &&& xfsInoMask g.sb.sbInopblog.toNat).setWidth 64).setWidth 32).toInt

theorem xfsInoMask_toNat {k : Nat} (hk : k ≤ 12) : (xfsInoMask k).toNat = 2 ^ k - 1 := by
  interval_cases k <;> rfl

/-- An inode stands at its index times the inode size, as long as an {lit}`int` can hold it. -/
theorem inodeAddr_eq_of_lt {inode : BitVec 32} (hk : g.sb.sbInopblog.toNat ≤ 12)
    (hslot : g.sb.sbInodesize.toNat * (inode.toNat % 2 ^ g.sb.sbInopblog.toNat) < 2 ^ 31) :
    inodeAddr g inode =
      (g.sb.sbInodesize.toNat * (inode.toNat % 2 ^ g.sb.sbInopblog.toNat) : Nat) := by
  have hoff : (inode &&& xfsInoMask g.sb.sbInopblog.toNat).toNat =
      inode.toNat % 2 ^ g.sb.sbInopblog.toNat := by
    rw [BitVec.toNat_and, xfsInoMask_toNat hk, Nat.and_two_pow_sub_one_eq_mod]
  have hprod : ((g.sb.sbInodesize.setWidth 64 *
      (inode &&& xfsInoMask g.sb.sbInopblog.toNat).setWidth 64).setWidth 32).toNat =
        g.sb.sbInodesize.toNat * (inode.toNat % 2 ^ g.sb.sbInopblog.toNat) := by
    have hle : inode.toNat % 2 ^ g.sb.sbInopblog.toNat ≤ inode.toNat := Nat.mod_le _ _
    rw [BitVec.toNat_setWidth, BitVec.toNat_mul, BitVec.toNat_setWidth, BitVec.toNat_setWidth, hoff,
      Nat.mod_eq_of_lt (by omega : g.sb.sbInodesize.toNat < 2 ^ 64),
      Nat.mod_eq_of_lt (by omega : inode.toNat % 2 ^ g.sb.sbInopblog.toNat < 2 ^ 64),
      Nat.mod_eq_of_lt (by omega), Nat.mod_eq_of_lt (by omega)]
  rw [inodeAddr, BitVec.toInt_eq_toNat_of_lt (by omega), hprod]

/-- Where blocks hold inodes as they should, an inode stands at its index times the inode size. -/
theorem inodeAddr_eq (hgeometry : ValidBlocks g.sb) (inode : BitVec 32) :
    inodeAddr g inode =
      (g.sb.sbInodesize.toNat * (inode.toNat % 2 ^ g.sb.sbInopblog.toNat) : Nat) := by
  have hslot := hgeometry.slot_lt (Nat.mod_lt inode.toNat (Nat.two_pow_pos g.sb.sbInopblog.toNat))
  exact inodeAddr_eq_of_lt g hgeometry.inopblog_le (by omega)

/-- With the header of the first group, the block of an inode is its packed block number. -/
theorem inodeBlock_toNat (hseqno : getAgiSeqno g = 0) (inode : BitVec 32) :
    (inodeBlock g inode).toNat = inode.toNat / 2 ^ g.sb.sbInopblog.toNat := by
  have hle : inode.toNat / 2 ^ g.sb.sbInopblog.toNat ≤ inode.toNat := Nat.div_le_self _ _
  have hbase : g.sb.sbAgblocks * 0 = 0#32 := BitVec.mul_zero
  rw [inodeBlock, hseqno, hbase, BitVec.toNat_add, BitVec.toNat_setWidth,
    BitVec.toNat_setWidth, BitVec.toNat_ushiftRight, Nat.shiftRight_eq_div_pow]
  have hlt : inode.toNat / 2 ^ g.sb.sbInopblog.toNat < 2 ^ 64 := by omega
  rw [BitVec.toNat_ofNat, Nat.zero_mod, Nat.add_zero, Nat.mod_mod,
    Nat.mod_eq_of_lt hlt]

/-- The offset of the block that holds an inode. -/
def inodeOffset (inode : BitVec 32) : Int :=
  blockOffset g (inodeBlock g inode)

/-- The state after an inode has been read. -/
def inodeWorld (inode : BitVec 32) (w : World) : World :=
  { w.transfer g ⟨.blockBuf, 0⟩ (inodeOffset g inode) (blockRequest g) with
    blockBufp := inodeAddr g inode + (g.sb.sbInodesize.setWidth 32).toInt }

/-- An inode read is one transfer of a block to the start of the block buffer, with
the inode at a fixed offset in it. -/
theorem readInodeRelative_eq (inode : BitVec 32) (w : World) :
    readInodeRelative g inode w =
      (some (inodeAddr g inode),
        xfsDinodeFromDisk (inodeWorld g inode w).blockBuf (inodeAddr g inode),
        inodeWorld g inode w) := by
  simp only [readInodeRelative, cacheBlockFromDisk, initMem, readBlocks_eq, zero_add]
  rfl

@[simp]
theorem inodeWorld_mem (inode : BitVec 32) (w : World) :
    (inodeWorld g inode w).mem = w.mem := rfl

@[simp]
theorem inodeWorld_log (inode : BitVec 32) (w : World) :
    (inodeWorld g inode w).log =
      w.log ++ [.seek (inodeOffset g inode) (fseekOk (inodeOffset g inode)),
        .read ⟨.blockBuf, 0⟩ (fseekSet w.pos (inodeOffset g inode)) (blockRequest g)
          (freadBytes g.file (fseekSet w.pos (inodeOffset g inode)) (blockRequest g))] := rfl

@[simp]
theorem inodeWorld_pos (inode : BitVec 32) (w : World) :
    (inodeWorld g inode w).pos =
      fseekSet w.pos (inodeOffset g inode) +
        freadBytes g.file (fseekSet w.pos (inodeOffset g inode)) (blockRequest g) := rfl

/-! ## The part of a block that the image holds -/

/-- How many bytes of an inode's block the image can supply. -/
def blockSupply (inode : BitVec 32) : Nat :=
  if 0 ≤ inodeOffset g inode then
    freadBytes g.file (inodeOffset g inode).toNat (blockRequest g)
  else 0

/-- The block of an inode as the image holds it, zero where the image holds nothing. -/
def blockView (inode : BitVec 32) : Memory Byte :=
  fun a => g.file.getD ((inodeOffset g inode).toNat + a.toNat)

theorem inodeOffset_nonneg_of_supply {inode : BitVec 32} (h : 0 < blockSupply g inode) :
    0 ≤ inodeOffset g inode := by
  by_contra hneg
  simp [blockSupply, hneg] at h

/-- The bytes that the transfer reached are bytes of the image, whatever the buffer
held before. -/
theorem inodeWorld_agree {inode : BitVec 32} {w : World} {a : Int} (hlo : 0 ≤ a)
    (hhi : a < blockSupply g inode) :
    (inodeWorld g inode w).blockBuf a = blockView g inode a := by
  have hoff : 0 ≤ inodeOffset g inode :=
    inodeOffset_nonneg_of_supply g (by omega)
  have hsrc : fseekSet w.pos (inodeOffset g inode) = (inodeOffset g inode).toNat := by
    simp [fseekSet, hoff]
  have hsupply : blockSupply g inode =
      freadBytes g.file (inodeOffset g inode).toNat (blockRequest g) := by
    simp [blockSupply, hoff]
  have hbuf : (inodeWorld g inode w).blockBuf =
      w.blockBuf.patch (freadPatch g.file (inodeOffset g inode).toNat (blockRequest g) 0) := by
    rw [← hsrc]
    exact World.transfer_blockBuf g w 0 (inodeOffset g inode) (blockRequest g)
  have hhits : (freadPatch g.file (inodeOffset g inode).toNat (blockRequest g) 0).Hits a := by
    simp only [Patch.Hits, freadPatch]
    omega
  rw [hbuf, Memory.patch_of_hits hhits]
  simp [freadPatch, blockView]

/-- The image as a memory. -/
def imageMemory (file : FileImage Byte) : Memory Byte :=
  fun a => file.getD a.toNat

/-- Where the image holds the block of an inode, the block buffer holds the image. -/
theorem inodeWorld_eq_image {inode : BitVec 32} {w : World} {start a : Nat}
    (hoffset : inodeOffset g inode = (start : Int)) (hblocksize : g.sb.sbBlocksize.toNat < 2 ^ 31)
    (hblock : a < g.sb.sbBlocksize.toNat) (hheld : start + a < g.file.size) :
    (inodeWorld g inode w).blockBuf (a : Int) = imageMemory g.file (start + a : Nat) := by
  have hsupply : a < blockSupply g inode := by
    rw [blockSupply, hoffset, if_pos (by omega), blockRequest_eq g hblocksize, freadBytes]
    omega
  rw [inodeWorld_agree g (by omega) (by exact_mod_cast hsupply), blockView, hoffset, imageMemory]
  congr 1

end Xfsd
