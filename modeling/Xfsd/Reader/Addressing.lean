import Xfsd.OnDisk.Lossless
import Xfsd.Reader.Blocks
import Xfsd.OnDisk.Encode

/-!
# XFSD - Where the reader seeks to

Packed inode and block numbers name an allocation group and a place in it, while
the image is linear.  This module settles where the reader looks for an extent
and for an inode, in every allocation group and in both builds.

Main results:

- Theorem {lit}`samePlace_iff`: the two builds read an extent record alike exactly
  when its start block and its offset fit 32 bits.
- Theorem {lit}`readsBlocksAt_iff`: the blocks of an extent are read where they are
  exactly when its group starts where the packed number says.
- Theorem {lit}`decodesInodeAt_iff`: an inode is decoded from its own place exactly
  when its packed block number is the linear one.
-/

namespace Xfsd

open Foundation

/-! ## Seeks in the log -/

/-- The offset of a seek. -/
def IoEvent.seekOffset : IoEvent → Option Int
  | .seek offset _ => some offset
  | .read _ _ _ _ => none

/-- The offsets that the program has passed to {lit}`seek_file_set`, in order. -/
def World.seeks (w : World) : List Int :=
  w.log.filterMap IoEvent.seekOffset

@[simp]
theorem World.transfer_seeks (g : Globals) (ptr : Pointer) (offset : Int) (asked : Nat)
    (w : World) : (w.transfer g ptr offset asked).seeks = w.seeks ++ [offset] := by
  simp [World.seeks, IoEvent.seekOffset]

/-- A block read makes one seek. -/
theorem readBlocks_seeks (g : Globals) (mem : Pointer) (block : BitVec 64) (nmeb : BitVec 32)
    (size : BitVec 64) (w : World) :
    (readBlocks g mem block nmeb size w).2.seeks = w.seeks ++ [blockOffset g block] := by
  rw [readBlocks_eq, World.transfer_seeks]

/-- An inode read makes one seek. -/
theorem inodeWorld_seeks (g : Globals) (inode : BitVec 32) (w : World) :
    (inodeWorld g inode w).seeks = w.seeks ++ [inodeOffset g inode] := by
  simp [World.seeks, IoEvent.seekOffset]

/-! ## Extent records -/

/-- The offset of an extent is that of its 52-bit start block, up to the width of
{lit}`long`. -/
theorem extentOffset_eq_bmod (g : Globals) (r : XfsBmbtRecHost) :
    blockOffset g (xfsBmbtGetAll g.build r).brStartblock =
      Int.bmod (r.startblock * g.sb.sbBlocksize.toNat : Nat) (2 ^ g.build.bitsPerLong) := by
  rw [blockOffset_eq_bmod]
  exact bmod_congr ((brStartblock_modEq g.build r).mul_right _)

/-- The program compiled for another build, on the same file system. -/
def Globals.compiled (g : Globals) (b : Build) : Globals :=
  { g with build := b }

/-- Both builds decode the record alike, and every read of its blocks passes the same
offset to {lit}`seek_file_set`. -/
def SamePlace (g : Globals) (r : XfsBmbtRecHost) : Prop :=
  xfsBmbtGetAll .win32 r = xfsBmbtGetAll .linux64 r ∧
    ∀ (mem : Pointer) (size : BitVec 64) (w : World),
      (readBlocks (g.compiled .win32) mem (xfsBmbtGetAll .win32 r).brStartblock
          ((xfsBmbtGetAll .win32 r).brBlockcount.setWidth 32) size w).2.seeks =
        (readBlocks (g.compiled .linux64) mem (xfsBmbtGetAll .linux64 r).brStartblock
          ((xfsBmbtGetAll .linux64 r).brBlockcount.setWidth 32) size w).2.seeks

/-- The decoders of the two builds agree exactly on 32-bit start blocks. -/
theorem xfsBmbtGetAll_builds_eq_iff (r : XfsBmbtRecHost) :
    xfsBmbtGetAll .win32 r = xfsBmbtGetAll .linux64 r ↔ r.startblock < 2 ^ 32 := by
  constructor
  · intro h
    have hblock := congrArg (fun e => e.brStartblock.toNat) h
    simp only [brStartblock_toNat_win32, brStartblock_toNat_linux64] at hblock
    omega
  · intro h
    have hblock : (xfsBmbtGetAll .win32 r).brStartblock =
        (xfsBmbtGetAll .linux64 r).brStartblock := by
      apply BitVec.eq_of_toNat_eq
      rw [brStartblock_toNat_win32, brStartblock_toNat_linux64, Nat.mod_eq_of_lt h]
    exact congrArg (fun block =>
      { xfsBmbtGetAll .linux64 r with brStartblock := block }) hblock

/-- A product of two 32-bit numbers is the same signed word in 32 and in 64 bits exactly
when it is below both sign bits. -/
theorem bmod_builds_eq_iff {p : Nat} (hp : p ≤ (2 ^ 32 - 1) * (2 ^ 32 - 1)) :
    Int.bmod p (2 ^ 32) = Int.bmod p (2 ^ 64) ↔ p < 2 ^ 31 := by
  simp only [Int.bmod_def]
  omega

/-- The two builds read a record's blocks at the same place exactly when its start block
has 32 bits and its offset has 31. -/
theorem samePlace_iff (g : Globals) (r : XfsBmbtRecHost) :
    SamePlace g r ↔
      r.startblock < 2 ^ 32 ∧ r.startblock * g.sb.sbBlocksize.toNat < 2 ^ 31 := by
  unfold SamePlace
  rw [xfsBmbtGetAll_builds_eq_iff]
  apply and_congr_right
  intro hblock
  have hle : r.startblock * g.sb.sbBlocksize.toNat ≤ (2 ^ 32 - 1) * (2 ^ 32 - 1) :=
    Nat.mul_le_mul (by omega) (by omega)
  have hwin := extentOffset_eq_bmod (g.compiled .win32) r
  have hlinux := extentOffset_eq_bmod (g.compiled .linux64) r
  rw [← bmod_builds_eq_iff hle]
  simp only [readBlocks_seeks, List.append_cancel_left_eq, List.cons.injEq, and_true]
  constructor
  · intro hseeks
    have hseek := hseeks ⟨.mem, 0⟩ 0 (startWorld 0 zeroed)
    exact hwin.symm.trans (hseek.trans hlinux)
  · intro hword _ _ _
    exact hwin.trans (Eq.trans hword hlinux.symm)

/-- A file system of one group that goes on past 2 GB. -/
def largeFileSystem : Globals :=
  (init .linux64 (diskImage (geometrySb 12 8 20 1048576 1 128) 0x100000000#63 [])).1

/-- The two builds part at the first block past 2 GB, a well-formed extent of one block. -/
theorem not_samePlace_largeFileSystem :
    largeFileSystem.sb.sbBlocksize = 4096#32 ∧
      ¬SamePlace largeFileSystem (extentRecord 0 524288 1) := by
  refine ⟨by decide +kernel, fun h => ?_⟩
  have hseeks := h.2 ⟨.mem, 0⟩ 4096 (startWorld 0 zeroed)
  rw [readBlocks_seeks, readBlocks_seeks] at hseeks
  simp only [List.append_cancel_left_eq, List.cons.injEq, and_true] at hseeks
  exact absurd hseeks (by decide +kernel)

/-! ## Extents in every allocation group -/

/-- Every read of the extent passes an offset to {lit}`seek_file_set` from which its
blocks are the linear blocks {lit}`loc`, {lit}`loc + 1`, and so on. -/
def ReadsBlocksAt (g : Globals) (e : XfsBmbtIrec) (loc : Nat) : Prop :=
  ∀ (mem : Pointer) (size : BitVec 64) (w : World), ∃ offset,
    (readBlocks g mem e.brStartblock (e.brBlockcount.setWidth 32) size w).2.seeks =
        w.seeks ++ [offset] ∧
      ∀ k < e.brBlockcount.toNat,
        offset + ((k * g.sb.sbBlocksize.toNat : Nat) : Int) =
          ((loc + k) * g.sb.sbBlocksize.toNat : Nat)

theorem readsBlocksAt_iff_offset (g : Globals) (e : XfsBmbtIrec) (loc : Nat) :
    ReadsBlocksAt g e loc ↔
      e.brBlockcount.toNat = 0 ∨
        blockOffset g e.brStartblock = (loc * g.sb.sbBlocksize.toNat : Nat) := by
  have hblock : ∀ k : Nat, ((loc + k) * g.sb.sbBlocksize.toNat : Nat) =
      loc * g.sb.sbBlocksize.toNat + k * g.sb.sbBlocksize.toNat := fun k => Nat.add_mul _ _ _
  constructor
  · intro h
    rcases h ⟨.mem, 0⟩ 0 (startWorld 0 zeroed) with ⟨offset, hseek, hoffset⟩
    rw [readBlocks_seeks] at hseek
    simp only [List.append_cancel_left_eq, List.cons.injEq, and_true] at hseek
    rcases Nat.eq_zero_or_pos e.brBlockcount.toNat with hzero | hpos
    · exact Or.inl hzero
    · have hfirst := hoffset 0 hpos
      rw [hblock] at hfirst
      right
      rw [hseek]
      omega
  · intro h mem size w
    refine ⟨_, readBlocks_seeks g mem _ _ size w, fun k hk => ?_⟩
    rcases h with hzero | hoffset
    · omega
    · rw [hoffset, hblock]
      omega

/-- The blocks of an extent in group {lit}`agno` from block {lit}`agbno` on are read where
they are exactly when the packed group number is the linear one, and a {lit}`long` can
hold the offset. -/
theorem readsBlocksAt_iff (g : Globals) (r : XfsBmbtRecHost) {agno agbno : Nat}
    (hblocksize : 0 < g.sb.sbBlocksize.toNat)
    (hagblocks : g.sb.sbAgblocks.toNat ≤ 2 ^ g.sb.sbAgblklog.toNat)
    (hfsb : r.startblock = agno <<< g.sb.sbAgblklog.toNat ||| agbno)
    (hagbno : agbno + (xfsBmbtGetAll g.build r).brBlockcount.toNat ≤ g.sb.sbAgblocks.toNat) :
    ReadsBlocksAt g (xfsBmbtGetAll g.build r) (agno * g.sb.sbAgblocks.toNat + agbno) ↔
      (xfsBmbtGetAll g.build r).brBlockcount.toNat = 0 ∨
        agno * 2 ^ g.sb.sbAgblklog.toNat = agno * g.sb.sbAgblocks.toNat ∧
          r.startblock * g.sb.sbBlocksize.toNat < 2 ^ (g.build.bitsPerLong - 1) := by
  rw [readsBlocksAt_iff_offset]
  rcases Nat.eq_zero_or_pos (xfsBmbtGetAll g.build r).brBlockcount.toNat with hzero | hpos
  · simp [hzero]
  have hstart : r.startblock = agno * 2 ^ g.sb.sbAgblklog.toNat + agbno := by
    rw [hfsb, shiftLeft_or_eq _ (by omega)]
  apply or_congr_right
  rw [extentOffset_eq_bmod, bmod_two_pow_eq_natCast_iff g.build.bitsPerLong_pos, hstart]
  have hdouble : 2 ^ (g.build.bitsPerLong - 1) ≤ 2 ^ g.build.bitsPerLong :=
    Nat.pow_le_pow_right (by omega) (by omega)
  constructor
  · intro h
    rcases h with ⟨hmod, hlt⟩
    have hgroups := packed_unit_eq_linear hblocksize (by omega) hagblocks hmod
      (lt_of_lt_of_le hlt hdouble)
    exact ⟨hgroups, hgroups ▸ hlt⟩
  · intro h
    rcases h with ⟨hgroups, hlt⟩
    rw [hgroups] at hlt ⊢
    exact ⟨Nat.ModEq.refl _, hlt⟩

/-- A file system of two groups whose size is not a power of two. -/
def twoGroups : Globals :=
  (init .linux64 (diskImage (geometrySb 9 8 6 40 2 8) 40960 [])).1

/-- An extent in the first group is read where it is. -/
theorem readsBlocksAt_firstGroup :
    ReadsBlocksAt twoGroups (xfsBmbtGetAll twoGroups.build (extentRecord 0 5 1))
      (0 * twoGroups.sb.sbAgblocks.toNat + 5) :=
  (readsBlocksAt_iff twoGroups (extentRecord 0 5 1) (by decide +kernel) (by decide +kernel)
    (by decide +kernel) (by decide +kernel)).mpr (by decide +kernel)

/-- An extent of one block in the second group is read from another place: block 5 of that
group is linear block 45, and the reader seeks to block 69. -/
theorem not_readsBlocksAt_secondGroup :
    ValidGeometry twoGroups.sb ∧ 1 < twoGroups.sb.sbAgcount.toNat ∧
      (extentRecord 0 69 1).startblock = 1 <<< twoGroups.sb.sbAgblklog.toNat ||| 5 ∧
      5 + (xfsBmbtGetAll twoGroups.build (extentRecord 0 69 1)).brBlockcount.toNat ≤
        twoGroups.sb.sbAgblocks.toNat ∧
      ¬ReadsBlocksAt twoGroups (xfsBmbtGetAll twoGroups.build (extentRecord 0 69 1))
        (1 * twoGroups.sb.sbAgblocks.toNat + 5) := by
  refine ⟨by decide +kernel, by decide +kernel, by decide +kernel, by decide +kernel, ?_⟩
  rw [readsBlocksAt_iff_offset]
  decide +kernel

/-! ## Inodes in every allocation group -/

/-- From every state of the reader, reading the inode decodes the bytes at one image offset:
the seek and the place in the block add up to it, and where the image holds the inode,
the core is the one stored there. -/
def DecodesInodeAt (g : Globals) (ino : BitVec 64) (offset : Nat) : Prop :=
  ∀ w : World, ∃ (raw : Int) (core : XfsIcdinode) (w' : World) (seek : Int),
    readInodeRelative g (ino.setWidth 32) w = (some raw, core, w') ∧
      w'.seeks = w.seeks ++ [seek] ∧ seek + raw = offset ∧
      (96 ≤ g.sb.sbInodesize.toNat → offset + g.sb.sbInodesize.toNat ≤ g.file.size →
        core = xfsDinodeFromDisk (imageMemory g.file) offset)

/-- The place that an inode is decoded from. -/
theorem DecodesInodeAt.place {g : Globals} {ino : BitVec 64} {offset : Nat}
    (h : DecodesInodeAt g ino offset) :
    inodeOffset g (ino.setWidth 32) + inodeAddr g (ino.setWidth 32) = offset := by
  rcases h (startWorld 0 zeroed) with ⟨raw, core, w', seek, hread, hseek, hplace, -⟩
  rw [readInodeRelative_eq] at hread
  cases hread
  rw [inodeWorld_seeks] at hseek
  simp only [List.append_cancel_left_eq, List.cons.injEq, and_true] at hseek
  rw [hseek]
  exact hplace

section PackedInode

variable {g : Globals} {ino : BitVec 64} {agno agbno off : Nat}

/-- The fields of a packed inode number. -/
theorem packedInode_toNat (hagbno : agbno < 2 ^ g.sb.sbAgblklog.toNat)
    (hoff : off < 2 ^ g.sb.sbInopblog.toNat)
    (hino : ino.toNat = agno <<< (g.sb.sbAgblklog.toNat + g.sb.sbInopblog.toNat) |||
      agbno <<< g.sb.sbInopblog.toNat ||| off) :
    ino.toNat =
      (agno * 2 ^ g.sb.sbAgblklog.toNat + agbno) * 2 ^ g.sb.sbInopblog.toNat + off := by
  rw [hino, Nat.shiftLeft_add, ← Nat.shiftLeft_or_distrib, shiftLeft_or_eq _ hoff,
    shiftLeft_or_eq _ hagbno]

/-- The block that the reader seeks to for a packed inode number is the linear block of the
inode exactly when the packed group number is the linear one, the number has 32 bits, and
a {lit}`long` can hold the offset. -/
theorem inodeOffset_eq_linear_iff (hgeometry : ValidGeometry g.sb) (hseqno : getAgiSeqno g = 0)
    (hagbno : agbno < g.sb.sbAgblocks.toNat) (hoff : off < 2 ^ g.sb.sbInopblog.toNat)
    (hino : ino.toNat =
      (agno * 2 ^ g.sb.sbAgblklog.toNat + agbno) * 2 ^ g.sb.sbInopblog.toNat + off) :
    inodeOffset g (ino.setWidth 32) =
        ((agno * g.sb.sbAgblocks.toNat + agbno) * g.sb.sbBlocksize.toNat : Nat) ↔
      agno * 2 ^ g.sb.sbAgblklog.toNat = agno * g.sb.sbAgblocks.toNat ∧ ino.toNat < 2 ^ 32 ∧
        (agno * g.sb.sbAgblocks.toNat + agbno) * g.sb.sbBlocksize.toNat <
          2 ^ (g.build.bitsPerLong - 1) := by
  have hk := hgeometry.inopblog_le
  have hsize := hgeometry.inodesize_pos
  have hagblocks := hgeometry.agblocks_le
  have hbs := hgeometry.blocksize_eq
  have hbsle := hgeometry.blocksize_le
  have hbspos := hgeometry.blocksize_pos
  have hcpos : 0 < 2 ^ g.sb.sbInopblog.toNat := Nat.two_pow_pos _
  have hcle : 2 ^ g.sb.sbInopblog.toNat ≤ 2 ^ 12 := Nat.pow_le_pow_right (by omega) hk
  have hdvd : 2 ^ g.sb.sbInopblog.toNat ∣ 2 ^ 32 := Nat.pow_dvd_pow 2 (by omega)
  rw [inodeOffset, blockOffset_eq_natCast_iff, inodeBlock_toNat g hseqno, BitVec.toNat_setWidth]
  generalize hL : g.sb.sbAgblklog.toNat = L at *
  generalize ha : g.sb.sbAgblocks.toNat = a at *
  generalize hc : 2 ^ g.sb.sbInopblog.toNat = c at *
  generalize hs : g.sb.sbInodesize.toNat = s at *
  generalize hB : g.sb.sbBlocksize.toNat = bs at *
  -- the number as the reader sees it, and its block up to the width of the parameter
  rcases cut_packed hdvd hoff hino with ⟨hseen, hblock⟩
  have hlt32 : ino.toNat % 2 ^ 32 < 2 ^ 32 := Nat.mod_lt _ (by omega)
  generalize ino.toNat % 2 ^ 32 / c = b at *
  have hunits : ∀ n, n * bs = n * c * s := fun n => by
    rw [hbs, Nat.mul_comm s c, Nat.mul_assoc]
  constructor
  · intro h
    rcases h with ⟨hmod, hlt⟩
    cases hbuild : g.build with
    | linux64 =>
        rw [hbuild] at hmod hlt
        simp only [Build.bitsPerLong] at hmod hlt
        have hsmall : b * bs < 2 ^ 64 := by
          rw [hunits]
          have hsle : s ≤ bs := hbs ▸ Nat.le_mul_of_pos_right s hcpos
          have hle := Nat.mul_le_mul (show b * c ≤ 2 ^ 32 by omega) (le_trans hsle hbsle)
          omega
        have hb : b = agno * a + agbno :=
          Nat.eq_of_mul_eq_mul_right hbspos (hmod.eq_of_lt_of_lt hsmall (by omega))
        rw [hb] at hblock hseen
        have hgroups := packed_unit_eq_linear hcpos (by omega) hagblocks hblock (by omega)
        refine ⟨hgroups, ?_, hlt⟩
        rw [hgroups] at hino
        omega
    | win32 =>
        rw [hbuild] at hmod hlt
        simp only [Build.bitsPerLong] at hmod hlt
        have hpacked : (agno * 2 ^ L + agbno) * bs ≡ (agno * a + agbno) * bs [MOD 2 ^ 32] := by
          refine Nat.ModEq.trans ?_ hmod
          rw [hunits, hunits]
          exact hblock.mul_right s
        have hgroups := packed_unit_eq_linear hbspos (by omega) hagblocks hpacked (by omega)
        refine ⟨hgroups, ?_, hlt⟩
        have hle : (agno * a + agbno) * c ≤ (agno * a + agbno) * bs := by
          rw [hunits]
          exact Nat.le_mul_of_pos_right _ hsize
        rw [hgroups] at hino
        omega
  · intro h
    rcases h with ⟨hgroups, hlt32', hlt⟩
    have hb : b = agno * a + agbno := by
      rw [Nat.mod_eq_of_lt hlt32', hino, hgroups] at hseen
      exact Nat.eq_of_mul_eq_mul_right hcpos (by omega)
    rw [hb]
    exact ⟨Nat.ModEq.refl _, hlt⟩

/-- The reader decodes a packed inode number from the inode's own place exactly when the
packed group number is the linear one, the number has 32 bits, and a {lit}`long` can hold
the offset of its block. -/
theorem decodesInodeAt_iff (hgeometry : ValidGeometry g.sb) (hseqno : getAgiSeqno g = 0)
    (hagbno : agbno < g.sb.sbAgblocks.toNat) (hoff : off < 2 ^ g.sb.sbInopblog.toNat)
    (hino : ino.toNat = agno <<< (g.sb.sbAgblklog.toNat + g.sb.sbInopblog.toNat) |||
      agbno <<< g.sb.sbInopblog.toNat ||| off) :
    DecodesInodeAt g ino
        ((agno * g.sb.sbAgblocks.toNat + agbno) * g.sb.sbBlocksize.toNat +
          off * g.sb.sbInodesize.toNat) ↔
      agno * 2 ^ g.sb.sbAgblklog.toNat = agno * g.sb.sbAgblocks.toNat ∧ ino.toNat < 2 ^ 32 ∧
        (agno * g.sb.sbAgblocks.toNat + agbno) * g.sb.sbBlocksize.toNat <
          2 ^ (g.build.bitsPerLong - 1) := by
  have hino' := packedInode_toNat
    (lt_of_lt_of_le hagbno hgeometry.agblocks_le) hoff hino
  have hslot : (ino.setWidth 32).toNat % 2 ^ g.sb.sbInopblog.toNat = off := by
    have hdvd : 2 ^ g.sb.sbInopblog.toNat ∣ 2 ^ 32 :=
      Nat.pow_dvd_pow 2 (le_trans hgeometry.inopblog_le (by omega))
    rw [BitVec.toNat_setWidth, Nat.mod_mod_of_dvd _ hdvd, hino', Nat.mul_comm, Nat.mul_add_mod,
      Nat.mod_eq_of_lt hoff]
  have haddr : inodeAddr g (ino.setWidth 32) = (off * g.sb.sbInodesize.toNat : Nat) := by
    rw [inodeAddr_eq g hgeometry.toValidBlocks, hslot, Nat.mul_comm]
  rw [← inodeOffset_eq_linear_iff hgeometry hseqno hagbno hoff hino']
  constructor
  · intro h
    have hplace := h.place
    rw [haddr] at hplace
    omega
  · intro hoffset w
    refine ⟨_, _, _, _, readInodeRelative_eq g _ w, inodeWorld_seeks g _ w, ?_, ?_⟩
    · rw [hoffset, haddr]
      push_cast
      rfl
    · intro hsize hheld
      apply xfsDinodeFromDisk_congr
      intro i hi
      have hslot := hgeometry.slot_le hoff
      rw [Nat.mul_comm] at hslot
      have hblocksize := hgeometry.blocksize_le
      have himage := inodeWorld_eq_image g (w := w) (a := off * g.sb.sbInodesize.toNat + i)
        hoffset (by omega) (by omega) (by omega)
      rw [← Nat.add_assoc] at himage
      rw [haddr]
      exact_mod_cast himage

end PackedInode

/-- An inode in the first group is decoded from its own place. -/
theorem decodesInodeAt_firstGroup :
    DecodesInodeAt twoGroups 11
      ((0 * twoGroups.sb.sbAgblocks.toNat + 5) * twoGroups.sb.sbBlocksize.toNat +
        1 * twoGroups.sb.sbInodesize.toNat) :=
  (decodesInodeAt_iff (by decide +kernel) (by decide +kernel) (by decide +kernel)
    (by decide +kernel) (by decide +kernel)).mpr (by decide +kernel)

/-- An inode in the second group is decoded from another place: its block is linear block
45, and the reader seeks to block 69. -/
theorem not_decodesInodeAt_secondGroup :
    ValidGeometry twoGroups.sb ∧ getAgiSeqno twoGroups = 0 ∧
      1 < twoGroups.sb.sbAgcount.toNat ∧ 5 < twoGroups.sb.sbAgblocks.toNat ∧
      (139#64).toNat =
        1 <<< (twoGroups.sb.sbAgblklog.toNat + twoGroups.sb.sbInopblog.toNat) |||
          5 <<< twoGroups.sb.sbInopblog.toNat ||| 1 ∧
      ¬DecodesInodeAt twoGroups 139
        ((1 * twoGroups.sb.sbAgblocks.toNat + 5) * twoGroups.sb.sbBlocksize.toNat +
          1 * twoGroups.sb.sbInodesize.toNat) := by
  refine ⟨by decide +kernel, by decide +kernel, by decide +kernel, by decide +kernel,
    by decide +kernel, fun h => ?_⟩
  exact absurd h.place (by decide +kernel)

end Xfsd
