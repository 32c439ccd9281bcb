import Xfsd.OnDisk.BmapRecord
import Xfsd.OnDisk.Encode
import Xfsd.Reader.Blocks

/-!
# XFSD - Decoding and reading one extent

One turn of the extent loop decodes a record and hands it to {lit}`read_blocks`.
Decoding inverts packing.  Reading is exact as long as the 32-bit product of the
block size and the block count does not wrap and the bytes left fit an {lit}`int`
where they cut the read short.

Main results:

- Theorem {lit}`extentRecords_bijective`: packing and unpacking are inverse.
- Theorem {lit}`readBlocks_fetch`: a block read is one fetch from the image.
- Theorem {lit}`transfersExactly_iff`: the sizes for which a block read is exact.
-/

namespace Xfsd

open Foundation

/-! ## Records -/

/-- The extent loop decodes the host form of a record. -/
theorem recGetAll_eq (b : Build) (m : Memory Byte) (a : Int) :
    recGetAll b m a = xfsBmbtGetAll b (hostRec m a) := rfl

/-- Packing and unpacking extent records are inverse, in memory and on disk, and the getters of
single fields agree with the whole. -/
theorem extentRecords_bijective :
    (∀ (e : Extent) (m : Memory Byte) (a : Int),
        recGetAll .linux64 (xfsBmbtDiskSetAllf .linux64 m a e.brStartoff e.brStartblock
          e.brBlockcount e.brState) a = e.toXfsBmbtIrec) ∧
      (∀ (e : Extent) (r : XfsBmbtRecHost),
        xfsBmbtGetAll .linux64 (xfsBmbtSetAll .linux64 r e.toXfsBmbtIrec) = e.toXfsBmbtIrec) ∧
      (∀ r r' : XfsBmbtRecHost, xfsBmbtSetAll .linux64 r' (xfsBmbtGetAll .linux64 r) = r) ∧
      (∀ r : XfsBmbtRecHost, GettersAgree .linux64 r) ∧
      ∀ (m : Memory Byte) (a : Int),
        xfsBmbtDiskGetStartoff m a = (recGetAll .linux64 m a).brStartoff ∧
          xfsBmbtDiskGetBlockcount m a = (recGetAll .linux64 m a).brBlockcount := by
  refine ⟨fun e m a => ?_, xfsBmbtGetAll_setAll, xfsBmbtSetAll_getAll, gettersAgree .linux64,
    fun m a => ⟨rfl, rfl⟩⟩
  rw [recGetAll_eq, hostRec_diskSetAllf]
  exact xfsBmbtGetAll_words e

/-! ## Fetches -/

variable (g : Globals)

/-- The state after {lit}`got` of {lit}`asked` bytes of the image, from {lit}`src` on, have been
stored at a pointer. -/
def World.fetch (w : World) (ptr : Pointer) (src asked got : Nat) : World :=
  { w.store ptr.object
      { dst := ptr.offset, len := got, val := fun i => g.file.getD (src + i) } with
    pos := src + got
    log := w.log ++ [.seek src true, .read ptr src asked got] }

theorem World.transfer_natCast (w : World) (ptr : Pointer) (src asked : Nat) :
    w.transfer g ptr (src : Int) asked =
      w.fetch g ptr src asked (freadBytes g.file src asked) := by
  simp only [World.transfer, World.fetch, fseekSet_natCast, fseekOk_natCast]
  rfl

/-- A fetch tells how many bytes it asked for and how many it got. -/
theorem World.fetch_inj {w : World} {ptr : Pointer} {src asked asked' got got' : Nat}
    (h : w.fetch g ptr src asked got = w.fetch g ptr src asked' got') :
    asked = asked' ∧ got = got' := by
  have hlog : (w.fetch g ptr src asked got).log = (w.fetch g ptr src asked' got').log := by rw [h]
  simpa [World.fetch] using hlog

/-- In the 64-bit build, a negative {lit}`int` passes for a huge {lit}`size_t`. -/
theorem toSizeT_of_ge {x : BitVec 32} (h : 2 ^ 31 ≤ x.toNat) :
    Build.linux64.toSizeT x = 2 ^ 64 - 2 ^ 32 + x.toNat := by
  have hmsb : x.msb = true := by
    rw [BitVec.msb_eq_decide]
    simpa using h
  have hlt := x.isLt
  simp only [Build.toSizeT, BitVec.toNat_signExtend, hmsb, if_true, BitVec.toNat_setWidth]
  omega

section Linux64

variable {g} (hb : g.build = .linux64)

include hb

/-- A block read of the 64-bit build is one fetch from the linear offset of the block. -/
theorem readBlocks_fetch {block : BitVec 64}
    (hblock : block.toNat * g.sb.sbBlocksize.toNat < 2 ^ 63) (mem : Pointer) (n : BitVec 32)
    (s : BitVec 64) (w : World) :
    readBlocks g mem block n s w =
      (consumed g n s,
        w.fetch g mem (block.toNat * g.sb.sbBlocksize.toNat) (requested g n s)
          (freadBytes g.file (block.toNat * g.sb.sbBlocksize.toNat) (requested g n s))) := by
  have hoffset : blockOffset g block = (block.toNat * g.sb.sbBlocksize.toNat : Nat) :=
    blockOffset_eq g (by rw [hb]; exact hblock)
  rw [readBlocks_eq, hoffset, World.transfer_natCast]

/-- What a block read that is cut short asks for. -/
theorem requested_of_cut {n : BitVec 32} {s : BitVec 64} (h : Partial g n s) :
    requested g n s = if s.toNat < 2 ^ 31 then s.toNat else 2 ^ 64 - 2 ^ 32 + s.toNat := by
  have hlt : s.toNat < 2 ^ 32 := by
    have hcut := BitVec.lt_def.mp h.2
    have hbytes : (blockBytes g n).toNat < 2 ^ 32 := by
      rw [blockBytes, BitVec.toNat_setWidth]
      omega
    omega
  have hcast : (s.setWidth 32).toNat = s.toNat := by
    rw [BitVec.toNat_setWidth, Nat.mod_eq_of_lt hlt]
  have hone : Build.linux64.toSizeT 1 = 1 := rfl
  rw [requested, if_pos h, hb, hone, Nat.mul_one]
  by_cases hint : s.toNat < 2 ^ 31
  · rw [if_pos hint, Build.toSizeT_of_lt _ (by omega), hcast]
  · rw [if_neg hint, toSizeT_of_ge (by omega), hcast]

/-- What a block read asks for that is not cut short: the product is taken in {lit}`size_t`. -/
theorem requested_of_whole {n : BitVec 32} {s : BitVec 64} (h : ¬Partial g n s)
    (hbs : g.sb.sbBlocksize.toNat < 2 ^ 31) (hn : n.toNat < 2 ^ 31) :
    requested g n s = g.sb.sbBlocksize.toNat * n.toNat := by
  rw [requested, if_neg h, hb, Build.toSizeT_of_lt _ hbs, Build.toSizeT_of_lt _ hn]

end Linux64

/-! ## Exact reads -/

/-- A block read brings exactly as many of the {lit}`s` bytes wanted as the blocks have, and
returns how many these are. -/
structure TransfersExactly (mem : Pointer) (block : BitVec 64) (n : BitVec 32) (s : BitVec 64)
    (w : World) : Prop where
  returned : (readBlocks g mem block n s w).1.toNat =
    min s.toNat (g.sb.sbBlocksize.toNat * n.toNat)
  remaining : (s - (readBlocks g mem block n s w).1).toNat =
    s.toNat - min s.toNat (g.sb.sbBlocksize.toNat * n.toNat)
  transferred : ∃ asked, (readBlocks g mem block n s w).2 =
    w.fetch g mem (block.toNat * g.sb.sbBlocksize.toNat) asked
      (min s.toNat (g.sb.sbBlocksize.toNat * n.toNat))

/-- The sizes for which the arithmetic of a block read does not show: {lit}`bytes` in the
blocks, {lit}`s` wanted, {lit}`rest` in the image from the first block on.  Either all the bytes
are wanted and their number has 32 bits, or fewer are wanted than the number says when it is cut
to 32 bits, and an {lit}`int` holds how many; or the image ends with the last byte wanted. -/
def SizesFit (bytes s rest : Nat) : Prop :=
  (bytes ≤ s ∧ bytes < 2 ^ 32) ∨ (s < bytes % 2 ^ 32 ∧ s < 2 ^ 31) ∨
    (s < bytes ∧ s ≤ bytes % 2 ^ 32 ∧ rest = s)

/-- A block read of the 64-bit build is exact exactly when the sizes fit. -/
theorem transfersExactly_iff (hb : g.build = .linux64)
    (hbs : ValidBlocksize g.sb.sbBlocksize.toNat) (mem : Pointer) {block : BitVec 64}
    {n : BitVec 32} {s : BitVec 64} (w : World)
    (hblock : block.toNat * g.sb.sbBlocksize.toNat < 2 ^ 63) (hn : n.toNat < 2 ^ 21)
    (hs : 0 < s.toNat)
    (hlong : block.toNat * g.sb.sbBlocksize.toNat +
      min s.toNat (g.sb.sbBlocksize.toNat * n.toNat) ≤ g.file.size) :
    TransfersExactly g mem block n s w ↔
      SizesFit (g.sb.sbBlocksize.toNat * n.toNat) s.toNat
        (g.file.size - block.toNat * g.sb.sbBlocksize.toNat) := by
  have hbsle := hbs.le
  have hbytes : (blockBytes g n).toNat = g.sb.sbBlocksize.toNat * n.toNat % 2 ^ 32 := by
    rw [blockBytes, BitVec.toNat_setWidth, BitVec.toNat_mul]
    omega
  have hsize := g.file.size_lt
  have hread := readBlocks_fetch hb hblock mem n s w
  -- what is to be shown about the result and about the number of bytes that arrive
  have hexact : TransfersExactly g mem block n s w ↔
      (consumed g n s).toNat = min s.toNat (g.sb.sbBlocksize.toNat * n.toNat) ∧
        freadBytes g.file (block.toNat * g.sb.sbBlocksize.toNat) (requested g n s) =
          min s.toNat (g.sb.sbBlocksize.toNat * n.toNat) := by
    constructor
    · intro h
      rcases h with ⟨hreturned, -, asked, htransferred⟩
      rw [hread] at hreturned htransferred
      exact ⟨hreturned, (World.fetch_inj g htransferred).2⟩
    · intro h
      rcases h with ⟨hreturned, hgot⟩
      have hle : (consumed g n s).toNat ≤ s.toNat := by omega
      have hsub := BitVec.toNat_sub_of_le (BitVec.le_def.mpr hle)
      refine ⟨?_, ?_, requested g n s, ?_⟩
      · rw [hread]
        exact hreturned
      · rw [hread, hsub, hreturned]
      · rw [hread, hgot]
  rw [hexact, freadBytes, SizesFit]
  generalize block.toNat * g.sb.sbBlocksize.toNat = offset at *
  by_cases hcut : Partial g n s
  · -- the read is cut short: the count of bytes goes through an int
    have hlt := BitVec.lt_def.mp hcut.2
    rw [hbytes] at hlt
    rw [consumed, if_pos hcut, requested_of_cut hb hcut]
    generalize g.sb.sbBlocksize.toNat * n.toNat = bytes at *
    by_cases hint : s.toNat < 2 ^ 31
    · rw [if_pos hint]
      omega
    · rw [if_neg hint]
      omega
  · -- the whole extent is read: the result is the product cut to 32 bits
    have hle : (blockBytes g n).toNat ≤ s.toNat := by
      by_contra hlt
      refine hcut ⟨fun hzero => ?_, BitVec.lt_def.mpr (by omega)⟩
      rw [hzero] at hs
      simp at hs
    rw [hbytes] at hle
    rw [consumed, if_neg hcut, hbytes,
      requested_of_whole hb hcut (by omega) (by omega)]
    generalize g.sb.sbBlocksize.toNat * n.toNat = bytes at *
    omega

/-- An image with blocks of 512 bytes. -/
def smallBlocks : Globals :=
  (init .linux64 (diskImage (geometrySb 9 8 6 64 1 8) 8192 [])).1

/-- Of two blocks, 1000 bytes are read. -/
theorem transfersExactly_smallBlocks :
    TransfersExactly smallBlocks ⟨.mem, 0⟩ 4 2 1000 (startWorld 0 zeroed) := by
  have hbs : smallBlocks.sb.sbBlocksize.toNat = 512 := by decide +kernel
  have hsize : smallBlocks.file.size = 8192 := by decide +kernel
  have hvalid : ValidBlocksize smallBlocks.sb.sbBlocksize.toNat :=
    ⟨9, by omega, by omega, hbs⟩
  refine (transfersExactly_iff smallBlocks rfl hvalid ⟨.mem, 0⟩ (startWorld 0 zeroed) ?_
    (by decide) (by decide) ?_).mpr ?_
  · rw [hbs]
    decide
  · rw [hbs, hsize]
    decide
  · rw [hbs, hsize]
    exact Or.inr (Or.inl (by decide))

/-- An image with blocks of 64 KiB. -/
def largeBlocks : Globals :=
  (init .linux64 (diskImage (geometrySb 16 8 6 64 1 8) (2 ^ 34) [])).1

/-- The size of an extent of 4 GiB wraps to 0, and 0 is returned. -/
theorem not_transfersExactly_largeBlocks :
    largeBlocks.build = .linux64 ∧ largeBlocks.sb.sbBlocksize.toNat = 2 ^ 16 ∧
      largeBlocks.file.size = 2 ^ 34 ∧
      ∀ w, ¬TransfersExactly largeBlocks ⟨.mem, 0⟩ 16 65536 (2 ^ 32) w := by
  have hbs : largeBlocks.sb.sbBlocksize.toNat = 2 ^ 16 := by decide +kernel
  refine ⟨rfl, hbs, by decide +kernel, fun w h => ?_⟩
  have hconsumed : consumed largeBlocks 65536 (2 ^ 32) = 0 := by decide +kernel
  have hreturned : (0 : BitVec 64).toNat = min (2 ^ 32 : BitVec 64).toNat (2 ^ 16 * 65536) := by
    have hmin := h.returned
    rw [readBlocks_eq, hconsumed, hbs] at hmin
    exact hmin
  exact absurd hreturned (by decide)

end Xfsd
