import Xfsd.Foundation.Probe
import Xfsd.Reader.Extents

/-!
# XFSD - What the reader looks at in a block

What the reader does after it has read an inode depends on the bytes of the block
buffer that it looks at.  This module writes the lookup of one path component and the
checks on the final inode as computations that look at one byte after the other, and
look at no byte that the outcome does not depend on.

Main results:

- Theorem {lit}`run_lookupProbe`: the lookup of a component, byte by byte.
- Theorems {lit}`readContent_of_error` and {lit}`readContent_of_ok`: the work on the
  final inode, byte by byte.
-/

namespace Xfsd

open Foundation

/-! ## Names -/

/-- {lit}`strncmp` on a string in memory. -/
def strNcmpProbe : Int → (Nat → Byte) → Nat → Probe Byte Int
  | _, _, 0 => pure 0
  | a, s2, n + 1 => do
      let c ← .peek a
      if c ≠ s2 0 then pure (c.toNat - (s2 0).toNat)
      else if c = 0 then pure 0
      else strNcmpProbe (a + 1) (fun i => s2 (i + 1)) n

theorem run_strNcmpProbe (m : Memory Byte) (a : Int) (s2 : Nat → Byte) (n : Nat) :
    (strNcmpProbe a s2 n).run m = strNcmp (fun i => m (a + i)) s2 n := by
  induction n generalizing a s2 with
  | zero => rfl
  | succ n ih =>
      have hshift : (fun i : Nat => m (a + 1 + i)) = fun i : Nat => m (a + (i + 1 : Nat)) := by
        funext i
        congr 1
        omega
      have hfirst : m (a + (0 : Nat)) = m a := by
        congr 1
        omega
      rw [strNcmpProbe, strNcmp]
      simp only [Probe.run_peek_bind, Probe.run_ite, Probe.run_pure, ih, hshift, hfirst]

/-! ## Directories -/

/-- The comparison of the entry loop. -/
def sfEntryMatches (m : Memory Byte) (fileName : List Byte) (nameLen : BitVec 32)
    (entptr : Int) : Prop :=
  nameLen = (sfepNamelen m entptr).setWidth 32 ∧
    strNcmp (fun i => m (sfepName entptr + i)) (fun i => fileName.getD i 0) nameLen.toNat = 0

instance (m : Memory Byte) (fileName : List Byte) (nameLen : BitVec 32) (entptr : Int) :
    Decidable (sfEntryMatches m fileName nameLen entptr) :=
  inferInstanceAs (Decidable (_ ∧ _))

theorem sfScan_succ (m : Memory Byte) (hdrptr : Int) (fileName : List Byte)
    (nameLen : BitVec 32) (tot : Nat) (entptr : Int) :
    sfScan m hdrptr fileName nameLen (tot + 1) entptr =
      if sfEntryMatches m fileName nameLen entptr then
        { found := some (xfsDir2SfeGetIno m hdrptr entptr), seen := [entptr] }
      else
        let r := sfScan m hdrptr fileName nameLen tot (xfsDir2SfNextentry m hdrptr entptr)
        { r with seen := entptr :: r.seen } :=
  rfl

/-- The comparison with an entry whose name has a given length: the name is looked at only if
its length is right. -/
def sfNameProbe (fileName : List Byte) (nameLen : BitVec 32) (entptr : Int) (namelen : Byte) :
    Probe Byte Bool :=
  if nameLen = namelen.setWidth 32 then do
    let cmp ← strNcmpProbe (sfepName entptr) (fun i => fileName.getD i 0) nameLen.toNat
    pure (cmp = 0)
  else pure false

theorem run_sfNameProbe (m : Memory Byte) (fileName : List Byte) (nameLen : BitVec 32)
    (entptr : Int) :
    (sfNameProbe fileName nameLen entptr (sfepNamelen m entptr)).run m =
      decide (sfEntryMatches m fileName nameLen entptr) := by
  unfold sfNameProbe sfEntryMatches
  by_cases hlen : nameLen = (sfepNamelen m entptr).setWidth 32
  · rw [if_pos hlen]
    simp only [Probe.run_bind, run_strNcmpProbe, Probe.run_pure, ← hlen, true_and]
  · rw [if_neg hlen]
    simp [hlen]

/-- The inode number of an entry, in the format of the directory. -/
def sfInoProbe (i8count : Byte) (src : Int) : Probe Byte (BitVec 64) :=
  if i8count ≠ 0 then do
    let ino ← probeBE64 src
    pure (ino &&& 0x00ffffffffffffff#64)
  else do
    let ino ← probeBE32 src
    pure (ino.setWidth 64)

theorem run_sfInoProbe (m : Memory Byte) (hdrptr src : Int) :
    (sfInoProbe (sfHdrI8count m hdrptr) src).run m = xfsDir2SfGetIno m hdrptr src := by
  unfold sfInoProbe xfsDir2SfGetIno getUnalignedBe64 getUnalignedBe32
  simp only [Probe.run_ite, run_probeBE64_bind, run_probeBE32_bind, Probe.run_pure,
    be64ToCpu_loadLE64, be32ToCpu_loadLE32]

/-- The entry loop, in a directory with a given {lit}`i8count`. -/
def sfScanProbe (i8count : Byte) (fileName : List Byte) (nameLen : BitVec 32) :
    Nat → Int → Probe Byte (Option (BitVec 64))
  | 0, _ => pure none
  | tot + 1, entptr => do
      let namelen ← .peek entptr
      if ← sfNameProbe fileName nameLen entptr namelen then
        let ino ← sfInoProbe i8count (sfepName entptr + namelen.toNat)
        pure (some ino)
      else
        sfScanProbe i8count fileName nameLen tot
          (entptr + (3 + namelen.toNat + (if i8count ≠ 0 then 8 else 4)))

theorem run_sfScanProbe (m : Memory Byte) (hdrptr : Int) (fileName : List Byte)
    (nameLen : BitVec 32) (tot : Nat) (entptr : Int) :
    (sfScanProbe (sfHdrI8count m hdrptr) fileName nameLen tot entptr).run m =
      (sfScan m hdrptr fileName nameLen tot entptr).found := by
  induction tot generalizing entptr with
  | zero => rfl
  | succ tot ih =>
      have hname := run_sfNameProbe m fileName nameLen entptr
      have hnext : entptr + (3 + (m entptr).toNat +
          (if sfHdrI8count m hdrptr ≠ 0 then 8 else 4)) = xfsDir2SfNextentry m hdrptr entptr := rfl
      have hino : sfepName entptr + (m entptr).toNat = xfsDir2SfeInop m entptr := rfl
      have hlen : sfepNamelen m entptr = m entptr := rfl
      rw [hlen] at hname
      rw [sfScanProbe, sfScan_succ]
      rw [Probe.run_peek_bind, Probe.run_bind, hname]
      by_cases hmatch : sfEntryMatches m fileName nameLen entptr
      · rw [decide_eq_true hmatch, if_pos rfl, if_pos hmatch, Probe.run_bind, hino, run_sfInoProbe]
        rfl
      · rw [decide_eq_false hmatch, if_neg Bool.false_ne_true, if_neg hmatch, hnext, ih]

/-- The lookup of one component in the inode at an address. -/
def lookupProbe (raw : Int) (fileName : List Byte) (nextIno : BitVec 64) :
    Probe Byte (Except Int (List Byte × BitVec 64)) := do
  let diMode ← probeBE16 (raw + 2)
  if diMode.setWidth 32 &&& sIfmt = sIfdir then
    let diFormat ← .peek (raw + 5)
    if diFormat ≠ xfsDinodeFmtLocal then pure (.error (-3))
    else
      let count ← .peek (xfsDforkDptr raw)
      let i8count ← .peek (xfsDforkDptr raw + 1)
      if count = 0 ↔ i8count = 0 then pure (.error (-2))
      else
        let found ← sfScanProbe i8count fileName (componentLen fileName)
          (count.toNat + i8count.toNat) (xfsDforkDptr raw + xfsDir2SfHdrSize i8count)
        match found with
        | some ino => pure (.ok (skipComponent fileName, ino))
        | none =>
            if fileName ≠ skipComponent fileName then pure (.error (-4))
            else pure (.ok (fileName, nextIno))
  else pure (.error (-3))

/-- The lookup of a component, byte by byte. -/
theorem run_lookupProbe (m : Memory Byte) (raw : Int) (fileName : List Byte)
    (nextIno : BitVec 64) :
    (lookupProbe raw fileName nextIno).run m =
      lookupStep m raw (xfsDinodeFromDisk m raw) fileName nextIno := by
  have hdirIff : (loadBE16 m (raw + 2)).setWidth 32 &&& sIfmt = sIfdir ↔
      (xfsDinodeFromDisk m raw).IsDir := by
    simp only [XfsIcdinode.IsDir, xfsDinodeFromDisk, be16ToCpu_loadLE16]
  have hformat : m (raw + 5) = (xfsDinodeFromDisk m raw).diFormat := rfl
  have hcount : m (xfsDforkDptr raw) = sfHdrCount m (xfsDforkDptr raw) := rfl
  have hi8count : m (xfsDforkDptr raw + 1) = sfHdrI8count m (xfsDforkDptr raw) := rfl
  have hfirst : xfsDforkDptr raw + xfsDir2SfHdrSize (sfHdrI8count m (xfsDforkDptr raw)) =
      xfsDir2SfFirstentry m (xfsDforkDptr raw) := rfl
  unfold lookupProbe
  simp only [Probe.run_peek_bind, Probe.run_ite, run_probeBE16_bind, Probe.run_pure, hdirIff,
    hformat, hcount, hi8count, hfirst]
  by_cases hdir : (xfsDinodeFromDisk m raw).IsDir
  · rw [if_pos hdir]
    by_cases hlocal : (xfsDinodeFromDisk m raw).diFormat = xfsDinodeFmtLocal
    · rw [if_neg (not_not.mpr hlocal)]
      by_cases hcounts : sfHdrCount m (xfsDforkDptr raw) = 0 ↔ sfHdrI8count m (xfsDforkDptr raw) = 0
      · rw [if_pos hcounts, lookupStep_of_counts ⟨hdir, hlocal⟩ hcounts]
      · rw [if_neg hcounts, lookupStep_of_scan ⟨hdir, hlocal⟩ hcounts, Probe.run_bind,
          run_sfScanProbe]
        have hscan : (sfScan m (xfsDforkDptr raw) fileName (componentLen fileName)
            ((sfHdrCount m (xfsDforkDptr raw)).toNat + (sfHdrI8count m (xfsDforkDptr raw)).toNat)
            (xfsDir2SfFirstentry m (xfsDforkDptr raw))).found = (sfLookup m raw fileName).found :=
          rfl
        rw [hscan]
        cases (sfLookup m raw fileName).found with
        | some ino => rfl
        | none => exact Probe.run_ite m _ _ _
    · rw [if_pos hlocal, lookupStep_of_not_dir fun hboth => hlocal hboth.2]
  · rw [if_neg hdir, lookupStep_of_not_dir fun hboth => hdir hboth.1]

/-! ## The final inode -/

/-- The extent records from an address on. -/
def recordsProbe (b : Build) : Nat → Int → Probe Byte (List XfsBmbtIrec)
  | 0, _ => pure []
  | tot + 1, recp => do
      let l0 ← probeBE64 recp
      let l1 ← probeBE64 (recp + 8)
      let rest ← recordsProbe b tot (recp + sizeofXfsBmbtRec)
      pure (xfsBmbtGetAll b { l0 := l0, l1 := l1 } :: rest)

theorem run_recordsProbe (b : Build) (m : Memory Byte) (tot : Nat) (recp : Int) :
    (recordsProbe b tot recp).run m = records b m tot recp := by
  induction tot generalizing recp with
  | zero => rfl
  | succ tot ih =>
      rw [recordsProbe, records, recGetAll]
      rw [run_probeBE64_bind, run_probeBE64_bind, Probe.run_bind, ih, Probe.run_pure,
        be64ToCpu_loadLE64, be64ToCpu_loadLE64]

/-- The checks on the final inode: the code that refuses it, or the file size and the extents. -/
def contentProbe (b : Build) (raw : Int) (size : BitVec 64) :
    Probe Byte (Except Int (BitVec 64 × List XfsBmbtIrec)) := do
  let diMode ← probeBE16 (raw + 2)
  if diMode.setWidth 32 &&& (if sIfmt ≠ sIfreg then 1#32 else 0#32) ≠ 0 then pure (.error (-3))
  else
    let diFormat ← .peek (raw + 5)
    if diFormat ≠ xfsDinodeFmtExtents then pure (.error (-3))
    else
      let diSize ← probeBE64 (raw + 56)
      if size < diSize then pure (.error (-5))
      else
        let tot ← probeBE32 (raw + 76)
        let extents ← recordsProbe b tot.toNat (xfsDforkDptr raw)
        pure (.ok (diSize, extents))

/-- The checks on the final inode, byte by byte. -/
theorem run_contentProbe (g : Globals) (m : Memory Byte) (raw : Int) (size : BitVec 64) :
    (contentProbe g.build raw size).run m =
      if (xfsDinodeFromDisk m raw).TypeTest then .error (-3)
      else if (xfsDinodeFromDisk m raw).diFormat ≠ xfsDinodeFmtExtents then .error (-3)
      else if size < rawDiSize m raw then .error (-5)
      else .ok (rawDiSize m raw, extentsAt g m raw) := by
  have htype : (loadBE16 m (raw + 2)).setWidth 32 &&& (if sIfmt ≠ sIfreg then 1#32 else 0#32) ≠ 0 ↔
      (xfsDinodeFromDisk m raw).TypeTest := by
    simp only [XfsIcdinode.TypeTest, xfsDinodeFromDisk, be16ToCpu_loadLE16]
  have hformat : m (raw + 5) = (xfsDinodeFromDisk m raw).diFormat := rfl
  have hsize : loadBE64 m (raw + 56) = rawDiSize m raw := by
    rw [rawDiSize, be64ToCpu_loadLE64]
  have htot : loadBE32 m (raw + 76) = xfsDforkNextents m raw := by
    rw [xfsDforkNextents, be32ToCpu_loadLE32]
  unfold contentProbe extentsAt
  simp only [Probe.run_peek_bind, Probe.run_ite, run_probeBE16_bind, run_probeBE32_bind,
    run_probeBE64_bind, Probe.run_pure, htype, hformat, hsize, htot]
  rw [Probe.run_bind, run_recordsProbe, Probe.run_pure]

section Content

variable (g : Globals) {raw : Int} {size : BitVec 64} {w : World}

/-- A final inode that does not pass the checks is refused, and the state stays as it was. -/
theorem readContent_of_error {e : Int}
    (h : (contentProbe g.build raw size).run w.blockBuf = .error e) :
    readContent g raw (xfsDinodeFromDisk w.blockBuf raw) size w = (e, w) := by
  rw [run_contentProbe] at h
  split at h
  · cases h
    exact readContent_of_typeTest g ‹_›
  · split at h
    · cases h
      exact readContent_of_format g ‹_› ‹_›
    · split at h
      · cases h
        exact readContent_of_lt g ‹_› (not_not.mp ‹_›) ‹_›
      · cases h

/-- A final inode that passes the checks is copied, and the reader returns 0. -/
theorem readContent_of_ok {diSize : BitVec 64} {extents : List XfsBmbtIrec}
    (h : (contentProbe g.build raw size).run w.blockBuf = .ok (diSize, extents)) :
    (readContent g raw (xfsDinodeFromDisk w.blockBuf raw) size w).1 = 0 ∧
      (readContent g raw (xfsDinodeFromDisk w.blockBuf raw) size w).2.mem =
        delivered g (plan g extents diSize w.pos) w.mem := by
  rw [run_contentProbe] at h
  split at h
  · cases h
  · split at h
    · cases h
    · split at h
      · cases h
      · cases h
        rcases readContent_of_admits g
          (⟨‹_›, not_not.mp ‹_›, ‹_›⟩ : Admits w.blockBuf raw _ size) with ⟨pos, hread⟩
        rw [hread]
        exact ⟨rfl, rfl⟩

end Content

end Xfsd
