import Xfsd.Foundation.Loop
import Xfsd.Tslib.ReadSuper
import Xfsd.OnDisk.Dinode
import Xfsd.OnDisk.BmapBtree
import Xfsd.OnDisk.Dir2Sf

/-!
# XFSD - Reading a file by its path

{lit}`read_file.c`: blocks are read into a static buffer or the caller's buffer,
inodes are decoded in the static buffer, the path is walked one component at a
time through short-form directories, and the extents of the final inode are
copied to the caller.  No result of a seek or a read is looked at.

Paths are the bytes before the terminating NUL; a pointer into the path is the
suffix that it points to.

Main results:

- Definition {lit}`readFileFromDisk`: the whole reader.
- Theorem {lit}`walkStep_decreases`: the path loop terminates on every path.
-/

namespace Xfsd

open Foundation

variable (g : Globals)

/-! ## Blocks -/

/-- {lit}`read_blocks`. -/
def readBlocks (mem : Pointer) (block : BitVec 64) (nmeb : BitVec 32) (size : BitVec 64)
    (w : World) : BitVec 64 × World :=
  let offset := g.build.toLong (block * g.sb.sbBlocksize.setWidth 64)
  if size ≠ 0 ∧ size < (g.sb.sbBlocksize * nmeb).setWidth 64 then
    (size, (readFileLength g mem offset (size.setWidth 32) 1 w).2)
  else
    ((g.sb.sbBlocksize * nmeb).setWidth 64,
      (readFileLength g mem offset g.sb.sbBlocksize nmeb w).2)

/-- {lit}`cache_block_from_disk`. -/
def cacheBlockFromDisk (block : BitVec 64) (w : World) : World :=
  { (readBlocks g ⟨.blockBuf, 0⟩ block 1 0 w).2 with blockBufp := 0 }

/-- {lit}`init_mem`: hand out the next {lit}`size` bytes of the block buffer. -/
def initMem (size : BitVec 32) (w : World) : Int × World :=
  (w.blockBufp, { w with blockBufp := w.blockBufp + size.toInt })

/-! ## Inodes -/

/-- {lit}`XFS_INO_MASK`. -/
def xfsInoMask (k : Nat) : BitVec 32 :=
  ((1#64 <<< k) - 1#64).setWidth 32

/-- The block that {lit}`read_inode_relative` reads for an inode. -/
def inodeBlock (inode : BitVec 32) : BitVec 64 :=
  (inode >>> g.sb.sbInopblog.toNat).setWidth 64 +
    (g.sb.sbAgblocks * getAgiSeqno g).setWidth 64

/-- {lit}`read_inode_relative`: the address of the inode in the block buffer, never
NULL, and the decoded inode core. -/
def readInodeRelative (inode : BitVec 32) (w : World) :
    Option Int × XfsIcdinode × World :=
  let w := cacheBlockFromDisk g (inodeBlock g inode) w
  let offset := (inode &&& xfsInoMask g.sb.sbInopblog.toNat).setWidth 64
  let (_, w) := initMem ((g.sb.sbInodesize.setWidth 64 * offset).setWidth 32) w
  let (temp, w) := initMem (g.sb.sbInodesize.setWidth 32) w
  (some temp, xfsDinodeFromDisk w.blockBuf temp, w)

/-! ## One path component -/

/-- The byte {lit}`'/'`. -/
def slash : Byte := 0x2f#8

/-- The scan {lit}`while ( *tail && *tail != '/') ++tail`. -/
def skipComponent : List Byte → List Byte
  | [] => []
  | c :: rest => if c ≠ 0 ∧ c ≠ slash then skipComponent rest else c :: rest

/-- What the entry loop found, and the entries it looked at, in order. -/
structure SfScan where
  found : Option (BitVec 64)
  seen : List Int

/-- The loop {lit}`while( tot--)` over the entries of a short-form directory. -/
def sfScan (m : Memory Byte) (hdrptr : Int) (fileName : List Byte) (nameLen : BitVec 32) :
    Nat → Int → SfScan
  | 0, _ => { found := none, seen := [] }
  | tot + 1, entptr =>
      if nameLen = (sfepNamelen m entptr).setWidth 32 ∧
          strNcmp (fun i => m (sfepName entptr + i)) (fun i => fileName.getD i 0)
            nameLen.toNat = 0 then
        { found := some (xfsDir2SfeGetIno m hdrptr entptr), seen := [entptr] }
      else
        let r := sfScan m hdrptr fileName nameLen tot (xfsDir2SfNextentry m hdrptr entptr)
        { r with seen := entptr :: r.seen }

/-- The name that the loop looks for ends where {lit}`tail` points. -/
def componentLen (fileName : List Byte) : BitVec 32 :=
  BitVec.ofNat 32 (fileName.length - (skipComponent fileName).length)

/-- The directory scan of one component, from the header of the directory at
{lit}`raw` and with the number of iterations of the source's {lit}`tot`. -/
def sfLookup (m : Memory Byte) (raw : Int) (fileName : List Byte) : SfScan :=
  let hdrptr := xfsDforkDptr raw
  let tot := (sfHdrCount m hdrptr).toNat + (sfHdrI8count m hdrptr).toNat
  sfScan m hdrptr fileName (componentLen fileName) tot (xfsDir2SfFirstentry m hdrptr)

/-- The body of the path loop after the inode has been read: the new
{lit}`file_name` and {lit}`next_ino`, or the code that the reader returns. -/
def lookupStep (m : Memory Byte) (raw : Int) (cur : XfsIcdinode) (fileName : List Byte)
    (nextIno : BitVec 64) : Except Int (List Byte × BitVec 64) :=
  if cur.IsDir then
    if cur.diFormat ≠ xfsDinodeFmtLocal then
      .error (-3)
    else
      let hdrptr := xfsDforkDptr raw
      if (sfHdrCount m hdrptr = 0) ≠ (sfHdrI8count m hdrptr = 0) then
        let tail := skipComponent fileName
        let (fileName', nextIno') :=
          match (sfLookup m raw fileName).found with
          | some ino => (tail, ino)
          | none => (fileName, nextIno)
        if fileName' ≠ tail then .error (-4) else .ok (fileName', nextIno')
      else
        .error (-2)
  else
    .error (-3)

theorem length_skipComponent_le (p : List Byte) : (skipComponent p).length ≤ p.length := by
  induction p with
  | nil => simp [skipComponent]
  | cons c rest ih =>
      unfold skipComponent
      split
      · exact Nat.le_succ_of_le ih
      · exact Nat.le_refl _

/-- A lookup in anything but a short-form directory. -/
theorem lookupStep_of_not_dir {m : Memory Byte} {raw : Int} {cur : XfsIcdinode}
    {fileName : List Byte} {nextIno : BitVec 64}
    (h : ¬(cur.IsDir ∧ cur.diFormat = xfsDinodeFmtLocal)) :
    lookupStep m raw cur fileName nextIno = .error (-3) := by
  unfold lookupStep
  by_cases hdir : cur.IsDir
  · rw [if_pos hdir, if_pos fun hformat => h ⟨hdir, hformat⟩]
  · rw [if_neg hdir]

/-- A lookup in a short-form directory whose two counters are both zero or both not. -/
theorem lookupStep_of_counts {m : Memory Byte} {raw : Int} {cur : XfsIcdinode}
    {fileName : List Byte} {nextIno : BitVec 64}
    (h : cur.IsDir ∧ cur.diFormat = xfsDinodeFmtLocal)
    (hcounts : sfHdrCount m (xfsDforkDptr raw) = 0 ↔ sfHdrI8count m (xfsDforkDptr raw) = 0) :
    lookupStep m raw cur fileName nextIno = .error (-2) := by
  unfold lookupStep
  rw [if_pos h.1, if_neg (not_not.mpr h.2)]
  exact if_neg (not_not.mpr (propext hcounts))

/-- A lookup in a short-form directory with exactly one counter zero is its scan; an
unsuccessful scan is an error unless the component is empty. -/
theorem lookupStep_of_scan {m : Memory Byte} {raw : Int} {cur : XfsIcdinode}
    {fileName : List Byte} {nextIno : BitVec 64}
    (h : cur.IsDir ∧ cur.diFormat = xfsDinodeFmtLocal)
    (hcounts : ¬(sfHdrCount m (xfsDforkDptr raw) = 0 ↔
      sfHdrI8count m (xfsDforkDptr raw) = 0)) :
    lookupStep m raw cur fileName nextIno =
      match (sfLookup m raw fileName).found with
      | some ino => .ok (skipComponent fileName, ino)
      | none =>
          if fileName ≠ skipComponent fileName then .error (-4)
          else .ok (fileName, nextIno) := by
  have hne : (sfHdrCount m (xfsDforkDptr raw) = 0) ≠ (sfHdrI8count m (xfsDforkDptr raw) = 0) :=
    fun heq => hcounts (iff_of_eq heq)
  unfold lookupStep
  rw [if_pos h.1, if_neg (not_not.mpr h.2)]
  dsimp only
  rw [if_pos hne]
  cases (sfLookup m raw fileName).found with
  | some ino => simp
  | none => rfl

/-- What a lookup can come to: a code, or the path pointer at the end of the component. -/
theorem lookupStep_cases (m : Memory Byte) (raw : Int) (cur : XfsIcdinode)
    (fileName : List Byte) (nextIno : BitVec 64) :
    (∃ e, lookupStep m raw cur fileName nextIno = .error e ∧ -4 ≤ e ∧ e < 0) ∨
      ∃ ino, lookupStep m raw cur fileName nextIno = .ok (skipComponent fileName, ino) := by
  by_cases h : cur.IsDir ∧ cur.diFormat = xfsDinodeFmtLocal
  · by_cases hcounts :
        sfHdrCount m (xfsDforkDptr raw) = 0 ↔ sfHdrI8count m (xfsDforkDptr raw) = 0
    · exact Or.inl ⟨-2, lookupStep_of_counts h hcounts, by simp⟩
    · rw [lookupStep_of_scan h hcounts]
      cases (sfLookup m raw fileName).found with
      | some ino => exact Or.inr ⟨ino, rfl⟩
      | none =>
          by_cases htail : fileName = skipComponent fileName
          · refine Or.inr ⟨nextIno, ?_⟩
            simp only [← htail, ne_eq, not_true_eq_false, if_false]
          · exact Or.inl ⟨-4, if_pos htail, by simp⟩
  · exact Or.inl ⟨-3, lookupStep_of_not_dir h, by simp⟩

/-- A component that was resolved leaves the path pointer at its end. -/
theorem lookupStep_ok {m : Memory Byte} {raw : Int} {cur : XfsIcdinode}
    {fileName fileName' : List Byte} {nextIno nextIno' : BitVec 64}
    (h : lookupStep m raw cur fileName nextIno = .ok (fileName', nextIno')) :
    fileName' = skipComponent fileName := by
  rcases lookupStep_cases m raw cur fileName nextIno with ⟨e, he, -⟩ | ⟨ino, hok⟩
  · rw [he] at h
    cases h
  · rw [hok] at h
    cases h
    rfl

/-! ## The path loop -/

/-- What the path loop changes: the path pointer, the inode to read next, and the
reader's state. -/
structure WalkState where
  fileName : List Byte
  nextIno : BitVec 64
  world : World

/-- One evaluation of {lit}`while ( *file_name) { ... }`: leave with the inode
reached or the code to return, or go on. -/
def walkStep (s : WalkState) : (Except Int (BitVec 64) × World) ⊕ WalkState :=
  match s.fileName with
  | [] => .inl (.ok s.nextIno, s.world)
  | c :: rest =>
      if c ≠ slash then
        .inl (.error (-3), s.world)
      else
        match readInodeRelative g (s.nextIno.setWidth 32) s.world with
        | (none, _, w) => .inl (.error (-1), w)
        | (some raw, cur, w) =>
            match lookupStep w.blockBuf raw cur rest s.nextIno with
            | .error e => .inl (.error e, w)
            | .ok (rest', ino) => .inr { fileName := rest', nextIno := ino, world := w }

/-- Every turn of the path loop consumes at least a slash. -/
theorem walkStep_decreases :
    Decreases (walkStep g) (fun s => s.fileName.length) := by
  rintro ⟨fileName, nextIno, w⟩ s' hs
  cases fileName with
  | nil => simp [walkStep] at hs
  | cons c rest =>
      simp only [walkStep] at hs
      split at hs
      · cases hs
      · split at hs
        · cases hs
        · split at hs
          · cases hs
          · rename_i rest' ino hlookup
            cases hs
            have htail := lookupStep_ok hlookup
            have hle := length_skipComponent_le rest
            simp only [List.length_cons, htail]
            omega

/-- The loop {lit}`while ( *file_name)`. -/
def walk (fileName : List Byte) (nextIno : BitVec 64) (w : World) :
    Except Int (BitVec 64) × World :=
  loop (walkStep g) (fun s => s.fileName.length) (walkStep_decreases g)
    { fileName := fileName, nextIno := nextIno, world := w }

/-! ## The extent loop -/

/-- The record at {lit}`rec`, swapped and decoded. -/
def recGetAll (b : Build) (m : Memory Byte) (rec : Int) : XfsBmbtIrec :=
  xfsBmbtGetAll b
    { l0 := be64ToCpu (loadLE64 m rec)
      l1 := be64ToCpu (loadLE64 m (rec + 8)) }

/-- The loop {lit}`while ( tot--)` over the extent records, with its running
{lit}`size`. -/
def extentLoop : Nat → Int → BitVec 64 → World → BitVec 64 × World
  | 0, _, size, w => (size, w)
  | tot + 1, rec, size, w =>
      let irec := recGetAll g.build w.blockBuf rec
      let (n, w') := readBlocks g ⟨.mem, g.build.toPtrdiff irec.brStartoff⟩
        irec.brStartblock (irec.brBlockcount.setWidth 32) size w
      extentLoop tot (rec + sizeofXfsBmbtRec) (size - n) w'

/-! ## The reader -/

/-- {lit}`cur.di_mode & S_IFMT != S_IFREG`, as C groups it. -/
def XfsIcdinode.TypeTest (cur : XfsIcdinode) : Prop :=
  cur.diMode.setWidth 32 &&& (if sIfmt ≠ sIfreg then 1#32 else 0#32) ≠ 0

instance (cur : XfsIcdinode) : Decidable cur.TypeTest :=
  inferInstanceAs (Decidable (_ ≠ _))

/-- The reader up to the checks on the final inode: its address in the block
buffer and its core, or the code that is returned. -/
def locate (fileName : List Byte) (w : World) :
    Except Int (Int × XfsIcdinode) × World :=
  match walk g fileName g.rootino w with
  | (.error e, w) => (.error e, w)
  | (.ok nextIno, w) =>
      match readInodeRelative g (nextIno.setWidth 32) w with
      | (none, _, w) => (.error (-1), w)
      | (some raw, cur, w) => (.ok (raw, cur), w)

/-- The reader from the checks on the final inode on. -/
def readContent (raw : Int) (cur : XfsIcdinode) (size : BitVec 64) (w : World) : Int × World :=
  if cur.TypeTest then
    (-3, w)
  else if cur.diFormat ≠ xfsDinodeFmtExtents then
    (-3, w)
  else
    let recp := xfsDforkDptr raw
    let tot := (xfsDforkNextents w.blockBuf raw).toNat
    if size < rawDiSize w.blockBuf raw then
      (-5, w)
    else
      (0, (extentLoop g tot recp (rawDiSize w.blockBuf raw) w).2)

/-- {lit}`read_file_from_disk`. -/
def readFileFromDisk (fileName : List Byte) (size : BitVec 64) (w : World) : Int × World :=
  match locate g fileName w with
  | (.error e, w) => (e, w)
  | (.ok (raw, cur), w) => readContent g raw cur size w

end Xfsd
