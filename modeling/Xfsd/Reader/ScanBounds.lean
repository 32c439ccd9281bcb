import Xfsd.Reader.Calls
import Xfsd.Reader.Footprint
import Xfsd.OnDisk.Encode

/-!
# XFSD - How far the scans go

The reader walks through the entries of a short-form directory and through the
extent records of a file with counts and strides that it takes from the inode.
This module lists the bytes that the two scans look at, and says when all of them
lie inside the inode.

Main results:

- Theorem {lit}`scan_within_iff`: the entries looked at end inside a bound exactly
  when the last one does.
- Theorem {lit}`staysInside_iff`: the scans of a call stay inside the inodes that they
  parse exactly when the last entry of each scan and the extent records fit.
-/

namespace Xfsd

open Foundation

/-! ## What the scans look at -/

/-- A stretch of memory that is looked at. -/
structure Access where
  addr : Int
  len : Nat
deriving DecidableEq

/-- Every byte that is looked at lies between two addresses. -/
def Access.Within (a : Access) (lo hi : Int) : Prop :=
  ∀ i : Nat, i < a.len → lo ≤ a.addr + i ∧ a.addr + i < hi

instance (a : Access) (lo hi : Int) : Decidable (a.Within lo hi) :=
  inferInstanceAs (Decidable (∀ i : Nat, i < a.len → _))

/-- A stretch that does not start too early is bounded by its end. -/
theorem Access.within_iff {a : Access} {lo hi : Int} (hlo : lo ≤ a.addr) :
    a.Within lo hi ↔ a.len = 0 ∨ a.addr + a.len ≤ hi := by
  constructor
  · intro h
    by_cases hlen : a.len = 0
    · exact Or.inl hlen
    · have hlast := (h (a.len - 1) (by omega)).2
      exact Or.inr (by omega)
  · intro h i hi
    omega

/-- How many bytes of the first string {lit}`strncmp` looks at. -/
def strNcmpSpan (s1 s2 : Nat → Byte) : Nat → Nat
  | 0 => 0
  | n + 1 =>
      if s1 0 ≠ s2 0 ∨ s1 0 = 0 then 1
      else strNcmpSpan (fun i => s1 (i + 1)) (fun i => s2 (i + 1)) n + 1

/-- Where the bytes end that the comparison looks at: the name only if its length is right. -/
def sfEntryReach (m : Memory Byte) (fileName : List Byte) (nameLen : BitVec 32)
    (entptr : Int) : Int :=
  if nameLen = (sfepNamelen m entptr).setWidth 32 then
    max (entptr + 1) (sfepName entptr + strNcmpSpan (fun i => m (sfepName entptr + i))
      (fun i => fileName.getD i 0) nameLen.toNat)
  else entptr + 1

section Scan

variable (m : Memory Byte) (hdrptr : Int) (fileName : List Byte) (nameLen : BitVec 32)

/-- The bytes that one turn of the entry loop looks at: {lit}`namelen`, the name if its length is
right, and the inode number if the name is right too. -/
def sfEntryReads (entptr : Int) : List Access :=
  { addr := entptr, len := 1 } ::
    if nameLen = (sfepNamelen m entptr).setWidth 32 then
      { addr := sfepName entptr
        len := strNcmpSpan (fun i => m (sfepName entptr + i)) (fun i => fileName.getD i 0)
          nameLen.toNat } ::
        if sfEntryMatches m fileName nameLen entptr then
          [{ addr := xfsDir2SfeInop m entptr
             len := if sfHdrI8count m hdrptr ≠ 0 then 8 else 4 }]
        else []
    else []

/-- The bytes that the entry loop looks at, entry by entry. -/
def sfScanReads (tot : Nat) (entptr : Int) : List Access :=
  (sfScan m hdrptr fileName nameLen tot entptr).seen.flatMap
    (sfEntryReads m hdrptr fileName nameLen)

/-- Where the bytes of an entry end that the loop looks at. -/
def sfEntryEnd (entptr : Int) : Int :=
  if sfEntryMatches m fileName nameLen entptr then
    xfsDir2SfeInop m entptr + (if sfHdrI8count m hdrptr ≠ 0 then 8 else 4)
  else sfEntryReach m fileName nameLen entptr

/-- The last entry that the loop looks at, with a number of entries after the first one: the
first entry with the right name, or the last of all. -/
def sfLastEntry : Nat → Int → Int
  | 0, entptr => entptr
  | more + 1, entptr =>
      if sfEntryMatches m fileName nameLen entptr then entptr
      else sfLastEntry more (xfsDir2SfNextentry m hdrptr entptr)

end Scan

/-- The bytes that the lookup of one component looks at in the data fork: the two counters of the
header, and the entries if exactly one counter is zero. -/
def lookupReads (m : Memory Byte) (raw : Int) (fileName : List Byte) : List Access :=
  let cur := xfsDinodeFromDisk m raw
  let hdrptr := xfsDforkDptr raw
  if cur.IsDir ∧ cur.diFormat = xfsDinodeFmtLocal then
    { addr := hdrptr, len := 2 } ::
      if sfHdrCount m hdrptr = 0 ↔ sfHdrI8count m hdrptr = 0 then []
      else
        sfScanReads m hdrptr fileName (componentLen fileName)
          ((sfHdrCount m hdrptr).toNat + (sfHdrI8count m hdrptr).toNat)
          (xfsDir2SfFirstentry m hdrptr)
  else []

/-- The extent records that the extent loop looks at. -/
def recordReads : Nat → Int → List Access
  | 0, _ => []
  | tot + 1, recp =>
      { addr := recp, len := 16 } :: recordReads tot (recp + sizeofXfsBmbtRec)

/-- The bytes that the extent loop looks at in an inode. -/
def extentReads (m : Memory Byte) (raw : Int) : List Access :=
  recordReads (xfsDforkNextents m raw).toNat (xfsDforkDptr raw)

/-! ## Bounds of the scans -/

section Bounds

variable {m : Memory Byte} {hdrptr : Int} {fileName : List Byte} {nameLen : BitVec 32}

theorem strNcmpSpan_le (s1 s2 : Nat → Byte) (n : Nat) : strNcmpSpan s1 s2 n ≤ n := by
  induction n generalizing s1 s2 with
  | zero => simp [strNcmpSpan]
  | succ n ih =>
      rw [strNcmpSpan]
      split
      · omega
      · exact Nat.succ_le_succ (ih _ _)

/-- Strings that differ are looked at. -/
theorem strNcmpSpan_pos {s1 s2 : Nat → Byte} {n : Nat} (h : strNcmp s1 s2 n ≠ 0) :
    0 < strNcmpSpan s1 s2 n := by
  cases n with
  | zero => exact absurd rfl h
  | succ n =>
      rw [strNcmpSpan]
      split <;> omega

/-- An entry that matches has a name of the right length. -/
theorem namelen_of_matches {entptr : Int} (h : sfEntryMatches m fileName nameLen entptr) :
    nameLen.toNat = (sfepNamelen m entptr).toNat := by
  rw [h.1, BitVec.toNat_setWidth]
  have hlt := (sfepNamelen m entptr).isLt
  omega

/-- What is looked at of an entry begins with its first byte. -/
theorem lt_sfEntryEnd (entptr : Int) : entptr < sfEntryEnd m hdrptr fileName nameLen entptr := by
  unfold sfEntryEnd sfEntryReach xfsDir2SfeInop sfepName
  split
  · split <;> omega
  · split <;> omega

/-- What is looked at of an entry ends before the next entry, unless it is the one. -/
theorem sfEntryEnd_le_next {entptr : Int} (h : ¬sfEntryMatches m fileName nameLen entptr) :
    sfEntryEnd m hdrptr fileName nameLen entptr ≤ xfsDir2SfNextentry m hdrptr entptr := by
  have hspan := strNcmpSpan_le (fun i => m (sfepName entptr + i)) (fun i => fileName.getD i 0)
    nameLen.toNat
  have hname : sfepName entptr = entptr + 3 := rfl
  have hnamelen : m entptr = sfepNamelen m entptr := rfl
  rw [sfEntryEnd, if_neg h, sfEntryReach, xfsDir2SfNextentry_eq, hnamelen]
  by_cases hlen : nameLen = (sfepNamelen m entptr).setWidth 32
  · have htoNat := congrArg BitVec.toNat hlen
    have hlt := (sfepNamelen m entptr).isLt
    rw [BitVec.toNat_setWidth] at htoNat
    rw [if_pos hlen]
    split <;> omega
  · rw [if_neg hlen]
    split <;> omega

/-- The bytes looked at of an entry are bounded by where they end. -/
theorem sfEntryReads_within_iff {entptr lo hi : Int} (hlo : lo ≤ entptr) :
    (∀ a ∈ sfEntryReads m hdrptr fileName nameLen entptr, a.Within lo hi) ↔
      sfEntryEnd m hdrptr fileName nameLen entptr ≤ hi := by
  have hname : sfepName entptr = entptr + 3 := rfl
  have hinop : xfsDir2SfeInop m entptr = entptr + 3 + (sfepNamelen m entptr).toNat := rfl
  have hspan := strNcmpSpan_le (fun i => m (sfepName entptr + i)) (fun i => fileName.getD i 0)
    nameLen.toNat
  have hfirst : Access.Within { addr := entptr, len := 1 } lo hi ↔ entptr + 1 ≤ hi := by
    rw [Access.within_iff hlo]
    simp
  have hnameRead : Access.Within
      { addr := sfepName entptr
        len := strNcmpSpan (fun i => m (sfepName entptr + i)) (fun i => fileName.getD i 0)
          nameLen.toNat } lo hi ↔ _ := Access.within_iff (by simp only [hname]; omega)
  have hinopRead : Access.Within
      { addr := xfsDir2SfeInop m entptr
        len := if sfHdrI8count m hdrptr ≠ 0 then 8 else 4 } lo hi ↔ _ :=
    Access.within_iff (by simp only [hinop]; omega)
  rw [sfEntryReads, List.forall_mem_cons, hfirst, sfEntryEnd, sfEntryReach]
  by_cases hlen : nameLen = (sfepNamelen m entptr).setWidth 32
  · rw [if_pos hlen, if_pos hlen, List.forall_mem_cons, hnameRead]
    by_cases hmatch : sfEntryMatches m fileName nameLen entptr
    · have hnamelen := namelen_of_matches hmatch
      rw [if_pos hmatch, if_pos hmatch, List.forall_mem_singleton, hinopRead]
      by_cases hwide : sfHdrI8count m hdrptr ≠ 0
      · simp only [if_pos hwide]
        omega
      · simp only [if_neg hwide]
        omega
    · have hpos := strNcmpSpan_pos fun hcmp => hmatch ⟨hlen, hcmp⟩
      rw [if_neg hmatch, if_neg hmatch, max_le_iff]
      simp only [List.not_mem_nil, false_imp_iff, implies_true, and_true]
      omega
  · have hmatch : ¬sfEntryMatches m fileName nameLen entptr := fun h => hlen h.1
    rw [if_neg hlen, if_neg hmatch, if_neg hlen]
    simp

/-- The entry loop looks at its first entry, and goes on if that is not the one. -/
theorem seen_succ (tot : Nat) (entptr : Int) :
    (sfScan m hdrptr fileName nameLen (tot + 1) entptr).seen =
      entptr :: if sfEntryMatches m fileName nameLen entptr then []
        else (sfScan m hdrptr fileName nameLen tot (xfsDir2SfNextentry m hdrptr entptr)).seen := by
  rw [sfScan_succ]
  split <;> rfl

theorem le_xfsDir2SfNextentry (m : Memory Byte) (hdrptr entptr : Int) :
    entptr ≤ xfsDir2SfNextentry m hdrptr entptr := by
  rw [xfsDir2SfNextentry_eq]
  split <;> omega

/-- The loop goes forward. -/
theorem le_sfLastEntry (more : Nat) (entptr : Int) :
    entptr ≤ sfLastEntry m hdrptr fileName nameLen more entptr := by
  induction more generalizing entptr with
  | zero => exact Int.le_refl entptr
  | succ more ih =>
      rw [sfLastEntry]
      split
      · exact Int.le_refl entptr
      · exact Int.le_trans (le_xfsDir2SfNextentry m hdrptr entptr) (ih _)

/-- The entries looked at end inside a bound exactly when the last one does. -/
theorem scan_within_iff (more : Nat) {entptr lo hi : Int} (hlo : lo ≤ entptr) :
    (∀ a ∈ sfScanReads m hdrptr fileName nameLen (more + 1) entptr, a.Within lo hi) ↔
      sfEntryEnd m hdrptr fileName nameLen (sfLastEntry m hdrptr fileName nameLen more entptr) ≤
        hi := by
  induction more generalizing entptr with
  | zero =>
      rw [sfScanReads, seen_succ, sfLastEntry, ← sfEntryReads_within_iff hlo]
      simp [sfScan]
  | succ more ih =>
      have hrest := ih (Int.le_trans hlo (le_xfsDir2SfNextentry m hdrptr entptr))
      rw [sfScanReads] at hrest
      rw [sfScanReads, seen_succ, List.flatMap_cons, List.forall_mem_append,
        sfEntryReads_within_iff hlo, sfLastEntry]
      by_cases hmatch : sfEntryMatches m fileName nameLen entptr
      · rw [if_pos hmatch, if_pos hmatch]
        simp
      · rw [if_neg hmatch, if_neg hmatch, hrest]
        refine and_iff_right_of_imp fun hlast => ?_
        -- this entry ends before the next one, and that one before the last
        have hend : sfEntryEnd m hdrptr fileName nameLen entptr ≤
            xfsDir2SfNextentry m hdrptr entptr := sfEntryEnd_le_next hmatch
        have hle : xfsDir2SfNextentry m hdrptr entptr ≤ sfLastEntry m hdrptr fileName nameLen more
          (xfsDir2SfNextentry m hdrptr entptr) := le_sfLastEntry more _
        exact Int.le_trans hend (Int.le_trans hle (Int.le_trans (lt_sfEntryEnd _).le hlast))

/-- Where the data fork of a directory ends for a lookup: the header fits, and if exactly one
counter is zero, the last entry that is looked at ends inside. -/
def ScanFits (m : Memory Byte) (raw : Int) (fileName : List Byte) (hi : Int) : Prop :=
  let cur := xfsDinodeFromDisk m raw
  let hdrptr := xfsDforkDptr raw
  cur.IsDir ∧ cur.diFormat = xfsDinodeFmtLocal →
    hdrptr + 2 ≤ hi ∧
      (¬(sfHdrCount m hdrptr = 0 ↔ sfHdrI8count m hdrptr = 0) →
        sfEntryEnd m hdrptr fileName (componentLen fileName)
          (sfLastEntry m hdrptr fileName (componentLen fileName)
            ((sfHdrCount m hdrptr).toNat + (sfHdrI8count m hdrptr).toNat - 1)
            (xfsDir2SfFirstentry m hdrptr)) ≤ hi)

instance (m : Memory Byte) (raw : Int) (fileName : List Byte) (hi : Int) :
    Decidable (ScanFits m raw fileName hi) :=
  inferInstanceAs (Decidable (_ → _))

/-- A lookup stays inside a bound exactly when its scan fits. -/
theorem lookupReads_within_iff (raw : Int) (hi : Int) :
    (∀ a ∈ lookupReads m raw fileName, a.Within raw hi) ↔ ScanFits m raw fileName hi := by
  have hfork : xfsDforkDptr raw = raw + 100 := rfl
  unfold lookupReads ScanFits
  by_cases hdir : (xfsDinodeFromDisk m raw).IsDir ∧
      (xfsDinodeFromDisk m raw).diFormat = xfsDinodeFmtLocal
  · have hheader : Access.Within { addr := xfsDforkDptr raw, len := 2 } raw hi ↔
        xfsDforkDptr raw + 2 ≤ hi := by
      rw [Access.within_iff (by simp only; omega)]
      simp
    simp only
    rw [if_pos hdir, List.forall_mem_cons, hheader, imp_iff_right hdir]
    refine and_congr_right fun _ => ?_
    by_cases hcounts : sfHdrCount m (xfsDforkDptr raw) = 0 ↔ sfHdrI8count m (xfsDforkDptr raw) = 0
    · rw [if_pos hcounts]
      exact iff_of_true (by simp) fun hnot => absurd hcounts hnot
    · have hpos : (sfHdrCount m (xfsDforkDptr raw)).toNat +
          (sfHdrI8count m (xfsDforkDptr raw)).toNat ≠ 0 := by
        intro hsum
        have hzero : (0 : Byte).toNat = 0 := rfl
        exact hcounts (iff_of_true (BitVec.eq_of_toNat_eq (by omega))
          (BitVec.eq_of_toNat_eq (by omega)))
      rcases Nat.exists_eq_succ_of_ne_zero hpos with ⟨more, hmore⟩
      have hfirst : raw ≤ xfsDir2SfFirstentry m (xfsDforkDptr raw) := by
        simp only [xfsDir2SfFirstentry, xfsDir2SfHdrSize]
        split <;> omega
      rw [if_neg hcounts, imp_iff_right hcounts, hmore, Nat.succ_sub_one]
      exact scan_within_iff more hfirst
  · simp only
    rw [if_neg hdir]
    simp [hdir]

/-- The extent records lie inside a bound exactly when there are none or the last one does. -/
theorem recordReads_within_iff (tot : Nat) {recp lo hi : Int} (hlo : lo ≤ recp) :
    (∀ a ∈ recordReads tot recp, a.Within lo hi) ↔ tot = 0 ∨ recp + 16 * tot ≤ hi := by
  have hsize : sizeofXfsBmbtRec = 16 := rfl
  induction tot generalizing recp with
  | zero => simp [recordReads]
  | succ tot ih =>
      have hfirst : Access.Within { addr := recp, len := 16 } lo hi ↔ recp + 16 ≤ hi := by
        rw [Access.within_iff hlo]
        simp
      have hnext : lo ≤ recp + 16 := by omega
      rw [recordReads, List.forall_mem_cons, hfirst, hsize]
      refine (and_congr_right fun _ => ih hnext).trans ?_
      omega

end Bounds

/-! ## The scans of a call -/

variable (g : Globals)

/-- A path loop comes to a lookup: what is left of the path, the inode, and the block buffer. -/
inductive LooksUp (g : Globals) :
    List Byte → BitVec 64 → World → List Byte → BitVec 32 → Memory Byte → Prop where
  | here (rest : List Byte) (ino : BitVec 64) (w : World) :
      LooksUp g (slash :: rest) ino w rest (ino.setWidth 32)
        (inodeWorld g (ino.setWidth 32) w).blockBuf
  | later {rest rest' comp : List Byte} {ino ino' : BitVec 64} {inode : BitVec 32} {w : World}
      {m : Memory Byte} :
      lookupStep (inodeWorld g (ino.setWidth 32) w).blockBuf (inodeAddr g (ino.setWidth 32))
          (xfsDinodeFromDisk (inodeWorld g (ino.setWidth 32) w).blockBuf
            (inodeAddr g (ino.setWidth 32))) rest ino = .ok (rest', ino') →
        LooksUp g rest' ino' (inodeWorld g (ino.setWidth 32) w) comp inode m →
        LooksUp g (slash :: rest) ino w comp inode m

/-- The place of an inode in the block buffer. -/
def slotStart (inode : BitVec 32) : Nat :=
  g.sb.sbInodesize.toNat * (inode.toNat % 2 ^ g.sb.sbInopblog.toNat)

/-- Every byte that is looked at is one of the bytes of the inode. -/
def Access.InSlot (inode : BitVec 32) (a : Access) : Prop :=
  a.Within (slotStart g inode) (slotStart g inode + g.sb.sbInodesize.toNat)

instance (inode : BitVec 32) (a : Access) : Decidable (a.InSlot g inode) :=
  inferInstanceAs (Decidable (a.Within _ _))

/-- The directory scans of a call and its scan of the extent records stay inside the inodes that
they parse. -/
structure StaysInside (fileName : List Byte) (size : BitVec 64) (w : World) : Prop where
  lookups : ∀ comp inode m, LooksUp g fileName g.rootino w comp inode m →
    ∀ a ∈ lookupReads m (inodeAddr g inode) comp, a.InSlot g inode
  extents : ∀ ino, (walk g fileName g.rootino w).1 = .ok ino →
    Served g fileName size w (locatedAt g fileName w ino) →
      ∀ a ∈ extentReads (locatedAt g fileName w ino).world.blockBuf
          (locatedAt g fileName w ino).raw, a.InSlot g (ino.setWidth 32)

variable {g}

/-- With valid geometry the reader finds the inode in its place. -/
theorem inodeAddr_eq_slotStart (hgeometry : ValidBlocks g.sb) (inode : BitVec 32) :
    inodeAddr g inode = slotStart g inode :=
  inodeAddr_eq g hgeometry inode

/-- The scans of a call stay inside the inodes exactly when each lookup's last entry ends inside
its directory and the extent records of a file that is served fit. -/
theorem staysInside_iff (hgeometry : ValidBlocks g.sb) (fileName : List Byte) (size : BitVec 64)
    (w : World) :
    StaysInside g fileName size w ↔
      (∀ comp inode m, LooksUp g fileName g.rootino w comp inode m →
        ScanFits m (inodeAddr g inode) comp (inodeAddr g inode + g.sb.sbInodesize.toNat)) ∧
      ∀ f, Served g fileName size w f →
        xfsDforkNextents f.world.blockBuf f.raw = 0 ∨
          100 + 16 * (xfsDforkNextents f.world.blockBuf f.raw).toNat ≤ g.sb.sbInodesize.toNat := by
  have hslot : ∀ inode (a : Access), a.InSlot g inode ↔
      a.Within (inodeAddr g inode) (inodeAddr g inode + g.sb.sbInodesize.toNat) := by
    intro inode a
    rw [Access.InSlot, inodeAddr_eq_slotStart hgeometry]
  have hextents : ∀ (raw : Int) (m : Memory Byte),
      (∀ a ∈ extentReads m raw, a.Within raw (raw + g.sb.sbInodesize.toNat)) ↔
      xfsDforkNextents m raw = 0 ∨
        100 + 16 * (xfsDforkNextents m raw).toNat ≤ g.sb.sbInodesize.toNat := by
    intro raw m
    have hfork : xfsDforkDptr raw = raw + 100 := rfl
    rw [extentReads, recordReads_within_iff _ (by omega), ← BitVec.toNat_inj, hfork]
    refine or_congr Iff.rfl ?_
    omega
  constructor
  · intro h
    refine ⟨fun comp inode m hlook => ?_, fun f hserved => ?_⟩
    · rw [← lookupReads_within_iff]
      intro a ha
      exact (hslot inode a).mp (h.lookups comp inode m hlook a ha)
    · rcases hserved.1 with ⟨ino, hino, hraw, -⟩
      have hf := hserved.eq_locatedAt hino
      rw [← hextents, hraw]
      intro a ha
      rw [hf] at hserved ha
      exact (hslot _ a).mp (h.extents ino hino hserved a ha)
  · intro h
    refine ⟨fun comp inode m hlook a ha => ?_, fun ino hino hserved a ha => ?_⟩
    · have hfits := h.1 comp inode m hlook
      rw [← lookupReads_within_iff] at hfits
      exact (hslot inode a).mpr (hfits a ha)
    · have hfits := h.2 _ hserved
      rw [← hextents] at hfits
      exact (hslot _ a).mpr (hfits a ha)

/-- The same image with a given number of extents in the inode of its file. -/
def extentsImage (nextents : Nat) : FileImage Byte :=
  singleFileImage (fileCore 512 nextents) [extentRecord 0 6 1] [] 4096

/-- An image with two files, the second of them with the most extents that an inode holds. -/
def fullInode : FileImage Byte :=
  diskImage (geometrySb 9 8 6 64 1 10) 4096
    [(2560, inodeBytes dirCore twoFileDir.encode),
     (2816, inodeBytes (fileCore 512 9) (extentRecord 0 6 1).encode)]

/-- The scans for the second file, with nine extents in an inode of 256 bytes, stay inside. -/
theorem staysInside_nineExtents :
    StaysInside (init .linux64 fullInode).1 [slash, 0x78#8] 512 (startWorld 0 zeroed) := by
  have hwalk : (walk (init .linux64 fullInode).1 [slash, 0x78#8]
      (init .linux64 fullInode).1.rootino (startWorld 0 zeroed)).1 = .ok 11 := by
    decide +kernel
  have hroot : (init .linux64 fullInode).1.rootino = 10 := by decide +kernel
  refine (staysInside_iff (by decide +kernel) [slash, 0x78#8] 512 (startWorld 0 zeroed)).mpr
    ⟨fun comp inode m hlook => ?_, fun f hserved => ?_⟩
  · rw [hroot] at hlook
    cases hlook with
    | here => decide +kernel
    | later hlookup hrest =>
        rw [lookupStep_ok hlookup] at hrest
        cases hrest
  · rw [hserved.eq_locatedAt hwalk]
    decide +kernel

/-- With ten extents in an inode of 256 bytes, the last record that is looked at ends four bytes
behind the inode. -/
theorem not_staysInside_tenExtents :
    ValidBlocks (init .linux64 (extentsImage 10)).1.sb ∧
      ¬StaysInside (init .linux64 (extentsImage 10)).1 [slash, 0x61#8] 512
        (startWorld 0 zeroed) := by
  have hwalk : (walk (init .linux64 (extentsImage 10)).1 [slash, 0x61#8]
      (init .linux64 (extentsImage 10)).1.rootino (startWorld 0 zeroed)).1 = .ok 9 := by
    decide +kernel
  refine ⟨by decide +kernel, fun h => ?_⟩
  have hlast := h.extents 9 hwalk (served_locatedAt hwalk (by decide +kernel))
    { addr := 256 + 100 + 16 * 9, len := 16 } (by decide +kernel)
  exact absurd hlast (by decide +kernel)

end Xfsd
