import Xfsd.Foundation.Copy
import Xfsd.OnDisk.Dir2Block

/-!
# XFSD - Updating short-form directories

The functions of {lit}`xfs_dir2_sf.c` that create, search and change a directory inside an
inode, with {lit}`xfs_dir2_sf_addname_pick` and {lit}`xfs_dir2_sf_check`, which
{lit}`xfsd_dir2_sf.c` keeps, and {lit}`xfs_idata_realloc` of {lit}`xfs_inode.c`.  The bytes
of the directory are counted from the start of {lit}`if_data`.  Two things come from the
kernel around the code: what a fresh allocation holds, and the 16-bit store of
{lit}`asm/unaligned.h`.

Main results:

- Definitions {lit}`xfsDir2SfCreate`, {lit}`xfsDir2SfAddname`, {lit}`xfsDir2SfRemovename`
  and {lit}`xfsDir2SfReplace`: the changes.
- Definition {lit}`xfsDir2SfCheck`: what the code asserts of a directory after each change.
-/

namespace Xfsd

open Foundation

/-! ## The data fork -/

/-- Where {lit}`if_u1.if_data` points: nowhere, to {lit}`if_u2.if_inline_data`, or to an
allocation. -/
inductive IfData where
  | null
  | inlineData
  | heap (bytes : Memory Byte)

/-- The part of {lit}`xfs_ifork_t` that inline data use. -/
structure XfsIfork where
  ifBytes : Int
  ifRealBytes : Int
  ifFlags : BitVec 8
  ifData : IfData
  ifInlineData : Memory Byte

/-- {lit}`XFS_IFINLINE`. -/
def xfsIfinline : BitVec 8 := 0x01#8

/-- {lit}`XFS_IFEXTENTS`. -/
def xfsIfextents : BitVec 8 := 0x02#8

/-- The bytes at {lit}`if_data`. -/
def XfsIfork.bytes (ifp : XfsIfork) : Memory Byte :=
  match ifp.ifData with
  | .null => fun _ => 0
  | .inlineData => ifp.ifInlineData
  | .heap bytes => bytes

/-- Store through {lit}`if_data`. -/
def XfsIfork.withBytes (ifp : XfsIfork) (m : Memory Byte) : XfsIfork :=
  match ifp.ifData with
  | .null => ifp
  | .inlineData => { ifp with ifInlineData := m }
  | .heap _ => { ifp with ifData := .heap m }

/-- What the code takes from the kernel: the bytes that {lit}`kmem_alloc` returns, which may be
anything, and the 16-bit store. -/
structure Kernel where
  kmemAlloc : XfsIfork → Memory Byte
  putUnalignedBe16 : BitVec 16 → Memory Byte → Int → Memory Byte

/-- The 16-bit store writes the number's digits. -/
def Kernel.StoresBe16 (k : Kernel) : Prop :=
  ∀ num m p, k.putUnalignedBe16 num m p = m.write p (beBytes16 num)

/-- {lit}`xfs_idata_realloc`, of the data fork. -/
def xfsIdataRealloc (k : Kernel) (ifp : XfsIfork) (byteDiff : Int) : XfsIfork :=
  if byteDiff = 0 then ifp
  else
    let newSize := ifp.ifBytes + byteDiff
    let ifp' :=
      if newSize = 0 then { ifp with ifData := .null, ifRealBytes := 0 }
      else if newSize ≤ 32 then
        match ifp.ifData with
        | .null => { ifp with ifData := .inlineData, ifRealBytes := 0 }
        | .inlineData => { ifp with ifRealBytes := 0 }
        | .heap bytes =>
            { ifp with
              ifData := .inlineData
              ifInlineData := ifp.ifInlineData.copyFrom 0 bytes 0 newSize.toNat
              ifRealBytes := 0 }
      else
        let realSize := (newSize + 3) / 4 * 4
        match ifp.ifData with
        | .null => { ifp with ifData := .heap (k.kmemAlloc ifp), ifRealBytes := realSize }
        | .heap bytes =>
            if ifp.ifRealBytes ≠ realSize then
              { ifp with
                ifData := .heap
                  ((k.kmemAlloc ifp).copyFrom 0 bytes 0 (min ifp.ifRealBytes realSize).toNat)
                ifRealBytes := realSize }
            else ifp
        | .inlineData =>
            { ifp with
              ifData := .heap
                ((k.kmemAlloc ifp).copyFrom 0 ifp.ifInlineData 0 ifp.ifBytes.toNat)
              ifRealBytes := realSize }
    { ifp' with ifBytes := newSize }

/-! ## Directories, arguments and outcomes -/

/-- The part of {lit}`xfs_inode_t` that short-form directories use. -/
structure XfsDirInode extends XfsInode where
  iIno : BitVec 64
  iDf : XfsIfork

/-- {lit}`xfs_idata_realloc`, of a directory. -/
def XfsDirInode.realloc (k : Kernel) (dp : XfsDirInode) (byteDiff : Int) : XfsDirInode :=
  { dp with iDf := xfsIdataRealloc k dp.iDf byteDiff }

/-- Store through {lit}`dp->i_df.if_u1.if_data`. -/
def XfsDirInode.withBytes (dp : XfsDirInode) (m : Memory Byte) : XfsDirInode :=
  { dp with iDf := dp.iDf.withBytes m }

/-- {lit}`dp->i_d.di_size = size`. -/
def XfsDirInode.withSize (dp : XfsDirInode) (size : Int) : XfsDirInode :=
  { dp with iD := { dp.iD with diSize := BitVec.ofInt 64 size } }

/-- {lit}`(int)dp->i_d.di_size`. -/
def XfsDirInode.isize (dp : XfsDirInode) : Int :=
  (dp.iD.diSize.setWidth 32).toInt

/-- {lit}`enum xfs_dacmp`. -/
inductive XfsDacmp where
  | different
  | exact
  | case
deriving DecidableEq, Repr

/-- The part of {lit}`xfs_da_args_t` that short-form directories read: {lit}`name` has
{lit}`namelen` bytes. -/
structure XfsDaArgs where
  name : List Byte
  inumber : BitVec 64
  total : BitVec 32
  opFlags : BitVec 32

/-- {lit}`XFS_DA_OP_JUSTCHECK`. -/
def xfsDaOpJustcheck : BitVec 32 := 0x0001#32

/-- {lit}`XFS_DA_OP_OKNOENT`. -/
def xfsDaOpOknoent : BitVec 32 := 0x0008#32

/-- {lit}`XFS_DA_OP_CILOOKUP`. -/
def xfsDaOpCilookup : BitVec 32 := 0x0010#32

/-- Error numbers; {lit}`ok` is 0. -/
inductive XfsErrno where
  | ok
  | enoent
  | eio
  | enomem
  | eexist
  | enospc
deriving DecidableEq, Repr

/-- How a change ends: with an error number, or in {lit}`xfs_dir2_sf_to_block` with the
functions on directories in block form after it. -/
inductive SfOutcome where
  | returned (error : XfsErrno) (dp : XfsDirInode)
  | toBlock (dp : XfsDirInode)

/-- {lit}`XFS_DIR2_MAX_SHORT_INUM`. -/
def xfsDir2MaxShortInum : BitVec 64 := 0xffffffff#64

/-- A size is less than {lit}`offsetof(xfs_dir2_sf_hdr_t, parent)`, compared without a sign. -/
def BelowParent (size : Int) : Prop :=
  0 ≤ size ∧ size < 2

instance : DecidablePred BelowParent :=
  fun _ => inferInstanceAs (Decidable (_ ∧ _))

/-! ## Entries -/

/-- {lit}`xfs_dir2_data_entsize`. -/
def xfsDir2DataEntsize (n : Nat) : Nat :=
  (9 + n + 2 + 7) / 8 * 8

/-- {lit}`XFS_DIR2_DATA_DOT_OFFSET`. -/
def xfsDir2DataDotOffset : Nat := 16

/-- {lit}`XFS_DIR2_DATA_DOTDOT_OFFSET`. -/
def xfsDir2DataDotdotOffset : Nat :=
  xfsDir2DataDotOffset + xfsDir2DataEntsize 1

/-- {lit}`XFS_DIR2_DATA_FIRST_OFFSET`. -/
def xfsDir2DataFirstOffset : Nat :=
  xfsDir2DataDotdotOffset + xfsDir2DataEntsize 2

variable (m : Memory Byte)

/-- The bytes of {lit}`sfep->name`. -/
def sfepNameBytes (sfep : Int) : List Byte :=
  (List.range (sfepNamelen m sfep).toNat).map fun i => m (sfepName sfep + (i : Nat))

/-- {lit}`xfs_dir2_sf_entsize`, of a length that is an {lit}`int`. -/
def xfsDir2SfEntsizeInt (hdr : Int) (len : Nat) : Int :=
  3 + len + (if sfHdrI8count m hdr ≠ 0 then 8 else 4)

/-- {lit}`xfs_dir2_sf_put_offset`, with the kernel's 16-bit store. -/
def Kernel.xfsDir2SfPutOffset (k : Kernel) (sfep : Int) (off : BitVec 32) : Memory Byte :=
  k.putUnalignedBe16 (off.setWidth 16) m (sfep + 1)

/-- {lit}`xfs_dir2_sfe_put_ino`. -/
def xfsDir2SfePutIno (hdr sfep : Int) (ino : BitVec 64) : Memory Byte :=
  xfsDir2SfPutIno m hdr (xfsDir2SfeInop m sfep) ino

/-- Fill in the new entry, as both ways to add one do. -/
def Kernel.fillEntry (k : Kernel) (args : XfsDaArgs) (sfep : Int) (offset : Nat) :
    Memory Byte :=
  let m := m.set sfep (BitVec.ofNat 8 args.name.length)
  let m := k.xfsDir2SfPutOffset m sfep (BitVec.ofNat 32 offset)
  let m := m.write (sfepName sfep) (args.name.take (sfepNamelen m sfep).toNat)
  xfsDir2SfePutIno m 0 sfep args.inumber

/-- {lit}`xfs_da_compname`. -/
def xfsDaCompname (args : XfsDaArgs) (name : List Byte) : XfsDacmp :=
  if args.name = name then .exact else .different

/-- The loop that searches the entries and leaves at the first one with a property. -/
def sfFind (p : Int → Bool) : Nat → Int → Option Int
  | 0, _ => none
  | n + 1, sfep => if p sfep then some sfep else sfFind p n (xfsDir2SfNextentry m 0 sfep)

/-- The search for the entry with the name. -/
def sfFindName (args : XfsDaArgs) : Option Int :=
  sfFind m (fun sfep => xfsDaCompname args (sfepNameBytes m sfep) = .exact)
    (sfHdrCount m 0).toNat (xfsDir2SfFirstentry m 0)

/-! ## Creation -/

/-- {lit}`xfs_dir2_sf_create`. -/
def xfsDir2SfCreate (k : Kernel) (dp : XfsDirInode) (pino : BitVec 64) : XfsDirInode :=
  let dp :=
    if dp.iD.diFormat = xfsDinodeFmtExtents then
      { dp with
        iD := { dp.iD with diFormat := xfsDinodeFmtLocal }
        iDf := { dp.iDf with ifFlags := dp.iDf.ifFlags &&& ~~~xfsIfextents ||| xfsIfinline } }
    else dp
  let i8count : Byte := if xfsDir2MaxShortInum < pino then 1 else 0
  let size := xfsDir2SfHdrSize i8count
  let dp := dp.realloc k size
  let m := dp.iDf.bytes.set 1 i8count
  let m := xfsDir2SfPutParentIno m 0 pino
  let m := m.set 0 0
  (dp.withBytes m).withSize size

/-! ## Conversion of the inode numbers -/

/-- The loop of both conversions over the entries that are left: field by field from the old
directory to the new one. -/
def sfToinoLoop (old : Memory Byte) : Nat → Int → Int → Memory Byte → Memory Byte
  | 0, _, _, m => m
  | n + 1, oldsfep, sfep, m =>
      let m := m.set sfep (sfepNamelen old oldsfep)
      let m := m.copyFrom (sfep + 1) old (oldsfep + 1) 2
      let m := m.copyFrom (sfepName sfep) old (sfepName oldsfep) (sfepNamelen m sfep).toNat
      let m := xfsDir2SfePutIno m 0 sfep (xfsDir2SfeGetIno old 0 oldsfep)
      sfToinoLoop old n (xfsDir2SfNextentry old 0 oldsfep) (xfsDir2SfNextentry m 0 sfep) m

/-- Both conversions: the directory is written anew with a counter {lit}`i8count`, each inode
number {lit}`diff` bytes longer. -/
def xfsDir2SfToino (k : Kernel) (i8count : Byte) (diff : Int) (dp : XfsDirInode) :
    XfsDirInode :=
  let oldsize := dp.iDf.ifBytes
  let old := (k.kmemAlloc dp.iDf).copyFrom 0 dp.iDf.bytes 0 oldsize.toNat
  let newsize := oldsize + ((sfHdrCount old 0).toNat + 1) * diff
  let dp := (dp.realloc k (-oldsize)).realloc k newsize
  let m := dp.iDf.bytes.set 0 (sfHdrCount old 0)
  let m := m.set 1 i8count
  let m := xfsDir2SfPutParentIno m 0 (xfsDir2SfGetParentIno old 0)
  let m := sfToinoLoop old (sfHdrCount m 0).toNat (xfsDir2SfFirstentry old 0)
    (xfsDir2SfFirstentry m 0) m
  (dp.withBytes m).withSize newsize

/-- {lit}`xfs_dir2_sf_toino4`. -/
def xfsDir2SfToino4 (k : Kernel) (dp : XfsDirInode) : XfsDirInode :=
  xfsDir2SfToino k 0 (-(8 - 4)) dp

/-- {lit}`xfs_dir2_sf_toino8`. -/
def xfsDir2SfToino8 (k : Kernel) (dp : XfsDirInode) : XfsDirInode :=
  xfsDir2SfToino k 1 (8 - 4) dp

/-! ## Adding a name -/

/-- The locals of the loop of {lit}`xfs_dir2_sf_addname_pick`. -/
structure PickLocals where
  holefit : Bool
  offset : Nat
  sfep : Int

/-- What the loop does with the entry at {lit}`sfep`. -/
def PickLocals.visit (size : Nat) (s : PickLocals) : PickLocals where
  holefit := s.holefit || decide (s.offset + size ≤ (xfsDir2SfGetOffset m s.sfep).toNat)
  offset :=
    (xfsDir2SfGetOffset m s.sfep).toNat + xfsDir2DataEntsize (sfepNamelen m s.sfep).toNat
  sfep := xfsDir2SfNextentry m 0 s.sfep

/-- The loop of {lit}`xfs_dir2_sf_addname_pick`. -/
def pickLoop (size : Nat) : Nat → PickLocals → PickLocals
  | 0, s => s
  | n + 1, s => pickLoop size n (s.visit m size)

/-- The results of {lit}`xfs_dir2_sf_addname_pick`: 0, 1 with where the entry goes, and 2. -/
inductive SfPick where
  | wontFit
  | easy (sfep : Int) (offset : Nat)
  | hard

/-- {lit}`xfs_dir2_sf_addname_pick`. -/
def xfsDir2SfAddnamePick (b : Build) (dp : XfsDirInode) (args : XfsDaArgs)
    (objchange : Bool) : SfPick :=
  let m := dp.iDf.bytes
  let size := xfsDir2DataEntsize args.name.length
  let s := pickLoop m size (sfHdrCount m 0).toNat
    { holefit := false, offset := xfsDir2DataFirstOffset, sfep := xfsDir2SfFirstentry m 0 }
  let used : Nat := s.offset + ((sfHdrCount m 0).toNat + 3) * 8 + 8
  if dp.iMount.mDirblksize.toInt < (used + if s.holefit then 0 else size : Nat) then .wontFit
  else if b.xfsBigInums ∧ objchange then .hard
  else if dp.iMount.mDirblksize.toInt < (used + size : Nat) then .hard
  else .easy s.sfep s.offset

/-- The header after a new entry. -/
def countEntry (b : Build) (args : XfsDaArgs) (elevated : Bool) : Memory Byte :=
  let m := m.set 0 (m 0 + 1)
  if b.xfsBigInums ∧ xfsDir2MaxShortInum < args.inumber ∧ ¬elevated then m.set 1 (m 1 + 1)
  else m

/-- {lit}`xfs_dir2_sf_addname_easy`. -/
def xfsDir2SfAddnameEasy (b : Build) (k : Kernel) (dp : XfsDirInode) (args : XfsDaArgs)
    (sfep : Int) (offset : Nat) (newIsize : Int) : XfsDirInode :=
  let dp := dp.realloc k (xfsDir2SfEntsizeInt dp.iDf.bytes 0 args.name.length)
  let m := k.fillEntry dp.iDf.bytes args sfep offset
  (dp.withBytes (countEntry m b args false)).withSize newIsize

/-- The loop of {lit}`xfs_dir2_sf_addname_hard`: it ends before an entry with a hole in front
of it or at the end of the directory. -/
def addnameHardLoop (old : Memory Byte) (addDatasize : Nat) (oldIsize : Int) :
    Nat → Nat → Int → Option (Nat × Int)
  | 0, _, _ => none
  | fuel + 1, offset, oldsfep =>
      if oldsfep = oldIsize then some (offset, oldsfep)
      else
        let newOffset := (xfsDir2SfGetOffset old oldsfep).toNat
        if offset + addDatasize ≤ newOffset then some (offset, oldsfep)
        else
          addnameHardLoop old addDatasize oldIsize fuel
            (newOffset + xfsDir2DataEntsize (sfepNamelen old oldsfep).toNat)
            (xfsDir2SfNextentry old 0 oldsfep)

/-- {lit}`xfs_dir2_sf_addname_hard`, with a bound on the turns of its loop. -/
def xfsDir2SfAddnameHard (b : Build) (k : Kernel) (fuel : Nat) (dp : XfsDirInode)
    (args : XfsDaArgs) (objchange : Bool) (newIsize : Int) : Option XfsDirInode := do
  let oldIsize := dp.isize
  let old := (k.kmemAlloc dp.iDf).copyFrom 0 dp.iDf.bytes 0 oldIsize.toNat
  let (offset, oldsfep) ← addnameHardLoop old (xfsDir2DataEntsize args.name.length) oldIsize
    fuel xfsDir2DataFirstOffset (xfsDir2SfFirstentry old 0)
  let dp := (dp.realloc k (-oldIsize)).realloc k newIsize
  let nbytes := oldsfep
  let m := dp.iDf.bytes.copyFrom 0 old 0 nbytes.toNat
  let m := k.fillEntry m args nbytes offset
  let m := countEntry m b args objchange
  let m :=
    if oldsfep ≠ oldIsize then
      m.copyFrom (xfsDir2SfNextentry m 0 nbytes) old oldsfep (oldIsize - nbytes).toNat
    else m
  return (dp.withBytes m).withSize newIsize

/-- {lit}`xfs_dir2_sf_addname`. -/
def xfsDir2SfAddname (b : Build) (k : Kernel) (fuel : Nat) (dp : XfsDirInode)
    (args : XfsDaArgs) : Option SfOutcome :=
  if BelowParent dp.iD.diSize.toInt then some (.returned .eio dp)
  else
    let m := dp.iDf.bytes
    let objchange : Bool :=
      b.xfsBigInums ∧ xfsDir2MaxShortInum < args.inumber ∧ sfHdrI8count m 0 = 0
    let incrIsize := xfsDir2SfEntsizeInt m 0 args.name.length +
      if objchange then ((sfHdrCount m 0).toNat + 2) * (8 - 4) else 0
    let newIsize := dp.isize + incrIsize
    let pick :=
      if (xfsIforkDsize dp.toXfsInode).toInt < newIsize then .wontFit
      else xfsDir2SfAddnamePick b dp args objchange
    match pick with
    | .wontFit =>
        if args.opFlags &&& xfsDaOpJustcheck ≠ 0 ∨ args.total = 0 then
          some (.returned .enospc dp)
        else some (.toBlock dp)
    | .easy sfep offset =>
        if args.opFlags &&& xfsDaOpJustcheck ≠ 0 then some (.returned .ok dp)
        else some (.returned .ok (xfsDir2SfAddnameEasy b k dp args sfep offset newIsize))
    | .hard =>
        if args.opFlags &&& xfsDaOpJustcheck ≠ 0 then some (.returned .ok dp)
        else
          let dp := if b.xfsBigInums ∧ objchange then xfsDir2SfToino8 k dp else dp
          (xfsDir2SfAddnameHard b k fuel dp args objchange newIsize).map (.returned .ok ·)

/-- One wide inode number less: the last one goes with the width. -/
def countDown (k : Kernel) (dp : XfsDirInode) : XfsDirInode :=
  if dp.iDf.bytes 1 = 1 then xfsDir2SfToino4 k dp
  else dp.withBytes (dp.iDf.bytes.set 1 (dp.iDf.bytes 1 - 1))

/-- {lit}`xfs_dir2_sf_removename`. -/
def xfsDir2SfRemovename (b : Build) (k : Kernel) (dp : XfsDirInode) (args : XfsDaArgs) :
    XfsErrno × XfsDirInode :=
  let oldsize := dp.isize
  if BelowParent oldsize then (.eio, dp)
  else
    let m := dp.iDf.bytes
    match sfFindName m args with
    | none => (.enoent, dp)
    | some sfep =>
        let byteoff := sfep
        let entsize := xfsDir2SfEntsizeInt m 0 args.name.length
        let newsize := oldsize - entsize
        let m :=
          if byteoff + entsize < oldsize then
            m.copyFrom byteoff m (byteoff + entsize) (oldsize - (byteoff + entsize)).toNat
          else m
        let m := m.set 0 (m 0 - 1)
        let dp := ((dp.withBytes m).withSize newsize).realloc k (newsize - oldsize)
        (.ok, if b.xfsBigInums ∧ xfsDir2MaxShortInum < args.inumber then countDown k dp else dp)

/-! ## Replacing an inode number -/

/-- The counter of wide inode numbers after {lit}`ino` has been replaced. -/
def recountReplaced (b : Build) (k : Kernel) (dp : XfsDirInode) (args : XfsDaArgs)
    (ino : BitVec 64) (i8elevated : Bool) : XfsDirInode :=
  if b.xfsBigInums then
    let dp :=
      if xfsDir2MaxShortInum < ino ∧ args.inumber ≤ xfsDir2MaxShortInum then countDown k dp
      else dp
    if ino ≤ xfsDir2MaxShortInum ∧ xfsDir2MaxShortInum < args.inumber ∧ ¬i8elevated then
      dp.withBytes (dp.iDf.bytes.set 1 (dp.iDf.bytes 1 + 1))
    else dp
  else dp

/-- {lit}`xfs_dir2_sf_replace`, after the conversion to wide inode numbers if there is one. -/
def replaceFound (b : Build) (k : Kernel) (dp : XfsDirInode) (args : XfsDaArgs)
    (i8elevated : Bool) : XfsErrno × XfsDirInode :=
  let m := dp.iDf.bytes
  if args.name = [dot, dot] then
    let dp' := dp.withBytes (xfsDir2SfPutParentIno m 0 args.inumber)
    (.ok, recountReplaced b k dp' args (xfsDir2SfGetParentIno m 0) i8elevated)
  else
    match sfFindName m args with
    | none => (.enoent, if b.xfsBigInums ∧ i8elevated then xfsDir2SfToino4 k dp else dp)
    | some sfep =>
        let dp' := dp.withBytes (xfsDir2SfePutIno m 0 sfep args.inumber)
        (.ok, recountReplaced b k dp' args (xfsDir2SfeGetIno m 0 sfep) i8elevated)

/-- {lit}`xfs_dir2_sf_replace`. -/
def xfsDir2SfReplace (b : Build) (k : Kernel) (dp : XfsDirInode) (args : XfsDaArgs) :
    SfOutcome :=
  if BelowParent dp.iD.diSize.toInt then .returned .eio dp
  else
    let m := dp.iDf.bytes
    if b.xfsBigInums ∧ xfsDir2MaxShortInum < args.inumber ∧ sfHdrI8count m 0 = 0 then
      let newsize := dp.iDf.ifBytes + ((sfHdrCount m 0).toNat + 1) * (8 - 4)
      if (xfsIforkDsize dp.toXfsInode).toInt < newsize then .toBlock dp
      else
        let r := replaceFound b k (xfsDir2SfToino8 k dp) args true
        .returned r.1 r.2
    else
      let r := replaceFound b k dp args false
      .returned r.1 r.2

/-! ## Checks -/

/-- The locals of the loop of {lit}`xfs_dir2_sf_check`, with whether its assertion has held. -/
structure CheckLocals where
  i8count : Nat
  offset : Nat
  sfep : Int
  ordered : Bool

/-- What the loop does with the entry at {lit}`sfep`. -/
def CheckLocals.visit (s : CheckLocals) : CheckLocals where
  ordered := s.ordered && decide (s.offset ≤ (xfsDir2SfGetOffset m s.sfep).toNat)
  i8count := s.i8count + if xfsDir2MaxShortInum < xfsDir2SfeGetIno m 0 s.sfep then 1 else 0
  offset :=
    (xfsDir2SfGetOffset m s.sfep).toNat + xfsDir2DataEntsize (sfepNamelen m s.sfep).toNat
  sfep := xfsDir2SfNextentry m 0 s.sfep

/-- The loop of {lit}`xfs_dir2_sf_check`. -/
def checkLoop : Nat → CheckLocals → CheckLocals
  | 0, s => s
  | n + 1, s => checkLoop n (s.visit m)

/-- {lit}`xfs_dir2_sf_check`: no assertion fails. -/
def xfsDir2SfCheck (b : Build) (dp : XfsDirInode) : Bool :=
  let m := dp.iDf.bytes
  let ino := xfsDir2SfGetParentIno m 0
  let s := checkLoop m (sfHdrCount m 0).toNat
    { i8count := if xfsDir2MaxShortInum < ino then 1 else 0
      offset := xfsDir2DataFirstOffset
      sfep := xfsDir2SfFirstentry m 0
      ordered := true }
  s.ordered ∧ s.i8count = (sfHdrI8count m 0).toNat ∧ (b.xfsBigInums ∨ s.i8count = 0) ∧
    s.sfep = dp.iD.diSize.toInt ∧
    (s.offset + ((sfHdrCount m 0).toNat + 2) * 8 + 8 : Nat) ≤ dp.iMount.mDirblksize.toInt

end Xfsd
