import Xfsd.Types

/-!
# XFSD - Short-form directories

The accessors of {lit}`xfs_dir2_format.h` and {lit}`xfsd_dir2_sf.c` for
directories stored inside an inode.  Header and entries are addresses in the
block buffer; inode numbers are 4 or 8 bytes wide, as the header's
{lit}`i8count` says.

Main results:

- Theorem {lit}`xfsDir2SfNextentry_eq`: the stride from one entry to the next.
-/

namespace Xfsd

open Foundation

variable (m : Memory Byte)

/-- {lit}`hdr->count`. -/
def sfHdrCount (hdr : Int) : Byte :=
  m hdr

/-- {lit}`hdr->i8count`. -/
def sfHdrI8count (hdr : Int) : Byte :=
  m (hdr + 1)

/-- {lit}`sfep->namelen`. -/
def sfepNamelen (sfep : Int) : Byte :=
  m sfep

/-- The address of {lit}`sfep->name`, after {lit}`namelen` and the two offset bytes. -/
def sfepName (sfep : Int) : Int :=
  sfep + 3

/-- {lit}`xfs_dir2_sf_hdr_size`. -/
def xfsDir2SfHdrSize (i8count : Byte) : Int :=
  10 - (if i8count = 0 then 1 else 0) * (8 - 4)

/-- {lit}`xfs_dir2_sf_entsize`. -/
def xfsDir2SfEntsize (hdr : Int) (len : Byte) : Int :=
  3 + len.toNat + (if sfHdrI8count m hdr ≠ 0 then 8 else 4)

/-- {lit}`xfs_dir2_sf_firstentry`. -/
def xfsDir2SfFirstentry (hdr : Int) : Int :=
  hdr + xfsDir2SfHdrSize (sfHdrI8count m hdr)

/-- {lit}`xfs_dir2_sf_nextentry`. -/
def xfsDir2SfNextentry (hdr sfep : Int) : Int :=
  sfep + xfsDir2SfEntsize m hdr (sfepNamelen m sfep)

/-- {lit}`xfs_dir2_sf_get_ino`. -/
def xfsDir2SfGetIno (hdr src : Int) : BitVec 64 :=
  if sfHdrI8count m hdr ≠ 0 then
    getUnalignedBe64 m src &&& 0x00ffffffffffffff#64
  else
    (getUnalignedBe32 m src).setWidth 64

/-- {lit}`xfs_dir2_sfe_inop`. -/
def xfsDir2SfeInop (sfep : Int) : Int :=
  sfepName sfep + (sfepNamelen m sfep).toNat

/-- {lit}`xfs_dir2_sfe_get_ino`. -/
def xfsDir2SfeGetIno (hdr sfep : Int) : BitVec 64 :=
  xfsDir2SfGetIno m hdr (xfsDir2SfeInop m sfep)

/-- The stride from one entry to the next. -/
theorem xfsDir2SfNextentry_eq (hdr sfep : Int) :
    xfsDir2SfNextentry m hdr sfep =
      sfep + (3 + (m sfep).toNat + (if m (hdr + 1) ≠ 0 then 8 else 4)) :=
  rfl

end Xfsd
