import Xfsd.Foundation.Codec
import Xfsd.OnDisk.Encode

/-!
# XFSD - Decoding loses nothing

The superblock and the inode core as rows of fields, with offset and width as their
packed structures {lit}`xfs_dsb_t` and {lit}`xfs_dinode_t` lay them out, and the two
decoders of the reader against these rows.

Main results:

- Theorems {lit}`encodeFields_xfsDsb` and {lit}`encodeFields_xfsDinode`: the rows are the byte
  strings that images are put together from.
- Theorem {lit}`xfsDinodeFromDisk_congr`: the decoded core depends only on the
  96 bytes of the core.
- Theorem {lit}`decoding_lossless`: both decoders find every field in its place, and lose
  nothing.
-/

namespace Xfsd

open Foundation

/-! ## The rows of fields -/

/-- The fields of {lit}`xfs_dsb_t`. -/
def xfsDsbFields : List (RecordField XfsSb) :=
  [.be32 0 (·.sbMagicnum), .be32 4 (·.sbBlocksize), .be64 8 (·.sbDblocks),
    .be64 16 (·.sbRblocks), .be64 24 (·.sbRextents), .array 32 16 (·.sbUuid),
    .be64 48 (·.sbLogstart), .be64 56 (·.sbRootino), .be64 64 (·.sbRbmino),
    .be64 72 (·.sbRsumino), .be32 80 (·.sbRextsize), .be32 84 (·.sbAgblocks),
    .be32 88 (·.sbAgcount), .be32 92 (·.sbRbmblocks), .be32 96 (·.sbLogblocks),
    .be16 100 (·.sbVersionnum), .be16 102 (·.sbSectsize), .be16 104 (·.sbInodesize),
    .be16 106 (·.sbInopblock), .array 108 12 (·.sbFname), .u8 120 (·.sbBlocklog),
    .u8 121 (·.sbSectlog), .u8 122 (·.sbInodelog), .u8 123 (·.sbInopblog),
    .u8 124 (·.sbAgblklog), .u8 125 (·.sbRextslog), .u8 126 (·.sbInprogress),
    .u8 127 (·.sbImaxPct), .be64 128 (·.sbIcount), .be64 136 (·.sbIfree),
    .be64 144 (·.sbFdblocks), .be64 152 (·.sbFrextents), .be64 160 (·.sbUquotino),
    .be64 168 (·.sbGquotino), .be16 176 (·.sbQflags), .u8 178 (·.sbFlags),
    .u8 179 (·.sbSharedVn), .be32 180 (·.sbInoalignmt), .be32 184 (·.sbUnit),
    .be32 188 (·.sbWidth), .u8 192 (·.sbDirblklog), .u8 193 (·.sbLogsectlog),
    .be16 194 (·.sbLogsectsize), .be32 196 (·.sbLogsunit), .be32 200 (·.sbFeatures2),
    .be32 204 (·.sbBadFeatures2)]

/-- The fields of the core of {lit}`xfs_dinode_t`. -/
def xfsDinodeFields : List (RecordField XfsIcdinode) :=
  [.be16 0 (·.diMagic), .be16 2 (·.diMode), .u8 4 (·.diVersion), .u8 5 (·.diFormat),
    .be16 6 (·.diOnlink), .be32 8 (·.diUid), .be32 12 (·.diGid), .be32 16 (·.diNlink),
    .be16 20 (·.diProjidLo), .be16 22 (·.diProjidHi), .array 24 6 (·.diPad),
    .be16 30 (·.diFlushiter), .be32 32 (·.diAtime.tSec), .be32 36 (·.diAtime.tNsec),
    .be32 40 (·.diMtime.tSec), .be32 44 (·.diMtime.tNsec), .be32 48 (·.diCtime.tSec),
    .be32 52 (·.diCtime.tNsec), .be64 56 (·.diSize), .be64 64 (·.diNblocks),
    .be32 72 (·.diExtsize), .be32 76 (·.diNextents), .be16 80 (·.diAnextents),
    .u8 82 (·.diForkoff), .u8 83 (·.diAformat), .be32 84 (·.diDmevmask),
    .be16 88 (·.diDmstate), .be16 90 (·.diFlags), .be32 92 (·.diGen)]

theorem tiles_xfsDsbFields : Tiles 0 xfsDsbFields 208 := by
  simp [xfsDsbFields, Tiles]

theorem tiles_xfsDinodeFields : Tiles 0 xfsDinodeFields 96 := by
  simp [xfsDinodeFields, Tiles]

/-- The fields in order are the bytes of the superblock. -/
theorem encodeFields_xfsDsb (sb : XfsSb) : encodeFields xfsDsbFields sb = sb.encode := by
  unfold encodeFields xfsDsbFields XfsSb.encode
  simp only [List.flatMap_cons, List.flatMap_nil, RecordField.be16_bytes, RecordField.be32_bytes,
    RecordField.be64_bytes, RecordField.u8_bytes, RecordField.array_bytes]
  simp only [List.append_assoc, List.cons_append, List.nil_append, List.append_nil]

/-- The fields in order are the bytes of the inode core. -/
theorem encodeFields_xfsDinode (core : XfsIcdinode) :
    encodeFields xfsDinodeFields core = core.encode := by
  unfold encodeFields xfsDinodeFields XfsIcdinode.encode XfsIctimestamp.encode
  simp only [List.flatMap_cons, List.flatMap_nil, RecordField.be16_bytes, RecordField.be32_bytes,
    RecordField.be64_bytes, RecordField.u8_bytes, RecordField.array_bytes]
  simp only [List.append_assoc, List.cons_append, List.nil_append, List.append_nil]

/-! ## The decoders -/

attribute [ext] XfsSb XfsIcdinode XfsIctimestamp

/-- Every field of the superblock is decoded from its own bytes. -/
theorem xfsSbFromDisk_eq_iff (dsb : Memory Byte) (sb : XfsSb) :
    (∀ f ∈ xfsDsbFields, f.Holds dsb 0 sb) ↔ xfsSbFromDisk dsb = sb := by
  rw [XfsSb.ext_iff]
  simp [xfsDsbFields, xfsSbFromDisk]

/-- Every field of the inode core is decoded from its own bytes. -/
theorem xfsDinodeFromDisk_eq_iff (m : Memory Byte) (raw : Int) (core : XfsIcdinode) :
    (∀ f ∈ xfsDinodeFields, f.Holds m raw core) ↔ xfsDinodeFromDisk m raw = core := by
  rw [XfsIcdinode.ext_iff]
  simp [xfsDinodeFields, xfsDinodeFromDisk, XfsIctimestamp.ext_iff, and_assoc]

/-- Equal core bytes decode to equal cores. -/
theorem xfsDinodeFromDisk_congr {m m' : Memory Byte} {raw raw' : Int}
    (h : ∀ i : Nat, i < 96 → m (raw + i) = m' (raw' + i)) :
    xfsDinodeFromDisk m raw = xfsDinodeFromDisk m' raw' :=
  decode_congr tiles_xfsDinodeFields xfsDinodeFromDisk_eq_iff h

/-- Both decoders find every field in its place, and lose nothing. -/
theorem decoding_lossless :
    Lossless xfsDsbFields 208 0 xfsSbFromDisk ∧
      ∀ raw, Lossless xfsDinodeFields 96 raw fun m => xfsDinodeFromDisk m raw :=
  ⟨lossless_of_decodes tiles_xfsDsbFields xfsSbFromDisk_eq_iff,
    fun raw => lossless_of_decodes tiles_xfsDinodeFields fun m =>
      xfsDinodeFromDisk_eq_iff m raw⟩

end Xfsd
