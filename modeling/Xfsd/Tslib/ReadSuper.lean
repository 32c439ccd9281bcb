import Xfsd.Tslib.Syscall

/-!
# XFSD - Initialization

{lit}`init` of {lit}`read_super.c` with {lit}`init_read_file_from_disk` of
{lit}`read_file.c`: the superblock and the headers of the first allocation group
are read once, and the globals stay as they are for the life of the program.
Static objects start as zeros.

Main results:

- Definition {lit}`init`: the globals and the stream position after start-up.
- Definition {lit}`startWorld`: the state in which the first file is read.
-/

namespace Xfsd

open Foundation

/-- A static object before the program runs. -/
def zeroed : Memory Byte :=
  fun _ => 0

/-- {lit}`get_agi_seqno`. -/
def getAgiSeqno (g : Globals) : BitVec 32 :=
  be32ToCpu (loadLE32 g.agi 8)

/-- One {lit}`seek_file_set` and {lit}`read_file` of {lit}`init`, into a static
object.  Neither result is looked at. -/
def initRead (b : Build) (file : FileImage Byte) (object : Memory Byte) (offset : Int)
    (size nmemb : BitVec 32) (pos : Nat) : Memory Byte × Nat :=
  let src := fseekSet pos offset
  let asked := b.toSizeT size * b.toSizeT nmemb
  (freadInto file src asked object 0, src + freadBytes file src asked)

/-- {lit}`sizeof( agf)`. -/
def sizeofXfsAgf : BitVec 32 := 64#32

/-- {lit}`sizeof( agi)`. -/
def sizeofXfsAgi : BitVec 32 := 296#32

/-- {lit}`sizeof( xfs_agfl_t)`. -/
def sizeofXfsAgfl : BitVec 32 := 4#32

/-- {lit}`be32_to_cpu( agf.agf_flcount)`. -/
def agfFlcount (agf : Memory Byte) : BitVec 32 :=
  be32ToCpu (loadLE32 agf 48)

/-- {lit}`init` on an image that could be opened, then
{lit}`init_read_file_from_disk`: the globals and the stream position. -/
def init (b : Build) (file : FileImage Byte) : Globals × Nat :=
  let (dsb, pos) := initRead b file zeroed 0 sizeofXfsSb 1 0
  let sb := xfsSbFromDisk dsb
  let (agf, pos) := initRead b file zeroed sb.sbSectsize.toNat sizeofXfsAgf 1 pos
  let (agi, pos) := initRead b file zeroed (sb.sbSectsize.toNat * 2 : Nat) sizeofXfsAgi 1 pos
  let (agfl, pos) :=
    initRead b file zeroed (sb.sbSectsize.toNat * 3 : Nat) sizeofXfsAgfl (agfFlcount agf) pos
  ({ build := b
     file := file
     sb := sb
     agf := agf
     agi := agi
     agfl := agfl
     rootino := sb.sbRootino }, pos)

/-- The state in which the first file is read, with a caller's buffer. -/
def startWorld (pos : Nat) (mem : Memory Byte) : World where
  blockBuf := zeroed
  blockBufp := 0
  mem := mem
  pos := pos
  log := []

end Xfsd
