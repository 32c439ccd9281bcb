import Xfsd.Foundation.Stdio
import Xfsd.Types
import Xfsd.OnDisk.Superblock

/-!
# XFSD - System calls

The wrappers of {lit}`syscall.c` around the C library, over the state they act
on: the position of the one open stream, the static block buffer of the reader
with its bump pointer, and the caller's buffer.  A log records every seek and
every read, with what it asked for and what it got; the program never looks at it.

Main results:

- Theorem {lit}`readFileLength_world`: a positioned read is one patch to one
  object, two log entries and a new stream position.
- Theorems {lit}`World.transfer_blockBuf_mem` and {lit}`World.transfer_mem_blockBuf`: a
  transfer into one object leaves the other alone.
-/

namespace Xfsd

open Foundation

/-! ## State -/

/-- The objects that reads store to. -/
inductive Object where
  | blockBuf
  | mem
deriving DecidableEq, Repr

/-- A pointer: an object and an offset from its first byte. -/
structure Pointer where
  object : Object
  offset : Int
deriving DecidableEq, Repr

/-- What one call into the C library did. -/
inductive IoEvent where
  | seek (offset : Int) (ok : Bool)
  | read (dst : Pointer) (src asked got : Nat)
deriving DecidableEq, Repr

/-- The library call did all that it was asked for. -/
def IoEvent.Succeeded : IoEvent → Prop
  | .seek _ ok => ok = true
  | .read _ _ asked got => got = asked

instance : DecidablePred IoEvent.Succeeded
  | .seek _ ok => inferInstanceAs (Decidable (ok = true))
  | .read _ _ asked got => inferInstanceAs (Decidable (got = asked))

/-- The globals that are constant once {lit}`init` and
{lit}`init_read_file_from_disk` have run. -/
structure Globals where
  build : Build
  file : FileImage Byte
  sb : XfsSb
  agf : Memory Byte
  agi : Memory Byte
  agfl : Memory Byte
  rootino : BitVec 64

/-- The mutable state: {lit}`block_buf` and the memory around it, {lit}`block_bufp`
as an offset from {lit}`block_buf`, the caller's buffer {lit}`mem`, the position of
the stream, and the log of library calls. -/
structure World where
  blockBuf : Memory Byte
  blockBufp : Int
  mem : Memory Byte
  pos : Nat
  log : List IoEvent

/-- Store one patch into an object. -/
def World.store (w : World) (o : Object) (p : Patch Byte) : World :=
  match o with
  | .blockBuf => { w with blockBuf := w.blockBuf.patch p }
  | .mem => { w with mem := w.mem.patch p }

/-! ## Wrappers -/

/-- {lit}`seek_file_set`. -/
def seekFileSet (offset : Int) (w : World) : BitVec 32 × World :=
  (if fseekOk offset then 0 else -1,
    { w with
      pos := fseekSet w.pos offset
      log := w.log ++ [.seek offset (fseekOk offset)] })

/-- {lit}`read_file`: {lit}`fread` of {lit}`nmemb` items of {lit}`size` bytes. -/
def readFile (g : Globals) (ptr : Pointer) (size nmemb : BitVec 32) (w : World) :
    BitVec 32 × World :=
  let asked := g.build.toSizeT size * g.build.toSizeT nmemb
  let got := freadBytes g.file w.pos asked
  let w' := w.store ptr.object (freadPatch g.file w.pos asked ptr.offset)
  (BitVec.ofNat 32 (got / g.build.toSizeT size),
    { w' with
      pos := w.pos + got
      log := w.log ++ [.read ptr w.pos asked got] })

/-- {lit}`read_file_length`: the result of the seek is not looked at. -/
def readFileLength (g : Globals) (ptr : Pointer) (offset : Int) (size nmemb : BitVec 32)
    (w : World) : BitVec 32 × World :=
  let w' := (seekFileSet offset w).2
  readFile g ptr size nmemb w'

/-- {lit}`strncmp` on two strings given by their bytes. -/
def strNcmp (s1 s2 : Nat → Byte) : Nat → Int
  | 0 => 0
  | n + 1 =>
      if s1 0 ≠ s2 0 then (s1 0).toNat - (s2 0).toNat
      else if s1 0 = 0 then 0
      else strNcmp (fun i => s1 (i + 1)) (fun i => s2 (i + 1)) n

/-! ## One positioned read -/

/-- The effect of a positioned read that asks for {lit}`asked` bytes. -/
def World.transfer (g : Globals) (ptr : Pointer) (offset : Int) (asked : Nat) (w : World) :
    World :=
  let src := fseekSet w.pos offset
  let got := freadBytes g.file src asked
  { w.store ptr.object (freadPatch g.file src asked ptr.offset) with
    pos := src + got
    log := w.log ++ [.seek offset (fseekOk offset), .read ptr src asked got] }

/-- A positioned read is one transfer, whatever its result. -/
theorem readFileLength_world (g : Globals) (ptr : Pointer) (offset : Int)
    (size nmemb : BitVec 32) (w : World) :
    (readFileLength g ptr offset size nmemb w).2 =
      w.transfer g ptr offset (g.build.toSizeT size * g.build.toSizeT nmemb) := by
  rcases ptr with ⟨object, off⟩
  cases object <;>
    simp [readFileLength, readFile, seekFileSet, World.transfer, World.store]

section Transfer

variable (g : Globals) (w : World) (off offset : Int) (asked : Nat)

@[simp]
theorem World.transfer_blockBuf_mem :
    (w.transfer g ⟨.blockBuf, off⟩ offset asked).mem = w.mem := rfl

@[simp]
theorem World.transfer_mem_blockBuf :
    (w.transfer g ⟨.mem, off⟩ offset asked).blockBuf = w.blockBuf := rfl

/-- A read into the block buffer is one patch to it. -/
theorem World.transfer_blockBuf :
    (w.transfer g ⟨.blockBuf, off⟩ offset asked).blockBuf =
      w.blockBuf.patch (freadPatch g.file (fseekSet w.pos offset) asked off) := rfl

@[simp]
theorem World.transfer_pos (ptr : Pointer) :
    (w.transfer g ptr offset asked).pos =
      fseekSet w.pos offset + freadBytes g.file (fseekSet w.pos offset) asked := rfl

@[simp]
theorem World.transfer_log (ptr : Pointer) :
    (w.transfer g ptr offset asked).log =
      w.log ++ [.seek offset (fseekOk offset),
        .read ptr (fseekSet w.pos offset) asked
          (freadBytes g.file (fseekSet w.pos offset) asked)] := rfl

end Transfer

end Xfsd
