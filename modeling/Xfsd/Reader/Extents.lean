import Xfsd.Reader.Blocks

/-!
# XFSD - What the extent loop does

The extent loop copies one extent after another to the caller's buffer.  Its
course is a list of reads that the extent records, the file size and the stream
position determine: the buffer and the log after the loop are that list carried
out.

Main results:

- Theorem {lit}`extentLoop_world`: the loop carries out the planned reads.
- Theorem {lit}`readContent_of_admits`: a file that passes the checks is copied,
  and the reader returns 0.
- Theorem {lit}`readContent_of_not_admits`: any other inode is refused with a
  negative code and nothing is copied.
-/

namespace Xfsd

open Foundation

variable (g : Globals)

/-! ## The planned reads -/

/-- The extent records from an address on. -/
def records (b : Build) (m : Memory Byte) : Nat → Int → List XfsBmbtIrec
  | 0, _ => []
  | tot + 1, recp => recGetAll b m recp :: records b m tot (recp + sizeofXfsBmbtRec)

/-- The extent covers a file block. -/
def XfsBmbtIrec.Covers (e : XfsBmbtIrec) (block : Nat) : Prop :=
  e.brStartoff.toNat ≤ block ∧ block < e.brStartoff.toNat + e.brBlockcount.toNat

instance (e : XfsBmbtIrec) (block : Nat) : Decidable (e.Covers block) :=
  inferInstanceAs (Decidable (_ ∧ _))

/-- One turn of the extent loop: the record, the bytes left of the file, and the
stream position after the seek. -/
structure ExtentRead where
  irec : XfsBmbtIrec
  left : BitVec 64
  src : Nat

namespace ExtentRead

variable (r : ExtentRead)

/-- The block count as {lit}`read_blocks` takes it. -/
def nmeb : BitVec 32 :=
  r.irec.brBlockcount.setWidth 32

/-- The index in the caller's buffer that the read starts at. -/
def dst : Int :=
  g.build.toPtrdiff r.irec.brStartoff

/-- The offset that the read seeks to. -/
def offset : Int :=
  blockOffset g r.irec.brStartblock

/-- The number of bytes asked for. -/
def asked : Nat :=
  requested g r.nmeb r.left

/-- The number of bytes that arrive. -/
def got : Nat :=
  freadBytes g.file r.src (r.asked g)

/-- The patch that the read applies to the caller's buffer. -/
def patch : Patch Byte :=
  freadPatch g.file r.src (r.asked g) (r.dst g)

/-- The library calls of the read. -/
def events : List IoEvent :=
  [.seek (r.offset g) (fseekOk (r.offset g)),
    .read ⟨.mem, r.dst g⟩ r.src (r.asked g) (r.got g)]

@[simp]
theorem patch_dst : (r.patch g).dst = r.dst g := rfl

@[simp]
theorem patch_len : (r.patch g).len = r.got g := rfl

@[simp]
theorem patch_val (i : Nat) : (r.patch g).val i = g.file.getD (r.src + i) := rfl

end ExtentRead

/-- The reads of the extent loop. -/
def plan : List XfsBmbtIrec → BitVec 64 → Nat → List ExtentRead
  | [], _, _ => []
  | e :: es, left, pos =>
      let r : ExtentRead :=
        { irec := e, left := left, src := fseekSet pos (blockOffset g e.brStartblock) }
      r :: plan es (left - consumed g r.nmeb left) (r.src + r.got g)

/-- The source of a planned read is where its seek leaves the stream. -/
theorem plan_src {es : List XfsBmbtIrec} {left : BitVec 64} {pos : Nat} {r : ExtentRead}
    (h : r ∈ plan g es left pos) : ∃ pos', r.src = fseekSet pos' (r.offset g) := by
  induction es generalizing left pos with
  | nil => cases h
  | cons e es ih =>
      rw [plan] at h
      rcases List.mem_cons.mp h with rfl | h
      · exact ⟨pos, rfl⟩
      · exact ih h

/-- The planned reads are one for each record, in order. -/
theorem plan_irec (es : List XfsBmbtIrec) (left : BitVec 64) (pos : Nat) :
    (plan g es left pos).map (·.irec) = es := by
  induction es generalizing left pos with
  | nil => rfl
  | cons e es ih => rw [plan, List.map_cons, ih]

theorem plan_irec_mem {es : List XfsBmbtIrec} {left : BitVec 64} {pos : Nat} {r : ExtentRead}
    (h : r ∈ plan g es left pos) : r.irec ∈ es := by
  have hmem := List.mem_map_of_mem (f := (·.irec)) h
  rwa [plan_irec] at hmem

/-- The buffer after the planned reads. -/
def delivered (reads : List ExtentRead) (mem : Memory Byte) : Memory Byte :=
  mem.replay (reads.map (·.patch g))

/-- The loop carries out the planned reads, and changes only the caller's buffer,
the stream position and the log. -/
theorem extentLoop_world (tot : Nat) (recp : Int) (size : BitVec 64) (w : World) :
    ∃ pos, (extentLoop g tot recp size w).2 =
      { w with
        mem := delivered g (plan g (records g.build w.blockBuf tot recp) size w.pos) w.mem
        pos := pos
        log := w.log ++
          (plan g (records g.build w.blockBuf tot recp) size w.pos).flatMap (·.events g) } := by
  induction tot generalizing recp size w with
  | zero =>
      refine ⟨w.pos, ?_⟩
      simp [extentLoop, records, plan, delivered, Memory.replay]
  | succ tot ih =>
      simp only [extentLoop, readBlocks_eq]
      obtain ⟨pos, hpos⟩ := ih (recp + sizeofXfsBmbtRec)
        (size - consumed g ((recGetAll g.build w.blockBuf recp).brBlockcount.setWidth 32) size)
        (w.transfer g ⟨.mem, g.build.toPtrdiff (recGetAll g.build w.blockBuf recp).brStartoff⟩
          (blockOffset g (recGetAll g.build w.blockBuf recp).brStartblock)
          (requested g ((recGetAll g.build w.blockBuf recp).brBlockcount.setWidth 32) size))
      refine ⟨pos, ?_⟩
      rw [hpos]
      simp [records, plan, delivered, Memory.replay, World.transfer, World.store,
        ExtentRead.events, ExtentRead.patch, ExtentRead.nmeb, ExtentRead.dst,
        ExtentRead.offset, ExtentRead.asked, ExtentRead.got]

/-! ## The running size -/

/-- The length of an extent in bytes, as the loop computes it: a 32-bit product. -/
def extentBytes (e : XfsBmbtIrec) : Nat :=
  (blockBytes g (e.brBlockcount.setWidth 32)).toNat

/-- What the running size becomes over some extents never exceeds what it was. -/
def Draining : List XfsBmbtIrec → BitVec 64 → Prop
  | [], _ => True
  | e :: es, left =>
      left - consumed g (e.brBlockcount.setWidth 32) left ≤ left ∧
        Draining es (left - consumed g (e.brBlockcount.setWidth 32) left)

/-- The loop takes one turn and goes on from there, with the block buffer as it was. -/
theorem extentLoop_succ (recp : Int) (size : BitVec 64) (w : World) :
    ∃ w' : World, w'.blockBuf = w.blockBuf ∧ ∀ k,
      extentLoop g (k + 1) recp size w =
        extentLoop g k (recp + sizeofXfsBmbtRec)
          (size - consumed g ((recGetAll g.build w.blockBuf recp).brBlockcount.setWidth 32) size)
          w' := by
  refine ⟨(extentLoop g 1 recp size w).2, ?_, fun k => ?_⟩
  · simp only [extentLoop, readBlocks_eq, World.transfer_mem_blockBuf]
  · simp only [extentLoop, readBlocks_eq]

/-- The running size of the loop, turn by turn. -/
theorem extentLoop_draining_iff (tot : Nat) (recp : Int) (size : BitVec 64) (w : World) :
    (∀ k < tot, (extentLoop g (k + 1) recp size w).1 ≤ (extentLoop g k recp size w).1) ↔
      Draining g (records g.build w.blockBuf tot recp) size := by
  induction tot generalizing recp size w with
  | zero => simp [records, Draining]
  | succ tot ih =>
      rcases extentLoop_succ g recp size w with ⟨w', hbuf, hturn⟩
      have hrest := ih (recp + sizeofXfsBmbtRec)
        (size - consumed g ((recGetAll g.build w.blockBuf recp).brBlockcount.setWidth 32) size) w'
      rw [hbuf] at hrest
      rw [Nat.forall_lt_succ_left, records, Draining, ← hrest]
      simp only [hturn]
      rfl

/-- A turn lowers the running size by the length of its extent, stopping at 0, unless
nothing is left for an extent that is not empty. -/
theorem sub_consumed {e : XfsBmbtIrec} {left : BitVec 64}
    (h : extentBytes g e = 0 ∨ left.toNat ≠ 0) :
    left - consumed g (e.brBlockcount.setWidth 32) left ≤ left ∧
      (left - consumed g (e.brBlockcount.setWidth 32) left).toNat =
        left.toNat - extentBytes g e := by
  unfold extentBytes at *
  by_cases hcut : Partial g (e.brBlockcount.setWidth 32) left
  · have hlt := BitVec.lt_def.mp hcut.2
    rw [consumed, if_pos hcut, BitVec.sub_self]
    have hzero : (0#64).toNat = 0 := rfl
    refine ⟨BitVec.le_def.mpr (by omega), ?_⟩
    rw [hzero]
    omega
  · have hle : (blockBytes g (e.brBlockcount.setWidth 32)).toNat ≤ left.toNat := by
      by_contra hlt
      refine hcut ⟨fun hzero => ?_, BitVec.lt_def.mpr (by omega)⟩
      have hleft : left.toNat = 0 := congrArg BitVec.toNat hzero
      omega
    rw [consumed, if_neg hcut]
    have hsub : (left - blockBytes g (e.brBlockcount.setWidth 32)).toNat =
        left.toNat - (blockBytes g (e.brBlockcount.setWidth 32)).toNat := BitVec.toNat_sub_of_le hle
    exact ⟨BitVec.le_def.mpr (by omega), hsub⟩

/-- With nothing left, an extent that is not empty wraps the running size. -/
theorem not_sub_consumed_le {e : XfsBmbtIrec} {left : BitVec 64} (hbytes : extentBytes g e ≠ 0)
    (hleft : left.toNat = 0) :
    ¬left - consumed g (e.brBlockcount.setWidth 32) left ≤ left := by
  unfold extentBytes at hbytes
  have hzero : left = 0 := BitVec.eq_of_toNat_eq hleft
  have hcut : ¬Partial g (e.brBlockcount.setWidth 32) left := fun h => h.1 hzero
  have hlt := (blockBytes g (e.brBlockcount.setWidth 32)).isLt
  rw [consumed, if_neg hcut, BitVec.le_def, BitVec.toNat_sub, hleft]
  omega

/-- The running size never wraps exactly when every extent that is not empty starts before
the end of the file, counted by the lengths of the extents before it. -/
theorem draining_iff (es : List XfsBmbtIrec) (left : BitVec 64) :
    Draining g es left ↔
      ∀ before e after, es = before ++ e :: after → extentBytes g e ≠ 0 →
        (before.map (extentBytes g)).sum < left.toNat := by
  induction es generalizing left with
  | nil => simp [Draining]
  | cons e es ih =>
      constructor
      · intro h before e' after hsplit hbytes
        rcases h with ⟨hfirst, hrest⟩
        have hnonempty : extentBytes g e = 0 ∨ left.toNat ≠ 0 := by
          by_contra hnot
          push Not at hnot
          exact not_sub_consumed_le g hnot.1 hnot.2 hfirst
        have hsub := (sub_consumed g hnonempty).2
        cases before with
        | nil =>
            rw [List.nil_append, List.cons.injEq] at hsplit
            rw [← hsplit.1] at hbytes
            simp only [List.map_nil, List.sum_nil]
            omega
        | cons e'' before =>
            rw [List.cons_append, List.cons.injEq] at hsplit
            have hlt := (ih _).mp hrest before e' after hsplit.2 hbytes
            rw [List.map_cons, List.sum_cons, ← hsplit.1]
            omega
      · intro h
        have hnonempty : extentBytes g e = 0 ∨ left.toNat ≠ 0 := by
          by_contra hnot
          push Not at hnot
          have hlt := h [] e es rfl hnot.1
          simp only [List.map_nil, List.sum_nil] at hlt
          omega
        rcases sub_consumed g hnonempty with ⟨hle, hsub⟩
        refine ⟨hle, (ih _).mpr fun before e' after hsplit hbytes => ?_⟩
        have hlt := h (e :: before) e' after (by rw [hsplit, List.cons_append]) hbytes
        rw [List.map_cons, List.sum_cons] at hlt
        omega

/-! ## The checks on the final inode -/

/-- The checks that the reader makes before the extent loop. -/
def Admits (m : Memory Byte) (raw : Int) (cur : XfsIcdinode) (size : BitVec 64) : Prop :=
  ¬cur.TypeTest ∧ cur.diFormat = xfsDinodeFmtExtents ∧ ¬size < rawDiSize m raw

instance (m : Memory Byte) (raw : Int) (cur : XfsIcdinode) (size : BitVec 64) :
    Decidable (Admits m raw cur size) :=
  inferInstanceAs (Decidable (_ ∧ _))

/-- The extents of the inode at an address. -/
def extentsAt (m : Memory Byte) (raw : Int) : List XfsBmbtIrec :=
  records g.build m (xfsDforkNextents m raw).toNat (xfsDforkDptr raw)

/-- The reads that bring the file at an address to the caller. -/
def contentReads (raw : Int) (w : World) : List ExtentRead :=
  plan g (extentsAt g w.blockBuf raw) (rawDiSize w.blockBuf raw) w.pos

/-- A file that passes the checks is copied, and the reader returns 0. -/
theorem readContent_of_admits {raw : Int} {cur : XfsIcdinode} {size : BitVec 64} {w : World}
    (h : Admits w.blockBuf raw cur size) :
    ∃ pos, readContent g raw cur size w =
      (0, { w with
            mem := delivered g (contentReads g raw w) w.mem
            pos := pos
            log := w.log ++ (contentReads g raw w).flatMap (·.events g) }) := by
  rcases h with ⟨htype, hformat, hsize⟩
  obtain ⟨pos, hpos⟩ := extentLoop_world g (xfsDforkNextents w.blockBuf raw).toNat
    (xfsDforkDptr raw) (rawDiSize w.blockBuf raw) w
  refine ⟨pos, ?_⟩
  unfold readContent
  rw [if_neg htype, if_neg (not_not.mpr hformat), if_neg hsize, hpos]
  rfl

section Refused

variable {raw : Int} {cur : XfsIcdinode} {size : BitVec 64} {w : World}

theorem readContent_of_typeTest (h : cur.TypeTest) : readContent g raw cur size w = (-3, w) :=
  if_pos h

theorem readContent_of_format (htype : ¬cur.TypeTest) (h : cur.diFormat ≠ xfsDinodeFmtExtents) :
    readContent g raw cur size w = (-3, w) := by
  unfold readContent
  rw [if_neg htype, if_pos h]

theorem readContent_of_lt (htype : ¬cur.TypeTest) (hformat : cur.diFormat = xfsDinodeFmtExtents)
    (h : size < rawDiSize w.blockBuf raw) : readContent g raw cur size w = (-5, w) := by
  unfold readContent
  rw [if_neg htype, if_neg (not_not.mpr hformat), if_pos h]

/-- Any other inode is refused with one of two codes, and the state stays as it was. -/
theorem readContent_of_not_admits (h : ¬Admits w.blockBuf raw cur size) :
    readContent g raw cur size w = (-3, w) ∨ readContent g raw cur size w = (-5, w) := by
  by_cases htype : cur.TypeTest
  · exact Or.inl (readContent_of_typeTest g htype)
  · by_cases hformat : cur.diFormat = xfsDinodeFmtExtents
    · refine Or.inr (readContent_of_lt g htype hformat ?_)
      by_contra hsize
      exact h ⟨htype, hformat, hsize⟩
    · exact Or.inl (readContent_of_format g htype hformat)

end Refused

end Xfsd
