import Xfsd.Reader.Calls
import Xfsd.OnDisk.Encode

/-!
# XFSD - Staying inside the caller's buffer

The reader compares the capacity with the file size once, before the extent loop.
Whether the loop then stays inside the buffer is decided by the extent records:
a read that starts with nothing left of the file is not cut short but reads its
whole extent, and every extent is stored from its block number on.

Main results:

- Theorem {lit}`bufferSafe_iff`: a call stays inside the buffer, and its running
  size never wraps, exactly when the extents fit the file.
-/

namespace Xfsd

open Foundation

variable (g : Globals)

/-- No byte is stored past the capacity, none past the file size in a call that returns 0,
and the running size of the extent loop never goes below zero: it never goes up. -/
structure BufferSafe (fileName : List Byte) (size : BitVec 64) (w : World) : Prop where
  capacity : ∀ i, StoresAt g fileName size w i → i < size.toNat
  fileSize : ∀ f, Served g fileName size w f →
    ∀ i, StoresAt g fileName size w i → i < f.diSize.toNat
  counter : ∀ f, Served g fileName size w f →
    ∀ k < (xfsDforkNextents f.world.blockBuf f.raw).toNat,
      (extentLoop g (k + 1) (xfsDforkDptr f.raw) f.diSize f.world).1 ≤
        (extentLoop g k (xfsDforkDptr f.raw) f.diSize f.world).1

/-- How many bytes are asked for of an extent that is read after some others: what is left of the
file behind them, or the whole extent. -/
def askedAfter (fileSize : Nat) (before : List XfsBmbtIrec) (e : XfsBmbtIrec) : Nat :=
  requested g (e.brBlockcount.setWidth 32)
    (BitVec.ofNat 64 (fileSize - (before.map (extentBytes g)).sum))

/-- Where the stream stands after some extents, the last of them first: a seek that fails leaves
it where it was. -/
def streamAfter (fileSize pos : Nat) : List XfsBmbtIrec → Nat
  | [] => pos
  | e :: before =>
      let src := fseekSet (streamAfter fileSize pos before) (blockOffset g e.brStartblock)
      src + freadBytes g.file src (askedAfter g fileSize before e)

/-- How many bytes the image supplies for an extent that is read after some others, the last of
them first. -/
def suppliedAfter (fileSize pos : Nat) (before : List XfsBmbtIrec) (e : XfsBmbtIrec) : Nat :=
  freadBytes g.file (fseekSet (streamAfter g fileSize pos before) (blockOffset g e.brStartblock))
    (askedAfter g fileSize before e)

/-- The extents fit the file: an extent that is not empty starts before the end of the file,
counted by the lengths of the extents before it, and what the image supplies for an extent,
stored from index {lit}`br_startoff` on, ends before the end of the file. -/
def FitsFile (f : Located) : Prop :=
  (∀ before e after, f.extents g = before ++ e :: after → extentBytes g e ≠ 0 →
    (before.map (extentBytes g)).sum < f.diSize.toNat) ∧
  ∀ before e after, f.extents g = before ++ e :: after →
    suppliedAfter g f.diSize.toNat f.world.pos before.reverse e = 0 ∨
      g.build.toPtrdiff e.brStartoff +
        suppliedAfter g f.diSize.toNat f.world.pos before.reverse e ≤ f.diSize.toNat

/-- While the running size does not wrap, the planned reads ask for what is left of the file
behind the extents before them. -/
theorem plan_forall_iff {P : Int → Nat → Prop} {fileSize start : Nat} (done : List XfsBmbtIrec)
    {es : List XfsBmbtIrec} {left : BitVec 64} {pos : Nat} (hdrain : Draining g es left)
    (hleft : left.toNat = fileSize - (done.map (extentBytes g)).sum)
    (hpos : pos = streamAfter g fileSize start done) :
    (∀ r ∈ plan g es left pos, P (r.dst g) (r.got g)) ↔
      ∀ before e after, es = before ++ e :: after →
        P (g.build.toPtrdiff e.brStartoff)
          (suppliedAfter g fileSize start (before.reverse ++ done) e) := by
  induction es generalizing done left pos with
  | nil => simp [plan]
  | cons e es ih =>
      rcases hdrain with ⟨hfirst, hrest⟩
      have hnonempty : extentBytes g e = 0 ∨ left.toNat ≠ 0 := by
        by_contra hnot
        push Not at hnot
        exact not_sub_consumed_le g hnot.1 hnot.2 hfirst
      have hwidth : left = BitVec.ofNat 64 (fileSize - (done.map (extentBytes g)).sum) := by
        rw [← hleft, BitVec.ofNat_toNat, BitVec.setWidth_eq]
      have hleft' : (left - consumed g (e.brBlockcount.setWidth 32) left).toNat =
          fileSize - ((e :: done).map (extentBytes g)).sum := by
        rw [(sub_consumed g hnonempty).2, hleft, List.map_cons, List.sum_cons]
        omega
      have hgot : freadBytes g.file (fseekSet pos (blockOffset g e.brStartblock))
          (requested g (e.brBlockcount.setWidth 32) left) =
            suppliedAfter g fileSize start done e := by
        rw [suppliedAfter, askedAfter, hpos, ← hwidth]
      have hpos' : fseekSet pos (blockOffset g e.brStartblock) +
          freadBytes g.file (fseekSet pos (blockOffset g e.brStartblock))
            (requested g (e.brBlockcount.setWidth 32) left) =
          streamAfter g fileSize start (e :: done) := by
        rw [hgot, hpos]
        rfl
      rw [plan, List.forall_mem_cons]
      refine (and_congr (iff_of_eq (congrArg (P _) hgot)) (ih _ hrest hleft' hpos')).trans ?_
      constructor
      · intro h before e' after hsplit
        rcases h with ⟨hthis, hothers⟩
        cases before with
        | nil =>
            rw [List.nil_append, List.cons.injEq] at hsplit
            rw [← hsplit.1]
            exact hthis
        | cons e'' before =>
            rw [List.cons_append, List.cons.injEq] at hsplit
            rw [← hsplit.1, List.reverse_cons, List.append_assoc, List.singleton_append]
            exact hothers before e' after hsplit.2
      · intro h
        refine ⟨h [] e es rfl, fun before e' after hsplit => ?_⟩
        have hother := h (e :: before) e' after (by rw [hsplit, List.cons_append])
        rw [List.reverse_cons, List.append_assoc, List.singleton_append] at hother
        exact hother

/-- Stores below a bound are reads that end below it. -/
theorem stores_lt_iff (reads : List ExtentRead) (bound : Nat) :
    (∀ i, (∃ r ∈ reads, (r.patch g).Hits i) → i < bound) ↔
      ∀ r ∈ reads, r.got g = 0 ∨ r.dst g + r.got g ≤ bound := by
  constructor
  · intro h r hr
    by_cases hgot : r.got g = 0
    · exact Or.inl hgot
    · right
      have hlast := h (r.dst g + r.got g - 1) ⟨r, hr, by
        simp only [Patch.Hits, ExtentRead.patch_dst, ExtentRead.patch_len]
        omega⟩
      omega
  · rintro h i ⟨r, hr, hlo, hhi⟩
    simp only [ExtentRead.patch_dst, ExtentRead.patch_len] at hlo hhi
    rcases h r hr with hgot | hend <;> omega

/-- The extents fit the file exactly when the running size never wraps and every planned read
ends before the end of the file. -/
theorem fitsFile_iff (f : Located) :
    FitsFile g f ↔ Draining g (f.extents g) f.diSize ∧
      ∀ r ∈ f.reads g, r.got g = 0 ∨ r.dst g + r.got g ≤ f.diSize.toNat := by
  unfold FitsFile
  rw [← draining_iff]
  refine and_congr_right fun hdrain => ?_
  have hplan := plan_forall_iff g (P := fun dst got => got = 0 ∨ dst + got ≤ f.diSize.toNat)
    [] hdrain rfl (rfl : f.world.pos = streamAfter g f.diSize.toNat f.world.pos [])
  simp only [List.append_nil] at hplan
  exact hplan.symm

/-- A call stays inside the buffer, and its running size never wraps, exactly when the
extents of the file that it serves fit the file. -/
theorem bufferSafe_iff (fileName : List Byte) (size : BitVec 64) (w : World) :
    BufferSafe g fileName size w ↔ ∀ f, Served g fileName size w f → FitsFile g f := by
  constructor
  · intro h f hf
    have hcounter := (extentLoop_draining_iff g _ _ _ _).mp (h.counter f hf)
    refine (fitsFile_iff g f).mpr ⟨hcounter, (stores_lt_iff g _ _).mp fun i hi => ?_⟩
    exact h.fileSize f hf i ((storesAt_iff_of_served hf i).mpr hi)
  · intro h
    have hfile : ∀ f, Served g fileName size w f →
        ∀ i, StoresAt g fileName size w i → i < f.diSize.toNat := by
      intro f hf i hi
      have hreads := ((fitsFile_iff g f).mp (h f hf)).2
      exact (stores_lt_iff g _ _).mpr hreads i ((storesAt_iff_of_served hf i).mp hi)
    refine ⟨fun i hi => ?_, hfile, fun f hf => ?_⟩
    · by_cases hserved : ∃ f, Served g fileName size w f
      · rcases hserved with ⟨f, hf⟩
        have hlt := hfile f hf i hi
        have hle : f.diSize.toNat ≤ size.toNat := by
          have hnot := hf.2.2.2
          rw [BitVec.lt_def] at hnot
          exact Nat.le_of_not_lt hnot
        omega
      · push Not at hserved
        exact absurd hi (not_storesAt_of_refused hserved i)
    · exact (extentLoop_draining_iff g _ _ _ _).mpr ((fitsFile_iff g f).mp (h f hf)).1

/-- A file of one block with a second block preallocated beyond its end. -/
def preallocated : Globals :=
  (init .linux64 (singleFileImage (fileCore 512 2) [extentRecord 0 16 1, extentRecord 1 17 1]
    [] 32768)).1

/-- The preallocated block is read in full, to the index that is its block number: a buffer
of exactly the file's size is overrun. -/
theorem not_bufferSafe_preallocated :
    (readFileFromDisk preallocated [slash, 0x61#8] 512 (startWorld 0 zeroed)).1 = 0 ∧
      ¬BufferSafe preallocated [slash, 0x61#8] 512 (startWorld 0 zeroed) := by
  refine ⟨by decide +kernel, fun h => ?_⟩
  have hstores : StoresAt preallocated [slash, 0x61#8] 512 (startWorld 0 zeroed) 512 := by
    decide +kernel
  exact absurd (h.capacity 512 hstores) (by decide)

end Xfsd
