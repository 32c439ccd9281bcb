import Xfsd.Reader.Calls
import Xfsd.OnDisk.Encode
import Xfsd.Foundation.Runs

/-!
# XFSD - Where the bytes of a file end up

A byte of a file belongs at its own index in the caller's buffer.  The extent loop
takes the block number of an extent for the index of its first byte, so the bytes of
different extents overlap in the buffer, and each index keeps what the last extent
that reaches it has stored there.

Main results:

- Theorem {lit}`asked_eq`: how much of each extent of a well-mapped file is read.
- Theorem {lit}`contentPlaced_iff`: every byte of a well-mapped file is at its index
  exactly when, at each index, the byte that the last extent brings there is the same.
- Theorem {lit}`coincides_of_single`: a file of one extent is placed correctly.
-/

namespace Xfsd

open Foundation

variable (g : Globals)

/-! ## Well-mapped files -/

/-- The offset of an extent in the image. -/
def extentPlace (e : XfsBmbtIrec) : Nat :=
  e.brStartblock.toNat * g.sb.sbBlocksize.toNat

/-- The extents are written, sorted and disjoint, and cover all blocks of the file. -/
structure WellMapped (fileSize : Nat) (es : List XfsBmbtIrec) : Prop where
  written : ∀ e ∈ es, e.brState = .xfsExtNorm
  sorted : es.Pairwise fun e e' => e.brStartoff.toNat ≤ e'.brStartoff.toNat
  disjoint : es.Pairwise fun e e' => ∀ block, e.Covers block → ¬e'.Covers block
  covered : ∀ block < (fileSize + g.sb.sbBlocksize.toNat - 1) / g.sb.sbBlocksize.toNat,
    ∃ e ∈ es, e.Covers block

/-- No extent is 4 GiB long or longer. -/
def Short (es : List XfsBmbtIrec) : Prop :=
  ∀ e ∈ es, e.brBlockcount.toNat * g.sb.sbBlocksize.toNat < 2 ^ 32

/-- How much of an extent is read: an extent that starts in the file up to the end of the file,
one that starts beyond it in full. -/
def askedBytes (fileSize : Nat) (e : XfsBmbtIrec) : Nat :=
  if e.brStartoff.toNat * g.sb.sbBlocksize.toNat < fileSize then
    min (e.brBlockcount.toNat * g.sb.sbBlocksize.toNat)
      (fileSize - e.brStartoff.toNat * g.sb.sbBlocksize.toNat)
  else e.brBlockcount.toNat * g.sb.sbBlocksize.toNat

/-- Seeks and reads do what they are asked for: a {lit}`long` holds the offset of each extent,
and the image holds what is read of it. -/
def Readable (fileSize : Nat) (es : List XfsBmbtIrec) : Prop :=
  ∀ e ∈ es, extentPlace g e < 2 ^ (g.build.bitsPerLong - 1) ∧
    extentPlace g e + askedBytes g fileSize e ≤ g.file.size

/-! ## How much is read -/

variable {g}

/-- The 32-bit length of a short extent is its length. -/
theorem extentBytes_of_short (hbs : ValidBlocksize g.sb.sbBlocksize.toNat) {e : XfsBmbtIrec}
    (h : e.brBlockcount.toNat * g.sb.sbBlocksize.toNat < 2 ^ 32) :
    extentBytes g e = e.brBlockcount.toNat * g.sb.sbBlocksize.toNat ∧
      (e.brBlockcount.setWidth 32).toNat = e.brBlockcount.toNat ∧
      e.brBlockcount.toNat < 2 ^ 31 := by
  have hge := hbs.ge
  have hle : e.brBlockcount.toNat * 512 ≤ e.brBlockcount.toNat * g.sb.sbBlocksize.toNat :=
    Nat.mul_le_mul_left _ hge
  have hcount : (e.brBlockcount.setWidth 32).toNat = e.brBlockcount.toNat := by
    rw [BitVec.toNat_setWidth, Nat.mod_eq_of_lt (by omega)]
  refine ⟨?_, hcount, by omega⟩
  rw [extentBytes, blockBytes, BitVec.toNat_setWidth, BitVec.toNat_mul, hcount, Nat.mul_comm,
    Nat.mod_eq_of_lt h, Nat.mod_eq_of_lt (by omega)]

/-- A read that is not cut short asks for the whole extent. -/
theorem requested_in_full (hbs : ValidBlocksize g.sb.sbBlocksize.toNat) {e : XfsBmbtIrec}
    (h : e.brBlockcount.toNat * g.sb.sbBlocksize.toNat < 2 ^ 32) {left : BitVec 64}
    (hcut : ¬Partial g (e.brBlockcount.setWidth 32) left) :
    requested g (e.brBlockcount.setWidth 32) left =
      e.brBlockcount.toNat * g.sb.sbBlocksize.toNat := by
  have hle := hbs.le
  rcases extentBytes_of_short hbs h with ⟨-, hcount, hlt⟩
  rw [requested, if_neg hcut, g.build.toSizeT_of_lt (by omega), g.build.toSizeT_of_lt (by omega),
    hcount, Nat.mul_comm]

/-- With some of the file left, as much of an extent is read as is left at most. -/
theorem requested_of_left (hbs : ValidBlocksize g.sb.sbBlocksize.toNat) {e : XfsBmbtIrec}
    (h : e.brBlockcount.toNat * g.sb.sbBlocksize.toNat < 2 ^ 32) {left : BitVec 64}
    (hpos : left.toNat ≠ 0) (hlt : left.toNat < 2 ^ 31) :
    requested g (e.brBlockcount.setWidth 32) left =
      min (e.brBlockcount.toNat * g.sb.sbBlocksize.toNat) left.toNat := by
  have hbytes : (blockBytes g (e.brBlockcount.setWidth 32)).toNat =
      e.brBlockcount.toNat * g.sb.sbBlocksize.toNat := (extentBytes_of_short hbs h).1
  by_cases hcut : Partial g (e.brBlockcount.setWidth 32) left
  · have hless := BitVec.lt_def.mp hcut.2
    have hone : g.build.toSizeT 1 = 1 := g.build.toSizeT_of_lt (by decide)
    have hwidth : (left.setWidth 32).toNat = left.toNat := by
      rw [BitVec.toNat_setWidth, Nat.mod_eq_of_lt (by omega)]
    rw [requested, if_pos hcut, g.build.toSizeT_of_lt (by omega), hone, hwidth]
    omega
  · rw [requested_in_full hbs h hcut]
    have hge : ¬left.toNat < e.brBlockcount.toNat * g.sb.sbBlocksize.toNat := by
      intro hless
      refine hcut ⟨fun hzero => hpos (congrArg BitVec.toNat hzero), ?_⟩
      rw [BitVec.lt_def, hbytes]
      exact hless
    omega

/-- Once nothing of the file is left, the running size stays at 0 or wraps, and every extent
is read in full. -/
theorem asked_past_end (hbs : ValidBlocksize g.sb.sbBlocksize.toNat) {es : List XfsBmbtIrec}
    {left : BitVec 64} {pos k : Nat} (hshort : Short g es) (hlen : es.length + k < 2 ^ 32)
    (hleft : left.toNat = 0 ∨ 2 ^ 64 ≤ left.toNat + k * 2 ^ 32) :
    ∀ r ∈ plan g es left pos,
      r.asked g = r.irec.brBlockcount.toNat * g.sb.sbBlocksize.toNat := by
  induction es generalizing left pos k with
  | nil => simp [plan]
  | cons e es ih =>
      rw [Short, List.forall_mem_cons] at hshort
      rw [List.length_cons] at hlen
      have hbytes : (blockBytes g (e.brBlockcount.setWidth 32)).toNat =
          e.brBlockcount.toNat * g.sb.sbBlocksize.toNat := (extentBytes_of_short hbs hshort.1).1
      have hcut : ¬Partial g (e.brBlockcount.setWidth 32) left := by
        intro h
        rcases h with ⟨hne, hless⟩
        rw [BitVec.lt_def] at hless
        have hpos : left.toNat ≠ 0 := fun hzero => hne (BitVec.eq_of_toNat_eq hzero)
        omega
      have hrest : (left - consumed g (e.brBlockcount.setWidth 32) left).toNat = 0 ∨
          2 ^ 64 ≤ (left - consumed g (e.brBlockcount.setWidth 32) left).toNat +
            (k + 1) * 2 ^ 32 := by
        have hlt := left.isLt
        rw [consumed, if_neg hcut, BitVec.toNat_sub]
        omega
      rw [plan, List.forall_mem_cons]
      exact ⟨requested_in_full hbs hshort.1 hcut,
        ih hshort.2 (by omega) hrest⟩

/-- An extent that starts at the first byte that is left is read as far as the file goes, and
what is left then starts where it ends. -/
theorem asked_in_file (hbs : ValidBlocksize g.sb.sbBlocksize.toNat) {e : XfsBmbtIrec}
    {fileSize : Nat} {left : BitVec 64} (hsize : fileSize < 2 ^ 31)
    (h : e.brBlockcount.toNat * g.sb.sbBlocksize.toNat < 2 ^ 32)
    (hstart : e.brStartoff.toNat * g.sb.sbBlocksize.toNat < fileSize)
    (hleft : left.toNat = fileSize - e.brStartoff.toNat * g.sb.sbBlocksize.toNat) :
    requested g (e.brBlockcount.setWidth 32) left = askedBytes g fileSize e ∧
      (left - consumed g (e.brBlockcount.setWidth 32) left).toNat =
        fileSize - (e.brStartoff.toNat + e.brBlockcount.toNat) * g.sb.sbBlocksize.toNat := by
  have hpos : left.toNat ≠ 0 := by omega
  refine ⟨?_, ?_⟩
  · rw [requested_of_left hbs h hpos (by omega), askedBytes, if_pos hstart, hleft]
  · rw [(sub_consumed g (Or.inr hpos)).2, (extentBytes_of_short hbs h).1, hleft, Nat.add_mul,
      Nat.sub_add_eq]

/-- A block is a block of the file exactly when its first byte is a byte of the file. -/
theorem lt_fileBlocks_iff {bs fileSize block : Nat} (hbs : 0 < bs) :
    block < (fileSize + bs - 1) / bs ↔ block * bs < fileSize := by
  rw [Nat.lt_iff_add_one_le, Nat.le_div_iff_mul_le hbs, Nat.add_mul]
  omega

/-- How much of each extent of a well-mapped file is read. -/
theorem asked_eq (hbs : ValidBlocksize g.sb.sbBlocksize.toNat) {es : List XfsBmbtIrec}
    {fileSize lo : Nat} {left : BitVec 64} {pos : Nat} (hsize : fileSize < 2 ^ 31)
    (hshort : Short g es) (hlen : es.length < 2 ^ 32)
    (hcover : Covering (·.brStartoff.toNat) (·.brBlockcount.toNat) es lo
      ((fileSize + g.sb.sbBlocksize.toNat - 1) / g.sb.sbBlocksize.toNat))
    (hleft : left.toNat = fileSize - lo * g.sb.sbBlocksize.toNat) :
    ∀ r ∈ plan g es left pos, r.asked g = askedBytes g fileSize r.irec := by
  -- lo is the first block that the extents before es do not cover
  induction es generalizing lo left pos with
  | nil => simp [plan]
  | cons e es ih =>
      have hiff := @lt_fileBlocks_iff g.sb.sbBlocksize.toNat fileSize lo hbs.pos
      by_cases hlo : lo * g.sb.sbBlocksize.toNat < fileSize
      · rw [Short, List.forall_mem_cons] at hshort
        rw [List.length_cons] at hlen
        rw [plan, List.forall_mem_cons]
        by_cases hcount : e.brBlockcount.toNat = 0
        · have hleft' : (left - consumed g (e.brBlockcount.setWidth 32) left).toNat =
              fileSize - lo * g.sb.sbBlocksize.toNat := by
            rw [(sub_consumed g (Or.inr (by omega))).2, (extentBytes_of_short hbs hshort.1).1,
              hcount, Nat.zero_mul, Nat.sub_zero, hleft]
          refine ⟨?_, ih hshort.2 (by omega) (hcover.of_empty hcount) hleft'⟩
          have hasked : requested g (e.brBlockcount.setWidth 32) left =
              askedBytes g fileSize e := by
            rw [requested_of_left hbs hshort.1 (by omega) (by omega), askedBytes, hcount,
              Nat.zero_mul, Nat.zero_min, Nat.zero_min, ite_self]
          exact hasked
        · have hstart : e.brStartoff.toNat = lo := hcover.start_eq (hiff.mpr hlo) hcount
          rw [← hstart] at hlo hleft
          rcases asked_in_file hbs hsize hshort.1 hlo hleft with ⟨hasked, hleft'⟩
          refine ⟨hasked, ih hshort.2 (by omega) ?_ hleft'⟩
          rw [hstart]
          exact hcover.tail (hiff.mpr (hstart ▸ hlo)) hcount
      · intro r hr
        rw [asked_past_end (k := 0) hbs hshort hlen (Or.inl (by omega)) r hr, askedBytes]
        rcases hcover.after _ (plan_irec_mem g hr) with hcount | hstart
        · rw [hcount, Nat.zero_mul, Nat.zero_min, ite_self]
        · have hle := Nat.mul_le_mul_right g.sb.sbBlocksize.toNat hstart
          rw [if_neg (by omega)]

/-! ## Placement -/

variable (g)

/-- What the loop stores of an extent: its bytes, from the index that is its block number. -/
def storedPatch (fileSize : Nat) (e : XfsBmbtIrec) : Patch Byte where
  dst := g.build.toPtrdiff e.brStartoff
  len := askedBytes g fileSize e
  val := fun i => g.file.getD (extentPlace g e + i)

/-- What an index of the buffer holds after the loop: the byte that the last extent to reach the
index brings there, or what the buffer held. -/
def landed (fileSize : Nat) (es : List XfsBmbtIrec) (m : Memory Byte) (o : Nat) : Byte :=
  match es.reverse.find? fun e => (storedPatch g fileSize e).Hits o with
  | some e => g.file.getD (extentPlace g e + (o - g.build.toPtrdiff e.brStartoff).toNat)
  | none => m o

/-- The byte of the image that an extent says is a byte of the file. -/
def fileByte (e : XfsBmbtIrec) (o : Nat) : Byte :=
  g.file.getD
    ((e.brStartblock.toNat + (o / g.sb.sbBlocksize.toNat - e.brStartoff.toNat)) *
      g.sb.sbBlocksize.toNat + o % g.sb.sbBlocksize.toNat)

/-- At every byte of the file, the last extent that reaches its index brings the right byte. -/
def Coincides (fileSize : Nat) (es : List XfsBmbtIrec) (m : Memory Byte) : Prop :=
  ∀ o < fileSize, ∀ e ∈ es, e.Covers (o / g.sb.sbBlocksize.toNat) →
    landed g fileSize es m o = fileByte g e o

/-- After the call every byte of the file is at its index. -/
def ContentPlaced (fileName : List Byte) (size : BitVec 64) (w : World) (f : Located) : Prop :=
  ∀ o < f.diSize.toNat, ∀ e ∈ f.extents g, e.Covers (o / g.sb.sbBlocksize.toNat) →
    (readFileFromDisk g fileName size w).2.mem o = fileByte g e o

variable {g}

/-- Running the stores of some extents leaves at each index what the last of them brings. -/
theorem replay_storedPatch (fileSize : Nat) (es : List XfsBmbtIrec) (m : Memory Byte) (o : Nat) :
    m.replay (es.map (storedPatch g fileSize)) o = landed g fileSize es m o := by
  rw [Memory.replay_apply, lastHit_eq_find?, ← List.map_reverse, List.find?_map, landed,
    Function.comp_def]
  cases es.reverse.find? fun e => (storedPatch g fileSize e).Hits o with
  | none => rfl
  | some e => rfl

/-- The extents of a well-mapped file cover it from its first block on. -/
theorem WellMapped.covering {fileSize : Nat} {es : List XfsBmbtIrec}
    (h : WellMapped g fileSize es) :
    Covering (·.brStartoff.toNat) (·.brBlockcount.toNat) es 0
      ((fileSize + g.sb.sbBlocksize.toNat - 1) / g.sb.sbBlocksize.toNat) where
  sorted := h.sorted
  disjoint := h.disjoint
  after := fun _ _ => Or.inr (Nat.zero_le _)
  covered := fun block _ hlt => h.covered block hlt

/-- The extents of an inode are fewer than a 32-bit count can say. -/
theorem length_records (b : Build) (m : Memory Byte) (tot : Nat) (recp : Int) :
    (records b m tot recp).length = tot := by
  induction tot generalizing recp with
  | zero => rfl
  | succ tot ih => rw [records, List.length_cons, ih]

/-- A planned read that asks for no more than the image holds stores just that. -/
theorem patch_eq_storedPatch {es : List XfsBmbtIrec} {left : BitVec 64} {pos fileSize : Nat}
    {r : ExtentRead} (hr : r ∈ plan g es left pos) (hreadable : Readable g fileSize es)
    (hasked : r.asked g = askedBytes g fileSize r.irec) :
    r.patch g = storedPatch g fileSize r.irec := by
  rcases hreadable r.irec (plan_irec_mem g hr) with ⟨hlong, hheld⟩
  have hsrc : r.src = extentPlace g r.irec := by
    rcases plan_src g hr with ⟨pos', hsrc⟩
    rw [hsrc, ExtentRead.offset, blockOffset_eq g hlong, fseekSet_natCast]
    rfl
  have hgot : r.got g = askedBytes g fileSize r.irec := by
    rw [ExtentRead.got, hasked, hsrc, freadBytes_of_le hheld]
  rw [ExtentRead.patch, freadPatch, storedPatch, ← hgot, ← hsrc]
  rfl

/-- After a call that serves a well-mapped file, each index of the buffer holds what the last
extent to reach it brings. -/
theorem mem_of_wellMapped {fileName : List Byte} {size : BitVec 64} {w : World} {f : Located}
    (hbs : ValidBlocksize g.sb.sbBlocksize.toNat) (hserved : Served g fileName size w f)
    (hsize : f.diSize.toNat < 2 ^ 31) (hmapped : WellMapped g f.diSize.toNat (f.extents g))
    (hshort : Short g (f.extents g)) (hreadable : Readable g f.diSize.toNat (f.extents g))
    (o : Nat) :
    (readFileFromDisk g fileName size w).2.mem o =
      landed g f.diSize.toNat (f.extents g) w.mem o := by
  have hlen : (f.extents g).length < 2 ^ 32 := by
    have hlt := (xfsDforkNextents f.world.blockBuf f.raw).isLt
    have hlength : (f.extents g).length = (xfsDforkNextents f.world.blockBuf f.raw).toNat :=
      length_records _ _ _ _
    omega
  have hasked : ∀ r ∈ f.reads g, r.asked g = askedBytes g f.diSize.toNat r.irec :=
    asked_eq hbs hsize hshort hlen hmapped.covering (by omega)
  have hpatches : (f.reads g).map (·.patch g) =
      (f.extents g).map (storedPatch g f.diSize.toNat) := by
    have hirec : (f.reads g).map (·.irec) = f.extents g := plan_irec g _ _ _
    rw [← hirec, List.map_map]
    exact List.map_congr_left fun r hr => patch_eq_storedPatch hr hreadable (hasked r hr)
  rw [(readFileFromDisk_served hserved).2.1, delivered, hpatches, replay_storedPatch]

/-- Extents that cover nothing beyond the blocks of the file are short. -/
theorem short_of_within (hbs : ValidBlocksize g.sb.sbBlocksize.toNat) {fileSize : Nat}
    {es : List XfsBmbtIrec} (hsize : fileSize < 2 ^ 31)
    (h : ∀ e ∈ es, ∀ block, e.Covers block →
      block < (fileSize + g.sb.sbBlocksize.toNat - 1) / g.sb.sbBlocksize.toNat) :
    Short g es := by
  intro e he
  have hle := hbs.le
  by_cases hcount : e.brBlockcount.toNat = 0
  · rw [hcount]
    omega
  · have hlast := h e he (e.brStartoff.toNat + e.brBlockcount.toNat - 1)
      ⟨by omega, by omega⟩
    rw [lt_fileBlocks_iff hbs.pos] at hlast
    have hmono : (e.brBlockcount.toNat - 1) * g.sb.sbBlocksize.toNat ≤
        (e.brStartoff.toNat + e.brBlockcount.toNat - 1) * g.sb.sbBlocksize.toNat :=
      Nat.mul_le_mul_right _ (by omega)
    rw [Nat.sub_mul] at hmono
    omega

/-- A file of one extent is placed correctly. -/
theorem coincides_of_single (hbs : ValidBlocksize g.sb.sbBlocksize.toNat) {fileSize : Nat}
    {e : XfsBmbtIrec} (hmapped : WellMapped g fileSize [e]) (m : Memory Byte) :
    Coincides g fileSize [e] m := by
  intro o ho e' he' hcovers
  rw [List.mem_singleton] at he'
  subst he'
  have hzero : 0 * g.sb.sbBlocksize.toNat < fileSize := by omega
  rcases hmapped.covered 0 ((lt_fileBlocks_iff hbs.pos).mpr hzero) with ⟨e'', he'', hle, -⟩
  rw [List.mem_singleton] at he''
  subst he''
  have hstart : e''.brStartoff = 0 := BitVec.eq_of_toNat_eq (by simpa using hle)
  have hdst : g.build.toPtrdiff e''.brStartoff = 0 := by
    rw [hstart]
    cases g.build <;> rfl
  have hoff : e''.brStartoff.toNat = 0 := by omega
  have hin : o < e''.brBlockcount.toNat * g.sb.sbBlocksize.toNat := by
    rw [← Nat.div_lt_iff_lt_mul hbs.pos]
    have hlt := hcovers.2
    omega
  have hhits : (storedPatch g fileSize e'').Hits o := by
    simp only [Patch.Hits, storedPatch, hdst, askedBytes, hoff, Nat.zero_mul]
    rw [if_pos (by omega)]
    omega
  have hplace : extentPlace g e'' + o =
      (e''.brStartblock.toNat + o / g.sb.sbBlocksize.toNat) * g.sb.sbBlocksize.toNat +
        o % g.sb.sbBlocksize.toNat := by
    have hdiv := Nat.div_add_mod' o g.sb.sbBlocksize.toNat
    rw [extentPlace, Nat.add_mul]
    omega
  rw [landed, List.reverse_singleton, List.find?_singleton]
  simp only [hhits, decide_true, if_true, hdst, sub_zero, Int.toNat_natCast]
  rw [fileByte, hoff, Nat.sub_zero, ← hplace]

/-- Every byte of a well-mapped file is at its index exactly when, at each index, the byte that
the last extent brings there is the same. -/
theorem contentPlaced_iff {fileName : List Byte} {size : BitVec 64} {w : World} {f : Located}
    (hbs : ValidBlocksize g.sb.sbBlocksize.toNat) (hserved : Served g fileName size w f)
    (hsize : f.diSize.toNat < 2 ^ 31) (hmapped : WellMapped g f.diSize.toNat (f.extents g))
    (hshort : Short g (f.extents g)) (hreadable : Readable g f.diSize.toNat (f.extents g)) :
    ContentPlaced g fileName size w f ↔ Coincides g f.diSize.toNat (f.extents g) w.mem := by
  have hmem := mem_of_wellMapped hbs hserved hsize hmapped hshort hreadable
  constructor
  · intro h o ho e he hcovers
    rw [← hmem]
    exact h o ho e he hcovers
  · intro h o ho e he hcovers
    rw [hmem]
    exact h o ho e he hcovers

/-- A file of two blocks in two extents. -/
def twoBlocks : Globals :=
  (init .linux64 (singleFileImage (fileCore 1024 2) [extentRecord 0 16 1, extentRecord 1 17 1]
    [(8192, [1, 2, 3]), (8704, [4, 5, 6])] 32768)).1

/-- The inode of this file, located by its path. -/
def twoBlocksFile : Located :=
  locatedAt twoBlocks [slash, 0x61#8] (startWorld 0 zeroed) 9

theorem served_twoBlocksFile :
    Served twoBlocks [slash, 0x61#8] 1024 (startWorld 0 zeroed) twoBlocksFile := by
  have hwalk : (walk twoBlocks [slash, 0x61#8] twoBlocks.rootino (startWorld 0 zeroed)).1 =
      .ok 9 := by decide +kernel
  exact served_locatedAt hwalk (by decide +kernel)

theorem extents_twoBlocksFile :
    twoBlocksFile.extents twoBlocks =
      [{ brStartoff := 0, brStartblock := 16, brBlockcount := 1, brState := .xfsExtNorm },
        { brStartoff := 1, brStartblock := 17, brBlockcount := 1, brState := .xfsExtNorm }] := by
  decide +kernel

theorem wellMapped_twoBlocksFile :
    WellMapped twoBlocks twoBlocksFile.diSize.toNat (twoBlocksFile.extents twoBlocks) := by
  have hsize : twoBlocksFile.diSize.toNat = 1024 := by decide +kernel
  have hbs : twoBlocks.sb.sbBlocksize.toNat = 512 := by decide +kernel
  rw [extents_twoBlocksFile, hsize]
  refine ⟨by simp, by simp, ?_, ?_⟩
  · simp [XfsBmbtIrec.Covers]
  · intro block hblock
    rw [hbs] at hblock
    simp [XfsBmbtIrec.Covers]
    omega

theorem readable_twoBlocksFile :
    Readable twoBlocks twoBlocksFile.diSize.toNat (twoBlocksFile.extents twoBlocks) := by
  unfold Readable
  decide +kernel

/-- For this file, correct placement comes down to what its two extents bring. -/
theorem contentPlaced_twoBlocks :
    ContentPlaced twoBlocks [slash, 0x61#8] 1024 (startWorld 0 zeroed) twoBlocksFile ↔
      Coincides twoBlocks 1024 (twoBlocksFile.extents twoBlocks) zeroed := by
  have hbs : ValidBlocksize twoBlocks.sb.sbBlocksize.toNat :=
    ⟨9, by omega, by omega, by decide +kernel⟩
  have hsize : twoBlocksFile.diSize.toNat = 1024 := by decide +kernel
  have hshort : Short twoBlocks (twoBlocksFile.extents twoBlocks) := by
    unfold Short
    decide +kernel
  have hiff := contentPlaced_iff hbs served_twoBlocksFile (by omega) wellMapped_twoBlocksFile
    hshort readable_twoBlocksFile
  rw [hsize] at hiff
  exact hiff

/-- The second block is stored from index 1 on. -/
theorem not_contentPlaced_twoBlocks :
    (readFileFromDisk twoBlocks [slash, 0x61#8] 1024 (startWorld 0 zeroed)).1 = 0 ∧
      Served twoBlocks [slash, 0x61#8] 1024 (startWorld 0 zeroed) twoBlocksFile ∧
      WellMapped twoBlocks twoBlocksFile.diSize.toNat (twoBlocksFile.extents twoBlocks) ∧
      Readable twoBlocks twoBlocksFile.diSize.toNat (twoBlocksFile.extents twoBlocks) ∧
      ¬ContentPlaced twoBlocks [slash, 0x61#8] 1024 (startWorld 0 zeroed) twoBlocksFile := by
  refine ⟨by decide +kernel, served_twoBlocksFile, wellMapped_twoBlocksFile,
    readable_twoBlocksFile, fun h => ?_⟩
  have hfirst : (⟨0, 16, 1, .xfsExtNorm⟩ : XfsBmbtIrec) ∈ twoBlocksFile.extents twoBlocks := by
    rw [extents_twoBlocksFile]
    exact List.mem_cons_self
  have hbyte := h 1 (by decide +kernel) _ hfirst (by decide +kernel)
  exact absurd hbyte (by decide +kernel)

end Xfsd
