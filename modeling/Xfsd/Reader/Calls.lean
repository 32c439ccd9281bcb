import Xfsd.Reader.Extents

/-!
# XFSD - Calls of the reader

A call of {lit}`read_file_from_disk` first locates the inode, which touches only
the block buffer, and then either serves the file or refuses the call.  This
module states both outcomes once for all later results.

Main results:

- Theorem {lit}`walk_induction`: the rule of the path loop.
- Theorem {lit}`walk_onlyBlocks`: the path loop only fills the block buffer.
- Theorem {lit}`readFileFromDisk_served`: a call that passes every check returns 0
  with the planned reads carried out.
- Theorem {lit}`readFileFromDisk_refused`: every other call returns a negative code
  and only fills the block buffer.
-/

namespace Xfsd

open Foundation

variable (g : Globals)

/-! ## Library calls and the bytes they store -/

/-- The library call stores the byte at an index of an object. -/
def IoEvent.StoresTo (o : Object) (i : Int) : IoEvent → Prop
  | .seek _ _ => False
  | .read dst _ _ got => dst.object = o ∧ dst.offset ≤ i ∧ i < dst.offset + got

instance (o : Object) (i : Int) : DecidablePred (IoEvent.StoresTo o i)
  | .seek _ _ => inferInstanceAs (Decidable False)
  | .read dst _ _ got =>
      inferInstanceAs (Decidable (dst.object = o ∧ dst.offset ≤ i ∧ i < dst.offset + got))

/-- Going from one state to another touched only the block buffer. -/
def OnlyCache (w w' : World) : Prop :=
  w'.mem = w.mem ∧
    ∃ events, w'.log = w.log ++ events ∧ ∀ ev ∈ events, ∀ i, ¬ev.StoresTo .mem i

/-- The library call seeks, or reads a block to the start of the block buffer. -/
def IoEvent.FillsBlock (g : Globals) : IoEvent → Prop
  | .seek _ _ => True
  | .read dst _ asked _ => dst = ⟨.blockBuf, 0⟩ ∧ asked = blockRequest g

/-- Going from one state to another only read blocks to the block buffer. -/
def OnlyBlocks (w w' : World) : Prop :=
  w'.mem = w.mem ∧ ∃ events, w'.log = w.log ++ events ∧ ∀ ev ∈ events, ev.FillsBlock g

theorem OnlyBlocks.refl (w : World) : OnlyBlocks g w w :=
  ⟨rfl, [], by simp, by simp⟩

variable {g} in
theorem OnlyBlocks.trans {w₁ w₂ w₃ : World} (h₁ : OnlyBlocks g w₁ w₂) (h₂ : OnlyBlocks g w₂ w₃) :
    OnlyBlocks g w₁ w₃ := by
  rcases h₁ with ⟨hmem₁, ev₁, hlog₁, hfills₁⟩
  rcases h₂ with ⟨hmem₂, ev₂, hlog₂, hfills₂⟩
  refine ⟨hmem₂.trans hmem₁, ev₁ ++ ev₂, by rw [hlog₂, hlog₁, List.append_assoc], ?_⟩
  rw [List.forall_mem_append]
  exact ⟨hfills₁, hfills₂⟩

variable {g} in
/-- A block that goes to the block buffer does not go to the caller's buffer. -/
theorem OnlyBlocks.onlyCache {w w' : World} (h : OnlyBlocks g w w') : OnlyCache w w' := by
  rcases h with ⟨hmem, events, hlog, hfills⟩
  refine ⟨hmem, events, hlog, fun ev hev i hstores => ?_⟩
  cases ev with
  | seek offset ok => exact hstores
  | read dst src asked got =>
      have hdst := (hfills _ hev).1
      rw [hdst] at hstores
      exact absurd hstores.1 (by simp)

/-- An inode read fills the block buffer. -/
theorem inodeWorld_onlyBlocks (inode : BitVec 32) (w : World) :
    OnlyBlocks g w (inodeWorld g inode w) := by
  refine ⟨inodeWorld_mem g inode w, _, inodeWorld_log g inode w, ?_⟩
  simp [IoEvent.FillsBlock]

/-! ## The path loop -/

/-- One turn of the path loop reads one inode and consults one directory. -/
theorem walkStep_cons (rest : List Byte) (ino : BitVec 64) (w : World) :
    walkStep g { fileName := slash :: rest, nextIno := ino, world := w } =
      match lookupStep (inodeWorld g (ino.setWidth 32) w).blockBuf
          (inodeAddr g (ino.setWidth 32))
          (xfsDinodeFromDisk (inodeWorld g (ino.setWidth 32) w).blockBuf
            (inodeAddr g (ino.setWidth 32))) rest ino with
      | .error e => .inl (.error e, inodeWorld g (ino.setWidth 32) w)
      | .ok (rest', ino') =>
          .inr
            { fileName := rest', nextIno := ino', world := inodeWorld g (ino.setWidth 32) w } := by
  rw [walkStep, readInodeRelative_eq]
  exact if_neg (by simp)

theorem walkStep_nil (ino : BitVec 64) (w : World) :
    walkStep g { fileName := [], nextIno := ino, world := w } = .inl (.ok ino, w) := rfl

theorem walkStep_cons_of_ne {c : Byte} (hc : c ≠ slash) (rest : List Byte) (ino : BitVec 64)
    (w : World) :
    walkStep g { fileName := c :: rest, nextIno := ino, world := w } = .inl (.error (-3), w) := by
  simp [walkStep, hc]

@[simp]
theorem walk_nil (ino : BitVec 64) (w : World) : walk g [] ino w = (.ok ino, w) :=
  loop_of_exit (walkStep_nil g ino w)

/-- A path that goes on without a slash is refused before any read. -/
theorem walk_cons_of_ne {c : Byte} (hc : c ≠ slash) (rest : List Byte) (ino : BitVec 64)
    (w : World) : walk g (c :: rest) ino w = (.error (-3), w) :=
  loop_of_exit (walkStep_cons_of_ne g hc rest ino w)

/-- The path loop takes one turn and goes on from there. -/
theorem walk_cons (rest : List Byte) (ino : BitVec 64) (w : World) :
    walk g (slash :: rest) ino w =
      match lookupStep (inodeWorld g (ino.setWidth 32) w).blockBuf
          (inodeAddr g (ino.setWidth 32))
          (xfsDinodeFromDisk (inodeWorld g (ino.setWidth 32) w).blockBuf
            (inodeAddr g (ino.setWidth 32))) rest ino with
      | .error e => (.error e, inodeWorld g (ino.setWidth 32) w)
      | .ok (rest', ino') => walk g rest' ino' (inodeWorld g (ino.setWidth 32) w) := by
  rw [walk, loop_eq, walkStep_cons]
  split <;> rename_i h
  · split at h
    · cases h
      rfl
    · cases h
  · split at h
    · cases h
    · cases h
      rfl

/-- The codes that a lookup can end a call with. -/
theorem lookupStep_error {m : Memory Byte} {raw : Int} {cur : XfsIcdinode}
    {fileName : List Byte} {ino : BitVec 64} {e : Int}
    (h : lookupStep m raw cur fileName ino = .error e) : -4 ≤ e ∧ e < 0 := by
  rcases lookupStep_cases m raw cur fileName ino with ⟨e', he', hcode⟩ | ⟨ino', hok⟩
  · rw [he'] at h
    cases h
    exact hcode
  · rw [hok] at h
    cases h

/-- The rule of the path loop: what holds where it ends, and is carried back by a turn, holds of
the whole walk. -/
theorem walk_induction {P : List Byte → BitVec 64 → World → Except Int (BitVec 64) × World → Prop}
    (hdone : ∀ ino w, P [] ino w (.ok ino, w))
    (hrefused : ∀ c rest ino w, c ≠ slash → P (c :: rest) ino w (.error (-3), w))
    (hstop : ∀ rest ino w e,
      lookupStep (inodeWorld g (ino.setWidth 32) w).blockBuf (inodeAddr g (ino.setWidth 32))
        (xfsDinodeFromDisk (inodeWorld g (ino.setWidth 32) w).blockBuf
          (inodeAddr g (ino.setWidth 32))) rest ino = .error e →
        P (slash :: rest) ino w (.error e, inodeWorld g (ino.setWidth 32) w))
    (hturn : ∀ rest ino w rest' ino' r,
      lookupStep (inodeWorld g (ino.setWidth 32) w).blockBuf (inodeAddr g (ino.setWidth 32))
        (xfsDinodeFromDisk (inodeWorld g (ino.setWidth 32) w).blockBuf
          (inodeAddr g (ino.setWidth 32))) rest ino = .ok (rest', ino') →
        P rest' ino' (inodeWorld g (ino.setWidth 32) w) r → P (slash :: rest) ino w r)
    (fileName : List Byte) (ino : BitVec 64) (w : World) :
    P fileName ino w (walk g fileName ino w) := by
  let Q : WalkState → Except Int (BitVec 64) × World → Prop := fun s r =>
    P s.fileName s.nextIno s.world r
  suffices h : Q { fileName := fileName, nextIno := ino, world := w } (walk g fileName ino w) from h
  apply loop_induction
  · intro s r hs
    rcases s with ⟨path, next, w⟩
    cases path with
    | nil =>
        rw [walkStep_nil] at hs
        cases hs
        exact hdone next w
    | cons c rest =>
        by_cases hc : c = slash
        · subst hc
          rw [walkStep_cons] at hs
          split at hs
          · cases hs
            exact hstop rest next w _ ‹_›
          · cases hs
        · rw [walkStep_cons_of_ne g hc] at hs
          cases hs
          exact hrefused c rest next w hc
  · intro s s' r hs hr
    rcases s with ⟨path, next, w⟩
    cases path with
    | nil =>
        rw [walkStep_nil] at hs
        cases hs
    | cons c rest =>
        by_cases hc : c = slash
        · subst hc
          rw [walkStep_cons] at hs
          split at hs
          · cases hs
          · cases hs
            exact hturn rest next w _ _ r ‹_› hr
        · rw [walkStep_cons_of_ne g hc] at hs
          cases hs

/-- The path loop only reads blocks to the block buffer, and it knows three codes. -/
theorem walk_onlyBlocks (fileName : List Byte) (ino : BitVec 64) (w : World) :
    OnlyBlocks g w (walk g fileName ino w).2 ∧
      ∀ e, (walk g fileName ino w).1 = .error e → -4 ≤ e ∧ e < 0 := by
  apply walk_induction g (P := fun _ _ w r =>
    OnlyBlocks g w r.2 ∧ ∀ e, r.1 = .error e → -4 ≤ e ∧ e < 0)
  · intro ino w
    exact ⟨OnlyBlocks.refl g w, by simp⟩
  · intro c rest ino w _
    refine ⟨OnlyBlocks.refl g w, fun e he => ?_⟩
    cases he
    simp
  · intro rest ino w e hlookup
    refine ⟨inodeWorld_onlyBlocks g _ w, fun e' he' => ?_⟩
    cases he'
    exact lookupStep_error hlookup
  · intro rest ino w rest' ino' r _ hr
    exact ⟨(inodeWorld_onlyBlocks g _ w).trans hr.1, hr.2⟩

/-! ## Whole calls -/

/-- An inode that the reader has located: its address in the block buffer, and the
state at that point. -/
structure Located where
  raw : Int
  world : World

namespace Located

variable (f : Located)

/-- The decoded core. -/
def core : XfsIcdinode :=
  xfsDinodeFromDisk f.world.blockBuf f.raw

/-- The file size, as an unsigned number. -/
def diSize : BitVec 64 :=
  rawDiSize f.world.blockBuf f.raw

/-- The extent records of the inode. -/
def extents : List XfsBmbtIrec :=
  extentsAt g f.world.blockBuf f.raw

/-- The reads that bring the file to the caller. -/
def reads : List ExtentRead :=
  plan g (f.extents g) f.diSize f.world.pos

end Located

/-- The path loop ends at an inode, and reading it leads to {lit}`f`. -/
def LocatesTo (fileName : List Byte) (w : World) (f : Located) : Prop :=
  ∃ ino, (walk g fileName g.rootino w).1 = .ok ino ∧
    f.raw = inodeAddr g (ino.setWidth 32) ∧
    f.world = inodeWorld g (ino.setWidth 32) (walk g fileName g.rootino w).2

/-- An inode read after the path loop. -/
def locatedAt (fileName : List Byte) (w : World) (ino : BitVec 64) : Located where
  raw := inodeAddr g (ino.setWidth 32)
  world := inodeWorld g (ino.setWidth 32) (walk g fileName g.rootino w).2

/-- The call passes every check and enters the extent loop. -/
def Served (fileName : List Byte) (size : BitVec 64) (w : World) (f : Located) : Prop :=
  LocatesTo g fileName w f ∧ Admits f.world.blockBuf f.raw f.core size

variable {g}

/-- A path leads to at most one inode. -/
theorem LocatesTo.unique {fileName : List Byte} {w : World} {f f' : Located}
    (h : LocatesTo g fileName w f) (h' : LocatesTo g fileName w f') : f = f' := by
  rcases h with ⟨ino, hino, hraw, hworld⟩
  rcases h' with ⟨ino', hino', hraw', hworld'⟩
  rw [hino] at hino'
  cases hino'
  cases f
  cases f'
  simp only at hraw hworld hraw' hworld'
  rw [hraw, hworld, hraw', hworld']

/-- A path whose walk succeeds leads to an inode. -/
theorem exists_locatesTo {fileName : List Byte} {w : World} {ino : BitVec 64}
    (h : (walk g fileName g.rootino w).1 = .ok ino) : ∃ f, LocatesTo g fileName w f :=
  ⟨locatedAt g fileName w ino, ino, h, rfl, rfl⟩

/-- A path whose walk succeeds at an inode that passes the checks is served. -/
theorem served_locatedAt {fileName : List Byte} {size : BitVec 64} {w : World} {ino : BitVec 64}
    (h : (walk g fileName g.rootino w).1 = .ok ino)
    (hadmits : Admits (locatedAt g fileName w ino).world.blockBuf
      (locatedAt g fileName w ino).raw (locatedAt g fileName w ino).core size) :
    Served g fileName size w (locatedAt g fileName w ino) :=
  ⟨⟨ino, h, rfl, rfl⟩, hadmits⟩

theorem LocatesTo.onlyBlocks {fileName : List Byte} {w : World} {f : Located}
    (h : LocatesTo g fileName w f) : OnlyBlocks g w f.world := by
  rcases h with ⟨ino, -, -, hworld⟩
  rw [hworld]
  exact (walk_onlyBlocks g fileName g.rootino w).1.trans (inodeWorld_onlyBlocks g _ _)

/-- The reader on a path that leads to an inode. -/
theorem readFileFromDisk_located {fileName : List Byte} {size : BitVec 64} {w : World}
    {f : Located} (h : LocatesTo g fileName w f) :
    readFileFromDisk g fileName size w = readContent g f.raw f.core size f.world := by
  rcases h with ⟨ino, hino, hraw, hworld⟩
  have hwalk : walk g fileName g.rootino w = (.ok ino, (walk g fileName g.rootino w).2) := by
    rw [← hino]
  simp only [readFileFromDisk, locate]
  rw [hwalk]
  simp only [readInodeRelative_eq, Located.core, hraw, hworld]

/-- The reader on a path that leads nowhere. -/
theorem readFileFromDisk_lost {fileName : List Byte} {size : BitVec 64} {w : World} {e : Int}
    (h : (walk g fileName g.rootino w).1 = .error e) :
    readFileFromDisk g fileName size w = (e, (walk g fileName g.rootino w).2) := by
  have hwalk : walk g fileName g.rootino w = (.error e, (walk g fileName g.rootino w).2) := by
    rw [← h]
  simp only [readFileFromDisk, locate]
  rw [hwalk]

/-- A call that passes every check returns 0 with the planned reads carried out. -/
theorem readFileFromDisk_served {fileName : List Byte} {size : BitVec 64} {w : World}
    {f : Located} (h : Served g fileName size w f) :
    (readFileFromDisk g fileName size w).1 = 0 ∧
      (readFileFromDisk g fileName size w).2.mem = delivered g (f.reads g) w.mem ∧
      (readFileFromDisk g fileName size w).2.log =
        f.world.log ++ (f.reads g).flatMap (·.events g) := by
  rcases h with ⟨hloc, hadmits⟩
  have hmem : f.world.mem = w.mem := hloc.onlyBlocks.1
  rcases readContent_of_admits g hadmits with ⟨pos, hpos⟩
  have hreads : contentReads g f.raw f.world = f.reads g := rfl
  rw [readFileFromDisk_located hloc, hpos, hreads]
  refine ⟨rfl, ?_, rfl⟩
  simp only [hmem]

/-- Every other call returns one of five negative codes, and only reads blocks to the block
buffer. -/
theorem readFileFromDisk_refused {fileName : List Byte} {size : BitVec 64} {w : World}
    (h : ∀ f, ¬Served g fileName size w f) :
    -5 ≤ (readFileFromDisk g fileName size w).1 ∧ (readFileFromDisk g fileName size w).1 < 0 ∧
      OnlyBlocks g w (readFileFromDisk g fileName size w).2 := by
  cases hwalk : (walk g fileName g.rootino w).1 with
  | error e =>
      have hblocks := walk_onlyBlocks g fileName g.rootino w
      have hcode := hblocks.2 e hwalk
      rw [readFileFromDisk_lost hwalk]
      exact ⟨by simp only; omega, hcode.2, hblocks.1⟩
  | ok ino =>
      rcases exists_locatesTo hwalk with ⟨f, hloc⟩
      have hnot : ¬Admits f.world.blockBuf f.raw f.core size := fun hadmits =>
        h f ⟨hloc, hadmits⟩
      rw [readFileFromDisk_located hloc]
      rcases readContent_of_not_admits g hnot with hcontent | hcontent
      · rw [hcontent]
        exact ⟨by simp, by simp, hloc.onlyBlocks⟩
      · rw [hcontent]
        exact ⟨by simp, by simp, hloc.onlyBlocks⟩

/-- The reader returns 0 exactly when the call passes every check. -/
theorem readFileFromDisk_eq_zero_iff {fileName : List Byte} {size : BitVec 64} {w : World} :
    (readFileFromDisk g fileName size w).1 = 0 ↔ ∃ f, Served g fileName size w f := by
  constructor
  · intro hzero
    by_contra hnone
    push Not at hnone
    have hneg := (readFileFromDisk_refused hnone).2.1
    omega
  · intro h
    rcases h with ⟨f, hf⟩
    exact (readFileFromDisk_served hf).1

/-- The file that a call serves is the one that the path loop ends at. -/
theorem Served.eq_locatedAt {fileName : List Byte} {size : BitVec 64} {w : World} {f : Located}
    {ino : BitVec 64} (h : Served g fileName size w f)
    (hino : (walk g fileName g.rootino w).1 = .ok ino) : f = locatedAt g fileName w ino :=
  h.1.unique ⟨ino, hino, rfl, rfl⟩

theorem Served.unique {fileName : List Byte} {size : BitVec 64} {w : World} {f f' : Located}
    (h : Served g fileName size w f) (h' : Served g fileName size w f') : f = f' :=
  h.1.unique h'.1

/-! ## The inodes on a path -/

/-- The path loop goes from an inode to an inode, reading these inodes in order. -/
inductive Visits (g : Globals) :
    List Byte → BitVec 64 → World → List (BitVec 64) → BitVec 64 → World → Prop where
  | done (ino : BitVec 64) (w : World) : Visits g [] ino w [] ino w
  | turn {rest rest' : List Byte} {ino ino' target : BitVec 64} {w w' : World}
      {visited : List (BitVec 64)} :
      lookupStep (inodeWorld g (ino.setWidth 32) w).blockBuf (inodeAddr g (ino.setWidth 32))
          (xfsDinodeFromDisk (inodeWorld g (ino.setWidth 32) w).blockBuf
            (inodeAddr g (ino.setWidth 32))) rest ino = .ok (rest', ino') →
        Visits g rest' ino' (inodeWorld g (ino.setWidth 32) w) visited target w' →
        Visits g (slash :: rest) ino w (ino :: visited) target w'

/-- The inodes on a path are determined. -/
theorem Visits.unique {fileName : List Byte} {ino target target' : BitVec 64} {w w₁ w₂ : World}
    {visited visited' : List (BitVec 64)} (h : Visits g fileName ino w visited target w₁)
    (h' : Visits g fileName ino w visited' target' w₂) :
    visited = visited' ∧ target = target' ∧ w₁ = w₂ := by
  induction h generalizing visited' with
  | done ino w =>
      cases h'
      exact ⟨rfl, rfl, rfl⟩
  | turn hlookup _ ih =>
      cases h' with
      | turn hlookup' hrest' =>
          rw [hlookup, Except.ok.injEq, Prod.mk.injEq] at hlookup'
          rcases hlookup' with ⟨rfl, rfl⟩
          rcases ih hrest' with ⟨hvisited, htarget, hworld⟩
          exact ⟨by rw [hvisited], htarget, hworld⟩

/-- The path loop ends at an inode exactly when it visits the inodes on the way there. -/
theorem walk_eq_ok_iff {fileName : List Byte} {ino target : BitVec 64} {w w' : World} :
    walk g fileName ino w = (.ok target, w') ↔
      ∃ visited, Visits g fileName ino w visited target w' := by
  constructor
  · apply walk_induction g (P := fun path ino w r =>
      r = (.ok target, w') → ∃ visited, Visits g path ino w visited target w')
    · intro ino w hr
      cases hr
      exact ⟨[], .done _ _⟩
    · intro c rest ino w _ hr
      cases hr
    · intro rest ino w e _ hr
      cases hr
    · intro rest ino w rest' ino' r hlookup ih hr
      rcases ih hr with ⟨visited, hvisits⟩
      exact ⟨ino :: visited, .turn hlookup hvisits⟩
  · intro h
    rcases h with ⟨visited, hvisits⟩
    induction hvisits with
    | done ino w => exact walk_nil g ino w
    | turn hlookup _ ih =>
        rw [walk_cons, hlookup]
        exact ih

/-! ## Calls with another buffer -/

/-- The same state with another caller's buffer. -/
def World.withMem (w : World) (m : Memory Byte) : World :=
  { w with mem := m }

/-- The same inode located with another caller's buffer. -/
def Located.withMem (f : Located) (m : Memory Byte) : Located :=
  { f with world := f.world.withMem m }

/-- The path loop does not look at the caller's buffer. -/
theorem walk_withMem (fileName : List Byte) (ino : BitVec 64) (w : World) (m : Memory Byte) :
    walk g fileName ino (w.withMem m) =
      ((walk g fileName ino w).1, (walk g fileName ino w).2.withMem m) := by
  -- reading an inode commutes with the change of buffer
  have hread : ∀ ino w, inodeWorld g ino (w.withMem m) = (inodeWorld g ino w).withMem m :=
    fun _ _ => rfl
  have hbuf : ∀ w : World, (w.withMem m).blockBuf = w.blockBuf := fun _ => rfl
  apply walk_induction g (P := fun path ino w r =>
    walk g path ino (w.withMem m) = (r.1, r.2.withMem m))
  · intro ino w
    exact walk_nil g ino _
  · intro c rest ino w hc
    exact walk_cons_of_ne g hc rest ino _
  · intro rest ino w e hlookup
    rw [walk_cons, hread, hbuf, hlookup]
  · intro rest ino w rest' ino' r hlookup hr
    rw [walk_cons, hread, hbuf, hlookup]
    exact hr

/-- A call is served with any buffer or with none. -/
theorem served_withMem_iff {fileName : List Byte} {size : BitVec 64} {w : World}
    {m : Memory Byte} {f' : Located} :
    Served g fileName size (w.withMem m) f' ↔
      ∃ f, Served g fileName size w f ∧ f' = f.withMem m := by
  constructor
  · intro h
    rcases h with ⟨⟨ino, hino, hraw, hworld⟩, hadmits⟩
    rw [walk_withMem] at hino hworld
    have hf : f' = (locatedAt g fileName w ino).withMem m := by
      cases f'
      simp only at hraw hworld
      rw [hraw, hworld]
      rfl
    rw [hf] at hadmits
    exact ⟨locatedAt g fileName w ino, served_locatedAt hino hadmits, hf⟩
  · intro h
    rcases h with ⟨f, ⟨⟨ino, hino, hraw, hworld⟩, hadmits⟩, rfl⟩
    refine ⟨⟨ino, ?_, hraw, ?_⟩, hadmits⟩
    · rw [walk_withMem]
      exact hino
    · rw [walk_withMem, Located.withMem, hworld]
      rfl

variable (g)

/-- The call with a given buffer. -/
def readWith (fileName : List Byte) (size : BitVec 64) (w : World) (m : Memory Byte) :
    Int × World :=
  readFileFromDisk g fileName size (w.withMem m)

variable {g}

/-- A call with a given buffer delivers the planned reads into that buffer. -/
theorem readWith_mem {fileName : List Byte} {size : BitVec 64} {w : World} {f : Located}
    (h : Served g fileName size w f) (m : Memory Byte) :
    Served g fileName size (w.withMem m) (f.withMem m) ∧
      (readWith g fileName size w m).2.mem = delivered g (f.reads g) m := by
  have hserved : Served g fileName size (w.withMem m) (f.withMem m) :=
    served_withMem_iff.mpr ⟨f, h, rfl⟩
  exact ⟨hserved, (readFileFromDisk_served hserved).2.1⟩

/-! ## What a call stores to the caller's buffer -/

variable (g)

/-- The library calls that one call of the reader makes. -/
def callEvents (fileName : List Byte) (size : BitVec 64) (w : World) : List IoEvent :=
  (readFileFromDisk g fileName size w).2.log.drop w.log.length

/-- The call stores the byte at an index of the caller's buffer. -/
def StoresAt (fileName : List Byte) (size : BitVec 64) (w : World) (i : Int) : Prop :=
  ∃ ev ∈ callEvents g fileName size w, ev.StoresTo .mem i

instance (fileName : List Byte) (size : BitVec 64) (w : World) (i : Int) :
    Decidable (StoresAt g fileName size w i) :=
  inferInstanceAs (Decidable (∃ ev ∈ _, IoEvent.StoresTo .mem i ev))

variable {g}

/-- What a call that returns 0 stores is what the planned reads bring. -/
theorem storesAt_iff_of_served {fileName : List Byte} {size : BitVec 64} {w : World}
    {f : Located} (h : Served g fileName size w f) (i : Int) :
    StoresAt g fileName size w i ↔ ∃ r ∈ f.reads g, (r.patch g).Hits i := by
  rcases h.1.onlyBlocks.onlyCache with ⟨-, events, hlog, hcache⟩
  have hcall : callEvents g fileName size w =
      events ++ (f.reads g).flatMap (·.events g) := by
    rw [callEvents, (readFileFromDisk_served h).2.2, hlog, List.append_assoc, List.drop_left]
  have hread : ∀ r : ExtentRead, (∃ ev ∈ r.events g, ev.StoresTo .mem i) ↔ (r.patch g).Hits i := by
    intro r
    simp [ExtentRead.events, IoEvent.StoresTo, Patch.Hits]
  unfold StoresAt
  rw [hcall]
  constructor
  · intro h
    rcases h with ⟨ev, hev, hstores⟩
    rcases List.mem_append.mp hev with hev | hev
    · exact absurd hstores (hcache ev hev i)
    · rcases List.mem_flatMap.mp hev with ⟨r, hr, hev⟩
      exact ⟨r, hr, (hread r).mp ⟨ev, hev, hstores⟩⟩
  · intro h
    rcases h with ⟨r, hr, hhits⟩
    rcases (hread r).mpr hhits with ⟨ev, hev, hstores⟩
    exact ⟨ev, List.mem_append_right _ (List.mem_flatMap.mpr ⟨r, hr, hev⟩), hstores⟩

/-- A call that is refused stores nothing to the caller's buffer. -/
theorem not_storesAt_of_refused {fileName : List Byte} {size : BitVec 64} {w : World}
    (h : ∀ f, ¬Served g fileName size w f) (i : Int) : ¬StoresAt g fileName size w i := by
  rcases (readFileFromDisk_refused h).2.2.onlyCache with ⟨-, events, hlog, hcache⟩
  have hcall : callEvents g fileName size w = events := by
    rw [callEvents, hlog, List.drop_left]
  intro h
  rcases h with ⟨ev, hev, hstores⟩
  exact hcache ev (hcall ▸ hev) i hstores

end Xfsd
