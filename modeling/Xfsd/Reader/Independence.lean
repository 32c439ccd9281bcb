import Xfsd.Reader.Calls
import Xfsd.Reader.Footprint
import Xfsd.OnDisk.Encode

/-!
# XFSD - Calls and the calls before them

All inode reads of all calls go through one static buffer, and a read that meets the
end of the image leaves the rest of the buffer as it was.  What stands in the buffer is
therefore split three ways: bytes that the inode reads of the call itself have brought,
bytes that no call ever stores to, and bytes that earlier calls may have left.  A call
that looks at none of the last kind comes out the same whatever came before it.

Main results:

- Theorem {lit}`Reachable.keepsRest`: no sequence of calls changes the block buffer
  outside the bytes that an inode read asks for.
- Theorem {lit}`readWith_determined`: a call that looks only at what is known of two
  states comes out the same from both.
- Theorem {lit}`historyFree_of_determined`: a call that looks at no byte that an earlier
  call may have left does not depend on earlier calls.
-/

namespace Xfsd

open Foundation

/-! ## Reachable states -/

/-- The state after {lit}`init` and {lit}`init_read_file_from_disk`: {lit}`block_buf` is
4096 zeros, and what stands around it is not known. -/
def bootWorld (b : Build) (file : FileImage Byte) (around : Memory Byte) : World :=
  { startWorld (init b file).2 zeroed with
    blockBuf := fun a => if 0 ≤ a ∧ a < 4096 then 0 else around a }

/-- The states that calls of the reader lead to, each call with a path, a capacity and a
buffer of its own. -/
inductive Reachable (b : Build) (file : FileImage Byte) (around : Memory Byte) : World → Prop where
  | boot : Reachable b file around (bootWorld b file around)
  | call {w : World} (fileName : List Byte) (size : BitVec 64) (m : Memory Byte) :
      Reachable b file around w →
        Reachable b file around (readWith (init b file).1 fileName size w m).2

/-- From any two reachable states, a call with the same path, capacity and buffer returns the
same code and leaves the same bytes in the buffer. -/
def HistoryFree (b : Build) (file : FileImage Byte) (fileName : List Byte) (size : BitVec 64) :
    Prop :=
  ∀ around w w', Reachable b file around w → Reachable b file around w' → ∀ m,
    (readWith (init b file).1 fileName size w m).1 =
        (readWith (init b file).1 fileName size w' m).1 ∧
      ∀ i : Nat, i < size.toNat →
        (readWith (init b file).1 fileName size w m).2.mem i =
          (readWith (init b file).1 fileName size w' m).2.mem i

variable (g : Globals)

/-! ## What no call changes -/

/-- Going from one state to another changed the block buffer only where inode reads store. -/
def KeepsRest (w w' : World) : Prop :=
  ∀ a, a < 0 ∨ (blockRequest g : Int) ≤ a → w'.blockBuf a = w.blockBuf a

variable {g} in
theorem KeepsRest.trans {w₁ w₂ w₃ : World} (h₁ : KeepsRest g w₁ w₂) (h₂ : KeepsRest g w₂ w₃) :
    KeepsRest g w₁ w₃ :=
  fun a ha => (h₂ a ha).trans (h₁ a ha)

/-- A transfer to the start of the block buffer stores at most what it asks for. -/
theorem freadPatch_len_le (pos : Nat) :
    (freadPatch g.file pos (blockRequest g) 0).len ≤ blockRequest g :=
  Nat.min_le_left _ _

/-- An inode read keeps the rest of the block buffer. -/
theorem inodeWorld_keepsRest (inode : BitVec 32) (w : World) :
    KeepsRest g w (inodeWorld g inode w) := by
  intro a ha
  have hlen := freadPatch_len_le g (fseekSet w.pos (inodeOffset g inode))
  have hmiss : ¬(freadPatch g.file (fseekSet w.pos (inodeOffset g inode)) (blockRequest g) 0).Hits
      a := by
    intro hhits
    have hlo : 0 ≤ a := hhits.1
    have hhi := hhits.2
    simp only [freadPatch] at hlen hhi
    omega
  exact Memory.patch_of_not_hits hmiss

/-- The path loop keeps the rest of the block buffer. -/
theorem walk_keepsRest (fileName : List Byte) (ino : BitVec 64) (w : World) :
    KeepsRest g w (walk g fileName ino w).2 := by
  apply walk_induction g (P := fun _ _ w r => KeepsRest g w r.2)
  · intro ino w a _
    rfl
  · intro c rest ino w _ a _
    rfl
  · intro rest ino w e _
    exact inodeWorld_keepsRest g _ w
  · intro rest ino w rest' ino' r _ hr
    exact (inodeWorld_keepsRest g _ w).trans hr

/-- The work on the final inode leaves the block buffer alone. -/
theorem readContent_blockBuf (raw : Int) (size : BitVec 64) (w : World) :
    (readContent g raw (xfsDinodeFromDisk w.blockBuf raw) size w).2.blockBuf = w.blockBuf := by
  by_cases h : Admits w.blockBuf raw (xfsDinodeFromDisk w.blockBuf raw) size
  · rcases readContent_of_admits g h with ⟨pos, hread⟩
    rw [hread]
  · rcases readContent_of_not_admits g h with hread | hread <;> rw [hread]

/-- A call keeps the rest of the block buffer. -/
theorem readWith_keepsRest (fileName : List Byte) (size : BitVec 64) (w : World)
    (m : Memory Byte) : KeepsRest g w (readWith g fileName size w m).2 := by
  have hwalk : KeepsRest g w (walk g fileName g.rootino (w.withMem m)).2 :=
    walk_keepsRest g fileName g.rootino (w.withMem m)
  unfold readWith
  cases hend : (walk g fileName g.rootino (w.withMem m)).1 with
  | error e =>
      rw [readFileFromDisk_lost hend]
      exact hwalk
  | ok ino =>
      have hloc : LocatesTo g fileName (w.withMem m) (locatedAt g fileName (w.withMem m) ino) :=
        ⟨ino, hend, rfl, rfl⟩
      have hread : KeepsRest g w (locatedAt g fileName (w.withMem m) ino).world :=
        hwalk.trans (inodeWorld_keepsRest g _ _)
      intro a ha
      rw [readFileFromDisk_located hloc, Located.core, readContent_blockBuf]
      exact hread a ha

/-- No sequence of calls changes the block buffer outside the bytes that an inode read asks
for. -/
theorem Reachable.keepsRest {b : Build} {file : FileImage Byte} {around : Memory Byte} {w : World}
    (h : Reachable b file around w) :
    KeepsRest (init b file).1 (bootWorld b file around) w := by
  induction h with
  | boot => exact fun _ _ => rfl
  | call fileName size m _ ih => exact ih.trans (readWith_keepsRest _ fileName size _ m)

/-! ## What is known of the reader's state -/

/-- What is known of the block buffer and of the stream position, whatever calls came before:
{lit}`none` where earlier calls may show. -/
structure Known where
  blockBuf : Memory (Option Byte)
  pos : Option Nat

namespace Known

/-- All that is known of a state is right. -/
def Of (k : Known) (w : World) : Prop :=
  Knows k.blockBuf w.blockBuf ∧ ∀ p, k.pos = some p → w.pos = p

/-- Where a seek leaves the stream: a seek that fails leaves it where it was. -/
def seek (k : Known) (offset : Int) : Option Nat :=
  if 0 ≤ offset then some offset.toNat else k.pos

/-- What is known after an inode has been read. -/
def readInode (k : Known) (inode : BitVec 32) : Known :=
  match k.seek (inodeOffset g inode) with
  | some src =>
      { blockBuf := k.blockBuf.patch ((freadPatch g.file src (blockRequest g) 0).map some)
        pos := some (src + freadBytes g.file src (blockRequest g)) }
  | none =>
      { blockBuf := k.blockBuf.forget 0 (blockRequest g)
        pos := none }

end Known

/-- What is known between two calls: the bytes that no call changes. -/
def bootKnown (b : Build) (file : FileImage Byte) (around : Memory Byte) : Known where
  blockBuf := Memory.forget (fun a => some ((bootWorld b file around).blockBuf a)) 0
    (blockRequest (init b file).1)
  pos := none

/-- What is known between two calls is right after any sequence of calls. -/
theorem Reachable.known {b : Build} {file : FileImage Byte} {around : Memory Byte} {w : World}
    (h : Reachable b file around w) : (bootKnown b file around).Of w := by
  refine ⟨fun a x hx => ?_, fun p hp => by cases hp⟩
  simp only [bootKnown, Memory.forget] at hx
  split at hx
  · cases hx
  · rename_i hout
    rw [h.keepsRest a (by omega)]
    exact Option.some.inj hx

variable {g}

theorem Known.Of.seek_eq {k : Known} {w : World} (h : k.Of w) {offset : Int} {src : Nat}
    (hsrc : k.seek offset = some src) : fseekSet w.pos offset = src := by
  unfold Known.seek at hsrc
  unfold fseekSet
  by_cases hoffset : 0 ≤ offset
  · rw [if_pos hoffset] at hsrc ⊢
    exact Option.some.inj hsrc
  · rw [if_neg hoffset] at hsrc ⊢
    exact h.2 src hsrc

/-- Reading an inode keeps the knowledge right. -/
theorem Known.Of.readInode {k : Known} {w : World} (h : k.Of w) (inode : BitVec 32) :
    (k.readInode g inode).Of (inodeWorld g inode w) := by
  have hbuf : (inodeWorld g inode w).blockBuf = w.blockBuf.patch
      (freadPatch g.file (fseekSet w.pos (inodeOffset g inode)) (blockRequest g) 0) :=
    World.transfer_blockBuf g w 0 (inodeOffset g inode) (blockRequest g)
  unfold Known.readInode
  cases hsrc : k.seek (inodeOffset g inode) with
  | some src =>
      rw [h.seek_eq hsrc] at hbuf
      refine ⟨?_, fun p hp => ?_⟩
      · rw [hbuf]
        exact h.1.patch _
      · rw [inodeWorld_pos, h.seek_eq hsrc]
        exact Option.some.inj hp
  | none =>
      refine ⟨?_, fun p hp => by cases hp⟩
      rw [hbuf]
      exact h.1.patch_forget (freadPatch_len_le g _)

/-! ## Calls that look at nothing else -/

variable (g)

/-- The first extent is read from a place that is known: the position of the stream is known,
or the seek to the extent succeeds. -/
def StartsKnown (k : Known) (extents : List XfsBmbtIrec) : Prop :=
  k.pos.isSome ∨ ∀ e ∈ extents.head?, 0 ≤ blockOffset g e.brStartblock

instance (k : Known) (extents : List XfsBmbtIrec) : Decidable (StartsKnown g k extents) :=
  inferInstanceAs (Decidable (_ ∨ _))

/-- The reader from the end of the path loop on: the final inode is read and worked on. -/
def readFinal (ino : BitVec 64) (size : BitVec 64) (w : World) : Int × World :=
  let inode := ino.setWidth 32
  readContent g (inodeAddr g inode)
    (xfsDinodeFromDisk (inodeWorld g inode w).blockBuf (inodeAddr g inode)) size
    (inodeWorld g inode w)

/-- A lookup as far as it looks only at what is known after the inode has been read. -/
def knownLookup (k : Known) (inode : BitVec 32) (fileName : List Byte) (nextIno : BitVec 64) :
    Option (Except Int (List Byte × BitVec 64)) :=
  (lookupProbe (inodeAddr g inode) fileName nextIno).eval (k.readInode g inode).blockBuf

/-- The checks on a final inode as far as they look only at what is known after it has been
read. -/
def knownContent (k : Known) (inode : BitVec 32) (size : BitVec 64) :
    Option (Except Int (BitVec 64 × List XfsBmbtIrec)) :=
  (contentProbe g.build (inodeAddr g inode) size).eval (k.readInode g inode).blockBuf

/-- A call that goes on along a path from an inode looks only at what is known: each lookup,
and in the end the work on the final inode. -/
inductive Determined (size : BitVec 64) : Known → List Byte → BitVec 64 → Prop where
  | noSlash {k : Known} {c : Byte} {rest : List Byte} {ino : BitVec 64} : c ≠ slash →
      Determined size k (c :: rest) ino
  | stop {k : Known} {rest : List Byte} {ino : BitVec 64} {e : Int} :
      knownLookup g k (ino.setWidth 32) rest ino = some (.error e) →
        Determined size k (slash :: rest) ino
  | turn {k : Known} {rest rest' : List Byte} {ino ino' : BitVec 64} :
      knownLookup g k (ino.setWidth 32) rest ino = some (.ok (rest', ino')) →
        Determined size (k.readInode g (ino.setWidth 32)) rest' ino' →
          Determined size k (slash :: rest) ino
  | refuse {k : Known} {ino : BitVec 64} {e : Int} :
      knownContent g k (ino.setWidth 32) size = some (.error e) → Determined size k [] ino
  | serve {k : Known} {ino : BitVec 64} {diSize : BitVec 64} {extents : List XfsBmbtIrec} :
      knownContent g k (ino.setWidth 32) size = some (.ok (diSize, extents)) →
        StartsKnown g (k.readInode g (ino.setWidth 32)) extents → Determined size k [] ino

variable {g}

/-- A lookup that looks only at what is known is the lookup in the block buffer. -/
theorem Known.Of.lookupStep_eq {k : Known} {w : World} (h : k.Of w) {inode : BitVec 32}
    {fileName : List Byte} {nextIno : BitVec 64} {r : Except Int (List Byte × BitVec 64)}
    (hr : knownLookup g k inode fileName nextIno = some r) :
    lookupStep (inodeWorld g inode w).blockBuf (inodeAddr g inode)
      (xfsDinodeFromDisk (inodeWorld g inode w).blockBuf (inodeAddr g inode)) fileName nextIno =
        r := by
  rw [← run_lookupProbe]
  exact (h.readInode inode).1.run_eq hr

/-- The planned reads depend on the stream position only if the first seek fails. -/
theorem plan_eq_of_startsKnown {k : Known} {extents : List XfsBmbtIrec} (left : BitVec 64)
    (hstart : StartsKnown g k extents) {w w' : World} (h : k.Of w) (h' : k.Of w') :
    plan g extents left w.pos = plan g extents left w'.pos := by
  cases hpos : k.pos with
  | some p => rw [h.2 p hpos, h'.2 p hpos]
  | none =>
      cases extents with
      | nil => rfl
      | cons e es =>
          have hoffset : 0 ≤ blockOffset g e.brStartblock := by
            rcases hstart with hsome | hfirst
            · rw [hpos] at hsome
              cases hsome
            · exact hfirst e rfl
          have hseek : ∀ pos, fseekSet pos (blockOffset g e.brStartblock) =
              (blockOffset g e.brStartblock).toNat := fun pos => if_pos hoffset
          rw [plan, plan, hseek, hseek]

/-- The work on a final inode comes out the same from two states of which all is known that it
looks at. -/
theorem readFinal_determined {size : BitVec 64} {k : Known} {ino : BitVec 64}
    (hdet : Determined g size k [] ino) {w w' : World} (h : k.Of w) (h' : k.Of w')
    (hmem : w.mem = w'.mem) :
    (readFinal g ino size w).1 = (readFinal g ino size w').1 ∧
      (readFinal g ino size w).2.mem = (readFinal g ino size w').2.mem := by
  unfold readFinal
  have hread := h.readInode (g := g) (ino.setWidth 32)
  have hread' := h'.readInode (g := g) (ino.setWidth 32)
  cases hdet with
  | refuse hcontent =>
      rw [readContent_of_error g (hread.1.run_eq hcontent),
        readContent_of_error g (hread'.1.run_eq hcontent)]
      exact ⟨rfl, hmem⟩
  | serve hcontent hstart =>
      rcases readContent_of_ok g (hread.1.run_eq hcontent) with ⟨hcode, hbytes⟩
      rcases readContent_of_ok g (hread'.1.run_eq hcontent) with ⟨hcode', hbytes'⟩
      rw [hcode, hcode', hbytes, hbytes', plan_eq_of_startsKnown _ hstart hread hread',
        inodeWorld_mem, inodeWorld_mem, hmem]
      exact ⟨rfl, rfl⟩

/-- The path loop of a determined call ends the same way from two states of which the same is
known, and where it ends at an inode, the work on that inode is determined. -/
theorem walk_determined {size : BitVec 64} {k : Known} {fileName : List Byte} {ino : BitVec 64}
    (hdet : Determined g size k fileName ino) {w w' : World} (h : k.Of w) (h' : k.Of w') :
    (walk g fileName ino w).1 = (walk g fileName ino w').1 ∧
      ∀ target, (walk g fileName ino w).1 = .ok target →
        ∃ k' : Known, k'.Of (walk g fileName ino w).2 ∧ k'.Of (walk g fileName ino w').2 ∧
          Determined g size k' [] target := by
  induction hdet generalizing w w' with
  | noSlash hc =>
      rw [walk_cons_of_ne g hc, walk_cons_of_ne g hc]
      exact ⟨rfl, fun target htarget => by cases htarget⟩
  | stop hlookup =>
      rw [walk_cons, walk_cons, h.lookupStep_eq hlookup, h'.lookupStep_eq hlookup]
      exact ⟨rfl, fun target htarget => by cases htarget⟩
  | turn hlookup _ ih =>
      rw [walk_cons, walk_cons, h.lookupStep_eq hlookup, h'.lookupStep_eq hlookup]
      exact ih (h.readInode _) (h'.readInode _)
  | refuse hcontent =>
      rw [walk_nil, walk_nil]
      refine ⟨rfl, fun target htarget => ?_⟩
      cases htarget
      exact ⟨_, h, h', .refuse hcontent⟩
  | serve hcontent hstart =>
      rw [walk_nil, walk_nil]
      refine ⟨rfl, fun target htarget => ?_⟩
      cases htarget
      exact ⟨_, h, h', .serve hcontent hstart⟩

/-- A call that looks only at what is known of two states comes out the same from both. -/
theorem readWith_determined {size : BitVec 64} {k : Known} {fileName : List Byte}
    (hdet : Determined g size k fileName g.rootino) {w w' : World} (h : k.Of w) (h' : k.Of w')
    (m : Memory Byte) :
    (readWith g fileName size w m).1 = (readWith g fileName size w' m).1 ∧
      (readWith g fileName size w m).2.mem = (readWith g fileName size w' m).2.mem := by
  have hwith : k.Of (w.withMem m) := h
  have hwith' : k.Of (w'.withMem m) := h'
  rcases walk_determined hdet hwith hwith' with ⟨hwalk, hfinal⟩
  have hmem : (walk g fileName g.rootino (w.withMem m)).2.mem = m :=
    (walk_onlyBlocks g fileName g.rootino (w.withMem m)).1.1
  have hmem' : (walk g fileName g.rootino (w'.withMem m)).2.mem = m :=
    (walk_onlyBlocks g fileName g.rootino (w'.withMem m)).1.1
  unfold readWith
  cases hend : (walk g fileName g.rootino (w.withMem m)).1 with
  | error e =>
      rw [readFileFromDisk_lost hend, readFileFromDisk_lost (hwalk ▸ hend)]
      exact ⟨rfl, hmem.trans hmem'.symm⟩
  | ok ino =>
      have hloc : LocatesTo g fileName (w.withMem m) (locatedAt g fileName (w.withMem m) ino) :=
        ⟨ino, hend, rfl, rfl⟩
      have hloc' : LocatesTo g fileName (w'.withMem m) (locatedAt g fileName (w'.withMem m) ino) :=
        ⟨ino, hwalk ▸ hend, rfl, rfl⟩
      rcases hfinal ino hend with ⟨k', hk, hk', hcontent⟩
      rw [readFileFromDisk_located hloc, readFileFromDisk_located hloc']
      exact readFinal_determined hcontent hk hk' (hmem.trans hmem'.symm)

/-- A call that looks at no byte that an earlier call may have left does not depend on earlier
calls. -/
theorem historyFree_of_determined (b : Build) (file : FileImage Byte) (fileName : List Byte)
    (size : BitVec 64)
    (h : ∀ around, Determined (init b file).1 size (bootKnown b file around) fileName
      (init b file).1.rootino) :
    HistoryFree b file fileName size := by
  intro around w w' hreach hreach' m
  rcases readWith_determined (h around) hreach.known hreach'.known m with ⟨hcode, hmem⟩
  exact ⟨hcode, fun i _ => congrFun hmem i⟩

/-! ## Knowing more -/

/-- Who knows the second knows the first. -/
def Known.Below (k k' : Known) : Prop :=
  KnownFrom k.blockBuf k'.blockBuf ∧ k'.pos = k.pos

theorem Known.Below.readInode {k k' : Known} (h : k.Below k') (inode : BitVec 32) :
    (k.readInode g inode).Below (k'.readInode g inode) := by
  have hseek : k'.seek (inodeOffset g inode) = k.seek (inodeOffset g inode) := by
    rw [Known.seek, Known.seek, h.2]
  unfold Known.readInode
  rw [hseek]
  cases k.seek (inodeOffset g inode) with
  | some src => exact ⟨h.1.patch _, rfl⟩
  | none => exact ⟨h.1.forget 0 _, rfl⟩

/-- Who knows more can go on as well. -/
theorem Determined.mono {size : BitVec 64} {k k' : Known} {fileName : List Byte}
    {ino : BitVec 64} (hdet : Determined g size k fileName ino) (h : k.Below k') :
    Determined g size k' fileName ino := by
  induction hdet generalizing k' with
  | noSlash hc => exact .noSlash hc
  | stop hlookup => exact .stop (Probe.eval_mono (h.readInode _).1 hlookup)
  | turn hlookup _ ih =>
      exact .turn (Probe.eval_mono (h.readInode _).1 hlookup) (ih (h.readInode _))
  | refuse hcontent => exact .refuse (Probe.eval_mono (h.readInode _).1 hcontent)
  | serve hcontent hstart =>
      refine .serve (Probe.eval_mono (h.readInode _).1 hcontent) ?_
      rw [StartsKnown, (h.readInode _).2]
      exact hstart

/-- Where the stream position is known, it is enough that the checks on the final inode look only
at what is known. -/
theorem Determined.of_content {size : BitVec 64} {k : Known} {ino : BitVec 64}
    (hcontent : (knownContent g k (ino.setWidth 32) size).isSome)
    (hpos : (k.readInode g (ino.setWidth 32)).pos.isSome) : Determined g size k [] ino := by
  rcases Option.isSome_iff_exists.mp hcontent with ⟨r, hr⟩
  cases r with
  | error e => exact .refuse hr
  | ok file => exact .serve hr (Or.inl hpos)

/-- An image that is cut in the middle of the block of the inodes 10 and 11. -/
def cutInodes : FileImage Byte :=
  diskImage (geometrySb 9 8 6 64 1 10) 2816
    [(1536, [0x68#8, 0x69#8]),
     (2304, inodeBytes (fileCore 2 1) (extentRecord 0 3 1).encode),
     (2560, inodeBytes dirCore twoFileDir.encode)]

/-- A file whose ten extent records end four bytes behind the block of its inode. -/
def tenRecords : FileImage Byte :=
  singleFileImage (fileCore 512 10) [extentRecord 0 16 1] [(8192, [1, 2, 3])] 32768

/-- What is known between two calls, of the buffer itself. -/
def bufferKnown (b : Build) (file : FileImage Byte) : Known where
  blockBuf := Memory.forget (fun a => if 0 ≤ a ∧ a < 4096 then some 0 else none) 0
    (blockRequest (init b file).1)
  pos := none

/-- It is known whatever stands around the buffer. -/
theorem bufferKnown_below (b : Build) (file : FileImage Byte) (around : Memory Byte) :
    (bufferKnown b file).Below (bootKnown b file around) := by
  refine ⟨KnownFrom.forget (fun a x hx => ?_) 0 _, rfl⟩
  split at hx
  · rename_i hin
    simp only [bootWorld, if_pos hin]
    exact hx
  · cases hx

/-- The file {lit}`a` of the cut image, and the file whose records end behind its block, are
read the same after any calls. -/
theorem historyFree_cutInodes :
    HistoryFree .linux64 cutInodes [slash, 0x61#8] 2 ∧
      HistoryFree .linux64 tenRecords [slash, 0x61#8] 512 := by
  have hcutRoot : (init .linux64 cutInodes).1.rootino = 10 := by decide +kernel
  have hcutLookup : knownLookup (init .linux64 cutInodes).1 (bufferKnown .linux64 cutInodes)
      (BitVec.setWidth 32 10#64) [0x61#8] 10 = some (.ok ([], 9)) := by
    decide +kernel
  have htenRoot : (init .linux64 tenRecords).1.rootino = 8 := by decide +kernel
  have htenLookup : knownLookup (init .linux64 tenRecords).1 (bufferKnown .linux64 tenRecords)
      (BitVec.setWidth 32 8#64) [0x61#8] 8 = some (.ok ([], 9)) := by
    decide +kernel
  refine ⟨historyFree_of_determined .linux64 cutInodes [slash, 0x61#8] 2 fun around => ?_,
    historyFree_of_determined .linux64 tenRecords [slash, 0x61#8] 512 fun around => ?_⟩
  · rw [hcutRoot]
    exact (Determined.turn hcutLookup (.of_content (by decide +kernel) (by decide +kernel))).mono
      (bufferKnown_below .linux64 cutInodes around)
  · rw [htenRoot]
    exact (Determined.turn htenLookup (.of_content (by decide +kernel) (by decide +kernel))).mono
      (bufferKnown_below .linux64 tenRecords around)

/-- The missing inode of the file {lit}`x` is refused by a fresh reader; after a call for
{lit}`a` the buffer still holds that inode, and the reader returns 0. -/
theorem not_historyFree_cutInodes : ¬HistoryFree .linux64 cutInodes [slash, 0x78#8] 2 := by
  intro h
  have hboot : Reachable .linux64 cutInodes zeroed (bootWorld .linux64 cutInodes zeroed) := .boot
  have hcode := (h zeroed _ _ hboot (hboot.call [slash, 0x61#8] 2 zeroed) zeroed).1
  have hfresh : (readWith (init .linux64 cutInodes).1 [slash, 0x78#8] 2
      (bootWorld .linux64 cutInodes zeroed) zeroed).1 = -3 := by
    decide +kernel
  have hafter : (readWith (init .linux64 cutInodes).1 [slash, 0x78#8] 2
      (readWith (init .linux64 cutInodes).1 [slash, 0x61#8] 2
        (bootWorld .linux64 cutInodes zeroed) zeroed).2 zeroed).1 = 0 := by
    decide +kernel
  rw [hfresh, hafter] at hcode
  simp at hcode

end Xfsd
