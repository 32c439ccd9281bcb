import Xfsd.OnDisk.Lossless
import Xfsd.Foundation.PathLookup
import Xfsd.Reader.Addressing
import Xfsd.Reader.Calls
import Xfsd.Reader.Directory

/-!
# XFSD - Path resolution

A tree of short-form directories that an image holds, and the path loop on it.
The loop shares one block buffer between all inodes and says that a name was
found only by moving its path pointer; on such a tree it is nevertheless
component-wise lookup, for every path.

Main results:

- Structure {lit}`StoredTree`: a directory tree that an image holds in the first
  allocation group.
- Theorem {lit}`walk_eq_resolve`: the path loop computes the resolution of the
  path's components.
- Theorem {lit}`walk_resolves`: what each result of the path loop means.
-/

namespace Xfsd

open Foundation

/-! ## Trees in an image -/

/-- What an inode is to the path loop: a short-form directory, or anything else. -/
inductive Node where
  | dir (d : SfDir)
  | other

/-- The lookup function of a directory. -/
def Node.look : Node → Option (List Byte → Option (BitVec 64))
  | .dir d => some fun name => (d.lookup name).map SfEntry.ino
  | .other => none

/-- The place of an inode of the first allocation group. -/
def slotOffset (sb : XfsSb) (ino : BitVec 64) : Nat :=
  ino.toNat / 2 ^ sb.sbInopblog.toNat * sb.sbBlocksize.toNat +
    ino.toNat % 2 ^ sb.sbInopblog.toNat * sb.sbInodesize.toNat

/-- The image holds a node at an offset: a directory with its entries inside the inode, or
the core of an inode that is no short-form directory. -/
def Node.StoredAt (g : Globals) (offset : Nat) : Node → Prop
  | .dir d =>
      100 + d.encode.length ≤ g.sb.sbInodesize.toNat ∧
        offset + 100 + d.encode.length ≤ g.file.size ∧
        ((xfsDinodeFromDisk (imageMemory g.file) offset).IsDir ∧
          (xfsDinodeFromDisk (imageMemory g.file) offset).diFormat = xfsDinodeFmtLocal) ∧
        Spells (imageMemory g.file) (xfsDforkDptr offset) d.encode
  | .other =>
      96 ≤ g.sb.sbInodesize.toNat ∧ offset + 96 ≤ g.file.size ∧
        ¬((xfsDinodeFromDisk (imageMemory g.file) offset).IsDir ∧
          (xfsDinodeFromDisk (imageMemory g.file) offset).diFormat = xfsDinodeFmtLocal)

instance (g : Globals) (offset : Nat) : DecidablePred (Node.StoredAt g offset)
  | .dir _ => inferInstanceAs (Decidable (_ ∧ _))
  | .other => inferInstanceAs (Decidable (_ ∧ _))

/-- A directory tree that the image holds: nonempty short-form directories with 4-byte inode
numbers, all of its inodes in the first allocation group. -/
structure StoredTree (g : Globals) where
  inodes : Set (BitVec 64)
  node : BitVec 64 → Node
  root_mem : g.rootino ∈ inodes
  child_mem : ∀ ino ∈ inodes, ∀ d, node ino = .dir d → ∀ e ∈ d.entries, e.ino ∈ inodes
  ino_lt : ∀ ino ∈ inodes, ino.toNat < 2 ^ 32
  supported : ∀ ino ∈ inodes, ∀ d, node ino = .dir d → d.entries ≠ [] ∧ d.i8count = 0
  stored : ∀ ino ∈ inodes, (node ino).StoredAt g (slotOffset g.sb ino)

/-- The tree as a map from inodes to directories. -/
def StoredTree.look {g : Globals} (t : StoredTree g) (ino : BitVec 64) :
    Option (List Byte → Option (BitVec 64)) :=
  (t.node ino).look

/-- Lookups stay inside the tree. -/
theorem StoredTree.look_mem {g : Globals} (t : StoredTree g) {ino child : BitVec 64}
    {dir : List Byte → Option (BitVec 64)} {name : List Byte} (hino : ino ∈ t.inodes)
    (hlook : t.look ino = some dir) (hchild : dir name = some child) : child ∈ t.inodes := by
  unfold StoredTree.look at hlook
  cases hnode : t.node ino with
  | other =>
      rw [hnode] at hlook
      cases hlook
  | dir d =>
      rw [hnode] at hlook
      cases hlook
      rcases Option.map_eq_some_iff.mp hchild with ⟨e, he, rfl⟩
      exact t.child_mem ino hino d hnode e (List.mem_of_find?_eq_some he)

/-! ## Reading an inode of the tree -/

/-- What resolution comes to, as a result of the path loop. -/
def Resolution.code : Resolution (BitVec 64) → Except Int (BitVec 64)
  | .reached ino => .ok ino
  | .missing => .error (-4)
  | .notDirectory => .error (-3)

/-- A file system whose blocks the reader supports, with the header of its first
allocation group, in an image that a {lit}`long` can address. -/
structure Supported (g : Globals) : Prop where
  blocks : ValidBlocks g.sb
  seqno : getAgiSeqno g = 0
  size_le : g.file.size ≤ 2 ^ (g.build.bitsPerLong - 1)

section Tree

variable {g : Globals} (hg : Supported g)

include hg

/-- After an inode of the first group has been read, the block buffer holds it as the image
does. -/
theorem inodeWorld_eq_slot {ino : BitVec 64} (hino : ino.toNat < 2 ^ 32) (w : World) {i : Nat}
    (hi : i < g.sb.sbInodesize.toNat) (hheld : slotOffset g.sb ino + i < g.file.size) :
    (inodeWorld g (ino.setWidth 32) w).blockBuf (inodeAddr g (ino.setWidth 32) + i) =
      imageMemory g.file ((slotOffset g.sb ino : Int) + i) := by
  have hle := hg.size_le
  have hblocksize := hg.blocks.blocksize_le
  have hwidth : (ino.setWidth 32).toNat = ino.toNat := by
    rw [BitVec.toNat_setWidth, Nat.mod_eq_of_lt hino]
  have hslot := hg.blocks.slot_le
    (Nat.mod_lt ino.toNat (Nat.two_pow_pos g.sb.sbInopblog.toNat))
  have haddr : inodeAddr g (ino.setWidth 32) =
      (ino.toNat % 2 ^ g.sb.sbInopblog.toNat * g.sb.sbInodesize.toNat : Nat) := by
    rw [inodeAddr_eq g hg.blocks, hwidth, Nat.mul_comm]
  rw [Nat.mul_comm] at hslot
  unfold slotOffset at hheld ⊢
  have hoffset : inodeOffset g (ino.setWidth 32) =
      (ino.toNat / 2 ^ g.sb.sbInopblog.toNat * g.sb.sbBlocksize.toNat : Nat) := by
    rw [inodeOffset, blockOffset_eq, inodeBlock_toNat g hg.seqno, hwidth]
    rw [inodeBlock_toNat g hg.seqno, hwidth]
    omega
  have himage := inodeWorld_eq_image g (w := w)
    (a := ino.toNat % 2 ^ g.sb.sbInopblog.toNat * g.sb.sbInodesize.toNat + i)
    hoffset (by omega) (by omega) (by omega)
  rw [haddr]
  rw [← Nat.add_assoc] at himage
  exact_mod_cast himage

/-- The core of an inode of the first group is decoded as the image holds it. -/
theorem inodeWorld_core {ino : BitVec 64} (hino : ino.toNat < 2 ^ 32) (w : World)
    (hsize : 96 ≤ g.sb.sbInodesize.toNat) (hheld : slotOffset g.sb ino + 96 ≤ g.file.size) :
    xfsDinodeFromDisk (inodeWorld g (ino.setWidth 32) w).blockBuf
        (inodeAddr g (ino.setWidth 32)) =
      xfsDinodeFromDisk (imageMemory g.file) (slotOffset g.sb ino) :=
  xfsDinodeFromDisk_congr fun i hi =>
    inodeWorld_eq_slot hg hino w (i := i) (by omega) (by omega)

/-- The lookup step on an inode of the tree is the lookup function of its node. -/
theorem lookupStep_tree (t : StoredTree g) {ino : BitVec 64} (hino : ino ∈ t.inodes) (w : World)
    {name rest : List Byte} (hname : IsComponent name) (hrest : EndsComponent rest)
    (hlen : name.length < 2 ^ 32) :
    lookupStep (inodeWorld g (ino.setWidth 32) w).blockBuf (inodeAddr g (ino.setWidth 32))
        (xfsDinodeFromDisk (inodeWorld g (ino.setWidth 32) w).blockBuf
          (inodeAddr g (ino.setWidth 32))) (name ++ rest) ino =
      match t.look ino with
      | none => .error (-3)
      | some dir =>
          match name with
          | [] => .ok (rest, ino)
          | _ :: _ =>
              match dir name with
              | none => .error (-4)
              | some child => .ok (rest, child) := by
  have hstored := t.stored ino hino
  have hlt := t.ino_lt ino hino
  cases hnode : t.node ino with
  | other =>
      rw [hnode] at hstored
      rcases hstored with ⟨hsize, hheld, hnot⟩
      rw [inodeWorld_core hg hlt w hsize hheld, lookupStep_of_not_dir hnot, StoredTree.look, hnode]
      rfl
  | dir d =>
      rw [hnode] at hstored
      rcases hstored with ⟨hsize, hheld, hdir, hspells⟩
      rcases t.supported ino hino d hnode with ⟨hcount, hi8⟩
      have hspells' : Spells (inodeWorld g (ino.setWidth 32) w).blockBuf
          (xfsDforkDptr (inodeAddr g (ino.setWidth 32))) d.encode := by
        apply hspells.congr
        intro i hi
        have hslot := inodeWorld_eq_slot hg hlt w (i := 100 + i) (by omega) (by omega)
        push_cast at hslot
        rw [xfsDforkDptr, xfsDforkDptr, Int.add_assoc, Int.add_assoc]
        exact hslot
      rw [← inodeWorld_core hg hlt w (by omega) (by omega)] at hdir
      rw [StoredTree.look, hnode]
      cases name with
      | nil => exact lookupStep_stored_nil hdir hspells' hcount hi8 hrest
      | cons c name =>
          have hpred : ∀ e ∈ d.entries,
              decide (e.MatchedBy (c :: name)) = decide (e.name = c :: name) := fun e _ =>
            decide_eq_decide.mpr (SfEntry.matchedBy_iff_of_le hlen)
          rw [lookupStep_stored hdir hspells' hcount hi8 hname hrest (List.cons_ne_nil c name),
            List.find?_congr hpred]
          simp only [Node.look, SfDir.lookup]
          cases d.entries.find? fun e => e.name = c :: name with
          | none => rfl
          | some e => rfl

end Tree

/-! ## Components of a path -/

/-- The components of a path after its first slash. -/
def pathComponents (path : List Byte) : List (List Byte) :=
  (path.splitOn slash).tail

@[simp]
theorem pathComponents_nil : pathComponents [] = [] := rfl

/-- Without NULs, what follows a slash is a component and what may follow a component. -/
theorem exists_component {path : List Byte} (hnul : ∀ c ∈ path, c ≠ 0) :
    ∃ name rest, path = name ++ rest ∧ IsComponent name ∧ EndsComponent rest := by
  induction path with
  | nil => exact ⟨[], [], rfl, by simp [IsComponent], Or.inl rfl⟩
  | cons c path ih =>
      rcases List.forall_mem_cons.mp hnul with ⟨hc, hnul⟩
      by_cases hslash : c = slash
      · exact ⟨[], c :: path, rfl, by simp [IsComponent], Or.inr ⟨path, by rw [hslash]⟩⟩
      · rcases ih hnul with ⟨name, rest, rfl, hname, hrest⟩
        exact ⟨c :: name, rest, rfl, List.forall_mem_cons.mpr ⟨⟨hc, hslash⟩, hname⟩, hrest⟩

theorem pathComponents_cons {name rest : List Byte} (hname : IsComponent name)
    (hrest : EndsComponent rest) :
    pathComponents (slash :: (name ++ rest)) = name :: pathComponents rest := by
  have hslash : slash ∉ name := fun hmem => (hname slash hmem).2 rfl
  have hfirst : pathComponents (slash :: (name ++ rest)) = (name ++ rest).splitOn slash := by
    have hsplit := List.splitOn_append_cons_self_of_not_mem
      (List.not_mem_nil (a := slash)) (name ++ rest)
    rw [pathComponents, ← List.nil_append (slash :: (name ++ rest)), hsplit, List.tail_cons]
  rw [hfirst]
  rcases hrest with rfl | ⟨rest', rfl⟩
  · rw [List.append_nil, List.splitOn_eq_singleton hslash, pathComponents_nil]
  · have hsplit := List.splitOn_append_cons_self_of_not_mem
      (List.not_mem_nil (a := slash)) rest'
    rw [List.splitOn_append_cons_self_of_not_mem hslash, pathComponents,
      ← List.nil_append (slash :: rest'), hsplit, List.tail_cons]

/-! ## The path loop -/

section Walk

variable {g : Globals} (hg : Supported g) (t : StoredTree g)

include hg

/-- From an inode of the tree, the path loop computes the resolution of the components. -/
theorem walk_eq_resolve {path : List Byte} (hnul : ∀ c ∈ path, c ≠ 0)
    (hlen : path.length < 2 ^ 31) (hstart : EndsComponent path) {ino : BitVec 64}
    (hino : ino ∈ t.inodes) (w : World) :
    (walk g path ino w).1 = Resolution.code (resolve t.look ino (pathComponents path)) := by
  induction hn : path.length using Nat.strongRecOn generalizing path ino w with
  | ind n ih =>
      rcases hstart with rfl | ⟨rest, rfl⟩
      · rw [walk_nil]
        rfl
      · rcases exists_component (List.forall_mem_cons.mp hnul).2 with
          ⟨name, rest, rfl, hname, hrest⟩
        have hnul' : ∀ c ∈ rest, c ≠ 0 := fun c hc => hnul c (by simp [hc])
        simp only [List.length_cons, List.length_append] at hlen hn
        rw [walk_cons, lookupStep_tree hg t hino w hname hrest (by omega),
          pathComponents_cons hname hrest, resolve]
        cases hlook : t.look ino with
        | none => rfl
        | some dir =>
            cases name with
            | nil => exact ih rest.length (by omega) hnul' (by omega) hrest hino _ rfl
            | cons c name =>
                cases hchild : dir (c :: name) with
                | none =>
                    simp only [hchild]
                    rfl
                | some child =>
                    simp only [hchild]
                    exact ih rest.length (by omega) hnul' (by omega) hrest
                      (t.look_mem hino hlook hchild) _ rfl

/-- What each result of the path loop means: it ends at an inode exactly when component-wise
lookup from the root leads there, returns -4 exactly when a component is missing from the
directory before it, returns -3 exactly when the path does not start with a slash or a
component is applied to something that is not a short-form directory, and returns no other
code. -/
theorem walk_resolves {path : List Byte} (hnul : ∀ c ∈ path, c ≠ 0)
    (hlen : path.length < 2 ^ 31) (w : World) :
    (∀ ino, (walk g path g.rootino w).1 = .ok ino ↔
      (path = [] ∨ path.head? = some slash) ∧
        Resolves t.look g.rootino (pathComponents path) ino) ∧
    ((walk g path g.rootino w).1 = .error (-4) ↔
      (path = [] ∨ path.head? = some slash) ∧
        MissesAt t.look g.rootino (pathComponents path)) ∧
    ((walk g path g.rootino w).1 = .error (-3) ↔
      (path ≠ [] ∧ path.head? ≠ some slash) ∨
        ((path = [] ∨ path.head? = some slash) ∧
          BlockedAt t.look g.rootino (pathComponents path))) ∧
    ∀ e, (walk g path g.rootino w).1 = .error e → e = -3 ∨ e = -4 := by
  by_cases hstart : path = [] ∨ path.head? = some slash
  · have hends : EndsComponent path := by
      rcases hstart with rfl | hhead
      · exact Or.inl rfl
      · cases path with
        | nil => cases hhead
        | cons c rest =>
            rw [List.head?_cons, Option.some.injEq] at hhead
            exact Or.inr ⟨rest, by rw [hhead]⟩
    have hnot : ¬(path ≠ [] ∧ path.head? ≠ some slash) := by
      intro h
      rcases h with ⟨hne, hhead⟩
      exact hstart.elim hne hhead
    rw [walk_eq_resolve hg t hnul hlen hends t.root_mem w, ← resolve_eq_missing_iff,
      ← resolve_eq_notDirectory_iff]
    simp only [← resolve_eq_reached_iff]
    cases hresolve : resolve t.look g.rootino (pathComponents path) <;>
      simp [Resolution.code, hstart, hnot]
  · have hnil : path ≠ [] := fun h => hstart (Or.inl h)
    have hhead : path.head? ≠ some slash := fun h => hstart (Or.inr h)
    have hwalk : (walk g path g.rootino w).1 = .error (-3) := by
      cases path with
      | nil => exact absurd rfl hnil
      | cons c rest =>
          have hc : c ≠ slash := fun h => hhead (by rw [h]; rfl)
          rw [walk_cons_of_ne g hc]
    rw [hwalk]
    simp [hnil, hhead]

end Walk

/-- The root of a sample tree: a file {lit}`a` and a directory {lit}`d`. -/
def sampleRoot : SfDir :=
  letterDir 8 [(0x61#8, 9), (0x64#8, 10)] (by decide)

/-- The directory {lit}`d` of the sample tree, with a file {lit}`b`. -/
def sampleSub : SfDir :=
  letterDir 8 [(0x62#8, 11)] (by decide)

/-- A file system with the sample tree. -/
def sampleTreeGlobals : Globals :=
  (init .linux64 (diskImage (geometrySb 9 8 6 40 1 8) 20480
    [(2048, inodeBytes dirCore sampleRoot.encode), (2304, inodeBytes (fileCore 0 0) []),
      (2560, inodeBytes dirCore sampleSub.encode), (2816, inodeBytes (fileCore 0 0) [])])).1

/-- What the inodes of the sample tree are. -/
def sampleNode (ino : BitVec 64) : Node :=
  if ino = 8 then .dir sampleRoot else if ino = 10 then .dir sampleSub else .other

/-- The sample tree. -/
def sampleTree : StoredTree sampleTreeGlobals where
  inodes := {8, 9, 10, 11}
  node := sampleNode
  root_mem := Or.inl (by decide +kernel)
  child_mem := by
    rintro ino (rfl | rfl | rfl | rfl) d hd e he <;> cases hd
    · rcases List.mem_cons.mp he with rfl | he
      · exact Or.inr (Or.inl rfl)
      · rw [List.mem_singleton.mp he]
        exact Or.inr (Or.inr (Or.inl rfl))
    · rw [List.mem_singleton.mp he]
      exact Or.inr (Or.inr (Or.inr rfl))
  ino_lt := by
    rintro ino (rfl | rfl | rfl | rfl) <;> decide
  supported := by
    rintro ino (rfl | rfl | rfl | rfl) d hd <;> cases hd <;> decide
  stored := by
    rintro ino (rfl | rfl | rfl | rfl) <;> decide +kernel

/-- The path {lit}`/d//b` of the sample tree leads to inode 11. -/
theorem walk_sampleTree :
    (walk sampleTreeGlobals [slash, 0x64#8, slash, slash, 0x62#8] sampleTreeGlobals.rootino
      (startWorld 0 zeroed)).1 = .ok 11 := by
  have hg : Supported sampleTreeGlobals :=
    ⟨by decide +kernel, by decide +kernel, by decide +kernel⟩
  have hroot : sampleTreeGlobals.rootino = 8 := by decide +kernel
  have hpath : pathComponents [slash, 0x64#8, slash, slash, 0x62#8] =
      [[0x64#8], [], [0x62#8]] := by decide +kernel
  have hlook : sampleTree.look 8 = some fun name => (sampleRoot.lookup name).map SfEntry.ino := rfl
  have hlook' : sampleTree.look 10 = some fun name => (sampleSub.lookup name).map SfEntry.ino := rfl
  refine ((walk_resolves hg sampleTree (by decide) (by decide) (startWorld 0 zeroed)).1 11).mpr
    ⟨Or.inr rfl, ?_⟩
  rw [hroot, hpath]
  exact .step hlook (by decide) (by decide)
    (.stay hlook' (.step hlook' (by decide) (by decide) (.nil 11)))

end Xfsd
