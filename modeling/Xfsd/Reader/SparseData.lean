import Xfsd.Reader.Calls
import Xfsd.OnDisk.Encode

/-!
# XFSD - Holes and unwritten extents

The bytes of a file that no extent covers, and those of unwritten extents, read as
zero.  The reader neither clears the buffer nor looks at the state of an extent,
so what a caller finds there depends on the reads that happen to store to it.

Main results:

- Theorem {lit}`nothingStale_iff`: nothing of the old buffer is left, and holes and
  unwritten extents are zero, exactly when the reads fill the file, and fill these
  parts with zeros of the image.
-/

namespace Xfsd

open Foundation

variable (g : Globals)

/-- The file block of a byte is in a hole or in an unwritten extent. -/
def Located.Blank (f : Located) (o : Nat) : Prop :=
  (∀ e ∈ f.extents g, ¬e.Covers (o / g.sb.sbBlocksize.toNat)) ∨
    ∃ e ∈ f.extents g, e.Covers (o / g.sb.sbBlocksize.toNat) ∧ e.brState = .xfsExtUnwritten

instance (f : Located) (o : Nat) : Decidable (f.Blank g o) :=
  inferInstanceAs (Decidable (_ ∨ _))

/-- A call that returns 0 leaves bytes that do not depend on what the buffer held, and zeros
in holes and unwritten extents. -/
structure NothingStale (fileName : List Byte) (size : BitVec 64) (w : World) : Prop where
  agree : ∀ m m' f, Served g fileName size (w.withMem m) f → ∀ o : Nat, o < f.diSize.toNat →
    (readWith g fileName size w m).2.mem o = (readWith g fileName size w m').2.mem o
  zero : ∀ m f, Served g fileName size (w.withMem m) f → ∀ o : Nat, o < f.diSize.toNat →
    f.Blank g o → (readWith g fileName size w m).2.mem o = 0

/-- Every byte index of the file lies in the range that some read stores to, from the block
number of its extent on; and in a hole or an unwritten extent the last such read brings a
zero byte of the image. -/
def FillsFile (f : Located) : Prop :=
  ∀ o : Nat, o < f.diSize.toNat →
    (∃ r ∈ f.reads g, (r.patch g).Hits o) ∧
      (f.Blank g o → ∃ p, lastHit o ((f.reads g).map (·.patch g)) = some p ∧
        p.val (o - p.dst).toNat = 0)

/-- Nothing of the old buffer is left, and holes and unwritten extents are zero, exactly when
the reads fill the file that is served, and fill these parts with zeros of the image. -/
theorem nothingStale_iff (fileName : List Byte) (size : BitVec 64) (w : World) :
    NothingStale g fileName size w ↔ ∀ f, Served g fileName size w f → FillsFile g f := by
  constructor
  · intro h f hf o ho
    have hhit : ∃ r ∈ f.reads g, (r.patch g).Hits o := by
      have hagree : ∀ m m' : Memory Byte,
          m.replay ((f.reads g).map (·.patch g)) o = m'.replay ((f.reads g).map (·.patch g)) o := by
        intro m m'
        rcases readWith_mem hf m with ⟨hserved, hmem⟩
        have heq := h.agree m m' _ hserved o ho
        rw [hmem, (readWith_mem hf m').2] at heq
        exact heq
      rcases Memory.replay_agree_iff.mp hagree with ⟨p, hp, hits⟩
      rcases List.mem_map.mp hp with ⟨r, hr, rfl⟩
      exact ⟨r, hr, hits⟩
    refine ⟨hhit, fun hblank => ?_⟩
    rcases readWith_mem hf zeroed with ⟨hserved, hmem⟩
    have hzero := h.zero zeroed _ hserved o ho hblank
    rw [hmem, delivered, Memory.replay_apply] at hzero
    cases hlast : lastHit (o : Int) ((f.reads g).map (·.patch g)) with
    | none =>
        rcases hhit with ⟨r, hr, hits⟩
        exact absurd hits (lastHit_eq_none_iff.mp hlast _ (List.mem_map_of_mem hr))
    | some p =>
        rw [hlast] at hzero
        exact ⟨p, rfl, hzero⟩
  · intro h
    refine ⟨?_, ?_⟩
    · intro m m' f' hf' o ho
      rcases served_withMem_iff.mp hf' with ⟨f, hf, rfl⟩
      rcases (h f hf o ho).1 with ⟨r, hr, hits⟩
      rw [(readWith_mem hf m).2, (readWith_mem hf m').2]
      exact Memory.replay_agree_iff.mpr ⟨_, List.mem_map_of_mem hr, hits⟩ m m'
    · intro m f' hf' o ho hblank
      rcases served_withMem_iff.mp hf' with ⟨f, hf, rfl⟩
      rcases (h f hf o ho).2 hblank with ⟨p, hlast, hzero⟩
      rw [(readWith_mem hf m).2, delivered, Memory.replay_apply, hlast]
      exact hzero

/-- A file of two blocks with a hole in front. -/
def holeInFront : Globals :=
  (init .linux64 (singleFileImage (fileCore 1024 1) [extentRecord 1 16 1] [] 32768)).1

/-- The first byte of the hole keeps what the buffer held. -/
theorem not_nothingStale_holeInFront :
    (readFileFromDisk holeInFront [slash, 0x61#8] 1024 (startWorld 0 zeroed)).1 = 0 ∧
      ¬NothingStale holeInFront [slash, 0x61#8] 1024 (startWorld 0 zeroed) := by
  have hwalk : (walk holeInFront [slash, 0x61#8] holeInFront.rootino (startWorld 0 zeroed)).1 =
      .ok 9 := by decide +kernel
  have hserved : Served holeInFront [slash, 0x61#8] 1024 (startWorld 0 zeroed)
      (locatedAt holeInFront [slash, 0x61#8] (startWorld 0 zeroed) 9) :=
    served_locatedAt hwalk (by decide +kernel)
  refine ⟨by decide +kernel, fun h => ?_⟩
  rcases readWith_mem hserved fun _ => 1 with ⟨hserved', -⟩
  have hzero := h.zero (fun _ => 1) _ hserved' 0 (by decide +kernel) (by decide +kernel)
  exact absurd hzero (by decide +kernel)

end Xfsd
