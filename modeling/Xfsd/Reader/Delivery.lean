import Xfsd.Reader.Calls
import Xfsd.OnDisk.Encode

/-!
# XFSD - What success means

A caller that gets 0 wants the whole file.  The reader looks at no result of a
seek or a read, so its code says that the checks were passed, and not that any
byte arrived.

Main results:

- Theorem {lit}`visits_succeeded_iff`: the reads of the path loop succeed exactly when
  the image holds the blocks of all visited inodes.
- Theorem {lit}`successDelivers_iff`: the code 0 means that the whole file was read
  exactly when the image holds everything that the call goes for, and the call goes
  for every byte of the file.
-/

namespace Xfsd

open Foundation

variable (g : Globals)

/-! ## Ranges of the image -/

/-- A range that a seek and a read go for lies inside the image. -/
def RangeHeld (offset : Int) (asked : Nat) : Prop :=
  0 ≤ offset ∧ (asked = 0 ∨ offset.toNat + asked ≤ g.file.size)

instance (offset : Int) (asked : Nat) : Decidable (RangeHeld g offset asked) :=
  inferInstanceAs (Decidable (_ ∧ _))

/-- The block of an inode lies inside the image. -/
def BlockHeld (ino : BitVec 64) : Prop :=
  RangeHeld g (inodeOffset g (ino.setWidth 32)) (blockRequest g)

/-- The two library calls of one positioned read succeed exactly when its range is held. -/
theorem transfer_succeeded_iff (dst : Pointer) (offset : Int) (pos asked : Nat) :
    (∀ ev ∈ [IoEvent.seek offset (fseekOk offset),
      .read dst (fseekSet pos offset) asked (freadBytes g.file (fseekSet pos offset) asked)],
        ev.Succeeded) ↔ RangeHeld g offset asked := by
  rw [RangeHeld, ← @seek_read_complete_iff _ g.file pos asked offset]
  simp [IoEvent.Succeeded]

/-- The read of an inode succeeds exactly when the image holds its block. -/
theorem inodeWorld_succeeded_iff (ino : BitVec 64) (w : World) :
    ∃ events, (inodeWorld g (ino.setWidth 32) w).log = w.log ++ events ∧
      ((∀ ev ∈ events, ev.Succeeded) ↔ BlockHeld g ino) :=
  ⟨_, inodeWorld_log g _ w, transfer_succeeded_iff g _ _ _ _⟩

/-- The reads of the path loop succeed exactly when the image holds the blocks of all visited
inodes. -/
theorem visits_succeeded_iff {fileName : List Byte} {ino target : BitVec 64} {w w' : World}
    {visited : List (BitVec 64)} (h : Visits g fileName ino w visited target w') :
    ∃ events, w'.log = w.log ++ events ∧
      ((∀ ev ∈ events, ev.Succeeded) ↔ ∀ i ∈ visited, BlockHeld g i) := by
  induction h with
  | done ino w => exact ⟨[], by simp, by simp⟩
  | @turn rest rest' ino ino' target w w' visited _ _ ih =>
      rcases ih with ⟨events, hlog, hsucceeded⟩
      rcases inodeWorld_succeeded_iff g ino w with ⟨first, hfirst, hheld⟩
      refine ⟨first ++ events, by rw [hlog, hfirst, List.append_assoc], ?_⟩
      rw [List.forall_mem_append, hsucceeded, hheld, List.forall_mem_cons]

/-! ## Planned reads -/

/-- A planned read succeeds exactly when its range is held. -/
theorem events_succeeded_iff {f : Located} {r : ExtentRead} (hr : r ∈ f.reads g) :
    (∀ ev ∈ r.events g, ev.Succeeded) ↔ RangeHeld g (r.offset g) (r.asked g) := by
  rcases plan_src g hr with ⟨pos, hsrc⟩
  rw [ExtentRead.events, ExtentRead.got, hsrc]
  exact transfer_succeeded_iff g _ _ _ _

/-- A planned read whose range is held transfers that range. -/
theorem read_of_rangeHeld {f : Located} {r : ExtentRead} (hr : r ∈ f.reads g)
    (h : RangeHeld g (r.offset g) (r.asked g)) :
    (r.src : Int) = r.offset g ∧ r.got g = r.asked g := by
  rcases plan_src g hr with ⟨pos, hsrc⟩
  have hcomplete := (@seek_read_complete_iff _ g.file pos (r.asked g) (r.offset g)).mpr h
  rw [← hsrc] at hcomplete
  refine ⟨?_, hcomplete.2⟩
  have hoffset := h.1
  rw [hsrc, fseekSet, if_pos hoffset]
  omega

/-- How many bytes of the extent are bytes of the file. -/
def ExtentRead.needed (r : ExtentRead) (fileSize : Nat) : Nat :=
  min (r.irec.brBlockcount.toNat * g.sb.sbBlocksize.toNat)
    (fileSize - r.irec.brStartoff.toNat * g.sb.sbBlocksize.toNat)

/-- The linear offset of the extent in the image. -/
def ExtentRead.place (r : ExtentRead) : Nat :=
  r.irec.brStartblock.toNat * g.sb.sbBlocksize.toNat

/-! ## Success and delivery -/

/-- A call that returns 0 has had no failed or short library call, and the read of each
extent has transferred every byte of the extent that is a byte of the file. -/
structure SuccessDelivers (fileName : List Byte) (size : BitVec 64) (w : World) : Prop where
  succeeded : (readFileFromDisk g fileName size w).1 = 0 →
    ∀ ev ∈ callEvents g fileName size w, ev.Succeeded
  delivered : ∀ f, Served g fileName size w f → ∀ r ∈ f.reads g,
    ∀ j < r.needed g f.diSize.toNat,
      IoEvent.read ⟨.mem, r.dst g⟩ r.src (r.asked g) (r.got g) ∈ callEvents g fileName size w ∧
        r.src ≤ r.place g + j ∧ r.place g + j < r.src + r.got g

/-- The image holds everything that the call goes for, and the call goes for every byte of
the file: the blocks of the visited inodes and of the file's inode, the range of each
extent's read, and in that range the bytes of the extent that are bytes of the file. -/
structure HeldInFull (fileName : List Byte) (w : World) (f : Located) : Prop where
  inodes : ∀ visited target w', Visits g fileName g.rootino w visited target w' →
    ∀ ino ∈ visited ++ [target], BlockHeld g ino
  extents : ∀ r ∈ f.reads g, RangeHeld g (r.offset g) (r.asked g)
  needed : ∀ r ∈ f.reads g, 0 < r.needed g f.diSize.toNat →
    r.offset g ≤ r.place g ∧
      (r.place g + r.needed g f.diSize.toNat : Int) ≤ r.offset g + r.asked g

variable {g}

/-- The library calls of a call that returns 0. -/
theorem callEvents_of_served {fileName : List Byte} {size : BitVec 64} {w : World}
    {f : Located} (h : Served g fileName size w f) :
    ∃ events, callEvents g fileName size w = events ++ (f.reads g).flatMap (·.events g) ∧
      ((∀ ev ∈ events, ev.Succeeded) ↔ ∀ visited target w',
        Visits g fileName g.rootino w visited target w' →
          ∀ ino ∈ visited ++ [target], BlockHeld g ino) := by
  rcases h.1 with ⟨ino, hino, -, hworld⟩
  have hwalk : walk g fileName g.rootino w = (.ok ino, (walk g fileName g.rootino w).2) := by
    rw [← hino]
  rcases walk_eq_ok_iff.mp hwalk with ⟨visited, hvisits⟩
  rcases visits_succeeded_iff g hvisits with ⟨events, hlog, hsucceeded⟩
  rcases inodeWorld_succeeded_iff g ino (walk g fileName g.rootino w).2 with
    ⟨last, hlast, hheld⟩
  rw [hlog, List.append_assoc] at hlast
  refine ⟨events ++ last, ?_, ?_⟩
  · rw [callEvents, (readFileFromDisk_served h).2.2, hworld, hlast, List.append_assoc,
      List.drop_left]
  · rw [List.forall_mem_append, hsucceeded, hheld]
    constructor
    · intro h visited' target' w' hvisits'
      rcases h with ⟨hvisited, htarget⟩
      rcases hvisits.unique hvisits' with ⟨rfl, rfl, -⟩
      rw [List.forall_mem_append, List.forall_mem_singleton]
      exact ⟨hvisited, htarget⟩
    · intro hall
      have hvisited := hall visited ino _ hvisits
      rwa [List.forall_mem_append, List.forall_mem_singleton] at hvisited

/-- The code 0 means that the whole file was read exactly when the image holds everything
that the call goes for, and the call goes for every byte of the file. -/
theorem successDelivers_iff (fileName : List Byte) (size : BitVec 64) (w : World) :
    SuccessDelivers g fileName size w ↔
      ∀ f, Served g fileName size w f → HeldInFull g fileName w f := by
  constructor
  · intro h f hf
    rcases callEvents_of_served hf with ⟨events, hcall, hinodes⟩
    have hsucceeded := h.succeeded (readFileFromDisk_served hf).1
    rw [hcall, List.forall_mem_append] at hsucceeded
    have hextents : ∀ r ∈ f.reads g, RangeHeld g (r.offset g) (r.asked g) := by
      intro r hr
      refine (events_succeeded_iff g hr).mp fun ev hev => ?_
      exact hsucceeded.2 ev (List.mem_flatMap.mpr ⟨r, hr, hev⟩)
    refine ⟨hinodes.mp hsucceeded.1, hextents, fun r hr hpos => ?_⟩
    -- the first and the last byte that are needed bound the range
    rcases read_of_rangeHeld g hr (hextents r hr) with ⟨hsrc, hgot⟩
    have hfirst := (h.delivered f hf r hr 0 hpos).2
    have hlast := (h.delivered f hf r hr (r.needed g f.diSize.toNat - 1) (by omega)).2
    omega
  · intro h
    refine ⟨fun hzero => ?_, fun f hf r hr j hj => ?_⟩
    · rcases readFileFromDisk_eq_zero_iff.mp hzero with ⟨f, hf⟩
      rcases callEvents_of_served hf with ⟨events, hcall, hinodes⟩
      have hheld := h f hf
      rw [hcall, List.forall_mem_append]
      refine ⟨hinodes.mpr hheld.inodes, fun ev hev => ?_⟩
      rcases List.mem_flatMap.mp hev with ⟨r, hr, hev⟩
      exact (events_succeeded_iff g hr).mpr (hheld.extents r hr) ev hev
    · rcases callEvents_of_served hf with ⟨events, hcall, -⟩
      have hheld := h f hf
      rcases read_of_rangeHeld g hr (hheld.extents r hr) with ⟨hsrc, hgot⟩
      have hneeded := hheld.needed r hr (by omega)
      refine ⟨?_, by omega, by omega⟩
      rw [hcall]
      refine List.mem_append_right _ (List.mem_flatMap.mpr ⟨r, hr, ?_⟩)
      simp [ExtentRead.events]

/-- A file whose only block lies beyond the end of the image. -/
def truncatedData : Globals :=
  (init .linux64 (singleFileImage (fileCore 512 1) [extentRecord 0 16 1] [] 4096)).1

/-- The call returns 0 although its last read transfers nothing. -/
theorem not_successDelivers_truncatedData :
    (readFileFromDisk truncatedData [slash, 0x61#8] 512 (startWorld 0 zeroed)).1 = 0 ∧
      ¬SuccessDelivers truncatedData [slash, 0x61#8] 512 (startWorld 0 zeroed) := by
  have hzero : (readFileFromDisk truncatedData [slash, 0x61#8] 512 (startWorld 0 zeroed)).1 =
      0 := by decide +kernel
  refine ⟨hzero, fun h => ?_⟩
  exact absurd (h.succeeded hzero) (by decide +kernel)

end Xfsd
