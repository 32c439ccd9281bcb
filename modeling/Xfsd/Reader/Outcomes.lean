import Xfsd.Reader.Calls
import Xfsd.OnDisk.Encode

/-!
# XFSD - How a call ends

A call of {lit}`read_file_from_disk` ends with 0 after the extent loop or with one of
five negative codes before it.  This module says which files get as far as the
extent loop, what a call that does not has done to the caller's buffer, and when
the code is {lit}`-5`.

Main results:

- Theorem {lit}`readsRegular_iff`: the type check lets exactly a regular file through
  when the lowest permission bit says what the type bits say.
- Theorem {lit}`failsCleanly`: a call that fails has read blocks into the block
  buffer, and nothing else.
-/

namespace Xfsd

open Foundation

variable (g : Globals)

/-! ## File types -/

/-- The inode is a regular file: {lit}`( cur.di_mode & S_IFMT) == S_IFREG`. -/
def XfsIcdinode.IsReg (cur : XfsIcdinode) : Prop :=
  cur.diMode.setWidth 32 &&& sIfmt = sIfreg

instance (cur : XfsIcdinode) : Decidable cur.IsReg :=
  inferInstanceAs (Decidable (_ = _))

/-- The type check looks at one permission bit, and at no type bit. -/
theorem XfsIcdinode.typeTest_iff (cur : XfsIcdinode) :
    cur.TypeTest ↔ cur.diMode.getLsbD 0 = true := by
  have hmask : (if sIfmt ≠ sIfreg then 1#32 else 0#32) = 1#32 := if_pos (by decide)
  have hbit : (cur.diMode.setWidth 32 &&& 1#32).toNat = cur.diMode.toNat % 2 := by
    rw [BitVec.toNat_and, BitVec.toNat_setWidth]
    have hlt := cur.diMode.isLt
    rw [Nat.mod_eq_of_lt (by omega)]
    exact Nat.and_one_is_mod _
  have hlsb : cur.diMode.getLsbD 0 = true ↔ cur.diMode.toNat % 2 = 1 := by
    rw [BitVec.getLsbD, Nat.testBit_zero]
    exact decide_eq_true_iff
  have hzero : (0 : BitVec 32).toNat = 0 := rfl
  rw [XfsIcdinode.TypeTest, hmask, hlsb, ne_eq, ← BitVec.toNat_inj, hbit, hzero]
  omega

/-! ## The extent loop is for regular files -/

/-- The call comes to the extent loop of the inode, and returns 0 after it. -/
def ReachesExtentLoop (fileName : List Byte) (size : BitVec 64) (w : World) (f : Located) : Prop :=
  readFileFromDisk g fileName size w =
    (0, (extentLoop g (xfsDforkNextents f.world.blockBuf f.raw).toNat (xfsDforkDptr f.raw)
      f.diSize f.world).2)

/-- Exactly a regular file is read, and any other file is refused with {lit}`-3`. -/
structure ReadsRegular (fileName : List Byte) (size : BitVec 64) (w : World) (f : Located) :
    Prop where
  regular : ReachesExtentLoop g fileName size w f ↔ f.core.IsReg
  other : ¬f.core.IsReg → (readFileFromDisk g fileName size w).1 = -3

variable {g}

/-- Past the format check and the size check, the type check alone decides. -/
theorem reachesExtentLoop_iff {fileName : List Byte} {size : BitVec 64} {w : World} {f : Located}
    (hloc : LocatesTo g fileName w f) (hformat : f.core.diFormat = xfsDinodeFmtExtents)
    (hsize : f.diSize ≤ size) :
    (ReachesExtentLoop g fileName size w f ↔ ¬f.core.TypeTest) ∧
      (f.core.TypeTest → (readFileFromDisk g fileName size w).1 = -3) := by
  rw [ReachesExtentLoop, readFileFromDisk_located hloc]
  by_cases htype : f.core.TypeTest
  · rw [readContent_of_typeTest g htype]
    refine ⟨⟨fun h => ?_, fun h => absurd htype h⟩, fun _ => rfl⟩
    have hcode : (-3 : Int) = 0 := congrArg Prod.fst h
    simp at hcode
  · have hfits : ¬size < rawDiSize f.world.blockBuf f.raw := BitVec.not_lt.mpr hsize
    refine ⟨⟨fun _ => htype, fun _ => ?_⟩, fun h => absurd h htype⟩
    unfold readContent
    rw [if_neg htype, if_neg (not_not.mpr hformat), if_neg hfits]
    rfl

/-- Exactly the regular files are read when the lowest permission bit is clear for a regular
file and set for any other. -/
theorem readsRegular_iff {fileName : List Byte} {size : BitVec 64} {w : World} {f : Located}
    (hloc : LocatesTo g fileName w f) (hformat : f.core.diFormat = xfsDinodeFmtExtents)
    (hsize : f.diSize ≤ size) :
    ReadsRegular g fileName size w f ↔ (f.core.diMode.getLsbD 0 = false ↔ f.core.IsReg) := by
  rcases reachesExtentLoop_iff hloc hformat hsize with ⟨hreaches, hrefused⟩
  rw [XfsIcdinode.typeTest_iff, Bool.not_eq_true] at hreaches
  rw [XfsIcdinode.typeTest_iff] at hrefused
  constructor
  · intro h
    rw [← hreaches, h.regular]
  · intro h
    refine ⟨hreaches.trans h, fun hother => hrefused ?_⟩
    rw [← Bool.not_eq_false]
    exact fun hclear => hother (h.mp hclear)

/-- An image with one file of one block and a given mode. -/
def modeImage (mode : BitVec 16) : FileImage Byte :=
  singleFileImage { fileCore 512 1 with diMode := mode } [extentRecord 0 6 1] [] 4096

/-- A file with the permissions 0644 is read. -/
theorem readsRegular_0644 :
    let g := (init .linux64 (modeImage 0o100644)).1
    let f := locatedAt g [slash, 0x61#8] (startWorld 0 zeroed) 9
    f.core.IsReg ∧ ReadsRegular g [slash, 0x61#8] 512 (startWorld 0 zeroed) f := by
  intro g f
  have hwalk : (walk g [slash, 0x61#8] g.rootino (startWorld 0 zeroed)).1 = .ok 9 := by
    decide +kernel
  have hreg : f.core.IsReg := by decide +kernel
  have hclear : f.core.diMode.getLsbD 0 = false := by decide +kernel
  refine ⟨hreg, ?_⟩
  exact (readsRegular_iff ⟨9, hwalk, rfl, rfl⟩ (by decide +kernel) (by decide +kernel)).mpr
    (iff_of_true hclear hreg)

/-- A file with the permissions 0755 is refused. -/
theorem not_readsRegular_0755 :
    let g := (init .linux64 (modeImage 0o100755)).1
    let f := locatedAt g [slash, 0x61#8] (startWorld 0 zeroed) 9
    LocatesTo g [slash, 0x61#8] (startWorld 0 zeroed) f ∧
      f.core.diFormat = xfsDinodeFmtExtents ∧ f.diSize ≤ 512 ∧
      f.core.IsReg ∧ (readFileFromDisk g [slash, 0x61#8] 512 (startWorld 0 zeroed)).1 = -3 ∧
      ¬ReadsRegular g [slash, 0x61#8] 512 (startWorld 0 zeroed) f := by
  intro g f
  have hwalk : (walk g [slash, 0x61#8] g.rootino (startWorld 0 zeroed)).1 = .ok 9 := by
    decide +kernel
  have hloc : LocatesTo g [slash, 0x61#8] (startWorld 0 zeroed) f := ⟨9, hwalk, rfl, rfl⟩
  have hreg : f.core.IsReg := by decide +kernel
  have hcode : (readFileFromDisk g [slash, 0x61#8] 512 (startWorld 0 zeroed)).1 = -3 := by
    decide +kernel
  refine ⟨hloc, by decide +kernel, by decide +kernel, hreg, hcode, fun h => ?_⟩
  have hreaches := h.regular.mpr hreg
  rw [ReachesExtentLoop] at hreaches
  rw [hreaches] at hcode
  simp at hcode

/-! ## Calls that fail -/

variable (g) in
/-- A call ends with 0 or with one of five negative codes.  With a negative code, no byte of
the caller's buffer has been written, and every read has gone to the block buffer.  Past the type
check and the format check, the code is {lit}`-5` exactly when the capacity is below the size of
the file. -/
structure FailsCleanly (fileName : List Byte) (size : BitVec 64) (w : World) : Prop where
  codes : (readFileFromDisk g fileName size w).1 = 0 ∨
    (-5 ≤ (readFileFromDisk g fileName size w).1 ∧ (readFileFromDisk g fileName size w).1 ≤ -1)
  unwritten : (readFileFromDisk g fileName size w).1 < 0 →
    (readFileFromDisk g fileName size w).2.mem = w.mem ∧
      ∀ i, ¬StoresAt g fileName size w i
  blocks : (readFileFromDisk g fileName size w).1 < 0 →
    ∀ ev ∈ callEvents g fileName size w, ev.FillsBlock g
  noSpace : ∀ f, LocatesTo g fileName w f → ¬f.core.TypeTest →
    f.core.diFormat = xfsDinodeFmtExtents →
      ((readFileFromDisk g fileName size w).1 = -5 ↔ size.toNat < f.diSize.toNat)

/-- Every call that fails leaves the caller's buffer alone. -/
theorem failsCleanly (g : Globals) (fileName : List Byte) (size : BitVec 64) (w : World) :
    FailsCleanly g fileName size w := by
  have hserved : (readFileFromDisk g fileName size w).1 < 0 →
      ∀ f, ¬Served g fileName size w f := by
    intro hneg f hf
    have hzero := (readFileFromDisk_served hf).1
    omega
  refine ⟨?_, fun hneg => ?_, fun hneg => ?_, fun f hloc htype hformat => ?_⟩
  · by_cases hnone : ∀ f, ¬Served g fileName size w f
    · have hcode := readFileFromDisk_refused hnone
      omega
    · push Not at hnone
      exact Or.inl (readFileFromDisk_eq_zero_iff.mpr hnone)
  · exact ⟨(readFileFromDisk_refused (hserved hneg)).2.2.1,
      not_storesAt_of_refused (hserved hneg)⟩
  · rcases (readFileFromDisk_refused (hserved hneg)).2.2 with ⟨-, events, hlog, hfills⟩
    have hcall : callEvents g fileName size w = events := by
      rw [callEvents, hlog, List.drop_left]
    rwa [hcall]
  · rw [readFileFromDisk_located hloc, ← BitVec.lt_def]
    by_cases hsize : size < f.diSize
    · rw [readContent_of_lt g htype hformat hsize]
      exact iff_of_true rfl hsize
    · rcases readContent_of_admits g ⟨htype, hformat, hsize⟩ with ⟨pos, hpos⟩
      rw [hpos]
      exact iff_of_false (by simp) hsize

end Xfsd
