import Xfsd.Reader.Blocks
import Xfsd.OnDisk.Encode

/-!
# XFSD - The free list of an allocation group

The AGFL is a sector of block numbers of which {lit}`agf_flcount` are in use, from
{lit}`agf_flfirst` on and around the end of the sector.  {lit}`init` loads as many
entries from the start of the sector into an array of ten, and
{lit}`get_agf_free_block` looks up a place in that array.

Main results:

- Theorem {lit}`agflBno_init`: what the array holds after {lit}`init`.
- Theorem {lit}`followsFreeList_iff`: when a lookup returns the entry that the free
  list has at an index.
-/

namespace Xfsd

open Foundation

/-! ## The lookup -/

/-- {lit}`be32_to_cpu( agf.agf_flfirst)`. -/
def agfFlfirst (agf : Memory Byte) : BitVec 32 :=
  be32ToCpu (loadLE32 agf 40)

/-- {lit}`be32_to_cpu( agfl[i].agfl_bno[0])`. -/
def agflBno (agfl : Memory Byte) (i : Int) : BitVec 32 :=
  be32ToCpu (loadLE32 agfl (4 * i))

/-- The number of elements of {lit}`static xfs_agfl_t agfl[10]`. -/
def agflSlots : Int := 10

/-- {lit}`count + be32_to_cpu( agf.agf_flfirst)` as an {lit}`int`. -/
def freeBlockIndex (g : Globals) (count : BitVec 32) : Int :=
  (count + agfFlfirst g.agf).toInt

/-- {lit}`get_agf_free_block`. -/
def getAgfFreeBlock (g : Globals) (count : BitVec 32) : BitVec 32 :=
  let flcount := agfFlcount g.agf
  if count.toInt ≤ flcount.toInt then agflBno g.agfl (freeBlockIndex g count) else 0

/-! ## The free list -/

/-- {lit}`XFS_AGFL_SIZE`. -/
def xfsAgflSize (sb : XfsSb) : Nat :=
  sb.sbSectsize.toNat / 4

/-- An entry of the AGFL sector. -/
def agflEntry (g : Globals) (k : Nat) : BitVec 32 :=
  loadBE32 (imageMemory g.file) (g.sb.sbSectsize.toNat * 3 + 4 * k : Nat)

/-- The read of {lit}`init` into {lit}`agfl`. -/
def agflPatch (g : Globals) : Patch Byte :=
  freadPatch g.file (g.sb.sbSectsize.toNat * 3)
    (g.build.toSizeT sizeofXfsAgfl * g.build.toSizeT (agfFlcount g.agf)) 0

/-- The index belongs to a block of the free list. -/
def Active (g : Globals) (i : BitVec 32) : Prop :=
  0 ≤ i.toInt ∧ i.toInt < (agfFlcount g.agf).toNat

instance (g : Globals) (i : BitVec 32) : Decidable (Active g i) :=
  inferInstanceAs (Decidable (_ ∧ _))

/-- A lookup follows the free list around the sector, and neither {lit}`init` nor the lookup
touches an element outside the array. -/
structure FollowsFreeList (g : Globals) (i : BitVec 32) : Prop where
  active : Active g i → getAgfFreeBlock g i =
    agflEntry g (((agfFlfirst g.agf).toNat + i.toNat) % xfsAgflSize g.sb)
  inactive : ¬Active g i → getAgfFreeBlock g i = 0
  initInside : ∀ a, (agflPatch g).Hits a → 0 ≤ a ∧ a < 4 * agflSlots
  lookupInside : i.toInt ≤ (agfFlcount g.agf).toInt →
    0 ≤ freeBlockIndex g i ∧ freeBlockIndex g i < agflSlots

/-- The place that a lookup looks at is one of the ten, and either one of those that were loaded
and the right one, or one of those that were not loaded where 0 is right. -/
def RightPlace (g : Globals) (i : BitVec 32) (k : Int) : Prop :=
  0 ≤ k ∧ k < agflSlots ∧
    if Active g i then
      k < (agfFlcount g.agf).toNat ∨ agflEntry g (k.toNat % xfsAgflSize g.sb) = 0
    else (agfFlcount g.agf).toNat ≤ k ∨ agflEntry g k.toNat = 0

instance (g : Globals) (i : BitVec 32) (k : Int) : Decidable (RightPlace g i k) :=
  inferInstanceAs (Decidable (_ ∧ _ ∧ _))

/-! ## What was loaded -/

/-- The AGF and AGFL sectors of an image, as {lit}`init` finds them. -/
structure ValidFreeList (b : Build) (file : FileImage Byte) : Prop where
  flfirst_lt : (agfFlfirst (init b file).1.agf).toNat < xfsAgflSize (init b file).1.sb
  flcount_le : (agfFlcount (init b file).1.agf).toNat ≤ xfsAgflSize (init b file).1.sb
  held : 4 * (init b file).1.sb.sbSectsize.toNat ≤ file.size

/-- {lit}`init` reads into {lit}`agfl` once. -/
theorem init_agfl (b : Build) (file : FileImage Byte) :
    (init b file).1.agfl = zeroed.patch (agflPatch (init b file).1) := by
  simp only [init, initRead, freadInto, agflPatch, fseekSet_natCast]

section Loaded

variable {b : Build} {file : FileImage Byte}

/-- All entries that are asked for are loaded. -/
theorem agflPatch_len (h : ValidFreeList b file) :
    (agflPatch (init b file).1).len = 4 * (agfFlcount (init b file).1.agf).toNat := by
  have hfile : (init b file).1.file = file := rfl
  have hcount := h.flcount_le
  have hheld := h.held
  have hsect := (init b file).1.sb.sbSectsize.isLt
  unfold xfsAgflSize at hcount
  have hone : (init b file).1.build.toSizeT sizeofXfsAgfl = 4 := by
    rw [Build.toSizeT_of_lt _ (by decide)]
    rfl
  rw [agflPatch, freadPatch, hone, Build.toSizeT_of_lt _ (by omega), hfile]
  exact freadBytes_of_le (by omega)

/-- What the array holds after {lit}`init`: the first entries of the sector, as many as the free
list has, and zeros. -/
theorem agflBno_init (h : ValidFreeList b file) (k : Int) :
    agflBno (init b file).1.agfl k =
      if 0 ≤ k ∧ k < (agfFlcount (init b file).1.agf).toNat then
        agflEntry (init b file).1 k.toNat
      else 0 := by
  have hlen := agflPatch_len h
  have hdst : (agflPatch (init b file).1).dst = 0 := rfl
  rw [agflBno, be32ToCpu_loadLE32, init_agfl]
  by_cases hk : 0 ≤ k ∧ k < (agfFlcount (init b file).1.agf).toNat
  · rw [if_pos hk, agflEntry]
    apply loadBE32_congr
    intro i hi
    have hhits : (agflPatch (init b file).1).Hits (4 * k + i) := by
      unfold Patch.Hits
      omega
    rw [Memory.patch_of_hits hhits, imageMemory]
    have hsrc : (init b file).1.sb.sbSectsize.toNat * 3 + (4 * k + i - 0).toNat =
        (((init b file).1.sb.sbSectsize.toNat * 3 + 4 * k.toNat : Nat) + i : Int).toNat := by
      omega
    exact congrArg file.getD hsrc
  · rw [if_neg hk]
    have hzero : loadBE32 (zeroed.patch (agflPatch (init b file).1)) (4 * k) =
        loadBE32 zeroed 0 := by
      apply loadBE32_congr
      intro i hi
      have hhits : ¬(agflPatch (init b file).1).Hits (4 * k + i) := by
        unfold Patch.Hits
        omega
      rw [Memory.patch_of_not_hits hhits]
      rfl
    rw [hzero]
    rfl

/-- The load stays inside the array exactly when the free list has at most ten blocks. -/
theorem initInside_iff (h : ValidFreeList b file) :
    (∀ a, (agflPatch (init b file).1).Hits a → 0 ≤ a ∧ a < 4 * agflSlots) ↔
      (agfFlcount (init b file).1.agf).toNat ≤ 10 := by
  have hlen := agflPatch_len h
  have hdst : (agflPatch (init b file).1).dst = 0 := rfl
  have hslots : agflSlots = 10 := rfl
  unfold Patch.Hits
  constructor
  · intro hinside
    by_contra hlt
    have hlast := hinside 40 (by omega)
    omega
  · intro hle a ha
    omega

/-! ## When a lookup is right -/

/-- The numbers that describe the free list are small. -/
theorem ValidFreeList.lt (h : ValidFreeList b file) :
    (agfFlfirst (init b file).1.agf).toNat < 2 ^ 14 ∧
      (agfFlcount (init b file).1.agf).toNat < 2 ^ 14 ∧
      (agfFlcount (init b file).1.agf).toInt = (agfFlcount (init b file).1.agf).toNat := by
  have hfirst := h.flfirst_lt
  have hcount := h.flcount_le
  have hsect := (init b file).1.sb.sbSectsize.isLt
  unfold xfsAgflSize at hfirst hcount
  exact ⟨by omega, by omega, BitVec.toInt_eq_toNat_of_lt (by omega)⟩

/-- The sum of {lit}`agf_flfirst` and an index that is not beyond the end of the list does not
leave the range of an {lit}`int`. -/
theorem freeBlockIndex_eq (h : ValidFreeList b file) {i : BitVec 32}
    (hi : i.toInt ≤ (agfFlcount (init b file).1.agf).toNat) :
    freeBlockIndex (init b file).1 i = i.toInt + (agfFlfirst (init b file).1.agf).toNat := by
  rcases h.lt with ⟨hfirst, hcount, -⟩
  have hfirstInt : (agfFlfirst (init b file).1.agf).toInt =
      (agfFlfirst (init b file).1.agf).toNat := BitVec.toInt_eq_toNat_of_lt (by omega)
  have hlo := i.le_toInt
  rw [freeBlockIndex, BitVec.toInt_add, hfirstInt]
  exact Int.bmod_eq_of_le (by omega) (by omega)

/-- A lookup that is not beyond the end of the list returns what was loaded at its place. -/
theorem getAgfFreeBlock_of_le (h : ValidFreeList b file) {i : BitVec 32}
    (hi : i.toInt ≤ (agfFlcount (init b file).1.agf).toNat) :
    getAgfFreeBlock (init b file).1 i =
      if 0 ≤ i.toInt + (agfFlfirst (init b file).1.agf).toNat ∧
          i.toInt + (agfFlfirst (init b file).1.agf).toNat <
            (agfFlcount (init b file).1.agf).toNat then
        agflEntry (init b file).1 (i.toInt + (agfFlfirst (init b file).1.agf).toNat).toNat
      else 0 := by
  rw [← agflBno_init h, ← freeBlockIndex_eq h hi]
  exact if_pos (by rw [h.lt.2.2]; exact hi)

/-- A lookup beyond the end of the list returns 0. -/
theorem getAgfFreeBlock_of_lt (h : ValidFreeList b file) {i : BitVec 32}
    (hi : ¬i.toInt ≤ (agfFlcount (init b file).1.agf).toNat) :
    getAgfFreeBlock (init b file).1 i = 0 :=
  if_neg (by rw [h.lt.2.2]; exact hi)

/-- An index of the free list is not negative. -/
theorem Active.toInt_eq {g : Globals} {i : BitVec 32} (h : Active g i) : i.toInt = i.toNat := by
  have hnonneg := h.1
  rw [BitVec.toInt_eq_toNat_cond] at hnonneg ⊢
  split at hnonneg
  · rw [if_pos ‹_›]
  · omega

/-- At a place in the array, a lookup returns what the free list has exactly when the place is
right. -/
theorem getAgfFreeBlock_right_iff (h : ValidFreeList b file) {i : BitVec 32} {k : Int}
    (hk : k = i.toInt + (agfFlfirst (init b file).1.agf).toNat)
    (hi : i.toInt ≤ (agfFlcount (init b file).1.agf).toNat) (hinside : 0 ≤ k ∧ k < agflSlots) :
    (Active (init b file).1 i → getAgfFreeBlock (init b file).1 i =
        agflEntry (init b file).1
          (((agfFlfirst (init b file).1.agf).toNat + i.toNat) % xfsAgflSize (init b file).1.sb)) ∧
      (¬Active (init b file).1 i → getAgfFreeBlock (init b file).1 i = 0) ↔
    RightPlace (init b file).1 i k := by
  have hcount := h.flcount_le
  rw [getAgfFreeBlock_of_le h hi, ← hk, RightPlace, ← and_assoc, and_iff_right hinside]
  by_cases hactive : Active (init b file).1 i
  · have hsum : (agfFlfirst (init b file).1.agf).toNat + i.toNat = k.toNat := by
      have htoInt := hactive.toInt_eq
      omega
    rw [if_pos hactive, hsum, imp_iff_right hactive,
      and_iff_left fun hnot => absurd hactive hnot]
    by_cases hlt : k < (agfFlcount (init b file).1.agf).toNat
    · rw [if_pos ⟨hinside.1, hlt⟩, Nat.mod_eq_of_lt (by omega)]
      simp [hlt]
    · rw [if_neg fun hloaded => hlt hloaded.2, or_iff_right hlt]
      exact eq_comm
  · rw [if_neg hactive, and_iff_right fun h => absurd h hactive, imp_iff_right hactive]
    by_cases hlt : k < (agfFlcount (init b file).1.agf).toNat
    · rw [if_pos ⟨hinside.1, hlt⟩, or_iff_right (by omega)]
    · rw [if_neg fun hloaded => hlt hloaded.2]
      exact iff_of_true rfl (Or.inl (by omega))

/-- A lookup follows the free list exactly when the list fits the array, and an index that is not
beyond the end of the list leads to the right place. -/
theorem followsFreeList_iff (h : ValidFreeList b file) (i : BitVec 32) :
    FollowsFreeList (init b file).1 i ↔
      (agfFlcount (init b file).1.agf).toNat ≤ 10 ∧
        (i.toInt ≤ (agfFlcount (init b file).1.agf).toNat →
          RightPlace (init b file).1 i (i.toInt + (agfFlfirst (init b file).1.agf).toNat)) := by
  have hcountInt := h.lt.2.2
  constructor
  · intro hfollows
    refine ⟨(initInside_iff h).mp hfollows.initInside, fun hi => ?_⟩
    have hinside := hfollows.lookupInside (by omega)
    rw [freeBlockIndex_eq h hi] at hinside
    exact (getAgfFreeBlock_right_iff h rfl hi hinside).mp ⟨hfollows.active, hfollows.inactive⟩
  · intro hright
    rcases hright with ⟨hcount, hplace⟩
    have hinit := (initInside_iff h).mpr hcount
    by_cases hi : i.toInt ≤ (agfFlcount (init b file).1.agf).toNat
    · have hinside := hplace hi
      have hvalue := (getAgfFreeBlock_right_iff h rfl hi ⟨hinside.1, hinside.2.1⟩).mpr hinside
      refine ⟨hvalue.1, hvalue.2, hinit, fun _ => ?_⟩
      rw [freeBlockIndex_eq h hi]
      exact ⟨hinside.1, hinside.2.1⟩
    · refine ⟨fun hactive => ?_, fun _ => getAgfFreeBlock_of_lt h hi, hinit, fun hle => ?_⟩
      · exact absurd hactive.2.le hi
      · exact absurd (by omega) hi

end Loaded

/-- An image whose AGFL sector holds the block numbers 11 to 18, with a free list of four blocks
from a given index on. -/
def freeListImage (flfirst : BitVec 32) : FileImage Byte :=
  diskImage (geometrySb 9 8 6 64 1 8) 2048
    [(512 + 40, beBytes32 flfirst), (512 + 48, beBytes32 4),
     (1536, [11, 12, 13, 14, 15, 16, 17, 18].flatMap beBytes32)]

/-- The third block of a list that starts one entry later. -/
theorem followsFreeList_one : FollowsFreeList (init .linux64 (freeListImage 1)).1 2 :=
  (followsFreeList_iff ⟨by decide +kernel, by decide +kernel, by decide +kernel⟩ 2).mpr
    (by decide +kernel)

/-- The first block of a list that starts four entries later is 15, and the lookup returns 0. -/
theorem not_followsFreeList_four :
    ValidFreeList .linux64 (freeListImage 4) ∧
      getAgfFreeBlock (init .linux64 (freeListImage 4)).1 0 = 0 ∧
      agflEntry (init .linux64 (freeListImage 4)).1 4 = 15 ∧
      ¬FollowsFreeList (init .linux64 (freeListImage 4)).1 0 := by
  have hlookup : getAgfFreeBlock (init .linux64 (freeListImage 4)).1 0 = 0 := by decide +kernel
  have hentry : agflEntry (init .linux64 (freeListImage 4)).1 4 = 15 := by decide +kernel
  have hactive : Active (init .linux64 (freeListImage 4)).1 0 := by decide +kernel
  have hplace : ((agfFlfirst (init .linux64 (freeListImage 4)).1.agf).toNat +
      (0 : BitVec 32).toNat) % xfsAgflSize (init .linux64 (freeListImage 4)).1.sb = 4 := by
    decide +kernel
  refine ⟨⟨by decide +kernel, by decide +kernel, by decide +kernel⟩, hlookup, hentry, fun h => ?_⟩
  have hvalue := h.active hactive
  rw [hlookup, hplace, hentry] at hvalue
  simp at hvalue

end Xfsd
