import Xfsd.Foundation.Store
import Xfsd.Types

/-!
# XFSD - Unaligned big-endian accesses

The accessors {lit}`get_unaligned_be16` to {lit}`put_unaligned_be64` of
{lit}`xfsd_asm.h`, which copy the bytes of a swapped local one by one, and the two
accessors of {lit}`xfs_dir2_format.h` built on the 16-bit pair.  The 16-bit store
differs from its siblings: its source pointer is its destination, so that it copies
two bytes onto themselves.

Main results:

- Theorem {lit}`putUnalignedBe16_eq`: the 16-bit store changes nothing.
- Theorem {lit}`unaligned_iff`: stores and loads are inverse and local exactly where
  the 16-bit store is not asked to change anything.
-/

namespace Xfsd

open Foundation

/-! ## Byte swaps and representations -/

/-- The swapped object is represented by the number's big-endian digits. -/
theorem leBytes32_be32ToCpu (x : BitVec 32) : leBytes32 (be32ToCpu x) = beBytes32 x := by
  rcases exists_bytes32 x with ⟨x0, x1, x2, x3, rfl⟩
  rw [leBytes32, be32ToCpu, reverseBits32_append, beBytes32_append, beBytes32_append]
  rfl

/-- The swapped object is represented by the number's big-endian digits. -/
theorem leBytes64_be64ToCpu (x : BitVec 64) : leBytes64 (be64ToCpu x) = beBytes64 x := by
  rcases exists_bytes64 x with ⟨x0, x1, x2, x3, x4, x5, x6, x7, rfl⟩
  rw [leBytes64, be64ToCpu, reverseBits64_append, beBytes64_append, beBytes64_append]
  rfl

/-! ## The accessors -/

/-- The steps {lit}`*(left++) = *(right++)`, one for each byte of the object at
{lit}`right`. -/
def copyOut (m : Memory Byte) (left : Int) : List Byte → Memory Byte
  | [] => m
  | b :: right => copyOut (m.set left b) (left + 1) right

/-- The same steps, {lit}`n` of them, with {lit}`right` in the memory that is written. -/
def copyWithin (m : Memory Byte) (left right : Int) : Nat → Memory Byte
  | 0 => m
  | n + 1 => copyWithin (m.set left (m right)) (left + 1) (right + 1) n

/-- {lit}`get_unaligned_be16`. -/
def getUnalignedBe16 (m : Memory Byte) (p : Int) : BitVec 16 :=
  be16ToCpu (loadLE16 m p)

/-- {lit}`put_unaligned_be16`: {lit}`num` is swapped, but both pointers start at
{lit}`p`. -/
def putUnalignedBe16 (num : BitVec 16) (m : Memory Byte) (p : Int) : Memory Byte :=
  let _num := be16ToCpu num
  copyWithin m p p 2

/-- {lit}`put_unaligned_be32`. -/
def putUnalignedBe32 (num : BitVec 32) (m : Memory Byte) (p : Int) : Memory Byte :=
  copyOut m p (leBytes32 (be32ToCpu num))

/-- {lit}`put_unaligned_be64`. -/
def putUnalignedBe64 (num : BitVec 64) (m : Memory Byte) (p : Int) : Memory Byte :=
  copyOut m p (leBytes64 (be64ToCpu num))

/-- {lit}`xfs_dir2_sf_get_offset`: the offset follows the byte {lit}`namelen`. -/
def xfsDir2SfGetOffset (m : Memory Byte) (sfep : Int) : BitVec 32 :=
  (getUnalignedBe16 m (sfep + 1)).setWidth 32

/-- {lit}`xfs_dir2_sf_put_offset`. -/
def xfsDir2SfPutOffset (m : Memory Byte) (sfep : Int) (off : BitVec 32) : Memory Byte :=
  putUnalignedBe16 (off.setWidth 16) m (sfep + 1)

theorem copyOut_eq_write (m : Memory Byte) (left : Int) (right : List Byte) :
    copyOut m left right = m.write left right := by
  induction right generalizing m left with
  | nil => simp [copyOut]
  | cons b right ih => rw [copyOut, ih, Memory.write_cons]

/-- Copying bytes onto themselves changes nothing. -/
theorem copyWithin_self (m : Memory Byte) (p : Int) (n : Nat) : copyWithin m p p n = m := by
  induction n generalizing p with
  | zero => rfl
  | succ n ih =>
      have hset : m.set p (m p) = m := by
        funext b
        by_cases hb : b = p <;> simp [Memory.set, hb]
      rw [copyWithin, hset, ih]

/-- The 16-bit store changes nothing. -/
theorem putUnalignedBe16_eq (num : BitVec 16) (m : Memory Byte) (p : Int) :
    putUnalignedBe16 num m p = m :=
  copyWithin_self m p 2

theorem putUnalignedBe32_eq (num : BitVec 32) (m : Memory Byte) (p : Int) :
    putUnalignedBe32 num m p = m.write p (beBytes32 num) := by
  rw [putUnalignedBe32, copyOut_eq_write, leBytes32_be32ToCpu]

theorem putUnalignedBe64_eq (num : BitVec 64) (m : Memory Byte) (p : Int) :
    putUnalignedBe64 num m p = m.write p (beBytes64 num) := by
  rw [putUnalignedBe64, copyOut_eq_write, leBytes64_be64ToCpu]

/-! ## Stores and loads -/

/-- The widths that the accessors come in. -/
inductive UnalignedWidth where
  | w16
  | w32
  | w64
deriving DecidableEq, Repr

namespace UnalignedWidth

/-- The number of bits. -/
def bits : UnalignedWidth → Nat
  | w16 => 16
  | w32 => 32
  | w64 => 64

/-- The load of a width. -/
def get : (n : UnalignedWidth) → Memory Byte → Int → BitVec n.bits
  | w16 => getUnalignedBe16
  | w32 => getUnalignedBe32
  | w64 => getUnalignedBe64

/-- The store of a width. -/
def put : (n : UnalignedWidth) → BitVec n.bits → Memory Byte → Int → Memory Byte
  | w16 => putUnalignedBe16
  | w32 => putUnalignedBe32
  | w64 => putUnalignedBe64

/-- The big-endian digits of a number. -/
def digits : (n : UnalignedWidth) → BitVec n.bits → List Byte
  | w16 => beBytes16
  | w32 => beBytes32
  | w64 => beBytes64

variable (n : UnalignedWidth)

/-- Each load finds the number whose digits stand at the address. -/
theorem spells_digits_iff {m : Memory Byte} {p : Int} {x : BitVec n.bits} :
    Spells m p (n.digits x) ↔ n.get m p = x := by
  cases n with
  | w16 =>
      simp only [digits, get, getUnalignedBe16, be16ToCpu_loadLE16]
      exact spells_beBytes16_iff
  | w32 =>
      simp only [digits, get, getUnalignedBe32, be32ToCpu_loadLE32]
      exact spells_beBytes32_iff
  | w64 =>
      simp only [digits, get, getUnalignedBe64, be64ToCpu_loadLE64]
      exact spells_beBytes64_iff

theorem length_digits (x : BitVec n.bits) : (n.digits x).length = n.bits / 8 := by
  cases n with
  | w16 => exact length_beBytes16 x
  | w32 => exact length_beBytes32 x
  | w64 => exact length_beBytes64 x

/-- Apart from the 16-bit store, a store writes the digits. -/
theorem put_eq_write (h : n ≠ w16) (x : BitVec n.bits) (m : Memory Byte) (p : Int) :
    n.put x m p = m.write p (n.digits x) := by
  cases n with
  | w16 => exact absurd rfl h
  | w32 => exact putUnalignedBe32_eq x m p
  | w64 => exact putUnalignedBe64_eq x m p

end UnalignedWidth

/-- A store and a load of one width are inverse and local at an address. -/
structure InverseAt (n : UnalignedWidth) (x : BitVec n.bits) (m : Memory Byte) (p : Int) :
    Prop where
  get_put : n.get (n.put x m p) p = x
  digits : Spells (n.put x m p) p (n.digits x)
  frame : ∀ a, a < p ∨ p + (n.bits / 8 : Nat) ≤ a → n.put x m p a = m a
  put_get : n.put (n.get m p) m p = m

/-- A store and a load of one width are inverse and local, except that a 16-bit store brings
nothing that is not there. -/
theorem inverseAt_iff (n : UnalignedWidth) (x : BitVec n.bits) (m : Memory Byte) (p : Int) :
    InverseAt n x m p ↔ (n = .w16 → Spells m p (n.digits x)) := by
  constructor
  · intro h hn
    subst hn
    have hsame : UnalignedWidth.w16.put x m p = m := putUnalignedBe16_eq x m p
    rw [← hsame]
    exact h.digits
  · intro h
    -- either way, the memory after the store is a write of the digits
    have hput : ∀ y : BitVec n.bits, (n = .w16 → Spells m p (n.digits y)) →
        n.put y m p = m.write p (n.digits y) := by
      intro y hy
      by_cases hn : n = .w16
      · rw [Memory.write_eq_self_iff.mpr (hy hn)]
        subst hn
        exact putUnalignedBe16_eq y m p
      · exact n.put_eq_write hn y m p
    have hspells := spells_write m p (n.digits x)
    refine ⟨?_, ?_, fun a ha => ?_, ?_⟩
    · rw [hput x h]
      exact n.spells_digits_iff.mp hspells
    · rw [hput x h]
      exact hspells
    · rw [hput x h]
      apply Memory.write_outside
      rw [n.length_digits]
      exact ha
    · have hthere : Spells m p (n.digits (n.get m p)) := n.spells_digits_iff.mpr rfl
      rw [hput _ fun _ => hthere]
      exact Memory.write_eq_self_iff.mpr hthere

/-- The offset of an entry is what was stored for it. -/
def OffsetKept (m : Memory Byte) (sfep : Int) (off : BitVec 16) : Prop :=
  xfsDir2SfGetOffset (xfsDir2SfPutOffset m sfep (off.setWidth 32)) sfep = off.setWidth 32

/-- An offset is kept exactly when the entry has it already. -/
theorem offsetKept_iff (m : Memory Byte) (sfep : Int) (off : BitVec 16) :
    OffsetKept m sfep off ↔ Spells m (sfep + 1) (beBytes16 off) := by
  have hsame : xfsDir2SfPutOffset m sfep (off.setWidth 32) = m := putUnalignedBe16_eq _ m _
  rw [OffsetKept, hsame, xfsDir2SfGetOffset, spells_beBytes16_iff, getUnalignedBe16,
    be16ToCpu_loadLE16]
  constructor
  · intro h
    have hcut := congrArg (BitVec.setWidth 16) h
    simpa using hcut
  · intro h
    rw [h]

/-- Stores and loads of all widths are inverse and local, and offsets of entries are kept,
exactly where the digits that a 16-bit store is to bring stand already. -/
theorem unaligned_iff (n : UnalignedWidth) (x : BitVec n.bits) (m : Memory Byte) (p : Int)
    (sfep : Int) (off : BitVec 16) :
    (InverseAt n x m p ↔ (n = .w16 → Spells m p (n.digits x))) ∧
      (OffsetKept m sfep off ↔ Spells m (sfep + 1) (beBytes16 off)) :=
  ⟨inverseAt_iff n x m p, offsetKept_iff m sfep off⟩

/-- A 16-bit number that is stored into a buffer of zeros is loaded as zero. -/
theorem not_inverseAt_zeros :
    ¬InverseAt .w16 0x1234#16 (fun _ => 0) 0 ∧ ¬OffsetKept (fun _ => 0) 0 0x1234#16 := by
  refine ⟨fun h => ?_, by unfold OffsetKept; decide⟩
  have hget : getUnalignedBe16 (putUnalignedBe16 0x1234#16 (fun _ => 0) 0) 0 = 0x1234#16 :=
    h.get_put
  exact absurd hget (by decide)

end Xfsd
