import Xfsd.Foundation.Memory
import Mathlib.Algebra.Group.Nat.Defs

/-!
# Foundation - Read-only streams

The part of C's stream library that a reader of an immutable file uses: a file
image of fixed length, {lit}`fseek` from the start and {lit}`fread`.  A read that
meets the end of the file transfers only the elements that exist and leaves the
rest of its destination as it was.

Main results:

- Theorem {lit}`freadBytes_eq_iff`: a read is complete exactly when the
  requested range lies inside the file.
- Theorem {lit}`seek_read_complete_iff`: a seek and a read both do what they are asked
  for exactly when the range they go for lies inside the file.
-/

namespace Foundation

variable {α : Type*}

/-- The contents of an immutable file.  No file is longer than an offset can say. -/
structure FileImage (α : Type*) where
  size : Nat
  byte : Fin size → α
  size_lt : size < 2 ^ 63

namespace FileImage

/-- The element at a position, or a filler past the end of the file. -/
def getD [Inhabited α] (f : FileImage α) (p : Nat) : α :=
  if h : p < f.size then f.byte ⟨p, h⟩ else default

/-- The element that a list of stretches has at a position: the first stretch that reaches
the position decides. -/
def ofStretches [Inhabited α] : List (Nat × List α) → Nat → α
  | [], _ => default
  | (start, xs) :: rest, p =>
      if start ≤ p ∧ p < start + xs.length then xs.getD (p - start) default
      else ofStretches rest p

/-- A file of a given size that holds some stretches of data, and a filler between them. -/
def sparse [Inhabited α] (size : Nat) (stretches : List (Nat × List α))
    (size_lt : size < 2 ^ 63) : FileImage α where
  size := size
  byte := fun p => ofStretches stretches p.val
  size_lt := size_lt

end FileImage

/-! ## Seeking -/

/-- {lit}`fseek(file, offset, SEEK_SET)` fails exactly on negative offsets. -/
def fseekOk (offset : Int) : Bool :=
  decide (0 ≤ offset)

/-- The stream position after {lit}`fseek(file, offset, SEEK_SET)`: a failed seek
leaves the position alone, a successful one may pass the end of the file. -/
def fseekSet (pos : Nat) (offset : Int) : Nat :=
  if 0 ≤ offset then offset.toNat else pos

@[simp]
theorem fseekSet_natCast (pos off : Nat) : fseekSet pos (off : Int) = off := by
  simp [fseekSet]

@[simp]
theorem fseekOk_natCast (off : Nat) : fseekOk (off : Int) = true := by
  simp [fseekOk]

/-! ## Reading -/

/-- How many elements {lit}`fread` transfers when {lit}`asked` are requested at
{lit}`pos`. -/
def freadBytes (f : FileImage α) (pos asked : Nat) : Nat :=
  min asked (f.size - pos)

/-- A nonempty read is complete exactly when the whole range exists. -/
theorem freadBytes_eq_iff {f : FileImage α} {pos asked : Nat} :
    freadBytes f pos asked = asked ↔ asked = 0 ∨ pos + asked ≤ f.size := by
  unfold freadBytes
  omega

theorem freadBytes_of_le {f : FileImage α} {pos asked : Nat}
    (h : pos + asked ≤ f.size) : freadBytes f pos asked = asked :=
  freadBytes_eq_iff.mpr (Or.inr h)

/-- A seek and a read both succeed exactly when the range they go for lies inside the file. -/
theorem seek_read_complete_iff {f : FileImage α} {pos asked : Nat} {offset : Int} :
    fseekOk offset = true ∧ freadBytes f (fseekSet pos offset) asked = asked ↔
      0 ≤ offset ∧ (asked = 0 ∨ offset.toNat + asked ≤ f.size) := by
  unfold fseekOk
  rw [decide_eq_true_iff]
  apply and_congr_right
  intro hoffset
  rw [fseekSet, if_pos hoffset, freadBytes_eq_iff]

/-- The patch that {lit}`fread` applies to the memory around its destination. -/
def freadPatch [Inhabited α] (f : FileImage α) (pos asked : Nat) (dst : Int) : Patch α where
  dst := dst
  len := freadBytes f pos asked
  val := fun i => f.getD (pos + i)

/-- The destination memory after {lit}`fread`. -/
def freadInto [Inhabited α] (f : FileImage α) (pos asked : Nat) (m : Memory α)
    (dst : Int) : Memory α :=
  m.patch (freadPatch f pos asked dst)

end Foundation
