import Xfsd.OnDisk.Dir2Block
import Xfsd.OnDisk.Dir2SfFormat
import Mathlib.Algebra.Order.BigOperators.Group.List
import Mathlib.Data.List.ReduceOption

/-!
# XFSD - Block directories as values

What a block directory says, apart from how it is stored: the data entries that its leaf
entries point to, in any order, with stale leaf entries among them.  One of them names the
parent, and the short form of the same directory lists the rest.

Main results:

- Structure {lit}`BlockDir`: a directory that a block can store.
- Theorem {lit}`BlockDir.length_sfBytes`: the length of its short form.
- Definition {lit}`BlockDir.toSfDir`: a short form that fits an inode is a short-form directory.
- Structure {lit}`BlockDir.StoredAt`: the directory is stored in a block.
- Theorem {lit}`Dir2DataEntry.reads`: the accessors on a stored entry.
-/

namespace Xfsd

open Foundation

/-! ## Values -/

/-- A data entry of a block directory: an entry that says where in the block it stands. -/
structure Dir2DataEntry extends SfEntry where
  offset_ge : 16 ≤ offset.toNat
  offset_aligned : 8 ∣ offset.toNat

namespace Dir2DataEntry

variable (e : Dir2DataEntry)

/-- The entry for the directory itself. -/
def IsDot : Prop :=
  e.name = [dot]

/-- The entry for the parent. -/
def IsDotdot : Prop :=
  e.name = [dot, dot]

instance : DecidablePred IsDot :=
  fun e => inferInstanceAs (Decidable (e.name = _))

instance : DecidablePred IsDotdot :=
  fun e => inferInstanceAs (Decidable (e.name = _))

/-- The entry is listed in the short form. -/
def Listed : Prop :=
  ¬e.IsDot ∧ ¬e.IsDotdot

instance : DecidablePred Listed :=
  fun _ => inferInstanceAs (Decidable (_ ∧ _))

/-- The entry's inode number needs more than 32 bits, and the short form holds it. -/
def Counted8 : Prop :=
  ¬e.IsDot ∧ 2 ^ 32 ≤ e.ino.toNat

instance : DecidablePred Counted8 :=
  fun _ => inferInstanceAs (Decidable (_ ∧ _))

theorem not_isDot_of_isDotdot (h : e.IsDotdot) : ¬e.IsDot := by
  intro hdot
  rw [IsDotdot, hdot] at h
  cases h

end Dir2DataEntry

/-- A block directory: its leaf entries, stale ones included, and its one entry for the
parent. -/
structure BlockDir where
  leaves : List (Option Dir2DataEntry)
  parent : Dir2DataEntry
  dotdots : leaves.reduceOption.filter Dir2DataEntry.IsDotdot = [parent]
  dots_le : leaves.reduceOption.countP Dir2DataEntry.IsDot ≤ 1

namespace BlockDir

variable (d : BlockDir)

/-- The live entries. -/
def live : List Dir2DataEntry :=
  d.leaves.reduceOption

/-- The live entries other than {lit}`.` and {lit}`..`. -/
def listed : List Dir2DataEntry :=
  d.live.filter Dir2DataEntry.Listed

/-- The number of live entries other than {lit}`.` with inode numbers above 32 bits. -/
def i8count : Nat :=
  d.live.countP Dir2DataEntry.Counted8

end BlockDir

/-- The bytes of a short-form directory with a parent and entries, however many. -/
def sfEncode (parent : BitVec 64) (entries : List SfEntry) : List Byte :=
  let i8count := bigCount (parent :: entries.map SfEntry.ino)
  let wide := decide (i8count ≠ 0)
  BitVec.ofNat 8 entries.length :: BitVec.ofNat 8 i8count ::
    (inoBytes wide parent ++ entries.flatMap (SfEntry.encode wide))

/-- A directory that the format can store has these bytes. -/
theorem SfDir.encode_eq (d : SfDir) : d.encode = sfEncode d.parent d.entries := rfl

/-- The complete short form of a block directory. -/
def BlockDir.sfBytes (d : BlockDir) : List Byte :=
  sfEncode d.parent.ino (d.listed.map Dir2DataEntry.toSfEntry)

/-! ## The length of the short form -/

namespace BlockDir

variable (d : BlockDir)

theorem live_ne_nil : d.live ≠ [] := by
  intro hnil
  have hdotdots : d.live.filter Dir2DataEntry.IsDotdot = [d.parent] := d.dotdots
  rw [hnil] at hdotdots
  cases hdotdots

/-- The entry for the parent and the listed entries are the entries that the short form
holds. -/
theorem countP_counted8 (es : List Dir2DataEntry) :
    es.countP Dir2DataEntry.Counted8 =
      bigCount ((es.filter Dir2DataEntry.IsDotdot).map (SfEntry.ino ·.toSfEntry)) +
        bigCount ((es.filter Dir2DataEntry.Listed).map (SfEntry.ino ·.toSfEntry)) := by
  rw [List.countP_eq_countP_filter_add es _ Dir2DataEntry.IsDotdot, bigCount, bigCount,
    List.countP_map, List.countP_map]
  simp only [List.countP_filter]
  congr 1
  · refine List.countP_congr fun e _ => ?_
    have hnot_dot := e.not_isDot_of_isDotdot
    simp only [Function.comp_apply, Bool.and_eq_true, decide_eq_true_eq]
    unfold Dir2DataEntry.Counted8
    tauto
  · refine List.countP_congr fun e _ => ?_
    simp only [Function.comp_apply, Bool.and_eq_true, Bool.not_eq_true', decide_eq_true_eq,
      decide_eq_false_iff_not]
    unfold Dir2DataEntry.Counted8 Dir2DataEntry.Listed
    tauto

/-- The short form counts the parent and the listed entries. -/
theorem bigCount_eq :
    bigCount (d.parent.ino :: (d.listed.map Dir2DataEntry.toSfEntry).map SfEntry.ino) =
      d.i8count := by
  have hdotdots : d.live.filter Dir2DataEntry.IsDotdot = [d.parent] := d.dotdots
  rw [i8count, countP_counted8, hdotdots, List.map_map, ← List.singleton_append, bigCount,
    List.countP_append]
  rfl

theorem length_flatMap_encode (wide : Bool) (es : List SfEntry) :
    (es.flatMap (SfEntry.encode wide)).length =
      es.length * (3 + if wide then 8 else 4) + (es.map fun e => e.name.length).sum := by
  induction es with
  | nil => simp
  | cons e es ih =>
      simp only [List.flatMap_cons, List.length_append, ih, SfEntry.length_encode,
        List.length_cons, List.map_cons, List.sum_cons, Nat.succ_mul]
      omega

/-- The length of the short form: a header, and for each listed entry the length of its name,
an offset, the name and an inode number. -/
theorem length_sfBytes :
    d.sfBytes.length = 2 + (if d.i8count = 0 then 4 else 8) +
      d.listed.length * (3 + if d.i8count = 0 then 4 else 8) +
        (d.listed.map fun e => e.name.length).sum := by
  rw [sfBytes, sfEncode, bigCount_eq]
  simp only [List.length_cons, List.length_append, length_inoBytes, length_flatMap_encode,
    List.length_map, List.map_map, Function.comp_def]
  by_cases h : d.i8count = 0 <;> simp [h] <;> omega

/-- Every listed name has a byte. -/
theorem length_listed_le : d.listed.length ≤ (d.listed.map fun e => e.name.length).sum := by
  have hone : ∀ n ∈ d.listed.map fun e => e.name.length, 1 ≤ n := by
    intro n hn
    rcases List.mem_map.mp hn with ⟨e, -, rfl⟩
    exact e.name_pos
  have hle := List.length_le_sum_of_one_le _ hone
  rwa [List.length_map] at hle

theorem i8count_le : d.i8count ≤ d.listed.length + 1 := by
  rw [← bigCount_eq, bigCount]
  refine Nat.le_trans List.countP_le_length ?_
  rw [List.length_cons, List.length_map, List.length_map]

/-- The counters of a short form that fits an inode fit their bytes. -/
theorem counters_le (h : d.sfBytes.length ≤ 2040) : d.listed.length ≤ 254 ∧ d.i8count ≤ 255 := by
  have hnames := d.length_listed_le
  have hi8count := d.i8count_le
  rw [length_sfBytes] at h
  split at h <;> omega

/-- A block directory with a short form that fits an inode, as a short-form directory. -/
def toSfDir (h : d.sfBytes.length ≤ 2040) : SfDir where
  parent := d.parent.ino
  entries := d.listed.map Dir2DataEntry.toSfEntry
  parent_lt := d.parent.ino_lt
  count_le := by
    rw [List.length_map]
    exact (d.counters_le h).1.trans (by decide)
  i8count_le := by
    rw [bigCount_eq]
    exact (d.counters_le h).2

theorem encode_toSfDir (h : d.sfBytes.length ≤ 2040) : (d.toSfDir h).encode = d.sfBytes :=
  SfDir.encode_eq _

theorem toSfDir_i8count (h : d.sfBytes.length ≤ 2040) : (d.toSfDir h).i8count = d.i8count :=
  d.bigCount_eq

end BlockDir

/-! ## Layout -/

/-- The address in a leaf entry, in units of 8 bytes; a stale one has none. -/
def leafAddress : Option Dir2DataEntry → BitVec 32
  | none => xfsDir2NullDataptr
  | some e => BitVec.ofNat 32 (e.offset.toNat / 8)

/-- A live leaf entry does not look stale. -/
theorem leafAddress_ne (e : Dir2DataEntry) : leafAddress (some e) ≠ xfsDir2NullDataptr := by
  intro h
  have hge := e.offset_ge
  have hlt := e.offset.isLt
  have hzero : e.offset.toNat / 8 % 2 ^ 32 = 0 := by
    rw [← BitVec.toNat_ofNat]
    exact congrArg BitVec.toNat h
  omega

/-- The bytes of a data entry, without its tag. -/
def Dir2DataEntry.dataBytes (e : Dir2DataEntry) : List Byte :=
  beBytes64 e.ino ++ BitVec.ofNat 8 e.name.length :: e.name

/-- A leaf entry stands at an index, and the data entry that it points to in the block. -/
structure LeafStands (mp : XfsMount) (m : Memory Byte) (hdr blp : Int) (i : Nat)
    (leaf : Option Dir2DataEntry) : Prop where
  address : Spells m (blp + i * 8 + 4) (beBytes32 (leafAddress leaf))
  offset_lt : ∀ e, leaf = some e → e.offset.toNat < 2 ^ mp.dirBlockLog
  entry : ∀ e, leaf = some e → Spells m (hdr + e.offset.toNat) e.dataBytes

/-- A block directory is stored in the block at {lit}`hdr`: the leaf entries, in any order,
fill the space before the tail. -/
structure BlockDir.StoredAt (d : BlockDir) (mp : XfsMount) (m : Memory Byte) (hdr : Int) :
    Prop where
  mounted : mp.DirMounted
  fits : 16 + d.leaves.length * 8 + 8 ≤ 2 ^ mp.dirBlockLog
  tail : Spells m (hdr + (2 ^ mp.dirBlockLog : Nat) - 8)
    (beBytes32 (BitVec.ofNat 32 d.leaves.length))
  leaf : ∀ (i : Nat) (h : i < d.leaves.length), LeafStands mp m hdr
    (hdr + (2 ^ mp.dirBlockLog : Nat) - 8 - d.leaves.length * 8) i d.leaves[i]

namespace XfsMount.DirMounted

variable {mp : XfsMount} (h : mp.DirMounted)

include h

theorem dirBlockLog_le : mp.dirBlockLog ≤ 16 :=
  (Nat.pow_le_pow_iff_right (by decide)).mp h.blocksize_le

/-- Directory blocks have the size that the superblock says. -/
theorem toInt_mDirblksize : mp.mDirblksize.toInt = (2 ^ mp.dirBlockLog : Nat) := by
  have hle := h.dirBlockLog_le
  have hset : mp.mDirblksize = 1#32 <<< mp.dirBlockLog := by
    conv_lhs => rw [← h.mounted]
    rfl
  rw [hset]
  generalize mp.dirBlockLog = k at hle
  interval_cases k <;> rfl

/-- The address of a data entry leads to it. -/
theorem toNat_xfsDir2DataptrToOff {e : Dir2DataEntry}
    (hlt : e.offset.toNat < 2 ^ mp.dirBlockLog) :
    (xfsDir2DataptrToOff mp (leafAddress (some e))).toNat = e.offset.toNat := by
  have hle := h.dirBlockLog_le
  have halign := Nat.div_mul_cancel e.offset_aligned
  have hbound := e.offset.isLt
  have hmask : (1#32 <<< mp.dirBlockLog - 1#32).signExtend 64 = xfsMask64lo mp.dirBlockLog := by
    generalize mp.dirBlockLog = k at hle
    interval_cases k <;> rfl
  have hbyte : (xfsDir2DataptrToByte (leafAddress (some e))).toNat = e.offset.toNat := by
    rw [xfsDir2DataptrToByte, leafAddress, BitVec.toNat_shiftLeft, BitVec.toNat_setWidth,
      BitVec.toNat_ofNat, Nat.shiftLeft_eq]
    omega
  rw [xfsDir2DataptrToOff, xfsDir2ByteToOff, hmask, BitVec.toNat_setWidth,
    toNat_and_xfsMask64lo _ (by omega), hbyte, Nat.mod_eq_of_lt hlt]
  omega

end XfsMount.DirMounted

/-! ## The accessors on stored entries -/

section Entries

variable {m : Memory Byte} {dep : Int} {e : Dir2DataEntry}

/-- The accessors on a stored data entry. -/
theorem Dir2DataEntry.reads (h : Spells m dep e.dataBytes) :
    depInumber m dep = e.ino ∧
      depNamelen m dep = BitVec.ofNat 8 e.name.length ∧
      (depNamelen m dep).toNat = e.name.length ∧
      Spells m (dep + 9) e.name := by
  have hle := e.name_le
  rcases spells_append_iff.mp h with ⟨hino, h⟩
  rcases spells_cons_iff.mp h with ⟨hlen, hname⟩
  have haddr : dep + ((beBytes64 e.ino).length : Int) + 1 = dep + 9 := by
    rw [length_beBytes64]
    omega
  rw [haddr] at hname
  have hnamelen : depNamelen m dep = BitVec.ofNat 8 e.name.length := hlen
  refine ⟨?_, hnamelen, ?_, hname⟩
  · rw [depInumber, be64ToCpu_loadLE64, loadBE64_of_spells hino]
  · rw [hnamelen, BitVec.toNat_ofNat]
    omega

/-- The loop recognizes the entry for the directory itself. -/
theorem Dir2DataEntry.isdot_iff (h : Spells m dep e.dataBytes) :
    (depNamelen m dep = 1 ∧ depName m dep 0 = dot) ↔ e.IsDot := by
  rcases e.reads h with ⟨-, -, hlen, hname⟩
  rw [IsDot, depName, Nat.cast_zero, add_zero]
  constructor
  · rintro ⟨hone, hdot⟩
    rw [hone] at hlen
    rcases List.length_eq_one_iff.mp hlen.symm with ⟨x, hx⟩
    rw [hx, spells_cons_iff] at hname
    rw [hx, ← hname.1, hdot]
  · intro hdot
    rw [hdot] at hlen hname
    exact ⟨BitVec.eq_of_toNat_eq hlen, (spells_cons_iff.mp hname).1⟩

/-- The loop recognizes the entry for the parent. -/
theorem Dir2DataEntry.isdotdot_iff (h : Spells m dep e.dataBytes) :
    (depNamelen m dep = 2 ∧ depName m dep 0 = dot ∧ depName m dep 1 = dot) ↔ e.IsDotdot := by
  rcases e.reads h with ⟨-, -, hlen, hname⟩
  rw [IsDotdot, depName, depName, Nat.cast_zero, add_zero, Nat.cast_one]
  constructor
  · rintro ⟨htwo, hdot, hdotdot⟩
    rw [htwo] at hlen
    rcases List.length_eq_two.mp hlen.symm with ⟨x, y, hxy⟩
    rw [hxy, spells_cons_iff, spells_cons_iff] at hname
    rw [hxy, ← hname.1, ← hname.2.1, hdot, hdotdot]
  · intro hdotdot
    rw [hdotdot] at hlen hname
    rcases spells_cons_iff.mp hname with ⟨hfirst, hname⟩
    exact ⟨BitVec.eq_of_toNat_eq hlen, hfirst, (spells_cons_iff.mp hname).1⟩

end Entries

end Xfsd
