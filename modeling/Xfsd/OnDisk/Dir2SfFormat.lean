import Xfsd.OnDisk.Dir2Sf
import Xfsd.Foundation.Spelling

/-!
# XFSD - Short-form directories as values

What a short-form directory says, apart from how it is stored: a parent and a
list of named inode numbers.  The layout writes every inode number in 8 bytes as
soon as one of them needs more than 32 bits, and in 4 bytes otherwise.

Main results:

- Structure {lit}`SfDir`: a directory that the format can store.
- Definition {lit}`SfDir.encode`: its bytes.
- Theorem {lit}`SfDir.reads`: the header accessors on a stored directory.
- Theorem {lit}`SfEntry.reads`: the entry accessors on a stored entry.
-/

namespace Xfsd

open Foundation

/-! ## Values -/

/-- A directory entry that the format can store. -/
structure SfEntry where
  name : List Byte
  offset : BitVec 16
  ino : BitVec 64
  name_pos : 0 < name.length
  name_le : name.length ≤ 255
  ino_lt : ino.toNat < 2 ^ 56

/-- How many of some inode numbers need more than 32 bits. -/
def bigCount (inos : List (BitVec 64)) : Nat :=
  inos.countP fun ino => 2 ^ 32 ≤ ino.toNat

/-- A directory that the format can store: both counters fit their byte. -/
structure SfDir where
  parent : BitVec 64
  entries : List SfEntry
  parent_lt : parent.toNat < 2 ^ 56
  count_le : entries.length ≤ 255
  i8count_le : bigCount (parent :: entries.map SfEntry.ino) ≤ 255

/-- The number of inode numbers above 32 bits, the parent's included. -/
def SfDir.i8count (d : SfDir) : Nat :=
  bigCount (d.parent :: d.entries.map SfEntry.ino)

/-- The first entry with a name. -/
def SfDir.lookup (d : SfDir) (name : List Byte) : Option SfEntry :=
  d.entries.find? fun e => e.name = name

/-! ## Layout -/

/-- The bytes of an inode number. -/
def inoBytes (wide : Bool) (ino : BitVec 64) : List Byte :=
  if wide then beBytes64 ino else beBytes32 (ino.setWidth 32)

/-- The bytes of an entry. -/
def SfEntry.encode (wide : Bool) (e : SfEntry) : List Byte :=
  BitVec.ofNat 8 e.name.length :: (beBytes16 e.offset ++ (e.name ++ inoBytes wide e.ino))

/-- Inode numbers are 8 bytes wide. -/
def SfDir.wide (d : SfDir) : Bool :=
  decide (d.i8count ≠ 0)

/-- The bytes of the header. -/
def SfDir.encodeHdr (d : SfDir) : List Byte :=
  BitVec.ofNat 8 d.entries.length :: BitVec.ofNat 8 d.i8count :: inoBytes d.wide d.parent

/-- The bytes of a directory. -/
def SfDir.encode (d : SfDir) : List Byte :=
  d.encodeHdr ++ d.entries.flatMap (SfEntry.encode d.wide)

theorem length_inoBytes (wide : Bool) (ino : BitVec 64) :
    (inoBytes wide ino).length = if wide then 8 else 4 := by
  cases wide <;> rfl

theorem SfEntry.length_encode (wide : Bool) (e : SfEntry) :
    (e.encode wide).length = 3 + e.name.length + if wide then 8 else 4 := by
  simp only [encode, List.length_cons, List.length_append, length_beBytes16, length_inoBytes]
  omega

theorem SfDir.length_encodeHdr (d : SfDir) :
    d.encodeHdr.length = if d.wide then 10 else 6 := by
  simp only [encodeHdr, List.length_cons, length_inoBytes]
  cases d.wide <;> rfl

/-- The addresses of stored entries. -/
def entryAddrs (wide : Bool) : Int → List SfEntry → List Int
  | _, [] => []
  | a, e :: es => a :: entryAddrs wide (a + (e.encode wide).length) es

/-- The addresses of the entries of a directory stored at {lit}`hdr`. -/
def SfDir.addrs (d : SfDir) (hdr : Int) : List Int :=
  entryAddrs d.wide (hdr + d.encodeHdr.length) d.entries

/-! ## The accessors on stored directories -/

/-- A directory with a number of at most 32 bits only is stored with 4-byte numbers. -/
theorem SfDir.ino_lt_of_narrow {d : SfDir} (h : d.i8count = 0) {e : SfEntry}
    (he : e ∈ d.entries) : e.ino.toNat < 2 ^ 32 := by
  have hcount := List.countP_eq_zero.mp h e.ino
    (List.mem_cons_of_mem _ (List.mem_map_of_mem he))
  simpa using hcount

/-- The counters of a stored header. -/
theorem SfDir.readsHdr {d : SfDir} {m : Memory Byte} {hdr : Int}
    (h : Spells m hdr d.encodeHdr) :
    (sfHdrCount m hdr).toNat = d.entries.length ∧ (sfHdrI8count m hdr).toNat = d.i8count := by
  rcases spells_cons_iff.mp h with ⟨hcount, h⟩
  rcases spells_cons_iff.mp h with ⟨hi8count, -⟩
  have hle := d.count_le
  have hi8le : d.i8count ≤ 255 := d.i8count_le
  constructor
  · rw [sfHdrCount, hcount, BitVec.toNat_ofNat]
    omega
  · rw [sfHdrI8count, hi8count, BitVec.toNat_ofNat]
    omega

/-- The header says how wide inode numbers are. -/
theorem SfDir.wide_eq {d : SfDir} {m : Memory Byte} {hdr : Int}
    (h : Spells m hdr d.encodeHdr) : d.wide = decide (sfHdrI8count m hdr ≠ 0) := by
  rw [wide, ← (readsHdr h).2]
  refine decide_eq_decide.mpr (not_congr ⟨fun hzero => ?_, fun hzero => ?_⟩)
  · exact BitVec.eq_of_toNat_eq hzero
  · rw [hzero]
    rfl

/-- The header accessors on a stored directory. -/
theorem SfDir.reads {d : SfDir} {m : Memory Byte} {hdr : Int} (h : Spells m hdr d.encode) :
    (sfHdrCount m hdr).toNat = d.entries.length ∧
      (sfHdrI8count m hdr).toNat = d.i8count ∧
      xfsDir2SfFirstentry m hdr = hdr + d.encodeHdr.length ∧
      Spells m (hdr + d.encodeHdr.length) (d.entries.flatMap (SfEntry.encode d.wide)) := by
  rcases spells_append_iff.mp h with ⟨hhdr, hentries⟩
  rcases readsHdr hhdr with ⟨hcount, hi8count⟩
  refine ⟨hcount, hi8count, ?_, hentries⟩
  rw [xfsDir2SfFirstentry, xfsDir2SfHdrSize, d.length_encodeHdr, wide_eq hhdr]
  by_cases hzero : sfHdrI8count m hdr = 0
  · rw [if_pos hzero, decide_eq_false (not_not.mpr hzero)]
    rfl
  · rw [if_neg hzero, decide_eq_true hzero]
    rfl

/-- An inode number that the format can store survives its storage. -/
theorem xfsDir2SfGetIno_of_spells {m : Memory Byte} {hdr a : Int} {wide : Bool}
    {ino : BitVec 64} (hwide : wide = decide (sfHdrI8count m hdr ≠ 0))
    (hnarrow : wide = false → ino.toNat < 2 ^ 32) (hlt : ino.toNat < 2 ^ 56)
    (h : Spells m a (inoBytes wide ino)) : xfsDir2SfGetIno m hdr a = ino := by
  cases wide with
  | false =>
      have hzero : ¬sfHdrI8count m hdr ≠ 0 := of_decide_eq_false hwide.symm
      have hlt32 := hnarrow rfl
      rw [xfsDir2SfGetIno, if_neg hzero, getUnalignedBe32, be32ToCpu_loadLE32,
        loadBE32_of_spells h]
      apply BitVec.eq_of_toNat_eq
      rw [BitVec.toNat_setWidth, BitVec.toNat_setWidth]
      omega
  | true =>
      have hne : sfHdrI8count m hdr ≠ 0 := of_decide_eq_true hwide.symm
      have hmask : 0x00ffffffffffffff#64 = xfsMask64lo 56 := by decide
      rw [xfsDir2SfGetIno, if_pos hne, getUnalignedBe64, be64ToCpu_loadLE64,
        loadBE64_of_spells h, hmask]
      apply BitVec.eq_of_toNat_eq
      rw [toNat_and_xfsMask64lo _ (by omega), Nat.mod_eq_of_lt hlt]

/-- The header accessor for the parent on a stored header. -/
theorem SfDir.getIno_parent {d : SfDir} {m : Memory Byte} {hdr : Int}
    (h : Spells m hdr d.encodeHdr) : xfsDir2SfGetIno m hdr (hdr + 2) = d.parent := by
  have hparent := (spells_cons_iff.mp (spells_cons_iff.mp h).2).2
  rw [add_assoc] at hparent
  refine xfsDir2SfGetIno_of_spells (wide_eq h) (fun hwide => ?_) d.parent_lt hparent
  have hi8count : d.i8count = 0 := not_not.mp (of_decide_eq_false hwide)
  have hcount := List.countP_eq_zero.mp hi8count d.parent List.mem_cons_self
  simpa using hcount

/-- The entry accessors on a stored entry. -/
theorem SfEntry.reads {e : SfEntry} {m : Memory Byte} {hdr a : Int} {wide : Bool}
    (hwide : wide = decide (sfHdrI8count m hdr ≠ 0))
    (hnarrow : wide = false → e.ino.toNat < 2 ^ 32) (h : Spells m a (e.encode wide)) :
    (sfepNamelen m a).toNat = e.name.length ∧
      Spells m (sfepName a) e.name ∧
      xfsDir2SfeGetIno m hdr a = e.ino ∧
      xfsDir2SfNextentry m hdr a = a + (e.encode wide).length := by
  have hle := e.name_le
  rcases spells_cons_iff.mp h with ⟨hlen, h⟩
  rcases spells_append_iff.mp h with ⟨-, h⟩
  rcases spells_append_iff.mp h with ⟨hname, hinoBytes⟩
  have hnamelen : (sfepNamelen m a).toNat = e.name.length := by
    rw [sfepNamelen, hlen, BitVec.toNat_ofNat]
    omega
  have haddr : a + 1 + ((beBytes16 e.offset).length : Int) = sfepName a := by
    rw [length_beBytes16, sfepName]
    omega
  rw [haddr] at hname hinoBytes
  refine ⟨hnamelen, hname, ?_, ?_⟩
  · rw [xfsDir2SfeGetIno, xfsDir2SfeInop, hnamelen]
    exact xfsDir2SfGetIno_of_spells hwide hnarrow e.ino_lt hinoBytes
  · rw [xfsDir2SfNextentry, xfsDir2SfEntsize, hnamelen, length_encode, hwide]
    by_cases hzero : sfHdrI8count m hdr = 0 <;> simp [hzero]

end Xfsd
