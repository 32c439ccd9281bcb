import Xfsd.OnDisk.Dir2BlockSize
import Xfsd.OnDisk.Dir2SfUpdate

/-!
# XFSD - Images of short-form directories

A short-form directory as it stands in an inode: its bytes, with a counter of wide inode
numbers that may be ahead of the directory while an operation is under way, and the accessors
and loops of the code on such bytes.

Main results:

- Structure {lit}`SfImage`: a directory with its counter.
- Theorems {lit}`EntriesAt.head` and {lit}`EntriesAt.tail`: the accessors on stored entries.
- Theorems {lit}`pickLoop_eq`, {lit}`checkLoop_eq` and {lit}`addnameHardLoop_eq`: the loops.
- Theorem {lit}`sfFind_eq_some`: the search for a name.
-/

namespace Xfsd

open Foundation

/-! ## Images -/

/-- A directory with the counter that its header has. -/
structure SfImage where
  i8count : Nat
  parent : BitVec 64
  entries : List SfEntry

namespace SfImage

variable (d : SfImage)

/-- Inode numbers are 8 bytes wide. -/
def wide : Bool :=
  decide (d.i8count ≠ 0)

/-- The bytes of the header. -/
def encodeHdr : List Byte :=
  BitVec.ofNat 8 d.entries.length :: BitVec.ofNat 8 d.i8count :: inoBytes d.wide d.parent

/-- The bytes of a directory. -/
def encode : List Byte :=
  d.encodeHdr ++ d.entries.flatMap (SfEntry.encode d.wide)

/-- How many of the inode numbers need more than 32 bits. -/
def big : Nat :=
  bigCount (d.parent :: d.entries.map SfEntry.ino)

/-- The counters fit their bytes, and narrow numbers are stored only where all fit. -/
structure Valid : Prop where
  parent_lt : d.parent.toNat < 2 ^ 56
  count_le : d.entries.length ≤ 255
  i8count_le : d.i8count ≤ 255
  narrow : d.i8count = 0 → d.big = 0

theorem length_encodeHdr : d.encodeHdr.length = if d.wide then 10 else 6 := by
  simp only [encodeHdr, List.length_cons, length_inoBytes]
  cases d.wide <;> rfl

theorem length_encode :
    d.encode.length = d.encodeHdr.length + (d.entries.flatMap (SfEntry.encode d.wide)).length :=
  List.length_append

variable {d}

/-- An image whose counter is exact is a directory. -/
def Valid.toSfDir (h : d.Valid) (hexact : d.i8count = d.big) : SfDir where
  parent := d.parent
  entries := d.entries
  parent_lt := h.parent_lt
  count_le := h.count_le
  i8count_le := by
    change d.big ≤ 255
    rw [← hexact]
    exact h.i8count_le

theorem Valid.encode_toSfDir (h : d.Valid) (hexact : d.i8count = d.big) :
    (h.toSfDir hexact).encode = d.encode := by
  cases d with
  | mk i8count parent entries =>
      obtain rfl : i8count = bigCount (parent :: entries.map SfEntry.ino) := hexact
      rfl

theorem Valid.ino_lt (h : d.Valid) (hwide : d.wide = false) {e : SfEntry}
    (he : e ∈ d.entries) : e.ino.toNat < 2 ^ 32 := by
  have hzero := h.narrow (not_not.mp (of_decide_eq_false hwide))
  have hcount := List.countP_eq_zero.mp hzero e.ino
    (List.mem_cons_of_mem _ (List.mem_map_of_mem he))
  simpa using hcount

theorem Valid.parent_lt_of_narrow (h : d.Valid) (hwide : d.wide = false) :
    d.parent.toNat < 2 ^ 32 := by
  have hzero := h.narrow (not_not.mp (of_decide_eq_false hwide))
  have hcount := List.countP_eq_zero.mp hzero d.parent List.mem_cons_self
  simpa using hcount

end SfImage

/-! ## Stored entries -/

/-- Entries stand one after the other, with inode numbers as wide as the header says. -/
structure EntriesAt (m : Memory Byte) (wide : Bool) (a : Int) (es : List SfEntry) : Prop where
  wide_eq : wide = decide (sfHdrI8count m 0 ≠ 0)
  narrow : wide = false → ∀ e ∈ es, e.ino.toNat < 2 ^ 32
  spells : Spells m a (es.flatMap (SfEntry.encode wide))

section Entries

variable {m : Memory Byte} {wide : Bool} {a : Int} {e : SfEntry} {es es' : List SfEntry}

theorem entriesAt_append_iff :
    EntriesAt m wide a (es ++ es') ↔
      EntriesAt m wide a es ∧
        EntriesAt m wide (a + (es.flatMap (SfEntry.encode wide)).length) es' := by
  constructor
  · rintro ⟨hwide, hnarrow, hspells⟩
    rw [List.flatMap_append, spells_append_iff] at hspells
    exact ⟨⟨hwide, fun h e he => hnarrow h e (List.mem_append_left _ he), hspells.1⟩,
      ⟨hwide, fun h e he => hnarrow h e (List.mem_append_right _ he), hspells.2⟩⟩
  · rintro ⟨⟨hwide, hnarrow, hspells⟩, ⟨-, hnarrow', hspells'⟩⟩
    refine ⟨hwide, fun h e he => ?_, ?_⟩
    · exact (List.mem_append.mp he).elim (hnarrow h e) (hnarrow' h e)
    · rw [List.flatMap_append, spells_append_iff]
      exact ⟨hspells, hspells'⟩

theorem EntriesAt.tail (h : EntriesAt m wide a (e :: es)) :
    EntriesAt m wide (a + (e.encode wide).length) es := by
  rw [← List.singleton_append, entriesAt_append_iff] at h
  simpa using h.2

/-- The name of a stored entry. -/
theorem sfepNameBytes_eq (hlen : (sfepNamelen m a).toNat = e.name.length)
    (hname : Spells m (sfepName a) e.name) : sfepNameBytes m a = e.name := by
  apply List.ext_getElem
  · rw [sfepNameBytes, List.length_map, List.length_range, hlen]
  · intro i hi hi'
    simp only [sfepNameBytes, List.getElem_map, List.getElem_range]
    exact hname i hi'

/-- What the accessors find in a stored entry. -/
structure EntryRead (m : Memory Byte) (wide : Bool) (a : Int) (e : SfEntry) : Prop where
  namelenByte : sfepNamelen m a = BitVec.ofNat 8 e.name.length
  offsetBytes : Spells m (a + 1) (beBytes16 e.offset)
  nameBytes : Spells m (sfepName a) e.name
  namelen : (sfepNamelen m a).toNat = e.name.length
  name : sfepNameBytes m a = e.name
  ino : xfsDir2SfeGetIno m 0 a = e.ino
  inop : xfsDir2SfeInop m a = a + 3 + e.name.length
  offset : (xfsDir2SfGetOffset m a).toNat = e.offset.toNat
  next : xfsDir2SfNextentry m 0 a = a + (e.encode wide).length

/-- The accessors on the first of some stored entries. -/
theorem EntriesAt.head (h : EntriesAt m wide a (e :: es)) : EntryRead m wide a e := by
  rcases h with ⟨hwide, hnarrow, hspells⟩
  rw [List.flatMap_cons, spells_append_iff] at hspells
  rcases hspells with ⟨hspells, -⟩
  rcases SfEntry.reads hwide (fun hw => hnarrow hw e List.mem_cons_self) hspells with
    ⟨hlen, hname, hino, hnext⟩
  rcases spells_cons_iff.mp hspells with ⟨hbyte, hrest⟩
  have hoffset := (spells_append_iff.mp hrest).1
  refine ⟨hbyte, hoffset, hname, hlen, sfepNameBytes_eq hlen hname, hino, ?_, ?_, hnext⟩
  · rw [xfsDir2SfeInop, sfepName, hlen]
  · rw [xfsDir2SfGetOffset, getUnalignedBe16, be16ToCpu_loadLE16, loadBE16_of_spells hoffset,
      BitVec.toNat_setWidth]
    have hlt := e.offset.isLt
    omega

end Entries

/-! ## Images in memory -/

section Reads

variable {m : Memory Byte} {d : SfImage}

/-- The byte of the counter says how wide inode numbers are. -/
theorem SfImage.Valid.wide_eq (hd : d.Valid) :
    d.wide = decide (BitVec.ofNat 8 d.i8count ≠ 0) := by
  have hle := hd.i8count_le
  refine decide_eq_decide.mpr (not_congr ⟨fun hzero => by rw [hzero]; rfl, fun hzero => ?_⟩)
  have hnat := congrArg BitVec.toNat hzero
  rw [BitVec.toNat_ofNat] at hnat
  change d.i8count % 256 = 0 at hnat
  omega

/-- What the accessors find in a stored header. -/
structure HdrRead (m : Memory Byte) (d : SfImage) : Prop where
  countByte : sfHdrCount m 0 = BitVec.ofNat 8 d.entries.length
  i8countByte : sfHdrI8count m 0 = BitVec.ofNat 8 d.i8count
  count : (sfHdrCount m 0).toNat = d.entries.length
  i8count : (sfHdrI8count m 0).toNat = d.i8count
  wide : d.wide = decide (sfHdrI8count m 0 ≠ 0)
  parent : xfsDir2SfGetParentIno m 0 = d.parent
  firstentry : xfsDir2SfFirstentry m 0 = d.encodeHdr.length

/-- The accessors on a stored header. -/
theorem SfImage.readsHdr (hd : d.Valid) (h : Spells m 0 d.encodeHdr) : HdrRead m d := by
  have hcount_le := hd.count_le
  have hi8_le := hd.i8count_le
  rcases spells_cons_iff.mp h with ⟨hcount, hrest⟩
  rcases spells_cons_iff.mp hrest with ⟨hi8, hparent⟩
  have hwide : d.wide = decide (sfHdrI8count m 0 ≠ 0) := by
    rw [hd.wide_eq, ← hi8]
    rfl
  have haddr : (0 : Int) + 1 + 1 = 0 + 2 := rfl
  rw [haddr] at hparent
  refine ⟨hcount, hi8, ?_, ?_, hwide, ?_, ?_⟩
  · rw [sfHdrCount, hcount, BitVec.toNat_ofNat]
    omega
  · rw [sfHdrI8count]
    exact (congrArg BitVec.toNat hi8).trans (by rw [BitVec.toNat_ofNat]; omega)
  · exact xfsDir2SfGetIno_of_spells hwide hd.parent_lt_of_narrow hd.parent_lt hparent
  · rw [xfsDir2SfFirstentry, xfsDir2SfHdrSize, d.length_encodeHdr, hwide]
    by_cases hzero : sfHdrI8count m 0 = 0
    · rw [if_pos hzero, decide_eq_false (not_not.mpr hzero)]
      rfl
    · rw [if_neg hzero, decide_eq_true hzero]
      rfl

/-- The entries of a stored directory stand behind its header. -/
theorem SfImage.readsEntries (hd : d.Valid) (h : Spells m 0 d.encode) :
    EntriesAt m d.wide d.encodeHdr.length d.entries := by
  rcases spells_append_iff.mp h with ⟨hhdr, hentries⟩
  rw [zero_add] at hentries
  exact ⟨(readsHdr hd hhdr).wide, fun hw e he => hd.ino_lt hw he, hentries⟩

end Reads

/-! ## Offsets in a data block -/

/-- The size of an entry in a data block. -/
def SfEntry.dataEntsize (e : SfEntry) : Nat :=
  xfsDir2DataEntsize e.name.length

/-- The first offset after some entries. -/
def endOffset : Nat → List SfEntry → Nat
  | o, [] => o
  | _, e :: es => endOffset (e.offset.toNat + e.dataEntsize) es

/-- Each entry starts where the one before it ends, or later. -/
def Ordered : Nat → List SfEntry → Prop
  | _, [] => True
  | o, e :: es => o ≤ e.offset.toNat ∧ Ordered (e.offset.toNat + e.dataEntsize) es

instance decidableOrdered : (o : Nat) → (es : List SfEntry) → Decidable (Ordered o es)
  | _, [] => isTrue trivial
  | o, e :: es =>
      have := decidableOrdered (e.offset.toNat + e.dataEntsize) es
      inferInstanceAs (Decidable (o ≤ e.offset.toNat ∧ _))

/-- Split some entries in front of the first one with room before it. -/
def splitHole (size : Nat) : Nat → List SfEntry → List SfEntry × List SfEntry
  | _, [] => ([], [])
  | o, e :: es =>
      if o + size ≤ e.offset.toNat then ([], e :: es)
      else
        let parts := splitHole size (e.offset.toNat + e.dataEntsize) es
        (e :: parts.1, parts.2)

section Offsets

variable {o size : Nat} {e : SfEntry} {es es' : List SfEntry}

theorem endOffset_append : endOffset o (es ++ es') = endOffset (endOffset o es) es' := by
  induction es generalizing o with
  | nil => rfl
  | cons e es ih => exact ih

theorem ordered_append_iff :
    Ordered o (es ++ es') ↔ Ordered o es ∧ Ordered (endOffset o es) es' := by
  induction es generalizing o with
  | nil => simp [Ordered, endOffset]
  | cons e es ih =>
      rw [List.cons_append, Ordered, Ordered, endOffset, ih, and_assoc]

/-- Entries that are in order may start earlier. -/
theorem Ordered.mono {o' : Nat} (h : Ordered o es) (hle : o' ≤ o) : Ordered o' es := by
  cases es with
  | nil => exact h
  | cons e es => exact ⟨hle.trans h.1, h.2⟩

theorem Ordered.le_endOffset (h : Ordered o es) : o ≤ endOffset o es := by
  induction es generalizing o with
  | nil => exact Nat.le_refl o
  | cons e es ih => exact (h.1.trans (Nat.le_add_right _ _)).trans (ih h.2)

theorem splitHole_append (size o : Nat) (es : List SfEntry) :
    (splitHole size o es).1 ++ (splitHole size o es).2 = es := by
  induction es generalizing o with
  | nil => rfl
  | cons e es ih =>
      rw [splitHole]
      split
      · rfl
      · exact congrArg (e :: ·) (ih _)

/-- The first entry after the split has room before it. -/
theorem le_of_splitHole (h : (splitHole size o es).2 = e :: es') :
    endOffset o (splitHole size o es).1 + size ≤ e.offset.toNat := by
  induction es generalizing o with
  | nil => cases h
  | cons e₁ es ih =>
      rw [splitHole] at h ⊢
      split at h
      · rename_i hfits
        cases h
        rw [if_pos hfits]
        exact hfits
      · rename_i hfits
        rw [if_neg hfits]
        exact ih h

/-- The split finds a hole where there is one. -/
theorem splitHole_ne_nil (h : endOffset o es + size ≤ e.offset.toNat) :
    (splitHole size o (es ++ e :: es')).2 ≠ [] := by
  induction es generalizing o with
  | nil =>
      rw [endOffset] at h
      rw [List.nil_append, splitHole, if_pos h]
      exact List.cons_ne_nil e es'
  | cons x es ih =>
      rw [List.cons_append, splitHole]
      split
      · exact List.cons_ne_nil x _
      · exact ih h

end Offsets

/-! ## Loops over stored entries -/

section Loops

variable {m : Memory Byte} {wide : Bool} {a : Int} {es es' : List SfEntry}

theorem length_flatMap_cons (wide : Bool) (e : SfEntry) (es : List SfEntry) :
    ((e :: es).flatMap (SfEntry.encode wide)).length =
      (e.encode wide).length + (es.flatMap (SfEntry.encode wide)).length := by
  rw [List.flatMap_cons, List.length_append]

/-- The loop of {lit}`xfs_dir2_sf_addname_pick` on stored entries. -/
theorem pickLoop_eq (h : EntriesAt m wide a es) (size o : Nat) (holefit : Bool) :
    pickLoop m size es.length { holefit := holefit, offset := o, sfep := a } =
      { holefit := holefit || !(splitHole size o es).2.isEmpty
        offset := endOffset o es
        sfep := a + (es.flatMap (SfEntry.encode wide)).length } := by
  induction es generalizing a o holefit with
  | nil => simp [pickLoop, splitHole, endOffset]
  | cons e es ih =>
      have hread := h.head
      rw [List.length_cons, pickLoop, PickLocals.visit]
      simp only [hread.offset, hread.namelen, hread.next]
      rw [ih h.tail, splitHole, length_flatMap_cons, endOffset, SfEntry.dataEntsize]
      by_cases hfits : o + size ≤ e.offset.toNat
      · simp [hfits, add_assoc]
      · simp [hfits, add_assoc]

/-- The loop of {lit}`xfs_dir2_sf_check` on stored entries. -/
theorem checkLoop_eq (h : EntriesAt m wide a es) (i8count o : Nat) (ordered : Bool) :
    checkLoop m es.length
        { i8count := i8count, offset := o, sfep := a, ordered := ordered } =
      { i8count := i8count + bigCount (es.map SfEntry.ino)
        offset := endOffset o es
        sfep := a + (es.flatMap (SfEntry.encode wide)).length
        ordered := ordered && decide (Ordered o es) } := by
  induction es generalizing a i8count o ordered with
  | nil =>
      have hnil : decide (Ordered o []) = true := decide_eq_true trivial
      simp [checkLoop, bigCount, endOffset, hnil]
  | cons e es ih =>
      have hread := h.head
      have hbig : xfsDir2MaxShortInum < e.ino ↔ 2 ^ 32 ≤ e.ino.toNat := by
        rw [BitVec.lt_def, xfsDir2MaxShortInum]
        simp only [BitVec.toNat_ofNat]
        omega
      have hordered : decide (Ordered o (e :: es)) =
          (decide (o ≤ e.offset.toNat) &&
            decide (Ordered (e.offset.toNat + xfsDir2DataEntsize e.name.length) es)) := by
        rw [← Bool.decide_and]
        exact decide_eq_decide.mpr Iff.rfl
      rw [List.length_cons, checkLoop, CheckLocals.visit]
      simp only [hread.offset, hread.namelen, hread.next, hread.ino, hbig]
      rw [ih h.tail, length_flatMap_cons, endOffset, SfEntry.dataEntsize, hordered, Bool.and_assoc]
      simp only [bigCount, List.map_cons, List.countP_cons, decide_eq_true_eq,
        CheckLocals.mk.injEq, Nat.cast_add, true_and, and_true]
      omega

/-- The loop of {lit}`xfs_dir2_sf_addname_hard` ends at the first hole. -/
theorem addnameHardLoop_eq (h : EntriesAt m wide a es) (size o : Nat) {oldIsize : Int}
    (hend : a + (es.flatMap (SfEntry.encode wide)).length = oldIsize) {fuel : Nat}
    (hfuel : es.length < fuel) :
    addnameHardLoop m size oldIsize fuel o a =
      some (endOffset o (splitHole size o es).1,
        a + ((splitHole size o es).1.flatMap (SfEntry.encode wide)).length) := by
  induction es generalizing a o fuel with
  | nil =>
      obtain ⟨fuel, rfl⟩ : ∃ n, fuel = n + 1 := ⟨fuel - 1, by omega⟩
      simp_all [addnameHardLoop, splitHole, endOffset]
  | cons e es ih =>
      obtain ⟨fuel, rfl⟩ : ∃ n, fuel = n + 1 := ⟨fuel - 1, by omega⟩
      have hread := h.head
      have hlength := SfEntry.length_encode wide e
      rw [length_flatMap_cons] at hend
      rw [addnameHardLoop, if_neg (by omega), splitHole]
      simp only [hread.offset, hread.namelen, hread.next]
      by_cases hfits : o + size ≤ e.offset.toNat
      · simp [hfits, endOffset]
      · rw [if_neg hfits, if_neg hfits]
        have htail := ih h.tail (e.offset.toNat + e.dataEntsize) (by omega)
          (Nat.lt_of_succ_lt_succ hfuel)
        rw [SfEntry.dataEntsize] at htail
        rw [htail, length_flatMap_cons, endOffset, SfEntry.dataEntsize]
        simp [add_assoc]

/-- The search for a name ends at the first entry that has it. -/
theorem sfFind_eq_some {e : SfEntry} {args : XfsDaArgs}
    (h : EntriesAt m wide a (es ++ e :: es')) (hne : ∀ x ∈ es, x.name ≠ args.name)
    (he : e.name = args.name) :
    sfFind m (fun sfep => xfsDaCompname args (sfepNameBytes m sfep) = .exact)
        (es ++ e :: es').length a =
      some (a + (es.flatMap (SfEntry.encode wide)).length) := by
  induction es generalizing a with
  | nil =>
      rw [List.nil_append] at h
      simp [sfFind, h.head.name, xfsDaCompname, he]
  | cons x es ih =>
      rcases List.forall_mem_cons.mp hne with ⟨hx, hes⟩
      rw [List.cons_append] at h
      have hread := h.head
      rw [List.cons_append, List.length_cons, sfFind, hread.next, ih h.tail hes,
        length_flatMap_cons]
      simp [hread.name, xfsDaCompname, hx.symm, add_assoc]

/-- The search for a name that no entry has finds nothing. -/
theorem sfFind_eq_none {args : XfsDaArgs} (h : EntriesAt m wide a es)
    (hne : ∀ x ∈ es, x.name ≠ args.name) :
    sfFind m (fun sfep => xfsDaCompname args (sfepNameBytes m sfep) = .exact) es.length a =
      none := by
  induction es generalizing a with
  | nil => rfl
  | cons x es ih =>
      rcases List.forall_mem_cons.mp hne with ⟨hx, hes⟩
      have hread := h.head
      rw [List.length_cons, sfFind, hread.next, ih h.tail hes]
      simp [hread.name, xfsDaCompname, hx.symm]

end Loops

end Xfsd
