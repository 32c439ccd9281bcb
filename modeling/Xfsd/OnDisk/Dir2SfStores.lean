import Xfsd.OnDisk.Dir2SfImage

/-!
# XFSD - Storing short-form directories

The stores that fill in entries and headers, the reallocation of the data fork, and the
conversions between narrow and wide inode numbers, as stores of the bytes of images.

Main results:

- Theorem {lit}`Kernel.fillEntry_eq`: filling in an entry stores its bytes.
- Theorem {lit}`XfsIfork.Sound.realloc`: a reallocation keeps what the fork has room for.
- Structure {lit}`XfsDirInode.Holds`: an inode holds a directory.
- Theorems {lit}`XfsDirInode.Holds.toino8` and {lit}`XfsDirInode.Holds.toino4`: both conversions
  keep the directory.
-/

namespace Xfsd

open Foundation

/-! ## Stores behind the header -/

section Stores

variable {m : Memory Byte} {wide : Bool} {a : Int}

/-- A store behind the header leaves the counters alone. -/
theorem sfHdrI8count_write (ha : 2 ≤ a) (xs : List Byte) :
    sfHdrI8count (m.write a xs) 0 = sfHdrI8count m 0 :=
  Memory.write_outside (Or.inl (by omega))

theorem xfsDir2SfPutIno_eq (hwide : wide = decide (sfHdrI8count m 0 ≠ 0)) (ino : BitVec 64) :
    xfsDir2SfPutIno m 0 a ino = m.write a (inoBytes wide ino) := by
  subst hwide
  rw [xfsDir2SfPutIno]
  by_cases hzero : sfHdrI8count m 0 = 0
  · rw [if_neg (not_not.mpr hzero), decide_eq_false (not_not.mpr hzero), putUnalignedBe32_eq]
    rfl
  · rw [if_pos hzero, decide_eq_true hzero, putUnalignedBe64_eq]
    rfl

/-- The inode number of an entry whose length byte stands there goes behind its name. -/
theorem xfsDir2SfePutIno_eq (hwide : wide = decide (sfHdrI8count m 0 ≠ 0)) {n : Nat}
    (hlen : (sfepNamelen m a).toNat = n) (ino : BitVec 64) :
    xfsDir2SfePutIno m 0 a ino = m.write (a + 3 + n) (inoBytes wide ino) := by
  rw [xfsDir2SfePutIno, xfsDir2SfeInop, sfepName, hlen, xfsDir2SfPutIno_eq hwide]

/-- The length byte of an entry outlives the stores behind it. -/
theorem sfepNamelen_write {n : Nat} (hn : n ≤ 255) {b : Int} (hb : a < b) (xs : List Byte) :
    (sfepNamelen ((m.set a (BitVec.ofNat 8 n)).write b xs) a).toNat = n := by
  rw [sfepNamelen, Memory.write_outside (Or.inl hb), Memory.set, if_pos rfl, BitVec.toNat_ofNat]
  omega

/-- An entry stored part by part. -/
theorem putEntry_eq (hwide : wide = decide (sfHdrI8count m 0 ≠ 0)) (ha : 2 ≤ a) (e : SfEntry) :
    xfsDir2SfePutIno (((m.set a (BitVec.ofNat 8 e.name.length)).write (a + 1)
        (beBytes16 e.offset)).write (sfepName a) e.name) 0 a e.ino =
      m.write a (e.encode wide) := by
  have hparts : ((m.set a (BitVec.ofNat 8 e.name.length)).write (a + 1)
      (beBytes16 e.offset)).write (sfepName a) e.name =
        m.write a (BitVec.ofNat 8 e.name.length :: (beBytes16 e.offset ++ e.name)) := by
    have haddr : sfepName a = a + 1 + (beBytes16 e.offset).length := by
      rw [sfepName, length_beBytes16]
      omega
    rw [haddr, ← Memory.write_append, Memory.write_cons]
  have hwide' : wide = decide (sfHdrI8count (m.write a
      (BitVec.ofNat 8 e.name.length :: (beBytes16 e.offset ++ e.name))) 0 ≠ 0) := by
    rw [sfHdrI8count_write ha, hwide]
  have hlen : (sfepNamelen (m.write a
      (BitVec.ofNat 8 e.name.length :: (beBytes16 e.offset ++ e.name))) a).toNat =
        e.name.length := by
    rw [Memory.write_cons]
    exact sfepNamelen_write e.name_le (by omega) _
  have haddr : a + 3 + (e.name.length : Int) =
      a + (BitVec.ofNat 8 e.name.length :: (beBytes16 e.offset ++ e.name)).length := by
    simp only [List.length_append, List.length_cons, length_beBytes16]
    omega
  rw [hparts, xfsDir2SfePutIno_eq hwide' hlen, haddr, ← Memory.write_append, SfEntry.encode]
  simp

/-- Filling in an entry stores its bytes. -/
theorem Kernel.fillEntry_eq {k : Kernel} (hk : k.StoresBe16)
    (hwide : wide = decide (sfHdrI8count m 0 ≠ 0)) (ha : 2 ≤ a) {args : XfsDaArgs}
    {e : SfEntry} (hname : args.name = e.name) (hino : args.inumber = e.ino) :
    k.fillEntry m args a e.offset.toNat = m.write a (e.encode wide) := by
  have hoffset : (BitVec.ofNat 32 e.offset.toNat).setWidth 16 = e.offset := by
    have hlt := e.offset.isLt
    apply BitVec.eq_of_toNat_eq
    rw [BitVec.toNat_setWidth, BitVec.toNat_ofNat]
    omega
  rw [← putEntry_eq hwide ha, fillEntry, xfsDir2SfPutOffset, hk, hname, hino, hoffset]
  simp only [sfepNamelen_write e.name_le (lt_add_one a), List.take_length]

/-- The loop of the conversions stores the old entries with numbers of the new width. -/
theorem sfToinoLoop_eq {old : Memory Byte} {oldWide : Bool} {oldA : Int} {es : List SfEntry}
    (hwide : wide = decide (sfHdrI8count m 0 ≠ 0)) (ha : 2 ≤ a)
    (h : EntriesAt old oldWide oldA es) (hnarrow : wide = false → ∀ e ∈ es, e.ino.toNat < 2 ^ 32) :
    sfToinoLoop old es.length oldA a m = m.write a (es.flatMap (SfEntry.encode wide)) := by
  induction es generalizing m a oldA with
  | nil => simp [sfToinoLoop]
  | cons e es ih =>
      have hread := h.head
      have hnarrow' : wide = false → ∀ x ∈ es, x.ino.toNat < 2 ^ 32 :=
        fun hw x hx => hnarrow hw x (List.mem_cons_of_mem e hx)
      have hwide' : wide = decide (sfHdrI8count (m.write a (e.encode wide)) 0 ≠ 0) := by
        rw [sfHdrI8count_write ha, hwide]
      have hnext : xfsDir2SfNextentry (m.write a (e.encode wide)) 0 a =
          a + (e.encode wide).length := by
        refine (SfEntry.reads hwide' (fun hw => hnarrow hw e List.mem_cons_self) ?_).2.2.2
        exact spells_write m a _
      have hlength : (2 : Nat) = (beBytes16 e.offset).length := rfl
      rw [List.length_cons, sfToinoLoop, hread.namelenByte, hread.ino, hlength,
        Memory.copyFrom_eq_write hread.offsetBytes]
      simp only [sfepNamelen_write e.name_le (lt_add_one a),
        Memory.copyFrom_eq_write hread.nameBytes]
      rw [putEntry_eq hwide ha, hread.next, hnext, ih hwide' (by omega) h.tail hnarrow',
        ← Memory.write_append, List.flatMap_cons]

/-- The steps that fill a header store its bytes. -/
theorem putHdr_eq {d : SfImage} (hd : d.Valid) (m : Memory Byte) :
    xfsDir2SfPutParentIno ((m.set 0 (BitVec.ofNat 8 d.entries.length)).set 1
        (BitVec.ofNat 8 d.i8count)) 0 d.parent = m.write 0 d.encodeHdr := by
  refine (fillHeader_eq m 0 _ _ _).trans ?_
  rw [← hd.wide_eq]
  rfl

end Stores

/-! ## The data fork -/

namespace XfsIfork

/-- The fork has room for its bytes. -/
structure Sound (ifp : XfsIfork) : Prop where
  nonneg : 0 ≤ ifp.ifBytes
  null : ifp.ifData = .null → ifp.ifBytes = 0
  heap : ∀ m, ifp.ifData = .heap m → ifp.ifBytes ≤ ifp.ifRealBytes

/-- What a reallocation to a new size leaves. -/
structure Resized (ifp ifp' : XfsIfork) (newSize : Int) : Prop where
  sound : ifp'.Sound
  ifBytes : ifp'.ifBytes = newSize
  ifFlags : ifp'.ifFlags = ifp.ifFlags
  kept : AgreeOn ifp'.bytes ifp.bytes 0 (min ifp.ifBytes newSize)

variable {ifp : XfsIfork} {newSize : Int}

/-- A reallocation keeps the bytes that the old and the new size have in common. -/
theorem Sound.realloc (h : ifp.Sound) (k : Kernel) (hnew : 0 ≤ newSize) :
    ifp.Resized (xfsIdataRealloc k ifp (newSize - ifp.ifBytes)) newSize := by
  rcases ifp with ⟨ifBytes, ifRealBytes, ifFlags, ifData, ifInlineData⟩
  rcases h with ⟨hnonneg, hnull, hheap⟩
  dsimp only at hnonneg hnull hheap
  have hsum : ifBytes + (newSize - ifBytes) = newSize := by omega
  unfold xfsIdataRealloc
  dsimp only
  rw [hsum]
  by_cases hdiff : newSize - ifBytes = 0
  · rw [if_pos hdiff]
    exact ⟨⟨hnonneg, hnull, hheap⟩, by dsimp only; omega, rfl, fun a _ _ => rfl⟩
  rw [if_neg hdiff]
  by_cases hzero : newSize = 0
  · rw [if_pos hzero]
    exact ⟨⟨hnew, fun _ => hzero, fun m hm => by cases hm⟩, rfl, rfl, fun a _ _ => by omega⟩
  rw [if_neg hzero]
  have hempty : ifData = .null → ∀ m m' : Memory Byte, AgreeOn m m' 0 (min ifBytes newSize) := by
    intro hdata m m' a ha hlt
    rw [hnull hdata] at hlt
    omega
  by_cases hsmall : newSize ≤ 32
  · rw [if_pos hsmall]
    cases ifData with
    | null => exact ⟨⟨hnew, nofun, nofun⟩, rfl, rfl, hempty rfl _ _⟩
    | inlineData => exact ⟨⟨hnew, nofun, nofun⟩, rfl, rfl, fun a _ _ => rfl⟩
    | heap bytes =>
        exact ⟨⟨hnew, nofun, nofun⟩, rfl, rfl, agreeOn_copyFrom ifInlineData bytes (by omega)⟩
  · rw [if_neg hsmall]
    have hroom : newSize ≤ (newSize + 3) / 4 * 4 := by omega
    cases ifData with
    | null => exact ⟨⟨hnew, nofun, fun m _ => hroom⟩, rfl, rfl, hempty rfl _ _⟩
    | inlineData =>
        have hcopied : min ifBytes newSize ≤ ifBytes.toNat := by omega
        exact ⟨⟨hnew, nofun, fun m _ => hroom⟩, rfl, rfl,
          agreeOn_copyFrom _ ifInlineData hcopied⟩
    | heap bytes =>
        have hle := hheap bytes rfl
        dsimp only
        by_cases hreal : ifRealBytes = (newSize + 3) / 4 * 4
        · rw [if_neg (not_not.mpr hreal)]
          exact ⟨⟨hnew, nofun, fun m _ => by dsimp only; omega⟩, rfl, rfl, fun a _ _ => rfl⟩
        · have hcopied : min ifBytes newSize ≤
              (min ifRealBytes ((newSize + 3) / 4 * 4)).toNat := by omega
          rw [if_pos hreal]
          exact ⟨⟨hnew, nofun, fun m _ => hroom⟩, rfl, rfl, agreeOn_copyFrom _ bytes hcopied⟩

/-- What a store through {lit}`if_data` leaves. -/
theorem Sound.withBytes (h : ifp.Sound) (hpos : 0 < ifp.ifBytes) (m : Memory Byte) :
    (ifp.withBytes m).Sound ∧ (ifp.withBytes m).bytes = m ∧
      (ifp.withBytes m).ifBytes = ifp.ifBytes ∧ (ifp.withBytes m).ifFlags = ifp.ifFlags := by
  rcases ifp with ⟨ifBytes, ifRealBytes, ifFlags, ifData, ifInlineData⟩
  rcases h with ⟨hnonneg, hnull, hheap⟩
  cases ifData with
  | null => exact absurd (hnull rfl) (by omega)
  | inlineData => exact ⟨⟨hnonneg, nofun, nofun⟩, rfl, rfl, rfl⟩
  | heap bytes => exact ⟨⟨hnonneg, nofun, fun m _ => hheap bytes rfl⟩, rfl, rfl, rfl⟩

end XfsIfork

/-! ## Inodes that hold directories -/

/-- The rest of the inode is as it was. -/
structure XfsDirInode.Keeps (dp dp' : XfsDirInode) : Prop where
  iMount : dp'.iMount = dp.iMount
  iIno : dp'.iIno = dp.iIno
  iD : dp'.iD = { dp.iD with diSize := dp'.iD.diSize }
  ifFlags : dp'.iDf.ifFlags = dp.iDf.ifFlags

/-- The inode holds a directory. -/
structure XfsDirInode.Holds (dp : XfsDirInode) (d : SfImage) : Prop where
  valid : d.Valid
  sound : dp.iDf.Sound
  spells : Spells dp.iDf.bytes 0 d.encode
  ifBytes : dp.iDf.ifBytes = d.encode.length
  diSize : dp.iD.diSize = BitVec.ofInt 64 d.encode.length

namespace SfImage

variable {d : SfImage}

theorem length_encode_pos (d : SfImage) : 6 ≤ d.encode.length := by
  rw [length_encode, length_encodeHdr]
  split <;> omega

/-- The length of a directory, with the entries' inode numbers apart. -/
theorem length_encode_eq (d : SfImage) :
    d.encode.length = 2 + (d.entries.length + 1) * (if d.i8count = 0 then 4 else 8) +
      (d.entries.length * 3 + (d.entries.map fun e => e.name.length).sum) := by
  rw [length_encode, length_encodeHdr, BlockDir.length_flatMap_encode, wide]
  by_cases hzero : d.i8count = 0 <;> simp [hzero] <;> omega

/-- Fewer and shorter entries with numbers no wider make a directory no longer. -/
theorem length_encode_mono {d' : SfImage} (hcount : d'.entries.length ≤ d.entries.length)
    (hnames : (d'.entries.map fun e => e.name.length).sum ≤
      (d.entries.map fun e => e.name.length).sum)
    (hwide : d'.i8count ≠ 0 → d.i8count ≠ 0) : d'.encode.length ≤ d.encode.length := by
  rw [length_encode_eq, length_encode_eq]
  by_cases hzero' : d'.i8count = 0
  · rw [if_pos hzero']
    split <;> omega
  · rw [if_neg hzero', if_neg (hwide hzero')]
    omega

theorem sum_names_le (es : List SfEntry) :
    (es.map fun e => e.name.length).sum ≤ es.length * 255 := by
  induction es with
  | nil => simp
  | cons e es ih =>
      have hle := e.name_le
      simp only [List.map_cons, List.sum_cons, List.length_cons]
      omega

/-- Directories are short. -/
theorem Valid.length_encode_lt (h : d.Valid) : d.encode.length < 2 ^ 17 := by
  have hcount := h.count_le
  have hnames := sum_names_le d.entries
  rw [length_encode_eq]
  split <;> omega

end SfImage

namespace XfsDirInode

variable {dp dp' dp'' : XfsDirInode} {d : SfImage}

theorem Keeps.refl (dp : XfsDirInode) : dp.Keeps dp :=
  ⟨rfl, rfl, rfl, rfl⟩

theorem Keeps.trans (h : dp.Keeps dp') (h' : dp'.Keeps dp'') : dp.Keeps dp'' where
  iMount := h'.iMount.trans h.iMount
  iIno := h'.iIno.trans h.iIno
  iD := by rw [h'.iD, h.iD]
  ifFlags := h'.ifFlags.trans h.ifFlags

/-- The room in the inode is what it was. -/
theorem Keeps.dsize (h : dp.Keeps dp') :
    xfsIforkDsize dp'.toXfsInode = xfsIforkDsize dp.toXfsInode := by
  unfold xfsIforkDsize xfsIforkBoff
  rw [h.iMount, h.iD]

theorem toInt_ofInt_length (h : d.Valid) :
    (BitVec.ofInt 64 d.encode.length).toInt = d.encode.length ∧
      ((BitVec.ofInt 64 d.encode.length).setWidth 32).toInt = d.encode.length := by
  have hlt := h.length_encode_lt
  constructor
  · rw [BitVec.toInt_ofInt]
    exact Int.bmod_eq_of_le (by omega) (by omega)
  · have hnat : (BitVec.ofInt 64 d.encode.length).toNat = d.encode.length := by
      rw [BitVec.toNat_ofInt]
      omega
    rw [BitVec.toInt_setWidth, hnat]
    exact Int.bmod_eq_of_le (by omega) (by omega)

/-- The size of an inode that holds a directory. -/
theorem Holds.isize (h : dp.Holds d) : dp.isize = d.encode.length := by
  rw [XfsDirInode.isize, h.diSize]
  exact (toInt_ofInt_length h.valid).2

theorem Holds.toInt_diSize (h : dp.Holds d) : dp.iD.diSize.toInt = d.encode.length := by
  rw [h.diSize]
  exact (toInt_ofInt_length h.valid).1

/-- The size of a directory in an inode is never found too short. -/
theorem Holds.not_belowParent (h : dp.Holds d) : ¬BelowParent dp.iD.diSize.toInt := by
  have hpos := d.length_encode_pos
  rw [h.toInt_diSize]
  rintro ⟨-, hlt⟩
  omega

theorem Holds.not_belowParent_isize (h : dp.Holds d) : ¬BelowParent dp.isize := by
  rw [h.isize, ← h.toInt_diSize]
  exact h.not_belowParent

/-- The accessors on the header of a directory in an inode. -/
theorem Holds.hdr (h : dp.Holds d) : HdrRead dp.iDf.bytes d :=
  SfImage.readsHdr h.valid (spells_append_iff.mp h.spells).1

/-- The entries of a directory in an inode. -/
theorem Holds.entries (h : dp.Holds d) :
    EntriesAt dp.iDf.bytes d.wide d.encodeHdr.length d.entries :=
  SfImage.readsEntries h.valid h.spells

/-- A directory whose bytes have been stored in a fork of its size. -/
theorem holds_of_spells (dp : XfsDirInode) (hd : d.Valid) (hsound : dp.iDf.Sound)
    (hbytes : dp.iDf.ifBytes = d.encode.length) {m : Memory Byte} (hm : Spells m 0 d.encode) :
    ((dp.withBytes m).withSize d.encode.length).Holds d ∧
      dp.Keeps ((dp.withBytes m).withSize d.encode.length) := by
  have hpos := d.length_encode_pos
  rcases hsound.withBytes (by omega) m with ⟨hsound', hm', hbytes', hflags'⟩
  refine ⟨⟨hd, hsound', ?_, hbytes'.trans hbytes, rfl⟩, rfl, rfl, rfl, hflags'⟩
  change Spells (dp.iDf.withBytes m).bytes 0 d.encode
  rw [hm']
  exact hm

/-- Both conversions keep the directory. -/
theorem Holds.toino (h : dp.Holds d) (k : Kernel) {i8count : Nat} (hle : i8count ≤ 255)
    (hnarrow : i8count = 0 → d.big = 0) {diff : Int}
    (hdiff : diff = (if i8count = 0 then 4 else 8) - (if d.i8count = 0 then 4 else 8)) :
    (xfsDir2SfToino k (BitVec.ofNat 8 i8count) diff dp).Holds { d with i8count := i8count } ∧
      dp.Keeps (xfsDir2SfToino k (BitVec.ofNat 8 i8count) diff dp) := by
  let d' : SfImage := { d with i8count := i8count }
  have hd' : d'.Valid := ⟨h.valid.parent_lt, h.valid.count_le, hle, hnarrow⟩
  let old := (k.kmemAlloc dp.iDf).copyFrom 0 dp.iDf.bytes 0 dp.iDf.ifBytes.toNat
  have hold : Spells old 0 d.encode := by
    have heq : old = (k.kmemAlloc dp.iDf).write 0 d.encode := by
      rw [← Memory.copyFrom_eq_write h.spells]
      simp only [old, h.ifBytes, Int.toNat_natCast]
    rw [heq]
    exact spells_write _ _ _
  have hread := SfImage.readsHdr h.valid (spells_append_iff.mp hold).1
  have hentries := SfImage.readsEntries h.valid hold
  have hnewsize : dp.iDf.ifBytes + ((sfHdrCount old 0).toNat + 1) * diff = d'.encode.length := by
    rw [hread.count, h.ifBytes, hdiff, SfImage.length_encode_eq, SfImage.length_encode_eq]
    by_cases hold : d.i8count = 0 <;> by_cases hnew : i8count = 0 <;>
      simp only [d', hold, hnew, if_true, if_false, Nat.cast_add, Nat.cast_mul] <;>
      omega
  let put (m : Memory Byte) := xfsDir2SfPutParentIno
    ((m.set 0 (sfHdrCount old 0)).set 1 (BitVec.ofNat 8 i8count)) 0 (xfsDir2SfGetParentIno old 0)
  let fill (m : Memory Byte) := sfToinoLoop old (sfHdrCount (put m) 0).toNat
    (xfsDir2SfFirstentry old 0) (xfsDir2SfFirstentry (put m) 0) (put m)
  have hput : ∀ m, put m = m.write 0 d'.encodeHdr := by
    intro m
    simp only [put, hread.countByte, hread.parent]
    exact putHdr_eq hd' m
  have hfill : ∀ m, fill m = m.write 0 d'.encode := by
    intro m
    have hread' := SfImage.readsHdr hd' (spells_write m 0 d'.encodeHdr)
    have hpos : 2 ≤ (d'.encodeHdr.length : Int) := by
      rw [SfImage.length_encodeHdr]
      split <;> omega
    simp only [fill, hput]
    rw [hread'.count, hread'.firstentry, hread.firstentry,
      sfToinoLoop_eq hread'.wide hpos hentries fun hw e he => hd'.ino_lt hw he,
      SfImage.encode, Memory.write_append, zero_add]
  -- the old fork is emptied, and a new one of the new size is filled
  have hempty := h.sound.realloc k (le_refl 0)
  rw [zero_sub] at hempty
  have hfull := hempty.sound.realloc k (Int.natCast_nonneg d'.encode.length)
  rw [hempty.ifBytes, sub_zero] at hfull
  let dp₁ := (dp.realloc k (-dp.iDf.ifBytes)).realloc k d'.encode.length
  have hkeeps₁ : dp.Keeps dp₁ := ⟨rfl, rfl, rfl, hfull.ifFlags.trans hempty.ifFlags⟩
  have htoino : xfsDir2SfToino k (BitVec.ofNat 8 i8count) diff dp =
      (dp₁.withBytes (fill dp₁.iDf.bytes)).withSize d'.encode.length := by
    simp only [dp₁, ← hnewsize]
    rfl
  rw [htoino, hfill]
  rcases holds_of_spells dp₁ hd' hfull.sound hfull.ifBytes
    (spells_write dp₁.iDf.bytes 0 d'.encode) with ⟨hholds, hkeeps⟩
  exact ⟨hholds, hkeeps₁.trans hkeeps⟩

/-- The numbers are made wide, with one counted ahead. -/
theorem Holds.toino8 (h : dp.Holds d) (k : Kernel) (hzero : d.i8count = 0) :
    (xfsDir2SfToino8 k dp).Holds { d with i8count := 1 } ∧ dp.Keeps (xfsDir2SfToino8 k dp) := by
  refine h.toino k (by decide) (fun hone => absurd hone Nat.one_ne_zero) ?_
  rw [if_pos hzero]
  rfl

/-- The numbers are made narrow when none is wide, with one still counted. -/
theorem Holds.toino4 (h : dp.Holds d) (k : Kernel) (hone : d.i8count = 1) (hbig : d.big = 0) :
    (xfsDir2SfToino4 k dp).Holds { d with i8count := 0 } ∧ dp.Keeps (xfsDir2SfToino4 k dp) := by
  refine h.toino k (by decide) (fun _ => hbig) ?_
  rw [hone]
  rfl

end XfsDirInode

end Xfsd
