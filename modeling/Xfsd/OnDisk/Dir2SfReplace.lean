import Xfsd.OnDisk.Dir2SfRemove

/-!
# XFSD - Replacing inode numbers in short-form directories

The function {lit}`xfs_dir2_sf_replace`, for the parent and for an entry: the numbers are made
wide first when the new one is the first wide one, and narrow again when the last wide one goes.

Main results:

- Theorem {lit}`XfsDirInode.Holds.recountReplaced`: the counter is right after a replacement.
- Theorems {lit}`XfsDirInode.Stores.replace_entry`, {lit}`XfsDirInode.Stores.replace_parent`
  and {lit}`XfsDirInode.Stores.replace_missing`: what replacing a number does.
-/

namespace Xfsd

open Foundation

/-! ## Replacing an inode number -/

/-- An entry with another inode number. -/
def SfEntry.withIno (e : SfEntry) (ino : BitVec 64) (h : ino.toNat < 2 ^ 56) : SfEntry :=
  { e with
    ino := ino
    ino_lt := h }

namespace XfsDirInode

variable {b : Build} {k : Kernel} {dp dp' : XfsDirInode} {d d' : SfImage} {args : XfsDaArgs}
  {e : SfEntry} {before after : List SfEntry} {m : Memory Byte}

/-- The number of the parent is replaced. -/
theorem Holds.putParent (h : dp.Holds d) {ino : BitVec 64} (hlt : ino.toNat < 2 ^ 56)
    (hbig : d.i8count = 0 → SfImage.big { d with parent := ino } = 0) :
    (dp.withBytes (xfsDir2SfPutParentIno dp.iDf.bytes 0 ino)).Holds { d with parent := ino } ∧
      dp.Keeps (dp.withBytes (xfsDir2SfPutParentIno dp.iDf.bytes 0 ino)) := by
  refine h.withBytes ⟨hlt, h.valid.count_le, h.valid.i8count_le, hbig⟩ ?_ ?_
  · rw [SfImage.length_encode_eq, SfImage.length_encode_eq]
  · rw [xfsDir2SfPutParentIno, xfsDir2SfPutIno_eq h.hdr.wide]
    have hspells : Spells dp.iDf.bytes 0
        ([BitVec.ofNat 8 d.entries.length, BitVec.ofNat 8 d.i8count] ++
          (inoBytes d.wide d.parent ++ d.entries.flatMap (SfEntry.encode d.wide))) := by
      have hold := h.spells
      rw [SfImage.encode, SfImage.encodeHdr_eq] at hold
      exact hold
    exact hspells.write_between (inoBytes d.wide ino) (by rw [length_inoBytes, length_inoBytes])

/-- The number of an entry is replaced. -/
theorem Holds.putEntry (h : dp.Holds d) (hentries : d.entries = before ++ e :: after)
    {ino : BitVec 64} (hlt : ino.toNat < 2 ^ 56)
    (hbig : d.i8count = 0 →
      bigCount (d.parent :: (before ++ e.withIno ino hlt :: after).map SfEntry.ino) = 0) :
    let sfep : Int :=
      (d.encodeHdr.length + (before.flatMap (SfEntry.encode d.wide)).length : Nat)
    (dp.withBytes (xfsDir2SfePutIno dp.iDf.bytes 0 sfep ino)).Holds
        { d with entries := before ++ e.withIno ino hlt :: after } ∧
      dp.Keeps (dp.withBytes (xfsDir2SfePutIno dp.iDf.bytes 0 sfep ino)) ∧
      xfsDir2SfeGetIno dp.iDf.bytes 0 sfep = e.ino := by
  intro sfep
  let d' : SfImage := { d with entries := before ++ e.withIno ino hlt :: after }
  have hstored := h.entries
  rw [hentries, entriesAt_append_iff, ← Nat.cast_add] at hstored
  have hread : EntryRead dp.iDf.bytes d.wide sfep e := hstored.2.head
  have hd' : d'.Valid := by
    refine ⟨h.valid.parent_lt, ?_, h.valid.i8count_le, hbig⟩
    have hcount := h.valid.count_le
    rw [hentries] at hcount
    simpa [d'] using hcount
  have hlength : d'.encode.length = d.encode.length := by
    rw [SfImage.length_encode_eq, SfImage.length_encode_eq, hentries]
    simp [d', SfEntry.withIno]
  let front := d.encodeHdr ++ before.flatMap (SfEntry.encode d.wide) ++
    BitVec.ofNat 8 e.name.length :: (beBytes16 e.offset ++ e.name)
  let back := after.flatMap (SfEntry.encode d.wide)
  have hencode : d.encode = front ++ (inoBytes d.wide e.ino ++ back) := by
    rw [SfImage.encode, hentries, List.flatMap_append, List.flatMap_cons, SfEntry.encode]
    simp [front, back, List.append_assoc]
  have hencode' : d'.encode = front ++ (inoBytes d.wide ino ++ back) := by
    have hhdr : d'.encodeHdr = d.encodeHdr := by
      rw [SfImage.encodeHdr_eq, SfImage.encodeHdr_eq, hentries]
      simp [d', SfImage.wide]
    rw [SfImage.encode, hhdr, show d'.wide = d.wide from rfl, List.flatMap_append,
      List.flatMap_cons, SfEntry.encode]
    simp [front, back, SfEntry.withIno, List.append_assoc]
  have hfront : (0 : Int) + front.length = sfep + 3 + e.name.length := by
    simp only [front, sfep, List.length_append, List.length_cons, length_beBytes16]
    omega
  have hspells : Spells (xfsDir2SfePutIno dp.iDf.bytes 0 sfep ino) 0 d'.encode := by
    have hold := h.spells
    rw [hencode] at hold
    have hnew := hold.write_between (inoBytes d.wide ino)
      (by rw [length_inoBytes, length_inoBytes])
    rw [hfront] at hnew
    rw [xfsDir2SfePutIno_eq h.hdr.wide hread.namelen, hencode']
    exact hnew
  rcases h.withBytes hd' hlength hspells with ⟨hholds, hkeeps⟩
  exact ⟨hholds, hkeeps, hread.ino⟩

/-- The counter is set right after a number has been replaced. -/
theorem Holds.recountReplaced (h : dp.Holds d) (hb : d.i8count ≠ 0 → b.xfsBigInums = true)
    (hle : d.big ≤ 255) {ino : BitVec 64} {elevated : Bool}
    (hcount : d.i8count +
        (if ino ≤ xfsDir2MaxShortInum ∧ xfsDir2MaxShortInum < args.inumber ∧ ¬elevated then 1
          else 0) =
      d.big + if xfsDir2MaxShortInum < ino ∧ args.inumber ≤ xfsDir2MaxShortInum then 1 else 0)
    (k : Kernel) :
    (recountReplaced b k dp args ino elevated).Holds { d with i8count := d.big } ∧
      dp.Keeps (recountReplaced b k dp args ino elevated) := by
  have hsame (heq : d.i8count = d.big) : dp.Holds { d with i8count := d.big } := by
    rw [← heq]
    exact h
  by_cases hzero : d.i8count = 0
  · -- no number is wide, and none has been
    have hbig := h.valid.narrow hzero
    rw [hzero, hbig, zero_add, zero_add] at hcount
    have hdown : ¬(xfsDir2MaxShortInum < ino ∧ args.inumber ≤ xfsDir2MaxShortInum) := by
      intro hdown
      rw [if_pos hdown, if_neg fun hup => absurd hup.2.1 (BitVec.not_lt.mpr hdown.2)] at hcount
      exact absurd hcount Nat.zero_ne_one
    rw [if_neg hdown] at hcount
    have hup : ¬(ino ≤ xfsDir2MaxShortInum ∧ xfsDir2MaxShortInum < args.inumber ∧ ¬elevated) :=
      fun hup => Nat.one_ne_zero ((if_pos hup).symm.trans hcount)
    rw [Xfsd.recountReplaced]
    simp only [if_neg hdown, if_neg hup, ite_self]
    exact ⟨hsame (hzero.trans hbig.symm), .refl dp⟩
  rw [Xfsd.recountReplaced, if_pos (hb hzero)]
  by_cases hdown : xfsDir2MaxShortInum < ino ∧ args.inumber ≤ xfsDir2MaxShortInum
  · have hup : ¬(ino ≤ xfsDir2MaxShortInum ∧ xfsDir2MaxShortInum < args.inumber ∧ ¬elevated) :=
      fun hup => absurd hup.2.1 (BitVec.not_lt.mpr hdown.2)
    rw [if_pos hdown, if_neg hup, add_zero] at hcount
    simp only [if_pos hdown, if_neg hup]
    exact h.countDown k hcount
  rw [if_neg hdown, add_zero] at hcount
  simp only [if_neg hdown]
  by_cases hup : ino ≤ xfsDir2MaxShortInum ∧ xfsDir2MaxShortInum < args.inumber ∧ ¬elevated
  · rw [if_pos hup] at hcount ⊢
    refine h.withI8count hle hzero (by omega) ?_
    rw [show dp.iDf.bytes 1 = BitVec.ofNat 8 d.i8count from h.hdr.i8countByte, ← hcount,
      BitVec.ofNat_add]
    rfl
  · rw [if_neg hup, add_zero] at hcount
    rw [if_neg hup]
    exact ⟨hsame hcount, .refl dp⟩

end XfsDirInode

/-! ## The start of a replacement -/

/-- The directory with wide numbers does not fit the inode: it is converted to block form. -/
def SfDir.NeedsBlock (d : SfDir) (dsize : Int) (ino : BitVec 64) : Prop :=
  xfsDir2MaxShortInum < ino ∧ d.i8count = 0 ∧
    dsize < (SfImage.encode { d.image with i8count := 1 }).length

instance (d : SfDir) (dsize : Int) (ino : BitVec 64) : Decidable (d.NeedsBlock dsize ino) :=
  inferInstanceAs (Decidable (_ ∧ _ ∧ _))

namespace XfsDirInode

/-- What the search for the name starts from: the directory with numbers as wide as the new one
needs. -/
structure ReplaceStart (b : Build) (k : Kernel) (dp : XfsDirInode) (d : SfDir)
    (args : XfsDaArgs) (dp₁ : XfsDirInode) (i8count : Nat) (elevated : Bool) : Prop where
  holds : dp₁.Holds { d.image with i8count := i8count }
  keeps : dp.Keeps dp₁
  elevated_iff : elevated = true ↔ xfsDir2MaxShortInum < args.inumber ∧ d.i8count = 0
  i8count_eq : i8count = if elevated then 1 else d.i8count
  unchanged : elevated = false → dp₁ = dp
  fits : ((SfImage.encode { d.image with i8count := i8count }).length : Int) ≤
    (xfsIforkDsize dp.toXfsInode).toInt
  replace_eq : xfsDir2SfReplace b k dp args =
    .returned (replaceFound b k dp₁ args elevated).1 (replaceFound b k dp₁ args elevated).2

variable {b : Build} {k : Kernel} {dp dp₁ dp₂ : XfsDirInode} {d d' : SfDir} {args : XfsDaArgs}
  {e : SfEntry} {before after : List SfEntry} {i8count : Nat} {elevated : Bool}

/-- The condition of the code, on the directory itself. -/
theorem Stores.elevates_iff (h : dp.Stores b d)
    (hb : xfsDir2MaxShortInum < args.inumber → b.xfsBigInums = true) :
    (b.xfsBigInums = true ∧ xfsDir2MaxShortInum < args.inumber ∧
        sfHdrI8count dp.iDf.bytes 0 = 0) ↔
      xfsDir2MaxShortInum < args.inumber ∧ d.i8count = 0 := by
  have hread : (sfHdrI8count dp.iDf.bytes 0).toNat = d.i8count := h.holds.hdr.i8count
  have hzero : sfHdrI8count dp.iDf.bytes 0 = 0 ↔ d.i8count = 0 := by
    rw [← hread]
    exact ⟨fun hzero => congrArg BitVec.toNat hzero, fun hzero => BitVec.eq_of_toNat_eq hzero⟩
  rw [hzero]
  exact ⟨And.right, fun hall => ⟨hb hall.1, hall⟩⟩

/-- The size that the code computes is that of the directory with wide numbers. -/
theorem Stores.newsize_eq (h : dp.Stores b d) (hzero : d.i8count = 0) :
    dp.iDf.ifBytes + (((sfHdrCount dp.iDf.bytes 0).toNat : Int) + 1) * (8 - 4) =
      (SfImage.encode { d.image with i8count := 1 }).length := by
  have hcount : (sfHdrCount dp.iDf.bytes 0).toNat = d.entries.length := h.holds.hdr.count
  have hzero' : d.image.i8count = 0 := hzero
  rw [h.holds.ifBytes, hcount, SfImage.length_encode_eq, SfImage.length_encode_eq, hzero',
    if_pos rfl, if_neg Nat.one_ne_zero]
  simp only [SfDir.image]
  omega

/-- Where the directory does not fit, the code leaves for the block form. -/
theorem Stores.replace_toBlock (h : dp.Stores b d)
    (hb : xfsDir2MaxShortInum < args.inumber → b.xfsBigInums = true)
    (hneeds : d.NeedsBlock (xfsIforkDsize dp.toXfsInode).toInt args.inumber) (k : Kernel) :
    xfsDir2SfReplace b k dp args = .toBlock dp := by
  rcases hneeds with ⟨hbig, hzero, hroom⟩
  unfold xfsDir2SfReplace
  dsimp only
  rw [if_neg h.holds.not_belowParent, if_pos ((h.elevates_iff hb).mpr ⟨hbig, hzero⟩),
    h.newsize_eq hzero, if_pos hroom]

/-- Otherwise the search starts from the same directory. -/
theorem Stores.replace_start (h : dp.Stores b d)
    (hb : xfsDir2MaxShortInum < args.inumber → b.xfsBigInums = true)
    (hneeds : ¬d.NeedsBlock (xfsIforkDsize dp.toXfsInode).toInt args.inumber) (k : Kernel) :
    ∃ dp₁ i8count elevated, ReplaceStart b k dp d args dp₁ i8count elevated := by
  by_cases helevates : xfsDir2MaxShortInum < args.inumber ∧ d.i8count = 0
  · have hfits := not_lt.mp fun hlt => hneeds ⟨helevates.1, helevates.2, hlt⟩
    rcases h.holds.toino8 k helevates.2 with ⟨hholds, hkeeps⟩
    refine ⟨_, 1, true, hholds, hkeeps, iff_of_true rfl helevates, rfl, nofun, hfits, ?_⟩
    unfold xfsDir2SfReplace
    dsimp only
    rw [if_neg h.holds.not_belowParent, if_pos ((h.elevates_iff hb).mpr helevates),
      h.newsize_eq helevates.2, if_neg (not_lt.mpr hfits)]
  · refine ⟨dp, d.i8count, false, h.holds, .refl dp, iff_of_false nofun helevates, rfl,
      fun _ => rfl, h.fits, ?_⟩
    unfold xfsDir2SfReplace
    dsimp only
    rw [if_neg h.holds.not_belowParent, if_neg (mt (h.elevates_iff hb).mp helevates)]

end XfsDirInode

/-! ## The end of a replacement -/

/-- Two directories that differ in one inode number only. -/
structure SfDir.Renumbers (d d' : SfDir) (ino ino' : BitVec 64) : Prop where
  name : d'.entries.map SfEntry.name = d.entries.map SfEntry.name
  room : ∀ {dirblksize}, RoomIn dirblksize d.entries → RoomIn dirblksize d'.entries
  i8count : ∃ n, d.i8count = n + (if xfsDir2MaxShortInum < ino then 1 else 0) ∧
    d'.i8count = n + if xfsDir2MaxShortInum < ino' then 1 else 0

namespace XfsDirInode

variable {b : Build} {k : Kernel} {dp dp₁ dp₂ : XfsDirInode} {d d' : SfDir} {args : XfsDaArgs}
  {e : SfEntry} {before after : List SfEntry} {i8count : Nat} {elevated : Bool}
  {ino : BitVec 64}

/-- Numbers that are narrow after the start stay narrow. -/
theorem ReplaceStart.narrow (hs : ReplaceStart b k dp d args dp₁ i8count elevated)
    (hr : d.Renumbers d' ino args.inumber) (hzero : i8count = 0) : d'.i8count = 0 := by
  rcases hr.i8count with ⟨n, hold, hnew⟩
  have hi8count := hs.i8count_eq
  have helevates := hs.elevated_iff
  cases elevated with
  | true => exact absurd (hi8count.symm.trans hzero) Nat.one_ne_zero
  | false =>
      have hdzero : d.i8count = 0 := hi8count.symm.trans hzero
      have hsmall : ¬xfsDir2MaxShortInum < args.inumber :=
        fun hbig => Bool.false_ne_true (helevates.mpr ⟨hbig, hdzero⟩)
      rw [if_neg hsmall] at hnew
      omega

/-- What the counter still lacks. -/
theorem ReplaceStart.count (hs : ReplaceStart b k dp d args dp₁ i8count elevated)
    (hr : d.Renumbers d' ino args.inumber) :
    i8count + (if ino ≤ xfsDir2MaxShortInum ∧ xfsDir2MaxShortInum < args.inumber ∧ ¬elevated
        then 1 else 0) =
      d'.i8count + if xfsDir2MaxShortInum < ino ∧ args.inumber ≤ xfsDir2MaxShortInum then 1
        else 0 := by
  rcases hr.i8count with ⟨n, hold, hnew⟩
  have hi8count := hs.i8count_eq
  have helevates := hs.elevated_iff
  simp only [← BitVec.not_lt] at *
  by_cases hino : xfsDir2MaxShortInum < ino <;>
    by_cases hinumber : xfsDir2MaxShortInum < args.inumber <;>
    cases elevated <;> simp [hino, hinumber] at * <;> omega

/-- The directory with the new number is stored once it has been counted. -/
theorem ReplaceStart.finish (hs : ReplaceStart b k dp d args dp₁ i8count elevated)
    (h : dp.Stores b d) (hb : xfsDir2MaxShortInum < args.inumber → b.xfsBigInums = true)
    (hr : d.Renumbers d' ino args.inumber) (h₂ : dp₂.Holds { d'.image with i8count := i8count })
    (hkeeps₂ : dp₁.Keeps dp₂) :
    (Xfsd.recountReplaced b k dp₂ args ino elevated).Stores b d' ∧
      dp.Keeps (Xfsd.recountReplaced b k dp₂ args ino elevated) := by
  have hbig : i8count ≠ 0 → b.xfsBigInums = true := by
    intro hne
    have hi8count := hs.i8count_eq
    cases elevated with
    | true => exact hb (hs.elevated_iff.mp rfl).1
    | false => exact h.bigInums fun hzero => hne (hi8count.trans hzero)
  rcases h₂.recountReplaced hbig d'.i8count_le (hs.count hr) k with ⟨hholds, hkeeps₃⟩
  have hkeeps := (hs.keeps.trans hkeeps₂).trans hkeeps₃
  have hcount : d'.entries.length = d.entries.length := by
    simpa using congrArg List.length hr.name
  have hsum : (d'.entries.map fun e => e.name.length) = d.entries.map fun e => e.name.length := by
    simpa [Function.comp_def] using congrArg (List.map List.length) hr.name
  refine ⟨⟨hholds, ?_, ?_, ?_, ?_, ?_, ?_, ?_⟩, hkeeps⟩
  · rw [hkeeps.dsize]
    exact h.dsize_le
  · rw [hkeeps.iMount]
    exact h.dirblksize_le
  · have hle : d'.image.encode.length ≤
        (SfImage.encode { d.image with i8count := i8count }).length := by
      refine SfImage.length_encode_mono hcount.le (congrArg List.sum hsum).le fun hne hzero => ?_
      exact hne (hs.narrow hr hzero)
    rw [hkeeps.dsize]
    exact (Int.ofNat_le.mpr hle).trans hs.fits
  · rw [hkeeps.iMount]
    exact hr.room h.room
  · rw [hr.name]
    exact h.nodup
  · intro x hx
    have hmem : x.name ∈ d.entries.map SfEntry.name := hr.name ▸ List.mem_map_of_mem hx
    rcases List.mem_map.mp hmem with ⟨y, hy, hname⟩
    exact hname ▸ h.plain y hy
  · exact fun hne => hbig fun hzero => hne (hs.narrow hr hzero)

/-! ## Replacing a number -/

theorem Stores.count_le (h : dp.Stores b d) : d.entries.length ≤ 254 :=
  SfImage.count_le_of_length (d := d.image) (Int.ofNat_le.mp (h.fits.trans h.dsize_le))

/-- Few numbers are wide, whatever they are. -/
theorem Stores.bigCount_le (h : dp.Stores b d) {parent : BitVec 64} {es : List SfEntry}
    (hcount : es.length = d.entries.length) :
    bigCount (parent :: es.map SfEntry.ino) ≤ 255 := by
  have hle := h.count_le
  refine List.countP_le_length.trans ?_
  rw [List.length_cons, List.length_map]
  omega

/-- Replacing the number of the parent. -/
theorem Stores.replace_parent (h : dp.Stores b d)
    (hb : xfsDir2MaxShortInum < args.inumber → b.xfsBigInums = true)
    (hneeds : ¬d.NeedsBlock (xfsIforkDsize dp.toXfsInode).toInt args.inumber)
    (hname : args.name = [dot, dot])
    (hlt : args.inumber.toNat < 2 ^ 56) (k : Kernel) :
    ∃ dp' d', xfsDir2SfReplace b k dp args = .returned .ok dp' ∧ d'.parent = args.inumber ∧
      d'.entries = d.entries ∧ dp'.Stores b d' ∧ dp.Keeps dp' := by
  let d' : SfDir := {
    parent := args.inumber
    entries := d.entries
    parent_lt := hlt
    count_le := d.count_le
    i8count_le := h.bigCount_le rfl }
  have hr : d.Renumbers d' d.parent args.inumber := by
    refine ⟨rfl, id, bigCount (d.entries.map SfEntry.ino), ?_, ?_⟩ <;>
      simp only [d', SfDir.i8count, bigCount, List.countP_cons, decide_eq_true_eq,
        xfsDir2MaxShortInum_lt_iff]
  rcases h.replace_start hb hneeds k with ⟨dp₁, i8count, elevated, hs⟩
  rcases hs.holds.putParent hlt (hs.narrow hr) with ⟨h₂, hkeeps₂⟩
  rcases hs.finish h hb hr h₂ hkeeps₂ with ⟨hstores, hkeeps⟩
  refine ⟨_, d', ?_, rfl, rfl, hstores, hkeeps⟩
  rw [hs.replace_eq, replaceFound, if_pos hname, hs.holds.hdr.parent]
  rfl

/-- Replacing the number of an entry. -/
theorem Stores.replace_entry (h : dp.Stores b d)
    (hb : xfsDir2MaxShortInum < args.inumber → b.xfsBigInums = true)
    (hneeds : ¬d.NeedsBlock (xfsIforkDsize dp.toXfsInode).toInt args.inumber)
    (hname : args.name = e.name)
    (hentries : d.entries = before ++ e :: after) (hlt : args.inumber.toNat < 2 ^ 56)
    (k : Kernel) :
    ∃ dp' d', xfsDir2SfReplace b k dp args = .returned .ok dp' ∧ d'.parent = d.parent ∧
      d'.entries = before ++ e.withIno args.inumber hlt :: after ∧ dp'.Stores b d' ∧
      dp.Keeps dp' := by
  have hcount : (before ++ e.withIno args.inumber hlt :: after).length = d.entries.length := by
    rw [hentries, List.length_append, List.length_append, List.length_cons, List.length_cons]
  let d' : SfDir := {
    parent := d.parent
    entries := before ++ e.withIno args.inumber hlt :: after
    parent_lt := d.parent_lt
    count_le := hcount.trans_le d.count_le
    i8count_le := h.bigCount_le hcount }
  have hr : d.Renumbers d' e.ino args.inumber := by
    refine ⟨?_, fun {z} hroom => ?_, bigCount (d.parent :: (before ++ after).map SfEntry.ino),
      ?_, bigCount_insert _ _ _ _⟩
    · rw [hentries, List.map_append, List.map_append]
      rfl
    · rw [hentries] at hroom
      refine ⟨?_, ?_⟩
      · rcases ordered_append_iff.mp hroom.ordered with ⟨hbefore, hrest⟩
        exact ordered_append_iff.mpr ⟨hbefore, hrest⟩
      · have hend := hroom.end_le
        rw [blockEnd, endOffset_append, ← hentries, ← hcount] at hend
        rw [blockEnd, endOffset_append]
        exact hend
    · rw [SfDir.i8count, hentries]
      exact bigCount_insert _ _ _ _
  rcases h.replace_start hb hneeds k with ⟨dp₁, i8count, elevated, hs⟩
  rcases hs.holds.putEntry hentries hlt (hs.narrow hr) with ⟨h₂, hkeeps₂, hino⟩
  rcases hs.finish h hb hr h₂ hkeeps₂ with ⟨hstores, hkeeps⟩
  have hnodup := h.nodup
  rw [hentries] at hnodup
  have hplain : args.name ≠ [dot, dot] := fun hdots =>
    h.plain e (hentries ▸ List.mem_append_right _ List.mem_cons_self) (.inr (hname ▸ hdots))
  have hfind := hs.holds.findName_some hentries
    (fun x hx => hname ▸ Keyed.ne_of_nodup hnodup x (List.mem_append_left _ hx)) hname.symm
  refine ⟨_, d', ?_, rfl, rfl, hstores, hkeeps⟩
  rw [hs.replace_eq, replaceFound, if_neg hplain]
  dsimp only
  rw [hfind]
  dsimp only
  rw [hino]

/-- The search for a name that no entry has leaves the directory as it was, even where its
numbers have been made wide for it. -/
theorem Stores.replace_missing (h : dp.Stores b d)
    (hb : xfsDir2MaxShortInum < args.inumber → b.xfsBigInums = true)
    (hneeds : ¬d.NeedsBlock (xfsIforkDsize dp.toXfsInode).toInt args.inumber)
    (hplain : args.name ≠ [dot, dot])
    (hne : ∀ x ∈ d.entries, x.name ≠ args.name) (k : Kernel) :
    ∃ dp', xfsDir2SfReplace b k dp args = .returned .enoent dp' ∧ dp'.Stores b d ∧
      dp.Keeps dp' := by
  rcases h.replace_start hb hneeds k with ⟨dp₁, i8count, elevated, hs⟩
  have hfind : sfFindName dp₁.iDf.bytes args = none := hs.holds.findName_none hne
  have hfound : replaceFound b k dp₁ args elevated =
      (.enoent, if b.xfsBigInums ∧ elevated then xfsDir2SfToino4 k dp₁ else dp₁) := by
    rw [replaceFound, if_neg hplain]
    dsimp only
    rw [hfind]
  have hreplace := hs.replace_eq
  rw [hfound] at hreplace
  cases helevated : elevated with
  | false =>
      rw [helevated, if_neg fun hall => Bool.false_ne_true hall.2,
        hs.unchanged helevated] at hreplace
      exact ⟨dp, hreplace, h, .refl dp⟩
  | true =>
      rcases hs.elevated_iff.mp helevated with ⟨hbig, hzero⟩
      have hone : i8count = 1 := by
        rw [hs.i8count_eq, if_pos helevated]
      rw [helevated, if_pos ⟨hb hbig, rfl⟩] at hreplace
      rcases hs.holds.toino4 k hone hzero with ⟨hholds, hkeeps₂⟩
      have hkeeps := hs.keeps.trans hkeeps₂
      have himage : { d.image with i8count := 0 } = d.image := by
        rw [SfDir.image, hzero]
      refine ⟨_, hreplace, ⟨himage ▸ hholds, ?_, ?_, ?_, ?_, h.nodup, h.plain, h.bigInums⟩,
        hkeeps⟩
      · rw [hkeeps.dsize]
        exact h.dsize_le
      · rw [hkeeps.iMount]
        exact h.dirblksize_le
      · rw [hkeeps.dsize]
        exact h.fits
      · rw [hkeeps.iMount]
        exact h.room

end XfsDirInode

end Xfsd
