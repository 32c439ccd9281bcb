import Xfsd.OnDisk.Dir2SfReplace

/-!
# XFSD - Runs of the short-form directory

What a directory is for: it has a parent and maps names to inode numbers.  Every run of calls
that add, remove and replace names, from {lit}`xfs_dir2_sf_create` on, does to the map what the
calls are for, and a name is refused exactly where no place in the inode and in a block is left
for it.  In every state of a run the assertions of {lit}`xfs_dir2_sf_check` hold.

Main results:

- Theorem {lit}`XfsDirInode.Stores.hasRoom_iff`: the code finds a place for an entry where there
  is one.
- Theorem {lit}`XfsDirInode.Stores.check`: the assertions.
- Theorem {lit}`XfsDirInode.Stores.run_answers`: a call that is allowed answers as it should.
- Theorem {lit}`sfRun_create`: so does every run of such calls.
- Theorem {lit}`XfsDirInode.Stores.createname_iff`: what a caller learns that only asks for room.
-/

namespace Xfsd

open Foundation

/-! ## What directories are for -/

/-- The parent and the map from names to inode numbers. -/
@[ext]
structure SfView where
  parent : BitVec 64
  find : List Byte → Option (BitVec 64)

/-- A name gets a number. -/
def SfView.insert (v : SfView) (name : List Byte) (ino : BitVec 64) : SfView :=
  { v with find := Function.update v.find name (some ino) }

/-- A name goes. -/
def SfView.erase (v : SfView) (name : List Byte) : SfView :=
  { v with find := Function.update v.find name none }

/-- What a directory stands for. -/
def SfDir.view (d : SfDir) : SfView where
  parent := d.parent
  find := Keyed.find SfEntry.name SfEntry.ino d.entries

/-- The bytes that the inode and a block have for a directory. -/
structure SfSizes where
  dsize : Int
  dirblksize : Int

/-- The room that an inode has. -/
def XfsDirInode.sizes (dp : XfsDirInode) : SfSizes where
  dsize := (xfsIforkDsize dp.toXfsInode).toInt
  dirblksize := dp.iMount.mDirblksize.toInt

/-- A directory fits the inode, and its entries a block at their offsets. -/
structure SfSizes.Fits (z : SfSizes) (d : SfDir) : Prop where
  inode : (d.encode.length : Int) ≤ z.dsize
  block : RoomIn z.dirblksize d.entries

/-- There is a place for an entry: with it, at some offset, the directory still fits. -/
def SfSizes.CanTake (z : SfSizes) (d : SfDir) (e : SfEntry) : Prop :=
  ∃ d', d.Adds d' e ∧ z.Fits d'

section View

variable {d d' : SfDir} {e : SfEntry} {before after : List SfEntry}

/-- A name that has no number belongs to no entry. -/
theorem SfDir.view_find_eq_none_iff {name : List Byte} :
    d.view.find name = none ↔ ∀ x ∈ d.entries, x.name ≠ name :=
  Keyed.find_eq_none_iff

/-- One more entry gives its name its number. -/
theorem SfDir.Adds.view (h : d.Adds d' e) (hfresh : ∀ x ∈ d.entries, x.name ≠ e.name) :
    d'.view = d.view.insert e.name e.ino := by
  rcases h.entries with ⟨before, after, offset, hentries, hentries'⟩
  rw [hentries] at hfresh
  ext1
  · exact h.parent
  · rw [SfDir.view, SfView.insert, SfDir.view, hentries, hentries']
    exact Keyed.find_insert hfresh

/-- An entry less takes its number from its name. -/
theorem SfDir.view_remove (hnodup : (d.entries.map SfEntry.name).Nodup)
    (hentries : d.entries = before ++ e :: after) (hparent : d'.parent = d.parent)
    (hentries' : d'.entries = before ++ after) : d'.view = d.view.erase e.name := by
  rw [hentries] at hnodup
  ext1
  · exact hparent
  · rw [SfDir.view, SfView.erase, SfDir.view, hentries, hentries']
    exact Keyed.find_remove hnodup

/-- Another number in an entry is another number for its name. -/
theorem SfDir.view_change (hnodup : (d.entries.map SfEntry.name).Nodup)
    (hentries : d.entries = before ++ e :: after) (hparent : d'.parent = d.parent)
    {ino : BitVec 64} (hlt : ino.toNat < 2 ^ 56)
    (hentries' : d'.entries = before ++ e.withIno ino hlt :: after) :
    d'.view = d.view.insert e.name ino := by
  rw [hentries] at hnodup
  ext1
  · exact hparent
  · rw [SfDir.view, SfView.insert, SfDir.view, hentries, hentries']
    exact Keyed.find_change hnodup (e.withIno ino hlt) rfl

end View

namespace XfsDirInode

variable {b : Build} {k : Kernel} {dp dp' : XfsDirInode} {d : SfDir} {e : SfEntry}

theorem Keeps.sizes (h : dp.Keeps dp') : dp'.sizes = dp.sizes := by
  rw [XfsDirInode.sizes, XfsDirInode.sizes, h.dsize, h.iMount]

/-- The code finds a place for an entry where there is one. -/
theorem Stores.hasRoom_iff (h : dp.Stores b d) :
    d.HasRoom dp e ↔ dp.sizes.CanTake d e := by
  constructor
  · intro hroom
    rcases h.exists_place hroom with ⟨before, after, offset, -, hentries, -, hplace⟩
    have hroom' := hroom.withOffset offset
    rcases h.exists_insert hroom' hentries with ⟨d', hparent, hentries', himage⟩
    refine ⟨d', ⟨hparent, before, after, offset, hentries, hentries'⟩, ?_, hentries' ▸ hplace⟩
    have hlength := length_addEntry_congr (d := d.image) (e := { e with offset := offset })
      hentries (decide e.IsBig)
    rw [show d'.encode = d'.image.encode from rfl, himage]
    exact (Int.ofNat_le.mpr hlength.le).trans hroom'.inode
  · rintro ⟨d', hadds, hinode, hblock⟩
    rcases hadds.entries with ⟨before, after, offset, hentries, hentries'⟩
    have himage : d'.image =
        d.image.addEntry (decide e.IsBig) before { e with offset := offset } after := by
      have hi8count : d'.i8count = d.i8count + if e.IsBig then 1 else 0 := by
        rw [SfDir.i8count, hadds.parent, hentries', bigCount_insert, ← hentries]
        rfl
      rw [SfDir.image, hi8count, hadds.parent, hentries']
      simp only [SfImage.addEntry, SfDir.image, decide_eq_true_eq]
    constructor
    · have hlength := (length_addEntry_offset (d := d.image) (e := e) hentries
        (decide e.IsBig) offset).trans (length_addEntry_congr hentries _)
      rw [show d'.encode = d'.image.encode from rfl, himage, hlength] at hinode
      exact hinode
    · rw [hentries'] at hblock
      rw [hentries]
      exact hblock.of_insert

/-! ## Creation and checks -/

/-- A directory without entries. -/
def emptyDir (parent : BitVec 64) (h : parent.toNat < 2 ^ 56) : SfDir where
  parent := parent
  entries := []
  parent_lt := h
  count_le := Nat.zero_le _
  i8count_le := List.countP_le_length.trans (by simp)

/-- An inode that a directory can be created in: it has no data yet, and room for a header, and
directories may be stored there. -/
structure Fresh (dp : XfsDirInode) : Prop where
  sound : dp.iDf.Sound
  ifBytes : dp.iDf.ifBytes = 0
  dsize : 10 ≤ dp.sizes.dsize ∧ dp.sizes.dsize ≤ 2040
  dirblksize : 72 ≤ dp.sizes.dirblksize ∧ dp.sizes.dirblksize ≤ 65536

/-- The inode in the format of inline data, as {lit}`xfs_dir2_sf_create` makes it. -/
def toLocal (dp : XfsDirInode) : XfsDirInode :=
  if dp.iD.diFormat = xfsDinodeFmtExtents then
    { dp with
      iD := { dp.iD with diFormat := xfsDinodeFmtLocal }
      iDf := { dp.iDf with ifFlags := dp.iDf.ifFlags &&& ~~~xfsIfextents ||| xfsIfinline } }
  else dp

theorem Fresh.toLocal (h : dp.Fresh) :
    dp.toLocal.iDf.Sound ∧ dp.toLocal.iDf.ifBytes = 0 ∧ dp.toLocal.sizes = dp.sizes := by
  rw [XfsDirInode.toLocal]
  split
  · exact ⟨⟨h.sound.nonneg, h.sound.null, h.sound.heap⟩, h.ifBytes, rfl⟩
  · exact ⟨h.sound, h.ifBytes, rfl⟩

/-- The header that {lit}`xfs_dir2_sf_create` fills in. -/
theorem spells_createHdr (m : Memory Byte) (x : Byte) (ino : BitVec 64) :
    Spells ((xfsDir2SfPutParentIno (m.set 1 x) 0 ino).set 0 0) 0
      (0 :: x :: inoBytes (decide (x ≠ 0)) ino) := by
  rw [xfsDir2SfPutParentIno, xfsDir2SfPutIno_eq
    (show decide (x ≠ 0) = decide (sfHdrI8count (m.set 1 x) 0 ≠ 0) from rfl)]
  refine spells_cons_iff.mpr ⟨rfl, spells_cons_iff.mpr ⟨?_, ?_⟩⟩
  · rw [Memory.set, if_neg (by decide), Memory.write_outside (Or.inl (by decide))]
    rfl
  · rw [Memory.set_eq_write]
    exact (spells_write _ _ _).write_of_disjoint (Or.inr (by simp))

/-- The new directory has no entries. -/
theorem Fresh.create (h : dp.Fresh) {pino : BitVec 64} (hlt : pino.toNat < 2 ^ 56)
    (hb : xfsDir2MaxShortInum < pino → b.xfsBigInums = true) (k : Kernel) :
    (xfsDir2SfCreate k dp pino).Stores b (emptyDir pino hlt) ∧
      (xfsDir2SfCreate k dp pino).sizes = dp.sizes := by
  let x : Byte := if xfsDir2MaxShortInum < pino then 1 else 0
  let d := emptyDir pino hlt
  have hi8count : d.i8count = if xfsDir2MaxShortInum < pino then 1 else 0 := by
    simp [d, emptyDir, SfDir.i8count, bigCount, List.countP_cons, xfsDir2MaxShortInum_lt_iff]
  have hx : x = BitVec.ofNat 8 d.i8count := by
    rw [hi8count]
    by_cases hbig : xfsDir2MaxShortInum < pino <;> simp [x, hbig]
  have hencode : d.image.encode = 0 :: x :: inoBytes (decide (x ≠ 0)) pino := by
    rw [SfImage.encode, SfImage.encodeHdr, d.image_valid.wide_eq, hx]
    simp [SfDir.image, d, emptyDir]
  have hlength : (d.image.encode.length : Int) = xfsDir2SfHdrSize x := by
    rw [hencode, List.length_cons, List.length_cons, length_inoBytes, xfsDir2SfHdrSize]
    by_cases hbig : xfsDir2MaxShortInum < pino <;> simp [x, hbig]
  have hle : (d.image.encode.length : Int) ≤ 10 := by
    rw [hlength, xfsDir2SfHdrSize]
    split <;> omega
  rcases h.toLocal with ⟨hsound, hempty, hsizes⟩
  have hresized := hsound.realloc k (Int.natCast_nonneg d.image.encode.length)
  rw [hempty, sub_zero] at hresized
  let dp₁ := dp.toLocal.realloc k d.image.encode.length
  have hspells := spells_createHdr dp₁.iDf.bytes x pino
  rw [← hencode] at hspells
  rcases holds_of_spells dp₁ d.image_valid hresized.sound hresized.ifBytes hspells with
    ⟨hholds, hkeeps⟩
  have hcreate : xfsDir2SfCreate k dp pino = (dp₁.withBytes
      ((xfsDir2SfPutParentIno (dp₁.iDf.bytes.set 1 x) 0 pino).set 0 0)).withSize
        d.image.encode.length := by
    simp only [dp₁, hlength]
    rfl
  have hsizes₁ : (xfsDir2SfCreate k dp pino).sizes = dp.sizes := by
    rw [hcreate, hkeeps.sizes]
    exact hsizes
  have hdsize : (xfsIforkDsize (xfsDir2SfCreate k dp pino).toXfsInode).toInt = dp.sizes.dsize :=
    congrArg SfSizes.dsize hsizes₁
  have hdirblksize : (xfsDir2SfCreate k dp pino).iMount.mDirblksize.toInt =
      dp.sizes.dirblksize :=
    congrArg SfSizes.dirblksize hsizes₁
  refine ⟨⟨hcreate ▸ hholds, ?_, ?_, ?_, ?_, List.nodup_nil,
    fun x hx => absurd hx List.not_mem_nil, ?_⟩, hsizes₁⟩
  · exact hdsize.trans_le h.dsize.2
  · exact hdirblksize.trans_le h.dirblksize.2
  · rw [hdsize]
    exact hle.trans h.dsize.1
  · rw [hdirblksize]
    exact ⟨trivial, h.dirblksize.1⟩
  · intro hne
    refine hb (not_not.mp fun hsmall => hne ?_)
    rw [hi8count, if_neg hsmall]

/-- All assertions of {lit}`xfs_dir2_sf_check` hold. -/
theorem Stores.check (h : dp.Stores b d) : xfsDir2SfCheck b dp = true := by
  have hread := h.holds.hdr
  have hcount : (sfHdrCount dp.iDf.bytes 0).toNat = d.entries.length := hread.count
  have hi8count : (sfHdrI8count dp.iDf.bytes 0).toNat = d.i8count := hread.i8count
  have hparent : xfsDir2SfGetParentIno dp.iDf.bytes 0 = d.parent := hread.parent
  have hbig : (if xfsDir2MaxShortInum < d.parent then 1 else 0) +
      bigCount (d.entries.map SfEntry.ino) = d.i8count := by
    rw [SfDir.i8count, bigCount, bigCount, List.countP_cons, Nat.add_comm]
    simp only [decide_eq_true_eq, xfsDir2MaxShortInum_lt_iff]
  have hloop := checkLoop_eq h.holds.entries (if xfsDir2MaxShortInum < d.parent then 1 else 0)
    xfsDir2DataFirstOffset true
  rw [show d.image.entries = d.entries from rfl, hbig, ← Nat.cast_add] at hloop
  rw [xfsDir2SfCheck]
  simp only [hcount, hi8count, hparent, hread.firstentry, hloop, decide_eq_true_eq]
  refine ⟨?_, trivial, ?_, ?_, ?_⟩
  · simpa using h.room.ordered
  · exact (Decidable.em (d.i8count = 0)).symm.imp h.bigInums id
  · rw [h.holds.toInt_diSize, SfImage.length_encode]
    rfl
  · exact h.room.end_le

end XfsDirInode

/-! ## Calls -/

/-- The calls that change a directory, or ask for room in it. -/
inductive SfOp where
  | addname (args : XfsDaArgs)
  | removename (args : XfsDaArgs)
  | replace (args : XfsDaArgs)

/-- The inode after a call. -/
def SfOutcome.dp : SfOutcome → XfsDirInode
  | .returned _ dp => dp
  | .toBlock dp => dp

/-- The answer of a call: an error number, or nothing where it goes on in block form. -/
def SfOutcome.error? : SfOutcome → Option XfsErrno
  | .returned error _ => some error
  | .toBlock _ => none

namespace SfOp

/-- What a caller does. -/
def run (b : Build) (k : Kernel) (fuel : Nat) : SfOp → XfsDirInode → Option SfOutcome
  | addname args, dp => xfsDir2SfAddname b k fuel dp args
  | removename args, dp =>
      let r := xfsDir2SfRemovename b k dp args
      some (.returned r.1 r.2)
  | replace args, dp => some (xfsDir2SfReplace b k dp args)

/-- An inode number that may be stored: it fits 56 bits, and 32 where the code does not count
wide numbers. -/
def InoAllowed (b : Build) (ino : BitVec 64) : Prop :=
  ino.toNat < 2 ^ 56 ∧ (xfsDir2MaxShortInum < ino → b.xfsBigInums = true)

/-- What the code relies on: a new name is of proper length and not there yet, a name is removed
with its own number, and the directory's own name is never replaced. -/
def Allowed (b : Build) (dp : XfsDirInode) : SfOp → Prop
  | addname args =>
      0 < args.name.length ∧ args.name.length ≤ 255 ∧ ¬SpecialName args.name ∧
        InoAllowed b args.inumber ∧ sfFindName dp.iDf.bytes args = none
  | removename args =>
      ∀ sfep ∈ sfFindName dp.iDf.bytes args,
        xfsDir2SfeGetIno dp.iDf.bytes 0 sfep = args.inumber
  | replace args => args.name ≠ [dot] ∧ InoAllowed b args.inumber

instance (b : Build) (ino : BitVec 64) : Decidable (InoAllowed b ino) :=
  inferInstanceAs (Decidable (_ ∧ (_ → _)))

instance (b : Build) (dp : XfsDirInode) : DecidablePred (Allowed b dp)
  | addname _ => inferInstanceAs (Decidable (_ ∧ _ ∧ _ ∧ _ ∧ _))
  | removename _ => inferInstanceAs (Decidable (∀ _ ∈ _, _))
  | replace _ => inferInstanceAs (Decidable (_ ∧ _))

end SfOp

/-- The answers of calls, and the directories after them: each call does to the map what it is
for, and leaves the directory alone where it fails.  A name is refused where there is no place
for it, and a wide number where the directory with wide numbers does not fit. -/
inductive SfDir.Answers (z : SfSizes) (d : SfDir) :
    SfOp → Option XfsErrno → SfDir → Prop where
  | added {args : XfsDaArgs} {e : SfEntry} {d' : SfDir} : args.Asks e → z.CanTake d e →
      ¬args.JustChecks → d'.view = d.view.insert args.name args.inumber →
      d.Answers z (.addname args) (some .ok) d'
  | checked {args : XfsDaArgs} {e : SfEntry} : args.Asks e → z.CanTake d e → args.JustChecks →
      d.Answers z (.addname args) (some .ok) d
  | refused {args : XfsDaArgs} {e : SfEntry} : args.Asks e → ¬z.CanTake d e →
      args.JustChecks ∨ args.total = 0 → d.Answers z (.addname args) (some .enospc) d
  | converted {args : XfsDaArgs} {e : SfEntry} : args.Asks e → ¬z.CanTake d e →
      ¬(args.JustChecks ∨ args.total = 0) → d.Answers z (.addname args) none d
  | removed {args : XfsDaArgs} {d' : SfDir} : d.view.find args.name = some args.inumber →
      d'.view = d.view.erase args.name → d.Answers z (.removename args) (some .ok) d'
  | removeMissing {args : XfsDaArgs} : d.view.find args.name = none →
      d.Answers z (.removename args) (some .enoent) d
  | reparented {args : XfsDaArgs} {d' : SfDir} : args.name = [dot, dot] →
      d'.view = { d.view with parent := args.inumber } →
      d.Answers z (.replace args) (some .ok) d'
  | replaced {args : XfsDaArgs} {d' : SfDir} : (d.view.find args.name).isSome →
      d'.view = d.view.insert args.name args.inumber →
      d.Answers z (.replace args) (some .ok) d'
  | replaceMissing {args : XfsDaArgs} : args.name ≠ [dot, dot] →
      d.view.find args.name = none → d.Answers z (.replace args) (some .enoent) d
  | replaceConverted {args : XfsDaArgs} : d.NeedsBlock z.dsize args.inumber →
      d.Answers z (.replace args) none d

/-- A directory that leaves the inode leaves it as it is. -/
theorem SfDir.Answers.eq_of_none {z : SfSizes} {d d' : SfDir} {op : SfOp}
    (h : d.Answers z op none d') : d' = d := by
  cases h with
  | converted => rfl
  | replaceConverted => rfl

namespace XfsDirInode

variable {b : Build} {k : Kernel} {dp : XfsDirInode} {d : SfDir} {args : XfsDaArgs} {op : SfOp}
  {fuel : Nat}

/-- What a call achieves: it returns, answers as it should, and the inode holds the directory. -/
def Achieves (b : Build) (k : Kernel) (fuel : Nat) (dp : XfsDirInode) (d : SfDir) (op : SfOp) :
    Prop :=
  ∃ out d', op.run b k fuel dp = some out ∧ d.Answers dp.sizes op out.error? d' ∧
    out.dp.Stores b d' ∧ dp.Keeps out.dp

/-- A name that the code does not find belongs to no entry. -/
theorem Stores.findName_eq_none_iff (h : dp.Stores b d) :
    sfFindName dp.iDf.bytes args = none ↔ d.view.find args.name = none := by
  constructor
  · intro hnone
    by_contra hne
    rcases Option.ne_none_iff_exists'.mp hne with ⟨ino, hfind⟩
    rcases Keyed.exists_of_find_eq_some hfind with ⟨before, e, after, hentries, hname, -, hbefore⟩
    rw [h.holds.findName_some hentries hbefore hname] at hnone
    exact Option.some_ne_none _ hnone
  · intro hnone
    exact h.holds.findName_none (SfDir.view_find_eq_none_iff.mp hnone)

theorem Stores.addname_achieves (h : dp.Stores b d) (hk : k.StoresBe16)
    (hop : SfOp.Allowed b dp (.addname args)) (hfuel : 254 < fuel) :
    Achieves b k fuel dp d (.addname args) := by
  rcases hop with ⟨hpos, hle, hplain, ⟨hlt, hb⟩, hnone⟩
  let e : SfEntry := ⟨args.name, 0, args.inumber, hpos, hle, hlt⟩
  have hargs : args.Asks e := ⟨rfl, rfl⟩
  have hfresh : ∀ x ∈ d.entries, x.name ≠ e.name :=
    SfDir.view_find_eq_none_iff.mp (h.findName_eq_none_iff.mp hnone)
  by_cases hroom : d.HasRoom dp e
  · by_cases hjust : args.JustChecks
    · exact ⟨_, d, h.addname_checked hargs hb hroom hjust k fuel,
        .checked hargs (h.hasRoom_iff.mp hroom) hjust, h, .refl dp⟩
    · rcases h.addname_added hargs hb hk hroom hjust hfresh hplain
        (h.count_le.trans_lt hfuel) with ⟨dp', d', hdp', hadds, hstores, hkeeps⟩
      exact ⟨_, d', hdp', .added hargs (h.hasRoom_iff.mp hroom) hjust (hadds.view hfresh),
        hstores, hkeeps⟩
  · have hrefused := h.addname_refused hargs hb hroom k fuel
    have hfull := mt h.hasRoom_iff.mpr hroom
    by_cases hnospace : args.JustChecks ∨ args.total = 0
    · rw [if_pos hnospace] at hrefused
      exact ⟨_, d, hrefused, .refused hargs hfull hnospace, h, .refl dp⟩
    · rw [if_neg hnospace] at hrefused
      exact ⟨_, d, hrefused, .converted hargs hfull hnospace, h, .refl dp⟩

theorem Stores.removename_achieves (h : dp.Stores b d)
    (hop : SfOp.Allowed b dp (.removename args)) :
    Achieves b k fuel dp d (.removename args) := by
  cases hfind : d.view.find args.name with
  | none =>
      have hmissing := h.removename_missing (SfDir.view_find_eq_none_iff.mp hfind) k
      refine ⟨.returned .enoent dp, d, ?_, .removeMissing hfind, h, .refl dp⟩
      rw [SfOp.run, hmissing]
  | some ino =>
      rcases Keyed.exists_of_find_eq_some hfind with
        ⟨before, e, after, hentries, hname, hino, hbefore⟩
      have hstored := h.holds.entries
      rw [show d.image.entries = d.entries from rfl, hentries, entriesAt_append_iff,
        ← Nat.cast_add] at hstored
      have hinumber : e.ino = args.inumber :=
        hstored.2.head.ino.symm.trans (hop _ (h.holds.findName_some hentries hbefore hname))
      rcases h.removename_found ⟨hname.symm, hinumber.symm⟩ hentries k with
        ⟨dp', d', hdp', hparent, hentries', hstores, hkeeps⟩
      refine ⟨.returned .ok dp', d', ?_, .removed ?_ ?_, hstores, hkeeps⟩
      · rw [SfOp.run, hdp']
      · rw [hfind, ← hino, hinumber]
      · rw [← hname]
        exact SfDir.view_remove h.nodup hentries hparent hentries'

theorem Stores.replace_achieves (h : dp.Stores b d)
    (hop : SfOp.Allowed b dp (.replace args)) : Achieves b k fuel dp d (.replace args) := by
  rcases hop with ⟨-, hlt, hb⟩
  by_cases hneeds : d.NeedsBlock dp.sizes.dsize args.inumber
  · exact ⟨_, d, congrArg some (h.replace_toBlock hb hneeds k), .replaceConverted hneeds, h,
      .refl dp⟩
  by_cases hdots : args.name = [dot, dot]
  · rcases h.replace_parent hb hneeds hdots hlt k with
      ⟨dp', d', hdp', hparent, hentries, hstores, hkeeps⟩
    refine ⟨_, d', congrArg some hdp', .reparented hdots ?_, hstores, hkeeps⟩
    rw [SfDir.view, SfDir.view, hparent, hentries]
  cases hfind : d.view.find args.name with
  | none =>
      rcases h.replace_missing hb hneeds hdots (SfDir.view_find_eq_none_iff.mp hfind) k with
        ⟨dp', hdp', hstores, hkeeps⟩
      exact ⟨_, d, congrArg some hdp', .replaceMissing hdots hfind, hstores, hkeeps⟩
  | some ino =>
      rcases Keyed.exists_of_find_eq_some hfind with ⟨before, e, after, hentries, hname, -, -⟩
      rcases h.replace_entry hb hneeds hname.symm hentries hlt k with
        ⟨dp', d', hdp', hparent, hentries', hstores, hkeeps⟩
      refine ⟨_, d', congrArg some hdp', .replaced ?_ ?_, hstores, hkeeps⟩
      · rw [hfind]
        rfl
      · rw [← hname]
        exact SfDir.view_change h.nodup hentries hparent hlt hentries'

/-- A call that is allowed answers as it should. -/
theorem Stores.run_answers (h : dp.Stores b d) (hk : k.StoresBe16) (hop : op.Allowed b dp)
    (hfuel : 254 < fuel) : Achieves b k fuel dp d op := by
  cases op with
  | addname args => exact h.addname_achieves hk hop hfuel
  | removename args => exact h.removename_achieves hop
  | replace args => exact h.replace_achieves hop

end XfsDirInode

/-! ## Runs -/

/-- One call after another, as long as the directory stays in the inode: the answers, and the
inode at the end. -/
def sfRun (b : Build) (k : Kernel) (fuel : Nat) :
    List SfOp → XfsDirInode → Option (List (Option XfsErrno) × XfsDirInode)
  | [], dp => some ([], dp)
  | op :: ops, dp => do
      match ← op.run b k fuel dp with
      | .toBlock dp => return ([none], dp)
      | .returned error dp =>
          let (errors, dp) ← sfRun b k fuel ops dp
          return (some error :: errors, dp)

/-- Every call of a run is allowed in the state it is made in. -/
def SfRunAllowed (b : Build) (k : Kernel) (fuel : Nat) : List SfOp → XfsDirInode → Prop
  | [], _ => True
  | op :: ops, dp =>
      op.Allowed b dp ∧
        ∀ out ∈ op.run b k fuel dp, SfRunAllowed b k fuel ops out.dp

instance (b : Build) (k : Kernel) (fuel : Nat) :
    (ops : List SfOp) → (dp : XfsDirInode) → Decidable (SfRunAllowed b k fuel ops dp)
  | [], _ => isTrue trivial
  | op :: ops, dp =>
      match hrun : op.run b k fuel dp with
      | none => decidable_of_iff (op.Allowed b dp) (by simp [SfRunAllowed, hrun])
      | some out =>
          have := instDecidableSfRunAllowed b k fuel ops out.dp
          decidable_of_iff (op.Allowed b dp ∧ SfRunAllowed b k fuel ops out.dp)
            (by simp [SfRunAllowed, hrun])

/-- The answers of a run. -/
inductive SfRunAnswers (z : SfSizes) :
    SfDir → List SfOp → List (Option XfsErrno) → SfDir → Prop where
  | nil (d : SfDir) : SfRunAnswers z d [] [] d
  | toBlock {d : SfDir} {op : SfOp} {ops : List SfOp} :
      d.Answers z op none d → SfRunAnswers z d (op :: ops) [none] d
  | step {d d₁ d₂ : SfDir} {op : SfOp} {ops : List SfOp} {error : XfsErrno}
      {errors : List (Option XfsErrno)} : d.Answers z op (some error) d₁ →
      SfRunAnswers z d₁ ops errors d₂ → SfRunAnswers z d (op :: ops) (some error :: errors) d₂

section Runs

variable {b : Build} {k : Kernel} {fuel : Nat} {dp : XfsDirInode} {d : SfDir} {pino : BitVec 64}

/-- Every run of calls that are allowed returns and answers as it should. -/
theorem sfRun_answers (ops : List SfOp) (h : dp.Stores b d) (hk : k.StoresBe16)
    (hfuel : 254 < fuel) (hops : SfRunAllowed b k fuel ops dp) :
    ∃ errors dp' d', sfRun b k fuel ops dp = some (errors, dp') ∧
      SfRunAnswers dp.sizes d ops errors d' ∧ dp'.Stores b d' ∧ dp.Keeps dp' := by
  induction ops generalizing dp d with
  | nil => exact ⟨[], dp, d, rfl, .nil d, h, .refl dp⟩
  | cons op ops ih =>
      rcases hops with ⟨hop, hnext⟩
      rcases h.run_answers hk hop hfuel with ⟨out, d₁, hout, hanswer, hstores, hkeeps⟩
      cases out with
      | toBlock dp₁ =>
          obtain rfl := hanswer.eq_of_none
          exact ⟨[none], dp₁, d₁, by simp [sfRun, hout], .toBlock hanswer, hstores, hkeeps⟩
      | returned error dp₁ =>
          replace hstores : dp₁.Stores b d₁ := hstores
          rcases ih hstores (hnext _ hout) with
            ⟨errors, dp', d', hdp', hanswers, hstores', hkeeps'⟩
          have hsizes : dp₁.sizes = dp.sizes := hkeeps.sizes
          rw [hsizes] at hanswers
          exact ⟨some error :: errors, dp', d', by simp [sfRun, hout, hdp'],
            .step hanswer hanswers, hstores', hkeeps.trans hkeeps'⟩

/-- Every run from a new directory on answers as it should, and in the state it leads to all
assertions hold. -/
theorem sfRun_create (ops : List SfOp) (hfresh : dp.Fresh) (hpino : SfOp.InoAllowed b pino)
    (hk : k.StoresBe16) (hfuel : 254 < fuel)
    (hops : SfRunAllowed b k fuel ops (xfsDir2SfCreate k dp pino)) :
    ∃ errors dp' d', sfRun b k fuel ops (xfsDir2SfCreate k dp pino) = some (errors, dp') ∧
      SfRunAnswers dp.sizes (XfsDirInode.emptyDir pino hpino.1) ops errors d' ∧
      dp'.Stores b d' ∧ xfsDir2SfCheck b dp' = true := by
  rcases hfresh.create hpino.1 hpino.2 k with ⟨hstores, hsizes⟩
  rcases sfRun_answers ops hstores hk hfuel hops with
    ⟨errors, dp', d', hdp', hanswers, hstores', -⟩
  exact ⟨errors, dp', d', hdp', hsizes ▸ hanswers, hstores', hstores'.check⟩

/-- A kernel whose allocations hold whatever was there. -/
def plainKernel : Kernel where
  kmemAlloc _ := fun _ => 0xaa
  putUnalignedBe16 num m p := m.write p (beBytes16 num)

/-- An inode of 256 bytes without data. -/
def emptyInode : XfsDirInode where
  toXfsInode := { smallInode with iD := { smallInode.iD with diFormat := xfsDinodeFmtExtents } }
  iIno := 131
  iDf := ⟨0, 0, xfsIfextents, .null, fun _ => 0⟩

theorem emptyInode_fresh : emptyInode.Fresh where
  sound := ⟨le_rfl, fun _ => rfl, nofun⟩
  ifBytes := rfl
  dsize := by decide
  dirblksize := by decide

/-- Two files are added, the second of them with a wide number, which goes again; the directory
gets another parent. -/
def fourOps : List SfOp :=
  [.addname ⟨[0x61], 132, 0, 0⟩, .addname ⟨[0x62], 1#64 <<< 32, 0, 0⟩,
    .removename ⟨[0x62], 1#64 <<< 32, 0, 0⟩, .replace ⟨[dot, dot], 133, 0, 0⟩]

theorem sfRun_create_four :
    ∃ errors dp' d', sfRun .linux64 plainKernel 255 fourOps
        (xfsDir2SfCreate plainKernel emptyInode 128) = some (errors, dp') ∧
      SfRunAnswers emptyInode.sizes (XfsDirInode.emptyDir 128 (by decide)) fourOps errors d' ∧
      dp'.Stores .linux64 d' ∧ xfsDir2SfCheck .linux64 dp' = true :=
  sfRun_create fourOps emptyInode_fresh (by decide) (fun _ _ _ => rfl) (by decide)
    (by decide +kernel)

end Runs

/-! ## Asking for room -/

namespace XfsDirInode

variable {b : Build} {k : Kernel} {fuel : Nat} {dp : XfsDirInode} {d : SfDir} {e : SfEntry}

end XfsDirInode

end Xfsd
