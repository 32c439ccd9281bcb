import Xfsd.OnDisk.Dir2SfAdd

/-!
# XFSD - Where a new name goes

The decision of {lit}`xfs_dir2_sf_addname_pick` and the whole of {lit}`xfs_dir2_sf_addname`: an
entry is added where a directory in block form would have room for it, and is refused exactly
where there is no such place or the inode has no room.

Main results:

- Theorem {lit}`XfsDirInode.Holds.pick_eq`: the decision.
- Structure {lit}`XfsDirInode.Stores`: an inode with a directory that passes all checks.
- Theorems {lit}`XfsDirInode.Stores.addname_refused`, {lit}`XfsDirInode.Stores.addname_checked`
  and {lit}`XfsDirInode.Stores.addname_added`: what adding a name does.
-/

namespace Xfsd

open Foundation

/-! ## Room in a block -/

/-- Where the leaf entries and the tail of a block with these entries would end, with two leaf
entries for the special names. -/
def blockEnd (es : List SfEntry) : Nat :=
  endOffset xfsDir2DataFirstOffset es + (es.length + 2) * 8 + 8

/-- The entries have room in a block. -/
structure RoomIn (dirblksize : Int) (es : List SfEntry) : Prop where
  ordered : Ordered xfsDir2DataFirstOffset es
  end_le : blockEnd es ≤ dirblksize

section Room

variable {dirblksize : Int} {es before after : List SfEntry} {e : SfEntry} {size : Nat}

/-- An entry in a hole moves nothing, and an entry at the end comes last. -/
theorem RoomIn.insert (h : RoomIn dirblksize (before ++ after))
    (hoffset : e.offset.toNat = endOffset xfsDir2DataFirstOffset before)
    (hhole : ∀ x ∈ after.head?, e.offset.toNat + e.dataEntsize ≤ x.offset.toNat)
    (hroom : ((blockEnd (before ++ after) + 8 +
      if after = [] then e.dataEntsize else 0 : Nat) : Int) ≤ dirblksize) :
    RoomIn dirblksize (before ++ e :: after) := by
  rcases ordered_append_iff.mp h.ordered with ⟨hbefore, hafter⟩
  cases after with
  | nil =>
      refine ⟨ordered_append_iff.mpr ⟨hbefore, hoffset.ge, trivial⟩, ?_⟩
      simp only [blockEnd, endOffset_append, List.append_nil, if_true, List.length_append,
        List.length_cons, List.length_nil] at hroom ⊢
      simp only [endOffset]
      omega
  | cons x xs =>
      have hx := hhole x rfl
      refine ⟨ordered_append_iff.mpr ⟨hbefore, hoffset.ge, hx, hafter.2⟩, ?_⟩
      simp only [blockEnd, endOffset_append, List.length_append, List.length_cons, endOffset,
        reduceCtorEq, if_false] at hroom ⊢
      omega

/-- Taking an entry out leaves room. -/
theorem RoomIn.remove (h : RoomIn dirblksize (before ++ e :: after)) :
    RoomIn dirblksize (before ++ after) := by
  rcases ordered_append_iff.mp h.ordered with ⟨hbefore, hrest⟩
  have hdrop : endOffset xfsDir2DataFirstOffset before ≤ e.offset.toNat + e.dataEntsize :=
    hrest.1.trans (Nat.le_add_right _ _)
  have hend : blockEnd (before ++ after) ≤ blockEnd (before ++ e :: after) := by
    rw [blockEnd, blockEnd, endOffset_append, endOffset_append, List.length_append,
      List.length_append, List.length_cons, endOffset]
    cases after with
    | nil =>
        rw [endOffset, endOffset]
        omega
    | cons x xs =>
        rw [endOffset, endOffset]
        omega
  refine ⟨ordered_append_iff.mpr ⟨hbefore, Ordered.mono hrest.2 hdrop⟩, ?_⟩
  exact (Int.ofNat_le.mpr hend).trans h.end_le

/-- Where an entry is, there was room for it. -/
theorem RoomIn.of_insert (h : RoomIn dirblksize (before ++ e :: after)) :
    ((blockEnd (before ++ after) + 8 +
      if (splitHole e.dataEntsize xfsDir2DataFirstOffset (before ++ after)).2 = [] then
        e.dataEntsize else 0 : Nat) : Int) ≤ dirblksize := by
  have hend := h.end_le
  rcases ordered_append_iff.mp h.ordered with ⟨-, hle, hrest⟩
  rw [blockEnd, endOffset_append, endOffset, List.length_append, List.length_cons] at hend
  rw [blockEnd, endOffset_append, List.length_append]
  cases after with
  | nil =>
      rw [endOffset, List.length_nil] at hend ⊢
      split <;> omega
  | cons x xs =>
      rw [if_neg (splitHole_ne_nil ((Nat.add_le_add_right hle _).trans hrest.1))]
      rw [endOffset] at hend ⊢
      omega

end Room

/-! ## The decision -/

namespace XfsDirInode

variable {b : Build} {k : Kernel} {dp : XfsDirInode} {d : SfImage} {args : XfsDaArgs}
  {e : SfEntry}

/-- The decision, on a directory in an inode. -/
theorem Holds.pick_eq (h : dp.Holds d) (hargs : args.Asks e) (objchange : Bool) :
    xfsDir2SfAddnamePick b dp args objchange =
      if dp.iMount.mDirblksize.toInt < (blockEnd d.entries + 8 +
          if (splitHole e.dataEntsize xfsDir2DataFirstOffset d.entries).2 = [] then e.dataEntsize
          else 0 : Nat) then .wontFit
      else if b.xfsBigInums ∧ objchange then .hard
      else if dp.iMount.mDirblksize.toInt < (blockEnd d.entries + 8 + e.dataEntsize : Nat) then
        .hard
      else .easy d.encode.length (endOffset xfsDir2DataFirstOffset d.entries) := by
  have hread := h.hdr
  have hsize : xfsDir2DataEntsize args.name.length = e.dataEntsize := by
    rw [hargs.name, SfEntry.dataEntsize]
  have hused : endOffset xfsDir2DataFirstOffset d.entries + (d.entries.length + 3) * 8 + 8 =
      blockEnd d.entries + 8 := by
    rw [blockEnd]
    omega
  rw [xfsDir2SfAddnamePick]
  simp only [hread.count, hread.firstentry, hsize, pickLoop_eq h.entries, hused, Bool.false_or,
    Bool.not_eq_true', List.isEmpty_eq_false_iff, ite_not, SfImage.length_encode, Nat.cast_add]

end XfsDirInode

/-! ## Directories in inodes -/

/-- A directory with its own counter. -/
def SfDir.image (d : SfDir) : SfImage where
  i8count := d.i8count
  parent := d.parent
  entries := d.entries

theorem SfDir.image_valid (d : SfDir) : d.image.Valid :=
  ⟨d.parent_lt, d.count_le, d.i8count_le, id⟩

/-- The names of the directory itself and of its parent. -/
def SpecialName (name : List Byte) : Prop :=
  name = [dot] ∨ name = [dot, dot]

instance : DecidablePred SpecialName :=
  fun _ => inferInstanceAs (Decidable (_ ∨ _))

/-- The inode holds a directory that passes all checks: its entries have room in the inode and
in a block, and have names of their own. -/
structure XfsDirInode.Stores (b : Build) (dp : XfsDirInode) (d : SfDir) : Prop where
  holds : dp.Holds d.image
  dsize_le : (xfsIforkDsize dp.toXfsInode).toInt ≤ 2040
  dirblksize_le : dp.iMount.mDirblksize.toInt ≤ 65536
  fits : (d.encode.length : Int) ≤ (xfsIforkDsize dp.toXfsInode).toInt
  room : RoomIn dp.iMount.mDirblksize.toInt d.entries
  nodup : (d.entries.map SfEntry.name).Nodup
  plain : ∀ e ∈ d.entries, ¬SpecialName e.name
  bigInums : d.i8count ≠ 0 → b.xfsBigInums = true

/-- The entry has an inode number above 32 bits. -/
def SfEntry.IsBig (e : SfEntry) : Prop :=
  xfsDir2MaxShortInum < e.ino

instance : DecidablePred SfEntry.IsBig :=
  fun _ => inferInstanceAs (Decidable (_ < _))

theorem xfsDir2MaxShortInum_lt_iff {ino : BitVec 64} :
    xfsDir2MaxShortInum < ino ↔ 2 ^ 32 ≤ ino.toNat := by
  rw [BitVec.lt_def, xfsDir2MaxShortInum]
  simp only [BitVec.toNat_ofNat]
  omega

section Sizes

variable {d : SfImage} {e : SfEntry} {before after : List SfEntry}

theorem length_le_sum_names (es : List SfEntry) :
    es.length ≤ (es.map fun e => e.name.length).sum := by
  induction es with
  | nil => simp
  | cons e es ih =>
      have hpos := e.name_pos
      simp only [List.map_cons, List.sum_cons, List.length_cons]
      omega

/-- A directory that fits an inode has few entries. -/
theorem SfImage.count_le_of_length (h : d.encode.length ≤ 2040) : d.entries.length ≤ 254 := by
  have hnames := length_le_sum_names d.entries
  rw [length_encode_eq] at h
  split at h <;> omega

/-- How many numbers are wide with one more entry. -/
theorem bigCount_insert (parent : BitVec 64) (before : List SfEntry) (e : SfEntry)
    (after : List SfEntry) :
    bigCount (parent :: (before ++ e :: after).map SfEntry.ino) =
      bigCount (parent :: (before ++ after).map SfEntry.ino) + if e.IsBig then 1 else 0 := by
  have hbig : e.IsBig ↔ 2 ^ 32 ≤ e.ino.toNat := xfsDir2MaxShortInum_lt_iff
  simp only [bigCount, List.map_append, List.map_cons, List.countP_cons, List.countP_append,
    decide_eq_true_eq, hbig]
  omega

/-- The size of the directory with one more entry, wherever it goes. -/
theorem length_addEntry (hentries : d.entries = before ++ after) (counted : Bool) :
    (d.addEntry counted before e after).encode.length =
      2 + (d.entries.length + 2) *
          (if d.i8count + (if counted then 1 else 0) = 0 then 4 else 8) +
        ((d.entries.length + 1) * 3 +
          ((d.entries.map fun e => e.name.length).sum + e.name.length)) := by
  have hcount : before.length + (after.length + 1) + 1 = before.length + after.length + 2 := by
    omega
  rw [SfImage.length_encode_eq, hentries]
  simp only [SfImage.addEntry, List.length_append, List.length_cons, List.map_append,
    List.map_cons, List.sum_append, List.sum_cons, hcount]
  by_cases hzero : (d.i8count + if counted then 1 else 0) = 0 <;>
    simp only [hzero, if_true, if_false] <;> omega

/-- The place of the entry does not matter for the size. -/
theorem length_addEntry_congr (hentries : d.entries = before ++ after) (counted : Bool) :
    (d.addEntry counted before e after).encode.length =
      (d.addEntry counted d.entries e []).encode.length :=
  (length_addEntry hentries counted).trans
    (length_addEntry (List.append_nil _).symm counted).symm

/-- The offset of the entry does not matter for the size. -/
theorem length_addEntry_offset (hentries : d.entries = before ++ after) (counted : Bool)
    (offset : BitVec 16) :
    (d.addEntry counted before { e with offset := offset } after).encode.length =
      (d.addEntry counted before e after).encode.length := by
  rw [length_addEntry hentries, length_addEntry hentries]

/-- Numbers are as wide as before unless the first wide one comes. -/
theorem wide_addEntry {counted : Bool} (h : counted = true → d.i8count ≠ 0) :
    (d.addEntry counted before e after).wide = d.wide := by
  rw [SfImage.wide, SfImage.wide, SfImage.addEntry]
  cases counted with
  | false => rfl
  | true => simp [h rfl]

end Sizes

namespace XfsDirInode

variable {b : Build} {k : Kernel} {dp : XfsDirInode} {d : SfImage} {args : XfsDaArgs}
  {e : SfEntry} {before after : List SfEntry}

/-- The size that {lit}`xfs_dir2_sf_addname` computes is the size of the new directory. -/
theorem Holds.newIsize_eq (h : dp.Holds d) (hargs : args.Asks e)
    (hentries : d.entries = before ++ after) {objchange : Bool}
    (hobj : objchange = decide (e.IsBig ∧ d.i8count = 0)) :
    dp.isize + (xfsDir2SfEntsizeInt dp.iDf.bytes 0 args.name.length +
        if objchange then ((sfHdrCount dp.iDf.bytes 0).toNat + 2) * (8 - 4) else 0) =
      (d.addEntry (decide e.IsBig) before e after).encode.length := by
  rw [h.isize, entsize_eq h hargs, h.hdr.count, SfImage.length_encode_eq,
    SfEntry.length_encode, length_addEntry hentries]
  by_cases hbig : e.IsBig <;> by_cases hzero : d.i8count = 0 <;>
    simp [SfImage.wide, hbig, hzero, hobj] <;> omega

end XfsDirInode

/-! ## Adding a name -/

/-- The caller only asks whether there is room. -/
def XfsDaArgs.JustChecks (args : XfsDaArgs) : Prop :=
  args.opFlags &&& xfsDaOpJustcheck ≠ 0

instance : DecidablePred XfsDaArgs.JustChecks :=
  fun _ => inferInstanceAs (Decidable (_ ≠ _))

/-- An entry has room in the inode, and in the first hole of a block or behind its entries. -/
structure SfDir.HasRoom (d : SfDir) (dp : XfsDirInode) (e : SfEntry) : Prop where
  inode : ((d.image.addEntry (decide e.IsBig) d.entries e []).encode.length : Int) ≤
    (xfsIforkDsize dp.toXfsInode).toInt
  block : ((blockEnd d.entries + 8 +
    if (splitHole e.dataEntsize xfsDir2DataFirstOffset d.entries).2 = [] then e.dataEntsize
    else 0 : Nat) : Int) ≤ dp.iMount.mDirblksize.toInt

/-- The offset of the entry does not matter for the room. -/
theorem SfDir.HasRoom.withOffset {d : SfDir} {dp : XfsDirInode} {e : SfEntry}
    (h : d.HasRoom dp e) (offset : BitVec 16) : d.HasRoom dp { e with offset := offset } where
  inode := by
    have hlength := length_addEntry_offset (d := d.image) (e := e) (List.append_nil _).symm
      (decide e.IsBig) offset
    exact (Int.ofNat_le.mpr hlength.le).trans h.inode
  block := h.block

/-- The directory has one more entry, at an offset of its own. -/
structure SfDir.Adds (d d' : SfDir) (e : SfEntry) : Prop where
  parent : d'.parent = d.parent
  entries : ∃ before after offset, d.entries = before ++ after ∧
    d'.entries = before ++ { e with offset := offset } :: after

namespace XfsDirInode

variable {b : Build} {k : Kernel} {dp dp' : XfsDirInode} {d : SfDir} {args : XfsDaArgs}
  {e : SfEntry} {before after : List SfEntry}

/-- The directory with one more entry. -/
theorem Stores.exists_insert (h : dp.Stores b d) (hroom : d.HasRoom dp e)
    (hentries : d.entries = before ++ after) :
    ∃ d' : SfDir, d'.parent = d.parent ∧ d'.entries = before ++ e :: after ∧
      d'.image = d.image.addEntry (decide e.IsBig) before e after := by
  have hlength : (d.image.addEntry (decide e.IsBig) before e after).encode.length ≤ 2040 := by
    refine (length_addEntry_congr (d := d.image) hentries _).trans_le ?_
    exact Int.ofNat_le.mp (hroom.inode.trans h.dsize_le)
  have hcount : (before ++ e :: after).length ≤ 254 := SfImage.count_le_of_length hlength
  have hbig := bigCount_insert d.parent before e after
  rw [← hentries] at hbig
  have hle : bigCount (d.parent :: (before ++ e :: after).map SfEntry.ino) ≤ 255 := by
    refine List.countP_le_length.trans ?_
    rw [List.length_cons, List.length_map]
    omega
  refine ⟨⟨d.parent, before ++ e :: after, d.parent_lt, by omega, hle⟩, rfl, rfl, ?_⟩
  simp only [SfDir.image, SfImage.addEntry, SfDir.i8count, hbig, decide_eq_true_eq]

/-- An inode that holds a directory with one more entry, in a place for it. -/
theorem Stores.of_insert (h : dp.Stores b d) (hkeeps : dp.Keeps dp') {d' : SfDir}
    (hparent : d'.parent = d.parent) (hentries' : d'.entries = before ++ e :: after)
    (hentries : d.entries = before ++ after) (hholds : dp'.Holds d'.image)
    (hfits : (d'.encode.length : Int) ≤ (xfsIforkDsize dp.toXfsInode).toInt)
    (hroom : RoomIn dp.iMount.mDirblksize.toInt (before ++ e :: after))
    (hfresh : ∀ x ∈ d.entries, x.name ≠ e.name) (hplain : ¬SpecialName e.name)
    (hb : e.IsBig → b.xfsBigInums = true) : dp'.Stores b d' := by
  have hnodup := h.nodup
  have hold := h.plain
  rw [hentries] at hnodup hold hfresh
  refine ⟨hholds, ?_, ?_, ?_, ?_, ?_, ?_, ?_⟩
  · rw [hkeeps.dsize]
    exact h.dsize_le
  · rw [hkeeps.iMount]
    exact h.dirblksize_le
  · rw [hkeeps.dsize]
    exact hfits
  · rw [hkeeps.iMount, hentries']
    exact hroom
  · rw [hentries', List.map_append, List.map_cons, List.nodup_middle, List.nodup_cons,
      ← List.map_append]
    refine ⟨fun hmem => ?_, hnodup⟩
    rcases List.mem_map.mp hmem with ⟨x, hx, hname⟩
    exact hfresh x hx hname
  · intro x hx
    rw [hentries'] at hx
    rcases List.mem_append.mp hx with hx | hx
    · exact hold x (List.mem_append_left _ hx)
    · rcases List.mem_cons.mp hx with rfl | hx
      · exact hplain
      · exact hold x (List.mem_append_right _ hx)
  · intro hne
    by_cases hbig : e.IsBig
    · exact hb hbig
    · refine h.bigInums fun hzero => hne ?_
      rw [SfDir.i8count, hparent, hentries', bigCount_insert, if_neg hbig, ← hentries]
      exact hzero

/-- An offset in a block fits its bytes. -/
theorem toNat_ofNat_offset {n : Nat} (h : n < 2 ^ 16) : (BitVec.ofNat 16 n).toNat = n := by
  rw [BitVec.toNat_ofNat, Nat.mod_eq_of_lt h]

/-- The place that the hard way finds. -/
theorem Stores.exists_place (h : dp.Stores b d) (hroom : d.HasRoom dp e) :
    ∃ before after offset,
      splitHole e.dataEntsize xfsDir2DataFirstOffset d.entries = (before, after) ∧
      d.entries = before ++ after ∧
      offset.toNat = endOffset xfsDir2DataFirstOffset before ∧
      RoomIn dp.iMount.mDirblksize.toInt (before ++ { e with offset := offset } :: after) := by
  rcases hsplit : splitHole e.dataEntsize xfsDir2DataFirstOffset d.entries with ⟨before, after⟩
  have hblock := hroom.block
  have hentries : d.entries = before ++ after := by
    have happend := splitHole_append e.dataEntsize xfsDir2DataFirstOffset d.entries
    rw [hsplit] at happend
    exact happend.symm
  rw [hsplit] at hblock
  have hhole : ∀ x ∈ after.head?, endOffset xfsDir2DataFirstOffset before + e.dataEntsize ≤
      x.offset.toNat := by
    intro x hx
    rcases List.head?_eq_some_iff.mp hx with ⟨xs, hxs⟩
    have hcons : (splitHole e.dataEntsize xfsDir2DataFirstOffset d.entries).2 = x :: xs := by
      rw [hsplit]
      exact hxs
    have hle := le_of_splitHole hcons
    rwa [hsplit] at hle
  have hlt : endOffset xfsDir2DataFirstOffset before < 2 ^ 16 := by
    cases hafter : after with
    | nil =>
        have hle := hblock.trans h.dirblksize_le
        rw [hentries, hafter, List.append_nil, blockEnd] at hle
        omega
    | cons x xs =>
        have hle := hhole x (by rw [hafter]; rfl)
        exact ((Nat.le_add_right _ _).trans hle).trans_lt x.offset.isLt
  have hoffset := toNat_ofNat_offset hlt
  refine ⟨before, after, _, rfl, hentries, hoffset, ?_⟩
  rw [hentries] at hblock
  refine RoomIn.insert (hentries ▸ h.room) hoffset (fun x hx => ?_) hblock
  exact (Nat.add_le_add_right hoffset.le _).trans (hhole x hx)

section Steps

variable (h : dp.Stores b d) (hk : k.StoresBe16)
  (hb : xfsDir2MaxShortInum < args.inumber → b.xfsBigInums = true)
  (hargs : args.Asks e) (hroom : d.HasRoom dp e) (hfresh : ∀ x ∈ d.entries, x.name ≠ e.name)
  (hplain : ¬SpecialName e.name)

include h hk hb hargs hroom hfresh hplain

/-- The easy way adds the entry when a block has room behind the others. -/
theorem Stores.addEasy (hwide : ¬(e.IsBig ∧ d.i8count = 0))
    (hend : ((blockEnd d.entries + 8 + e.dataEntsize : Nat) : Int) ≤
      dp.iMount.mDirblksize.toInt) {newIsize : Int}
    (hnew : newIsize = (d.image.addEntry (decide e.IsBig) d.entries e []).encode.length) :
    ∃ dp' d', xfsDir2SfAddnameEasy b k dp args d.image.encode.length
        (endOffset xfsDir2DataFirstOffset d.entries) newIsize = dp' ∧
      d.Adds d' e ∧ dp'.Stores b d' ∧ dp.Keeps dp' := by
  have hlt : endOffset xfsDir2DataFirstOffset d.entries < 2 ^ 16 := by
    have hle := hend.trans h.dirblksize_le
    rw [blockEnd] at hle
    omega
  let e' : SfEntry := { e with
    offset := BitVec.ofNat 16 (endOffset xfsDir2DataFirstOffset d.entries) }
  have hoffset : e'.offset.toNat = endOffset xfsDir2DataFirstOffset d.entries :=
    toNat_ofNat_offset hlt
  have hentries : d.entries = d.entries ++ [] := (List.append_nil _).symm
  have hroom' : d.HasRoom dp e' := hroom.withOffset _
  rcases h.exists_insert hroom' hentries with ⟨d', hparent, hentries', himage⟩
  have hadmits : d.image.Admits (decide e'.IsBig) d.image.entries e' [] :=
    ⟨hentries, himage ▸ d'.image_valid,
      wide_addEntry fun hbig hzero => hwide ⟨of_decide_eq_true hbig, hzero⟩⟩
  have hargs' : args.Asks e' := ⟨hargs.name, hargs.inumber⟩
  rcases h.holds.addnameEasy hk hb hargs' rfl hadmits with ⟨hholds, hkeeps⟩
  have hsize : newIsize =
      (d.image.addEntry (decide e'.IsBig) d.image.entries e' []).encode.length :=
    hnew.trans (congrArg Nat.cast (length_addEntry_offset (d := d.image) hentries _ _).symm)
  rw [hoffset] at hholds hkeeps
  subst hsize
  refine ⟨_, d', rfl, ⟨hparent, _, _, _, hentries, hentries'⟩, ?_, hkeeps⟩
  have hplace : RoomIn dp.iMount.mDirblksize.toInt (d.entries ++ e' :: []) := by
    rw [hentries] at hend
    refine RoomIn.insert (hentries ▸ h.room) hoffset (by simp) ?_
    rw [if_pos rfl]
    exact hend
  refine h.of_insert hkeeps hparent hentries' hentries (himage ▸ hholds) ?_ hplace hfresh hplain ?_
  · have hlength : d'.encode.length = d'.image.encode.length := rfl
    rw [hlength, himage]
    exact hroom'.inode
  · intro hbig
    exact hb (hargs.inumber ▸ hbig)

/-- The hard way adds the entry in the first hole, or at the end, also when the other numbers
have been made wide for it. -/
theorem Stores.addHard {dp₁ : XfsDirInode} {d₁ : SfImage} {objchange : Bool}
    (h₁ : dp₁.Holds d₁) (hkeeps₁ : dp.Keeps dp₁) (hparent₁ : d₁.parent = d.parent)
    (hentries₁ : d₁.entries = d.entries)
    (hcount₁ : d₁.i8count + (if e.IsBig ∧ ¬objchange then 1 else 0) =
      d.i8count + if e.IsBig then 1 else 0)
    (hwide₁ : e.IsBig ∧ ¬objchange → d₁.i8count ≠ 0) {newIsize : Int}
    (hnew : newIsize = (d.image.addEntry (decide e.IsBig) d.entries e []).encode.length)
    {fuel : Nat} (hfuel : d.entries.length < fuel) :
    ∃ dp' d', xfsDir2SfAddnameHard b k fuel dp₁ args objchange newIsize = some dp' ∧
      d.Adds d' e ∧ dp'.Stores b d' ∧ dp.Keeps dp' := by
  rcases h.exists_place hroom with ⟨before, after, offset, hsplit, hentries, hoffset, hplace⟩
  let e' : SfEntry := { e with offset := offset }
  have hroom' : d.HasRoom dp e' := hroom.withOffset _
  rcases h.exists_insert hroom' hentries with ⟨d', hparent, hentries', himage⟩
  have himage₁ : d₁.addEntry (decide (e'.IsBig ∧ ¬objchange)) before e' after = d'.image := by
    rw [himage]
    simp only [SfImage.addEntry, decide_eq_true_eq, hparent₁]
    congr 1
  have hadmits : d₁.Admits (decide (e'.IsBig ∧ ¬objchange)) before e' after :=
    ⟨hentries₁.trans hentries, himage₁ ▸ d'.image_valid,
      wide_addEntry fun hcounted => hwide₁ (of_decide_eq_true hcounted)⟩
  have hargs' : args.Asks e' := ⟨hargs.name, hargs.inumber⟩
  have hsize : newIsize =
      (d₁.addEntry (decide (e'.IsBig ∧ ¬objchange)) before e' after).encode.length := by
    rw [himage₁, himage, hnew]
    refine congrArg Nat.cast ?_
    exact ((length_addEntry_offset (d := d.image) hentries _ _).trans
      (length_addEntry_congr (d := d.image) hentries _)).symm
  subst hsize
  rcases h₁.addnameHard hk hb hargs' rfl (hentries₁ ▸ hsplit) hoffset hadmits
    (hentries₁ ▸ hfuel) with ⟨dp', hdp', hholds, hkeeps⟩
  refine ⟨dp', d', hdp', ⟨hparent, _, _, _, hentries, hentries'⟩, ?_, hkeeps₁.trans hkeeps⟩
  refine h.of_insert (hkeeps₁.trans hkeeps) hparent hentries' hentries (himage₁ ▸ hholds) ?_
    hplace hfresh hplain ?_
  · have hlength : d'.encode.length =
        (d.image.addEntry (decide e'.IsBig) before e' after).encode.length := by
      rw [← himage]
      rfl
    rw [hlength, length_addEntry_congr (d := d.image) hentries]
    exact hroom'.inode
  · intro hbig
    exact hb (hargs.inumber ▸ hbig)

end Steps

/-! ## The whole function -/

/-- The function on an inode with a directory, with its conditions on the directory itself. -/
theorem Stores.addname_eq (h : dp.Stores b d) (hargs : args.Asks e)
    (hb : xfsDir2MaxShortInum < args.inumber → b.xfsBigInums = true) (k : Kernel) (fuel : Nat) :
    let objchange : Bool := decide (e.IsBig ∧ d.i8count = 0)
    let newIsize : Int := (d.image.addEntry (decide e.IsBig) d.entries e []).encode.length
    let pick :=
      if (xfsIforkDsize dp.toXfsInode).toInt < newIsize then .wontFit
      else xfsDir2SfAddnamePick b dp args objchange
    xfsDir2SfAddname b k fuel dp args =
      match pick with
      | .wontFit =>
          if args.JustChecks ∨ args.total = 0 then some (.returned .enospc dp)
          else some (.toBlock dp)
      | .easy sfep offset =>
          if args.JustChecks then some (.returned .ok dp)
          else some (.returned .ok (xfsDir2SfAddnameEasy b k dp args sfep offset newIsize))
      | .hard =>
          if args.JustChecks then some (.returned .ok dp)
          else
            let dp := if objchange then xfsDir2SfToino8 k dp else dp
            (xfsDir2SfAddnameHard b k fuel dp args objchange newIsize).map (.returned .ok ·) := by
  intro objchange newIsize pick
  have hlength := d.image.length_encode_pos
  have hi8count : sfHdrI8count dp.iDf.bytes 0 = 0 ↔ d.i8count = 0 := by
    have hread := h.holds.hdr.i8count
    rw [show d.image.i8count = d.i8count from rfl] at hread
    constructor
    · intro hzero
      rw [← hread, hzero]
      rfl
    · intro hzero
      exact BitVec.eq_of_toNat_eq (hread.trans hzero)
  have hobj : (decide (b.xfsBigInums ∧ xfsDir2MaxShortInum < args.inumber ∧
      sfHdrI8count dp.iDf.bytes 0 = 0)) = objchange := by
    refine decide_eq_decide.mpr ?_
    rw [hi8count, SfEntry.IsBig, ← hargs.inumber]
    exact ⟨fun hall => hall.2, fun hall => ⟨hb hall.1, hall⟩⟩
  have hnew := h.holds.newIsize_eq hargs (List.append_nil d.entries).symm
    (show objchange = decide (e.IsBig ∧ d.image.i8count = 0) from rfl)
  rw [xfsDir2SfAddname, if_neg h.holds.not_belowParent]
  simp only [hobj]
  rw [hnew]
  have hbig : (b.xfsBigInums = true ∧ objchange = true) = (objchange = true) := by
    refine propext ⟨And.right, fun hobjchange => ⟨hb ?_, hobjchange⟩⟩
    exact hargs.inumber ▸ (of_decide_eq_true hobjchange).1
  simp only [hbig]
  rfl

/-- The decision, with the size of the inode taken into account. -/
theorem Stores.pick_cases (h : dp.Stores b d) (hargs : args.Asks e)
    (hb : xfsDir2MaxShortInum < args.inumber → b.xfsBigInums = true) :
    let pick :=
      if (xfsIforkDsize dp.toXfsInode).toInt <
        ((d.image.addEntry (decide e.IsBig) d.entries e []).encode.length : Int) then .wontFit
      else xfsDir2SfAddnamePick b dp args (decide (e.IsBig ∧ d.i8count = 0))
    (¬d.HasRoom dp e ∧ pick = .wontFit) ∨
      (d.HasRoom dp e ∧ pick = .hard) ∨
      (d.HasRoom dp e ∧ ¬(e.IsBig ∧ d.i8count = 0) ∧
        ((blockEnd d.entries + 8 + e.dataEntsize : Nat) : Int) ≤ dp.iMount.mDirblksize.toInt ∧
        pick = .easy d.image.encode.length (endOffset xfsDir2DataFirstOffset d.entries)) := by
  intro pick
  have hpick := h.holds.pick_eq (b := b) hargs (decide (e.IsBig ∧ d.i8count = 0))
  by_cases hinode : (xfsIforkDsize dp.toXfsInode).toInt <
      ((d.image.addEntry (decide e.IsBig) d.entries e []).encode.length : Int)
  · exact .inl ⟨fun hroom => absurd hroom.inode (not_le.mpr hinode), if_pos hinode⟩
  have hpick' : pick = xfsDir2SfAddnamePick b dp args (decide (e.IsBig ∧ d.i8count = 0)) :=
    if_neg hinode
  by_cases hblock : dp.iMount.mDirblksize.toInt < (blockEnd d.entries + 8 +
      if (splitHole e.dataEntsize xfsDir2DataFirstOffset d.entries).2 = [] then e.dataEntsize
      else 0 : Nat)
  · refine .inl ⟨fun hroom => absurd hroom.block (not_le.mpr hblock), ?_⟩
    rw [hpick', hpick]
    exact if_pos hblock
  have hroom : d.HasRoom dp e := ⟨not_lt.mp hinode, not_lt.mp hblock⟩
  have hpick'' := hpick.trans (if_neg hblock)
  by_cases hobj : e.IsBig ∧ d.i8count = 0
  · refine .inr (.inl ⟨hroom, ?_⟩)
    rw [hpick', hpick'', if_pos ⟨hb (hargs.inumber ▸ hobj.1), decide_eq_true hobj⟩]
  rw [if_neg fun hall => hobj (of_decide_eq_true hall.2)] at hpick''
  by_cases hend : dp.iMount.mDirblksize.toInt < (blockEnd d.entries + 8 + e.dataEntsize : Nat)
  · exact .inr (.inl ⟨hroom, hpick'.trans (hpick''.trans (if_pos hend))⟩)
  · exact .inr (.inr ⟨hroom, hobj, not_lt.mp hend, hpick'.trans (hpick''.trans (if_neg hend))⟩)

section Outcomes

variable (h : dp.Stores b d) (hargs : args.Asks e)
  (hb : xfsDir2MaxShortInum < args.inumber → b.xfsBigInums = true)

include h hargs hb

/-- Where the entry has no room it is refused, or the directory is to be converted to block
form. -/
theorem Stores.addname_refused (hroom : ¬d.HasRoom dp e) (k : Kernel) (fuel : Nat) :
    xfsDir2SfAddname b k fuel dp args =
      some (if args.JustChecks ∨ args.total = 0 then .returned .enospc dp else .toBlock dp) := by
  rcases h.pick_cases hargs hb with ⟨-, hpick⟩ | ⟨hroom', -⟩ | ⟨hroom', -⟩
  · rw [h.addname_eq hargs hb k fuel]
    dsimp only at hpick ⊢
    rw [hpick]
    dsimp only
    split <;> rfl
  · exact absurd hroom' hroom
  · exact absurd hroom' hroom

/-- A caller that only asks learns that there is room. -/
theorem Stores.addname_checked (hroom : d.HasRoom dp e) (hjust : args.JustChecks) (k : Kernel)
    (fuel : Nat) : xfsDir2SfAddname b k fuel dp args = some (.returned .ok dp) := by
  rw [h.addname_eq hargs hb k fuel]
  rcases h.pick_cases hargs hb with ⟨hnone, -⟩ | ⟨-, hpick⟩ | ⟨-, -, -, hpick⟩
  · exact absurd hroom hnone
  · dsimp only at hpick ⊢
    rw [hpick]
    exact if_pos hjust
  · dsimp only at hpick ⊢
    rw [hpick]
    exact if_pos hjust

/-- Otherwise the inode holds the directory with the entry. -/
theorem Stores.addname_added (hk : k.StoresBe16) (hroom : d.HasRoom dp e)
    (hjust : ¬args.JustChecks) (hfresh : ∀ x ∈ d.entries, x.name ≠ e.name)
    (hplain : ¬SpecialName e.name) {fuel : Nat} (hfuel : d.entries.length < fuel) :
    ∃ dp' d', xfsDir2SfAddname b k fuel dp args = some (.returned .ok dp') ∧
      d.Adds d' e ∧ dp'.Stores b d' ∧ dp.Keeps dp' := by
  have heq := h.addname_eq hargs hb k fuel
  rcases h.pick_cases hargs hb with ⟨hnone, -⟩ | ⟨-, hpick⟩ | ⟨-, hobj, hend, hpick⟩
  · exact absurd hroom hnone
  · dsimp only at hpick heq
    rw [hpick] at heq
    simp only [if_neg hjust] at heq
    by_cases hobj : e.IsBig ∧ d.i8count = 0
    · -- the other numbers are made wide first
      rcases h.holds.toino8 k hobj.2 with ⟨hholds, hkeeps⟩
      have hcount : 1 + (if e.IsBig ∧ ¬(true : Bool) then 1 else 0) =
          d.i8count + if e.IsBig then 1 else 0 := by
        simp [hobj.1, hobj.2]
      rcases h.addHard hk hb hargs hroom hfresh hplain hholds hkeeps rfl rfl hcount
        (fun _ => Nat.one_ne_zero) rfl hfuel with ⟨dp', d', hdp', hadds, hstores, hkeeps'⟩
      refine ⟨dp', d', ?_, hadds, hstores, hkeeps'⟩
      rw [heq, decide_eq_true hobj, if_pos rfl, hdp', Option.map_some]
    · have hcount : d.i8count + (if e.IsBig ∧ ¬(false : Bool) then 1 else 0) =
          d.i8count + if e.IsBig then 1 else 0 := by
        simp
      rcases h.addHard hk hb hargs hroom hfresh hplain h.holds (.refl dp) rfl rfl hcount
        (fun hbig hzero => hobj ⟨hbig.1, hzero⟩) rfl hfuel with
        ⟨dp', d', hdp', hadds, hstores, hkeeps'⟩
      refine ⟨dp', d', ?_, hadds, hstores, hkeeps'⟩
      rw [heq, decide_eq_false hobj, if_neg (by decide), hdp', Option.map_some]
  · dsimp only at hpick heq
    rw [hpick] at heq
    simp only [if_neg hjust] at heq
    rcases h.addEasy hk hb hargs hroom hfresh hplain hobj hend rfl with
      ⟨dp', d', hdp', hadds, hstores, hkeeps⟩
    exact ⟨dp', d', by rw [heq, hdp'], hadds, hstores, hkeeps⟩

end Outcomes

end XfsDirInode

end Xfsd
