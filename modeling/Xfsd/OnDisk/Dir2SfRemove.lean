import Xfsd.Foundation.KeyedList
import Xfsd.OnDisk.Dir2SfAddname

/-!
# XFSD - Removing names from short-form directories

Stores into a directory that leave its length alone or shorten it, the counter of wide inode
numbers after one of them has gone, and the function {lit}`xfs_dir2_sf_removename`.

Main results:

- Theorem {lit}`XfsDirInode.Holds.countDown`: one wide number less is counted.
- Theorems {lit}`XfsDirInode.Stores.removename_found` and
  {lit}`XfsDirInode.Stores.removename_missing`: removing a name.
-/

namespace Xfsd

open Foundation

namespace XfsDirInode

variable {b : Build} {k : Kernel} {dp dp' : XfsDirInode} {d d' : SfImage} {args : XfsDaArgs}
  {e : SfEntry} {before after : List SfEntry} {m : Memory Byte}

/-! ## Stores into a directory -/

/-- Bytes of the same length in the same fork. -/
theorem Holds.withBytes (h : dp.Holds d) (hd' : d'.Valid)
    (hlength : d'.encode.length = d.encode.length) (hm : Spells m 0 d'.encode) :
    (dp.withBytes m).Holds d' ∧ dp.Keeps (dp.withBytes m) := by
  have hpos := d.length_encode_pos
  have hbytes := h.ifBytes
  rcases h.sound.withBytes (by omega) m with ⟨hsound, hm', hbytes', hflags⟩
  refine ⟨⟨hd', hsound, ?_, ?_, ?_⟩, rfl, rfl, rfl, hflags⟩
  · change Spells (dp.iDf.withBytes m).bytes 0 d'.encode
    rw [hm']
    exact hm
  · rw [hlength]
    exact hbytes'.trans hbytes
  · rw [hlength]
    exact h.diSize

/-- Fewer bytes in a fork that is made smaller. -/
theorem Holds.shrink (h : dp.Holds d) (k : Kernel) (hd' : d'.Valid)
    (hlength : d'.encode.length ≤ d.encode.length) (hm : Spells m 0 d'.encode) :
    let dp' := ((dp.withBytes m).withSize d'.encode.length).realloc k
      ((d'.encode.length : Int) - d.encode.length)
    dp'.Holds d' ∧ dp.Keeps dp' := by
  intro dp'
  have hpos := d.length_encode_pos
  have hbytes := h.ifBytes
  rcases h.sound.withBytes (by omega) m with ⟨hsound, hm', hbytes', hflags⟩
  have hresized := hsound.realloc k (Int.natCast_nonneg d'.encode.length)
  rw [hbytes', hbytes] at hresized
  refine ⟨⟨hd', hresized.sound, ?_, hresized.ifBytes, rfl⟩, rfl, rfl, rfl,
    hresized.ifFlags.trans hflags⟩
  have hkept := hresized.kept
  rw [hm', hbytes', hbytes] at hkept
  exact hm.of_agreeOn (hkept.mono le_rfl (by omega))

/-- The counter byte of a directory in an inode. -/
theorem Holds.i8countByte_iff (h : dp.Holds d) : dp.iDf.bytes 1 = 1 ↔ d.i8count = 1 := by
  have hread := h.hdr.i8count
  constructor
  · intro hone
    rw [← hread]
    exact congrArg BitVec.toNat hone
  · intro hone
    exact BitVec.eq_of_toNat_eq (hread.trans hone)

/-- The bytes of a directory with another counter of the same width. -/
theorem Holds.withI8count (h : dp.Holds d) {i8count : Nat} (hle : i8count ≤ 255)
    (hne : d.i8count ≠ 0) (hne' : i8count ≠ 0) {x : Byte} (hx : x = BitVec.ofNat 8 i8count) :
    (dp.withBytes (dp.iDf.bytes.set 1 x)).Holds { d with i8count := i8count } ∧
      dp.Keeps (dp.withBytes (dp.iDf.bytes.set 1 x)) := by
  have hwide : SfImage.wide { d with i8count := i8count } = d.wide := by
    simp [SfImage.wide, hne, hne']
  refine h.withBytes ⟨h.valid.parent_lt, h.valid.count_le, hle, fun hzero => absurd hzero hne'⟩
    ?_ ?_
  · simp only [SfImage.length_encode_eq, hne, hne', if_false]
  · rw [SfImage.encode, hwide, SfImage.encodeHdr_eq, hwide, hx]
    exact spells_set_i8count h.spells _

/-- One wide number less is counted, and the last one makes all numbers narrow. -/
theorem Holds.countDown (h : dp.Holds d) (k : Kernel) (hpos : d.i8count = d.big + 1) :
    (countDown k dp).Holds { d with i8count := d.big } ∧ dp.Keeps (countDown k dp) := by
  have hle := h.valid.i8count_le
  rw [Xfsd.countDown]
  by_cases hone : d.i8count = 1
  · have hbig : d.big = 0 := by omega
    rw [if_pos (h.i8countByte_iff.mpr hone), hbig]
    exact h.toino4 k hone hbig
  · rw [if_neg (mt h.i8countByte_iff.mp hone)]
    refine h.withI8count (by omega) (by omega) (by omega) ?_
    rw [show dp.iDf.bytes 1 = BitVec.ofNat 8 d.i8count from h.hdr.i8countByte, hpos,
      BitVec.ofNat_add]
    exact BitVec.add_sub_cancel _ _

/-! ## Removing a name -/

/-- The search for a name that an entry has. -/
theorem Holds.findName_some (h : dp.Holds d) (hentries : d.entries = before ++ e :: after)
    (hbefore : ∀ x ∈ before, x.name ≠ args.name) (hname : e.name = args.name) :
    sfFindName dp.iDf.bytes args =
      some ((d.encodeHdr.length +
        (before.flatMap (SfEntry.encode d.wide)).length : Nat) : Int) := by
  have hstored := h.entries
  rw [hentries] at hstored
  rw [sfFindName, h.hdr.count, h.hdr.firstentry, hentries]
  exact sfFind_eq_some hstored hbefore hname

/-- The search for a name that no entry has. -/
theorem Holds.findName_none (h : dp.Holds d) (hne : ∀ x ∈ d.entries, x.name ≠ args.name) :
    sfFindName dp.iDf.bytes args = none := by
  rw [sfFindName, h.hdr.count, h.hdr.firstentry]
  exact sfFind_eq_none h.entries hne

/-- The bytes of the directory after the rest has been moved over an entry and the entries have
been counted. -/
theorem spells_remove (hentries : d.entries = before ++ e :: after)
    (hentries' : d'.entries = before ++ after) (hparent : d'.parent = d.parent)
    (hi8count : d'.i8count = d.i8count) (hm : Spells m 0 d.encode) {byteoff : Nat}
    (hbyteoff : byteoff = d.encodeHdr.length + (before.flatMap (SfEntry.encode d.wide)).length) :
    let entsize : Int := (e.encode d.wide).length
    let m' :=
      if byteoff + entsize < d.encode.length then
        m.copyFrom byteoff m (byteoff + entsize)
          ((d.encode.length : Int) - (byteoff + entsize)).toNat
      else m
    Spells (m'.set 0 (m' 0 - 1)) 0 d'.encode := by
  intro entsize m'
  let front := d.encodeHdr ++ before.flatMap (SfEntry.encode d.wide)
  let back := after.flatMap (SfEntry.encode d.wide)
  have hfront_length : front.length = byteoff := List.length_append.trans hbyteoff.symm
  have hencode : d.encode = front ++ (e.encode d.wide ++ back) := by
    rw [SfImage.encode, hentries, List.flatMap_append, List.flatMap_cons, ← List.append_assoc]
  have hlength : d.encode.length = byteoff + (e.encode d.wide).length + back.length := by
    rw [hencode, hbyteoff]
    simp only [front, List.length_append]
    omega
  rw [hencode] at hm
  rcases spells_append_iff.mp hm with ⟨hfront, hrest⟩
  have hback := (spells_append_iff.mp hrest).2
  rw [zero_add, hfront_length] at hback
  have hm' : Spells m' 0 (front ++ back) := by
    by_cases hmore : byteoff + entsize < d.encode.length
    · have hsize : ((d.encode.length : Int) - (byteoff + entsize)).toNat = back.length := by
        omega
      have hbehind := hfront.write_behind back
      rw [zero_add, hfront_length] at hbehind
      rw [show m' = _ from if_pos hmore, hsize, Memory.copyFrom_eq_write hback]
      exact hbehind
    · have hnil : back = [] := List.eq_nil_of_length_eq_zero (by omega)
      rw [show m' = m from if_neg hmore, hnil, List.append_nil]
      exact hfront
  have hwide : d'.wide = d.wide := by
    rw [SfImage.wide, SfImage.wide, hi8count]
  have hcount : d.entries.length = d'.entries.length + 1 := by
    rw [hentries, hentries', List.length_append, List.length_append, List.length_cons]
    omega
  have hbody : d'.encode = BitVec.ofNat 8 d'.entries.length :: BitVec.ofNat 8 d.i8count ::
      (inoBytes d.wide d.parent ++ (before.flatMap (SfEntry.encode d.wide) ++ back)) := by
    rw [SfImage.encode, SfImage.encodeHdr_eq, hwide, hi8count, hparent, hentries',
      List.flatMap_append]
    rfl
  have hm'' : Spells m' 0 (BitVec.ofNat 8 d.entries.length :: BitVec.ofNat 8 d.i8count ::
      (inoBytes d.wide d.parent ++ (before.flatMap (SfEntry.encode d.wide) ++ back))) := by
    simpa only [front, SfImage.encodeHdr_eq, List.cons_append, List.append_assoc] using hm'
  have hless : m' 0 - 1 = BitVec.ofNat 8 d'.entries.length := by
    rw [(counters_of_spells hm'').1, hcount, BitVec.ofNat_add]
    exact BitVec.add_sub_cancel _ _
  rw [hbody, hless]
  exact spells_set_count hm'' _

/-- The directory without the entry, before the counter of wide numbers is set right. -/
theorem Holds.removename (h : dp.Holds d) (hargs : args.Asks e)
    (hentries : d.entries = before ++ e :: after) (hbefore : ∀ x ∈ before, x.name ≠ e.name)
    (hbig : d.i8count = 0 → bigCount (d.parent :: (before ++ after).map SfEntry.ino) = 0)
    (b : Build) (k : Kernel) :
    ∃ dp₁ : XfsDirInode, dp₁.Holds { d with entries := before ++ after } ∧ dp.Keeps dp₁ ∧
      xfsDir2SfRemovename b k dp args =
        (.ok, if b.xfsBigInums ∧ xfsDir2MaxShortInum < args.inumber then Xfsd.countDown k dp₁
          else dp₁) := by
  let d₁ : SfImage := { d with entries := before ++ after }
  have hcount := h.valid.count_le
  rw [hentries, List.length_append, List.length_cons] at hcount
  have hd₁ : d₁.Valid := by
    refine ⟨h.valid.parent_lt, ?_, h.valid.i8count_le, hbig⟩
    change (before ++ after).length ≤ 255
    rw [List.length_append]
    omega
  have hlength : d.encode.length = d₁.encode.length + (e.encode d.wide).length := by
    rw [SfImage.length_encode, SfImage.length_encode, SfImage.length_encodeHdr,
      SfImage.length_encodeHdr, hentries, show d₁.wide = d.wide from rfl,
      show d₁.entries = before ++ after from rfl, List.flatMap_append, List.flatMap_append,
      List.flatMap_cons, List.length_append, List.length_append, List.length_append]
    omega
  have hname : e.name = args.name := hargs.name.symm
  have hfind := h.findName_some hentries (hname ▸ hbefore) hname
  have hspells := spells_remove hentries (show d₁.entries = before ++ after from rfl) rfl rfl
    h.spells rfl
  rcases h.shrink k hd₁ (by omega) hspells with ⟨hholds₁, hkeeps₁⟩
  refine ⟨_, hholds₁, hkeeps₁, ?_⟩
  have hnewsize : (d.encode.length : Int) - (e.encode d.wide).length = d₁.encode.length := by
    omega
  unfold xfsDir2SfRemovename
  dsimp only
  rw [if_neg h.not_belowParent_isize, h.isize, hfind]
  dsimp only
  rw [entsize_eq h hargs, hnewsize]

variable {d d' : SfDir}

/-- Removing a name takes its entry out. -/
theorem Stores.removename_found (h : dp.Stores b d) (hargs : args.Asks e)
    (hentries : d.entries = before ++ e :: after) (k : Kernel) :
    ∃ dp' d', xfsDir2SfRemovename b k dp args = (.ok, dp') ∧ d'.parent = d.parent ∧
      d'.entries = before ++ after ∧ dp'.Stores b d' ∧ dp.Keeps dp' := by
  have hbig := bigCount_insert d.parent before e after
  rw [← hentries] at hbig
  have hcount := d.count_le
  have hroom := h.room
  have hnodup := h.nodup
  have hplain := h.plain
  rw [hentries] at hroom hnodup hplain
  rw [hentries, List.length_append, List.length_cons] at hcount
  let d' : SfDir := {
    parent := d.parent
    entries := before ++ after
    parent_lt := d.parent_lt
    count_le := by rw [List.length_append]; omega
    i8count_le := (Nat.le_add_right _ _).trans (hbig ▸ d.i8count_le) }
  have hi8count : d.i8count = d'.i8count + if e.IsBig then 1 else 0 := hbig
  have hbigInums : (b.xfsBigInums = true ∧ xfsDir2MaxShortInum < args.inumber) ↔ e.IsBig := by
    rw [hargs.inumber]
    refine ⟨And.right, fun hbig => ⟨h.bigInums ?_, hbig⟩⟩
    rw [hi8count, if_pos hbig]
    exact Nat.succ_ne_zero _
  have hnarrow : d.image.i8count = 0 → d'.i8count = 0 := by
    intro hzero
    have hzero' : d.i8count = 0 := hzero
    omega
  rcases h.holds.removename hargs hentries
    (fun x hx => Keyed.ne_of_nodup hnodup x (List.mem_append_left _ hx)) hnarrow b k with
    ⟨dp₁, hholds₁, hkeeps₁, hresult⟩
  have hfinal : ∃ dp', xfsDir2SfRemovename b k dp args = (.ok, dp') ∧ dp'.Holds d'.image ∧
      dp.Keeps dp' := by
    by_cases hbig : e.IsBig
    · rw [if_pos hbig] at hi8count
      rw [if_pos (hbigInums.mpr hbig)] at hresult
      rcases hholds₁.countDown k hi8count with ⟨hholds, hkeeps⟩
      exact ⟨_, hresult, hholds, hkeeps₁.trans hkeeps⟩
    · rw [if_neg hbig, add_zero] at hi8count
      rw [if_neg (mt hbigInums.mp hbig)] at hresult
      refine ⟨_, hresult, ?_, hkeeps₁⟩
      rw [show d'.image = { d.image with entries := before ++ after } by
        rw [SfDir.image, ← hi8count]
        rfl]
      exact hholds₁
  rcases hfinal with ⟨dp', hdp', hholds, hkeeps⟩
  refine ⟨dp', d', hdp', rfl, rfl, ⟨hholds, ?_, ?_, ?_, ?_, ?_, ?_, ?_⟩, hkeeps⟩
  · rw [hkeeps.dsize]
    exact h.dsize_le
  · rw [hkeeps.iMount]
    exact h.dirblksize_le
  · have hle : d'.image.encode.length ≤ d.image.encode.length := by
      refine SfImage.length_encode_mono ?_ ?_ fun hne => ?_
      · rw [show d.image.entries = before ++ e :: after from hentries]
        simp [SfDir.image, d']
      · rw [show d.image.entries = before ++ e :: after from hentries]
        simp [SfDir.image, d']
      · exact fun hzero => hne (hnarrow hzero)
    rw [hkeeps.dsize]
    exact (Int.ofNat_le.mpr hle).trans h.fits
  · rw [hkeeps.iMount]
    exact hroom.remove
  · rw [List.map_append, List.map_cons, List.nodup_middle, List.nodup_cons,
      ← List.map_append] at hnodup
    exact hnodup.2
  · intro x hx
    refine hplain x ?_
    rcases List.mem_append.mp hx with hx | hx
    · exact List.mem_append_left _ hx
    · exact List.mem_append_right _ (List.mem_cons_of_mem _ hx)
  · intro hne
    exact h.bigInums (by omega)

/-- Removing a name that no entry has changes nothing. -/
theorem Stores.removename_missing (h : dp.Stores b d)
    (hne : ∀ x ∈ d.entries, x.name ≠ args.name) (k : Kernel) :
    xfsDir2SfRemovename b k dp args = (.enoent, dp) := by
  unfold xfsDir2SfRemovename
  dsimp only
  rw [if_neg h.holds.not_belowParent_isize, h.holds.findName_none hne]

end XfsDirInode

end Xfsd
