import Xfsd.OnDisk.Dir2SfStores

/-!
# XFSD - Adding names to short-form directories

Both ways to add an entry: at the end of the directory, and in the first hole that the offsets
leave.

Main results:

- Theorem {lit}`XfsDirInode.Holds.addnameEasy`: the entry is added at the end.
- Theorem {lit}`XfsDirInode.Holds.addnameHard`: the entry is added in the first hole.
-/

namespace Xfsd

open Foundation

/-! ## Counters -/

/-- A directory with one more entry, which may count as wide. -/
def SfImage.addEntry (d : SfImage) (counted : Bool) (before : List SfEntry) (e : SfEntry)
    (after : List SfEntry) : SfImage where
  i8count := d.i8count + if counted then 1 else 0
  parent := d.parent
  entries := before ++ e :: after

section Counters

variable {m : Memory Byte} {b : Build} {args : XfsDaArgs} {n i : Nat} {body : List Byte}

theorem counters_of_spells {x y : Byte} (h : Spells m 0 (x :: y :: body)) : m 0 = x ∧ m 1 = y :=
  ⟨(spells_cons_iff.mp h).1, (spells_cons_iff.mp (spells_cons_iff.mp h).2).1⟩

theorem spells_set_count (h : Spells m 0 (BitVec.ofNat 8 n :: body)) (x : Byte) :
    Spells (m.set 0 x) 0 (x :: body) := by
  rw [Memory.set_eq_write]
  exact (show Spells m 0 ([] ++ ([BitVec.ofNat 8 n] ++ body)) from h).write_between [x] rfl

theorem spells_set_i8count {x : Byte} (h : Spells m 0 (x :: BitVec.ofNat 8 i :: body))
    (y : Byte) : Spells (m.set 1 y) 0 (x :: y :: body) := by
  rw [Memory.set_eq_write]
  exact (show Spells m 0 ([x] ++ ([BitVec.ofNat 8 i] ++ body)) from h).write_between [y] rfl

/-- Counting an entry changes the counters only. -/
theorem spells_countEntry (hb : xfsDir2MaxShortInum < args.inumber → b.xfsBigInums = true)
    (h : Spells m 0 (BitVec.ofNat 8 n :: BitVec.ofNat 8 i :: body)) (elevated : Bool) :
    Spells (countEntry m b args elevated) 0
      (BitVec.ofNat 8 (n + 1) ::
        BitVec.ofNat 8 (i + if xfsDir2MaxShortInum < args.inumber ∧ ¬elevated then 1 else 0) ::
          body) := by
  have hcount : m 0 + 1 = BitVec.ofNat 8 (n + 1) := by
    rw [(counters_of_spells h).1, BitVec.ofNat_add]
    rfl
  have hm := spells_set_count h (m 0 + 1)
  rw [countEntry, ← hcount]
  by_cases hcounted : xfsDir2MaxShortInum < args.inumber ∧ ¬elevated
  · have hi8count : (m.set 0 (m 0 + 1)) 1 + 1 = BitVec.ofNat 8 (i + 1) := by
      rw [(counters_of_spells hm).2, BitVec.ofNat_add]
      rfl
    rw [if_pos ⟨hb hcounted.1, hcounted.1, hcounted.2⟩, if_pos hcounted, ← hi8count]
    exact spells_set_i8count hm _
  · rw [if_neg fun hall => hcounted hall.2, if_neg hcounted]
    exact hm

end Counters

/-! ## New entries -/

/-- The entry is what the arguments ask for. -/
structure XfsDaArgs.Asks (args : XfsDaArgs) (e : SfEntry) : Prop where
  name : args.name = e.name
  inumber : args.inumber = e.ino

/-- Room for one more entry keeps the width of the others. -/
structure SfImage.Admits (d : SfImage) (counted : Bool) (before : List SfEntry) (e : SfEntry)
    (after : List SfEntry) : Prop where
  entries : d.entries = before ++ after
  valid : (d.addEntry counted before e after).Valid
  wide : (d.addEntry counted before e after).wide = d.wide

namespace SfImage

variable {d : SfImage} {counted : Bool} {before after : List SfEntry} {e : SfEntry}

theorem encodeHdr_eq (d : SfImage) :
    d.encodeHdr = BitVec.ofNat 8 d.entries.length :: BitVec.ofNat 8 d.i8count ::
      inoBytes d.wide d.parent :=
  rfl

/-- The length grows by that of the entry. -/
theorem Admits.length_encode (h : d.Admits counted before e after) :
    (d.addEntry counted before e after).encode.length =
      d.encode.length + (e.encode d.wide).length := by
  rw [SfImage.length_encode, SfImage.length_encode, length_encodeHdr, length_encodeHdr, h.wide,
    h.entries]
  simp only [addEntry, List.flatMap_append, List.flatMap_cons, List.length_append]
  omega

theorem Admits.length_before (h : d.Admits counted before e after) :
    d.encode.length = d.encodeHdr.length + (before.flatMap (SfEntry.encode d.wide)).length +
      (after.flatMap (SfEntry.encode d.wide)).length := by
  rw [SfImage.length_encode, h.entries, List.flatMap_append, List.length_append]
  omega

/-- The counters and the bytes behind them, after the entry has been counted. -/
theorem Admits.spells (h : d.Admits counted before e after) {m : Memory Byte} {b : Build}
    {args : XfsDaArgs} {elevated : Bool} (hargs : args.Asks e)
    (hb : xfsDir2MaxShortInum < args.inumber → b.xfsBigInums = true)
    (hcounted : counted = decide (xfsDir2MaxShortInum < e.ino ∧ ¬elevated)) {tail : List Byte}
    (hm : Spells m 0 (d.encodeHdr ++ before.flatMap (SfEntry.encode d.wide) ++
      e.encode d.wide ++ tail)) :
    Spells (countEntry m b args elevated) 0
      ((d.addEntry counted before e after).encodeHdr ++
        before.flatMap (SfEntry.encode d.wide) ++ e.encode d.wide ++ tail) := by
  rw [encodeHdr_eq, List.cons_append, List.cons_append, List.cons_append, List.cons_append,
    List.cons_append, List.cons_append] at hm ⊢
  have hlength : (d.addEntry counted before e after).entries.length = d.entries.length + 1 := by
    rw [h.entries]
    simp only [addEntry, List.length_append, List.length_cons]
    omega
  rw [hlength, h.wide]
  have hspells := spells_countEntry hb hm elevated
  rw [hargs.inumber] at hspells
  simpa only [addEntry, hcounted, decide_eq_true_eq] using hspells

end SfImage

/-! ## Both ways to add an entry -/

namespace XfsDirInode

variable {b : Build} {k : Kernel} {dp : XfsDirInode} {d : SfImage} {args : XfsDaArgs}
  {e : SfEntry} {counted : Bool}

theorem entsize_eq (h : dp.Holds d) (hargs : args.Asks e) :
    xfsDir2SfEntsizeInt dp.iDf.bytes 0 args.name.length = (e.encode d.wide).length := by
  rw [xfsDir2SfEntsizeInt, hargs.name, SfEntry.length_encode, h.hdr.wide]
  by_cases hzero : sfHdrI8count dp.iDf.bytes 0 = 0 <;> simp [hzero]

/-- The easy way adds the entry at the end. -/
theorem Holds.addnameEasy (h : dp.Holds d) (hk : k.StoresBe16)
    (hb : xfsDir2MaxShortInum < args.inumber → b.xfsBigInums = true) (hargs : args.Asks e)
    (hcounted : counted = decide (xfsDir2MaxShortInum < e.ino))
    (hd : d.Admits counted d.entries e []) :
    let dp' := xfsDir2SfAddnameEasy b k dp args d.encode.length e.offset.toNat
      (d.addEntry counted d.entries e []).encode.length
    dp'.Holds (d.addEntry counted d.entries e []) ∧ dp.Keeps dp' := by
  intro dp'
  have hgrown := h.sound.realloc k
    (Int.natCast_nonneg (d.addEntry counted d.entries e []).encode.length)
  rw [hd.length_encode, Nat.cast_add, h.ifBytes, add_sub_cancel_left,
    ← entsize_eq h hargs] at hgrown
  let dp₁ := dp.realloc k (xfsDir2SfEntsizeInt dp.iDf.bytes 0 args.name.length)
  have hkeeps₁ : dp.Keeps dp₁ := ⟨rfl, rfl, rfl, hgrown.ifFlags⟩
  -- the old directory is still there, and the entry is stored behind it
  have hold : Spells dp₁.iDf.bytes 0 d.encode := by
    refine h.spells.of_agreeOn (hgrown.kept.mono le_rfl ?_)
    rw [h.ifBytes, entsize_eq h hargs]
    omega
  have hread := SfImage.readsHdr h.valid (spells_append_iff.mp hold).1
  have hpos := d.length_encode_pos
  have hfilled : Spells (k.fillEntry dp₁.iDf.bytes args d.encode.length e.offset.toNat) 0
      (d.encodeHdr ++ d.entries.flatMap (SfEntry.encode d.wide) ++ e.encode d.wide ++ []) := by
    have hbehind := hold.write_behind (e.encode d.wide)
    rw [zero_add] at hbehind
    rw [Kernel.fillEntry_eq hk hread.wide (by omega) hargs.name hargs.inumber, List.append_nil]
    exact hbehind
  have hcounted' : counted = decide (xfsDir2MaxShortInum < e.ino ∧ ¬(false : Bool)) := by
    simpa using hcounted
  have hspells := hd.spells hargs hb hcounted' hfilled
  have hencode : (d.addEntry counted d.entries e []).encodeHdr ++
      d.entries.flatMap (SfEntry.encode d.wide) ++ e.encode d.wide ++ [] =
        (d.addEntry counted d.entries e []).encode := by
    rw [SfImage.encode, hd.wide]
    simp [SfImage.addEntry, List.append_assoc]
  rw [hencode] at hspells
  have hbytes : dp₁.iDf.ifBytes = (d.addEntry counted d.entries e []).encode.length := by
    rw [hd.length_encode]
    exact hgrown.ifBytes.trans (by rw [entsize_eq h hargs, Nat.cast_add])
  rcases holds_of_spells dp₁ hd.valid hgrown.sound hbytes hspells with ⟨hholds, hkeeps⟩
  exact ⟨hholds, hkeeps₁.trans hkeeps⟩

/-- The bytes of the directory after the entry has been added between the two parts of the old
one, which is in a buffer. -/
theorem spells_insert (hd₀ : d.Valid) (hk : k.StoresBe16)
    (hb : xfsDir2MaxShortInum < args.inumber → b.xfsBigInums = true) (hargs : args.Asks e)
    {objchange : Bool}
    (hcounted : counted = decide (xfsDir2MaxShortInum < e.ino ∧ ¬objchange))
    {before after : List SfEntry} (hd : d.Admits counted before e after) {old : Memory Byte}
    (hold : Spells old 0 d.encode) (m : Memory Byte) {nbytes : Nat}
    (hnbytes : nbytes = d.encodeHdr.length + (before.flatMap (SfEntry.encode d.wide)).length) :
    let m' := countEntry
      (k.fillEntry (m.copyFrom 0 old 0 nbytes) args nbytes e.offset.toNat) b args objchange
    Spells
      (if (nbytes : Int) ≠ d.encode.length then
        m'.copyFrom (xfsDir2SfNextentry m' 0 nbytes) old nbytes
          ((d.encode.length : Int) - nbytes).toNat
      else m') 0 (d.addEntry counted before e after).encode := by
  intro m'
  let d' := d.addEntry counted before e after
  let front := d.encodeHdr ++ before.flatMap (SfEntry.encode d.wide)
  let back := after.flatMap (SfEntry.encode d.wide)
  have hfront_length : front.length = nbytes := List.length_append.trans hnbytes.symm
  have hlength := hd.length_before
  have hold' : Spells old 0 (front ++ back) := by
    rwa [SfImage.encode, hd.entries, List.flatMap_append, ← List.append_assoc] at hold
  rcases spells_append_iff.mp hold' with ⟨hfront, hback⟩
  rw [zero_add, hfront_length] at hback
  have hm : Spells (m.copyFrom 0 old 0 nbytes) 0 front := by
    rw [← hfront_length, Memory.copyFrom_eq_write hfront]
    exact spells_write _ _ _
  -- the entry goes behind the first part
  have hwide := (SfImage.readsHdr hd₀ (spells_append_iff.mp hm).1).wide
  have hpos : 2 ≤ (nbytes : Int) := by
    rw [hnbytes, d.length_encodeHdr]
    split <;> omega
  have hfilled : Spells (k.fillEntry (m.copyFrom 0 old 0 nbytes) args nbytes e.offset.toNat) 0
      (front ++ e.encode d.wide ++ []) := by
    have hbehind := hm.write_behind (e.encode d.wide)
    rw [zero_add, hfront_length] at hbehind
    rw [Kernel.fillEntry_eq hk hwide hpos hargs.name hargs.inumber, List.append_nil]
    exact hbehind
  have hm' := hd.spells hargs hb hcounted hfilled
  rw [List.append_nil] at hm'
  -- the second part goes behind the entry
  have hhdr_length : d'.encodeHdr.length = d.encodeHdr.length := by
    rw [SfImage.length_encodeHdr, SfImage.length_encodeHdr, hd.wide]
  have hfront'_length :
      (d'.encodeHdr ++ before.flatMap (SfEntry.encode d.wide)).length = nbytes := by
    rw [List.length_append, hhdr_length, hnbytes]
  have hnext : xfsDir2SfNextentry m' 0 nbytes = nbytes + (e.encode d.wide).length := by
    rcases spells_append_iff.mp hm' with ⟨hhdr', hentry⟩
    rw [zero_add, hfront'_length] at hentry
    have hwide' := (SfImage.readsHdr hd.valid (spells_append_iff.mp hhdr').1).wide
    have hmem : e ∈ d'.entries := List.mem_append_right _ List.mem_cons_self
    exact (SfEntry.reads (hd.wide.symm.trans hwide')
      (fun hw => hd.valid.ino_lt (hd.wide.trans hw) hmem) hentry).2.2.2
  have hencode : d'.encode =
      d'.encodeHdr ++ before.flatMap (SfEntry.encode d.wide) ++ e.encode d.wide ++ back := by
    rw [SfImage.encode, show d'.wide = d.wide from hd.wide]
    simp only [d', back, SfImage.addEntry, List.flatMap_append, List.flatMap_cons,
      List.append_assoc]
  rw [hencode]
  by_cases hend : (nbytes : Int) = d.encode.length
  · have hback_nil : back = [] := List.eq_nil_of_length_eq_zero (by simp only [back]; omega)
    rw [if_neg (not_not.mpr hend), hback_nil, List.append_nil]
    exact hm'
  · have hrest : ((d.encode.length : Int) - nbytes).toNat = back.length := by
      simp only [back]
      omega
    have hbehind := hm'.write_behind back
    rw [zero_add, List.length_append, hfront'_length, Nat.cast_add] at hbehind
    rw [if_pos hend, hrest, Memory.copyFrom_eq_write hback, hnext]
    exact hbehind

/-- The hard way adds the entry in the first hole. -/
theorem Holds.addnameHard (h : dp.Holds d) (hk : k.StoresBe16)
    (hb : xfsDir2MaxShortInum < args.inumber → b.xfsBigInums = true) (hargs : args.Asks e)
    {objchange : Bool}
    (hcounted : counted = decide (xfsDir2MaxShortInum < e.ino ∧ ¬objchange))
    {before after : List SfEntry}
    (hsplit : splitHole e.dataEntsize xfsDir2DataFirstOffset d.entries = (before, after))
    (hoffset : e.offset.toNat = endOffset xfsDir2DataFirstOffset before)
    (hd : d.Admits counted before e after) {fuel : Nat} (hfuel : d.entries.length < fuel) :
    ∃ dp', xfsDir2SfAddnameHard b k fuel dp args objchange
        (d.addEntry counted before e after).encode.length = some dp' ∧
      dp'.Holds (d.addEntry counted before e after) ∧ dp.Keeps dp' := by
  let newIsize : Int := (d.addEntry counted before e after).encode.length
  let old := (k.kmemAlloc dp.iDf).copyFrom 0 dp.iDf.bytes 0 dp.isize.toNat
  have hold : Spells old 0 d.encode := by
    have heq : old = (k.kmemAlloc dp.iDf).write 0 d.encode := by
      rw [← Memory.copyFrom_eq_write h.spells]
      simp only [old, h.isize, Int.toNat_natCast]
    rw [heq]
    exact spells_write _ _ _
  have hread := SfImage.readsHdr h.valid (spells_append_iff.mp hold).1
  let nbytes : Nat := d.encodeHdr.length + (before.flatMap (SfEntry.encode d.wide)).length
  have hloop : addnameHardLoop old (xfsDir2DataEntsize args.name.length) dp.isize fuel
      xfsDir2DataFirstOffset (xfsDir2SfFirstentry old 0) =
        some (e.offset.toNat, (nbytes : Int)) := by
    have hsize : xfsDir2DataEntsize args.name.length = e.dataEntsize := by
      rw [hargs.name, SfEntry.dataEntsize]
    have hentries := SfImage.readsEntries h.valid hold
    rw [hread.firstentry, hsize, addnameHardLoop_eq hentries _ _ _ hfuel, hsplit, hoffset]
    · rfl
    · rw [h.isize, SfImage.length_encode, Nat.cast_add]
  -- the old fork is emptied, and a new one of the new size is filled
  have hempty := h.sound.realloc k (le_refl 0)
  rw [zero_sub, h.ifBytes, ← h.isize] at hempty
  have hfull := hempty.sound.realloc k (Int.natCast_nonneg
    (d.addEntry counted before e after).encode.length)
  rw [hempty.ifBytes, sub_zero] at hfull
  let dp₁ := (dp.realloc k (-dp.isize)).realloc k newIsize
  have hkeeps₁ : dp.Keeps dp₁ := ⟨rfl, rfl, rfl, hfull.ifFlags.trans hempty.ifFlags⟩
  have hspells := spells_insert h.valid hk hb hargs hcounted hd hold dp₁.iDf.bytes
    (rfl : nbytes = _)
  rw [← h.isize] at hspells
  rcases holds_of_spells dp₁ hd.valid hfull.sound hfull.ifBytes hspells with
    ⟨hholds, hkeeps⟩
  refine ⟨_, ?_, hholds, hkeeps₁.trans hkeeps⟩
  unfold xfsDir2SfAddnameHard
  change (addnameHardLoop old (xfsDir2DataEntsize args.name.length) dp.isize fuel
    xfsDir2DataFirstOffset (xfsDir2SfFirstentry old 0)).bind _ = _
  rw [hloop]
  rfl

end XfsDirInode

end Xfsd
