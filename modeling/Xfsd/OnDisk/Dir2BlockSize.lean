import Xfsd.Foundation.EarlyExit
import Xfsd.OnDisk.Dir2BlockFormat
import Xfsd.OnDisk.Encode

/-!
# XFSD - The size of a block directory in short form

The sizing loop keeps a tally of the entries it has seen.  The size of a tally is the length of
the short form of what was seen, and it never shrinks, also when one entry makes all inode
numbers wider, so that giving up early is the same as giving up at the end.

Main results:

- Theorem {lit}`BlockDir.size_tally`: the tally of all entries has the size of the short form.
- Theorem {lit}`sfsizeLoop_eq`: the loop is a run over the live entries that gives up early.
- Theorem {lit}`xfsDir2BlockSfsize_exact`: the function fails exactly when the short form does
  not fit, and otherwise gives its length and its header.
-/

namespace Xfsd

open Foundation

/-! ## The tally -/

/-- What a run over data entries has added up. -/
structure SfTally where
  count : Nat
  i8count : Nat
  namelen : Nat
  parent : BitVec 64

namespace SfTally

/-- The tally before the first entry. -/
def start : SfTally where
  count := 0
  i8count := 0
  namelen := 0
  parent := 0

/-- Take an entry into account. -/
def add (t : SfTally) (e : Dir2DataEntry) : SfTally where
  count := t.count + if e.Listed then 1 else 0
  i8count := t.i8count + if e.Counted8 then 1 else 0
  namelen := t.namelen + if e.Listed then e.name.length else 0
  parent := if e.IsDotdot then e.ino else t.parent

section Add

variable (t : SfTally) (e : Dir2DataEntry)

@[simp]
theorem count_add : (t.add e).count = t.count + if e.Listed then 1 else 0 := rfl

@[simp]
theorem i8count_add : (t.add e).i8count = t.i8count + if e.Counted8 then 1 else 0 := rfl

@[simp]
theorem namelen_add :
    (t.add e).namelen = t.namelen + if e.Listed then e.name.length else 0 := rfl

@[simp]
theorem parent_add : (t.add e).parent = if e.IsDotdot then e.ino else t.parent := rfl

end Add

/-- The width of the inode numbers. -/
def inoLen (t : SfTally) : Nat :=
  if t.i8count = 0 then 4 else 8

/-- The length of the short form of what was seen. -/
def size (t : SfTally) : Nat :=
  2 + t.inoLen + t.count * (3 + t.inoLen) + t.namelen

/-- Inode numbers never become narrower. -/
theorem inoLen_le_add (t : SfTally) (e : Dir2DataEntry) : t.inoLen ≤ (t.add e).inoLen := by
  have hi8count : t.i8count ≤ (t.add e).i8count := Nat.le_add_right _ _
  unfold inoLen
  split <;> split <;> omega

/-- The size never shrinks. -/
theorem size_le_add (t : SfTally) (e : Dir2DataEntry) : t.size ≤ (t.add e).size := by
  have hlen := inoLen_le_add t e
  have hcount : t.count ≤ (t.add e).count := Nat.le_add_right _ _
  have hnamelen : t.namelen ≤ (t.add e).namelen := Nat.le_add_right _ _
  have hentries := Nat.mul_le_mul hcount (Nat.add_le_add_left hlen 3)
  unfold size
  omega

/-- A run counts the listed entries. -/
theorem count_foldl (t : SfTally) (es : List Dir2DataEntry) :
    (es.foldl add t).count = t.count + (es.filter Dir2DataEntry.Listed).length := by
  induction es generalizing t with
  | nil => simp
  | cons e es ih =>
      rw [List.foldl_cons, ih, count_add]
      by_cases h : e.Listed
      · rw [List.filter_cons_of_pos (by simpa using h), if_pos h, List.length_cons]
        omega
      · rw [List.filter_cons_of_neg (by simpa using h), if_neg h, Nat.add_zero]

/-- A run counts the inode numbers that need more than 32 bits. -/
theorem i8count_foldl (t : SfTally) (es : List Dir2DataEntry) :
    (es.foldl add t).i8count = t.i8count + es.countP Dir2DataEntry.Counted8 := by
  induction es generalizing t with
  | nil => simp
  | cons e es ih =>
      rw [List.foldl_cons, ih, i8count_add, List.countP_cons, Nat.add_assoc,
        Nat.add_comm (es.countP _)]
      by_cases h : e.Counted8 <;> simp [h]

/-- A run adds up the lengths of the listed names. -/
theorem namelen_foldl (t : SfTally) (es : List Dir2DataEntry) :
    (es.foldl add t).namelen =
      t.namelen + ((es.filter Dir2DataEntry.Listed).map fun e => e.name.length).sum := by
  induction es generalizing t with
  | nil => simp
  | cons e es ih =>
      rw [List.foldl_cons, ih, namelen_add]
      by_cases h : e.Listed
      · rw [List.filter_cons_of_pos (by simpa using h), if_pos h, List.map_cons, List.sum_cons,
          Nat.add_assoc]
      · rw [List.filter_cons_of_neg (by simpa using h), if_neg h, Nat.add_zero]

/-- A run keeps the inode number of the last entry for the parent. -/
theorem parent_foldl (t : SfTally) (es : List Dir2DataEntry) :
    (es.foldl add t).parent =
      ((es.filter Dir2DataEntry.IsDotdot).map (SfEntry.ino ·.toSfEntry)).getLastD t.parent := by
  induction es generalizing t with
  | nil => simp
  | cons e es ih =>
      rw [List.foldl_cons, ih, parent_add]
      by_cases h : e.IsDotdot
      · rw [List.filter_cons_of_pos (by simpa using h), if_pos h, List.map_cons,
          List.getLastD_cons]
      · rw [List.filter_cons_of_neg (by simpa using h), if_neg h]

end SfTally

namespace BlockDir

variable (d : BlockDir)

/-- The tally of all live entries. -/
def tally : SfTally :=
  d.live.foldl SfTally.add .start

@[simp]
theorem tally_count : d.tally.count = d.listed.length := by
  rw [tally, SfTally.count_foldl]
  exact Nat.zero_add _

@[simp]
theorem tally_i8count : d.tally.i8count = d.i8count := by
  rw [tally, SfTally.i8count_foldl]
  exact Nat.zero_add _

@[simp]
theorem tally_namelen : d.tally.namelen = (d.listed.map fun e => e.name.length).sum := by
  rw [tally, SfTally.namelen_foldl]
  exact Nat.zero_add _

@[simp]
theorem tally_parent : d.tally.parent = d.parent.ino := by
  have hdotdots : d.live.filter Dir2DataEntry.IsDotdot = [d.parent] := d.dotdots
  rw [tally, SfTally.parent_foldl, hdotdots]
  rfl

/-- The tally of all live entries has the size of the short form. -/
theorem size_tally : d.tally.size = d.sfBytes.length := by
  simp only [SfTally.size, SfTally.inoLen, tally_count, tally_i8count, tally_namelen,
    length_sfBytes]

end BlockDir

/-! ## The loop -/

/-- A tally in the locals of the loop. -/
def SfTally.words (t : SfTally) : SfsizeLocals where
  count := BitVec.ofNat 32 t.count
  i8count := BitVec.ofNat 32 t.i8count
  namelen := BitVec.ofNat 32 t.namelen
  parent := t.parent

/-- A tally of at most {lit}`k` entries. -/
structure SfTally.Within (t : SfTally) (k : Nat) : Prop where
  count_le : t.count ≤ k
  i8count_le : t.i8count ≤ k
  namelen_le : t.namelen ≤ 255 * k

theorem SfTally.Within.add {t : SfTally} {k : Nat} (h : t.Within k) (e : Dir2DataEntry) :
    (t.add e).Within (k + 1) := by
  have hle := e.name_le
  rcases h with ⟨hcount, hi8count, hnamelen⟩
  constructor
  · rw [SfTally.count_add]
    split <;> omega
  · rw [SfTally.i8count_add]
    split <;> omega
  · rw [SfTally.namelen_add]
    split <;> omega

theorem SfTally.within_start : SfTally.start.Within 0 :=
  ⟨Nat.le_refl 0, Nat.le_refl 0, Nat.le_refl 0⟩

/-- A run adds as many entries as it has seen. -/
theorem SfTally.within_foldl {t : SfTally} {k : Nat} (h : t.Within k)
    (es : List Dir2DataEntry) : (es.foldl SfTally.add t).Within (k + es.length) := by
  induction es generalizing t k with
  | nil => exact h
  | cons e es ih =>
      rw [List.foldl_cons, List.length_cons, Nat.add_comm es.length, ← Nat.add_assoc]
      exact ih (h.add e)

/-- The locals after an entry are those of the tally after it. -/
theorem visit_words {b : Build} (hb : b.xfsBigInums = true) {m : Memory Byte} {dep : Int}
    {e : Dir2DataEntry} (h : Spells m dep e.dataBytes) (t : SfTally) :
    t.words.visit m b dep = (t.add e).words := by
  rcases e.reads h with ⟨hino, hnamelen, -, -⟩
  have hbig : 0xffffffff#64 < e.ino ↔ 2 ^ 32 ≤ e.ino.toNat := by
    rw [BitVec.lt_def]
    exact Nat.lt_iff_add_one_le
  have hname : (BitVec.ofNat 8 e.name.length).setWidth 32 = BitVec.ofNat 32 e.name.length := by
    have hle := e.name_le
    apply BitVec.eq_of_toNat_eq
    simp only [BitVec.toNat_setWidth, BitVec.toNat_ofNat]
    omega
  have hone : (if 2 ^ 32 ≤ e.ino.toNat then 1 else 0 : BitVec 32) =
      BitVec.ofNat 32 (if 2 ^ 32 ≤ e.ino.toNat then 1 else 0) := by
    split <;> rfl
  unfold SfsizeLocals.visit
  simp only [e.isdot_iff h, e.isdotdot_iff h]
  simp only [hb, hino, hnamelen, hbig, hname, true_and]
  unfold SfTally.add SfTally.words Dir2DataEntry.Listed Dir2DataEntry.Counted8
  by_cases hdot : e.IsDot
  · have hnot_dotdot : ¬e.IsDotdot := fun h => e.not_isDot_of_isDotdot h hdot
    simp [hdot, hnot_dotdot]
  · by_cases hdotdot : e.IsDotdot
    · simpa [hdot, hdotdot, BitVec.ofNat_add] using hone
    · simpa [hdot, hdotdot, BitVec.ofNat_add] using hone

/-- The size of the locals is that of the tally. -/
theorem size_words {t : SfTally} (h : t.i8count < 2 ^ 32) :
    t.words.size = BitVec.ofNat 32 t.size := by
  have hzero : BitVec.ofNat 32 t.i8count = 0 ↔ t.i8count = 0 := by
    rw [← BitVec.toNat_inj, BitVec.toNat_ofNat, Nat.mod_eq_of_lt h]
    rfl
  unfold SfsizeLocals.size SfTally.size SfTally.words xfsDir2SfHdrSizeInt SfTally.inoLen
  by_cases hi8count : t.i8count = 0
  · rw [if_pos (hzero.mpr hi8count), if_neg (not_not.mpr (hzero.mpr hi8count)), if_pos hi8count]
    apply BitVec.eq_of_toNat_eq
    simp only [BitVec.toNat_add, BitVec.toNat_mul, BitVec.toNat_ofNat, BitVec.toNat_sub,
      BitVec.ofNat_eq_ofNat]
    omega
  · rw [if_neg (mt hzero.mp hi8count), if_pos (mt hzero.mp hi8count), if_neg hi8count]
    apply BitVec.eq_of_toNat_eq
    simp only [BitVec.toNat_add, BitVec.toNat_mul, BitVec.toNat_ofNat, BitVec.toNat_sub,
      BitVec.ofNat_eq_ofNat]
    omega

/-- The size of a tally of a block's entries is the same as an {lit}`int`. -/
theorem toInt_size_words {t : SfTally} {k : Nat} (h : t.Within k) (hk : k ≤ 2 ^ 13) :
    t.words.size.toInt = t.size := by
  rcases h with ⟨hcount, hi8count, hnamelen⟩
  have hsize : t.size < 2 ^ 31 := by
    unfold SfTally.size SfTally.inoLen
    split <;> omega
  have hnat : (BitVec.ofNat 32 t.size).toNat = t.size := by
    rw [BitVec.toNat_ofNat]
    omega
  rw [size_words (by omega), BitVec.toInt_eq_toNat_of_lt (by omega), hnat]

/-- The limit that the loop compares with: a tally that an inode's data fork has no room for. -/
def SfTally.Over (dp : XfsInode) (t : SfTally) : Prop :=
  (xfsIforkDsize dp).toInt < t.size

instance (dp : XfsInode) : DecidablePred (SfTally.Over dp) :=
  fun _ => inferInstanceAs (Decidable (_ < _))

/-- The loop is a run over the live entries that gives up early. -/
theorem sfsizeLoop_eq {b : Build} (hb : b.xfsBigInums = true) {dp : XfsInode}
    (hmounted : dp.iMount.DirMounted) {m : Memory Byte} {hdr blp : Int} {is : List Nat}
    {leaves : List (Option Dir2DataEntry)}
    (h : List.Forall₂ (LeafStands dp.iMount m hdr blp) is leaves) {t : SfTally} {k : Nat}
    (ht : t.Within k) (hk : k + leaves.length ≤ 2 ^ 13) (size : BitVec 32) :
    sfsizeLoop m b dp hdr blp is t.words size =
      match foldUntil SfTally.add (SfTally.Over dp) t leaves.reduceOption with
      | .error t' => .error t'.words.size
      | .ok t' => .ok (t'.words, if leaves.reduceOption = [] then size else t'.words.size) := by
  induction h generalizing t k size with
  | nil => rfl
  | @cons i leaf is leaves hleaf h ih =>
      have haddr : blpAddress m blp i = leafAddress leaf := by
        rw [blpAddress, be32ToCpu_loadLE32, loadBE32_of_spells hleaf.address]
      rw [List.length_cons] at hk
      rw [sfsizeLoop, haddr]
      cases leaf with
      | none =>
          rw [leafAddress, List.reduceOption_cons_of_none]
          exact ih ht (by omega) size
      | some e =>
          rw [List.reduceOption_cons_of_some]
          dsimp only
          rw [if_neg (leafAddress_ne e), hmounted.toNat_xfsDir2DataptrToOff (hleaf.offset_lt e rfl),
            visit_words hb (hleaf.entry e rfl), toInt_size_words (ht.add e) (by omega), foldUntil]
          by_cases hover : (t.add e).Over dp
          · rw [if_pos hover]
            exact if_pos hover
          · rw [if_neg hover]
            refine (if_neg hover).trans ?_
            rw [ih (ht.add e) (by omega)]
            cases leaves.reduceOption with
            | nil => rfl
            | cons e' es => rfl

/-- On a stored block directory the function runs over the live entries. -/
theorem sfsizeLoop_of_storedAt {b : Build} (hb : b.xfsBigInums = true) {dp : XfsInode}
    {d : BlockDir} {m : Memory Byte} {hdr : Int} (h : d.StoredAt dp.iMount m hdr) :
    let btp := xfsDir2BlockTailP dp.iMount hdr
    sfsizeLoop m b dp hdr (xfsDir2BlockLeafP m btp) (List.range (btpCount m btp).toNat) .start 0 =
      match foldUntil SfTally.add (SfTally.Over dp) .start d.live with
      | .error t => .error t.words.size
      | .ok t => .ok (t.words, t.words.size) := by
  have hfits := h.fits
  have hpow : 2 ^ dp.iMount.dirBlockLog ≤ 65536 := h.mounted.blocksize_le
  have hbtp : xfsDir2BlockTailP dp.iMount hdr = hdr + (2 ^ dp.iMount.dirBlockLog : Nat) - 8 := by
    rw [xfsDir2BlockTailP, h.mounted.toInt_mDirblksize]
  have hcount : (btpCount m (xfsDir2BlockTailP dp.iMount hdr)).toNat = d.leaves.length := by
    rw [hbtp, btpCount, be32ToCpu_loadLE32, loadBE32_of_spells h.tail, BitVec.toNat_ofNat]
    omega
  have hleaves : List.Forall₂ (LeafStands dp.iMount m hdr
      (hdr + (2 ^ dp.iMount.dirBlockLog : Nat) - 8 - d.leaves.length * 8))
      (List.range d.leaves.length) d.leaves := by
    refine List.forall₂_iff_get.mpr ⟨List.length_range, fun i hi hi' => ?_⟩
    rw [List.get_eq_getElem, List.get_eq_getElem, List.getElem_range]
    exact h.leaf i hi'
  dsimp only
  rw [xfsDir2BlockLeafP, hcount, hbtp]
  refine (sfsizeLoop_eq hb h.mounted hleaves SfTally.within_start (by omega) 0).trans ?_
  have hne : d.leaves.reduceOption ≠ [] := d.live_ne_nil
  simp only [if_neg hne]
  rfl

/-! ## The header -/

/-- The steps that fill a header store its bytes. -/
theorem fillHeader_eq (sf : Memory Byte) (a : Int) (count i8count : Byte) (ino : BitVec 64) :
    xfsDir2SfPutParentIno ((sf.set a count).set (a + 1) i8count) a ino =
      sf.write a (count :: i8count :: inoBytes (decide (i8count ≠ 0)) ino) := by
  have hi8count : sfHdrI8count ((sf.set a count).set (a + 1) i8count) a = i8count :=
    if_pos rfl
  have haddr : a + 2 = a + 1 + 1 := by omega
  rw [Memory.write_cons, Memory.write_cons, xfsDir2SfPutParentIno, xfsDir2SfPutIno, hi8count,
    haddr]
  by_cases hzero : i8count = 0
  · rw [if_neg (not_not.mpr hzero), decide_eq_false (not_not.mpr hzero), putUnalignedBe32_eq]
    rfl
  · rw [if_pos hzero, decide_eq_true hzero, putUnalignedBe64_eq]
    rfl

/-- The header that the tally of all entries gives is the header of the short form. -/
theorem spells_fillHeader (d : BlockDir) (h : d.sfBytes.length ≤ 2040) (sf : Memory Byte)
    (a : Int) :
    let s := d.tally.words
    Spells (xfsDir2SfPutParentIno
      ((sf.set a (s.count.setWidth 8)).set (a + 1) (s.i8count.setWidth 8)) a s.parent) a
      (d.toSfDir h).encodeHdr := by
  have hi8count_le := (d.counters_le h).2
  have hcount : (d.toSfDir h).entries.length = d.listed.length := List.length_map _
  have hwide : (d.toSfDir h).wide = decide (BitVec.ofNat 8 d.i8count ≠ 0) := by
    rw [SfDir.wide, d.toSfDir_i8count h]
    refine decide_eq_decide.mpr (not_congr ?_)
    rw [← BitVec.toNat_inj, BitVec.toNat_ofNat, Nat.mod_eq_of_lt (by omega)]
    rfl
  dsimp only
  rw [fillHeader_eq, SfTally.words, d.tally_count, d.tally_i8count, d.tally_parent,
    BitVec.setWidth_ofNat_of_le (by decide), BitVec.setWidth_ofNat_of_le (by decide),
    SfDir.encodeHdr, hcount, hwide, d.toSfDir_i8count h]
  exact spells_write _ _ _

/-! ## The function -/

/-- What the function gives for a block directory when the inode has some room: a failure when
the short form is longer, and otherwise its length and its header. -/
structure BlockDir.SizedBy (d : BlockDir) (room : Int) (sfhp : Int)
    (result : BitVec 32 × Memory Byte) : Prop where
  fails_iff : room < result.1.toInt ↔ room < d.sfBytes.length
  size_eq : d.sfBytes.length ≤ room → result.1.toInt = d.sfBytes.length
  count_eq : d.sfBytes.length ≤ room → (sfHdrCount result.2 sfhp).toNat = d.listed.length
  i8count_eq : d.sfBytes.length ≤ room → (sfHdrI8count result.2 sfhp).toNat = d.i8count
  parent_eq : d.sfBytes.length ≤ room → xfsDir2SfGetParentIno result.2 sfhp = d.parent.ino

/-- The function fails exactly when the short form does not fit, and otherwise gives its length
and its header. -/
theorem xfsDir2BlockSfsize_exact {b : Build} (hb : b.xfsBigInums = true) {dp : XfsInode}
    (hroom : (xfsIforkDsize dp).toInt ≤ 2040) {d : BlockDir} {m : Memory Byte} {hdr : Int}
    (h : d.StoredAt dp.iMount m hdr) (sf : Memory Byte) (sfhp : Int) :
    d.SizedBy (xfsIforkDsize dp).toInt sfhp (xfsDir2BlockSfsize m b dp hdr sf sfhp) := by
  have hfits := h.fits
  have hpow : 2 ^ dp.iMount.dirBlockLog ≤ 65536 := h.mounted.blocksize_le
  have hlive : d.live.length ≤ d.leaves.length := List.reduceOption_length_le _
  -- tallies of stored entries do not overflow, and the limit is never left again
  have hsize : ∀ es, es <+: d.live →
      (es.foldl SfTally.add .start).words.size.toInt = (es.foldl SfTally.add .start).size := by
    intro es hes
    have hlen := hes.length_le
    exact toInt_size_words (SfTally.within_foldl SfTally.within_start es) (by omega)
  have hstep : ∀ (t : SfTally) (e : Dir2DataEntry), t.Over dp → (t.add e).Over dp :=
    fun t e hover => lt_of_lt_of_le hover (Int.ofNat_le.mpr (t.size_le_add e))
  have hover_iff : d.tally.Over dp ↔ (xfsIforkDsize dp).toInt < d.sfBytes.length := by
    rw [SfTally.Over, d.size_tally]
  have hloop := sfsizeLoop_of_storedAt hb h
  dsimp only at hloop
  by_cases hover : d.tally.Over dp
  · rcases foldUntil_of_beyond (fun _ => d.live_ne_nil) hover with ⟨es, hes, herror, hes_over⟩
    have hresult : xfsDir2BlockSfsize m b dp hdr sf sfhp =
        ((es.foldl SfTally.add .start).words.size, sf) := by
      simp only [xfsDir2BlockSfsize, hloop, herror]
    have hlong := hover_iff.mp hover
    have hfails : (xfsIforkDsize dp).toInt < (es.foldl SfTally.add .start).words.size.toInt := by
      rw [hsize es hes]
      exact hes_over
    rw [hresult]
    exact {
      fails_iff := iff_of_true hfails hlong
      size_eq := fun hle => absurd hlong (not_lt.mpr hle)
      count_eq := fun hle => absurd hlong (not_lt.mpr hle)
      i8count_eq := fun hle => absurd hlong (not_lt.mpr hle)
      parent_eq := fun hle => absurd hlong (not_lt.mpr hle) }
  · have hok : foldUntil SfTally.add (SfTally.Over dp) .start d.live = .ok d.tally :=
      foldUntil_of_not_beyond hstep hover
    have hfits_room : d.sfBytes.length ≤ (xfsIforkDsize dp).toInt :=
      not_lt.mp (mt hover_iff.mpr hover)
    have hspells := spells_fillHeader d (by omega) sf sfhp
    dsimp only at hspells
    rcases SfDir.readsHdr hspells with ⟨hcount, hi8count⟩
    rw [d.toSfDir_i8count] at hi8count
    have hlength : d.tally.words.size.toInt = d.sfBytes.length := by
      rw [← d.size_tally]
      exact hsize d.live List.prefix_rfl
    unfold xfsDir2BlockSfsize
    simp only [hloop, hok]
    exact {
      fails_iff := by rw [hlength]
      size_eq := fun _ => hlength
      count_eq := fun _ => hcount.trans (List.length_map _)
      i8count_eq := fun _ => hi8count
      parent_eq := fun _ => SfDir.getIno_parent hspells }

/-! ## A block with a stale leaf entry -/

/-- The entry {lit}`.`. -/
def dotEntry : Dir2DataEntry :=
  { letterEntry dot 128 with
    offset := 16
    offset_ge := by decide
    offset_aligned := by decide }

/-- An entry {lit}`..` with an inode number above 32 bits. -/
def dotdotEntry : Dir2DataEntry where
  name := [dot, dot]
  offset := 32
  ino := 0x100000007
  name_pos := by decide
  name_le := by decide
  ino_lt := by decide
  offset_ge := by decide
  offset_aligned := by decide

/-- The entry of a file. -/
def fileEntry : Dir2DataEntry :=
  { letterEntry 0x61#8 131 with
    offset := 48
    offset_ge := by decide
    offset_aligned := by decide }

/-- A directory with one file and a stale leaf entry. -/
def fileBlockDir : BlockDir where
  leaves := [some fileEntry, none, some dotEntry, some dotdotEntry]
  parent := dotdotEntry
  dotdots := rfl
  dots_le := by decide

/-- A mount with directory blocks of 512 bytes. -/
def smallMount : XfsMount :=
  xfsDirMount { mSb := geometrySb 9 8 6 64 1 8, mDirblksize := 0 }

/-- An inode of 256 bytes without an attribute fork. -/
def smallInode : XfsInode where
  iMount := smallMount
  iD := dirCore

/-- The block of the directory, at address 0. -/
def fileBlock : Memory Byte :=
  let m := spelling 16 dotEntry.dataBytes
  let m := m.write 32 dotdotEntry.dataBytes
  let m := m.write 48 fileEntry.dataBytes
  let m := m.write 472
    (fileBlockDir.leaves.flatMap fun leaf => beBytes32 0 ++ beBytes32 (leafAddress leaf))
  m.write 504 (beBytes32 4 ++ beBytes32 1)

theorem fileBlockDir_storedAt : fileBlockDir.StoredAt smallInode.iMount fileBlock 0 where
  mounted := ⟨by decide, rfl⟩
  fits := by decide
  tail := by decide +kernel
  leaf
    | 0, _ => ⟨by decide +kernel +revert, by rintro e ⟨⟩; decide, by rintro e ⟨⟩; decide +kernel⟩
    | 1, _ => ⟨by decide +kernel +revert, nofun, nofun⟩
    | 2, _ => ⟨by decide +kernel +revert, by rintro e ⟨⟩; decide, by rintro e ⟨⟩; decide +kernel⟩
    | 3, _ => ⟨by decide +kernel +revert, by rintro e ⟨⟩; decide, by rintro e ⟨⟩; decide +kernel⟩

/-- The short form of the directory needs 22 bytes: its parent makes all numbers wide. -/
theorem xfsDir2BlockSfsize_fileBlock :
    (xfsIforkDsize smallInode).toInt = 156 ∧ fileBlockDir.sfBytes.length = 22 ∧
      fileBlockDir.SizedBy (xfsIforkDsize smallInode).toInt 0
        (xfsDir2BlockSfsize fileBlock .linux64 smallInode 0 (fun _ => 0) 0) := by
  have hroom : (xfsIforkDsize smallInode).toInt ≤ 2040 := by decide
  exact ⟨by decide, by decide,
    xfsDir2BlockSfsize_exact rfl hroom fileBlockDir_storedAt (fun _ => 0) 0⟩

end Xfsd
