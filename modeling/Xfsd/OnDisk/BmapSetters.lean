import Mathlib.Data.List.Perm.Basic
import Xfsd.Foundation.View
import Xfsd.OnDisk.BmapRecord

/-!
# XFSD - Setting single fields of an extent record

The setters of {lit}`xfsd_bmap_btree.c`, each of which rewrites one field of a packed
record, and the assertions on their arguments, which the sources compile away.  With
64-bit block numbers a record forgets nothing of what
{lit}`xfs_bmbt_get_all` says, so that setters are understood through it.

Main results:

- Theorem {lit}`tracks_set`: a setter whose argument fits its field changes that field
  only.
- Theorem {lit}`ownFieldOnly_iff`: the setters keep to their fields exactly when the file
  offset has 54 bits; the assertion admits 55.
-/

namespace Xfsd

open Foundation

/-! ## The setters -/

variable (b : Build) (r : XfsBmbtRecHost)

/-- {lit}`xfs_bmbt_set_blockcount`. -/
def xfsBmbtSetBlockcount (v : BitVec 64) : XfsBmbtRecHost :=
  { r with l1 := (r.l1 &&& xfsMask64hi 43) ||| (v &&& xfsMask64lo 21) }

/-- {lit}`xfs_bmbt_set_startblock`. -/
def xfsBmbtSetStartblock (v : BitVec 64) : XfsBmbtRecHost :=
  if b.xfsBigBlknos then
    { l0 := (r.l0 &&& xfsMask64hi 55) ||| (v >>> 43)
      l1 := (r.l1 &&& xfsMask64lo 21) ||| (v <<< 21) }
  else
    let v32 := v.setWidth 32
    if isnullstartblock v32 then
      { l0 := r.l0 ||| xfsMask64lo 9
        l1 := xfsMask64hi 11 ||| (v32.setWidth 64 <<< 21) ||| (r.l1 &&& xfsMask64lo 21) }
    else
      { l0 := r.l0 &&& ~~~(xfsMask64lo 9)
        l1 := (v32.setWidth 64 <<< 21) ||| (r.l1 &&& xfsMask64lo 21) }

/-- {lit}`xfs_bmbt_set_startoff`. -/
def xfsBmbtSetStartoff (v : BitVec 64) : XfsBmbtRecHost :=
  { r with l0 := (r.l0 &&& xfsMask64hi 1) ||| (v <<< 9) ||| (r.l0 &&& xfsMask64lo 9) }

/-- {lit}`xfs_bmbt_set_state`. -/
def xfsBmbtSetState (v : XfsExntst) : XfsBmbtRecHost :=
  if v = .xfsExtNorm then { r with l0 := r.l0 &&& xfsMask64lo 63 }
  else { r with l0 := r.l0 ||| xfsMask64hi 1 }

/-! ## Settings -/

/-- The fields of an extent. -/
inductive BmbtField where
  | startoff
  | startblock
  | blockcount
  | state
deriving DecidableEq, Repr

/-- A field with an argument for its setter. -/
inductive BmbtSetting where
  | startoff (v : BitVec 64)
  | startblock (v : BitVec 64)
  | blockcount (v : BitVec 64)
  | state (v : XfsExntst)
deriving DecidableEq

namespace BmbtSetting

/-- The field of a setting. -/
def field : BmbtSetting → BmbtField
  | startoff _ => .startoff
  | startblock _ => .startblock
  | blockcount _ => .blockcount
  | state _ => .state

/-- The {lit}`ASSERT` of the setter.  The two states that it lets pass are all that a
{lit}`XfsExntst` can be. -/
def Admitted : BmbtSetting → Prop
  | startoff v => v &&& xfsMask64hi 9 = 0
  | startblock v => v &&& xfsMask64hi 12 = 0
  | blockcount v => v &&& xfsMask64hi 43 = 0
  | state v => v = .xfsExtNorm ∨ v = .xfsExtUnwritten

instance : DecidablePred Admitted
  | startoff _ => inferInstanceAs (Decidable (_ = _))
  | startblock _ => inferInstanceAs (Decidable (_ = _))
  | blockcount _ => inferInstanceAs (Decidable (_ = _))
  | state _ => inferInstanceAs (Decidable (_ ∨ _))

/-- The setter of a field, with 64-bit block numbers. -/
def set : BmbtSetting → XfsBmbtRecHost → XfsBmbtRecHost
  | startoff v, r => xfsBmbtSetStartoff r v
  | startblock v, r => xfsBmbtSetStartblock .linux64 r v
  | blockcount v, r => xfsBmbtSetBlockcount r v
  | state v, r => xfsBmbtSetState r v

/-- An extent with one field replaced. -/
def replace : BmbtSetting → XfsBmbtIrec → XfsBmbtIrec
  | startoff v, s => { s with brStartoff := v }
  | startblock v, s => { s with brStartblock := v }
  | blockcount v, s => { s with brBlockcount := v }
  | state v, s => { s with brState := v }

/-- The argument fits the field that a record has for it. -/
def Fits : BmbtSetting → Prop
  | startoff v => v.toNat < 2 ^ 54
  | startblock v => v.toNat < 2 ^ 52
  | blockcount v => v.toNat < 2 ^ 21
  | state _ => True

end BmbtSetting

/-! ## The setters on digits -/

/-- Masking with {lit}`xfs_mask64hi` clears the digits below. -/
theorem toNat_and_xfsMask64hi (x : BitVec 64) (n : Nat) :
    (x &&& xfsMask64hi n).toNat = x.toNat / 2 ^ (64 - n) * 2 ^ (64 - n) := by
  have hshift : x &&& xfsMask64hi n = (x >>> (64 - n)) <<< (64 - n) := by
    ext i hi
    simp only [xfsMask64hi, BitVec.getElem_and, BitVec.getElem_shiftLeft, BitVec.getElem_allOnes,
      BitVec.getElem_ushiftRight]
    by_cases hlow : i < 64 - n
    · simp [hlow]
    · have hhigh : 64 - n + (i - (64 - n)) = i := by omega
      simp [hlow, hi, hhigh]
  have hle : x.toNat / 2 ^ (64 - n) * 2 ^ (64 - n) ≤ x.toNat := Nat.div_mul_le_self _ _
  rw [hshift, BitVec.toNat_shiftLeft, BitVec.toNat_ushiftRight, Nat.shiftRight_eq_div_pow,
    Nat.shiftLeft_eq, Nat.mod_eq_of_lt (lt_of_le_of_lt hle x.isLt)]

/-- An argument passes the assertion on its high bits when it is a number of low digits. -/
theorem and_xfsMask64hi_eq_zero_iff (x : BitVec 64) (n : Nat) :
    x &&& xfsMask64hi n = 0 ↔ x.toNat < 2 ^ (64 - n) := by
  rw [← BitVec.toNat_inj, toNat_and_xfsMask64hi]
  constructor
  · intro h
    rcases Nat.mul_eq_zero.mp h with hdiv | hpow
    · exact (Nat.div_eq_zero_iff_lt (Nat.two_pow_pos _)).mp hdiv
    · exact absurd hpow (Nat.two_pow_pos _).ne'
  · intro h
    rw [Nat.div_eq_of_lt h, Nat.zero_mul]
    rfl

theorem setBlockcount_toNat {v : BitVec 64} (hv : v.toNat < 2 ^ 21) :
    (xfsBmbtSetBlockcount r v).l1.toNat = r.l1.toNat / 2 ^ 21 * 2 ^ 21 + v.toNat := by
  simp only [xfsBmbtSetBlockcount, BitVec.toNat_or]
  rw [toNat_and_xfsMask64hi, toNat_and_xfsMask64lo _ (by omega), Nat.mod_eq_of_lt hv]
  exact or_eq_add_of_dvd (Nat.dvd_mul_left _ _) hv

theorem setStartblock_toNat {v : BitVec 64} (hv : v.toNat < 2 ^ 52) :
    (xfsBmbtSetStartblock .linux64 r v).l0.toNat =
        r.l0.toNat / 2 ^ 9 * 2 ^ 9 + v.toNat / 2 ^ 43 ∧
      (xfsBmbtSetStartblock .linux64 r v).l1.toNat =
        v.toNat % 2 ^ 43 * 2 ^ 21 + r.l1.toNat % 2 ^ 21 := by
  simp only [xfsBmbtSetStartblock, Build.xfsBigBlknos, if_true, BitVec.toNat_or,
    BitVec.toNat_ushiftRight, Nat.shiftRight_eq_div_pow, BitVec.toNat_shiftLeft, Nat.shiftLeft_eq]
  rw [toNat_and_xfsMask64hi, toNat_and_xfsMask64lo _ (by omega)]
  have hlow : v.toNat * 2 ^ 21 % 2 ^ 64 = v.toNat % 2 ^ 43 * 2 ^ 21 := by omega
  refine ⟨or_eq_add_of_dvd (Nat.dvd_mul_left _ _) (by omega), ?_⟩
  rw [hlow, Nat.or_comm]
  exact or_eq_add_of_dvd (Nat.dvd_mul_left _ _) (by omega)

theorem setStartoff_toNat {v : BitVec 64} (hv : v.toNat < 2 ^ 54) :
    (xfsBmbtSetStartoff r v).l0.toNat =
      r.l0.toNat / 2 ^ 63 * 2 ^ 63 + v.toNat * 2 ^ 9 + r.l0.toNat % 2 ^ 9 := by
  simp only [xfsBmbtSetStartoff, BitVec.toNat_or, BitVec.toNat_shiftLeft, Nat.shiftLeft_eq]
  rw [toNat_and_xfsMask64hi, toNat_and_xfsMask64lo _ (by omega),
    Nat.mod_eq_of_lt (by omega : v.toNat * 2 ^ 9 < 2 ^ 64),
    or_eq_add_of_dvd (Nat.dvd_mul_left _ _) (by omega : v.toNat * 2 ^ 9 < 2 ^ 63)]
  have hdvd : 2 ^ 9 ∣ r.l0.toNat / 2 ^ 63 * 2 ^ 63 + v.toNat * 2 ^ 9 := by omega
  exact or_eq_add_of_dvd hdvd (by omega)

theorem setState_toNat (v : XfsExntst) :
    (xfsBmbtSetState r v).l0.toNat = (extentFlag v).toNat * 2 ^ 63 + r.l0.toNat % 2 ^ 63 := by
  cases v with
  | xfsExtNorm =>
      have hset : xfsBmbtSetState r .xfsExtNorm = { r with l0 := r.l0 &&& xfsMask64lo 63 } := rfl
      rw [hset, toNat_and_xfsMask64lo _ (by omega)]
      simp [extentFlag]
  | xfsExtUnwritten =>
      have hset : xfsBmbtSetState r .xfsExtUnwritten =
        { r with l0 := r.l0 ||| xfsMask64hi 1 } := rfl
      have hsplit : r.l0 ||| xfsMask64hi 1 = xfsMask64hi 1 ||| (r.l0 &&& xfsMask64lo 63) := by
        have hmask : xfsMask64lo 63 = ~~~(xfsMask64hi 1) := by decide
        rw [hmask]
        ext i hi
        simp only [BitVec.getElem_or, BitVec.getElem_and, BitVec.getElem_not]
        cases r.l0[i] <;> cases (xfsMask64hi 1)[i] <;> rfl
      rw [hset, hsplit, BitVec.toNat_or, toNat_and_xfsMask64lo _ (by omega)]
      exact or_eq_add_of_dvd (by decide : 2 ^ 63 ∣ (xfsMask64hi 1).toNat) (by omega)

/-- A record says an extent when its digits are the fields of the extent. -/
theorem xfsBmbtGetAll_eq_iff (s : XfsBmbtIrec) :
    xfsBmbtGetAll .linux64 r = s ↔
      s.brStartoff.toNat = r.l0.toNat % 2 ^ 63 / 2 ^ 9 ∧
        s.brStartblock.toNat = r.startblock ∧
        s.brBlockcount.toNat = r.l1.toNat % 2 ^ 21 ∧
        (extentFlag s.brState).toNat = r.l0.toNat / 2 ^ 63 := by
  have hlt := r.l0.isLt
  have hstate : (extentFlag (xfsBmbtGetAll .linux64 r).brState).toNat = r.l0.toNat / 2 ^ 63 := by
    rw [brState_eq, BitVec.toNat_ofNat]
    omega
  rw [← hstate, ← brStartoff_toNat .linux64 r, ← brStartblock_toNat_linux64 r,
    ← brBlockcount_toNat .linux64 r]
  constructor
  · rintro rfl
    exact ⟨rfl, rfl, rfl, rfl⟩
  · rintro ⟨hoff, hblock, hcount, hflag⟩
    exact XfsBmbtIrec.ext (BitVec.eq_of_toNat_eq hoff.symm) (BitVec.eq_of_toNat_eq hblock.symm)
      (BitVec.eq_of_toNat_eq hcount.symm)
      (extentFlag_injective (BitVec.eq_of_toNat_eq hflag.symm))

/-- A setter whose argument fits its field changes that field only. -/
theorem tracks_set {u : BmbtSetting} (h : u.Fits) :
    Tracks (xfsBmbtGetAll .linux64) BmbtSetting.set BmbtSetting.replace u := by
  intro r
  rcases (xfsBmbtGetAll_eq_iff r _).mp rfl with ⟨hoff, hblock, hcount, hflag⟩
  have hl0 := r.l0.isLt
  have hl1 := r.l1.isLt
  rw [xfsBmbtGetAll_eq_iff]
  rw [XfsBmbtRecHost.startblock] at hblock ⊢
  cases u with
  | startoff v =>
      have hset := setStartoff_toNat r h
      have hkept : (xfsBmbtSetStartoff r v).l1 = r.l1 := rfl
      have hv : v.toNat < 2 ^ 54 := h
      simp only [BmbtSetting.set, BmbtSetting.replace, hset, hkept, hblock, hcount, hflag]
      exact ⟨by omega, by omega, trivial, by omega⟩
  | startblock v =>
      rcases setStartblock_toNat r h with ⟨hset0, hset1⟩
      have hv : v.toNat < 2 ^ 52 := h
      simp only [BmbtSetting.set, BmbtSetting.replace, hset0, hset1, hoff, hcount, hflag]
      exact ⟨by omega, by omega, by omega, by omega⟩
  | blockcount v =>
      have hset := setBlockcount_toNat r h
      have hkept : (xfsBmbtSetBlockcount r v).l0 = r.l0 := rfl
      have hv : v.toNat < 2 ^ 21 := h
      simp only [BmbtSetting.set, BmbtSetting.replace, hset, hkept, hoff, hblock, hflag]
      exact ⟨trivial, by omega, by omega, trivial⟩
  | state v =>
      have hset := setState_toNat r v
      have hkept : (xfsBmbtSetState r v).l1 = r.l1 := by
        cases v <;> rfl
      have hv : (extentFlag v).toNat ≤ 1 := by
        cases v <;> decide
      simp only [BmbtSetting.set, BmbtSetting.replace, hset, hkept, hoff, hblock, hcount]
      exact ⟨by omega, by omega, trivial, by omega⟩

/-! ## One field at a time -/

/-- A record forgets nothing of what it says. -/
theorem xfsBmbtGetAll_injective : Function.Injective (xfsBmbtGetAll .linux64) := by
  intro r r' h
  rw [← xfsBmbtSetAll_getAll r r, h, xfsBmbtSetAll_getAll]

/-- Replacements of different fields commute. -/
theorem BmbtSetting.replace_comm {u v : BmbtSetting} (h : u.field ≠ v.field) (s : XfsBmbtIrec) :
    u.replace (v.replace s) = v.replace (u.replace s) := by
  cases u <;> cases v <;> first | rfl | exact absurd rfl h

/-- One setting for each field. -/
def bmbtSettings (startoff startblock blockcount : BitVec 64) (state : XfsExntst) :
    List BmbtSetting :=
  [.startoff startoff, .startblock startblock, .blockcount blockcount, .state state]

variable {startoff startblock blockcount : BitVec 64} {state : XfsExntst}

theorem eq_or_field_ne {u v : BmbtSetting}
    (hu : u ∈ bmbtSettings startoff startblock blockcount state)
    (hv : v ∈ bmbtSettings startoff startblock blockcount state) :
    u = v ∨ u.field ≠ v.field := by
  simp only [bmbtSettings, List.mem_cons, List.not_mem_nil, or_false] at hu hv
  rcases hu with rfl | rfl | rfl | rfl <;> rcases hv with rfl | rfl | rfl | rfl <;>
    simp [BmbtSetting.field]

/-- On a record, every setter changes its own field only, setters of different fields
commute, and setting all fields in any order is {lit}`xfs_bmbt_set_allf`. -/
structure OwnFieldOnly (r : XfsBmbtRecHost) (startoff startblock blockcount : BitVec 64)
    (state : XfsExntst) : Prop where
  own : ∀ u ∈ bmbtSettings startoff startblock blockcount state,
    xfsBmbtGetAll .linux64 (u.set r) = u.replace (xfsBmbtGetAll .linux64 r)
  commute : ∀ u ∈ bmbtSettings startoff startblock blockcount state,
    ∀ v ∈ bmbtSettings startoff startblock blockcount state,
      u.field ≠ v.field → u.set (v.set r) = v.set (u.set r)
  all : ∀ us : List BmbtSetting,
    us.Perm (bmbtSettings startoff startblock blockcount state) →
      us.foldl (fun r u => u.set r) r =
        xfsBmbtSetAllf .linux64 r startoff startblock blockcount state

/-- The assertions on a start block and a block count are as wide as the fields; the one on
a file offset is not. -/
theorem fits_of_admitted
    (h : ∀ u ∈ bmbtSettings startoff startblock blockcount state, u.Admitted)
    (hoff : startoff.toNat < 2 ^ 54) :
    ∀ u ∈ bmbtSettings startoff startblock blockcount state, u.Fits := by
  simp only [bmbtSettings, List.forall_mem_cons] at h ⊢
  rcases h with ⟨-, hblock, hcount, -⟩
  refine ⟨hoff, ?_, ?_, trivial, ?_⟩
  · exact (and_xfsMask64hi_eq_zero_iff startblock 12).mp hblock
  · exact (and_xfsMask64hi_eq_zero_iff blockcount 43).mp hcount
  · simp

/-- Settings that fit, one for each field, make the record that
{lit}`xfs_bmbt_set_allf` makes, in whatever order they are made. -/
theorem foldl_set_eq_setAllf
    (h : ∀ u ∈ bmbtSettings startoff startblock blockcount state, u.Fits)
    {us : List BmbtSetting} (hperm : us.Perm (bmbtSettings startoff startblock blockcount state))
    (r : XfsBmbtRecHost) :
    us.foldl (fun r u => u.set r) r =
      xfsBmbtSetAllf .linux64 r startoff startblock blockcount state := by
  have hfits := h
  simp only [bmbtSettings, List.forall_mem_cons] at hfits
  rcases hfits with ⟨hoff, hblock, hcount, -⟩
  let e : Extent :=
    { brStartoff := startoff
      brStartblock := startblock
      brBlockcount := blockcount
      brState := state
      startoff_lt := hoff
      startblock_lt := hblock
      blockcount_lt := hcount }
  apply xfsBmbtGetAll_injective
  calc
    xfsBmbtGetAll .linux64 (us.foldl (fun r u => u.set r) r) =
        us.foldl (fun s u => u.replace s) (xfsBmbtGetAll .linux64 r) :=
      view_foldl (fun u hu => tracks_set (h u (hperm.mem_iff.mp hu))) r
    _ = (bmbtSettings startoff startblock blockcount state).foldl (fun s u => u.replace s)
          (xfsBmbtGetAll .linux64 r) := by
      apply hperm.foldl_eq'
      intro u hu v hv s
      rcases eq_or_field_ne (hperm.mem_iff.mp hu) (hperm.mem_iff.mp hv) with rfl | hne
      · rfl
      · exact (BmbtSetting.replace_comm hne s).symm
    _ = e.toXfsBmbtIrec := rfl
    _ = xfsBmbtGetAll .linux64
          (xfsBmbtSetAllf .linux64 r startoff startblock blockcount state) :=
      (xfsBmbtGetAll_words e).symm

/-- With arguments that their assertions let pass, the setters keep to their fields exactly
when the file offset has 54 bits. -/
theorem ownFieldOnly_iff (r : XfsBmbtRecHost)
    (h : ∀ u ∈ bmbtSettings startoff startblock blockcount state, u.Admitted) :
    OwnFieldOnly r startoff startblock blockcount state ↔ startoff.toNat < 2 ^ 54 := by
  constructor
  · intro hown
    have hoff := hown.own (.startoff startoff) (by simp [bmbtSettings])
    have hlt := brStartoff_lt .linux64 (BmbtSetting.set (.startoff startoff) r)
    rw [hoff] at hlt
    exact hlt
  · intro hoff
    have hfits := fits_of_admitted h hoff
    refine ⟨fun u hu => tracks_set (hfits u hu) r, fun u hu v hv hne => ?_, fun us hus => ?_⟩
    · exact (tracks_set (hfits u hu)).commute xfsBmbtGetAll_injective (tracks_set (hfits v hv))
        (BmbtSetting.replace_comm hne) r
    · exact foldl_set_eq_setAllf hfits hus r

/-- The widest arguments that fit, on a record with all bits set. -/
theorem ownFieldOnly_widest :
    OwnFieldOnly ⟨BitVec.allOnes 64, BitVec.allOnes 64⟩ (BitVec.ofNat 64 (2 ^ 54 - 1))
      (BitVec.ofNat 64 (2 ^ 52 - 1)) (BitVec.ofNat 64 (2 ^ 21 - 1)) .xfsExtNorm :=
  (ownFieldOnly_iff _ (by decide)).mpr (by decide)

/-- The assertion on a file offset lets a 55th bit pass, which ends up as the state of the
extent. -/
theorem not_ownFieldOnly_wideOffset :
    (BmbtSetting.startoff (BitVec.ofNat 64 (2 ^ 54))).Admitted ∧
      (xfsBmbtGetAll .linux64 (xfsBmbtSetStartoff ⟨0, 0⟩ (BitVec.ofNat 64 (2 ^ 54)))).brState =
        .xfsExtUnwritten ∧
      ¬OwnFieldOnly ⟨0, 0⟩ (BitVec.ofNat 64 (2 ^ 54)) 0 0 .xfsExtNorm := by
  refine ⟨by decide, by decide, fun h => ?_⟩
  have hoff := h.own (.startoff (BitVec.ofNat 64 (2 ^ 54))) (by simp [bmbtSettings])
  exact absurd hoff (by decide)

end Xfsd
