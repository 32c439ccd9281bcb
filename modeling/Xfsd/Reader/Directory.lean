import Xfsd.OnDisk.Dir2SfFormat
import Xfsd.OnDisk.Encode
import Xfsd.Tslib.ReadFile
import Mathlib.Data.List.GetD

/-!
# XFSD - Looking a component up in a directory

The entry loop of the reader, over directories that the short-form format can
store.  The loop compares the length of the component as a 32-bit number, and
the reader runs it only when exactly one of the two header counters is zero.

Main results:

- Theorem {lit}`sfLookup_eq`: on a stored directory the loop finds the first entry
  that it takes for the component, and looks at nothing after it.
- Theorem {lit}`decodesDirectory_iff`: the lookup step agrees with the format
  exactly on nonempty directories without 8-byte inode numbers, up to component
  lengths that wrap.
-/

namespace Xfsd

open Foundation

/-! ## Components -/

/-- A path component: no NUL and no slash. -/
def IsComponent (name : List Byte) : Prop :=
  ∀ c ∈ name, c ≠ 0 ∧ c ≠ slash

instance (name : List Byte) : Decidable (IsComponent name) :=
  inferInstanceAs (Decidable (∀ c ∈ name, _))

/-- What may follow a component in a path. -/
def EndsComponent (rest : List Byte) : Prop :=
  rest = [] ∨ ∃ rest', rest = slash :: rest'

theorem skipComponent_append {name rest : List Byte} (hname : IsComponent name)
    (hrest : EndsComponent rest) : skipComponent (name ++ rest) = rest := by
  induction name with
  | nil =>
      rcases hrest with rfl | ⟨rest', rfl⟩
      · rfl
      · simp [skipComponent]
  | cons c name ih =>
      rcases List.forall_mem_cons.mp hname with ⟨hc, hname⟩
      rw [List.cons_append, skipComponent, if_pos hc]
      exact ih hname

theorem componentLen_append {name rest : List Byte} (hname : IsComponent name)
    (hrest : EndsComponent rest) :
    componentLen (name ++ rest) = BitVec.ofNat 32 name.length := by
  rw [componentLen, skipComponent_append hname hrest, List.length_append,
    Nat.add_sub_cancel]

/-! ## Names -/

/-- Strings without NULs compare equal over a length exactly when their bytes do. -/
theorem strNcmp_eq_zero_iff {s1 s2 : Nat → Byte} {n : Nat} (hne : ∀ i < n, s2 i ≠ 0) :
    strNcmp s1 s2 n = 0 ↔ ∀ i < n, s1 i = s2 i := by
  induction n generalizing s1 s2 with
  | zero => simp [strNcmp]
  | succ n ih =>
      have htail : strNcmp (fun i => s1 (i + 1)) (fun i => s2 (i + 1)) n = 0 ↔
          ∀ i < n, s1 (i + 1) = s2 (i + 1) := ih fun i hi => hne (i + 1) (by omega)
      by_cases hhead : s1 0 = s2 0
      · have hnul : ¬s1 0 = 0 := hhead ▸ hne 0 (by omega)
        rw [strNcmp, if_neg (not_not.mpr hhead), if_neg hnul, htail]
        constructor
        · intro h i hi
          cases i with
          | zero => exact hhead
          | succ i => exact h i (by omega)
        · intro h i hi
          exact h (i + 1) (by omega)
      · rw [strNcmp, if_pos hhead]
        constructor
        · intro hdiff
          exact absurd (BitVec.eq_of_toNat_eq (by omega)) hhead
        · intro h
          exact absurd (h 0 (by omega)) hhead

/-- The entry is taken for the component: its name is a prefix, and the lengths agree as
32-bit numbers. -/
def SfEntry.MatchedBy (name : List Byte) (e : SfEntry) : Prop :=
  e.name <+: name ∧ name.length % 2 ^ 32 = e.name.length

instance (name : List Byte) : DecidablePred (SfEntry.MatchedBy name) :=
  fun _ => inferInstanceAs (Decidable (_ ∧ _))

/-- An entry with the component's name is taken for it. -/
theorem SfEntry.matchedBy_of_eq {e : SfEntry} {name : List Byte} (h : e.name = name) :
    e.MatchedBy name := by
  have hle := e.name_le
  refine ⟨h ▸ List.prefix_rfl, ?_⟩
  rw [← h]
  omega

/-- A component that some entry is named by is too short for its length to wrap. -/
theorem SfEntry.matchedBy_iff_of_le {e : SfEntry} {name : List Byte}
    (h : name.length < 2 ^ 32) : e.MatchedBy name ↔ e.name = name := by
  refine ⟨fun hmatch => ?_, matchedBy_of_eq⟩
  have hlen := hmatch.2
  rw [Nat.mod_eq_of_lt h] at hlen
  exact hmatch.1.eq_of_length hlen.symm

/-- The comparison of the entry loop on a stored entry. -/
theorem matches_iff {m : Memory Byte} {a : Int} {e : SfEntry} {name : List Byte}
    (rest : List Byte) (hname : IsComponent name)
    (hlen : (sfepNamelen m a).toNat = e.name.length) (hspells : Spells m (sfepName a) e.name) :
    (BitVec.ofNat 32 name.length = (sfepNamelen m a).setWidth 32 ∧
        strNcmp (fun i => m (sfepName a + i)) (fun i => (name ++ rest).getD i 0)
          (BitVec.ofNat 32 name.length).toNat = 0) ↔ e.MatchedBy name := by
  have hle := e.name_le
  have hlens : BitVec.ofNat 32 name.length = (sfepNamelen m a).setWidth 32 ↔
      name.length % 2 ^ 32 = e.name.length := by
    rw [← BitVec.toNat_inj, BitVec.toNat_ofNat, BitVec.toNat_setWidth, hlen]
    omega
  unfold SfEntry.MatchedBy
  rw [hlens, and_comm]
  apply and_congr_left
  intro hmod
  have hlong : e.name.length ≤ name.length := hmod ▸ Nat.mod_le _ _
  have hget : ∀ i, i < e.name.length → (name ++ rest).getD i 0 = name.getD i 0 := by
    intro i hi
    rw [List.getD_append _ _ _ _ (by omega)]
  have hnul : ∀ i < e.name.length, (fun i => (name ++ rest).getD i 0) i ≠ 0 := by
    intro i hi
    simp only
    rw [hget i hi, List.getD_eq_getElem _ _ (by omega)]
    exact (hname _ (List.getElem_mem _)).1
  rw [BitVec.toNat_ofNat, hmod, strNcmp_eq_zero_iff hnul, List.prefix_iff_getElem]
  constructor
  · intro h
    refine ⟨hlong, fun i hi => ?_⟩
    have hbyte := h i hi
    rw [hget i hi, List.getD_eq_getElem _ _ (by omega), hspells i hi] at hbyte
    exact hbyte
  · intro h i hi
    rcases h with ⟨_, h⟩
    rw [hget i hi, List.getD_eq_getElem _ _ (by omega), hspells i hi]
    exact h i hi

/-! ## The entry loop -/

/-- The entry loop on stored entries finds the first one it takes for the component, and
looks at nothing after it. -/
theorem sfScan_eq {m : Memory Byte} {hdr : Int} {wide : Bool} {name rest : List Byte}
    (hname : IsComponent name) (hwide : wide = decide (sfHdrI8count m hdr ≠ 0))
    (es : List SfEntry) (hnarrow : ∀ e ∈ es, wide = false → e.ino.toNat < 2 ^ 32) (a : Int)
    (hspells : Spells m a (es.flatMap (SfEntry.encode wide))) :
    sfScan m hdr (name ++ rest) (BitVec.ofNat 32 name.length) es.length a =
      { found := (es.find? fun e => e.MatchedBy name).map SfEntry.ino
        seen := (entryAddrs wide a es).take
          ((es.findIdx fun e => e.MatchedBy name) + 1) } := by
  induction es generalizing a with
  | nil => rfl
  | cons e es ih =>
      rcases List.forall_mem_cons.mp hnarrow with ⟨hfirst, hothers⟩
      rw [List.flatMap_cons, spells_append_iff] at hspells
      rcases hspells with ⟨hentry, hrest⟩
      rcases SfEntry.reads hwide hfirst hentry with ⟨hlen, hspell, hino, hnext⟩
      have hmatch := matches_iff rest hname hlen hspell
      rw [List.length_cons, sfScan, hnext]
      by_cases h : e.MatchedBy name
      · rw [if_pos (hmatch.mpr h), hino]
        simp [h, List.findIdx_cons, entryAddrs]
      · rw [if_neg fun hcode => h (hmatch.mp hcode), ih hothers _ hrest]
        simp [h, List.findIdx_cons, entryAddrs]

/-- An entry loop with something to do looks at the first entry. -/
theorem sfScan_seen_ne_nil (m : Memory Byte) (hdr : Int) (fileName : List Byte)
    (nameLen : BitVec 32) {tot : Nat} (htot : 0 < tot) (a : Int) :
    (sfScan m hdr fileName nameLen tot a).seen ≠ [] := by
  cases tot with
  | zero => omega
  | succ tot =>
      rw [sfScan]
      split <;> simp

/-! ## The lookup step -/

/-- The entries that a lookup looks at: none unless the entry loop is reached. -/
def examinedEntries (m : Memory Byte) (raw : Int) (cur : XfsIcdinode) (fileName : List Byte) :
    List Int :=
  if (cur.IsDir ∧ cur.diFormat = xfsDinodeFmtLocal) ∧
      ¬(sfHdrCount m (xfsDforkDptr raw) = 0 ↔ sfHdrI8count m (xfsDforkDptr raw) = 0) then
    (sfLookup m raw fileName).seen
  else []

/-- The lookup step treats a stored directory as the format means it: it looks at the
entries in order and no further than the first one with the component's name, and goes
on with that entry's inode or gives up with -4. -/
structure DecodesDirectory (m : Memory Byte) (raw : Int) (cur : XfsIcdinode) (d : SfDir)
    (name rest : List Byte) (nextIno : BitVec 64) : Prop where
  result : lookupStep m raw cur (name ++ rest) nextIno =
    match d.lookup name with
    | some e => .ok (rest, e.ino)
    | none => .error (-4)
  examined : examinedEntries m raw cur (name ++ rest) =
    (d.addrs (xfsDforkDptr raw)).take (d.entries.findIdx (fun e => e.name = name) + 1)

section StoredDirectory

variable {m : Memory Byte} {raw : Int} {cur : XfsIcdinode} {d : SfDir}
  {name rest : List Byte} {nextIno : BitVec 64}

/-- The two counters of a stored directory. -/
theorem counts_iff (hspells : Spells m (xfsDforkDptr raw) d.encode) :
    (sfHdrCount m (xfsDforkDptr raw) = 0 ↔ d.entries = []) ∧
      (sfHdrI8count m (xfsDforkDptr raw) = 0 ↔ d.i8count = 0) := by
  rcases SfDir.reads hspells with ⟨hcount, hi8count, -, -⟩
  refine ⟨?_, ?_⟩
  · rw [← BitVec.toNat_inj, hcount]
    exact List.length_eq_zero_iff
  · rw [← BitVec.toNat_inj, hi8count]
    exact Iff.rfl

/-- The scan of a stored directory with 4-byte inode numbers. -/
theorem sfLookup_eq (hspells : Spells m (xfsDforkDptr raw) d.encode) (hi8 : d.i8count = 0)
    (hname : IsComponent name) (hrest : EndsComponent rest) :
    sfLookup m raw (name ++ rest) =
      { found := (d.entries.find? fun e => e.MatchedBy name).map SfEntry.ino
        seen := (d.addrs (xfsDforkDptr raw)).take
          ((d.entries.findIdx fun e => e.MatchedBy name) + 1) } := by
  rcases SfDir.reads hspells with ⟨hcount, hi8count, hfirst, hentries⟩
  have hwide := SfDir.wide_eq (spells_append_iff.mp hspells).1
  rw [sfLookup, hcount, hi8count, hi8, Nat.add_zero, hfirst, componentLen_append hname hrest]
  exact sfScan_eq hname hwide d.entries (fun e he _ => SfDir.ino_lt_of_narrow hi8 he) _ hentries

/-- The lookup step on a stored directory that the reader supports. -/
theorem lookupStep_stored (hdir : cur.IsDir ∧ cur.diFormat = xfsDinodeFmtLocal)
    (hspells : Spells m (xfsDforkDptr raw) d.encode) (hcount : d.entries ≠ [])
    (hi8 : d.i8count = 0) (hname : IsComponent name) (hrest : EndsComponent rest)
    (hpos : name ≠ []) :
    lookupStep m raw cur (name ++ rest) nextIno =
      match d.entries.find? fun e => e.MatchedBy name with
      | some e => .ok (rest, e.ino)
      | none => .error (-4) := by
  rcases counts_iff hspells with ⟨hzero, hzero8⟩
  have hcounts : ¬(sfHdrCount m (xfsDforkDptr raw) = 0 ↔
      sfHdrI8count m (xfsDforkDptr raw) = 0) := by
    rw [hzero, hzero8]
    exact fun h => hcount (h.mpr hi8)
  rw [lookupStep_of_scan hdir hcounts, sfLookup_eq hspells hi8 hname hrest,
    skipComponent_append hname hrest]
  cases d.entries.find? fun e => e.MatchedBy name with
  | some e => rfl
  | none =>
      have htail : name ++ rest ≠ rest := fun h => hpos (List.append_left_eq_self.mp h)
      simp [htail]

/-- The empty component leaves the inode as it is. -/
theorem lookupStep_stored_nil (hdir : cur.IsDir ∧ cur.diFormat = xfsDinodeFmtLocal)
    (hspells : Spells m (xfsDforkDptr raw) d.encode) (hcount : d.entries ≠ [])
    (hi8 : d.i8count = 0) (hrest : EndsComponent rest) :
    lookupStep m raw cur rest nextIno = .ok (rest, nextIno) := by
  rcases counts_iff hspells with ⟨hzero, hzero8⟩
  have hcounts : ¬(sfHdrCount m (xfsDforkDptr raw) = 0 ↔
      sfHdrI8count m (xfsDforkDptr raw) = 0) := by
    rw [hzero, hzero8]
    exact fun h => hcount (h.mpr hi8)
  have hnil : IsComponent ([] : List Byte) := by simp [IsComponent]
  have hskip : skipComponent rest = rest := skipComponent_append hnil hrest
  have hscan := sfLookup_eq hspells hi8 hnil hrest
  have hnone : d.entries.find? (fun e => e.MatchedBy []) = none := by
    refine List.find?_eq_none.mpr fun e _ hmatch => ?_
    have hlen := (of_decide_eq_true hmatch).2
    have hpos := e.name_pos
    simp only [List.length_nil, Nat.zero_mod] at hlen
    omega
  rw [List.nil_append, hnone] at hscan
  rw [lookupStep_of_scan hdir hcounts, hscan, hskip]
  simp

/-- The lookup step agrees with the format exactly on nonempty directories without 8-byte
inode numbers, as long as no entry's name passes for a longer component whose length
wraps to that of the name. -/
theorem decodesDirectory_iff (hdir : cur.IsDir ∧ cur.diFormat = xfsDinodeFmtLocal)
    (hspells : Spells m (xfsDforkDptr raw) d.encode) (hname : IsComponent name)
    (hpos : name ≠ []) (hrest : EndsComponent rest) :
    DecodesDirectory m raw cur d name rest nextIno ↔
      d.entries ≠ [] ∧ d.i8count = 0 ∧
        ∀ e ∈ d.entries, e.MatchedBy name → e.name = name := by
  rcases counts_iff hspells with ⟨hzero, hzero8⟩
  constructor
  · intro h
    rcases h with ⟨hresult, hexamined⟩
    by_cases hcounts : d.entries = [] ↔ d.i8count = 0
    · -- the reader gives up before the entry loop, with a code of its own
      rw [lookupStep_of_counts hdir (by rw [hzero, hzero8]; exact hcounts)] at hresult
      cases hlookup : d.lookup name <;> rw [hlookup] at hresult <;> cases hresult
    · have hcounts' : ¬(sfHdrCount m (xfsDforkDptr raw) = 0 ↔
          sfHdrI8count m (xfsDforkDptr raw) = 0) := by
        rw [hzero, hzero8]
        exact hcounts
      by_cases hempty : d.entries = []
      · -- the parent's number alone sends the reader into the loop
        rcases SfDir.reads hspells with ⟨hcount, hi8count, hfirst, -⟩
        rw [examinedEntries, if_pos ⟨hdir, hcounts'⟩] at hexamined
        have hi8 : d.i8count ≠ 0 := fun h => hcounts (iff_of_true hempty h)
        have hseen : (sfLookup m raw (name ++ rest)).seen ≠ [] := by
          refine sfScan_seen_ne_nil _ _ _ _ ?_ _
          rw [hcount, hi8count]
          omega
        rw [hexamined, SfDir.addrs, hempty] at hseen
        simp [entryAddrs] at hseen
      · have hi8 : d.i8count = 0 := by
          by_contra hne
          exact hcounts (iff_of_false hempty hne)
        refine ⟨hempty, hi8, fun e he hmatch => ?_⟩
        by_contra hne
        -- the entry is taken for a component that no entry can be named by
        have hlong : 2 ^ 32 ≤ name.length := by
          by_contra hshort
          exact hne ((SfEntry.matchedBy_iff_of_le (by omega)).mp hmatch)
        have hlookup : d.lookup name = none := by
          refine List.find?_eq_none.mpr fun e' _ heq => ?_
          have hle := e'.name_le
          have hlen := congrArg List.length (of_decide_eq_true heq)
          omega
        rw [lookupStep_stored hdir hspells hempty hi8 hname hrest hpos, hlookup] at hresult
        cases hfind : d.entries.find? fun e => e.MatchedBy name with
        | some e' =>
            rw [hfind] at hresult
            cases hresult
        | none =>
            exact List.find?_eq_none.mp hfind e he (decide_eq_true hmatch)
  · intro h
    rcases h with ⟨hcount, hi8, hexact⟩
    have hpred : ∀ e ∈ d.entries, decide (e.MatchedBy name) = decide (e.name = name) := by
      intro e he
      exact decide_eq_decide.mpr ⟨hexact e he, SfEntry.matchedBy_of_eq⟩
    have hcounts : ¬(sfHdrCount m (xfsDforkDptr raw) = 0 ↔
        sfHdrI8count m (xfsDforkDptr raw) = 0) := by
      rw [hzero, hzero8]
      exact fun h => hcount (h.mpr hi8)
    refine ⟨?_, ?_⟩
    · rw [lookupStep_stored hdir hspells hcount hi8 hname hrest hpos, SfDir.lookup,
        List.find?_congr hpred]
    · have hindex : d.entries.findIdx (fun e => e.MatchedBy name) =
          d.entries.findIdx fun e => e.name = name :=
        le_antisymm (List.findIdx_le_findIdx fun e he h => (hpred e he).trans h)
          (List.findIdx_le_findIdx fun e he h => (hpred e he).symm.trans h)
      rw [examinedEntries, if_pos ⟨hdir, hcounts⟩, sfLookup_eq hspells hi8 hname hrest, hindex]

end StoredDirectory

/-- A directory with one entry, which needs 8-byte inode numbers. -/
def bigDir : SfDir where
  parent := 8
  entries :=
    [{ name := [0x61#8], offset := 0, ino := 0x100000005#64, name_pos := by decide,
       name_le := by decide, ino_lt := by decide }]
  parent_lt := by decide
  count_le := by decide
  i8count_le := by decide

/-- The memory that holds the inode of a directory. -/
def dirMemory (d : SfDir) : Memory Byte :=
  spelling 0 (inodeBytes dirCore d.encode)

theorem dirMemory_spells (d : SfDir) : Spells (dirMemory d) (xfsDforkDptr 0) d.encode :=
  spells_dataFork (spells_spelling 0 _)

/-- The second entry of a small directory is found. -/
theorem decodesDirectory_twoFileDir :
    DecodesDirectory (dirMemory twoFileDir) 0 (xfsDinodeFromDisk (dirMemory twoFileDir) 0)
      twoFileDir [0x78#8] [] 10 :=
  (decodesDirectory_iff (by decide +kernel) (dirMemory_spells twoFileDir) (by decide)
    (by decide) (Or.inl rfl)).mpr (by decide)

/-- The one entry of a directory with 8-byte inode numbers is not found: the lookup
returns -2. -/
theorem not_decodesDirectory_bigDir :
    ((xfsDinodeFromDisk (dirMemory bigDir) 0).IsDir ∧
        (xfsDinodeFromDisk (dirMemory bigDir) 0).diFormat = xfsDinodeFmtLocal) ∧
      Spells (dirMemory bigDir) (xfsDforkDptr 0) bigDir.encode ∧ IsComponent [0x61#8] ∧
      ¬DecodesDirectory (dirMemory bigDir) 0 (xfsDinodeFromDisk (dirMemory bigDir) 0) bigDir
        [0x61#8] [] 8 := by
  refine ⟨by decide +kernel, dirMemory_spells bigDir, by decide, fun h => ?_⟩
  have hresult := h.result
  rw [lookupStep_of_counts (by decide +kernel) (by decide +kernel)] at hresult
  cases hresult

end Xfsd
