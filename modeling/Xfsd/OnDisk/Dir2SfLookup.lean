import Xfsd.OnDisk.Dir2SfRuns

/-!
# XFSD - Looking names up in short-form directories

The functions {lit}`xfs_dir2_sf_lookup`, {lit}`xfs_dir_cilookup_result` and
{lit}`xfs_dir_lookup`, with both ways to compare names that {lit}`xfs_dir_mount` chooses from.
Where names are compared without case, a name that is there as it is wins over one that differs
in case, wherever they stand.

Main results:

- Theorems {lit}`XfsNameops.compname_eq_exact_iff` and {lit}`XfsNameops.compname_eq_case_iff`:
  what the comparisons mean.
- Theorem {lit}`XfsDirInode.Stores.lookup_eq`: a lookup finds what the directory has.
-/

namespace Xfsd

open Foundation

/-! ## Comparisons -/

/-- {lit}`mp->m_dirnameops`: {lit}`xfs_default_nameops`, or {lit}`xfs_ascii_ci_nameops` with the
kernel's {lit}`tolower`. -/
inductive XfsNameops where
  | default
  | asciiCi (tolower : Byte → Byte)

/-- The loop of {lit}`xfs_ascii_ci_compname`. -/
def asciiCiLoop (tolower : Byte → Byte) : List Byte → List Byte → XfsDacmp → XfsDacmp
  | x :: xs, y :: ys, result =>
      if x = y then asciiCiLoop tolower xs ys result
      else if tolower x ≠ tolower y then .different
      else asciiCiLoop tolower xs ys .case
  | _, _, result => result

/-- {lit}`xfs_ascii_ci_compname`. -/
def xfsAsciiCiCompname (tolower : Byte → Byte) (args : XfsDaArgs) (name : List Byte) :
    XfsDacmp :=
  if args.name.length ≠ name.length then .different
  else asciiCiLoop tolower args.name name .exact

namespace XfsNameops

/-- {lit}`m_dirnameops->compname`. -/
def compname : XfsNameops → XfsDaArgs → List Byte → XfsDacmp
  | default => xfsDaCompname
  | asciiCi tolower => xfsAsciiCiCompname tolower

/-- Two names are the same but for case. -/
def Folds : XfsNameops → List Byte → List Byte → Prop
  | default, _, _ => False
  | asciiCi tolower, xs, ys => xs.map tolower = ys.map tolower

instance (ops : XfsNameops) (xs ys : List Byte) : Decidable (ops.Folds xs ys) :=
  match ops with
  | default => inferInstanceAs (Decidable False)
  | asciiCi _ => inferInstanceAs (Decidable (_ = _))

section Loop

variable {tolower : Byte → Byte} {xs ys : List Byte} {result : XfsDacmp}

theorem asciiCiLoop_eq_exact_iff (hlength : xs.length = ys.length) :
    asciiCiLoop tolower xs ys result = .exact ↔ result = .exact ∧ xs = ys := by
  induction xs generalizing ys result with
  | nil =>
      obtain rfl : ys = [] := List.eq_nil_of_length_eq_zero hlength.symm
      simp [asciiCiLoop]
  | cons x xs ih =>
      cases ys with
      | nil => cases hlength
      | cons y ys =>
          rw [List.length_cons, List.length_cons, Nat.succ_inj] at hlength
          rw [asciiCiLoop]
          by_cases hxy : x = y
          · rw [if_pos hxy, ih hlength, hxy, List.cons_inj_right]
          · rw [if_neg hxy]
            by_cases hlower : tolower x ≠ tolower y
            · simp [hlower, hxy]
            · simp [hlower, hxy, ih hlength]

theorem asciiCiLoop_eq_case_iff (hlength : xs.length = ys.length) (hresult : result ≠ .different) :
    asciiCiLoop tolower xs ys result = .case ↔
      (result = .case ∨ xs ≠ ys) ∧ xs.map tolower = ys.map tolower := by
  induction xs generalizing ys result with
  | nil =>
      obtain rfl : ys = [] := List.eq_nil_of_length_eq_zero hlength.symm
      simp [asciiCiLoop]
  | cons x xs ih =>
      cases ys with
      | nil => cases hlength
      | cons y ys =>
          rw [List.length_cons, List.length_cons, Nat.succ_inj] at hlength
          rw [asciiCiLoop]
          by_cases hxy : x = y
          · rw [if_pos hxy, ih hlength hresult, hxy]
            simp
          · rw [if_neg hxy]
            by_cases hlower : tolower x ≠ tolower y
            · simp [hlower]
            · have hcase : XfsDacmp.case ≠ .different := by decide
              rw [if_neg hlower, ih hlength hcase]
              simp [hxy, not_not.mp hlower]

end Loop

variable {ops : XfsNameops} {args : XfsDaArgs} {name : List Byte}

/-- Names that compare as the same are the same. -/
theorem compname_eq_exact_iff : ops.compname args name = .exact ↔ name = args.name := by
  cases ops with
  | default =>
      rw [compname, xfsDaCompname]
      by_cases hname : args.name = name
      · simp [hname]
      · simp [hname, Ne.symm hname]
  | asciiCi tolower =>
      rw [compname, xfsAsciiCiCompname]
      by_cases hlength : args.name.length ≠ name.length
      · rw [if_pos hlength]
        exact iff_of_false (by decide) fun hname => hlength (congrArg List.length hname.symm)
      · rw [if_neg hlength, asciiCiLoop_eq_exact_iff (not_not.mp hlength)]
        exact ⟨fun hall => hall.2.symm, fun hname => ⟨rfl, hname.symm⟩⟩

/-- Names that compare as different in case are not the same, but are in lower case. -/
theorem compname_eq_case_iff :
    ops.compname args name = .case ↔ name ≠ args.name ∧ ops.Folds args.name name := by
  cases ops with
  | default =>
      rw [compname, xfsDaCompname]
      refine iff_of_false ?_ And.right
      split <;> decide
  | asciiCi tolower =>
      rw [compname, xfsAsciiCiCompname, Folds]
      by_cases hlength : args.name.length ≠ name.length
      · rw [if_pos hlength]
        refine iff_of_false (by decide) fun hall => hlength ?_
        simpa using congrArg List.length hall.2
      · have hexact : XfsDacmp.exact ≠ .different := by decide
        rw [if_neg hlength, asciiCiLoop_eq_case_iff (not_not.mp hlength) hexact]
        simp [eq_comm]

end XfsNameops

/-! ## The lookup -/

/-- The locals of the loop of {lit}`xfs_dir2_sf_lookup`, with the fields of {lit}`args` that it
changes. -/
structure LookupLocals where
  cmpresult : XfsDacmp
  inumber : BitVec 64
  ciSfep : Option Int

/-- The loop of {lit}`xfs_dir2_sf_lookup`, and whether the function returns from it. -/
def lookupLoop (m : Memory Byte) (compname : List Byte → XfsDacmp) :
    Nat → Int → LookupLocals → LookupLocals × Bool
  | 0, _, s => (s, false)
  | n + 1, sfep, s =>
      let cmp := compname (sfepNameBytes m sfep)
      if cmp ≠ .different ∧ cmp ≠ s.cmpresult then
        let s := { s with cmpresult := cmp, inumber := xfsDir2SfeGetIno m 0 sfep }
        if cmp = .exact then (s, true)
        else
          lookupLoop m compname n (xfsDir2SfNextentry m 0 sfep) { s with ciSfep := some sfep }
      else lookupLoop m compname n (xfsDir2SfNextentry m 0 sfep) s

/-- What a lookup leaves: the error number, and {lit}`inumber` and {lit}`value` of the
arguments. -/
structure LookupResult where
  error : XfsErrno
  inumber : BitVec 64
  value : Option (List Byte)

/-- {lit}`xfs_dir_cilookup_result`; {lit}`allocates` says whether {lit}`kmem_alloc` finds
memory. -/
def xfsDirCilookupResult (allocates : Bool) (args : XfsDaArgs) (cmpresult : XfsDacmp)
    (name : List Byte) : XfsErrno × Option (List Byte) :=
  if cmpresult = .different then (.enoent, none)
  else if cmpresult ≠ .case ∨ args.opFlags &&& xfsDaOpCilookup = 0 then (.eexist, none)
  else if allocates then (.eexist, some name)
  else (.enomem, none)

/-- {lit}`xfs_dir2_sf_lookup`. -/
def xfsDir2SfLookup (ops : XfsNameops) (allocates : Bool) (dp : XfsDirInode)
    (args : XfsDaArgs) : LookupResult :=
  if BelowParent dp.iD.diSize.toInt then ⟨.eio, args.inumber, none⟩
  else
    let m := dp.iDf.bytes
    if args.name = [dot] then ⟨.eexist, dp.iIno, none⟩
    else if args.name = [dot, dot] then ⟨.eexist, xfsDir2SfGetParentIno m 0, none⟩
    else
      let (s, returned) := lookupLoop m (ops.compname args) (sfHdrCount m 0).toNat
        (xfsDir2SfFirstentry m 0)
        { cmpresult := .different, inumber := args.inumber, ciSfep := none }
      if returned then ⟨.eexist, s.inumber, none⟩
      else
        match s.ciSfep with
        | none => ⟨.enoent, s.inumber, none⟩
        | some sfep =>
            let (error, value) :=
              xfsDirCilookupResult allocates args s.cmpresult (sfepNameBytes m sfep)
            ⟨error, s.inumber, value⟩

/-- {lit}`xfs_dir_lookup`, in a directory inside an inode: the inode number, and the name that is
there if a caller with {lit}`ci_name` gets another one than its own. -/
def xfsDirLookup (ops : XfsNameops) (allocates : Bool) (dp : XfsDirInode) (name : List Byte)
    (ciName : Bool) : Except XfsErrno (BitVec 64 × Option (List Byte)) :=
  let args : XfsDaArgs :=
    { name := name
      inumber := 0
      total := 0
      opFlags := xfsDaOpOknoent ||| if ciName then xfsDaOpCilookup else 0 }
  let r := xfsDir2SfLookup ops allocates dp args
  if r.error = .eexist then .ok (r.inumber, r.value) else .error r.error

/-- What a name stands for in a directory: the directory itself, its parent, the entry with the
name, or else the first one whose name differs in case only. -/
def SfDir.resolve (d : SfDir) (ops : XfsNameops) (own : BitVec 64) (name : List Byte) :
    Option (BitVec 64 × Option (List Byte)) :=
  if name = [dot] then some (own, none)
  else if name = [dot, dot] then some (d.parent, none)
  else
    match d.view.find name with
    | some ino => some (ino, none)
    | none => (d.entries.find? fun e => ops.Folds name e.name).map fun e => (e.ino, some e.name)

/-! ## The loop -/

section Loop

variable {m : Memory Byte} {compname : List Byte → XfsDacmp} {wide : Bool} {a : Int} {e : SfEntry}
  {es es' : List SfEntry} {s : LookupLocals}

/-- Names that are different, or no better than one found before, change nothing. -/
theorem lookupLoop_skip (h : EntriesAt m wide a (es ++ es'))
    (hskip : ∀ x ∈ es, compname x.name = .different ∨ compname x.name = s.cmpresult) :
    lookupLoop m compname (es ++ es').length a s =
      lookupLoop m compname es'.length
        (a + (es.flatMap (SfEntry.encode wide)).length) s := by
  induction es generalizing a with
  | nil => simp
  | cons x es ih =>
      rcases List.forall_mem_cons.mp hskip with ⟨hx, hes⟩
      rw [List.cons_append] at h
      have hread := h.head
      have hno : ¬(compname x.name ≠ .different ∧ compname x.name ≠ s.cmpresult) :=
        fun hall => hx.elim hall.1 hall.2
      rw [List.cons_append, List.length_cons, lookupLoop, hread.name, if_neg hno, hread.next,
        ih h.tail hes, length_flatMap_cons, Nat.cast_add, add_assoc]

/-- The first entry with the name ends the search. -/
theorem lookupLoop_exact (h : EntriesAt m wide a (es ++ e :: es'))
    (hes : ∀ x ∈ es, compname x.name ≠ .exact) (he : compname e.name = .exact)
    (hs : s.cmpresult ≠ .exact) :
    (lookupLoop m compname (es ++ e :: es').length a s).2 = true ∧
      (lookupLoop m compname (es ++ e :: es').length a s).1.inumber = e.ino := by
  induction es generalizing a s with
  | nil =>
      rw [List.nil_append] at h
      have hread := h.head
      rw [List.nil_append, List.length_cons, lookupLoop, hread.name, he]
      simp [hs.symm, hread.ino]
  | cons x es ih =>
      rcases List.forall_mem_cons.mp hes with ⟨hx, hes⟩
      rw [List.cons_append] at h
      have hread := h.head
      rw [List.cons_append, List.length_cons, lookupLoop, hread.name, hread.next]
      by_cases hbetter : compname x.name ≠ .different ∧ compname x.name ≠ s.cmpresult
      · rw [if_pos hbetter]
        dsimp only
        rw [if_neg hx]
        exact ih h.tail hes hx
      · rw [if_neg hbetter]
        exact ih h.tail hes hs

/-- An entry whose name differs in case only is kept where no entry has the name. -/
theorem lookupLoop_case (h : EntriesAt m wide a (es ++ e :: es'))
    (hes : ∀ x ∈ es, compname x.name = .different) (he : compname e.name = .case)
    (hes' : ∀ x ∈ es', compname x.name ≠ .exact) (hs : s.cmpresult = .different) :
    ∃ sfep, lookupLoop m compname (es ++ e :: es').length a s =
      ({ cmpresult := .case, inumber := e.ino, ciSfep := some sfep }, false) ∧
      sfepNameBytes m sfep = e.name := by
  have hskip := lookupLoop_skip (s := s) h fun x hx => .inl (hes x hx)
  rw [entriesAt_append_iff] at h
  have hread := h.2.head
  have hrest : ∀ x ∈ es', compname x.name = .different ∨ compname x.name = .case := by
    intro x hx
    have hne := hes' x hx
    cases hcmp : compname x.name with
    | different => exact .inl rfl
    | exact => exact absurd hcmp hne
    | case => exact .inr rfl
  let s' : LookupLocals :=
    { cmpresult := .case
      inumber := e.ino
      ciSfep := some (a + (es.flatMap (SfEntry.encode wide)).length) }
  have hend := lookupLoop_skip (s := s') ((List.append_nil es').symm ▸ h.2.tail) hrest
  rw [List.append_nil] at hend
  refine ⟨_, ?_, hread.name⟩
  rw [hskip, List.length_cons, lookupLoop, hread.name, he, hread.next, hread.ino, hs,
    if_pos ⟨nofun, nofun⟩]
  exact hend

end Loop

/-! ## What a lookup finds -/

namespace XfsDirInode

variable {b : Build} {dp : XfsDirInode} {d : SfDir} {args : XfsDaArgs} {e : SfEntry}
  {before after : List SfEntry} {ops : XfsNameops} {allocates : Bool}

/-- A lookup of a name that is not special starts its loop at the first entry. -/
theorem Stores.sfLookup_eq (h : dp.Stores b d) (hplain : ¬SpecialName args.name) :
    let r := lookupLoop dp.iDf.bytes (ops.compname args) d.entries.length
      d.image.encodeHdr.length { cmpresult := .different, inumber := args.inumber, ciSfep := none }
    xfsDir2SfLookup ops allocates dp args =
      if r.2 then ⟨.eexist, r.1.inumber, none⟩
      else
        match r.1.ciSfep with
        | none => ⟨.enoent, r.1.inumber, none⟩
        | some sfep =>
            let (error, value) :=
              xfsDirCilookupResult allocates args r.1.cmpresult (sfepNameBytes dp.iDf.bytes sfep)
            ⟨error, r.1.inumber, value⟩ := by
  intro r
  rw [xfsDir2SfLookup, if_neg h.holds.not_belowParent]
  dsimp only
  rw [if_neg fun hdot => hplain (.inl hdot), if_neg fun hdots => hplain (.inr hdots),
    h.holds.hdr.count, h.holds.hdr.firstentry]
  rfl

/-- A lookup of a name that is there. -/
theorem Stores.sfLookup_exact (h : dp.Stores b d) (args : XfsDaArgs)
    (hplain : ¬SpecialName args.name) (hentries : d.entries = before ++ e :: after)
    (hname : e.name = args.name) :
    xfsDir2SfLookup ops allocates dp args = ⟨.eexist, e.ino, none⟩ := by
  have hstored : EntriesAt dp.iDf.bytes d.image.wide d.image.encodeHdr.length d.entries :=
    h.holds.entries
  have hnodup := h.nodup
  rw [hentries] at hstored hnodup
  have hbefore : ∀ x ∈ before, ops.compname args x.name ≠ .exact := fun x hx hexact =>
    Keyed.ne_of_nodup hnodup x (List.mem_append_left _ hx)
      ((XfsNameops.compname_eq_exact_iff.mp hexact).trans hname.symm)
  rcases lookupLoop_exact
    (s := { cmpresult := .different, inumber := args.inumber, ciSfep := none }) hstored hbefore
    (XfsNameops.compname_eq_exact_iff.mpr hname) nofun with ⟨hreturned, hino⟩
  rw [h.sfLookup_eq hplain, hentries]
  dsimp only
  rw [hreturned, if_pos rfl, hino]

/-- A lookup of a name that is there in another case only. -/
theorem Stores.sfLookup_case (h : dp.Stores b d) (args : XfsDaArgs)
    (hplain : ¬SpecialName args.name) (hentries : d.entries = before ++ e :: after)
    (hne : ∀ x ∈ d.entries, x.name ≠ args.name)
    (hbefore : ∀ x ∈ before, ¬ops.Folds args.name x.name) (he : ops.Folds args.name e.name) :
    xfsDir2SfLookup ops allocates dp args =
      let (error, value) := xfsDirCilookupResult allocates args .case e.name
      ⟨error, e.ino, value⟩ := by
  have hstored : EntriesAt dp.iDf.bytes d.image.wide d.image.encodeHdr.length d.entries :=
    h.holds.entries
  rw [hentries] at hstored hne
  have hnoExact : ∀ x ∈ before ++ e :: after, ops.compname args x.name ≠ .exact :=
    fun x hx hexact => hne x hx (XfsNameops.compname_eq_exact_iff.mp hexact)
  have hdifferent : ∀ x ∈ before, ops.compname args x.name = .different := by
    intro x hx
    have hnoCase := mt XfsNameops.compname_eq_case_iff.mp fun hall => hbefore x hx hall.2
    have hnoExact' := hnoExact x (List.mem_append_left _ hx)
    cases hcmp : ops.compname args x.name with
    | different => rfl
    | exact => exact absurd hcmp hnoExact'
    | case => exact absurd hcmp hnoCase
  have hmem : e ∈ before ++ e :: after := List.mem_append_right _ List.mem_cons_self
  rcases lookupLoop_case
    (s := { cmpresult := .different, inumber := args.inumber, ciSfep := none }) hstored hdifferent
    (XfsNameops.compname_eq_case_iff.mpr ⟨hne e hmem, he⟩)
    (fun x hx => hnoExact x (List.mem_append_right _ (List.mem_cons_of_mem _ hx))) rfl with
    ⟨sfep, hloop, hname⟩
  rw [h.sfLookup_eq hplain, hentries, hloop]
  dsimp only
  rw [if_neg Bool.false_ne_true, hname]

/-- A lookup of a name that is not there. -/
theorem Stores.sfLookup_none (h : dp.Stores b d) (args : XfsDaArgs)
    (hplain : ¬SpecialName args.name) (hne : ∀ x ∈ d.entries, x.name ≠ args.name)
    (hfolds : ∀ x ∈ d.entries, ¬ops.Folds args.name x.name) :
    xfsDir2SfLookup ops allocates dp args = ⟨.enoent, args.inumber, none⟩ := by
  have hstored : EntriesAt dp.iDf.bytes d.image.wide d.image.encodeHdr.length d.entries :=
    h.holds.entries
  have hdifferent : ∀ x ∈ d.entries, ops.compname args x.name = .different := by
    intro x hx
    have hnoExact : ops.compname args x.name ≠ .exact :=
      mt XfsNameops.compname_eq_exact_iff.mp (hne x hx)
    have hnoCase := mt XfsNameops.compname_eq_case_iff.mp fun hall => hfolds x hx hall.2
    cases hcmp : ops.compname args x.name with
    | different => rfl
    | exact => exact absurd hcmp hnoExact
    | case => exact absurd hcmp hnoCase
  have hloop := lookupLoop_skip
    (s := { cmpresult := .different, inumber := args.inumber, ciSfep := none })
    ((List.append_nil d.entries).symm ▸ hstored) fun x hx => .inl (hdifferent x hx)
  rw [List.append_nil] at hloop
  rw [h.sfLookup_eq hplain, hloop, List.length_nil, lookupLoop]
  rfl

/-- A caller that asks for it gets the name of an entry that differs in case. -/
theorem xfsDirCilookupResult_case (allocates ciName : Bool) (name actual : List Byte) :
    xfsDirCilookupResult allocates
        ⟨name, 0, 0, xfsDaOpOknoent ||| if ciName then xfsDaOpCilookup else 0⟩ .case actual =
      if ciName then if allocates then (.eexist, some actual) else (.enomem, none)
      else (.eexist, none) := by
  have hflag : (xfsDaOpOknoent ||| if ciName then xfsDaOpCilookup else 0) &&& xfsDaOpCilookup = 0 ↔
      ciName = false := by
    cases ciName <;> decide
  rw [xfsDirCilookupResult]
  simp only [hflag]
  cases ciName <;> rfl

/-- A lookup finds what the directory has; memory may be short only for a caller that wants the
name of an entry that differs in case. -/
theorem Stores.lookup_eq (h : dp.Stores b d) (ops : XfsNameops) (allocates : Bool)
    (name : List Byte) (ciName : Bool) :
    xfsDirLookup ops allocates dp name ciName =
      match d.resolve ops dp.iIno name with
      | none => .error .enoent
      | some (ino, none) => .ok (ino, none)
      | some (ino, some actual) =>
          if ciName then if allocates then .ok (ino, some actual) else .error .enomem
          else .ok (ino, none) := by
  rw [xfsDirLookup, SfDir.resolve]
  by_cases hdot : name = [dot]
  · rw [if_pos hdot, xfsDir2SfLookup, if_neg h.holds.not_belowParent]
    simp [hdot]
  by_cases hdots : name = [dot, dot]
  · have hparent : xfsDir2SfGetParentIno dp.iDf.bytes 0 = d.parent := h.holds.hdr.parent
    rw [if_neg hdot, if_pos hdots, xfsDir2SfLookup, if_neg h.holds.not_belowParent]
    simp [hdots, hparent]
  have hplain : ¬SpecialName name := fun hspecial => hspecial.elim hdot hdots
  rw [if_neg hdot, if_neg hdots]
  cases hfind : d.view.find name with
  | some ino =>
      rcases Keyed.exists_of_find_eq_some hfind with
        ⟨before, e, after, hentries, hname, hino, -⟩
      rw [h.sfLookup_exact ⟨name, 0, 0, _⟩ hplain hentries hname, hino]
      rfl
  | none =>
      have hne := SfDir.view_find_eq_none_iff.mp hfind
      cases hfirst : d.entries.find? fun e => ops.Folds name e.name with
      | none =>
          have hfolds : ∀ x ∈ d.entries, ¬ops.Folds name x.name := by
            simpa [List.find?_eq_none] using hfirst
          rw [h.sfLookup_none ⟨name, 0, 0, _⟩ hplain hne hfolds]
          rfl
      | some e =>
          rcases List.find?_eq_some_iff_append.mp hfirst with ⟨he, before, after, hentries, hbefore⟩
          rw [h.sfLookup_case ⟨name, 0, 0, _⟩ hplain hentries hne
            (by simpa using hbefore) (of_decide_eq_true he), xfsDirCilookupResult_case]
          cases ciName <;> cases allocates <;> rfl

/-- The letters in ASCII without case. -/
def asciiLower (c : Byte) : Byte :=
  if 0x41 ≤ c ∧ c ≤ 0x5a then c + 0x20 else c

/-- A file is added under the name {lit}`a` and found under the name {lit}`A`. -/
theorem lookup_eq_case :
    ∃ dp', xfsDir2SfAddname .linux64 plainKernel 255
        (xfsDir2SfCreate plainKernel emptyInode 128) ⟨[0x61], 132, 0, 0⟩ =
          some (.returned .ok dp') ∧
      xfsDirLookup (.asciiCi asciiLower) true dp' [0x41] true = .ok (132, some [0x61]) := by
  have hcreated : (xfsDir2SfCreate plainKernel emptyInode 128).Stores .linux64
      (emptyDir 128 (by decide)) :=
    (emptyInode_fresh.create _ (by decide) plainKernel).1
  let e : SfEntry := ⟨[0x61], 0, 132, by decide, by decide, by decide⟩
  let args : XfsDaArgs := ⟨[0x61], 132, 0, 0⟩
  have hasks : args.Asks e := ⟨rfl, rfl⟩
  have hroom : (emptyDir 128 (by decide)).HasRoom (xfsDir2SfCreate plainKernel emptyInode 128) e :=
    ⟨by decide +kernel, by decide +kernel⟩
  have hfuel : (emptyDir 128 (by decide)).entries.length < 255 := by decide
  rcases hcreated.addname_added (k := plainKernel) hasks (by decide) (fun _ _ _ => rfl) hroom
    (by decide) (by simp [emptyDir]) (by decide) hfuel with ⟨dp', d', hrun, hadds, hstores, -⟩
  refine ⟨dp', hrun, ?_⟩
  rcases hadds.entries with ⟨before, after, offset, hempty, hentries⟩
  rcases List.append_eq_nil_iff.mp hempty.symm with ⟨rfl, rfl⟩
  have hresolve : d'.resolve (.asciiCi asciiLower) dp'.iIno [0x41] = some (132, some [0x61]) := by
    rw [SfDir.resolve, if_neg (by decide), if_neg (by decide), SfDir.view, hentries]
    rfl
  rw [hstores.lookup_eq, hresolve]
  rfl

end XfsDirInode

end Xfsd
