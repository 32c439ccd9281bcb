import Xfsd.Linux.RbtreeErase

/-!
# XFSD - Erasure from a red-black tree

A node that lacks a child is replaced by its other child.  A node with two children is
replaced by the next node, which is first taken from its own place.  The memory of the
erased node is left alone.

Main results:

- Theorem {lit}`rbDescend_spec`: the walk down one side ends at the outermost node.
- Theorem {lit}`rbErase_spec`: the erased node is taken out of the order and the tree is
  red-black again.
-/

namespace Xfsd

open Foundation ColorTree TreePath

variable {w : Nat} {h₀ : RbHeap w} {s : RbState w} {d : Side} {c c' : Color} {n : Nat}
  {a b m p : NodePtr w} {l r t sib x y z : ColorTree (NodePtr w)} {k k' : TreePath (NodePtr w)}
  {q : Option (NodePtr w)}

/-! ## The way down one side -/

/-- The walk down one side follows a path along that side. -/
theorem rbDescend_plug (hs : Stands s.heap q (k.plug t)) (hk : k.Along d) (ht : t ≠ .nil)
    (fuel : Nat) :
    rbDescend d (fuel + k.length) (ptr (k.plug t).root) s = rbDescend d fuel (ptr t.root) s := by
  induction k generalizing t fuel with
  | top => rfl
  | under e c a sib up ih =>
      obtain ⟨rfl, hup⟩ := hk
      have hnode := (stands_branch_iff.mp (stands_plug_iff (k := up) |>.mp hs).2).1
      have hchild : t.root ≠ none := fun h => ht (root_eq_none_iff.mp h)
      rw [plug_under] at hs ⊢
      rw [TreePath.length, ← Nat.add_assoc, Nat.add_right_comm, ih hs hup (by simp)]
      simp [rbDescend, hnode, hchild]

/-- The walk down one side ends at the outermost node. -/
theorem rbDescend_spec (hs : Stands s.heap q (k.plug (branch d c .nil a x))) (hk : k.Along d)
    {fuel : Nat} (hfuel : k.length < fuel) :
    rbDescend d fuel (ptr (k.plug (branch d c .nil a x)).root) s = some a.val := by
  obtain ⟨fuel, rfl⟩ : ∃ m, fuel = m + 1 + k.length := ⟨fuel - k.length - 1, by omega⟩
  have hnode := (stands_branch_iff.mp (stands_plug_iff.mp hs).2).1
  rw [rbDescend_plug hs hk (by simp)]
  simp [rbDescend, hnode]

/-! ## A node with two children -/

/-- The next node leaves its place in the right subtree, which then stands below it. -/
theorem rbEraseDetach_spec
    (hnodup : (m :: (t.toList ++ k.elems)).Nodup) (ha : a ∉ m :: (t.toList ++ k.elems))
    (hk : k.Along .left) (hnode : s.heap a = some (cell .left q c l.root (k.rootOf (some m))))
    (hpath : PathStands s.heap (some a) k (some m))
    (hm : s.heap m = some (cell .left (k.parent (some a)) c' none t.root))
    (ht : Stands s.heap (some m) t) :
    ∃ s' q', rbEraseDetach a m (ptr t.root) (ptr (k.parent (some a))) s =
        some (ptr (k.parent (some m)), s') ∧
      s'.heap m = some (cell .left q' c' none (k.plug t).root) ∧
      Stands s'.heap (some m) (k.plug t) ∧ s'.rbNode = s.rbNode ∧
      Frame s.heap s'.heap (m :: (t.toList ++ k.elems)) := by
  cases k with
  | top => exact ⟨s, some a, by simp [rbEraseDetach, parent], hm, ht, rfl, .refl _⟩
  | under e cp p sib up =>
      obtain ⟨rfl, -⟩ := hk
      simp only [List.nodup_cons, List.nodup_append, List.mem_cons, List.mem_append,
        mem_elems_under] at hnodup ha
      obtain ⟨b, hb, -⟩ := exists_rootOf up p
      have hroot : (plug (.under .left cp p sib up) t).root = some b := by rw [root_plug, ← hb]; rfl
      -- the subtree below the next node takes its place
      obtain ⟨s₁, hs₁, ht₁, hroot₁, hf₁⟩ :=
        RbState.setLinkParent_spec ht (by grind) (some p)
      have hpath₁ := hpath.frame hf₁ (by simp only [mem_elems_under]; grind)
      have hp₁ := hpath₁.1
      let s₂ := s₁.put p (cell .left (up.parent (some a)) cp t.root sib.root)
      have hf₂ : Frame s₁.heap s₂.heap [p] := s₁.frame_put p _
      have hpath₂ : PathStands s₂.heap (some a) (.under .left cp p sib up) t.root :=
        RbState.pathStands_put hpath₁ hnodup.2.2.1 t.root
      have ha₂ : s₂.heap a = some (cell .left q c l.root (some b)) := by
        rw [(hf₁.trans hf₂).heap_eq (by grind), hnode, ← hb]
        rfl
      have hm₂ : s₂.heap m = some (cell .left (some p) c' none t.root) := by
        rw [(hf₁.trans hf₂).heap_eq (by grind), hm]
        rfl
      -- the next node takes over the right subtree
      let s₃ := s₂.put m (cell .left (some p) c' none (some b))
      have hf₃ : Frame s₂.heap s₃.heap [m] := s₂.frame_put m _
      have ha₃ : s₃.heap a = some (cell .left q c l.root (some b)) := by
        rw [hf₃.heap_eq (by grind), ha₂]
      have hr₂ : Stands s₂.heap (some a) (plug (.under .left cp p sib up) t) :=
        stands_plug_iff.mpr ⟨hpath₂, ht₁.frame hf₂ (by grind)⟩
      have hnd : (plug (.under .left cp p sib up) t).toList.Nodup := by
        rw [nodup_plug_iff, List.nodup_append]
        exact ⟨hnodup.2.1, hnodup.2.2.1, fun b hb b' hb' =>
          hnodup.2.2.2 b hb b' ((mem_elems_under ..).mp hb')⟩
      have hmem : ∀ b ∈ (plug (.under .left cp p sib up) t).toList,
          b ∈ t.toList ∨ b = p ∨ b ∈ sib.toList ∨ b ∈ up.elems := by
        simp only [mem_toList_plug, mem_elems_under, imp_self, implies_true]
      obtain ⟨s₄, hs₄, hr₄, hroot₄, hf₄⟩ :=
        RbState.setLinkParent_spec (hr₂.frame hf₃ (by grind)) hnd (some m)
      refine ⟨s₄, some p, ?_, ?_, hr₄, ?_, ?_⟩
      · have hne : p ≠ a := by grind
        rw [RbState.setLinkParent, hroot, ptr_some, if_neg b.ne_null, ptr_some] at hs₄
        rw [ptr_some] at hs₁
        have hleft : s₁.update p (·.setChild .left (ptr t.root)) = some s₂ := by
          rw [RbState.update_eq hp₁, RbNode.setChild_cell]
        have hright : s₂.update m (·.setChild .right b) = some s₃ := by
          rw [RbState.update_eq hm₂, RbNode.setChild_right_cell_val]
        simp [rbEraseDetach, parent, hne, hs₁, hleft, ha₂, hright, ha₃, hs₄]
      · rw [hf₄.heap_eq (by grind), hroot]
        exact RbState.heap_put_self
      · rw [hroot₄]
        exact hroot₁
      · exact (((hf₁.trans hf₂).trans hf₃).trans hf₄).mono (by
          simp only [List.mem_append, List.mem_cons, List.not_mem_nil, or_false, mem_elems_under]
          grind)

/-- The next node takes the place of a node with two children. -/
theorem rbEraseSwap_eq {cm : Color}
    (hs : Holds h₀ s (k.plug (node c l a (k'.plug (branch .left cm .nil m t)))))
    (hk' : k'.Along .left) (hl : l ≠ .nil) {fuel : Nat} (hfuel : k'.length < fuel) :
    ∃ s' r, rbEraseSwap fuel a s =
        (if (colorBit cm : BitVec w) = 1#w then
          rbEraseColor fuel (ptr t.root) (ptr ((k'.comp (.under .right c m l k)).parent none)) s'
        else some s') ∧
      Holds (Function.update h₀ a (some r)) s' ((k'.comp (.under .right c m l k)).plug t) := by
  have hnodup := hs.nodup
  rw [nodup_plug_iff, toList, List.nodup_append, List.nodup_append, List.nodup_cons,
    nodup_plug_iff, List.nodup_append, (toList_branch_perm .left cm .nil t m).nodup_iff] at hnodup
  simp only [mem_toList_branch, toList_nil, List.not_mem_nil, false_or, List.nil_append,
    List.nodup_cons, List.mem_append, List.mem_cons, mem_toList_plug] at hnodup
  rcases stands_plug_iff.mp hs.stands with ⟨hk, ha, hstandl, hright⟩
  rcases stands_plug_iff.mp hright with ⟨hpath, hbranch⟩
  rcases stands_branch_iff.mp hbranch with ⟨hm, -, ht⟩
  have hroot : s.rbNode = ptr (k.rootOf (some a)) := by
    rw [hs.root, root_plug]
    rfl
  obtain ⟨b, hb⟩ : ∃ b, l.root = some b := by
    rcases exists_branch .left hl with ⟨c₁, x, b, y, rfl⟩
    exact ⟨b, root_branch ..⟩
  -- the link to the erased node leads to the next node
  obtain ⟨s₁, hs₁, hk₁, hroot₁, hf₁⟩ :=
    RbState.relink_spec hk hroot (by grind) (by grind) .left (some m)
  have ha₁ : s₁.heap a = some (cell .left (k.parent none) c l.root (k'.rootOf (some m))) := by
    rw [hf₁.heap_eq (by grind), ha, root_plug, root_branch]
  have hm₁ : s₁.heap m = some (cell .left (k'.parent (some a)) cm none t.root) := by
    rw [hf₁.heap_eq (by grind), hm]
    rfl
  -- the next node leaves its own place
  have hplace : (m :: (t.toList ++ k'.elems)).Nodup := by
    simp only [List.nodup_cons, List.nodup_append, List.mem_append]
    grind
  have hout : ∀ p ∈ m :: (t.toList ++ k'.elems), p ≠ a ∧ p ∉ l.toList ∧ p ∉ k.elems := by
    simp only [List.mem_cons, List.mem_append]
    grind
  obtain ⟨s₂, q, hs₂, hm₂, hr₂, hroot₂, hf₂⟩ :=
    rbEraseDetach_spec (l := l) hplace (fun hmem => (hout a hmem).1 rfl) hk' ha₁
      (hpath.frame hf₁ (by grind)) hm₁ (ht.frame hf₁ (by grind))
  have ha₂ : s₂.heap a = some (cell .left (k.parent none) c l.root (k'.rootOf (some m))) := by
    rw [hf₂.heap_eq (fun hmem => (hout a hmem).1 rfl), ha₁]
  -- it takes over the parent, the colour and the left subtree
  let s₃ := s₂.put m (cell .left (k.parent none) c none (k'.plug t).root)
  have hs₃ : s₂.update m (fun r => { r with rbParentColor :=
      (cell .left (k.parent none) c l.root (k'.rootOf (some m))).rbParentColor }) = some s₃ := by
    rw [RbState.update_eq hm₂, RbNode.cell_withParentColor]
  let s₄ := s₃.put m (cell .left (k.parent none) c l.root (k'.plug t).root)
  have hs₄ : s₃.update m (·.setChild .left (ptr l.root)) = some s₄ := by
    rw [RbState.update_eq RbState.heap_put_self, RbNode.setChild_cell]
  have hf₄ : Frame s₂.heap s₄.heap [m] :=
    ((s₂.frame_put m _).trans (s₃.frame_put m _)).mono (by simp)
  have ha₃ : s₃.heap a = s₂.heap a := (s₂.frame_put m _).heap_eq (by grind)
  have ha₄ : s₄.heap a = s₂.heap a := hf₄.heap_eq (by grind)
  obtain ⟨s₅, hs₅, hl₅, hroot₅, hf₅⟩ :=
    RbState.setLinkParent_spec (s := s₄) (t := l)
      (((hstandl.frame hf₁ (by grind)).frame hf₂ (by grind)).frame hf₄ (by grind)) (by grind)
      (some m)
  have hlink : ptr l.root ≠ 0#w := by
    rw [hb]
    exact b.ne_null
  rw [RbState.setLinkParent, if_neg hlink, ptr_some] at hs₅
  have hf : Frame s₁.heap s₅.heap ((m :: (t.toList ++ k'.elems)) ++ [m] ++ l.toList) :=
    (hf₂.trans hf₄).trans hf₅
  have hm₅ : s₅.heap m = some (cell .left (k.parent none) c l.root (k'.plug t).root) := by
    rw [hf₅.heap_eq (by grind)]
    exact RbState.heap_put_self
  have hr₅ : Stands s₅.heap (some m) (k'.plug t) := by
    refine hr₂.frame (hf₄.trans hf₅) fun b hb => ?_
    rw [mem_toList_plug] at hb
    grind
  have heq : (k'.comp (.under .right c m l k)).plug t = k.plug (node c l m (k'.plug t)) := by
    rw [plug_comp, plug_under]
    rfl
  have hlist : (k.plug (node c l a (k'.plug (branch .left cm .nil m t)))).toList.Perm
      (a :: (k.plug (node c l m (k'.plug t))).toList) := by
    rw [List.perm_iff_count]
    intro x
    simp only [toList_plug, toList, branch, List.count_append, List.count_cons, List.count_nil]
    omega
  have hdone := hs.leave hlist (hf₁.trans hf) (fun b hb => by
      simp only [mem_toList_plug, toList, List.mem_append, List.mem_cons, List.not_mem_nil] at hb ⊢
      grind) ha
    (stands_plug_iff.mpr ⟨hk₁.frame hf (by grind), hm₅, hl₅, hr₅⟩)
    (by rw [hroot₅, root_plug]; exact hroot₂.trans hroot₁)
  refine ⟨s₅, _, ?_, heq ▸ hdone⟩
  have hdescend := rbDescend_spec hright hk' hfuel
  rw [ptr_some] at hs₁
  simp [rbEraseSwap, ha, hdescend, hs₁, hm₁, hs₂, ha₂, hs₃, ha₃, hs₄, ha₄, hs₅, parent_comp]

/-! ## A node without a child on one side -/

variable [NeZero w]

/-- The subtree that takes the place of a node lacks a black node when that one was black. -/
theorem rbErase_recolor {fuel : Nat} {color : Color} (hfuel : k.length < fuel)
    (hs : Holds h₀ s (k.plug t)) {n : Nat} (hk : Accepts k color (color.above n))
    (ht : Balanced t c n) (hred : color = .red → c = .black) :
    ∃ s' t', (if (colorBit color : BitVec w) = 1#w then
        rbEraseColor fuel (ptr t.root) (ptr (k.parent none)) s else some s) = some s' ∧
      Holds h₀ s' t' ∧ RedBlack t' ∧ t'.toList = (k.plug t).toList := by
  simp only [colorBit_eq_one_iff]
  cases color with
  | red =>
      obtain rfl := hred rfl
      exact ⟨s, _, rfl, hs, hk.black_of_red.redBlack_plug ht, rfl⟩
  | black => exact rbEraseColor_spec fuel hfuel hs (lacks_of_balanced hk ht)

/-- A node without a child on one side is replaced by its other child. -/
theorem rbEraseSplice_spec (hs : Holds h₀ s (k.plug (branch d c .nil a t)))
    (hrb : RedBlack (k.plug (branch d c .nil a t))) {fuel : Nat} (hfuel : k.length < fuel) :
    ∃ s' t' node, rbEraseSplice fuel a (ptr t.root) s = some s' ∧
      Holds (Function.update h₀ a (some node)) s' t' ∧ RedBlack t' ∧
      t'.toList = (k.plug t).toList := by
  have hnodup := hs.nodup
  rw [nodup_plug_iff, List.nodup_append, (toList_branch_perm d c .nil t a).nodup_iff,
    List.nodup_cons, List.nodup_append] at hnodup
  simp only [mem_toList_branch, toList_nil, List.not_mem_nil, false_or, List.nil_append] at hnodup
  rcases stands_plug_iff.mp hs.stands with ⟨hk, hbranch⟩
  rcases stands_branch_iff.mp hbranch with ⟨ha, -, ht⟩
  rw [root_branch] at hk
  obtain ⟨s₁, hs₁, ht₁, hroot₁, hf₁⟩ :=
    RbState.setLinkParent_spec ht (by grind) (k.parent none)
  have hroot : s₁.rbNode = ptr (k.rootOf (some a)) := by
    rw [hroot₁, hs.root, root_plug, root_branch]
  obtain ⟨s₂, hs₂, hk₂, hroot₂, hf₂⟩ :=
    RbState.relink_spec (hk.frame hf₁ (by grind)) hroot (by grind) (by grind) .left t.root
  have hf : Frame s.heap s₂.heap (t.toList ++ k.elems) := hf₁.trans hf₂
  have hlist : (k.plug (branch d c .nil a t)).toList.Perm (a :: (k.plug t).toList) :=
    (toList_plug_perm ..).trans (((toList_branch_perm ..).append_right _).trans
      ((toList_plug_perm ..).symm.cons a))
  have h₂ := hs.leave hlist hf (by simp) ha
    (stands_plug_iff.mpr ⟨hk₂, ht₁.frame hf₂ (by grind)⟩) (by rw [hroot₂, root_plug])
  obtain ⟨c', n, hbal, hacc⟩ := exists_accepts hrb
  obtain ⟨c₁, m, hbt, hacc', hred⟩ := hacc.exists_below hbal
  obtain ⟨s', t', hs', h', hrb', hlist⟩ := rbErase_recolor hfuel h₂ hacc' hbt hred
  refine ⟨s', t', _, ?_, h', hrb', hlist⟩
  simp [rbEraseSplice, ha, hs₁, hs₂]
  simpa using hs'

/-! ## Erasure -/

/-- The erased node is taken out of the order and the tree is red-black again; the erased
node's memory stays in use and nothing outside the tree changes. -/
theorem rbErase_spec (hs : Holds h₀ s t) (hrb : RedBlack t) (ha : a ∈ t.toList) {fuel : Nat}
    (hfuel : t.height ≤ fuel) :
    ∃ s' t' r, rbErase fuel a s = some s' ∧ Holds (Function.update h₀ a (some r)) s' t' ∧
      RedBlack t' ∧ t'.toList = t.toList.erase a := by
  obtain ⟨k, c, l, r, rfl⟩ := exists_plug_of_mem ha
  have hnode := Holds.heap_branch (d := .left) hs
  have herase := erase_toList_plug k hs.nodup
  have hheight : ∀ (k' : TreePath (NodePtr w)) (t : ColorTree (NodePtr w)),
      k.plug (node c l a r) = k'.plug t → t ≠ .nil → k'.length < fuel := by
    intro k' t heq ht
    have hle := length_le_height k' t
    rw [heq] at hfuel
    cases t with
    | nil => exact absurd rfl ht
    | node c₁ l₁ a₁ r₁ =>
        simp only [ColorTree.height] at hle
        omega
  have hlength : k.length < fuel := hheight k _ rfl (by simp)
  by_cases hl : l = .nil
  · subst hl
    obtain ⟨s', t', r', hs', h', hrb', hlist⟩ := rbEraseSplice_spec (d := .left) hs hrb hlength
    refine ⟨s', t', r', ?_, h', hrb', ?_⟩
    · simpa [rbErase, hnode] using hs'
    · rw [hlist, herase, toList_plug]
      simp
  · by_cases hr : r = .nil
    · subst hr
      obtain ⟨s', t', r', hs', h', hrb', hlist⟩ :=
        rbEraseSplice_spec (d := .right) hs hrb hlength
      refine ⟨s', t', r', ?_, h', hrb', ?_⟩
      · simpa [rbErase, hnode, root_eq_none_iff, hl] using hs'
      · rw [hlist, herase, toList_plug]
        simp
    · obtain ⟨k', cm, m, x, hk', rfl⟩ := exists_outermost .left hr
      have hplug : k.plug (node c l a (k'.plug (branch .left cm .nil m x))) =
          (k'.comp (.under .right c a l k)).plug (branch .left cm .nil m x) := by
        rw [plug_comp]
        rfl
      have hlong := hheight _ _ hplug (by simp)
      rw [length_comp, TreePath.length] at hlong
      have hk'length : k'.length < fuel := by omega
      obtain ⟨s₁, r₁, hs₁, h₁⟩ := rbEraseSwap_eq hs hk' hl hk'length
      rw [hplug] at hrb
      obtain ⟨c', n, hbal, hacc⟩ := exists_accepts hrb
      obtain ⟨c₁, n', hbx, hacc', hred⟩ := hacc.exists_below hbal
      obtain ⟨s', t', hs', h', hrb', hlist⟩ :=
        rbErase_recolor (by rw [length_comp, TreePath.length]; omega) h₁ (hacc'.relabel m) hbx hred
      refine ⟨s', t', r₁, ?_, h', hrb', ?_⟩
      · have hleft : l.root ≠ none := fun h => hl (root_eq_none_iff.mp h)
        have hright : (k'.plug (branch .left cm .nil m x)).root ≠ none := fun h =>
          hr (root_eq_none_iff.mp h)
        simp only [rbErase, hnode, Option.bind_eq_bind, Option.bind_some,
          RbNode.rbLeft_cell_left, RbNode.rbRight_cell_left, ptr_eq_zero_iff, hleft, hright,
          if_false]
        exact hs₁.trans hs'
      · rw [hlist, herase, toList_plug, toList_plug, before_comp, after_comp, hk'.before_eq_nil]
        simp [branch, toList, before, after]

end Xfsd
