import Xfsd.Linux.RbtreeShape

/-!
# XFSD - What the primitives of the red-black tree do

A rotation and a change of colour at any place of a tree in memory, read as operations on
the tree.  Everything outside the tree's nodes keeps its contents.

Main results:

- Theorem {lit}`rbRotate_spec`: a rotation in memory is a rotation of the tree.
- Theorem {lit}`Holds.set_color`: a node can be painted.
-/

namespace Xfsd

open Foundation ColorTree TreePath

variable {w : Nat}

/-- A tree is the one that {lit}`root->rb_node` leads to, and all other memory is as in
{lit}`h₀`. -/
structure Holds (h₀ : RbHeap w) (s : RbState w) (t : ColorTree (NodePtr w)) : Prop where
  nodup : t.toList.Nodup
  stands : Stands s.heap none t
  root : s.rbNode = ptr t.root
  frame : ∀ p, (∀ a ∈ t.toList, p ≠ a.val) → s.heap p = h₀ p

variable {h₀ : RbHeap w} {s : RbState w} {d : Side} {c c₁ c₂ : Color} {a b : NodePtr w}
  {t x y z : ColorTree (NodePtr w)} {k : TreePath (NodePtr w)}

namespace Holds

/-- The node at the end of a path. -/
theorem heap_branch (hs : Holds h₀ s (k.plug (branch d c x a y))) :
    s.heap a = some (cell d (k.parent none) c x.root y.root) :=
  (stands_branch_iff.mp (stands_plug_iff.mp hs.stands).2).1

/-- A step that changes a tree's own nodes leads to the tree that then stands. -/
theorem step {s' : RbState w} {t' : ColorTree (NodePtr w)} {as : List (NodePtr w)}
    (hs : Holds h₀ s t) (hlist : t'.toList.Perm t.toList) (hf : Frame s.heap s'.heap as)
    (has : ∀ a ∈ as, a ∈ t.toList) (hstands : Stands s'.heap none t')
    (hroot : s'.rbNode = ptr t'.root) : Holds h₀ s' t' where
  nodup := hlist.nodup_iff.mpr hs.nodup
  stands := hstands
  root := hroot
  frame p hp := by
    have hp' : ∀ a ∈ t.toList, p ≠ a.val := fun a ha => hp a (hlist.mem_iff.mpr ha)
    rw [hf p fun a ha => hp' a (has a ha), hs.frame p hp']

/-- A step that changes a tree's own nodes and leaves one of them out, whose memory stays as
it is. -/
theorem leave {s' : RbState w} {t' : ColorTree (NodePtr w)} {as : List (NodePtr w)}
    {r : RbNode w} (hs : Holds h₀ s t) (hlist : t.toList.Perm (a :: t'.toList))
    (hf : Frame s.heap s'.heap as) (has : ∀ b ∈ as, b ∈ t'.toList) (hnode : s.heap a = some r)
    (hstands : Stands s'.heap none t') (hroot : s'.rbNode = ptr t'.root) :
    Holds (Function.update h₀ a (some r)) s' t' := by
  have hnodup := List.nodup_cons.mp (hlist.nodup_iff.mp hs.nodup)
  refine ⟨hnodup.2, hstands, hroot, fun p hp => ?_⟩
  rw [hf p fun b hb => hp b (has b hb)]
  by_cases hpa : p = a.val
  · subst hpa
    simpa using hnode
  · rw [Function.update_of_ne hpa]
    refine hs.frame p fun b hb => ?_
    rcases List.mem_cons.mp (hlist.mem_iff.mp hb) with rfl | hb
    · exact hpa
    · exact hp b hb

end Holds

/-- A rotation in memory is a rotation of the tree. -/
theorem rbRotate_spec (hs : Holds h₀ s (k.plug (branch d c₁ x a (branch d c₂ y b z)))) :
    ∃ s', rbRotate d a s = some s' ∧
      Holds h₀ s' (k.plug (branch d c₂ (branch d c₁ x a y) b z)) := by
  have hlist : (k.plug (branch d c₂ (branch d c₁ x a y) b z)).toList =
      (k.plug (branch d c₁ x a (branch d c₂ y b z))).toList :=
    toList_plug_congr k (toList_rotate d x y z a b c₁ c₂ c₂ c₁)
  have hnodup := hs.nodup
  rw [nodup_plug_iff, List.nodup_append, (toList_branch_perm d c₁ x _ a).nodup_iff,
    List.nodup_cons, List.nodup_append, (toList_branch_perm d c₂ y z b).nodup_iff,
    List.nodup_cons, List.nodup_append] at hnodup
  simp only [mem_toList_branch, List.mem_append] at hnodup
  rcases stands_plug_iff.mp hs.stands with ⟨hk, hbranch⟩
  rcases stands_branch_iff.mp hbranch with ⟨ha, hx, hright⟩
  rcases stands_branch_iff.mp hright with ⟨hb, hy, hz⟩
  rw [root_branch] at ha hk
  -- the node takes over the inner subtree
  let s₁ := s.put a (cell d (k.parent none) c₁ x.root y.root)
  have hf₁ : Frame s.heap s₁.heap [a] := s.frame_put _ _
  have hb₁ : s₁.heap b = some (cell d (some a) c₂ y.root z.root) := by
    rw [hf₁.heap_eq (by grind), hb]
  obtain ⟨s₂, hs₂, hy₂, hroot₂, hf₂⟩ :=
    RbState.setLinkParent_spec (hy.frame hf₁ (by grind)) (by grind) (some a)
  have hchild : (if ptr y.root = 0#w then some s₁
      else (s₁.heap b).bind fun r => s₁.update (r.child d) (·.rbSetParent a)) = some s₂ := by
    rw [← hs₂, RbState.setLinkParent, hb₁]
    simp
  have hb₂ : s₂.heap b = some (cell d (some a) c₂ y.root z.root) := by
    rw [hf₂.heap_eq (by grind), hb₁]
  -- its child goes above it
  let s₄ := s₂.put b (cell d (k.parent none) c₂ (some a) z.root)
  have hf₄ : Frame s.heap s₄.heap ([a] ++ y.toList ++ [b]) :=
    (hf₁.trans hf₂).trans (s₂.frame_put _ _)
  have hroot₄ : s₄.rbNode = ptr (k.rootOf (some a)) := by
    rw [RbState.rbNode_put, hroot₂, RbState.rbNode_put, hs.root, root_plug, root_branch]
  obtain ⟨s₅, hs₅, hk₅, hroot₅, hf₅⟩ :=
    RbState.relink_spec (hk.frame hf₄ (by grind)) hroot₄ (by grind) (by grind) d (some b)
  have ha₅ : s₅.heap a = some (cell d (k.parent none) c₁ x.root y.root) := by
    rw [hf₅.heap_eq (by grind), (s₂.frame_put _ _).heap_eq (by grind), hf₂.heap_eq (by grind)]
    exact RbState.heap_put_self
  have hb₅ : s₅.heap b = some (cell d (k.parent none) c₂ (some a) z.root) := by
    rw [hf₅.heap_eq (by grind)]
    exact RbState.heap_put_self
  let s₆ := s₅.put a (cell d (some b) c₁ x.root y.root)
  have hf₆ : Frame s₅.heap s₆.heap [a] := s₅.frame_put _ _
  have hf : Frame s.heap s₆.heap ([a] ++ y.toList ++ [b] ++ k.elems ++ [a]) :=
    (hf₄.trans hf₅).trans hf₆
  refine ⟨s₆, ?_, hs.step (.of_eq hlist) hf (by simp; grind) ?_ ?_⟩
  · simp only [rbRotate, ha, hb, RbState.update_eq ha, Option.bind_eq_bind, Option.bind_some,
      RbNode.child_other_cell, RbNode.rbParent_cell, RbNode.child_cell, ptr_some,
      RbNode.setChild_other_cell]
    rw [hchild]
    simp only [Option.bind_some, RbState.update_eq hb₂, RbNode.setChild_cell_val,
      RbState.update_eq RbState.heap_put_self, RbNode.rbSetParent_cell, RbState.put_put]
    change (s₄.relink d _ a (ptr (some b))).bind _ = _
    rw [hs₅, Option.bind_some, RbState.update_eq ha₅, RbNode.rbSetParent_cell_val]
  · rw [stands_plug_iff, stands_branch_iff, stands_branch_iff, root_branch, root_branch]
    refine ⟨hk₅.frame hf₆ (by grind), ?_, ⟨RbState.heap_put_self, hx.frame hf (by grind), ?_⟩,
      hz.frame hf (by grind)⟩
    · rw [hf₆.heap_eq (by grind), hb₅]
    · exact hy₂.frame (((s₂.frame_put _ _).trans hf₅).trans hf₆) (by grind)
  · rw [RbState.rbNode_put, hroot₅, root_plug, root_branch]

/-! ## Colours -/

/-- A node's colour in memory is its colour in the tree. -/
theorem Holds.set_color {f : RbNode w → RbNode w} (hs : Holds h₀ s (k.plug (branch d c x a y)))
    (hfun : f (cell d (k.parent none) c x.root y.root) =
      cell d (k.parent none) c₁ x.root y.root) :
    ∃ s', s.update a f = some s' ∧ Holds h₀ s' (k.plug (branch d c₁ x a y)) := by
  have hlist : (k.plug (branch d c₁ x a y)).toList = (k.plug (branch d c x a y)).toList :=
    toList_plug_congr k (toList_branch_congr d c₁ c a rfl rfl)
  have hnodup := hs.nodup
  rw [nodup_plug_iff, List.nodup_append, (toList_branch_perm d c x y a).nodup_iff,
    List.nodup_cons] at hnodup
  simp only [mem_toList_branch, List.mem_append] at hnodup
  rcases stands_plug_iff.mp hs.stands with ⟨hk, hbranch⟩
  rcases stands_branch_iff.mp hbranch with ⟨ha, hx, hy⟩
  have hf := s.frame_put a (cell d (k.parent none) c₁ x.root y.root)
  refine ⟨_, by rw [RbState.update_eq ha, hfun], hs.step (.of_eq hlist) hf (by simp) ?_ ?_⟩
  · rw [stands_plug_iff, stands_branch_iff, root_branch]
    rw [root_branch] at hk
    exact ⟨hk.frame hf (by grind), RbState.heap_put_self, hx.frame hf (by grind),
      hy.frame hf (by grind)⟩
  · rw [RbState.rbNode_put, hs.root, root_plug, root_plug, root_branch, root_branch]

/-- A node can be painted black. -/
theorem Holds.set_black (hs : Holds h₀ s (k.plug (branch d c x a y))) :
    ∃ s', s.update a RbNode.rbSetBlack = some s' ∧
      Holds h₀ s' (k.plug (branch d .black x a y)) :=
  hs.set_color (RbNode.rbSetBlack_cell _ _ _ _ _)

/-- A node can be painted red. -/
theorem Holds.set_red (hs : Holds h₀ s (k.plug (branch d c x a y))) :
    ∃ s', s.update a RbNode.rbSetRed = some s' ∧
      Holds h₀ s' (k.plug (branch d .red x a y)) :=
  hs.set_color (RbNode.rbSetRed_cell _ _ _ _ _)

/-- The root of a subtree can be painted black. -/
theorem Holds.set_root_black (hs : Holds h₀ s (k.plug t)) (ha : t.root = some a) :
    ∃ s', s.update a RbNode.rbSetBlack = some s' ∧ Holds h₀ s' (k.plug (t.paint .black)) := by
  cases t with
  | nil => cases ha
  | node c l b r =>
      cases ha
      exact Holds.set_black (d := .left) hs

variable [NeZero w]

/-- The test of a link for a red node reads the colour of the subtree. -/
theorem Holds.linkIsRed_eq (hs : Holds h₀ s (k.plug t)) :
    s.linkIsRed (ptr t.root) = some (decide (t.color = .red)) := by
  have ht := (stands_plug_iff.mp hs.stands).2
  cases t with
  | nil => simp [RbState.linkIsRed]
  | node c l b r =>
      cases c <;> simp [RbState.linkIsRed, ColorTree.root, ColorTree.color, ht.1]

/-- The test of a link for a black node reads the colour of the subtree. -/
theorem Holds.linkIsBlack_eq (hs : Holds h₀ s (k.plug t)) :
    s.linkIsBlack (ptr t.root) = some (decide (t.color = .black)) := by
  have ht := (stands_plug_iff.mp hs.stands).2
  cases t with
  | nil => simp [RbState.linkIsBlack]
  | node c l b r =>
      cases c <;> simp [RbState.linkIsBlack, ColorTree.root, ColorTree.color, ht.1]

end Xfsd
