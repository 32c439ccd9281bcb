import Xfsd.Linux.RbtreeUnlink

/-!
# XFSD - Walks through a red-black tree

The walks find the first and the last node of a tree and the neighbours of a node in the
order, and a node can be replaced by another one without rebalancing.

Main results:

- Theorems {lit}`rbFirst_spec` and {lit}`rbLast_spec`: the ends of the order.
- Theorems {lit}`rbNext_spec` and {lit}`rbPrev_spec`: the neighbours in the order.
- Theorem {lit}`rbReplaceNode_spec`: the new node stands where the old one stood.
-/

namespace Xfsd

open Foundation ColorTree TreePath

variable {w : Nat} {h₀ : RbHeap w} {s : RbState w} {d : Side} {c : Color}
  {a b : NodePtr w} {l r t x y : ColorTree (NodePtr w)} {k : TreePath (NodePtr w)}
  {fuel : Nat}

/-! ## The ends -/

/-- The walk to one end of a subtree that is not empty. -/
theorem Holds.exists_descend (hs : Holds h₀ s (k.plug t)) (ht : t ≠ .nil) (d : Side)
    (hfuel : t.height ≤ fuel) :
    ∃ (k' : TreePath (NodePtr w)) (c : Color) (m : NodePtr w) (x : ColorTree (NodePtr w)),
      k'.Along d ∧ t = k'.plug (branch d c .nil m x) ∧
      rbDescend d fuel (ptr t.root) s = some m.val := by
  obtain ⟨k', c, m, x, hk', rfl⟩ := exists_outermost d ht
  have hlong := length_le_height k' (branch d c .nil m x)
  have hpos : 1 ≤ (branch d c .nil m x).height := by
    cases d <;> simp [branch, ColorTree.height]
  exact ⟨k', c, m, x, hk', rfl,
    rbDescend_spec (stands_plug_iff.mp hs.stands).2 hk' (by omega)⟩

/-- {lit}`rb_first` finds the first node. -/
theorem rbFirst_spec (hs : Holds h₀ s t) (hfuel : t.height ≤ fuel) :
    rbFirst fuel s = some (ptr t.toList.head?) := by
  rw [rbFirst, rbEnd, hs.root]
  by_cases ht : t = .nil
  · simp [ht]
  · obtain ⟨k', c, m, x, hk', rfl, hdescend⟩ :=
      Holds.exists_descend (k := .top) hs ht .left hfuel
    simp [root_eq_none_iff, ht, hdescend, hk'.head?_toList]

/-- {lit}`rb_last` finds the last node. -/
theorem rbLast_spec (hs : Holds h₀ s t) (hfuel : t.height ≤ fuel) :
    rbLast fuel s = some (ptr t.toList.getLast?) := by
  rw [rbLast, rbEnd, hs.root]
  by_cases ht : t = .nil
  · simp [ht]
  · obtain ⟨k', c, m, x, hk', rfl, hdescend⟩ :=
      Holds.exists_descend (k := .top) hs ht .right hfuel
    simp [root_eq_none_iff, ht, hdescend, hk'.getLast?_toList]

/-! ## Neighbours -/

/-- The walk up ends at the nearest node on its side. -/
theorem rbAscend_spec (hs : Holds h₀ s (k.plug t)) (ha : t.root = some a)
    (hfuel : k.length < fuel) : rbAscend d fuel a s = some (ptr (k.nearest d)) := by
  induction k generalizing t a fuel with
  | top =>
      obtain ⟨fuel, rfl⟩ : ∃ m, fuel = m + 1 := ⟨fuel - 1, by omega⟩
      obtain ⟨c, x, b, y, rfl⟩ := exists_branch d (t := t) (by rintro rfl; cases ha)
      obtain rfl : b = a := by simpa using ha
      simp [rbAscend, hs.heap_branch, nearest]
  | under e c p sib up ih =>
      obtain ⟨fuel, rfl⟩ : ∃ m, fuel = m + 1 := ⟨fuel - 1, by omega⟩
      have hp := Holds.heap_branch (k := up) hs
      have hlength : up.length < fuel := by simpa [TreePath.length] using hfuel
      have hnext := ih (t := branch e c t p sib) hs (root_branch ..) hlength
      obtain ⟨c', x, b, y, rfl⟩ := exists_branch d (t := t) (by rintro rfl; cases ha)
      obtain rfl : b = a := by simpa using ha
      have hnode := hs.heap_branch
      rcases d.eq_or_eq_other e with rfl | rfl
      · simp [rbAscend, hnode, hp, nearest, hnext]
      · have hne : sib.root ≠ some b := by
          by_cases hsib : sib = .nil
          · simp [hsib]
          · simpa using root_ne_sibling up _ hs.nodup hsib
        simp [rbAscend, hnode, hp, nearest, hne]

/-- The neighbour of a node is the end of its subtree on that side, or the nearest node on the
way up. -/
theorem rbNeighbour_spec (hs : Holds h₀ s (k.plug (branch d c x a y)))
    (hfuel : (k.plug (branch d c x a y)).height ≤ fuel) :
    (x = .nil ∧ rbNeighbour d fuel a s = some (ptr (k.nearest d))) ∨
      ∃ (k' : TreePath (NodePtr w)) (c' : Color) (m : NodePtr w) (z : ColorTree (NodePtr w)),
        k'.Along d.other ∧ x = k'.plug (branch d.other c' .nil m z) ∧
        rbNeighbour d fuel a s = some m.val := by
  have hnode := hs.heap_branch
  have hlong := length_le_height k (branch d c x a y)
  have hheight : x.height + 1 ≤ (branch d c x a y).height := by
    cases d <;> simp only [branch, ColorTree.height] <;> omega
  have hxheight : x.height ≤ fuel := by omega
  have hne : k.parent none ≠ some a := by
    intro heq
    have hnodup := hs.nodup
    rw [nodup_plug_iff, List.nodup_append] at hnodup
    cases k with
    | top => cases heq
    | under e c p sib up =>
        cases heq
        exact hnodup.2.2 a (by simp) a (by simp) rfl
  by_cases hx : x = .nil
  · refine .inl ⟨hx, ?_⟩
    subst hx
    have hascend : rbAscend d fuel a s = some (ptr (k.nearest d)) :=
      rbAscend_spec hs (root_branch ..) (by omega)
    simp [rbNeighbour, hnode, hne, hascend]
  · obtain ⟨k', c', m, z, hk', heq, hdescend⟩ :=
      Holds.exists_descend (k := .under d c a y k) hs hx d.other hxheight
    refine .inr ⟨k', c', m, z, hk', heq, ?_⟩
    rw [← hdescend]
    simp [rbNeighbour, hnode, hne, root_eq_none_iff, hx]

/-- {lit}`rb_next` finds the node that comes next in the order. -/
theorem rbNext_spec {before after : List (NodePtr w)} (hs : Holds h₀ s t)
    (hlist : t.toList = before ++ a :: after) (hfuel : t.height ≤ fuel) :
    rbNext fuel a s = some (ptr after.head?) := by
  obtain ⟨k, c, l, r, rfl⟩ := exists_plug_of_mem (a := a) (t := t) (by simp [hlist])
  obtain ⟨rfl, rfl⟩ := eq_of_toList_plug k hs.nodup hlist
  rcases rbNeighbour_spec (d := .right) (x := r) (y := l) (c := c) hs hfuel with
    ⟨rfl, hnext⟩ | ⟨k', c', m, z, hk', rfl, hnext⟩
  · rw [rbNext, hnext, nearest_right]
    simp
  · rw [Side.other_right] at hk' ⊢
    rw [rbNext, hnext, List.head?_append, hk'.head?_toList]
    rfl

/-- {lit}`rb_prev` finds the node that comes before in the order. -/
theorem rbPrev_spec {before after : List (NodePtr w)} (hs : Holds h₀ s t)
    (hlist : t.toList = before ++ a :: after) (hfuel : t.height ≤ fuel) :
    rbPrev fuel a s = some (ptr before.getLast?) := by
  obtain ⟨k, c, l, r, rfl⟩ := exists_plug_of_mem (a := a) (t := t) (by simp [hlist])
  obtain ⟨rfl, rfl⟩ := eq_of_toList_plug k hs.nodup hlist
  rcases rbNeighbour_spec (d := .left) (x := l) (y := r) (c := c) hs hfuel with
    ⟨rfl, hprev⟩ | ⟨k', c', m, z, hk', rfl, hprev⟩
  · rw [rbPrev, hprev, nearest_left]
    simp
  · rw [Side.other_left] at hk' ⊢
    rw [rbPrev, hprev, List.getLast?_append, hk'.getLast?_toList]
    rfl

/-! ## Replacement -/

/-- The new node takes the place of the old one, whose memory stays as it is. -/
theorem rbReplaceNode_spec (hs : Holds h₀ s (k.plug (node c l a r))) {v : RbNode w}
    (hb : b ∉ (k.plug (node c l a r)).toList) (hmem : s.heap b = some v) :
    ∃ s' v', rbReplaceNode a b s = some s' ∧
      Holds (Function.update h₀ a (some v')) s' (k.plug (node c l b r)) := by
  have hnodup := hs.nodup
  rw [nodup_plug_iff, toList, List.nodup_append, List.nodup_append, List.nodup_cons] at hnodup
  simp only [mem_toList_plug, toList, List.mem_append, List.mem_cons, not_or] at hnodup hb
  rcases stands_plug_iff.mp hs.stands with ⟨hk, ha, hl, hr⟩
  have hroot : s.rbNode = ptr (k.rootOf (some a)) := by
    rw [hs.root, root_plug]
    rfl
  obtain ⟨s₁, hs₁, hk₁, hroot₁, hf₁⟩ :=
    RbState.relink_spec hk hroot (by grind) (by grind) .left (some b)
  obtain ⟨s₂, hs₂, hl₂, hroot₂, hf₂⟩ :=
    RbState.setLinkParent_spec (hl.frame hf₁ (by grind)) (by grind) (some b)
  obtain ⟨s₃, hs₃, hr₃, hroot₃, hf₃⟩ :=
    RbState.setLinkParent_spec ((hr.frame hf₁ (by grind)).frame hf₂ (by grind)) (by grind)
      (some b)
  have ha₁ : s₁.heap a = s.heap a := hf₁.heap_eq (by grind)
  have ha₂ : s₂.heap a = s.heap a := by rw [hf₂.heap_eq (by grind), ha₁]
  have ha₃ : s₃.heap a = s.heap a := by rw [hf₃.heap_eq (by grind), ha₂]
  have hb₃ : s₃.heap b = some v := by
    rw [hf₃.heap_eq (by grind), hf₂.heap_eq (by grind), hf₁.heap_eq (by grind), hmem]
  let s₄ := s₃.put b (cell .left (k.parent none) c l.root r.root)
  have hf₄ : Frame s₃.heap s₄.heap [b] := s₃.frame_put b _
  have hf : Frame s.heap s₄.heap (k.elems ++ l.toList ++ r.toList ++ [b]) :=
    ((hf₁.trans hf₂).trans hf₃).trans hf₄
  refine ⟨s₄, cell .left (k.parent none) c l.root r.root, ?_, ?_, ?_, ?_, fun p hp => ?_⟩
  · rw [ptr_some] at hs₁ hs₂ hs₃
    simp [rbReplaceNode, ha, hs₁, ha₁, hs₂, ha₂, hs₃, ha₃, RbState.update_eq hb₃, s₄]
  · rw [nodup_plug_iff, toList, List.nodup_append, List.nodup_append, List.nodup_cons]
    simp only [List.mem_append, List.mem_cons]
    grind
  · rw [stands_plug_iff]
    exact ⟨hk₁.frame ((hf₂.trans hf₃).trans hf₄) (by grind), RbState.heap_put_self,
      hl₂.frame (hf₃.trans hf₄) (by grind), hr₃.frame hf₄ (by grind)⟩
  · rw [RbState.rbNode_put, hroot₃, hroot₂, hroot₁, root_plug]
    rfl
  · simp only [mem_toList_plug, toList, List.mem_append, List.mem_cons] at hp
    rw [hf p (by grind)]
    by_cases hpa : p = a.val
    · subst hpa
      simpa using ha
    · rw [Function.update_of_ne hpa]
      refine hs.frame p ?_
      simp only [mem_toList_plug, toList, List.mem_append, List.mem_cons]
      grind

end Xfsd
