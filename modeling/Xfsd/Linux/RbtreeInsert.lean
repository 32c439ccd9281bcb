import Xfsd.Linux.RbtreeRules
import Xfsd.Foundation.RedBlack

/-!
# XFSD - Insertion into a red-black tree

A new node is linked at an empty place of a tree in memory and then lifted until no red
node is below a red one.  The loop follows the path from the new node up and takes no more
turns than that path is long.

Main results:

- Theorem {lit}`rbLinkNode_spec`: a node is linked at the end of a path.
- Theorem {lit}`rbInsertColor_spec`: the order of the nodes is kept and the tree is
  red-black again.
-/

namespace Xfsd

open Foundation ColorTree TreePath

variable {w : Nat} {h₀ : RbHeap w} {s : RbState w} {d e : Side} {c : Color} {n : Nat}
  {a b p g : NodePtr w} {t sib unc x y : ColorTree (NodePtr w)} {k : TreePath (NodePtr w)}

/-! ## Linking -/

/-- The link at the end of a path. -/
def linkAt : TreePath (NodePtr w) → RbLink w
  | .top => .root
  | .under d _ p _ _ => .child p d

/-- A new node is linked, red and without children, at the end of a path. -/
theorem rbLinkNode_spec (hs : Holds h₀ s (k.plug .nil)) (ha : a ∉ k.elems) {r : RbNode w}
    (hmem : s.heap a = some r) :
    ∃ s', rbLinkNode a (ptr (k.parent none)) (linkAt k) s = some s' ∧
      Holds h₀ s' (k.plug (node .red .nil a .nil)) := by
  have hcell : (⟨ptr (k.parent none), 0#w, 0#w⟩ : RbNode w) =
      cell .left (k.parent none) .red none none := by
    simp [cell, colorBit]
  have hnodup : k.elems.Nodup := by simpa [nodup_plug_iff] using hs.nodup
  have hk := (stands_plug_iff.mp hs.stands).1
  let s₁ := s.put a (cell .left (k.parent none) .red none none)
  have hf₁ : Frame s.heap s₁.heap [a] := s.frame_put a _
  have hk₁ : PathStands s₁.heap none k none := hk.frame hf₁ (by grind)
  -- the new node stands once the link leads to it and nothing else has changed
  have hdone : ∀ s' : RbState w, PathStands s'.heap none k (some a) →
      s'.rbNode = ptr (k.rootOf (some a)) → Frame s₁.heap s'.heap k.elems →
      Holds h₀ s' (k.plug (node .red .nil a .nil)) := by
    intro s' hk' hroot hf
    refine ⟨?_, ?_, ?_, ?_⟩
    · rw [nodup_plug_iff]
      simpa [toList] using ⟨ha, hnodup⟩
    · rw [stands_plug_iff]
      refine ⟨hk', ?_, trivial, trivial⟩
      rw [hf.heap_eq ha]
      exact RbState.heap_put_self
    · rw [hroot, root_plug]
      rfl
    · intro q hq
      simp only [mem_toList_plug, toList] at hq
      rw [(hf₁.trans hf) q (by grind)]
      exact hs.frame q (by simp; grind)
  cases k with
  | top =>
      refine ⟨{ s₁ with rbNode := a }, ?_, hdone _ trivial rfl (.refl _)⟩
      simp only [rbLinkNode, RbState.update_eq hmem, linkAt, hcell]
      rfl
  | under d c p sib up =>
      have hp₁ := hk₁.1
      refine ⟨s₁.put p (cell d (up.parent none) c (some a) sib.root), ?_,
        hdone _ (RbState.pathStands_put hk₁ hnodup _) ?_ fun q hq => ?_⟩
      · simp only [rbLinkNode, RbState.update_eq hmem, linkAt, hcell]
        change s₁.update p _ = _
        rw [RbState.update_eq hp₁, RbNode.setChild_cell_val]
      · rw [RbState.rbNode_put, RbState.rbNode_put, hs.root, root_plug]
        rfl
      · exact RbState.heap_put_of_ne (hq p (by simp))

/-! ## Turns of the loop -/

variable [NeZero w]

omit [NeZero w] in
/-- The rotation above two red nodes, with the colours exchanged. -/
theorem rbInsert_lift (hs : Holds h₀ s (k.plug (branch e .black (branch e .red t p sib) g unc))) :
    ∃ s₁ s₂ s', s.update p RbNode.rbSetBlack = some s₁ ∧
      s₁.update g RbNode.rbSetRed = some s₂ ∧ rbRotate e.other g s₂ = some s' ∧
      Holds h₀ s' (k.plug (branch e .black t p (branch e .red sib g unc))) := by
  obtain ⟨s₁, hs₁, hp⟩ := Holds.set_black (k := .under e .black g unc k) hs
  obtain ⟨s₂, hs₂, hg⟩ := Holds.set_red (k := k) hp
  rw [← branch_other e .red, ← branch_other e .black] at hg
  obtain ⟨s', hs', hr⟩ := rbRotate_spec hg
  rw [branch_other, branch_other] at hr
  exact ⟨s₁, s₂, s', hs₁, hs₂, hs', hr⟩

/-- With a red uncle a turn recolours and goes on from the grandparent. -/
theorem rbInsertTurn_recolour
    (hs : Holds h₀ s (k.plug (branch e .black (branch d .red t p sib) g unc)))
    (hred : unc.color = .red) (node : BitVec w) :
    ∃ s', rbInsertTurn e node p g s = some (g.val, s') ∧
      Holds h₀ s' (k.plug (branch e .red (branch d .black t p sib) g (unc.paint .black))) := by
  obtain ⟨c, x, u, y, rfl⟩ := exists_branch e (ne_nil_of_red hred)
  obtain rfl : c = .red := by simpa using hred
  have hunc := hs
  rw [← plug_under_other] at hunc
  have hisred : s.linkIsRed u = some true := by simpa using hunc.linkIsRed_eq
  obtain ⟨s₁, hs₁, h₁⟩ := hunc.set_black
  rw [plug_under_other] at h₁
  obtain ⟨s₂, hs₂, h₂⟩ := Holds.set_black (k := .under e .black g _ k) h₁
  obtain ⟨s', hs', h'⟩ := Holds.set_red (k := k) h₂
  refine ⟨s', ?_, by rwa [paint_branch]⟩
  simp [rbInsertTurn, hs.heap_branch, hisred, hs₁, hs₂, hs']

/-- With a black uncle an outer node stays below its parent, which is lifted. -/
theorem rbInsertTurn_outer
    (hs : Holds h₀ s (k.plug (branch e .black (branch e .red t p sib) g unc)))
    (hblack : unc.color = .black) (ha : t.root = some a) :
    ∃ s', rbInsertTurn e a p g s = some (a.val, s') ∧
      Holds h₀ s' (k.plug (branch e .black t p (branch e .red sib g unc))) := by
  have hunc := hs
  rw [← plug_under_other] at hunc
  have hisred : s.linkIsRed (ptr unc.root) = some false := by
    simpa [hblack] using hunc.linkIsRed_eq
  have hp := Holds.heap_branch (k := .under e .black g unc k) hs
  have hne : sib.root ≠ some a := by
    intro heq
    have hmem := mem_toList_of_root a heq
    have hmem' := mem_toList_of_root a ha
    have hnodup := hs.nodup
    rw [nodup_plug_iff, List.nodup_append, (toList_branch_perm e _ _ _ _).nodup_iff,
      List.nodup_cons, List.nodup_append, (toList_branch_perm e _ _ _ _).nodup_iff,
      List.nodup_cons, List.nodup_append] at hnodup
    grind
  obtain ⟨s₁, s₂, s', hs₁, hs₂, hs', h'⟩ := rbInsert_lift hs
  refine ⟨s', ?_, h'⟩
  simp [rbInsertTurn, hs.heap_branch, hisred, hp, hne, hs₁, hs₂, hs']

/-- With a black uncle an inner node is rotated above its parent and lifted. -/
theorem rbInsertTurn_inner
    (hs : Holds h₀ s (k.plug (branch e .black (branch e .red sib p (branch e .red x a y)) g unc)))
    (hblack : unc.color = .black) :
    ∃ s', rbInsertTurn e a p g s = some (p.val, s') ∧
      Holds h₀ s' (k.plug
        (branch e .black (branch e .red sib p x) a (branch e .red y g unc))) := by
  have hunc := hs
  rw [← plug_under_other] at hunc
  have hisred : s.linkIsRed (ptr unc.root) = some false := by
    simpa [hblack] using hunc.linkIsRed_eq
  have hp := Holds.heap_branch (k := .under e .black g unc k) hs
  obtain ⟨s₀, hs₀, h₀⟩ := rbRotate_spec (k := .under e .black g unc k) hs
  obtain ⟨s₁, s₂, s', hs₁, hs₂, hs', h'⟩ := rbInsert_lift (k := k) h₀
  refine ⟨s', ?_, h'⟩
  simp [rbInsertTurn, hs.heap_branch, hisred, hp, hs₀, hs₁, hs₂, hs']

/-! ## The loop -/

/-- The loop stops at the root and below a black node. -/
theorem rbInsertLoop_stop (hs : Holds h₀ s (k.plug t)) (ha : t.root = some a)
    (hstop : k = .top ∨ ∃ d p sib up, k = .under d .black p sib up) (fuel : Nat) :
    rbInsertLoop (fuel + 1) a s = some s := by
  obtain ⟨c, x, b, y, rfl⟩ := exists_branch .left (t := t) (by rintro rfl; cases ha)
  obtain rfl : b = a := by simpa using ha
  have hnode := hs.heap_branch
  rcases hstop with rfl | ⟨d, p, sib, up, rfl⟩
  · simp [rbInsertLoop, hnode, parent]
  · have hp := Holds.heap_branch (k := up) hs
    simp [rbInsertLoop, hnode, parent, hp]

/-- Below a red node the loop takes the turn of the side that node is on. -/
theorem rbInsertLoop_turn
    (hs : Holds h₀ s (k.plug (branch e .black (branch d .red t p sib) g unc)))
    (ha : t.root = some a) (fuel : Nat) :
    rbInsertLoop (fuel + 1) a s =
      (rbInsertTurn e a p g s).bind fun next => rbInsertLoop fuel next.1 next.2 := by
  obtain ⟨c, x, b, y, rfl⟩ := exists_branch .left (t := t) (by rintro rfl; cases ha)
  obtain rfl : b = a := by simpa using ha
  have hnode := Holds.heap_branch (k := .under d .red p sib (.under e .black g unc k)) hs
  have hp := Holds.heap_branch (k := .under e .black g unc k) hs
  have hg := hs.heap_branch
  cases e with
  | left =>
      simp [rbInsertLoop, hnode, parent, hp, hg]
  | right =>
      have hne : unc.root ≠ some p := by
        intro heq
        have hmem := mem_toList_of_root p heq
        have hnodup := hs.nodup
        rw [nodup_plug_iff, List.nodup_append, (toList_branch_perm _ _ _ _ _).nodup_iff,
          List.nodup_cons, List.nodup_append] at hnodup
        have hmem' : p ∈ (branch d .red (branch .left c x b y) p sib).toList := by simp
        grind
      simp [rbInsertLoop, hnode, parent, hp, hg, hne]

/-- The loop ends with a tree whose only fault may be a red root. -/
theorem rbInsertLoop_spec (fuel : Nat) (hfuel : k.length < fuel) (hs : Holds h₀ s (k.plug t))
    (ht : Balanced t .red n) (hk : Accepts k .black n) (ha : t.root = some a) :
    ∃ s' t', rbInsertLoop fuel a s = some s' ∧ Holds h₀ s' t' ∧
      t'.toList = (k.plug t).toList ∧ RedBlack (t'.paint .black) := by
  induction fuel using Nat.strongRecOn generalizing k t n a s with
  | ind fuel ih =>
  obtain ⟨fuel, rfl⟩ : ∃ m, fuel = m + 1 := ⟨fuel - 1, by omega⟩
  match k, hk with
  | .top, _ =>
      exact ⟨s, _, rbInsertLoop_stop hs ha (.inl rfl) fuel, hs, rfl, ht.redBlack_paint⟩
  | .under d .black p sib up, hk =>
      exact ⟨s, _, rbInsertLoop_stop hs ha (.inr ⟨d, p, sib, up, rfl⟩) fuel, hs, rfl,
        ((hk.any_of_black .red).redBlack_plug ht).paint⟩
  | .under d .red p sib up, hk =>
      obtain ⟨-, hsib, e, g, unc, up, rfl, ⟨c', hunc⟩, hup⟩ := hk.exists_above_red
      have hlength : up.length + 1 < fuel := by simpa [TreePath.length] using hfuel
      have hturn := rbInsertLoop_turn (k := up) hs ha fuel
      cases c' with
      | red =>
          obtain ⟨s₁, hs₁, h₁⟩ := rbInsertTurn_recolour hs hunc.color_eq a.val
          obtain ⟨s', t', hs', h', hlist, hrb⟩ := ih fuel (by omega) (by omega) h₁
            (balanced_recolour ht hsib hunc) hup (root_branch ..)
          refine ⟨s', t', by rw [hturn, hs₁]; exact hs', h', hlist.trans ?_, hrb⟩
          exact toList_plug_congr up (toList_branch_congr e _ _ _
            (toList_branch_congr d _ _ _ rfl rfl) (toList_paint ..))
      | black =>
          obtain ⟨fuel, rfl⟩ : ∃ m, fuel = m + 1 := ⟨fuel - 1, by omega⟩
          rcases e.eq_or_eq_other d with rfl | rfl
          · -- an outer node
            obtain ⟨s', hs', h'⟩ := rbInsertTurn_outer hs hunc.color_eq ha
            refine ⟨s', _, ?_, h', ?_, ?_⟩
            · rw [hturn, hs', Option.bind_some]
              exact rbInsertLoop_stop (k := .under d .black p (branch d .red sib g unc) up) h' ha
                (.inr ⟨_, _, _, _, rfl⟩) fuel
            · exact toList_plug_congr up (toList_rotate ..).symm
            · exact (hup.redBlack_plug (balanced_outer ht hsib hunc)).paint
          · -- an inner node
            obtain ⟨x, b, y, rfl, hx, hy⟩ := ht.exists_branch_of_red e
            obtain rfl : b = a := by simpa using ha
            rw [plug_under, branch_other, plug_under] at hs ⊢
            obtain ⟨s', hs', h'⟩ := rbInsertTurn_inner hs hunc.color_eq
            refine ⟨s', _, ?_, h', ?_, ?_⟩
            · rw [hturn, hs', Option.bind_some]
              exact rbInsertLoop_stop (k := .under e .black b (branch e .red y g unc) up) h'
                (root_branch ..) (.inr ⟨_, _, _, _, rfl⟩) fuel
            · refine toList_plug_congr up ?_
              rw [← toList_rotate e _ _ _ _ _ .black .red .black .red]
              exact toList_branch_congr e _ _ _ (toList_rotate ..) rfl
            · exact (hup.redBlack_plug (balanced_inner hx hy hsib hunc)).paint

/-- After a new node was linked the tree is made red-black again, and its nodes stay in
order. -/
theorem rbInsertColor_spec (hs : Holds h₀ s (k.plug (node .red .nil a .nil)))
    (hold : RedBlack (k.plug .nil)) (fuel : Nat) (hfuel : k.length < fuel) :
    ∃ s' t', rbInsertColor fuel a s = some s' ∧ Holds h₀ s' t' ∧ RedBlack t' ∧
      t'.toList = k.before ++ a :: k.after := by
  obtain ⟨c, n, hnil, hk⟩ := exists_accepts hold
  obtain ⟨rfl, rfl⟩ := balanced_nil_iff.mp hnil
  obtain ⟨s₁, t₁, hs₁, h₁, hlist, hrb⟩ :=
    rbInsertLoop_spec fuel hfuel hs (.red .nil .nil) hk rfl
  obtain ⟨b, hb⟩ : ∃ b, t₁.root = some b := by
    cases t₁ with
    | nil => simp [toList_plug, toList] at hlist
    | node c l b r => exact ⟨b, rfl⟩
  obtain ⟨s', hs', h'⟩ := Holds.set_root_black (k := .top) h₁ hb
  refine ⟨s', _, ?_, h', hrb, ?_⟩
  · simp only [rbInsertColor, hs₁, Option.bind_eq_bind, Option.bind_some, h₁.root, hb]
    exact hs'
  · rw [plug_top, toList_paint, hlist, toList_plug]
    simp [toList]

end Xfsd
