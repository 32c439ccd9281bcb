import Xfsd.Linux.RbtreeRules
import Xfsd.Foundation.RedBlack

/-!
# XFSD - Rebalancing after an erasure

When a black node has been taken out, the subtree in its place lacks a black node.  The
loop moves this fault up or repairs it with nodes of the sibling's subtree; it takes no
more turns than the path to the root is long.

Main results:

- Theorem {lit}`rbEraseTurn_spec`: a turn repairs the tree or moves the fault up.
- Theorem {lit}`rbEraseColor_spec`: the order of the nodes is kept and the tree is
  red-black again.
-/

namespace Xfsd

open Foundation ColorTree TreePath

variable {w : Nat} [NeZero w] {h₀ : RbHeap w} {s : RbState w} {d : Side} {c c' : Color} {n : Nat}
  {a b m p : NodePtr w} {t sib x y z : ColorTree (NodePtr w)} {k : TreePath (NodePtr w)}

/-! ## The parts of a turn -/

/-- The test of both children reads the colours of both subtrees, whatever side they are on. -/
theorem Holds.childrenAreBlack_eq (hs : Holds h₀ s (k.plug (branch d c x b y)))
    (q : Option (NodePtr w)) :
    s.childrenAreBlack (cell d q c x.root y.root) =
      some (decide (x.color = .black) && decide (y.color = .black)) := by
  have hnear := Holds.linkIsBlack_eq (k := .under d c b y k) hs
  rw [← plug_under_other] at hs
  have hfar := hs.linkIsBlack_eq
  cases d <;> cases hx : x.color <;> cases hy : y.color <;>
    simp [RbState.childrenAreBlack, hnear, hfar, hx, hy]

/-- Between black nephews the sibling turns red. -/
theorem rbEraseBlack_turn_red
    (hs : Holds h₀ s (k.plug (branch d c t p (branch d .black x b y))))
    (hx : x.color = .black) (hy : y.color = .black) :
    ∃ s', rbEraseBlack d p b s = some (some (p.val, ptr (k.parent none)), s') ∧
      Holds h₀ s' (k.plug (branch d c t p (branch d .red x b y))) := by
  rw [← plug_under_other] at hs
  have hb := hs.heap_branch
  have hboth := hs.childrenAreBlack_eq
  obtain ⟨s', hs', h'⟩ := hs.set_red
  rw [plug_under_other] at h'
  have hp := h'.heap_branch
  refine ⟨s', ?_, h'⟩
  simp [rbEraseBlack, hb, hboth, hx, hy, hs', hp]

omit [NeZero w] in
/-- The sibling takes the place and the colour of the node above. -/
theorem rbEraseBorrow_spec
    (hs : Holds h₀ s (k.plug (branch d c t p (branch d c' x b y)))) (hy : y ≠ .nil) :
    ∃ s', rbEraseBorrow d p b s = some s' ∧
      Holds h₀ s' (k.plug (branch d c (branch d .black t p x) b (y.paint .black))) := by
  obtain ⟨cf, x', f, y', rfl⟩ := exists_branch d hy
  have hp := hs.heap_branch
  rw [← plug_under_other] at hs
  obtain ⟨s₁, hs₁, h₁⟩ := hs.set_color (f := (·.rbSetColor (colorBit c)))
    (RbNode.rbSetColor_cell _ _ _ c _ _)
  rw [plug_under_other] at h₁
  obtain ⟨s₂, hs₂, h₂⟩ := h₁.set_black
  rw [← plug_under_other] at h₂
  have hb := h₂.heap_branch
  rw [← plug_under_other] at h₂
  obtain ⟨s₃, hs₃, h₃⟩ := h₂.set_black
  rw [plug_under_other, plug_under_other] at h₃
  obtain ⟨s', hs', h'⟩ := rbRotate_spec h₃
  refine ⟨s', ?_, by rwa [paint_branch]⟩
  simp [rbEraseBorrow, hp, hs₁, hs₂, hb, hs₃, hs']

/-- With a red far nephew the sibling takes the place of the node above. -/
theorem rbEraseBlack_far
    (hs : Holds h₀ s (k.plug (branch d c t p (branch d .black x b y)))) (hy : y.color = .red) :
    ∃ s', rbEraseBlack d p b s = some (none, s') ∧
      Holds h₀ s' (k.plug (branch d c (branch d .black t p x) b (y.paint .black))) := by
  obtain ⟨s', hs', h'⟩ := rbEraseBorrow_spec hs (ne_nil_of_red hy)
  rw [← plug_under_other] at hs
  have hb := hs.heap_branch
  have hboth := hs.childrenAreBlack_eq
  rw [← plug_under_other] at hs
  have hfar := hs.linkIsBlack_eq
  refine ⟨s', ?_, h'⟩
  simp [rbEraseBlack, hb, hboth, hfar, hy, hs']

/-- With a red near nephew alone that one takes the place of the node above. -/
theorem rbEraseBlack_near
    (hs : Holds h₀ s (k.plug (branch d c t p (branch d .black (branch d .red x m z) b y))))
    (hy : y.color = .black) :
    ∃ s', rbEraseBlack d p b s = some (none, s') ∧
      Holds h₀ s' (k.plug
        (branch d c (branch d .black t p x) m (branch d .black z b y))) := by
  rw [← plug_under_other] at hs
  have hb := hs.heap_branch
  have hboth := hs.childrenAreBlack_eq
  simp only [root_branch] at hboth
  have hfar := hs
  rw [← plug_under_other] at hfar
  replace hfar := hfar.linkIsBlack_eq
  obtain ⟨s₁, hs₁, h₁⟩ :=
    Holds.set_black (k := .under d .black b y (.under d.other c p t k)) hs
  obtain ⟨s₂, hs₂, h₂⟩ := Holds.set_red (k := .under d.other c p t k) h₁
  rw [← branch_other d .red, ← branch_other d .black] at h₂
  obtain ⟨s₃, hs₃, h₃⟩ := rbRotate_spec h₂
  rw [branch_other, branch_other, plug_under_other] at h₃
  have hp := h₃.heap_branch
  obtain ⟨s', hs', h'⟩ := rbEraseBorrow_spec h₃ (by simp)
  refine ⟨s', ?_, by rwa [paint_branch] at h'⟩
  simp [rbEraseBlack, hb, hboth, hfar, hy, hs₁, hs₂, hs₃, hp, hs']

/-! ## Turns of the loop -/

/-- A turn with a black sibling repairs the tree or moves the fault up. -/
theorem rbEraseBlack_spec
    (hs : Holds h₀ s (k.plug (branch d c t p (branch d .black x b y))))
    (ht : Balanced t .black n) (hsib : Balanced (branch d .black x b y) .black (n + 1))
    (hk : Accepts k c (c.above (n + 1))) :
    (∃ s', rbEraseBlack d p b s = some (some (p.val, ptr (k.parent none)), s') ∧
      Holds h₀ s' (k.plug (branch d c t p (branch d .red x b y))) ∧
      Lacks k (branch d c t p (branch d .red x b y))) ∨
    ∃ s' t', rbEraseBlack d p b s = some (none, s') ∧ Holds h₀ s' t' ∧ RedBlack t' ∧
      t'.toList = (k.plug (branch d c t p (branch d .black x b y))).toList := by
  obtain ⟨-, m, hm, ⟨cx, hx⟩, cy, hy⟩ := balanced_black_branch_iff.mp hsib
  obtain rfl : m = n := by omega
  cases cy with
  | red =>
      obtain ⟨s', hs', h'⟩ := rbEraseBlack_far hs hy.color_eq
      refine .inr ⟨s', _, hs', h', hk.redBlack_plug (balanced_borrow_far ht hx hy), ?_⟩
      refine toList_plug_congr k ?_
      rw [toList_branch_congr d c c b rfl (toList_paint ..)]
      exact toList_rotate ..
  | black =>
      cases cx with
      | black =>
          obtain ⟨s', hs', h'⟩ := rbEraseBlack_turn_red hs hx.color_eq hy.color_eq
          exact .inl ⟨s', hs', h', lacks_turn_red ht hx hy hk⟩
      | red =>
          obtain ⟨x₁, a, x₂, rfl, hx₁, hx₂⟩ := hx.exists_branch_of_red d
          obtain ⟨s', hs', h'⟩ := rbEraseBlack_near hs hy.color_eq
          refine .inr ⟨s', _, hs', h',
            hk.redBlack_plug (balanced_borrow_near ht hx₁ hx₂ hy), toList_plug_congr k ?_⟩
          rw [toList_rotate d t x₁ _ p a c .black]
          exact toList_branch_congr d _ _ _ rfl (toList_rotate ..).symm

/-- A turn repairs the tree, or moves the fault one step up, or moves it to a red node. -/
theorem rbEraseTurn_spec (hs : Holds h₀ s (k.plug (branch d c t p sib)))
    (ht : Balanced t .black n) (hk : Accepts (.under d c p sib k) .black (n + 1)) :
    (∃ s' k' t', rbEraseTurn d p s = some (some (p.val, ptr (k'.parent none)), s') ∧
      Holds h₀ s' (k'.plug t') ∧ t'.root = some p ∧ Lacks k' t' ∧
      (k'.plug t').toList = (k.plug (branch d c t p sib)).toList ∧
      (k' = k ∨ t'.color = .red)) ∨
    ∃ s' t', rbEraseTurn d p s = some (none, s') ∧ Holds h₀ s' t' ∧ RedBlack t' ∧
      t'.toList = (k.plug (branch d c t p sib)).toList := by
  obtain ⟨hup, c', hsib, hc⟩ := hk.exists_above
  obtain ⟨x, b, y, rfl⟩ := hsib.exists_branch_of_pos d
  have hp := hs.heap_branch
  rw [root_branch] at hp
  have hb := hs
  rw [← plug_under_other] at hb
  replace hb := hb.heap_branch
  cases c' with
  | black =>
      have hturn : rbEraseTurn d p s = rbEraseBlack d p b s := by simp [rbEraseTurn, hp, hb]
      rw [hturn]
      rcases rbEraseBlack_spec hs ht hsib hup with ⟨s', hs', h', hlacks⟩ | hdone
      · refine .inl ⟨s', k, _, hs', h', root_branch .., hlacks, toList_plug_congr k ?_, .inl rfl⟩
        exact toList_branch_congr d _ _ _ rfl (toList_branch_congr d _ _ _ rfl rfl)
      · exact .inr hdone
  | red =>
      obtain ⟨rfl, hk'⟩ := hk.lift_red_sibling
      obtain ⟨-, hx, hy⟩ := balanced_red_branch_iff.mp hsib
      obtain ⟨x₁, a, x₂, rfl⟩ := hx.exists_branch_of_pos d
      have h₁ := hs
      rw [← plug_under_other] at h₁
      obtain ⟨s₁, hs₁, h₁⟩ := h₁.set_black
      rw [plug_under_other] at h₁
      obtain ⟨s₂, hs₂, h₂⟩ := h₁.set_red
      obtain ⟨s₃, hs₃, h₃⟩ := rbRotate_spec h₂
      have hp₃ := Holds.heap_branch (k := .under d .black b y k) h₃
      rw [root_branch] at hp₃
      have hturn : rbEraseTurn d p s = rbEraseBlack d p a s₃ := by
        simp [rbEraseTurn, hp, hb, hs₁, hs₂, hs₃, hp₃]
      have hlist :
          (k.plug (branch d .black (branch d .red t p (branch d .black x₁ a x₂)) b y)).toList =
          (k.plug (branch d .black t p (branch d .red (branch d .black x₁ a x₂) b y))).toList :=
        toList_plug_congr k (toList_rotate ..)
      rw [hturn, ← hlist]
      rcases rbEraseBlack_spec (k := .under d .black b y k) h₃ ht hx hk'.exists_above.1 with
        ⟨s', hs', h', hlacks⟩ | hdone
      · refine .inl ⟨s', _, _, hs', h', root_branch .., hlacks,
          toList_plug_congr (.under d .black b y k) ?_, .inr (color_branch ..)⟩
        exact toList_branch_congr d _ _ _ rfl (toList_branch_congr d _ _ _ rfl rfl)
      · exact .inr hdone

/-! ## The loop -/

/-- The loop stops at the root and at a red node. -/
theorem rbEraseLoop_stop (hs : Holds h₀ s (k.plug t)) (hend : k = .top ∨ t.color = .red)
    (fuel : Nat) (parent : BitVec w) :
    rbEraseLoop (fuel + 1) (ptr t.root) parent s = some (ptr t.root, s) := by
  have hisblack := hs.linkIsBlack_eq
  rcases hend with rfl | hred
  · have hroot : s.rbNode = ptr t.root := hs.root
    simp [rbEraseLoop, hisblack, hroot]
  · simp [rbEraseLoop, hisblack, hred]

/-- Elsewhere the loop takes the turn of the side it comes from. -/
theorem rbEraseLoop_turn {next : Option (BitVec w × BitVec w)} {s' : RbState w}
    (hs : Holds h₀ s (k.plug (branch d c t p sib))) (ht : t.color = .black) (hsib : sib ≠ .nil)
    (hturn : rbEraseTurn d p s = some (next, s')) (fuel : Nat) :
    rbEraseLoop (fuel + 1) (ptr t.root) p s =
      match next with
      | some (a, q) => rbEraseLoop fuel a q s'
      | none => some (s'.rbNode, s') := by
  have hisblack := Holds.linkIsBlack_eq (k := .under d c p sib k) hs
  have hp := hs.heap_branch
  have hne : ptr t.root ≠ s.rbNode := by
    rw [hs.root]
    intro heq
    exact root_ne_of_nodup k t hs.nodup (ptr_inj heq)
  cases d with
  | left => cases next <;> simp [rbEraseLoop, hisblack, ht, hne, hp, hturn]
  | right =>
      have hother : ptr sib.root ≠ ptr t.root := fun heq =>
        root_ne_sibling k t hs.nodup hsib (ptr_inj heq)
      cases next <;> simp [rbEraseLoop, hisblack, ht, hne, hp, hother, hturn]

/-- The loop ends at a place where black paint repairs the tree. -/
theorem rbEraseLoop_spec (fuel : Nat) (hfuel : k.length < fuel) (hs : Holds h₀ s (k.plug t))
    (hlacks : Lacks k t) :
    ∃ (s' : RbState w) (k' : TreePath (NodePtr w)) (t' : ColorTree (NodePtr w)),
      rbEraseLoop fuel (ptr t.root) (ptr (k.parent none)) s = some (ptr t'.root, s') ∧
      Holds h₀ s' (k'.plug t') ∧ (k'.plug t').toList = (k.plug t).toList ∧
      RedBlack (k'.plug (t'.paint .black)) := by
  induction k generalizing t s fuel with
  | top =>
      obtain ⟨fuel, rfl⟩ : ∃ m, fuel = m + 1 := ⟨fuel - 1, by omega⟩
      exact ⟨s, .top, t, rbEraseLoop_stop hs (.inl rfl) fuel _, hs, rfl, hlacks.redBlack (.inl rfl)⟩
  | under d c p sib up ih =>
      obtain ⟨fuel, rfl⟩ : ∃ m, fuel = m + 1 := ⟨fuel - 1, by omega⟩
      have hlength : up.length < fuel := by simpa [TreePath.length] using hfuel
      cases hcolor : t.color with
      | red =>
          exact ⟨s, _, t, rbEraseLoop_stop hs (.inr hcolor) fuel _, hs, rfl,
            hlacks.redBlack (.inr hcolor)⟩
      | black =>
          obtain ⟨n, hk, ht⟩ := hlacks.exists_of_black hcolor
          have hsib : sib ≠ .nil := by
            obtain ⟨-, c', hsib, -⟩ := hk.exists_above
            obtain ⟨x, b, y, rfl⟩ := hsib.exists_branch_of_pos d
            simp
          rcases rbEraseTurn_spec hs ht hk with
            ⟨s₁, k₁, t₁, hs₁, h₁, hroot, hlacks₁, hlist, hnext⟩ | ⟨s₁, t₁, hs₁, h₁, hrb, hlist⟩
          · have hturn := rbEraseLoop_turn hs hcolor hsib hs₁ fuel
            rcases hnext with rfl | hred
            · obtain ⟨s', k', t', hs', h', hlist', hrb⟩ := ih fuel hlength h₁ hlacks₁
              rw [hroot] at hs'
              exact ⟨s', k', t', hturn.trans hs', h', hlist'.trans hlist, hrb⟩
            · obtain ⟨fuel, rfl⟩ : ∃ m, fuel = m + 1 := ⟨fuel - 1, by omega⟩
              have hstop := rbEraseLoop_stop h₁ (.inr hred) fuel (ptr (k₁.parent none))
              rw [hroot] at hstop
              refine ⟨s₁, k₁, t₁, ?_, h₁, hlist, hlacks₁.redBlack (.inr hred)⟩
              rw [hroot]
              exact hturn.trans hstop
          · have hturn := rbEraseLoop_turn hs hcolor hsib hs₁ fuel
            rw [h₁.root] at hturn
            exact ⟨s₁, .top, t₁, hturn, h₁, hlist, hrb.paint⟩

/-- The tree is made red-black again, and its nodes stay in order. -/
theorem rbEraseColor_spec (fuel : Nat) (hfuel : k.length < fuel) (hs : Holds h₀ s (k.plug t))
    (hlacks : Lacks k t) :
    ∃ s' t', rbEraseColor fuel (ptr t.root) (ptr (k.parent none)) s = some s' ∧
      Holds h₀ s' t' ∧ RedBlack t' ∧ t'.toList = (k.plug t).toList := by
  obtain ⟨s₁, k₁, t₁, hs₁, h₁, hlist, hrb⟩ := rbEraseLoop_spec fuel hfuel hs hlacks
  cases hroot : t₁.root with
  | none =>
      obtain rfl := root_eq_none_iff.mp hroot
      exact ⟨s₁, _, by simp [rbEraseColor, hs₁], h₁, hrb, hlist⟩
  | some a =>
      obtain ⟨s', hs', h'⟩ := h₁.set_root_black hroot
      refine ⟨s', _, by simp [rbEraseColor, hs₁, hroot, hs'], h', hrb, ?_⟩
      rw [← hlist]
      exact toList_plug_congr k₁ (toList_paint ..)

end Xfsd
