import Xfsd.Foundation.ColorTree
import Mathlib.Algebra.Group.Nat.Defs
import Mathlib.Data.Nat.Log

/-!
# Foundation - Red-black trees

A coloured tree is balanced when no red node has a red child and every way down passes
the same number of black nodes.  A path accepts the trees that keep the whole tree around
it balanced.

Main results:

- Theorems {lit}`Accepts.redBlack_plug` and {lit}`exists_accepts`: a tree is red-black
  exactly when the path to a subtree accepts that subtree.
- Theorems {lit}`balanced_recolour`, {lit}`balanced_outer` and {lit}`balanced_inner`: the
  repairs of a red node below a red node.
- Theorems {lit}`lacks_turn_red`, {lit}`balanced_borrow_far` and
  {lit}`balanced_borrow_near`: the repairs of a subtree that lacks a black node.
- Theorem {lit}`RedBlack.height_le`: a red-black tree is at most twice as high as the
  logarithm of its size.
-/

namespace Foundation

open ColorTree TreePath

universe u

variable {α : Type u}

/-- A balanced tree with its root's colour and its number of black nodes on every way
down. -/
inductive Balanced : ColorTree α → Color → Nat → Prop where
  | nil : Balanced nil .black 0
  | red {n : Nat} {l r : ColorTree α} {a : α} (hl : Balanced l .black n)
      (hr : Balanced r .black n) : Balanced (node .red l a r) .red n
  | black {n : Nat} {l r : ColorTree α} {a : α} {c c' : Color} (hl : Balanced l c n)
      (hr : Balanced r c' n) : Balanced (node .black l a r) .black (n + 1)

/-- A balanced tree with a black root. -/
def RedBlack (t : ColorTree α) : Prop := ∃ n, Balanced t .black n

/-- A path at whose end a balanced tree of the given colour and number of black nodes makes
a red-black tree. -/
inductive Accepts : TreePath α → Color → Nat → Prop where
  | top {n : Nat} : Accepts .top .black n
  | red {n : Nat} {d : Side} {a : α} {sib : ColorTree α} {up : TreePath α}
      (hsib : Balanced sib .black n) (hup : Accepts up .red n) :
      Accepts (under d .red a sib up) .black n
  | black {n : Nat} {c c' : Color} {d : Side} {a : α} {sib : ColorTree α} {up : TreePath α}
      (hsib : Balanced sib c' n) (hup : Accepts up .black (n + 1)) :
      Accepts (under d .black a sib up) c n

variable {d e : Side} {c c' : Color} {n : Nat} {t sib x y z : ColorTree α} {a b p g : α}
  {k : TreePath α}

/-! ## Balanced branches -/

theorem Balanced.color_eq (h : Balanced t c n) : t.color = c := by
  cases h <;> rfl

@[simp]
theorem balanced_nil_iff : Balanced (nil : ColorTree α) c n ↔ c = .black ∧ n = 0 := by
  constructor
  · rintro ⟨⟩
    exact ⟨rfl, rfl⟩
  · rintro ⟨rfl, rfl⟩
    exact .nil

@[simp]
theorem balanced_red_branch_iff :
    Balanced (branch d .red x a y) c n ↔
      c = .red ∧ Balanced x .black n ∧ Balanced y .black n := by
  constructor
  · intro h
    cases d <;> cases h with | red hl hr => simp [*]
  · rintro ⟨rfl, hx, hy⟩
    cases d with
    | left => exact .red hx hy
    | right => exact .red hy hx

@[simp]
theorem balanced_black_branch_iff :
    Balanced (branch d .black x a y) c n ↔
      c = .black ∧ ∃ m, n = m + 1 ∧ (∃ c₁, Balanced x c₁ m) ∧ ∃ c₂, Balanced y c₂ m := by
  constructor
  · intro h
    cases d <;> cases h with | black hl hr => exact ⟨rfl, _, rfl, ⟨_, ‹_›⟩, _, ‹_›⟩
  · rintro ⟨rfl, m, rfl, ⟨c₁, hx⟩, c₂, hy⟩
    cases d with
    | left => exact .black hx hy
    | right => exact .black hy hx

/-- A red root can be painted black. -/
theorem Balanced.paint_of_red (h : Balanced t .red n) :
    Balanced (t.paint .black) .black (n + 1) := by
  cases h with
  | red hl hr => exact .black hl hr

/-- A tree with black nodes on its ways down is not empty. -/
theorem Balanced.exists_branch_of_pos (h : Balanced t c (n + 1)) (d : Side) :
    ∃ x a y, t = branch d c x a y := by
  have hne : t ≠ ColorTree.nil := by
    rintro rfl
    cases h
  rcases exists_branch d hne with ⟨c', x, a, y, rfl⟩
  obtain rfl : c' = c := by simpa using h.color_eq
  exact ⟨x, a, y, rfl⟩

/-- A red tree is a red branch between black trees. -/
theorem Balanced.exists_branch_of_red (h : Balanced t .red n) (d : Side) :
    ∃ x a y, t = branch d .red x a y ∧ Balanced x .black n ∧ Balanced y .black n := by
  rcases exists_branch d (ne_nil_of_red h.color_eq) with ⟨c', x, a, y, rfl⟩
  obtain rfl : c' = .red := by simpa using h.color_eq
  exact ⟨x, a, y, rfl, (balanced_red_branch_iff.mp h).2⟩

/-- Painting a balanced tree's root black keeps it balanced. -/
theorem Balanced.redBlack_paint (h : Balanced t c n) : RedBlack (t.paint .black) := by
  cases h with
  | nil => exact ⟨0, .nil⟩
  | red hl hr => exact ⟨_, .black hl hr⟩
  | black hl hr => exact ⟨_, .black hl hr⟩

theorem redBlack_nil : RedBlack (nil : ColorTree α) := ⟨0, .nil⟩

/-- Painting a red-black tree's root black changes nothing. -/
theorem RedBlack.paint_eq (h : RedBlack t) : t.paint .black = t := by
  rcases h with ⟨n, h⟩
  cases h <;> rfl

theorem RedBlack.paint (h : RedBlack t) : RedBlack (t.paint .black) := by
  rwa [h.paint_eq]

/-! ## Paths into balanced trees -/

/-- What a path accepts makes a red-black tree. -/
theorem Accepts.redBlack_plug (hk : Accepts k c n) (ht : Balanced t c n) :
    RedBlack (k.plug t) := by
  induction hk generalizing t with
  | top => exact ⟨_, ht⟩
  | red hsib _ ih => exact ih (balanced_red_branch_iff.mpr ⟨rfl, ht, hsib⟩)
  | black hsib _ ih =>
      exact ih (balanced_black_branch_iff.mpr ⟨rfl, _, rfl, ⟨_, ht⟩, _, hsib⟩)

/-- The path to a subtree of a red-black tree accepts the subtree. -/
theorem exists_accepts (h : RedBlack (k.plug t)) : ∃ c n, Balanced t c n ∧ Accepts k c n := by
  induction k generalizing t with
  | top =>
      rcases h with ⟨n, hn⟩
      exact ⟨.black, n, hn, .top⟩
  | under d c a sib up ih =>
      rcases ih h with ⟨c', n, hbranch, hup⟩
      cases c with
      | red =>
          rcases balanced_red_branch_iff.mp hbranch with ⟨rfl, ht, hsib⟩
          exact ⟨.black, n, ht, .red hsib hup⟩
      | black =>
          rcases balanced_black_branch_iff.mp hbranch with ⟨rfl, m, rfl, ⟨c₁, ht⟩, c₂, hsib⟩
          exact ⟨c₁, m, ht, .black hsib hup⟩

/-- Above a red node stands a black one. -/
theorem Accepts.exists_above_red (h : Accepts (under d .red p sib k) c n) :
    c = .black ∧ Balanced sib .black n ∧
      ∃ e g unc up, k = under e .black g unc up ∧ (∃ c', Balanced unc c' n) ∧
        Accepts up .black (n + 1) := by
  cases h with
  | red hsib hup =>
      cases hup with
      | black hunc hup => exact ⟨rfl, hsib, _, _, _, _, rfl, ⟨_, hunc⟩, hup⟩

/-- A path that accepts a black tree below a black node, or nothing at all above it, also
accepts a red one. -/
theorem Accepts.any_of_black (h : Accepts (under d .black p sib k) c n) (c' : Color) :
    Accepts (under d .black p sib k) c' n := by
  cases h with
  | black hsib hup => exact .black hsib hup

/-- A path that accepts a red tree accepts a black one. -/
theorem Accepts.black_of_red (h : Accepts k .red n) : Accepts k .black n := by
  cases h with
  | black hsib hup => exact .black hsib hup

/-- What a path accepts does not depend on the elements along it. -/
theorem Accepts.relabel {k' : TreePath α} (h : Accepts (k'.comp (under d c a sib k)) c' n)
    (b : α) : Accepts (k'.comp (under d c b sib k)) c' n := by
  induction k' generalizing c' n with
  | top =>
      cases h with
      | red hsib hup => exact .red hsib hup
      | black hsib hup => exact .black hsib hup
  | under e c₁ p sib' up ih =>
      cases h with
      | red hsib hup => exact .red hsib (ih hup)
      | black hsib hup => exact .black hsib (ih hup)

/-- Another element in a node's place keeps a tree red-black. -/
theorem RedBlack.relabel {l r : ColorTree α} (h : RedBlack (k.plug (node c l a r))) (b : α) :
    RedBlack (k.plug (node c l b r)) := by
  rcases exists_accepts h with ⟨c', n, hnode, hk⟩
  refine hk.redBlack_plug ?_
  cases hnode with
  | red hl hr => exact .red hl hr
  | black hl hr => exact .black hl hr

/-! ## Repairing a red node below a red node -/

/-- With a red uncle the two red nodes turn black and the one above them red. -/
theorem balanced_recolour (ht : Balanced t .red n) (hsib : Balanced sib .black n)
    (hunc : Balanced x .red n) :
    Balanced (branch e .red (branch d .black t p sib) g (x.paint .black)) .red (n + 1) := by
  rw [balanced_red_branch_iff, balanced_black_branch_iff]
  exact ⟨rfl, ⟨rfl, n, rfl, ⟨_, ht⟩, _, hsib⟩, hunc.paint_of_red⟩

/-- With a black uncle an outer red node is lifted by one rotation. -/
theorem balanced_outer (ht : Balanced t .red n) (hsib : Balanced sib .black n)
    (hunc : Balanced x .black n) :
    Balanced (branch e .black t p (branch e .red sib g x)) .black (n + 1) := by
  rw [balanced_black_branch_iff]
  exact ⟨rfl, n, rfl, ⟨_, ht⟩, _, balanced_red_branch_iff.mpr ⟨rfl, hsib, hunc⟩⟩

/-- With a black uncle an inner red node is lifted by two rotations. -/
theorem balanced_inner (hx : Balanced x .black n) (hy : Balanced y .black n)
    (hsib : Balanced sib .black n) (hunc : Balanced z .black n) :
    Balanced (branch e .black (branch e .red sib p x) a (branch e .red y g z)) .black (n + 1) :=
  balanced_outer (balanced_red_branch_iff.mpr ⟨rfl, hsib, hx⟩) hy hunc

/-! ## Repairing a subtree that lacks a black node -/

/-- The number of black nodes below and at a node of a given colour. -/
def Color.above : Color → Nat → Nat
  | .red, n => n
  | .black, n => n + 1

/-- A node of either colour may stand between black trees. -/
theorem balanced_branch (hx : Balanced x .black n) (hy : Balanced y .black n) :
    Balanced (branch d c x a y) c (c.above n) := by
  cases c with
  | red => exact balanced_red_branch_iff.mpr ⟨rfl, hx, hy⟩
  | black => exact balanced_black_branch_iff.mpr ⟨rfl, n, rfl, ⟨_, hx⟩, _, hy⟩

/-- What a path that accepts a black tree says about its first step. -/
theorem Accepts.exists_above (h : Accepts (under d c p sib k) .black n) :
    Accepts k c (c.above n) ∧ ∃ c', Balanced sib c' n ∧ (c = .red → c' = .black) := by
  cases h with
  | red hsib hup => exact ⟨hup, .black, hsib, fun _ => rfl⟩
  | black hsib hup => exact ⟨hup, _, hsib, fun hc => by cases hc⟩

/-- What a path that accepts a branch says about the branch's subtrees. -/
theorem Accepts.exists_below (hk : Accepts k c' n)
    (h : Balanced (branch d c x a y) c' n) :
    ∃ c₁ m, Balanced y c₁ m ∧ Accepts k c (c.above m) ∧ (c = .red → c₁ = .black) := by
  cases c with
  | red =>
      obtain ⟨rfl, -, hy⟩ := balanced_red_branch_iff.mp h
      exact ⟨.black, n, hy, hk, fun _ => rfl⟩
  | black =>
      obtain ⟨rfl, m, rfl, -, c₂, hy⟩ := balanced_black_branch_iff.mp h
      exact ⟨c₂, m, hy, hk, fun hc => by cases hc⟩

/-- A red sibling is rotated above the node, which turns red. -/
theorem Accepts.lift_red_sibling (h : Accepts (under d c p (branch d .red x a y) k) .black n) :
    c = .black ∧ Accepts (under d .red p x (under d .black a y k)) .black n := by
  rcases h.exists_above with ⟨hup, c', hsib, hc⟩
  rcases balanced_red_branch_iff.mp hsib with ⟨rfl, hx, hy⟩
  cases c with
  | red => cases hc rfl
  | black => exact ⟨rfl, .red hx (.black hy hup)⟩

/-- A path is at the end of a subtree that lacks a black node: a black subtree is short of
one, a red one is not once it is painted black. -/
def Lacks (k : TreePath α) (t : ColorTree α) : Prop :=
  ∃ n, Accepts k .black (n + 1) ∧
    (Balanced t .black n ∨ t.color = .red ∧ Balanced (t.paint .black) .black (n + 1))

/-- Between black nephews a black sibling turns red, and the subtree above lacks a black
node. -/
theorem lacks_turn_red (ht : Balanced t .black n) (hx : Balanced x .black n)
    (hy : Balanced y .black n) (hk : Accepts k c (c.above (n + 1))) :
    Lacks k (branch d c t p (branch d .red x a y)) := by
  have hpaint : Balanced (branch d .black t p (branch d .red x a y)) .black (n + 1) :=
    balanced_black_branch_iff.mpr
      ⟨rfl, n, rfl, ⟨_, ht⟩, _, balanced_red_branch_iff.mpr ⟨rfl, hx, hy⟩⟩
  cases c with
  | black => exact ⟨n + 1, hk, Or.inl hpaint⟩
  | red =>
      cases hk with
      | black hsib hup => exact ⟨n, .black hsib hup, Or.inr ⟨by simp, by simpa using hpaint⟩⟩

/-- Where a black node is gone its remaining subtree lacks a black node. -/
theorem lacks_of_balanced (hk : Accepts k .black (n + 1)) (ht : Balanced t c n) : Lacks k t := by
  cases c with
  | red => exact ⟨n, hk, .inr ⟨ht.color_eq, ht.paint_of_red⟩⟩
  | black => exact ⟨n, hk, .inl ht⟩

/-- With a red far nephew the sibling takes the place and the colour of the node above. -/
theorem balanced_borrow_far (ht : Balanced t .black n) (hx : Balanced x c' n)
    (hy : Balanced y .red n) :
    Balanced (branch d c (branch d .black t p x) a (y.paint .black)) c (c.above (n + 1)) :=
  balanced_branch (balanced_black_branch_iff.mpr ⟨rfl, n, rfl, ⟨_, ht⟩, _, hx⟩)
    hy.paint_of_red

/-- With a red near nephew that one takes the place and the colour of the node above. -/
theorem balanced_borrow_near (ht : Balanced t .black n) (hx : Balanced x .black n)
    (hy : Balanced y .black n) (hz : Balanced z .black n) :
    Balanced (branch d c (branch d .black t p x) b (branch d .black y a z)) c
      (c.above (n + 1)) :=
  balanced_branch (balanced_black_branch_iff.mpr ⟨rfl, n, rfl, ⟨_, ht⟩, _, hx⟩)
    (balanced_black_branch_iff.mpr ⟨rfl, n, rfl, ⟨_, hy⟩, _, hz⟩)

/-- A black subtree that lacks a black node is balanced in itself. -/
theorem Lacks.exists_of_black (h : Lacks k t) (hblack : t.color = .black) :
    ∃ n, Accepts k .black (n + 1) ∧ Balanced t .black n := by
  rcases h with ⟨n, hk, ht | ⟨hred, -⟩⟩
  · exact ⟨n, hk, ht⟩
  · rw [hblack] at hred
    cases hred

/-- Where nothing stands above, or the subtree is red, painting it black is enough. -/
theorem Lacks.redBlack (h : Lacks k t) (hend : k = top ∨ t.color = .red) :
    RedBlack (k.plug (t.paint .black)) := by
  rcases h with ⟨n, hk, ht | ⟨-, ht⟩⟩
  · rcases hend with rfl | hred
    · exact ht.redBlack_paint
    · rw [ht.color_eq] at hred
      cases hred
  · exact hk.redBlack_plug ht

/-! ## Height -/

/-- The ways down of a balanced tree are at most twice as long as they are black. -/
theorem Balanced.height_le (h : Balanced t c n) :
    t.height ≤ 2 * n + (if c = .red then 1 else 0) := by
  induction h with
  | nil => simp [ColorTree.height]
  | red _ _ ihl ihr =>
      simp only [ColorTree.height, reduceCtorEq, if_true, if_false] at *
      omega
  | @black n l r a c c' _ _ ihl ihr =>
      have hc : (if c = Color.red then 1 else 0) ≤ 1 := by split <;> omega
      have hc' : (if c' = Color.red then 1 else 0) ≤ 1 := by split <;> omega
      simp only [ColorTree.height, reduceCtorEq, if_false]
      omega

/-- A balanced tree holds as many nodes as its black levels need. -/
theorem Balanced.two_pow_le (h : Balanced t c n) : 2 ^ n ≤ t.toList.length + 1 := by
  induction h with
  | nil => simp
  | red _ _ ihl _ =>
      simp only [toList, List.length_append, List.length_cons]
      omega
  | black _ _ ihl ihr =>
      simp only [toList, List.length_append, List.length_cons, Nat.pow_succ]
      omega

/-- A red-black tree is at most twice as high as the logarithm of its size. -/
theorem RedBlack.height_le (h : RedBlack t) : t.height ≤ 2 * Nat.log 2 (t.toList.length + 1) := by
  rcases h with ⟨n, hn⟩
  have hlog : n ≤ Nat.log 2 (t.toList.length + 1) := Nat.le_log_of_pow_le (by omega) hn.two_pow_le
  have hheight := hn.height_le
  simp only [reduceCtorEq, if_false] at hheight
  omega

end Foundation
