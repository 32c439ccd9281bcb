import Mathlib.Data.List.Nodup
import Mathlib.Data.List.Perm.Basic
import Mathlib.Tactic.Common

/-!
# Foundation - Binary trees with coloured nodes

Binary trees whose nodes carry a colour, read from left to right, and the paths that
lead from a place in such a tree up to its root.  A constructor that takes the side of
its first subtree as an argument lets one statement speak of a shape and of its mirror
image.

Main results:

- Theorem {lit}`TreePath.toList_plug`: a path fixes what stands before and after the
  subtree it leads to.
- Theorem {lit}`ColorTree.exists_plug_of_mem`: every element of a tree stands at the end
  of a path.
- Theorem {lit}`ColorTree.toList_rotate`: a rotation keeps the order of the elements.
-/

namespace Foundation

universe u

/-- The two sides of a node. -/
inductive Side where
  | left
  | right
deriving DecidableEq, Repr

/-- The opposite side. -/
def Side.other : Side → Side
  | left => right
  | right => left

@[simp]
theorem Side.other_left : Side.left.other = .right := rfl

@[simp]
theorem Side.other_right : Side.right.other = .left := rfl

@[simp]
theorem Side.other_other (d : Side) : d.other.other = d := by
  cases d <;> rfl

@[simp]
theorem Side.other_ne (d : Side) : d.other ≠ d := by
  cases d <;> decide

theorem Side.eq_or_eq_other (d e : Side) : e = d ∨ e = d.other := by
  cases d <;> cases e <;> decide

/-- The two colours of a node. -/
inductive Color where
  | red
  | black
deriving DecidableEq, Repr

/-- A binary tree with coloured nodes. -/
inductive ColorTree (α : Type u) where
  | nil
  | node (c : Color) (l : ColorTree α) (a : α) (r : ColorTree α)
deriving DecidableEq, Repr

namespace ColorTree

variable {α : Type u}

/-- The colour at the root; an empty tree counts as black. -/
def color : ColorTree α → Color
  | nil => .black
  | node c _ _ _ => c

/-- The element at the root. -/
def root : ColorTree α → Option α
  | nil => none
  | node _ _ a _ => some a

/-- The elements from left to right. -/
def toList : ColorTree α → List α
  | nil => []
  | node _ l a r => l.toList ++ a :: r.toList

/-- Change the colour at the root. -/
def paint (c : Color) : ColorTree α → ColorTree α
  | nil => nil
  | node _ l a r => node c l a r

/-- A node with one subtree on a given side and another on the opposite side. -/
def branch (d : Side) (c : Color) (t : ColorTree α) (a : α) (sib : ColorTree α) :
    ColorTree α :=
  match d with
  | .left => node c t a sib
  | .right => node c sib a t

/-- The number of nodes on the longest way down. -/
def height : ColorTree α → Nat
  | nil => 0
  | node _ l _ r => max l.height r.height + 1

variable (d : Side) (c c' : Color) (t sib x y z : ColorTree α) (a b : α)

theorem branch_other : branch d.other c t a sib = branch d c sib a t := by
  cases d <;> rfl

@[simp] theorem color_nil : (nil : ColorTree α).color = .black := rfl

@[simp] theorem root_nil : (nil : ColorTree α).root = none := rfl

@[simp] theorem toList_nil : (nil : ColorTree α).toList = [] := rfl

@[simp] theorem paint_nil : paint c (nil : ColorTree α) = nil := rfl

@[simp]
theorem color_branch : (branch d c t a sib).color = c := by
  cases d <;> rfl

@[simp]
theorem root_branch : (branch d c t a sib).root = some a := by
  cases d <;> rfl

@[simp]
theorem paint_branch : (branch d c t a sib).paint c' = branch d c' t a sib := by
  cases d <;> rfl

@[simp]
theorem toList_paint : (t.paint c).toList = t.toList := by
  cases t <;> rfl

@[simp]
theorem root_paint : (t.paint c).root = t.root := by
  cases t <;> rfl

@[simp]
theorem branch_ne_nil : branch d c t a sib ≠ nil := by
  cases d <;> simp [branch]

/-- Every tree that is not empty is a branch, seen from either side. -/
theorem exists_branch {t : ColorTree α} (h : t ≠ nil) :
    ∃ c x a y, t = branch d c x a y := by
  cases t with
  | nil => exact absurd rfl h
  | node c l a r =>
      cases d with
      | left => exact ⟨c, l, a, r, rfl⟩
      | right => exact ⟨c, r, a, l, rfl⟩

/-- A tree with a red root is not empty. -/
theorem ne_nil_of_red {t : ColorTree α} (h : t.color = .red) : t ≠ nil := by
  rintro rfl
  cases h

theorem root_eq_none_iff {t : ColorTree α} : t.root = none ↔ t = nil := by
  cases t <;> simp [root]

theorem mem_toList_of_root {t : ColorTree α} (h : t.root = some a) : a ∈ t.toList := by
  cases t with
  | nil => cases h
  | node c l b r =>
      cases h
      simp [toList]

/-- The elements of a branch, in no particular order. -/
theorem toList_branch_perm : (branch d c t a sib).toList.Perm (a :: (t.toList ++ sib.toList)) := by
  cases d with
  | left => exact List.perm_middle
  | right => exact List.perm_middle.trans (List.perm_append_comm.cons a)

@[simp]
theorem mem_toList_branch :
    b ∈ (branch d c t a sib).toList ↔ b = a ∨ b ∈ t.toList ∨ b ∈ sib.toList := by
  rw [(toList_branch_perm d c t sib a).mem_iff]
  simp

/-- The elements depend on the elements of the subtrees alone. -/
theorem toList_branch_congr {t t' sib sib' : ColorTree α} (ht : t.toList = t'.toList)
    (hsib : sib.toList = sib'.toList) :
    (branch d c t a sib).toList = (branch d c' t' a sib').toList := by
  cases d <;> simp [branch, toList, ht, hsib]

/-- A rotation keeps the order of the elements, whatever colours the two nodes get. -/
theorem toList_rotate (c₁ c₂ c₃ c₄ : Color) :
    (branch d c₃ (branch d c₄ x a y) b z).toList =
      (branch d c₁ x a (branch d c₂ y b z)).toList := by
  cases d <;> simp [branch, toList]

end ColorTree

/-! ## Paths to the root -/

/-- A path from a place in a tree up to the root: at every step the side the path comes
from, the colour and the element of the node, and its subtree on the other side. -/
inductive TreePath (α : Type u) where
  | top
  | under (d : Side) (c : Color) (a : α) (sib : ColorTree α) (up : TreePath α)
deriving DecidableEq, Repr

namespace TreePath

open ColorTree

variable {α : Type u}

/-- Put a tree at the end of a path. -/
def plug : TreePath α → ColorTree α → ColorTree α
  | top, t => t
  | under d c a sib up, t => up.plug (branch d c t a sib)

/-- What stands before the end of a path. -/
def before : TreePath α → List α
  | top => []
  | under .left _ _ _ up => up.before
  | under .right _ a sib up => up.before ++ (sib.toList ++ [a])

/-- What stands after the end of a path. -/
def after : TreePath α → List α
  | top => []
  | under .left _ a sib up => a :: sib.toList ++ up.after
  | under .right _ _ _ up => up.after

/-- The elements a path holds. -/
def elems (k : TreePath α) : List α := k.before ++ k.after

/-- The element above the end of a path; there is none at the root, unless the whole tree
hangs below {lit}`q`. -/
def parent (q : Option α) : TreePath α → Option α
  | top => q
  | under _ _ a _ _ => some a

/-- The root of the whole tree when a tree with a given root stands at the end. -/
def rootOf : TreePath α → Option α → Option α
  | top, o => o
  | under _ _ a _ up, _ => up.rootOf (some a)

/-- The number of steps up to the root. -/
def length : TreePath α → Nat
  | top => 0
  | under _ _ _ _ up => up.length + 1

/-- One path continued by another. -/
def comp : TreePath α → TreePath α → TreePath α
  | top, k => k
  | under d c a sib up, k => under d c a sib (up.comp k)

variable (k k' : TreePath α) (t t' : ColorTree α)

@[simp] theorem plug_top : top.plug t = t := rfl

@[simp] theorem before_top : (top : TreePath α).before = [] := rfl

@[simp] theorem after_top : (top : TreePath α).after = [] := rfl

@[simp]
theorem plug_under (d : Side) (c : Color) (a : α) (sib : ColorTree α) :
    (under d c a sib k).plug t = k.plug (branch d c t a sib) := rfl

@[simp] theorem parent_top (q : Option α) : top.parent q = q := rfl

@[simp]
theorem parent_under (q : Option α) (d : Side) (c : Color) (a : α) (sib : ColorTree α) :
    (under d c a sib k).parent q = some a := rfl

/-- A branch is seen from its other subtree as well. -/
theorem plug_under_other (d : Side) (c : Color) (a : α) (x y : ColorTree α) :
    (under d.other c a x k).plug y = k.plug (branch d c x a y) := by
  rw [plug_under, branch_other]

/-- A path fixes what stands before and after the subtree it leads to. -/
theorem toList_plug : (k.plug t).toList = k.before ++ t.toList ++ k.after := by
  induction k generalizing t with
  | top => simp
  | under d c a sib up ih =>
      cases d <;> simp [plug, ih, before, after, branch, toList]

/-- Replacing a subtree by one with the same elements keeps the elements. -/
theorem toList_plug_congr {t t' : ColorTree α} (h : t.toList = t'.toList) :
    (k.plug t).toList = (k.plug t').toList := by
  rw [toList_plug, toList_plug, h]

/-- The elements of a tree are those of a subtree and those of the path to it. -/
theorem toList_plug_perm : (k.plug t).toList.Perm (t.toList ++ k.elems) := by
  rw [toList_plug, List.append_assoc]
  exact List.perm_append_comm_assoc _ _ _

@[simp]
theorem mem_toList_plug {a : α} : a ∈ (k.plug t).toList ↔ a ∈ t.toList ∨ a ∈ k.elems := by
  rw [(toList_plug_perm k t).mem_iff, List.mem_append]

theorem nodup_plug_iff : (k.plug t).toList.Nodup ↔ (t.toList ++ k.elems).Nodup :=
  (toList_plug_perm k t).nodup_iff

/-- The elements of a path, in no particular order. -/
theorem elems_under_perm (d : Side) (c : Color) (a : α) (sib : ColorTree α) :
    (under d c a sib k).elems.Perm (a :: (sib.toList ++ k.elems)) := by
  cases d with
  | left => exact List.perm_middle.trans ((List.perm_append_comm_assoc _ _ _).cons a)
  | right =>
      simp only [elems, before, after, List.append_assoc, List.singleton_append]
      exact ((List.perm_middle.append_left _).trans List.perm_middle).trans
        ((List.perm_append_comm_assoc _ _ _).cons a)

@[simp]
theorem mem_elems_under {b : α} (d : Side) (c : Color) (a : α) (sib : ColorTree α) :
    b ∈ (under d c a sib k).elems ↔ b = a ∨ b ∈ sib.toList ∨ b ∈ k.elems := by
  rw [(elems_under_perm k d c a sib).mem_iff]
  simp

@[simp] theorem elems_top : (top : TreePath α).elems = [] := rfl

/-- Without repetition the element at the end of a path splits the elements in one way. -/
theorem eq_of_toList_plug {c : Color} {l r : ColorTree α} {a : α} {xs ys : List α}
    (hnodup : (k.plug (node c l a r)).toList.Nodup)
    (h : (k.plug (node c l a r)).toList = xs ++ a :: ys) :
    xs = k.before ++ l.toList ∧ ys = r.toList ++ k.after := by
  rw [h, List.nodup_append, List.nodup_cons] at hnodup
  have hxs : a ∉ xs := fun ha => hnodup.2.2 a ha a (by simp) rfl
  rw [toList_plug, toList, ← List.append_assoc, List.append_assoc, List.cons_append, eq_comm,
    List.append_cons_inj_of_notMem hxs hnodup.2.1.1] at h
  exact ⟨h.1, h.2.2⟩

/-- Taking out the element at the end of a path leaves the others in order. -/
theorem erase_toList_plug [DecidableEq α] {c : Color} {l r : ColorTree α} {a : α}
    (hnodup : (k.plug (node c l a r)).toList.Nodup) :
    (k.plug (node c l a r)).toList.erase a =
      k.before ++ (l.toList ++ r.toList) ++ k.after := by
  have hperm := hnodup
  rw [nodup_plug_iff, List.nodup_append, toList, List.nodup_append] at hperm
  have hbefore : a ∉ k.before := fun h =>
    hperm.2.2 a (by simp) a (List.mem_append_left _ h) rfl
  have hl : a ∉ l.toList := fun h => hperm.1.2.2 a h a (by simp) rfl
  rw [toList_plug, toList, List.append_assoc, List.append_assoc,
    List.erase_append_right _ hbefore, List.erase_append_right _ hl, List.cons_append,
    List.erase_cons_head]
  simp

theorem root_plug : (k.plug t).root = k.rootOf t.root := by
  induction k generalizing t with
  | top => rfl
  | under d c a sib up ih => simp [ih, rootOf]

theorem exists_rootOf (a : α) : ∃ b, k.rootOf (some a) = some b ∧ (b = a ∨ b ∈ k.elems) := by
  induction k generalizing a with
  | top => exact ⟨a, rfl, .inl rfl⟩
  | under d c p sib up ih =>
      rcases ih p with ⟨b, hb, hmem⟩
      refine ⟨b, hb, .inr ?_⟩
      rw [mem_elems_under]
      tauto

/-- The root of a proper subtree is not the root of the whole tree. -/
theorem root_ne_of_nodup {d : Side} {c : Color} {a : α} {sib : ColorTree α}
    (hnodup : ((under d c a sib k).plug t).toList.Nodup) :
    t.root ≠ ((under d c a sib k).plug t).root := by
  rcases exists_rootOf k a with ⟨b, hb, hmem⟩
  rw [root_plug, rootOf, hb]
  intro hroot
  rw [nodup_plug_iff, List.nodup_append] at hnodup
  refine hnodup.2.2 b (mem_toList_of_root b hroot) b ?_ rfl
  rw [mem_elems_under]
  tauto

/-- A subtree that is not empty has another root than its sibling. -/
theorem root_ne_sibling {d : Side} {c : Color} {a : α} {sib : ColorTree α}
    (hnodup : (k.plug (branch d c t a sib)).toList.Nodup) (hsib : sib ≠ .nil) :
    sib.root ≠ t.root := by
  rcases exists_branch d hsib with ⟨c', x, b, y, rfl⟩
  rw [root_branch]
  intro hroot
  rw [nodup_plug_iff, List.nodup_append, (toList_branch_perm d c t _ a).nodup_iff,
    List.nodup_cons, List.nodup_append] at hnodup
  exact hnodup.1.2.2.2 b (mem_toList_of_root b hroot.symm) b (by simp) rfl

@[simp]
theorem plug_comp : (k.comp k').plug t = k'.plug (k.plug t) := by
  induction k generalizing t with
  | top => rfl
  | under d c a sib up ih => exact ih (branch d c t a sib)

theorem parent_comp (q : Option α) : (k.comp k').parent q = k.parent (k'.parent q) := by
  cases k <;> rfl

theorem length_comp : (k.comp k').length = k.length + k'.length := by
  induction k with
  | top => simp [comp, length]
  | under d c a sib up ih =>
      simp only [comp, length, ih]
      omega

/-- A path is no longer than the tree around it is high. -/
theorem length_le_height : k.length + t.height ≤ (k.plug t).height := by
  induction k generalizing t with
  | top => simp [length]
  | under d c a sib up ih =>
      have hup := ih (branch d c t a sib)
      have hbranch : t.height + 1 ≤ (branch d c t a sib).height := by
        cases d <;> simp only [branch, ColorTree.height] <;> omega
      rw [plug_under, length]
      omega

/-- Every step of the path comes from one side. -/
def Along (d : Side) : TreePath α → Prop
  | top => True
  | under e _ _ _ up => e = d ∧ up.Along d

theorem Along.comp {d : Side} {k k' : TreePath α} (hk : k.Along d) (hk' : k'.Along d) :
    (k.comp k').Along d := by
  induction k with
  | top => exact hk'
  | under e c a sib up ih => exact ⟨hk.1, ih hk.2⟩

/-- Nothing stands before a path that keeps to the left. -/
theorem Along.before_eq_nil {k : TreePath α} (hk : k.Along .left) : k.before = [] := by
  induction k with
  | top => rfl
  | under e c a sib up ih =>
      obtain ⟨rfl, hup⟩ := hk
      exact ih hup

/-- Nothing stands after a path that keeps to the right. -/
theorem Along.after_eq_nil {k : TreePath α} (hk : k.Along .right) : k.after = [] := by
  induction k with
  | top => rfl
  | under e c a sib up ih =>
      obtain ⟨rfl, hup⟩ := hk
      exact ih hup

/-- A path along the left side leads to the first element. -/
theorem Along.head?_toList {k : TreePath α} (hk : k.Along .left) (c : Color) (a : α)
    (x : ColorTree α) : (k.plug (branch .left c .nil a x)).toList.head? = some a := by
  simp [toList_plug, hk.before_eq_nil, branch, toList]

/-- A path along the right side leads to the last element. -/
theorem Along.getLast?_toList {k : TreePath α} (hk : k.Along .right) (c : Color) (a : α)
    (x : ColorTree α) : (k.plug (branch .right c .nil a x)).toList.getLast? = some a := by
  simp [toList_plug, hk.after_eq_nil, branch, toList]

/-- What stands before the end of a continued path. -/
theorem before_comp : (k.comp k').before = k'.before ++ k.before := by
  induction k with
  | top => simp [comp]
  | under d c a sib up ih => cases d <;> simp [comp, before, ih]

/-- What stands after the end of a continued path. -/
theorem after_comp : (k.comp k').after = k.after ++ k'.after := by
  induction k with
  | top => rfl
  | under d c a sib up ih => cases d <;> simp [comp, after, ih]

/-- The nearest element on one side of the end of a path: that of the first step that comes
from the other side. -/
def nearest (d : Side) : TreePath α → Option α
  | top => none
  | under e _ a _ up => if e = d then up.nearest d else some a

theorem nearest_right : k.nearest .right = k.after.head? := by
  induction k with
  | top => rfl
  | under d c a sib up ih => cases d <;> simp [nearest, after, ih]

theorem nearest_left : k.nearest .left = k.before.getLast? := by
  induction k with
  | top => rfl
  | under d c a sib up ih => cases d <;> simp [nearest, before, ih]

end TreePath

/-- A tree that is not empty has an outermost node on either side. -/
theorem ColorTree.exists_outermost {α : Type u} (d : Side) {t : ColorTree α} (h : t ≠ .nil) :
    ∃ k c a x, TreePath.Along d k ∧ t = TreePath.plug k (branch d c .nil a x) := by
  induction t with
  | nil => exact absurd rfl h
  | node c l a r ihl ihr =>
      cases d with
      | left =>
          by_cases hl : l = .nil
          · exact ⟨.top, c, a, r, trivial, by rw [hl]; rfl⟩
          · rcases ihl hl with ⟨k, c', b, x, hk, rfl⟩
            exact ⟨k.comp (.under .left c a r .top), c', b, x, hk.comp ⟨rfl, trivial⟩,
              by simp [branch]⟩
      | right =>
          by_cases hr : r = .nil
          · exact ⟨.top, c, a, l, trivial, by rw [hr]; rfl⟩
          · rcases ihr hr with ⟨k, c', b, x, hk, rfl⟩
            exact ⟨k.comp (.under .right c a l .top), c', b, x, hk.comp ⟨rfl, trivial⟩,
              by simp [branch]⟩

/-- Every element of a tree stands at the end of a path. -/
theorem ColorTree.exists_plug_of_mem {α : Type u} {a : α} {t : ColorTree α}
    (h : a ∈ t.toList) : ∃ k c l r, t = TreePath.plug k (node c l a r) := by
  induction t with
  | nil => cases h
  | node c l b r ihl ihr =>
      rcases List.mem_append.mp h with hl | hr
      · rcases ihl hl with ⟨k, c', l', r', rfl⟩
        exact ⟨k.comp (.under .left c b r .top), c', l', r', by simp [branch]⟩
      · rcases List.mem_cons.mp hr with rfl | hr
        · exact ⟨.top, c, l, r, rfl⟩
        · rcases ihr hr with ⟨k, c', l', r', rfl⟩
          exact ⟨k.comp (.under .right c b l .top), c', l', r', by simp [branch]⟩

end Foundation
