import Xfsd.Linux.Rbtree
import Xfsd.Foundation.Word

/-!
# XFSD - Red-black trees in memory

What it means that a tree stands in memory: every node is at its address and holds the
packed address of its parent, its colour and the addresses of its children.  The nodes of
a tree are addresses that are not null and have two zero bits at the end, which leaves
room for the colour.

Main results:

- Theorems {lit}`RbNode.rbParent_cell` and {lit}`RbNode.rbIsRed_cell`: parent and colour
  come out of the packed word as they went in.
- Theorem {lit}`stands_plug_iff`: a tree stands exactly when the path to a subtree does
  and the subtree stands at its end.
- Theorem {lit}`relink_spec`: the link to a subtree can be changed from its parent.
-/

namespace Xfsd

open Foundation ColorTree TreePath

variable {w : Nat}

/-! ## Addresses and packed words -/

/-- The address of a node: {lit}`aligned(sizeof(long))` leaves two zero bits. -/
@[ext]
structure NodePtr (w : Nat) where
  val : BitVec w
  ne_null : val ≠ 0#w
  aligned : val &&& 3#w = 0#w
deriving DecidableEq, Repr

attribute [simp] NodePtr.ne_null

@[simp]
theorem NodePtr.val_inj {a b : NodePtr w} : a.val = b.val ↔ a = b := NodePtr.ext_iff.symm

instance : Coe (NodePtr w) (BitVec w) := ⟨NodePtr.val⟩

/-- A link: the address of a node, or {lit}`NULL`. -/
def ptr : Option (NodePtr w) → BitVec w
  | none => 0#w
  | some a => a.val

@[simp] theorem ptr_none : ptr (none : Option (NodePtr w)) = 0#w := rfl

@[simp] theorem ptr_some (a : NodePtr w) : ptr (some a) = a.val := rfl

@[simp]
theorem ptr_eq_zero_iff {o : Option (NodePtr w)} : ptr o = 0#w ↔ o = none := by
  cases o with
  | none => simp
  | some a => simp [a.ne_null]

@[simp]
theorem ptr_eq_val_iff {o : Option (NodePtr w)} {a : NodePtr w} : ptr o = a.val ↔ o = some a := by
  cases o with
  | none => simpa using a.ne_null.symm
  | some b => simp

theorem ptr_inj {o o' : Option (NodePtr w)} (h : ptr o = ptr o') : o = o' := by
  cases o' with
  | none => exact ptr_eq_zero_iff.mp h
  | some a => exact ptr_eq_val_iff.mp h

theorem ptr_and_three (o : Option (NodePtr w)) : ptr o &&& 3#w = 0#w := by
  cases o with
  | none => simp
  | some a => exact a.aligned

/-- The bit of a colour: {lit}`RB_RED` or {lit}`RB_BLACK`. -/
def colorBit : Color → BitVec w
  | .red => 0#w
  | .black => 1#w

/-- The node with a given parent, colour and children, the first of them on the side
{lit}`d`. -/
def cell (d : Side) (parent : Option (NodePtr w)) (c : Color)
    (child other : Option (NodePtr w)) : RbNode w :=
  match d with
  | .left => ⟨ptr parent ||| colorBit c, ptr other, ptr child⟩
  | .right => ⟨ptr parent ||| colorBit c, ptr child, ptr other⟩

theorem colorBit_and_one (c : Color) : (colorBit c : BitVec w) &&& 1#w = colorBit c := by
  cases c <;> simp [colorBit]

theorem one_and_three : 1#w &&& 3#w = 1#w := by
  rw [← BitVec.ofNat_and]
  rfl

theorem colorBit_and_three (c : Color) : (colorBit c : BitVec w) &&& 3#w = colorBit c := by
  cases c with
  | red => simp [colorBit]
  | black => exact one_and_three

theorem ptr_and_one (o : Option (NodePtr w)) : ptr o &&& 1#w = 0#w := by
  rw [← one_and_three, BitVec.and_comm 1#w, ← BitVec.and_assoc, ptr_and_three]
  simp

theorem colorBit_eq_zero_iff [NeZero w] {c : Color} : (colorBit c : BitVec w) = 0#w ↔ c = .red := by
  cases c <;> simp [colorBit, NeZero.ne w]

theorem colorBit_eq_one_iff [NeZero w] {c : Color} :
    (colorBit c : BitVec w) = 1#w ↔ c = .black := by
  cases c <;> simp [colorBit, eq_comm, NeZero.ne w]

namespace RbNode

variable (d : Side) (q q' : Option (NodePtr w)) (c c' : Color) (x y z : Option (NodePtr w))

theorem rbParentColor_cell : (cell d q c x y).rbParentColor = ptr q ||| colorBit c := by
  cases d <;> rfl

/-- A node can take over the packed word of another. -/
theorem cell_withParentColor (d' : Side) (x' y' : Option (NodePtr w)) :
    { cell d q c x y with rbParentColor := (cell d' q' c' x' y').rbParentColor } =
      cell d q' c' x y := by
  rw [rbParentColor_cell]
  cases d <;> rfl

@[simp]
theorem rbParent_cell : (cell d q c x y).rbParent = ptr q := by
  rw [rbParent, rbParentColor_cell, tagged_and_not (ptr_and_three q) (colorBit_and_three c)]

@[simp]
theorem rbColor_cell : (cell d q c x y).rbColor = colorBit c := by
  rw [rbColor, rbParentColor_cell, tagged_and (ptr_and_one q) (colorBit_and_one c)]

@[simp]
theorem rbIsRed_cell [NeZero w] : (cell d q c x y).rbIsRed = decide (c = .red) := by
  simp [rbIsRed, ← colorBit_eq_zero_iff (w := w), Bool.beq_eq_decide_eq]

@[simp]
theorem rbIsBlack_cell [NeZero w] : (cell d q c x y).rbIsBlack = decide (c = .black) := by
  cases c <;> simp [rbIsBlack, colorBit, NeZero.ne w]

@[simp]
theorem rbSetParent_cell : (cell d q c x y).rbSetParent (ptr q') = cell d q' c x y := by
  have htag := tagged_and (ptr_and_three q) (colorBit_and_three c)
  cases d <;> simp only [rbSetParent, cell, htag, BitVec.or_comm (colorBit c)]

@[simp]
theorem rbSetColor_cell :
    (cell d q c x y).rbSetColor (colorBit c') = cell d q c' x y := by
  have htag := tagged_and_not (ptr_and_one q) (colorBit_and_one c)
  cases d <;> simp only [rbSetColor, cell, htag]

@[simp]
theorem rbSetRed_cell : (cell d q c x y).rbSetRed = cell d q .red x y := by
  rw [← rbSetColor_cell d q c .red x y]
  simp [rbSetRed, rbSetColor, colorBit]

@[simp]
theorem rbSetBlack_cell : (cell d q c x y).rbSetBlack = cell d q .black x y := by
  cases d <;> cases c <;> simp [rbSetBlack, cell, colorBit, BitVec.or_assoc]

@[simp]
theorem child_cell : (cell d q c x y).child d = ptr x := by
  cases d <;> rfl

@[simp]
theorem child_other_cell : (cell d q c x y).child d.other = ptr y := by
  cases d <;> rfl

@[simp]
theorem child_cell_other : (cell d.other q c x y).child d = ptr y := by
  cases d <;> rfl

@[simp] theorem rbLeft_cell_left : (cell .left q c x y).rbLeft = ptr x := rfl

@[simp] theorem rbRight_cell_left : (cell .left q c x y).rbRight = ptr y := rfl

@[simp] theorem rbLeft_cell_right : (cell .right q c x y).rbLeft = ptr y := rfl

@[simp] theorem rbRight_cell_right : (cell .right q c x y).rbRight = ptr x := rfl

@[simp]
theorem setChild_cell : (cell d q c x y).setChild d (ptr z) = cell d q c z y := by
  cases d <;> rfl

@[simp]
theorem setChild_other_cell : (cell d q c x y).setChild d.other (ptr z) = cell d q c x z := by
  cases d <;> rfl

@[simp]
theorem setChild_right_cell : (cell .left q c x y).setChild .right (ptr z) = cell .left q c x z :=
  rfl

@[simp]
theorem setChild_right_cell_val (a : NodePtr w) :
    (cell .left q c x y).setChild .right a.val = cell .left q c x (some a) := rfl

@[simp]
theorem setChild_cell_val (a : NodePtr w) :
    (cell d q c x y).setChild d a.val = cell d q c (some a) y :=
  setChild_cell d q c x y (some a)

@[simp]
theorem setChild_other_cell_val (a : NodePtr w) :
    (cell d q c x y).setChild d.other a.val = cell d q c x (some a) :=
  setChild_other_cell d q c x y (some a)

@[simp]
theorem rbSetParent_cell_val (a : NodePtr w) :
    (cell d q c x y).rbSetParent a.val = cell d (some a) c x y :=
  rbSetParent_cell d q (some a) c x y

end RbNode

/-! ## Trees in memory -/

/-- The nodes in memory. -/
abbrev RbHeap (w : Nat) := BitVec w → Option (RbNode w)

/-- A tree stands in memory below {lit}`q`. -/
def Stands (h : RbHeap w) (q : Option (NodePtr w)) : ColorTree (NodePtr w) → Prop
  | .nil => True
  | .node c l a r =>
      h a = some (cell .left q c l.root r.root) ∧ Stands h (some a) l ∧ Stands h (some a) r

/-- The path from a subtree with the root {lit}`hole` stands in memory, the whole of it below
{lit}`q`. -/
def PathStands (h : RbHeap w) (q : Option (NodePtr w)) :
    TreePath (NodePtr w) → Option (NodePtr w) → Prop
  | .top, _ => True
  | .under d c a sib up, hole =>
      h a = some (cell d (up.parent q) c hole sib.root) ∧ Stands h (some a) sib ∧
        PathStands h q up (some a)

/-- Nothing but the nodes at the addresses changes from one memory to the next. -/
def Frame (h h' : RbHeap w) (as : List (NodePtr w)) : Prop :=
  ∀ p, (∀ a ∈ as, p ≠ a.val) → h' p = h p

variable {h h' h'' : RbHeap w} {as bs : List (NodePtr w)} {q q' : Option (NodePtr w)}
  {d : Side} {c : Color} {t sib x y : ColorTree (NodePtr w)} {a : NodePtr w}
  {k : TreePath (NodePtr w)} {hole : Option (NodePtr w)}

/-- A branch stands when its node does and its subtrees stand below it. -/
theorem stands_branch_iff :
    Stands h q (branch d c x a y) ↔
      h a = some (cell d q c x.root y.root) ∧ Stands h (some a) x ∧ Stands h (some a) y := by
  cases d with
  | left => rfl
  | right => simp only [branch, Stands, cell, and_comm (a := Stands h (some a) y)]

theorem pathStands_under_iff :
    PathStands h q (under d c a sib k) hole ↔
      h a = some (cell d (k.parent q) c hole sib.root) ∧ Stands h (some a) sib ∧
        PathStands h q k (some a) := Iff.rfl

/-- A tree stands exactly when the path to a subtree does and the subtree stands at its
end. -/
theorem stands_plug_iff :
    Stands h q (k.plug t) ↔ PathStands h q k t.root ∧ Stands h (k.parent q) t := by
  induction k generalizing t with
  | top => simp [PathStands, parent]
  | under d c a sib up ih =>
      rw [plug_under, ih, pathStands_under_iff, stands_branch_iff, root_branch]
      simp only [parent]
      tauto

theorem Frame.refl (h : RbHeap w) : Frame h h as := fun _ _ => rfl

theorem Frame.trans (hf : Frame h h' as) (hf' : Frame h' h'' bs) : Frame h h'' (as ++ bs) := by
  intro p hp
  rw [hf' p fun a ha => hp a (by simp [ha]), hf p fun a ha => hp a (by simp [ha])]

theorem Frame.mono (hf : Frame h h' as) (hsub : ∀ a ∈ as, a ∈ bs) : Frame h h' bs :=
  fun p hp => hf p fun a ha => hp a (hsub a ha)

theorem Frame.heap_eq (hf : Frame h h' as) (ha : a ∉ as) : h' a = h a :=
  hf a fun _ hb heq => ha (NodePtr.ext heq ▸ hb)

/-- A tree none of whose nodes changes stays where it is. -/
theorem Stands.frame (hs : Stands h q t) (hf : Frame h h' as)
    (hdisj : ∀ b ∈ t.toList, b ∉ as) : Stands h' q t := by
  induction t generalizing q with
  | nil => trivial
  | node c l a r ihl ihr =>
      rcases hs with ⟨ha, hl, hr⟩
      refine ⟨?_, ihl hl fun b hb => hdisj b ?_, ihr hr fun b hb => hdisj b ?_⟩
      · rw [hf.heap_eq (hdisj a (by simp [toList])), ha]
      · simp [toList, hb]
      · simp [toList, hb]

/-- A path none of whose nodes changes stays where it is. -/
theorem PathStands.frame (hs : PathStands h q k hole) (hf : Frame h h' as)
    (hdisj : ∀ b ∈ k.elems, b ∉ as) : PathStands h' q k hole := by
  induction k generalizing hole with
  | top => trivial
  | under d c a sib up ih =>
      rcases hs with ⟨ha, hsib, hup⟩
      refine ⟨?_, hsib.frame hf fun b hb => hdisj b ?_, ih hup fun b hb => hdisj b ?_⟩
      · rw [hf.heap_eq (hdisj a (by simp)), ha]
      · simp [hb]
      · simp [hb]

/-! ## Writing nodes -/

namespace RbState

variable {s s' : RbState w} {r : RbNode w} {f : RbNode w → RbNode w} {p p' : BitVec w}

@[simp] theorem rbNode_put : (s.put p r).rbNode = s.rbNode := rfl

@[simp]
theorem heap_put_self : (s.put p r).heap p = some r := by
  simp [put]

theorem heap_put_of_ne (hne : p' ≠ p) : (s.put p r).heap p' = s.heap p' := by
  simp [put, hne]

@[simp]
theorem put_put (r' : RbNode w) : (s.put p r).put p r' = s.put p r' := by
  simp [put]

/-- A node that is in memory can be changed. -/
theorem update_eq (hr : s.heap p = some r) : s.update p f = some (s.put p (f r)) := by
  simp [update, hr]

theorem frame_put (s : RbState w) (a : NodePtr w) (r : RbNode w) :
    Frame s.heap (s.put a r).heap [a] :=
  fun _ hp => heap_put_of_ne (hp a (by simp))

/-- The root of a tree can be given another parent. -/
theorem setLinkParent_spec (ht : Stands s.heap q t) (hnodup : t.toList.Nodup)
    (q' : Option (NodePtr w)) :
    ∃ s', s.setLinkParent (ptr t.root) (ptr q') = some s' ∧ Stands s'.heap q' t ∧
      s'.rbNode = s.rbNode ∧ Frame s.heap s'.heap t.toList := by
  cases t with
  | nil => exact ⟨s, rfl, trivial, rfl, .refl _⟩
  | node c l a r =>
      rcases ht with ⟨ha, hl, hr⟩
      have hroot : ptr (root (.node c l a r)) = a.val := rfl
      have hframe := s.frame_put a (cell .left q' c l.root r.root)
      simp only [toList, List.nodup_append, List.nodup_cons, List.mem_cons] at hnodup
      refine ⟨s.put a (cell .left q' c l.root r.root), ?_, ⟨heap_put_self, ?_, ?_⟩, rfl, ?_⟩
      · rw [setLinkParent, hroot, if_neg a.ne_null, update_eq ha, RbNode.rbSetParent_cell]
      · exact hl.frame hframe (by grind)
      · exact hr.frame hframe (by grind)
      · exact fun p hp => heap_put_of_ne (hp a (by simp [toList]))

/-- A path stands on when its lowest node gets another link to the subtree. -/
theorem pathStands_put {d : Side} {c : Color} (hk : PathStands s.heap q (.under d c a sib k) hole)
    (hnodup : (TreePath.under d c a sib k).elems.Nodup) (hole' : Option (NodePtr w)) :
    PathStands (s.put a (cell d (k.parent q) c hole' sib.root)).heap q (.under d c a sib k)
      hole' := by
  rcases hk with ⟨ha, hsib, hup⟩
  rw [(elems_under_perm k d c a sib).nodup_iff, List.nodup_cons, List.nodup_append] at hnodup
  have hframe := s.frame_put a (cell d (k.parent q) c hole' sib.root)
  exact ⟨heap_put_self, hsib.frame hframe (by grind), hup.frame hframe (by grind)⟩

/-- The link to a subtree can be changed, whichever side of the parent is compared first. -/
theorem relink_spec (hk : PathStands s.heap none k (some a))
    (hroot : s.rbNode = ptr (k.rootOf (some a))) (hnodup : k.elems.Nodup) (ha : a ∉ k.elems)
    (d : Side) (hole : Option (NodePtr w)) :
    ∃ s', s.relink d (ptr (k.parent none)) a (ptr hole) = some s' ∧
      PathStands s'.heap none k hole ∧ s'.rbNode = ptr (k.rootOf hole) ∧
      Frame s.heap s'.heap k.elems := by
  cases k with
  | top =>
      exact ⟨{ s with rbNode := ptr hole }, by simp [relink, parent], trivial, rfl, .refl _⟩
  | under e c b sib up =>
      have hb := hk.1
      simp only [mem_elems_under, not_or] at ha
      refine ⟨s.put b (cell e (up.parent none) c hole sib.root), ?_, pathStands_put hk hnodup hole,
        hroot, fun p hp => heap_put_of_ne (hp b (by simp))⟩
      rw [relink, parent, ptr_some, if_neg b.ne_null]
      rcases d.eq_or_eq_other e with rfl | rfl
      · simp [hb, update_eq hb]
      · have hne : sib.root ≠ some a := fun heq => ha.2.1 (mem_toList_of_root a heq)
        simp [hb, update_eq hb, hne]

end RbState

end Xfsd
