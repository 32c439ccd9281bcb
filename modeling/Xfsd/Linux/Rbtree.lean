import Xfsd.Foundation.ColorTree
import Mathlib.Logic.Function.Basic

/-!
# XFSD - The functions of the red-black tree

The part of {lit}`rbtree.h` and {lit}`rbtree.c` that keeps the nodes of a tree in order.
A node stands in memory with the address of its parent and its colour packed into one
word.  An address is as wide as {lit}`unsigned long`, in either build.  The two halves of
a loop body that the source spells out for the left and for the right are one definition
with the side as an argument.

A function fails when it follows an address where no node is, and a loop also when it
takes more turns than it is given.

Main results:

- Definitions {lit}`rbInsertColor` and {lit}`rbErase`: the two operations that rebalance.
- Definitions {lit}`rbFirst`, {lit}`rbLast`, {lit}`rbNext` and {lit}`rbPrev`: the walks.
- Definition {lit}`rbReplaceNode`: one node takes the place of another.
-/

namespace Xfsd

open Foundation

variable {w : Nat}

/-! ## Nodes -/

/-- {lit}`struct rb_node`. -/
structure RbNode (w : Nat) where
  rbParentColor : BitVec w
  rbRight : BitVec w
  rbLeft : BitVec w
deriving DecidableEq, Repr

namespace RbNode

/-- {lit}`rb_parent`. -/
def rbParent (r : RbNode w) : BitVec w := r.rbParentColor &&& ~~~3#w

/-- {lit}`rb_color`. -/
def rbColor (r : RbNode w) : BitVec w := r.rbParentColor &&& 1#w

/-- {lit}`rb_is_red`. -/
def rbIsRed (r : RbNode w) : Bool := r.rbColor == 0#w

/-- {lit}`rb_is_black`. -/
def rbIsBlack (r : RbNode w) : Bool := r.rbColor != 0#w

/-- {lit}`rb_set_red`. -/
def rbSetRed (r : RbNode w) : RbNode w :=
  { r with rbParentColor := r.rbParentColor &&& ~~~1#w }

/-- {lit}`rb_set_black`. -/
def rbSetBlack (r : RbNode w) : RbNode w :=
  { r with rbParentColor := r.rbParentColor ||| 1#w }

/-- {lit}`rb_set_parent`. -/
def rbSetParent (rb : RbNode w) (p : BitVec w) : RbNode w :=
  { rb with rbParentColor := (rb.rbParentColor &&& 3#w) ||| p }

/-- {lit}`rb_set_color`. -/
def rbSetColor (rb : RbNode w) (color : BitVec w) : RbNode w :=
  { rb with rbParentColor := (rb.rbParentColor &&& ~~~1#w) ||| color }

/-- {lit}`rb_left` or {lit}`rb_right`. -/
def child (r : RbNode w) : Side → BitVec w
  | .left => r.rbLeft
  | .right => r.rbRight

/-- Assign {lit}`rb_left` or {lit}`rb_right`. -/
def setChild (r : RbNode w) (d : Side) (p : BitVec w) : RbNode w :=
  match d with
  | .left => { r with rbLeft := p }
  | .right => { r with rbRight := p }

end RbNode

/-! ## Memory -/

/-- The nodes in memory and {lit}`root->rb_node`. -/
structure RbState (w : Nat) where
  heap : BitVec w → Option (RbNode w)
  rbNode : BitVec w

namespace RbState

/-- Write a node. -/
def put (s : RbState w) (a : BitVec w) (r : RbNode w) : RbState w :=
  { s with heap := Function.update s.heap a (some r) }

/-- Change a node that is in memory. -/
def update (s : RbState w) (a : BitVec w) (f : RbNode w → RbNode w) : Option (RbState w) :=
  (s.heap a).map fun r => s.put a (f r)

/-- {lit}`p && rb_is_red(p)`. -/
def linkIsRed (s : RbState w) (p : BitVec w) : Option Bool :=
  if p = 0#w then some false else (s.heap p).map RbNode.rbIsRed

/-- {lit}`!p || rb_is_black(p)`. -/
def linkIsBlack (s : RbState w) (p : BitVec w) : Option Bool :=
  if p = 0#w then some true else (s.heap p).map RbNode.rbIsBlack

/-- {lit}`(!o->rb_left || rb_is_black(o->rb_left))`, and the same of {lit}`o->rb_right`. -/
def childrenAreBlack (s : RbState w) (o : RbNode w) : Option Bool := do
  if ← s.linkIsBlack o.rbLeft then s.linkIsBlack o.rbRight else some false

/-- {lit}`if (p) rb_set_parent(p, parent)`. -/
def setLinkParent (s : RbState w) (p parent : BitVec w) : Option (RbState w) :=
  if p = 0#w then some s else s.update p (·.rbSetParent parent)

/-- Make the link that leads to {lit}`old`, in its parent or in the root, lead to
{lit}`new`.  The side {lit}`d` of the parent is compared; the link on the other side is
assigned when it differs. -/
def relink (d : Side) (parent old new : BitVec w) (s : RbState w) : Option (RbState w) :=
  if parent = 0#w then some { s with rbNode := new }
  else do
    let p ← s.heap parent
    if p.child d = old then s.update parent (·.setChild d new)
    else s.update parent (·.setChild d.other new)

end RbState

/-! ## Rotations -/

/-- The rotation that puts {lit}`node` on the side {lit}`d` of its child on the other
side. -/
def rbRotate (d : Side) (node : BitVec w) (s : RbState w) : Option (RbState w) := do
  let n ← s.heap node
  let right := n.child d.other
  let parent := n.rbParent
  let r ← s.heap right
  let s ← s.update node (·.setChild d.other (r.child d))
  let s ←
    (if r.child d = 0#w then some s
     else do
       let r ← s.heap right
       s.update (r.child d) (·.rbSetParent node))
  let s ← s.update right (·.setChild d node)
  let s ← s.update right (·.rbSetParent parent)
  let s ← s.relink d parent node right
  s.update node (·.rbSetParent right)

/-- {lit}`__rb_rotate_left`. -/
def rbRotateLeft (node : BitVec w) (s : RbState w) : Option (RbState w) :=
  rbRotate .left node s

/-- {lit}`__rb_rotate_right`. -/
def rbRotateRight (node : BitVec w) (s : RbState w) : Option (RbState w) :=
  rbRotate .right node s

/-! ## Insertion -/

/-- Where a new node is linked: {lit}`&root->rb_node`, or a child link of a node. -/
inductive RbLink (w : Nat) where
  | root
  | child (parent : BitVec w) (d : Side)
deriving DecidableEq, Repr

/-- {lit}`rb_link_node`. -/
def rbLinkNode (node parent : BitVec w) (rbLink : RbLink w) (s : RbState w) :
    Option (RbState w) := do
  let s ← s.update node fun _ => ⟨parent, 0#w, 0#w⟩
  match rbLink with
  | .root => some { s with rbNode := node }
  | .child p d => s.update p (·.setChild d node)

/-- One turn of the loop of {lit}`rb_insert_color` when {lit}`parent` is the child of
{lit}`gparent` on the side {lit}`d`: the node to go on from. -/
def rbInsertTurn (d : Side) (node parent gparent : BitVec w) (s : RbState w) :
    Option (BitVec w × RbState w) := do
  let g ← s.heap gparent
  let uncle := g.child d.other
  if ← s.linkIsRed uncle then
    let s ← s.update uncle RbNode.rbSetBlack
    let s ← s.update parent RbNode.rbSetBlack
    let s ← s.update gparent RbNode.rbSetRed
    some (gparent, s)
  else
    let p ← s.heap parent
    let (node, parent, s) ←
      (if p.child d.other = node then do
         let s ← rbRotate d parent s
         some (parent, node, s)
       else some (node, parent, s))
    let s ← s.update parent RbNode.rbSetBlack
    let s ← s.update gparent RbNode.rbSetRed
    let s ← rbRotate d.other gparent s
    some (node, s)

/-- The loop of {lit}`rb_insert_color`. -/
def rbInsertLoop : Nat → BitVec w → RbState w → Option (RbState w)
  | 0, _, _ => none
  | fuel + 1, node, s => do
    let n ← s.heap node
    let parent := n.rbParent
    if parent = 0#w then some s
    else
      let p ← s.heap parent
      if !p.rbIsRed then some s
      else
        let gparent := p.rbParent
        let g ← s.heap gparent
        let (node, s) ←
          (if g.rbLeft = parent then rbInsertTurn .left node parent gparent s
           else rbInsertTurn .right node parent gparent s)
        rbInsertLoop fuel node s

/-- {lit}`rb_insert_color`. -/
def rbInsertColor (fuel : Nat) (node : BitVec w) (s : RbState w) : Option (RbState w) := do
  let s ← rbInsertLoop fuel node s
  s.update s.rbNode RbNode.rbSetBlack

/-! ## Erasure -/

/-- The end of a turn of {lit}`__rb_erase_color` that leaves the loop: {lit}`other` takes the
place and the colour of {lit}`parent`. -/
def rbEraseBorrow (d : Side) (parent other : BitVec w) (s : RbState w) :
    Option (RbState w) := do
  let p ← s.heap parent
  let s ← s.update other (·.rbSetColor p.rbColor)
  let s ← s.update parent RbNode.rbSetBlack
  let o ← s.heap other
  let s ← s.update (o.child d.other) RbNode.rbSetBlack
  rbRotate d parent s

/-- A turn of {lit}`__rb_erase_color` once {lit}`other` is black: the node to go on from and
its parent, or nothing more to go on from when the loop is left. -/
def rbEraseBlack (d : Side) (parent other : BitVec w) (s : RbState w) :
    Option (Option (BitVec w × BitVec w) × RbState w) := do
  let o ← s.heap other
  if ← s.childrenAreBlack o then
    let s ← s.update other RbNode.rbSetRed
    let p ← s.heap parent
    some (some (parent, p.rbParent), s)
  else if ← s.linkIsBlack (o.child d.other) then
    let s ← s.update (o.child d) RbNode.rbSetBlack
    let s ← s.update other RbNode.rbSetRed
    let s ← rbRotate d.other other s
    let p ← s.heap parent
    let s ← rbEraseBorrow d parent (p.child d.other) s
    some (none, s)
  else
    let s ← rbEraseBorrow d parent other s
    some (none, s)

/-- One turn of the loop of {lit}`__rb_erase_color` when {lit}`node` is the child of
{lit}`parent` on the side {lit}`d`. -/
def rbEraseTurn (d : Side) (parent : BitVec w) (s : RbState w) :
    Option (Option (BitVec w × BitVec w) × RbState w) := do
  let p ← s.heap parent
  let other := p.child d.other
  let o ← s.heap other
  if o.rbIsRed then
    let s ← s.update other RbNode.rbSetBlack
    let s ← s.update parent RbNode.rbSetRed
    let s ← rbRotate d parent s
    let p ← s.heap parent
    rbEraseBlack d parent (p.child d.other) s
  else rbEraseBlack d parent other s

/-- The loop of {lit}`__rb_erase_color`: the node it ends at. -/
def rbEraseLoop : Nat → BitVec w → BitVec w → RbState w → Option (BitVec w × RbState w)
  | 0, _, _, _ => none
  | fuel + 1, node, parent, s => do
    if (← s.linkIsBlack node) && node != s.rbNode then
      let p ← s.heap parent
      let (next, s) ←
        (if p.rbLeft = node then rbEraseTurn .left parent s
         else rbEraseTurn .right parent s)
      match next with
      | some (node, parent) => rbEraseLoop fuel node parent s
      | none => some (s.rbNode, s)
    else some (node, s)

/-- {lit}`__rb_erase_color`. -/
def rbEraseColor (fuel : Nat) (node parent : BitVec w) (s : RbState w) :
    Option (RbState w) := do
  let (node, s) ← rbEraseLoop fuel node parent s
  if node = 0#w then some s else s.update node RbNode.rbSetBlack

/-- Follow the links on one side as far as they lead:
{lit}`while (node->rb_left) node = node->rb_left`, or the same to the right. -/
def rbDescend (d : Side) : Nat → BitVec w → RbState w → Option (BitVec w)
  | 0, _, _ => none
  | fuel + 1, node, s => do
    let n ← s.heap node
    if n.child d = 0#w then some node else rbDescend d fuel (n.child d) s

/-- {lit}`rb_erase` of a node without a child on one side: {lit}`child` takes its place. -/
def rbEraseSplice (fuel : Nat) (node child : BitVec w) (s : RbState w) :
    Option (RbState w) := do
  let n ← s.heap node
  let parent := n.rbParent
  let color := n.rbColor
  let s ← s.setLinkParent child parent
  let s ← s.relink .left parent node child
  if color = 1#w then rbEraseColor fuel child parent s else some s

/-- The part of {lit}`rb_erase` that takes {lit}`node` from its place below {lit}`old`, where
{lit}`child` replaces it: the parent of that place afterwards. -/
def rbEraseDetach (old node child parent : BitVec w) (s : RbState w) :
    Option (BitVec w × RbState w) :=
  if parent = old then some (node, s)
  else do
    let s ← s.setLinkParent child parent
    let s ← s.update parent (·.setChild .left child)
    let o ← s.heap old
    let s ← s.update node (·.setChild .right o.rbRight)
    let o ← s.heap old
    let s ← s.update o.rbRight (·.rbSetParent node)
    some (parent, s)

/-- {lit}`rb_erase` of a node with two children: the next node takes its place. -/
def rbEraseSwap (fuel : Nat) (old : BitVec w) (s : RbState w) : Option (RbState w) := do
  let o ← s.heap old
  let node ← rbDescend .left fuel o.rbRight s
  let s ← s.relink .left o.rbParent old node
  let n ← s.heap node
  let child := n.rbRight
  let color := n.rbColor
  let (parent, s) ← rbEraseDetach old node child n.rbParent s
  let o ← s.heap old
  let s ← s.update node fun n => { n with rbParentColor := o.rbParentColor }
  let o ← s.heap old
  let s ← s.update node (·.setChild .left o.rbLeft)
  let o ← s.heap old
  let s ← s.update o.rbLeft (·.rbSetParent node)
  if color = 1#w then rbEraseColor fuel child parent s else some s

/-- {lit}`rb_erase`. -/
def rbErase (fuel : Nat) (node : BitVec w) (s : RbState w) : Option (RbState w) := do
  let n ← s.heap node
  if n.rbLeft = 0#w then rbEraseSplice fuel node n.rbRight s
  else if n.rbRight = 0#w then rbEraseSplice fuel node n.rbLeft s
  else rbEraseSwap fuel node s

/-! ## Walks -/

/-- The last node on one side of the whole tree. -/
def rbEnd (d : Side) (fuel : Nat) (s : RbState w) : Option (BitVec w) :=
  if s.rbNode = 0#w then some 0#w else rbDescend d fuel s.rbNode s

/-- {lit}`rb_first`. -/
def rbFirst (fuel : Nat) (s : RbState w) : Option (BitVec w) := rbEnd .left fuel s

/-- {lit}`rb_last`. -/
def rbLast (fuel : Nat) (s : RbState w) : Option (BitVec w) := rbEnd .right fuel s

/-- Go up as long as the way comes from the side {lit}`d`. -/
def rbAscend (d : Side) : Nat → BitVec w → RbState w → Option (BitVec w)
  | 0, _, _ => none
  | fuel + 1, node, s => do
    let n ← s.heap node
    let parent := n.rbParent
    if parent = 0#w then some parent
    else
      let p ← s.heap parent
      if p.child d = node then rbAscend d fuel parent s else some parent

/-- The neighbour of a node on the side {lit}`d`. -/
def rbNeighbour (d : Side) (fuel : Nat) (node : BitVec w) (s : RbState w) :
    Option (BitVec w) := do
  let n ← s.heap node
  if n.rbParent = node then some 0#w
  else if n.child d ≠ 0#w then rbDescend d.other fuel (n.child d) s
  else rbAscend d fuel node s

/-- {lit}`rb_next`. -/
def rbNext (fuel : Nat) (node : BitVec w) (s : RbState w) : Option (BitVec w) :=
  rbNeighbour .right fuel node s

/-- {lit}`rb_prev`. -/
def rbPrev (fuel : Nat) (node : BitVec w) (s : RbState w) : Option (BitVec w) :=
  rbNeighbour .left fuel node s

/-! ## Replacement -/

/-- {lit}`rb_replace_node`. -/
def rbReplaceNode (victim new : BitVec w) (s : RbState w) : Option (RbState w) := do
  let v ← s.heap victim
  let s ← s.relink .left v.rbParent victim new
  let v ← s.heap victim
  let s ← s.setLinkParent v.rbLeft new
  let v ← s.heap victim
  let s ← s.setLinkParent v.rbRight new
  let v ← s.heap victim
  s.update new fun _ => v

end Xfsd
