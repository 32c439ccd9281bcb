import Xfsd.Linux.RbtreeInsert
import Xfsd.Linux.RbtreeWalk

/-!
# XFSD - Runs of the red-black tree

What the tree is for: it keeps a sequence of nodes.  A new node goes beside a node whose
link on that side is empty, and nodes are taken out or exchanged.  Every run of these
calls from an empty tree keeps the sequence, and no loop takes more turns than twice the
logarithm of the number of nodes.

Main results:

- Theorem {lit}`RbOp.Allowed.achieves`: a call that is allowed returns and does to the sequence what
  it is for.
- Theorem {lit}`rbRun_represents`: so does every run of such calls.
- Theorem {lit}`rbWalk_represents`: the walks follow the sequence.
-/

namespace Xfsd

open Foundation ColorTree TreePath

variable {w : Nat} {h₀ : RbHeap w} {s s' : RbState w} {d : Side} {a b p : NodePtr w}
  {xs ys : List (NodePtr w)} {t : ColorTree (NodePtr w)} {fuel : Nat}

/-- The nodes below {lit}`root->rb_node` form a red-black tree and are in this order. -/
def Represents (s : RbState w) (xs : List (NodePtr w)) : Prop :=
  ∃ t, Holds s.heap s t ∧ RedBlack t ∧ t.toList = xs

/-- More turns than any loop takes in a tree of so many nodes. -/
def rbTurns (n : Nat) : Nat := 2 * Nat.log 2 (n + 1) + 1

theorem rbTurns_mono {m n : Nat} (h : m ≤ n) : rbTurns m ≤ rbTurns n := by
  have hlog : Nat.log 2 (m + 1) ≤ Nat.log 2 (n + 1) := Nat.log_mono_right (by omega)
  unfold rbTurns
  omega

theorem height_lt_rbTurns (h : RedBlack t) : t.height < rbTurns t.toList.length := by
  have hheight := h.height_le
  unfold rbTurns
  omega

theorem Holds.represents (hs : Holds h₀ s t) (hrb : RedBlack t) : Represents s t.toList :=
  ⟨t, ⟨hs.nodup, hs.stands, hs.root, fun _ _ => rfl⟩, hrb, rfl⟩

theorem Represents.nodup (h : Represents s xs) : xs.Nodup := by
  obtain ⟨t, hs, -, rfl⟩ := h
  exact hs.nodup

/-- An empty root has no nodes. -/
theorem represents_nil (h : s.rbNode = 0#w) : Represents s [] :=
  ⟨.nil, ⟨List.nodup_nil, trivial, h, fun _ _ => rfl⟩, redBlack_nil, rfl⟩

/-! ## Calls -/

/-- Put a new element beside another one. -/
def putBeside (d : Side) (p a : NodePtr w) : List (NodePtr w) → List (NodePtr w)
  | [] => []
  | x :: xs =>
      if x = p then
        match d with
        | .left => a :: x :: xs
        | .right => x :: a :: xs
      else x :: putBeside d p a xs

theorem putBeside_append (h : p ∉ xs) :
    putBeside d p a (xs ++ p :: ys) =
      match d with
      | .left => xs ++ a :: p :: ys
      | .right => xs ++ p :: a :: ys := by
  induction xs with
  | nil => cases d <;> simp [putBeside]
  | cons x xs ih =>
      rw [List.mem_cons, not_or] at h
      have hx : x ≠ p := fun heq => h.1 heq.symm
      cases d <;> simp [putBeside, hx, ih h.2]

theorem map_replace_append (hxs : a ∉ xs) (hys : a ∉ ys) :
    (xs ++ a :: ys).map (fun x => if x = a then b else x) = xs ++ b :: ys := by
  have hsame : ∀ zs : List (NodePtr w), a ∉ zs →
      zs.map (fun x => if x = a then b else x) = zs := by
    intro zs hzs
    induction zs with
    | nil => rfl
    | cons z zs ih =>
        rw [List.mem_cons, not_or] at hzs
        have hz : z ≠ a := fun heq => hzs.1 heq.symm
        simp [hz, ih hzs.2]
  simp [hsame xs hxs, hsame ys hys]

/-- The calls that change a tree. -/
inductive RbOp (w : Nat) where
  | insertRoot (a : NodePtr w)
  | insertBeside (a p : NodePtr w) (d : Side)
  | erase (a : NodePtr w)
  | replace (a b : NodePtr w)

namespace RbOp

/-- What a caller does: a new node is linked at an empty link and coloured. -/
def run (fuel : Nat) : RbOp w → RbState w → Option (RbState w)
  | insertRoot a, s => do
      let s ← rbLinkNode a 0#w .root s
      rbInsertColor fuel a s
  | insertBeside a p d, s => do
      let s ← rbLinkNode a p (.child p d) s
      rbInsertColor fuel a s
  | erase a, s => rbErase fuel a s
  | replace a b, s => rbReplaceNode a b s

/-- What a call is for. -/
def apply : RbOp w → List (NodePtr w) → List (NodePtr w)
  | insertRoot a, _ => [a]
  | insertBeside a p d, xs => putBeside d p a xs
  | erase a, xs => xs.erase a
  | replace a b, xs => xs.map fun x => if x = a then b else x

/-- The node a call brings into the tree. -/
def fresh : RbOp w → List (NodePtr w)
  | insertRoot a => [a]
  | insertBeside a _ _ => [a]
  | erase _ => []
  | replace _ b => [b]

/-- A caller links a new node of its own where {lit}`*rb_link` is {lit}`NULL`, and erases or
replaces nodes of the tree. -/
def Allowed (s : RbState w) (xs : List (NodePtr w)) : RbOp w → Prop
  | insertRoot a => s.rbNode = 0#w ∧ (s.heap a).isSome
  | insertBeside a p d =>
      p ∈ xs ∧ (s.heap p).map (·.child d) = some 0#w ∧ a ∉ xs ∧ (s.heap a).isSome
  | erase a => a ∈ xs
  | replace a b => a ∈ xs ∧ b ∉ xs ∧ (s.heap b).isSome

instance (s : RbState w) (xs : List (NodePtr w)) : DecidablePred (Allowed s xs)
  | insertRoot _ => inferInstanceAs (Decidable (_ ∧ _))
  | insertBeside _ _ _ => inferInstanceAs (Decidable (_ ∧ _ ∧ _ ∧ _))
  | erase _ => inferInstanceAs (Decidable (_ ∈ _))
  | replace _ _ => inferInstanceAs (Decidable (_ ∧ _ ∧ _))

theorem length_putBeside_le (d : Side) (p a : NodePtr w) (xs : List (NodePtr w)) :
    (putBeside d p a xs).length ≤ xs.length + 1 := by
  induction xs with
  | nil => simp [putBeside]
  | cons x xs ih => cases d <;> rw [putBeside] <;> split <;> simp [ih]

theorem mem_putBeside {d : Side} {p a x : NodePtr w} {xs : List (NodePtr w)}
    (h : x ∈ putBeside d p a xs) : x ∈ xs ∨ x = a := by
  induction xs with
  | nil => cases h
  | cons y ys ih =>
      cases d <;> rw [putBeside] at h <;> split at h <;> simp only [List.mem_cons] at h ⊢ <;> grind

/-- No node but the fresh one comes in. -/
theorem mem_of_mem_apply (op : RbOp w) {xs : List (NodePtr w)} {x : NodePtr w}
    (h : x ∈ op.apply xs) : x ∈ xs ∨ x ∈ op.fresh := by
  cases op with
  | insertRoot a => exact .inr h
  | insertBeside a p d => simpa [fresh] using mem_putBeside h
  | erase a => exact .inl (List.mem_of_mem_erase h)
  | replace a b =>
      obtain ⟨y, hy, hx⟩ := List.mem_map.mp h
      split at hx
      · exact .inr (by simp [fresh, hx])
      · exact .inl (hx ▸ hy)

/-- A call brings in one node at most. -/
theorem length_apply_le (op : RbOp w) (xs : List (NodePtr w)) :
    (op.apply xs).length ≤ xs.length + 1 := by
  cases op with
  | insertRoot a => simp [apply]
  | insertBeside a p d => exact length_putBeside_le d p a xs
  | erase a => exact Nat.le_succ_of_le List.length_erase_le
  | replace a b => simp [apply]

end RbOp

/-! ## One call -/

/-- What a call that is allowed achieves: it returns, the sequence is what the call is for, and
memory outside the tree is left alone. -/
def Achieves (op : RbOp w) (fuel : Nat) (s : RbState w) (xs : List (NodePtr w)) : Prop :=
  ∃ s', op.run fuel s = some s' ∧ Represents s' (op.apply xs) ∧
    Frame s.heap s'.heap (xs ++ op.fresh)

theorem replace_achieves (hs : Represents s xs) (ha : a ∈ xs) (hb : b ∉ xs)
    (hmem : (s.heap b).isSome) : Achieves (.replace a b) fuel s xs := by
  obtain ⟨t, ht, hrb, rfl⟩ := hs
  obtain ⟨k, c, l, r, rfl⟩ := exists_plug_of_mem ha
  obtain ⟨v, hv⟩ := Option.isSome_iff_exists.mp hmem
  obtain ⟨s', v', hs', h'⟩ := rbReplaceNode_spec ht hb hv
  have hsplit : ∀ x : NodePtr w, (k.plug (node c l x r)).toList =
      (k.before ++ l.toList) ++ x :: (r.toList ++ k.after) := by
    intro x
    simp [toList_plug, toList]
  have hnodup := ht.nodup
  rw [hsplit, List.nodup_append, List.nodup_cons] at hnodup
  have hbefore : a ∉ k.before ++ l.toList := fun h => hnodup.2.2 a h a (by simp) rfl
  refine ⟨s', hs', ?_, fun q hq => ?_⟩
  · rw [RbOp.apply, hsplit, map_replace_append hbefore hnodup.2.1.1, ← hsplit]
    exact h'.represents (hrb.relabel b)
  · rw [h'.frame q fun x hx => hq x ?_, Function.update_of_ne (hq a (by simp [toList]))]
    rw [hsplit] at hx ⊢
    simp only [RbOp.fresh, List.mem_append, List.mem_cons] at hx ⊢
    grind

section Calls

variable [NeZero w]

/-- Linking at the end of a path and colouring inserts between what stands before and after. -/
theorem insert_achieves {k : TreePath (NodePtr w)} (hs : Holds s.heap s (k.plug .nil))
    (hrb : RedBlack (k.plug .nil)) (ha : a ∉ k.elems) (hmem : (s.heap a).isSome)
    (hfuel : k.length < fuel) :
    ∃ s', (do
        let s ← rbLinkNode a (ptr (k.parent none)) (linkAt k) s
        rbInsertColor fuel a s) = some s' ∧
      Represents s' (k.before ++ a :: k.after) ∧ Frame s.heap s'.heap (k.elems ++ [a]) := by
  obtain ⟨r, hr⟩ := Option.isSome_iff_exists.mp hmem
  obtain ⟨s₁, hs₁, h₁⟩ := rbLinkNode_spec hs ha hr
  obtain ⟨s', t', hs', h', hrb', hlist⟩ := rbInsertColor_spec h₁ hrb fuel hfuel
  refine ⟨s', by simp [hs₁, hs'], hlist ▸ h'.represents hrb', fun q hq => h'.frame q ?_⟩
  intro b hb
  rw [hlist] at hb
  refine hq b ?_
  simp only [TreePath.elems, List.mem_append, List.mem_cons] at hb ⊢
  grind

theorem insertRoot_achieves (hs : Represents s xs) (hroot : s.rbNode = 0#w)
    (hmem : (s.heap a).isSome) (hfuel : rbTurns xs.length ≤ fuel) :
    Achieves (.insertRoot a) fuel s xs := by
  obtain ⟨t, ht, -, rfl⟩ := hs
  obtain rfl : t = .nil := by
    rw [ht.root, ptr_eq_zero_iff, root_eq_none_iff] at hroot
    exact hroot
  exact insert_achieves (k := .top) ht redBlack_nil (by simp) hmem hfuel

theorem insertBeside_achieves (hs : Represents s xs) (hp : p ∈ xs)
    (hlink : (s.heap p).map (·.child d) = some 0#w) (ha : a ∉ xs) (hmem : (s.heap a).isSome)
    (hfuel : rbTurns xs.length ≤ fuel) : Achieves (.insertBeside a p d) fuel s xs := by
  obtain ⟨t, ht, hrb, rfl⟩ := hs
  have hheight := height_lt_rbTurns hrb
  obtain ⟨k, c, l, r, rfl⟩ := exists_plug_of_mem hp
  obtain ⟨c', x, b, y, hbranch⟩ := exists_branch d (t := node c l p r) (by simp)
  obtain rfl : p = b := Option.some.inj (by rw [← root_branch d c' x y b, ← hbranch]; rfl)
  rw [hbranch] at ht hrb ha hheight hfuel ⊢
  obtain rfl : x = .nil := by
    rw [ht.heap_branch] at hlink
    simpa [root_eq_none_iff] using hlink
  have hnodup := ht.nodup
  rw [nodup_plug_iff, List.nodup_append, (toList_branch_perm d c' .nil y p).nodup_iff,
    List.nodup_cons] at hnodup
  have hlong : (TreePath.under d c' p y k).length < fuel := by
    have hle := length_le_height (.under d c' p y k) .nil
    rw [plug_under] at hle
    omega
  simp only [mem_toList_plug, mem_toList_branch, not_or] at ha
  obtain ⟨s', hs', hrep, hf⟩ := insert_achieves (k := .under d c' p y k) ht hrb
    (by simp only [mem_elems_under]; grind) hmem hlong
  refine ⟨s', hs', ?_, hf.mono fun q hq => ?_⟩
  · have hbefore : p ∉ k.before := fun h =>
      hnodup.2.2 p (by simp) p (List.mem_append_left _ h) rfl
    have hy : p ∉ y.toList := by simpa using hnodup.1.1
    rw [RbOp.apply, toList_plug]
    cases d with
    | left =>
        rw [branch, toList, toList_nil, List.nil_append, List.append_assoc, List.cons_append,
          putBeside_append hbefore]
        exact hrep
    | right =>
        rw [branch, toList, toList_nil, ← List.append_assoc, List.append_assoc, List.cons_append,
          putBeside_append (by simp [hbefore, hy])]
        simpa [before, after] using hrep
  · simp only [RbOp.fresh, mem_elems_under, List.mem_append, mem_toList_plug,
      mem_toList_branch] at hq ⊢
    grind

theorem erase_achieves (hs : Represents s xs) (ha : a ∈ xs) (hfuel : rbTurns xs.length ≤ fuel) :
    Achieves (.erase a) fuel s xs := by
  obtain ⟨t, ht, hrb, rfl⟩ := hs
  have hheight := height_lt_rbTurns hrb
  obtain ⟨s', t', r, hs', h', hrb', hlist⟩ :=
    rbErase_spec ht hrb ha (hheight.trans_le hfuel).le
  refine ⟨s', hs', ?_, fun q hq => ?_⟩
  · rw [RbOp.apply, ← hlist]
    exact h'.represents hrb'
  rw [h'.frame q fun b hb => hq b ?_, Function.update_of_ne (hq a (by simp [ha]))]
  rw [hlist] at hb
  exact List.mem_append_left _ (List.mem_of_mem_erase hb)

/-- A call that is allowed returns and does to the sequence what it is for. -/
theorem RbOp.Allowed.achieves {op : RbOp w} (hop : op.Allowed s xs) (hs : Represents s xs)
    (hfuel : rbTurns xs.length ≤ fuel) : Achieves op fuel s xs := by
  cases op with
  | insertRoot a => exact insertRoot_achieves hs hop.1 hop.2 hfuel
  | insertBeside a p d => exact insertBeside_achieves hs hop.1 hop.2.1 hop.2.2.1 hop.2.2.2 hfuel
  | erase a => exact erase_achieves hs hop hfuel
  | replace a b => exact replace_achieves hs hop.1 hop.2.1 hop.2.2

/-! ## Runs -/

/-- One call after another. -/
def rbRun (fuel : Nat) : List (RbOp w) → RbState w → Option (RbState w)
  | [], s => some s
  | op :: ops, s => do
      let s ← op.run fuel s
      rbRun fuel ops s

/-- What a run of calls is for. -/
def rbApply (ops : List (RbOp w)) (xs : List (NodePtr w)) : List (NodePtr w) :=
  ops.foldl (fun xs op => op.apply xs) xs

/-- Every call of a run is allowed in the state it is made in. -/
def RunAllowed (fuel : Nat) : List (RbOp w) → RbState w → List (NodePtr w) → Prop
  | [], _, _ => True
  | op :: ops, s, xs =>
      op.Allowed s xs ∧ ∀ s' ∈ op.run fuel s, RunAllowed fuel ops s' (op.apply xs)

instance (fuel : Nat) : (ops : List (RbOp w)) → (s : RbState w) → (xs : List (NodePtr w)) →
    Decidable (RunAllowed fuel ops s xs)
  | [], _, _ => isTrue trivial
  | op :: ops, s, xs =>
      match hrun : op.run fuel s with
      | none => decidable_of_iff (op.Allowed s xs) (by simp [RunAllowed, hrun])
      | some s' =>
          have := instDecidableRunAllowed fuel ops s' (op.apply xs)
          decidable_of_iff (op.Allowed s xs ∧ RunAllowed fuel ops s' (op.apply xs))
            (by simp [RunAllowed, hrun])

/-- Every run of calls that are allowed returns and does to the sequence what it is for, and
leaves all memory alone that is not a node of the tree at some time. -/
theorem rbRun_represents (ops : List (RbOp w)) (hs : Represents s xs)
    (hops : RunAllowed fuel ops s xs) (hfuel : rbTurns (xs.length + ops.length) ≤ fuel) :
    ∃ s', rbRun fuel ops s = some s' ∧ Represents s' (rbApply ops xs) ∧
      Frame s.heap s'.heap (xs ++ ops.flatMap RbOp.fresh) := by
  induction ops generalizing s xs with
  | nil => exact ⟨s, rfl, hs, .refl _⟩
  | cons op ops ih =>
      obtain ⟨hop, hnext⟩ := hops
      have hone := rbTurns_mono (Nat.le_add_right xs.length (op :: ops).length)
      obtain ⟨s₁, hs₁, h₁, hf₁⟩ := hop.achieves hs (hone.trans hfuel)
      have hlength := op.length_apply_le xs
      have hturns : rbTurns ((op.apply xs).length + ops.length) ≤ fuel :=
        (rbTurns_mono (by simp only [List.length_cons]; omega)).trans hfuel
      obtain ⟨s', hs', h', hf'⟩ := ih h₁ (hnext s₁ hs₁) hturns
      refine ⟨s', by simp [rbRun, hs₁, hs'], h', (hf₁.trans hf').mono fun a ha => ?_⟩
      have hmem := fun h : a ∈ op.apply xs => op.mem_of_mem_apply h
      simp only [List.mem_append, List.flatMap_cons] at ha ⊢
      grind

section Example

/-- Three nodes in memory. -/
def threeNodes : RbState 64 where
  heap p := if p = 8 ∨ p = 16 ∨ p = 24 then some ⟨0, 0, 0⟩ else none
  rbNode := 0

/-- A node at a given address. -/
def nodeAt (p : BitVec 64) (h : p ≠ 0#64 ∧ p &&& 3#64 = 0#64) : NodePtr 64 := ⟨p, h.1, h.2⟩

/-- Two nodes are linked to the right of a first one, which rotates; the new root is erased. -/
def threeOps : List (RbOp 64) :=
  [.insertRoot (nodeAt 8 (by decide)),
    .insertBeside (nodeAt 16 (by decide)) (nodeAt 8 (by decide)) .right,
    .insertBeside (nodeAt 24 (by decide)) (nodeAt 16 (by decide)) .right,
    .erase (nodeAt 16 (by decide))]

theorem rbRun_represents_three :
    ∃ s', rbRun 5 threeOps threeNodes = some s' ∧
      Represents s' [nodeAt 8 (by decide), nodeAt 24 (by decide)] ∧
      Frame threeNodes.heap s'.heap ([] ++ threeOps.flatMap RbOp.fresh) :=
  rbRun_represents threeOps (represents_nil rfl) (by decide +kernel) (by decide +kernel)

end Example

end Calls

/-! ## Walks -/

/-- From the first node on, each call of {lit}`rb_next` leads to the next node of the sequence,
and from the last node on each call of {lit}`rb_prev` to the one before. -/
theorem rbWalk_represents (hs : Represents s xs) (hfuel : rbTurns xs.length ≤ fuel) :
    rbFirst fuel s = some (ptr xs.head?) ∧ rbLast fuel s = some (ptr xs.getLast?) ∧
      ∀ before a after, xs = before ++ a :: after →
        rbNext fuel a.val s = some (ptr after.head?) ∧
          rbPrev fuel a.val s = some (ptr before.getLast?) := by
  obtain ⟨t, ht, hrb, rfl⟩ := hs
  have hheight := height_lt_rbTurns hrb
  refine ⟨rbFirst_spec ht (by omega), rbLast_spec ht (by omega), fun before a after hlist => ?_⟩
  exact ⟨rbNext_spec ht hlist (by omega), rbPrev_spec ht hlist (by omega)⟩

/-- A black root with two red children in memory. -/
def twoChildren : RbState 64 where
  heap p :=
    if p = 8 then some ⟨16, 0, 0⟩
    else if p = 16 then some ⟨1, 24, 8⟩
    else if p = 24 then some ⟨16, 0, 0⟩
    else none
  rbNode := 16

theorem rbWalk_represents_three :
    rbFirst 5 twoChildren = some 8 ∧ rbLast 5 twoChildren = some 24 ∧
      ∀ before a after,
        [nodeAt 8 (by decide), nodeAt 16 (by decide), nodeAt 24 (by decide)] =
            before ++ a :: after →
          rbNext 5 a.val twoChildren = some (ptr after.head?) ∧
            rbPrev 5 a.val twoChildren = some (ptr before.getLast?) := by
  have hstands : Stands twoChildren.heap none
      (.node .black (.node .red .nil (nodeAt 8 (by decide)) .nil) (nodeAt 16 (by decide))
        (.node .red .nil (nodeAt 24 (by decide)) .nil)) :=
    ⟨rfl, ⟨rfl, trivial, trivial⟩, ⟨rfl, trivial, trivial⟩⟩
  exact rbWalk_represents
    ⟨_, ⟨by decide, hstands, rfl, fun _ _ => rfl⟩,
      ⟨1, .black (.red .nil .nil) (.red .nil .nil)⟩, rfl⟩ (by decide)

end Xfsd
