import Mathlib.Data.List.Basic
import Mathlib.Data.List.Nodup
import Mathlib.Logic.Function.Basic
import Mathlib.Tactic.Common

/-!
# Foundation - Lists with keys

A list of records stands for a map from keys to values: a key has the value of the first
record with it.  Where the keys are all different, adding, removing and changing a record
anywhere in the list updates the map at its key only.

Main results:

- Definition {lit}`find`: the map that a list stands for.
- Theorems {lit}`find_insert`, {lit}`find_remove` and {lit}`find_change`: the updates.
-/

namespace Foundation.Keyed

variable {α κ υ : Type*} [DecidableEq κ] {key : α → κ} {val : α → υ}
  {xs before after : List α} {a : α} {k : κ} {v : υ}

/-- The value of the first record with a key. -/
def find (key : α → κ) (val : α → υ) (xs : List α) (k : κ) : Option υ :=
  (xs.find? fun x => key x = k).map val

theorem find_eq_none_iff : find key val xs k = none ↔ ∀ x ∈ xs, key x ≠ k := by
  simp [find, List.find?_eq_none]

/-- A value that is found belongs to a record with the key, and no record before it has the
key. -/
theorem exists_of_find_eq_some (h : find key val xs k = some v) :
    ∃ before a after, xs = before ++ a :: after ∧ key a = k ∧ val a = v ∧
      ∀ x ∈ before, key x ≠ k := by
  rcases Option.map_eq_some_iff.mp h with ⟨a, ha, hval⟩
  rcases List.find?_eq_some_iff_append.mp ha with ⟨hkey, before, after, hxs, hbefore⟩
  exact ⟨before, a, after, hxs, by simpa using hkey, hval, by simpa using hbefore⟩

/-- The first record with a key gives it its value. -/
theorem find_append_cons (hbefore : ∀ x ∈ before, key x ≠ key a) :
    find key val (before ++ a :: after) (key a) = some (val a) := by
  have hnone : before.find? (fun x => key x = key a) = none := by
    simpa [List.find?_eq_none] using hbefore
  rw [find, List.find?_append, hnone, Option.none_or, List.find?_cons_of_pos (by simp),
    Option.map_some]

/-- A record says nothing about other keys. -/
theorem find_append_cons_of_ne (hk : k ≠ key a) :
    find key val (before ++ a :: after) k = find key val (before ++ after) k := by
  have hskip : (a :: after).find? (fun x => key x = k) = after.find? fun x => key x = k :=
    List.find?_cons_of_neg (by simpa using hk.symm)
  rw [find, find, List.find?_append, List.find?_append, hskip]

/-- A record with a new key gives the key its value, wherever it stands. -/
theorem find_insert (hnew : ∀ x ∈ before ++ after, key x ≠ key a) :
    find key val (before ++ a :: after) =
      Function.update (find key val (before ++ after)) (key a) (some (val a)) := by
  ext1 k
  by_cases hk : k = key a
  · subst hk
    rw [Function.update_self]
    exact find_append_cons fun x hx => hnew x (List.mem_append_left _ hx)
  · rw [Function.update_of_ne hk, find_append_cons_of_ne hk]

omit [DecidableEq κ] in
/-- Keys that are all different occur once. -/
theorem ne_of_nodup (h : ((before ++ a :: after).map key).Nodup) :
    ∀ x ∈ before ++ after, key x ≠ key a := by
  intro x hx heq
  rw [List.map_append, List.map_cons, List.nodup_middle, List.nodup_cons,
    ← List.map_append] at h
  exact h.1 (heq ▸ List.mem_map_of_mem hx)

/-- Without the record its key has no value. -/
theorem find_remove (h : ((before ++ a :: after).map key).Nodup) :
    find key val (before ++ after) =
      Function.update (find key val (before ++ a :: after)) (key a) none := by
  ext1 k
  by_cases hk : k = key a
  · subst hk
    rw [Function.update_self, find_eq_none_iff]
    exact ne_of_nodup h
  · rw [Function.update_of_ne hk, find_append_cons_of_ne hk]

/-- A record with the same key changes its value only. -/
theorem find_change (h : ((before ++ a :: after).map key).Nodup) (a' : α)
    (hkey : key a' = key a) :
    find key val (before ++ a' :: after) =
      Function.update (find key val (before ++ a :: after)) (key a) (some (val a')) := by
  have hne := ne_of_nodup h
  rw [find_insert (hkey ▸ hne), find_remove h, hkey, Function.update_idem]

end Foundation.Keyed
