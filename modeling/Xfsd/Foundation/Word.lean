import Mathlib.Data.Nat.ModEq
import Mathlib.Data.Nat.Factorization.Basic
import Mathlib.Tactic.Common

/-!
# Foundation - Signed and tagged words

A natural number that is converted to a signed word of {lit}`W` bits becomes its
balanced remainder modulo {lit}`2 ^ W`.  This module says when nothing is lost,
and why a number that was packed above {lit}`L` bits cannot pass for a linear one
by wrapping around.  A tag in the low bits of an aligned address can be taken
apart from it again.

Main results:

- Theorem {lit}`bmod_two_pow_eq_natCast_iff`: the word is a given natural number.
- Theorems {lit}`packed_eq_linear` and {lit}`packed_unit_eq_linear`: packed and
  linear bases that agree up to a wrap are equal.
- Theorems {lit}`tagged_and_not` and {lit}`tagged_and`: the parts of a tagged word.
-/

namespace Foundation

/-- Congruent numbers become the same signed word. -/
theorem bmod_congr {x y n : Nat} (h : x ≡ y [MOD n]) : Int.bmod x n = Int.bmod y n := by
  have hcast : (x : Int) % n = (y : Int) % n := by exact_mod_cast h
  rw [← Int.emod_bmod (x : Int), hcast, Int.emod_bmod]

/-- A signed word equals a natural number exactly when that number is below the sign bit and
congruent to the word. -/
theorem bmod_two_pow_eq_natCast_iff {W : Nat} (hW : 0 < W) (x t : Nat) :
    Int.bmod x (2 ^ W) = (t : Int) ↔ x ≡ t [MOD 2 ^ W] ∧ t < 2 ^ (W - 1) := by
  obtain ⟨k, rfl⟩ : ∃ k, W = k + 1 := ⟨W - 1, by omega⟩
  have hpow : 2 ^ (k + 1) = 2 * 2 ^ k := by rw [pow_succ, Nat.mul_comm]
  have hpos : 0 < 2 ^ k := Nat.two_pow_pos k
  rw [Nat.add_sub_cancel, Nat.ModEq, hpow]
  generalize 2 ^ k = p at *
  rw [Int.bmod_def]
  have hcast : ((x : Int) % ((2 * p : Nat) : Int)) = ((x % (2 * p) : Nat) : Int) := by
    rw [Int.natCast_emod]
  rw [hcast]
  have hlt : x % (2 * p) < 2 * p := Nat.mod_lt _ (by omega)
  constructor
  · intro h
    split at h
    · rename_i hlow
      have ht : x % (2 * p) = t := by omega
      have htp : t < p := by omega
      exact ⟨by rw [ht, Nat.mod_eq_of_lt (by omega)], htp⟩
    · omega
  · intro h
    rcases h with ⟨hmod, hp⟩
    rw [Nat.mod_eq_of_lt (by omega : t < 2 * p)] at hmod
    rw [hmod, if_pos (by omega)]

/-- Packing a field below another one adds it. -/
theorem shiftLeft_or_eq {k b : Nat} (a : Nat) (h : b < 2 ^ k) : a <<< k ||| b = a * 2 ^ k + b := by
  rw [Nat.shiftLeft_eq, Nat.mul_comm]
  exact (Nat.two_pow_add_eq_or_of_lt h a).symm

/-- A number without low digits and a number of low digits are packed by adding them. -/
theorem or_eq_add_of_dvd {x y k : Nat} (hx : 2 ^ k ∣ x) (hy : y < 2 ^ k) : x ||| y = x + y := by
  rcases hx with ⟨q, rfl⟩
  exact (Nat.two_pow_add_eq_or_of_lt hy q).symm

/-- A base packed above {lit}`L` bits equals the linear base as soon as the two agree
up to a wrap that the linear base stays below. -/
theorem packed_eq_linear {m a L W : Nat} (hpos : 0 < a) (hle : a ≤ 2 ^ L)
    (hmod : m * 2 ^ L ≡ m * a [MOD 2 ^ W]) (hlt : m * a < 2 ^ W) : m * 2 ^ L = m * a := by
  rcases Nat.lt_or_ge a (2 ^ L) with hlt' | hge
  · -- the odd part of the difference is invertible, so the wrap already divides the linear base
    rcases Nat.exists_eq_two_pow_mul_odd (n := a) (by omega) with ⟨e, o, hodd, ha⟩
    have heL : e < L := by
      by_contra hnot
      have hpow : 2 ^ L ≤ 2 ^ e := Nat.pow_le_pow_right (by omega) (by omega)
      have : 2 ^ e ≤ a := by
        rw [ha]
        exact Nat.le_mul_of_pos_right _ hodd.pos
      omega
    have hdvd : 2 ^ W ∣ m * 2 ^ L - m * a :=
      (Nat.modEq_iff_dvd' (Nat.mul_le_mul_left m hle)).mp hmod.symm
    have hL : 2 ^ L = 2 ^ e * 2 ^ (L - e) := by rw [← pow_add]; congr 1; omega
    have hdiff : m * 2 ^ L - m * a = m * 2 ^ e * (2 ^ (L - e) - o) := by
      rw [← Nat.mul_sub, hL, ha, ← Nat.mul_sub, Nat.mul_assoc]
    have hole : o < 2 ^ (L - e) := by
      rw [hL, ha] at hlt'
      exact Nat.lt_of_mul_lt_mul_left hlt'
    have hodd' : Odd (2 ^ (L - e) - o) := by
      refine Nat.Even.sub_odd hole.le ?_ hodd
      exact (Nat.even_pow.mpr ⟨even_two, by omega⟩)
    have hcop : Nat.Coprime (2 ^ W) (2 ^ (L - e) - o) :=
      (Nat.coprime_two_left.mpr hodd').pow_left W
    rw [hdiff] at hdvd
    have hbase : 2 ^ W ∣ m * 2 ^ e := hcop.dvd_of_dvd_mul_right hdvd
    have hall : 2 ^ W ∣ m * a := by
      rw [ha, ← Nat.mul_assoc]
      exact Dvd.dvd.mul_right hbase o
    have hzero : m * a = 0 := Nat.eq_zero_of_dvd_of_lt hall hlt
    rcases Nat.mul_eq_zero.mp hzero with hm | hz
    · simp [hm]
    · omega
  · rw [Nat.le_antisymm hle hge]

/-- The same for places in units of {lit}`x` that have a further offset in their group. -/
theorem packed_unit_eq_linear {group rest a L W x : Nat} (hx : 0 < x) (hpos : 0 < a)
    (hle : a ≤ 2 ^ L)
    (hmod : (group * 2 ^ L + rest) * x ≡ (group * a + rest) * x [MOD 2 ^ W])
    (hlt : (group * a + rest) * x < 2 ^ W) : group * 2 ^ L = group * a := by
  rw [Nat.add_mul, Nat.add_mul] at hmod
  have hbase : group * x * 2 ^ L ≡ group * x * a [MOD 2 ^ W] := by
    have hcancel := Nat.ModEq.add_right_cancel' (rest * x) hmod
    rwa [Nat.mul_right_comm, Nat.mul_right_comm group a] at hcancel
  have hsmall : group * x * a < 2 ^ W := by
    refine lt_of_le_of_lt ?_ hlt
    rw [Nat.mul_right_comm]
    exact Nat.mul_le_mul_right x (by omega)
  have heq := packed_eq_linear hpos hle hbase hsmall
  rw [Nat.mul_right_comm, Nat.mul_right_comm group x a] at heq
  exact Nat.eq_of_mul_eq_mul_right hx heq

/-- A packed number that is cut to a multiple of its unit keeps its low digit, and its high
digit up to the cut. -/
theorem cut_packed {n p c off M : Nat} (hdvd : c ∣ M) (hoff : off < c) (hn : n = p * c + off) :
    n % M / c * c + off = n % M ∧ p * c ≡ n % M / c * c [MOD M] := by
  have hlow : n % M % c = off := by
    rw [Nat.mod_mod_of_dvd _ hdvd, hn, Nat.mul_comm, Nat.mul_add_mod, Nat.mod_eq_of_lt hoff]
  have hhigh : n % M / c * c + off = n % M := by
    rw [← hlow, Nat.mul_comm]
    exact Nat.div_add_mod _ _
  refine ⟨hhigh, ?_⟩
  apply Nat.ModEq.add_right_cancel' off
  rw [hhigh, ← hn]
  exact (Nat.mod_modEq _ _).symm

/-! ## Tagged words -/

section Tagged

variable {w : Nat} {p t m : BitVec w}

/-- An address with no bit under a mask comes out of a tagged word. -/
theorem tagged_and_not (hp : p &&& m = 0#w) (ht : t &&& m = t) : (p ||| t) &&& ~~~m = p := by
  ext i hi
  have hpi := congrArg (·.getLsbD i) hp
  have hti := congrArg (·.getLsbD i) ht
  simp [hi] at hpi hti ⊢
  grind

/-- A tag under a mask comes out of a tagged word. -/
theorem tagged_and (hp : p &&& m = 0#w) (ht : t &&& m = t) : (p ||| t) &&& m = t := by
  ext i hi
  have hpi := congrArg (·.getLsbD i) hp
  have hti := congrArg (·.getLsbD i) ht
  simp [hi] at hpi hti ⊢
  grind

end Tagged

end Foundation
