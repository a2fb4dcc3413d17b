import Mathlib.LinearAlgebra.Matrix.NonsingularInverse
import Mathlib.Algebra.BigOperators.Field
import Mathlib.Tactic.FieldSimp
import Mathlib.Tactic.LinearCombination

/-!
# `Lib.GaussJordan` — in-place Gauss–Jordan inversion with full pivoting

The textbook routine inverts a matrix inside its own storage: it swaps a pivot row into place, replaces the
pivot column by the column of the inverse under construction, and unscrambles the columns at the end. The
storage is then neither the matrix nor its inverse but a mixture, and the one fact that explains it is
linear: with `y = A x`, the storage `B` always satisfies `z + B w = 0` (`Balanced`), where each pivoted
index has `x` on the left and `-y` on the right, and each index not yet pivoted the other way round.

* `exchange` — one pivot step; it swaps the two sides at the pivot (`exchange_balanced`).
* `Mixed` — the invariant: set of pivoted indices, permutation of the row labels, storage.
* `Mixed.swapRow` / `Mixed.pivot` — the two steps of a round keep it.
* `Mixed.mul_eq_one` — when every index is pivoted, undoing the permutation gives the left inverse.
* `Mixed.not_exists_mul_eq_one` — a zero row among the indices left means that no inverse exists.
-/

namespace HiSTB.Lib

open Matrix

variable {ι F : Type*} [Fintype ι] [DecidableEq ι] [Field F]

/-- One in-place pivot step at `p`: put `1` in the pivot's place, divide row `p` by the pivot, then in every
    other row put `0` in column `p` and subtract the row's old entry there times row `p`. -/
def exchange (B : Matrix ι ι F) (p : ι) : Matrix ι ι F := fun r k =>
  if r = p then (if k = p then 1 else B p k) / B p p
  else (if k = p then 0 else B r k) - (if k = p then 1 else B p k) / B p p * B r p

/-- `z` and `w` balance over `B`. -/
def Balanced (B : Matrix ι ι F) (z w : ι → F) : Prop := ∀ r, z r + ∑ k, B r k * w k = 0

/-- A pivot step exchanges the two sides at the pivot. -/
theorem exchange_balanced {B : Matrix ι ι F} {p : ι} {z w : ι → F} (hp : B p p ≠ 0)
    (h : Balanced B z w) :
    Balanced (exchange B p) (Function.update z p (w p)) (Function.update w p (z p)) := by
  -- split every sum at the pivot column; the rest of the sum is untouched by the updates
  have hsplit : ∀ r, z r + (B r p * w p + ∑ k ∈ Finset.univ.erase p, B r k * w k) = 0 := by
    intro r
    rw [Finset.add_sum_erase Finset.univ (fun k => B r k * w k) (Finset.mem_univ p)]
    exact h r
  intro r
  rw [← Finset.add_sum_erase Finset.univ _ (Finset.mem_univ p), Function.update_self]
  by_cases hr : r = p
  · subst hr
    have hrest : ∑ k ∈ Finset.univ.erase r, exchange B r r k * Function.update w r (z r) k
        = (∑ k ∈ Finset.univ.erase r, B r k * w k) / B r r := by
      rw [Finset.sum_div]
      apply Finset.sum_congr rfl
      intro k hk
      have hkr : k ≠ r := Finset.ne_of_mem_erase hk
      simp only [exchange, if_true, if_neg hkr, Function.update_of_ne hkr]
      ring
    rw [hrest, Function.update_self]
    simp only [exchange, if_true]
    have h0 := hsplit r
    field_simp
    linear_combination h0
  · have hrest : ∑ k ∈ Finset.univ.erase p, exchange B p r k * Function.update w p (z p) k
        = (∑ k ∈ Finset.univ.erase p, B r k * w k)
          - (∑ k ∈ Finset.univ.erase p, B p k * w k) / B p p * B r p := by
      rw [Finset.sum_div, Finset.sum_mul, ← Finset.sum_sub_distrib]
      apply Finset.sum_congr rfl
      intro k hk
      have hkp : k ≠ p := Finset.ne_of_mem_erase hk
      simp only [exchange, if_neg hr, if_neg hkp, Function.update_of_ne hkp]
      ring
    rw [hrest, Function.update_of_ne hr]
    simp only [exchange, if_neg hr, if_true]
    have h0 := hsplit r
    have h1 := hsplit p
    field_simp
    linear_combination B p p * h0 - B r p * h1

omit [DecidableEq ι] in
theorem Balanced.permRows {B : Matrix ι ι F} {z w : ι → F} (h : Balanced B z w)
    (s : Equiv.Perm ι) : Balanced (fun r k => B (s r) k) (fun r => z (s r)) w :=
  fun r => h (s r)

/-- **The invariant of in-place inversion.** For every `x` with `y = A x`, the storage `B` balances the
    mixture in which the indices of `P` have been pivoted and row `r` stands for the original row `σ r`. -/
def Mixed (A : Matrix ι ι F) (P : Finset ι) (σ : Equiv.Perm ι) (B : Matrix ι ι F) : Prop :=
  ∀ x : ι → F, Balanced B (fun r => if r ∈ P then x r else -(A *ᵥ x) (σ r))
    (fun k => if k ∈ P then -(A *ᵥ x) (σ k) else x k)

variable {A B : Matrix ι ι F} {P : Finset ι} {σ : Equiv.Perm ι}

theorem Mixed.init (A : Matrix ι ι F) : Mixed A ∅ 1 A := by
  intro x r
  simp only [Finset.notMem_empty, if_false, Equiv.Perm.coe_one, id_eq]
  rw [mulVec, dotProduct]
  exact neg_add_cancel _

/-- Swapping two rows not yet pivoted only relabels them. -/
theorem Mixed.swapRow (h : Mixed A P σ B) {i j : ι} (hi : i ∉ P) (hj : j ∉ P) :
    Mixed A P (σ * Equiv.swap i j) (fun r k => B (Equiv.swap i j r) k) := by
  -- a pivoted index is fixed by the swap, and no other index becomes pivoted by it
  have hfix : ∀ k ∈ P, Equiv.swap i j k = k := by
    intro k hk
    exact Equiv.swap_apply_of_ne_of_ne (fun he => hi (he ▸ hk)) (fun he => hj (he ▸ hk))
  have hmem : ∀ k, Equiv.swap i j k ∈ P ↔ k ∈ P := by
    intro k
    constructor
    · intro hk
      have hk' := hfix _ hk
      rw [Equiv.swap_apply_self] at hk'
      rwa [← hk'] at hk
    · intro hk
      rwa [hfix k hk]
  intro x
  have hb := (h x).permRows (Equiv.swap i j)
  have hz : (fun r => if Equiv.swap i j r ∈ P then x (Equiv.swap i j r)
        else -(A *ᵥ x) (σ (Equiv.swap i j r)))
      = fun r => if r ∈ P then x r else -(A *ᵥ x) ((σ * Equiv.swap i j) r) := by
    funext r
    by_cases hr : r ∈ P
    · rw [if_pos ((hmem r).mpr hr), if_pos hr, hfix r hr]
    · rw [if_neg (fun hc => hr ((hmem r).mp hc)), if_neg hr, Equiv.Perm.mul_apply]
  have hw : (fun k => if k ∈ P then -(A *ᵥ x) (σ k) else x k)
      = fun k => if k ∈ P then -(A *ᵥ x) ((σ * Equiv.swap i j) k) else x k := by
    funext k
    by_cases hk : k ∈ P
    · rw [if_pos hk, if_pos hk, Equiv.Perm.mul_apply, hfix k hk]
    · rw [if_neg hk, if_neg hk]
  rw [hz, hw] at hb
  exact hb

/-- A pivot step on a non-zero pivot moves its index into the pivoted set. -/
theorem Mixed.pivot (h : Mixed A P σ B) {p : ι} (hp : p ∉ P) (hne : B p p ≠ 0) :
    Mixed A (insert p P) σ (exchange B p) := by
  intro x
  have hb := exchange_balanced hne (h x)
  simp only [if_neg hp] at hb
  have hz : Function.update (fun r => if r ∈ P then x r else -(A *ᵥ x) (σ r)) p (x p)
      = fun r => if r ∈ insert p P then x r else -(A *ᵥ x) (σ r) := by
    funext r
    by_cases hr : r = p
    · rw [hr, Function.update_self, if_pos (Finset.mem_insert_self p P)]
    · simp [Finset.mem_insert, hr]
  have hw : Function.update (fun k => if k ∈ P then -(A *ᵥ x) (σ k) else x k) p (-(A *ᵥ x) (σ p))
      = fun k => if k ∈ insert p P then -(A *ᵥ x) (σ k) else x k := by
    funext k
    by_cases hk : k = p
    · rw [hk, Function.update_self, if_pos (Finset.mem_insert_self p P)]
    · simp [Finset.mem_insert, hk]
  rw [hz, hw] at hb
  exact hb

/-- When every index is pivoted, undoing the relabelling of the columns gives the inverse. -/
theorem Mixed.mul_eq_one (h : Mixed A Finset.univ σ B) :
    (Matrix.of fun r k => B r (σ.symm k)) * A = 1 := by
  have hx : ∀ x : ι → F, (Matrix.of fun r k => B r (σ.symm k)) *ᵥ (A *ᵥ x) = x := by
    intro x
    funext r
    have hr := h x r
    simp only [Finset.mem_univ, if_true, mul_neg, Finset.sum_neg_distrib] at hr
    have hperm : ∑ k, B r k * (A *ᵥ x) (σ k) = ∑ k, B r (σ.symm k) * (A *ᵥ x) k := by
      apply Fintype.sum_equiv σ
      intro k
      rw [Equiv.symm_apply_apply]
    rw [hperm] at hr
    exact (sub_eq_zero.mp ((sub_eq_add_neg _ _).trans hr)).symm
  apply Matrix.ext_of_mulVec_single
  intro k
  rw [← Matrix.mulVec_mulVec, hx, Matrix.one_mulVec]

/-- A row not yet pivoted whose entries in the columns not yet pivoted all vanish writes one row of the
    matrix as a combination of others, so the matrix has no right inverse. -/
theorem Mixed.not_exists_mul_eq_one (h : Mixed A P σ B) {r : ι} (hr : r ∉ P)
    (hzero : ∀ k, k ∉ P → B r k = 0) : ¬ ∃ C, A * C = 1 := by
  rintro ⟨C, hC⟩
  -- choose `x` with `A x` the unit vector of the row that `r` stands for
  have hb := h (C *ᵥ Pi.single (σ r) 1) r
  rw [Matrix.mulVec_mulVec, hC, Matrix.one_mulVec] at hb
  have hsum : ∑ k, B r k * (if k ∈ P then -(Pi.single (σ r) 1 : ι → F) (σ k)
      else (C *ᵥ Pi.single (σ r) 1) k) = 0 := by
    apply Finset.sum_eq_zero
    intro k _
    by_cases hk : k ∈ P
    · have hne : k ≠ r := fun he => hr (he ▸ hk)
      rw [if_pos hk, Pi.single_eq_of_ne (fun he => hne (σ.injective he)), neg_zero, mul_zero]
    · rw [hzero k hk, zero_mul]
  rw [hsum, add_zero] at hb
  simp only [if_neg hr, Pi.single_eq_same] at hb
  exact one_ne_zero (neg_eq_zero.mp hb)

end HiSTB.Lib
