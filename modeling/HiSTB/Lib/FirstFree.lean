import Mathlib.Data.List.Nodup
import Mathlib.Data.List.Perm.Subperm
import Mathlib.Order.Bounds.Basic

/-!
# `Lib.FirstFree` — the first number that is not taken

Numbers are tried one after the other, from 0 on, until one is found that is not in a list.

* `firstFree_isLeast` — with enough fuel this is the least number that is not in the list;
* `IsLeast.le_length` — which is at most the length of the list.
-/

namespace HiSTB.Lib

variable {ids : List ℕ} {fuel n m : ℕ}

/-- Try `n`, then `n + 1`, and so on. -/
def firstFree (ids : List ℕ) : ℕ → ℕ → Option ℕ
  | 0, _ => none
  | fuel + 1, n => if n ∈ ids then firstFree ids fuel (n + 1) else some n

theorem le_length_of_below (h : ∀ k, k < n → k ∈ ids) : n ≤ ids.length := by
  have hsub : List.range n ⊆ ids := fun k hk => h k (List.mem_range.mp hk)
  have hle := (List.subperm_of_subset List.nodup_range hsub).length_le
  rwa [List.length_range] at hle

theorem IsLeast.le_length (h : IsLeast {k | k ∉ ids} m) : m ≤ ids.length := by
  refine le_length_of_below (fun k hk => ?_)
  by_contra hfree
  exact Nat.not_lt.mpr (h.2 hfree) hk

/-- **The first free number is the least one**, and it is found. -/
theorem firstFree_isLeast (hbelow : ∀ k, k < n → k ∈ ids) (hfuel : ids.length < fuel + n) :
    ∃ m, firstFree ids fuel n = some m ∧ IsLeast {k | k ∉ ids} m := by
  induction fuel generalizing n with
  | zero =>
    have hle := le_length_of_below hbelow
    omega
  | succ fuel ih =>
    unfold firstFree
    by_cases hmem : n ∈ ids
    · rw [if_pos hmem]
      refine ih (fun k hk => ?_) (by omega)
      rcases Nat.lt_succ_iff_lt_or_eq.mp hk with hlt | rfl
      · exact hbelow k hlt
      · exact hmem
    · rw [if_neg hmem]
      refine ⟨n, rfl, hmem, fun k hk => ?_⟩
      by_contra hlt
      exact hk (hbelow k (Nat.not_le.mp hlt))

end HiSTB.Lib
