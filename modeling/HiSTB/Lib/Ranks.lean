import Mathlib.Data.List.Nodup
import Mathlib.Data.List.Perm.Subperm
import Mathlib.Data.List.Range

/-!
# `Lib.Ranks` — ranks of the members of a group

The ranks of `n` members are the numbers below `n`, each once. A member comes at the top, leaves and closes the gap, or
moves to the top, to the bottom or past its neighbour; each of these is a renumbering of the ranks.

* `Ranking` — the ranks are a permutation; `Ranking.map` — a renumbering that is one on them;
* `closeGap`, `toTop`, `toBottom`, `swap` — the renumberings; `Ranking.leave`, `Ranking.top`, `Ranking.bottom`,
  `Ranking.exchange` — they keep a ranking;
* `closeGap_lt_iff` … — and the order of the others.
-/

namespace HiSTB.Lib.Ranks

/-- The ranks are the numbers below their count. -/
def Ranking (rs : List Nat) : Prop := rs.Perm (List.range rs.length)

variable {rs : List Nat} {n z u v : Nat}

theorem Ranking.nodup (h : Ranking rs) : rs.Nodup := h.nodup_iff.mpr List.nodup_range

/-- A rank is below the count. -/
theorem Ranking.lt (h : Ranking rs) (hv : v ∈ rs) : v < rs.length := List.mem_range.mp (h.mem_iff.mp hv)

/-- Each number below the count is a rank. -/
theorem Ranking.mem (h : Ranking rs) (hv : v < rs.length) : v ∈ rs := h.mem_iff.mpr (List.mem_range.mpr hv)

theorem Ranking.nil : Ranking [] := List.Perm.nil

theorem Ranking.perm {qs : List Nat} (h : Ranking rs) (hp : qs.Perm rs) : Ranking qs := by
  unfold Ranking at *
  rw [hp.length_eq]
  exact hp.trans h

/-- **A renumbering that is one-to-one below the count keeps a ranking.** -/
theorem Ranking.map {f : Nat → Nat} (h : Ranking rs) (hlt : ∀ v, v < rs.length → f v < rs.length)
    (hinj : ∀ u v, u < rs.length → v < rs.length → f u = f v → u = v) : Ranking (rs.map f) := by
  have hnodup : (rs.map f).Nodup := by
    apply List.Nodup.map_on _ h.nodup
    intro u hu v hv
    exact hinj u v (h.lt hu) (h.lt hv)
  have hsub : rs.map f ⊆ List.range rs.length := by
    intro v hv
    obtain ⟨u, hu, rfl⟩ := List.mem_map.mp hv
    exact List.mem_range.mpr (hlt u (h.lt hu))
  unfold Ranking
  rw [List.length_map]
  apply (hnodup.subperm hsub).perm_of_length_le
  rw [List.length_map, List.length_range]

/-- A member comes at the top. -/
theorem Ranking.cons (h : Ranking rs) : Ranking (rs.length :: rs) := by
  unfold Ranking
  rw [List.length_cons, List.range_succ]
  exact (List.Perm.cons _ h).trans (List.perm_append_singleton _ _).symm

/-! ## The renumberings -/

/-- The rank `z` is free, and those above it go down. -/
def closeGap (z v : Nat) : Nat := if v > z then v - 1 else v

/-- `z` goes to the top of `n`. -/
def toTop (n z v : Nat) : Nat := if v = z then n - 1 else closeGap z v

/-- `z` goes to the bottom. -/
def toBottom (z v : Nat) : Nat := if v = z then 0 else if v < z then v + 1 else v

/-- Two ranks are exchanged. -/
def swap (a b v : Nat) : Nat := if v = a then b else if v = b then a else v

/-- The order of the others stays. -/
theorem closeGap_lt_iff (hu : u ≠ z) (hv : v ≠ z) : closeGap z u < closeGap z v ↔ u < v := by
  unfold closeGap
  split_ifs <;> omega

theorem toTop_lt_iff (hu : u ≠ z) (hv : v ≠ z) : toTop n z u < toTop n z v ↔ u < v := by
  unfold toTop
  rw [if_neg hu, if_neg hv]
  exact closeGap_lt_iff hu hv

theorem toBottom_lt_iff (hu : u ≠ z) (hv : v ≠ z) : toBottom z u < toBottom z v ↔ u < v := by
  unfold toBottom
  split_ifs <;> omega

theorem swap_lt_iff {b : Nat} (hb : b = z + 1 ∨ z = b + 1) (hu : u ≠ z) (hv : v ≠ z) :
    swap z b u < swap z b v ↔ u < v := by
  unfold swap
  split_ifs <;> omega

/-- A member moves to the top. -/
theorem Ranking.top (h : Ranking rs) (hz : z < rs.length) : Ranking (rs.map (toTop rs.length z)) := by
  apply h.map
  · intro v hv
    unfold toTop closeGap
    split_ifs <;> omega
  · intro u v hu hv heq
    unfold toTop closeGap at heq
    split_ifs at heq <;> omega

/-- A member moves to the bottom. -/
theorem Ranking.bottom (h : Ranking rs) (hz : z < rs.length) : Ranking (rs.map (toBottom z)) := by
  apply h.map
  · intro v hv
    unfold toBottom
    split_ifs <;> omega
  · intro u v hu hv heq
    unfold toBottom at heq
    split_ifs at heq <;> omega

/-- Two members change places. -/
theorem Ranking.exchange {a b : Nat} (h : Ranking rs) (ha : a < rs.length) (hb : b < rs.length) :
    Ranking (rs.map (swap a b)) := by
  apply h.map
  · intro v hv
    unfold swap
    split_ifs <;> omega
  · intro u v hu hv heq
    unfold swap at heq
    split_ifs at heq <;> omega

/-- **A member leaves.** -/
theorem Ranking.leave (h : Ranking (z :: rs)) : Ranking (rs.map (closeGap z)) := by
  have hnodup := h.nodup
  obtain ⟨hz, hrest⟩ := List.nodup_cons.mp hnodup
  have hlt : ∀ v ∈ z :: rs, v < rs.length + 1 := fun v hv => by
    have hv' := h.lt hv
    rwa [List.length_cons] at hv'
  have hzlt := hlt z List.mem_cons_self
  have hnodup' : (rs.map (closeGap z)).Nodup := by
    apply List.Nodup.map_on _ hrest
    intro u hu v hv
    have hune : u ≠ z := fun heq => hz (heq ▸ hu)
    have hvne : v ≠ z := fun heq => hz (heq ▸ hv)
    unfold closeGap
    split_ifs <;> omega
  have hsub : rs.map (closeGap z) ⊆ List.range rs.length := by
    intro w hw
    obtain ⟨v, hv, rfl⟩ := List.mem_map.mp hw
    have hvne : v ≠ z := fun heq => hz (heq ▸ hv)
    have hvlt := hlt v (List.mem_cons_of_mem _ hv)
    apply List.mem_range.mpr
    unfold closeGap
    split_ifs <;> omega
  unfold Ranking
  rw [List.length_map]
  apply (hnodup'.subperm hsub).perm_of_length_le
  rw [List.length_map, List.length_range]

end HiSTB.Lib.Ranks
