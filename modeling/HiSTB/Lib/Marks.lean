import Mathlib.Data.Rat.Cast.Order
import Mathlib.Tactic.FieldSimp
import Mathlib.Tactic.Linarith
import Mathlib.Tactic.Ring

/-!
# `Lib.Marks` — marks that are spread over a cycle

`r` marks are spread over a cycle of `n` places, the `k`-th at `n * k / r` rounded to the nearest place. Over many
cycles in a row, the marks of the next cycle go on from those of the last.

* `mark` — where a mark is; `mark_strict`, `mark_cycle` — no two at one place, and the next cycle;
* `marked` — how many there are up to a place; `mark_le_iff` — the two are inverse to each other;
* `marked_succ` — the count goes up where the next mark is, and only there;
* `marked_near`, `marked_cycles` — how far it is from the exact share.
-/

namespace HiSTB.Lib.Marks

/-- The place of the `k`-th mark. -/
def mark (n r k : Nat) : Nat := (n * k + r / 2) / r

/-- The number of marks up to the place `m`. -/
def marked (n r m : Nat) : Nat := (m * r + (r - r / 2 - 1)) / n

variable {n r k m : Nat}

theorem mark_le_iff (hr : 0 < r) (hn : 0 < n) : mark n r k ≤ m ↔ k ≤ marked n r m := by
  unfold mark marked
  rw [Nat.le_div_iff_mul_le hn, ← Nat.lt_succ_iff, Nat.div_lt_iff_lt_mul hr, Nat.succ_mul, Nat.mul_comm n k]
  omega

theorem lt_mark (hr : 0 < r) (hn : 0 < n) : m < mark n r (marked n r m + 1) := by
  rw [← Nat.not_le, mark_le_iff hr hn]
  exact Nat.not_succ_le_self _

/-- No two marks are at one place. -/
theorem mark_strict (hr : 0 < r) (hle : r ≤ n) : mark n r k < mark n r (k + 1) := by
  have hstep : (n * k + r / 2) / r + 1 = (n * k + r / 2 + r) / r := (Nat.add_div_right _ hr).symm
  have hmono : (n * k + r / 2 + r) / r ≤ (n * (k + 1) + r / 2) / r := by
    apply Nat.div_le_div_right
    rw [Nat.mul_succ]
    omega
  unfold mark
  omega

theorem mark_cycle (hr : 0 < r) (q : Nat) : mark n r (k + r * q) = mark n r k + n * q := by
  unfold mark
  have heq : n * (k + r * q) + r / 2 = n * k + r / 2 + r * (n * q) := by ring
  rw [heq, Nat.add_mul_div_left _ _ hr]

theorem marked_cycle (hn : 0 < n) (q : Nat) : marked n r (m + n * q) = marked n r m + r * q := by
  unfold marked
  have heq : (m + n * q) * r + (r - r / 2 - 1) = m * r + (r - r / 2 - 1) + n * (r * q) := by ring
  rw [heq, Nat.add_mul_div_left _ _ hn]

/-- Up to a mark there are as many as its number. -/
theorem marked_mark (hr : 0 < r) (hle : r ≤ n) : marked n r (mark n r k) = k := by
  have hn : 0 < n := Nat.lt_of_lt_of_le hr hle
  have hlow : k ≤ marked n r (mark n r k) := (mark_le_iff hr hn).mp (Nat.le_refl _)
  have hhigh : ¬ k + 1 ≤ marked n r (mark n r k) := by
    rw [← mark_le_iff hr hn]
    exact Nat.not_le_of_lt (mark_strict hr hle)
  omega

theorem mark_end (hr : 0 < r) : mark n r r = n := by
  unfold mark
  rw [Nat.add_comm, Nat.add_mul_div_right _ _ hr, Nat.div_eq_of_lt (by omega), Nat.zero_add]

theorem mark_zero : mark n r 0 = 0 := by
  unfold mark
  rcases Nat.eq_zero_or_pos r with rfl | hr
  · rw [Nat.div_zero]
  · rw [Nat.mul_zero, Nat.zero_add]
    exact Nat.div_eq_of_lt (by omega)

theorem marked_lt (hr : 0 < r) (hn : 0 < n) (hm : m < n) : marked n r m < r := by
  rw [← Nat.not_le, ← mark_le_iff hr hn, mark_end hr]
  omega

theorem marked_div (hr : 0 < r) (hn : 0 < n) : marked n r m / r = m / n := by
  have hm : m = m % n + n * (m / n) := (Nat.mod_add_div m n).symm
  have hlt := marked_lt hr hn (Nat.mod_lt m hn)
  rw [hm, marked_cycle hn, Nat.add_mul_div_left _ _ hr, Nat.div_eq_of_lt hlt, Nat.add_mul_div_left _ _ hn,
    Nat.div_eq_of_lt (Nat.mod_lt m hn)]

theorem marked_zero (hr : 0 < r) (hle : r ≤ n) : marked n r 0 = 0 := by
  unfold marked
  rw [Nat.zero_mul, Nat.zero_add]
  exact Nat.div_eq_of_lt (by omega)

/-- **The count goes up where the next mark is.** -/
theorem marked_succ (hr : 0 < r) (hle : r ≤ n) :
    marked n r (m + 1) = marked n r m + if mark n r (marked n r m + 1) = m + 1 then 1 else 0 := by
  have hn : 0 < n := Nat.lt_of_lt_of_le hr hle
  have hlt := @lt_mark n r m hr hn
  split_ifs with heq
  · -- the one behind it is at a later place
    have hone : marked n r m + 1 ≤ marked n r (m + 1) := (mark_le_iff hr hn).mp (Nat.le_of_eq heq)
    have hnext := @mark_strict n r (marked n r m + 1) hr hle
    have htwo : ¬ marked n r m + 1 + 1 ≤ marked n r (m + 1) := by
      rw [← mark_le_iff hr hn]
      omega
    omega
  · have hnone : ¬ marked n r m + 1 ≤ marked n r (m + 1) := by
      rw [← mark_le_iff hr hn]
      omega
    have hmono : marked n r m ≤ marked n r (m + 1) := by
      apply Nat.div_le_div_right
      rw [Nat.succ_mul]
      omega
    omega

/-- **The next mark, by its number in its cycle.** -/
theorem mark_in_cycle (hr : 0 < r) (hn : 0 < n) :
    mark n r (marked n r m % r + 1) = m % n + 1 ↔ mark n r (marked n r m + 1) = m + 1 := by
  have hdiv := @marked_div n r m hr hn
  have hsplit : marked n r m + 1 = marked n r m % r + 1 + r * (m / n) := by
    rw [← hdiv, Nat.add_right_comm, Nat.mod_add_div]
  have hm := Nat.mod_add_div m n
  rw [hsplit, mark_cycle hr]
  omega

/-! ## The exact share -/

/-- **The count is less than one away from the exact share.** -/
theorem marked_near (hr : 0 < r) (hle : r ≤ n) : |(marked n r m : ℚ) - m * r / n| < 1 := by
  have hn : 0 < n := Nat.lt_of_lt_of_le hr hle
  have hlow := Nat.lt_div_mul_add (a := m * r + (r - r / 2 - 1)) hn
  have hhigh := Nat.div_mul_le_self (m * r + (r - r / 2 - 1)) n
  have hfloor : m * r < marked n r m * n + n := by
    unfold marked
    omega
  have hceil : marked n r m * n < m * r + n := by
    unfold marked
    omega
  have hpos : (0 : ℚ) < n := by exact_mod_cast hn
  have hlow' : (m * r : ℚ) < marked n r m * n + n := by exact_mod_cast hfloor
  have hhigh' : (marked n r m * n : ℚ) < m * r + n := by exact_mod_cast hceil
  rw [abs_lt, neg_lt_sub_iff_lt_add, sub_lt_iff_lt_add, div_lt_iff₀ hpos, ← sub_lt_iff_lt_add', lt_div_iff₀ hpos]
  constructor <;> linarith

/-- After whole cycles it is the exact share. -/
theorem marked_cycles (hr : 0 < r) (hle : r ≤ n) (hdvd : n ∣ m) : marked n r m * n = m * r := by
  obtain ⟨q, rfl⟩ := hdvd
  have hcycle := @marked_cycle n r 0 (Nat.lt_of_lt_of_le hr hle) q
  rw [Nat.zero_add, marked_zero hr hle, Nat.zero_add] at hcycle
  rw [hcycle]
  ring

end HiSTB.Lib.Marks
