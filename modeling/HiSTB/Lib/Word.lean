import Mathlib.Data.Int.Basic

/-!
# `Lib.Word` — `int` arithmetic on the integers

A C `int` is an integer here, and an operation on it is the operation on the integers followed by `int32`. Sums and
differences may be reduced at any time, so a counter that went up and down is the reduced difference of what it
counted; it is that difference where this is an `int`.
-/

namespace HiSTB.Lib

/-- The `int` that the machine has for `x`. -/
def int32 (x : Int) : Int := (x + 0x80000000) % 0x100000000 - 0x80000000

/-- The integer is an `int`. -/
def IsInt (x : Int) : Prop := -0x80000000 ≤ x ∧ x < 0x80000000
deriving Decidable

/-- An integer is kept exactly when it is an `int`. -/
theorem int32_eq_self_iff {x : Int} : int32 x = x ↔ IsInt x := by
  unfold int32 IsInt
  omega

theorem isInt_int32 (x : Int) : IsInt (int32 x) := by
  unfold int32 IsInt
  omega

theorem IsInt.eq {x : Int} (h : IsInt x) : int32 x = x := int32_eq_self_iff.mpr h

theorem int32_of_range {x : Int} (h0 : -0x80000000 ≤ x) (h1 : x < 0x80000000) : int32 x = x :=
  int32_eq_self_iff.mpr ⟨h0, h1⟩

theorem int32_lt (x : Int) : int32 x < 0x80000000 := by
  unfold int32
  omega

@[simp] theorem int32_add_left (x y : Int) : int32 (int32 x + y) = int32 (x + y) := by
  unfold int32
  omega

@[simp] theorem int32_sub_left (x y : Int) : int32 (int32 x - y) = int32 (x - y) := by
  unfold int32
  omega

/-- What was counted can be taken off again. -/
theorem int32_add_sub (x y : Int) : int32 (int32 (x + y) - x) = int32 y := by
  rw [int32_sub_left, Int.add_comm, Int.add_sub_cancel]

theorem int32_succ_sub (n : Nat) : int32 (int32 (n + 1 : Nat) - 1) = int32 n := by
  rw [Int.natCast_succ, int32_sub_left, Int.add_sub_cancel]

end HiSTB.Lib
