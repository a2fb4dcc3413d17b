import Mathlib.Algebra.Field.Defs
import Mathlib.Algebra.Group.Hom.Defs
import Mathlib.Algebra.Field.Basic
import Mathlib.Tactic.Ring

/-!
# `Lib.TableField` — a field from a table of powers and its logarithm

Software that works in a small finite field multiplies through two tables: `exp`, the powers of one
generator, and `log`, its inverse on the non-zero elements. A `PowerTable` over an additive group is such
a pair together with the additive map `shift` that takes each power to the next. These are exactly the
facts a program's table can be checked for, and they are enough: the table multiplication is the product
of a field (`PowerTable.field`). Distributivity is the only law that needs an argument — multiplying by
`exp i` is `shift` iterated `i` times (`mul_exp`), and that is additive.
-/

namespace HiSTB.Lib

/-- The powers of a generator of the non-zero elements, with their logarithms. -/
structure PowerTable (A : Type*) [AddCommGroup A] where
  /-- Order of the generator. -/
  q : Nat
  q_pos : 0 < q
  exp : Nat → A
  log : A → Nat
  /-- Multiplication by the generator. -/
  shift : A →+ A
  exp_succ : ∀ i, exp (i + 1) = shift (exp i)
  exp_mod : ∀ i, exp (i % q) = exp i
  exp_ne_zero : ∀ i, exp i ≠ 0
  exp_log : ∀ a, a ≠ 0 → exp (log a) = a
  log_exp : ∀ i, log (exp i) = i % q

namespace PowerTable

variable {A : Type*} [AddCommGroup A] [DecidableEq A] (T : PowerTable A)

/-- Table multiplication: add the logarithms modulo the order of the generator. -/
def mul (a b : A) : A :=
  if a = 0 ∨ b = 0 then 0 else T.exp ((T.log a + T.log b) % T.q)

/-- Table inversion, with `0⁻¹ = 0`. -/
def inv (a : A) : A := if a = 0 then 0 else T.exp (T.q - T.log a % T.q)

theorem zero_mul (a : A) : T.mul 0 a = 0 := by simp [mul]

theorem mul_zero (a : A) : T.mul a 0 = 0 := by simp [mul]

theorem mul_exp_exp (i j : Nat) : T.mul (T.exp i) (T.exp j) = T.exp (i + j) := by
  unfold mul
  rw [if_neg (by simp [T.exp_ne_zero]), T.log_exp, T.log_exp, ← Nat.add_mod, T.exp_mod]

omit [DecidableEq A] in
/-- Every element but zero is a power. -/
theorem exists_exp {a : A} (ha : a ≠ 0) : ∃ i, a = T.exp i := ⟨T.log a, (T.exp_log a ha).symm⟩

theorem mul_comm (a b : A) : T.mul a b = T.mul b a := by
  simp only [mul, Nat.add_comm (T.log a), or_comm (a := a = 0)]

theorem mul_assoc (a b c : A) : T.mul (T.mul a b) c = T.mul a (T.mul b c) := by
  by_cases ha : a = 0
  · rw [ha, zero_mul, zero_mul, zero_mul]
  by_cases hb : b = 0
  · rw [hb, mul_zero, zero_mul, mul_zero]
  by_cases hc : c = 0
  · rw [hc, mul_zero, mul_zero, mul_zero]
  obtain ⟨i, rfl⟩ := T.exists_exp ha
  obtain ⟨j, rfl⟩ := T.exists_exp hb
  obtain ⟨k, rfl⟩ := T.exists_exp hc
  rw [mul_exp_exp, mul_exp_exp, mul_exp_exp, mul_exp_exp, Nat.add_assoc]

theorem one_mul (a : A) : T.mul (T.exp 0) a = a := by
  by_cases ha : a = 0
  · rw [ha, mul_zero]
  obtain ⟨i, rfl⟩ := T.exists_exp ha
  rw [mul_exp_exp, Nat.zero_add]

/-- Iterated shift. -/
def shiftIter : Nat → A →+ A
  | 0 => AddMonoidHom.id A
  | i + 1 => T.shift.comp (shiftIter i)

omit [DecidableEq A] in
/-- `i` shifts take the `j`-th power to the `i + j`-th. -/
theorem shiftIter_exp (i j : Nat) : T.shiftIter i (T.exp j) = T.exp (i + j) := by
  induction i with
  | zero => rw [Nat.zero_add]; rfl
  | succ i ih =>
    rw [show i + 1 + j = i + j + 1 by omega, T.exp_succ, ← ih]
    rfl

/-- **Multiplying by a power is shifting**, so it is additive. -/
theorem mul_exp (i : Nat) (a : A) : T.mul (T.exp i) a = T.shiftIter i a := by
  by_cases ha : a = 0
  · rw [ha, mul_zero, map_zero]
  obtain ⟨j, rfl⟩ := T.exists_exp ha
  rw [mul_exp_exp, shiftIter_exp]

theorem mul_add (a b c : A) : T.mul a (b + c) = T.mul a b + T.mul a c := by
  by_cases ha : a = 0
  · rw [ha, zero_mul, zero_mul, zero_mul, add_zero]
  obtain ⟨i, rfl⟩ := T.exists_exp ha
  rw [mul_exp, mul_exp, mul_exp, map_add]

omit [DecidableEq A] in
/-- The powers are periodic. -/
theorem exp_q : T.exp T.q = T.exp 0 := by
  rw [← T.exp_mod T.q, Nat.mod_self]

theorem mul_inv {a : A} (ha : a ≠ 0) : T.mul a (T.inv a) = T.exp 0 := by
  obtain ⟨i, rfl⟩ := T.exists_exp ha
  have hlt : i % T.q < T.q := Nat.mod_lt i T.q_pos
  unfold inv
  rw [if_neg ha, T.log_exp, Nat.mod_mod, ← T.exp_mod i, mul_exp_exp,
    show i % T.q + (T.q - i % T.q) = T.q by omega, exp_q]

/-- **The table arithmetic is a field.** -/
@[reducible] def field : Field A where
  __ := ‹AddCommGroup A›
  mul := T.mul
  one := T.exp 0
  inv := T.inv
  mul_assoc := T.mul_assoc
  one_mul := T.one_mul
  mul_one a := by
    show T.mul a (T.exp 0) = a
    rw [T.mul_comm, T.one_mul]
  zero_mul := T.zero_mul
  mul_zero := T.mul_zero
  left_distrib := T.mul_add
  right_distrib a b c := by
    show T.mul (a + b) c = T.mul a c + T.mul b c
    rw [T.mul_comm, T.mul_add, T.mul_comm c a, T.mul_comm c b]
  mul_comm := T.mul_comm
  exists_pair_ne := ⟨T.exp 0, 0, T.exp_ne_zero 0⟩
  mul_inv_cancel _ ha := T.mul_inv ha
  inv_zero := by
    show T.inv 0 = 0
    simp [inv]
  nnqsmul := _
  nnqsmul_def := fun _ _ => rfl
  qsmul := _
  qsmul_def := fun _ _ => rfl

end PowerTable

end HiSTB.Lib
