import Mathlib.Tactic.TypeStar

/-!
# `Lib.Loop` — counted C loops as folds, with their invariant rules

The three loop forms the modelled sources use, each over an explicit loop state `σ`:

* `forRange n f s` — `for (i = 0; i < n; ++i) s = f(s, i)`;
* `forRangeM n f s` — the same with a body that may end the process (`none`);
* `forBreak n f s` — the same with a body that may `break` (`ForInStep.done`).

Each comes with one invariant rule, so a proof about a loop states what holds after `i` rounds and shows
that one round carries it from `i` to `i + 1`.
-/

namespace HiSTB.Lib

variable {σ : Type*}

/-- `for (i = 0; i < n; ++i) s = f(s, i)`. -/
def forRange : Nat → (σ → Nat → σ) → σ → σ
  | 0, _, s => s
  | n + 1, f, s => f (forRange n f s) n

@[simp] theorem forRange_zero (f : σ → Nat → σ) (s : σ) : forRange 0 f s = s := rfl

theorem forRange_succ (n : Nat) (f : σ → Nat → σ) (s : σ) :
    forRange (n + 1) f s = f (forRange n f s) n := rfl

/-- **Invariant rule for `forRange`.** -/
theorem forRange_inv (P : Nat → σ → Prop) {n : Nat} {f : σ → Nat → σ} {s : σ} (h0 : P 0 s)
    (hstep : ∀ i t, i < n → P i t → P (i + 1) (f t i)) : P n (forRange n f s) := by
  induction n with
  | zero => exact h0
  | succ n ih =>
    rw [forRange_succ]
    apply hstep n _ (Nat.lt_succ_self n)
    exact ih (fun i t hi hP => hstep i t (Nat.lt_succ_of_lt hi) hP)

/-- `forRange` with a body that may end the process. -/
def forRangeM : Nat → (σ → Nat → Option σ) → σ → Option σ
  | 0, _, s => some s
  | n + 1, f, s => (forRangeM n f s).bind (fun t => f t n)

@[simp] theorem forRangeM_zero (f : σ → Nat → Option σ) (s : σ) : forRangeM 0 f s = some s := rfl

theorem forRangeM_succ (n : Nat) (f : σ → Nat → Option σ) (s : σ) :
    forRangeM (n + 1) f s = (forRangeM n f s).bind (fun t => f t n) := rfl

/-- **Invariant rule for `forRangeM`**, for a loop whose body never ends the process while the
    invariant holds: the loop returns, in a state that satisfies the invariant. -/
theorem forRangeM_inv_some (P : Nat → σ → Prop) {n : Nat} {f : σ → Nat → Option σ} {s : σ} (h0 : P 0 s)
    (hstep : ∀ i t, i < n → P i t → ∃ u, f t i = some u ∧ P (i + 1) u) :
    ∃ u, forRangeM n f s = some u ∧ P n u := by
  induction n with
  | zero => exact ⟨s, rfl, h0⟩
  | succ n ih =>
    obtain ⟨t, ht, hP⟩ := ih (fun i t hi hP => hstep i t (Nat.lt_succ_of_lt hi) hP)
    obtain ⟨u, hu, hQ⟩ := hstep n t (Nat.lt_succ_self n) hP
    exact ⟨u, by rw [forRangeM_succ, ht, Option.bind_some, hu], hQ⟩

/-- **Partial invariant rule for `forRangeM`**: whatever the loop returns satisfies the invariant. -/
theorem forRangeM_inv (P : Nat → σ → Prop) {n : Nat} {f : σ → Nat → Option σ} {s u : σ} (h0 : P 0 s)
    (hstep : ∀ i t v, i < n → P i t → f t i = some v → P (i + 1) v)
    (hu : forRangeM n f s = some u) : P n u := by
  induction n generalizing u with
  | zero => rw [forRangeM_zero, Option.some.injEq] at hu; exact hu ▸ h0
  | succ n ih =>
    rw [forRangeM_succ, Option.bind_eq_some_iff] at hu
    obtain ⟨t, ht, hf⟩ := hu
    have hP : P n t := ih (fun i t v hi => hstep i t v (Nat.lt_succ_of_lt hi)) ht
    exact hstep n t u (Nat.lt_succ_self n) hP hf

/-- The rounds of `forBreak` from index `i` on, `k` of them left. -/
def forBreakFrom (f : σ → Nat → ForInStep σ) : Nat → Nat → σ → σ
  | 0, _, s => s
  | k + 1, i, s =>
    match f s i with
    | .done t => t
    | .yield t => forBreakFrom f k (i + 1) t

/-- `for (i = a; i < a + n; ++i)` with a body that may `break`. -/
def forBreak (a n : Nat) (f : σ → Nat → ForInStep σ) (s : σ) : σ := forBreakFrom f n a s

/-- **Invariant rule for `forBreak`.** A round that goes on carries the invariant, a round that breaks
    establishes the postcondition, and so does the invariant at the end of the range. -/
theorem forBreak_inv (P : Nat → σ → Prop) (Q : σ → Prop) {a n : Nat} {f : σ → Nat → ForInStep σ} {s : σ}
    (h0 : P a s) (hyield : ∀ i t u, a ≤ i → i < a + n → P i t → f t i = .yield u → P (i + 1) u)
    (hdone : ∀ i t u, a ≤ i → i < a + n → P i t → f t i = .done u → Q u)
    (hend : ∀ t, P (a + n) t → Q t) : Q (forBreak a n f s) := by
  unfold forBreak
  induction n generalizing a s with
  | zero => exact hend s h0
  | succ n ih =>
    unfold forBreakFrom
    split
    · rename_i t ht
      exact hdone a s t (Nat.le_refl a) (by omega) h0 ht
    · rename_i t ht
      apply ih (hyield a s t (Nat.le_refl a) (by omega) h0 ht)
      · intro i t u hi hlt
        exact hyield i t u (by omega) (by omega)
      · intro i t u hi hlt
        exact hdone i t u (by omega) (by omega)
      · intro t ht
        exact hend t (by rwa [show a + (n + 1) = a + 1 + n by omega])

end HiSTB.Lib
