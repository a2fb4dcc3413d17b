import HiSTB.Lib.Run
import HiSTB.Lib.Holdings

/-!
# `Lib.Balance` — what a run creates, holds, destroys and forgets

A machine shows an event for every object that it creates and for every object that it destroys. At each place of the
program some objects are still to be destroyed, and some steps forget an object: nothing will destroy it any more.

* `Settled` — each object is created at most once, and destroyed once if it was created;
* `Books` — what one step creates, destroys and forgets accounts for what is held before it and after it;
* `Books.settled_iff` — a run that ends with nothing in its hands is settled if and only if no step of it forgot
  anything.
-/

namespace HiSTB.Lib.Balance

open Holdings

variable {σ ι α : Type*} [DecidableEq α]

/-- Each object is created at most once, and destroyed once if it was created. -/
def Settled (es : List (Event α)) : Prop := ∀ a, es.count (.create a) ≤ 1 ∧ es.count (.destroy a) = es.count (.create a)

/-- What a machine holds in a state, which objects it may still create, and what a step that does not meet `C`
    forgets. -/
structure Books (step : σ → ι → Option (σ × List (Event α))) (held : σ → List α) (unborn : σ → α → Bool)
    (forgets : σ → ι → List α) (C : σ → ι → Prop) : Prop where
  balance : ∀ {s i t es}, step s i = some (t, es) → ∀ a,
    (held s).count a + es.count (.create a) = (held t).count a + es.count (.destroy a) + (forgets s i).count a
  unborn : ∀ {s i t es}, step s i = some (t, es) → ∀ a, es.count (.create a) + (unborn t a).toNat ≤ (unborn s a).toNat
  keeps : ∀ {s i t es}, step s i = some (t, es) → (C s i ↔ forgets s i = [])

variable {step : σ → ι → Option (σ × List (Event α))} {held : σ → List α} {unborn : σ → α → Bool}
  {forgets : σ → ι → List α} {C : σ → ι → Prop} {s₀ s : σ} {is : List ι} {es : List (Event α)}

/-- **Nothing is created twice.** -/
theorem Books.created_le (hb : Books step held unborn forgets C) (h : Run step always s₀ is s es) (a : α) :
    es.count (.create a) + (unborn s a).toNat ≤ 1 := by
  induction h with
  | nil =>
    rw [List.count_nil, Nat.zero_add]
    exact Bool.toNat_le _
  | snoc _ _ hnext ih =>
    have hstep := hb.unborn hnext a
    rw [List.count_append]
    omega

/-- What a run has forgotten, and when that is nothing. -/
theorem Books.forgotten (hb : Books step held unborn forgets C) (h : Run step always s₀ is s es) :
    ∃ lost : List α,
      (∀ a, (held s₀).count a + es.count (.create a) = (held s).count a + es.count (.destroy a) + lost.count a) ∧
      (lost = [] ↔ Run step C s₀ is s es) := by
  induction h with
  | nil => exact ⟨[], fun a => rfl, iff_of_true rfl .nil⟩
  | @snoc is s es i t fs hrun _ hnext ih =>
    obtain ⟨lost, hcount, hlost⟩ := ih
    refine ⟨lost ++ forgets s i, ?_, ?_⟩
    · intro a
      have hstep := hb.balance hnext a
      have hbefore := hcount a
      rw [List.count_append, List.count_append, List.count_append]
      omega
    · rw [List.append_eq_nil_iff, hlost, ← hb.keeps hnext]
      constructor
      · rintro ⟨hkept, hC⟩
        exact hkept.snoc hC hnext
      · intro hkept
        obtain ⟨u, gs, hs, hinit, hC, hnext', -⟩ := hkept.last
        obtain ⟨rfl, rfl⟩ := hinit.det hrun
        exact ⟨hinit, hC⟩

/-- **The exact condition.** -/
theorem Books.settled_iff (hb : Books step held unborn forgets C) (h : Run step always s₀ is s es)
    (hstart : held s₀ = [])
    (hend : held s = []) : Settled es ↔ Run step C s₀ is s es := by
  obtain ⟨lost, hcount, hlost⟩ := hb.forgotten h
  rw [hstart, hend] at hcount
  rw [← hlost]
  constructor
  · intro hset
    refine List.eq_nil_iff_forall_not_mem.mpr (fun a ha => ?_)
    have hpos := List.count_pos_iff.mpr ha
    have hbalance := hcount a
    have hequal := (hset a).2
    rw [List.count_nil] at hbalance
    omega
  · rintro rfl a
    have hbalance := hcount a
    have hle := hb.created_le h a
    rw [List.count_nil] at hbalance
    exact ⟨by omega, by omega⟩

end HiSTB.Lib.Balance
