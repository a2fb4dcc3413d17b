import Mathlib.Data.Set.Defs

/-!
# `Lib.Reading` — programs that read an array, and where

A program is a tree: it gives its result, or reads a place of the array and goes on with what stands there. So the
places that a run reads are part of the program, and its result depends on nothing else of the array.
-/

namespace HiSTB.Lib

/-- A program over an array of `β` with indices `ι`. -/
inductive Reading (ι β α : Type)
  | done (a : α)
  | read (i : ι) (k : β → Reading ι β α)

namespace Reading

variable {ι β α γ : Type}

def bind (p : Reading ι β α) (f : α → Reading ι β γ) : Reading ι β γ :=
  match p with
  | done a => f a
  | read i k => read i (fun b => (k b).bind f)

instance : Monad (Reading ι β) where
  pure := done
  bind := bind

/-- Reads one place. -/
def get (i : ι) : Reading ι β β := read i done

/-- The result on an array. -/
def result (m : ι → β) : Reading ι β α → α
  | done a => a
  | read i k => (k (m i)).result m

/-- The places that are read on an array, in order. -/
def places (m : ι → β) : Reading ι β α → List ι
  | done _ => []
  | read i k => i :: (k (m i)).places m

variable {m : ι → β}

@[simp] theorem result_pure (a : α) : result m (pure a) = a := rfl

@[simp] theorem places_pure (a : α) : places m (pure a : Reading ι β α) = [] := rfl

@[simp] theorem result_get (i : ι) : result m (get i) = m i := rfl

@[simp] theorem places_get (i : ι) : places m (get i : Reading ι β β) = [i] := rfl

/-- One program behind the other: the second goes on with the result of the first. -/
@[simp] theorem result_bind (p : Reading ι β α) (f : α → Reading ι β γ) :
    result m (p >>= f) = result m (f (result m p)) := by
  show result m (p.bind f) = _
  induction p with
  | done a => rfl
  | read i k ih => exact ih (m i)

/-- The places of both are read, in order. -/
@[simp] theorem places_bind (p : Reading ι β α) (f : α → Reading ι β γ) :
    places m (p >>= f) = places m p ++ places m (f (result m p)) := by
  show places m (p.bind f) = _
  induction p with
  | done a => rfl
  | read i k ih => exact congrArg (i :: ·) (ih (m i))

theorem result_get_bind (i : ι) (f : β → Reading ι β α) : result m (get i >>= f) = result m (f (m i)) := rfl

/-- All places that are read are in a set. -/
def Within (m : ι → β) (p : Reading ι β α) (s : Set ι) : Prop := ∀ i ∈ p.places m, i ∈ s

variable {s : Set ι}

@[simp] theorem within_pure (a : α) : Within m (pure a : Reading ι β α) s := fun _ hi => nomatch hi

@[simp] theorem within_get (i : ι) : Within m (get i : Reading ι β β) s ↔ i ∈ s := List.forall_mem_singleton

/-- The rule for one program behind the other. -/
@[simp] theorem within_bind (p : Reading ι β α) (f : α → Reading ι β γ) :
    Within m (p >>= f) s ↔ Within m p s ∧ Within m (f (result m p)) s := by
  unfold Within
  rw [places_bind]
  exact List.forall_mem_append

/-- The rule for a read in front. -/
@[simp] theorem within_get_bind (i : ι) (f : β → Reading ι β α) :
    Within m (get i >>= f) s ↔ i ∈ s ∧ Within m (f (m i)) s := by
  rw [within_bind, within_get, result_get]

/-- The rule for a branch. -/
theorem within_ite {c : Prop} [Decidable c] {p q : Reading ι β α} :
    Within m (if c then p else q) s ↔ (c → Within m p s) ∧ (¬ c → Within m q s) := by
  split
  · rename_i hc
    exact ⟨fun h => ⟨fun _ => h, fun hn => absurd hc hn⟩, fun h => h.1 hc⟩
  · rename_i hc
    exact ⟨fun h => ⟨fun hp => absurd hp hc, fun _ => h⟩, fun h => h.2 hc⟩

/-! ## Chains of tests -/

/-- A chain of tests gives what the tests give. -/
@[simp] theorem result_allM (p : γ → Reading ι β Bool) (l : List γ) :
    result m (l.allM p) = l.all (fun c => result m (p c)) := by
  induction l with
  | nil => rfl
  | cons c l ih =>
    rw [List.allM, result_bind, List.all_cons]
    cases hc : result m (p c) with
    | true => exact ih
    | false => rfl

@[simp] theorem result_anyM (p : γ → Reading ι β Bool) (l : List γ) :
    result m (l.anyM p) = l.any (fun c => result m (p c)) := by
  induction l with
  | nil => rfl
  | cons c l ih =>
    rw [List.anyM, result_bind, List.any_cons]
    cases hc : result m (p c) with
    | true => rfl
    | false => exact ih

/-- A chain of tests reads no other places than its tests. -/
theorem within_allM {p : γ → Reading ι β Bool} {l : List γ} (h : ∀ c ∈ l, Within m (p c) s) :
    Within m (l.allM p) s := by
  induction l with
  | nil => exact within_pure true
  | cons c l ih =>
    obtain ⟨hc, hl⟩ := List.forall_mem_cons.mp h
    rw [List.allM, within_bind]
    refine ⟨hc, ?_⟩
    cases result m (p c) with
    | true => exact ih hl
    | false => exact within_pure false

/-- A chain of tests, the first of which holds, goes no further. -/
theorem within_anyM_cons (p : γ → Reading ι β Bool) (c : γ) (l : List γ) :
    Within m ((c :: l).anyM p) s ↔ Within m (p c) s ∧ (result m (p c) = false → Within m (l.anyM p) s) := by
  rw [List.anyM, within_bind]
  refine and_congr_right fun _ => ?_
  cases result m (p c) with
  | true => exact iff_of_true (within_pure true) Bool.noConfusion
  | false => exact ⟨fun h _ => h, fun h => h rfl⟩

end Reading

end HiSTB.Lib
