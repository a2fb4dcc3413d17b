import Mathlib.Data.List.Nodup

/-!
# `Lib.Tally` — counting the entries of a list without duplicates

How a count changes when one entry changes, comes or goes.
-/

namespace HiSTB.Lib

variable {α : Type*} {l : List α} {p q : α → Bool} {a : α}

/-- The tests differ at `a` alone. -/
theorem countP_change (hnd : l.Nodup) (ha : a ∈ l) (h : ∀ c ∈ l, c ≠ a → p c = q c) :
    l.countP p + (q a).toNat = l.countP q + (p a).toNat := by
  classical
  have hperm : l.Perm (a :: l.erase a) := List.perm_cons_erase ha
  have hrest : (l.erase a).countP p = (l.erase a).countP q := by
    refine List.countP_congr (fun c hc => ?_)
    obtain ⟨hne, hmem⟩ := hnd.mem_erase_iff.mp hc
    rw [h c hmem hne]
  rw [hperm.countP_eq p, hperm.countP_eq q, List.countP_cons, List.countP_cons, hrest]
  cases p a <;> cases q a <;> simp

theorem countP_same (h : ∀ c ∈ l, p c = q c) : l.countP p = l.countP q :=
  List.countP_congr (fun c hc => by rw [h c hc])

theorem countP_erase_add [DecidableEq α] (ha : a ∈ l) : (l.erase a).countP p + (p a).toNat = l.countP p := by
  rw [(List.perm_cons_erase ha).countP_eq p, List.countP_cons]
  cases p a <;> simp

theorem count_erase_add [DecidableEq α] (ha : a ∈ l) (c : α) :
    (l.erase a).count c + (decide (a = c)).toNat = l.count c := by
  have herase := countP_erase_add (p := (· == c)) ha
  rwa [beq_eq_decide] at herase

theorem countP_cons_toNat (p : α → Bool) (a : α) (l : List α) :
    (a :: l).countP p = l.countP p + (p a).toNat := by
  rw [List.countP_cons]
  cases p a <;> rfl

end HiSTB.Lib
