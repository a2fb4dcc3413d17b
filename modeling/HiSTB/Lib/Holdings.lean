import Mathlib.Data.Finset.Basic
import Mathlib.Data.Finset.Lattice.Lemmas
import Mathlib.Data.Finset.Dedup
import Mathlib.Data.List.Nodup

/-!
# `Lib.Holdings` — objects that are created and destroyed, and may be created again

A program shows an event for every object it creates and for every object it destroys. An object that was destroyed may
be created again, as handles and descriptors are.

* `remain S es` — what exists after the events `es` if `S` existed before;
* `Fresh S es` — nothing is created that exists: what a program may rely on;
* `Moves S es T` — besides, nothing is destroyed that does not exist, and `T` is left: so each object is destroyed once
  for each time that it was created, unless it is in `T`;
* `Held es l` — the same from the start, where `l` says who holds what is left: `Held.perm`, `Held.create` and
  `Held.destroy` are the rules for a step.
-/

namespace HiSTB.Lib.Holdings

variable {α : Type*}

/-- An object comes or goes. -/
inductive Event (α : Type*)
  | create (a : α)
  | destroy (a : α)
  deriving DecidableEq

variable [DecidableEq α]

/-- What exists after one event. -/
def Event.apply (S : Finset α) : Event α → Finset α
  | .create a => insert a S
  | .destroy a => S.erase a

/-- What exists after the events. -/
def remain (S : Finset α) (es : List (Event α)) : Finset α := es.foldl Event.apply S

/-- Nothing is created that exists. -/
def Fresh : Finset α → List (Event α) → Prop
  | _, [] => True
  | S, .create a :: es => a ∉ S ∧ Fresh (insert a S) es
  | S, .destroy a :: es => Fresh (S.erase a) es

/-- Nothing is created that exists, nothing is destroyed that does not, and `T` is left. -/
def Moves : Finset α → List (Event α) → Finset α → Prop
  | S, [], T => S = T
  | S, .create a :: es, T => a ∉ S ∧ Moves (insert a S) es T
  | S, .destroy a :: es, T => a ∈ S ∧ Moves (S.erase a) es T

variable {S T U : Finset α} {es fs : List (Event α)} {l : List α}

instance decidableFresh : (S : Finset α) → (es : List (Event α)) → Decidable (Fresh S es)
  | _, [] => isTrue trivial
  | S, .create a :: es =>
    haveI := decidableFresh (insert a S) es
    inferInstanceAs (Decidable (_ ∧ _))
  | S, .destroy a :: es => decidableFresh (S.erase a) es

theorem fresh_append : Fresh S (es ++ fs) ↔ Fresh S es ∧ Fresh (remain S es) fs := by
  induction es generalizing S with
  | nil => simp [Fresh, remain]
  | cons e es ih =>
    cases e with
    | create a =>
      rw [List.cons_append, Fresh, ih, Fresh, and_assoc]
      rfl
    | destroy a =>
      rw [List.cons_append, Fresh, ih, Fresh]
      rfl

/-- What is left is what the events say. -/
theorem Moves.remain_eq (h : Moves S es T) : remain S es = T := by
  induction es generalizing S with
  | nil => exact h
  | cons e es ih =>
    cases e with
    | create a => exact ih h.2
    | destroy a => exact ih h.2

/-- **One piece after another.** -/
theorem Moves.trans (h : Moves S es T) (h' : Moves T fs U) : Moves S (es ++ fs) U := by
  induction es generalizing S with
  | nil =>
    obtain rfl : S = T := h
    exact h'
  | cons e es ih =>
    cases e with
    | create a => exact ⟨h.1, ih h.2⟩
    | destroy a => exact ⟨h.1, ih h.2⟩

theorem Moves.nil (S : Finset α) : Moves S [] S := rfl

/-- Objects are created, each new. -/
theorem Fresh.creates (h : Fresh S (l.map .create)) :
    l.Nodup ∧ (∀ a ∈ l, a ∉ S) ∧ Moves S (l.map .create) (S ∪ l.toFinset) := by
  induction l generalizing S with
  | nil =>
    refine ⟨List.nodup_nil, ?_, ?_⟩
    · intro a ha
      cases ha
    · show S = S ∪ ∅
      rw [Finset.union_empty]
  | cons a l ih =>
    obtain ⟨ha, hl⟩ := h
    obtain ⟨hnd, hnew, hmoves⟩ := ih hl
    have hnot : a ∉ l := fun hmem => hnew a hmem (Finset.mem_insert_self a S)
    refine ⟨List.nodup_cons.mpr ⟨hnot, hnd⟩, ?_, ha, ?_⟩
    · intro b hb
      rcases List.mem_cons.mp hb with rfl | hb
      · exact ha
      · exact fun hmem => hnew b hb (Finset.mem_insert_of_mem hmem)
    · rwa [List.toFinset_cons, Finset.union_insert, ← Finset.insert_union]

/-- Objects that exist are destroyed, each once. -/
theorem Moves.destroys (hnd : l.Nodup) (hl : ∀ a ∈ l, a ∈ S) : Moves S (l.map .destroy) (S \ l.toFinset) := by
  induction l generalizing S with
  | nil =>
    show S = S \ ∅
    rw [Finset.sdiff_empty]
  | cons a l ih =>
    obtain ⟨hnot, hnd⟩ := List.nodup_cons.mp hnd
    refine ⟨hl a List.mem_cons_self, ?_⟩
    have hrest : ∀ b ∈ l, b ∈ S.erase a := by
      intro b hb
      have hne : b ≠ a := fun heq => hnot (heq ▸ hb)
      exact Finset.mem_erase.mpr ⟨hne, hl b (List.mem_cons_of_mem a hb)⟩
    have heq : S \ (a :: l).toFinset = S.erase a \ l.toFinset := by
      ext b
      simp only [Finset.mem_sdiff, Finset.mem_erase, List.toFinset_cons, Finset.mem_insert, not_or]
      tauto
    rw [heq]
    exact ih hnd hrest

/-- Objects are created beside one that exists. -/
theorem Fresh.creates_beside {a : α} (h : Fresh {a} (l.map .create)) :
    (a :: l).Nodup ∧ Moves {a} (l.map .create) (a :: l).toFinset := by
  obtain ⟨hnd, hnew, hmoves⟩ := h.creates
  refine ⟨List.nodup_cons.mpr ⟨fun hmem => hnew a hmem (Finset.mem_singleton_self a), hnd⟩, ?_⟩
  rw [List.toFinset_cons, Finset.insert_eq]
  exact hmoves

/-- All objects but one are destroyed. -/
theorem Moves.destroys_beside {a : α} (hnd : (a :: l).Nodup) : Moves (a :: l).toFinset (l.map .destroy) {a} := by
  obtain ⟨hnot, hl⟩ := List.nodup_cons.mp hnd
  have hmoves := Moves.destroys hl (fun b hb => List.mem_toFinset.mpr (List.mem_cons_of_mem a hb))
  have hleft : (a :: l).toFinset \ l.toFinset = {a} := by
    rw [List.toFinset_cons, Finset.insert_sdiff_of_notMem _ (fun hmem => hnot (List.mem_toFinset.mp hmem)),
      Finset.sdiff_self]
    rfl
  rwa [hleft] at hmoves

/-! ## Who holds what -/

/-- After the events, these objects exist, each in one hand, and the others were destroyed once for each time that they
    were created. -/
def Held (es : List (Event α)) (l : List α) : Prop := l.Nodup ∧ Moves ∅ es l.toFinset

theorem Held.nil : Held [] ([] : List α) := ⟨List.nodup_nil, rfl⟩

theorem Held.perm {l' : List α} (h : Held es l) (hp : l.Perm l') : Held es l' := by
  refine ⟨hp.nodup_iff.mp h.1, ?_⟩
  rw [← List.toFinset_eq_of_perm _ _ hp]
  exact h.2

theorem Held.create {a : α} (h : Held es l) (hfresh : Fresh ∅ (es ++ [.create a])) :
    Held (es ++ [.create a]) (a :: l) := by
  have hnew : a ∉ l.toFinset := by
    have hlast := (fresh_append.mp hfresh).2
    rw [h.2.remain_eq] at hlast
    exact hlast.1
  refine ⟨List.nodup_cons.mpr ⟨fun hmem => hnew (List.mem_toFinset.mpr hmem), h.1⟩, h.2.trans ⟨hnew, ?_⟩⟩
  rw [List.toFinset_cons]
  rfl

theorem Held.destroy {a : α} (h : Held es (a :: l)) : Held (es ++ [.destroy a]) l := by
  obtain ⟨hnot, hl⟩ := List.nodup_cons.mp h.1
  refine ⟨hl, h.2.trans ⟨List.mem_toFinset.mpr List.mem_cons_self, ?_⟩⟩
  rw [List.toFinset_cons, Finset.erase_insert (fun hmem => hnot (List.mem_toFinset.mp hmem))]
  rfl

end HiSTB.Lib.Holdings
