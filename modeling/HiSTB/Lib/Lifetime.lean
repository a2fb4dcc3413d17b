import Mathlib.Data.List.Basic
import Mathlib.Tactic.TypeStar

/-!
# `Lib.Lifetime` — objects that are used and freed

A program shows an event for every object it reads or writes and for every object it frees. A list of events
is `Safe` when nothing happens to an object after it was freed: it is neither used nor freed again.

* `Within dead s es t` — between the states `s` and `t` the events `es` concern objects alive in `s`, and
  what they free is dead in `t`;
* `Within.trans` — such pieces compose; `Within.safe` is what they are for;
* `Within.uses`, `Within.access`, `Within.access_free` — the pieces a program is made of.
-/

namespace HiSTB.Lib.Lifetime

variable {α σ : Type*}

/-- What happens to an object. -/
inductive Event (α : Type*)
  | access (a : α)
  | free (a : α)
  deriving DecidableEq

/-- The object of an event. -/
def Event.about : Event α → α
  | .access a => a
  | .free a => a

/-- Does the event free its object? -/
def Event.frees : Event α → Bool
  | .access _ => false
  | .free _ => true

/-- **Nothing happens to an object after it was freed.** -/
def Safe (es : List (Event α)) : Prop :=
  es.Pairwise (fun e f => e.frees = true → f.about ≠ e.about)

instance [DecidableEq α] (es : List (Event α)) : Decidable (Safe es) :=
  inferInstanceAs (Decidable (es.Pairwise _))

/-- Between `s` and `t` the events `es` happen, to objects that are not dead at that time. -/
structure Within (dead : σ → α → Prop) (s : σ) (es : List (Event α)) (t : σ) : Prop where
  alive : ∀ e ∈ es, ¬ dead s e.about
  safe : Safe es
  freed : ∀ e ∈ es, e.frees = true → dead t e.about
  mono : ∀ a, dead s a → dead t a

variable {dead : σ → α → Prop} {s t u : σ} {es fs : List (Event α)}

/-- **One piece after another.** -/
theorem Within.trans (h : Within dead s es t) (h' : Within dead t fs u) : Within dead s (es ++ fs) u := by
  refine ⟨?_, ?_, ?_, fun a ha => h'.mono a (h.mono a ha)⟩
  · intro e he
    rcases List.mem_append.mp he with he | he
    · exact h.alive e he
    · exact fun hdead => h'.alive e he (h.mono _ hdead)
  · refine List.pairwise_append.mpr ⟨h.safe, h'.safe, ?_⟩
    intro e he f hf hfree heq
    have hdead := h.freed e he hfree
    rw [← heq] at hdead
    exact h'.alive f hf hdead
  · intro e he hfree
    rcases List.mem_append.mp he with he | he
    · exact h'.mono _ (h.freed e he hfree)
    · exact h'.freed e he hfree

/-- Objects that are not dead are used. -/
theorem Within.uses {l : List α} (hl : ∀ a ∈ l, ¬ dead s a) (hmono : ∀ b, dead s b → dead t b) :
    Within dead s (l.map .access) t := by
  refine ⟨?_, ?_, ?_, hmono⟩
  · intro e he
    obtain ⟨a, ha, rfl⟩ := List.mem_map.mp he
    exact hl a ha
  · refine List.pairwise_map.mpr (List.pairwise_of_forall ?_)
    intro a b hfree
    cases hfree
  · intro e he hfree
    obtain ⟨a, _, rfl⟩ := List.mem_map.mp he
    cases hfree

theorem Within.access {a : α} (ha : ¬ dead s a) (hmono : ∀ b, dead s b → dead t b) :
    Within dead s [.access a] t :=
  Within.uses (l := [a]) (List.forall_mem_singleton.mpr ha) hmono

/-- An object that is not dead is used and then freed. -/
theorem Within.access_free {a : α} (ha : ¬ dead s a) (hdead : dead t a)
    (hmono : ∀ b, dead s b → dead t b) : Within dead s [.access a, .free a] t := by
  refine ⟨?_, ?_, ?_, hmono⟩
  · intro e he
    have hab : e.about = a := by
      rcases List.mem_pair.mp he with rfl | rfl <;> rfl
    rw [hab]
    exact ha
  · refine List.pairwise_pair.mpr ?_
    intro hfree
    cases hfree
  · intro e he _
    have hab : e.about = a := by
      rcases List.mem_pair.mp he with rfl | rfl <;> rfl
    rw [hab]
    exact hdead

end HiSTB.Lib.Lifetime
