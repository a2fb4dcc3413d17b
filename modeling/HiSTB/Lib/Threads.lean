import HiSTB.Lib.Run
import Mathlib.Data.List.Perm.Basic

/-!
# `Lib.Threads` — calls that run interleaved on a shared state

A call is a chain of atomic parts: critical sections, and the code between them. `Machine.start` begins a call,
`Machine.next` runs one part of it; both say where the call goes on, if it does. The scheduler is an input of
the system: an `Act` begins a call, or lets one of the calls in progress run its next part.

* `Machine.run_inv` — the invariant rule. The invariant speaks about the shared state, the calls in progress in
  any order, and the effects; a part is shown to keep it with its own call taken out of the others;
* `Machine.run_inv_of` — the same rule where the condition on an act looks at all calls in progress;
* `Machine.enabled` — where no part gets stuck, no call in progress does.
-/

namespace HiSTB.Lib

variable {σ κ π ε : Type*}

/-- The shared state, and where each call in progress goes on. -/
structure Threads (σ π : Type*) where
  shared : σ
  pcs : List π

/-- What the scheduler does: begin a call, or run the next part of the `n`-th call in progress. -/
inductive Act (κ : Type*)
  | call (c : κ)
  | sched (n : Nat)
  deriving DecidableEq

/-- The parts of the calls. -/
structure Machine (σ κ π ε : Type*) where
  start : σ → κ → Option (σ × List π × List ε)
  next : σ → π → Option (σ × List π × List ε)

namespace Machine

variable (M : Machine σ κ π ε)

/-- One act of the scheduler. -/
def step (s : Threads σ π) : Act κ → Option (Threads σ π × List ε)
  | .call c => (M.start s.shared c).map (fun r => (⟨r.1, r.2.1 ++ s.pcs⟩, r.2.2))
  | .sched n =>
    (s.pcs[n]?).bind (fun pc =>
      (M.next s.shared pc).map (fun r => (⟨r.1, r.2.1 ++ s.pcs.eraseIdx n⟩, r.2.2)))

/-- Conditions on calls and on parts, as a condition on acts. -/
def cond (C : σ → κ → Prop) (D : σ → π → Prop) (s : Threads σ π) : Act κ → Prop
  | .call c => C s.shared c
  | .sched n => ∀ pc, s.pcs[n]? = some pc → D s.shared pc

instance {C : σ → κ → Prop} {D : σ → π → Prop} [∀ s c, Decidable (C s c)] [∀ s pc, Decidable (D s pc)]
    (s : Threads σ π) : (a : Act κ) → Decidable (cond C D s a)
  | .call c => inferInstanceAs (Decidable (C s.shared c))
  | .sched n =>
    match h : s.pcs[n]? with
    | none => isTrue (fun pc hpc => by rw [h] at hpc; cases hpc)
    | some pc => decidable_of_iff (D s.shared pc) (by simp [cond, h])

variable {M} {C : σ → κ → Prop} {D : σ → π → Prop}

theorem perm_of_getElem? {pcs : List π} {n : Nat} {pc : π} (h : pcs[n]? = some pc) :
    (pc :: pcs.eraseIdx n).Perm pcs := by
  obtain ⟨hlt, rfl⟩ := List.getElem?_eq_some_iff.mp h
  exact List.getElem_cons_eraseIdx_perm hlt

/-- **Invariant rule**, with a condition on acts that may look at all calls in progress. -/
theorem run_inv_of {E : Threads σ π → Act κ → Prop} (P : σ → List π → List ε → Prop)
    (hperm : ∀ {s pcs pcs' es}, pcs.Perm pcs' → P s pcs es → P s pcs' es)
    {s₀ : σ} (h0 : P s₀ [] [])
    (hcall : ∀ s pcs es c t new fs, P s pcs es → E ⟨s, pcs⟩ (.call c) → M.start s c = some (t, new, fs) →
      P t (new ++ pcs) (es ++ fs))
    (hnext : ∀ s n pc pcs es t new fs, P s (pc :: pcs.eraseIdx n) es → pcs[n]? = some pc →
      E ⟨s, pcs⟩ (.sched n) → M.next s pc = some (t, new, fs) → P t (new ++ pcs.eraseIdx n) (es ++ fs))
    {is : List (Act κ)} {s : Threads σ π} {es : List ε}
    (h : Run M.step E ⟨s₀, []⟩ is s es) : P s.shared s.pcs es := by
  refine Run.inv_effects (fun _ s es => P s.shared s.pcs es) h0 ?_ h
  intro _ s es a t fs hP hC hstep
  cases a with
  | call c =>
    obtain ⟨⟨u, new, gs⟩, hu, heq⟩ := Option.map_eq_some_iff.mp hstep
    cases heq
    exact hcall _ _ _ _ _ _ _ hP hC hu
  | sched n =>
    obtain ⟨pc, hpc, hrest⟩ := Option.bind_eq_some_iff.mp hstep
    obtain ⟨⟨u, new, gs⟩, hu, heq⟩ := Option.map_eq_some_iff.mp hrest
    cases heq
    exact hnext _ _ _ _ _ _ _ _ (hperm (perm_of_getElem? hpc).symm hP) hpc hC hu

/-- **Invariant rule.** -/
theorem run_inv (P : σ → List π → List ε → Prop)
    (hperm : ∀ {s pcs pcs' es}, pcs.Perm pcs' → P s pcs es → P s pcs' es)
    {s₀ : σ} (h0 : P s₀ [] [])
    (hcall : ∀ s pcs es c t new fs, P s pcs es → C s c → M.start s c = some (t, new, fs) → P t (new ++ pcs) (es ++ fs))
    (hnext : ∀ s pc pcs es t new fs, P s (pc :: pcs) es → D s pc → M.next s pc = some (t, new, fs) →
      P t (new ++ pcs) (es ++ fs))
    {is : List (Act κ)} {s : Threads σ π} {es : List ε}
    (h : Run M.step (cond C D) ⟨s₀, []⟩ is s es) : P s.shared s.pcs es :=
  run_inv_of P hperm h0 hcall
    (fun s _ pc pcs es t new fs hP hpc hD => hnext s pc (pcs.eraseIdx _) es t new fs hP (hD pc hpc)) h

/-- **No call gets stuck.** -/
theorem enabled {s : Threads σ π} (h : ∀ pc ∈ s.pcs, ∃ r, M.next s.shared pc = some r) {n : Nat}
    (hn : n < s.pcs.length) : ∃ t es, M.step s (.sched n) = some (t, es) := by
  obtain ⟨r, hr⟩ := h s.pcs[n] (List.getElem_mem hn)
  refine ⟨⟨r.1, r.2.1 ++ s.pcs.eraseIdx n⟩, r.2.2, ?_⟩
  rw [step, List.getElem?_eq_getElem hn, Option.bind_some, hr, Option.map_some]

end Machine
end HiSTB.Lib
