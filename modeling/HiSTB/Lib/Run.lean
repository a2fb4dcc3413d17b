import Mathlib.Data.List.Induction

/-!
# `Lib.Run` — runs of a machine that takes inputs and shows effects

A machine is a step function `σ → ι → Option (σ × List ε)`: from a state and an input to the next state and
the effects shown on the way, or `none` where the process ends. `Run step C s₀ is s es` says that the inputs
`is` lead from `s₀` to `s`, that every step on the way met the condition `C`, and that `es` are the effects.

* `Run.inv`, `Run.inv_effects` — the invariant rule, also about the effects shown so far;
* `Run.effects` — a property of every effect of a run, from what one step shows;
* `Run.total` — a machine whose steps always return while an invariant holds runs on every input;
* `Run.mono`, `Run.append` — a weaker condition on the steps allows more runs; two runs in a row;
* `Run.erase` — a run without the inputs that only look at the state;
* `Run.det`, `Run.of_prefix` — the inputs determine the run; the first part of a run is a run;
* `Run.iff_along` — the exact condition under which a property holds all along a run;
* `exec` / `exists_run_of_exec`, `exists_run_imp`, `exists_run_of_decide` — runs by evaluation, for concrete inputs.
-/

namespace HiSTB.Lib

/-- Short cut for the membership tests of lists of addresses. -/
instance lawfulBEqWord : LawfulBEq (BitVec 32) := inferInstance

variable {σ ι ε : Type*}

/-- Runs from `s₀` whose steps all meet `C`. -/
inductive Run (step : σ → ι → Option (σ × List ε)) (C : σ → ι → Prop) (s₀ : σ) :
    List ι → σ → List ε → Prop
  | nil : Run step C s₀ [] s₀ []
  | snoc {is : List ι} {s : σ} {es : List ε} {i : ι} {t : σ} {fs : List ε}
      (run : Run step C s₀ is s es) (cond : C s i) (next : step s i = some (t, fs)) :
      Run step C s₀ (is ++ [i]) t (es ++ fs)

/-- The condition every step meets. -/
def always (_ : σ) (_ : ι) : Prop := True

variable {step : σ → ι → Option (σ × List ε)} {C : σ → ι → Prop} {s₀ : σ}

/-- **Invariant rule with effects.** The invariant may speak about the inputs taken and the effects shown so
    far. -/
theorem Run.inv_effects (P : List ι → σ → List ε → Prop) (h0 : P [] s₀ [])
    (hstep : ∀ is s es i t fs, P is s es → C s i → step s i = some (t, fs) → P (is ++ [i]) t (es ++ fs))
    {is : List ι} {s : σ} {es : List ε} (h : Run step C s₀ is s es) : P is s es := by
  induction h with
  | nil => exact h0
  | snoc _ hC hnext ih => exact hstep _ _ _ _ _ _ ih hC hnext

/-- **Invariant rule.** What holds at the start and is carried by every step holds in every state reached;
    the invariant may speak about the inputs taken so far. -/
theorem Run.inv (P : List ι → σ → Prop) (h0 : P [] s₀)
    (hstep : ∀ is s i t fs, P is s → C s i → step s i = some (t, fs) → P (is ++ [i]) t)
    {is : List ι} {s : σ} {es : List ε} (h : Run step C s₀ is s es) : P is s :=
  Run.inv_effects (fun is s _ => P is s) h0 (fun is s _ i t fs => hstep is s i t fs) h

/-- **Effect rule.** Under an invariant, what every step's effects satisfy all effects of a run satisfy;
    the property may speak about the inputs, but must survive further ones. -/
theorem Run.effects {P : List ι → σ → Prop} (Q : List ι → ε → Prop)
    (hP : ∀ {is s es}, Run step C s₀ is s es → P is s)
    (hmono : ∀ is i e, Q is e → Q (is ++ [i]) e)
    (hstep : ∀ is s i t fs, P is s → C s i → step s i = some (t, fs) → ∀ e ∈ fs, Q (is ++ [i]) e)
    {is : List ι} {s : σ} {es : List ε} (h : Run step C s₀ is s es) : ∀ e ∈ es, Q is e := by
  induction h with
  | nil => exact fun e he => absurd he List.not_mem_nil
  | snoc hrun hC hnext ih =>
    intro e he
    rcases List.mem_append.mp he with he | he
    · exact hmono _ _ _ (ih e he)
    · exact hstep _ _ _ _ _ (hP hrun) hC hnext e he

/-- **Total machines.** Where the invariant makes every step return and keep it, every list of inputs has its
    run, and the invariant holds at its end. -/
theorem Run.total (P : List ι → σ → List ε → Prop) (h0 : P [] s₀ [])
    (hstep : ∀ is s es i, P is s es → C s i ∧ ∃ t fs, step s i = some (t, fs) ∧ P (is ++ [i]) t (es ++ fs))
    (is : List ι) : ∃ s es, Run step C s₀ is s es ∧ P is s es := by
  induction is using List.reverseRecOn with
  | nil => exact ⟨s₀, [], .nil, h0⟩
  | append_singleton is i ih =>
    obtain ⟨s, es, hrun, hP⟩ := ih
    obtain ⟨hC, t, fs, hnext, hQ⟩ := hstep is s es i hP
    exact ⟨t, es ++ fs, hrun.snoc hC hnext, hQ⟩

theorem Run.mono {D : σ → ι → Prop} (hCD : ∀ s i, C s i → D s i) {is : List ι} {s : σ} {es : List ε}
    (h : Run step C s₀ is s es) : Run step D s₀ is s es := by
  induction h with
  | nil => exact .nil
  | snoc _ hC hnext ih => exact ih.snoc (hCD _ _ hC) hnext

/-- Two runs in a row. -/
theorem Run.append {is js : List ι} {s t : σ} {es fs : List ε} (h : Run step C s₀ is s es)
    (h' : Run step C s js t fs) : Run step C s₀ (is ++ js) t (es ++ fs) := by
  induction h' with
  | nil => rwa [List.append_nil, List.append_nil]
  | snoc _ hC hnext ih =>
    have hrun := ih.snoc hC hnext
    rwa [List.append_assoc, List.append_assoc] at hrun

/-- **Inputs that only look.** Where, under an invariant, each step is one of `step'`, or shows nothing to it and leaves
    the state alone, what is left of a run is a run of `step'` to the same state. -/
theorem Run.erase {ι' ε' : Type*} {step' : σ → ι' → Option (σ × List ε')} {P : σ → Prop} (call : ι → Option ι')
    (seen : ε → Option ε') (hP : ∀ {is s es}, Run step C s₀ is s es → P s)
    (hstep : ∀ s i t fs, P s → C s i → step s i = some (t, fs) →
      (∃ i', call i = some i' ∧ step' s i' = some (t, fs.filterMap seen)) ∨
      call i = none ∧ t = s ∧ fs.filterMap seen = [])
    {is : List ι} {s : σ} {es : List ε} (h : Run step C s₀ is s es) :
    Run step' always s₀ (is.filterMap call) s (es.filterMap seen) := by
  induction h with
  | nil => exact .nil
  | @snoc is s es i t fs hrun hC hnext ih =>
    rw [List.filterMap_append, List.filterMap_append]
    rcases hstep s i t fs (hP hrun) hC hnext with ⟨i', hi, hnext'⟩ | ⟨hi, rfl, hfs⟩
    · have hone : [i].filterMap call = [i'] := by simp [hi]
      rw [hone]
      exact ih.snoc trivial hnext'
    · have hnone : [i].filterMap call = [] := by simp [hi]
      rw [hnone, hfs, List.append_nil, List.append_nil]
      exact ih

/-- The last step of a run. -/
theorem Run.last {is : List ι} {i : ι} {t : σ} {gs : List ε} (h : Run step C s₀ (is ++ [i]) t gs) :
    ∃ s es fs, Run step C s₀ is s es ∧ C s i ∧ step s i = some (t, fs) ∧ gs = es ++ fs := by
  generalize hl : is ++ [i] = l at h
  cases h with
  | nil => simp at hl
  | snoc hrun hC hnext =>
    obtain ⟨rfl, hi⟩ := List.append_inj' hl rfl
    obtain rfl := List.head_eq_of_cons_eq hi
    exact ⟨_, _, _, hrun, hC, hnext, rfl⟩

/-- The inputs determine where a run ends and what it shows. -/
theorem Run.det {D : σ → ι → Prop} {is : List ι} {s t : σ} {es fs : List ε} (h : Run step C s₀ is s es)
    (h' : Run step D s₀ is t fs) : s = t ∧ es = fs := by
  induction h generalizing t fs with
  | nil =>
    generalize hl : ([] : List ι) = l at h'
    cases h' with
    | nil => exact ⟨rfl, rfl⟩
    | snoc _ _ _ => simp at hl
  | snoc _ _ hnext ih =>
    obtain ⟨u, gs, hs, hrun, _, hnext', rfl⟩ := h'.last
    obtain ⟨rfl, rfl⟩ := ih hrun
    obtain ⟨rfl, rfl⟩ := Prod.mk.inj (Option.some.inj (hnext.symm.trans hnext'))
    exact ⟨rfl, rfl⟩

/-- The first part of a run is a run. -/
theorem Run.of_prefix {is js : List ι} {s : σ} {es : List ε} (h : Run step C s₀ is s es) (hjs : js <+: is) :
    ∃ t fs, Run step C s₀ js t fs := by
  induction h with
  | nil =>
    obtain rfl := List.prefix_nil.mp hjs
    exact ⟨s₀, [], .nil⟩
  | snoc hrun hC hnext ih =>
    rcases List.prefix_concat_iff.mp hjs with rfl | hjs
    · exact ⟨_, _, hrun.snoc hC hnext⟩
    · exact ih hjs

/-- **Exact conditions.** Where runs that meet `C` keep `P`, and the first step that does not meet it breaks `P`, a run
    keeps `P` all along if and only if all its steps meet `C`. -/
theorem Run.iff_along {P : List ι → σ → List ε → Prop}
    (hgood : ∀ {is s es}, Run step C s₀ is s es → P is s es)
    (hbad : ∀ {is s es} i t fs, Run step C s₀ is s es → ¬ C s i → step s i = some (t, fs) →
      ¬ P (is ++ [i]) t (es ++ fs))
    {is : List ι} {s : σ} {es : List ε} (h : Run step always s₀ is s es) :
    (∀ js t fs, js <+: is → Run step always s₀ js t fs → P js t fs) ↔ Run step C s₀ is s es := by
  constructor
  · intro hP
    induction h with
    | nil => exact .nil
    | @snoc is s es i t fs hrun _ hnext ih =>
      have hs := ih (fun js u gs hjs => hP js u gs (hjs.trans (List.prefix_append _ _)))
      by_cases hC : C s i
      · exact hs.snoc hC hnext
      · exact absurd (hP _ _ _ (List.prefix_refl _) (hrun.snoc trivial hnext)) (hbad i t fs hs hC hnext)
  · intro hs js t fs hjs hrun
    obtain ⟨u, gs, hu⟩ := hs.of_prefix hjs
    obtain ⟨rfl, rfl⟩ := hu.det hrun
    exact hgood hu

/-- The run over a list of inputs, by evaluation; `none` also where a step does not meet the condition. -/
def exec (step : σ → ι → Option (σ × List ε)) (C : σ → ι → Prop) [∀ s i, Decidable (C s i)] :
    σ → List ι → Option (σ × List ε)
  | s, [] => some (s, [])
  | s, i :: is =>
    if C s i then (step s i).bind (fun r => (exec step C r.1 is).map (fun q => (q.1, r.2 ++ q.2)))
    else none

instance (s : σ) (i : ι) : Decidable (always s i) := isTrue trivial

/-- **Runs by evaluation.** -/
theorem run_of_exec [∀ s i, Decidable (C s i)] {is : List ι} {t : σ} {es : List ε}
    (hex : exec step C s₀ is = some (t, es)) : Run step C s₀ is t es := by
  induction is generalizing s₀ es with
  | nil =>
    rw [exec, Option.some.injEq, Prod.mk.injEq] at hex
    obtain ⟨rfl, rfl⟩ := hex
    exact .nil
  | cons i is ih =>
    rw [exec] at hex
    split at hex
    · rename_i hC
      rw [Option.bind_eq_some_iff] at hex
      obtain ⟨⟨u, gs⟩, hu, hrest⟩ := hex
      rw [Option.map_eq_some_iff] at hrest
      obtain ⟨⟨v, hs⟩, hv, heq⟩ := hrest
      obtain ⟨rfl, rfl⟩ := Prod.mk.inj heq
      have hfirst : Run step C s₀ [i] u gs := Run.nil.snoc hC hu
      exact hfirst.append (ih hv)
    · cases hex

/-- A run by evaluation whose outcome passes a test. -/
theorem exists_run_of_exec (step : σ → ι → Option (σ × List ε)) (C : σ → ι → Prop)
    [∀ s i, Decidable (C s i)] (s₀ : σ) (is : List ι) (test : σ × List ε → Bool)
    (hex : (exec step C s₀ is).any test = true) :
    ∃ t es, Run step C s₀ is t es ∧ test (t, es) = true := by
  rw [Option.any_eq_true] at hex
  obtain ⟨⟨t, es⟩, hr, ht⟩ := hex
  exact ⟨t, es, run_of_exec hr, ht⟩

section

variable [∀ s i, Decidable (C s i)] {is : List ι} {P : σ → List ε → Prop}

/-- What holds at the end of a run that can be evaluated gives what is to be shown. -/
theorem exists_run_imp (Q : σ → List ε → Prop) [∀ s es, Decidable (Q s es)]
    (hex : (exec step C s₀ is).any (fun r => decide (Q r.1 r.2)) = true)
    (h : ∀ s es, Run step C s₀ is s es → Q s es → P s es) : ∃ s es, Run step C s₀ is s es ∧ P s es := by
  obtain ⟨s, es, hrun, htest⟩ := exists_run_of_exec step C s₀ is _ hex
  exact ⟨s, es, hrun, h s es hrun (of_decide_eq_true htest)⟩

/-- What can be evaluated at the end of a run. -/
theorem exists_run_of_decide [∀ s es, Decidable (P s es)]
    (hex : (exec step C s₀ is).any (fun r => decide (P r.1 r.2)) = true) : ∃ s es, Run step C s₀ is s es ∧ P s es :=
  exists_run_imp P hex fun _ _ _ h => h

end

end HiSTB.Lib
