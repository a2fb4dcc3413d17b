import HiSTB.Tde.Correctness.Calls

/-!
# `Tde.Correctness.Lifetime` — no job is touched after it was freed

* `step_own` — one step of the machine, under the condition `Orderly`;
* `run_lifetime` — whole runs: no job is touched after it was freed, or freed twice;
* `run_lifetime_broken` — a run where a submitter is overtaken by a thread that waits for its job.
-/

namespace HiSTB.Tde

open Lib Lifetime OsiList

variable {s : OsiList} {T : List Pc}

variable {es : List (Event Nat)}

/-! ## The machine -/

theorem quiet_mono {T' : List Pc} {l : List Nat} (hsub : T'.Sublist T) (hq : quiet s T l = true) :
    quiet s T' l = true := by
  refine List.all_eq_true.mpr (fun j hj => ?_)
  have hqj := List.all_eq_true.mp hq j hj
  rw [Bool.or_eq_true] at hqj ⊢
  refine hqj.imp_right (fun hn => noneAt_iff.mpr (fun pc hpc => ?_))
  exact noneAt_iff.mp hn pc (hsub.subset hpc)

/-- **Step lemma.** -/
theorem step_own {s t : St} {i : Input} (hi : Inv s.osi (lockers s.threads))
    (h : Own s.osi s.threads) (hC : Orderly s i) (hstep : step s i = some (t, es)) :
    Own t.osi t.threads ∧ Within OsiList.Dead s.osi es t.osi := by
  obtain ⟨hfin, hover⟩ := hC
  unfold notOvertaken at hover
  rw [Bool.and_eq_true] at hover
  obtain ⟨hremoves, hcase⟩ := hover
  have hquiet : ∀ finished ∈ removesUpTo s i,
      quiet s.osi s.threads (removed s.osi finished s.osi.list) = true := by
    intro finished hmem
    rw [Option.mem_def] at hmem
    rw [hmem] at hremoves
    exact hremoves
  obtain ⟨done, pend, hs⟩ := hi.split
  have hb := hi.base
  unfold step at hstep
  obtain ⟨⟨r, T⟩, hregion, hrt⟩ := Option.map_eq_some_iff.mp hstep
  obtain ⟨rfl, rfl⟩ := Prod.mk.inj hrt
  suffices hr : RegionOk s.osi T r from ⟨hr.own, hr.within⟩
  cases i with
  | beginJob g =>
    rw [region] at hregion
    split at hregion
    · rename_i hg
      cases hregion
      exact beginJob_own hb h (Option.isNone_iff_eq_none.mp hg)
    · cases hregion
  | setNodeFinish g phyBuff =>
    cases hregion
    exact setNodeFinish_own hb h g phyBuff
  | cancelJob g =>
    cases hregion
    exact cancelJob_own hb h g
  | submitJob g block cb few fence =>
    cases hregion
    exact submitJob_own hb h g block cb few fence
  | waitForDone g timed =>
    cases hregion
    refine waitForDone_own hb h g timed ?_
    intro k hk hsub
    simpa [hk, hsub] using hcase
  | nodeComp idle cur env =>
    cases hregion
    exact nodeComp_own hb hs h hfin hquiet
  | compProc ok =>
    cases hregion
    exact compProc_own hs h ok
  | reset =>
    cases hregion
    exact ⟨(resetLoop_own hb h rfl hcase).1, (resetLoop_own hb h rfl hcase).2⟩
  | resume n env =>
    obtain ⟨pc, hpc, heq⟩ := Option.map_eq_some_iff.mp hregion
    obtain ⟨rfl, rfl⟩ := Prod.mk.inj heq
    obtain ⟨hn, hget⟩ := List.getElem?_eq_some_iff.mp hpc
    have hperm := (List.getElem_cons_eraseIdx_perm hn).symm
    rw [hget] at hperm
    have hleaves : leavesAlone s.osi (s.threads.eraseIdx n) pc = true := by simpa [hpc] using hcase
    refine resumePc_own (hi.mono (fun k => Nat.le_of_eq (lockers_eraseIdx hpc k).symm)) (h.perm hperm)
      hleaves ?_
    rintro j kind work finished del rfl hdel
    have hmem : finished ∈ removesUpTo s (.resume n env) := by
      simp only [removesUpTo, hpc, if_neg hdel, Option.mem_some_iff]
    exact ⟨hfin finished hmem, quiet_mono (List.eraseIdx_sublist _ n) (hquiet finished hmem)⟩

theorem init_own : Own OsiList.init [] where
  list := fun _ hj => absurd hj List.not_mem_nil
  pcs := fun _ hpc => absurd hpc List.not_mem_nil
  waits := fun _ => rfl
  submits := fun _ => Nat.zero_le 1
  holds := fun _ => Nat.zero_le 1

/-- **Run lemma.** -/
theorem run_own {is : List Input} {s : St}
    (h : Run step Orderly St.init is s es) :
    Inv s.osi (lockers s.threads) ∧ Own s.osi s.threads ∧ Within OsiList.Dead OsiList.init es s.osi := by
  refine Run.inv_effects (fun _ s es => Inv s.osi (lockers s.threads) ∧ Own s.osi s.threads ∧
    Within OsiList.Dead OsiList.init es s.osi) ⟨init_inv, init_own, (RegionOk.stop init_own).within⟩ ?_ h
  rintro _ s es i t fs ⟨hi, hown, hwithin⟩ hC hnext
  obtain ⟨hown', hwithin'⟩ := step_own hi hown hC hnext
  exact ⟨step_inv hi hC.1 hnext, hown', hwithin.trans hwithin'⟩

/-! ## Runs -/

/-- **In every run where no thread is overtaken, no job is touched after it was freed, or freed twice.** -/
theorem run_lifetime {is : List Input} {s : St} {es : List (Event Nat)}
    (h : Run step Orderly St.init is s es) : Safe es :=
  (run_own h).2.2.safe

/-- A blocking submitter and a waiting thread: the submitter goes first, the waiting thread destroys the job. -/
def orderlyInputs : List Input :=
  [.beginJob 1, .setNodeFinish 1 false, .submitJob 1 true false false none, .resume 0 ⟨.done, true, true⟩,
    .waitForDone 1 false, .nodeComp true (some (0, some 1)) ⟨.done, true, true⟩,
    .resume 1 ⟨.done, true, true⟩, .resume 0 ⟨.done, true, true⟩,
    .resume 0 ⟨.done, true, true⟩, .resume 0 ⟨.done, true, true⟩]

/-- The job is destroyed, and nobody touches it behind that. -/
theorem run_lifetime_orderly : ∃ s es, Run step Orderly St.init orderlyInputs s es ∧
    Event.free 0 ∈ es ∧ Safe es := by
  exact exists_run_imp (fun _ es => Event.free 0 ∈ es) (by decide) fun _ _ hrun htest => ⟨htest, run_lifetime hrun⟩

/-- The waiting thread goes first: it destroys the job, and the submitter that wakes up then reads it. -/
def overtakenInputs : List Input :=
  [.beginJob 1, .setNodeFinish 1 false, .submitJob 1 true false false none, .resume 0 ⟨.done, true, true⟩,
    .waitForDone 1 false, .nodeComp true (some (0, some 1)) ⟨.done, true, true⟩,
    .resume 0 ⟨.done, true, true⟩, .resume 0 ⟨.done, true, true⟩,
    .resume 0 ⟨.done, true, true⟩]

/-- **The job is read after it was freed.** -/
theorem run_lifetime_broken : ∃ s es, Run step always St.init overtakenInputs s es ∧ ¬ Safe es := by
  exact exists_run_of_decide (by decide)

end HiSTB.Tde
