import HiSTB.Tde.Correctness.Calls

/-!
# `Tde.Correctness.Submit` — submissions that fail

* `submitRet`, `cancelRet`, `waitRet` — what the operations return before their first sleep;
* `submitJob_left_iff` — a submission that fails leaves its job as it was if and only if it is not the fence
  that fails.
-/

namespace HiSTB.Tde

open Lib Lifetime OsiList

/-! ## Return values -/

/-- Return values of the job list's operations. -/
inductive Ret
  /-- `HI_SUCCESS`. -/
  | success
  /-- `HI_FAILURE`. -/
  | failure
  /-- `HI_ERR_TDE_INVALID_HANDLE`. -/
  | invalidHandle
  /-- `HI_ERR_TDE_NO_MEM`. -/
  | noMem
  deriving DecidableEq

/-- What `TdeOsiListSubmitJob` returns before its first `TDE_LOCK`; `none` where it goes on. -/
def submitRet (s : OsiList) (h : Int) (block few : Bool) (fence : Option Int) : Option Ret :=
  match s.handles h with
  | none => some .invalidHandle
  | some j =>
    if (s.job j).submitted then some .invalidHandle
    else if (s.job j).nodes = [] then some .success
    else if block || few then none
    else
      match fence with
      | none => none
      | some fd => if fd < 0 then some .noMem else none

/-- What `TdeOsiListCancelJob` returns. -/
def cancelRet (s : OsiList) (h : Int) : Ret :=
  match s.handles h with
  | none => .success
  | some j => if (s.job j).submitted then .failure else .success

/-- What `TdeOsiListWaitForDone` returns at once; `none` where it sleeps. -/
def waitRet (s : OsiList) (h : Int) : Option Ret :=
  match s.handles h with
  | none => some .success
  | some j => if (s.job j).submitted then none else some .invalidHandle

/-! ## The job after a failure -/

/-- **The job of the handle is left as it was.** If it was not submitted, `TdeOsiListCancelJob` frees it, and
    `TdeOsiListWaitForDone` says so. -/
structure LeftAlone (s t : OsiList) (h : Int) : Prop where
  kept : ∀ j, s.handles h = some j → t.handles h = some j ∧ t.job j = s.job j
  cancelled : ∀ j, s.handles h = some j → (s.job j).submitted = false →
    cancelRet t h = .success ∧ Event.free j ∈ (t.cancelJob h).events ∧ (t.cancelJob h).osi.handles h = none
  reported : ∀ j timed, s.handles h = some j → (s.job j).submitted = false →
    waitRet t h = some .invalidHandle ∧ (t.waitForDone h timed).threads = []

/-- The fence of a submission that could go on cannot be created. -/
def FenceFails (s : OsiList) (h : Int) (block few : Bool) (fence : Option Int) : Prop :=
  ∃ j, s.handles h = some j ∧ (s.job j).submitted = false ∧ (s.job j).nodes ≠ [] ∧ block = false ∧
    few = false ∧ ∃ fd, fence = some fd ∧ fd < 0

variable {s : OsiList} {h : Int} {j : Nat} {block cb few : Bool} {fence : Option Int}

/-- What a submission can do before the lock. -/
theorem submitJob_cases (s : OsiList) (h : Int) (block cb few : Bool) (fence : Option Int) :
    (s.submitJob h block cb few fence).osi = s ∧ submitRet s h block few fence = some .invalidHandle ∨
    submitRet s h block few fence = some .success ∨
    submitRet s h block few fence = none ∨
    ∃ j, s.handles h = some j ∧ (s.job j).submitted = false ∧ FenceFails s h block few fence ∧
      (s.submitJob h block cb few fence).osi = s.prepare j .compl cb none ∧
      submitRet s h block few fence = some .noMem := by
  unfold OsiList.submitJob submitRet
  cases hh : s.handles h with
  | none => exact Or.inl ⟨rfl, rfl⟩
  | some j =>
    by_cases hsub : (s.job j).submitted = true
    · left
      simp [hsub]
    · rw [Bool.not_eq_true] at hsub
      by_cases hnodes : (s.job j).nodes = []
      · right; left
        simp [hsub, hnodes]
      · by_cases hblock : (block || few) = true
        · right; right; left
          simp only [hsub, hnodes, hblock, if_true, if_false, Bool.false_eq_true]
        · rw [Bool.not_eq_true, Bool.or_eq_false_iff] at hblock
          obtain ⟨rfl, rfl⟩ := hblock
          cases fence with
          | none =>
            right; right; left
            simp [hsub, hnodes]
          | some fd =>
            by_cases hfd : fd < 0
            · right; right; right
              refine ⟨j, rfl, hsub, ⟨j, hh, hsub, hnodes, rfl, rfl, fd, rfl, hfd⟩, ?_, ?_⟩ <;>
                simp [hsub, hnodes, hfd]
            · right; right; left
              simp [hsub, hnodes, hfd]

/-- A job that nothing was done to. -/
theorem LeftAlone.refl (s : OsiList) (h : Int) : LeftAlone s s h := by
  refine ⟨fun j hj => ⟨hj, rfl⟩, ?_, ?_⟩
  · intro j hj hsub
    have hcancel : s.cancelJob h = ⟨s.releaseHandle h, [.access j, .free j], []⟩ := by
      simp [OsiList.cancelJob, hj, hsub]
    rw [hcancel]
    refine ⟨?_, by simp, Function.update_self _ _ _⟩
    simp [cancelRet, hj, hsub]
  · intro j timed hj hsub
    constructor
    · simp [waitRet, hj, hsub]
    · simp [OsiList.waitForDone, hj, hsub]

theorem FenceFails.ret (hf : FenceFails s h block few fence) :
    submitRet s h block few fence = some .noMem := by
  obtain ⟨j, hj, hsub, hnodes, rfl, rfl, fd, rfl, hfd⟩ := hf
  simp [submitRet, hj, hsub, hnodes, hfd]

/-- **A submission that fails leaves its job as it was, to be cancelled, if and only if it does not fail for
    its fence.** -/
theorem submitJob_left_iff (s : OsiList) (h : Int) (block cb few : Bool) (fence : Option Int) :
    (∀ e, submitRet s h block few fence = some e → e ≠ .success →
        LeftAlone s (s.submitJob h block cb few fence).osi h) ↔
      ¬ FenceFails s h block few fence := by
  have hnot : ∀ o, submitRet s h block few fence = o → o ≠ some .noMem → ¬ FenceFails s h block few fence :=
    fun o ho hne hf => hne (ho.symm.trans hf.ret)
  rcases submitJob_cases s h block cb few fence with ⟨hosi, hret⟩ | hret | hret | ⟨j, hj, hsub, hfence, hosi, hret⟩
  · refine ⟨fun _ => hnot _ hret (by decide), fun _ _ _ _ => ?_⟩
    rw [hosi]
    exact LeftAlone.refl s h
  · refine ⟨fun _ => hnot _ hret (by decide), fun _ e he hne => ?_⟩
    exact absurd (Option.some.inj (he.symm.trans hret)) hne
  · refine ⟨fun _ => hnot _ hret (by decide), fun _ e he _ => ?_⟩
    rw [hret] at he
    cases he
  · refine iff_of_false (fun hleft => ?_) (not_not.mpr hfence)
    -- the job is marked as submitted before the fence is created
    have hkept := ((hleft .noMem hret (by decide)).kept j hj).2
    have hmarked := (prepare_job_self s j .compl cb none).2.2
    rw [hosi] at hkept
    rw [hkept, hsub] at hmarked
    cases hmarked

/-- A job with one node; its submission gets no fence, its user then tries to cancel it, and waits for it. -/
def fenceInputs : List Input :=
  [.beginJob 1, .setNodeFinish 1 false, .submitJob 1 false false false (some (-1)), .cancelJob 1,
    .waitForDone 1 false]

/-- **The thread sleeps for a job that is not in the list.** -/
theorem submitJob_fence_waits : ∃ s es, Run step Orderly St.init fenceInputs s es ∧
    s.osi.list = [] ∧ s.osi.handles 1 = some 0 ∧ s.threads = [.doneWait 0 false] ∧
    ∃ s₀ es₀, Run step Orderly St.init (fenceInputs.take 2) s₀ es₀ ∧
      submitRet s₀.osi 1 false false (some (-1)) = some .noMem ∧
      ¬ LeftAlone s₀.osi (s₀.osi.submitJob 1 false false false (some (-1))).osi 1 := by
  obtain ⟨s, es, hrun, htest⟩ := exists_run_of_exec step Orderly St.init fenceInputs
    (fun r => r.1.osi.list = [] ∧ r.1.osi.handles 1 = some 0 ∧ r.1.threads = [.doneWait 0 false])
    (by decide)
  obtain ⟨hlist, hhandle, hthreads⟩ := of_decide_eq_true htest
  obtain ⟨s₀, es₀, hrun₀, htest₀⟩ := exists_run_of_exec step Orderly St.init (fenceInputs.take 2)
    (fun r => submitRet r.1.osi 1 false false (some (-1)) = some .noMem ∧ r.1.osi.handles 1 = some 0 ∧
      (r.1.osi.job 0).submitted = false ∧
      ((r.1.osi.submitJob 1 false false false (some (-1))).osi.job 0).submitted = true)
    (by decide)
  obtain ⟨hret, hj, hsub, hmarked⟩ := of_decide_eq_true htest₀
  refine ⟨s, es, hrun, hlist, hhandle, hthreads, s₀, es₀, hrun₀, hret, fun hleft => ?_⟩
  rw [(hleft.kept 0 hj).2, hsub] at hmarked
  cases hmarked

end HiSTB.Tde
