import HiSTB.Lib.Run
import HiSTB.Tde.Correctness.Links

/-!
# `Tde.Correctness.Pending` — the jobs that wait for their start

* `PendingSuffix` — the jobs that the engine was not started on are the end of the list, from
  `pstJobToCommit` on;
* `step_inv` — one step of the machine, where `TdeOsiListNodeComp` removes jobs of the first part only;
* `run_pending` — whole runs;
* `run_pending_lost` — a run where it removes others.
-/

namespace HiSTB.Tde

open Lib Lifetime LinkedQueue OsiList

variable {finished del : Int} {T : List Pc} {pc : Pc} {env : Env} {es : List (Event Nat)}

/-! ## The parts of the list -/

/-- The jobs from `pstJobToCommit` on. -/
def OsiList.pending (s : OsiList) : List Nat :=
  s.jobToCommit.elim [] (fun c => s.list.dropWhile (· ≠ c))

/-- The jobs before `pstJobToCommit`. -/
def OsiList.committed (s : OsiList) : List Nat :=
  s.jobToCommit.elim s.list (fun c => s.list.takeWhile (· ≠ c))

/-- **The jobs that the engine was not started on are those from `pstJobToCommit` on**, `pstJobLast` is the
    last of them, and a start of the first runs the nodes of all of them, in order and no node twice. -/
structure PendingSuffix (s : OsiList) : Prop where
  first : s.pending.head? = s.jobToCommit
  uncommitted : ∀ j ∈ s.list, (j ∈ s.pending ↔ ∀ n ∈ (s.job j).nodes, n ∉ s.executed)
  started : ∀ j ∈ s.list, j ∉ s.pending → ∀ n ∈ (s.job j).nodes, n ∈ s.executed
  last : s.pending ≠ [] → s.jobLast = s.list.getLast?
  runs : ∀ c, s.jobToCommit = some c → s.runsFrom c = s.nodesOf s.pending
  once : (s.executed ++ s.nodesOf s.pending).Nodup

/-- The handle of the finished job, where a region of `TdeOsiListNodeComp` goes through the list for it. -/
def removesUpTo (s : St) : Input → Option Int
  | .nodeComp idle (some (addr, some h)) _ =>
    if s.osi.jobFinished = some addr then none else s.osi.finishedHandle idle h
  | .resume t _ =>
    match s.threads[t]? with
    | some (.called _ _ _ finished del) => if del = finished then none else some finished
    | _ => none
  | _ => none

/-- No job waits, or the job with the handle is in the list before those that wait. -/
def FinishedCommitted (s : OsiList) (finished : Int) : Prop :=
  s.jobToCommit = none ∨ ∃ j ∈ s.committed, (s.job j).handle = finished
deriving Decidable

/-- While jobs wait, `TdeOsiListNodeComp` goes through the list only for a job that the engine was started
    on. -/
def CompletesCommitted (s : St) (i : Input) : Prop :=
  ∀ finished ∈ removesUpTo s i, FinishedCommitted s.osi finished
deriving Decidable

/-- Is the thread on its way to put the job into the list? -/
def Pc.queues (j : Nat) : Pc → Bool
  | .submitLock k _ _ => k = j
  | _ => false

/-- How many threads are on their way to put the job into the list. -/
def lockers (threads : List Pc) (j : Nat) : Nat := threads.countP (Pc.queues j)

variable {s t : OsiList} {q : Nat → Nat} {done pend : List Nat} {j : Nat}

/-! ## The machine -/

theorem Split.committed_pending_eq (hs : Split s done pend) (hb : Base s q) :
    s.committed = done ∧ s.pending = pend := by
  unfold OsiList.committed OsiList.pending
  rw [hs.first, hs.list]
  cases pend with
  | nil => exact ⟨List.append_nil done, rfl⟩
  | cons c p =>
    have hnd := hb.list_nodup
    rw [hs.list] at hnd
    have hne : ∀ k ∈ done, decide (k ≠ c) = true := by
      intro k hk
      rw [decide_eq_true_eq]
      exact (List.nodup_append.mp hnd).2.2 k hk c List.mem_cons_self
    refine ⟨?_, ?_⟩
    · show List.takeWhile (· ≠ c) (done ++ c :: p) = done
      rw [List.takeWhile_append_of_pos hne, List.takeWhile_cons_of_neg (by simp), List.append_nil]
    · show List.dropWhile (· ≠ c) (done ++ c :: p) = c :: p
      rw [List.dropWhile_append_of_pos hne, List.dropWhile_cons_of_neg (by simp)]

theorem Split.finishedCommitted (hs : Split s done pend) (hb : Base s q)
    (hfin : FinishedCommitted s finished) : pend = [] ∨ ∃ j ∈ done, (s.job j).handle = finished := by
  unfold FinishedCommitted at hfin
  rw [(hs.committed_pending_eq hb).1, hs.first, List.head?_eq_none_iff] at hfin
  exact hfin

/-- What a state with its parts says about the jobs that wait. -/
theorem Inv.pendingSuffix (h : Inv s q) : PendingSuffix s := by
  have hb := h.base
  obtain ⟨done, pend, hs⟩ := h.split
  obtain ⟨_, hpend⟩ := hs.committed_pending_eq hb
  have hnodes := hb.nodesOf_nodup (hs.pend_nodup hb)
  have hstarted : ∀ j ∈ s.list, j ∉ pend → ∀ n ∈ (s.job j).nodes, n ∈ s.executed := by
    intro j hj hnot n hn
    rw [hs.list] at hj
    have hdone := (List.mem_append.mp hj).resolve_right hnot
    exact hs.committed n (mem_nodesOf.mpr ⟨j, hdone, hn⟩)
  refine ⟨?_, ?_, ?_, ?_, ?_, ?_⟩
  · rw [hpend, hs.first]
  · intro j hj
    rw [hpend]
    refine ⟨fun hmem n hn => hs.pending n (mem_nodesOf.mpr ⟨j, hmem, hn⟩), ?_⟩
    intro hex
    by_contra hnot
    obtain ⟨n, hn⟩ := List.exists_mem_of_ne_nil _ (hb.list_job j hj).2.2
    exact hex n hn (hstarted j hj hnot n hn)
  · rw [hpend]
    exact hstarted
  · intro hne
    rw [hpend] at hne
    rw [hs.last hne, hs.list, List.getLast?_append_of_ne_nil _ hne]
  · intro c hc
    rw [hpend]
    exact hs.runsFrom hb hc
  · rw [hpend]
    exact List.Nodup.append hb.executed_nodup hnodes (fun n hn hn' => hs.pending n hn' hn)

theorem lockers_append (a b : List Pc) (j : Nat) : lockers (a ++ b) j = lockers a j + lockers b j :=
  List.countP_append

theorem lockers_eraseIdx {i : Nat} (hpc : T[i]? = some pc) (j : Nat) :
    lockers T j = lockers [pc] j + lockers (T.eraseIdx i) j := by
  obtain ⟨hi, rfl⟩ := List.getElem?_eq_some_iff.mp hpc
  rw [← lockers_append]
  exact (List.getElem_cons_eraseIdx_perm hi).symm.countP_eq _

theorem compEnd_threads (s : OsiList) (work : Bool) (env : Env) : (s.compEnd work env).threads = [] := by
  unfold compEnd
  split <;> rfl

/-- The loop goes on in a callback or not at all. -/
theorem compLoop_lockers (work : Bool) (finished : Int) (env : Env) (l : List Nat) (s : OsiList) (j : Nat) :
    lockers (compLoop work finished env l s).threads j = 0 := by
  induction l generalizing s with
  | nil => rfl
  | cons i rest ih =>
    rw [compLoop]
    split
    · rfl
    · show lockers (ite _ _ _ : Region).threads j = 0
      split
      · rw [compEnd_threads]
        rfl
      · exact ih _

/-- What `TdeOsiListNodeComp` can do: return at once, return with `pstJobFinished` set, or go through the list
    for a finished job. -/
theorem nodeComp_cases (s : OsiList) (idle : Bool) (cur : Option (Nat × Option Int)) (env : Env) :
    s.nodeComp idle cur env = ⟨s, [], []⟩ ∨
    ∃ addr h, cur = some (addr, some h) ∧ s.jobFinished ≠ some addr ∧ (s.finishedHandle idle h = none ∧
        s.nodeComp idle cur env = ⟨{ s with jobFinished := s.finishedNode idle addr h },
          (s.finishedReads idle h).map Event.access, []⟩ ∨
      ∃ finished, s.finishedHandle idle h = some finished ∧
        s.nodeComp idle cur env = (compLoop (!idle) finished env s.list
          { s with jobFinished := s.finishedNode idle addr h, handleFinished := finished }).after
            ((s.finishedReads idle h).map Event.access)) := by
  rcases cur with _ | ⟨addr, _ | h⟩
  · exact Or.inl rfl
  · exact Or.inl rfl
  · rcases eq_or_ne s.jobFinished (some addr) with heq | hne
    · left
      simp [nodeComp, heq]
    · right
      refine ⟨addr, h, rfl, hne, ?_⟩
      cases hfin : s.finishedHandle idle h with
      | none => exact Or.inl ⟨rfl, by simp only [nodeComp, if_neg hne, hfin]⟩
      | some finished => exact Or.inr ⟨finished, rfl, by simp only [nodeComp, if_neg hne, hfin]⟩

/-- One call of `TdeOsiListNodeComp` up to its end or the first callback. -/
theorem nodeComp_inv (h : Inv s q) {idle : Bool} {cur : Option (Nat × Option Int)}
    (hC : CompletesCommitted ⟨s, T⟩ (.nodeComp idle cur env)) :
    Inv (s.nodeComp idle cur env).osi q ∧ ∀ j, lockers (s.nodeComp idle cur env).threads j = 0 := by
  have hfinish : ∀ r m, Frame s { s with jobFinished := r, handleFinished := m } :=
    fun r m => ⟨fun _ => ⟨rfl, rfl, rfl⟩, rfl, rfl, rfl, rfl, rfl, rfl, rfl, fun _ _ h => h⟩
  rcases nodeComp_cases s idle cur env with heq | ⟨addr, g, rfl, hne, hcase⟩
  · rw [heq]
    exact ⟨h, fun _ => rfl⟩
  · rcases hcase with ⟨_, heq⟩ | ⟨finished, hfin, heq⟩
    · rw [heq]
      exact ⟨h.frame (hfinish _ s.handleFinished), fun _ => rfl⟩
    · obtain ⟨done, pend, hs⟩ := h.split
      have hcond : FinishedCommitted s finished := by
        refine hC finished ?_
        simp only [removesUpTo, if_neg hne]
        exact hfin
      have hcond := hs.finishedCommitted h.base hcond
      have hf := hfinish (s.finishedNode idle addr g) finished
      rw [heq]
      exact ⟨compLoop_inv _ _ _ (h.base.frame hf) (hs.frame hf) rfl hcond, compLoop_lockers _ _ _ _ _⟩

theorem calledLocked_last (s : OsiList) (j : Nat) (kind : NotifyMode) (work : Bool)
    (env : Env) (hdel : del = finished) : s.calledLocked j kind work finished del env =
      ((s.complete j kind).1.compEnd work env).after (s.complete j kind).2 := by
  simp only [calledLocked, if_pos hdel]

theorem calledLocked_more (s : OsiList) (j : Nat) (kind : NotifyMode) (work : Bool)
    (env : Env) (hdel : del ≠ finished) : s.calledLocked j kind work finished del env =
      (compLoop work finished env (s.complete j kind).1.list (s.complete j kind).1).after
        (s.complete j kind).2 := by
  simp only [calledLocked, if_neg hdel]

/-- `TdeOsiListNodeComp` after a callback. -/
theorem calledLocked_inv (h : Inv s q) (j : Nat) (kind : NotifyMode) (work : Bool)
    (env : Env) (hC : del ≠ finished → FinishedCommitted s finished) :
    Inv (s.calledLocked j kind work finished del env).osi q ∧
      ∀ k, lockers (s.calledLocked j kind work finished del env).threads k = 0 := by
  have hf := complete_frame s j kind
  have h' := h.frame hf
  rcases eq_or_ne del finished with heq | hne
  · rw [calledLocked_last s j kind work env heq]
    refine ⟨compEnd_inv h' work env, fun k => ?_⟩
    show lockers ((s.complete j kind).1.compEnd work env).threads k = 0
    rw [compEnd_threads]
    rfl
  · obtain ⟨done, pend, hs⟩ := h.split
    have hcond := hs.finishedCommitted h.base (hC hne)
    rw [calledLocked_more s j kind work env hne]
    refine ⟨compLoop_inv work finished env h'.base (hs.frame hf) rfl (hcond.imp_right ?_), compLoop_lockers _ _ _ _ _⟩
    rintro ⟨i, hi, hih⟩
    exact ⟨i, hi, (hf.job i).2.1.trans hih⟩

/-- `TdeOsiListSubmitJob` up to its first lock. -/
theorem submitJob_inv (h : Inv s q) (g : Int) (block cb few : Bool) (fence : Option Int) {q' : Nat → Nat}
    (hq : ∀ k, q' k = lockers (s.submitJob g block cb few fence).threads k + q k) :
    Inv (s.submitJob g block cb few fence).osi q' := by
  revert hq
  unfold submitJob
  split
  · intro hq
    exact h.mono (fun k => Nat.le_of_eq ((hq k).trans (Nat.zero_add _)))
  · rename_i j hj
    obtain ⟨hlt, _⟩ := h.base.handles g j hj
    split
    · intro hq
      exact h.mono (fun k => Nat.le_of_eq ((hq k).trans (Nat.zero_add _)))
    · rename_i hsub
      rw [Bool.not_eq_true] at hsub
      split
      · intro hq
        exact (h.frame (releaseHandle_frame s g)).mono (fun k => Nat.le_of_eq ((hq k).trans (Nat.zero_add _)))
      · rename_i hne
        -- in every other branch the submission is prepared; its thread goes on or the fence failed
        have hprep : ∀ m fence' (T : List Pc), (∀ k, q' k = lockers T k + q k) →
            (∀ k, lockers T k ≤ if k = j then 1 else 0) → Inv (s.prepare j m cb fence') q' := by
          intro m fence' T hq hT
          refine prepare_inv h hsub hlt hne m cb fence' ?_ (fun k hk => ?_)
          · have hTj := hT j
            rw [if_pos rfl] at hTj
            rw [hq j]
            omega
          · have hTk := hT k
            rw [if_neg hk] at hTk
            rw [hq k]
            omega
        have hone : ∀ m asyn k, lockers [Pc.submitLock j m asyn] k ≤ if k = j then 1 else 0 := by
          intro m asyn k
          rcases eq_or_ne k j with rfl | hkj
          · simp [lockers, Pc.queues]
          · simp [lockers, Pc.queues, hkj, Ne.symm hkj]
        split
        · exact fun hq => hprep _ _ _ hq (hone _ _)
        · split
          · exact fun hq => hprep _ _ _ hq (hone _ _)
          · split
            · exact fun hq => hprep _ _ _ hq (fun k => Nat.zero_le _)
            · exact fun hq => hprep _ _ _ hq (hone _ _)

theorem Inv.no_lockers (h : Inv s q) (hT : ∀ k, lockers T k = 0) :
    Inv s (fun k => lockers T k + q k) := by
  refine h.mono (fun k => Nat.le_of_eq ?_)
  rw [hT k, Nat.zero_add]

/-- A thread goes on. `q` counts the other threads. -/
theorem resumePc_inv (h : Inv s (fun k => lockers [pc] k + q k))
    (hC : ∀ j kind work finished del, pc = .called j kind work finished del →
      del ≠ finished → FinishedCommitted s finished) :
    Inv (resumePc s env pc).osi (fun k => lockers (resumePc s env pc).threads k + q k) := by
  have hothers : Inv s q := h.mono (fun k => Nat.le_add_left _ _)
  cases pc with
  | submitLock j m asyn =>
    have hlock : lockers [Pc.submitLock j m asyn] j = 1 := by simp [lockers, Pc.queues]
    have hone := h.base.queue_one j
    have hqz : q j = 0 := by omega
    have hqueue := queueJob_inv h (show 0 < lockers [Pc.submitLock j m asyn] j + q j by omega)
      (fun k => Nat.le_add_left (q k) _) hqz
    refine (compProc_inv hqueue env.ok).no_lockers (fun k => ?_)
    unfold resumePc submitLocked
    dsimp only
    split <;> rfl
  | submitWait j asyn =>
    refine hothers.no_lockers (fun k => ?_)
    unfold resumePc
    dsimp only
    split <;> rfl
  | submitWoken j asyn ret =>
    unfold resumePc submitRelocked
    dsimp only
    split
    · split
      · exact (hothers.frame (destroyJob_frame s j)).no_lockers (fun _ => rfl)
      · exact hothers.no_lockers (fun _ => rfl)
    · refine (hothers.frame (setNotiType_frame s j .compl)).no_lockers (fun k => ?_)
      split <;> rfl
  | doneWait j timed =>
    refine hothers.no_lockers (fun k => ?_)
    unfold resumePc
    dsimp only
    split <;> rfl
  | doneWoken j timed ret =>
    have hcount := hothers.frame (setCount_frame s j ((s.job j).waitForDoneCount - 1))
    have htraces : ∀ k, lockers (if s.waitTraces j timed ret = true then [Pc.trace j] else []) k = 0 := by
      intro k
      split <;> rfl
    unfold resumePc doneRelocked
    dsimp only
    split
    · exact (hcount.frame (destroyJob_frame _ j)).no_lockers htraces
    · exact hcount.no_lockers htraces
  | trace j =>
    exact hothers.no_lockers (fun _ => rfl)
  | callback j kind work finished del =>
    exact hothers.no_lockers (fun _ => rfl)
  | called j kind work finished del =>
    obtain ⟨hinv, hlock⟩ := calledLocked_inv hothers j kind work env (hC j kind work finished del rfl)
    exact hinv.no_lockers hlock

/-- **Step lemma.** -/
theorem step_inv {s t : St} {i : Input} (h : Inv s.osi (lockers s.threads))
    (hC : CompletesCommitted s i) (hstep : step s i = some (t, es)) : Inv t.osi (lockers t.threads) := by
  unfold step at hstep
  obtain ⟨⟨r, T⟩, hregion, hrt⟩ := Option.map_eq_some_iff.mp hstep
  obtain ⟨rfl, rfl⟩ := Prod.mk.inj hrt
  suffices hsum : Inv r.osi (fun k => lockers r.threads k + lockers T k) from
    hsum.mono (fun k => Nat.le_of_eq (lockers_append _ _ k))
  cases i with
  | beginJob g =>
    rw [region] at hregion
    split at hregion
    · cases hregion
      exact (beginJob_inv h).no_lockers (fun _ => rfl)
    · cases hregion
  | setNodeFinish g phyBuff =>
    cases hregion
    unfold setNodeFinish
    split
    · exact h.no_lockers (fun _ => rfl)
    · split
      · exact h.no_lockers (fun _ => rfl)
      · rename_i hsub
        exact (addNode_inv h (Bool.not_eq_true _ ▸ hsub) phyBuff).no_lockers (fun _ => rfl)
  | cancelJob g =>
    cases hregion
    unfold cancelJob
    split
    · exact h.no_lockers (fun _ => rfl)
    · split
      · exact h.no_lockers (fun _ => rfl)
      · exact (h.frame (releaseHandle_frame _ g)).no_lockers (fun _ => rfl)
  | submitJob g block cb few fence =>
    cases hregion
    exact submitJob_inv h g block cb few fence (fun _ => rfl)
  | waitForDone g timed =>
    cases hregion
    unfold waitForDone
    split
    · exact h.no_lockers (fun _ => rfl)
    · split
      · exact (h.frame (setCount_frame _ _ _)).no_lockers (fun _ => rfl)
      · exact h.no_lockers (fun _ => rfl)
  | nodeComp idle cur env =>
    cases hregion
    obtain ⟨hinv, hlock⟩ := nodeComp_inv h hC
    exact hinv.no_lockers hlock
  | compProc ok =>
    cases hregion
    exact (compProc_inv h ok).no_lockers (fun _ => rfl)
  | reset =>
    cases hregion
    exact (reset_inv h).no_lockers (fun _ => rfl)
  | resume n env =>
    obtain ⟨pc, hpc, heq⟩ := Option.map_eq_some_iff.mp hregion
    obtain ⟨rfl, rfl⟩ := Prod.mk.inj heq
    refine resumePc_inv (h.mono (fun k => Nat.le_of_eq (lockers_eraseIdx hpc k).symm)) ?_
    rintro j kind work finished del rfl
    intro hdel
    refine hC finished ?_
    simp only [removesUpTo, hpc, if_neg hdel, Option.mem_some_iff]

theorem init_inv : Inv OsiList.init (lockers []) := by
  refine ⟨⟨?_, ?_, ?_, ?_, ?_, List.nodup_nil, fun _ _ => rfl, List.nodup_nil, ?_, ?_, ?_, ?_⟩, [], [], ?_⟩
  · intro h j hj
    cases hj
  · intro j n hn
    exact absurd hn List.not_mem_nil
  · intro j k n hn
    exact absurd hn List.not_mem_nil
  · exact fun _ => List.nodup_nil
  · exact fun n hn => absurd hn List.not_mem_nil
  · exact fun j hj => absurd hj List.not_mem_nil
  · exact fun _ => Nat.zero_le 1
  · exact fun j hj => absurd hj (Nat.lt_irrefl 0)
  · exact fun j _ => ⟨rfl, fun n hn => absurd hn List.not_mem_nil⟩
  · exact ⟨rfl, rfl, fun hne => absurd rfl hne, rfl, fun n hn => absurd hn List.not_mem_nil,
      fun n hn => absurd hn List.not_mem_nil⟩

/-- **Run lemma.** -/
theorem run_inv {is : List Input} {s : St}
    (h : Run step CompletesCommitted St.init is s es) : Inv s.osi (lockers s.threads) :=
  Run.inv (fun _ s => Inv s.osi (lockers s.threads)) init_inv
    (fun _ _ _ _ _ hs hC hnext => step_inv hs hC hnext) h

/-! ## Runs -/

/-- **In every run where completions are of started jobs, the jobs that wait are the end of the list.** -/
theorem run_pending {is : List Input} {s : St} {es : List (Event Nat)}
    (h : Run step CompletesCommitted St.init is s es) : PendingSuffix s.osi :=
  (run_inv h).pendingSuffix

/-- A job that runs, and two that wait behind it. -/
def waitingInputs : List Input :=
  [.beginJob 1, .setNodeFinish 1 false, .submitJob 1 false false false none, .resume 0 ⟨.done, false, true⟩,
    .beginJob 2, .setNodeFinish 2 false, .setNodeFinish 2 false, .submitJob 2 true false false none,
    .resume 0 ⟨.done, false, false⟩,
    .beginJob 3, .setNodeFinish 3 true, .submitJob 3 false false false none, .resume 0 ⟨.done, false, false⟩,
    .nodeComp true (some (0, some 1)) ⟨.done, true, false⟩]

/-- After the first job is done, the two others are pending in the order of the list. -/
theorem run_pending_waiting : ∃ s es, Run step CompletesCommitted St.init waitingInputs s es ∧
    s.osi.pending = [1, 2] ∧ s.osi.runsFrom 1 = [1, 2, 3] ∧ PendingSuffix s.osi := by
  exact exists_run_imp (fun s _ => s.osi.pending = [1, 2] ∧ s.osi.runsFrom 1 = [1, 2, 3])
    (by decide) fun _ _ hrun htest => ⟨htest.1, htest.2, run_pending hrun⟩

/-- A blocking job is run and removed by a reset while its completion is still to be handled and its submitter
    still asleep, so that its handle is known; the next job cannot be started and waits. -/
def lostInputs : List Input :=
  [.beginJob 1, .setNodeFinish 1 false, .submitJob 1 true false false none, .resume 0 ⟨.done, true, true⟩,
    .reset,
    .beginJob 2, .setNodeFinish 2 false, .submitJob 2 false false false none, .resume 0 ⟨.done, true, false⟩,
    .nodeComp true (some (0, some 1)) ⟨.done, true, false⟩]

/-- The completion removes and frees the waiting job, and `pstJobToCommit` still points to it. -/
theorem run_pending_lost : ∃ s es, Run step always St.init lostInputs s es ∧
    s.osi.list = [] ∧ s.osi.jobToCommit = some 1 ∧ s.osi.handles 2 = none ∧ ¬ PendingSuffix s.osi := by
  refine exists_run_imp (fun s _ => s.osi.list = [] ∧ s.osi.jobToCommit = some 1 ∧ s.osi.handles 2 = none)
    (by decide) fun _ _ _ htest => ?_
  obtain ⟨hlist, hfirst, hfree⟩ := htest
  refine ⟨hlist, hfirst, hfree, ?_⟩
  intro hsuffix
  have hhead := hsuffix.first
  unfold OsiList.pending at hhead
  rw [hfirst, hlist] at hhead
  cases hhead

end HiSTB.Tde
