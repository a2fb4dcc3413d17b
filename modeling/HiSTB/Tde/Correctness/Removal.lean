import HiSTB.Tde.Correctness.Lifetime

/-!
# `Tde.Correctness.Removal` — which jobs `TdeOsiListNodeComp` removes

* `loop_removes` — a call that goes through the list removes its jobs up to one with the finished handle;
* `nodeCompCall_removes_iff` — these are the jobs up to the finished job if and only if the job of the current
  node is in the list;
* `nodeCompCall_removes_running` — a waiting thread keeps the handle of a completed job, and the completion of
  that job is handled once more;
* `run_jobList` — job lists of runs.
-/

namespace HiSTB.Tde

open Lib Lifetime OsiList

variable {r : Region} {rest gone l : List Nat} {n k : Nat} {es : List (Event Nat)} {T : List Pc}
    {q : Nat → Nat}

/-! ## The whole call -/

/-- A call of `TdeOsiListNodeComp` goes on after its callbacks, `n` of them at most, with no other thread
    between. -/
def goesOn (env : Env) : Nat → Region → Region
  | 0, r => r
  | n + 1, r =>
    match r.threads with
    | [.callback j kind work finished del] =>
      goesOn env n ((r.osi.calledLocked j kind work finished del env).after (r.events ++ [.access j]))
    | _ => r

/-- `TdeOsiListNodeComp` from its call to its return. Each callback is of another job of the list. -/
def OsiList.nodeCompCall (s : OsiList) (idle : Bool) (cur : Option (Nat × Option Int)) (env : Env) : Region :=
  goesOn env s.list.length (s.nodeComp idle cur env)

/-- The job of the current node: a node that was not handled before, with a handle that the manager knows. -/
def OsiList.nodeJob (s : OsiList) : Option (Nat × Option Int) → Option Nat
  | some (addr, some h) => if s.jobFinished = some addr then none else s.handles h
  | _ => none

/-- The finished job: the job of the current node when the engine is idle, else the job before it, which the
    manager has to know too. -/
def OsiList.finishedJob (s : OsiList) (idle : Bool) (cur : Option (Nat × Option Int)) : Option Nat :=
  (s.nodeJob cur).bind (fun j =>
    if idle then some j else (s.prev j).bind (fun k => s.handles (s.job k).handle))

/-- The jobs of a list up to a job and with it, where the job is in the list. -/
def upTo (k : Option Nat) (l : List Nat) : List Nat :=
  k.elim [] (fun k => if k ∈ l then l.takeWhile (· ≠ k) ++ [k] else [])

/-- **A call that returns has removed the jobs up to `k`**, and nothing if `k` is not in the list; `u32JobNum`
    drops by their number, and `s32HandleLast` is cleared with the last job only. -/
structure Removes (s : OsiList) (k : Option Nat) (r : Region) : Prop where
  returns : r.threads = []
  list : s.list = upTo k s.list ++ r.osi.list
  jobNum : r.osi.jobNum = s.jobNum - BitVec.ofNat 32 (upTo k s.list).length
  handleLast : r.osi.handleLast = if ∃ l ∈ s.list.getLast?, l ∈ upTo k s.list then -1 else s.handleLast

/-- A job list: no two of its jobs have one handle, what the manager knows by a handle has that handle and is
    no twin of a job in the list, and `s32HandleLast` is the handle of the last job. -/
structure JobList (s : OsiList) : Prop where
  named : ∀ h j, s.handles h = some j → (s.job j).handle = h
  known : ∀ j ∈ s.list, ∀ k, s.handles (s.job j).handle = some k → k = j
  distinct : (s.list.map (fun j => (s.job j).handle)).Nodup
  last : ∀ l, s.list.getLast? = some l → s.handleLast = (s.job l).handle

variable {s t : OsiList} {j : Nat} {idle : Bool} {cur : Option (Nat × Option Int)} {env : Env}

/-! ## Regions of the call -/

theorem goesOn_returned (hr : r.threads = []) (env : Env) (n : Nat) : goesOn env n r = r := by
  cases n with
  | zero => rfl
  | succ n =>
    rw [goesOn, hr]

/-- Events before a region change nothing. -/
theorem goesOn_after (env : Env) (n : Nat) (r : Region) (es : List (Event Nat)) :
    (goesOn env n (r.after es)).osi = (goesOn env n r).osi ∧
      (goesOn env n (r.after es)).threads = (goesOn env n r).threads := by
  induction n generalizing r es with
  | zero => exact ⟨rfl, rfl⟩
  | succ n ih =>
    have hthreads : (r.after es).threads = r.threads := rfl
    rw [goesOn, goesOn, hthreads]
    split
    · rename_i j kind work finished del _
      have hthis := ih (r.osi.calledLocked j kind work finished del env)
      exact ⟨(hthis _).1.trans (hthis _).1.symm, (hthis _).2.trans (hthis _).2.symm⟩
    · exact ⟨rfl, rfl⟩

/-- The list and its counters are left alone, and the handles of all jobs. -/
structure Counted (s t : OsiList) : Prop where
  list : t.list = s.list
  jobNum : t.jobNum = s.jobNum
  handleLast : t.handleLast = s.handleLast
  handle : ∀ k, (t.job k).handle = (s.job k).handle

theorem Counted.trans {u : OsiList} (h : Counted s t) (h' : Counted t u) : Counted s u :=
  ⟨h'.list.trans h.list, h'.jobNum.trans h.jobNum, h'.handleLast.trans h.handleLast,
    fun k => (h'.handle k).trans (h.handle k)⟩

theorem Frame.counted (h : Frame s t) (hn : t.jobNum = s.jobNum) (hl : t.handleLast = s.handleLast) :
    Counted s t :=
  ⟨h.list, hn, hl, fun k => (h.job k).2.1⟩

theorem markDone_counted (s : OsiList) (j : Nat) : Counted s (s.markDone j) := by
  refine (markDone_frame s j).counted ?_ ?_ <;> unfold markDone <;> split <;> rfl

theorem destroyJob_counted (s : OsiList) (j : Nat) : Counted s (s.destroyJob j).1 := by
  refine (destroyJob_frame s j).counted ?_ ?_ <;> unfold destroyJob <;> split <;> rfl

theorem safeDestroyJob_counted (s : OsiList) (j : Nat) : Counted s (s.safeDestroyJob j).1 := by
  unfold safeDestroyJob
  split
  · exact (setNotiType_frame s j .butt).counted rfl rfl
  · exact destroyJob_counted s j

theorem complete_counted (s : OsiList) (j : Nat) (kind : NotifyMode) : Counted s (s.complete j kind).1 := by
  cases kind with
  | wake => exact ⟨rfl, rfl, rfl, fun _ => rfl⟩
  | compl => exact safeDestroyJob_counted s j
  | butt => exact ⟨rfl, rfl, rfl, fun _ => rfl⟩

theorem compProc_counted (s : OsiList) (ok : Bool) : Counted s (s.compProc ok).1 := by
  unfold compProc
  split
  · exact ⟨rfl, rfl, rfl, fun _ => rfl⟩
  · split <;> exact ⟨rfl, rfl, rfl, fun _ => rfl⟩

theorem compEnd_counted (s : OsiList) (work : Bool) (env : Env) : Counted s (s.compEnd work env).osi := by
  unfold compEnd
  split
  · exact compProc_counted s env.ok
  · exact ⟨rfl, rfl, rfl, fun _ => rfl⟩

/-! ## The loop -/

/-- The jobs of a list up to the first one with the handle, or all of them. -/
def completed (s : OsiList) (finished : Int) : List Nat → List Nat
  | [] => []
  | j :: l => j :: if (s.job j).handle = finished then [] else completed s finished l

/-- What is left of the list by a call that goes through it, with the counters. -/
structure Leaves (s : OsiList) (gone : List Nat) (r : Region) : Prop where
  returns : r.threads = []
  list : s.list = gone ++ r.osi.list
  jobNum : r.osi.jobNum = s.jobNum - BitVec.ofNat 32 gone.length
  handleLast : r.osi.handleLast =
    if ∃ j ∈ gone, (s.job j).handle = s.handleLast then -1 else s.handleLast

theorem completed_congr (hjob : ∀ k, (t.job k).handle = (s.job k).handle) (finished : Int) (l : List Nat) :
    completed t finished l = completed s finished l := by
  induction l with
  | nil => rfl
  | cons j l ih => rw [completed, completed, hjob, ih]

/-- The handle of the last job, once it was cleared or not. -/
theorem last_cleared (f : Nat → Int) (j : Nat) (gone : List Nat) (last : Int) :
    (if ∃ k ∈ gone, f k = (if f j = last then -1 else last) then -1 else if f j = last then -1 else last) =
      if ∃ k ∈ j :: gone, f k = last then -1 else last := by
  by_cases hj : f j = last
  · have hex : ∃ k ∈ j :: gone, f k = last := ⟨j, List.mem_cons_self, hj⟩
    rw [if_pos hj, if_pos hex, ite_self]
  · have hiff : (∃ k ∈ j :: gone, f k = last) ↔ ∃ k ∈ gone, f k = last := by
      simp [hj]
    simp only [if_neg hj, hiff]

/-- The first job is removed, and then others. -/
theorem Leaves.cons (hl : s.list = j :: rest)
    (hc : Counted (s.unlink j rest) t) (h : Leaves t gone r) : Leaves s (j :: gone) r := by
  have hrest : t.list = rest := hc.list
  refine ⟨h.returns, ?_, ?_, ?_⟩
  · rw [hl, ← hrest, h.list, List.cons_append]
  · have hone : t.jobNum = s.jobNum - 1 := hc.jobNum
    rw [h.jobNum, hone, BitVec.sub_sub, List.length_cons, Nat.add_comm, BitVec.ofNat_add]
    rfl
  · have hlast : t.handleLast = if (s.job j).handle = s.handleLast then -1 else s.handleLast := hc.handleLast
    have hhandle : ∀ k, (t.job k).handle = (s.job k).handle := hc.handle
    rw [h.handleLast, hlast]
    simp only [hhandle]
    exact last_cleared (fun k => (s.job k).handle) j gone s.handleLast

/-- The end of the loop. -/
theorem compEnd_leaves (s : OsiList) (work : Bool) (env : Env) : Leaves s [] (s.compEnd work env) := by
  have hc := compEnd_counted s work env
  refine ⟨compEnd_threads s work env, hc.list.symm, ?_, ?_⟩
  · exact hc.jobNum.trans (BitVec.sub_zero s.jobNum).symm
  · rw [hc.handleLast]
    simp

/-- A region whose events do not matter. -/
theorem Leaves.after
    (h : Leaves s gone (goesOn env n r)) : Leaves s gone (goesOn env n (r.after es)) := by
  obtain ⟨hosi, hthreads⟩ := goesOn_after env n r es
  refine ⟨hthreads.trans h.returns, ?_, ?_, ?_⟩
  · rw [hosi]
    exact h.list
  · rw [hosi]
    exact h.jobNum
  · rw [hosi]
    exact h.handleLast

/-- **The loop of `TdeOsiListNodeComp`, with its callbacks.** -/
theorem loop_removes (work : Bool) (finished : Int) (env : Env) (hl : s.list = l)
    (hn : l.length ≤ n) :
    Leaves s (completed s finished l) (goesOn env n (compLoop work finished env l s)) := by
  induction l generalizing s n with
  | nil =>
    rw [compLoop, goesOn_returned rfl]
    refine ⟨rfl, rfl, ?_, ?_⟩
    · exact (BitVec.sub_zero s.jobNum).symm
    · exact (if_neg (fun hex => List.not_mem_nil hex.choose_spec.1)).symm
  | cons j rest ih =>
    obtain ⟨n, rfl⟩ : ∃ m, n = m + 1 := Nat.exists_eq_add_one.mpr (Nat.lt_of_lt_of_le (Nat.succ_pos _) hn)
    have hcm := markDone_counted (s.unlink j rest) j
    have hcc := hcm.trans (complete_counted ((s.unlink j rest).markDone j) j (s.job j).notiType)
    -- what follows the completion of the job, at once or after its callback
    have htail : ∀ m, rest.length ≤ m → ∀ u, Counted (s.unlink j rest) u →
        Leaves s (completed s finished (j :: rest)) (goesOn env m
          (if (s.job j).handle = finished then u.compEnd work env else compLoop work finished env rest u)) := by
      intro m hm u hu
      rw [completed]
      split
      · rw [goesOn_returned (compEnd_threads u work env)]
        exact (compEnd_leaves u work env).cons hl hu
      · have hih := ih (s := u) (n := m) hu.list hm
        have hhandle : ∀ k, (u.job k).handle = (s.job k).handle := hu.handle
        rw [completed_congr hhandle] at hih
        exact hih.cons hl hu
    have hrest : rest.length ≤ n := Nat.le_of_succ_le_succ hn
    rw [compLoop]
    split
    · have hlist : (((s.unlink j rest).markDone j).complete j (s.job j).notiType).1.list = rest := hcc.list
      rw [goesOn]
      simp only [calledLocked, hlist]
      exact (htail n hrest _ hcc).after.after
    · exact (htail (n + 1) (Nat.le_succ_of_le hrest) _ hcc).after

/-! ## The finished job -/

/-- A loop that meets a job of the list stops there. -/
theorem completed_mem (hd : (l.map (fun j => (s.job j).handle)).Nodup) (hk : k ∈ l) :
    completed s (s.job k).handle l = upTo (some k) l := by
  show completed s (s.job k).handle l = if k ∈ l then l.takeWhile (· ≠ k) ++ [k] else []
  rw [if_pos hk]
  induction l with
  | nil => exact absurd hk List.not_mem_nil
  | cons j l ih =>
    rw [List.map_cons, List.nodup_cons] at hd
    rw [completed]
    by_cases hjk : j = k
    · subst hjk
      rw [if_pos rfl, List.takeWhile_cons_of_neg (by simp), List.nil_append]
    · have hkl : k ∈ l := (List.mem_cons.mp hk).resolve_left (Ne.symm hjk)
      have hne : (s.job j).handle ≠ (s.job k).handle := by
        intro heq
        exact hd.1 (heq ▸ List.mem_map_of_mem hkl)
      rw [if_neg hne, List.takeWhile_cons_of_pos (by simpa using hjk), ih hd.2 hkl, List.cons_append]

/-- A loop that does not meet the handle removes all jobs. -/
theorem completed_all {finished : Int} (h : ∀ j ∈ l, (s.job j).handle ≠ finished) :
    completed s finished l = l := by
  induction l with
  | nil => rfl
  | cons j l ih =>
    rw [completed, if_neg (h j List.mem_cons_self), ih (fun k hk => h k (List.mem_cons_of_mem j hk))]

theorem upTo_subset {k : Option Nat} (hj : j ∈ upTo k l) : j ∈ l := by
  cases k with
  | none => exact absurd hj List.not_mem_nil
  | some k =>
    change j ∈ (if k ∈ l then l.takeWhile (· ≠ k) ++ [k] else []) at hj
    split at hj
    · rename_i hk
      rcases List.mem_append.mp hj with hj | hj
      · exact (List.takeWhile_prefix _).subset hj
      · rw [List.mem_singleton.mp hj]
        exact hk
    · exact absurd hj List.not_mem_nil

theorem upTo_notMem (hk : k ∉ l) : upTo (some k) l = [] := if_neg hk

theorem JobList.handle_inj (h : JobList s) (hj : j ∈ s.list) (hk : k ∈ s.list)
    (heq : (s.job j).handle = (s.job k).handle) : j = k :=
  List.inj_on_of_nodup_map h.distinct hj hk heq

/-- The last job is removed when its handle is met. -/
theorem JobList.last_iff (h : JobList s) {k : Option Nat} :
    (∃ j ∈ upTo k s.list, (s.job j).handle = s.handleLast) ↔ ∃ l ∈ s.list.getLast?, l ∈ upTo k s.list := by
  constructor
  · rintro ⟨j, hj, hjh⟩
    have hjl := upTo_subset hj
    obtain ⟨l, hl⟩ : ∃ l, s.list.getLast? = some l := by
      rw [List.getLast?_eq_some_getLast (List.ne_nil_of_mem hjl)]
      exact ⟨_, rfl⟩
    rw [h.last l hl] at hjh
    obtain rfl := h.handle_inj hjl (List.mem_of_mem_getLast? hl) hjh
    exact ⟨j, hl, hj⟩
  · rintro ⟨l, hl, hlu⟩
    exact ⟨l, hlu, (h.last l hl).symm⟩

theorem Leaves.removes {k : Option Nat} (hl : JobList s) (h : Leaves s (upTo k s.list) r) :
    Removes s k r := by
  refine ⟨h.returns, h.list, h.jobNum, ?_⟩
  rw [h.handleLast]
  simp only [hl.last_iff]

/-- Where the current node's job is in the list, so is the finished job. -/
theorem JobList.finishedJob_mem (h : JobList s) (hj : ∀ j, s.nodeJob cur = some j → j ∈ s.list)
    (hk : s.finishedJob idle cur = some k) : k ∈ s.list := by
  obtain ⟨j, hnode, hk⟩ := Option.bind_eq_some_iff.mp hk
  have hjl := hj j hnode
  split at hk
  · rw [← Option.some.inj hk]
    exact hjl
  · obtain ⟨p, hp, hpk⟩ := Option.bind_eq_some_iff.mp hk
    rw [OsiList.prev, if_pos hjl] at hp
    have hpl := (List.takeWhile_prefix _).subset (List.mem_of_mem_getLast? hp)
    rw [h.known p hpl k hpk]
    exact hpl

/-- The current node's job is known by its own handle. -/
theorem JobList.nodeJob_handle (h : JobList s) (hnode : s.nodeJob cur = some j) :
    s.handles (s.job j).handle = some j := by
  rcases cur with _ | ⟨addr, _ | g⟩
  · cases hnode
  · cases hnode
  · change (if s.jobFinished = some addr then none else s.handles g) = some j at hnode
    split at hnode
    · cases hnode
    · rw [h.named g j hnode]
      exact hnode

theorem JobList.finishedJob_notMem (h : JobList s) (hnode : s.nodeJob cur = some j) (hj : j ∉ s.list) :
    s.finishedJob idle cur = some j := by
  unfold OsiList.finishedJob
  rw [hnode, Option.bind_some, OsiList.prev, if_neg hj, Option.bind_some, h.nodeJob_handle hnode, ite_self]

/-- What the loop looks for is the handle of the finished job. -/
theorem JobList.finishedHandle_eq (h : JobList s) {addr : Nat} {g : Int} (hne : s.jobFinished ≠ some addr) :
    s.finishedHandle idle g = (s.finishedJob idle (some (addr, some g))).map (fun k => (s.job k).handle) := by
  have hnode : s.nodeJob (some (addr, some g)) = s.handles g := if_neg hne
  unfold OsiList.finishedHandle OsiList.finishedJob
  rw [hnode]
  cases hg : s.handles g with
  | none => cases idle <;> rfl
  | some j =>
    cases idle with
    | true =>
      show some g = some (s.job j).handle
      rw [h.named g j hg]
    | false =>
      simp only [Bool.false_eq_true, if_false, Option.bind_some]
      cases s.prev j with
      | none => rfl
      | some p =>
        simp only [Option.bind_some]
        cases hp : s.handles (s.job p).handle with
        | none => rfl
        | some k =>
          show some (s.job p).handle = some (s.job k).handle
          rw [h.named _ k hp]

/-- A call that returns before the loop. -/
theorem stop_leaves (hc : Counted s t) (env : Env) (n : Nat) (es : List (Event Nat)) :
    Leaves s [] (goesOn env n ⟨t, es, []⟩) := by
  rw [goesOn_returned rfl]
  refine ⟨rfl, hc.list.symm, hc.jobNum.trans (BitVec.sub_zero s.jobNum).symm, ?_⟩
  rw [if_neg (fun hex => List.not_mem_nil hex.choose_spec.1)]
  exact hc.handleLast

/-- A call removes nothing where there is no finished job, else what the loop removes for its handle. -/
theorem nodeCompCall_leaves (h : JobList s) (idle : Bool) (cur : Option (Nat × Option Int)) (env : Env) :
    Leaves s ((s.finishedJob idle cur).elim [] (fun k => completed s (s.job k).handle s.list))
      (s.nodeCompCall idle cur env) := by
  have hsame : ∀ r m, Counted s { s with jobFinished := r, handleFinished := m } :=
    fun _ _ => ⟨rfl, rfl, rfl, fun _ => rfl⟩
  unfold nodeCompCall
  rcases cur with _ | ⟨addr, _ | g⟩
  · exact stop_leaves (hsame s.jobFinished s.handleFinished) env _ []
  · exact stop_leaves (hsame s.jobFinished s.handleFinished) env _ []
  · by_cases hne : s.jobFinished = some addr
    · have hnone : s.finishedJob idle (some (addr, some g)) = none := by
        simp [OsiList.finishedJob, OsiList.nodeJob, hne]
      rw [hnone, nodeComp, if_pos hne]
      exact stop_leaves (hsame s.jobFinished s.handleFinished) env _ []
    · have hfin : s.finishedHandle idle g =
          (s.finishedJob idle (some (addr, some g))).map (fun k => (s.job k).handle) := h.finishedHandle_eq hne
      rw [nodeComp, if_neg hne]
      cases hjob : s.finishedJob idle (some (addr, some g)) with
      | none =>
        rw [hjob] at hfin
        simp only [hfin]
        exact stop_leaves (hsame _ s.handleFinished) env _ _
      | some k =>
        rw [hjob] at hfin
        simp only [hfin]
        have hu := hsame (s.finishedNode idle addr g) (s.job k).handle
        have hloop := loop_removes (s := { s with
          jobFinished := s.finishedNode idle addr g, handleFinished := (s.job k).handle })
          (!idle) (s.job k).handle env hu.list (Nat.le_refl _)
        rw [completed_congr hu.handle] at hloop
        have hrest : Leaves s (completed s (s.job k).handle s.list) (goesOn env s.list.length _) :=
          ⟨hloop.returns, hloop.list, hloop.jobNum, hloop.handleLast⟩
        exact hrest.after

/-- **`TdeOsiListNodeComp` removes the jobs up to the finished job, and none if that job is not in the list,
    if and only if the job of the current node is in the list**, where there is such a job and any in the
    list. -/
theorem nodeCompCall_removes_iff (h : JobList s) (idle : Bool) (cur : Option (Nat × Option Int)) (env : Env) :
    Removes s (s.finishedJob idle cur) (s.nodeCompCall idle cur env) ↔
      ∀ j, s.nodeJob cur = some j → j ∈ s.list ∨ s.list = [] := by
  have hcall := nodeCompCall_leaves h idle cur env
  constructor
  · intro hr j hnode
    by_contra hnot
    rw [not_or] at hnot
    have hjob : s.finishedJob idle cur = some j := h.finishedJob_notMem hnode hnot.1
    -- no job of the list has the handle, so that all of them are gone
    have hne : ∀ k ∈ s.list, (s.job k).handle ≠ (s.job j).handle := by
      intro k hk heq
      have hjk := h.known k hk j (heq ▸ h.nodeJob_handle hnode)
      exact hnot.1 (hjk ▸ hk)
    have hlist := hcall.list
    have hlist' := hr.list
    rw [hjob, upTo_notMem hnot.1, List.nil_append] at hlist'
    rw [hjob, Option.elim_some, completed_all hne, ← hlist'] at hlist
    exact hnot.2 (List.self_eq_append_right.mp hlist)
  · intro hmem
    refine Leaves.removes h ?_
    cases hjob : s.finishedJob idle cur with
    | none =>
        rw [hjob] at hcall
        exact hcall
    | some k =>
        rw [hjob, Option.elim_some] at hcall
        rcases eq_or_ne s.list [] with hnil | hnil
        · rw [hnil] at hcall ⊢
          exact hcall
        · have hk := h.finishedJob_mem (fun j hj => (hmem j hj).resolve_right hnil) hjob
          rw [completed_mem h.distinct hk] at hcall
          exact hcall

/-! ## Runs -/

/-- `s32HandleLast` is the handle of the last job. -/
def LastNamed (s : OsiList) : Prop := ∀ l, s.list.getLast? = some l → s.handleLast = (s.job l).handle

theorem LastNamed.counted (h : LastNamed s) (hc : Counted s t) : LastNamed t := by
  intro l hl
  rw [hc.list] at hl
  rw [hc.handleLast, hc.handle]
  exact h l hl

theorem modJob_counted (s : OsiList) (j : Nat) {f : Job → Job} (hf : ∀ b, (f b).handle = b.handle) :
    Counted s (s.modJob j f) := by
  refine ⟨rfl, rfl, rfl, fun k => ?_⟩
  rcases eq_or_ne k j with rfl | hk
  · simp [modJob, hf]
  · simp [modJob, hk]

theorem setNotiType_counted (s : OsiList) (j : Nat) (m : NotifyMode) : Counted s (s.setNotiType j m) :=
  modJob_counted s j (fun _ => rfl)

theorem setCount_counted (s : OsiList) (j : Nat) (count : BitVec 8) : Counted s (s.setCount j count) :=
  modJob_counted s j (fun _ => rfl)

theorem addNode_counted (s : OsiList) (j : Nat) (phyBuff : Bool) : Counted s (s.addNode j phyBuff) := by
  refine ⟨rfl, rfl, rfl, fun k => ?_⟩
  exact (modJob_counted s j (f := fun b =>
    { b with nodes := b.nodes ++ [s.nodeBrk], aqUseBuff := b.aqUseBuff || phyBuff }) (fun _ => rfl)).handle k

/-- A job that joins the list is its last. -/
theorem queueJob_last (s : OsiList) (j : Nat) : LastNamed (s.queueJob j).1 := by
  intro l hl
  unfold queueJob at hl ⊢
  split at hl
  all_goals
    obtain rfl : j = l := Option.some.inj (List.getLast?_concat.symm.trans hl)
    rfl

/-- The removal of the first job. -/
theorem unlink_last (h : LastNamed s) (hl : s.list = j :: rest)
    (hd : (s.list.map (fun j => (s.job j).handle)).Nodup) : LastNamed (s.unlink j rest) := by
  intro l hlast
  have hrest : l ∈ rest := List.mem_of_mem_getLast? hlast
  have hs : s.list.getLast? = some l := by
    rw [hl, List.getLast?_cons, show rest.getLast? = some l from hlast]
    rfl
  rw [hl, List.map_cons, List.nodup_cons] at hd
  have hne : (s.job j).handle ≠ s.handleLast := by
    rw [h l hs]
    intro heq
    exact hd.1 (heq ▸ List.mem_map_of_mem hrest)
  show (if (s.job j).handle = s.handleLast then -1 else s.handleLast) = (s.job l).handle
  rw [if_neg hne]
  exact h l hs

theorem compLoop_last (work : Bool) (finished : Int) (env : Env) (h : LastNamed s)
    (hl : s.list = l) (hd : (l.map (fun j => (s.job j).handle)).Nodup) :
    LastNamed (compLoop work finished env l s).osi := by
  induction l generalizing s with
  | nil => exact h
  | cons j rest ih =>
    have hcm := markDone_counted (s.unlink j rest) j
    have hcc := hcm.trans (complete_counted ((s.unlink j rest).markDone j) j (s.job j).notiType)
    have hu := unlink_last h hl (hl ▸ hd)
    rw [compLoop]
    split
    · exact hu.counted hcm
    · show LastNamed (ite _ _ _ : Region).osi
      split
      · exact (hu.counted hcc).counted (compEnd_counted _ work env)
      · refine ih (hu.counted hcc) hcc.list ?_
        have hmap : (rest.map (fun k => (s.job k).handle)).Nodup := (List.nodup_cons.mp hd).2
        convert hmap using 2
        funext k
        exact hcc.handle k

/-- What a state with its invariants says about the list. -/
theorem Own.distinct (h : Own s T) (hb : Base s q) :
    (s.list.map (fun j => (s.job j).handle)).Nodup := by
  refine List.Nodup.map_on ?_ hb.list_nodup
  intro j hj k hk heq
  have hjl : s.handles (s.job j).handle = some j := (h.list j hj).1
  have hkl : s.handles (s.job k).handle = some k := (h.list k hk).1
  rw [heq, hkl] at hjl
  exact (Option.some.inj hjl).symm

theorem Own.jobList (h : Own s T) (hb : Base s q) (hl : LastNamed s) :
    JobList s := by
  refine ⟨fun g j hj => (hb.handles g j hj).2, ?_, h.distinct hb, hl⟩
  intro j hj k hk
  have hjl : s.handles (s.job j).handle = some j := (h.list j hj).1
  rw [hjl] at hk
  exact (Option.some.inj hk).symm

/-- The list is left alone by a thread that goes on, or it gets its job, or a completion goes on. -/
theorem resumePc_last (h : LastNamed s) (pc : Pc) (env : Env)
    (hd : (s.list.map (fun j => (s.job j).handle)).Nodup) : LastNamed (resumePc s env pc).osi := by
  cases pc with
  | submitLock j m asyn => exact (queueJob_last s j).counted (compProc_counted _ env.ok)
  | submitWait j asyn => exact h
  | submitWoken j asyn ret =>
    unfold resumePc submitRelocked
    dsimp only
    split
    · split
      · exact h.counted (destroyJob_counted s j)
      · exact h
    · exact h.counted (setNotiType_counted s j .compl)
  | doneWait j timed => exact h
  | doneWoken j timed ret =>
    have hc := setCount_counted s j ((s.job j).waitForDoneCount - 1)
    unfold resumePc doneRelocked
    dsimp only
    split
    · exact (h.counted hc).counted (destroyJob_counted _ j)
    · exact h.counted hc
  | trace j => exact h
  | callback j kind work finished del => exact h
  | called j kind work finished del =>
    have hc := complete_counted s j kind
    rcases eq_or_ne del finished with heq | hne
    · rw [resumePc, calledLocked_last s j kind work env heq]
      exact (h.counted hc).counted (compEnd_counted _ work env)
    · rw [resumePc, calledLocked_more s j kind work env hne]
      refine compLoop_last work finished env (h.counted hc) rfl ?_
      rw [hc.list]
      convert hd using 2
      funext k
      exact hc.handle k

theorem submitJob_last (h : LastNamed s) (g : Int) (block cb few : Bool) (fence : Option Int) :
    LastNamed (s.submitJob g block cb few fence).osi := by
  have hprep : ∀ j m fence', LastNamed (s.prepare j m cb fence') :=
    fun j _ _ => h.counted (modJob_counted s j (fun _ => rfl))
  unfold submitJob
  split
  · exact h
  · split
    · exact h
    · split
      · exact h.counted ⟨rfl, rfl, rfl, fun _ => rfl⟩
      · split
        · exact hprep _ _ _
        · split
          · exact hprep _ _ _
          · split <;> exact hprep _ _ _

/-- **Step lemma.** -/
theorem step_last {s t : St} {i : Input} (h : LastNamed s.osi)
    (hi : Inv s.osi (lockers s.threads)) (hown : Own s.osi s.threads) (hstep : step s i = some (t, es)) :
    LastNamed t.osi := by
  have hd := hown.distinct hi.base
  unfold step at hstep
  obtain ⟨⟨r, T⟩, hregion, hrt⟩ := Option.map_eq_some_iff.mp hstep
  obtain ⟨rfl, rfl⟩ := Prod.mk.inj hrt
  show LastNamed r.osi
  cases i with
  | beginJob g =>
    rw [region] at hregion
    split at hregion
    · cases hregion
      intro l hl
      have hlt := (hi.base.list_job l (List.mem_of_mem_getLast? hl)).1
      have hjob : ((s.osi.beginJob g).osi.job l) = s.osi.job l :=
        Function.update_of_ne (Nat.ne_of_lt hlt) _ _
      rw [hjob]
      exact h l hl
    · cases hregion
  | setNodeFinish g phyBuff =>
    cases hregion
    unfold setNodeFinish
    split
    · exact h
    · split
      · exact h
      · exact h.counted (addNode_counted s.osi _ phyBuff)
  | cancelJob g =>
    cases hregion
    unfold cancelJob
    split
    · exact h
    · split
      · exact h
      · exact h.counted ⟨rfl, rfl, rfl, fun _ => rfl⟩
  | submitJob g block cb few fence =>
    cases hregion
    exact submitJob_last h g block cb few fence
  | waitForDone g timed =>
    cases hregion
    unfold waitForDone
    split
    · exact h
    · split
      · exact h.counted (setCount_counted s.osi _ _)
      · exact h
  | nodeComp idle cur env =>
    cases hregion
    have hset : ∀ r m, Counted s.osi { s.osi with jobFinished := r, handleFinished := m } :=
      fun _ _ => ⟨rfl, rfl, rfl, fun _ => rfl⟩
    rcases nodeComp_cases s.osi idle cur env with heq | ⟨addr, g, rfl, _, hcase⟩
    · rw [heq]
      exact h
    · rcases hcase with ⟨_, heq⟩ | ⟨finished, _, heq⟩
      · rw [heq]
        exact h.counted (hset _ s.osi.handleFinished)
      · rw [heq]
        exact compLoop_last _ finished env (h.counted (hset _ finished)) rfl hd
  | compProc ok =>
    cases hregion
    exact h.counted (compProc_counted s.osi ok)
  | reset =>
    cases hregion
    intro l hl
    have hnil : s.osi.reset.osi.list = [] := (resetLoop_base hi.base rfl).2.1
    rw [hnil] at hl
    cases hl
  | resume n env =>
    obtain ⟨pc, _, heq⟩ := Option.map_eq_some_iff.mp hregion
    obtain ⟨rfl, rfl⟩ := Prod.mk.inj heq
    exact resumePc_last h pc env hd

/-- **Job lists of runs.** -/
theorem run_jobList {is : List Input} {s : St}
    (h : Run step Orderly St.init is s es) : JobList s.osi := by
  have hlast : (Inv s.osi (lockers s.threads) ∧ Own s.osi s.threads) ∧ LastNamed s.osi := by
    refine Run.inv (fun _ s => (Inv s.osi (lockers s.threads) ∧ Own s.osi s.threads) ∧ LastNamed s.osi)
      ⟨⟨init_inv, init_own⟩, fun _ hl => by cases hl⟩ ?_ h
    rintro _ s i t fs ⟨⟨hi, hown⟩, hl⟩ hC hnext
    exact ⟨⟨step_inv hi hC.1 hnext, (step_own hi hown hC hnext).1⟩, step_last hl hi hown hnext⟩
  exact hlast.1.2.jobList hlast.1.1.base hlast.2

/-! ## Calls in runs -/

/-- Three jobs, of which the engine has finished the second; the first one has a callback. -/
def secondInputs : List Input :=
  [.beginJob 1, .setNodeFinish 1 false, .submitJob 1 false true false none, .resume 0 ⟨.done, false, true⟩,
    .beginJob 2, .setNodeFinish 2 false, .submitJob 2 false false false none, .resume 0 ⟨.done, false, true⟩,
    .beginJob 3, .setNodeFinish 3 false, .submitJob 3 false false false none, .resume 0 ⟨.done, false, true⟩]

/-- The jobs up to the finished one are removed. -/
theorem nodeCompCall_removes_second : ∃ s es, Run step Orderly St.init secondInputs s es ∧
    s.osi.list = [0, 1, 2] ∧ s.osi.finishedJob false (some (2, some 3)) = some 1 ∧
    Removes s.osi (some 1) (s.osi.nodeCompCall false (some (2, some 3)) ⟨.done, false, true⟩) := by
  refine exists_run_imp (fun s _ => s.osi.list = [0, 1, 2] ∧ s.osi.finishedJob false (some (2, some 3)) = some 1 ∧
    s.osi.nodeJob (some (2, some 3)) = some 2)
    (by decide) fun _ _ hrun htest => ?_
  obtain ⟨hlist, hjob, hnode⟩ := htest
  have hiff := nodeCompCall_removes_iff (run_jobList hrun) false (some (2, some 3)) ⟨.done, false, true⟩
  rw [hjob] at hiff
  refine ⟨hlist, hjob, hiff.mpr (fun j hj => ?_)⟩
  rw [hnode] at hj
  rw [← Option.some.inj hj, hlist]
  simp

/-- A thread waits for the first job and has not gone on yet when the second one is started; the register
    still shows the first job's node. -/
def staleInputs : List Input :=
  [.beginJob 1, .setNodeFinish 1 false, .submitJob 1 false false false none, .resume 0 ⟨.done, false, true⟩,
    .waitForDone 1 false,
    .beginJob 2, .setNodeFinish 2 false, .submitJob 2 false false false none, .resume 0 ⟨.done, false, false⟩,
    .nodeComp true (some (0, some 1)) ⟨.done, true, true⟩]

/-- **The second job is removed and freed while the engine runs it.** -/
theorem nodeCompCall_removes_running : ∃ s es, Run step Orderly St.init staleInputs s es ∧
    s.osi.list = [1] ∧ s.osi.jobCommitted = some 1 ∧ s.osi.finishedJob false (some (0, some 1)) = some 0 ∧
    (s.osi.nodeCompCall false (some (0, some 1)) ⟨.done, false, true⟩).osi.list = [] ∧
    Event.free 1 ∈ (s.osi.nodeCompCall false (some (0, some 1)) ⟨.done, false, true⟩).events ∧
    ¬ Removes s.osi (s.osi.finishedJob false (some (0, some 1)))
      (s.osi.nodeCompCall false (some (0, some 1)) ⟨.done, false, true⟩) := by
  refine exists_run_imp (fun s _ => s.osi.list = [1] ∧ s.osi.jobCommitted = some 1 ∧
    s.osi.finishedJob false (some (0, some 1)) = some 0 ∧
    (s.osi.nodeCompCall false (some (0, some 1)) ⟨.done, false, true⟩).osi.list = [] ∧
    Event.free 1 ∈ (s.osi.nodeCompCall false (some (0, some 1)) ⟨.done, false, true⟩).events)
    (by decide) fun _ _ _ htest => ?_
  obtain ⟨hlist, hrunning, hjob, hgone, hfree⟩ := htest
  refine ⟨hlist, hrunning, hjob, hgone, hfree, fun hr => ?_⟩
  have hkept := hr.list
  rw [hjob, hlist, hgone, upTo_notMem (by decide)] at hkept
  cases hkept

end HiSTB.Tde
