import HiSTB.Lib.Lifetime
import HiSTB.Lib.LinkedQueue

/-!
# `Tde.OsiList` — the job list of the TDE driver (`tde_osilist_k.c`)

A job is a chain of command nodes for the drawing engine, known to its users by a handle. Submitted jobs stand
in a list until the engine has run them. Jobs that could not be started yet are linked to each other through
the hardware links of their nodes, so that one start runs them all. `TdeOsiListSubmitJob`,
`TdeOsiListWaitForDone` and `TdeOsiListNodeComp` give the list's lock away in the middle, so each of them is a
chain of regions, and `Pc` is the place where a thread goes on.

Jobs and nodes are numbered in the order of their creation; a number is never used again, a handle is. The
handle manager is the map `handles`: a job is freed together with its handle. `TDE_MALLOC` hands out zeroed
memory, which the driver relies on. An event `access` stands for all reads and writes of a job in a row.

Left out: the callback's argument, the process id, the contents of the command nodes with their update flags
(a constant), the temporary buffers and the cache flushes. The engine and the kernel answer through inputs.
-/

namespace HiSTB.Tde

open Lib Lifetime LinkedQueue

/-- `TDE_NOTIFY_MODE_E`. -/
inductive NotifyMode
  | wake
  | compl
  | butt
  deriving DecidableEq

/-- `TDE_SWJOB_S`; `nodes` are the command nodes from `pstFirstCmd` to `pstTailNode`. -/
structure Job where
  handle : Int
  complCB : Bool
  notiType : NotifyMode
  nodes : List Nat
  submitted : Bool
  aqUseBuff : Bool
  waitForDoneCount : BitVec 8
  releaseFenceFd : Int

/-- `TDE_SWJOBLIST_S`, with the memory of jobs and nodes, the handle manager, and the nodes handed to the
    engine so far. -/
structure OsiList where
  job : Nat → Job
  brk : Nat
  handles : Int → Option Nat
  next : Nat → Option Nat
  nodeBrk : Nat
  executed : List Nat
  list : List Nat
  handleLast : Int
  handleFinished : Int
  jobNum : BitVec 32
  jobCommitted : Option Nat
  jobToCommit : Option Nat
  jobFinished : Option Nat
  jobLast : Option Nat

/-- The answer of `wait_event_interruptible` and its variant with a timeout. -/
inductive WaitRet
  | done
  | timeout
  | interrupted
  deriving DecidableEq

/-- Where a thread goes on, with its local variables. -/
inductive Pc
  /-- `TdeOsiListSubmitJob`, before its first `TDE_LOCK`. -/
  | submitLock (j : Nat) (notiType : NotifyMode) (asyn : Bool)
  /-- `TdeOsiListSubmitJob`, asleep. -/
  | submitWait (j : Nat) (asyn : Bool)
  /-- `TdeOsiListSubmitJob`, awake, before its second `TDE_LOCK`. -/
  | submitWoken (j : Nat) (asyn : Bool) (ret : WaitRet)
  /-- `TdeOsiListWaitForDone`, asleep. -/
  | doneWait (j : Nat) (timed : Bool)
  /-- `TdeOsiListWaitForDone`, awake, before its second `TDE_LOCK`. -/
  | doneWoken (j : Nat) (timed : Bool) (ret : WaitRet)
  /-- A trace with the job's handle that follows the last `TDE_UNLOCK`. -/
  | trace (j : Nat)
  /-- `TdeOsiListNodeComp`, before the call of the callback. -/
  | callback (j : Nat) (kind : NotifyMode) (work : Bool) (finished del : Int)
  /-- `TdeOsiListNodeComp`, after the callback, before `TDE_LOCK`. -/
  | called (j : Nat) (kind : NotifyMode) (work : Bool) (finished del : Int)
  deriving DecidableEq

/-- What a region leaves behind: the list, what happened to jobs, and the threads that go on. -/
structure Region where
  osi : OsiList
  events : List (Event Nat)
  threads : List Pc

/-- Events before a region. -/
def Region.after (r : Region) (es : List (Event Nat)) : Region :=
  { r with events := es ++ r.events }

/-- What the environment answers in a region: the wait, `TdeHalCtlIsIdleSafely`, `TdeHalNodeExecute`. -/
structure Env where
  ret : WaitRet
  idle : Bool
  ok : Bool

namespace OsiList

/-- `TdeOsiListInit`. -/
def init : OsiList where
  job := fun _ => ⟨0, false, .wake, [], false, false, 0, 0⟩
  brk := 0
  handles := fun _ => none
  next := fun _ => none
  nodeBrk := 0
  executed := []
  list := []
  handleLast := 0
  handleFinished := 0
  jobNum := 0
  jobCommitted := none
  jobToCommit := none
  jobFinished := none
  jobLast := none

/-- Write fields of a job. -/
def modJob (s : OsiList) (j : Nat) (f : Job → Job) : OsiList :=
  { s with job := Function.update s.job j (f (s.job j)) }

/-- Write `enNotiType`. -/
def setNotiType (s : OsiList) (j : Nat) (notiType : NotifyMode) : OsiList :=
  s.modJob j (fun b => { b with notiType := notiType })

/-- Write `u8WaitForDoneCount`. -/
def setCount (s : OsiList) (j : Nat) (count : BitVec 8) : OsiList :=
  s.modJob j (fun b => { b with waitForDoneCount := count })

/-! ## Building and destroying jobs -/

/-- `TdeOsiListBeginJob`, where `get_handle` answers `h`. -/
def beginJob (s : OsiList) (h : Int) : Region where
  osi :=
    { s with
      job := Function.update s.job s.brk ⟨h, false, .wake, [], false, false, 0, -1⟩
      brk := s.brk + 1
      handles := Function.update s.handles h (some s.brk) }
  events := [.access s.brk]
  threads := []

/-- A command node goes to the end of the job, and the tail node links to it. -/
def addNode (s : OsiList) (j : Nat) (phyBuff : Bool) : OsiList :=
  { s.modJob j (fun b =>
      { b with nodes := b.nodes ++ [s.nodeBrk], aqUseBuff := b.aqUseBuff || phyBuff }) with
    nodeBrk := s.nodeBrk + 1
    next := linkTail s.next (s.job j).nodes (some s.nodeBrk) }

/-- `TdeOsiSetNodeFinish` of `tde_osictl_k.c`, for a job whose handle the caller has. -/
def setNodeFinish (s : OsiList) (h : Int) (phyBuff : Bool) : Region :=
  match s.handles h with
  | none => ⟨s, [], []⟩
  | some j =>
    if (s.job j).submitted then ⟨s, [.access j], []⟩ else ⟨s.addNode j phyBuff, [.access j], []⟩

/-- `release_handle`. -/
def releaseHandle (s : OsiList) (h : Int) : OsiList :=
  { s with handles := Function.update s.handles h none }

/-- `TdeOsiListDestroyJob`. -/
def destroyJob (s : OsiList) (j : Nat) : OsiList × List (Event Nat) :=
  match s.handles (s.job j).handle with
  | none => (s, [.access j])
  | some k => (s.releaseHandle (s.job j).handle, [.access j, .free k])

/-- `TdeOsiListSafeDestroyJob`: with users waiting for the job, the last of them destroys it. -/
def safeDestroyJob (s : OsiList) (j : Nat) : OsiList × List (Event Nat) :=
  if (s.job j).waitForDoneCount ≠ 0 then (s.setNotiType j .butt, [.access j])
  else s.destroyJob j

/-- `TdeOsiListCancelJob`. -/
def cancelJob (s : OsiList) (h : Int) : Region :=
  match s.handles h with
  | none => ⟨s, [], []⟩
  | some j =>
    if (s.job j).submitted then ⟨s, [.access j], []⟩
    else ⟨s.releaseHandle h, [.access j, .free j], []⟩

/-! ## `TdeOsiListCompProc` -/

/-- `TdeOsiListCompProc`, where `TdeHalNodeExecute` answers `ok`. From its first node on the engine follows
    the links of the nodes. -/
def compProc (s : OsiList) (ok : Bool) : OsiList × List (Event Nat) :=
  match s.jobToCommit with
  | none => (s, [])
  | some c =>
    if ok then
      ({ s with
         executed := s.executed ++ follow s.next s.nodeBrk (s.job c).nodes.head?
         jobCommitted := some c
         jobToCommit := none
         jobFinished := none }, [.access c])
    else (s, [.access c])

/-! ## `TdeOsiListSubmitJob` -/

/-- The fields a submission sets, with the fence where there is one. -/
def prepare (s : OsiList) (j : Nat) (notiType : NotifyMode) (cb : Bool) (fence : Option Int) : OsiList :=
  s.modJob j (fun b =>
    { b with
      submitted := true
      notiType := notiType
      complCB := cb
      releaseFenceFd := fence.getD b.releaseFenceFd })

/-- `TdeOsiListSubmitJob` up to its first `TDE_LOCK`, called from `TdeOsiEndJob` or `TdeOsiEndJobEx`. `few`
    says that the call may block and that few nodes are free, `fence` is the answer of `TDE_FENCE_Create`
    where the caller wants a fence. -/
def submitJob (s : OsiList) (h : Int) (block cb few : Bool) (fence : Option Int) : Region :=
  match s.handles h with
  | none => ⟨s, [], []⟩
  | some j =>
    if (s.job j).submitted then ⟨s, [.access j], []⟩
    else if (s.job j).nodes = [] then ⟨s.releaseHandle h, [.access j, .free j], []⟩
    else if block || few then
      ⟨s.prepare j .wake cb none, [.access j], [.submitLock j .wake (!block)]⟩
    else
      match fence with
      | none => ⟨s.prepare j .compl cb none, [.access j], [.submitLock j .compl false]⟩
      | some fd =>
        if fd < 0 then ⟨s.prepare j .compl cb none, [.access j], []⟩
        else ⟨s.prepare j .compl cb (some fd), [.access j], [.submitLock j .compl false]⟩

/-- A job behind jobs that wait for their start: the tail node of `pstJobLast` links to its first node. -/
def linkJob (s : OsiList) (j c l : Nat) : OsiList :=
  { s.modJob c (fun b => { b with aqUseBuff := b.aqUseBuff || (s.job j).aqUseBuff }) with
    next := linkTail s.next (s.job l).nodes (s.job j).nodes.head? }

/-- `TdeOsiListAddJob`. -/
def addJob (s : OsiList) (j : Nat) : OsiList :=
  { s with
    list := s.list ++ [j]
    jobNum := s.jobNum + 1
    handleLast := (s.job j).handle
    jobLast := some j }

/-- The job joins those that wait for their start, or is the first of them; then it joins the list. The last
    event is the link of the list's last element. -/
def queueJob (s : OsiList) (j : Nat) : OsiList × List (Event Nat) :=
  match s.jobToCommit, s.jobLast with
  -- `pstJobLast` is set whenever `pstJobToCommit` is
  | some c, some l => ((s.linkJob j c l).addJob j, ([l, j, c] ++ s.list.getLast?.toList).map .access)
  | _, _ => ({ s with jobToCommit := some j }.addJob j, ([j] ++ s.list.getLast?.toList).map .access)

/-- The first locked region of `TdeOsiListSubmitJob`. -/
def submitLocked (s : OsiList) (j : Nat) (notiType : NotifyMode) (asyn ok : Bool) : Region :=
  let q := s.queueJob j
  let r := q.1.compProc ok
  ⟨r.1, q.2 ++ r.2, if notiType = .wake then [.submitWait j asyn] else []⟩

/-- The condition of all waits is that the job is done; a signal is looked at after the condition. -/
def waitReturns (s : OsiList) (j : Nat) (timed : Bool) : WaitRet → Bool
  | .done => (s.job j).notiType = .butt
  | .timeout => timed
  | .interrupted => (s.job j).notiType ≠ .butt

/-- The second locked region of `TdeOsiListSubmitJob`. -/
def submitRelocked (s : OsiList) (j : Nat) (asyn : Bool) (ret : WaitRet) : Region :=
  if (s.job j).notiType = .butt then
    if (s.job j).waitForDoneCount = 0 then ⟨(s.destroyJob j).1, (s.destroyJob j).2, []⟩
    else ⟨s, [.access j], []⟩
  else
    ⟨s.setNotiType j .compl, [.access j],
      if ret = .interrupted ∨ asyn = false then [.trace j] else []⟩

/-! ## `TdeOsiListWaitForDone` -/

/-- The first locked region of `TdeOsiListWaitForDone`. -/
def waitForDone (s : OsiList) (h : Int) (timed : Bool) : Region :=
  match s.handles h with
  | none => ⟨s, [], []⟩
  | some j =>
    if (s.job j).submitted then
      ⟨s.setCount j ((s.job j).waitForDoneCount + 1), [.access j], [.doneWait j timed]⟩
    else ⟨s, [.access j], []⟩

/-- Does the second locked region destroy the job? The count is the one before the region. -/
def lastWaiter (s : OsiList) (j : Nat) (timed : Bool) (ret : WaitRet) : Bool :=
  (s.job j).waitForDoneCount - 1 = 0 ∧
    ((s.job j).notiType = .butt ∨ (timed = false ∧ ret ≠ .interrupted))

/-- A trace follows the second locked region. -/
def waitTraces (s : OsiList) (j : Nat) (timed : Bool) (ret : WaitRet) : Bool :=
  if timed then (s.job j).notiType ≠ .butt else ret = .interrupted

/-- The second locked region of `TdeOsiListWaitForDone`. -/
def doneRelocked (s : OsiList) (j : Nat) (timed : Bool) (ret : WaitRet) : Region :=
  let t := s.setCount j ((s.job j).waitForDoneCount - 1)
  let traces := if s.waitTraces j timed ret then [Pc.trace j] else []
  if s.lastWaiter j timed ret then ⟨(t.destroyJob j).1, (t.destroyJob j).2, traces⟩
  else ⟨t, [.access j], traces⟩

/-! ## `TdeOsiListNodeComp` -/

/-- `stList.prev` of a job: the job before it, or `none` for the list head. A job outside the list links to
    itself. -/
def prev (s : OsiList) (j : Nat) : Option Nat :=
  if j ∈ s.list then (s.list.takeWhile (· ≠ j)).getLast? else some j

/-- The job whose end the current node shows, as far as the handle manager knows it: the node's own job when
    the engine is idle, else the job before it. -/
def finishedHandle (s : OsiList) (idle : Bool) (h : Int) : Option Int :=
  if idle then if (s.handles h).isSome then some h else none
  else (s.handles h).bind (fun j => (s.prev j).bind (fun k =>
    if (s.handles (s.job k).handle).isSome then some (s.job k).handle else none))

/-- The jobs read on the way. -/
def finishedReads (s : OsiList) (idle : Bool) (h : Int) : List Nat :=
  if idle then [] else (s.handles h).elim [] (fun j => j :: (s.prev j).toList)

/-- `pstJobFinished` on the way: only a return before it is set leaves it alone. -/
def finishedNode (s : OsiList) (idle : Bool) (addr : Nat) (h : Int) : Option Nat :=
  if idle then some addr else if ((s.handles h).bind s.prev).isSome then none else s.jobFinished

/-- `list_del_init` of the first job, and the counters. -/
def unlink (s : OsiList) (j : Nat) (rest : List Nat) : OsiList :=
  { s with
    list := rest
    jobNum := s.jobNum - 1
    handleLast := if (s.job j).handle = s.handleLast then -1 else s.handleLast }

/-- A removed job that a blocking caller waits for is marked as done. -/
def markDone (s : OsiList) (j : Nat) : OsiList :=
  if (s.job j).notiType = .wake then s.setNotiType j .butt else s

/-- What follows the callback: waiters are woken, or the job is destroyed. -/
def complete (s : OsiList) (j : Nat) : NotifyMode → OsiList × List (Event Nat)
  | .wake => (s, [.access j])
  | .compl => s.safeDestroyJob j
  | .butt => (s, [])

/-- The end of the loop: the engine is started again if it is idle still. -/
def compEnd (s : OsiList) (work : Bool) (env : Env) : Region :=
  if work = false ∧ env.idle then ⟨(s.compProc env.ok).1, (s.compProc env.ok).2, []⟩ else ⟨s, [], []⟩

/-- `while (!list_empty(…))`; the lock is given away where a job has a callback. -/
def compLoop (work : Bool) (finished : Int) (env : Env) : List Nat → OsiList → Region
  | [], s => ⟨s, [], []⟩
  | j :: rest, s =>
    let kind := (s.job j).notiType
    let del := (s.job j).handle
    let t := (s.unlink j rest).markDone j
    let es := (j :: rest.head?.toList).map Event.access
    if (s.job j).complCB ∧ kind ≠ .butt then ⟨t, es, [.callback j kind work finished del]⟩
    else
      let c := t.complete j kind
      let r := if del = finished then c.1.compEnd work env else compLoop work finished env rest c.1
      r.after (es ++ c.2)

/-- `TdeOsiListNodeComp` up to its end or the first callback. `idle` is the first answer of
    `TdeHalCtlIsIdleSafely`; `cur` is `TdeHalCurNode`, with the handle stored before the node if `wgetvrt`
    finds it. -/
def nodeComp (s : OsiList) (idle : Bool) (cur : Option (Nat × Option Int)) (env : Env) : Region :=
  match cur with
  | some (addr, some h) =>
    if s.jobFinished = some addr then ⟨s, [], []⟩
    else
      let t := { s with jobFinished := s.finishedNode idle addr h }
      let es := (s.finishedReads idle h).map Event.access
      match s.finishedHandle idle h with
      | none => ⟨t, es, []⟩
      | some finished => (compLoop (!idle) finished env t.list { t with handleFinished := finished }).after es
  | _ => ⟨s, [], []⟩

/-- `TdeOsiListNodeComp` from the `TDE_LOCK` after a callback on. -/
def calledLocked (s : OsiList) (j : Nat) (kind : NotifyMode) (work : Bool) (finished del : Int)
    (env : Env) : Region :=
  let c := s.complete j kind
  let r := if del = finished then c.1.compEnd work env else compLoop work finished env c.1.list c.1
  r.after c.2

/-! ## `TdeOsiListReset` -/

/-- The handles and the cursors are cleared. -/
def clearCursors (s : OsiList) : OsiList :=
  { s with
    handleFinished := -1
    handleLast := -1
    jobCommitted := none
    jobToCommit := none
    jobLast := none }

/-- One round of the loop of `TdeOsiListReset`. -/
def resetJob (s : OsiList) (j : Nat) (rest : List Nat) : OsiList × List (Event Nat) :=
  let t := { s with list := rest, jobNum := s.jobNum - 1 }.markDone j
  let c := match (s.job j).notiType with
    | .wake => (t, [])
    | .compl => t.safeDestroyJob j
    | .butt => (t, [])
  (c.1.clearCursors, (j :: rest.head?.toList).map Event.access ++ c.2)

/-- `while (!list_empty(…))` of `TdeOsiListReset`. -/
def resetLoop : List Nat → OsiList → OsiList × List (Event Nat)
  | [], s => (s, [])
  | j :: rest, s =>
    let c := s.resetJob j rest
    let r := resetLoop rest c.1
    (r.1, c.2 ++ r.2)

/-- `TdeOsiListReset`, after the engine was found idle. -/
def reset (s : OsiList) : Region :=
  let r := resetLoop s.list s
  ⟨r.1, r.2, []⟩

end OsiList

/-! ## The driver as a machine -/

/-- The list and the threads inside its operations. -/
structure St where
  osi : OsiList
  threads : List Pc

/-- A call of an operation, or a thread that goes on. -/
inductive Input
  | beginJob (h : Int)
  | setNodeFinish (h : Int) (phyBuff : Bool)
  | cancelJob (h : Int)
  | submitJob (h : Int) (block cb few : Bool) (fence : Option Int)
  | waitForDone (h : Int) (timed : Bool)
  | nodeComp (idle : Bool) (cur : Option (Nat × Option Int)) (env : Env)
  | compProc (ok : Bool)
  | reset
  | resume (t : Nat) (env : Env)

/-- A thread goes on. A sleeping thread looks at its job when it is woken, and sleeps on if the wait does not
    return. -/
def resumePc (s : OsiList) (env : Env) : Pc → Region
  | .submitLock j notiType asyn => s.submitLocked j notiType asyn env.ok
  | .submitWait j asyn =>
    ⟨s, [.access j],
      [if s.waitReturns j true env.ret then .submitWoken j asyn env.ret else .submitWait j asyn]⟩
  | .submitWoken j asyn ret => s.submitRelocked j asyn ret
  | .doneWait j timed =>
    ⟨s, [.access j],
      [if s.waitReturns j timed env.ret then .doneWoken j timed env.ret else .doneWait j timed]⟩
  | .doneWoken j timed ret => s.doneRelocked j timed ret
  | .trace j => ⟨s, [.access j], []⟩
  | .callback j kind work finished del => ⟨s, [.access j], [.called j kind work finished del]⟩
  | .called j kind work finished del => s.calledLocked j kind work finished del env

/-- The region of an input, and the threads that have no part in it; `none` for a handle that the manager
    cannot give, or a thread that is not there. -/
def region (s : St) : Input → Option (Region × List Pc)
  | .beginJob h => if (s.osi.handles h).isNone then some (s.osi.beginJob h, s.threads) else none
  | .setNodeFinish h phyBuff => some (s.osi.setNodeFinish h phyBuff, s.threads)
  | .cancelJob h => some (s.osi.cancelJob h, s.threads)
  | .submitJob h block cb few fence => some (s.osi.submitJob h block cb few fence, s.threads)
  | .waitForDone h timed => some (s.osi.waitForDone h timed, s.threads)
  | .nodeComp idle cur env => some (s.osi.nodeComp idle cur env, s.threads)
  | .compProc ok => some (⟨(s.osi.compProc ok).1, (s.osi.compProc ok).2, []⟩, s.threads)
  | .reset => some (s.osi.reset, s.threads)
  | .resume t env =>
    s.threads[t]?.map (fun pc => (resumePc s.osi env pc, s.threads.eraseIdx t))

/-- One region. -/
def step (s : St) (i : Input) : Option (St × List (Event Nat)) :=
  (region s i).map (fun r => (⟨r.1.osi, r.1.threads ++ r.2⟩, r.1.events))

/-- The driver after `TdeOsiListInit`. -/
def St.init : St := ⟨OsiList.init, []⟩

end HiSTB.Tde
