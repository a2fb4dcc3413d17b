import HiSTB.Tde.OsiList
import Mathlib.Data.List.Nodup

/-!
# `Tde.Correctness.Memory` — what the memory of jobs and nodes keeps

The list of jobs is in two parts, `done ++ pend`: the engine was started on the first part, and
`pstJobToCommit` is the first job of the second. `Split` says so, and that the links of the nodes lead through
the second part in order. `Base` is what the memory of jobs and nodes keeps meanwhile: every node has one
owner, and a job outside the list is a chain of its own.

* `Base.frame`, `Split.frame` — writes that leave links, list and cursors alone;
* `beginJob_inv`, `addNode_inv` — a job is built.
-/

namespace HiSTB.Tde

open Lib Lifetime LinkedQueue OsiList

variable {l : List Nat} {n k : Nat} {q' : Nat → Nat}

/-! ## Invariants -/

/-- The command nodes of jobs, in order. -/
def OsiList.nodesOf (s : OsiList) (l : List Nat) : List Nat := l.flatMap (fun j => (s.job j).nodes)

/-- The nodes the engine runs when it is started on a job. -/
def OsiList.runsFrom (s : OsiList) (c : Nat) : List Nat := follow s.next s.nodeBrk (s.job c).nodes.head?

/-- What the memory of jobs and nodes keeps; `q j` threads are on their way to put job `j` into the list. -/
structure Base (s : OsiList) (q : Nat → Nat) : Prop where
  handles : ∀ h j, s.handles h = some j → j < s.brk ∧ (s.job j).handle = h
  nodes_lt : ∀ j, ∀ n ∈ (s.job j).nodes, n < s.nodeBrk
  nodes_own : ∀ j k n, n ∈ (s.job j).nodes → n ∈ (s.job k).nodes → j = k
  nodes_nodup : ∀ j, (s.job j).nodes.Nodup
  executed_lt : ∀ n ∈ s.executed, n < s.nodeBrk
  executed_nodup : s.executed.Nodup
  fresh : ∀ n, s.nodeBrk ≤ n → s.next n = none
  list_nodup : s.list.Nodup
  list_job : ∀ j ∈ s.list, j < s.brk ∧ (s.job j).submitted = true ∧ (s.job j).nodes ≠ []
  queue_one : ∀ j, q j ≤ 1
  queue_job : ∀ j, 0 < q j →
    j ∉ s.list ∧ j < s.brk ∧ (s.job j).submitted = true ∧ (s.job j).nodes ≠ []
  unqueued : ∀ j, (s.job j).submitted = false ∨ 0 < q j →
    Chain s.next (s.job j).nodes.head? (s.job j).nodes ∧ ∀ n ∈ (s.job j).nodes, n ∉ s.executed

/-- The list is `done ++ pend`, and the engine was started on `done`. -/
structure Split (s : OsiList) (done pend : List Nat) : Prop where
  list : s.list = done ++ pend
  first : s.jobToCommit = pend.head?
  last : pend ≠ [] → s.jobLast = pend.getLast?
  chain : Chain s.next (s.nodesOf pend).head? (s.nodesOf pend)
  pending : ∀ n ∈ s.nodesOf pend, n ∉ s.executed
  committed : ∀ n ∈ s.nodesOf done, n ∈ s.executed

/-- Both, for the threads of a state. -/
structure Inv (s : OsiList) (q : Nat → Nat) : Prop where
  base : Base s q
  split : ∃ done pend, Split s done pend

variable {s t : OsiList} {q : Nat → Nat} {done pend : List Nat} {j : Nat}

theorem mem_nodesOf : n ∈ s.nodesOf l ↔ ∃ j ∈ l, n ∈ (s.job j).nodes :=
  List.mem_flatMap

theorem nodesOf_append (s : OsiList) (l m : List Nat) : s.nodesOf (l ++ m) = s.nodesOf l ++ s.nodesOf m :=
  List.flatMap_append

/-- The nodes of jobs depend on nothing else. -/
theorem nodesOf_congr (h : ∀ j ∈ l, (t.job j).nodes = (s.job j).nodes) :
    t.nodesOf l = s.nodesOf l :=
  List.flatMap_congr h

/-- No node is in two jobs. -/
theorem Base.nodesOf_nodup (hb : Base s q) (hl : l.Nodup) : (s.nodesOf l).Nodup := by
  refine List.nodup_flatMap.mpr ⟨fun j _ => hb.nodes_nodup j, hl.imp ?_⟩
  intro j k hjk n hnj hnk
  exact hjk (hb.nodes_own j k n hnj hnk)

/-- A job that was not submitted is not in the list, nor on its way there. -/
theorem Base.unsubmitted (hb : Base s q) (hj : (s.job j).submitted = false) : j ∉ s.list ∧ q j = 0 := by
  refine ⟨fun hmem => ?_, Nat.eq_zero_of_not_pos (fun hpos => ?_)⟩
  · rw [(hb.list_job j hmem).2.1] at hj
    cases hj
  · rw [(hb.queue_job j hpos).2.2.1] at hj
    cases hj

/-! ## Frames -/

/-- A change that leaves the links, the list and its cursors alone. -/
structure Frame (s t : OsiList) : Prop where
  job : ∀ j, (t.job j).nodes = (s.job j).nodes ∧ (t.job j).handle = (s.job j).handle ∧
    (t.job j).submitted = (s.job j).submitted
  brk : t.brk = s.brk
  nodeBrk : t.nodeBrk = s.nodeBrk
  next : t.next = s.next
  executed : t.executed = s.executed
  list : t.list = s.list
  jobToCommit : t.jobToCommit = s.jobToCommit
  jobLast : t.jobLast = s.jobLast
  handles : ∀ h j, t.handles h = some j → s.handles h = some j

theorem Frame.refl (s : OsiList) : Frame s s :=
  ⟨fun _ => ⟨rfl, rfl, rfl⟩, rfl, rfl, rfl, rfl, rfl, rfl, rfl, fun _ _ h => h⟩

/-- What leaves the lists alone may be repeated. -/
theorem Frame.trans {u : OsiList} (h : Frame s t) (h' : Frame t u) : Frame s u where
  job := fun j => ⟨(h'.job j).1.trans (h.job j).1, (h'.job j).2.1.trans (h.job j).2.1,
    (h'.job j).2.2.trans (h.job j).2.2⟩
  brk := h'.brk.trans h.brk
  nodeBrk := h'.nodeBrk.trans h.nodeBrk
  next := h'.next.trans h.next
  executed := h'.executed.trans h.executed
  list := h'.list.trans h.list
  jobToCommit := h'.jobToCommit.trans h.jobToCommit
  jobLast := h'.jobLast.trans h.jobLast
  handles := fun g j hg => h.handles g j (h'.handles g j hg)

/-- Writing other fields of a job is a frame. -/
theorem modJob_frame (s : OsiList) (j : Nat) {f : Job → Job}
    (hf : ∀ b, (f b).nodes = b.nodes ∧ (f b).handle = b.handle ∧ (f b).submitted = b.submitted) :
    Frame s (s.modJob j f) := by
  refine ⟨?_, rfl, rfl, rfl, rfl, rfl, rfl, rfl, fun _ _ h => h⟩
  intro k
  rcases eq_or_ne k j with rfl | hkj
  · simpa [modJob] using hf (s.job k)
  · simp [modJob, hkj]

theorem setNotiType_frame (s : OsiList) (j : Nat) (m : NotifyMode) : Frame s (s.setNotiType j m) :=
  modJob_frame s j (fun _ => ⟨rfl, rfl, rfl⟩)

theorem setCount_frame (s : OsiList) (j : Nat) (c : BitVec 8) : Frame s (s.setCount j c) :=
  modJob_frame s j (fun _ => ⟨rfl, rfl, rfl⟩)

theorem releaseHandle_frame (s : OsiList) (h : Int) : Frame s (s.releaseHandle h) := by
  refine ⟨fun _ => ⟨rfl, rfl, rfl⟩, rfl, rfl, rfl, rfl, rfl, rfl, rfl, ?_⟩
  intro g j hg
  rcases eq_or_ne g h with rfl | hgh
  · simp [releaseHandle] at hg
  · simpa [releaseHandle, hgh] using hg

/-- Destroying a job leaves the lists alone; its memory is the matter of `Correctness.Lifetime`. -/
theorem destroyJob_frame (s : OsiList) (j : Nat) : Frame s (s.destroyJob j).1 := by
  unfold destroyJob
  split
  · exact Frame.refl s
  · exact releaseHandle_frame s _

theorem safeDestroyJob_frame (s : OsiList) (j : Nat) : Frame s (s.safeDestroyJob j).1 := by
  unfold safeDestroyJob
  split
  · exact setNotiType_frame s j .butt
  · exact destroyJob_frame s j

theorem markDone_frame (s : OsiList) (j : Nat) : Frame s (s.markDone j) := by
  unfold markDone
  split
  · exact setNotiType_frame s j .butt
  · exact Frame.refl s

/-- So does what is done at the completion of a job. -/
theorem complete_frame (s : OsiList) (j : Nat) (kind : NotifyMode) : Frame s (s.complete j kind).1 := by
  cases kind with
  | wake => exact Frame.refl s
  | compl => exact safeDestroyJob_frame s j
  | butt => exact Frame.refl s

/-- The invariants of the memory are about the lists alone. -/
theorem Base.frame (hb : Base s q) (hf : Frame s t) : Base t q := by
  have hnodes := fun j => (hf.job j).1
  have hhandle := fun j => (hf.job j).2.1
  have hsub := fun j => (hf.job j).2.2
  refine ⟨?_, ?_, ?_, ?_, ?_, ?_, ?_, ?_, ?_, hb.queue_one, ?_, ?_⟩
  · intro h j hj
    rw [hf.brk, hhandle]
    exact hb.handles h j (hf.handles h j hj)
  · intro j
    rw [hnodes, hf.nodeBrk]
    exact hb.nodes_lt j
  · intro j k n
    rw [hnodes, hnodes]
    exact hb.nodes_own j k n
  · intro j
    rw [hnodes]
    exact hb.nodes_nodup j
  · rw [hf.executed, hf.nodeBrk]
    exact hb.executed_lt
  · rw [hf.executed]
    exact hb.executed_nodup
  · rw [hf.next, hf.nodeBrk]
    exact hb.fresh
  · rw [hf.list]
    exact hb.list_nodup
  · intro j
    rw [hf.list, hf.brk, hsub, hnodes]
    exact hb.list_job j
  · intro j
    rw [hf.list, hf.brk, hsub, hnodes]
    exact hb.queue_job j
  · intro j
    rw [hsub, hnodes, hf.next, hf.executed]
    exact hb.unqueued j

/-- The parts stay when the list, its cursors and the nodes of its jobs do. -/
theorem Split.congr (hs : Split s done pend) (hlist : t.list = s.list) (hfirst : t.jobToCommit = s.jobToCommit)
    (hlast : t.jobLast = s.jobLast) (hexec : t.executed = s.executed)
    (hnodes : ∀ k ∈ s.list, (t.job k).nodes = (s.job k).nodes)
    (hchain : Chain t.next (s.nodesOf pend).head? (s.nodesOf pend)) : Split t done pend := by
  have hdone : t.nodesOf done = s.nodesOf done :=
    nodesOf_congr (fun k hk => hnodes k (by rw [hs.list]; exact List.mem_append_left _ hk))
  have hpend : t.nodesOf pend = s.nodesOf pend :=
    nodesOf_congr (fun k hk => hnodes k (by rw [hs.list]; exact List.mem_append_right _ hk))
  refine ⟨hlist.trans hs.list, hfirst.trans hs.first, ?_, ?_, ?_, ?_⟩
  · rw [hlast]
    exact hs.last
  · rw [hpend]
    exact hchain
  · rw [hpend, hexec]
    exact hs.pending
  · rw [hdone, hexec]
    exact hs.committed

theorem Split.frame (hs : Split s done pend) (hf : Frame s t) : Split t done pend :=
  hs.congr hf.list hf.jobToCommit hf.jobLast hf.executed (fun k _ => (hf.job k).1) (hf.next ▸ hs.chain)

/-- And so is the whole invariant. -/
theorem Inv.frame (h : Inv s q) (hf : Frame s t) : Inv t q := by
  obtain ⟨done, pend, hs⟩ := h.split
  exact ⟨h.base.frame hf, done, pend, hs.frame hf⟩

theorem Base.mono (hb : Base s q) (hq : ∀ j, q' j ≤ q j) : Base s q' :=
  { hb with
    queue_one := fun j => Nat.le_trans (hq j) (hb.queue_one j)
    queue_job := fun j hj => hb.queue_job j (Nat.lt_of_lt_of_le hj (hq j))
    unqueued := fun j hj => hb.unqueued j (hj.imp_right (fun h => Nat.lt_of_lt_of_le h (hq j))) }

/-- A reservation may be given up. -/
theorem Inv.mono (h : Inv s q) (hq : ∀ j, q' j ≤ q j) : Inv s q' :=
  ⟨h.base.mono hq, h.split⟩

/-! ## Building a job -/

/-- A job begins without nodes. -/
theorem beginJob_inv (h : Inv s q) {g : Int} : Inv (s.beginJob g).osi q := by
  have hb := h.base
  have hnew : ((s.beginJob g).osi.job s.brk) = ⟨g, false, .wake, [], false, false, 0, -1⟩ :=
    Function.update_self _ _ _
  have hold : ∀ k, k ≠ s.brk → (s.beginJob g).osi.job k = s.job k :=
    fun k hk => Function.update_of_ne hk _ _
  have hlt : ∀ k, k < s.brk → (s.beginJob g).osi.job k = s.job k := fun k hk => hold k (Nat.ne_of_lt hk)
  have hnodes : ∀ k n, n ∈ ((s.beginJob g).osi.job k).nodes → n ∈ (s.job k).nodes := by
    intro k n hn
    rcases eq_or_ne k s.brk with rfl | hk
    · rw [hnew] at hn
      exact absurd hn List.not_mem_nil
    · rwa [hold k hk] at hn
  refine ⟨⟨?_, fun k n hn => hb.nodes_lt k n (hnodes k n hn),
    fun k l n hk hl => hb.nodes_own k l n (hnodes k n hk) (hnodes l n hl), ?_, hb.executed_lt,
    hb.executed_nodup, hb.fresh, hb.list_nodup, ?_, hb.queue_one, ?_, ?_⟩, ?_⟩
  · intro f k hk
    rcases eq_or_ne f g with rfl | hfg
    · have hks : k = s.brk := by
        have hup : (s.beginJob f).osi.handles f = some s.brk := Function.update_self _ _ _
        rw [hup] at hk
        exact (Option.some.inj hk).symm
      rw [hks, hnew]
      exact ⟨Nat.lt_succ_self _, rfl⟩
    · have hup : (s.beginJob g).osi.handles f = s.handles f := Function.update_of_ne hfg _ _
      rw [hup] at hk
      obtain ⟨hkb, hkh⟩ := hb.handles f k hk
      rw [hlt k hkb]
      exact ⟨Nat.lt_succ_of_lt hkb, hkh⟩
  · intro k
    rcases eq_or_ne k s.brk with rfl | hk
    · rw [hnew]
      exact List.nodup_nil
    · rw [hold k hk]
      exact hb.nodes_nodup k
  · intro k hk
    obtain ⟨hkb, hrest⟩ := hb.list_job k hk
    rw [hlt k hkb]
    exact ⟨Nat.lt_succ_of_lt hkb, hrest⟩
  · intro k hk
    obtain ⟨hkl, hkb, hrest⟩ := hb.queue_job k hk
    rw [hlt k hkb]
    exact ⟨hkl, Nat.lt_succ_of_lt hkb, hrest⟩
  · intro k hk
    rcases eq_or_ne k s.brk with rfl | hks
    · rw [hnew]
      exact ⟨rfl, fun n hn => absurd hn List.not_mem_nil⟩
    · rw [hold k hks] at hk ⊢
      exact hb.unqueued k hk
  · obtain ⟨done, pend, hs⟩ := h.split
    refine ⟨done, pend, hs.congr rfl rfl rfl rfl (fun k hk => ?_) hs.chain⟩
    rw [hlt k (hb.list_job k hk).1]

/-- A node goes to the end of its job. -/
theorem addNode_job_self (s : OsiList) (j : Nat) (phyBuff : Bool) :
    ((s.addNode j phyBuff).job j).nodes = (s.job j).nodes ++ [s.nodeBrk] ∧
      ((s.addNode j phyBuff).job j).handle = (s.job j).handle ∧
      ((s.addNode j phyBuff).job j).submitted = (s.job j).submitted := by
  simp [addNode, modJob]

/-- Other jobs keep their nodes. -/
theorem addNode_job_of_ne (phyBuff : Bool) (hk : k ≠ j) :
    (s.addNode j phyBuff).job k = s.job k := by
  simp [addNode, modJob, hk]

/-- A node of a job after `addNode` is an old one or the new one. -/
theorem addNode_mem {phyBuff : Bool} (hn : n ∈ ((s.addNode j phyBuff).job k).nodes) :
    n ∈ (s.job k).nodes ∨ (k = j ∧ n = s.nodeBrk) := by
  rcases eq_or_ne k j with rfl | hk
  · rw [(addNode_job_self s k phyBuff).1, List.mem_append, List.mem_singleton] at hn
    exact hn.imp_right (fun h => ⟨rfl, h⟩)
  · rw [addNode_job_of_ne phyBuff hk] at hn
    exact Or.inl hn

theorem Base.notMem_nodes (hb : Base s q) (hn : s.nodeBrk ≤ n) (k : Nat) : n ∉ (s.job k).nodes :=
  fun hk => absurd (hb.nodes_lt k n hk) (Nat.not_lt.mpr hn)

/-- The job is a chain with its new node. -/
theorem addNode_chain (hb : Base s q) (hj : (s.job j).submitted = false) (phyBuff : Bool) :
    Chain (s.addNode j phyBuff).next ((s.job j).nodes ++ [s.nodeBrk]).head? ((s.job j).nodes ++ [s.nodeBrk]) ∧
      ∀ n ∈ (s.job j).nodes ++ [s.nodeBrk], n ∉ s.executed := by
  obtain ⟨hc, hex⟩ := hb.unqueued j (Or.inl hj)
  refine ⟨?_, ?_⟩
  · have hnew : Chain s.next [s.nodeBrk].head? [s.nodeBrk] := ⟨rfl, hb.fresh _ (Nat.le_refl _)⟩
    refine hc.linkTail hnew (hb.nodes_nodup j) ?_
    intro n hn hmem
    rw [List.mem_singleton.mp hmem] at hn
    exact hb.notMem_nodes (Nat.le_refl _) j hn
  · intro n hn
    rcases List.mem_append.mp hn with hn | hn
    · exact hex n hn
    · intro hexec
      rw [List.mem_singleton.mp hn] at hexec
      exact Nat.lt_irrefl _ (hb.executed_lt _ hexec)

/-- A new node keeps the memory in order. -/
theorem addNode_base (hb : Base s q) (hj : (s.job j).submitted = false) (phyBuff : Bool) :
    Base (s.addNode j phyBuff) q := by
  obtain ⟨hlist, hqueue⟩ := hb.unsubmitted hj
  have hlistNe : ∀ k ∈ s.list, k ≠ j := fun k hk heq => hlist (heq ▸ hk)
  have hqueueNe : ∀ k, 0 < q k → k ≠ j := fun k hk heq => Nat.ne_of_gt hk (heq ▸ hqueue)
  have hfresh : ∀ k, s.nodeBrk ∉ (s.job k).nodes := hb.notMem_nodes (Nat.le_refl _)
  refine ⟨?_, ?_, ?_, ?_, ?_, hb.executed_nodup, ?_, hb.list_nodup, ?_, hb.queue_one, ?_, ?_⟩
  · intro g k hk
    have hh := hb.handles g k hk
    rcases eq_or_ne k j with rfl | hkj
    · rw [(addNode_job_self s k phyBuff).2.1]
      exact hh
    · rw [addNode_job_of_ne phyBuff hkj]
      exact hh
  · intro k n hn
    rcases addNode_mem hn with hn | ⟨_, rfl⟩
    · exact Nat.lt_succ_of_lt (hb.nodes_lt k n hn)
    · exact Nat.lt_succ_self _
  · intro k l n hk hl
    rcases addNode_mem hk with hk | ⟨rfl, rfl⟩
    · rcases addNode_mem hl with hl | ⟨_, rfl⟩
      · exact hb.nodes_own k l n hk hl
      · exact absurd hk (hfresh k)
    · rcases addNode_mem hl with hl | ⟨rfl, _⟩
      · exact absurd hl (hfresh l)
      · rfl
  · intro k
    rcases eq_or_ne k j with rfl | hkj
    · rw [(addNode_job_self s k phyBuff).1]
      refine List.Nodup.append (hb.nodes_nodup k) (List.nodup_singleton _) ?_
      rw [List.disjoint_singleton]
      exact hfresh k
    · rw [addNode_job_of_ne phyBuff hkj]
      exact hb.nodes_nodup k
  · intro n hn
    exact Nat.lt_succ_of_lt (hb.executed_lt n hn)
  · intro n hn
    have hlink : (s.addNode j phyBuff).next n = s.next n :=
      linkTail_of_notMem (hb.notMem_nodes (Nat.le_of_succ_le hn) j)
    rw [hlink]
    exact hb.fresh n (Nat.le_of_succ_le hn)
  · intro k hk
    rw [addNode_job_of_ne phyBuff (hlistNe k hk)]
    exact hb.list_job k hk
  · intro k hk
    rw [addNode_job_of_ne phyBuff (hqueueNe k hk)]
    exact hb.queue_job k hk
  · intro k hk
    rcases eq_or_ne k j with rfl | hkj
    · rw [(addNode_job_self s k phyBuff).1]
      exact addNode_chain hb hj phyBuff
    · rw [addNode_job_of_ne phyBuff hkj] at hk ⊢
      obtain ⟨hc, hex⟩ := hb.unqueued k hk
      exact ⟨hc.linkTail_other (fun n hn hn' => hkj (hb.nodes_own k j n hn' hn)), hex⟩

/-- **A node that is added to a job that is not submitted.** -/
theorem addNode_inv (h : Inv s q) (hj : (s.job j).submitted = false) (phyBuff : Bool) :
    Inv (s.addNode j phyBuff) q := by
  have hb := h.base
  obtain ⟨done, pend, hs⟩ := h.split
  have hne : ∀ k ∈ s.list, k ≠ j := fun k hk heq => (hb.unsubmitted hj).1 (heq ▸ hk)
  refine ⟨addNode_base hb hj phyBuff, done, pend, hs.congr rfl rfl rfl rfl (fun k hk => ?_)
    (hs.chain.linkTail_other ?_)⟩
  · rw [addNode_job_of_ne phyBuff (hne k hk)]
  · intro n hn hmem
    obtain ⟨k, hk, hnk⟩ := mem_nodesOf.mp hmem
    have hkl : k ∈ s.list := by
      rw [hs.list]
      exact List.mem_append_right _ hk
    exact hne k hkl (hb.nodes_own k j n hnk hn)

end HiSTB.Tde
