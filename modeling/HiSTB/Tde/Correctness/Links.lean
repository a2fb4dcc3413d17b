import HiSTB.Tde.Correctness.Memory
import Mathlib.Data.List.Perm.Subperm

/-!
# `Tde.Correctness.Links` — the links between jobs that wait

What the locked regions do to the parts of the list:

* `queueJob_inv` — a job joins those that wait, and the last of them links to it;
* `Split.runsFrom`, `compProc_inv` — a start of the first runs all of them;
* `compLoop_inv`, `reset_inv` — jobs are removed.
-/

namespace HiSTB.Tde

open Lib Lifetime LinkedQueue OsiList

variable {s t : OsiList} {q : Nat → Nat} {done pend : List Nat} {j : Nat}

variable {q' : Nat → Nat} {c l : Nat} {rest : List Nat} {finished : Int}

/-! ## Submitting a job -/

theorem prepare_job_self (s : OsiList) (j : Nat) (m : NotifyMode) (cb : Bool) (fence : Option Int) :
    ((s.prepare j m cb fence).job j).nodes = (s.job j).nodes ∧
      ((s.prepare j m cb fence).job j).handle = (s.job j).handle ∧
      ((s.prepare j m cb fence).job j).submitted = true := by
  simp [prepare, modJob]

theorem prepare_job_of_ne {k : Nat} (m : NotifyMode) (cb : Bool) (fence : Option Int) (hk : k ≠ j) :
    (s.prepare j m cb fence).job k = s.job k := by
  simp [prepare, modJob, hk]

/-- A submission is prepared, and its thread may go on to put the job into the list. -/
theorem prepare_inv (h : Inv s q) (hj : (s.job j).submitted = false) (hlt : j < s.brk)
    (hne : (s.job j).nodes ≠ []) (m : NotifyMode) (cb : Bool) (fence : Option Int)
    (hqj : q' j ≤ q j + 1) (hq : ∀ k, k ≠ j → q' k = q k) : Inv (s.prepare j m cb fence) q' := by
  have hb := h.base
  have hself := prepare_job_self s j m cb fence
  have hother : ∀ k, k ≠ j → (s.prepare j m cb fence).job k = s.job k :=
    fun k hk => prepare_job_of_ne m cb fence hk
  have hnodes : ∀ k, ((s.prepare j m cb fence).job k).nodes = (s.job k).nodes := by
    intro k
    rcases eq_or_ne k j with rfl | hk
    · exact hself.1
    · rw [hother k hk]
  obtain ⟨hlist, hqz⟩ := hb.unsubmitted hj
  have hlistNe : ∀ k ∈ s.list, k ≠ j := fun k hk heq => hlist (heq ▸ hk)
  refine ⟨⟨?_, ?_, ?_, ?_, hb.executed_lt, hb.executed_nodup, hb.fresh, hb.list_nodup, ?_, ?_, ?_, ?_⟩, ?_⟩
  · intro g k hk
    have hh := hb.handles g k hk
    rcases eq_or_ne k j with rfl | hkj
    · rw [hself.2.1]
      exact hh
    · rw [hother k hkj]
      exact hh
  · intro k
    rw [hnodes]
    exact hb.nodes_lt k
  · intro k l n
    rw [hnodes, hnodes]
    exact hb.nodes_own k l n
  · intro k
    rw [hnodes]
    exact hb.nodes_nodup k
  · intro k hk
    rw [hother k (hlistNe k hk)]
    exact hb.list_job k hk
  · intro k
    rcases eq_or_ne k j with rfl | hkj
    · omega
    · rw [hq k hkj]
      exact hb.queue_one k
  · intro k hk
    rcases eq_or_ne k j with rfl | hkj
    · refine ⟨fun hmem => hlistNe k hmem rfl, hlt, hself.2.2, ?_⟩
      rw [hnodes]
      exact hne
    · rw [hother k hkj]
      rw [hq k hkj] at hk
      exact hb.queue_job k hk
  · intro k hk
    rw [hnodes]
    rcases eq_or_ne k j with rfl | hkj
    · exact hb.unqueued k (Or.inl hj)
    · rw [hother k hkj, hq k hkj] at hk
      exact hb.unqueued k hk
  · obtain ⟨done, pend, hs⟩ := h.split
    exact ⟨done, pend, hs.congr rfl rfl rfl rfl (fun k _ => hnodes k) hs.chain⟩

/-- A job that is on its way to the list, and the list it gets to. -/
theorem addJob_base (hb : Base s q) (hqj : 0 < q j) (hq : ∀ k, q' k ≤ q k)
    (hz : q' j = 0) : Base (s.addJob j) q' := by
  have hjob := hb.queue_job j hqj
  have hb' := hb.mono hq
  refine { hb' with
    list_nodup := ?_
    list_job := ?_
    queue_job := ?_ }
  · refine List.Nodup.append hb.list_nodup (List.nodup_singleton j) ?_
    rw [List.disjoint_singleton]
    exact hjob.1
  · intro k hk
    rcases List.mem_append.mp hk with hk | hk
    · exact hb.list_job k hk
    · rw [List.mem_singleton.mp hk]
      exact hjob.2
  · intro k hk
    obtain ⟨hkl, hrest⟩ := hb'.queue_job k hk
    refine ⟨?_, hrest⟩
    intro hmem
    rcases List.mem_append.mp hmem with hmem | hmem
    · exact hkl hmem
    · rw [List.mem_singleton.mp hmem, hz] at hk
      exact Nat.lt_irrefl 0 hk

theorem linkJob_nodes (s : OsiList) (j c l k : Nat) :
    ((s.linkJob j c l).job k).nodes = (s.job k).nodes ∧ ((s.linkJob j c l).job k).handle = (s.job k).handle ∧
      ((s.linkJob j c l).job k).submitted = (s.job k).submitted :=
  (modJob_frame s c (f := fun b => { b with aqUseBuff := b.aqUseBuff || (s.job j).aqUseBuff })
    (fun _ => ⟨rfl, rfl, rfl⟩)).job k

/-- The nodes of jobs outside the list keep their links. -/
theorem linkJob_base (hb : Base s q) (hl : l ∈ s.list) : Base (s.linkJob j c l) q := by
  have hf : Frame s { s.linkJob j c l with next := s.next } :=
    ⟨linkJob_nodes s j c l, rfl, rfl, rfl, rfl, rfl, rfl, rfl, fun _ _ h => h⟩
  have hb' := hb.frame hf
  refine { hb' with
    fresh := ?_
    unqueued := ?_ }
  · intro n hn
    have hlink : (s.linkJob j c l).next n = s.next n := linkTail_of_notMem (hb.notMem_nodes hn l)
    rw [hlink]
    exact hb.fresh n hn
  · intro k hk
    obtain ⟨hc, hex⟩ := hb'.unqueued k hk
    rw [(linkJob_nodes s j c l k).2.2] at hk
    have hkl : k ≠ l := by
      rintro rfl
      rcases hk with hk | hk
      · exact (hb.unsubmitted hk).1 hl
      · exact (hb.queue_job k hk).1 hl
    refine ⟨hc.linkTail_other ?_, hex⟩
    intro n hn hmem
    rw [(linkJob_nodes s j c l k).1] at hmem
    exact hkl (hb.nodes_own k l n hmem hn)

/-- The first job to wait for its start. -/
theorem queueJob_first (hb : Base s q) (hs : Split s done []) (hqj : 0 < q j) :
    Split ({ s with jobToCommit := some j }.addJob j) done [j] := by
  obtain ⟨hc, hex⟩ := hb.unqueued j (Or.inr hqj)
  have hnodes : ({ s with jobToCommit := some j }.addJob j).nodesOf [j] = (s.job j).nodes :=
    List.flatMap_singleton _ _
  have hlist : s.list = done := by
    rw [hs.list, List.append_nil]
  refine ⟨?_, rfl, fun _ => rfl, ?_, ?_, hs.committed⟩
  · show s.list ++ [j] = done ++ [j]
    rw [hlist]
  · rw [hnodes]
    exact hc
  · rw [hnodes]
    exact hex

/-- A job behind others that wait. -/
theorem queueJob_behind (hb : Base s q) {p : List Nat} (hs : Split s done (p ++ [l]))
    (hqj : 0 < q j) (c : Nat) : Split ((s.linkJob j c l).addJob j) done (p ++ [l] ++ [j]) := by
  obtain ⟨hcj, hexj⟩ := hb.unqueued j (Or.inr hqj)
  have hof : ∀ m, ((s.linkJob j c l).addJob j).nodesOf m = s.nodesOf m :=
    fun m => nodesOf_congr (fun k _ => (linkJob_nodes s j c l k).1)
  have hsingle : ∀ k, s.nodesOf [k] = (s.job k).nodes := fun k => List.flatMap_singleton _ _
  have hmem : ∀ k ∈ p ++ [l], k ∈ s.list := fun k hk => by rw [hs.list]; exact List.mem_append_right _ hk
  have hlne : (s.job l).nodes ≠ [] := (hb.list_job l (hmem l (by simp))).2.2
  have hnd : (s.nodesOf (p ++ [l])).Nodup := by
    have hlist := hb.list_nodup
    rw [hs.list] at hlist
    exact hb.nodesOf_nodup (List.nodup_append.mp hlist).2.1
  have hnext : ((s.linkJob j c l).addJob j).next = linkTail s.next (s.nodesOf (p ++ [l])) (s.nodesOf [j]).head? := by
    rw [nodesOf_append, hsingle, hsingle, linkTail_append _ hlne]
    rfl
  refine ⟨?_, ?_, ?_, ?_, ?_, ?_⟩
  · show s.list ++ [j] = _
    rw [hs.list, List.append_assoc]
  · show s.jobToCommit = _
    rw [hs.first]
    simp
  · intro _
    rw [List.getLast?_concat]
    rfl
  · rw [hof, nodesOf_append, hnext]
    refine hs.chain.linkTail ?_ hnd ?_
    · rw [hsingle]
      exact hcj
    · intro n hn hnj
      rw [hsingle] at hnj
      obtain ⟨k, hk, hnk⟩ := mem_nodesOf.mp hn
      have hkj := hb.nodes_own k j n hnk hnj
      exact (hb.queue_job j hqj).1 (hkj ▸ hmem k hk)
  · intro n hn
    rw [hof, nodesOf_append, hsingle, List.mem_append] at hn
    rcases hn with hn | hn
    · exact hs.pending n hn
    · exact hexj n hn
  · intro n hn
    rw [hof] at hn
    exact hs.committed n hn

theorem queueJob_inv (h : Inv s q) (hqj : 0 < q j) (hq : ∀ k, q' k ≤ q k)
    (hz : q' j = 0) : Inv (s.queueJob j).1 q' := by
  have hb := h.base
  obtain ⟨done, pend, hs⟩ := h.split
  rcases List.eq_nil_or_concat pend with rfl | ⟨p, l, rfl⟩
  · have hnone : s.jobToCommit = none := hs.first
    have heq : (s.queueJob j).1 = { s with jobToCommit := some j }.addJob j := by
      unfold queueJob
      rw [hnone]
    have hf : Base { s with jobToCommit := some j } q := { hb with }
    rw [heq]
    exact ⟨addJob_base hf hqj hq hz, done, [j], queueJob_first hb hs hqj⟩
  · rw [List.concat_eq_append] at hs
    obtain ⟨c, hc⟩ : ∃ c, s.jobToCommit = some c := by
      rw [hs.first]
      cases p with
      | nil => exact ⟨l, rfl⟩
      | cons a p => exact ⟨a, rfl⟩
    have hlast : s.jobLast = some l := by
      rw [hs.last (by simp), List.getLast?_concat]
    have hl : l ∈ s.list := by
      rw [hs.list]
      simp
    have heq : (s.queueJob j).1 = (s.linkJob j c l).addJob j := by
      unfold queueJob
      rw [hc, hlast]
    rw [heq]
    exact ⟨addJob_base (linkJob_base hb hl) hqj hq hz, done, _, queueJob_behind hb hs hqj c⟩

/-! ## Starting the engine -/

theorem Split.mem_right (hs : Split s done pend) (hj : j ∈ pend) : j ∈ s.list := by
  rw [hs.list]
  exact List.mem_append_right _ hj

theorem Split.pend_nodup (hs : Split s done pend) (hb : Base s q) : pend.Nodup := by
  have hlist := hb.list_nodup
  rw [hs.list] at hlist
  exact (List.nodup_append.mp hlist).2.1

/-- **A start runs the nodes of all jobs that wait.** -/
theorem Split.runsFrom (hs : Split s done pend) (hb : Base s q) (hc : s.jobToCommit = some c) :
    s.runsFrom c = s.nodesOf pend := by
  have hnd := hb.nodesOf_nodup (hs.pend_nodup hb)
  have hlen : (s.nodesOf pend).length ≤ s.nodeBrk := by
    have hsub : s.nodesOf pend ⊆ List.range s.nodeBrk := by
      intro n hn
      obtain ⟨k, _, hnk⟩ := mem_nodesOf.mp hn
      exact List.mem_range.mpr (hb.nodes_lt k n hnk)
    have hle := (List.subperm_of_subset hnd hsub).length_le
    rwa [List.length_range] at hle
  have hhead : (s.job c).nodes.head? = (s.nodesOf pend).head? := by
    rw [hs.first] at hc
    obtain ⟨p, rfl⟩ : ∃ p, pend = c :: p := ⟨pend.tail, List.eq_cons_of_mem_head? hc⟩
    have hne := (hb.list_job c (hs.mem_right List.mem_cons_self)).2.2
    rw [show s.nodesOf (c :: p) = (s.job c).nodes ++ s.nodesOf p from List.flatMap_cons,
      List.head?_append_of_ne_nil _ hne]
  unfold OsiList.runsFrom
  rw [hhead]
  exact hs.chain.follow_eq hlen

theorem compProc_inv (h : Inv s q) (ok : Bool) : Inv (s.compProc ok).1 q := by
  have hb := h.base
  obtain ⟨done, pend, hs⟩ := h.split
  unfold compProc
  split
  · exact h
  · rename_i c hc
    cases ok with
    | false => exact h
    | true =>
      have hruns : follow s.next s.nodeBrk (s.job c).nodes.head? = s.nodesOf pend := hs.runsFrom hb hc
      simp only [if_true, hruns]
      refine ⟨{ hb with executed_lt := ?_, executed_nodup := ?_, unqueued := ?_ }, done ++ pend, [], ?_⟩
      · intro n hn
        rcases List.mem_append.mp hn with hn | hn
        · exact hb.executed_lt n hn
        · obtain ⟨k, _, hnk⟩ := mem_nodesOf.mp hn
          exact hb.nodes_lt k n hnk
      · refine List.Nodup.append hb.executed_nodup (hb.nodesOf_nodup (hs.pend_nodup hb)) ?_
        exact fun n hn hn' => hs.pending n hn' hn
      · intro k hk
        obtain ⟨hck, hex⟩ := hb.unqueued k hk
        refine ⟨hck, ?_⟩
        intro n hn hmem
        rcases List.mem_append.mp hmem with hmem | hmem
        · exact hex n hn hmem
        · obtain ⟨l, hl, hnl⟩ := mem_nodesOf.mp hmem
          obtain rfl := hb.nodes_own k l n hn hnl
          have hkl := hs.mem_right hl
          rcases hk with hk | hk
          · exact (hb.unsubmitted hk).1 hkl
          · exact (hb.queue_job k hk).1 hkl
      · refine ⟨?_, rfl, fun hne => absurd rfl hne, rfl, fun n hn => absurd hn List.not_mem_nil, ?_⟩
        · rw [List.append_nil]
          exact hs.list
        · intro n hn
          have hn' : n ∈ s.nodesOf done ++ s.nodesOf pend := by
            rw [← nodesOf_append]
            exact hn
          refine List.mem_append.mpr ?_
          exact (List.mem_append.mp hn').imp_left (hs.committed n)

/-! ## Removing jobs -/

/-- A list that is shorter at the front. -/
theorem Base.shorten (hb : Base s q) (hrest : ∀ k ∈ rest, k ∈ s.list)
    (hnd : rest.Nodup) : Base { s with list := rest } q :=
  { hb with
    list_nodup := hnd
    list_job := fun k hk => hb.list_job k (hrest k hk)
    queue_job := fun k hk =>
      ⟨fun hmem => (hb.queue_job k hk).1 (hrest k hmem), (hb.queue_job k hk).2⟩ }

theorem unlink_inv (hb : Base s q) (hs : Split s (j :: done) pend) :
    Base (s.unlink j (done ++ pend)) q ∧ Split (s.unlink j (done ++ pend)) done pend := by
  have hnd := hb.list_nodup
  rw [hs.list, List.cons_append] at hnd
  have hb' : Base { s with list := done ++ pend } q := by
    refine hb.shorten (fun k hk => ?_) (List.nodup_cons.mp hnd).2
    rw [hs.list]
    exact List.mem_cons_of_mem j hk
  refine ⟨{ hb' with }, rfl, hs.first, hs.last, hs.chain, hs.pending, ?_⟩
  intro n hn
  refine hs.committed n ?_
  obtain ⟨k, hk, hnk⟩ := mem_nodesOf.mp hn
  exact mem_nodesOf.mpr ⟨k, List.mem_cons_of_mem j hk, hnk⟩

theorem compEnd_inv (h : Inv s q) (work : Bool) (env : Env) : Inv (s.compEnd work env).osi q := by
  unfold compEnd
  split
  · exact compProc_inv h env.ok
  · exact h

/-- The first job of the list is of the first part: there is no other, or the job to stop at is there. -/
theorem Split.removes_first (hs : Split s done pend) (hl : s.list = j :: rest)
    (hfin : pend = [] ∨ ∃ j ∈ done, (s.job j).handle = finished) :
    ∃ done', done = j :: done' ∧ rest = done' ++ pend := by
  have hlist := hs.list
  rw [hl] at hlist
  cases done with
  | nil =>
    rcases hfin with rfl | ⟨i, hi, _⟩
    · cases hlist
    · exact absurd hi List.not_mem_nil
  | cons a done =>
    obtain ⟨rfl, hrest⟩ := List.cons.inj hlist
    exact ⟨done, rfl, hrest⟩

/-- The job to stop at is still there after the removal of another one. -/
theorem finished_remains (hf : ∀ k, (t.job k).handle = (s.job k).handle)
    (hdel : (s.job j).handle ≠ finished)
    (hfin : pend = [] ∨ ∃ i ∈ j :: rest, (s.job i).handle = finished) :
    pend = [] ∨ ∃ i ∈ rest, (t.job i).handle = finished := by
  refine hfin.imp_right ?_
  rintro ⟨i, hi, hih⟩
  refine ⟨i, (List.mem_cons.mp hi).resolve_left ?_, (hf i).trans hih⟩
  rintro rfl
  exact hdel hih

/-- **The loop of `TdeOsiListNodeComp` keeps the parts**, when it stops at a job of the first part. -/
theorem compLoop_inv (work : Bool) (finished : Int) (env : Env) {l : List Nat} (hb : Base s q)
    (hs : Split s done pend) (hl : s.list = l)
    (hfin : pend = [] ∨ ∃ j ∈ done, (s.job j).handle = finished) :
    Inv (compLoop work finished env l s).osi q := by
  induction l generalizing s done with
  | nil => exact ⟨hb, done, pend, hs⟩
  | cons j rest ih =>
    obtain ⟨done, rfl, hrest⟩ := hs.removes_first hl hfin
    obtain ⟨hb', hs'⟩ := unlink_inv hb hs
    rw [← hrest] at hb' hs'
    have hfm := markDone_frame (s.unlink j rest) j
    have hfc := hfm.trans (complete_frame ((s.unlink j rest).markDone j) j (s.job j).notiType)
    rw [compLoop]
    split
    · exact ⟨hb'.frame hfm, done, pend, hs'.frame hfm⟩
    · show Inv (ite _ _ _ : Region).osi q
      split
      · exact compEnd_inv ⟨hb'.frame hfc, done, pend, hs'.frame hfc⟩ work env
      · rename_i hdel
        exact ih (hb'.frame hfc) (hs'.frame hfc) hfc.list
          (finished_remains (fun k => (hfc.job k).2.1) hdel hfin)

theorem resetJob_base (hb : Base s q) (hl : s.list = j :: rest) :
    Base (s.resetJob j rest).1 q := by
  have hnd := hb.list_nodup
  rw [hl] at hnd
  have hb' : Base { s with list := rest, jobNum := s.jobNum - 1 } q := by
    refine { hb.shorten (fun k hk => ?_) (List.nodup_cons.mp hnd).2 with }
    rw [hl]
    exact List.mem_cons_of_mem j hk
  have hm := hb'.frame (markDone_frame _ j)
  unfold resetJob
  cases (s.job j).notiType with
  | wake => exact { hm with }
  | compl => exact { hm.frame (safeDestroyJob_frame _ j) with }
  | butt => exact { hm with }

theorem resetJob_list (s : OsiList) (j : Nat) (rest : List Nat) :
    (s.resetJob j rest).1.list = rest ∧ (s.resetJob j rest).1.jobToCommit = none := by
  have hm : (OsiList.markDone { s with list := rest, jobNum := s.jobNum - 1 } j).list = rest :=
    (markDone_frame _ j).list
  unfold resetJob
  cases (s.job j).notiType with
  | wake => exact ⟨hm, rfl⟩
  | compl => exact ⟨(safeDestroyJob_frame _ j).list.trans hm, rfl⟩
  | butt => exact ⟨hm, rfl⟩

theorem resetLoop_base {l : List Nat} (hb : Base s q) (hl : s.list = l) :
    Base (resetLoop l s).1 q ∧ (resetLoop l s).1.list = [] ∧
      (l ≠ [] ∨ s.jobToCommit = none → (resetLoop l s).1.jobToCommit = none) := by
  induction l generalizing s with
  | nil => exact ⟨hb, hl, fun h => h.resolve_left (fun hne => hne rfl)⟩
  | cons j rest ih =>
    obtain ⟨hlist, hnone⟩ := resetJob_list s j rest
    obtain ⟨hb', hl', hc'⟩ := ih (resetJob_base hb hl) hlist
    exact ⟨hb', hl', fun _ => hc' (Or.inr hnone)⟩

theorem reset_inv (h : Inv s q) : Inv s.reset.osi q := by
  obtain ⟨done, pend, hs⟩ := h.split
  obtain ⟨hb, hl, hc⟩ := resetLoop_base h.base rfl
  have hnone : (resetLoop s.list s).1.jobToCommit = none := by
    refine hc ?_
    rcases eq_or_ne s.list [] with hnil | hne
    · have hp : pend = [] := (List.append_eq_nil_iff.mp (hs.list.symm.trans hnil)).2
      right
      rw [hs.first, hp]
      rfl
    · exact Or.inl hne
  refine ⟨hb, [], [], hl, hnone, fun hne => absurd rfl hne, rfl, ?_, ?_⟩
  · exact fun n hn => absurd hn List.not_mem_nil
  · exact fun n hn => absurd hn List.not_mem_nil

end HiSTB.Tde
