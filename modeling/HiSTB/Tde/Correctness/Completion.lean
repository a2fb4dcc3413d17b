import HiSTB.Tde.Correctness.Ownership

/-!
# `Tde.Correctness.Completion` — jobs that are taken out of the list

`RegionOk` is what a locked region has to do: it keeps `Own`, for the threads it leaves behind and the others,
and touches no dead job.

* `markDone_taken` — the first job is taken out of the list;
* `complete_own` — the rest of its completion, after a callback or at once;
* `compLoop_own`, `resetLoop_own` — the loops of `TdeOsiListNodeComp` and `TdeOsiListReset`.
-/

namespace HiSTB.Tde

open Lib Lifetime OsiList

variable {s t : OsiList} {q : Nat → Nat} {T : List Pc} {j : Nat} {pc : Pc}

variable {r : Region} {done pend rest l : List Nat} {k : Nat}

/-! ## Regions -/

/-- A region keeps the invariant, for its threads and the others, and touches no dead job. -/
structure RegionOk (s : OsiList) (T : List Pc) (r : Region) : Prop where
  own : Own r.osi (r.threads ++ T)
  within : Within OsiList.Dead s r.events r.osi

theorem RegionOk.after {es : List (Event Nat)} (h : RegionOk t T r)
    (hw : Within OsiList.Dead s es t) : RegionOk s T (r.after es) :=
  ⟨h.own, hw.trans h.within⟩

theorem RegionOk.frame (h : RegionOk t T r) (hf : Frame s t) : RegionOk s T r :=
  h.after (hf.uses (l := []) (fun _ hk => absurd hk List.not_mem_nil))

theorem RegionOk.stop (h : Own s T) : RegionOk s T ⟨s, [], []⟩ :=
  ⟨h, Frame.uses (l := []) (Frame.refl s) (fun _ hk => absurd hk List.not_mem_nil)⟩

theorem RegionOk.reads (hf : Frame s t) (hj : s.Live j) {U : List Pc} (h : Own t (U ++ T)) :
    RegionOk s T ⟨t, [.access j], U⟩ :=
  ⟨h, Within.access (not_dead hj) (fun _ hk => hf.dead hk)⟩

theorem RegionOk.frees (hb : Base s q) (h : Own s T) (hj : s.Live j) (hl : j ∉ s.list)
    (hT : ∀ pc ∈ T, pc.job ≠ j) : RegionOk s T ⟨(s.destroyJob j).1, (s.destroyJob j).2, []⟩ :=
  ⟨(destroyJob_own hb h hj hl hT).1, (destroyJob_own hb h hj hl hT).2⟩

/-! ## Starting the engine -/

theorem compProc_own (hs : Split s done pend) (h : Own s T)
    (ok : Bool) : RegionOk s T ⟨(s.compProc ok).1, (s.compProc ok).2, []⟩ := by
  unfold compProc
  split
  · exact RegionOk.stop h
  · rename_i c hc
    have hlive : s.Live c := by
      rw [hs.first] at hc
      exact (h.list c (hs.mem_right (List.mem_of_mem_head? hc))).1
    split
    · exact ⟨h.congr rfl rfl (fun k => ⟨rfl, rfl, rfl, rfl⟩), Within.access (not_dead hlive) (fun _ hk => hk)⟩
    · exact RegionOk.reads (Frame.refl s) hlive h

theorem compEnd_own (hs : Split s done pend) (h : Own s T)
    (work : Bool) (env : Env) : RegionOk s T (s.compEnd work env) := by
  unfold compEnd
  split
  · exact compProc_own hs h env.ok
  · exact RegionOk.stop h

/-! ## Removing jobs -/

theorem setNotiType_job_of_ne (m : NotifyMode) (hk : k ≠ j) :
    (s.setNotiType j m).job k = s.job k :=
  Function.update_of_ne hk _ _

theorem markDone_job_of_ne (hk : k ≠ j) : (s.markDone j).job k = s.job k := by
  unfold markDone
  split
  · exact setNotiType_job_of_ne .butt hk
  · rfl

theorem safeDestroyJob_job_of_ne (hk : k ≠ j) : (s.safeDestroyJob j).1.job k = s.job k := by
  unfold safeDestroyJob
  split
  · exact setNotiType_job_of_ne .butt hk
  · unfold destroyJob
    split <;> rfl

theorem complete_job_of_ne (kind : NotifyMode) (hk : k ≠ j) :
    (s.complete j kind).1.job k = s.job k := by
  cases kind with
  | wake => rfl
  | compl => exact safeDestroyJob_job_of_ne hk
  | butt => rfl

theorem Own.holds_eq_zero (h : Own s T) (hj : j ∈ s.list) : tally Pc.holds T j = 0 := by
  have hh := h.holds j
  have hc := List.count_pos_iff.mpr hj
  omega

/-- The notification of a job that was taken out of the list. -/
theorem markDone_notiType (s : OsiList) (j : Nat) : ((s.markDone j).job j).notiType =
    if (s.job j).notiType = .wake then .butt else (s.job j).notiType := by
  unfold markDone
  split
  · simp [OsiList.setNotiType, modJob]
  · rfl

theorem markDone_own (h : Own s T) (hl : j ∉ s.list) (hh : tally Pc.holds T j = 0) :
    Own (s.markDone j) T := by
  unfold markDone
  split
  · refine h.setNotiType (fun hmem => absurd hmem hl) ?_
    intro pc hpc hpj
    refine Pc.local_butt (h.pcs pc hpc).know (Bool.eq_false_iff.mpr (fun hk => ?_))
    exact tally_eq_zero.mp hh pc hpc hk hpj
  · exact h

/-- What is known of a job that was just taken out of the list. -/
structure Taken (s : OsiList) (T : List Pc) (j : Nat) (kind : NotifyMode) : Prop where
  own : Own s T
  live : s.Live j
  submitted : (s.job j).submitted = true
  out : j ∉ s.list
  free : tally Pc.holds T j = 0
  know : (kind = .wake ∧ (s.job j).notiType = .butt) ∨ (kind = .compl ∧ (s.job j).notiType = .compl)

/-- The first job is taken out of the list. -/
theorem markDone_taken (hb : Base s q) (h : Own s T) (hl : s.list = j :: rest)
    (hlist : t.list = rest) (hjob : t.job = s.job) (hh : t.handles = s.handles) (hbrk : t.brk = s.brk) :
    Taken (t.markDone j) T j (s.job j).notiType ∧
      Within OsiList.Dead s ((j :: rest.head?.toList).map .access) (t.markDone j) := by
  have hmem : j ∈ s.list := by
    rw [hl]
    exact List.mem_cons_self
  obtain ⟨hlive, hbutt⟩ := h.list j hmem
  have hnd := hb.list_nodup
  rw [hl, List.nodup_cons] at hnd
  have hsub : rest.Sublist s.list := by
    rw [hl]
    exact List.sublist_cons_self j rest
  have hown : Own t T := by
    refine (h.shorten hsub).congr hh hlist (fun k => ?_)
    rw [hjob]
    exact ⟨rfl, rfl, rfl, rfl⟩
  have hdead : ∀ k, s.Dead k → t.Dead k := fun k hk => dead_congr hk hbrk hh (fun i => by rw [hjob])
  have hout : j ∉ t.list := by
    rw [hlist]
    exact hnd.1
  have hf := markDone_frame t j
  have hzero := h.holds_eq_zero hmem
  refine ⟨⟨markDone_own hown hout hzero, ?_, ?_, ?_, hzero, ?_⟩, ?_⟩
  · have hlive' : t.Live j := live_congr hlive hh (by rw [hjob])
    refine live_congr hlive' ?_ (hf.job j).2.1
    unfold markDone
    split <;> rfl
  · rw [(hf.job j).2.2, hjob]
    exact (hb.list_job j hmem).2.1
  · rw [hf.list]
    exact hout
  · rw [markDone_notiType, hjob]
    cases hm : (s.job j).notiType with
    | wake => exact Or.inl ⟨rfl, rfl⟩
    | compl => exact Or.inr ⟨rfl, rfl⟩
    | butt => exact absurd hm hbutt
  · refine Within.uses ?_ (fun k hk => hf.dead (hdead k hk))
    intro k hk
    have hkl : k ∈ s.list := by
      rw [hl]
      rcases List.mem_cons.mp hk with rfl | hk
      · exact List.mem_cons_self
      · rw [Option.mem_toList] at hk
        exact List.mem_cons_of_mem j (List.mem_of_mem_head? hk)
    exact not_dead (h.list k hkl).1

/-- The rest of the completion of a job that was taken out of the list. -/
theorem complete_own (hb : Base s q) {kind : NotifyMode} (h : Taken s T j kind)
    (hq : quiet s T [j] = true) :
    Own (s.complete j kind).1 T ∧ Within OsiList.Dead s (s.complete j kind).2 (s.complete j kind).1 := by
  rcases h.know with ⟨rfl, _⟩ | ⟨rfl, hm⟩
  · exact ⟨h.own, (RegionOk.reads (U := []) (Frame.refl s) h.live h.own).within⟩
  · exact safeDestroyJob_own hb h.own h.live h.out hm h.free hq

theorem quiet_cons :
    quiet s T (j :: l) = true ↔ quiet s T [j] = true ∧ quiet s T l = true := by
  simp [quiet]

/-- The condition on the completion looks at the jobs of the list only. -/
theorem quiet_congr (hjob : ∀ k ∈ l, t.job k = s.job k) (hq : quiet s T l = true) :
    quiet t T l = true := by
  induction l with
  | nil => rfl
  | cons j l ih =>
    rw [quiet_cons] at hq ⊢
    refine ⟨?_, ih (fun k hk => hjob k (List.mem_cons_of_mem j hk)) hq.2⟩
    have hj := hjob j List.mem_cons_self
    simpa [quiet, hj] using hq.1

theorem removed_subset (s : OsiList) (finished : Int)
    (hk : k ∈ removed s finished l) : k ∈ l := by
  induction l with
  | nil => exact hk
  | cons j l ih =>
    rw [removed] at hk
    split at hk
    · exact absurd hk List.not_mem_nil
    · rcases List.mem_cons.mp hk with rfl | hk
      · exact List.mem_cons_self
      · split at hk
        · exact absurd hk List.not_mem_nil
        · exact List.mem_cons_of_mem j (ih hk)

theorem quiet_removed_congr {finished : Int} (hq : quiet s T (removed s finished l) = true)
    (hjob : ∀ k ∈ l, t.job k = s.job k) : quiet t T (removed t finished l) = true := by
  have hremoved : removed t finished l = removed s finished l := by
    clear hq
    induction l with
    | nil => rfl
    | cons j l ih =>
      rw [removed, removed, hjob j List.mem_cons_self, ih (fun k hk => hjob k (List.mem_cons_of_mem j hk))]
  rw [hremoved]
  exact quiet_congr (fun k hk => hjob k (removed_subset s finished hk)) hq

theorem markDone_quiet (hq : quiet s T [j] = true) : quiet (s.markDone j) T [j] = true := by
  unfold markDone
  split
  · simp [quiet, OsiList.setNotiType, modJob]
  · exact hq

/-- **The loop of `TdeOsiListNodeComp`.** -/
theorem compLoop_own (work : Bool) (finished : Int) (env : Env) (hb : Base s q)
    (hs : Split s done pend) (h : Own s T) (hl : s.list = l)
    (hfin : pend = [] ∨ ∃ j ∈ done, (s.job j).handle = finished)
    (hq : quiet s T (removed s finished l) = true) :
    RegionOk s T (compLoop work finished env l s) := by
  induction l generalizing s done with
  | nil => exact RegionOk.stop h
  | cons j rest ih =>
    obtain ⟨done, rfl, hrest⟩ := hs.removes_first hl hfin
    obtain ⟨hb', hs'⟩ := unlink_inv hb hs
    rw [← hrest] at hb' hs'
    obtain ⟨htaken, hwithin⟩ := markDone_taken hb h hl (t := s.unlink j rest) rfl rfl rfl rfl
    have hfm := markDone_frame (s.unlink j rest) j
    have hfc := hfm.trans (complete_frame ((s.unlink j rest).markDone j) j (s.job j).notiType)
    rw [compLoop]
    split
    · rename_i hcb
      refine ⟨htaken.own.enter ⟨htaken.live, htaken.submitted, htaken.know⟩ rfl ?_ ?_, hwithin⟩
      · exact fun hsub => Bool.noConfusion hsub
      · exact fun _ => ⟨htaken.out, htaken.free⟩
    · rename_i hcb
      have hncb : (s.job j).complCB = false := by
        rw [Bool.eq_false_iff]
        intro hc
        exact hcb ⟨hc, (h.list j (hl ▸ List.mem_cons_self)).2⟩
      rw [removed, hncb, if_neg Bool.false_ne_true, quiet_cons] at hq
      have hqj : quiet ((s.unlink j rest).markDone j) T [j] = true :=
        markDone_quiet (quiet_congr (fun _ _ => rfl) hq.1)
      obtain ⟨hown, hwithin'⟩ := complete_own (hb'.frame hfm) htaken hqj
      show RegionOk s T (Region.after (ite _ _ _) _)
      refine RegionOk.after ?_ (hwithin.trans hwithin')
      split
      · exact compEnd_own (hs'.frame hfc) hown work env
      · rename_i hdel
        have hjob : ∀ k ∈ rest, (((s.unlink j rest).markDone j).complete j (s.job j).notiType).1.job k =
            s.job k := by
          intro k hk
          have hkj : k ≠ j := by
            rintro rfl
            exact htaken.out (hfm.list ▸ hk)
          rw [complete_job_of_ne _ hkj, markDone_job_of_ne hkj]
          rfl
        refine ih (hb'.frame hfc) (hs'.frame hfc) hown hfc.list
          (finished_remains (fun k => (hfc.job k).2.1) hdel hfin) ?_
        rw [if_neg hdel] at hq
        exact quiet_removed_congr hq.2 hjob

/-- One round of the loop of `TdeOsiListReset`. -/
theorem resetJob_own (hb : Base s q) (h : Own s T) (hl : s.list = j :: rest)
    (hq : quiet s T [j] = true) :
    Own (s.resetJob j rest).1 T ∧ Within OsiList.Dead s (s.resetJob j rest).2 (s.resetJob j rest).1 := by
  obtain ⟨htaken, hwithin⟩ := markDone_taken hb h hl
    (t := { s with list := rest, jobNum := s.jobNum - 1 }) rfl rfl rfl rfl
  have hnd := hb.list_nodup
  rw [hl, List.nodup_cons] at hnd
  have hb' : Base { s with list := rest, jobNum := s.jobNum - 1 } q := by
    refine { hb.shorten (fun k hk => ?_) hnd.2 with }
    rw [hl]
    exact List.mem_cons_of_mem j hk
  have hclear : ∀ {u : OsiList} {es : List (Event Nat)}, Own u T → Within OsiList.Dead s es u →
      Own u.clearCursors T ∧ Within OsiList.Dead s es u.clearCursors :=
    fun hu hw => ⟨hu.congr rfl rfl (fun _ => ⟨rfl, rfl, rfl, rfl⟩), hw.alive, hw.safe, hw.freed, hw.mono⟩
  unfold resetJob
  rcases htaken.know with ⟨hm, _⟩ | ⟨hm, hm'⟩
  · rw [← List.append_nil (List.map Event.access (j :: rest.head?.toList))] at hwithin
    rw [hm]
    exact hclear htaken.own hwithin
  · rw [hm]
    obtain ⟨hown, hwithin'⟩ := safeDestroyJob_own (hb'.frame (markDone_frame _ j)) htaken.own htaken.live
      htaken.out hm' htaken.free (markDone_quiet (quiet_congr (fun _ _ => rfl) hq))
    exact hclear hown (hwithin.trans hwithin')

theorem resetJob_job_of_ne (hk : k ≠ j) :
    (s.resetJob j rest).1.job k = s.job k := by
  have hm : (OsiList.markDone { s with list := rest, jobNum := s.jobNum - 1 } j).job k = s.job k :=
    markDone_job_of_ne hk
  unfold resetJob
  cases (s.job j).notiType with
  | wake => exact hm
  | compl => exact (safeDestroyJob_job_of_ne hk).trans hm
  | butt => exact hm

/-- **The loop of `TdeOsiListReset`.** -/
theorem resetLoop_own (hb : Base s q) (h : Own s T) (hl : s.list = l)
    (hq : quiet s T l = true) :
    Own (resetLoop l s).1 T ∧ Within OsiList.Dead s (resetLoop l s).2 (resetLoop l s).1 := by
  induction l generalizing s with
  | nil => exact ⟨h, (RegionOk.stop h).within⟩
  | cons j rest ih =>
    rw [quiet_cons] at hq
    obtain ⟨hown, hwithin⟩ := resetJob_own hb h hl hq.1
    have hnd := hb.list_nodup
    rw [hl, List.nodup_cons] at hnd
    have hjob : ∀ k ∈ rest, (s.resetJob j rest).1.job k = s.job k := by
      intro k hk
      refine resetJob_job_of_ne ?_
      rintro rfl
      exact hnd.1 hk
    obtain ⟨hown', hwithin'⟩ := ih (resetJob_base hb hl) hown (resetJob_list s j rest).1
      (quiet_congr hjob hq.2)
    exact ⟨hown', hwithin.trans hwithin'⟩

end HiSTB.Tde
