import HiSTB.Tde.Correctness.Completion

/-!
# `Tde.Correctness.Calls` — the regions of the other operations

* `beginJob_own`, `setNodeFinish_own`, `cancelJob_own`, `submitJob_own`, `waitForDone_own`, `nodeComp_own` —
  calls up to the place where they give the lock away;
* `submitLocked_own`, `submitRelocked_own`, `doneRelocked_own`, `calledLocked_own` — threads that go on.
-/

namespace HiSTB.Tde

open Lib Lifetime OsiList

variable {s t : OsiList} {q : Nat → Nat} {T : List Pc} {j : Nat} {pc : Pc}

variable {g : Int} {m : NotifyMode} {idle asyn timed : Bool} {done pend : List Nat} {env : Env}
    {ret : WaitRet}

/-! ## Calls -/

theorem Base.live_of_handle (hb : Base s q) {h : Int} (hj : s.handles h = some j) : s.Live j := by
  unfold OsiList.Live
  rw [(hb.handles h j hj).2]
  exact hj

/-- A job that was not submitted is with no thread and not in the list. -/
theorem Own.unsubmitted (h : Own s T) (hb : Base s q) (hj : (s.job j).submitted = false) :
    j ∉ s.list ∧ ∀ pc ∈ T, pc.job ≠ j := by
  refine ⟨(hb.unsubmitted hj).1, ?_⟩
  rintro pc hpc rfl
  rw [(h.pcs pc hpc).submitted] at hj
  cases hj

theorem beginJob_own (hb : Base s q) (h : Own s T) (hg : s.handles g = none) :
    RegionOk s T (s.beginJob g) := by
  have hold : ∀ k, k < s.brk → (s.beginJob g).osi.job k = s.job k :=
    fun k hk => Function.update_of_ne (Nat.ne_of_lt hk) _ _
  have hhandle : ∀ f, f ≠ g → (s.beginJob g).osi.handles f = s.handles f :=
    fun f hf => Function.update_of_ne hf _ _
  have hlive : ∀ k, s.Live k → (s.beginJob g).osi.Live k := by
    intro k hk
    have hne : (s.job k).handle ≠ g := by
      intro heq
      unfold OsiList.Live at hk
      rw [heq, hg] at hk
      cases hk
    unfold OsiList.Live
    rw [hold k (hb.lt_of_live hk), hhandle _ hne]
    exact hk
  have hpcs : ∀ pc ∈ T, pc.job < s.brk := fun pc hpc => hb.lt_of_live (h.pcs pc hpc).live
  refine ⟨⟨?_, ?_, ?_, h.submits, h.holds⟩, ?_⟩
  · intro k hk
    obtain ⟨hkl, hkm⟩ := h.list k hk
    rw [hold k (hb.lt_of_live hkl)]
    exact ⟨hlive k hkl, hkm⟩
  · intro pc hpc
    have hok := h.pcs pc hpc
    refine ⟨hlive _ hok.live, ?_, ?_⟩
    · rw [hold _ (hpcs pc hpc)]
      exact hok.submitted
    · rw [hold _ (hpcs pc hpc)]
      exact hok.know
  · intro k
    rcases eq_or_ne k s.brk with rfl | hk
    · have hnew : ((s.beginJob g).osi.job s.brk).waitForDoneCount = 0 := by simp [beginJob]
      rw [hnew]
      exact (tally_eq_zero.mpr (fun pc hpc _ => Nat.ne_of_lt (hpcs pc hpc))).symm
    · have hsame : (s.beginJob g).osi.job k = s.job k := Function.update_of_ne hk _ _
      rw [hsame]
      exact h.waits k
  · refine Within.access ?_ ?_
    · exact fun hd => Nat.lt_irrefl _ hd.1
    · rintro k ⟨hkb, hkd⟩
      refine ⟨Nat.lt_succ_of_lt hkb, fun hkl => hkd ?_⟩
      unfold OsiList.Live at hkl ⊢
      rw [hold k hkb] at hkl
      rcases eq_or_ne (s.job k).handle g with heq | hne
      · have hnew : (s.beginJob g).osi.handles g = some s.brk := Function.update_self _ _ _
        rw [heq, hnew] at hkl
        exact absurd (Option.some.inj hkl) (Nat.ne_of_gt hkb)
      · rw [hhandle _ hne] at hkl
        exact hkl

theorem setNodeFinish_own (hb : Base s q) (h : Own s T) (g : Int) (phyBuff : Bool) :
    RegionOk s T (s.setNodeFinish g phyBuff) := by
  unfold setNodeFinish
  split
  · exact RegionOk.stop h
  · rename_i j hj
    have hlive := hb.live_of_handle hj
    split
    · exact RegionOk.reads (Frame.refl s) hlive h
    · have hsame : ∀ k, SameJob (s.job k) ((s.addNode j phyBuff).job k) := by
        intro k
        rcases eq_or_ne k j with rfl | hk
        · constructor <;> simp [addNode, modJob]
        · rw [addNode_job_of_ne phyBuff hk]
          exact ⟨rfl, rfl, rfl, rfl⟩
      refine ⟨h.congr rfl rfl hsame, Within.access (not_dead hlive) ?_⟩
      exact fun k hk => dead_congr hk rfl rfl (fun i => (hsame i).handle)

/-- A job that was not submitted is freed with its handle. -/
theorem release_own (hb : Base s q) (h : Own s T) (hj : s.handles g = some j)
    (hsub : (s.job j).submitted = false) :
    RegionOk s T ⟨s.releaseHandle g, [.access j, .free j], []⟩ := by
  have hlive := hb.live_of_handle hj
  obtain ⟨hl, hT⟩ := h.unsubmitted hb hsub
  have hfree := RegionOk.frees hb h hlive hl hT
  rw [destroyJob_live hlive, (hb.handles g j hj).2] at hfree
  exact hfree

theorem cancelJob_own (hb : Base s q) (h : Own s T) (g : Int) : RegionOk s T (s.cancelJob g) := by
  unfold cancelJob
  split
  · exact RegionOk.stop h
  · rename_i j hj
    split
    · exact RegionOk.reads (Frame.refl s) (hb.live_of_handle hj) h
    · rename_i hsub
      exact release_own hb h hj (Bool.eq_false_iff.mpr hsub)

/-- A submission is prepared. -/
theorem prepare_own (hb : Base s q) (h : Own s T) (hlive : s.Live j) (hsub : (s.job j).submitted = false)
    (hm : m ≠ .butt) (cb asyn : Bool) (fence : Option Int) :
    RegionOk s T ⟨s.prepare j m cb fence, [.access j], []⟩ ∧
      RegionOk s T ⟨s.prepare j m cb fence, [.access j], [.submitLock j m asyn]⟩ := by
  obtain ⟨hl, hT⟩ := h.unsubmitted hb hsub
  have hother : ∀ k, k ≠ j → (s.prepare j m cb fence).job k = s.job k :=
    fun k hk => prepare_job_of_ne m cb fence hk
  have hhandle : ∀ k, ((s.prepare j m cb fence).job k).handle = (s.job k).handle := by
    intro k
    rcases eq_or_ne k j with rfl | hk
    · exact (prepare_job_self s k m cb fence).2.1
    · rw [hother k hk]
  have hlives : ∀ k, s.Live k → (s.prepare j m cb fence).Live k := by
    intro k hk
    exact live_congr hk rfl (hhandle k)
  have hown : Own (s.prepare j m cb fence) T := by
    refine ⟨?_, ?_, ?_, h.submits, h.holds⟩
    · intro k hk
      have hkj : k ≠ j := by
        rintro rfl
        exact hl hk
      rw [hother k hkj]
      exact ⟨hlives k (h.list k hk).1, (h.list k hk).2⟩
    · intro pc hpc
      have hok := h.pcs pc hpc
      refine ⟨hlives _ hok.live, ?_, ?_⟩
      · rw [hother _ (hT pc hpc)]
        exact hok.submitted
      · rw [hother _ (hT pc hpc)]
        exact hok.know
    · intro k
      have hcount : ((s.prepare j m cb fence).job k).waitForDoneCount = (s.job k).waitForDoneCount := by
        rcases eq_or_ne k j with rfl | hk
        · simp [prepare, modJob]
        · rw [hother k hk]
      rw [hcount]
      exact h.waits k
  have hwithin : Within OsiList.Dead s [.access j] (s.prepare j m cb fence) :=
    Within.access (not_dead hlive) (fun k hk => dead_congr hk rfl rfl hhandle)
  refine ⟨⟨hown, hwithin⟩, hown.enter ⟨hlives j hlive, ?_, ?_, ?_⟩ rfl ?_ ?_, hwithin⟩
  · exact (prepare_job_self s j m cb fence).2.2
  · simp [Pc.job, prepare, modJob]
  · simpa [Pc.job, prepare, modJob] using hm
  · exact fun _ => tally_eq_zero.mpr (fun pc hpc _ => hT pc hpc)
  · exact fun _ => ⟨hl, tally_eq_zero.mpr (fun pc hpc _ => hT pc hpc)⟩

theorem submitJob_own (hb : Base s q) (h : Own s T) (g : Int) (block cb few : Bool) (fence : Option Int) :
    RegionOk s T (s.submitJob g block cb few fence) := by
  unfold submitJob
  split
  · exact RegionOk.stop h
  · rename_i j hj
    have hlive := hb.live_of_handle hj
    split
    · exact RegionOk.reads (Frame.refl s) hlive h
    · rename_i hsub
      rw [Bool.not_eq_true] at hsub
      split
      · exact release_own hb h hj hsub
      · split
        · exact (prepare_own hb h hlive hsub (by decide) cb _ none).2
        · split
          · exact (prepare_own hb h hlive hsub (by decide) cb _ none).2
          · split
            · exact (prepare_own hb h hlive hsub (by decide) cb false none).1
            · exact (prepare_own hb h hlive hsub (by decide) cb _ _).2

/-- **`TdeOsiListWaitForDone` counts its thread.** -/
theorem waitForDone_own (hb : Base s q) (h : Own s T) (g : Int) (timed : Bool)
    (hcount : ∀ k, s.handles g = some k → (s.job k).submitted = true → (s.job k).waitForDoneCount ≠ 255) :
    RegionOk s T (s.waitForDone g timed) := by
  unfold waitForDone
  split
  · exact RegionOk.stop h
  · rename_i j hj
    have hlive := hb.live_of_handle hj
    split
    · rename_i hsub
      refine RegionOk.reads (setCount_frame s j _) hlive (h.setCount ?_ ?_ ?_ ?_ ?_)
      · intro pc hpc
        rcases List.mem_cons.mp hpc with rfl | hpc
        · exact ⟨hlive, hsub, trivial⟩
        · exact h.pcs pc hpc
      · have hne := hcount j hj hsub
        have hlt : (s.job j).waitForDoneCount.toNat ≠ 255 := fun heq => hne (BitVec.eq_of_toNat_eq heq)
        have hw := h.waits j
        have hb8 := (s.job j).waitForDoneCount.isLt
        rw [List.singleton_append, tally_cons, if_pos ⟨rfl, rfl⟩, ← hw, BitVec.toNat_add]
        show (_ + 1) % 256 = _
        omega
      · intro k hk
        rw [List.singleton_append, tally_cons, if_neg (fun hc => hk hc.2.symm), Nat.add_zero]
      · exact fun k => Nat.le_of_eq (tally_cons_of_not rfl T k)
      · exact fun k => Nat.le_of_eq (tally_cons_of_not rfl T k)
    · exact RegionOk.reads (Frame.refl s) hlive h

/-- The jobs that `TdeOsiListNodeComp` looks at before its loop. -/
theorem finishedReads_live (hb : Base s q) (h : Own s T) :
    ∀ k ∈ s.finishedReads idle g, s.Live k := by
  intro k hk
  unfold finishedReads at hk
  split at hk
  · exact absurd hk List.not_mem_nil
  · cases hg : s.handles g with
    | none =>
      rw [hg] at hk
      exact absurd hk List.not_mem_nil
    | some j =>
      rw [hg] at hk
      have hlive := hb.live_of_handle hg
      rcases List.mem_cons.mp hk with rfl | hk
      · exact hlive
      · rw [Option.mem_toList] at hk
        unfold prev at hk
        split at hk
        · exact (h.list k ((List.takeWhile_sublist _).subset (List.mem_of_getLast? hk))).1
        · rw [← Option.some.inj hk]
          exact hlive

theorem nodeComp_own (hb : Base s q) (hs : Split s done pend) (h : Own s T) {cur : Option (Nat × Option Int)}
    (hC : ∀ finished ∈ removesUpTo ⟨s, T⟩ (.nodeComp idle cur env), FinishedCommitted s finished)
    (hq : ∀ finished ∈ removesUpTo ⟨s, T⟩ (.nodeComp idle cur env), quiet s T (removed s finished s.list) = true) :
    RegionOk s T (s.nodeComp idle cur env) := by
  have hf : ∀ r m, Frame s { s with jobFinished := r, handleFinished := m } :=
    fun r m => ⟨fun _ => ⟨rfl, rfl, rfl⟩, rfl, rfl, rfl, rfl, rfl, rfl, rfl, fun _ _ h => h⟩
  have hsame : ∀ r m, Own { s with jobFinished := r, handleFinished := m } T :=
    fun r m => h.congr rfl rfl (fun _ => ⟨rfl, rfl, rfl, rfl⟩)
  rcases nodeComp_cases s idle cur env with heq | ⟨addr, g, rfl, hne, hcase⟩
  · rw [heq]
    exact RegionOk.stop h
  · rcases hcase with ⟨_, heq⟩ | ⟨finished, hfin, heq⟩
    · rw [heq]
      exact ⟨hsame _ s.handleFinished, (hf _ s.handleFinished).uses (finishedReads_live hb h)⟩
    · have hmem : finished ∈ removesUpTo ⟨s, T⟩ (.nodeComp idle (some (addr, some g)) env) := by
        simp only [removesUpTo, if_neg hne]
        exact hfin
      have hframe := hf (s.finishedNode idle addr g) finished
      rw [heq]
      refine RegionOk.after ?_ (hframe.uses (finishedReads_live hb h))
      refine compLoop_own _ _ _ (hb.frame hframe) (hs.frame hframe) (hsame _ _) rfl
        (hs.finishedCommitted hb (hC finished hmem)) ?_
      exact quiet_removed_congr (hq finished hmem) (fun _ _ => rfl)

/-! ## Threads that go on -/

/-- The job gets to the list. -/
theorem Own.addJob (h : Own s T) (hlive : s.Live j) (hm : (s.job j).notiType ≠ .butt) (hl : j ∉ s.list)
    (hh : tally Pc.holds T j = 0) : Own (s.addJob j) T := by
  refine ⟨?_, fun pc hpc => (h.pcs pc hpc).congr rfl ⟨rfl, rfl, rfl, rfl⟩, h.waits, h.submits, ?_⟩
  · intro k hk
    rcases List.mem_append.mp hk with hk | hk
    · exact h.list k hk
    · rw [List.mem_singleton.mp hk]
      exact ⟨hlive, hm⟩
  · intro k
    show (s.list ++ [j]).count k + tally Pc.holds T k ≤ 1
    have hk := h.holds k
    rw [List.count_append]
    rcases eq_or_ne k j with rfl | hkj
    · have hcount := List.count_eq_zero.mpr hl
      have hself : [k].count k = 1 := List.count_singleton_self
      omega
    · rw [List.count_singleton, if_neg (by simpa using hkj.symm)]
      omega

theorem linkJob_sameJob (s : OsiList) (j c l k : Nat) : SameJob (s.job k) ((s.linkJob j c l).job k) := by
  rcases eq_or_ne k c with rfl | hk
  · constructor <;> simp [linkJob, modJob]
  · constructor <;> simp [linkJob, modJob, hk]

theorem queueJob_own (hs : Split s done pend) (h : Own s T) (hlive : s.Live j)
    (hm : (s.job j).notiType ≠ .butt) (hl : j ∉ s.list) (hh : tally Pc.holds T j = 0) :
    Own (s.queueJob j).1 T ∧ Within OsiList.Dead s (s.queueJob j).2 (s.queueJob j).1 := by
  have hlast : ∀ k ∈ s.list.getLast?.toList, s.Live k := by
    intro k hk
    rw [Option.mem_toList] at hk
    exact (h.list k (List.mem_of_getLast? hk)).1
  unfold queueJob
  split
  · rename_i c l hc hlst
    have hcp : c ∈ pend := by
      rw [hs.first] at hc
      exact List.mem_of_mem_head? hc
    have hlp : l ∈ pend := by
      rw [hs.last (List.ne_nil_of_mem hcp)] at hlst
      exact List.mem_of_getLast? hlst
    have hsame := linkJob_sameJob s j c l
    have hown : Own (s.linkJob j c l) T := h.congr rfl rfl hsame
    refine ⟨hown.addJob ?_ ?_ hl hh, Within.uses ?_ ?_⟩
    · exact live_congr hlive rfl (hsame j).handle
    · rw [(hsame j).notiType]
      exact hm
    · intro k hk
      refine not_dead ?_
      rcases List.mem_append.mp hk with hk | hk
      · simp only [List.mem_cons, List.not_mem_nil, or_false] at hk
        rcases hk with rfl | rfl | rfl
        · exact (h.list k (hs.mem_right hlp)).1
        · exact hlive
        · exact (h.list k (hs.mem_right hcp)).1
      · exact hlast k hk
    · exact fun k hk => dead_congr hk rfl rfl (fun i => (hsame i).handle)
  · have hown : Own { s with jobToCommit := some j } T := h.congr rfl rfl (fun _ => ⟨rfl, rfl, rfl, rfl⟩)
    refine ⟨hown.addJob hlive hm hl hh, Within.uses ?_ ?_⟩
    · intro k hk
      refine not_dead ?_
      rcases List.mem_append.mp hk with hk | hk
      · rw [List.mem_singleton.mp hk]
        exact hlive
      · exact hlast k hk
    · exact fun k hk => dead_congr hk rfl rfl (fun _ => rfl)

/-- The first locked region of `TdeOsiListSubmitJob` leaves alone what threads know. -/
theorem submitLocked_sameJob (s : OsiList) (j : Nat) (m : NotifyMode) (asyn ok : Bool) :
    (s.submitLocked j m asyn ok).osi.handles = s.handles ∧
      ∀ k, SameJob (s.job k) ((s.submitLocked j m asyn ok).osi.job k) := by
  have hcomp : ∀ t : OsiList, (t.compProc ok).1.handles = t.handles ∧ (t.compProc ok).1.job = t.job := by
    intro t
    unfold compProc
    split
    · exact ⟨rfl, rfl⟩
    · split <;> exact ⟨rfl, rfl⟩
  unfold submitLocked
  rw [(hcomp _).1, (hcomp _).2]
  unfold queueJob
  split
  · rename_i c l _ _
    exact ⟨rfl, linkJob_sameJob s j c l⟩
  · exact ⟨rfl, fun _ => ⟨rfl, rfl, rfl, rfl⟩⟩

/-- The first locked region of `TdeOsiListSubmitJob`. -/
theorem submitLocked_own {ok : Bool} (hi : Inv s q) (hqj : 0 < q j)
    (h : Own s (.submitLock j m asyn :: T)) : RegionOk s T (s.submitLocked j m asyn ok) := by
  obtain ⟨done, pend, hs⟩ := hi.split
  have hok := h.pcs _ List.mem_cons_self
  have hlive : s.Live j := hok.live
  have hholds := h.holds j
  have hsubmits := h.submits j
  rw [tally_cons, if_pos ⟨rfl, rfl⟩] at hholds hsubmits
  have hl : j ∉ s.list := List.count_eq_zero.mp (by omega)
  obtain ⟨hown, hwithin⟩ := queueJob_own hs (h.leave rfl) hlive hok.know.2 hl (by omega)
  have hi' : Inv (s.queueJob j).1 (fun k => if k = j then 0 else q k) := by
    refine queueJob_inv hi hqj (fun k => ?_) (if_pos rfl)
    split
    · exact Nat.zero_le _
    · exact Nat.le_refl _
  obtain ⟨_, _, hs'⟩ := hi'.split
  obtain ⟨hown', hwithin'⟩ := compProc_own hs' hown ok
  obtain ⟨hh, hsame⟩ := submitLocked_sameJob s j m asyn ok
  refine ⟨?_, hwithin.trans hwithin'⟩
  rcases eq_or_ne m .wake with rfl | hm
  · -- the submitter goes to sleep
    have hwait : PcOk s (.submitWait j asyn) := by
      refine ⟨hlive, hok.submitted, ?_⟩
      have hm : (s.job j).notiType = .wake := hok.know.1
      show (s.job j).notiType ≠ .compl
      rw [hm]
      exact NotifyMode.noConfusion
    refine Own.enter hown' (hwait.congr hh (hsame j)) rfl (fun _ => ?_) (fun hk => Bool.noConfusion hk)
    show tally Pc.submits T j = 0
    omega
  · unfold submitLocked
    rw [if_neg hm]
    exact hown'

theorem Own.enter_trace (h : Own s T) (hlive : s.Live j) (hsub : (s.job j).submitted = true) :
    Own s (.trace j :: T) :=
  h.enter ⟨hlive, hsub, trivial⟩ rfl (fun hk => Bool.noConfusion hk) (fun hk => Bool.noConfusion hk)

/-- The second locked region of `TdeOsiListSubmitJob`. -/
theorem submitRelocked_own (hb : Base s q)
    (h : Own s (.submitWoken j asyn ret :: T)) (hC : leavesAlone s T (.submitWoken j asyn ret) = true) :
    RegionOk s T (s.submitRelocked j asyn ret) := by
  have hok := h.pcs _ List.mem_cons_self
  have hlive : s.Live j := hok.live
  have hT := h.leave rfl
  have hsubmits := h.submits j
  rw [tally_cons, if_pos ⟨rfl, rfl⟩] at hsubmits
  have hother : ∀ pc ∈ T, pc.submits = true → pc.job ≠ j := tally_eq_zero.mp (by omega)
  unfold submitRelocked
  split
  · rename_i hbutt
    have hl : j ∉ s.list := fun hmem => (h.list j hmem).2 hbutt
    split
    · rename_i hcount
      simp only [leavesAlone, hbutt, hcount, and_self, decide_true, Bool.not_true, Bool.false_or,
        Bool.and_eq_true] at hC
      refine RegionOk.frees hb hT hlive hl (no_thread ?_ ?_ (tally_eq_zero.mpr ?_) (noneAt_iff.mp hC.2))
      · rw [← hT.waits j, hcount]
        rfl
      · exact fun pc hpc hk => hother pc hpc (Pc.submits_of_blocks hk)
      · intro pc hpc hk
        rcases Pc.holds_cases hk with ⟨m, asyn, heq⟩ | hcompletes
        · exact hother pc hpc (by rw [heq]; rfl)
        · exact noneAt_iff.mp hC.1 pc hpc hcompletes
    · exact RegionOk.reads (Frame.refl s) hlive hT
  · rename_i hbutt
    have hwake : (s.job j).notiType = .wake := by
      have hcompl : (s.job j).notiType ≠ .compl := hok.know
      cases hm : (s.job j).notiType with
      | wake => rfl
      | compl => exact absurd hm hcompl
      | butt => exact absurd hm hbutt
    have hset : Own (s.setNotiType j .compl) T := by
      refine hT.setNotiType (fun _ => NotifyMode.noConfusion) ?_
      intro pc hpc hpj
      have hknow := (hT.pcs pc hpc).know
      rw [hpj, hwake] at hknow
      cases pc with
      | submitLock _ _ _ => exact absurd hpj (hother _ hpc rfl)
      | submitWait _ _ => exact absurd hpj (hother _ hpc rfl)
      | submitWoken _ _ _ => exact absurd hpj (hother _ hpc rfl)
      | doneWait _ _ => trivial
      | doneWoken _ _ _ => exact ⟨fun hret => NotifyMode.noConfusion (hknow.1 hret), hknow.2⟩
      | trace _ => trivial
      | callback _ _ _ _ _ => rcases hknow with ⟨_, hk⟩ | ⟨_, hk⟩ <;> cases hk
      | called _ _ _ _ _ => rcases hknow with ⟨_, hk⟩ | ⟨_, hk⟩ <;> cases hk
    refine RegionOk.reads (setNotiType_frame s j .compl) hlive ?_
    split
    · have hf := setNotiType_frame s j .compl
      exact hset.enter_trace (live_congr hlive rfl (hf.job j).2.1) ((hf.job j).2.2.trans hok.submitted)
    · exact hset

/-- A waiting thread leaves the count. -/
theorem Own.uncount (h : Own s (.doneWoken j timed ret :: T)) :
    Own (s.setCount j ((s.job j).waitForDoneCount - 1)) T := by
  have hw := h.waits j
  rw [tally_cons, if_pos ⟨rfl, rfl⟩] at hw
  refine h.setCount (fun pc hpc => h.pcs pc (List.mem_cons_of_mem _ hpc)) ?_ ?_ ?_ ?_
  · have hlt := (s.job j).waitForDoneCount.isLt
    rw [BitVec.toNat_sub]
    show (256 - 1 + _) % 256 = _
    omega
  · intro k hk
    rw [tally_cons, if_neg (fun hc => hk hc.2.symm), Nat.add_zero]
  · exact fun k => Nat.le_of_eq (tally_cons_of_not rfl T k).symm
  · exact fun k => Nat.le_of_eq (tally_cons_of_not rfl T k).symm

/-- The last waiting thread has seen the end of the job. -/
theorem lastWaiter_butt (hok : PcOk s (.doneWoken j timed ret))
    (hlast : s.lastWaiter j timed ret = true) :
    (s.job j).waitForDoneCount - 1 = 0 ∧ (s.job j).notiType = .butt := by
  simp only [lastWaiter, decide_eq_true_eq] at hlast
  refine ⟨hlast.1, ?_⟩
  rcases hlast.2 with hbutt | ⟨htimed, hret⟩
  · exact hbutt
  · obtain ⟨hdone, htimeout⟩ := hok.know
    cases ret with
    | done => exact hdone rfl
    | timeout => exact absurd (htimeout rfl) (by rw [htimed]; exact Bool.false_ne_true)
    | interrupted => exact absurd rfl hret

/-- The second locked region of `TdeOsiListWaitForDone`. -/
theorem doneRelocked_own (hb : Base s q)
    (h : Own s (.doneWoken j timed ret :: T)) (hC : leavesAlone s T (.doneWoken j timed ret) = true) :
    RegionOk s T (s.doneRelocked j timed ret) := by
  have hok := h.pcs _ List.mem_cons_self
  have hf := setCount_frame s j ((s.job j).waitForDoneCount - 1)
  have hT := h.uncount
  have hlive : s.Live j := hok.live
  have hlive' : (s.setCount j ((s.job j).waitForDoneCount - 1)).Live j := live_congr hlive rfl (hf.job j).2.1
  unfold doneRelocked
  dsimp only
  split
  · rename_i hlast
    obtain ⟨hcount, hbutt⟩ := lastWaiter_butt hok hlast
    simp only [leavesAlone, hlast, Bool.not_true, Bool.false_or, Bool.and_eq_true, Bool.or_eq_true,
      decide_eq_true_eq] at hC
    obtain ⟨⟨⟨hblocks, hcompletes⟩, htraces⟩, hret⟩ := hC
    have hno : s.waitTraces j timed ret = false := by
      unfold waitTraces
      cases timed with
      | true => simp [hbutt]
      | false => simpa using hret
    rw [hno, if_neg Bool.false_ne_true]
    have hl : j ∉ s.list := fun hmem => (h.list j hmem).2 hbutt
    refine (RegionOk.frees (hb.frame hf) hT hlive' hl ?_).frame hf
    refine no_thread ?_ (noneAt_iff.mp hblocks) (tally_eq_zero.mpr ?_) (noneAt_iff.mp htraces)
    · rw [← hT.waits j, setCount_count, if_pos rfl, hcount]
      rfl
    · intro pc hpc hk hpj
      rcases Pc.holds_cases hk with ⟨m, asyn, heq⟩ | hcomplete
      · -- a job that is still to be put into the list is not done
        have hknow := (h.pcs pc (List.mem_cons_of_mem _ hpc)).know
        rw [hpj, hbutt, heq] at hknow
        exact hknow.2 rfl
      · exact noneAt_iff.mp hcompletes pc hpc hcomplete hpj
  · refine RegionOk.reads hf hlive ?_
    split
    · exact hT.enter_trace hlive' ((hf.job j).2.2.trans hok.submitted)
    · exact hT

/-- `TdeOsiListNodeComp` after a callback. -/
theorem calledLocked_own (hb : Base s q) (hs : Split s done pend) {kind : NotifyMode}
    {work : Bool} {finished del : Int} (h : Own s (.called j kind work finished del :: T))
    (hC : leavesAlone s T (.called j kind work finished del) = true)
    (hfin : del ≠ finished → FinishedCommitted s finished)
    (hq : del ≠ finished → quiet s T (removed s finished s.list) = true) :
    RegionOk s T (s.calledLocked j kind work finished del env) := by
  have hok := h.pcs _ List.mem_cons_self
  have hholds := h.holds j
  rw [tally_cons, if_pos ⟨rfl, rfl⟩] at hholds
  have hl : j ∉ s.list := List.count_eq_zero.mp (by omega)
  have htaken : Taken s T j kind := ⟨h.leave rfl, hok.live, hok.submitted, hl, by omega, hok.know⟩
  obtain ⟨hown, hwithin⟩ := complete_own hb htaken hC
  have hf := complete_frame s j kind
  rcases eq_or_ne del finished with heq | hne
  · rw [calledLocked_last s j kind work env heq]
    exact (compEnd_own (hs.frame hf) hown work env).after hwithin
  · rw [calledLocked_more s j kind work env hne]
    refine RegionOk.after ?_ hwithin
    have hcond := hs.finishedCommitted hb (hfin hne)
    refine compLoop_own work finished env (hb.frame hf) (hs.frame hf) hown rfl (hcond.imp_right ?_) ?_
    · rintro ⟨i, hi, hih⟩
      exact ⟨i, hi, (hf.job i).2.1.trans hih⟩
    · rw [hf.list]
      refine quiet_removed_congr (hq hne) (fun k hk => complete_job_of_ne kind ?_)
      rintro rfl
      exact hl hk

/-- A thread goes on. `q` counts the other threads on their way to the list. -/
theorem resumePc_own (hi : Inv s (fun k => lockers [pc] k + q k))
    (h : Own s (pc :: T)) (hC : leavesAlone s T pc = true)
    (hfin : ∀ j kind work finished del, pc = .called j kind work finished del → del ≠ finished →
      FinishedCommitted s finished ∧ quiet s T (removed s finished s.list) = true) :
    RegionOk s T (resumePc s env pc) := by
  obtain ⟨done, pend, hs⟩ := hi.split
  have hok := h.pcs pc List.mem_cons_self
  cases pc with
  | submitLock j m asyn =>
    have hone : lockers [Pc.submitLock j m asyn] j = 1 := by simp [lockers, Pc.queues]
    exact submitLocked_own hi (show 0 < lockers [Pc.submitLock j m asyn] j + q j by omega) h
  | submitWait j asyn =>
    refine RegionOk.reads (Frame.refl s) hok.live ?_
    split
    · exact h.swap rfl rfl rfl rfl hok.know
    · exact h
  | submitWoken j asyn ret => exact submitRelocked_own hi.base h hC
  | doneWait j timed =>
    refine RegionOk.reads (Frame.refl s) hok.live ?_
    split
    · rename_i hwait
      refine h.swap rfl rfl rfl rfl ⟨?_, ?_⟩
      · intro hret
        rw [hret] at hwait
        exact of_decide_eq_true hwait
      · intro hret
        rw [hret] at hwait
        exact hwait
    · exact h
  | doneWoken j timed ret => exact doneRelocked_own hi.base h hC
  | trace j => exact RegionOk.reads (Frame.refl s) hok.live (h.leave rfl)
  | callback j kind work finished del =>
    exact RegionOk.reads (Frame.refl s) hok.live (h.swap rfl rfl rfl rfl hok.know)
  | called j kind work finished del =>
    exact calledLocked_own hi.base hs h hC (fun hne => (hfin j kind work finished del rfl hne).1)
      (fun hne => (hfin j kind work finished del rfl hne).2)

end HiSTB.Tde
