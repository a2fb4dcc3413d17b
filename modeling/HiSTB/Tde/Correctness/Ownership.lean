import HiSTB.Tde.Correctness.Pending

/-!
# `Tde.Correctness.Ownership` — who may still touch a job

A job passes between its submitter, the threads that wait for it and the completion. `Own` says what each
thread outside the lock knows about its job, that the job's count is the number of its waiting threads, that
at most one thread is its submitter, and that the job is in the list or with at most one thread that is to put
it there or took it out.

* `Orderly` — the condition on steps: no thread is overtaken by the end of its job;
* `Own.enter`, `Own.leave`, `Own.swap` — threads come and go;
* `Own.setNotiType`, `Own.setCount`, `Own.release`, `Own.shorten` — single writes;
* `destroyJob_own`, `safeDestroyJob_own` — a job is destroyed.
-/

namespace HiSTB.Tde

open Lib Lifetime OsiList

variable {f : Pc → Bool} {T' : List Pc} {m : NotifyMode} {k : Nat}

/-! ## Threads and their jobs -/

/-- The job of a thread. -/
def Pc.job : Pc → Nat
  | .submitLock j _ _ => j
  | .submitWait j _ => j
  | .submitWoken j _ _ => j
  | .doneWait j _ => j
  | .doneWoken j _ _ => j
  | .trace j => j
  | .callback j _ _ _ _ => j
  | .called j _ _ _ _ => j

/-- Threads in `TdeOsiListWaitForDone`, which the job's count counts. -/
def Pc.waits : Pc → Bool
  | .doneWait _ _ => true
  | .doneWoken _ _ _ => true
  | _ => false

/-- Submitters that sleep, or have not taken the lock after that. -/
def Pc.blocks : Pc → Bool
  | .submitWait _ _ => true
  | .submitWoken _ _ _ => true
  | _ => false

/-- Threads that have given the lock away for a callback. -/
def Pc.completes : Pc → Bool
  | .callback _ _ _ _ _ => true
  | .called _ _ _ _ _ => true
  | _ => false

/-- Threads that have only a trace to print. -/
def Pc.traces : Pc → Bool
  | .trace _ => true
  | _ => false

/-- Threads that are to put the job into the list, or took it out. -/
def Pc.holds : Pc → Bool
  | .submitLock _ _ _ => true
  | pc => pc.completes

/-- The submitter of a job. -/
def Pc.submits : Pc → Bool
  | .submitLock _ _ _ => true
  | pc => pc.blocks

/-- No thread of a kind has the job. -/
def noneAt (f : Pc → Bool) (threads : List Pc) (j : Nat) : Bool :=
  threads.all (fun pc => !(f pc && pc.job == j))

/-! ## The condition on steps -/

/-- The jobs that a region of `TdeOsiListNodeComp` removes without a callback, in the list `l`. -/
def removed (s : OsiList) (finished : Int) : List Nat → List Nat
  | [] => []
  | j :: rest =>
    if (s.job j).complCB then []
    else j :: (if (s.job j).handle = finished then [] else removed s finished rest)

/-- Jobs that are about to be removed and destroyed have no trace to be printed. -/
def quiet (s : OsiList) (threads : List Pc) (l : List Nat) : Bool :=
  l.all (fun j => !decide ((s.job j).notiType = .compl ∧ (s.job j).waitForDoneCount = 0) ||
    noneAt Pc.traces threads j)

/-- When a thread that takes the lock again destroys its job, no other thread has it: the submitter does not
    overtake a callback or a trace; the last waiting thread does not overtake a submitter, a callback or a
    trace, nor does it go on to a trace of its own; the completion does not overtake a trace. -/
def leavesAlone (s : OsiList) (others : List Pc) : Pc → Bool
  | .submitWoken j _ _ =>
    !decide ((s.job j).notiType = .butt ∧ (s.job j).waitForDoneCount = 0) ||
      (noneAt Pc.completes others j && noneAt Pc.traces others j)
  | .doneWoken j timed ret =>
    !s.lastWaiter j timed ret ||
      (noneAt Pc.blocks others j && noneAt Pc.completes others j && noneAt Pc.traces others j &&
        (timed || decide (ret ≠ .interrupted)))
  | .called j _ _ _ _ => quiet s others [j]
  | _ => true

/-- **No thread is overtaken**, and the count of waiting threads does not wrap around. -/
def notOvertaken (s : St) (i : Input) : Bool :=
  (removesUpTo s i).all (fun finished => quiet s.osi s.threads (removed s.osi finished s.osi.list)) &&
  match i with
  | .waitForDone h _ =>
    (s.osi.handles h).all (fun j => !(s.osi.job j).submitted || decide ((s.osi.job j).waitForDoneCount ≠ 255))
  | .reset => quiet s.osi s.threads s.osi.list
  | .resume t _ => s.threads[t]?.all (leavesAlone s.osi (s.threads.eraseIdx t))
  | _ => true

/-- The condition on the steps of a run. -/
def Orderly (s : St) (i : Input) : Prop := CompletesCommitted s i ∧ notOvertaken s i = true
deriving Decidable

/-! ## The invariant -/

/-- The job is allocated: the handle manager knows it. -/
def OsiList.Live (s : OsiList) (j : Nat) : Prop := s.handles (s.job j).handle = some j

/-- The job was freed. -/
def OsiList.Dead (s : OsiList) (j : Nat) : Prop := j < s.brk ∧ ¬ s.Live j

/-- What a thread knows about the notification of its job. -/
def Pc.Local (m : NotifyMode) : Pc → Prop
  | .submitLock _ m' _ => m = m' ∧ m ≠ .butt
  | .submitWait _ _ => m ≠ .compl
  | .submitWoken _ _ _ => m ≠ .compl
  | .doneWait _ _ => True
  | .doneWoken _ timed ret => (ret = .done → m = .butt) ∧ (ret = .timeout → timed = true)
  | .trace _ => True
  | .callback _ kind _ _ _ => (kind = .wake ∧ m = .butt) ∨ (kind = .compl ∧ m = .compl)
  | .called _ kind _ _ _ => (kind = .wake ∧ m = .butt) ∨ (kind = .compl ∧ m = .compl)

/-- The job of a thread is there, and is what the thread takes it for. -/
structure PcOk (s : OsiList) (pc : Pc) : Prop where
  live : s.Live pc.job
  submitted : (s.job pc.job).submitted = true
  know : pc.Local (s.job pc.job).notiType

/-- How many threads of a kind have the job. -/
def tally (f : Pc → Bool) (threads : List Pc) (j : Nat) : Nat :=
  threads.countP (fun pc => f pc && pc.job == j)

/-- Who has the jobs. -/
structure Own (s : OsiList) (T : List Pc) : Prop where
  list : ∀ j ∈ s.list, s.Live j ∧ (s.job j).notiType ≠ .butt
  pcs : ∀ pc ∈ T, PcOk s pc
  waits : ∀ j, (s.job j).waitForDoneCount.toNat = tally Pc.waits T j
  submits : ∀ j, tally Pc.submits T j ≤ 1
  holds : ∀ j, s.list.count j + tally Pc.holds T j ≤ 1

variable {s t : OsiList} {q : Nat → Nat} {T : List Pc} {j : Nat} {pc : Pc}

/-! ### Counting threads -/

theorem tally_cons (f : Pc → Bool) (pc : Pc) (T : List Pc) (j : Nat) :
    tally f (pc :: T) j = tally f T j + if f pc = true ∧ pc.job = j then 1 else 0 := by
  simp [tally, List.countP_cons]

theorem tally_cons_of_not (hf : f pc = false) (T : List Pc) (j : Nat) :
    tally f (pc :: T) j = tally f T j := by
  simp [tally_cons, hf]

theorem tally_perm (f : Pc → Bool) (h : T.Perm T') (j : Nat) : tally f T j = tally f T' j :=
  h.countP_eq _

theorem tally_eq_zero : tally f T j = 0 ↔ ∀ pc ∈ T, f pc = true → pc.job ≠ j := by
  simp [tally, List.countP_eq_zero]

theorem noneAt_iff : noneAt f T j = true ↔ ∀ pc ∈ T, f pc = true → pc.job ≠ j := by
  simp [noneAt, imp_iff_not_or]

theorem Pc.kinds (pc : Pc) :
    pc.waits = true ∨ pc.blocks = true ∨ pc.holds = true ∨ pc.traces = true := by
  cases pc <;> simp [Pc.waits, Pc.blocks, Pc.holds, Pc.traces, Pc.completes]

theorem Pc.submits_of_blocks (hk : pc.blocks = true) : pc.submits = true := by
  cases pc with
  | submitLock _ _ _ => rfl
  | _ => exact hk

theorem Pc.holds_cases (hk : pc.holds = true) :
    (∃ m asyn, pc = .submitLock pc.job m asyn) ∨ pc.completes = true := by
  cases pc with
  | submitLock j m asyn => exact Or.inl ⟨m, asyn, rfl⟩
  | _ => exact Or.inr hk

/-- The end of a job is no surprise to the threads that do not hold it. -/
theorem Pc.local_butt (hknow : pc.Local m) (hh : pc.holds = false) : pc.Local .butt := by
  cases pc with
  | submitWait _ _ => exact NotifyMode.noConfusion
  | submitWoken _ _ _ => exact NotifyMode.noConfusion
  | doneWait _ _ => trivial
  | doneWoken _ _ _ => exact ⟨fun _ => rfl, hknow.2⟩
  | trace _ => trivial
  | submitLock _ _ _ => cases hh
  | callback _ _ _ _ _ => cases hh
  | called _ _ _ _ _ => cases hh

/-- A job that no thread of any kind has. -/
theorem no_thread (hw : tally Pc.waits T j = 0) (hb : ∀ pc ∈ T, pc.blocks = true → pc.job ≠ j)
    (hh : tally Pc.holds T j = 0) (ht : ∀ pc ∈ T, pc.traces = true → pc.job ≠ j) :
    ∀ pc ∈ T, pc.job ≠ j := by
  intro pc hpc
  rcases pc.kinds with hk | hk | hk | hk
  · exact tally_eq_zero.mp hw pc hpc hk
  · exact hb pc hpc hk
  · exact tally_eq_zero.mp hh pc hpc hk
  · exact ht pc hpc hk

/-! ### Threads that come and go -/

theorem Own.perm (h : Own s T) (hp : T.Perm T') : Own s T' where
  list := h.list
  pcs := fun pc hpc => h.pcs pc (hp.mem_iff.mpr hpc)
  waits := fun j => (h.waits j).trans (tally_perm _ hp j)
  submits := fun j => tally_perm Pc.submits hp j ▸ h.submits j
  holds := fun j => tally_perm Pc.holds hp j ▸ h.holds j

/-- A thread that is not counted leaves. -/
theorem Own.leave (h : Own s (pc :: T)) (hw : pc.waits = false) : Own s T where
  list := h.list
  pcs := fun pc' hpc => h.pcs pc' (List.mem_cons_of_mem pc hpc)
  waits := fun j => (h.waits j).trans (tally_cons_of_not hw T j)
  submits := fun j => by
    have hs := h.submits j
    rw [tally_cons] at hs
    omega
  holds := fun j => by
    have hs := h.holds j
    rw [tally_cons] at hs
    omega

/-- A thread comes that is not counted. -/
theorem Own.enter (h : Own s T) (hok : PcOk s pc) (hw : pc.waits = false)
    (hs : pc.submits = true → tally Pc.submits T pc.job = 0)
    (hh : pc.holds = true → pc.job ∉ s.list ∧ tally Pc.holds T pc.job = 0) : Own s (pc :: T) where
  list := h.list
  pcs := fun pc' hpc => by
    rcases List.mem_cons.mp hpc with rfl | hpc
    · exact hok
    · exact h.pcs pc' hpc
  waits := fun j => (h.waits j).trans (tally_cons_of_not hw T j).symm
  submits := fun j => by
    rw [tally_cons]
    split
    · rename_i hj
      obtain ⟨hj, rfl⟩ := hj
      exact Nat.le_of_eq (congrArg (· + 1) (hs hj))
    · exact h.submits j
  holds := fun j => by
    rw [tally_cons]
    split
    · rename_i hj
      obtain ⟨hj, rfl⟩ := hj
      obtain ⟨hl, ht⟩ := hh hj
      have hcount := List.count_eq_zero.mpr hl
      omega
    · exact h.holds j

/-- A thread goes on in the same part. -/
theorem Own.swap {pc' : Pc} (h : Own s (pc :: T)) (hjob : pc'.job = pc.job) (hw : pc'.waits = pc.waits)
    (hs : pc'.submits = pc.submits) (hh : pc'.holds = pc.holds)
    (hk : pc'.Local (s.job pc.job).notiType) : Own s (pc' :: T) := by
  have htally : ∀ {f : Pc → Bool}, f pc' = f pc → ∀ j, tally f (pc' :: T) j = tally f (pc :: T) j := by
    intro f hf j
    rw [tally_cons, tally_cons, hf, hjob]
  have hok := h.pcs pc List.mem_cons_self
  refine ⟨h.list, ?_, ?_, ?_, ?_⟩
  · intro pc'' hpc
    rcases List.mem_cons.mp hpc with rfl | hpc
    · exact ⟨hjob ▸ hok.live, hjob ▸ hok.submitted, hjob ▸ hk⟩
    · exact h.pcs pc'' (List.mem_cons_of_mem pc hpc)
  · intro j
    rw [htally hw]
    exact h.waits j
  · intro j
    rw [htally hs]
    exact h.submits j
  · intro j
    rw [htally hh]
    exact h.holds j

/-! ### Writes -/

/-- What `Own` reads of a job. -/
structure SameJob (b c : Job) : Prop where
  handle : c.handle = b.handle
  submitted : c.submitted = b.submitted
  notiType : c.notiType = b.notiType
  count : c.waitForDoneCount = b.waitForDoneCount

theorem live_congr (hj : s.Live j) (hh : t.handles = s.handles)
    (hjob : (t.job j).handle = (s.job j).handle) : t.Live j := by
  unfold OsiList.Live
  rw [hh, hjob]
  exact hj

theorem PcOk.congr (h : PcOk s pc) (hh : t.handles = s.handles)
    (hj : SameJob (s.job pc.job) (t.job pc.job)) : PcOk t pc := by
  refine ⟨live_congr h.live hh hj.handle, hj.submitted.trans h.submitted, ?_⟩
  rw [hj.notiType]
  exact h.know

theorem Own.congr (h : Own s T) (hh : t.handles = s.handles) (hl : t.list = s.list)
    (hj : ∀ k, SameJob (s.job k) (t.job k)) : Own t T := by
  refine ⟨?_, fun pc hpc => (h.pcs pc hpc).congr hh (hj pc.job), ?_, h.submits, ?_⟩
  · intro k hk
    rw [hl] at hk
    rw [(hj k).notiType]
    exact ⟨live_congr (h.list k hk).1 hh (hj k).handle, (h.list k hk).2⟩
  · intro k
    rw [(hj k).count]
    exact h.waits k
  · rw [hl]
    exact h.holds

/-- Only the notification of one job changes. -/
theorem Own.setNotiType (h : Own s T) (hl : j ∈ s.list → m ≠ .butt)
    (hT : ∀ pc ∈ T, pc.job = j → pc.Local m) : Own (s.setNotiType j m) T := by
  have hf := setNotiType_frame s j m
  have hself : ((s.setNotiType j m).job j).notiType = m := by
    simp [OsiList.setNotiType, modJob]
  have hother : ∀ k, k ≠ j → (s.setNotiType j m).job k = s.job k :=
    fun k hk => Function.update_of_ne hk _ _
  have hcount : ∀ k, ((s.setNotiType j m).job k).waitForDoneCount = (s.job k).waitForDoneCount := by
    intro k
    rcases eq_or_ne k j with rfl | hk
    · simp [OsiList.setNotiType, modJob]
    · rw [hother k hk]
  have hlive : ∀ k, s.Live k → (s.setNotiType j m).Live k := fun k hk => live_congr hk rfl (hf.job k).2.1
  refine ⟨?_, ?_, fun k => (congrArg BitVec.toNat (hcount k)).trans (h.waits k), h.submits, h.holds⟩
  · intro k hk
    obtain ⟨hkl, hkm⟩ := h.list k hk
    refine ⟨hlive k hkl, ?_⟩
    rcases eq_or_ne k j with rfl | hkj
    · rw [hself]
      exact hl hk
    · rw [hother k hkj]
      exact hkm
  · intro pc hpc
    have hok := h.pcs pc hpc
    refine ⟨hlive _ hok.live, (hf.job pc.job).2.2.trans hok.submitted, ?_⟩
    rcases eq_or_ne pc.job j with hj | hj
    · rw [hj, hself]
      exact hT pc hpc hj
    · rw [hother _ hj]
      exact hok.know

theorem setCount_sameJob (s : OsiList) (j : Nat) (c : BitVec 8) (k : Nat) :
    ((s.setCount j c).job k).handle = (s.job k).handle ∧ ((s.setCount j c).job k).submitted = (s.job k).submitted ∧
      ((s.setCount j c).job k).notiType = (s.job k).notiType := by
  rcases eq_or_ne k j with rfl | hk
  · simp [OsiList.setCount, modJob]
  · simp [OsiList.setCount, modJob, hk]

theorem setCount_count (s : OsiList) (j : Nat) (c : BitVec 8) (k : Nat) :
    ((s.setCount j c).job k).waitForDoneCount = if k = j then c else (s.job k).waitForDoneCount := by
  rcases eq_or_ne k j with rfl | hk
  · simp [OsiList.setCount, modJob]
  · simp [OsiList.setCount, modJob, hk]

/-- The count of one job changes with its waiting threads. -/
theorem Own.setCount (h : Own s T) {c : BitVec 8} (hpcs : ∀ pc ∈ T', PcOk s pc)
    (hc : c.toNat = tally Pc.waits T' j) (hw : ∀ k, k ≠ j → tally Pc.waits T' k = tally Pc.waits T k)
    (hs : ∀ k, tally Pc.submits T' k ≤ tally Pc.submits T k)
    (hh : ∀ k, tally Pc.holds T' k ≤ tally Pc.holds T k) : Own (s.setCount j c) T' := by
  have hjob := setCount_sameJob s j c
  have hlive : ∀ k, s.Live k → (s.setCount j c).Live k := fun k hk => live_congr hk rfl (hjob k).1
  refine ⟨?_, ?_, ?_, fun k => Nat.le_trans (hs k) (h.submits k), fun k => ?_⟩
  · intro k hk
    rw [(hjob k).2.2]
    exact ⟨hlive k (h.list k hk).1, (h.list k hk).2⟩
  · intro pc hpc
    have hok := hpcs pc hpc
    refine ⟨hlive _ hok.live, (hjob _).2.1.trans hok.submitted, ?_⟩
    rw [(hjob _).2.2]
    exact hok.know
  · intro k
    rw [setCount_count]
    split
    · rename_i hk
      rw [hk]
      exact hc
    · rename_i hk
      rw [hw k hk]
      exact h.waits k
  · have hk := h.holds k
    have hk' := hh k
    show s.list.count k + tally Pc.holds T' k ≤ 1
    omega

/-- A job that nobody has is freed. -/
theorem Own.release (h : Own s T) (hj : s.Live j) (hl : j ∉ s.list) (hT : ∀ pc ∈ T, pc.job ≠ j) :
    Own (s.releaseHandle (s.job j).handle) T := by
  have hlive : ∀ k, k ≠ j → s.Live k → (s.releaseHandle (s.job j).handle).Live k := by
    intro k hk hkl
    have hne : (s.job k).handle ≠ (s.job j).handle := by
      intro heq
      unfold OsiList.Live at hkl hj
      rw [heq, hj] at hkl
      exact hk (Option.some.inj hkl).symm
    exact (Function.update_of_ne hne _ _).trans hkl
  refine ⟨?_, ?_, h.waits, h.submits, h.holds⟩
  · intro k hk
    refine ⟨hlive k ?_ (h.list k hk).1, (h.list k hk).2⟩
    rintro rfl
    exact hl hk
  · intro pc hpc
    have hok := h.pcs pc hpc
    exact ⟨hlive _ (hT pc hpc) hok.live, hok.submitted, hok.know⟩

/-- A shorter list. -/
theorem Own.shorten (h : Own s T) {rest : List Nat} (hsub : rest.Sublist s.list) :
    Own { s with list := rest } T := by
  refine ⟨fun k hk => h.list k (hsub.subset hk), fun pc hpc => (h.pcs pc hpc).congr rfl ⟨rfl, rfl, rfl, rfl⟩,
    h.waits, h.submits, ?_⟩
  intro k
  have hk := h.holds k
  have hcount : rest.count k ≤ s.list.count k := hsub.count_le k
  show rest.count k + _ ≤ 1
  omega

/-! ### Dead jobs -/

theorem Frame.dead (hf : Frame s t) (hk : s.Dead k) : t.Dead k := by
  refine ⟨hf.brk ▸ hk.1, fun hlive => hk.2 ?_⟩
  unfold OsiList.Live at hlive ⊢
  rw [(hf.job k).2.1] at hlive
  exact hf.handles _ k hlive

theorem dead_congr (hk : s.Dead k) (hbrk : t.brk = s.brk) (hh : t.handles = s.handles)
    (hj : ∀ k, (t.job k).handle = (s.job k).handle) : t.Dead k :=
  ⟨hbrk ▸ hk.1, fun hlive => hk.2 (live_congr hlive hh.symm (hj k).symm)⟩

theorem Base.lt_of_live (hb : Base s q) (hj : s.Live j) : j < s.brk := (hb.handles _ _ hj).1

theorem not_dead (hj : s.Live j) : ¬ s.Dead j := fun hd => hd.2 hj

theorem Frame.uses (hf : Frame s t) {l : List Nat} (hl : ∀ k ∈ l, s.Live k) :
    Within OsiList.Dead s (l.map .access) t :=
  Within.uses (fun k hk => not_dead (hl k hk)) (fun _ hk => hf.dead hk)

theorem destroyJob_live (hj : s.Live j) :
    s.destroyJob j = (s.releaseHandle (s.job j).handle, [.access j, .free j]) := by
  unfold destroyJob
  rw [hj]

/-- **`TdeOsiListDestroyJob` of a job that nobody has.** -/
theorem destroyJob_own (hb : Base s q) (h : Own s T) (hj : s.Live j) (hl : j ∉ s.list)
    (hT : ∀ pc ∈ T, pc.job ≠ j) :
    Own (s.destroyJob j).1 T ∧ Within OsiList.Dead s (s.destroyJob j).2 (s.destroyJob j).1 := by
  have hf := destroyJob_frame s j
  rw [destroyJob_live hj] at hf ⊢
  refine ⟨h.release hj hl hT, Within.access_free (not_dead hj) ⟨hb.lt_of_live hj, ?_⟩ (fun _ hk => hf.dead hk)⟩
  intro hlive
  have hnone : (s.releaseHandle (s.job j).handle).handles (s.job j).handle = none :=
    Function.update_self _ _ _
  exact Option.some_ne_none j (hlive.symm.trans hnone)

/-- **`TdeOsiListSafeDestroyJob` of a job that is out of the list.** -/
theorem safeDestroyJob_own (hb : Base s q) (h : Own s T) (hj : s.Live j) (hl : j ∉ s.list)
    (hm : (s.job j).notiType = .compl) (hh : tally Pc.holds T j = 0) (hq : quiet s T [j] = true) :
    Own (s.safeDestroyJob j).1 T ∧ Within OsiList.Dead s (s.safeDestroyJob j).2 (s.safeDestroyJob j).1 := by
  -- the submitter is not there any more: it would have seen another notification
  have hblocks : ∀ pc ∈ T, pc.blocks = true → pc.job ≠ j := by
    rintro pc hpc hk rfl
    have hknow := (h.pcs pc hpc).know
    rw [hm] at hknow
    cases pc with
    | submitWait _ _ => exact hknow rfl
    | submitWoken _ _ _ => exact hknow rfl
    | _ => cases hk
  unfold safeDestroyJob
  split
  · refine ⟨h.setNotiType (fun hmem => absurd hmem hl) ?_, ?_⟩
    · intro pc hpc hpj
      refine Pc.local_butt (h.pcs pc hpc).know (Bool.eq_false_iff.mpr (fun hk => ?_))
      exact tally_eq_zero.mp hh pc hpc hk hpj
    · exact Within.access (not_dead hj) (fun _ hk => (setNotiType_frame s j .butt).dead hk)
  · rename_i hcount
    rw [not_not] at hcount
    have hw : tally Pc.waits T j = 0 := by
      rw [← h.waits j, hcount]
      rfl
    have htraces : ∀ pc ∈ T, pc.traces = true → pc.job ≠ j := by
      simp only [quiet, List.all_cons, List.all_nil, Bool.and_true, hm, hcount, and_self, decide_true,
        Bool.not_true, Bool.false_or] at hq
      exact noneAt_iff.mp hq
    exact destroyJob_own hb h hj hl (no_thread hw hblocks hh htraces)

end HiSTB.Tde
