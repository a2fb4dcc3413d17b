import HiSTB.Alsa.Dma

/-!
# `Alsa.Correctness.Command` — the timer follows the last trigger

A trigger that arrives while the work item is pending only overwrites the command, so the last command decides. Once it
is carried out the timer is to run, with the flag that keeps it running, or the timer and the track are to be stopped.

* `Inv` — holds in every run, with it everything about a stop;
* `Calm` — no step that leaves a start half done: a failing start of the track while the flag is down, a failing first
  period, a prepare of a running stream;
* `run_inStep_iff` — a run is in step all along exactly when it is calm.
-/

namespace HiSTB.Alsa

open Lib

variable {ret : Ret} {i : Input} {is : List Input}

/-! ## What was last said -/

/-- The command after one more event. -/
def Event.command? (c : Cmd) : Event → Cmd
  | .command c' => c'
  | _ => c

/-- The command that the last trigger left. -/
def lastCommand (es : List Event) : Cmd := es.foldl Event.command? .none

/-- The track was told to stop after its last start. -/
def StoppedLast (es : List Event) : Prop :=
  ∃ before after, es = before ++ Event.stopped :: after ∧ Event.started ∉ after

/-- Neither the trigger nor the work item shows any of these. -/
def Event.Quiet : Event → Prop
  | .prepared | .sent _ | .discarded _ => True
  | .command _ | .started | .stopped => False

/-- No work is pending, and none is being carried out. -/
def Settled (s : HiaudioData) : Prop := s.task = .idle ∧ s.work = false
deriving Decidable

variable {d : Device} {s t : HiaudioData} {es fs : List Event}

theorem lastCommand_append (es fs : List Event) :
    lastCommand (es ++ fs) = fs.foldl Event.command? (lastCommand es) :=
  List.foldl_append

/-- Quiet events leave the last command. -/
theorem lastCommand_quiet (h : ∀ e ∈ fs, e.Quiet) : lastCommand (es ++ fs) = lastCommand es := by
  rw [lastCommand_append]
  generalize lastCommand es = c
  induction fs with
  | nil => rfl
  | cons e fs ih =>
    have he : Event.command? c e = c := by
      have hquiet := h e List.mem_cons_self
      cases e with
      | prepared | started | stopped | sent | discarded => rfl
      | command => exact hquiet.elim
    rw [List.foldl_cons, he]
    exact ih (fun e' he' => h e' (List.mem_cons_of_mem _ he'))

theorem StoppedLast.append (h : StoppedLast es) (hfs : Event.started ∉ fs) : StoppedLast (es ++ fs) := by
  obtain ⟨before, after, rfl, hafter⟩ := h
  refine ⟨before, after ++ fs, by simp, ?_⟩
  rw [List.mem_append]
  exact not_or.mpr ⟨hafter, hfs⟩

theorem started_notMem_of_quiet (h : ∀ e ∈ fs, e.Quiet) : Event.started ∉ fs := fun hmem => (h _ hmem).elim

/-! ## Every run -/

/-- What the work item stands at comes from the last command, unless a newer one is pending; and a settled stop is
    complete. -/
structure Inv (es : List Event) (s : HiaudioData) : Prop where
  command : s.u32Cmd = lastCommand es
  starting : s.task = .trackStart ∨ s.task = .trackFlush ∨ s.task = .sendData → s.work = false → s.u32Cmd = .start
  stopping : s.task = .timerDestory ∨ s.task = .trackStop → s.work = false → s.u32Cmd = .stop
  destroyed : s.task = .trackStop → s.hrt = false
  halted : Settled s → s.u32Cmd = .stop → s.hrt = false ∧ StoppedLast es

/-- The command, the work item and the timer are as before. -/
structure SameControl (s t : HiaudioData) : Prop where
  cmd : t.u32Cmd = s.u32Cmd
  work : t.work = s.work
  task : t.task = s.task
  hrt : t.hrt = s.hrt

theorem Inv.hiDmaOpen : Inv [] hiDmaOpen := by
  constructor
  · rfl
  · simp [Alsa.hiDmaOpen]
  · simp [Alsa.hiDmaOpen]
  · simp [Alsa.hiDmaOpen]
  · simp [Alsa.hiDmaOpen]

/-- What shows no command and changes no control keeps the invariant. -/
theorem Inv.quiet (h : Inv es s) (hst : SameControl s t) (hfs : ∀ e ∈ fs, e.Quiet) : Inv (es ++ fs) t := by
  constructor
  · rw [hst.cmd, lastCommand_quiet hfs]
    exact h.command
  · rw [hst.cmd, hst.work, hst.task]
    exact h.starting
  · rw [hst.cmd, hst.work, hst.task]
    exact h.stopping
  · rw [hst.task, hst.hrt]
    exact h.destroyed
  · rw [Settled, hst.cmd, hst.work, hst.task, hst.hrt]
    intro hsettled hstop
    obtain ⟨hhrt, hlast⟩ := h.halted hsettled hstop
    exact ⟨hhrt, hlast.append (started_notMem_of_quiet hfs)⟩

/-- A new command makes the work item pending. -/
theorem Inv.command_pending (h : Inv es s) {c : Cmd} (hcmd : t.u32Cmd = c) (hwork : t.work = true)
    (htask : t.task = s.task) (hhrt : t.hrt = s.hrt) : Inv (es ++ [.command c]) t := by
  constructor
  · rw [hcmd, lastCommand_append]
    rfl
  · simp [hwork]
  · simp [hwork]
  · rw [htask, hhrt]
    exact h.destroyed
  · simp [Settled, hwork]

theorem Inv.hiDmaPrepare (h : Inv es s) : Inv (es ++ (hiDmaPrepare s).2) (hiDmaPrepare s).1 := by
  apply h.quiet
  · exact ⟨rfl, rfl, rfl, rfl⟩
  · intro e he
    obtain rfl := List.mem_singleton.mp he
    exact trivial

theorem Inv.hiDmaTrigger (h : Inv es s) (cmd : Trigger) :
    Inv (es ++ (hiDmaTrigger s cmd).2) (hiDmaTrigger s cmd).1 := by
  cases cmd with
  | start | pauseRelease | resume => exact h.command_pending rfl rfl rfl rfl
  | stop | pausePush | suspend => exact h.command_pending rfl rfl rfl rfl
  | other =>
    show Inv (es ++ []) s
    rw [List.append_nil]
    exact h

/-- Sending a period touches only the counters. -/
theorem sendPeroid_control (d : Device) (s : HiaudioData) (ret : Ret) :
    SameControl s (sendPeroid d s ret).1 ∧ (sendPeroid d s ret).1.atmTrackState = s.atmTrackState ∧
      ∀ e ∈ (sendPeroid d s ret).2, e.Quiet := by
  unfold sendPeroid
  dsimp only
  split
  · refine ⟨⟨rfl, rfl, rfl, rfl⟩, rfl, ?_⟩
    simp [Event.Quiet]
  · split
    · refine ⟨⟨rfl, rfl, rfl, rfl⟩, rfl, ?_⟩
      simp [Event.Quiet]
    · refine ⟨⟨rfl, rfl, rfl, rfl⟩, rfl, ?_⟩
      simp

theorem Inv.sndPeroidCallback (h : Inv es s) (xrun : Bool) (ret : Ret) :
    Inv (es ++ (sndPeroidCallback d s xrun ret).2) (sndPeroidCallback d s xrun ret).1 := by
  unfold Alsa.sndPeroidCallback
  split
  · rw [List.append_nil]
    constructor
    · exact h.command
    · exact h.starting
    · exact h.stopping
    · exact fun _ => rfl
    · intro hsettled hstop
      exact ⟨rfl, (h.halted hsettled hstop).2⟩
  · dsimp only
    rw [← List.append_assoc]
    obtain ⟨hcontrol, -, hquiet⟩ := sendPeroid_control d (if xrun then Alsa.hiDmaTrigger s .stop else (s, [])).1 ret
    refine Inv.quiet ?_ hcontrol hquiet
    split
    · exact h.hiDmaTrigger .stop
    · rw [List.append_nil]
      exact h

theorem Inv.cmdIoTask (h : Inv es s) (htask : s.task = .idle) : Inv (es ++ (cmdIoTask d s).2) (cmdIoTask d s).1 := by
  unfold Alsa.cmdIoTask
  rw [if_neg d.opened]
  cases hcmd : s.u32Cmd with
  | none =>
    rw [List.append_nil]
    constructor
    · exact hcmd.symm.trans h.command
    · simp [htask]
    · simp [htask]
    · simp [htask]
    · simp
  | start =>
    rw [List.append_nil]
    constructor
    · exact hcmd.symm.trans h.command
    · exact fun _ _ => rfl
    · simp
    · simp
    · simp [Settled]
  | stop =>
    rw [List.append_nil]
    constructor
    · exact hcmd.symm.trans h.command
    · simp
    · exact fun _ _ => rfl
    · simp
    · simp [Settled]

/-- The start of the track is over, and the work item with it or not. -/
theorem Inv.starting_over (h : Inv es s) (hs : s.work = false → s.u32Cmd = .start) (hcmd : t.u32Cmd = s.u32Cmd)
    (hwork : t.work = s.work) (htask : t.task = .trackFlush ∨ t.task = .sendData ∨ t.task = .idle)
    (hlast : lastCommand (es ++ fs) = lastCommand es) : Inv (es ++ fs) t := by
  constructor
  · rw [hcmd, hlast]
    exact h.command
  · rw [hcmd, hwork]
    exact fun _ => hs
  · rcases htask with htask | htask | htask <;> simp [htask]
  · rcases htask with htask | htask | htask <;> simp [htask]
  · rintro ⟨_, hidle⟩ hstop
    rw [hwork] at hidle
    rw [hcmd, hs hidle] at hstop
    cases hstop

theorem Inv.trackStart (h : Inv es s) (htask : s.task = .trackStart) (ret : Ret) :
    Inv (es ++ (trackStart s ret).2) (trackStart s ret).1 := by
  have hs := h.starting (Or.inl htask)
  unfold Alsa.trackStart
  split
  · exact h.starting_over hs rfl rfl (Or.inr (Or.inr rfl)) (lastCommand_append _ _)
  · exact h.starting_over hs rfl rfl (Or.inl rfl) (lastCommand_append _ _)

theorem Inv.sendData (h : Inv es s) (htask : s.task = .sendData) (ret : Ret) :
    Inv (es ++ (sendData d s ret).2) (sendData d s ret).1 := by
  have hs := h.starting (Or.inr (Or.inr htask))
  cases ret with
  | success | outBufFull | failed => exact h.starting_over hs rfl rfl (Or.inr (Or.inr rfl)) (lastCommand_append _ _)

theorem Inv.cmdIoTaskNext (h : Inv es s) (hnext : cmdIoTaskNext d s ret = some (t, fs)) :
    Inv (es ++ fs) t := by
  unfold Alsa.cmdIoTaskNext at hnext
  cases htask : s.task with
  | idle =>
    rw [htask] at hnext
    cases hnext
  | trackStart =>
    rw [htask] at hnext
    obtain ⟨rfl, rfl⟩ := Prod.mk.inj (Option.some.inj hnext)
    exact h.trackStart htask ret
  | trackFlush =>
    rw [htask] at hnext
    cases hnext
    exact h.starting_over (h.starting (Or.inr (Or.inl htask))) rfl rfl (Or.inr (Or.inl rfl)) (lastCommand_append _ _)
  | sendData =>
    rw [htask] at hnext
    obtain ⟨rfl, rfl⟩ := Prod.mk.inj (Option.some.inj hnext)
    exact h.sendData htask ret
  | timerDestory =>
    rw [htask] at hnext
    cases hnext
    rw [List.append_nil]
    constructor
    · exact h.command
    · simp
    · exact fun _ => h.stopping (Or.inl htask)
    · exact fun _ => rfl
    · simp [Settled]
  | trackStop =>
    rw [htask] at hnext
    cases hnext
    constructor
    · rw [lastCommand_append]
      exact h.command
    · simp
    · simp
    · simp
    · exact fun _ _ => ⟨h.destroyed htask, es, [], rfl, List.not_mem_nil⟩

theorem Inv.step (h : Inv es s) (hnext : step d s i = some (t, fs)) : Inv (es ++ fs) t := by
  cases i with
  | prepare =>
    cases hnext
    exact h.hiDmaPrepare
  | trigger cmd =>
    obtain ⟨rfl, rfl⟩ := Prod.mk.inj (Option.some.inj hnext)
    exact h.hiDmaTrigger cmd
  | timer xrun ret =>
    unfold Alsa.step at hnext
    dsimp only at hnext
    split at hnext
    · obtain ⟨rfl, rfl⟩ := Prod.mk.inj (Option.some.inj hnext)
      exact h.sndPeroidCallback xrun ret
    · cases hnext
  | work =>
    unfold Alsa.step at hnext
    dsimp only at hnext
    split at hnext
    · rename_i hwork
      obtain ⟨rfl, rfl⟩ := Prod.mk.inj (Option.some.inj hnext)
      exact h.cmdIoTask hwork.2
    · cases hnext
  | call ret => exact h.cmdIoTaskNext hnext

/-- The invariant holds all along, whether or not a start is finished. -/
theorem run_inv {C : HiaudioData → Input → Prop}
    (h : Run (step d) C hiDmaOpen is s es) : Inv es s :=
  h.inv_effects (fun _ s es => Inv es s) Inv.hiDmaOpen (fun _ _ _ _ _ _ hinv _ hnext => hinv.step hnext)

/-! ## Runs that finish what they start -/

/-- The timer runs and keeps running: at every expiry the period at the pointer is sent or discarded, or the pointer
    stays for the next try. -/
structure Plays (d : Device) (s : HiaudioData) : Prop where
  armed : s.hrt = true
  enabled : s.atmTrackState = true
  expiry : ∀ xrun ret t fs, step d s (.timer xrun ret) = some (t, fs) → t.hrt = true ∧
    (Event.sent (d.offset s.u32HwPointer) ∈ fs ∨ Event.discarded (d.offset s.u32HwPointer) ∈ fs ∨
      t.u32HwPointer = s.u32HwPointer)

/-- Once no work is pending, the timer and the track follow the last trigger. -/
structure InStep (d : Device) (es : List Event) (s : HiaudioData) : Prop where
  start : Settled s → lastCommand es = .start → Plays d s
  stop : Settled s → lastCommand es = .stop → s.hrt = false ∧ StoppedLast es

/-- No prepare of a stream that is running; and where the last command is being carried out, no failing start of the
    track unless the flag is up already, and no error for the first period, a full buffer apart, unless the timer runs
    already. -/
def Calm (s : HiaudioData) : Input → Prop
  | .prepare => ¬ (Settled s ∧ s.u32Cmd = .start)
  | .call ret =>
    (s.task = .trackStart → ret = .success ∨ s.work = true ∨ s.atmTrackState = true) ∧
    (s.task = .sendData → ret ≠ .failed ∨ s.work = true ∨ s.atmTrackState = true ∧ s.hrt = true)
  | _ => True

/-- A settled start has the timer armed and the flag up. -/
def Armed (s : HiaudioData) : Prop := Settled s → s.u32Cmd = .start → s.hrt = true ∧ s.atmTrackState = true

/-- A period is sent or thrown away, or the pointer stays. -/
theorem sendPeroid_pointer (d : Device) (s : HiaudioData) (ret : Ret) :
    Event.sent (d.offset s.u32HwPointer) ∈ (sendPeroid d s ret).2 ∨
      Event.discarded (d.offset s.u32HwPointer) ∈ (sendPeroid d s ret).2 ∨
      (sendPeroid d s ret).1.u32HwPointer = s.u32HwPointer := by
  unfold sendPeroid
  dsimp only
  split
  · exact Or.inr (Or.inl (List.mem_singleton.mpr rfl))
  · split
    · exact Or.inl (List.mem_singleton.mpr rfl)
    · exact Or.inr (Or.inr rfl)

/-- While the flag is up, an expiry keeps the timer armed and deals with the period at the pointer. -/
theorem sndPeroidCallback_up (hup : s.atmTrackState = true) (xrun : Bool) (ret : Ret) :
    (sndPeroidCallback d s xrun ret).1.hrt = s.hrt ∧
      (Event.sent (d.offset s.u32HwPointer) ∈ (sndPeroidCallback d s xrun ret).2 ∨
        Event.discarded (d.offset s.u32HwPointer) ∈ (sndPeroidCallback d s xrun ret).2 ∨
        (sndPeroidCallback d s xrun ret).1.u32HwPointer = s.u32HwPointer) := by
  unfold sndPeroidCallback
  rw [if_neg (by simp [hup])]
  cases xrun with
  | false =>
    have hcontrol := (sendPeroid_control d s ret).1
    exact ⟨hcontrol.hrt, sendPeroid_pointer d s ret⟩
  | true =>
    have hcontrol := (sendPeroid_control d (hiDmaTrigger s .stop).1 ret).1
    refine ⟨hcontrol.hrt, ?_⟩
    have hpointer := sendPeroid_pointer d (hiDmaTrigger s .stop).1 ret
    exact hpointer.imp (List.mem_append_right _) (Or.imp_left (List.mem_append_right _))

/-- With the timer armed and the flag up the stream plays. -/
theorem Plays.of_armed (hhrt : s.hrt = true) (hup : s.atmTrackState = true) : Plays d s := by
  constructor
  · exact hhrt
  · exact hup
  · intro xrun ret t fs hnext
    unfold step at hnext
    dsimp only at hnext
    rw [if_pos hhrt] at hnext
    obtain ⟨rfl, rfl⟩ := Prod.mk.inj (Option.some.inj hnext)
    obtain ⟨hkeeps, hpointer⟩ := sndPeroidCallback_up (d := d) hup xrun ret
    exact ⟨hkeeps.trans hhrt, hpointer⟩

theorem Armed.sndPeroidCallback (h : Armed s) (xrun : Bool) (ret : Ret) :
    Armed (sndPeroidCallback d s xrun ret).1 := by
  unfold Alsa.sndPeroidCallback
  split
  · rename_i hdown
    intro hsettled hstart
    have hup := (h hsettled hstart).2
    rw [hdown] at hup
    cases hup
  · cases xrun with
    | false =>
      obtain ⟨hcontrol, hflag, -⟩ := sendPeroid_control d s ret
      show Armed (sendPeroid d s ret).1
      rw [Armed, Settled, hcontrol.cmd, hcontrol.work, hcontrol.task, hcontrol.hrt, hflag]
      exact h
    | true =>
      have hcontrol := (sendPeroid_control d (hiDmaTrigger s .stop).1 ret).1
      rintro ⟨_, hwork⟩
      have hpending : _ = true := hcontrol.work
      cases hwork.symm.trans hpending

theorem Armed.trackStart (hC : ret = .success ∨ s.work = true ∨ s.atmTrackState = true) :
    Armed (trackStart s ret).1 := by
  unfold Alsa.trackStart
  split
  · rename_i hret
    rintro ⟨_, hwork⟩ _
    rcases hC with hok | hpending | hup
    · exact absurd hok hret
    · cases hpending.symm.trans hwork
    · exact ⟨rfl, hup⟩
  · rintro ⟨hidle, _⟩
    cases hidle

theorem Armed.sendData
    (hC : ret ≠ .failed ∨ s.work = true ∨ s.atmTrackState = true ∧ s.hrt = true) : Armed (sendData d s ret).1 := by
  rintro ⟨_, hwork⟩ _
  cases ret with
  | success | outBufFull => exact ⟨rfl, rfl⟩
  | failed =>
    rcases hC with hok | hpending | ⟨hup, hhrt⟩
    · exact absurd rfl hok
    · cases hpending.symm.trans hwork
    · exact ⟨hhrt, hup⟩

theorem Armed.cmdIoTaskNext (hinv : Inv es s) (hC : Calm s (.call ret))
    (hnext : cmdIoTaskNext d s ret = some (t, fs)) : Armed t := by
  unfold Alsa.cmdIoTaskNext at hnext
  cases htask : s.task with
  | idle =>
    rw [htask] at hnext
    cases hnext
  | trackStart =>
    rw [htask] at hnext
    obtain ⟨rfl, rfl⟩ := Prod.mk.inj (Option.some.inj hnext)
    exact Armed.trackStart (hC.1 htask)
  | trackFlush | timerDestory =>
    rw [htask] at hnext
    cases hnext
    rintro ⟨hidle, _⟩
    cases hidle
  | sendData =>
    rw [htask] at hnext
    obtain ⟨rfl, rfl⟩ := Prod.mk.inj (Option.some.inj hnext)
    exact Armed.sendData (hC.2 htask)
  | trackStop =>
    rw [htask] at hnext
    cases hnext
    rintro ⟨_, hwork⟩ hstart
    have hstop := hinv.stopping (Or.inr htask) hwork
    exact absurd (hstart.symm.trans hstop) (by simp)

theorem Armed.step (h : Armed s) (hinv : Inv es s) (hC : Calm s i) (hnext : step d s i = some (t, fs)) :
    Armed t := by
  cases i with
  | prepare =>
    cases hnext
    exact fun hsettled hstart => absurd ⟨hsettled, hstart⟩ hC
  | trigger cmd =>
    obtain ⟨rfl, rfl⟩ := Prod.mk.inj (Option.some.inj hnext)
    cases cmd with
    | other => exact h
    | start | stop | pausePush | pauseRelease | suspend | resume =>
      rintro ⟨_, hwork⟩
      cases hwork
  | timer xrun ret =>
    unfold Alsa.step at hnext
    dsimp only at hnext
    split at hnext
    · obtain ⟨rfl, rfl⟩ := Prod.mk.inj (Option.some.inj hnext)
      exact h.sndPeroidCallback xrun ret
    · cases hnext
  | work =>
    unfold Alsa.step Alsa.cmdIoTask at hnext
    dsimp only at hnext
    rw [if_neg d.opened] at hnext
    split at hnext
    · cases hcmd : s.u32Cmd with
      | none =>
        rw [hcmd] at hnext
        cases hnext
        intro _ hstart
        cases hstart
      | start | stop =>
        rw [hcmd] at hnext
        cases hnext
        rintro ⟨hidle, _⟩
        cases hidle
    · cases hnext
  | call ret => exact Armed.cmdIoTaskNext hinv hC hnext

/-- A calm run leaves a started stream armed. -/
theorem run_armed (h : Run (step d) Calm hiDmaOpen is s es) : Inv es s ∧ Armed s := by
  refine h.inv_effects (fun _ s es => Inv es s ∧ Armed s) ⟨Inv.hiDmaOpen, ?_⟩ ?_
  · intro _ hstart
    cases hstart
  · rintro _ _ _ _ _ _ ⟨hinv, harmed⟩ hC hnext
    exact ⟨hinv.step hnext, harmed.step hinv hC hnext⟩

/-- A step that is not calm leaves a start settled with the timer dead. -/
theorem dead_of_not_calm (hinv : Inv es s) (hC : ¬ Calm s i) (hnext : step d s i = some (t, fs)) :
    Settled t ∧ t.u32Cmd = .start ∧ ¬ (t.hrt = true ∧ t.atmTrackState = true) := by
  cases i with
  | prepare =>
    cases hnext
    obtain ⟨hsettled, hstart⟩ := not_not.mp hC
    refine ⟨hsettled, hstart, ?_⟩
    rintro ⟨_, hup⟩
    cases hup
  | trigger | timer | work => exact absurd trivial hC
  | call ret =>
    unfold Alsa.step Alsa.cmdIoTaskNext at hnext
    rcases not_and_or.mp hC with hfail | hfail
    · obtain ⟨htask, hfail⟩ := Classical.not_imp.mp hfail
      obtain ⟨hret, hfail⟩ := not_or.mp hfail
      obtain ⟨hwork, hup⟩ := not_or.mp hfail
      rw [htask] at hnext
      dsimp only at hnext
      rw [trackStart, if_pos hret] at hnext
      cases hnext
      have hidle : s.work = false := by simpa using hwork
      exact ⟨⟨rfl, hidle⟩, hinv.starting (Or.inl htask) hidle, fun h => hup h.2⟩
    · obtain ⟨htask, hfail⟩ := Classical.not_imp.mp hfail
      obtain ⟨hret, hfail⟩ := not_or.mp hfail
      obtain ⟨hwork, hdead⟩ := not_or.mp hfail
      obtain rfl := not_not.mp hret
      rw [htask] at hnext
      cases hnext
      have hidle : s.work = false := by simpa using hwork
      exact ⟨⟨rfl, hidle⟩, hinv.starting (Or.inr (Or.inr htask)) hidle, fun h => hdead ⟨h.2, h.1⟩⟩

/-- **Triggers, work item and timer, in any order and with any answers of the track.** A run is in step with its last
    trigger all along exactly when it is calm. -/
theorem run_inStep_iff {is : List Input} (h : Run (step d) always hiDmaOpen is s es) :
    (∀ js t fs, js <+: is → Run (step d) always hiDmaOpen js t fs → InStep d fs t) ↔
      Run (step d) Calm hiDmaOpen is s es := by
  refine Run.iff_along (P := fun _ s es => InStep d es s) ?_ ?_ h
  · intro js t fs hrun
    obtain ⟨hinv, harmed⟩ := run_armed hrun
    constructor
    · intro hsettled hstart
      obtain ⟨hhrt, hup⟩ := harmed hsettled (hinv.command.trans hstart)
      exact Plays.of_armed hhrt hup
    · intro hsettled hstop
      exact hinv.halted hsettled (hinv.command.trans hstop)
  · intro js s es i t fs hrun hC hnext hstep
    have hinv := run_inv hrun
    obtain ⟨hsettled, hstart, hdead⟩ := dead_of_not_calm hinv hC hnext
    have hplays := hstep.start hsettled ((hinv.step hnext).command.symm.trans hstart)
    exact hdead ⟨hplays.armed, hplays.enabled⟩

instance (s : HiaudioData) : (i : Input) → Decidable (Calm s i)
  | .prepare => inferInstanceAs (Decidable (¬ (_ ∧ _)))
  | .call _ => inferInstanceAs (Decidable ((_ → _ ∨ _ ∨ _) ∧ (_ → _ ∨ _ ∨ _ ∧ _)))
  | .trigger _ | .timer _ _ | .work => isTrue trivial

/-- Two periods, the second on the second try, and a stop found in the callback. -/
def playTwo : List Input :=
  [.prepare, .trigger .start, .work, .call .success, .call .failed, .call .success, .timer false .outBufFull,
    .timer false .success, .timer true .success, .work, .call .success, .call .failed]

/-- The run meets the condition, and keeps in step all along. -/
theorem run_inStep_play_two :
    ∃ s es, Run (step s16Stereo) always hiDmaOpen playTwo s es ∧
      ∀ js t fs, js <+: playTwo → Run (step s16Stereo) always hiDmaOpen js t fs → InStep s16Stereo fs t := by
  obtain ⟨s, es, hrun, -⟩ := exists_run_of_exec (step s16Stereo) Calm hiDmaOpen playTwo (fun _ => true) (by decide)
  have hany := hrun.mono (fun _ _ _ => trivial)
  exact ⟨s, es, hany, (run_inStep_iff hany).mpr hrun⟩

/-- The track refuses to start: the flag stays down, and the timer that was armed all the same disarms itself at its
    first expiry. -/
theorem start_refused :
    ∃ s es, Run (step s16Stereo) always hiDmaOpen [.prepare, .trigger .start, .work, .call .failed] s es ∧
      (step s16Stereo s (.timer false .success)).any (fun r => !r.1.hrt && r.2.isEmpty) = true ∧
      ¬ InStep s16Stereo es s := by
  refine exists_run_imp (fun s es => Settled s ∧ lastCommand es = .start ∧ s.atmTrackState = false ∧
    (step s16Stereo s (.timer false .success)).any (fun q => !q.1.hrt && q.2.isEmpty) = true)
    (by decide) fun _ _ _ htest => ?_
  obtain ⟨hsettled, hstart, hdown, hexpiry⟩ := htest
  refine ⟨hexpiry, ?_⟩
  intro hstep
  have hup := (hstep.start hsettled hstart).enabled
  rw [hdown] at hup
  cases hup

end HiSTB.Alsa
