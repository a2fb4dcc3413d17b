import HiSTB.Alsa.Substream
import HiSTB.Alsa.Correctness.Command

/-!
# `Alsa.Correctness.Substream` — what an open stream holds, and a closed one does not

* `Inv.opens`, `Inv.play`, `Inv.close` — what one step preserves, if nothing fails once the sound is open and the timer
  is off when the stream is closed;
* `run_holds_iff` — a run is right all along exactly when all its steps are of this kind.
-/

namespace HiSTB.Alsa.Substream

open Lib

variable {highRes : Bool} {s t : Stream} {d : Device} {c : OpenCalls}

variable {h h' : HiaudioData} {fs : List Event} {i : Alsa.Input} {es : List Seen}

/-! ## What is right -/

/-- A stream for which `hi_dma_open` returned 0 holds everything. One for which it did not, or that was closed, holds
    nothing, records nothing, and has no timer that could expire. -/
structure Right (s : Stream) : Prop where
  holds : s.isOpen = true → s.held.device = 1 ∧ s.held.sound = 1 ∧ s.held.track = 1 ∧ s.held.workq = 1
  free : s.isOpen = false → s.held.device = 0 ∧ s.held.sound = 0 ∧ s.held.track = 0 ∧ s.held.workq = 0
  reset : s.isOpen = false → s.u32TrackId = INITIAL_VALUE ∧ s.u32SndOpen = 0
  quiet : s.isOpen = false → s.had.hrt = false

/-- Once the sound is open nothing fails; and a stream is not closed while its last command is a start and the timer is
    armed. -/
def Calm (highRes : Bool) (s : Stream) : Input → Prop
  | .opens c =>
    c.setRuntimeHwparams ≠ 0 ∨ c.sndInit ≠ 0 ∨ c.sndGetDefaultOpenAttr ≠ 0 ∨ c.sndOpen ≠ 0 ∨
      c.trackGetDefaultOpenAttr = 0 ∧ c.trackCreate = 0 ∧ c.createWorkqueue = true ∧
        (highRes = true ∨ c.requestIrq = 0)
  | .play _ => True
  | .close _ _ => s.had.u32Cmd = .start → s.had.hrt = false

instance (s : Stream) (i : Input) : Decidable (Calm highRes s i) := by
  cases i with
  | opens c => exact inferInstanceAs (Decidable (_ ∨ _))
  | play i => exact isTrue trivial
  | close _ _ => exact inferInstanceAs (Decidable (_ → _))

/-! ## Between opening and closing -/

/-- Without a command so far, nothing runs. -/
def Unused (h : HiaudioData) : Prop := h.u32Cmd = .none → h.hrt = false ∧ h.task = .idle

theorem Unused.hiDmaOpen : Unused Alsa.hiDmaOpen := fun _ => ⟨rfl, rfl⟩

theorem u32Cmd_cmdIoTaskNext {ret : Ret}
    (hnext : cmdIoTaskNext d h ret = some (h', fs)) : h'.u32Cmd = h.u32Cmd := by
  unfold cmdIoTaskNext at hnext
  split at hnext
  · cases hnext
  · obtain rfl : (trackStart h ret).1 = h' := congrArg Prod.fst (Option.some.inj hnext)
    unfold trackStart
    split <;> rfl
  · cases hnext
    rfl
  · obtain rfl : (sendData d h ret).1 = h' := congrArg Prod.fst (Option.some.inj hnext)
    cases ret <;> rfl
  · cases hnext
    rfl
  · cases hnext
    rfl

/-- An expiry leaves the command, or leaves a stop. -/
theorem u32Cmd_sndPeroidCallback (d : Device) (h : HiaudioData) (xrun : Bool) (ret : Ret) :
    (sndPeroidCallback d h xrun ret).1.u32Cmd = h.u32Cmd ∨ (sndPeroidCallback d h xrun ret).1.u32Cmd = .stop := by
  unfold sndPeroidCallback
  split
  · exact .inl rfl
  · dsimp only
    rw [(sendPeroid_control d _ ret).1.cmd]
    cases xrun with
    | false => exact .inl rfl
    | true => exact .inr rfl

theorem Unused.step (hun : Unused h)
    (hnext : Alsa.step d h i = some (h', fs)) : Unused h' := by
  intro hcmd
  cases i with
  | prepare =>
    cases hnext
    exact hun hcmd
  | trigger cmd =>
    obtain ⟨rfl, -⟩ := Prod.mk.inj (Option.some.inj hnext)
    cases cmd with
    | other => exact hun hcmd
    | start | pauseRelease | resume => exact Cmd.noConfusion hcmd
    | stop | pausePush | suspend => exact Cmd.noConfusion hcmd
  | timer xrun ret =>
    rw [Alsa.step] at hnext
    split at hnext
    · rename_i hhrt
      obtain rfl : (sndPeroidCallback d h xrun ret).1 = h' := congrArg Prod.fst (Option.some.inj hnext)
      rcases u32Cmd_sndPeroidCallback d h xrun ret with hsame | hstop
      · rw [(hun (hsame.symm.trans hcmd)).1] at hhrt
        exact Bool.noConfusion hhrt
      · exact Cmd.noConfusion (hstop.symm.trans hcmd)
    · cases hnext
  | work =>
    rw [Alsa.step] at hnext
    split at hnext
    · obtain rfl : (cmdIoTask d h).1 = h' := congrArg Prod.fst (Option.some.inj hnext)
      revert hcmd
      unfold cmdIoTask
      rw [if_neg d.opened]
      cases hnone : h.u32Cmd with
      | none => exact fun _ => hun hnone
      | start => exact fun hcmd => Cmd.noConfusion (show Cmd.start = Cmd.none from hcmd)
      | stop => exact fun hcmd => Cmd.noConfusion (show Cmd.stop = Cmd.none from hcmd)
    · cases hnext
  | call ret =>
    rw [Alsa.step] at hnext
    have hidle := (hun ((u32Cmd_cmdIoTaskNext hnext).symm.trans hcmd)).2
    rw [cmdIoTaskNext, hidle] at hnext
    cases hnext

/-! ## What a run keeps -/

/-- Everything is recorded that is held. -/
structure Recorded (s : Stream) : Prop where
  holds : s.held.device = 1 ∧ s.held.sound = 1 ∧ s.held.track = 1 ∧ s.held.workq = 1
  sound : s.u32SndOpen = 1
  track : s.u32TrackId ≠ INITIAL_VALUE
  workq : s.workq = true
  played : ∃ es, Alsa.Inv es s.had
  unused : Unused s.had

/-- Nothing is recorded, and nothing is held. -/
structure Empty (s : Stream) : Prop where
  free : s.held.device = 0 ∧ s.held.sound = 0 ∧ s.held.track = 0 ∧ s.held.workq = 0
  sound : s.u32SndOpen = 0
  track : s.u32TrackId = INITIAL_VALUE
  workq : s.workq = false
  quiet : s.had.hrt = false

/-- An open stream has recorded what it holds, and a closed one is empty. -/
structure Inv (s : Stream) : Prop where
  opened : s.isOpen = true → Recorded s
  closed : s.isOpen = false → Empty s

theorem Inv.right (h : Inv s) : Right s where
  holds := fun hopen => (h.opened hopen).holds
  free := fun hclosed => (h.closed hclosed).free
  reset := fun hclosed => ⟨(h.closed hclosed).track, (h.closed hclosed).sound⟩
  quiet := fun hclosed => (h.closed hclosed).quiet

theorem Inv.init (d : Device) : Inv (.init d) where
  opened := fun h => Bool.noConfusion h
  closed := fun _ => ⟨⟨rfl, rfl, rfl, rfl⟩, rfl, rfl, rfl, rfl⟩

/-- **Opening** an empty stream without a late failure: it returns 0 with everything recorded, or an error with
    nothing. -/
theorem hiDmaOpen_spec (h : Empty s) (hC : Calm highRes s (.opens c)) :
    (hiDmaOpen highRes c s).2 = 0 ∧ Recorded (hiDmaOpen highRes c s).1 ∨
      (hiDmaOpen highRes c s).2 ≠ 0 ∧ Empty (hiDmaOpen highRes c s).1 := by
  obtain ⟨⟨hdev, hsnd, htrk, hwq⟩, -, -, hworkq, hquiet⟩ := id h
  unfold hiDmaOpen
  by_cases h1 : c.setRuntimeHwparams ≠ 0
  · rw [if_pos h1]
    exact .inr ⟨h1, h⟩
  · rw [if_neg h1]
    by_cases h2 : c.sndInit ≠ 0
    · rw [if_pos h2]
      exact .inr ⟨h2, ⟨hdev, hsnd, htrk, hwq⟩, rfl, rfl, hworkq, hquiet⟩
    · rw [if_neg h2]
      have hundo : (s.held.device + 1) - 1 = 0 := by omega
      by_cases h3 : c.sndGetDefaultOpenAttr ≠ 0
      · rw [if_pos h3]
        exact .inr ⟨h3, ⟨hundo, hsnd, htrk, hwq⟩, rfl, rfl, hworkq, hquiet⟩
      · rw [if_neg h3]
        by_cases h4 : c.sndOpen ≠ 0
        · rw [if_pos h4]
          exact .inr ⟨h4, ⟨hundo, hsnd, htrk, hwq⟩, rfl, rfl, hworkq, hquiet⟩
        · rw [if_neg h4]
          -- the sound is open: nothing fails any more
          obtain ⟨h5, h6, h7, h8⟩ := (((hC.resolve_left h1).resolve_left h2).resolve_left h3).resolve_left h4
          have hheld : s.held.device + 1 = 1 ∧ s.held.sound + 1 = 1 ∧ s.held.track + 1 = 1 ∧ s.held.workq + 1 = 1 := by
            omega
          have hunused : Unused { Alsa.hiDmaOpen with hrt := s.had.hrt } := fun _ => ⟨hquiet, rfl⟩
          have hinv : Alsa.Inv [] { Alsa.hiDmaOpen with hrt := s.had.hrt } := by
            rw [hquiet]
            exact Alsa.Inv.hiDmaOpen
          rw [if_neg (not_not.mpr h5), if_neg (not_not.mpr h6), if_neg (by rw [h7]; exact Bool.noConfusion)]
          cases highRes with
          | true =>
            exact .inl ⟨rfl, hheld, rfl, c.device.opened, rfl, ⟨[], Alsa.Inv.hiDmaOpen⟩, Unused.hiDmaOpen⟩
          | false =>
            have hnum : s.reset.u32IrqNum = INITIAL_VALUE := rfl
            rw [if_neg Bool.noConfusion, if_pos hnum, if_neg (not_not.mpr (h8.resolve_left Bool.noConfusion))]
            exact .inl ⟨rfl, hheld, rfl, c.device.opened, rfl, ⟨[], hinv⟩, hunused⟩

theorem closeTrack_eq (others : Bool) (hrec : s.u32TrackId ≠ INITIAL_VALUE) (htrk : s.held.track = 1) :
    closeTrack others s = { s with held := { s.held with track := 0 }, u32TrackId := INITIAL_VALUE } := by
  have hheld : s.held.track > 0 ∨ others = true := .inl (by omega)
  rw [closeTrack, if_pos hrec.symm, trackDestroy, if_pos hheld, htrk]
  rfl

theorem closeSound_eq (others : Bool) (hrec : s.u32SndOpen = 1) (hsnd : s.held.sound = 1) :
    closeSound others s = { s with held := { s.held with sound := 0 }, u32SndOpen := 0 } := by
  have hheld : s.held.sound > 0 ∨ others = true := .inl (by omega)
  rw [closeSound, if_pos (by rw [hrec]; decide), sndClose, if_pos hheld, hsnd, hrec]
  rfl

theorem freeIrq_eq (highRes : Bool) (s : Stream) :
    ∃ irq num, freeIrq highRes s = { s with held := { s.held with irq := irq }, u32IrqNum := num } := by
  unfold freeIrq
  split
  · exact ⟨_, _, rfl⟩
  · split
    · exact ⟨_, _, rfl⟩
    · exact ⟨_, _, rfl⟩

/-- **Closing** a stream that has recorded what it holds gives it all back, once. The timer is left as it is. -/
theorem hiDmaClose_spec (highRes : Bool) (h : Recorded s) (trackOthers soundOthers : Bool)
    (hquiet : s.had.hrt = false) :
    Empty (hiDmaClose highRes trackOthers soundOthers s) := by
  obtain ⟨⟨hdev, hsnd, htrk, hwq⟩, hsound, htrack, hworkq, -, -⟩ := h
  obtain ⟨irq, num, hfree⟩ := freeIrq_eq highRes s
  unfold hiDmaClose
  dsimp only
  rw [hfree, if_pos hworkq, closeTrack_eq, closeSound_eq]
  · refine ⟨⟨?_, rfl, rfl, ?_⟩, rfl, rfl, rfl, hquiet⟩
    · show s.held.device - 1 = 0
      omega
    · show s.held.workq - 1 = 0
      omega
  · exact hsound
  · exact hsnd
  · exact htrack
  · exact htrk

/-! ## Steps -/

theorem Inv.opens (h : Inv s) (hclosed : s.isOpen = false) (hC : Calm highRes s (.opens c)) :
    Inv { (hiDmaOpen highRes c s).1 with isOpen := decide ((hiDmaOpen highRes c s).2 = 0) } := by
  rcases hiDmaOpen_spec (h.closed hclosed) hC with ⟨hret, hrec⟩ | ⟨hret, hempty⟩
  · exact ⟨fun _ => ⟨hrec.holds, hrec.sound, hrec.track, hrec.workq, hrec.played, hrec.unused⟩,
      fun hno => absurd hret (of_decide_eq_false hno)⟩
  · exact ⟨fun hyes => absurd (of_decide_eq_true hyes) hret,
      fun _ => ⟨hempty.free, hempty.sound, hempty.track, hempty.workq, hempty.quiet⟩⟩

theorem Inv.play (h : Inv s) (hopen : s.isOpen = true) {had : HiaudioData} {es : List Event}
    (hnext : Alsa.step s.device s.had i = some (had, es)) : Inv { s with had := had } := by
  obtain ⟨hholds, hsound, htrack, hworkq, ⟨fs, hplayed⟩, hunused⟩ := h.opened hopen
  exact ⟨fun _ => ⟨hholds, hsound, htrack, hworkq, ⟨fs ++ es, hplayed.step hnext⟩, hunused.step hnext⟩,
    fun hno => absurd (hopen.symm.trans hno) Bool.noConfusion⟩

/-- Where the work item is done and the last command is no start, the timer is off. -/
theorem Recorded.quiet (h : Recorded s) (hidle : s.had.task = .idle ∧ s.had.work = false)
    (hC : s.had.u32Cmd = .start → s.had.hrt = false) : s.had.hrt = false := by
  obtain ⟨es, hplayed⟩ := h.played
  cases hcmd : s.had.u32Cmd with
  | none => exact (h.unused hcmd).1
  | start => exact hC hcmd
  | stop => exact (hplayed.halted hidle hcmd).1

theorem Inv.close (h : Inv s) (hopen : s.isOpen = true) (hidle : s.had.task = .idle ∧ s.had.work = false)
    (hC : s.had.u32Cmd = .start → s.had.hrt = false) (trackOthers soundOthers : Bool) :
    Inv { hiDmaClose highRes trackOthers soundOthers s with isOpen := false } := by
  have hrec := h.opened hopen
  have hempty := hiDmaClose_spec highRes hrec trackOthers soundOthers (hrec.quiet hidle hC)
  exact ⟨fun hyes => Bool.noConfusion hyes,
    fun _ => ⟨hempty.free, hempty.sound, hempty.track, hempty.workq, hempty.quiet⟩⟩

theorem Inv.step (h : Inv s) {i : Input} (hC : Calm highRes s i)
    (hnext : step highRes s i = some (t, es)) : Inv t := by
  cases i with
  | opens c =>
    rw [Substream.step] at hnext
    cases hopen : s.isOpen with
    | true =>
      rw [hopen, if_pos rfl] at hnext
      cases hnext
    | false =>
      rw [hopen, if_neg Bool.noConfusion] at hnext
      cases hnext
      exact h.opens hopen hC
  | play i =>
    rw [Substream.step] at hnext
    split at hnext
    · rename_i hgo
      obtain ⟨⟨had, fs⟩, hplay, heq⟩ := Option.map_eq_some_iff.mp hnext
      obtain rfl : { s with had := had } = t := congrArg Prod.fst heq
      simp only [Bool.and_eq_true] at hgo
      exact h.play hgo.1.1 hplay
    · cases hnext
  | close trackOthers soundOthers =>
    rw [Substream.step] at hnext
    split at hnext
    · rename_i hgo
      cases hnext
      simp only [Bool.and_eq_true, decide_eq_true_eq] at hgo
      exact h.close hgo.1 hgo.2 hC trackOthers soundOthers
    · cases hnext

/-! ## Runs -/

/-- Closing does not touch the timer. -/
theorem had_hiDmaClose (trackOthers soundOthers : Bool) :
    (hiDmaClose highRes trackOthers soundOthers s).had = s.had := by
  have hsound : ∀ s, (closeSound soundOthers s).had = s.had := by
    intro s
    unfold closeSound
    split <;> rfl
  have htrack : ∀ s, (closeTrack trackOthers s).had = s.had := by
    intro s
    unfold closeTrack
    split <;> rfl
  obtain ⟨irq, num, hfree⟩ := freeIrq_eq highRes s
  show (closeSound soundOthers (closeTrack trackOthers _)).had = _
  rw [hsound, htrack, hfree]
  split <;> rfl

theorem device_errTrackCreatExt (s : Stream) : (errTrackCreatExt s).held.device = s.held.device - 1 := by
  have hclose : ∀ h, (sndClose false h).1.device = h.device := by
    intro h
    unfold sndClose
    split <;> rfl
  have hdestroy : ∀ h, (trackDestroy false h).1.device = h.device := by
    intro h
    unfold trackDestroy
    split <;> rfl
  show (sndClose false (trackDestroy false s.held).1).1.device - 1 = _
  rw [hclose, hdestroy]

/-- A failure once the sound is open leaves what is recorded and returns an error, or returns 0 and holds nothing. -/
theorem not_right_opens (h : Empty s) (hC : ¬ Calm highRes s (.opens c)) :
    ¬ Right { (hiDmaOpen highRes c s).1 with isOpen := decide ((hiDmaOpen highRes c s).2 = 0) } := by
  obtain ⟨h1, hC⟩ := not_or.mp hC
  obtain ⟨h2, hC⟩ := not_or.mp hC
  obtain ⟨h3, hC⟩ := not_or.mp hC
  obtain ⟨h4, hC⟩ := not_or.mp hC
  have hdev : s.held.device + 1 - 1 ≠ 1 := by
    rw [h.free.1]
    decide
  have hone : (0 : BitVec 32) + 1 ≠ 0 := by decide
  unfold hiDmaOpen
  rw [if_neg h1, if_neg h2, if_neg h3, if_neg h4]
  by_cases h5 : c.trackGetDefaultOpenAttr ≠ 0
  · rw [if_pos h5]
    exact fun hright => hone (hright.reset (decide_eq_false h5)).2
  · rw [if_neg h5]
    by_cases h6 : c.trackCreate ≠ 0
    · rw [if_pos h6]
      exact fun hright => hone (hright.reset (decide_eq_false h6)).2
    · rw [if_neg h6]
      by_cases h7 : c.createWorkqueue = false
      · rw [if_pos h7]
        intro hright
        have hone := (hright.holds (decide_eq_true (not_not.mp h6))).1
        exact hdev ((device_errTrackCreatExt _).symm.trans hone)
      · rw [if_neg h7]
        have hlast : ¬ (highRes = true ∨ c.requestIrq = 0) := fun h8 =>
          hC ⟨not_not.mp h5, not_not.mp h6, Bool.of_not_eq_false h7, h8⟩
        obtain ⟨hbuild, h8⟩ := not_or.mp hlast
        have hnum : s.reset.u32IrqNum = INITIAL_VALUE := rfl
        rw [if_neg hbuild, if_pos hnum, if_pos h8]
        intro hright
        have hone := (hright.holds (decide_eq_true (not_not.mp h6))).1
        exact hdev ((device_errTrackCreatExt _).symm.trans hone)

/-- **A failure once the sound is open, or a timer that is armed at the end, is not right.** -/
theorem not_right_of_not_calm (h : Inv s) {i : Input} (hC : ¬ Calm highRes s i)
    (hnext : step highRes s i = some (t, es)) : ¬ Right t := by
  cases i with
  | opens c =>
    rw [Substream.step] at hnext
    cases hopen : s.isOpen with
    | true =>
      rw [hopen, if_pos rfl] at hnext
      cases hnext
    | false =>
      rw [hopen, if_neg Bool.noConfusion] at hnext
      cases hnext
      exact not_right_opens (h.closed hopen) hC
  | play i => exact absurd trivial hC
  | close trackOthers soundOthers =>
    rw [Substream.step] at hnext
    split at hnext
    · cases hnext
      intro hright
      have hquiet : (hiDmaClose highRes trackOthers soundOthers s).had.hrt = false := hright.quiet rfl
      rw [had_hiDmaClose] at hquiet
      exact hC fun _ => hquiet
    · cases hnext

/-- **When a stream is right all along.** -/
theorem run_holds_iff {is : List Input} {es : List Seen} (h : Run (step highRes) always (.init d) is s es) :
    (∀ js t fs, js <+: is → Run (step highRes) always (.init d) js t fs → Right t) ↔
      Run (step highRes) (Calm highRes) (.init d) is s es := by
  have hinv : ∀ {is s es}, Run (step highRes) (Calm highRes) (.init d) is s es → Inv s :=
    fun hrun => hrun.inv (fun _ s => Inv s) (.init d) (fun _ _ _ _ _ hinv hC hnext => hinv.step hC hnext)
  exact h.iff_along (P := fun _ t _ => Right t) (fun hrun => (hinv hrun).right)
    (fun _ _ _ hrun hC hnext => not_right_of_not_calm (hinv hrun) hC hnext)

/-- Every call of `hi_dma_open` succeeds. -/
def allSucceed (d : Device) : OpenCalls := ⟨0, 0, 0, 0, 0, 0, true, 0, d⟩

/-- A stream is opened, started, stopped and closed. -/
def playOnce : List Input :=
  [.opens (allSucceed s16Stereo), .play (.trigger .start), .play .work, .play (.call .success), .play (.call .success),
    .play (.call .success), .play (.trigger .stop), .play .work, .play (.call .success), .play (.call .success),
    .close false false]

/-- The stream holds what it should all along, and nothing in the end. -/
theorem run_holds_play_once : ∃ s es, Run (step true) always (.init s16Stereo) playOnce s es ∧ s.isOpen = false ∧
    ∀ js t fs, js <+: playOnce → Run (step true) always (.init s16Stereo) js t fs → Right t := by
  obtain ⟨s, es, hrun, htest⟩ := exists_run_of_exec (step true) (Calm true) (.init s16Stereo) playOnce
    (fun r => !r.1.isOpen) (by decide)
  have hall := hrun.mono (D := always) (fun _ _ _ => trivial)
  exact ⟨s, es, hall, by simpa using htest, (run_holds_iff hall).mpr hrun⟩

/-- The work queue is refused: `hi_dma_open` returns 0 and has given back everything. -/
theorem workq_refused : ∃ s es, Run (step true) always (.init s16Stereo)
    [.opens { allSucceed s16Stereo with createWorkqueue := false }] s es ∧ es = [.opened 0] ∧ ¬ Right s := by
  refine exists_run_imp (fun s es => s.isOpen && decide (s.held.device = 0) && decide (es = [.opened 0]))
    (by decide) fun _ _ _ htest => ?_
  simp only [Bool.and_eq_true, decide_eq_true_eq] at htest
  refine ⟨htest.2, fun hright => ?_⟩
  have hone := (hright.holds htest.1.1).1
  rw [htest.1.2] at hone
  exact absurd hone (by decide)

end HiSTB.Alsa.Substream
