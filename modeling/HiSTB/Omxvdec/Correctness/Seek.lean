import HiSTB.Omxvdec.Seek
import HiSTB.Omxvdec.Correctness.FrameTime

/-!
# `Omxvdec.Correctness.Seek` — what a seek leaves of the presentation times

* `Initial` — a record that nothing has been recovered from;
* `resetInst_of_start` — a reset does nothing with a record that is started;
* `run_status` — the record of a channel that works is started;
* `run_seek_iff` — so a seek leaves the record as it was.
-/

namespace HiSTB.Omxvdec.Seek

open Channel (ChanState)
open PtsRecv
open Lib

/-- **The initial parameters**: no source PTS, nothing counted, no frame time but one that was set, and an empty
    window of the frame-rate detection. -/
structure Initial (invalidPts invalidTime : U32) (s : PtsChan) : Prop where
  lastSrcPts : s.lastSrcPts = invalidPts
  lastSrcFrmIdx : s.lastSrcFrmIdx = -1
  frameNum : s.frameNum = 0
  frameTimeCnt : s.frameTimeCnt = 0
  lastCalcFrmTime : s.lastCalcFrmTime = invalidTime
  calcFrameTime : s.calcFrameTime = invalidTime
  gesFrameTime : s.gesFrameTime = invalidTime
  interPtsDelta : s.interPtsDelta = 0
  window : ∀ i < 100, s.ptsInfo.inPTSSqn i = invalidPts
  u320Pts : s.ptsInfo.u320Pts = invalidPts
  queCnt : s.ptsInfo.queCnt = 0
  queStable : s.ptsInfo.queStable = 0
  inFrameRateEqueTime : s.ptsInfo.inFrameRateEqueTime = 0

variable {invalidPts invalidTime : U32} {s t : Inst} {es : List Event} {cs : List Call}

/-! ## The reset -/

theorem resetInst_of_start (h : s.pts.status = .start) : s.resetInst invalidPts invalidTime = s := by
  unfold Inst.resetInst ptsrecReset
  rw [if_neg (by rw [h]; exact Status.noConfusion), if_pos h]

/-! ## Runs -/

/-- The status of the record that a channel in this state has. -/
def statusOf : ChanState → Status
  | .invalid => .inited
  | .idle => .stop
  | .work => .start
  | .pause => .start
  | .pausePending => .start

theorem calcStamp_status {p : PtsChan} {im : Image} {r : Stamped}
    (hr : calcStamp invalidPts invalidTime p im = some r) : r.chan.status = p.status := by
  obtain ⟨-, -, info, hchan⟩ := calcStamp_spec hr
  rw [hchan]
  cases hm : measured invalidPts p im with
  | none =>
    obtain ⟨n, l, i, g, d, heq⟩ := stampFrame_idle invalidTime hm
    rw [heq]
  | some time =>
    obtain ⟨l, i, heq⟩ := stampFrame_measured invalidTime hm
    obtain ⟨c, l', f, d, hkeep⟩ := measure_keeps invalidTime { p with frameNum := p.frameNum + 1 } time
    rw [heq, hkeep]

theorem setFrmRate_status (p : PtsChan) (q : FrmRateParam) : (ptsrecSetFrmRate p q).1.status = p.status := by
  unfold ptsrecSetFrmRate
  split
  · rfl
  · split
    · dsimp only
      split <;> rfl
    · rfl

theorem statusOf_ne {c : ChanState} (h : c ≠ .invalid) : statusOf c ≠ .inited := by
  cases c with
  | invalid => exact absurd rfl h
  | idle => exact Status.noConfusion
  | work => exact Status.noConfusion
  | pause => exact Status.noConfusion
  | pausePending => exact Status.noConfusion

theorem reset_status (p : PtsChan) : (ptsrecReset invalidPts invalidTime p).1.status = p.status := by
  unfold ptsrecReset
  split
  · rfl
  · split <;> rfl

theorem flushInst_status (s : Inst) (dir : Bind.PortDir) :
    (s.flushInst invalidPts invalidTime dir).pts.status = s.pts.status ∧
      (s.flushInst invalidPts invalidTime dir).state = s.state := by
  have hout : (s.flushOutPort invalidPts invalidTime).pts.status = s.pts.status ∧
      (s.flushOutPort invalidPts invalidTime).state = s.state := by
    unfold Inst.flushOutPort
    split
    · exact ⟨rfl, rfl⟩
    · exact ⟨reset_status s.pts, rfl⟩
  unfold Inst.flushInst
  split
  · exact ⟨rfl, rfl⟩
  · cases dir with
    | input => exact ⟨rfl, rfl⟩
    | output => exact hout
    | both => exact hout

theorem getImage_status (s : Inst) (im : Image) :
    (s.getImage invalidPts invalidTime im).1.pts.status = s.pts.status ∧
      (s.getImage invalidPts invalidTime im).1.state = s.state := by
  unfold Inst.getImage
  split
  · exact ⟨rfl, rfl⟩
  · split
    · exact ⟨rfl, rfl⟩
    · rename_i r hr
      exact ⟨calcStamp_status hr, rfl⟩

/-- **The record follows the channel.** -/
theorem run_status
    (h : Run (step invalidPts invalidTime) always (Inst.init invalidPts invalidTime) cs s es) :
    s.pts.status = statusOf s.state := by
  refine Run.inv (fun _ s => s.pts.status = statusOf s.state) rfl ?_ h
  intro _ s c t _ hs _ hstep
  cases c with
  | firstOpen =>
    cases hstep
    unfold Inst.firstOpen
    split
    · rename_i hi
      show Status.inited = statusOf s.state
      rw [hi]
      rfl
    · exact hs
  | create d p m =>
    cases hstep
    unfold Inst.createInst
    split
    · rename_i hi
      have hinited : s.pts.status = .inited := by rw [hs, hi.1]; rfl
      show (ptsrecAlloc invalidPts invalidTime s.pts).1.status = .stop
      unfold ptsrecAlloc
      rw [if_neg (not_not.mpr hinited)]
      rfl
    · exact hs
  | release =>
    cases hstep
    unfold Inst.releaseInst
    split
    · exact hs
    · rfl
  | start d p =>
    cases hstep
    unfold Inst.startInst
    split
    · exact hs
    · rename_i hi
      split
      · exact hs
      · split
        · show (ptsrecStart invalidPts invalidTime s.pts).1.status = .start
          unfold ptsrecStart
          rw [if_neg (hs ▸ statusOf_ne hi)]
          rfl
        · exact hs
  | stop =>
    cases hstep
    unfold Inst.stopInst
    split
    · exact hs
    · rename_i hi
      split
      · exact hs
      · show (ptsrecStop s.pts).1.status = .stop
        unfold ptsrecStop
        rw [if_neg (hs ▸ statusOf_ne hi)]
  | pause =>
    cases hstep
    unfold Inst.pauseInst
    split
    · exact hs
    · rename_i hw
      rw [hs, not_not.mp hw]
      rfl
  | resume =>
    cases hstep
    unfold Inst.resumeInst
    split
    · exact hs
    · rename_i hp
      rw [hs, not_not.mp hp]
      rfl
  | flush dir =>
    cases hstep
    exact (flushInst_status s dir).1.trans (hs.trans (congrArg statusOf (flushInst_status s dir).2.symm))
  | sizeChange =>
    cases hstep
    split <;> exact hs
  | setFrmRate p =>
    cases hstep
    exact (setFrmRate_status s.pts p).trans hs
  | getImage im =>
    obtain rfl : (s.getImage invalidPts invalidTime im).1 = t := congrArg Prod.fst (Option.some.inj hstep)
    exact (getImage_status s im).1.trans (hs.trans (congrArg statusOf (getImage_status s im).2.symm))

/-- **What a seek leaves**: in every run, the reset of a channel that works finds the record started and does
    nothing; so the record has its initial parameters afterwards if and only if it has them before. -/
theorem run_seek_iff (invalidPts invalidTime : U32) (cs : List Call) (s : Inst) (es : List Event)
    (hrun : Run (step invalidPts invalidTime) always (Inst.init invalidPts invalidTime) cs s es)
    (hwork : s.state = .work) :
    s.pts.status = .start ∧ (s.resetInst invalidPts invalidTime).pts = s.pts ∧
      (Initial invalidPts invalidTime (s.resetInst invalidPts invalidTime).pts ↔
        Initial invalidPts invalidTime s.pts) := by
  have hstatus : s.pts.status = .start := by rw [run_status hrun, hwork]; rfl
  refine ⟨hstatus, by rw [resetInst_of_start hstatus], ?_⟩
  rw [resetInst_of_start hstatus]

/-- A channel that has just been started. -/
theorem run_seek_fresh : ∃ s es, Run (step 0xffffffff 0xffffffff) always (Inst.init 0xffffffff 0xffffffff)
      [.create true true true, .start true true] s es ∧
    s.pts.status = .start ∧ (s.resetInst 0xffffffff 0xffffffff).pts = s.pts ∧
      (Initial 0xffffffff 0xffffffff (s.resetInst 0xffffffff 0xffffffff).pts ↔
        Initial 0xffffffff 0xffffffff s.pts) := by
  exact exists_run_imp (fun s _ => s.state = .work) (by decide) fun s es hrun h =>
    run_seek_iff 0xffffffff 0xffffffff _ s es hrun h

/-- A seek after the first picture: its PTS is still the last one. -/
theorem run_seek_stale : ∃ s es, Run (step 0xffffffff 0xffffffff) always (Inst.init 0xffffffff 0xffffffff)
      [.create true true true, .start true true, .getImage (palImage 40)] s es ∧
    s.state = .work ∧ ¬ Initial 0xffffffff 0xffffffff (s.resetInst 0xffffffff 0xffffffff).pts := by
  refine exists_run_imp (fun s _ => s.state = .work ∧ (s.resetInst 0xffffffff 0xffffffff).pts.lastSrcPts = 40)
    (by decide) fun _ _ _ h => ?_
  obtain ⟨hwork, hlast⟩ := h
  refine ⟨hwork, fun hinit => ?_⟩
  exact absurd (hlast.symm.trans hinit.lastSrcPts) (by decide)

end HiSTB.Omxvdec.Seek
