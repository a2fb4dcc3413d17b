import HiSTB.Omxvdec.Correctness.Stamps

/-!
# `Omxvdec.Correctness.FrameTime` — when the calculated frame time follows a measured one

* `measured` — the frame time that a frame with a source PTS measures;
* `Counting` — the counter and the last measured time, `run_counting` — kept in every run;
* `frameTime_rule_iff` — the counter is restarted as it should be if and only if the new time is not a little
  less than the last one.
-/

namespace HiSTB.Omxvdec.PtsRecv

open Lib

/-- The frame time that a frame measures, if it does: it has a source PTS, as one before had, and not too much
    time has passed. -/
def measured (invalidPts : U32) (s : PtsChan) (im : Image) : Option U32 :=
  let src := im.srcPts.setWidth 32
  let num := s.frameNum + 1 - s.lastSrcFrmIdx
  if src ≠ invalidPts ∧ s.lastSrcPts ≠ invalidPts ∧ num ≠ 0 ∧ ptsPass s src ≤ PTS_MAX_PASSTIME then
    some (ptsPass s src * 1000 / num)
  else none

/-- The distance of two frame times. -/
def timeDist (a b : U32) : Nat := max a.toNat b.toNat - min a.toNat b.toNat

/-- **The rule for the calculated frame time**: the counter is restarted exactly when a new time is more than
    `FRMTIME_MAX_JUMP` away from the last one; the calculated time changes only when the two agree; and nothing
    changes when nothing is measured. -/
structure FrameTimeRule (s t : PtsChan) (m : Option U32) : Prop where
  restart : ∀ time, m = some time → (t.frameTimeCnt = 1 ↔ 1000 < timeDist time s.lastCalcFrmTime)
  change : t.calcFrameTime ≠ s.calcFrameTime → ∃ time, m = some time ∧ timeDist time s.lastCalcFrmTime ≤ 1000
  idle : m = none → t.frameTimeCnt = s.frameTimeCnt ∧ t.calcFrameTime = s.calcFrameTime

/-- **The counter**: 1 or 2 where there is a calculated frame time, and then the last one was measured. -/
structure Counting (invalidTime : U32) (s : PtsChan) : Prop where
  none : s.calcFrameTime = invalidTime → s.frameTimeCnt = 0
  count : s.calcFrameTime ≠ invalidTime → s.frameTimeCnt = 1 ∨ s.frameTimeCnt = 2
  last : s.calcFrameTime ≠ invalidTime → s.lastCalcFrmTime.toNat ≤ 120000000

variable {invalidPts invalidTime : U32} {s t : PtsChan} {im : Image} {r : Stamped} {time : U32}

/-! ## Measuring -/

/-- A measured frame time is at most two minutes. -/
theorem measured_le (h : measured invalidPts s im = some time) : time.toNat ≤ 120000000 := by
  unfold measured at h
  dsimp only at h
  split at h
  · rename_i hm
    cases h
    have hpass : (ptsPass s (im.srcPts.setWidth 32)).toNat ≤ 120000 := hm.2.2.2
    rw [BitVec.toNat_udiv, BitVec.toNat_mul]
    refine Nat.le_trans (Nat.div_le_self _ _) (Nat.le_trans (Nat.mod_le _ _) ?_)
    exact Nat.mul_le_mul_right 1000 hpass
  · cases h

/-- A frame that measures a time. -/
theorem stampFrame_measured (invalidTime : U32) (h : measured invalidPts s im = some time) :
    ∃ l i, (stampFrame invalidPts invalidTime s im).1 =
      { measure invalidTime { s with frameNum := s.frameNum + 1 } time with lastSrcPts := l, lastSrcFrmIdx := i } := by
  unfold measured at h
  dsimp only at h
  split at h
  · rename_i hm
    obtain ⟨hsrc, hlast, hnum, hpass⟩ := hm
    cases h
    have hpass' : ptsPass { s with frameNum := s.frameNum + 1 } (im.srcPts.setWidth 32) ≤ PTS_MAX_PASSTIME := hpass
    unfold stampFrame srcStamp numPass
    rw [if_pos hsrc, if_pos hlast, if_pos hlast, if_pos hnum, if_pos hpass']
    exact ⟨_, _, rfl⟩
  · cases h

/-- A frame that measures none leaves the frame times. -/
theorem stampFrame_idle (invalidTime : U32) (h : measured invalidPts s im = none) :
    ∃ n l i g d, (stampFrame invalidPts invalidTime s im).1 =
      { s with frameNum := n, lastSrcPts := l, lastSrcFrmIdx := i, gesFrameTime := g, interPtsDelta := d } := by
  unfold stampFrame
  dsimp only
  split
  · rename_i hsrc
    unfold srcStamp
    split
    · rename_i hlast
      split
      · rename_i hnum
        split
        · rename_i hpass
          unfold numPass at hnum
          rw [if_pos hlast] at hnum
          exact absurd ((if_pos ⟨hsrc, hlast, hnum, hpass⟩).symm.trans h) (Option.some_ne_none _)
        · split <;> exact ⟨_, _, _, _, _, rfl⟩
      · exact ⟨_, _, _, _, _, rfl⟩
    · exact ⟨_, _, _, _, _, rfl⟩
  · unfold recoverStamp
    split
    · obtain ⟨g, hg⟩ := chooseTime_chan invalidTime { s with frameNum := s.frameNum + 1 } im
      dsimp only
      rw [hg]
      exact ⟨_, _, _, _, _, rfl⟩
    · exact ⟨_, _, _, _, _, rfl⟩

/-! ## The counter -/

theorem measure_first (time : U32) (h : s.calcFrameTime = invalidTime) :
    (measure invalidTime s time).frameTimeCnt = s.frameTimeCnt + 1 ∧
    (measure invalidTime s time).calcFrameTime = time ∧ (measure invalidTime s time).lastCalcFrmTime = time := by
  unfold measure
  rw [if_neg (not_not.mpr h)]
  exact ⟨rfl, rfl, rfl⟩

theorem measure_jump (h : s.calcFrameTime ≠ invalidTime) (hj : time - s.lastCalcFrmTime > FRMTIME_MAX_JUMP) :
    (measure invalidTime s time).frameTimeCnt = 1 ∧
    (measure invalidTime s time).calcFrameTime = s.calcFrameTime ∧
    (measure invalidTime s time).lastCalcFrmTime = time := by
  unfold measure
  rw [if_pos h, if_pos hj]
  exact ⟨rfl, rfl, rfl⟩

theorem measure_agree (h : s.calcFrameTime ≠ invalidTime) (hj : ¬ time - s.lastCalcFrmTime > FRMTIME_MAX_JUMP)
    (hc : s.frameTimeCnt = 1 ∨ s.frameTimeCnt = 2) :
    (measure invalidTime s time).frameTimeCnt = 2 ∧ (measure invalidTime s time).calcFrameTime = time ∧
    (measure invalidTime s time).lastCalcFrmTime = time := by
  unfold measure
  rw [if_pos h, if_neg hj]
  rcases hc with hc | hc
  · rw [hc]
    exact ⟨rfl, rfl, rfl⟩
  · rw [hc]
    exact ⟨rfl, rfl, rfl⟩

theorem Counting.congr (h : Counting invalidTime s) (hcnt : t.frameTimeCnt = s.frameTimeCnt)
    (hcalc : t.calcFrameTime = s.calcFrameTime) (hlast : t.lastCalcFrmTime = s.lastCalcFrmTime) :
    Counting invalidTime t := by
  constructor
  · rw [hcalc, hcnt]
    exact h.none
  · rw [hcalc, hcnt]
    exact h.count
  · rw [hcalc, hlast]
    exact h.last

theorem ne_invalidTime (hinv : 120000000 < invalidTime.toNat) (ht : time.toNat ≤ 120000000) : time ≠ invalidTime := by
  rintro rfl
  omega

theorem Counting.measure (hinv : 120000000 < invalidTime.toNat) (h : Counting invalidTime s)
    (ht : time.toNat ≤ 120000000) : Counting invalidTime (measure invalidTime s time) := by
  have hne := ne_invalidTime hinv ht
  by_cases hcalc : s.calcFrameTime = invalidTime
  · obtain ⟨hcnt, hcalc', hlast⟩ := measure_first time hcalc
    rw [h.none hcalc] at hcnt
    refine ⟨fun heq => absurd (hcalc'.symm.trans heq) hne, fun _ => Or.inl hcnt, fun _ => ?_⟩
    rwa [hlast]
  · by_cases hj : time - s.lastCalcFrmTime > FRMTIME_MAX_JUMP
    · obtain ⟨hcnt, hcalc', hlast⟩ := measure_jump hcalc hj
      refine ⟨fun heq => absurd (hcalc'.symm.trans heq) hcalc, fun _ => Or.inl hcnt, fun _ => ?_⟩
      rwa [hlast]
    · obtain ⟨hcnt, hcalc', hlast⟩ := measure_agree hcalc hj (h.count hcalc)
      refine ⟨fun heq => absurd (hcalc'.symm.trans heq) hne, fun _ => Or.inr hcnt, fun _ => ?_⟩
      rwa [hlast]

theorem Counting.initial (hcnt : s.frameTimeCnt = 0) (hcalc : s.calcFrameTime = invalidTime) :
    Counting invalidTime s :=
  ⟨fun _ => hcnt, fun h => absurd hcalc h, fun h => absurd hcalc h⟩

theorem Counting.calcStamp (hinv : 120000000 < invalidTime.toNat) (h : Counting invalidTime s)
    (hr : calcStamp invalidPts invalidTime s im = some r) : Counting invalidTime r.chan := by
  obtain ⟨-, -, info, hchan⟩ := calcStamp_spec hr
  cases hm : measured invalidPts s im with
  | none =>
    obtain ⟨n, l, i, g, d, heq⟩ := stampFrame_idle invalidTime hm
    rw [hchan, heq]
    exact h.congr rfl rfl rfl
  | some time =>
    obtain ⟨l, i, heq⟩ := stampFrame_measured invalidTime hm
    rw [hchan, heq]
    have hcounting : Counting invalidTime { s with frameNum := s.frameNum + 1 } := h.congr rfl rfl rfl
    exact (hcounting.measure hinv (measured_le hm)).congr rfl rfl rfl

/-- **The counter in every run.** -/
theorem run_counting (hinv : 120000000 < invalidTime.toNat) {cs : List Call} {es : List Event}
    (h : Run (step invalidPts invalidTime) always (ptsrecInit invalidPts invalidTime PtsChan.zero) cs s es) :
    Counting invalidTime s := by
  refine Run.inv (fun _ s => Counting invalidTime s) (Counting.initial rfl rfl) ?_ h
  intro _ s c t _ hs _ hstep
  cases c with
  | init =>
    cases hstep
    exact Counting.initial rfl rfl
  | alloc =>
    cases hstep
    unfold ptsrecAlloc
    split
    · exact hs
    · exact Counting.initial rfl rfl
  | free =>
    cases hstep
    exact hs.congr rfl rfl rfl
  | start =>
    cases hstep
    unfold ptsrecStart
    split
    · exact hs
    · exact Counting.initial rfl rfl
  | stop =>
    cases hstep
    unfold ptsrecStop
    split
    · exact hs
    · exact hs.congr rfl rfl rfl
  | reset =>
    cases hstep
    unfold ptsrecReset
    split
    · exact hs
    · split
      · exact hs
      · exact Counting.initial rfl rfl
  | setFrmRate p =>
    cases hstep
    unfold ptsrecSetFrmRate
    split
    · exact hs
    · split
      · dsimp only
        split <;> exact hs.congr rfl rfl rfl
      · exact hs.congr rfl rfl rfl
  | calcStamp im =>
    rw [step] at hstep
    split at hstep
    · cases hstep
      exact hs
    · rename_i r hr
      cases hstep
      exact hs.calcStamp hinv hr

/-! ## The rule -/

/-- An unsigned difference of measured times is more than `FRMTIME_MAX_JUMP` also where it should be a little
    less than zero. -/
theorem jump_iff {a b : U32} (ha : a.toNat ≤ 120000000) (hb : b.toNat ≤ 120000000) :
    a - b > FRMTIME_MAX_JUMP ↔ a.toNat < b.toNat ∨ 1000 < timeDist a b := by
  have hmax : FRMTIME_MAX_JUMP.toNat = 1000 := rfl
  unfold timeDist
  rw [gt_iff_lt, BitVec.lt_def, hmax, BitVec.toNat_sub]
  omega

/-- **What `OMX_PTSREC_CalcStamp` does with the frame times**: in every state of a run with a calculated frame
    time, the next frame keeps the rule if and only if it does not measure a time that is less than the last one,
    by no more than `FRMTIME_MAX_JUMP`. -/
theorem frameTime_rule_iff (invalidPts invalidTime : U32) (cs : List Call) (s : PtsChan) (es : List Event)
    (im : Image) (r : Stamped) (hinv : 120000000 < invalidTime.toNat)
    (hrun : Run (step invalidPts invalidTime) always (ptsrecInit invalidPts invalidTime PtsChan.zero) cs s es)
    (hcalc : s.calcFrameTime ≠ invalidTime) (hr : calcStamp invalidPts invalidTime s im = some r) :
    FrameTimeRule s r.chan (measured invalidPts s im) ↔
      ∀ time, measured invalidPts s im = some time →
        ¬ (time.toNat < s.lastCalcFrmTime.toNat ∧ timeDist time s.lastCalcFrmTime ≤ 1000) := by
  have hs := run_counting hinv hrun
  obtain ⟨-, -, info, hchan⟩ := calcStamp_spec hr
  cases hm : measured invalidPts s im with
  | none =>
      obtain ⟨n, l, i, g, d, heq⟩ := stampFrame_idle invalidTime hm
      rw [hchan, heq]
      refine iff_of_true ⟨?_, fun h => absurd rfl h, fun _ => ⟨rfl, rfl⟩⟩ ?_
      · intro time h
        cases h
      · intro time h
        cases h
  | some time =>
      obtain ⟨l, i, heq⟩ := stampFrame_measured invalidTime hm
      have hjump := jump_iff (measured_le hm) (hs.last hcalc)
      rw [hchan, heq]
      by_cases hj : time - s.lastCalcFrmTime > FRMTIME_MAX_JUMP
      · obtain ⟨hcnt, hcalc', -⟩ := measure_jump (s := { s with frameNum := s.frameNum + 1 }) hcalc hj
        constructor
        · rintro h time' htime ⟨-, hle⟩
          have hfar := (h.restart time' htime).mp hcnt
          omega
        · intro h
          have hfar : 1000 < timeDist time s.lastCalcFrmTime := by
            rcases hjump.mp hj with hlt | hfar
            · exact Nat.lt_of_not_le (fun hle => h time rfl ⟨hlt, hle⟩)
            · exact hfar
          refine ⟨?_, fun hne => absurd hcalc' hne, fun hn => by cases hn⟩
          rintro time' ⟨⟩
          exact iff_of_true hcnt hfar
      · obtain ⟨hcnt, hcalc', -⟩ := measure_agree (s := { s with frameNum := s.frameNum + 1 }) hcalc hj
          (hs.count hcalc)
        have hnear := mt hjump.mpr hj
        rw [not_or, Nat.not_lt] at hnear
        refine iff_of_true ⟨?_, fun _ => ⟨time, rfl, Nat.le_of_not_lt hnear.2⟩, fun hn => by cases hn⟩ ?_
        · rintro time' ⟨⟩
          refine iff_of_false (fun h1 => ?_) hnear.2
          exact absurd (hcnt.symm.trans h1) (by decide)
        · rintro time' ⟨⟩ ⟨hlt, -⟩
          omega

/-- Two frames 40 ms apart. -/
def twoFrames : List Call := [.alloc, .start, .calcStamp (palImage 0), .calcStamp (palImage 40)]

theorem run_twoFrames (im : Image) (time : U32) (c : U32)
    (htest : ((exec (step 0xffffffff 0xffffffff) always (ptsrecInit 0xffffffff 0xffffffff PtsChan.zero)
      twoFrames).any (fun q => decide (q.1.calcFrameTime ≠ 0xffffffff ∧ q.1.lastCalcFrmTime = 40000 ∧
        measured 0xffffffff q.1 im = some time ∧
        (calcStamp 0xffffffff 0xffffffff q.1 im).map (fun r => r.chan.frameTimeCnt) = some c))) = true) :
    ∃ s es r, Run (step 0xffffffff 0xffffffff) always (ptsrecInit 0xffffffff 0xffffffff PtsChan.zero) twoFrames s es ∧
      s.calcFrameTime ≠ 0xffffffff ∧ s.lastCalcFrmTime = 40000 ∧ measured 0xffffffff s im = some time ∧
      calcStamp 0xffffffff 0xffffffff s im = some r ∧ r.chan.frameTimeCnt = c := by
  obtain ⟨s, es, hrun, h⟩ := exists_run_of_exec _ _ _ _ _ htest
  obtain ⟨hcalc, hlast, hm, hcnt⟩ := of_decide_eq_true h
  obtain ⟨r, hr, hc⟩ := Option.map_eq_some_iff.mp hcnt
  exact ⟨s, es, r, hrun, hcalc, hlast, hm, hr, hc⟩

/-- A third frame after 40 ms. -/
theorem frameTime_rule_steady :
    ∃ s es r, Run (step 0xffffffff 0xffffffff) always (ptsrecInit 0xffffffff 0xffffffff PtsChan.zero) twoFrames s es ∧
      calcStamp 0xffffffff 0xffffffff s (palImage 80) = some r ∧
      FrameTimeRule s r.chan (measured 0xffffffff s (palImage 80)) := by
  obtain ⟨s, es, r, hrun, hcalc, hlast, hm, hr, -⟩ := run_twoFrames (palImage 80) 40000 2 (by decide)
  refine ⟨s, es, r, hrun, hr, (frameTime_rule_iff 0xffffffff 0xffffffff twoFrames s es (palImage 80) r (by decide)
    hrun hcalc hr).mpr ?_⟩
  intro time htime
  rw [hm] at htime
  cases htime
  rw [hlast]
  decide

/-- After 39 ms the counter is restarted, though a millisecond is no jump. -/
theorem frameTime_jitter :
    ∃ s es r, Run (step 0xffffffff 0xffffffff) always (ptsrecInit 0xffffffff 0xffffffff PtsChan.zero) twoFrames s es ∧
      s.calcFrameTime ≠ 0xffffffff ∧ calcStamp 0xffffffff 0xffffffff s (palImage 79) = some r ∧
      ¬ FrameTimeRule s r.chan (measured 0xffffffff s (palImage 79)) := by
  obtain ⟨s, es, r, hrun, hcalc, hlast, hm, hr, hcnt⟩ := run_twoFrames (palImage 79) 39000 1 (by decide)
  refine ⟨s, es, r, hrun, hcalc, hr, fun h => ?_⟩
  have hfar := (h.restart 39000 hm).mp hcnt
  rw [hlast] at hfar
  exact absurd hfar (by decide)

end HiSTB.Omxvdec.PtsRecv
