import Mathlib.Logic.Function.Basic
import HiSTB.Lib.Run

/-!
# `Omxvdec.FrameRate` — frame-rate detection of the OMX video decoder driver

`OMX_OPTM_ALG_FrameRateDetect` keeps a window of past time stamps and derives the frame rate, in tenths of a
frame per second, from the distance of neighbouring ones and from their average.

`HI_U32` and `HI_S32` are `BitVec 32`; arithmetic wraps, as in the kernel build. Where C compares or divides
an `HI_S32` with an `HI_U32` the comparison is unsigned, and `OPTM_ALG_ABS` of an unsigned value is the value
itself. `HI_INVALID_PTS` is a parameter. The window is a function of the index, so an index outside the array
is an effect (`Event.index`), not a value of the model.
-/

namespace HiSTB.Omxvdec

open Lib

/-- `HI_U32` and `HI_S32`. -/
abbrev U32 := BitVec 32

/-- `OPTM_ALG_FRD_S`; `u32120_Pts`, which is only reset, is left out. -/
structure FrdInfo where
  inPTSSqn : Nat → U32
  nowPTSPtr : U32
  length : U32
  u320Pts : U32
  queCnt : U32
  queRate : U32
  queStable : U32
  unableTime : U32
  inFrameRateLast : U32
  stableThreshold : U32
  inFrameRateEqueTime : U32
  inFrameRate : U32

/-- What a step shows: an index into `InPTSSqn` that depends on `nowPTSPtr`, with `nowPTSPtr`, a divisor that is
    not a constant, and that a full window takes the branch of `rateDiff > s32WaveDelta`. -/
inductive Event
  | index (i : Nat) (ptr : Nat)
  | divisor (d : Nat)
  | largeChange

/-- `OPTM_ALG_ABS` of a signed value. -/
def optmAlgAbs (x : U32) : U32 := if x.toInt < 0 then -x else x

/-- `OPTM_ALG_ROUND`. -/
def optmAlgRound (x : U32) : U32 := if x % 10 > 4 then (x / 10 + 1) * 10 else x

/-- The rate of a time difference in tenths of a millisecond, or 0 outside 0.1 to 80 frames a second. -/
def rateOf (ptsDiff : U32) : U32 × List Event :=
  if ptsDiff.toInt ≤ 100000 ∧ ptsDiff.toInt ≥ 120 then
    (optmAlgRound (1000000 / ptsDiff) / 10, [.divisor ptsDiff.toNat])
  else (0, [])

/-- `OMX_OPTM_ALG_InPTSSqn_CalNowRate`: of the whole window (`env`), or of its last two time stamps. -/
def calNowRate (s : FrdInfo) (env : Bool) : U32 × List Event :=
  let now := s.inPTSSqn s.nowPTSPtr.toNat
  if env then
    let r := rateOf (10 * (now - s.inPTSSqn 0) / s.nowPTSPtr)
    (r.1, .index s.nowPTSPtr.toNat s.nowPTSPtr.toNat :: .divisor s.nowPTSPtr.toNat :: r.2)
  else
    let r := rateOf (10 * (now - s.inPTSSqn (s.nowPTSPtr - 1).toNat))
    (r.1, .index s.nowPTSPtr.toNat s.nowPTSPtr.toNat ::
      .index (s.nowPTSPtr - 1).toNat s.nowPTSPtr.toNat :: r.2)

/-- The window length for a rate. -/
def lengthOf (rate : U32) : U32 := if rate > 50 then rate / 10 else 5

/-- The number of equal frames after which a rate is stable. -/
def stableOf (rate : U32) : U32 := if rate > 300 then rate / 100 else 3

/-- `OMX_OPTM_ALG_InPTSSqn_ChangeInFrameRate`. -/
def changeInFrameRate (s : FrdInfo) (nowRate : U32) : FrdInfo :=
  { s with inFrameRate := nowRate, length := lengthOf nowRate, stableThreshold := stableOf nowRate }

section

variable (invalid : U32)

/-- All time stamps invalid. -/
def clearSqn (s : FrdInfo) : Nat → U32 := fun i => if i < 100 then invalid else s.inPTSSqn i

/-- `OMX_OPTM_ALG_FrdInfo_Reset(info, 0)`. -/
def frdInfoReset0 (s : FrdInfo) : FrdInfo :=
  { s with
    inPTSSqn := clearSqn invalid s, inFrameRateEqueTime := 0, u320Pts := invalid, queCnt := 0
    queStable := 0 }

/-- `OMX_OPTM_ALG_FrdInfo_Reset(info, 1)`: keep the latest time stamp. -/
def frdInfoReset1 (s : FrdInfo) : FrdInfo × List Event :=
  ({ s with
      inPTSSqn := Function.update (clearSqn invalid s) 0 (s.inPTSSqn s.nowPTSPtr.toNat)
      nowPTSPtr := 1, inFrameRateEqueTime := 0 },
    [.index s.nowPTSPtr.toNat s.nowPTSPtr.toNat])

/-- `OMX_OPTM_ALG_FrdInfo_Reset(info, 2)`: keep the latest two time stamps. -/
def frdInfoReset2 (s : FrdInfo) : FrdInfo × List Event :=
  ({ s with
      inPTSSqn := Function.update
        (Function.update (clearSqn invalid s) 0 (s.inPTSSqn (s.nowPTSPtr - 1).toNat)) 1
        (s.inPTSSqn s.nowPTSPtr.toNat)
      nowPTSPtr := 2, inFrameRateEqueTime := 1 },
    [.index s.nowPTSPtr.toNat s.nowPTSPtr.toNat, .index (s.nowPTSPtr - 1).toNat s.nowPTSPtr.toNat])

/-! ## Parts of `OMX_OPTM_ALG_FrameRateDetect` -/

/-- The time a frame took on average over 60 frames. -/
def queDelta (s : FrdInfo) (pts : U32) : U32 :=
  if pts > s.u320Pts then (pts - s.u320Pts) / 60 else (s.u320Pts - pts) / 60

/-- The rate over 60 frames. -/
def queNewRate (s : FrdInfo) (pts : U32) : U32 × List Event :=
  if queDelta s pts ≠ 0 then (10000 / queDelta s pts, [.divisor (queDelta s pts).toNat]) else (0, [])

/-- The end of a 60-frame queue window. -/
def queWindowEnd (s : FrdInfo) (pts : U32) : FrdInfo × List Event :=
  let r := queNewRate s pts
  let s :=
    if r.1 - s.queRate < 10 then
      if s.queStable < 3 then { s with queStable := s.queStable + 1 } else s
    else { s with queRate := r.1, queStable := 0 }
  ({ s with u320Pts := pts, queCnt := 0 }, r.2)

/-- Counting the frames of the queue window. -/
def queWindow (s : FrdInfo) (pts : U32) : FrdInfo × List Event :=
  let s := if s.u320Pts = invalid then { s with u320Pts := pts } else { s with queCnt := s.queCnt + 1 }
  if s.queCnt = 61 then queWindowEnd s pts else (s, [])

/-- One more frame without a stable rate. -/
def unable (s : FrdInfo) : FrdInfo :=
  let s := { s with unableTime := s.unableTime + 1 }
  if 10 = s.unableTime then { s with inFrameRate := 0, unableTime := 0 } else s

/-- The last rate is about 30 frames a second. -/
def about30 (s : FrdInfo) : Bool := decide (s.inFrameRateLast ≥ 200) && decide (s.inFrameRateLast ≤ 400)

/-- The rate jumped. -/
def jumped (s : FrdInfo) (nowRate : U32) : Bool :=
  let delta : U32 := if about30 s then 200 else s.inFrameRateLast / 10
  decide (optmAlgAbs (nowRate - s.inFrameRateLast) > delta)

/-- The branch for a jump of the rate. -/
def jumpBranch (s : FrdInfo) (nowRate : U32) : FrdInfo × List Event :=
  frdInfoReset2 invalid
    { unable s with inFrameRateLast := nowRate, stableThreshold := stableOf nowRate }

/-- One more frame with about the same rate. -/
def equeTime (s : FrdInfo) (nowRate : U32) : FrdInfo :=
  let s := { s with inFrameRateEqueTime := s.inFrameRateEqueTime + 1 }
  if 3 = s.inFrameRateEqueTime ∨ nowRate = s.inFrameRate then { s with unableTime := 0 } else s

/-- The frame rate is to be estimated before the window is full. -/
def reestimateDue (s : FrdInfo) : Bool :=
  decide (s.inFrameRateEqueTime = if about30 s then 10 else s.stableThreshold)

/-- The estimate in mid-window is another one. -/
def reestimateChanges (s : FrdInfo) (nowRate : U32) : Bool :=
  decide (optmAlgAbs (nowRate - s.inFrameRate) > s.inFrameRate / 10)

/-- The estimate in mid-window. -/
def reestimate (s : FrdInfo) : FrdInfo × List Event :=
  if reestimateDue s then
    let r := calNowRate s true
    if reestimateChanges s r.1 then
      ({ changeInFrameRate s r.1 with inFrameRateLast := r.1 }, r.2)
    else (s, r.2)
  else (s, [])

/-- The rate wave a full window tolerates. -/
def waveDelta (s : FrdInfo) : U32 := if about30 s then 50 else s.inFrameRateLast / 10 / 2

/-- The mean of the old rate, if there is one, and the new one. -/
def meanRate (s : FrdInfo) (nowRate : U32) : U32 :=
  if s.inFrameRate ≠ 0 then (nowRate + s.inFrameRate) / 2 else nowRate

/-- The estimate of a full window. -/
def fullWindow (s : FrdInfo) : FrdInfo × List Event :=
  let r := calNowRate s true
  -- an unsigned difference, then compared as a signed one
  let rateDiff := s.inFrameRate - r.1
  let b : FrdInfo × List Event :=
    if rateDiff.toInt > (waveDelta s).toInt then
      ({ changeInFrameRate s (meanRate s r.1) with inFrameRateLast := r.1 }, [.largeChange])
    else if s.inFrameRateLast = r.1 then
      if optmAlgAbs rateDiff > s.inFrameRateLast / 10 / 2 then (changeInFrameRate s (meanRate s r.1), [])
      else (changeInFrameRate s r.1, [])
    else ({ s with inFrameRateLast := r.1 }, [])
  let t := frdInfoReset1 invalid b.1
  (t.1, r.2 ++ b.2 ++ t.2)

/-- The branch for a rate about the same as before. -/
def stableBranch (s : FrdInfo) (nowRate : U32) : FrdInfo × List Event :=
  let r := reestimate (equeTime s nowRate)
  if r.1.nowPTSPtr = r.1.length - 1 then
    let t := fullWindow invalid r.1
    (t.1, r.2 ++ t.2)
  else ({ r.1 with nowPTSPtr := r.1.nowPTSPtr + 1 }, r.2)

/-- The time stamp goes into the window. -/
def store (s : FrdInfo) (pts : U32) : FrdInfo :=
  { s with inPTSSqn := Function.update s.inPTSSqn s.nowPTSPtr.toNat pts }

/-- A further time stamp. -/
def nextPts (s : FrdInfo) (pts : U32) : FrdInfo × List Event :=
  let s := store s pts
  let r := calNowRate s false
  let t :=
    if r.1 ≠ 0 then
      if jumped s r.1 then jumpBranch invalid s r.1 else stableBranch invalid s r.1
    else frdInfoReset1 invalid (unable s)
  (t.1, .index s.nowPTSPtr.toNat s.nowPTSPtr.toNat :: r.2 ++ t.2)

/-- A first time stamp. -/
def firstPts (s : FrdInfo) (pts : U32) : FrdInfo :=
  let s := frdInfoReset0 invalid (changeInFrameRate s 0)
  { s with
    inPTSSqn := Function.update s.inPTSSqn 0 pts, nowPTSPtr := 1, unableTime := 0
    inFrameRateLast := s.inFrameRate }

/-- The time stamp and the window. -/
def windowPts (s : FrdInfo) (pts : U32) : FrdInfo × List Event :=
  if s.inPTSSqn 0 ≠ invalid then nextPts invalid s pts else (firstPts invalid s pts, [])

/-- `OMX_OPTM_ALG_FrameRateDetect`. -/
def frameRateDetect (s : FrdInfo) (pts : U32) : FrdInfo × List Event :=
  let q := queWindow invalid s pts
  let r := windowPts invalid q.1 pts
  (if r.1.queStable = 3 ∧ r.1.inFrameRate = 0 then { r.1 with inFrameRate := r.1.queRate } else r.1,
    q.2 ++ r.2)

/-- The detector as a machine: one time stamp a step. -/
def step (s : FrdInfo) (pts : U32) : Option (FrdInfo × List Event) := some (frameRateDetect invalid s pts)

end

end HiSTB.Omxvdec
