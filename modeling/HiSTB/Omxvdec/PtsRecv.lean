import HiSTB.Omxvdec.FrameRate

/-!
# `Omxvdec.PtsRecv` — recovery of the presentation times (`drv_omxvdec_pts_recv.c`)

Frames come with a source PTS or without one. From the distance of two source PTS and the number of frames in
between a frame time is calculated; a frame without a source PTS gets the last one plus the frame times since.

The functions are on one record of `s_stPtsRecChan`; a handle without a record is refused by all of them.
`HI_INVALID_PTS` and `HI_INVALID_TIME` are parameters. `OPTM_ALG_ABS` of an unsigned difference is the difference.

Left out: the messages, and the two functions that only read, `OMX_PTSREC_GetFrmRate` and
`OMX_PTSREC_GetInterPtsDelta`.
-/

namespace HiSTB.Omxvdec.PtsRecv

/-- `PTSREC_CHAN_STATUS_E`, in this order. -/
inductive Status
  | inited
  | stop
  | start
  deriving DecidableEq

/-- `HI_FRMRATE_TYPE_E`. -/
inductive FrmRateType
  | pts
  | stream
  | user
  | userPts
  | butt
  deriving DecidableEq

/-- `PTSREC_CHAN_INFO_S`. -/
structure PtsChan where
  status : Status
  lastSrcPts : U32
  lastSrcFrmIdx : U32
  frameNum : U32
  frameTimeCnt : U32
  lastCalcFrmTime : U32
  calcFrameTime : U32
  setFrameTime : U32
  gesFrameTime : U32
  interPtsDelta : U32
  frmRateType : FrmRateType
  ptsInfo : FrdInfo

/-- `IMAGE`, as far as it is read and written here; `rwzb` is `optm_inf.Rwzb`. -/
structure Image where
  srcPts : BitVec 64
  imageWidth : U32
  imageHeight : U32
  rwzb : U32
  frameNum : U32
  pts : BitVec 64
  frameRate : U32

/-- `HI_FRMRATE_PARAM_S`. -/
structure FrmRateParam where
  frmRateType : FrmRateType
  fpsInteger : U32
  fpsDecimal : U32

/-- The functions of the interface. -/
inductive Call
  | init
  | alloc
  | free
  | start
  | stop
  | reset
  | setFrmRate (p : FrmRateParam)
  | calcStamp (im : Image)

/-- What `OMX_PTSREC_CalcStamp` leaves and returns, with the effects of the frame-rate detection. -/
structure Stamped where
  chan : PtsChan
  image : Image
  pts : U32
  events : List Event

def PTS_REC_MAX_FRAMERATE : U32 := 60
def PTS_MAX_VALUE : U32 := 0x5B05B05
def PTS_MAX_PASSTIME : U32 := 120 * 1000
def FRMTIME_SERIES_CNT : U32 := 2
def FRMTIME_MAX_JUMP : U32 := 1000

section

variable (invalidPts invalidTime : U32)

/-! ## Starting and stopping -/

/-- A record of `s_stPtsRecChan` before `OMX_PTSREC_Init`. -/
def PtsChan.zero : PtsChan where
  status := .inited
  lastSrcPts := 0
  lastSrcFrmIdx := 0
  frameNum := 0
  frameTimeCnt := 0
  lastCalcFrmTime := 0
  calcFrameTime := 0
  setFrameTime := 0
  gesFrameTime := 0
  interPtsDelta := 0
  frmRateType := .pts
  ptsInfo := ⟨fun _ => 0, 0, 0, 0, 0, 0, 0, 0, 0, 0, 0, 0⟩

/-- `PTSREC_InitParam`. -/
def initParam (s : PtsChan) : PtsChan :=
  { s with
    lastSrcPts := invalidPts
    lastSrcFrmIdx := -1
    frameNum := 0
    frameTimeCnt := 0
    lastCalcFrmTime := invalidTime
    calcFrameTime := invalidTime
    gesFrameTime := invalidTime
    interPtsDelta := 0
    ptsInfo := { s.ptsInfo with u320Pts := invalidPts, queCnt := 0, queStable := 0 } }

/-- `OMX_OPTM_ALG_FrdInfo_Reset` of the record's window. -/
def resetInfo (s : PtsChan) : PtsChan := { s with ptsInfo := frdInfoReset0 invalidPts s.ptsInfo }

/-- The record after `OMX_PTSREC_Init`. -/
def ptsrecInit (s : PtsChan) : PtsChan :=
  let t := resetInfo invalidPts (initParam invalidPts invalidTime
    { s with status := .inited, setFrameTime := invalidTime })
  { t with
    ptsInfo := { t.ptsInfo with u320Pts := invalidPts, queCnt := 0, queStable := 0 }
    frmRateType := .pts }

/-- `OMX_PTSREC_Alloc`, and whether it returns `HI_SUCCESS`. -/
def ptsrecAlloc (s : PtsChan) : PtsChan × Bool :=
  if s.status ≠ .inited then (s, false)
  else (resetInfo invalidPts (initParam invalidPts invalidTime
    { s with status := .stop, setFrameTime := invalidTime }), true)

/-- `OMX_PTSREC_Free`. -/
def ptsrecFree (s : PtsChan) : PtsChan := { s with status := .inited }

/-- `OMX_PTSREC_Start`, and whether it returns `HI_SUCCESS`. -/
def ptsrecStart (s : PtsChan) : PtsChan × Bool :=
  if s.status = .inited then (s, false) else (initParam invalidPts invalidTime { s with status := .start }, true)

/-- `OMX_PTSREC_Stop`, and whether it returns `HI_SUCCESS`. -/
def ptsrecStop (s : PtsChan) : PtsChan × Bool :=
  if s.status = .inited then (s, false) else ({ s with status := .stop }, true)

/-- `OMX_PTSREC_Reset`, and whether it returns `HI_SUCCESS`. -/
def ptsrecReset (s : PtsChan) : PtsChan × Bool :=
  if s.status = .inited then (s, false)
  else if s.status = .start then (s, false)
  else (resetInfo invalidPts (initParam invalidPts invalidTime s), true)

/-- `OMX_PTSREC_SetFrmRate`, and whether it returns `HI_SUCCESS`. -/
def ptsrecSetFrmRate (s : PtsChan) (p : FrmRateParam) : PtsChan × Bool :=
  if s.status = .inited then (s, false)
  else if p.frmRateType = .user ∨ p.frmRateType = .userPts then
    let divNum := p.fpsInteger * 1000 + p.fpsDecimal
    if divNum > PTS_REC_MAX_FRAMERATE * 1000 ∨ divNum = 0 then ({ s with frmRateType := p.frmRateType }, false)
    else ({ s with frmRateType := p.frmRateType, setFrameTime := 1000000000 / divNum }, true)
  else ({ s with frmRateType := p.frmRateType, setFrameTime := -1 }, true)

/-! ## A frame with a source PTS -/

/-- The time since the last source PTS; a smaller one is a PTS that has come round. -/
def ptsPass (s : PtsChan) (src : U32) : U32 :=
  if src ≥ s.lastSrcPts then src - s.lastSrcPts else PTS_MAX_VALUE - s.lastSrcPts + src

/-- The frames since the last source PTS. -/
def numPass (s : PtsChan) (frameNum : U32) : U32 :=
  if s.lastSrcPts ≠ invalidPts then frameNum - s.lastSrcFrmIdx else 0

/-- A frame time has been measured. -/
def measure (s : PtsChan) (time : U32) : PtsChan :=
  let t :=
    if s.calcFrameTime ≠ invalidTime then
      let cnt := (if time - s.lastCalcFrmTime > FRMTIME_MAX_JUMP then 0 else s.frameTimeCnt) + 1
      if cnt ≥ FRMTIME_SERIES_CNT then { s with calcFrameTime := time, frameTimeCnt := FRMTIME_SERIES_CNT }
      else { s with frameTimeCnt := cnt }
    else { s with calcFrameTime := time, frameTimeCnt := s.frameTimeCnt + 1 }
  { t with lastCalcFrmTime := time, interPtsDelta := t.calcFrameTime / 2000 }

/-- `OMX_PTSREC_CalcStamp` where the source PTS is valid. -/
def srcStamp (s : PtsChan) (src : U32) (frameNum : U32) : PtsChan :=
  let t :=
    if s.lastSrcPts ≠ invalidPts then
      if numPass invalidPts s frameNum ≠ 0 then
        if ptsPass s src ≤ PTS_MAX_PASSTIME then
          measure invalidTime s (ptsPass s src * 1000 / numPass invalidPts s frameNum)
        else if src ≥ s.lastSrcPts then { s with interPtsDelta := 20 }
        else { s with interPtsDelta := -20 }
      else { s with interPtsDelta := 20 }
    else { s with interPtsDelta := 20 }
  { t with lastSrcPts := src, lastSrcFrmIdx := frameNum }

/-! ## A frame without -/

/-- `u32GesFrameTime`, guessed from the size of the picture. -/
def guessTime (s : PtsChan) (im : Image) : PtsChan :=
  if s.gesFrameTime = invalidTime then
    { s with
      gesFrameTime :=
        if im.imageWidth ≤ 720 ∧ im.imageHeight ≤ 480 then 33333
        else if im.imageWidth ≤ 720 ∧ im.imageHeight ≤ 576 then 40000
        else 40000 }
  else s

/-- `u32FrameTime`. -/
def chooseTime (s : PtsChan) (im : Image) : PtsChan × U32 :=
  if s.frmRateType = .user then
    if s.setFrameTime ≠ invalidTime then (s, s.setFrameTime)
    else if s.calcFrameTime ≠ invalidTime then (s, s.calcFrameTime)
    else (guessTime invalidTime s im, (guessTime invalidTime s im).gesFrameTime)
  else
    if s.calcFrameTime ≠ invalidTime then (s, s.calcFrameTime)
    else if s.setFrameTime ≠ invalidTime then (s, s.setFrameTime)
    else (guessTime invalidTime s im, (guessTime invalidTime s im).gesFrameTime)

/-- `OMX_PTSREC_CalcStamp` where the source PTS is invalid, and the stamp. -/
def recoverStamp (s : PtsChan) (im : Image) (frameNum : U32) : PtsChan × U32 :=
  if s.lastSrcPts ≠ invalidPts then
    let r := chooseTime invalidTime s im
    ({ r.1 with interPtsDelta := r.2 / 2000 },
      r.1.lastSrcPts + r.2 * numPass invalidPts s frameNum / 1000)
  else ({ s with interPtsDelta := 0 }, invalidPts)

/-! ## Stamping -/

/-- `PTSREC_FrameRateDetect`. -/
def detect (s : PtsChan) (im : Image) : PtsChan × Image × List Event :=
  if im.rwzb > 0 ∨ s.frmRateType = .stream ∨ s.frmRateType = .user then (s, im, [])
  else
    let r := frameRateDetect invalidPts s.ptsInfo (im.pts.setWidth 32)
    ({ s with ptsInfo := r.1 }, { im with frameRate := r.1.inFrameRate * 1024 / 10 }, r.2)

/-- The record and the stamp before the detection. -/
def stampFrame (s : PtsChan) (im : Image) : PtsChan × U32 :=
  let src := im.srcPts.setWidth 32
  let t := { s with frameNum := s.frameNum + 1 }
  if src ≠ invalidPts then (srcStamp invalidPts invalidTime t src t.frameNum, src)
  else recoverStamp invalidPts invalidTime t im t.frameNum

/-- `OMX_PTSREC_CalcStamp`; `none` is the failure of a record that is not started. -/
def calcStamp (s : PtsChan) (im : Image) : Option Stamped :=
  if s.status ≠ .start then none
  else
    let r := stampFrame invalidPts invalidTime s im
    let d := detect invalidPts r.1 { im with frameNum := s.frameNum + 1, pts := r.2.setWidth 64 }
    some ⟨d.1, d.2.1, r.2, d.2.2⟩

/-- One call, with the effects of the frame-rate detection. -/
def step (s : PtsChan) : Call → Option (PtsChan × List Event)
  | .init => some (ptsrecInit invalidPts invalidTime s, [])
  | .alloc => some ((ptsrecAlloc invalidPts invalidTime s).1, [])
  | .free => some (ptsrecFree s, [])
  | .start => some ((ptsrecStart invalidPts invalidTime s).1, [])
  | .stop => some ((ptsrecStop s).1, [])
  | .reset => some ((ptsrecReset invalidPts invalidTime s).1, [])
  | .setFrmRate p => some ((ptsrecSetFrmRate s p).1, [])
  | .calcStamp im =>
    match calcStamp invalidPts invalidTime s im with
    | none => some (s, [])
    | some r => some (r.chan, r.events)

/-- The stamps of frames that follow each other. -/
def stamps : PtsChan → List Image → List U32
  | _, [] => []
  | s, im :: ims =>
    match calcStamp invalidPts invalidTime s im with
    | none => []
    | some r => r.pts :: stamps r.chan ims

end

end HiSTB.Omxvdec.PtsRecv
