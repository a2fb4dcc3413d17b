import Mathlib.Data.List.Basic

/-!
# `Avplay.CheckBuf` — the water levels of the stream buffers (`mpi_avplay.c`)

`AVPLAY_ProcCheckBuf` looks at the buffers of the two channels in each pass of the player's thread, tells the
application when the level of one changed, and tells the synchronisation. With a live stream (TS that does not come
from memory) nothing can hold the sender back, and a buffer that is full is emptied, or the video is thrown away for
a while.

All numbers are `HI_U32`, so the products are taken in 32 bits. What the other components answer in a pass is given
to it; a call that fails gives nothing. `AVPLAY_Reset` and `AVPLAY_ResetAudChn` are named in the result of the pass.
-/

namespace HiSTB.Avplay.CheckBuf

abbrev U32 := BitVec 32

/-- `AVPLAY_MIN_VID_SIZE`. -/
def minVidSize : Nat := 512 * 1024

/-- `AVPLAY_MAX_VID_SIZE`. -/
def maxVidSize : Nat := 64 * 1024 * 1024

/-! ## Levels -/

/-- `HI_UNF_AVPLAY_BUF_STATE_E`, and `SYNC_BUF_STATE_E`, to which it is cast. -/
inductive BufState
  | empty
  | low
  | normal
  | high
  | full
  deriving DecidableEq

inductive MediaChan
  | aud
  | vid

/-- The size of a buffer, and how much of it is used. -/
structure Fill where
  size : U32
  used : U32
  deriving DecidableEq

/-- The percentage as `AVPLAY_ProcCheckBuf` works it out. -/
def percent (f : Fill) : U32 := if f.size > 0 then f.used * 100 / f.size else 0

/-- `VDEC_FRMSTATUSINFO_S`. -/
structure FrmStatus where
  strmSize : U32
  strmInBps : U32
  decodedFrmNum : U32
  deriving DecidableEq

/-- `u32StrmTime` of `AVPLAY_CaclBufState`, in milliseconds. -/
def FrmStatus.strmTime (s : FrmStatus) : U32 := if s.strmInBps < 100 then 0 else s.strmSize * 1000 / s.strmInBps

/-- The frames that the sound decoder holds, and the time in the sound's output buffer. -/
structure AudInfo where
  frameNum : U32
  frameTime : U32
  bufTime : U32
  deriving DecidableEq

/-- What a pass reads: the channels and attributes of the player, and the answers of the other components.
    `portRam` is for `HI_UNF_DMX_PORT_MODE_RAM`, `overflowReset` for `HI_UNF_AVPLAY_OVERFLOW_RESET`, and `windowValid`
    says that there is a master window. -/
structure Pass where
  audEnable : Bool
  vidEnable : Bool
  streamTs : Bool
  portRam : Bool
  overflowReset : Bool
  windowValid : Bool
  audInfo : AudInfo
  adec : Option Fill
  dmxAud : Option Fill
  vdec : Option Fill
  dmxVid : Option Fill
  frmStatus : Option FrmStatus
  frameNumInBufQn : Option U32
  deriving DecidableEq

/-- The level of the video below `AVPLAY_ES_VID_LOW_PERCENT`, from the frames that wait for the window, those and the
    decoded ones together, and the time of the stream. -/
def lowState (waiting queued time : U32) : BufState :=
  if waiting ≤ 1 then .empty
  else if queued ≤ 5 then
    if time ≤ 80 then .empty else .low
  else if queued ≤ 10 then
    if time ≤ 40 then .empty
    else if time ≤ 80 then .low
    else .normal
  else
    if time ≤ 40 then .empty
    else if time ≤ 80 then .low
    else .normal

/-- `AVPLAY_CaclBufState`. -/
def caclBufState (p : Pass) (chn : MediaChan) (usedPercent : U32) : BufState :=
  match chn with
  | .aud =>
    if usedPercent ≥ 98 then .full
    else if usedPercent ≥ 85 ∧ usedPercent < 98 then .high
    else if usedPercent < 5 then
      let frmTime := p.audInfo.frameNum * p.audInfo.frameTime
      if usedPercent < 2 then
        if p.audInfo.bufTime + frmTime ≤ 150 then .empty else .low
      else
        if p.audInfo.bufTime + frmTime ≤ 150 then .empty
        else if p.audInfo.bufTime + frmTime ≤ 240 then .low
        else .normal
    else .normal
  | .vid =>
    if usedPercent ≥ 85 then .full
    else if usedPercent ≥ 70 ∧ usedPercent < 85 then .high
    else if usedPercent < 30 then
      if !p.windowValid then .low
      else
        match p.frmStatus, p.frameNumInBufQn with
        | some s, some n => lowState n (n + s.decodedFrmNum) s.strmTime
        | _, _ => .low
    else .normal

/-! ## The pass -/

/-- What a pass finds out about a channel: the percentage, the level, and the level for the synchronisation. -/
structure Look where
  percent : U32
  cur : BufState
  sync : BufState
  deriving DecidableEq

/-- The initial values. -/
def Look.init : Look := ⟨0, .empty, .normal⟩

def Look.ofFill (p : Pass) (chn : MediaChan) (f : Fill) : Look :=
  ⟨CheckBuf.percent f, caclBufState p chn (CheckBuf.percent f), caclBufState p chn (CheckBuf.percent f)⟩

/-- The buffers of the sound: the decoder's, and for TS the demultiplexer's with it. -/
def Pass.audFill (p : Pass) : Option Fill :=
  if p.audEnable then
    match p.adec with
    | none => none
    | some a =>
      if p.streamTs then p.dmxAud.map (fun d => ⟨d.size + a.size, d.used + a.used⟩) else some a
  else none

/-- The buffer of the video: the decoder's, or for TS the demultiplexer's. -/
def Pass.vidFill (p : Pass) : Option Fill :=
  if p.vidEnable then
    match p.vdec with
    | none => none
    | some v => if p.streamTs then p.dmxVid else some v
  else none

def audLook (p : Pass) : Look := (p.audFill.map (Look.ofFill p .aud)).getD .init

def vidLook (p : Pass) : Look := (p.vidFill.map (Look.ofFill p .vid)).getD .init

/-- `RealModeFlag`. -/
def Pass.realMode (p : Pass) : Bool := p.streamTs && !p.portRam

/-- The fields of `AVPLAY_S` that a pass writes. -/
structure State where
  vidDiscard : Bool
  preAudBufState : BufState
  preVidBufState : BufState
  audOverflowNum : U32
  vidOverflowNum : U32
  deriving DecidableEq

inductive Event
  | rngBufState (s : BufState)
  | audBufState (s : BufState)
  | vidBufState (s : BufState)
  deriving DecidableEq

/-- `SYNC_BUF_STATUS_S`. -/
structure SyncBufStatus where
  audBufPercent : U32
  audBufState : BufState
  vidBufPercent : U32
  vidBufState : BufState
  overflowDiscFrm : Bool
  deriving DecidableEq

/-- What a pass leaves and does: the events for the application in order, whether it calls `AVPLAY_ResetAudChn` and
    `AVPLAY_Reset`, and what it tells the synchronisation. -/
structure Out where
  state : State
  events : List Event
  resetAud : Bool
  reset : Bool
  sync : Option SyncBufStatus
  deriving DecidableEq

/-- The part of the pass that tells the application. -/
def notify (p : Pass) (s : State) : State × List Event :=
  let aud := (audLook p).cur
  let vid := (vidLook p).cur
  let audNew : Bool := p.audEnable && decide (aud ≠ s.preAudBufState)
  let vidNew : Bool := p.vidEnable && decide (vid ≠ s.preVidBufState)
  ({ s with
      preAudBufState := if audNew then aud else s.preAudBufState
      preVidBufState := if vidNew then vid else s.preVidBufState },
    (if audNew then (if !p.vidEnable then [.rngBufState aud] else []) ++ [.audBufState aud] else []) ++
      (if vidNew then [.rngBufState vid, .vidBufState vid] else []))

/-- The level that the synchronisation is told of a stream from memory. -/
def memState (s : BufState) : BufState := if s = .low ∨ s = .empty then s else .normal

/-- `AVPLAY_ProcCheckBuf`. -/
def procCheckBuf (p : Pass) (s₀ : State) : Out :=
  let (s, events) := notify p s₀
  let aud := audLook p
  let vid := vidLook p
  if p.realMode then
    let audFull : Bool := decide (aud.cur = .full)
    let s := if audFull then { s with audOverflowNum := s.audOverflowNum + 1 } else s
    let (s, vidReset, resetAud) : State × Bool × Bool :=
      if s.vidDiscard then
        if vid.percent ≤ 60 then ({ s with vidDiscard := false }, false, false) else (s, false, false)
      else if vid.cur = .full then
        if p.overflowReset then ({ s with vidOverflowNum := s.vidOverflowNum + 1 }, true, false)
        else ({ s with vidDiscard := true, vidOverflowNum := s.vidOverflowNum + 1 }, false, true)
      else (s, false, false)
    if audFull || vidReset then ⟨{ s with vidDiscard := false }, events, resetAud, true, none⟩
    else ⟨s, events, resetAud, false, some ⟨aud.percent, aud.sync, vid.percent, vid.sync, s.vidDiscard⟩⟩
  else
    ⟨s, events, false, false,
      some ⟨aud.percent, memState aud.sync, vid.percent, memState vid.sync, s.vidDiscard⟩⟩

end HiSTB.Avplay.CheckBuf
