import HiSTB.Avplay.Audio

/-!
# `Avplay.Video` — decoded frame packages on their way to the windows

`AVPLAY_ProcVdecToVo` of `mpi_avplay.c` and the operations that drop the package it holds. The decoder hands out
packages with one frame for each of its ports, and each port belongs to an attached window: the master, a slave, or a
virtual window. A pass fetches a package when none is held, offers its frames to the virtual windows once, and to the
master and the slaves as often as the frame rate asks.

* `Windows`, `FramePackage` — the attached windows and what the decoder hands out;
* `VidState`, `VidPass` — the package that is held, and what the other components answer in one pass;
* `procFrmToVirWin`, `procVidPlay`, `procVidQuickOutput`, `procVidRepeat`, `procVidDiscard` — the deliveries;
* `procVdecToVo` — one pass;
* `relAllChnFrame`, `avplayStop`, `avplayReset`, `avplaySeek`, `avplayAttachWindow` — the operations that drop the
  package.
-/

namespace HiSTB.Avplay

/-- `AVPLAY_VID_PORT_AND_WIN_S`. -/
structure FrmChn where
  hWindow : Handle
  hPort : Handle
  deriving DecidableEq

/-- `MasterFrmChn`, `SlaveFrmChn` and `VirFrmChn`, without the entries that are `HI_INVALID_HANDLE`. A window is
    attached once and has a port of its own. -/
structure Windows where
  master : Option FrmChn
  slaves : List FrmChn
  virs : List FrmChn
  windows_nodup : ((master.toList ++ slaves ++ virs).map FrmChn.hWindow).Nodup
  ports_nodup : ((master.toList ++ slaves ++ virs).map FrmChn.hPort).Nodup
  ports_valid : ∀ c ∈ master.toList ++ slaves ++ virs, c.hPort ≠ 0xffffffff

/-- All channels, in the order in which `AVPLAY_GetWindowByPort` looks through them. -/
def Windows.chns (W : Windows) : List FrmChn := W.master.toList ++ W.slaves ++ W.virs

/-- `AVPLAY_GetWindowByPort`. -/
def Windows.getWindowByPort (W : Windows) (hPort : Handle) : Option Handle :=
  (W.chns.find? (fun c => c.hPort = hPort)).map FrmChn.hWindow

/-- `HI_DRV_VDEC_FRAME_S`, the picture by its `u32FrameIndex`. -/
structure Frame where
  hport : Handle
  u32FrameIndex : BitVec 32
  deriving DecidableEq

/-- `HI_DRV_VIDEO_FRAME_PACKAGE_S`; the array may hold more than the package. -/
structure FramePackage where
  u32FrmNum : Nat
  stFrame : List Frame
  deriving DecidableEq

def FramePackage.frames (pack : FramePackage) : List Frame := pack.stFrame.take pack.u32FrmNum

/-- The frames carry distinct ports of the attached windows. -/
def Windows.Fits (W : Windows) (pack : FramePackage) : Prop :=
  (pack.frames.map Frame.hport).Nodup ∧ ∀ f ∈ pack.frames, f.hport ∈ W.chns.map FrmChn.hPort

instance (W : Windows) (pack : FramePackage) : Decidable (W.Fits pack) :=
  haveI : Decidable (∀ f ∈ pack.frames, f.hport ∈ W.chns.map FrmChn.hPort) := List.decidableBAll _ _
  inferInstanceAs (Decidable (_ ∧ _))

/-- What `HI_MPI_WIN_QueueFrame` and `HI_MPI_WIN_QueueUselessFrame` return. -/
inductive VoRet
  | success
  | bufqueFull
  | failed
  deriving DecidableEq

/-- The part of `AVPLAY_S` about the package; `procData` is `AvplayProcDataFlag[AVPLAY_PROC_VDEC_VO]`. -/
structure VidState where
  procData : Bool
  bSendedFrmToVirWin : Bool
  curFrmPack : FramePackage
  lstFrmPack : FramePackage
  frcNeedPlayCnt : BitVec 32
  frcCurPlayCnt : BitVec 32
  syncProc : SyncProc
  deriving DecidableEq

/-- No package fetched yet. -/
def vidInit : VidState := ⟨false, false, ⟨0, []⟩, ⟨0, []⟩, 0, 0, .procPlay⟩

/-- One pass as the other components see it: the package to be fetched, the count that the frame rate control asks for
    if it is enabled, the decision of the sync judge, the step mode, and what each window answers to a frame and to a
    useless one. -/
structure VidPass where
  vidEnable : Bool
  curStatus : Status
  received : Option FramePackage
  lowDelay : Bool
  frc : Option (BitVec 32)
  judge : SyncProc
  stepMode : Bool
  stepPlay : Bool
  queue : Handle → VoRet
  queueUseless : Handle → VoRet

/-- What happens to a frame: it comes with a package, a window takes it, to be shown or as useless, a window is sent a
    frame of the last package once more, or it goes back to the decoder. -/
inductive VidEvent
  | received (pack : FramePackage)
  | queued (w : Handle) (f : Frame)
  | useless (w : Handle) (f : Frame)
  | repeated (w : Handle) (f : Frame)
  | released (f : Frame)
  deriving DecidableEq

variable (W : Windows) (s : VidState) (p : VidPass)

/-- The windows among `chns` whose frame is in the package, as the loops over frames and channels meet them. -/
def Windows.served (chns : List FrmChn) (frames : List Frame) : List (Handle × Frame) :=
  frames.flatMap fun f =>
    chns.filterMap fun c => if W.getWindowByPort f.hport = some c.hWindow then some (c.hWindow, f) else none

/-- The master's frame in the package. -/
def Windows.masterFrame (frames : List Frame) : Option (Handle × Frame) :=
  W.master.bind fun c =>
    (frames.find? fun f => W.getWindowByPort f.hport = some c.hWindow).map fun f => (c.hWindow, f)

/-- A frame that is not to be shown: the window takes it as useless, or it is released. -/
def giveUp (queueUseless : Handle → VoRet) (w : Handle) (f : Frame) : List VidEvent :=
  if queueUseless w = .success then [.useless w f] else [.released f]

/-- The branch of `AVPLAY_ProcFrmToVirWin` without a master, for one frame. -/
def sendVir (r : VidState × List VidEvent) (wf : Handle × Frame) : VidState × List VidEvent :=
  match p.queue wf.1 with
  | .success => ({ r.1 with procData := false }, r.2 ++ [.queued wf.1 wf.2])
  | .failed =>
    ({ r.1 with procData := false }, r.2 ++ if p.queueUseless wf.1 = .success then [.useless wf.1 wf.2] else [])
  | .bufqueFull => ({ r.1 with bSendedFrmToVirWin := false }, r.2)

/-- `AVPLAY_ProcFrmToVirWin`. -/
def procFrmToVirWin : VidState × List VidEvent :=
  let s := { s with bSendedFrmToVirWin := true }
  match W.master with
  | some _ =>
    (s, (W.served W.virs s.curFrmPack.frames).flatMap fun wf =>
      if p.queue wf.1 = .success then [.queued wf.1 wf.2]
      else if p.queueUseless wf.1 = .success then [.useless wf.1 wf.2] else [])
  | none => (W.served W.virs s.curFrmPack.frames).foldl (sendVir p) (s, [])

/-- `AVPLAY_ProcVidFrc`. -/
def procVidFrc : VidState :=
  let s := { s with frcNeedPlayCnt := 1, frcCurPlayCnt := 0 }
  if p.lowDelay = true ∨ W.masterFrame s.curFrmPack.frames = none then s
  else { s with frcNeedPlayCnt := p.frc.getD 1 }

/-- `AVPLAY_ProcVidSync`. -/
def procVidSync : VidState :=
  if p.lowDelay = true ∨ W.masterFrame s.curFrmPack.frames = none then { s with syncProc := .procPlay }
  else { s with syncProc := p.judge }

/-- The loop of `AVPLAY_ProcVidPlay` and `AVPLAY_ProcVidQuickOutput` over the slaves: a frame that a slave does not take
    is given up while the count is one of `early`. -/
def toSlaves (early : BitVec 32 → Bool) : List VidEvent :=
  (W.served W.slaves s.curFrmPack.frames).flatMap fun wf =>
    if p.queue wf.1 = .success then [.queued wf.1 wf.2]
    else if early s.frcCurPlayCnt then giveUp p.queueUseless wf.1 wf.2
    else []

/-- `AVPLAY_ProcVidPlay` and `AVPLAY_ProcVidQuickOutput` but for the counts at which a slave's frame is given up. -/
def queueOut (early : BitVec 32 → Bool) : VidState × List VidEvent :=
  match W.masterFrame s.curFrmPack.frames with
  | none => (s, [])
  | some (w, f) =>
    match p.queue w with
    | .success =>
      let s := { s with lstFrmPack := s.curFrmPack, frcCurPlayCnt := s.frcCurPlayCnt + 1 }
      (s, .queued w f :: toSlaves W s p early)
    | .failed =>
      ({ s with procData := false }, (if s.frcCurPlayCnt = 0 then [.released f] else []) ++ toSlaves W s p early)
    | .bufqueFull => (s, [])

/-- `AVPLAY_ProcVidPlay`: the count may have become 1 because the master took the frame. -/
def procVidPlay : VidState × List VidEvent := queueOut W s p (fun n => n = 0 || n = 1)

/-- `AVPLAY_ProcVidQuickOutput`. -/
def procVidQuickOutput : VidState × List VidEvent := queueOut W s p (fun n => n = 0)

/-- `AVPLAY_ProcVidRepeat`: the frames of the last package at the same places and ports. -/
def procVidRepeat : List VidEvent :=
  let pairs := s.curFrmPack.frames.zip s.lstFrmPack.stFrame
  match W.masterFrame s.curFrmPack.frames with
  | none => []
  | some (w, f) =>
    match pairs.find? (fun q => q.1 = f) with
    | none => []
    | some (_, l) =>
      if s.lstFrmPack.u32FrmNum = 0 ∨ f.hport ≠ l.hport ∨ p.queue w ≠ .success then []
      else
        .repeated w l :: pairs.flatMap fun q =>
          W.slaves.flatMap fun c =>
            if W.getWindowByPort q.1.hport = some c.hWindow ∧ q.1.hport = q.2.hport ∧ p.queue c.hWindow = .success then
              [.repeated c.hWindow q.2]
            else []

/-- `AVPLAY_ProcVidDiscard`. -/
def procVidDiscard : VidState × List VidEvent :=
  match W.masterFrame s.curFrmPack.frames with
  | none => (s, [])
  | some (w, f) =>
    if p.queueUseless w = .bufqueFull then (s, [])
    else
      ({ s with frcCurPlayCnt := s.frcNeedPlayCnt },
        giveUp p.queueUseless w f ++
          (W.served W.slaves s.curFrmPack.frames).flatMap fun wf => giveUp p.queueUseless wf.1 wf.2)

/-- `HI_MPI_VDEC_ReceiveFrame`, when no package is held, and what a new package starts with. -/
def receiveVid : VidState × List VidEvent :=
  match s.procData, p.received with
  | false, some pack =>
    (procVidFrc W { s with curFrmPack := pack, bSendedFrmToVirWin := false, procData := true } p, [.received pack])
  | _, _ => (s, [])

/-- The frames for the virtual windows, unless they have been sent. -/
def sendToVir : VidState × List VidEvent :=
  if s.bSendedFrmToVirWin then (s, []) else procFrmToVirWin W s p

/-- The delivery that `VidOpt.SyncProc` asks for. -/
def procSync : VidState × List VidEvent :=
  match s.syncProc with
  | .procPlay => procVidPlay W s p
  | .procRepeat => (s, procVidRepeat W s p)
  | .procDiscard => procVidDiscard W s p
  | .procQuickoutput => procVidQuickOutput W s p

/-- The end of `AVPLAY_ProcVdecToVo`, outside the step mode. -/
def deliver : VidState × List VidEvent :=
  let s := if s.frcCurPlayCnt = 0 then procVidSync W s p else s
  let r := if s.frcCurPlayCnt < s.frcNeedPlayCnt ∨ s.frcNeedPlayCnt = 0 then procSync W s p else (s, [])
  if r.1.frcNeedPlayCnt ≤ r.1.frcCurPlayCnt then ({ r.1 with procData := false }, r.2) else r

/-- The end of `AVPLAY_ProcVdecToVo` in step mode. -/
def deliverStep : VidState × List VidEvent :=
  if p.stepPlay then
    let r := procVidPlay W s p
    ({ r.1 with procData := false }, r.2)
  else (s, [])

/-- `AVPLAY_ProcVdecToVo`. -/
def procVdecToVo : VidState × List VidEvent :=
  if p.vidEnable = false ∨ p.curStatus = .pause then (s, [])
  else
    let r := receiveVid W s p
    if r.1.procData = false then r
    else
      let v := sendToVir W r.1 p
      let q := if p.stepMode then deliverStep W v.1 p else deliver W v.1 p
      (q.1, r.2 ++ v.2 ++ q.2)

/-- One pass as a step; the decoder hands out packages for the attached windows only. -/
def vidStep : Option (VidState × List VidEvent) :=
  if ∀ pack ∈ p.received, W.Fits pack then some (procVdecToVo W s p) else none

/-! ## Dropping the package -/

/-- `AVPLAY_RelAllVirChnFrame`. -/
def relAllVirChnFrame (queueUseless : Handle → VoRet) : List VidEvent :=
  (W.served W.virs s.curFrmPack.frames).flatMap fun wf => giveUp queueUseless wf.1 wf.2

/-- `AVPLAY_RelAllChnFrame`. -/
def relAllChnFrame (queueUseless : Handle → VoRet) : VidState × List VidEvent :=
  match W.master with
  | none => (s, relAllVirChnFrame W s queueUseless)
  | some _ =>
    ({ s with lstFrmPack := ⟨0, []⟩ },
      (W.masterFrame s.curFrmPack.frames).toList.flatMap (fun wf => giveUp queueUseless wf.1 wf.2) ++
        (W.served W.slaves s.curFrmPack.frames).flatMap fun wf => giveUp queueUseless wf.1 wf.2)

/-- The package goes, if one is held. -/
def dropPackage (queueUseless : Handle → VoRet) : VidState × List VidEvent :=
  if s.procData then
    let r := relAllChnFrame W s queueUseless
    ({ r.1 with procData := false }, r.2)
  else (s, [])

/-- The part of `AVPLAY_ResetProcFlag` about the package. -/
def resetProcFlag : VidState := { s with procData := false, bSendedFrmToVirWin := false }

/-- `AVPLAY_Stop`. -/
def avplayStop (queueUseless : Handle → VoRet) : VidState × List VidEvent :=
  let r := dropPackage W s queueUseless
  (resetProcFlag r.1, r.2)

/-- `AVPLAY_Reset`: `stopVid` and `others` tell whether `AVPLAY_StopVidChn` and whether all further calls succeed. -/
def avplayReset (vidEnable stopVid others : Bool) (queueUseless : Handle → VoRet) : VidState × List VidEvent :=
  if vidEnable = true ∧ stopVid = false then (s, [])
  else
    let r := if vidEnable then dropPackage W s queueUseless else (s, [])
    if others then (resetProcFlag r.1, r.2) else r

/-- The calls on which `AVPLAY_Seek` depends before it comes to the package. -/
structure SeekCall where
  audEnable : Bool
  getStatus : Bool
  inAoBuf : Bool
  syncPause : Bool
  vidEnable : Bool
  dropStream : Bool

/-- `AVPLAY_Seek`. -/
def avplaySeek (c : SeekCall) : VidState :=
  if c.audEnable = true ∧ (c.getStatus = false ∨ c.inAoBuf = true) then s
  else if c.syncPause = false then s
  else if c.vidEnable = true ∧ c.dropStream = true then { s with procData := false }
  else s

/-- The start of `AVPLAY_AttachWindow` and `AVPLAY_DetachWindow`. -/
def freeHeld : VidState × List VidEvent :=
  if s.procData then
    ({ s with procData := false }, (s.curFrmPack.frames.filter fun f => f.hport ≠ 0xffffffff).map .released)
  else (s, [])

/-- The package and the attached windows. -/
structure VidSys where
  windows : Windows
  vid : VidState

/-- An operation that may find a package held; after `AVPLAY_AttachWindow` or `AVPLAY_DetachWindow` some windows are
    attached. -/
inductive VidOp
  | attachWindow (windows : Windows)
  | detachWindow (windows : Windows)
  | stop (queueUseless : Handle → VoRet)
  | reset (vidEnable stopVid others : Bool) (queueUseless : Handle → VoRet)
  | seek (c : SeekCall)

/-- What an operation does to the package and the windows. -/
def vidOp (y : VidSys) : VidOp → VidSys × List VidEvent
  | .attachWindow W | .detachWindow W => (⟨W, (freeHeld y.vid).1⟩, (freeHeld y.vid).2)
  | .stop u => (⟨y.windows, (avplayStop y.windows y.vid u).1⟩, (avplayStop y.windows y.vid u).2)
  | .reset vidEnable stopVid others u =>
    let r := avplayReset y.windows y.vid vidEnable stopVid others u
    (⟨y.windows, r.1⟩, r.2)
  | .seek c => (⟨y.windows, avplaySeek y.vid c⟩, [])

/-- A pass of the data thread or an operation. -/
inductive VidCall
  | pass (p : VidPass)
  | op (o : VidOp)

/-- One call. -/
def sysStep (y : VidSys) : VidCall → Option (VidSys × List VidEvent)
  | .pass p => (vidStep y.windows y.vid p).map fun r => (⟨y.windows, r.1⟩, r.2)
  | .op o => some (vidOp y o)

end HiSTB.Avplay
