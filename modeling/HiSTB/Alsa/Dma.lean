import HiSTB.Lib.Run

/-!
# `Alsa.Dma` — playback in the ALSA DMA driver

`hiaiao_dma.c` in the build with high resolution timers and without mute frames. The buffer is played period by period:
`hi_dma_trigger` leaves a command for the work item `CmdIoTask`, which starts the audio track and sends the first
period; from then on a timer sends one period at every expiry.

* `AoHwParam`, `Device` — what is fixed between `hi_dma_open` and `hi_dma_close`;
* `HiaudioData` — what the trigger, the work item and the timer share;
* `hiDmaPrepare`, `hiDmaTrigger`, `hiDmaPointer`, `sndPeroidCallback`, `cmdIoTask` — the functions;
* `step` — their interleavings: the work item runs from one call into the track to the next.

The calls into the audio track return what they like. `snd_pcm_period_elapsed` may find an underrun and trigger a
stop before it returns.
-/

namespace HiSTB.Alsa

/-- The part of `stAoHwParam` that playback reads, within the limits of `ao_hardware`; `frameBits` is
    `runtime->frame_bits`. -/
structure AoHwParam where
  periods : BitVec 32
  periodSize : Nat
  periodBytes : BitVec 32
  frameBits : Nat
  periods_min : 2 ≤ periods.toNat
  periods_max : periods.toNat ≤ 16
  periodBytes_min : 0x200 ≤ periodBytes.toNat
  periodBytes_max : periodBytes.toNat ≤ 0x2000
  frameBits_pos : 0 < frameBits
  periodBytes_eq : periodBytes.toNat * 8 = periodSize * frameBits

/-- No track. -/
def INITIAL_VALUE : BitVec 32 := 0xffffffff

/-- An open stream: `hi_dma_open` fails without a track. -/
structure Device extends AoHwParam where
  u32TrackId : BitVec 32
  opened : u32TrackId ≠ INITIAL_VALUE

/-- `u32Cmd`; `hi_dma_open` leaves no command. -/
inductive Cmd
  | none
  | start
  | stop
  deriving DecidableEq

/-- Where the work item stands: in which call, or not running. -/
inductive Task
  | idle
  | trackStart
  | trackFlush
  | sendData
  | timerDestory
  | trackStop
  deriving DecidableEq

/-- `struct hiaudio_data`. `hrt` tells whether the timer is armed and `work` whether the work item is pending; a pending
    work item may be running for an earlier command. -/
structure HiaudioData where
  u32SendTryCnt : BitVec 32
  u32HadSent : BitVec 32
  u32DiscardSent : BitVec 32
  u32HwPointer : BitVec 32
  bTriggerStartOK : Bool
  atmTrackState : Bool
  u32Cmd : Cmd
  hrt : Bool
  work : Bool
  task : Task
  deriving DecidableEq

/-- After `hi_dma_open`. -/
def hiDmaOpen : HiaudioData :=
  ⟨0, 0, 0, 0, true, false, .none, false, false, .idle⟩

/-- What a call into the audio track returns. -/
inductive Ret
  | success
  | outBufFull
  | failed
  deriving DecidableEq

/-- The commands of `hi_dma_trigger`. -/
inductive Trigger
  | start
  | stop
  | pausePush
  | pauseRelease
  | suspend
  | resume
  | other
  deriving DecidableEq

/-- What happens to the stream: it is prepared, a trigger leaves a command, the track is told to start or stop, the
    period at an offset of the DMA buffer is sent, or passed over and counted all the same. -/
inductive Event
  | prepared
  | command (c : Cmd)
  | started
  | stopped
  | sent (offset : BitVec 32)
  | discarded (offset : BitVec 32)
  deriving DecidableEq

variable (d : Device) (s : HiaudioData)

/-- Where period `u32HwPointer` begins in the DMA buffer. -/
def AoHwParam.offset (hw : AoHwParam) (u32HwPointer : BitVec 32) : BitVec 32 := u32HwPointer * hw.periodBytes

/-- One more period is done with. -/
def count : HiaudioData :=
  { s with u32HadSent := s.u32HadSent + 1, u32HwPointer := (s.u32HadSent + 1) % d.periods }

def hiDmaPrepare : HiaudioData × List Event :=
  ({ s with
      u32SendTryCnt := 0
      u32HadSent := 0
      u32DiscardSent := 0
      bTriggerStartOK := true
      u32HwPointer := 0
      atmTrackState := false }, [.prepared])

/-- `hi_dma_trigger`; `queue_work` does nothing for a work item that is pending already. -/
def hiDmaTrigger (cmd : Trigger) : HiaudioData × List Event :=
  match cmd with
  | .resume | .start | .pauseRelease => ({ s with u32Cmd := .start, work := true }, [.command .start])
  | .suspend | .stop | .pausePush =>
    ({ s with atmTrackState := false, u32Cmd := .stop, work := true }, [.command .stop])
  | .other => (s, [])

/-- `hi_dma_pointer`, in frames. -/
def hiDmaPointer : Nat := (d.offset s.u32HwPointer).toNat * 8 / d.frameBits

/-- The part of `SndPeroidCallback` after `snd_pcm_period_elapsed`. -/
def sendPeroid (ret : Ret) : HiaudioData × List Event :=
  let s := { s with u32SendTryCnt := s.u32SendTryCnt + 1 }
  if s.bTriggerStartOK = false then
    ({ count d s with u32DiscardSent := s.u32DiscardSent + 1 }, [.discarded (d.offset s.u32HwPointer)])
  else if ret = .success then (count d s, [.sent (d.offset s.u32HwPointer)])
  else (s, [])

/-- `SndPeroidCallback`: a timer that is not restarted is no longer armed. `xrun` tells that an underrun is found. -/
def sndPeroidCallback (xrun : Bool) (ret : Ret) : HiaudioData × List Event :=
  if s.atmTrackState = false then ({ s with hrt := false }, [])
  else
    let elapsed := if xrun then hiDmaTrigger s .stop else (s, [])
    let r := sendPeroid d elapsed.1 ret
    (r.1, elapsed.2 ++ r.2)

/-- `CmdIoTask` up to its first call; the work item is no longer pending when it runs. -/
def cmdIoTask : HiaudioData × List Event :=
  let s := { s with work := false }
  if d.u32TrackId = INITIAL_VALUE then (s, [])
  else
    match s.u32Cmd with
    | .start => ({ s with bTriggerStartOK := true, task := .trackStart }, [])
    | .stop => ({ s with task := .timerDestory }, [])
    | .none => (s, [])

/-- `HI_DRV_AO_Track_Start` returns; on a failure the timer is started all the same. -/
def trackStart (ret : Ret) : HiaudioData × List Event :=
  if ret ≠ .success then ({ s with bTriggerStartOK := false, hrt := true, task := .idle }, [.started])
  else ({ s with task := .trackFlush }, [.started])

/-- `HI_DRV_AO_Track_SendData` returns for the first period of the buffer. -/
def sendData (ret : Ret) : HiaudioData × List Event :=
  let s := { s with u32SendTryCnt := s.u32SendTryCnt + 1, task := .idle }
  match ret with
  | .success => ({ count d s with atmTrackState := true, hrt := true }, [.sent (d.offset 0)])
  | .outBufFull =>
    ({ count d s with atmTrackState := true, bTriggerStartOK := false, hrt := true }, [.discarded (d.offset 0)])
  | .failed => (s, [])

/-- `CmdIoTask` from the return of the call it is in to its next call; what `HI_DRV_AO_Track_Flush` and
    `HI_DRV_AO_Track_Stop` return is only logged. -/
def cmdIoTaskNext (ret : Ret) : Option (HiaudioData × List Event) :=
  match s.task with
  | .idle => none
  | .trackStart => some (trackStart s ret)
  | .trackFlush => some ({ s with task := .sendData }, [])
  | .sendData => some (sendData d s ret)
  | .timerDestory => some ({ s with hrt := false, task := .trackStop }, [])
  | .trackStop => some ({ s with task := .idle }, [.stopped])

/-- What happens next: a call of the ALSA core, an expiry of the timer, the start of the work item, or the return of the
    call that it is in. -/
inductive Input
  | prepare
  | trigger (cmd : Trigger)
  | timer (xrun : Bool) (ret : Ret)
  | work
  | call (ret : Ret)
  deriving DecidableEq

/-- One step; only an armed timer expires, and only a pending work item that does not run yet is started. -/
def step : Input → Option (HiaudioData × List Event)
  | .prepare => some (hiDmaPrepare s)
  | .trigger cmd => some (hiDmaTrigger s cmd)
  | .timer xrun ret => if s.hrt then some (sndPeroidCallback d s xrun ret) else none
  | .work => if s.work = true ∧ s.task = .idle then some (cmdIoTask d s) else none
  | .call ret => cmdIoTaskNext d s ret

/-- Four periods of 1024 frames, 16 bits a sample, stereo. -/
def s16Stereo : Device where
  periods := 4
  periodSize := 1024
  periodBytes := 4096
  frameBits := 32
  periods_min := by decide
  periods_max := by decide
  periodBytes_min := by decide
  periodBytes_max := by decide
  frameBits_pos := by decide
  periodBytes_eq := by decide
  u32TrackId := 0xb0000
  opened := by decide

end HiSTB.Alsa
