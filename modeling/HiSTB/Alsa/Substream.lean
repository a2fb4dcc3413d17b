import HiSTB.Alsa.Dma

/-!
# `Alsa.Substream` — opening and closing the playback stream

`hi_dma_open` and `hi_dma_close` of `hiaiao_dma.c`, and what they hold of the sound driver and the kernel. Between them
the stream is played as `Alsa.Dma` says.

* `Held` — what was got and not given back;
* `Substream` — the fields of `hiaudio_data` that the two functions keep for each other, with the others in
  `HiaudioData`;
* `OpenCalls` — what the calls of `hi_dma_open` return;
* `step` — opening, playing and closing; the ALSA core opens a stream that is not open, and closes it only if
  `hi_dma_open` returned 0.

`highRes` is for the build with `HIGH_RES_TIMERS`. `destroy_workqueue` waits until the work item is done, so that
`hi_dma_close` goes on only then. What is held can be given back; a call that gives back what is not held fails, unless
another user holds the like: `sndDeInit`, `sndClose` and `trackDestroy` are what the functions of `drv_ao.c` do to what
is held, and no more. A `HI_DRV_AO_SND_Open` that fails is taken to hold nothing; where `AO_Snd_AllocHandle` fails, the
function counts its user all the same. Left out: the buffer pages, capture, and the format of the frames.
-/

namespace HiSTB.Alsa.Substream

/-- How often the sound device is initialised, the sound is open, the track, the work queue and the interrupt are
    there. -/
structure Held where
  device : Int
  sound : Int
  track : Int
  workq : Int
  irq : Int
  deriving DecidableEq

def Held.none : Held := ⟨0, 0, 0, 0, 0⟩

/-- The fields of `struct hiaudio_data` for `hi_dma_open` and `hi_dma_close`, what is held, and what the work item and
    the timer share. `isOpen` is what the ALSA core knows, `device` is the device that is played on. -/
structure Stream where
  u32SndOpen : BitVec 32
  u32TrackId : BitVec 32
  u32IrqNum : BitVec 32
  workq : Bool
  held : Held
  device : Device
  had : HiaudioData
  isOpen : Bool

/-- What the calls of `hi_dma_open` return, where 0 is success; the device carries the handle of a track that is
    created, and what the stream is set to later. -/
structure OpenCalls where
  setRuntimeHwparams : Int
  sndInit : Int
  sndGetDefaultOpenAttr : Int
  sndOpen : Int
  trackGetDefaultOpenAttr : Int
  trackCreate : Int
  createWorkqueue : Bool
  requestIrq : Int
  device : Device

/-- `I2SDMA_IRQ_NUM`, which the source leaves to do. -/
def i2sDmaIrqNum : BitVec 32 := 0xffffffff

variable (highRes : Bool)

/-! ## The calls that give back -/

/-- `HI_DRV_AO_SND_DeInit`. -/
def sndDeInit (h : Held) : Held := { h with device := h.device - 1 }

/-- `HI_DRV_AO_SND_Close`, and whether it succeeds; `others` says that another user has the sound open. -/
def sndClose (others : Bool) (h : Held) : Held × Bool :=
  if h.sound > 0 ∨ others then ({ h with sound := h.sound - 1 }, true) else (h, false)

/-- `HI_DRV_AO_Track_Destroy`, and whether it succeeds; `others` says that the handle is another user's by now. -/
def trackDestroy (others : Bool) (h : Held) : Held × Bool :=
  if h.track > 0 ∨ others then ({ h with track := h.track - 1 }, true) else (h, false)

/-- `destroy_workqueue`. -/
def destroyWorkqueue (h : Held) : Held := { h with workq := h.workq - 1 }

/-! ## Opening -/

/-- The values that `hi_dma_open` begins with. A timer that is armed stays so. -/
def Stream.reset (s : Stream) : Stream :=
  { s with
    u32SndOpen := 0
    u32IrqNum := INITIAL_VALUE
    u32TrackId := INITIAL_VALUE
    had := { Alsa.hiDmaOpen with hrt := s.had.hrt } }

/-- `HRTimerCreat`. -/
def hrTimerCreat (s : Stream) : Stream := { s with had := { s.had with hrt := false } }

/-- `ERR_SND_INIT_EXT`. -/
def errSndInitExt (s : Stream) : Stream := { s with held := sndDeInit s.held }

/-- `ERR_SND_OPEN_EXT`. -/
def errSndOpenExt (s : Stream) : Stream := errSndInitExt { s with held := (sndClose false s.held).1 }

/-- `ERR_TRACK_CREAT_EXT`. -/
def errTrackCreatExt (s : Stream) : Stream := errSndOpenExt { s with held := (trackDestroy false s.held).1 }

/-- `ERR_WORKQUUE_CREAT_EXT`. -/
def errWorkquueCreatExt (s : Stream) : Stream :=
  errTrackCreatExt { s with held := destroyWorkqueue s.held, workq := false }

/-- `hi_dma_open`, with its return value. A work queue or an interrupt that is refused leaves the value of the call
    before it, which is success. -/
def hiDmaOpen (c : OpenCalls) (s : Stream) : Stream × Int :=
  if c.setRuntimeHwparams ≠ 0 then (s, c.setRuntimeHwparams)
  else
    let s := s.reset
    if c.sndInit ≠ 0 then (s, c.sndInit)
    else
      let s := { s with held := { s.held with device := s.held.device + 1 } }
      if c.sndGetDefaultOpenAttr ≠ 0 then (errSndInitExt s, c.sndGetDefaultOpenAttr)
      else if c.sndOpen ≠ 0 then (errSndInitExt s, c.sndOpen)
      else
        let s := { s with held := { s.held with sound := s.held.sound + 1 }, u32SndOpen := s.u32SndOpen + 1 }
        if c.trackGetDefaultOpenAttr ≠ 0 then (errSndOpenExt s, c.trackGetDefaultOpenAttr)
        else if c.trackCreate ≠ 0 then (errSndOpenExt s, c.trackCreate)
        else
          let s := { s with
            held := { s.held with track := s.held.track + 1 }
            u32TrackId := c.device.u32TrackId
            device := c.device }
          if c.createWorkqueue = false then (errTrackCreatExt { s with workq := false }, c.trackCreate)
          else
            let s := { s with held := { s.held with workq := s.held.workq + 1 }, workq := true }
            if highRes then (hrTimerCreat s, 0)
            else if s.u32IrqNum = INITIAL_VALUE then
              if c.requestIrq ≠ 0 then (errWorkquueCreatExt s, c.trackCreate)
              else ({ s with held := { s.held with irq := s.held.irq + 1 }, u32IrqNum := i2sDmaIrqNum }, 0)
            else (s, 0)

/-! ## Closing -/

/-- `free_irq` of `hi_dma_close`, in the build without timers. The build with timers has nothing in its place. -/
def freeIrq (s : Stream) : Stream :=
  if highRes then s
  else if INITIAL_VALUE ≠ s.u32IrqNum then
    { s with held := { s.held with irq := s.held.irq - 1 }, u32IrqNum := INITIAL_VALUE }
  else s

/-- The track and the sound of `hi_dma_close`; what cannot be given back stays recorded. -/
def closeTrack (others : Bool) (s : Stream) : Stream :=
  if INITIAL_VALUE ≠ s.u32TrackId then
    let r := trackDestroy others s.held
    { s with held := r.1, u32TrackId := if r.2 then INITIAL_VALUE else s.u32TrackId }
  else s

def closeSound (others : Bool) (s : Stream) : Stream :=
  if s.u32SndOpen ≠ 0 then
    let r := sndClose others s.held
    { s with held := r.1, u32SndOpen := if r.2 then s.u32SndOpen - 1 else s.u32SndOpen }
  else s

/-- `hi_dma_close`; what others have of the track's handle and of the sound is told for both. -/
def hiDmaClose (trackOthers soundOthers : Bool) (s : Stream) : Stream :=
  let s := freeIrq highRes s
  let s := if s.workq then { s with held := destroyWorkqueue s.held } else s
  let s := closeSound soundOthers (closeTrack trackOthers { s with workq := false })
  { s with held := sndDeInit s.held }

/-! ## Runs -/

inductive Input
  | opens (c : OpenCalls)
  | play (i : Alsa.Input)
  | close (trackOthers soundOthers : Bool)

/-- What the ALSA core sees of a step. -/
inductive Seen
  | opened (ret : Int)
  | played (e : Event)
  | closed
  deriving DecidableEq

/-- One step. Only a stream with a work queue is played, and in the build without timers nothing is told of it. -/
def step (s : Stream) : Input → Option (Stream × List Seen)
  | .opens c =>
    if s.isOpen then none
    else
      let r := hiDmaOpen highRes c s
      some ({ r.1 with isOpen := decide (r.2 = 0) }, [.opened r.2])
  | .play i =>
    if s.isOpen && s.workq && highRes then
      (Alsa.step s.device s.had i).map (fun r => ({ s with had := r.1 }, r.2.map .played))
    else none
  | .close trackOthers soundOthers =>
    if s.isOpen && decide (s.had.task = .idle ∧ s.had.work = false) then
      some ({ hiDmaClose highRes trackOthers soundOthers s with isOpen := false }, [.closed])
    else none

/-- After `soc_snd_platform_probe`. -/
def Stream.init (d : Device) : Stream :=
  ⟨0, INITIAL_VALUE, INITIAL_VALUE, false, .none, d, Alsa.hiDmaOpen, false⟩

end HiSTB.Alsa.Substream
