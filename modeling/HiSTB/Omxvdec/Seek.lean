import HiSTB.Omxvdec.PtsRecv
import HiSTB.Omxvdec.Bind

/-!
# `Omxvdec.Seek` — a channel and its presentation times (`channel.c`, `omxvdec.c`)

The commands of a channel start and stop the recovery of the presentation times, and a seek resets it: a flush of
the output port resets the channel, unless the size of the pictures has changed.

There is one channel number here, below `PTS_REC_MAX_NUM`, with its record of `s_stPtsRecChan`; it is given to one
channel after another. Each call runs alone. What the decoder and VPSS answer is an input.

Left out: the queues, the messages, `seek_pending`, and `reset_pending`, which is set for the time of a reset only.
-/

namespace HiSTB.Omxvdec.Seek

open Channel (ChanState)
open PtsRecv

/-- `OMXVDEC_CHAN_CTX`, as far as it is read here, and its record; `invalid` where there is no channel. -/
structure Inst where
  state : ChanState
  recfgFlag : Bool
  pts : PtsChan

/-- The calls of the user, the change of the picture size, and a frame for VPSS. -/
inductive Call
  | firstOpen
  | create (decoder processor memory : Bool)
  | release
  | start (decoder processor : Bool)
  | stop
  | pause
  | resume
  | flush (dir : Bind.PortDir)
  | sizeChange
  | setFrmRate (p : FrmRateParam)
  | getImage (im : Image)

section

variable (invalidPts invalidTime : U32)

namespace Inst

/-- After the module is loaded and opened. -/
def init : Inst where
  state := .invalid
  recfgFlag := false
  pts := ptsrecInit invalidPts invalidTime PtsChan.zero

/-- `OMX_PTSREC_Init` in the first `omxvdec_open`, when there are no channels. -/
def firstOpen (s : Inst) : Inst :=
  if s.state = .invalid then { s with pts := ptsrecInit invalidPts invalidTime s.pts } else s

/-- `channel_create_inst` that gets the channel number. -/
def createInst (s : Inst) (decoder processor memory : Bool) : Inst :=
  if s.state = .invalid ∧ decoder ∧ processor ∧ memory then
    { state := .idle, recfgFlag := false, pts := (ptsrecAlloc invalidPts invalidTime s.pts).1 }
  else s

/-- `channel_release_inst`. -/
def releaseInst (s : Inst) : Inst :=
  if s.state = .invalid then s else { s with state := .invalid, pts := ptsrecFree s.pts }

/-- `channel_start_inst`. -/
def startInst (s : Inst) (decoder processor : Bool) : Inst :=
  if s.state = .invalid then s
  else if s.state = .work then s
  else if decoder ∧ processor then
    { s with state := .work, pts := (ptsrecStart invalidPts invalidTime s.pts).1 }
  else s

/-- `channel_stop_inst`. -/
def stopInst (s : Inst) : Inst :=
  if s.state = .invalid then s
  else if s.state = .idle then s
  else { s with state := .idle, pts := (ptsrecStop s.pts).1 }

/-- `channel_pause_inst`. -/
def pauseInst (s : Inst) : Inst := if s.state ≠ .work then s else { s with state := .pause }

/-- `channel_resume_inst`. -/
def resumeInst (s : Inst) : Inst := if s.state ≠ .pause then s else { s with state := .work }

/-- `channel_reset_inst`. -/
def resetInst (s : Inst) : Inst := { s with pts := (ptsrecReset invalidPts invalidTime s.pts).1 }

/-- `channel_flush_out_port`. -/
def flushOutPort (s : Inst) : Inst :=
  if s.recfgFlag then { s with recfgFlag := false } else s.resetInst invalidPts invalidTime

/-- `channel_flush_inst`. -/
def flushInst (s : Inst) (dir : Bind.PortDir) : Inst :=
  if s.state = .invalid then s
  else
    match dir with
    | .input => s
    | .output => s.flushOutPort invalidPts invalidTime
    | .both => s.flushOutPort invalidPts invalidTime

/-- `processor_get_image` that has read a picture. -/
def getImage (s : Inst) (im : Image) : Inst × List Event :=
  if s.state = .invalid then (s, [])
  else
    match calcStamp invalidPts invalidTime s.pts im with
    | none => (s, [])
    | some r => ({ s with pts := r.chan }, r.events)

end Inst

/-- One call, with the effects of the frame-rate detection. -/
def step (s : Inst) : Call → Option (Inst × List Event)
  | .firstOpen => some (s.firstOpen invalidPts invalidTime, [])
  | .create d p m => some (s.createInst invalidPts invalidTime d p m, [])
  | .release => some (s.releaseInst, [])
  | .start d p => some (s.startInst invalidPts invalidTime d p, [])
  | .stop => some (s.stopInst, [])
  | .pause => some (s.pauseInst, [])
  | .resume => some (s.resumeInst, [])
  | .flush dir => some (s.flushInst invalidPts invalidTime dir, [])
  | .sizeChange => some (if s.state = .invalid then s else { s with recfgFlag := true }, [])
  | .setFrmRate p => some ({ s with pts := (ptsrecSetFrmRate s.pts p).1 }, [])
  | .getImage im => some (s.getImage invalidPts invalidTime im)

end

end HiSTB.Omxvdec.Seek
