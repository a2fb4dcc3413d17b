import HiSTB.Lib.Piece
import HiSTB.Lib.Ring

/-!
# `Ao.LowLatency` — audio frames for the rings of the hardware (`mpi_lowlatency.c`)

A track with low latency and the DMA mode of a sound write frames of PCM into rings that the hardware reads. They do not
look at the free space of a ring, but at how much is in it, which must stay below a latency.

* `TrackMmapBuf…`, `TRACKMmapWriteFrame`, `LOWLATENCY_SendData` — the ring of a track;
* `DMAPort…`, `PortWriteFrame`, `SND_DMA_SendData` — the rings of all ports, which are filled alike.

`HI_U32` is `BitVec 32`. The memory of a ring is a function of the offset, also behind the end of the ring. `HI_NULL` is
the buffer `none`. Of the ports only those in use are in the list. The enumerations of `hi_unf_sound.h`, which is not in
the repository, are the frequencies and depths they are named after. The ioctl of `SetSndDMAMode` is an argument.
-/

namespace HiSTB.Ao

open Lib

abbrev U32 := BitVec 32
abbrev Byte := BitVec 8

def HI_UNF_SAMPLE_RATE_48K : U32 := 48000
def HI_UNF_SAMPLE_RATE_44K : U32 := 44100
def HI_UNF_BIT_DEPTH_16 : U32 := 16
def SND_MUTES_FRAMES : U32 := 10

/-- `sizeof(HI_U16)`. -/
def SIZEOF_U16 : U32 := 2

/-- `HI_TRACK_MmapBufAttr_S` and `SND_PORT_USER_ATTR_S`, with what the pointers point to. -/
structure Ring where
  buf : Nat → Byte
  rptr : U32
  wptr : U32
  size : U32

/-- `HI_UNF_AO_FRAMEINFO_S`. -/
structure FrameInfo where
  bitPerSample : U32
  sampleRate : U32
  channels : U32
  pcmSamplesPerFrame : U32
  pcmBuffer : Option (Nat → Byte)

/-- What a call returns: `HI_SUCCESS`, `HI_FAILURE`, `HI_ERR_AO_*`, or what the ioctl did. -/
inductive Ret
  | success
  | failure
  | invalidPara
  | outBufFull
  | ioctl (code : U32)
  deriving DecidableEq

/-! ## Writing into a ring -/

namespace Ring

variable (r : Ring) (src : Option (Nat → Byte)) (len : U32)

/-- `u32WtLen`. -/
def wtLen : U32 × U32 :=
  if r.rptr ≤ r.wptr then
    if r.wptr + len ≤ r.size then (len, 0) else (r.size - r.wptr, len - (r.size - r.wptr))
  else (len, 0)

/-- One turn of the loop: `memcpy` or `memset`, and the new position. -/
def turn (off : Nat) (pos n : U32) : Ring :=
  { r with
    buf := match src with
      | some f => writeAt r.buf pos.toNat (piece f off n.toNat)
      | none => writeAt r.buf pos.toNat (List.replicate n.toNat 0)
    wptr := pos + n }

/-- Both turns, which end with the first length that is 0. -/
def turns : Ring :=
  if (r.wtLen len).1 = 0 then r
  else if (r.wtLen len).2 = 0 then r.turn src 0 r.wptr (r.wtLen len).1
  else (r.turn src 0 r.wptr (r.wtLen len).1).turn src (r.wtLen len).1.toNat 0 (r.wtLen len).2

/-- The write, with the position back at the start when it is at the end. -/
def write : Ring × U32 :=
  let t := r.turns src len
  ({ t with wptr := if t.wptr = t.size then 0 else t.wptr }, (r.wtLen len).1 + (r.wtLen len).2)

/-! ## The ring of a track -/

/-- `TrackMmapBufQueryBusy`. -/
def trackMmapBufQueryBusy : U32 := if r.rptr ≤ r.wptr then r.wptr - r.rptr else r.size - (r.rptr - r.wptr)

/-- `TrackMmapBufWrite`. -/
def trackMmapBufWrite : Ring × U32 := r.write src len

end Ring

/-- `u32FrameSize`. -/
def frameSize (f : FrameInfo) : U32 := f.pcmSamplesPerFrame * f.channels * SIZEOF_U16

/-- `u32Latency` for so many ms. -/
def latency (ms : U32) (f : FrameInfo) : U32 := ms * f.sampleRate * f.channels * SIZEOF_U16 / 1000

/-- `TRACKMmapWriteFrame`. -/
def trackMmapWriteFrame (r : Ring) (f : FrameInfo) : Ring × Ret :=
  if r.trackMmapBufQueryBusy + frameSize f < latency 400 f then
    let w := r.trackMmapBufWrite f.pcmBuffer (frameSize f)
    (w.1, if w.2 = frameSize f then .success else .failure)
  else (r, .outBufFull)

/-- `LOWLATENCY_SendData`, for the ring of `g_stMMPAttr`. -/
def lowlatencySendData (r : Ring) (f : FrameInfo) : Ring × Ret :=
  if f.channels ≠ 2 ∨ f.bitPerSample ≠ HI_UNF_BIT_DEPTH_16 ∨ f.sampleRate ≠ HI_UNF_SAMPLE_RATE_48K then
    (r, .invalidPara)
  else trackMmapWriteFrame r f

/-! ## The rings of the ports -/

/-- `DMAPortQueryBusy`. -/
def Ring.dmaPortQueryBusy (r : Ring) : U32 := if r.rptr ≤ r.wptr then r.wptr - r.rptr else r.size + r.wptr - r.rptr

/-- `DMAPortWrite`. -/
def Ring.dmaPortWrite (r : Ring) (src : Option (Nat → Byte)) (len : U32) : Ring × U32 := r.write src len

/-- `DMA_SND_SOURCE_S`, with the ports in use. -/
structure Source where
  enable : Bool
  sampleRate : U32
  frmCnt : U32
  ports : List Ring

namespace Source

variable (s : Source)

/-- `DMAPrepare`: silence for every port. -/
def dmaPrepare : Source := { s with ports := s.ports.map (fun r => (r.dmaPortWrite none 0x100).1) }

/-- `DMAEnable`. -/
def dmaEnable (sampleRate : U32) (ioctl : Ret) : Source × Ret :=
  if s.enable then (s, .success)
  else if ioctl = .success then ({ { s with sampleRate := sampleRate }.dmaPrepare with enable := true }, .success)
  else ({ s with sampleRate := HI_UNF_SAMPLE_RATE_48K }, ioctl)

/-- `PortCheckAllFree`. -/
def portCheckAllFree (f : FrameInfo) (latencyMs : U32) : Bool :=
  s.ports.all (fun r => !decide (r.dmaPortQueryBusy + frameSize f > latency latencyMs f))

/-- `PortWriteFrame`; the first frames are muted. -/
def portWriteFrame (r : Ring) (f : FrameInfo) : Ring × Ret :=
  let w := if s.frmCnt > SND_MUTES_FRAMES then r.dmaPortWrite f.pcmBuffer (frameSize f)
    else r.dmaPortWrite none (frameSize f)
  (w.1, if w.2 = frameSize f then .success else .failure)

/-- The loop over the ports; what the last write returned is returned. -/
def writeFrames (f : FrameInfo) : Source × Ret :=
  let ws := s.ports.map (fun r => s.portWriteFrame r f)
  ({ s with ports := ws.map Prod.fst, frmCnt := s.frmCnt + 1 }, (ws.getLast?.map Prod.snd).getD .success)

/-- `SND_DMA_SendData`. -/
def sndDmaSendData (f : FrameInfo) (latencyMs : U32) (ioctl : Ret) : Source × Ret :=
  if 2 ≠ f.channels ∨ 16 ≠ f.bitPerSample then (s, .invalidPara)
  else if f.sampleRate ≠ HI_UNF_SAMPLE_RATE_48K ∧ f.sampleRate ≠ HI_UNF_SAMPLE_RATE_44K then (s, .invalidPara)
  else if latencyMs > 40 ∨ latencyMs < 10 then (s, .invalidPara)
  else
    let t := s.dmaEnable f.sampleRate ioctl
    if t.2 ≠ .success then t
    else if t.1.portCheckAllFree f latencyMs = false then (t.1, .outBufFull)
    else t.1.writeFrames f

end Source

end HiSTB.Ao
