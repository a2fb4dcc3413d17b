import HiSTB.Avplay.DmxAud

/-!
# `Avplay.AudEs` — the ES buffers between the demux and the audio decoder

`AVPLAY_ProcDmxToAdec` of `mpi_avplay.c`, which the data thread calls with `AvplayThreadMutex` held, and
`AVPLAY_SetPid`, which takes it. A pass fetches a buffer from the selected audio channel when none is held and offers it
to the decoder. When the decoder takes it, the pass drops the mutex for the notification, and what other threads do then
comes before the buffer goes back to the demux.

* `EsState`, `EsPass` — the buffer that is held, and what the other components answer in one pass;
* `procDmxToAdec`, `afterNotify` — a pass up to the notification, and the rest of it;
* `setPid` — another channel is selected;
* `esStep` — one of these as a step.

Buffers are named by the order in which they were acquired for playing. What happens to the decoder and the tracks on
the way (`AudDDPMode`, the flush when another channel is selected) touches neither the buffer nor the channels.
-/

namespace HiSTB.Avplay.AudEs

open DmxAud

/-- What `HI_MPI_DMX_AcquireEs` returns. -/
inductive DmxRet
  | success
  | emptyBuffer
  | failed
  deriving DecidableEq

/-- What `HI_MPI_ADEC_SendStream` returns. -/
inductive AdecRet
  | success
  | inBufFull
  | inPtsBufFull
  | failed
  deriving DecidableEq

/-- The audio channels, `AvplayProcDataFlag[AVPLAY_PROC_DMX_ADEC]`, `AvplayDmxEsBuf`, `bSetAudEos`, and how many buffers
    have been acquired for playing. While a pass is in its notification, `window` is the channel that was selected when
    it dropped the mutex. -/
structure EsState where
  chn : AudChn
  procData : Bool
  avplayDmxEsBuf : Nat
  bSetAudEos : Bool
  acquired : Nat
  window : Option Nat

/-- One pass as the other components see it: whether the decoder has more than `AVPLAY_ADEC_MAX_DELAY` to play, what
    each channel answers, the calls that tell the end of the stream to the decoder and to the sync track if there is
    one, and whether the decoder takes the buffer. -/
structure EsPass where
  maxDelay : Bool
  acquireEs : Nat → DmxRet
  bSetEosFlag : Bool
  adecSetEosFlag : Bool
  trackSetEosFlag : Option Bool
  sendStream : AdecRet

/-- What happens at the demux: a buffer is acquired for playing, one of another channel is acquired and released at
    once, and the buffer to be played is released, each on the queue of a channel. -/
inductive EsEvent
  | acquired (h : Handle) (n : Nat)
  | skipped (h : Handle)
  | released (h : Handle) (n : Nat)
  deriving DecidableEq

variable (s : EsState) (p : EsPass)

/-- `HI_MPI_DMX_ReleaseEs` for `AvplayDmxEsBuf`, on the selected channel. -/
def releaseEs : List EsEvent := [.released (s.chn.hDmxAud s.chn.curDmxAudChn) s.avplayDmxEsBuf]

/-- The end of the stream is told, once; `false` where the pass returns. -/
def setAudEos : Bool × EsState :=
  if p.bSetEosFlag = true ∧ s.bSetAudEos = false then
    if p.adecSetEosFlag = false ∨ p.trackSetEosFlag = some false then (false, s)
    else (true, { s with bSetAudEos := true })
  else (true, s)

/-- The body of the loop over the channels; `false` where the pass returns. -/
def acquireOne (i : Nat) : Bool × EsState × List EsEvent :=
  if i = s.chn.curDmxAudChn then
    match p.acquireEs i with
    | .success =>
      (true, { s with procData := true, avplayDmxEsBuf := s.acquired, acquired := s.acquired + 1 },
        [.acquired (s.chn.hDmxAud i) s.acquired])
    | .emptyBuffer => ((setAudEos s p).1, (setAudEos s p).2, [])
    | .failed => (true, s, [])
  else
    match p.acquireEs i with
    | .success => (true, s, [.skipped (s.chn.hDmxAud i)])
    | _ => (true, s, [])

/-- The loop over `n` channels from `i` on. -/
def acquireLoop (s : EsState) (i : Nat) : Nat → Bool × EsState × List EsEvent
  | 0 => (true, s, [])
  | n + 1 =>
    let r := acquireOne s p i
    if r.1 then
      let q := acquireLoop r.2.1 (i + 1) n
      (q.1, q.2.1, r.2.2 ++ q.2.2)
    else r

/-- `HI_MPI_ADEC_SendStream` and what follows, up to the notification. -/
def sendStream : EsState × List EsEvent :=
  match p.sendStream with
  | .success => ({ s with procData := false, window := some s.chn.curDmxAudChn }, [])
  | .inBufFull | .inPtsBufFull => (s, [])
  | .failed => ({ s with procData := false }, releaseEs s)

/-- The buffer is offered to the decoder, if one is held. -/
def playEs : EsState × List EsEvent :=
  if s.procData then sendStream s p else (s, [])

/-- `AVPLAY_ProcDmxToAdec`, up to the notification. -/
def procDmxToAdec : EsState × List EsEvent :=
  if s.chn.audEnable = false ∨ p.maxDelay = true then (s, [])
  else
    let r := if s.procData then (true, s, []) else acquireLoop p s 0 s.chn.dmxAudChnNum
    if r.1 then
      let q := playEs r.2.1 p
      (q.1, r.2.2 ++ q.2)
    else r.2

/-- `AVPLAY_ProcDmxToAdec` after the notification: the channel is looked up again. -/
def afterNotify : EsState × List EsEvent := ({ s with window := none }, releaseEs s)

/-- `AVPLAY_SetPid` selects among several channels, and the PID is that of one of them. -/
def switches (pid : BitVec 32) : Bool :=
  s.chn.ts && s.chn.adec && s.chn.dmxAudChnNum != 1 && (List.range s.chn.dmxAudChnNum).any fun i =>
    s.chn.dmxAudPid i = pid

/-- `AVPLAY_SetPid` for `HI_UNF_AVPLAY_ATTR_ID_AUD_PID`: a buffer that has not been released goes back before another
    channel is selected. -/
def setPid (pid : BitVec 32) : EsState × List EsEvent :=
  if switches s pid = true ∧ s.procData = true then
    ({ s with procData := false, chn := DmxAud.setPid pid s.chn }, releaseEs s)
  else ({ s with chn := DmxAud.setPid pid s.chn }, [])

/-- The data thread starts a pass or comes back from the notification, or another thread, or the callback itself,
    selects a channel. -/
inductive EsCall
  | procDmxToAdec (p : EsPass)
  | afterNotify
  | setPid (pid : BitVec 32)

/-- One step. The data thread ends a pass before it starts the next one. -/
def esStep (s : EsState) : EsCall → Option (EsState × List EsEvent)
  | .procDmxToAdec p => if s.window = none then some (procDmxToAdec s p) else none
  | .afterNotify => if s.window = none then none else some (afterNotify s)
  | .setPid pid => some (setPid s pid)

end HiSTB.Avplay.AudEs
