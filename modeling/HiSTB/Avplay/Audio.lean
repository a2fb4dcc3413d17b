import HiSTB.Lib.Run

/-!
# `Avplay.Audio` — decoded audio frames on their way to the tracks

`AVPLAY_ProcAdecToAo` of `mpi_avplay.c`, which the data thread calls again and again. A pass fetches a frame from the
decoder when none is held, lets the sync track's clock judge it, and sends it to the attached tracks; a frame that is
not taken stays for the next pass.

* `Tracks` — the attached tracks;
* `AudState`, `AudPass` — the frame that is held, and what the other components answer in one pass;
* `procAdecToAo` — one pass.

Frames are named by their place in the decoder's order.
-/

namespace HiSTB.Avplay

/-- `HI_HANDLE`. -/
abbrev Handle := BitVec 32

/-- `HI_UNF_AVPLAY_STATUS_E`. -/
inductive Status
  | stop
  | preplay
  | play
  | tplay
  | pause
  | eos
  | seek
  deriving DecidableEq

/-- `SYNC_PROC_E`. -/
inductive SyncProc
  | procPlay
  | procRepeat
  | procDiscard
  | procQuickoutput
  deriving DecidableEq

/-- What `HI_MPI_AO_Track_SendData` returns: the codes of a track that cannot take the frame now, and any other. -/
inductive AoRet
  | success
  | outBufFull
  | sendMute
  | pauseState
  | failed
  deriving DecidableEq

/-- `hTrack[0..TrackNum)` and `hSyncTrack`, which is `none` where the source has `HI_INVALID_HANDLE`:
    `HI_MPI_AVPLAY_AttachSnd` attaches no track twice, and the sync track is one of those attached. -/
structure Tracks where
  hTrack : List Handle
  hSyncTrack : Option Handle
  nodup : hTrack.Nodup
  sync_mem : ∀ t ∈ hSyncTrack, t ∈ hTrack

/-- `AvplayProcDataFlag[AVPLAY_PROC_ADEC_AO]`, `AvplayAudFrm`, and how many frames the decoder has handed out. -/
structure AudState where
  procData : Bool
  avplayAudFrm : Nat
  decoded : Nat
  deriving DecidableEq

/-- No frame fetched yet. -/
def audInit : AudState := ⟨false, 0, 0⟩

/-- One pass as the other components see it: whether a frame can be fetched, what the judge decides if it does, and what
    each track answers. -/
structure AudPass where
  audEnable : Bool
  curStatus : Status
  received : Bool
  judge : Option SyncProc
  send : Handle → AoRet

/-- What happens to frame `n`. -/
inductive AudEvent
  | received (n : Nat)
  | trick (n : Nat)
  | judged (n : Nat) (proc : SyncProc)
  | sent (t : Handle) (n : Nat) (ret : AoRet)
  | released (n : Nat)
  deriving DecidableEq

variable (T : Tracks) (s : AudState) (p : AudPass)

/-- `HI_MPI_ADEC_ReceiveFrame`, when no frame is held. -/
def receiveAud : AudState × List AudEvent :=
  if s.procData = false ∧ p.received = true then
    (⟨true, s.decoded, s.decoded + 1⟩, [.received s.decoded])
  else (s, [])

/-- The frame goes back to the decoder. -/
def releaseAud : AudState × List AudEvent := ({ s with procData := false }, [.released s.avplayAudFrm])

/-- The calls of `HI_MPI_AO_Track_SendData` in a pass. Without a sync track every track is sent the frame; with one, the
    others are sent what the sync track takes. -/
def sendAll : List AudEvent :=
  match T.hSyncTrack with
  | some t =>
    .sent t s.avplayAudFrm (p.send t) ::
      if p.send t = .success then
        (T.hTrack.filter (fun u => u ≠ t)).map (fun u => .sent u s.avplayAudFrm (p.send u))
      else []
  | none => T.hTrack.map (fun u => .sent u s.avplayAudFrm (p.send u))

/-- `Ret` after the calls: the sync track's answer, or that of the last track. -/
def sendRet : AoRet :=
  match T.hSyncTrack with
  | some t => p.send t
  | none => T.hTrack.foldl (fun _ u => p.send u) .success

/-- A track that answers so may take the frame later. -/
def AoRet.Again (ret : AoRet) : Prop := ret = .outBufFull ∨ ret = .sendMute ∨ ret = .pauseState
deriving Decidable

/-- Sending, and what `Ret` then decides. -/
def sendAud : AudState × List AudEvent :=
  if (sendRet T p).Again then (s, sendAll T s p)
  else ((releaseAud s).1, sendAll T s p ++ (releaseAud s).2)

/-- The sync track's clock decides whether the frame is sent; without a sync track, or if the judge fails, it is
    sent. -/
def judgeAud : AudState × List AudEvent :=
  match T.hSyncTrack, p.judge with
  | some _, some .procDiscard => ((releaseAud s).1, .judged s.avplayAudFrm .procDiscard :: (releaseAud s).2)
  | some _, some .procRepeat => (s, [.judged s.avplayAudFrm .procRepeat])
  | some _, some proc => ((sendAud T s p).1, .judged s.avplayAudFrm proc :: (sendAud T s p).2)
  | _, _ => sendAud T s p

/-- A pass with a frame in hand. -/
def playAud : AudState × List AudEvent :=
  if p.curStatus = .tplay then ((releaseAud s).1, .trick s.avplayAudFrm :: (releaseAud s).2)
  else judgeAud T s p

/-- `AVPLAY_ProcAdecToAo`. -/
def procAdecToAo : AudState × List AudEvent :=
  if p.audEnable = false ∨ p.curStatus = .pause then (s, [])
  else
    let r := receiveAud s p
    if r.1.procData then ((playAud T r.1 p).1, r.2 ++ (playAud T r.1 p).2) else r

/-- One pass as a step. -/
def audStep (T : Tracks) (s : AudState) (p : AudPass) : Option (AudState × List AudEvent) := some (procAdecToAo T s p)

end HiSTB.Avplay
