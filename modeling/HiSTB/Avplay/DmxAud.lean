import HiSTB.Avplay.Audio
import HiSTB.Lib.Holdings

/-!
# `Avplay.DmxAud` — the audio channels at the demux

In TS mode a player has one demux channel for each audio PID. `mpi_avplay.c` keeps their handles in `hDmxAud`, their
number in `DmxAudChnNum`, the one that is heard in `CurDmxAudChn` and, for several PIDs, the codec of each in
`pstAcodecAttr`. What the demux and the other components answer is an input of each call.

* `mallocDmxChn`, `freeDmxChn`, `mallocAudChn`, `freeAudChn` — the channel of an audio channel that is opened and
  closed;
* `setMultiAud`, `setPid` — several PIDs, and the one that is heard;
* `startAudChn`, `stopAudChn` — the channels are opened and closed at the demux;
* `audStep` — one call; the demux creates no channel that exists.
-/

namespace HiSTB.Avplay.DmxAud

open Lib

/-- `HI_INVALID_HANDLE`. -/
def invalidHandle : Handle := 0xffffffff

/-- `HI_UNF_ACODEC_ATTR_S`, by its `enType`. -/
structure AcodecAttr where
  enType : BitVec 32
  deriving DecidableEq

/-- The part of `AVPLAY_S` about the audio channels: `ts` is the stream type, `adec` whether `hAdec` is valid. -/
structure AudChn where
  ts : Bool
  adec : Bool
  audEnable : Bool
  hDmxAud : Nat → Handle
  dmxAudPid : Nat → BitVec 32
  dmxAudChnNum : Nat
  curDmxAudChn : Nat
  pstAcodecAttr : Option (List AcodecAttr)

/-- `HI_MPI_AVPLAY_Create`. -/
def create (ts : Bool) : AudChn := ⟨ts, false, false, fun _ => invalidHandle, fun _ => 0x1fff, 0, 0, none⟩

/-- A channel is created or destroyed at the demux. -/
abbrev DmxEvent := Holdings.Event Handle

/-- An entry of `hDmxAud` is set. -/
def AudChn.setHandle (a : AudChn) (i : Nat) (h : Handle) : AudChn :=
  { a with hDmxAud := fun j => if j = i then h else a.hDmxAud j }

/-- An entry of `DmxAudPid` is set. -/
def AudChn.setDmxPid (a : AudChn) (i : Nat) (pid : BitVec 32) : AudChn :=
  { a with dmxAudPid := fun j => if j = i then pid else a.dmxAudPid j }

/-- `AVPLAY_MallocDmxChn` for audio; `create` is what `HI_MPI_DMX_CreateChannel` returns. -/
def mallocDmxChn (a : AudChn) (create : Option Handle) : Bool × AudChn × List DmxEvent :=
  match create with
  | none => (false, a, [])
  | some h => (true, { a.setHandle 0 h with dmxAudChnNum := 1 }, [.create h])

/-- The loop of `AVPLAY_FreeDmxChn` from entry `i` on; `destroy` is what `HI_MPI_DMX_DestroyChannel` returns. -/
def freeLoop (destroy : Nat → Bool) (a : AudChn) (i : Nat) : Nat → Bool × AudChn × List DmxEvent
  | 0 => (true, a, [])
  | n + 1 =>
    if a.hDmxAud i = invalidHandle then freeLoop destroy a (i + 1) n
    else if destroy i then
      let r := freeLoop destroy (a.setHandle i invalidHandle) (i + 1) n
      (r.1, r.2.1, .destroy (a.hDmxAud i) :: r.2.2)
    else (false, a, [])

/-- `AVPLAY_FreeDmxChn` for audio. -/
def freeDmxChn (destroy : Nat → Bool) (a : AudChn) : Bool × AudChn × List DmxEvent :=
  let r := freeLoop destroy a 0 a.dmxAudChnNum
  if r.1 then (true, { r.2.1 with dmxAudChnNum := 0 }, r.2.2) else r

/-- `AVPLAY_FreeAudChn`; `adecClose` is what `HI_MPI_ADEC_Close` returns. -/
def freeAudChn (destroy : Nat → Bool) (adecClose : Bool) (a : AudChn) : AudChn × List DmxEvent :=
  let r := if a.ts then freeDmxChn destroy a else (true, a, [])
  (if r.1 = true ∧ adecClose = true then { r.2.1 with adec := false } else r.2.1, r.2.2)

/-- What a call of `HI_MPI_AVPLAY_ChnOpen` for audio meets: `vid` tells whether the part about the video channel
    succeeds, `pcr` whether there is a PCR channel in the end. -/
structure OpenCall where
  vid : Bool
  adecOpen : Bool
  create : Option Handle
  pcr : Bool
  destroy : Nat → Bool
  adecClose : Bool

/-- `AVPLAY_MallocAudChn`. -/
def mallocAudChn (c : OpenCall) (a : AudChn) : Bool × AudChn × List DmxEvent :=
  if c.adecOpen then
    if a.ts then
      let r := mallocDmxChn { a with adec := true } c.create
      if r.1 then r else (false, if c.adecClose then { r.2.1 with adec := false } else r.2.1, r.2.2)
    else (true, { a with adec := true }, [])
  else (false, a, [])

/-- `HI_MPI_AVPLAY_ChnOpen`. -/
def chnOpen (c : OpenCall) (a : AudChn) : AudChn × List DmxEvent :=
  if c.vid then
    let r := if a.adec then (true, a, []) else mallocAudChn c a
    if r.1 = true ∧ a.ts = true ∧ c.pcr = false then
      let q := freeAudChn c.destroy c.adecClose r.2.1
      (q.1, r.2.2 ++ q.2)
    else r.2
  else (a, [])

/-- What a call of `HI_MPI_AVPLAY_ChnClose` for audio meets: `free` tells whether no track is attached and the part
    about the video channel succeeds. -/
structure CloseCall where
  free : Bool
  destroy : Nat → Bool
  adecClose : Bool

/-- `HI_MPI_AVPLAY_ChnClose`. -/
def chnClose (c : CloseCall) (a : AudChn) : AudChn × List DmxEvent :=
  if c.free = true ∧ a.audEnable = false ∧ a.adec = true then freeAudChn c.destroy c.adecClose a else (a, [])

/-- What a call of `AVPLAY_SetStreamMode` meets: `valid` tells whether its parameters are, and the video channel is not
    enabled, `vidFree` and `vidMalloc` whether the parts about the video channel succeed. -/
structure ModeCall where
  valid : Bool
  ts : Bool
  vidFree : Bool
  destroy : Nat → Bool
  pcrDestroy : Bool
  vidMalloc : Bool
  create : Option Handle

/-- `AVPLAY_SetStreamMode` once the audio channel of the old mode is freed. -/
def enterMode (c : ModeCall) (a : AudChn) : AudChn × List DmxEvent :=
  if c.pcrDestroy then
    if c.vidMalloc = true ∧ a.adec = true ∧ c.ts = true then (mallocDmxChn { a with ts := c.ts } c.create).2
    else ({ a with ts := c.ts }, [])
  else (a, [])

/-- `AVPLAY_SetStreamMode`. -/
def setStreamMode (c : ModeCall) (a : AudChn) : AudChn × List DmxEvent :=
  if c.valid = true ∧ a.audEnable = false ∧ c.vidFree = true then
    let r := if a.adec = true ∧ a.ts = true then freeDmxChn c.destroy a else (true, a, [])
    if r.1 then
      let q := enterMode c r.2.1
      (q.1, r.2.2 ++ q.2)
    else r.2
  else (a, [])

/-- `HI_UNF_AVPLAY_MULTIAUD_ATTR_S`. -/
structure MultiAudAttr where
  u32PidNum : Nat
  pu32AudPid : Nat → BitVec 32
  pstAcodecAttr : Nat → AcodecAttr

/-- What a call of `AVPLAY_SetMultiAud` meets: `attr` is `none` for null pointers, `destroyOld` and `destroyNew` are the
    answers in the two loops that destroy channels. -/
structure MultiCall where
  attr : Option MultiAudAttr
  destroyOld : Nat → Bool
  create : Nat → Option Handle
  destroyNew : Nat → Bool
  setChannelPid : Nat → Bool
  malloc : Bool

/-- `AVPLAY_MAX_DMX_AUD_CHAN_NUM`. -/
def maxDmxAudChanNum : Nat := 32

/-- A loop that destroys the channels `lo` to `hi` and ignores the results. -/
def destroyRange (destroy : Nat → Bool) (a : AudChn) (lo hi : Nat) : List DmxEvent :=
  (List.range' lo (hi - lo)).flatMap fun j => if destroy j then [.destroy (a.hDmxAud j)] else []

/-- The loop that creates `n` channels from `i` on, and the index at which it ends. -/
def createLoop (create : Nat → Option Handle) (a : AudChn) (i : Nat) : Nat → Nat × AudChn × List DmxEvent
  | 0 => (i, a, [])
  | n + 1 =>
    match create i with
    | none => (i, a, [])
    | some h =>
      let r := createLoop create (a.setHandle i h) (i + 1) n
      (r.1, r.2.1, .create h :: r.2.2)

/-- The loop that sets the PIDs of `n` channels from `i` on. -/
def pidLoop (setChannelPid : Nat → Bool) (pids : Nat → BitVec 32) (a : AudChn) (i : Nat) : Nat → Bool × AudChn
  | 0 => (true, a)
  | n + 1 =>
    if setChannelPid i then pidLoop setChannelPid pids (a.setDmxPid i (pids i)) (i + 1) n
    else (false, a)

/-- The end of `AVPLAY_SetMultiAud`, when all channels are created. -/
def choosePids (c : MultiCall) (attr : MultiAudAttr) (a : AudChn) : AudChn :=
  let r := pidLoop c.setChannelPid attr.pu32AudPid a 0 attr.u32PidNum
  if r.1 then
    { r.2 with
      dmxAudChnNum := attr.u32PidNum
      pstAcodecAttr := if c.malloc then some ((List.range attr.u32PidNum).map attr.pstAcodecAttr) else none }
  else r.2

/-- `AVPLAY_SetMultiAud` once its checks are passed. -/
def multiAud (c : MultiCall) (attr : MultiAudAttr) (a : AudChn) : AudChn × List DmxEvent :=
  let old := destroyRange c.destroyOld a 1 a.dmxAudChnNum
  let r := createLoop c.create { a with pstAcodecAttr := none } 1 (attr.u32PidNum - 1)
  if r.1 = attr.u32PidNum then (choosePids c attr r.2.1, old ++ r.2.2)
  else (r.2.1, old ++ r.2.2 ++ destroyRange c.destroyNew r.2.1 1 r.1)

/-- `AVPLAY_SetMultiAud`. -/
def setMultiAud (c : MultiCall) (a : AudChn) : AudChn × List DmxEvent :=
  match c.attr with
  | none => (a, [])
  | some attr =>
    if attr.u32PidNum ≤ maxDmxAudChanNum ∧ a.audEnable = false ∧ a.adec = true then multiAud c attr a else (a, [])

/-- `AVPLAY_SetPid` for `HI_UNF_AVPLAY_ATTR_ID_AUD_PID`. -/
def setPid (pid : BitVec 32) (a : AudChn) : AudChn :=
  if a.ts = false ∨ a.adec = false then a
  else if a.dmxAudChnNum = 1 then
    if a.audEnable then a else { a.setDmxPid 0 pid with curDmxAudChn := 0 }
  else
    match (List.range a.dmxAudChnNum).find? (fun i => a.dmxAudPid i = pid) with
    | some i => { a with curDmxAudChn := i }
    | none => a

/-- What `AVPLAY_StartAudChn` meets: `ready` tells whether all goes well before the channels are opened. -/
structure StartCall where
  ready : Bool
  openChannel : Nat → Bool
  destroy : Nat → Bool

/-- `AVPLAY_StartAudChn`. -/
def startAudChn (c : StartCall) (a : AudChn) : Bool × List DmxEvent :=
  if c.ready then
    if a.ts then
      match (List.range a.dmxAudChnNum).find? (fun i => !c.openChannel i) with
      | none => (true, [])
      | some i => (false, destroyRange c.destroy a 0 i)
    else (true, [])
  else (false, [])

/-- What `AVPLAY_StopAudChn` meets: `ready` and `rest` tell whether all goes well before and after the channels are
    closed. -/
structure StopCall where
  ready : Bool
  closeChannel : Nat → Bool
  rest : Bool

/-- `AVPLAY_StopAudChn`. -/
def stopAudChn (c : StopCall) (a : AudChn) : Bool :=
  c.ready && (!a.ts || (List.range a.dmxAudChnNum).all c.closeChannel) && c.rest

/-- The audio part of `HI_MPI_AVPLAY_Start`; `track` tells whether a track is attached. -/
def start (track : Bool) (c : StartCall) (a : AudChn) : AudChn × List DmxEvent :=
  if a.audEnable = true ∨ a.adec = false ∨ track = false then (a, [])
  else
    let r := startAudChn c a
    (if r.1 then { a with audEnable := true } else a, r.2)

/-- The audio part of `HI_MPI_AVPLAY_Stop`. -/
def stop (c : StopCall) (a : AudChn) : AudChn :=
  if a.audEnable = true ∧ stopAudChn c a = true then { a with audEnable := false } else a

/-- `AVPLAY_ResetAudChn`. -/
def resetAudChn (c : StopCall) (d : StartCall) (a : AudChn) : AudChn × List DmxEvent :=
  if a.audEnable = true ∧ stopAudChn c a = true then (a, (startAudChn d a).2) else (a, [])

/-- A call. -/
inductive AudCall
  | chnOpen (c : OpenCall)
  | chnClose (c : CloseCall)
  | setStreamMode (c : ModeCall)
  | setMultiAud (c : MultiCall)
  | setPid (pid : BitVec 32)
  | start (track : Bool) (c : StartCall)
  | stop (c : StopCall)
  | resetAudChn (c : StopCall) (d : StartCall)

/-- What a call does. -/
def call (a : AudChn) : AudCall → AudChn × List DmxEvent
  | .chnOpen c => chnOpen c a
  | .chnClose c => chnClose c a
  | .setStreamMode c => setStreamMode c a
  | .setMultiAud c => setMultiAud c a
  | .setPid pid => (setPid pid a, [])
  | .start track c => start track c a
  | .stop c => (stop c a, [])
  | .resetAudChn c d => resetAudChn c d a

/-- A player, and the channels at the demux that it has created and nobody has destroyed. -/
structure AudSys where
  chn : AudChn
  exist : Finset Handle

/-- The demux creates no channel that exists, and none with the invalid handle. -/
def Answers (S : Finset Handle) (es : List DmxEvent) : Prop := Holdings.Fresh S es ∧ .create invalidHandle ∉ es
deriving Decidable

/-- One call as a step. -/
def audStep (y : AudSys) (i : AudCall) : Option (AudSys × List DmxEvent) :=
  let r := call y.chn i
  if Answers y.exist r.2 then some (⟨r.1, Holdings.remain y.exist r.2⟩, r.2) else none

end HiSTB.Avplay.DmxAud
