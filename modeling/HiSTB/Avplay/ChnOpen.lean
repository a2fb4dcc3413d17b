import HiSTB.Avplay.Audio

/-!
# `Avplay.ChnOpen` — opening and closing the channels of a player

`HI_MPI_AVPLAY_ChnOpen`, `HI_MPI_AVPLAY_ChnClose` and `AVPLAY_SetStreamMode` of `mpi_avplay.c` with the functions below
them. The video channel has a decoder with a stream buffer and, in TS mode, a channel at the demux; the audio channel
has a decoder and, in TS mode, a channel at the demux; in TS mode both share a PCR channel. Each call of the decoders
and of the demux may fail, and then does nothing.

* `Vid`, `Aud`, `Chans` — the handles, and what they stand for;
* `mallocVidChn`, `freeVidChn`, `mallocAudChn`, `freeAudChn` — one channel;
* `chnOpen`, `chnClose`, `setStreamMode` — the calls of a user;
* `chanStep` — one call as a step, which shows what an opening call did.

Without `AVPLAY_SetMultiAud` there is at most one audio channel at the demux, the entry 0 of `hDmxAud`.
-/

namespace HiSTB.Avplay.ChnOpen

/-! ## The state -/

/-- What a player creates. -/
inductive Obj
  | vdec (h : Handle)
  | dmxVid (h : Handle)
  | adec (h : Handle)
  | dmxAud (h : Handle)
  | dmxPcr (h : Handle)
  deriving DecidableEq

/-- An object is created or destroyed. -/
inductive Event
  | create (o : Obj)
  | destroy (o : Obj)
  deriving DecidableEq

/-- `hVdec` and `hDmxVid`, `none` where the source has `HI_INVALID_HANDLE`, with what the other components have: whether
    the decoder's stream buffer is initialised, and the video channels at the demux. -/
structure Vid where
  hVdec : Option Handle
  hDmxVid : Option Handle
  bufInit : Bool
  dmxVids : List Handle
  deriving DecidableEq

/-- `hAdec` and `hDmxAud[0]`, which is `none` while `DmxAudChnNum` is 0. -/
structure Aud where
  hAdec : Option Handle
  hDmxAud : Option Handle
  deriving DecidableEq

/-- The part of `AVPLAY_S` about the channels; `ts` is the recorded stream type. -/
structure Chans where
  ts : Bool
  vid : Vid
  aud : Aud
  hDmxPcr : Option Handle
  deriving DecidableEq

/-- `HI_MPI_AVPLAY_Create`. -/
def create (ts : Bool) : Chans := ⟨ts, ⟨none, none, false, []⟩, ⟨none, none⟩, none⟩

/-- What a function returns, leaves and has created and destroyed. -/
structure Out (σ : Type) where
  ok : Bool
  state : σ
  events : List Event
  deriving DecidableEq

variable {σ : Type}

/-- Nothing to do. -/
def Out.pure (x : σ) : Out σ := ⟨true, x, []⟩

/-- The function goes on after a success. -/
def Out.andThen (r : Out σ) (f : σ → Out σ) : Out σ :=
  if r.ok then ⟨(f r.state).ok, (f r.state).state, r.events ++ (f r.state).events⟩ else r

/-- The function undoes what it did after a failure, and ignores how that goes. -/
def Out.orUndo (r : Out σ) (f : σ → Out σ) : Out σ :=
  if r.ok then r else ⟨false, (f r.state).state, r.events ++ (f r.state).events⟩

/-! ## The video channel -/

/-- `AVPLAY_MallocVdec`; `alloc` is what `HI_MPI_VDEC_AllocChan` returns. -/
def mallocVdec (alloc : Option Handle) (v : Vid) : Out Vid :=
  match alloc with
  | some h => ⟨true, { v with hVdec := some h, bufInit := false }, [.create (.vdec h)]⟩
  | none => ⟨false, v, []⟩

/-- `AVPLAY_FreeVdec`; `free` is what `HI_MPI_VDEC_FreeChan` returns. -/
def freeVdec (free : Bool) (v : Vid) : Out Vid :=
  if free then ⟨true, { v with hVdec := none, bufInit := false }, v.hVdec.toList.map fun h => .destroy (.vdec h)⟩
  else ⟨false, v, []⟩

/-- `AVPLAY_MallocDmxChn` for video. -/
def mallocDmxVid (create : Option Handle) (v : Vid) : Out Vid :=
  match create with
  | some h => ⟨true, { v with hDmxVid := some h, dmxVids := h :: v.dmxVids }, [.create (.dmxVid h)]⟩
  | none => ⟨false, v, []⟩

/-- `AVPLAY_FreeDmxChn` for video. -/
def freeDmxVid (destroy : Bool) (v : Vid) : Out Vid :=
  match v.hDmxVid with
  | none => ⟨true, v, []⟩
  | some h =>
    if destroy then ⟨true, { v with hDmxVid := none, dmxVids := v.dmxVids.erase h }, [.destroy (.dmxVid h)]⟩
    else ⟨false, v, []⟩

/-- `HI_MPI_VDEC_ChanBufferInit`. -/
def chanBufferInit (ok : Bool) (v : Vid) : Out Vid :=
  if ok then ⟨true, { v with bufInit := true }, []⟩ else ⟨false, v, []⟩

/-- `HI_MPI_VDEC_ChanBufferDeInit`. -/
def chanBufferDeInit (ok : Bool) (v : Vid) : Out Vid :=
  if ok then ⟨true, { v with bufInit := false }, []⟩ else ⟨false, v, []⟩

/-- What the calls that create a video channel return. -/
structure VidMalloc where
  vdecAlloc : Option Handle
  dmxVidCreate : Option Handle
  setTvp : Bool
  bufferInit : Bool

/-- What the calls that free a video channel return. -/
structure VidFree where
  bufferDeInit : Bool
  dmxVidDestroy : Bool
  vdecFree : Bool

/-- `AVPLAY_MallocVidChn`; `tvp` tells whether it is built with `HI_TVP_SUPPORT`. -/
def mallocVidChn (tvp ts : Bool) (c : VidMalloc) (d : VidFree) (v : Vid) : Out Vid :=
  (mallocVdec c.vdecAlloc v).andThen fun v =>
    if ts then
      ((mallocDmxVid c.dmxVidCreate v).orUndo (freeVdec d.vdecFree)).andThen fun v =>
        (chanBufferInit c.bufferInit v).orUndo fun v =>
          let r := freeDmxVid d.dmxVidDestroy v
          ⟨r.ok, (freeVdec d.vdecFree r.state).state, r.events ++ (freeVdec d.vdecFree r.state).events⟩
    else if tvp = true ∧ c.setTvp = false then ⟨false, v, []⟩
    else (chanBufferInit c.bufferInit v).orUndo (freeVdec d.vdecFree)

/-- `AVPLAY_FreeVidChn`. -/
def freeVidChn (ts : Bool) (d : VidFree) (v : Vid) : Out Vid :=
  (chanBufferDeInit d.bufferDeInit v).andThen fun v =>
    (if ts then freeDmxVid d.dmxVidDestroy v else .pure v).andThen (freeVdec d.vdecFree)

/-! ## The audio channel -/

/-- `AVPLAY_MallocAdec`; `opened` is what `HI_MPI_ADEC_Open` returns. -/
def mallocAdec (opened : Option Handle) (a : Aud) : Out Aud :=
  match opened with
  | some h => ⟨true, { a with hAdec := some h }, [.create (.adec h)]⟩
  | none => ⟨false, a, []⟩

/-- `AVPLAY_FreeAdec`; `close` is what `HI_MPI_ADEC_Close` returns. -/
def freeAdec (close : Bool) (a : Aud) : Out Aud :=
  if close then ⟨true, { a with hAdec := none }, a.hAdec.toList.map fun h => .destroy (.adec h)⟩ else ⟨false, a, []⟩

/-- `AVPLAY_MallocDmxChn` for audio. -/
def mallocDmxAud (create : Option Handle) (a : Aud) : Out Aud :=
  match create with
  | some h => ⟨true, { a with hDmxAud := some h }, [.create (.dmxAud h)]⟩
  | none => ⟨false, a, []⟩

/-- `AVPLAY_FreeDmxChn` for audio. -/
def freeDmxAud (destroy : Bool) (a : Aud) : Out Aud :=
  match a.hDmxAud with
  | none => ⟨true, a, []⟩
  | some h => if destroy then ⟨true, { a with hDmxAud := none }, [.destroy (.dmxAud h)]⟩ else ⟨false, a, []⟩

/-- What the calls that create an audio channel return. -/
structure AudMalloc where
  adecOpen : Option Handle
  dmxAudCreate : Option Handle

/-- What the calls that free an audio channel return. -/
structure AudFree where
  dmxAudDestroy : Bool
  adecClose : Bool

/-- `AVPLAY_MallocAudChn`. -/
def mallocAudChn (ts : Bool) (c : AudMalloc) (d : AudFree) (a : Aud) : Out Aud :=
  (mallocAdec c.adecOpen a).andThen fun a =>
    if ts then (mallocDmxAud c.dmxAudCreate a).orUndo (freeAdec d.adecClose) else .pure a

/-- `AVPLAY_FreeAudChn`. -/
def freeAudChn (ts : Bool) (d : AudFree) (a : Aud) : Out Aud :=
  (if ts then freeDmxAud d.dmxAudDestroy a else .pure a).andThen (freeAdec d.adecClose)

/-! ## The calls of a user -/

/-- `HI_UNF_AVPLAY_MEDIA_CHAN_E`: one of the two channels, both of them, or a value that stands for nothing. -/
inductive MediaChan
  | aud
  | vid
  | audVid
  | other
  deriving DecidableEq

/-- The check of `enChn` in `HI_MPI_AVPLAY_ChnOpen` and `HI_MPI_AVPLAY_ChnClose`. -/
def MediaChan.valid : MediaChan → Bool
  | .other => false
  | _ => true

/-- `enChn & HI_UNF_AVPLAY_MEDIA_CHAN_VID`. -/
def MediaChan.hasVid : MediaChan → Bool
  | .vid | .audVid => true
  | _ => false

/-- `enChn & HI_UNF_AVPLAY_MEDIA_CHAN_AUD`. -/
def MediaChan.hasAud : MediaChan → Bool
  | .aud | .audVid => true
  | _ => false

/-- What a call of `HI_MPI_AVPLAY_ChnOpen` meets. Each function that frees something is called once at most. -/
structure OpenCall where
  enChn : MediaChan
  vidMalloc : VidMalloc
  vidFree : VidFree
  audMalloc : AudMalloc
  audFree : AudFree
  pcrCreate : Option Handle

/-- What is left of a failed call once the channels that it names are freed. -/
def undoOpen (c : OpenCall) (s : Chans) (vid aud : Bool) (es : List Event) : Out Chans :=
  let v := if vid then freeVidChn s.ts c.vidFree s.vid else .pure s.vid
  let a := if aud then freeAudChn s.ts c.audFree s.aud else .pure s.aud
  ⟨false, { s with vid := v.state, aud := a.state }, es ++ v.events ++ a.events⟩

/-- The end of `HI_MPI_AVPLAY_ChnOpen`, about the PCR channel; `es` is what the call has done so far. -/
def openPcr (c : OpenCall) (s : Chans) (es : List Event) : Out Chans :=
  if s.ts = true ∧ s.hDmxPcr = none then
    match c.pcrCreate with
    | some h => ⟨true, { s with hDmxPcr := some h }, es ++ [.create (.dmxPcr h)]⟩
    | none => undoOpen c s c.enChn.hasVid c.enChn.hasAud es
  else ⟨true, s, es⟩

/-- `HI_MPI_AVPLAY_ChnOpen`. -/
def chnOpen (tvp : Bool) (c : OpenCall) (s : Chans) : Out Chans :=
  if c.enChn.valid = false then ⟨false, s, []⟩
  else
    let v :=
      if c.enChn.hasVid = true ∧ s.vid.hVdec = none then mallocVidChn tvp s.ts c.vidMalloc c.vidFree s.vid
        else .pure s.vid
    if v.ok = false then ⟨false, { s with vid := v.state }, v.events⟩
    else
      let a :=
        if c.enChn.hasAud = true ∧ s.aud.hAdec = none then mallocAudChn s.ts c.audMalloc c.audFree s.aud
          else .pure s.aud
      let t := { s with vid := v.state, aud := a.state }
      if a.ok = false then undoOpen c t c.enChn.hasVid false (v.events ++ a.events)
      else openPcr c t (v.events ++ a.events)

/-- What a call of `HI_MPI_AVPLAY_ChnClose` meets; `winAttached` tells whether a window is attached. -/
structure CloseCall where
  enChn : MediaChan
  vidEnable : Bool
  winAttached : Bool
  vidFree : VidFree
  audEnable : Bool
  trackNum : Nat
  audFree : AudFree
  pcrDestroy : Bool

/-- The PCR channel is destroyed, if there is one. -/
def freePcr (destroy : Bool) (s : Chans) : Out Chans :=
  match s.hDmxPcr with
  | none => ⟨true, s, []⟩
  | some h => if destroy then ⟨true, { s with hDmxPcr := none }, [.destroy (.dmxPcr h)]⟩ else ⟨false, s, []⟩

/-- `HI_MPI_AVPLAY_ChnClose` for the video channel. -/
def closeVid (c : CloseCall) (s : Chans) : Out Chans :=
  if c.enChn.hasVid then
    if c.vidEnable = true ∨ c.winAttached = true then ⟨false, s, []⟩
    else if s.vid.hVdec = none then ⟨true, s, []⟩
    else
      let v := freeVidChn s.ts c.vidFree s.vid
      ⟨v.ok, { s with vid := v.state }, v.events⟩
  else ⟨true, s, []⟩

/-- `HI_MPI_AVPLAY_ChnClose` for the audio channel. -/
def closeAud (c : CloseCall) (s : Chans) : Out Chans :=
  if c.enChn.hasAud then
    if c.audEnable = true ∨ c.trackNum ≠ 0 then ⟨false, s, []⟩
    else if s.aud.hAdec = none then ⟨true, s, []⟩
    else
      let a := freeAudChn s.ts c.audFree s.aud
      ⟨a.ok, { s with aud := a.state }, a.events⟩
  else ⟨true, s, []⟩

/-- `HI_MPI_AVPLAY_ChnClose`. -/
def chnClose (c : CloseCall) (s : Chans) : Out Chans :=
  if c.enChn.valid = false then ⟨false, s, []⟩
  else
    ((closeVid c s).andThen (closeAud c)).andThen fun s =>
      if s.vid.hVdec = none ∧ s.aud.hAdec = none then freePcr c.pcrDestroy s else .pure s

/-- `HI_UNF_AVPLAY_STREAM_TYPE_E`; `butt` stands for all values from `HI_UNF_AVPLAY_STREAM_TYPE_BUTT` on. -/
inductive StreamType
  | ts
  | es
  | butt
  deriving DecidableEq

/-- `HI_UNF_AVPLAY_STREAM_ATTR_S`. -/
structure StreamAttr where
  enStreamType : StreamType
  u32VidBufSize : BitVec 32
  u32AudBufSize : BitVec 32

/-- The checks of `AVPLAY_SetStreamMode`, with `AVPLAY_MIN_VID_SIZE`, `AVPLAY_MAX_VID_SIZE`, `AVPLAY_MIN_AUD_SIZE` and
    `AVPLAY_MAX_AUD_SIZE`. -/
def StreamAttr.valid (attr : StreamAttr) : Bool :=
  attr.enStreamType ≠ .butt &&
    (512 * 1024 ≤ attr.u32VidBufSize && attr.u32VidBufSize ≤ 64 * 1024 * 1024) &&
    (192 * 1024 ≤ attr.u32AudBufSize && attr.u32AudBufSize ≤ 4 * 1024 * 1024)

/-- The stream type is TS. -/
def StreamAttr.ts (attr : StreamAttr) : Bool := attr.enStreamType = .ts

/-- What a call of `AVPLAY_SetStreamMode` meets; `dmxVidUndo` is the answer if the new video channel at the demux is
    destroyed again. -/
structure ModeCall where
  attr : StreamAttr
  vidEnable : Bool
  audEnable : Bool
  bufferDeInit : Bool
  dmxVidDestroy : Bool
  dmxAudDestroy : Bool
  pcrDestroy : Bool
  dmxVidCreate : Option Handle
  bufferInit : Bool
  dmxVidUndo : Bool
  dmxAudCreate : Option Handle
  pcrCreate : Option Handle

/-- The video channel leaves the old mode. -/
def leaveVid (c : ModeCall) (s : Chans) : Out Chans :=
  if s.vid.hVdec = none then .pure s
  else
    let v := (chanBufferDeInit c.bufferDeInit s.vid).andThen fun v =>
      if s.ts then freeDmxVid c.dmxVidDestroy v else .pure v
    ⟨v.ok, { s with vid := v.state }, v.events⟩

/-- The audio channel leaves the old mode. -/
def leaveAud (c : ModeCall) (s : Chans) : Out Chans :=
  if s.aud.hAdec = none ∨ s.ts = false then .pure s
  else
    let a := freeDmxAud c.dmxAudDestroy s.aud
    ⟨a.ok, { s with aud := a.state }, a.events⟩

/-- The video channel enters the new mode. -/
def enterVid (c : ModeCall) (s : Chans) : Out Chans :=
  if s.vid.hVdec = none then .pure s
  else
    let v :=
      if s.ts then
        (mallocDmxVid c.dmxVidCreate s.vid).andThen fun v =>
          (chanBufferInit c.bufferInit v).orUndo (freeDmxVid c.dmxVidUndo)
      else chanBufferInit c.bufferInit s.vid
    ⟨v.ok, { s with vid := v.state }, v.events⟩

/-- The audio channel enters the new mode. -/
def enterAud (c : ModeCall) (s : Chans) : Out Chans :=
  if s.aud.hAdec = none ∨ s.ts = false then .pure s
  else
    let a := mallocDmxAud c.dmxAudCreate s.aud
    ⟨a.ok, { s with aud := a.state }, a.events⟩

/-- The PCR channel of the new mode. -/
def enterPcr (c : ModeCall) (s : Chans) : Out Chans :=
  if s.ts then
    match c.pcrCreate with
    | some h => ⟨true, { s with hDmxPcr := some h }, [.create (.dmxPcr h)]⟩
    | none => ⟨false, s, []⟩
  else .pure s

/-- `AVPLAY_SetStreamMode`. -/
def setStreamMode (c : ModeCall) (s : Chans) : Out Chans :=
  if c.attr.valid = false ∨ c.vidEnable = true ∨ c.audEnable = true then ⟨false, s, []⟩
  else
    (((leaveVid c s).andThen (leaveAud c)).andThen (freePcr c.pcrDestroy)).andThen fun s =>
      ((enterVid c { s with ts := c.attr.ts }).andThen (enterAud c)).andThen (enterPcr c)

/-! ## Steps -/

/-- A call. -/
inductive Call
  | chnOpen (c : OpenCall)
  | chnClose (c : CloseCall)
  | setStreamMode (c : ModeCall)

/-- What a call of `HI_MPI_AVPLAY_ChnOpen` found and did. -/
structure Opened where
  before : Chans
  out : Out Chans

/-- One call as a step. -/
def chanStep (tvp : Bool) (s : Chans) : Call → Option (Chans × List Opened)
  | .chnOpen c => some ((chnOpen tvp c s).state, [⟨s, chnOpen tvp c s⟩])
  | .chnClose c => some ((chnClose c s).state, [])
  | .setStreamMode c => some ((setStreamMode c s).state, [])

end HiSTB.Avplay.ChnOpen
