import HiSTB.Lib.Run

/-!
# `Demux.RecIndex` — recorded data with its index (`drv_demux_func.c`, without `DMX_DATAINDEX_V1_SUPPORT`)

The record buffer is a ring of blocks. The index says where each frame of the stream begins and how long it is;
`DMX_AcquireRecDataIndex` hands out one block at a time, with the index entries of the frames that end in it. A frame
that goes past the block stays in the list `head`, and the entries of a block that is not complete are carried over
to the next call.

A call goes on until the block is complete or until the index has nothing more. Where it asks for the next entry it
waits here for an answer (`Pc.asking`), so that what the index says is an input. `BUG` and `BUG_ON` end the run.

Left out: `PrevFrameEndAddr`, which only a warning reads, `u32ProcsBlk`, which these calls do not read, the other
fields of an index entry, which are copied with it, and recordings without an index.
-/

namespace HiSTB.Demux.RecIndex

open Lib

/-- `DMX_FQ_Info_S` of a recording: `blockCnt` blocks, as `DMX_DRV_REC_CreateChannel` cuts the size. `maxIdx` is
    `DMX_MAX_IDX_ACQUIRED_EACH_TIME`, the length of `RemRecIdx`. -/
structure Fq where
  bufPhyAddr : Nat
  bufVirAddr : Nat
  blockSize : Nat
  blockCnt : Nat
  maxIdx : Nat
  blockSize_pos : 0 < blockSize
  blockCnt_pos : 0 < blockCnt
  maxIdx_pos : 0 < maxIdx
  /-- Where the memory is: no sum of an address of the buffer and the size of a frame is too long for a `HI_U32`. -/
  placed : bufPhyAddr + 2 * (blockCnt * blockSize) ≤ 0x100000000

def Fq.bufSize (q : Fq) : Nat := q.blockCnt * q.blockSize

/-- The first address behind the buffer. -/
def Fq.bufEnd (q : Fq) : Nat := q.bufPhyAddr + q.bufSize

/-- `HI_UNF_DMX_REC_INDEX_S`. -/
structure Index where
  globalOffset : Nat
  frameSize : Nat
  deriving DecidableEq

/-- `HI_UNF_DMX_REC_DATA_S`; `dataAddr` is the virtual address. -/
structure RecData where
  dataPhyAddr : Nat
  dataAddr : Nat
  len : Nat
  deriving DecidableEq

/-- `Dmx_Rec_Data_Index_Helper`: a frame in one slice, or in two where it goes around the end of the buffer
    (`rewind`); `dataSel` where the first slice is done. -/
structure Helper where
  data0 : RecData
  data1 : RecData
  rewind : Bool
  dataSel : Bool
  index : Index
  deriving DecidableEq

/-- `DMX_RecInfo_S`; the length of `remRecIdx` is `RemIdxCnt`. -/
structure RecInfo where
  started : Bool
  head : List Helper
  blockStartAddr : Nat
  remRecData : RecData
  remRecIdx : List Index
  deriving DecidableEq

/-- What `DMX_DRV_REC_AcquireRecDataIndex` hands out. -/
structure DataIndex where
  recData : RecData
  index : List Index
  deriving DecidableEq

inductive Ret
  | success
  | data (d : DataIndex)
  | notStartRecChan
  | overflowBuffer
  | noAvailableData
  | failure
  deriving DecidableEq

/-- What there is when the list is empty. -/
inductive Answer
  /-- `FqOverflowCount` is not zero. -/
  | overflow
  /-- There is no memory for the helper. -/
  | noMem
  /-- `DMX_DRV_REC_AcquireRecIndex` fails. -/
  | noIndex
  | index (x : Index)
  deriving DecidableEq

namespace RecInfo

variable (q : Fq)

def virAddr (phyAddr : Nat) : Nat := q.bufVirAddr + (phyAddr - q.bufPhyAddr)

/-- `BUG_ON`. -/
def bugOn {α : Type} (c : Prop) [Decidable c] (k : Option α) : Option α := if c then none else k

/-- The part of `DMX_GetRecDataIndex` behind `DMX_DRV_REC_AcquireRecIndex`. -/
def getRecDataIndex (s : RecInfo) (x : Index) : RecInfo :=
  let newFrameStartAddr := q.bufPhyAddr + x.globalOffset % q.bufSize
  let newFrameEndAddr := newFrameStartAddr + x.frameSize
  if x.frameSize ≥ q.bufSize ∨ x.frameSize = 0 then s
  else if newFrameEndAddr > q.bufEnd then
    let data0 : RecData := ⟨newFrameStartAddr, virAddr q newFrameStartAddr, q.bufEnd - newFrameStartAddr⟩
    let data1 : RecData := ⟨q.bufPhyAddr, virAddr q q.bufPhyAddr, x.frameSize - data0.len⟩
    { s with head := s.head ++ [⟨data0, data1, true, false, x⟩] }
  else
    let data0 : RecData := ⟨newFrameStartAddr, virAddr q newFrameStartAddr, x.frameSize⟩
    { s with head := s.head ++ [⟨data0, ⟨0, 0, 0⟩, false, false, x⟩] }

/-- The block from `BlockStartAddr` on, as far as it is there. -/
def blockData (s : RecInfo) (len : Nat) : RecData := ⟨s.blockStartAddr, virAddr q s.blockStartAddr, len⟩

/-- The index entry goes with the block, and the helper is freed. -/
def takeIndex (s : RecInfo) (e : Helper) : RecInfo := { s with remRecIdx := s.remRecIdx ++ [e.index] }

/-- `DMX_NewNoRewindFrame`: the new state, and the helper where it stays in the list. -/
def newNoRewindFrame (s : RecInfo) (e : Helper) : Option (RecInfo × Option Helper) :=
  let frameEnd := e.data0.dataPhyAddr + e.data0.len
  if s.blockStartAddr ≥ frameEnd then some ({ s with remRecData := blockData q s q.blockSize }, some e)
  else if frameEnd - s.blockStartAddr > q.blockSize then
    some ({ s with remRecData := blockData q s q.blockSize }, some e)
  else
    let len := frameEnd - s.blockStartAddr
    bugOn (len > q.blockSize) (some (takeIndex { s with remRecData := blockData q s len } e, none))

/-- `DMX_NewRewindFrame`. -/
def newRewindFrame (s : RecInfo) (e : Helper) : Option (RecInfo × Option Helper) :=
  if e.dataSel = false then
    let sliceEnd := e.data0.dataPhyAddr + e.data0.len
    bugOn (s.blockStartAddr ≥ sliceEnd)
      (if sliceEnd - s.blockStartAddr ≥ q.blockSize then
        let data := blockData q s q.blockSize
        some ({ s with remRecData := data },
          some (if data.dataPhyAddr + data.len = q.bufEnd then { e with dataSel := true } else e))
      else none)
  else
    let sliceEnd := e.data1.dataPhyAddr + e.data1.len
    bugOn (s.blockStartAddr ≥ sliceEnd)
      (if sliceEnd - s.blockStartAddr > q.blockSize then
        some ({ s with remRecData := blockData q s q.blockSize }, some e)
      else
        let len := sliceEnd - s.blockStartAddr
        bugOn (len > q.blockSize) (some (takeIndex { s with remRecData := blockData q s len } e, none)))

/-- `DMX_AppendNoRewindFrame`. -/
def appendNoRewindFrame (s : RecInfo) (e : Helper) : Option (RecInfo × Option Helper) :=
  let frameEnd := e.data0.dataPhyAddr + e.data0.len
  if s.blockStartAddr ≥ frameEnd then some ({ s with remRecData := { s.remRecData with len := q.blockSize } }, some e)
  else if frameEnd - s.blockStartAddr > q.blockSize then
    some ({ s with remRecData := { s.remRecData with len := q.blockSize } }, some e)
  else
    let len := frameEnd - s.blockStartAddr
    bugOn (len > q.blockSize)
      (some (takeIndex { s with remRecData := { s.remRecData with len := len } } e, none))

/-- `DMX_AppendRewindFrame`. -/
def appendRewindFrame (s : RecInfo) (e : Helper) : Option (RecInfo × Option Helper) :=
  if e.dataSel = false then
    let sliceEnd := e.data0.dataPhyAddr + e.data0.len
    bugOn (s.blockStartAddr ≥ sliceEnd)
      (if sliceEnd - s.blockStartAddr ≥ q.blockSize then
        let data : RecData := { s.remRecData with len := q.blockSize }
        some ({ s with remRecData := data },
          some (if data.dataPhyAddr + data.len = q.bufEnd then { e with dataSel := true } else e))
      else none)
  else none

/-- One round of the loop of `DMX_AcquireRecDataIndex`, for the first helper of the list. -/
def frame (s : RecInfo) (e : Helper) : Option (RecInfo × Option Helper) :=
  if s.remRecIdx.length = 0 then
    if e.rewind = false then newNoRewindFrame q s e else newRewindFrame q s e
  else if s.remRecIdx.length < q.maxIdx then
    if e.rewind = false then appendNoRewindFrame q s e else appendRewindFrame q s e
  else none

/-- The rounds as long as there is a helper in the list. -/
def frames (s : RecInfo) : List Helper → Option RecInfo
  | [] => some { s with head := [] }
  | e :: rest =>
    if s.remRecData.len < q.blockSize then
      match frame q s e with
      | none => none
      | some (t, some e') => some { t with head := e' :: rest }
      | some (t, none) => frames t rest
    else some { s with head := e :: rest }

/-- The `memset` of `RemRecData` at the beginning of `DMX_AcquireRecDataIndex`. -/
def beginBlock (s : RecInfo) : RecInfo := if s.remRecIdx.length = 0 then { s with remRecData := ⟨0, 0, 0⟩ } else s

/-- The end of `DMX_AcquireRecDataIndex`; `ret` where no block is complete. -/
def finish (s : RecInfo) (ret : Ret) : Option (RecInfo × Ret) :=
  if s.remRecData.len = q.blockSize then
    bugOn (s.remRecIdx.length > q.maxIdx)
      (let next := s.remRecData.dataPhyAddr + s.remRecData.len
       some ({ s with blockStartAddr := if next = q.bufEnd then q.bufPhyAddr else next, remRecIdx := [] },
        .data ⟨s.remRecData, s.remRecIdx⟩))
  else some (s, ret)

/-- `DMX_DRV_REC_StartRecChn`. -/
def startRecChn (s : RecInfo) : Option RecInfo :=
  if s.started then some s
  else bugOn (s.head ≠ []) (some { s with started := true, blockStartAddr := q.bufPhyAddr, remRecIdx := [] })

/-- `DMX_DRV_REC_StopRecChn`. -/
def stopRecChn (s : RecInfo) : RecInfo :=
  if s.started = false then s else { s with started := false, remRecIdx := [], head := [] }

end RecInfo

/-- Where the calls are. -/
inductive Pc
  | idle
  /-- In `DMX_AcquireRecDataIndex`, where the list is empty. -/
  | asking
  /-- Behind a `BUG`. -/
  | halted
  deriving DecidableEq

structure Sys where
  info : RecInfo
  pc : Pc
  deriving DecidableEq

inductive Input
  | start
  | stop
  | acquire
  /-- What the index has, where a call asks. -/
  | answer (a : Answer)
  | suspend
  /-- `reaches` where `DMX_OsiResume` comes to the recordings. -/
  | resume (reaches : Bool)
  deriving DecidableEq

inductive Event
  | ret (r : Ret)
  | bug
  deriving DecidableEq

/-- `BUG` where there is no state. -/
def orBug (s : Sys) : Option (RecInfo × Ret) → Sys × List Event
  | some (t, r) => (⟨t, .idle⟩, [.ret r])
  | none => ({ s with pc := .halted }, [.bug])

/-- The loop of `DMX_AcquireRecDataIndex`, until the block is complete or the list is empty. -/
def go (q : Fq) (s : RecInfo) : Sys × List Event :=
  match s.frames q s.head with
  | none => (⟨s, .halted⟩, [.bug])
  | some t => if t.remRecData.len < q.blockSize then (⟨t, .asking⟩, []) else orBug ⟨t, .idle⟩ (t.finish q .failure)

/-- The beginning of `DMX_AcquireRecDataIndex`. -/
def acquireRecDataIndex (q : Fq) (s : RecInfo) : Sys × List Event :=
  if (s.blockStartAddr - q.bufPhyAddr) % q.blockSize ≠ 0 then (⟨s, .halted⟩, [.bug])
  else go q s.beginBlock

/-- One call, or the part of `DMX_AcquireRecDataIndex` from one question to the next. -/
def step (q : Fq) (s : Sys) (i : Input) : Option (Sys × List Event) :=
  match s.pc, i with
  | .idle, .start => some (orBug s ((s.info.startRecChn q).map (·, .success)))
  | .idle, .stop => some (⟨s.info.stopRecChn, .idle⟩, [.ret .success])
  | .idle, .acquire =>
    if s.info.started then some (acquireRecDataIndex q s.info) else some (s, [.ret .notStartRecChan])
  | .idle, .suspend => some (s, [.ret .success])
  | .idle, .resume reaches =>
    if reaches ∧ s.info.started = true then
      some (orBug s (({ s.info with started := false } : RecInfo).startRecChn q |>.map (·, .success)))
    else some (s, [.ret .success])
  | .asking, .answer .overflow => some (orBug s (s.info.finish q .overflowBuffer))
  | .asking, .answer .noMem | .asking, .answer .noIndex => some (orBug s (s.info.finish q .noAvailableData))
  | .asking, .answer (.index x) => some (go q (s.info.getRecDataIndex q x))
  | _, _ => none

/-- A recording that was created. -/
def init : Sys := ⟨⟨false, [], 0, ⟨0, 0, 0⟩, []⟩, .idle⟩

end HiSTB.Demux.RecIndex
