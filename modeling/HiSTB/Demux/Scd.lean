import HiSTB.Lib.Run

/-!
# `Demux.Scd` — the index of a recording (`drv_demux_func.c`, without `DMX_SUPPORT_SCRAMB_SOFT_IDX`)

The hardware finds start codes in the stream that is recorded and writes a record for each of them into the blocks of
the SCD queue. `DMX_DRV_REC_AcquireRecIndex` hands the records to a converter, one after the other, until a frame is
complete, and returns an index entry for it. How far it got in the first block of the queue is in `u32ProcsOffset`; a
block goes back to its free queue when all of it is read. Where the queue is empty the call waits for the hardware.

The time of an entry is counted from the first one. The clock has 32 bits at 90 kHz, and a time that seems to go back
is taken for a wrap of the clock.

One pass of the endless loop is one step; so is the end of the wait. The queue is a list: the hardware does not write
over blocks that did not go back, and leaves a slot free, so that the pointers are equal where it is empty. The
converters are not in the repository and are parameters. `BUG_ON` ends the run. Left out: `bSCDBufIsEmpty`, which
nothing else here reads, and `u32ProcsBlk`.
-/

namespace HiSTB.Demux.Scd

open Lib

abbrev U32 := BitVec 32

/-- `DMX_MAX_SCR_MS`. -/
def maxScrMs : U32 := 47721858

/-- `HI_UNF_DMX_REC_INDEX_S`. -/
structure Index where
  frameType : Nat
  globalOffset : BitVec 64
  frameSize : U32
  ptsMs : U32
  dataTimeMs : U32
  deriving DecidableEq

/-- All fields are zero. -/
def Index.zero : Index := ⟨0, 0, 0, 0, 0⟩

/-- What is not in the repository: the records and their size and clock, the parser of pictures with its start codes,
    and the converters; `dmxScdToAudioIndex` says whether it succeeded, and what it made of the frame. -/
structure Converter (ρ φ π : Type) where
  recSize : Nat
  recSize_pos : 0 < recSize
  srcClk : ρ → U32
  frameTypeUnknown : Nat
  dmxScdToVideoIndex : Bool → ρ → Option φ
  fidxFeedStartCode : π → φ → Index → π × Index
  dmxScdToAudioIndex : Index → ρ → Bool × Index

/-- A block of the SCD queue: its length, and the record at each offset. -/
structure Block (ρ : Type) where
  dataLen : Nat
  scData : Nat → ρ
  len_lt : dataLen < 0x10000

inductive IndexType
  | none
  | video
  | audio
  deriving DecidableEq

/-- `DMX_RecInfo_S`; `useTimeStamp` says that `enRecTimeStamp` is at least `DMX_REC_TIMESTAMP_ZERO`. -/
structure RecInfo (π : Type) where
  started : Bool
  indexType : IndexType
  useTimeStamp : Bool
  picParser : π
  lastFrameInfo : Index
  firstFrameMs : U32
  prevFrameMs : U32
  addUpMs : U32

inductive Ret
  | success (index : Index)
  | notStartRecChan
  | noAvailableData
  | timeout
  deriving DecidableEq

section Passes

variable {ρ φ π : Type} (cv : Converter ρ φ π)

/-- What a loop over records comes to: the records that it handed to the converter, and the frame that it completed. -/
structure Loop (ρ π : Type) where
  recInfo : RecInfo π
  taken : List ρ
  valid : Option Index

/-- A record in front of the others. -/
def Loop.after (r : ρ) (l : Loop ρ π) : Loop ρ π := { l with taken := r :: l.taken }

/-- The loop for video. -/
def videoLoop (x : RecInfo π) : List ρ → Loop ρ π
  | [] => ⟨x, [], none⟩
  | r :: rs =>
    match cv.dmxScdToVideoIndex x.useTimeStamp r with
    | none => (videoLoop x rs).after r
    | some esScd =>
      let fed := cv.fidxFeedStartCode x.picParser esScd x.lastFrameInfo
      if x.lastFrameInfo.globalOffset < fed.2.globalOffset then
        let frame := { fed.2 with dataTimeMs := cv.srcClk r / 90 }
        ⟨{ x with picParser := fed.1, lastFrameInfo := frame }, [r], some frame⟩
      else (videoLoop { x with picParser := fed.1, lastFrameInfo := fed.2 } rs).after r

/-- The loop for audio, with `ThisFrame`. -/
def audioLoop (x : RecInfo π) (thisFrame : Index) : List ρ → Loop ρ π
  | [] => ⟨x, [], none⟩
  | r :: rs =>
    let converted := cv.dmxScdToAudioIndex thisFrame r
    if converted.1 then
      if x.lastFrameInfo.frameType = cv.frameTypeUnknown ∨ x.lastFrameInfo.dataTimeMs = 0 then
        (audioLoop { x with lastFrameInfo := converted.2 } converted.2 rs).after r
      else
        let frameSize := (converted.2.globalOffset - x.lastFrameInfo.globalOffset).setWidth 32
        ⟨{ x with lastFrameInfo := converted.2 }, [r], some { x.lastFrameInfo with frameSize := frameSize }⟩
    else (audioLoop x converted.2 rs).after r

/-- The records of a block from an offset on. -/
def Block.from (b : Block ρ) (offset : Nat) : List ρ :=
  (List.range ((b.dataLen - offset) / cv.recSize)).map (fun i => b.scData (offset + i * cv.recSize))

def scLoop (x : RecInfo π) (rs : List ρ) : Loop ρ π :=
  if x.indexType = .video then videoLoop cv x rs else audioLoop cv x .zero rs

end Passes

/-- The first frame, or one that comes while `FirstFrameMs` is zero. -/
def RecInfo.setFirst {π : Type} (x : RecInfo π) (dataTimeMs : U32) : RecInfo π :=
  if x.firstFrameMs = 0 then { x with firstFrameMs := dataTimeMs, prevFrameMs := dataTimeMs } else x

def RecInfo.sinceFirst {π : Type} (x : RecInfo π) (dataTimeMs : U32) : U32 :=
  dataTimeMs + (x.addUpMs - x.firstFrameMs)

def RecInfo.setTimes {π : Type} (x : RecInfo π) (addUpMs prevFrameMs : U32) : RecInfo π :=
  { x with addUpMs := addUpMs, prevFrameMs := prevFrameMs }

/-- The time of a frame, counted from the first one; it becomes `PrevFrameMs`. -/
def RecInfo.rebase {π : Type} (x : RecInfo π) (dataTimeMs : U32) : RecInfo π × U32 :=
  let dataTimeMs := x.sinceFirst dataTimeMs
  if dataTimeMs < x.prevFrameMs then
    (x.setTimes (x.addUpMs + maxScrMs) (dataTimeMs + maxScrMs), dataTimeMs + maxScrMs)
  else (x.setTimes x.addUpMs dataTimeMs, dataTimeMs)

def adjust {π : Type} (x : RecInfo π) (dataTimeMs : U32) : RecInfo π × U32 := (x.setFirst dataTimeMs).rebase dataTimeMs

/-- Where a call is: at the head of its loop, or waiting for the hardware, with the time that is left. -/
inductive Pc
  | idle
  | head (jiffy : Nat)
  | waiting (jiffy : Nat)
  deriving DecidableEq

/-- The blocks of the queue, `u32ProcsOffset`, the recording, and the call. -/
structure Sys (ρ π : Type) where
  oq : List (Block ρ)
  procsOffset : Nat
  recInfo : RecInfo π
  pc : Pc

inductive Input (ρ : Type)
  /-- The hardware appends a block. -/
  | append (b : Block ρ)
  | acquire (jiffy : Nat)
  /-- A pass of the loop. -/
  | pass
  /-- The wait ends with `OqWakeUp` set, and returned this. -/
  | woken (jiffy : Nat)
  /-- The wait ends without that. -/
  | expired

inductive Event (ρ : Type)
  /-- A record is handed to the converter. -/
  | converted (r : ρ)
  /-- A block goes back to the free queue. -/
  | released (b : Block ρ)
  /-- A frame is complete; its time is not adjusted yet. -/
  | valid (index : Index)
  | returned (ret : Ret)

section Steps

variable {ρ φ π : Type} (cv : Converter ρ φ π)

def Sys.return' (x : Sys ρ π) (ret : Ret) : Sys ρ π × List (Event ρ) := ({ x with pc := .idle }, [.returned ret])

/-- A pass that finds a block. -/
def takeBlock (x : Sys ρ π) (jiffy : Nat) (b : Block ρ) (bs : List (Block ρ)) : Option (Sys ρ π × List (Event ρ)) :=
  let l := scLoop cv x.recInfo (b.from cv x.procsOffset)
  let procsOffset := x.procsOffset + l.taken.length * cv.recSize
  -- `DmxOQRelease` clears the offset
  let done := procsOffset = b.dataLen
  let x := { x with
    oq := if done then bs else x.oq
    procsOffset := if done then 0 else procsOffset
    recInfo := l.recInfo
    pc := .head jiffy }
  let events := l.taken.map .converted ++ if done then [.released b] else []
  match l.valid with
  | none => some (x, events)
  | some frame =>
    if maxScrMs < frame.dataTimeMs then none
    else
      let adjusted := adjust x.recInfo frame.dataTimeMs
      let index := { frame with dataTimeMs := adjusted.2 }
      some ({ x with recInfo := adjusted.1, pc := .idle }, events ++ [.valid frame, .returned (.success index)])

/-- The rest of a pass behind the test for an empty queue. -/
def passBody (x : Sys ρ π) (jiffy : Nat) : Option (Sys ρ π × List (Event ρ)) :=
  if x.recInfo.started = false then some (x.return' .noAvailableData)
  else
    match x.oq with
    | [] => some ({ x with pc := .head jiffy }, [])
    | b :: bs => takeBlock cv x jiffy b bs

def step (x : Sys ρ π) (i : Input ρ) : Option (Sys ρ π × List (Event ρ)) :=
  match i, x.pc with
  | .append b, _ => some ({ x with oq := x.oq ++ [b] }, [])
  | .acquire jiffy, .idle =>
    if x.recInfo.started = false then some (x.return' .notStartRecChan)
    else if x.recInfo.indexType = .none then some (x.return' .noAvailableData)
    else some ({ x with pc := .head jiffy }, [])
  | .pass, .head jiffy =>
    if x.oq.isEmpty then
      if jiffy = 0 then some (x.return' .noAvailableData) else some ({ x with pc := .waiting jiffy }, [])
    else passBody cv x jiffy
  | .woken left, .waiting _ => passBody cv x left
  | .expired, .waiting _ => some (x.return' .timeout)
  | _, _ => none

/-- A recording that was just started. -/
def start (indexType : IndexType) (useTimeStamp : Bool) (picParser : π) (prevFrameMs : U32) : Sys ρ π :=
  ⟨[], 0, ⟨true, indexType, useTimeStamp, picParser, .zero, 0, prevFrameMs, 0⟩, .idle⟩

end Steps

end HiSTB.Demux.Scd
