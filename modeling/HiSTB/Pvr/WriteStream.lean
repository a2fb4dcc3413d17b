import HiSTB.Lib.Run
import HiSTB.Lib.Ring

/-!
# `Pvr.WriteStream` — writing the stream of a recording (`hi_pvr_rec_ctrl.c`)

`PVRRecCycWriteStream` appends a block to the file of a recording. A recording of fixed size ends at the maximum size;
a rewinding one goes on at the start of the file, when the maximum size is reached, or when the index says so
(rewind by time).

The file maps a position to its byte, where there is one. What `PVR_PWRITE64` does is an input: how many bytes each
call writes, or its `errno`. A call whose answers run out has not returned.

Left out: the log messages, and the check against the play position, which only prints.
-/

namespace HiSTB.Pvr.WriteStream

open Lib

abbrev Byte := BitVec 8

abbrev File := Nat → Option Byte

inductive Ret
  | success
  | failure
  | fileDiscFull
  | fileCantWrite
  | fileTillEnd
  /-- `HI_ASSERT` failed. -/
  | assertion
  deriving DecidableEq

inductive RewindType
  | byTime
  | bySize
  | byBoth
  deriving DecidableEq

/-- What `PVRRecCycWriteStream` uses of the index handle. -/
structure Index where
  maxCycSize : BitVec 64
  rewindType : RewindType
  timeRewindFlagForFile : Bool
  timeRewindMaxSize : BitVec 64
  fileSizeGlobal : BitVec 64

/-- What it uses of `PVR_REC_CHN_S`; `allTs` is the stream type `HI_UNF_PVR_STREAM_TYPE_ALL_TS`. -/
structure RecChn where
  allTs : Bool
  maxFileSize : BitVec 64
  maxTimeInMs : BitVec 64
  rewind : Bool
  indexHandle : Option Index
  curFileSize : BitVec 64
  curWritePos : BitVec 64
  overFixTimes : Int
  eventFlg : Bool
  dataFile : File

/-- `HI_UNF_DMX_REC_DATA_S`: a block in memory. Its length fits in the `ssize_t` that `PVR_PWRITE64` returns. -/
structure RecData where
  dataAddr : BitVec 32
  bytes : List Byte
  lt : bytes.length < 0x80000000

def RecData.len (d : RecData) : BitVec 32 := BitVec.ofNat 32 d.bytes.length

/-- What a `PVR_PWRITE64` does: it writes `n + 1` bytes, or all that are left; or it fails. -/
inductive Answer
  | wrote (n : Nat)
  | eintr
  | enospc
  | other
  deriving DecidableEq

/-- The loop of `PVRRecWriteStreamDirect` behind `sizeWriten` bytes; the answers that it did not use are returned. -/
def writeLoop (buf : List Byte) (offsetInFile : BitVec 64) :
    List Answer → File → Nat → Option (File × Ret × List Answer)
  | [], _, _ => none
  | .wrote n :: as, file, sizeWriten =>
    let piece := (buf.drop sizeWriten).take (n + 1)
    let file := writeAt file (offsetInFile + BitVec.ofNat 64 sizeWriten).toNat (piece.map some)
    let sizeWriten := sizeWriten + piece.length
    if sizeWriten < buf.length then writeLoop buf offsetInFile as file sizeWriten else some (file, .success, as)
  | .eintr :: as, file, sizeWriten =>
    -- `continue` goes to the loop's condition
    if sizeWriten < buf.length then writeLoop buf offsetInFile as file sizeWriten else some (file, .success, as)
  | .enospc :: as, file, _ => some (file, .fileDiscFull, as)
  | .other :: as, file, _ => some (file, .fileCantWrite, as)

/-- `PVRRecWriteStreamDirect`. -/
def writeStreamDirect (file : File) (buf : List Byte) (offsetInFile : BitVec 64) (as : List Answer) :
    Option (File × Ret × List Answer) :=
  writeLoop buf offsetInFile as file 0

namespace RecChn

/-- `PVR_REC_IS_FIXSIZE`. -/
def isFixSize (c : RecChn) : Bool := (c.maxFileSize > 0 || c.maxTimeInMs > 0) && !c.rewind

/-- `PVR_REC_IS_REWIND`. -/
def isRewind (c : RecChn) : Bool := c.rewind

/-- `u64MaxSize`; `none` where there is no index handle to ask. -/
def maxSize (c : RecChn) : Option (BitVec 64) :=
  if c.allTs then some c.maxFileSize else c.indexHandle.map Index.maxCycSize

/-- How `PVRRecCycWriteStream` cuts a block: `len1` bytes at the write position and `len2` from the start of the
    file; and `bReachFix`. -/
structure Cut where
  len1 : BitVec 32
  len2 : BitVec 32
  reachFix : Bool

/-- A block that is not cut. -/
def whole (len : BitVec 32) : Cut := ⟨len, 0, false⟩

/-- Rewind by time. -/
def cutByTime (c : RecChn) (ix : Index) (maxSize : BitVec 64) (len : BitVec 32) : RecChn × Cut :=
  if maxSize > 0 ∧ ix.timeRewindFlagForFile = true ∧
      c.curFileSize + len.setWidth 64 > ix.timeRewindMaxSize then
    let len1 := (ix.timeRewindMaxSize - c.curFileSize).setWidth 32
    ({ c with
        indexHandle := some { ix with timeRewindFlagForFile := false }
        overFixTimes := c.overFixTimes + 1
        eventFlg := true },
      ⟨len1, len - len1, false⟩)
  else (c, whole len)

/-- Rewind by size. -/
def cutBySize (c : RecChn) (maxSize : BitVec 64) (len : BitVec 32) : RecChn × Cut :=
  if c.curWritePos + len.setWidth 64 > maxSize then
    let len1 := (maxSize - c.curWritePos).setWidth 32
    ({ c with overFixTimes := c.overFixTimes + 1, eventFlg := true }, ⟨len1, len - len1, false⟩)
  else (c, whole len)

/-- Fixed size. -/
def cutFix (c : RecChn) (maxSize : BitVec 64) (len : BitVec 32) : Cut :=
  if maxSize > 0 ∧ c.curFileSize + len.setWidth 64 ≥ maxSize then
    ⟨if maxSize > c.curFileSize then (maxSize - c.curFileSize).setWidth 32 else 0, 0, true⟩
  else whole len

/-- The first half of `PVRRecCycWriteStream`: how the block is cut; `none` for `HI_FAILURE`. -/
def cut (c : RecChn) (maxSize : BitVec 64) (len : BitVec 32) : Option (RecChn × Cut) :=
  if c.isFixSize then some (c, c.cutFix maxSize len)
  else if c.isRewind then
    match c.indexHandle with
    | none => none
    | some ix =>
      if ix.rewindType = .byTime then some (c.cutByTime ix maxSize len) else some (c.cutBySize maxSize len)
  else some (c, whole len)

/-- The first write, at the write position; a block without an address is not written. -/
def writeFirst (c : RecChn) (d : RecData) (len1 : BitVec 32) (as : List Answer) :
    Option (RecChn × Ret × List Answer) :=
  if d.dataAddr ≠ 0 then
    (writeStreamDirect c.dataFile (d.bytes.take len1.toNat) c.curWritePos as).map fun (file, ret, as) =>
      if ret = .success then
        ({ c with
            dataFile := file
            curFileSize := c.curFileSize + len1.setWidth 64
            curWritePos := c.curWritePos + len1.setWidth 64 }, ret, as)
      else ({ c with dataFile := file }, ret, as)
  else some (c, .success, as)

/-- The second write, at the start of the file. -/
def writeSecond (c : RecChn) (d : RecData) (len1 len2 : BitVec 32) (as : List Answer) :
    Option (RecChn × Ret × List Answer) :=
  if len2 > 0 then
    (writeStreamDirect c.dataFile ((d.bytes.drop len1.toNat).take len2.toNat) 0 as).map fun (file, ret, as) =>
      if ret = .success then
        ({ c with
            dataFile := file
            curFileSize := c.curFileSize + len2.setWidth 64
            curWritePos := len2.setWidth 64 }, ret, as)
      else ({ c with dataFile := file }, ret, as)
  else some (c, .success, as)

/-- The end: with an index, and without the cache (`l2Cache`), the index gets the file size. -/
def writeEnd (l2Cache : Bool) (c : RecChn) (reachFix : Bool) : RecChn × Ret :=
  let c :=
    if c.allTs = false ∧ l2Cache = false then
      { c with indexHandle := c.indexHandle.map (fun ix => { ix with fileSizeGlobal := c.curFileSize }) }
    else c
  (c, if reachFix then .fileTillEnd else .success)

/-- `PVRRecCycWriteStream`, with the answers of `PVR_PWRITE64`. -/
def cycWriteStream (l2Cache : Bool) (c : RecChn) (d : RecData) (as : List Answer) : Option (RecChn × Ret) :=
  match c.maxSize with
  | none => some (c, .failure)
  | some maxSize =>
    match c.cut maxSize d.len with
    | none => some (c, .failure)
    | some (c, k) =>
      if k.len1 > d.len then some (c, .assertion)
      else
        (c.writeFirst d k.len1 as).bind fun (c, ret, as) =>
          if ret ≠ .success then some (c, ret)
          else
            (c.writeSecond d k.len1 k.len2 as).map fun (c, ret, _) =>
              if ret ≠ .success then (c, ret) else c.writeEnd l2Cache k.reachFix

end RecChn

/-- A call: the block, and what `PVR_PWRITE64` does. -/
structure Input where
  data : RecData
  answers : List Answer

/-- One call; the effect is what it returns. -/
def step (l2Cache : Bool) (c : RecChn) (i : Input) : Option (RecChn × List Ret) :=
  (c.cycWriteStream l2Cache i.data i.answers).map fun (c, ret) => (c, [ret])

/-- A recording begins: `HI_PVR_RecStartChn` clears the counters, the file is empty. -/
def start (allTs rewind : Bool) (maxFileSize maxTimeInMs : BitVec 64) (indexHandle : Option Index) : RecChn where
  allTs := allTs
  maxFileSize := maxFileSize
  maxTimeInMs := maxTimeInMs
  rewind := rewind
  indexHandle := indexHandle
  curFileSize := 0
  curWritePos := 0
  overFixTimes := 0
  eventFlg := false
  dataFile := fun _ => none

end HiSTB.Pvr.WriteStream
