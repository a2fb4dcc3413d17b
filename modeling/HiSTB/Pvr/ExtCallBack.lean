import Mathlib.Logic.Basic
import Mathlib.Data.Nat.Notation

/-!
# `Pvr.ExtCallBack` — the callbacks of the user (`hi_pvr_rec_ctrl.c`, `hi_pvr_play_ctrl.c`)

A user may register a function that changes the data on the way to the file or from it. A block of stream that lies in
two physical files is given to it in two calls: `PVRFileGetRealOffset` turns a position of the recording into one of the
physical file, and cuts the length off at its end.

* `recProcExtCallBack` — `PVRRecProcExtCallBack`;
* `playProcExtCallBack` — `PVRPlayProcExtCallBack`.

The files and the index are parameters, and so is what the user's function returns.
-/

namespace HiSTB.Pvr.ExtCallBack

abbrev U32 := BitVec 32
abbrev U64 := BitVec 64

variable {ν : Type*}

/-- What the two functions ask; `ν` are the names of files. -/
structure Env (ν : Type*) where
  chnId : U32
  /-- `stCycMgr`. -/
  startFrame : U32
  endFrame : U32
  lastFrame : U32
  /-- `u64Offset` of the frame that `PVR_Index_GetFrameByNum` gives. -/
  getFrameByNum : U32 → Option U64
  /-- `PVRFileGetOffsetFName`. -/
  getOffsetFName : U64 → ν
  /-- `PVR_Index_GetIdxFileName`. -/
  idxFileName : ν
  /-- `PVRFileGetRealOffset`: the offset. -/
  realOffset : U64 → U64
  /-- `PVRFileGetRealOffset`: the length. -/
  realLen : U64 → U64 → U64

/-- `HI_UNF_PVR_DATA_ATTR_S`. -/
structure DataAttr (ν : Type*) where
  chnId : U32
  fileStartPos : U64
  fileEndPos : U64
  globalOffset : U64
  fileReadOffset : U64
  curFileName : ν
  idxFileName : ν

/-- A call of the user's function. -/
structure Call (ν : Type*) where
  attr : DataAttr ν
  addr : U32
  phyAddr : U32
  offset : U32
  len : U32

/-- `stDataAttr` for a block. -/
def Env.dataAttr (env : Env ν) (endFrm : U32) (offset globalOffset : U64) : DataAttr ν where
  chnId := env.chnId
  fileStartPos := (env.getFrameByNum env.startFrame).getD 0
  fileEndPos := (env.getFrameByNum endFrm).getD 0
  globalOffset := globalOffset
  fileReadOffset := offset
  curFileName := env.getOffsetFName offset
  idxFileName := env.idxFileName

/-- `u32EndFrm` in the recorder. -/
def Env.recEndFrm (env : Env ν) : U32 := if env.endFrame > 0 then env.endFrame else env.lastFrame

/-- `u32EndFrm` in the player. -/
def Env.playEndFrm (env : Env ν) : U32 :=
  if env.endFrame > env.startFrame then env.endFrame - 1 else env.lastFrame - 1

/-- `PVRRecProcExtCallBack`: the calls, and `pDataAddr` afterwards. What the user's function returns is only written to
    the log. -/
def recProcExtCallBack (env : Env ν) (dataAddr dataPhyAddr length : U32) (offset globalOffset : U64) :
    List (Call ν) × U32 :=
  let attr := env.dataAttr env.recEndFrm offset globalOffset
  let lenAdp := env.realLen offset (length.setWidth 64)
  let offsetAdp := env.realOffset offset
  if lenAdp < length.setWidth 64 then
    let first : Call ν := ⟨attr, dataAddr, dataPhyAddr, offsetAdp.setWidth 32, lenAdp.setWidth 32⟩
    let offsetAdp := env.realOffset (offset + lenAdp)
    let attr := { attr with curFileName := env.getOffsetFName (offset + length.setWidth 64) }
    let dataAddr := dataAddr + lenAdp.setWidth 32
    let second : Call ν :=
      ⟨attr, dataAddr, dataPhyAddr, offsetAdp.setWidth 32, (length.setWidth 64 - lenAdp).setWidth 32⟩
    ([first, second], dataAddr - lenAdp.setWidth 32)
  else ([⟨attr, dataAddr, dataPhyAddr, offsetAdp.setWidth 32, lenAdp.setWidth 32⟩], dataAddr)

/-- `PVRPlayProcExtCallBack`: whether it succeeds, the calls, and `pu8Data` afterwards. -/
def playProcExtCallBack (env : Env ν) (readCallBack : Call ν → Bool) (data phyAddr bytesSend : U32)
    (offset globalOffset : U64) : Bool × List (Call ν) × U32 :=
  let attr := env.dataAttr env.playEndFrm offset globalOffset
  let lenAdp := env.realLen offset (bytesSend.setWidth 64)
  let offsetAdp := env.realOffset offset
  if lenAdp < bytesSend.setWidth 64 then
    let first : Call ν := ⟨attr, data, phyAddr, offsetAdp.setWidth 32, lenAdp.setWidth 32⟩
    if readCallBack first then
      let offsetAdp := env.realOffset (offset + lenAdp)
      let attr := { attr with curFileName := env.getOffsetFName (offset + bytesSend.setWidth 64) }
      let data := data + lenAdp.setWidth 32
      let second : Call ν := ⟨attr, data, phyAddr, offsetAdp.setWidth 32, bytesSend - lenAdp.setWidth 32⟩
      (readCallBack second, [first, second], data)
    else (false, [first], data)
  else
    let call : Call ν := ⟨attr, data, phyAddr, offsetAdp.setWidth 32, lenAdp.setWidth 32⟩
    (readCallBack call, [call], data)

end HiSTB.Pvr.ExtCallBack
