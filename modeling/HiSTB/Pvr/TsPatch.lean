import HiSTB.Pvr.TsQueue

/-!
# `Pvr.TsPatch` — the first and the last packet of a frame (`hi_pvr_play_ctrl.c`)

In the states of trick play a frame is sent alone. What is before it in its first TS packet and behind it in its last
one belongs to other frames, and is hidden in adaptation fields: `PVRPlaySetTsHead` covers the first packet up to the
data, `PVRPlayAddTsEnd` moves the data of the last one to its end and covers what is before. The continuity counters are
changed as well. A packet in which a payload unit starts keeps its head, and becomes a null packet at the end.

The buffer is modelled by offsets from its start. The constants of the module, whose header files are not part of the
repository, are those of MPEG-2: a packet has 188 bytes, its header four, the adaptation field is behind it with a
byte for its length and one for its flags. The build is that with `PVR_TS_MOVE_TO_END`.
-/

namespace HiSTB.Pvr.TsPatch

open Lib
open TsQueue (Byte)

abbrev U32 := BitVec 32

/-- The buffer, by offsets; an offset before the start is one from the end of the address space. -/
abbrev Mem := Nat → Byte

def tsLen : U32 := 188
def tsHeadSize : U32 := 4
def tsMinPdSize : U32 := 2
def tsPdSizePos : U32 := 4
def tsPdFlagPos : U32 := 5

def tsAdaptAdaptOnly : U32 := 2
def tsAdaptBoth : U32 := 3

/-- `PVR_TS_ADAPT_HAVE_ADAPT`. -/
def tsAdaptHaveAdapt (flag : Byte) : Bool := flag &&& 2 != 0

def load (m : Mem) (p : U32) : Byte := m p.toNat

def store (m : Mem) (p : U32) (v : Byte) : Mem := writeAt m p.toNat [v]

def memset (m : Mem) (p : U32) (v : Byte) (n : U32) : Mem := writeAt m p.toNat (List.replicate n.toNat v)

def memmove (m : Mem) (dst src n : U32) : Mem := writeAt m dst.toNat (readAt m src.toNat n.toNat)

/-- `RVRPlaySetAdptFiled`. -/
def setAdptFiled (m : Mem) (tsHead flag : U32) : Mem :=
  let byte4 := load m (tsHead + 3)
  -- clear adp field bits
  let byte4 := byte4 &&& 0xcf
  -- set adp field bits
  let byte4 := byte4 ||| ((flag &&& 3) <<< 4).setWidth 8
  store m (tsHead + 3) byte4

/-- `RVRPlayGetAdptFiled`. -/
def getAdptFiled (m : Mem) (tsHead : U32) : Byte := (load m (tsHead + 3) >>> 4) &&& 3

/-- The counter moved on by a number, so that no packet looks like a repeated one. -/
def disOrderCntBy (k : Byte) (m : Mem) (tsHead : U32) : Mem :=
  let byte4 := load m (tsHead + 3)
  let oldCnt := (byte4 &&& 0xf) + k
  store m (tsHead + 3) ((byte4 &&& 0xf0) ||| (oldCnt &&& 0xf))

/-- `RVRPlayDisOrderCnt`. -/
def disOrderCnt : Mem → U32 → Mem := disOrderCntBy 5

/-- `RVRPlayDisOrderCntEnd`. -/
def disOrderCntEnd : Mem → U32 → Mem := disOrderCntBy 3

/-- `PVRPlaySetTsHead`. -/
def setTsHead (m : Mem) (tsHead dataStartPos : U32) : Mem :=
  if tsHeadSize = dataStartPos then m
  else if load m (tsHead + 1) &&& 0x40 ≠ 0 then m
  else if dataStartPos ≥ tsHeadSize + tsMinPdSize then
    let adaptFlag := getAdptFiled m tsHead
    let m := setAdptFiled m tsHead tsAdaptBoth
    let m := store m (tsHead + tsPdSizePos) ((dataStartPos - (tsHeadSize + 1)).setWidth 8)
    let m := if tsAdaptHaveAdapt adaptFlag then m else store m (tsHead + tsPdFlagPos) 0
    let m := memset m (tsHead + tsHeadSize + tsMinPdSize) 0xff (dataStartPos - (tsHeadSize + tsMinPdSize))
    disOrderCnt m tsHead
  else
    -- only 1Byte Adapt_len
    let m := setAdptFiled m tsHead tsAdaptBoth
    let m := store m (tsHead + tsPdSizePos) 0
    disOrderCnt m tsHead

/-- `PVRPlayAddTsEnd`. -/
def addTsEnd (m : Mem) (dataEnd endToAdd : U32) : Mem :=
  if endToAdd = 0 then m
  else
    let lastTsHead := dataEnd + endToAdd - tsLen
    if load m (lastTsHead + 1) &&& 0x40 ≠ 0 then store (store m (lastTsHead + 1) 0x1f) (lastTsHead + 2) 0xff
    else
      let adaptFlag := getAdptFiled m lastTsHead
      let m := setAdptFiled m lastTsHead (if endToAdd + tsHeadSize = tsLen then tsAdaptAdaptOnly else tsAdaptBoth)
      let m := disOrderCntEnd m lastTsHead
      if tsAdaptHaveAdapt adaptFlag ∧ load m (lastTsHead + tsPdSizePos) ≠ 0 then
        -- existent the padding field
        let endToAdd :=
          if endToAdd + tsHeadSize + tsMinPdSize > tsLen then tsLen - (tsHeadSize + tsMinPdSize) else endToAdd
        let dataInLastTs := tsLen - (endToAdd + tsHeadSize + tsMinPdSize)
        let m := memmove m (dataEnd + endToAdd - dataInLastTs) (dataEnd - dataInLastTs) dataInLastTs
        let m := memset m (dataEnd - dataInLastTs) 0xff endToAdd
        let sizePos := dataEnd - (dataInLastTs + tsMinPdSize)
        store m sizePos (load m sizePos + endToAdd.setWidth 8)
      else
        -- nonexistent padding field
        let endToAdd := if endToAdd + tsHeadSize > tsLen then tsLen - tsHeadSize else endToAdd
        let dataInLastTs := tsLen - (endToAdd + tsHeadSize)
        let m := memmove m (lastTsHead + tsHeadSize + endToAdd) (lastTsHead + tsHeadSize) dataInLastTs
        let m := memset m (lastTsHead + tsHeadSize) 0xff endToAdd
        let m := store m (lastTsHead + tsPdSizePos) ((endToAdd - 1).setWidth 8)
        store m (lastTsHead + tsPdFlagPos) 0

end HiSTB.Pvr.TsPatch
