import HiSTB.Pvr.TsQueue

/-!
# `Pvr.Play` — sending a recording to the demultiplexer (`hi_pvr_play_ctrl.c`)

`PVRPlaySendAframe` sends the TS packets of one frame of the index. `PVRPlaySendData` extends the data of the frame to
whole TS packets and these to whole cipher packages, `PVRPlayReadData` reads them, from the file or, in timeshift, from
the record queue, and `PVRPlaySendToTsBuffer` hands over the packets. A frame that goes over the end of a file that is
recorded in cycles is sent in two parts.

What other components return is part of a call (`Call`, `Input`): the buffers of the demultiplexer, the file, the state
of the record queue, the user's read callback and the cipher. The last two change the bytes in place; the bytes here are
the ones that were read. The header files of the module are not part of the repository, so its constants are
parameters, and so are `PVR_INDEX_IS_REWIND` and `PVR_INDEX_MAX_FILE_SIZE`, which read the index.

Left out: the log messages, the debug copy of what is sent, and the bytes of the private packet.
-/

namespace HiSTB.Pvr.Play

open TsQueue (Area Queue Byte bytesAt)

/-- The module's constants. A frame, with all that is read around it, is far below the error codes. -/
structure Consts where
  tsLen : BitVec 32
  cipherPkgLen : BitVec 32
  cipherMaxLen : BitVec 32
  playMaxFrameSize : BitVec 32
  /-- `HI_ERR_PVR_PLAY_INDEX_BEYOND_TS`. -/
  indexBeyondTs : BitVec 32
  tsLen_pos : 0 < tsLen.toNat
  cipherPkgLen_pos : 0 < cipherPkgLen.toNat
  cipherMaxLen_pos : 0 < cipherMaxLen.toNat
  room : 2 * (cipherPkgLen.toNat + tsLen.toNat) + playMaxFrameSize.toNat + tsLen.toNat < 0x80000000
  indexBeyondTs_ge : 0x80000000 ≤ indexBeyondTs.toNat

inductive State
  | invalid
  | init
  | play
  | pause
  | ff
  | fb
  | sf
  | sb
  | stepf
  | stepb
  | stop
  deriving DecidableEq

/-- The codes that a frame can come back with. -/
inductive Ret
  | success
  | failure
  | playInvalidTsBuffer
  | fileTillEnd
  | playIndexBeyondTs
  deriving DecidableEq

/-- `PVR_INDEX_ENTRY_S`. -/
structure Frame where
  offset : BitVec 64
  globalOffset : BitVec 64
  frameSize : BitVec 32
  displayTimeMs : BitVec 32

/-- What one call of `PVRPlaySendToTsBuffer` meets. -/
structure Call where
  playMainThreadStop : Bool
  /-- `pstRecDataQueue`: only in timeshift. -/
  recDataQueue : Option (Area × Queue)
  /-- `PVR_PREAD64` on the data file: the bytes, or nothing for -1. -/
  pread : BitVec 32 → BitVec 64 → Option (List Byte)
  /-- `HI_UNF_DMX_GetTSBufferEx` returns a buffer. -/
  getTsBuffer : Bool
  /-- `u32PhyAddr`, of this buffer. -/
  phyAddr : BitVec 32
  /-- The user's read callback succeeds, or there is none. -/
  readCallBack : Bool
  /-- `stDecryptCfg.bDoCipher`. -/
  doCipher : Bool
  /-- `HI_UNF_CIPHER_Decrypt` succeeds, by address and length. -/
  cipherDecrypt : BitVec 32 → BitVec 32 → Bool
  /-- `HI_UNF_DMX_PutTSBufferEx` succeeds. -/
  putTsBuffer : Bool

inductive Event
  /-- What `PVRPlayReadData` is asked for: place in the file and length. In timeshift, `PVR_PREAD64` may be asked for
      less: its part of the read ends at the global offset of the head of the queue, which need not be a cipher
      package's. -/
  | read (offset : BitVec 64) (len : BitVec 32)
  /-- What `HI_UNF_CIPHER_Decrypt` decrypts in place. -/
  | decrypt (addr len : BitVec 32)
  /-- What `HI_UNF_DMX_PutTSBufferEx` takes, of a buffer of `granted` bytes; of these bytes, the ones that were read. -/
  | put (granted startPos len : BitVec 32) (bytes : List Byte)
  | privatePacket (displayTimeMs vidPid : BitVec 32)
  deriving DecidableEq

/-! ## Reading -/

/-- What a read of the file returns, and what it puts into the buffer. -/
def preadResult : Option (List Byte) → BitVec 32 × List Byte
  | none => (-1, [])
  | some bytes => (BitVec.ofNat 32 bytes.length, bytes)

/-- The copy out of the queue, in two parts where it goes over its end. -/
def copyQueue (a : Area) (mem : Nat → Byte) (read len : BitVec 32) : List Byte :=
  let queueEnd := a.recData + a.size
  if read + len > queueEnd then
    bytesAt a mem read (queueEnd - read).toNat ++ bytesAt a mem a.recData (len - (queueEnd - read)).toNat
  else bytesAt a mem read len.toNat

variable (c : Consts)

/-- `PVRPlayReadData`: what it returns, and the bytes in the buffer. -/
def readData (call : Call) (bytesSend : BitVec 32) (offset globalOffset : BitVec 64)
    (cipherHead headToAdd : BitVec 32) :
    BitVec 32 × List Byte :=
  if call.playMainThreadStop then (0, [])
  else
    match call.recDataQueue with
    | some (a, q) =>
      let readGlobalOffset := globalOffset - headToAdd.setWidth 64 - cipherHead.setWidth 64
      let readEnd := readGlobalOffset + bytesSend.setWidth 64
      if globalOffset ≥ q.tailGolbalOffset ∨ (globalOffset < q.tailGolbalOffset ∧ readEnd > q.tailGolbalOffset) then
        (c.indexBeyondTs, [])
      else if readGlobalOffset ≥ q.headGolbalOffset then
        -- an address modulo the address of the end
        let read := (q.head.setWidth 64 + (readGlobalOffset - q.headGolbalOffset)).setWidth 32 % (a.recData + a.size)
        let read := if read < a.recData then a.recData + read else read
        (bytesSend, copyQueue a q.mem read bytesSend)
      else if readEnd > q.headGolbalOffset then
        let fileReadSize := bytesSend - (readEnd - q.headGolbalOffset).setWidth 32
        let (readedCnt, bytes) := preadResult (call.pread fileReadSize offset)
        if readedCnt ≠ fileReadSize then (readedCnt, bytes)
        else (bytesSend, bytes ++ copyQueue a q.mem q.head (bytesSend - readedCnt))
      else preadResult (call.pread bytesSend offset)
    | none => preadResult (call.pread bytesSend offset)

/-! ## Decrypting -/

/-- The length of the next block. -/
def blockLen (totalLen : BitVec 32) : BitVec 32 := if totalLen ≥ c.cipherMaxLen then c.cipherMaxLen else totalLen

/-- The loop of `PVRPlayProcCipherDecrypt`, with `left` of its 21 turns to come; the last one fails whatever it
    decrypts. -/
def decryptLoop (call : Call) : Nat → BitVec 32 → BitVec 32 → Bool × List Event
  | 0, _, _ => (false, [])
  | left + 1, i, totalLen =>
    if totalLen > 0 then
      let len := blockLen c totalLen
      let addr := call.phyAddr + i * c.cipherMaxLen
      if call.cipherDecrypt addr len then
        let (ok, es) := decryptLoop call left (i + 1) (totalLen - len)
        (ok, .decrypt addr len :: es)
      else (false, [])
    else (true, [])

/-- `PVRPlayProcCipherDecrypt`: whether it returns `HI_SUCCESS`, and what is decrypted. -/
def procCipherDecrypt (call : Call) (byteLength : BitVec 32) : Bool × List Event :=
  if !call.doCipher then (true, []) else decryptLoop c call 21 0 byteLength

/-! ## Sending -/

/-- The states in which the stream is sent as it is. -/
def State.sendsAll (s : State) : Bool := s = .play ∨ s = .sf ∨ s = .stepf

/-- `PVRPlaySetTsHead` and `PVRPlayAddTsEnd`: in the other states the first and the last packet are patched in place,
    to hold only data of the frame. -/
abbrev Patch := List Byte → List Byte

variable (patch : Patch)

/-- The end of `PVRPlaySendToTsBuffer`: length and start of what is handed over. -/
def realSend (state : State) (bytesSend cipherHead cipherEnd endToAdd : BitVec 32) : BitVec 32 × BitVec 32 :=
  if state.sendsAll then
    let bytesRealSend := bytesSend - cipherHead
    let bytesRealSend := if endToAdd ≠ 0 then bytesRealSend - (cipherEnd + c.tsLen) else bytesRealSend
    (bytesRealSend, cipherHead)
  else (bytesSend - cipherHead - cipherEnd, cipherHead)

/-- `PVRPlaySendToTsBuffer`. -/
def sendToTsBuffer (state : State) (call : Call) (readOffset globalOffset : BitVec 64)
    (bytesSend cipherHead cipherEnd headToAdd endToAdd : BitVec 32) : Ret × List Event :=
  if !call.getTsBuffer then (.playInvalidTsBuffer, [])
  else
    let (readedBytes, bytes) := readData c call bytesSend readOffset globalOffset cipherHead headToAdd
    let reads := [Event.read readOffset bytesSend]
    if readedBytes ≠ bytesSend ∧ readedBytes = -1 then (.failure, reads)
    else if readedBytes ≠ bytesSend ∧ readedBytes = 0 then (.fileTillEnd, reads)
    else if readedBytes ≠ bytesSend ∧ readedBytes = c.indexBeyondTs then (.playIndexBeyondTs, reads)
    else if !call.readCallBack then (.failure, reads)
    else
      let (decrypted, decrypts) := procCipherDecrypt c call bytesSend
      -- what is returned here is the result of `HI_UNF_DMX_GetTSBufferEx`
      if !decrypted then (.success, reads ++ decrypts)
      else
        let (bytesRealSend, startPos) := realSend c state bytesSend cipherHead cipherEnd endToAdd
        let bytes := if state.sendsAll then bytes else patch bytes
        if call.putTsBuffer then
          (.success, reads ++ decrypts ++
            [.put bytesSend startPos bytesRealSend ((bytes.drop startPos.toNat).take bytesRealSend.toNat)])
        else (.failure, reads ++ decrypts)

/-- The distances that `PVRPlaySendData` computes. -/
structure Align where
  headToAdd : BitVec 32
  endToAdd : BitVec 32
  cipherHead : BitVec 32
  cipherEnd : BitVec 32
  alignSize : BitVec 32
  readOffset : BitVec 64

def align (offset : BitVec 64) (bytesToSend : BitVec 32) : Align :=
  let tsLen := c.tsLen.setWidth 64
  let cipherPkgLen := c.cipherPkgLen.setWidth 64
  let dataEnd := offset + bytesToSend.setWidth 64
  let headToAdd := (offset % tsLen).setWidth 32
  let endToAdd := c.tsLen - (dataEnd % tsLen).setWidth 32
  let cipherHead := ((offset - headToAdd.setWidth 64) % cipherPkgLen).setWidth 32
  let cipherEnd := c.cipherPkgLen - ((dataEnd + endToAdd.setWidth 64) % cipherPkgLen).setWidth 32
  { headToAdd := headToAdd
    endToAdd := endToAdd
    cipherHead := cipherHead
    cipherEnd := cipherEnd
    alignSize := bytesToSend + headToAdd + endToAdd + cipherHead + cipherEnd
    readOffset := offset - headToAdd.setWidth 64 - cipherHead.setWidth 64 }

/-- `PVRPlaySendData`. -/
def sendData (state : State) (call : Call) (offset : BitVec 64) (bytesToSend : BitVec 32) (globalOffset : BitVec 64) :
    Ret × List Event :=
  let al := align c offset bytesToSend
  sendToTsBuffer c patch state call al.readOffset globalOffset al.alignSize al.cipherHead al.cipherEnd al.headToAdd
    al.endToAdd

/-! ## A frame -/

/-- The fields of `PVR_PLAY_CHN_S` that a frame reads or changes. -/
structure Chn where
  state : State
  speedForward : Bool
  recordedVideoExist : Bool
  notAvailableTsBuff : Bool
  curPlayFrame : Option Frame
  curPlayTimeMs : BitVec 32
  indexBeyondTs : Bool

/-- One call of `PVRPlaySendAframe`, and what it meets. -/
structure Input where
  frame : Frame
  /-- `stCycMgr.u64MaxCycSize`. -/
  maxCycSize : BitVec 64
  /-- `PVR_INDEX_MAX_FILE_SIZE`. -/
  maxFileSize : BitVec 64
  /-- `PVR_INDEX_IS_REWIND`. -/
  isRewind : Bool
  /-- `HI_UNF_DMX_GetTSBufferStatus`: size and used size. -/
  tsBufferStatus : Option (BitVec 32 × BitVec 32)
  /-- `HI_UNF_AVPLAY_GetAttr` for the video PID. -/
  vidPid : Option (BitVec 32)
  /-- `PVRPlaySendPrivatePacketToTsBuffer` succeeds. -/
  privatePacket : Bool
  call1 : Call
  call2 : Call

/-- Whether the place of a frame is taken modulo the size of the file. -/
def Input.cyclic (i : Input) : Bool := i.maxCycSize > 0 ∧ i.isRewind

/-- Place and size of the first part, and the size of the second one. -/
def Input.parts (i : Input) : BitVec 64 × BitVec 32 × BitVec 32 :=
  if i.cyclic then
    let beforePos := i.frame.offset % i.maxFileSize
    if beforePos + i.frame.frameSize.setWidth 64 > i.maxFileSize then
      let size1 := (i.maxFileSize - beforePos).setWidth 32
      (beforePos, size1, i.frame.frameSize - size1)
    else (beforePos, i.frame.frameSize, 0)
  else (i.frame.offset, i.frame.frameSize, 0)

/-- The packet with the time of the frame. -/
def sendTime (chn : Chn) (i : Input) : Ret × List Event :=
  if chn.recordedVideoExist then
    match i.vidPid with
    | some vidPid =>
      if vidPid ≠ 0x1fff ∧ !chn.notAvailableTsBuff then
        if i.privatePacket then (.success, [.privatePacket i.frame.displayTimeMs vidPid]) else (.failure, [])
      else (.success, [])
    | none => (.success, [])
  else (.success, [])

/-- The data of the frame. -/
def sendParts (state : State) (i : Input) : Ret × List Event :=
  let (beforePos, size1, size2) := i.parts
  let (ret, es) := sendData c patch state i.call1 beforePos size1 i.frame.globalOffset
  if size2 ≠ 0 ∧ ret = .success then
    -- the second part gets the global offset of the first one
    let (ret, es') := sendData c patch state i.call2 0 size2 i.frame.globalOffset
    (ret, es ++ es')
  else (ret, es)

/-- What is noted of a frame that is to be sent. -/
def Chn.setFrame (chn : Chn) (frame : Frame) : Chn where
  state := chn.state
  speedForward := chn.speedForward
  recordedVideoExist := chn.recordedVideoExist
  notAvailableTsBuff := false
  curPlayFrame := some frame
  curPlayTimeMs :=
    if chn.curPlayTimeMs > frame.displayTimeMs ∧ chn.speedForward then frame.displayTimeMs else chn.curPlayTimeMs
  indexBeyondTs := chn.indexBeyondTs

/-- `PVRPlaySendAframe`. -/
def sendAframe (chn : Chn) (i : Input) : Chn × Ret × List Event :=
  let frame := i.frame
  if frame.frameSize = 0 then (chn, .success, [])
  else if frame.frameSize > c.playMaxFrameSize then (chn, .success, [])
  else
    match i.tsBufferStatus with
    | none => (chn, .playInvalidTsBuffer, [])
    | some (bufSize, usedSize) =>
      if bufSize - usedSize < 2 * (c.cipherPkgLen + c.tsLen) + frame.frameSize + c.tsLen then
        ({ chn with notAvailableTsBuff := true }, .playInvalidTsBuffer, [])
      else
        let chn := chn.setFrame frame
        let (ret, es) := sendTime chn i
        if ret ≠ .success then (chn, ret, es)
        else
          let (ret, es') := sendParts c patch chn.state i
          ({ chn with indexBeyondTs := ret = .playIndexBeyondTs }, ret, es ++ es')

/-- Frame after frame. -/
def sendFrames : Chn → List Input → Chn × List (Ret × List Event)
  | chn, [] => (chn, [])
  | chn, i :: is =>
    let (chn, ret, es) := sendAframe c patch chn i
    let (chn, outs) := sendFrames chn is
    (chn, (ret, es) :: outs)

end HiSTB.Pvr.Play
