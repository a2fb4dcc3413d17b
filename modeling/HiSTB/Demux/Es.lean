import HiSTB.Lib.Run
import HiSTB.Lib.Reading

/-!
# `Demux.Es` — the elementary stream of an audio or video channel (`drv_demux_func.c`)

The hardware writes the packets of a channel into blocks of the free queue and appends a block to the output queue
(OQ) when it is complete, or when the next PES packet begins. `DMX_OsiReadEsRequset` hands out a block without the PES
header that it begins with; at the end of the stream (`ChanEosFlag`) also what the current block has so far.
`DMX_OsiReleaseReadEs` gives a block back when the data that is released reaches its end.

A request reads the registers of the hardware several times, and the hardware goes on in between: the request is
given what it finds at each time. The pointers of the queue are slots, and a descriptor stays in its slot until the
hardware writes over it. The parser of the header is a program over the memory from the block's address on, also behind
the data. That a block carries its number in the order of the hardware is for the statements only.

Between two equal readings of the write pointer the current block is the same and only gets longer, so that
`DMXOsiOQGetBbsAddrSize` is one reading. The constants and macros that the repository does not define are parameters.
Left out: the counters, the time stamps of the calls, `DMXCheckBPTsoRamStatus` and `DMXCheckFQBPStatus`, which only
control the input, and `DMX_OsrSaveEs`.
-/

namespace HiSTB.Demux.Es

open Lib

abbrev Byte := BitVec 8
abbrev U32 := BitVec 32

/-! ## Blocks -/

/-- A block: what the hardware wrote, and what stands behind that in memory. -/
structure Block where
  num : Nat
  startAddr : U32
  /-- Bit 2 of `PvrCtrl`: a PES packet begins here. -/
  sop : Bool
  data : List Byte
  behind : Nat → Byte
  /-- The length has 16 bits. -/
  len_lt : data.length < 0x10000
  placed : startAddr.toNat + data.length < 0x100000000

/-- The memory from `start_addr` on. -/
def Block.mem (b : Block) (i : Nat) : Byte := b.data.getD i (b.behind i)

/-- `DataLen`. -/
def Block.dataLen (b : Block) : U32 := BitVec.ofNat 32 b.data.length

/-! ## The PES header -/

/-- `Disp_Control_t`. -/
structure DispControl where
  dispTime : U32
  dispEnableFlag : U32
  dispFrameDistance : U32
  distanceBeforeFirstFrame : U32
  gopNum : U32
  deriving DecidableEq

/-- What the repository does not define. `warns`: the log is compiled in, so that `HI_WARN_DEMUX` evaluates its
    arguments. -/
structure Macros where
  invalidPts : U32
  warns : Bool

abbrev Parser := Reading Nat Byte

def byte (i : Nat) : Parser Byte := Reading.get i

/-- `*(HI_U32 *)&pData[i]`, on a little-endian machine. -/
def word (i : Nat) : Parser U32 := do
  let b0 ← byte i
  let b1 ← byte (i + 1)
  let b2 ← byte (i + 2)
  let b3 ← byte (i + 3)
  pure (b3 ++ b2 ++ b1 ++ b0)

/-- What the first three bytes are compared with. -/
def startCode : List (Nat × Byte) := [(0, 0x00), (1, 0x00), (2, 0x01)]

/-- The stream ids that come without the header of 13818-1. -/
def headless : List Byte := [0xbc, 0xbe, 0xbf, 0xf0, 0xf1, 0xff, 0xf2, 0xf8]

/-- What a packet with display control is marked with: `pvrcurtm`. -/
def controlMark : List (Nat × Byte) :=
  [(13, 0x70), (14, 0x76), (15, 0x72), (16, 0x63), (17, 0x75), (18, 0x72), (19, 0x74), (20, 0x6d)]

/-- `DMX_PES_HEADER_LENGTH`. -/
def pesHeaderLength : Nat := 9

/-- `PTSLow`, of the five bytes of a PTS. -/
def ptsLow (b9 b10 b11 b12 b13 : Byte) : U32 :=
  (((b9 &&& 0x06) >>> 1).setWidth 32 <<< 30) ||| (b10.setWidth 32 <<< 22) |||
    (((b11 &&& 0xfe) >>> 1).setWidth 32 <<< 15) ||| (b12.setWidth 32 <<< 7) ||| ((b13 &&& 0xfe) >>> 1).setWidth 32

/-- The first three bytes are no start code. -/
def noStartCode : Parser Bool := startCode.anyM (fun c => do pure ((← byte c.1) != c.2))

/-- The bytes in the warning about that. -/
def warning (mac : Macros) : Parser Unit := do
  if mac.warns then
    let _ ← byte 2
    let _ ← byte 1
    let _ ← byte 0

/-- The milliseconds of a PTS. -/
def ptsMs : Parser U32 := do
  let b9 ← byte 9
  let b10 ← byte 10
  let b11 ← byte 11
  let b12 ← byte 12
  let b13 ← byte 13
  let low := ptsLow b9 b10 b11 b12 b13
  let b9 ← byte 9
  pure (if b9 &&& 0x08 ≠ 0 then low / 90 + 0x2D82D83 else low / 90)

/-- `LastPts`. -/
def stamp (mac : Macros) (ptsFlag : Byte) (pesHeadLen pesLength : U32) : Parser U32 :=
  if ptsFlag ≠ 0 ∧ pesHeadLen < pesLength then ptsMs else pure mac.invalidPts

/-- The packet carries display control. -/
def isControl (streamId : Byte) (pesLength : U32) : Parser Bool :=
  if streamId = 0xee ∧ 24 < pesLength then controlMark.allM (fun c => do pure ((← byte c.1) == c.2)) else pure false

def dispControl : Parser DispControl := do
  pure ⟨← word 21, ← word 25, ← word 29, ← word 33, ← word 37⟩

/-- What `ParsePesHeader` returns, with what it writes; `control` is its -2, where `*pPESHeadLen` is 184. -/
inductive Parsed
  | failure
  | success (pesHeadLen lastPts : U32)
  | control (dispController : DispControl) (lastPts : U32)
  deriving DecidableEq

/-- The new `LastPts`. -/
def Parsed.lastPts : Parsed → Option U32
  | failure => none
  | success _ lastPts => some lastPts
  | control _ lastPts => some lastPts

/-- The part of `ParsePesHeader` behind the start code. -/
def parseHeader (mac : Macros) (pesLength : U32) : Parser Parsed := do
  let streamId ← byte 3
  if streamId ∈ headless then
    pure .failure
  else
    let ptsFlag := ((← byte 7) &&& 0x80) >>> 7
    let pesHeadLen := BitVec.ofNat 32 pesHeaderLength + (← byte 8).setWidth 32
    let lastPts ← stamp mac ptsFlag pesHeadLen pesLength
    if ← isControl streamId pesLength then
      pure (.control (← dispControl) lastPts)
    else
      pure (.success pesHeadLen lastPts)

/-- `ParsePesHeader`. -/
def parsePesHeader (mac : Macros) (pesLength : U32) : Parser Parsed := do
  if ← noStartCode then
    warning mac
    pure .failure
  else
    parseHeader mac pesLength

/-- `*pPESHeadLen` in the second case. -/
def controlLength : U32 := 184

/-- `Pcr1Khz` of `DMXOsiIsr`. -/
def pcr1Khz (pcrValue : BitVec 64) : U32 := ((pcrValue >>> 1) &&& 0xffffffff).setWidth 32 / 45

/-! ## A channel -/

/-- `HI_UNF_DMX_CHAN_TYPE_E`. -/
inductive ChanType
  | vid
  | aud
  | other
  deriving DecidableEq

/-- `DMX_Sub_DevInfo_S`: the kind of port, and for a tuner its `BPRamPort`. -/
inductive PortMode
  | ram
  | tuner (bpRamPort : Nat)
  | other
  deriving DecidableEq

/-- The port of the channel's demux (`none` for `DMX_INVALID_PORT_ID`), the place of the free queue's buffer, the depth
    of the output queue and the size of the port's TS buffer. -/
structure Config extends Macros where
  dmxCnt : Nat
  port : Option PortMode
  fqPhyAddr : U32
  fqVirAddr : U32
  oqDepth : Nat
  ramBufSize : U32

/-- `DMX_ChanInfo_S`, with `u32ProcsBlk` and `u32ProcsOffset` of its queue; `playEn` is bit `PLAY_EN` of
    `ChanStatus`. -/
structure Chan where
  dmxId : Nat
  chanType : ChanType
  playEn : Bool
  chanEosFlag : Bool
  lastPts : U32
  lastControl : DispControl
  pesLength : U32
  procsBlk : Nat
  procsOffset : U32
  deriving DecidableEq

/-- `DMX_Stream_S`. -/
structure Stream where
  disp : DispControl
  bufPhyAddr : U32
  bufVirAddr : U32
  bufLen : U32
  ptsMs : U32
  deriving DecidableEq

/-- What a reading of the registers and the descriptors finds: the write pointer, the descriptors by their slots, the
    current block, if there is one, and the port's TS buffer. -/
structure View where
  oqWrite : Nat
  oqDesc : Nat → Block
  cur : Option Block
  ramRead : U32
  ramWrite : U32

/-- What a request returns; with the stream comes the block that it is taken from. -/
inductive Ret
  | success (es : Stream) (block : Block)
  | invalidPara
  | notSupport
  | notOpenChan
  | noAvailableData
  | emptyBuffer

/-- The channel behind a request, what it returns, and the places of the block that `ParsePesHeader` and its caller
    read. -/
structure Answer where
  chan : Chan
  ret : Ret
  reads : List Nat

/-- What a request does about a PES header: the channel behind it, how much of the data it takes, the display control
    that comes with it, and the places that are read. -/
structure Head where
  chan : Chan
  len : U32
  disp : DispControl
  reads : List Nat

/-- `GetQueueLenth`. -/
def getQueueLenth (read write size : U32) : U32 := if write < read then size + write - read else write - read

/-- `DMX_TS_BUFFER_EMPTY`. -/
def tsBufferEmpty : U32 := 2048

/-- `DMXINC`. The macro is not part of the repository; it is assumed to count modulo the depth. -/
def dmxInc (depth i : Nat) : Nat := if i + 1 < depth then i + 1 else 0

/-- `DMXOsiOQGetBbsAddrSize`. -/
def getBbsAddrSize (v : View) (oqWrite : Nat) : Option Block :=
  if oqWrite = v.oqWrite then v.cur.filter (fun b => b.startAddr ≠ 0 && b.data ≠ []) else none

/-- `bNeedCheckRamPort`. -/
def PortMode.needCheck : PortMode → Bool
  | .ram => true
  | .tuner bpRamPort => bpRamPort ≠ 0
  | .other => false

/-- `DmxGetPesHeaderLen`, and the test that follows it. -/
def headerIncomplete (dataLen : U32) : Parser Bool := do
  if dataLen < BitVec.ofNat 32 pesHeaderLength then pure true
  else do
    let pesHeadLen := BitVec.ofNat 32 pesHeaderLength + (← byte 8).setWidth 32
    pure (dataLen ≤ pesHeadLen)

namespace Chan

variable (cfg : Config) (c : Chan)

/-- There is no more to read at the end of the stream. -/
def atEnd (port : PortMode) (v : View) : Answer :=
  if port.needCheck ∧ tsBufferEmpty < getQueueLenth v.ramRead v.ramWrite cfg.ramBufSize then ⟨c, .noAvailableData, []⟩
  else ⟨{ c with chanEosFlag := false }, .emptyBuffer, []⟩

/-- The header of a block that begins with one. -/
def stripHeader (b : Block) (dataLen : U32) : Head :=
  let p := parsePesHeader cfg.toMacros dataLen
  let reads := p.places b.mem
  let c := { c with pesLength := 0 }
  match p.result b.mem with
  | .failure => ⟨c, 0, c.lastControl, reads⟩
  | .success pesHeadLen lastPts =>
    let packetLength : U32 := (b.mem 4 ++ b.mem 5).setWidth 32
    ⟨{ c with pesLength := packetLength - pesHeadLen + 6, lastPts := lastPts }, pesHeadLen, c.lastControl,
      reads ++ [4, 5]⟩
  | .control disp lastPts =>
    if controlLength ≤ dataLen then
      ⟨{ c with lastControl := disp, lastPts := lastPts }, controlLength, disp, reads⟩
    else ⟨{ c with lastPts := lastPts }, 0, c.lastControl, reads⟩

/-- The header in front of the data of a block from `offset` on: it is at the beginning of the block. -/
def head (b : Block) (offset dataLen : U32) : Head :=
  if b.sop ∧ offset = 0 then c.stripHeader cfg b dataLen else ⟨c, 0, c.lastControl, []⟩

/-- `u32ProcsOffset` moves on in the current block. -/
def moveOn (eos : Bool) (procsOffset : U32) : Chan := if eos then { c with procsOffset := procsOffset } else c

/-- For audio, what is behind the packet's length is cut off. -/
def trim (dataLen : U32) : Chan × U32 :=
  if c.chanType = .aud ∧ c.pesLength ≠ 0 then
    if c.pesLength < dataLen then ({ c with pesLength := 0 }, c.pesLength)
    else ({ c with pesLength := c.pesLength - dataLen }, dataLen)
  else (c, dataLen)

/-- The part of the request behind the choice of the block: `offset` and `dataLen` say which data of the block are
    left, `eos` that it is the current one. -/
def deliver (b : Block) (offset dataLen : U32) (eos : Bool) : Answer :=
  let head := c.head cfg b offset dataLen
  let dataPhyAddr := b.startAddr + offset + head.len
  let dataLen := dataLen - head.len
  let trimmed := (head.chan.moveOn eos (dataPhyAddr + dataLen - b.startAddr)).trim dataLen
  ⟨{ trimmed.1 with lastPts := cfg.invalidPts },
    .success ⟨head.disp, dataPhyAddr, cfg.fqVirAddr + (dataPhyAddr - cfg.fqPhyAddr), trimmed.2, trimmed.1.lastPts⟩ b,
    head.reads⟩

/-- The next block of the queue. -/
def takeNext (b : Block) : Answer :=
  let next := { c with procsBlk := dmxInc cfg.oqDepth c.procsBlk, procsOffset := 0 }
  if b.dataLen = c.procsOffset then ⟨next, .noAvailableData, []⟩
  else next.deliver cfg b c.procsOffset (b.dataLen - c.procsOffset) false

/-- What the current block has so far; `again` is the view at the second reading of the write pointer, and `next` the
    one at the reading of the descriptor. -/
def takeCurrent (port : PortMode) (b : Block) (ram again next : View) : Answer :=
  let dataLen := b.dataLen - c.procsOffset
  if dataLen = 0 then c.atEnd cfg port ram
  else if (b.sop ∧ c.procsOffset = 0) ∧ (headerIncomplete dataLen).result b.mem = true then c.atEnd cfg port ram
  else if c.procsBlk = again.oqWrite then c.deliver cfg b c.procsOffset dataLen true
  else c.takeNext cfg (next.oqDesc c.procsBlk)

end Chan

/-- `DMX_OsiReadEsRequset`; `v i` is what it finds at its reading `i`. -/
def readEsRequest (cfg : Config) (v : Nat → View) (c : Chan) : Answer :=
  if cfg.dmxCnt ≤ c.dmxId then ⟨c, .invalidPara, []⟩
  else
    match cfg.port with
    | none => ⟨c, .invalidPara, []⟩
    | some port =>
      if c.chanType = .other then ⟨c, .notSupport, []⟩
      else if c.playEn = false then ⟨c, .notOpenChan, []⟩
      else if c.procsBlk = (v 0).oqWrite then
        if c.chanEosFlag = false then ⟨c, .noAvailableData, []⟩
        else
          match getBbsAddrSize (v 1) (v 0).oqWrite with
          | some b => c.takeCurrent cfg port b (v 2) (v 3) (v 4)
          | none =>
            if c.procsBlk = (v 3).oqWrite then ⟨{ c with chanEosFlag := false }, .emptyBuffer, []⟩
            else c.takeNext cfg ((v 4).oqDesc c.procsBlk)
      else c.takeNext cfg ((v 4).oqDesc c.procsBlk)

/-! ## Release -/

inductive RelRet
  | success
  | invalidPara
  | notSupport
  | notOpenChan
  deriving DecidableEq

/-- `DMX_OsiReleaseReadEs`, and whether the block at the read pointer goes back to the free queue (`DmxOQRelease`). The
    block of other data is given back and the loop goes on with `continue`, which in `do … while (0)` ends it. -/
def releaseReadEs (cfg : Config) (c : Chan) (oqRead : Nat) (v : View) (es : Stream) : RelRet × Bool :=
  if cfg.dmxCnt ≤ c.dmxId then (.invalidPara, false)
  else if c.chanType = .other then (.notSupport, false)
  else if c.playEn = false then (.notOpenChan, false)
  else if oqRead = v.oqWrite then (.success, false)
  else
    let b := v.oqDesc oqRead
    if es.bufPhyAddr < b.startAddr ∨ b.startAddr + b.dataLen < es.bufPhyAddr + es.bufLen then (.success, true)
    else if es.bufPhyAddr + es.bufLen - b.startAddr < b.dataLen then (.success, false)
    else (.success, true)

/-! ## Runs -/

/-- A channel and the blocks of its free queue. -/
structure Setup extends Config where
  pool : List U32
  blockSize : Nat
  depth_pos : 0 < oqDepth
  blockSize_lt : blockSize < 0x10000
  /-- A block is longer than a packet with display control and nothing else. -/
  control_lt : controlLength.toNat < blockSize
  placed : ∀ a ∈ pool, a.toNat + blockSize < 0x100000000
  apart : ∀ a ∈ pool, ∀ b ∈ pool, a ≠ b → a.toNat + blockSize ≤ b.toNat ∨ b.toNat + blockSize ≤ a.toNat

/-- The hardware: the blocks that it appended to the queue so far, the current block, the descriptors in memory, and
    the port's TS buffer. -/
structure Hw where
  closed : List Block
  cur : Option Block
  desc : Nat → Block
  ramRead : U32
  ramWrite : U32

inductive HwEvent
  /-- A block of the free queue becomes the current one. -/
  | take (startAddr : U32) (sop : Bool) (behind : Nat → Byte)
  | append (bytes : List Byte)
  | close
  | ram (read write : U32)

/-- A block without data. -/
def Block.empty (num : Nat) (startAddr : U32) (sop : Bool) (behind : Nat → Byte) : Block :=
  ⟨num, startAddr, sop, [], behind, Nat.zero_lt_succ _, startAddr.isLt⟩

def Block.append (b : Block) (bytes : List Byte) : Block :=
  if h : (b.data ++ bytes).length < 0x10000 ∧ b.startAddr.toNat + (b.data ++ bytes).length < 0x100000000 then
    { b with data := b.data ++ bytes, len_lt := h.1, placed := h.2 }
  else b

/-- The blocks of the channel in their order, the current one last. -/
def Hw.blocks (h : Hw) : List Block := h.closed ++ h.cur.toList

def Hw.next (s : Setup) (h : Hw) : HwEvent → Hw
  | .take startAddr sop behind => { h with cur := some (.empty h.closed.length startAddr sop behind) }
  | .append bytes => { h with cur := h.cur.map (fun b => b.append bytes) }
  | .close =>
    match h.cur with
    | some b =>
      { h with
        closed := h.closed ++ [b], cur := none,
        desc := fun i => if i = h.closed.length % s.oqDepth then b else h.desc i }
    | none => h
  | .ram read write => { h with ramRead := read, ramWrite := write }

/-- What the hardware can do: it takes a block of the pool that is not in use, writes no further than the block, and
    appends a block that has data to a queue that has room. -/
def Hw.can (s : Setup) (read : Nat) (h : Hw) : HwEvent → Prop
  | .take startAddr _ _ =>
    h.cur.isNone = true ∧ startAddr ∈ s.pool ∧ startAddr ∉ (h.blocks.drop read).map Block.startAddr
  | .append bytes => ∀ b ∈ h.cur, b.data.length + bytes.length ≤ s.blockSize
  | .close => (∀ b ∈ h.cur, b.data ≠ []) ∧ h.closed.length + 1 < read + s.oqDepth
  | .ram _ _ => True

instance (s : Setup) (read : Nat) (h : Hw) : (e : HwEvent) → Decidable (h.can s read e)
  | .take _ _ _ => inferInstanceAs (Decidable (_ ∧ _ ∧ _))
  | .append _ => inferInstanceAs (Decidable (∀ b ∈ h.cur, _))
  | .close => inferInstanceAs (Decidable ((∀ b ∈ h.cur, _) ∧ _))
  | .ram _ _ => inferInstanceAs (Decidable True)

/-- What it does of some events. -/
def Hw.run (s : Setup) (read : Nat) (h : Hw) (es : List HwEvent) : Hw :=
  es.foldl (fun h e => if h.can s read e then h.next s e else h) h

/-- The hardware at the reading `i` of a call. -/
def Hw.readAt (s : Setup) (read : Nat) (h : Hw) (between : List (List HwEvent)) (i : Nat) : Hw :=
  h.run s read (between.take (i + 1)).flatten

def Hw.view (s : Setup) (h : Hw) : View := ⟨h.closed.length % s.oqDepth, h.desc, h.cur, h.ramRead, h.ramWrite⟩

/-- A stream that the caller has, with its block as it was when the stream was handed out. -/
structure Held where
  es : Stream
  block : Block

/-- The hardware, the channel, the streams that the caller has, and the blocks that went back to the free queue;
    `read` counts these, and the read pointer is its slot. -/
structure Sys where
  hw : Hw
  chan : Chan
  read : Nat
  held : List Held
  freed : List Block

inductive Input
  | hw (e : HwEvent)
  /-- The end of the stream is set. -/
  | setEos
  /-- `DMX_OsiReadEsRequset`; `between` is what the hardware does before each of its readings. -/
  | request (between : List (List HwEvent))
  /-- `DMX_OsiReleaseReadEs` for the oldest stream. -/
  | release

inductive Event
  | acquired (e : Held)
  /-- A release returns `HI_SUCCESS`. -/
  | released (e : Held)

def step (s : Setup) (x : Sys) : Input → Option (Sys × List Event)
  | .hw e => some ({ x with hw := x.hw.run s x.read [e] }, [])
  | .setEos => some ({ x with chan := { x.chan with chanEosFlag := true } }, [])
  | .request between =>
    let a := readEsRequest s.toConfig (fun i => (x.hw.readAt s x.read between i).view s) x.chan
    let x := { x with hw := x.hw.run s x.read between.flatten, chan := a.chan }
    match a.ret with
    | .success es b => some ({ x with held := x.held ++ [⟨es, b⟩] }, [.acquired ⟨es, b⟩])
    | _ => some (x, [])
  | .release =>
    match x.held with
    | [] => none
    | e :: rest =>
      match releaseReadEs s.toConfig x.chan (x.read % s.oqDepth) (x.hw.view s) e.es with
      | (.success, true) =>
        some ({ x with read := x.read + 1, held := rest, freed := x.freed ++ [x.hw.desc (x.read % s.oqDepth)] },
          [.released e])
      | (.success, false) => some ({ x with held := rest }, [.released e])
      | _ => some (x, [])

/-- A channel that was just started; `desc` is what the memory of the descriptors has. -/
def start (c : Chan) (desc : Nat → Block) : Sys :=
  ⟨⟨[], none, desc, 0, 0⟩, { c with procsBlk := 0, procsOffset := 0 }, 0, [], []⟩

end HiSTB.Demux.Es
