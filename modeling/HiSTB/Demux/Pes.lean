import HiSTB.Lib.Run

/-!
# `Demux.Pes` — the blocks of a PES channel (`drv_demux_func.c`)

The hardware appends blocks to the output queue (OQ) of a channel and marks the first block of each PES packet
(SOP). `DMXOsiFindPes` returns the blocks from the queue's read pointer on, up to the end of a packet or up to
`DMX_PES_MAX_SIZE` blocks; what it knows of a packet that goes on is in the channel. It leaves the read pointer
alone: the release moves it (`DMX_OsiReleaseReadData`).

The queue is the list of its blocks, oldest first. `DMXOsiReadPes` calls `DMXOsiFindPes` once, or, where that
fails, waits for the hardware and calls it again; both are calls of the machine below.

Left out: the counters, the free queue that the released blocks go to, and `u32ProcsBlk` of the queue, which no one
reads for a PES channel.
-/

namespace HiSTB.Demux.Pes

/-- A block of the queue: `OQ_DescInfo_S`, and the bytes 4 and 5 of the block's data. -/
structure Desc where
  startAddr : BitVec 32
  dataLen : BitVec 16
  /-- Bit 18 of the control word: a packet begins. -/
  sop : Bool
  /-- Bit 19: the packet was cut off. -/
  drop : Bool
  /-- `PES_packet_length`, where a packet begins. -/
  packetLen : BitVec 16
  deriving DecidableEq

/-- `HI_UNF_DMX_DATA_TYPE_E`. -/
inductive DataType
  | whole
  | head
  | body
  | tail
  deriving DecidableEq

/-- `DMX_UserMsg_S`. -/
structure Msg where
  bufStartAddr : BitVec 32
  msgLen : BitVec 16
  dataType : DataType
  deriving DecidableEq

/-- The fields of `DMX_ChanInfo_S` that one call leaves for the next. -/
structure Chan where
  pesBlkCnt : BitVec 32
  procsOffset : BitVec 32
  pesLength : BitVec 32
  deriving DecidableEq

/-- No packet is known. -/
def Chan.zero : Chan := ⟨0, 0, 0⟩

/-- What `DMXOsiFindPes` leaves behind: the messages where it succeeded, the channel, and how many blocks it gave
    back by itself. -/
structure Found where
  ret : Option (List Msg)
  chan : Chan
  released : Nat

/-- The variables of `DMXOsiFindPes`. `msgs` is the part of `psMsgList` that is filled in, so that
    `u32CurBlkNum` is its length. -/
structure Scan where
  procsBlk : BitVec 32
  offset : BitVec 32
  pesLen : BitVec 32
  pesHead : Bool
  dropTimes : Nat
  msgs : List Msg
  released : Nat
  chan : Chan

namespace Scan

/-- At the beginning of a call. -/
def start (c : Chan) : Scan :=
  { procsBlk := c.pesBlkCnt, offset := c.procsOffset, pesLen := c.pesLength, pesHead := false, dropTimes := 0
    msgs := [], released := 0, chan := c }

/-- The message's type is set again. -/
def retype (t : DataType) (m : Msg) : Msg := { m with dataType := t }

/-- The last message's type is set again. -/
def retypeLast (t : DataType) (ms : List Msg) : List Msg := ms.dropLast ++ (ms.getLast?.map (retype t)).toList

/-- Event 1: a packet begins here. -/
def begin (l : Scan) (d : Desc) : Scan :=
  let len := d.packetLen.setWidth 32
  let pesLen := if len ≠ 0 then len + 6 else len
  { l with pesLen := pesLen, pesHead := true, chan := { l.chan with pesLength := pesLen } }

/-- The branch for a block with SOP. -/
def onSop (l : Scan) (d : Desc) : Found ⊕ Scan :=
  if d.sop then
    if l.procsBlk = 0 then .inr (l.begin d)
    else if l.msgs ≠ [] then
      let t := if l.chan.pesBlkCnt ≠ 0 then .tail else .whole
      .inl ⟨some (retypeLast t l.msgs), .zero, l.released⟩
    else
      -- the round is taken again, and then it is event 1
      .inr ({ l with procsBlk := 0, chan := .zero }.begin d)
  else .inr l

/-- The branch for a block with DROP: it and the blocks before it are given back. -/
def onDrop (l : Scan) : Scan :=
  { l with
    released := l.released + (l.msgs.length + 1), msgs := [], procsBlk := 0, chan := .zero, offset := 0
    dropTimes := l.dropTimes + 1 }

/-- The block becomes a message. -/
def onData (l : Scan) (d : Desc) : Found ⊕ Scan :=
  let offset := l.offset + d.dataLen.setWidth 32
  let m : Msg := ⟨d.startAddr, d.dataLen, if l.pesHead then .head else .body⟩
  if offset = l.pesLen ∧ l.pesLen ≠ 0 then
    let t := if l.procsBlk = 0 then .whole else .tail
    .inl ⟨some (l.msgs ++ [retype t m]), .zero, l.released⟩
  else .inr { l with offset := offset, pesHead := false, msgs := l.msgs ++ [m], procsBlk := l.procsBlk + 1 }

variable (maxSize acqNum : Nat)

/-- As many blocks as one call returns. -/
def full (l : Scan) : Bool := l.msgs.length = maxSize || l.msgs.length = acqNum

/-- Behind the loop. -/
def finish (l : Scan) : Found :=
  if l.full maxSize acqNum then
    let chan := { l.chan with
      pesBlkCnt := l.chan.pesBlkCnt + BitVec.ofNat 32 l.msgs.length
      procsOffset := l.chan.procsOffset + l.offset }
    ⟨some l.msgs, chan, l.released⟩
  else ⟨none, l.chan, l.released⟩

/-- The loop of `DMXOsiFindPes`, over the blocks from `u32ReadBlk` to `u32WriteBlk`. -/
def loop : List Desc → Scan → Found
  | [], l => l.finish maxSize acqNum
  | d :: ds, l =>
    match l.onSop d with
    | .inl r => r
    | .inr l =>
      if d.drop then
        let l := l.onDrop
        if l.dropTimes > 10 then ⟨none, l.chan, l.released⟩ else loop ds l
      else
        match l.onData d with
        | .inl r => r
        | .inr l => if l.full maxSize acqNum then l.finish maxSize acqNum else loop ds l

end Scan

/-- `DMXOsiFindPes`. -/
def findPes (maxSize acqNum : Nat) (oq : List Desc) (c : Chan) : Found :=
  Scan.loop maxSize acqNum oq (.start c)

/-- `DMX_OsiReleaseReadData` of a PES channel: the number of blocks given back, `none` where a message is not of
    the next block. -/
def releaseReadData : List Msg → List Desc → Option Nat
  | [], _ => some 0
  | _ :: _, [] => some 0
  | m :: ms, d :: ds =>
    if m.bufStartAddr ≠ d.startAddr then none else (releaseReadData ms ds).map (· + 1)

/-- A channel, its queue, the messages that are acquired and not yet released, and the blocks that are still to
    come. -/
structure Sys where
  chan : Chan
  oq : List Desc
  held : List Msg
  toCome : List Desc

inductive Input
  /-- The hardware appends the next block. -/
  | arrive
  /-- `DMXOsiFindPes`. -/
  | acquire
  /-- `DMX_OsiReleaseReadData`, with the messages of the last acquire. -/
  | release
  deriving DecidableEq

/-- One step; it shows the messages that a call returned. A caller acquires and releases in turn, and acquires
    again where there was nothing. -/
def step (maxSize : Nat) (s : Sys) : Input → Option (Sys × List (List Msg))
  | .arrive =>
    match s.toCome with
    | [] => none
    | d :: ds => some ({ s with oq := s.oq ++ [d], toCome := ds }, [])
  | .acquire =>
    if s.held ≠ [] then none
    else
      let r := findPes maxSize maxSize s.oq s.chan
      let oq := s.oq.drop r.released
      match r.ret with
      | some ms => some ({ s with chan := r.chan, oq := oq, held := ms }, [ms])
      | none => some ({ s with chan := r.chan, oq := oq }, [])
  | .release =>
    if s.held = [] then none
    else
      (releaseReadData s.held s.oq).map (fun n => ({ s with oq := s.oq.drop n, held := [] }, []))

/-- A channel that was just opened. -/
def init (blocks : List Desc) : Sys := ⟨.zero, [], [], blocks⟩

end HiSTB.Demux.Pes
