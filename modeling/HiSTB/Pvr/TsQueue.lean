import HiSTB.Lib.Run
import HiSTB.Lib.Ring

/-!
# `Pvr.TsQueue` — the record TS queue (`hi_pvr_rec_ctrl.c`)

With `HI_PVR_L2_CACHE_SUPPORT` a recording goes through a queue in memory: one thread pushes the data of the
demultiplexer (`PVRRecTsQueuePush`), another one writes it to the file. The second thread asks for a piece
(`PVRRecTsQueuePollBuff`), and takes it out when it is written (`PVRRecTsQueuePollHead`).

The queue is a piece of memory with a head and a tail pointer; `u32Flag` tells a full queue from an empty one. The
memory is modelled by offsets from `pu8RecData`, the pointers by their addresses. `PVR_REC_TS_QUEUE_BLOCK`, which the
repository does not define, is a parameter.

Left out: the log messages, and the user's buffer size from which `PVRRecTsQueueInit` takes the size.
-/

namespace HiSTB.Pvr.TsQueue

open Lib

abbrev Byte := BitVec 8

inductive Flag
  | empty
  | full
  deriving DecidableEq

/-- The memory that `PVRRecTsQueueInit` gets from `HI_MALLOC`: it is not null, and its end is an address. -/
structure Area where
  recData : BitVec 32
  size : BitVec 32
  recData_pos : 0 < recData.toNat
  size_pos : 0 < size.toNat
  room : recData.toNat + size.toNat < 0x100000000

/-- Data to be pushed; its length is a `HI_U32`. -/
structure Block where
  bytes : List Byte
  lt : bytes.length < 0x100000000
  deriving DecidableEq

def Block.len (b : Block) : BitVec 32 := BitVec.ofNat 32 b.bytes.length

/-- `PVR_REC_TS_DATA_QUEUE_S`. -/
structure Queue where
  flag : Flag
  head : BitVec 32
  tail : BitVec 32
  headGolbalOffset : BitVec 64
  tailGolbalOffset : BitVec 64
  mem : Nat → Byte

variable (a : Area)

/-- `PVRRecTsQueueInit`. -/
def queueInit : Queue where
  flag := .empty
  head := a.recData
  tail := a.recData
  headGolbalOffset := 0
  tailGolbalOffset := 0
  mem := fun _ => 0

namespace Queue

/-- `PVRRecTsQueueGetValidSize`. -/
def getValidSize (q : Queue) : BitVec 32 :=
  if q.flag = .empty ∧ q.head = q.tail then a.size
  else if q.flag = .full ∧ q.head = q.tail then 0
  else if q.head > q.tail then q.head - q.tail
  else a.size + q.head - q.tail

/-- `PVRRecTsQueuePush`, once the data is known to fit. -/
def pushData (q : Queue) (b : Block) : Queue :=
  let queueStart := a.recData
  let queueEnd := queueStart + a.size
  let queueHead := q.head - queueStart
  let queueTail := q.tail - queueStart
  let mem :=
    if queueTail + b.len > a.size then
      let cpySize := (a.size - queueTail).toNat
      writeAt (writeAt q.mem queueTail.toNat (b.bytes.take cpySize)) 0 (b.bytes.drop cpySize)
    else writeAt q.mem queueTail.toNat b.bytes
  let tail := queueStart + (queueTail + b.len) % a.size
  let tail := if tail = queueEnd then a.recData else tail
  { q with
    mem := mem
    tail := tail
    tailGolbalOffset := q.tailGolbalOffset + b.len.setWidth 64
    -- the source compares an address with an offset
    flag := if tail = queueHead then .full else q.flag }

/-- `PVRRecTsQueuePush`; and whether it succeeds. -/
def push (q : Queue) (b : Block) : Queue × Bool :=
  if q.flag = .full ∧ q.head = q.tail then (q, false)
  else if b.len > q.getValidSize a then (q, false)
  else (q.pushData a b, true)

variable (queueBlock : BitVec 32)

/-- The length that `PVRRecTsQueuePollBuff` returns for a queue that is not empty. -/
def pollSize (q : Queue) : BitVec 32 :=
  let queueEnd := a.recData + a.size
  let queueHead := q.head - a.recData
  let queueTail := q.tail - a.recData
  let usedSize := a.size - q.getValidSize a
  let pollSize :=
    if queueBlock > usedSize then
      if queueHead > queueTail then a.size - queueHead else queueTail - queueHead
    else queueBlock
  if q.head + pollSize > queueEnd then queueEnd - q.head else pollSize

/-- `PVRRecTsQueuePollBuff`: address and length, and whether it succeeds. Where the head is behind the end of the
    memory, the caller's variables stay as they are. -/
def pollBuff (q : Queue) (old : BitVec 32 × BitVec 32) : (BitVec 32 × BitVec 32) × Bool :=
  if q.flag = .empty ∧ q.head = q.tail then ((q.head, 0), false)
  else if q.head > a.recData + a.size then (old, false)
  else ((q.head, q.pollSize a queueBlock), true)

/-- `PVRRecTsQueuePollHead`. -/
def pollHead (q : Queue) (dataLen : BitVec 32) : Queue :=
  let queueStart := a.recData
  let queueEnd := queueStart + a.size
  let queueHead := q.head - queueStart
  let queueTail := q.tail - queueStart
  let head := queueStart + (queueHead + dataLen) % a.size
  let head := if head = queueEnd then a.recData else head
  { q with
    head := head
    headGolbalOffset := q.headGolbalOffset + dataLen.setWidth 64
    flag := if head = queueTail then .empty else q.flag }

end Queue

/-! ## The two threads -/

/-- The queue, and what `PVRRecTsQueuePollBuff` returned last: address and length. -/
structure Sys where
  queue : Queue
  polled : BitVec 32 × BitVec 32

inductive Input
  | push (b : Block)
  | pollBuff
  | pollHead (dataLen : BitVec 32)

inductive Event
  | pushed (b : Block)
  | refused (b : Block)
  | polled (succeeded : Bool) (addr len : BitVec 32)
  /-- The bytes that leave the queue. -/
  | taken (bytes : List Byte)

/-- The bytes at an address of the queue. -/
def bytesAt (mem : Nat → Byte) (addr : BitVec 32) (len : Nat) : List Byte :=
  (List.range len).map (fun i => mem ((addr - a.recData).toNat + i))

variable (queueBlock : BitVec 32)

/-- One call. What is taken out is at most what `PVRRecTsQueuePollBuff` returned. -/
def step (s : Sys) : Input → Option (Sys × List Event)
  | .push b =>
    let (q, ok) := s.queue.push a b
    some ({ s with queue := q }, [if ok then .pushed b else .refused b])
  | .pollBuff =>
    let (polled, ok) := s.queue.pollBuff a queueBlock s.polled
    some ({ s with polled := polled }, [.polled ok polled.1 polled.2])
  | .pollHead dataLen =>
    if dataLen ≤ s.polled.2 then
      some ({ queue := s.queue.pollHead a dataLen, polled := (0, 0) },
        [.taken (bytesAt a s.queue.mem s.polled.1 dataLen.toNat)])
    else none

def init : Sys := ⟨queueInit a, (0, 0)⟩

end HiSTB.Pvr.TsQueue
