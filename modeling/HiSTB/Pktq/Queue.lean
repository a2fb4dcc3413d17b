import HiSTB.Lib.LinkedQueue
import HiSTB.Lib.Run
import HiSTB.Lib.Word

/-!
# `Pktq.Queue` — the packet queue of `svr_utils.c`

A queue owns two linked lists of nodes: the fill list holds packets with data, the free list holds nodes for
reuse. Every operation runs under the queue's lock and is one step. A call that has to wait changes nothing
until it is woken, so it is a step at the moment it gets its data, or a step without effect when it gives up.

Nodes are addresses; `next` and `pkt` are their link and packet fields. A fresh node comes from `brk`, and
`malloc` may fail. The counters of the queue are `int`s that wrap (`int32`); nothing keeps the buffers of a queue
below 2 GiB. A packet's own `rd_idx` is not reduced: it leaves `int` only behind the end of the packet's buffer.
The loops run at most once for each node there is. The packet's `priv` pointer, which the queue only copies, is left
out.
-/

namespace HiSTB.Pktq

open Lib LinkedQueue

/-- `uint8_t`. -/
abbrev BYTE := BitVec 8

/-- `DataPacket`, with the contents of its buffer. -/
structure DataPacket where
  data : Nat → BYTE
  dataSize : Int
  bufSize : Int
  rdIdx : Int

/-- `PKTQueue`, with the memory of its nodes. -/
structure PKTQueue where
  next : Nat → Option Nat
  pkt : Nat → DataPacket
  brk : Nat
  fill : Ends
  free : Ends
  maxBufSize : Int
  curBufSize : Int
  forbiddenSize : Int
  dataSize : Int
  full : Bool
  exit : Bool
  nbFillNode : Int
  nbFreeNode : Int
  peakBufSize : Int
  peakDataSize : Int

/-- A node without data. -/
def emptyPacket : DataPacket := ⟨fun _ => 0, 0, 0, 0⟩

/-- `pktq_create`, after its argument check. -/
def pktqCreate (maxBufSize forbiddenSize : Int) : PKTQueue where
  next := fun _ => none
  pkt := fun _ => emptyPacket
  brk := 0
  fill := ⟨none, none⟩
  free := ⟨none, none⟩
  maxBufSize := maxBufSize
  curBufSize := 0
  forbiddenSize := forbiddenSize
  dataSize := 0
  full := false
  exit := false
  nbFillNode := 0
  nbFreeNode := 0
  peakBufSize := 0
  peakDataSize := 0

/-- `n` bytes of a packet from its read index on. -/
def DataPacket.bytes (pkt : DataPacket) (n : Nat) : List BYTE :=
  (List.range n).map (fun r => pkt.data (pkt.rdIdx.toNat + r))

/-- The unread bytes of a packet. -/
def DataPacket.rest (pkt : DataPacket) : List BYTE := pkt.bytes pkt.dataSize.toNat

/-- What a step shows: the bytes of a packet that was accepted, of data handed to a reader, and of packets
    thrown away by `pktq_clear`. -/
inductive Event
  | accepted (bytes : List BYTE)
  | delivered (bytes : List BYTE)
  | discarded (bytes : List BYTE)

/-! ## Moving nodes between the lists -/

/-- `DEL_HEAD_FROM_QUE` on the fill list, the node emptied, and `APPEND_TO_QUE` to the free list. -/
def recycleHead (q : PKTQueue) : PKTQueue :=
  match delHead q.next q.fill with
  | (_, none) => q
  | (fill, some node) =>
    let r := append (Function.update q.next node none) q.free node
    { q with
      next := r.1
      pkt := Function.update q.pkt node emptyPacket
      fill := fill
      free := r.2
      nbFillNode := int32 (q.nbFillNode - 1)
      curBufSize := int32 (q.curBufSize - (q.pkt node).bufSize)
      nbFreeNode := int32 (q.nbFreeNode + 1) }

/-! ## `pktq_put_pkt` -/

/-- The argument check. -/
def putValid (pkt : DataPacket) : Bool :=
  !(decide (pkt.bufSize ≤ 0) || decide (pkt.dataSize > pkt.bufSize) || decide (pkt.rdIdx > pkt.dataSize) ||
    (decide (pkt.rdIdx = pkt.dataSize) && decide (pkt.dataSize > 0)) || decide (pkt.rdIdx < 0))

/-- Too little was read since the queue was full. -/
def putForbidden (q : PKTQueue) : Bool :=
  q.full && decide (q.curBufSize < q.maxBufSize) && decide (int32 (q.maxBufSize - q.curBufSize) ≤ q.forbiddenSize)

/-- The queue is full. -/
def putFull (q : PKTQueue) : Bool := decide (q.curBufSize > q.maxBufSize) && decide (q.maxBufSize > 0)

/-- A node for a packet: from the free list, or from `malloc` (`none` when it fails). -/
def takeNode (q : PKTQueue) (mallocOk : Bool) : Option (PKTQueue × Nat) :=
  match delHead q.next q.free with
  | (free, some node) => some ({ q with free := free, nbFreeNode := int32 (q.nbFreeNode - 1) }, node)
  | (_, none) => if mallocOk then some ({ q with brk := q.brk + 1 }, q.brk) else none

/-- The packet goes into the node, and the node to the end of the fill list. -/
def appendFill (q : PKTQueue) (node : Nat) (pkt : DataPacket) : PKTQueue :=
  let r := append (Function.update q.next node none) q.fill node
  let curBufSize := int32 (q.curBufSize + pkt.bufSize)
  let dataSize := int32 (q.dataSize + pkt.dataSize)
  { q with
    next := r.1
    pkt := Function.update q.pkt node pkt
    fill := r.2
    nbFillNode := int32 (q.nbFillNode + 1)
    curBufSize := curBufSize
    dataSize := dataSize
    peakBufSize := if curBufSize > q.peakBufSize then curBufSize else q.peakBufSize
    peakDataSize := if dataSize > q.peakDataSize then dataSize else q.peakDataSize }

/-- `pktq_put_pkt`; a null packet makes the readers quit. -/
def pktqPutPkt (q : PKTQueue) (pkt : Option DataPacket) (mallocOk : Bool) : PKTQueue × List Event :=
  match pkt with
  | none => ({ q with exit := true }, [])
  | some pkt =>
    if putValid pkt = false then (q, [])
    else if putForbidden q then (q, [])
    else if putFull q then ({ q with full := true }, [])
    else
      match takeNode { q with full := false } mallocOk with
      | none => ({ q with full := false }, [])
      | some (q, node) => (appendFill q node pkt, [.accepted pkt.rest])

/-! ## `pktq_read` -/

/-- `cplen` bytes are read from a node. -/
def DataPacket.advance (pkt : DataPacket) (cplen : Int) : DataPacket :=
  { pkt with dataSize := pkt.dataSize - cplen, rdIdx := pkt.rdIdx + cplen }

/-- `cplen` bytes are read from the node of the queue. -/
def readNode (q : PKTQueue) (node : Nat) (cplen : Int) : PKTQueue :=
  { q with
    pkt := Function.update q.pkt node ((q.pkt node).advance cplen)
    dataSize := int32 (q.dataSize - cplen) }

/-- Variables of the loop of `pktq_read`. -/
structure ReadVars where
  q : PKTQueue
  buf : List BYTE
  left : Int

/-- One round of the loop; `none` where `fill_head` is `NULL`. -/
def readRound (v : ReadVars) : Option ReadVars :=
  v.q.fill.head.map (fun node =>
    let pkt := v.q.pkt node
    let cplen := if pkt.dataSize > v.left then v.left else pkt.dataSize
    let q := readNode v.q node cplen
    { q := if (q.pkt node).dataSize ≤ 0 then recycleHead q else q
      buf := v.buf ++ pkt.bytes cplen.toNat
      left := v.left - cplen })

/-- `do … while (left > 0 && q->data_size > 0)`, at most `fuel` rounds. -/
def readLoop : Nat → ReadVars → Option ReadVars
  | 0, _ => none
  | fuel + 1, v =>
    (readRound v).bind (fun v =>
      if v.left > 0 ∧ v.q.dataSize > 0 then readLoop fuel v else some v)

/-- `pktq_read`; `none` where the loop fails. -/
def pktqRead (q : PKTQueue) (len : Int) : Option (PKTQueue × List Event) :=
  if len ≤ 0 then some (q, [])
  else if q.exit then some (q, [])
  else if q.dataSize > 0 then
    (readLoop q.brk { q := q, buf := [], left := len }).map (fun v => (v.q, [.delivered v.buf]))
  else some (q, [])

/-! ## `pktq_get_pkt` and `pktq_clear` -/

/-- The first packet leaves the queue as a whole. -/
def dropHead (q : PKTQueue) (node : Nat) : PKTQueue :=
  { recycleHead q with dataSize := int32 (q.dataSize - (q.pkt node).dataSize) }

/-- `pktq_get_pkt`. -/
def pktqGetPkt (q : PKTQueue) : PKTQueue × List Event :=
  if q.exit then (q, [])
  else
    match q.fill.head with
    | none => (q, [])
    | some node => (dropHead q node, [.delivered (q.pkt node).rest])

/-- `while (q->fill_head != NULL)`, at most `fuel` rounds, with the bytes thrown away. -/
def clearLoop : Nat → PKTQueue → Option (PKTQueue × List BYTE)
  | fuel, q =>
    match q.fill.head with
    | none => some (q, [])
    | some node =>
      match fuel with
      | 0 => none
      | fuel + 1 => (clearLoop fuel (dropHead q node)).map (fun r => (r.1, (q.pkt node).rest ++ r.2))

/-- `pktq_clear`; `none` where the loop fails. -/
def pktqClear (q : PKTQueue) : Option (PKTQueue × List Event) :=
  (clearLoop q.brk q).map (fun r => (r.1, [.discarded r.2]))

/-! ## `pktq_destroy` -/

/-- `while(q->fill_head != NULL)`, at most `fuel` rounds, with the nodes that are freed. -/
def destroyFill : Nat → PKTQueue → Option (PKTQueue × List Nat)
  | fuel, q =>
    match q.fill.head with
    | none => some (q, [])
    | some node =>
      match fuel with
      | 0 => none
      | fuel + 1 =>
        (destroyFill fuel { q with
          fill := { q.fill with head := q.next node }
          curBufSize := int32 (q.curBufSize - (q.pkt node).bufSize)
          dataSize := int32 (q.dataSize - (q.pkt node).dataSize)
          nbFillNode := int32 (q.nbFillNode - 1) }).map (fun r => (r.1, node :: r.2))

/-- `while(q->free_head != NULL)`. -/
def destroyFree : Nat → PKTQueue → Option (PKTQueue × List Nat)
  | fuel, q =>
    match q.free.head with
    | none => some (q, [])
    | some node =>
      match fuel with
      | 0 => none
      | fuel + 1 =>
        (destroyFree fuel { q with
          free := { q.free with head := q.next node }
          nbFreeNode := int32 (q.nbFreeNode - 1) }).map (fun r => (r.1, node :: r.2))

/-- `pktq_destroy`: the queue with the counters that it logs, and the nodes that it frees; `none` where a loop fails. -/
def pktqDestroy (q : PKTQueue) : Option (PKTQueue × List Nat) :=
  (destroyFill q.brk (pktqPutPkt q none true).1).bind (fun r =>
    (destroyFree q.brk r.1).map (fun u => (u.1, r.2 ++ u.2)))

/-! ## The queue as a machine -/

/-- A call of one of the operations. -/
inductive Op
  | put (pkt : Option DataPacket) (mallocOk : Bool)
  | read (len : Int)
  | get
  | clear

/-- One call. -/
def step (q : PKTQueue) : Op → Option (PKTQueue × List Event)
  | .put pkt mallocOk => some (pktqPutPkt q pkt mallocOk)
  | .read len => pktqRead q len
  | .get => some (pktqGetPkt q)
  | .clear => pktqClear q

end HiSTB.Pktq
