import HiSTB.Lib.Run

/-!
# `Demux.FqBuf` — the buffer of a free queue (`drv_demux_func.c`)

A channel that plays audio or video and a recording have free queues of their own. The creators round the size that the
user asked for, derive the depths of the free queue (FQ) and of the output queue (OQ) from it, and allocate one piece of
memory for the data and the descriptors of both. `DmxFqStart` installs the data blocks. From then on the hardware takes
blocks from the read pointer, releases put them back at the write pointer, and two status calls compute from the
pointers how much of the buffer is in use.

* `osiCreateChannel`, `recCreateChannel` — the sizes and the places;
* `fqStart` — the descriptors;
* `step` — the pointers, and the blocks that are not in the queue;
* `usedSize` — the used size.

`DMX_BUF_INTERVAL` and three more constants are not in the repository and are parameters, and so is the allocation. Left
out: the checks and fields that have nothing to do with the sizes, and the registers but for the pointers.
-/

namespace HiSTB.Demux.FqBuf

open Lib

abbrev U32 := BitVec 32

/-- The constants of the build. -/
structure Consts where
  /-- `DMX_BUF_INTERVAL`. -/
  bufInterval : U32
  /-- `DMX_MAX_AVFQ_DESC`. -/
  maxAvfqDesc : U32
  /-- `DMX_MAX_BLOCK_SIZE`. -/
  maxBlockSize : U32
  /-- `DMX_OQ_DEPTH`. -/
  oqDepth : U32
  maxAvfqDesc_pos : 0 < maxAvfqDesc.toNat
  maxBlockSize_pos : 0 < maxBlockSize.toNat
  oqDepth_pos : 0 < oqDepth.toNat
  /-- A depth has 10 bits of a register. -/
  oqDepth_lt : oqDepth.toNat < 0x400

/-- `HI_DRV_MMZ_AllocAndMap`: the start of a piece of memory of this size, which ends within the address space. -/
structure Mmz where
  allocAndMap : U32 → Option U32
  end_le : ∀ size start : U32, allocAndMap size = some start → start.toNat + size.toNat ≤ 0x100000000

/-! ## Sizes and places -/

/-- A size, in pages of `MIN_MMZ_BUF_SIZE`. -/
def align (size : U32) : U32 := (size + 4096 - 1) / 4096 * 4096

/-- The fields of `DMX_FQ_Info_S` and `DMX_OQ_Info_S` that are set. The physical addresses are left out, which are set
    in the same way. -/
structure Queue where
  bufAddr : U32
  bufSize : U32
  blockSize : U32
  fqAddr : U32
  fqDepth : U32
  fqBufSize : U32
  oqAddr : U32
  oqDepth : U32
  oqBufSize : U32

/-- The end of the creators: the places and depths in a piece of memory that starts here. -/
def queueAt (cfg : Consts) (bufSize blockSize start : U32) : Queue :=
  let fqDepth := bufSize / blockSize + 1
  let fqBufSize := align (fqDepth * 8)
  let oqDepth := if fqDepth < cfg.oqDepth then fqDepth - 1 else cfg.oqDepth
  { bufAddr := start
    bufSize := bufSize
    blockSize := blockSize
    fqAddr := start + bufSize
    fqDepth := fqDepth
    fqBufSize := fqBufSize
    oqAddr := start + bufSize + fqBufSize
    oqDepth := oqDepth
    oqBufSize := oqDepth * 16 }

/-- `BufSize + FqBufSize + OqBufSize`. -/
def Queue.total (q : Queue) : U32 := q.bufSize + q.fqBufSize + q.oqBufSize

/-- The memory for all areas. -/
def allocQueue (cfg : Consts) (mmz : Mmz) (bufSize blockSize : U32) : Option Queue :=
  (mmz.allocAndMap (queueAt cfg bufSize blockSize 0).total).map (queueAt cfg bufSize blockSize)

inductive AvType
  | aud
  | vid
  deriving DecidableEq

/-- The size that is asked for, at least `DMX_PES_CHANNEL_MIN_SIZE`. -/
def atLeastMin (size : U32) : U32 :=
  let size := if size < 4096 then 4096 else size
  if size < 0x10000 then 0x10000 else size

def avBlockSize (cfg : Consts) (type : AvType) (bufSize : U32) : U32 :=
  let blockSize : U32 := if type = .aud then 1280 else 8192
  if bufSize / cfg.maxAvfqDesc > blockSize then
    let blockSize := bufSize / cfg.maxAvfqDesc - bufSize / cfg.maxAvfqDesc % 4
    if blockSize > cfg.maxBlockSize then cfg.maxBlockSize else blockSize
  else blockSize

/-- `DMX_OsiCreateChannel`, for audio and video. -/
def osiCreateChannel (cfg : Consts) (mmz : Mmz) (type : AvType) (size : U32) : Option Queue :=
  let bufSize := align (atLeastMin size)
  allocQueue cfg mmz bufSize (avBlockSize cfg type bufSize)

inductive IndexType
  | none
  | video
  | audio
  deriving DecidableEq

/-- `RecFqBlockSize`; `timeStamp`: packets of 192 bytes. -/
def recBlockSize (type : IndexType) (timeStamp : Bool) : U32 :=
  match type with
  | .none => 64 * (4 * 188)
  | .video => if timeStamp then 64 * (4 * 192) else 64 * (4 * 188)
  | .audio => if timeStamp then 32 * (4 * 192) else 32 * (4 * 188)

/-- `ScdBufSize` and `ScdBlockSize`. -/
def scdSizes : IndexType → U32 × U32
  | .none => (0, 0)
  | .video => (56 * 1024, 8 * 28)
  | .audio => (28 * 1024, 4 * 28)

/-- Aligned with the block. -/
def wholeBlocks (size blockSize : U32) : U32 := align size - align size % blockSize

/-- `DMX_DRV_REC_CreateChannel`: the queues for the stream and for the start codes. -/
def recCreateChannel (cfg : Consts) (mmz : Mmz) (type : IndexType) (timeStamp : Bool) (size : U32) :
    Option (Queue × Option Queue) :=
  if size < 256 * 1024 then none
  else
    let blockSize := recBlockSize type timeStamp
    (allocQueue cfg mmz (wholeBlocks size blockSize) blockSize).bind (fun rec' =>
      let scd := scdSizes type
      if scd.1 = 0 then some (rec', none)
      else (allocQueue cfg mmz (wholeBlocks scd.1 scd.2) scd.2).map (fun q => (rec', some q)))

/-! ## The blocks -/

/-- `FQ_DescInfo_S`. -/
structure Desc where
  startAddr : U32
  buflen : U32
  deriving DecidableEq

/-- The loop of `DmxFqStart`. -/
def installBlocks (cfg : Consts) (blockSize : U32) : Nat → U32 → List Desc
  | 0, _ => []
  | n + 1, addr => ⟨addr, blockSize⟩ :: installBlocks cfg blockSize n (addr + (blockSize + cfg.bufInterval))

/-- The blocks that `DmxFqStart` installs; the last descriptor gets none. -/
def fqStart (cfg : Consts) (q : Queue) : List Desc := installBlocks cfg q.blockSize (q.fqDepth - 1).toNat q.bufAddr

/-! ## The pointers -/

/-- `DMXINC`. The macro is not part of the repository; it is assumed to count modulo the depth. -/
def inc (p depth : U32) : U32 := if p + 1 < depth then p + 1 else 0

/-- The pointers, the slots, and the blocks that are not in the queue. -/
structure Sys where
  read : U32
  write : U32
  slots : U32 → U32
  out : List U32

inductive Input
  /-- The hardware takes a block. -/
  | take
  /-- A block is put back. -/
  | release (addr : U32)
  deriving DecidableEq

/-- An empty queue gives no block, and only a block that was taken comes back. -/
def step (depth : U32) (x : Sys) : Input → Option (Sys × List Unit)
  | .take =>
    if x.read = x.write then none
    else some ({ x with read := inc x.read depth, out := x.slots x.read :: x.out }, [])
  | .release addr =>
    if addr ∈ x.out then
      some ({ x with
        write := inc x.write depth
        slots := fun p => if p = x.write then addr else x.slots p
        out := x.out.erase addr }, [])
    else none

/-- The queue as `DmxFqStart` leaves it; the register has 16 bits for the write pointer. -/
def start (depth : U32) (slots : U32 → U32) : Sys := ⟨0, (depth - 1) &&& 0xffff, slots, []⟩

/-- `u32UsedSize` of `DMX_OsiGetFQBufStatus`. -/
def usedSize (depth blockSize read write : U32) : U32 :=
  if read < write then (depth - 1 - write + read) * blockSize
  else if read > write then (read - write) * blockSize
  else 0

/-- `DMX_OsiGetFQBufStatus`: size, used size and pointers. -/
def osiGetFQBufStatus (q : Queue) (x : Sys) : U32 × U32 × U32 × U32 :=
  (q.bufSize, usedSize q.fqDepth q.blockSize x.read x.write, x.read, x.write)

/-- `DMX_DRV_REC_GetRecBufferStatus`: size and used size. -/
def recGetRecBufferStatus (recStarted : Bool) (q : Queue) (x : Sys) : U32 × U32 :=
  (q.bufSize, if recStarted then usedSize q.fqDepth q.blockSize x.read x.write else 0)

end HiSTB.Demux.FqBuf
