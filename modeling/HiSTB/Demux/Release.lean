import HiSTB.Demux.Section

/-!
# `Demux.Release` — giving back the blocks of a section or post channel (`drv_demux_func.c`)

The caller gives back messages, `DMX_OsiReleaseReadData` finds the blocks that are read to their end. It walks over
the queue from its read pointer on, and takes the messages one by one. A message that ends with the current block
completes that block; so does a message of the next block, which is the next one that is not on the error list. A
message of neither completes the current block if that one is on the error list, and is otherwise taken for a sign
that the driver has lost track of its blocks: `ResetPoolBuf` then wipes all channels.

The reading side and the hardware are those of `Demux.Section`, also between the reads of a register. The pointers of
the queue count up; where the code compares them with the pointer of the free queue they are taken modulo the depth.
Of the hardware it is used that it takes blocks of the pool that are not in the queue, that it writes no further than
the block, and that it appends a block that has data to a queue that has room.

Every block that is completed goes to `pAddr`, one on the error list or not. The array has room for
`DMX_MAX_ERRLIST_NUM` blocks, and nothing looks at that: a release that completes more of them writes behind the array.
What it overwrites there is not part of the model, which shows the write and leaves the channel as it was.

Left out: the counters, an allocation of `pAddr` that fails, and the sizes of the blocks, which are all the same.
-/

namespace HiSTB.Demux.Release

open Section

/-- A channel and its blocks. `stride` is a block's size and the gap behind it; `depth` is that of the free queue. -/
structure Config extends Section.Config where
  blockSize : Nat
  stride : BitVec 32
  depth : Nat
  oqDepth : Nat
  blockSize_pos : 0 < blockSize
  blockSize_le : blockSize ≤ stride.toNat
  room : fqPhyAddr.toNat + (depth - 1) * stride.toNat + tsPacketLen < 0x100000000

/-- The blocks that `DmxFqStart` installs. -/
def Config.pool (cfg : Config) : List (BitVec 32) :=
  (List.range (cfg.depth - 1)).map (fun i => cfg.fqPhyAddr + BitVec.ofNat 32 i * cfg.stride)

/-! ## The walk -/

/-- The message starts in `len` bytes from `addr` on. -/
def inBlock (m : Msg) (addr : BitVec 32) (len : Nat) : Bool :=
  addr ≤ m.bufStartAddr && m.bufStartAddr ≤ addr + BitVec.ofNat 32 len - 1

/-- The message ends where the block's data end. -/
def endsBlock (m : Msg) (addr : BitVec 32) (len : Nat) : Bool :=
  addr + BitVec.ofNat 32 len ≤ m.bufStartAddr + BitVec.ofNat 32 m.msgLen

/-- `IsAddrValid`, for positions. -/
def isAddrValid (read write addr : Nat) : Bool := read < addr && addr ≤ write

/-- What the loop over the messages comes to, with the messages that are left. -/
inductive Scan
  /-- All messages are seen. -/
  | over
  /-- The block is completed by a message. -/
  | full (msgs : List Msg)
  /-- The block is on the error list. -/
  | listed (msgs : List Msg)
  /-- `ResetPoolBuf`. -/
  | reset
  deriving DecidableEq

/-- The loop over the messages, for the current block; `next` is the address of the next one, where it is valid. -/
def scan (cfg : Config) (errs : ErrList) (addr : BitVec 32) (len : Nat) (next : Option (BitVec 32)) : List Msg → Scan
  | [] => .over
  | m :: ms =>
    if inBlock m addr len then
      if endsBlock m addr len then .full ms else scan cfg errs addr len next ms
    else
      match next with
      | none => scan cfg errs addr len next ms
      | some a =>
        if inBlock m a cfg.blockSize then .full ms
        else if addr ∈ errs then .listed (m :: ms)
        else .reset

/-- The next block behind position `next`, and `u32WriteBlk`; `h` is the hardware at the reads of this round. -/
def lookAhead (errs : ErrList) (h : Nat → Hw) (read next write : Nat) : Option (BitVec 32) × Nat :=
  if isAddrValid read write next then
    let write := (h 1).closed.length
    if next = write then (some (h 0).cur.startAddr, write)
    else
      match ((h 1).closed.drop next).find? (fun b => b.startAddr ∉ errs) with
      | some b => (some b.startAddr, write)
      | none => (some (h 2).cur.startAddr, write)
  else (none, write)

/-- `*pu32ReleaseBlk`, the error list, and the blocks that are written to `pAddr`, in order. -/
structure Walk where
  releaseBlk : Nat
  errs : ErrList
  pAddr : List (BitVec 32)

/-- No block is written behind the array. -/
def Walk.Fits (cfg : Config) (w : Walk) : Prop := w.pAddr.length ≤ cfg.maxErrListNum
deriving Decidable

/-- The walk over the queue; an error where it comes to `ResetPoolBuf`. Each round moves on by a block, so that the
    number of blocks is enough rounds. -/
def walk (cfg : Config) (read : Nat) : Nat → (Nat → Hw) → Nat → List Msg → Walk → Except Walk Walk
  | 0, _, _, _, w => .ok w
  | fuel + 1, h, write, msgs, w =>
    if w.releaseBlk = write then .ok w
    else
      let cur := (h 0).closed.getD w.releaseBlk ⟨0, []⟩
      let (next, write) := lookAhead w.errs h read (w.releaseBlk + 1) write
      let moved : Walk := ⟨w.releaseBlk + 1, w.errs.erase cur.startAddr, w.pAddr ++ [cur.startAddr]⟩
      match scan cfg w.errs cur.startAddr cur.data.length next msgs with
      | .over => .ok w
      | .full [] => .ok moved
      | .full (m :: ms) => walk cfg read fuel (fun i => h (i + 3)) write (m :: ms) moved
      | .listed ms => walk cfg read fuel (fun i => h (i + 3)) write ms moved
      | .reset => .error w

/-- The check for an invalid `u32ProcsBlk` at the end. -/
def procsInvalid (releaseBlk writeBlk procsBlk : Nat) : Bool :=
  if releaseBlk < writeBlk then procsBlk < releaseBlk || procsBlk > writeBlk
  else procsBlk > writeBlk && procsBlk < releaseBlk

/-- The channel after a release of `n` blocks. `u32WriteBlk` is the write pointer of the free queue by then. -/
def checkProcs (cfg : Config) (releaseBlk n fqWrite : Nat) (c : Chan) : Chan :=
  if n ≠ 0 ∧
      procsInvalid (releaseBlk % cfg.oqDepth) ((fqWrite + n) % cfg.depth) (c.procsBlk % cfg.oqDepth) = true then
    { c with procsBlk := releaseBlk, procsOffset := 0 }
  else c

/-! ## Runs -/

/-- The hardware, the channel, the read pointer of the queue, and the messages that the caller has. -/
structure Sys where
  hw : Hw
  chan : Chan
  read : Nat
  held : List Msg

/-- The blocks in use, the current one last. -/
def inUse (read : Nat) (h : Hw) : List Block := (h.closed ++ if h.valid then [h.cur] else []).drop read

/-- What the hardware can do. -/
def can (cfg : Config) (read : Nat) (h : Hw) : HwEvent → Prop
  | .take a => a ∈ cfg.pool ∧ a ∉ (inUse read h).map Block.startAddr
  | .append sec => h.cur.data.length + sec.length ≤ cfg.blockSize
  | .close => h.cur.data ≠ [] ∧ h.closed.length + 1 - read < cfg.oqDepth

instance (cfg : Config) (read : Nat) (h : Hw) : (e : HwEvent) → Decidable (can cfg read h e)
  | .take _ => inferInstanceAs (Decidable (_ ∧ _))
  | .append _ => inferInstanceAs (Decidable (_ ≤ _))
  | .close => inferInstanceAs (Decidable (_ ∧ _))

/-- What it does of some events. -/
def hwRun (cfg : Config) (read : Nat) (h : Hw) (es : List HwEvent) : Hw :=
  es.foldl (fun h e => if can cfg read h e then h.next e else h) h

/-- The hardware at the read `i` of a call. -/
def readAt (cfg : Config) (read : Nat) (h : Hw) (between : List (List HwEvent)) (i : Nat) : Hw :=
  hwRun cfg read h (between.take (i + 1)).flatten

inductive Input
  | hw (e : HwEvent)
  /-- Other channels change the error list. -/
  | others (errs : ErrList)
  /-- `DMX_OsiReadDataRequset`. -/
  | read (acqNum : Nat) (between : List (List HwEvent))
  /-- `DMX_OsiReleaseReadData` for the first `relNum` messages; `fqWrite` is the write pointer of the free queue when
      it gives back the blocks. -/
  | release (relNum fqWrite : Nat) (between : List (List HwEvent))

inductive Event
  | acquired (msgs : List Msg)
  /-- The blocks that were given back, and the messages that the caller keeps. -/
  | released (pAddr : List (BitVec 32)) (held : List Msg)
  | resetPool
  /-- A block was written behind `pAddr`. -/
  | overrun
  deriving DecidableEq

/-- The queue after `DmxOqStart`. -/
def start (errs : ErrList) : Sys := ⟨⟨[], false, ⟨0, []⟩⟩, ⟨0, 0, errs⟩, 0, []⟩

def step (cfg : Config) (s : Sys) : Input → Option (Sys × List Event)
  | .hw e => some ({ s with hw := hwRun cfg s.read s.hw [e] }, [])
  | .others errs =>
    if errs.Nodup ∧ ∀ b ∈ inUse s.read s.hw, b.startAddr ∈ errs ↔ b.startAddr ∈ s.chan.errs then
      some ({ s with chan := { s.chan with errs := errs } }, [])
    else none
  | .read acqNum between =>
    if acqNum = 0 then some (s, [.acquired []])
    else
      let (chan, msgs) := readSec cfg.toConfig acqNum (readAt cfg s.read s.hw between) s.chan
      some ({ s with hw := hwRun cfg s.read s.hw between.flatten, chan := chan, held := s.held ++ msgs },
        [.acquired msgs])
  | .release relNum fqWrite between =>
    let h := readAt cfg s.read s.hw between
    let hw := hwRun cfg s.read s.hw between.flatten
    match walk cfg s.read hw.closed.length (fun i => h (i + 1)) (h 0).closed.length (s.held.take relNum)
        ⟨s.read, s.chan.errs, []⟩ with
    | .ok w =>
      if w.Fits cfg then
        let chan := checkProcs cfg w.releaseBlk w.pAddr.length fqWrite { s.chan with errs := w.errs }
        let held := s.held.drop relNum
        some (⟨hw, chan, w.releaseBlk, held⟩, [.released w.pAddr held])
      else some ({ s with hw := hw }, [.overrun])
    | .error w => if w.Fits cfg then some (start w.errs, [.resetPool]) else some ({ s with hw := hw }, [.overrun])

/-- A channel that was just opened. -/
def init : Sys := start []

end HiSTB.Demux.Release
