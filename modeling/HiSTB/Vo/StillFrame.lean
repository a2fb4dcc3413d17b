import HiSTB.Lib.Run
import HiSTB.Lib.Holdings
import Mathlib.Logic.Function.Basic

/-!
# `Vo.StillFrame` — still frames and the thread that releases them (`drv_window.c`)

`WIN_SendFrame` copies a frame into a buffer of its own. When the frame is no longer needed, the interrupt cannot
release the buffer, so `WIN_DestroyStillFrame` puts the address of the frame's record into a table of requests, and a
thread goes through the table.

* `winBufferPutULSFrame`, `winBufferGetULSFrame` — the ring of frames that are no longer needed;
* `step` — the calls, the parts of the interrupt's handler, and the parts of the thread, in any order; the events are
  the buffers that are allocated and released.

A record is what is at its address: the handler's record is on its stack, and when the handler is done, or takes the
next frame, something else is there. `pool` are the still frames in the buffers of the windows. The code of these
buffers is not in the repository: whether `WinQueueFrame` takes a frame is an answer, and so is when they let it go. The
thread waits for an event or for a second, so its wait may end at any time. Every window has a ring of its own in the
source; here one ring serves all windows, and an interrupt goes through it. Left out: what is shown, and the end of the
thread.
-/

namespace HiSTB.Vo.StillFrame

open Lib.Holdings

/-- A physical address. -/
abbrev Addr := BitVec 32

/-- Where a record is. -/
abbrev Ptr := Nat

/-- `WIN_USELESS_FRAME_MAX_NUMBER`. -/
abbrev uselessFrameMaxNumber : Nat := 16

/-- `MAX_RELEASE_NO`. -/
abbrev maxReleaseNo : Nat := 16

/-- `HI_DRV_VIDEO_FRAME_S`, as far as its buffer is concerned. -/
structure Frame where
  bStillFrame : Bool
  u32CompressFlag : Bool
  phyAddrYHead : Addr
  phyAddrY : Addr
  deriving DecidableEq

/-- The frame that `WIN_CreatStillFrame` makes, with a buffer from `start` on. -/
def Frame.creatStillFrame (f : Frame) (start : Addr) : Frame :=
  { f with
    bStillFrame := true
    phyAddrYHead := start + (f.phyAddrYHead - f.phyAddrY)
    phyAddrY := start + (f.phyAddrY - f.phyAddrY) }

/-- What `WinReleaseStillFrame` takes for the start of the buffer. -/
def Frame.startPhyAddr (f : Frame) : Addr := if f.u32CompressFlag then f.phyAddrYHead else f.phyAddrY

/-! ## The ring -/

/-- `WIN_BUFFER_S`. -/
structure Buffer where
  stUselessFrame : Nat → Frame
  u32ULSRdPtr : Nat
  u32ULSWtPtr : Nat

/-- `WinBufferPutULSFrame`; `none` where it is full. -/
def winBufferPutULSFrame (b : Buffer) (frame : Frame) : Option Buffer :=
  let wp1 := (b.u32ULSWtPtr + 1) % uselessFrameMaxNumber
  if wp1 = b.u32ULSRdPtr then none
  else some { b with stUselessFrame := Function.update b.stUselessFrame b.u32ULSWtPtr frame, u32ULSWtPtr := wp1 }

/-- `WinBufferGetULSFrame`; `none` where it is empty. -/
def winBufferGetULSFrame (b : Buffer) : Option (Frame × Buffer) :=
  if b.u32ULSWtPtr = b.u32ULSRdPtr then none
  else some (b.stUselessFrame b.u32ULSRdPtr, { b with u32ULSRdPtr := (b.u32ULSRdPtr + 1) % uselessFrameMaxNumber })

/-! ## The threads -/

/-- Where the interrupt is: `get` at `WinBufferGetULSFrame` of `ISR_WinReleaseUSLFrame`, whose `stRlsFrm` is at `p`, or
    `destroy` at the `i`-th request in `WIN_DestroyStillFrame`, called from there (`usl`) or from the buffers of a
    window. -/
inductive Handler
  | idle
  | get (p : Ptr)
  | destroy (usl : Bool) (p : Ptr) (i : Nat)
  deriving DecidableEq

/-- Where `WinReleaseFrameThreadProcess` is: at the `i`-th request, between its release and the clearing of its node, or
    waiting. -/
inductive Pc
  | scan (i : Nat)
  | clear (i : Nat)
  | wait
  deriving DecidableEq

structure State where
  pool : List Frame
  buffer : Buffer
  handler : Handler
  mem : Ptr → Frame
  pstNeedRelFrmNode : Nat → Option Ptr
  thread : Pc

inductive Input
  /-- `WIN_SendFrame`, with what `DISP_OS_MMZ_Alloc`, `DISP_OS_MMZ_Map` (twice) and `WinQueueFrame` answer. -/
  | send (frame : Frame) (alloc : Option Addr) (mapStill mapFrame queued : Bool)
  /-- `WIN_QueueUselessFrame`, with a still frame of `pool` or another frame. -/
  | useless (frame : Frame)
  /-- `ISR_WinReleaseUSLFrame` begins. -/
  | interrupt (p : Ptr)
  /-- The buffers of a window let a still frame go, whose record is at `p`. -/
  | destroyStill (frame : Frame) (p : Ptr)
  /-- The interrupt goes on. -/
  | handler
  /-- Something else is written to a record. -/
  | other (p : Ptr) (frame : Frame)
  /-- The thread goes on. -/
  | thread
  deriving DecidableEq

/-- Where the record of the interrupt is. -/
def Handler.record : Handler → Option Ptr
  | .idle => none
  | .get p => some p
  | .destroy _ p _ => some p

namespace State

variable (s : State)

/-- `WIN_SendFrame`. -/
def send (frame : Frame) (alloc : Option Addr) (mapStill mapFrame queued : Bool) : State × List (Event Addr) :=
  match alloc with
  | none => (s, [])
  | some start =>
    if mapStill = true ∧ mapFrame = true then
      if queued then ({ s with pool := frame.creatStillFrame start :: s.pool }, [.create start])
      -- the return value goes to the caller, and the buffer to nobody
      else (s, [.create start])
    else (s, [.create start, .destroy start])

/-- `WIN_QueueUselessFrame`: the caller keeps the frame where the ring is full. -/
def useless (frame : Frame) : State :=
  match winBufferPutULSFrame s.buffer frame with
  | none => s
  | some b => { s with buffer := b, pool := if frame.bStillFrame then s.pool.erase frame else s.pool }

/-- The next part of the interrupt. -/
def handle : Option State :=
  match s.handler with
  | .idle => none
  | .get p =>
    match winBufferGetULSFrame s.buffer with
    | none => some { s with handler := .idle }
    | some (frame, b) =>
      some { s with
        buffer := b
        mem := Function.update s.mem p frame
        handler := if frame.bStillFrame then .destroy true p 0 else .get p }
  | .destroy usl p i =>
    let back := if usl then .get p else .idle
    if i < maxReleaseNo then
      if s.pstNeedRelFrmNode i = none then
        some { s with pstNeedRelFrmNode := Function.update s.pstNeedRelFrmNode i (some p), handler := back }
      else some { s with handler := .destroy usl p (i + 1) }
    -- the buffer is full, and what `WIN_DestroyStillFrame` returns is not looked at
    else some { s with handler := back }

/-- The next part of the thread. -/
def release : State × List (Event Addr) :=
  match s.thread with
  | .scan i =>
    if i < maxReleaseNo then
      match s.pstNeedRelFrmNode i with
      | none => ({ s with thread := .scan (i + 1) }, [])
      | some p =>
        if (s.mem p).bStillFrame then ({ s with thread := .clear i }, [.destroy (s.mem p).startPhyAddr])
        else ({ s with thread := .scan (i + 1) }, [])
    else ({ s with thread := .wait }, [])
  | .clear i =>
    ({ s with pstNeedRelFrmNode := Function.update s.pstNeedRelFrmNode i none, thread := .scan (i + 1) }, [])
  | .wait => ({ s with thread := .scan 0 }, [])

end State

/-- **The system.** -/
def step (s : State) : Input → Option (State × List (Event Addr))
  | .send frame alloc mapStill mapFrame queued => some (s.send frame alloc mapStill mapFrame queued)
  | .useless frame => if frame.bStillFrame = true → frame ∈ s.pool then some (s.useless frame, []) else none
  | .interrupt p => if s.handler = .idle then some ({ s with handler := .get p }, []) else none
  | .destroyStill frame p =>
    if s.handler = .idle ∧ frame ∈ s.pool then
      some ({ s with
        pool := s.pool.erase frame
        mem := Function.update s.mem p frame
        handler := .destroy false p 0 }, [])
    else none
  | .handler => s.handle.map (fun t => (t, []))
  | .other p frame => if s.handler.record = some p then none
    else some ({ s with mem := Function.update s.mem p frame }, [])
  | .thread => some s.release

/-- `WIN_Init`. -/
def start : State where
  pool := []
  buffer := ⟨fun _ => ⟨false, false, 0, 0⟩, 0, 0⟩
  handler := .idle
  mem := fun _ => ⟨false, false, 0, 0⟩
  pstNeedRelFrmNode := fun _ => none
  thread := .scan 0

end HiSTB.Vo.StillFrame
