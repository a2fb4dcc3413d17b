import HiSTB.Demux.RamPort

/-!
# `Demux.RamHw` — a RAM port and the hardware that reads it (`drv_demux_func.c`)

The hardware takes the descriptors of a RAM port in the order in which `DMX_OsiTsBufferPut` publishes them, and the
descriptor register (`DmxHalIPPortDescGetRead`) says which one it is at. It raises an interrupt when it likes, where it
has finished a descriptor since the last one; the handler of `Demux.RamPort` looks at the register, clears the status
and goes on.

The descriptors that were ever published are a list, and the hardware's place in it is a count. Each of the
hardware's steps is one here, and so is each of the producer's and the handler's as in `Demux.RamPort`. The status
bit is cleared when the handler goes on to `WaitLen`: nothing that the two share is in between.
-/

namespace HiSTB.Demux.RamHw

open RamPort

/-- The address and the length of a descriptor. -/
abbrev Desc := BitVec 32 × BitVec 32

/-- A port as `DMX_OsiTsBufferCreate` makes it, in one block of memory with its descriptors of 16 bytes.
    `DMX_TS_BUFFER_GAP` keeps the two ends of the data apart. -/
structure Plan where
  cfg : RamPort.Config
  phyAddr : BitVec 32
  bufSize : BitVec 32
  descDepth : BitVec 32
  gap_pos : 0 < cfg.tsBufferGap
  phyAddr_pos : 0 < phyAddr
  descDepth_pos : 0 < descDepth
  block : phyAddr.toNat + bufSize.toNat + (descDepth.toNat + 1) * 16 ≤ 0x100000000

/-- The driver and the hardware. `base` is not in the source: it is the number of descriptors that were published when
    the handler last set `Read` and `Write` to 0. -/
structure Sys where
  drv : RamPort.Sys
  published : List Desc
  /-- How many of them the hardware has finished. -/
  finished : Nat
  /-- How many it had at the last interrupt. -/
  raised : Nat
  /-- `DmxHalIPPortGetOutIntStatus`. -/
  pending : Bool
  base : Nat

/-- What happens next. -/
inductive Input
  /-- The producer calls `DMX_OsiTsBufferGet`. -/
  | get (reqLen timeout : BitVec 32)
  /-- The producer calls `DMX_OsiTsBufferPut`. -/
  | put (dataLen startPos : BitVec 32)
  /-- The producer goes on; whether its sleep ends by itself. -/
  | prod (timedOut : Bool)
  /-- The handler begins, or goes on. -/
  | irq
  /-- The hardware finishes a descriptor. -/
  | finish
  /-- The hardware raises an interrupt. -/
  | raise
  deriving DecidableEq

/-- `DmxHalIPPortDescGetRead`. -/
def Sys.descRead (s : Sys) : BitVec 32 := BitVec.ofNat 32 (s.finished % s.drv.port.descDepth.toNat)

variable (cfg : RamPort.Config)

/-- What the producer publishes in its next step. -/
def publishes : Prod → List Desc
  | .putDesc addr len _ _ _ => [(addr, pieceLen cfg len)]
  | _ => []

/-- The handler sets `Read` and `Write` to 0. -/
def Sys.resets (s : Sys) : Bool :=
  s.drv.isr = .idle && s.drv.port.write ≠ 0 && (s.drv.port.isrRead s.descRead).write = 0

def irqNext (s : Sys) : Sys :=
  { s with
    drv := RamPort.irqNext cfg s.drv s.descRead
    pending := if s.drv.isr = .check then false else s.pending
    base := if s.resets then s.published.length else s.base }

/-- One step. -/
def step (s : Sys) : Input → Option (Sys × List Event)
  | .get r t => (RamPort.step cfg s.drv (.get r t)).map (fun u => ({ s with drv := u.1 }, u.2))
  | .put d st => (RamPort.step cfg s.drv (.put d st)).map (fun u => ({ s with drv := u.1 }, u.2))
  | .prod timedOut =>
    (RamPort.step cfg s.drv (.prod s.descRead timedOut)).map (fun u =>
      ({ s with drv := u.1, published := s.published ++ publishes cfg s.drv.prod }, u.2))
  | .irq => if s.drv.isr = .idle ∧ s.pending = false then none else some (irqNext cfg s, [])
  | .finish => if s.finished < s.published.length then some ({ s with finished := s.finished + 1 }, []) else none
  | .raise => if s.raised < s.finished then some ({ s with raised := s.finished, pending := true }, []) else none

/-- A port that was just created. -/
def init (plan : Plan) : Sys := ⟨RamPort.init plan.phyAddr plan.bufSize plan.descDepth, [], 0, 0, false, 0⟩

end HiSTB.Demux.RamHw
