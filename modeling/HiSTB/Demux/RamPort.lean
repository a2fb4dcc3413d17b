import HiSTB.Lib.Run
import Mathlib.Logic.Function.Basic

/-!
# `Demux.RamPort` — the TS buffer of a RAM port (`drv_demux_func.c`)

A producer asks for a piece of the buffer (`DMX_OsiTsBufferGet`), fills it, and hands it to the demultiplexer
(`DMX_OsiTsBufferPut`), which reads it by descriptors of limited size. A grant lives in `ReqAddr` and `ReqLen` of
the port. When there is no room, the producer leaves its request in `WaitLen` and sleeps; the interrupt handler
(`DMXOsiIsr`) computes the grant for it and wakes it up.

There is one producer. Its calls and the handler run interleaved: a section under `LockRamPort` is one step, and
outside of it every access to what both use is one. The register with the descriptor that is being read
(`DmxHalIPPortDescGetRead`) and the end of the sleep are inputs.
`DMX_MAX_IP_BLOCK_SIZE` and `DMX_TS_BUFFER_GAP`, which the repository does not define, are parameters.

Left out: the counters, the kernel addresses, and the saving of the stream.
-/

namespace HiSTB.Demux.RamPort

open Lib

/-- The constants. -/
structure Config where
  maxIpBlockSize : BitVec 32
  tsBufferGap : BitVec 32
  pos : 0 < maxIpBlockSize

/-- `DMX_RamPort_Info_S`. `desc` has the address and the length of each descriptor, `descCurr` is `DescCurrAddr`
    as an index. -/
structure Port where
  phyAddr : BitVec 32
  bufSize : BitVec 32
  read : BitVec 32
  write : BitVec 32
  reqAddr : BitVec 32
  reqLen : BitVec 32
  waitLen : BitVec 32
  wakeUp : Bool
  descDepth : BitVec 32
  descWrite : BitVec 32
  descCurr : Nat
  desc : Nat → BitVec 32 × BitVec 32

inductive Ret
  | success
  | invalidPara
  | noAvailableBuf
  | timeout
  deriving DecidableEq

/-- What a `DMX_OsiTsBufferGet` returned: address and length. -/
abbrev Grant := BitVec 32 × BitVec 32

/-- Where the producer is. -/
inductive Prod
  /-- Between calls. -/
  | ready
  /-- `CheckIPBuf`, before it reads the descriptor register. -/
  | getDesc (reqLen timeout : BitVec 32)
  /-- `CheckIPBuf`, before `LockRamPort`. -/
  | getLock (reqLen timeout : BitVec 32)
  /-- `CheckIPBuf`, behind `LockRamPort`. -/
  | getTest (reqLen timeout : BitVec 32)
  /-- `DMX_OsiTsBufferGet`, before it clears `WakeUp`. -/
  | getBusy (reqLen : BitVec 32)
  /-- Before it sets `WaitLen`. -/
  | getArm (reqLen : BitVec 32)
  /-- Asleep. -/
  | getWait (reqLen : BitVec 32)
  /-- Awake, before it reads `ReqAddr`. -/
  | getWoken (reqLen : BitVec 32)
  /-- Before it fills in the result. -/
  | getRead (reqLen : BitVec 32)
  /-- `DMX_OsiTsBufferPut`, before it looks whether `ReqLen` is 0. -/
  | putZero (dataLen startPos : BitVec 32)
  /-- Before it compares `ReqLen`. -/
  | putBound (dataLen startPos : BitVec 32)
  /-- Before `LockRamPort`. -/
  | putLock (dataLen startPos : BitVec 32)
  /-- In its loop: `BufferAddr` and `BufferLen`, and the descriptors published so far. -/
  | putDesc (bufferAddr bufferLen dataLen startPos : BitVec 32) (descs : List (BitVec 32 × BitVec 32))
  deriving DecidableEq

/-- Where the interrupt handler is. -/
inductive Isr
  | idle
  /-- Before it reads `WaitLen`. -/
  | check
  /-- Before it reads `WaitLen` again, as the argument of `CheckIPBuf`. -/
  | arg
  /-- `CheckIPBuf`, before `LockRamPort`. -/
  | lock (len : BitVec 32)
  /-- `CheckIPBuf`, behind `LockRamPort`. -/
  | test (len : BitVec 32)
  /-- Before it sets `WakeUp`. -/
  | wake (len : BitVec 32)
  /-- Before it clears `WaitLen`. -/
  | clear
  deriving DecidableEq

inductive Event
  /-- `DMX_OsiTsBufferGet` returned; with the grant where it succeeded. -/
  | getRet (ret : Ret) (g : Option Grant)
  /-- `DMX_OsiTsBufferPut` returned, after it published `descs`; `g` is the grant it came after. -/
  | putRet (ret : Ret) (dataLen startPos : BitVec 32) (g : Option Grant) (descs : List (BitVec 32 × BitVec 32))
  deriving DecidableEq

/-- The port, the producer and the handler. `grant` is not in the source: it is the grant of the last get that
    succeeded, until a put publishes data. -/
structure Sys where
  port : Port
  prod : Prod
  isr : Isr
  grant : Option Grant

/-- What happens next. -/
inductive Input
  /-- The producer calls `DMX_OsiTsBufferGet`. -/
  | get (reqLen timeout : BitVec 32)
  /-- The producer calls `DMX_OsiTsBufferPut`. -/
  | put (dataLen startPos : BitVec 32)
  /-- The producer goes on; the descriptor register, and whether the sleep ends by itself. -/
  | prod (descRead : BitVec 32) (timedOut : Bool)
  /-- The interrupt comes, or its handler goes on. -/
  | irq (descRead : BitVec 32)
  deriving DecidableEq

/-- `GetQueueLenth`. -/
def getQueueLenth (read write size : BitVec 32) : BitVec 32 :=
  if read > write then size + write - read else write - read

namespace Port

variable (cfg : Config)

/-- `GetIPBufLen`. -/
def getIPBufLen (p : Port) (reqLen : BitVec 32) : Port :=
  let gap := cfg.tsBufferGap
  let addr : BitVec 32 :=
    if p.read < p.write then
      let head := p.read
      let tail := p.bufSize - p.write
      let head := if head ≤ gap then 0 else head - gap
      let tail := if tail ≤ gap then 0 else tail - gap
      if tail ≥ reqLen then p.phyAddr + p.write
      else if head ≥ reqLen then p.phyAddr
      else 0
    else if p.read > p.write then
      let head := p.read - p.write
      if head > gap then
        let head := head - gap
        if head ≥ reqLen then p.phyAddr + p.write else 0
      else 0
    else if p.read = 0 then p.phyAddr
    else 0
  { p with reqAddr := addr, reqLen := if addr ≠ 0 then reqLen else 0 }

/-- `CheckIPBuf`, its first half: too few descriptors are free. -/
def noFreeDesc (p : Port) (reqLen descRead : BitVec 32) : Bool :=
  let addDesc := reqLen / cfg.maxIpBlockSize + 2
  let freeDesc := p.descDepth - getQueueLenth descRead p.descWrite p.descDepth
  addDesc ≥ freeDesc

/-- The descriptor of one round of the loop of `DMX_OsiTsBufferPut`. -/
def descAdd (p : Port) (addr len : BitVec 32) : Port :=
  let p := { p with
    desc := Function.update p.desc p.descCurr (addr, len)
    descCurr := p.descCurr + 1
    descWrite := p.descWrite + 1 }
  if p.descWrite ≥ p.descDepth then { p with descWrite := 0, descCurr := 0 } else p

/-- The section of `DMXOsiIsr` under `LockRamPort`. -/
def isrRead (p : Port) (descRead : BitVec 32) : Port :=
  if p.write ≠ 0 then
    let descRead := if descRead = 0 then p.descDepth - 1 else descRead - 1
    let read := (p.desc descRead.toNat).1 - p.phyAddr
    if read = p.write then { p with read := 0, write := 0 } else { p with read := read }
  else p

end Port

variable (cfg : Config)

/-- `DMX_OsiTsBufferGet`, where there is no room. -/
def busy (s : Sys) (reqLen timeout : BitVec 32) : Sys × List Event :=
  if timeout = 0 then ({ s with prod := .ready }, [.getRet .noAvailableBuf none])
  else ({ s with prod := .getBusy reqLen }, [])

/-- The size of the next piece, in the loop of `DMX_OsiTsBufferPut`. -/
def pieceLen (bufferLen : BitVec 32) : BitVec 32 :=
  if bufferLen ≥ cfg.maxIpBlockSize then cfg.maxIpBlockSize else bufferLen

/-- One round of the loop. The last round, which leaves the loop, is the one with no bytes left. -/
def putRound (s : Sys) (addr bufferLen dataLen startPos : BitVec 32) (descs : List (BitVec 32 × BitVec 32)) :
    Sys × List Event :=
  let len := pieceLen cfg bufferLen
  let s := { s with port := s.port.descAdd addr len }
  let descs := descs ++ [(addr, len)]
  if len = 0 then
    ({ s with prod := .ready, grant := none }, [.putRet .success dataLen startPos s.grant descs])
  else ({ s with prod := .putDesc (addr + len) (bufferLen - len) dataLen startPos descs }, [])

/-- The producer goes on. -/
def prodNext (s : Sys) (descRead : BitVec 32) (timedOut : Bool) : Option (Sys × List Event) :=
  match s.prod with
  | .ready => none
  | .getDesc r t =>
    if s.port.noFreeDesc cfg r descRead then some (busy s r t) else some ({ s with prod := .getLock r t }, [])
  | .getLock r t => some ({ s with port := s.port.getIPBufLen cfg r, prod := .getTest r t }, [])
  | .getTest r t => if s.port.reqAddr = 0 then some (busy s r t) else some ({ s with prod := .getRead r }, [])
  | .getBusy r => some ({ s with port := { s.port with wakeUp := false }, prod := .getArm r }, [])
  | .getArm r => some ({ s with port := { s.port with waitLen := r }, prod := .getWait r }, [])
  | .getWait r =>
    -- the sleep goes on until the handler sets WakeUp or the time is over
    if s.port.wakeUp then some ({ s with prod := .getWoken r }, [])
    else if timedOut then some ({ s with prod := .ready }, [.getRet .timeout none])
    else none
  | .getWoken r =>
    if s.port.reqAddr = 0 then some ({ s with prod := .ready }, [.getRet .timeout none])
    else some ({ s with prod := .getRead r }, [])
  | .getRead r =>
    let g := (s.port.reqAddr, r)
    some ({ s with prod := .ready, grant := some g }, [.getRet .success (some g)])
  | .putZero d st =>
    if s.port.reqLen = 0 ∨ d = 0 then some ({ s with prod := .ready }, [.putRet .success d st s.grant []])
    else some ({ s with prod := .putBound d st }, [])
  | .putBound d st =>
    if s.port.reqLen < st + d then some ({ s with prod := .ready }, [.putRet .invalidPara d st s.grant []])
    else some ({ s with prod := .putLock d st }, [])
  | .putLock d st =>
    let offset := s.port.reqAddr - s.port.phyAddr
    let addr := s.port.reqAddr + st
    some ({ s with
      port := { s.port with write := offset + d + st, reqLen := 0, reqAddr := 0 }
      prod := .putDesc addr d d st [] }, [])
  | .putDesc addr len d st descs => some (putRound cfg s addr len d st descs)

/-- `DMX_OsiTsBufferGet`, up to `CheckIPBuf`. -/
def getBegin (s : Sys) (reqLen timeout : BitVec 32) : Sys × List Event :=
  if s.port.phyAddr = 0 ∨ reqLen = 0 ∨ reqLen > s.port.bufSize then (s, [.getRet .invalidPara none])
  else ({ s with prod := .getDesc reqLen timeout }, [])

/-- `DMX_OsiTsBufferPut`, its first check. -/
def putBegin (s : Sys) (dataLen startPos : BitVec 32) : Sys × List Event :=
  if s.port.phyAddr = 0 then (s, [.putRet .invalidPara dataLen startPos s.grant []])
  else ({ s with prod := .putZero dataLen startPos }, [])

/-- The interrupt handler goes on. -/
def irqNext (s : Sys) (descRead : BitVec 32) : Sys :=
  match s.isr with
  | .idle => { s with port := s.port.isrRead descRead, isr := .check }
  | .check => if s.port.waitLen = 0 then { s with isr := .idle } else { s with isr := .arg }
  | .arg =>
    if s.port.noFreeDesc cfg s.port.waitLen descRead then { s with isr := .idle }
    else { s with isr := .lock s.port.waitLen }
  | .lock len => { s with port := s.port.getIPBufLen cfg len, isr := .test len }
  | .test len => if s.port.reqAddr = 0 then { s with isr := .idle } else { s with isr := .wake len }
  | .wake _ => { s with port := { s.port with wakeUp := true }, isr := .clear }
  | .clear => { s with port := { s.port with waitLen := 0 }, isr := .idle }

/-- One step. -/
def step (s : Sys) : Input → Option (Sys × List Event)
  | .get r t => if s.prod = .ready then some (getBegin s r t) else none
  | .put d st => if s.prod = .ready then some (putBegin s d st) else none
  | .prod descRead timedOut => prodNext cfg s descRead timedOut
  | .irq descRead => some (irqNext cfg s descRead, [])

/-- A port with an empty buffer. -/
def init (phyAddr bufSize descDepth : BitVec 32) : Sys where
  port :=
    { phyAddr := phyAddr, bufSize := bufSize, read := 0, write := 0, reqAddr := 0, reqLen := 0, waitLen := 0
      wakeUp := false, descDepth := descDepth, descWrite := 0, descCurr := 0, desc := fun _ => (0, 0) }
  prod := .ready
  isr := .idle
  grant := none

end HiSTB.Demux.RamPort
