import HiSTB.Demux.Release
import HiSTB.Demux.Pes

/-!
# `Demux.DataFlag` — asking a channel for data without taking them (`drv_demux_func.c`)

A caller that selects over channels asks `DMX_OsiGetChnDataFlag` whether a channel has data, and one that wants to see
the next packet asks `DMX_OsiPeekDataRequest`. For a section or post channel the flag compares pointers, and the peek
runs `DMXOsiReadSec` on copies of the channel's record and of the queue's; the error list is not copied. For a PES
channel both run `DMXOsiFindPes` on a copy of the channel's record; the queue is not copied, and where the search meets
a block with DROP, it gives blocks back and the channel's record is set to 0.

A channel is that of `Demux.Release` or that of `Demux.Pes`, and the caller gives back what messages it likes. The
hardware does nothing during a question; during the other calls it goes on as it does there. The pointers of the
queue are compared modulo its depth, as the registers have them.

Left out: the channels that the questions turn down (audio, video, and those not open for playing), and what no one
reads again (the counters, and `u32ProcsBlk` of a PES channel's queue).
-/

namespace HiSTB.Demux.DataFlag

open Section

structure Config where
  sec : Release.Config
  /-- `DMX_PES_MAX_SIZE`. -/
  pesMaxSize : Nat
  pesMaxSize_pos : 0 < pesMaxSize

/-! ## Section and post channels -/

/-- The hardware, the channel, and the read pointer of the queue. -/
structure SecChan where
  hw : Hw
  chan : Chan
  read : Nat

inductive SecCall
  | hw (e : HwEvent)
  /-- Other channels change the error list. -/
  | others (errs : ErrList)
  /-- `DMX_OsiReadDataRequset`. -/
  | read (acqNum : Nat) (between : List (List HwEvent))
  /-- `DMX_OsiReleaseReadData`. -/
  | release (msgs : List Msg) (fqWrite : Nat) (between : List (List HwEvent))

namespace SecChan

variable (cfg : Release.Config)

/-- The call, in `Demux.Release`: the messages that the caller has there are those that it gives back. -/
def call (s : SecChan) (c : SecCall) : Option (SecChan × List Release.Event) :=
  let step (held : List Msg) (i : Release.Input) :=
    (Release.step cfg ⟨s.hw, s.chan, s.read, held⟩ i).map (fun r => (⟨r.1.hw, r.1.chan, r.1.read⟩, r.2))
  match c with
  | .hw e => step [] (.hw e)
  | .others errs => step [] (.others errs)
  | .read acqNum between => step [] (.read acqNum between)
  | .release msgs fqWrite between => step msgs (.release msgs.length fqWrite between)

/-- `DMX_OsiGetChnDataFlag`. -/
def getChnDataFlag (s : SecChan) : Bool :=
  let oqRead := s.read % cfg.oqDepth
  let oqWrite := s.hw.closed.length % cfg.oqDepth
  let curProcsBlk := s.chan.procsBlk % cfg.oqDepth
  let lastEopAddr := getCurEopaddr s.hw s.hw
  let inQueue :=
    if oqRead ≠ oqWrite ∧ oqWrite ≠ curProcsBlk then
      if oqWrite = (curProcsBlk + 1) % cfg.oqDepth then
        s.chan.procsOffset < (s.hw.closed.getD s.chan.procsBlk ⟨0, []⟩).data.length || lastEopAddr ≠ 0
      else true
    else false
  inQueue || (lastEopAddr ≠ s.chan.procsOffset && lastEopAddr ≠ 0)

/-- `DMX_OsiReadDataRequset` without a time to wait. -/
def readDataRequset (acqNum : Nat) (s : SecChan) : Chan × List Msg :=
  readSec cfg.toConfig acqNum (fun _ => s.hw) s.chan

/-- `DMX_OsiPeekDataRequest`; the messages are none where it returns an error. -/
def peekDataRequest (s : SecChan) : SecChan × List Msg :=
  if s.getChnDataFlag cfg then
    let r := s.readDataRequset cfg 1
    -- of the copies, only what was done to the error list stays
    ({ s with chan := { s.chan with errs := r.1.errs } }, r.2)
  else (s, [])

end SecChan

/-! ## PES channels -/

/-- The blocks of the queue, and the channel. -/
structure PesChan where
  oq : List Pes.Desc
  chan : Pes.Chan

inductive PesCall
  /-- The hardware appends a block. -/
  | arrive (d : Pes.Desc)
  /-- `DMX_OsiReadDataRequset`. -/
  | acquire
  /-- `DMX_OsiReleaseReadData`. -/
  | release (msgs : List Pes.Msg)

inductive PesEvent
  | acquired (msgs : Option (List Pes.Msg))
  | released (ok : Bool)
  deriving DecidableEq

namespace PesChan

variable (maxSize : Nat)

/-- `DMX_OsiReadDataRequset` without a time to wait: `DMXOsiFindPes` on the channel. -/
def readDataRequset (s : PesChan) : PesChan × Option (List Pes.Msg) :=
  let r := Pes.findPes maxSize maxSize s.oq s.chan
  (⟨s.oq.drop r.released, r.chan⟩, r.ret)

def call (s : PesChan) : PesCall → PesChan × List PesEvent
  | .arrive d => ({ s with oq := s.oq ++ [d] }, [])
  | .acquire =>
    let r := s.readDataRequset maxSize
    (r.1, [.acquired r.2])
  | .release msgs =>
    match Pes.releaseReadData msgs s.oq with
    | some n => ({ s with oq := s.oq.drop n }, [.released true])
    | none => (s, [.released false])

/-- `DMXOsiFindPes` for 16 messages on a copy of the channel, and what is done where a drop occurs. -/
def search (s : PesChan) : PesChan × Option (List Pes.Msg) :=
  let r := Pes.findPes maxSize 16 s.oq s.chan
  (⟨s.oq.drop r.released, if r.released ≠ 0 then .zero else s.chan⟩, r.ret)

/-- `DMX_OsiGetChnDataFlag`, with `GetPesChnFlag`. -/
def getChnDataFlag (s : PesChan) : PesChan × Bool :=
  if s.oq = [] then (s, false)
  else
    let r := s.search maxSize
    (r.1, r.2.isSome)

/-- `DMX_OsiPeekDataRequest`. -/
def peekDataRequest (s : PesChan) : PesChan × Option (List Pes.Msg) :=
  let r := s.getChnDataFlag maxSize
  if r.2 then r.1.search maxSize else (r.1, none)

end PesChan

/-! ## Runs -/

inductive Sys
  | sec (s : SecChan)
  | pes (s : PesChan)

inductive Call
  | sec (c : SecCall)
  | pes (c : PesCall)

/-- What a call shows. -/
inductive Shown
  | sec (e : Release.Event)
  | pes (e : PesEvent)
  deriving DecidableEq

inductive Input
  | call (c : Call)
  /-- `DMX_OsiGetChnDataFlag`. -/
  | flag
  /-- `DMX_OsiPeekDataRequest`. -/
  | peek

inductive Event
  | call (e : Shown)
  | flag (ready : Bool)
  | peeked (found : Bool)
  deriving DecidableEq

variable (cfg : Config)

/-- A call on the channel; none is for a channel of the other type. -/
def call : Sys → Call → Option (Sys × List Shown)
  | .sec s, .sec c => (s.call cfg.sec c).map (fun r => (.sec r.1, r.2.map .sec))
  | .pes s, .pes c =>
    let r := s.call cfg.pesMaxSize c
    some (.pes r.1, r.2.map .pes)
  | _, _ => none

def getChnDataFlag : Sys → Sys × Bool
  | .sec s => (.sec s, s.getChnDataFlag cfg.sec)
  | .pes s =>
    let r := s.getChnDataFlag cfg.pesMaxSize
    (.pes r.1, r.2)

def peekDataRequest : Sys → Sys × Bool
  | .sec s =>
    let r := s.peekDataRequest cfg.sec
    (.sec r.1, r.2 ≠ [])
  | .pes s =>
    let r := s.peekDataRequest cfg.pesMaxSize
    (.pes r.1, r.2.isSome)

/-- `*pu32AcqedNum` of a `DMX_OsiReadDataRequset` without a time to wait. -/
def acqedNum (acqNum : Nat) : Sys → Nat
  | .sec s => (s.readDataRequset cfg.sec acqNum).2.length
  | .pes s => ((s.readDataRequset cfg.pesMaxSize).2.getD []).length

def step (s : Sys) : Input → Option (Sys × List Event)
  | .call c => (call cfg s c).map (fun r => (r.1, r.2.map .call))
  | .flag =>
    let r := getChnDataFlag cfg s
    some (r.1, [.flag r.2])
  | .peek =>
    let r := peekDataRequest cfg s
    some (r.1, [.peeked r.2])

/-- A section or post channel that was just opened. -/
def secInit : Sys := .sec ⟨Release.init.hw, Release.init.chan, Release.init.read⟩

/-- A PES channel that was just opened. -/
def pesInit : Sys := .pes ⟨[], .zero⟩

end HiSTB.Demux.DataFlag
