import HiSTB.Lib.Threads

/-!
# `Omxvdec.Channel` — output frames and commands of a channel (`channel.c`, `processor_vpss.c`)

The user hands output buffers to the channel (`channel_fill_this_frame`); they stand on `yuv_queue` until the
user gets them back in a message. In between VPSS takes a buffer (`processor_get_frame`) and gives it back,
with a picture (`processor_report_frame`) or without (`processor_release_frame`). A flush answers what VPSS does
not hold. The calls run interleaved, those of the commands `start`, `stop`, `pause` and `resume` as well. Each is cut
where it takes or gives up a lock, and outside the locks where it reads `yuv_use_cnt`, `output_flush_pending` or
`pause_pending`, or writes what it has read; to count `yuv_use_cnt` up or down is one step. A part that waits for
`chan_lock` stays where it is. What a command does behind its last section, up to its message, is in that section.

`list_del` of an entry that is on no list gives `none`. Counters are natural numbers. `held` is not a field of
the source: it has the addresses that VPSS got and has not given back, and VPSS gives back only those.

Left out: the reset and the `recfg_flag` at the beginning of a flush, the presentation time recovery, the
low-delay records, and what a message says of a buffer besides which one it is.
-/

namespace HiSTB.Omxvdec.Channel

open Lib

/-- `eCHAN_STATE`. -/
inductive ChanState
  | invalid
  | idle
  | work
  | pause
  | pausePending
  deriving DecidableEq

/-- `eBUFFER_STATE`. -/
inductive BufState
  | invalid
  | idle
  | queued
  | inUse
  deriving DecidableEq

/-- `OMXVDEC_BUF_S`. -/
structure Buf where
  phyAddr : BitVec 32
  bufLen : BitVec 32
  offset : BitVec 32
  status : BufState
  deriving DecidableEq

/-- The address that VPSS or the decoder knows a buffer by. -/
def Buf.addr (b : Buf) : BitVec 32 := b.phyAddr + b.offset

/-- What is read of `OMXVDEC_BUF_DESC` for an output buffer. -/
structure BufDesc where
  phyaddr : BitVec 32
  dataOffset : BitVec 32
  deriving DecidableEq

/-- `VDEC_MSG_RESP_*` of the output side and of the commands. -/
inductive Resp
  | startDone
  | stopDone
  | pauseDone
  | resumeDone
  | flushOutputDone
  | outputDone
  deriving DecidableEq

/-- The status of a message. -/
inductive Status
  | success
  | failed
  | badState
  | hwFatal
  | illegalOp
  deriving DecidableEq

/-- A command, with what the calls of decoder and processor return in it. -/
inductive Command
  | start (decoderStart processorStart decoderStop : BitVec 32)
  | stop (decoderStop processorStop : BitVec 32)
  | pause
  | resume
  deriving DecidableEq

/-- What happens to buffers and is told to the user. -/
inductive Event
  /-- Buffer `b` goes to the queue. -/
  | accept (b : Nat)
  /-- `list_del` of buffer `b`. -/
  | remove (b : Nat)
  /-- `message_queue`; `b` is the buffer it is about, where it answers one that was accepted. -/
  | post (code : Resp) (status : Status) (b : Option Nat)
  /-- `channel_resume_inst` cleared `pause_pending`. -/
  | cancel
  /-- A command returned `ret`. -/
  | ret (c : Command) (ret : BitVec 32)
  deriving DecidableEq

/-- `OMXVDEC_CHAN_CTX`, with its table of `num` output buffers. -/
structure Chan where
  state : ChanState
  num : Nat
  buf : Nat → Buf
  yuvQueue : List Nat
  yuvUseCnt : Nat
  outputFlushPending : Bool
  pausePending : Bool
  /-- `chan_lock`, as long as a section under it is cut. -/
  chanLock : Bool
  held : List (BitVec 32)

def HI_SUCCESS : BitVec 32 := 0
def HI_FAILURE : BitVec 32 := -1

namespace Chan

/-- A channel with a table of buffers, before the first call. -/
def init (num : Nat) (phyAddr bufLen : Nat → BitVec 32) : Chan where
  state := .idle
  num := num
  buf := fun i => ⟨phyAddr i, bufLen i, 0, .idle⟩
  yuvQueue := []
  yuvUseCnt := 0
  outputFlushPending := false
  pausePending := false
  chanLock := false
  held := []

def setStatus (s : Chan) (b : Nat) (st : BufState) : Chan :=
  { s with buf := Function.update s.buf b { s.buf b with status := st } }

def setOffset (s : Chan) (b : Nat) (offset : BitVec 32) : Chan :=
  { s with buf := Function.update s.buf b { s.buf b with offset := offset } }

/-- `list_del`. -/
def listDel (s : Chan) (b : Nat) : Chan := { s with yuvQueue := s.yuvQueue.erase b }

/-- `channel_lookup_addr_table` for an output buffer. -/
def lookupAddrTable (s : Chan) (phyaddr : BitVec 32) : Option Nat :=
  (List.range s.num).find? (fun i => phyaddr = (s.buf i).phyAddr)

/-- The entry that the list has at an address. -/
def findAddr (s : Chan) (phyaddr : BitVec 32) : Option Nat :=
  s.yuvQueue.find? (fun b => phyaddr = (s.buf b).addr)

/-! ## `processor_get_frame` -/

/-- The buffer that `processor_get_frame` would take. -/
def freeFrame (s : Chan) (expectLength : BitVec 32) : Option Nat :=
  s.yuvQueue.find? (fun b => (s.buf b).status ≠ .inUse ∧ ¬(s.buf b).bufLen < expectLength)

/-- The section under `yuv_lock`. -/
def getFrame (s : Chan) (expectLength : BitVec 32) : Chan :=
  match s.freeFrame expectLength with
  | none => s
  | some b =>
    { s.setStatus b .inUse with
      yuvUseCnt := s.yuvUseCnt + 1
      held := (s.buf b).addr :: s.held }

/-- `yuv_use_cnt = (yuv_use_cnt > 0) ? (yuv_use_cnt - 1) : 0`. -/
def decUseCnt (s : Chan) : Chan := { s with yuvUseCnt := s.yuvUseCnt - 1 }

/-! ## `channel_fill_this_frame`, `channel_flush_out_port` -/

/-- `channel_insert_in_yuv_list`: is a buffer with that address on the list? -/
def inYuvList (s : Chan) (b : Nat) : Bool := s.yuvQueue.any (fun q => (s.buf b).phyAddr = (s.buf q).phyAddr)

/-- The other half of `channel_insert_in_yuv_list`. -/
def insertInYuvList (s : Chan) (b : Nat) : Chan :=
  { s.setStatus b .queued with yuvQueue := s.yuvQueue ++ [b] }

/-- `list_for_each_entry_safe` of `channel_flush_out_port`. -/
def flushLoop (s : Chan) : List Nat → Chan × List Event
  | [] => (s, [])
  | b :: bs =>
    if (s.buf b).status = .inUse then flushLoop s bs
    else
      let r := flushLoop ((s.setStatus b .idle).listDel b) bs
      (r.1, .remove b :: .post .outputDone .success (some b) :: r.2)

/-- The section of `channel_flush_out_port` under `yuv_lock`. -/
def flushOutPort (s : Chan) : Chan × List Event :=
  let r := s.flushLoop s.yuvQueue
  if r.1.yuvUseCnt > 0 then ({ r.1 with outputFlushPending := true }, r.2)
  else (r.1, r.2 ++ [.post .flushOutputDone .success none])

end Chan

/-! ## The calls -/

inductive Call
  | getFrame (expectLength : BitVec 32)
  | releaseFrame (phyaddr : BitVec 32)
  | reportFrame (phyaddr : BitVec 32)
  | fillThisFrame (d : BufDesc)
  | flushOutPort
  | command (c : Command)
  deriving DecidableEq

/-- Where a call goes on. -/
inductive Pc
  /-- `processor_get_frame`, before `chan_lock`. -/
  | getState (expectLength : BitVec 32)
  /-- `processor_get_frame`, before it reads `output_flush_pending`. -/
  | getFlag (expectLength : BitVec 32)
  /-- `processor_get_frame`, before `yuv_lock`. -/
  | getList (expectLength : BitVec 32)
  /-- `processor_release_frame`, before its first `yuv_lock`. -/
  | releaseFind (phyaddr : BitVec 32)
  /-- `processor_release_frame`, behind its first `yuv_lock`. -/
  | releaseCount (b : Nat)
  /-- `processor_release_frame`, before it reads the flags. -/
  | releaseFlags (b : Nat)
  /-- `processor_release_frame`, before its second `yuv_lock`. -/
  | releaseDel (b : Nat)
  /-- `processor_release_frame`, behind its second `yuv_lock`. -/
  | releasePost (b : Nat)
  /-- `processor_report_frame`, before `yuv_lock`. -/
  | reportFind (phyaddr : BitVec 32)
  /-- `processor_report_frame`, behind `yuv_lock`. -/
  | reportPost (b : Nat)
  /-- `processor_report_frame`, behind its message. -/
  | reportCount
  /-- A release or a report, before it reads `yuv_use_cnt`. -/
  | answer
  /-- The count was 0: before `output_flush_pending` is read. -/
  | answerFlush
  /-- The flush is answered, and `output_flush_pending` still set. -/
  | flushAnswered
  /-- Before `pause_pending` is read. -/
  | answerPause
  /-- The pause is answered, and `pause_pending` still set. -/
  | pauseAnswered
  /-- `channel_fill_this_frame`, at its beginning. -/
  | fillLookup (d : BufDesc)
  /-- `channel_fill_this_frame`, before `yuv_lock`. -/
  | fillInsert (b : Nat)
  /-- `channel_fill_this_frame`, behind `yuv_lock`, where the buffer is on the list already. -/
  | fillReject
  /-- `channel_flush_out_port`, before `yuv_lock`. -/
  | flush
  /-- A command, before `chan_lock`. -/
  | command (c : Command)
  /-- `channel_start_inst`, before its second `chan_lock`. -/
  | startSet (decoderStart processorStart decoderStop : BitVec 32)
  /-- `channel_pause_inst`, under `chan_lock`: it has read that frames are in use. -/
  | pauseSet
  deriving DecidableEq

/-! ## The commands -/

namespace Chan

/-- `channel_start_inst` up to its second `chan_lock`. -/
def startInst (s : Chan) (decoderStart processorStart decoderStop : BitVec 32) : Chan × List Pc × List Event :=
  let c := Command.start decoderStart processorStart decoderStop
  if s.state = .work then (s, [], [.post .startDone .failed none, .ret c HI_FAILURE])
  else if decoderStart ≠ HI_SUCCESS then (s, [], [.post .startDone .failed none, .ret c decoderStart])
  else if processorStart ≠ HI_SUCCESS then
    -- `ret` is used again for the stop of the decoder
    (s, [], [.post .startDone .failed none, .ret c decoderStop])
  else (s, [.startSet decoderStart processorStart decoderStop], [])

/-- `channel_stop_inst`. -/
def stopInst (s : Chan) (decoderStop processorStop : BitVec 32) : Chan × List Pc × List Event :=
  let c := Command.stop decoderStop processorStop
  if s.state = .idle then (s, [], [.post .stopDone .badState none, .ret c HI_FAILURE])
  else
    let status : Status := if decoderStop ≠ HI_SUCCESS then .hwFatal else .success
    let status : Status := if processorStop ≠ HI_SUCCESS then .hwFatal else status
    ({ s with state := .idle }, [], [.post .stopDone status none, .ret c HI_SUCCESS])

/-- `channel_pause_inst` up to its look at `yuv_use_cnt`. -/
def pauseInst (s : Chan) : Chan × List Pc × List Event :=
  if s.state ≠ .work then (s, [], [.post .pauseDone .badState none, .ret .pause HI_FAILURE])
  else if s.yuvUseCnt = 0 then
    ({ s with state := .pause }, [], [.post .pauseDone .success none, .ret .pause HI_SUCCESS])
  else ({ s with state := .pause, chanLock := true }, [.pauseSet], [])

/-- `channel_resume_inst`. -/
def resumeInst (s : Chan) : Chan × List Pc × List Event :=
  if s.state ≠ .pause then (s, [], [.post .resumeDone .badState none, .ret .resume HI_FAILURE])
  else
    ({ s with state := .work, pausePending := false }, [],
      (if s.pausePending then [.cancel] else []) ++ [.post .resumeDone .success none, .ret .resume HI_SUCCESS])

/-- A command takes `chan_lock`, if it is free. -/
def command (s : Chan) (c : Command) : Chan × List Pc × List Event :=
  if s.chanLock then (s, [.command c], [])
  else
    match c with
    | .start d p r => s.startInst d p r
    | .stop d p => s.stopInst d p
    | .pause => s.pauseInst
    | .resume => s.resumeInst

end Chan

/-! ## The parts -/

/-- The hardware gives back what it holds at address `k`. -/
def giveBack (held : List (BitVec 32)) (k : BitVec 32) : Option (List (BitVec 32)) :=
  if k ∈ held then some (held.erase k) else none

theorem giveBack_eq_some {held held' : List (BitVec 32)} {k : BitVec 32} (h : giveBack held k = some held') :
    k ∈ held ∧ held' = held.erase k := by
  unfold giveBack at h
  split at h
  · cases h
    exact ⟨by assumption, rfl⟩
  · cases h

/-- A call begins. VPSS gives a frame back at most once. -/
def startCall (s : Chan) : Call → Option (Chan × List Pc × List Event)
  | .getFrame n => some (s, [.getState n], [])
  | .releaseFrame k => (giveBack s.held k).map (fun held => ({ s with held := held }, [.releaseFind k], []))
  | .reportFrame k => (giveBack s.held k).map (fun held => ({ s with held := held }, [.reportFind k], []))
  | .fillThisFrame d => some (s, [.fillLookup d], [])
  | .flushOutPort => some (s, [.flush], [])
  | .command c => some (s.command c)

/-- The next part of a call. -/
def nextPart (s : Chan) : Pc → Option (Chan × List Pc × List Event)
  | .getState n =>
    if s.chanLock then some (s, [.getState n], [])
    else some (s, if s.state ≠ .work then [] else [.getFlag n], [])
  | .getFlag n => some (s, if s.outputFlushPending then [] else [.getList n], [])
  | .getList n => some (s.getFrame n, [], [])
  | .releaseFind k =>
    if k = 0 then some (s, [], [])
    else
      match s.findAddr k with
      | none => some (s, [], [])
      | some b => some (s.setStatus b .idle, [.releaseCount b], [])
  | .releaseCount b => some (s.decUseCnt, [.releaseFlags b], [])
  | .releaseFlags b =>
    if s.outputFlushPending ∨ s.pausePending then some (s, [.releaseDel b], [])
    else some (s.setStatus b .queued, [], [])
  | .releaseDel b => if b ∈ s.yuvQueue then some (s.listDel b, [.releasePost b], [.remove b]) else none
  | .releasePost b => some (s, [.answer], [.post .outputDone .success (some b)])
  | .reportFind k =>
    if k = 0 then some (s, [], [])
    else
      match s.findAddr k with
      | none => some (s, [], [])
      | some b => some ((s.setStatus b .idle).listDel b, [.reportPost b], [.remove b])
  | .reportPost b => some (s, [.reportCount], [.post .outputDone .success (some b)])
  | .reportCount => some (s.decUseCnt, [.answer], [])
  | .answer => some (s, if s.yuvUseCnt = 0 then [.answerFlush] else [], [])
  | .answerFlush =>
    if s.outputFlushPending then some (s, [.flushAnswered], [.post .flushOutputDone .success none])
    else some (s, [.answerPause], [])
  | .flushAnswered => some ({ s with outputFlushPending := false }, [.answerPause], [])
  | .answerPause =>
    if s.pausePending then some (s, [.pauseAnswered], [.post .pauseDone .success none])
    else some (s, [], [])
  | .pauseAnswered => some ({ s with pausePending := false }, [], [])
  | .fillLookup d =>
    match s.lookupAddrTable d.phyaddr with
    | none => some (s, [], [.post .outputDone .illegalOp none])
    | some b => some (s.setOffset b d.dataOffset, [.fillInsert b], [])
  | .fillInsert b =>
    if s.inYuvList b then some (s, [.fillReject], [])
    else some (s.insertInYuvList b, [], [.accept b])
  | .fillReject => some (s, [], [.post .outputDone .illegalOp none])
  | .flush =>
    let r := s.flushOutPort
    some (r.1, [], r.2)
  | .command c => some (s.command c)
  | .startSet d p r =>
    if s.chanLock then some (s, [.startSet d p r], [])
    else
      -- `ret` is what `processor_start_inst` returned
      some ({ s with state := .work }, [], [.post .startDone .success none, .ret (.start d p r) HI_SUCCESS])
  | .pauseSet => some ({ s with pausePending := true, chanLock := false }, [], [.ret .pause HI_SUCCESS])

/-- The channel with its calls. -/
def channel : Machine Chan Call Pc Event := ⟨startCall, nextPart⟩

/-- A channel with two output buffers. -/
def twoBufs : Threads Chan Pc := ⟨Chan.init 2 (fun i => 0x1000 + 0x1000 * BitVec.ofNat 32 i) (fun _ => 0x1000), []⟩

/-- The user starts the channel and hands in buffer `0`; VPSS takes it. -/
def fillAndGet : List (Act Call) :=
  [.call (.command (.start 0 0 0)), .sched 0, .call (.fillThisFrame ⟨0x1000, 0⟩), .sched 0, .sched 0,
    .call (.getFrame 0x1000), .sched 0, .sched 0, .sched 0]

end HiSTB.Omxvdec.Channel
