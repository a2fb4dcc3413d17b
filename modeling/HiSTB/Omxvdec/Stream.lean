import HiSTB.Omxvdec.Channel

/-!
# `Omxvdec.Stream` — input streams of a channel (`channel.c`, `decoder_vfmw.c`)

The user hands input buffers to the channel (`channel_empty_this_stream`); they stand on `raw_queue` until the
user gets them back. The decoder takes them in turn (`decoder_get_stream`) and gives them back
(`decoder_release_stream`). A flush answers what the decoder does not hold, and is done when the decoder has
given back the rest. The end of the stream is an entry of its own, `last_frame`, which no message answers.

The calls run interleaved; each is cut where it takes or gives up a lock. `list_add_tail` of an entry that is on
the list already, which would break the list, gives `none`. `held` is not a field of the source: it has the
addresses that the decoder got and has not given back.

Left out: what the decoder is told of a stream besides its address, the low-delay records, the saved streams,
and the call at the end of a flush that makes the decoder give back its streams. `LAST_FRAME_BUF_ID`, which the
repository does not define, is taken to be no index of the table.
-/

namespace HiSTB.Omxvdec.Stream

open Lib
open Channel (ChanState BufState Buf Status giveBack)

/-- An entry of `raw_queue`: an input buffer of the table, or `last_frame`. -/
inductive Raw
  | input (i : Nat)
  | last
  deriving DecidableEq

/-- What is read of `OMXVDEC_BUF_DESC` for an input buffer. -/
structure StreamDesc where
  phyaddr : BitVec 32
  dataLen : BitVec 32
  dataOffset : BitVec 32
  eos : Bool
  deriving DecidableEq

/-- What happens to entries and is told to the user. -/
inductive Event
  /-- The entry goes to the queue. -/
  | accept (r : Raw)
  /-- `VDEC_MSG_RESP_INPUT_DONE`; `i` is the buffer it is about, where it answers one that was accepted. -/
  | inputDone (status : Status) (i : Option Nat)
  /-- `channel_flush_in_port` has the lock. -/
  | flush
  /-- `VDEC_MSG_RESP_FLUSH_INPUT_DONE`. -/
  | flushInputDone
  deriving DecidableEq

/-- `OMXVDEC_CHAN_CTX`, with its table of `num` input buffers. -/
structure Chan where
  state : ChanState
  num : Nat
  buf : Raw → Buf
  rawQueue : List Raw
  rawUseCnt : Nat
  inputFlushPending : Bool
  eosInList : Bool
  held : List (BitVec 32)

namespace Chan

/-- A channel with its buffers, before the first call. -/
def init (state : ChanState) (num : Nat) (phyAddr bufLen : Raw → BitVec 32) : Chan where
  state := state
  num := num
  buf := fun r => ⟨phyAddr r, bufLen r, 0, .idle⟩
  rawQueue := []
  rawUseCnt := 0
  inputFlushPending := false
  eosInList := false
  held := []

def setStatus (s : Chan) (r : Raw) (st : BufState) : Chan :=
  { s with buf := Function.update s.buf r { s.buf r with status := st } }

def setOffset (s : Chan) (r : Raw) (offset : BitVec 32) : Chan :=
  { s with buf := Function.update s.buf r { s.buf r with offset := offset } }

/-- `list_del`. -/
def listDel (s : Chan) (r : Raw) : Chan := { s with rawQueue := s.rawQueue.erase r }

/-- `list_add_tail`. -/
def listAddTail (s : Chan) (r : Raw) : Chan := { s with rawQueue := s.rawQueue ++ [r] }

/-- `channel_lookup_addr_table` for an input buffer. -/
def lookupAddrTable (s : Chan) (phyaddr : BitVec 32) : Option Nat :=
  (List.range s.num).find? (fun i => phyaddr = (s.buf (.input i)).phyAddr)

/-- `channel_insert_in_raw_list`: is an entry with that address on the list? -/
def inRawList (s : Chan) (i : Nat) : Bool :=
  s.rawQueue.any (fun q => (s.buf (.input i)).phyAddr = (s.buf q).phyAddr)

/-- The message that answers an entry; `last_frame` has none, but clears `eos_in_list`. -/
def answer (s : Chan) : Raw → Chan × List Event
  | .input i => (s, [.inputDone .success (some i)])
  | .last => ({ s with eosInList := false }, [])

/-- The entry that `decoder_get_stream` would take. -/
def freeStream (s : Chan) : Option Raw := s.rawQueue.find? (fun r => (s.buf r).status ≠ .inUse)

/-- The section of `decoder_get_stream` under `raw_lock`. -/
def getStream (s : Chan) : Chan :=
  if s.inputFlushPending then s
  else
    match s.freeStream with
    | none => s
    | some r =>
      { s.setStatus r .inUse with
        rawUseCnt := s.rawUseCnt + 1
        held := (s.buf r).addr :: s.held }

/-- The end of `decoder_release_stream`. -/
def endRelease (s : Chan) : Chan × List Event :=
  let s := { s with rawUseCnt := s.rawUseCnt - 1 }
  if s.inputFlushPending ∧ s.rawUseCnt = 0 then ({ s with inputFlushPending := false }, [.flushInputDone])
  else (s, [])

/-- `decoder_release_stream`, under `raw_lock`. -/
def releaseStream (s : Chan) (phyaddr : BitVec 32) : Chan × List Event :=
  match s.rawQueue.find? (fun r => phyaddr = (s.buf r).addr) with
  | none => (s, [])
  | some r =>
    let p := ((s.setStatus r .idle).listDel r).answer r
    let q := p.1.endRelease
    (q.1, p.2 ++ q.2)

/-- `list_for_each_entry_safe` of `channel_flush_in_port`. -/
def flushLoop (s : Chan) : List Raw → Chan × List Event
  | [] => (s, [])
  | r :: rs =>
    if (s.buf r).status = .inUse then flushLoop s rs
    else
      let p := ((s.setStatus r .idle).listDel r).answer r
      let q := flushLoop p.1 rs
      (q.1, p.2 ++ q.2)

/-- `channel_flush_in_port`, under `raw_lock`. -/
def flushInPort (s : Chan) : Chan × List Event :=
  let r := s.flushLoop s.rawQueue
  if r.1.rawUseCnt > 0 then ({ r.1 with inputFlushPending := true }, .flush :: r.2)
  else (r.1, .flush :: r.2 ++ [.flushInputDone])

/-- `channel_add_last_frame`, and the entry is queued. -/
def addLastFrame (s : Chan) : Chan := (s.setOffset .last 0).setStatus .last .queued

end Chan

/-! ## The calls, cut at the locks -/

inductive Call
  | emptyThisStream (d : StreamDesc)
  | getStream
  | releaseStream (phyaddr : BitVec 32)
  | flushInPort
  /-- A command changes the state of the channel. -/
  | setState (state : ChanState)
  deriving DecidableEq

/-- Where a call goes on. -/
inductive Pc
  /-- `channel_empty_this_stream`, at its beginning. -/
  | emptyLookup (d : StreamDesc)
  /-- `channel_empty_this_stream`, before the `raw_lock` of `channel_insert_in_raw_list`. -/
  | emptyInsert (i : Nat) (d : StreamDesc)
  /-- `channel_empty_this_stream`, where the buffer is on the list already. -/
  | emptyReject
  /-- `channel_empty_this_stream`, before it reads `eos_in_list`. -/
  | emptyEos (d : StreamDesc)
  /-- `channel_empty_this_stream`, before the `raw_lock` for `last_frame`. -/
  | emptyLast (d : StreamDesc)
  /-- `channel_empty_this_stream`, before it sets `eos_in_list`. -/
  | emptySetEos (d : StreamDesc)
  /-- `decoder_get_stream`, before `chan_lock`. -/
  | getState
  /-- `decoder_get_stream`, before `raw_lock`. -/
  | getList
  /-- `decoder_release_stream`, before `raw_lock`. -/
  | release (phyaddr : BitVec 32)
  /-- `channel_flush_in_port`, before `raw_lock`. -/
  | flush
  deriving DecidableEq

/-- A call begins. The decoder gives a stream back at most once. -/
def startCall (s : Chan) : Call → Option (Chan × List Pc × List Event)
  | .emptyThisStream d => some (s, [.emptyLookup d], [])
  | .getStream => some (s, [.getState], [])
  | .releaseStream k => (giveBack s.held k).map (fun held => ({ s with held := held }, [.release k], []))
  | .flushInPort => some (s, [.flush], [])
  | .setState state => some ({ s with state := state }, [], [])

/-- `if (0 == puser_buf->data_len)` at the end of `channel_empty_this_stream`. -/
def emptyAnswer (d : StreamDesc) : List Event := if d.dataLen = 0 then [.inputDone .success none] else []

/-- The next part of a call. -/
def nextPart (s : Chan) : Pc → Option (Chan × List Pc × List Event)
  | .emptyLookup d =>
    if d.dataLen ≠ 0 then
      match s.lookupAddrTable d.phyaddr with
      | none => some (s, [], [.inputDone .illegalOp none])
      | some i => some (s.setOffset (.input i) d.dataOffset, [.emptyInsert i d], [])
    else some (s, [.emptyEos d], [])
  | .emptyInsert i d =>
    if s.inRawList i then some (s, [.emptyReject], [])
    else
      some ((s.setStatus (.input i) .queued).listAddTail (.input i), [.emptyEos d], [.accept (.input i)])
  | .emptyReject => some (s, [], [.inputDone .illegalOp none])
  | .emptyEos d =>
    if d.eos ∧ s.eosInList = false then some (s.addLastFrame, [.emptyLast d], [])
    else some (s, [], emptyAnswer d)
  | .emptyLast d =>
    if .last ∈ s.rawQueue then none
    else some (s.listAddTail .last, [.emptySetEos d], [.accept .last])
  | .emptySetEos d => some ({ s with eosInList := true }, [], emptyAnswer d)
  | .getState => some (s, if s.state ≠ .work then [] else [.getList], [])
  | .getList => some (s.getStream, [], [])
  | .release k =>
    let r := s.releaseStream k
    some (r.1, [], r.2)
  | .flush =>
    let r := s.flushInPort
    some (r.1, [], r.2)

/-- The channel with its calls. -/
def stream : Machine Chan Call Pc Event := ⟨startCall, nextPart⟩

end HiSTB.Omxvdec.Stream
