import HiSTB.Lib.Run
import HiSTB.Lib.Word
import Mathlib.Logic.Function.Basic

/-!
# `Hls.ReadData` — one segment after another (`hls.c`)

`hlsReadDataCb` opens the segment that `cur_seg` points to, reads it to its end, and then chooses the next one, from the
variant for which `hlsGetIndex` decides. The position is kept in the numbering of `hls_stream[0]`, the variant that is
played from the start. The lists of a live session are loaded again and again.

* `hlsGetIndex`, `hlsGetDefaultIndex` — the variant by the speed of the network, and the one for the start;
* `reload` … `loadNext` — the function from one of its labels, or from one part, to the next;
* `step` — one part after another, over all calls; an `Answer` is what the outside says to a part.

Numbers of segments are `int`s, whose sums wrap around. A segment is its key type, and `cur_seg` says where the segment
stood when the pointer was set, or is `none` where the subscript was outside the list.

`hls_index` of `hls_stream[0]` is 0. `Answer` stands for the network, the clock, the playlists, and `hls_decrypt_open`,
which is not in the repository. Left out: the positions in the I-frames of a segment, the log and the statistics.
-/

namespace HiSTB.Hls.ReadData

open Lib (int32 IsInt)

/-- `enum HLS_KEY_TYPE`. -/
inductive KeyType
  | none
  | aes128
  deriving DecidableEq

/-- What `hlsParseM3U8` finds in a playlist: `hls_seg_start`, the segments, and the end tag. -/
structure Playlist where
  segStart : Int
  segments : List KeyType
  finished : Bool

/-- `hls_stream_info_t`; `hls_segment_nb` is the length of `segments`. -/
structure Variant where
  bandwidth : Int
  segStart : Int
  segments : List KeyType
  segCur : Int
  finished : Bool
  firstSegNumber : Int
  isParsed : Bool
  hasRead : Bool

/-- The numbers of the list, up to the one behind its end, are `int`s. -/
structure Variant.Ints (v : Variant) : Prop where
  start : IsInt v.segStart
  nb : IsInt v.segments.length
  behind : IsInt (v.segStart + v.segments.length)

instance (v : Variant) : Decidable v.Ints := decidable_of_iff (_ ∧ _ ∧ _) ⟨fun h => ⟨h.1, h.2.1, h.2.2⟩, fun h =>
    ⟨h.1, h.2, h.3⟩⟩

/-- Where a segment stands. -/
structure Seat where
  stream : Nat
  pos : Nat
  keyType : KeyType
  deriving DecidableEq

/-- What `hlsParseM3U8` does: it cannot open the list, it is broken off after the first line, or it returns 0. -/
inductive Parse
  | fails
  | breaks (p : Playlist)
  | reads (p : Playlist)

/-- The tags of an I-frame list that concern the variant it is read for, and the segments without a byte range. -/
structure IframeList where
  segStart : Option Int
  segments : List KeyType
  finished : Bool

/-- What `hls_open_h` returns. -/
inductive OpenRet
  | ok
  | again
  | noMemory
  | failed
  deriving DecidableEq

/-- What the read of a segment returns: data, 0 or the end, or another error. -/
inductive ReadRet
  | data
  | ended
  | error
  deriving DecidableEq

/-- How `load_next` ends: some stream is received, none is, or the memory for new streams is missing. -/
inductive Rest
  | needed
  | unneeded
  | noMemory
  deriving DecidableEq

/-- What the outside says to a part: `ff_check_interrupt`, has the time since the last load elapsed, `is_time_shift`, a
    fresh URL, a playlist and an I-frame list, the segment, memory and a handle for `hls_decrypt_open`, the data, the
    speed, the appointed variant, `media.hiplayer.hls.adjustbw`, and the streams. -/
structure Answer where
  interrupt : Bool
  elapsed : Bool
  timeShift : Bool
  freshUrl : Bool
  parse : Parse
  iframe : Option IframeList
  openRet : OpenRet
  keyMemory : Bool
  handle : Bool
  read : ReadRet
  netBw : Nat
  appointId : Int
  quick : Bool
  rest : Rest

/-- What a call returns: data, `AVERROR_EOF`, or another error. -/
inductive Ret
  | data
  | eof
  | error
  deriving DecidableEq

/-- A subscript on the `segments` of a variant with `nb` segments, a segment that `hlsOpenSegment` tries to open, with
    the number and the start of `hls_stream[0]`, and the return of a call. -/
inductive Event
  | subscript (stream : Nat) (index : Int) (nb : Nat)
  | opens (cur start : Int) (seat : Seat)
  | returns (r : Ret)
  deriving DecidableEq

/-- The labels of `hlsReadDataCb`, and the parts between them: `window` and `place` follow a reload, `read` an open. -/
inductive Label
  | call
  | restart
  | reload
  | reparse
  | window
  | reparse2
  | place
  | reopen
  | read
  | loadNext
  deriving DecidableEq

/-- `HLSContext` and `hls_stream[0]`, with the label and the local variables. `cur_hls` is an index; `input` is
    `seg_stream.input`, and `decrypt` is `IO_decrypt` and whether it has a handle. -/
structure State where
  label : Label
  needReload : Bool
  hasReload : Bool
  streamNb : Nat
  stream : Nat → Variant
  curHls : Nat
  curSeg : Option Seat
  curStreamSeq : Nat
  curSeqNum : Int
  useOffsetSeq : Bool
  hicache : Bool
  input : Bool
  decrypt : Option Bool

/-- The number of segments of a variant. -/
abbrev State.nb (s : State) (i : Nat) : Nat := (s.stream i).segments.length

/-! ## The choice of a variant -/

/-- An `int` as `uint64_t`, and as `unsigned int`. -/
def toU64 (x : Int) : Nat := (x % 0x10000000000000000).toNat
def toU32 (x : Int) : Nat := (x % 0x100000000).toNat

/-- The loops over the variants: the last one that is nearer than all before it. -/
def nearest (n : Nat) (ok : Nat → Bool) (dist : Nat → Nat) (target : Option Nat) : Option Nat :=
  ((List.range n).foldl (fun r i => if ok i ∧ dist i < r.1 then (dist i, some i) else r) (0xFFFFFFFF, target)).2

/-- A variant that has segments, or was not parsed yet. -/
def Variant.usable (v : Variant) : Bool := decide (0 < v.segments.length) || !v.isParsed

namespace State

variable (s : State) (a : Answer)

/-- `hlsGetIndex`; `none` where `target_index` stays -1. -/
def hlsGetIndex : Option Nat :=
  let bw := fun i => (s.stream i).bandwidth
  let usable := fun i => (s.stream i).usable
  let curBw := bw s.curHls
  if 0 ≤ a.appointId ∧ a.appointId < s.streamNb ∧ usable a.appointId.toNat = true then some a.appointId.toNat
  else
    let curIndex := (List.range s.streamNb).foldl (fun r i => if bw i = curBw then i else r) 0
    let below := nearest s.streamNb (fun i => decide (toU64 (bw i) < a.netBw) && usable i)
      (fun i => a.netBw - toU64 (bw i)) none
    let target := if below = none then nearest s.streamNb usable (fun i => toU32 (bw i)) none else below
    target.bind (fun t =>
      if a.quick ∨ curIndex = t then some t
      else if bw t < curBw then
        nearest s.streamNb (fun i => decide (bw i < curBw) && decide (0 < s.nb i)) (fun i =>
          toU32 (curBw - bw i)) (some t)
      else if curBw < bw t then
        nearest s.streamNb (fun i => decide (curBw < bw i) && usable i) (fun i => toU32 (bw i - curBw)) (some t)
      else some t)

/-- `hlsGetDefaultIndex`; `videoCodec` says which variants have one, and `fast` is `HLS_MODE_FAST`. -/
def hlsGetDefaultIndex (videoCodec : Nat → Bool) (fast : Bool) : Nat :=
  let bw := fun i => (s.stream i).bandwidth
  ((List.range s.streamNb).foldl (fun r i =>
    if videoCodec i then
      match r with
      | none => some i
      | some d => if (s.stream i).usable ∧ (if fast then bw i < bw d else bw d < bw i) then some i else some d
    else r) none).getD 0

/-! ## Playlists and segments -/

/-- The list of a variant is freed and read anew. -/
def load (i : Nat) (p : Playlist) : State :=
  { s with
    stream := Function.update s.stream i
      { s.stream i with segStart := p.segStart, segments := p.segments, finished := p.finished } }

/-- `hlsParseM3U8` for a variant, and whether it returns 0. -/
def hlsParseM3U8 (i : Nat) : Parse → State × Bool
  | .fails => (s, false)
  | .breaks p => (s.load i p, false)
  | .reads p => (s.load i p, true)

/-- `hlsParseM3U8` for an I-frame list: its tags go to `hls_stream[0]`. -/
def parseIframe : Option IframeList → State
  | none => s
  | some l =>
    { s with
      stream := Function.update s.stream 0
        { s.stream 0 with
          segStart := l.segStart.getD (s.stream 0).segStart
          segments := (s.stream 0).segments ++ l.segments
          finished := (s.stream 0).finished || l.finished } }

/-- `segments[index]`. -/
def seat (i : Nat) (index : Int) : Option Seat :=
  if 0 ≤ index then ((s.stream i).segments[index.toNat]?).map (fun k => ⟨i, index.toNat, k⟩) else none

/-- `cur_seg = hls->seg_list.segments[index]`, with `cur_hls` and `cur_seq_num`. -/
def setSeg (i : Nat) (index : Int) : State × List Event :=
  ({ s with curHls := i, curSeg := s.seat i index, curSeqNum := index }, [.subscript i index (s.nb i)])

/-- Another value for `hls_seg_cur`. -/
def setCur (i : Nat) (cur : Int) : State :=
  { s with stream := Function.update s.stream i { s.stream i with segCur := cur } }

/-! ## The parts -/

def goto (l : Label) : Option (State × List Event) := some ({ s with label := l }, [])

/-- The call returns, and the caller will call again. -/
def ret (r : Ret) : Option (State × List Event) := some ({ s with label := .call }, [.returns r])

/-- A list cannot be loaded: the call returns, or it tries once more. -/
def redo : Option (State × List Event) :=
  if a.interrupt ∨ a.timeShift then s.ret .error else some (s, [])

/-- `reload:`. -/
def reload : Option (State × List Event) :=
  if a.interrupt then s.ret .eof
  else if (s.stream 0).finished = false ∧ (a.elapsed ∨ s.needReload) then s.goto .reparse
  else s.goto .window

/-- `reparse:`. -/
def reparse : Option (State × List Event) :=
  if (s.hlsParseM3U8 0 a.parse).2 then
    { (s.hlsParseM3U8 0 a.parse).1 with needReload := false, hasReload := true }.goto .window
  else (s.hlsParseM3U8 0 a.parse).1.redo a

/-- "skipping segments ahead, expired from playlists". -/
def skip : State :=
  if (s.stream 0).segCur < (s.stream 0).segStart then s.setCur 0 (s.stream 0).segStart else s

/-- Is the number in the playlist? The wait for the next load ends with the interrupt or with the time. -/
def inWindow : Option (State × List Event) :=
  if int32 ((s.stream 0).segStart + s.nb 0) ≤ (s.stream 0).segCur then
    if (s.stream 0).finished then s.ret .eof
    else if a.freshUrl then { s with needReload := true }.goto .reload
    else if a.interrupt then s.ret .eof
    else s.goto .reload
  else if (s.stream 0).finished then s.goto .reopen
  else if s.hasReload ∧ s.curStreamSeq ≠ 0 then s.goto .reparse2
  else s.goto .place

/-- `reparse2:`. -/
def reparse2 : Option (State × List Event) :=
  if (s.hlsParseM3U8 s.curHls a.parse).2 then (s.hlsParseM3U8 s.curHls a.parse).1.goto .place
  else (s.hlsParseM3U8 s.curHls a.parse).1.redo a

/-- "Sequence ReCount" with `use_offset_seq`. -/
def reCount : State :=
  let v := s.stream 0
  let h := s.stream s.curHls
  if int32 (v.segCur - v.firstSegNumber + h.firstSegNumber) ≤ int32 (h.segStart + s.nb s.curHls - 1) then
    s.setCur s.curHls (int32 (v.segCur - v.firstSegNumber + h.firstSegNumber))
  else s.setCur s.curHls (int32 (v.segCur - v.segStart + h.segStart))

/-- The current segment of the current variant, which is in the numbering of `hls_stream[0]`. -/
def curIndex : Int :=
  if (s.stream s.curHls).segStart ≤ (s.stream 0).segCur then int32 ((s.stream 0).segCur - (s.stream s.curHls).segStart)
  else 0

/-- The place of the number in the current variant. -/
def place : Option (State × List Event) :=
  if s.useOffsetSeq = false ∧ int32 ((s.stream s.curHls).segStart + s.nb s.curHls - 1) < (s.stream 0).segCur then
    { s with hasReload := false }.goto .reparse2
  else
    let t := if s.useOffsetSeq then s.reCount else s
    let r := t.setSeg t.curHls t.curIndex
    some ({ r.1 with hasReload := false, label := .reopen }, r.2)

/-- The subscript for the URL behind the current one, for the cache. -/
def nextUrl : List Event :=
  let pos := int32 ((s.stream 0).segCur - (s.stream 0).segStart)
  if s.hicache ∧ int32 (pos + 1) < s.nb 0 then [.subscript 0 (int32 (pos + 1)) (s.nb 0)] else []

/-- `hlsOpenSegment`. For a segment with a key it returns the `ret` of its first line, unless the memory is missing. -/
def hlsOpenSegment (seg : Seat) : State × OpenRet × List Event :=
  let tries := Event.opens (s.stream 0).segCur (s.stream 0).segStart seg
  match seg.keyType with
  | .none => ({ s with input := decide (a.openRet = .ok) }, a.openRet, tries :: s.nextUrl)
  | .aes128 =>
    if a.keyMemory then ({ s with decrypt := some a.handle }, .ok, [tries])
    else ({ s with decrypt := none }, .noMemory, [tries])

/-- The open has failed; in a finished session another variant is tried at the same position. -/
def openFailed (r : OpenRet) : Option (State × List Event) :=
  if a.interrupt ∨ r = .noMemory then s.ret .eof
  else if (s.stream 0).finished then
    if r = .again then s.goto .reopen
    else if 1 < s.streamNb then
      let t := { s with stream := Function.update s.stream s.curHls { s.stream s.curHls with hasRead := true } }
      match nearest t.streamNb (fun i => !(t.stream i).hasRead && decide (0 < t.nb i))
          (fun i => (int32 ((t.stream i).bandwidth - (t.stream t.curHls).bandwidth)).natAbs) none with
      | none => t.goto .loadNext
      | some i => some ({ (t.setSeg i t.curSeqNum).1 with curStreamSeq := i, label := .reload },
        (t.setSeg i t.curSeqNum).2)
    else s.goto .loadNext
  else { s.setCur 0 (int32 ((s.stream 0).segCur + 1)) with needReload := true }.goto .reload

/-- `reopen:`. -/
def reopen : Option (State × List Event) :=
  s.curSeg.bind (fun seg =>
    let r := s.hlsOpenSegment a seg
    if r.2.1 = .ok then some ({ r.1 with label := .read }, r.2.2)
    else (r.1.openFailed a r.2.1).map (fun q => (q.1, r.2.2 ++ q.2)))

/-- The read of the segment, and the close at its end. -/
def readSegment : Option (State × List Event) :=
  let t := if s.decrypt = some true then { s with input := true } else s
  match a.read with
  | .data => t.ret .data
  | .error => t.ret .error
  | .ended => if a.interrupt then t.ret .eof else { t with input := false, decrypt := none }.goto .loadNext

/-- The next number. -/
def nextNumber : State :=
  let t := { s with stream := fun i => { s.stream i with hasRead := false } }
  t.setCur 0 (int32 ((s.stream 0).segCur + 1))

/-- A variant that was not parsed is parsed when it is chosen; if that fails, `hls_stream[0]` is taken instead. -/
def parseNext (n : Nat) : State × Nat :=
  if s.nb n = 0 ∧ (s.stream n).isParsed = false then
    let t := (s.hlsParseM3U8 n a.parse).1
    if (s.hlsParseM3U8 n a.parse).2 then
      ({ t with stream := Function.update t.stream n { t.stream n with isParsed := true } }.parseIframe a.iframe, n)
    else (t, 0)
  else (s, n)

/-- `pos`, as the distance from the start of the list of `hls_next`. -/
def nextPos : Int := int32 ((s.stream 0).segCur - (s.stream 0).segStart)

/-- The place of the next number; `n` is `stream_num`, and `next` is `hls_next`. -/
def setNext (n next : Nat) : State × List Event :=
  let pos := int32 ((s.stream next).segStart + s.nextPos)
  let old := s.curStreamSeq
  let t := if old ≠ n then { s with needReload := true } else s
  if 0 < s.nb next then
    if (s.stream 0).finished then
      if pos < int32 (s.nb next + (s.stream next).segStart) then
        let r := t.setSeg next (int32 (pos - (s.stream next).segStart))
        ({ r.1 with curStreamSeq := n }, r.2)
      else if old ≠ n then s.setSeg old (int32 (pos - (s.stream old).segStart))
      else (s, [])
    else
      let u := { t with curHls := next, curStreamSeq := n }
      (if pos < int32 (s.nb next + (s.stream next).segStart) then u.setCur next pos else u, [])
  else (s, [])

/-- Is any of the streams still received? -/
def stillNeeded : Option (State × List Event) :=
  match a.rest with
  | .needed => s.goto .restart
  | .unneeded => s.ret .eof
  | .noMemory => s.ret .error

/-- The variant that is chosen, `stream_num` and `hls_next`; `none` where `hls_stream[-1]` is read. -/
def chosen : Option (State × Nat × Nat) :=
  (s.nextNumber.hlsGetIndex a).map (fun n => ((s.nextNumber.parseNext a n).1, n, (s.nextNumber.parseNext a n).2))

/-- `load_next:`. -/
def loadNext : Option (State × List Event) :=
  (s.chosen a).bind (fun c =>
    let r := c.1.setNext c.2.1 c.2.2
    (r.1.stillNeeded a).map (fun q => (q.1, r.2 ++ q.2)))

end State

/-- One part of a call. -/
def step (s : State) (a : Answer) : Option (State × List Event) :=
  match s.label with
  | .call => { s with needReload := false, hasReload := false }.goto .restart
  | .restart => s.goto (if s.input then .read else .reload)
  | .reload => s.reload a
  | .reparse => s.reparse a
  | .window => s.skip.inWindow a
  | .reparse2 => s.reparse2 a
  | .place => s.place
  | .reopen => s.reopen a
  | .read => s.readSegment a
  | .loadNext => s.loadNext a

/-- `use_offset_seq`, as `HLS_read_header` sets it from the lists of the variants that could be parsed: do they number
    their segments so differently? -/
def offsetSeq (streamNb : Nat) (stream : Nat → Variant) : Bool :=
  ((List.range streamNb).foldl
    (fun (r : Bool × Nat × Int) i =>
      let v := stream i
      let minNb := if i = 0 ∨ v.segments.length < r.2.1 then v.segments.length else r.2.1
      if v.isParsed then
        let apart : Int := int32 (int32 (r.2.2 - v.segStart)).natAbs
        (r.1 || decide (0 < i ∧ 1 < minNb ∧ (minNb : Int) - 1 ≤ apart ∧ v.finished = false), minNb, v.segStart)
      else r)
    (false, 0, 0)).1

/-- Behind `HLS_read_header`: the first segment of `hls_stream[0]` is the current one. -/
def start (streamNb : Nat) (stream : Nat → Variant) (useOffsetSeq hicache : Bool) : State where
  label := .call
  needReload := false
  hasReload := false
  streamNb := streamNb
  stream := stream
  curHls := 0
  curSeg := (stream 0).segments[0]?.map (fun k => ⟨0, 0, k⟩)
  curStreamSeq := 0
  curSeqNum := 0
  useOffsetSeq := useOffsetSeq
  hicache := hicache
  input := false
  decrypt := none

/-! ## Sessions -/

/-- The subscript is in range. -/
def Event.InRange : Event → Prop
  | .subscript _ index nb => 0 ≤ index ∧ index < nb
  | _ => True

/-- The segments that were tried, in order. -/
def opened (es : List Event) : List Seat :=
  es.filterMap fun
    | .opens _ _ seat => some seat
    | _ => none

/-- The numbers of `hls_stream[0]` that were tried, in order, with the start of its list at the time. -/
def tried (es : List Event) : List (Int × Int) :=
  es.filterMap fun
    | .opens cur start _ => some (cur, start)
    | _ => none

end HiSTB.Hls.ReadData
