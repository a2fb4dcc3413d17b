import HiSTB.Hls.ReadData
import Mathlib.Algebra.Ring.Int.Defs

/-!
# `Hls.Seek` — seeks, and the I-frames at which segments are opened (`hls.c`)

`HLS_read_seek` looks for the segment that contains a target, from the front of the list of `hls_stream[0]`, or from the
back of the list that it loads anew where the file name has `servicetype=2`. From the front it also looks for an I-frame
of the segment, and leaves its number in the segment, for `hlsOpenSegment`. `hlsReadDataCb` takes the number out when as
many bytes were read as the I-frame has.

* `locate`, `chooseBackward`, `chooseForward` — the loops over the segments, and over the I-frames of one of them;
* `Session.readSeek` — `HLS_read_seek`; `none` where it reads outside of a list;
* `step` — seeks, and what `hlsReadDataCb` does between them.

The sums of `int64_t` and `time_t` are `Int`; they stay far below 64 bits. The number of a segment and the product for
the time of an I-frame are `int`s. `ts_rel` is one too, and it is less than `total_time`, which is an `int`. The target
is in milliseconds, after `av_rescale_rnd`. `cur_seg` is the place of a segment, and whether it was freed since: a list
that is read anew frees its segments. Left out: the packets, the flush of the demuxer, and the choice of the next
segment, which is in `Hls.ReadData`: here it is an input.
-/

namespace HiSTB.Hls.Seek

open ReadData (KeyType)
open Lib (int32 IsInt)

/-- `hls_iframe_t`. -/
structure Iframe where
  size : Int
  offsetPos : Int
  offsetTime : Int
  duration : Int
  deriving DecidableEq

/-- `hls_segment_t`. `iframe_cur_index` is `none` where it is `INT_MAX`. -/
structure Segment where
  keyType : KeyType
  totalTime : Int
  startTime : Int
  programTime : Int
  iframes : List Iframe
  iframeCurIndex : Option Nat
  deriving DecidableEq

/-- `hls_stream_info_t`. -/
structure Variant where
  segStart : Int
  segments : List Segment
  segCur : Int
  iframeOnly : Bool

/-- `cur_seg`. -/
structure Seat where
  stream : Nat
  pos : Nat
  freed : Bool
  deriving DecidableEq

/-- `HLSContext` with the demuxer of `hls_stream[0]`. `input` and `decrypt` say whether `seg_stream.input` and
    `IO_decrypt` are there. -/
structure Session where
  servicetype2 : Bool
  hicache : Bool
  stream : Nat → Variant
  curStreamSeq : Nat
  curHls : Nat
  curSeg : Option Seat
  curSeqNum : Int
  timeshiftStart : Int
  input : Bool
  decrypt : Bool
  offset : Int
  seekOffset : Int
  setOffset : Bool
  ptsOffset : Int
  lastTime : List Int
  lastOrgPts : List Int

/-- What `hlsParseM3U8` finds in a playlist. -/
structure Playlist where
  segStart : Int
  segments : List Segment

/-- What `hlsParseM3U8` does: it cannot open the list, it is broken off after the first line, or it returns 0. -/
inductive Parse
  | fails
  | breaks (p : Playlist)
  | reads (p : Playlist)

/-- The target, with `AVSEEK_FLAG_BYTE` and `AVSEEK_FLAG_BACKWARD`. -/
structure Target where
  timestamp : Int
  byte : Bool
  backward : Bool
  deriving DecidableEq

/-- What a seek returns: 0 or an error. -/
inductive Ret
  | success
  | error
  deriving DecidableEq

/-! ## The loops -/

/-- The durations of segments. -/
def duration (segs : List Segment) : Int := (segs.map Segment.totalTime).sum

/-- The segment that is found, and the time before it. -/
structure Hit where
  pos : Nat
  before : Int
  seg : Segment
  deriving DecidableEq

/-- The loop over the segments. -/
def locate (t : Int) : Int → List Segment → Option Hit
  | _, [] => none
  | pos, seg :: segs =>
    if pos ≤ t ∧ t < pos + seg.totalTime then some ⟨0, pos, seg⟩
    else (locate t (pos + seg.totalTime) segs).map (fun h => { h with pos := h.pos + 1 })

/-- The loop from the last segment. -/
def locateBack (t : Int) (segs : List Segment) : Option Hit :=
  (locate t 0 segs.reverse).map (fun h => { h with pos := segs.length - 1 - h.pos })

/-- `iframes[k]->offset_time`. -/
def Segment.offsetTime (seg : Segment) (k : Nat) : Int := ((seg.iframes[k]?).map Iframe.offsetTime).getD 0

/-- The loop over the I-frames from the last one, without the first one. -/
def chooseBackward (seg : Segment) (rel : Int) : Option Nat :=
  (List.range seg.iframes.length).reverse.find? (fun k => 0 < k ∧ seg.offsetTime k ≤ rel)

/-- The loop over the I-frames from the first one. -/
def chooseForward (seg : Segment) (rel : Int) : Option Nat :=
  (List.range seg.iframes.length).find? (fun k => rel ≤ seg.offsetTime k)

/-- The segment to play, the I-frame that is left in it, and the time of that in the segment. -/
structure Choice where
  pos : Nat
  iframe : Option Nat
  offsetTime : Int
  deriving DecidableEq

/-- The search for an I-frame in the segment that was found. -/
def choose (segs : List Segment) (h : Hit) (t : Target) : Choice :=
  if t.backward then
    match chooseBackward h.seg (t.timestamp - h.before) with
    | some k => ⟨h.pos, some k, h.seg.offsetTime k⟩
    | none => ⟨h.pos, none, 0⟩
  else
    match chooseForward h.seg (t.timestamp - h.before) with
    | some k => ⟨h.pos, some k, h.seg.offsetTime k⟩
    | none =>
      if h.pos + 1 < segs.length then ⟨h.pos + 1, none, 0⟩
      else if h.seg.iframes = [] then ⟨h.pos, none, 0⟩
      else ⟨h.pos, some (h.seg.iframes.length - 1), h.seg.offsetTime (h.seg.iframes.length - 1)⟩

/-- The number of the I-frame is left in the segment. -/
def leave (segs : List Segment) (c : Choice) : List Segment :=
  match c.iframe with
  | none => segs
  | some k => segs.modify c.pos (fun seg => { seg with iframeCurIndex := some k })

/-! ## The seek -/

/-- A segment as `hlsParseM3U8` makes it. -/
def Segment.fresh (seg : Segment) : Segment := { seg with iframes := [], iframeCurIndex := none }

namespace Session

variable (s : Session)

/-- A variant changes. -/
def set (i : Nat) (v : Variant) : Session := { s with stream := Function.update s.stream i v }

/-- The list of a variant is freed and read anew. -/
def load (i : Nat) (p : Playlist) : Session :=
  { s.set i { s.stream i with segStart := p.segStart, segments := p.segments.map Segment.fresh } with
    curSeg := s.curSeg.map (fun seat => if seat.stream = i then { seat with freed := true } else seat) }

/-- `hlsParseM3U8`, and whether it returns 0. -/
def hlsParseM3U8 (i : Nat) : Parse → Session × Bool
  | .fails => (s, false)
  | .breaks p => (s.load i p, false)
  | .reads p => (s.load i p, true)

/-- "Reset reading". -/
def resetReading : Session :=
  { s with
    decrypt := false
    input := false
    offset := if s.decrypt = false ∧ s.input = true then 0 else s.offset
    seekOffset := 0 }

/-- The position, with "set flag to update pts offset time". -/
def found (j : Int) (seekOffset : Int) : Session :=
  { s.set 0 { s.stream 0 with segCur := int32 ((s.stream 0).segStart + j) } with
    setOffset := false, ptsOffset := 0, lastTime := s.lastTime.map (fun _ => 0), seekOffset := seekOffset }

/-- The time stamps read last are forgotten. -/
def flush : Session := { s with lastOrgPts := s.lastOrgPts.map (fun _ => 0) }

/-- `cur_seg = hls->seg_list.segments[j]`, of the current variant. -/
def settle (j : Nat) : Option (Session × Ret) :=
  if j < (s.stream s.curStreamSeq).segments.length then
    some ({ s with curSeg := some ⟨s.curStreamSeq, j, false⟩, curHls := s.curStreamSeq, curSeqNum := j }, .success)
  else none

/-- The number of an I-frame is left in a segment of `hls_stream[0]`. -/
def leaveIframe (c : Choice) : Session := s.set 0 { s.stream 0 with segments := leave (s.stream 0).segments c }

/-- The search from the front. -/
def seekFront (t : Target) : Option (Session × Ret) :=
  let segs := (s.stream 0).segments
  match locate t.timestamp 0 segs with
  | some h =>
    let c := choose segs h t
    (segs[c.pos]?).bind (fun seg =>
      ((s.leaveIframe c).found c.pos (int32 (90 * c.offsetTime) + 90 * seg.startTime)).flush.settle c.pos)
  | none =>
    if duration segs ≤ t.timestamp then
      some ({ (s.found segs.length 0).flush with curSeg := none, curSeqNum := segs.length }, .success)
    else some (s.flush, .error)

/-- The search from the back. -/
def seekBack (t : Target) (p : Parse) : Option (Session × Ret) :=
  let r := s.hlsParseM3U8 0 p
  let segs := (r.1.stream 0).segments
  -- the log reads the last segment
  if segs = [] then none
  else
    match locateBack t.timestamp segs with
    | some h => (r.1.found h.pos (90 * 1000 * (h.seg.programTime - r.1.timeshiftStart))).flush.settle h.pos
    | none =>
      -- `ret` is 0 where the list was read, and the subscript of `cur_seg` is -1 then
      if r.2 then none else some (r.1.flush, .error)

/-- `HLS_read_seek`. -/
def readSeek (t : Target) (p : Parse) : Option (Session × Ret) :=
  if t.byte then some (s, .error)
  else if s.servicetype2 then s.resetReading.seekBack t p
  else s.resetReading.seekFront t

end Session

/-! ## Between the seeks -/

/-- What is asked for, and what `hlsReadDataCb` does. -/
inductive Input
  | seek (t : Target) (p : Parse)
  /-- Another variant is the current one. -/
  | adjust (stream : Nat)
  /-- `cur_seg` is set. -/
  | place (stream pos : Nat)
  /-- `hlsOpenSegment`, and whether it succeeds. -/
  | opens (ok : Bool)
  /-- Bytes, or the end of the segment. -/
  | read (bytes : Option Nat)
  /-- A list is read anew. -/
  | load (stream : Nat) (p : Parse)
  /-- An I-frame list is read, with or without `#EXT-X-I-FRAMES-ONLY`: I-frames are added to the segments. -/
  | iframes (stream : Nat) (more : Nat → List Iframe) (only : Bool)

/-- Where a seek got, and where it was to get: the segment, and `seek_offset`. The I-frame a segment was opened at, and
    the one it was to be opened at; 0 is the beginning. -/
inductive Event
  | sought (got want : Nat × Int)
  | opened (got want : Nat)
  deriving DecidableEq

/-- The session, and the I-frame the next segment is to be opened at; `none` where no segment is to be opened. -/
structure Play where
  session : Session
  due : Option Nat

/-- The segment and the I-frame a seek has to get to: backward, the last one that is not behind the target; forward, the
    first one that is not before it, or the next segment. -/
def wanted (segs : List Segment) (h : Hit) (t : Target) : Nat × Nat :=
  let ks := List.range h.seg.iframes.length
  if t.backward then (h.pos, ((ks.filter (fun k => h.seg.offsetTime k ≤ t.timestamp - h.before)).getLast?).getD 0)
  else
    match ks.find? (fun k => t.timestamp - h.before ≤ h.seg.offsetTime k) with
    | some k => (h.pos, k)
    | none => if h.pos + 1 < segs.length then (h.pos + 1, 0) else (h.pos, h.seg.iframes.length - 1)

/-- `seek_offset` for the segment and the I-frame. -/
def wantedOffset (segs : List Segment) (h : Hit) (w : Nat × Nat) : Int :=
  90 * (((segs[w.1]?).map Segment.startTime).getD 0 + if w.1 = h.pos then h.seg.offsetTime w.2 else 0)

namespace Session

variable (s : Session)

/-- The segment `cur_seg` points to. -/
def current : Option Segment :=
  s.curSeg.bind (fun seat => if seat.freed then none else (s.stream seat.stream).segments[seat.pos]?)

/-- The current segment changes. -/
def modifyCurrent (f : Segment → Segment) : Session :=
  match s.curSeg with
  | none => s
  | some seat =>
    s.set seat.stream { s.stream seat.stream with segments := (s.stream seat.stream).segments.modify seat.pos f }

/-- Is a segment opened at its I-frame? -/
def atIframe (seg : Segment) : Bool := (s.stream 0).iframeOnly && !s.hicache && decide (seg.keyType = .none)

/-- Where `hlsOpenSegment` opens a segment. -/
def openIndex (seg : Segment) : Nat :=
  match seg.iframeCurIndex with
  | none => 0
  | some k => if s.atIframe seg ∧ k < seg.iframes.length then k else 0

/-- A read takes the number of an I-frame out where enough bytes were read. -/
def takeOut (offset : Int) (seg : Segment) : Segment :=
  match seg.iframeCurIndex with
  | none => seg
  | some k => if ((seg.iframes[k]?).any (fun f => f.size ≤ offset)) then { seg with iframeCurIndex := none } else seg

/-- Bytes were read, or the segment is closed. -/
def advance : Option Nat → Session
  | some n => { s with offset := if s.decrypt then s.offset else s.offset + n }
  | none => { s with input := false, decrypt := false, offset := if s.decrypt then s.offset else 0 }

/-- What a seek is to do, where it is in a segment whose I-frames start with the segment. -/
def soughtEvents (t : Target) (s' : Session) : List Event :=
  let segs := (s.stream 0).segments
  if t.byte ∨ s.servicetype2 then []
  else
    match locate t.timestamp 0 segs with
    | none => []
    | some h =>
      if h.seg.iframes ≠ [] ∧ h.seg.offsetTime 0 = 0 then
        [.sought (((s'.curSeg).map Seat.pos).getD 0, s'.seekOffset)
          ((wanted segs h t).1, wantedOffset segs h (wanted segs h t))]
      else []

/-- The I-frame a seek makes due. -/
def dueAfter (t : Target) : Nat :=
  let segs := (s.stream 0).segments
  if s.servicetype2 then 0 else ((locate t.timestamp 0 segs).map (fun h => (wanted segs h t).2)).getD 0

end Session

/-- One step. -/
def step (x : Play) : Input → Option (Play × List Event)
  | .seek t p =>
    (x.session.readSeek t p).map (fun r =>
      match r.2 with
      | .error => (⟨r.1, if t.byte then x.due else some (x.due.getD 0)⟩, [])
      | .success =>
        (⟨r.1, if r.1.curSeg = none then none else some (x.session.dueAfter t)⟩, x.session.soughtEvents t r.1))
  | .adjust i => some (⟨{ x.session with curStreamSeq := i, curHls := i }, x.due⟩, [])
  | .place i pos =>
    let s := x.session
    if s.input = true ∨ (s.stream i).segments.length ≤ pos then none
    else
      let again := (s.curSeg.map (fun seat => (seat.stream, seat.pos))) = some (i, pos)
      some (⟨{ s with curSeg := some ⟨i, pos, false⟩, curHls := i, curStreamSeq := i, curSeqNum := pos },
        some (if again then x.due.getD 0 else 0)⟩, [])
  | .opens ok =>
    match x.session.current, x.due with
    | some seg, some k =>
      if x.session.input then none
      else
        let s := { x.session with
          -- without the memory for it, there is no `IO_decrypt`
          input := ok, decrypt := if seg.keyType = .aes128 then ok else x.session.decrypt,
          offset := if seg.keyType = .none then 0 else x.session.offset }
        if ok then some (⟨s, none⟩, [.opened (x.session.openIndex seg) k]) else some (⟨s, some k⟩, [])
    | _, _ => none
  | .read bytes =>
    if x.session.input then
      if x.session.decrypt then some (⟨x.session.advance bytes, x.due⟩, [])
      else if x.session.current = none then none
      else some (⟨(x.session.modifyCurrent (Session.takeOut x.session.offset)).advance bytes, x.due⟩, [])
    else none
  | .load i p => some (⟨(x.session.hlsParseM3U8 i p).1, x.due⟩, [])
  | .iframes i more only =>
    let v := x.session.stream i
    some (⟨x.session.set i
      { v with
        segments := v.segments.mapIdx (fun k seg => { seg with iframes := seg.iframes ++ more k })
        iframeOnly := v.iframeOnly || only }, x.due⟩, [])

end HiSTB.Hls.Seek
