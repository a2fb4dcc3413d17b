import HiSTB.Lib.Run
import Mathlib.Logic.Function.Basic

/-!
# `Hls.Packet` — the time stamps of the packets (`HLS_read_packet`)

The segments of a playlist may come from timelines of their own. `HLS_read_packet` adds an offset to the time stamps, so
that they go on where the last ones ended: one offset for all the elementary streams, while the time stamps returned
last and those read last are kept for each stream.

* `calculateOffset` — is the offset renewed for the packet that was read?
* `returnPacket` — the packet is returned with the offset;
* `Session`, `step` — one call after another, with what was read and returned last.

Only the first list is played, so its demuxer is the whole state. `none` is `AV_NOPTS_VALUE`; other time stamps are
`Int` (they have 33 bits, and a sum of 64 bits takes billions of jumps), and `llabs` is `Int.natAbs`. Streams are added
to the session before their first packet goes on, with 0 as the time stamps of the past. Left out: the ends of the
segments, the seek, and `discontinue_pts`, which nothing reads.
-/

namespace HiSTB.Hls

/-- `DISCONTINUE_MAX_TIME`. -/
abbrev discontinueMaxTime : Nat := 90000 * 3

/-- `AVPacket`, and whether the codec type of its stream is known. -/
structure Packet where
  streamIndex : Nat
  pts : Option Int
  dts : Option Int
  known : Bool
  deriving DecidableEq

/-- `seg_demux`. -/
structure SegDemux where
  lastTime : Nat → Int
  lastOrgPts : Nat → Int
  ptsOffset : Int
  setOffset : Bool
  seekOffset : Int

/-- "Cacaulate pts offset to make pts continuously". -/
def calculateOffset (s : SegDemux) (pkt : Packet) : SegDemux :=
  match pkt.dts with
  | none => s
  | some dts =>
    if pkt.known then
      let diff := s.lastTime pkt.streamIndex - (dts + s.ptsOffset)
      let s := if Int.natAbs diff ≥ discontinueMaxTime then { s with setOffset := false } else s
      if !s.setOffset then
        if Int.natAbs (dts - s.lastOrgPts pkt.streamIndex) ≥ discontinueMaxTime then
          { s with setOffset := true, ptsOffset := s.lastTime pkt.streamIndex - dts }
        else { s with setOffset := true }
      else s
    else s

/-- "If we got a packet, return it"; whether the playlist is finished. -/
def returnPacket (s : SegDemux) (pkt : Packet) (hlsFinished : Bool) : SegDemux × Packet :=
  let i := pkt.streamIndex
  let s :=
    match pkt.pts with
    | some pts => { s with lastOrgPts := Function.update s.lastOrgPts i pts }
    | none => s
  if s.setOffset then
    let r :=
      match pkt.pts with
      | some pts =>
        let pts := pts + s.ptsOffset
        let s := if pts > s.lastTime i ∨ hlsFinished then { s with lastTime := Function.update s.lastTime i pts } else s
        (s, some (pts + s.seekOffset))
      | none => (s, none)
    (r.1, { pkt with pts := r.2, dts := pkt.dts.map (fun dts => dts + s.ptsOffset + s.seekOffset) })
  else (s, pkt)

/-- `HLS_read_packet`, for the packet that `av_read_frame` gives. -/
def readPacket (s : SegDemux) (pkt : Packet) (hlsFinished : Bool) : SegDemux × Packet :=
  returnPacket (calculateOffset s pkt) pkt hlsFinished

/-! ## Sessions -/

/-- The timeline of a packet. -/
inductive Timeline
  | old
  | new
  deriving DecidableEq

/-- A packet with one time stamp, on a timeline. -/
structure Input where
  streamIndex : Nat
  time : Int
  timeline : Timeline
  hlsFinished : Bool

/-- The last packet of a stream, as it was read and as it was returned. -/
structure Past where
  timeline : Timeline
  time : Int
  returned : Option Int
  hlsFinished : Bool

/-- The demuxer. `last` and `current` are not in the source: they say what the session has returned, and the timeline of
    the last packet. -/
structure Session where
  demux : SegDemux
  last : Nat → Option Past
  current : Option Timeline

def Input.packet (i : Input) : Packet := ⟨i.streamIndex, some i.time, some i.time, true⟩

/-- One call. -/
def step (a : Session) (i : Input) : Option (Session × List Packet) :=
  let r := readPacket a.demux i.packet i.hlsFinished
  some (⟨r.1, Function.update a.last i.streamIndex (some ⟨i.timeline, i.time, r.2.pts, i.hlsFinished⟩),
    some i.timeline⟩,
    [r.2])

/-- Behind `HLS_read_header`. -/
def start (seekOffset : Int) : Session := ⟨⟨fun _ => 0, fun _ => 0, 0, false, seekOffset⟩, fun _ => none, none⟩

end HiSTB.Hls
