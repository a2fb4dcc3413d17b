import HiSTB.Lib.Run
import HiSTB.Rtpfec.Context

/-!
# `Rtpfec.Read` — the loop of `rtpfec_read`

One round of the loop is one step. Where the source returns to its caller the step ends in the state left
behind, and the next call of `rtpfec_read` goes on from there, so a run of the reader is any sequence of
rounds. What a round gets from outside is its `Input`: what the two packet queues deliver, what
`ff_rtp_parse_packet` does with the buffer it is given, the contents of uninitialised memory, and what lies around
the slots. The output queue `ts_queue` decides only when the loop stops and is left out.
-/

namespace HiSTB.Rtpfec

open Fec Lib

/-! ## `_rtpfec_get_fecpkt` -/

/-- The fields of a parity packet. -/
structure FecHeader where
  rtpSeqStart : Int
  rtpSeqEnd : Int
  rtpNum : Nat
  fecNum : Nat
  fecSeq : Nat
  decLen : Nat

/-- The header fields, unchecked. -/
def readFecHeader (pkt : Packet) : FecHeader where
  rtpSeqStart := avRb16 pkt.data 12
  rtpSeqEnd := avRb16 pkt.data 14
  rtpNum := ((avRb16 pkt.data 14 + 1 - avRb16 pkt.data 12) % 0x10000).toNat
  fecNum := avRb8 pkt.data 16
  fecSeq := avRb8 pkt.data 17
  decLen := (avRb16 pkt.data 20).toNat

/-- The checks of `_rtpfec_get_fecpkt`; `none` where it drops the packet and returns `-1`. -/
def fecHeader (s : RTPFECContext) (pkt : Packet) : Option FecHeader :=
  let h := readFecHeader pkt
  if 12 + 12 ≥ pkt.dataSize then none
  else if 255 < h.rtpNum ∨ (s.haveFec ∧ h.rtpNum ≠ s.rtpPktNum) then none
  else if 20 < h.fecNum ∨ (s.haveFec ∧ h.fecNum ≠ s.fecPktNum) then none
  else if h.fecNum ≤ h.fecSeq then none
  else some h

/-- The context takes over the geometry of the first parity packet. -/
def adoptGeometry (s : RTPFECContext) (h : FecHeader) : RTPFECContext :=
  { s with haveFec := true, fecDecLen := h.decLen, rtpPktNum := h.rtpNum, fecPktNum := h.fecNum }

/-- `_rtpfec_get_fecpkt` after the header was accepted. -/
def acceptFecpkt (s : RTPFECContext) (pkt : Packet) (h : FecHeader) : Outcome :=
  if s.haveFec then
    let o := groupFecpktIn s pkt h.rtpSeqStart h.fecSeq
    { o with events := .insertCall s.groupDone.isSome :: o.events }
  else
    let a := adoptGeometry s h
    -- `_rtpfec_group_free(s->GroupDownLoading)` leaves the pointer in place
    let freed : List Event := if a.groupDownLoading.isSome then [.groupFree] else []
    let c := createGroupDownloading a ((h.rtpSeqEnd + 1) % 0x10000)
    if c.2 ≠ 0 then ⟨c.1, c.2, freed⟩
    else
      let o := groupFecpktIn c.1 pkt h.rtpSeqStart h.fecSeq
      { o with events := freed ++ .insertCall c.1.groupDone.isSome :: o.events }

/-- `_rtpfec_get_fecpkt`, given what `fec_queue` delivers. -/
def getFecpkt (s : RTPFECContext) (fecpkt : Option Packet) : Outcome :=
  match fecpkt with
  | none => ⟨s, 0, []⟩
  | some pkt =>
    if s.rtpSeqLost = false then ⟨s, 0, []⟩
    else
      match fecHeader s pkt with
      | none => ⟨s, -1, []⟩
      | some h => acceptFecpkt s pkt h

/-! ## `_rtpfec_check_miss` -/

/-- Local variables of `_rtpfec_check_miss`. -/
structure Miss where
  needDec : Bool
  lostPktCount : Nat
  lostPktIdx : Nat → Nat
  lostFecCount : Nat

/-- Body of the loop over the RTP packets; `none` is `return 0`. -/
def rtpMiss (s : RTPFECContext) (lostMap : Nat → Int) (t : Miss) (i : Nat) : Option Miss :=
  if lostMap i = 0 then
    if (t.lostPktCount : Int) ≥ s.fecPktNum - 1 then none
    else
      some
        { t with
          needDec := true
          lostPktIdx := Function.update t.lostPktIdx t.lostPktCount i
          lostPktCount := t.lostPktCount + 1 }
  else some t

/-- Body of the loop over the parity packets; `none` is `return 0`. -/
def fecMiss (s : RTPFECContext) (lostMap : Nat → Int) (t : Miss) (i : Nat) : Option Miss :=
  if lostMap (s.rtpPktNum + i) = 0 then
    if ((t.lostPktCount + (t.lostFecCount + 1) : Nat) : Int) ≥ s.fecPktNum - 1 then none
    else some { t with lostFecCount := t.lostFecCount + 1 }
  else some t

/-- Both loops over `lost_map`. -/
def missLoops (s : RTPFECContext) (lostMap : Nat → Int) : Option Miss :=
  (forRangeM s.rtpPktNum (rtpMiss s lostMap)
      { needDec := false, lostPktCount := 0, lostPktIdx := fun _ => 0, lostFecCount := 0 }).bind
    (fun t => forRangeM s.fecPktNum (fecMiss s lostMap) t)

/-- The lost packets get the length they are decoded to. -/
def setLostLen (s : RTPFECContext) (g : RTPFECPktGroup) (t : Miss) : RTPFECPktGroup :=
  { g with
    aPktRtpLen := forRange t.lostPktCount
      (fun len i => Function.update len (t.lostPktIdx i) s.fecDecLen) g.aPktRtpLen }

/-- `_rtpfec_check_miss`: the context and `need_dec`. -/
def checkMiss (s : RTPFECContext) : RTPFECContext × Bool :=
  match s.groupCheckMiss with
  | none => (s, false)
  | some g =>
    match missLoops s g.lostMap with
    | none => (s, false)
    | some t =>
      if t.needDec then ({ s with groupCheckMiss := some (setLostLen s g t) }, true) else (s, false)

/-! ## One round of the loop -/

/-- The reader's context, the codec object `p` of `extern_fec.cpp`, and whether the codec has ended the
    process with `exit(0)`. -/
structure State where
  ctx : RTPFECContext
  p : Option RSFec
  exited : Bool

/-- What `rtpfec_open` leaves behind. -/
def init : State where
  ctx :=
    { groupDone := none, groupCheckMiss := none, groupDownLoading := none, haveFec := false
      rtpSeqNext := -1, rtpSeqLost := false, checkCount := 0, fecInit := false, fecDecLen := 0
      rtpPktNum := 0, fecPktNum := 0 }
  p := none
  exited := false

/-- What one round gets from outside: the packets the queues deliver (`none` when they have none), whether
    `ff_rtp_parse_packet` keeps the buffer, the uninitialised memory of `fec_decode`, and what lies around the slots. -/
structure Input where
  fecpkt : Option Packet
  rtppkt : Option Packet
  parseKeeps : Bool
  heap : Rows
  around : Around

/-- The slots of `len` bytes as they are read, with the bytes behind them. -/
def slotRows (behind : Rows) (len : Nat) (a : Nat → Option (Nat → BYTE)) : Rows :=
  fun i => ((a i).map (fun row => memcpy (behind i) row len)).getD (fun _ => 0)

/-- The geometry of the codec object. -/
def codecGeometry (p : RSFec) : Geometry := ⟨p.dataPktNum, p.fecPktNum, p.dataLen⟩

/-- `fec_init_adp` unless it was done before. -/
def initCodec (s : State) : State :=
  if s.ctx.fecInit then s
  else
    match Fec.fecInit s.ctx.rtpPktNum s.ctx.fecPktNum s.ctx.fecDecLen with
    | none => { s with exited := true }
    | some p => { s with ctx := { s.ctx with fecInit := true }, p := some p }

/-- Write `n` bytes into slot `i`, as far as the slot goes. -/
def RTPFECPktGroup.writeSlot (g : RTPFECPktGroup) (i : Nat) (src : Nat → BYTE) (n : Nat) : RTPFECPktGroup :=
  { g with
    paPktRtp := Function.update g.paPktRtp i
      ((g.paPktRtp i).map (fun row => memcpy row src (min n g.slotLen))) }

/-- `fec_decode` rebuilds packet `i` in its slot of `GroupCheckMiss`. -/
def rebuildSlot (a : Around) (p : RSFec) (lostMap : Nat → Int) (out : Rows) (s : RTPFECContext) (i : Nat) :
    RTPFECContext :=
  match s.groupCheckMiss with
  | none => s
  | some g =>
    if lostMap i = 1 then s
    else
      RTPFECContext.spill { s with groupCheckMiss := some (g.writeSlot i (out i) p.dataLen) } (a.past i) (out i)
        g.slotLen p.dataLen

/-- `fec_decode_adp` on `GroupCheckMiss`, which then becomes `GroupDone`. The lost packets are written one after the
    other, with the codec's own number of packets and length. -/
def decodeCheckMiss (a : Around) (s : State) (heap : Rows) : State :=
  match s.p, s.ctx.groupCheckMiss with
  | some p, some g =>
    match fecDecode p heap (slotRows a.rtp g.slotLen g.paPktRtp) (slotRows a.fec g.slotLen g.paPktFec) g.lostMap with
    | none => { s with exited := true }
    | some out =>
      { s with ctx := (groupCheckmissToDone (forRange p.dataPktNum (rebuildSlot a p g.lostMap out) s.ctx)).1 }
  | _, _ => s

/-- The branch of the loop that checks `GroupCheckMiss`. -/
def checkMissRound (a : Around) (s : State) (heap : Rows) : State × List Event :=
  let r := checkMiss s.ctx
  if r.2 then
    let t := initCodec { s with ctx := r.1 }
    if t.exited then (t, [])
    else (decodeCheckMiss a t heap, [.fecDecodeAdp (t.p.map codecGeometry) t.ctx.geometry])
  else ({ s with ctx := (groupCheckmissToDone r.1).1 }, [])

/-- The branch of the loop for a context with FEC: one RTP packet goes into a group. -/
def rtpRound (a : Around) (s : RTPFECContext) (rtppkt : Option Packet) : RTPFECContext × List Event :=
  match rtppkt with
  | none => (s, [])
  | some pkt =>
    let o := groupRtppktIn a { s with checkCount := s.checkCount + 1 } pkt (rtpSeq pkt)
    (o.ctx, .insertCall s.groupDone.isSome :: o.events)

/-- The branch of the loop for a context without FEC: look for the first gap in the sequence numbers. -/
def noFecRound (s : RTPFECContext) (rtppkt : Option Packet) : RTPFECContext :=
  match rtppkt with
  | none => s
  | some pkt =>
    if s.rtpSeqLost = false then
      { s with
        rtpSeqLost := decide (s.rtpSeqNext ≠ -1 ∧ s.rtpSeqNext ≠ rtpSeq pkt)
        rtpSeqNext := (rtpSeq pkt + 1) % 0x10000 }
    else s

/-- The payload handed to `ff_rtp_parse_packet` for a slot, if there is one: `aPktRtpLen` bytes, also where the slot
    is shorter. -/
def RTPFECPktGroup.payload (g : RTPFECPktGroup) (behind : Rows) (slot : Nat) : Option Packet :=
  if 0 < g.aPktRtpLen slot then
    (g.paPktRtp slot).map (fun row => ⟨memcpy (behind slot) row g.slotLen, g.aPktRtpLen slot⟩)
  else none

/-- The slot is given up when the parser keeps its buffer. -/
def RTPFECPktGroup.forget (g : RTPFECPktGroup) (slot : Nat) : RTPFECPktGroup :=
  { g with
    paPktRtp := Function.update g.paPktRtp slot none
    aPktRtpLen := Function.update g.aPktRtpLen slot 0 }

/-- The branch of the loop that reads out `GroupDone`. -/
def doneRound (behind : Rows) (s : RTPFECContext) (g : RTPFECPktGroup) (parseKeeps : Bool) :
    RTPFECContext × List Event :=
  if g.pktReadPos ≥ s.rtpPktNum then ({ s with groupDone := none }, [])
  else
    let slot := g.pktReadPos
    let payload := g.payload behind slot
    let g := if payload.isSome ∧ parseKeeps then g.forget slot else g
    ({ s with groupDone := some { g with pktReadPos := g.pktReadPos + 1 } },
      [.visit g.rtpSeqStart slot (decide (g.lostMap slot = 1)) payload])

/-- The loop body after `_rtpfec_get_fecpkt` returned 0. -/
def packetRound (s : State) (i : Input) : State × List Event :=
  if s.ctx.haveFec then
    if s.ctx.groupCheckMiss.isSome ∧ 10 < s.ctx.checkCount then checkMissRound i.around s i.heap
    else
      let r := rtpRound i.around s.ctx i.rtppkt
      ({ s with ctx := r.1 }, r.2)
  else ({ s with ctx := noFecRound s.ctx i.rtppkt }, [])

/-- The loop body when `GroupDone` is empty and `GroupCheckMiss` need not be flushed. -/
def fecpktRound (s : State) (i : Input) : State × List Event :=
  let o := getFecpkt s.ctx i.fecpkt
  if o.ret ≠ 0 then ({ s with ctx := o.ctx }, o.events)
  else
    let r := packetRound { s with ctx := o.ctx } i
    (r.1, o.events ++ r.2)

/-- One round of the loop of `rtpfec_read`. -/
def round (s : State) (i : Input) : State × List Event :=
  match s.ctx.groupDone with
  | some g =>
    let r := doneRound i.around.rtp s.ctx g i.parseKeeps
    ({ s with ctx := r.1 }, r.2)
  | none =>
    if s.ctx.haveFec = false ∧ s.ctx.groupCheckMiss.isSome then
      ({ s with ctx := (groupCheckmissToDone s.ctx).1 }, [])
    else fecpktRound s i

/-- **The reader as a machine**: rounds, until the codec ends the process. -/
def step (s : State) (i : Input) : Option (State × List Event) :=
  if s.exited then none else some (round s i)

/-- Runs of the reader from `rtpfec_open` on. -/
abbrev ReadRun (is : List Input) (s : State) (es : List Event) : Prop := Run step always init is s es

end HiSTB.Rtpfec
