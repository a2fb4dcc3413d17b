import HiSTB.Fec.Codec

/-!
# `Rtpfec.Context` — packet groups of the RTP-FEC reader and how they are handed on

`rtpfecproto.c` collects RTP packets into groups of `rtp_pkt_num` consecutive sequence numbers with
`fec_pkt_num` parity packets. Three owners hold at most one group each: `GroupDownLoading` is being filled,
`GroupCheckMiss` still accepts late packets, `GroupDone` is being read out. This module has the data model,
the transitions between the owners, and the two functions that put a packet into a group.

Allocations succeed. A slot has the `fec_dec_len` bytes that `av_mallocz` was asked for, and no copy compares its
length with that: what is written behind a slot lands in the bytes of other slots, wherever the allocator put them
(`Around`); the memory that is no slot is not modelled. A copy through a `NULL` slot pointer writes nothing. Sequence
numbers are `int`s in the source and `Int` here, with `x & 0xFFFF` written `x % 0x10000`. What a function does to the
outside, and the places a property speaks about, are recorded as `Event`s beside the statement that causes them.
-/

namespace HiSTB.Rtpfec

open Fec Lib

/-- `DataPacket`, as far as the reader uses it. -/
structure Packet where
  data : Nat → BYTE
  dataSize : Nat

/-- `AV_RB8`. -/
def avRb8 (data : Nat → BYTE) (off : Nat) : Nat := (data off).toNat

/-- `AV_RB16`: two bytes, big endian. -/
def avRb16 (data : Nat → BYTE) (off : Nat) : Int := (data off).toNat * 0x100 + (data (off + 1)).toNat

/-- `AV_RB16(rtppkt.data + 2)`: the sequence number of an RTP packet. -/
def rtpSeq (pkt : Packet) : Int := avRb16 pkt.data 2

/-- `RTPFECPktGroup`; `none` is a `NULL` slot pointer. `slotLen` is the size its slots were allocated with. -/
structure RTPFECPktGroup where
  slotLen : Nat
  paPktRtp : Nat → Option (Nat → BYTE)
  aPktRtpLen : Nat → Nat
  paPktFec : Nat → Option (Nat → BYTE)
  lostMap : Nat → Int
  pktReadPos : Nat
  rtpPktSize : Nat
  rtpSeqStart : Int
  rtpSeqEnd : Int
  seqReverse : Bool

/-- `RTPFECContext`, without the queues and connections. -/
structure RTPFECContext where
  groupDone : Option RTPFECPktGroup
  groupCheckMiss : Option RTPFECPktGroup
  groupDownLoading : Option RTPFECPktGroup
  haveFec : Bool
  rtpSeqNext : Int
  rtpSeqLost : Bool
  checkCount : Nat
  fecInit : Bool
  fecDecLen : Nat
  rtpPktNum : Nat
  fecPktNum : Nat

/-- `(data_pkt_num, fec_pkt_num, data_len)`. -/
structure Geometry where
  dataPktNum : Nat
  fecPktNum : Nat
  dataLen : Nat
  deriving DecidableEq

/-- The geometry the context works with. -/
def RTPFECContext.geometry (s : RTPFECContext) : Geometry := ⟨s.rtpPktNum, s.fecPktNum, s.fecDecLen⟩

/-- What a step shows. -/
inductive Event
  /-- A packet-insertion function is called; whether `GroupDone` is occupied. -/
  | insertCall (done : Bool)
  /-- An RTP packet is copied into slot `index` of the group at `start`. -/
  | putRtp (start : Int) (index : Nat) (pktseq : Int) (done : Bool)
  /-- A parity packet of the group at `pktseq` is copied into the group at `start`. -/
  | putFec (start : Int) (pktseq : Int) (fecSeq : Nat) (done : Bool)
  /-- A leftover `GroupDownLoading` is freed. -/
  | groupFree
  /-- `fec_decode_adp` is called: the last `fec_init_adp` geometry, the context's geometry. -/
  | fecDecodeAdp (codec : Option Geometry) (ctx : Geometry)
  /-- `pkt_read_pos` passes a slot of `GroupDone`; the payload when it is handed to
      `ff_rtp_parse_packet`, and whether `lost_map` says the packet was received. -/
  | visit (start : Int) (slot : Nat) (received : Bool) (payload : Option Packet)

/-- Result of a function that inserts a packet: context, return value, events. -/
structure Outcome where
  ctx : RTPFECContext
  ret : Int
  events : List Event

/-! ## The memory around the slots -/

/-- The owners of the groups. -/
inductive Owner
  | done
  | checkMiss
  | downLoading
  deriving DecidableEq

/-- One byte of a slot, for RTP or for parity packets. -/
structure Cell where
  owner : Owner
  fec : Bool
  slot : Nat
  offset : Nat

/-- What the allocator put around the slots: the byte of a slot, if it is one, that lies `n` bytes behind the end of
    RTP slot `i`, and the bytes that are read behind the slots. -/
structure Around where
  past : Nat → Nat → Option Cell
  rtp : Rows
  fec : Rows

/-- One byte is written at `c`; `a` are the slots of one kind of the group at `o`. -/
def pokeSlots (o : Owner) (fec : Bool) (c : Option Cell) (b : BYTE) (a : Nat → Option (Nat → BYTE)) :
    Nat → Option (Nat → BYTE) :=
  match c with
  | none => a
  | some c =>
    if c.owner = o ∧ c.fec = fec then
      Function.update a c.slot ((a c.slot).map (fun row => Function.update row c.offset b))
    else a

/-- What the bytes `src` from `len` up to `n` do to the slots of one group, when they are written from the end of a
    slot on. -/
def RTPFECPktGroup.spill (g : RTPFECPktGroup) (o : Owner) (past : Nat → Option Cell) (src : Nat → BYTE)
    (len n : Nat) : RTPFECPktGroup :=
  { g with
    paPktRtp := forRange (n - len) (fun a k => pokeSlots o false (past k) (src (len + k)) a) g.paPktRtp
    paPktFec := forRange (n - len) (fun a k => pokeSlots o true (past k) (src (len + k)) a) g.paPktFec }

/-- The part of a copy of `n` bytes that lies behind a slot of `len` bytes. -/
def RTPFECContext.spill (s : RTPFECContext) (past : Nat → Option Cell) (src : Nat → BYTE) (len n : Nat) :
    RTPFECContext :=
  { s with
    groupDone := s.groupDone.map (fun g => g.spill .done past src len n)
    groupCheckMiss := s.groupCheckMiss.map (fun g => g.spill .checkMiss past src len n)
    groupDownLoading := s.groupDownLoading.map (fun g => g.spill .downLoading past src len n) }

/-! ## Handing groups on -/

/-- `_rtpfec_group_checkmiss_to_done`. -/
def groupCheckmissToDone (s : RTPFECContext) : RTPFECContext × Int :=
  if s.groupDone.isSome then (s, -1)
  else ({ s with groupDone := s.groupCheckMiss, groupCheckMiss := none }, 0)

/-- A group with zeroed slots: `rtp_pkt_num` of them for RTP, `fec_pkt_num` for parity packets. -/
def newGroup (s : RTPFECContext) (seqStart : Int) : RTPFECPktGroup where
  slotLen := s.fecDecLen
  paPktRtp := fun i => if i < s.rtpPktNum then some (fun _ => 0) else none
  aPktRtpLen := fun _ => 0
  paPktFec := fun i => if i < s.fecPktNum then some (fun _ => 0) else none
  lostMap := fun _ => 0
  pktReadPos := 0
  rtpPktSize := 0
  rtpSeqStart := seqStart
  rtpSeqEnd := (seqStart + s.rtpPktNum - 1) % 0x10000
  seqReverse := decide ((seqStart + s.rtpPktNum - 1) % 0x10000 < seqStart)

/-- `_rtpfec_create_group_downloading`. -/
def createGroupDownloading (s : RTPFECContext) (seqStart : Int) : RTPFECContext × Int :=
  if s.groupDownLoading.isSome then (s, 0)
  else ({ s with groupDownLoading := some (newGroup s seqStart) }, 0)

/-- `_rtpfec_group_downloading_to_checkmiss`. -/
def groupDownloadingToCheckmiss (s : RTPFECContext) : RTPFECContext × Int :=
  if s.groupCheckMiss.isSome then (s, -1)
  else ({ s with groupCheckMiss := s.groupDownLoading, groupDownLoading := none, checkCount := 0 }, 0)

/-! ## Putting packets into groups -/

/-- `_rtpfec_get_index`: the slot of `seqTarget` in a range that may wrap at `seqOver + 1`, or `-1`. -/
def getIndex (seqStart seqEnd seqTarget seqOver : Int) : Int :=
  if seqEnd < seqStart then
    if seqTarget ≥ seqStart then seqTarget - seqStart
    else if seqTarget ≤ seqEnd then seqOver + 1 + seqTarget - seqStart
    else -1
  else if seqTarget ≥ seqStart ∧ seqTarget ≤ seqEnd then seqTarget - seqStart
  else -1

/-- Copy an RTP packet into slot `index`, as far as the slot goes. -/
def RTPFECPktGroup.putRtp (g : RTPFECPktGroup) (index : Nat) (pkt : Packet) : RTPFECPktGroup :=
  { g with
    paPktRtp := Function.update g.paPktRtp index
      ((g.paPktRtp index).map (fun row => memcpy row pkt.data (min pkt.dataSize g.slotLen)))
    aPktRtpLen := Function.update g.aPktRtpLen index pkt.dataSize
    lostMap := Function.update g.lostMap index 1
    rtpPktSize := if pkt.dataSize > g.rtpPktSize then pkt.dataSize else g.rtpPktSize }

/-- Copy the `fec_dec_len` bytes after the headers into parity slot `fecSeq`; the slots of the groups that take packets
    have that many bytes. -/
def RTPFECPktGroup.putFec (g : RTPFECPktGroup) (s : RTPFECContext) (fecSeq : Nat) (pkt : Packet) :
    RTPFECPktGroup :=
  { g with
    paPktFec := Function.update g.paPktFec fecSeq
      ((g.paPktFec fecSeq).map (fun row => memcpy row (fun r => pkt.data (24 + r)) s.fecDecLen))
    lostMap := Function.update g.lostMap (s.rtpPktNum + fecSeq) 1 }

/-- The copy into `GroupCheckMiss`, with all that it writes. -/
def putRtpCheckMiss (a : Around) (s : RTPFECContext) (g : RTPFECPktGroup) (index : Nat) (pkt : Packet)
    (pktseq : Int) : Outcome :=
  ⟨RTPFECContext.spill { s with groupCheckMiss := some (g.putRtp index pkt) } (a.past index) pkt.data g.slotLen
      pkt.dataSize, 0,
    [.putRtp g.rtpSeqStart index pktseq s.groupDone.isSome]⟩

/-- The copy into `GroupDownLoading`. -/
def putRtpDownLoading (a : Around) (s : RTPFECContext) (index : Nat) (pkt : Packet) (pktseq : Int) : Outcome :=
  match s.groupDownLoading with
  | none => ⟨s, 0, []⟩
  | some g =>
    ⟨RTPFECContext.spill { s with groupDownLoading := some (g.putRtp index pkt) } (a.past index) pkt.data g.slotLen
        pkt.dataSize, 0,
      [.putRtp g.rtpSeqStart index pktseq s.groupDone.isSome]⟩

/-- `if (s->GroupCheckMiss) _rtpfec_group_checkmiss_to_done(s);`, the return value unused. -/
def flushCheckMiss (s : RTPFECContext) : RTPFECContext :=
  if s.groupCheckMiss.isSome then (groupCheckmissToDone s).1 else s

/-- `(s->GroupCheckMiss->rtp_seq_end + 1) & 0xFFFF`. -/
def afterCheckMiss (s : RTPFECContext) : Int :=
  match s.groupCheckMiss with
  | none => 0
  | some g => (g.rtpSeqEnd + 1) % 0x10000

/-- The part of `_rtpfec_group_rtppkt_in` for a packet of the group after `GroupDownLoading`. -/
def rtppktInNext (a : Around) (s : RTPFECContext) (index : Nat) (pkt : Packet) (pktseq : Int) : Outcome :=
  let r := groupDownloadingToCheckmiss (flushCheckMiss s)
  if r.2 ≠ 0 then ⟨r.1, r.2, []⟩
  else
    let c := createGroupDownloading r.1 (afterCheckMiss r.1)
    if c.2 ≠ 0 then ⟨c.1, c.2, []⟩ else putRtpDownLoading a c.1 index pkt pktseq

/-- The part of `_rtpfec_group_rtppkt_in` after `GroupCheckMiss` did not take the packet. -/
def rtppktInRest (a : Around) (s : RTPFECContext) (pkt : Packet) (pktseq : Int) : Outcome :=
  match s.groupDownLoading with
  | none => ⟨s, -1, []⟩
  | some g =>
    let next := getIndex ((g.rtpSeqEnd + 1) % 0x10000) ((g.rtpSeqEnd + s.rtpPktNum) % 0x10000) pktseq 0xFFFF
    if 0 ≤ next ∧ next < s.rtpPktNum then rtppktInNext a s next.toNat pkt pktseq
    else
      let index := getIndex g.rtpSeqStart g.rtpSeqEnd pktseq 0xFFFF
      if 0 ≤ index ∧ index < s.rtpPktNum then putRtpDownLoading a s index.toNat pkt pktseq
      else
        -- discontinuity: the packet is dropped and the context waits for a new first parity packet
        ⟨{ (groupDownloadingToCheckmiss (flushCheckMiss s)).1 with haveFec := false }, 0, []⟩

/-- `_rtpfec_group_rtppkt_in`. -/
def groupRtppktIn (a : Around) (s : RTPFECContext) (pkt : Packet) (pktseq : Int) : Outcome :=
  match s.groupCheckMiss with
  | none => rtppktInRest a s pkt pktseq
  | some g =>
    let index := getIndex g.rtpSeqStart g.rtpSeqEnd pktseq 0xFFFF
    if 0 ≤ index ∧ index < s.rtpPktNum then putRtpCheckMiss a s g index.toNat pkt pktseq
    else rtppktInRest a s pkt pktseq

/-- The copy of a parity packet into `GroupDownLoading`. -/
def putFecDownLoading (s : RTPFECContext) (pkt : Packet) (pktseq : Int) (fecSeq : Nat) : Outcome :=
  match s.groupDownLoading with
  | none => ⟨s, 0, []⟩
  | some g =>
    ⟨{ s with groupDownLoading := some (g.putFec s fecSeq pkt) }, 0,
      [.putFec g.rtpSeqStart pktseq fecSeq s.groupDone.isSome]⟩

/-- The part of `_rtpfec_group_fecpkt_in` after `GroupCheckMiss` did not take the packet. -/
def fecpktInRest (s : RTPFECContext) (pkt : Packet) (pktseq : Int) (fecSeq : Nat) : Outcome :=
  match s.groupDownLoading with
  | none => ⟨s, -1, []⟩
  | some g =>
    if pktseq = g.rtpSeqStart then putFecDownLoading s pkt pktseq fecSeq
    else if pktseq = (g.rtpSeqStart + s.rtpPktNum) % 0x10000 then
      -- the first return value is overwritten by the second
      let r := groupDownloadingToCheckmiss s
      let c := createGroupDownloading r.1 (afterCheckMiss r.1)
      if c.2 ≠ 0 then ⟨c.1, c.2, []⟩ else putFecDownLoading c.1 pkt pktseq fecSeq
    -- a packet of the group before, or a discontinuity: both are ignored
    else ⟨s, 0, []⟩

/-- `_rtpfec_group_fecpkt_in`. -/
def groupFecpktIn (s : RTPFECContext) (pkt : Packet) (pktseq : Int) (fecSeq : Nat) : Outcome :=
  match s.groupCheckMiss with
  | none => fecpktInRest s pkt pktseq fecSeq
  | some g =>
    if pktseq = g.rtpSeqStart then
      ⟨{ s with groupCheckMiss := some (g.putFec s fecSeq pkt) }, 0,
        [.putFec g.rtpSeqStart pktseq fecSeq s.groupDone.isSome]⟩
    else fecpktInRest s pkt pktseq fecSeq

end HiSTB.Rtpfec
