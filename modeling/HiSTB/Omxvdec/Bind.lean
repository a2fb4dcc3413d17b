import HiSTB.Omxvdec.Channel

/-!
# `Omxvdec.Bind` — the buffer tables of a channel (`channel.c`)

The user binds buffers to a channel and takes them away again. Each port has a table of the buffers bound to it.
A record of a table carries the link of the queues, as `last_frame` does: a queue leads through records, not
through buffers. An unbound buffer leaves a hole, into which the last record of the table is copied.

Each call runs alone here. A record that is overwritten or cleared while it is on a queue takes the queue's links
with it, and `list_add_tail` of a record that is on a queue breaks the queue; both give `none`. The kernel
mapping answers through an input.

Left out: the unmapping, the messages, the time records of the low-delay mode, `eos_recv_flag`, the saved
streams and the call that wakes the decoder. `LAST_FRAME_BUF_ID` and `HI_INVALID_PTS` are parameters, as the
repository does not define them.
-/

namespace HiSTB.Omxvdec.Bind

open Channel (BufState)

/-- `eBUFFER_TYPE`. -/
inductive BufferType
  | allocateUsr
  | useOther
  | useNative
  | allocateSecure
  | allocateDriver
  | butt
  deriving DecidableEq

/-- The two ports. -/
inductive Port
  | input
  | output
  deriving DecidableEq

/-- `ePORT_DIR`. -/
inductive PortDir
  | input
  | output
  | both
  deriving DecidableEq

/-- The port with a table. -/
def PortDir.port : PortDir → Option Port
  | .input => some .input
  | .output => some .output
  | .both => none

/-- A record with a link: a record of a table, or `last_frame`. -/
inductive Rec
  | entry (p : Port) (i : Nat)
  | last
  deriving DecidableEq

/-- `OMXVDEC_BUF_S`. -/
structure BufS where
  bufType : BufferType
  status : BufState
  phyAddr : BitVec 32
  privatePhyAddr : BitVec 32
  bufLen : BitVec 32
  actLen : BitVec 32
  privateLen : BitVec 32
  offset : BitVec 32
  flags : BitVec 32
  bufId : BitVec 32
  timeStamp : BitVec 64
  usrTag : BitVec 32
  userVaddr : BitVec 32
  kernVaddr : BitVec 32
  clientData : BitVec 32
  frameRate : BitVec 32
  deriving DecidableEq

/-- A record of zeros. -/
def BufS.zero : BufS := ⟨.allocateUsr, .invalid, 0, 0, 0, 0, 0, 0, 0, 0, 0, 0, 0, 0, 0, 0⟩

/-- `OMXVDEC_BUF_DESC`, as far as it is read here. -/
structure BufDesc where
  phyaddr : BitVec 32
  bufferLen : BitVec 32
  dataOffset : BitVec 32
  dataLen : BitVec 32
  privatePhyaddr : BitVec 32
  privateLen : BitVec 32
  flags : BitVec 32
  timestamp : BitVec 64
  bufferType : BufferType
  dir : PortDir
  stride : BitVec 32
  bufferaddr : BitVec 32
  clientData : BitVec 32

/-- `OMXVDEC_LOWDELAY_PROC_RECORD`. -/
structure Lowdelay where
  interval : BitVec 32
  currentTag : BitVec 32
  deriving DecidableEq

/-- `OMXVDEC_CHAN_CTX`. `num` is `input_buf_num` and `output_buf_num`, `max` their bounds, `queue` is `raw_queue`
    and `yuv_queue`; `lowdelay` is there in the low-delay mode. -/
structure Chan where
  buf : Rec → BufS
  num : Port → Nat
  max : Port → Nat
  queue : Port → List Rec
  eosInList : Bool
  storePrivateData : Bool
  outStride : BitVec 32
  lowdelay : Option Lowdelay

def VDEC_BUFFERFLAG_EOS : BitVec 32 := 0x00000001
def VDEC_BUFFERFLAG_ENDOFFRAME : BitVec 32 := 0x00000010

namespace Chan

/-- A channel after `channel_create_inst`, where `last` is what became of `last_frame`. -/
def init (max : Port → Nat) (last : BufS) (lowdelay : Option Lowdelay) : Chan where
  buf := fun r => match r with
    | .last => last
    | .entry _ _ => BufS.zero
  num := fun _ => 0
  max := max
  queue := fun _ => []
  eosInList := false
  storePrivateData := false
  outStride := 0
  lowdelay := lowdelay

/-- Write a record. -/
def setBuf (s : Chan) (r : Rec) (b : BufS) : Chan := { s with buf := Function.update s.buf r b }

/-- Write fields of a record. -/
def modBuf (s : Chan) (r : Rec) (f : BufS → BufS) : Chan := s.setBuf r (f (s.buf r))

def setQueue (s : Chan) (p : Port) (rs : List Rec) : Chan := { s with queue := Function.update s.queue p rs }

def setNum (s : Chan) (p : Port) (n : Nat) : Chan := { s with num := Function.update s.num p n }

/-- Is the record's link in use? -/
def linked (s : Chan) (r : Rec) : Bool := r ∈ s.queue .input ∨ r ∈ s.queue .output

/-- The loop over the table that all of these functions begin with. -/
def findAddr (s : Chan) (p : Port) (phyaddr : BitVec 32) : Option Nat :=
  (List.range (s.num p)).find? (fun i => phyaddr = (s.buf (.entry p i)).phyAddr)

/-- `channel_lookup_addr_table`. -/
def lookupAddrTable (s : Chan) (d : BufDesc) : Chan × Option Rec :=
  match d.dir.port with
  | none => (s, none)
  | some p =>
    match s.findAddr p d.phyaddr with
    | none => (s, none)
    | some i =>
      (s.modBuf (.entry p i) (fun b => { b with userVaddr := d.bufferaddr }), some (.entry p i))

/-! ## Binding -/

/-- What `channel_insert_addr_table` writes into a free record. -/
def fillRecord (d : BufDesc) (kernVaddr : BitVec 32) (i : Nat) (b : BufS) : BufS :=
  { b with
    userVaddr := d.bufferaddr
    phyAddr := d.phyaddr
    privatePhyAddr := d.privatePhyaddr
    kernVaddr := kernVaddr
    clientData := d.clientData
    bufLen := d.bufferLen
    actLen := 0
    privateLen := d.privateLen
    offset := 0
    bufType := d.bufferType
    status := .idle
    bufId := BitVec.ofNat 32 i }

/-- `channel_insert_addr_table`, where `channel_map_kernel_viraddr` answers `map`, and whether it succeeds. -/
def insertAddrTable (s : Chan) (d : BufDesc) (map : Option (BitVec 32)) : Chan × Bool :=
  match d.dir.port with
  | none => (s, false)
  | some p =>
    if s.max p ≤ s.num p then (s, false)
    else if (s.findAddr p d.phyaddr).isSome then (s, false)
    else
      match map with
      | none => (s, false)
      | some kernVaddr =>
        let t := (s.modBuf (.entry p (s.num p)) (fillRecord d kernVaddr (s.num p))).setNum p (s.num p + 1)
        match p with
        | .input => (t, true)
        | .output =>
          ({ t with storePrivateData := d.privatePhyaddr ≠ 0xffffffff ∧ d.privatePhyaddr ≠ 0 }, true)

/-- `channel_bind_user_buffer`. -/
def bindUserBuffer (s : Chan) (d : BufDesc) (map : Option (BitVec 32)) : Chan × Bool :=
  if d.phyaddr = 0 then (s, false)
  else
    let r := s.insertAddrTable d map
    if r.2 then ({ r.1 with outStride := d.stride }, true) else (r.1, false)

/-! ## Unbinding -/

/-- The link of the record that was copied to `r`: the entry with its address leaves the queue, and `r` goes to
    the end. -/
def moveLink (s : Chan) (p : Port) (r : Rec) (phyAddr : BitVec 32) : Chan :=
  match (s.queue p).find? (fun q => phyAddr = (s.buf q).phyAddr) with
  | none => s
  | some q => s.setQueue p ((s.queue p).erase q ++ [r])

/-- `memcpy` of the last record of the table into the hole `i`, with its link. -/
def fillHole (s : Chan) (p : Port) (i : Nat) : Chan :=
  let b := s.buf (.entry p (s.num p - 1))
  (s.setBuf (.entry p i) { b with bufId := BitVec.ofNat 32 i }).moveLink p (.entry p i) b.phyAddr

/-- `memset` of the last record of the table, which is one shorter then. -/
def clearLast (s : Chan) (p : Port) : Option Chan :=
  if s.linked (.entry p (s.num p - 1)) then none
  else some ((s.setBuf (.entry p (s.num p - 1)) BufS.zero).setNum p (s.num p - 1))

/-- `channel_delete_addr_table`, and whether it succeeds. -/
def deleteAddrTable (s : Chan) (d : BufDesc) : Option (Chan × Bool) :=
  match d.dir.port with
  | none => some (s, false)
  | some p =>
    match s.findAddr p d.phyaddr with
    | none => some (s, false)
    | some i =>
      let t := s.modBuf (.entry p i) (fun b => { b with kernVaddr := 0 })
      if i < s.num p - 1 then
        if t.linked (.entry p i) then none else ((t.fillHole p i).clearLast p).map (fun u => (u, true))
      else (t.clearLast p).map (fun u => (u, true))

/-- `channel_unbind_user_buffer`. -/
def unbindUserBuffer (s : Chan) (d : BufDesc) : Option (Chan × Bool) :=
  if d.phyaddr = 0 then some (s, false) else s.deleteAddrTable d

/-! ## Handing over buffers -/

/-- `channel_insert_in_raw_list` and `channel_insert_in_yuv_list`, and whether they succeed; `none` where the
    record is on the other queue. -/
def insertInList (s : Chan) (p : Port) (r : Rec) : Option (Chan × Bool) :=
  if (s.queue p).any (fun q => (s.buf r).phyAddr = (s.buf q).phyAddr) then some (s, false)
  else if s.linked r then none
  else
    let t := s.modBuf r (fun b => { b with status := .queued })
    some (t.setQueue p (t.queue p ++ [r]), true)

/-- The tag of a stream in the low-delay mode. -/
def tagStream (s : Chan) (r : Rec) : Chan :=
  match s.lowdelay with
  | none => s
  | some l =>
    { s.modBuf r (fun b => { b with usrTag := l.currentTag }) with
      lowdelay := some { l with currentTag := l.currentTag + l.interval } }

/-- `channel_empty_this_stream` for a descriptor with data, up to the end of the stream. -/
def emptyData (s : Chan) (d : BufDesc) : Option (Chan × Bool) :=
  match s.lookupAddrTable d with
  | (s, none) => some (s, false)
  | (s, some r) =>
    let s := s.modBuf r (fun b =>
      { b with actLen := d.dataLen, offset := d.dataOffset, timeStamp := d.timestamp, flags := d.flags })
    (s.tagStream r).insertInList .input r

/-- The end of the stream: `channel_add_last_frame`, and `last_frame` goes to the queue. -/
def addLastFrame (s : Chan) (lastFrameBufId : BitVec 32) (invalidPts : BitVec 64) : Option Chan :=
  let t := s.modBuf .last (fun b =>
    { b with
      actLen := b.bufLen
      offset := 0
      flags := VDEC_BUFFERFLAG_ENDOFFRAME
      timeStamp := invalidPts
      bufId := lastFrameBufId
      status := .queued })
  if t.linked .last then none
  else some { t.setQueue .input (t.queue .input ++ [.last]) with eosInList := true }

/-- `channel_empty_this_stream`, and whether it returns `HI_SUCCESS`. -/
def emptyThisStream (s : Chan) (d : BufDesc) (lastFrameBufId : BitVec 32) (invalidPts : BitVec 64) :
    Option (Chan × Bool) :=
  (if d.dataLen ≠ 0 then s.emptyData d else some (s, true)).bind (fun r =>
    if r.2 then
      if d.flags &&& VDEC_BUFFERFLAG_EOS ≠ 0 ∧ r.1.eosInList = false then
        (r.1.addLastFrame lastFrameBufId invalidPts).map (fun t => (t, true))
      else some (r.1, true)
    else some (r.1, false))

/-- `channel_fill_this_frame`, and whether it returns `HI_SUCCESS`. -/
def fillThisFrame (s : Chan) (d : BufDesc) : Option (Chan × Bool) :=
  match s.lookupAddrTable d with
  | (s, none) => some (s, false)
  | (s, some r) =>
    (s.modBuf r (fun b => { b with offset := d.dataOffset, actLen := 0 })).insertInList .output r

/-- The walk over the queue in `decoder_release_stream` and `processor_release_frame`, where `addr` is the address
    that was handed out. -/
def releaseFind (s : Chan) (p : Port) (addr : BitVec 32) : Option Rec :=
  (s.queue p).find? (fun q => addr = (s.buf q).phyAddr + (s.buf q).offset)

end Chan

end HiSTB.Omxvdec.Bind
