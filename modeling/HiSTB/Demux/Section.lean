import HiSTB.Lib.Run

/-!
# `Demux.Section` — the blocks of a section channel (`drv_demux_func.c`)

The hardware writes sections into its current block, one after the other, and appends the block to the output queue
(OQ) of the channel when it takes another one. `DMXOsiReadSec` hands out the sections: first those of the blocks in
the queue (`DMXOsiGetSecNum`), and where there are none, those of the current block (`DMXOsiGetCurSAddr`). How far
it got is in `u32ProcsBlk` and `u32ProcsOffset` of the queue. `DMXOsiParseSection` cuts a block into sections, and
leaves out those that are malformed, too short for the channel's CRC mode, or not wanted by its filters. A post
channel is handed out in the same way, by TS packets.

A call reads the registers of the hardware several times, and the hardware goes on in between; the call is given what
the hardware does before each read. The blocks of the queue are a list, and the queue's pointers are positions in
it: the hardware does not write over blocks that were not released. A block carries its bytes.

The constants that the repository does not define are parameters. Left out: the counters, the wait for the
hardware, and the variant with `DMX_USE_ECM`.
-/

namespace HiSTB.Demux.Section

abbrev Byte := BitVec 8

/-! ## Sections -/

/-- `HI_UNF_DMX_CHAN_CRC_MODE_E`, as far as sections without a CRC are discarded. -/
inductive CrcMode
  | forceAndDiscard
  | bySyntaxAndDiscard
  | other
  deriving DecidableEq

inductive ChanType
  | sec
  | post
  deriving DecidableEq

/-- `DMX_FilterInfo_S`, one entry of its arrays for each byte of the depth. -/
structure Filter where
  depth : Nat
  mtch : Nat → Byte
  mask : Nat → Byte
  negate : Nat → Bool

/-- A channel: its type, its CRC mode and the filters that are attached to it; the place of the free queue's buffer;
    and the constants. -/
structure Config where
  chanType : ChanType
  crcMode : CrcMode
  filters : List Filter
  fqPhyAddr : BitVec 32
  fqVirAddr : BitVec 32
  maxSecLen : Nat
  filterMaxDepth : Nat
  sectionLengthFieldSize : Nat
  tsPacketLen : Nat
  maxErrListNum : Nat
  tsPacketLen_pos : 0 < tsPacketLen

/-- The kernel's address of a block. -/
def Config.virAddr (cfg : Config) (phyAddr : BitVec 32) : BitVec 32 := phyAddr - cfg.fqPhyAddr + cfg.fqVirAddr

/-- The byte at a place of a buffer. -/
def at_ (buf : List Byte) (i : Nat) : Byte := buf.getD i 0

/-- The length of the section at `offset`, as its bytes say. -/
def lengthAt (buf : List Byte) (offset : Nat) : Nat :=
  3 + ((at_ buf (offset + 1)).toNat % 16 * 256 + (at_ buf (offset + 2)).toNat)

/-- The loop of `DMXCheckBuffer`; `remain` is `u32BufLenTmp`. -/
def checkLoop (maxSecLen : Nat) (buf : List Byte) (bufLen : Nat) : Nat → Nat → Nat → Bool
  | 0, _, _ => true
  | fuel + 1, remain, offset =>
    if remain > 3 then
      let secLen := lengthAt buf offset
      if bufLen < offset then false
      else if secLen > remain ∨ secLen > maxSecLen then false
      else checkLoop maxSecLen buf bufLen fuel (remain - secLen) (offset + secLen)
    else true

/-- `DMXCheckBuffer`: from `offset` on, the buffer is a row of sections. -/
def checkBuffer (maxSecLen : Nat) (buf : List Byte) (bufLen offset : Nat) : Bool :=
  checkLoop maxSecLen buf bufLen bufLen (bufLen - offset) offset

/-- `GetSectionLength`; 0 is its error. -/
def getSectionLength (maxSecLen : Nat) (bufAddr : BitVec 32) (buf : List Byte) (bufLen offset : Nat) : Nat :=
  if bufAddr = 0 then 0
  else if bufLen = 0 then 0
  else if offset ≥ bufLen then 0
  else if checkBuffer maxSecLen buf bufLen offset = false then 0
  else if bufLen ≥ 3 then
    if bufAddr + BitVec.ofNat 32 offset ≥ bufAddr + BitVec.ofNat 32 bufLen then 0
    else
      let packetLen := lengthAt buf offset
      if bufLen - offset < packetLen then 0 else packetLen
  else 0

/-- A filter takes the byte. -/
def Filter.takes (f : Filter) (j : Nat) (b : Byte) : Bool :=
  let same := (f.mtch j &&& ~~~ f.mask j) == (b &&& ~~~ f.mask j)
  if f.negate j then !same else same

/-- The loop over the depth of a filter, from its byte `j` on; it looks at the section's bytes 0, 3, 4 and so on. -/
def Filter.loop (f : Filter) (buf : List Byte) (offset secLen : Nat) : Nat → Nat → Nat → Bool
  | 0, _, _ => true
  | n + 1, j, len =>
    if len = secLen then false
    else if f.takes j (at_ buf (offset + len)) then
      f.loop buf offset secLen n (j + 1) (if j = 0 then 3 else len + 1)
    else false

/-- The filters of the channel, for a section that is too short for the hardware's own. -/
def passes (cfg : Config) (buf : List Byte) (offset secLen : Nat) : Bool :=
  cfg.filters.any (fun f =>
    f.depth = 0 ||
      (!(secLen < f.depth + cfg.sectionLengthFieldSize) && f.loop buf offset secLen f.depth 0 0))

/-- What one round of `DMXOsiParseSection` finds. -/
inductive Verdict
  /-- Not a TS packet. -/
  | noSync
  /-- Not a section. -/
  | bad
  /-- A section without room for a CRC. -/
  | short (len : Nat)
  /-- No filter wants it. -/
  | filtered (len : Nat)
  | keep (len : Nat)
  deriving DecidableEq

/-- The length of what stands at `offset`. -/
def unitLength (cfg : Config) (bufAddr : BitVec 32) (buf : List Byte) (bufLen offset : Nat) : Nat :=
  match cfg.chanType with
  | .post => cfg.tsPacketLen
  | .sec => getSectionLength cfg.maxSecLen bufAddr buf bufLen offset

/-- The channel's CRC mode discards a section of this length. -/
def discards (cfg : Config) (buf : List Byte) (offset secLen : Nat) : Bool :=
  secLen < 7 &&
    match cfg.crcMode with
    | .forceAndDiscard => true
    | .bySyntaxAndDiscard => (at_ buf (offset + 1)).getLsbD 7
    | .other => false

/-- The checks of one round of `DMXOsiParseSection`. -/
def verdict (cfg : Config) (bufAddr : BitVec 32) (buf : List Byte) (bufLen offset : Nat) : Verdict :=
  if cfg.chanType = .post ∧ at_ buf offset ≠ 0x47 then .noSync
  else
    let secLen := unitLength cfg bufAddr buf bufLen offset
    if secLen = 0 ∨ secLen > cfg.maxSecLen then .bad
    else if discards cfg buf offset secLen then .short secLen
    else if secLen < cfg.filterMaxDepth + cfg.sectionLengthFieldSize ∧ passes cfg buf offset secLen = false then
      .filtered secLen
    else .keep secLen

/-! ## The error list -/

/-- `psErrMsg`: the blocks on the error list. -/
abbrev ErrList := List (BitVec 32)

/-- `DMXOsiAddErrMSG`; a full list stays as it is. -/
def ErrList.add (cfg : Config) (e : ErrList) (a : BitVec 32) : ErrList :=
  if a ∈ e then e else if e.length < cfg.maxErrListNum then a :: e else e

/-! ## Parsing a block -/

/-- `DMX_UserMsg_S`. -/
structure Msg where
  bufStartAddr : BitVec 32
  msgLen : Nat
  deriving DecidableEq

/-- The variables of `DMXOsiParseSection`: `psMsgList` up to `i`, `*pu32Offset`, and the error list. -/
structure Parse where
  msgs : List Msg
  offset : Nat
  errs : ErrList

/-- The loop of `DMXOsiParseSection`. Each round moves the offset, so that `bufLen` rounds are enough. -/
def parseLoop (cfg : Config) (addr bufAddr : BitVec 32) (buf : List Byte) (bufLen acqNum : Nat) :
    Nat → Parse → Parse
  | 0, p => p
  | fuel + 1, p =>
    if p.msgs.length ≥ acqNum then p
    else
      match verdict cfg bufAddr buf bufLen p.offset with
      | .noSync =>
        let p := { p with errs := p.errs.add cfg addr, offset := p.offset + cfg.tsPacketLen }
        if p.offset ≥ bufLen then p else parseLoop cfg addr bufAddr buf bufLen acqNum fuel p
      | .bad => { p with errs := p.errs.add cfg addr, offset := bufLen }
      | .short len =>
        let p := { p with
          errs := if p.offset = 0 then p.errs.add cfg addr else p.errs, offset := p.offset + len }
        if p.offset ≥ bufLen then p else parseLoop cfg addr bufAddr buf bufLen acqNum fuel p
      | .filtered len =>
        let p := { p with errs := p.errs.add cfg addr, offset := p.offset + len }
        if p.offset ≥ bufLen then p else parseLoop cfg addr bufAddr buf bufLen acqNum fuel p
      | .keep len =>
        let p : Parse :=
          { msgs := p.msgs ++ [⟨addr + BitVec.ofNat 32 p.offset, len⟩], offset := p.offset + len
            errs := p.errs.erase addr }
        if p.offset ≥ bufLen then p else parseLoop cfg addr bufAddr buf bufLen acqNum fuel p

/-- `DMXOsiParseSection`. It fails where it adds no message. -/
def parseSection (cfg : Config) (acqNum : Nat) (addr : BitVec 32) (buf : List Byte) (bufLen : Nat) (p : Parse) :
    Parse :=
  if p.offset ≥ bufLen then p
  else parseLoop cfg addr (cfg.virAddr addr) buf bufLen acqNum bufLen p

/-! ## The hardware -/

/-- A block: its address, and the sections that the hardware wrote into it. -/
structure Block where
  startAddr : BitVec 32
  secs : List (List Byte)

/-- One section more. -/
def Block.append (b : Block) (sec : List Byte) : Block := ⟨b.startAddr, b.secs ++ [sec]⟩

/-- The bytes of a block. -/
def Block.data (b : Block) : List Byte := b.secs.flatten

/-- What the driver sees of the hardware: the blocks of the queue, and the registers about the current block. Where
    there is no current block (`valid`, bit 7 of the control word), they are as it left them. -/
structure Hw where
  closed : List Block
  valid : Bool
  cur : Block

inductive HwEvent
  /-- A block of the free queue becomes the current block. -/
  | take (addr : BitVec 32)
  /-- A section is written into the current block. -/
  | append (sec : List Byte)
  /-- The current block goes to the queue. -/
  | close

/-- What the hardware does; nothing, where it cannot do it. The length of a block's data has 16 bits. -/
def Hw.next (h : Hw) : HwEvent → Hw
  | .take a => if h.valid then h else { h with valid := true, cur := ⟨a, []⟩ }
  | .append sec =>
    if h.valid ∧ h.cur.data.length + sec.length < 0x10000 then
      { h with cur := h.cur.append sec }
    else h
  | .close => if h.valid then { h with closed := h.closed ++ [h.cur], valid := false } else h

def Hw.run (h : Hw) (es : List HwEvent) : Hw := es.foldl Hw.next h

/-- `DMXOsiGetCurEopaddr`, from the hardware at its two reads. -/
def getCurEopaddr (h₀ h₁ : Hw) : Nat := if h₀.valid then h₁.cur.data.length else 0

/-! ## Reading -/

/-- `u32ProcsBlk` and `u32ProcsOffset` of the queue, and the error list. -/
structure Chan where
  procsBlk : Nat
  procsOffset : Nat
  errs : ErrList

/-- The loop of `DMXOsiGetSecNum` over the blocks from `u32ReadBlk` to `u32WriteBlk`. `c` is what is stored;
    `procsBlk` and the offset in `p` are the variables. A parse that fails has moved the offset to the block's end,
    and the block is then passed over. -/
def secLoop (cfg : Config) (acqNum : Nat) : List Block → Chan → Nat → Parse → Chan × Nat × Parse
  | [], c, procsBlk, p => (c, procsBlk, p)
  | b :: bs, c, procsBlk, p =>
    let q := parseSection cfg acqNum b.startAddr b.data b.data.length p
    if q.msgs.length = p.msgs.length then
      secLoop cfg acqNum bs { c with procsBlk := procsBlk + 1, procsOffset := 0 } (procsBlk + 1) { q with offset := 0 }
    else
      let done := q.offset ≥ b.data.length
      let procsBlk := if done then procsBlk + 1 else procsBlk
      let q := if done then { q with offset := 0 } else q
      if q.msgs.length ≥ acqNum then (c, procsBlk, q)
      else secLoop cfg acqNum bs c procsBlk q

/-- `DMXOsiGetSecNum` and `DmxOsiReadToMsgBuffer`: the messages, with the write pointer from the hardware `h`. -/
def readToMsgBuffer (cfg : Config) (acqNum : Nat) (h : Hw) (c : Chan) : Chan × List Msg :=
  let r := secLoop cfg acqNum (h.closed.drop c.procsBlk) c c.procsBlk ⟨[], c.procsOffset, c.errs⟩
  let c := { r.1 with errs := r.2.2.errs }
  if r.2.2.msgs ≠ [] then ({ c with procsBlk := r.2.1, procsOffset := r.2.2.offset }, r.2.2.msgs) else (c, [])

/-- `DMXOsiGetCurSAddr`, from the hardware at its four reads: the current block's address and the end of its last
    section, where the current block is the next one to read. -/
def getCurSAddr (h₀ h₁ h₂ h₃ : Hw) (procsBlk : Nat) : Option (BitVec 32 × Nat) :=
  if h₃.closed.length = procsBlk then some (h₂.cur.startAddr, getCurEopaddr h₀ h₁) else none

/-- `DMXOsiReadSec` without a time to wait; `h i` is the hardware at the read `i`. The messages are none where it
    returns an error. -/
def readSec (cfg : Config) (acqNum : Nat) (h : Nat → Hw) (c : Chan) : Chan × List Msg :=
  let eop := getCurEopaddr (h 0) (h 1)
  let (c, msgs) := readToMsgBuffer cfg acqNum (h 2) c
  if msgs ≠ [] then (c, msgs)
  else if c.procsOffset = eop then (c, [])
  else
    match getCurSAddr (h 3) (h 4) (h 5) (h 6) c.procsBlk with
    | some (addr, eop) =>
      let p := parseSection cfg acqNum addr (h 6).cur.data eop ⟨[], c.procsOffset, c.errs⟩
      ({ c with procsOffset := p.offset, errs := p.errs }, p.msgs)
    | none =>
      -- the block that was the current one is in the queue by now; what the second look at the current block finds
      -- is not read in this call
      readToMsgBuffer cfg acqNum (h 7) c

/-! ## Runs -/

structure Sys where
  hw : Hw
  chan : Chan

inductive Input
  | hw (e : HwEvent)
  /-- `DMX_OsiReadDataRequset`, and what the hardware does before each of its reads of a register. -/
  | read (acqNum : Nat) (between : List (List HwEvent))

/-- What a call returned: the messages, none where there was no data. -/
abbrev Event := List Msg

/-- The hardware at the read `i` of a call. -/
def readAt (h : Hw) (between : List (List HwEvent)) (i : Nat) : Hw := h.run (between.take (i + 1)).flatten

def step (cfg : Config) (s : Sys) : Input → Option (Sys × List Event)
  | .hw e => some ({ s with hw := s.hw.next e }, [])
  | .read acqNum between =>
    if acqNum = 0 then some (s, [])
    else
      let r := readSec cfg acqNum (readAt s.hw between) s.chan
      some ({ hw := s.hw.run between.flatten, chan := r.1 }, [r.2])

/-- A channel that was just opened. -/
def init : Sys := ⟨⟨[], false, ⟨0, []⟩⟩, ⟨0, 0, []⟩⟩

end HiSTB.Demux.Section
