import HiSTB.Pvr.Correctness.PlaySend

/-!
# `Pvr.Correctness.PlayParts` — the parts of a frame

A frame is sent in one part, or in two where it goes over the end of a cyclic file. Each part is read with whole packets
and whole cipher packages around it, and the packets are handed over.

* `aframeParts` — the parts that `PVRPlaySendAframe` sends; `sendAframe_parts` — it does nothing else with the data;
* `aframeParts_strides` — a frame over the end of the file: the second part gets the global offset of the first;
* `Whole`, `sendAframe_whole_iff` — what success should say about every part of a frame, and when it does, for every
  outcome of the reads and of the cipher.
-/

namespace HiSTB.Pvr.Play

open Lib
open TsQueue (Area Queue Byte)

variable {c : Consts} {patch : Patch} {stream : Nat → Byte} {state : State} {i : Input} {chn : Chn}

/-! ## The parts -/

/-- What `PVRPlaySendData` is called with. -/
structure Part where
  call : Call
  offset : BitVec 64
  size : BitVec 32
  globalOffset : BitVec 64

def Part.align (c : Consts) (p : Part) : Align := Play.align c p.offset p.size

def Part.send (c : Consts) (patch : Patch) (state : State) (p : Part) : Ret × List Event :=
  sendData c patch state p.call p.offset p.size p.globalOffset

def Input.first (i : Input) : Part := ⟨i.call1, i.parts.1, i.size1, i.frame.globalOffset⟩

def Input.second (i : Input) : Part := ⟨i.call2, 0, i.size2, i.frame.globalOffset⟩

/-- The parts of a frame that are sent, once it comes to them. -/
def sentParts (c : Consts) (patch : Patch) (state : State) (i : Input) : List Part :=
  if i.size2 ≠ 0 ∧ (i.first.send c patch state).1 = .success then [i.first, i.second] else [i.first]

/-- Part after part; the last one decides. -/
def sendEach (c : Consts) (patch : Patch) (state : State) : Ret → List Part → Ret × List Event
  | ret, [] => (ret, [])
  | _, p :: ps =>
    let (ret, es) := p.send c patch state
    let (ret, es') := sendEach c patch state ret ps
    (ret, es ++ es')

theorem sendEach_cons (c : Consts) (patch : Patch) (state : State) (ret : Ret) (p : Part) (ps : List Part) :
    sendEach c patch state ret (p :: ps) =
      ((sendEach c patch state (p.send c patch state).1 ps).1,
        (p.send c patch state).2 ++ (sendEach c patch state (p.send c patch state).1 ps).2) := rfl

theorem sendEach_nil (c : Consts) (patch : Patch) (state : State) (ret : Ret) :
    sendEach c patch state ret [] = (ret, []) := rfl

theorem sendParts_sentParts (c : Consts) (patch : Patch) (state : State) (i : Input) :
    sendParts c patch state i = sendEach c patch state .success (sentParts c patch state i) := by
  rw [sendParts_eq, sentParts]
  have hfirst : i.first.send c patch state = sendData c patch state i.call1 i.parts.1 i.size1 i.frame.globalOffset :=
    rfl
  rw [hfirst]
  split
  · simp [sendEach, Part.send, Input.first, Input.second]
  · simp [sendEach, Part.send, Input.first]

/-- The parts that `PVRPlaySendAframe` sends. -/
def aframeParts (c : Consts) (patch : Patch) (chn : Chn) (i : Input) : List Part :=
  if i.frame.frameSize = 0 then []
  else if i.frame.frameSize > c.playMaxFrameSize then []
  else
    match i.tsBufferStatus with
    | none => []
    | some (bufSize, usedSize) =>
      if bufSize - usedSize < 2 * (c.cipherPkgLen + c.tsLen) + i.frame.frameSize + c.tsLen then []
      else if (sendTime (chn.setFrame i.frame) i).1 ≠ .success then []
      else sentParts c patch chn.state i

/-- A frame that is sent: the packet with the time, and the parts. -/
theorem sendAframe_parts (h : aframeParts c patch chn i ≠ []) :
    (sendAframe c patch chn i).2 =
      ((sendEach c patch chn.state .success (aframeParts c patch chn i)).1,
        (sendTime (chn.setFrame i.frame) i).2 ++
          (sendEach c patch chn.state .success (aframeParts c patch chn i)).2) := by
  unfold aframeParts at h ⊢
  unfold sendAframe
  by_cases hzero : i.frame.frameSize = 0
  · exact absurd (if_pos hzero) h
  by_cases hlong : i.frame.frameSize > c.playMaxFrameSize
  · rw [if_neg hzero] at h
    exact absurd (if_pos hlong) h
  rw [if_neg hzero, if_neg hlong] at h ⊢
  rw [if_neg hzero, if_neg hlong]
  cases hstatus : i.tsBufferStatus with
  | none =>
    rw [hstatus] at h
    exact absurd rfl h
  | some status =>
    obtain ⟨bufSize, usedSize⟩ := status
    rw [hstatus] at h
    dsimp only at h ⊢
    by_cases hroom : bufSize - usedSize < 2 * (c.cipherPkgLen + c.tsLen) + i.frame.frameSize + c.tsLen
    · exact absurd (if_pos hroom) h
    rw [if_neg hroom] at h ⊢
    rw [if_neg hroom]
    by_cases htime : (sendTime (chn.setFrame i.frame) i).1 ≠ .success
    · exact absurd (if_pos htime) h
    rw [if_neg htime, if_neg htime, ← sendParts_sentParts]
    rfl

/-- **What a success is about**: a frame that the test of its size does not skip, and that comes back with success, is
    sent. -/
theorem aframeParts_of_success (hsize : i.frame.frameSize ≠ 0 ∧ ¬ i.frame.frameSize > c.playMaxFrameSize)
    (h : (sendAframe c patch chn i).2.1 = .success) : aframeParts c patch chn i = sentParts c patch chn.state i := by
  unfold sendAframe at h
  unfold aframeParts
  rw [if_neg hsize.1, if_neg hsize.2] at h ⊢
  cases hstatus : i.tsBufferStatus with
  | none =>
    rw [hstatus] at h
    cases h
  | some status =>
    obtain ⟨bufSize, usedSize⟩ := status
    rw [hstatus] at h
    dsimp only at h ⊢
    by_cases hroom : bufSize - usedSize < 2 * (c.cipherPkgLen + c.tsLen) + i.frame.frameSize + c.tsLen
    · rw [if_pos hroom] at h
      cases h
    rw [if_neg hroom] at h ⊢
    by_cases htime : (sendTime (chn.setFrame i.frame) i).1 ≠ .success
    · rw [if_pos htime] at h
      exact absurd h htime
    rw [if_neg htime]

/-! ## Over the end of the file -/

/-- The frame goes over the end of a cyclic file, by the test of the program. -/
structure Strides (i : Input) : Prop where
  cyclic : i.cyclic = true
  max_pos : 0 < i.maxFileSize.toNat
  beyond : i.frame.offset % i.maxFileSize + i.frame.frameSize.setWidth 64 > i.maxFileSize

/-- What is to be sent of such a frame: each part with the global offset of its first byte. -/
def Input.wanted (i : Input) : List Part :=
  let beforePos := i.frame.offset % i.maxFileSize
  let size1 := (i.maxFileSize - beforePos).setWidth 32
  [⟨i.call1, beforePos, size1, i.frame.globalOffset⟩,
    ⟨i.call2, 0, i.frame.frameSize - size1, i.frame.globalOffset + size1.setWidth 64⟩]

/-- Place and sizes of the parts: none is empty, and together they are the frame. -/
theorem Strides.parts (h : Strides i) :
    i.first = ⟨i.call1, i.frame.offset % i.maxFileSize, (i.maxFileSize - i.frame.offset % i.maxFileSize).setWidth 32,
      i.frame.globalOffset⟩ ∧
    i.second = ⟨i.call2, 0, i.frame.frameSize - (i.maxFileSize - i.frame.offset % i.maxFileSize).setWidth 32,
      i.frame.globalOffset⟩ ∧
    0 < i.size1.toNat ∧ 0 < i.size2.toNat ∧ i.size1.toNat + i.size2.toNat = i.frame.frameSize.toNat := by
  have hparts : i.parts = (i.frame.offset % i.maxFileSize, (i.maxFileSize - i.frame.offset % i.maxFileSize).setWidth 32,
      i.frame.frameSize - (i.maxFileSize - i.frame.offset % i.maxFileSize).setWidth 32) := by
    unfold Input.parts
    rw [if_pos h.cyclic]
    rw [if_pos h.beyond]
  have hlt : (i.frame.offset % i.maxFileSize).toNat < i.maxFileSize.toNat := by
    rw [BitVec.toNat_umod]
    exact Nat.mod_lt _ h.max_pos
  have hover := h.beyond
  unfold Input.first Input.second Input.size1 Input.size2
  rw [hparts]
  generalize i.frame.offset % i.maxFileSize = beforePos at hlt hover ⊢
  refine ⟨rfl, rfl, ?_⟩
  bv_omega

/-- Nothing is sent, or the first part, or both. -/
theorem aframeParts_cases (c : Consts) (patch : Patch) (chn : Chn) (i : Input) :
    aframeParts c patch chn i = [] ∨ aframeParts c patch chn i = [i.first] ∨
      aframeParts c patch chn i = [i.first, i.second] := by
  have hparts : sentParts c patch chn.state i = [i.first] ∨ sentParts c patch chn.state i = [i.first, i.second] := by
    unfold sentParts
    split
    · exact .inr rfl
    · exact .inl rfl
  unfold aframeParts
  split
  · exact .inl rfl
  · split
    · exact .inl rfl
    · split
      · exact .inl rfl
      · split
        · exact .inl rfl
        · split
          · exact .inl rfl
          · exact .inr hparts

/-- **A frame over the end of the file is never sent as it is to be**: the global offset of the second part is that of
    the first. -/
theorem aframeParts_strides (c : Consts) (patch : Patch) (chn : Chn) (i : Input) (h : Strides i) :
    aframeParts c patch chn i ≠ i.wanted := by
  obtain ⟨-, hsecond, hpos, -, -⟩ := h.parts
  have hsize : i.size1 = (i.maxFileSize - i.frame.offset % i.maxFileSize).setWidth 32 := congrArg Part.size h.parts.1
  intro heq
  rcases aframeParts_cases c patch chn i with hnone | hone | hboth
  · rw [hnone] at heq
    cases heq
  · rw [hone] at heq
    have hlen : (1 : Nat) = 2 := congrArg List.length heq
    exact absurd hlen (by decide)
  · rw [hboth, hsecond] at heq
    have hglobal := congrArg Part.globalOffset (List.cons.inj (List.cons.inj heq).2).1
    have hzero : (i.size1.setWidth 64) = 0#64 := by
      rw [hsize]
      exact BitVec.self_eq_add_right.mp hglobal
    have hnat := congrArg BitVec.toNat hzero
    rw [BitVec.toNat_setWidth_of_le (by decide)] at hnat
    exact absurd hnat (Nat.ne_of_gt hpos)

theorem strides_nearLive : Strides nearLive := ⟨by decide, by decide, by decide⟩

/-- The frame that strides the end near the live position is not handed over as it should be. -/
theorem aframeParts_strides_nearLive : aframeParts someConsts id playing nearLive ≠ nearLive.wanted :=
  aframeParts_strides someConsts id playing nearLive strides_nearLive

/-- Packets 7 and 8 over the end of the file: the second part is read with the global offset of packet 7, and packet 7
    is handed over twice. -/
theorem second_part_wrong :
    (aframeParts someConsts id playing nearLive).map (fun p => (p.offset, p.size, p.globalOffset)) =
      [(564, 188, 1316), (0, 188, 1316)] ∧
    nearLive.wanted.map (fun p => (p.offset, p.size, p.globalOffset)) = [(564, 188, 1316), (0, 188, 1504)] ∧
    (sendAframe someConsts id playing nearLive).2.2.flatMap Event.bytes = List.replicate 376 7 := by
  refine ⟨by decide +kernel, by decide, by decide +kernel⟩

/-! ## What is read for a part -/

/-- `PVRPlayReadData` for a part. -/
def Part.read (c : Consts) (p : Part) : BitVec 32 × List Byte :=
  readData c p.call (p.align c).alignSize (p.align c).readOffset p.globalOffset (p.align c).cipherHead
    (p.align c).headToAdd

/-- The distances of a part, wherever it is. -/
structure Part.Spaced (c : Consts) (p : Part) : Prop where
  head : (p.align c).headToAdd.toNat < c.tsLen.toNat
  endPos : 0 < (p.align c).endToAdd.toNat
  endLe : (p.align c).endToAdd.toNat ≤ c.tsLen.toNat
  size : (p.align c).alignSize.toNat = p.size.toNat + (p.align c).headToAdd.toNat + (p.align c).endToAdd.toNat +
    (p.align c).cipherHead.toNat + (p.align c).cipherEnd.toNat
  lt : (p.align c).alignSize.toNat < 0x80000000

theorem Part.spaced {p : Part} (hsize : p.size.toNat ≤ c.playMaxFrameSize.toNat) : p.Spaced c := by
  have hroom := c.room
  have hhead : (p.align c).headToAdd.toNat < c.tsLen.toNat :=
    setWidth_mod p.offset c.tsLen c.tsLen_pos ▸ Nat.mod_lt _ c.tsLen_pos
  have hcipher : (p.align c).cipherHead.toNat < c.cipherPkgLen.toNat :=
    setWidth_mod (p.offset - (p.align c).headToAdd.setWidth 64) c.cipherPkgLen c.cipherPkgLen_pos ▸
      Nat.mod_lt _ c.cipherPkgLen_pos
  have hend : 0 < (p.align c).endToAdd.toNat ∧ (p.align c).endToAdd.toNat ≤ c.tsLen.toNat :=
    missing_le (p.offset + p.size.setWidth 64) c.tsLen c.tsLen_pos
  have hcend : 0 < (p.align c).cipherEnd.toNat ∧ (p.align c).cipherEnd.toNat ≤ c.cipherPkgLen.toNat :=
    missing_le (p.offset + p.size.setWidth 64 + (p.align c).endToAdd.setWidth 64) c.cipherPkgLen c.cipherPkgLen_pos
  have hsum : p.size.toNat + (p.align c).headToAdd.toNat + (p.align c).endToAdd.toNat + (p.align c).cipherHead.toNat +
      (p.align c).cipherEnd.toNat < 0x80000000 := by
    omega
  have hnat : (p.align c).alignSize.toNat = p.size.toNat + (p.align c).headToAdd.toNat + (p.align c).endToAdd.toNat +
      (p.align c).cipherHead.toNat + (p.align c).cipherEnd.toNat := toNat_sum hsum
  exact ⟨hhead, hend.1, hend.2, hnat, hnat ▸ hsum⟩

/-! ## What is done for a part -/

/-- The place of the data in the buffer. -/
def Part.start (c : Consts) (p : Part) : Nat := (p.align c).cipherHead.toNat + (p.align c).headToAdd.toNat

/-- The bytes that the read got. -/
def Part.got (c : Consts) (p : Part) : Nat := (p.read c).1.toNat

/-- **All data of a part** is read, decrypted and taken by the demultiplexer. -/
structure Part.Done (c : Consts) (patch : Patch) (state : State) (p : Part) : Prop where
  read : p.start c + p.size.toNat ≤ p.got c
  decrypted : p.call.doCipher = true → ∀ x, p.start c ≤ x → x < p.start c + p.size.toNat →
    ∃ addr len, .decrypt addr len ∈ (p.send c patch state).2 ∧
      (p.call.phyAddr + BitVec.ofNat 32 x - addr).toNat < len.toNat
  put : ∃ granted startPos len bytes, .put granted startPos len bytes ∈ (p.send c patch state).2 ∧
    startPos.toNat ≤ p.start c ∧ p.start c + p.size.toNat ≤ startPos.toNat + len.toNat

/-- **All bytes that the demultiplexer takes** of a part were read. -/
def Part.Fresh (c : Consts) (patch : Patch) (state : State) (p : Part) : Prop :=
  ∀ granted startPos len bytes, .put granted startPos len bytes ∈ (p.send c patch state).2 →
    startPos.toNat + len.toNat ≤ p.got c

/-! ## When it is done -/

/-- A part has its buffer and is read, however much, and its callback succeeds. -/
structure Part.Read (c : Consts) (p : Part) : Prop where
  getTsBuffer : p.call.getTsBuffer = true
  read : (p.read c).1 ≠ 0 ∧ (p.read c).1 ≠ -1 ∧ (p.read c).1 ≠ c.indexBeyondTs
  readCallBack : p.call.readCallBack = true

def Part.Decrypts (c : Consts) (p : Part) : Prop := p.call.Decrypts c (p.align c).alignSize.toNat

/-- No failure of a part is reported. -/
def Part.Succeeds (c : Consts) (p : Part) : Prop := p.Read c ∧ (p.Decrypts c → p.call.putTsBuffer = true)

/-- How far the data goes into its last packet. -/
def Part.over (c : Consts) (p : Part) : Nat := (p.offset + p.size.setWidth 64).toNat % c.tsLen.toNat

/-- The length of the packets of a part: from the one of the first byte up to the last packet boundary in the data, or
    up to the end of the packet of the last byte. -/
def Part.packets (c : Consts) (state : State) (p : Part) : Nat :=
  if state.sendsAll then (p.align c).headToAdd.toNat + p.size.toNat - p.over c
  else (p.align c).headToAdd.toNat + p.size.toNat + (c.tsLen.toNat - p.over c)

/-- The read has all packets, where they are taken. -/
def Part.Long (c : Consts) (state : State) (p : Part) : Prop :=
  p.Read c → p.Decrypts c → p.call.putTsBuffer = true → (p.align c).cipherHead.toNat + p.packets c state ≤ p.got c

theorem realSend_start (c : Consts) (state : State) (bytesSend cipherHead cipherEnd endToAdd : BitVec 32) :
    (realSend c state bytesSend cipherHead cipherEnd endToAdd).2 = cipherHead := by
  unfold realSend
  split <;> rfl

/-- The length of what is handed over. -/
def Part.len (c : Consts) (state : State) (p : Part) : BitVec 32 :=
  (realSend c state (p.align c).alignSize (p.align c).cipherHead (p.align c).cipherEnd (p.align c).endToAdd).1

/-- Data that begins in a packet goes on at least to the boundary from which its end is counted. -/
theorem Part.over_le {p : Part} : p.over c ≤ (p.align c).headToAdd.toNat + p.size.toNat := by
  have hhead : (p.align c).headToAdd.toNat = p.offset.toNat % c.tsLen.toNat := setWidth_mod p.offset c.tsLen c.tsLen_pos
  have hend : (p.offset + p.size.setWidth 64).toNat = (p.offset.toNat + p.size.toNat) % 2 ^ 64 := by
    rw [BitVec.toNat_add, toNat_wide]
  have hoff := p.offset.isLt
  have hsize := p.size.isLt
  unfold Part.over
  rw [hend, hhead]
  by_cases hwrap : p.offset.toNat + p.size.toNat < 2 ^ 64
  · rw [Nat.mod_eq_of_lt hwrap]
    have hfloor := tsFloor_mono c (Nat.le_add_right p.offset.toNat p.size.toNat)
    have hmod := Nat.mod_le p.offset.toNat c.tsLen.toNat
    have hmod' := Nat.mod_le (p.offset.toNat + p.size.toNat) c.tsLen.toNat
    unfold tsFloor at hfloor
    omega
  · -- behind 2^64 the end counts from zero again
    refine Nat.le_trans (Nat.mod_le _ _) ?_
    omega

theorem Part.Spaced.len_eq {p : Part} (h : p.Spaced c) (state : State) : (p.len c state).toNat = p.packets c state := by
  have hover := p.over_le (c := c)
  have hsize := h.size
  have hlt := h.lt
  have hroom := c.room
  have hendPos := h.endPos
  have hend : (p.align c).endToAdd.toNat = c.tsLen.toNat - p.over c :=
    toNat_missing (p.offset + p.size.setWidth 64) c.tsLen c.tsLen_pos
  have hne : (p.align c).endToAdd ≠ 0 := fun hzero => Nat.lt_irrefl 0 (by rwa [hzero] at hendPos)
  unfold Part.len realSend Part.packets
  cases state.sendsAll with
  | true =>
    rw [if_pos rfl, if_pos rfl]
    dsimp only
    rw [if_pos hne, BitVec.toNat_sub, BitVec.toNat_sub, BitVec.toNat_add]
    omega
  | false =>
    rw [if_neg Bool.false_ne_true, if_neg Bool.false_ne_true]
    rw [BitVec.toNat_sub, BitVec.toNat_sub]
    omega

theorem Part.send_eq (c : Consts) (patch : Patch) (state : State) (p : Part) :
    p.send c patch state =
      if !p.call.getTsBuffer then (.playInvalidTsBuffer, [])
      else if (p.read c).1 ≠ (p.align c).alignSize ∧ (p.read c).1 = -1 then
        (.failure, [.read (p.align c).readOffset (p.align c).alignSize])
      else if (p.read c).1 ≠ (p.align c).alignSize ∧ (p.read c).1 = 0 then
        (.fileTillEnd, [.read (p.align c).readOffset (p.align c).alignSize])
      else if (p.read c).1 ≠ (p.align c).alignSize ∧ (p.read c).1 = c.indexBeyondTs then
        (.playIndexBeyondTs, [.read (p.align c).readOffset (p.align c).alignSize])
      else if !p.call.readCallBack then (.failure, [.read (p.align c).readOffset (p.align c).alignSize])
      else if !(procCipherDecrypt c p.call (p.align c).alignSize).1 then
        (.success, [.read (p.align c).readOffset (p.align c).alignSize] ++
          (procCipherDecrypt c p.call (p.align c).alignSize).2)
      else if p.call.putTsBuffer then
        (.success, [.read (p.align c).readOffset (p.align c).alignSize] ++
          (procCipherDecrypt c p.call (p.align c).alignSize).2 ++
          [.put (p.align c).alignSize (realSend c state (p.align c).alignSize (p.align c).cipherHead
            (p.align c).cipherEnd
            (p.align c).endToAdd).2 (p.len c state)
            (((if state.sendsAll then (p.read c).2 else patch (p.read c).2).drop (realSend c state (p.align c).alignSize
              (p.align c).cipherHead (p.align c).cipherEnd (p.align c).endToAdd).2.toNat).take (p.len c state).toNat)])
      else (.failure, [.read (p.align c).readOffset (p.align c).alignSize] ++
        (procCipherDecrypt c p.call (p.align c).alignSize).2) :=
  rfl

/-- The length of a read is none of the codes. -/
theorem Part.Spaced.codes {p : Part} (h : p.Spaced c) {r : BitVec 32} (hr : r = 0 ∨ r = -1 ∨ r = c.indexBeyondTs) :
    r ≠ (p.align c).alignSize := by
  have hbeyond := c.indexBeyondTs_ge
  have hlt := h.lt
  have hpos : 0 < (p.align c).alignSize.toNat := by
    have := h.endPos
    have := h.size
    omega
  rintro rfl
  rcases hr with hr | hr | hr
  · rw [hr] at hpos
    exact Nat.lt_irrefl 0 hpos
  · rw [hr] at hlt
    exact absurd hlt (by decide)
  · rw [hr] at hlt
    exact Nat.not_lt.mpr hbeyond hlt

/-- **A part that is not read**, or whose callback fails, says so, and nothing of it is taken. -/
theorem Part.Spaced.send_not_read {p : Part} (h : p.Spaced c) (hread : ¬ p.Read c) :
    (p.send c patch state).1 ≠ .success ∧
      ∀ granted startPos len bytes, .put granted startPos len bytes ∉ (p.send c patch state).2 := by
  rw [Part.send_eq]
  by_cases hget : p.call.getTsBuffer = true
  · rw [hget, if_neg (by decide)]
    by_cases hfail : (p.read c).1 = -1
    · rw [if_pos ⟨h.codes (.inr (.inl hfail)), hfail⟩]
      simp
    rw [if_neg (fun hc => hfail hc.2)]
    by_cases hnone : (p.read c).1 = 0
    · rw [if_pos ⟨h.codes (.inl hnone), hnone⟩]
      simp
    rw [if_neg (fun hc => hnone hc.2)]
    by_cases hbehind : (p.read c).1 = c.indexBeyondTs
    · rw [if_pos ⟨h.codes (.inr (.inr hbehind)), hbehind⟩]
      simp
    rw [if_neg (fun hc => hbehind hc.2)]
    have hback : p.call.readCallBack = false :=
      Bool.not_eq_true _ ▸ fun hback => hread ⟨hget, ⟨hnone, hfail, hbehind⟩, hback⟩
    rw [hback]
    simp
  · rw [Bool.not_eq_true] at hget
    rw [hget]
    simp

/-- **A part that is read**: what becomes of it is a matter of the cipher and of the demultiplexer. -/
theorem Part.Read.send {p : Part} (h : p.Read c) :
    p.send c patch state =
      if (procCipherDecrypt c p.call (p.align c).alignSize).1 then
        if p.call.putTsBuffer then
          (.success, [.read (p.align c).readOffset (p.align c).alignSize] ++
            (procCipherDecrypt c p.call (p.align c).alignSize).2 ++
            [.put (p.align c).alignSize (p.align c).cipherHead (p.len c state)
              (((if state.sendsAll then (p.read c).2 else patch (p.read c).2).drop
                (p.align c).cipherHead.toNat).take (p.len c state).toNat)])
        else (.failure, [.read (p.align c).readOffset (p.align c).alignSize] ++
          (procCipherDecrypt c p.call (p.align c).alignSize).2)
      else (.success, [.read (p.align c).readOffset (p.align c).alignSize] ++
        (procCipherDecrypt c p.call (p.align c).alignSize).2) := by
  rw [Part.send_eq, realSend_start, h.getTsBuffer, h.readCallBack, if_neg (by decide),
    if_neg (fun hc => h.read.2.1 hc.2),
    if_neg (fun hc => h.read.1 hc.2), if_neg (fun hc => h.read.2.2 hc.2), if_neg (by decide)]
  cases (procCipherDecrypt c p.call (p.align c).alignSize).1 <;> rfl

/-- Reading and decrypting hand nothing over. -/
theorem put_not_mem {p : Part} {granted startPos len : BitVec 32} {bytes : List Byte} :
    .put granted startPos len bytes ∉ [.read (p.align c).readOffset (p.align c).alignSize] ++
      (procCipherDecrypt c p.call (p.align c).alignSize).2 := by
  intro hmem
  rcases List.mem_append.mp hmem with hmem | hmem
  · cases List.mem_singleton.mp hmem
  · obtain ⟨_, _, heq⟩ := procCipherDecrypt_events _ hmem
    cases heq

theorem Part.Read.send_of_not {p : Part} (h : p.Read c) (hdecrypt : ¬ p.Decrypts c) :
    p.send c patch state = (.success, [.read (p.align c).readOffset (p.align c).alignSize] ++
      (procCipherDecrypt c p.call (p.align c).alignSize).2) := by
  rw [h.send, if_neg (mt (procCipherDecrypt_iff c p.call (p.align c).alignSize).mp hdecrypt)]

/-- **A part comes back with success** where no failure of it is reported, that of the cipher left out. -/
theorem Part.Spaced.success_iff {p : Part} (h : p.Spaced c) : (p.send c patch state).1 = .success ↔ p.Succeeds c := by
  by_cases hread : p.Read c
  · by_cases hdecrypt : p.Decrypts c
    · rw [hread.send, if_pos ((procCipherDecrypt_iff c p.call (p.align c).alignSize).mpr hdecrypt)]
      cases hput : p.call.putTsBuffer with
      | true => exact iff_of_true rfl ⟨hread, fun _ => hput⟩
      | false => exact iff_of_false (by simp) (fun hs => absurd (hput.symm.trans (hs.2 hdecrypt)) Bool.false_ne_true)
    · rw [hread.send_of_not hdecrypt]
      exact iff_of_true rfl ⟨hread, fun hd => absurd hd hdecrypt⟩
  · exact iff_of_false (h.send_not_read hread).1 (fun hs => hread hs.1)

/-- **What is taken of a part**: its packets, if it is read and decrypted. -/
theorem Part.Spaced.put_mem_iff {p : Part} (h : p.Spaced c) (patch : Patch) (state : State) {startPos len : BitVec 32} :
    (∃ granted bytes, .put granted startPos len bytes ∈ (p.send c patch state).2) ↔
      (p.Read c ∧ p.Decrypts c ∧ p.call.putTsBuffer = true) ∧ startPos = (p.align c).cipherHead ∧
        len = p.len c state := by
  by_cases hread : p.Read c
  · by_cases hdecrypt : p.Decrypts c
    · rw [hread.send, if_pos ((procCipherDecrypt_iff c p.call (p.align c).alignSize).mpr hdecrypt)]
      cases hput : p.call.putTsBuffer with
      | true =>
        constructor
        · rintro ⟨granted, bytes, hmem⟩
          rcases List.mem_append.mp hmem with hmem | hmem
          · exact absurd hmem put_not_mem
          · obtain ⟨-, rfl, rfl, -⟩ := Event.put.inj (List.mem_singleton.mp hmem)
            exact ⟨⟨hread, hdecrypt, rfl⟩, rfl, rfl⟩
        · rintro ⟨-, rfl, rfl⟩
          exact ⟨_, _, List.mem_append_right _ (List.mem_singleton.mpr rfl)⟩
      | false =>
        exact iff_of_false (fun ⟨_, _, hmem⟩ => put_not_mem hmem) (fun hs => absurd hs.1.2.2 Bool.false_ne_true)
    · rw [hread.send_of_not hdecrypt]
      exact iff_of_false (fun ⟨_, _, hmem⟩ => put_not_mem hmem) (fun hs => hdecrypt hs.1.2.1)
  · exact iff_of_false (fun ⟨_, _, hmem⟩ => (h.send_not_read hread).2 _ _ _ _ hmem) (fun hs => hread hs.1.1)

/-- **Nothing but what was read is taken** if and only if the read has all packets. -/
theorem Part.Spaced.fresh_iff {p : Part} (h : p.Spaced c) : p.Fresh c patch state ↔ p.Long c state := by
  unfold Part.Fresh Part.Long
  rw [← h.len_eq]
  constructor
  · intro hfresh hread hdecrypt hput
    obtain ⟨_, _, hmem⟩ := (h.put_mem_iff patch state).mpr ⟨⟨hread, hdecrypt, hput⟩, rfl, rfl⟩
    exact hfresh _ _ _ _ hmem
  · intro hlong granted startPos len bytes hmem
    obtain ⟨⟨hread, hdecrypt, hput⟩, rfl, rfl⟩ := (h.put_mem_iff patch state).mp ⟨granted, bytes, hmem⟩
    exact hlong hread hdecrypt hput

/-- **A part that comes back with success** is done if and only if it is decrypted and, in the states in which the
    stream is sent as it is, ends at a packet boundary. -/
theorem Part.Spaced.done_iff {p : Part} (h : p.Spaced c) (hsuccess : p.Succeeds c) (hlong : p.Long c state) :
    p.Done c patch state ↔ p.Decrypts c ∧ (state.sendsAll = true → p.over c = 0) := by
  have hsize := h.size
  have hlen := h.len_eq state
  have hover := p.over_le (c := c)
  have hbound : (p.align c).headToAdd.toNat + p.size.toNat ≤ p.packets c state ↔
      (state.sendsAll = true → p.over c = 0) := by
    unfold Part.packets
    cases state.sendsAll with
    | true =>
      rw [if_pos rfl]
      exact ⟨fun hle _ => by omega, fun hzero => by rw [hzero rfl]; omega⟩
    | false =>
      rw [if_neg Bool.false_ne_true]
      exact ⟨fun _ hc => absurd hc Bool.false_ne_true, fun _ => by omega⟩
  rw [← hbound]
  constructor
  · rintro ⟨-, -, granted, startPos, len, bytes, hmem, -, hend⟩
    obtain ⟨⟨-, hdecrypt, -⟩, rfl, rfl⟩ := (h.put_mem_iff patch state).mp ⟨granted, bytes, hmem⟩
    unfold Part.start at hend
    exact ⟨hdecrypt, by omega⟩
  · rintro ⟨hdecrypt, hle⟩
    have hput := hsuccess.2 hdecrypt
    have hread := hlong hsuccess.1 hdecrypt hput
    obtain ⟨granted, bytes, hmem⟩ := (h.put_mem_iff patch state).mpr
      ⟨⟨hsuccess.1, hdecrypt, hput⟩, rfl, rfl⟩
    have hdone := (procCipherDecrypt_iff c p.call (p.align c).alignSize).mpr hdecrypt
    refine ⟨by unfold Part.start; omega, fun hcipher x _ hx => ?_, granted, _, _, bytes, hmem, ?_, ?_⟩
    · have hloop : procCipherDecrypt c p.call (p.align c).alignSize =
          decryptLoop c p.call 21 0 (p.align c).alignSize := by
        unfold procCipherDecrypt
        rw [hcipher]
        rfl
      rw [hloop] at hdone
      obtain ⟨addr, len, hevent, hcover⟩ := decryptLoop_covers 21 0 (p.align c).alignSize hdone x
        (by unfold Part.start at hx; omega)
      refine ⟨addr, len, ?_, ?_⟩
      · rw [hsuccess.1.send, hloop, if_pos hdone, if_pos hput]
        exact List.mem_append_left _ (List.mem_append_right _ hevent)
      · rwa [show (0 : BitVec 32) * c.cipherMaxLen = 0 from BitVec.zero_mul, show p.call.phyAddr + 0 =
          p.call.phyAddr from
          BitVec.add_zero _] at hcover
    · unfold Part.start
      omega
    · unfold Part.start
      omega

/-! ## A frame -/

/-- The parts of a frame. -/
def Input.data (i : Input) : List Part := if i.size2 ≠ 0 then [i.first, i.second] else [i.first]

/-- The size of the parts of a frame. -/
theorem size_le (hdef : i.cyclic = true → 0 < i.maxFileSize.toNat) :
    i.size1.toNat + i.size2.toNat = i.frame.frameSize.toNat := by
  by_cases hcyclic : i.cyclic = true
  · by_cases hover : i.frame.offset % i.maxFileSize + i.frame.frameSize.setWidth 64 > i.maxFileSize
    · exact (Strides.parts ⟨hcyclic, hdef hcyclic, hover⟩).2.2.2.2
    · unfold Input.size1 Input.size2 Input.parts
      rw [if_pos hcyclic]
      rw [if_neg hover]
      rfl
  · unfold Input.size1 Input.size2 Input.parts
    rw [if_neg hcyclic]
    rfl

/-- The test of its size does not skip a frame. -/
def Input.Taken (c : Consts) (i : Input) : Prop := i.frame.frameSize ≠ 0 ∧ ¬ i.frame.frameSize > c.playMaxFrameSize

/-- The sending of a frame comes to its data: there is room for it, and the packet with the time is sent. -/
structure Input.Reached (c : Consts) (chn : Chn) (i : Input) : Prop where
  taken : i.Taken c
  room : ∃ bufSize usedSize, i.tsBufferStatus = some (bufSize, usedSize) ∧
    ¬ bufSize - usedSize < 2 * (c.cipherPkgLen + c.tsLen) + i.frame.frameSize + c.tsLen
  time : chn.recordedVideoExist = true → ∀ vidPid, i.vidPid = some vidPid → vidPid ≠ 0x1fff → i.privatePacket = true

/-- **What a success should say**: all data of the frame was read, decrypted and put; and whatever is returned, no byte
    of a part is put that was not read. The packet with the time and the patches of the other states are no such
    bytes. -/
structure Whole (c : Consts) (patch : Patch) (chn : Chn) (i : Input) : Prop where
  done : i.Taken c → (sendAframe c patch chn i).2.1 = .success →
    aframeParts c patch chn i = i.data ∧ i.size1.toNat + i.size2.toNat = i.frame.frameSize.toNat ∧
      ∀ p ∈ i.data, p.Done c patch chn.state
  fresh : ∀ p ∈ aframeParts c patch chn i, p.Fresh c patch chn.state

/-- **The condition.** The read of each part has all packets that are taken; and unless a failure of a part is reported,
    all parts are decrypted and, in the states in which the stream is sent as it is, end at a packet boundary. -/
structure Sound (c : Consts) (state : State) (i : Input) : Prop where
  first : i.first.Long c state
  second : i.size2 ≠ 0 → i.first.Succeeds c → i.second.Long c state
  success : (∀ p ∈ i.data, p.Succeeds c) → ∀ p ∈ i.data, p.Decrypts c ∧ (state.sendsAll = true → p.over c = 0)

theorem sendTime_iff : (sendTime (chn.setFrame i.frame) i).1 = .success ↔
    (chn.recordedVideoExist = true → ∀ vidPid, i.vidPid = some vidPid → vidPid ≠ 0x1fff → i.privatePacket = true) := by
  unfold sendTime Chn.setFrame
  cases chn.recordedVideoExist with
  | false => simp
  | true =>
    cases i.vidPid with
    | none => simp
    | some vidPid =>
      by_cases hpid : vidPid = 0x1fff#32
      · simp [hpid]
      · cases i.privatePacket <;> simp [hpid]

/-- **A frame that comes to its data**, and one that does not. -/
theorem aframeParts_reached (patch : Patch) (h : i.Reached c chn) :
    aframeParts c patch chn i = sentParts c patch chn.state i := by
  obtain ⟨bufSize, usedSize, hstatus, hroom⟩ := h.room
  unfold aframeParts
  rw [if_neg h.taken.1, if_neg h.taken.2, hstatus]
  dsimp only
  rw [if_neg hroom, if_neg (not_not.mpr (sendTime_iff.mpr h.time))]

theorem aframeParts_not_reached (patch : Patch) (h : ¬ i.Reached c chn) :
    aframeParts c patch chn i = [] ∧ (i.Taken c → (sendAframe c patch chn i).2.1 ≠ .success) := by
  unfold aframeParts sendAframe
  by_cases hzero : i.frame.frameSize = 0
  · exact ⟨if_pos hzero, fun ht => absurd hzero ht.1⟩
  by_cases hlong : i.frame.frameSize > c.playMaxFrameSize
  · exact ⟨(if_neg hzero).trans (if_pos hlong), fun ht => absurd hlong ht.2⟩
  rw [if_neg hzero, if_neg hzero, if_neg hlong, if_neg hlong]
  cases hstatus : i.tsBufferStatus with
  | none => exact ⟨rfl, fun _ => by simp⟩
  | some status =>
    obtain ⟨bufSize, usedSize⟩ := status
    dsimp only
    by_cases hroom : bufSize - usedSize < 2 * (c.cipherPkgLen + c.tsLen) + i.frame.frameSize + c.tsLen
    · rw [if_pos hroom, if_pos hroom]
      exact ⟨rfl, fun _ => by simp⟩
    · rw [if_neg hroom, if_neg hroom]
      have htime : (sendTime (chn.setFrame i.frame) i).1 ≠ .success :=
        fun ht => h ⟨⟨hzero, hlong⟩, ⟨bufSize, usedSize, hstatus, hroom⟩, sendTime_iff.mp ht⟩
      rw [if_pos htime, if_pos htime]
      exact ⟨rfl, fun _ => htime⟩

/-- What the data of a frame comes back with. -/
theorem sendAframe_ret (patch : Patch) (h : i.Reached c chn) (h1 : i.first.Spaced c) (h2 : i.second.Spaced c) :
    (sendAframe c patch chn i).2.1 = .success ↔ ∀ p ∈ i.data, p.Succeeds c := by
  have hparts := aframeParts_reached patch h
  have hne : aframeParts c patch chn i ≠ [] := by
    rw [hparts, sentParts]
    split <;> exact List.cons_ne_nil _ _
  rw [sendAframe_parts hne, hparts]
  unfold sentParts Input.data
  by_cases htwo : i.size2 = 0
  · rw [if_neg (fun hc => hc.1 htwo), if_neg (not_not.mpr htwo)]
    simp only [sendEach_cons, sendEach_nil, h1.success_iff, List.mem_singleton, forall_eq]
  · rw [if_pos htwo]
    by_cases hone : (i.first.send c patch chn.state).1 = .success
    · rw [if_pos ⟨htwo, hone⟩]
      have hfirst := h1.success_iff.mp hone
      simp only [sendEach_cons, sendEach_nil, h2.success_iff, List.mem_cons, List.not_mem_nil, or_false,
        forall_eq_or_imp, forall_eq]
      exact (and_iff_right hfirst).symm
    · rw [if_neg (fun hc => hone hc.2)]
      have hfirst := mt h1.success_iff.mpr hone
      simp only [sendEach_cons, sendEach_nil, h1.success_iff, List.mem_cons, List.not_mem_nil, or_false,
        forall_eq_or_imp, forall_eq]
      exact iff_of_false hfirst (fun hc => hfirst hc.1)

/-- The parts that are sent. -/
theorem mem_sentParts (h1 : i.first.Spaced c) {p : Part} : p ∈ sentParts c patch state i ↔
    p = i.first ∨ (i.size2 ≠ 0 ∧ i.first.Succeeds c) ∧ p = i.second := by
  unfold sentParts
  have hone : (i.first.send c patch state).1 = .success ↔ i.first.Succeeds c := h1.success_iff
  rw [← hone]
  split
  · rename_i hboth
    rw [List.mem_cons, List.mem_singleton, and_iff_right hboth]
  · rename_i hboth
    rw [List.mem_singleton]
    exact ⟨.inl, fun hp => hp.resolve_right (fun hc => hboth hc.1)⟩

/-- **A success says that the whole frame was read, decrypted and put, and nothing is put that was not read**, if and
    only if the condition holds of a frame that comes to its data. -/
theorem sendAframe_whole_iff (c : Consts) (patch : Patch) (chn : Chn) (i : Input)
    (hdef : i.cyclic = true → 0 < i.maxFileSize.toNat) :
    Whole c patch chn i ↔ (i.Reached c chn → Sound c chn.state i) := by
  have hsum := size_le hdef
  by_cases hreached : i.Reached c chn
  · have hmax : i.frame.frameSize.toNat ≤ c.playMaxFrameSize.toNat :=
      Nat.not_lt.mp (fun hlt => hreached.taken.2 (BitVec.lt_def.mpr hlt))
    have h1 : i.first.Spaced c := Part.spaced (Nat.le_trans (Nat.le.intro hsum) hmax)
    have h2 : i.second.Spaced c := Part.spaced (Nat.le_trans (Nat.le.intro ((Nat.add_comm _ _).trans hsum)) hmax)
    have hdata {p : Part} (hp : p ∈ i.data) : p.Spaced c := by
      unfold Input.data at hp
      split at hp
      · rcases List.mem_cons.mp hp with rfl | hp
        · exact h1
        · exact List.mem_singleton.mp hp ▸ h2
      · exact List.mem_singleton.mp hp ▸ h1
    have hparts := aframeParts_reached patch hreached
    have hret := sendAframe_ret patch hreached h1 h2
    -- where the success is reported, all parts are sent
    have hall (hs : ∀ p ∈ i.data, p.Succeeds c) : sentParts c patch chn.state i = i.data := by
      unfold sentParts Input.data at *
      by_cases htwo : i.size2 = 0
      · rw [if_neg (fun hc => hc.1 htwo), if_neg (not_not.mpr htwo)]
      · rw [if_pos htwo] at hs ⊢
        rw [if_pos ⟨htwo, h1.success_iff.mpr (hs _ (List.mem_cons_self ..))⟩]
    refine Iff.trans ?_ (forall_prop_of_true hreached).symm
    constructor
    · intro h
      have hlong {p : Part} (hp : p ∈ sentParts c patch chn.state i) (hspaced : p.Spaced c) : p.Long c chn.state :=
        hspaced.fresh_iff.mp (h.fresh p (hparts ▸ hp))
      refine ⟨hlong ((mem_sentParts h1).mpr (.inl rfl)) h1,
        fun htwo hone => hlong ((mem_sentParts h1).mpr (.inr ⟨⟨htwo, hone⟩, rfl⟩)) h2, fun hs p hp => ?_⟩
      obtain ⟨-, -, hdone⟩ := h.done hreached.taken (hret.mpr hs)
      exact ((hdata hp).done_iff (hs p hp) (hlong (hall hs ▸ hp) (hdata hp))).mp (hdone p hp)
    · intro h
      have hlong {p : Part} (hp : p ∈ sentParts c patch chn.state i) : p.Long c chn.state := by
        rcases (mem_sentParts h1).mp hp with rfl | ⟨⟨htwo, hone⟩, rfl⟩
        · exact h.first
        · exact h.second htwo hone
      refine ⟨fun _ hsuccess => ?_, fun p hp => ?_⟩
      · have hs := hret.mp hsuccess
        refine ⟨hparts.trans (hall hs), hsum, fun p hp => ?_⟩
        exact ((hdata hp).done_iff (hs p hp) (hlong (hall hs ▸ hp))).mpr (h.success hs p hp)
      · rw [hparts] at hp
        have hspaced : p.Spaced c := by
          rcases (mem_sentParts h1).mp hp with rfl | ⟨-, rfl⟩
          · exact h1
          · exact h2
        exact hspaced.fresh_iff.mpr (hlong hp)
  · obtain ⟨hnone, hret⟩ := aframeParts_not_reached patch hreached
    refine iff_of_true ⟨fun htaken hsuccess => absurd hsuccess (hret htaken), fun p hp => ?_⟩ (fun hc =>
      absurd hc hreached)
    rw [hnone] at hp
    exact absurd hp List.not_mem_nil

/-- Two packets over the end of the file, in the state PLAY: the first read is short, and yet has its packet. -/
theorem sendAframe_whole_two : Whole someConsts id playing (inFile 1316 376) := by
  have hdecrypts (n : BitVec 32) (hn : n.toNat ≤ 20 * someConsts.cipherMaxLen.toNat) :
      (fileCall (fileOf rewound 752)).Decrypts someConsts n.toNat := fun _ => ⟨hn, fun _ _ => rfl⟩
  refine (sendAframe_whole_iff someConsts id playing (inFile 1316 376) (fun _ => by decide)).mpr (fun _ => ?_)
  refine ⟨fun _ _ _ => by decide +kernel, fun _ _ _ _ _ => by decide +kernel, fun _ p hp => ?_⟩
  rcases List.mem_cons.mp hp with rfl | hp
  · exact ⟨hdecrypts _ (by decide), fun _ => by decide⟩
  · obtain rfl := List.mem_singleton.mp hp
    exact ⟨hdecrypts _ (by decide), fun _ => by decide⟩

/-- A file that ends in the packet of a frame. -/
def cutFile : Input := { inFile 376 188 with call1 := fileCall (fileOf counting 520) }

/-- **A packet that is not decrypted** is not handed over, and the frame comes back with success. And of a packet of
    which 144 bytes were read, 188 are handed over. -/
theorem failures_not_seen :
    ¬ Whole someConsts id playing notDecrypted ∧ ¬ Whole someConsts id playing cutFile := by
  refine ⟨fun h => ?_, fun h => ?_⟩
  · obtain ⟨-, -, hdone⟩ := h.done ⟨by decide, by decide⟩ (by decide +kernel)
    obtain ⟨granted, startPos, len, bytes, hmem, -⟩ := (hdone notDecrypted.first (List.mem_cons_self ..)).put
    have hnone : (notDecrypted.first.send someConsts id .play).2 = [.read 512 512] := by decide +kernel
    rw [show playing.state = .play from rfl, hnone] at hmem
    cases List.mem_singleton.mp hmem
  · have hone : aframeParts someConsts id playing cutFile ≠ [] := fun hnil =>
      absurd (congrArg List.length hnil) (by decide +kernel)
    have hparts := aframeParts_cases someConsts id playing cutFile
    have hfirst : cutFile.first ∈ aframeParts someConsts id playing cutFile := by
      rcases hparts with hnil | heq | heq
      · exact absurd hnil hone
      · exact heq ▸ List.mem_cons_self ..
      · exact heq ▸ List.mem_cons_self ..
    have hput : .put 1024 376 188 (piece counting 376 144) ∈
        (cutFile.first.send someConsts id .play).2 := by decide +kernel
    exact absurd (h.fresh _ hfirst _ _ _ _ hput) (by decide +kernel)

end HiSTB.Pvr.Play
