import HiSTB.Omxvdec.Correctness.Tables

/-!
# `Omxvdec.Correctness.Rejected` — what a rejected buffer leaves behind

* `streamed`, `framed` — the fields that are written before a buffer is rejected;
* `emptyThisStream_rejected`, `fillThisFrame_rejected` — the records and queues after a call that fails;
* `rejected_iff` — they are as before if and only if the fields had these values already.
-/

namespace HiSTB.Omxvdec.Bind

variable {write : Rec → Chan} {f : BufS → BufS}

/-! ## The record and what is written into it -/

/-- The record of the buffer that the descriptor names. -/
def Chan.recOf (s : Chan) (d : BufDesc) : Option Rec :=
  d.dir.port.bind (fun p => (s.findAddr p d.phyaddr).map (fun i => .entry p i))

/-- A record with the address of `r` is on the queue: the buffer is not accepted. -/
def Chan.inQueue (s : Chan) (p : Port) (r : Rec) : Bool :=
  (s.queue p).any (fun q => (s.buf r).phyAddr = (s.buf q).phyAddr)

/-- The record of a stream with the fields of its descriptor. -/
def streamed (s : Chan) (d : BufDesc) (b : BufS) : BufS :=
  { b with
    userVaddr := d.bufferaddr
    actLen := d.dataLen
    offset := d.dataOffset
    timeStamp := d.timestamp
    flags := d.flags
    usrTag := match s.lowdelay with
      | none => b.usrTag
      | some l => l.currentTag }

/-- The record of a frame with the fields of its descriptor. -/
def framed (d : BufDesc) (b : BufS) : BufS :=
  { b with userVaddr := d.bufferaddr, offset := d.dataOffset, actLen := 0 }

/-- The descriptor says of a stream what its record says already. -/
structure Streamed (s : Chan) (d : BufDesc) (b : BufS) : Prop where
  userVaddr : b.userVaddr = d.bufferaddr
  actLen : b.actLen = d.dataLen
  offset : b.offset = d.dataOffset
  timeStamp : b.timeStamp = d.timestamp
  flags : b.flags = d.flags
  usrTag : ∀ l, s.lowdelay = some l → b.usrTag = l.currentTag

/-- The descriptor says of a frame what its record says already. -/
structure Framed (d : BufDesc) (b : BufS) : Prop where
  userVaddr : b.userVaddr = d.bufferaddr
  offset : b.offset = d.dataOffset
  actLen : b.actLen = 0

/-- **The records and queues are as before.** -/
def Same (s t : Chan) : Prop := t.buf = s.buf ∧ t.queue = s.queue

variable {s t u : Chan} {p : Port} {r : Rec} {d : BufDesc} {b : BufS}

theorem streamed_eq_iff : streamed s d b = b ↔ Streamed s d b := by
  constructor
  · intro h
    refine ⟨?_, ?_, ?_, ?_, ?_, ?_⟩
    · exact (congrArg BufS.userVaddr h).symm
    · exact (congrArg BufS.actLen h).symm
    · exact (congrArg BufS.offset h).symm
    · exact (congrArg BufS.timeStamp h).symm
    · exact (congrArg BufS.flags h).symm
    · intro l hl
      have htag := congrArg BufS.usrTag h
      unfold streamed at htag
      rw [hl] at htag
      exact htag.symm
  · intro h
    unfold streamed
    rw [← h.userVaddr, ← h.actLen, ← h.offset, ← h.timeStamp, ← h.flags]
    cases hl : s.lowdelay with
    | none => rfl
    | some l =>
      dsimp only
      rw [← h.usrTag l hl]

theorem framed_eq_iff : framed d b = b ↔ Framed d b := by
  constructor
  · intro h
    exact ⟨(congrArg BufS.userVaddr h).symm, (congrArg BufS.offset h).symm, (congrArg BufS.actLen h).symm⟩
  · intro h
    unfold framed
    rw [← h.userVaddr, ← h.offset, ← h.actLen]

/-! ## The calls that fail -/

/-- **What a rejected call leaves**: nothing, if it finds no record; otherwise the record, which is queued, has been
    written by `write`. -/
def Rejects (s : Chan) (p : Port) (d : BufDesc) (write : Rec → Chan) (t : Chan) : Prop :=
  (s.recOf d = none ∧ t = s) ∨ ∃ r, s.recOf d = some r ∧ s.inQueue p r = true ∧ t = write r

theorem rejects_of_none (hr : s.recOf d = none) : Rejects s p d write t ↔ t = s := by
  unfold Rejects
  rw [hr]
  exact ⟨fun h => h.elim (fun h => h.2) (fun ⟨_, h, _⟩ => by cases h), fun h => Or.inl ⟨rfl, h⟩⟩

theorem rejects_of_some (hr : s.recOf d = some r) :
    Rejects s p d write t ↔ s.inQueue p r = true ∧ t = write r := by
  unfold Rejects
  rw [hr]
  constructor
  · rintro (⟨h, -⟩ | ⟨r', h, hq, ht⟩)
    · cases h
    · cases h
      exact ⟨hq, ht⟩
  · rintro ⟨hq, ht⟩
    exact Or.inr ⟨r, rfl, hq, ht⟩

theorem rejects_same_iff
    (hbuf : ∀ r, (write r).buf = Function.update s.buf r (f (s.buf r))) (hqueue : ∀ r, (write r).queue = s.queue) :
    (∀ t, Rejects s p d write t → Same s t) ↔
      ∀ r, s.recOf d = some r → s.inQueue p r = true → f (s.buf r) = s.buf r := by
  constructor
  · intro h r hr hq
    have hsame := (h (write r) (Or.inr ⟨r, hr, hq, rfl⟩)).1
    rw [hbuf] at hsame
    exact (Function.update_self r _ s.buf).symm.trans (congrFun hsame r)
  · rintro h t (⟨-, rfl⟩ | ⟨r, hr, hq, rfl⟩)
    · exact ⟨rfl, rfl⟩
    · refine ⟨?_, hqueue r⟩
      rw [hbuf, h r hr hq, Function.update_eq_self]

theorem lookupAddrTable_eq (s : Chan) (d : BufDesc) :
    s.lookupAddrTable d = match s.recOf d with
      | none => (s, none)
      | some r => (s.modBuf r (fun b => { b with userVaddr := d.bufferaddr }), some r) := by
  unfold Chan.lookupAddrTable Chan.recOf
  cases d.dir.port with
  | none => rfl
  | some p =>
    rw [Option.bind_some]
    dsimp only
    cases s.findAddr p d.phyaddr with
    | none => rfl
    | some i => rfl

/-- A queue takes the record unless it has one with the same address; then nothing changes. -/
theorem insertInList_false : u.insertInList p r = some (t, false) ↔ u.inQueue p r = true ∧ t = u := by
  unfold Chan.insertInList
  change (if u.inQueue p r = true then some (u, false) else _) = _ ↔ _
  by_cases hq : u.inQueue p r = true
  · rw [if_pos hq]
    simp [hq, eq_comm]
  · rw [if_neg hq]
    refine iff_of_false ?_ (fun h => hq h.1)
    split <;> simp

/-! ## Streams -/

/-- The channel with the stream in its record, before the queue is asked. -/
def emptied (s : Chan) (d : BufDesc) (r : Rec) : Chan :=
  ((s.modBuf r (fun b => { b with userVaddr := d.bufferaddr })).modBuf r (fun b =>
    { b with actLen := d.dataLen, offset := d.dataOffset, timeStamp := d.timestamp, flags := d.flags })).tagStream r

theorem emptied_buf (s : Chan) (d : BufDesc) (r : Rec) :
    (emptied s d r).buf = Function.update s.buf r (streamed s d (s.buf r)) := by
  have hlow : ∀ f g, ((s.modBuf r f).modBuf r g).lowdelay = s.lowdelay := fun _ _ => rfl
  unfold emptied Chan.tagStream streamed
  rw [hlow]
  cases s.lowdelay with
  | none => simp only [modBuf_buf, Function.update_self, Function.update_idem]
  | some l => simp only [modBuf_buf, Function.update_self, Function.update_idem]

theorem emptied_queue (s : Chan) (d : BufDesc) (r : Rec) : (emptied s d r).queue = s.queue := by
  unfold emptied Chan.tagStream
  split <;> rfl

/-- Writing other fields of a record does not change the address that the queue is asked for. -/
theorem inQueue_of_write (hf : (f (s.buf r)).phyAddr = (s.buf r).phyAddr)
    (hbuf : u.buf = Function.update s.buf r (f (s.buf r))) (hqueue : u.queue = s.queue) :
    u.inQueue p r = s.inQueue p r := by
  have haddr : ∀ q, (u.buf q).phyAddr = (s.buf q).phyAddr := by
    intro q
    rw [hbuf]
    by_cases hq : q = r
    · subst hq
      rw [Function.update_self, hf]
    · rw [Function.update_of_ne hq]
  simp only [Chan.inQueue, haddr, hqueue]

theorem emptyData_rejected : s.emptyData d = some (t, false) ↔ Rejects s .input d (emptied s d) t := by
  unfold Chan.emptyData
  rw [lookupAddrTable_eq]
  cases hr : s.recOf d with
  | none =>
    rw [rejects_of_none hr]
    simp [eq_comm]
  | some r =>
    rw [rejects_of_some hr, ← inQueue_of_write (f := streamed s d) rfl (emptied_buf s d r) (emptied_queue s d r)]
    exact insertInList_false

/-- A stream without data is not rejected, and after the data nothing fails. -/
theorem emptyThisStream_rejected {n : BitVec 32} {v : BitVec 64} :
    s.emptyThisStream d n v = some (t, false) ↔ d.dataLen ≠ 0 ∧ Rejects s .input d (emptied s d) t := by
  have hend : ∀ x : Chan × Bool, (if x.2 = true then
        if d.flags &&& VDEC_BUFFERFLAG_EOS ≠ 0 ∧ x.1.eosInList = false then
          (x.1.addLastFrame n v).map (fun t => (t, true))
        else some (x.1, true)
      else some (x.1, false)) = some (t, false) ↔ x = (t, false) := by
    rintro ⟨x, b⟩
    cases b with
    | true =>
      rw [if_pos rfl]
      refine iff_of_false ?_ (fun h => by cases h)
      split <;> simp
    | false => simp
  unfold Chan.emptyThisStream
  rw [Option.bind_eq_some_iff, ← emptyData_rejected]
  simp only [hend, exists_eq_right]
  by_cases hlen : d.dataLen ≠ 0
  · rw [if_pos hlen]
    exact ⟨fun h => ⟨hlen, h⟩, fun h => h.2⟩
  · rw [if_neg hlen]
    exact iff_of_false (fun h => by cases h) (fun h => hlen h.1)

/-! ## Frames -/

/-- The channel with the frame in its record, before the queue is asked. -/
def filled (s : Chan) (d : BufDesc) (r : Rec) : Chan :=
  (s.modBuf r (fun b => { b with userVaddr := d.bufferaddr })).modBuf r (fun b =>
    { b with offset := d.dataOffset, actLen := 0 })

theorem filled_buf (s : Chan) (d : BufDesc) (r : Rec) :
    (filled s d r).buf = Function.update s.buf r (framed d (s.buf r)) := by
  unfold filled framed
  simp only [modBuf_buf, Function.update_self, Function.update_idem]

theorem fillThisFrame_rejected : s.fillThisFrame d = some (t, false) ↔ Rejects s .output d (filled s d) t := by
  unfold Chan.fillThisFrame
  rw [lookupAddrTable_eq]
  cases hr : s.recOf d with
  | none =>
    rw [rejects_of_none hr]
    simp [eq_comm]
  | some r =>
    rw [rejects_of_some hr, ← inQueue_of_write (f := framed d) rfl (filled_buf s d r) rfl]
    exact insertInList_false

/-! ## What stays -/

/-- **What a rejected buffer leaves behind**: `channel_empty_this_stream` that fails leaves the records and queues
    as they are if and only if the buffer is unknown or its record had the descriptor's values already, and so
    does `channel_fill_this_frame`. -/
theorem rejected_iff (s : Chan) (d : BufDesc) (lastFrameBufId : BitVec 32) (invalidPts : BitVec 64) :
    ((∀ t, s.emptyThisStream d lastFrameBufId invalidPts = some (t, false) → Same s t) ↔
      d.dataLen = 0 ∨ ∀ r, s.recOf d = some r → s.inQueue .input r = true → Streamed s d (s.buf r)) ∧
    ((∀ t, s.fillThisFrame d = some (t, false) → Same s t) ↔
      ∀ r, s.recOf d = some r → s.inQueue .output r = true → Framed d (s.buf r)) := by
  constructor
  · have hsame := rejects_same_iff (p := .input) (d := d) (emptied_buf s d) (emptied_queue s d)
    simp only [emptyThisStream_rejected, streamed_eq_iff] at hsame ⊢
    rw [← hsame]
    constructor
    · intro h
      by_cases hlen : d.dataLen = 0
      · exact Or.inl hlen
      · exact Or.inr (fun t ht => h t ⟨hlen, ht⟩)
    · rintro (hlen | h) t ⟨hne, ht⟩
      · exact absurd hlen hne
      · exact h t ht
  · have hsame := rejects_same_iff (p := .output) (d := d) (filled_buf s d) (fun _ => rfl)
    simp only [framed_eq_iff] at hsame
    simp only [fillThisFrame_rejected]
    exact hsame

/-- A channel where the decoder has the stream at `0x100`. -/
def heldChan : Chan :=
  (sentChan (boundChan [0x100]) [0x100]).modBuf (.entry .input 0) (fun b => { b with status := .inUse })

/-- The user hands the stream over once more, with data further on: the call fails, and the release does not find
    the stream. -/
theorem emptyThisStream_loses :
    heldChan.releaseFind .input 0x100 = some (.entry .input 0) ∧
    ∃ t, heldChan.emptyThisStream { streamDesc 0x100 with dataOffset := 0x10 } 0 0 = some (t, false) ∧
      ¬ Same heldChan t ∧ t.releaseFind .input 0x100 = none := by
  refine ⟨by decide, emptied heldChan { streamDesc 0x100 with dataOffset := 0x10 } (.entry .input 0), ?_, ?_, ?_⟩
  · exact emptyThisStream_rejected.mpr ⟨by decide, (rejects_of_some (by decide)).mpr ⟨by decide, rfl⟩⟩
  · intro h
    exact absurd (congrArg BufS.offset (congrFun h.1 (.entry .input 0))) (by decide)
  · decide

end HiSTB.Omxvdec.Bind
