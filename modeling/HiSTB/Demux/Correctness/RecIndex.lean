import HiSTB.Demux.RecIndex

/-!
# `Demux.Correctness.RecIndex` — the `BUG` checks of the record index

Most of the checks hold for any stream. Two do not. `DMX_AcquireRecDataIndex` takes at most
`DMX_MAX_IDX_ACQUIRED_EACH_TIME` entries for one block, and halts at the next frame even where that frame only fills
the block; the stream decides how many frames end in a block. And `DMX_OsiResume` starts a running recording again
without emptying the list, which `DMX_DRV_REC_StartRecChn` requires to be empty.

* `helperEnd`, `frame_eq` — one round of the loop, in all cases, by where the frame ends;
* `go_eq` — the loop up to the next question;
* `Inv`, `Inv.step` — the invariant; a step of an allowed kind keeps it, and halts exactly where it is not calm;
* `run_no_bug` — no check fails in a calm run;
* `two_bugs` — the two cases.
-/

namespace HiSTB.Demux.RecIndex

open Lib

variable {q : Fq} {s t : RecInfo}

variable {b : Nat} {e : Helper} {r : Sys × List Event}

@[simp] theorem blockData_phyAddr (n : Nat) : (s.blockData q n).dataPhyAddr = s.blockStartAddr := rfl

@[simp] theorem blockData_len (n : Nat) : (s.blockData q n).len = n := rfl

/-! ## Where blocks and frames are -/

/-- The start of block `k` of the buffer. -/
def blockAddr (q : Fq) (k : Nat) : Nat := q.bufPhyAddr + k * q.blockSize

/-- The block behind the one at `b`. -/
def nextBlock (q : Fq) (b : Nat) : Nat := if b + q.blockSize = q.bufEnd then q.bufPhyAddr else b + q.blockSize

/-- A block of the buffer starts there. -/
def Aligned (q : Fq) (b : Nat) : Prop := ∃ k < q.blockCnt, b = blockAddr q k

theorem Aligned.start (q : Fq) : Aligned q q.bufPhyAddr := by
  refine ⟨0, q.blockCnt_pos, ?_⟩
  simp [blockAddr]

/-- A block ends inside the buffer, and only the last one at its end. -/
theorem Aligned.le (h : Aligned q b) : q.bufPhyAddr ≤ b ∧ b + q.blockSize ≤ q.bufEnd := by
  obtain ⟨k, hk, rfl⟩ := h
  have hmul : (k + 1) * q.blockSize ≤ q.blockCnt * q.blockSize := Nat.mul_le_mul_right _ hk
  rw [Nat.add_mul, Nat.one_mul] at hmul
  unfold blockAddr Fq.bufEnd Fq.bufSize
  omega

theorem Aligned.mod (h : Aligned q b) : (b - q.bufPhyAddr) % q.blockSize = 0 := by
  obtain ⟨k, -, rfl⟩ := h
  simp [blockAddr]

theorem blockAddr_last (q : Fq) (k : Nat) : blockAddr q k + q.blockSize = q.bufEnd ↔ k + 1 = q.blockCnt := by
  unfold blockAddr Fq.bufEnd Fq.bufSize
  rw [Nat.add_assoc, Nat.add_left_cancel_iff, ← Nat.succ_mul]
  exact Nat.mul_left_inj (Nat.pos_iff_ne_zero.mp q.blockSize_pos)

theorem nextBlock_blockAddr (q : Fq) (k : Nat) :
    nextBlock q (blockAddr q k) = if k + 1 = q.blockCnt then q.bufPhyAddr else blockAddr q (k + 1) := by
  unfold nextBlock
  simp only [blockAddr_last]
  split
  · rfl
  · unfold blockAddr
    rw [Nat.add_mul, Nat.one_mul, Nat.add_assoc]

theorem Aligned.next (h : Aligned q b) : Aligned q (nextBlock q b) := by
  obtain ⟨k, hk, rfl⟩ := h
  rw [nextBlock_blockAddr]
  split
  · exact Aligned.start q
  · next hne => exact ⟨k + 1, by omega, rfl⟩

/-- What `DMX_GetRecDataIndex` puts into the list. -/
structure HelperOk (q : Fq) (e : Helper) : Prop where
  one : e.rewind = false → e.dataSel = false
  slice0 : e.rewind = true → e.data0.dataPhyAddr + e.data0.len = q.bufEnd
  slice1 : e.rewind = true → e.data1.dataPhyAddr = q.bufPhyAddr ∧ 0 < e.data1.len

/-- Where the frame ends, from the first address of the slice that is looked at on. -/
def helperEnd (q : Fq) (e : Helper) : Nat :=
  if e.rewind then (if e.dataSel then q.bufPhyAddr else q.bufEnd) + e.data1.len
  else e.data0.dataPhyAddr + e.data0.len

/-- The second slice is next where the block at `b` is the last one. -/
def select (q : Fq) (b : Nat) (e : Helper) : Helper :=
  if e.rewind = true ∧ e.dataSel = false ∧ b + q.blockSize = q.bufEnd then { e with dataSel := true } else e

/-- The frame ends in the block at `b`. -/
def Ends (q : Fq) (b : Nat) (e : Helper) : Prop := b < helperEnd q e ∧ helperEnd q e ≤ b + q.blockSize
deriving Decidable

/-- What the loop relies on when it looks at the helper. -/
structure Ready (q : Fq) (s : RecInfo) (e : Helper) : Prop where
  aligned : Aligned q s.blockStartAddr
  helper : HelperOk q e
  second : e.dataSel = true → s.blockStartAddr < helperEnd q e ∧ s.remRecIdx = []
  carried : s.remRecIdx ≠ [] → s.remRecData = s.blockData q s.remRecData.len
  room : s.remRecIdx.length < q.maxIdx

/-- The first frame of a block, in one slice. -/
theorem newNoRewindFrame_eq (q : Fq) (s : RecInfo) (hrew : e.rewind = false) :
    s.newNoRewindFrame q e = some (if Ends q s.blockStartAddr e
      then (({ s with remRecData := s.blockData q (helperEnd q e - s.blockStartAddr) } : RecInfo).takeIndex e, none)
      else ({ s with remRecData := s.blockData q q.blockSize }, some (select q s.blockStartAddr e))) := by
  have hend : helperEnd q e = e.data0.dataPhyAddr + e.data0.len := by simp [helperEnd, hrew]
  have hsel : select q s.blockStartAddr e = e := by simp [select, hrew]
  unfold RecInfo.newNoRewindFrame RecInfo.bugOn Ends
  simp only [hend, hsel]
  split
  · rw [if_neg (by omega)]
  · split
    · rw [if_neg (by omega)]
    · rw [if_pos (by omega)]

/-- The first frame of a block, in two slices. -/
theorem newRewindFrame_eq (h : Ready q s e) (hrew : e.rewind = true) :
    s.newRewindFrame q e = some (if Ends q s.blockStartAddr e
      then (({ s with remRecData := s.blockData q (helperEnd q e - s.blockStartAddr) } : RecInfo).takeIndex e, none)
      else ({ s with remRecData := s.blockData q q.blockSize }, some (select q s.blockStartAddr e))) := by
  obtain ⟨hlo, hhi⟩ := h.aligned.le
  obtain ⟨hbase, hpos⟩ := h.helper.slice1 hrew
  have hsize := q.blockSize_pos
  unfold RecInfo.newRewindFrame RecInfo.bugOn
  cases hsel : e.dataSel with
  | false =>
    -- the first slice goes up to the end of the buffer, so it fills the block
    have hend : helperEnd q e = q.bufEnd + e.data1.len := by simp [helperEnd, hrew, hsel]
    have hnot : ¬ Ends q s.blockStartAddr e := by
      unfold Ends
      rw [hend]
      omega
    simp only [if_true, h.helper.slice0 hrew, if_neg hnot]
    rw [if_neg (by omega), if_pos (by omega)]
    simp only [RecInfo.blockData, select, hrew, hsel, true_and]
  | true =>
    have hend : helperEnd q e = e.data1.dataPhyAddr + e.data1.len := by simp [helperEnd, hrew, hsel, hbase]
    have hlt := (h.second hsel).1
    have hsel' : select q s.blockStartAddr e = e := by simp [select, hsel]
    unfold Ends
    simp only [Bool.true_eq_false, if_false, hend, hsel'] at hlt ⊢
    rw [if_neg (by omega)]
    split
    · rw [if_neg (by omega)]
    · rw [if_pos (by omega)]

/-- A further frame is treated as the first one is: the block has its start already. -/
theorem frame_new (h : Ready q s e) :
    s.frame q e = if e.rewind = false then s.newNoRewindFrame q e else s.newRewindFrame q e := by
  unfold RecInfo.frame
  split
  · rfl
  · next hlen =>
    have hne : s.remRecIdx ≠ [] := fun hnil => hlen (by rw [hnil]; rfl)
    have hstart : s.remRecData.dataPhyAddr = s.blockStartAddr := by rw [h.carried hne, blockData_phyAddr]
    have hvir : s.remRecData.dataAddr = RecInfo.virAddr q s.blockStartAddr := by
      rw [h.carried hne]
      rfl
    have hsel : e.dataSel = false := by
      by_contra hsel
      exact hne (h.second (by simpa using hsel)).2
    rw [if_pos h.room]
    simp only [RecInfo.appendNoRewindFrame, RecInfo.newNoRewindFrame, RecInfo.appendRewindFrame,
      RecInfo.newRewindFrame, RecInfo.blockData, hsel, hstart, hvir, if_true]
    rfl

/-- **One round of the loop.** The frame ends in the block and its entry goes with it, or it fills the block. -/
theorem frame_eq (h : Ready q s e) :
    s.frame q e = some (if Ends q s.blockStartAddr e
      then (({ s with remRecData := s.blockData q (helperEnd q e - s.blockStartAddr) } : RecInfo).takeIndex e, none)
      else ({ s with remRecData := s.blockData q q.blockSize }, some (select q s.blockStartAddr e))) := by
  rw [frame_new h]
  cases hrew : e.rewind with
  | false => exact newNoRewindFrame_eq q s hrew
  | true => exact newRewindFrame_eq h hrew

/-! ## The loop -/

/-- The block is handed out with the entries `idx`, and `head` stays in the list. -/
def handOut (q : Fq) (s : RecInfo) (idx : List Index) (head : List Helper) : Sys × List Event :=
  (⟨{ s with
      head := head, remRecData := s.blockData q q.blockSize, remRecIdx := [],
      blockStartAddr := nextBlock q s.blockStartAddr }, .idle⟩, [.ret (.data ⟨s.blockData q q.blockSize, idx⟩)])

/-- A complete block is handed out. -/
theorem finish_full (q : Fq) (s : RecInfo) (r : Ret) (idx : List Index) (head : List Helper)
    (hlen : idx.length ≤ q.maxIdx) :
    orBug ⟨{ s with head := head, remRecData := s.blockData q q.blockSize, remRecIdx := idx }, .idle⟩
      (RecInfo.finish q { s with head := head, remRecData := s.blockData q q.blockSize, remRecIdx := idx } r) =
      handOut q s idx head := by
  unfold RecInfo.finish RecInfo.bugOn handOut
  simp only [RecInfo.blockData, if_true]
  rw [if_neg (by omega)]
  rfl

/-- **The loop with a frame**: the frame fills the block, ends with it, or ends before its end. -/
theorem go_cons (h : Ready q s e) (hhead : s.head = [e]) (hlen : s.remRecData.len < q.blockSize) :
    go q s = if Ends q s.blockStartAddr e then
        if helperEnd q e = s.blockStartAddr + q.blockSize then handOut q s (s.remRecIdx ++ [e.index]) []
        else (⟨{ s with
          head := [], remRecData := s.blockData q (helperEnd q e - s.blockStartAddr),
          remRecIdx := s.remRecIdx ++ [e.index] }, .asking⟩, [])
      else handOut q s s.remRecIdx [select q s.blockStartAddr e] := by
  have hroom := h.room
  unfold go
  rw [hhead, RecInfo.frames, if_pos hlen, frame_eq h]
  by_cases hends : Ends q s.blockStartAddr e
  · obtain ⟨hlt, hle⟩ := hends
    simp only [if_pos (show Ends q s.blockStartAddr e from ⟨hlt, hle⟩), RecInfo.frames, RecInfo.takeIndex]
    by_cases hfull : helperEnd q e = s.blockStartAddr + q.blockSize
    · have hsub : helperEnd q e - s.blockStartAddr = q.blockSize := by omega
      rw [if_pos hfull, if_neg (by rw [hsub]; exact Nat.lt_irrefl _), hsub]
      exact finish_full q s .failure _ [] (by rw [List.length_append]; exact hroom)
    · rw [if_neg hfull, if_pos (by simp only [RecInfo.blockData]; omega)]
  · simp only [if_neg hends, blockData_len, Nat.lt_irrefl, if_false]
    exact finish_full q s .failure _ _ (Nat.le_of_lt hroom)

theorem go_nil (hhead : s.head = []) (hlen : s.remRecData.len < q.blockSize) : go q s = (⟨s, .asking⟩, []) := by
  unfold go
  rw [hhead, RecInfo.frames]
  simp only [if_pos hlen, ← hhead]

@[simp] theorem beginBlock_started (s : RecInfo) : s.beginBlock.started = s.started := by
  unfold RecInfo.beginBlock
  split <;> rfl

@[simp] theorem beginBlock_head (s : RecInfo) : s.beginBlock.head = s.head := by
  unfold RecInfo.beginBlock
  split <;> rfl

@[simp] theorem beginBlock_start (s : RecInfo) : s.beginBlock.blockStartAddr = s.blockStartAddr := by
  unfold RecInfo.beginBlock
  split <;> rfl

@[simp] theorem beginBlock_idx (s : RecInfo) : s.beginBlock.remRecIdx = s.remRecIdx := by
  unfold RecInfo.beginBlock
  split <;> rfl

theorem beginBlock_new (h : s.remRecIdx = []) : s.beginBlock.remRecData = ⟨0, 0, 0⟩ := by
  simp [RecInfo.beginBlock, h]

theorem beginBlock_carried (h : s.remRecIdx ≠ []) : s.beginBlock = s := by
  simp [RecInfo.beginBlock, h]

theorem acquire_eq (haligned : Aligned q s.blockStartAddr) : acquireRecDataIndex q s = go q s.beginBlock := by
  unfold acquireRecDataIndex
  rw [haligned.mod]
  exact if_neg (fun h => h rfl)

/-! ## The invariant -/

/-- `DMX_GetRecDataIndex` drops the entry. -/
def Dropped (q : Fq) (x : Index) : Prop := x.frameSize ≥ q.bufSize ∨ x.frameSize = 0
deriving Decidable

/-- The index has no frame for a block with the most entries, and a resume finds no frame in the list of a running
    recording. -/
def calm (q : Fq) (s : Sys) : Input → Prop
  | .answer (.index x) => s.info.remRecIdx.length < q.maxIdx ∨ Dropped q x
  | .resume true => s.info.started = true → s.info.head = []
  | _ => True

/-- What holds between the calls, and where a call asks. -/
structure Inv (q : Fq) (s : Sys) : Prop where
  running : s.pc ≠ .halted
  aligned : s.info.started = true → Aligned q s.info.blockStartAddr
  stopped : s.info.started = false → s.info.head = [] ∧ s.info.remRecIdx = []
  count : s.info.remRecIdx.length ≤ q.maxIdx
  carried : s.info.remRecIdx ≠ [] →
    s.info.remRecData = s.info.blockData q s.info.remRecData.len ∧ s.info.remRecData.len < q.blockSize
  list : s.info.head = [] ∨ ∃ e, s.info.head = [e] ∧ HelperOk q e ∧ s.info.remRecIdx = [] ∧
    (e.dataSel = true → s.info.blockStartAddr < helperEnd q e)
  asking : s.pc = .asking → s.info.started = true ∧ s.info.head = [] ∧ s.info.remRecData.len < q.blockSize

theorem inv_init : Inv q init where
  running := by simp [init]
  aligned := by simp [init]
  stopped := by simp [init]
  count := by simp [init]
  carried := by simp [init]
  list := .inl rfl
  asking := by simp [init]

/-- A recording that starts. -/
theorem inv_started (h : s.head = []) :
    Inv q ⟨{ s with started := true, blockStartAddr := q.bufPhyAddr, remRecIdx := [] }, .idle⟩ where
  running := by simp
  aligned := fun _ => Aligned.start q
  stopped := by simp
  count := by simp
  carried := by simp
  list := .inl h
  asking := by simp

/-- The next block starts before the frame ends, where its second slice is next. -/
theorem select_second (h : Ready q s e) (hends : ¬ Ends q s.blockStartAddr e)
    (hsel : (select q s.blockStartAddr e).dataSel = true) :
    nextBlock q s.blockStartAddr < helperEnd q (select q s.blockStartAddr e) := by
  have hsize := q.blockSize_pos
  obtain ⟨hlo, hhi⟩ := h.aligned.le
  unfold select at hsel ⊢
  split at hsel
  · next hlast =>
    rw [if_pos hlast]
    obtain ⟨hrew, -, hend⟩ := hlast
    obtain ⟨-, hpos⟩ := h.helper.slice1 hrew
    simp only [nextBlock, hend, if_true, helperEnd, hrew]
    omega
  · next hlast =>
    rw [if_neg hlast]
    have hlt := (h.second hsel).1
    unfold Ends at hends
    unfold nextBlock
    split <;> omega

theorem helperOk_select (h : HelperOk q e) (b : Nat) : HelperOk q (select q b e) := by
  unfold select
  split
  · next hlast =>
    refine ⟨?_, h.slice0, h.slice1⟩
    intro hrew
    rw [hlast.1] at hrew
    cases hrew
  · exact h

theorem inv_handOut (h : Ready q s e) (hstarted : s.started = true) (idx : List Index)
    {head : List Helper} (hhead : head = [] ∨ ¬ Ends q s.blockStartAddr e ∧ head = [select q s.blockStartAddr e]) :
    Inv q (handOut q s idx head).1 where
  running := by simp [handOut]
  aligned := fun _ => h.aligned.next
  stopped := by simp [handOut, hstarted]
  count := by simp [handOut]
  carried := by simp [handOut]
  list := by
    rcases hhead with hnil | ⟨hends, hcons⟩
    · exact .inl hnil
    · exact .inr ⟨_, hcons, helperOk_select h.helper _, rfl, select_second h hends⟩
  asking := by simp [handOut]

/-- The loop keeps the invariant and does not halt. -/
theorem inv_go (h : Ready q s e) (hstarted : s.started = true) (hhead : s.head = [e])
    (hlen : s.remRecData.len < q.blockSize) : Inv q (go q s).1 ∧ Event.bug ∉ (go q s).2 := by
  rw [go_cons h hhead hlen]
  split
  · next hends =>
    split
    · exact ⟨inv_handOut h hstarted _ (.inl rfl), by simp [handOut]⟩
    · next hpart =>
      refine ⟨⟨by simp, fun _ => h.aligned, by simp [hstarted], ?_, ?_, .inl rfl, ?_⟩, by simp⟩
      · simp only [List.length_append, List.length_singleton]
        exact h.room
      · intro _
        unfold Ends at hends
        refine ⟨rfl, ?_⟩
        simp only [blockData_len]
        omega
      · intro _
        unfold Ends at hends
        refine ⟨hstarted, rfl, ?_⟩
        simp only [blockData_len]
        omega
  · next hends => exact ⟨inv_handOut h hstarted _ (.inr ⟨hends, rfl⟩), by simp [handOut]⟩

/-- What `DMX_GetRecDataIndex` appends. -/
theorem getRecDataIndex_cases (q : Fq) (s : RecInfo) (x : Index) :
    Dropped q x ∧ s.getRecDataIndex q x = s ∨ ¬ Dropped q x ∧ ∃ e, HelperOk q e ∧ e.dataSel = false ∧ e.index = x ∧
        s.getRecDataIndex q x = { s with head := s.head ++ [e] } := by
  unfold RecInfo.getRecDataIndex
  simp only
  split
  · next hdrop => exact .inl ⟨hdrop, rfl⟩
  · next hdrop =>
    have hpos : 0 < q.bufSize := Nat.mul_pos q.blockCnt_pos q.blockSize_pos
    have hlt : x.globalOffset % q.bufSize < q.bufSize := Nat.mod_lt _ hpos
    refine .inr ⟨hdrop, ?_⟩
    split
    · next hend =>
      refine ⟨_, ⟨by simp, fun _ => ?_, fun _ => ⟨rfl, ?_⟩⟩, rfl, rfl, rfl⟩
      · unfold Fq.bufEnd
        simp only
        omega
      · unfold Fq.bufEnd at hend ⊢
        simp only
        omega
    · exact ⟨_, ⟨by simp, by simp, by simp⟩, rfl, rfl, rfl⟩

theorem go_bug (hhead : s.head = [e]) (hlen : s.remRecData.len < q.blockSize)
    (hcount : q.maxIdx ≤ s.remRecIdx.length) : go q s = (⟨s, .halted⟩, [.bug]) := by
  have hpos := q.maxIdx_pos
  unfold go
  rw [hhead, RecInfo.frames, if_pos hlen, RecInfo.frame, if_neg (by omega), if_neg (by omega)]

theorem finish_part (q : Fq) {s : RecInfo} (hlen : s.remRecData.len < q.blockSize) (r : Ret) :
    orBug ⟨s, .asking⟩ (s.finish q r) = (⟨s, .idle⟩, [.ret r]) := by
  unfold RecInfo.finish
  rw [if_neg (Nat.ne_of_lt hlen)]
  rfl

theorem Inv.toIdle (h : Inv q ⟨s, .asking⟩) : Inv q ⟨s, .idle⟩ :=
  ⟨by simp, h.aligned, h.stopped, h.count, h.carried, h.list, by simp⟩

/-- **A call goes on.** It halts exactly where the answer is not calm, and else keeps the invariant. -/
theorem Inv.answer (h : Inv q ⟨s, .asking⟩) {a : Answer}
    (hstep : step q ⟨s, .asking⟩ (.answer a) = some r) :
    (Event.bug ∈ r.2 ↔ ¬ calm q ⟨s, .asking⟩ (.answer a)) ∧ (calm q ⟨s, .asking⟩ (.answer a) → Inv q r.1) := by
  obtain ⟨hstarted, hhead, hlen⟩ := h.asking rfl
  simp only at hstarted hhead hlen
  cases a with
  | overflow =>
    obtain rfl := Option.some.inj hstep
    simp only [finish_part q hlen]
    simp [calm, h.toIdle]
  | noMem =>
    obtain rfl := Option.some.inj hstep
    simp only [finish_part q hlen]
    simp [calm, h.toIdle]
  | noIndex =>
    obtain rfl := Option.some.inj hstep
    simp only [finish_part q hlen]
    simp [calm, h.toIdle]
  | index x =>
    obtain rfl := Option.some.inj hstep
    simp only [calm]
    rcases getRecDataIndex_cases q s x with ⟨hdrop, heq⟩ | ⟨hdrop, e, hok, hsel, -, heq⟩
    · rw [heq, go_nil hhead hlen]
      simp [hdrop, h]
    · rw [heq, hhead, List.nil_append]
      by_cases hcount : s.remRecIdx.length < q.maxIdx
      · have hready : Ready q { s with head := [e] } e :=
          ⟨h.aligned hstarted, hok, by simp [hsel], fun hne => (h.carried hne).1, hcount⟩
        obtain ⟨hinv, hno⟩ := inv_go hready hstarted rfl hlen
        simp [hcount, hno, hinv]
      · rw [go_bug (s := { s with head := [e] }) rfl hlen (by simpa using hcount)]
        simp [hcount, hdrop]

/-- A call begins. -/
theorem Inv.acquire (h : Inv q ⟨s, .idle⟩) (hstarted : s.started = true) :
    Inv q (acquireRecDataIndex q s).1 ∧ Event.bug ∉ (acquireRecDataIndex q s).2 := by
  have hlen : s.beginBlock.remRecData.len < q.blockSize := by
    by_cases hnil : s.remRecIdx = []
    · rw [beginBlock_new hnil]
      exact q.blockSize_pos
    · rw [beginBlock_carried hnil]
      exact (h.carried hnil).2
  have hcarried : s.beginBlock.remRecIdx ≠ [] →
      s.beginBlock.remRecData = s.beginBlock.blockData q s.beginBlock.remRecData.len := by
    intro hne
    rw [beginBlock_idx] at hne
    rw [beginBlock_carried hne]
    exact (h.carried hne).1
  have hstarted' : s.beginBlock.started = true := by rw [beginBlock_started, hstarted]
  rw [acquire_eq (h.aligned hstarted)]
  rcases h.list with hhead | ⟨e, hhead, hok, hnil, hsecond⟩
  · have hhead' : s.beginBlock.head = [] := by rw [beginBlock_head]; exact hhead
    rw [go_nil hhead' hlen]
    refine ⟨⟨by simp, ?_, ?_, ?_, fun hne => ⟨hcarried hne, hlen⟩, .inl hhead', fun _ => ⟨hstarted', hhead', hlen⟩⟩,
      by simp⟩
    · intro _
      simpa using h.aligned hstarted
    · simp [hstarted]
    · simpa using h.count
  · simp only at hhead hnil hsecond
    have hready : Ready q s.beginBlock e := by
      refine ⟨by simpa using h.aligned hstarted, hok, ?_, hcarried, ?_⟩
      · intro hsel
        simpa [hnil] using hsecond hsel
      · simpa [hnil] using q.maxIdx_pos
    exact inv_go hready hstarted' (by rw [beginBlock_head, hhead]) hlen

/-- **One step.** It halts exactly where it is not calm, and else keeps the invariant. -/
theorem Inv.step {s : Sys} (h : Inv q s) {i : Input} (hstep : step q s i = some r) :
    (Event.bug ∈ r.2 ↔ ¬ calm q s i) ∧ (calm q s i → Inv q r.1) := by
  obtain ⟨s, pc⟩ := s
  cases pc with
  | halted => exact absurd rfl h.running
  | asking =>
    cases i with
    | answer a => exact h.answer hstep
    | start => cases hstep
    | stop => cases hstep
    | acquire => cases hstep
    | suspend => cases hstep
    | resume b => cases b <;> cases hstep
  | idle =>
    cases i with
    | answer a => cases a <;> cases hstep
    | start =>
      obtain rfl := Option.some.inj hstep
      cases hs : s.started with
      | true => simp [RecInfo.startRecChn, hs, orBug, calm, h]
      | false =>
        have hhead : s.head = [] := (h.stopped hs).1
        simp [RecInfo.startRecChn, RecInfo.bugOn, hs, hhead, orBug, calm]
        simpa [hhead] using inv_started (q := q) hhead
    | stop =>
      obtain rfl := Option.some.inj hstep
      simp only [calm, RecInfo.stopRecChn]
      cases hs : s.started with
      | true => exact ⟨by simp, fun _ => ⟨by simp, by simp, by simp, by simp, by simp, .inl rfl, by simp⟩⟩
      | false => exact ⟨by simp, fun _ => h⟩
    | acquire =>
      simp only [RecIndex.step] at hstep
      split at hstep
      · next hs =>
        obtain rfl := Option.some.inj hstep
        obtain ⟨hinv, hno⟩ := h.acquire hs
        simp [calm, hinv, hno]
      · obtain rfl := Option.some.inj hstep
        simp [calm, h]
    | suspend =>
      obtain rfl := Option.some.inj hstep
      simp [calm, h]
    | resume reaches =>
      simp only [RecIndex.step] at hstep
      split at hstep
      · next hs =>
        obtain ⟨hreach, hstarted⟩ := hs
        obtain rfl := Option.some.inj hstep
        simp only [calm, hreach, hstarted, RecInfo.startRecChn, RecInfo.bugOn]
        by_cases hhead : s.head = []
        · simp [hhead, orBug]
          simpa [hhead] using inv_started (q := q) hhead
        · simp [hhead, orBug]
      · next hs =>
        obtain rfl := Option.some.inj hstep
        cases reaches with
        | true =>
          have hnot : s.started = false := by simpa using hs
          simp [calm, hnot, h]
        | false => simp [calm, h]

/-! ## Runs -/

/-- **The `BUG` checks.** No check fails in a calm run: the list is empty whenever a recording starts, a block has at
    most `DMX_MAX_IDX_ACQUIRED_EACH_TIME` entries, and the blocks of a recording stay aligned. A further step fails
    exactly where it is not calm. -/
theorem run_no_bug {s : Sys} {is : List Input} {es : List Event} (hrun : Run (step q) (calm q) init is s es) :
    Event.bug ∉ es ∧ (s.info.started = false → s.info.head = []) ∧ s.info.remRecIdx.length ≤ q.maxIdx ∧
      (s.info.started = true → Aligned q s.info.blockStartAddr) ∧
      ∀ i t fs, step q s i = some (t, fs) → (Event.bug ∈ fs ↔ ¬ calm q s i) := by
  have hinv : Inv q s := by
    refine hrun.inv (fun _ s => Inv q s) inv_init ?_
    intro _ s i t fs h hcalm hstep
    exact (h.step hstep).2 hcalm
  have hno : Event.bug ∉ es := by
    refine (hrun.inv_effects (fun _ s es => Inv q s ∧ Event.bug ∉ es) ⟨inv_init, List.not_mem_nil⟩ ?_).2
    rintro _ s es i t fs ⟨h, hno⟩ hcalm hstep
    obtain ⟨hbug, hkeep⟩ := h.step hstep
    refine ⟨hkeep hcalm, ?_⟩
    rw [List.mem_append, not_or]
    exact ⟨hno, fun hmem => hbug.mp hmem hcalm⟩
  exact ⟨hno, fun hs => (hinv.stopped hs).1, hinv.count, hinv.aligned, fun i t fs hstep => (hinv.step hstep).1⟩

instance decidableCalm (q : Fq) (s : Sys) : (i : Input) → Decidable (calm q s i)
  | .answer (.index x) => inferInstanceAs (Decidable (s.info.remRecIdx.length < q.maxIdx ∨ Dropped q x))
  | .resume true => inferInstanceAs (Decidable (s.info.started = true → s.info.head = []))
  | .answer .overflow | .answer .noMem | .answer .noIndex | .resume false => isTrue trivial
  | .start | .stop | .acquire | .suspend => isTrue trivial

/-- Three blocks of ten bytes, and two entries for a block. -/
def threeBlocks : Fq := ⟨0x1000, 0x5000, 10, 3, 2, by decide, by decide, by decide, by decide⟩

/-- A long frame, one that is dropped, and a resume when the long frame is handed out. -/
theorem run_no_bug_longFrame : ∃ s es, Run (step threeBlocks) (calm threeBlocks) init
    [.start, .acquire, .answer (.index ⟨0, 15⟩), .acquire, .answer (.index ⟨15, 40⟩), .answer .noIndex, .suspend,
      .resume true, .acquire, .answer (.index ⟨0, 4⟩), .answer (.index ⟨25, 7⟩), .acquire, .stop] s es ∧
    Event.bug ∉ es ∧ es.length = 8 := by
  exact exists_run_imp (fun _ es => es.length = 8) (by decide) fun _ _ hrun htest => ⟨(run_no_bug hrun).1, htest⟩

/-- **The two cases.** Three frames, of which two end in the first block; and a resume while a frame that is longer
    than a block is handed out. -/
theorem two_bugs :
    (∃ s es, Run (step threeBlocks) always init [.start, .acquire, .answer (.index ⟨0, 3⟩), .answer (.index ⟨3, 3⟩),
      .answer (.index ⟨6, 9⟩)] s es ∧ Event.bug ∈ es) ∧
    ∃ s es, Run (step threeBlocks) always init [.start, .acquire, .answer (.index ⟨0, 15⟩), .suspend, .resume true]
      s es ∧ Event.bug ∈ es := by
  constructor
  · exact exists_run_of_decide (by decide)
  · exact exists_run_of_decide (by decide)

end HiSTB.Demux.RecIndex
