import HiSTB.Demux.Correctness.RecIndex
import HiSTB.Demux.Correctness.RecStream

/-!
# `Demux.Correctness.RecBlocks` — the blocks of a recording and the frames that end in them

For a stream without gaps the blocks come out one after the other, each with the entries of the frames that end in
it. A frame may be shorter or many times longer than a block, end with a block or with the buffer, or go around the
end of the buffer; where it is in the list, `helperAt` is what the list has.

The exception is a frame that starts in a block in which `DMX_MAX_IDX_ACQUIRED_EACH_TIME` frames ended already: the
driver halts, also where the frame does not end in the block and needs no room for an entry.

* `Fits`, `lastBlock`, `Crowded` — the stream;
* `helperAt`, `helperEnd_helperAt` — a frame as the list has it while block `m` is handed out;
* `SeqInv`, `SeqInv.step` — the invariant; a step halts exactly where the frame is one too many;
* `run_blocks_iff` — every run over a stream is right exactly where the stream is not crowded;
* `full_block_halts` — a stream that is.
-/

namespace HiSTB.Demux.RecIndex

open Lib

variable {q : Fq} {s : RecInfo} {ts us fs : List Index} {f g : Index} {m : Nat}

variable {es : List Event} {r : Sys × List Event}

/-! ## The stream -/

/-- The sizes of frames that are not dropped. -/
def Fits (q : Fq) (n : Nat) : Prop := 0 < n ∧ n < q.bufSize
deriving Decidable

/-- The block, counted from the first one of the stream on, that has the last byte of the frame. -/
def lastBlock (q : Fq) (f : Index) : Nat := (f.globalOffset + f.frameSize - 1) / q.blockSize

/-- The frames that end in block `b`. -/
def endsIn (q : Fq) (fs : List Index) (b : Nat) : List Index := fs.filter (fun f => lastBlock q f = b)

/-- Some frame starts in a block in which the most frames ended already. -/
def Crowded (q : Fq) (fs : List Index) : Prop :=
  ∃ ts f, ts ++ [f] <+: fs ∧ q.maxIdx ≤ (endsIn q ts (streamEnd ts / q.blockSize)).length

theorem lastBlock_lt_iff (hpos : 0 < f.frameSize) :
    lastBlock q f < m ↔ f.globalOffset + f.frameSize ≤ m * q.blockSize := by
  unfold lastBlock
  rw [Nat.div_lt_iff_lt_mul q.blockSize_pos]
  omega

/-- No frame ends in a block that starts where the stream ends, or later. -/
theorem Contiguous.endsIn_eq_nil (h : Contiguous (Fits q) fs) (hm : streamEnd fs ≤ m * q.blockSize) :
    endsIn q fs m = [] := by
  unfold endsIn
  rw [List.filter_eq_nil_iff]
  intro f hf
  obtain ⟨⟨hpos, -⟩, hle⟩ := h.end_le f hf
  have hlt : lastBlock q f < m := (lastBlock_lt_iff hpos).mpr (by omega)
  simpa using Nat.ne_of_lt hlt

theorem endsIn_concat (q : Fq) (fs : List Index) (f : Index) (b : Nat) :
    endsIn q (fs ++ [f]) b = if lastBlock q f = b then endsIn q fs b ++ [f] else endsIn q fs b := by
  unfold endsIn
  rw [List.filter_append]
  split
  · next h => simp [h]
  · next h => simp [h]

/-! ## The frames in order -/

section Sorted

variable {α : Type*} {key : α → Nat} {l : List α}

theorem filter_lt_eq_nil {a : α} (h : ∀ b ∈ l, key a ≤ key b) {m : Nat} (hm : m ≤ key a) :
    l.filter (fun b => key b < m) = [] := by
  rw [List.filter_eq_nil_iff]
  intro b hb
  have hle := h b hb
  simpa using Nat.le_trans hm hle

/-- In a sorted list what is below comes before what is at `m`. -/
theorem filter_lt_succ (hs : l.Pairwise (fun a b => key a ≤ key b)) (m : Nat) :
    l.filter (fun a => key a < m + 1) = l.filter (fun a => key a < m) ++ l.filter (fun a => key a = m) := by
  induction l with
  | nil => rfl
  | cons a l ih =>
    obtain ⟨ha, hs⟩ := List.pairwise_cons.mp hs
    have ih := ih hs
    rcases Nat.lt_trichotomy (key a) m with hlt | heq | hgt
    · have hne : key a ≠ m := Nat.ne_of_lt hlt
      have hlt' : key a < m + 1 := Nat.lt_succ_of_lt hlt
      rw [List.filter_cons_of_pos (by simpa only [decide_eq_true_eq] using hlt'),
        List.filter_cons_of_pos (by simpa only [decide_eq_true_eq] using hlt),
        List.filter_cons_of_neg (by simpa only [decide_eq_true_eq] using hne), ih, List.cons_append]
    · have hnil : l.filter (fun b => key b < m) = [] := filter_lt_eq_nil ha (Nat.le_of_eq heq.symm)
      have hnot : ¬ key a < m := by omega
      have hlt' : key a < m + 1 := by omega
      rw [List.filter_cons_of_pos (by simpa only [decide_eq_true_eq] using hlt'),
        List.filter_cons_of_neg (by simpa only [decide_eq_true_eq] using hnot),
        List.filter_cons_of_pos (by simpa only [decide_eq_true_eq] using heq), ih, hnil, List.nil_append,
          List.nil_append]
    · have hnil : l.filter (fun b => key b < m) = [] := filter_lt_eq_nil ha (Nat.le_of_lt hgt)
      have hnot : ¬ key a < m := by omega
      have hnot' : ¬ key a < m + 1 := by omega
      have hne : key a ≠ m := by omega
      rw [List.filter_cons_of_neg (by simpa only [decide_eq_true_eq] using hnot'),
        List.filter_cons_of_neg (by simpa only [decide_eq_true_eq] using hnot),
        List.filter_cons_of_neg (by simpa only [decide_eq_true_eq] using hne), ih]

theorem filter_lt_isPrefix (hs : l.Pairwise (fun a b => key a ≤ key b)) (m : Nat) :
    l.filter (fun a => key a < m) <+: l := by
  induction l with
  | nil => exact List.prefix_rfl
  | cons a l ih =>
    obtain ⟨ha, hs⟩ := List.pairwise_cons.mp hs
    by_cases hlt : key a < m
    · rw [List.filter_cons_of_pos (by simpa using hlt), List.prefix_cons_inj]
      exact ih hs
    · rw [List.filter_cons_of_neg (by simpa using hlt), filter_lt_eq_nil ha (by omega)]
      exact List.nil_prefix

end Sorted

theorem Contiguous.sorted (h : Contiguous (Fits q) fs) : fs.Pairwise (fun f g => lastBlock q f ≤ lastBlock q g) := by
  induction h with
  | nil => exact .nil
  | snoc before start size ih =>
    rw [List.pairwise_append]
    refine ⟨ih, List.pairwise_singleton _ _, ?_⟩
    intro f hf g hg
    obtain rfl := List.mem_singleton.mp hg
    obtain ⟨hpos, hle⟩ := before.end_le f hf
    apply Nat.div_le_div_right
    omega

/-! ## A frame in the list -/

/-- The frame as the list has it while block `m` of the stream is handed out. -/
def helperAt (q : Fq) (f : Index) (m : Nat) : Helper :=
  let start := q.bufPhyAddr + f.globalOffset % q.bufSize
  if start + f.frameSize > q.bufEnd then
    ⟨⟨start, RecInfo.virAddr q start, q.bufEnd - start⟩,
      ⟨q.bufPhyAddr, RecInfo.virAddr q q.bufPhyAddr, f.frameSize - (q.bufEnd - start)⟩, true,
      decide ((f.globalOffset / q.bufSize + 1) * q.bufSize ≤ m * q.blockSize), f⟩
  else ⟨⟨start, RecInfo.virAddr q start, f.frameSize⟩, ⟨0, 0, 0⟩, false, false, f⟩

/-- Block `m` overlaps the frame. -/
structure Over (q : Fq) (f : Index) (m : Nat) : Prop where
  lt : f.frameSize < q.bufSize
  start : f.globalOffset < (m + 1) * q.blockSize
  stop : m * q.blockSize < f.globalOffset + f.frameSize

theorem bufSize_pos (q : Fq) : 0 < q.bufSize := Nat.mul_pos q.blockCnt_pos q.blockSize_pos

theorem mul_blockSize (q : Fq) (m : Nat) :
    m * q.blockSize = m / q.blockCnt * q.bufSize + m % q.blockCnt * q.blockSize := by
  unfold Fq.bufSize
  rw [← Nat.mul_assoc, ← Nat.add_mul, Nat.mul_comm (m / q.blockCnt), Nat.div_add_mod]

theorem lap_le_iff (q : Fq) (l m : Nat) : l * q.bufSize ≤ m * q.blockSize ↔ l ≤ m / q.blockCnt := by
  unfold Fq.bufSize
  rw [Nat.le_div_iff_mul_le q.blockCnt_pos, ← Nat.mul_assoc, Nat.mul_le_mul_right_iff q.blockSize_pos]

/-- The round of the block is the one in which the frame starts, or the next one. -/
theorem Over.lap (h : Over q f m) :
    f.globalOffset / q.bufSize ≤ m / q.blockCnt ∧
      (f.globalOffset % q.bufSize + f.frameSize ≤ q.bufSize → m / q.blockCnt = f.globalOffset / q.bufSize) ∧
      m / q.blockCnt ≤ f.globalOffset / q.bufSize + 1 := by
  obtain ⟨hlt, hstart, hstop⟩ := h
  have hdm := Nat.div_add_mod f.globalOffset q.bufSize
  have hmod := Nat.mod_lt f.globalOffset (bufSize_pos q)
  rw [Nat.mul_comm] at hdm
  have hlow : f.globalOffset / q.bufSize ≤ m / q.blockCnt := by
    rw [Nat.le_div_iff_mul_le q.blockCnt_pos]
    have hlt : f.globalOffset / q.bufSize * q.blockCnt * q.blockSize < (m + 1) * q.blockSize := by
      rw [Nat.mul_assoc]
      exact Nat.lt_of_le_of_lt (by unfold Fq.bufSize at hdm ⊢; omega) hstart
    have hlt' := Nat.lt_of_mul_lt_mul_right hlt
    omega
  have hhigh : ∀ l, f.globalOffset + f.frameSize ≤ l * q.bufSize → m / q.blockCnt < l := by
    intro l hl
    have hnot : ¬ l * q.bufSize ≤ m * q.blockSize := by omega
    rw [lap_le_iff] at hnot
    omega
  refine ⟨hlow, ?_, ?_⟩
  · intro hone
    have hlt := hhigh (f.globalOffset / q.bufSize + 1) (by rw [Nat.add_mul]; omega)
    omega
  · have hlt := hhigh (f.globalOffset / q.bufSize + 2) (by rw [Nat.add_mul]; omega)
    omega

/-- The next block of the stream is the next one of the buffer, or the first. -/
theorem next_last (q : Fq) (h : m % q.blockCnt + 1 = q.blockCnt) :
    (m + 1) / q.blockCnt = m / q.blockCnt + 1 ∧ (m + 1) % q.blockCnt = 0 := by
  have hm : m + 1 = q.blockCnt + q.blockCnt * (m / q.blockCnt) := by
    have hdm := Nat.div_add_mod m q.blockCnt
    omega
  rw [hm]
  constructor
  · rw [Nat.add_mul_div_left _ _ q.blockCnt_pos, Nat.div_self q.blockCnt_pos, Nat.add_comm]
  · rw [Nat.add_mul_mod_self_left, Nat.mod_self]

theorem next_inner (q : Fq) (h : m % q.blockCnt + 1 ≠ q.blockCnt) :
    (m + 1) / q.blockCnt = m / q.blockCnt ∧ (m + 1) % q.blockCnt = m % q.blockCnt + 1 := by
  have hlt : m % q.blockCnt + 1 < q.blockCnt := by
    have hmod := Nat.mod_lt m q.blockCnt_pos
    omega
  have hm : m + 1 = m % q.blockCnt + 1 + q.blockCnt * (m / q.blockCnt) := by
    have hdm := Nat.div_add_mod m q.blockCnt
    omega
  constructor
  · calc (m + 1) / q.blockCnt = (m % q.blockCnt + 1 + q.blockCnt * (m / q.blockCnt)) / q.blockCnt := by rw [← hm]
      _ = m / q.blockCnt := by rw [Nat.add_mul_div_left _ _ q.blockCnt_pos, Nat.div_eq_of_lt hlt, Nat.zero_add]
  · calc (m + 1) % q.blockCnt = (m % q.blockCnt + 1 + q.blockCnt * (m / q.blockCnt)) % q.blockCnt := by rw [← hm]
      _ = m % q.blockCnt + 1 := by rw [Nat.add_mul_mod_self_left, Nat.mod_eq_of_lt hlt]

theorem nextBlock_mod (q : Fq) (m : Nat) :
    nextBlock q (blockAddr q (m % q.blockCnt)) = blockAddr q ((m + 1) % q.blockCnt) := by
  rw [nextBlock_blockAddr]
  split
  · next h =>
    rw [(next_last q h).2]
    simp [blockAddr]
  · next h => rw [(next_inner q h).2]

/-- The frame goes around the end of the buffer. -/
def Around (q : Fq) (f : Index) : Prop := q.bufPhyAddr + f.globalOffset % q.bufSize + f.frameSize > q.bufEnd

theorem helperAt_around (h : Around q f) (m : Nat) :
    helperAt q f m =
      ⟨⟨q.bufPhyAddr + f.globalOffset % q.bufSize, RecInfo.virAddr q (q.bufPhyAddr + f.globalOffset % q.bufSize),
          q.bufEnd - (q.bufPhyAddr + f.globalOffset % q.bufSize)⟩,
        ⟨q.bufPhyAddr, RecInfo.virAddr q q.bufPhyAddr,
          f.frameSize - (q.bufEnd - (q.bufPhyAddr + f.globalOffset % q.bufSize))⟩,
        true, decide (f.globalOffset / q.bufSize + 1 ≤ m / q.blockCnt), f⟩ := by
  simp only [← lap_le_iff]
  exact if_pos h

theorem helperAt_inside (h : ¬ Around q f) (m : Nat) :
    helperAt q f m =
      ⟨⟨q.bufPhyAddr + f.globalOffset % q.bufSize, RecInfo.virAddr q (q.bufPhyAddr + f.globalOffset % q.bufSize),
        f.frameSize⟩, ⟨0, 0, 0⟩, false, false, f⟩ :=
  if_neg h

/-- **Where a frame in the list ends**, seen from the block. -/
theorem helperEnd_helperAt (h : Over q f m) :
    helperEnd q (helperAt q f m) = blockAddr q (m % q.blockCnt) + (f.globalOffset + f.frameSize - m * q.blockSize) := by
  obtain ⟨hlow, hone, hhigh⟩ := h.lap
  obtain ⟨-, hstart, hstop⟩ := h
  have hdm := Nat.div_add_mod f.globalOffset q.bufSize
  have hmod := Nat.mod_lt f.globalOffset (bufSize_pos q)
  have hblock := mul_blockSize q m
  rw [Nat.mul_comm] at hdm
  by_cases hrew : Around q f
  · rw [helperAt_around hrew]
    unfold Around Fq.bufEnd at hrew
    simp only [helperEnd, Fq.bufEnd, blockAddr, if_true, decide_eq_true_eq]
    split
    · next hsecond =>
      have hlap : m / q.blockCnt = f.globalOffset / q.bufSize + 1 := by omega
      rw [hlap, Nat.add_mul] at hblock
      omega
    · next hfirst =>
      have hlap : m / q.blockCnt = f.globalOffset / q.bufSize := by omega
      rw [hlap] at hblock
      omega
  · rw [helperAt_inside hrew]
    unfold Around Fq.bufEnd at hrew
    have hlap := hone (by omega)
    simp only [helperEnd, blockAddr, Bool.false_eq_true, if_false]
    rw [hlap] at hblock
    omega

/-- The list has the frame for the next block, once this one is filled. -/
theorem select_helperAt (h : Over q f m) :
    select q (blockAddr q (m % q.blockCnt)) (helperAt q f m) = helperAt q f (m + 1) := by
  obtain ⟨hlow, -, hhigh⟩ := h.lap
  by_cases hrew : Around q f
  · rw [helperAt_around hrew, helperAt_around hrew]
    simp only [select, blockAddr_last, decide_eq_false_iff_not, true_and]
    by_cases hlast : m % q.blockCnt + 1 = q.blockCnt
    · have hnext := (next_last q hlast).1
      have hsecond : f.globalOffset / q.bufSize + 1 ≤ (m + 1) / q.blockCnt := by omega
      by_cases hfirst : f.globalOffset / q.bufSize + 1 ≤ m / q.blockCnt
      · simp [hfirst, hsecond]
      · simp [hfirst, hsecond, hlast]
    · have hnext := (next_inner q hlast).1
      simp [hlast, hnext]
  · rw [helperAt_inside hrew, helperAt_inside hrew]
    simp [select]

theorem helperOk_helperAt (q : Fq) (f : Index) (m : Nat) : HelperOk q (helperAt q f m) := by
  have hmod := Nat.mod_lt f.globalOffset (bufSize_pos q)
  by_cases hrew : Around q f
  · rw [helperAt_around hrew]
    unfold Around Fq.bufEnd at hrew
    refine ⟨by simp, fun _ => ?_, fun _ => ⟨rfl, ?_⟩⟩
    · simp only [Fq.bufEnd]
      omega
    · simp only [Fq.bufEnd]
      omega
  · rw [helperAt_inside hrew]
    exact ⟨by simp, by simp, by simp⟩

/-- Where the second slice is next, the frame started before the block. -/
theorem start_lt_of_second (h : (helperAt q f m).dataSel = true) : f.globalOffset < m * q.blockSize := by
  by_cases hrew : Around q f
  · rw [helperAt_around hrew] at h
    have hlap : (f.globalOffset / q.bufSize + 1) * q.bufSize ≤ m * q.blockSize := by
      rw [lap_le_iff]
      simpa using h
    have hdm := Nat.div_add_mod f.globalOffset q.bufSize
    have hmod := Nat.mod_lt f.globalOffset (bufSize_pos q)
    rw [Nat.mul_comm] at hdm
    rw [Nat.add_mul] at hlap
    omega
  · rw [helperAt_inside hrew] at h
    cases h

/-- What `DMX_GetRecDataIndex` appends, for a frame that does not start before the block. -/
theorem getRecDataIndex_helperAt (s : RecInfo) (hpos : 0 < f.frameSize) (hlt : f.frameSize < q.bufSize)
    (hstart : m * q.blockSize ≤ f.globalOffset) :
    s.getRecDataIndex q f = { s with head := s.head ++ [helperAt q f m] } := by
  have hfirst : (helperAt q f m).dataSel = false := by
    by_contra hsel
    have hlt := start_lt_of_second (q := q) (f := f) (m := m) (by simpa using hsel)
    omega
  unfold RecInfo.getRecDataIndex
  simp only
  rw [if_neg (by omega)]
  by_cases hrew : Around q f
  · rw [helperAt_around hrew] at hfirst ⊢
    simp only at hfirst
    rw [hfirst]
    exact if_pos hrew
  · rw [helperAt_inside hrew]
    exact if_neg hrew

/-! ## What is handed out -/

/-- Block `m` of the stream, in the buffer. -/
def blockOf (q : Fq) (m : Nat) : RecData :=
  ⟨q.bufPhyAddr + m % q.blockCnt * q.blockSize, q.bufVirAddr + m % q.blockCnt * q.blockSize, q.blockSize⟩

/-- The first `m` blocks, each with the frames that end in it. -/
def blocks (q : Fq) (ts : List Index) (m : Nat) : List DataIndex :=
  (List.range m).map (fun j => ⟨blockOf q j, endsIn q ts j⟩)

/-- The entries taken from the index. -/
def taken (is : List Input) : List Index :=
  is.filterMap (fun i => match i with
    | .answer (.index x) => some x
    | _ => none)

/-- What the successful calls return. -/
def handed (es : List Event) : List DataIndex :=
  es.filterMap (fun e => match e with
    | .ret (.data d) => some d
    | _ => none)

theorem handed_append (es gs : List Event) : handed (es ++ gs) = handed es ++ handed gs := List.filterMap_append

theorem taken_append (is js : List Input) : taken (is ++ js) = taken is ++ taken js := List.filterMap_append

theorem blocks_succ (q : Fq) (ts : List Index) (m : Nat) :
    blocks q ts (m + 1) = blocks q ts m ++ [⟨blockOf q m, endsIn q ts m⟩] := by
  simp [blocks, List.range_succ]

/-- A frame that ends behind the first `m` blocks does not change them. -/
theorem blocks_concat (hpos : 0 < f.frameSize) (hend : m * q.blockSize < f.globalOffset + f.frameSize) :
    blocks q (fs ++ [f]) m = blocks q fs m := by
  have hle : m ≤ lastBlock q f := by
    rw [← Nat.not_lt, lastBlock_lt_iff hpos]
    omega
  unfold blocks
  apply List.map_congr_left
  intro j hj
  rw [endsIn_concat, if_neg]
  have hlt := List.mem_range.mp hj
  omega

theorem blockData_eq_blockOf (hstart : s.blockStartAddr = blockAddr q (m % q.blockCnt)) :
    s.blockData q q.blockSize = blockOf q m := by
  unfold RecInfo.blockData RecInfo.virAddr blockOf
  rw [hstart]
  simp [blockAddr]

/-- The entries of the first `m` blocks are a beginning of the stream. -/
theorem Contiguous.blocks_isPrefix (h : Contiguous (Fits q) ts) (m : Nat) :
    (blocks q ts m).flatMap (·.index) <+: ts := by
  have heq : (blocks q ts m).flatMap (·.index) = ts.filter (fun f => lastBlock q f < m) := by
    induction m with
    | zero => simp [blocks]
    | succ m ih =>
      rw [blocks_succ, List.flatMap_append, ih, filter_lt_succ h.sorted]
      simp [endsIn]
  rw [heq]
  exact filter_lt_isPrefix h.sorted m

/-! ## The invariant -/

/-- The calls about a stream: `m` blocks are handed out. Either no frame is in the list and the entries of the next
    block are carried over, or the last frame is in the list, which started before the block and goes on in it. -/
structure SeqInv (q : Fq) (ts : List Index) (m : Nat) (s : Sys) : Prop where
  contiguous : Contiguous (Fits q) ts
  running : s.pc ≠ .halted
  started : s.info.started = true
  start : s.info.blockStartAddr = blockAddr q (m % q.blockCnt)
  list : (s.info.head = [] ∧ s.info.remRecIdx = endsIn q ts m ∧ m * q.blockSize ≤ streamEnd ts ∧
      streamEnd ts < (m + 1) * q.blockSize ∧
      (s.info.remRecIdx ≠ [] → s.info.remRecData = s.info.blockData q (streamEnd ts - m * q.blockSize))) ∨
    ∃ us f, ts = us ++ [f] ∧ s.info.head = [helperAt q f m] ∧ s.info.remRecIdx = [] ∧
      f.globalOffset < m * q.blockSize ∧ m * q.blockSize < streamEnd ts
  asking : s.pc = .asking → s.info.head = [] ∧ s.info.remRecData.len = streamEnd ts - m * q.blockSize

/-- The calls up to `s` have done right: `m` blocks are handed out, and the next one is not complete or will be. -/
def SeqOk (q : Fq) (ts : List Index) (s : Sys) (es : List Event) : Prop :=
  ∃ m, SeqInv q ts m s ∧ handed es = blocks q ts m ∧ Event.bug ∉ es

/-- **The loop with a frame of the stream.** -/
theorem go_frame (hts : Contiguous (Fits q) (us ++ [f])) (hhead : s.head = [helperAt q f m])
    (hstarted : s.started = true)
    (hstart : s.blockStartAddr = blockAddr q (m % q.blockCnt)) (hover : Over q f m)
    (hidx : s.remRecIdx = endsIn q us m) (hroom : s.remRecIdx.length < q.maxIdx)
    (hcarried : s.remRecIdx ≠ [] → s.remRecData = s.blockData q s.remRecData.len)
    (hlen : s.remRecData.len < q.blockSize) :
    (SeqInv q (us ++ [f]) m (go q s).1 ∧ (go q s).1.pc = .asking ∧ (go q s).2 = []) ∨
      (SeqInv q (us ++ [f]) (m + 1) (go q s).1 ∧
        (go q s).2 = [.ret (.data ⟨blockOf q m, endsIn q (us ++ [f]) m⟩)]) := by
  obtain ⟨hus, hfirst, hpos, hlt⟩ := hts.concat
  obtain ⟨-, hover1, hover2⟩ := id hover
  have hsize := q.blockSize_pos
  have hend : helperEnd q (helperAt q f m) = s.blockStartAddr + (f.globalOffset + f.frameSize - m * q.blockSize) := by
    rw [helperEnd_helperAt hover, hstart]
  have hready : Ready q s (helperAt q f m) := by
    refine ⟨?_, helperOk_helperAt q f m, ?_, hcarried, hroom⟩
    · rw [hstart]
      exact ⟨_, Nat.mod_lt _ q.blockCnt_pos, rfl⟩
    · intro hsel
      refine ⟨by omega, ?_⟩
      rw [hidx]
      apply hus.endsIn_eq_nil
      have hbefore := start_lt_of_second hsel
      omega
  have hindex : (helperAt q f m).index = f := by
    by_cases hrew : Around q f
    · rw [helperAt_around hrew]
    · rw [helperAt_inside hrew]
  have hlast : lastBlock q f < m + 1 ↔ f.globalOffset + f.frameSize ≤ (m + 1) * q.blockSize := lastBlock_lt_iff hpos
  have hlast' : ¬ lastBlock q f < m := by
    rw [lastBlock_lt_iff hpos]
    omega
  have hsucc : (m + 1) * q.blockSize = m * q.blockSize + q.blockSize := by rw [Nat.add_mul, Nat.one_mul]
  have hends : Ends q s.blockStartAddr (helperAt q f m) ↔
      f.globalOffset + f.frameSize ≤ (m + 1) * q.blockSize := by
    unfold Ends
    rw [hend]
    omega
  rw [go_cons hready hhead hlen, hindex]
  by_cases hin : f.globalOffset + f.frameSize ≤ (m + 1) * q.blockSize
  · -- the frame ends in this block
    have hb : lastBlock q f = m := by omega
    have hall : endsIn q us m ++ [f] = endsIn q (us ++ [f]) m := by rw [endsIn_concat, if_pos hb]
    rw [if_pos (hends.mpr hin), hidx, hall]
    by_cases hfull : f.globalOffset + f.frameSize = (m + 1) * q.blockSize
    · right
      rw [if_pos (by omega)]
      refine ⟨⟨hts, by simp [handOut], hstarted, ?_, .inl ⟨rfl, ?_, ?_, ?_, ?_⟩, by simp [handOut]⟩, ?_⟩
      · simp only [handOut]
        rw [hstart, nextBlock_mod]
      · symm
        apply hts.endsIn_eq_nil
        rw [streamEnd_concat]
        omega
      · rw [streamEnd_concat]
        omega
      · rw [streamEnd_concat, Nat.add_mul (m + 1)]
        omega
      · simp [handOut]
      · simp only [handOut]
        rw [blockData_eq_blockOf hstart]
    · left
      rw [if_neg (by omega)]
      refine ⟨⟨hts, by simp, hstarted, hstart, .inl ⟨rfl, rfl, ?_, ?_, ?_⟩, ?_⟩, rfl, rfl⟩
      · rw [streamEnd_concat]
        omega
      · rw [streamEnd_concat]
        omega
      · intro _
        rw [streamEnd_concat]
        simp only [RecInfo.blockData, hend, Nat.add_sub_cancel_left]
      · intro _
        rw [streamEnd_concat]
        refine ⟨rfl, ?_⟩
        simp only [blockData_len]
        omega
  · -- the frame fills the block
    right
    have hall : endsIn q us m = endsIn q (us ++ [f]) m := by rw [endsIn_concat, if_neg (by omega)]
    rw [if_neg (fun hin' => hin (hends.mp hin')), hidx, hall, hstart, select_helperAt hover]
    refine ⟨⟨hts, by simp [handOut], hstarted, ?_, .inr ⟨us, f, rfl, rfl, rfl, hover1, ?_⟩, by simp [handOut]⟩, ?_⟩
    · simp only [handOut]
      rw [hstart, nextBlock_mod]
    · rw [streamEnd_concat]
      omega
    · simp only [handOut]
      rw [blockData_eq_blockOf hstart]

/-! ## One step -/

/-- A recording that was started. -/
def opened (q : Fq) : Sys := ⟨⟨true, [], q.bufPhyAddr, ⟨0, 0, 0⟩, []⟩, .idle⟩

theorem seqOk_opened : SeqOk q [] (opened q) [] := by
  refine ⟨0, ⟨.nil, by simp [opened], rfl, ?_, .inl ⟨rfl, rfl, ?_, ?_, ?_⟩, by simp [opened]⟩, rfl, by simp⟩
  · simp [opened, blockAddr]
  · simp
  · simpa using q.blockSize_pos
  · simp [opened]

/-- Where the stream ends inside a block, some frame ends there. -/
theorem Contiguous.endsIn_ne_nil (h : Contiguous (Fits q) ts) (hlow : m * q.blockSize < streamEnd ts)
    (hhigh : streamEnd ts < (m + 1) * q.blockSize) : endsIn q ts m ≠ [] := by
  cases h with
  | nil => simp at hlow
  | snoc before start size =>
    rw [streamEnd_concat] at hlow hhigh
    rw [endsIn_concat, if_pos]
    · simp
    · apply Nat.eq_of_lt_succ_of_not_lt
      · rw [lastBlock_lt_iff size.1]
        omega
      · rw [lastBlock_lt_iff size.1]
        omega

/-- The parts of the invariant where a call asks. -/
theorem SeqInv.ask {s : RecInfo} (h : SeqInv q ts m ⟨s, .asking⟩) :
    s.head = [] ∧ s.remRecIdx = endsIn q ts m ∧ m * q.blockSize ≤ streamEnd ts ∧
      streamEnd ts < (m + 1) * q.blockSize ∧ s.remRecData.len = streamEnd ts - m * q.blockSize ∧
      s.remRecData.len < q.blockSize ∧
      (s.remRecIdx ≠ [] → s.remRecData = s.blockData q (streamEnd ts - m * q.blockSize)) := by
  obtain ⟨hhead, hlen⟩ := h.asking rfl
  rcases h.list with ⟨-, hidx, hlow, hhigh, hdata⟩ | ⟨us, f, -, hcons, -⟩
  · refine ⟨hhead, hidx, hlow, hhigh, hlen, ?_, hdata⟩
    simp only at hlen
    rw [Nat.add_mul] at hhigh
    omega
  · rw [hhead] at hcons
    cases hcons

theorem SeqInv.toIdle {s : RecInfo} (h : SeqInv q ts m ⟨s, .asking⟩) : SeqInv q ts m ⟨s, .idle⟩ :=
  ⟨h.contiguous, by simp, h.started, h.start, h.list, by simp⟩

/-- The loop goes on with the next frame of the stream. -/
theorem SeqInv.getFrame {s : RecInfo} (h : SeqInv q ts m ⟨s, .asking⟩) (hts : Contiguous (Fits q) (ts ++ [f])) :
    s.getRecDataIndex q f = { s with head := [helperAt q f m] } ∧ Over q f m := by
  obtain ⟨hhead, -, hlow, hhigh, -⟩ := h.ask
  obtain ⟨-, hfirst, hpos, hlt⟩ := hts.concat
  refine ⟨?_, hlt, by omega, by omega⟩
  rw [getRecDataIndex_helperAt (m := m) s hpos hlt (by omega), hhead, List.nil_append]

/-- **One frame too many**: the driver halts. -/
theorem answer_crowded {s : Sys} (h : SeqOk q ts s es) (hpc : s.pc = .asking)
    (hts : Contiguous (Fits q) (ts ++ [f])) (hfull : q.maxIdx ≤ (endsIn q ts (streamEnd ts / q.blockSize)).length)
    (hstep : step q s (.answer (.index f)) = some r) : Event.bug ∈ r.2 := by
  obtain ⟨m, hinv, -⟩ := h
  obtain ⟨s, pc⟩ := s
  subst hpc
  obtain rfl := Option.some.inj hstep
  obtain ⟨-, hidx, hlow, hhigh, -, hlen, -⟩ := hinv.ask
  have hm : streamEnd ts / q.blockSize = m := Nat.div_eq_of_lt_le hlow hhigh
  rw [hm, ← hidx] at hfull
  simp only
  rw [(hinv.getFrame hts).1, go_bug (s := { s with head := [helperAt q f m] }) rfl hlen hfull]
  exact List.mem_singleton.mpr rfl

/-- **The next frame.** -/
theorem answer_frame {s : Sys} (h : SeqOk q ts s es) (hpc : s.pc = .asking)
    (hts : Contiguous (Fits q) (ts ++ [f])) (hroom : ¬ q.maxIdx ≤ (endsIn q ts (streamEnd ts / q.blockSize)).length)
    (hstep : step q s (.answer (.index f)) = some r) : SeqOk q (ts ++ [f]) r.1 (es ++ r.2) := by
  obtain ⟨m, hinv, hes, hno⟩ := h
  obtain ⟨s, pc⟩ := s
  subst hpc
  obtain rfl := Option.some.inj hstep
  obtain ⟨-, hidx, hlow, hhigh, -, hlen, hdata⟩ := hinv.ask
  obtain ⟨heq, hover⟩ := hinv.getFrame hts
  obtain ⟨-, hfirst, hpos, -⟩ := hts.concat
  have hm : streamEnd ts / q.blockSize = m := Nat.div_eq_of_lt_le hlow hhigh
  rw [hm, ← hidx] at hroom
  have hes' : handed es = blocks q (ts ++ [f]) m := by rw [hes, blocks_concat hpos hover.stop]
  simp only
  rw [heq]
  rcases go_frame (s := { s with head := [helperAt q f m] }) hts rfl hinv.started hinv.start hover hidx
    (by simpa using hroom)
    (fun hne => by rw [hdata hne]; rfl) hlen with ⟨hinv', -, hes''⟩ | ⟨hinv', hes''⟩
  · refine ⟨m, hinv', ?_, ?_⟩
    · rw [hes'', List.append_nil, hes']
    · rw [hes'', List.append_nil]
      exact hno
  · refine ⟨m + 1, hinv', ?_, ?_⟩
    · rw [hes'', handed_append, hes', blocks_succ]
      rfl
    · rw [hes'', List.mem_append]
      simp [hno]

/-- The call goes back without a block. -/
theorem answer_none {s : Sys} {a : Answer} (h : SeqOk q ts s es)
    (hpc : s.pc = .asking) (ha : ∀ x, a ≠ .index x) (hstep : step q s (.answer a) = some r) :
    SeqOk q ts r.1 (es ++ r.2) := by
  obtain ⟨m, hinv, hes, hno⟩ := h
  obtain ⟨s, pc⟩ := s
  subst hpc
  obtain ⟨-, -, -, -, -, hlen, -⟩ := hinv.ask
  obtain ⟨ret, hr, hret⟩ : ∃ ret, r = (⟨s, .idle⟩, [.ret ret]) ∧ ∀ d, ret ≠ .data d := by
    cases a with
    | overflow => exact ⟨.overflowBuffer, by rw [← finish_part q hlen]; exact (Option.some.inj hstep).symm, by simp⟩
    | noMem => exact ⟨.noAvailableData, by rw [← finish_part q hlen]; exact (Option.some.inj hstep).symm, by simp⟩
    | noIndex => exact ⟨.noAvailableData, by rw [← finish_part q hlen]; exact (Option.some.inj hstep).symm, by simp⟩
    | index x => exact absurd rfl (ha x)
  subst hr
  refine ⟨m, hinv.toIdle, ?_, by simp [hno]⟩
  rw [handed_append, hes]
  have hnone : handed [.ret ret] = [] := by
    cases ret with
    | data d => exact absurd rfl (hret d)
    | success => rfl
    | notStartRecChan => rfl
    | overflowBuffer => rfl
    | noAvailableData => rfl
    | failure => rfl
  rw [hnone, List.append_nil]

/-- **A call begins**: it asks, or it hands out the next block. -/
theorem acquire_next {s : Sys} (h : SeqInv q ts m s) (hes : handed es = blocks q ts m)
    (hno : Event.bug ∉ es) (hpc : s.pc = .idle) (hstep : step q s .acquire = some r) :
    ∃ m', SeqInv q ts m' r.1 ∧ handed (es ++ r.2) = blocks q ts m' ∧ Event.bug ∉ es ++ r.2 ∧
      (r.1.pc = .asking ∨ m' = m + 1) := by
  obtain ⟨s, pc⟩ := s
  subst hpc
  have hstarted : s.started = true := h.started
  have haligned : Aligned q s.blockStartAddr := by
    rw [show s.blockStartAddr = _ from h.start]
    exact ⟨_, Nat.mod_lt _ q.blockCnt_pos, rfl⟩
  simp only [RecIndex.step, if_pos hstarted, acquire_eq haligned] at hstep
  obtain rfl := Option.some.inj hstep
  rcases h.list with ⟨hhead, hidx, hlow, hhigh, hdata⟩ | ⟨us, f, rfl, hhead, hnil, hbefore, hend⟩
  · -- no frame is in the list, and the entries are carried over
    simp only at hhead hidx hdata
    have hlen : s.beginBlock.remRecData.len = streamEnd ts - m * q.blockSize := by
      by_cases hnil : s.remRecIdx = []
      · have hzero : ¬ m * q.blockSize < streamEnd ts := fun hlt =>
          h.contiguous.endsIn_ne_nil hlt hhigh (hidx ▸ hnil)
        rw [beginBlock_new hnil]
        simp only
        omega
      · rw [beginBlock_carried hnil, hdata hnil, blockData_len]
    have hhead' : s.beginBlock.head = [] := by rw [beginBlock_head, hhead]
    rw [go_nil hhead' (by rw [hlen]; rw [Nat.add_mul] at hhigh; omega)]
    refine ⟨m, ⟨h.contiguous, by simp, by simpa using hstarted, by simpa using h.start,
      .inl ⟨hhead', by simpa using hidx, hlow, hhigh, ?_⟩, fun _ => ⟨hhead', hlen⟩⟩, by simpa using hes,
      by simpa using hno, .inl rfl⟩
    intro hne
    rw [beginBlock_idx] at hne
    simp only [beginBlock_carried hne]
    exact hdata hne
  · -- the frame in the list goes on
    simp only at hhead hnil
    rw [streamEnd_concat] at hend
    obtain ⟨hus, hfirst, hpos, hlt⟩ := h.contiguous.concat
    have hover : Over q f m := by
      refine ⟨hlt, ?_, hend⟩
      rw [Nat.add_mul]
      omega
    have hidx : s.beginBlock.remRecIdx = endsIn q us m := by
      rw [beginBlock_idx, hnil, hus.endsIn_eq_nil (by omega)]
    rcases go_frame h.contiguous (by rw [beginBlock_head, hhead]) (by simpa using hstarted) (by simpa using h.start)
      hover hidx (by simpa [hnil] using q.maxIdx_pos) (by simp [hnil])
      (by rw [beginBlock_new hnil]; exact q.blockSize_pos) with ⟨hinv, hpc, hes'⟩ | ⟨hinv, hes'⟩
    · refine ⟨m, hinv, ?_, ?_, .inl hpc⟩
      · rw [hes', List.append_nil, hes]
      · rw [hes', List.append_nil]
        exact hno
    · refine ⟨m + 1, hinv, ?_, ?_, .inr rfl⟩
      · rw [hes', handed_append, hes, blocks_succ]
        rfl
      · rw [hes', List.mem_append]
        simp [hno]

/-! ## Runs -/

/-- Only calls of `DMX_AcquireRecDataIndex`. -/
def acquires (_ : Sys) : Input → Prop
  | .acquire | .answer _ => True
  | _ => False

/-- What the claim about a stream is: the blocks come out in order, each with the frames that end in it, the entries
    in the order of the stream; and a call asks for more only when every complete block is handed out. -/
structure Right (q : Fq) (ts : List Index) (s : Sys) (es : List Event) : Prop where
  noBug : Event.bug ∉ es
  inOrder : handed es = blocks q ts (handed es).length
  entries : (handed es).flatMap (·.index) <+: ts
  complete : s.pc = .asking → (handed es).length = streamEnd ts / q.blockSize

theorem SeqOk.right {s : Sys} (h : SeqOk q ts s es) : Right q ts s es := by
  obtain ⟨m, hinv, hes, hno⟩ := h
  have hlen : (handed es).length = m := by simp [hes, blocks]
  refine ⟨hno, by rw [hlen, hes], ?_, ?_⟩
  · rw [hes]
    exact hinv.contiguous.blocks_isPrefix m
  · intro hpc
    obtain ⟨s, pc⟩ := s
    subst hpc
    obtain ⟨-, -, hlow, hhigh, -⟩ := hinv.ask
    rw [hlen, Nat.div_eq_of_lt_le hlow hhigh]

/-- **One step**: it does right, or the frame is one too many. -/
theorem SeqOk.step {s : Sys} {i : Input} (h : SeqOk q ts s es)
    (hi : acquires s i) (hts : Contiguous (Fits q) (ts ++ taken [i])) (hcrowd : ¬ Crowded q (ts ++ taken [i]))
    (hstep : step q s i = some r) : SeqOk q (ts ++ taken [i]) r.1 (es ++ r.2) := by
  obtain ⟨s, pc⟩ := s
  cases pc with
  | halted => cases i <;> cases hstep
  | idle =>
    cases i with
    | acquire =>
      obtain ⟨m, hinv, hes, hno⟩ := h
      obtain ⟨m', hinv', hes', hno', -⟩ := acquire_next hinv hes hno rfl hstep
      simp only [taken, List.filterMap_cons, List.filterMap_nil, List.append_nil]
      exact ⟨m', hinv', hes', hno'⟩
    | answer a => cases a <;> cases hstep
    | start => cases hi
    | stop => cases hi
    | suspend => cases hi
    | resume b => cases hi
  | asking =>
    cases i with
    | acquire => cases hstep
    | answer a =>
      cases a with
      | index f =>
        refine answer_frame h rfl hts ?_ hstep
        intro hfull
        exact hcrowd ⟨ts, f, List.prefix_rfl, hfull⟩
      | overflow => simpa [taken] using answer_none h rfl (by simp) hstep
      | noMem => simpa [taken] using answer_none h rfl (by simp) hstep
      | noIndex => simpa [taken] using answer_none h rfl (by simp) hstep
    | start => cases hi
    | stop => cases hi
    | suspend => cases hi
    | resume b => cases hi

theorem Crowded.mono (h : Crowded q ts) (hts : ts <+: fs) : Crowded q fs := by
  obtain ⟨us, f, hus, hfull⟩ := h
  exact ⟨us, f, hus.trans hts, hfull⟩

/-- **Every run over a stream that is not crowded.** -/
theorem run_seqOk {s : Sys} {is : List Input} (hfs : Contiguous (Fits q) fs) (hcrowd : ¬ Crowded q fs)
    (hrun : Run (step q) acquires (opened q) is s es) (hts : taken is <+: fs) : SeqOk q (taken is) s es := by
  revert hts
  refine hrun.inv_effects (fun is s es => taken is <+: fs → SeqOk q (taken is) s es) (fun _ => seqOk_opened) ?_
  intro is s es i t gs ih hi hstep hts
  rw [taken_append] at hts ⊢
  refine SeqOk.step (ih ((List.prefix_append _ _).trans hts)) hi (hfs.init hts) ?_ hstep
  exact fun hcrowd' => hcrowd (hcrowd'.mono hts)

theorem SeqInv.le_div {s : Sys} (h : SeqInv q ts m s) : m ≤ streamEnd ts / q.blockSize := by
  rw [Nat.le_div_iff_mul_le q.blockSize_pos]
  rcases h.list with ⟨-, -, hlow, -⟩ | ⟨us, f, -, -, -, -, hend⟩
  · exact hlow
  · exact Nat.le_of_lt hend

theorem acquire_returns {s : Sys} (h : SeqInv q ts m s) (hpc : s.pc = .idle) : ∃ r, step q s .acquire = some r := by
  obtain ⟨s, pc⟩ := s
  subst hpc
  exact ⟨acquireRecDataIndex q s, if_pos h.started⟩

/-- The calls one after the other come to a question. -/
theorem exists_ask {s : Sys} (h : SeqOk q ts s es) :
    ∃ js t gs, Run (step q) acquires s js t gs ∧ taken js = [] ∧ t.pc = .asking ∧ SeqOk q ts t (es ++ gs) := by
  obtain ⟨m, hinv, hes, hno⟩ := h
  -- each call hands out one of the complete blocks that are left
  induction hk : streamEnd ts / q.blockSize + 1 - m generalizing m s es with
  | zero =>
    have hle := hinv.le_div
    omega
  | succ k ih =>
    cases hpc : s.pc with
    | halted => exact absurd hpc hinv.running
    | asking => exact ⟨[], s, [], .nil, rfl, hpc, m, hinv, by simpa using hes, by simpa using hno⟩
    | idle =>
      obtain ⟨⟨t, gs⟩, hstep⟩ := acquire_returns hinv hpc
      obtain ⟨m', hinv', hes', hno', hor⟩ := acquire_next hinv hes hno hpc hstep
      have hrun : Run (step q) acquires s [.acquire] t gs := Run.nil.snoc trivial hstep
      rcases hor with hask | rfl
      · exact ⟨_, t, gs, hrun, rfl, hask, m', hinv', hes', hno'⟩
      · obtain ⟨js, u, hs, hrun', hjs, hask, hok⟩ := ih (m + 1) hinv' hes' hno' (by omega)
        refine ⟨_, u, gs ++ hs, hrun.append hrun', ?_, hask, ?_⟩
        · rw [taken_append, hjs]
          rfl
        · rw [← List.append_assoc]
          exact hok

/-- Where every run is right, some run takes any beginning of the stream and asks for more. -/
theorem exists_run_taking (hfs : Contiguous (Fits q) fs)
    (hright : ∀ is s es, Run (step q) acquires (opened q) is s es → taken is <+: fs → Right q (taken is) s es)
    (hts : ts <+: fs) :
    ∃ is s es, Run (step q) acquires (opened q) is s es ∧ taken is = ts ∧ s.pc = .asking ∧ SeqOk q ts s es := by
  induction ts using List.reverseRecOn with
  | nil =>
    obtain ⟨js, t, gs, hrun, hjs, hask, hok⟩ := exists_ask (seqOk_opened (q := q))
    exact ⟨js, t, gs, hrun, hjs, hask, by simpa using hok⟩
  | append_singleton ts f ih =>
    obtain ⟨is, s, es, hrun, his, hask, hok⟩ := ih ((List.prefix_append _ _).trans hts)
    have hcont := hfs.init hts
    obtain ⟨⟨t, gs⟩, hstep⟩ : ∃ r, step q s (.answer (.index f)) = some r := by
      obtain ⟨s, pc⟩ := s
      subst hask
      exact ⟨_, rfl⟩
    have hrun' := hrun.snoc (show acquires s (.answer (.index f)) from trivial) hstep
    have htaken : taken (is ++ [.answer (.index f)]) = ts ++ [f] := by
      rw [taken_append, his]
      rfl
    have hroom : ¬ q.maxIdx ≤ (endsIn q ts (streamEnd ts / q.blockSize)).length := by
      intro hfull
      have hbug := answer_crowded hok hask hcont hfull hstep
      exact (hright _ _ _ hrun' (htaken ▸ hts)).noBug (List.mem_append_right _ hbug)
    obtain ⟨js, u, hs, hrun'', hjs, hask', hok'⟩ := exists_ask (answer_frame hok hask hcont hroom hstep)
    refine ⟨_, u, _, hrun'.append hrun'', ?_, hask', hok'⟩
    rw [taken_append, htaken, hjs, List.append_nil]

/-- **Blocks and frames.** Over a stream without gaps every run of calls hands out the blocks in order, each with the
    frames that end in it, exactly where no frame starts in a block in which the most frames ended already. -/
theorem run_blocks_iff (hfs : Contiguous (Fits q) fs) :
    (∀ is s es, Run (step q) acquires (opened q) is s es → taken is <+: fs → Right q (taken is) s es) ↔
      ¬ Crowded q fs := by
  constructor
  · rintro hright ⟨ts, f, hts, hfull⟩
    obtain ⟨is, s, es, hrun, his, hask, hok⟩ := exists_run_taking hfs hright ((List.prefix_append _ _).trans hts)
    obtain ⟨⟨t, gs⟩, hstep⟩ : ∃ r, step q s (.answer (.index f)) = some r := by
      obtain ⟨s, pc⟩ := s
      subst hask
      exact ⟨_, rfl⟩
    have hbug := answer_crowded hok hask (hfs.init hts) hfull hstep
    have hrun' := hrun.snoc (show acquires s (.answer (.index f)) from trivial) hstep
    refine (hright _ _ _ hrun' ?_).noBug (List.mem_append_right _ hbug)
    rw [taken_append, his]
    exact hts
  · intro hcrowd is s es hrun hts
    exact (run_seqOk hfs hcrowd hrun hts).right

instance decidableAcquires (s : Sys) : (i : Input) → Decidable (acquires s i)
  | .acquire | .answer _ => isTrue trivial
  | .start | .stop | .suspend | .resume _ => isFalse id

/-- The same, by where the frame is in the stream. -/
theorem crowded_iff (q : Fq) (fs : List Index) :
    Crowded q fs ↔ ∃ k < fs.length,
      q.maxIdx ≤ (endsIn q (fs.take k) (streamEnd (fs.take k) / q.blockSize)).length := by
  constructor
  · rintro ⟨ts, f, hts, hfull⟩
    have hlen : ts.length + 1 ≤ fs.length := by simpa using hts.length_le
    have htake : ts = fs.take ts.length := List.prefix_iff_eq_take.mp ((List.prefix_append _ _).trans hts)
    refine ⟨ts.length, hlen, ?_⟩
    rw [← htake]
    exact hfull
  · rintro ⟨k, hk, hfull⟩
    refine ⟨fs.take k, fs.get ⟨k, hk⟩, ?_, hfull⟩
    rw [List.get_eq_getElem, List.take_append_getElem hk]
    exact List.take_prefix _ _

instance decidableCrowded (q : Fq) (fs : List Index) : Decidable (Crowded q fs) :=
  decidable_of_iff _ (crowded_iff q fs).symm

/-- Frames for `threeBlocks`: one ends with a block, one goes over two blocks and around the end of the buffer. -/
def fourFrames : List Index := [⟨0, 4⟩, ⟨4, 6⟩, ⟨10, 25⟩, ⟨35, 4⟩]

theorem fourFrames_contiguous : Contiguous (Fits threeBlocks) fourFrames := by
  have h1 : Contiguous (Fits threeBlocks) [⟨0, 4⟩] := .snoc .nil rfl (by decide)
  have h2 : Contiguous (Fits threeBlocks) [⟨0, 4⟩, ⟨4, 6⟩] := .snoc h1 rfl (by decide)
  have h3 : Contiguous (Fits threeBlocks) [⟨0, 4⟩, ⟨4, 6⟩, ⟨10, 25⟩] := .snoc h2 rfl (by decide)
  exact .snoc h3 rfl (by decide)

/-- Each of the three blocks is handed on with the frames that end in it. -/
theorem run_blocks_iff_fourFrames : ∃ is s es, Run (step threeBlocks) acquires (opened threeBlocks) is s es ∧
    taken is = fourFrames ∧ Right threeBlocks fourFrames s es ∧ (handed es).length = 3 := by
  refine ⟨[.acquire, .answer (.index ⟨0, 4⟩), .answer .noIndex, .acquire, .answer (.index ⟨4, 6⟩), .acquire,
      .answer (.index ⟨10, 25⟩), .acquire, .acquire, .answer (.index ⟨35, 4⟩), .answer .overflow],
    exists_run_imp (fun _ es => (handed es).length = 3)
    (by decide) fun _ _ hrun htest => ?_⟩
  have hright := (run_blocks_iff fourFrames_contiguous).mpr (by decide) _ _ _ hrun List.prefix_rfl
  exact ⟨rfl, hright, htest⟩

/-- **A full block halts the driver.** Two frames end in the first block, as many as may; the third one starts in it
    and goes on in the next. -/
theorem full_block_halts : Contiguous (Fits threeBlocks) [⟨0, 3⟩, ⟨3, 3⟩, ⟨6, 9⟩] ∧
    (∀ b, (endsIn threeBlocks [⟨0, 3⟩, ⟨3, 3⟩, ⟨6, 9⟩] b).length ≤ threeBlocks.maxIdx) ∧
    ∃ is s es, Run (step threeBlocks) acquires (opened threeBlocks) is s es ∧
      taken is = [⟨0, 3⟩, ⟨3, 3⟩, ⟨6, 9⟩] ∧ Event.bug ∈ es := by
  refine ⟨?_, ?_, ?_⟩
  · have h1 : Contiguous (Fits threeBlocks) [⟨0, 3⟩] := .snoc .nil rfl (by decide)
    have h2 : Contiguous (Fits threeBlocks) [⟨0, 3⟩, ⟨3, 3⟩] := .snoc h1 rfl (by decide)
    exact .snoc h2 rfl (by decide)
  · intro b
    match b with
    | 0 => decide
    | 1 => decide
    | b + 2 => simp [endsIn, lastBlock, threeBlocks]
  · exact ⟨[.acquire, .answer (.index ⟨0, 3⟩), .answer (.index ⟨3, 3⟩), .answer (.index ⟨6, 9⟩)],
      exists_run_imp (fun _ es => Event.bug ∈ es)
      (by decide) fun _ _ _ htest => ⟨rfl, htest⟩⟩

end HiSTB.Demux.RecIndex
