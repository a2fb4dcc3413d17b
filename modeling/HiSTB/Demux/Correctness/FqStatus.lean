import HiSTB.Demux.Correctness.FqLayout

/-!
# `FqStatus` — how much of a buffer is in use

A free queue of depth `D` holds at most `D - 1` blocks, and the blocks in it and those taken add up to that many
(`Inv`). The status calls count the blocks taken from the two pointers. The count is right while the read pointer is
below the write pointer. Behind a wrap it is one block too long, and for an empty queue, where the pointers are equal,
it is 0 instead of the whole buffer.

* `run_inv` — the two sums in every state that is reached;
* `usedSize_cases` — the used size in the three cases;
* `usedSize_iff` — where the two calls are right.
-/

namespace HiSTB.Demux.FqBuf

open Lib

variable {cfg : Consts} {mmz : Mmz} {q : Queue} {depth : U32} {slots : U32 → U32} {x y : Sys}

variable {read write : Nat} {blockSize : U32}

/-- The number of blocks between two pointers. -/
def between (depth read write : Nat) : Nat := if read ≤ write then write - read else depth + write - read

/-- A pointer goes on, around the end. -/
def around (depth p : Nat) : Nat := if p + 1 < depth then p + 1 else 0

theorem around_lt {depth p : Nat} (hp : p < depth) : around depth p < depth := by
  unfold around
  split <;> omega

theorem between_around_read {depth : Nat} (hr : read < depth) (hw : write < depth) (hne : read ≠ write) :
    between depth (around depth read) write + 1 = between depth read write := by
  unfold between around
  split <;> split <;> split <;> omega

/-- There is room for one more block. -/
theorem between_around_write {depth : Nat} (hr : read < depth) (hw : write < depth)
    (hroom : between depth read write + 1 < depth) :
    between depth read (around depth write) = between depth read write + 1 := by
  unfold between at hroom
  unfold between around
  split at hroom <;> split <;> split <;> omega

/-- Every block is in the queue or taken. -/
structure Inv (depth : U32) (x : Sys) : Prop where
  read_lt : x.read.toNat < depth.toNat
  write_lt : x.write.toNat < depth.toNat
  count : between depth.toNat x.read.toNat x.write.toNat + x.out.length + 1 = depth.toNat

theorem toNat_inc {p : U32} (hp : p.toNat < depth.toNat) : (inc p depth).toNat = around depth.toNat p.toNat := by
  have hone : (1 : U32).toNat = 1 := rfl
  have hsucc : (p + 1).toNat = p.toNat + 1 := by
    rw [BitVec.toNat_add, hone]
    exact Nat.mod_eq_of_lt (Nat.lt_of_le_of_lt hp depth.isLt)
  unfold inc around
  simp only [BitVec.lt_def, hsucc]
  split
  · exact hsucc
  · rfl

theorem Inv.take (h : Inv depth x) (hne : x.read ≠ x.write) (addr : U32) :
    Inv depth { x with read := inc x.read depth, out := addr :: x.out } := by
  have hread := toNat_inc h.read_lt
  have hne : x.read.toNat ≠ x.write.toNat := fun heq => hne (BitVec.eq_of_toNat_eq heq)
  have hcount := h.count
  have hless := between_around_read h.read_lt h.write_lt hne
  refine ⟨hread ▸ around_lt h.read_lt, h.write_lt, ?_⟩
  show between depth.toNat (inc x.read depth).toNat x.write.toNat + (x.out.length + 1) + 1 = depth.toNat
  rw [hread]
  omega

theorem Inv.release {addr : U32} (h : Inv depth x) (hmem : addr ∈ x.out) (slots : U32 → U32) :
    Inv depth { x with write := inc x.write depth, slots := slots, out := x.out.erase addr } := by
  have hwrite := toNat_inc h.write_lt
  have hlen := List.length_erase_of_mem hmem
  have hpos := List.length_pos_of_mem hmem
  have hcount := h.count
  refine ⟨h.read_lt, hwrite ▸ around_lt h.write_lt, ?_⟩
  show between depth.toNat x.read.toNat (inc x.write depth).toNat + (x.out.erase addr).length + 1 = depth.toNat
  rw [hwrite, hlen, between_around_write h.read_lt h.write_lt (by omega)]
  omega

theorem Inv.step {i : Input} {fs : List Unit} (h : Inv depth x) (hnext : FqBuf.step depth x i = some (y, fs)) :
    Inv depth y := by
  cases i with
  | take =>
    simp only [FqBuf.step] at hnext
    split at hnext
    next => cases hnext
    next hne =>
      cases hnext
      exact h.take hne _
  | release addr =>
    simp only [FqBuf.step] at hnext
    split at hnext
    next hmem =>
      cases hnext
      exact h.release hmem _
    next => cases hnext

/-- All blocks are in the queue at the start. -/
theorem inv_start (hpos : 0 < depth.toNat) (hreg : depth.toNat ≤ 0x10000) : Inv depth (start depth slots) := by
  have hone : (1 : U32).toNat = 1 := rfl
  have hzero : (0 : U32).toNat = 0 := rfl
  have hmask : (0xffff : U32).toNat = 2 ^ 16 - 1 := rfl
  have hwrite : ((depth - 1) &&& 0xffff).toNat = depth.toNat - 1 := by
    rw [BitVec.toNat_and, hmask, Nat.and_two_pow_sub_one_eq_mod, BitVec.toNat_sub, hone]
    omega
  refine ⟨hpos, ?_, ?_⟩
  · show ((depth - 1) &&& 0xffff).toNat < _
    omega
  · show between depth.toNat (0 : U32).toNat ((depth - 1) &&& 0xffff).toNat + 0 + 1 = _
    rw [hwrite, hzero, between, if_pos (Nat.zero_le _)]
    omega

theorem run_inv (hpos : 0 < depth.toNat) (hreg : depth.toNat ≤ 0x10000) {is : List Input} {es : List Unit}
    (h : Run (step depth) always (start depth slots) is x es) : Inv depth x :=
  h.inv (fun _ x => Inv depth x) (inv_start hpos hreg) (fun _ _ _ _ _ hinv _ hnext => hinv.step hnext)

/-! ## The used size -/

theorem toNat_blocks {n : U32} {k : Nat} (hn : n.toNat = k) (hlt : k * blockSize.toNat < 0x100000000) :
    (n * blockSize).toNat = k * blockSize.toNat := by
  rw [BitVec.toNat_mul, hn]
  exact Nat.mod_eq_of_lt hlt

/-- The size is exact if the read pointer is below the write pointer, one block too long if it is above, and 0 if the
    pointers are equal, where all blocks are taken. -/
theorem usedSize_cases (h : Inv depth x) (hlt : (depth.toNat - 1) * blockSize.toNat < 0x100000000) :
    (x.read < x.write → (usedSize depth blockSize x.read x.write).toNat = x.out.length * blockSize.toNat) ∧
    (x.write < x.read → (usedSize depth blockSize x.read x.write).toNat = (x.out.length + 1) * blockSize.toNat) ∧
    (x.read = x.write → usedSize depth blockSize x.read x.write = 0 ∧ x.out.length = depth.toNat - 1) := by
  have hone : (1 : U32).toNat = 1 := rfl
  have hr := h.read_lt
  have hw := h.write_lt
  have hd := depth.isLt
  have hcount := h.count
  unfold between at hcount
  have hfits {k : Nat} (hk : k ≤ depth.toNat - 1) : k * blockSize.toNat < 0x100000000 :=
    Nat.lt_of_le_of_lt (Nat.mul_le_mul_right _ hk) hlt
  refine ⟨fun hlow => ?_, fun hhigh => ?_, fun heq => ?_⟩
  · have hlow' := BitVec.lt_def.mp hlow
    rw [if_pos (Nat.le_of_lt hlow')] at hcount
    rw [usedSize, if_pos hlow]
    refine toNat_blocks ?_ (hfits (by omega))
    rw [BitVec.toNat_add, BitVec.toNat_sub, BitVec.toNat_sub, hone]
    omega
  · have hhigh' := BitVec.lt_def.mp hhigh
    rw [if_neg (Nat.not_le.mpr hhigh')] at hcount
    rw [usedSize, if_neg (BitVec.lt_asymm hhigh), if_pos hhigh]
    refine toNat_blocks ?_ (hfits (by omega))
    rw [BitVec.toNat_sub]
    omega
  · rw [heq, if_pos (Nat.le_refl _), Nat.sub_self] at hcount
    rw [heq, usedSize, if_neg (BitVec.lt_irrefl _), if_neg (BitVec.lt_irrefl _)]
    exact ⟨rfl, by omega⟩

/-! ## The two calls -/

/-- A queue that one of the creators made; the second queue of a recording has no status call. -/
inductive Created (cfg : Consts) (mmz : Mmz) (q : Queue) : Prop
  | channel (type : AvType) (size : U32) (h : osiCreateChannel cfg mmz type size = some q)
  | recording (type : IndexType) (timeStamp : Bool) (size : U32) (scd : Option Queue)
      (h : recCreateChannel cfg mmz type timeStamp size = some (q, scd))

theorem avBlockSize_pos (cfg : Consts) (type : AvType) (bufSize : U32) : 0 < (avBlockSize cfg type bufSize).toNat := by
  have hmax := cfg.maxBlockSize_pos
  have h4 : (4 : U32).toNat = 4 := rfl
  have hdefault : 4 ≤ (if type = .aud then 1280 else 8192 : U32).toNat := by cases type <;> decide
  unfold avBlockSize
  generalize (if type = .aud then 1280 else 8192 : U32) = blockSize at hdefault ⊢
  dsimp only
  split
  next hgt =>
    have hgt := BitVec.lt_def.mp hgt
    split
    · exact hmax
    · rw [BitVec.toNat_sub_of_le, BitVec.toNat_umod, h4]
      · omega
      · rw [BitVec.le_def, BitVec.toNat_umod]
        exact Nat.mod_le _ _
  next => omega

theorem recBlockSize_pos (type : IndexType) (timeStamp : Bool) : 0 < (recBlockSize type timeStamp).toNat := by
  cases type <;> cases timeStamp <;> decide

/-- The blocks are as many as the buffer has room for, and not empty. -/
theorem Created.sizes (h : Created cfg mmz q) : 0 < q.blockSize.toNat ∧ 0 < q.fqDepth.toNat ∧
    (q.fqDepth.toNat - 1) * q.blockSize.toNat < 0x100000000 := by
  have halloc {bufSize blockSize : U32} (hlt : bufSize.toNat + 1 < 0x100000000) (hpos : 0 < blockSize.toNat)
      (h : allocQueue cfg mmz bufSize blockSize = some q) : 0 < q.blockSize.toNat ∧ 0 < q.fqDepth.toNat ∧
      (q.fqDepth.toNat - 1) * q.blockSize.toNat < 0x100000000 := by
    obtain ⟨start, -, rfl⟩ := Option.map_eq_some_iff.mp h
    rw [toNat_fqDepth _ _ _ hlt, Nat.add_sub_cancel]
    exact ⟨hpos, Nat.succ_pos _, Nat.lt_of_le_of_lt (Nat.div_mul_le_self _ _) bufSize.isLt⟩
  cases h with
  | channel type size h => exact halloc (align_add_one_lt _) (avBlockSize_pos _ _ _) h
  | recording type timeStamp size scd h =>
    exact halloc (wholeBlocks_add_one_lt _ _) (recBlockSize_pos _ _) (recCreateChannel_some h).1

/-- In every state that is reached from `DmxFqStart`, both calls report the blocks that are taken exactly if the read
    pointer is below the write pointer (or there is no block at all). -/
theorem usedSize_iff (h : Created cfg mmz q) (hreg : q.fqDepth.toNat ≤ 0x10000) {is : List Input} {es : List Unit}
    (hrun : Run (step q.fqDepth) always (start q.fqDepth slots) is x es) :
    ((osiGetFQBufStatus q x).2.1.toNat = q.blockSize.toNat * x.out.length ∧
      (recGetRecBufferStatus true q x).2.toNat = q.blockSize.toNat * x.out.length) ↔
      x.read < x.write ∨ q.fqDepth = 1 := by
  obtain ⟨hblock, hpos, hlt⟩ := h.sizes
  have hinv := run_inv hpos hreg hrun
  have hdepth : q.fqDepth = 1 ↔ q.fqDepth.toNat = 1 := BitVec.toNat_inj.symm
  obtain ⟨hlow, hhigh, hempty⟩ := usedSize_cases hinv hlt
  rw [show (recGetRecBufferStatus true q x).2 = (osiGetFQBufStatus q x).2.1 from rfl, and_self, hdepth, Nat.mul_comm]
  show (usedSize q.fqDepth q.blockSize x.read x.write).toNat = _ ↔ _
  have hr := hinv.read_lt
  have hw := hinv.write_lt
  rcases Nat.lt_trichotomy x.read.toNat x.write.toNat with hrw | hrw | hrw
  · exact iff_of_true (hlow (BitVec.lt_def.mpr hrw)) (.inl (BitVec.lt_def.mpr hrw))
  · have hrw := BitVec.eq_of_toNat_eq hrw
    obtain ⟨hzero, hout⟩ := hempty hrw
    have hzero' : (0 : U32).toNat = 0 := rfl
    rw [hzero, hout, hzero', hrw, or_iff_right (BitVec.lt_irrefl _), eq_comm, Nat.mul_eq_zero,
      or_iff_left (Nat.ne_of_gt hblock)]
    omega
  · refine iff_of_false ?_ ?_
    · rw [hhigh (BitVec.lt_def.mpr hrw), Nat.succ_mul]
      omega
    · rintro (hlt | hone)
      · exact Nat.lt_asymm hrw (BitVec.lt_def.mp hlt)
      · omega

/-- The queue of a recording of 256 KiB: five blocks. -/
def recQueue : Queue := queueAt (build 0) (wholeBlocks 0x40000 (64 * (4 * 188))) (64 * (4 * 188)) 0x40000000

theorem created_recQueue : Created (build 0) mmz256 recQueue := .recording .none false 0x40000 none rfl

/-- The slots of that queue, by number. -/
def recSlots (p : U32) : U32 := 0x40000000 + p * 48128

/-- Two blocks are taken, and both calls report them. -/
theorem usedSize_two : ∃ x es, Run (step recQueue.fqDepth) always (start recQueue.fqDepth recSlots)
    [.take, .take] x es ∧
    (osiGetFQBufStatus recQueue x).2.1.toNat = 48128 * x.out.length ∧
    (recGetRecBufferStatus true recQueue x).2.toNat = 48128 * x.out.length := by
  refine exists_run_imp (fun x _ => x.read < x.write) (by decide) fun _ _ hrun htest => ?_
  have h := (usedSize_iff created_recQueue (by decide) hrun).mpr (.inl htest)
  exact ⟨h.1, h.2⟩

/-- With all five blocks taken both calls report nothing; with one taken and put back, one block. -/
theorem usedSize_wrong :
    (∃ x es, Run (step recQueue.fqDepth) always (start recQueue.fqDepth recSlots) (List.replicate 5 .take) x es ∧
      x.out.length = 5 ∧ (osiGetFQBufStatus recQueue x).2.1 = 0 ∧ (recGetRecBufferStatus true recQueue x).2 = 0) ∧
    ∃ x es, Run (step recQueue.fqDepth) always (start recQueue.fqDepth recSlots) [.take, .release 0x40000000] x es ∧
      x.out = [] ∧ (osiGetFQBufStatus recQueue x).2.1 = 48128 ∧ (recGetRecBufferStatus true recQueue x).2 = 48128 := by
  constructor
  · exact exists_run_of_decide (by decide)
  · exact exists_run_of_decide (by decide)

end HiSTB.Demux.FqBuf
