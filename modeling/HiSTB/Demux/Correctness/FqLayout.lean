import HiSTB.Demux.FqBuf

/-!
# `FqLayout` — where the blocks of a free queue are

* `le_align_iff` — the rounding to pages;
* `getElem?_fqStart` — the blocks that are installed;
* `last_le_iff` — the last one is inside exactly if the gaps fit;
* `allocQueue_sound_iff`, `create_sound_iff` — a layout is sound exactly if the sizes add up and the gaps fit.

The depth of the queue is the size divided by the size of a block, while the blocks are further apart than that, by
`DMX_BUF_INTERVAL`. The creator of the common pool divides by the sum of the two.
-/

namespace HiSTB.Demux.FqBuf

open Lib

variable {cfg : Consts} {mmz : Mmz} {size bufSize blockSize : U32} {q : Queue}

variable {i : Nat} {d : Desc}

/-! ## Sizes -/

/-- A size in pages. -/
def pages (n : Nat) : Nat := (n + 4095) / 4096 * 4096

theorem le_pages (n : Nat) : n ≤ pages n := by
  unfold pages
  omega

theorem pages_lt_iff {n : Nat} : pages n < 0x100000000 ↔ n + 4095 < 0x100000000 := by
  unfold pages
  omega

theorem align_eq (size : U32) : (align size).toNat = (size.toNat + 4095) % 0x100000000 / 4096 * 4096 := by
  have h4096 : (4096 : U32).toNat = 4096 := rfl
  have h1 : (1 : U32).toNat = 1 := rfl
  rw [align, BitVec.toNat_mul, BitVec.toNat_udiv, BitVec.toNat_sub, BitVec.toNat_add, h4096, h1]
  omega

theorem toNat_align (h : pages size.toNat < 0x100000000) : (align size).toNat = pages size.toNat := by
  rw [align_eq, Nat.mod_eq_of_lt (pages_lt_iff.mp h), pages]

theorem le_align_iff : size.toNat ≤ (align size).toNat ↔ pages size.toNat < 0x100000000 := by
  have := size.isLt
  rw [align_eq, pages]
  omega

/-! ## The blocks -/

theorem getElem?_installBlocks (n : Nat) (addr : U32) (i : Nat) (hi : i < n) :
    (installBlocks cfg blockSize n addr)[i]? =
      some ⟨addr + BitVec.ofNat 32 (i * (blockSize.toNat + cfg.bufInterval.toNat)), blockSize⟩ := by
  induction n generalizing addr i with
  | zero => exact absurd hi (Nat.not_lt_zero i)
  | succ n ih =>
    rw [installBlocks]
    cases i with
    | zero => simp
    | succ i =>
      rw [List.getElem?_cons_succ, ih _ i (Nat.lt_of_succ_lt_succ hi)]
      have hstep : blockSize + cfg.bufInterval = BitVec.ofNat 32 (blockSize.toNat + cfg.bufInterval.toNat) := by
        rw [BitVec.ofNat_add, BitVec.ofNat_toNat, BitVec.ofNat_toNat]
        simp
      rw [BitVec.add_assoc, hstep, ← BitVec.ofNat_add, Nat.succ_mul, Nat.add_comm (i * _)]

theorem length_installBlocks (n : Nat) (addr : U32) : (installBlocks cfg blockSize n addr).length = n := by
  induction n generalizing addr with
  | zero => rfl
  | succ n ih => rw [installBlocks, List.length_cons, ih]

/-- The address of the block with this number, if no address is too long. -/
def place (cfg : Consts) (q : Queue) (i : Nat) : Nat :=
  q.bufAddr.toNat + i * (q.blockSize.toNat + cfg.bufInterval.toNat)

/-- The layout of a queue for which `size` was asked for. -/
structure Sound (cfg : Consts) (size : U32) (q : Queue) : Prop where
  /-- The rounding does not wrap. -/
  rounded : size.toNat ≤ (align size).toNat
  /-- The areas are in the memory that was allocated. -/
  memory : q.bufSize.toNat + q.fqBufSize.toNat + q.oqBufSize.toNat = q.total.toNat
  spaced : ∀ (i : Nat) (d : Desc), (fqStart cfg q)[i]? = some d →
    d.startAddr.toNat = place cfg q i ∧ d.buflen = q.blockSize
  inside : ∀ d ∈ fqStart cfg q, q.bufAddr.toNat ≤ d.startAddr.toNat ∧
    d.startAddr.toNat + d.buflen.toNat ≤ q.bufAddr.toNat + q.bufSize.toNat
  apart : (fqStart cfg q).Pairwise (fun d e => d.startAddr.toNat + d.buflen.toNat ≤ e.startAddr.toNat)
  /-- The areas of the descriptors are behind all blocks. -/
  untouched : ∀ d ∈ fqStart cfg q, d.startAddr.toNat + d.buflen.toNat ≤ q.fqAddr.toNat ∧
    q.fqAddr.toNat + q.fqBufSize.toNat ≤ q.oqAddr.toNat
  descs : q.fqDepth.toNat * 8 ≤ q.fqBufSize.toNat

/-- The number of blocks in a buffer of this size. -/
def blocks (bufSize blockSize : U32) : Nat := bufSize.toNat / blockSize.toNat

/-- The depth of the output queue. -/
def outDepth (cfg : Consts) (bufSize blockSize : U32) : Nat :=
  if blocks bufSize blockSize + 1 < cfg.oqDepth.toNat then blocks bufSize blockSize else cfg.oqDepth.toNat

/-- The sizes add up, and the gaps between the blocks fit into what is left behind them. -/
structure Fits (cfg : Consts) (size bufSize blockSize : U32) : Prop where
  rounded : pages size.toNat < 0x100000000
  total : bufSize.toNat + pages (8 * (blocks bufSize blockSize + 1)) + 16 * outDepth cfg bufSize blockSize < 0x100000000
  gaps : (blocks bufSize blockSize - 1) * cfg.bufInterval.toNat ≤ bufSize.toNat % blockSize.toNat

section Areas

variable {start : U32}

theorem toNat_fqDepth (cfg : Consts) (blockSize start : U32) (hlt : bufSize.toNat + 1 < 0x100000000) :
    (queueAt cfg bufSize blockSize start).fqDepth.toNat = blocks bufSize blockSize + 1 := by
  have hdiv : bufSize.toNat / blockSize.toNat ≤ bufSize.toNat := Nat.div_le_self _ _
  show (bufSize / blockSize + 1).toNat = _
  rw [BitVec.toNat_add, BitVec.toNat_udiv, blocks]
  exact Nat.mod_eq_of_lt (Nat.lt_of_le_of_lt (Nat.succ_le_succ hdiv) hlt)

theorem length_fqStart (cfg : Consts) (blockSize start : U32) (hlt : bufSize.toNat + 1 < 0x100000000) :
    (fqStart cfg (queueAt cfg bufSize blockSize start)).length = blocks bufSize blockSize := by
  have hdepth := toNat_fqDepth cfg blockSize start hlt
  have hone : (1 : U32).toNat = 1 := rfl
  rw [fqStart, length_installBlocks, BitVec.toNat_sub, hdepth, hone]
  have := (queueAt cfg bufSize blockSize start).fqDepth.isLt
  omega

theorem toNat_oqBufSize (hlt : bufSize.toNat + 1 < 0x100000000) :
    (queueAt cfg bufSize blockSize start).oqBufSize.toNat = 16 * outDepth cfg bufSize blockSize := by
  have hdepth := toNat_fqDepth cfg blockSize start hlt
  have hoq := cfg.oqDepth_lt
  have hone : (1 : U32).toNat = 1 := rfl
  have h16 : (16 : U32).toNat = 16 := rfl
  have hsize : (queueAt cfg bufSize blockSize start).oqBufSize =
      (if (queueAt cfg bufSize blockSize start).fqDepth < cfg.oqDepth
        then (queueAt cfg bufSize blockSize start).fqDepth - 1 else cfg.oqDepth) * 16 := rfl
  rw [hsize, BitVec.toNat_mul, h16, outDepth]
  by_cases hshort : blocks bufSize blockSize + 1 < cfg.oqDepth.toNat
  · rw [if_pos (BitVec.lt_def.mpr (hdepth.symm ▸ hshort)), if_pos hshort, BitVec.toNat_sub, hdepth, hone]
    omega
  · rw [if_neg (fun h => hshort (hdepth ▸ BitVec.lt_def.mp h)), if_neg hshort]
    omega

/-- All descriptors are in their area exactly if its size does not wrap. -/
theorem descs_iff (hlt : bufSize.toNat + 1 < 0x100000000) :
    (queueAt cfg bufSize blockSize start).fqDepth.toNat * 8 ≤ (queueAt cfg bufSize blockSize start).fqBufSize.toNat ↔
      pages (8 * (blocks bufSize blockSize + 1)) < 0x100000000 := by
  have hdepth := toNat_fqDepth cfg blockSize start hlt
  have h8 : (8 : U32).toNat = 8 := rfl
  have harea : (queueAt cfg bufSize blockSize start).fqBufSize =
      align ((queueAt cfg bufSize blockSize start).fqDepth * 8) := rfl
  have hbytes : ((queueAt cfg bufSize blockSize start).fqDepth * 8).toNat =
      8 * (blocks bufSize blockSize + 1) % 0x100000000 := by
    rw [BitVec.toNat_mul, hdepth, h8, Nat.mul_comm]
  rw [harea, hdepth, align_eq, hbytes]
  unfold pages
  omega

theorem toNat_fqBufSize (hlt : bufSize.toNat + 1 < 0x100000000)
    (hpages : pages (8 * (blocks bufSize blockSize + 1)) < 0x100000000) :
    (queueAt cfg bufSize blockSize start).fqBufSize.toNat = pages (8 * (blocks bufSize blockSize + 1)) := by
  have hdepth := toNat_fqDepth cfg blockSize start hlt
  have h8 : (8 : U32).toNat = 8 := rfl
  have hbytes : ((queueAt cfg bufSize blockSize start).fqDepth * 8).toNat = 8 * (blocks bufSize blockSize + 1) := by
    rw [BitVec.toNat_mul, hdepth, h8, Nat.mul_comm]
    exact Nat.mod_eq_of_lt (Nat.lt_of_le_of_lt (le_pages _) hpages)
  show (align ((queueAt cfg bufSize blockSize start).fqDepth * 8)).toNat = _
  rw [toNat_align (hbytes ▸ hpages), hbytes]

/-- The sum of the sizes. -/
theorem memory_iff (start : U32) (hlt : bufSize.toNat + 1 < 0x100000000)
    (hpages : pages (8 * (blocks bufSize blockSize + 1)) < 0x100000000) :
    bufSize.toNat + (queueAt cfg bufSize blockSize start).fqBufSize.toNat +
        (queueAt cfg bufSize blockSize start).oqBufSize.toNat = (queueAt cfg bufSize blockSize start).total.toNat ↔
      bufSize.toNat + pages (8 * (blocks bufSize blockSize + 1)) + 16 * outDepth cfg bufSize blockSize <
        0x100000000 := by
  have htotal : (queueAt cfg bufSize blockSize start).total = bufSize +
      (queueAt cfg bufSize blockSize start).fqBufSize + (queueAt cfg bufSize blockSize start).oqBufSize := rfl
  rw [htotal, BitVec.toNat_add, BitVec.toNat_add, toNat_oqBufSize hlt, toNat_fqBufSize hlt hpages]
  omega

/-! ## The blocks in their area -/

theorem getElem?_fqStart (cfg : Consts) (start : U32) (hlt : bufSize.toNat + 1 < 0x100000000)
    (hi : i < blocks bufSize blockSize) :
    (fqStart cfg (queueAt cfg bufSize blockSize start))[i]? =
      some ⟨start + BitVec.ofNat 32 (i * (blockSize.toNat + cfg.bufInterval.toNat)), blockSize⟩ := by
  have hlen := length_fqStart cfg blockSize start hlt
  rw [fqStart, length_installBlocks] at hlen
  rw [fqStart, getElem?_installBlocks _ _ _ (hlen.symm ▸ hi)]
  rfl

/-- Every descriptor has a number. -/
theorem exists_of_mem_fqStart (hlt : bufSize.toNat + 1 < 0x100000000)
    (hd : d ∈ fqStart cfg (queueAt cfg bufSize blockSize start)) :
    ∃ i, i < blocks bufSize blockSize ∧ (fqStart cfg (queueAt cfg bufSize blockSize start))[i]? = some d := by
  obtain ⟨i, hi⟩ := List.mem_iff_getElem?.mp hd
  refine ⟨i, ?_, hi⟩
  rw [← length_fqStart cfg _ start hlt]
  exact (List.getElem?_eq_some_iff.mp hi).1

/-- The last block ends in the buffer exactly if the gaps fit into what the blocks leave. -/
theorem last_le_iff (hpos : 0 < blocks bufSize blockSize) :
    (blocks bufSize blockSize - 1) * (blockSize.toNat + cfg.bufInterval.toNat) + blockSize.toNat ≤ bufSize.toNat ↔
      (blocks bufSize blockSize - 1) * cfg.bufInterval.toNat ≤ bufSize.toNat % blockSize.toNat := by
  have hdiv := Nat.div_add_mod bufSize.toNat blockSize.toNat
  obtain ⟨n, hn⟩ : ∃ n, blocks bufSize blockSize = n + 1 := Nat.exists_eq_add_of_le' hpos
  have hbytes : blockSize.toNat * (bufSize.toNat / blockSize.toNat) = n * blockSize.toNat + blockSize.toNat := by
    rw [show bufSize.toNat / blockSize.toNat = n + 1 from hn, Nat.mul_comm, Nat.succ_mul]
  rw [hn, Nat.add_sub_cancel, Nat.mul_add]
  omega

/-- So all blocks do. -/
theorem end_le_of_gaps (h : Fits cfg size bufSize blockSize) (hi : i < blocks bufSize blockSize) :
    i * (blockSize.toNat + cfg.bufInterval.toNat) + blockSize.toNat ≤ bufSize.toNat := by
  have hpos : 0 < blocks bufSize blockSize := Nat.lt_of_le_of_lt (Nat.zero_le i) hi
  have hle : i * (blockSize.toNat + cfg.bufInterval.toNat) ≤
      (blocks bufSize blockSize - 1) * (blockSize.toNat + cfg.bufInterval.toNat) :=
    Nat.mul_le_mul_right _ (Nat.le_sub_one_of_lt hi)
  exact Nat.le_trans (Nat.add_le_add_right hle _) ((last_le_iff hpos).mpr h.gaps)

/-- The area of the descriptors is behind the buffer, in the address space. -/
theorem area_lt (hlt : bufSize.toNat + 1 < 0x100000000) (h : Fits cfg size bufSize blockSize)
    (hend : start.toNat + (queueAt cfg bufSize blockSize start).total.toNat ≤ 0x100000000) :
    start.toNat + bufSize.toNat + pages (8 * (blocks bufSize blockSize + 1)) +
      16 * outDepth cfg bufSize blockSize ≤ 0x100000000 ∧
    (queueAt cfg bufSize blockSize start).fqAddr.toNat = start.toNat + bufSize.toNat := by
  have hpages : pages (8 * (blocks bufSize blockSize + 1)) < 0x100000000 := by
    have := h.total
    omega
  have hsum := (memory_iff start hlt hpages).mpr h.total
  rw [toNat_oqBufSize hlt, toNat_fqBufSize hlt hpages] at hsum
  have hle := le_pages (8 * (blocks bufSize blockSize + 1))
  have hfq : (queueAt cfg bufSize blockSize start).fqAddr = start + bufSize := rfl
  rw [hfq, BitVec.toNat_add]
  omega

theorem startAddr_eq (hlt : bufSize.toNat + 1 < 0x100000000) (h : Fits cfg size bufSize blockSize)
    (hend : start.toNat + (queueAt cfg bufSize blockSize start).total.toNat ≤ 0x100000000)
    (hi : i < blocks bufSize blockSize) (hd : (fqStart cfg (queueAt cfg bufSize blockSize start))[i]? = some d) :
    d.startAddr.toNat = start.toNat + i * (blockSize.toNat + cfg.bufInterval.toNat) ∧ d.buflen = blockSize := by
  have hin := end_le_of_gaps h hi
  have harea := (area_lt hlt h hend).1
  have hle := le_pages (8 * (blocks bufSize blockSize + 1))
  rw [getElem?_fqStart _ _ hlt hi] at hd
  obtain rfl := Option.some.inj hd
  refine ⟨?_, rfl⟩
  rw [BitVec.toNat_add, BitVec.toNat_ofNat]
  generalize i * (blockSize.toNat + cfg.bufInterval.toNat) = off at hin ⊢
  omega

theorem sound_of_fits (hlt : bufSize.toNat + 1 < 0x100000000) (h : Fits cfg size bufSize blockSize)
    (hend : start.toNat + (queueAt cfg bufSize blockSize start).total.toNat ≤ 0x100000000) :
    Sound cfg size (queueAt cfg bufSize blockSize start) := by
  have hpages : pages (8 * (blocks bufSize blockSize + 1)) < 0x100000000 := by
    have := h.total
    omega
  have harea := area_lt hlt h hend
  have hblock {i d} (hi : i < blocks bufSize blockSize)
      (hd : (fqStart cfg (queueAt cfg bufSize blockSize start))[i]? = some d) :=
    startAddr_eq hlt h hend hi hd
  refine ⟨le_align_iff.mpr h.rounded, (memory_iff _ hlt hpages).mpr h.total, ?_, ?_, ?_, ?_, (descs_iff hlt).mpr hpages⟩
  case refine_1 =>
    intro i d hd
    have hi : i < blocks bufSize blockSize := by
      rw [← length_fqStart cfg _ start hlt]
      exact (List.getElem?_eq_some_iff.mp hd).1
    exact hblock hi hd
  case refine_2 =>
    intro d hd
    obtain ⟨i, hi, hd⟩ := exists_of_mem_fqStart hlt hd
    obtain ⟨hstart, hlen⟩ := hblock hi hd
    have hin := end_le_of_gaps h hi
    show start.toNat ≤ _ ∧ _ ≤ start.toNat + bufSize.toNat
    rw [hstart, hlen]
    omega
  case refine_3 =>
    refine List.pairwise_iff_getElem.mpr (fun i j hi hj hij => ?_)
    rw [length_fqStart _ _ _ hlt] at hi hj
    obtain ⟨hsi, hli⟩ := hblock hi (List.getElem?_eq_getElem _)
    obtain ⟨hsj, -⟩ := hblock hj (List.getElem?_eq_getElem _)
    have hstep := Nat.mul_le_mul_right (blockSize.toNat + cfg.bufInterval.toNat) (Nat.succ_le_of_lt hij)
    rw [Nat.succ_mul] at hstep
    rw [hsi, hli, hsj]
    omega
  case refine_4 =>
    intro d hd
    obtain ⟨i, hi, hd⟩ := exists_of_mem_fqStart hlt hd
    obtain ⟨hstart, hlen⟩ := hblock hi hd
    have hin := end_le_of_gaps h hi
    -- a queue with blocks has an output queue behind
    have hout : 0 < outDepth cfg bufSize blockSize := by
      have := cfg.oqDepth_pos
      unfold outDepth
      split <;> omega
    have hoq : (queueAt cfg bufSize blockSize start).oqAddr =
        (queueAt cfg bufSize blockSize start).fqAddr + (queueAt cfg bufSize blockSize start).fqBufSize := rfl
    rw [hoq, BitVec.toNat_add, harea.2, toNat_fqBufSize hlt hpages, hstart, hlen]
    omega

theorem fits_of_sound (hlt : bufSize.toNat + 1 < 0x100000000)
    (h : Sound cfg size (queueAt cfg bufSize blockSize start)) :
    Fits cfg size bufSize blockSize := by
  have hpages := (descs_iff hlt).mp h.descs
  refine ⟨le_align_iff.mp h.rounded, (memory_iff _ hlt hpages).mp h.memory, ?_⟩
  by_cases hpos : 0 < blocks bufSize blockSize
  · have hlast := getElem?_fqStart cfg start hlt (Nat.sub_lt hpos Nat.one_pos)
    obtain ⟨hstart, hlen⟩ := h.spaced _ _ hlast
    have hin := (h.inside _ (List.mem_of_getElem? hlast)).2
    rw [hstart, hlen] at hin
    refine (last_le_iff hpos).mp ?_
    exact Nat.le_of_add_le_add_left (Nat.add_assoc start.toNat _ _ ▸ hin)
  · rw [Nat.eq_zero_of_not_pos hpos, Nat.zero_sub, Nat.zero_mul]
    exact Nat.zero_le _

end Areas

/-! ## The creators -/

theorem align_add_one_lt (size : U32) : (align size).toNat + 1 < 0x100000000 := by
  rw [align_eq]
  omega

theorem allocQueue_sound_iff (size : U32) (hlt : bufSize.toNat + 1 < 0x100000000)
    (h : allocQueue cfg mmz bufSize blockSize = some q) :
    Sound cfg size q ↔ Fits cfg size bufSize blockSize := by
  obtain ⟨start, hstart, rfl⟩ := Option.map_eq_some_iff.mp h
  exact ⟨fits_of_sound hlt, fun hfits => sound_of_fits hlt hfits (mmz.end_le _ _ hstart)⟩

theorem wholeBlocks_add_one_lt (size blockSize : U32) : (wholeBlocks size blockSize).toNat + 1 < 0x100000000 := by
  have hle : (wholeBlocks size blockSize).toNat ≤ (align size).toNat := by
    rw [wholeBlocks, BitVec.toNat_sub_of_le, BitVec.toNat_umod]
    · exact Nat.sub_le _ _
    · rw [BitVec.le_def, BitVec.toNat_umod]
      exact Nat.mod_le _ _
  exact Nat.lt_of_le_of_lt (Nat.succ_le_succ hle) (align_add_one_lt size)

/-- The queue for the start codes is there if there is an index. -/
theorem recCreateChannel_some {type : IndexType} {timeStamp : Bool} {scd : Option Queue}
    (h : recCreateChannel cfg mmz type timeStamp size = some (q, scd)) :
    allocQueue cfg mmz (wholeBlocks size (recBlockSize type timeStamp)) (recBlockSize type timeStamp) = some q ∧
    (type = .none ∧ scd = none ∨ type ≠ .none ∧ ∃ s, scd = some s ∧
      allocQueue cfg mmz (wholeBlocks (scdSizes type).1 (scdSizes type).2) (scdSizes type).2 = some s) := by
  unfold recCreateChannel at h
  split at h
  · cases h
  · obtain ⟨r, hr, h⟩ := Option.bind_eq_some_iff.mp h
    cases type with
    | none =>
      cases h
      exact ⟨hr, .inl ⟨rfl, rfl⟩⟩
    | video | audio =>
      obtain ⟨s, hs, h⟩ := Option.map_eq_some_iff.mp h
      obtain ⟨rfl, rfl⟩ := Prod.mk.inj h
      exact ⟨hr, .inr ⟨IndexType.noConfusion, s, rfl, hs⟩⟩

/-- A channel for audio or video and a recording have a sound layout exactly if the sizes add up and the gaps fit. -/
theorem create_sound_iff (cfg : Consts) (mmz : Mmz) :
    (∀ (type : AvType) (size : U32) (q : Queue), osiCreateChannel cfg mmz type size = some q →
      (Sound cfg (atLeastMin size) q ↔
        Fits cfg (atLeastMin size) (align (atLeastMin size)) (avBlockSize cfg type (align (atLeastMin size))))) ∧
    (∀ (type : IndexType) (timeStamp : Bool) (size : U32) (q : Queue) (scd : Option Queue),
      recCreateChannel cfg mmz type timeStamp size = some (q, scd) →
      (Sound cfg size q ∧ (∀ s, scd = some s → Sound cfg (scdSizes type).1 s) ↔
        Fits cfg size (wholeBlocks size (recBlockSize type timeStamp)) (recBlockSize type timeStamp) ∧
        (type ≠ .none →
          Fits cfg (scdSizes type).1 (wholeBlocks (scdSizes type).1 (scdSizes type).2) (scdSizes type).2))) := by
  constructor
  · intro type size q h
    exact allocQueue_sound_iff (atLeastMin size) (align_add_one_lt _) h
  · intro type timeStamp size q scd h
    obtain ⟨hrec, ⟨htype, rfl⟩ | ⟨htype, s, rfl, hs⟩⟩ := recCreateChannel_some h
    · have hq := allocQueue_sound_iff size (wholeBlocks_add_one_lt _ _) hrec
      exact ⟨fun hsound => ⟨hq.mp hsound.1, fun hne => absurd htype hne⟩,
        fun hfits => ⟨hq.mpr hfits.1, fun _ hnone => by cases hnone⟩⟩
    · have hq := allocQueue_sound_iff size (wholeBlocks_add_one_lt _ _) hrec
      have hscd := allocQueue_sound_iff (scdSizes type).1 (wholeBlocks_add_one_lt _ _) hs
      refine ⟨fun hsound => ⟨hq.mp hsound.1, fun _ => hscd.mp (hsound.2 s rfl)⟩,
        fun hfits => ⟨hq.mpr hfits.1, ?_⟩⟩
      rintro _ ⟨⟩
      exact hscd.mpr (hfits.2 htype)

/-- The constants of a build with gaps of this size. -/
def build (bufInterval : U32) : Consts where
  bufInterval := bufInterval
  maxAvfqDesc := 0x3ff
  maxBlockSize := 0xfffc
  oqDepth := 0x3ff
  maxAvfqDesc_pos := by decide
  maxBlockSize_pos := by decide
  oqDepth_pos := by decide
  oqDepth_lt := by decide

/-- An allocator with 256 MiB. -/
def mmz256 : Mmz where
  allocAndMap size := if size ≤ 0x10000000 then some 0x40000000 else none
  end_le := by
    intro size start h
    split at h
    next hle =>
      obtain rfl := Option.some.inj h
      have := BitVec.le_def.mp hle
      have hsize : (0x10000000 : U32).toNat = 0x10000000 := rfl
      have hstart : (0x40000000 : U32).toNat = 0x40000000 := rfl
      omega
    next => cases h

/-- Without gaps the layouts for a video buffer of 3 MiB and a recording of 1 MiB are sound. -/
theorem create_sound_of_no_gap :
    (∃ q, osiCreateChannel (build 0) mmz256 .vid 0x300000 = some q ∧ Sound (build 0) 0x300000 q) ∧
    ∃ q s, recCreateChannel (build 0) mmz256 .video true 0x100000 = some (q, some s) ∧
      Sound (build 0) 0x100000 q ∧ Sound (build 0) (56 * 1024) s := by
  refine ⟨⟨_, rfl, ((create_sound_iff (build 0) mmz256).1 .vid 0x300000 _ rfl).mpr ?_⟩, ⟨_, _, rfl, ?_⟩⟩
  · exact ⟨by decide, by decide, by decide⟩
  · have h := ((create_sound_iff (build 0) mmz256).2 .video true 0x100000 _ _ rfl).mpr
      ⟨⟨by decide, by decide, by decide⟩, fun _ => ⟨by decide, by decide, by decide⟩⟩
    exact ⟨h.1, h.2 _ rfl⟩

/-- With gaps of four bytes the last block for a video buffer of 3 MiB leaves the buffer, and the longest size wraps. -/
theorem create_not_sound :
    (∃ q, osiCreateChannel (build 4) mmz256 .vid 0x300000 = some q ∧ ¬ Sound (build 4) 0x300000 q) ∧
    (∃ q s, recCreateChannel (build 4) mmz256 .video true 0x100000 = some (q, some s) ∧
      ¬ Sound (build 4) 0x100000 q) ∧
    ∃ q, osiCreateChannel (build 0) mmz256 .vid 0xffffffff = some q ∧ ¬ Sound (build 0) 0xffffffff q := by
  refine ⟨⟨_, rfl, fun h => ?_⟩, ⟨_, _, rfl, fun h => ?_⟩, ⟨_, rfl, fun h => ?_⟩⟩
  · exact absurd (fits_of_sound (by decide) h).gaps (by decide)
  · exact absurd (fits_of_sound (by decide) h).gaps (by decide)
  · exact absurd h.rounded (by decide)

end HiSTB.Demux.FqBuf
