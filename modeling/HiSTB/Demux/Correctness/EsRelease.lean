import HiSTB.Demux.Correctness.EsRange
import HiSTB.Lib.Ring
import Mathlib.Data.BitVec
import Mathlib.Data.List.Nodup

/-!
# `EsRelease` — which blocks go back when a stream is released

* `HwInv`, `Hw.run_spec` — the queue of the hardware, and what it can make of a block;
* `Inv`, `run_inv` — the channel: what the caller has lies in blocks of the queue, or in the current one;
* `run_release_iff` — a release leaves no earlier block in the queue, and not its own one if it reaches its end,
  exactly if there was none before it, or one and its own block is not due.

A release gives back one block at most, since `continue` ends its loop: each block that is passed over stays in the
queue, and all later releases lag behind by it.
-/

namespace HiSTB.Demux.Es

open Lib

variable {s : Setup} {read : Nat} {h h' : Hw} {e : HwEvent} {a b b' : Block}

variable {bytes : List Byte} {i p j n : Nat} {l : List Block} {dataLen : U32} {eos : Bool}
    {v : View} {desc : Nat → Block}

/-! ## The hardware -/

/-- `b` is the block `a`, with more data maybe. -/
structure Grows (a b : Block) : Prop where
  num : b.num = a.num
  startAddr : b.startAddr = a.startAddr
  len_le : a.data.length ≤ b.data.length

theorem Grows.refl : Grows a a := ⟨rfl, rfl, Nat.le_refl _⟩

theorem Grows.trans {c : Block} (hab : Grows a b) (hbc : Grows b c) : Grows a c :=
  ⟨hbc.num.trans hab.num, hbc.startAddr.trans hab.startAddr, Nat.le_trans hab.len_le hbc.len_le⟩

theorem grows_append : Grows b (b.append bytes) := by
  unfold Block.append
  split
  · exact ⟨rfl, rfl, by rw [List.length_append]; omega⟩
  · exact Grows.refl

theorem length_append_le : (b.append bytes).data.length ≤ b.data.length + bytes.length := by
  unfold Block.append
  split
  · exact Nat.le_of_eq List.length_append
  · exact Nat.le_add_right _ _

/-- The queue: no more blocks than it has room for, the descriptors of its blocks in their slots, and the blocks in use
    at different places of the pool. -/
structure HwInv (s : Setup) (read : Nat) (h : Hw) : Prop where
  read_le : read ≤ h.closed.length
  room : h.closed.length < read + s.oqDepth
  num : ∀ (i : Nat) (b : Block), h.blocks[i]? = some b → b.num = i
  desc : ∀ (i : Nat) (b : Block), h.closed[i]? = some b → h.closed.length ≤ i + s.oqDepth → h.desc (i % s.oqDepth) = b
  written : ∀ i : Nat, i < h.closed.length → h.desc (i % s.oqDepth) ∈ h.closed
  pool : ∀ b ∈ h.blocks, b.startAddr ∈ s.pool ∧ b.data.length ≤ s.blockSize
  data : ∀ b ∈ h.closed, b.data ≠ []
  nodup : ((h.blocks.drop read).map Block.startAddr).Nodup

/-- What the hardware can make of the blocks: they stay, and those of the queue do not change. -/
structure Later (h h' : Hw) : Prop where
  closed : h.closed <+: h'.closed
  grows : ∀ (i : Nat) (b : Block), h.blocks[i]? = some b → ∃ b', h'.blocks[i]? = some b' ∧ Grows b b'

theorem Later.refl : Later h h := ⟨List.prefix_refl _, fun _ b hb => ⟨b, hb, Grows.refl⟩⟩

theorem Later.trans {h'' : Hw} (h₁ : Later h h') (h₂ : Later h' h'') : Later h h'' := by
  refine ⟨h₁.closed.trans h₂.closed, fun i b hb => ?_⟩
  obtain ⟨b', hb', hgrows⟩ := h₁.grows i b hb
  obtain ⟨b'', hb'', hgrows'⟩ := h₂.grows i b' hb'
  exact ⟨b'', hb'', hgrows.trans hgrows'⟩

theorem blocks_of_none (hcur : h.cur = none) : h.blocks = h.closed := by
  unfold Hw.blocks
  rw [hcur]
  exact List.append_nil _

theorem blocks_of_some (hcur : h.cur = some b) : h.blocks = h.closed ++ [b] := by
  unfold Hw.blocks
  rw [hcur]
  rfl

theorem closed_blocks (hb : h.closed[i]? = some b) : h.blocks[i]? = some b := by
  obtain ⟨hi, rfl⟩ := List.getElem?_eq_some_iff.mp hb
  exact (List.getElem?_append_left hi).trans hb

theorem closed_subset_blocks (hb : b ∈ h.closed) : b ∈ h.blocks := List.mem_append_left _ hb

/-- A new element is at the end. -/
theorem getElem?_concat_cases {x : Block} (hb : (l ++ [x])[i]? = some b) :
    l[i]? = some b ∨ i = l.length ∧ b = x := by
  rcases Nat.lt_trichotomy i l.length with hlt | rfl | hgt
  · exact .inl ((List.getElem?_append_left hlt).symm.trans hb)
  · rw [List.getElem?_concat_length] at hb
    exact .inr ⟨rfl, (Option.some.inj hb).symm⟩
  · rw [List.getElem?_eq_none (by rw [List.length_append]; exact hgt)] at hb
    cases hb

theorem HwInv.take {x : U32} {sop : Bool} {behind : Nat → Byte} (hinv : HwInv s read h)
    (hcan : h.can s read (.take x sop behind)) : HwInv s read (h.next s (.take x sop behind)) := by
  obtain ⟨hnone, hpool, hfresh⟩ := hcan
  have hcur : h.cur = none := Option.isNone_iff_eq_none.mp hnone
  have hblocks : (h.next s (.take x sop behind)).blocks = h.closed ++ [.empty h.closed.length x sop behind] := rfl
  have hold := blocks_of_none hcur
  refine ⟨hinv.read_le, hinv.room, fun i b hb => ?_, hinv.desc, hinv.written, fun b hb => ?_, hinv.data, ?_⟩
  · rw [hblocks] at hb
    rcases getElem?_concat_cases hb with hb | ⟨rfl, rfl⟩
    · exact hinv.num i b (closed_blocks hb)
    · rfl
  · rw [hblocks] at hb
    rcases List.mem_append.mp hb with hb | hb
    · exact hinv.pool b (closed_subset_blocks hb)
    · obtain rfl := List.mem_singleton.mp hb
      exact ⟨hpool, Nat.zero_le _⟩
  · have hnodup := hinv.nodup
    rw [hold] at hnodup hfresh
    rw [hblocks, List.drop_append_of_le_length hinv.read_le, List.map_append, List.nodup_append]
    refine ⟨hnodup, List.nodup_singleton _, fun y hy z hz => ?_⟩
    obtain rfl := List.mem_singleton.mp hz
    exact fun heq => hfresh (heq ▸ hy)

theorem append_startAddr : (b.append bytes).startAddr = b.startAddr := grows_append.startAddr

theorem HwInv.append (hinv : HwInv s read h) (hcan : h.can s read (.append bytes)) :
    HwInv s read (h.next s (.append bytes)) := by
  obtain ⟨closed, cur, desc, ramRead, ramWrite⟩ := h
  cases cur with
  | none => exact hinv
  | some c =>
    have hlen : c.data.length + bytes.length ≤ s.blockSize := hcan c rfl
    refine ⟨hinv.read_le, hinv.room, fun i b hb => ?_, hinv.desc, hinv.written, fun b hb => ?_, hinv.data, ?_⟩
    · rcases getElem?_concat_cases hb with hb | ⟨rfl, rfl⟩
      · exact hinv.num i b (closed_blocks hb)
      · rw [grows_append.num]
        exact hinv.num _ c List.getElem?_concat_length
    · rcases List.mem_append.mp hb with hb | hb
      · exact hinv.pool b (closed_subset_blocks hb)
      · obtain rfl := List.mem_singleton.mp hb
        obtain ⟨hpool, -⟩ := hinv.pool c (List.mem_append_right _ (List.mem_singleton_self c))
        refine ⟨?_, Nat.le_trans length_append_le hlen⟩
        rwa [append_startAddr]
    · have hnodup : (((closed ++ [c]).drop read).map Block.startAddr).Nodup := hinv.nodup
      show (((closed ++ [c.append bytes]).drop read).map Block.startAddr).Nodup
      rw [List.drop_append_of_le_length hinv.read_le, List.map_append] at hnodup ⊢
      rwa [List.map_singleton, append_startAddr, ← List.map_singleton]

theorem HwInv.close (hinv : HwInv s read h) (hcan : h.can s read .close) : HwInv s read (h.next s .close) := by
  obtain ⟨closed, cur, desc, ramRead, ramWrite⟩ := h
  cases cur with
  | none => exact hinv
  | some c =>
    obtain ⟨hdata, hroom⟩ := hcan
    have hblocks : (Hw.next s ⟨closed, some c, desc, ramRead, ramWrite⟩ .close).blocks = closed ++ [c] :=
      List.append_nil _
    have hclosed : (Hw.next s ⟨closed, some c, desc, ramRead, ramWrite⟩ .close).closed = closed ++ [c] := rfl
    have hlength : (closed ++ [c]).length = closed.length + 1 := List.length_append
    refine ⟨?_, ?_, fun i b hb => ?_, fun i b hb hlast => ?_, fun i hi => ?_, fun b hb => ?_, fun b hb => ?_, ?_⟩
    · rw [hclosed, hlength]
      exact Nat.le_succ_of_le hinv.read_le
    · rw [hclosed, hlength]
      exact hroom
    · rw [hblocks] at hb
      exact hinv.num i b hb
    · rw [hclosed] at hb hlast
      rw [hlength] at hlast
      rcases getElem?_concat_cases hb with hb | ⟨rfl, rfl⟩
      · have hi : i < closed.length := (List.getElem?_eq_some_iff.mp hb).1
        exact (if_neg (cell_ne hi (by omega))).trans (hinv.desc i b hb (Nat.le_of_succ_le hlast))
      · exact if_pos rfl
    · rw [hclosed, hlength] at hi
      show (if i % s.oqDepth = closed.length % s.oqDepth then c else desc (i % s.oqDepth)) ∈ closed ++ [c]
      by_cases hslot : i % s.oqDepth = closed.length % s.oqDepth
      · rw [if_pos hslot]
        exact List.mem_append_right _ (List.mem_singleton_self c)
      · have hlt : i < closed.length :=
          Nat.lt_of_le_of_ne (Nat.le_of_lt_succ hi) (fun heq => hslot (congrArg (· % s.oqDepth) heq))
        rw [if_neg hslot]
        exact List.mem_append_left _ (hinv.written i hlt)
    · rw [hblocks] at hb
      exact hinv.pool b hb
    · rcases List.mem_append.mp hb with hb | hb
      · exact hinv.data b hb
      · obtain rfl := List.mem_singleton.mp hb
        exact hdata _ rfl
    · rw [hblocks]
      exact hinv.nodup

theorem HwInv.next (hinv : HwInv s read h) (hcan : h.can s read e) : HwInv s read (h.next s e) := by
  cases e with
  | take => exact hinv.take hcan
  | append => exact hinv.append hcan
  | close => exact hinv.close hcan
  | ram => exact ⟨hinv.1, hinv.2, hinv.3, hinv.4, hinv.5, hinv.6, hinv.7, hinv.8⟩

theorem later_next (hcan : h.can s read e) : Later h (h.next s e) := by
  obtain ⟨closed, cur, desc, ramRead, ramWrite⟩ := h
  cases e with
  | take x sop behind =>
    obtain rfl : cur = none := Option.isNone_iff_eq_none.mp hcan.1
    refine ⟨List.prefix_refl _, fun i b hb => ⟨b, ?_, Grows.refl⟩⟩
    have hold : (Hw.mk closed none desc ramRead ramWrite).blocks = closed := List.append_nil _
    rw [hold] at hb
    exact closed_blocks hb
  | append bytes =>
    cases cur with
    | none => exact Later.refl
    | some c =>
      refine ⟨List.prefix_refl _, fun i b hb => ?_⟩
      rcases getElem?_concat_cases hb with hb | ⟨rfl, rfl⟩
      · exact ⟨b, closed_blocks hb, Grows.refl⟩
      · exact ⟨_, List.getElem?_concat_length, grows_append⟩
  | close =>
    cases cur with
    | none => exact Later.refl
    | some c =>
      refine ⟨List.prefix_append _ _, fun i b hb => ⟨b, ?_, Grows.refl⟩⟩
      exact (congrArg (·[i]?) (List.append_nil (closed ++ [c]))).trans hb
  | ram => exact ⟨List.prefix_refl _, fun i b hb => ⟨b, hb, Grows.refl⟩⟩

/-- **What the hardware does** keeps its invariant and the blocks. -/
theorem Hw.run_spec (hinv : HwInv s read h) (es : List HwEvent) :
    HwInv s read (h.run s read es) ∧ Later h (h.run s read es) := by
  induction es generalizing h with
  | nil => exact ⟨hinv, Later.refl⟩
  | cons e es ih =>
    by_cases hcan : h.can s read e
    · have hrun : h.run s read (e :: es) = (h.next s e).run s read es :=
        congrArg (Hw.run s read · es) (if_pos hcan)
      obtain ⟨hinv', hlater⟩ := ih (hinv.next hcan)
      rw [hrun]
      exact ⟨hinv', (later_next hcan).trans hlater⟩
    · have hrun : h.run s read (e :: es) = h.run s read es := congrArg (Hw.run s read · es) (if_neg hcan)
      rw [hrun]
      exact ih hinv

/-! ## What is delivered -/

variable {cfg : Config} {c : Chan} {es : Stream} {offset : U32}

theorem trim_eq_zero (htrim : (c.trim dataLen).2 = 0) : dataLen = 0 := by
  unfold Chan.trim at htrim
  split at htrim
  · rename_i haud
    split at htrim
    · exact absurd htrim haud.2
    · exact htrim
  · exact htrim

/-- The channel fields that the rest of a request leaves alone. -/
theorem stripHeader_procsBlk : (c.stripHeader cfg b offset).chan.procsBlk = c.procsBlk := by
  unfold Chan.stripHeader
  dsimp only
  split
  · rfl
  · rfl
  · split <;> rfl

theorem deliver_procsBlk :
    (c.deliver cfg b offset dataLen eos).chan.procsBlk = c.procsBlk := by
  have hhead : (c.head cfg b offset dataLen).chan.procsBlk = c.procsBlk := by
    unfold Chan.head
    split
    · exact stripHeader_procsBlk
    · rfl
  have hmove (c : Chan) (off : U32) : (c.moveOn eos off).procsBlk = c.procsBlk := by
    unfold Chan.moveOn
    split <;> rfl
  have htrim (c : Chan) (len : U32) : (c.trim len).1.procsBlk = c.procsBlk := by
    unfold Chan.trim
    split
    · split <;> rfl
    · rfl
  exact (htrim _ _).trans ((hmove _ _).trans hhead)

/-- An empty stream: the header takes all that is left. -/
theorem deliver_empty (hret : (c.deliver cfg b offset (b.dataLen - offset) eos).ret = .success es b)
    (hempty : es.bufLen = 0) : (c.head cfg b offset (b.dataLen - offset)).len = b.dataLen - offset ∧
      es.bufPhyAddr = b.startAddr + b.dataLen := by
  have hes := (Ret.success.inj hret).1
  generalize c.head cfg b offset (b.dataLen - offset) = head at hes
  have hlen : b.dataLen - offset - head.len = 0 := by
    rw [← hes] at hempty
    exact trim_eq_zero hempty
  have hall : b.dataLen - offset = head.len := sub_eq_zero.mp hlen
  refine ⟨hall.symm, ?_⟩
  rw [← hes]
  show b.startAddr + offset + head.len = b.startAddr + b.dataLen
  rw [← hall, BitVec.add_assoc, BitVec.add_comm offset, BitVec.sub_add_cancel]

/-- At the end of the stream this is a packet with display control only. -/
theorem current_empty (hret : (c.deliver cfg b offset (b.dataLen - offset) eos).ret = .success es b)
    (hlen : b.dataLen ≠ offset)
    (hheader : b.sop = true ∧ offset = 0 → (headerIncomplete (b.dataLen - offset)).result b.mem = false)
    (hempty : es.bufLen = 0) : b.data.length = controlLength.toNat := by
  obtain ⟨hall, -⟩ := deliver_empty hret hempty
  have hne : b.dataLen - offset ≠ 0 := fun h => hlen (sub_eq_zero.mp h)
  unfold Chan.head at hall
  by_cases hsop : b.sop = true ∧ offset = 0
  · rw [if_pos hsop] at hall
    have hheader := hheader hsop
    obtain ⟨-, rfl⟩ := hsop
    have hsub : b.dataLen - (0 : U32) = b.dataLen := BitVec.sub_zero _
    rw [hsub] at hall hheader hne
    unfold Chan.stripHeader at hall
    dsimp only at hall
    rw [result_parsePesHeader] at hall
    by_cases hhead : HasStart b.mem ∧ b.mem 3 ∉ headless
    · rw [if_pos hhead] at hall
      by_cases hcontrol : Controls b.mem b.dataLen.toNat
      · rw [if_pos hcontrol] at hall
        dsimp only at hall
        split at hall
        · rw [← b.dataLen_toNat, ← hall]
        · exact absurd hall.symm hne
      · rw [if_neg hcontrol] at hall
        unfold headerIncomplete at hheader
        split at hheader
        · exact Bool.noConfusion hheader
        · simp only [byte, Reading.result_bind, Reading.result_get, Reading.result_pure] at hheader
          exact absurd (BitVec.le_of_eq hall.symm) (of_decide_eq_false hheader)
    · rw [if_neg hhead] at hall
      exact absurd hall.symm hne
  · rw [if_neg hsop] at hall
    exact absurd hall.symm hne

/-! ## The channel -/

variable {x x' : Sys} {y : Held} {evs : List Event}

/-- A stream that the caller has: its block is there, and if it is empty it is at the end of data that are complete or
    leave room in the block. -/
structure HeldIn (s : Setup) (h : Hw) (y : Held) : Prop where
  grows : ∃ b, h.blocks[y.block.num]? = some b ∧ Grows y.block b
  empty : y.es.bufLen = 0 → y.es.bufPhyAddr = y.block.startAddr + y.block.dataLen ∧ y.block.data ≠ [] ∧
    (y.block ∈ h.closed ∨ y.block.data.length < s.blockSize)

theorem HeldIn.later (hy : HeldIn s h y) (hlater : Later h h') : HeldIn s h' y := by
  obtain ⟨⟨b, hb, hgrows⟩, hempty⟩ := hy
  obtain ⟨b', hb', hgrows'⟩ := hlater.grows _ b hb
  refine ⟨⟨b', hb', hgrows.trans hgrows'⟩, fun hzero => ?_⟩
  obtain ⟨haddr, hdata, hwhere⟩ := hempty hzero
  exact ⟨haddr, hdata, hwhere.imp_left (hlater.closed.subset ·)⟩

structure Inv (s : Setup) (x : Sys) : Prop where
  hw : HwInv s x.read x.hw
  freed : x.freed = x.hw.closed.take x.read
  procs : ∃ p ≤ x.hw.closed.length, x.chan.procsBlk = p % s.oqDepth
  held : ∀ y ∈ x.held, HeldIn s x.hw y

theorem dmxInc_mod {d : Nat} (hd : 0 < d) : dmxInc d (p % d) = (p + 1) % d := by
  have hlt := Nat.mod_lt p hd
  unfold dmxInc
  rw [← Nat.mod_add_mod]
  split
  · rename_i hinc
    exact (Nat.mod_eq_of_lt hinc).symm
  · rename_i hinc
    have hend : p % d + 1 = d := by omega
    rw [hend, Nat.mod_self]

theorem Hw.run_append (es fs : List HwEvent) : h.run s read (es ++ fs) = (h.run s read es).run s read fs :=
  List.foldl_append

/-- What the hardware has done by a reading of a call, and what it does until a later one and the end of the call. -/
theorem readAt_spec (hinv : HwInv s read h) (between : List (List HwEvent)) (hij : i ≤ j) :
    HwInv s read (h.readAt s read between i) ∧ Later h (h.readAt s read between i) ∧
      Later (h.readAt s read between i) (h.readAt s read between j) ∧
      Later (h.readAt s read between i) (h.run s read between.flatten) := by
  have hspec := Hw.run_spec hinv (between.take (i + 1)).flatten
  refine ⟨hspec.1, hspec.2, ?_, ?_⟩
  · have htake : between.take (i + 1) = (between.take (j + 1)).take (i + 1) := by
      rw [List.take_take, Nat.min_eq_left (by omega)]
    have heq : h.readAt s read between j =
        (h.readAt s read between i).run s read ((between.take (j + 1)).drop (i + 1)).flatten := by
      unfold Hw.readAt
      rw [← Hw.run_append, ← List.flatten_append, htake, List.take_append_drop]
    rw [heq]
    exact (Hw.run_spec hspec.1 _).2
  · have heq : h.run s read between.flatten =
        (h.readAt s read between i).run s read (between.drop (i + 1)).flatten := by
      unfold Hw.readAt
      rw [← Hw.run_append, ← List.flatten_append, List.take_append_drop]
    rw [heq]
    exact (Hw.run_spec hspec.1 _).2

theorem HwInv.getElem?_num (hinv : HwInv s read h) (hb : b ∈ h.blocks) : h.blocks[b.num]? = some b := by
  obtain ⟨i, hi⟩ := List.mem_iff_getElem?.mp hb
  rwa [hinv.num i b hi]

theorem getBbsAddrSize_some {w : Nat} (hcur : getBbsAddrSize v w = some b) :
    v.cur = some b ∧ b.data ≠ [] := by
  unfold getBbsAddrSize at hcur
  split at hcur
  · obtain ⟨hsome, hvalid⟩ := Option.filter_eq_some_iff.mp hcur
    rw [Bool.and_eq_true, decide_eq_true_iff, decide_eq_true_iff] at hvalid
    exact ⟨hsome, hvalid.2⟩
  · cases hcur

/-- What a request does to a channel that has got as far as block `p`. -/
structure Asked (s : Setup) (h : Hw) (a : Answer) : Prop where
  procs : ∃ p ≤ h.closed.length, a.chan.procsBlk = p % s.oqDepth
  held : ∀ es b, a.ret = .success es b → HeldIn s h ⟨es, b⟩

/-- **A request** goes on in the queue, and hands out data of a block of the queue, or of the current one. -/
theorem readEsRequest_asked (hinv : HwInv s read h) (hp : p ≤ h.closed.length)
    (hprocs : c.procsBlk = p % s.oqDepth) (between : List (List HwEvent)) :
    Asked s (h.run s read between.flatten)
      (readEsRequest s.toConfig (fun i => (h.readAt s read between i).view s) c) := by
  obtain ⟨-, hlater0, h03, -⟩ := readAt_spec hinv between (Nat.zero_le 3)
  obtain ⟨hinv1, -, -, hend1⟩ := readAt_spec hinv between (Nat.le_refl 1)
  obtain ⟨-, -, h34, -⟩ := readAt_spec hinv between (Nat.le_succ 3)
  obtain ⟨hinv4, -, -, hend4⟩ := readAt_spec hinv between (Nat.le_refl 4)
  have hstays : ∃ p ≤ (h.run s read between.flatten).closed.length, c.procsBlk = p % s.oqDepth :=
    ⟨p, Nat.le_trans hp (hlater0.trans (h03.trans (h34.trans hend4))).closed.length_le, hprocs⟩
  -- a request that looks into the queue finds a block behind `p`
  have hahead (hnext : c.procsBlk ≠ (h.readAt s read between 0).closed.length % s.oqDepth ∨
      c.procsBlk ≠ (h.readAt s read between 3).closed.length % s.oqDepth) :
      p < (h.readAt s read between 4).closed.length := by
    have hle0 := hlater0.closed.length_le
    have hle3 := h03.closed.length_le
    have hle4 : _ ≤ (h.readAt s read between 4).closed.length := h34.closed.length_le
    refine Nat.lt_of_not_le (fun hle => ?_)
    rcases hnext with hne | hne
    · have heq : p = (h.readAt s read between 0).closed.length := by omega
      exact hne (heq ▸ hprocs)
    · have heq : p = (h.readAt s read between 3).closed.length := by omega
      exact hne (heq ▸ hprocs)
  have hmoves (hlt : p < (h.readAt s read between 4).closed.length) :
      ∃ q ≤ (h.run s read between.flatten).closed.length, dmxInc s.oqDepth c.procsBlk = q % s.oqDepth :=
    ⟨p + 1, Nat.le_trans hlt hend4.closed.length_le, hprocs ▸ dmxInc_mod s.depth_pos⟩
  have hout : Outcome s.toConfig (fun i => (h.readAt s read between i).view s) c
    (readEsRequest s.toConfig (fun i => (h.readAt s read between i).view s) c) := readEsRequest_outcome
  generalize readEsRequest s.toConfig (fun i => (h.readAt s read between i).view s) c = a at hout
  cases hout with
  | fails hret => exact ⟨hstays, fun es b hsome => absurd hsome (hret es b)⟩
  | passes hlen hnext => exact ⟨hmoves (hahead hnext), fun es b hsome => Ret.noConfusion hsome⟩
  | next hb hlen hnext =>
    have hlt := hahead hnext
    obtain ⟨q, hq, hinc⟩ := hmoves hlt
    refine ⟨⟨q, hq, deliver_procsBlk.trans hinc⟩, fun es b hsome => ?_⟩
    obtain rfl := (Ret.success.inj hsome).2
    have hmem : (h.readAt s read between 4).desc c.procsBlk ∈ (h.readAt s read between 4).closed := by
      rw [hprocs]
      exact hinv4.written p hlt
    rw [← (show _ = (h.readAt s read between 4).desc c.procsBlk from hb)] at hmem
    have hheld : HeldIn s (h.readAt s read between 4) ⟨es, _⟩ :=
      ⟨⟨_, hinv4.getElem?_num (closed_subset_blocks hmem), Grows.refl⟩, fun hzero =>
        ⟨(deliver_empty hsome hzero).2, hinv4.data _ hmem, .inl hmem⟩⟩
    exact hheld.later hend4
  | current hcur hlen hheader hfirst hagain =>
    obtain ⟨q, hq, hsame⟩ := hstays
    refine ⟨⟨q, hq, deliver_procsBlk.trans hsame⟩, fun es b hsome => ?_⟩
    obtain rfl := (Ret.success.inj hsome).2
    obtain ⟨hcur, hdata⟩ := getBbsAddrSize_some hcur
    have hmem : _ ∈ (h.readAt s read between 1).blocks :=
      blocks_of_some hcur ▸ List.mem_append_right _ (List.mem_singleton_self _)
    have hheld : HeldIn s (h.readAt s read between 1) ⟨es, _⟩ :=
      ⟨⟨_, hinv1.getElem?_num hmem, Grows.refl⟩, fun hzero =>
        ⟨(deliver_empty hsome hzero).2, hdata, .inr (current_empty hsome hlen hheader hzero ▸ s.control_lt)⟩⟩
    exact hheld.later hend1

/-! ## A release -/

/-- The data are not those of the block. -/
def Other (es : Stream) (b : Block) : Prop :=
  es.bufPhyAddr < b.startAddr ∨ b.startAddr + b.dataLen < es.bufPhyAddr + es.bufLen

/-- They end before it does. -/
def Short (es : Stream) (b : Block) : Prop := es.bufPhyAddr + es.bufLen - b.startAddr < b.dataLen

/-- **What a release does** if it succeeds: nothing where the queue is empty; else the first block goes back if the data
    are of another one, or reach its end. -/
theorem releaseReadEs_cases {r : Nat} {pop : Bool} (hrel : releaseReadEs cfg c r v es = (.success, pop)) :
    r = v.oqWrite ∧ pop = false ∨ r ≠ v.oqWrite ∧ (pop = true ↔ Other es (v.oqDesc r) ∨ ¬ Short es (v.oqDesc r)) := by
  unfold releaseReadEs at hrel
  split at hrel
  · cases hrel
  · split at hrel
    · cases hrel
    · split at hrel
      · cases hrel
      · split at hrel
        · rename_i heq
          exact .inl ⟨heq, (Prod.mk.inj hrel).2.symm⟩
        · rename_i hne
          refine .inr ⟨hne, ?_⟩
          dsimp only at hrel
          split at hrel
          · rename_i hother
            exact iff_of_true (Prod.mk.inj hrel).2.symm (.inl hother)
          · rename_i hother
            split at hrel
            · rename_i hshort
              exact iff_of_false (fun h => Bool.noConfusion ((Prod.mk.inj hrel).2.trans h))
                (fun h => h.elim hother (fun h => h hshort))
            · rename_i hshort
              exact iff_of_true (Prod.mk.inj hrel).2.symm (.inr hshort)

/-- The end of data that lie in a block. -/
theorem inside_end (hinside : es.Inside a) :
    (es.bufPhyAddr + es.bufLen).toNat = es.bufPhyAddr.toNat + es.bufLen.toNat := by
  have hplaced := a.placed
  have hend := hinside.2
  rw [BitVec.toNat_add]
  omega

theorem block_end : (b.startAddr + b.dataLen).toNat = b.startAddr.toNat + b.data.length := by
  have hplaced := b.placed
  rw [BitVec.toNat_add, b.dataLen_toNat]
  omega

/-- They are short if they do not reach the end. -/
theorem short_iff (hinside : es.Inside a) (hgrows : Grows a b) :
    Short es b ↔ es.bufPhyAddr.toNat + es.bufLen.toNat < b.startAddr.toNat + b.data.length := by
  obtain ⟨hbase, hend⟩ := hinside
  have hstart : b.startAddr.toNat ≤ es.bufPhyAddr.toNat := hgrows.startAddr ▸ hbase
  have hsum := inside_end ⟨hbase, hend⟩
  have hlt := (es.bufPhyAddr + es.bufLen).isLt
  unfold Short
  rw [BitVec.lt_def, b.dataLen_toNat, BitVec.toNat_sub_of_le (BitVec.le_def.mpr (by omega)), hsum]
  omega

/-- Data of a block are taken for those of another one where the two are apart, also if they are empty. -/
theorem other_of_apart (hinside : es.Inside a) (hle : a.data.length ≤ n) (hble : b.data.length ≤ n)
    (hempty : es.bufLen = 0 → es.bufPhyAddr = a.startAddr + a.dataLen ∧ a.data ≠ [] ∧ a.data.length < n)
    (hapart : a.startAddr.toNat + n ≤ b.startAddr.toNat ∨ b.startAddr.toNat + n ≤ a.startAddr.toNat) :
    Other es b := by
  obtain ⟨hbase, hend⟩ := hinside
  unfold Other
  rw [BitVec.lt_def, BitVec.lt_def, inside_end ⟨hbase, hend⟩, block_end]
  by_cases hzero : es.bufLen = 0
  · obtain ⟨haddr, hdata, hlt⟩ := hempty hzero
    have hpos : 0 < a.data.length := List.length_pos_iff.mpr hdata
    rw [haddr, block_end, hzero]
    have hz : (0 : U32).toNat = 0 := rfl
    omega
  · have hpos : 0 < es.bufLen.toNat := Nat.pos_of_ne_zero (fun h => hzero (BitVec.eq_of_toNat_eq h))
    omega

/-! ## Runs -/

theorem take_eq_of_le_length {l' : List Block} (hl : l <+: l') (hn : n ≤ l.length) : l'.take n = l.take n := by
  obtain ⟨r, rfl⟩ := hl
  exact List.take_append_of_le_length hn

theorem Inv.later {hw : Hw} (hinv : Inv s x) (hlater : Later x.hw hw) :
    x.freed = hw.closed.take x.read ∧ ∀ y ∈ x.held, HeldIn s hw y := by
  refine ⟨?_, fun y hy => (hinv.held y hy).later hlater⟩
  rw [take_eq_of_le_length hlater.closed hinv.hw.read_le]
  exact hinv.freed

/-- The queue has a block where the pointers differ. -/
theorem HwInv.head (hinv : HwInv s read h) (hne : read % s.oqDepth ≠ h.closed.length % s.oqDepth) :
    h.closed[read]? = some (h.desc (read % s.oqDepth)) := by
  have hlt : read < h.closed.length :=
    Nat.lt_of_le_of_ne hinv.read_le (fun heq => hne (congrArg (· % s.oqDepth) heq))
  obtain ⟨b, hb⟩ : ∃ b, h.closed[read]? = some b := ⟨_, List.getElem?_eq_getElem hlt⟩
  rw [hinv.desc read b hb (Nat.le_of_lt hinv.room)]
  exact hb

theorem HwInv.pop (hinv : HwInv s read h) (hlt : read < h.closed.length) : HwInv s (read + 1) h := by
  refine ⟨hlt, by have := hinv.room; omega, hinv.num, hinv.desc, hinv.written, hinv.pool, hinv.data, ?_⟩
  refine hinv.nodup.sublist (List.Sublist.map _ ?_)
  rw [← List.drop_drop]
  exact List.drop_sublist _ _

/-- What a successful release comes to. -/
structure Release (s : Setup) (x x' : Sys) (y : Held) : Prop where
  hw : x'.hw = x.hw
  chan : x'.chan = x.chan
  held : x.held = y :: x'.held
  freed : x.read % s.oqDepth = x.hw.closed.length % s.oqDepth ∧ x'.read = x.read ∧ x'.freed = x.freed ∨
    x.read % s.oqDepth ≠ x.hw.closed.length % s.oqDepth ∧
      (let b := x.hw.desc (x.read % s.oqDepth)
       (Other y.es b ∨ ¬ Short y.es b) ∧ x'.read = x.read + 1 ∧ x'.freed = x.freed ++ [b] ∨
        ¬ (Other y.es b ∨ ¬ Short y.es b) ∧ x'.read = x.read ∧ x'.freed = x.freed)

/-- A release that fails leaves everything as it is. -/
theorem step_release (hstep : step s x .release = some (x', evs)) :
    x' = x ∧ evs = [] ∨ ∃ y, evs = [.released y] ∧ Release s x x' y := by
  unfold step at hstep
  dsimp only at hstep
  split at hstep
  · cases hstep
  · rename_i y rest hheld
    split at hstep
    · rename_i hrel
      cases hstep
      refine .inr ⟨y, rfl, rfl, rfl, hheld, ?_⟩
      rcases releaseReadEs_cases hrel with ⟨-, hfalse⟩ | ⟨hne, hpop⟩
      · cases hfalse
      · exact .inr ⟨hne, .inl ⟨hpop.mp rfl, rfl, rfl⟩⟩
    · rename_i hrel
      cases hstep
      refine .inr ⟨y, rfl, rfl, rfl, hheld, ?_⟩
      rcases releaseReadEs_cases hrel with ⟨heq, -⟩ | ⟨hne, hpop⟩
      · exact .inl ⟨heq, rfl, rfl⟩
      · exact .inr ⟨hne, .inr ⟨fun h => Bool.noConfusion (hpop.mpr h), rfl, rfl⟩⟩
    · cases hstep
      exact .inl ⟨rfl, rfl⟩

theorem Inv.release (hinv : Inv s x) (hrel : Release s x x' y) : Inv s x' := by
  obtain ⟨hw, chan, held, hfreed⟩ := hrel
  have hheld : ∀ z ∈ x'.held, HeldIn s x'.hw z := by
    intro z hz
    rw [hw]
    exact hinv.held z (held ▸ List.mem_cons_of_mem _ hz)
  have hprocs : ∃ p ≤ x'.hw.closed.length, x'.chan.procsBlk = p % s.oqDepth := by
    rw [hw, chan]
    exact hinv.procs
  have hsame (hread : x'.read = x.read) (hfreed : x'.freed = x.freed) : Inv s x' := by
    refine ⟨?_, ?_, hprocs, hheld⟩
    · rw [hw, hread]
      exact hinv.hw
    · rw [hw, hread, hfreed]
      exact hinv.freed
  rcases hfreed with ⟨-, hread, hfreed⟩ | ⟨hne, ⟨-, hread, hfreed⟩ | ⟨-, hread, hfreed⟩⟩
  · exact hsame hread hfreed
  · have hhead := hinv.hw.head hne
    obtain ⟨hlt, -⟩ := List.getElem?_eq_some_iff.mp hhead
    refine ⟨?_, ?_, hprocs, hheld⟩
    · rw [hw, hread]
      exact hinv.hw.pop hlt
    · rw [hw, hread, hfreed, List.take_add_one, hhead, hinv.freed]
      rfl
  · exact hsame hread hfreed

theorem step_inv {i : Input} (hinv : Inv s x) (hstep : step s x i = some (x', evs)) : Inv s x' := by
  cases i with
  | hw e =>
    cases hstep
    obtain ⟨hhw, hlater⟩ := Hw.run_spec hinv.hw [e]
    obtain ⟨hfreed, hheld⟩ := hinv.later hlater
    obtain ⟨p, hp, hprocs⟩ := hinv.procs
    exact ⟨hhw, hfreed, ⟨p, Nat.le_trans hp hlater.closed.length_le, hprocs⟩, hheld⟩
  | setEos =>
    cases hstep
    exact ⟨hinv.hw, hinv.freed, hinv.procs, hinv.held⟩
  | request between =>
    obtain ⟨p, hp, hprocs⟩ := hinv.procs
    obtain ⟨hhw, hlater⟩ := Hw.run_spec hinv.hw between.flatten
    obtain ⟨hfreed, hheld⟩ := hinv.later hlater
    have hasked := readEsRequest_asked hinv.hw hp hprocs between
    have hinv' : Inv s { x with
        hw := x.hw.run s x.read between.flatten,
        chan := (readEsRequest s.toConfig (fun i => (x.hw.readAt s x.read between i).view s) x.chan).chan } :=
      ⟨hhw, hfreed, hasked.procs, hheld⟩
    unfold step at hstep
    dsimp only at hstep
    split at hstep
    · rename_i es b hret
      cases hstep
      refine ⟨hhw, hfreed, hasked.procs, fun y hy => ?_⟩
      rcases List.mem_append.mp hy with hy | hy
      · exact hheld y hy
      · obtain rfl := List.mem_singleton.mp hy
        exact hasked.held es b hret
    · cases hstep
      exact hinv'
  | release =>
    rcases step_release hstep with ⟨rfl, -⟩ | ⟨y, -, hrel⟩
    · exact hinv
    · exact hinv.release hrel

theorem start_inv : Inv s (start c desc) := by
  have hclosed : (start c desc).hw.blocks = [] := rfl
  refine ⟨⟨Nat.le_refl 0, ?_, fun i b hb => ?_, fun i b hb => ?_, fun i hi => ?_, fun b hb => ?_, fun b hb => ?_, ?_⟩,
    rfl, ⟨0, Nat.le_refl 0, (Nat.zero_mod _).symm⟩, fun y hy => nomatch hy⟩
  · show 0 < 0 + s.oqDepth
    rw [Nat.zero_add]
    exact s.depth_pos
  · rw [hclosed] at hb
    cases hb
  · cases hb
  · cases hi
  · rw [hclosed] at hb
    cases hb
  · cases hb
  · exact List.nodup_nil

theorem run_inv {is : List Input} (hrun : Run (step s) always (start c desc) is x evs) :
    Inv s x :=
  hrun.inv (fun _ x => Inv s x) start_inv (fun _ _ _ _ _ hinv _ hstep => step_inv hinv hstep)

/-- The data reach the end of the block. -/
def Reaches (es : Stream) (b : Block) : Prop :=
  es.bufPhyAddr.toNat + es.bufLen.toNat = b.startAddr.toNat + b.data.length

/-- The blocks of the queue before the one of the stream. -/
def waiting (x : Sys) (y : Held) : List Block := (x.hw.closed.take y.block.num).drop x.read

/-- The block of the stream is in the queue and the data reach its end. -/
def Due (x : Sys) (y : Held) : Prop := ∃ b ∈ x.hw.closed, b.num = y.block.num ∧ Reaches y.es b

instance : Decidable (Due x y) := inferInstanceAs (Decidable (∃ b ∈ x.hw.closed, _ ∧ _ = _))

/-- All blocks of the queue before the one of the stream went back, and this one if the data reach its end. -/
def Returned (x : Sys) (y : Held) : Prop :=
  (∀ b ∈ x.hw.closed, b.num < y.block.num → b ∈ x.freed) ∧
    ∀ b ∈ x.hw.closed, b.num = y.block.num → Reaches y.es b → b ∈ x.freed

theorem length_waiting : (waiting x y).length = min y.block.num x.hw.closed.length - x.read := by
  unfold waiting
  rw [List.length_drop, List.length_take]

/-- The blocks that went back are those before the read pointer. -/
theorem Inv.mem_freed (hinv : Inv s x) (hb : b ∈ x.hw.closed) : b ∈ x.freed ↔ b.num < x.read := by
  obtain ⟨i, hi⟩ := List.mem_iff_getElem?.mp hb
  have hnum := hinv.hw.num i b (closed_blocks hi)
  rw [hinv.freed, hnum]
  constructor
  · intro hmem
    obtain ⟨j, hj⟩ := List.mem_iff_getElem?.mp hmem
    obtain ⟨hlt, -⟩ := List.getElem?_eq_some_iff.mp hj
    rw [List.length_take] at hlt
    rw [List.getElem?_take_of_lt (by omega)] at hj
    have hnum' := hinv.hw.num j b (closed_blocks hj)
    omega
  · intro hlt
    exact List.mem_iff_getElem?.mpr ⟨i, (List.getElem?_take_of_lt hlt).trans hi⟩

theorem Inv.num_lt (hinv : Inv s x) (hb : b ∈ x.hw.closed) : b.num < x.hw.closed.length := by
  obtain ⟨i, hi⟩ := List.mem_iff_getElem?.mp hb
  rw [hinv.hw.num i b (closed_blocks hi)]
  exact (List.getElem?_eq_some_iff.mp hi).1

theorem Inv.returned_iff (hinv : Inv s x) :
    Returned x y ↔ min y.block.num x.hw.closed.length ≤ x.read ∧ (Due x y → y.block.num < x.read) := by
  constructor
  · intro ⟨hbefore, hown⟩
    refine ⟨Nat.le_of_not_lt (fun hlt => ?_), fun ⟨b, hb, hnum, hreach⟩ => ?_⟩
    · have hget := List.getElem?_eq_getElem (l := x.hw.closed) (i := x.read) (by omega)
      have hmem := List.mem_iff_getElem?.mpr ⟨_, hget⟩
      have hnum := hinv.hw.num _ _ (closed_blocks hget)
      have hlt' := (hinv.mem_freed hmem).mp (hbefore _ hmem (by omega))
      omega
    · exact hnum ▸ (hinv.mem_freed hb).mp (hown b hb hnum hreach)
  · intro ⟨hle, hdue⟩
    refine ⟨fun b hb hlt => ?_, fun b hb hnum hreach => ?_⟩
    · have hlt' := hinv.num_lt hb
      exact (hinv.mem_freed hb).mpr (by omega)
    · exact (hinv.mem_freed hb).mpr (hnum ▸ hdue ⟨b, hb, hnum, hreach⟩)

/-- Blocks in use are apart. -/
theorem HwInv.apart (hinv : HwInv s read h) (hi : h.blocks[i]? = some a) (hj : h.blocks[j]? = some b)
    (hread : read ≤ i) (hlt : i < j) :
    a.startAddr.toNat + s.blockSize ≤ b.startAddr.toNat ∨ b.startAddr.toNat + s.blockSize ≤ a.startAddr.toNat := by
  have hne : a.startAddr ≠ b.startAddr := by
    have hplace {k : Nat} {c : Block} (hk : h.blocks[k]? = some c) (hle : read ≤ k) :
        ((h.blocks.drop read).map Block.startAddr)[k - read]? = some c.startAddr := by
      rw [List.getElem?_map, List.getElem?_drop, Nat.add_sub_cancel' hle, hk]
      rfl
    have hjread : read ≤ j := Nat.le_trans hread (Nat.le_of_lt hlt)
    obtain ⟨hjlt, -⟩ := List.getElem?_eq_some_iff.mp (hplace hj hjread)
    have hdiff := List.nodup_iff_getElem?_ne_getElem?.mp hinv.nodup (i - read) (j - read) (by omega) hjlt
    rw [hplace hi hread, hplace hj hjread] at hdiff
    exact fun heq => hdiff (congrArg some heq)
  exact s.apart _ (hinv.pool a (List.mem_iff_getElem?.mpr ⟨i, hi⟩)).1 _
    (hinv.pool b (List.mem_iff_getElem?.mpr ⟨j, hj⟩)).1 hne

/-- **One release.** No block stays in front of the one that is released, nor this one if it is due, exactly if there
    was none in front of it, or one and it is not due. -/
theorem release_iff (hinv : Inv s x) (hrel : Release s x x' y) (hinside : y.es.Inside y.block) :
    Returned x' y ↔ waiting x y = [] ∨ (waiting x y).length = 1 ∧ ¬ Due x y := by
  have hheld : HeldIn s x.hw y := hinv.held y (hrel.held ▸ List.mem_cons_self)
  obtain ⟨⟨b, hb, hgrows⟩, hempty⟩ := hheld
  have hdue : Due x' y ↔ Due x y := by
    unfold Due
    rw [hrel.hw]
  have hlt_of_due : Due x y → y.block.num < x.hw.closed.length := by
    rintro ⟨c, hc, hnum, -⟩
    exact hnum ▸ hinv.num_lt hc
  rw [(hinv.release hrel).returned_iff, hdue, hrel.hw, ← List.length_eq_zero_iff, length_waiting]
  rcases hrel.freed with ⟨heq, hread, -⟩ | ⟨hne, hfreed⟩
  · -- the queue is empty
    have hall : x.read = x.hw.closed.length := by
      by_contra hne
      have hle := hinv.hw.read_le
      exact cell_ne (Nat.lt_of_le_of_ne hle hne) hinv.hw.room heq
    rw [hread, hall]
    refine iff_of_true ⟨Nat.min_le_right _ _, fun hd => hlt_of_due hd⟩ (.inl ?_)
    omega
  · have hhead := hinv.hw.head hne
    obtain ⟨hlt, -⟩ := List.getElem?_eq_some_iff.mp hhead
    have hsteps : x.read ≤ x'.read ∧ x'.read ≤ x.read + 1 := by
      rcases hfreed with ⟨-, hread, -⟩ | ⟨-, hread, -⟩ <;> omega
    rcases Nat.lt_trichotomy y.block.num x.read with hbehind | hhere | hahead
    · exact iff_of_true ⟨by omega, fun _ => by omega⟩ (.inl (by omega))
    · -- the block of the stream is the first of the queue
      rw [hhere, closed_blocks hhead, Option.some.injEq] at hb
      rw [← hb] at hgrows
      have hshort := short_iff hinside hgrows
      have hpop (hd : Due x y) : x'.read = x.read + 1 := by
        obtain ⟨c, hc, hnum, hreach⟩ := hd
        have hcb : x.hw.blocks[c.num]? = some c := hinv.hw.getElem?_num (closed_subset_blocks hc)
        rw [hnum, hhere, closed_blocks hhead, Option.some.injEq] at hcb
        rw [hcb, hreach] at hshort
        rcases hfreed with ⟨-, hread, -⟩ | ⟨hkept, -, -⟩
        · exact hread
        · exact absurd (.inr fun hs => Nat.lt_irrefl _ (hshort.mp (hcb ▸ hs))) hkept
      exact iff_of_true ⟨by omega, fun hd => by have := hpop hd; omega⟩ (.inl (by omega))
    · -- another block is in front of it
      have hlen : x.read + 1 ≤ min y.block.num x.hw.closed.length := by omega
      constructor
      · intro ⟨hle, hdone⟩
        exact .inr ⟨by omega, fun hd => by have := hdone hd; omega⟩
      · rintro (hzero | ⟨hone, hnot⟩)
        · omega
        · have hother : Other y.es (x.hw.desc (x.read % s.oqDepth)) := by
            have hpool := (hinv.hw.pool b (List.mem_iff_getElem?.mpr ⟨_, hb⟩)).2
            have hapart := hinv.hw.apart (closed_blocks hhead) hb (Nat.le_refl _) hahead
            rw [hgrows.startAddr] at hapart
            refine other_of_apart hinside (Nat.le_trans hgrows.len_le hpool) ?_ (fun hzero => ?_) hapart.symm
            · exact (hinv.hw.pool _ (List.mem_iff_getElem?.mpr ⟨_, closed_blocks hhead⟩)).2
            · obtain ⟨haddr, hdata, hwhere⟩ := hempty hzero
              refine ⟨haddr, hdata, hwhere.resolve_left (fun hclosed => hnot ⟨_, hclosed, rfl, ?_⟩)⟩
              unfold Reaches
              rw [haddr, block_end, hzero]
              rfl
          rcases hfreed with ⟨-, hread, -⟩ | ⟨hkept, -, -⟩
          · exact ⟨by omega, fun hd => absurd hd hnot⟩
          · exact absurd (.inl hother) hkept

/-- **Every release of every run.** The streams are released in order; one whose data lie in its block leaves no
    earlier block of the queue behind, nor this one if the data reach its end, exactly if no block of the queue was in
    front of it, or one and it is not due. -/
theorem run_release_iff {desc : Nat → Block} {is : List Input}
    (hrun : Run (step s) always (start c desc) is x evs) (hstep : step s x .release = some (x', [.released y]))
    (hinside : y.es.Inside y.block) :
    Returned x' y ↔ waiting x y = [] ∨ (waiting x y).length = 1 ∧ ¬ Due x y := by
  rcases step_release hstep with ⟨-, hnone⟩ | ⟨z, hsome, hrel⟩
  · cases hnone
  · obtain ⟨rfl⟩ := List.singleton_inj.mp hsome
    exact release_iff (run_inv hrun) hrel hinside

/-- Blocks of one kilobyte. -/
def small : Setup where
  toConfig := plain
  pool := [0x1000, 0x2000, 0x3000]
  blockSize := 0x400
  depth_pos := by decide
  blockSize_lt := by omega
  control_lt := show 184 < 0x400 by omega
  placed := by simp
  apart := by simp

def fresh : Sys := start openChan (fun _ => shortBlock)

/-- The oldest stream lies in its block and can be released; `n` blocks are in front of it. -/
def ready (n : Nat) (due : Bool) (x : Sys) : Bool :=
  match x.held with
  | [] => false
  | y :: _ =>
    y.es.Inside y.block && (waiting x y).length == n && decide (Due x y) == due &&
      (releaseReadEs small.toConfig x.chan (x.read % small.oqDepth) (x.hw.view small) y.es).1 == .success

theorem ready_release {due : Bool} (hready : ready n due x = true) : ∃ x' y,
    step small x .release = some (x', [.released y]) ∧ y.es.Inside y.block ∧ (waiting x y).length = n ∧
      (Due x y ↔ due = true) := by
  unfold ready at hready
  split at hready
  · cases hready
  · rename_i y rest hheld
    rw [Bool.and_eq_true, Bool.and_eq_true, Bool.and_eq_true, decide_eq_true_iff, beq_iff_eq, beq_iff_eq,
      beq_iff_eq] at hready
    obtain ⟨⟨⟨hinside, hlen⟩, hdue⟩, hret⟩ := hready
    have hstep : ∃ x', step small x .release = some (x', [.released y]) := by
      unfold step
      rw [hheld]
      dsimp only
      generalize releaseReadEs small.toConfig x.chan (x.read % small.oqDepth) (x.hw.view small) y.es = rel at hret ⊢
      obtain ⟨ret, pop⟩ := rel
      obtain rfl : ret = .success := hret
      cases pop with
      | true => exact ⟨_, rfl⟩
      | false => exact ⟨_, rfl⟩
    obtain ⟨x', hstep⟩ := hstep
    exact ⟨x', y, hstep, hinside, hlen, by rw [← hdue, decide_eq_true_iff]⟩

/-- A block that is full, requested and released. And a block that waits while the first data of the next one are
    released: it goes back with them. -/
theorem run_release_prompt :
    (∃ is x evs x' y, Run (step small) always (start openChan (fun _ => shortBlock)) is x evs ∧
      step small x .release = some (x', [.released y]) ∧ Due x y ∧ Returned x' y) ∧
    ∃ is x evs x' y, Run (step small) always (start openChan (fun _ => shortBlock)) is x evs ∧
      step small x .release = some (x', [.released y]) ∧ (waiting x y).length = 1 ∧ Returned x' y := by
  refine ⟨?_, ?_⟩
  · obtain ⟨x, evs, hrun, hready⟩ := exists_run_of_exec (step small) always fresh
      [.hw (.take 0x1000 false (fun _ => 0)), .hw (.append [1, 2, 3]), .hw .close, .request []]
      (fun r => ready 0 true r.1) (by decide)
    obtain ⟨x', y, hstep, hinside, hlen, hdue⟩ := ready_release hready
    exact ⟨_, x, evs, x', y, hrun, hstep, hdue.mpr rfl,
      (run_release_iff hrun hstep hinside).mpr (.inl (List.length_eq_zero_iff.mp hlen))⟩
  · obtain ⟨x, evs, hrun, hready⟩ := exists_run_of_exec (step small) always fresh
      [.hw (.take 0x1000 false (fun _ => 0)), .hw (.append [1, 2, 3]), .setEos, .request [], .release, .hw .close,
        .hw (.take 0x2000 false (fun _ => 0)), .hw (.append [4, 5]), .setEos, .request [], .request []]
      (fun r => ready 1 false r.1) (by decide)
    obtain ⟨x', y, hstep, hinside, hlen, hdue⟩ := ready_release hready
    exact ⟨_, x, evs, x', y, hrun, hstep, hlen,
      (run_release_iff hrun hstep hinside).mpr (.inr ⟨hlen, fun h => Bool.false_ne_true (hdue.mp h)⟩)⟩

/-- The first block is read at the end of the stream, released, and appended as it is; a request passes over it. The
    second block stays in the queue when its data are released. -/
theorem run_release_lags : ¬ ∀ (s : Setup) (c : Chan) (desc : Nat → Block) (is : List Input) (x x' : Sys) (y : Held)
    (evs : List Event), Run (step s) always (start c desc) is x evs →
      step s x .release = some (x', [.released y]) → y.es.Inside y.block → Returned x' y := by
  intro hall
  obtain ⟨x, evs, hrun, hready⟩ := exists_run_of_exec (step small) always fresh
    [.hw (.take 0x1000 false (fun _ => 0)), .hw (.append [1, 2, 3]), .setEos, .request [], .release, .hw .close,
      .hw (.take 0x2000 false (fun _ => 0)), .hw (.append [4, 5]), .hw .close, .request [], .request []]
    (fun r => ready 1 true r.1) (by decide)
  obtain ⟨x', y, hstep, hinside, hlen, hdue⟩ := ready_release hready
  rcases step_release hstep with ⟨-, hnone⟩ | ⟨z, hsome, hrel⟩
  · cases hnone
  · obtain ⟨rfl⟩ := List.singleton_inj.mp hsome
    rcases (release_iff (run_inv hrun) hrel hinside).mp (hall _ _ _ _ _ _ _ _ hrun hstep hinside) with hzero | hone
    · rw [hzero] at hlen
      cases hlen
    · exact hone.2 (hdue.mpr rfl)

end HiSTB.Demux.Es
