import HiSTB.Demux.Pes
import Mathlib.Data.List.Chain
import Mathlib.Data.List.TakeDrop
import Mathlib.Algebra.BigOperators.Group.List.Basic
import Mathlib.Algebra.Ring.Nat

/-!
# `Demux.Correctness.Pes` — a PES channel hands out its packets block by block

A call returns the next blocks of one packet, `DMX_PES_MAX_SIZE` of them or up to the packet's end, and marks the
packet's first and last block. Three slips stand in the way. The saved offset is added to itself where a packet
goes on for a third call; a packet without a length that begins and ends in one call is marked as a whole, however
many blocks it has; and where such a packet ends between two calls, its offset is counted for the next packet.
`Fits` and `Follows` are the packets that none of the three meets.

* `Packet` — the blocks of a packet, `Packet.answers` — what the calls have to return for it;
* `Scanning` — the invariant of the loop of `DMXOsiFindPes`, `loop_scanning` — what the loop returns;
* `run_pes_answers` — in every run the calls return the answers of the packets, in order.
-/

namespace HiSTB.Demux.Pes

open Lib

variable {n : Nat} {ms : List Msg} {ds oq : List Desc} {l₀ : Scan} {es all : List (List Msg)}
    {s : Sys} {is : List Input}

/-! ## Packets and their answers -/

/-- The bytes in some blocks. -/
def bytes (ds : List Desc) : Nat := (ds.map (fun d => d.dataLen.toNat)).sum

/-- A PES packet: SOP on its first block only, no DROP, and a packet with a length ends at the block where the
    bytes reach it. -/
structure Packet where
  first : Desc
  rest : List Desc
  sop : first.sop = true
  noSop : ∀ d ∈ rest, d.sop = false
  noDrop : ∀ d ∈ first :: rest, d.drop = false
  ends : first.packetLen ≠ 0 → bytes (first :: rest) = first.packetLen.toNat + 6 ∧
    ∀ k < rest.length + 1, bytes ((first :: rest).take k) < first.packetLen.toNat + 6

namespace Packet

def blocks (p : Packet) : List Desc := p.first :: p.rest

def num (p : Packet) : Nat := p.blocks.length

/-- The packet has a length. -/
def Bounded (p : Packet) : Prop := p.first.packetLen ≠ 0
deriving Decidable

/-- The packet's end is inside a call: a packet without a length is known to end only by the packet behind it, and
    where its last block fills up a call, that call is over by then. -/
def Closed (m : Nat) (p : Packet) : Prop := p.Bounded ∨ ¬ m ∣ p.num
deriving Decidable

end Packet

/-- The data types of a packet of `n` blocks whose end is inside a call. -/
def types : Nat → List DataType
  | 0 => []
  | 1 => [.whole]
  | n + 2 => .head :: (List.replicate n .body ++ [.tail])

/-- The block as a message. -/
def msgOf (d : Desc) (t : DataType) : Msg := ⟨d.startAddr, d.dataLen, t⟩

/-- The pieces of `m` elements of a list. -/
def chunks {α : Type*} (m : Nat) (l : List α) : List (List α) :=
  if m = 0 ∨ l = [] then [] else l.take m :: chunks m (l.drop m)
termination_by l.length
decreasing_by
  rename_i h
  rw [not_or] at h
  have := List.length_pos_iff.mpr h.2
  rw [List.length_drop]
  omega

namespace Packet

/-- The messages of a packet. -/
def msgs (m : Nat) (p : Packet) : List Msg :=
  List.zipWith msgOf p.blocks (if p.Closed m then types p.num else .head :: List.replicate p.rest.length .body)

/-- What the calls have to return for a packet. -/
def answers (m : Nat) (p : Packet) : List (List Msg) := chunks m (p.msgs m)

/-- A packet that is handed out right: one with a length takes two calls at most; one without has a single block,
    or at least those of one call. -/
structure Fits (m : Nat) (p : Packet) : Prop where
  few : p.num < 0x100000000
  bounded : p.Bounded → p.num ≤ 2 * m
  unbounded : ¬ p.Bounded → p.num = 1 ∨ m ≤ p.num

/-- Behind a packet that ends between two calls comes no packet with a length. -/
def Follows (m : Nat) (p q : Packet) : Prop := p.Closed m ∨ ¬ q.Bounded
deriving Decidable

end Packet

/-! ## The pieces of a packet -/

variable {m k j : Nat} {p : Packet} {d : Desc} {l : Scan}

theorem chunks_nil {α : Type*} (m : Nat) : chunks m ([] : List α) = [] := by
  rw [chunks, if_pos (Or.inr rfl)]

theorem chunks_cons {α : Type*} {l : List α} (hm : 0 < m) (hl : l ≠ []) :
    chunks m l = l.take m :: chunks m (l.drop m) := by
  rw [chunks, if_neg]
  rw [not_or]
  exact ⟨by omega, hl⟩

open Scan (retype retypeLast)

theorem retypeLast_concat (t : DataType) (ms : List Msg) (a : Msg) :
    retypeLast t (ms ++ [a]) = ms ++ [retype t a] := by
  simp [retypeLast]

theorem length_retypeLast (t : DataType) (ms : List Msg) : (retypeLast t ms).length = ms.length := by
  rcases List.eq_nil_or_concat ms with rfl | ⟨ns, a, rfl⟩
  · rfl
  · rw [List.concat_eq_append, retypeLast_concat, List.length_append, List.length_append]
    rfl

theorem take_retypeLast (t : DataType) (hn : n < ms.length) :
    (retypeLast t ms).take n = ms.take n := by
  rcases List.eq_nil_or_concat ms with rfl | ⟨ns, a, rfl⟩
  · rfl
  · rw [List.concat_eq_append] at hn ⊢
    rw [List.length_append, List.length_singleton] at hn
    rw [retypeLast_concat, List.take_append_of_le_length (by omega), List.take_append_of_le_length (by omega)]

theorem drop_retypeLast (t : DataType) (hn : n < ms.length) :
    (retypeLast t ms).drop n = retypeLast t (ms.drop n) := by
  rcases List.eq_nil_or_concat ms with rfl | ⟨ns, a, rfl⟩
  · cases hn
  · rw [List.concat_eq_append] at hn ⊢
    rw [List.length_append, List.length_singleton] at hn
    rw [retypeLast_concat, List.drop_append_of_le_length (by omega), List.drop_append_of_le_length (by omega),
      retypeLast_concat]

namespace Packet

/-- The messages of a packet whose end is not known. -/
def raw (p : Packet) : List Msg := msgOf p.first .head :: p.rest.map (fun d => msgOf d .body)

/-- The type of the last block. -/
def lastType (p : Packet) : DataType := if p.rest = [] then .whole else .tail

@[simp] theorem length_raw (p : Packet) : p.raw.length = p.num := by
  simp [raw, num, blocks]

theorem num_eq (p : Packet) : p.num = p.rest.length + 1 := rfl

theorem raw_getElem? (h : p.blocks[j]? = some d) : p.raw[j]? = some (msgOf d (if j = 0 then .head else .body)) := by
  cases j with
  | zero =>
    obtain rfl : p.first = d := by simpa [blocks] using h
    rfl
  | succ i =>
    have hi : p.rest[i]? = some d := by simpa [blocks] using h
    simp [raw, hi]

theorem zipWith_replicate (ds : List Desc) :
    List.zipWith msgOf ds (List.replicate ds.length .body) = ds.map (fun d => msgOf d .body) := by
  induction ds with
  | nil => rfl
  | cons d ds ih => rw [List.length_cons, List.replicate_succ, List.zipWith_cons_cons, ih, List.map_cons]

theorem msgs_open (h : ¬ p.Closed m) : p.msgs m = p.raw := by
  unfold msgs raw
  rw [if_neg h, blocks, List.zipWith_cons_cons, zipWith_replicate]

theorem msgs_closed (h : p.Closed m) : p.msgs m = retypeLast p.lastType p.raw := by
  unfold msgs lastType
  rw [if_pos h, num_eq]
  rcases List.eq_nil_or_concat p.rest with hr | ⟨ds, d, hr⟩
  · rw [if_pos hr, raw, blocks, hr]
    rfl
  · rw [List.concat_eq_append] at hr
    have hne : p.rest ≠ [] := by simp [hr]
    rw [if_neg hne, raw, blocks, hr, List.length_append, List.length_singleton, types, List.zipWith_cons_cons,
      List.map_append, ← List.cons_append, List.map_singleton, retypeLast_concat,
      List.zipWith_append (List.length_replicate ..).symm, zipWith_replicate]
    rfl

@[simp] theorem length_msgs (m : Nat) (p : Packet) : (p.msgs m).length = p.num := by
  by_cases h : p.Closed m
  · rw [msgs_closed h, length_retypeLast, length_raw]
  · rw [msgs_open h, length_raw]

/-- The answer from the block `k` on. -/
def chunk (m k : Nat) (p : Packet) : List Msg := ((p.msgs m).drop k).take m

theorem length_chunk (m k : Nat) (p : Packet) : (p.chunk m k).length = min m (p.num - k) := by
  simp [chunk]

theorem chunk_inner (h : p.Closed m → k + m < p.num) : p.chunk m k = (p.raw.drop k).take m := by
  unfold chunk
  by_cases hc : p.Closed m
  · have hlt := h hc
    rw [msgs_closed hc, drop_retypeLast _ (by rw [length_raw]; omega),
      take_retypeLast _ (by rw [List.length_drop, length_raw]; omega)]
  · rw [msgs_open hc]

theorem chunk_last (hc : p.Closed m) (hk : k < p.num) (hm : p.num ≤ k + m) :
    p.chunk m k = retypeLast p.lastType (p.raw.drop k) := by
  unfold chunk
  rw [msgs_closed hc, drop_retypeLast _ (by rwa [length_raw]), List.take_of_length_le]
  rw [length_retypeLast, List.length_drop, length_raw]
  omega

end Packet

/-! ## The offset and the length -/

/-- `u32PesLen` of a packet. -/
def Packet.pesLen (p : Packet) : BitVec 32 :=
  if p.first.packetLen.setWidth 32 ≠ 0 then p.first.packetLen.setWidth 32 + 6 else p.first.packetLen.setWidth 32

theorem setWidth_ne_zero {x : BitVec 16} : x.setWidth 32 ≠ 0 ↔ x ≠ 0 := by
  rw [not_iff_not]
  constructor
  · intro h
    have hn := congrArg BitVec.toNat h
    apply BitVec.eq_of_toNat_eq
    simp only [BitVec.toNat_setWidth, BitVec.ofNat_eq_ofNat, BitVec.toNat_ofNat] at hn ⊢
    omega
  · rintro rfl
    rfl

theorem pesLen_bounded (h : p.Bounded) : p.pesLen = BitVec.ofNat 32 (bytes p.blocks) := by
  unfold Packet.pesLen
  rw [if_pos (setWidth_ne_zero.mpr h), Packet.blocks, (p.ends h).1]
  apply BitVec.eq_of_toNat_eq
  simp only [BitVec.toNat_add, BitVec.toNat_setWidth, BitVec.ofNat_eq_ofNat, BitVec.toNat_ofNat]
  omega

theorem pesLen_unbounded (h : ¬ p.Bounded) : p.pesLen = 0 := by
  unfold Packet.pesLen
  rw [if_neg (fun hne => h (setWidth_ne_zero.mp hne))]
  rw [Packet.Bounded, not_not] at h
  rw [h]
  rfl

theorem bytes_take_succ (h : ds[j]? = some d) :
    bytes (ds.take (j + 1)) = bytes (ds.take j) + d.dataLen.toNat := by
  rw [List.take_add_one, h]
  simp [bytes]

theorem bytes_take_lt (h : p.Bounded) (hj : j < p.num) : bytes (p.blocks.take j) < bytes p.blocks := by
  obtain ⟨hall, hpart⟩ := p.ends h
  have hlt := hpart j hj
  rw [← hall] at hlt
  exact hlt

theorem bytes_lt (h : p.Bounded) : bytes p.blocks < 0x100000000 := by
  have hall := (p.ends h).1
  have hlen := p.first.packetLen.isLt
  rw [← Packet.blocks] at hall
  omega

/-- The offset reaches the length at the last block of a packet with a length, and never else. -/
theorem offset_eq_iff {o : BitVec 32} (hd : p.blocks[j]? = some d)
    (ho : p.Bounded → o = BitVec.ofNat 32 (bytes (p.blocks.take j))) :
    (o + d.dataLen.setWidth 32 = p.pesLen ∧ p.pesLen ≠ 0) ↔ (p.Bounded ∧ j + 1 = p.num) := by
  have hj : j < p.num := (List.getElem?_eq_some_iff.mp hd).1
  by_cases hb : p.Bounded
  · have hsum : o + d.dataLen.setWidth 32 = BitVec.ofNat 32 (bytes (p.blocks.take (j + 1))) := by
      rw [ho hb, bytes_take_succ hd]
      apply BitVec.eq_of_toNat_eq
      simp only [BitVec.toNat_add, BitVec.toNat_setWidth, BitVec.toNat_ofNat]
      omega
    have hlt := bytes_lt hb
    rw [hsum, pesLen_bounded hb]
    constructor
    · rintro ⟨heq, -⟩
      refine ⟨hb, ?_⟩
      by_contra hne
      have hless := bytes_take_lt hb (show j + 1 < p.num by omega)
      have hn := congrArg BitVec.toNat heq
      simp only [BitVec.toNat_ofNat] at hn
      omega
    · rintro ⟨-, hlast⟩
      rw [hlast, Packet.num, List.take_length]
      refine ⟨rfl, fun hz => ?_⟩
      have hn := congrArg BitVec.toNat hz
      have hpos := bytes_take_lt hb (show 0 < p.num by omega)
      simp only [BitVec.ofNat_eq_ofNat, BitVec.toNat_ofNat] at hn
      omega
  · rw [pesLen_unbounded hb]
    constructor
    · rintro ⟨-, hne⟩
      exact absurd rfl hne
    · rintro ⟨hb', -⟩
      exact absurd hb' hb

theorem ofNat_ne_zero (hpos : 0 < n) (hlt : n < 0x100000000) : BitVec.ofNat 32 n ≠ 0 := by
  intro h
  have hn := congrArg BitVec.toNat h
  simp only [BitVec.ofNat_eq_ofNat, BitVec.toNat_ofNat] at hn
  omega

/-! ## One call -/

/-- What the channel says of a packet `k` blocks of which are handed out. -/
structure Agrees (m : Nat) (c : Chan) (k : Nat) (p : Packet) : Prop where
  dvd : m ∣ k
  le : k ≤ p.num
  inside : p.Bounded → k < p.num
  blkCnt : c.pesBlkCnt = BitVec.ofNat 32 k
  start : k = 0 → c.procsOffset = 0
  len : 0 < k → c.pesLength = p.pesLen
  offset : 0 < k → p.Bounded → c.procsOffset = BitVec.ofNat 32 (bytes (p.blocks.take k))

/-- **The invariant of the loop.** The call began at the block `k` and is before the block `j`. -/
structure Scanning (m k j : Nat) (p : Packet) (l : Scan) : Prop where
  agrees : Agrees m l.chan k p
  chanLen : l.chan.pesLength = p.pesLen
  le : k ≤ j
  room : j < k + m
  num : j ≤ p.num
  inside : k < j ∨ j < p.num
  bounded : p.Bounded → j < p.num
  msgs : l.msgs = (p.raw.drop k).take (j - k)
  procsBlk : l.procsBlk = BitVec.ofNat 32 j
  pesHead : l.pesHead = decide (j = 0)
  pesLen : l.pesLen = p.pesLen
  offset : p.Bounded → l.offset = BitVec.ofNat 32 (bytes (p.blocks.take j))
  released : l.released = 0

/-- What a call returns that began at the block `k`, with `n` blocks in the queue. -/
structure Result (m k n : Nat) (p : Packet) (r : Found) : Prop where
  released : r.released = 0
  ret : (r.ret = none ∧ n ≤ (p.chunk m k).length ∧ Agrees m r.chan k p) ∨
    (r.ret = some (p.chunk m k) ∧ (p.chunk m k).length ≤ n ∧
      ((p.Closed m ∧ p.num ≤ k + m ∧ r.chan = .zero) ∨
        ((p.Closed m → k + m < p.num) ∧ Agrees m r.chan (k + m) p)))

theorem length_msgs_scanning (h : Scanning m k j p l) : l.msgs.length = j - k := by
  have hnum := h.num
  rw [h.msgs, List.length_take, List.length_drop, Packet.length_raw]
  omega

/-- The messages with one block more. -/
theorem msgs_succ (h : Scanning m k j p l) (hd : p.blocks[j]? = some d) :
    l.msgs ++ [msgOf d (if l.pesHead then .head else .body)] = (p.raw.drop k).take (j + 1 - k) := by
  have hle := h.le
  have hraw := Packet.raw_getElem? hd
  have hget : (p.raw.drop k)[j - k]? = some (msgOf d (if j = 0 then .head else .body)) := by
    rw [List.getElem?_drop, Nat.add_sub_cancel' hle, hraw]
  rw [Nat.sub_add_comm hle, List.take_add_one, hget, h.msgs, h.pesHead]
  simp

/-- The state behind a block that does not end the packet. -/
def Scan.more (l : Scan) (d : Desc) : Scan :=
  { l with
    offset := l.offset + d.dataLen.setWidth 32, pesHead := false
    msgs := l.msgs ++ [msgOf d (if l.pesHead then .head else .body)], procsBlk := l.procsBlk + 1 }

/-- The last block of a packet with a length. -/
theorem onData_end (h : Scanning m k j p l) (hf : p.Fits m) (hd : p.blocks[j]? = some d) (hb : p.Bounded)
    (hlast : j + 1 = p.num) : l.onData d = .inl ⟨some (p.chunk m k), .zero, 0⟩ := by
  have hle := h.le
  have hroom := h.room
  have hend := (offset_eq_iff hd h.offset).mpr ⟨hb, hlast⟩
  have htype : (if l.procsBlk = 0 then DataType.whole else .tail) = p.lastType := by
    have hnum := p.num_eq
    unfold Packet.lastType
    rw [h.procsBlk]
    by_cases hj : j = 0
    · have hr : p.rest = [] := List.length_eq_zero_iff.mp (by omega)
      rw [if_pos hr, hj]
      exact if_pos rfl
    · have hr : p.rest ≠ [] := by
        intro hr
        rw [hr, List.length_nil] at hnum
        omega
      rw [if_neg hr, if_neg (ofNat_ne_zero (Nat.pos_of_ne_zero hj) (by have := hf.few; omega))]
  have hmsgs := msgs_succ h hd
  rw [List.take_of_length_le (by rw [List.length_drop, Packet.length_raw]; omega)] at hmsgs
  rw [Packet.chunk_last (Or.inl hb) (by omega) (by omega), ← hmsgs, retypeLast_concat]
  unfold Scan.onData
  rw [h.pesLen, if_pos hend, htype, h.released]
  rfl

/-- Any other block. -/
theorem onData_more (h : Scanning m k j p l) (hd : p.blocks[j]? = some d) (hend : ¬ (p.Bounded ∧ j + 1 = p.num)) :
    l.onData d = .inr (l.more d) := by
  unfold Scan.onData Scan.more
  rw [h.pesLen, if_neg (fun ho => hend ((offset_eq_iff hd h.offset).mp ho))]
  rfl

theorem offset_more (h : Scanning m k j p l) (hd : p.blocks[j]? = some d) (hb : p.Bounded) :
    (l.more d).offset = BitVec.ofNat 32 (bytes (p.blocks.take (j + 1))) := by
  rw [Scan.more, h.offset hb, bytes_take_succ hd]
  apply BitVec.eq_of_toNat_eq
  simp only [BitVec.toNat_add, BitVec.toNat_setWidth, BitVec.toNat_ofNat]
  omega

theorem full_more (h : Scanning m k j p l) : (l.more d).full m m = true ↔ j + 1 = k + m := by
  have hle := h.le
  have hlen := length_msgs_scanning h
  simp only [Scan.full, Scan.more, List.length_append, List.length_singleton, hlen, Bool.or_self, decide_eq_true_eq]
  omega

/-- The loop goes on behind the block. -/
theorem scanning_more (h : Scanning m k j p l) (hd : p.blocks[j]? = some d)
    (hend : ¬ (p.Bounded ∧ j + 1 = p.num)) (hroom : j + 1 ≠ k + m) : Scanning m k (j + 1) p (l.more d) := by
  have hle := h.le
  have hlt := h.room
  have hj : j < p.num := (List.getElem?_eq_some_iff.mp hd).1
  exact
    { agrees := h.agrees
      chanLen := h.chanLen
      le := by omega
      room := by omega
      num := hj
      inside := Or.inl (by omega)
      bounded := fun hb => Nat.lt_of_le_of_ne hj (fun he => hend ⟨hb, he⟩)
      msgs := msgs_succ h hd
      procsBlk := by
        rw [Scan.more, h.procsBlk]
        exact (BitVec.ofNat_add _ _).symm
      pesHead := by simp [Scan.more]
      pesLen := h.pesLen
      offset := offset_more h hd
      released := h.released }

/-- The call is full behind the block. -/
theorem finish_more (h : Scanning m k j p l) (hm : 0 < m) (hf : p.Fits m) (hd : p.blocks[j]? = some d)
    (hend : ¬ (p.Bounded ∧ j + 1 = p.num)) (hfull : j + 1 = k + m) (hn : j + 1 - k ≤ n) :
    Result m k n p ((l.more d).finish m m) := by
  have hj : j < p.num := (List.getElem?_eq_some_iff.mp hd).1
  have hinner : p.Closed m → k + m < p.num := by
    intro hc
    refine Nat.lt_of_le_of_ne (hfull ▸ hj) (fun he => ?_)
    -- a packet without a length that ends here fills up its calls
    rcases hc with hb | hndvd
    · exact hend ⟨hb, hfull.trans he⟩
    · exact hndvd (he ▸ Nat.dvd_add_self_right.mpr h.agrees.dvd)
  have hchunk : (l.more d).msgs = p.chunk m k := by
    rw [Packet.chunk_inner hinner, Scan.more, msgs_succ h hd, hfull, Nat.add_sub_cancel_left]
  have hlen : (p.chunk m k).length = m := by
    rw [Packet.length_chunk]
    omega
  have hagrees : Agrees m ((l.more d).finish m m).chan (k + m) p := by
    unfold Scan.finish
    rw [if_pos ((full_more h).mpr hfull)]
    exact
      { dvd := Nat.dvd_add_self_right.mpr h.agrees.dvd
        le := by omega
        inside := fun hb => hinner (Or.inl hb)
        blkCnt := by
          rw [hchunk, hlen]
          show l.chan.pesBlkCnt + BitVec.ofNat 32 m = _
          rw [h.agrees.blkCnt]
          exact (BitVec.ofNat_add _ _).symm
        start := fun h0 => by omega
        len := fun _ => h.chanLen
        offset := fun _ hb => by
          -- a packet with a length is in its first call here, so that nothing was saved before
          have htwo := hf.bounded hb
          have hin := hinner (Or.inl hb)
          have hk : k = 0 := Nat.eq_zero_of_dvd_of_lt h.agrees.dvd (by omega)
          rw [offset_more h hd hb, hfull]
          show l.chan.procsOffset + _ = _
          rw [h.agrees.start hk]
          exact BitVec.zero_add _ }
  refine ⟨?_, Or.inr ⟨?_, by omega, Or.inr ⟨hinner, hagrees⟩⟩⟩
  · unfold Scan.finish
    rw [if_pos ((full_more h).mpr hfull)]
    exact h.released
  · unfold Scan.finish
    rw [if_pos ((full_more h).mpr hfull)]
    exact congrArg some hchunk

/-- The blocks of some packets, in order. -/
def stream (ps : List Packet) : List Desc := ps.flatMap Packet.blocks

/-- The block behind a packet that is over begins the next one. -/
theorem head_stream {ps : List Packet} {more : List Desc} (h : d :: ds ++ more = stream ps) :
    ∃ q qs, ps = q :: qs ∧ d = q.first ∧ ds ++ more = q.rest ++ stream qs := by
  cases ps with
  | nil => cases h
  | cons q qs =>
    have h' : d :: (ds ++ more) = q.first :: (q.rest ++ stream qs) := h
    obtain ⟨rfl, hrest⟩ := List.cons.inj h'
    exact ⟨q, qs, rfl, rfl, hrest⟩

/-- A round of the loop over a block of the packet; `hnext` is what the rounds behind it return. -/
theorem loop_block (hm : 0 < m) (hf : p.Fits m) (h : Scanning m k j p l)
    (hd : p.blocks[j]? = some d) (hsop : l₀.onSop d = .inr l)
    (hnext : Scanning m k (j + 1) p (l.more d) → Result m k (j + 1 - k + ds.length) p (Scan.loop m m ds (l.more d))) :
    Result m k (j - k + (d :: ds).length) p (Scan.loop m m (d :: ds) l₀) := by
  have hle := h.le
  have hroom := h.room
  have hlen : j - k + (d :: ds).length = j + 1 - k + ds.length := by
    rw [List.length_cons]
    omega
  have hdrop : d.drop = false := p.noDrop d (List.mem_of_getElem? hd)
  rw [Scan.loop, hsop, hlen]
  simp only [hdrop, Bool.false_eq_true, if_false]
  by_cases hend : p.Bounded ∧ j + 1 = p.num
  · rw [onData_end h hf hd hend.1 hend.2]
    refine ⟨rfl, Or.inr ⟨rfl, ?_, Or.inl ⟨Or.inl hend.1, by omega, rfl⟩⟩⟩
    rw [Packet.length_chunk]
    omega
  · rw [onData_more h hd hend]
    dsimp only
    by_cases hfull : j + 1 = k + m
    · rw [if_pos ((full_more h).mpr hfull)]
      exact finish_more h hm hf hd hend hfull (Nat.le_add_right _ _)
    · rw [if_neg (fun hf => hfull ((full_more h).mp hf))]
      exact hnext (scanning_more h hd hend hfull)

/-- A packet whose end is shown by the packet behind it. -/
theorem onSop_end (h : Scanning m k j p l) (hf : p.Fits m) (hj : j = p.num) (q : Packet) :
    p.Closed m ∧ l.onSop q.first = .inl ⟨some (p.chunk m k), .zero, 0⟩ := by
  have hle := h.le
  have hroom := h.room
  have hnum := p.num_eq
  have hfew := hf.few
  have hkj : k < j := h.inside.resolve_right (by omega)
  have hunb : ¬ p.Bounded := fun hb => absurd (h.bounded hb) (by omega)
  have hclosed : p.Closed m := by
    refine Or.inr (fun hdvd => ?_)
    have hsub : m ∣ p.num - k := Nat.dvd_sub hdvd h.agrees.dvd
    exact absurd (Nat.le_of_dvd (by omega) hsub) (by omega)
  have hne : l.msgs ≠ [] := by
    intro hnil
    have hlen := length_msgs_scanning h
    rw [hnil, List.length_nil] at hlen
    omega
  have hmsgs : l.msgs = p.raw.drop k := by
    rw [h.msgs, List.take_of_length_le]
    rw [List.length_drop, Packet.length_raw]
    omega
  have htype : (if l.chan.pesBlkCnt ≠ 0 then DataType.tail else .whole) = p.lastType := by
    unfold Packet.lastType
    rw [h.agrees.blkCnt]
    by_cases hk : k = 0
    · -- a packet of one call has one block
      have hone : p.num = 1 := (hf.unbounded hunb).resolve_right (by omega)
      have hr : p.rest = [] := List.length_eq_zero_iff.mp (by omega)
      rw [if_pos hr, hk]
      exact if_neg (not_not.mpr rfl)
    · have hr : p.rest ≠ [] := by
        intro hr
        rw [hr, List.length_nil] at hnum
        omega
      rw [if_neg hr, if_pos (ofNat_ne_zero (Nat.pos_of_ne_zero hk) (by omega))]
  refine ⟨hclosed, ?_⟩
  unfold Scan.onSop
  rw [if_pos q.sop, if_neg (by rw [h.procsBlk]; exact ofNat_ne_zero (by omega) (by omega)), if_pos hne]
  dsimp only
  rw [htype, hmsgs, ← Packet.chunk_last hclosed (by omega) (by omega), h.released]

theorem head_drop {more tail : List Desc} (hj : j < p.num) (h : d :: ds ++ more = p.blocks.drop j ++ tail) :
    p.blocks[j]? = some d ∧ ds ++ more = p.blocks.drop (j + 1) ++ tail := by
  rw [List.drop_eq_getElem_cons hj, List.cons_append, List.cons_append] at h
  obtain ⟨rfl, htail⟩ := List.cons.inj h
  exact ⟨List.getElem?_eq_getElem hj, htail⟩

/-- **What the loop returns**, from inside a packet. -/
theorem loop_scanning (hm : 0 < m) (hf : p.Fits m) {qs : List Packet} {more : List Desc} (oq : List Desc)
    (h : Scanning m k j p l) (hrest : oq ++ more = p.blocks.drop j ++ stream qs) (hpos : 0 < j) :
    Result m k (j - k + oq.length) p (Scan.loop m m oq l) := by
  induction oq generalizing j l with
  | nil =>
    -- the queue is empty, and the call is not full
    have hle := h.le
    have hroom := h.room
    have hnum := h.num
    have hfull : l.full m m = false := by
      simp [Scan.full, length_msgs_scanning h]
      omega
    unfold Scan.loop Scan.finish
    rw [hfull]
    refine ⟨h.released, Or.inl ⟨rfl, ?_, h.agrees⟩⟩
    rw [Packet.length_chunk, List.length_nil]
    omega
  | cons d ds ih =>
    by_cases hj : j < p.num
    · obtain ⟨hd, htail⟩ := head_drop hj hrest
      have hsop : d.sop = false := by
        obtain ⟨i, rfl⟩ : ∃ i, j = i + 1 := ⟨j - 1, by omega⟩
        have hi : p.rest[i]? = some d := by simpa [Packet.blocks] using hd
        exact p.noSop d (List.mem_of_getElem? hi)
      have honSop : l.onSop d = .inr l := by simp [Scan.onSop, hsop]
      exact loop_block hm hf h hd honSop (fun hnext => ih hnext htail (Nat.succ_pos j))
    · have hjn : j = p.num := Nat.le_antisymm h.num (Nat.le_of_not_lt hj)
      have hroom := h.room
      rw [hjn, Packet.num, List.drop_length, List.nil_append] at hrest
      obtain ⟨q, -, -, rfl, -⟩ := head_stream hrest
      obtain ⟨hclosed, honSop⟩ := onSop_end h hf hjn q
      rw [Scan.loop, honSop]
      refine ⟨rfl, Or.inr ⟨rfl, ?_, Or.inl ⟨hclosed, by omega, rfl⟩⟩⟩
      rw [Packet.length_chunk]
      omega

/-- The loop from the first block of a packet on. -/
theorem loop_first {qs : List Packet} {more : List Desc} (hm : 0 < m) (hf : p.Fits m)
    (hsop : l₀.onSop p.first = .inr (l.begin p.first)) (hcnt : l.chan.pesBlkCnt = 0) (hsaved : l.chan.procsOffset = 0)
    (hprocs : l.procsBlk = 0) (hmsgs : l.msgs = []) (hrel : l.released = 0) (hoff : p.Bounded → l.offset = 0)
    (hrest : ds ++ more = p.rest ++ stream qs) :
    Result m 0 (ds.length + 1) p (Scan.loop m m (p.first :: ds) l₀) := by
  have hnum := p.num_eq
  have h : Scanning m 0 0 p (l.begin p.first) :=
    { agrees :=
        { dvd := Nat.dvd_zero m
          le := Nat.zero_le _
          inside := fun _ => by omega
          blkCnt := hcnt
          start := fun _ => hsaved
          len := fun h0 => absurd h0 (Nat.lt_irrefl 0)
          offset := fun h0 => absurd h0 (Nat.lt_irrefl 0) }
      chanLen := rfl
      le := Nat.le_refl 0
      room := by omega
      num := Nat.zero_le _
      inside := Or.inr (by omega)
      bounded := fun _ => by omega
      msgs := hmsgs
      procsBlk := hprocs
      pesHead := rfl
      pesLen := rfl
      offset := hoff
      released := hrel }
  have hres : Result m 0 (0 - 0 + (p.first :: ds).length) p (Scan.loop m m (p.first :: ds) l₀) :=
    loop_block hm hf h rfl hsop (fun hnext => loop_scanning hm hf ds hnext hrest Nat.one_pos)
  rwa [Nat.sub_self, Nat.zero_add, List.length_cons] at hres

/-! ## Between the calls -/

/-- The blocks that are left, where `k` blocks of the first packet are handed out. -/
def blocksLeft (k : Nat) : List Packet → List Desc
  | [] => []
  | p :: qs => p.blocks.drop k ++ stream qs

/-- The answers that are left. -/
def answersLeft (m k : Nat) : List Packet → List (List Msg)
  | [] => []
  | p :: qs => chunks m ((p.msgs m).drop k) ++ qs.flatMap (Packet.answers m)

/-- What the channel says, where `k` blocks of the first packet are handed out. -/
def AgreesAll (m : Nat) (c : Chan) (k : Nat) : List Packet → Prop
  | [] => c = .zero
  | p :: _ => Agrees m c k p

theorem blocksLeft_zero (ps : List Packet) : blocksLeft 0 ps = stream ps := by
  cases ps <;> rfl

theorem answersLeft_zero (m : Nat) (ps : List Packet) : answersLeft m 0 ps = ps.flatMap (Packet.answers m) := by
  cases ps <;> rfl

theorem agreesAll_zero (m : Nat) (ps : List Packet) : AgreesAll m .zero 0 ps := by
  cases ps with
  | nil => exact rfl
  | cons p qs =>
    have hnum := p.num_eq
    exact
      { dvd := Nat.dvd_zero m
        le := Nat.zero_le _
        inside := fun _ => by omega
        blkCnt := rfl
        start := fun _ => rfl
        len := fun h0 => absurd h0 (Nat.lt_irrefl 0)
        offset := fun h0 => absurd h0 (Nat.lt_irrefl 0) }

theorem answersLeft_next (hm : 0 < m) (hk : k < p.num) (qs : List Packet) :
    answersLeft m k (p :: qs) = p.chunk m k :: answersLeft m (k + m) (p :: qs) := by
  have hne : (p.msgs m).drop k ≠ [] := by
    intro hnil
    rw [List.drop_eq_nil_iff, Packet.length_msgs] at hnil
    omega
  rw [answersLeft, answersLeft, chunks_cons hm hne, List.drop_drop, List.cons_append]
  rfl

theorem answersLeft_over (hk : p.num ≤ k) (qs : List Packet) :
    answersLeft m k (p :: qs) = answersLeft m 0 qs := by
  rw [answersLeft, List.drop_eq_nil_of_le (by rwa [Packet.length_msgs]), chunks_nil, List.nil_append,
    answersLeft_zero]

theorem blocksLeft_over (hk : p.num ≤ k) (qs : List Packet) : blocksLeft k (p :: qs) = blocksLeft 0 qs := by
  rw [blocksLeft, List.drop_eq_nil_of_le hk, List.nil_append, blocksLeft_zero]

/-- The packets that are left are handed out right. -/
structure Right (m : Nat) (ps : List Packet) : Prop where
  fits : ∀ p ∈ ps, p.Fits m
  follows : ps.IsChain (Packet.Follows m)

theorem Right.tail {qs : List Packet} (h : Right m (p :: qs)) : Right m qs :=
  ⟨fun q hq => h.fits q (List.mem_cons_of_mem _ hq), h.follows.tail⟩

/-- **One call.** With an empty queue it returns nothing and leaves the channel alone; else it is about a packet,
    and at a place in it that leaves the same to do. -/
theorem findPes_next {c : Chan} {ps : List Packet} {more : List Desc} (hm : 0 < m) (hps : Right m ps)
    (hc : AgreesAll m c k ps) (hrest : oq ++ more = blocksLeft k ps) :
    (oq = [] ∧ findPes m m oq c = ⟨none, c, 0⟩) ∨
    ∃ i p qs, i < p.num ∧ Right m (p :: qs) ∧ blocksLeft k ps = blocksLeft i (p :: qs) ∧
      answersLeft m k ps = answersLeft m i (p :: qs) ∧ Result m i oq.length p (findPes m m oq c) := by
  cases oq with
  | nil =>
    refine Or.inl ⟨rfl, ?_⟩
    have hfull : (Scan.start c).full m m = false := by
      have hne : 0 ≠ m := by omega
      simp [Scan.full, Scan.start, hne]
    rw [findPes, Scan.loop, Scan.finish, hfull]
    rfl
  | cons d ds =>
    right
    cases ps with
    | nil => cases hrest
    | cons p qs =>
      have hf := hps.fits p List.mem_cons_self
      have hagr : Agrees m c k p := hc
      rcases Nat.eq_zero_or_pos k with rfl | hk
      · -- event 1
        rw [blocksLeft_zero] at hrest
        obtain ⟨q, qs', heq, rfl, htail⟩ := head_stream hrest
        obtain ⟨rfl, rfl⟩ := List.cons.inj heq
        have hnum := p.num_eq
        refine ⟨0, p, qs, by omega, hps, rfl, rfl, ?_⟩
        have hcnt : c.pesBlkCnt = 0 := hagr.blkCnt
        refine loop_first (l := .start c) hm hf ?_ hcnt (hagr.start rfl) hcnt rfl rfl
          (fun _ => hagr.start rfl) htail
        unfold Scan.onSop
        rw [if_pos p.sop]
        exact if_pos hcnt
      · rcases Nat.lt_or_ge k p.num with hlt | hge
        · -- the packet goes on
          refine ⟨k, p, qs, hlt, hps, rfl, rfl, ?_⟩
          have h : Scanning m k k p (.start c) :=
            { agrees := hagr
              chanLen := hagr.len hk
              le := Nat.le_refl k
              room := by omega
              num := hagr.le
              inside := Or.inr hlt
              bounded := fun _ => hlt
              msgs := by
                rw [Nat.sub_self, List.take_zero]
                rfl
              procsBlk := hagr.blkCnt
              pesHead := (decide_eq_false (Nat.pos_iff_ne_zero.mp hk)).symm
              pesLen := hagr.len hk
              offset := hagr.offset hk
              released := rfl }
          have hres := loop_scanning hm hf (d :: ds) h hrest hk
          rwa [Nat.sub_self, Nat.zero_add] at hres
        · -- event 2: the packet was over with the last call
          have hkn : k = p.num := Nat.le_antisymm hagr.le hge
          have hnot : ¬ p.Closed m := by
            rintro (hb | hdvd)
            · exact absurd (hagr.inside hb) (by omega)
            · exact hdvd (hkn ▸ hagr.dvd)
          rw [blocksLeft_over hge, blocksLeft_zero] at hrest
          obtain ⟨q, qs', rfl, rfl, htail⟩ := head_stream hrest
          have hunb : ¬ q.Bounded := ((List.isChain_cons_cons.mp hps.follows).1).resolve_left hnot
          have hnum := q.num_eq
          refine ⟨0, q, qs', by omega, hps.tail, blocksLeft_over hge _, answersLeft_over hge _, ?_⟩
          have hcnt : c.pesBlkCnt ≠ 0 := by
            rw [hagr.blkCnt]
            exact ofNat_ne_zero hk (hkn ▸ hf.few)
          refine loop_first (l := { Scan.start c with procsBlk := 0, chan := .zero }) hm
            (hps.tail.fits q List.mem_cons_self) ?_ rfl rfl rfl rfl rfl (fun hb => absurd hb hunb) htail
          unfold Scan.onSop
          rw [if_pos q.sop]
          exact if_neg hcnt

/-! ## Addresses and the release -/

/-- The block that a message is about. -/
def Msg.place (a : Msg) : BitVec 32 × BitVec 16 := (a.bufStartAddr, a.msgLen)

def Desc.place (d : Desc) : BitVec 32 × BitVec 16 := (d.startAddr, d.dataLen)

theorem map_place_retypeLast (t : DataType) (ms : List Msg) :
    (retypeLast t ms).map Msg.place = ms.map Msg.place := by
  rcases List.eq_nil_or_concat ms with rfl | ⟨ns, a, rfl⟩
  · rfl
  · rw [List.concat_eq_append, retypeLast_concat]
    simp [retype, Msg.place]

theorem map_place_msgs (m : Nat) (p : Packet) : (p.msgs m).map Msg.place = p.blocks.map Desc.place := by
  have hraw : p.raw.map Msg.place = p.blocks.map Desc.place := by
    simp [Packet.raw, Packet.blocks, msgOf, Msg.place, Desc.place, Function.comp_def]
  by_cases h : p.Closed m
  · rw [Packet.msgs_closed h, map_place_retypeLast, hraw]
  · rw [Packet.msgs_open h, hraw]

theorem map_addr_chunk (m k : Nat) (p : Packet) :
    (p.chunk m k).map Msg.bufStartAddr = ((p.blocks.drop k).take m).map Desc.startAddr := by
  have hplace : (p.chunk m k).map Msg.place = ((p.blocks.drop k).take m).map Desc.place := by
    rw [Packet.chunk, List.map_take, List.map_drop, map_place_msgs, List.map_take, List.map_drop]
  have haddr := congrArg (List.map Prod.fst) hplace
  rwa [List.map_map, List.map_map] at haddr

theorem flatten_chunks {α : Type*} (hm : 0 < m) (l : List α) : (chunks m l).flatten = l := by
  induction hn : l.length using Nat.strongRecOn generalizing l with
  | _ n ih =>
    by_cases hl : l = []
    · rw [hl, chunks_nil, List.flatten_nil]
    · have hpos := List.length_pos_iff.mpr hl
      have hless : (l.drop m).length < n := by
        rw [List.length_drop]
        omega
      rw [chunks_cons hm hl, List.flatten_cons, ih _ hless _ rfl, List.take_append_drop]

theorem flatten_answers (hm : 0 < m) (ps : List Packet) :
    (ps.flatMap (Packet.answers m)).flatten = ps.flatMap (Packet.msgs m) := by
  induction ps with
  | nil => rfl
  | cons p qs ih =>
    rw [List.flatMap_cons, List.flatten_append, ih, List.flatMap_cons, Packet.answers, flatten_chunks hm]

theorem flatten_le_msgs {ps : List Packet} (hm : 0 < m)
    (h : es <+: ps.flatMap (Packet.answers m)) : es.flatten <+: ps.flatMap (Packet.msgs m) := by
  obtain ⟨as, has⟩ := h
  refine ⟨as.flatten, ?_⟩
  rw [← List.flatten_append, has, flatten_answers hm]

theorem map_place_stream (m : Nat) (ps : List Packet) :
    (ps.flatMap (Packet.msgs m)).map Msg.place = (stream ps).map Desc.place := by
  induction ps with
  | nil => rfl
  | cons p qs ih =>
    rw [List.flatMap_cons, List.map_append, map_place_msgs, ih, ← List.map_append]
    rfl

/-- The messages of the next blocks are all given back. -/
theorem releaseReadData_eq (ms : List Msg) (oq : List Desc)
    (h : ms.map Msg.bufStartAddr = (oq.take ms.length).map Desc.startAddr) :
    releaseReadData ms oq = some ms.length := by
  induction ms generalizing oq with
  | nil => rfl
  | cons a ms ih =>
    cases oq with
    | nil => cases h
    | cons d ds =>
      rw [List.length_cons, List.take_succ_cons, List.map_cons, List.map_cons] at h
      obtain ⟨haddr, htail⟩ := List.cons.inj h
      rw [releaseReadData, if_neg (not_not.mpr haddr), ih ds htail]
      rfl

/-- The first blocks of the queue are those of the answer. -/
theorem split_queue {more bs tail : List Desc} (h : oq ++ more = bs ++ tail) (hle : min m bs.length ≤ oq.length) :
    oq.take (min m bs.length) = bs.take m ∧ oq.drop (min m bs.length) ++ more = bs.drop m ++ tail := by
  have htake : oq.take (min m bs.length) = bs.take m := by
    have heq := congrArg (List.take (min m bs.length)) h
    rw [List.take_append_of_le_length hle, List.take_append_of_le_length (Nat.min_le_right _ _)] at heq
    rw [heq, ← List.take_take, List.take_length]
  refine ⟨htake, ?_⟩
  have hall : oq.take (min m bs.length) ++ (oq.drop (min m bs.length) ++ more) = bs.take m ++ (bs.drop m ++ tail) := by
    rw [← List.append_assoc, List.take_append_drop, ← List.append_assoc, List.take_append_drop, h]
  rw [htake] at hall
  exact List.append_cancel_left hall

/-! ## Runs -/

/-- **The invariant of the runs**, after the calls returned `es`: the calls returned what was to be returned, and
    the channel and the queue are at the place in the packets that is next. -/
structure Inv (m : Nat) (all : List (List Msg)) (s : Sys) (es : List (List Msg)) (k : Nat) (ps : List Packet) :
    Prop where
  right : Right m ps
  agrees : AgreesAll m s.chan k ps
  left : s.oq.drop s.held.length ++ s.toCome = blocksLeft k ps
  held : s.held.map Msg.bufStartAddr = (s.oq.take s.held.length).map Desc.startAddr
  out : es ++ answersLeft m k ps = all

/-- An acquire with nothing held. -/
theorem Inv.acquire {ps : List Packet} (hm : 0 < m) (h : Inv m all s es k ps)
    (hheld : s.held = []) :
    ∃ c i qs, (step m s .acquire = some ({ s with chan := c }, []) ∧
        Inv m all { s with chan := c } es i qs ∧ ∀ a as, all = es ++ a :: as → s.oq.length ≤ a.length) ∨
      ∃ ms, step m s .acquire = some ({ s with chan := c, held := ms }, [ms]) ∧
        Inv m all { s with chan := c, held := ms } (es ++ [ms]) i qs := by
  have hleft := h.left
  rw [hheld, List.length_nil, List.drop_zero] at hleft
  rcases findPes_next hm h.right h.agrees hleft with ⟨hnil, hfind⟩ | ⟨i, p, qs, hi, hright, hl, ha, hres⟩
  · refine ⟨s.chan, k, ps, Or.inl ⟨?_, ⟨h.right, h.agrees, h.left, h.held, h.out⟩, fun a as _ => ?_⟩⟩
    · simp [step, hheld, hfind]
    · rw [hnil]
      exact Nat.zero_le _
  · have hrel := hres.released
    have hnext := answersLeft_next hm hi qs
    rcases hres.ret with ⟨hret, hlen, hagr⟩ | ⟨hret, hlen, hafter⟩
    · refine ⟨_, i, p :: qs, Or.inl ⟨?_, ⟨hright, hagr, ?_, h.held, ?_⟩, fun a as hall => ?_⟩⟩
      · simp [step, hheld, hret, hrel]
      · exact hl ▸ h.left
      · exact ha ▸ h.out
      · rw [← h.out, ha, hnext] at hall
        obtain ⟨rfl, -⟩ := List.cons.inj (List.append_cancel_left hall)
        exact hlen
    · have hlength : (p.chunk m i).length = min m (p.blocks.drop i).length := by
        rw [Packet.length_chunk, List.length_drop]
        rfl
      obtain ⟨htake, hdrop⟩ := split_queue (hleft.trans hl) (hlength ▸ hlen)
      have hheld' : (p.chunk m i).map Msg.bufStartAddr = (s.oq.take (p.chunk m i).length).map Desc.startAddr := by
        rw [map_addr_chunk, hlength, htake]
      have hdrop' : s.oq.drop (p.chunk m i).length ++ s.toCome = blocksLeft (i + m) (p :: qs) := by
        rw [hlength, hdrop, blocksLeft, List.drop_drop]
      have hout : es ++ [p.chunk m i] ++ answersLeft m (i + m) (p :: qs) = all := by
        rw [List.append_assoc, List.singleton_append, ← hnext, ← ha, h.out]
      have hstep : step m s .acquire =
          some ({ s with chan := (findPes m m s.oq s.chan).chan, held := p.chunk m i }, [p.chunk m i]) := by
        simp [step, hheld, hret, hrel]
      rcases hafter with ⟨-, hover, hzero⟩ | ⟨-, hagr⟩
      · -- the packet is over
        refine ⟨_, 0, qs, Or.inr ⟨_, hstep, hright.tail, ?_, ?_, hheld', ?_⟩⟩
        · rw [hzero]
          exact agreesAll_zero m qs
        · exact hdrop'.trans (blocksLeft_over hover qs)
        · rw [← answersLeft_over hover qs, hout]
      · exact ⟨_, i + m, p :: qs, Or.inr ⟨_, hstep, hright, hagr, hdrop', hheld', hout⟩⟩

theorem Inv.step {fs : List (List Msg)} {t : Sys} {ps : List Packet} {i : Input} (hm : 0 < m)
    (h : Inv m all s es k ps) (hnext : Pes.step m s i = some (t, fs)) : ∃ k' qs, Inv m all t (es ++ fs) k' qs := by
  cases i with
  | arrive =>
    cases hcome : s.toCome with
    | nil => simp [Pes.step, hcome] at hnext
    | cons d ds =>
      simp only [Pes.step, hcome] at hnext
      obtain ⟨rfl, rfl⟩ := hnext
      have hlen : s.held.length ≤ s.oq.length := by
        have hl := congrArg List.length h.held
        rw [List.length_map, List.length_map, List.length_take] at hl
        omega
      refine ⟨k, ps, h.right, h.agrees, ?_, ?_, ?_⟩
      · rw [← h.left, hcome, List.drop_append_of_le_length hlen, List.append_assoc, List.singleton_append]
      · dsimp only
        rw [List.take_append_of_le_length hlen]
        exact h.held
      · rw [List.append_nil]
        exact h.out
  | acquire =>
    by_cases hheld : s.held = []
    · obtain ⟨c, i, qs, ⟨hs, hinv, -⟩ | ⟨ms, hs, hinv⟩⟩ := h.acquire hm hheld
      · obtain ⟨rfl, rfl⟩ := Prod.mk.inj (Option.some.inj (hs.symm.trans hnext))
        rw [List.append_nil]
        exact ⟨i, qs, hinv⟩
      · obtain ⟨rfl, rfl⟩ := Prod.mk.inj (Option.some.inj (hs.symm.trans hnext))
        exact ⟨i, qs, hinv⟩
    · simp [Pes.step, hheld] at hnext
  | release =>
    simp only [Pes.step] at hnext
    split_ifs at hnext
    rw [releaseReadData_eq s.held s.oq h.held] at hnext
    obtain ⟨rfl, rfl⟩ := hnext
    refine ⟨k, ps, h.right, h.agrees, ?_, rfl, ?_⟩
    · exact h.left
    · rw [List.append_nil]
      exact h.out

theorem run_inv {ps : List Packet} (hm : 0 < m) (hps : Right m ps)
    (h : Run (step m) always (init (stream ps)) is s es) :
    ∃ k qs, Inv m (ps.flatMap (Packet.answers m)) s es k qs := by
  refine Run.inv_effects (fun _ s es => ∃ k qs, Inv m (ps.flatMap (Packet.answers m)) s es k qs) ?_ ?_ h
  · refine ⟨0, ps, hps, agreesAll_zero m ps, ?_, rfl, ?_⟩
    · exact (blocksLeft_zero ps).symm
    · exact answersLeft_zero m ps
  · rintro _ _ _ _ _ _ ⟨k, qs, hinv⟩ - hnext
    exact hinv.step hm hnext

/-- **The calls return the answers of the packets**, one by one and in order; so every block is returned once. And
    a call returns nothing only while the queue holds no more blocks than the next answer has. -/
theorem run_pes_answers (m : Nat) (hm : 0 < m) (ps : List Packet) (hps : Right m ps) {is : List Input} {s : Sys}
    {es : List (List Msg)} (h : Run (step m) always (init (stream ps)) is s es) :
    es <+: ps.flatMap (Packet.answers m) ∧
      es.flatten.map Msg.place <+: (stream ps).map Desc.place ∧
      ∀ t, step m s .acquire = some (t, []) →
        ∀ a as, ps.flatMap (Packet.answers m) = es ++ a :: as → s.oq.length ≤ a.length := by
  obtain ⟨k, qs, hinv⟩ := run_inv hm hps h
  have hout : es <+: ps.flatMap (Packet.answers m) := ⟨_, hinv.out⟩
  refine ⟨hout, ?_, fun t hnext => ?_⟩
  · rw [← map_place_stream m]
    exact (flatten_le_msgs hm hout).map Msg.place
  · have hheld : s.held = [] := by
      by_contra hne
      simp [step, hne] at hnext
    obtain ⟨c, i, qs', ⟨-, -, hless⟩ | ⟨ms, hs, -⟩⟩ := hinv.acquire hm hheld
    · exact hless
    · have heq := (Prod.mk.inj (Option.some.inj (hs.symm.trans hnext))).2
      cases heq

/-! ## Examples -/

/-- A block of `n` bytes at `a`. -/
def block (a : BitVec 32) (n : BitVec 16) : Desc := ⟨a, n, false, false, 0⟩

/-- The first block of a packet. -/
def firstBlock (a : BitVec 32) (n packetLen : BitVec 16) : Desc := ⟨a, n, true, false, packetLen⟩

/-- A packet with a length, over two calls of two blocks. -/
def twoCalls : Packet where
  first := firstBlock 0x1000 4 6
  rest := [block 0x2000 4, block 0x3000 4]
  sop := rfl
  noSop := by decide
  noDrop := by decide
  ends := by decide

/-- A packet without a length, of one block. -/
def oneBlock : Packet where
  first := firstBlock 0x4000 5 0
  rest := []
  sop := rfl
  noSop := by decide
  noDrop := by decide
  ends := by decide

/-- A packet without a length, of three blocks. -/
def threeBlocks : Packet where
  first := firstBlock 0x5000 1 0
  rest := [block 0x6000 1, block 0x7000 1]
  sop := rfl
  noSop := by decide
  noDrop := by decide
  ends := by decide

/-- `n` blocks arrive. -/
def arrive (n : Nat) : List Input := List.replicate n .arrive

/-- `n` acquires, each with its release. -/
def handOut : Nat → List Input
  | 0 => []
  | n + 1 => .acquire :: .release :: handOut n

theorem right_sample : Right 2 [twoCalls, oneBlock, threeBlocks, twoCalls] := by
  refine ⟨fun p hp => ?_, by decide⟩
  simp only [List.mem_cons, List.not_mem_nil, or_false] at hp
  rcases hp with rfl | rfl | rfl | rfl <;> exact ⟨by decide, by decide, by decide⟩

/-- Four packets, in seven calls. -/
theorem run_pes_answers_four :
    ∃ s es, Run (step 2) always (init (stream [twoCalls, oneBlock, threeBlocks, twoCalls]))
        (arrive 10 ++ handOut 7) s es ∧ es.length = 7 ∧
      es <+: [twoCalls, oneBlock, threeBlocks, twoCalls].flatMap (Packet.answers 2) := by
  exact exists_run_imp (fun _ es => es.length = 7)
    (by decide) fun _ _ hrun htest => ⟨htest, (run_pes_answers 2 (by decide) _ right_sample hrun).1⟩

/-- A packet with a length, over three calls of two blocks. -/
def threeCalls : Packet where
  first := firstBlock 0x1000 4 22
  rest := [block 0x2000 4, block 0x3000 4, block 0x4000 4, block 0x5000 4, block 0x6000 8]
  sop := rfl
  noSop := by decide
  noDrop := by decide
  ends := by decide

/-- A packet without a length, of two blocks. -/
def twoBlocks : Packet where
  first := firstBlock 0x1000 5 0
  rest := [block 0x2000 5]
  sop := rfl
  noSop := by decide
  noDrop := by decide
  ends := by decide

/-- A packet with a length, of two blocks. -/
def lenTwo : Packet where
  first := firstBlock 0x3000 4 8
  rest := [block 0x4000 10]
  sop := rfl
  noSop := by decide
  noDrop := by decide
  ends := by decide

/-- A run whose messages are not those of the packets. -/
theorem not_answers {ps : List Packet} (hm : 0 < m)
    (hex : ((exec (step m) always (init (stream ps)) is).any
      (fun r => decide (¬ r.2.flatten <+: ps.flatMap (Packet.msgs m)))) = true) :
    ∃ s es, Run (step m) always (init (stream ps)) is s es ∧ ¬ es <+: ps.flatMap (Packet.answers m) := by
  obtain ⟨s, es, hrun, htest⟩ := exists_run_of_exec (step m) always (init (stream ps)) is _ hex
  exact ⟨s, es, hrun, fun hpre => of_decide_eq_true htest (flatten_le_msgs hm hpre)⟩

/-- **The three slips.** A packet with a length in its third call ends a block early; a packet of two blocks without
    a length is marked as a whole; and the packet with a length behind a packet that ended with a call ends a block
    early. -/
theorem three_slips :
    (∃ s es, Run (step 2) always (init (stream [threeCalls])) (arrive 6 ++ handOut 3) s es ∧
      ¬ es <+: [threeCalls].flatMap (Packet.answers 2)) ∧
    (∃ s es, Run (step 3) always (init (stream [twoBlocks, lenTwo])) (arrive 3 ++ handOut 1) s es ∧
      ¬ es <+: [twoBlocks, lenTwo].flatMap (Packet.answers 3)) ∧
    (∃ s es, Run (step 2) always (init (stream [twoBlocks, lenTwo])) (arrive 4 ++ handOut 2) s es ∧
      ¬ es <+: [twoBlocks, lenTwo].flatMap (Packet.answers 2)) :=
  ⟨not_answers (by decide) (by decide), not_answers (by decide) (by decide),
    not_answers (by decide) (by decide)⟩

end HiSTB.Demux.Pes
