import Mathlib.Algebra.Order.BigOperators.Group.List
import HiSTB.Pktq.Correctness.Lists

/-!
# `Pktq.Correctness.Packets` — the packet queue as a list of packets

* `put_packets`, `read_packets`, `get_packets`, `clear_packets` — what each call does to the packets;
* `readPackets`, `splits` — what a read leaves, and the packet it ends inside of;
* `step_inRange` — while the buffers are below 2 GiB, no counter wraps.
-/

namespace HiSTB.Pktq

open Lib LinkedQueue

variable {m f : Int} {ops : List Op} {es : List Event} {op : Op} {mallocOk : Bool}
    {pkt : DataPacket}

/-- The packets of the fill list. -/
def PKTQueue.packets (q : PKTQueue) : List DataPacket := (follow q.next q.brk q.fill.head).map q.pkt

variable {q q' : PKTQueue} {fl fr : List Nat}

theorem packets_eq (h : Lists q fl fr) : q.packets = fl.map q.pkt := by
  unfold PKTQueue.packets
  rw [h.fill.chain.follow_eq]
  have hcount := h.count
  omega

/-- The packets that a read of `left` bytes leaves. -/
def readPackets : Int → List DataPacket → List DataPacket
  | _, [] => []
  | left, p :: ps =>
    if left < p.dataSize then p.advance left :: ps
    else if 0 < left - p.dataSize ∧ 0 < int32 (ps.map DataPacket.dataSize).sum then readPackets (left - p.dataSize) ps
    else ps

/-- The packet that a read of `left` bytes ends inside of, and how many bytes it takes from it. -/
def splits : Int → List DataPacket → Option (DataPacket × Int)
  | _, [] => none
  | left, p :: ps =>
    if left < p.dataSize then some (p, left)
    else if 0 < left - p.dataSize ∧ 0 < int32 (ps.map DataPacket.dataSize).sum then splits (left - p.dataSize) ps
    else none

/-- A read takes whole packets from the front, and perhaps a part of one. -/
theorem readPackets_cases {left : Int} (ps : List DataPacket) (hleft : 0 < left) :
    (splits left ps = none ∧ ∃ us, ps = us ++ readPackets left ps) ∨
      ∃ us p c vs, splits left ps = some (p, c) ∧ ps = us ++ p :: vs ∧ readPackets left ps = p.advance c :: vs ∧
        0 < c ∧ c < p.dataSize := by
  induction ps generalizing left with
  | nil => exact Or.inl ⟨rfl, [], rfl⟩
  | cons p ps ih =>
    unfold splits readPackets
    by_cases hlt : left < p.dataSize
    · rw [if_pos hlt, if_pos hlt]
      exact Or.inr ⟨[], p, left, ps, rfl, rfl, rfl, hleft, hlt⟩
    · rw [if_neg hlt, if_neg hlt]
      by_cases hmore : 0 < left - p.dataSize ∧ 0 < int32 (ps.map DataPacket.dataSize).sum
      · rw [if_pos hmore, if_pos hmore]
        rcases ih hmore.1 with ⟨hnone, us, hus⟩ | ⟨us, r, c, vs, hsome, hus, hread, hc, hcr⟩
        · exact Or.inl ⟨hnone, p :: us, congrArg (p :: ·) hus⟩
        · exact Or.inr ⟨p :: us, r, c, vs, hsome, congrArg (p :: ·) hus, hread, hc, hcr⟩
      · rw [if_neg hmore, if_neg hmore]
        exact Or.inl ⟨rfl, [p], rfl⟩

/-! ## What a call does to the packets -/

/-- The queue is whole. -/
def Whole (q : PKTQueue) : Prop := ∃ fl fr, Lists q fl fr ∧ DataOk q fl

theorem Whole.of_run {C : PKTQueue → Op → Prop}
    (h : Run step C (pktqCreate m f) ops q es) : Whole q := by
  obtain ⟨_, ⟨fl, fr, hlists, hd, _⟩, _⟩ := run_holds h
  exact ⟨fl, fr, hlists, hd⟩

theorem Whole.step (h : Whole q) (hstep : step q op = some (q', es)) : Whole q' := by
  obtain ⟨fl, fr, hlists, hd⟩ := h
  obtain ⟨t, gs, _, hnext, ⟨fl', fr', hlists', hd', _⟩, _⟩ := step_ok ⟨fl, fr, hlists, hd, rfl⟩ op
  obtain ⟨rfl, _⟩ := Prod.mk.inj (Option.some.inj (hstep.symm.trans hnext))
  exact ⟨fl', fr', hlists', hd'⟩

theorem packets_congr (hnext : q'.next = q.next) (hpkt : q'.pkt = q.pkt) (hfill : q'.fill = q.fill)
    (hbrk : q'.brk = q.brk) : q'.packets = q.packets := by
  unfold PKTQueue.packets
  rw [hnext, hpkt, hfill, hbrk]

/-- The queue takes a packet at all. -/
def CanTake (q : PKTQueue) (mallocOk : Bool) : Prop :=
  putForbidden q = false ∧ putFull q = false ∧ (q.free.head = none → mallocOk = true)
deriving Decidable

/-- The free list has a node, or `malloc` gives one. -/
theorem takeNode_isSome : (takeNode q mallocOk).isSome ↔ (q.free.head = none → mallocOk = true) := by
  unfold takeNode delHead
  cases q.free.head with
  | none =>
    split <;> simp_all
  | some a => simp

/-- **A put appends its packet**, where it is valid and the queue takes it. -/
theorem put_packets (h : Whole q)
    (hput : step q (.put (some pkt) mallocOk) = some (q', es)) :
    q'.packets = if putValid pkt = true ∧ CanTake q mallocOk then q.packets ++ [pkt] else q.packets := by
  obtain ⟨fl, fr, hlists, hd⟩ := h
  have hq : q' = (pktqPutPkt q (some pkt) mallocOk).1 := (congrArg Prod.fst (Option.some.inj hput)).symm
  rw [hq]
  unfold pktqPutPkt
  dsimp only
  by_cases hvalid : putValid pkt = false
  · rw [if_pos hvalid, if_neg (fun hc => Bool.false_ne_true (hvalid.symm.trans hc.1))]
  · rw [if_neg hvalid]
    by_cases hforbidden : putForbidden q = true
    · rw [if_pos hforbidden, if_neg (fun hc => Bool.false_ne_true (hc.2.1.symm.trans hforbidden))]
    · rw [if_neg hforbidden]
      by_cases hfull : putFull q = true
      · rw [if_pos hfull, if_neg (fun hc => Bool.false_ne_true (hc.2.2.1.symm.trans hfull))]
        exact packets_congr rfl rfl rfl rfl
      · rw [if_neg hfull]
        have hopen : Lists { q with full := false } fl fr := hlists.of_same rfl rfl rfl rfl rfl rfl rfl rfl
        have hsome : (takeNode { q with full := false } mallocOk).isSome ↔ (q.free.head = none → mallocOk = true) :=
          takeNode_isSome
        cases hnode : takeNode { q with full := false } mallocOk with
        | none =>
          rw [hnode] at hsome
          rw [if_neg (fun hc => Bool.false_ne_true (hsome.mpr hc.2.2.2))]
          exact packets_congr rfl rfl rfl rfl
        | some r =>
          obtain ⟨q', node⟩ := r
          rw [hnode] at hsome
          obtain ⟨fr', hlists', hfl, hfr, hlt, hpkt', _⟩ := takeNode_lists hopen hnode
          have hpos := putValid_valid (Bool.eq_true_of_not_eq_false hvalid)
          obtain ⟨hfill, hpkt, hself⟩ := appendFill_lists hlists' hfl hfr hlt hpos
          have htake : CanTake q mallocOk :=
            ⟨Bool.eq_false_of_not_eq_true hforbidden, Bool.eq_false_of_not_eq_true hfull, hsome.mp rfl⟩
          rw [if_pos ⟨Bool.eq_true_of_not_eq_false hvalid, htake⟩, packets_eq hfill, packets_eq hlists, List.map_append,
            List.map_singleton, hself]
          congr 1
          exact List.map_congr_left (fun b hb => (hpkt b hb).trans (congrFun hpkt' b))

/-- **The loop of `pktq_read` takes packets from the front.** -/
theorem readLoop_packets {fuel : Nat} {v : ReadVars} {fl fr : List Nat} (hfuel : fl.length ≤ fuel)
    (h : Lists v.q fl fr) (hd : DataOk v.q fl) (hleft : 0 < v.left) (hsize : 0 < v.q.dataSize) :
    ∃ v', readLoop fuel v = some v' ∧ v'.q.packets = readPackets v.left (fl.map v.q.pkt) := by
  induction fuel generalizing v fl fr with
  | zero =>
    rw [List.length_eq_zero_iff.mp (Nat.le_zero.mp hfuel)] at hd
    exact absurd hsize hd.not_pos
  | succ fuel ih =>
    cases fl with
    | nil => exact absurd hsize hd.not_pos
    | cons a fl =>
      obtain ⟨v', fl', fr', hround, hlists, hdata, _, _, hcase⟩ := readRound_ok h hd hleft
      unfold readLoop
      rw [hround, Option.bind_some, List.map_cons, readPackets]
      rcases hcase with ⟨hle, rfl, hrest, hmap⟩ | ⟨hlt, rfl, hdone, hmap⟩
      · -- the sizes of the packets behind are what the queue still counts
        have hsum : v'.q.dataSize = int32 ((fl'.map v.q.pkt).map DataPacket.dataSize).sum := by
          rw [hdata, ← hmap, List.map_map]
          rfl
        rw [if_neg (not_lt.mpr hle), ← hrest, ← hsum]
        by_cases hmore : v'.left > 0 ∧ v'.q.dataSize > 0
        · obtain ⟨v'', hloop, hpackets⟩ := ih (Nat.le_of_succ_le_succ hfuel) hlists hdata hmore.1 hmore.2
          rw [if_pos hmore, if_pos hmore, ← hmap]
          exact ⟨v'', hloop, hpackets⟩
        · rw [if_neg hmore, if_neg hmore, ← hmap]
          exact ⟨v', rfl, packets_eq hlists⟩
      · rw [if_pos hlt, if_neg (by omega), ← hmap]
        exact ⟨v', rfl, packets_eq hlists⟩

/-- Is there anything to read, and may it be read? -/
def Reads (q : PKTQueue) (len : Int) : Prop := 0 < len ∧ q.exit = false ∧ 0 < q.dataSize
deriving Decidable

theorem read_packets {len : Int} (h : Whole q) (hread : pktqRead q len = some (q', es)) :
    q'.packets = if Reads q len then readPackets len q.packets else q.packets := by
  obtain ⟨fl, fr, hlists, hd⟩ := h
  unfold pktqRead at hread
  split at hread
  · rename_i hlen
    cases hread
    rw [if_neg (fun hr => absurd hr.1 (not_lt.mpr hlen))]
  · rename_i hlen
    split at hread
    · rename_i hexit
      cases hread
      rw [if_neg (fun hr => by simp [hr.2.1] at hexit)]
    · rename_i hexit
      split at hread
      · rename_i hsize
        have hcount := hlists.count
        have hr : Reads q len := ⟨not_le.mp hlen, by simpa using hexit, hsize⟩
        obtain ⟨v, hloop, hpackets⟩ := readLoop_packets (v := { q := q, buf := [], left := len })
          (show fl.length ≤ q.brk by omega) hlists hd hr.1 hsize
        rw [hloop] at hread
        cases hread
        rw [if_pos hr, packets_eq hlists]
        exact hpackets
      · rename_i hsize
        cases hread
        rw [if_neg (fun hr => hsize hr.2.2)]

/-- A packet that is got leaves the front. -/
theorem get_packets (h : Whole q) (hget : step q .get = some (q', es)) :
    ∃ us, q.packets = us ++ q'.packets := by
  obtain ⟨fl, fr, hlists, _⟩ := h
  have hq : q' = (pktqGetPkt q).1 := (congrArg Prod.fst (Option.some.inj hget)).symm
  rw [hq]
  unfold pktqGetPkt
  split
  · exact ⟨[], rfl⟩
  · cases fl with
    | nil =>
      rw [hlists.fill.head_eq_none.mpr rfl]
      exact ⟨[], rfl⟩
    | cons a fl =>
      obtain ⟨hlists', hkept, _⟩ := recycleHead_lists hlists
      have hdrop : Lists (dropHead q a) fl (fr ++ [a]) := hlists'.of_same rfl rfl rfl rfl rfl rfl rfl rfl
      rw [hlists.fill.chain.1]
      refine ⟨[q.pkt a], ?_⟩
      rw [packets_eq hlists, packets_eq hdrop, List.map_cons, List.singleton_append]
      exact congrArg _ (List.map_congr_left (fun b hb => (hkept b hb).symm))

theorem clear_packets (h : Whole q) (hclear : pktqClear q = some (q', es)) : q'.packets = [] := by
  obtain ⟨fl, fr, hlists, hd⟩ := h
  have hcount := hlists.count
  obtain ⟨q'', fr', hloop, hlists', _⟩ := clearLoop_ok (show fl.length ≤ q.brk by omega) hlists hd
  unfold pktqClear at hclear
  rw [hloop] at hclear
  cases hclear
  exact packets_eq hlists'

/-- What is not put leaves packets at the end of the queue, with the buffers they had. -/
theorem step_suffix (h : Whole q) (hop : ∀ pkt mallocOk, op ≠ .put pkt mallocOk)
    (hstep : step q op = some (q', es)) : q'.packets.map DataPacket.bufSize <:+ q.packets.map DataPacket.bufSize := by
  cases op with
  | put pkt mallocOk => exact absurd rfl (hop pkt mallocOk)
  | read len =>
    rw [read_packets h hstep]
    split
    · rename_i hreads
      rcases readPackets_cases q.packets hreads.1 with ⟨_, us, hus⟩ | ⟨us, p, c, vs, _, hus, hread, _, _⟩
      · exact ⟨us.map DataPacket.bufSize, by rw [← List.map_append, ← hus]⟩
      · refine ⟨us.map DataPacket.bufSize, ?_⟩
        rw [hread, hus, List.map_append]
        rfl
    · exact List.suffix_refl _
  | get =>
    obtain ⟨us, hus⟩ := get_packets h hstep
    exact ⟨us.map DataPacket.bufSize, by rw [hus, List.map_append]⟩
  | clear =>
    rw [clear_packets h hstep]
    exact List.nil_suffix

/-! ## Counters that do not wrap -/

/-- The bytes of the buffers in the queue. -/
def PKTQueue.size (q : PKTQueue) : Int := (q.packets.map DataPacket.bufSize).sum

theorem Whole.valid (h : Whole q) : ∀ p ∈ q.packets, p.Valid := by
  obtain ⟨fl, fr, hlists, _⟩ := h
  rw [packets_eq hlists, List.forall_mem_map]
  exact hlists.valid

theorem Whole.curBufSize (h : Whole q) : q.curBufSize = int32 q.size := by
  obtain ⟨fl, fr, hlists, _⟩ := h
  rw [PKTQueue.size, packets_eq hlists, hlists.buf, List.map_map]
  rfl

/-- Every packet has a buffer. -/
theorem length_le_sum {ps : List DataPacket} (h : ∀ p ∈ ps, p.Valid) :
    (ps.length : Int) ≤ (ps.map DataPacket.bufSize).sum := by
  induction ps with
  | nil => exact le_refl _
  | cons p ps ih =>
    have hp := (h p List.mem_cons_self).bufSize
    have hps := ih (fun r hr => h r (List.mem_cons_of_mem _ hr))
    rw [List.length_cons, List.map_cons, List.sum_cons]
    push_cast
    omega

theorem Whole.size_nonneg (h : Whole q) : 0 ≤ q.size :=
  Int.le_trans (Int.natCast_nonneg _) (length_le_sum h.valid)

/-- The buffers are below 2 GiB, and there never were as many nodes. -/
structure InRange (q : PKTQueue) : Prop where
  size : q.size < 0x80000000
  brk : (q.brk : Int) < 0x80000000

theorem InRange.curBufSize (hr : InRange q) (h : Whole q) : q.curBufSize = q.size := by
  have hpos := h.size_nonneg
  have hlt := hr.size
  rw [h.curBufSize]
  exact int32_of_range (by omega) hlt

/-- A put that is taken keeps `cur_buf_size` in `int`. -/
def Room (q : PKTQueue) : Op → Prop
  | .put (some pkt) mallocOk =>
    putValid pkt = true ∧ CanTake q mallocOk → q.curBufSize + pkt.bufSize < 0x80000000
  | _ => True

instance (q : PKTQueue) : (op : Op) → Decidable (Room q op)
  | .put (some _) _ => inferInstanceAs (Decidable (_ → _))
  | .put none _ | .read _ | .get | .clear => isTrue trivial

/-- A fresh node is only taken when the free list is empty. -/
theorem put_brk (q : PKTQueue) (pkt : Option DataPacket) (mallocOk : Bool) :
    (pktqPutPkt q pkt mallocOk).1.brk = q.brk ∨ (pktqPutPkt q pkt mallocOk).1.free.head = none := by
  unfold pktqPutPkt
  cases pkt with
  | none => exact Or.inl rfl
  | some pkt =>
    dsimp only
    split_ifs
    · exact Or.inl rfl
    · exact Or.inl rfl
    · exact Or.inl rfl
    · unfold takeNode delHead
      cases hfree : q.free.head with
      | some node => exact Or.inl rfl
      | none =>
        cases mallocOk with
        | false => exact Or.inl rfl
        | true => exact Or.inr hfree

/-- With no node free, there are as many nodes as packets. -/
theorem brk_le_size (h : Whole q) (hfree : q.free.head = none) : (q.brk : Int) ≤ q.size := by
  have hle := length_le_sum h.valid
  obtain ⟨fl, fr, hlists, _⟩ := h
  have hcount := hlists.count
  rw [packets_eq hlists, List.length_map, ← packets_eq hlists] at hle
  rw [hlists.free.head_eq_none.mp hfree, List.length_nil] at hcount
  unfold PKTQueue.size
  omega

/-- What is not put does not make the queue larger. -/
theorem step_size_le (h : Whole q) (hop : ∀ pkt mallocOk, op ≠ .put pkt mallocOk)
    (hstep : step q op = some (q', es)) : q'.size ≤ q.size := by
  obtain ⟨us, hus⟩ := step_suffix h hop hstep
  have hpos : 0 ≤ us.sum := List.sum_nonneg (fun n hn => by
    obtain ⟨p, hp, rfl⟩ := List.mem_map.mp (hus ▸ List.mem_append_left _ hn)
    exact Int.le_of_lt (h.valid p hp).bufSize)
  have hsum := congrArg List.sum hus
  rw [List.sum_append] at hsum
  unfold PKTQueue.size
  omega

/-- A put adds its buffer, where it is taken. -/
theorem put_size (h : Whole q)
    (hput : step q (.put (some pkt) mallocOk) = some (q', es)) :
    q'.size = if putValid pkt = true ∧ CanTake q mallocOk then q.size + pkt.bufSize else q.size := by
  unfold PKTQueue.size
  rw [put_packets h hput]
  split
  · rw [List.map_append, List.sum_append, List.map_singleton, List.sum_singleton]
  · rfl

/-- **Calls with room keep the counters in `int`.** -/
theorem step_inRange (hr : InRange q) (h : Whole q) (hroom : Room q op)
    (hstep : step q op = some (q', es)) : InRange q' := by
  by_cases hop : ∃ pkt mallocOk, op = .put pkt mallocOk
  · obtain ⟨pkt, mallocOk, rfl⟩ := hop
    have hsize : q'.size < 0x80000000 := by
      cases pkt with
      | none =>
        cases hstep
        exact hr.size
      | some pkt =>
        rw [put_size h hstep]
        split
        · rename_i htake
          rw [← hr.curBufSize h]
          exact hroom htake
        · exact hr.size
    refine ⟨hsize, ?_⟩
    have hq : q' = (pktqPutPkt q pkt mallocOk).1 := (congrArg Prod.fst (Option.some.inj hstep)).symm
    rcases put_brk q pkt mallocOk with hbrk | hfree
    · rw [hq, hbrk]
      exact hr.brk
    · rw [← hq] at hfree
      have hle := brk_le_size (h.step hstep) hfree
      omega
  · have hop' : ∀ pkt mallocOk, op ≠ .put pkt mallocOk := fun pkt mallocOk heq => hop ⟨pkt, mallocOk, heq⟩
    refine ⟨lt_of_le_of_lt (step_size_le h hop' hstep) hr.size, ?_⟩
    rw [show q'.brk = q.brk from congrArg (·.2.2.2.2) (step_fixed hop' hstep)]
    exact hr.brk

theorem create_inRange (m f : Int) : InRange (pktqCreate m f) :=
  ⟨(by decide : (0 : Int) < 0x80000000), (by decide : (0 : Int) < 0x80000000)⟩

theorem run_inRange (h : Run step Room (pktqCreate m f) ops q es) :
    InRange q := by
  induction h with
  | nil => exact create_inRange m f
  | snoc hrun hroom hnext ih =>
    exact step_inRange ih (Whole.of_run hrun) hroom hnext

end HiSTB.Pktq
