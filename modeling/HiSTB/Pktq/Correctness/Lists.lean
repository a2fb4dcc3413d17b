import Mathlib.Algebra.BigOperators.Group.List.Basic
import Mathlib.Tactic.Ring
import HiSTB.Pktq.Queue

/-!
# `Pktq.Correctness.Lists` — the two lists of the packet queue

`Lists q fl fr` ties the pointers and counters of a queue to the addresses `fl` of its fill list and `fr` of
its free list; the counters are the reduced sums and lengths. Every operation keeps it, and moves bytes only from the
end of the accepted ones to the end of those handed out:

* `step_ok` — one call returns, keeps the lists, and hands bytes out in order;
* `run_holds` — every run: what was accepted is what was handed out followed by what is still there;
* `step_fixed` — the limits and marks are changed by puts only.
-/

namespace HiSTB.Pktq

open Lib LinkedQueue

variable {q q' : PKTQueue} {a node fuel : Nat} {fl fr : List Nat} {pkt : DataPacket} {c : Int}
    {v : ReadVars} {bs : List BYTE} {es : List Event}

/-- The sizes of a packet that was accepted, and perhaps read in part. -/
structure DataPacket.Valid (pkt : DataPacket) : Prop where
  rdIdx : 0 ≤ pkt.rdIdx
  dataSize : 0 ≤ pkt.dataSize
  le : pkt.dataSize ≤ pkt.bufSize
  bufSize : 0 < pkt.bufSize

/-- The pointers and counters of the queue, except `data_size`, are those of the two lists of nodes; `out` nodes are in
    neither list. -/
structure ListsBut (out : Nat) (q : PKTQueue) (fl fr : List Nat) : Prop where
  fill : IsQueue q.next q.fill fl
  free : IsQueue q.next q.free fr
  disj : ∀ a ∈ fl, a ∉ fr
  fillLt : ∀ a ∈ fl, a < q.brk
  freeLt : ∀ a ∈ fr, a < q.brk
  count : fl.length + fr.length + out = q.brk
  nbFill : q.nbFillNode = int32 fl.length
  nbFree : q.nbFreeNode = int32 fr.length
  buf : q.curBufSize = int32 (fl.map (fun a => (q.pkt a).bufSize)).sum
  valid : ∀ a ∈ fl, (q.pkt a).Valid

/-- Every node is in one of the two lists. -/
abbrev Lists : PKTQueue → List Nat → List Nat → Prop := ListsBut 0

/-- `data_size` counts the unread bytes. -/
def DataOk (q : PKTQueue) (fl : List Nat) : Prop := q.dataSize = int32 (fl.map (fun a => (q.pkt a).dataSize)).sum

/-- The unread bytes of the queue, in order. -/
def pending (q : PKTQueue) (fl : List Nat) : List BYTE := fl.flatMap (fun a => (q.pkt a).rest)

/-- The bytes of the packets accepted. -/
def acceptedBytes (es : List Event) : List BYTE :=
  es.flatMap (fun e => match e with | .accepted bs => bs | _ => [])

/-- The bytes that left the queue, in call order: delivered, or discarded by `pktq_clear`. -/
def outBytes (es : List Event) : List BYTE :=
  es.flatMap (fun e => match e with | .accepted _ => [] | .delivered bs => bs | .discarded bs => bs)

/-! ## Moving nodes -/

/-- The head of the fill list goes to the free list; the other packets stay. -/
theorem recycleHead_lists (h : Lists q (a :: fl) fr) :
    Lists (recycleHead q) fl (fr ++ [a]) ∧ (∀ b ∈ fl, (recycleHead q).pkt b = q.pkt b) ∧
      (recycleHead q).dataSize = q.dataSize := by
  obtain ⟨hdel, hfill⟩ := h.fill.delHead
  have hnd := List.nodup_cons.mp h.fill.nodup
  have hafr : a ∉ fr := h.disj a List.mem_cons_self
  have heq : recycleHead q
      = { q with
          next := (append (Function.update q.next a none) q.free a).1
          pkt := Function.update q.pkt a emptyPacket
          fill := (delHead q.next q.fill).1
          free := (append (Function.update q.next a none) q.free a).2
          nbFillNode := int32 (q.nbFillNode - 1)
          curBufSize := int32 (q.curBufSize - (q.pkt a).bufSize)
          nbFreeNode := int32 (q.nbFreeNode + 1) } := by
    unfold recycleHead
    rw [show delHead q.next q.fill = ((delHead q.next q.fill).1, some a) from Prod.ext rfl hdel]
  have hpkt : ∀ b ∈ fl, (recycleHead q).pkt b = q.pkt b := by
    intro b hb
    have hne : b ≠ a := by
      rintro rfl
      exact hnd.1 hb
    rw [heq]
    exact Function.update_of_ne hne _ _
  refine ⟨?_, hpkt, by rw [heq]⟩
  have hfill' := hfill.set_other hnd.1 none
  have hfree' := h.free.set_other hafr none
  have hnbFill := h.nbFill
  have hnbFree := h.nbFree
  have hbuf := h.buf
  have hcount := h.count
  rw [List.length_cons] at hnbFill hcount
  rw [List.map_cons, List.sum_cons] at hbuf
  constructor
  · rw [heq]
    exact hfree'.append_other hfill' hnd.1 (fun x hx hc => h.disj x (List.mem_cons_of_mem _ hc) hx)
  · rw [heq]
    exact hfree'.append hafr
  · intro b hb hc
    rcases List.mem_append.mp hc with hc | hc
    · exact h.disj b (List.mem_cons_of_mem _ hb) hc
    · exact hnd.1 (List.mem_singleton.mp hc ▸ hb)
  · intro b hb
    rw [heq]
    exact h.fillLt b (List.mem_cons_of_mem _ hb)
  · intro b hb
    rw [heq]
    rcases List.mem_append.mp hb with hb | hb
    · exact h.freeLt b hb
    · exact h.fillLt b (List.mem_singleton.mp hb ▸ List.mem_cons_self)
  · rw [heq, List.length_append, List.length_singleton]
    dsimp only
    omega
  · rw [heq]
    rw [hnbFill]
    exact int32_succ_sub _
  · rw [heq, List.length_append, List.length_singleton]
    rw [hnbFree, int32_add_left]
    rfl
  · rw [List.map_congr_left (fun b hb => congrArg DataPacket.bufSize (hpkt b hb)), heq]
    rw [hbuf]
    exact int32_add_sub _ _
  · intro b hb
    rw [hpkt b hb]
    exact h.valid b (List.mem_cons_of_mem _ hb)

/-- A packet in a node from outside goes to the end of the fill list. -/
theorem appendFill_lists
    (h : ListsBut 1 q fl fr) (hfl : node ∉ fl) (hfr : node ∉ fr) (hlt : node < q.brk) (hvalid : pkt.Valid) :
    Lists (appendFill q node pkt) (fl ++ [node]) fr ∧ (∀ b ∈ fl, (appendFill q node pkt).pkt b = q.pkt b) ∧
      (appendFill q node pkt).pkt node = pkt := by
  have hpkt : ∀ b ∈ fl, (appendFill q node pkt).pkt b = q.pkt b := by
    intro b hb
    have hne : b ≠ node := by
      rintro rfl
      exact hfl hb
    exact Function.update_of_ne hne _ _
  have hself : (appendFill q node pkt).pkt node = pkt := Function.update_self _ _ _
  refine ⟨?_, hpkt, hself⟩
  have hfill' := h.fill.set_other hfl none
  have hfree' := h.free.set_other hfr none
  have hnbFill := h.nbFill
  have hbuf := h.buf
  constructor
  · exact hfill'.append hfl
  · exact hfill'.append_other hfree' hfr h.disj
  · intro b hb
    rcases List.mem_append.mp hb with hb | hb
    · exact h.disj b hb
    · exact List.mem_singleton.mp hb ▸ hfr
  · intro b hb
    rcases List.mem_append.mp hb with hb | hb
    · exact h.fillLt b hb
    · exact List.mem_singleton.mp hb ▸ hlt
  · exact h.freeLt
  · have hcount := h.count
    rw [List.length_append, List.length_singleton]
    show _ = q.brk
    omega
  · show int32 (q.nbFillNode + 1) = _
    rw [List.length_append, List.length_singleton, hnbFill, int32_add_left]
    rfl
  · exact h.nbFree
  · rw [List.map_append, List.sum_append,
      List.map_congr_left (fun b hb => congrArg DataPacket.bufSize (hpkt b hb)), List.map_singleton,
      List.sum_singleton, hself]
    show int32 (q.curBufSize + pkt.bufSize) = _
    rw [hbuf, int32_add_left]
  · intro b hb
    rcases List.mem_append.mp hb with hb | hb
    · rw [hpkt b hb]
      exact h.valid b hb
    · rw [List.mem_singleton.mp hb, hself]
      exact hvalid

/-- A node is taken from the free list or fresh; it belongs to neither list any more. -/
theorem takeNode_lists {mallocOk : Bool}
    (h : Lists q fl fr) (hnode : takeNode q mallocOk = some (q', node)) :
    ∃ fr', ListsBut 1 q' fl fr' ∧ node ∉ fl ∧ node ∉ fr' ∧ node < q'.brk ∧ q'.pkt = q.pkt ∧
      q'.dataSize = q.dataSize := by
  unfold takeNode at hnode
  have hnbFree := h.nbFree
  have hcount := h.count
  cases fr with
  | nil =>
    rw [show delHead q.next q.free = (q.free, none) by
      unfold delHead
      rw [h.free.head_eq_none.mpr rfl]] at hnode
    dsimp only at hnode
    split at hnode
    · cases hnode
      refine ⟨[], ⟨h.fill, h.free, h.disj, fun b hb => Nat.lt_succ_of_lt (h.fillLt b hb),
        fun b hb => absurd hb List.not_mem_nil, congrArg (· + 1) hcount, h.nbFill, h.nbFree, h.buf, h.valid⟩, ?_,
        List.not_mem_nil, Nat.lt_succ_self _, rfl, rfl⟩
      exact fun hc => absurd (h.fillLt _ hc) (Nat.lt_irrefl _)
    · cases hnode
  | cons a fr =>
    obtain ⟨hdel, hfree⟩ := h.free.delHead
    rw [show delHead q.next q.free = ((delHead q.next q.free).1, some a) from Prod.ext rfl hdel] at hnode
    obtain ⟨rfl, rfl⟩ := Prod.mk.inj (Option.some.inj hnode)
    rw [List.length_cons] at hnbFree
    have hnd := List.nodup_cons.mp h.free.nodup
    refine ⟨fr, ⟨h.fill, hfree, fun b hb hc => h.disj b hb (List.mem_cons_of_mem _ hc), h.fillLt,
      fun b hb => h.freeLt b (List.mem_cons_of_mem _ hb), hcount, h.nbFill, ?_, h.buf, h.valid⟩,
      fun hc => h.disj a hc List.mem_cons_self, hnd.1, h.freeLt a List.mem_cons_self, rfl, rfl⟩
    rw [hnbFree]
    exact int32_succ_sub _

/-- The lists do not depend on the flags and on `data_size`. -/
theorem Lists.of_same (h : Lists q fl fr) (hnext : q'.next = q.next)
    (hpkt : q'.pkt = q.pkt) (hbrk : q'.brk = q.brk) (hfill : q'.fill = q.fill) (hfree : q'.free = q.free)
    (hnbFill : q'.nbFillNode = q.nbFillNode) (hnbFree : q'.nbFreeNode = q.nbFreeNode)
    (hbuf : q'.curBufSize = q.curBufSize) : Lists q' fl fr :=
  ⟨by rw [hnext, hfill]; exact h.fill, by rw [hnext, hfree]; exact h.free, h.disj,
    by rw [hbrk]; exact h.fillLt, by rw [hbrk]; exact h.freeLt, by rw [hbrk]; exact h.count,
    by rw [hnbFill]; exact h.nbFill, by rw [hnbFree]; exact h.nbFree, by rw [hbuf, hpkt]; exact h.buf,
    by rw [hpkt]; exact h.valid⟩

theorem pending_congr (h : ∀ a ∈ fl, q'.pkt a = q.pkt a) :
    pending q' fl = pending q fl :=
  List.flatMap_congr (fun a ha => congrArg DataPacket.rest (h a ha))

theorem DataOk.congr (h : DataOk q fl) (hpkt : ∀ a ∈ fl, q'.pkt a = q.pkt a)
    (hdata : q'.dataSize = q.dataSize) : DataOk q' fl := by
  unfold DataOk
  rw [hdata, List.map_congr_left (fun a ha => congrArg DataPacket.dataSize (hpkt a ha))]
  exact h

/-! ## Taking whole packets -/

/-- The first packet leaves the queue. -/
theorem dropHead_ok (h : Lists q (a :: fl) fr)
    (hd : DataOk q (a :: fl)) :
    Lists (dropHead q a) fl (fr ++ [a]) ∧ DataOk (dropHead q a) fl ∧
      pending q (a :: fl) = (q.pkt a).rest ++ pending (dropHead q a) fl := by
  obtain ⟨hlists, hpkt, _⟩ := recycleHead_lists h
  have hdrop : ∀ b ∈ fl, (dropHead q a).pkt b = q.pkt b := hpkt
  refine ⟨hlists.of_same rfl rfl rfl rfl rfl rfl rfl rfl, ?_, ?_⟩
  · unfold DataOk at hd ⊢
    rw [List.map_cons, List.sum_cons] at hd
    rw [List.map_congr_left (fun b hb => congrArg DataPacket.dataSize (hdrop b hb))]
    show int32 (q.dataSize - (q.pkt a).dataSize) = _
    rw [hd]
    exact int32_add_sub _ _
  · rw [pending_congr hdrop]
    rfl

/-- **The loop of `pktq_clear` empties the fill list** and throws away exactly the unread bytes. -/
theorem clearLoop_ok (hfuel : fl.length ≤ fuel)
    (h : Lists q fl fr) (hd : DataOk q fl) :
    ∃ q' fr', clearLoop fuel q = some (q', pending q fl) ∧ Lists q' [] fr' ∧ DataOk q' [] := by
  induction fl generalizing fuel q fr with
  | nil =>
    refine ⟨q, fr, ?_, h, hd⟩
    unfold clearLoop
    rw [h.fill.head_eq_none.mpr rfl]
    rfl
  | cons a fl ih =>
    obtain ⟨hlists, hdata, hpend⟩ := dropHead_ok h hd
    cases fuel with
    | zero => cases hfuel
    | succ fuel =>
      obtain ⟨q', fr', hloop, hlists', hdata'⟩ := ih (Nat.le_of_succ_le_succ hfuel) hlists hdata
      refine ⟨q', fr', ?_, hlists', hdata'⟩
      unfold clearLoop
      rw [h.fill.chain.1]
      dsimp only
      rw [hloop, hpend]
      rfl

/-! ## Reading bytes -/

/-- Reading `c` bytes of a packet leaves the rest of it. -/
theorem rest_advance (hc : 0 ≤ c) (hle : c ≤ pkt.dataSize)
    (hrd : 0 ≤ pkt.rdIdx) : pkt.rest = pkt.bytes c.toNat ++ (pkt.advance c).rest := by
  have hsize : pkt.dataSize.toNat = c.toNat + (pkt.dataSize - c).toNat := by omega
  unfold DataPacket.rest
  rw [hsize]
  unfold DataPacket.bytes
  rw [List.range_add, List.map_append, List.map_map]
  congr 1
  apply List.map_congr_left
  intro r _
  show pkt.data (pkt.rdIdx.toNat + (c.toNat + r)) = pkt.data ((pkt.rdIdx + c).toNat + r)
  congr 1
  omega

/-- The queue after `cplen` bytes of its first packet were read. -/
theorem readNode_ok (h : Lists q (a :: fl) fr)
    (hd : DataOk q (a :: fl)) (hc : 0 ≤ c) (hle : c ≤ (q.pkt a).dataSize) :
    Lists (readNode q a c) (a :: fl) fr ∧ DataOk (readNode q a c) (a :: fl) ∧
      pending q (a :: fl) = (q.pkt a).bytes c.toNat ++ pending (readNode q a c) (a :: fl) := by
  have hnd := List.nodup_cons.mp h.fill.nodup
  have hself : (readNode q a c).pkt a = (q.pkt a).advance c := Function.update_self _ _ _
  have hpkt : ∀ b ∈ fl, (readNode q a c).pkt b = q.pkt b := by
    intro b hb
    have hne : b ≠ a := by
      rintro rfl
      exact hnd.1 hb
    exact Function.update_of_ne hne _ _
  have hvalid := h.valid a List.mem_cons_self
  refine ⟨⟨h.fill, h.free, h.disj, h.fillLt, h.freeLt, h.count, h.nbFill, h.nbFree, ?_, ?_⟩, ?_, ?_⟩
  · have hbuf := h.buf
    rw [List.map_cons, List.sum_cons] at hbuf ⊢
    rw [List.map_congr_left (fun b hb => congrArg DataPacket.bufSize (hpkt b hb)), hself]
    exact hbuf
  · intro b hb
    rcases List.mem_cons.mp hb with rfl | hb
    · rw [hself]
      obtain ⟨hrd, _, hbuf, hpos⟩ := hvalid
      constructor
      · show 0 ≤ (q.pkt b).rdIdx + c
        omega
      · show 0 ≤ (q.pkt b).dataSize - c
        omega
      · show (q.pkt b).dataSize - c ≤ (q.pkt b).bufSize
        omega
      · exact hpos
    · rw [hpkt b hb]
      exact h.valid b (List.mem_cons_of_mem _ hb)
  · unfold DataOk at hd ⊢
    rw [List.map_cons, List.sum_cons] at hd ⊢
    rw [List.map_congr_left (fun b hb => congrArg DataPacket.dataSize (hpkt b hb)), hself]
    show int32 (q.dataSize - c) = int32 ((q.pkt a).dataSize - c + _)
    rw [hd, int32_sub_left]
    congr 1
    omega
  · unfold pending
    rw [List.flatMap_cons, List.flatMap_cons, hself, ← List.append_assoc, ← rest_advance hc hle hvalid.rdIdx]
    congr 1
    exact (pending_congr hpkt).symm

/-- **One round of the loop of `pktq_read`** moves bytes from the first packet to the buffer, and either
    finishes the packet or the request. -/
theorem readRound_ok (h : Lists v.q (a :: fl) fr)
    (hd : DataOk v.q (a :: fl)) (hleft : 0 < v.left) :
    ∃ v' fl' fr', readRound v = some v' ∧ Lists v'.q fl' fr' ∧ DataOk v'.q fl' ∧
      v'.buf ++ pending v'.q fl' = v.buf ++ pending v.q (a :: fl) ∧ 0 ≤ v'.left ∧
      ((v.q.pkt a).dataSize ≤ v.left ∧ fl' = fl ∧ v'.left = v.left - (v.q.pkt a).dataSize ∧
          fl.map v'.q.pkt = fl.map v.q.pkt ∨
        v.left < (v.q.pkt a).dataSize ∧ fl' = a :: fl ∧ v'.left = 0 ∧
          (a :: fl).map v'.q.pkt = (v.q.pkt a).advance v.left :: fl.map v.q.pkt) := by
  have hvalid := (h.valid a List.mem_cons_self).dataSize
  unfold readRound
  rw [h.fill.chain.1, Option.map_some]
  dsimp only
  set c : Int := if (v.q.pkt a).dataSize > v.left then v.left else (v.q.pkt a).dataSize with hc
  have hcle : 0 ≤ c ∧ c ≤ (v.q.pkt a).dataSize ∧ c ≤ v.left ∧
      ((v.q.pkt a).dataSize ≤ v.left ∧ c = (v.q.pkt a).dataSize ∨ v.left < (v.q.pkt a).dataSize ∧ c = v.left) := by
    rw [hc]
    split <;> omega
  obtain ⟨hlists, hdata, hpend⟩ := readNode_ok h hd hcle.1 hcle.2.1
  have hpkt : (readNode v.q a c).pkt a = (v.q.pkt a).advance c := Function.update_self _ _ _
  have hothers : ∀ b ∈ fl, (readNode v.q a c).pkt b = v.q.pkt b := by
    intro b hb
    refine Function.update_of_ne ?_ _ _
    rintro rfl
    exact (List.nodup_cons.mp h.fill.nodup).1 hb
  have hself : ((readNode v.q a c).pkt a).dataSize = (v.q.pkt a).dataSize - c := by
    rw [hpkt]
    rfl
  by_cases hfin : ((readNode v.q a c).pkt a).dataSize ≤ 0
  · -- the packet is finished: its node goes to the free list, and it has no bytes left
    rw [if_pos hfin]
    obtain ⟨hrec, hkept, hsize⟩ := recycleHead_lists hlists
    have hzero : ((readNode v.q a c).pkt a).dataSize = 0 := by omega
    refine ⟨_, fl, fr ++ [a], rfl, hrec, ?_, ?_, by dsimp only; omega, Or.inl ⟨by omega, rfl, by dsimp only; omega, ?_⟩⟩
    · unfold DataOk at hdata ⊢
      rw [List.map_cons, List.sum_cons, hzero] at hdata
      rw [hsize, List.map_congr_left (fun b hb => congrArg DataPacket.dataSize (hkept b hb)), hdata, Int.zero_add]
    · dsimp only
      rw [hpend, List.append_assoc, pending_congr hkept]
      unfold pending
      rw [List.flatMap_cons, DataPacket.rest, hzero]
      rfl
    · exact List.map_congr_left (fun b hb => (hkept b hb).trans (hothers b hb))
  · rw [if_neg hfin]
    have hless : v.left < (v.q.pkt a).dataSize ∧ c = v.left := by omega
    refine ⟨_, a :: fl, fr, rfl, hlists, hdata, ?_, by dsimp only; omega,
      Or.inr ⟨hless.1, rfl, by dsimp only; omega, ?_⟩⟩
    · dsimp only
      rw [hpend, List.append_assoc]
    · rw [List.map_cons, List.map_congr_left hothers, hpkt, hless.2]

/-- Without packets there is no data. -/
theorem DataOk.not_pos (hd : DataOk q []) : ¬ 0 < q.dataSize := by
  rw [hd]
  exact lt_irrefl 0

/-- **The loop of `pktq_read` returns**, within one round per packet, and moves bytes in order. -/
theorem readLoop_ok (hfuel : fl.length ≤ fuel)
    (h : Lists v.q fl fr) (hd : DataOk v.q fl) (hleft : 0 < v.left) (hsize : 0 < v.q.dataSize) :
    ∃ v' fl' fr', readLoop fuel v = some v' ∧ Lists v'.q fl' fr' ∧ DataOk v'.q fl' ∧
      v'.buf ++ pending v'.q fl' = v.buf ++ pending v.q fl := by
  induction fuel generalizing v fl fr with
  | zero =>
    rw [List.length_eq_zero_iff.mp (Nat.le_zero.mp hfuel)] at hd
    exact absurd hsize hd.not_pos
  | succ fuel ih =>
    cases fl with
    | nil => exact absurd hsize hd.not_pos
    | cons a fl =>
      obtain ⟨v', fl', fr', hround, hlists, hdata, hbytes, _, hcase⟩ := readRound_ok h hd hleft
      unfold readLoop
      rw [hround, Option.bind_some]
      by_cases hmore : v'.left > 0 ∧ v'.q.dataSize > 0
      · rw [if_pos hmore]
        rcases hcase with ⟨_, rfl, _, _⟩ | ⟨_, _, hdone, _⟩
        · obtain ⟨v'', fl'', fr'', hloop, hlists', hdata', hbytes'⟩ :=
            ih (Nat.le_of_succ_le_succ hfuel) hlists hdata hmore.1 hmore.2
          exact ⟨v'', fl'', fr'', hloop, hlists', hdata', hbytes'.trans hbytes⟩
        · omega
      · rw [if_neg hmore]
        exact ⟨v', fl', fr', rfl, hlists, hdata, hbytes⟩

/-! ## One call -/

/-- The state of a queue, with the bytes in it. -/
def Holds (q : PKTQueue) (bs : List BYTE) : Prop :=
  ∃ fl fr, Lists q fl fr ∧ DataOk q fl ∧ pending q fl = bs

/-- A call that changes nothing but flags. -/
theorem Holds.flags (h : Holds q bs) (hnext : q'.next = q.next)
    (hpkt : q'.pkt = q.pkt) (hbrk : q'.brk = q.brk) (hfill : q'.fill = q.fill) (hfree : q'.free = q.free)
    (hnbFill : q'.nbFillNode = q.nbFillNode) (hnbFree : q'.nbFreeNode = q.nbFreeNode)
    (hbuf : q'.curBufSize = q.curBufSize) (hdata : q'.dataSize = q.dataSize) : Holds q' bs := by
  obtain ⟨fl, fr, hlists, hd, hpend⟩ := h
  refine ⟨fl, fr, hlists.of_same hnext hpkt hbrk hfill hfree hnbFill hnbFree hbuf, ?_, ?_⟩
  · exact hd.congr (fun a _ => by rw [hpkt]) hdata
  · rw [← hpend]
    exact pending_congr (fun a _ => by rw [hpkt])

theorem putValid_valid (h : putValid pkt = true) : pkt.Valid := by
  unfold putValid at h
  simp only [Bool.not_eq_true', Bool.or_eq_false_iff, Bool.and_eq_false_iff, decide_eq_false_iff_not] at h
  constructor <;> omega

/-- **`pktq_put_pkt` appends the packet's bytes**, or leaves the queue as it is. -/
theorem pktqPutPkt_ok (h : Holds q bs) (pkt : Option DataPacket)
    (mallocOk : Bool) :
    Holds (pktqPutPkt q pkt mallocOk).1 (bs ++ acceptedBytes (pktqPutPkt q pkt mallocOk).2) ∧
      outBytes (pktqPutPkt q pkt mallocOk).2 = [] := by
  have hsame : Holds q (bs ++ acceptedBytes []) := by
    rw [show acceptedBytes [] = [] from rfl, List.append_nil]
    exact h
  unfold pktqPutPkt
  cases pkt with
  | none => exact ⟨hsame.flags rfl rfl rfl rfl rfl rfl rfl rfl rfl, rfl⟩
  | some pkt =>
    dsimp only
    split
    · exact ⟨hsame, rfl⟩
    · rename_i hvalid
      split
      · exact ⟨hsame, rfl⟩
      · split
        · exact ⟨hsame.flags rfl rfl rfl rfl rfl rfl rfl rfl rfl, rfl⟩
        · cases hnode : takeNode { q with full := false } mallocOk with
          | none => exact ⟨hsame.flags rfl rfl rfl rfl rfl rfl rfl rfl rfl, rfl⟩
          | some r =>
            obtain ⟨q', node⟩ := r
            have hsize := putValid_valid (Bool.eq_true_of_not_eq_false hvalid)
            obtain ⟨fl, fr, hlists, hd, rfl⟩ := h
            have hopen : Lists { q with full := false } fl fr :=
              hlists.of_same rfl rfl rfl rfl rfl rfl rfl rfl
            obtain ⟨fr', hlists', hfl, hfr, hlt, hpkt', hdata'⟩ := takeNode_lists hopen hnode
            obtain ⟨hfill, hpkt, hself⟩ := appendFill_lists hlists' hfl hfr hlt hsize
            refine ⟨⟨fl ++ [node], fr', hfill, ?_, ?_⟩, rfl⟩
            · unfold DataOk at hd ⊢
              rw [List.map_append, List.sum_append,
                List.map_congr_left (fun b hb => congrArg DataPacket.dataSize (hpkt b hb)),
                List.map_singleton, List.sum_singleton, hself, hpkt']
              show int32 (q'.dataSize + pkt.dataSize) = _
              rw [hdata']
              show int32 (q.dataSize + pkt.dataSize) = _
              rw [hd, int32_add_left]
            · unfold pending
              rw [List.flatMap_append, List.flatMap_singleton, hself]
              have hold : fl.flatMap (fun a => ((appendFill q' node pkt).pkt a).rest)
                  = fl.flatMap (fun a => (q.pkt a).rest) :=
                List.flatMap_congr (fun a ha => by rw [hpkt a ha, hpkt'])
              rw [hold]
              simp [acceptedBytes]

/-- **One call returns, and moves bytes in order**: it keeps the lists, and what was there followed by what
    it accepted is what it handed out followed by what is there now. -/
theorem step_ok (h : Holds q bs) (op : Op) :
    ∃ q' es bs', step q op = some (q', es) ∧ Holds q' bs' ∧ bs ++ acceptedBytes es = outBytes es ++ bs' := by
  have hsame : ∃ q' es bs', some (q, ([] : List Event)) = some (q', es) ∧ Holds q' bs' ∧
      bs ++ acceptedBytes es = outBytes es ++ bs' :=
    ⟨q, [], bs, rfl, h, by simp [acceptedBytes, outBytes]⟩
  cases op with
  | put pkt mallocOk =>
    obtain ⟨hput, hout⟩ := pktqPutPkt_ok h pkt mallocOk
    refine ⟨(pktqPutPkt q pkt mallocOk).1, (pktqPutPkt q pkt mallocOk).2, _, rfl, hput, ?_⟩
    rw [hout, List.nil_append]
  | read len =>
    rw [show step q (.read len) = pktqRead q len from rfl]
    unfold pktqRead
    split
    · exact hsame
    · rename_i hlen
      split
      · exact hsame
      · split
        · rename_i hsize
          obtain ⟨fl, fr, hlists, hd, rfl⟩ := h
          have hcount := hlists.count
          obtain ⟨v, fl', fr', hloop, hlists', hd', hbytes⟩ :=
            readLoop_ok (v := { q := q, buf := [], left := len })
              (show fl.length ≤ q.brk by omega) hlists hd (by dsimp only; omega) hsize
          rw [hloop, Option.map_some]
          refine ⟨_, _, _, rfl, ⟨fl', fr', hlists', hd', rfl⟩, ?_⟩
          have hflat : outBytes [.delivered v.buf] = v.buf := by simp [outBytes]
          rw [hflat, hbytes]
          simp [acceptedBytes]
        · exact hsame
  | get =>
    rw [show step q .get = some (pktqGetPkt q) from rfl]
    unfold pktqGetPkt
    split
    · exact hsame
    · obtain ⟨fl, fr, hlists, hd, rfl⟩ := h
      cases fl with
      | nil =>
        rw [hlists.fill.head_eq_none.mpr rfl]
        exact hsame
      | cons a fl =>
        obtain ⟨hlists', hd', hpend⟩ := dropHead_ok hlists hd
        rw [hlists.fill.chain.1]
        refine ⟨_, _, _, rfl, ⟨fl, fr ++ [a], hlists', hd', rfl⟩, ?_⟩
        rw [hpend]
        simp [acceptedBytes, outBytes]
  | clear =>
    rw [show step q .clear = pktqClear q from rfl]
    unfold pktqClear
    obtain ⟨fl, fr, hlists, hd, rfl⟩ := h
    have hcount := hlists.count
    obtain ⟨q', fr', hloop, hlists', hd'⟩ := clearLoop_ok (show fl.length ≤ q.brk by omega) hlists hd
    rw [hloop, Option.map_some]
    refine ⟨_, _, [], rfl, ⟨[], fr', hlists', hd', rfl⟩, ?_⟩
    simp [acceptedBytes, outBytes]

/-! ## Runs -/

theorem create_holds (maxBufSize forbiddenSize : Int) : Holds (pktqCreate maxBufSize forbiddenSize) [] :=
  ⟨[], [], ⟨IsQueue.empty _, IsQueue.empty _, fun _ h => absurd h List.not_mem_nil,
    fun _ h => absurd h List.not_mem_nil, fun _ h => absurd h List.not_mem_nil, rfl, rfl, rfl, rfl,
    fun _ h => absurd h List.not_mem_nil⟩, rfl, rfl⟩

theorem acceptedBytes_append (es fs : List Event) :
    acceptedBytes (es ++ fs) = acceptedBytes es ++ acceptedBytes fs := List.flatMap_append

theorem outBytes_append (es fs : List Event) : outBytes (es ++ fs) = outBytes es ++ outBytes fs :=
  List.flatMap_append

/-- Along a run the accepted bytes are those handed out and those still there. -/
theorem run_holds {C : PKTQueue → Op → Prop} {maxBufSize forbiddenSize : Int} {ops : List Op}
    (h : Run step C (pktqCreate maxBufSize forbiddenSize) ops q es) :
    ∃ bs, Holds q bs ∧ acceptedBytes es = outBytes es ++ bs := by
  induction h with
  | nil => exact ⟨[], create_holds _ _, rfl⟩
  | @snoc _ _ _ op _ _ _ _ hnext ih =>
    obtain ⟨bs, hholds, hbytes⟩ := ih
    obtain ⟨q', fs, bs', hstep, hholds', hmove⟩ := step_ok hholds op
    rw [hnext] at hstep
    cases hstep
    refine ⟨bs', hholds', ?_⟩
    rw [acceptedBytes_append, outBytes_append, hbytes, List.append_assoc, List.append_assoc, hmove]

/-! ## What only a put changes -/

/-- The limits, the marks and the nodes there are. -/
def PKTQueue.fixed (q : PKTQueue) : Int × Int × Bool × Bool × Nat :=
  (q.maxBufSize, q.forbiddenSize, q.full, q.exit, q.brk)

theorem recycleHead_fixed (q : PKTQueue) : (recycleHead q).fixed = q.fixed := by
  unfold recycleHead
  split <;> rfl

theorem readLoop_fixed {v' : ReadVars} (hloop : readLoop fuel v = some v') : v'.q.fixed = v.q.fixed := by
  induction fuel generalizing v with
  | zero => cases hloop
  | succ fuel ih =>
    obtain ⟨w, hround, hrest⟩ := Option.bind_eq_some_iff.mp hloop
    have hw : w.q.fixed = v.q.fixed := by
      obtain ⟨node, -, rfl⟩ := Option.map_eq_some_iff.mp hround
      rw [apply_ite PKTQueue.fixed, recycleHead_fixed, ite_self]
      rfl
    split at hrest
    · exact (ih hrest).trans hw
    · exact Option.some.inj hrest ▸ hw

theorem clearLoop_fixed (hloop : clearLoop fuel q = some (q', bs)) :
    q'.fixed = q.fixed := by
  induction fuel generalizing q bs with
  | zero =>
    unfold clearLoop at hloop
    split at hloop <;> cases hloop
    rfl
  | succ fuel ih =>
    unfold clearLoop at hloop
    split at hloop
    · cases hloop
      rfl
    · obtain ⟨r, hr, heq⟩ := Option.map_eq_some_iff.mp hloop
      cases heq
      exact (ih hr).trans (recycleHead_fixed q)

/-- **Reading, getting and clearing change neither limits nor marks.** -/
theorem step_fixed {op : Op} (hop : ∀ pkt mallocOk, op ≠ .put pkt mallocOk)
    (hstep : step q op = some (q', es)) : q'.fixed = q.fixed := by
  cases op with
  | put pkt mallocOk => exact absurd rfl (hop pkt mallocOk)
  | read len =>
    simp only [step, pktqRead] at hstep
    split_ifs at hstep
    · cases hstep
      rfl
    · cases hstep
      rfl
    · obtain ⟨v, hloop, heq⟩ := Option.map_eq_some_iff.mp hstep
      cases heq
      exact readLoop_fixed hloop
    · cases hstep
      rfl
  | get =>
    simp only [step, pktqGetPkt, Option.some.injEq] at hstep
    split at hstep
    · cases hstep
      rfl
    · split at hstep
      · cases hstep
        rfl
      · cases hstep
        exact recycleHead_fixed q
  | clear =>
    obtain ⟨r, hloop, heq⟩ := Option.map_eq_some_iff.mp hstep
    cases heq
    exact clearLoop_fixed hloop

end HiSTB.Pktq
