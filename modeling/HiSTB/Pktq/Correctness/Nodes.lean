import Mathlib.Data.List.Perm.Subperm
import HiSTB.Pktq.Correctness.Packets

/-!
# `Pktq.Correctness.Nodes` — no node is lost

* `destroyFill_eq`, `destroyFree_eq` — the loops of `pktq_destroy`;
* `run_destroy` — after any run, it frees each node once.
-/

namespace HiSTB.Pktq

open Lib LinkedQueue

variable {q : PKTQueue} {fl : List Nat}

variable {fuel : Nat}

/-- The first loop of `pktq_destroy` takes the packets from the counters. -/
theorem destroyFill_eq (fuel : Nat) {rest : List Nat} (h : Chain q.next q.fill.head fl) (hfuel : fl.length ≤ fuel)
    (hnb : q.nbFillNode = int32 fl.length) (hbuf : q.curBufSize = int32 (fl.map (fun a => (q.pkt a).bufSize)).sum)
    (hdata : q.dataSize = int32 (fl.map (fun a => (q.pkt a).dataSize)).sum) (hfree : Chain q.next q.free.head rest) :
    ∃ t, destroyFill fuel q = some (t, fl) ∧ t.nbFillNode = 0 ∧ t.curBufSize = 0 ∧ t.dataSize = 0 ∧
      t.nbFreeNode = q.nbFreeNode ∧ Chain t.next t.free.head rest := by
  induction fl generalizing fuel q with
  | nil =>
    have hnone : q.fill.head = none := h
    refine ⟨q, ?_, hnb, hbuf, hdata, rfl, hfree⟩
    unfold destroyFill
    rw [hnone]
  | cons a fl ih =>
    obtain ⟨hhead, hrest⟩ := h
    cases fuel with
    | zero => cases hfuel
    | succ fuel =>
      unfold destroyFill
      rw [hhead]
      dsimp only
      rw [List.map_cons, List.sum_cons] at hbuf hdata
      obtain ⟨t, ht, hall⟩ := ih fuel (q := { q with
          fill := { q.fill with head := q.next a }
          curBufSize := int32 (q.curBufSize - (q.pkt a).bufSize)
          dataSize := int32 (q.dataSize - (q.pkt a).dataSize)
          nbFillNode := int32 (q.nbFillNode - 1) }) hrest (Nat.le_of_succ_le_succ hfuel)
        (show int32 (q.nbFillNode - 1) = _ by rw [hnb]; exact int32_succ_sub _)
        (hbuf ▸ int32_add_sub _ _)
        (hdata ▸ int32_add_sub _ _) hfree
      exact ⟨t, by rw [ht]; rfl, hall⟩

/-- The second loop takes the free nodes from theirs. -/
theorem destroyFree_eq (fuel : Nat) (h : Chain q.next q.free.head fl) (hfuel : fl.length ≤ fuel)
    (hnb : q.nbFreeNode = int32 fl.length) :
    ∃ t, destroyFree fuel q = some (t, fl) ∧ t.nbFreeNode = 0 ∧ t.nbFillNode = q.nbFillNode ∧
      t.curBufSize = q.curBufSize ∧ t.dataSize = q.dataSize := by
  induction fl generalizing fuel q with
  | nil =>
    have hnone : q.free.head = none := h
    refine ⟨q, ?_, hnb, rfl, rfl, rfl⟩
    unfold destroyFree
    rw [hnone]
  | cons a fl ih =>
    obtain ⟨hhead, hrest⟩ := h
    cases fuel with
    | zero => cases hfuel
    | succ fuel =>
      unfold destroyFree
      rw [hhead]
      dsimp only
      obtain ⟨t, ht, hall⟩ := ih fuel (q := { q with
          free := { q.free with head := q.next a }
          nbFreeNode := int32 (q.nbFreeNode - 1) }) hrest (Nat.le_of_succ_le_succ hfuel)
        (show int32 (q.nbFreeNode - 1) = _ by rw [hnb]; exact int32_succ_sub _)
      exact ⟨t, by rw [ht]; rfl, hall⟩

/-- **Nothing leaks.** After any run, `pktq_destroy` ends, frees each node that was allocated once, and logs zeros, also
    where the counters have wrapped. -/
theorem run_destroy {maxBufSize forbiddenSize : Int} {ops : List Op} {es : List Event}
    (h : Run step always (pktqCreate maxBufSize forbiddenSize) ops q es) :
    ∃ t frees, pktqDestroy q = some (t, frees) ∧ frees.Perm (List.range q.brk) ∧
      t.nbFillNode = 0 ∧ t.nbFreeNode = 0 ∧ t.curBufSize = 0 ∧ t.dataSize = 0 := by
  obtain ⟨fl, fr, hl, hd⟩ := Whole.of_run h
  have hcount := hl.count
  obtain ⟨r, hr, hfill, hbuf, hdata, hfree, hchain⟩ := destroyFill_eq q.brk
    (q := (pktqPutPkt q none true).1) hl.fill.chain (by omega) hl.nbFill hl.buf hd hl.free.chain
  obtain ⟨t, ht, htfree, htfill, htbuf, htdata⟩ := destroyFree_eq q.brk hchain (by omega)
    (hfree.trans hl.nbFree)
  refine ⟨t, fl ++ fr, Option.bind_eq_some_iff.mpr ⟨_, hr, Option.map_eq_some_iff.mpr ⟨_, ht, rfl⟩⟩, ?_,
    htfill.trans hfill, htfree, htbuf.trans hbuf, htdata.trans hdata⟩
  -- the nodes of the lists are different, and as many as were allocated
  have hnodup : (fl ++ fr).Nodup :=
    List.nodup_append.mpr ⟨hl.fill.nodup, hl.free.nodup, fun a ha _ hb heq => hl.disj a ha (heq ▸ hb)⟩
  have hsub : fl ++ fr ⊆ List.range q.brk := by
    intro a ha
    exact List.mem_range.mpr ((List.mem_append.mp ha).elim (hl.fillLt a) (hl.freeLt a))
  apply (hnodup.subperm hsub).perm_of_length_le
  rw [List.length_range, List.length_append]
  exact le_of_eq hcount.symm

/-- Two packets, of which one is taken off. -/
theorem run_destroy_two_packets :
    ∃ q es, Run step always (pktqCreate 100 0)
      [.put (some ⟨fun _ => 1, 3, 4, 0⟩) true, .put (some ⟨fun _ => 7, 2, 3, 0⟩) true, .get] q es ∧
      ∃ t frees, pktqDestroy q = some (t, frees) ∧ frees.Perm (List.range q.brk) ∧
        t.nbFillNode = 0 ∧ t.nbFreeNode = 0 ∧ t.curBufSize = 0 ∧ t.dataSize = 0 := by
  exact exists_run_imp (fun _ _ => True) (by decide) fun _ _ hrun _ => run_destroy hrun

end HiSTB.Pktq
