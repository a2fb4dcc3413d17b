import HiSTB.Pktq.Correctness.Packets

/-!
# `Pktq.Correctness.Fifo` — the packet queue is a byte queue

* `FifoOk` — the lists are linked, the counters are their sums and lengths, and what was accepted is what was handed
  out followed by what is still there;
* `run_fifo` — the runs that keep it: those in which `cur_buf_size` does not wrap.
-/

namespace HiSTB.Pktq

open Lib LinkedQueue

variable {q : PKTQueue}

variable {es gs : List Event}

/-- The packet put, if any, is unread. -/
def FreshPut (_ : PKTQueue) : Op → Prop
  | .put (some pkt) _ => pkt.rdIdx = 0
  | _ => True

instance (q : PKTQueue) (op : Op) : Decidable (FreshPut q op) := by
  unfold FreshPut
  split <;> infer_instance

/-- Every further call returns; the fill and free lists are properly linked from head to tail; `nb_fill_node` and
    `nb_free_node` are their lengths; `data_size` and `cur_buf_size` are the sums over the fill list; and the
    accepted bytes, in put order, are exactly the bytes handed out, in call order and counting those thrown
    away by `pktq_clear`, followed by the unread bytes of the fill list. -/
def FifoOk (q : PKTQueue) (es : List Event) : Prop :=
  (∀ op, FreshPut q op → ∃ r, step q op = some r) ∧
    ∃ fl fr, IsQueue q.next q.fill fl ∧ IsQueue q.next q.free fr ∧ (∀ a ∈ fl, a ∉ fr) ∧
      q.nbFillNode = fl.length ∧ q.nbFreeNode = fr.length ∧
      q.dataSize = (fl.map (fun a => (q.pkt a).dataSize)).sum ∧
      q.curBufSize = (fl.map (fun a => (q.pkt a).bufSize)).sum ∧
      acceptedBytes es = outBytes es ++ pending q fl

/-- The unread bytes are at most the bytes of the buffers. -/
theorem sum_dataSize_le {ps : List DataPacket} (h : ∀ p ∈ ps, p.Valid) :
    0 ≤ (ps.map DataPacket.dataSize).sum ∧ (ps.map DataPacket.dataSize).sum ≤ (ps.map DataPacket.bufSize).sum := by
  induction ps with
  | nil => exact ⟨le_refl _, le_refl _⟩
  | cons p ps ih =>
    obtain ⟨_, hpos, hle, _⟩ := h p List.mem_cons_self
    obtain ⟨hpos', hle'⟩ := ih (fun r hr => h r (List.mem_cons_of_mem _ hr))
    simp only [List.map_cons, List.sum_cons]
    omega

/-- **With room for every put, the queue is a byte queue.** -/
theorem run_room {m f : Int} {ops : List Op} (h : Run step Room (pktqCreate m f) ops q es) :
    FifoOk q es := by
  have hr := run_inRange h
  have hwhole := Whole.of_run h
  obtain ⟨bs, hholds, hbytes⟩ := run_holds h
  constructor
  · intro op _
    obtain ⟨q', fs, _, hstep, _⟩ := step_ok hholds op
    exact ⟨(q', fs), hstep⟩
  · obtain ⟨fl, fr, hlists, hd, rfl⟩ := hholds
    have hcount := hlists.count
    have hbrk := hr.brk
    have hsize := hr.size
    have hsizes := sum_dataSize_le hwhole.valid
    have hlevel := hr.curBufSize hwhole
    unfold PKTQueue.size at hsize hlevel
    rw [packets_eq hlists, List.map_map, List.map_map] at hsizes
    rw [packets_eq hlists, List.map_map] at hsize hlevel
    refine ⟨fl, fr, hlists.fill, hlists.free, hlists.disj, ?_, ?_, ?_, hlevel, hbytes⟩
    · rw [hlists.nbFill]
      exact int32_of_range (by omega) (by omega)
    · rw [hlists.nbFree]
      exact int32_of_range (by omega) (by omega)
    · rw [hd]
      exact int32_of_range (show _ ≤ (fl.map (DataPacket.dataSize ∘ q.pkt)).sum by omega)
        (show (fl.map (DataPacket.dataSize ∘ q.pkt)).sum < _ by omega)

/-- Then `cur_buf_size` is the size of the queue. -/
theorem FifoOk.curBufSize (hok : FifoOk q gs) (h : Whole q) : q.curBufSize = q.size := by
  obtain ⟨-, fl, fr, hfill, -, -, -, -, -, hsum, -⟩ := hok
  obtain ⟨fl', fr', hlists, -⟩ := h
  rw [hsum, hfill.chain.unique hlists.fill.chain, PKTQueue.size, packets_eq hlists, List.map_map]
  rfl

/-- A put without room leaves a counter that is not the sum. -/
theorem not_fifoOk {q' : PKTQueue} {op : Op} (hr : InRange q) (h : Whole q)
    (hroom : ¬ Room q op) (hstep : step q op = some (q', es)) : ¬ FifoOk q' gs := by
  intro hok
  have h' := h.step hstep
  cases op with
  | put pkt mallocOk =>
    cases pkt with
    | none => exact hroom trivial
    | some pkt =>
      obtain ⟨htake, hover⟩ := Classical.not_imp.mp hroom
      -- the size is more than an `int`, and the counter is one
      have hlt := int32_lt q'.size
      rw [← h'.curBufSize, hok.curBufSize h', put_size h hstep, if_pos htake, ← hr.curBufSize h] at hlt
      exact hover hlt
  | read len => exact hroom trivial
  | get => exact hroom trivial
  | clear => exact hroom trivial

/-- **When the packet queue is a byte queue.** In a run of calls, puts being of unread packets, the queue is one in
    every state, if and only if no put that is taken lifts `cur_buf_size` out of `int`. -/
theorem run_fifo {maxBufSize forbiddenSize : Int} {ops : List Op} {es : List Event}
    (h : Run step FreshPut (pktqCreate maxBufSize forbiddenSize) ops q es) :
    (∀ ops' q' es', ops' <+: ops → Run step FreshPut (pktqCreate maxBufSize forbiddenSize) ops' q' es' →
        FifoOk q' es') ↔
      Run step Room (pktqCreate maxBufSize forbiddenSize) ops q es := by
  have halong := Run.iff_along (C := Room) (P := fun _ q es => FifoOk q es) run_room
    (fun i t fs hrun hroom hnext => not_fifoOk (run_inRange hrun) (Whole.of_run hrun) hroom hnext)
    (h.mono (fun _ _ _ => trivial))
  rw [← halong]
  constructor
  · intro hok ops' q' es' hpre hrun
    obtain ⟨t, fs, hfresh⟩ := h.of_prefix hpre
    obtain ⟨rfl, rfl⟩ := hfresh.det hrun
    exact hok _ _ _ hpre hfresh
  · exact fun hok ops' q' es' hpre hrun => hok ops' q' es' hpre (hrun.mono (fun _ _ _ => trivial))

/-- A packet of `n` bytes `b`. -/
def packetOf (n : Nat) (b : BYTE) : DataPacket := ⟨fun _ => b, n, n + 1, 0⟩

/-- Three packets, the second one empty; a read that ends inside the last, and a get of the rest. -/
theorem run_fifo_partial_read :
    ∃ q es, Run step FreshPut (pktqCreate 0 0)
        [.put (some (packetOf 2 1)) true, .put (some (packetOf 0 2)) true,
          .put (some (packetOf 3 3)) true, .read 4, .get] q es ∧
      acceptedBytes es = [1, 1, 3, 3, 3] ∧ outBytes es = [1, 1, 3, 3, 3] ∧ FifoOk q es := by
  have hroom := exists_run_of_exec step Room (pktqCreate 0 0)
    [.put (some (packetOf 2 1)) true, .put (some (packetOf 0 2)) true,
      .put (some (packetOf 3 3)) true, .read 4, .get] (fun _ => true) (by decide)
  obtain ⟨t, fs, hroom, -⟩ := hroom
  obtain ⟨q, es, hrun, htest⟩ := exists_run_of_exec step FreshPut (pktqCreate 0 0)
    [.put (some (packetOf 2 1)) true, .put (some (packetOf 0 2)) true,
      .put (some (packetOf 3 3)) true, .read 4, .get]
    (fun r => decide (acceptedBytes r.2 = [1, 1, 3, 3, 3]) && decide (outBytes r.2 = [1, 1, 3, 3, 3])) (by decide)
  obtain ⟨hacc, hout⟩ := Bool.and_eq_true_iff.mp htest
  obtain ⟨rfl, rfl⟩ := hroom.det hrun
  exact ⟨t, fs, hrun, of_decide_eq_true hacc, of_decide_eq_true hout,
    (run_fifo hrun).mpr hroom _ _ _ (List.prefix_refl _) hrun⟩

/-- A packet of one byte in a buffer of 1 GiB. -/
def hugePacket : DataPacket := ⟨fun _ => 0, 1, 0x40000000, 0⟩

/-- **Two buffers of 1 GiB** in a queue without a limit: `cur_buf_size` is negative. -/
theorem run_fifo_wraps :
    ∃ q es, Run step FreshPut (pktqCreate 0 0) [.put (some hugePacket) true, .put (some hugePacket) true] q es ∧
      q.curBufSize = -0x80000000 ∧ ¬ FifoOk q es := by
  refine exists_run_imp (fun q _ => q.curBufSize = -0x80000000) (by decide) fun q es hrun hwrap => ⟨hwrap, ?_⟩
  intro hok
  have hpos := (Whole.of_run hrun).size_nonneg
  rw [← hok.curBufSize (Whole.of_run hrun), hwrap] at hpos
  exact absurd hpos (by decide)

end HiSTB.Pktq
