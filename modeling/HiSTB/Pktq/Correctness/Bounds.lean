import HiSTB.Pktq.Correctness.Packets

/-!
# `Pktq.Correctness.Bounds` — when the unread bytes lie inside the packet's buffer

`pktq_put_pkt` checks `data_size` as if it counted the bytes of the buffer from its start, and wants `rd_idx` below it.
`pktq_read` counts with it the bytes that are left behind `rd_idx`, and lowers it as it reads. The two agree on packets
whose read index is 0.

* `Safe` — packets in bounds, reads inside them, and a first packet that may be put again;
* `run_inBounds_iff` — the runs that stay safe.
-/

namespace HiSTB.Pktq

open Lib LinkedQueue

variable {q q' : PKTQueue} {fl fr : List Nat}

variable {pkt : DataPacket} {c : Int} {op : Op} {es : List Event}

/-! ## The bounds -/

/-- The bytes to read are inside the buffer. -/
def DataPacket.InBounds (pkt : DataPacket) : Prop := 0 ≤ pkt.rdIdx ∧ pkt.rdIdx + pkt.dataSize ≤ pkt.bufSize

/-- The `memcpy` calls in the loop of `pktq_read`: the packet as it was, and `cplen`. -/
def copies : Nat → ReadVars → List (DataPacket × Int)
  | 0, _ => []
  | fuel + 1, v =>
    match v.q.fill.head, readRound v with
    | some node, some v' =>
      let pkt := v.q.pkt node
      (pkt, if pkt.dataSize > v.left then v.left else pkt.dataSize) ::
        if v'.left > 0 ∧ v'.q.dataSize > 0 then copies fuel v' else []
    | _, _ => []

/-- A `memcpy` reads from the packet's buffer. -/
def CopyOk (x : DataPacket × Int) : Prop := 0 ≤ x.1.rdIdx ∧ 0 ≤ x.2 ∧ x.1.rdIdx + x.2 ≤ x.1.bufSize

/-- **With all packets in bounds, every `memcpy` of a read is.** -/
theorem copies_ok {fuel : Nat} {v : ReadVars} (h : Lists v.q fl fr) (hd : DataOk v.q fl)
    (hbounds : ∀ p ∈ fl.map v.q.pkt, p.InBounds) (hleft : 0 < v.left) : ∀ x ∈ copies fuel v, CopyOk x := by
  induction fuel generalizing v fl fr with
  | zero => exact fun x hx => absurd hx List.not_mem_nil
  | succ fuel ih =>
    intro x hx
    unfold copies at hx
    cases fl with
    | nil =>
      rw [h.fill.head_eq_none.mpr rfl] at hx
      exact absurd hx List.not_mem_nil
    | cons a fl =>
      obtain ⟨v', fl', fr', hround, hlists, hdata, _, _, hcase⟩ := readRound_ok h hd hleft
      rw [h.fill.chain.1, hround] at hx
      rcases List.mem_cons.mp hx with rfl | hx
      · -- the copy of this round is at most what is left of the packet
        have hself := hbounds (v.q.pkt a) (List.mem_map_of_mem List.mem_cons_self)
        have hvalid := (h.valid a List.mem_cons_self).dataSize
        obtain ⟨hpos, hend⟩ := hself
        unfold CopyOk
        dsimp only
        split <;> omega
      · split at hx
        · rename_i hmore
          refine ih hlists hdata ?_ hmore.1 x hx
          rcases hcase with ⟨_, rfl, _, hmap⟩ | ⟨_, _, hdone, _⟩
          · rw [hmap]
            exact fun p hp => hbounds p (List.mem_cons_of_mem _ hp)
          · exact absurd hmore.1 (by omega)
        · exact absurd hx List.not_mem_nil

/-- The packet that `pktq_get_pkt` would hand out. -/
def PKTQueue.first (q : PKTQueue) : Option DataPacket := if q.exit then none else q.fill.head.map q.pkt

theorem first_eq (h : Whole q) : q.first = if q.exit then none else q.packets.head? := by
  obtain ⟨fl, fr, hlists, _⟩ := h
  unfold PKTQueue.first
  rw [packets_eq hlists]
  cases fl with
  | nil => rw [hlists.fill.head_eq_none.mpr rfl]; rfl
  | cons a fl => rw [hlists.fill.chain.1]; rfl

/-- The packets are in bounds, a read stays in them, and a packet that is got may be put again. -/
structure Safe (q : PKTQueue) : Prop where
  bounds : ∀ p ∈ q.packets, p.InBounds
  memcpy : ∀ len, Reads q len → ∀ x ∈ copies q.brk ⟨q, [], len⟩, CopyOk x
  again : ∀ p, q.first = some p → putValid p = true

/-- A put takes a packet only with its `data_size` bytes behind `rd_idx` in the buffer, and a read that ends inside a
    packet leaves more bytes of it than lie before its read index. -/
def Fits (q : PKTQueue) : Op → Prop
  | .put (some pkt) mallocOk => putValid pkt = true ∧ CanTake q mallocOk → pkt.rdIdx + pkt.dataSize ≤ pkt.bufSize
  | .read len => Reads q len → ∀ x ∈ (splits len q.packets).toList, x.1.rdIdx + x.2 < x.1.dataSize - x.2
  | _ => True

instance (q : PKTQueue) : (op : Op) → Decidable (Fits q op)
  | .put (some _) _ => inferInstanceAs (Decidable (_ ∧ _ → _))
  | .read len => inferInstanceAs (Decidable (Reads q len → ∀ x ∈ (splits len q.packets).toList, _))
  | .put none _ => isTrue trivial
  | .get => isTrue trivial
  | .clear => isTrue trivial

/-- Every packet of the queue is in bounds and valid. -/
def Good (q : PKTQueue) : Prop := ∀ p ∈ q.packets, p.InBounds ∧ putValid p = true

theorem advance_inBounds (h : pkt.InBounds) (hc : 0 < c) : (pkt.advance c).InBounds := by
  obtain ⟨hpos, hend⟩ := h
  unfold DataPacket.advance DataPacket.InBounds
  dsimp only
  omega

/-- **The validator's view of a packet that was read in part.** -/
theorem putValid_advance (h : putValid pkt = true) (hc : 0 < c) (hcp : c < pkt.dataSize) :
    putValid (pkt.advance c) = true ↔ pkt.rdIdx + c < pkt.dataSize - c := by
  unfold putValid at h ⊢
  simp only [Bool.not_eq_true', Bool.or_eq_false_iff, Bool.and_eq_false_iff, decide_eq_false_iff_not] at h ⊢
  unfold DataPacket.advance
  dsimp only
  omega

theorem Good.safe (hg : Good q) (h : Whole q) : Safe q := by
  refine ⟨fun p hp => (hg p hp).1, ?_, ?_⟩
  · intro len hreads
    obtain ⟨fl, fr, hlists, hd⟩ := h
    refine copies_ok hlists hd (fun p hp => ?_) hreads.1
    rw [← packets_eq hlists] at hp
    exact (hg p hp).1
  · intro p hp
    rw [first_eq h] at hp
    split at hp
    · cases hp
    · exact (hg p (List.mem_of_mem_head? hp)).2

/-- **A call that fits keeps the packets good.** -/
theorem step_good (hg : Good q) (h : Whole q) (hfits : Fits q op)
    (hstep : step q op = some (q', es)) : Good q' := by
  cases op with
  | put pkt mallocOk =>
    cases pkt with
    | none =>
      cases hstep
      exact hg
    | some pkt =>
      unfold Good
      rw [put_packets h hstep]
      split
      · rename_i htake
        intro p hp
        rcases List.mem_append.mp hp with hp | hp
        · exact hg p hp
        · obtain rfl := List.mem_singleton.mp hp
          exact ⟨⟨(putValid_valid htake.1).rdIdx, hfits htake⟩, htake.1⟩
      · exact hg
  | read len =>
    unfold Good
    rw [read_packets h hstep]
    split
    · rename_i hreads
      rcases readPackets_cases q.packets hreads.1 with ⟨_, us, hus⟩ | ⟨us, p, c, vs, hsome, hus, hread, hc, hcp⟩
      · intro p hp
        exact hg p (hus ▸ List.mem_append_right us hp)
      · rw [hread]
        intro r hr
        rcases List.mem_cons.mp hr with rfl | hr
        · obtain ⟨hbounds, hvalid⟩ := hg p (by rw [hus]; simp)
          have hless := hfits hreads (p, c) (by rw [hsome]; simp)
          exact ⟨advance_inBounds hbounds hc, (putValid_advance hvalid hc hcp).mpr hless⟩
        · exact hg r (by rw [hus]; simp [hr])
    · exact hg
  | get =>
    obtain ⟨us, hus⟩ := get_packets h hstep
    intro p hp
    exact hg p (hus ▸ List.mem_append_right us hp)
  | clear =>
    unfold Good
    rw [clear_packets h hstep]
    exact fun p hp => absurd hp List.not_mem_nil

/-- **A call that does not fit breaks the bounds or the way back.** -/
theorem step_unsafe (hg : Good q) (h : Whole q) (hfits : ¬ Fits q op)
    (hstep : step q op = some (q', es)) : ¬ Safe q' := by
  intro hsafe
  cases op with
  | put pkt mallocOk =>
    cases pkt with
    | none => exact hfits trivial
    | some pkt =>
      obtain ⟨htake, hend⟩ := Classical.not_imp.mp hfits
      refine hend (hsafe.bounds pkt ?_).2
      rw [put_packets h hstep, if_pos htake]
      simp
  | read len =>
    obtain ⟨hreads, hless⟩ := Classical.not_imp.mp hfits
    have hpackets := read_packets h hstep
    rw [if_pos hreads] at hpackets
    rcases readPackets_cases q.packets hreads.1 with ⟨hnone, _⟩ | ⟨us, p, c, vs, hsome, hus, hread, hc, hcp⟩
    · refine hless (fun x hx => ?_)
      rw [hnone] at hx
      exact absurd hx List.not_mem_nil
    · -- the packet stays in front, and the validator refuses it
      have hvalid := (hg p (by rw [hus]; simp)).2
      refine hless (fun x hx => ?_)
      rw [hsome] at hx
      obtain rfl := List.mem_singleton.mp hx
      refine (putValid_advance hvalid hc hcp).mp (hsafe.again _ ?_)
      have hexit : q'.exit = q.exit := congrArg (·.2.2.2.1) (step_fixed (fun _ _ hop => by cases hop) hstep)
      rw [first_eq (h.step hstep), hpackets, hread, hexit, if_neg (by simp [hreads.2.1])]
      rfl
  | get => exact hfits trivial
  | clear => exact hfits trivial

/-! ## Runs -/

theorem create_good (m f : Int) : Good (pktqCreate m f) := fun _ hp => absurd hp List.not_mem_nil

theorem run_good {m f : Int} {ops : List Op} (h : Run step Fits (pktqCreate m f) ops q es) :
    Good q := by
  induction h with
  | nil => exact create_good m f
  | snoc hrun hfits hnext ih => exact step_good ih (Whole.of_run hrun) hfits hnext

/-- **When the unread bytes stay inside the buffers.** In a run of calls every state has its packets in bounds, every
    `memcpy` of a read inside the packet's buffer, and a first packet that `pktq_put_pkt` accepts again, if and only if
    every call of the run fits. -/
theorem run_inBounds_iff {m f : Int} {ops : List Op} {es : List Event} (h : Run step always (pktqCreate m f) ops q es) :
    (∀ ops' q' es', ops' <+: ops → Run step always (pktqCreate m f) ops' q' es' → Safe q') ↔
      Run step Fits (pktqCreate m f) ops q es := by
  refine Run.iff_along (P := fun _ q _ => Safe q) ?_ ?_ h
  · exact fun hrun => (run_good hrun).safe (Whole.of_run hrun)
  · intro ops q es op q' fs hrun hfits hnext
    exact step_unsafe (run_good hrun) (Whole.of_run hrun) hfits hnext

/-- A packet of `n` bytes from `r` on in a buffer of `size`. -/
def packetAt (n size r : Int) : DataPacket := ⟨fun _ => 0, n, size, r⟩

/-- Six bytes in a buffer of eight, of which a read takes two. -/
theorem run_inBounds_two_of_six :
    ∃ q es, Run step always (pktqCreate 0 0) [.put (some (packetAt 6 8 0)) true, .read 2] q es ∧
      ∀ ops' q' es', ops' <+: [.put (some (packetAt 6 8 0)) true, .read 2] →
        Run step always (pktqCreate 0 0) ops' q' es' → Safe q' := by
  obtain ⟨q, es, hrun, -⟩ := exists_run_of_exec step Fits (pktqCreate 0 0)
    [.put (some (packetAt 6 8 0)) true, .read 2] (fun _ => true) (by decide)
  have halways := hrun.mono (D := always) (fun _ _ _ => trivial)
  exact ⟨q, es, halways, (run_inBounds_iff halways).mpr hrun⟩

/-- **The two ways it breaks.** A packet with ten bytes to read from index 5 of a buffer of ten passes the validation,
    and is then on the fill list and copied from beyond the end of its buffer. And of a packet of four bytes, half of
    them read, what is got does not pass the validation again. -/
theorem validator_and_reader_disagree :
    (∃ q es, Run step always (pktqCreate 0 0) [.put (some (packetAt 10 10 5)) true] q es ∧
      putValid (packetAt 10 10 5) = true ∧ (∃ p ∈ q.packets, ¬ p.rdIdx + p.dataSize ≤ p.bufSize) ∧
      ∃ x ∈ copies q.brk ⟨q, [], 10⟩, ¬ x.1.rdIdx + x.2 ≤ x.1.bufSize) ∧
    ∃ q es, Run step always (pktqCreate 0 0) [.put (some (packetAt 4 4 0)) true, .read 2] q es ∧
      ∃ p, q.first = some p ∧ putValid p = false := by
  constructor
  · refine exists_run_imp (fun q _ => putValid (packetAt 10 10 5) &&
        q.packets.any (fun p => decide (¬ p.rdIdx + p.dataSize ≤ p.bufSize)) &&
        (copies q.brk ⟨q, [], 10⟩).any (fun x => decide (¬ x.1.rdIdx + x.2 ≤ x.1.bufSize)))
      (by decide) fun _ _ _ htest => ?_
    simp only [Bool.and_eq_true, List.any_eq_true, decide_eq_true_eq] at htest
    exact ⟨htest.1.1, htest.1.2, htest.2⟩
  · refine exists_run_imp (fun q _ => q.first.any (fun p => !putValid p)) (by decide) fun _ _ _ htest => ?_
    simp only [Option.any_eq_true, Bool.not_eq_true'] at htest
    exact htest

end HiSTB.Pktq
