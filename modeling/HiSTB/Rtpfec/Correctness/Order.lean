import HiSTB.Rtpfec.Correctness.Owners

/-!
# `Rtpfec.Correctness.Order` — slots are read out in sequence order

While FEC stays on, the place where the oldest group is read next (`front`) moves forward by one slot with
every visit and otherwise stays where it is, so the slots are visited group by group and slot by slot:

* `round_advances` — one round;
* `readRun_in_order` — runs: the `k`-th visit is slot `(m + k) % K` of the `(m + k) / K`-th group, and received slots
  hand over their packets, as long as nothing is written past a slot;
* `payload_overwritten` — a packet longer than its slot is written over the next one.
-/

namespace HiSTB.Rtpfec

open Fec Lib

variable {st : State} {start : Int} {m : Nat}

/-- Reading has advanced by `n` slots from slot `m` of the group at `start`, in groups of `K`. -/
def At (start : Int) (m K n : Nat) (s : RTPFECContext) : Prop :=
  ∃ q r : Nat, front s.groups = some ((start + q * K) % 0x10000, r) ∧ q * K + r = m + n

/-- The `n`-th slot from slot `m` of the group at `start`: its group's start and its index. -/
def slotAt (start : Int) (m K n : Nat) : Int × Nat :=
  ((start + ((m + n) / K : Nat) * K) % 0x10000, (m + n) % K)

/-- The sequence number of a slot. -/
def slotSeq (v : Int × Nat) : Int := (v.1 + v.2) % 0x10000

/-- The sequence numbers of the slots are consecutive. -/
theorem slotSeq_slotAt (start : Int) (m K n : Nat) :
    slotSeq (slotAt start m K n) = (start + (m + n : Nat)) % 0x10000 := by
  unfold slotSeq slotAt
  have hdiv : (m + n) / K * K + (m + n) % K = m + n := Nat.div_add_mod' (m + n) K
  have hcast : ((m + n : Nat) : Int) = ((m + n) / K : Nat) * K + ((m + n) % K : Nat) := by
    rw [← Nat.cast_mul, ← Nat.cast_add, hdiv]
  rw [hcast]
  omega

/-- **One round with FEC on** shows no visit and stays, or visits the slot reading has come to. -/
theorem round_advances {H : Holds} {i : Input} (h : Inv H st.ctx) (ha : Admits H st i)
    (hfec : st.ctx.haveFec = true) {n : Nat}
    (hat : At start m st.ctx.rtpPktNum n st.ctx) :
    (round st i).1.ctx.rtpPktNum = st.ctx.rtpPktNum ∧
      ((visits (round st i).2 = [] ∧ At start m st.ctx.rtpPktNum n (round st i).1.ctx) ∨
        (visits (round st i).2 = [slotAt start m st.ctx.rtpPktNum n] ∧
          At start m st.ctx.rtpPktNum (n + 1) (round st i).1.ctx)) := by
  rcases round_cases h ha with hq | ⟨g, hd, hpos, heq⟩ | ⟨g, hd, hpos, heq⟩
  · refine ⟨congrArg Geometry.dataPktNum (hq.geometry hfec), Or.inl ⟨hq.visits, ?_⟩⟩
    unfold At at hat ⊢
    rw [hq.front hfec]
    exact hat
  · -- release: the next group is there, because one is being filled, and starts where this one ends
    rw [heq]
    refine ⟨rfl, Or.inl ⟨rfl, ?_⟩⟩
    obtain ⟨dl, hdl⟩ := h.downLoading hfec
    obtain ⟨q, r, hfront, hsum⟩ := hat
    have hgs := groups_done hd
    have hok := hgs ▸ h.groups
    obtain ⟨g', rest, hrest⟩ : ∃ g' rest,
        st.ctx.groupCheckMiss.toList ++ st.ctx.groupDownLoading.toList = g' :: rest := by
      rw [hdl]
      cases st.ctx.groupCheckMiss with
      | none => exact ⟨dl, [], rfl⟩
      | some cm => exact ⟨cm, [dl], rfl⟩
    have hgs' : RTPFECContext.groups { st.ctx with groupDone := none } = g' :: rest := hrest
    rw [hrest] at hok hgs
    have hfollows := (List.isChain_cons_cons.mp hok.chain).1
    have hend := (hok.ok g List.mem_cons_self).seqEnd
    rw [hgs, front, List.head?_cons, Option.map_some, Option.some.injEq, Prod.mk.injEq] at hfront
    obtain ⟨hstart, hr⟩ := hfront
    refine ⟨q + 1, 0, ?_, ?_⟩
    · show front (RTPFECContext.groups { st.ctx with groupDone := none }) = _
      rw [hgs', front, List.head?_cons, Option.map_some, hfollows.1, hfollows.2, hend, hstart]
      congr 2
      rw [show ((q + 1 : Nat) : Int) * st.ctx.rtpPktNum
        = (q : Int) * st.ctx.rtpPktNum + st.ctx.rtpPktNum by push_cast; ring]
      omega
    · rw [Nat.add_mul]
      omega
  · -- visit
    rw [heq]
    refine ⟨rfl, Or.inr ?_⟩
    obtain ⟨q, r, hfront, hsum⟩ := hat
    obtain ⟨hpstart, _, hpread, _⟩ := passSlot_fields g i.around.rtp i.parseKeeps
    rw [groups_done hd, front, List.head?_cons, Option.map_some, Option.some.injEq, Prod.mk.injEq] at hfront
    obtain ⟨hstart, hr⟩ := hfront
    have hdiv : (m + n) / st.ctx.rtpPktNum = q := by
      rw [← hsum, Nat.add_comm, Nat.add_mul_div_right _ _ (by omega), Nat.div_eq_of_lt (by omega)]
      omega
    have hmod : (m + n) % st.ctx.rtpPktNum = r := by
      rw [← hsum, Nat.add_comm, Nat.add_mul_mod_self_right, Nat.mod_eq_of_lt (by omega)]
    constructor
    · unfold slotAt
      rw [hdiv, hmod, ← hstart, ← hr]
      rfl
    · refine ⟨q, r + 1, ?_, by omega⟩
      rw [groups_done (s := { st.ctx with groupDone := some (passSlot g i.around.rtp i.parseKeeps) }) rfl, front,
        List.head?_cons, Option.map_some, hpstart, hpread, hstart, hr]

/-- FEC is on when the round begins. -/
def FecOn (st : State) (_ : Input) : Prop := st.ctx.haveFec = true
deriving Decidable

/-- Along a run that keeps FEC on, the visits so far are the first slots from the starting place. -/
theorem fecRun_advances {st' : State} {is : List Input} {es : List Event}
    (h : Run step FecOn st is st' es) (hinv : ∀ {js u gs}, Run step FecOn st js u gs → Inv anything u.ctx)
    (hat : At start m st.ctx.rtpPktNum 0 st.ctx) :
    st'.ctx.rtpPktNum = st.ctx.rtpPktNum ∧
      visits es = (List.range (visits es).length).map (slotAt start m st.ctx.rtpPktNum) ∧
      At start m st.ctx.rtpPktNum (visits es).length st'.ctx := by
  induction h with
  | nil => exact ⟨rfl, rfl, hat⟩
  | snoc hrun hfec hnext ih =>
    rename_i is u es i t fs
    obtain ⟨hK, hvis, hat'⟩ := ih
    have hround := step_eq hnext
    have hadv := round_advances (hinv hrun) (loose_anything.admits u i) hfec (by rw [hK]; exact hat')
    rw [hround, hK] at hadv
    obtain ⟨hK', hcase⟩ := hadv
    refine ⟨hK', ?_⟩
    rw [visits_append]
    rcases hcase with ⟨hnone, hat''⟩ | ⟨hone, hat''⟩
    · rw [hnone, List.append_nil]
      exact ⟨hvis, hat''⟩
    · rw [hone, List.length_append, List.length_singleton, List.range_succ, List.map_append, ← hvis]
      exact ⟨rfl, hat''⟩

/-- FEC is on, and what the round writes fits in its slots. -/
def FecOnFitting (st : State) (i : Input) : Prop := FecOn st i ∧ Fitting st i

/-- **Slots are handed over in sequence order, each once, with the right payload**, in every run whose rounds write
    nothing past a slot. From any state of such a run on and as long as FEC stays on, reading starts at some slot `m`
    of a group at `start`, and the `k`-th slot visited is slot `(m + k) % K` of the `(m + k) / K`-th group from there,
    so its sequence number is `start + m + k` modulo `2^16`. A slot marked as received hands over the payload of a
    received packet with the slot's sequence number, and packets are put into the slot at their distance from the
    group's start. -/
theorem readRun_in_order {is js : List Input} {st st' : State} {es fs : List Event}
    (h : Run step Fitting init is st es) (hfec : st.ctx.haveFec = true) (hrun : Run step FecOnFitting st js st' fs) :
    (∃ start m, front st.ctx.groups = some (start, m) ∧
      visits fs = (List.range (visits fs).length).map (slotAt start m st.ctx.rtpPktNum) ∧
      (visits fs).map slotSeq
        = (List.range (visits fs).length).map (fun k => (start + (m + k : Nat)) % 0x10000)) ∧
      (∀ start slot pl, Event.visit start slot true (some pl) ∈ fs →
        ∃ i ∈ is ++ js, ∃ pkt, i.rtppkt = some pkt ∧ rtpSeq pkt = (start + slot) % 0x10000 ∧
          Carries pkt pl) ∧
      (∀ start index seq done, Event.putRtp start index seq done ∈ fs →
        (index : Int) = (seq - start) % 0x10000) := by
  have hall := fitRun_inv (h.append (hrun.mono (fun _ _ hC => hC.2)))
  refine ⟨?_, ?_, ?_⟩
  · have hreach : ∀ {ks u gs}, Run step FecOn st ks u gs → ReadRun (is ++ ks) u (es ++ gs) :=
      fun hks => (h.mono (fun _ _ _ => trivial)).append (hks.mono (fun _ _ _ => trivial))
    have hinv := (fitRun_inv h).1
    obtain ⟨dl, hdl⟩ := hinv.downLoading hfec
    -- the oldest group exists, and its start is already reduced
    obtain ⟨g, rest, hgs⟩ : ∃ g rest, st.ctx.groups = g :: rest := by
      cases hcase : st.ctx.groups with
      | nil => simp [groups_downLoading hdl] at hcase
      | cons g rest => exact ⟨g, rest, rfl⟩
    have hfront : front st.ctx.groups = some (g.rtpSeqStart, g.pktReadPos) := by
      rw [hgs]
      rfl
    have hgok := hinv.groups.ok g (by rw [hgs]; simp)
    have hat : At g.rtpSeqStart g.pktReadPos st.ctx.rtpPktNum 0 st.ctx := by
      refine ⟨0, g.pktReadPos, ?_, by omega⟩
      rw [hfront, Nat.cast_zero, zero_mul, add_zero, Int.emod_eq_of_lt hgok.nonneg hgok.lt]
    obtain ⟨_, hvis, _⟩ := fecRun_advances (hrun.mono (fun _ _ hC => hC.1)) (fun hks => readRun_inv (hreach hks)) hat
    refine ⟨g.rtpSeqStart, g.pktReadPos, hfront, hvis, ?_⟩
    conv_lhs => rw [hvis]
    rw [List.map_map]
    exact List.map_congr_left (fun k _ => slotSeq_slotAt _ _ _ k)
  · intro start slot pl he
    exact hall.2 _ (List.mem_append_right _ he) rfl pl rfl
  · intro start index seq done he
    exact hall.2 _ (List.mem_append_right _ he)

instance (st : State) (i : Input) : Decidable (FecOnFitting st i) := instDecidableAnd

/-- Packet 11 arrives before packet 10; when packet 12 closes group 10, its slot is visited. -/
theorem readRun_in_order_swapped :
    ∃ st es st' fs, Run step Fitting init fecOn st es ∧
      Run step FecOnFitting st [onRtp 11, onRtp 10, onRtp 12, onIdle, onIdle] st' fs ∧
      (visits fs).map slotSeq = [10] := by
  obtain ⟨st, es, hrun, htest⟩ := exists_run_of_exec step Fitting init fecOn
    (fun r => r.1.ctx.haveFec &&
      (exec step FecOnFitting r.1 [onRtp 11, onRtp 10, onRtp 12, onIdle, onIdle]).any
        (fun q => decide (front r.1.ctx.groups = some (10, 0)) && decide ((visits q.2).length = 1)))
    (by decide)
  obtain ⟨hfec, hany⟩ := Bool.and_eq_true_iff.mp htest
  obtain ⟨st', fs, hrun', htest'⟩ := exists_run_of_exec step FecOnFitting st _ _ hany
  obtain ⟨hfront, hlen⟩ := Bool.and_eq_true_iff.mp htest'
  obtain ⟨⟨start, m, hfront', _, hseq⟩, _⟩ := readRun_in_order hrun hfec hrun'
  rw [of_decide_eq_true hfront, Option.some.injEq, Prod.mk.injEq] at hfront'
  obtain ⟨rfl, rfl⟩ := hfront'
  refine ⟨st, es, st', fs, hrun, hrun', ?_⟩
  rw [hseq, of_decide_eq_true hlen]
  rfl

/-- An RTP packet of 29 bytes for slot 0 of the group at 10, whose slots lie 16 bytes apart. -/
def longOver : Input :=
  { onRtp 10 with
    rtppkt := some { mkRtppkt 10 0x47 with dataSize := 29 }
    around := { apart with past := fun i n => if 3 ≤ n then some ⟨.downLoading, false, i + 1, n - 3⟩ else none } }

/-- Slot 1 of the group at 10 is handed over as received, with a byte that is not packet 11's. -/
def Event.wrong : Event → Bool
  | .visit start slot true (some pl) =>
    decide (start = 10 ∧ slot = 1) && (decide (pl.dataSize = 13) && decide (pl.data 3 ≠ 11))
  | _ => false

/-- **A received slot hands over another packet's bytes**: with slots of 13 bytes, packet 10 is written over packet 11,
    and slot 1 of the group is handed over as received with bytes that no packet 11 has. -/
theorem payload_overwritten :
    ∃ st es st' fs, ReadRun [onRtp 0, onRtp 5, onFec 8 9 2 0 13, onRtp 11] st es ∧ st.ctx.haveFec = true ∧
      Run step FecOn st [longOver, onRtp 12, onRtp 14, onIdle, onIdle] st' fs ∧
      ∃ pl, Event.visit 10 1 true (some pl) ∈ fs ∧ ∀ pkt, rtpSeq pkt = 11 → ¬ Carries pkt pl := by
  obtain ⟨st, es, hrun, htest⟩ := exists_run_of_exec step always init [onRtp 0, onRtp 5, onFec 8 9 2 0 13, onRtp 11]
    (fun r => r.1.ctx.haveFec &&
      (exec step FecOn r.1 [longOver, onRtp 12, onRtp 14, onIdle, onIdle]).any (fun q => q.2.any Event.wrong))
    (by decide +kernel)
  obtain ⟨hfec, hany⟩ := Bool.and_eq_true_iff.mp htest
  obtain ⟨st', fs, hrun', htest'⟩ := exists_run_of_exec step FecOn st _ _ hany
  obtain ⟨e, he, hbytes⟩ := List.any_eq_true.mp htest'
  unfold Event.wrong at hbytes
  split at hbytes
  · rename_i start slot pl
    obtain ⟨hplace, hpacket⟩ := Bool.and_eq_true_iff.mp hbytes
    obtain ⟨rfl, rfl⟩ := of_decide_eq_true hplace
    obtain ⟨hsize, hbyte⟩ := Bool.and_eq_true_iff.mp hpacket
    refine ⟨st, es, st', fs, hrun, hfec, hrun', pl, he, ?_⟩
    rintro pkt hseq ⟨hlen, hcarries⟩
    have hsize' : pkt.dataSize = 13 := hlen.symm.trans (of_decide_eq_true hsize)
    refine of_decide_eq_true hbyte ?_
    rw [hcarries 3 (by omega)]
    have hword : ((pkt.data 2).toNat : Int) * 0x100 + (pkt.data 3).toNat = 11 := hseq
    exact BitVec.eq_of_toNat_eq (show (pkt.data 3).toNat = 11 by omega)
  · cases hbytes

end HiSTB.Rtpfec
