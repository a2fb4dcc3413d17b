import HiSTB.Pktq.Correctness.Packets

/-!
# `Pktq.Correctness.Hysteresis` — when the packet queue takes packets

A put that finds more than `max_buf_size` bytes in the queue is refused and marks the queue full. From then on puts are
to be refused until the queue has been drained to `max_buf_size - forbidden_size`.

* `pktqPutPkt_cases` — the four ways a put ends;
* `put_takes_iff` — a put at the marked queue does what it should, except at two levels: exactly full, and exactly
  drained;
* `run_hysteresis` — runs that put at neither.
-/

namespace HiSTB.Pktq

open Lib LinkedQueue

variable {pkt : DataPacket} {op : Op} {es : List Event}

/-- The level down to which a full queue is to be drained. -/
def PKTQueue.release (q : PKTQueue) : Int := q.maxBufSize - q.forbiddenSize

/-- The put is taken. -/
def Takes (q : PKTQueue) (pkt : DataPacket) (mallocOk : Bool) : Prop :=
  (pktqPutPkt q (some pkt) mallocOk).2 = [.accepted pkt.rest]

/-- The put is refused. -/
def Refuses (q : PKTQueue) (pkt : DataPacket) (mallocOk : Bool) : Prop :=
  (pktqPutPkt q (some pkt) mallocOk).2 = []

variable {q q' : PKTQueue}

/-! ## Putting in -/

theorem putForbidden_iff (hpos : 0 ≤ q.curBufSize) (hint : q.maxBufSize < 0x80000000) : putForbidden q = true ↔
    q.full = true ∧ q.curBufSize < q.maxBufSize ∧ q.release ≤ q.curBufSize := by
  simp only [putForbidden, PKTQueue.release, Bool.and_eq_true, decide_eq_true_eq, and_assoc, and_congr_right_iff]
  intro _ hlt
  rw [int32_of_range (by omega) (by omega)]
  omega

theorem putFull_iff : putFull q = true ↔ q.maxBufSize < q.curBufSize ∧ 0 < q.maxBufSize := by
  simp only [putFull, Bool.and_eq_true, decide_eq_true_eq, gt_iff_lt]

theorem takeNode_malloc (q : PKTQueue) : ∃ q' node, takeNode q true = some (q', node) := by
  unfold takeNode
  split
  · exact ⟨_, _, rfl⟩
  · exact ⟨_, _, rfl⟩

/-- **How a put of a valid packet ends**: forbidden, full, out of memory, or taken. -/
theorem pktqPutPkt_cases (hvalid : putValid pkt = true) (mallocOk : Bool) :
    (putForbidden q = true ∧ pktqPutPkt q (some pkt) mallocOk = (q, [])) ∨
    (putForbidden q = false ∧ putFull q = true ∧
      pktqPutPkt q (some pkt) mallocOk = ({ q with full := true }, [])) ∨
    (putForbidden q = false ∧ putFull q = false ∧ mallocOk = false ∧
      pktqPutPkt q (some pkt) mallocOk = ({ q with full := false }, [])) ∨
    (putForbidden q = false ∧ putFull q = false ∧
      (pktqPutPkt q (some pkt) mallocOk).2 = [.accepted pkt.rest]) := by
  simp only [pktqPutPkt, hvalid, Bool.true_eq_false, if_false]
  cases hforbidden : putForbidden q with
  | true => exact Or.inl ⟨rfl, rfl⟩
  | false =>
    cases hfull : putFull q with
    | true => exact Or.inr (Or.inl ⟨rfl, rfl, rfl⟩)
    | false =>
      right
      right
      simp only [Bool.false_eq_true, if_false, true_and]
      cases hnode : takeNode { q with full := false } mallocOk with
      | none =>
        left
        cases mallocOk with
        | false => exact ⟨rfl, rfl⟩
        | true =>
          obtain ⟨q', node, h⟩ := takeNode_malloc { q with full := false }
          rw [h] at hnode
          cases hnode
      | some r => exact Or.inr rfl

/-- A put leaves the limits alone. -/
theorem put_limits (q : PKTQueue) (pkt : Option DataPacket) (mallocOk : Bool) :
    (pktqPutPkt q pkt mallocOk).1.maxBufSize = q.maxBufSize ∧
      (pktqPutPkt q pkt mallocOk).1.forbiddenSize = q.forbiddenSize := by
  unfold pktqPutPkt
  cases pkt with
  | none => exact ⟨rfl, rfl⟩
  | some pkt =>
    dsimp only
    split_ifs
    · exact ⟨rfl, rfl⟩
    · exact ⟨rfl, rfl⟩
    · exact ⟨rfl, rfl⟩
    · unfold takeNode
      rcases delHead q.next q.free with ⟨free, _ | node⟩
      · cases mallocOk <;> exact ⟨rfl, rfl⟩
      · exact ⟨rfl, rfl⟩

/-- A put is taken exactly when neither of the two tests refuses it. -/
theorem takes_iff (hvalid : putValid pkt = true) :
    Takes q pkt true ↔ putForbidden q = false ∧ putFull q = false := by
  unfold Takes
  rcases pktqPutPkt_cases (q := q) hvalid true with ⟨h, heq⟩ | ⟨_, h, heq⟩ | ⟨_, _, h, _⟩ | ⟨h1, h2, heq⟩
  · simp [heq, h]
  · simp [heq, h]
  · cases h
  · simp [heq, h1, h2]

/-- What is not taken is refused. -/
theorem refuses_iff (hvalid : putValid pkt = true) :
    Refuses q pkt true ↔ putForbidden q = true ∨ putFull q = true := by
  unfold Refuses
  rcases pktqPutPkt_cases (q := q) hvalid true with ⟨h, heq⟩ | ⟨_, h, heq⟩ | ⟨_, _, h, _⟩ | ⟨h1, h2, heq⟩
  · simp [heq, h]
  · simp [heq, h]
  · cases h
  · simp [heq, h1, h2]

/-- The two levels at which the tests of a marked queue go wrong: exactly full, and exactly drained. -/
def AtEdge (q : PKTQueue) : Prop :=
  q.full = true ∧ 0 < q.forbiddenSize ∧ (q.curBufSize = q.maxBufSize ∨ q.curBufSize = q.release)
deriving Decidable

/-- **A put at a marked queue** is refused above the release level and taken from there on down, exactly when the level
    is at neither edge. -/
theorem put_takes_iff (hpos : 0 ≤ q.curBufSize) (hmax : 0 < q.maxBufSize) (hint : q.maxBufSize < 0x80000000)
    (h0 : 0 ≤ q.forbiddenSize) (hfull : q.full = true) (hvalid : putValid pkt = true) :
    ((q.release < q.curBufSize → Refuses q pkt true) ∧ (q.curBufSize ≤ q.release → Takes q pkt true)) ↔
      ¬ AtEdge q := by
  rw [refuses_iff hvalid, takes_iff hvalid, ← Bool.not_eq_true, ← Bool.not_eq_true, putForbidden_iff hpos hint,
    putFull_iff]
  unfold AtEdge PKTQueue.release
  simp only [hfull, true_and]
  omega

/-- At a queue that is not marked, a put at or below the limit is taken. -/
theorem takes_of_not_full (hfull : q.full = false) (hvalid : putValid pkt = true)
    (hle : q.curBufSize ≤ q.maxBufSize) : Takes q pkt true := by
  rw [takes_iff hvalid, ← Bool.not_eq_true (putFull q), putFull_iff]
  refine ⟨?_, fun hlt => absurd hlt.1 (not_lt.mpr hle)⟩
  simp [putForbidden, hfull]

/-! ## Runs -/

/-- The call puts at neither edge, there is memory for its node, and its buffer leaves the level in `int`. -/
def Calm (q : PKTQueue) : Op → Prop
  | .put (some pkt) mallocOk => mallocOk = true ∧ ¬ AtEdge q ∧ Room q (.put (some pkt) mallocOk)
  | _ => True

theorem Calm.room (h : Calm q op) : Room q op := by
  cases op with
  | put pkt mallocOk =>
    cases pkt with
    | none => trivial
    | some pkt => exact h.2.2
  | read len => trivial
  | get => trivial
  | clear => trivial

/-- The queue is above the release level. -/
def Above (q : PKTQueue) : Prop := q.release < q.curBufSize
deriving Decidable

/-- What is put leaves the level in `int`, and has a buffer of at most `B` bytes. -/
def AtMost (B : Int) (q : PKTQueue) (op : Op) : Prop :=
  Room q op ∧ ∀ pkt mallocOk, op = .put (some pkt) mallocOk → Takes q pkt mallocOk → pkt.bufSize ≤ B

/-- A queue with these limits whose counters did not wrap. -/
structure Valve (maxBufSize forbiddenSize : Int) (q : PKTQueue) : Prop where
  whole : Whole q
  inRange : InRange q
  max : q.maxBufSize = maxBufSize
  forbidden : q.forbiddenSize = forbiddenSize

variable {maxBufSize forbiddenSize : Int}

theorem Valve.level_nonneg (h : Valve maxBufSize forbiddenSize q) : 0 ≤ q.curBufSize := by
  rw [h.inRange.curBufSize h.whole]
  exact h.whole.size_nonneg

theorem step_valve (h : Valve maxBufSize forbiddenSize q) (hroom : Room q op)
    (hstep : step q op = some (q', es)) : Valve maxBufSize forbiddenSize q' := by
  have hlimits : q'.maxBufSize = q.maxBufSize ∧ q'.forbiddenSize = q.forbiddenSize := by
    by_cases hop : ∃ pkt mallocOk, op = .put pkt mallocOk
    · obtain ⟨pkt, mallocOk, rfl⟩ := hop
      rw [show q' = (pktqPutPkt q pkt mallocOk).1 from (congrArg Prod.fst (Option.some.inj hstep)).symm]
      exact put_limits q pkt mallocOk
    · have hfixed := step_fixed (fun pkt mallocOk heq => hop ⟨pkt, mallocOk, heq⟩) hstep
      exact ⟨congrArg (·.1) hfixed, congrArg (·.2.1) hfixed⟩
  exact ⟨h.whole.step hstep, step_inRange h.inRange h.whole hroom hstep, hlimits.1.trans h.max,
    hlimits.2.trans h.forbidden⟩

theorem create_valve (m f : Int) : Valve m f (pktqCreate m f) :=
  ⟨Whole.of_run (C := always) .nil, create_inRange m f, rfl, rfl⟩

theorem run_valve {C : PKTQueue → Op → Prop} (hC : ∀ q op, C q op → Room q op) {ops : List Op}
    (h : Valve maxBufSize forbiddenSize q) (hrun : Run step C q ops q' es) : Valve maxBufSize forbiddenSize q' :=
  hrun.inv (fun _ q => Valve maxBufSize forbiddenSize q) h
    (fun _ q op _ _ hq hcond hstep => step_valve hq (hC q op hcond) hstep)

/-- **The mark stays** while the queue is above the release level. -/
theorem step_stays_full (h : Valve maxBufSize forbiddenSize q) (hmax : 0 < maxBufSize)
    (hint : maxBufSize < 0x80000000) (h0 : 0 ≤ forbiddenSize) (hcalm : Calm q op) (habove : Above q)
    (hfull : q.full = true) (hstep : step q op = some (q', es)) : q'.full = true := by
  by_cases hop : ∃ pkt mallocOk, op = .put pkt mallocOk
  · obtain ⟨pkt, mallocOk, rfl⟩ := hop
    have heq : pktqPutPkt q pkt mallocOk = (q', es) := Option.some.inj hstep
    cases pkt with
    | none =>
      obtain ⟨rfl, -⟩ := Prod.mk.inj heq
      exact hfull
    | some pkt =>
      obtain ⟨rfl, hedge, -⟩ := hcalm
      cases hvalid : putValid pkt with
      | false =>
        simp only [pktqPutPkt, hvalid, if_true] at heq
        obtain ⟨rfl, -⟩ := Prod.mk.inj heq
        exact hfull
      | true =>
        -- the put is refused, and refused puts leave the mark or set it
        rw [← h.max] at hmax hint
        have hiff := put_takes_iff h.level_nonneg hmax hint (h.forbidden ▸ h0) hfull hvalid
        have hrefuses := (hiff.mpr hedge).1 habove
        rcases pktqPutPkt_cases (q := q) hvalid true with ⟨_, hput⟩ | ⟨_, _, hput⟩ | ⟨_, _, hc, _⟩ | ⟨_, _, hput⟩
        · rw [hput] at heq
          obtain ⟨rfl, -⟩ := Prod.mk.inj heq
          exact hfull
        · rw [hput] at heq
          obtain ⟨rfl, -⟩ := Prod.mk.inj heq
          rfl
        · cases hc
        · rw [Refuses, hput] at hrefuses
          cases hrefuses
  · have hfixed := step_fixed (fun pkt mallocOk heq => hop ⟨pkt, mallocOk, heq⟩) hstep
    exact (congrArg (·.2.2.1) hfixed).trans hfull

/-- The level is at most the limit and one packet. -/
theorem step_level {B : Int} (h : Valve maxBufSize forbiddenSize q) (hmax : 0 < maxBufSize)
    (hB : AtMost B q op) (hlevel : q.curBufSize ≤ maxBufSize + B) (hstep : step q op = some (q', es)) :
    q'.curBufSize ≤ maxBufSize + B := by
  have h' := step_valve h hB.1 hstep
  rw [h.inRange.curBufSize h.whole] at hlevel
  rw [h'.inRange.curBufSize h'.whole]
  by_cases hop : ∃ pkt mallocOk, op = .put pkt mallocOk
  · obtain ⟨pkt, mallocOk, rfl⟩ := hop
    cases pkt with
    | none =>
      cases hstep
      exact hlevel
    | some pkt =>
      rw [put_size h.whole hstep]
      split
      · rename_i htake
        obtain ⟨hvalid, hforbidden, hnot, hnode⟩ := htake
        have htakes : Takes q pkt mallocOk := by
          rcases pktqPutPkt_cases (q := q) hvalid mallocOk with ⟨hc, _⟩ | ⟨_, hc, _⟩ | ⟨_, _, hc, hput⟩ | ⟨_, _, hput⟩
          · rw [hforbidden] at hc
            cases hc
          · rw [hnot] at hc
            cases hc
          · have hsome : (takeNode { q with full := false } mallocOk).isSome := takeNode_isSome.mpr hnode
            obtain ⟨r, hr⟩ := Option.isSome_iff_exists.mp hsome
            simp [Takes, pktqPutPkt, hvalid, hforbidden, hnot, hr]
          · exact hput
        have hle := hB.2 pkt mallocOk rfl htakes
        rw [← Bool.not_eq_true, putFull_iff, h.max, h.inRange.curBufSize h.whole] at hnot
        omega
      · exact hlevel
  · exact (step_size_le h.whole (fun pkt mallocOk heq => hop ⟨pkt, mallocOk, heq⟩) hstep).trans hlevel

/-- **The packet queue as a valve.** In a run that puts at neither edge and lets no level leave `int`: after a put was
    refused because the queue was full, every put is refused until the level has come down to
    `max_buf_size - forbidden_size`; and every put offered there or below is taken. And as long as no level leaves
    `int`, it never exceeds the limit by more than the largest buffer taken. -/
theorem run_hysteresis (hmax : 0 < maxBufSize) (hint : maxBufSize < 0x80000000) (h0 : 0 ≤ forbiddenSize)
    {ops : List Op} {q : PKTQueue} {es : List Event}
    (h : Run step Calm (pktqCreate maxBufSize forbiddenSize) ops q es) :
    (∀ pkt mallocOk, putValid pkt = true → putFull q = true → ∀ ops' q' es',
        Run step (fun q op => Calm q op ∧ Above q) (pktqPutPkt q (some pkt) mallocOk).1 ops' q' es' → Above q' →
          ∀ pkt' mallocOk', putValid pkt' = true → Calm q' (.put (some pkt') mallocOk') →
            Refuses q' pkt' mallocOk') ∧
      (∀ pkt mallocOk, putValid pkt = true → Calm q (.put (some pkt) mallocOk) →
        q.curBufSize ≤ maxBufSize - forbiddenSize → Takes q pkt mallocOk) ∧
      (∀ B ops' q' es', 0 ≤ B → Run step (AtMost B) (pktqCreate maxBufSize forbiddenSize) ops' q' es' →
        q'.curBufSize ≤ maxBufSize + B) := by
  have hvalve := run_valve (fun _ _ => Calm.room) (create_valve maxBufSize forbiddenSize) h
  have hmax' : ∀ {t}, Valve maxBufSize forbiddenSize t → 0 < t.maxBufSize ∧ t.maxBufSize < 0x80000000 ∧
      0 ≤ t.forbiddenSize := by
    intro t ht
    rw [ht.max, ht.forbidden]
    exact ⟨hmax, hint, h0⟩
  refine ⟨?_, ?_, ?_⟩
  · intro pkt mallocOk hvalid hfull ops' q' es' hrun habove pkt' mallocOk' hvalid' ⟨hmalloc, hedge, _⟩
    subst hmalloc
    -- the refused put set the mark
    have hforbidden : putForbidden q = false := by
      rw [← Bool.not_eq_true, putForbidden_iff hvalve.level_nonneg (hmax' hvalve).2.1]
      rw [putFull_iff] at hfull
      omega
    have hput : step q (.put (some pkt) mallocOk) = some ({ q with full := true }, []) := by
      simp [step, pktqPutPkt, hvalid, hforbidden, hfull]
    rw [show (pktqPutPkt q (some pkt) mallocOk).1 = { q with full := true } from
      congrArg Prod.fst (Option.some.inj hput)] at hrun
    have hroom : Room q (.put (some pkt) mallocOk) := fun htake => by
      rw [htake.2.2.1] at hfull
      cases hfull
    obtain ⟨hq', hf⟩ : Valve maxBufSize forbiddenSize q' ∧ q'.full = true := by
      refine hrun.inv (fun _ q => Valve maxBufSize forbiddenSize q ∧ q.full = true)
        ⟨step_valve hvalve hroom hput, rfl⟩ ?_
      rintro _ s op t fs ⟨hs, hf⟩ ⟨hcalm, ha⟩ hstep
      exact ⟨step_valve hs hcalm.room hstep, step_stays_full hs hmax hint h0 hcalm ha hf hstep⟩
    obtain ⟨hpos, hlt, hforb⟩ := hmax' hq'
    exact ((put_takes_iff hq'.level_nonneg hpos hlt hforb hf hvalid').mpr hedge).1 habove
  · intro pkt mallocOk hvalid ⟨hmalloc, hedge, _⟩ hlow
    subst hmalloc
    cases hfull : q.full with
    | false =>
        refine takes_of_not_full hfull hvalid ?_
        rw [hvalve.max]
        omega
    | true =>
        obtain ⟨hpos, hlt, hforb⟩ := hmax' hvalve
        refine ((put_takes_iff hvalve.level_nonneg hpos hlt hforb hfull hvalid).mpr hedge).2 ?_
        rw [PKTQueue.release, hvalve.max, hvalve.forbidden]
        exact hlow
  · intro B ops' q' es' hB hrun
    refine (hrun.inv (fun _ q => Valve maxBufSize forbiddenSize q ∧ q.curBufSize ≤ maxBufSize + B)
      ⟨create_valve _ _, ?_⟩ ?_).2
    · show 0 ≤ maxBufSize + B
      omega
    · rintro _ s op t fs ⟨hs, hl⟩ hat hstep
      exact ⟨step_valve hs hat.1 hstep, step_level hs hmax hat hl hstep⟩

/-! ## Runs at the edges -/

instance (q : PKTQueue) : (op : Op) → Decidable (Calm q op)
  | .put (some _) _ => inferInstanceAs (Decidable (_ ∧ _ ∧ _))
  | .put none _ | .read _ | .get | .clear => isTrue trivial

/-- A packet of one byte in a buffer of `n`. -/
def packetIn (n : Int) : DataPacket := ⟨fun _ => 0, 1, n, 0⟩

/-- Two packets fill the queue; with one of them left, it is still above the release level. -/
theorem run_hysteresis_two_packets :
    ∃ q es q' es', Run step Calm (pktqCreate 10 4) [.put (some (packetIn 8)) true, .put (some (packetIn 8)) true] q es ∧
      Run step (fun q op => Calm q op ∧ Above q) (pktqPutPkt q (some (packetIn 1)) true).1 [.get] q' es' ∧
      q'.curBufSize = 8 ∧ Refuses q' (packetIn 1) true := by
  obtain ⟨q, es, hrun, htest⟩ := exists_run_of_exec step Calm (pktqCreate 10 4)
    [.put (some (packetIn 8)) true, .put (some (packetIn 8)) true]
    (fun r => putFull r.1 && (exec step (fun q op => Calm q op ∧ Above q)
      (pktqPutPkt r.1 (some (packetIn 1)) true).1 [.get]).any
        (fun q : PKTQueue × List Event => decide (Above q.1 ∧ q.1.curBufSize = 8 ∧
          Calm q.1 (.put (some (packetIn 1)) true)))) (by decide)
  obtain ⟨hfull, hany⟩ := Bool.and_eq_true_iff.mp htest
  obtain ⟨q', es', hrun', htest'⟩ := exists_run_of_exec step _ _ _ _ hany
  obtain ⟨habove, hlevel, hcalm⟩ := of_decide_eq_true htest'
  have hvalve := run_hysteresis (by decide) (by decide) (by decide) hrun
  exact ⟨q, es, q', es', hrun, hrun', hlevel,
    hvalve.1 _ _ rfl hfull _ _ _ hrun' habove (packetIn 1) true rfl hcalm⟩

/-- At the two edges: drained to the release level, the queue refuses a put; still exactly full, it takes one. -/
theorem put_at_edges :
    (∃ q es, Run step always (pktqCreate 10 4) [.put (some (packetIn 5)) true, .put (some (packetIn 6)) true,
        .put (some (packetIn 1)) true, .get] q es ∧
      q.curBufSize ≤ 10 - 4 ∧ Refuses q (packetIn 1) true) ∧
    (∃ q es q' es', Run step always (pktqCreate 10 4)
        [.put (some (packetIn 1)) true, .put (some (packetIn 10)) true] q es ∧ putFull q = true ∧
      Run step (fun q _ => Above q) (pktqPutPkt q (some (packetIn 1)) true).1 [.get] q' es' ∧ Above q' ∧
      Takes q' (packetIn 1) true) := by
  constructor
  · refine exists_run_imp (fun q _ => decide (q.curBufSize ≤ 10 - 4) && putForbidden q)
      (by decide) fun _ _ _ htest => ?_
    obtain ⟨hlevel, hforbidden⟩ := Bool.and_eq_true_iff.mp htest
    exact ⟨of_decide_eq_true hlevel, (refuses_iff rfl).mpr (Or.inl hforbidden)⟩
  · obtain ⟨q, es, hrun, htest⟩ := exists_run_of_exec step always (pktqCreate 10 4)
      [.put (some (packetIn 1)) true, .put (some (packetIn 10)) true]
      (fun r => putFull r.1 && (exec step (fun q _ => Above q)
        (pktqPutPkt r.1 (some (packetIn 1)) true).1 [.get]).any
          (fun q : PKTQueue × List Event =>
            decide (Above q.1 ∧ putForbidden q.1 = false ∧ putFull q.1 = false))) (by decide)
    obtain ⟨hfull, hany⟩ := Bool.and_eq_true_iff.mp htest
    obtain ⟨q', es', hrun', htest'⟩ := exists_run_of_exec step _ _ _ _ hany
    obtain ⟨habove, hputs⟩ := of_decide_eq_true htest'
    exact ⟨q, es, q', es', hrun, hfull, hrun', habove, (takes_iff rfl).mpr hputs⟩

end HiSTB.Pktq
