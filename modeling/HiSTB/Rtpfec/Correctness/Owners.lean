import HiSTB.Rtpfec.Correctness.Invariant

/-!
# `Rtpfec.Correctness.Owners` — who owns which group, and where parity packets go

* `readRun_owners` — the ownership discipline: FEC is on exactly while a group is being filled, no leftover
  group is ever freed, insertions start with `GroupDone` empty, and the groups are adjacent;
* `acceptFecpkt_stores_own_group_iff` — a parity packet lands in its own group, except a packet of the next
  group that arrives while `GroupCheckMiss` is occupied.
-/

namespace HiSTB.Rtpfec

open Fec Lib

variable {H : Holds} {s : RTPFECContext}

/-! ## Packets for concrete runs -/

/-- An RTP packet of one payload byte. -/
def mkRtppkt (seq : Nat) (payload : BYTE) : Packet where
  data := fun r =>
    if r = 2 then BitVec.ofNat 8 (seq / 0x100) else if r = 3 then BitVec.ofNat 8 seq
    else if r = 12 then payload else 0
  dataSize := 13

/-- A parity packet for RTP packets `start` to `last`. -/
def mkFecpkt (start last num seq len : Nat) (payload : BYTE) : Packet where
  data := fun r =>
    if r = 12 then BitVec.ofNat 8 (start / 0x100) else if r = 13 then BitVec.ofNat 8 start
    else if r = 14 then BitVec.ofNat 8 (last / 0x100) else if r = 15 then BitVec.ofNat 8 last
    else if r = 16 then BitVec.ofNat 8 num else if r = 17 then BitVec.ofNat 8 seq
    else if r = 20 then BitVec.ofNat 8 (len / 0x100) else if r = 21 then BitVec.ofNat 8 len
    else payload
  dataSize := 24 + len

/-- Slots with no slot behind them. -/
def apart : Around := ⟨fun _ _ => none, fun _ _ => 0, fun _ _ => 0⟩

/-- A round in which an RTP packet arrives. -/
def onRtp (seq : Nat) : Input := ⟨none, some (mkRtppkt seq 0x47), true, fun _ _ => 0, apart⟩

/-- A round in which a parity packet arrives. -/
def onFec (start last num seq len : Nat) : Input :=
  ⟨some (mkFecpkt start last num seq len 0x5A), none, true, fun _ _ => 0, apart⟩

/-- A round in which nothing arrives. -/
def onIdle : Input := ⟨none, none, true, fun _ _ => 0, apart⟩

/-- A gap in the RTP packets and then a first parity packet: FEC is on, with groups of one RTP packet and
    two parity packets from sequence number 10 on. -/
def fecOn : List Input := [onRtp 0, onRtp 5, onFec 9 9 2 0 13]

/-! ## Ownership -/

/-- `_rtpfec_get_fecpkt` copies no RTP packet. -/
theorem getFecpkt_no_putRtp (h : Inv H s) (fecpkt : Option Packet)
    (hd : s.groupDone = none) (start : Int) (index : Nat) (seq : Int) (done : Bool) :
    Event.putRtp start index seq done ∉ (getFecpkt s fecpkt).events := by
  -- inserting a parity packet shows at most a parity copy
  have hin : ∀ {c : RTPFECContext} {dl : RTPFECPktGroup} (pkt : Packet) (q : Int) (f : Nat),
      c.groupDownLoading = some dl →
      Event.putRtp start index seq done ∉ (groupFecpktIn c pkt q f).events := by
    intro c dl pkt q f hdl
    rcases groupFecpktIn_cases pkt hdl q f with
      ⟨g, _, _, heq⟩ | ⟨_, _, heq⟩ | ⟨_, _, heq⟩ | ⟨_, heq⟩
    all_goals rw [heq]; simp
  unfold getFecpkt
  cases fecpkt with
  | none => exact List.not_mem_nil
  | some pkt =>
    dsimp only
    split
    · exact List.not_mem_nil
    · cases fecHeader s pkt with
      | none => exact List.not_mem_nil
      | some hdr =>
        dsimp only
        cases hfec : s.haveFec with
        | true =>
          obtain ⟨dl, hdl⟩ := h.downLoading hfec
          unfold acceptFecpkt
          rw [if_pos hfec]
          simpa using hin pkt hdr.rtpSeqStart hdr.fecSeq hdl
        | false =>
          have hdl := h.downLoading_none hfec
          rw [acceptFecpkt_first pkt hfec hdl hd]
          simpa using hin (c := firstGroup s hdr) pkt hdr.rtpSeqStart hdr.fecSeq rfl

/-- The same group, up to the bytes in its slots. -/
def SameGroup (g g' : RTPFECPktGroup) : Prop := g' = { g with paPktRtp := g'.paPktRtp, paPktFec := g'.paPktFec }

theorem SameGroup.spill (g : RTPFECPktGroup) (o : Owner) (past : Nat → Option Cell) (src : Nat → BYTE) (len n : Nat) :
    SameGroup g (g.spill o past src len n) := rfl

/-- An RTP packet is copied while `GroupDone` is occupied only by the call that has just put the former
    `GroupCheckMiss` there; a packet longer than its slot may change bytes of it. -/
theorem round_putRtp_done {st : State} {i : Input} (h : Inv H st.ctx) {start : Int}
    {index : Nat} {seq : Int} (he : Event.putRtp start index seq true ∈ (round st i).2) :
    ∃ cm d dl, (getFecpkt st.ctx i.fecpkt).ctx.groupCheckMiss = some cm ∧ SameGroup cm d ∧
      (round st i).1.ctx.groupDone = some d ∧ (round st i).1.ctx.groupDownLoading = some dl ∧
      dl.rtpSeqStart = start := by
  unfold round at he ⊢
  cases hd : st.ctx.groupDone with
  | some g =>
    rw [hd] at he
    unfold doneRound at he
    dsimp only at he
    split at he <;> simp at he
  | none =>
    rw [hd] at he
    dsimp only at he ⊢
    split at he
    · exact absurd he List.not_mem_nil
    · rename_i hno
      rw [if_neg hno]
      have hf : Fetches st.ctx := ⟨hd, hno⟩
      obtain ⟨hq, hd', _⟩ := getFecpkt_quiet h hd hf.checkMiss_none i.fecpkt
      have hnone := getFecpkt_no_putRtp h i.fecpkt hd start index seq true
      unfold fecpktRound at he ⊢
      dsimp only at he ⊢
      split at he
      · exact absurd he hnone
      · rename_i hret
        rw [if_neg hret]
        rcases List.mem_append.mp he with he | he
        · exact absurd he hnone
        -- only the branch that inserts an RTP packet copies one
        unfold packetRound at he ⊢
        split at he
        · rename_i hfec
          rw [if_pos hfec]
          split at he
          · unfold checkMissRound at he
            dsimp only at he
            split at he
            · split at he <;> simp at he
            · simp at he
          · rename_i hcheck
            rw [if_neg hcheck]
            unfold rtpRound at he ⊢
            cases hpkt : i.rtppkt with
            | none =>
              rw [hpkt] at he
              exact absurd he List.not_mem_nil
            | some pkt =>
              rw [hpkt] at he
              obtain ⟨dl, hdl⟩ := hq.inv.downLoading hfec
              have hcount := (counted_quiet hq.inv).inv
              dsimp only at he ⊢
              rcases List.mem_cons.mp he with hcall | he
              · cases hcall
              rcases groupRtppktIn_cases hcount.pktNum hcount.groups hd' hdl i.around pkt with
                ⟨g, hcm, _, heq⟩ | ⟨_, heq⟩ | ⟨_, heq⟩ | ⟨_, heq⟩
              all_goals
                rw [show { (getFecpkt st.ctx i.fecpkt).ctx with
                  checkCount := (getFecpkt st.ctx i.fecpkt).ctx.checkCount + 1 } = counted _ from rfl, heq] at he ⊢
              · simp at he
              · obtain ⟨hs, _, _, hcm⟩ := Event.putRtp.inj (List.mem_singleton.mp he)
                obtain ⟨cm, hcm⟩ := Option.isSome_iff_exists.mp hcm.symm
                exact ⟨cm, _, _, hcm, SameGroup.spill .., congrArg (Option.map _) hcm, rfl, hs.symm⟩
              · simp at he
              · simp at he
        · exact absurd he List.not_mem_nil

/-- **The ownership discipline, in every run.** FEC is on iff a group is being filled; the branch that frees
    a leftover group is never taken; the insertion functions are called with `GroupDone` empty, and it is
    still empty at the copy unless that call itself has just handed `GroupCheckMiss` on to open the next
    group; `GroupDownLoading` starts right after the end of `GroupCheckMiss`. -/
theorem readRun_owners {is : List Input} {st : State} {es : List Event} (h : ReadRun is st es) :
    (st.ctx.haveFec = true ↔ st.ctx.groupDownLoading.isSome = true) ∧
      Event.groupFree ∉ es ∧
      (∀ done, Event.insertCall done ∈ es → done = false) ∧
      (∀ start seq f done, Event.putFec start seq f done ∈ es → done = false) ∧
      (∀ i st' fs, step st i = some (st', fs) → ∀ start index seq,
        Event.putRtp start index seq true ∈ fs →
          ∃ cm d dl, (getFecpkt st.ctx i.fecpkt).ctx.groupCheckMiss = some cm ∧ SameGroup cm d ∧
            st'.ctx.groupDone = some d ∧ st'.ctx.groupDownLoading = some dl ∧ dl.rtpSeqStart = start) ∧
      (∀ cm dl, st.ctx.groupCheckMiss = some cm → st.ctx.groupDownLoading = some dl →
        dl.rtpSeqStart = (cm.rtpSeqEnd + 1) % 0x10000) := by
  have hinv := readRun_inv h
  have hev := readRun_events h
  refine ⟨hinv.haveFec, fun he => hev _ he, fun done he => hev _ he, fun _ _ _ _ he => hev _ he, ?_, ?_⟩
  · intro i st' fs hstep start index seq he
    have hround := step_eq hstep
    have hput := round_putRtp_done (i := i) hinv (by rw [hround]; exact he)
    rwa [hround] at hput
  · intro cm dl hcm hdl
    have hchain := hinv.groups.chain
    rw [groups_checkMiss hcm, hdl, Option.toList_some, List.isChain_append_cons_cons] at hchain
    exact hchain.2.1.1

/-- The effect copies an RTP packet while `GroupDone` is occupied. -/
def copiesWhileDone : Event → Bool
  | .putRtp _ _ _ done => done
  | _ => false

/-- `GroupDone` can be occupied at the copy: packet 12 opens a group while group 10 is still checked. -/
theorem readRun_putRtp_while_done :
    ∃ st es, ReadRun (fecOn ++ [onRtp 11, onRtp 12]) st es ∧
      ∃ start index seq, Event.putRtp start index seq true ∈ es := by
  refine exists_run_imp (fun _ es => es.any copiesWhileDone) (by decide) fun _ _ _ htest => ?_
  obtain ⟨e, he, hcopy⟩ := List.any_eq_true.mp htest
  unfold copiesWhileDone at hcopy
  split at hcopy
  · subst hcopy
    exact ⟨_, _, _, he⟩
  · cases hcopy

/-- The same run, seen by `readRun_owners`: both groups are there and adjacent. -/
theorem readRun_owners_two_groups :
    ∃ st es, ReadRun (fecOn ++ [onRtp 11]) st es ∧ st.ctx.groupCheckMiss.isSome = true ∧
      st.ctx.groupDownLoading.isSome = true ∧ Event.groupFree ∉ es ∧
      ∀ cm dl, st.ctx.groupCheckMiss = some cm → st.ctx.groupDownLoading = some dl →
        dl.rtpSeqStart = (cm.rtpSeqEnd + 1) % 0x10000 := by
  refine exists_run_imp (fun st _ => st.ctx.groupCheckMiss.isSome && st.ctx.groupDownLoading.isSome)
    (by decide) fun _ _ hrun htest => ?_
  obtain ⟨hcm, hdl⟩ := Bool.and_eq_true_iff.mp htest
  have howners := readRun_owners hrun
  exact ⟨hcm, hdl, howners.2.1, howners.2.2.2.2.2⟩

/-! ## Where parity packets go -/

/-- The packet belongs to the (non-empty) group after `GroupDownLoading`, and `GroupCheckMiss` is occupied. -/
def NextWhileChecking (s : RTPFECContext) (hdr : FecHeader) : Prop :=
  s.groupCheckMiss.isSome = true ∧ 0 < s.rtpPktNum ∧
    ∃ dl, s.groupDownLoading = some dl ∧ hdr.rtpSeqStart = (dl.rtpSeqStart + s.rtpPktNum) % 0x10000

/-- With FEC on: the packet goes nowhere or into its own group, unless it belongs to the next group and
    `GroupCheckMiss` is occupied. -/
theorem groupFecpktIn_stores_iff (h : Inv H s)
    (hfec : s.haveFec = true) (pkt : Packet) (hdr : FecHeader) :
    (∀ start seq f done, Event.putFec start seq f done ∈ (groupFecpktIn s pkt hdr.rtpSeqStart hdr.fecSeq).events →
          start = hdr.rtpSeqStart) ↔ ¬ NextWhileChecking s hdr := by
  obtain ⟨dl, hdl⟩ := h.downLoading hfec
  have hdlok : GroupOk H s.rtpPktNum dl := h.groups.ok dl (by rw [groups_downLoading hdl]; simp)
  have hK := h.pktNum
  have h0 := hdlok.nonneg
  have h1 := hdlok.lt
  -- a group being checked ends right before `GroupDownLoading`
  have hadj : ∀ cm, s.groupCheckMiss = some cm →
      dl.rtpSeqStart = (cm.rtpSeqStart + s.rtpPktNum) % 0x10000 ∧ 0 ≤ cm.rtpSeqStart ∧
        cm.rtpSeqStart < 0x10000 := by
    intro cm hcm
    have hcmok : GroupOk H s.rtpPktNum cm := h.groups.ok cm (by rw [groups_checkMiss hcm]; simp)
    have hchain := h.groups.chain
    rw [groups_checkMiss hcm, hdl, Option.toList_some, List.isChain_append_cons_cons] at hchain
    have hnext := hchain.2.1.1
    have hend := hcmok.seqEnd
    exact ⟨by omega, hcmok.nonneg, hcmok.lt⟩
  have hmem : ∀ {start start' : Int} {seq seq' : Int} {f f' : Nat} {done done' : Bool},
      Event.putFec start seq f done ∈ [Event.putFec start' seq' f' done'] → start = start' := by
    intro start start' seq seq' f f' done done' he
    have hinj := List.mem_singleton.mp he
    injection hinj
  rcases groupFecpktIn_cases pkt hdl hdr.rtpSeqStart hdr.fecSeq with
    ⟨g, hcm, hseq, heq⟩ | ⟨hne, hcase, heq⟩ | ⟨hcm, hseq, heq⟩ | ⟨hseq, heq⟩
  · rw [heq]
    refine ⟨?_, fun _ start seq f done he => by rw [hmem he, hseq]⟩
    rintro - ⟨_, hpos, dl', hdl', hnext⟩
    obtain rfl : dl = dl' := Option.some.inj (hdl.symm.trans hdl')
    obtain ⟨ha, hb, hc⟩ := hadj g hcm
    omega
  · rw [heq]
    constructor
    · rintro hstore ⟨_, hpos, dl', hdl', hnext⟩
      obtain rfl : dl = dl' := Option.some.inj (hdl.symm.trans hdl')
      have hstart := hstore dl.rtpSeqStart _ _ _ (List.mem_singleton_self _)
      omega
    · intro hno start seq f done he
      rw [hmem he]
      rcases hcase with hin | ⟨hcm, hnext⟩
      · exact hin.symm
      · by_cases hpos : 0 < s.rtpPktNum
        · exact absurd ⟨hcm, hpos, dl, hdl, hnext⟩ hno
        · omega
  · rw [heq]
    refine ⟨fun _ hbad => ?_, fun _ start seq f done he => ?_⟩
    · have hsome := hbad.1
      rw [hcm] at hsome
      cases hsome
    · have hend := hdlok.seqEnd
      rw [hmem he, hseq]
      omega
  · rw [heq]
    refine ⟨?_, fun _ start seq f done he => absurd he List.not_mem_nil⟩
    rintro - ⟨_, _, dl', hdl', hnext⟩
    obtain rfl : dl = dl' := Option.some.inj (hdl.symm.trans hdl')
    exact hseq hnext

/-- **Parity packets go into their own group or nowhere, exactly when** the packet is not one of the next
    group arriving while `GroupCheckMiss` is occupied. The hypotheses on the context say that the loop calls
    `_rtpfec_get_fecpkt` in this state. -/
theorem acceptFecpkt_stores_own_group_iff {is : List Input} {st : State} {es : List Event}
    (h : ReadRun is st es) (hd : st.ctx.groupDone = none)
    (hflush : ¬ (st.ctx.haveFec = false ∧ st.ctx.groupCheckMiss.isSome = true)) {pkt : Packet}
    {hdr : FecHeader} (hhdr : fecHeader st.ctx pkt = some hdr) :
    (∀ start seq f done,
        Event.putFec start seq f done ∈ (acceptFecpkt st.ctx pkt hdr).events →
          start = hdr.rtpSeqStart) ↔ ¬ NextWhileChecking st.ctx hdr := by
  have hinv := readRun_inv h
  cases hfec : st.ctx.haveFec with
  | true =>
      have hiff := groupFecpktIn_stores_iff hinv hfec pkt hdr
      rw [← hiff]
      unfold acceptFecpkt
      rw [if_pos hfec]
      simp only [List.mem_cons, reduceCtorEq, false_or]
  | false =>
      have hcm := Fetches.checkMiss_none ⟨hd, hflush⟩ hfec
      have hdl := hinv.downLoading_none hfec
      have hfirst : Inv anything (firstGroup st.ctx hdr) :=
        firstGroup_inv (fecHeader_some hhdr).2.1 hd hcm
      have hiff := groupFecpktIn_stores_iff hfirst rfl pkt hdr
      have hnone : (firstGroup st.ctx hdr).groupCheckMiss = none := hcm
      -- no group is being checked, before or after the first group is created
      constructor
      · rintro - ⟨hsome, _⟩
        rw [hcm] at hsome
        cases hsome
      · intro _
        rw [acceptFecpkt_first pkt hfec hdl hd]
        simp only [List.mem_cons, reduceCtorEq, false_or]
        refine hiff.mpr ?_
        rintro ⟨hsome, _⟩
        rw [hnone] at hsome
        cases hsome

/-- The parity packet of group 12, while group 10 is checked and group 11 is filled, goes into group 11. -/
theorem acceptFecpkt_misplaced :
    ∃ st es hdr, ReadRun (fecOn ++ [onRtp 11]) st es ∧ st.ctx.groupDone = none ∧
      st.ctx.haveFec = true ∧ fecHeader st.ctx (mkFecpkt 12 12 2 0 13 0x5A) = some hdr ∧
      ∃ start seq f done,
        Event.putFec start seq f done
          ∈ (acceptFecpkt st.ctx (mkFecpkt 12 12 2 0 13 0x5A) hdr).events ∧ start ≠ hdr.rtpSeqStart := by
  obtain ⟨st, es, hrun, htest⟩ := exists_run_of_exec step always init (fecOn ++ [onRtp 11])
    (fun r => r.1.ctx.groupDone.isNone && r.1.ctx.haveFec &&
      (fecHeader r.1.ctx (mkFecpkt 12 12 2 0 13 0x5A)).any (fun hdr =>
        (acceptFecpkt r.1.ctx (mkFecpkt 12 12 2 0 13 0x5A) hdr).events.any (fun e =>
          match e with
          | .putFec start _ _ _ => decide (start ≠ hdr.rtpSeqStart)
          | _ => false))) (by decide)
  rw [Bool.and_eq_true_iff, Bool.and_eq_true_iff, Option.any_eq_true] at htest
  obtain ⟨⟨hd, hfec⟩, hdr, hhdr, hany⟩ := htest
  obtain ⟨e, he, hne⟩ := List.any_eq_true.mp hany
  refine ⟨st, es, hdr, hrun, Option.isNone_iff_eq_none.mp hd, hfec, hhdr, ?_⟩
  split at hne
  · exact ⟨_, _, _, _, he, of_decide_eq_true hne⟩
  · cases hne

/-- The parity packet of group 11 in the same state goes into group 11. -/
theorem acceptFecpkt_stores_own_group :
    ∃ st es hdr, ReadRun (fecOn ++ [onRtp 11]) st es ∧
      fecHeader st.ctx (mkFecpkt 11 11 2 0 13 0x5A) = some hdr ∧
      ((∀ start seq f done,
        Event.putFec start seq f done ∈ (acceptFecpkt st.ctx (mkFecpkt 11 11 2 0 13 0x5A) hdr).events →
          start = hdr.rtpSeqStart) ↔ ¬ NextWhileChecking st.ctx hdr) := by
  obtain ⟨st, es, hrun, htest⟩ := exists_run_of_exec step always init (fecOn ++ [onRtp 11])
    (fun r => r.1.ctx.groupDone.isNone && r.1.ctx.haveFec &&
      (fecHeader r.1.ctx (mkFecpkt 11 11 2 0 13 0x5A)).isSome) (by decide)
  rw [Bool.and_eq_true_iff, Bool.and_eq_true_iff] at htest
  obtain ⟨⟨hd, hfec⟩, hsome⟩ := htest
  obtain ⟨hdr, hhdr⟩ := Option.isSome_iff_exists.mp hsome
  have hflush : ¬ (st.ctx.haveFec = false ∧ st.ctx.groupCheckMiss.isSome = true) := by
    rintro ⟨hoff, _⟩
    have hon : st.ctx.haveFec = true := hfec
    rw [hon] at hoff
    cases hoff
  exact ⟨st, es, hdr, hrun, hhdr,
    acceptFecpkt_stores_own_group_iff hrun (Option.isNone_iff_eq_none.mp hd) hflush hhdr⟩

end HiSTB.Rtpfec
