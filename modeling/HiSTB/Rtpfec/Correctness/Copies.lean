import HiSTB.Rtpfec.Correctness.Owners

/-!
# `Rtpfec.Correctness.Copies` — which packets are copied into a group, and whether the copy fits

`_rtpfec_group_rtppkt_in` keeps the packets of three ranges of sequence numbers: those of `GroupCheckMiss`, of
`GroupDownLoading`, and of the group behind it. An RTP packet is copied with its own length into a slot of
`fec_dec_len` bytes, and `fec_dec_len` bytes of a parity packet are copied from behind its headers; nothing compares
the two.

* `groupRtppktIn_keeps` — a packet that is consumed and fits is in its slot, or is in none of the ranges;
* `readRun_copies_iff` — the copies of a round stay in bounds exactly for packets that fit.
-/

namespace HiSTB.Rtpfec

open Fec Lib

variable {H : Holds} {s : RTPFECContext} {g dl : RTPFECPktGroup} {pkt : Packet}

variable {hdr : FecHeader} {e : Event} {st : State} {es : List Event} {i : Input}

/-! ## Slots -/

/-- The context into which a parity packet is put: the first one opens a group. -/
def fecTarget (s : RTPFECContext) (hdr : FecHeader) : RTPFECContext := if s.haveFec then s else firstGroup s hdr

theorem fecTarget_downLoading (h : Inv H s) (hdr : FecHeader) : ∃ dl, (fecTarget s hdr).groupDownLoading = some dl := by
  unfold fecTarget
  cases hfec : s.haveFec with
  | true => exact h.downLoading hfec
  | false => exact ⟨_, rfl⟩

/-- A parity packet that passed the checks is put into the context it belongs to. -/
theorem acceptFecpkt_eq (h : Inv H s) (hd : s.groupDone = none) (pkt : Packet) (hdr : FecHeader) :
    acceptFecpkt s pkt hdr
      = { groupFecpktIn (fecTarget s hdr) pkt hdr.rtpSeqStart hdr.fecSeq with
          events := .insertCall false ::
            (groupFecpktIn (fecTarget s hdr) pkt hdr.rtpSeqStart hdr.fecSeq).events } := by
  unfold fecTarget
  cases hfec : s.haveFec with
  | true => simp [acceptFecpkt, hfec, hd]
  | false =>
    rw [acceptFecpkt_first pkt hfec (h.downLoading_none hfec) hd]
    simp

/-! ## Packets that are consumed -/

/-- The packet is in its slot of an open group that covers it, whole, and marked as received. -/
def Kept (s : RTPFECContext) (pkt : Packet) : Prop :=
  ∃ g row, Open s g ∧ Covers g.rtpSeqStart s.rtpPktNum (rtpSeq pkt) ∧
    g.paPktRtp (slotOf g.rtpSeqStart (rtpSeq pkt)) = some row ∧ pkt.dataSize ≤ g.slotLen ∧
    (∀ r < pkt.dataSize, row r = pkt.data r) ∧ g.aPktRtpLen (slotOf g.rtpSeqStart (rtpSeq pkt)) = pkt.dataSize ∧
    g.lostMap (slotOf g.rtpSeqStart (rtpSeq pkt)) = 1

/-- What is copied into a slot of a group is there, if it ends in the slot. -/
theorem kept_of_putRtp {s' : RTPFECContext} (hg : Slotted s' g) (hfit : pkt.dataSize ≤ s'.fecDecLen)
    (hcov : Covers g.rtpSeqStart s'.rtpPktNum (rtpSeq pkt))
    (hopen : Open s' (g.putRtp (slotOf g.rtpSeqStart (rtpSeq pkt)) pkt)) : Kept s' pkt := by
  obtain ⟨row, hrow⟩ := Option.isSome_iff_exists.mp (hg.1 _ (slotOf_lt hcov))
  rw [← hg.2] at hfit
  refine ⟨_, memcpy row pkt.data pkt.dataSize, hopen, hcov, ?_, hfit, fun r hr => if_pos hr, ?_, ?_⟩
  · simp [RTPFECPktGroup.putRtp, hrow, hfit]
  · simp [RTPFECPktGroup.putRtp]
  · simp [RTPFECPktGroup.putRtp]

/-- The group behind is opened unless `GroupCheckMiss` cannot be handed on. -/
theorem rtppktInNext_kept {a : Around} (hdl : s.groupDownLoading = some dl) (hfit : pkt.dataSize ≤ s.fecDecLen)
    (hcov : Covers dl.nextStart s.rtpPktNum (rtpSeq pkt))
    (hret : (rtppktInNext a s (slotOf dl.nextStart (rtpSeq pkt)) pkt (rtpSeq pkt)).ret = 0) :
    Kept (rtppktInNext a s (slotOf dl.nextStart (rtpSeq pkt)) pkt (rtpSeq pkt)).ctx pkt := by
  have hsame : (flushCheckMiss s).groupDownLoading = some dl ∧ (flushCheckMiss s).geometry = s.geometry := by
    unfold flushCheckMiss groupCheckmissToDone
    split
    · split
      · exact ⟨hdl, rfl⟩
      · exact ⟨hdl, rfl⟩
    · exact ⟨hdl, rfl⟩
  obtain ⟨hload, hgeo⟩ := hsame
  obtain ⟨hK, _, hlen⟩ := Geometry.mk.inj hgeo
  unfold rtppktInNext at hret ⊢
  cases hcm : (flushCheckMiss s).groupCheckMiss with
  | some g => simp [groupDownloadingToCheckmiss, hcm] at hret
  | none =>
    simp only [groupDownloadingToCheckmiss, hcm, Option.isSome_none, Bool.false_eq_true, if_false, ne_eq,
      not_true_eq_false, createGroupDownloading, afterCheckMiss, hload, putRtpDownLoading]
    rw [← hK] at hcov
    rw [← hlen] at hfit
    rw [show ∀ t q, (newGroup t q).slotLen = t.fecDecLen from fun _ _ => rfl, spill_of_le hfit]
    exact kept_of_putRtp (g := newGroup _ dl.nextStart) (Slotted.new _ _) hfit hcov (Or.inr rfl)

theorem groups_downloadingToCheckmiss (s : RTPFECContext) :
    (groupDownloadingToCheckmiss s).1.groups = s.groups := by
  unfold groupDownloadingToCheckmiss
  by_cases hcm : s.groupCheckMiss.isSome = true
  · rw [if_pos hcm]
  · rw [if_neg hcm]
    rw [Bool.not_eq_true, Option.isSome_eq_false_iff, Option.isNone_iff_eq_none] at hcm
    simp [RTPFECContext.groups, hcm]

theorem groups_givenUp (s : RTPFECContext) : (givenUp s).groups = s.groups := by
  show (groupDownloadingToCheckmiss (flushCheckMiss s)).1.groups = _
  rw [groups_downloadingToCheckmiss]
  unfold flushCheckMiss
  split
  · exact groups_checkmissToDone s
  · rfl

/-- **A consumed RTP packet is kept where it is awaited.** In every reachable state in which a group is being filled:
    when `_rtpfec_group_rtppkt_in` returns 0, the sequence number is one of `GroupCheckMiss`, of `GroupDownLoading` or
    of the group behind it, and the packet is no longer than a slot, its bytes are in its slot of a group that covers it
    and the slot is marked; with any other sequence number the packet is dropped, no group changes, and FEC goes off. -/
theorem groupRtppktIn_keeps {is : List Input} {st : State} {es : List Event} (h : ReadRun is st es)
    (hload : st.ctx.groupDownLoading.isSome = true) (a : Around) (pkt : Packet)
    (hret : (groupRtppktIn a st.ctx pkt (rtpSeq pkt)).ret = 0) :
    (Awaited st.ctx (rtpSeq pkt) → pkt.dataSize ≤ st.ctx.fecDecLen →
        Kept (groupRtppktIn a st.ctx pkt (rtpSeq pkt)).ctx pkt) ∧
      (¬ Awaited st.ctx (rtpSeq pkt) →
        (groupRtppktIn a st.ctx pkt (rtpSeq pkt)).ctx.groups = st.ctx.groups ∧
          (groupRtppktIn a st.ctx pkt (rtpSeq pkt)).ctx.haveFec = false) := by
  obtain ⟨dl, hdl⟩ := Option.isSome_iff_exists.mp hload
  have hinv := readRun_inv h
  rcases groupRtppktIn_ends hinv.pktNum hinv.groups hdl a pkt with
    ⟨g, hg, hcov, heq⟩ | ⟨hcov, heq⟩ | ⟨hcov, heq⟩ | ⟨hno, heq⟩
  · refine ⟨fun _ hfit => ?_, fun hno => absurd (Or.inl ⟨g, hg, hcov⟩) hno⟩
    have hslots := hinv.slots g (Or.inl hg)
    rw [heq, putRtpCheckMiss]
    rw [spill_of_le (hslots.2 ▸ hfit)]
    exact kept_of_putRtp (g := g) hslots hfit hcov (Or.inl rfl)
  · refine ⟨fun _ hfit => ?_, fun hno => absurd (Or.inr ⟨dl, hdl, Or.inr hcov⟩) hno⟩
    rw [heq] at hret ⊢
    exact rtppktInNext_kept hdl hfit hcov hret
  · refine ⟨fun _ hfit => ?_, fun hno => absurd (Or.inr ⟨dl, hdl, Or.inl hcov⟩) hno⟩
    have hslots := hinv.slots dl (Or.inr hdl)
    rw [heq, putRtpDownLoading, hdl]
    dsimp only
    rw [spill_of_le (hslots.2 ▸ hfit)]
    exact kept_of_putRtp (g := dl) hslots hfit hcov (Or.inr rfl)
  · refine ⟨fun hin => absurd hin hno, fun _ => ?_⟩
    rw [heq]
    exact ⟨groups_givenUp st.ctx, rfl⟩

/-- Packet 10 comes for the group at 10, in slots of 13 bytes. -/
theorem groupRtppktIn_keeps_ten :
    ∃ st es, ReadRun fecOn st es ∧ (groupRtppktIn apart st.ctx (mkRtppkt 10 0x47) 10).ret = 0 ∧
      Kept (groupRtppktIn apart st.ctx (mkRtppkt 10 0x47) 10).ctx (mkRtppkt 10 0x47) := by
  refine exists_run_imp (fun st _ => decide ((groupRtppktIn apart st.ctx (mkRtppkt 10 0x47) 10).ret = 0) &&
      st.ctx.groupDownLoading.isSome && decide (Awaited st.ctx 10) && decide (st.ctx.fecDecLen = 13))
    (by decide) fun _ _ hrun htest => ?_
  simp only [Bool.and_eq_true, decide_eq_true_eq] at htest
  obtain ⟨⟨⟨hret, hload⟩, hawaited⟩, hlen⟩ := htest
  exact ⟨hret, (groupRtppktIn_keeps hrun hload apart (mkRtppkt 10 0x47) hret).1 hawaited (le_of_eq hlen.symm)⟩

/-- Packet 500 comes next: it is consumed, and in no group. -/
theorem packet_dropped :
    ∃ st es, ReadRun fecOn st es ∧ st.ctx.groupDownLoading.isSome = true ∧
      (groupRtppktIn apart st.ctx (mkRtppkt 500 0x47) 500).ret = 0 ∧
      ¬ Kept (groupRtppktIn apart st.ctx (mkRtppkt 500 0x47) 500).ctx (mkRtppkt 500 0x47) := by
  refine exists_run_imp (fun st _ =>
      let o := groupRtppktIn apart st.ctx (mkRtppkt 500 0x47) 500
      st.ctx.groupDownLoading.isSome && decide (o.ret = 0) && o.ctx.groupDownLoading.isNone &&
        decide (¬ CheckedFor o.ctx 500))
    (by decide) fun _ _ _ htest => ?_
  simp only [Bool.and_eq_true, Option.isNone_iff_eq_none, decide_eq_true_eq] at htest
  obtain ⟨⟨⟨hload, hret⟩, hnone⟩, hno⟩ := htest
  refine ⟨hload, hret, ?_⟩
  rintro ⟨g, row, hg | hg, hcov, _⟩
  · exact hno ⟨g, hg, hcov⟩
  · rw [hnone] at hg
    cases hg

/-! ## The copies of a round -/

/-- A copy of an RTP packet. -/
def isPutRtp : Event → Bool
  | .putRtp _ _ _ _ => true
  | _ => false

/-- A copy of a parity packet. -/
def isPutFec : Event → Bool
  | .putFec _ _ _ _ => true
  | _ => false

/-- The slot of a copy is one of the group. -/
def InSlot (s : RTPFECContext) : Event → Prop
  | .putRtp _ index _ _ => index < s.rtpPktNum
  | .putFec _ _ f _ => f < s.fecPktNum
  | _ => True

theorem groupRtppktIn_no_putFec (h : Inv H s) (hd : s.groupDone = none) (hdl : s.groupDownLoading = some dl)
    (a : Around) (pkt : Packet) : ∀ e ∈ (groupRtppktIn a s pkt (rtpSeq pkt)).events, isPutFec e = false := by
  rcases groupRtppktIn_cases h.pktNum h.groups hd hdl a pkt with
    ⟨g, _, _, heq⟩ | ⟨_, heq⟩ | ⟨_, heq⟩ | ⟨_, heq⟩
  all_goals
    rw [heq]
    simp [isPutFec]

/-- **An RTP packet is copied exactly when it is awaited**, into a slot of the group. -/
theorem groupRtppktIn_putRtp_iff (h : Inv H s) (hd : s.groupDone = none) (hdl : s.groupDownLoading = some dl)
    (a : Around) (pkt : Packet) :
    ((∃ e ∈ (groupRtppktIn a s pkt (rtpSeq pkt)).events, isPutRtp e = true) ↔ Awaited s (rtpSeq pkt)) ∧
      ∀ e ∈ (groupRtppktIn a s pkt (rtpSeq pkt)).events, InSlot s e := by
  rcases groupRtppktIn_ends h.pktNum h.groups hdl a pkt with ⟨g, hg, hcov, heq⟩ | ⟨hcov, heq⟩ | ⟨hcov, heq⟩ | ⟨hno, heq⟩
  · have hin : Awaited s (rtpSeq pkt) := Or.inl ⟨g, hg, hcov⟩
    rw [heq]
    simp [putRtpCheckMiss, isPutRtp, InSlot, hin, slotOf_lt hcov]
  · have hin : Awaited s (rtpSeq pkt) := Or.inr ⟨dl, hdl, Or.inr hcov⟩
    rw [heq, rtppktInNext_eq hd hdl]
    simp [isPutRtp, InSlot, hin, slotOf_lt hcov]
  · have hin : Awaited s (rtpSeq pkt) := Or.inr ⟨dl, hdl, Or.inl hcov⟩
    rw [heq]
    simp [putRtpDownLoading, hdl, isPutRtp, InSlot, hin, slotOf_lt hcov]
  · rw [heq]
    simp [hno]

/-- A parity packet for the group at `seq` is kept. -/
def AwaitedFec (s : RTPFECContext) (seq : Int) : Prop :=
  (∃ g, s.groupCheckMiss = some g ∧ seq = g.rtpSeqStart) ∨
    ∃ g, s.groupDownLoading = some g ∧
      (seq = g.rtpSeqStart ∨ seq = (g.rtpSeqStart + s.rtpPktNum) % 0x10000)

/-- **A parity packet is copied exactly when its group is open** or the one behind. -/
theorem groupFecpktIn_putFec_iff (hdl : s.groupDownLoading = some dl) (pkt : Packet) (pktseq : Int) {fecSeq : Nat}
    (hseq : fecSeq < s.fecPktNum) :
    ((∃ e ∈ (groupFecpktIn s pkt pktseq fecSeq).events, isPutFec e = true) ↔ AwaitedFec s pktseq) ∧
      ∀ e ∈ (groupFecpktIn s pkt pktseq fecSeq).events, InSlot s e := by
  rcases groupFecpktIn_cases pkt hdl pktseq fecSeq with
    ⟨g, hg, hown, heq⟩ | ⟨_, hcase, heq⟩ | ⟨_, hnext, heq⟩ | ⟨hnot, heq⟩
  · have hin : AwaitedFec s pktseq := Or.inl ⟨g, hg, hown⟩
    rw [heq]
    simp [isPutFec, InSlot, hin, hseq]
  · have hin : AwaitedFec s pktseq := Or.inr ⟨dl, hdl, hcase.imp id And.right⟩
    rw [heq]
    simp [isPutFec, InSlot, hin, hseq]
  · have hin : AwaitedFec s pktseq := Or.inr ⟨dl, hdl, Or.inr hnext⟩
    rw [heq]
    simp [isPutFec, InSlot, hin, hseq]
  · -- nothing is copied: then the packet is of no open group
    have hno : ¬ AwaitedFec s pktseq := by
      rintro (⟨g, hg, rfl⟩ | ⟨g, hg, rfl | hnext⟩)
      · unfold groupFecpktIn at heq
        rw [hg] at heq
        simp at heq
      · obtain rfl : dl = g := Option.some.inj (hdl.symm.trans hg)
        unfold groupFecpktIn fecpktInRest at heq
        rw [hdl] at heq
        cases hcm : s.groupCheckMiss with
        | none => simp [hcm, putFecDownLoading, hdl] at heq
        | some g =>
          simp only [hcm] at heq
          split at heq
          · simp at heq
          · simp [putFecDownLoading, hdl] at heq
      · obtain rfl : dl = g := Option.some.inj (hdl.symm.trans hg)
        exact hnot hnext
    rw [heq]
    simp [hno]

/-! ### What `_rtpfec_get_fecpkt` copies -/

theorem getFecpkt_of_accepted (h : Inv H s) (hd : s.groupDone = none) (hlost : s.rtpSeqLost = true)
    (hhdr : fecHeader s pkt = some hdr) :
    (getFecpkt s (some pkt)).ctx = (groupFecpktIn (fecTarget s hdr) pkt hdr.rtpSeqStart hdr.fecSeq).ctx ∧
      (getFecpkt s (some pkt)).events
        = .insertCall false :: (groupFecpktIn (fecTarget s hdr) pkt hdr.rtpSeqStart hdr.fecSeq).events := by
  unfold getFecpkt
  simp only [hlost, Bool.true_eq_false, if_false, hhdr]
  rw [acceptFecpkt_eq h hd pkt hdr]
  exact ⟨rfl, rfl⟩

/-- Without an accepted packet there is no copy. -/
theorem getFecpkt_copy {fecpkt : Option Packet} (he : e ∈ (getFecpkt s fecpkt).events) :
    ∃ pkt hdr, fecpkt = some pkt ∧ s.rtpSeqLost = true ∧ fecHeader s pkt = some hdr := by
  unfold getFecpkt at he
  cases fecpkt with
  | none => exact absurd he List.not_mem_nil
  | some pkt =>
    dsimp only at he
    split at he
    · exact absurd he List.not_mem_nil
    · rename_i hlost
      cases hhdr : fecHeader s pkt with
      | none =>
        rw [hhdr] at he
        exact absurd he List.not_mem_nil
      | some hdr => exact ⟨pkt, hdr, rfl, by simpa using hlost, hhdr⟩

/-- The number of an accepted parity packet is one of its group's. -/
theorem fecTarget_fecSeq (hhdr : fecHeader s pkt = some hdr) :
    hdr.fecSeq < (fecTarget s hdr).fecPktNum := by
  obtain ⟨_, _, _, hseq, hsame⟩ := fecHeader_some hhdr
  unfold fecTarget
  cases hfec : s.haveFec with
  | true =>
    simp only [if_true]
    rw [← (hsame hfec).2]
    exact hseq
  | false => exact hseq

/-! ### What a round copies -/

theorem noFecRound_geometry (s : RTPFECContext) (rtppkt : Option Packet) :
    (noFecRound s rtppkt).geometry = s.geometry := by
  unfold noFecRound
  split
  · rfl
  · split <;> rfl

/-- The rest of the round leaves `fec_dec_len` as `_rtpfec_get_fecpkt` left it. -/
theorem round_geometry (h : Inv anything st.ctx) (hf : Fetches st.ctx) (i : Input) :
    (round st i).1.ctx.geometry = (getFecpkt st.ctx i.fecpkt).ctx.geometry := by
  obtain ⟨hq, hd, _⟩ := getFecpkt_quiet h hf.1 hf.checkMiss_none i.fecpkt
  unfold round
  rw [hf.1]
  rw [if_neg hf.2]
  unfold fecpktRound
  dsimp only
  split
  · rfl
  · unfold packetRound
    split
    · rename_i hfec
      split
      · exact (checkMissRound_quiet { st with ctx := _ } hq.inv i.around i.heap
          (Or.inl loose_anything)).geometry hfec
      · exact (rtpRound_quiet hq.inv hd hfec i.around (fun _ _ _ => Or.inl loose_anything)).geometry hfec
    · exact noFecRound_geometry _ _

/-- In every reachable state the slots that take packets have `fec_dec_len` bytes. -/
theorem readRun_slotLen {is : List Input} (h : ReadRun is st es)
    (hg : Open st.ctx g) : g.slotLen = st.ctx.fecDecLen :=
  ((readRun_inv h).slots g hg).2

/-- No event is about a packet that is put into a group. -/
def NoPuts (es : List Event) : Prop := ∀ e ∈ es, isPutRtp e = false ∧ isPutFec e = false

theorem NoPuts.not_putRtp (h : NoPuts es) (he : isPutRtp e = true) : e ∉ es := by
  intro hmem
  rw [(h e hmem).1] at he
  cases he

theorem NoPuts.not_putFec (h : NoPuts es) (he : isPutFec e = true) : e ∉ es := by
  intro hmem
  rw [(h e hmem).2] at he
  cases he

theorem checkMissRound_noPuts (a : Around) (st : State) (heap : Rows) : NoPuts (checkMissRound a st heap).2 := by
  unfold checkMissRound
  dsimp only
  split
  · split <;> simp [NoPuts, isPutRtp, isPutFec]
  · simp [NoPuts]

/-- `GroupDone` is read out, or `GroupCheckMiss` handed on. -/
theorem round_noPuts (hf : ¬ Fetches st.ctx) (i : Input) : NoPuts (round st i).2 := by
  unfold round
  cases hd : st.ctx.groupDone with
  | some g =>
    dsimp only
    unfold doneRound
    split <;> simp [NoPuts, isPutRtp, isPutFec]
  | none =>
    dsimp only
    split
    · simp [NoPuts]
    · rename_i hno
      exact absurd ⟨hd, hno⟩ hf

/-- The events of a round: those of `_rtpfec_get_fecpkt`, then those of the packet put into a group. -/
theorem round_copies (h : Inv H st.ctx) (i : Input) :
    (∀ e, isPutRtp e = true → (e ∈ (round st i).2 ↔ Inserts st.ctx i.fecpkt ∧ ∃ pkt, i.rtppkt = some pkt ∧
        e ∈ (groupRtppktIn i.around (counted (getFecpkt st.ctx i.fecpkt).ctx) pkt (rtpSeq pkt)).events)) ∧
      (∀ e, isPutFec e = true → (e ∈ (round st i).2 ↔ Fetches st.ctx ∧ e ∈ (getFecpkt st.ctx i.fecpkt).events)) := by
  by_cases hf : Fetches st.ctx
  · obtain ⟨hq, hd, _⟩ := getFecpkt_quiet h hf.1 hf.checkMiss_none i.fecpkt
    have hnone : ∀ e, isPutRtp e = true → e ∉ (getFecpkt st.ctx i.fecpkt).events := by
      intro e he
      cases e with
      | putRtp start index seq done => exact getFecpkt_no_putRtp h i.fecpkt hf.1 start index seq done
      | _ => cases he
    unfold Inserts Proceeds Due round
    rw [hf.1]
    rw [if_neg hf.2]
    unfold fecpktRound
    by_cases hret : (getFecpkt st.ctx i.fecpkt).ret = 0
    · rw [if_neg (not_not_intro hret)]
      unfold packetRound
      cases hfec : (getFecpkt st.ctx i.fecpkt).ctx.haveFec with
      | false =>
        constructor
        · intro e he
          simp [hnone e he]
        · intro e he
          simp [hf]
      | true =>
        obtain ⟨dl, hdl⟩ := hq.inv.downLoading hfec
        simp only [if_true]
        split
        · -- the group is checked
          rename_i hcheck
          have hquiet := checkMissRound_noPuts i.around { st with ctx := (getFecpkt st.ctx i.fecpkt).ctx } i.heap
          constructor
          · intro e he
            simp only [List.mem_append, hnone e he, false_or, hcheck, not_true_eq_false, and_self, and_false,
              false_and, iff_false]
            exact hquiet.not_putRtp he
          · intro e he
            simp only [List.mem_append, hf, true_and, or_iff_left_iff_imp]
            exact fun hmem => absurd hmem (hquiet.not_putFec he)
        · rename_i hcheck
          unfold rtpRound
          cases hpkt : i.rtppkt with
          | none => simp +contextual [hnone, hf]
          | some pkt =>
            have hno := groupRtppktIn_no_putFec (counted_quiet hq.inv).inv hd hdl i.around pkt
            constructor
            · intro e he
              have hcall : e ≠ .insertCall (getFecpkt st.ctx i.fecpkt).ctx.groupDone.isSome := by
                rintro rfl
                cases he
              simp [hnone e he, hcall, hf, hret, hcheck, counted]
            · intro e he
              have hcall : e ≠ .insertCall (getFecpkt st.ctx i.fecpkt).ctx.groupDone.isSome := by
                rintro rfl
                cases he
              have hmem : e ∉ (groupRtppktIn i.around (counted (getFecpkt st.ctx i.fecpkt).ctx) pkt
                  (rtpSeq pkt)).events := by
                intro hmem
                rw [hno e hmem] at he
                cases he
              simp only [List.mem_append, List.mem_cons, hcall, false_or, hf, true_and, or_iff_left_iff_imp]
              intro hin
              exact absurd hin hmem
    · rw [if_pos hret]
      constructor
      · intro e he
        simp [hnone e he, hret]
      · intro e he
        simp [hf]
  · have hquiet := round_noPuts hf i
    constructor
    · intro e he
      simp only [Inserts, Proceeds, hf, false_and, iff_false]
      exact hquiet.not_putRtp he
    · intro e he
      simp only [hf, false_and, iff_false]
      exact hquiet.not_putFec he

/-! ## Copies that fit -/

/-- A copy stays inside the slot and inside the packet: the slots have `fec_dec_len` bytes, an RTP packet is copied
    whole, and of a parity packet `fec_dec_len` bytes from offset 24 on. -/
def Inside (i : Input) (s : RTPFECContext) : Event → Prop
  | .putRtp _ index _ _ => index < s.rtpPktNum ∧ ∃ pkt, i.rtppkt = some pkt ∧ pkt.dataSize ≤ s.fecDecLen
  | .putFec _ _ f _ => f < s.fecPktNum ∧ ∃ pkt, i.fecpkt = some pkt ∧ 24 + s.fecDecLen ≤ pkt.dataSize
  | _ => True

/-- What a round takes from the queues fits: the parity packet, if its group is open, is long enough for `fec_dec_len`,
    and the RTP packet, if it is awaited, no longer than `fec_dec_len`. -/
structure Fits (s : RTPFECContext) (i : Input) : Prop where
  fec : Fetches s → s.rtpSeqLost = true → ∀ pkt hdr, i.fecpkt = some pkt → fecHeader s pkt = some hdr →
    AwaitedFec (fecTarget s hdr) hdr.rtpSeqStart → 24 + (fecTarget s hdr).fecDecLen ≤ pkt.dataSize
  rtp : Inserts s i.fecpkt → ∀ pkt, i.rtppkt = some pkt →
    Awaited (getFecpkt s i.fecpkt).ctx (rtpSeq pkt) → pkt.dataSize ≤ (getFecpkt s i.fecpkt).ctx.fecDecLen

/-- A copy of an RTP packet is inside exactly when the packet is no longer than a slot. -/
theorem inside_of_putRtp (he : isPutRtp e = true) (hslot : InSlot s e)
    (hpkt : i.rtppkt = some pkt) : Inside i s e ↔ pkt.dataSize ≤ s.fecDecLen := by
  cases e with
  | putRtp start index seq done =>
    have hlt : index < s.rtpPktNum := hslot
    simp [Inside, hlt, hpkt]
  | _ => cases he

/-- A copy of a parity packet, exactly when the packet is long enough. -/
theorem inside_of_putFec (he : isPutFec e = true) (hslot : InSlot s e)
    (hpkt : i.fecpkt = some pkt) : Inside i s e ↔ 24 + s.fecDecLen ≤ pkt.dataSize := by
  cases e with
  | putFec start seq f done =>
    have hlt : f < s.fecPktNum := hslot
    simp [Inside, hlt, hpkt]
  | _ => cases he

theorem inside_of_other (hr : isPutRtp e = false) (hf : isPutFec e = false) : Inside i s e := by
  cases e with
  | putRtp start index seq done => cases hr
  | putFec start seq f done => cases hf
  | _ => trivial

theorem Inside.geometry {t : RTPFECContext} (h : t.geometry = s.geometry) :
    Inside i t e ↔ Inside i s e := by
  obtain ⟨hK, hM, hlen⟩ := Geometry.mk.inj h
  cases e with
  | putRtp start index seq done => simp only [Inside, hK, hlen]
  | putFec start seq f done => simp only [Inside, hM, hlen]
  | _ => exact Iff.rfl

/-- **The copies of a round stay inside their slots and packets exactly when what the round takes fits**, in every
    reachable state. -/
theorem readRun_copies_iff {is : List Input} {st : State} {es : List Event} (h : ReadRun is st es) (i : Input) :
    (∀ e ∈ (round st i).2, Inside i (round st i).1.ctx e) ↔ Fits st.ctx i := by
  have hinv := readRun_inv h
  obtain ⟨hrtp, hfec⟩ := round_copies hinv i
  by_cases hf : Fetches st.ctx
  · have hgeo := round_geometry hinv hf i
    simp only [Inside.geometry hgeo]
    obtain ⟨hq, hd, _⟩ := getFecpkt_quiet hinv hf.1 hf.checkMiss_none i.fecpkt
    -- the context with the counter raised has the same groups and lengths
    have hcounted := (counted_quiet hq.inv).inv
    -- a parity packet is put into a context with the lengths of the round
    have htarget : ∀ pkt hdr, i.fecpkt = some pkt → st.ctx.rtpSeqLost = true → fecHeader st.ctx pkt = some hdr →
        (getFecpkt st.ctx i.fecpkt).ctx.geometry = (fecTarget st.ctx hdr).geometry ∧
          ((∃ e ∈ (getFecpkt st.ctx i.fecpkt).events, isPutFec e = true) ↔
            AwaitedFec (fecTarget st.ctx hdr) hdr.rtpSeqStart) ∧
          ∀ e ∈ (getFecpkt st.ctx i.fecpkt).events, InSlot (fecTarget st.ctx hdr) e := by
      intro pkt hdr hpkt hlost hhdr
      obtain ⟨dl, hdl⟩ := fecTarget_downLoading hinv hdr
      obtain ⟨hctx, hevents⟩ := getFecpkt_of_accepted hinv hf.1 hlost hhdr
      obtain ⟨hiff, hslot⟩ := groupFecpktIn_putFec_iff hdl pkt hdr.rtpSeqStart (fecTarget_fecSeq hhdr)
      rw [hpkt, hctx, hevents]
      refine ⟨(groupFecpktIn_same hdl pkt hdr.rtpSeqStart hdr.fecSeq).2.2.2, ?_, ?_⟩
      · rw [← hiff]
        simp [isPutFec]
      · intro e he
        rcases List.mem_cons.mp he with rfl | he
        · trivial
        · exact hslot e he
    constructor
    · intro hin
      constructor
      · intro _ hlost pkt hdr hpkt hhdr hawait
        obtain ⟨hsame, hiff, hslot⟩ := htarget pkt hdr hpkt hlost hhdr
        obtain ⟨e, he, hput⟩ := hiff.mpr hawait
        have hinside := hin e ((hfec e hput).mpr ⟨hf, he⟩)
        rw [Inside.geometry hsame] at hinside
        exact (inside_of_putFec hput (hslot e he) hpkt).mp hinside
      · intro hins pkt hpkt hawait
        obtain ⟨dl, hdl⟩ := hq.inv.downLoading hins.1.2.2
        obtain ⟨hiff, hslot⟩ := groupRtppktIn_putRtp_iff hcounted hd hdl i.around pkt
        obtain ⟨e, he, hput⟩ := hiff.mpr hawait
        have hinside := hin e ((hrtp e hput).mpr ⟨hins, pkt, hpkt, he⟩)
        exact (inside_of_putRtp hput (hslot e he) hpkt).mp hinside
    · intro hfits e he
      cases hputr : isPutRtp e with
      | true =>
          obtain ⟨hins, pkt, hpkt, hmem⟩ := (hrtp e hputr).mp he
          obtain ⟨dl, hdl⟩ := hq.inv.downLoading hins.1.2.2
          obtain ⟨hiff, hslot⟩ := groupRtppktIn_putRtp_iff hcounted hd hdl i.around pkt
          exact (inside_of_putRtp hputr (hslot e hmem) hpkt).mpr
            (hfits.rtp hins pkt hpkt (hiff.mp ⟨e, hmem, hputr⟩))
      | false =>
          cases hputf : isPutFec e with
          | true =>
              obtain ⟨_, hmem⟩ := (hfec e hputf).mp he
              obtain ⟨pkt, hdr, hpkt, hlost, hhdr⟩ := getFecpkt_copy hmem
              obtain ⟨hsame, hiff, hslot⟩ := htarget pkt hdr hpkt hlost hhdr
              rw [Inside.geometry hsame, inside_of_putFec hputf (hslot e hmem) hpkt]
              exact hfits.fec hf hlost pkt hdr hpkt hhdr (hiff.mp ⟨e, hmem, hputf⟩)
          | false => exact inside_of_other hputr hputf
  · -- nothing is taken from the queues
    constructor
    · intro _
      exact ⟨fun hc => absurd hc hf, fun hc => absurd hc.1.1 hf⟩
    · intro _ e he
      apply inside_of_other
      · rw [← Bool.not_eq_true]
        intro hput
        exact hf ((hrtp e hput).mp he).1.1.1
      · rw [← Bool.not_eq_true]
        intro hput
        exact hf ((hfec e hput).mp he).1

/-- An RTP packet of 1400 bytes for the group at 10. -/
def longRtp : Input := ⟨none, some { mkRtppkt 10 0x47 with dataSize := 1400 }, true, fun _ _ => 0, apart⟩

/-- A parity packet of 25 bytes for that group. -/
def shortFec : Input :=
  ⟨some { mkFecpkt 10 10 2 0 13 0x5A with dataSize := 25 }, none, true, fun _ _ => 0, apart⟩

/-- Slots of 13 bytes, and a packet of 13 bytes. -/
theorem readRun_copies_ten :
    ∃ st es, ReadRun fecOn st es ∧ (round st (onRtp 10)).2.any isPutRtp = true ∧
      ∀ e ∈ (round st (onRtp 10)).2, Inside (onRtp 10) (round st (onRtp 10)).1.ctx e := by
  refine exists_run_imp (fun st _ => (round st (onRtp 10)).2.any isPutRtp && decide (st.ctx.fecDecLen = 13))
    (by decide) fun st _ hrun htest => ?_
  obtain ⟨hput, hlen⟩ := Bool.and_eq_true_iff.mp htest
  refine ⟨hput, (readRun_copies_iff hrun (onRtp 10)).mpr ?_⟩
  constructor
  · intro _ _ pkt hdr hpkt
    cases hpkt
  · intro _ pkt hpkt _
    obtain rfl := Option.some.inj hpkt
    show 13 ≤ st.ctx.fecDecLen
    rw [of_decide_eq_true hlen]

/-- In the same state the long RTP packet is written over the end of its slot, and the short parity packet read over its
    own. -/
theorem copies_out_of_bounds :
    ∃ st es, ReadRun fecOn st es ∧ (∃ e ∈ (round st longRtp).2, ¬ Inside longRtp (round st longRtp).1.ctx e) ∧
      ∃ e ∈ (round st shortFec).2, ¬ Inside shortFec (round st shortFec).1.ctx e := by
  refine exists_run_imp (fun st _ => (round st longRtp).2.any isPutRtp &&
    decide ((round st longRtp).1.ctx.fecDecLen = 13) &&
      (round st shortFec).2.any isPutFec && decide ((round st shortFec).1.ctx.fecDecLen = 13))
    (by decide) fun _ _ _ htest => ?_
  simp only [Bool.and_eq_true, List.any_eq_true] at htest
  obtain ⟨⟨⟨⟨e, he, hr⟩, hlen⟩, e', he', hf⟩, hlen'⟩ := htest
  refine ⟨⟨e, he, ?_⟩, e', he', ?_⟩
  · cases e with
    | putRtp start index seq done =>
        rintro ⟨_, pkt, hpkt, hle⟩
        obtain rfl := Option.some.inj hpkt
        rw [of_decide_eq_true hlen] at hle
        exact absurd hle (by decide)
    | _ => cases hr
  · cases e' with
    | putFec start seq f done =>
        rintro ⟨_, pkt, hpkt, hle⟩
        obtain rfl := Option.some.inj hpkt
        rw [of_decide_eq_true hlen'] at hle
        exact absurd hle (by decide)
    | _ => cases hf

end HiSTB.Rtpfec
