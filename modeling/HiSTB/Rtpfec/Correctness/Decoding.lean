import HiSTB.Rtpfec.Correctness.Owners

/-!
# `Rtpfec.Correctness.Decoding` — when the reader may hand a group to the codec

* `checkMiss_decode_isSome_iff` — a group that passes `_rtpfec_check_miss` is decoded without ending the
  process exactly when no parity packet in use repeats a received RTP packet, which can only happen with more
  than 255 packets in a group;
* `readRun_decode_geometry` — the codec decodes with the context's geometry as long as no new first parity
  packet announces another one after the codec was initialised.
-/

namespace HiSTB.Rtpfec

open Fec Lib

variable {s : RTPFECContext} {st : State} {i : Input}

/-! ## The matrix of an accepted group -/

/-- **An accepted group is decoded without ending the process, exactly when** every parity packet in use
    whose index is 255 or more has its data packet 255 places earlier missing (`NoRepeat`). -/
theorem checkMiss_decode_isSome_iff {c s s' : RTPFECContext} {pkt : Packet} {hdr : FecHeader}
    {g : RTPFECPktGroup} (hhdr : fecHeader c pkt = some hdr) (hK : s.rtpPktNum = hdr.rtpNum)
    (hM : s.fecPktNum = hdr.fecNum) (hcm : s.groupCheckMiss = some g)
    (hmap : LostMapOk (s.rtpPktNum + s.fecPktNum) g.lostMap) (hmiss : checkMiss s = (s', true))
    (heap data fecData : Rows) :
    (∃ p, Fec.fecInit s.rtpPktNum s.fecPktNum s.fecDecLen = some p ∧
      ∃ out, fecDecode p heap data fecData g.lostMap = some out) ↔
        NoRepeat s.rtpPktNum s.fecPktNum g.lostMap := by
  have hQ : Q = 255 := rfl
  obtain ⟨_, hnum, hfec, _, _⟩ := fecHeader_some hhdr
  have henough := checkMiss_enough hcm hmap hmiss
  obtain ⟨p, hp, hpK, hpM, _⟩ := fecInit_some (show s.rtpPktNum ≤ Q by omega) s.fecPktNum s.fecDecLen
  have hiff := fecDecode_isSome_iff_noRepeat hp (by omega) (by omega) hpK hpM heap data fecData
    (Nat.le_of_succ_le henough)
  constructor
  · rintro ⟨p', hp', hout⟩
    obtain rfl : p = p' := Option.some.inj (hp.symm.trans hp')
    exact hiff.mp hout
  · intro hno
    exact ⟨p, hp, hiff.mpr hno⟩

/-- A group of `K` RTP and `M` parity packets of which only RTP packet `lost` is missing. -/
def oneLost (K M len lost : Nat) : RTPFECContext :=
  let s : RTPFECContext := { init.ctx with rtpPktNum := K, fecPktNum := M, fecDecLen := len }
  { s with
    groupCheckMiss := some { newGroup s 0 with lostMap := fun i => if i = lost then 0 else 1 } }

theorem oneLost_mapOk (N lost : Nat) : LostMapOk N (fun i => if i = lost then 0 else 1) := by
  intro i _
  by_cases hi : i = lost
  · exact Or.inl (if_pos hi)
  · exact Or.inr (if_neg hi)

theorem checkMiss_eq (h : (checkMiss s).2 = true) :
    checkMiss s = ((checkMiss s).1, true) := Prod.ext rfl h

theorem oneLost_enough {K M len lost : Nat} (h : (checkMiss (oneLost K M len lost)).2 = true) :
    K + 1 ≤ Nat.count (Got (fun i => if i = lost then 0 else 1)) (K + M) :=
  checkMiss_enough (s := oneLost K M len lost) rfl (oneLost_mapOk _ lost) (checkMiss_eq h)

/-- 255 RTP packets and three parity packets, only RTP packet 1 missing: the first parity packet repeats
    RTP packet 0, and the codec ends the process. -/
theorem checkMiss_decode_exits :
    ∃ hdr s', fecHeader init.ctx (mkFecpkt 0 254 3 0 1 0) = some hdr ∧
      (oneLost 255 3 1 1).rtpPktNum = hdr.rtpNum ∧ (oneLost 255 3 1 1).fecPktNum = hdr.fecNum ∧
      checkMiss (oneLost 255 3 1 1) = (s', true) ∧
      ∃ g, (oneLost 255 3 1 1).groupCheckMiss = some g ∧ LostMapOk (255 + 3) g.lostMap ∧
        ∀ p heap data fecData, Fec.fecInit 255 3 1 = some p →
          fecDecode p heap data fecData g.lostMap = none := by
  have hQ : Q = 255 := rfl
  have hhdr : (fecHeader init.ctx (mkFecpkt 0 254 3 0 1 0)).any
      (fun h => decide (255 = h.rtpNum) && decide (3 = h.fecNum)) = true := by decide
  rw [Option.any_eq_true] at hhdr
  obtain ⟨hdr, hhdr, hnum⟩ := hhdr
  obtain ⟨hK, hM⟩ := Bool.and_eq_true_iff.mp hnum
  have hmiss : (checkMiss (oneLost 255 3 1 1)).2 = true := by decide +kernel
  refine ⟨hdr, (checkMiss (oneLost 255 3 1 1)).1, hhdr, of_decide_eq_true hK, of_decide_eq_true hM,
    checkMiss_eq hmiss, _, rfl, oneLost_mapOk _ 1, ?_⟩
  intro p heap data fecData hp
  have henough := Nat.le_of_succ_le (oneLost_enough hmiss)
  obtain ⟨p', hp', hpK, hpM, _⟩ := fecInit_some (show 255 ≤ Q by omega) 3 1
  obtain rfl : p = p' := Option.some.inj (hp.symm.trans hp')
  have hiff := fecDecode_isSome_iff_noRepeat hp (by omega) (by omega) hpK hpM heap data fecData henough
  cases hout : fecDecode p heap data fecData (fun i => if i = 1 then 0 else 1) with
  | none => rfl
  | some out =>
      -- parity packet 0 has index 255, is in use, and RTP packet 0 was received
      have hno := hiff.mp ⟨out, hout⟩
      refine absurd (hno 0 (by decide) (by decide) (by unfold Got; decide) ?_) ?_
      · have hsum := count_got_add_count_lost (oneLost_mapOk 255 1)
        have hlost : 0 < Nat.count (fun i => (if i = 1 then 0 else 1 : Int) = 0) 255 :=
          Nat.pos_of_ne_zero (Nat.count_ne_iff_exists.mpr ⟨1, by decide, by decide⟩)
        rw [Nat.add_zero]
        omega
      · unfold Got
        decide

/-- Four RTP packets and two parity packets, RTP packet 1 missing: the group is decoded. -/
theorem checkMiss_decode_isSome_four :
    ∃ hdr s', fecHeader init.ctx (mkFecpkt 0 3 2 0 1 0) = some hdr ∧
      checkMiss (oneLost 4 2 1 1) = (s', true) ∧
      ∃ p, Fec.fecInit 4 2 1 = some p ∧
        ∃ out, fecDecode p (fun _ _ => 0) (fun _ _ => 0) (fun _ _ => 0) (fun i => if i = 1 then 0 else 1)
          = some out := by
  have hhdr : (fecHeader init.ctx (mkFecpkt 0 3 2 0 1 0)).any
      (fun h => decide (4 = h.rtpNum) && decide (2 = h.fecNum)) = true := by decide
  rw [Option.any_eq_true] at hhdr
  obtain ⟨hdr, hhdr, hnum⟩ := hhdr
  obtain ⟨hK, hM⟩ := Bool.and_eq_true_iff.mp hnum
  have hmiss : (checkMiss (oneLost 4 2 1 1)).2 = true := by decide
  have hiff := checkMiss_decode_isSome_iff hhdr (s := oneLost 4 2 1 1) (of_decide_eq_true hK)
    (of_decide_eq_true hM) rfl (oneLost_mapOk _ 1) (checkMiss_eq hmiss) (fun _ _ => 0) (fun _ _ => 0)
    (fun _ _ => 0)
  refine ⟨hdr, _, hhdr, checkMiss_eq hmiss, hiff.mpr ?_⟩
  intro i hi hge
  have hQ : Q = 255 := rfl
  have hi' : i < 2 := hi
  have hge' : Q ≤ 4 + i := hge
  omega

/-! ## The geometry of the codec -/

/-- The geometry a header announces. -/
def FecHeader.geometry (h : FecHeader) : Geometry := ⟨h.rtpNum, h.fecNum, h.decLen⟩

/-- The header a round takes a new geometry from, if it does: a parity packet accepted with FEC off. -/
def firstHeader (st : State) (i : Input) : Option FecHeader :=
  if st.ctx.groupDone.isNone ∧ st.ctx.haveFec = false ∧ st.ctx.groupCheckMiss.isNone ∧
      st.ctx.rtpSeqLost = true then
    i.fecpkt.bind (fecHeader st.ctx)
  else none

/-- Once the codec is initialised, a first parity packet announces the geometry already there. -/
def KeepsGeometry (st : State) (i : Input) : Prop :=
  st.ctx.fecInit = true → ∀ hdr ∈ firstHeader st i, hdr.geometry = st.ctx.geometry

instance (st : State) (i : Input) : Decidable (KeepsGeometry st i) :=
  decidable_of_iff (st.ctx.fecInit = true → (firstHeader st i).all
      (fun hdr => decide (hdr.geometry = st.ctx.geometry)) = true) <| by
    unfold KeepsGeometry
    cases firstHeader st i <;> simp

/-- The codec has the context's geometry, once it is initialised. -/
def CodecOk (st : State) : Prop := st.ctx.fecInit = true → st.p.map codecGeometry = some st.ctx.geometry

/-- A decode uses the geometry of the context. -/
def GeometryOk : Event → Prop
  | .fecDecodeAdp codec ctx => codec = some ctx
  | _ => True

/-- The codec and what `CodecOk` says about the context are untouched. -/
def SameCodec (s t : RTPFECContext) : Prop := t.fecInit = s.fecInit ∧ t.geometry = s.geometry

theorem SameCodec.trans {t u : RTPFECContext} (h : SameCodec s t) (h' : SameCodec t u) : SameCodec s u :=
  ⟨h'.1.trans h.1, h'.2.trans h.2⟩

theorem CodecOk.of_same {st' : State} (h : CodecOk st) (hp : st'.p = st.p)
    (hsame : SameCodec st.ctx st'.ctx) : CodecOk st' := by
  intro hinit
  rw [hp, hsame.2]
  exact h (hsame.1 ▸ hinit)

variable {H : Holds}

theorem groupRtppktIn_sameCodec (h : Inv H s) (hd : s.groupDone = none)
    (hfec : s.haveFec = true) (a : Around) (pkt : Packet) :
    SameCodec s (groupRtppktIn a s pkt (rtpSeq pkt)).ctx ∧
      ∀ e ∈ (groupRtppktIn a s pkt (rtpSeq pkt)).events, GeometryOk e := by
  obtain ⟨dl, hdl⟩ := h.downLoading hfec
  rcases groupRtppktIn_cases h.pktNum h.groups hd hdl a pkt with
    ⟨g, _, _, heq⟩ | ⟨_, heq⟩ | ⟨_, heq⟩ | ⟨_, heq⟩
  all_goals
    rw [heq]
    exact ⟨⟨rfl, rfl⟩, by simp [GeometryOk]⟩

theorem checkmissToDone_sameCodec (s : RTPFECContext) : SameCodec s (groupCheckmissToDone s).1 := by
  unfold groupCheckmissToDone
  split <;> exact ⟨rfl, rfl⟩

theorem rebuildSlot_sameCodec (a : Around) (p : RSFec) (lostMap : Nat → Int) (out : Rows) (s : RTPFECContext)
    (i : Nat) : SameCodec s (rebuildSlot a p lostMap out s i) := by
  unfold rebuildSlot
  split
  · exact ⟨rfl, rfl⟩
  · split <;> exact ⟨rfl, rfl⟩

theorem groupFecpktIn_noDecode {dl : RTPFECPktGroup} (hdl : s.groupDownLoading = some dl)
    (pkt : Packet) (pktseq : Int) (fecSeq : Nat) :
    ∀ e ∈ (groupFecpktIn s pkt pktseq fecSeq).events, GeometryOk e := by
  rcases groupFecpktIn_cases pkt hdl pktseq fecSeq with
    ⟨g, _, _, heq⟩ | ⟨_, _, heq⟩ | ⟨_, _, heq⟩ | ⟨_, heq⟩
  all_goals
    rw [heq]
    simp [GeometryOk]

/-- `_rtpfec_get_fecpkt` keeps `CodecOk` under the condition, and decodes nothing. -/
theorem getFecpkt_codecOk (h : Inv H st.ctx) (hok : CodecOk st)
    (hcond : KeepsGeometry st i) (hd : st.ctx.groupDone = none)
    (hcm : st.ctx.haveFec = false → st.ctx.groupCheckMiss = none) :
    CodecOk { st with ctx := (getFecpkt st.ctx i.fecpkt).ctx } ∧
      ∀ e ∈ (getFecpkt st.ctx i.fecpkt).events, GeometryOk e := by
  unfold getFecpkt
  cases hpkt : i.fecpkt with
  | none => exact ⟨hok, fun e he => absurd he List.not_mem_nil⟩
  | some pkt =>
    dsimp only
    split
    · exact ⟨hok, fun e he => absurd he List.not_mem_nil⟩
    · rename_i hlost
      cases hhdr : fecHeader st.ctx pkt with
      | none => exact ⟨hok, fun e he => absurd he List.not_mem_nil⟩
      | some hdr =>
        dsimp only
        cases hfec : st.ctx.haveFec with
        | true =>
          obtain ⟨dl, hdl⟩ := h.downLoading hfec
          obtain ⟨_, _, hinit, hgeo⟩ := groupFecpktIn_same hdl pkt hdr.rtpSeqStart hdr.fecSeq
          unfold acceptFecpkt
          rw [if_pos hfec]
          refine ⟨hok.of_same rfl ⟨hinit, hgeo⟩, ?_⟩
          intro e he
          rcases List.mem_cons.mp he with rfl | he
          · trivial
          · exact groupFecpktIn_noDecode hdl pkt _ _ e he
        | false =>
          have hdl := h.downLoading_none hfec
          obtain ⟨_, _, hinit, hgeo⟩ :=
            groupFecpktIn_same (s := firstGroup st.ctx hdr) rfl pkt hdr.rtpSeqStart hdr.fecSeq
          rw [acceptFecpkt_first pkt hfec hdl hd]
          constructor
          · -- the new geometry is the old one, if the codec is there already
            intro hi
            have hold : st.ctx.fecInit = true := by
              rw [← hi]
              exact hinit.symm
            have hfirst : firstHeader st i = some hdr := by
              unfold firstHeader
              rw [if_pos ⟨by rw [hd]; rfl, hfec, by rw [hcm hfec]; rfl, by simpa using hlost⟩, hpkt]
              exact hhdr
            have hsame := hcond hold hdr (by rw [hfirst]; rfl)
            rw [show st.p.map codecGeometry = some st.ctx.geometry from hok hold, ← hsame]
            exact congrArg some hgeo.symm
          · intro e he
            rcases List.mem_cons.mp he with rfl | he
            · trivial
            · exact groupFecpktIn_noDecode (s := firstGroup st.ctx hdr) rfl pkt _ _ e he

/-- After `fec_init_adp`, or its omission, the codec has the context's geometry. -/
theorem initCodec_codecOk (hok : CodecOk st) :
    CodecOk (initCodec st) ∧ ((initCodec st).exited = false →
        (initCodec st).p.map codecGeometry = some (initCodec st).ctx.geometry) := by
  unfold initCodec
  split
  · rename_i hinit
    exact ⟨hok, fun _ => hok hinit⟩
  · split
    · exact ⟨hok, fun hx => Bool.noConfusion hx⟩
    · rename_i p hp
      have hgeo : some (codecGeometry p) = some st.ctx.geometry := congrArg some (fecInit_geometry hp)
      exact ⟨fun _ => hgeo, fun _ => hgeo⟩

theorem decodeCheckMiss_codecOk (hok : CodecOk st) (a : Around) (heap : Rows) :
    CodecOk (decodeCheckMiss a st heap) := by
  unfold decodeCheckMiss
  split
  · split
    · exact hok
    · refine hok.of_same rfl (SameCodec.trans ?_ (checkmissToDone_sameCodec _))
      exact forRange_inv (fun _ t => SameCodec st.ctx t) ⟨rfl, rfl⟩
        fun i t _ ht => ht.trans (rebuildSlot_sameCodec a _ _ _ t i)
  · exact hok

theorem checkMissRound_codecOk (hok : CodecOk st) (a : Around) (heap : Rows) :
    CodecOk (checkMissRound a st heap).1 ∧ ∀ e ∈ (checkMissRound a st heap).2, GeometryOk e := by
  have hcheck : CodecOk { st with ctx := (checkMiss st.ctx).1 } := hok.of_same rfl (checkMiss_same st.ctx).2
  obtain ⟨hinit, hgeo⟩ := initCodec_codecOk hcheck
  unfold checkMissRound
  dsimp only
  split
  · split
    · exact ⟨hinit, fun e he => absurd he List.not_mem_nil⟩
    · rename_i hx
      refine ⟨decodeCheckMiss_codecOk hinit a heap, ?_⟩
      intro e he
      obtain rfl := List.mem_singleton.mp he
      exact hgeo (by simpa using hx)
  · exact ⟨hcheck.of_same rfl (checkmissToDone_sameCodec _), fun e he => absurd he List.not_mem_nil⟩

theorem packetRound_codecOk (st : State) (h : Inv H st.ctx) (hok : CodecOk st)
    (hd : st.ctx.groupDone = none) :
    CodecOk (packetRound st i).1 ∧ ∀ e ∈ (packetRound st i).2, GeometryOk e := by
  unfold packetRound
  split
  · rename_i hfec
    split
    · exact checkMissRound_codecOk hok i.around i.heap
    · unfold rtpRound
      cases i.rtppkt with
      | none => exact ⟨hok, fun e he => absurd he List.not_mem_nil⟩
      | some pkt =>
        obtain ⟨hsame, hev⟩ := groupRtppktIn_sameCodec (counted_quiet h).inv hd hfec i.around pkt
        refine ⟨hok.of_same rfl hsame, ?_⟩
        intro e he
        rcases List.mem_cons.mp he with rfl | he
        · trivial
        · exact hev e he
  · refine ⟨hok.of_same rfl ?_, fun e he => absurd he List.not_mem_nil⟩
    unfold noFecRound
    cases i.rtppkt with
    | none => exact ⟨rfl, rfl⟩
    | some pkt =>
      dsimp only
      split <;> exact ⟨rfl, rfl⟩

/-- **A round keeps `CodecOk` under the condition**, and its decode, if any, has the right geometry. -/
theorem round_codecOk (h : Inv H st.ctx) (hok : CodecOk st)
    (hcond : KeepsGeometry st i) : CodecOk (round st i).1 ∧ ∀ e ∈ (round st i).2, GeometryOk e := by
  unfold round
  cases hd : st.ctx.groupDone with
  | some g =>
    dsimp only
    unfold doneRound
    split
    · exact ⟨hok.of_same rfl ⟨rfl, rfl⟩, fun e he => absurd he List.not_mem_nil⟩
    · refine ⟨hok.of_same rfl ⟨rfl, rfl⟩, ?_⟩
      intro e he
      obtain rfl := List.mem_singleton.mp he
      trivial
  | none =>
    dsimp only
    split
    · exact ⟨hok.of_same rfl (checkmissToDone_sameCodec _), fun e he => absurd he List.not_mem_nil⟩
    · rename_i hno
      have hcm := Fetches.checkMiss_none ⟨hd, hno⟩
      obtain ⟨hq, hd', _⟩ := getFecpkt_quiet h hd hcm i.fecpkt
      obtain ⟨hget, hev⟩ := getFecpkt_codecOk h hok hcond hd hcm
      unfold fecpktRound
      dsimp only
      split
      · exact ⟨hget, hev⟩
      · obtain ⟨hpkt, hev'⟩ :=
          packetRound_codecOk { st with ctx := (getFecpkt st.ctx i.fecpkt).ctx } (i := i) hq.inv hget hd'
        refine ⟨hpkt, ?_⟩
        intro e he
        rcases List.mem_append.mp he with he | he
        · exact hev e he
        · exact hev' e he

/-- The codec has the context's geometry all along a run that meets the condition. -/
theorem keepsRun_codecOk {is : List Input} {es : List Event}
    (h : Run step KeepsGeometry init is st es) : Inv anything st.ctx ∧ CodecOk st :=
  h.inv (fun _ st => Inv anything st.ctx ∧ CodecOk st)
    ⟨init_inv _, fun hinit => Bool.noConfusion hinit⟩
    (fun _ _ i _ _ hinv hcond hstep => by
      have hround := step_eq hstep
      have hok := (round_codecOk (i := i) hinv.1 hinv.2 hcond).1
      rw [hround] at hok
      exact ⟨(step_ok hinv.1 (loose_anything.admits _ i) hstep).1, hok⟩)

/-- **Groups are decoded with the geometry their headers announced**, in every run in which a parity packet
    accepted with FEC off, after the codec was initialised, announces the geometry already there. -/
theorem readRun_decode_geometry {is : List Input} {st : State} {es : List Event}
    (h : Run step KeepsGeometry init is st es) :
    ∀ codec ctx, Event.fecDecodeAdp codec ctx ∈ es → codec = some ctx := by
  have hall := h.effects (fun _ e => GeometryOk e) (fun hr => keepsRun_codecOk hr) (fun _ _ _ he => he)
    (fun _ _ i _ _ hinv hcond hstep => by
      have hround := step_eq hstep
      have hev := (round_codecOk (i := i) hinv.1 hinv.2 hcond).2
      rw [hround] at hev
      exact hev)
  exact fun codec ctx he => hall _ he

/-- Group 10 loses its RTP packet and gets both parity packets; eleven more RTP packets make the reader
    check and decode it. -/
def firstDecode : List Input :=
  fecOn ++ [onFec 10 10 2 0 13, onFec 10 10 2 1 13, onRtp 11] ++ List.replicate 11 (onRtp 11) ++ [onIdle]

/-- A jump in the RTP sequence numbers ends the FEC phase; the next one has groups of two RTP packets and
    three parity packets, and group 21 loses RTP packet 22. -/
def newGeometry : List Input :=
  [onIdle, onIdle, onRtp 1000, onIdle, onIdle, onIdle, onFec 19 20 3 0 13, onFec 21 22 3 0 13,
    onFec 21 22 3 1 13, onFec 21 22 3 2 13, onRtp 21, onRtp 23] ++ List.replicate 11 (onRtp 23) ++ [onIdle]

/-- The effect is a decode with a geometry that is not the context's. -/
def wrongGeometry : Event → Bool
  | .fecDecodeAdp codec ctx => decide (codec ≠ some ctx)
  | _ => false

/-- After the change of geometry the group is decoded with the old one. -/
theorem readRun_decode_stale_geometry :
    ∃ st es, ReadRun (firstDecode ++ newGeometry) st es ∧
      ∃ codec ctx, Event.fecDecodeAdp codec ctx ∈ es ∧ codec ≠ some ctx := by
  refine exists_run_imp (fun _ es => es.any wrongGeometry) (by decide +kernel) fun _ _ _ htest => ?_
  obtain ⟨e, he, hwrong⟩ := List.any_eq_true.mp htest
  unfold wrongGeometry at hwrong
  split at hwrong
  · exact ⟨_, _, he, of_decide_eq_true hwrong⟩
  · cases hwrong

/-- The first decode, before any change of geometry. -/
theorem readRun_decode_geometry_first :
    ∃ st es, Run step KeepsGeometry init firstDecode st es ∧
      (∃ codec ctx, Event.fecDecodeAdp codec ctx ∈ es) ∧
      ∀ codec ctx, Event.fecDecodeAdp codec ctx ∈ es → codec = some ctx := by
  refine exists_run_imp (fun _ es => es.any (fun e => match e with | .fecDecodeAdp _ _ => true | _ => false))
    (by decide +kernel) fun _ _ hrun htest => ?_
  refine ⟨?_, readRun_decode_geometry hrun⟩
  obtain ⟨e, he, hdec⟩ := List.any_eq_true.mp htest
  split at hdec
  · exact ⟨_, _, he⟩
  · cases hdec

end HiSTB.Rtpfec
