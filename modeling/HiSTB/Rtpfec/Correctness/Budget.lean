import HiSTB.Rtpfec.Correctness.CheckMiss

/-!
# `Rtpfec.Correctness.Budget` — how much loss `_rtpfec_check_miss` lets the decoder repair

A group with `M` parity packets can be repaired while at most `M` of its packets are missing. The loop over the RTP
packets compares the losses before the current one with `M - 1`, the loop over the parity packets those including it, so
the two give up at different losses.

* `missLoops_isSome_iff` — the losses with which both loops run to their end;
* `setLostLen_eq` — the slots that get a length;
* `checkMiss_budget_iff` — when the verdict is the one the decoder could live up to.
-/

namespace HiSTB.Rtpfec

open Fec Lib

variable {s : RTPFECContext} {lostMap : Nat → Int} {t u : Miss} {n i : Nat}

variable {g : RTPFECPktGroup}

/-- The missing RTP packets. -/
def missingRtp (s : RTPFECContext) (lostMap : Nat → Int) : Nat := Nat.count (fun i => lostMap i = 0) s.rtpPktNum

/-- The missing parity packets. -/
def missingFec (s : RTPFECContext) (lostMap : Nat → Int) : Nat :=
  Nat.count (fun i => lostMap (s.rtpPktNum + i) = 0) s.fecPktNum

/-- The local variables before the loops. -/
def noMiss : Miss where
  needDec := false
  lostPktCount := 0
  lostPktIdx := fun _ => 0
  lostFecCount := 0

theorem noMiss_ok (M K : Nat) (lostMap : Nat → Int) : MissOk M K lostMap 0 0 noMiss := by
  constructor
  · rfl
  · rfl
  · intro j hj
    exact absurd hj (Nat.not_lt_zero j)
  · simp [noMiss]
  · intro hc
    exact absurd hc (Nat.lt_irrefl 0)
  · intro hc
    exact absurd hc (Nat.lt_irrefl 0)

/-! ## The loop over the RTP packets -/

theorem rtpMiss_some (h : lostMap i = 0 → t.lostPktCount + 2 ≤ s.fecPktNum) : ∃ u, rtpMiss s lostMap t i = some u := by
  unfold rtpMiss
  by_cases hz : lostMap i = 0
  · have hfew := h hz
    rw [if_pos hz, if_neg (by omega)]
    exact ⟨_, rfl⟩
  · rw [if_neg hz]
    exact ⟨t, rfl⟩

theorem rtpLoop_ok (h : forRangeM n (rtpMiss s lostMap) noMiss = some t) :
    MissOk s.fecPktNum s.rtpPktNum lostMap n 0 t :=
  forRangeM_inv (fun i t => MissOk s.fecPktNum s.rtpPktNum lostMap i 0 t) (noMiss_ok _ _ _)
    (fun _ _ _ _ ht hu => rtpMiss_ok ht hu) h

/-- The loop runs to its end when fewer RTP packets are missing than there are parity packets. -/
theorem rtpLoop_some (hfew : 0 < missingRtp s lostMap → missingRtp s lostMap + 1 ≤ s.fecPktNum) :
    ∃ t, forRangeM s.rtpPktNum (rtpMiss s lostMap) noMiss = some t ∧
      MissOk s.fecPktNum s.rtpPktNum lostMap s.rtpPktNum 0 t := by
  apply forRangeM_inv_some (fun i t => MissOk s.fecPktNum s.rtpPktNum lostMap i 0 t)
  · exact noMiss_ok _ _ _
  · intro i t hi ht
    have hsome : ∃ u, rtpMiss s lostMap t i = some u := by
      apply rtpMiss_some
      intro hz
      -- the packet is one of the missing ones
      have hcount : Nat.count (fun i => lostMap i = 0) (i + 1) ≤ missingRtp s lostMap := Nat.count_monotone _ hi
      rw [Nat.count_succ, if_pos hz, ← ht.rtp] at hcount
      have hle := hfew (by omega)
      omega
    obtain ⟨u, hu⟩ := hsome
    exact ⟨u, hu, rtpMiss_ok ht hu⟩

/-- Every missing packet is noted. -/
theorem rtpMiss_noted (h : ∀ j < n, lostMap j = 0 → ∃ k < t.lostPktCount, t.lostPktIdx k = j)
    (hu : rtpMiss s lostMap t n = some u) :
    ∀ j < n + 1, lostMap j = 0 → ∃ k < u.lostPktCount, u.lostPktIdx k = j := by
  intro j hj hz
  unfold rtpMiss at hu
  by_cases hn : lostMap n = 0
  · rw [if_pos hn] at hu
    split at hu
    · cases hu
    · obtain rfl := Option.some.inj hu
      dsimp only
      by_cases hjn : j = n
      · exact ⟨t.lostPktCount, Nat.lt_succ_self _, by rw [Function.update_self, hjn]⟩
      · obtain ⟨k, hk, hidx⟩ := h j (by omega) hz
        refine ⟨k, Nat.lt_succ_of_lt hk, ?_⟩
        rw [Function.update_of_ne (Nat.ne_of_lt hk), hidx]
  · rw [if_neg hn] at hu
    obtain rfl := Option.some.inj hu
    apply h j _ hz
    have hne : j ≠ n := by
      rintro rfl
      exact hn hz
    omega

theorem rtpLoop_noted (h : forRangeM n (rtpMiss s lostMap) noMiss = some t) :
    ∀ j < n, lostMap j = 0 → ∃ k < t.lostPktCount, t.lostPktIdx k = j :=
  forRangeM_inv (fun n (t : Miss) => ∀ j < n, lostMap j = 0 → ∃ k < t.lostPktCount, t.lostPktIdx k = j)
    (fun j hj => absurd hj (Nat.not_lt_zero j)) (fun _ _ _ _ ht hu => rtpMiss_noted ht hu) h

/-! ## The loop over the parity packets -/

theorem fecMiss_some (h : lostMap (s.rtpPktNum + i) = 0 → t.lostPktCount + t.lostFecCount + 3 ≤ s.fecPktNum) :
    ∃ u, fecMiss s lostMap t i = some u := by
  unfold fecMiss
  by_cases hz : lostMap (s.rtpPktNum + i) = 0
  · have hfew := h hz
    rw [if_pos hz, if_neg (by push_cast; omega)]
    exact ⟨_, rfl⟩
  · rw [if_neg hz]
    exact ⟨t, rfl⟩

/-- It leaves the notes alone. -/
theorem fecMiss_notes (hu : fecMiss s lostMap t i = some u) :
    u.lostPktCount = t.lostPktCount ∧ u.lostPktIdx = t.lostPktIdx := by
  unfold fecMiss at hu
  split at hu
  · split at hu
    · cases hu
    · obtain rfl := Option.some.inj hu
      exact ⟨rfl, rfl⟩
  · obtain rfl := Option.some.inj hu
    exact ⟨rfl, rfl⟩

/-- The loop runs to its end when none is missing, or two packets fewer than there are parity packets. -/
theorem fecLoop_some (ht : MissOk s.fecPktNum s.rtpPktNum lostMap s.rtpPktNum 0 t)
    (hfew : 0 < missingFec s lostMap → missingRtp s lostMap + missingFec s lostMap + 2 ≤ s.fecPktNum) :
    ∃ u, forRangeM s.fecPktNum (fecMiss s lostMap) t = some u ∧
      MissOk s.fecPktNum s.rtpPktNum lostMap s.rtpPktNum s.fecPktNum u := by
  apply forRangeM_inv_some (fun i t => MissOk s.fecPktNum s.rtpPktNum lostMap s.rtpPktNum i t)
  · exact ht
  · intro i u hi hu
    have hsome : ∃ v, fecMiss s lostMap u i = some v := by
      apply fecMiss_some
      intro hz
      have hcount : Nat.count (fun i => lostMap (s.rtpPktNum + i) = 0) (i + 1) ≤ missingFec s lostMap :=
        Nat.count_monotone _ hi
      rw [Nat.count_succ, if_pos hz, ← hu.fec] at hcount
      have hrtp : u.lostPktCount = missingRtp s lostMap := hu.rtp
      have hle := hfew (by omega)
      omega
    obtain ⟨v, hv⟩ := hsome
    exact ⟨v, hv, fecMiss_ok hu hv⟩

/-! ## Both loops -/

/-- The losses with which the loops run to their end. -/
def Affordable (s : RTPFECContext) (lostMap : Nat → Int) : Prop :=
  (0 < missingRtp s lostMap → missingRtp s lostMap + 1 ≤ s.fecPktNum) ∧
    (0 < missingFec s lostMap → missingRtp s lostMap + missingFec s lostMap + 2 ≤ s.fecPktNum)

theorem missLoops_isSome_iff : (∃ t, missLoops s lostMap = some t) ↔ Affordable s lostMap := by
  constructor
  · rintro ⟨t, h⟩
    have hok := missLoops_some h
    have hrtp : t.lostPktCount = missingRtp s lostMap := hok.rtp
    have hfec : t.lostFecCount = missingFec s lostMap := hok.fec
    constructor
    · rw [← hrtp]
      exact hok.rtpFew
    · rw [← hrtp, ← hfec]
      exact hok.fecFew
  · rintro ⟨hrtp, hfec⟩
    obtain ⟨t, ht, hok⟩ := rtpLoop_some hrtp
    obtain ⟨u, hu, _⟩ := fecLoop_some hok hfec
    refine ⟨u, ?_⟩
    show (forRangeM s.rtpPktNum (rtpMiss s lostMap) noMiss).bind _ = _
    rw [ht, Option.bind_some, hu]

theorem missLoops_noted (h : missLoops s lostMap = some t) :
    ∀ j < s.rtpPktNum, lostMap j = 0 → ∃ k < t.lostPktCount, t.lostPktIdx k = j := by
  have hloops : (forRangeM s.rtpPktNum (rtpMiss s lostMap) noMiss).bind
      (fun t => forRangeM s.fecPktNum (fecMiss s lostMap) t) = some t := h
  rw [Option.bind_eq_some_iff] at hloops
  obtain ⟨u, hu, ht⟩ := hloops
  have hsame : t.lostPktCount = u.lostPktCount ∧ t.lostPktIdx = u.lostPktIdx := by
    refine forRangeM_inv (fun _ (v : Miss) => v.lostPktCount = u.lostPktCount ∧ v.lostPktIdx = u.lostPktIdx)
      ⟨rfl, rfl⟩ ?_ ht
    rintro i v w _ ⟨hc, hi⟩ hw
    obtain ⟨hc', hi'⟩ := fecMiss_notes hw
    exact ⟨hc'.trans hc, hi'.trans hi⟩
  rw [hsame.1, hsame.2]
  exact rtpLoop_noted hu

/-! ## The lengths -/

/-- The noted slots get `fec_dec_len`, the others keep their length. -/
theorem setLostLen_apply (s : RTPFECContext) (g : RTPFECPktGroup) (t : Miss) (slot : Nat) :
    ((∃ k < t.lostPktCount, t.lostPktIdx k = slot) → (setLostLen s g t).aPktRtpLen slot = s.fecDecLen) ∧
      ((∀ k < t.lostPktCount, t.lostPktIdx k ≠ slot) → (setLostLen s g t).aPktRtpLen slot = g.aPktRtpLen slot) := by
  unfold setLostLen
  dsimp only
  induction t.lostPktCount with
  | zero =>
    constructor
    · rintro ⟨k, hk, _⟩
      exact absurd hk (Nat.not_lt_zero k)
    · intro _
      rfl
  | succ c ih =>
    rw [forRange_succ]
    by_cases hc : t.lostPktIdx c = slot
    · rw [hc, Function.update_self]
      constructor
      · intro _
        rfl
      · intro hno
        exact absurd hc (hno c (Nat.lt_succ_self c))
    · rw [Function.update_of_ne (Ne.symm hc)]
      constructor
      · rintro ⟨k, hk, hidx⟩
        apply ih.1
        have hne : k ≠ c := by
          rintro rfl
          exact hc hidx
        exact ⟨k, by omega, hidx⟩
      · intro hno
        exact ih.2 (fun k hk => hno k (Nat.lt_succ_of_lt hk))

/-- **Precisely the missing RTP packets get a new length.** -/
theorem setLostLen_eq (h : missLoops s g.lostMap = some t) :
    (setLostLen s g t).aPktRtpLen
      = fun slot => if slot < s.rtpPktNum ∧ g.lostMap slot = 0 then s.fecDecLen else g.aPktRtpLen slot := by
  funext slot
  obtain ⟨hset, hkeep⟩ := setLostLen_apply s g t slot
  by_cases hmiss : slot < s.rtpPktNum ∧ g.lostMap slot = 0
  · rw [if_pos hmiss]
    exact hset (missLoops_noted h slot hmiss.1 hmiss.2)
  · rw [if_neg hmiss]
    apply hkeep
    rintro k hk rfl
    exact hmiss ((missLoops_some h).idx k hk)

/-! ## The verdict -/

/-- `_rtpfec_check_miss` returns 1 when an RTP packet is missing and the losses are affordable. -/
theorem checkMiss_iff (hcm : s.groupCheckMiss = some g) :
    (checkMiss s).2 = true ↔ 0 < missingRtp s g.lostMap ∧ Affordable s g.lostMap := by
  rw [← missLoops_isSome_iff]
  simp only [checkMiss, hcm]
  cases ht : missLoops s g.lostMap with
  | none => simp
  | some t =>
    have hok := missLoops_some ht
    have hrtp : t.lostPktCount = missingRtp s g.lostMap := hok.rtp
    have hneed := hok.need
    rw [hrtp] at hneed
    by_cases hn : t.needDec = true
    · simp [hn, hneed.mp hn]
    · simp [hn, hneed.not.mp hn]

/-- What a verdict of 1 leaves behind. -/
theorem checkMiss_marks (hcm : s.groupCheckMiss = some g) (h : (checkMiss s).2 = true) :
    (checkMiss s).1 = { s with groupCheckMiss := some { g with
      aPktRtpLen := fun slot =>
        if slot < s.rtpPktNum ∧ g.lostMap slot = 0 then s.fecDecLen else g.aPktRtpLen slot } } := by
  have hrun : checkMiss s = ((checkMiss s).1, true) := Prod.ext rfl h
  obtain ⟨g', t, hcm', ht, _, heq⟩ := checkMiss_true hrun
  obtain rfl : g = g' := Option.some.inj (hcm.symm.trans hcm')
  rw [heq, ← setLostLen_eq ht]
  rfl

/-- **The verdict of `_rtpfec_check_miss` on a group** of `M` parity packets is 1 exactly when an RTP packet is missing
    and at most `M` packets are, if and only if such a loss is less than `M`, and with a missing parity packet even two
    less. In any case `lost_pkt_idx` is written only within its 20 entries, and a verdict of 1 gives precisely the
    missing RTP packets the length `fec_dec_len`. -/
theorem checkMiss_budget_iff {g : RTPFECPktGroup} (hcm : s.groupCheckMiss = some g) (hslots : s.fecPktNum ≤ 20) :
    (((checkMiss s).2 = true ↔
          0 < missingRtp s g.lostMap ∧ missingRtp s g.lostMap + missingFec s g.lostMap ≤ s.fecPktNum) ∧
        (∀ n t u, forRangeM n (rtpMiss s g.lostMap) noMiss = some t → rtpMiss s g.lostMap t n = some u →
          u.lostPktCount ≤ 20) ∧
        ((checkMiss s).2 = true →
          (checkMiss s).1 = { s with groupCheckMiss := some { g with
            aPktRtpLen := fun slot =>
              if slot < s.rtpPktNum ∧ g.lostMap slot = 0 then s.fecDecLen else g.aPktRtpLen slot } })) ↔
      (0 < missingRtp s g.lostMap → missingRtp s g.lostMap + missingFec s g.lostMap ≤ s.fecPktNum →
        missingRtp s g.lostMap < s.fecPktNum ∧
          (missingFec s g.lostMap = 0 ∨ missingRtp s g.lostMap + missingFec s g.lostMap + 2 ≤ s.fecPktNum)) := by
  have hidx : ∀ n t u, forRangeM n (rtpMiss s g.lostMap) noMiss = some t → rtpMiss s g.lostMap t n = some u →
      u.lostPktCount ≤ 20 := by
    intro n t u ht hu
    have hok := rtpMiss_ok (rtpLoop_ok ht) hu
    have hfew := hok.rtpFew
    omega
  rw [checkMiss_iff hcm]
  unfold Affordable
  constructor
  · rintro ⟨hverdict, _, _⟩ hpos hle
    obtain ⟨_, hrtp, hfec⟩ := hverdict.mpr ⟨hpos, hle⟩
    have hlt := hrtp hpos
    refine ⟨by omega, ?_⟩
    rcases Nat.eq_zero_or_pos (missingFec s g.lostMap) with h0 | hpos'
    · exact Or.inl h0
    · exact Or.inr (hfec hpos')
  · intro hcond
    refine ⟨?_, hidx, ?_⟩
    · constructor
      · rintro ⟨hpos, hrtp, hfec⟩
        have hlt := hrtp hpos
        refine ⟨hpos, ?_⟩
        rcases Nat.eq_zero_or_pos (missingFec s g.lostMap) with h0 | hpos'
        · omega
        · have hle := hfec hpos'
          omega
      · rintro ⟨hpos, hle⟩
        obtain ⟨hlt, hfec⟩ := hcond hpos hle
        refine ⟨hpos, fun _ => by omega, fun hpos' => ?_⟩
        omega
    · rintro ⟨hpos, hafford⟩
      exact checkMiss_marks hcm ((checkMiss_iff hcm).mpr ⟨hpos, hafford⟩)

/-- A context that checks a group of four RTP packets and `m` parity packets. -/
def checking (m : Nat) (lostMap : Nat → Int) : RTPFECContext :=
  { init.ctx with
    rtpPktNum := 4
    fecPktNum := m
    fecDecLen := 1400
    groupCheckMiss := some
      { slotLen := 1400
        paPktRtp := fun _ => some (fun _ => 0)
        aPktRtpLen := fun _ => 0
        paPktFec := fun _ => some (fun _ => 0)
        lostMap := lostMap
        pktReadPos := 0
        rtpPktSize := 0
        rtpSeqStart := 10
        rtpSeqEnd := 13
        seqReverse := false } }

/-- All but the packets `l` are received. -/
def allBut (l : List Nat) (i : Nat) : Int := if i ∈ l then 0 else 1

/-- One RTP packet and one of four parity packets are missing. -/
theorem checkMiss_budget_four :
    (checkMiss (checking 4 (allBut [2, 5]))).2 = true ∧
      (checkMiss (checking 4 (allBut [2, 5]))).1.groupCheckMiss.map (fun g => (List.range 4).map g.aPktRtpLen)
        = some [0, 0, 1400, 0] := by
  have h := (checkMiss_budget_iff (s := checking 4 (allBut [2, 5])) rfl (by decide)).mpr
    (fun _ _ => by decide)
  have hverdict := h.1.mpr (by decide)
  refine ⟨hverdict, ?_⟩
  rw [h.2.2 hverdict]
  decide

/-- One RTP packet is missing and the only parity packet is there; and one of each is missing where there are two parity
    packets. -/
theorem checkMiss_gives_up :
    (missingRtp (checking 1 (allBut [2])) (allBut [2]) + missingFec (checking 1 (allBut [2])) (allBut [2]) = 1 ∧
      (checkMiss (checking 1 (allBut [2]))).2 = false) ∧
    (missingRtp (checking 2 (allBut [2, 5])) (allBut [2, 5]) = 1 ∧
      missingFec (checking 2 (allBut [2, 5])) (allBut [2, 5]) = 1 ∧
      (checkMiss (checking 2 (allBut [2, 5]))).2 = false) := by
  decide

end HiSTB.Rtpfec
