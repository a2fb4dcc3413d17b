import HiSTB.Fec.Correctness.Erasure
import HiSTB.Rtpfec.Read

/-!
# `Rtpfec.Correctness.CheckMiss` — which groups `_rtpfec_check_miss` sends to the decoder

The two loops count the missing RTP and parity packets and give up early when too many are missing.

* `missLoops_some` — the counts of a group that gets through;
* `checkMiss_enough` — such a group has received at least `rtp_pkt_num` packets.
-/

namespace HiSTB.Rtpfec

open Fec Lib

variable {s s' : RTPFECContext} {lostMap : Nat → Int} {i : Nat} {t u : Miss}

/-- What the loops have established: the counts are the numbers of missing packets, the noted indices are
    missing RTP packets, and few enough packets are missing. -/
structure MissOk (M K : Nat) (lostMap : Nat → Int) (n m : Nat) (t : Miss) : Prop where
  rtp : t.lostPktCount = Nat.count (fun i => lostMap i = 0) n
  fec : t.lostFecCount = Nat.count (fun i => lostMap (K + i) = 0) m
  idx : ∀ j < t.lostPktCount, t.lostPktIdx j < n ∧ lostMap (t.lostPktIdx j) = 0
  need : t.needDec = true ↔ 0 < t.lostPktCount
  rtpFew : 0 < t.lostPktCount → t.lostPktCount + 1 ≤ M
  fecFew : 0 < t.lostFecCount → t.lostPktCount + t.lostFecCount + 2 ≤ M

theorem rtpMiss_ok
    (h : MissOk s.fecPktNum s.rtpPktNum lostMap i 0 t) (hu : rtpMiss s lostMap t i = some u) :
    MissOk s.fecPktNum s.rtpPktNum lostMap (i + 1) 0 u := by
  have hf : t.lostFecCount = 0 := h.fec
  unfold rtpMiss at hu
  by_cases hz : lostMap i = 0
  · rw [if_pos hz] at hu
    split at hu
    · cases hu
    · rename_i hfew
      obtain rfl := Option.some.inj hu
      refine ⟨?_, h.fec, ?_, ?_, ?_, ?_⟩
      · simp only [Nat.count_succ, if_pos hz]
        rw [h.rtp]
      · intro j hj
        simp only at hj ⊢
        by_cases hje : j = t.lostPktCount
        · rw [hje, Function.update_self]
          exact ⟨Nat.lt_succ_self i, hz⟩
        · rw [Function.update_of_ne hje]
          obtain ⟨h1, h2⟩ := h.idx j (by omega)
          exact ⟨Nat.lt_succ_of_lt h1, h2⟩
      · simp
      · intro _
        simp only
        omega
      · intro hpos
        simp only at hpos
        omega
  · rw [if_neg hz] at hu
    obtain rfl := Option.some.inj hu
    refine ⟨?_, h.fec, ?_, h.need, h.rtpFew, h.fecFew⟩
    · simp only [Nat.count_succ, if_neg hz, Nat.add_zero]
      exact h.rtp
    · intro j hj
      obtain ⟨h1, h2⟩ := h.idx j hj
      exact ⟨Nat.lt_succ_of_lt h1, h2⟩

theorem fecMiss_ok {n : Nat}
    (h : MissOk s.fecPktNum s.rtpPktNum lostMap n i t) (hu : fecMiss s lostMap t i = some u) :
    MissOk s.fecPktNum s.rtpPktNum lostMap n (i + 1) u := by
  unfold fecMiss at hu
  by_cases hz : lostMap (s.rtpPktNum + i) = 0
  · rw [if_pos hz] at hu
    split at hu
    · cases hu
    · rename_i hfew
      obtain rfl := Option.some.inj hu
      refine ⟨h.rtp, ?_, h.idx, h.need, h.rtpFew, ?_⟩
      · simp only [Nat.count_succ, if_pos hz]
        rw [h.fec]
      · intro _
        simp only
        omega
  · rw [if_neg hz] at hu
    obtain rfl := Option.some.inj hu
    refine ⟨h.rtp, ?_, h.idx, h.need, h.rtpFew, h.fecFew⟩
    simp only [Nat.count_succ, if_neg hz, Nat.add_zero]
    exact h.fec

/-- **The loops of `_rtpfec_check_miss`**, when they run to their end. -/
theorem missLoops_some (h : missLoops s lostMap = some t) :
    MissOk s.fecPktNum s.rtpPktNum lostMap s.rtpPktNum s.fecPktNum t := by
  unfold missLoops at h
  rw [Option.bind_eq_some_iff] at h
  obtain ⟨u, hu, ht⟩ := h
  have hrtp := forRangeM_inv (fun i v => MissOk s.fecPktNum s.rtpPktNum lostMap i 0 v)
    ⟨rfl, rfl, fun j hj => absurd hj (Nat.not_lt_zero j), by simp, fun hc => absurd hc (by simp),
      fun hc => absurd hc (by simp)⟩
    (fun i v w _ hv hw => rtpMiss_ok hv hw) hu
  exact forRangeM_inv (fun i v => MissOk s.fecPktNum s.rtpPktNum lostMap s.rtpPktNum i v) hrtp
    (fun i v w _ hv hw => fecMiss_ok hv hw) ht

/-- `_rtpfec_check_miss` asks for a decode only after both loops ran to their end. -/
theorem checkMiss_true (h : checkMiss s = (s', true)) :
    ∃ g t, s.groupCheckMiss = some g ∧ missLoops s g.lostMap = some t ∧ t.needDec = true ∧
      s' = { s with groupCheckMiss := some (setLostLen s g t) } := by
  unfold checkMiss at h
  cases hcm : s.groupCheckMiss with
  | none =>
    rw [hcm] at h
    cases h
  | some g =>
    rw [hcm] at h
    dsimp only at h
    cases ht : missLoops s g.lostMap with
    | none =>
      rw [ht] at h
      cases h
    | some t =>
      rw [ht] at h
      dsimp only at h
      by_cases hn : t.needDec = true
      · rw [if_pos hn] at h
        exact ⟨g, t, rfl, ht, hn, (Prod.mk.inj h).1.symm⟩
      · rw [if_neg hn] at h
        cases h

/-- Otherwise it changes nothing. -/
theorem checkMiss_false (h : checkMiss s = (s', false)) : s' = s := by
  unfold checkMiss at h
  split at h
  · exact (Prod.mk.inj h).1.symm
  · split at h
    · exact (Prod.mk.inj h).1.symm
    · split at h
      · cases h
      · exact (Prod.mk.inj h).1.symm

/-- A packet of the group is either received or missing. -/
theorem count_got_add_count_lost {N : Nat} (h : LostMapOk N lostMap) :
    Nat.count (Got lostMap) N + Nat.count (fun i => lostMap i = 0) N = N := by
  induction N with
  | zero => rfl
  | succ N ih =>
    have hN := ih (fun i hi => h i (Nat.lt_succ_of_lt hi))
    rw [Nat.count_succ, Nat.count_succ]
    rcases h N (Nat.lt_succ_self N) with h0 | h1
    · rw [if_neg (by unfold Got; omega), if_pos h0]
      omega
    · rw [if_pos (show Got lostMap N from h1), if_neg (by omega)]
      omega

/-- **A group sent to the decoder has enough packets**, at least one more than its number of RTP packets. -/
theorem checkMiss_enough {g : RTPFECPktGroup} (hcm : s.groupCheckMiss = some g)
    (hmap : LostMapOk (s.rtpPktNum + s.fecPktNum) g.lostMap) (h : checkMiss s = (s', true)) :
    s.rtpPktNum + 1 ≤ Nat.count (Got g.lostMap) (s.rtpPktNum + s.fecPktNum) := by
  obtain ⟨g', t, hcm', ht, hn, _⟩ := checkMiss_true h
  obtain rfl : g = g' := Option.some.inj (hcm.symm.trans hcm')
  have hok := missLoops_some ht
  have hsum := count_got_add_count_lost hmap
  rw [Nat.count_add (p := fun i => g.lostMap i = 0), ← hok.rtp, ← hok.fec] at hsum
  have hpos := hok.need.mp hn
  have hrtp := hok.rtpFew hpos
  by_cases hf : 0 < t.lostFecCount
  · have hfec := hok.fecFew hf
    omega
  · omega

end HiSTB.Rtpfec
