import HiSTB.Omxvdec.Correctness.Window
import Mathlib.Algebra.Group.Int.Defs
import Mathlib.Algebra.Group.Nat.Defs

/-!
# `Omxvdec.Correctness.Rate` — rates that are compared, and the rate of a window

`OPTM_ALG_ABS` of a difference of `HI_U32` is that difference modulo 2^32, so a rate below the one it is compared with
looks far away, or, once it is an `HI_S32`, close. The product with 10 in `OMX_OPTM_ALG_InPTSSqn_CalNowRate` is one
modulo 2^32 as well.

* `frameRateDetect_symmetric_iff` — when both comparisons treat a rising and a falling rate alike;
* `calNowRate_rule_iff` — when a rate that is not 0 is the one of the time stamps.
-/

namespace HiSTB.Omxvdec

open Lib

variable {invalid pts : U32} {s t : FrdInfo} {env : Bool}

/-- The distance of two numbers. -/
def rateDist (a b : Nat) : Nat := max a b - min a b

/-! ## The end of a queue window -/

/-- The frame is counted, or it is the first one. -/
def counted (invalid : U32) (s : FrdInfo) (pts : U32) : FrdInfo :=
  if s.u320Pts = invalid then { s with u320Pts := pts } else { s with queCnt := s.queCnt + 1 }

theorem queWindow_eq : queWindow invalid s pts =
    if (counted invalid s pts).queCnt = 61 then queWindowEnd (counted invalid s pts) pts
      else (counted invalid s pts, []) := rfl

/-- The rate of the 60 frames, in tenths of a frame per second. -/
def queAvgRate (s : FrdInfo) (pts : U32) : Nat :=
  if rateDist pts.toNat s.u320Pts.toNat / 60 = 0 then 0 else 10000 / (rateDist pts.toNat s.u320Pts.toNat / 60)

theorem queDelta_toNat : (queDelta s pts).toNat = rateDist pts.toNat s.u320Pts.toNat / 60 := by
  have h60 : (60 : U32).toNat = 60 := rfl
  unfold queDelta rateDist
  split
  · rename_i h
    have hlt : s.u320Pts.toNat < pts.toNat := BitVec.lt_def.mp h
    have hle := Nat.le_of_lt hlt
    rw [BitVec.toNat_udiv, BitVec.toNat_sub_of_le (BitVec.le_def.mpr hle), h60, Nat.max_eq_left hle,
      Nat.min_eq_right hle]
  · rename_i h
    have hle : pts.toNat ≤ s.u320Pts.toNat := Nat.le_of_not_lt (fun hlt => h (BitVec.lt_def.mpr hlt))
    rw [BitVec.toNat_udiv, BitVec.toNat_sub_of_le (BitVec.le_def.mpr hle), h60, Nat.max_eq_right hle,
      Nat.min_eq_left hle]

theorem queNewRate_toNat : (queNewRate s pts).1.toNat = queAvgRate s pts := by
  have hdelta : queDelta s pts = 0 ↔ (queDelta s pts).toNat = 0 := BitVec.toNat_eq
  unfold queNewRate queAvgRate
  rw [← queDelta_toNat]
  split
  · rename_i h
    rw [if_neg (fun h0 => h (hdelta.mpr h0))]
    exact BitVec.toNat_udiv
  · rename_i h
    rw [if_pos (hdelta.mp (not_not.mp h))]
    rfl

/-- **What the end of a queue window should do**: the rate becomes more stable if and only if the new one is close to
    it, and is replaced otherwise. -/
structure QueRule (s t : FrdInfo) (rate : Nat) : Prop where
  near : rateDist rate s.queRate.toNat < 10 →
    t.queRate = s.queRate ∧ t.queStable = if s.queStable < 3 then s.queStable + 1 else s.queStable
  far : ¬ rateDist rate s.queRate.toNat < 10 → t.queRate.toNat = rate ∧ t.queStable = 0

/-- The unsigned difference of two rates. -/
theorem sub_lt_ten {a b : U32} :
    a - b < 10 ↔ b.toNat ≤ a.toNat ∧ a.toNat < b.toNat + 10 ∨ a.toNat + 2 ^ 32 < b.toNat + 10 := by
  have hb := b.isLt
  have ha := a.isLt
  rw [BitVec.lt_def, BitVec.toNat_sub, show (10 : U32).toNat = 10 from rfl]
  omega

/-- **A falling rate at the end of a queue window** is close only where it should not be. -/
theorem queWindowEnd_rule_iff : QueRule s (queWindowEnd s pts).1 (queAvgRate s pts) ↔
    (queAvgRate s pts < s.queRate.toNat →
      queAvgRate s pts + 10 ≤ s.queRate.toNat ∧ s.queRate.toNat + 10 ≤ queAvgRate s pts + 2 ^ 32) := by
  have hrate : (queNewRate s pts).1.toNat = queAvgRate s pts := queNewRate_toNat
  have hque := s.queRate.isLt
  have hnew := (queNewRate s pts).1.isLt
  unfold queWindowEnd
  dsimp only
  split
  · rename_i hlt
    have hclose := sub_lt_ten.mp hlt
    rw [hrate] at hclose hnew
    -- the rate is kept, so the two must be close
    refine ⟨fun h hfall => ?_, fun h => ⟨fun _ => ?_, fun hfar => absurd ?_ hfar⟩⟩
    · have hkept : rateDist (queAvgRate s pts) s.queRate.toNat < 10 := by
        by_contra hfar
        obtain ⟨heq, -⟩ := h.far hfar
        have hsame : s.queRate.toNat = queAvgRate s pts := by
          split at heq <;> exact heq
        omega
      unfold rateDist at hkept
      omega
    · split <;> exact ⟨rfl, rfl⟩
    · unfold rateDist
      omega
  · rename_i hlt
    have hfar := mt sub_lt_ten.mpr hlt
    rw [hrate] at hfar hnew
    refine ⟨fun h hfall => ?_, fun h => ⟨fun hnear => absurd hnear ?_, fun _ => ⟨hrate, rfl⟩⟩⟩
    · have hkept : ¬ rateDist (queAvgRate s pts) s.queRate.toNat < 10 := by
        intro hnear
        obtain ⟨heq, -⟩ := h.near hnear
        have hsame : (queNewRate s pts).1.toNat = s.queRate.toNat := congrArg BitVec.toNat heq
        omega
      unfold rateDist at hkept
      omega
    · unfold rateDist
      omega

/-! ## The full window -/

/-- `rateDiff > s32WaveDelta`. -/
def LargeChange (s : FrdInfo) : Prop := (s.inFrameRate - windowRate s).toInt > (waveDelta s).toInt
deriving Decidable

theorem waveDelta_lt : (waveDelta s).toNat < 2 ^ 31 := by
  have hlast := s.inFrameRateLast.isLt
  unfold waveDelta
  split
  · decide
  · rw [BitVec.toNat_udiv, BitVec.toNat_udiv, show (10 : U32).toNat = 10 from rfl, show (2 : U32).toNat = 2 from rfl]
    omega

/-- **A rate above the frame rate** is never a large change. -/
theorem largeChange_rule_iff :
    (LargeChange s ↔ (waveDelta s).toNat < rateDist s.inFrameRate.toNat (windowRate s).toNat) ↔
      (windowRate s).toNat ≤ s.inFrameRate.toNat + (waveDelta s).toNat ∧
        s.inFrameRate.toNat < (windowRate s).toNat + 2 ^ 31 := by
  have hwave := waveDelta_lt (s := s)
  have hnow : (windowRate s).toNat ≤ 834 := calNowRate_le s true
  have hin := s.inFrameRate.isLt
  unfold LargeChange rateDist
  rw [BitVec.toInt_eq_toNat_cond, BitVec.toInt_eq_toNat_cond, BitVec.toNat_sub]
  rw [if_pos (show 2 * (waveDelta s).toNat < 2 ^ 32 by omega)]
  omega

/-- The time stamp is stored, and counted as one with about the same rate. -/
def equal (invalid : U32) (s : FrdInfo) (pts : U32) : FrdInfo :=
  let t := store (queWindow invalid s pts).1 pts
  equeTime t (calNowRate t false).1

/-- The time stamp follows others, at about the same rate. -/
def Steady (invalid : U32) (s : FrdInfo) (pts : U32) : Prop :=
  let t := store (queWindow invalid s pts).1 pts
  (queWindow invalid s pts).1.inPTSSqn 0 ≠ invalid ∧ (calNowRate t false).1 ≠ 0 ∧
    jumped t (calNowRate t false).1 = false
deriving Decidable

/-- The rate is estimated anew in mid-window. -/
def Reestimated (s : FrdInfo) : Prop := reestimateDue s = true ∧ reestimateChanges s (windowRate s) = true
deriving Decidable

theorem reestimate_of (h : Reestimated s) :
    (reestimate s).1 = { changeInFrameRate s (windowRate s) with inFrameRateLast := windowRate s } := by
  unfold reestimate
  rw [if_pos h.1]
  exact congrArg Prod.fst (if_pos h.2)

theorem reestimate_of_not (h : ¬ Reestimated s) : (reestimate s).1 = s := by
  unfold reestimate
  by_cases hdue : reestimateDue s = true
  · rw [if_pos hdue]
    exact congrArg Prod.fst (if_neg (fun hc => h ⟨hdue, hc⟩))
  · rw [if_neg hdue]

/-- The window is full; `s` is the state behind the estimate in mid-window. -/
def Full (s : FrdInfo) : Prop := s.nowPTSPtr = s.length - 1
deriving Decidable

theorem calNowRate_quiet : Event.largeChange ∉ (calNowRate s env).2 := by
  have hrate (d : U32) : Event.largeChange ∉ (rateOf d).2 := by
    unfold rateOf
    split <;> simp
  unfold calNowRate
  cases env <;> simp [hrate]

/-- The branch that a full window takes. -/
theorem fullWindow_largeChange : .largeChange ∈ (fullWindow invalid s).2 ↔ LargeChange s := by
  have hreset (t : FrdInfo) : Event.largeChange ∉ (frdInfoReset1 invalid t).2 := by simp [frdInfoReset1]
  unfold fullWindow LargeChange windowRate
  rw [List.mem_append, List.mem_append, or_iff_left (hreset _), or_iff_right calNowRate_quiet]
  split
  · rename_i hlarge
    exact iff_of_true (List.mem_singleton.mpr rfl) hlarge
  · rename_i hsmall
    refine iff_of_false ?_ hsmall
    split
    · split <;> exact List.not_mem_nil
    · exact List.not_mem_nil

theorem stableBranch_largeChange {rate : U32} (hfull : Full (reestimate (equeTime s rate)).1) :
    .largeChange ∈ (stableBranch invalid s rate).2 ↔ LargeChange (reestimate (equeTime s rate)).1 := by
  have hquiet : Event.largeChange ∉ (reestimate (equeTime s rate)).2 := by
    unfold reestimate
    split
    · dsimp only
      split <;> exact calNowRate_quiet
    · exact List.not_mem_nil
  unfold stableBranch
  rw [if_pos (show (reestimate (equeTime s rate)).1.nowPTSPtr = _ from hfull), List.mem_append, or_iff_right hquiet]
  exact fullWindow_largeChange

theorem queWindow_quiet : Event.largeChange ∉ (queWindow invalid s pts).2 := by
  have hend (t : FrdInfo) : Event.largeChange ∉ (queWindowEnd t pts).2 := by
    unfold queWindowEnd queNewRate
    split <;> simp
  rw [queWindow_eq]
  split
  · exact hend _
  · exact List.not_mem_nil

/-- **The call takes the branch** if and only if the comparison of the full window says so. -/
theorem frameRateDetect_largeChange (hsteady : Steady invalid s pts)
    (hfull : Full (reestimate (equal invalid s pts)).1) :
    .largeChange ∈ (frameRateDetect invalid s pts).2 ↔ LargeChange (reestimate (equal invalid s pts)).1 := by
  obtain ⟨hvalid, hrate, hjump⟩ := hsteady
  unfold frameRateDetect windowPts nextPts
  dsimp only
  rw [if_pos hvalid, if_pos hrate, if_neg (Bool.not_eq_true _ ▸ hjump), List.mem_append, or_iff_right queWindow_quiet,
    List.mem_append, List.mem_cons, or_iff_right (fun h => by
      rcases h with h | h
      · cases h
      · exact calNowRate_quiet h)]
  exact stableBranch_largeChange hfull

/-! ## Both comparisons -/

/-- **Rates are compared by their distance**: at the end of a queue window, and when the window of time stamps is full
    the branch for a large change is taken if and only if the rates are further apart than the wave. -/
structure Symmetric (invalid : U32) (s : FrdInfo) (pts : U32) : Prop where
  queue : (counted invalid s pts).queCnt = 61 →
    QueRule (counted invalid s pts) (queWindow invalid s pts).1 (queAvgRate (counted invalid s pts) pts)
  full : Steady invalid s pts → Full (reestimate (equal invalid s pts)).1 →
    (.largeChange ∈ (frameRateDetect invalid s pts).2 ↔
      (waveDelta (reestimate (equal invalid s pts)).1).toNat <
        rateDist (reestimate (equal invalid s pts)).1.inFrameRate.toNat
          (windowRate (reestimate (equal invalid s pts)).1).toNat)

/-- **The condition**: the rate of the 60 frames is not below `u32QueRate`, or ten below it (or all but ten of 2^32),
    and the rate of a full window is at most the wave above `InFrameRate` (or less than 2^31 below it), unless the rate
    was estimated anew just before. -/
structure NotFalling (invalid : U32) (s : FrdInfo) (pts : U32) : Prop where
  queue : (counted invalid s pts).queCnt = 61 →
    queAvgRate (counted invalid s pts) pts < s.queRate.toNat →
      queAvgRate (counted invalid s pts) pts + 10 ≤ s.queRate.toNat ∧
        s.queRate.toNat + 10 ≤ queAvgRate (counted invalid s pts) pts + 2 ^ 32
  full : Steady invalid s pts → ¬ Reestimated (equal invalid s pts) → Full (equal invalid s pts) →
    (windowRate (equal invalid s pts)).toNat ≤
        (equal invalid s pts).inFrameRate.toNat + (waveDelta (equal invalid s pts)).toNat ∧
      (equal invalid s pts).inFrameRate.toNat < (windowRate (equal invalid s pts)).toNat + 2 ^ 31

theorem counted_queRate : (counted invalid s pts).queRate = s.queRate := by
  unfold counted
  split <;> rfl

/-- A rate that was just estimated is the one of the window. -/
theorem largeChange_reestimated (h : Reestimated s) :
    LargeChange (reestimate s).1 ↔
      (waveDelta (reestimate s).1).toNat < rateDist (reestimate s).1.inFrameRate.toNat
        (windowRate (reestimate s).1).toNat := by
  have heq : (reestimate s).1.inFrameRate = windowRate (reestimate s).1 := by
    rw [reestimate_of h]
    exact (congrArg Prod.fst (calNowRate_congr rfl rfl true)).symm
  refine largeChange_rule_iff.mpr ?_
  rw [heq]
  omega

/-- **A falling rate and a rising one are treated alike** if and only if the condition holds. -/
theorem frameRateDetect_symmetric_iff (invalid : U32) (s : FrdInfo) (pts : U32) :
    Symmetric invalid s pts ↔ NotFalling invalid s pts := by
  have hqueue (hend : (counted invalid s pts).queCnt = 61) :
      QueRule (counted invalid s pts) (queWindow invalid s pts).1 (queAvgRate (counted invalid s pts) pts) ↔
        (queAvgRate (counted invalid s pts) pts < s.queRate.toNat →
          queAvgRate (counted invalid s pts) pts + 10 ≤ s.queRate.toNat ∧
            s.queRate.toNat + 10 ≤ queAvgRate (counted invalid s pts) pts + 2 ^ 32) := by
    rw [queWindow_eq, if_pos hend, queWindowEnd_rule_iff, counted_queRate]
  constructor
  · intro h
    refine ⟨fun hend => (hqueue hend).mp (h.queue hend), fun hsteady hno hfull => ?_⟩
    rw [← reestimate_of_not hno] at hfull ⊢
    exact largeChange_rule_iff.mp ((frameRateDetect_largeChange hsteady hfull).symm.trans (h.full hsteady hfull))
  · intro h
    refine ⟨fun hend => (hqueue hend).mpr (h.queue hend), fun hsteady hfull => ?_⟩
    rw [frameRateDetect_largeChange hsteady hfull]
    by_cases hre : Reestimated (equal invalid s pts)
    · exact largeChange_reestimated hre
    · rw [reestimate_of_not hre] at hfull ⊢
      exact largeChange_rule_iff.mpr (h.full hsteady hre hfull)

/-- A detector at 25 frames a second, with `n` frames of `ms` each in its window. -/
def regular (ms n : Nat) : FrdInfo where
  inPTSSqn i := BitVec.ofNat 32 (1 + ms * i)
  nowPTSPtr := BitVec.ofNat 32 n
  length := 25
  u320Pts := 1
  queCnt := BitVec.ofNat 32 n
  queRate := 250
  queStable := 0
  unableTime := 0
  inFrameRateLast := BitVec.ofNat 32 (10000 / ms)
  stableThreshold := 3
  inFrameRateEqueTime := BitVec.ofNat 32 n
  inFrameRate := 250

/-- **A falling and a rising rate.** 60 frames of 41 ms are 24.3 frames a second, and 25 is replaced. A window with 30.3
    frames a second is no large change from 25, though the distance is above the wave of 5. -/
theorem falling_and_rising :
    ¬ Symmetric 0xFFFFFFFF { regular 41 24 with queCnt := 60 } 2461 ∧ ¬ Symmetric 0xFFFFFFFF (regular 33 24) 793 := by
  refine ⟨fun h => ?_, fun h => ?_⟩
  · have hnear := (h.queue (by decide)).near (by decide)
    exact absurd hnear.1 (by decide)
  · have hsteady : Steady 0xFFFFFFFF (regular 33 24) 793 := by decide
    have hfull : Full (reestimate (equal 0xFFFFFFFF (regular 33 24) 793)).1 := by decide
    exact absurd ((frameRateDetect_largeChange hsteady hfull).symm.trans (h.full hsteady hfull)) (by decide)

/-! ## The rate of the window -/

/-- From the first to the last time stamp that are compared, in ms. -/
def ptsAdvance (s : FrdInfo) (env : Bool) : Int :=
  ((s.inPTSSqn s.nowPTSPtr.toNat).toNat : Int) - (s.inPTSSqn (if env then 0 else (s.nowPTSPtr - 1).toNat)).toNat

/-- The number of frames between them. -/
def frames (s : FrdInfo) (env : Bool) : Nat := if env then s.nowPTSPtr.toNat else 1

/-- The advance for a frame, in tenths of a millisecond. -/
def advancePerFrame (s : FrdInfo) (env : Bool) : Int := 10 * ptsAdvance s env / frames s env

/-- **What the rate should be**: none, or the one of an advance between 12 and 10000 ms for a frame, rounded. -/
def RateRule (s : FrdInfo) (env : Bool) : Prop :=
  (calNowRate s env).1 ≠ 0 →
    120 ≤ advancePerFrame s env ∧ advancePerFrame s env ≤ 100000 ∧
      ((calNowRate s env).1.toNat : Int) = (1000000 / advancePerFrame s env + 5) / 10

theorem optmAlgRound_toNat {x : U32} (hx : x.toNat ≤ 8333) : (optmAlgRound x / 10).toNat = (x.toNat + 5) / 10 := by
  have h4 : (4 : U32).toNat = 4 := rfl
  have h10 : (10 : U32).toNat = 10 := rfl
  have h1 : (1 : U32).toNat = 1 := rfl
  unfold optmAlgRound
  rw [BitVec.toNat_udiv, h10]
  split
  · rename_i h
    have hmod : 4 < x.toNat % 10 := by
      have hlt := BitVec.lt_def.mp h
      rwa [BitVec.toNat_umod, h10, h4] at hlt
    rw [BitVec.toNat_mul, BitVec.toNat_add, BitVec.toNat_udiv, h1, h10]
    omega
  · rename_i h
    have hmod : x.toNat % 10 ≤ 4 := by
      have hle := mt BitVec.lt_def.mpr h
      rw [BitVec.toNat_umod, h10, h4] at hle
      exact Nat.le_of_not_lt hle
    omega

/-- The rate of a difference, in numbers. -/
theorem rateOf_toNat (d : U32) : (rateOf d).1.toNat =
    if 120 ≤ d.toNat ∧ d.toNat ≤ 100000 then (1000000 / d.toNat + 5) / 10 else 0 := by
  have hd := d.isLt
  have hrange : d.toInt ≤ 100000 ∧ d.toInt ≥ 120 ↔ 120 ≤ d.toNat ∧ d.toNat ≤ 100000 := by
    rw [BitVec.toInt_eq_toNat_cond]
    omega
  unfold rateOf
  split
  · rename_i h
    obtain ⟨hlow, -⟩ := hrange.mp h
    have hquot : (1000000 / d : U32).toNat = 1000000 / d.toNat := BitVec.toNat_udiv
    have hle : 1000000 / d.toNat ≤ 1000000 / 120 := Nat.div_le_div_left hlow (by decide)
    rw [if_pos (hrange.mp h), optmAlgRound_toNat (by omega), hquot]
  · rename_i h
    rw [if_neg (fun hc => h (hrange.mpr hc))]
    rfl

theorem ten_mul_sub (a b : U32) : ((10 * (a - b) : U32).toNat : Int) = 10 * ((a.toNat : Int) - b.toNat) % 2 ^ 32 := by
  have ha := a.isLt
  have hb := b.isLt
  rw [BitVec.toNat_mul, BitVec.toNat_sub, show (10 : U32).toNat = 10 from rfl]
  omega

theorem ediv_range {x n : Int} (hn : 0 < n) : 120 ≤ x / n ∧ x / n ≤ 100000 ↔ 120 * n ≤ x ∧ x < 100001 * n := by
  rw [Int.le_ediv_iff_mul_le hn, ← Int.ediv_lt_iff_lt_mul hn, Int.lt_iff_add_one_le]
  omega

/-- The rate from the product in 32 bits. -/
theorem calNowRate_toNat (s : FrdInfo) (env : Bool) : ((calNowRate s env).1.toNat : Int) =
    if 120 ≤ 10 * ptsAdvance s env % 2 ^ 32 / frames s env ∧ 10 * ptsAdvance s env % 2 ^ 32 / frames s env ≤ 100000 then
      (1000000 / (10 * ptsAdvance s env % 2 ^ 32 / frames s env) + 5) / 10
    else 0 := by
  have hpart {d : U32} {q : Int} (hd : (d.toNat : Int) = q) :
      ((rateOf d).1.toNat : Int) = if 120 ≤ q ∧ q ≤ 100000 then (1000000 / q + 5) / 10 else 0 := by
    subst hd
    rw [rateOf_toNat]
    by_cases h : 120 ≤ d.toNat ∧ d.toNat ≤ 100000
    · rw [if_pos h, if_pos (by omega)]
      rfl
    · rw [if_neg h, if_neg (by omega)]
      rfl
  cases env with
  | false =>
    refine hpart ?_
    rw [ten_mul_sub]
    exact (Int.ediv_one _).symm
  | true =>
    refine hpart ?_
    rw [BitVec.toNat_udiv, Int.natCast_ediv, ten_mul_sub]
    rfl

/-- **The rate of a window** follows the rule if and only if ten times the advance is not, by a multiple of 2^32, away
    from that of an advance between 12 and 10000 ms for a frame. -/
theorem calNowRate_rule_iff {s : FrdInfo} (hptr : 1 ≤ s.nowPTSPtr.toNat ∧ s.nowPTSPtr.toNat ≤ 99) (env : Bool) :
    RateRule s env ↔ ∀ k : Int, k ≠ 0 →
      10 * ptsAdvance s env < k * 2 ^ 32 + 120 * frames s env ∨
        k * 2 ^ 32 + 100001 * frames s env ≤ 10 * ptsAdvance s env := by
  have hn : 0 < (frames s env : Int) ∧ (frames s env : Int) ≤ 99 := by
    unfold frames
    split <;> omega
  have hrate := calNowRate_toNat s env
  have hzero : (calNowRate s env).1 ≠ 0 ↔ ((calNowRate s env).1.toNat : Int) ≠ 0 :=
    BitVec.toNat_ne.trans Int.natCast_ne_zero.symm
  unfold RateRule advancePerFrame
  rw [hzero, hrate]
  generalize 10 * ptsAdvance s env = x
  generalize (frames s env : Int) = n at hn
  have hwrapped := ediv_range (x := x % 2 ^ 32) hn.1
  have htrue := ediv_range (x := x) hn.1
  constructor
  · intro h k hk
    by_contra hin
    -- the product in 32 bits is in range, and the true one is not
    have hmod : x % 2 ^ 32 = x - k * 2 ^ 32 := by omega
    have hpair := hwrapped.mpr (by omega)
    rw [if_pos hpair] at h
    have hquot : 10 ≤ 1000000 / (x % 2 ^ 32 / n) := (Int.le_ediv_iff_mul_le (by omega)).mpr (by omega)
    obtain ⟨hlow, hhigh, -⟩ := h (by omega)
    have := htrue.mp ⟨hlow, hhigh⟩
    omega
  · intro h hne
    split at hne
    · rename_i hpair
      have hpairs := hwrapped.mp hpair
      have hk : x / 2 ^ 32 = 0 := by
        by_contra hk
        have := h (x / 2 ^ 32) hk
        omega
      have hmod : x % 2 ^ 32 = x := by omega
      rw [hmod] at hpair ⊢
      exact ⟨hpair.1, hpair.2, if_pos hpair⟩
    · exact absurd rfl hne

/-- 25 frames of 40 ms make 25 frames a second. -/
theorem calNowRate_rule_regular : (calNowRate (regular 40 24) true).1 = 250 ∧ RateRule (regular 40 24) true := by
  refine ⟨by decide, (calNowRate_rule_iff (by decide) true).mpr (fun k hk => ?_)⟩
  rw [show ptsAdvance (regular 40 24) true = 960 by decide, show frames (regular 40 24) true = 24 by decide]
  omega

/-- **A jump of 119 hours**, forward or back, is taken for one of about 12 ms. -/
theorem jump_of_days :
    (∃ s, s.nowPTSPtr = 1 ∧ ptsAdvance s false = 429496742 ∧ (calNowRate s false).1 = 806 ∧ ¬ RateRule s false) ∧
      ∃ s, s.nowPTSPtr = 1 ∧ ptsAdvance s false = -429496717 ∧ (calNowRate s false).1 = 794 ∧ ¬ RateRule s false := by
  refine ⟨⟨{ regular 40 1 with inPTSSqn := fun i => if i = 0 then 0 else 429496742 },
    rfl, by decide, by decide, fun h => ?_⟩,
    { regular 40 1 with inPTSSqn := fun i => if i = 0 then 429496717 else 0 }, rfl, by decide, by decide, fun h => ?_⟩
  · exact absurd (h (by decide)).2.1 (by decide)
  · exact absurd (h (by decide)).1 (by decide)

end HiSTB.Omxvdec
