import HiSTB.Omxvdec.FrameRate

/-!
# `Omxvdec.Correctness.Window` — when the index into the time-stamp window stays in bounds

`nowPTSPtr` grows until it is `length - 1`, so it stays below 100 as long as `length` does and never drops to
`nowPTSPtr` or below. Two branches break this: a new estimate in mid-window may set a shorter length
(`Shrinks`), and the mean with a frame rate taken from the queue window may set one above 100 (`Overgrows`).

* `frameRateDetect_ok` — a step that takes neither branch keeps the index in bounds;
* `run_window` — so does a run of such steps;
* `run_index_out_of_bounds` — 30 and then 10 frames a second drive the index out of the array.
-/

namespace HiSTB.Omxvdec

open Lib

variable {s t : FrdInfo} {rate pts : U32}

/-- The index is inside the window, and the window inside the array. -/
structure Ok (s : FrdInfo) : Prop where
  pos : 1 ≤ s.nowPTSPtr.toNat
  lt : s.nowPTSPtr.toNat < s.length.toNat
  five : 5 ≤ s.length.toNat
  le : s.length.toNat ≤ 100

/-- What every effect satisfies: indices are inside the array, `nowPTSPtr` is 1 to 99, no divisor is 0. -/
def EventOk : Event → Prop
  | .index i ptr => i < 100 ∧ 1 ≤ ptr ∧ ptr ≤ 99
  | .divisor d => d ≠ 0
  | .largeChange => True

/-- `Ok`, as soon as the window holds a time stamp. -/
def WindowOk (invalid : U32) (s : FrdInfo) : Prop := s.inPTSSqn 0 ≠ invalid → Ok s

/-! ## Rates -/

/-- A rate in range comes from a positive difference, and is at most 834. -/
theorem rateOf_ok (d : U32) : (rateOf d).1.toNat ≤ 834 ∧ ∀ e ∈ (rateOf d).2, EventOk e := by
  unfold rateOf
  split
  · rename_i h
    obtain ⟨_, hlow⟩ := h
    have hd : 120 ≤ d.toNat := by
      rw [BitVec.toInt_eq_toNat_cond] at hlow
      split at hlow <;> omega
    have hx : (1000000 / d : U32).toNat ≤ 8333 := by
      rw [BitVec.toNat_udiv]
      calc (1000000#32).toNat / d.toNat ≤ 1000000 / 120 := Nat.div_le_div_left hd (by decide)
        _ ≤ 8333 := by decide
    refine ⟨?_, ?_⟩
    · have h1 : (1 : U32).toNat = 1 := rfl
      have h10 : (10 : U32).toNat = 10 := rfl
      unfold optmAlgRound
      rw [BitVec.toNat_udiv, h10]
      split
      · rw [BitVec.toNat_mul, BitVec.toNat_add, BitVec.toNat_udiv, h1, h10,
          Nat.mod_eq_of_lt (show (1000000 / d : U32).toNat / 10 + 1 < 2 ^ 32 by omega),
          Nat.mod_eq_of_lt (by omega)]
        omega
      · omega
    · intro e he
      obtain rfl := List.mem_singleton.mp he
      show d.toNat ≠ 0
      omega
  · exact ⟨by simp, fun e he => absurd he List.not_mem_nil⟩

theorem calNowRate_le (s : FrdInfo) (env : Bool) : (calNowRate s env).1.toNat ≤ 834 := by
  unfold calNowRate
  cases env
  · exact (rateOf_ok _).1
  · exact (rateOf_ok _).1

/-- Computing a rate with the index in bounds. -/
theorem calNowRate_events (h : 1 ≤ s.nowPTSPtr.toNat ∧ s.nowPTSPtr.toNat ≤ 99) (env : Bool) :
    ∀ e ∈ (calNowRate s env).2, EventOk e := by
  unfold calNowRate
  cases env
  · intro e he
    rcases List.mem_cons.mp he with rfl | he
    · exact ⟨by omega, h⟩
    · rcases List.mem_cons.mp he with rfl | he
      · exact ⟨by bv_omega, h⟩
      · exact (rateOf_ok _).2 e he
  · intro e he
    rcases List.mem_cons.mp he with rfl | he
    · exact ⟨by omega, h⟩
    · rcases List.mem_cons.mp he with rfl | he
      · show s.nowPTSPtr.toNat ≠ 0
        omega
      · exact (rateOf_ok _).2 e he

theorem calNowRate_congr (hsqn : t.inPTSSqn = s.inPTSSqn) (hptr : t.nowPTSPtr = s.nowPTSPtr)
    (env : Bool) : calNowRate t env = calNowRate s env := by
  unfold calNowRate
  rw [hsqn, hptr]

theorem lengthOf_ge (rate : U32) : 5 ≤ (lengthOf rate).toNat := by
  unfold lengthOf
  split
  · rename_i h
    have h50 : 50 < rate.toNat := by simpa [BitVec.lt_def] using h
    rw [BitVec.toNat_udiv, show (10 : U32).toNat = 10 from rfl]
    omega
  · simp

theorem lengthOf_le (h : rate.toNat ≤ 834) : (lengthOf rate).toNat ≤ 100 := by
  unfold lengthOf
  split
  · rw [BitVec.toNat_udiv, show (10 : U32).toNat = 10 from rfl]
    omega
  · simp

/-! ## The branches of a step -/

/-- The rate over the whole window, after the time stamp was stored. -/
def windowRate (s : FrdInfo) : U32 := (calNowRate s true).1

/-- The full window takes the mean of its rate and the old one. -/
def takesMean (s : FrdInfo) : Bool :=
  decide ((s.inFrameRate - windowRate s).toInt > (waveDelta s).toInt) ||
    (decide (s.inFrameRateLast = windowRate s) &&
      decide (optmAlgAbs (s.inFrameRate - windowRate s) > s.inFrameRateLast / 10 / 2))

/-- The estimate in mid-window sets a length that the index has already reached. -/
def shrinks (s : FrdInfo) : Bool :=
  reestimateDue s && reestimateChanges s (windowRate s) && decide (lengthOf (windowRate s) ≤ s.nowPTSPtr)

/-- The mean taken by a full window sets a length above 100. -/
def overgrows (s : FrdInfo) : Bool :=
  !(reestimateDue s && reestimateChanges s (windowRate s)) && decide (s.nowPTSPtr = s.length - 1) &&
    takesMean s && decide (s.inFrameRate ≠ 0) &&
    decide (100 < lengthOf ((windowRate s + s.inFrameRate) / 2))

/-- The step takes neither of the two branches: the state here is the one in which a time stamp with about
    the same rate has been stored and counted. -/
def KeepsLength (invalid : U32) (s : FrdInfo) (pts : U32) : Prop :=
  let q := (queWindow invalid s pts).1
  let t := store q pts
  let rate := (calNowRate t false).1
  q.inPTSSqn 0 ≠ invalid → rate ≠ 0 → jumped t rate = false →
    shrinks (equeTime t rate) = false ∧ overgrows (equeTime t rate) = false
deriving Decidable

theorem unable_same (s : FrdInfo) :
    (unable s).nowPTSPtr = s.nowPTSPtr ∧ (unable s).length = s.length := by
  unfold unable
  dsimp only
  split <;> exact ⟨rfl, rfl⟩

theorem equeTime_same (s : FrdInfo) (rate : U32) :
    (equeTime s rate).nowPTSPtr = s.nowPTSPtr ∧ (equeTime s rate).length = s.length := by
  unfold equeTime
  dsimp only
  split <;> exact ⟨rfl, rfl⟩

theorem Ok.of_same (h : Ok s) (hptr : t.nowPTSPtr = s.nowPTSPtr)
    (hlen : t.length = s.length) : Ok t :=
  ⟨by rw [hptr]; exact h.pos, by rw [hptr, hlen]; exact h.lt, by rw [hlen]; exact h.five,
    by rw [hlen]; exact h.le⟩

theorem Ok.ptr (h : Ok s) : 1 ≤ s.nowPTSPtr.toNat ∧ s.nowPTSPtr.toNat ≤ 99 := by
  have h1 := h.pos
  have h2 := h.lt
  have h3 := h.le
  omega

/-- Starting over with one time stamp. -/
theorem frdInfoReset1_ok (invalid : U32)
    (hptr : 1 ≤ s.nowPTSPtr.toNat ∧ s.nowPTSPtr.toNat ≤ 99)
    (hlen : 5 ≤ s.length.toNat ∧ s.length.toNat ≤ 100) :
    Ok (frdInfoReset1 invalid s).1 ∧ ∀ e ∈ (frdInfoReset1 invalid s).2, EventOk e := by
  refine ⟨⟨by simp [frdInfoReset1], ?_, hlen.1, hlen.2⟩, ?_⟩
  · show (1 : U32).toNat < s.length.toNat
    have h1 : (1 : U32).toNat = 1 := rfl
    omega
  · intro e he
    obtain rfl := List.mem_singleton.mp he
    exact ⟨by omega, hptr⟩

/-- Starting over with two time stamps. -/
theorem frdInfoReset2_ok (invalid : U32)
    (hptr : 1 ≤ s.nowPTSPtr.toNat ∧ s.nowPTSPtr.toNat ≤ 99)
    (hlen : 5 ≤ s.length.toNat ∧ s.length.toNat ≤ 100) :
    Ok (frdInfoReset2 invalid s).1 ∧ ∀ e ∈ (frdInfoReset2 invalid s).2, EventOk e := by
  refine ⟨⟨by simp [frdInfoReset2], ?_, hlen.1, hlen.2⟩, ?_⟩
  · show (2 : U32).toNat < s.length.toNat
    have h2 : (2 : U32).toNat = 2 := rfl
    omega
  · intro e he
    rcases List.mem_cons.mp he with rfl | he
    · exact ⟨by omega, hptr⟩
    · obtain rfl := List.mem_singleton.mp he
      exact ⟨by bv_omega, hptr⟩

/-- **The estimate in mid-window**, when it does not shrink the window below the index. -/
theorem reestimate_ok (h : Ok s) (hshrink : shrinks s = false) :
    Ok (reestimate s).1 ∧ ∀ e ∈ (reestimate s).2, EventOk e := by
  unfold reestimate
  split
  · rename_i hdue
    have hev := calNowRate_events h.ptr true
    dsimp only
    split
    · rename_i hchange
      refine ⟨⟨h.pos, ?_, lengthOf_ge _, lengthOf_le (calNowRate_le s true)⟩, hev⟩
      unfold shrinks windowRate at hshrink
      rw [hdue, hchange, Bool.true_and, Bool.true_and, decide_eq_false_iff_not, BitVec.le_def] at hshrink
      exact Nat.lt_of_not_le hshrink
    · exact ⟨h, hev⟩
  · exact ⟨h, fun e he => absurd he List.not_mem_nil⟩

/-- The mean of a rate with itself is no higher. -/
theorem meanRate_self (h : s.inFrameRate = rate) (hle : rate.toNat ≤ 834) :
    (meanRate s rate).toNat ≤ 834 := by
  unfold meanRate
  split
  · rw [h, BitVec.toNat_udiv, BitVec.toNat_add, show (2 : U32).toNat = 2 from rfl]
    omega
  · exact hle

/-- **The full window**, when the mean it takes is not too high. -/
theorem fullWindow_ok (invalid : U32) (h : Ok s)
    (hmean : takesMean s = true → (lengthOf (meanRate s (windowRate s))).toNat ≤ 100) :
    Ok (fullWindow invalid s).1 ∧ ∀ e ∈ (fullWindow invalid s).2, EventOk e := by
  have hptr := h.ptr
  have hev := calNowRate_events hptr true
  have hown := lengthOf_le (calNowRate_le s true)
  -- whatever the branch, the index is the old one and the length is in range
  have key : ∀ b : FrdInfo × List Event, b.1.nowPTSPtr = s.nowPTSPtr → 5 ≤ b.1.length.toNat → b.1.length.toNat ≤ 100 →
      (∀ e ∈ b.2, EventOk e) → Ok (frdInfoReset1 invalid b.1).1 ∧
        ∀ e ∈ (calNowRate s true).2 ++ b.2 ++ (frdInfoReset1 invalid b.1).2, EventOk e := by
    intro b hb hlow hhigh hbranch
    obtain ⟨hok, hev'⟩ := frdInfoReset1_ok invalid (s := b.1) (by rw [hb]; exact hptr) ⟨hlow, hhigh⟩
    refine ⟨hok, ?_⟩
    intro e he
    rcases List.mem_append.mp he with he | he
    · rcases List.mem_append.mp he with he | he
      · exact hev e he
      · exact hbranch e he
    · exact hev' e he
  have hnone : ∀ e ∈ ([] : List Event), EventOk e := fun e he => absurd he List.not_mem_nil
  unfold fullWindow
  dsimp only
  split
  · rename_i hwave
    refine key (_, [.largeChange]) rfl (lengthOf_ge _) (hmean ?_) (fun e he => ?_)
    · unfold takesMean windowRate
      rw [decide_eq_true hwave, Bool.true_or]
    · obtain rfl := List.mem_singleton.mp he
      trivial
  · split
    · rename_i hlast
      split
      · rename_i habs
        refine key (_, []) rfl (lengthOf_ge _) (hmean ?_) hnone
        unfold takesMean windowRate
        rw [decide_eq_true hlast, decide_eq_true habs, Bool.true_and, Bool.or_true]
      · exact key (_, []) rfl (lengthOf_ge _) hown hnone
    · exact key (_, []) rfl h.five h.le hnone

/-- **A frame with about the same rate**, when neither branch is taken. -/
theorem stableBranch_ok (invalid : U32) (h : Ok s)
    (hshrink : shrinks (equeTime s rate) = false) (hgrow : overgrows (equeTime s rate) = false) :
    Ok (stableBranch invalid s rate).1 ∧ ∀ e ∈ (stableBranch invalid s rate).2, EventOk e := by
  obtain ⟨hptr, hlen⟩ := equeTime_same s rate
  have heque : Ok (equeTime s rate) := h.of_same hptr hlen
  obtain ⟨hre, hev⟩ := reestimate_ok heque hshrink
  unfold stableBranch
  dsimp only
  split
  · rename_i hfull
    have hmean : takesMean (reestimate (equeTime s rate)).1 = true →
        (lengthOf (meanRate (reestimate (equeTime s rate)).1
          (windowRate (reestimate (equeTime s rate)).1))).toNat ≤ 100 := by
      intro htake
      by_cases hch : reestimateDue (equeTime s rate) = true ∧
          reestimateChanges (equeTime s rate) (windowRate (equeTime s rate)) = true
      · -- after a new estimate the old rate is the window's own
        have heq : (reestimate (equeTime s rate)).1
            = { changeInFrameRate (equeTime s rate) (windowRate (equeTime s rate)) with
                inFrameRateLast := windowRate (equeTime s rate) } := by
          unfold reestimate
          rw [if_pos hch.1]
          exact congrArg Prod.fst (if_pos hch.2)
        have hrate : windowRate (reestimate (equeTime s rate)).1 = windowRate (equeTime s rate) := by
          rw [heq]
          exact congrArg Prod.fst (calNowRate_congr rfl rfl true)
        rw [hrate]
        refine lengthOf_le (meanRate_self ?_ (calNowRate_le _ true))
        rw [heq]
        rfl
      · -- otherwise the state is unchanged, and the mean is not too high by assumption
        have heq : (reestimate (equeTime s rate)).1 = equeTime s rate := by
          unfold reestimate
          by_cases hdue : reestimateDue (equeTime s rate) = true
          · rw [if_pos hdue]
            exact congrArg Prod.fst (if_neg (fun hc => hch ⟨hdue, hc⟩))
          · rw [if_neg hdue]
        rw [heq] at htake hfull ⊢
        by_cases hzero : (equeTime s rate).inFrameRate = 0
        · unfold meanRate
          rw [if_neg (not_not.mpr hzero)]
          exact lengthOf_le (calNowRate_le _ true)
        · have hno : (reestimateDue (equeTime s rate) &&
              reestimateChanges (equeTime s rate) (windowRate (equeTime s rate))) = false := by
            rw [← Bool.not_eq_true, Bool.and_eq_true_iff]
            exact hch
          unfold overgrows at hgrow
          rw [hno, decide_eq_true hfull, htake, decide_eq_true hzero, Bool.not_false, Bool.true_and,
            Bool.true_and, Bool.true_and, Bool.true_and, decide_eq_false_iff_not, BitVec.lt_def] at hgrow
          unfold meanRate
          rw [if_pos hzero]
          exact Nat.le_of_not_lt hgrow
    obtain ⟨hok, hev'⟩ := fullWindow_ok invalid hre hmean
    refine ⟨hok, ?_⟩
    intro e he
    rcases List.mem_append.mp he with he | he
    · exact hev e he
    · exact hev' e he
  · rename_i hfull
    refine ⟨?_, hev⟩
    have h1 := hre.pos
    have h2 := hre.lt
    have h3 := hre.le
    have hne : (reestimate (equeTime s rate)).1.nowPTSPtr.toNat
        ≠ (reestimate (equeTime s rate)).1.length.toNat - 1 := by
      intro hc
      apply hfull
      bv_omega
    refine ⟨?_, ?_, hre.five, hre.le⟩
    · show 1 ≤ ((reestimate (equeTime s rate)).1.nowPTSPtr + 1).toNat
      bv_omega
    · show ((reestimate (equeTime s rate)).1.nowPTSPtr + 1).toNat
        < (reestimate (equeTime s rate)).1.length.toNat
      bv_omega

/-! ## Steps and runs -/

theorem queNewRate_events (s : FrdInfo) (pts : U32) : ∀ e ∈ (queNewRate s pts).2, EventOk e := by
  unfold queNewRate
  split
  · rename_i hdelta
    intro e he
    obtain rfl := List.mem_singleton.mp he
    intro hc
    exact hdelta (BitVec.eq_of_toNat_eq hc)
  · exact fun e he => absurd he List.not_mem_nil

/-- The queue window does not touch the window of time stamps. -/
theorem queWindow_ok (invalid : U32) (s : FrdInfo) (pts : U32) :
    (queWindow invalid s pts).1.inPTSSqn = s.inPTSSqn ∧ (queWindow invalid s pts).1.nowPTSPtr = s.nowPTSPtr ∧
      (queWindow invalid s pts).1.length = s.length ∧
      ∀ e ∈ (queWindow invalid s pts).2, EventOk e := by
  -- at the end of the 60 frames only the queue fields change
  have hend : ∀ t : FrdInfo, (queWindowEnd t pts).1.inPTSSqn = t.inPTSSqn ∧
      (queWindowEnd t pts).1.nowPTSPtr = t.nowPTSPtr ∧ (queWindowEnd t pts).1.length = t.length ∧
      ∀ e ∈ (queWindowEnd t pts).2, EventOk e := by
    intro t
    unfold queWindowEnd
    dsimp only
    split
    · split <;> exact ⟨rfl, rfl, rfl, queNewRate_events t pts⟩
    · exact ⟨rfl, rfl, rfl, queNewRate_events t pts⟩
  unfold queWindow
  dsimp only
  split
  · split
    · exact hend _
    · exact ⟨rfl, rfl, rfl, fun e he => absurd he List.not_mem_nil⟩
  · split
    · exact hend _
    · exact ⟨rfl, rfl, rfl, fun e he => absurd he List.not_mem_nil⟩

/-- **A further time stamp** keeps the index in bounds when the step takes neither branch. -/
theorem nextPts_ok (invalid : U32) (h : Ok s)
    (hkeep : (calNowRate (store s pts) false).1 ≠ 0 → jumped (store s pts) (calNowRate (store s pts) false).1 = false →
      shrinks (equeTime (store s pts) (calNowRate (store s pts) false).1) = false ∧
        overgrows (equeTime (store s pts) (calNowRate (store s pts) false).1) = false) :
    Ok (nextPts invalid s pts).1 ∧ ∀ e ∈ (nextPts invalid s pts).2, EventOk e := by
  have hstore : Ok (store s pts) := h.of_same rfl rfl
  have hptr := hstore.ptr
  have hlen := And.intro hstore.five hstore.le
  have hev := calNowRate_events hptr false
  -- the effects before the branches
  have hfirst : ∀ t : FrdInfo × List Event, (Ok t.1 ∧ ∀ e ∈ t.2, EventOk e) →
      Ok t.1 ∧ ∀ e ∈ .index (store s pts).nowPTSPtr.toNat (store s pts).nowPTSPtr.toNat ::
        (calNowRate (store s pts) false).2 ++ t.2, EventOk e := by
    rintro t ⟨hok, hevt⟩
    refine ⟨hok, ?_⟩
    intro e he
    rcases List.mem_append.mp he with he | he
    · rcases List.mem_cons.mp he with rfl | he
      · exact ⟨by omega, hptr⟩
      · exact hev e he
    · exact hevt e he
  unfold nextPts
  dsimp only
  apply hfirst
  split
  · rename_i hrate
    split
    · obtain ⟨hp, hl⟩ := unable_same (store s pts)
      apply frdInfoReset2_ok
      · show 1 ≤ (unable (store s pts)).nowPTSPtr.toNat ∧ (unable (store s pts)).nowPTSPtr.toNat ≤ 99
        rw [hp]
        exact hptr
      · show 5 ≤ (unable (store s pts)).length.toNat ∧ (unable (store s pts)).length.toNat ≤ 100
        rw [hl]
        exact hlen
    · rename_i hjump
      obtain ⟨hshrink, hgrow⟩ := hkeep hrate (by simpa using hjump)
      exact stableBranch_ok invalid hstore hshrink hgrow
  · obtain ⟨hp, hl⟩ := unable_same (store s pts)
    apply frdInfoReset1_ok
    · rw [hp]
      exact hptr
    · rw [hl]
      exact hlen

/-- A first time stamp: window length 5, index 1. -/
theorem firstPts_ok (invalid : U32) (s : FrdInfo) (pts : U32) : Ok (firstPts invalid s pts) := by
  constructor
  · show 1 ≤ (1 : U32).toNat
    decide
  · show (1 : U32).toNat < (lengthOf 0).toNat
    decide
  · exact lengthOf_ge 0
  · exact lengthOf_le (by decide)

/-- **One step keeps the index in bounds** when it takes neither branch. -/
theorem frameRateDetect_ok {invalid : U32} (h : WindowOk invalid s)
    (hkeep : KeepsLength invalid s pts) :
    WindowOk invalid (frameRateDetect invalid s pts).1 ∧
      ∀ e ∈ (frameRateDetect invalid s pts).2, EventOk e := by
  obtain ⟨hsqn, hptr, hlen, hev⟩ := queWindow_ok invalid s pts
  have hbody : Ok (windowPts invalid (queWindow invalid s pts).1 pts).1 ∧
      ∀ e ∈ (windowPts invalid (queWindow invalid s pts).1 pts).2, EventOk e := by
    unfold windowPts
    split
    · rename_i hvalid
      have hok : Ok (queWindow invalid s pts).1 := (h (hsqn ▸ hvalid)).of_same hptr hlen
      exact nextPts_ok invalid hok (hkeep hvalid)
    · exact ⟨firstPts_ok invalid _ pts, fun e he => absurd he List.not_mem_nil⟩
  unfold frameRateDetect
  dsimp only
  refine ⟨fun _ => ?_, ?_⟩
  · split
    · exact hbody.1.of_same rfl rfl
    · exact hbody.1
  · intro e he
    rcases List.mem_append.mp he with he | he
    · exact hev e he
    · exact hbody.2 e he

theorem frdInfoReset0_ok (invalid : U32) (s : FrdInfo) : WindowOk invalid (frdInfoReset0 invalid s) :=
  fun h => absurd rfl h

/-- **The index stays in bounds and nothing is divided by zero**, in every run from a reset in which no step
    shrinks the window below the index or grows it above the array: every array access has an index below
    100, `nowPTSPtr` is 1 to 99 whenever the array is accessed through it or a rate is computed, and every
    divisor is nonzero. -/
theorem run_window {invalid : U32} {s₀ s : FrdInfo} {ptss : List U32} {es : List Event}
    (h : Run (step invalid) (KeepsLength invalid) (frdInfoReset0 invalid s₀) ptss s es) :
    (∀ i ptr, Event.index i ptr ∈ es → i < 100 ∧ 1 ≤ ptr ∧ ptr ≤ 99) ∧
      ∀ d, Event.divisor d ∈ es → d ≠ 0 := by
  have hinv : ∀ {ps t fs}, Run (step invalid) (KeepsLength invalid) (frdInfoReset0 invalid s₀) ps t fs →
      WindowOk invalid t := by
    intro ps t fs hrun
    refine hrun.inv (fun _ t => WindowOk invalid t) (frdInfoReset0_ok invalid s₀) ?_
    intro _ t pts t' gs ht hkeep hstep
    have hok := (frameRateDetect_ok ht hkeep).1
    rwa [show frameRateDetect invalid t pts = (t', gs) from Option.some.inj hstep] at hok
  have hall := h.effects (fun _ e => EventOk e) (fun hr => hinv hr) (fun _ _ _ he => he) (by
    intro _ t pts t' gs ht hkeep hstep
    have hev := (frameRateDetect_ok ht hkeep).2
    rwa [show frameRateDetect invalid t pts = (t', gs) from Option.some.inj hstep] at hev)
  exact ⟨fun i ptr he => hall _ he, fun d he => hall _ he⟩

/-- A cleared record. -/
def zeroInfo : FrdInfo := ⟨fun _ => 0, 0, 0, 0, 0, 0, 0, 0, 0, 0, 0, 0⟩

/-- Five frames at 34 ms, then `n` frames at 100 ms. -/
def slowDown (n : Nat) : List U32 :=
  [0, 34, 68, 102, 136] ++ (List.range n).map (fun k => BitVec.ofNat 32 (236 + 100 * k))

/-- The effect is an array index outside the array. -/
def outside : Event → Bool
  | .index i _ => decide (100 ≤ i)
  | _ => false

/-- From about 30 to 10 frames a second: the estimate after ten frames sets the window length to 10 when the
    index is 10 already, and the index runs on to 100. -/
theorem run_index_out_of_bounds :
    ∃ s es, Run (step 0xffffffff) always (frdInfoReset0 0xffffffff zeroInfo) (slowDown 100) s es ∧
      ∃ i ptr, Event.index i ptr ∈ es ∧ ¬ (i < 100) := by
  refine exists_run_imp (fun _ es => es.any outside) (by decide +kernel) fun _ _ _ htest => ?_
  obtain ⟨e, he, hout⟩ := List.any_eq_true.mp htest
  unfold outside at hout
  split at hout
  · exact ⟨_, _, he, Nat.not_lt.mpr (of_decide_eq_true hout)⟩
  · cases hout

/-- Before the new estimate everything is in bounds. -/
theorem run_window_before_estimate :
    ∃ s es, Run (step 0xffffffff) (KeepsLength 0xffffffff) (frdInfoReset0 0xffffffff zeroInfo)
        (slowDown 9) s es ∧ s.nowPTSPtr = 10 ∧
      ∀ i ptr, Event.index i ptr ∈ es → i < 100 ∧ 1 ≤ ptr ∧ ptr ≤ 99 := by
  exact exists_run_imp (fun s _ => s.nowPTSPtr = 10) (by decide) fun _ _ hrun htest => ⟨htest, (run_window hrun).1⟩

end HiSTB.Omxvdec
