import HiSTB.Omxvdec.PtsRecv
import Mathlib.Algebra.Group.Nat.Defs

/-!
# `Omxvdec.Correctness.Stamps` — the stamps of frames without a source PTS

* `chooseTime_stable` — the frame time stays the same until the next source PTS;
* `stamps_eq` — the stamp of each frame, with the product of frame time and frames in 32 bits;
* `stamps_recovered_iff` — the stamps are exact if and only if that product does not wrap.
-/

namespace HiSTB.Omxvdec.PtsRecv

variable {invalidPts invalidTime : U32} {s t : PtsChan} {im src : Image} {ims : List Image} {r : Stamped}
variable {k : Nat}

  {last ft : U32}

/-! ## One frame -/

theorem detect_chan (s : PtsChan) (im : Image) : ∃ info, (detect invalidPts s im).1 = { s with ptsInfo := info } := by
  unfold detect
  split
  · exact ⟨s.ptsInfo, rfl⟩
  · exact ⟨_, rfl⟩

theorem calcStamp_spec (hr : calcStamp invalidPts invalidTime s im = some r) :
    s.status = .start ∧ r.pts = (stampFrame invalidPts invalidTime s im).2 ∧
      ∃ info, r.chan = { (stampFrame invalidPts invalidTime s im).1 with ptsInfo := info } := by
  unfold calcStamp at hr
  split at hr
  · cases hr
  · rename_i hs
    cases hr
    exact ⟨not_not.mp hs, rfl, detect_chan _ _⟩

theorem calcStamp_isSome (invalidPts invalidTime : U32) (hs : s.status = .start) (im : Image) :
    ∃ r, calcStamp invalidPts invalidTime s im = some r := by
  unfold calcStamp
  rw [if_neg (not_not.mpr hs)]
  exact ⟨_, rfl⟩

theorem measure_keeps (invalidTime : U32) (s : PtsChan) (time : U32) :
    ∃ c l f d, measure invalidTime s time =
      { s with frameTimeCnt := c, lastCalcFrmTime := l, calcFrameTime := f, interPtsDelta := d } := by
  unfold measure
  dsimp only
  split
  · split
    · split <;> exact ⟨_, _, _, _, rfl⟩
    · split <;> exact ⟨_, _, _, _, rfl⟩
  · exact ⟨_, _, _, _, rfl⟩

/-- After a frame with a source PTS no frames have passed. -/
theorem srcStamp_keeps (invalidPts invalidTime : U32) (s : PtsChan) (src frameNum : U32) :
    ∃ c l f d, srcStamp invalidPts invalidTime s src frameNum = { s with
        frameTimeCnt := c, lastCalcFrmTime := l, calcFrameTime := f, interPtsDelta := d, lastSrcPts := src
        lastSrcFrmIdx := frameNum } := by
  unfold srcStamp
  split
  · split
    · split
      · obtain ⟨c, l, f, d, h⟩ := measure_keeps invalidTime s (ptsPass s src * 1000 / numPass invalidPts s frameNum)
        rw [h]
        exact ⟨c, l, f, d, rfl⟩
      · split <;> exact ⟨_, _, _, _, rfl⟩
    · exact ⟨_, _, _, _, rfl⟩
  · exact ⟨_, _, _, _, rfl⟩

/-- **A record between two source PTS**: `k` frames have passed since the last one. -/
structure Passing (invalidPts last : U32) (k : Nat) (s : PtsChan) : Prop where
  status : s.status = .start
  valid : last ≠ invalidPts
  lastSrcPts : s.lastSrcPts = last
  frames : s.frameNum - s.lastSrcFrmIdx = BitVec.ofNat 32 k

theorem calcStamp_source (hsrc : src.srcPts.setWidth 32 ≠ invalidPts)
    (hr : calcStamp invalidPts invalidTime s src = some r) :
    Passing invalidPts (src.srcPts.setWidth 32) 0 r.chan := by
  obtain ⟨hs, -, info, hchan⟩ := calcStamp_spec hr
  unfold stampFrame at hchan
  rw [if_pos hsrc] at hchan
  obtain ⟨c, l, f, d, h⟩ := srcStamp_keeps invalidPts invalidTime { s with frameNum := s.frameNum + 1 }
    (src.srcPts.setWidth 32) (s.frameNum + 1)
  rw [hchan, h]
  exact ⟨hs, hsrc, rfl, BitVec.sub_self _⟩

/-! ## The frame time -/

/-- The frame time, where it is not guessed. -/
def fixedTime (invalidTime : U32) (s : PtsChan) : Option U32 :=
  if s.frmRateType = .user then
    if s.setFrameTime ≠ invalidTime then some s.setFrameTime
    else if s.calcFrameTime ≠ invalidTime then some s.calcFrameTime else none
  else
    if s.calcFrameTime ≠ invalidTime then some s.calcFrameTime
    else if s.setFrameTime ≠ invalidTime then some s.setFrameTime else none

theorem chooseTime_eq (s : PtsChan) (im : Image) :
    chooseTime invalidTime s im = match fixedTime invalidTime s with
      | some time => (s, time)
      | none => (guessTime invalidTime s im, (guessTime invalidTime s im).gesFrameTime) := by
  unfold chooseTime fixedTime
  split_ifs <;> rfl

theorem chooseTime_chan (invalidTime : U32) (s : PtsChan) (im : Image) :
    ∃ g, (chooseTime invalidTime s im).1 = { s with gesFrameTime := g } := by
  rw [chooseTime_eq]
  cases fixedTime invalidTime s with
  | some time => exact ⟨_, rfl⟩
  | none =>
    dsimp only
    unfold guessTime
    split <;> exact ⟨_, rfl⟩

theorem guessTime_ne (hinv : 120000000 < invalidTime.toNat) (s : PtsChan) (im : Image) :
    (guessTime invalidTime s im).gesFrameTime ≠ invalidTime := by
  have h1 : invalidTime ≠ 33333 := by
    rintro rfl
    exact absurd hinv (by decide)
  have h2 : invalidTime ≠ 40000 := by
    rintro rfl
    exact absurd hinv (by decide)
  unfold guessTime
  split_ifs with h
  · exact h1.symm
  · exact h2.symm
  · exact h2.symm
  · exact h

theorem fixedTime_guess (s : PtsChan) (im : Image) :
    fixedTime invalidTime (guessTime invalidTime s im) = fixedTime invalidTime s := by
  unfold guessTime
  split <;> rfl

/-- A guess stays, so the frame time stays the same. -/
theorem chooseTime_stable (hinv : 120000000 < invalidTime.toNat) (s : PtsChan) (im im' : Image) :
    (chooseTime invalidTime (chooseTime invalidTime s im).1 im').2 = (chooseTime invalidTime s im).2 := by
  rw [chooseTime_eq s im]
  cases hs : fixedTime invalidTime s with
  | some time =>
    rw [chooseTime_eq, hs]
  | none =>
    have hagain : guessTime invalidTime (guessTime invalidTime s im) im' = guessTime invalidTime s im :=
      if_neg (guessTime_ne hinv s im)
    rw [chooseTime_eq, fixedTime_guess, hs]
    rw [hagain]

/-- The fields that the choice reads. -/
structure SameTimes (s t : PtsChan) : Prop where
  frmRateType : t.frmRateType = s.frmRateType
  setFrameTime : t.setFrameTime = s.setFrameTime
  calcFrameTime : t.calcFrameTime = s.calcFrameTime
  gesFrameTime : t.gesFrameTime = s.gesFrameTime

theorem SameTimes.fixedTime (h : SameTimes s t) (invalidTime : U32) :
    fixedTime invalidTime t = fixedTime invalidTime s := by
  unfold PtsRecv.fixedTime
  rw [h.frmRateType, h.setFrameTime, h.calcFrameTime]

theorem SameTimes.guessTime (h : SameTimes s t) (invalidTime : U32) (im : Image) :
    (guessTime invalidTime t im).gesFrameTime = (guessTime invalidTime s im).gesFrameTime := by
  unfold PtsRecv.guessTime
  rw [h.gesFrameTime]
  split
  · rfl
  · exact h.gesFrameTime

theorem SameTimes.chooseTime (h : SameTimes s t) (invalidTime : U32) (im : Image) :
    (chooseTime invalidTime t im).2 = (chooseTime invalidTime s im).2 := by
  rw [chooseTime_eq, chooseTime_eq, h.fixedTime]
  cases PtsRecv.fixedTime invalidTime s with
  | some time => rfl
  | none => exact h.guessTime invalidTime im

/-! ## Frames without a source PTS -/

theorem recoverStamp_spec (invalidTime : U32) (hvalid : s.lastSrcPts ≠ invalidPts) (im : Image) (frameNum : U32) :
    ∃ d, recoverStamp invalidPts invalidTime s im frameNum =
      ({ (chooseTime invalidTime s im).1 with interPtsDelta := d },
        s.lastSrcPts + (chooseTime invalidTime s im).2 * (frameNum - s.lastSrcFrmIdx) / 1000) := by
  obtain ⟨g, hg⟩ := chooseTime_chan invalidTime s im
  unfold recoverStamp numPass
  rw [if_pos hvalid, if_pos hvalid]
  dsimp only
  rw [hg]
  exact ⟨_, rfl⟩

/-- One more frame: its stamp, and the frame time for those that follow. -/
theorem calcStamp_without (hinv : 120000000 < invalidTime.toNat) (h : Passing invalidPts last k s)
    (him : im.srcPts.setWidth 32 = invalidPts) (hr : calcStamp invalidPts invalidTime s im = some r) :
    Passing invalidPts last (k + 1) r.chan ∧
    r.pts = last + (chooseTime invalidTime s im).2 * BitVec.ofNat 32 (k + 1) / 1000 ∧
    ∀ im', (chooseTime invalidTime r.chan im').2 = (chooseTime invalidTime s im).2 := by
  obtain ⟨-, hpts, info, hchan⟩ := calcStamp_spec hr
  have hnum : s.frameNum + 1 - s.lastSrcFrmIdx = BitVec.ofNat 32 (k + 1) := by
    have hk := h.frames
    bv_omega
  have hframe : stampFrame invalidPts invalidTime s im =
      recoverStamp invalidPts invalidTime { s with frameNum := s.frameNum + 1 } im (s.frameNum + 1) :=
    if_neg (not_not.mpr him)
  have hvalid : s.lastSrcPts ≠ invalidPts := h.lastSrcPts ▸ h.valid
  obtain ⟨d, hrec⟩ := recoverStamp_spec invalidTime (s := { s with frameNum := s.frameNum + 1 }) hvalid im
    (s.frameNum + 1)
  have hsame : SameTimes s { s with frameNum := s.frameNum + 1 } := ⟨rfl, rfl, rfl, rfl⟩
  have hft := hsame.chooseTime invalidTime im
  obtain ⟨g, hg⟩ := chooseTime_chan invalidTime { s with frameNum := s.frameNum + 1 } im
  have hstable := chooseTime_stable hinv { s with frameNum := s.frameNum + 1 } im
  rw [hframe, hrec] at hpts hchan
  rw [hg] at hchan hstable
  refine ⟨⟨?_, h.valid, ?_, ?_⟩, ?_, ?_⟩
  · rw [hchan]
    exact h.status
  · rw [hchan]
    exact h.lastSrcPts
  · rw [hchan]
    exact hnum
  · rw [hpts, hft, hnum, h.lastSrcPts]
  · intro im'
    rw [← hft, ← hstable im', hchan]
    refine SameTimes.chooseTime ?_ invalidTime im'
    exact ⟨rfl, rfl, rfl, rfl⟩

/-- **The stamps**, with `j` frames since the source PTS already. -/
theorem stamps_eq (hinv : 120000000 < invalidTime.toNat) {j : Nat} (h : Passing invalidPts last j s)
    (hft : ∀ im ∈ ims.head?, (chooseTime invalidTime s im).2 = ft)
    (hno : ∀ im ∈ ims, im.srcPts.setWidth 32 = invalidPts) (hk : k < ims.length) :
    (stamps invalidPts invalidTime s ims)[k]? = some (last + ft * BitVec.ofNat 32 (j + k + 1) / 1000) := by
  induction ims generalizing s j k with
  | nil => exact absurd hk (Nat.not_lt_zero k)
  | cons im ims ih =>
    obtain ⟨r, hr⟩ := calcStamp_isSome invalidPts invalidTime h.status im
    obtain ⟨hnext, hpts, hagain⟩ := calcStamp_without hinv h (hno im List.mem_cons_self) hr
    have hft' : (chooseTime invalidTime s im).2 = ft := hft im rfl
    unfold stamps
    rw [hr]
    cases k with
    | zero =>
      rw [List.getElem?_cons_zero, hpts, hft']
    | succ k =>
      rw [List.getElem?_cons_succ, ih hnext (fun im' _ => (hagain im').trans hft')
        (fun im' him => hno im' (List.mem_cons_of_mem _ him)) (Nat.lt_of_succ_lt_succ hk)]
      rw [show j + 1 + k + 1 = j + (k + 1) + 1 by omega]

/-! ## Exact stamps -/

/-- The frame time of the frames `ims`. -/
def frameTime (invalidTime : U32) (s : PtsChan) (ims : List Image) : U32 :=
  match ims with
  | [] => 0
  | im :: _ => (chooseTime invalidTime s im).2

/-- **The stamps are recovered**: each is the last source PTS plus the frame times since, and none is less than
    one before. -/
structure Recovered (last : U32) (ft : Nat) (n : Nat) (out : List U32) : Prop where
  value : ∀ k < n, out[k]? = some (last + BitVec.ofNat 32 (ft * (k + 1) / 1000))
  mono : ∀ j k x y, j ≤ k → k < n → out[j]? = some x → out[k]? = some y → (x - last).toNat ≤ (y - last).toNat

theorem product_toNat (ft : U32) (k : Nat) :
    (ft * BitVec.ofNat 32 k / 1000).toNat = ft.toNat * k % 2 ^ 32 / 1000 := by
  rw [BitVec.toNat_udiv, BitVec.toNat_mul, BitVec.toNat_ofNat, Nat.mul_mod_mod]
  rfl

theorem quotient_toNat {a : Nat} (h : a < 2 ^ 33) : (BitVec.ofNat 32 (a / 1000)).toNat = a / 1000 := by
  rw [BitVec.toNat_ofNat, Nat.mod_eq_of_lt]
  omega

theorem product_exact (h : ft.toNat * k < 2 ^ 32) :
    ft * BitVec.ofNat 32 k / 1000 = BitVec.ofNat 32 (ft.toNat * k / 1000) := by
  apply BitVec.eq_of_toNat_eq
  rw [product_toNat, quotient_toNat (by omega), Nat.mod_eq_of_lt h]

theorem add_sub_self (x y : U32) : x + y - x = y := by
  rw [BitVec.add_comm, BitVec.add_sub_cancel]

/-- The first product that reaches `2 ^ 32` is less than `2 ^ 33`. -/
theorem product_inexact {n : Nat} (h : 2 ^ 32 ≤ ft.toNat * n) :
    ∃ k < n, ft * BitVec.ofNat 32 (k + 1) / 1000 ≠ BitVec.ofNat 32 (ft.toNat * (k + 1) / 1000) := by
  have hpos : 0 < ft.toNat := by
    rcases Nat.eq_zero_or_pos ft.toNat with h0 | h0
    · rw [h0, Nat.zero_mul] at h
      omega
    · exact h0
  have hlow : 2 ^ 32 - 1 < ft.toNat * ((2 ^ 32 - 1) / ft.toNat + 1) := Nat.lt_mul_div_succ _ hpos
  have hhigh : ft.toNat * ((2 ^ 32 - 1) / ft.toNat) ≤ 2 ^ 32 - 1 := Nat.mul_div_le _ _
  have hft : ft.toNat < 2 ^ 32 := ft.isLt
  refine ⟨(2 ^ 32 - 1) / ft.toNat, ?_, ?_⟩
  · rw [Nat.div_lt_iff_lt_mul hpos, Nat.mul_comm]
    omega
  · intro heq
    have hnat := congrArg BitVec.toNat heq
    rw [Nat.mul_add, Nat.mul_one] at hlow hnat
    rw [product_toNat, Nat.mul_add, Nat.mul_one, quotient_toNat (by omega)] at hnat
    rw [Nat.mod_eq_sub_mod (by omega), Nat.mod_eq_of_lt (by omega)] at hnat
    omega

/-- **What `OMX_PTSREC_CalcStamp` returns without source PTS**: after a frame with a source PTS, the stamps of the
    frames without one are recovered if and only if the time of all of them, in microseconds, fits 32 bits. -/
theorem stamps_recovered_iff (invalidPts invalidTime : U32) (s : PtsChan) (src : Image) (r : Stamped)
    (ims : List Image) (hinv : 120000000 < invalidTime.toNat) (hsrc : src.srcPts.setWidth 32 ≠ invalidPts)
    (hr : calcStamp invalidPts invalidTime s src = some r)
    (hno : ∀ im ∈ ims, im.srcPts.setWidth 32 = invalidPts) :
    Recovered (src.srcPts.setWidth 32) (frameTime invalidTime r.chan ims).toNat ims.length
        (stamps invalidPts invalidTime r.chan ims) ↔
      (frameTime invalidTime r.chan ims).toNat * ims.length < 2 ^ 32 := by
  have hft : ∀ im ∈ ims.head?, (chooseTime invalidTime r.chan im).2 = frameTime invalidTime r.chan ims := by
    intro im him
    cases ims with
    | nil => cases him
    | cons im' ims =>
        cases him
        rfl
  have hout := fun k (hk : k < ims.length) => stamps_eq hinv (calcStamp_source hsrc hr) hft hno hk
  simp only [Nat.zero_add] at hout
  constructor
  · intro h
    by_contra hle
    obtain ⟨k, hk, hne⟩ := product_inexact (Nat.le_of_not_lt hle)
    apply hne
    have hval := Option.some.inj ((hout k hk).symm.trans (h.value k hk))
    rw [← add_sub_self (src.srcPts.setWidth 32) (_ / 1000), hval, add_sub_self]
  · intro h
    have hlt : ∀ k < ims.length, (frameTime invalidTime r.chan ims).toNat * (k + 1) < 2 ^ 32 := fun k hk =>
      Nat.lt_of_le_of_lt (Nat.mul_le_mul_left _ hk) h
    constructor
    · intro k hk
      rw [hout k hk, product_exact (hlt k hk)]
    · intro j k x y hjk hk hx hy
      have hj : j < ims.length := by omega
      rw [hout j hj] at hx
      rw [hout k hk] at hy
      cases hx
      cases hy
      rw [add_sub_self, add_sub_self, product_toNat, product_toNat, Nat.mod_eq_of_lt (hlt j hj),
        Nat.mod_eq_of_lt (hlt k hk)]
      exact Nat.div_le_div_right (Nat.mul_le_mul_left _ (Nat.succ_le_succ hjk))

/-- A record that is started with a frame rate set by the user. -/
def startedUser (fpsInteger fpsDecimal : U32) : PtsChan :=
  let inited := ptsrecInit 0xffffffff 0xffffffff PtsChan.zero
  let set := ptsrecSetFrmRate (ptsrecAlloc 0xffffffff 0xffffffff inited).1 ⟨.user, fpsInteger, fpsDecimal⟩
  (ptsrecStart 0xffffffff 0xffffffff set.1).1

/-- A picture of 720 x 576 with this source PTS. -/
def palImage (srcPts : BitVec 64) : Image := ⟨srcPts, 720, 576, 0, 0, 0, 0⟩

/-- One frame a thousand seconds: the four pictures behind get their stamps. -/
theorem stamps_recovered_four : ∃ r, calcStamp 0xffffffff 0xffffffff (startedUser 0 1) (palImage 0) = some r ∧
    Recovered 0 1000000000 4
      (stamps 0xffffffff 0xffffffff r.chan (List.replicate 4 (palImage 0xffffffff))) := by
  obtain ⟨r, hr⟩ := calcStamp_isSome 0xffffffff 0xffffffff (s := startedUser 0 1) rfl (palImage 0)
  refine ⟨r, hr, ?_⟩
  have hft : frameTime 0xffffffff r.chan (List.replicate 4 (palImage 0xffffffff)) = 1000000000 := by
    cases hr
    decide
  have h := stamps_recovered_iff 0xffffffff 0xffffffff (startedUser 0 1) (palImage 0) r
    (List.replicate 4 (palImage 0xffffffff)) (by decide) (by decide) hr (by decide)
  rw [hft] at h
  exact h.mpr (by decide)

/-- One frame in a thousand seconds: the time of five does not fit. -/
theorem stamps_wrap : ∃ r, calcStamp 0xffffffff 0xffffffff (startedUser 0 1) (palImage 0) = some r ∧
    stamps 0xffffffff 0xffffffff r.chan (List.replicate 5 (palImage 0xffffffff)) =
      [1000000, 2000000, 3000000, 4000000, 705032] ∧
    ¬ Recovered 0 1000000000 5
      (stamps 0xffffffff 0xffffffff r.chan (List.replicate 5 (palImage 0xffffffff))) := by
  obtain ⟨r, hr⟩ := calcStamp_isSome 0xffffffff 0xffffffff (s := startedUser 0 1) rfl (palImage 0)
  have hout : stamps 0xffffffff 0xffffffff r.chan (List.replicate 5 (palImage 0xffffffff)) =
      [1000000, 2000000, 3000000, 4000000, 705032] := by
    cases hr
    decide
  refine ⟨r, hr, hout, fun h => ?_⟩
  rw [hout] at h
  exact absurd (h.value 4 (by decide)) (by decide)

end HiSTB.Omxvdec.PtsRecv
