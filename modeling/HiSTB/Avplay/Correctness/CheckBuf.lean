import HiSTB.Avplay.CheckBuf
import Mathlib.Algebra.Group.Nat.Defs

/-!
# `Avplay.Correctness.CheckBuf` — water levels are true while the products fit into 32 bits

* `percent_eq_iff`, `strmTime_eq_iff` — each of the two quotients is the true one exactly when its product fits;
* `checkBuf_right_iff` — so a pass over the video is right exactly when the used bytes are fewer than 2^32 / 100 and,
  with a low buffer, the stream's bytes fewer than 2^32 / 1000.
-/

namespace HiSTB.Avplay.CheckBuf

variable {p : Pass} {f : Fill} {s : State}

/-! ## What is right -/

/-- The percentage of a buffer. -/
def truePercent (f : Fill) : Nat := 100 * f.used.toNat / f.size.toNat

/-- The time of the stream; a rate below 100 bytes a second is taken for none. -/
def FrmStatus.trueTime (st : FrmStatus) : Nat :=
  if st.strmInBps.toNat < 100 then 0 else 1000 * st.strmSize.toNat / st.strmInBps.toNat

/-- A level of the video below 30 percent, from the true time. -/
def trueLow (waiting queued time : Nat) : BufState :=
  if waiting ≤ 1 then .empty
  else if queued ≤ 5 then
    if time ≤ 80 then .empty else .low
  else
    if time ≤ 40 then .empty
    else if time ≤ 80 then .low
    else .normal

/-- The level of the video from true numbers. -/
def trueState (p : Pass) (f : Fill) : BufState :=
  if 85 ≤ truePercent f then .full
  else if 70 ≤ truePercent f then .high
  else if truePercent f < 30 then
    match p.windowValid, p.frmStatus, p.frameNumInBufQn with
    | true, some st, some n => trueLow n.toNat (n + st.decodedFrmNum).toNat st.trueTime
    | _, _, _ => .low
  else .normal

/-- The stream's time is looked at: a window is there, and both of its calls succeed. -/
def Pass.Looks (p : Pass) (st : FrmStatus) (n : U32) : Prop :=
  p.windowValid = true ∧ p.frmStatus = some st ∧ p.frameNumInBufQn = some n

/-- A pass of which the video's buffer is `f` goes by the true numbers. Discarding ends before 60 percent only with a
    reset, which empties the buffers. -/
structure Right (p : Pass) (f : Fill) (s : State) : Prop where
  percent : (vidLook p).percent.toNat = truePercent f
  time : truePercent f < 30 → ∀ st n, p.Looks st n → st.strmTime.toNat = st.trueTime
  state : (vidLook p).cur = trueState p f
  full : (vidLook p).cur = .full ↔ 85 ≤ truePercent f
  high : (vidLook p).cur = .high ↔ 70 ≤ truePercent f ∧ truePercent f < 85
  starts : p.realMode = true → s.vidDiscard = false →
    ((procCheckBuf p s).reset = true ∨ (procCheckBuf p s).state.vidDiscard = true ↔
      (audLook p).cur = .full ∨ 85 ≤ truePercent f)
  ends : p.realMode = true → s.vidDiscard = true → (procCheckBuf p s).state.vidDiscard = false →
    (procCheckBuf p s).reset = true ∨ truePercent f ≤ 60

/-! ## Quotients of 32 bits -/

/-- A quotient of a product that was cut to 32 bits is the true one only if nothing was cut off. -/
theorem mod_div_eq_iff {x d : Nat} (hpos : 0 < d) (hd : d ≤ 2 ^ 32) : x % 2 ^ 32 / d = x / d ↔ x < 2 ^ 32 := by
  constructor
  · intro heq
    refine Nat.lt_of_not_le fun hge => ?_
    have hcut : x % 2 ^ 32 + d ≤ x := by omega
    have hnext : x % 2 ^ 32 / d + 1 ≤ x / d := by
      rw [← Nat.add_div_right _ hpos]
      exact Nat.div_le_div_right hcut
    omega
  · intro hlt
    rw [Nat.mod_eq_of_lt hlt]

theorem percent_eq_iff (hpos : 0 < f.size.toNat) :
    (percent f).toNat = truePercent f ↔ 100 * f.used.toNat < 2 ^ 32 := by
  have hsize : f.size > 0 := hpos
  rw [percent, if_pos hsize, BitVec.toNat_udiv, BitVec.toNat_mul, truePercent, Nat.mul_comm 100]
  exact mod_div_eq_iff hpos (Nat.le_of_lt f.size.isLt)

theorem strmTime_eq_iff (st : FrmStatus) :
    st.strmTime.toNat = st.trueTime ↔ (100 ≤ st.strmInBps.toNat → 1000 * st.strmSize.toNat < 2 ^ 32) := by
  have hcmp : st.strmInBps < 100 ↔ st.strmInBps.toNat < 100 := Iff.rfl
  unfold FrmStatus.strmTime FrmStatus.trueTime
  by_cases hbps : st.strmInBps.toNat < 100
  · rw [if_pos (hcmp.mpr hbps), if_pos hbps]
    exact iff_of_true rfl (fun h => absurd hbps (Nat.not_lt.mpr h))
  · rw [if_neg (mt hcmp.mp hbps), if_neg hbps, BitVec.toNat_udiv, BitVec.toNat_mul, Nat.mul_comm 1000]
    refine (mod_div_eq_iff (by omega) (Nat.le_of_lt st.strmInBps.isLt)).trans ?_
    exact ⟨fun h _ => h, fun h => h (Nat.not_lt.mp hbps)⟩

/-! ## Levels -/

theorem lowState_eq (n queued time : U32) : lowState n queued time = trueLow n.toNat queued.toNat time.toNat := by
  have hle : ∀ (a : U32) (k : Nat), k < 2 ^ 32 → (a ≤ BitVec.ofNat 32 k ↔ a.toNat ≤ k) := by
    intro a k hk
    rw [BitVec.le_def, BitVec.toNat_ofNat, Nat.mod_eq_of_lt hk]
  simp only [lowState, trueLow, BitVec.ofNat_eq_ofNat, hle _ 1 (by decide), hle _ 5 (by decide), hle _ 10 (by decide),
    hle _ 40 (by decide), hle _ 80 (by decide), ite_self]

/-- The level is the true one where the two quotients are. -/
theorem caclBufState_vid {pct : U32} (hpct : pct.toNat = truePercent f)
    (htime : truePercent f < 30 → ∀ st n, p.Looks st n → st.strmTime.toNat = st.trueTime) :
    caclBufState p .vid pct = trueState p f := by
  have hge : ∀ k : Nat, k < 2 ^ 32 → (pct ≥ BitVec.ofNat 32 k ↔ k ≤ truePercent f) := by
    intro k hk
    rw [ge_iff_le, BitVec.le_def, BitVec.toNat_ofNat, Nat.mod_eq_of_lt hk, hpct]
  have hlt : ∀ k : Nat, k < 2 ^ 32 → (pct < BitVec.ofNat 32 k ↔ truePercent f < k) := by
    intro k hk
    rw [BitVec.lt_def, BitVec.toNat_ofNat, Nat.mod_eq_of_lt hk, hpct]
  simp only [caclBufState, trueState, BitVec.ofNat_eq_ofNat, hge 85 (by decide), hge 70 (by decide),
    hlt 85 (by decide), hlt 30 (by decide)]
  by_cases hfull : 85 ≤ truePercent f
  · rw [if_pos hfull, if_pos hfull]
  · rw [if_neg hfull, if_neg hfull]
    by_cases hhigh : 70 ≤ truePercent f
    · rw [if_pos ⟨hhigh, Nat.not_le.mp hfull⟩, if_pos hhigh]
    · rw [if_neg (mt And.left hhigh), if_neg hhigh]
      by_cases hlow : truePercent f < 30
      · rw [if_pos hlow, if_pos hlow]
        cases hwin : p.windowValid with
        | false => rfl
        | true =>
          cases hst : p.frmStatus with
          | none => rfl
          | some st =>
            cases hn : p.frameNumInBufQn with
            | none => rfl
            | some n =>
              show lowState n (n + st.decodedFrmNum) st.strmTime = _
              rw [lowState_eq, htime hlow st n ⟨hwin, hst, hn⟩]
      · rw [if_neg hlow, if_neg hlow]

theorem trueLow_le (n queued time : Nat) :
    trueLow n queued time = .empty ∨ trueLow n queued time = .low ∨ trueLow n queued time = .normal := by
  unfold trueLow
  repeat' split
  all_goals simp

/-- Below 70 percent the level is none of the upper two. -/
theorem trueState_lower (hlower : truePercent f < 70) : trueState p f ≠ .full ∧ trueState p f ≠ .high := by
  rw [trueState, if_neg (by omega), if_neg (by omega)]
  split
  · split
    · rcases trueLow_le _ _ _ with h | h | h <;> rw [h] <;> decide
    · decide
  · decide

theorem trueState_full_iff : trueState p f = .full ↔ 85 ≤ truePercent f := by
  by_cases hfull : 85 ≤ truePercent f
  · exact iff_of_true (if_pos hfull) hfull
  · refine iff_of_false ?_ hfull
    by_cases hhigh : 70 ≤ truePercent f
    · rw [trueState, if_neg hfull, if_pos hhigh]
      decide
    · exact (trueState_lower (Nat.not_le.mp hhigh)).1

theorem trueState_high_iff : trueState p f = .high ↔ 70 ≤ truePercent f ∧ truePercent f < 85 := by
  by_cases hhigh : 70 ≤ truePercent f
  · by_cases hfull : 85 ≤ truePercent f
    · rw [trueState, if_pos hfull]
      exact iff_of_false (by decide) (fun h => Nat.not_lt.mpr hfull h.2)
    · rw [trueState, if_neg hfull, if_pos hhigh]
      exact iff_of_true rfl ⟨hhigh, Nat.not_le.mp hfull⟩
  · exact iff_of_false (trueState_lower (Nat.not_le.mp hhigh)).2 (fun h => hhigh h.1)

/-! ## The pass -/

theorem vidLook_eq (hfill : p.vidFill = some f) : vidLook p = Look.ofFill p .vid f := by
  rw [vidLook, hfill]
  rfl

/-- A pass over a live stream that throws nothing away so far: it starts to, or resets, where a level is full. -/
theorem starts_iff (hreal : p.realMode = true) (hdisc : s.vidDiscard = false) :
    (procCheckBuf p s).reset = true ∨ (procCheckBuf p s).state.vidDiscard = true ↔
      (audLook p).cur = .full ∨ (vidLook p).cur = .full := by
  unfold procCheckBuf notify
  by_cases haud : (audLook p).cur = .full
  · by_cases hvid : (vidLook p).cur = .full
    · cases hover : p.overflowReset <;> simp [hreal, hdisc, haud, hvid]
    · simp [hreal, hdisc, haud, hvid]
  · by_cases hvid : (vidLook p).cur = .full
    · cases hover : p.overflowReset <;> simp [hreal, hdisc, haud, hvid]
    · simp [hreal, hdisc, haud, hvid]

/-- A pass over a live stream that throws the video away goes on with it above 60 percent, if it does not reset. -/
theorem ends_of (hreal : p.realMode = true) (hdisc : s.vidDiscard = true)
    (hend : (procCheckBuf p s).state.vidDiscard = false) :
    (procCheckBuf p s).reset = true ∨ (vidLook p).percent ≤ 60 := by
  by_cases hpct : (vidLook p).percent ≤ 60
  · exact .inr hpct
  · refine .inl ?_
    have hpct' : ¬ (vidLook p).percent ≤ 60#32 := hpct
    revert hend
    unfold procCheckBuf notify
    by_cases haud : (audLook p).cur = .full <;> simp [hreal, hdisc, haud, hpct']

/-- **A pass over the video goes by the true numbers exactly when its products fit into 32 bits.** -/
theorem checkBuf_right_iff (hfill : p.vidFill = some f) (hsize : minVidSize ≤ f.size.toNat) :
    Right p f s ↔ 100 * f.used.toNat < 2 ^ 32 ∧
      (100 * f.used.toNat < 30 * f.size.toNat → ∀ st n, p.Looks st n →
        100 ≤ st.strmInBps.toNat → 1000 * st.strmSize.toNat < 2 ^ 32) := by
  have hpos : 0 < f.size.toNat := Nat.lt_of_lt_of_le (by decide) hsize
  have hlow : truePercent f < 30 ↔ 100 * f.used.toNat < 30 * f.size.toNat := Nat.div_lt_iff_lt_mul hpos
  have hlook : (vidLook p).percent = percent f := by rw [vidLook_eq hfill, Look.ofFill]
  rw [← hlow]
  constructor
  · intro hright
    refine ⟨(percent_eq_iff hpos).mp (hlook ▸ hright.percent), fun h st n hlooks => ?_⟩
    exact (strmTime_eq_iff st).mp (hright.time h st n hlooks)
  · rintro ⟨hused, hstrm⟩
    have hpct : (percent f).toNat = truePercent f := (percent_eq_iff hpos).mpr hused
    have htime : truePercent f < 30 → ∀ st n, p.Looks st n → st.strmTime.toNat = st.trueTime :=
      fun h st n hlooks => (strmTime_eq_iff st).mpr (hstrm h st n hlooks)
    have hcur : (vidLook p).cur = trueState p f := by
      rw [vidLook_eq hfill, Look.ofFill]
      exact caclBufState_vid hpct htime
    exact {
      percent := by rw [hlook, hpct]
      time := htime
      state := hcur
      full := by rw [hcur, trueState_full_iff]
      high := by rw [hcur, trueState_high_iff]
      starts := fun hreal hdisc => by rw [starts_iff hreal hdisc, hcur, trueState_full_iff]
      ends := by
        intro hreal hdisc hend
        refine (ends_of hreal hdisc hend).imp_right fun hle => ?_
        rw [hlook, BitVec.le_def, hpct] at hle
        exact hle }

/-- A pass over a live stream without sound, whose video buffer is `f`. -/
def livePass (f : Fill) : Pass where
  audEnable := false
  vidEnable := true
  streamTs := true
  portRam := false
  overflowReset := true
  windowValid := false
  audInfo := ⟨0, 0, 0⟩
  adec := none
  dmxAud := none
  vdec := some f
  dmxVid := some f
  frmStatus := none
  frameNumInBufQn := none

/-- A pass that looks at the time of the stream: two megabytes at 4 Mbit a second, and eight frames that wait. -/
def lowPass (f : Fill) : Pass :=
  { livePass f with
    windowValid := true, frmStatus := some ⟨0x200000, 4000000, 4⟩, frameNumInBufQn := some 8 }

/-- 10 of 64 MB. -/
theorem right_low :
    Right (lowPass ⟨0x4000000, 0xa00000⟩) ⟨0x4000000, 0xa00000⟩ ⟨false, .normal, .normal, 0, 0⟩ ∧
      (lowPass ⟨0x4000000, 0xa00000⟩).Looks ⟨0x200000, 4000000, 4⟩ 8 := by
  refine ⟨(checkBuf_right_iff rfl (by decide)).mpr ⟨by decide, fun _ st n hlooks _ => ?_⟩, rfl, rfl, rfl⟩
  obtain ⟨-, hstatus, -⟩ := hlooks
  obtain rfl : (⟨0x200000, 4000000, 4⟩ : FrmStatus) = st := Option.some.inj hstatus
  decide

/-- 60 of 64 MB: the level is said to be below 30 percent, and nothing is done about it. -/
theorem not_right_full :
    let f : Fill := ⟨0x4000000, 0x3c00000⟩
    f.size.toNat ≤ maxVidSize ∧ f.used.toNat ≤ f.size.toNat ∧ (livePass f).vidFill = some f ∧
      (livePass f).realMode = true ∧ ¬ Right (livePass f) f ⟨false, .normal, .normal, 0, 0⟩ := by
  refine ⟨by decide, by decide, rfl, rfl, fun hright => ?_⟩
  exact absurd hright.percent (by decide)

end HiSTB.Avplay.CheckBuf
