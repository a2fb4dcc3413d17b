import HiSTB.Demux.Correctness.EsRange
import Mathlib.Algebra.Group.Nat.Defs

/-!
# `EsPts` — the milliseconds of a PTS

* `pcr1Khz_eq` — for the clock reference, a stamp of the 90 kHz clock over 33 bits is divided by 90 exactly;
* `parsePesHeader_pts_iff` — for the PES header this is so as far as the constant for the upper bit, which is rounded
  up, does not show.
-/

namespace HiSTB.Demux.Es

open Lib

variable {mac : Macros} {m : Nat → Byte} {n : U32} {T : BitVec 33}

/-- The header carries the PTS `T`: three fields, each with a marker behind it. -/
structure Carries (m : Nat → Byte) (T : BitVec 33) : Prop where
  upper : (m 9).extractLsb' 1 3 = T.extractLsb' 30 3
  middleHigh : m 10 = T.extractLsb' 22 8
  middleLow : (m 11).extractLsb' 1 7 = T.extractLsb' 15 7
  lowHigh : m 12 = T.extractLsb' 7 8
  lowLow : (m 13).extractLsb' 1 7 = T.extractLsb' 0 7

/-! ## The bits -/

theorem getLsbD_of_extract {w v len i j k : Nat} {x : BitVec w} {y : BitVec v}
    (h : x.extractLsb' i len = y.extractLsb' j len) (hk : k < len) : x.getLsbD (i + k) = y.getLsbD (j + k) := by
  have hbit := congrArg (BitVec.getLsbD · k) h
  simpa only [BitVec.getLsbD_extractLsb', hk, decide_true, Bool.true_and] using hbit

theorem Carries.upper_low (h : Carries m T) : (m 9).extractLsb' 1 2 = T.extractLsb' 30 2 := by
  apply BitVec.eq_of_getLsbD_eq
  intro k hk
  rw [BitVec.getLsbD_extractLsb', BitVec.getLsbD_extractLsb', getLsbD_of_extract h.upper (by omega)]

theorem Carries.upper_high (h : Carries m T) : (m 9).getLsbD 3 = T.getLsbD 32 :=
  getLsbD_of_extract h.upper (show 2 < 3 by omega)

theorem mask_upper (b : Byte) : ((b &&& 0x06) >>> 1).setWidth 32 = (b.extractLsb' 1 2).setWidth 32 := by
  revert b
  decide

theorem mask_lower (b : Byte) : ((b &&& 0xfe) >>> 1).setWidth 32 = (b.extractLsb' 1 7).setWidth 32 := by
  revert b
  decide

theorem and_eight (b : Byte) : b &&& 0x08 ≠ 0 ↔ b.getLsbD 3 = true := by
  revert b
  decide

/-- **The fields put together** are the lower word of the stamp. -/
theorem Carries.ptsLow_eq (h : Carries m T) : ptsLow (m 9) (m 10) (m 11) (m 12) (m 13) = T.setWidth 32 := by
  unfold ptsLow
  rw [mask_upper, mask_lower, mask_lower, h.upper_low, h.middleHigh, h.middleLow, h.lowHigh, h.lowLow]
  apply BitVec.eq_of_getLsbD_eq
  intro i hi
  simp only [BitVec.getLsbD_or, BitVec.getLsbD_shiftLeft, BitVec.getLsbD_setWidth, BitVec.getLsbD_extractLsb', hi,
    decide_true, Bool.true_and]
  grind

theorem getLsbD_last : T.getLsbD 32 = true ↔ 2 ^ 32 ≤ T.toNat := by
  have hmsb : T.getLsbD 32 = T.msb := (BitVec.msb_eq_getLsbD_last T).symm
  rw [hmsb, BitVec.msb_eq_decide, decide_eq_true_iff]

/-! ## The milliseconds -/

theorem Carries.ptsMs_toNat (h : Carries m T) : (ptsMs.result m).toNat =
    if 2 ^ 32 ≤ T.toNat then (T.toNat - 2 ^ 32) / 90 + 47721859 else T.toNat / 90 := by
  have hT := T.isLt
  unfold ptsMs byte
  simp only [Reading.result_bind, Reading.result_get, Reading.result_pure, h.ptsLow_eq, and_eight, h.upper_high,
    getLsbD_last]
  split
  · rw [BitVec.toNat_add, BitVec.toNat_udiv, BitVec.toNat_setWidth]
    simp only [BitVec.reduceToNat]
    omega
  · rw [BitVec.toNat_udiv, BitVec.toNat_setWidth]
    simp only [BitVec.reduceToNat]
    omega

/-- **The clock reference** is divided exactly. -/
theorem pcr1Khz_eq {pcrValue : BitVec 64} (h : pcrValue.setWidth 33 = T) : (pcr1Khz pcrValue).toNat = T.toNat / 90 := by
  have hmask : ((pcrValue >>> 1) &&& 0xffffffff).setWidth 32 = (pcrValue >>> 1).setWidth 32 := by
    apply BitVec.eq_of_toNat_eq
    rw [BitVec.toNat_setWidth, BitVec.toNat_setWidth, BitVec.toNat_and]
    show ((pcrValue >>> 1).toNat &&& (2 ^ 32 - 1)) % 2 ^ 32 = _
    rw [Nat.and_two_pow_sub_one_eq_mod, Nat.mod_mod]
  have hbase := congrArg BitVec.toNat h
  rw [BitVec.toNat_setWidth] at hbase
  unfold pcr1Khz
  rw [hmask, BitVec.toNat_udiv, BitVec.toNat_setWidth, BitVec.toNat_ushiftRight, Nat.shiftRight_eq_div_pow]
  simp only [BitVec.reduceToNat]
  omega

/-- A header with a PTS: the parser puts it into `LastPts`. -/
theorem parsePesHeader_lastPts (hstart : HasStart m) (hhead : m 3 ∉ headless) (hstamped : Stamped m n.toNat) :
    ((parsePesHeader mac n).result m).lastPts = some (ptsMs.result m) := by
  have hstamp : stamp mac ((m 7 &&& 0x80) >>> 7) (BitVec.ofNat 32 pesHeaderLength + (m 8).setWidth 32) n = ptsMs := by
    refine if_pos ⟨hstamped.1, ?_⟩
    rw [BitVec.lt_def, headLen_toNat]
    exact hstamped.2
  rw [result_parsePesHeader, if_pos ⟨hstart, hhead⟩, hstamp]
  split <;> rfl

/-- **The PTS of a header in milliseconds** is the stamp divided by 90, which is also what the clock reference of
    this stamp gives, exactly if the upper bit is not set or what is over the multiple of 90 makes up for the
    constant. -/
theorem parsePesHeader_pts_iff {pcrValue : BitVec 64} (hstart : HasStart m) (hhead : m 3 ∉ headless)
    (hstamped : Stamped m n.toNat) (hcarries : Carries m T) (hpcr : pcrValue.setWidth 33 = T) :
    (∃ pts, ((parsePesHeader mac n).result m).lastPts = some pts ∧ pts.toNat = T.toNat / 90 ∧
      pts = pcr1Khz pcrValue) ↔ T.toNat < 2 ^ 32 ∨ 14 ≤ (T.toNat - 2 ^ 32) % 90 := by
  rw [parsePesHeader_lastPts hstart hhead hstamped]
  have hpts := hcarries.ptsMs_toNat
  have hclock := pcr1Khz_eq hpcr
  have hT := T.isLt
  constructor
  · rintro ⟨pts, hsome, heq, -⟩
    rw [← Option.some.inj hsome, hpts] at heq
    split at heq <;> omega
  · intro hcond
    have heq : (ptsMs.result m).toNat = T.toNat / 90 := by
      rw [hpts]
      split <;> omega
    exact ⟨_, rfl, heq, BitVec.eq_of_toNat_eq (heq.trans hclock.symm)⟩

/-- A header of 9 + 5 bytes with these bytes for the PTS. -/
def stampedHeader (b9 b10 b11 b12 b13 : Byte) (i : Nat) : Byte :=
  [0, 0, 1, 0xe0, 0, 0, 0x80, 0x80, 5, b9, b10, b11, b12, b13].getD i 0

/-- A time stamp above 2^32 is converted right where the rounding constant does not matter. -/
theorem parsePesHeader_pts_upper : ∃ pts,
    ((parsePesHeader plain.toMacros 15).result (stampedHeader 0x29 0 1 0 0x1d)).lastPts = some pts ∧
      pts.toNat = (2 ^ 32 + 14) / 90 ∧ pts = pcr1Khz 0x10000000e := by
  refine (parsePesHeader_pts_iff (T := 0x10000000e) ?_ ?_ ?_ ?_ rfl).mpr (.inr ?_)
  · exact ⟨rfl, rfl, rfl⟩
  · decide
  · exact ⟨by decide, by decide⟩
  · exact ⟨rfl, rfl, rfl, rfl, rfl⟩
  · decide

/-- The stamp with only the upper bit. -/
theorem parsePesHeader_rounds_up : ¬ ∀ (mac : Macros) (m : Nat → Byte) (n : U32) (T : BitVec 33) (pcrValue : BitVec 64),
    HasStart m → m 3 ∉ headless → Stamped m n.toNat → Carries m T → pcrValue.setWidth 33 = T →
      ∃ pts, ((parsePesHeader mac n).result m).lastPts = some pts ∧ pts.toNat = T.toNat / 90 ∧
        pts = pcr1Khz pcrValue := by
  intro hall
  obtain ⟨pts, hsome, heq, -⟩ := hall plain.toMacros (stampedHeader 0x29 0 1 0 1) 15 0x100000000 0x100000000
    ⟨rfl, rfl, rfl⟩ (by decide) ⟨by decide, by decide⟩ ⟨rfl, rfl, rfl, rfl, rfl⟩ rfl
  have hpts : pts = 0x2D82D83 := (Option.some.inj hsome).symm
  rw [hpts] at heq
  exact absurd heq (by decide)

end HiSTB.Demux.Es
