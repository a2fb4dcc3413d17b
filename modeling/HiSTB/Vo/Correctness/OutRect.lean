import HiSTB.Vo.OutRect
import Mathlib.Tactic.Ring
import Mathlib.Tactic.Linarith
import Mathlib.Data.BitVec

/-!
# `Vo.Correctness.OutRect` — the conversion is that of the integers, within 32 bits

The two axes are converted in the same way. A value is multiplied by the length of the area and by 100 before it is
divided, so that large values leave the 32 bits.

* `toInt_winCaculate`, `toInt_winParamAlignUp_two` … — the words as integers, where they fit;
* `RightAxis`, `FitsAxis` — what is claimed of one axis, and what has to fit; `rightAxis_iff`;
* `inside_area` — what is inside the canvas comes to be inside the area, up to the alignment;
* `conversion_iff` — the rectangle.
-/

namespace HiSTB.Vo.OutRect

/-! ## Words as integers -/

/-- The value of a word. -/
def InS32 (x : Int) : Prop := -2 ^ 31 ≤ x ∧ x < 2 ^ 31

theorem inS32_toInt (x : S32) : InS32 x.toInt := by
  have hlow := BitVec.le_toInt x
  have hhigh := @BitVec.toInt_lt 32 x
  exact ⟨by simpa using hlow, by simpa using hhigh⟩

theorem bmod_of_inS32 {x : Int} (h : InS32 x) : x.bmod (2 ^ 32) = x := by
  obtain ⟨hlow, hhigh⟩ := h
  exact Int.bmod_eq_of_le (by norm_num; omega) (by norm_num; omega)

theorem natAbs_tdiv_le {x c : Int} : (x.tdiv c).natAbs ≤ x.natAbs := by
  rw [Int.natAbs_tdiv]
  exact Nat.div_le_self _ _

theorem toInt_sdiv_pos {x c : S32} (hc : 0 < c.toInt) : (x.sdiv c).toInt = x.toInt.tdiv c.toInt := by
  refine BitVec.toInt_sdiv_of_ne_or_ne x c (Or.inr ?_)
  rintro rfl
  exact absurd hc (by decide)

/-- `Win_Caculate` over the integers. -/
theorem toInt_winCaculate {z c v : S32} (hc : 0 < c.toInt) (h : InS32 (v.toInt * z.toInt * 100)) :
    (winCaculate z c v).toInt = (v.toInt * z.toInt * 100).tdiv c.toInt := by
  have hprod : (v * z * 100).toInt = v.toInt * z.toInt * 100 := by
    rw [BitVec.toInt_mul, BitVec.toInt_mul, show (100 : S32).toInt = 100 from rfl, Int.bmod_mul_bmod]
    exact bmod_of_inS32 h
  rw [winCaculate, toInt_sdiv_pos hc, hprod]

/-- `x` rounded up to a multiple of `a`. -/
def alignUp (a x : Int) : Int := (x + (a - 1)) / a * a

theorem toInt_winParamAlignUp_two {x : U32} (h : x.toInt ≤ 2 ^ 31 - 2) :
    (winParamAlignUp x 2).toInt = alignUp 2 x.toInt := by
  unfold winParamAlignUp alignUp
  rw [if_neg (by decide)]
  have hx := x.isLt
  have hone : (2 - 1 : U32) = 1 := rfl
  have hnat : ((x + (2 - 1)) / 2 * 2).toNat = (x.toNat + 1) % 2 ^ 32 / 2 * 2 := by
    rw [hone, BitVec.toNat_mul, BitVec.toNat_udiv, BitVec.toNat_add]
    show (x.toNat + 1) % 2 ^ 32 / 2 * 2 % 2 ^ 32 = _
    omega
  rw [BitVec.toInt_eq_toNat_cond] at h
  rw [BitVec.toInt_eq_toNat_cond, BitVec.toInt_eq_toNat_cond, hnat]
  split_ifs at h ⊢ <;> omega

theorem toInt_winParamAlignUp_four {x : U32} (hlow : 0 ≤ x.toInt) (h : x.toInt ≤ 2 ^ 31 - 4) :
    (winParamAlignUp x 4).toInt = alignUp 4 x.toInt := by
  unfold winParamAlignUp alignUp
  rw [if_neg (by decide)]
  have hx := x.isLt
  have hthree : (4 - 1 : U32) = 3 := rfl
  have hnat : ((x + (4 - 1)) / 4 * 4).toNat = (x.toNat + 3) % 2 ^ 32 / 4 * 4 := by
    rw [hthree, BitVec.toNat_mul, BitVec.toNat_udiv, BitVec.toNat_add]
    show (x.toNat + 3) % 2 ^ 32 / 4 * 4 % 2 ^ 32 = _
    omega
  rw [BitVec.toInt_eq_toNat_cond] at h hlow
  rw [BitVec.toInt_eq_toNat_cond, BitVec.toInt_eq_toNat_cond, hnat]
  split_ifs at h hlow ⊢ <;> omega

/-- `window_revise` of one size. -/
def revised (w : S32) : S32 := if w.slt minSize then minSize else w

theorem toInt_revised (w : S32) : (revised w).toInt = max 64 w.toInt := by
  unfold revised
  have hmin : minSize.toInt = 64 := rfl
  have hiff : w.slt minSize = true ↔ w.toInt < 64 := by
    rw [BitVec.slt_eq_decide, hmin, decide_eq_true_eq]
  split_ifs with hlt
  · have hless := hiff.mp hlt
    rw [hmin]
    omega
  · have hless := mt hiff.mpr hlt
    omega

/-! ## One axis -/

/-- A value scaled from the length `c` of the canvas to the length `z` of the area, and rounded as coded. -/
def scaled (v z c : Int) : Int := ((v * z * 100).tdiv c).tdiv 100

/-- The position behind the offset `lo`. -/
def place (v z c lo : Int) : Int := alignUp 2 (scaled v z c + lo)

/-- The size. -/
def size (len z c : Int) : Int := max 64 (alignUp 4 (if c ≠ max 64 len then scaled (max 64 len) z c else z))

/-- **What is claimed of one axis**: a position `v` and a size `len` become `v'` and `len'`. -/
structure RightAxis (v len z c lo v' len' : Int) : Prop where
  place_eq : v' = place v z c lo
  size_eq : len' = size len z c
  place_noOverflow : InS32 (v * z * 100)
  size_noOverflow : c ≠ max 64 len → InS32 (max 64 len * z * 100)
  inside : 0 ≤ v → v + len ≤ c → 64 ≤ scaled len z c → lo ≤ v' ∧ v' + len' ≤ lo + z + (2 - 1) + (4 - 1)

/-- What fits into 32 bits. -/
structure FitsAxis (v len z c lo : Int) : Prop where
  product : InS32 (v * z * 100)
  sum : scaled v z c + lo ≤ 2 ^ 31 - 2
  sizeProduct : c ≠ max 64 len → max 64 len * z * 100 < 2 ^ 31
  whole : c = max 64 len → z ≤ 2 ^ 31 - 4

theorem natAbs_scaled_le {v z c : Int} (h : InS32 (v * z * 100)) : (scaled v z c).natAbs ≤ 2 ^ 31 / 100 := by
  have hquot := @natAbs_tdiv_le (v * z * 100) c
  obtain ⟨hlow, hhigh⟩ := h
  rw [scaled, Int.natAbs_tdiv]
  exact Nat.div_le_div_right (by omega)

theorem scaled_eq {v z c : Int} (hv : 0 ≤ v) (hz : 0 ≤ z) (hc : 0 < c) : scaled v z c = v * z / c := by
  have hvz : 0 ≤ v * z := Int.mul_nonneg hv hz
  have hfirst : (v * z * 100).tdiv c = v * z * 100 / c := Int.tdiv_eq_ediv_of_nonneg (by omega)
  rw [scaled, hfirst, Int.tdiv_eq_ediv_of_nonneg (Int.ediv_nonneg (by omega) hc.le), Int.ediv_ediv_of_nonneg hc.le,
    Int.mul_ediv_mul_of_pos_left _ _ (by norm_num)]

/-- A rectangle inside the canvas stays in the area, up to the alignment. -/
theorem inside_area {v len z c lo : Int} (hc : 0 < c) (hz : 0 < z) (hv : 0 ≤ v) (hin : v + len ≤ c)
    (hscaled : 64 ≤ scaled len z c) (hlen : 64 ≤ len) :
    lo ≤ place v z c lo ∧ place v z c lo + size len z c ≤ lo + z + (2 - 1) + (4 - 1) := by
  have hmax : max 64 len = len := max_eq_right hlen
  have hup : ∀ a x : Int, 0 < a → x ≤ alignUp a x ∧ alignUp a x ≤ x + (a - 1) := by
    intro a x ha
    have hmod := Int.emod_nonneg (x + (a - 1)) (ne_of_gt ha)
    have hlt := Int.emod_lt_of_pos (x + (a - 1)) ha
    have hdiv := Int.ediv_mul_add_emod (x + (a - 1)) a
    unfold alignUp
    constructor <;> omega
  have hplace := hup 2 (scaled v z c + lo) (by norm_num)
  have hnonneg : 0 ≤ scaled v z c := by
    rw [scaled_eq hv hz.le hc]
    exact Int.ediv_nonneg (Int.mul_nonneg hv hz.le) hc.le
  unfold place size
  rw [hmax]
  by_cases heq : c = len
  · -- the whole canvas
    have hzero : v = 0 := by omega
    have hz0 : scaled v z c = 0 := by
      rw [hzero, scaled_eq (le_refl 0) hz.le hc, Int.zero_mul, Int.zero_ediv]
    have hwhole : scaled len z c = z := by
      rw [scaled_eq (by omega) hz.le hc, ← heq, Int.mul_ediv_cancel_left _ (ne_of_gt hc)]
    have hsize := hup 4 z (by norm_num)
    rw [if_neg (not_not_intro heq)]
    omega
  · have hsize := hup 4 (scaled len z c) (by norm_num)
    rw [if_pos heq]
    have hsum : scaled v z c + scaled len z c ≤ z := by
      rw [scaled_eq hv hz.le hc, scaled_eq (by omega) hz.le hc]
      have hle : v * z / c + len * z / c ≤ (v * z + len * z) / c := by
        rw [Int.le_ediv_iff_mul_le hc, Int.add_mul]
        have hone := Int.ediv_mul_le (v * z) (ne_of_gt hc)
        have htwo := Int.ediv_mul_le (len * z) (ne_of_gt hc)
        omega
      have hall : (v * z + len * z) / c ≤ c * z / c := by
        apply Int.ediv_le_ediv hc
        rw [← Int.add_mul]
        exact Int.mul_le_mul_of_nonneg_right hin hz.le
      rw [Int.mul_ediv_cancel_left _ (ne_of_gt hc)] at hall
      omega
    omega

/-- The position, where everything fits. -/
theorem toInt_place {v z c : S32} {lo : U32} (hc : 0 < c.toInt) (hlo : lo.toNat < 2 ^ 31)
    (h : InS32 (v.toInt * z.toInt * 100))
    (hsum : scaled v.toInt z.toInt c.toInt + lo.toNat ≤ 2 ^ 31 - 2) :
    (winParamAlignUp ((winCaculate z c v).sdiv 100 + lo) 2).toInt = place v.toInt z.toInt c.toInt lo.toNat := by
  have hbound := natAbs_scaled_le (c := c.toInt) h
  have hquot : ((winCaculate z c v).sdiv 100).toInt = scaled v.toInt z.toInt c.toInt := by
    rw [toInt_sdiv_pos (by decide), toInt_winCaculate hc h]
    rfl
  have hoff : lo.toInt = lo.toNat := BitVec.toInt_eq_toNat_of_lt (by omega)
  have hadd : ((winCaculate z c v).sdiv 100 + lo).toInt = scaled v.toInt z.toInt c.toInt + lo.toNat := by
    rw [BitVec.toInt_add, hquot, hoff]
    exact bmod_of_inS32 ⟨by omega, by omega⟩
  rw [toInt_winParamAlignUp_two (by rw [hadd]; exact hsum), hadd]
  rfl

/-- The size as coded. -/
def sizeWord (len : S32) (z : U32) (c : S32) : S32 :=
  revised (winParamAlignUp (if c ≠ revised len then (winCaculate z c (revised len)).sdiv 100 else z) 4)

/-- The position as coded. -/
def placeWord (v : S32) (z : U32) (c : S32) (lo : U32) : S32 := winParamAlignUp ((winCaculate z c v).sdiv 100 + lo) 2

/-- The size, where everything fits. -/
theorem toInt_sizeWord {len z c : S32} (hc : 0 < c.toInt) (hz : 0 < z.toInt)
    (hproduct : c.toInt ≠ max 64 len.toInt → max 64 len.toInt * z.toInt * 100 < 2 ^ 31)
    (hwhole : c.toInt = max 64 len.toInt → z.toInt ≤ 2 ^ 31 - 4) :
    (sizeWord len z c).toInt = size len.toInt z.toInt c.toInt := by
  have hrev := toInt_revised len
  have hne : c ≠ revised len ↔ c.toInt ≠ max 64 len.toInt := by
    rw [← hrev, Ne, Ne, BitVec.toInt_inj]
  unfold sizeWord size
  rw [toInt_revised]
  congr 1
  by_cases heq : c ≠ revised len
  · have hlt := hproduct (hne.mp heq)
    have hpos : 0 ≤ max 64 len.toInt * z.toInt := Int.mul_nonneg (by omega) hz.le
    have hin : InS32 (max 64 len.toInt * z.toInt * 100) := ⟨by omega, hlt⟩
    have hbound := natAbs_scaled_le (c := c.toInt) hin
    have hquot : ((winCaculate z c (revised len)).sdiv 100).toInt = scaled (max 64 len.toInt) z.toInt c.toInt := by
      rw [toInt_sdiv_pos (by decide), toInt_winCaculate hc (by rw [hrev]; exact hin), hrev]
      rfl
    have hnonneg : 0 ≤ scaled (max 64 len.toInt) z.toInt c.toInt := by
      rw [scaled_eq (by omega) hz.le hc]
      exact Int.ediv_nonneg hpos hc.le
    rw [if_pos heq, if_pos (hne.mp heq), toInt_winParamAlignUp_four (by omega) (by omega), hquot]
  · have hsame := not_not.mp (mt hne.mpr heq)
    rw [if_neg heq, if_neg (not_not_intro hsame), toInt_winParamAlignUp_four hz.le (hwhole hsame)]

/-- **One axis.** -/
theorem rightAxis_iff {v len z c : S32} {lo : U32} (hc : 0 < c.toInt) (hz : 0 < z.toInt) (hlo : lo.toNat < 2 ^ 31)
    (hlen : len.toInt = 0 ∨ 64 ≤ len.toInt) :
    RightAxis v.toInt len.toInt z.toInt c.toInt lo.toNat (placeWord v z c lo).toInt (sizeWord len z c).toInt ↔
      FitsAxis v.toInt len.toInt z.toInt c.toInt lo.toNat := by
  constructor
  · intro h
    have hplace := (inS32_toInt (placeWord v z c lo)).2
    have hsize := (inS32_toInt (sizeWord len z c)).2
    rw [h.place_eq, place, alignUp] at hplace
    rw [h.size_eq, size, alignUp] at hsize
    refine ⟨h.place_noOverflow, by omega, fun hne => (h.size_noOverflow hne).2, fun heq => ?_⟩
    rw [if_neg (not_not_intro heq)] at hsize
    omega
  · intro h
    have hplace : (placeWord v z c lo).toInt = _ := toInt_place hc hlo h.product h.sum
    have hsize := toInt_sizeWord hc hz h.sizeProduct h.whole
    refine ⟨hplace, hsize, h.product, fun hne => ⟨?_, h.sizeProduct hne⟩, fun hv hin hscaled => ?_⟩
    · have hpos : 0 ≤ max 64 len.toInt * z.toInt := Int.mul_nonneg (by omega) hz.le
      omega
    · rw [hplace, hsize]
      refine inside_area hc hz hv hin hscaled (hlen.resolve_left (fun hzero => ?_))
      rw [hzero, scaled_eq (le_refl 0) hz.le hc, Int.zero_mul, Int.zero_ediv] at hscaled
      omega

/-! ## The check -/

theorem mask_min {bits : Nat} (hbits : bits ≤ 6) {x : S32} (hx : 64 ≤ x.toInt) : 64 ≤ (x &&& mask bits).toInt := by
  have hlt := x.isLt
  have hnat : (x &&& mask bits).toNat = x.toNat / 2 ^ bits * 2 ^ bits := by
    rw [mask, ← BitVec.shiftLeft_ushiftRight, BitVec.toNat_shiftLeft, BitVec.toNat_ushiftRight, Nat.shiftLeft_eq,
      Nat.shiftRight_eq_div_pow]
    exact Nat.mod_eq_of_lt (lt_of_le_of_lt (Nat.div_mul_le_self _ _) hlt)
  have hdown := Nat.div_mul_le_self x.toNat (2 ^ bits)
  have hkeeps : 64 ≤ x.toNat → 64 ≤ x.toNat / 2 ^ bits * 2 ^ bits := by
    intro hge
    obtain ⟨k, hk⟩ : 2 ^ bits ∣ 64 := pow_dvd_pow 2 hbits
    rw [hk, Nat.mul_comm]
    exact Nat.mul_le_mul_right _ ((Nat.le_div_iff_mul_le (Nat.two_pow_pos bits)).mpr
      (by rw [Nat.mul_comm, ← hk]; exact hge))
  rw [BitVec.toInt_eq_toNat_cond] at hx ⊢
  rw [hnat]
  split_ifs at hx ⊢ <;> omega

/-- **What is accepted** is empty, or has sizes of at least 64. -/
theorem winCheckAttr_sizes {cfg : AttrConfig} {found : Bool} {a b : Attr} (h : winCheckAttr cfg found a = some b) :
    (b.stOutRect.s32Width.toInt = 0 ∨ 64 ≤ b.stOutRect.s32Width.toInt) ∧
      (b.stOutRect.s32Height.toInt = 0 ∨ 64 ≤ b.stOutRect.s32Height.toInt) := by
  unfold winCheckAttr at h
  split_ifs at h with hdisp hfound hrect hratio
  obtain ⟨r, -, rfl⟩ := Option.map_eq_some_iff.mp h
  have hmin : ∀ x : S32, ¬ x.slt minSize = true → 64 ≤ x.toInt := by
    intro x hx
    rw [BitVec.slt_eq_decide, decide_eq_true_eq] at hx
    exact Int.not_lt.mp hx
  by_cases hzero : a.stOutRect.s32Height = 0 ∧ a.stOutRect.s32Width = 0
  · dsimp only
    rw [hzero.1, hzero.2]
    simp
  · unfold outRectOk at hrect
    split_ifs at hrect with hone hpos hsmall
    have hsome : a.stOutRect.s32Height ||| a.stOutRect.s32Width ≠ 0 := fun h => hzero (BitVec.or_eq_zero_iff.mp h)
    obtain ⟨hwidth, hheight⟩ := not_or.mp (not_and.mp hsmall hsome)
    exact ⟨Or.inr (mask_min cfg.outWidth_le (hmin _ hwidth)), Or.inr (mask_min cfg.outHeight_le (hmin _ hheight))⟩

/-! ## The rectangle -/

/-- What is between the offsets. -/
def area (length : S32) (lo hi : U32) : Int := length.toInt - lo.toNat - hi.toNat

theorem toInt_area {length : S32} {lo hi : U32} (h : (lo.toNat + hi.toNat : Int) < length.toInt) :
    (length - lo - hi).toInt = area length lo hi := by
  have hlength := length.isLt
  rw [BitVec.toInt_eq_toNat_cond] at h
  unfold area
  rw [BitVec.toInt_eq_toNat_cond, BitVec.toInt_eq_toNat_cond, BitVec.toNat_sub, BitVec.toNat_sub]
  split_ifs at h ⊢ <;> omega

/-- **What is claimed of the conversion** of `r` to `r'`. -/
structure Right (canvas : Rect) (offset : Offset) (fmt r r' : Rect) : Prop where
  horizontal : RightAxis r.s32X.toInt r.s32Width.toInt (area fmt.s32Width offset.u32Left offset.u32Right)
    canvas.s32Width.toInt offset.u32Left.toNat r'.s32X.toInt r'.s32Width.toInt
  vertical : RightAxis r.s32Y.toInt r.s32Height.toInt (area fmt.s32Height offset.u32Top offset.u32Bottom)
    canvas.s32Height.toInt offset.u32Top.toNat r'.s32Y.toInt r'.s32Height.toInt

/-- What fits into 32 bits. -/
structure Fits (canvas : Rect) (offset : Offset) (fmt r : Rect) : Prop where
  horizontal : FitsAxis r.s32X.toInt r.s32Width.toInt (area fmt.s32Width offset.u32Left offset.u32Right)
    canvas.s32Width.toInt offset.u32Left.toNat
  vertical : FitsAxis r.s32Y.toInt r.s32Height.toInt (area fmt.s32Height offset.u32Top offset.u32Bottom)
    canvas.s32Height.toInt offset.u32Top.toNat

/-- **The exact condition.** Of a rectangle that was accepted, on a canvas and a screen that are not empty. -/
theorem conversion_iff {cfg : AttrConfig} {found : Bool} {a b : Attr} {canvas fmt : Rect} {offset : Offset}
    (hacc : winCheckAttr cfg found a = some b) (hwidth : 0 < canvas.s32Width.toInt)
    (hheight : 0 < canvas.s32Height.toInt)
    (hx : (offset.u32Left.toNat + offset.u32Right.toNat : Int) < fmt.s32Width.toInt)
    (hy : (offset.u32Top.toNat + offset.u32Bottom.toNat : Int) < fmt.s32Height.toInt) :
    Right canvas offset fmt b.stOutRect (winOutRectSizeConversion canvas offset fmt b.stOutRect) ↔
      Fits canvas offset fmt b.stOutRect := by
  obtain ⟨hw, hh⟩ := winCheckAttr_sizes hacc
  have hareaX := toInt_area hx
  have hareaY := toInt_area hy
  have hfmtX := (inS32_toInt fmt.s32Width).2
  have hfmtY := (inS32_toInt fmt.s32Height).2
  have hhor := @rightAxis_iff b.stOutRect.s32X b.stOutRect.s32Width (fmt.s32Width - offset.u32Left - offset.u32Right)
    canvas.s32Width offset.u32Left hwidth (by rw [hareaX, area]; omega) (by omega) hw
  have hver := @rightAxis_iff b.stOutRect.s32Y b.stOutRect.s32Height (fmt.s32Height - offset.u32Top - offset.u32Bottom)
    canvas.s32Height offset.u32Top hheight (by rw [hareaY, area]; omega) (by omega) hh
  rw [hareaX] at hhor
  rw [hareaY] at hver
  exact ⟨fun h => ⟨hhor.mp h.horizontal, hver.mp h.vertical⟩, fun h => ⟨hhor.mpr h.horizontal, hver.mpr h.vertical⟩⟩

/-- Positions are even, sizes are multiples of 4. -/
def evenCfg : AttrConfig := ⟨1, 1, 1, 2, 2, 1, 1, 2, 2, by decide, by decide⟩

/-- A window with this rectangle. -/
def window (x y width height : S32) : Attr := ⟨0, 1, 1, false, ⟨0, 0, 0, 0⟩, ⟨0, 0, 0, 0⟩, ⟨x, y, width, height⟩⟩

/-- A canvas of 1920 by 1080. -/
def fullHd : Rect := ⟨0, 0, 1920, 1080⟩

/-- A screen of 3840 by 2160. -/
def ultraHd : Rect := ⟨0, 0, 3840, 2160⟩

/-- A quarter of the canvas becomes a quarter of the screen. -/
theorem conversion_iff_quarter :
    Right fullHd ⟨0, 0, 0, 0⟩ ultraHd ⟨960, 540, 960, 540⟩ ⟨1920, 1080, 1920, 1080⟩ := by
  have hacc : winCheckAttr evenCfg true (window 960 540 960 540) = some (window 960 540 960 540) := rfl
  exact (@conversion_iff _ _ _ _ fullHd ultraHd ⟨0, 0, 0, 0⟩ hacc (by decide) (by decide) (by decide) (by decide)).mpr
    ⟨⟨⟨by decide, by decide⟩, by decide, fun _ => by decide, fun h => absurd h (by decide)⟩,
      ⟨⟨by decide, by decide⟩, by decide, fun _ => by decide, fun h => absurd h (by decide)⟩⟩

/-- A window over three screens. -/
theorem three_screens_wrap :
    winCheckAttr evenCfg true (window 0 0 5760 1080) = some (window 0 0 5760 1080) ∧
      winOutRectSizeConversion fullHd ⟨0, 0, 0, 0⟩ ultraHd (window 0 0 5760 1080).stOutRect = ⟨0, 0, 64, 2160⟩ ∧
      ¬ Right fullHd ⟨0, 0, 0, 0⟩ ultraHd (window 0 0 5760 1080).stOutRect
        (winOutRectSizeConversion fullHd ⟨0, 0, 0, 0⟩ ultraHd (window 0 0 5760 1080).stOutRect) := by
  refine ⟨rfl, by decide, fun h => ?_⟩
  exact absurd (h.horizontal.size_noOverflow (by decide)).2 (by decide)

end HiSTB.Vo.OutRect
