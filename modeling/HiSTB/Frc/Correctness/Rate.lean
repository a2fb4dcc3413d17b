import HiSTB.Frc.Instance
import HiSTB.Lib.Marks

/-!
# `Frc.Correctness.Rate` — no frame is lost or added

The frames to insert, or to drop, are at the marks of a cycle of `InRate` frames, and `CurID` is the number of the next
mark. Each comparison with the counter of the cycle meets its mark, so that after `n` frames exactly `marked` of them
were hit.

* `turn_mark` — a turn; `Sched` — where a converter is after `n` frames; `calculate_sched` — one frame more;
* `fresh`, `other_call`, `own_call` — what the calls do with the table;
* `run_spread` — what a converter has played is less than one frame away from the exact share.
-/

namespace HiSTB.Frc

open Lib Lib.Marks

variable {s id : Nat} {c : Call}

/-! ## The marks -/

variable {f : FrcS} {i o r : U32} {n : Nat}

/-- The comparison in 64 bits is the one with the next mark. -/
theorem isTurn_iff (hi : i ≠ 0) :
    f.isTurn i r = true ↔ mark i.toNat r.toNat f.curID.toNat = f.inputCount.toNat % i.toNat + 1 := by
  have hipos : 0 < i.toNat := Nat.pos_iff_ne_zero.mpr (fun h => hi (BitVec.eq_of_toNat_eq h))
  have hmod := Nat.mod_lt f.inputCount.toNat hipos
  have hilt := i.isLt
  have hrlt := r.isLt
  have htwo : (2 : BitVec 32).toNat = 2 := rfl
  have hone : (1 : BitVec 32).toNat = 1 := rfl
  have hmul : i.toNat * f.curID.toNat ≤ (2 ^ 32 - 1) * (2 ^ 32 - 1) :=
    Nat.mul_le_mul (by omega) (by have := f.curID.isLt; omega)
  have hwide : ∀ x : BitVec 32, x.toNat % 2 ^ 64 = x.toNat := fun x => Nat.mod_eq_of_lt (by have := x.isLt; omega)
  unfold FrcS.isTurn mark
  simp only [decide_eq_true_eq, ← BitVec.toNat_inj, BitVec.toNat_udiv, BitVec.toNat_add, BitVec.toNat_mul,
    BitVec.toNat_setWidth, BitVec.toNat_umod, hwide, htwo, hone]
  rw [Nat.mod_eq_of_lt (show i.toNat * f.curID.toNat < 2 ^ 64 by omega),
    Nat.mod_eq_of_lt (show r.toNat / 2 < 2 ^ 64 by omega),
    Nat.mod_eq_of_lt (show i.toNat * f.curID.toNat + r.toNat / 2 < 2 ^ 64 by omega),
    Nat.mod_eq_of_lt (show f.inputCount.toNat % i.toNat + 1 < 2 ^ 32 by omega),
    Nat.mod_eq_of_lt (show f.inputCount.toNat % i.toNat + 1 < 2 ^ 64 by omega)]

theorem nextID_toNat {k : Nat} {c : U32} (hr : 0 < r.toNat) (hlt : r.toNat + 1 < 2 ^ 32)
    (hc : c.toNat = k % r.toNat + 1) :
    (nextID c r).toNat = (k + 1) % r.toNat + 1 := by
  have hk := Nat.mod_lt k hr
  have hsucc : (k + 1) % r.toNat = (k % r.toNat + 1) % r.toNat := (Nat.mod_add_mod k r.toNat 1).symm
  rw [hsucc]
  generalize k % r.toNat = j at hc hk
  have hnext : (c + 1).toNat = j + 2 := by
    rw [BitVec.toNat_add, hc]
    exact Nat.mod_eq_of_lt (by show j + 1 + 1 < 2 ^ 32; omega)
  have hzero : (c + 1) % r = 0 ↔ (j + 2) % r.toNat = 0 := by
    rw [← BitVec.toNat_inj, BitVec.toNat_umod, hnext]
    rfl
  unfold nextID
  rcases Nat.lt_trichotomy (j + 2) r.toNat with hin | heq | hgt
  · -- in the middle of the cycle
    have hkeep := Nat.mod_eq_of_lt hin
    rw [if_neg (fun h => by rw [hzero] at h; omega), BitVec.toNat_umod, hnext, hkeep, Nat.mod_eq_of_lt (by omega)]
  · rw [if_pos (hzero.mpr (by rw [heq, Nat.mod_self])), Nat.mod_eq_of_lt (by omega)]
    omega
  · -- over its end
    have hend : j + 1 = r.toNat := by omega
    have htwo : j + 2 = 1 + r.toNat := by omega
    rw [hend, Nat.mod_self]
    rw [htwo, Nat.add_mod_right] at hzero
    by_cases hone : r.toNat = 1
    · rw [if_pos (hzero.mpr (by rw [hone]))]
      omega
    · have hmod : 1 % r.toNat = 1 := Nat.mod_eq_of_lt (by omega)
      rw [if_neg (fun h => by rw [hzero] at h; omega), BitVec.toNat_umod, hnext, htwo, Nat.add_mod_right, hmod]

theorem turn_flag (h : (f.turn i r).1 = true) : r ≠ 0 := by
  rintro rfl
  cases h

/-- **A turn.** The flag says whether the frame has a mark, and `CurID` stays the number of the next one. -/
theorem turn_mark (hi : i ≠ 0) (hle : r.toNat < i.toNat) (hcount : f.inputCount.toNat % i.toNat = n % i.toNat)
    (hcur : r ≠ 0 → f.curID.toNat = marked i.toNat r.toNat n % r.toNat + 1) :
    marked i.toNat r.toNat (n + 1) = marked i.toNat r.toNat n + (if (f.turn i r).1 then 1 else 0) ∧
    (r ≠ 0 → (f.turn i r).2.curID.toNat = marked i.toNat r.toNat (n + 1) % r.toNat + 1) ∧
    (f.turn i r).2.inputCount = f.inputCount := by
  unfold FrcS.turn
  by_cases hr : r = 0
  · subst hr
    simp [marked]
  · have hrpos : 0 < r.toNat := Nat.pos_iff_ne_zero.mpr (fun h => hr (BitVec.eq_of_toNat_eq h))
    have hilt := i.isLt
    have hturn := @isTurn_iff f i r hi
    rw [hcur hr, hcount, mark_in_cycle hrpos (by omega)] at hturn
    have hsucc := @marked_succ i.toNat r.toNat n hrpos (by omega)
    rw [if_neg hr]
    by_cases hflag : f.isTurn i r = true
    · rw [if_pos (hturn.mp hflag)] at hsucc
      rw [if_pos hflag]
      refine ⟨hsucc, fun _ => ?_, rfl⟩
      rw [hsucc]
      exact nextID_toNat hrpos (by omega) (hcur hr)
    · rw [if_neg (fun hm => hflag (hturn.mpr hm))] at hsucc
      rw [if_neg hflag]
      refine ⟨hsucc, fun _ => ?_, rfl⟩
      rw [hsucc]
      exact hcur hr

/-! ## A converter -/

/-- The frames that are inserted or dropped in a cycle, as the code has them. -/
def remder (i o : U32) : U32 := if i < o then o % i else i - o

theorem remder_lt (hi : i ≠ 0) (ho : o ≠ 0) : (remder i o).toNat < i.toNat := by
  have hipos : 0 < i.toNat := Nat.pos_iff_ne_zero.mpr (fun h => hi (BitVec.eq_of_toNat_eq h))
  have hopos : 0 < o.toNat := Nat.pos_iff_ne_zero.mpr (fun h => ho (BitVec.eq_of_toNat_eq h))
  unfold remder
  split_ifs with hlt
  · rw [BitVec.toNat_umod]
    exact Nat.mod_lt _ hipos
  · rw [BitVec.toNat_sub_of_le (BitVec.not_lt.mp hlt)]
    omega

/-- **Where a converter is after `n` frames** that were played `s` times. -/
structure Sched (i o : U32) (f : FrcS) (n s : Nat) : Prop where
  count : f.inputCount.toNat = n
  cur : remder i o ≠ 0 → f.curID.toNat = marked i.toNat (remder i o).toNat n % (remder i o).toNat + 1
  sum : if i < o then s = n * (o.toNat / i.toNat) + marked i.toNat (remder i o).toNat n
    else s + marked i.toNat (remder i o).toNat n = n

theorem sched_start (hi : i ≠ 0) (ho : o ≠ 0) (hcur : f.curID = 1) (hcount : f.inputCount = 0) : Sched i o f 0 0 := by
  have hlt := remder_lt hi ho
  have hzero : marked i.toNat (remder i o).toNat 0 = 0 := by
    by_cases hr : (remder i o).toNat = 0
    · simp [hr, marked]
    · exact marked_zero (Nat.pos_iff_ne_zero.mpr hr) (by omega)
  refine ⟨?_, fun _ => ?_, ?_⟩
  · rw [hcount]
    rfl
  · rw [hzero, Nat.zero_mod, hcur]
    rfl
  · rw [hzero]
    simp

theorem turn_zero : f.turn i 0 = (false, f) := rfl

theorem turn_inputCount : (f.turn i r).2.inputCount = f.inputCount := by
  unfold FrcS.turn
  split_ifs <;> rfl

/-- The frame is inserted, or dropped. -/
def FrcS.hit (f : FrcS) (i o : U32) : Bool := (f.turn i (remder i o)).1

theorem hit_ne (h : f.hit i o = true) : remder i o ≠ 0 := turn_flag h

theorem remder_self {f : FrcS} (heq : i.toNat = o.toNat) : remder i o = 0 ∧ f.hit i o = false := by
  have hnot : ¬ i < o := fun h => absurd h (by rw [BitVec.lt_def]; omega)
  have hr : remder i o = 0 := by
    rw [remder, if_neg hnot, BitVec.eq_of_toNat_eq heq, BitVec.sub_self]
    rfl
  refine ⟨hr, ?_⟩
  rw [FrcS.hit, hr, turn_zero]

/-- **The converter behind a frame.** -/
theorem calculate_fst (f : FrcS) (i o : U32) :
    (f.calculate i o).1 = { (f.turn i (remder i o)).2 with inputCount := f.inputCount + 1 } := by
  unfold FrcS.calculate
  rcases Nat.lt_trichotomy i.toNat o.toNat with hio | hio | hio
  · have hless : i < o := hio
    simp only [if_pos hless, remder, turn_inputCount]
  · have hnot : ¬ i < o := fun h => absurd h (by rw [BitVec.lt_def]; omega)
    have hnot' : ¬ i > o := fun h => absurd h (by rw [gt_iff_lt, BitVec.lt_def]; omega)
    simp only [if_neg hnot, if_neg hnot', (remder_self (f := f) hio).1, turn_zero]
  · have hnot : ¬ i < o := fun h => absurd h (by rw [BitVec.lt_def]; omega)
    have hgreater : i > o := hio
    simp only [if_neg hnot, if_pos hgreater, remder, turn_inputCount]

/-- **How often a frame is played**: as often as the quotient says, or once more; or once, or never. -/
theorem calculate_val (hi : i ≠ 0) (ho : o ≠ 0) :
    if i < o then (f.calculate i o).2.toNat = o.toNat / i.toNat + (f.hit i o).toNat
    else (f.calculate i o).2.toNat + (f.hit i o).toNat = 1 := by
  have hlt := remder_lt hi ho
  have hone : (1 : BitVec 32).toNat = 1 := rfl
  unfold FrcS.calculate
  rcases Nat.lt_trichotomy i.toNat o.toNat with hio | hio | hio
  · have hless : i < o := hio
    have hr : remder i o = o % i := if_pos hless
    have hquot : (o / i).toNat = o.toNat / i.toNat := BitVec.toNat_udiv
    simp only [if_pos hless, FrcS.hit, hr]
    -- a frame is inserted only where the rates do not divide, so that the quotient has room
    by_cases hflag : (f.turn i (o % i)).1 = true
    · have htwo : 2 ≤ i.toNat := by
        have hne : (o % i).toNat ≠ 0 := fun hz => turn_flag hflag (BitVec.eq_of_toNat_eq hz)
        rw [hr] at hlt
        omega
      have hhalf : o.toNat / i.toNat ≤ o.toNat / 2 := Nat.div_le_div_left htwo (by omega)
      have holt := o.isLt
      rw [if_pos hflag, hflag, BitVec.toNat_add, hquot, hone]
      exact Nat.mod_eq_of_lt (by omega)
    · rw [if_neg hflag, BitVec.sub_add_cancel, hquot, eq_false_of_ne_true hflag]
      rfl
  · have hnot : ¬ i < o := fun h => absurd h (by rw [BitVec.lt_def]; omega)
    have hnot' : ¬ i > o := fun h => absurd h (by rw [gt_iff_lt, BitVec.lt_def]; omega)
    simp only [if_neg hnot, if_neg hnot', (remder_self (f := f) hio).2]
    rfl
  · have hnot : ¬ i < o := fun h => absurd h (by rw [BitVec.lt_def]; omega)
    have hgreater : i > o := hio
    have hr : remder i o = i - o := if_neg hnot
    simp only [if_neg hnot, if_pos hgreater, FrcS.hit, hr]
    cases (f.turn i (i - o)).1 <;> rfl

/-- **One frame more.** It is played as often as the quotient says, or once more. -/
theorem calculate_sched (hi : i ≠ 0) (ho : o ≠ 0) (h : Sched i o f n s) (hn : n + 1 < 2 ^ 32) :
    Sched i o (f.calculate i o).1 (n + 1) (s + (f.calculate i o).2.toNat) ∧
    ((f.calculate i o).2.toNat = o.toNat / i.toNat ∨ (f.calculate i o).2.toNat = o.toNat / i.toNat + 1) := by
  have hlt := remder_lt hi ho
  have hipos : 0 < i.toNat := by omega
  obtain ⟨hsucc, hcur, -⟩ := turn_mark hi hlt (by rw [h.count]) h.cur
  have hsum := h.sum
  have hval := calculate_val (f := f) hi ho
  have hhit : (f.hit i o).toNat = if (f.turn i (remder i o)).1 = true then 1 else 0 := by
    unfold FrcS.hit
    cases (f.turn i (remder i o)).1 <;> rfl
  rw [← hhit] at hsucc
  refine ⟨⟨?_, ?_, ?_⟩, ?_⟩
  · rw [calculate_fst]
    show (f.inputCount + 1).toNat = n + 1
    rw [BitVec.toNat_add, h.count]
    exact Nat.mod_eq_of_lt hn
  · rw [calculate_fst]
    exact hcur
  · split_ifs at hsum hval ⊢
    · rw [hsucc, Nat.succ_mul, hval]
      omega
    · omega
  · have hle := Bool.toNat_le (f.hit i o)
    split_ifs at hval with hio
    · omega
    · -- not more frames than come in: the quotient is 0, or 1 where no frame is dropped
      rw [BitVec.lt_def, Nat.not_lt] at hio
      rcases Nat.lt_or_eq_of_le hio with hless | heq
      · rw [Nat.div_eq_of_lt hless]
        omega
      · rw [(remder_self heq.symm).2] at hval
        rw [heq, Nat.div_self hipos]
        exact Or.inl hval

theorem calculate_hFrc (f : FrcS) (i o : U32) : (f.calculate i o).1.hFrc = f.hFrc := by
  have hturn : ∀ r, (f.turn i r).2.hFrc = f.hFrc := by
    intro r
    unfold FrcS.turn
    split_ifs <;> rfl
  unfold FrcS.calculate
  split_ifs
  · exact hturn _
  · exact hturn _
  · rfl

/-! ## The calls -/

/-- How often the frames were played that went to a converter. -/
def played (h : U32) (es : List Event) : List U32 :=
  es.filterMap (fun e =>
    match e with
    | .played h' v => if h' = h then some v else none
    | _ => none)

/-- How many frames went to it. -/
def frames (h : U32) (is : List Call) : Nat :=
  is.countP (fun c =>
    match c with
    | .calculate h' _ _ => h' = h
    | _ => false)

/-- The calls with a handle are those that convert from one rate to another; the others are anything. -/
def Only (h i o : U32) (_ : Table) : Call → Prop
  | .create _ => True
  | .destroy h' | .reset h' => h' ≠ h
  | .calculate h' i' o' => h' = h → i' = i ∧ o' = o

/-- What the converter of a handle has to have played: less than one frame away from the exact share, and nothing away
    after whole cycles. -/
structure Spread (i o : U32) (vs : List U32) : Prop where
  near : |(((vs.map BitVec.toNat).sum : ℕ) : ℚ) - vs.length * o.toNat / i.toNat| < 1
  exact : i.toNat ∣ vs.length → (((vs.map BitVec.toNat).sum : ℕ) : ℚ) = vs.length * o.toNat / i.toNat
  each : ∀ v ∈ vs, v.toNat = o.toNat / i.toNat ∨ v.toNat = o.toNat / i.toNat + 1

theorem marked_share (hlt : (remder i o).toNat < i.toNat) :
    |(marked i.toNat (remder i o).toNat n : ℚ) - n * (remder i o).toNat / i.toNat| < 1 ∧
    (i.toNat ∣ n → (marked i.toNat (remder i o).toNat n : ℚ) * i.toNat = n * (remder i o).toNat) := by
  by_cases hr : (remder i o).toNat = 0
  · rw [hr]
    simp [marked]
  · have hpos := Nat.pos_iff_ne_zero.mpr hr
    refine ⟨marked_near hpos (by omega), fun hdvd => ?_⟩
    exact_mod_cast marked_cycles hpos (by omega) hdvd

/-- The share of the marks, as one of the frames. -/
theorem Sched.share (h : Sched i o f n s) (hi : i ≠ 0) (ho : o ≠ 0) :
    |(s : ℚ) - n * o.toNat / i.toNat| < 1 ∧ (i.toNat ∣ n → (s : ℚ) = n * o.toNat / i.toNat) := by
  have hlt := remder_lt hi ho
  have hipos : (0 : ℚ) < i.toNat := by exact_mod_cast Nat.lt_of_le_of_lt (Nat.zero_le _) hlt
  obtain ⟨hnear, hexact⟩ := @marked_share i o n hlt
  have hsum := h.sum
  -- the difference to the exact share is that of the marks, or its negative
  have hdiff : (s : ℚ) - n * o.toNat / i.toNat =
        marked i.toNat (remder i o).toNat n - n * (remder i o).toNat / i.toNat ∨
      (s : ℚ) - n * o.toNat / i.toNat = -(marked i.toNat (remder i o).toNat n - n * (remder i o).toNat / i.toNat) := by
    split_ifs at hsum with hio
    · left
      have hr : (remder i o).toNat = o.toNat % i.toNat := by
        rw [remder, if_pos hio, BitVec.toNat_umod]
      have hdiv : (o.toNat : ℚ) = i.toNat * (o.toNat / i.toNat : ℕ) + (o.toNat % i.toNat : ℕ) := by
        exact_mod_cast (Nat.div_add_mod o.toNat i.toNat).symm
      rw [hr] at hsum ⊢
      rw [hsum, hdiv]
      push_cast
      field_simp
      ring
    · right
      have hle := BitVec.not_lt.mp hio
      have hr : (remder i o).toNat = i.toNat - o.toNat := by
        rw [remder, if_neg hio, BitVec.toNat_sub_of_le hle]
      rw [BitVec.le_def] at hle
      have hsum' : (s : ℚ) = n - marked i.toNat (remder i o).toNat n := by
        rw [eq_sub_iff_add_eq]
        exact_mod_cast hsum
      have hr' : ((remder i o).toNat : ℚ) = i.toNat - o.toNat := by
        rw [hr]
        push_cast [hle]
        ring
      rw [hsum', hr']
      field_simp
      ring
  refine ⟨?_, fun hdvd => ?_⟩
  · rcases hdiff with hd | hd
    · rw [hd]
      exact hnear
    · rw [hd, abs_neg]
      exact hnear
  · have hzero : (marked i.toNat (remder i o).toNat n : ℚ) - n * (remder i o).toNat / i.toNat = 0 := by
      rw [sub_eq_zero, eq_div_iff (ne_of_gt hipos)]
      exact hexact hdvd
    rw [hzero, neg_zero, or_self] at hdiff
    exact sub_eq_zero.mp hdiff

/-- The handle has its converter. -/
structure Has (t : Table) (h : U32) (f : FrcS) : Prop where
  id_lt : (getFrcId h).toNat < frcMaxNum
  slot : t (getFrcId h).toNat = some f
  handle : f.hFrc = h

variable {t t' : Table} {h : U32} {fs : List Event}

theorem Has.check (hh : Has t h f) : instLockCheck t h = some (some f) := by
  have hlt := hh.id_lt
  unfold instLockCheck
  rw [if_neg (by omega), if_neg (by omega), hh.slot]
  simp [hh.handle]

/-- A call finds the converter of its handle, or it fails. -/
theorem withInst_cases {body : FrcS → Table × List Event} (hn : withInst t h body = some (t', fs)) :
    (∃ f, Has t h f ∧ body f = (t', fs)) ∨ t' = t ∧ fs = [.failed] := by
  unfold withInst instLockCheck at hn
  dsimp only at hn
  split_ifs at hn with hgt heq
  · cases hn
    exact Or.inr ⟨rfl, rfl⟩
  · cases hn
  · cases hslot : t (getFrcId h).toNat with
    | none =>
      rw [hslot] at hn
      cases hn
      exact Or.inr ⟨rfl, rfl⟩
    | some g =>
      simp only [hslot] at hn
      split_ifs at hn with hne
      · cases hn
        exact Or.inr ⟨rfl, rfl⟩
      · exact Or.inl ⟨g, ⟨by omega, hslot, (not_not.mp hne).symm⟩, Option.some.inj hn⟩

theorem getFrcId_handle (hid : id < frcMaxNum) : (getFrcId (getFrcHandle (BitVec.ofNat 32 id))).toNat = id := by
  have hall : ∀ id < frcMaxNum, (getFrcId (getFrcHandle (BitVec.ofNat 32 id))).toNat = id := by decide
  exact hall id hid

/-- `FrcCreate` takes a free slot, or it fails. -/
theorem create_cases {phFrc : Bool} (hn : create t phFrc = (t', fs)) :
    (∃ id, id < frcMaxNum ∧ t id = none ∧ t' = Function.update t id (some ⟨getFrcHandle (BitVec.ofNat 32 id), 1, 0⟩) ∧
      fs = [.created (getFrcHandle (BitVec.ofNat 32 id))]) ∨ t' = t ∧ fs = [.failed] := by
  unfold create at hn
  split_ifs at hn
  · cases hfind : (List.range frcMaxNum).find? (fun id => (t id).isNone) with
    | none =>
      simp only [hfind] at hn
      obtain ⟨rfl, rfl⟩ := Prod.mk.inj hn
      exact Or.inr ⟨rfl, rfl⟩
    | some id =>
      simp only [hfind] at hn
      obtain ⟨rfl, rfl⟩ := Prod.mk.inj hn
      have hmem := List.mem_range.mp (List.mem_of_find?_eq_some hfind)
      have hfree := List.find?_some hfind
      exact Or.inl ⟨id, hmem, Option.isNone_iff_eq_none.mp hfree, rfl, rfl⟩
  · obtain ⟨rfl, rfl⟩ := Prod.mk.inj hn
    exact Or.inr ⟨rfl, rfl⟩

/-- A converter that was just created or reset. -/
theorem fresh {s : Table} (hn : step s c = some (t, fs)) (hfs : .created h ∈ fs ∨ .reset h ∈ fs) :
    ∃ f, Has t h f ∧ f.curID = 1 ∧ f.inputCount = 0 := by
  -- a call that shows something else has not made one
  have hnone : ∀ {e : Event}, fs = [e] → (∀ h', e ≠ .created h') → (∀ h', e ≠ .reset h') → False := by
    rintro e rfl hcreated hreset
    rcases hfs with hmem | hmem
    · exact hcreated h (List.mem_singleton.mp hmem).symm
    · exact hreset h (List.mem_singleton.mp hmem).symm
  have hfailed : fs = [.failed] → False := fun hf => hnone hf (fun _ => Event.noConfusion) (fun _ => Event.noConfusion)
  cases c with
  | create phFrc =>
    rcases create_cases (Option.some.inj hn) with ⟨id, hid, -, rfl, rfl⟩ | ⟨-, hf⟩
    · have hh : h = getFrcHandle (BitVec.ofNat 32 id) := by simpa using hfs
      have hslot := getFrcId_handle hid
      subst hh
      refine ⟨⟨getFrcHandle (BitVec.ofNat 32 id), 1, 0⟩, ⟨by rw [hslot]; exact hid, ?_, rfl⟩, rfl, rfl⟩
      rw [hslot, Function.update_self]
    · exact (hfailed hf).elim
  | destroy h' =>
    rcases withInst_cases hn with ⟨g, -, hbody⟩ | ⟨-, hf⟩
    · obtain ⟨-, hf⟩ := Prod.mk.inj hbody
      exact (hnone hf.symm (fun _ => Event.noConfusion) (fun _ => Event.noConfusion)).elim
    · exact (hfailed hf).elim
  | reset h' =>
    rcases withInst_cases hn with ⟨g, hg, hbody⟩ | ⟨-, hf⟩
    · obtain ⟨rfl, rfl⟩ := Prod.mk.inj hbody
      have hh : h = h' := by simpa using hfs
      subst hh
      exact ⟨⟨g.hFrc, 1, 0⟩, ⟨hg.id_lt, Function.update_self _ _ _, hg.handle⟩, rfl, rfl⟩
    · exact (hfailed hf).elim
  | calculate h' i' o' =>
    simp only [step] at hn
    split_ifs at hn
    · obtain ⟨-, hf⟩ := Prod.mk.inj (Option.some.inj hn)
      exact (hfailed hf.symm).elim
    · rcases withInst_cases hn with ⟨g, -, hbody⟩ | ⟨-, hf⟩
      · obtain ⟨-, hf⟩ := Prod.mk.inj hbody
        exact (hnone hf.symm (fun _ => Event.noConfusion) (fun _ => Event.noConfusion)).elim
      · exact (hfailed hf).elim

/-- Two handles with converters have two slots. -/
theorem Has.id_ne {h' : U32} {g : FrcS} (hh : Has t h f) (hg : Has t h' g) (hne : h' ≠ h) :
    (getFrcId h).toNat ≠ (getFrcId h').toNat := by
  intro heq
  have hslot := hh.slot
  rw [heq, hg.slot] at hslot
  obtain rfl := Option.some.inj hslot
  exact hne (hg.handle.symm.trans hh.handle)

theorem Has.update {x : Option FrcS} (hh : Has t h f) (hne : (getFrcId h).toNat ≠ id) :
    Has (Function.update t id x) h f := by
  refine ⟨hh.id_lt, ?_, hh.handle⟩
  rw [Function.update_of_ne hne]
  exact hh.slot

/-- A call with another handle. -/
theorem other_call (hh : Has t h f) (hc : Only h i o t c) (hcount : frames h [c] = 0)
    (hn : step t c = some (t', fs)) : Has t' h f ∧ played h fs = [] := by
  cases c with
  | create phFrc =>
    rcases create_cases (Option.some.inj hn) with ⟨id, -, hfree, rfl, rfl⟩ | ⟨rfl, rfl⟩
    · refine ⟨hh.update ?_, rfl⟩
      rintro rfl
      rw [hh.slot] at hfree
      cases hfree
    · exact ⟨hh, rfl⟩
  | destroy h' =>
    rcases withInst_cases hn with ⟨g, hg, hbody⟩ | ⟨rfl, rfl⟩
    · obtain ⟨rfl, rfl⟩ := Prod.mk.inj hbody
      exact ⟨hh.update (hh.id_ne hg hc), rfl⟩
    · exact ⟨hh, rfl⟩
  | reset h' =>
    rcases withInst_cases hn with ⟨g, hg, hbody⟩ | ⟨rfl, rfl⟩
    · obtain ⟨rfl, rfl⟩ := Prod.mk.inj hbody
      exact ⟨hh.update (hh.id_ne hg hc), rfl⟩
    · exact ⟨hh, rfl⟩
  | calculate h' i' o' =>
    have hne : h' ≠ h := by
      rintro rfl
      simp [frames] at hcount
    simp only [step] at hn
    split_ifs at hn
    · cases hn
      exact ⟨hh, rfl⟩
    · rcases withInst_cases hn with ⟨g, hg, hbody⟩ | ⟨rfl, rfl⟩
      · obtain ⟨rfl, rfl⟩ := Prod.mk.inj hbody
        exact ⟨hh.update (hh.id_ne hg hne), by simp [played, hne]⟩
      · exact ⟨hh, rfl⟩

/-- A frame goes to the converter. -/
theorem own_call (hi : i ≠ 0) (ho : o ≠ 0) (hh : Has t h f) (hc : Only h i o t c) (hcount : frames h [c] ≠ 0)
    (hn : step t c = some (t', fs)) :
    frames h [c] = 1 ∧ played h fs = [(f.calculate i o).2] ∧
      t' = Function.update t (getFrcId h).toNat (some (f.calculate i o).1) := by
  cases c with
  | create | destroy | reset => simp [frames] at hcount
  | calculate h' i' o' =>
    have heq : h' = h := by
      by_contra hne
      simp [frames, hne] at hcount
    subst heq
    obtain ⟨rfl, rfl⟩ := hc rfl
    simp only [step] at hn
    rw [if_neg (not_or.mpr ⟨hi, ho⟩), withInst, hh.check] at hn
    cases hn
    exact ⟨by simp [frames], by simp [played], rfl⟩

/-- What holds of the converter after the calls of a run. -/
structure Inv (h i o : U32) (is : List Call) (t : Table) (es : List Event) : Prop where
  length : (played h es).length = frames h is
  has : ∃ f, Has t h f ∧ (frames h is < 2 ^ 32 → Sched i o f (frames h is) ((played h es).map BitVec.toNat).sum)
  each : frames h is < 2 ^ 32 → ∀ v ∈ played h es, v.toNat = o.toNat / i.toNat ∨ v.toNat = o.toNat / i.toNat + 1

theorem Inv.step {is : List Call} {es : List Event} (hi : i ≠ 0) (ho : o ≠ 0) (hinv : Inv h i o is t es)
    (hc : Only h i o t c) (hn : step t c = some (t', fs)) : Inv h i o (is ++ [c]) t' (es ++ fs) := by
  obtain ⟨f, hh, hsched⟩ := hinv.has
  have hframes : frames h (is ++ [c]) = frames h is + frames h [c] := List.countP_append
  have hplayed : played h (es ++ fs) = played h es ++ played h fs := List.filterMap_append
  by_cases hcount : frames h [c] = 0
  · obtain ⟨hnext, hnone⟩ := other_call hh hc hcount hn
    rw [hcount, Nat.add_zero] at hframes
    rw [hnone, List.append_nil] at hplayed
    refine ⟨?_, ⟨f, hnext, ?_⟩, ?_⟩
    · rw [hplayed, hframes]
      exact hinv.length
    · rw [hplayed, hframes]
      exact hsched
    · rw [hplayed, hframes]
      exact hinv.each
  · obtain ⟨hone, hval, rfl⟩ := own_call hi ho hh hc hcount hn
    rw [hone] at hframes
    rw [hval] at hplayed
    have hmore : frames h (is ++ [c]) < 2 ^ 32 → Sched i o f (frames h is) ((played h es).map BitVec.toNat).sum :=
      fun hlt => hsched (by omega)
    refine ⟨?_, ⟨_, ⟨hh.id_lt, Function.update_self _ _ _, ?_⟩, fun hlt => ?_⟩, fun hlt => ?_⟩
    · rw [hplayed, hframes, List.length_append, hinv.length]
      rfl
    · rw [calculate_hFrc]
      exact hh.handle
    · rw [hplayed, hframes, List.map_append, List.sum_append]
      exact (calculate_sched hi ho (hmore hlt) (by omega)).1
    · rw [hplayed]
      intro v hv
      rcases List.mem_append.mp hv with hv | hv
      · exact hinv.each (by omega) v hv
      · rw [List.mem_singleton.mp hv]
        exact (calculate_sched hi ho (hmore hlt) (by omega)).2

/-- **What a converter has played.** From where it was created or reset, for as many frames as its counter can hold,
    while the others are called in any order. -/
theorem run_spread {c : Call} {s s₀ : Table} {es₀ : List Event} {is : List Call} {es : List Event}
    (hi : i ≠ 0) (ho : o ≠ 0)
    (hstart : step s₀ c = some (s, es₀)) (hfresh : .created h ∈ es₀ ∨ .reset h ∈ es₀)
    (hrun : Run step (Only h i o) s is t es) (hn : frames h is < 2 ^ 32) :
    (played h es).length = frames h is ∧ Spread i o (played h es) := by
  obtain ⟨f, hh, hcur, hcount⟩ := fresh hstart hfresh
  have hzero : Inv h i o [] s [] :=
    ⟨rfl, ⟨f, hh, fun _ => sched_start hi ho hcur hcount⟩, fun _ v hv => absurd hv List.not_mem_nil⟩
  have hinv : Inv h i o is t es := Run.inv_effects (Inv h i o) hzero
    (fun _ _ _ _ _ _ hpre hc hnext => hpre.step hi ho hc hnext) hrun
  obtain ⟨g, -, hsched⟩ := hinv.has
  obtain ⟨hnear, hexact⟩ := (hsched hn).share hi ho
  rw [← hinv.length] at hnear hexact
  exact ⟨hinv.length, ⟨hnear, hexact, hinv.each hn⟩⟩

instance decidableOnly (h i o : U32) (t : Table) : (c : Call) → Decidable (Only h i o t c)
  | .create _ => isTrue trivial
  | .destroy h' => inferInstanceAs (Decidable (h' ≠ h))
  | .reset h' => inferInstanceAs (Decidable (h' ≠ h))
  | .calculate h' i' o' => inferInstanceAs (Decidable (h' = h → i' = i ∧ o' = o))

/-- Frames at 24 to a display at 60, with another converter in between. -/
def mixedRun : List Call :=
  List.replicate 5 (.calculate 0xC00000 24 60) ++ [.create true, .calculate 0xC00001 60 25] ++
    List.replicate 19 (.calculate 0xC00000 24 60)

/-- After 24 frames the display has had 60. -/
theorem run_spread_film :
    ∃ s t es, step (fun _ => none) (.create true) = some (s, [.created 0xC00000]) ∧
      Run step (Only 0xC00000 24 60) s mixedRun t es ∧ frames 0xC00000 mixedRun = 24 ∧
      Spread 24 60 (played 0xC00000 es) ∧ (((played 0xC00000 es).map BitVec.toNat).sum : ℚ) = 60 := by
  obtain ⟨s, hstart⟩ : ∃ s, step (fun _ => none) (.create true) = some (s, [.created 0xC00000]) := ⟨_, rfl⟩
  have hs : s = (create (fun _ => none) true).1 := congrArg Prod.fst (Option.some.inj hstart).symm
  obtain ⟨t, es, hrun, -⟩ := exists_run_of_exec step (Only 0xC00000 24 60) s mixedRun (fun _ => true)
    (by rw [hs]; decide)
  have hframes : frames 0xC00000 mixedRun = 24 := by decide
  obtain ⟨hlen, hspread⟩ := run_spread (by decide) (by decide) hstart (Or.inl (List.mem_singleton.mpr rfl)) hrun
    (by rw [hframes]; decide)
  rw [hframes] at hlen
  refine ⟨s, t, es, hstart, hrun, hframes, hspread, ?_⟩
  have hin : (24 : U32).toNat = 24 := rfl
  have hout : (60 : U32).toNat = 60 := rfl
  have hexact := hspread.exact (by rw [hlen, hin])
  rw [hexact, hlen, hin, hout]
  norm_num

end HiSTB.Frc
