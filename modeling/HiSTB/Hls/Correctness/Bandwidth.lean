import HiSTB.Hls.Correctness.Choice

/-!
# `Hls.Correctness.Bandwidth` — which variant the speed chooses

`IsTarget` says what is to be played: of the usable variants the best one below the speed, else the smallest one.
`OneStep` says how far a smooth change goes.

* `target_right_iff` — the two scans for the target give it if it is near enough to the speed;
* `smooth_oneStep_iff` — the scans for one step: the one downwards passes over variants that are not parsed yet;
* `hlsGetDefaultIndex_iff` — the first video variant stays unless a usable one is better;
* `choice_right_iff` — together.
-/

namespace HiSTB.Hls.ReadData.State

variable (s : State)

variable {t u i : Nat} {fast : Bool}

/-! ## What is to be chosen -/

abbrev bw (i : Nat) : Int := (s.stream i).bandwidth

/-- The current bandwidth, which need not be that of a variant of the session. -/
abbrev curBw : Int := s.bw s.curHls

/-- A variant of the session that has segments, or was not parsed yet. -/
def Usable (i : Nat) : Prop := i < s.streamNb ∧ (s.stream i).usable = true

/-- The user has chosen a variant. -/
def Appointed (a : Answer) : Prop :=
  0 ≤ a.appointId ∧ a.appointId < s.streamNb ∧ (s.stream a.appointId.toNat).usable = true

/-- The largest bandwidth below the speed, or the smallest one if all are above. -/
def IsTarget (netBw : Nat) (i : Nat) : Prop :=
  s.Usable i ∧
    (s.bw i < netBw ∧ (∀ j, s.Usable j → s.bw j < netBw → s.bw j ≤ s.bw i) ∨
      (∀ j, s.Usable j → netBw ≤ s.bw j) ∧ ∀ j, s.Usable j → s.bw i ≤ s.bw j)

/-- No usable variant is strictly between two bandwidths. -/
def NoneBetween (x y : Int) : Prop := ∀ j, s.Usable j → ¬(min x y < s.bw j ∧ s.bw j < max x y)

/-- From the current bandwidth at most one step, and not past a target. -/
def OneStep (netBw : Nat) (i : Nat) : Prop :=
  s.NoneBetween s.curBw (s.bw i) ∧
    ∀ t, s.IsTarget netBw t → min s.curBw (s.bw t) ≤ s.bw i ∧ s.bw i ≤ max s.curBw (s.bw t)

/-- **What is claimed**, for smooth and quick changes. -/
structure Right (videoCodec : Nat → Bool) (fast : Bool) (a : Answer) : Prop where
  usable : ∀ quick, ∃ i, s.hlsGetIndex { a with quick := quick } = some i ∧ s.Usable i
  target : ¬s.Appointed a → ∀ i, s.hlsGetIndex { a with quick := true } = some i → s.IsTarget a.netBw i
  oneStep : ¬s.Appointed a → ∀ i, s.hlsGetIndex { a with quick := false } = some i → s.OneStep a.netBw i
  default : (∃ i, s.Usable i ∧ videoCodec i = true) →
    s.Usable (s.hlsGetDefaultIndex videoCodec fast) ∧ videoCodec (s.hlsGetDefaultIndex videoCodec fast) = true

/-! ## When it is -/

/-- The first scan takes the variant into account. -/
def InReach (netBw : Nat) (i : Nat) : Prop := toU64 (s.bw i) < netBw ∧ netBw - toU64 (s.bw i) < 0xFFFFFFFF

/-- The target is in reach, or nothing is and the target is the smallest one as an `unsigned int`. -/
def TargetFound (netBw : Nat) : Prop :=
  (∃ i, s.IsTarget netBw i ∧ s.InReach netBw i) ∨
    (∀ j, s.Usable j → ¬s.InReach netBw j) ∧
      ∃ i, s.IsTarget netBw i ∧ toU32 (s.bw i) < 0xFFFFFFFF ∧ ∀ j, s.Usable j → toU32 (s.bw i) ≤ toU32 (s.bw j)

/-- A variant with segments, which the scan downwards takes into account. -/
def Below (p : Nat) : Prop := p < s.streamNb ∧ 0 < s.nb p ∧ s.bw p < s.curBw ∧ s.curBw - s.bw p < 0xFFFFFFFF

/-- The next variant below has segments, or none below has and the target is the next one. -/
def DownFound (t : Nat) : Prop :=
  (∃ p, s.Below p ∧ s.NoneBetween s.curBw (s.bw p)) ∨ (∀ p, ¬s.Below p) ∧ s.NoneBetween s.curBw (s.bw t)

/-- Variant 0 is taken for the current one where no variant has the current bandwidth. -/
def ZeroTarget (netBw : Nat) : Prop := (∀ i, i < s.streamNb → s.bw i ≠ s.curBw) ∧ s.IsTarget netBw 0

/-- A target below is reached in one step. -/
def StepFound (netBw : Nat) : Prop :=
  ∀ t, s.IsTarget netBw t →
    (s.ZeroTarget netBw → s.NoneBetween s.curBw (s.bw 0)) ∧ (¬s.ZeroTarget netBw → s.bw t < s.curBw → s.DownFound t)

/-- Better for the start. -/
def Better (fast : Bool) (i d : Nat) : Prop := if fast then s.bw i < s.bw d else s.bw d < s.bw i
deriving Decidable

/-- The first video variant is usable, or a better one is. -/
def DefaultFound (videoCodec : Nat → Bool) (fast : Bool) : Prop :=
  ∀ f, f < s.streamNb → videoCodec f = true → (∀ i, i < f → videoCodec i = false) →
    (∃ i, s.Usable i ∧ videoCodec i = true) →
    s.Usable f ∨ ∃ i, s.Usable i ∧ videoCodec i = true ∧ s.Better fast i f

/-- The values are those of an `int` and of an `uint64_t`. -/
structure Typed (a : Answer) : Prop where
  lo : ∀ i, -0x80000000 ≤ s.bw i
  hi : ∀ i, s.bw i < 0x80000000
  netBw : a.netBw < 0x10000000000000000

/-! ## The target -/

/-- `hlsGetIndex` up to the adjustment. -/
def target (netBw : Nat) : Option Nat :=
  let below := nearest s.streamNb (fun i => decide (toU64 (s.bw i) < netBw) && (s.stream i).usable)
    (fun i => netBw - toU64 (s.bw i)) none
  if below = none then nearest s.streamNb (fun i => (s.stream i).usable) (fun i => toU32 (s.bw i)) none else below

/-- `cur_index`. -/
def curVariant : Nat := (List.range s.streamNb).foldl (fun r i => if s.bw i = s.curBw then i else r) 0

/-- The adjustment. -/
def smooth (t : Nat) : Option Nat :=
  if s.curVariant = t then some t
  else if s.bw t < s.curBw then
    nearest s.streamNb (fun i => decide (s.bw i < s.curBw) && decide (0 < s.nb i)) (fun i =>
      toU32 (s.curBw - s.bw i)) (some t)
  else if s.curBw < s.bw t then
    nearest s.streamNb (fun i => decide (s.curBw < s.bw i) && (s.stream i).usable) (fun i =>
      toU32 (s.bw i - s.curBw)) (some t)
  else some t

variable {s} {a : Answer} {netBw : Nat}

theorem hlsGetIndex_appointed (h : s.Appointed a) (quick : Bool) :
    s.hlsGetIndex { a with quick := quick } = some a.appointId.toNat := by
  unfold State.hlsGetIndex
  exact if_pos h

theorem hlsGetIndex_quick (h : ¬s.Appointed a) : s.hlsGetIndex { a with quick := true } = s.target a.netBw := by
  unfold State.hlsGetIndex
  refine (if_neg h).trans ?_
  simp only [true_or, if_true]
  exact Option.bind_fun_some _

theorem hlsGetIndex_smooth (h : ¬s.Appointed a) :
    s.hlsGetIndex { a with quick := false } = (s.target a.netBw).bind s.smooth := by
  unfold State.hlsGetIndex
  refine (if_neg h).trans ?_
  simp only [Bool.false_eq_true, false_or]
  rfl

/-- The target is the first of the nearest in reach. -/
def Nearest (s : State) (netBw t : Nat) : Prop :=
  s.Usable t ∧ s.InReach netBw t ∧
    (∀ j, s.Usable j → s.InReach netBw j → netBw - toU64 (s.bw t) ≤ netBw - toU64 (s.bw j)) ∧
    ∀ j, j < t → s.Usable j → s.InReach netBw j → netBw - toU64 (s.bw t) < netBw - toU64 (s.bw j)

/-- The target is the first of the smallest. -/
def Smallest (s : State) (t : Nat) : Prop :=
  s.Usable t ∧ toU32 (s.bw t) < 0xFFFFFFFF ∧ (∀ j, s.Usable j → toU32 (s.bw t) ≤ toU32 (s.bw j)) ∧
    ∀ j, j < t → s.Usable j → toU32 (s.bw t) < toU32 (s.bw j)

/-- What the two scans find. -/
theorem target_spec (s : State) (netBw : Nat) :
    (∃ t, s.target netBw = some t ∧ s.Nearest netBw t) ∨ (∀ j, s.Usable j → ¬s.InReach netBw j) ∧
        (s.target netBw = none ∧ (∀ j, s.Usable j → 0xFFFFFFFF ≤ toU32 (s.bw j)) ∨
          ∃ t, s.target netBw = some t ∧ s.Smallest t) := by
  obtain ⟨d, hbelow⟩ := nearest_scanned s.streamNb (fun i => decide (toU64 (s.bw i) < netBw) && (s.stream i).usable)
    (fun i => netBw - toU64 (s.bw i)) none
  rcases hbelow with ⟨heq, hfar⟩ | ⟨t, heq, hlt, hok, hnear, hmin, hfirst⟩
  · right
    refine ⟨fun j hj hreach => ?_, ?_⟩
    · have hge := hfar j hj.1 (by simp [hreach.1, hj.2])
      exact absurd hreach.2 (Nat.not_lt.mpr hge)
    · obtain ⟨d, hall⟩ := nearest_scanned s.streamNb (fun i => (s.stream i).usable) (fun i => toU32 (s.bw i)) none
      have htarget : s.target netBw = nearest s.streamNb (fun i => (s.stream i).usable) (fun i =>
          toU32 (s.bw i)) none :=
        if_pos (Prod.mk.inj heq).2
      rw [htarget]
      rcases hall with ⟨heq, hlarge⟩ | ⟨t, heq, hlt, hok, hnear, hmin, hfirst⟩
      · exact Or.inl ⟨(Prod.mk.inj heq).2, fun j hj => hlarge j hj.1 hj.2⟩
      · exact Or.inr ⟨t, (Prod.mk.inj heq).2, ⟨hlt, hok⟩, hnear, fun j hj => hmin j hj.1 hj.2,
          fun j hj hu => hfirst j hj hu.2⟩
  · left
    have hsome := (Prod.mk.inj heq).2
    obtain ⟨hreach, husable⟩ : toU64 (s.bw t) < netBw ∧ (s.stream t).usable = true := by simpa using hok
    refine ⟨t, ?_, ⟨hlt, husable⟩, ⟨hreach, hnear⟩, fun j hj hr => hmin j hj.1 (by simp [hr.1, hj.2]),
      fun j hj hu hr => hfirst j hj (by simp [hr.1, hu.2])⟩
    rw [target, hsome, if_neg (Option.some_ne_none t)]

/-- Targets have one bandwidth. -/
theorem IsTarget.bw_eq (ht : s.IsTarget netBw t) (hu : s.IsTarget netBw u) : s.bw t = s.bw u := by
  rcases ht with ⟨htu, ⟨htlt, htmax⟩ | ⟨htall, htmin⟩⟩ <;> rcases hu with ⟨huu, ⟨hult, humax⟩ | ⟨huall, humin⟩⟩
  · exact Int.le_antisymm (humax t htu htlt) (htmax u huu hult)
  · exact absurd htlt (Int.not_lt.mpr (huall t htu))
  · exact absurd hult (Int.not_lt.mpr (htall u huu))
  · exact Int.le_antisymm (htmin u huu) (humin t htu)

theorem IsTarget.of_bw_eq (ht : s.IsTarget netBw t) (hu : s.Usable u) (h : s.bw u = s.bw t) : s.IsTarget netBw u := by
  refine ⟨hu, ?_⟩
  rw [h]
  exact ht.2

/-- The nearest one in reach is a target, if a target is in reach. -/
theorem Nearest.bw_eq (hty : s.Typed a) (h : s.Nearest a.netBw t) (hu : s.IsTarget a.netBw u)
    (hreach : s.InReach a.netBw u) : s.bw t = s.bw u := by
  obtain ⟨htu, htreach, hmin, -⟩ := h
  have hle := hmin u hu.1 hreach
  have htlo := hty.lo t
  have hthi := hty.hi t
  have hulo := hty.lo u
  have huhi := hty.hi u
  have hnet := hty.netBw
  unfold InReach toU64 at htreach hreach
  unfold toU64 at hle
  rcases hu.2 with ⟨hlt, hmax⟩ | ⟨hall, -⟩
  · have hmaxt := hmax t htu
    omega
  · have hnot := hall u hu.1
    omega

/-- **When the target is right.** -/
theorem target_right_iff (hty : s.Typed a) :
    (∃ t, s.target a.netBw = some t ∧ s.IsTarget a.netBw t) ↔ s.TargetFound a.netBw := by
  rcases target_spec s a.netBw with ⟨t, ht, hnear⟩ | ⟨hfar, ⟨hnone, hlarge⟩ | ⟨t, ht, hsmall⟩⟩
  · constructor
    · rintro ⟨u, hu, htarget⟩
      obtain rfl := Option.some.inj (ht.symm.trans hu)
      exact Or.inl ⟨t, htarget, hnear.2.1⟩
    · rintro (⟨u, hu, hreach⟩ | ⟨hnot, -⟩)
      · exact ⟨t, ht, hu.of_bw_eq hnear.1 (hnear.bw_eq hty hu hreach)⟩
      · exact absurd hnear.2.1 (hnot t hnear.1)
  · constructor
    · rintro ⟨u, hu, -⟩
      cases hnone.symm.trans hu
    · rintro (⟨u, hu, hreach⟩ | ⟨-, u, hu, hlt, -⟩)
      · exact absurd hreach (hfar u hu.1)
      · exact absurd hlt (Nat.not_lt.mpr (hlarge u hu.1))
  · constructor
    · rintro ⟨u, hu, htarget⟩
      obtain rfl := Option.some.inj (ht.symm.trans hu)
      exact Or.inr ⟨hfar, t, htarget, hsmall.2.1, hsmall.2.2.1⟩
    · rintro (⟨u, hu, hreach⟩ | ⟨-, u, hu, -, hmin⟩)
      · exact absurd hreach (hfar u hu.1)
      · have hle := hmin t hsmall.1
        have hge := hsmall.2.2.1 u hu.1
        have htlo := hty.lo t
        have hthi := hty.hi t
        have hulo := hty.lo u
        have huhi := hty.hi u
        unfold toU32 at hle hge
        exact ⟨t, ht, hu.of_bw_eq hsmall.1 (by omega)⟩

/-! ## One step -/

/-- Variant 0 is found only as the first one, so where it is a target, it is the one that is found. -/
theorem target_eq_zero_iff (ht : s.target netBw = some t) (htarget : s.IsTarget netBw t) :
    t = 0 ↔ s.IsTarget netBw 0 := by
  constructor
  · rintro rfl
    exact htarget
  · intro hzero
    by_contra hne
    have hbw := hzero.bw_eq htarget
    have hpos := Nat.pos_of_ne_zero hne
    rcases target_spec s netBw with ⟨u, hu, -, hreach, -, hfirst⟩ | ⟨-, ⟨hnone, -⟩ | ⟨u, hu, -, -, -, hfirst⟩⟩
    · obtain rfl := Option.some.inj (hu.symm.trans ht)
      have hlt := hfirst 0 hpos hzero.1 (by rw [InReach, hbw]; exact hreach)
      rw [hbw] at hlt
      exact absurd hlt (Nat.lt_irrefl _)
    · cases hnone.symm.trans ht
    · obtain rfl := Option.some.inj (hu.symm.trans ht)
      have hlt := hfirst 0 hpos hzero.1
      rw [hbw] at hlt
      exact absurd hlt (Nat.lt_irrefl _)

/-- It is the last variant of the current bandwidth, or 0. -/
theorem curVariant_spec (s : State) :
    (∀ i, i < s.streamNb → s.bw i ≠ s.curBw) ∧ s.curVariant = 0 ∨ s.curVariant < s.streamNb ∧
      s.bw s.curVariant = s.curBw := by
  unfold curVariant
  induction s.streamNb with
  | zero => exact Or.inl ⟨fun i hi => absurd hi (Nat.not_lt_zero i), rfl⟩
  | succ n ih =>
    simp only [List.range_succ, List.foldl_append, List.foldl_cons, List.foldl_nil]
    by_cases hn : s.bw n = s.curBw
    · rw [if_pos hn]
      exact Or.inr ⟨Nat.lt_succ_self n, hn⟩
    · rw [if_neg hn]
      rcases ih with ⟨hall, hc⟩ | ⟨hlt, hc⟩
      · refine Or.inl ⟨fun i hi => ?_, hc⟩
        rcases Nat.lt_succ_iff_lt_or_eq.mp hi with hlt | rfl
        · exact hall i hlt
        · exact hn
      · exact Or.inr ⟨Nat.lt_succ_of_lt hlt, hc⟩

theorem noneBetween_self (x : Int) : s.NoneBetween x x := by
  intro j hj hbetween
  omega

theorem usable_of_nb (hi : i < s.streamNb) (h : 0 < s.nb i) : s.Usable i := by
  refine ⟨hi, ?_⟩
  unfold Variant.usable
  rw [decide_eq_true h]
  rfl

theorem oneStep_target_iff (ht : s.IsTarget netBw t) : s.OneStep netBw t ↔ s.NoneBetween s.curBw (s.bw t) := by
  refine ⟨fun h => h.1, fun h => ⟨h, fun u hu => ?_⟩⟩
  rw [hu.bw_eq ht]
  omega

/-- A step to a variant that is nearer than the target, in its direction. -/
theorem oneStep_of_noneBetween (ht : s.IsTarget netBw t) (hnone : s.NoneBetween s.curBw (s.bw i))
    (hside : s.bw t < s.curBw ∧ s.bw i < s.curBw ∨ s.curBw < s.bw t ∧ s.curBw < s.bw i) : s.OneStep netBw i := by
  refine ⟨hnone, fun u hu => ?_⟩
  have hnot := hnone u hu.1
  rw [hu.bw_eq ht] at hnot ⊢
  omega

/-- The scan downwards. -/
theorem down_oneStep_iff (hty : s.Typed a) (ht : s.IsTarget netBw t) (hlt : s.bw t < s.curBw) :
    ∃ i, nearest s.streamNb (fun i => decide (s.bw i < s.curBw) && decide (0 < s.nb i)) (fun i =>
      toU32 (s.curBw - s.bw i))
        (some t) = some i ∧ s.Usable i ∧ (s.OneStep netBw i ↔ s.DownFound t) := by
  have hdist : ∀ i, s.bw i < s.curBw → (toU32 (s.curBw - s.bw i) : Int) = s.curBw - s.bw i := by
    intro i hi
    have hlo := hty.lo i
    have hhi : s.curBw < 0x80000000 := hty.hi s.curHls
    unfold toU32
    omega
  obtain ⟨d, ⟨heq, hfar⟩ | ⟨p, heq, hp, hok, hnear, hmin, -⟩⟩ := nearest_scanned s.streamNb
    (fun i => decide (s.bw i < s.curBw) && decide (0 < s.nb i)) (fun i => toU32 (s.curBw - s.bw i)) (some t)
  · -- no variant with segments is below
    have hnot : ∀ p, ¬s.Below p := by
      intro p hp
      have hge : 0xFFFFFFFF ≤ toU32 (s.curBw - s.bw p) := hfar p hp.1 (by simp [hp.2.1, hp.2.2.1])
      have hcast := hdist p hp.2.2.1
      have hreach := hp.2.2.2
      omega
    refine ⟨t, (Prod.mk.inj heq).2, ht.1, (oneStep_target_iff ht).trans ⟨fun h => Or.inr ⟨hnot, h⟩, ?_⟩⟩
    rintro (⟨p, hp, -⟩ | ⟨-, h⟩)
    · exact absurd hp (hnot p)
    · exact h
  · obtain ⟨hplt, hnb⟩ : s.bw p < s.curBw ∧ 0 < s.nb p := by simpa using hok
    have hcast := hdist p hplt
    have hnear : toU32 (s.curBw - s.bw p) < 0xFFFFFFFF := hnear
    have hbelow : s.Below p := ⟨hp, hnb, hplt, by omega⟩
    refine ⟨p, (Prod.mk.inj heq).2, usable_of_nb hp hnb, ?_⟩
    constructor
    · intro h
      exact Or.inl ⟨p, hbelow, h.1⟩
    · rintro (⟨q, hq, hnone⟩ | ⟨hnot, -⟩)
      · -- the nearest one is as near as the next one
        have hle : toU32 (s.curBw - s.bw p) ≤ toU32 (s.curBw - s.bw q) := hmin q hq.1 (by simp [hq.2.1, hq.2.2.1])
        have hcastq := hdist q hq.2.2.1
        have hbetween := hnone p (usable_of_nb hp hnb)
        have hqlt := hq.2.2.1
        have hbw : s.bw p = s.bw q := by omega
        refine oneStep_of_noneBetween ht ?_ (Or.inl ⟨hlt, hplt⟩)
        rw [hbw]
        exact hnone
      · exact absurd hbelow (hnot p)

/-- The scan upwards is right. -/
theorem up_oneStep (hty : s.Typed a) (ht : s.IsTarget netBw t) (hlt : s.curBw < s.bw t) :
    ∃ i, nearest s.streamNb (fun i => decide (s.curBw < s.bw i) && (s.stream i).usable) (fun i =>
      toU32 (s.bw i - s.curBw))
        (some t) = some i ∧ s.Usable i ∧ s.OneStep netBw i := by
  have hdist : ∀ i, s.curBw < s.bw i → (toU32 (s.bw i - s.curBw) : Int) = s.bw i - s.curBw := by
    intro i hi
    have hlo : -0x80000000 ≤ s.curBw := hty.lo s.curHls
    have hhi := hty.hi i
    unfold toU32
    omega
  obtain ⟨d, ⟨heq, hfar⟩ | ⟨p, heq, hp, hok, hnear, hmin, -⟩⟩ := nearest_scanned s.streamNb
    (fun i => decide (s.curBw < s.bw i) && (s.stream i).usable) (fun i => toU32 (s.bw i - s.curBw)) (some t)
  · -- only the two ends of `int` are so far apart
    refine ⟨t, (Prod.mk.inj heq).2, ht.1, (oneStep_target_iff ht).mpr (fun j hj hbetween => ?_)⟩
    have hjlt : s.curBw < s.bw j := by omega
    have hge : 0xFFFFFFFF ≤ toU32 (s.bw j - s.curBw) := hfar j hj.1 (by simp [hjlt, hj.2])
    have hcast := hdist j hjlt
    have hhi := hty.hi t
    have hlo : -0x80000000 ≤ s.curBw := hty.lo s.curHls
    omega
  · obtain ⟨hplt, husable⟩ : s.curBw < s.bw p ∧ (s.stream p).usable = true := by simpa using hok
    refine ⟨p, (Prod.mk.inj heq).2, ⟨hp, husable⟩,
      oneStep_of_noneBetween ht (fun j hj hbetween => ?_) (Or.inr ⟨hlt, hplt⟩)⟩
    have hjlt : s.curBw < s.bw j := by omega
    have hle : toU32 (s.bw p - s.curBw) ≤ toU32 (s.bw j - s.curBw) := hmin j hj.1 (by simp [hjlt, hj.2])
    have hcast := hdist p hplt
    have hcastj := hdist j hjlt
    omega

theorem stepFound_iff (ht : s.IsTarget netBw t) :
    s.StepFound netBw ↔
      (s.ZeroTarget netBw → s.NoneBetween s.curBw (s.bw 0)) ∧
        (¬s.ZeroTarget netBw → s.bw t < s.curBw → s.DownFound t) := by
  constructor
  · intro h
    exact h t ht
  · intro h u hu
    unfold DownFound at h ⊢
    rwa [hu.bw_eq ht]

/-- **One step**, from a target. -/
theorem smooth_oneStep_iff (hty : s.Typed a) (ht : s.target netBw = some t) (htarget : s.IsTarget netBw t) :
    ∃ i, s.smooth t = some i ∧ s.Usable i ∧ (s.OneStep netBw i ↔ s.StepFound netBw) := by
  rw [stepFound_iff htarget]
  have hcur := curVariant_spec s
  have hzero := target_eq_zero_iff ht htarget
  unfold smooth
  split
  next hsame =>
    refine ⟨t, rfl, htarget.1, (oneStep_target_iff htarget).trans ?_⟩
    rcases hcur with ⟨hall, hc⟩ | ⟨hlt, hc⟩
    · -- the current bandwidth is that of no variant
      have ht0 : t = 0 := hsame.symm.trans hc
      have hz : s.ZeroTarget netBw := ⟨hall, hzero.mp ht0⟩
      rw [ht0]
      exact ⟨fun h => ⟨fun _ => h, fun hnot => absurd hz hnot⟩, fun h => h.1 hz⟩
    · rw [hsame] at hlt hc
      have hz : ¬s.ZeroTarget netBw := fun hz => hz.1 t hlt hc
      refine iff_of_true ?_ ⟨fun h => absurd h hz, fun _ hless => absurd hc (Int.ne_of_lt hless)⟩
      rw [hc]
      exact noneBetween_self _
  next hdiff =>
    have hz : ¬s.ZeroTarget netBw := by
      rintro ⟨hall, htarget0⟩
      rcases hcur with ⟨-, hc⟩ | ⟨hlt, hc⟩
      · exact hdiff (hc.trans (hzero.mpr htarget0).symm)
      · exact hall _ hlt hc
    split
    next hlt =>
      obtain ⟨i, hi, husable, hiff⟩ := down_oneStep_iff hty htarget hlt
      refine ⟨i, hi, husable, hiff.trans ⟨fun h => ⟨fun h0 => absurd h0 hz, fun _ _ => h⟩, fun h => h.2 hz hlt⟩⟩
    next hge =>
      have hup : (s.ZeroTarget netBw → s.NoneBetween s.curBw (s.bw 0)) ∧
          (¬s.ZeroTarget netBw → s.bw t < s.curBw → s.DownFound t) :=
        ⟨fun h0 => absurd h0 hz, fun _ hlt => absurd hlt hge⟩
      split
      next hlt =>
        obtain ⟨i, hi, husable, hone⟩ := up_oneStep hty htarget hlt
        exact ⟨i, hi, husable, iff_of_true hone hup⟩
      next hle =>
        have heq : s.bw t = s.curBw := by omega
        refine ⟨t, rfl, htarget.1, iff_of_true ((oneStep_target_iff htarget).mpr ?_) hup⟩
        rw [heq]
        exact noneBetween_self _

/-! ## The start -/

/-- What the loop for the start has found in `k` variants: none with video, the first one, or a usable one that is
    better. -/
def DefaultIn (s : State) (videoCodec : Nat → Bool) (fast : Bool) (k : Nat) (r : Option Nat) : Prop :=
  (r = none ∧ ∀ i, i < k → videoCodec i = false) ∨
    ∃ f d, r = some d ∧ f < k ∧ videoCodec f = true ∧ (∀ i, i < f → videoCodec i = false) ∧
      (d = f ∧ (∀ i, f < i → i < k → videoCodec i = true → (s.stream i).usable = true → ¬s.Better fast i f) ∨
        d < k ∧ videoCodec d = true ∧ (s.stream d).usable = true ∧ s.Better fast d f)

theorem Better.trans {d f : Nat} (h : s.Better fast i d) (h' : s.Better fast d f) : s.Better fast i f := by
  unfold Better at *
  cases fast
  · simp only [Bool.false_eq_true, if_false] at *
    omega
  · simp only [if_true] at *
    omega

/-- The body of that loop. -/
def takeDefault (s : State) (videoCodec : Nat → Bool) (fast : Bool) (r : Option Nat) (i : Nat) : Option Nat :=
  if videoCodec i then
    match r with
    | none => some i
    | some d => if (s.stream i).usable ∧ s.Better fast i d then some i else some d
  else r

theorem DefaultIn.step {videoCodec : Nat → Bool} {k : Nat} {r : Option Nat} (h : s.DefaultIn videoCodec fast k r) :
    s.DefaultIn videoCodec fast (k + 1) (s.takeDefault videoCodec fast r k) := by
  unfold takeDefault
  rcases h with ⟨rfl, hnone⟩ | ⟨f, d, rfl, hf, hvideo, hfirst, hd⟩
  · split
    next hk =>
      exact Or.inr ⟨k, k, rfl, Nat.lt_succ_self k, hk, hnone, Or.inl ⟨rfl, fun i hlo hhi => absurd hhi (by omega)⟩⟩
    next hk =>
      refine Or.inl ⟨rfl, fun i hi => ?_⟩
      rcases Nat.lt_succ_iff_lt_or_eq.mp hi with hlt | rfl
      · exact hnone i hlt
      · simpa using hk
  · split
    next hk =>
      dsimp only
      split
      next hbetter =>
        refine Or.inr ⟨f, k, rfl, Nat.lt_succ_of_lt hf, hvideo, hfirst, Or.inr ⟨Nat.lt_succ_self k, hk, hbetter.1, ?_⟩⟩
        rcases hd with ⟨rfl, -⟩ | ⟨-, -, -, hdf⟩
        · exact hbetter.2
        · exact hbetter.2.trans hdf
      next hnot =>
        refine Or.inr ⟨f, d, rfl, Nat.lt_succ_of_lt hf, hvideo, hfirst, ?_⟩
        rcases hd with ⟨rfl, hworse⟩ | ⟨hlt, hrest⟩
        · refine Or.inl ⟨rfl, fun i hlo hhi hv hu => ?_⟩
          rcases Nat.lt_succ_iff_lt_or_eq.mp hhi with hlt | rfl
          · exact hworse i hlo hlt hv hu
          · exact fun hb => hnot ⟨hu, hb⟩
        · exact Or.inr ⟨Nat.lt_succ_of_lt hlt, hrest⟩
    next hk =>
      refine Or.inr ⟨f, d, rfl, Nat.lt_succ_of_lt hf, hvideo, hfirst, ?_⟩
      rcases hd with ⟨rfl, hworse⟩ | ⟨hlt, hrest⟩
      · refine Or.inl ⟨rfl, fun i hlo hhi hv hu => ?_⟩
        rcases Nat.lt_succ_iff_lt_or_eq.mp hhi with hlt | rfl
        · exact hworse i hlo hlt hv hu
        · exact absurd hv hk
      · exact Or.inr ⟨Nat.lt_succ_of_lt hlt, hrest⟩

theorem hlsGetDefaultIndex_found (s : State) (videoCodec : Nat → Bool) (fast : Bool) :
    ∃ r, s.DefaultIn videoCodec fast s.streamNb r ∧ s.hlsGetDefaultIndex videoCodec fast = r.getD 0 := by
  have hfold : ∀ k, s.DefaultIn videoCodec fast k ((List.range k).foldl (s.takeDefault videoCodec fast) none) := by
    intro k
    induction k with
    | zero => exact Or.inl ⟨rfl, fun i hi => absurd hi (Nat.not_lt_zero i)⟩
    | succ k ih =>
      rw [List.range_succ, List.foldl_append]
      exact ih.step
  exact ⟨_, hfold s.streamNb, rfl⟩

/-- **When the start is right.** -/
theorem hlsGetDefaultIndex_iff (s : State) (videoCodec : Nat → Bool) (fast : Bool) :
    ((∃ i, s.Usable i ∧ videoCodec i = true) →
      s.Usable (s.hlsGetDefaultIndex videoCodec fast) ∧ videoCodec (s.hlsGetDefaultIndex videoCodec fast) = true) ↔
      s.DefaultFound videoCodec fast := by
  obtain ⟨r, hr, heq⟩ := hlsGetDefaultIndex_found s videoCodec fast
  rw [heq]
  rcases hr with ⟨rfl, hnone⟩ | ⟨f, d, rfl, hf, hvideo, hfirst, hd⟩
  · refine iff_of_true ?_ ?_
    · rintro ⟨i, hi, hv⟩
      exact absurd (hnone i hi.1) (by simp [hv])
    · intro f hf hv
      exact absurd (hnone f hf) (by simp [hv])
  · have hunique : ∀ g, videoCodec g = true → (∀ i, i < g → videoCodec i = false) → g = f := by
      intro g hg hgfirst
      rcases Nat.lt_trichotomy g f with hlt | rfl | hlt
      · exact absurd (hfirst g hlt) (by simp [hg])
      · rfl
      · exact absurd (hgfirst f hlt) (by simp [hvideo])
    rw [Option.getD_some]
    constructor
    · intro h g _ hg hgfirst hex
      obtain rfl := hunique g hg hgfirst
      rcases hd with ⟨rfl, -⟩ | ⟨hlt, hv, hu, hbetter⟩
      · exact Or.inl (h hex).1
      · exact Or.inr ⟨d, ⟨hlt, hu⟩, hv, hbetter⟩
    · intro h hex
      rcases hd with ⟨rfl, hworse⟩ | ⟨hlt, hv, hu, hbetter⟩
      · refine ⟨?_, hvideo⟩
        rcases h d hf hvideo hfirst hex with husable | ⟨i, hi, hv, hbetter⟩
        · exact husable
        · -- nothing in front of the first one has video, and it is not better than itself
          have hlt : d < i := by
            rcases Nat.lt_trichotomy i d with hlt | rfl | hlt
            · exact absurd (hfirst i hlt) (by simp [hv])
            · exact absurd hbetter (by cases fast <;> simp [Better])
            · exact hlt
          exact absurd hbetter (hworse i hlt hi.1 hv hi.2)
      · exact ⟨⟨hlt, hu⟩, hv⟩

/-! ## The choice -/

/-- **When the choice is right**: the target is found, and so is the next variant where the target is below, and for the
start the first video variant is usable or has a better one. -/
theorem choice_right_iff (s : State) (videoCodec : Nat → Bool) (fast : Bool) (a : Answer) (hty : s.Typed a) :
    s.Right videoCodec fast a ↔
      (¬s.Appointed a → s.TargetFound a.netBw ∧ s.StepFound a.netBw) ∧ s.DefaultFound videoCodec fast := by
  rw [← hlsGetDefaultIndex_iff]
  constructor
  · intro h
    refine ⟨fun hnot => ?_, h.default⟩
    obtain ⟨t, ht, -⟩ := h.usable true
    have htarget := h.target hnot t ht
    rw [hlsGetIndex_quick hnot] at ht
    obtain ⟨i, hi, -, hiff⟩ := smooth_oneStep_iff hty ht htarget
    have hone := h.oneStep hnot i (by rw [hlsGetIndex_smooth hnot, ht]; exact hi)
    exact ⟨(target_right_iff hty).mp ⟨t, ht, htarget⟩, hiff.mp hone⟩
  · rintro ⟨hfound, hdefault⟩
    by_cases hnot : s.Appointed a
    · refine ⟨fun quick => ⟨_, hlsGetIndex_appointed hnot quick, ?_⟩, fun h => absurd hnot h, fun h =>
        absurd hnot h, hdefault⟩
      obtain ⟨h0, hlt, husable⟩ := hnot
      exact ⟨by omega, husable⟩
    · obtain ⟨htfound, hsfound⟩ := hfound hnot
      obtain ⟨t, ht, htarget⟩ := (target_right_iff hty).mpr htfound
      obtain ⟨i, hi, husable, hiff⟩ := smooth_oneStep_iff hty ht htarget
      have hquick : s.hlsGetIndex { a with quick := true } = some t := (hlsGetIndex_quick hnot).trans ht
      have hsmooth : s.hlsGetIndex { a with quick := false } = some i := by
        rw [hlsGetIndex_smooth hnot, ht]
        exact hi
      refine ⟨fun quick => ?_, fun _ u hu => ?_, fun _ u hu => ?_, hdefault⟩
      · cases quick with
        | true => exact ⟨t, hquick, htarget.1⟩
        | false => exact ⟨i, hsmooth, husable⟩
      · obtain rfl := Option.some.inj (hquick.symm.trans hu)
        exact htarget
      · obtain rfl := Option.some.inj (hsmooth.symm.trans hu)
        exact hiff.mpr hsfound

/-- A variant with or without segments. -/
def rung (bandwidth : Int) (segments : List KeyType) (isParsed : Bool) : Variant where
  bandwidth := bandwidth
  segStart := 0
  segments := segments
  segCur := 0
  finished := true
  firstSegNumber := 0
  isParsed := isParsed
  hasRead := false

/-- The second variant was not parsed yet; the first one is played. -/
def rungs : Nat → Variant
  | 0 => rung 10 [.none] true
  | 1 => rung 8 [] false
  | _ => rung 3 [.none] true

/-- What a network with some speed answers. -/
def speed (netBw : Nat) : Answer := { playing (-1) .data with netBw := netBw }

theorem typed_rungs {netBw : Nat} (h : netBw < 0x10000000000000000) :
    (start 3 rungs false false).Typed (speed netBw) := by
  have hrung : ∀ i, rungs i = rung 10 [.none] true ∨ rungs i = rung 8 [] false ∨ rungs i = rung 3 [.none] true := by
    intro i
    match i with
    | 0 => exact Or.inl rfl
    | 1 => exact Or.inr (Or.inl rfl)
    | n + 2 => exact Or.inr (Or.inr rfl)
  refine ⟨fun i => ?_, fun i => ?_, h⟩
  · show -0x80000000 ≤ (rungs i).bandwidth
    rcases hrung i with h | h | h <;> rw [h] <;> decide
  · show (rungs i).bandwidth < 0x80000000
    rcases hrung i with h | h | h <;> rw [h] <;> decide

/-- A fast network: the first variant stays. -/
theorem choice_right_fast : (start 3 rungs false false).Right (fun _ => true) false (speed 20) := by
  have hle : ∀ j, (start 3 rungs false false).bw j ≤ 10 := by
    intro j
    show (rungs j).bandwidth ≤ 10
    match j with
    | 0 => decide
    | 1 => decide
    | n + 2 =>
        show (3 : Int) ≤ 10
        decide
  have htarget : (start 3 rungs false false).IsTarget 20 0 :=
    ⟨⟨by decide, rfl⟩, Or.inl ⟨by decide, fun j _ _ => hle j⟩⟩
  refine (choice_right_iff _ _ _ _ (typed_rungs (by decide))).mpr ⟨fun _ =>
    ⟨Or.inl ⟨0, htarget, by decide, by decide⟩, ?_⟩, ?_⟩
  · intro t ht
    refine ⟨fun h => absurd rfl (h.1 0 (by decide)), fun _ hlt => ?_⟩
    rw [ht.bw_eq htarget] at hlt
    exact absurd hlt (by decide)
  · intro f _ _ hfirst _
    cases f with
    | zero => exact Or.inl ⟨by decide, rfl⟩
    | succ f => exact absurd (hfirst 0 (Nat.succ_pos f)) (by decide)

/-- **A step too far**: the network carries the second variant, which was not parsed yet, and the third one is
    chosen. -/
theorem unparsed_passed_over : ¬(start 3 rungs false false).Right (fun _ => true) false (speed 9) := by
  intro h
  have hone := h.oneStep (by unfold Appointed; decide) 2 (by decide)
  exact hone.1 1 ⟨by decide, rfl⟩ (by decide)

end HiSTB.Hls.ReadData.State
