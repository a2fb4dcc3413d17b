import HiSTB.Demux.Correctness.Scd
import Mathlib.Data.List.Chain

/-!
# `ScdTime` — the times of the index

* `adjustAll`, `run_times` — the times that a recording returns are made by `adjust`, one after the other;
* `elapsed`, `TimesRight` — the times as they should be;
* `Late`, `Countable` — the clocks for which they are;
* `Phase`, `adjustAll_phase` — how the times go on once the first one is set;
* `adjust_elapsed_iff`, `acquireRecIndex_times_iff` — the times are right for these clocks only.

The first frame is compared with its own time from the clock, and not with zero: unless that is zero, it is taken for
one behind a wrap, and every time is more than thirteen hours too late.
-/

namespace HiSTB.Demux.Scd

open Lib

variable {ρ φ π : Type} {cv : Converter ρ φ π} {x y : Sys ρ π} {evs fs : List (Event ρ)}

variable {ms c c' : U32}

/-! ## The times of a run -/

def Event.raw? : Event ρ → Option U32
  | .valid frame => some frame.dataTimeMs
  | _ => none

def Event.time? : Event ρ → Option U32
  | .returned (.success index) => some index.dataTimeMs
  | _ => none

/-- The times of the frames, as the clock has them. -/
def raws (evs : List (Event ρ)) : List U32 := evs.filterMap Event.raw?

/-- The times that were returned. -/
def times (evs : List (Event ρ)) : List U32 := evs.filterMap Event.time?

@[simp] theorem raws_append (es fs : List (Event ρ)) : raws (es ++ fs) = raws es ++ raws fs := List.filterMap_append

@[simp] theorem times_append (es fs : List (Event ρ)) : times (es ++ fs) = times es ++ times fs :=
  List.filterMap_append

/-- `adjust`, one after the other. -/
def adjustAll (r : RecInfo Unit) : List U32 → RecInfo Unit × List U32
  | [] => (r, [])
  | t :: ts => ((adjustAll (adjust r t).1 ts).1, (adjust r t).2 :: (adjustAll (adjust r t).1 ts).2)

/-- One more time. -/
theorem adjustAll_concat (r : RecInfo Unit) (ts : List U32) (t : U32) :
    adjustAll r (ts ++ [t]) =
      ((adjust (adjustAll r ts).1 t).1, (adjustAll r ts).2 ++ [(adjust (adjustAll r ts).1 t).2]) := by
  induction ts generalizing r with
  | nil => rfl
  | cons u ts ih => simp only [List.cons_append, adjustAll, ih]

/-- The time goes back: the clock has wrapped around. -/
theorem rebase_back {r : RecInfo π} (h : r.sinceFirst ms < r.prevFrameMs) :
    r.rebase ms = (r.setTimes (r.addUpMs + maxScrMs) (r.sinceFirst ms + maxScrMs), r.sinceFirst ms + maxScrMs) :=
  if_pos h

/-- The time goes on. -/
theorem rebase_on {r : RecInfo π} (h : ¬ r.sinceFirst ms < r.prevFrameMs) :
    r.rebase ms = (r.setTimes r.addUpMs (r.sinceFirst ms), r.sinceFirst ms) :=
  if_neg h

theorem setTimes_firstFrameMs (r : RecInfo π) (addUpMs prevFrameMs : U32) :
    (r.setTimes addUpMs prevFrameMs).firstFrameMs = r.firstFrameMs := rfl

theorem setTimes_plain (r : RecInfo π) (addUpMs prevFrameMs : U32) :
    (r.setTimes addUpMs prevFrameMs).plain = r.plain.setTimes addUpMs prevFrameMs := rfl

theorem setFirst_plain (r : RecInfo π) (ms : U32) : (r.setFirst ms).plain = r.plain.setFirst ms :=
  apply_ite RecInfo.plain _ _ _

theorem rebase_plain (r : RecInfo π) (ms : U32) :
    (r.rebase ms).1.plain = (r.plain.rebase ms).1 ∧ (r.rebase ms).2 = (r.plain.rebase ms).2 := by
  by_cases h : r.sinceFirst ms < r.prevFrameMs
  · have h' : r.plain.sinceFirst ms < r.plain.prevFrameMs := h
    rw [rebase_back h, rebase_back h']
    exact ⟨setTimes_plain _ _ _, rfl⟩
  · have h' : ¬ r.plain.sinceFirst ms < r.plain.prevFrameMs := h
    rw [rebase_on h, rebase_on h']
    exact ⟨setTimes_plain _ _ _, rfl⟩

/-- The conversion reads the times only. -/
theorem adjust_plain (r : RecInfo π) (ms : U32) :
    (adjust r ms).1.plain = (adjust r.plain ms).1 ∧ (adjust r ms).2 = (adjust r.plain ms).2 := by
  unfold adjust
  rw [← setFirst_plain]
  exact rebase_plain _ ms

/-- A block has one time converted, or none. -/
theorem takeBlock_times {jiffy : Nat} {b : Block ρ} {bs : List (Block ρ)}
    (h : takeBlock cv x jiffy b bs = some (y, fs)) :
    raws fs = [] ∧ times fs = [] ∧ y.recInfo.plain = x.recInfo.plain ∨
      ∃ t, raws fs = [t] ∧ times fs = [(adjust x.recInfo.plain t).2] ∧
        y.recInfo.plain = (adjust x.recInfo.plain t).1 := by
  have hof : (scLoop cv x.recInfo (b.from cv x.procsOffset)).Of x.recInfo (b.from cv x.procsOffset) := scLoop_of _ _
  unfold takeBlock at h
  generalize scLoop cv x.recInfo (b.from cv x.procsOffset) = l at h hof
  -- what the loop shows has no time in it
  have hquiet : ∀ (c : Prop) (_ : Decidable c),
      raws (l.taken.map Event.converted ++ if c then [.released b] else []) = [] ∧
        times (l.taken.map Event.converted ++ if c then [.released b] else []) = [] := by
    intro c _
    split <;> simp [raws, times, Event.raw?, Event.time?]
  obtain ⟨hraws, htimes⟩ := hquiet (x.procsOffset + l.taken.length * cv.recSize = b.dataLen) inferInstance
  dsimp only at h
  split at h
  · cases h
    exact .inl ⟨hraws, htimes, hof.plain⟩
  · rename_i frame _
    split at h
    · cases h
    · cases h
      have hadjust := adjust_plain l.recInfo frame.dataTimeMs
      rw [hof.plain] at hadjust
      refine .inr ⟨frame.dataTimeMs, ?_, ?_, hadjust.1⟩
      · rw [raws_append, hraws]
        rfl
      · rw [times_append, htimes, ← hadjust.2]
        rfl

theorem Silent.times {evs : List (Event ρ)} (h : Silent evs) : raws evs = [] ∧ times evs = [] := by
  rcases h with rfl | ⟨ret, rfl, hfailed⟩
  · exact ⟨rfl, rfl⟩
  · cases ret with
    | success index => exact absurd rfl (hfailed index)
    | notStartRecChan => exact ⟨rfl, rfl⟩
    | noAvailableData => exact ⟨rfl, rfl⟩
    | timeout => exact ⟨rfl, rfl⟩

/-- **Over a run** the times are those of `adjustAll`, whatever happens between the blocks. -/
theorem run_times {C : Sys ρ π → Input ρ → Prop} {x₀ : Sys ρ π} {is : List (Input ρ)}
    (run : Run (step cv) C x₀ is x evs) : adjustAll x₀.recInfo.plain (raws evs) = (x.recInfo.plain, times evs) := by
  refine run.inv_effects (fun _ x evs => adjustAll x₀.recInfo.plain (raws evs) = (x.recInfo.plain, times evs)) rfl ?_
  intro is x evs i y fs hx _ hstep
  rw [raws_append, times_append]
  have hnone : raws fs = [] ∧ times fs = [] ∧ y.recInfo.plain = x.recInfo.plain →
      adjustAll x₀.recInfo.plain (raws evs ++ raws fs) = (y.recInfo.plain, times evs ++ times fs) := by
    rintro ⟨hraws, htimes, hplain⟩
    rw [hraws, htimes, hplain, List.append_nil, List.append_nil, hx]
  rcases step_cases hstep with hstill | ⟨-, jiffy, b, bs, -, htake⟩
  · obtain ⟨hraws, htimes⟩ := hstill.silent.times
    exact hnone ⟨hraws, htimes, by rw [hstill.recInfo]⟩
  · rcases takeBlock_times htake with hsame | ⟨t, hraws, htimes, hplain⟩
    · exact hnone hsame
    · rw [hraws, htimes, adjustAll_concat, hx, hplain]

/-! ## The times as they should be -/

/-- A clock that is less than the one before it has wrapped. -/
def count (prev c : U32) (wraps : Nat) : Nat := if c < prev then wraps + 1 else wraps

/-- The milliseconds of the clocks behind `prev`, with all wraps so far counted. -/
def unwrap (prev : U32) (wraps : Nat) : List U32 → List Nat
  | [] => []
  | c :: cs => (c.toNat / 90 + count prev c wraps * 47721858) :: unwrap c (count prev c wraps) cs

/-- The milliseconds since the first clock. -/
def elapsed : List U32 → List Nat
  | [] => []
  | c :: cs => 0 :: (unwrap c 0 cs).map (· - c.toNat / 90)

/-- They start with zero, do not decrease, and are the elapsed times. -/
structure TimesRight (clks ts : List U32) : Prop where
  start : ∀ t ∈ ts.head?, t = 0
  mono : ts.IsChain (· ≤ ·)
  elapsed : ts.map BitVec.toNat = elapsed clks

/-- A clock that wraps does not come back to the same millisecond. -/
def Wraps (c c' : U32) : Prop := c' < c → c'.toNat / 90 < c.toNat / 90

/-- Nothing but zero up to the last millisecond before a wrap. -/
def Late : List U32 → Prop
  | [] => True
  | c :: cs => c.toNat / 90 = 0 ∧ Late cs ∨ c.toNat / 90 = 47721858

/-- The clocks for which the times are right: the first one is zero and so are the next ones, up to the last millisecond
    before a wrap; no wrap is within a millisecond; and the times fit into 32 bits. -/
structure Countable (clks : List U32) : Prop where
  first : ∀ c ∈ clks.head?, c.toNat / 90 = 0
  late : Late clks.tail
  wraps : clks.IsChain Wraps
  small : ∀ e ∈ elapsed clks, e < 0x100000000

/-- Times that are unwrapped do not go back. -/
theorem unwrap_mono (c : U32) (wraps : Nat) (cs : List U32) :
    ((c.toNat / 90 + wraps * 47721858) :: unwrap c wraps cs).IsChain (· ≤ ·) := by
  induction cs generalizing c wraps with
  | nil => exact .singleton _
  | cons c' cs ih =>
    refine List.isChain_cons_cons.mpr ⟨?_, ih c' _⟩
    have := c.isLt
    by_cases hwrap : c' < c
    · rw [count, if_pos hwrap]
      omega
    · rw [count, if_neg hwrap]
      rw [BitVec.not_lt, BitVec.le_def] at hwrap
      omega

/-! ## Which clocks have them -/

/-- Behind the first index that is not zero, after `wraps` wraps and with the time `p` before. -/
structure Phase (r : RecInfo Unit) (wraps p : Nat) : Prop where
  firstFrameMs : r.firstFrameMs = maxScrMs
  addUpMs : r.addUpMs = BitVec.ofNat 32 ((wraps + 1) * 47721858)
  prevFrameMs : r.prevFrameMs.toNat = p

/-- Before it. -/
structure Fresh (r : RecInfo Unit) : Prop where
  firstFrameMs : r.firstFrameMs = 0
  addUpMs : r.addUpMs = 0

variable {r : RecInfo Unit} {wraps p : Nat} {t : U32}

theorem toNat_maxScrMs : maxScrMs.toNat = 47721858 := rfl

/-- Behind it, the first time stays. -/
theorem Phase.adjust (hr : Phase r wraps p) : adjust r t = r.rebase t := by
  have hne : ¬ r.firstFrameMs = 0 := by
    rw [hr.firstFrameMs]
    decide
  unfold Scd.adjust RecInfo.setFirst
  rw [if_neg hne]

/-- The time since the first one, as it is counted. -/
theorem Phase.sinceFirst (hr : Phase r wraps p) :
    (r.sinceFirst t).toNat = (t.toNat + wraps * 47721858) % 0x100000000 := by
  rw [RecInfo.sinceFirst, BitVec.toNat_add, BitVec.toNat_sub, hr.firstFrameMs, hr.addUpMs, BitVec.toNat_ofNat,
    toNat_maxScrMs]
  omega

/-- A time that goes on. -/
theorem Phase.on (hr : Phase r wraps p) (hp : p ≤ t.toNat + wraps * 47721858)
    (hlt : t.toNat + wraps * 47721858 < 0x100000000) :
    (Scd.adjust r t).2.toNat = t.toNat + wraps * 47721858 ∧
      Phase (Scd.adjust r t).1 wraps (t.toNat + wraps * 47721858) := by
  have hsince : (r.sinceFirst t).toNat = t.toNat + wraps * 47721858 := hr.sinceFirst.trans (Nat.mod_eq_of_lt hlt)
  have hback : ¬ r.sinceFirst t < r.prevFrameMs := by
    rw [BitVec.lt_def, hsince, hr.prevFrameMs]
    exact Nat.not_lt.mpr hp
  rw [hr.adjust, rebase_on hback]
  exact ⟨hsince, (setTimes_firstFrameMs r _ _).trans hr.firstFrameMs, hr.addUpMs, hsince⟩

/-- A time that seems to go back. -/
theorem Phase.back (hr : Phase r wraps p) (hp : t.toNat + wraps * 47721858 < p)
    (hlt : t.toNat + (wraps + 1) * 47721858 < 0x100000000) :
    (Scd.adjust r t).2.toNat = t.toNat + (wraps + 1) * 47721858 ∧
      Phase (Scd.adjust r t).1 (wraps + 1) (t.toNat + (wraps + 1) * 47721858) := by
  have hlt' : t.toNat + wraps * 47721858 < 0x100000000 := by
    rw [Nat.succ_mul, ← Nat.add_assoc] at hlt
    exact Nat.lt_of_le_of_lt (Nat.le_add_right _ _) hlt
  have hsince : (r.sinceFirst t).toNat = t.toNat + wraps * 47721858 := hr.sinceFirst.trans (Nat.mod_eq_of_lt hlt')
  have hback : r.sinceFirst t < r.prevFrameMs := by
    rw [BitVec.lt_def, hsince, hr.prevFrameMs]
    exact hp
  have htime : (r.sinceFirst t + maxScrMs).toNat = t.toNat + (wraps + 1) * 47721858 := by
    rw [BitVec.toNat_add, hsince, toNat_maxScrMs]
    omega
  have haddUp : r.addUpMs + maxScrMs = BitVec.ofNat 32 ((wraps + 1 + 1) * 47721858) := by
    rw [hr.addUpMs, Nat.add_mul (wraps + 1) 1, Nat.one_mul, BitVec.ofNat_add]
    rfl
  rw [hr.adjust, rebase_back hback]
  exact ⟨htime, (setTimes_firstFrameMs r _ _).trans hr.firstFrameMs, haddUp, htime⟩

theorem toNat_clk (c : U32) : (c / 90).toNat = c.toNat / 90 := BitVec.toNat_udiv

/-- The next clock, if it wraps as it should and its time fits. -/
theorem Phase.next (hr : Phase r wraps (c.toNat / 90 + wraps * 47721858)) (hwraps : Wraps c c')
    (hlt : c'.toNat / 90 + count c c' wraps * 47721858 < 0x100000000) :
    (Scd.adjust r (c' / 90)).2.toNat = c'.toNat / 90 + count c c' wraps * 47721858 ∧
      Phase (Scd.adjust r (c' / 90)).1 (count c c' wraps) (c'.toNat / 90 + count c c' wraps * 47721858) := by
  rw [← toNat_clk c'] at hlt ⊢
  by_cases hwrap : c' < c
  · rw [count, if_pos hwrap] at hlt ⊢
    refine hr.back ?_ hlt
    rw [toNat_clk]
    exact Nat.add_lt_add_right (hwraps hwrap) _
  · rw [count, if_neg hwrap] at hlt ⊢
    refine hr.on ?_ hlt
    rw [toNat_clk]
    exact Nat.add_le_add_right (Nat.div_le_div_right (BitVec.le_def.mp (BitVec.not_lt.mp hwrap))) _

/-- The next time is right in these cases only. -/
theorem Phase.next_of_eq (hr : Phase r wraps (c.toNat / 90 + wraps * 47721858))
    (heq : (Scd.adjust r (c' / 90)).2.toNat = c'.toNat / 90 + count c c' wraps * 47721858) :
    Wraps c c' ∧ c'.toNat / 90 + count c c' wraps * 47721858 < 0x100000000 := by
  have hlt := heq ▸ (Scd.adjust r (c' / 90)).2.isLt
  refine ⟨fun hwrap => ?_, hlt⟩
  by_contra hsame
  rw [count, if_pos hwrap, Nat.succ_mul, ← Nat.add_assoc] at heq hlt
  -- the time did not go back, so that no wrap is counted
  have hon := hr.on (t := c' / 90)
  rw [toNat_clk] at hon
  have htime := (hon (Nat.add_le_add_right (Nat.not_lt.mp hsame) _) (Nat.lt_of_le_of_lt (Nat.le_add_right _ _) hlt)).1
  rw [htime] at heq
  exact absurd heq (Nat.ne_of_lt (Nat.lt_add_of_pos_right (by decide)))

/-- Behind it the times are right if no wrap is within a millisecond, and they fit into 32 bits. -/
theorem adjustAll_phase (hr : Phase r wraps (c.toNat / 90 + wraps * 47721858)) (cs : List U32) :
    (adjustAll r (cs.map (· / 90))).2.map BitVec.toNat = unwrap c wraps cs ↔
      (c :: cs).IsChain Wraps ∧ ∀ e ∈ unwrap c wraps cs, e < 0x100000000 := by
  induction cs generalizing r wraps c with
  | nil => simp [adjustAll, unwrap]
  | cons c' cs ih =>
    rw [List.map_cons, adjustAll, unwrap, List.map_cons, List.cons.injEq, List.isChain_cons_cons, List.forall_mem_cons]
    constructor
    · rintro ⟨hhead, htail⟩
      obtain ⟨hwraps, hlt⟩ := hr.next_of_eq hhead
      obtain ⟨hchain, hsmall⟩ := (ih (hr.next hwraps hlt).2).mp htail
      exact ⟨⟨hwraps, hchain⟩, hlt, hsmall⟩
    · rintro ⟨⟨hwraps, hchain⟩, hlt, hsmall⟩
      obtain ⟨hhead, hphase⟩ := hr.next hwraps hlt
      exact ⟨hhead, (ih hphase).mpr ⟨hchain, hsmall⟩⟩

theorem Fresh.adjust (hr : Fresh r) :
    Scd.adjust r t = RecInfo.rebase { r with firstFrameMs := t, prevFrameMs := t } t := by
  unfold Scd.adjust RecInfo.setFirst
  rw [if_pos hr.firstFrameMs]

theorem Fresh.sinceFirst (hr : Fresh r) :
    RecInfo.sinceFirst { r with firstFrameMs := t, prevFrameMs := t } t = 0 := by
  rw [RecInfo.sinceFirst, hr.addUpMs]
  exact (congrArg (t + ·) (BitVec.zero_sub t)).trans (BitVec.add_right_neg t)

/-- A zero leaves the next one first. -/
theorem Fresh.zero (hr : Fresh r) (ht : t = 0) :
    (Scd.adjust r t).2.toNat = 0 ∧ Fresh (Scd.adjust r t).1 := by
  have hback : ¬ RecInfo.sinceFirst { r with firstFrameMs := t, prevFrameMs := t } t < t := by
    rw [hr.sinceFirst, ht]
    exact Nat.lt_irrefl _
  rw [hr.adjust, rebase_on hback, hr.sinceFirst]
  exact ⟨rfl, (setTimes_firstFrameMs _ _ _).trans ht, hr.addUpMs⟩

/-- **The first index that is not zero** comes out as a whole round of the clock. -/
theorem Fresh.pos (hr : Fresh r) (ht : t ≠ 0) :
    (Scd.adjust r t).2 = maxScrMs ∧ (t = maxScrMs → Phase (Scd.adjust r t).1 0 47721858) := by
  have hback : RecInfo.sinceFirst { r with firstFrameMs := t, prevFrameMs := t } t < t := by
    rw [hr.sinceFirst]
    exact Nat.pos_of_ne_zero (fun h => ht (BitVec.eq_of_toNat_eq h))
  have hmax : (0 : U32) + maxScrMs = maxScrMs := BitVec.zero_add _
  rw [hr.adjust, rebase_back hback, hr.sinceFirst, hr.addUpMs, hmax]
  exact ⟨rfl, fun heq => ⟨(setTimes_firstFrameMs _ _ _).trans heq, rfl, rfl⟩⟩

theorem toNat_clk_zero (h : c.toNat / 90 = 0) : c / 90 = 0 := BitVec.eq_of_toNat_eq ((toNat_clk c).trans h)

theorem toNat_clk_max (h : c.toNat / 90 = 47721858) : c / 90 = maxScrMs :=
  BitVec.eq_of_toNat_eq ((toNat_clk c).trans h)

theorem toNat_clk_ne (h : c.toNat / 90 ≠ 0) : c / 90 ≠ 0 := fun h0 =>
  h ((toNat_clk c).symm.trans (congrArg BitVec.toNat h0))

/-- From a first clock at zero on. -/
theorem adjustAll_fresh (hr : Fresh r) (hc : c.toNat / 90 = 0) (cs : List U32) :
    (adjustAll r (cs.map (· / 90))).2.map BitVec.toNat = unwrap c 0 cs ↔
      Late cs ∧ (c :: cs).IsChain Wraps ∧ ∀ e ∈ unwrap c 0 cs, e < 0x100000000 := by
  induction cs generalizing r c with
  | nil => simp [adjustAll, unwrap, Late]
  | cons c' cs ih =>
    rw [List.map_cons, adjustAll, unwrap, List.map_cons, List.cons.injEq, List.isChain_cons_cons,
      List.forall_mem_cons, Late]
    by_cases hc' : c'.toNat / 90 = 0
    · obtain ⟨htime, hfresh⟩ := hr.zero (toNat_clk_zero hc')
      rw [htime, hc']
      by_cases hwrap : c' < c
      · -- a wrap within the first millisecond is not seen
        have hno : ¬ Wraps c c' := fun h => by
          have := h hwrap
          omega
        rw [count, if_pos hwrap]
        constructor
        · rintro ⟨hhead, -⟩
          cases hhead
        · rintro ⟨-, ⟨hwraps, -⟩, -⟩
          exact absurd hwraps hno
      · have hwraps : Wraps c c' := fun h => absurd h hwrap
        rw [count, if_neg hwrap, ih hfresh hc']
        constructor
        · rintro ⟨-, hlate, hchain, hsmall⟩
          exact ⟨.inl ⟨rfl, hlate⟩, ⟨hwraps, hchain⟩, by decide, hsmall⟩
        · rintro ⟨⟨-, hlate⟩ | hmax, ⟨-, hchain⟩, -, hsmall⟩
          · exact ⟨rfl, hlate, hchain, hsmall⟩
          · cases hmax
    · obtain ⟨htime, hphase⟩ := hr.pos (toNat_clk_ne hc')
      have hwrap : ¬ c' < c := fun h => hc' (by
        have := Nat.div_le_div_right (c := 90) (Nat.le_of_lt (BitVec.lt_def.mp h))
        omega)
      have hwraps : Wraps c c' := fun h => absurd h hwrap
      rw [htime, toNat_maxScrMs, count, if_neg hwrap, Nat.zero_mul, Nat.add_zero]
      by_cases hmax : c'.toNat / 90 = 47721858
      · have hphase : Phase (Scd.adjust r (c' / 90)).1 0 (c'.toNat / 90 + 0 * 47721858) := by
          rw [hmax, Nat.zero_mul, Nat.add_zero]
          exact hphase (toNat_clk_max hmax)
        rw [adjustAll_phase hphase]
        constructor
        · rintro ⟨-, hchain, hsmall⟩
          exact ⟨.inr hmax, ⟨hwraps, hchain⟩, by rw [hmax]; decide, hsmall⟩
        · rintro ⟨-, ⟨-, hchain⟩, -, hsmall⟩
          exact ⟨hmax.symm, hchain, hsmall⟩
      · constructor
        · rintro ⟨hhead, -⟩
          exact absurd hhead.symm hmax
        · rintro ⟨hlate, -⟩
          exact absurd hlate (by rintro (⟨h, -⟩ | h) <;> contradiction)

/-- Time elapsed since a first clock at zero. -/
theorem elapsed_zero (hc : c.toNat / 90 = 0) (cs : List U32) : elapsed (c :: cs) = 0 :: unwrap c 0 cs := by
  rw [elapsed, hc]
  simp

/-- **The conversion is right** for the clocks that are countable, and for no others. -/
theorem adjust_elapsed_iff (hr : Fresh r) (clks : List U32) :
    (adjustAll r (clks.map (· / 90))).2.map BitVec.toNat = elapsed clks ↔ Countable clks := by
  cases clks with
  | nil => exact iff_of_true rfl ⟨nofun, trivial, .nil, nofun⟩
  | cons c cs =>
    rw [List.map_cons, adjustAll, List.map_cons]
    by_cases hc : c.toNat / 90 = 0
    · obtain ⟨htime, hfresh⟩ := hr.zero (toNat_clk_zero hc)
      rw [htime, elapsed_zero hc, List.cons.injEq, adjustAll_fresh hfresh hc]
      constructor
      · rintro ⟨-, hlate, hchain, hsmall⟩
        refine ⟨?_, hlate, hchain, ?_⟩
        · rintro c' ⟨⟩
          exact hc
        · rw [elapsed_zero hc, List.forall_mem_cons]
          exact ⟨by decide, hsmall⟩
      · rintro ⟨-, hlate, hchain, hsmall⟩
        rw [elapsed_zero hc, List.forall_mem_cons] at hsmall
        exact ⟨rfl, hlate, hchain, hsmall.2⟩
    · -- the first index has the time of a whole wrap
      rw [(hr.pos (toNat_clk_ne hc)).1, elapsed, List.cons.injEq]
      refine iff_of_false (fun h => ?_) (fun h => hc (h.first c rfl))
      exact absurd h.1 (by rw [toNat_maxScrMs]; decide)

/-- The time elapsed does not go back. -/
theorem elapsed_mono (clks : List U32) : (elapsed clks).IsChain (· ≤ ·) := by
  cases clks with
  | nil => exact .nil
  | cons c cs =>
    have hchain := unwrap_mono c 0 cs
    have hmap := List.isChain_map_of_isChain (· - c.toNat / 90)
      (fun a b (hab : a ≤ b) => Nat.sub_le_sub_right hab _) hchain
    rw [List.map_cons, Nat.zero_mul, Nat.add_zero, Nat.sub_self] at hmap
    exact hmap

theorem timesRight_iff {clks ts : List U32} : TimesRight clks ts ↔ ts.map BitVec.toNat = elapsed clks := by
  refine ⟨TimesRight.elapsed, fun h => ⟨?_, ?_, h⟩⟩
  · intro t ht
    cases ts with
    | nil => cases ht
    | cons u ts =>
      cases ht
      cases clks with
      | nil => cases h
      | cons c cs =>
        injection h with h0 _
        exact BitVec.eq_of_toNat_eq h0
  · have hchain := elapsed_mono clks
    rw [← h, List.isChain_map] at hchain
    exact hchain.imp (fun _ _ hab => BitVec.le_def.mpr hab)

/-- The times that a recording returns are the elapsed ones exactly if the clocks of its frames are `Countable`. -/
theorem acquireRecIndex_times_iff {indexType : IndexType} {useTimeStamp : Bool} {picParser : π} {prevFrameMs : U32}
    {is : List (Input ρ)} {clks : List U32}
    (run : Run (step cv) always (start indexType useTimeStamp picParser prevFrameMs) is x evs)
    (hclks : raws evs = clks.map (· / 90)) : TimesRight clks (times evs) ↔ Countable clks := by
  have htimes := run_times run
  rw [hclks] at htimes
  have hfresh : Fresh (start (ρ := ρ) indexType useTimeStamp picParser prevFrameMs).recInfo.plain := ⟨rfl, rfl⟩
  rw [timesRight_iff, ← adjust_elapsed_iff hfresh, htimes]

/-- A recording that starts with the clock, has one frame more before the wrap, and one behind it. -/
theorem acquireRecIndex_times_wrap : ∃ (is : List (Input U32)) (x : Sys U32 Unit) (evs : List (Event U32)),
    Run (step sample) always (start .video false () 0) is x evs ∧ times evs = [0, 47721858, 47721863] ∧
      TimesRight [0, 4294967220, 450] (times evs) := by
  obtain ⟨x, evs, hrun, htest⟩ := exists_run_of_exec (step sample) always (start .video false () 0)
    [.append (sampleBlock [0, 47721858, 5] (by decide)), .acquire 0, .pass, .acquire 0, .pass, .acquire 0, .pass]
    (fun r => decide (raws r.2 = [0, 47721858, 5] ∧ times r.2 = [0, 47721858, 47721863])) (by decide)
  rw [decide_eq_true_iff] at htest
  obtain ⟨hraws, htimes⟩ := htest
  have hclks : raws evs = ([0, 4294967220, 450] : List U32).map (· / 90) := hraws
  refine ⟨_, x, evs, hrun, htimes, (acquireRecIndex_times_iff hrun hclks).mpr ?_⟩
  refine ⟨?_, .inr (by decide), ?_, by decide⟩
  · rintro c ⟨⟩
    rfl
  · simp [Wraps]

/-- A recording whose first index comes after a second of the clock. -/
theorem acquireRecIndex_times_off : ¬ ∀ (is : List (Input U32)) (x : Sys U32 Unit) (evs : List (Event U32))
    (clks : List U32), Run (step sample) always (start .video false () 0) is x evs → raws evs = clks.map (· / 90) →
      TimesRight clks (times evs) := by
  intro hall
  obtain ⟨x, evs, hrun, htest⟩ := exists_run_of_exec (step sample) always (start .video false () 0)
    [.append (sampleBlock [1000, 1040] (by decide)), .acquire 0, .pass, .acquire 0, .pass]
    (fun r => decide (raws r.2 = [1000, 1040] ∧ times r.2 = [47721858, 47721898])) (by decide)
  rw [decide_eq_true_iff] at htest
  obtain ⟨hraws, htimes⟩ := htest
  have hstart := (hall _ x evs [90000, 93600] hrun hraws).start
  rw [htimes] at hstart
  exact absurd (hstart _ rfl) (by decide)

end HiSTB.Demux.Scd
