import HiSTB.Frc.Correctness.Rate

/-!
# `Frc.Correctness.Recover` — after a change of the rates

A change of the rates leaves `CurID` and the counter as they are. The next mark is waited for at most one cycle, and
from there on the frames that are inserted or dropped are at the marks again; but a `CurID` above the number of marks
has no place in the cycle, and is waited for forever. The counter has 32 bits: where a cycle does not divide `2 ^ 32`,
the last cycle before the counter wraps is cut off, each time.

* `later` — the converter after so many frames at constant rates; `hits` — how many were inserted or dropped;
* `Synced` — `CurID` is the number of the next mark; `synced_later`, `exists_synced` — how it stays so, and gets so;
* `hits_stuck`, `hits_cut` — where it does not;
* `recovers_iff` — the exact condition.
-/

namespace HiSTB.Frc

open Lib Lib.Marks

variable {f : FrcS} {i o : U32} {m n : Nat}

/-! ## Frames at constant rates -/

/-- The converter after `n` frames. -/
def later (i o : U32) (f : FrcS) : Nat → FrcS
  | 0 => f
  | n + 1 => ((later i o f n).calculate i o).1

/-- How often `n` frames are played, all in all. -/
def total (i o : U32) (f : FrcS) : Nat → Nat
  | 0 => 0
  | n + 1 => total i o f n + ((later i o f n).calculate i o).2.toNat

/-- How many of `n` frames are inserted or dropped. -/
def hits (i o : U32) (f : FrcS) : Nat → Nat
  | 0 => 0
  | n + 1 => hits i o f n + ((later i o f n).hit i o).toNat

theorem later_add (m n : Nat) : later i o (later i o f m) n = later i o f (m + n) := by
  induction n with
  | zero => rfl
  | succ n ih => rw [later, ih, Nat.add_succ, later]

theorem calculate_inputCount : (f.calculate i o).1.inputCount.toNat = (f.inputCount.toNat + 1) % 2 ^ 32 := by
  rw [calculate_fst, BitVec.toNat_add]
  rfl

theorem later_inputCount (n : Nat) : (later i o f n).inputCount.toNat = (f.inputCount.toNat + n) % 2 ^ 32 := by
  induction n with
  | zero => exact (Nat.mod_eq_of_lt f.inputCount.isLt).symm
  | succ n ih => rw [later, calculate_inputCount, ih, Nat.mod_add_mod, Nat.add_assoc]

theorem total_eq (hi : i ≠ 0) (ho : o ≠ 0) :
    if i < o then total i o f n = n * (o.toNat / i.toNat) + hits i o f n else total i o f n + hits i o f n = n := by
  induction n with
  | zero => simp [total, hits]
  | succ n ih =>
    have hval := calculate_val (f := later i o f n) hi ho
    rw [total, hits]
    split_ifs at hval ih ⊢
    · rw [ih, hval, Nat.succ_mul]
      omega
    · omega

/-- Frames of a cycle are played as often as they are to be if and only if as many are inserted or dropped as there are
    marks. -/
theorem total_cycle_iff (hi : i ≠ 0) (ho : o ≠ 0) :
    total i o f i.toNat = o.toNat ↔ hits i o f i.toNat = (remder i o).toNat := by
  have hsum := total_eq (f := f) (n := i.toNat) hi ho
  split_ifs at hsum with hio
  · have hr : (remder i o).toNat = o.toNat % i.toNat := by
      rw [remder, if_pos hio, BitVec.toNat_umod]
    have hdiv := Nat.div_add_mod o.toNat i.toNat
    omega
  · have hle := BitVec.not_lt.mp hio
    have hr : (remder i o).toNat = i.toNat - o.toNat := by
      rw [remder, if_neg hio, BitVec.toNat_sub_of_le hle]
    rw [BitVec.le_def] at hle
    omega

/-! ## The next mark -/

theorem remder_pos (hr : remder i o ≠ 0) : 0 < (remder i o).toNat :=
  Nat.pos_iff_ne_zero.mpr (fun h => hr (BitVec.eq_of_toNat_eq h))

theorem hit_iff (hi : i ≠ 0) (hr : remder i o ≠ 0) :
    f.hit i o = true ↔ mark i.toNat (remder i o).toNat f.curID.toNat = f.inputCount.toNat % i.toNat + 1 := by
  rw [← isTurn_iff hi]
  unfold FrcS.hit FrcS.turn
  rw [if_neg hr]
  cases f.isTurn i (remder i o) <;> simp

theorem calculate_curID : (f.calculate i o).1.curID = if f.hit i o then nextID f.curID (remder i o) else f.curID := by
  rw [calculate_fst]
  unfold FrcS.hit FrcS.turn
  split_ifs <;> simp_all

/-- **A position that is hit** is one of the marks, and the next one is that behind it. -/
theorem hit_spec (hi : i ≠ 0) (ho : o ≠ 0) (h : f.hit i o = true) :
    1 ≤ f.curID.toNat ∧ f.curID.toNat ≤ (remder i o).toNat ∧
      (f.calculate i o).1.curID.toNat = f.curID.toNat % (remder i o).toNat + 1 := by
  have hr := hit_ne h
  have hpos := remder_pos hr
  have hlt := remder_lt hi ho
  have hilt := i.isLt
  have hmark := (hit_iff hi hr).mp h
  have hmod := Nat.mod_lt f.inputCount.toNat (show 0 < i.toNat by omega)
  have hone : 1 ≤ f.curID.toNat := by
    rcases Nat.eq_zero_or_pos f.curID.toNat with hz | hz
    · rw [hz, mark_zero] at hmark
      omega
    · exact hz
  have hle : f.curID.toNat ≤ (remder i o).toNat := by
    have hin : mark i.toNat (remder i o).toNat f.curID.toNat ≤ mark i.toNat (remder i o).toNat (remder i o).toNat := by
      rw [mark_end hpos]
      omega
    rwa [mark_le_iff hpos (by omega), marked_mark hpos (by omega)] at hin
  refine ⟨hone, hle, ?_⟩
  have hcur : f.curID.toNat = (f.curID.toNat - 1) % (remder i o).toNat + 1 := by
    rw [Nat.mod_eq_of_lt (by omega)]
    omega
  rw [calculate_curID, if_pos h, nextID_toNat hpos (by omega) hcur, Nat.sub_add_cancel hone]

theorem hits_none (hr : remder i o = 0) (n : Nat) : hits i o f n = 0 := by
  induction n with
  | zero => rfl
  | succ n ih => rw [hits, ih, eq_false_of_ne_true (fun h => hit_ne h hr), Bool.toNat_false]

/-- A position above the number of marks stays, and is never hit. -/
theorem later_stuck (hi : i ≠ 0) (ho : o ≠ 0) (hgt : (remder i o).toNat < f.curID.toNat) (n : Nat) :
    (later i o f n).curID = f.curID ∧ hits i o f n = 0 := by
  induction n with
  | zero => exact ⟨rfl, rfl⟩
  | succ n ih =>
    have hno : (later i o f n).hit i o = false := by
      refine eq_false_of_ne_true (fun h => ?_)
      have hle := (hit_spec hi ho h).2.1
      rw [ih.1] at hle
      omega
    rw [later, hits, calculate_curID, hno, ih.2]
    exact ⟨ih.1, rfl⟩

/-- **A cycle that is cut off.** Where the end of the cycle is not met, a mark is missed. -/
theorem hits_cut (hi : i ≠ 0) (ho : o ≠ 0) (hr : remder i o ≠ 0)
    (hcut : ∀ k < n, (later i o f k).inputCount.toNat % i.toNat + 1 ≠ i.toNat) : hits i o f n < (remder i o).toNat := by
  have hpos := remder_pos hr
  -- the positions go up from the first one, and stay among the marks
  have hup : (later i o f n).curID.toNat = f.curID.toNat + hits i o f n ∧
      (0 < hits i o f n → 1 ≤ f.curID.toNat ∧ (later i o f n).curID.toNat ≤ (remder i o).toNat) := by
    induction n with
    | zero => exact ⟨rfl, fun h => absurd h (Nat.lt_irrefl 0)⟩
    | succ n ih =>
      obtain ⟨hsum, hmarks⟩ := ih (fun k hk => hcut k (by omega))
      rw [later, hits]
      by_cases hhit : (later i o f n).hit i o = true
      · obtain ⟨hone, hle, hnext⟩ := hit_spec hi ho hhit
        have hmark := (hit_iff hi hr).mp hhit
        have hlast : (later i o f n).curID.toNat ≠ (remder i o).toNat := by
          intro heq
          rw [heq, mark_end hpos] at hmark
          exact hcut n (Nat.lt_succ_self n) hmark.symm
        rw [Nat.mod_eq_of_lt (by omega)] at hnext
        rw [hnext, hhit]
        refine ⟨?_, fun _ => ⟨?_, by omega⟩⟩
        · show _ = _ + (_ + 1)
          omega
        · rcases Nat.eq_zero_or_pos (hits i o f n) with hz | hz
          · omega
          · exact (hmarks hz).1
      · rw [calculate_curID, if_neg hhit, eq_false_of_ne_true hhit]
        exact ⟨hsum, hmarks⟩
  obtain ⟨hsum, hmarks⟩ := hup
  rcases Nat.eq_zero_or_pos (hits i o f n) with hz | hz
  · omega
  · have hbound := hmarks hz
    omega

/-! ## In step with the marks -/

/-- `CurID` is the number of the mark that follows the place `n`, where the counter is, up to whole cycles. -/
structure Synced (i o : U32) (f : FrcS) (n : Nat) : Prop where
  count : f.inputCount.toNat % i.toNat = n % i.toNat
  cur : remder i o ≠ 0 → f.curID.toNat = marked i.toNat (remder i o).toNat n % (remder i o).toNat + 1

/-- The counter goes one place up in the cycle: it does not wrap, or wraps at the end of a cycle. -/
def Counts (i : U32) (f : FrcS) (n : Nat) : Prop := f.inputCount.toNat + n < 2 ^ 32 ∨ i.toNat ∣ 2 ^ 32

theorem Counts.later_inputCount (h : Counts i f n) :
    (later i o f n).inputCount.toNat % i.toNat = (f.inputCount.toNat + n) % i.toNat := by
  rw [Frc.later_inputCount]
  rcases h with hlt | hdvd
  · rw [Nat.mod_eq_of_lt hlt]
  · exact Nat.mod_mod_of_dvd _ hdvd

theorem Counts.of_le (h : Counts i f n) (hm : m ≤ n) : Counts i f m := h.imp (fun hlt => by omega) id

/-- **One frame more.** -/
theorem Synced.calculate (hi : i ≠ 0) (ho : o ≠ 0) (h : Synced i o f n) (hc : Counts i f 1) :
    Synced i o (f.calculate i o).1 (n + 1) ∧
      marked i.toNat (remder i o).toNat (n + 1) = marked i.toNat (remder i o).toNat n + (f.hit i o).toNat := by
  obtain ⟨hsucc, hcur, -⟩ := turn_mark hi (remder_lt hi ho) h.count h.cur
  refine ⟨⟨?_, ?_⟩, ?_⟩
  · have hcount := hc.later_inputCount (o := o)
    rw [later, later] at hcount
    rw [hcount, Nat.add_mod, h.count, ← Nat.add_mod]
  · rw [calculate_fst]
    exact hcur
  · rw [hsucc]
    unfold FrcS.hit
    cases (f.turn i (remder i o)).1 <;> rfl

theorem Synced.later (hi : i ≠ 0) (ho : o ≠ 0) (h : Synced i o f n) (hc : Counts i f m) :
    Synced i o (later i o f m) (n + m) ∧
      marked i.toNat (remder i o).toNat (n + m) = marked i.toNat (remder i o).toNat n + hits i o f m := by
  induction m with
  | zero => exact ⟨h, rfl⟩
  | succ m ih =>
    obtain ⟨hsync, hsum⟩ := ih (hc.of_le (Nat.le_succ m))
    have hone : Counts i (Frc.later i o f m) 1 := by
      refine hc.imp (fun hlt => ?_) id
      rw [Frc.later_inputCount, Nat.mod_eq_of_lt (by omega)]
      omega
    obtain ⟨hnext, hmore⟩ := hsync.calculate hi ho hone
    refine ⟨hnext, ?_⟩
    rw [hits, ← Nat.add_assoc, hmore, hsum, Nat.add_assoc]

/-- **A cycle in step** has all the marks. -/
theorem Synced.hits_cycle (hi : i ≠ 0) (ho : o ≠ 0) (h : Synced i o f n) (hc : Counts i f i.toNat) :
    hits i o f i.toNat = (remder i o).toNat := by
  have hlt := remder_lt hi ho
  have hsum := (h.later hi ho hc).2
  have hcycle := @marked_cycle i.toNat (remder i o).toNat n (by omega) 1
  rw [Nat.mul_one, Nat.mul_one] at hcycle
  omega

theorem synced_of_remder (hr : remder i o = 0) : Synced i o f f.inputCount.toNat := ⟨rfl, fun hne => absurd hr hne⟩

/-- **Behind a mark that is hit** the converter is in step. -/
theorem synced_of_hit (hi : i ≠ 0) (ho : o ≠ 0) (h : f.hit i o = true) (hc : Counts i f 1) :
    Synced i o (f.calculate i o).1 (mark i.toNat (remder i o).toNat f.curID.toNat) := by
  have hr := hit_ne h
  have hlt := remder_lt hi ho
  have hcount := hc.later_inputCount (o := o)
  rw [Frc.later, Frc.later] at hcount
  refine ⟨?_, fun _ => ?_⟩
  · rw [hcount, (hit_iff hi hr).mp h, Nat.mod_add_mod]
  · rw [(hit_spec hi ho h).2.2, marked_mark (remder_pos hr) (by omega)]

/-- **Within a cycle** the mark that is waited for is hit. -/
theorem exists_hit (hi : i ≠ 0) (ho : o ≠ 0) (hr : remder i o ≠ 0) (hone : 1 ≤ f.curID.toNat)
    (hle : f.curID.toNat ≤ (remder i o).toNat) (hc : Counts i f i.toNat) :
    ∃ n < i.toNat, (later i o f n).hit i o = true := by
  have hpos := remder_pos hr
  have hlt := remder_lt hi ho
  by_contra hnone
  push Not at hnone
  have hsame : ∀ n ≤ i.toNat, (later i o f n).curID = f.curID := by
    intro n hn
    induction n with
    | zero => rfl
    | succ n ih => rw [later, calculate_curID, if_neg (hnone n (by omega)), ih (by omega)]
  -- the place of the mark
  have hlow : 0 < mark i.toNat (remder i o).toNat f.curID.toNat := by
    rw [← Nat.not_le, mark_le_iff hpos (by omega), marked_zero hpos (by omega)]
    omega
  have hhigh : mark i.toNat (remder i o).toNat f.curID.toNat ≤ i.toNat := by
    rw [mark_le_iff hpos (by omega)]
    have hend := @marked_mark i.toNat (remder i o).toNat (remder i o).toNat hpos (by omega)
    rw [mark_end hpos] at hend
    omega
  have hp := Nat.mod_lt f.inputCount.toNat (show 0 < i.toNat by omega)
  -- the frame that is there
  obtain ⟨n, hn, hplace⟩ : ∃ n < i.toNat,
      (f.inputCount.toNat % i.toNat + n) % i.toNat + 1 = mark i.toNat (remder i o).toNat f.curID.toNat := by
    by_cases hbefore : f.inputCount.toNat % i.toNat < mark i.toNat (remder i o).toNat f.curID.toNat
    · refine ⟨mark i.toNat (remder i o).toNat f.curID.toNat - 1 - f.inputCount.toNat % i.toNat, by omega, ?_⟩
      rw [Nat.mod_eq_of_lt (by omega)]
      omega
    · refine ⟨mark i.toNat (remder i o).toNat f.curID.toNat - 1 + i.toNat - f.inputCount.toNat % i.toNat, by omega, ?_⟩
      rw [Nat.mod_eq_sub_mod (by omega), Nat.mod_eq_of_lt (by omega)]
      omega
  refine hnone n hn ((hit_iff hi hr).mpr ?_)
  rw [hsame n (by omega), (hc.of_le (by omega)).later_inputCount, Nat.add_mod, ← hplace, ← Nat.add_mod, Nat.mod_add_mod]

/-- A place in the cycle that the mark can be at. -/
def InReach (i o : U32) (f : FrcS) : Prop := remder i o = 0 ∨ f.curID ≤ remder i o

/-- **A converter gets in step** within a cycle. -/
theorem exists_synced (hi : i ≠ 0) (ho : o ≠ 0) (hone : 1 ≤ f.curID.toNat) (hreach : InReach i o f)
    (hc : Counts i f i.toNat) : ∃ m ≤ i.toNat, ∃ n, Synced i o (later i o f m) n := by
  by_cases hr : remder i o = 0
  · exact ⟨0, Nat.zero_le _, _, synced_of_remder hr⟩
  · have hle : f.curID.toNat ≤ (remder i o).toNat := hreach.resolve_left hr
    obtain ⟨m, hm, hhit⟩ := exists_hit hi ho hr hone hle hc
    have hnext : Counts i (later i o f m) 1 := by
      refine hc.imp (fun hlt => ?_) id
      rw [later_inputCount, Nat.mod_eq_of_lt (by omega)]
      omega
    exact ⟨m + 1, hm, _, synced_of_hit hi ho hhit hnext⟩

/-- **Recovery.** From one cycle on, each cycle has all the marks, as long as the counter does not wrap in a cycle. -/
theorem total_recovered (hi : i ≠ 0) (ho : o ≠ 0) (hone : 1 ≤ f.curID.toNat) (hreach : InReach i o f) (hm : i.toNat ≤ m)
    (hc : Counts i f (m + i.toNat)) : total i o (later i o f m) i.toNat = o.toNat := by
  obtain ⟨k, hk, n, hsync⟩ := exists_synced hi ho hone hreach (hc.of_le (Nat.le_add_left _ _))
  have hrest : ∀ j ≤ m + i.toNat - k, Counts i (later i o f k) j := by
    intro j hj
    refine hc.imp (fun hlt => ?_) id
    rw [later_inputCount, Nat.mod_eq_of_lt (by omega)]
    omega
  obtain ⟨hsync', -⟩ := hsync.later (m := m - k) hi ho (hrest _ (by omega))
  rw [later_add, Nat.add_sub_cancel' (by omega)] at hsync'
  rw [total_cycle_iff hi ho]
  refine hsync'.hits_cycle hi ho (hc.imp (fun hlt => ?_) id)
  rw [later_inputCount, Nat.mod_eq_of_lt (by omega)]
  omega

/-- **No recovery** where the cycle does not divide `2 ^ 32`: it is cut off each time that the counter wraps. -/
theorem total_wrap (hi : i ≠ 0) (ho : o ≠ 0) (hr : remder i o ≠ 0) (hdvd : ¬ i.toNat ∣ 2 ^ 32) (N : Nat) :
    ∃ m, N ≤ m ∧ total i o (later i o f m) i.toNat ≠ o.toNat := by
  have hpos : 0 < i.toNat := Nat.pos_iff_ne_zero.mpr (fun h => hi (BitVec.eq_of_toNat_eq h))
  have hcut : 0 < 2 ^ 32 % i.toNat := Nat.pos_iff_ne_zero.mpr (fun h => hdvd (Nat.dvd_of_mod_eq_zero h))
  have hlt := Nat.mod_lt (2 ^ 32) hpos
  have hcycles := Nat.div_add_mod (2 ^ 32) i.toNat
  have hcount := f.inputCount.isLt
  generalize 2 ^ 32 % i.toNat = cut at hcut hlt hcycles
  refine ⟨2 ^ 32 * (N + 1) - f.inputCount.toNat + (2 ^ 32 - cut), by omega, ?_⟩
  rw [Ne, total_cycle_iff hi ho]
  refine (hits_cut hi ho hr (fun k hk => ?_)).ne
  rw [later_add, later_inputCount]
  by_cases hbefore : k < cut
  · -- the last places before the counter wraps begin a cycle
    have hplace : (f.inputCount.toNat + (2 ^ 32 * (N + 1) - f.inputCount.toNat + (2 ^ 32 - cut) + k)) % 2 ^ 32 =
        i.toNat * (2 ^ 32 / i.toNat) + k := by omega
    rw [hplace, Nat.mul_add_mod, Nat.mod_eq_of_lt (by omega)]
    omega
  · have hplace : (f.inputCount.toNat + (2 ^ 32 * (N + 1) - f.inputCount.toNat + (2 ^ 32 - cut) + k)) % 2 ^
        32 = k - cut := by
      omega
    rw [hplace, Nat.mod_eq_of_lt (by omega)]
    omega

/-! ## The calls -/

variable {t t' : Table} {h : U32} {es : List Event}

/-- Frames that go to a converter, one after another. -/
theorem run_calculate (hi : i ≠ 0) (ho : o ≠ 0) (hh : Has t h f) (n : Nat) :
    ∃ t' es, Run step always t (List.replicate n (.calculate h i o)) t' es ∧ Has t' h (later i o f n) ∧
      ((played h es).map BitVec.toNat).sum = total i o f n := by
  induction n with
  | zero => exact ⟨t, [], .nil, hh, rfl⟩
  | succ n ih =>
    obtain ⟨t', es, hrun, hhas, hsum⟩ := ih
    have hnext : step t' (.calculate h i o) =
        some (Function.update t' (getFrcId h).toNat (some ((later i o f n).calculate i o).1),
          [.played h ((later i o f n).calculate i o).2]) := by
      simp only [step, withInst, hhas.check, Option.map_some]
      rw [if_neg (not_or.mpr ⟨hi, ho⟩)]
    have hplayed : played h (es ++ [.played h ((later i o f n).calculate i o).2]) =
        played h es ++ [((later i o f n).calculate i o).2] := by simp [played]
    have hmore := hrun.snoc trivial hnext
    rw [← List.replicate_succ'] at hmore
    refine ⟨_, _, hmore, ⟨hhas.id_lt, Function.update_self _ _ _, ?_⟩, ?_⟩
    · rw [later, calculate_hFrc]
      exact hhas.handle
    · rw [hplayed, List.map_append, List.sum_append, hsum]
      rfl

theorem calculate_curID_pos (hone : f.curID ≠ 0) : (f.calculate i o).1.curID ≠ 0 := by
  rw [calculate_curID]
  split_ifs with hhit
  · unfold nextID
    dsimp only
    split_ifs with hz
    · exact hit_ne hhit
    · exact hz
  · exact hone

/-- `CurID` is never 0. -/
theorem curID_ne_zero {is : List Call} (hrun : Run step always (fun _ => none) is t es) (id : Nat) :
    ∀ f ∈ t id, f.curID ≠ 0 := by
  -- one slot is written
  have hwrite : ∀ {t : Table} {slot : Nat} {x : Option FrcS}, (∀ id, ∀ f ∈ t id, f.curID ≠ 0) → (∀ f ∈ x, f.curID ≠ 0) →
      ∀ id, ∀ f ∈ Function.update t slot x id, f.curID ≠ 0 := by
    intro t slot x ht hx id
    by_cases heq : id = slot
    · rw [heq, Function.update_self]
      exact hx
    · rw [Function.update_of_ne heq]
      exact ht id
  refine Run.inv (fun _ t => ∀ id, ∀ f ∈ t id, f.curID ≠ 0) (fun _ f hf => absurd hf (by simp)) ?_ hrun id
  rintro is s c t fs hs - hnext
  cases c with
  | create phFrc =>
    rcases create_cases (Option.some.inj hnext) with ⟨slot, -, -, rfl, -⟩ | ⟨rfl, -⟩
    · exact hwrite hs (by simp)
    · exact hs
  | destroy h' =>
    rcases withInst_cases hnext with ⟨g, -, hbody⟩ | ⟨rfl, -⟩
    · obtain ⟨rfl, -⟩ := Prod.mk.inj hbody
      exact hwrite hs (by simp)
    · exact hs
  | reset h' =>
    rcases withInst_cases hnext with ⟨g, -, hbody⟩ | ⟨rfl, -⟩
    · obtain ⟨rfl, -⟩ := Prod.mk.inj hbody
      exact hwrite hs (by simp)
    · exact hs
  | calculate h' i' o' =>
    simp only [step] at hnext
    split_ifs at hnext
    · cases hnext
      exact hs
    · rcases withInst_cases hnext with ⟨g, hg, hbody⟩ | ⟨rfl, -⟩
      · obtain ⟨rfl, -⟩ := Prod.mk.inj hbody
        refine hwrite hs (fun f hf => ?_)
        obtain rfl := Option.mem_some_iff.mp hf
        exact calculate_curID_pos (hs _ g hg.slot)
      · exact hs

/-- From some call on, at constant rates, each `InRate` values in a row sum up to `OutRate`. -/
def Recovers (t : Table) (h i o : U32) : Prop :=
  ∃ N, ∀ m, N ≤ m → ∃ u ds t' es, Run step always t (List.replicate m (.calculate h i o)) u ds ∧
    Run step always u (List.replicate i.toNat (.calculate h i o)) t' es ∧ ((played h es).map BitVec.toNat).sum = o.toNat

/-- The calls do what the converter does. -/
theorem recovers_iff_total (hi : i ≠ 0) (ho : o ≠ 0) (hh : Has t h f) :
    Recovers t h i o ↔ ∃ N, ∀ m, N ≤ m → total i o (later i o f m) i.toNat = o.toNat := by
  refine exists_congr (fun N => forall_congr' (fun m => forall_congr' (fun _ => ?_)))
  obtain ⟨u, ds, hu, hhas, -⟩ := run_calculate hi ho hh m
  obtain ⟨t', es, ht, -, hsum⟩ := run_calculate hi ho hhas i.toNat
  constructor
  · rintro ⟨u', ds', t'', es', hu', ht', hsum'⟩
    obtain ⟨rfl, -⟩ := hu.det hu'
    obtain ⟨-, rfl⟩ := ht.det ht'
    rw [← hsum, hsum']
  · exact fun htotal => ⟨u, ds, t', es, hu, ht, hsum.trans htotal⟩

theorem not_recovers_of_stuck (hi : i ≠ 0) (ho : o ≠ 0) (hh : Has t h f) (hreach : ¬ InReach i o f) :
    ¬ Recovers t h i o := by
  obtain ⟨hr, hgt⟩ := not_or.mp hreach
  rw [BitVec.le_def, Nat.not_le] at hgt
  rw [recovers_iff_total hi ho hh]
  rintro ⟨N, hN⟩
  have hcycle := (total_cycle_iff hi ho).mp (hN N (Nat.le_refl N))
  have hstuck := later_stuck (f := later i o f N) hi ho (by rw [(later_stuck hi ho hgt N).1]; exact hgt) i.toNat
  have hpos := remder_pos hr
  omega

/-- **When a converter recovers.** After any calls, and then with constant rates. -/
theorem recovers_iff {is : List Call} (hi : i ≠ 0) (ho : o ≠ 0) (hrun : Run step always (fun _ => none) is t es)
    (hh : Has t h f) :
    Recovers t h i o ↔ remder i o = 0 ∨ f.curID ≤ remder i o ∧ i.toNat ∣ 2 ^ 32 := by
  have hone : 1 ≤ f.curID.toNat :=
    Nat.one_le_iff_ne_zero.mpr (fun hz => curID_ne_zero hrun _ f hh.slot (BitVec.eq_of_toNat_eq hz))
  constructor
  · intro hrec
    by_cases hr : remder i o = 0
    · exact Or.inl hr
    · right
      constructor
      · by_contra hgt
        exact not_recovers_of_stuck hi ho hh (not_or.mpr ⟨hr, hgt⟩) hrec
      · by_contra hdvd
        obtain ⟨N, hN⟩ := (recovers_iff_total hi ho hh).mp hrec
        obtain ⟨m, hm, hne⟩ := total_wrap (f := f) hi ho hr hdvd N
        exact hne (hN m hm)
  · intro hcond
    rw [recovers_iff_total hi ho hh]
    rcases hcond with hr | ⟨hle, hdvd⟩
    · exact ⟨0, fun m _ => (total_cycle_iff hi ho).mpr (by rw [hits_none hr, hr]; rfl)⟩
    · exact ⟨i.toNat, fun m hm => total_recovered hi ho hone (Or.inr hle) hm (Or.inr hdvd)⟩

/-- Three frames, and then other rates. -/
def threeFrames (i o : U32) : List Call := .create true :: List.replicate 3 (.calculate 0xC00000 i o)

theorem threeFrames_has : ∃ t es, Run step always (fun _ => none)
    (threeFrames 10 4) t es ∧ Has t 0xC00000 ⟨0xC00000, 3, 3⟩ := by
  refine exists_run_imp (fun t _ => (t 0).any (fun f => f.hFrc = 0xC00000 ∧ f.curID = 3 ∧ f.inputCount = 3))
    (by decide) fun _ _ _ htest => ?_
  obtain ⟨⟨hFrc, curID, inputCount⟩, hslot, hf⟩  := (Option.any_eq_true _ _).mp htest
  obtain ⟨rfl, rfl, rfl⟩ := of_decide_eq_true hf
  exact ⟨by decide, hslot, rfl⟩

/-- A cycle of 32 frames divides the range of the counter. -/
theorem recovers_iff_power : ∃ t es, Run step always (fun _ => none)
    (threeFrames 10 4) t es ∧ Recovers t 0xC00000 32 24 := by
  obtain ⟨t, es, hrun, hh⟩ := threeFrames_has
  exact ⟨t, es, hrun, (recovers_iff (by decide) (by decide) hrun hh).mpr (Or.inr (by decide))⟩

/-- The third of six marks is waited for, and then there is one mark only. -/
theorem third_mark_stuck : ∃ t es, Run step always (fun _ => none)
    (threeFrames 10 4) t es ∧ ¬ Recovers t 0xC00000 5 4 := by
  obtain ⟨t, es, hrun, hh⟩ := threeFrames_has
  exact ⟨t, es, hrun, not_recovers_of_stuck (by decide) (by decide) hh (by unfold InReach; decide)⟩

end HiSTB.Frc
