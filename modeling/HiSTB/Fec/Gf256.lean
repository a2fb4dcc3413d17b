import HiSTB.Lib.Loop
import HiSTB.Lib.TableField
import Mathlib.Dynamics.PeriodicPts.Lemmas
import Mathlib.Data.Fintype.Card
import Mathlib.Data.FinEnum
import Mathlib.NumberTheory.Divisors

/-!
# `Fec.Gf256` — the `G_table256` tables are the field of 256 elements

`RS_fec.h` builds two tables in a constructor: `m_exp`, the powers of `ALPHA = 2` modulo
`x^8 + x^4 + x^3 + x^2 + 1`, and `m_log`, their logarithms. This file embeds the constructor and shows
that the tables form a `PowerTable` over bytes with exclusive or, so that the product the codec computes
through them (`gfMul`) is the product of a field, `GF256`.

The only facts that come from running the code are the period of doubling: doubling 255 times is the
identity at `1`, and doubling 85, 51 or 15 times is not. Injectivity of `m_exp` follows from them.
-/

namespace HiSTB.Fec

open Lib

variable {i j : Nat}

/-- GF256 symbol. -/
abbrev BYTE := BitVec 8

/-- Index of alpha. -/
abbrev XWORD := BitVec 32

/-- `00011101: x^8+x^4+x^3+x^2+1=0`. -/
def modulus : BYTE := 0x1d

/-- `G_table256::Q`. -/
def Q : Nat := 0xFF

/-- The two tables of `G_table256`. -/
structure GTable256 where
  mExp : Nat → BYTE
  mLog : BYTE → Nat

/-- Variables of the constructor's first loop. -/
structure ExpLoop where
  x : BYTE
  y : XWORD
  mExp : Nat → BYTE

/-- `y <<= 1; if (y & 0x100) y ^= MODULUS; y %= 0x100`. -/
def nextY (y : XWORD) : XWORD :=
  let y := y <<< 1
  let y := if y &&& 0x100 ≠ 0 then y ^^^ modulus.setWidth 32 else y
  y % 0x100

def expStep (t : ExpLoop) (i : Nat) : ExpLoop :=
  { x := (nextY t.y).setWidth 8, y := nextY t.y, mExp := Function.update t.mExp i t.x }

@[irreducible] def expLoop : ExpLoop :=
  forRange Q expStep { x := 0x1, y := 0x1, mExp := Function.update (fun _ => 0) Q 0 }

def logStep (mExp : Nat → BYTE) (mLog : BYTE → Nat) (i : Nat) : BYTE → Nat :=
  Function.update mLog (mExp i) i

/-- `G_table256::G_table256`. -/
@[irreducible] def table : GTable256 where
  mExp := expLoop.mExp
  mLog := forRange (Q + 1) (logStep expLoop.mExp) (fun _ => 0)

/-- `table.m_exp[(table.m_log[a]+table.m_log[b]) % table.Q]`, the product of two non-zero symbols. -/
def gfMul (a b : BYTE) : BYTE := table.mExp ((table.mLog a + table.mLog b) % Q)

/-! ## `m_exp` holds the iterates of doubling -/

/-- Doubling of a symbol, on the byte itself. -/
def xtime (b : BYTE) : BYTE := (b <<< 1) ^^^ (if b.msb then modulus else 0)

/-- The loop doubles in 32 bits, and reduces as the field does. -/
theorem nextY_setWidth : ∀ b : BYTE, nextY (b.setWidth 32) = (xtime b).setWidth 32 := by
  decide

/-- Doubling is additive. -/
theorem xtime_xor (a b : BYTE) : xtime (a ^^^ b) = xtime a ^^^ xtime b := by
  unfold xtime
  rw [BitVec.shiftLeft_xor_distrib, BitVec.msb_xor]
  have hcancel : (a <<< 1 ^^^ modulus) ^^^ (b <<< 1 ^^^ modulus) = a <<< 1 ^^^ b <<< 1 := by
    rw [BitVec.xor_comm (b <<< 1), BitVec.xor_assoc, ← BitVec.xor_assoc modulus, BitVec.xor_self, BitVec.zero_xor]
  cases a.msb <;> cases b.msb
  · simp
  · simp [BitVec.xor_assoc]
  · simp [BitVec.xor_assoc, BitVec.xor_comm modulus]
  · simp [hcancel]

theorem xtime_eq_zero : ∀ b : BYTE, xtime b = 0 → b = 0 := by decide

/-- The constructor's first loop stores the iterates of doubling. -/
theorem expLoop_mExp (hi : i < Q) : expLoop.mExp i = xtime^[i] 1 := by
  have hinv : (expLoop.y = expLoop.x.setWidth 32 ∧ expLoop.x = xtime^[Q] 1) ∧
      ∀ j < Q, expLoop.mExp j = xtime^[j] 1 := by
    unfold expLoop
    refine forRange_inv (fun n (t : ExpLoop) => (t.y = t.x.setWidth 32 ∧ t.x = xtime^[n] 1) ∧
      ∀ j < n, t.mExp j = xtime^[j] 1) ⟨⟨rfl, rfl⟩, fun j hj => absurd hj (Nat.not_lt_zero j)⟩ ?_
    rintro n t _ ⟨⟨hy, hx⟩, hexp⟩
    have hnext : nextY t.y = (xtime t.x).setWidth 32 := by rw [hy, nextY_setWidth]
    have hlow : (nextY t.y).setWidth 8 = xtime t.x := by
      rw [hnext, BitVec.setWidth_setWidth_of_le _ (by decide), BitVec.setWidth_eq]
    refine ⟨⟨?_, ?_⟩, ?_⟩
    · show nextY t.y = ((nextY t.y).setWidth 8).setWidth 32
      rw [hlow, hnext]
    · simp only [expStep, hlow]
      rw [hx, Function.iterate_succ_apply']
    · intro j hj
      simp only [expStep]
      rcases Nat.lt_succ_iff_lt_or_eq.mp hj with hlt | heq
      · rw [Function.update_of_ne (Nat.ne_of_lt hlt), hexp j hlt]
      · rw [heq, Function.update_self, hx]
  exact hinv.2 i hi

/-- The last entry of `m_exp` is never written. -/
theorem expLoop_mExp_Q : expLoop.mExp Q = 0 := by
  unfold expLoop
  refine forRange_inv (fun _ (t : ExpLoop) => t.mExp Q = 0) (by simp) ?_
  intro i t hi ht
  simp only [expStep]
  rw [Function.update_of_ne (Nat.ne_of_gt hi), ht]

theorem table_mExp : table.mExp = expLoop.mExp := by unfold table; rfl

/-! ## Doubling has period 255 at `1` -/

theorem xtime_iterate_Q : xtime^[Q] 1 = 1 := by decide +kernel

/-- 255 is the first power that is 1 again: 3 · 5 · 17, and no divisor of it will do. -/
theorem minimalPeriod_xtime : Function.minimalPeriod xtime 1 = Q := by
  have hdvd : Function.minimalPeriod xtime 1 ∣ Q :=
    Function.IsPeriodicPt.minimalPeriod_dvd xtime_iterate_Q
  -- a proper divisor of 255 divides 85, 51 or 15, and none of these is a period
  have hno : ∀ d, xtime^[d] 1 ≠ 1 → ¬ Function.minimalPeriod xtime 1 ∣ d := by
    intro d hd hmp
    exact hd ((Function.isPeriodicPt_iff_minimalPeriod_dvd).mpr hmp)
  have h85 := hno 85 (by decide +kernel)
  have h51 := hno 51 (by decide +kernel)
  have h15 := hno 15 (by decide)
  have hle : Function.minimalPeriod xtime 1 ≤ 255 := Nat.le_of_dvd (by decide) hdvd
  revert hdvd h85 h51 h15 hle
  generalize Function.minimalPeriod xtime 1 = m
  intro hdvd h85 h51 h15 hle
  have hmem : m ∈ Nat.divisors 255 := Nat.mem_divisors.mpr ⟨hdvd, by decide⟩
  rw [show Nat.divisors 255 = {1, 3, 5, 15, 17, 51, 85, 255} by decide] at hmem
  simp only [Finset.mem_insert, Finset.mem_singleton] at hmem
  rcases hmem with rfl | rfl | rfl | rfl | rfl | rfl | rfl | rfl
  all_goals first | rfl | (exfalso; revert h85 h51 h15; decide)

/-- The powers below 255 are different. -/
theorem xtime_iterate_injOn (hi : i < Q) (hj : j < Q)
    (h : xtime^[i] 1 = xtime^[j] 1) : i = j := by
  have hinj := Function.iterate_injOn_Iio_minimalPeriod (f := xtime) (x := 1)
  rw [minimalPeriod_xtime] at hinj
  exact hinj hi hj h

theorem xtime_iterate_mod (i : Nat) : xtime^[i % Q] 1 = xtime^[i] 1 := by
  have h := Function.iterate_mod_minimalPeriod_eq (f := xtime) (x := 1) (n := i)
  rwa [minimalPeriod_xtime] at h

theorem xtime_iterate_ne_zero (i : Nat) : xtime^[i] 1 ≠ 0 := by
  induction i with
  | zero => decide
  | succ i ih =>
    rw [Function.iterate_succ_apply']
    exact fun h => ih (xtime_eq_zero _ h)

/-! ## `m_log` inverts `m_exp` -/

/-- No entry of `m_exp` stands twice, with the zero at its end. -/
theorem mExp_injOn (hi : i ≤ Q) (hj : j ≤ Q)
    (h : table.mExp i = table.mExp j) : i = j := by
  rw [table_mExp] at h
  rcases Nat.lt_or_eq_of_le hi with hi | rfl <;> rcases Nat.lt_or_eq_of_le hj with hj | rfl
  · rw [expLoop_mExp hi, expLoop_mExp hj] at h
    exact xtime_iterate_injOn hi hj h
  · rw [expLoop_mExp hi, expLoop_mExp_Q] at h
    exact absurd h (xtime_iterate_ne_zero i)
  · rw [expLoop_mExp hj, expLoop_mExp_Q] at h
    exact absurd h.symm (xtime_iterate_ne_zero j)
  · rfl

/-- The loop over `m_exp` writes each place of `m_log` once. -/
theorem mLog_mExp (hi : i ≤ Q) : table.mLog (table.mExp i) = i := by
  have hinv : ∀ j < Q + 1, table.mLog (table.mExp j) = j := by
    rw [show table.mLog = forRange (Q + 1) (logStep table.mExp) (fun _ => 0) by
      rw [table_mExp]; unfold table; rfl]
    refine forRange_inv (fun n (mLog : BYTE → Nat) => ∀ j < n, mLog (table.mExp j) = j)
      (fun j hj => absurd hj (Nat.not_lt_zero j)) ?_
    intro n mLog hn hlog j hj
    unfold logStep
    rcases Nat.lt_succ_iff_lt_or_eq.mp hj with hlt | rfl
    · rw [Function.update_of_ne, hlog j hlt]
      exact fun h => Nat.ne_of_lt hlt (mExp_injOn (by omega) (by omega) h)
    · rw [Function.update_self]
  exact hinv i (by omega)

/-! ## The field -/

/-- A symbol as a field element: addition is exclusive or. -/
@[ext] structure GF256 where
  byte : BYTE
  deriving DecidableEq

namespace GF256

instance : Zero GF256 := ⟨⟨0⟩⟩
instance : Add GF256 := ⟨fun a b => ⟨a.byte ^^^ b.byte⟩⟩
instance : Neg GF256 := ⟨fun a => a⟩
instance : Sub GF256 := ⟨fun a b => ⟨a.byte ^^^ b.byte⟩⟩

@[simp] theorem byte_zero : (0 : GF256).byte = 0 := rfl
@[simp] theorem byte_add (a b : GF256) : (a + b).byte = a.byte ^^^ b.byte := rfl

instance : AddCommGroup GF256 where
  add_assoc a b c := by ext1; simp [BitVec.xor_assoc]
  zero_add a := by ext1; simp
  add_zero a := by ext1; simp
  add_comm a b := by ext1; simp [BitVec.xor_comm]
  neg_add_cancel a := by
    ext1
    show a.byte ^^^ a.byte = 0
    simp
  sub_eq_add_neg _ _ := rfl
  nsmul := nsmulRec
  zsmul := zsmulRec

theorem mk_eq_zero {b : BYTE} : (⟨b⟩ : GF256) = 0 ↔ b = 0 := by
  rw [GF256.ext_iff, byte_zero]

/-- As many bytes are not zero as there are powers. -/
theorem card_univ_erase_zero :
    (Finset.univ.erase (0 : BYTE)).card = Q := by
  rw [Finset.card_erase_of_mem (Finset.mem_univ _), Finset.card_univ, ← FinEnum.card_eq_fintypeCard]
  rfl

/-- Every non-zero symbol is a power: 255 distinct non-zero powers fill the 255 non-zero bytes. -/
theorem exists_iterate {b : BYTE} (hb : b ≠ 0) : ∃ i < Q, xtime^[i] 1 = b := by
  have hsub : (Finset.range Q).image (fun i => xtime^[i] (1 : BYTE)) ⊆ Finset.univ.erase 0 := by
    intro c hc
    obtain ⟨i, _, rfl⟩ := Finset.mem_image.mp hc
    exact Finset.mem_erase.mpr ⟨xtime_iterate_ne_zero i, Finset.mem_univ _⟩
  have hcard : ((Finset.range Q).image (fun i => xtime^[i] (1 : BYTE))).card = Q := by
    rw [Finset.card_image_of_injOn, Finset.card_range]
    intro i hi j hj h
    exact xtime_iterate_injOn (Finset.mem_range.mp hi) (Finset.mem_range.mp hj) h
  have heq := Finset.eq_of_subset_of_card_le hsub (by rw [hcard, card_univ_erase_zero])
  have hmem : b ∈ Finset.univ.erase (0 : BYTE) := Finset.mem_erase.mpr ⟨hb, Finset.mem_univ b⟩
  rw [← heq] at hmem
  obtain ⟨i, hi, h⟩ := Finset.mem_image.mp hmem
  exact ⟨i, Finset.mem_range.mp hi, h⟩

/-- **The tables form a power table.** -/
def powerTable : PowerTable GF256 where
  q := Q
  q_pos := by decide
  exp i := ⟨table.mExp (i % Q)⟩
  log a := table.mLog a.byte
  shift :=
    { toFun := fun a => ⟨xtime a.byte⟩
      map_zero' := rfl
      map_add' := fun a b => by ext1; exact xtime_xor a.byte b.byte }
  exp_succ i := by
    ext1
    show table.mExp ((i + 1) % Q) = xtime (table.mExp (i % Q))
    rw [table_mExp, expLoop_mExp (Nat.mod_lt _ (by decide)), expLoop_mExp (Nat.mod_lt _ (by decide)),
      xtime_iterate_mod, xtime_iterate_mod, Function.iterate_succ_apply']
  exp_mod i := by rw [Nat.mod_mod]
  exp_ne_zero i := by
    rw [ne_eq, mk_eq_zero]
    rw [table_mExp, expLoop_mExp (Nat.mod_lt _ (by decide))]
    exact xtime_iterate_ne_zero _
  exp_log a ha := by
    obtain ⟨b⟩ := a
    obtain ⟨i, hi, rfl⟩ := exists_iterate (fun h => ha (mk_eq_zero.mpr h))
    ext1
    show table.mExp (table.mLog (xtime^[i] 1) % Q) = xtime^[i] 1
    rw [← expLoop_mExp hi, ← table_mExp, mLog_mExp (Nat.le_of_lt hi), Nat.mod_eq_of_lt hi]
  log_exp i := mLog_mExp (Nat.le_of_lt (Nat.mod_lt i (by decide)))

/-- **The field of 256 elements that the tables implement.** -/
instance : Field GF256 := powerTable.field

theorem mk_one : (⟨1⟩ : GF256) = 1 := by
  change _ = (⟨table.mExp (0 % Q)⟩ : GF256)
  rw [table_mExp, Nat.zero_mod, expLoop_mExp (by decide)]
  rfl

/-- `ALPHA` to the power `i`. -/
def alphaPow (i : Nat) : GF256 := ⟨table.mExp (i % Q)⟩

/-- Powers are multiplied by adding exponents. -/
theorem alphaPow_mul (i j : Nat) : alphaPow i * alphaPow j = alphaPow (i + j) :=
  powerTable.mul_exp_exp i j

theorem alphaPow_pow (i j : Nat) : alphaPow i ^ j = alphaPow (i * j) := by
  induction j with
  | zero => rw [pow_zero, Nat.mul_zero]; rfl
  | succ j ih => rw [pow_succ, ih, alphaPow_mul, Nat.mul_succ]

/-- Powers are the same if their exponents are, modulo 255. -/
theorem alphaPow_inj : alphaPow i = alphaPow j ↔ i % Q = j % Q := by
  constructor
  · intro h
    exact mExp_injOn (Nat.le_of_lt (Nat.mod_lt i (by decide)))
      (Nat.le_of_lt (Nat.mod_lt j (by decide))) (congrArg GF256.byte h)
  · intro h
    unfold alphaPow
    rw [h]

/-- The guarded table product of the source is the field product. -/
theorem mk_gfMul (a b : BYTE) :
    (⟨if a ≠ 0 ∧ b ≠ 0 then gfMul a b else 0⟩ : GF256) = ⟨a⟩ * ⟨b⟩ := by
  change _ = powerTable.mul ⟨a⟩ ⟨b⟩
  unfold PowerTable.mul
  by_cases h : a ≠ 0 ∧ b ≠ 0
  · rw [if_pos h, if_neg (by rw [mk_eq_zero, mk_eq_zero]; tauto)]
    ext1
    show table.mExp ((table.mLog a + table.mLog b) % Q)
      = table.mExp ((table.mLog a + table.mLog b) % Q % Q)
    rw [Nat.mod_mod]
  · rw [if_neg h, if_pos (by rw [mk_eq_zero, mk_eq_zero]; tauto)]
    rfl

end GF256

end HiSTB.Fec
