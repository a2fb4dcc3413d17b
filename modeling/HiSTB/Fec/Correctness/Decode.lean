import HiSTB.Fec.Codec
import HiSTB.Fec.Correctness.Inverse
import Mathlib.Data.Nat.Nth
import Mathlib.LinearAlgebra.Vandermonde

/-!
# `Fec.Correctness.Decode` — which packets `fec_decode` uses, and what it rebuilds

`fec_decode` works with the first `K` packets received, in the order data then parity. With `Got lostMap i`
for "packet `i` was received", the `a`-th of them is `Nat.nth (Got lostMap) a`. The file shows

* the generator row of packet `i` is row `i` of `[I; en_GM]` (`genRow`), and times the Vandermonde matrix of
  the data packets it is the row of powers of `ALPHA ^ i` (`genRow_mul_vander`);
* so the matrix handed to `matrix_invGF256` is invertible exactly when the packets used have distinct
  evaluation points (`subGM_invertible_iff`);
* and then every lost data packet is rebuilt (`fecDecode_rebuilds`).
-/

namespace HiSTB.Fec

open Lib Matrix

variable {p : RSFec} {lostMap : Nat → Int} {i K M S : Nat} {t u : SubGM}
    {data fecData heap out : Rows}

/-! ## Products -/

/-- The accumulating loop of a product entry. -/
theorem mk_accLoop (x y : Nat → BYTE) (mid i j : Nat) (c : Rows) (a b : Nat) :
    (⟨forRange mid (fun c k => setCell c i j (mulAcc (c i j) (x k) (y k))) c a b⟩ : GF256)
      = if a = i ∧ b = j then ⟨c i j⟩ + ∑ k ∈ Finset.range mid, ⟨x k⟩ * ⟨y k⟩ else ⟨c a b⟩ := by
  have hinv : ∀ a b, (⟨forRange mid (fun c k => setCell c i j (mulAcc (c i j) (x k) (y k))) c a b⟩ : GF256)
      = if a = i ∧ b = j then ⟨c i j⟩ + ∑ k ∈ Finset.range mid, ⟨x k⟩ * ⟨y k⟩ else ⟨c a b⟩ := by
    refine forRange_inv (fun k (t : Rows) => ∀ a b, (⟨t a b⟩ : GF256)
      = if a = i ∧ b = j then ⟨c i j⟩ + ∑ k ∈ Finset.range k, ⟨x k⟩ * ⟨y k⟩ else ⟨c a b⟩) ?_ ?_
    · intro a b
      by_cases hab : a = i ∧ b = j
      · rw [if_pos hab, hab.1, hab.2, Finset.range_zero, Finset.sum_empty, add_zero]
      · rw [if_neg hab]
    · intro k t _ ht a b
      rw [setCell_apply]
      by_cases hab : a = i ∧ b = j
      · rw [if_pos hab, if_pos hab, mk_mulAcc, ht, if_pos ⟨rfl, rfl⟩, Finset.sum_range_succ, add_assoc]
      · rw [if_neg hab, if_neg hab, ht, if_neg hab]
  exact hinv a b

theorem mk_mulRow (x y : Rows) (mid right : Nat) (c : Rows) (i a b : Nat) :
    (⟨mulRow x y mid right c i a b⟩ : GF256)
      = if a = i ∧ b < right then ⟨c i b⟩ + ∑ k ∈ Finset.range mid, ⟨x i k⟩ * ⟨y k b⟩ else ⟨c a b⟩ := by
  have hinv : ∀ a b, (⟨mulRow x y mid right c i a b⟩ : GF256)
      = if a = i ∧ b < right then ⟨c i b⟩ + ∑ k ∈ Finset.range mid, ⟨x i k⟩ * ⟨y k b⟩ else ⟨c a b⟩ := by
    unfold mulRow
    refine forRange_inv (fun j (t : Rows) => ∀ a b, (⟨t a b⟩ : GF256) = if a = i ∧ b < j then
      ⟨c i b⟩ + ∑ k ∈ Finset.range mid, ⟨x i k⟩ * ⟨y k b⟩ else ⟨c a b⟩) ?_ ?_
    · intro a b
      rw [if_neg (fun h => Nat.not_lt_zero b h.2)]
    · intro j t _ ht a b
      rw [mk_accLoop (fun k => x i k) (fun k => y k j)]
      by_cases hab : a = i ∧ b = j
      · rw [if_pos hab, ht, if_neg (by omega), if_pos (by omega), hab.2]
      · rw [if_neg hab, ht]
        exact if_congr (by omega) rfl rfl
  exact hinv a b

/-- **`matrix_mulGF256` adds the product** to the entries of its range and touches no other. -/
theorem mk_matrixMulGF256 (x y c : Rows) (left mid right a b : Nat) :
    (⟨matrixMulGF256 x y c left mid right a b⟩ : GF256)
      = if a < left ∧ b < right then ⟨c a b⟩ + ∑ k ∈ Finset.range mid, ⟨x a k⟩ * ⟨y k b⟩
        else ⟨c a b⟩ := by
  have hinv : ∀ a b, (⟨matrixMulGF256 x y c left mid right a b⟩ : GF256)
      = if a < left ∧ b < right then ⟨c a b⟩ + ∑ k ∈ Finset.range mid, ⟨x a k⟩ * ⟨y k b⟩
        else ⟨c a b⟩ := by
    unfold matrixMulGF256
    refine forRange_inv (fun i (t : Rows) => ∀ a b, (⟨t a b⟩ : GF256) = if a < i ∧ b < right then
      ⟨c a b⟩ + ∑ k ∈ Finset.range mid, ⟨x a k⟩ * ⟨y k b⟩ else ⟨c a b⟩) ?_ ?_
    · intro a b
      rw [if_neg (fun h => Nat.not_lt_zero a h.1)]
    · intro i t _ ht a b
      rw [mk_mulRow]
      by_cases hab : a = i ∧ b < right
      · rw [if_pos hab, ht, if_neg (by omega), if_pos (by omega), hab.1]
      · rw [if_neg hab, ht]
        exact if_congr (by omega) rfl rfl
  exact hinv a b

/-! ## The packets received -/

/-- Packet `i` was received. -/
def Got (lostMap : Nat → Int) (i : Nat) : Prop := lostMap i = 1

instance (lostMap : Nat → Int) : DecidablePred (Got lostMap) := fun i =>
  inferInstanceAs (Decidable (lostMap i = 1))

/-- `lost_map` holds only zeros and ones on the packets of a group. -/
def LostMapOk (N : Nat) (lostMap : Nat → Int) : Prop := ∀ i < N, lostMap i = 0 ∨ lostMap i = 1

/-- The `k`-th index that satisfies `p`, when there is one below `N`. -/
theorem nth_of_lt_count {p : Nat → Prop} [DecidablePred p] {N k : Nat} (h : k < Nat.count p N) :
    p (Nat.nth p k) ∧ Nat.count p (Nat.nth p k) = k ∧ Nat.nth p k < N := by
  induction N with
  | zero => simp at h
  | succ N ih =>
    rw [Nat.count_succ] at h
    by_cases hk : k < Nat.count p N
    · obtain ⟨hp, hc, hlt⟩ := ih hk
      exact ⟨hp, hc, Nat.lt_succ_of_lt hlt⟩
    · have hpN : p N := by
        by_contra hno
        rw [if_neg hno] at h
        omega
      rw [if_pos hpN] at h
      have hkN : k = Nat.count p N := by omega
      rw [hkN, Nat.nth_count hpN]
      exact ⟨hpN, rfl, Nat.lt_succ_self N⟩

/-- Row `i` of `[I; en_GM]`. -/
def genRow (p : RSFec) (i j : Nat) : BYTE :=
  if i < p.dataPktNum then (if i = j then 1 else 0) else p.enGM (i - p.dataPktNum) j

/-- The first `c` rows collected are those of the first `c` packets received. -/
structure RowsOk (p : RSFec) (lostMap : Nat → Int) (c : Nat) (de : Rows) : Prop where
  rows : ∀ a < c, ∀ b < p.dataPktNum, de a b = genRow p (Nat.nth (Got lostMap) a) b
  zero : ∀ a, c ≤ a → ∀ b, de a b = 0

/-- What the first row loop knows about the lost data packets below `i`. -/
structure LostOk (lostMap : Nat → Int) (i : Nat) (t : SubGM) : Prop where
  sound : ∀ s < t.lostPktCnt, t.lostPktId s < i ∧ ¬ Got lostMap (t.lostPktId s)
  complete : ∀ j < i, ¬ Got lostMap j → ∃ s < t.lostPktCnt, t.lostPktId s = j

theorem dataPktRow_ok (hi : i < p.dataPktNum)
    (h : t.recvCount = Nat.count (Got lostMap) i ∧ RowsOk p lostMap t.recvCount t.deSubGM ∧ LostOk lostMap i t) :
    (dataPktRow lostMap t i).recvCount = Nat.count (Got lostMap) (i + 1) ∧
      RowsOk p lostMap (dataPktRow lostMap t i).recvCount (dataPktRow lostMap t i).deSubGM ∧
      LostOk lostMap (i + 1) (dataPktRow lostMap t i) := by
  obtain ⟨hcnt, hrows, hlost⟩ := h
  unfold dataPktRow
  by_cases hg : Got lostMap i
  · rw [if_pos (show lostMap i = 1 from hg)]
    refine ⟨?_, ⟨?_, ?_⟩, ⟨?_, ?_⟩⟩
    · rw [Nat.count_succ, if_pos hg, hcnt]
    · intro a ha b hb
      simp only at ha ⊢
      rw [setCell_apply]
      rcases Nat.lt_succ_iff_lt_or_eq.mp ha with hlt | rfl
      · rw [if_neg (fun h => Nat.ne_of_lt hlt h.1), hrows.rows a hlt b hb]
      · rw [hrows.zero _ (Nat.le_refl _), hcnt, Nat.nth_count hg, genRow, if_pos hi]
        exact if_congr ⟨fun h => h.2.symm, fun h => ⟨rfl, h.symm⟩⟩ rfl rfl
    · intro a ha b
      simp only at ha ⊢
      rw [setCell_apply, if_neg (by omega)]
      exact hrows.zero a (by omega) b
    · intro s hs
      have h := hlost.sound s hs
      exact ⟨Nat.lt_succ_of_lt h.1, h.2⟩
    · intro j hj hng
      have hji : j ≠ i := fun he => hng (he ▸ hg)
      exact hlost.complete j (by omega) hng
  · rw [if_neg (show ¬ lostMap i = 1 from hg)]
    refine ⟨?_, hrows, ⟨?_, ?_⟩⟩
    · simp [Nat.count_succ, hg, hcnt]
    · intro s hs
      simp only
      rcases Nat.lt_succ_iff_lt_or_eq.mp hs with hlt | rfl
      · rw [Function.update_of_ne (Nat.ne_of_lt hlt)]
        have h := hlost.sound s hlt
        exact ⟨Nat.lt_succ_of_lt h.1, h.2⟩
      · rw [Function.update_self]
        exact ⟨Nat.lt_succ_self i, hg⟩
    · intro j hj hng
      simp only
      rcases Nat.lt_succ_iff_lt_or_eq.mp hj with hlt | rfl
      · obtain ⟨s, hs, he⟩ := hlost.complete j hlt hng
        exact ⟨s, Nat.lt_succ_of_lt hs, by rw [Function.update_of_ne (Nat.ne_of_lt hs), he]⟩
      · exact ⟨t.lostPktCnt, Nat.lt_succ_self _, Function.update_self _ _ _⟩

theorem fillRow_apply (m : Rows) (n c : Nat) (v : Nat → BYTE) (a b : Nat) :
    forRange n (fun m j => setCell m c j (v j)) m a b = if a = c ∧ b < n then v b else m a b :=
  rowLoop_apply (f := fun _ j => v j) (fun _ _ _ _ _ => rfl) a b

/-- The parity loop leaves the record of lost data packets alone. -/
theorem fecPktRow_lost
    (h : fecPktRow p lostMap t i = .yield u ∨ fecPktRow p lostMap t i = .done u) :
    u.lostPktId = t.lostPktId ∧ u.lostPktCnt = t.lostPktCnt := by
  unfold fecPktRow at h
  split at h
  · split at h
    · rcases h with h | h
      · injection h with h
        subst h
        exact ⟨rfl, rfl⟩
      · cases h
    · rcases h with h | h
      · cases h
      · injection h with h
        subst h
        exact ⟨rfl, rfl⟩
  · rcases h with h | h
    · injection h with h
      subst h
      exact ⟨rfl, rfl⟩
    · cases h

theorem fecPktRow_yield (hi : p.dataPktNum ≤ i)
    (h : t.recvCount = Nat.count (Got lostMap) i ∧ t.recvCount ≤ p.dataPktNum ∧
      RowsOk p lostMap t.recvCount t.deSubGM) (hu : fecPktRow p lostMap t i = .yield u) :
    u.recvCount = Nat.count (Got lostMap) (i + 1) ∧ u.recvCount ≤ p.dataPktNum ∧
      RowsOk p lostMap u.recvCount u.deSubGM := by
  obtain ⟨hcnt, hle, hrows⟩ := h
  unfold fecPktRow at hu
  by_cases hg : Got lostMap i
  · rw [if_pos (show lostMap i = 1 from hg)] at hu
    by_cases hlt : t.recvCount < p.dataPktNum
    · rw [if_pos hlt] at hu
      injection hu with hu
      subst hu
      refine ⟨?_, hlt, ?_, ?_⟩
      · rw [Nat.count_succ, if_pos hg, hcnt]
      · intro a ha b hb
        simp only at ha ⊢
        rw [fillRow_apply]
        rcases Nat.lt_succ_iff_lt_or_eq.mp ha with hlt | rfl
        · rw [if_neg (fun h => Nat.ne_of_lt hlt h.1), hrows.rows a hlt b hb]
        · rw [if_pos ⟨rfl, hb⟩, hcnt, Nat.nth_count hg, genRow, if_neg (by omega)]
      · intro a ha b
        simp only at ha ⊢
        rw [fillRow_apply, if_neg (by omega)]
        exact hrows.zero a (by omega) b
    · rw [if_neg hlt] at hu
      cases hu
  · rw [if_neg (show ¬ lostMap i = 1 from hg)] at hu
    injection hu with hu
    subst hu
    refine ⟨?_, hle, hrows⟩
    simp [Nat.count_succ, hg, hcnt]

/-- The loop over the data packets: the rows of the received ones, the indices of the lost ones. -/
theorem dataPktRows_ok (p : RSFec) (lostMap : Nat → Int) :
    (dataPktRows p lostMap).recvCount = Nat.count (Got lostMap) p.dataPktNum ∧
      RowsOk p lostMap (dataPktRows p lostMap).recvCount (dataPktRows p lostMap).deSubGM ∧
      LostOk lostMap p.dataPktNum (dataPktRows p lostMap) :=
  forRange_inv
    (fun i (t : SubGM) => t.recvCount = Nat.count (Got lostMap) i ∧
      RowsOk p lostMap t.recvCount t.deSubGM ∧ LostOk lostMap i t)
    ⟨rfl, ⟨fun a ha => absurd ha (Nat.not_lt_zero a), fun _ _ _ => rfl⟩,
      ⟨fun s hs => absurd hs (Nat.not_lt_zero s), fun j hj => absurd hj (Nat.not_lt_zero j)⟩⟩
    (fun _ _ hi h => dataPktRow_ok hi h)

/-- The lost data packets are noted, however many packets were received. -/
theorem subGM_lost (p : RSFec) (lostMap : Nat → Int) :
    LostOk lostMap p.dataPktNum (subGM p lostMap) := by
  -- the parity loop does not touch the list of lost packets
  have hkeep : ∀ {t u : SubGM} {i : Nat}, LostOk lostMap p.dataPktNum t →
      (fecPktRow p lostMap t i = .yield u ∨ fecPktRow p lostMap t i = .done u) →
      LostOk lostMap p.dataPktNum u := by
    intro t u i hl hu
    obtain ⟨hid, hc⟩ := fecPktRow_lost hu
    constructor
    · rw [hid, hc]
      exact hl.sound
    · rw [hid, hc]
      exact hl.complete
  unfold subGM
  exact forBreak_inv (fun _ t => LostOk lostMap p.dataPktNum t) _ (dataPktRows_ok p lostMap).2.2
    (fun _ _ _ _ _ hl hu => hkeep hl (Or.inl hu)) (fun _ _ _ _ _ hl hu => hkeep hl (Or.inr hu))
    (fun _ hl => hl)

/-- **The rows collected.** With at least `K` packets received, the matrix handed to `matrix_invGF256`
    holds the generator rows of the first `K` of them. -/
theorem subGM_rows (p : RSFec) (lostMap : Nat → Int)
    (hgot : p.dataPktNum ≤ Nat.count (Got lostMap) (p.dataPktNum + p.fecPktNum)) :
    RowsOk p lostMap p.dataPktNum (subGM p lostMap).deSubGM := by
  obtain ⟨hcnt, hrows, _⟩ := dataPktRows_ok p lostMap
  unfold subGM
  refine forBreak_inv
    (fun i (t : SubGM) => t.recvCount = Nat.count (Got lostMap) i ∧ t.recvCount ≤ p.dataPktNum ∧
      RowsOk p lostMap t.recvCount t.deSubGM)
    (fun t => RowsOk p lostMap p.dataPktNum t.deSubGM) ⟨hcnt, ?_, hrows⟩ ?_ ?_ ?_
  · rw [hcnt]
    exact Nat.count_le _
  · intro i t u hi _ h hu
    exact fecPktRow_yield hi h hu
  · rintro i t u _ _ ⟨_, hle, hr⟩ hu
    -- the loop breaks only when `K` rows are there
    unfold fecPktRow at hu
    split at hu
    · split at hu
      · cases hu
      · rename_i hfull
        injection hu with hu
        subst hu
        have heq : t.recvCount = p.dataPktNum := by omega
        rwa [heq] at hr
    · cases hu
  · rintro t ⟨hc, hle, hr⟩
    have heq : t.recvCount = p.dataPktNum := by omega
    rwa [heq] at hr

/-! ## The matrix handed to `matrix_invGF256` -/

/-- The Vandermonde matrix of the data packets' evaluation points. -/
def vander (K : Nat) : Matrix (Fin K) (Fin K) GF256 := vandermonde (fun i => GF256.alphaPow i)

theorem toMat_enRight (K : Nat) : toMat K (fun i j => table.mExp (i * j % Q)) = vander K := by
  funext i j
  rw [vander, vandermonde_apply, GF256.alphaPow_pow]
  rfl

theorem alphaPow_injective (hK : K ≤ Q) :
    Function.Injective (fun i : Fin K => GF256.alphaPow i) := by
  intro i j h
  rw [GF256.alphaPow_inj, Nat.mod_eq_of_lt (by omega), Nat.mod_eq_of_lt (by omega)] at h
  exact Fin.ext h

theorem vander_det_ne_zero (hK : K ≤ Q) : (vander K).det ≠ 0 :=
  det_vandermonde_ne_zero_iff.mpr (alphaPow_injective hK)

/-- **`fec_init` returns** for up to 255 data packets, and keeps the geometry. -/
theorem fecInit_some (hK : K ≤ Q) (M S : Nat) :
    ∃ p, fecInit K M S = some p ∧ p.dataPktNum = K ∧ p.fecPktNum = M ∧ p.dataLen = S := by
  have hinv : ∃ C, toMat K (fun i j => table.mExp (i * j % Q)) * C = 1 := by
    rw [toMat_enRight]
    exact ⟨_, mul_nonsing_inv _ (isUnit_iff_ne_zero.mpr (vander_det_ne_zero hK))⟩
  obtain ⟨inv, hinv⟩ := matrixInvGF256_isSome hinv
  unfold fecInit
  rw [hinv]
  exact ⟨_, rfl, rfl, rfl, rfl⟩

/-- The generator rows times the data packets' Vandermonde matrix are rows of powers: packet `i` carries
    the evaluation at `ALPHA ^ i`. -/
theorem genRow_mul_vander (h : fecInit K M S = some p)
    (hi : i < K + M) (c : Fin K) :
    ∑ j : Fin K, (⟨genRow p i j⟩ : GF256) * vander K j c = GF256.alphaPow i ^ c.val := by
  unfold fecInit at h
  simp only [Option.bind_eq_bind, Option.bind_eq_some_iff, Option.some.injEq] at h
  obtain ⟨inv, hinv, rfl⟩ := h
  have hleft := matrixInvGF256_mul hinv
  rw [toMat_enRight] at hleft
  unfold genRow
  by_cases hiK : i < K
  · -- a unit row picks row `i` of the Vandermonde matrix
    simp only [if_pos hiK]
    rw [Finset.sum_eq_single (⟨i, hiK⟩ : Fin K)]
    · rw [if_pos rfl, GF256.mk_one, one_mul, vander, vandermonde_apply]
    · intro j _ hj
      rw [if_neg (fun he => hj (Fin.ext he.symm)), show (⟨0⟩ : GF256) = 0 from rfl, zero_mul]
    · intro hno
      exact absurd (Finset.mem_univ _) hno
  · -- a parity row is a row of `en_left` times the inverse, which cancels
    simp only [if_neg hiK]
    have hentry : ∀ j : Fin K, (⟨matrixMulGF256 (fun i j => table.mExp ((K + i) * j % Q)) inv
          (fun _ _ => 0) M K K (i - K) j⟩ : GF256)
        = ∑ k : Fin K, GF256.alphaPow (i * k) * toMat K inv k j := by
      intro j
      rw [mk_matrixMulGF256, if_pos ⟨by omega, j.isLt⟩, show (⟨0⟩ : GF256) = 0 from rfl, zero_add,
        Finset.sum_range]
      apply Finset.sum_congr rfl
      intro k _
      rw [show K + (i - K) = i by omega]
      rfl
    calc ∑ j : Fin K, (⟨matrixMulGF256 (fun i j => table.mExp ((K + i) * j % Q)) inv
            (fun _ _ => 0) M K K (i - K) j⟩ : GF256) * vander K j c
        = ∑ j : Fin K, ∑ k : Fin K, GF256.alphaPow (i * k) * toMat K inv k j * vander K j c := by
          apply Finset.sum_congr rfl
          intro j _
          rw [hentry, Finset.sum_mul]
      _ = ∑ k : Fin K, GF256.alphaPow (i * k) * (toMat K inv * vander K) k c := by
          rw [Finset.sum_comm]
          apply Finset.sum_congr rfl
          intro k _
          rw [Matrix.mul_apply, Finset.mul_sum]
          apply Finset.sum_congr rfl
          intro j _
          rw [mul_assoc]
      _ = GF256.alphaPow i ^ c.val := by
          rw [hleft, Finset.sum_eq_single c]
          · rw [one_apply_eq, mul_one, GF256.alphaPow_pow]
          · intro k _ hk
            rw [one_apply_ne hk, mul_zero]
          · intro hno
            exact absurd (Finset.mem_univ c) hno

/-- **When the matrix is invertible.** The rows collected have an inverse exactly when the packets they
    belong to have pairwise distinct indices modulo the order 255 of `ALPHA`. -/
theorem subGM_invertible_iff (h : fecInit K M S = some p) (hK : K ≤ Q)
    (hgot : K ≤ Nat.count (Got lostMap) (K + M)) {de : Rows}
    (hpK : p.dataPktNum = K) (hde : RowsOk p lostMap K de) :
    (∃ C, toMat K de * C = 1) ↔
      ∀ a < K, ∀ b < K, Nat.nth (Got lostMap) a % Q = Nat.nth (Got lostMap) b % Q → a = b := by
  have hmul : toMat K de * vander K
      = vandermonde (fun a : Fin K => GF256.alphaPow (Nat.nth (Got lostMap) a)) := by
    funext a c
    have hlt := (nth_of_lt_count (Nat.lt_of_lt_of_le a.isLt hgot)).2.2
    rw [Matrix.mul_apply, vandermonde_apply, ← genRow_mul_vander h hlt c]
    apply Finset.sum_congr rfl
    intro j _
    unfold toMat
    rw [hde.rows a a.isLt j (by rw [hpK]; exact j.isLt)]
  have hdet : (toMat K de).det * (vander K).det
      = (vandermonde (fun a : Fin K => GF256.alphaPow (Nat.nth (Got lostMap) a))).det := by
    rw [← det_mul, hmul]
  have hinj : (toMat K de).det ≠ 0 ↔
      Function.Injective (fun a : Fin K => GF256.alphaPow (Nat.nth (Got lostMap) a)) := by
    rw [← det_vandermonde_ne_zero_iff, ← hdet]
    constructor
    · intro hd
      exact mul_ne_zero hd (vander_det_ne_zero hK)
    · intro hd
      exact left_ne_zero_of_mul hd
  have hunit : (∃ C, toMat K de * C = 1) ↔ (toMat K de).det ≠ 0 := by
    constructor
    · rintro ⟨C, hC⟩ h0
      have hd := congrArg det hC
      rw [det_mul, h0, zero_mul, det_one] at hd
      exact zero_ne_one hd
    · intro hd
      exact ⟨_, mul_nonsing_inv _ (isUnit_iff_ne_zero.mpr hd)⟩
  rw [hunit, hinj]
  constructor
  · intro hf a ha b hb he
    exact congrArg Fin.val (@hf ⟨a, ha⟩ ⟨b, hb⟩ (GF256.alphaPow_inj.mpr he))
  · intro hf a b he
    exact Fin.ext (hf a a.isLt b b.isLt (GF256.alphaPow_inj.mp he))

/-! ## Gathering and rebuilding -/

/-- Packet `i` of a group as `fec_decode` reads it. -/
def packet (p : RSFec) (data fecData : Rows) (i : Nat) : Nat → BYTE :=
  if i < p.dataPktNum then data i else fecData (i - p.dataPktNum)

/-- After round `i` the packets received so far have been gathered in order. -/
structure GatherOk (p : RSFec) (data fecData : Rows) (lostMap : Nat → Int) (i : Nat) (t : RecvData) :
    Prop where
  count : t.tmpCount = Nat.count (Got lostMap) i
  rows : ∀ a < t.tmpCount, ∀ r < p.dataLen,
    t.recvData a r = packet p data fecData (Nat.nth (Got lostMap) a) r

theorem copyPkt_ok {t : RecvData}
    (hz : lostMap i = 0 ∨ lostMap i = 1) (h : GatherOk p data fecData lostMap i t) :
    GatherOk p data fecData lostMap (i + 1) (copyPkt p data fecData lostMap t i) := by
  unfold copyPkt
  rcases hz with hz | ho
  · have hng : ¬ Got lostMap i := by unfold Got; omega
    rw [if_neg (not_not.mpr hz)]
    exact ⟨by simp [Nat.count_succ, hng, h.count], h.rows⟩
  · have hg : Got lostMap i := ho
    rw [if_pos (by omega)]
    refine ⟨by simp [Nat.count_succ, hg, h.count], ?_⟩
    intro a ha r hr
    simp only at ha ⊢
    rcases Nat.lt_succ_iff_lt_or_eq.mp ha with hlt | rfl
    · rw [Function.update_of_ne (Nat.ne_of_lt hlt), h.rows a hlt r hr]
    · rw [Function.update_self, memcpy, if_pos hr, h.count, Nat.nth_count hg]
      rfl

/-- **The packets gathered** are the first `K` received, in order. -/
theorem recvPkts_apply (p : RSFec) (heap data fecData : Rows)
    (hok : LostMapOk (p.dataPktNum + p.fecPktNum) lostMap)
    (hgot : p.dataPktNum ≤ Nat.count (Got lostMap) (p.dataPktNum + p.fecPktNum)) :
    ∀ a < p.dataPktNum, ∀ r < p.dataLen, (recvPkts p heap data fecData lostMap).recvData a r
        = packet p data fecData (Nat.nth (Got lostMap) a) r := by
  unfold recvPkts
  refine forBreak_inv (GatherOk p data fecData lostMap)
    (fun t => ∀ a < p.dataPktNum, ∀ r < p.dataLen,
      t.recvData a r = packet p data fecData (Nat.nth (Got lostMap) a) r) ?_ ?_ ?_ ?_
  · exact ⟨rfl, fun a ha => absurd ha (Nat.not_lt_zero a)⟩
  · intro i t u _ hi h hu
    have hcopy := copyPkt_ok (hok i (by omega)) h
    simp only [recvPkt] at hu
    split at hu
    · cases hu
    · injection hu with hu
      exact hu ▸ hcopy
  · -- the loop stops with exactly `K` packets
    intro i t u _ hi h hu
    have hcopy := copyPkt_ok (hok i (by omega)) h
    simp only [recvPkt] at hu
    split at hu
    · rename_i hK
      injection hu with hu
      subst hu
      intro a ha
      exact hcopy.rows a (by rw [hK]; exact ha)
    · cases hu
  · intro t h a ha
    rw [Nat.zero_add] at h
    exact h.rows a (Nat.lt_of_lt_of_le ha (by rw [h.count]; exact hgot))

/-- One rebuilt packet; the others keep their bytes. -/
theorem mk_rebuildPkt (p : RSFec) (inv recv data : Rows) (cur a r : Nat) :
    (⟨rebuildPkt p inv recv data cur a r⟩ : GF256)
      = if a = cur ∧ r < p.dataLen then
          ∑ l ∈ Finset.range p.dataPktNum, (⟨inv cur l⟩ : GF256) * ⟨recv l r⟩
        else ⟨data a r⟩ := by
  unfold rebuildPkt
  rw [mk_mulRow, Function.update_self]
  by_cases har : a = cur ∧ r < p.dataLen
  · rw [if_pos har, if_pos har, memzero, if_pos har.2, show (⟨0⟩ : GF256) = 0 from rfl, zero_add]
  · rw [if_neg har, if_neg har]
    by_cases ha : a = cur
    · rw [ha, Function.update_self, memzero, if_neg (fun hr => har ⟨ha, hr⟩)]
    · rw [Function.update_of_ne ha]

/-- The rebuild loop: the packets named so far are rebuilt, the others keep their bytes. -/
theorem mk_rebuild (p : RSFec) (inv recv data : Rows) (ids : Nat → Nat) (n a r : Nat) :
    (⟨forRange n (fun data i => rebuildPkt p inv recv data (ids i)) data a r⟩ : GF256)
      = if (∃ i < n, ids i = a) ∧ r < p.dataLen then
          ∑ l ∈ Finset.range p.dataPktNum, (⟨inv a l⟩ : GF256) * ⟨recv l r⟩
        else ⟨data a r⟩ := by
  have hinv : ∀ a r, (⟨forRange n (fun data i => rebuildPkt p inv recv data (ids i)) data a r⟩ : GF256)
      = if (∃ i < n, ids i = a) ∧ r < p.dataLen then
          ∑ l ∈ Finset.range p.dataPktNum, (⟨inv a l⟩ : GF256) * ⟨recv l r⟩
        else ⟨data a r⟩ := by
    refine forRange_inv (fun k (t : Rows) => ∀ a r, (⟨t a r⟩ : GF256)
      = if (∃ i < k, ids i = a) ∧ r < p.dataLen then
          ∑ l ∈ Finset.range p.dataPktNum, (⟨inv a l⟩ : GF256) * ⟨recv l r⟩
        else ⟨data a r⟩) ?_ ?_
    · intro a r
      rw [if_neg (by rintro ⟨⟨i, hi, _⟩, _⟩; exact Nat.not_lt_zero i hi)]
    · intro k t _ ht a r
      rw [mk_rebuildPkt]
      by_cases hak : a = ids k ∧ r < p.dataLen
      · rw [if_pos hak, if_pos ⟨⟨k, Nat.lt_succ_self k, hak.1.symm⟩, hak.2⟩, hak.1]
      · rw [if_neg hak, ht]
        refine if_congr ?_ rfl rfl
        constructor
        · rintro ⟨⟨i, hi, he⟩, hr⟩
          exact ⟨⟨i, Nat.lt_succ_of_lt hi, he⟩, hr⟩
        · rintro ⟨⟨i, hi, he⟩, hr⟩
          rcases Nat.lt_succ_iff_lt_or_eq.mp hi with hlt | rfl
          · exact ⟨⟨i, hlt, he⟩, hr⟩
          · exact absurd ⟨he.symm, hr⟩ hak
  exact hinv a r

/-- A packet not in the loop's list keeps all of its bytes. -/
theorem rebuild_of_ne (p : RSFec) (inv recv data : Rows) {ids : Nat → Nat} {n a : Nat}
    (h : ∀ i < n, ids i ≠ a) :
    forRange n (fun data i => rebuildPkt p inv recv data (ids i)) data a = data a := by
  funext r
  have hr := mk_rebuild p inv recv data ids n a r
  rw [if_neg (by rintro ⟨⟨i, hi, he⟩, _⟩; exact h i hi he)] at hr
  exact congrArg GF256.byte hr

/-! ## `fec_decode` -/

/-- `fec_decode` returns exactly when the rows collected have an inverse. -/
theorem fecDecode_isSome_iff (p : RSFec) (heap data fecData : Rows) (lostMap : Nat → Int) :
    (∃ out, fecDecode p heap data fecData lostMap = some out) ↔
      ∃ C, toMat p.dataPktNum (subGM p lostMap).deSubGM * C = 1 := by
  unfold fecDecode
  constructor
  · rintro ⟨out, h⟩
    simp only [Option.bind_eq_bind, Option.bind_eq_some_iff] at h
    obtain ⟨inv, hinv, _⟩ := h
    exact ⟨toMat p.dataPktNum inv, mul_eq_one_comm.mp (matrixInvGF256_mul hinv)⟩
  · intro h
    obtain ⟨inv, hinv⟩ := matrixInvGF256_isSome h
    simp only [hinv, Option.bind_eq_bind, Option.bind_some]
    exact ⟨_, rfl⟩

/-- **`fec_decode` leaves every received data packet unchanged**, whatever else it does. -/
theorem fecDecode_received
    (h : fecDecode p heap data fecData lostMap = some out) (hi : Got lostMap i) :
    out i = data i := by
  unfold fecDecode at h
  simp only [Option.bind_eq_bind, Option.bind_eq_some_iff, Option.some.injEq] at h
  obtain ⟨inv, _, rfl⟩ := h
  apply rebuild_of_ne
  intro s hs he
  exact ((subGM_lost p lostMap).sound s hs).2 (he ▸ hi)

/-- **`fec_decode` rebuilds the lost data packets.** If every received packet is the generator row of its
    index times the original packets, each lost data packet comes out as the original one. -/
theorem fecDecode_rebuilds {orig : Rows}
    (h : fecDecode p heap data fecData lostMap = some out)
    (hok : LostMapOk (p.dataPktNum + p.fecPktNum) lostMap)
    (hgot : p.dataPktNum ≤ Nat.count (Got lostMap) (p.dataPktNum + p.fecPktNum))
    (hpkt : ∀ i < p.dataPktNum + p.fecPktNum, Got lostMap i → ∀ r < p.dataLen, (⟨packet p data fecData i r⟩ : GF256)
        = ∑ b : Fin p.dataPktNum, (⟨genRow p i b⟩ : GF256) * ⟨orig b r⟩) (hi : i < p.dataPktNum)
          (hlost : ¬ Got lostMap i) {r : Nat} (hr : r < p.dataLen) :
    out i r = orig i r := by
  have hrows := subGM_rows p lostMap hgot
  have hids := subGM_lost p lostMap
  unfold fecDecode at h
  simp only [Option.bind_eq_bind, Option.bind_eq_some_iff, Option.some.injEq] at h
  obtain ⟨inv, hinv, rfl⟩ := h
  have hleft := matrixInvGF256_mul hinv
  have hmk := mk_rebuild p inv (recvPkts p heap data fecData lostMap).recvData data
    (subGM p lostMap).lostPktId (subGM p lostMap).lostPktCnt i r
  rw [if_pos ⟨hids.complete i hi hlost, hr⟩, Finset.sum_range] at hmk
  -- each gathered packet is a row of the collected matrix times the originals
  have hrecv : ∀ l : Fin p.dataPktNum, (⟨(recvPkts p heap data fecData lostMap).recvData l r⟩ : GF256)
        = ∑ b : Fin p.dataPktNum, toMat p.dataPktNum (subGM p lostMap).deSubGM l b * ⟨orig b r⟩ := by
    intro l
    obtain ⟨hg, _, hlt⟩ := nth_of_lt_count (Nat.lt_of_lt_of_le l.isLt hgot)
    rw [recvPkts_apply p heap data fecData hok hgot l l.isLt r hr, hpkt _ hlt hg r hr]
    apply Finset.sum_congr rfl
    intro b _
    unfold toMat
    rw [hrows.rows l l.isLt b b.isLt]
  have hval : (⟨orig i r⟩ : GF256)
      = ∑ l : Fin p.dataPktNum, (⟨inv i l⟩ : GF256)
          * ⟨(recvPkts p heap data fecData lostMap).recvData l r⟩ := by
    calc (⟨orig i r⟩ : GF256)
        = ∑ b : Fin p.dataPktNum, (toMat p.dataPktNum inv * toMat p.dataPktNum (subGM p lostMap).deSubGM) ⟨i, hi⟩ b
              * ⟨orig b r⟩ := by
          rw [hleft, Finset.sum_eq_single (⟨i, hi⟩ : Fin p.dataPktNum)]
          · rw [one_apply_eq, one_mul]
          · intro b _ hb
            rw [one_apply_ne (Ne.symm hb), zero_mul]
          · intro hno
            exact absurd (Finset.mem_univ _) hno
      _ = ∑ b : Fin p.dataPktNum, ∑ l : Fin p.dataPktNum, (⟨inv i l⟩ : GF256)
            * (toMat p.dataPktNum (subGM p lostMap).deSubGM l b * ⟨orig b r⟩) := by
          apply Finset.sum_congr rfl
          intro b _
          rw [Matrix.mul_apply, Finset.sum_mul]
          apply Finset.sum_congr rfl
          intro l _
          rw [mul_assoc]
          rfl
      _ = ∑ l : Fin p.dataPktNum, (⟨inv i l⟩ : GF256)
            * ⟨(recvPkts p heap data fecData lostMap).recvData l r⟩ := by
          rw [Finset.sum_comm]
          apply Finset.sum_congr rfl
          intro l _
          rw [hrecv l, Finset.mul_sum]
  rw [← hval] at hmk
  exact congrArg GF256.byte hmk

end HiSTB.Fec
