import HiSTB.Fec.Matrix
import HiSTB.Lib.GaussJordan

/-!
# `Fec.Correctness.Inverse` — `matrix_invGF256` inverts

Reads the `n × n` corner of a `PBYTE*` as a matrix over `GF256` (`toMat`) and follows the routine:

* each loop has an entry-wise description (`*_apply`);
* a round is one row swap and one `exchange` of `Lib.GaussJordan` (`invRound_cases`), or it ends the
  process because the part not yet pivoted is zero;
* hence the storage stays `Mixed` (`InvOk`), and the final column swaps undo the row labels.

Main results: `matrixInvGF256_mul` (what is returned is a left inverse) and `matrixInvGF256_isSome` (the
routine returns whenever an inverse exists).
-/

namespace HiSTB.Fec

open Lib Matrix

variable {m matrix : Rows} {c n j i : Nat} {ipiv indxr indxc : Nat → Nat} {p : PivotSearch}

/-- The `n × n` corner of a `PBYTE*` as a matrix over the field. -/
def toMat (n : Nat) (m : Rows) : Matrix (Fin n) (Fin n) GF256 := fun i j => ⟨m i j⟩

/-! ## Cells -/

theorem setCell_apply (m : Rows) (i j : Nat) (v : BYTE) (a b : Nat) :
    setCell m i j v a b = if a = i ∧ b = j then v else m a b := by
  unfold setCell
  by_cases ha : a = i
  · subst ha
    by_cases hb : b = j
    · subst hb
      simp
    · simp [hb]
  · simp [ha]

theorem swapCell_apply (m : Rows) (i j k l a b : Nat) :
    swapCell m i j k l a b
      = if a = k ∧ b = l then m i j else if a = i ∧ b = j then m k l else m a b := by
  unfold swapCell
  rw [setCell_apply, setCell_apply]

theorem mk_mulAcc (c a b : BYTE) : (⟨mulAcc c a b⟩ : GF256) = ⟨c⟩ + ⟨a⟩ * ⟨b⟩ := by
  rw [← GF256.mk_gfMul]
  unfold mulAcc
  ext1
  by_cases h : a ≠ 0 ∧ b ≠ 0
  · rw [if_pos h, GF256.byte_add, if_pos h]
  · rw [if_neg h, GF256.byte_add, if_neg h]
    exact BitVec.xor_zero.symm

/-! ## The row operations of a round -/

/-- A loop along row `c` that computes each new entry from the entry's old value and the other rows. -/
theorem rowLoop_apply {f : Rows → Nat → BYTE} {v : Nat → BYTE}
    (hf : ∀ t l, l < n → (∀ a, a ≠ c → t a = m a) → t c l = m c l → f t l = v l) (a b : Nat) :
    forRange n (fun t l => setCell t c l (f t l)) m a b = if a = c ∧ b < n then v b else m a b := by
  have hinv : (∀ a, a ≠ c → forRange n (fun t l => setCell t c l (f t l)) m a = m a) ∧
      ∀ b, forRange n (fun t l => setCell t c l (f t l)) m c b = if b < n then v b else m c b := by
    refine forRange_inv (fun i (t : Rows) => (∀ a, a ≠ c → t a = m a) ∧
      ∀ b, t c b = if b < i then v b else m c b) ⟨fun a _ => rfl, fun b => by simp⟩ ?_
    rintro i t hi ⟨hrest, hrow⟩
    have hcell : f t i = v i := hf t i hi hrest (by rw [hrow, if_neg (Nat.lt_irrefl i)])
    refine ⟨?_, ?_⟩
    · intro a ha
      funext b
      rw [setCell_apply, if_neg (fun h => ha h.1), hrest a ha]
    · intro b
      rw [setCell_apply, hcell, hrow]
      by_cases hb : b = i
      · rw [if_pos ⟨rfl, hb⟩, if_pos (by omega), hb]
      · rw [if_neg (fun h => hb h.2)]
        exact if_congr (by omega) rfl rfl
  by_cases ha : a = c
  · subst ha
    rw [hinv.2 b]
    exact if_congr (by simp) rfl rfl
  · rw [hinv.1 a ha, if_neg (fun h => ha h.1)]

theorem swapRows_apply (m : Rows) (n r c a b : Nat) :
    forRange n (fun m l => swapCell m r l c l) m a b
      = if b < n then m (Equiv.swap r c a) b else m a b := by
  have hinv : ∀ a b, forRange n (fun m l => swapCell m r l c l) m a b
      = if b < n then m (Equiv.swap r c a) b else m a b := by
    refine forRange_inv (fun i (t : Rows) => ∀ a b, t a b
      = if b < i then m (Equiv.swap r c a) b else m a b) (fun a b => by simp) ?_
    intro i t _ ht a b
    rw [swapCell_apply, ht, ht, ht, if_neg (Nat.lt_irrefl i), if_neg (Nat.lt_irrefl i)]
    by_cases hb : b = i
    · subst hb
      rw [if_neg (Nat.lt_irrefl b), if_pos (Nat.lt_succ_self b)]
      by_cases hac : a = c
      · rw [if_pos ⟨hac, rfl⟩, hac, Equiv.swap_apply_right]
      · by_cases har : a = r
        · rw [if_neg (fun h => hac h.1), if_pos ⟨har, rfl⟩, har, Equiv.swap_apply_left]
        · rw [if_neg (fun h => hac h.1), if_neg (fun h => har h.1),
            Equiv.swap_apply_of_ne_of_ne har hac]
    · rw [if_neg (fun h => hb h.2), if_neg (fun h => hb h.2)]
      exact if_congr (by omega) rfl rfl
  exact hinv a b

/-- Dividing a symbol by a non-zero pivot through the tables. -/
theorem mk_scale {p : BYTE} (hp : p ≠ 0) (x : BYTE) :
    (⟨if x ≠ 0 then table.mExp ((table.mLog x + (Q - table.mLog p)) % Q) else x⟩ : GF256)
      = ⟨x⟩ / ⟨p⟩ := by
  have hp' : (⟨p⟩ : GF256) ≠ 0 := fun h => hp (GF256.mk_eq_zero.mp h)
  rw [eq_div_iff hp']
  by_cases hx : x = 0
  · subst hx
    rw [if_neg (by simp), show (⟨0⟩ : GF256) = 0 from rfl, zero_mul]
  · rw [if_pos hx]
    -- both symbols are powers, and the logarithms cancel
    have hx' : (⟨x⟩ : GF256) ≠ 0 := fun h => hx (GF256.mk_eq_zero.mp h)
    obtain ⟨j, hj⟩ := GF256.powerTable.exists_exp hp'
    obtain ⟨i, hi⟩ := GF256.powerTable.exists_exp hx'
    have hlogp : table.mLog p = j % Q := by
      have h := GF256.powerTable.log_exp j
      rwa [← hj] at h
    have hlogx : table.mLog x = i % Q := by
      have h := GF256.powerTable.log_exp i
      rwa [← hi] at h
    rw [hlogp, hlogx, hj, hi]
    change GF256.alphaPow (i % Q + (Q - j % Q)) * GF256.alphaPow j = GF256.alphaPow i
    rw [GF256.alphaPow_mul, GF256.alphaPow_inj]
    have hq : i % Q + (Q - j % Q) + j = i % Q + Q + (j - j % Q) := by
      have hlt : j % Q < Q := Nat.mod_lt j (by decide)
      have hle : j % Q ≤ j := Nat.mod_le j Q
      omega
    have hdiv : j - j % Q = Q * (j / Q) := by
      have := Nat.div_add_mod j Q
      omega
    rw [hq, hdiv, Nat.add_mul_mod_self_left, Nat.add_mod_right, Nat.mod_mod]

/-- The pivot row is divided by the pivot, `1` standing in the pivot's place. -/
theorem mk_scaleRow (hp : m c c ≠ 0) {b : Nat} (hb : b < n) :
    (⟨scaleRow m n c c b⟩ : GF256) = (if b = c then 1 else ⟨m c b⟩) / ⟨m c c⟩ := by
  have hbody : (fun (t : Rows) l =>
        if t c l ≠ 0 then setCell t c l (table.mExp ((table.mLog (t c l) + (Q - table.mLog (m c c))) % Q))
        else t)
      = fun t l => setCell t c l (if t c l ≠ 0 then
          table.mExp ((table.mLog (t c l) + (Q - table.mLog (m c c))) % Q) else t c l) := by
    funext t l
    by_cases hz : t c l ≠ 0
    · rw [if_pos hz, if_pos hz]
    · rw [if_neg hz, if_neg hz]
      unfold setCell
      rw [Function.update_eq_self, Function.update_eq_self]
  unfold scaleRow
  rw [hbody]
  rw [rowLoop_apply (v := fun l => if setCell m c c 0x1 c l ≠ 0 then
      table.mExp ((table.mLog (setCell m c c 0x1 c l) + (Q - table.mLog (m c c))) % Q)
      else setCell m c c 0x1 c l) (fun t l _ _ hcell => by rw [hcell]), if_pos ⟨rfl, hb⟩, mk_scale hp]
  congr 1
  rw [setCell_apply]
  by_cases hbc : b = c
  · rw [if_pos ⟨rfl, hbc⟩, if_pos hbc, ← GF256.mk_one]
  · rw [if_neg (fun h => hbc h.2), if_neg hbc]

theorem scaleRow_of_ne (m : Rows) (n : Nat) {a : Nat} (ha : a ≠ c) : scaleRow m n c a = m a := by
  unfold scaleRow
  refine forRange_inv (fun _ (t : Rows) => t a = m a) ?_ ?_
  · unfold setCell
    rw [Function.update_of_ne ha]
  · intro l t _ ht
    split
    · unfold setCell
      rw [Function.update_of_ne ha, ht]
    · exact ht

theorem eliminateRow_apply (m : Rows) (n c ll a b : Nat) :
    eliminateRow n c m ll a b
      = if a = ll ∧ a ≠ c then
          (if b < n then mulAcc (if b = c then 0 else m a b) (m c b) (m a c) else if b = c then 0 else m a b)
        else m a b := by
  unfold eliminateRow
  by_cases hll : ll = c
  · subst hll
    rw [if_neg (not_not.mpr rfl), if_neg (fun h => h.2 h.1)]
  · rw [if_pos hll]
    have hval := rowLoop_apply (m := setCell m ll c 0) (c := ll) (n := n)
      (f := fun t l => mulAcc (t ll l) (t c l) (m ll c))
      (v := fun l => mulAcc (setCell m ll c 0 ll l) (m c l) (m ll c))
      (fun t l _ hrest hcell => by
        rw [hcell, hrest c (fun h => hll h.symm), setCell_apply m ll c 0 c l,
          if_neg (fun h => hll h.1.symm)]) a b
    rw [hval]
    by_cases ha : a = ll
    · subst ha
      simp only [true_and, setCell_apply, if_pos (show a ≠ c from hll)]
    · rw [if_neg (fun h => ha h.1), if_neg (fun h => ha h.1), setCell_apply, if_neg (fun h => ha h.1)]

/-- Rows other than the pivot row after the elimination loop. -/
theorem eliminate_apply (m : Rows) (n c a b : Nat) :
    forRange n (eliminateRow n c) m a b
      = if a < n ∧ a ≠ c then
          (if b < n then mulAcc (if b = c then 0 else m a b) (m c b) (m a c) else if b = c then 0 else m a b)
        else m a b := by
  have hinv : ∀ a b, forRange n (eliminateRow n c) m a b
      = if a < n ∧ a ≠ c then
          (if b < n then mulAcc (if b = c then 0 else m a b) (m c b) (m a c) else if b = c then 0 else m a b)
        else m a b := by
    refine forRange_inv (fun i (t : Rows) => ∀ a b, t a b = if a < i ∧ a ≠ c then
          (if b < n then mulAcc (if b = c then 0 else m a b) (m c b) (m a c) else if b = c then 0 else m a b)
        else m a b) (fun a b => by simp) ?_
    intro i t _ ht a b
    -- the pivot row is never rewritten, and row `i` is still untouched
    have hpiv : ∀ b, t c b = m c b := fun b => by rw [ht, if_neg (fun h => h.2 rfl)]
    have hrow : ∀ b, t i b = m i b := fun b => by rw [ht, if_neg (fun h => Nat.lt_irrefl i h.1)]
    rw [eliminateRow_apply, hpiv]
    by_cases hai : a = i
    · subst hai
      rw [hrow, hrow]
      exact if_congr (by omega) rfl rfl
    · rw [if_neg (fun h => hai h.1), ht]
      exact if_congr (by omega) rfl rfl
  exact hinv a b

/-- **Dividing and eliminating is one exchange step.** -/
theorem toMat_eliminate (hc : c < n) (hp : m c c ≠ 0) :
    toMat n (forRange n (eliminateRow n c) (scaleRow m n c)) = exchange (toMat n m) ⟨c, hc⟩ := by
  funext a b
  unfold toMat exchange
  simp only [Fin.ext_iff]
  rw [eliminate_apply]
  by_cases ha : a.val = c
  · rw [if_neg (fun h => h.2 ha), if_pos ha, ha, mk_scaleRow hp b.isLt]
  · rw [if_pos ⟨a.isLt, ha⟩, if_pos b.isLt, if_neg ha, mk_mulAcc, mk_scaleRow hp b.isLt, scaleRow_of_ne m n ha]
    -- subtraction in the field is addition
    have hsub : ∀ x y : GF256, x + y = x - y := fun _ _ => rfl
    rw [hsub]
    congr 1
    split <;> rfl

/-! ## The pivot search -/

/-- `ipiv` holds only zeros and ones on the indices in use. -/
def IpivOk (n : Nat) (ipiv : Nat → Nat) : Prop := ∀ k < n, ipiv k = 0 ∨ ipiv k = 1

/-- What the search knows after looking at the entries `seen`: either it has met none to choose from, or
    it holds the largest of them together with its place. -/
structure Searched (matrix : Rows) (ipiv : Nat → Nat) (n : Nat) (seen : Nat → Nat → Prop)
    (p : PivotSearch) : Prop where
  large : ∀ j k, seen j k → ipiv j = 0 → ipiv k = 0 → matrix j k ≤ p.big
  place : (∃ j k, seen j k ∧ ipiv j = 0 ∧ ipiv k = 0) →
    p.irow < n ∧ p.icol < n ∧ ipiv p.irow = 0 ∧ ipiv p.icol = 0 ∧ matrix p.irow p.icol = p.big
  fresh : (¬ ∃ j k, seen j k ∧ ipiv j = 0 ∧ ipiv k = 0) → p.big = 0

/-- `Searched` depends only on which entries to choose from have been seen. -/
theorem Searched.congr {seen seen' : Nat → Nat → Prop} (h : Searched matrix ipiv n seen p)
    (heq : ∀ j k, ipiv j = 0 → ipiv k = 0 → (seen' j k ↔ seen j k)) : Searched matrix ipiv n seen' p where
  large j k hs hj hk := h.large j k ((heq j k hj hk).mp hs) hj hk
  place := by
    rintro ⟨j, k, hs, hj, hk⟩
    exact h.place ⟨j, k, (heq j k hj hk).mp hs, hj, hk⟩
  fresh hno := by
    apply h.fresh
    rintro ⟨j, k, hs, hj, hk⟩
    exact hno ⟨j, k, (heq j k hj hk).mpr hs, hj, hk⟩

/-- Entries met before the probe of row `j`, column `k`. -/
def seenBefore (n j k a b : Nat) : Prop := (a < j ∨ a = j ∧ b < k) ∧ b < n

/-- One probe extends the entries seen by one. -/
theorem pivotProbe_searched {k : Nat}
    (hok : IpivOk n ipiv) (hj : j < n) (hk : k < n) (hpj : ipiv j = 0)
    (h : Searched matrix ipiv n (seenBefore n j k) p) :
    ∃ q, pivotProbe matrix ipiv j p k = some q ∧ Searched matrix ipiv n (seenBefore n j (k + 1)) q := by
  unfold pivotProbe
  rcases hok k hk with hpk | hpk
  · rw [if_pos hpk]
    have hnow : seenBefore n j (k + 1) j k := ⟨Or.inr ⟨rfl, Nat.lt_succ_self k⟩, hk⟩
    have hold : ∀ a b, seenBefore n j (k + 1) a b → ¬ (a = j ∧ b = k) → seenBefore n j k a b := by
      unfold seenBefore
      omega
    by_cases hle : p.big ≤ matrix j k
    · rw [if_pos hle]
      refine ⟨_, rfl, ?_, fun _ => ⟨hj, hk, hpj, hpk, rfl⟩, ?_⟩
      · intro a b hab ha hb
        by_cases hnew : a = j ∧ b = k
        · rw [hnew.1, hnew.2]
          exact BitVec.le_refl _
        · exact BitVec.le_trans (h.large a b (hold a b hab hnew) ha hb) hle
      · intro hno
        exact absurd ⟨j, k, hnow, hpj, hpk⟩ hno
    · rw [if_neg hle]
      -- a larger entry was seen before, so the place is already a real one
      have hseen : ∃ a b, seenBefore n j k a b ∧ ipiv a = 0 ∧ ipiv b = 0 := by
        by_contra hno
        rw [h.fresh hno] at hle
        exact hle (Nat.zero_le _)
      refine ⟨_, rfl, ?_, fun _ => h.place hseen, ?_⟩
      · intro a b hab ha hb
        by_cases hnew : a = j ∧ b = k
        · rw [hnew.1, hnew.2]
          exact BitVec.le_of_lt (BitVec.not_le.mp hle)
        · exact h.large a b (hold a b hab hnew) ha hb
      · intro hno
        exact absurd ⟨j, k, hnow, hpj, hpk⟩ hno
  · rw [if_neg (by omega), if_neg (by omega)]
    -- column `k` is pivoted, so nothing to choose from was added
    refine ⟨_, rfl, h.congr ?_⟩
    intro a b _ hb
    have hbk : b ≠ k := fun he => by rw [he] at hb; omega
    unfold seenBefore
    omega

/-- The search over one row. -/
theorem pivotRow_searched
    (hok : IpivOk n ipiv) (hj : j < n) (h : Searched matrix ipiv n (seenBefore n j 0) p) :
    ∃ q, pivotRow matrix ipiv n p j = some q ∧ Searched matrix ipiv n (seenBefore n (j + 1) 0) q := by
  unfold pivotRow
  rcases hok j hj with hpj | hpj
  · rw [if_pos (by omega)]
    obtain ⟨q, hq, hs⟩ := forRangeM_inv_some (fun k q => Searched matrix ipiv n (seenBefore n j k) q) h
      (fun k q hk hs => pivotProbe_searched hok hj hk hpj hs)
    refine ⟨q, hq, hs.congr ?_⟩
    intro a b _ _
    unfold seenBefore
    omega
  · rw [if_neg (not_not.mpr hpj)]
    refine ⟨p, rfl, h.congr ?_⟩
    intro a b ha _
    have haj : a ≠ j := fun he => by rw [he] at ha; omega
    unfold seenBefore
    omega

/-- **The search finds the largest entry outside the pivoted rows and columns**, as long as there is an
    index left to pivot. -/
theorem pivotSearch_spec (matrix : Rows) (irow icol : Nat)
    (hok : IpivOk n ipiv) (hleft : ∃ k < n, ipiv k = 0) :
    ∃ q, forRangeM n (pivotRow matrix ipiv n) { big := 0, irow := irow, icol := icol } = some q ∧
      q.irow < n ∧ q.icol < n ∧ ipiv q.irow = 0 ∧ ipiv q.icol = 0 ∧
      ∀ j < n, ∀ k < n, ipiv j = 0 → ipiv k = 0 → matrix j k ≤ matrix q.irow q.icol := by
  have h0 : Searched matrix ipiv n (seenBefore n 0 0) { big := 0, irow := irow, icol := icol } := by
    refine ⟨?_, ?_, fun _ => rfl⟩
    · rintro j k ⟨hs, _⟩
      omega
    · rintro ⟨j, k, ⟨hs, _⟩, _⟩
      omega
  obtain ⟨q, hq, hs⟩ := forRangeM_inv_some (fun j q => Searched matrix ipiv n (seenBefore n j 0) q) h0
    (fun j q hj hs => pivotRow_searched hok hj hs)
  obtain ⟨k, hk, hpk⟩ := hleft
  obtain ⟨hr, hc, hpr, hpc, hbig⟩ := hs.place ⟨k, k, ⟨Or.inl hk, hk⟩, hpk, hpk⟩
  refine ⟨q, hq, hr, hc, hpr, hpc, ?_⟩
  intro j hj k hk hpj hpk
  rw [hbig]
  exact hs.large j k ⟨Or.inl hj, hk⟩ hpj hpk

/-! ## One round, and the whole loop -/

/-- The swap of two in-range indices as a permutation of `Fin n`. -/
def swapFin (n a b : Nat) : Equiv.Perm (Fin n) :=
  if h : a < n ∧ b < n then Equiv.swap ⟨a, h.1⟩ ⟨b, h.2⟩ else 1

/-- The row labels after the swaps of the first `i` rounds. -/
def labelPerm (n : Nat) (indxr indxc : Nat → Nat) : Nat → Equiv.Perm (Fin n)
  | 0 => 1
  | i + 1 => labelPerm n indxr indxc i * swapFin n (indxr i) (indxc i)

theorem labelPerm_succ (n : Nat) (indxr indxc : Nat → Nat) (i : Nat) :
    labelPerm n indxr indxc (i + 1) = labelPerm n indxr indxc i * swapFin n (indxr i) (indxc i) := rfl

theorem labelPerm_congr {indxr' indxc' : Nat → Nat}
    (h : ∀ l < i, indxr l = indxr' l ∧ indxc l = indxc' l) :
    labelPerm n indxr indxc i = labelPerm n indxr' indxc' i := by
  induction i with
  | zero => rfl
  | succ i ih =>
    rw [labelPerm_succ, labelPerm_succ, ih (fun l hl => h l (Nat.lt_succ_of_lt hl)), (h i (Nat.lt_succ_self i)).1,
      (h i (Nat.lt_succ_self i)).2]

/-- The indices already pivoted. -/
def pivoted (n : Nat) (ipiv : Nat → Nat) : Finset (Fin n) := Finset.univ.filter (fun k => ipiv k = 1)

theorem mem_pivoted {k : Fin n} : k ∈ pivoted n ipiv ↔ ipiv k = 1 := by
  simp [pivoted]

/-- **Invariant of the main loop** before round `i`, for the input matrix `A`. -/
structure InvOk {n : Nat} (A : Matrix (Fin n) (Fin n) GF256) (i : Nat) (t : InvLoop) : Prop where
  ipiv : IpivOk n t.ipiv
  card : (pivoted n t.ipiv).card = i
  range : ∀ l < i, t.indxr l < n ∧ t.indxc l < n
  mixed : Mixed A (pivoted n t.ipiv) (labelPerm n t.indxr t.indxc i) (toMat n t.matrix)

/-- The row swap of a round as a swap of `toMat`. -/
theorem toMat_swapRows (m : Rows) {r : Nat} (hr : r < n) (hc : c < n) :
    toMat n (if r ≠ c then forRange n (fun m l => swapCell m r l c l) m else m)
      = fun a b => toMat n m (Equiv.swap ⟨r, hr⟩ ⟨c, hc⟩ a) b := by
  have hval : ∀ a : Fin n, (Equiv.swap (⟨r, hr⟩ : Fin n) ⟨c, hc⟩ a).val = Equiv.swap r c a.val := by
    intro a
    rw [Equiv.swap_apply_def, Equiv.swap_apply_def]
    simp only [Fin.ext_iff, apply_ite Fin.val]
  funext a b
  by_cases hrc : r = c
  · subst hrc
    rw [if_neg (not_not.mpr rfl), Equiv.swap_self]
    rfl
  · rw [if_pos hrc]
    unfold toMat
    rw [swapRows_apply, if_pos b.isLt, hval]

/-- Fewer pivoted indices than indices leaves one to pivot. -/
theorem exists_unpivoted (hok : IpivOk n ipiv)
    (hcard : (pivoted n ipiv).card = i) (hi : i < n) : ∃ k < n, ipiv k = 0 := by
  by_contra hno
  have hall : pivoted n ipiv = Finset.univ := by
    apply Finset.eq_univ_of_forall
    intro k
    rw [mem_pivoted]
    rcases hok k k.isLt with hz | ho
    · exact absurd ⟨k.val, k.isLt, hz⟩ hno
    · exact ho
  rw [hall, Finset.card_univ, Fintype.card_fin] at hcard
  omega

theorem pivoted_update (hc : c < n) (hpc : ipiv c = 0) :
    pivoted n (Function.update ipiv c (ipiv c + 1)) = insert ⟨c, hc⟩ (pivoted n ipiv) := by
  ext k
  rw [mem_pivoted, Finset.mem_insert, mem_pivoted, Fin.ext_iff]
  by_cases hk : k.val = c
  · simp [hk, hpc]
  · simp [hk]

/-- **One round.** It keeps the invariant, or it ends the process and the input has no inverse. -/
theorem invRound_cases {A : Matrix (Fin n) (Fin n) GF256} {t : InvLoop} (hi : i < n)
    (h : InvOk A i t) :
    (∃ u, invRound n t i = some u ∧ InvOk A (i + 1) u) ∨
    (invRound n t i = none ∧ ¬ ∃ C, A * C = 1) := by
  obtain ⟨q, hq, hr, hc, hpr, hpc, hmax⟩ := pivotSearch_spec t.matrix t.irow t.icol h.ipiv
    (exists_unpivoted h.ipiv h.card hi)
  have hrP : (⟨q.irow, hr⟩ : Fin n) ∉ pivoted n t.ipiv := by rw [mem_pivoted, hpr]; decide
  have hcP : (⟨q.icol, hc⟩ : Fin n) ∉ pivoted n t.ipiv := by rw [mem_pivoted, hpc]; decide
  have hmix := h.mixed.swapRow hrP hcP
  rw [← toMat_swapRows t.matrix hr hc] at hmix
  -- the entry that the swap brings to the diagonal is the one the search found
  have hdiag : (⟨(if q.irow ≠ q.icol then forRange n (fun m l => swapCell m q.irow l q.icol l) t.matrix
      else t.matrix) q.icol q.icol⟩ : GF256) = ⟨t.matrix q.irow q.icol⟩ := by
    have hd := congrFun (congrFun (toMat_swapRows t.matrix hr hc) ⟨q.icol, hc⟩) ⟨q.icol, hc⟩
    rw [Equiv.swap_apply_right] at hd
    exact hd
  unfold invRound
  rw [hq]
  simp only [Option.bind_eq_bind, Option.bind_some]
  generalize hm : (if q.irow ≠ q.icol then forRange n (fun m l => swapCell m q.irow l q.icol l) t.matrix
      else t.matrix) = m at hmix hdiag
  have hdiag' : m q.icol q.icol = t.matrix q.irow q.icol := congrArg GF256.byte hdiag
  by_cases hz : m q.icol q.icol = 0
  · -- the largest entry is zero, so the pivot row vanishes outside the pivoted columns
    right
    rw [if_pos hz]
    refine ⟨rfl, h.mixed.not_exists_mul_eq_one hrP ?_⟩
    intro k hk
    have hpk : t.ipiv k = 0 := by
      rcases h.ipiv k k.isLt with hk0 | hk1
      · exact hk0
      · exact absurd (mem_pivoted.mpr hk1) hk
    have hle := hmax q.irow hr k k.isLt hpr hpk
    rw [← hdiag', hz] at hle
    exact GF256.mk_eq_zero.mpr (BitVec.le_zero_iff.mp hle)
  · left
    rw [if_neg hz]
    refine ⟨_, rfl, ?_, ?_, ?_, ?_⟩
    · intro k hk
      by_cases hkc : k = q.icol
      · subst hkc
        right
        simp [hpc]
      · simp only [Function.update_of_ne hkc]
        exact h.ipiv k hk
    · simp only [pivoted_update hc hpc]
      rw [Finset.card_insert_of_notMem hcP, h.card]
    · intro l hl
      simp only
      rcases Nat.lt_succ_iff_lt_or_eq.mp hl with hlt | rfl
      · rw [Function.update_of_ne (Nat.ne_of_lt hlt), Function.update_of_ne (Nat.ne_of_lt hlt)]
        exact h.range l hlt
      · rw [Function.update_self, Function.update_self]
        exact ⟨hr, hc⟩
    · simp only [pivoted_update hc hpc]
      rw [toMat_eliminate hc hz]
      have hlabel : labelPerm n (Function.update t.indxr i q.irow) (Function.update t.indxc i q.icol) (i + 1)
          = labelPerm n t.indxr t.indxc i * Equiv.swap ⟨q.irow, hr⟩ ⟨q.icol, hc⟩ := by
        rw [labelPerm_succ, Function.update_self, Function.update_self, swapFin, dif_pos ⟨hr, hc⟩]
        congr 1
        apply labelPerm_congr
        intro l hl
        rw [Function.update_of_ne (Nat.ne_of_lt hl), Function.update_of_ne (Nat.ne_of_lt hl)]
        exact ⟨rfl, rfl⟩
      rw [hlabel]
      exact hmix.pivot hcP (fun h0 => hz (GF256.mk_eq_zero.mp h0))

/-- The state in which the main loop starts. -/
theorem invOk_init (m : Rows) (n : Nat) :
    InvOk (toMat n m) 0 (invInit m) := by
  have hempty : pivoted n (invInit m).ipiv = ∅ := by
    ext k
    rw [mem_pivoted]
    simp [invInit]
  refine ⟨fun _ _ => Or.inl rfl, ?_, fun l hl => absurd hl (Nat.not_lt_zero l), ?_⟩
  · rw [hempty, Finset.card_empty]
  · rw [hempty]
    exact Mixed.init (toMat n m)

/-! ## Undoing the column swaps -/

theorem swapColumns_apply (m : Rows) (n r c a b : Nat) :
    forRange n (fun m k => swapCell m k r k c) m a b
      = if a < n then m a (Equiv.swap r c b) else m a b := by
  have hinv : ∀ a b, forRange n (fun m k => swapCell m k r k c) m a b
      = if a < n then m a (Equiv.swap r c b) else m a b := by
    refine forRange_inv (fun i (t : Rows) => ∀ a b, t a b
      = if a < i then m a (Equiv.swap r c b) else m a b) (fun a b => by simp) ?_
    intro i t _ ht a b
    rw [swapCell_apply, ht, ht, ht, if_neg (Nat.lt_irrefl i), if_neg (Nat.lt_irrefl i)]
    by_cases ha : a = i
    · subst ha
      rw [if_neg (Nat.lt_irrefl a), if_pos (Nat.lt_succ_self a)]
      by_cases hbc : b = c
      · rw [if_pos ⟨rfl, hbc⟩, hbc, Equiv.swap_apply_right]
      · by_cases hbr : b = r
        · rw [if_neg (fun h => hbc h.2), if_pos ⟨rfl, hbr⟩, hbr, Equiv.swap_apply_left]
        · rw [if_neg (fun h => hbc h.2), if_neg (fun h => hbr h.2),
            Equiv.swap_apply_of_ne_of_ne hbr hbc]
    · rw [if_neg (fun h => ha h.1), if_neg (fun h => ha h.1)]
      exact if_congr (by omega) rfl rfl
  exact hinv a b

theorem toMat_unswapColumn (m : Rows) {l : Nat}
    (h : indxr l < n ∧ indxc l < n) :
    toMat n (unswapColumn n indxr indxc m l)
      = fun a b => toMat n m a ((swapFin n (indxr l) (indxc l)).symm b) := by
  have hval : ∀ b : Fin n, (Equiv.swap (⟨indxr l, h.1⟩ : Fin n) ⟨indxc l, h.2⟩ b).val
      = Equiv.swap (indxr l) (indxc l) b.val := by
    intro b
    rw [Equiv.swap_apply_def, Equiv.swap_apply_def]
    simp only [Fin.ext_iff, apply_ite Fin.val]
  funext a b
  rw [swapFin, dif_pos h, Equiv.symm_swap]
  unfold unswapColumn
  by_cases hrc : indxr l = indxc l
  · rw [if_neg (not_not.mpr hrc)]
    simp only [hrc, Equiv.swap_self, Equiv.refl_apply]
  · rw [if_pos hrc]
    unfold toMat
    rw [swapColumns_apply, if_pos a.isLt, hval]

/-- The final loop applies the inverse of the row labels to the columns. -/
theorem toMat_unswapColumns (m : Rows)
    (h : ∀ l < n, indxr l < n ∧ indxc l < n) :
    toMat n (forRange n (fun m k => unswapColumn n indxr indxc m (n - 1 - k)) m)
      = Matrix.of fun a b => toMat n m a ((labelPerm n indxr indxc n).symm b) := by
  have hinv : ∃ τ, labelPerm n indxr indxc n = labelPerm n indxr indxc (n - n) * τ ∧
      toMat n (forRange n (fun m k => unswapColumn n indxr indxc m (n - 1 - k)) m)
        = fun a b => toMat n m a (τ.symm b) := by
    refine forRange_inv (fun k (t : Rows) => ∃ τ : Equiv.Perm (Fin n),
      labelPerm n indxr indxc n = labelPerm n indxr indxc (n - k) * τ ∧
      toMat n t = fun a b => toMat n m a (τ.symm b)) ⟨1, by simp, rfl⟩ ?_
    rintro k t hk ⟨τ, hlabel, ht⟩
    refine ⟨swapFin n (indxr (n - 1 - k)) (indxc (n - 1 - k)) * τ, ?_, ?_⟩
    · rw [hlabel, show n - k = n - 1 - k + 1 by omega, show n - (k + 1) = n - 1 - k by omega,
        labelPerm_succ, mul_assoc]
    · rw [toMat_unswapColumn t (h (n - 1 - k) (by omega)), ht]
      rfl
  obtain ⟨τ, hlabel, ht⟩ := hinv
  rw [Nat.sub_self] at hlabel
  rw [ht, hlabel]
  unfold labelPerm
  rw [one_mul]
  rfl

/-! ## `matrix_invGF256` -/

/-- **What `matrix_invGF256` returns is a left inverse.** -/
theorem matrixInvGF256_mul {inv : Rows} (h : matrixInvGF256 m n = some inv) :
    toMat n inv * toMat n m = 1 := by
  unfold matrixInvGF256 at h
  simp only [Option.bind_eq_bind, Option.bind_eq_some_iff, Option.some.injEq] at h
  obtain ⟨t, ht, rfl⟩ := h
  have hok : InvOk (toMat n m) n t := by
    refine forRangeM_inv (fun i t => InvOk (toMat n m) i t) (invOk_init m n) ?_ ht
    intro i t u hi hinv hu
    rcases invRound_cases hi hinv with ⟨v, hv, hok⟩ | ⟨hnone, _⟩
    · rw [hv, Option.some.injEq] at hu
      exact hu ▸ hok
    · rw [hnone] at hu
      cases hu
  have huniv : pivoted n t.ipiv = Finset.univ := by
    apply Finset.eq_univ_of_card
    rw [hok.card, Fintype.card_fin]
  have hmix := hok.mixed
  rw [huniv] at hmix
  rw [toMat_unswapColumns t.matrix hok.range]
  exact hmix.mul_eq_one

/-- **`matrix_invGF256` returns whenever an inverse exists.** -/
theorem matrixInvGF256_isSome (h : ∃ C, toMat n m * C = 1) :
    ∃ inv, matrixInvGF256 m n = some inv := by
  obtain ⟨t, ht, _⟩ := forRangeM_inv_some (fun i t => InvOk (toMat n m) i t) (invOk_init m n)
    (fun i t hi hinv => (invRound_cases hi hinv).resolve_right (fun hno => hno.2 h))
  unfold matrixInvGF256
  rw [ht]
  exact ⟨_, rfl⟩

end HiSTB.Fec
