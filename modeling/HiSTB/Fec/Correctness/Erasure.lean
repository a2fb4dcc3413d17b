import HiSTB.Fec.Correctness.Decode

/-!
# `Fec.Correctness.Erasure` — the codec as an erasure code

Puts encoder and decoder together. Packet `i` of a group carries the evaluation at `ALPHA ^ i`, and
`ALPHA` has order 255, so

* with `K + M ≤ 255` all evaluation points differ and any `K` packets recover the rest
  (`fecDecode_fecEncode`);
* beyond that a parity packet `i ≥ 255` repeats data packet `i - 255`, and decoding works exactly when no
  parity packet in use repeats a data packet that was received (`fecDecode_isSome_iff_noRepeat`).
-/

namespace HiSTB.Fec

open Lib Matrix

variable {p : RSFec} {i K M : Nat} {lostMap : Nat → Int}

/-- What `fec_encode` writes, starting from zeroed parity packets. -/
theorem mk_fecEncode {data fec₀ : Rows}
    (hzero : ∀ i < p.fecPktNum, ∀ r < p.dataLen, fec₀ i r = 0) {r : Nat} (hi : i < p.fecPktNum)
    (hr : r < p.dataLen) :
    (⟨fecEncode p data fec₀ i r⟩ : GF256)
      = ∑ b : Fin p.dataPktNum, (⟨genRow p (p.dataPktNum + i) b⟩ : GF256) * ⟨data b r⟩ := by
  unfold fecEncode
  rw [mk_matrixMulGF256, if_pos ⟨hi, hr⟩, hzero i hi r hr, show (⟨0⟩ : GF256) = 0 from rfl, zero_add,
    Finset.sum_range]
  apply Finset.sum_congr rfl
  intro b _
  unfold genRow
  rw [if_neg (by omega), show p.dataPktNum + i - p.dataPktNum = i by omega]

/-- A data packet is its unit row times the data. -/
theorem mk_dataPacket (p : RSFec) (data : Rows) (hi : i < p.dataPktNum) (r : Nat) :
    (⟨data i r⟩ : GF256) = ∑ b : Fin p.dataPktNum, (⟨genRow p i b⟩ : GF256) * ⟨data b r⟩ := by
  unfold genRow
  simp only [if_pos hi]
  rw [Finset.sum_eq_single (⟨i, hi⟩ : Fin p.dataPktNum)]
  · rw [if_pos rfl, GF256.mk_one, one_mul]
  · intro b _ hb
    rw [if_neg (fun he => hb (Fin.ext he.symm)), show (⟨0⟩ : GF256) = 0 from rfl, zero_mul]
  · intro hno
    exact absurd (Finset.mem_univ _) hno

/-! ## When decoding succeeds -/

/-- No parity packet among the first `K` packets received repeats a received data packet: a parity packet
    whose index is 255 or more stands at the evaluation point of the packet 255 places earlier. -/
def NoRepeat (K M : Nat) (lostMap : Nat → Int) : Prop :=
  ∀ i < M, Q ≤ K + i → Got lostMap (K + i) → Nat.count (Got lostMap) (K + i) < K →
    ¬ Got lostMap (K + i - Q)

/-- Distinct evaluation points of the packets in use, as a condition on `lost_map`. -/
theorem noRepeat_iff (hK : K ≤ Q) (hM : M ≤ Q)
    (hgot : K ≤ Nat.count (Got lostMap) (K + M)) :
    NoRepeat K M lostMap ↔
      ∀ a < K, ∀ b < K, Nat.nth (Got lostMap) a % Q = Nat.nth (Got lostMap) b % Q → a = b := by
  have hQ : Q = 255 := rfl
  constructor
  · intro h
    -- of two distinct packets with equal residues the later one is a repeated parity packet
    have hlt : ∀ a < K, ∀ b < K, Nat.nth (Got lostMap) a < Nat.nth (Got lostMap) b →
        Nat.nth (Got lostMap) a % Q ≠ Nat.nth (Got lostMap) b % Q := by
      intro a ha b hb hab hmod
      obtain ⟨hga, _, hla⟩ := nth_of_lt_count (Nat.lt_of_lt_of_le ha hgot)
      obtain ⟨hgb, hcb, hlb⟩ := nth_of_lt_count (Nat.lt_of_lt_of_le hb hgot)
      revert hga hla hgb hcb hlb hab hmod
      generalize Nat.nth (Got lostMap) a = x
      generalize Nat.nth (Got lostMap) b = y
      intro hxy hmod hga hla hgb hcb hlb
      rw [hQ] at hmod
      have hyx : y = x + Q := by omega
      have hKy : K ≤ y := by omega
      refine h (y - K) (by omega) (by omega) (by rwa [show K + (y - K) = y by omega])
        (by rw [show K + (y - K) = y by omega, hcb]; exact hb) ?_
      rwa [show K + (y - K) - Q = x by omega]
    intro a ha b hb hmod
    have hca := (nth_of_lt_count (Nat.lt_of_lt_of_le ha hgot)).2.1
    have hcb := (nth_of_lt_count (Nat.lt_of_lt_of_le hb hgot)).2.1
    rcases Nat.lt_trichotomy (Nat.nth (Got lostMap) a) (Nat.nth (Got lostMap) b) with hl | he | hg
    · exact absurd hmod (hlt a ha b hb hl)
    · rw [← hca, ← hcb, he]
    · exact absurd hmod.symm (hlt b hb a ha hg)
  · intro h i hi hQi hg hcount hrep
    have hle : Nat.count (Got lostMap) (K + i - Q) ≤ Nat.count (Got lostMap) (K + i) :=
      Nat.count_monotone _ (Nat.sub_le _ _)
    have heq := h (Nat.count (Got lostMap) (K + i - Q)) (by omega) _ hcount (by
      rw [Nat.nth_count hrep, Nat.nth_count hg, ← Nat.add_mod_right (K + i - Q) Q, show K + i - Q + Q = K + i by omega])
    have hsame := congrArg (Nat.nth (Got lostMap)) heq
    rw [Nat.nth_count hrep, Nat.nth_count hg] at hsame
    omega

/-- **Exactly when `fec_decode` does not end the process**, for a codec initialised with up to 255 data
    packets and a group of which at least `K` packets were received. -/
theorem fecDecode_isSome_iff_noRepeat {S : Nat} (h : fecInit K M S = some p)
    (hK : K ≤ Q) (hM : M ≤ Q) (hpK : p.dataPktNum = K) (hpM : p.fecPktNum = M) (heap data fecData : Rows)
    (hgot : K ≤ Nat.count (Got lostMap) (K + M)) :
    (∃ out, fecDecode p heap data fecData lostMap = some out) ↔ NoRepeat K M lostMap := by
  have hrows := subGM_rows p lostMap (by rw [hpK, hpM]; exact hgot)
  rw [hpK] at hrows
  rw [fecDecode_isSome_iff, hpK, subGM_invertible_iff h hK hgot hpK hrows, noRepeat_iff hK hM hgot]

/-- **Any `K` packets recover the group.** With `K + M ≤ 255`, for every loss pattern that leaves at least
    `K` of the `K + M` packets, `fec_init` returns, and `fec_decode` on the packets that `fec_encode` made,
    with arbitrary bytes in every lost slot, rebuilds each lost data packet and leaves the received ones as
    they are. -/
theorem fecDecode_fecEncode (K M S : Nat) (hK : 1 ≤ K) (hM : 1 ≤ M) (hN : K + M ≤ 255)
    (lostMap : Nat → Int) (hmap : LostMapOk (K + M) lostMap)
    (hgot : K ≤ Nat.count (Got lostMap) (K + M)) (heap data fec₀ rxData rxFec : Rows)
    (hzero : ∀ i < M, ∀ r < S, fec₀ i r = 0) :
    ∃ p, fecInit K M S = some p ∧
      ((∀ i < K, Got lostMap i → ∀ r < S, rxData i r = data i r) →
       (∀ i < M, Got lostMap (K + i) → ∀ r < S, rxFec i r = fecEncode p data fec₀ i r) →
       ∃ out, fecDecode p heap rxData rxFec lostMap = some out ∧
        (∀ i < K, ¬ Got lostMap i → ∀ r < S, out i r = data i r) ∧
        (∀ i < K, Got lostMap i → out i = rxData i)) := by
  have hQ : Q = 255 := rfl
  obtain ⟨p, hp, rfl, rfl, rfl⟩ := fecInit_some (show K ≤ Q by omega) M S
  refine ⟨p, hp, ?_⟩
  intro hdata hfec
  have hno : NoRepeat p.dataPktNum p.fecPktNum lostMap := fun i hi hge => absurd hge (by omega)
  obtain ⟨out, hout⟩ := (fecDecode_isSome_iff_noRepeat hp (by omega) (by omega) rfl rfl heap rxData rxFec
    hgot).mpr hno
  refine ⟨out, hout, ?_, fun i _ hi => fecDecode_received hout hi⟩
  -- every received packet is its generator row times the data
  have hpkt : ∀ i < p.dataPktNum + p.fecPktNum, Got lostMap i → ∀ r < p.dataLen,
      (⟨packet p rxData rxFec i r⟩ : GF256)
        = ∑ b : Fin p.dataPktNum, (⟨genRow p i b⟩ : GF256) * ⟨data b r⟩ := by
    intro i hi hg r hr
    unfold packet
    by_cases hiK : i < p.dataPktNum
    · rw [if_pos hiK, hdata i hiK hg r hr, mk_dataPacket p data hiK r]
    · have hg' : Got lostMap (p.dataPktNum + (i - p.dataPktNum)) := by
        rwa [show p.dataPktNum + (i - p.dataPktNum) = i by omega]
      rw [if_neg hiK, hfec (i - p.dataPktNum) (by omega) hg' r hr,
        mk_fecEncode hzero (by omega) hr, show p.dataPktNum + (i - p.dataPktNum) = i by omega]
  intro i hi hlost r hr
  exact fecDecode_rebuilds hout hmap hgot hpkt hi hlost hr

/-- Three data packets and two parity packets of two bytes; the second data packet and the first parity packet are
    lost. -/
theorem fecDecode_fecEncode_one_lost :
    ∃ p, fecInit 3 2 2 = some p ∧
      ∃ out, fecDecode p (fun _ _ => 0) (fun i r => if i = 1 then 0xA5 else BitVec.ofNat 8 (16 * i + r))
        (fecEncode p (fun i r => BitVec.ofNat 8 (16 * i + r)) (fun _ _ => 0))
        (fun i => if i = 1 ∨ i = 3 then 0 else 1) = some out ∧
        (∀ r < 2, out 1 r = BitVec.ofNat 8 (16 + r)) ∧ ∀ r, out 2 r = BitVec.ofNat 8 (32 + r) := by
  obtain ⟨p, hp, _⟩ := fecInit_some (show 3 ≤ Q by decide) 2 2
  obtain ⟨p', hp', h⟩ := fecDecode_fecEncode 3 2 2 (by decide) (by decide) (by decide)
    (fun i => if i = 1 ∨ i = 3 then 0 else 1) (by unfold LostMapOk; decide) (by decide)
    (fun _ _ => 0) (fun i r => BitVec.ofNat 8 (16 * i + r)) (fun _ _ => 0)
    (fun i r => if i = 1 then 0xA5 else BitVec.ofNat 8 (16 * i + r))
    (fecEncode p (fun i r => BitVec.ofNat 8 (16 * i + r)) (fun _ _ => 0)) (fun _ _ _ _ => rfl)
  rw [hp, Option.some.injEq] at hp'
  subst hp'
  have hone : ¬ Got (fun i => if i = 1 ∨ i = 3 then 0 else 1) 1 := by
    unfold Got
    decide
  have hdata : ∀ i < 3, Got (fun i => if i = 1 ∨ i = 3 then 0 else 1) i → ∀ r < 2,
      (if i = 1 then (0xA5 : BYTE) else BitVec.ofNat 8 (16 * i + r)) = BitVec.ofNat 8 (16 * i + r) := by
    intro i _ hi r _
    refine if_neg (fun heq => hone ?_)
    rwa [heq] at hi
  obtain ⟨out, hout, hlost, hkept⟩ := h hdata (fun _ _ _ _ _ => rfl)
  refine ⟨p, hp, out, hout, hlost 1 (by decide) hone, fun r => ?_⟩
  exact congrFun (hkept 2 (by decide) (by unfold Got; decide)) r

end HiSTB.Fec
