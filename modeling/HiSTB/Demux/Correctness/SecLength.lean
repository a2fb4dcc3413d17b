import HiSTB.Demux.SecLength
import Mathlib.Algebra.Group.Nat.Defs

/-!
# `Demux.Correctness.SecLength` — `GetSectionLength` stays in its block, except at the last two bytes

`Row` says that sections follow each other, each with the length that its own bytes say.

* `checkLoop_spec` — the loop of `DMXCheckBuffer` reads only bytes of the block, and where it succeeds the block is a
  row of sections with at most 3 bytes left over;
* `sectionLength_right_iff` — so is the whole call, unless 1 or 2 bytes are left: then the length is read from behind
  the block.
-/

namespace HiSTB.Demux.SecLength

open Lib Reading

variable {m : U32 → Byte} {maxSecLen start len remain offset : U32}

/-! ## What is right -/

/-- The addresses of the bytes of a buffer. -/
def buffer (start len : U32) : Set U32 := {a | ∃ i < len.toNat, a = start + BitVec.ofNat 32 i}

/-- The length that the bytes of a section say. -/
def lenAt (m : U32 → Byte) (start : U32) (offset : Nat) : Nat :=
  3 + (m (start + BitVec.ofNat 32 (offset + 1))).toNat % 16 * 256 + (m (start + BitVec.ofNat 32 (offset + 2))).toNat

/-- Sections follow each other from an offset on, with these lengths, and the last one ends at `stop`. -/
def Row (maxSecLen : U32) (m : U32 → Byte) (start : U32) : Nat → List Nat → Nat → Prop
  | offset, [], stop => offset = stop
  | offset, l :: ls, stop => l = lenAt m start offset ∧ l ≤ maxSecLen.toNat ∧ Row maxSecLen m start (offset + l) ls stop

/-- From an offset on, the block is a row of sections with at most 3 bytes left over. -/
def Splits (maxSecLen : U32) (m : U32 → Byte) (start len : U32) (offset : Nat) (ls : List Nat) : Prop :=
  ∃ stop, Row maxSecLen m start offset ls stop ∧ stop ≤ len.toNat ∧ len.toNat ≤ stop + 3

/-- The call reads only the block, and a length that it returns is that of the first section of a row. -/
structure Right (m : U32 → Byte) (maxSecLen start len offset : U32) : Prop where
  inside : Within m (getSectionLength maxSecLen start len offset) (buffer start len)
  splits : ∀ l, result m (getSectionLength maxSecLen start len offset) = l → l ≠ 0 →
    ∃ ls, Splits maxSecLen m start len offset.toNat (l.toNat :: ls)

/-! ## Addresses -/

theorem addr_eq (n : Nat) : start + offset + BitVec.ofNat 32 n = start + BitVec.ofNat 32 (offset.toNat + n) := by
  rw [BitVec.add_assoc, BitVec.ofNat_add, BitVec.ofNat_toNat, BitVec.setWidth_eq]

/-- The address behind an offset is one of the buffer exactly when the offset is. -/
theorem mem_buffer_iff {n : Nat} (hn : n < 2 ^ 32) : start + BitVec.ofNat 32 n ∈ buffer start len ↔ n < len.toNat := by
  have hlen : len.toNat < 2 ^ 32 := len.isLt
  constructor
  · rintro ⟨i, hi, heq⟩
    have hoff : BitVec.ofNat 32 n = BitVec.ofNat 32 i := BitVec.add_right_inj start |>.mp heq
    have hnat : n % 2 ^ 32 = i % 2 ^ 32 := by
      simpa only [BitVec.toNat_ofNat] using congrArg BitVec.toNat hoff
    rw [Nat.mod_eq_of_lt hn, Nat.mod_eq_of_lt (by omega)] at hnat
    exact hnat ▸ hi
  · intro hlt
    exact ⟨n, hlt, rfl⟩

/-- The two reads of a length are in the buffer exactly when the second is. -/
theorem reads_mem_iff (hoff : offset < len) :
    start + offset + 1 ∈ buffer start len ∧ start + offset + 2 ∈ buffer start len ↔ offset.toNat + 2 < len.toNat := by
  have hlt : offset.toNat < len.toNat := hoff
  have hlen : len.toNat < 2 ^ 32 := len.isLt
  constructor
  · rintro ⟨hone, htwo⟩
    refine Nat.lt_of_not_le fun hnot => ?_
    by_cases hlast : offset.toNat + 1 = len.toNat
    · rw [show start + offset + 1 = start + BitVec.ofNat 32 (offset.toNat + 1) from addr_eq 1,
        mem_buffer_iff (by omega)] at hone
      omega
    · rw [show start + offset + 2 = start + BitVec.ofNat 32 (offset.toNat + 2) from addr_eq 2,
        mem_buffer_iff (by omega)] at htwo
      omega
  · intro hin
    rw [show start + offset + 1 = start + BitVec.ofNat 32 (offset.toNat + 1) from addr_eq 1,
      show start + offset + 2 = start + BitVec.ofNat 32 (offset.toNat + 2) from addr_eq 2,
      mem_buffer_iff (by omega), mem_buffer_iff (by omega)]
    omega

theorem toNat_secLenOf_at (m : U32 → Byte) (start offset : U32) :
    (secLenOf (m (start + offset + 1)) (m (start + offset + 2))).toNat = lenAt m start offset.toNat := by
  rw [toNat_secLenOf, lenAt, ← addr_eq, ← addr_eq]
  rfl

theorem three_le_lenAt (m : U32 → Byte) (start : U32) (o : Nat) : 3 ≤ lenAt m start o := by
  unfold lenAt
  omega

/-! ## The loop -/

/-- **The loop of `DMXCheckBuffer`.** It reads only bytes of the block. Where it succeeds, the rest of the block is a
    row of sections, and there is one if more than 3 bytes are left. -/
theorem checkLoop_spec (m : U32 → Byte) (maxSecLen start : U32) (hrest : offset.toNat + remain.toNat = len.toNat) :
    Within m (checkLoop maxSecLen start len remain offset) (buffer start len) ∧
      (result m (checkLoop maxSecLen start len remain offset) = true →
        ∃ ls, Splits maxSecLen m start len offset.toNat ls ∧ (3 < remain.toNat → ls ≠ [])) := by
  induction hn : remain.toNat using Nat.strongRecOn generalizing remain offset with
  | ind n ih =>
    subst hn
    have hlen : len.toNat < 2 ^ 32 := len.isLt
    have hbefore : ¬ len < offset := by
      rw [BitVec.lt_def]
      omega
    rw [checkLoop]
    by_cases hmore : remain > 3
    · have hmore' : 3 < remain.toNat := hmore
      have hread : ∀ k : Nat, k ≤ 2 → start + offset + BitVec.ofNat 32 k ∈ buffer start len := by
        intro k hk
        rw [addr_eq, mem_buffer_iff (by omega)]
        omega
      rw [if_pos hmore, if_neg hbefore, within_get_bind, within_get_bind, result_get_bind, result_get_bind]
      have hsec := toNat_secLenOf_at m start offset
      have hthree := three_le_lenAt m start offset.toNat
      by_cases hfit : secLenOf (m (start + offset + 1)) (m (start + offset + 2)) > remain ∨
          secLenOf (m (start + offset + 1)) (m (start + offset + 2)) > maxSecLen
      · rw [dif_pos hfit]
        exact ⟨⟨hread 1 (by omega), hread 2 (by omega), within_pure false⟩, fun h => Bool.noConfusion h⟩
      · rw [dif_neg hfit]
        obtain ⟨hle, hmax⟩ := not_or.mp hfit
        rw [gt_iff_lt, BitVec.not_lt, BitVec.le_def, hsec] at hle hmax
        have hsub : (remain - secLenOf (m (start + offset + 1)) (m (start + offset + 2))).toNat
            = remain.toNat - lenAt m start offset.toNat := by
          rw [BitVec.toNat_sub_of_le (BitVec.le_def.mpr (by omega)), hsec]
        have hadd : (offset + secLenOf (m (start + offset + 1)) (m (start + offset + 2))).toNat
            = offset.toNat + lenAt m start offset.toNat := by
          rw [BitVec.toNat_add_of_lt (by omega), hsec]
        obtain ⟨hin, hrow⟩ := ih (remain.toNat - lenAt m start offset.toNat) (by omega) (by rw [hadd, hsub]; omega) hsub
        refine ⟨⟨hread 1 (by omega), hread 2 (by omega), hin⟩, fun hok => ?_⟩
        obtain ⟨ls, ⟨stop, hls, hstop⟩, -⟩ := hrow hok
        rw [hadd] at hls
        exact ⟨_ :: ls, ⟨stop, ⟨rfl, hmax, hls⟩, hstop⟩, fun _ => List.cons_ne_nil _ _⟩
    · have hless : ¬ 3 < remain.toNat := hmore
      rw [if_neg hmore]
      exact ⟨within_pure true, fun _ => ⟨[], ⟨offset.toNat, rfl, by omega, by omega⟩, fun h => absurd h hless⟩⟩

theorem checkLoop_short (hshort : remain ≤ 3) : checkLoop maxSecLen start len remain offset = pure true := by
  rw [checkLoop, if_neg (BitVec.not_lt.mpr hshort)]

theorem toNat_add_sub (hoff : offset < len) : offset.toNat + (len - offset).toNat = len.toNat := by
  have hlt : offset.toNat < len.toNat := hoff
  rw [BitVec.toNat_sub_of_le (BitVec.le_of_lt hoff)]
  omega

/-! ## The call -/

/-- The call comes to the second reading of the length. -/
def ReadsLength (m : U32 → Byte) (maxSecLen start len offset : U32) : Prop :=
  start ≠ 0 ∧ result m (dmxCheckBuffer maxSecLen start len offset) = true ∧ len ≥ 3 ∧ ¬ start + offset ≥ start + len

theorem result_getSectionLength (hoff : offset < len) {l : U32}
    (hres : result m (getSectionLength maxSecLen start len offset) = l) (hl : l ≠ 0) :
    ReadsLength m maxSecLen start len offset ∧ l.toNat = lenAt m start offset.toNat ∧
      l.toNat ≤ (len - offset).toNat := by
  have hlen : len ≠ 0 := by
    rintro rfl
    exact BitVec.not_lt_zero hoff
  unfold getSectionLength at hres
  by_cases hstart : start = 0
  · rw [if_pos hstart] at hres
    exact absurd hres.symm hl
  · rw [if_neg hstart, if_neg hlen, if_neg (BitVec.not_le.mpr hoff), result_bind] at hres
    by_cases hok : result m (dmxCheckBuffer maxSecLen start len offset) = true
    · by_cases hlong : len ≥ 3
      · by_cases hend : start + offset ≥ start + len
        · rw [hok, if_neg (by decide), if_pos hlong, if_pos hend] at hres
          exact absurd hres.symm hl
        · rw [hok, if_neg (by decide), if_pos hlong, if_neg hend, result_get_bind, result_get_bind] at hres
          by_cases hfit : len - offset < secLenOf (m (start + offset + 1)) (m (start + offset + 2))
          · rw [if_pos hfit] at hres
            exact absurd hres.symm hl
          · rw [if_neg hfit] at hres
            rw [← show secLenOf (m (start + offset + 1)) (m (start + offset + 2)) = l from hres]
            exact ⟨⟨hstart, hok, hlong, hend⟩, toNat_secLenOf_at m start offset, Nat.le_of_not_lt hfit⟩
      · rw [hok, if_neg (by decide), if_neg hlong] at hres
        exact absurd hres.symm hl
    · rw [Bool.not_eq_true] at hok
      rw [hok, if_pos Bool.not_false] at hres
      exact absurd hres.symm hl

theorem within_getSectionLength (hoff : offset < len) :
    Within m (getSectionLength maxSecLen start len offset) (buffer start len) ↔
      (ReadsLength m maxSecLen start len offset → offset.toNat + 2 < len.toNat) := by
  have hlen : len ≠ 0 := by
    rintro rfl
    exact BitVec.not_lt_zero hoff
  unfold getSectionLength ReadsLength
  by_cases hstart : start = 0
  · rw [if_pos hstart]
    exact iff_of_true (within_pure 0) (fun h => absurd hstart h.1)
  · have hcheck := (checkLoop_spec m maxSecLen start (toNat_add_sub hoff)).1
    rw [if_neg hstart, if_neg hlen, if_neg (BitVec.not_le.mpr hoff), within_bind]
    refine (and_iff_right hcheck).trans ?_
    by_cases hok : result m (dmxCheckBuffer maxSecLen start len offset) = true
    · rw [hok, if_neg (by decide)]
      by_cases hlong : len ≥ 3
      · rw [if_pos hlong]
        by_cases hend : start + offset ≥ start + len
        · rw [if_pos hend]
          exact iff_of_true (within_pure 0) (fun h => absurd hend h.2.2.2)
        · rw [if_neg hend, within_get_bind, within_get_bind]
          have hdone : Within m (if len - offset <
            secLenOf (m (start + offset + 1)) (m (start + offset + 2)) then pure 0
              else pure (secLenOf (m (start + offset + 1)) (m (start + offset + 2)))) (buffer start len) :=
            within_ite.mpr ⟨fun _ => within_pure _, fun _ => within_pure _⟩
          exact ⟨fun h _ => (reads_mem_iff hoff).mp ⟨h.1, h.2.1⟩,
            fun h => ⟨((reads_mem_iff hoff).mpr (h ⟨hstart, rfl, hlong, hend⟩)).1,
              ((reads_mem_iff hoff).mpr (h ⟨hstart, rfl, hlong, hend⟩)).2, hdone⟩⟩
      · rw [if_neg hlong]
        exact iff_of_true (within_pure 0) (fun h => absurd h.2.2.1 hlong)
    · rw [Bool.not_eq_true] at hok
      rw [hok, if_pos Bool.not_false]
      exact iff_of_true (within_pure 0) (fun h => Bool.noConfusion h.2.1)

/-- **`GetSectionLength` is right unless it comes to the last two bytes of a block.** With 1 or 2 bytes left there is
    nothing to check, and the length is then read from the bytes behind the block. -/
theorem sectionLength_right_iff (hmax : 3 ≤ maxSecLen) (hoff : offset < len) :
    Right m maxSecLen start len offset ↔
      ¬ (start ≠ 0 ∧ 3 ≤ len ∧ len - offset ≤ 2 ∧ start + offset < start + len) := by
  have hsum := toNat_add_sub hoff
  constructor
  · rintro hright ⟨hstart, hlong, hlast, hend⟩
    have hok : result m (dmxCheckBuffer maxSecLen start len offset) = true := by
      rw [dmxCheckBuffer, checkLoop_short (BitVec.le_trans hlast (by decide))]
      rfl
    have hlt := (within_getSectionLength hoff).mp hright.inside ⟨hstart, hok, hlong, BitVec.not_le.mpr hend⟩
    have hlast' : (len - offset).toNat ≤ 2 := hlast
    omega
  · intro hnot
    refine ⟨(within_getSectionLength hoff).mpr fun hreads => ?_, fun l hres hl => ?_⟩
    · obtain ⟨hstart, -, hlong, hend⟩ := hreads
      have hmore : ¬ len - offset ≤ 2 := fun hlast => hnot ⟨hstart, hlong, hlast, BitVec.not_le.mp hend⟩
      rw [BitVec.not_le, BitVec.lt_def] at hmore
      have htwo : (2 : U32).toNat = 2 := rfl
      omega
    · obtain ⟨⟨-, hok, -⟩, hfirst, hfits⟩ := result_getSectionLength hoff hres hl
      have hthree := three_le_lenAt m start offset.toNat
      obtain ⟨ls, ⟨stop, hrow, hstop⟩, hne⟩ := (checkLoop_spec m maxSecLen start hsum).2 hok
      by_cases hmore : 3 < (len - offset).toNat
      · cases ls with
        | nil => exact absurd rfl (hne hmore)
        | cons l' ls =>
            rw [hfirst, ← hrow.1]
            exact ⟨ls, stop, hrow, hstop⟩
      · have hmax' : 3 ≤ maxSecLen.toNat := hmax
        refine ⟨[], offset.toNat + l.toNat, ⟨hfirst, by omega, rfl⟩, by omega, by omega⟩

/-- A section of 4 bytes with 3 bytes left over, and a block that is one section without contents. -/
theorem right_blocks : Right (fun a => if a = 0x1002 then 1 else 0) 4096 0x1000 7 0 ∧
    Right (fun _ => 0) 4096 0x1000 3 0 := by
  constructor
  · exact (sectionLength_right_iff (by decide) (by decide)).mpr (by decide)
  · exact (sectionLength_right_iff (by decide) (by decide)).mpr (by decide)

/-- The last 2 bytes of a block of 5: the second one of the length is behind the block. -/
theorem not_right_last : ¬ Right (fun _ => 0) 4096 0x1000 5 3 := by
  intro hright
  have hreads : ReadsLength (fun _ => 0) 4096 0x1000 5 3 :=
    ⟨by decide, by rw [dmxCheckBuffer, checkLoop_short (by decide)]; rfl, by decide, by decide⟩
  exact absurd ((within_getSectionLength (by decide)).mp hright.inside hreads) (by decide)

end HiSTB.Demux.SecLength
