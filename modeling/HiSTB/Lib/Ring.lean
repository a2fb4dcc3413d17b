import Mathlib.Data.Nat.ModEq
import Mathlib.Data.List.Induction

/-!
# `Lib.Ring` — a stream kept in a cyclic buffer

Cells are numbered from 0, and `writeAt` writes a piece in one go. `Latest m size xs` says that the first `size`
cells of `m` hold the end of the stream `xs`: element `g` of the stream is in cell `g % size`, until `size` more
elements have come. The rule for a writer is `Latest.writeAt`: it appends a piece that does not cross the end of the
buffer. A piece that does is written in two parts, one rule after the other.
-/

namespace HiSTB.Lib

variable {β : Type*}

theorem cell_ne {i n size : Nat} (hlt : i < n) (hnear : n < i + size) : i % size ≠ n % size := by
  intro heq
  have hzero := Nat.sub_mod_eq_zero_of_mod_eq heq.symm
  rw [Nat.mod_eq_of_lt (by omega)] at hzero
  omega

/-- The cells from `pos` on are overwritten by `xs`. -/
def writeAt (m : Nat → β) (pos : Nat) (xs : List β) : Nat → β := fun p =>
  if pos ≤ p then xs.getD (p - pos) (m p) else m p

variable {m : Nat → β} {pos size : Nat} {xs ys : List β}

theorem writeAt_of_lt {p : Nat} (h : p < pos) : writeAt m pos xs p = m p := if_neg (Nat.not_le.mpr h)

theorem writeAt_of_ge {p : Nat} (h : pos + xs.length ≤ p) : writeAt m pos xs p = m p := by
  unfold writeAt
  rw [if_pos (by omega), List.getD_eq_getElem?_getD, List.getElem?_eq_none (by omega)]
  rfl

theorem writeAt_add {i : Nat} (h : i < xs.length) : writeAt m pos xs (pos + i) = xs[i] := by
  unfold writeAt
  rw [if_pos (Nat.le_add_right pos i), Nat.add_sub_cancel_left]
  simp [h]

@[simp] theorem writeAt_nil : writeAt m pos [] = m := by
  funext p
  simp [writeAt]

/-- Two pieces in a row are one. -/
theorem writeAt_append : writeAt (writeAt m pos xs) (pos + xs.length) ys = writeAt m pos (xs ++ ys) := by
  funext p
  -- before the first piece, in it, or behind it
  by_cases hlt : p < pos
  · rw [writeAt_of_lt (by omega), writeAt_of_lt hlt, writeAt_of_lt hlt]
  · obtain ⟨i, rfl⟩ := Nat.exists_eq_add_of_le (Nat.not_lt.mp hlt)
    have hall : ∀ (h : i < (xs ++ ys).length), writeAt m pos (xs ++ ys) (pos + i) = (xs ++ ys)[i] := writeAt_add
    by_cases hi : i < xs.length
    · rw [writeAt_of_lt (by omega), writeAt_add hi, hall (by rw [List.length_append]; omega),
        List.getElem_append_left hi]
    · obtain ⟨j, rfl⟩ := Nat.exists_eq_add_of_le (Nat.not_lt.mp hi)
      by_cases hj : j < ys.length
      · rw [hall (by rw [List.length_append]; omega), ← Nat.add_assoc, writeAt_add hj,
          List.getElem_append_right (by omega)]
        simp
      · rw [writeAt_of_ge (by omega), writeAt_of_ge (by omega),
          writeAt_of_ge (by rw [List.length_append]; omega)]

/-- The second piece may be written first. -/
theorem writeAt_prepend : writeAt (writeAt m (pos + xs.length) ys) pos xs = writeAt m pos (xs ++ ys) := by
  rw [← writeAt_append]
  funext p
  by_cases hin : pos ≤ p ∧ p < pos + xs.length
  · obtain ⟨i, rfl⟩ := Nat.exists_eq_add_of_le hin.1
    have hi : i < xs.length := by omega
    rw [writeAt_add hi, writeAt_of_lt (by omega), writeAt_add hi]
  · have hout : ∀ m' : Nat → β, writeAt m' pos xs p = m' p := by
      intro m'
      rcases Nat.lt_or_ge p pos with hlt | hge
      · exact writeAt_of_lt hlt
      · exact writeAt_of_ge (by omega)
    rw [hout]
    unfold writeAt at hout ⊢
    by_cases hback : pos + xs.length ≤ p
    · rw [if_pos hback, if_pos hback, hout]
    · rw [if_neg hback, if_neg hback, hout]

/-- A list that grows at its end. -/
theorem writeAt_concat :
    writeAt (fun p => xs[p]?) xs.length (ys.map some) = fun p => (xs ++ ys)[p]? := by
  funext p
  by_cases hp : p < xs.length
  · rw [writeAt_of_lt hp, List.getElem?_append_left hp]
  · rw [List.getElem?_append_right (Nat.not_lt.mp hp)]
    obtain ⟨i, rfl⟩ := Nat.exists_eq_add_of_le (Nat.not_lt.mp hp)
    rw [Nat.add_sub_cancel_left]
    by_cases hi : i < ys.length
    · rw [writeAt_add (by rw [List.length_map]; exact hi)]
      simp [hi]
    · rw [writeAt_of_ge (by rw [List.length_map]; omega), List.getElem?_eq_none (by omega),
        List.getElem?_eq_none (by omega)]

/-- So many cells from `pos` on. -/
def readAt (m : Nat → β) (pos n : Nat) : List β := (List.range' pos n).map m

@[simp] theorem length_readAt (m : Nat → β) (pos n : Nat) : (readAt m pos n).length = n := by
  rw [readAt, List.length_map, List.length_range']

theorem readAt_add (m : Nat → β) (pos n k : Nat) : readAt m pos (n + k) = readAt m pos n ++ readAt m (pos + n) k := by
  rw [readAt, readAt, readAt, ← List.map_append, List.range'_append_1]

theorem readAt_congr {m' : Nat → β} {n : Nat} (h : ∀ p, pos ≤ p → p < pos + n → m' p = m p) :
    readAt m' pos n = readAt m pos n := by
  refine List.map_congr_left (fun p hp => ?_)
  rw [List.mem_range'_1] at hp
  exact h p hp.1 hp.2

theorem readAt_writeAt (m : Nat → β) (pos : Nat) (xs : List β) : readAt (writeAt m pos xs) pos xs.length = xs := by
  refine List.ext_getElem (length_readAt _ _ _) (fun i _ hi => ?_)
  simp only [readAt, List.getElem_map, List.getElem_range']
  rw [Nat.one_mul, writeAt_add hi]

/-- What is elsewhere is not changed. -/
theorem readAt_writeAt_apart {n q : Nat} (h : pos + n ≤ q ∨ q + xs.length ≤ pos) :
    readAt (writeAt m q xs) pos n = readAt m pos n := by
  refine readAt_congr (fun p hlo hhi => ?_)
  rcases h with h | h
  · exact writeAt_of_lt (Nat.lt_of_lt_of_le hhi h)
  · exact writeAt_of_ge (Nat.le_trans h hlo)

/-! ## Cells one by one -/

theorem writeAt_single (m : Nat → β) (pos : Nat) (x : β) (i : Nat) :
    writeAt m pos [x] i = if i = pos then x else m i := by
  split
  next h =>
    subst h
    have hlen : 0 < [x].length := Nat.one_pos
    exact writeAt_add hlen
  next h =>
    rcases Nat.lt_or_gt_of_ne h with hlt | hgt
    · exact writeAt_of_lt hlt
    · exact writeAt_of_ge hgt

theorem writeAt_replicate (m : Nat → β) (pos : Nat) (x : β) (n i : Nat) :
    writeAt m pos (List.replicate n x) i = if pos ≤ i ∧ i < pos + n then x else m i := by
  split
  next h =>
    obtain ⟨k, rfl⟩ := Nat.exists_eq_add_of_le h.1
    rw [writeAt_add (by rw [List.length_replicate]; omega), List.getElem_replicate]
  next h =>
    rcases Nat.lt_or_ge i pos with hlt | hge
    · exact writeAt_of_lt hlt
    · exact writeAt_of_ge (by rw [List.length_replicate]; omega)

/-- A copy, also onto itself. -/
theorem writeAt_readAt (m m' : Nat → β) (pos src n i : Nat) :
    writeAt m pos (readAt m' src n) i = if pos ≤ i ∧ i < pos + n then m' (src + (i - pos)) else m i := by
  split
  next h =>
    obtain ⟨k, rfl⟩ := Nat.exists_eq_add_of_le h.1
    rw [writeAt_add (by rw [length_readAt]; omega), Nat.add_sub_cancel_left]
    simp only [readAt, List.getElem_map, List.getElem_range']
    rw [Nat.one_mul]
  next h =>
    rcases Nat.lt_or_ge i pos with hlt | hge
    · exact writeAt_of_lt hlt
    · exact writeAt_of_ge (by rw [length_readAt]; omega)

/-- The same cells are read, maybe at another place. -/
theorem readAt_eq_iff {m m' : Nat → β} {pos pos' n : Nat} :
    readAt m' pos' n = readAt m pos n ↔ ∀ i, i < n → m' (pos' + i) = m (pos + i) := by
  induction n generalizing pos pos' with
  | zero => exact iff_of_true rfl (fun i hi => absurd hi (Nat.not_lt_zero i))
  | succ n ih =>
    have hcons : ∀ (m : Nat → β) (pos : Nat), readAt m pos (n + 1) = m pos :: readAt m (pos + 1) n := fun _ _ => rfl
    rw [hcons, hcons, List.cons_eq_cons, ih]
    constructor
    · rintro ⟨hhead, htail⟩ i hi
      cases i with
      | zero => exact hhead
      | succ i =>
        rw [Nat.add_comm i 1, ← Nat.add_assoc, ← Nat.add_assoc]
        exact htail i (Nat.lt_of_succ_lt_succ hi)
    · intro h
      refine ⟨h 0 (Nat.zero_lt_succ n), fun i hi => ?_⟩
      rw [Nat.add_assoc, Nat.add_assoc, Nat.add_comm 1 i]
      exact h (i + 1) (Nat.succ_lt_succ hi)

/-! ## The last elements -/

/-- The buffer holds the last `size` elements of the stream. -/
def Latest (m : Nat → β) (size : Nat) (xs : List β) : Prop :=
  ∀ g (h : g < xs.length), xs.length ≤ g + size → m (g % size) = xs[g]

theorem Latest.nil (m : Nat → β) (size : Nat) : Latest m size [] := by
  intro g h
  exact absurd h (Nat.not_lt_zero g)

/-- A cell of the buffer holds the last element that came to it. -/
theorem Latest.cell (h : Latest m size xs) {p : Nat} (hsize : p < size) (hp : p < xs.length) :
    ∃ g, ∃ hg : g < xs.length, g % size = p ∧ (∀ k, k < xs.length → k % size = p → k ≤ g) ∧ m p = xs[g] := by
  have hdiv := Nat.div_add_mod (xs.length - 1 - p) size
  have hmod := Nat.mod_lt (xs.length - 1 - p) (show 0 < size by omega)
  refine ⟨p + size * ((xs.length - 1 - p) / size), by omega, ?_, ?_, ?_⟩
  · rw [Nat.add_mul_mod_self_left, Nat.mod_eq_of_lt hsize]
  · intro k hk hkp
    -- a later element of that cell would be `size` or more further on, behind the end
    by_contra hgt
    have hsame : p + size * ((xs.length - 1 - p) / size) ≡ k [MOD size] := by
      show _ % size = k % size
      rw [Nat.add_mul_mod_self_left, Nat.mod_eq_of_lt hsize, hkp]
    have hdvd := (Nat.modEq_iff_dvd' (by omega)).mp hsame
    exact absurd (Nat.le_of_dvd (by omega) hdvd) (by omega)
  · have hcell := h (p + size * ((xs.length - 1 - p) / size)) (by omega) (by omega)
    rw [Nat.add_mul_mod_self_left, Nat.mod_eq_of_lt hsize] at hcell
    exact hcell

/-- **Writer's rule.** The write position is the length of the stream, modulo the size; a position at the very end of
    the buffer will do for an empty piece. -/
theorem Latest.writeAt (h : Latest m size xs) (hpos : pos % size = xs.length % size)
    (hend : pos + ys.length ≤ size) : Latest (writeAt m pos ys) size (xs ++ ys) := by
  intro g hg hlast
  rw [List.length_append] at hg hlast
  by_cases hold : g < xs.length
  · -- an older element; its cell is not one of those that are written
    rw [List.getElem_append_left hold, ← h g hold (by omega)]
    by_cases hlt : g % size < pos
    · exact writeAt_of_lt hlt
    · by_cases hge : pos + ys.length ≤ g % size
      · exact writeAt_of_ge hge
      · exfalso
        obtain ⟨i, hi⟩ := Nat.exists_eq_add_of_le (Nat.not_lt.mp hlt)
        have hsame : g ≡ xs.length + i [MOD size] := by
          calc g ≡ g % size [MOD size] := (Nat.mod_modEq g size).symm
            _ = pos + i := hi
            _ ≡ xs.length + i [MOD size] := Nat.ModEq.add_right i hpos
        have hdvd := (Nat.modEq_iff_dvd' (by omega)).mp hsame
        exact absurd (Nat.le_of_dvd (by omega) hdvd) (by omega)
  · obtain ⟨i, rfl⟩ := Nat.exists_eq_add_of_le (Nat.not_lt.mp hold)
    have hcell : (xs.length + i) % size = pos + i := by
      rw [← Nat.mod_eq_of_lt (show pos + i < size by omega)]
      exact (Nat.ModEq.add_right i hpos).symm
    rw [hcell, writeAt_add (by omega), List.getElem_append_right (by omega)]
    simp

end HiSTB.Lib
