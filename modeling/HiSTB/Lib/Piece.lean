import Mathlib.Data.List.Basic

/-!
# `Lib.Piece` — pieces of an endless stream

`piece f g n` is the list of the `n` values of `f` from `g` on. Pieces that follow each other append to a piece; the
front and the rest of a piece are pieces. A ring of `size` cells holds a stream between two positions when the cell
`g % size` has the value at `g`: a piece that lies between them is read in at most two parts.
-/

namespace HiSTB.Lib

variable {β : Type*} {f m : Nat → β} {g n k size lo hi : Nat}

def piece (f : Nat → β) (g n : Nat) : List β := (List.range n).map (fun i => f (g + i))

@[simp] theorem piece_zero : piece f g 0 = [] := by
  simp [piece]

@[simp] theorem length_piece : (piece f g n).length = n := by
  simp [piece]

theorem piece_append : piece f g n ++ piece f (g + n) k = piece f g (n + k) := by
  simp [piece, List.range_add, Nat.add_assoc]

@[simp] theorem take_piece : (piece f g n).take k = piece f g (min k n) := by
  simp [piece, ← List.map_take, List.take_range]

theorem drop_piece : (piece f g n).drop k = piece f (g + k) (n - k) := by
  rcases Nat.le_total n k with hle | hle
  · simp [Nat.sub_eq_zero_of_le hle, List.drop_eq_nil_of_le, hle]
  · obtain ⟨d, rfl⟩ := Nat.exists_eq_add_of_le hle
    rw [← piece_append, List.drop_left' length_piece, Nat.add_sub_cancel_left]

theorem piece_congr {f' : Nat → β} {g' : Nat} (h : ∀ i, i < n → f (g + i) = f' (g' + i)) :
    piece f g n = piece f' g' n := by
  apply List.map_congr_left
  intro i hi
  exact h i (List.mem_range.mp hi)

/-! ## In a ring -/

/-- The cells of a ring hold the stream from `lo` up to `hi`. -/
def Cells (m : Nat → β) (size : Nat) (f : Nat → β) (lo hi : Nat) : Prop :=
  ∀ g, lo ≤ g → g < hi → m (g % size) = f g

/-- A piece that does not go over the end of the ring. -/
theorem Cells.straight (h : Cells m size f lo hi) (hlo : lo ≤ g) (hhi : g + n ≤ hi) (hend : g % size + n ≤ size) :
    piece m (g % size) n = piece f g n := by
  apply piece_congr
  intro i hi'
  have hcell : (g + i) % size = g % size + i := by
    rw [← Nat.mod_add_mod]
    exact Nat.mod_eq_of_lt (by omega)
  rw [← hcell]
  exact h (g + i) (by omega) (by omega)

/-- A piece that goes over the end of the ring. -/
theorem Cells.around (h : Cells m size f lo hi) (hlo : lo ≤ g) (hhi : g + n ≤ hi) (hpos : 0 < size) (hn : n ≤ size)
    (hend : size ≤ g % size + n) :
    piece m (g % size) (size - g % size) ++ piece m 0 (n - (size - g % size)) = piece f g n := by
  have hlt := Nat.mod_lt g hpos
  have hstart : (g + (size - g % size)) % size = 0 := by
    have hdiv := Nat.mod_add_div g size
    rw [show g + (size - g % size) = size * (g / size + 1) by rw [Nat.mul_add]; omega]
    exact Nat.mul_mod_right _ _
  have hfront := h.straight hlo (n := size - g % size) (by omega) (by omega)
  have hrest := h.straight (g := g + (size - g % size)) (n := n - (size - g % size)) (by omega) (by omega) (by omega)
  rw [hstart] at hrest
  rw [hfront, hrest, piece_append]
  congr 1
  omega

end HiSTB.Lib
