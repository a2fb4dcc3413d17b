import Mathlib.Data.List.Chain

/-!
# `Lib.SplitBuffer` — pieces of a buffer that are filled in order and go over its end once

A buffer of `size` bytes, with a read and a write position. The pieces that are in use are a list, oldest first, each
with its start and its length. They lie in order between the two positions; where the write position is in front of the
read position, the first of them lie behind the read position and the others at the start of the buffer.

* `InOrder` — pieces in order between two places;
* `Held` — the pieces in use; `Held.begin`, `Held.push`, `Held.move` — what keeps them;
* `Room` — a place for new bytes; `Room.moved`, `Room.reset` — it stays while the pieces are used up;
* `Held.apart` — a place is apart from the pieces; `Held.eq_nil_of_end` — nothing is in use behind the piece at the
  write position.
-/

namespace HiSTB.Lib.SplitBuffer

/-- The pieces lie in order between `lo` and `hi`. -/
def InOrder : Nat → List (Nat × Nat) → Nat → Prop
  | lo, [], hi => lo ≤ hi
  | lo, (a, n) :: ps, hi => lo ≤ a ∧ InOrder (a + n) ps hi

variable {lo hi lo' hi' : Nat} {ps qs : List (Nat × Nat)}

theorem InOrder.le (h : InOrder lo ps hi) : lo ≤ hi := by
  induction ps generalizing lo with
  | nil => exact h
  | cons p ps ih =>
    have hrest := ih h.2
    have hlo := h.1
    omega

theorem InOrder.mono (h : InOrder lo ps hi) (hlo : lo' ≤ lo) (hhi : hi ≤ hi') : InOrder lo' ps hi' := by
  induction ps generalizing lo lo' with
  | nil => exact Nat.le_trans hlo (Nat.le_trans h hhi)
  | cons p ps ih => exact ⟨Nat.le_trans hlo h.1, ih h.2 (Nat.le_refl _)⟩

theorem InOrder.concat {a n : Nat} (h : InOrder lo ps hi) (ha : hi ≤ a) : InOrder lo (ps ++ [(a, n)]) (a + n) := by
  induction ps generalizing lo with
  | nil => exact ⟨Nat.le_trans h ha, Nat.le_refl _⟩
  | cons p ps ih => exact ⟨h.1, ih h.2⟩

/-- What lies behind a piece. -/
theorem InOrder.behind {p : Nat × Nat} (h : InOrder lo (qs ++ p :: ps) hi) : lo ≤ p.1 ∧ InOrder (p.1 + p.2) ps hi := by
  induction qs generalizing lo with
  | nil => exact h
  | cons q qs ih =>
    obtain ⟨hp, hrest⟩ := ih h.2
    have hq := h.1
    exact ⟨by omega, hrest⟩

theorem InOrder.mem {p : Nat × Nat} (h : InOrder lo ps hi) (hp : p ∈ ps) : lo ≤ p.1 ∧ p.1 + p.2 ≤ hi := by
  obtain ⟨as, bs, rfl⟩ := List.append_of_mem hp
  obtain ⟨hlo, hrest⟩ := h.behind
  exact ⟨hlo, hrest.le⟩

/-- **The pieces in use.** `front` is how far the last ones have come; up to the write position they are still to
    come. -/
structure Held (size read write front : Nat) (ps : List (Nat × Nat)) : Prop where
  read_le : read ≤ size
  write_le : write ≤ size
  front_le : front ≤ write
  parts : read ≤ write ∧ InOrder read ps front ∨
    write < read ∧ ∃ as bs, ps = as ++ bs ∧ InOrder read as size ∧ InOrder 0 bs front

/-- **A place for `n` bytes at `o`**: behind the write position, or in front of the read position. -/
def Room (size read write o n : Nat) : Prop :=
  read ≤ write ∧ write ≤ o ∧ o + n ≤ size ∨ o + n < read ∧ read ≤ size ∧ (write < read → write ≤ o)

variable {size read write front o n : Nat}

theorem Held.empty (size : Nat) : Held size 0 0 0 [] :=
  ⟨Nat.zero_le _, Nat.zero_le _, Nat.le_refl _, Or.inl ⟨Nat.le_refl _, Nat.le_refl 0⟩⟩

theorem Room.inside (h : Room size read write o n) : o + n ≤ size := by
  rcases h with ⟨-, -, hle⟩ | ⟨hlt, hle, -⟩ <;> omega

/-- A place is apart from the pieces in use. -/
theorem Held.apart (h : Held size read write front ps) (hr : Room size read write o n) {p : Nat × Nat} (hp : p ∈ ps) :
    p.1 + p.2 ≤ o ∨ o + n ≤ p.1 := by
  have hfront := h.front_le
  rcases h.parts with ⟨hle, hord⟩ | ⟨hlt, as, bs, rfl, has, hbs⟩
  · obtain ⟨h1, h2⟩ := hord.mem hp
    rcases hr with ⟨-, hwo, -⟩ | ⟨hor, -, -⟩
    · exact Or.inl (by omega)
    · exact Or.inr (by omega)
  · rcases hr with ⟨hle, -, -⟩ | ⟨hor, -, hwo⟩
    · omega
    · have hwrite := hwo hlt
      rcases List.mem_append.mp hp with hp | hp
      · obtain ⟨h1, -⟩ := has.mem hp
        exact Or.inr (by omega)
      · obtain ⟨-, h2⟩ := hbs.mem hp
        exact Or.inl (by omega)

/-- The write position goes over the `d` bytes at `a` of a place; they are still to come. -/
theorem Held.begin {a d : Nat} (h : Held size read write write ps) (hr : Room size read write o n) (ha : o ≤ a)
    (hd : a + d ≤ o + n) : Held size read (a + d) a ps := by
  have hin := hr.inside
  refine ⟨h.read_le, by omega, Nat.le_add_right _ _, ?_⟩
  rcases h.parts with ⟨hle, hord⟩ | ⟨hlt, as, bs, rfl, has, hbs⟩
  · rcases hr with ⟨-, hwo, -⟩ | ⟨hor, -, -⟩
    · exact Or.inl ⟨by omega, hord.mono (Nat.le_refl _) (by omega)⟩
    · -- over the end of the buffer
      exact Or.inr ⟨by omega, ps, [], (List.append_nil _).symm, hord.mono (Nat.le_refl _) h.write_le, Nat.zero_le _⟩
  · rcases hr with ⟨hle, -, -⟩ | ⟨hor, -, hwo⟩
    · omega
    · have hwrite := hwo hlt
      exact Or.inr ⟨by omega, as, bs, rfl, has, hbs.mono (Nat.le_refl _) (by omega)⟩

/-- A piece comes. -/
theorem Held.push (h : Held size read write front ps) (hn : front + n ≤ write) :
    Held size read write (front + n) (ps ++ [(front, n)]) := by
  refine ⟨h.read_le, h.write_le, hn, ?_⟩
  rcases h.parts with ⟨hle, hord⟩ | ⟨hlt, as, bs, rfl, has, hbs⟩
  · exact Or.inl ⟨hle, hord.concat (Nat.le_refl _)⟩
  · exact Or.inr ⟨hlt, as, bs ++ [(front, n)], List.append_assoc _ _ _, has, hbs.concat (Nat.le_refl _)⟩

/-- How the read position moves: forward, or over the end of the buffer. -/
def Moves (size read write read' : Nat) : Prop :=
  read ≤ read' ∧ read' ≤ size ∧ (read ≤ write → read' ≤ write) ∨ write < read ∧ read' ≤ write

/-- What is in use behind a piece. -/
theorem Held.behind {p : Nat × Nat} (h : Held size read write front (qs ++ p :: ps)) :
    Moves size read write p.1 ∧
    (p.1 ≤ write ∧ InOrder (p.1 + p.2) ps front ∨
      write < p.1 ∧ ∃ as bs, ps = as ++ bs ∧ InOrder (p.1 + p.2) as size ∧ InOrder 0 bs front) := by
  have hfront := h.front_le
  have hwrite := h.write_le
  rcases h.parts with ⟨hle, hord⟩ | ⟨hlt, as, bs, heq, has, hbs⟩
  · obtain ⟨hp, hrest⟩ := hord.behind
    have hend := hrest.le
    exact ⟨Or.inl ⟨hp, by omega, fun _ => by omega⟩, Or.inl ⟨by omega, hrest⟩⟩
  · -- the piece is at the start of the buffer, or it is behind the read position
    have hstart : ∀ {cs}, bs = cs ++ p :: ps → Moves size read write p.1 ∧ (p.1 ≤ write ∧ InOrder (p.1 + p.2) ps front ∨
          write < p.1 ∧ ∃ as bs, ps = as ++ bs ∧ InOrder (p.1 + p.2) as size ∧ InOrder 0 bs front) := by
      rintro cs rfl
      obtain ⟨-, hrest⟩ := hbs.behind
      have hend := hrest.le
      exact ⟨Or.inr ⟨hlt, by omega⟩, Or.inl ⟨by omega, hrest⟩⟩
    rcases List.append_eq_append_iff.mp heq with ⟨cs, rfl, hcs⟩ | ⟨cs, rfl, hcs⟩
    · cases cs with
      | nil => exact @hstart [] hcs.symm
      | cons c cs =>
        rw [List.cons_append, List.cons.injEq] at hcs
        obtain ⟨rfl, rfl⟩ := hcs
        obtain ⟨hp, hrest⟩ := has.behind
        have hend := hrest.le
        exact ⟨Or.inl ⟨hp, by omega, fun _ => by omega⟩, Or.inr ⟨by omega, cs, bs, rfl, hrest, hbs⟩⟩
    · exact hstart hcs

/-- **The read position moves to a piece**, and those before it are used up. -/
theorem Held.move {p : Nat × Nat} (h : Held size read write front (qs ++ p :: ps)) :
    Held size p.1 write front ps ∧ Moves size read write p.1 := by
  have hwrite := h.write_le
  obtain ⟨hmoves, hparts⟩ := h.behind
  refine ⟨⟨?_, hwrite, h.front_le, ?_⟩, hmoves⟩
  · rcases hmoves with ⟨-, hle, -⟩ | ⟨-, hle⟩ <;> omega
  · rcases hparts with ⟨hle, hord⟩ | ⟨hlt, as, bs, heq, has, hbs⟩
    · exact Or.inl ⟨hle, hord.mono (Nat.le_add_right _ _) (Nat.le_refl _)⟩
    · exact Or.inr ⟨hlt, as, bs, heq, has.mono (Nat.le_add_right _ _) (Nat.le_refl _), hbs⟩

theorem Room.moved {read' : Nat} (h : Room size read write o n) (hm : Moves size read write read') :
    Room size read' write o n := by
  unfold Room Moves at *
  omega

theorem Room.reset (h : Room size read write o n) : Room size 0 0 o n :=
  Or.inl ⟨Nat.le_refl _, Nat.zero_le _, h.inside⟩

/-- **A piece at the write position is the last one**, where no two pieces in a row are empty. -/
theorem Held.eq_nil_of_end {p : Nat × Nat} (h : Held size read write front (qs ++ p :: ps))
    (halt : (qs ++ p :: ps).IsChain (fun x y => x.2 = 0 → 0 < y.2)) (hend : p.1 = write) :
    ps = [] ∧ p.2 = 0 ∧ front = write := by
  have hfront := h.front_le
  rcases h.behind.2 with ⟨-, hord⟩ | ⟨hlt, -⟩
  · have hle := hord.le
    cases ps with
    | nil => exact ⟨rfl, by omega, by omega⟩
    | cons q ps =>
      -- the next piece would be empty too
      obtain ⟨hq, hrest⟩ := hord
      have hle' := hrest.le
      have hpos := (List.isChain_append.mp halt).2.1.rel
      omega
  · omega

end HiSTB.Lib.SplitBuffer
