import HiSTB.Subtitle.Correctness.Utf8
import Mathlib.Data.List.Chain

/-!
# `Subtitle.Correctness.Utf8End` — the line breaks at the end of a text

The two loops over the end are about the last characters, so the lists here have the end in front.

* `finish_text`, `finish_places` — what the end of `String_UTF8ToUnicode` leaves, and where it looks;
* `reaches_iff` — the texts for which the second loop looks in front of the array;
* `trims_iff` — the texts of which all breaks at the end are taken off, and nothing else;
* `utf8_right_iff` — both for the whole function.
-/

namespace HiSTB.Subtitle.Utf8

variable {u v : Int → Code} {n m k maxLen : Nat} {l l' : List Code} {c before : Code}

variable {cs : List Code}

/-! ## The two loops -/

/-- What the first loop leaves. -/
def dropPairs : List Code → List Code
  | a :: b :: l => if a = 10 ∧ b = 13 then dropPairs l else a :: b :: l
  | l => l

/-- What the second loop leaves; `before` is in front of the array. -/
def dropBreaks (before : Code) : List Code → List Code
  | [] => []
  | c :: l => if c = 10 ∨ l.headD before = 13 then dropBreaks before l else c :: l

/-- The second loop comes to a first character that is no 10, and looks in front of the array. -/
def Reaches : List Code → Prop
  | [] => False
  | [c] => c ≠ 10
  | c :: d :: l => (c = 10 ∨ d = 13) ∧ Reaches (d :: l)

/-- **The first loop.** -/
theorem trimPairs_spec (u : Int → Code) : ∀ n, cells u (trimPairs u n).1 = dropPairs (cells u n) ∧
    (trimPairs u n).1 ≤ n ∧ ∀ i ∈ (trimPairs u n).2, 0 ≤ i ∧ i < n
  | 0 => ⟨rfl, Nat.le_refl 0, fun _ h => absurd h List.not_mem_nil⟩
  | 1 => ⟨rfl, Nat.le_refl 1, fun _ h => absurd h List.not_mem_nil⟩
  | n + 2 => by
      obtain ⟨hcells, hle, hplaces⟩ := trimPairs_spec u n
      rw [trimPairs, cells, cells, dropPairs]
      by_cases hlast : u (n + 1 : Nat) = 10
      · by_cases hprev : u n = 13
        · rw [if_pos hlast, if_pos hprev, if_pos ⟨hlast, hprev⟩]
          refine ⟨hcells, Nat.le_add_right_of_le hle, ?_⟩
          intro i hi
          rcases List.mem_cons.mp hi with rfl | hi
          · omega
          · rcases List.mem_cons.mp hi with rfl | hi
            · omega
            · have hin := hplaces i hi
              omega
        · rw [if_pos hlast, if_neg hprev, if_neg (fun h => hprev h.2)]
          refine ⟨rfl, Nat.le_refl _, ?_⟩
          intro i hi
          simp only [List.mem_cons, List.not_mem_nil, or_false] at hi
          omega
      · rw [if_neg hlast, if_neg (fun h => hlast h.1)]
        refine ⟨rfl, Nat.le_refl _, ?_⟩
        intro i hi
        rw [List.mem_singleton.mp hi]
        omega

theorem headD_cells : (cells u n).headD (u (-1)) = u ((n : Int) - 1) := by
  cases n with
  | zero => rfl
  | succ n =>
    show u n = _
    congr 1
    omega

/-- **The second loop.** -/
theorem trimBreaks_spec (u : Int → Code) (n : Nat) :
    cells u (trimBreaks u n).1 = dropBreaks (u (-1)) (cells u n) ∧ (trimBreaks u n).1 ≤ n := by
  induction n with
  | zero => exact ⟨rfl, Nat.le_refl 0⟩
  | succ n ih =>
    rw [trimBreaks, cells, dropBreaks, headD_cells]
    by_cases hlast : u n = 10
    · rw [if_pos hlast, if_pos (.inl hlast)]
      exact ⟨ih.1, Nat.le_succ_of_le ih.2⟩
    · rw [if_neg hlast]
      by_cases hprev : u ((n : Int) - 1) = 13
      · rw [if_pos hprev, if_pos (.inr hprev)]
        exact ⟨ih.1, Nat.le_succ_of_le ih.2⟩
      · rw [if_neg hprev, if_neg (fun h => h.elim hlast hprev)]
        exact ⟨rfl, Nat.le_refl _⟩

theorem trimBreaks_places_lt (u : Int → Code) (n : Nat) : ∀ i ∈ (trimBreaks u n).2, i < n := by
  induction n with
  | zero => exact fun _ h => absurd h List.not_mem_nil
  | succ n ih =>
    intro i hi
    rw [trimBreaks] at hi
    split at hi
    · rcases List.mem_cons.mp hi with rfl | hi
      · omega
      · have hlt := ih i hi
        omega
    · split at hi
      · rcases List.mem_cons.mp hi with rfl | hi
        · omega
        · rcases List.mem_cons.mp hi with rfl | hi
          · omega
          · have hlt := ih i hi
            omega
      · simp only [List.mem_cons, List.not_mem_nil, or_false] at hi
        omega

/-- Where the second loop looks. -/
theorem trimBreaks_places (u : Int → Code) (n : Nat) : (∀ i ∈ (trimBreaks u n).2, 0 ≤ i) ↔ ¬ Reaches (cells u n) := by
  induction n with
  | zero => exact iff_of_true (fun _ h => absurd h List.not_mem_nil) id
  | succ n ih =>
    rw [trimBreaks]
    by_cases hlast : u n = 10
    · rw [if_pos hlast, List.forall_mem_cons, and_iff_right (Int.natCast_nonneg n), ih]
      cases n with
      | zero => exact iff_of_true id (fun h => h hlast)
      | succ n => exact not_congr (and_iff_right (.inl hlast)).symm
    · rw [if_neg hlast]
      cases n with
      | zero =>
        -- a single character that is no 10
        refine iff_of_false (fun h => ?_) (fun h => h hlast)
        have hfront : ((0 : Nat) : Int) - 1 ∈ (if u (((0 : Nat) : Int) - 1) = 13 then
            let r := trimBreaks u 0
            (r.1, ((0 : Nat) : Int) :: (((0 : Nat) : Int) - 1) :: r.2)
          else (0 + 1, [((0 : Nat) : Int), ((0 : Nat) : Int) - 1])).2 := by
          split <;> simp
        have hneg := h _ hfront
        omega
      | succ n =>
        rw [show ((n + 1 : Nat) : Int) - 1 = (n : Int) by omega]
        by_cases hprev : u n = 13
        · rw [if_pos hprev, List.forall_mem_cons, List.forall_mem_cons, and_iff_right (by omega),
            and_iff_right (by omega), ih]
          exact not_congr (and_iff_right (.inr hprev)).symm
        · rw [if_neg hprev]
          refine iff_of_true (fun i hi => ?_) (fun h => h.1.elim hlast hprev)
          simp only [List.mem_cons, List.not_mem_nil, or_false] at hi
          omega

/-! ## What the function leaves -/

/-- The rest of a text, and a break if there is a rest. -/
def close (l : List Code) : List Code := if l = [] then [] else l.reverse ++ [10]

theorem close_inj (h : close l = close l') : l = l' := by
  unfold close at h
  split at h <;> split at h
  · rename_i hl hl'
    rw [hl, hl']
  · exact absurd h.symm (by simp)
  · exact absurd h (by simp)
  · exact List.reverse_inj.mp (List.append_cancel_right h)

theorem range_map_eq : (List.range n).map (fun i => u (i : Nat)) = (cells u n).reverse := by
  induction n with
  | zero => rfl
  | succ n ih => rw [List.range_succ, List.map_append, ih, cells, List.reverse_cons, List.map_singleton]

/-- What the second loop leaves does not end with a 10. -/
theorem head_dropBreaks (h : dropBreaks before l = c :: l') : c ≠ 10 := by
  induction l with
  | nil => exact absurd h (by simp [dropBreaks])
  | cons d l ih =>
    rw [dropBreaks] at h
    split at h
    · exact ih h
    · rename_i hstay
      rw [← (List.cons.inj h).1]
      exact fun hd => hstay (.inl hd)

theorem cells_eq_cons (hn : 0 < n) : ∃ l, cells u n = u ((n : Int) - 1) :: l := by
  cases n with
  | zero => exact absurd hn (Nat.lt_irrefl 0)
  | succ n =>
    refine ⟨cells u n, ?_⟩
    rw [cells]
    congr 2
    omega

theorem finish_text (s : Store) :
    s.finish.text = close (dropBreaks (s.unicode (-1)) (dropPairs (cells s.unicode s.strCount))) := by
  have hpairs := (trimPairs_spec s.unicode s.strCount).1
  have hbreaks := (trimBreaks_spec s.unicode (trimPairs s.unicode s.strCount).1).1
  rw [← hpairs, ← hbreaks]
  unfold Store.finish Result.text
  dsimp only
  rw [if_pos rfl]
  generalize (trimPairs s.unicode s.strCount).1 = p at hbreaks ⊢
  generalize (trimBreaks s.unicode p).1 = n at hbreaks ⊢
  by_cases hn : n > 0
  · obtain ⟨l, hl⟩ := cells_eq_cons (u := s.unicode) hn
    have hlast : s.unicode ((n : Int) - 1) ≠ 10 := head_dropBreaks (hbreaks.symm.trans hl)
    have hadds : (decide (n > 0) && decide (s.unicode ((n : Int) - 1) ≠ 10)) = true := by
      rw [decide_eq_true hn, decide_eq_true hlast]
      rfl
    simp only [hadds, if_true]
    have hclose : close (cells s.unicode n) = (cells s.unicode n).reverse ++ [10] := if_neg (by simp [hl])
    let last : Int → Code := fun i => if i = (n + 1 : Nat) then 0 else if i = n then 10 else s.unicode i
    have hfinal : cells last (n + 1) = 10 :: cells s.unicode n := by
      rw [cells, show last n = 10 from (if_neg (by omega)).trans (if_pos rfl)]
      congr 1
      exact cells_congr (fun i hi => (if_neg (by omega)).trans (if_neg (by omega)))
    rw [hclose, ← List.reverse_cons, ← hfinal]
    exact range_map_eq (u := last)
  · have hzero : n = 0 := Nat.eq_zero_of_not_pos hn
    subst hzero
    rfl

theorem finish_places (s : Store) (hmax : s.strCount ≤ maxLen + 1) (hplaces : ∀ i ∈ s.places, 0 ≤ i ∧ i ≤ maxLen) :
    (∀ i ∈ s.finish.places, 0 ≤ i ∧ i ≤ maxLen + 2) ↔ ¬ Reaches (dropPairs (cells s.unicode s.strCount)) := by
  obtain ⟨hcells, hle, hpairs⟩ := trimPairs_spec s.unicode s.strCount
  have hle' := (trimBreaks_spec s.unicode (trimPairs s.unicode s.strCount).1).2
  have hlt := trimBreaks_places_lt s.unicode (trimPairs s.unicode s.strCount).1
  rw [← hcells, ← trimBreaks_places]
  unfold Store.finish
  dsimp only
  generalize trimPairs s.unicode s.strCount = pairs at hle hpairs hle' hlt ⊢
  generalize trimBreaks s.unicode pairs.1 = breaks at hle' hlt ⊢
  constructor
  · intro hall i hi
    exact (hall i (by simp [hi])).1
  · intro hbreaks i hi
    have hones : ∀ (b : Bool) (j : Int), i ∈ (if b then [j] else []) → b = true ∧ i = j := by
      intro b j hj
      cases b with
      | false => exact absurd hj List.not_mem_nil
      | true => exact ⟨rfl, List.mem_singleton.mp hj⟩
    rcases List.mem_append.mp hi with hi | hi
    · rcases List.mem_append.mp hi with hi | hi
      · rcases List.mem_append.mp hi with hi | hi
        · rcases List.mem_append.mp hi with hi | hi
          · rcases List.mem_append.mp hi with hi | hi
            · have hin := hplaces i hi
              omega
            · have hin := hpairs i hi
              omega
          · have hlow := hbreaks i hi
            have hhigh := hlt i hi
            omega
        · by_cases hpos : breaks.1 > 0
          · rw [if_pos hpos] at hi
            have heq := List.mem_singleton.mp hi
            omega
          · rw [if_neg hpos] at hi
            exact absurd hi List.not_mem_nil
      · obtain ⟨-, heq⟩ := hones _ _ hi
        omega
    · have heq := List.mem_singleton.mp hi
      split at heq <;> omega

/-! ## The ends of a text -/

/-- Pairs of 13 and 10. -/
def pairs : Nat → List Code
  | 0 => []
  | k + 1 => 13 :: 10 :: pairs k

theorem pairs_succ (k : Nat) : pairs (k + 1) = pairs k ++ [13, 10] := by
  induction k with
  | zero => rfl
  | succ k ih =>
    show 13 :: 10 :: pairs (k + 1) = 13 :: 10 :: (pairs k ++ [13, 10])
    rw [ih]

theorem dropPairs_of_ne (h : c ≠ 10) : dropPairs (c :: l) = c :: l := by
  cases l with
  | nil => rfl
  | cons d l => exact if_neg (fun hpair => h hpair.1)

theorem dropPairs_pair : dropPairs (10 :: 13 :: l) = dropPairs l := if_pos ⟨rfl, rfl⟩

theorem dropPairs_pairs (k : Nat) (l : List Code) : dropPairs ((pairs k).reverse ++ l) = dropPairs l := by
  induction k with
  | zero => rfl
  | succ k ih =>
    rw [pairs_succ, List.reverse_append]
    exact dropPairs_pair.trans ih

/-- What the first loop takes off is pairs. -/
theorem exists_pairs (l : List Code) : ∃ k, l = (pairs k).reverse ++ dropPairs l := by
  induction hn : l.length using Nat.strongRecOn generalizing l with
  | ind n ih =>
    subst hn
    match l with
    | [] => exact ⟨0, rfl⟩
    | [_] => exact ⟨0, rfl⟩
    | a :: b :: l =>
      by_cases hpair : a = 10 ∧ b = 13
      · obtain ⟨rfl, rfl⟩ := hpair
        obtain ⟨k, hk⟩ := ih l.length (Nat.lt_add_of_pos_right (Nat.succ_pos 1)) l rfl
        refine ⟨k + 1, ?_⟩
        rw [dropPairs_pair, pairs_succ, List.reverse_append]
        exact congrArg (fun l => 10 :: 13 :: l) hk
      · exact ⟨0, (if_neg hpair).symm⟩

theorem dropPairs_ne_pair (l : List Code) : dropPairs l ≠ [10, 13] := by
  induction hn : l.length using Nat.strongRecOn generalizing l with
  | ind n ih =>
    subst hn
    match l with
    | [] => decide
    | [_] => exact fun h => absurd (List.cons.inj h).2 (List.cons_ne_nil 13 []).symm
    | a :: b :: l =>
      by_cases hpair : a = 10 ∧ b = 13
      · rw [dropPairs, if_pos hpair]
        exact ih l.length (Nat.lt_add_of_pos_right (Nat.succ_pos 1)) l rfl
      · rw [dropPairs, if_neg hpair]
        exact fun h => hpair ⟨(List.cons.inj h).1, (List.cons.inj (List.cons.inj h).2).1⟩

theorem reaches_reverse_iff (hl : l ≠ []) :
    Reaches l ↔ l.IsChain (fun d c => d = 10 ∨ c = 13) ∧ l.getLast hl ≠ 10 := by
  induction l with
  | nil => exact absurd rfl hl
  | cons c l ih =>
    cases l with
    | nil => exact (and_iff_right (List.isChain_singleton c)).symm
    | cons d l =>
      rw [Reaches, ih (List.cons_ne_nil d l), List.isChain_cons_cons,
        List.getLast_cons (List.cons_ne_nil d l), and_assoc]

/-- A text that the second loop takes off up to its first character: behind that one, every character is a 10 or stands
    behind a 13, and pairs may follow. -/
def Hollow (cs : List Code) : Prop :=
  ∃ x rest k, cs = (x :: rest) ++ pairs k ∧ x ≠ 10 ∧ (x :: rest).IsChain (fun p c => c = 10 ∨ p = 13) ∧
    x :: rest ≠ [13, 10]

/-- **The texts for which the second loop looks in front of the array.** -/
theorem reaches_iff (cs : List Code) : Reaches (dropPairs cs.reverse) ↔ Hollow cs := by
  constructor
  · intro hreach
    obtain ⟨k, hk⟩ := exists_pairs cs.reverse
    have hne : dropPairs cs.reverse ≠ [] := by
      intro h
      rw [h] at hreach
      exact hreach
    obtain ⟨hchain, hlast⟩ := (reaches_reverse_iff hne).mp hreach
    have hcs : cs = (dropPairs cs.reverse).reverse ++ pairs k := by
      rw [← List.reverse_inj, List.reverse_append, List.reverse_reverse]
      exact hk
    cases hrest : (dropPairs cs.reverse).reverse with
    | nil => exact absurd (List.reverse_eq_nil_iff.mp hrest) hne
    | cons x rest =>
      have hrev : dropPairs cs.reverse = (x :: rest).reverse := by rw [← hrest, List.reverse_reverse]
      refine ⟨x, rest, k, hrest ▸ hcs, ?_, ?_, ?_⟩
      · simpa [hrev] using hlast
      · rw [← hrest, List.isChain_reverse]
        exact hchain
      · intro hpair
        exact dropPairs_ne_pair cs.reverse (by rw [hrev, hpair]; rfl)
  · rintro ⟨x, rest, k, rfl, hx, hchain, hne⟩
    rw [List.reverse_append, dropPairs_pairs]
    have hreach : Reaches (x :: rest).reverse := by
      rw [reaches_reverse_iff (by simp)]
      refine ⟨?_, by simpa using hx⟩
      rw [List.isChain_reverse]
      exact hchain
    have hne' : (x :: rest).reverse ≠ [10, 13] := fun h => hne (by rw [← List.reverse_inj, h]; rfl)
    generalize (x :: rest).reverse = l at hreach hne' ⊢
    match l, hreach, hne' with
    | [_], hreach, _ => exact hreach
    | [a, b], hreach, hne' =>
      rw [dropPairs, if_neg (fun h => hne' (by rw [h.1, h.2]))]
      exact hreach
    | a :: b :: c :: l, hreach, _ =>
      by_cases hpair : a = 10 ∧ b = 13
      · obtain ⟨rfl, rfl⟩ := hpair
        have hc : c = 13 := hreach.2.1.resolve_left (by decide)
        rw [dropPairs_pair, dropPairs_of_ne (by rw [hc]; decide)]
        exact hreach.2.2
      · rw [dropPairs, if_neg hpair]
        exact hreach

def isBreak (c : Code) : Bool := c == 10 || c == 13

/-- A text of which the breaks at the end are 10s and then pairs, and that has two characters in front of them of which
    the last one is no break and the other one no 13, or none. -/
def Clean (cs : List Code) : Prop :=
  ∃ body m k, cs = body ++ List.replicate m 10 ++ pairs k ∧
    (body = [] ∨ ∃ front y z, body = front ++ [y, z] ∧ y ≠ 13 ∧ isBreak z = false)

theorem length_dropWhile_lt (h : isBreak c = true) : ((c :: l).dropWhile isBreak).length < (c :: l).length := by
  rw [List.dropWhile_cons_of_pos h, List.length_cons]
  exact Nat.lt_succ_of_le (List.dropWhile_suffix isBreak).length_le

theorem length_dropBreaks_le (before : Code) (l : List Code) : (dropBreaks before l).length ≤ l.length := by
  induction l with
  | nil => exact Nat.le_refl 0
  | cons c l ih =>
    rw [dropBreaks]
    split
    · exact Nat.le_succ_of_le ih
    · exact Nat.le_refl _

/-- A 13 is taken off only if a 13 stands in front of it, so a row of them is not taken off. -/
theorem not_drops_return (l : List Code) :
    ¬ ∀ before, dropBreaks before (13 :: l) = (13 :: l).dropWhile isBreak := by
  induction l with
  | nil =>
    intro h
    exact absurd (h 0) (by decide)
  | cons c l ih =>
    intro h
    have hc : c = 13 := Classical.byContradiction fun hc => by
      have hlt := length_dropWhile_lt (c := 13) (l := c :: l) (by decide)
      rw [← h 0, dropBreaks, if_neg (fun h => h.elim (by decide) hc)] at hlt
      exact Nat.lt_irrefl _ hlt
    subst hc
    apply ih
    intro before
    have hstep := h before
    rw [dropBreaks, if_pos (.inr rfl), List.dropWhile_cons_of_pos (by decide)] at hstep
    exact hstep

/-- What the second loop does right, whatever stands in front of the array. -/
theorem drops_iff : (∀ before, dropBreaks before l = l.dropWhile isBreak) ↔
    ∃ m l', l = List.replicate m 10 ++ l' ∧ (l' = [] ∨ ∃ z y r, l' = z :: y :: r ∧ y ≠ 13 ∧ isBreak z = false) := by
  constructor
  · intro h
    induction l with
    | nil => exact ⟨0, [], rfl, .inl rfl⟩
    | cons c l ih =>
      by_cases hten : c = 10
      · subst hten
        have hrest : ∀ before, dropBreaks before l = l.dropWhile isBreak := by
          intro before
          have hstep := h before
          rw [dropBreaks, if_pos (.inl rfl), List.dropWhile_cons_of_pos (by decide)] at hstep
          exact hstep
        obtain ⟨m, l', rfl, hl'⟩ := ih hrest
        exact ⟨m + 1, l', rfl, hl'⟩
      · by_cases hret : c = 13
        · subst hret
          exact absurd h (not_drops_return l)
        · have hbreak : isBreak c = false := by
            rw [isBreak, beq_false_of_ne hten, beq_false_of_ne hret]
            rfl
          refine ⟨0, c :: l, rfl, .inr ?_⟩
          have hprev : ∀ before, l.headD before ≠ 13 := by
            intro before hprev
            have hlen := congrArg List.length (h before)
            rw [dropBreaks, if_pos (.inr hprev), List.dropWhile_cons_of_neg (by simp [hbreak]),
              List.length_cons] at hlen
            have hle := length_dropBreaks_le before l
            omega
          cases l with
          | nil => exact absurd rfl (hprev 13)
          | cons y r => exact ⟨c, y, r, rfl, hprev 0, hbreak⟩
  · rintro ⟨m, l', rfl, hl'⟩ before
    induction m with
    | zero =>
      rw [List.replicate_zero, List.nil_append]
      rcases hl' with rfl | ⟨z, y, r, rfl, hy, hz⟩
      · rfl
      · have hten : z ≠ 10 := by
          rintro rfl
          exact Bool.noConfusion hz
        rw [dropBreaks, if_neg (fun h => h.elim hten hy), List.dropWhile_cons_of_neg (by simp [hz])]
    | succ m ih =>
      rw [List.replicate_succ, List.cons_append, dropBreaks, if_pos (.inl rfl),
        List.dropWhile_cons_of_pos (by decide), ih]

/-- Pairs are breaks. -/
theorem dropWhile_pairs (k : Nat) (l : List Code) :
    ((pairs k).reverse ++ l).dropWhile isBreak = l.dropWhile isBreak := by
  induction k with
  | zero => rfl
  | succ k ih =>
    rw [pairs_succ, List.reverse_append]
    exact ih

theorem ne_of_not_isBreak (h : isBreak c = false) : c ≠ 10 ∧ c ≠ 13 := by
  constructor
  · rintro rfl
    exact Bool.noConfusion h
  · rintro rfl
    exact Bool.noConfusion h

/-- The first loop takes nothing off 10s alone. -/
theorem dropPairs_replicate (h : l = [] ∨ ∃ z y r, l = z :: y :: r ∧ y ≠ 13 ∧ isBreak z = false) :
    dropPairs (List.replicate m 10 ++ l) = List.replicate m 10 ++ l := by
  match m with
  | 0 =>
    rcases h with rfl | ⟨z, y, r, rfl, -, hz⟩
    · rfl
    · exact dropPairs_of_ne (ne_of_not_isBreak hz).1
  | 1 =>
    rcases h with rfl | ⟨z, y, r, rfl, -, hz⟩
    · rfl
    · exact if_neg (fun hpair => (ne_of_not_isBreak hz).2 hpair.2)
  | m + 2 => exact if_neg (fun hpair => absurd hpair.2 (by decide))

/-- **The texts of which all breaks at the end are taken off, and nothing else.** -/
theorem trims_iff (cs : List Code) :
    (∀ before, dropBreaks before (dropPairs cs.reverse) = cs.reverse.dropWhile isBreak) ↔ Clean cs := by
  obtain ⟨k, hk⟩ := exists_pairs cs.reverse
  constructor
  · intro h
    have hrest : ∀ before, dropBreaks before (dropPairs cs.reverse) = (dropPairs cs.reverse).dropWhile isBreak := by
      intro before
      rw [h before]
      conv => lhs; rw [hk, dropWhile_pairs]
    obtain ⟨m, l', hl, hl'⟩ := drops_iff.mp hrest
    have hcs : cs = l'.reverse ++ List.replicate m 10 ++ pairs k := by
      rw [← List.reverse_inj, List.reverse_append, List.reverse_append, List.reverse_reverse,
        List.reverse_replicate, ← hl]
      exact hk
    refine ⟨l'.reverse, m, k, hcs, ?_⟩
    rcases hl' with rfl | ⟨z, y, r, rfl, hy, hz⟩
    · exact .inl rfl
    · exact .inr ⟨r.reverse, y, z, by simp, hy, hz⟩
  · rintro ⟨body, m, k', rfl, hbody⟩ before
    have hfit : body.reverse = [] ∨ ∃ z y r, body.reverse = z :: y :: r ∧ y ≠ 13 ∧ isBreak z = false := by
      rcases hbody with rfl | ⟨front, y, z, rfl, hy, hz⟩
      · exact .inl rfl
      · exact .inr ⟨z, y, front.reverse, by simp, hy, hz⟩
    rw [List.reverse_append, List.reverse_append, List.reverse_replicate, dropPairs_pairs, dropWhile_pairs]
    rw [dropPairs_replicate hfit]
    exact drops_iff.mpr ⟨m, body.reverse, rfl, hfit⟩ before

/-! ## The function -/

/-- What should be left of a text: its characters without the breaks at the end, and one break if there are any. -/
def expected (cs : List Code) : List Code := close (cs.reverse.dropWhile isBreak)

/-- A text is read back from its bytes up to the breaks at its end, whatever the array holds before. -/
def RoundTrip (maxLen : Nat) (cs : List Code) : Prop :=
  ∀ unicode strCount, (stringUtf8ToUnicode maxLen (encode cs) unicode strCount).text = expected cs

/-- All places that are used are in the text and in the array. -/
def Safe (maxLen : Nat) (text : List Byte) : Prop :=
  ∀ unicode strCount,
    (∀ i ∈ (stringUtf8ToUnicode maxLen text unicode strCount).reads, i < text.length) ∧
    ∀ i ∈ (stringUtf8ToUnicode maxLen text unicode strCount).places, 0 ≤ i ∧ i ≤ maxLen + 2

/-- The characters that a text holds, as many as there is room for. -/
def heldBy (maxLen : Nat) (text : List Byte) : List Code :=
  (codes (fun i => text.getD i 0) text.length 0).take (maxLen + 1)

theorem loop_text (maxLen : Nat) (text : List Byte) (unicode : Int → Code) :
    Added maxLen text.length ⟨0, 0, 0, unicode, [], []⟩
      (Store.loop maxLen (fun i => text.getD i 0) text.length ⟨0, 0, 0, unicode, [], []⟩) (heldBy maxLen text) :=
  loop_spec _ (Nat.zero_le maxLen)

theorem text_eq (maxLen : Nat) (text : List Byte) (unicode : Int → Code) (strCount : Nat) :
    (stringUtf8ToUnicode maxLen text unicode strCount).text =
      close (dropBreaks (unicode (-1)) (dropPairs (heldBy maxLen text).reverse)) := by
  unfold stringUtf8ToUnicode
  by_cases hempty : text.length = 0
  · rw [if_pos hempty, List.eq_nil_of_length_eq_zero hempty, heldBy, codes, dif_neg (fun h => Nat.lt_irrefl 0 h.1)]
    rfl
  · have hloop := loop_text maxLen text unicode
    rw [if_neg hempty, finish_text, hloop.held, hloop.before]
    simp [cells]

theorem heldBy_encode (hcs : ∀ c ∈ cs, c ≠ 0 ∧ c.toNat < 2 ^ 31) (hlen : cs.length < maxLen) :
    heldBy maxLen (encode cs) = cs := by
  have hcodes : codes (fun i => (encode cs).getD i 0) (encode cs).length 0 = cs := codes_encode [] hcs
  rw [heldBy, hcodes, List.take_of_length_le (by omega)]

theorem roundTrip_iff_trims (hcs : ∀ c ∈ cs, c ≠ 0 ∧ c.toNat < 2 ^ 31) (hlen : cs.length < maxLen) :
    RoundTrip maxLen cs ↔ ∀ before, dropBreaks before (dropPairs cs.reverse) = cs.reverse.dropWhile isBreak := by
  constructor
  · intro h before
    have htext := h (fun _ => before) 0
    rw [text_eq, heldBy_encode hcs hlen] at htext
    exact close_inj htext
  · intro h unicode strCount
    rw [text_eq, heldBy_encode hcs hlen, h, expected]

/-- **The places that are used are those of the text and of the array**, unless the text is hollow. -/
theorem safe_iff (maxLen : Nat) (text : List Byte) : Safe maxLen text ↔ ¬ Hollow (heldBy maxLen text) := by
  rw [← reaches_iff]
  unfold Safe stringUtf8ToUnicode
  by_cases hempty : text.length = 0
  · have hnil : heldBy maxLen text = [] := by
      rw [heldBy, hempty, codes, dif_neg (fun h => Nat.lt_irrefl 0 h.1), List.take_nil]
    simp only [hempty, if_true, hnil]
    exact iff_of_true (fun _ _ => ⟨fun _ h => absurd h List.not_mem_nil, fun _ h => absurd h List.not_mem_nil⟩) id
  · simp only [if_neg hempty]
    have hplaces : ∀ unicode, (∀ i ∈ (Store.loop maxLen (fun i => text.getD i 0) text.length
        ⟨0, 0, 0, unicode, [], []⟩).finish.places, 0 ≤ i ∧ i ≤ maxLen + 2) ↔
        ¬ Reaches (dropPairs (heldBy maxLen text).reverse) := by
      intro unicode
      have hloop := loop_text maxLen text unicode
      have hshort : (heldBy maxLen text).length ≤ maxLen + 1 := List.length_take_le _ _
      rw [finish_places _ (by rw [hloop.count]; simpa using hshort)
        (fun i hi => (hloop.places i hi).resolve_left List.not_mem_nil), hloop.held]
      simp [cells]
    constructor
    · intro h
      exact (hplaces fun _ => 0).mp (h (fun _ => 0) 0).2
    · intro h unicode _
      refine ⟨fun i hi => ?_, (hplaces unicode).mpr h⟩
      exact ((loop_text maxLen text unicode).reads i hi).resolve_left List.not_mem_nil

/-- **What `String_UTF8ToUnicode` does right.** Of a text of characters with up to 31 bits it leaves what it should
    exactly when the end is clean, and with any bytes it stays in the text and the array unless they are hollow. -/
theorem utf8_right_iff {cs : List Code} (hcs : ∀ c ∈ cs, c ≠ 0 ∧ c.toNat < 2 ^ 31) (hlen : cs.length < maxLen) :
    (RoundTrip maxLen cs ↔ Clean cs) ∧ ∀ text, Safe maxLen text ↔ ¬ Hollow (heldBy maxLen text) :=
  ⟨(roundTrip_iff_trims hcs hlen).trans (trims_iff cs), safe_iff maxLen⟩

/-- `Hi` and a line feed. -/
theorem right_hi : RoundTrip 1024 [0x48, 0x69, 10] ∧ Safe 1024 (encode [0x48, 0x69, 10]) := by
  have hright : (RoundTrip 1024 [0x48, 0x69, 10] ↔ Clean [0x48, 0x69, 10]) ∧
      ∀ text, Safe 1024 text ↔ ¬ Hollow (heldBy 1024 text) := utf8_right_iff (by simp) (by decide)
  refine ⟨hright.1.mpr ⟨[0x48, 0x69], 1, 0, rfl, .inr ⟨[], 0x48, 0x69, rfl, by decide, rfl⟩⟩, (hright.2 _).mpr ?_⟩
  rw [heldBy_encode (by simp) (by decide), ← reaches_iff]
  simp [dropPairs, Reaches]

/-- With a text of one letter the cell in front of the array is looked at, and if there is a 13 the letter is lost.
    A text that ends with a line feed and a carriage return keeps both. -/
theorem not_right_letter :
    ¬ Safe 1024 (encode [0x41]) ∧ ¬ RoundTrip 1024 [0x41] ∧ ¬ RoundTrip 1024 [0x48, 0x69, 10, 13] := by
  refine ⟨fun h => ?_, fun h => ?_, fun h => ?_⟩
  · apply (safe_iff 1024 (encode [0x41])).mp h
    rw [heldBy_encode (by simp) (by decide)]
    exact ⟨0x41, [], 0, rfl, by decide, .singleton _, by decide⟩
  · exact absurd ((roundTrip_iff_trims (by simp) (by decide)).mp h 13) (by decide)
  · exact absurd ((roundTrip_iff_trims (by simp) (by decide)).mp h 0) (by decide)

end HiSTB.Subtitle.Utf8
