import HiSTB.Security.Verify
import Mathlib.Data.List.Basic

/-!
# `Security.Correctness.Lines` — the lines of the system list

* `Line`, `Line.text` — a line; `WellFormed` — what a line is to be;
* `WellFormed.stem_inj`, `lines_split` — a list is cut into lines in one way;
* `Plain` — the lines that the driver reads as they are meant; `readLine_line`, `getFilenameAndHash_tab`,
  `Plain.readVal` — how it does.
-/

namespace HiSTB.Security

/-! ## Lines -/

/-- A line: the path, nineteen bytes with what follows each of them, and the last byte. -/
structure Line where
  path : List Byte
  firsts : List (Byte × Byte × Byte)
  last : Byte × Byte

/-- A byte as it is written, and what follows it. -/
def group (g : Byte × Byte × Byte) : List Byte := [g.1, g.2.1, g.2.2]

/-- The hash as it is written, with the newline. -/
def Line.hashText (l : Line) : List Byte := l.firsts.flatMap group ++ group (l.last.1, l.last.2, newline)

def Line.text (l : Line) : List Byte := l.path ++ tab :: l.hashText

/-- A line up to its last digit. -/
def Line.stem (l : Line) : List Byte := l.path ++ tab :: (l.firsts.flatMap group ++ [l.last.1, l.last.2])

theorem Line.text_eq_stem (l : Line) : l.text = l.stem ++ [newline] := by
  simp [Line.text, Line.stem, Line.hashText, group]

/-- The value of two digits. -/
def pairVal (a b : Byte) : Byte := BitVec.ofNat 8 ((hexVal a).getD 0 * 16 + (hexVal b).getD 0)

def Line.hash (l : Line) : List Byte := l.firsts.map (fun g => pairVal g.1 g.2.1) ++ [pairVal l.last.1 l.last.2]

/-- A path, a tab, and twenty bytes of two hexadecimal digits with a character between them. -/
structure WellFormed (l : Line) : Prop where
  path : ∀ c ∈ l.path, c ≠ 0 ∧ c ≠ tab ∧ c ≠ newline
  length : l.firsts.length + 1 = sha1Len
  digits : ∀ g ∈ l.firsts, (hexVal g.1).isSome ∧ (hexVal g.2.1).isSome
  between : ∀ g ∈ l.firsts, g.2.2 ≠ newline
  last : (hexVal l.last.1).isSome ∧ (hexVal l.last.2).isSome

/-- A line that fits into the window, with no digit between the bytes. -/
structure Plain (l : Line) : Prop extends WellFormed l where
  fits : l.text.length ≤ bufSize
  apart : ∀ g ∈ l.firsts, hexVal g.2.2 = none

/-- The text of some lines. -/
def textOf (ls : List Line) : List Byte := (ls.map Line.text).flatten

@[simp] theorem textOf_nil : textOf [] = [] := rfl

@[simp] theorem textOf_cons (l : Line) (ls : List Line) : textOf (l :: ls) = l.text ++ textOf ls := rfl

theorem ne_newline_of_hexVal {c : Byte} (h : (hexVal c).isSome) : c ≠ newline := by
  rintro rfl
  exact absurd h (by decide)

/-! ### Where a line ends -/

/-- There is no newline before the end. -/
theorem WellFormed.not_mem_stem {l : Line} (h : WellFormed l) : newline ∉ l.stem := by
  intro hmem
  simp only [Line.stem, List.mem_append, List.mem_cons, List.mem_flatMap, group, List.not_mem_nil, or_false] at hmem
  rcases hmem with hmem | hmem | ⟨g, hg, hmem⟩ | hmem
  · exact (h.path _ hmem).2.2 rfl
  · exact absurd hmem (by decide)
  · rcases hmem with hmem | hmem | hmem
    · exact ne_newline_of_hexVal (h.digits g hg).1 hmem.symm
    · exact ne_newline_of_hexVal (h.digits g hg).2 hmem.symm
    · exact h.between g hg hmem.symm
  · rcases hmem with hmem | hmem
    · exact ne_newline_of_hexVal h.last.1 hmem.symm
    · exact ne_newline_of_hexVal h.last.2 hmem.symm

/-- A text up to a character is found in one way. -/
theorem append_cons_inj {α : Type*} {c : α} {u v xs ys : List α} (hu : c ∉ u) (hv : c ∉ v)
    (h : u ++ c :: xs = v ++ c :: ys) : u = v ∧ xs = ys := by
  induction u generalizing v with
  | nil =>
    cases v with
    | nil => exact ⟨rfl, (List.cons.inj h).2⟩
    | cons d v =>
      have hhead := (List.cons.inj h).1
      exact absurd (hhead ▸ List.mem_cons_self) hv
  | cons d u ih =>
    cases v with
    | nil =>
      have hhead := (List.cons.inj h).1
      exact absurd (hhead.symm ▸ List.mem_cons_self) hu
    | cons e v =>
      obtain ⟨hhead, htail⟩ := List.cons.inj h
      obtain ⟨rfl, hrest⟩ := ih (fun hmem => hu (List.mem_cons_of_mem _ hmem))
        (fun hmem => hv (List.mem_cons_of_mem _ hmem)) htail
      exact ⟨by rw [hhead], hrest⟩

theorem flatMap_group_inj {gs gs' : List (Byte × Byte × Byte)} {xs ys : List Byte} (hlen : gs.length = gs'.length)
    (h : gs.flatMap group ++ xs = gs'.flatMap group ++ ys) : gs = gs' ∧ xs = ys := by
  induction gs generalizing gs' with
  | nil =>
    cases gs' with
    | nil => exact ⟨rfl, h⟩
    | cons g' gs' => cases hlen
  | cons g gs ih =>
    cases gs' with
    | nil => cases hlen
    | cons g' gs' =>
      simp only [List.flatMap_cons, group, List.cons_append, List.nil_append, List.cons.injEq] at h
      obtain ⟨h1, h2, h3, hrest⟩ := h
      obtain ⟨rfl, hxs⟩ := ih (Nat.succ.inj hlen) hrest
      exact ⟨by rw [Prod.ext h1 (Prod.ext h2 h3)], hxs⟩

/-- **A line is known by its start**, whatever is behind the last digit. -/
theorem WellFormed.stem_inj {l l' : Line} {xs ys : List Byte} (h : WellFormed l) (h' : WellFormed l')
    (heq : l.stem ++ xs = l'.stem ++ ys) : l = l' ∧ xs = ys := by
  obtain ⟨path, firsts, last⟩ := l
  obtain ⟨path', firsts', last'⟩ := l'
  simp only [Line.stem, List.append_assoc, List.cons_append] at heq
  obtain ⟨hpath, hhash⟩ := append_cons_inj (fun hmem => (h.path _ hmem).2.1 rfl) (fun hmem =>
    (h'.path _ hmem).2.1 rfl) heq
  have hlen : firsts.length = firsts'.length := Nat.succ.inj (h.length.trans h'.length.symm)
  obtain ⟨hfirsts, hlast⟩ := flatMap_group_inj hlen hhash
  simp only [List.nil_append, List.cons.injEq] at hlast
  simp only at hpath
  exact ⟨by rw [hpath, hfirsts, Prod.ext hlast.1 hlast.2.1], hlast.2.2⟩

/-- **A list is cut into lines in one way.** -/
theorem lines_split {ps ls : List Line} {rest : List Byte} (hps : ∀ l ∈ ps, WellFormed l) (hls : ∀ l ∈ ls, WellFormed l)
    (h : textOf ls = textOf ps ++ rest) : ∃ ls', ls = ps ++ ls' ∧ rest = textOf ls' := by
  induction ps generalizing ls with
  | nil => exact ⟨ls, rfl, h.symm⟩
  | cons p ps ih =>
    cases ls with
    | nil =>
      rw [textOf_nil, textOf_cons, Line.text_eq_stem] at h
      simp at h
    | cons l ls =>
      rw [textOf_cons, textOf_cons, Line.text_eq_stem, Line.text_eq_stem] at h
      simp only [List.append_assoc] at h
      obtain ⟨rfl, hrest⟩ := (hls l List.mem_cons_self).stem_inj (hps p List.mem_cons_self) h
      obtain ⟨ls', hls', htext⟩ := ih (fun l hl => hps l (List.mem_cons_of_mem _ hl))
        (fun l hl => hls l (List.mem_cons_of_mem _ hl)) (List.cons.inj hrest).2
      exact ⟨ls', by rw [hls']; rfl, htext⟩

/-! ## How a line is read -/

theorem lineLen_eq {u v : List Byte} (h : newline ∉ u) : lineLen (u ++ newline :: v) = u.length + 1 := by
  induction u with
  | nil => simp [lineLen]
  | cons c u ih =>
    rw [List.mem_cons, not_or] at h
    simp only [List.cons_append, lineLen, if_neg (Ne.symm h.1), ih h.2, List.length_cons]

/-- The buffer is not left. -/
theorem length_readLine {file mem mem' : List Byte} {pos pos' : Nat} (h : readLine file pos mem = some (pos', mem'))
    (hmem : bufSize ≤ mem.length) : bufSize ≤ mem'.length := by
  unfold readLine at h
  dsimp only at h
  split_ifs at h <;> obtain ⟨-, rfl⟩ := Prod.mk.inj (Option.some.inj h)
  · rw [List.length_set, List.length_append, List.length_drop]
    omega
  · rw [List.length_append, List.length_drop]
    omega

/-- **A line is cut out**, and stands at the start of the memory; a 0 is behind it where there is room. -/
theorem readLine_line {file mem u rest : List Byte} {pos : Nat} (hmem : bufSize ≤ mem.length)
    (hfile : file.drop pos = u ++ newline :: rest) (hnot : newline ∉ u) (hfits : u.length + 1 ≤ bufSize) :
    ∃ m, readLine file pos mem = some (pos + (u.length + 1), u ++ newline :: m) ∧
      (u.length + 1 < bufSize → ∃ m', m = 0 :: m') := by
  have htake : (file.drop pos).take bufSize = u ++ newline :: rest.take (bufSize - (u.length + 1)) := by
    rw [hfile, List.take_append, List.take_of_length_le (by omega)]
    congr 1
    obtain ⟨k, hk⟩ : ∃ k, bufSize - u.length = k + 1 := ⟨bufSize - u.length - 1, by omega⟩
    rw [hk, List.take_succ_cons]
    congr 2
    omega
  -- what is behind the line
  obtain ⟨w, hw⟩ : ∃ w, u ++ newline :: rest.take (bufSize - (u.length + 1)) ++
      mem.drop (u ++ newline :: rest.take (bufSize - (u.length + 1))).length = u ++ newline :: w :=
    ⟨_, by rw [List.append_assoc, List.cons_append]⟩
  have hlen : bufSize ≤ (u ++ newline :: w).length := by
    rw [← hw, List.length_append, List.length_drop]
    omega
  unfold readLine
  rw [htake]
  dsimp only
  rw [if_neg (by simp), lineLen_eq hnot, hw]
  by_cases hlt : u.length + 1 < bufSize
  · rw [if_pos hlt]
    cases w with
    | nil =>
      simp only [List.length_append, List.length_cons, List.length_nil] at hlen
      omega
    | cons c w =>
      refine ⟨0 :: w, ?_, fun _ => ⟨w, rfl⟩⟩
      rw [List.set_append_right _ _ (by omega)]
      simp
  · rw [if_neg hlt]
    exact ⟨w, rfl, fun h => absurd h hlt⟩

/-- What is before the first tab or zero belongs to the name. -/
theorem getFilenameAndHash_append {u : List Byte} (hu : ∀ c ∈ u, c ≠ 0 ∧ c ≠ tab) (m : List Byte) :
    getFilenameAndHash (u ++ m) = (getFilenameAndHash m).map (fun r => r.map (fun q => (u ++ q.1, q.2))) := by
  induction u with
  | nil =>
    rw [List.nil_append]
    rcases getFilenameAndHash m with _ | _ | q <;> rfl
  | cons c u ih =>
    obtain ⟨h0, htab⟩ := hu c List.mem_cons_self
    rw [List.cons_append, getFilenameAndHash, if_neg h0, if_neg htab, ih (fun d hd => hu d (List.mem_cons_of_mem _ hd))]
    rcases getFilenameAndHash m with _ | _ | q <;> rfl

theorem getFilenameAndHash_tab {u m : List Byte} (hu : ∀ c ∈ u, c ≠ 0 ∧ c ≠ tab) :
    getFilenameAndHash (u ++ tab :: m) = some (some (u, m)) := by
  have htab : getFilenameAndHash (tab :: m) = some (some ([], m)) := by
    rw [getFilenameAndHash, if_neg (by decide), if_pos rfl]
  rw [getFilenameAndHash_append hu, htab]
  simp

theorem getFilenameAndHash_none {u m : List Byte} (hu : ∀ c ∈ u, c ≠ 0 ∧ c ≠ tab) :
    getFilenameAndHash (u ++ 0 :: m) = some none := by
  rw [getFilenameAndHash_append hu, getFilenameAndHash, if_pos rfl]
  rfl

/-! ### The hash -/

/-- A digit is no `x`. -/
theorem ne_x_of_hexVal {c : Byte} (h : (hexVal c).isSome) : ¬ c.toNat ||| 0x20 = 120 := by
  have hall : ∀ n, n < 58 → n ||| 0x20 = 120 → n < 48 := by decide
  intro hx
  unfold hexVal at h
  rw [if_neg, hx] at h
  · exact absurd h (by decide)
  · rintro ⟨hge, hle⟩
    have hlt := hall c.toNat (by omega) hx
    omega

/-- **Two digits**, and no digit behind them. -/
theorem simpleStrtoul_pair {a b c : Byte} {m : List Byte} (ha : (hexVal a).isSome) (hb : (hexVal b).isSome)
    (hc : hexVal c = none) :
    simpleStrtoul (a :: b :: c :: m) = some ((hexVal a).getD 0 * 16 + (hexVal b).getD 0) := by
  obtain ⟨x, hx⟩ := Option.isSome_iff_exists.mp ha
  obtain ⟨y, hy⟩ := Option.isSome_iff_exists.mp hb
  unfold simpleStrtoul
  dsimp only
  rw [if_neg (fun h => ne_x_of_hexVal hb h.2)]
  simp [parseInteger, hx, hy, hc]

theorem readVal_groups {gs : List (Byte × Byte × Byte)} {n : Nat} {m : List Byte}
    (hgs : ∀ g ∈ gs, (hexVal g.1).isSome ∧ (hexVal g.2.1).isSome ∧ hexVal g.2.2 = none) :
    readVal (gs.length + n) (gs.flatMap group ++ m) =
      (readVal n m).map (fun val => gs.map (fun g => pairVal g.1 g.2.1) ++ val) := by
  induction gs with
  | nil => simp
  | cons g gs ih =>
    obtain ⟨ha, hb, hc⟩ := hgs g List.mem_cons_self
    have hlen : (g :: gs).length + n = gs.length + n + 1 := by
      rw [List.length_cons]
      omega
    rw [hlen, readVal, List.flatMap_cons]
    have htext : group g ++ gs.flatMap group ++ m = g.1 :: g.2.1 :: g.2.2 :: (gs.flatMap group ++ m) := rfl
    rw [htext, simpleStrtoul_pair ha hb hc, Option.bind_some]
    show (readVal (gs.length + n) (gs.flatMap group ++ m)).map _ = _
    rw [ih (fun g hg => hgs g (List.mem_cons_of_mem _ hg)), Option.map_map]
    rfl

/-- **The hash of a plain line**: it ends where no digit stands. -/
theorem Plain.readVal {l : Line} {c : Byte} (h : Plain l) (hc : hexVal c = none) (m : List Byte) :
    readVal sha1Len (l.firsts.flatMap group ++ [l.last.1, l.last.2] ++ c :: m) = some l.hash := by
  have hfirsts := @readVal_groups l.firsts 1 (group (l.last.1, l.last.2, c) ++ m) (fun g hg =>
    ⟨(h.digits g hg).1, (h.digits g hg).2, h.apart g hg⟩)
  have hlast := @readVal_groups [(l.last.1, l.last.2, c)] 0 m (fun g hg => by
    rw [List.mem_singleton] at hg
    rw [hg]
    exact ⟨h.last.1, h.last.2, hc⟩)
  simp only [List.flatMap_cons, List.flatMap_nil, List.append_nil, List.length_singleton, Nat.add_zero, List.map_cons,
    List.map_nil] at hlast
  rw [hlast, h.length] at hfirsts
  rw [List.append_assoc]
  exact hfirsts

end HiSTB.Security
