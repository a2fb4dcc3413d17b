import HiSTB.Subtitle.Shaping
import Mathlib.Data.List.SplitBy
import Mathlib.Algebra.BigOperators.Group.List.Basic

/-!
# `Subtitle.Correctness.Shaping` — where the glyphs of a line come to be

The runs behind the leading characters are drawn one in front of the other, so that after each run the end of `gidx`
holds the glyphs of the runs so far, the last one first (`Pending`, `Pending.runs`). When the line is read, `gidx` holds
the leading glyphs, a gap of as many cells as the shaper saved, and the runs (`drawn_line`).

* `hbShaping_eq` — the move closes the gap from the header, and so over the leading glyphs;
* `glyphs_right_iff` — when the line is right: with leading characters only if nothing is saved.
-/

namespace HiSTB.Subtitle

open Lib

variable {font : Font} {line : List Code}

variable {run cs : List Code} {arab : Bool} {rs : List (List Code)} {c : Code}

/-! ## What is to be drawn -/

/-- The characters in front of the first Arabic one. -/
def leading (font : Font) (line : List Code) : List Code := line.takeWhile (fun c => !font.isArab c)

/-- The runs behind them. -/
def runs (font : Font) (line : List Code) : List (List Code) :=
  (line.dropWhile (fun c => !font.isArab c)).splitBy (fun a b => font.isArab a == font.isArab b)

/-- The glyphs of a run. -/
def glyphsOf (font : Font) (run : List Code) : List Int :=
  if run.any font.isArab then (font.shape (run.map (BitVec.setWidth 16))).reverse else run.map font.charIndex

/-- How many characters the shaper saved in a run. -/
def saved (font : Font) (run : List Code) : Nat := run.length - (glyphsOf font run).length

/-- The same in some runs. -/
def savedAll (font : Font) (rs : List (List Code)) : Nat := (rs.map (saved font)).sum

/-- The glyphs of runs, the last run first. -/
def backward (font : Font) (rs : List (List Code)) : List Int := rs.reverse.flatMap (glyphsOf font)

/-- A shaper makes at least one glyph of a run, and not more than it has characters. -/
def Shapes (font : Font) : Prop := ∀ u : List (BitVec 16), u ≠ [] →
    1 ≤ (font.shape u).length ∧ (font.shape u).length ≤ u.length

/-- **What is claimed of the line**: `gidx'` is what `gidx` has become. -/
structure Right (font : Font) (line : List Code) (gidx gidx' : Nat → Int) : Prop where
  glyphs : readAt gidx' 0 line.length = (leading font line).map font.charIndex ++ backward font (runs font line) ++
    List.replicate (savedAll font (runs font line)) (font.charIndex 0x20)
  elsewhere : ∀ p, line.length ≤ p → gidx' p = gidx p

/-! ## Runs -/

/-- All characters are Arabic, or none is. -/
def OfScript (font : Font) (arab : Bool) (run : List Code) : Prop := ∀ c ∈ run, font.isArab c = arab

theorem glyphsOf_arab (h : OfScript font true run) (hne : run ≠ []) :
    glyphsOf font run = (font.shape (run.map (BitVec.setWidth 16))).reverse := by
  obtain ⟨c, hc⟩ := List.exists_mem_of_ne_nil run hne
  exact if_pos (List.any_eq_true.mpr ⟨c, hc, h c hc⟩)

theorem glyphsOf_notArab (h : OfScript font false run) : glyphsOf font run = run.map font.charIndex := by
  refine if_neg (fun hany => ?_)
  obtain ⟨c, hc, harab⟩ := List.any_eq_true.mp hany
  rw [h c hc] at harab
  cases harab

theorem length_glyphsOf (hshape : Shapes font) (h : OfScript font arab run) (hne : run ≠ []) :
    (glyphsOf font run).length ≤ run.length := by
  cases arab with
  | true =>
    have hle := (hshape (run.map (BitVec.setWidth 16)) (by simpa using hne)).2
    rw [glyphsOf_arab h hne, List.length_reverse]
    rwa [List.length_map] at hle
  | false => rw [glyphsOf_notArab h, List.length_map]

theorem savedAll_concat (D : List (List Code)) (r : List Code) :
    savedAll font (D ++ [r]) = savedAll font D + saved font r := by
  simp [savedAll]

theorem backward_concat (D : List (List Code)) (r : List Code) :
    backward font (D ++ [r]) = glyphsOf font r ++ backward font D := by
  simp [backward]

/-! ## The loop -/

namespace State

theorem loop_append (i : Nat) (cs ds : List Code) (s : State) :
    s.loop font line i (cs ++ ds) = (s.loop font line i cs).loop font line (i + cs.length) ds := by
  induction cs generalizing i s with
  | nil => rfl
  | cons c cs ih =>
    rw [List.cons_append, loop, ih, loop, List.length_cons]
    congr 1
    omega

/-- The leading characters. -/
theorem loop_leading (h : OfScript font false cs) (i : Nat) {s : State} (hL : s.isL2R = true)
    (hu : s.u16Srtcode = []) :
    s.loop font line i cs = { s with nPunc := s.nPunc + cs.length, nNotArab := s.nNotArab + cs.length } := by
  induction cs generalizing i s with
  | nil => rfl
  | cons c cs ih =>
    have hc : font.isArab c = false := h c List.mem_cons_self
    have hnext : s.next font line i c = { s with nPunc := s.nPunc + 1, nNotArab := s.nNotArab + 1 } := by
      simp [next, hc, hu, hL]
    rw [loop, hnext, ih (fun d hd => h d (List.mem_cons_of_mem _ hd)) (i + 1) (by exact hL) (by exact hu),
      List.length_cons]
    simp only [State.mk.injEq, and_true, true_and]
    omega

/-- More of an Arabic run. -/
theorem loop_arab (h : OfScript font true cs) (i : Nat) {s : State} (hL : s.isL2R = false)
    (hn : s.nNotArab = 0) :
    s.loop font line i cs = { s with u16Srtcode := s.u16Srtcode ++ cs.map (BitVec.setWidth 16) } := by
  induction cs generalizing i s with
  | nil => simp [loop]
  | cons c cs ih =>
    have hc : font.isArab c = true := h c List.mem_cons_self
    have hnext : s.next font line i c = { s with u16Srtcode := s.u16Srtcode ++ [c.setWidth 16] } := by
      simp [next, hc, hn, hL]
    rw [loop, hnext, ih (fun d hd => h d (List.mem_cons_of_mem _ hd)) (i + 1) (by exact hL) (by exact hn)]
    simp

/-- More of a run that is not Arabic. -/
theorem loop_notArab (h : OfScript font false cs) (i : Nat) {s : State} (hL : s.isL2R = false)
    (hu : s.u16Srtcode = []) : s.loop font line i cs = { s with nNotArab := s.nNotArab + cs.length } := by
  induction cs generalizing i s with
  | nil => rfl
  | cons c cs ih =>
    have hc : font.isArab c = false := h c List.mem_cons_self
    have hnext : s.next font line i c = { s with nNotArab := s.nNotArab + 1 } := by
      simp [next, hc, hu, hL]
    rw [loop, hnext, ih (fun d hd => h d (List.mem_cons_of_mem _ hd)) (i + 1) (by exact hL) (by exact hu),
      List.length_cons]
    simp only [State.mk.injEq, and_true, true_and]
    omega

end State

/-! ## What the loop keeps -/

/-- The leading characters and the runs `D` are drawn: these are the end of the line, so the last one is in front. -/
def drawn (font : Font) (line : List Code) (gidx : Nat → Int) (D : List (List Code)) : Nat → Int :=
  writeAt (writeAt gidx 0 ((leading font line).map font.charIndex)) (line.length - (backward font D).length)
    (backward font D)

/-- The runs `D` are drawn, and `r` was read. -/
structure Pending (font : Font) (line : List Code) (gidx : Nat → Int) (D : List (List Code))
    (arab : Bool) (r : List Code)
    (s : State) : Prop where
  isL2R : s.isL2R = false
  nPunc : s.nPunc = (leading font line).length
  nReduce : s.nReduce = savedAll font D
  gidx : s.gidx = drawn font line gidx D
  u16Srtcode : s.u16Srtcode = if arab then r.map (BitVec.setWidth 16) else []
  nNotArab : s.nNotArab = if arab then 0 else r.length

/-- Each has characters, of one script. -/
def Fits (font : Font) (rs : List (List Code)) : Prop := ∀ r ∈ rs, r ≠ [] ∧ ∃ arab, OfScript font arab r

theorem length_backward (hshape : Shapes font) (h : Fits font rs) :
    (backward font rs).length + savedAll font rs = rs.flatten.length := by
  induction rs with
  | nil => rfl
  | cons r rs ih =>
    obtain ⟨hne, arab, hr⟩ := h r List.mem_cons_self
    have hle := length_glyphsOf hshape hr hne
    have hrest := ih (fun x hx => h x (List.mem_cons_of_mem _ hx))
    simp only [backward, savedAll, saved, List.reverse_cons, List.flatMap_append, List.length_append, List.map_cons,
      List.sum_cons, List.flatten_cons, List.flatMap_singleton] at hrest ⊢
    omega

/-- One more run is drawn. -/
theorem drawn_concat {gidx : Nat → Int} {D : List (List Code)} {r : List Code} {pos : Nat}
    (hpos : pos + (backward font (D ++ [r])).length = line.length) :
    writeAt (drawn font line gidx D) pos (glyphsOf font r) = drawn font line gidx (D ++ [r]) := by
  rw [backward_concat, List.length_append] at hpos
  have hold : line.length - (backward font D).length = pos + (glyphsOf font r).length := by omega
  have hnew : line.length - (backward font (D ++ [r])).length = pos := by
    rw [backward_concat, List.length_append]
    omega
  rw [drawn, drawn, hnew, hold, writeAt_prepend, backward_concat]

theorem take_drop_run {xs front r rest : List Code} (h : xs = front ++ (r ++ rest)) :
    (xs.drop front.length).take r.length = r := by
  subst h
  simp

section Draw

variable {gidx : Nat → Int} {D : List (List Code)} {r rest : List Code} {s : State} {i : Nat}

/-- Where the run goes that ends in front of `i`. -/
theorem pos_run (hshape : Shapes font) (hfits : Fits font (D ++ [r]))
    (hline : line = leading font line ++ (D ++ [r]).flatten ++ rest) (hi : i = line.length - rest.length) :
    line.length - i + (leading font line).length + savedAll font (D ++ [r]) + (backward font (D ++ [r])).length =
      line.length := by
  have hlen := congrArg List.length hline
  have hback := length_backward hshape hfits
  simp only [List.length_append] at hlen hback
  omega

/-- An Arabic run is drawn. -/
theorem Pending.drawArab (hshape : Shapes font) (h : Pending font line gidx D true r s) (hr : OfScript font true r)
    (hfits : Fits font (D ++ [r])) (hline : line = leading font line ++ (D ++ [r]).flatten ++ rest)
    (hi : i = line.length - rest.length) :
    s.drawArab font line i =
      { s with nReduce := savedAll font (D ++ [r]), gidx := drawn font line gidx (D ++ [r]) } := by
  have hne := (hfits r (List.mem_append_right _ List.mem_cons_self)).1
  have hpos := pos_run hshape hfits hline hi
  have hglyphs := glyphsOf_arab hr hne
  have hle := (hshape (r.map (BitVec.setWidth 16)) (by simpa using hne)).2
  have hsaved : saved font r = r.length - (font.shape (r.map (BitVec.setWidth 16))).length := by
    rw [saved, hglyphs, List.length_reverse]
  rw [List.length_map] at hle
  have hu := h.u16Srtcode
  simp only [if_true] at hu
  -- the branch that counts the saved characters
  have hreduce : (if s.u16Srtcode.length > (font.shape s.u16Srtcode).length then
      s.nReduce + (s.u16Srtcode.length - (font.shape s.u16Srtcode).length) else s.nReduce) =
        savedAll font (D ++ [r]) := by
    rw [savedAll_concat, h.nReduce, hu, List.length_map, hsaved]
    split <;> omega
  have htake : (font.shape s.u16Srtcode).take (if s.u16Srtcode.length > (font.shape s.u16Srtcode).length then
      (font.shape s.u16Srtcode).length else s.u16Srtcode.length) = font.shape s.u16Srtcode := by
    apply List.take_of_length_le
    rw [hu, List.length_map]
    split <;> omega
  unfold State.drawArab
  simp only [hreduce, htake]
  rw [h.nPunc, h.gidx, hu, ← hglyphs, drawn_concat hpos]

/-- Another run is drawn. -/
theorem Pending.drawNotArab (hshape : Shapes font) (h : Pending font line gidx D false r s) (hr : OfScript font false r)
    (hfits : Fits font (D ++ [r])) (hline : line = leading font line ++ (D ++ [r]).flatten ++ rest)
    (hi : i = line.length - rest.length) :
    s.drawNotArab font line i =
      { s with nReduce := savedAll font (D ++ [r]), gidx := drawn font line gidx (D ++ [r]) } := by
  have hpos := pos_run hshape hfits hline hi
  have hsaved : savedAll font (D ++ [r]) = s.nReduce := by
    rw [savedAll_concat, saved, glyphsOf_notArab hr, List.length_map, Nat.sub_self, h.nReduce, Nat.add_zero]
  have hn := h.nNotArab
  simp only [Bool.false_eq_true, if_false] at hn
  -- the run is what the line has in front of `i`
  have hrun : (line.drop (i - s.nNotArab)).take s.nNotArab = r := by
    have hsplit : line = (leading font line ++ D.flatten) ++ (r ++ rest) := hline.trans (by simp)
    have hlen := congrArg List.length hsplit
    simp only [List.length_append] at hlen
    have hfront : i - s.nNotArab = (leading font line ++ D.flatten).length := by
      rw [List.length_append]
      omega
    rw [hfront, hn]
    exact take_drop_run hsplit
  unfold State.drawNotArab
  rw [hrun, h.nPunc, h.gidx, ← hsaved, ← glyphsOf_notArab hr, drawn_concat hpos]

/-- The first character of the next run. -/
theorem Pending.next (hshape : Shapes font) (h : Pending font line gidx D arab r s)
    (hr : OfScript font arab r) (hc : font.isArab c = !arab) (hfits : Fits font (D ++ [r]))
    (hline : line = leading font line ++ (D ++ [r]).flatten ++ rest) (hi : i = line.length - rest.length) :
    Pending font line gidx (D ++ [r]) (!arab) [c] (s.next font line i c) := by
  have hpos := List.length_pos_of_ne_nil (hfits r (List.mem_append_right _ List.mem_cons_self)).1
  have hu := h.u16Srtcode
  have hn := h.nNotArab
  cases arab with
  | true =>
    simp only [if_true] at hu hn
    have hlen : s.u16Srtcode.length ≠ 0 := by
      rw [hu, List.length_map]
      omega
    unfold State.next
    rw [if_neg (by simp [hc]), if_pos hlen, h.drawArab hshape hr hfits hline hi]
    exact ⟨h.isL2R, by simp [h.isL2R, h.nPunc], rfl, rfl, rfl, by simp [hn]⟩
  | false =>
    simp only [Bool.false_eq_true, if_false] at hu hn
    unfold State.next
    rw [if_pos (by simp [hc]), if_pos (by omega), if_neg (by simp [h.isL2R]), h.drawNotArab hshape hr hfits hline hi]
    exact ⟨rfl, h.nPunc, rfl, rfl, by simp [hu], rfl⟩

/-- The rest of a run. -/
theorem Pending.loop (h : Pending font line gidx D arab r s) (hcs : OfScript font arab cs) :
    Pending font line gidx D arab (r ++ cs) (s.loop font line i cs) := by
  have hu := h.u16Srtcode
  have hn := h.nNotArab
  cases arab with
  | true =>
    rw [State.loop_arab hcs i h.isL2R hn]
    exact ⟨h.isL2R, h.nPunc, h.nReduce, h.gidx, by simp [hu], hn⟩
  | false =>
    rw [State.loop_notArab hcs i h.isL2R hu]
    exact ⟨h.isL2R, h.nPunc, h.nReduce, h.gidx, hu, by simp [hn]⟩

/-- The end of the line. -/
theorem Pending.last (hshape : Shapes font) (h : Pending font line gidx D arab r s) (hr : OfScript font arab r)
    (hfits : Fits font (D ++ [r])) (hline : line = leading font line ++ (D ++ [r]).flatten) :
    (s.last font line).nReduce = savedAll font (D ++ [r]) ∧
      (s.last font line).gidx = drawn font line gidx (D ++ [r]) := by
  have hpos := List.length_pos_of_ne_nil (hfits r (List.mem_append_right _ List.mem_cons_self)).1
  have hu := h.u16Srtcode
  have hn := h.nNotArab
  have hline' : line = leading font line ++ (D ++ [r]).flatten ++ [] := by rwa [List.append_nil]
  cases arab with
  | true =>
    simp only [if_true] at hu hn
    have hlen : s.u16Srtcode.length ≠ 0 := by
      rw [hu, List.length_map]
      omega
    have hlast : s.last font line = s.drawArab font line line.length := by
      unfold State.last
      simp only [hn, hlen, ne_eq, not_true_eq_false, not_false_eq_true, if_true, if_false]
    rw [hlast, h.drawArab hshape hr hfits hline' (show line.length = line.length - 0 from rfl)]
    exact ⟨rfl, rfl⟩
  | false =>
    simp only [Bool.false_eq_true, if_false] at hu hn
    have hlen : s.nNotArab ≠ 0 := by omega
    have hlast : s.last font line = s.drawNotArab font line line.length := by
      unfold State.last
      simp only [hlen, h.isL2R, ne_eq, not_false_eq_true, if_true, Bool.false_eq_true, if_false]
      exact if_neg (by simp [State.drawNotArab, hu])
    rw [hlast, h.drawNotArab hshape hr hfits hline' (show line.length = line.length - 0 from rfl)]
    exact ⟨rfl, rfl⟩

end Draw

/-- Neighbours are of different scripts. -/
def Alternating (font : Font) (rs : List (List Code)) : Prop :=
  rs.IsChain (fun a b => ∃ arab, OfScript font arab a ∧ OfScript font (!arab) b)

/-- **All runs** are drawn. -/
theorem Pending.runs (hshape : Shapes font) {gidx : Nat → Int} (rs : List (List Code)) {D : List (List Code)}
    {r : List Code} {s : State} {i : Nat} (h : Pending font line gidx D arab r s) (hr : OfScript font arab r)
    (halt : Alternating font (r :: rs)) (hfits : Fits font (D ++ r :: rs))
    (hline : line = leading font line ++ (D ++ r :: rs).flatten) (hi : i = line.length - rs.flatten.length) :
    ((s.loop font line i rs.flatten).last font line).nReduce = savedAll font (D ++ r :: rs) ∧
      ((s.loop font line i rs.flatten).last font line).gidx = drawn font line gidx (D ++ r :: rs) := by
  induction rs generalizing D arab r s i with
  | nil => exact h.last hshape hr hfits hline
  | cons run rs ih =>
    have hsplit : D ++ r :: run :: rs = (D ++ [r]) ++ run :: rs := by simp
    obtain ⟨⟨arab', har, hrun⟩, halt⟩ := List.isChain_cons_cons.mp halt
    have hfirst : Fits font (D ++ [r]) := fun x hx => hfits x (by simp at hx ⊢; tauto)
    have hne := (hfits run (by simp)).1
    have hrne := (hfits r (by simp)).1
    have harab : arab' = arab := by
      obtain ⟨c, hc⟩ := List.exists_mem_of_ne_nil r hrne
      exact (har c hc).symm.trans (hr c hc)
    subst harab
    cases run with
    | nil => exact absurd rfl hne
    | cons c cs =>
      have hall : line = leading font line ++ (D ++ [r]).flatten ++ ((c :: cs) :: rs).flatten :=
        hline.trans (by simp)
      have hnext := h.next hshape hr (hrun c List.mem_cons_self) hfirst hall hi
      have hcs : OfScript font (!arab') cs := fun d hd => hrun d (List.mem_cons_of_mem _ hd)
      have hrest : Pending font line gidx (D ++ [r]) (!arab') (c :: cs) _ := hnext.loop (i := i + 1) hcs
      have hlen : i + 1 + cs.length = line.length - rs.flatten.length := by
        have := congrArg List.length hall
        simp only [List.flatten_cons, List.length_append, List.length_cons] at this hi
        omega
      have hdone := ih hrest hrun halt (by rwa [← hsplit]) (by rwa [← hsplit]) hlen
      rw [← State.loop_append, ← hsplit] at hdone
      exact hdone

/-! ## The line -/

theorem leading_append_runs (font : Font) (line : List Code) :
    leading font line ++ (runs font line).flatten = line := by
  rw [leading, runs, List.flatten_splitBy, List.takeWhile_append_dropWhile]

/-- A run has one script. -/
theorem ofScript_of_isChain (h : (c :: run).IsChain (fun a b => font.isArab a == font.isArab b)) :
    OfScript font (font.isArab c) (c :: run) := by
  induction run generalizing c with
  | nil =>
    intro d hd
    rw [List.mem_singleton.mp hd]
  | cons b run ih =>
    obtain ⟨hcb, htail⟩ := List.isChain_cons_cons.mp h
    have hall := ih htail
    rw [← beq_iff_eq.mp hcb] at hall
    intro d hd
    rcases List.mem_cons.mp hd with rfl | hd
    · rfl
    · exact hall d hd

theorem fits_runs (font : Font) (line : List Code) : Fits font (runs font line) := by
  intro run hrun
  have hchain := List.isChain_of_mem_splitBy hrun
  refine ⟨List.ne_nil_of_mem_splitBy hrun, ?_⟩
  cases run with
  | nil => exact ⟨true, fun c hc => absurd hc List.not_mem_nil⟩
  | cons c cs => exact ⟨font.isArab c, ofScript_of_isChain hchain⟩

theorem alternating_runs (font : Font) (line : List Code) : Alternating font (runs font line) := by
  refine (List.isChain_getLast_head_splitBy _ _).imp_of_mem_imp (fun a b ha hb hab => ?_)
  obtain ⟨hane, hbne, hdiff⟩ := hab
  obtain ⟨-, arab, hascript⟩ := fits_runs font line a ha
  obtain ⟨-, arab', hbscript⟩ := fits_runs font line b hb
  rw [hascript _ (List.getLast_mem hane), hbscript _ (List.head_mem hbne)] at hdiff
  refine ⟨arab, hascript, ?_⟩
  cases arab <;> cases arab' <;> simp_all

/-- The first run behind the leading characters is Arabic. -/
theorem ofScript_first {r : List Code} (h : runs font line = r :: rs) : OfScript font true r := by
  obtain ⟨hne, arab, hr⟩ := fits_runs font line r (by rw [h]; exact List.mem_cons_self)
  cases r with
  | nil => exact absurd rfl hne
  | cons c cs =>
    have hflat : line.dropWhile (fun d => !font.isArab d) = c :: (cs ++ rs.flatten) := by
      rw [← List.flatten_splitBy (fun a b => font.isArab a == font.isArab b) (line.dropWhile _)]
      exact congrArg List.flatten h
    have hhead := List.head?_dropWhile_not (fun d => !font.isArab d) line
    rw [hflat] at hhead
    have hc : font.isArab c = true := by simpa using hhead
    rwa [← hr c List.mem_cons_self, hc] at hr

theorem ofScript_leading (font : Font) (line : List Code) : OfScript font false (leading font line) := by
  intro c hc
  have hall : (leading font line).all (fun d => !font.isArab d) = true := List.all_takeWhile
  simpa using List.all_eq_true.mp hall c hc

theorem take_leading (font : Font) (line : List Code) : line.take (leading font line).length = leading font line := by
  have hline := leading_append_runs font line
  exact (congrArg (List.take _) hline.symm).trans (List.take_left' rfl)

theorem drawn_nil {gidx : Nat → Int} :
    drawn font line gidx [] = writeAt gidx 0 ((line.take (leading font line).length).map font.charIndex) := by
  rw [take_leading]
  exact writeAt_nil

/-- The variables behind the leading characters. -/
def ofLeading (font : Font) (line : List Code) (gidx : Nat → Int) : State where
  isL2R := true
  u16Srtcode := []
  nNotArab := (leading font line).length
  nPunc := (leading font line).length
  nReduce := 0
  gidx := gidx

theorem gidx_ofLeading {gidx : Nat → Int} (h : (leading font line).length = 0) : gidx = drawn font line gidx [] := by
  rw [drawn_nil, h]
  exact writeAt_nil.symm

/-- The first Arabic character. -/
theorem pending_first {gidx : Nat → Int} {i : Nat} (hc : font.isArab c = true) :
    Pending font line gidx [] true [c] ((ofLeading font line gidx).next font line i c) := by
  unfold State.next
  rw [if_pos hc]
  by_cases hnone : (leading font line).length = 0
  · rw [if_neg (show ¬(ofLeading font line gidx).nNotArab ≠ 0 from not_not_intro hnone)]
    exact ⟨rfl, rfl, rfl, gidx_ofLeading hnone, rfl, hnone⟩
  · rw [if_pos (show (ofLeading font line gidx).nNotArab ≠ 0 from hnone),
      if_pos (show (ofLeading font line gidx).isL2R = true from rfl)]
    exact ⟨rfl, rfl, rfl, drawn_nil.symm, rfl, rfl⟩

/-- A line without Arabic. -/
theorem last_ofLeading (gidx : Nat → Int) :
    ((ofLeading font line gidx).last font line).nReduce = 0 ∧
      ((ofLeading font line gidx).last font line).gidx = drawn font line gidx [] := by
  by_cases hnone : (leading font line).length = 0
  · have hlast : (ofLeading font line gidx).last font line = ofLeading font line gidx := by
      simp [State.last, ofLeading, hnone]
    rw [hlast]
    exact ⟨rfl, gidx_ofLeading hnone⟩
  · have hlast : (ofLeading font line gidx).last font line = (ofLeading font line gidx).drawPunc font line 0 := by
      simp [State.last, State.drawPunc, ofLeading, hnone]
    rw [hlast]
    exact ⟨rfl, drawn_nil.symm⟩

/-- **What is drawn** before the glyphs move. -/
theorem drawn_line (hshape : Shapes font) (line : List Code) (gidx : Nat → Int) :
    (((State.mk true [] 0 0 0 gidx).loop font line 0 line).last font line).nReduce = savedAll font (runs font line) ∧
      (((State.mk true [] 0 0 0 gidx).loop font line 0 line).last font line).gidx =
        drawn font line gidx (runs font line) := by
  have hline := leading_append_runs font line
  have hlead : (State.mk true [] 0 0 0 gidx).loop font line 0 (leading font line) = ofLeading font line gidx := by
    rw [State.loop_leading (ofScript_leading font line) 0 rfl rfl]
    simp [ofLeading]
  have hloop : (State.mk true [] 0 0 0 gidx).loop font line 0 line =
      (ofLeading font line gidx).loop font line (leading font line).length (runs font line).flatten := by
    have happ : (State.mk true [] 0 0 0 gidx).loop font line 0 (leading font line ++ (runs font line).flatten) = _ :=
      State.loop_append ..
    rwa [hline, hlead, Nat.zero_add] at happ
  rw [hloop]
  cases hruns : runs font line with
  | nil => exact last_ofLeading gidx
  | cons r rs =>
    have hr := ofScript_first hruns
    have hfits := fits_runs font line
    have halt := alternating_runs font line
    rw [hruns] at hfits halt hline
    cases r with
    | nil => exact absurd rfl (hfits [] List.mem_cons_self).1
    | cons c cs =>
      have hcs : OfScript font true cs := fun d hd => hr d (List.mem_cons_of_mem _ hd)
      have hfirst : Pending font line gidx [] true [c] ((ofLeading font line gidx).next font line _ c) :=
        pending_first (i := (leading font line).length) (hr c List.mem_cons_self)
      have hrest : Pending font line gidx [] true (c :: cs) _ := hfirst.loop (i := (leading font line).length + 1) hcs
      have hlen : (leading font line).length + 1 + cs.length = line.length - rs.flatten.length := by
        have := congrArg List.length hline
        simp only [List.flatten_cons, List.length_append, List.length_cons] at this
        omega
      have hall := hrest.runs hshape rs hr halt hfits hline.symm hlen
      rw [← State.loop_append] at hall
      exact hall

/-! ## The glyphs of the line -/

/-- What `gidx` held behind the leading characters, as many cells as were saved. -/
def gap (font : Font) (line : List Code) (gidx : Nat → Int) : List Int :=
  readAt gidx (leading font line).length (savedAll font (runs font line))

theorem length_line (hshape : Shapes font) (line : List Code) :
    line.length = (leading font line).length + savedAll font (runs font line) +
      (backward font (runs font line)).length := by
  have hback := length_backward hshape (fits_runs font line)
  have hlen := congrArg List.length (leading_append_runs font line)
  rw [List.length_append] at hlen
  omega

/-- Two pieces with a gap. -/
theorem readAt_pieces (m : Nat → Int) (A B : List Int) (R : Nat) :
    readAt (writeAt (writeAt m 0 A) (A.length + R) B) 0 (A.length + R + B.length) = A ++ readAt m A.length R ++ B := by
  have hA : readAt (writeAt (writeAt m 0 A) (A.length + R) B) 0 A.length = A := by
    rw [readAt_writeAt_apart (Or.inl (by omega)), readAt_writeAt]
  have hgap : readAt (writeAt (writeAt m 0 A) (A.length + R) B) A.length R = readAt m A.length R := by
    rw [readAt_writeAt_apart (Or.inl le_rfl), readAt_writeAt_apart (Or.inr (by omega))]
  rw [readAt_add, readAt_add, Nat.zero_add, Nat.zero_add, hA, hgap, readAt_writeAt]

/-- The line before the glyphs move. -/
theorem readAt_drawn (hshape : Shapes font) (line : List Code) (gidx : Nat → Int) :
    readAt (drawn font line gidx (runs font line)) 0 line.length =
      (leading font line).map font.charIndex ++ gap font line gidx ++ backward font (runs font line) := by
  have hlen := length_line hshape line
  have hstart : line.length - (backward font (runs font line)).length =
      (leading font line).length + savedAll font (runs font line) := by omega
  have hpieces := readAt_pieces gidx ((leading font line).map font.charIndex) (backward font (runs font line))
    (savedAll font (runs font line))
  rw [List.length_map, ← hlen] at hpieces
  rw [drawn, hstart]
  exact hpieces

/-- The glyphs in front of the runs, after the move. -/
def front (font : Font) (line : List Code) (gidx : Nat → Int) : List Int :=
  ((leading font line).map font.charIndex ++ gap font line gidx).drop (savedAll font (runs font line))

/-- **The move to the front**, also when there is nothing to close. -/
theorem moveToFront_eq (s : State) (h : s.nReduce ≤ line.length) :
    s.moveToFront font line = writeAt s.gidx 0
      ((readAt s.gidx 0 line.length).drop s.nReduce ++ List.replicate s.nReduce (font.charIndex 0x20)) := by
  have hsplit : line.length = s.nReduce + (line.length - s.nReduce) := by omega
  have hdrop : (readAt s.gidx 0 line.length).drop s.nReduce = readAt s.gidx s.nReduce (line.length - s.nReduce) := by
    conv_lhs => rw [hsplit]
    rw [readAt_add, Nat.zero_add]
    exact List.drop_left' (length_readAt _ _ _)
  rw [hdrop, State.moveToFront]
  split
  next hpos =>
    rw [← writeAt_append, length_readAt, Nat.zero_add]
  next hzero =>
    have hR : s.nReduce = 0 := by omega
    rw [hR, List.replicate_zero, List.append_nil, Nat.sub_zero]
    -- what is written is what was there
    funext p
    rw [writeAt_readAt]
    split
    · rw [Nat.zero_add, Nat.sub_zero]
    · rfl

/-- What the line becomes. -/
def made (font : Font) (line : List Code) (gidx : Nat → Int) : List Int :=
  front font line gidx ++ backward font (runs font line) ++
    List.replicate (savedAll font (runs font line)) (font.charIndex 0x20)

theorem length_made (hshape : Shapes font) (line : List Code) (gidx : Nat → Int) :
    (made font line gidx).length = line.length := by
  have hlen := length_line hshape line
  simp only [made, front, gap, List.length_append, List.length_drop, List.length_map, length_readAt,
    List.length_replicate]
  omega

/-- **The function**: the line is written, and nothing else. -/
theorem hbShaping_eq (hshape : Shapes font) (line : List Code) (gidx : Nat → Int) :
    hbShaping font line gidx = writeAt (drawn font line gidx (runs font line)) 0 (made font line gidx) := by
  have hlen := length_line hshape line
  obtain ⟨hreduce, hgidx⟩ := drawn_line hshape line gidx
  have hgap : savedAll font (runs font line) ≤
      ((leading font line).map font.charIndex ++ gap font line gidx).length := by
    rw [List.length_append, gap, length_readAt]
    omega
  rw [hbShaping, moveToFront_eq _ (by omega), hreduce, hgidx, readAt_drawn hshape, List.drop_append_of_le_length hgap]
  rfl

theorem readAt_hbShaping (hshape : Shapes font) (line : List Code) (gidx : Nat → Int) :
    readAt (hbShaping font line gidx) 0 line.length = made font line gidx := by
  rw [hbShaping_eq hshape, ← length_made hshape line gidx]
  exact readAt_writeAt ..

theorem hbShaping_elsewhere (hshape : Shapes font) (line : List Code) (gidx : Nat → Int) {p : Nat}
    (hp : line.length ≤ p) :
    hbShaping font line gidx p = gidx p := by
  have hlen := length_line hshape line
  have hmade := length_made hshape line gidx
  rw [hbShaping_eq hshape, writeAt_of_ge (by omega), drawn, writeAt_of_ge (by omega), writeAt_of_ge]
  rw [List.length_map]
  omega

/-! ## The claim -/

/-- What comes in front of the runs is right without leading characters, without shortening, or by luck. -/
theorem front_eq (hnone : leading font line = [] ∨ savedAll font (runs font line) = 0) (gidx : Nat → Int) :
    front font line gidx = (leading font line).map font.charIndex := by
  rcases hnone with h | h
  · rw [front, h, List.map_nil, List.nil_append, List.drop_eq_nil_of_le (by rw [gap, length_readAt])]
  · rw [front, gap, h, List.drop_zero]
    exact List.append_nil _

theorem right_iff_front (hshape : Shapes font) (line : List Code) (gidx : Nat → Int) :
    Right font line gidx (hbShaping font line gidx) ↔
      front font line gidx = (leading font line).map font.charIndex := by
  constructor
  · intro h
    have hglyphs := (readAt_hbShaping hshape line gidx).symm.trans h.glyphs
    rw [made] at hglyphs
    exact List.append_cancel_right (List.append_cancel_right hglyphs)
  · intro h
    refine ⟨?_, fun p hp => hbShaping_elsewhere hshape line gidx hp⟩
    rw [readAt_hbShaping hshape, made, h]

/-- **When the line is right**: it has no leading characters, or nothing is saved, or `gidx` held the glyphs by luck:
the leading glyphs and what was behind them repeat after as many cells as were saved. -/
theorem glyphs_right_iff (hshape : Shapes font) (line : List Code) (gidx : Nat → Int) :
    Right font line gidx (hbShaping font line gidx) ↔
      leading font line = [] ∨ savedAll font (runs font line) = 0 ∨
        ((leading font line).map font.charIndex ++
          readAt gidx (leading font line).length (savedAll font (runs font line))).drop
            (savedAll font (runs font line)) =
          (leading font line).map font.charIndex := by
  rw [right_iff_front hshape]
  constructor
  · intro h
    exact Or.inr (Or.inr h)
  · intro h
    rcases h with h | h | h
    · exact front_eq (Or.inl h) gidx
    · exact front_eq (Or.inr h) gidx
    · exact h

/-- A font with the ligature of lam and alef. -/
def ligatures : Font where
  charIndex c := c.toNat
  isArab c := 0x600 ≤ c.toNat && c.toNat < 0x700
  shape u := if u = [0x644, 0x627] then [0xFEFB] else u.map (fun c => (c.toNat : Int))

theorem shapes_ligatures : Shapes ligatures := by
  intro u hu
  have hpos := List.length_pos_of_ne_nil hu
  simp only [ligatures]
  split
  next h =>
    subst h
    exact ⟨Nat.le_refl _, by decide⟩
  next h =>
    rw [List.length_map]
    exact ⟨hpos, Nat.le_refl _⟩

/-- A ligature in the first of two words; and a full stop in front of two words without one. -/
theorem glyphs_right_words :
    Right ligatures [0x644, 0x627, 0x20, 0x628] (fun _ => 0)
      (hbShaping ligatures [0x644, 0x627, 0x20, 0x628] (fun _ => 0)) ∧
    Right ligatures [0x2E, 0x628, 0x20, 0x62A] (fun _ => 0)
      (hbShaping ligatures [0x2E, 0x628, 0x20, 0x62A] (fun _ => 0)) :=
  ⟨(glyphs_right_iff shapes_ligatures _ _).mpr (Or.inl (by decide)),
    (glyphs_right_iff shapes_ligatures _ _).mpr (Or.inr (Or.inl (by decide)))⟩

/-- A full stop in front of a ligature: its glyph is lost. -/
theorem full_stop_lost :
    ¬ Right ligatures [0x2E, 0x644, 0x627] (fun _ => 0) (hbShaping ligatures [0x2E, 0x644, 0x627] (fun _ => 0)) := by
  intro h
  have hglyphs := h.glyphs
  revert hglyphs
  decide

end HiSTB.Subtitle
