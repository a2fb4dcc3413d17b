import HiSTB.Lib.Ring

/-!
# `Subtitle.Shaping` — the glyphs of a line with Arabic text (`Subtitle.cpp`)

Arabic is written from right to left, so the runs of a line are put one in front of the other, from the end of `gidx`
on. A shaper makes glyphs of an Arabic run, which may be fewer than its characters; the glyphs of the line then move to
the front.

* `State` — the variables of the loop; `drawPunc`, `drawNotArab`, `drawArab` — what is written for a run;
* `hbShaping` — the function.

`gidx` is a memory of cells, numbered from the start of the line. The map from characters to glyphs, the script of a
character and `HB_ShapeItem` are parameters; the shaper gives the glyphs of the 16-bit characters of a run, and
`num_glyphs` is their number.
-/

namespace HiSTB.Subtitle

open Lib

/-- A code point. -/
abbrev Code := BitVec 32

/-- What `hb_shaping` uses of the font. -/
structure Font where
  /-- `FT_Get_Char_Index`. -/
  charIndex : Code → Int
  /-- `code_point_to_script` is `HB_Script_Arabic`. -/
  isArab : Code → Bool
  /-- `HB_ShapeItem`. -/
  shape : List (BitVec 16) → List Int

/-- The variables of the loop; `u16Srtcode` has `nArab` characters. -/
structure State where
  isL2R : Bool
  u16Srtcode : List (BitVec 16)
  nNotArab : Nat
  nPunc : Nat
  nReduce : Nat
  gidx : Nat → Int

namespace State

/-- The leading characters are drawn, from `gidx[k]` on. -/
def drawPunc (font : Font) (srtcode : List Code) (k : Nat) (s : State) : State :=
  { s with gidx := writeAt s.gidx k ((srtcode.take s.nPunc).map font.charIndex) }

/-- The run that ends in front of `i` is drawn. -/
def drawNotArab (font : Font) (srtcode : List Code) (i : Nat) (s : State) : State :=
  { s with
    gidx := writeAt s.gidx (srtcode.length - i + s.nPunc + s.nReduce)
      (((srtcode.drop (i - s.nNotArab)).take s.nNotArab).map font.charIndex) }

/-- The Arabic run that ends in front of `i` is shaped and drawn. -/
def drawArab (font : Font) (srtcode : List Code) (i : Nat) (s : State) : State :=
  let glyphs := font.shape s.u16Srtcode
  let nArab := s.u16Srtcode.length
  let nReduce := if nArab > glyphs.length then s.nReduce + (nArab - glyphs.length) else s.nReduce
  let nArab := if nArab > glyphs.length then glyphs.length else nArab
  { s with
    nReduce := nReduce
    gidx := writeAt s.gidx (srtcode.length - i + s.nPunc + nReduce) (glyphs.take nArab).reverse }

/-- One character. -/
def next (font : Font) (srtcode : List Code) (s : State) (i : Nat) (c : Code) : State :=
  if font.isArab c then
    let s :=
      if s.nNotArab ≠ 0 then
        { (if s.isL2R then s.drawPunc font srtcode 0 else s.drawNotArab font srtcode i) with nNotArab := 0 }
      else s
    { s with isL2R := false, u16Srtcode := s.u16Srtcode ++ [c.setWidth 16] }
  else
    let s := if s.u16Srtcode.length ≠ 0 then { s.drawArab font srtcode i with u16Srtcode := [] } else s
    { s with nPunc := if s.isL2R then s.nPunc + 1 else s.nPunc, nNotArab := s.nNotArab + 1 }

/-- The characters from the `i`-th on. -/
def loop (font : Font) (srtcode : List Code) : Nat → List Code → State → State
  | _, [], s => s
  | i, c :: cs, s => loop font srtcode (i + 1) cs (s.next font srtcode i c)

/-- The run at the end of the line. -/
def last (font : Font) (srtcode : List Code) (s : State) : State :=
  let s :=
    if s.nNotArab ≠ 0 then
      if s.isL2R then s.drawPunc font srtcode s.nReduce else s.drawNotArab font srtcode srtcode.length
    else s
  if s.u16Srtcode.length ≠ 0 then s.drawArab font srtcode srtcode.length else s

/-- The glyphs move to the front, and spaces fill up the line. -/
def moveToFront (font : Font) (srtcode : List Code) (s : State) : Nat → Int :=
  if s.nReduce > 0 then
    writeAt (writeAt s.gidx 0 (readAt s.gidx s.nReduce (srtcode.length - s.nReduce))) (srtcode.length - s.nReduce)
      (List.replicate s.nReduce (font.charIndex 0x20))
  else s.gidx

end State

/-- `hb_shaping`; what is in `gidx` behind it. -/
def hbShaping (font : Font) (srtcode : List Code) (gidx : Nat → Int) : Nat → Int :=
  (((State.mk true [] 0 0 0 gidx).loop font srtcode 0 srtcode).last font srtcode).moveToFront font srtcode

end HiSTB.Subtitle
