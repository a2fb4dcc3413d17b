import Mathlib.Data.List.Basic

/-!
# `Subtitle.Utf8` — from UTF-8 to code points (`Subtitle.cpp`)

`String_UTF8ToUnicode` takes the bytes of a subtitle apart, and then takes the line breaks off its end.

* `utf8ToUnicode` — one character, with the number that says how it went and the bytes that were read;
* `Store` — the variables of the loop and the caller's array; it keeps the places that were read or written;
* `trimPairs`, `trimBreaks` — the two loops over the end;
* `stringUtf8ToUnicode` — the function.

The array is numbered from its start; a place in front of it has a negative number. `SUB_CHAR_MAX_LEN` is not in the
repository and is a parameter. Indexes have no bound here: a text is far from 2 GB.
-/

namespace HiSTB.Subtitle.Utf8

variable {index bytelen : Nat}

abbrev Byte := BitVec 8
abbrev Code := BitVec 32

/-! ## One character -/

/-- The bits of a byte that its mask leaves, at their place. -/
def part (b mask : Byte) (shift : Nat) : Code := (b &&& mask).setWidth 32 <<< shift

/-- What `UTF8ToUNICODE` returns, the index behind the character, the character if it is written, and the indexes of
    the bytes that are read. -/
structure Decoded where
  tag : Int
  index : Nat
  unicode : Option Code
  reads : List Nat

/-- A character of `n` bytes; there may be fewer left. -/
def form (index bytelen n : Nat) (unicode : Code) : Decoded :=
  if index + (n - 1) ≥ bytelen then ⟨0, index, none, [index]⟩
  else ⟨1, index + n, some unicode, (List.range n).map (index + ·)⟩

/-- `UTF8ToUNICODE`. -/
def utf8ToUnicode (byte : Nat → Byte) (index bytelen : Nat) : Decoded :=
  let b : Nat → Byte := fun k => byte (index + k)
  if index ≥ bytelen then ⟨0, index, none, []⟩
  else if b 0 &&& 0x80 = 0 then form index bytelen 1 ((b 0).setWidth 32)
  else if b 0 &&& 0xE0 = 0xC0 then form index bytelen 2 (part (b 0) 0x1F 6 ||| part (b 1) 0x3F 0)
  else if b 0 &&& 0xF0 = 0xE0 then
    form index bytelen 3 (part (b 0) 0x0F 12 ||| part (b 1) 0x3F 6 ||| part (b 2) 0x3F 0)
  else if b 0 &&& 0xF8 = 0xF0 then
    form index bytelen 4 (part (b 0) 0x07 18 ||| part (b 1) 0x3F 12 ||| part (b 2) 0x3F 6 ||| part (b 3) 0x3F 0)
  else if b 0 &&& 0xFC = 0xF8 then
    form index bytelen 5 (part (b 0) 0x03 24 ||| part (b 1) 0x3F 18 ||| part (b 2) 0x3F 12 ||| part (b 3) 0x3F 6 |||
      part (b 4) 0x3F 0)
  else if b 0 &&& 0xFE = 0xFC then
    form index bytelen 6 (part (b 0) 0x01 30 ||| part (b 1) 0x3F 24 ||| part (b 2) 0x3F 18 ||| part (b 3) 0x3F 12 |||
      part (b 4) 0x3F 6 ||| part (b 5) 0x3F 0)
  else ⟨-1, index + 1, none, [index]⟩

/-- What can come of a character that begins in the text: it is cut off, its first byte is bad, or it is there. -/
inductive Outcome (index bytelen : Nat) : Decoded → Prop
  | cut : Outcome index bytelen ⟨0, index, none, [index]⟩
  | bad : Outcome index bytelen ⟨-1, index + 1, none, [index]⟩
  | char (c : Code) (n : Nat) (hin : index + n < bytelen) :
      Outcome index bytelen ⟨1, index + (n + 1), some c, (List.range (n + 1)).map (index + ·)⟩

theorem form_outcome (n : Nat) (c : Code) : Outcome index bytelen (form index bytelen (n + 1) c) := by
  unfold form
  split
  · exact .cut
  · rename_i hin
    exact .char c n (Nat.not_le.mp hin)

theorem utf8ToUnicode_outcome (byte : Nat → Byte) (hlt : index < bytelen) :
    Outcome index bytelen (utf8ToUnicode byte index bytelen) := by
  unfold utf8ToUnicode
  rw [if_neg (Nat.not_le.mpr hlt)]
  repeat' split
  all_goals first | exact form_outcome _ _ | exact .bad

/-- Where the loop over the text goes on, it goes on further behind. -/
theorem index_lt_of_tag {byte : Nat → Byte} (hlt : index < bytelen)
    (htag : (utf8ToUnicode byte index bytelen).tag ≠ 0) : index < (utf8ToUnicode byte index bytelen).index := by
  have hout := utf8ToUnicode_outcome byte hlt
  generalize utf8ToUnicode byte index bytelen = d at hout htag ⊢
  cases hout with
  | cut => exact absurd rfl htag
  | bad => exact Nat.lt_succ_self index
  | char c n hin => exact Nat.lt_add_of_pos_right (Nat.succ_pos n)

/-! ## The text -/

/-- The variables of `String_UTF8ToUnicode`, the array, and the places of the text and of the array that were used. -/
structure Store where
  index : Nat
  strCount : Nat
  count : Nat
  unicode : Int → Code
  reads : List Nat
  places : List Int

/-- What `UTF8ToUNICODE` leaves, for `unicode[strCount]`; the cell is looked at where it gave a character. -/
def Store.decoded (s : Store) (d : Decoded) : Store :=
  { s with
    index := d.index
    unicode := match d.unicode with
      | some c => fun i => if i = s.strCount then c else s.unicode i
      | none => s.unicode
    reads := s.reads ++ d.reads
    places := s.places ++ (if d.unicode.isSome then [(s.strCount : Int)] else []) ++
      (if d.tag > 0 then [(s.strCount : Int)] else []) }

/-- One round of the loop over the text, and whether it is the last one. -/
def Store.next (maxLen : Nat) (byte : Nat → Byte) (textlen : Nat) (s : Store) : Store × Bool :=
  let d := utf8ToUnicode byte s.index textlen
  let t := s.decoded d
  if d.tag > 0 ∧ t.unicode t.strCount ≠ 0 then
    ({ t with strCount := t.strCount + 1 }, decide (t.strCount + 1 > maxLen))
  else if d.tag < 0 then ({ t with count := t.count + 1 }, decide (t.strCount > maxLen))
  else if d.tag = 0 then (t, true)
  else (t, decide (t.strCount > maxLen))

theorem index_lt_of_next {maxLen textlen : Nat} {byte : Nat → Byte} {s : Store} (hlt : s.index < textlen)
    (hgo : (s.next maxLen byte textlen).2 = false) : s.index < (s.next maxLen byte textlen).1.index := by
  by_cases htag : (utf8ToUnicode byte s.index textlen).tag = 0
  · have hlast : (s.next maxLen byte textlen).2 = true := by
      unfold Store.next
      simp [htag]
    rw [hlast] at hgo
    exact Bool.noConfusion hgo
  · have hindex : (s.next maxLen byte textlen).1.index = (utf8ToUnicode byte s.index textlen).index := by
      unfold Store.next
      dsimp only
      split
      · rfl
      · split
        · rfl
        · rfl
    rw [hindex]
    exact index_lt_of_tag hlt htag

/-- The loop over the text. -/
def Store.loop (maxLen : Nat) (byte : Nat → Byte) (textlen : Nat) (s : Store) : Store :=
  if _hlt : s.index < textlen then
    match _hnext : s.next maxLen byte textlen with
    | (s', true) => s'
    | (s', false) => Store.loop maxLen byte textlen s'
  else s
termination_by textlen - s.index
decreasing_by
  have hlt := index_lt_of_next _hlt (congrArg Prod.snd _hnext)
  rw [_hnext] at hlt
  have hlt' : s.index < s'.index := hlt
  omega

/-- The first loop over the end: pairs of 13 and 10 are taken off; with the places that it reads. -/
def trimPairs (unicode : Int → Code) : Nat → Nat × List Int
  | n + 2 =>
    if unicode (n + 1 : Nat) = 10 then
      if unicode n = 13 then
        let r := trimPairs unicode n
        (r.1, ((n + 1 : Nat) : Int) :: (n : Int) :: r.2)
      else (n + 2, [((n + 1 : Nat) : Int), (n : Int)])
    else (n + 2, [((n + 1 : Nat) : Int)])
  | n => (n, [])

/-- The second loop over the end, in which the character in front of the last one is looked at. -/
def trimBreaks (unicode : Int → Code) : Nat → Nat × List Int
  | 0 => (0, [])
  | n + 1 =>
    if unicode n = 10 then
      let r := trimBreaks unicode n
      (r.1, (n : Int) :: r.2)
    else if unicode ((n : Int) - 1) = 13 then
      let r := trimBreaks unicode n
      (r.1, (n : Int) :: ((n : Int) - 1) :: r.2)
    else (n + 1, [(n : Int), (n : Int) - 1])

/-- What `String_UTF8ToUnicode` leaves. -/
structure Result where
  ret : Int
  strCount : Nat
  unicode : Int → Code
  reads : List Nat
  places : List Int

/-- The part of `String_UTF8ToUnicode` behind the loop over the text. -/
def Store.finish (s : Store) : Result :=
  let pairs := trimPairs s.unicode s.strCount
  let breaks := trimBreaks s.unicode pairs.1
  let n := breaks.1
  let adds : Bool := decide (n > 0) && decide (s.unicode ((n : Int) - 1) ≠ 10)
  let m := if adds then n + 1 else n
  let cells : Int → Code := if adds then fun i => if i = n then 10 else s.unicode i else s.unicode
  { ret := 0
    strCount := m
    unicode := fun i => if i = m then 0 else cells i
    reads := s.reads
    places := s.places ++ pairs.2 ++ breaks.2 ++ (if n > 0 then [(n : Int) - 1] else []) ++
      (if adds then [(n : Int)] else []) ++ [(m : Int)] }

/-- `String_UTF8ToUnicode`, with what the array and the counter hold before. -/
def stringUtf8ToUnicode (maxLen : Nat) (text : List Byte) (unicode : Int → Code) (strCount : Nat) : Result :=
  if text.length = 0 then ⟨-1, strCount, unicode, [], []⟩
  else (Store.loop maxLen (fun i => text.getD i 0) text.length ⟨0, 0, 0, unicode, [], []⟩).finish

/-- The text that a call leaves; a call that is refused leaves none. -/
def Result.text (r : Result) : List Code :=
  if r.ret = 0 then (List.range r.strCount).map (fun i => r.unicode (i : Nat)) else []

end HiSTB.Subtitle.Utf8
