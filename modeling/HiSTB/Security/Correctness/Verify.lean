import HiSTB.Security.Correctness.Lines
import Mathlib.Tactic.NormNum

/-!
# `Security.Correctness.Verify` — the check accepts the signed list, and nothing else

The driver looks for a tab in the line, but it does not look whether the line ends inside the signed part of the list,
nor whether twenty bytes stand behind the tab. As long as it meets no such line, it accepts what it is to accept.

* `sha1Padding_eq`, `sha1File_eq` — the SHA-1 of a file;
* `verifyLoop_lines` — the loop over plain lines that match;
* `Refused`, `verifyLoop_refused` — a line without a tab, or one that does not match;
* `Regular` — the list is plain lines up to its end, or up to one that is refused;
* `verifyFiles_regular` — the check is right for such lists;
* `unsigned_byte_decides` — what happens without.
-/

namespace HiSTB.Security

variable {env : Env} {file rest : List Byte} {fileLen : Int}

variable {l : Line} {c : Byte} {fuel pos : Nat} {mem u v w signed : List Byte} {ps ls : List Line}
    {ends : Bool}

/-! ## Files -/

/-- The padding of SHA-1. -/
def sha1Pad (n : Nat) : List Byte :=
  (0x80 : Byte) :: List.replicate ((119 - n % 64) % 64) 0 ++
    (List.range 8).map (fun i => (BitVec.ofNat 64 (n * 8) >>> ((7 - i) * 8)).setWidth 8)

/-- SHA-1, with what the hash unit makes of the padded data. -/
def sha1 (env : Env) (data : List Byte) : List Byte := env.calcHash (data ++ sha1Pad data.length)

/-- **The padding is right** while the number of bits is an `int`. -/
theorem sha1Padding_eq {n : Nat} (h : n < 2 ^ 28) : sha1Padding (BitVec.ofNat 32 n) = sha1Pad n := by
  have hlen : (BitVec.ofNat 32 n).toNat = n := by
    rw [BitVec.toNat_ofNat]
    exact Nat.mod_eq_of_lt (by omega)
  have hbits : (BitVec.ofNat 32 n * 8).toNat = n * 8 := by
    rw [BitVec.toNat_mul, hlen]
    exact Nat.mod_eq_of_lt (by simp; omega)
  have hmsb : (BitVec.ofNat 32 n * 8).msb = false := by
    rw [BitVec.msb_eq_false_iff_two_mul_lt, hbits]
    omega
  unfold sha1Padding sha1Pad
  simp only [hlen]
  have hzeros : (if n % 64 < 56 then 56 - n % 64 else 120 - n % 64) + 8 - 1 - 8 = (119 - n % 64) % 64 := by
    split_ifs <;> omega
  rw [hzeros]
  congr 1
  apply List.map_congr_left
  intro i _
  rw [BitVec.sshiftRight_eq_of_msb_false hmsb]
  apply BitVec.eq_of_toNat_eq
  simp only [BitVec.toNat_setWidth, BitVec.toNat_ushiftRight, hbits, BitVec.toNat_ofNat]
  rw [Nat.mod_eq_of_lt (show n * 8 < 2 ^ 64 by omega)]

theorem updateBlocks_append (n : Nat) (data : List Byte) :
    (updateBlocks n data).1 ++ (updateBlocks n data).2 = data := by
  induction n generalizing data with
  | zero => rfl
  | succ n ih => rw [updateBlocks, List.append_assoc, ih, List.take_append_drop]

/-- The file of a line is there and has the hash of the line. -/
def Matches (env : Env) (l : Line) : Prop := (env.files l.path).map (sha1 env) = some l.hash
deriving Decidable

/-- A file is so small that the number of its bits is an `int`. -/
def Small (env : Env) (l : Line) : Prop := ∀ data ∈ env.files l.path, data.length < 2 ^ 28

theorem sha1File_eq (hinit : env.calcHashInit = true) (hsmall : Small env l) :
    sha1File env l.path l.hash = some (decide (Matches env l)) := by
  have hiff : Matches env l ↔ (env.files l.path).map (sha1 env) = some l.hash := Iff.rfl
  unfold sha1File
  cases hfile : env.files l.path with
  | none =>
    rw [hfile] at hiff
    simp [hiff]
  | some data =>
    rw [hfile] at hiff
    have hlt := hsmall data hfile
    dsimp only
    rw [if_neg (by omega), if_pos hinit, ← List.append_assoc, updateBlocks_append, sha1Padding_eq hlt]
    simp [hiff, sha1]

/-! ## The loop -/

/-- What is returned when some lines went through. -/
def afterLines (ps : List Line) (r : Result) : Result := ps.foldr (fun l => Result.after l.path l.hash) r

theorem afterLines_ret (ps : List Line) (r : Result) : (afterLines ps r).ret = r.ret := by
  induction ps with
  | nil => rfl
  | cons p ps ih => exact ih

theorem afterLines_num (ps : List Line) (r : Result) :
    (afterLines ps r).checkSystemNum = r.checkSystemNum + ps.length := by
  induction ps with
  | nil => rfl
  | cons p ps ih => exact congrArg Nat.succ ih

/-- **A line is read as it is meant** if no digit stands behind it. -/
theorem verifyLoop_stem {pos' : Nat} {m : List Byte} (hplain : Plain l)
    (hc : hexVal c = none) (hread : readLine file pos mem = some (pos', l.stem ++ c :: m))
    (hpos : (pos : Int) < fileLen) :
    verifyLoop env file fileLen (fuel + 1) pos mem = (sha1File env l.path l.hash).bind (fun ok =>
      if ok then (verifyLoop env file fileLen fuel pos' ((l.stem ++ c :: m).set l.path.length 0)).map
        (Result.after l.path l.hash)
      else some ⟨-1, [(l.path, l.hash)], 0⟩) := by
  have htext : l.stem ++ c :: m = l.path ++ tab :: (l.firsts.flatMap group ++ [l.last.1, l.last.2] ++ c :: m) := by
    rw [Line.stem, List.append_assoc]
    rfl
  rw [verifyLoop, if_pos hpos, hread]
  dsimp only
  rw [htext, getFilenameAndHash_tab (fun c hc => ⟨(hplain.path c hc).1, (hplain.path c hc).2.1⟩)]
  dsimp only
  rw [hplain.readVal hc, Option.bind_some]

theorem text_pos : 0 < l.text.length := by
  simp [Line.text]

/-- **One line that matches.** -/
theorem verifyLoop_line (hinit : env.calcHashInit = true) (hplain : Plain l)
    (hsmall : Small env l) (hmatch : Matches env l) (hmem : bufSize ≤ mem.length)
    (hfile : file.drop pos = l.text ++ rest)
    (hpos : (pos : Int) < fileLen) :
    ∃ mem', bufSize ≤ mem'.length ∧ verifyLoop env file fileLen (fuel + 1) pos mem =
      (verifyLoop env file fileLen fuel (pos + l.text.length) mem').map (Result.after l.path l.hash) := by
  have hlen : l.text.length = l.stem.length + 1 := by
    rw [l.text_eq_stem, List.length_append, List.length_singleton]
  have hcut : file.drop pos = l.stem ++ newline :: rest := by
    rw [hfile, l.text_eq_stem, List.append_assoc]
    rfl
  obtain ⟨m, hread, -⟩ := readLine_line hmem hcut hplain.not_mem_stem (by rw [← hlen]; exact hplain.fits)
  have hlong := length_readLine hread hmem
  refine ⟨(l.stem ++ newline :: m).set l.path.length 0, by rw [List.length_set]; exact hlong, ?_⟩
  rw [verifyLoop_stem hplain (by decide) hread hpos, sha1File_eq hinit hsmall, decide_eq_true hmatch, hlen]
  rfl

/-- **The loop over lines that match.** -/
theorem verifyLoop_lines (hinit : ps ≠ [] → env.calcHashInit = true)
    (hps : ∀ l ∈ ps, Plain l ∧ Small env l ∧ Matches env l)
    (fuel pos : Nat) (mem : List Byte) (hmem : bufSize ≤ mem.length) (hfile : file.drop pos = textOf ps ++ rest)
    (hpos : ((pos + (textOf ps).length : Nat) : Int) ≤ fileLen) :
    ∃ mem', bufSize ≤ mem'.length ∧ verifyLoop env file fileLen (ps.length + fuel) pos mem =
      (verifyLoop env file fileLen fuel (pos + (textOf ps).length) mem').map (afterLines ps) := by
  induction ps generalizing pos mem with
  | nil =>
    refine ⟨mem, hmem, ?_⟩
    rw [List.length_nil, Nat.zero_add]
    exact Option.map_id'.symm
  | cons p ps ih =>
    obtain ⟨hplain, hsmall, hmatch⟩ := hps p List.mem_cons_self
    have hpp : 0 < p.text.length := text_pos
    rw [textOf_cons, List.length_append] at hpos
    rw [textOf_cons, List.append_assoc] at hfile
    have hfuel : (p :: ps).length + fuel = ps.length + fuel + 1 := by
      rw [List.length_cons]
      omega
    have hlt : (pos : Int) < fileLen := by omega
    obtain ⟨mem₁, hmem₁, hone⟩ := @verifyLoop_line env file _ fileLen p (ps.length + fuel) pos mem
      (hinit (List.cons_ne_nil p ps)) hplain hsmall hmatch hmem hfile hlt
    have hdrop : file.drop (pos + p.text.length) = textOf ps ++ rest := by
      rw [← List.drop_drop, hfile, List.drop_left]
    obtain ⟨mem₂, hmem₂, hrest⟩ := ih (fun _ => hinit (List.cons_ne_nil p ps))
      (fun l hl => hps l (List.mem_cons_of_mem _ hl)) (pos + p.text.length) mem₁ hmem₁ hdrop (by omega)
    refine ⟨mem₂, hmem₂, ?_⟩
    rw [hfuel, hone, hrest, Option.map_map, textOf_cons, List.length_append, Nat.add_assoc]
    rfl

/-- The end of the list, or of the signed part. -/
theorem verifyLoop_end (h : fileLen ≤ (pos : Int) ∨ file.drop pos = []) :
    verifyLoop env file fileLen (fuel + 1) pos mem = some ⟨0, [], 0⟩ := by
  rw [verifyLoop]
  split_ifs with hpos
  · have hread : readLine file pos mem = none := by
      unfold readLine
      rw [h.resolve_left (by omega)]
      rfl
    rw [hread]
  · rfl

/-! ## What is refused -/

/-- What the driver finds from the start of a line on: it puts a 0 behind a file that ends. -/
def seen (ends : Bool) (rest : List Byte) : List Byte := if ends then rest ++ [0] else rest

/-- A line without a tab: it ends inside the window, or a 0 is in it. -/
def NoTab (text : List Byte) : Prop :=
  ∃ u c v, text = u ++ c :: v ∧ (∀ d ∈ u, d ≠ 0 ∧ d ≠ tab ∧ d ≠ newline) ∧
    (c = newline ∧ u.length + 1 < bufSize ∨ c = 0 ∧ u.length < bufSize)

/-- The file of a line is missing or has another SHA-1, or the hash unit does not start. -/
def Mismatch (env : Env) (l : Line) : Prop :=
  env.calcHashInit = true ∧ Small env l ∧ ¬ Matches env l ∨
  env.calcHashInit = false ∧ ∀ data ∈ env.files l.path, data.length < 0x80000000

/-- A text that is refused for its first line: it has no tab, or it is a whole line, with no digit behind it, and the
    file does not match. -/
def Refused (env : Env) (text : List Byte) : Prop :=
  NoTab text ∨ ∃ l c v, text = l.stem ++ c :: v ∧ Plain l ∧ hexVal c = none ∧ Mismatch env l

theorem Mismatch.sha1File (h : Mismatch env l) : sha1File env l.path l.hash = some false := by
  rcases h with ⟨hinit, hsmall, hnot⟩ | ⟨hinit, hlt⟩
  · rw [sha1File_eq hinit hsmall, decide_eq_false hnot]
  · unfold Security.sha1File
    cases hfile : env.files l.path with
    | none => rfl
    | some data =>
      have hdata := hlt data hfile
      dsimp only
      rw [if_neg (by omega), if_neg (by rw [hinit]; exact Bool.false_ne_true)]

theorem seen_append (ends : Bool) (xs ys : List Byte) : seen ends (xs ++ ys) = xs ++ seen ends ys := by
  cases ends with
  | false => rfl
  | true => exact List.append_assoc xs ys [0]

/-- A character that is seen is in the file, or it is the 0 behind it. -/
theorem seen_cases (h : seen ends rest = u ++ c :: v) :
    (∃ v', rest = u ++ c :: v') ∨ ends = true ∧ rest = u ∧ c = 0 := by
  cases ends with
  | false => exact Or.inl ⟨v, h⟩
  | true =>
    have h : rest ++ [0] = u ++ c :: v := h
    rcases List.eq_nil_or_concat v with rfl | ⟨v', x, rfl⟩
    · obtain ⟨hrest, hc⟩ := List.append_inj' h rfl
      exact Or.inr ⟨rfl, hrest, (List.singleton_inj.mp hc).symm⟩
    · rw [List.concat_eq_append, ← List.cons_append, ← List.append_assoc] at h
      exact Or.inl ⟨v', (List.append_inj' h rfl).1⟩

theorem lineLen_ge (h : newline ∉ u) : u.length ≤ lineLen (u ++ v) := by
  induction u with
  | nil => exact Nat.zero_le _
  | cons c u ih =>
    rw [List.mem_cons, not_or] at h
    rw [List.cons_append, lineLen, if_neg (Ne.symm h.1), List.length_cons]
    exact Nat.succ_le_succ (ih h.2)

theorem lineLen_of_not_mem (h : newline ∉ u) : lineLen u = u.length := by
  induction u with
  | nil => rfl
  | cons c u ih =>
    rw [List.mem_cons, not_or] at h
    rw [lineLen, if_neg (Ne.symm h.1), ih h.2, List.length_cons]

/-- A character that the line goes up to stays where it is. -/
theorem readLine_char (hfile : file.drop pos = u ++ c :: v)
    (hnot : newline ∉ u) (hfits : u.length < bufSize) : ∃ pos' m, readLine file pos mem = some (pos', u ++ c :: m) := by
  have htake : (file.drop pos).take bufSize = u ++ c :: v.take (bufSize - (u.length + 1)) := by
    obtain ⟨k, hk⟩ : ∃ k, bufSize - u.length = k + 1 := ⟨bufSize - u.length - 1, by omega⟩
    rw [hfile, List.take_append, List.take_of_length_le (by omega), hk, List.take_succ_cons]
    congr 3
    omega
  have hlen : u.length + 1 ≤ lineLen (u ++ c :: v.take (bufSize - (u.length + 1))) := by
    by_cases hc : c = newline
    · rw [hc, lineLen_eq hnot]
    · have hge := @lineLen_ge (u ++ [c]) (v.take (bufSize - (u.length + 1))) (by
        intro hmem
        rcases List.mem_append.mp hmem with hmem | hmem
        · exact hnot hmem
        · exact hc (List.mem_singleton.mp hmem).symm)
      rwa [List.length_append, List.append_assoc] at hge
  unfold readLine
  rw [htake]
  dsimp only
  rw [if_neg (by simp)]
  split_ifs
  · rw [List.append_assoc, List.cons_append, List.set_append_right _ _ (by omega)]
    obtain ⟨k, hk⟩ : ∃ k, lineLen (u ++ c :: v.take (bufSize - (u.length + 1))) - u.length = k + 1 :=
      ⟨lineLen (u ++ c :: v.take (bufSize - (u.length + 1))) - u.length - 1, by omega⟩
    rw [hk, List.set_cons_succ]
    exact ⟨_, _, rfl⟩
  · rw [List.append_assoc, List.cons_append]
    exact ⟨_, _, rfl⟩

/-- The last line of the file gets its 0. -/
theorem readLine_last (hfile : file.drop pos = u) (hne : u ≠ []) (hnot : newline ∉ u)
    (hfits : u.length < bufSize) (hmem : bufSize ≤ mem.length) :
    ∃ pos' m, readLine file pos mem = some (pos', u ++ 0 :: m) := by
  have hdrop : ∃ d m, mem.drop u.length = d :: m := by
    cases hcase : mem.drop u.length with
    | nil =>
      have hlen := congrArg List.length hcase
      rw [List.length_drop, List.length_nil] at hlen
      omega
    | cons d m => exact ⟨d, m, rfl⟩
  obtain ⟨d, m, hdrop⟩ := hdrop
  unfold readLine
  rw [hfile, List.take_of_length_le (Nat.le_of_lt hfits)]
  dsimp only
  rw [if_neg hne, lineLen_of_not_mem hnot, if_pos hfits, hdrop, List.set_append_right _ _ (Nat.le_refl _), Nat.sub_self,
    List.set_cons_zero]
  exact ⟨_, _, rfl⟩

/-- **What is seen is what is read**, up to a character in the window. -/
theorem readLine_seen (hfile : file.drop pos = rest ++ w)
    (hends : ends = true → w = []) (hne : rest ≠ []) (hseen : seen ends rest = u ++ c :: v) (hnot : newline ∉ u)
    (hfits : u.length < bufSize) (hmem : bufSize ≤ mem.length) :
    ∃ pos' m, readLine file pos mem = some (pos', u ++ c :: m) := by
  rcases seen_cases hseen with ⟨v', rfl⟩ | ⟨hends', rfl, rfl⟩
  · exact readLine_char (by rw [hfile, List.append_assoc]; rfl) hnot hfits
  · rw [hends hends', List.append_nil] at hfile
    exact readLine_last hfile hne hnot hfits hmem

/-- A line without a tab is cut off before any tab. -/
theorem NoTab.readLine (h : NoTab (seen ends rest))
    (hfile : file.drop pos = rest ++ w) (hends : ends = true → w = []) (hne : rest ≠ []) (hmem : bufSize ≤ mem.length) :
    ∃ pos' u m, readLine file pos mem = some (pos', u ++ 0 :: m) ∧ ∀ d ∈ u, d ≠ 0 ∧ d ≠ tab := by
  obtain ⟨u, c, v, hseen, hu, hc⟩ := h
  have hnot : newline ∉ u := fun hmem => (hu _ hmem).2.2 rfl
  rcases hc with ⟨rfl, hlen⟩ | ⟨rfl, hlen⟩
  · obtain ⟨v', rfl⟩ := (seen_cases hseen).resolve_right (fun h => absurd h.2.2 (by decide))
    rw [List.append_assoc] at hfile
    obtain ⟨m, hread, hzero⟩ := readLine_line hmem hfile hnot (Nat.le_of_lt hlen)
    obtain ⟨m', rfl⟩ := hzero hlen
    refine ⟨_, u ++ [newline], m', by rw [hread, List.append_assoc]; rfl, ?_⟩
    intro d hd
    rcases List.mem_append.mp hd with hd | hd
    · exact ⟨(hu d hd).1, (hu d hd).2.1⟩
    · rw [List.mem_singleton.mp hd]
      decide
  · obtain ⟨pos', m, hread⟩ := readLine_seen hfile hends hne hseen hnot hlen hmem
    exact ⟨pos', u, m, hread, fun d hd => ⟨(hu d hd).1, (hu d hd).2.1⟩⟩

/-- **A refused line**: the answer depends on what is seen only. -/
theorem verifyLoop_refused (h : Refused env (seen ends rest)) (hne : rest ≠ []) :
    ∃ r : Result, r.ret = -1 ∧ ∀ {file w mem : List Byte} {fileLen : Int} {fuel pos : Nat}, file.drop pos = rest ++ w →
      (ends = true → w = []) → bufSize ≤ mem.length → (pos : Int) < fileLen →
      verifyLoop env file fileLen (fuel + 1) pos mem = some r := by
  rcases h with htab | ⟨l, c, v, hseen, hplain, hc, hmis⟩
  · refine ⟨⟨-1, [], 0⟩, rfl, fun {file w mem fileLen fuel pos} hfile hends hmem hpos => ?_⟩
    obtain ⟨pos', u, m, hread, hu⟩ := htab.readLine hfile hends hne hmem
    rw [verifyLoop, if_pos hpos, hread]
    dsimp only
    rw [getFilenameAndHash_none hu]
  · refine ⟨⟨-1, [(l.path, l.hash)], 0⟩, rfl, fun {file w mem fileLen fuel pos} hfile hends hmem hpos => ?_⟩
    have hfits : l.stem.length < bufSize := by
      have hlen := hplain.fits
      rw [l.text_eq_stem, List.length_append, List.length_singleton] at hlen
      exact hlen
    obtain ⟨pos', m, hread⟩ := readLine_seen hfile hends hne hseen hplain.not_mem_stem hfits hmem
    rw [verifyLoop_stem hplain hc hread hpos, hmis.sha1File]
    rfl

/-! ## The check -/

/-- What is to be accepted: some lines, whose files match. -/
def Accepts (env : Env) (signed : List Byte) (ls : List Line) : Prop :=
  (∀ l ∈ ls, WellFormed l) ∧ signed = textOf ls ∧ ∀ l ∈ ls, Matches env l

/-- **Every line that is looked at is plain and matches**, up to one that is refused, or to the end. -/
structure Looked (env : Env) (signed : List Byte) (ends : Bool) (ps : List Line) (rest : List Byte) : Prop where
  lines : ∀ l ∈ ps, Plain l ∧ Small env l ∧ Matches env l
  calcHashInit : ps ≠ [] → env.calcHashInit = true
  signed : signed = textOf ps ++ rest
  rest : rest = [] ∨ Refused env (seen ends rest)

/-- The signed part is more than the file. -/
def fileEnds (signed : List Byte) (fileLen : Int) : Bool := decide ((signed.length : Int) < fileLen)

/-- Nothing in the list is looked at without a check; and where the memory or the hash unit is missing, the list is not
    to be accepted. -/
structure Regular (env : Env) (signed : List Byte) (fileLen : Int) : Prop where
  looked : env.allocAndMap = true → ∃ ps rest, Looked env signed (fileEnds signed fileLen) ps rest
  missing : env.allocAndMap = false ∨ env.calcHashInit = false ∧ signed ≠ [] → ¬ ∃ ls, Accepts env signed ls

/-- A list that starts with a line without a tab is no list of lines. -/
theorem NoTab.ne_append (h : NoTab (l.text ++ w)) (hl : WellFormed l) : False := by
  obtain ⟨u, c, v, heq, hu, hc⟩ := h
  have hctab : c ≠ tab := by
    rcases hc with ⟨rfl, -⟩ | ⟨rfl, -⟩ <;> decide
  have hpath := hl.path
  rw [Line.text, List.append_assoc, List.cons_append] at heq
  -- the path and the tab would have to be in front of the character
  rcases List.append_eq_append_iff.mp heq.symm with ⟨w, hw, hrest⟩ | ⟨w, hw, hrest⟩
  · cases w with
    | nil => exact hctab (List.cons.inj hrest).1
    | cons d w =>
      obtain ⟨rfl, -⟩ := List.cons.inj hrest
      have hmem := hpath c (by rw [hw]; simp)
      rcases hc with ⟨rfl, -⟩ | ⟨rfl, -⟩
      · exact hmem.2.2 rfl
      · exact hmem.1 rfl
  · cases w with
    | nil => exact hctab (List.cons.inj hrest).1.symm
    | cons d w =>
      obtain ⟨rfl, -⟩ := List.cons.inj hrest
      exact (hu tab (by rw [hw]; simp)).2.1 rfl

/-- A list that is refused for its first line is none that is to be accepted. -/
theorem Refused.not_accepts (h : Refused env (seen ends rest)) (hne : rest ≠ [])
    (hinit : env.calcHashInit = true) : ¬ Accepts env rest ls := by
  rintro ⟨hls, htext, hall⟩
  cases ls with
  | nil => exact hne htext
  | cons l ls =>
    rw [textOf_cons] at htext
    rw [htext, seen_append] at h
    rcases h with htab | ⟨l', c, v, hseen, hplain, -, hmis⟩
    · exact htab.ne_append (hls l List.mem_cons_self)
    · rw [l.text_eq_stem, List.append_assoc] at hseen
      obtain ⟨rfl, -⟩ := (hls l List.mem_cons_self).stem_inj hplain.toWellFormed hseen
      rcases hmis with ⟨-, -, hnot⟩ | ⟨hinit', -⟩
      · exact hnot (hall l List.mem_cons_self)
      · rw [hinit] at hinit'
        cases hinit'

/-- **What is to be accepted was looked at.** -/
theorem Looked.of_accepts (h : Looked env signed ends ps rest)
    (hinit : signed ≠ [] → env.calcHashInit = true) (hls : Accepts env signed ls) : rest = [] ∧ ls = ps := by
  obtain ⟨hwf, htext, hall⟩ := hls
  obtain ⟨ls', rfl, htail⟩ := lines_split (fun l hl => (h.lines l hl).1.toWellFormed) hwf (htext.symm.trans h.signed)
  have hrest : rest = [] := by
    by_contra hne
    have hnot (hsigned : signed ≠ []) : ¬ Accepts env rest ls' :=
      (h.rest.resolve_left hne).not_accepts hne (hinit hsigned)
    refine hnot ?_ ⟨fun l hl => hwf l (List.mem_append_right _ hl), htail, fun l hl =>
      hall l (List.mem_append_right _ hl)⟩
    intro hnil
    exact hne (List.append_eq_nil_iff.mp (h.signed.symm.trans hnil)).2
  refine ⟨hrest, ?_⟩
  cases ls' with
  | nil => exact List.append_nil ps
  | cons l ls' =>
    have hpos := @text_pos l
    have hlen := congrArg List.length (hrest.symm.trans htail)
    rw [textOf_cons, List.length_append, List.length_nil] at hlen
    omega

theorem length_le_textOf : ps.length ≤ (textOf ps).length := by
  induction ps with
  | nil => exact Nat.le_refl _
  | cons p ps ih =>
    have hpos : 0 < p.text.length := text_pos
    rw [textOf_cons, List.length_append, List.length_cons]
    omega

/-- **What the check does with the lines it looks at.** It depends on the signed part only. -/
theorem verifyFiles_eq (halloc : env.allocAndMap = true)
    (h : Looked env signed (fileEnds signed fileLen) ps rest) :
    ∃ r : Result, (r.ret = 0 ↔ rest = []) ∧ (rest = [] → r.checkSystemNum = ps.length) ∧
      ∀ file mem, file.take fileLen.toNat = signed → bufSize ≤ mem.length →
        verifyFiles env file fileLen mem = some r := by
  -- the answer to what is behind the lines
  obtain ⟨r, hret, hnum, hr⟩ : ∃ r : Result, (r.ret = 0 ↔ rest = []) ∧ (rest = [] → r.checkSystemNum = 0) ∧
      ∀ {file w mem : List Byte} {fuel pos : Nat}, file.drop pos = rest ++ w →
        (fileEnds signed fileLen = true → w = []) → bufSize ≤ mem.length →
        (rest = [] → fileLen ≤ (pos : Int) ∨ file.drop pos = []) → (rest ≠ [] → (pos : Int) < fileLen) →
        verifyLoop env file fileLen (fuel + 1) pos mem = some r := by
    by_cases hrest : rest = []
    · exact ⟨⟨0, [], 0⟩, ⟨fun _ => hrest, fun _ => rfl⟩, fun _ => rfl, fun _ _ _ hend _ => verifyLoop_end (hend hrest)⟩
    · obtain ⟨r, hret, hr⟩ := verifyLoop_refused (h.rest.resolve_left hrest) hrest
      refine ⟨r, ⟨fun h => ?_, fun h => absurd h hrest⟩, fun h => absurd h hrest,
        fun hfile hends hmem _ hpos => hr hfile hends hmem (hpos hrest)⟩
      rw [hret] at h
      cases h
  refine ⟨afterLines ps r, by rw [afterLines_ret, hret], ?_, ?_⟩
  · intro hrest
    rw [afterLines_num, hnum hrest, Nat.zero_add]
  intro file mem hsame hmem
  have hsigned := hsame.trans h.signed
  have hfile : file.drop 0 = textOf ps ++ (rest ++ file.drop fileLen.toNat) := by
    rw [List.drop_zero, ← List.append_assoc, ← hsigned, List.take_append_drop]
  have hlen := congrArg List.length hsigned
  have hslen := congrArg List.length hsame
  rw [List.length_take] at hslen
  rw [List.length_take, List.length_append] at hlen
  have hends : fileEnds signed fileLen = true → file.drop fileLen.toNat = [] := by
    intro hends
    have hlt := of_decide_eq_true hends
    exact List.drop_eq_nil_of_le (by omega)
  have hpsLen := @length_le_textOf ps
  obtain ⟨fuel, hfuel⟩ : ∃ fuel, file.length + 1 = ps.length + (fuel + 1) := ⟨file.length - ps.length, by omega⟩
  unfold verifyFiles
  rw [if_pos halloc, hfuel]
  by_cases hneg : fileLen < 0
  · -- nothing is signed
    obtain rfl : ps = [] := List.length_eq_zero_iff.mp (by omega)
    obtain rfl : rest = [] := List.length_eq_zero_iff.mp (by omega)
    rw [List.length_nil, Nat.zero_add]
    exact hr hfile hends hmem (fun _ => Or.inl (by omega)) (fun hne => absurd rfl hne)
  · have hle : ((0 + (textOf ps).length : Nat) : Int) ≤ fileLen := by omega
    obtain ⟨mem', hmem', hloop⟩ := verifyLoop_lines h.calcHashInit h.lines (fuel + 1) 0 mem hmem hfile hle
    have hdrop : file.drop (0 + (textOf ps).length) = rest ++ file.drop fileLen.toNat := by
      rw [← List.drop_drop, hfile, List.drop_left]
    rw [hloop, hr hdrop hends hmem', Option.map_some]
    · intro hrest
      rw [hrest, List.length_nil] at hlen
      by_cases hend : fileLen.toNat ≤ file.length
      · left
        omega
      · right
        rw [hdrop, hrest, List.drop_eq_nil_of_le (by omega)]
        rfl
    · intro hrest
      have hpos := List.length_pos_iff.mpr hrest
      omega

/-- **The check of a regular list** returns 0 if and only if the signed part is a list of lines whose files match; it
    counts them, and nothing behind the signed part makes a difference. -/
theorem verifyFiles_regular {mem : List Byte} (h : Regular env (file.take fileLen.toNat) fileLen)
    (hmem : bufSize ≤ mem.length) :
    ∃ r, verifyFiles env file fileLen mem = some r ∧
      (r.ret = 0 ↔ ∃ ls, Accepts env (file.take fileLen.toNat) ls) ∧
      (∀ ls, Accepts env (file.take fileLen.toNat) ls → r.checkSystemNum = ls.length) ∧
      ∀ file' mem', file'.take fileLen.toNat = file.take fileLen.toNat → bufSize ≤ mem'.length →
        verifyFiles env file' fileLen mem' = some r := by
  cases halloc : env.allocAndMap with
  | false =>
    have hno := h.missing (Or.inl halloc)
    have heq : ∀ file' mem', verifyFiles env file' fileLen mem' = some ⟨-1, [], 0⟩ := by
      intro file' mem'
      unfold verifyFiles
      rw [if_neg (by rw [halloc]; exact Bool.false_ne_true)]
    exact ⟨⟨-1, [], 0⟩, heq file mem, ⟨fun h => absurd h (by decide), fun h => absurd h hno⟩, fun ls hls =>
      absurd ⟨ls, hls⟩ hno,
      fun file' mem' _ _ => heq file' mem'⟩
  | true =>
    obtain ⟨ps, rest, hlooked⟩ := h.looked halloc
    obtain ⟨r, hret, hnum, hr⟩ := verifyFiles_eq halloc hlooked
    have hof : ∀ ls, Accepts env (file.take fileLen.toNat) ls → rest = [] ∧ ls = ps := by
      intro ls hls
      refine hlooked.of_accepts (fun hne => ?_) hls
      by_contra hinit
      exact h.missing (Or.inr ⟨Bool.eq_false_iff.mpr hinit, hne⟩) ⟨ls, hls⟩
    refine ⟨r, hr file mem rfl hmem, ⟨fun hzero => ⟨ps, ?_, ?_, ?_⟩, ?_⟩, ?_, hr⟩
    · exact fun l hl => (hlooked.lines l hl).1.toWellFormed
    · rw [hlooked.signed, hret.mp hzero, List.append_nil]
    · exact fun l hl => (hlooked.lines l hl).2.2
    · rintro ⟨ls, hls⟩
      exact hret.mpr (hof ls hls).1
    · intro ls hls
      rw [hnum (hof ls hls).1, (hof ls hls).2]

/-! ### Lists -/

/-- A hexadecimal digit. -/
def digit (v : Nat) : Byte := BitVec.ofNat 8 (if v < 10 then 48 + v else 87 + v)

/-- A byte with a blank behind it. -/
def spaced (b : Byte) : Byte × Byte × Byte := (digit (b.toNat / 16), digit (b.toNat % 16), 32)

/-- The SHA-1 of an empty file. -/
def emptySha1 : List Byte :=
  [0xda, 0x39, 0xa3, 0xee, 0x5e, 0x6b, 0x4b, 0x0d, 0x32, 0x55, 0xbf, 0xef, 0x95, 0x60, 0x18, 0x90, 0xaf,
    0xd8, 0x07, 0x09]

/-- The line of an empty file `a`. -/
def lineA : Line := ⟨[97], emptySha1.dropLast.map spaced, (digit 0, digit 9)⟩

/-- There is a file `a`, and it is empty. -/
def emptyA : Env :=
  ⟨true, true, fun name => if name = [97] then some [] else none, fun fed => if fed = sha1Pad 0 then emptySha1 else []⟩

def freshBuf : List Byte := List.replicate bufSize 0

theorem forall_mem_of_all {α : Type} {P : α → Prop} [DecidablePred P] {l : List α}
    (h : l.all (fun x => decide (P x)) = true) : ∀ x ∈ l, P x := by
  intro x hx
  exact of_decide_eq_true (List.all_eq_true.mp h x hx)

theorem plain_lineA : Plain lineA where
  path := forall_mem_of_all (by decide)
  length := by decide
  digits := forall_mem_of_all (by decide)
  between := forall_mem_of_all (by decide)
  last := by decide
  fits := by decide
  apart := forall_mem_of_all (by decide)

theorem small_lineA : Small emptyA lineA := by
  intro data hdata
  have hempty : data = [] := (Option.some.inj (show some [] = some data from hdata)).symm
  rw [hempty]
  decide

theorem regular_lineA : Regular emptyA ((lineA.text ++ [97, 98]).take (62 : Int).toNat) 62 where
  looked := by
    intro _
    refine ⟨[lineA], [], ⟨?_, fun _ => rfl, by decide, Or.inl rfl⟩⟩
    intro l hl
    rw [List.mem_singleton.mp hl]
    exact ⟨plain_lineA, small_lineA, by decide⟩
  missing := by
    rintro (h | ⟨h, -⟩) <;> cases h

/-- One line, and something unsigned behind it. -/
theorem verifyFiles_regular_one :
    ∃ r, verifyFiles emptyA (lineA.text ++ [97, 98]) 62 freshBuf = some r ∧ r.ret = 0 ∧ r.checkSystemNum = 1 := by
  have hmem : bufSize ≤ freshBuf.length := by rw [freshBuf, List.length_replicate]
  obtain ⟨r, hr, hret, hnum, -⟩ := verifyFiles_regular regular_lineA hmem
  have haccepts : Accepts emptyA ((lineA.text ++ [97, 98]).take (62 : Int).toNat) [lineA] := by
    refine ⟨?_, by decide, ?_⟩
    · intro l hl
      rw [List.mem_singleton.mp hl]
      exact plain_lineA.toWellFormed
    · intro l hl
      rw [List.mem_singleton.mp hl]
      decide
  exact ⟨r, hr, hret.mpr ⟨_, haccepts⟩, hnum _ haccepts⟩

theorem WellFormed.length_text (h : WellFormed l) : 60 < l.text.length := by
  have hgroups : ∀ gs : List (Byte × Byte × Byte), (gs.flatMap group).length = gs.length * 3 := by
    intro gs
    induction gs with
    | nil => rfl
    | cons g gs ih =>
      rw [List.flatMap_cons, List.length_append, ih, List.length_cons]
      simp only [group, List.length_cons, List.length_nil]
      omega
  have hlen : l.firsts.length = 19 := Nat.succ.inj h.length
  simp only [Line.text, Line.hashText, List.length_append, List.length_cons, hgroups, group, List.length_nil]
  omega

/-- The line of `a` without its last two characters. -/
def cutLine : List Byte := lineA.text.take 60

/-- A line of `a` that ends with a digit of the eighth byte. -/
def shortLine : List Byte := [97, tab] ++ (emptySha1.take 7).flatMap (fun b => group (spaced b)) ++ [digit 13, newline]

/-- **An unsigned byte decides**: the last line of the signed part goes on behind it. **And a short hash is accepted**:
    the rest of it is what is left of the line before. -/
theorem unsigned_byte_decides :
    (verifyFiles emptyA (cutLine ++ [digit 9, newline]) 60 freshBuf = some ⟨0, [([97], emptySha1)], 1⟩ ∧
      (∃ checked, verifyFiles emptyA (cutLine ++ [digit 8, newline]) 60 freshBuf = some ⟨-1, checked, 0⟩) ∧
      (cutLine ++ [digit 9, newline]).take 60 = (cutLine ++ [digit 8, newline]).take 60 ∧
      ¬ ∃ ls, Accepts emptyA ((cutLine ++ [digit 9, newline]).take 60) ls) ∧
    verifyFiles emptyA (lineA.text ++ shortLine) 87 freshBuf = some ⟨0, [([97], emptySha1), ([97], emptySha1)], 2⟩ ∧
      ¬ ∃ ls, Accepts emptyA ((lineA.text ++ shortLine).take 87) ls := by
  -- a text that is too short for a line
  have hshort : ∀ {text : List Byte} {ls : List Line}, (∀ l ∈ ls, WellFormed l) → text = textOf ls → text.length ≤ 60 →
      text = [] := by
    intro text ls hls htext hlen
    cases ls with
    | nil => exact htext
    | cons l ls =>
        have hline := (hls l List.mem_cons_self).length_text
        rw [htext, textOf_cons, List.length_append] at hlen
        omega
  refine ⟨⟨by decide, ⟨[([97], emptySha1.dropLast ++ [0x08])], by decide⟩, by decide, ?_⟩,
    by decide, ?_⟩
  · rintro ⟨ls, hls, htext, -⟩
    have hnil := hshort hls htext (by decide)
    exact absurd hnil (by decide)
  · rintro ⟨ls, hls, htext, -⟩
    have hsplit : (lineA.text ++ shortLine).take 87 = textOf [lineA] ++ shortLine := by decide
    obtain ⟨ls', rfl, hrest⟩ := lines_split (fun l hl => by
      rw [List.mem_singleton.mp hl]
      exact plain_lineA.toWellFormed) hls (htext.symm.trans hsplit)
    have hnil := hshort (fun l hl => hls l (List.mem_append_right _ hl)) hrest (by decide)
    exact absurd hnil (by decide)

end HiSTB.Security
