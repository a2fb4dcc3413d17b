import HiSTB.Demux.DataFlag
import HiSTB.Demux.Correctness.Release
import HiSTB.Lib.Ring

/-!
# `Demux.Correctness.DataFlag` — when a question hides nothing and changes nothing

The flag of a section channel is right where the reader's pointer is not behind the read pointer of the queue: a release
may give back the block at which the reader still stands. A peek changes nothing where it leaves the error list as it
is, and a search of a PES channel where it meets no block with DROP.

* `ahead`, `quiet` — what a peek does to the error list; `readSec_quiet`;
* `Level`, `SecChan.flag_of_read` — the flag of a section or post channel;
* `meetsDrop`, `loop_fewer` — the search of a PES channel, for 16 messages and for more;
* `run_questions` — every run is a run without its questions; `hidden_and_changed` — what happens without the
  conditions.
-/

namespace HiSTB.Demux
variable {b : Block} {bs : List Block} {offset n : Nat} {g : Nat → Hw} {es : List Event}

namespace Section

/-! ## The error list -/

variable {cfg : Config} {a bufAddr : BitVec 32} {buf : List Byte} {errs : ErrList}

/-- The error list after a block was noted, or not. -/
def ErrList.note (cfg : Config) (errs : ErrList) (a : BitVec 32) (noted : Bool) : ErrList :=
  if noted then errs.add cfg a else errs

theorem add_add (cfg : Config) (errs : ErrList) (a : BitVec 32) : (errs.add cfg a).add cfg a = errs.add cfg a := by
  by_cases hmem : a ∈ errs
  · have hadd : errs.add cfg a = errs := by simp [ErrList.add, hmem]
    rw [hadd, hadd]
  · by_cases hroom : errs.length < cfg.maxErrListNum
    · have hadd : errs.add cfg a = a :: errs := by simp [ErrList.add, hmem, hroom]
      rw [hadd]
      simp [ErrList.add]
    · have hadd : errs.add cfg a = errs := by simp [ErrList.add, hmem, hroom]
      rw [hadd, hadd]

theorem add_note (cfg : Config) (errs : ErrList) (a : BitVec 32) (noted : Bool) :
    (errs.note cfg a noted).add cfg a = errs.note cfg a true := by
  cases noted with
  | false => rfl
  | true => exact add_add cfg errs a

/-- A block that is noted and then handed out is as it was. -/
theorem erase_note (h : a ∉ errs) (noted : Bool) : (errs.note cfg a noted).erase a = errs := by
  cases noted with
  | false => exact List.erase_of_not_mem h
  | true =>
    by_cases hroom : errs.length < cfg.maxErrListNum
    · simp [ErrList.note, ErrList.add, h, hroom]
    · simp [ErrList.note, ErrList.add, h, hroom, List.erase_of_not_mem]

/-- A block that is listed, or for which there is no room, is not noted. -/
theorem note_same {noted : Bool} (h : noted = true → a ∈ errs ∨ cfg.maxErrListNum ≤ errs.length) :
    errs.note cfg a noted = errs := by
  cases noted with
  | false => rfl
  | true =>
    rcases h rfl with hmem | hfull
    · simp [ErrList.note, ErrList.add, hmem]
    · have hroom : ¬ errs.length < cfg.maxErrListNum := Nat.not_lt.mpr hfull
      simp [ErrList.note, ErrList.add, hroom]

/-! ## Parsing for one message -/

/-- What a block holds from some place on. -/
inductive Ahead
  /-- Something that the channel wants. -/
  | wanted
  /-- Nothing that it wants; and whether something of it puts the block on the error list. -/
  | nothing (noted : Bool)
  deriving DecidableEq

/-- From `offset` on; `noted` is about what stands before. -/
def ahead (cfg : Config) (bufAddr : BitVec 32) (buf : List Byte) (bufLen : Nat) : Nat → Nat → Bool → Ahead
  | 0, _, noted => .nothing noted
  | fuel + 1, offset, noted =>
    let next (len : Nat) (noted : Bool) : Ahead :=
      if offset + len ≥ bufLen then .nothing noted else ahead cfg bufAddr buf bufLen fuel (offset + len) noted
    match verdict cfg bufAddr buf bufLen offset with
    | .noSync => next cfg.tsPacketLen true
    | .bad => .nothing true
    | .short len => next len (noted || offset = 0)
    | .filtered len => next len true
    | .keep _ => .wanted

/-- What parsing for one message comes to, by what stands ahead. -/
def Told (cfg : Config) (a : BitVec 32) (errs : ErrList) (q : Parse) : Ahead → Prop
  | .wanted => q.msgs ≠ [] ∧ (a ∉ errs → q.errs = errs)
  | .nothing noted => q.msgs = [] ∧ q.errs = errs.note cfg a noted

theorem parseLoop_ahead (bufLen fuel offset : Nat) (noted : Bool) :
    Told cfg a errs (parseLoop cfg a bufAddr buf bufLen 1 fuel ⟨[], offset, errs.note cfg a noted⟩)
      (ahead cfg bufAddr buf bufLen fuel offset noted) := by
  induction fuel generalizing offset noted with
  | zero => exact ⟨rfl, rfl⟩
  | succ fuel ih =>
    -- a round that hands out nothing goes on with the block noted or not
    have hgo : ∀ (len : Nat) (n : Bool), Told cfg a errs
        (if offset + len ≥ bufLen then (⟨[], offset + len, errs.note cfg a n⟩ : Parse)
          else parseLoop cfg a bufAddr buf bufLen 1 fuel ⟨[], offset + len, errs.note cfg a n⟩)
        (if offset + len ≥ bufLen then .nothing n else ahead cfg bufAddr buf bufLen fuel (offset + len) n) := by
      intro len n
      by_cases hend : offset + len ≥ bufLen
      · rw [if_pos hend, if_pos hend]
        exact ⟨rfl, rfl⟩
      · rw [if_neg hend, if_neg hend]
        exact ih (offset + len) n
    have hfew : ¬ ([] : List Msg).length ≥ 1 := by decide
    rw [parseLoop, ahead, if_neg hfew]
    cases verdict cfg bufAddr buf bufLen offset with
    | noSync =>
      simp only [add_note]
      exact hgo cfg.tsPacketLen true
    | bad =>
      simp only [add_note]
      exact ⟨rfl, rfl⟩
    | short len =>
      simp only [add_note]
      have hnote : (if offset = 0 then errs.note cfg a true else errs.note cfg a noted) =
          errs.note cfg a (noted || decide (offset = 0)) := by
        by_cases h0 : offset = 0
        · simp [h0]
        · simp [h0]
      rw [hnote]
      exact hgo len (noted || decide (offset = 0))
    | filtered len =>
      simp only [add_note]
      exact hgo len true
    | keep len =>
      dsimp only
      -- one message is enough
      have hstop : ∀ q : Parse, q.msgs.length = 1 → parseLoop cfg a bufAddr buf bufLen 1 fuel q = q := by
        intro q hq
        cases fuel with
        | zero => rfl
        | succ fuel => rw [parseLoop, if_pos (Nat.le_of_eq hq.symm)]
      rw [hstop _ rfl, ite_self]
      exact ⟨by simp, fun hmem => erase_note hmem noted⟩

/-- What a block holds from the offset of the reader on. -/
def Block.ahead (cfg : Config) (b : Block) (offset : Nat) : Ahead :=
  if offset ≥ b.data.length then .nothing false
  else Section.ahead cfg (cfg.virAddr b.startAddr) b.data b.data.length b.data.length offset false

theorem parseSection_ahead (b : Block) (offset : Nat) :
    Told cfg b.startAddr errs (parseSection cfg 1 b.startAddr b.data b.data.length ⟨[], offset, errs⟩)
      (b.ahead cfg offset) := by
  unfold parseSection Block.ahead
  by_cases hend : offset ≥ b.data.length
  · rw [if_pos hend, if_pos hend]
    exact ⟨rfl, rfl⟩
  · rw [if_neg hend, if_neg hend]
    exact parseLoop_ahead b.data.length b.data.length offset false

/-- A peek over these blocks leaves the error list as it is: the blocks without anything wanted are not noted, or are on
    the list, and the block with the first thing wanted is not on it. -/
def quiet (cfg : Config) (errs : ErrList) : List Block → Nat → Bool
  | [], _ => true
  | b :: bs, offset =>
    match b.ahead cfg offset with
    | .wanted => b.startAddr ∉ errs
    | .nothing noted =>
      (!noted || decide (b.startAddr ∈ errs ∨ cfg.maxErrListNum ≤ errs.length)) && quiet cfg errs bs 0

theorem quiet_cons (h : quiet cfg errs (b :: bs) offset = true) :
    (parseSection cfg 1 b.startAddr b.data b.data.length ⟨[], offset, errs⟩).errs = errs ∧
    ((parseSection cfg 1 b.startAddr b.data b.data.length ⟨[], offset, errs⟩).msgs = [] →
      quiet cfg errs bs 0 = true) := by
  have htold := @parseSection_ahead cfg errs b offset
  rw [quiet] at h
  cases ha : b.ahead cfg offset with
  | wanted =>
    simp only [ha, decide_eq_true_eq] at h
    rw [ha] at htold
    exact ⟨htold.2 h, fun hnil => absurd hnil htold.1⟩
  | nothing noted =>
    simp only [ha, Bool.and_eq_true, Bool.or_eq_true, Bool.not_eq_true', decide_eq_true_eq] at h
    rw [ha] at htold
    refine ⟨?_, fun _ => h.2⟩
    rw [htold.2]
    apply note_same
    intro hn
    rcases h.1 with hoff | hlisted
    · rw [hn] at hoff
      cases hoff
    · exact hlisted

/-! ## Reading while the hardware stands still -/

variable {acqNum w : Nat} {c : Chan} {h : Hw}

theorem le_parseSection (cfg : Config) (acqNum : Nat) (b : Block) (p : Parse) :
    p.msgs.length ≤ (parseSection cfg acqNum b.startAddr b.data b.data.length p).msgs.length := by
  obtain ⟨us, hp, -⟩ := parseSection_parsed cfg acqNum b.startAddr b.data b.data.length p
  rw [hp.msgs, List.length_append]
  exact Nat.le_add_right _ _

/-- One round of the loop: the block is passed over, or it gives messages. -/
theorem secLoop_cons {b : Block} {p q : Parse} (hq : parseSection cfg acqNum b.startAddr b.data b.data.length p = q)
    (bs : List Block) (c : Chan) (w : Nat) :
    (q.msgs.length = p.msgs.length ∧ secLoop cfg acqNum (b :: bs) c w p =
      secLoop cfg acqNum bs { c with procsBlk := w + 1, procsOffset := 0 } (w + 1) ⟨q.msgs, 0, q.errs⟩) ∨
    (p.msgs.length < q.msgs.length ∧ ∃ w' q', w ≤ w' ∧ w' ≤ w + 1 ∧ q'.msgs = q.msgs ∧ q'.errs = q.errs ∧
      secLoop cfg acqNum (b :: bs) c w p =
        if q.msgs.length ≥ acqNum then (c, w', q') else secLoop cfg acqNum bs c w' q') := by
  have hle : p.msgs.length ≤ q.msgs.length := hq ▸ le_parseSection cfg acqNum b p
  by_cases hsame : q.msgs.length = p.msgs.length
  · refine Or.inl ⟨hsame, ?_⟩
    rw [secLoop, hq]
    exact if_pos hsame
  · refine Or.inr ⟨by omega, ?_⟩
    by_cases hdone : q.offset ≥ b.data.length
    · refine ⟨w + 1, ⟨q.msgs, 0, q.errs⟩, Nat.le_succ _, Nat.le_refl _, rfl, rfl, ?_⟩
      simp only [secLoop, hq, if_neg hsame, if_pos hdone]
    · refine ⟨w, q, Nat.le_refl _, Nat.le_succ _, rfl, rfl, ?_⟩
      simp only [secLoop, hq, if_neg hsame, if_neg hdone]

theorem le_secLoop (bs : List Block) (c : Chan) (w : Nat) (p : Parse) :
    p.msgs.length ≤ (secLoop cfg acqNum bs c w p).2.2.msgs.length := by
  induction bs generalizing c w p with
  | nil => exact Nat.le_refl _
  | cons b bs ih =>
    rcases @secLoop_cons cfg acqNum b p _ rfl bs c w with ⟨hsame, heq⟩ | ⟨hmore, w', q', -, -, hmsgs, -, heq⟩
    · rw [heq, ← hsame]
      exact ih _ (w + 1) ⟨_, 0, _⟩
    · rw [heq]
      apply Nat.le_trans (Nat.le_of_lt hmore)
      rw [← hmsgs]
      split_ifs
      · exact Nat.le_refl _
      · exact ih c w' q'

/-- The pointer stays within the queue. -/
theorem secLoop_le (bs : List Block) (c : Chan) (w : Nat) (p : Parse) (hc : c.procsBlk ≤ w) :
    (secLoop cfg acqNum bs c w p).1.procsBlk ≤ w + bs.length ∧ (secLoop cfg acqNum bs c w p).2.1 ≤ w + bs.length := by
  induction bs generalizing c w p with
  | nil => exact ⟨hc, Nat.le_refl _⟩
  | cons b bs ih =>
    have hlen : w + (b :: bs).length = w + 1 + bs.length := by
      rw [List.length_cons]
      omega
    rw [hlen]
    rcases @secLoop_cons cfg acqNum b p _ rfl bs c w with ⟨-, heq⟩ | ⟨-, w', q', hle, hle', -, -, heq⟩
    · rw [heq]
      exact ih _ (w + 1) ⟨_, 0, _⟩ (Nat.le_refl _)
    · rw [heq]
      split_ifs
      · exact ⟨by dsimp only; omega, by dsimp only; omega⟩
      · obtain ⟨h1, h2⟩ := ih c w' q' (Nat.le_trans hc hle)
        exact ⟨by omega, by omega⟩

/-- A round that gives messages leaves some at the end. -/
theorem secLoop_ne_nil {p : Parse}
    (hmore : p.msgs.length < (parseSection cfg acqNum b.startAddr b.data b.data.length p).msgs.length) :
    (secLoop cfg acqNum (b :: bs) c w p).2.2.msgs ≠ [] := by
  apply List.length_pos_iff.mp
  rcases @secLoop_cons cfg acqNum b p _ rfl bs c w with ⟨hsame, -⟩ | ⟨-, w', q', -, -, hmsgs, -, heq⟩
  · omega
  · rw [heq]
    rw [← hmsgs] at hmore ⊢
    apply Nat.lt_of_le_of_lt (Nat.zero_le p.msgs.length)
    split_ifs
    · exact hmore
    · exact Nat.lt_of_lt_of_le hmore (le_secLoop bs c w' q')

/-- **A queue without anything wanted is read to its end.** -/
theorem secLoop_nothing (bs : List Block) (c : Chan) (offset : Nat)
    (hnil : (secLoop cfg acqNum bs c c.procsBlk ⟨[], offset, errs⟩).2.2.msgs = []) :
    (secLoop cfg acqNum bs c c.procsBlk ⟨[], offset, errs⟩).1.procsBlk = c.procsBlk + bs.length ∧
    (secLoop cfg acqNum bs c c.procsBlk ⟨[], offset, errs⟩).1.procsOffset = if bs = [] then c.procsOffset else 0 := by
  induction bs generalizing c offset errs with
  | nil => exact ⟨rfl, rfl⟩
  | cons b bs ih =>
    rcases @secLoop_cons cfg acqNum b ⟨[], offset, errs⟩ _ rfl bs c c.procsBlk with ⟨hsame, heq⟩ | ⟨hmore, -⟩
    · have hmsgs := List.length_eq_zero_iff.mp hsame
      rw [heq, hmsgs] at hnil
      rw [heq, hmsgs, List.length_cons, if_neg (List.cons_ne_nil _ _)]
      obtain ⟨hblk, hoff⟩ := ih { c with procsBlk := c.procsBlk + 1, procsOffset := 0 } 0 hnil
      refine ⟨hblk.trans ?_, hoff.trans ?_⟩
      · show c.procsBlk + 1 + bs.length = c.procsBlk + (bs.length + 1)
        omega
      · exact ite_self 0
    · exact absurd hnil (secLoop_ne_nil hmore)

/-- A queue of one block gives a message only where that block is not read to its end. -/
theorem secLoop_one (b : Block) (c : Chan) (hend : b.data.length ≤ offset) :
    (secLoop cfg acqNum [b] c c.procsBlk ⟨[], offset, errs⟩).2.2.msgs = [] := by
  have hparse : parseSection cfg acqNum b.startAddr b.data b.data.length ⟨[], offset, errs⟩ = ⟨[], offset, errs⟩ := by
    rw [parseSection]
    exact if_pos hend
  rw [secLoop, hparse]
  rfl

/-- **A peek over a quiet queue.** -/
theorem secLoop_quiet {tail : List Block} (bs : List Block) (c : Chan)
    (hq : quiet cfg errs (bs ++ tail) c.procsOffset = true) :
    (secLoop cfg 1 bs c c.procsBlk ⟨[], c.procsOffset, errs⟩).2.2.errs = errs ∧
    ((secLoop cfg 1 bs c c.procsBlk ⟨[], c.procsOffset, errs⟩).2.2.msgs = [] →
      quiet cfg errs tail (secLoop cfg 1 bs c c.procsBlk ⟨[], c.procsOffset, errs⟩).1.procsOffset = true) := by
  induction bs generalizing c with
  | nil => exact ⟨rfl, fun _ => hq⟩
  | cons b bs ih =>
    obtain ⟨herrs, hrest⟩ := quiet_cons hq
    rcases @secLoop_cons cfg 1 b ⟨[], c.procsOffset, errs⟩ _ rfl bs c c.procsBlk with
      ⟨hsame, heq⟩ | ⟨hmore, w', q', -, -, hmsgs, herrs', heq⟩
    · have hnone := List.length_eq_zero_iff.mp hsame
      rw [heq, hnone, herrs]
      exact ih { c with procsBlk := c.procsBlk + 1, procsOffset := 0 } (hrest hnone)
    · rw [heq, if_pos (show 1 ≤ _ from hmore)]
      refine ⟨herrs'.trans herrs, fun hnil => ?_⟩
      rw [← hmsgs, hnil] at hmore
      cases hmore

theorem readToMsgBuffer_le (acqNum : Nat) (hle : c.procsBlk ≤ h.closed.length) :
    (readToMsgBuffer cfg acqNum h c).1.procsBlk ≤ h.closed.length := by
  have hboth :=
    @secLoop_le cfg acqNum (h.closed.drop c.procsBlk) c c.procsBlk ⟨[], c.procsOffset, c.errs⟩ (Nat.le_refl _)
  rw [List.length_drop, Nat.add_sub_cancel' hle] at hboth
  unfold readToMsgBuffer
  dsimp only
  split_ifs
  · exact hboth.2
  · exact hboth.1

theorem readToMsgBuffer_eq_nil (hnil : (readToMsgBuffer cfg acqNum h c).2 = []) :
    (secLoop cfg acqNum (h.closed.drop c.procsBlk) c c.procsBlk ⟨[], c.procsOffset, c.errs⟩).2.2.msgs = [] ∧
    (readToMsgBuffer cfg acqNum h c).1.procsBlk =
      (secLoop cfg acqNum (h.closed.drop c.procsBlk) c c.procsBlk ⟨[], c.procsOffset, c.errs⟩).1.procsBlk ∧
    (readToMsgBuffer cfg acqNum h c).1.procsOffset =
      (secLoop cfg acqNum (h.closed.drop c.procsBlk) c c.procsBlk ⟨[], c.procsOffset, c.errs⟩).1.procsOffset := by
  unfold readToMsgBuffer at hnil ⊢
  dsimp only at hnil ⊢
  split_ifs at hnil ⊢ with hmsgs
  · exact absurd hnil hmsgs
  · exact ⟨not_not.mp hmsgs, rfl, rfl⟩

/-- Where the queue gives no message, the reader is at its end. -/
theorem readToMsgBuffer_nothing (hle : c.procsBlk ≤ h.closed.length) (hnil : (readToMsgBuffer cfg acqNum h c).2 = []) :
    (readToMsgBuffer cfg acqNum h c).1.procsBlk = h.closed.length ∧
    (readToMsgBuffer cfg acqNum h c).1.procsOffset = if c.procsBlk = h.closed.length then c.procsOffset else 0 := by
  obtain ⟨hloop, hblk, hoff⟩ := readToMsgBuffer_eq_nil hnil
  obtain ⟨hblk', hoff'⟩ := secLoop_nothing (h.closed.drop c.procsBlk) c c.procsOffset hloop
  rw [List.length_drop, Nat.add_sub_cancel' hle] at hblk'
  refine ⟨hblk.trans hblk', (hoff.trans hoff').trans ?_⟩
  by_cases hend : c.procsBlk = h.closed.length
  · rw [if_pos hend]
    exact if_pos (List.drop_eq_nil_of_le (Nat.le_of_eq hend.symm))
  · rw [if_neg hend]
    apply if_neg
    apply List.ne_nil_of_length_pos
    rw [List.length_drop]
    omega

/-- Where it gives some, there is a block that is not read to its end. -/
theorem readToMsgBuffer_some (hmsgs : (readToMsgBuffer cfg acqNum h c).2 ≠ []) :
    c.procsBlk < h.closed.length ∧
    (h.closed.length = c.procsBlk + 1 → c.procsOffset < (h.closed.getD c.procsBlk noBlock).data.length) := by
  have hloop : (secLoop cfg acqNum (h.closed.drop c.procsBlk) c c.procsBlk ⟨[], c.procsOffset, c.errs⟩).2.2.msgs ≠
      [] := by
    intro hnil
    apply hmsgs
    unfold readToMsgBuffer
    exact congrArg Prod.snd (if_neg (not_not.mpr hnil))
  have hlt : c.procsBlk < h.closed.length := by
    by_contra hge
    rw [List.drop_eq_nil_of_le (Nat.le_of_not_lt hge)] at hloop
    exact hloop rfl
  refine ⟨hlt, fun hlast => ?_⟩
  by_contra hend
  have hdrop : h.closed.drop c.procsBlk = [h.closed.getD c.procsBlk noBlock] := by
    rw [List.drop_eq_getElem_cons hlt, List.drop_eq_nil_of_le (Nat.le_of_eq hlast), List.getD_eq_getElem?_getD,
      List.getElem?_eq_getElem hlt, Option.getD_some]
  rw [hdrop] at hloop
  exact hloop (secLoop_one _ c (Nat.le_of_not_lt hend))

/-- **What a call without a time to wait returns**: what is in the queue, or what is in the current block. -/
theorem readSec_still (hle : c.procsBlk ≤ h.closed.length) (hmsgs : (readSec cfg acqNum (fun _ => h) c).2 ≠ []) :
    (readToMsgBuffer cfg acqNum h c).2 ≠ [] ∨
    (if c.procsBlk = h.closed.length then c.procsOffset else 0) < getCurEopaddr h h := by
  by_cases hnil : (readToMsgBuffer cfg acqNum h c).2 = []
  · right
    obtain ⟨hblk, hoff⟩ := readToMsgBuffer_nothing hle hnil
    rw [← hoff]
    by_contra hend
    apply hmsgs
    unfold readSec
    dsimp only
    rw [if_neg (not_not.mpr hnil), getCurSAddr, if_pos hblk.symm]
    split_ifs
    · rfl
    · show (parseSection cfg acqNum h.cur.startAddr h.cur.data (getCurEopaddr h h) ⟨[], _, _⟩).msgs = []
      rw [parseSection, if_pos (Nat.le_of_not_lt hend)]
  · exact Or.inl hnil

/-- **A peek over quiet blocks leaves the error list as it is.** -/
theorem readSec_quiet (hle : c.procsBlk ≤ h.closed.length)
    (hq : quiet cfg c.errs (h.blocks.drop c.procsBlk) c.procsOffset = true) :
    (readSec cfg 1 (fun _ => h) c).1.errs = c.errs := by
  rw [Hw.blocks, List.drop_append_of_le_length hle] at hq
  obtain ⟨herrs, hrest⟩ := secLoop_quiet (h.closed.drop c.procsBlk) c hq
  have hread : (readToMsgBuffer cfg 1 h c).1.errs = c.errs := by
    unfold readToMsgBuffer
    dsimp only
    split_ifs
    · exact herrs
    · exact herrs
  by_cases hnil : (readToMsgBuffer cfg 1 h c).2 = []
  · have hblk := (readToMsgBuffer_nothing hle hnil).1
    obtain ⟨hloop, -, hoff⟩ := readToMsgBuffer_eq_nil hnil
    have hcur := hrest hloop
    rw [← hoff] at hcur
    unfold readSec
    dsimp only
    rw [if_neg (not_not.mpr hnil), getCurSAddr, if_pos hblk.symm]
    split_ifs
    · exact hread
    · show (parseSection cfg 1 h.cur.startAddr h.cur.data (getCurEopaddr h h)
        ⟨[], (readToMsgBuffer cfg 1 h c).1.procsOffset, (readToMsgBuffer cfg 1 h c).1.errs⟩).errs = c.errs
      rw [hread, getCurEopaddr]
      cases hv : h.valid with
      | true =>
        rw [hv] at hcur
        exact (quiet_cons hcur).1
      | false =>
        -- there is no current block
        rw [parseSection]
        exact congrArg Parse.errs (if_pos (Nat.zero_le _))
  · unfold readSec
    dsimp only
    rw [if_pos hnil]
    exact hread

end Section

namespace Release

open Section

variable {cfg : Config} {h : Hw} {r : Nat}

/-! ## The pointers of the queue -/

theorem grow_hwRun (cfg : Config) (r : Nat) (h : Hw) (es : List HwEvent) :
    h.closed.length ≤ (hwRun cfg r h es).closed.length := by
  induction es generalizing h with
  | nil => exact Nat.le_refl _
  | cons e es ih =>
    apply Nat.le_trans _ (ih (if can cfg r h e then h.next e else h))
    split_ifs
    · exact (grow_next h e).closed
    · exact Nat.le_refl _

/-- The hardware leaves a place of the queue free. -/
theorem hwRun_room (es : List HwEvent) (hroom : r < h.closed.length → h.closed.length - r < cfg.oqDepth) :
    r < (hwRun cfg r h es).closed.length → (hwRun cfg r h es).closed.length - r < cfg.oqDepth := by
  induction es generalizing h with
  | nil => exact hroom
  | cons e es ih =>
    apply @ih (if can cfg r h e then h.next e else h)
    split_ifs with hcan
    · rcases next_cases h e with heq | ⟨a, -, -, heq⟩ | ⟨sec, -, -, -, heq⟩ | ⟨rfl, -, heq⟩
      · rwa [heq]
      · rwa [heq]
      · rwa [heq]
      · intro _
        have hlen : (h.next .close).closed.length = h.closed.length + 1 := by
          rw [heq]
          exact List.length_append
        rw [hlen]
        exact hcan.2
    · exact hroom

theorem readAt_mono (between : List (List HwEvent)) {i k : Nat} (hik : i ≤ k) :
    (readAt cfg r h between i).closed.length ≤ (readAt cfg r h between k).closed.length := by
  have hsplit : between.take (k + 1) = between.take (i + 1) ++ (between.drop (i + 1)).take (k - i) := by
    rw [← List.take_add]
    congr 1
    omega
  rw [readAt, readAt, hsplit, List.flatten_append, hwRun_append]
  exact grow_hwRun cfg r _ _

theorem readAt_last (between : List (List HwEvent)) (i : Nat) :
    (readAt cfg r h between i).closed.length ≤ (hwRun cfg r h between.flatten).closed.length := by
  have hsplit : between.flatten = (between.take (i + 1)).flatten ++ (between.drop (i + 1)).flatten := by
    rw [← List.flatten_append, List.take_append_drop]
  rw [readAt, hsplit, hwRun_append]
  exact grow_hwRun cfg r _ _

/-- **A walk stays within the queue**, whatever messages it is for. -/
theorem walk_le {read fuel write : Nat} {msgs : List Msg} {w w' : Walk}
    (hmono : ∀ i k, i ≤ k → (g i).closed.length ≤ (g k).closed.length) (hlast : ∀ i, (g i).closed.length ≤ n)
    (hwrite : write ≤ (g 0).closed.length) (hle : w.releaseBlk ≤ write)
    (hwalk : walk cfg read fuel g write msgs w = .ok w') :
    w.releaseBlk ≤ w'.releaseBlk ∧ w'.releaseBlk ≤ n := by
  induction fuel generalizing g write msgs w with
  | zero =>
    obtain rfl := Except.ok.inj hwalk
    exact ⟨Nat.le_refl _, Nat.le_trans hle (Nat.le_trans hwrite (hlast 0))⟩
  | succ fuel ih =>
    have hstay : w.releaseBlk ≤ n := Nat.le_trans hle (Nat.le_trans hwrite (hlast 0))
    rw [walk] at hwalk
    split_ifs at hwalk with hend
    · obtain rfl := Except.ok.inj hwalk
      exact ⟨Nat.le_refl _, hstay⟩
    · have hlt : w.releaseBlk + 1 ≤ write := by omega
      have hnext : w.releaseBlk + 1 ≤ (lookAhead w.errs g read (w.releaseBlk + 1) write).2 ∧
          (lookAhead w.errs g read (w.releaseBlk + 1) write).2 ≤ (g 1).closed.length := by
        have h01 := hmono 0 1 (Nat.zero_le _)
        unfold lookAhead
        split
        · dsimp only
          split_ifs
          · exact ⟨by dsimp only; omega, Nat.le_refl _⟩
          · split
            · exact ⟨by dsimp only; omega, Nat.le_refl _⟩
            · exact ⟨by dsimp only; omega, Nat.le_refl _⟩
        · exact ⟨hlt, Nat.le_trans hwrite h01⟩
      -- a round that goes on is behind the block
      have hgo : ∀ ms w₁, w₁.releaseBlk = w.releaseBlk + 1 →
          walk cfg read fuel (fun i => g (i + 3)) (lookAhead w.errs g read (w.releaseBlk + 1) write).2 ms w₁ = .ok w' →
          w.releaseBlk ≤ w'.releaseBlk ∧ w'.releaseBlk ≤ n := by
        intro ms w₁ hw₁ hrest
        have hboth := ih (fun i k hik => hmono (i + 3) (k + 3) (Nat.add_le_add_right hik 3)) (fun i => hlast (i + 3))
          (Nat.le_trans hnext.2 (hmono 1 3 (by omega))) (hw₁ ▸ hnext.1) hrest
        exact ⟨by omega, hboth.2⟩
      dsimp only at hwalk
      split at hwalk
      · obtain rfl := Except.ok.inj hwalk
        exact ⟨Nat.le_refl _, hstay⟩
      · obtain rfl := Except.ok.inj hwalk
        have hn := Nat.le_trans hwrite (hlast 0)
        exact ⟨Nat.le_succ _, Nat.le_trans hlt hn⟩
      · exact hgo _ _ rfl hwalk
      · exact hgo _ _ rfl hwalk
      · cases hwalk

end Release

namespace DataFlag

open Section

/-! ## Section and post channels -/

section Sec

variable {cfg : Release.Config} {s t : SecChan}

/-- The pointers of the queue. -/
structure Placed (cfg : Release.Config) (s : SecChan) : Prop where
  read : s.read ≤ s.hw.closed.length
  room : s.read < s.hw.closed.length → s.hw.closed.length - s.read < cfg.oqDepth
  procs : s.chan.procsBlk ≤ s.hw.closed.length

/-- **The reader is not behind the queue.** Where it stands in the block before, it stands behind its data, and what it
    stands on is not taken for the end of the current block. -/
def Level (cfg : Release.Config) (s : SecChan) : Prop :=
  s.read ≤ s.chan.procsBlk ∨
  s.chan.procsBlk + 1 = s.read ∧ (s.hw.closed.getD s.chan.procsBlk noBlock).data.length ≤ s.chan.procsOffset ∧
    s.hw.closed.length - s.chan.procsBlk < cfg.oqDepth ∧
    (s.hw.closed.length = s.read → getCurEopaddr s.hw s.hw ≠ s.chan.procsOffset)

/-- The flag, where there are blocks in the queue that the reader has not seen. -/
theorem flag_of_queue (hread : s.read < s.hw.closed.length) (hroom : s.hw.closed.length - s.read < cfg.oqDepth)
    (hprocs : s.chan.procsBlk < s.hw.closed.length) (hnear : s.hw.closed.length - s.chan.procsBlk < cfg.oqDepth)
    (hdata : s.hw.closed.length = s.chan.procsBlk + 1 →
      s.chan.procsOffset < (s.hw.closed.getD s.chan.procsBlk noBlock).data.length ∨ getCurEopaddr s.hw s.hw ≠ 0) :
    s.getChnDataFlag cfg = true := by
  have hboth : s.read % cfg.oqDepth ≠ s.hw.closed.length % cfg.oqDepth ∧
      s.hw.closed.length % cfg.oqDepth ≠ s.chan.procsBlk % cfg.oqDepth :=
    ⟨Lib.cell_ne hread (by omega), (Lib.cell_ne hprocs (by omega)).symm⟩
  unfold SecChan.getChnDataFlag
  dsimp only
  rw [if_pos hboth, Nat.mod_add_mod]
  split_ifs with hone
  · have hlast : s.hw.closed.length = s.chan.procsBlk + 1 := by
      by_contra hne
      exact Lib.cell_ne (by omega) (by omega) hone.symm
    rw [Bool.or_eq_true]
    apply Or.inl
    rw [Bool.or_eq_true, decide_eq_true_eq, decide_eq_true_eq]
    exact hdata hlast
  · rfl

/-- **The flag hides nothing** from a reader that is not behind. -/
theorem flag_of_read {acqNum : Nat} (hp : Placed cfg s) (hlevel : Level cfg s)
    (hmsgs : (s.readDataRequset cfg acqNum).2 ≠ []) : s.getChnDataFlag cfg = true := by
  have hend : getCurEopaddr s.hw s.hw ≠ s.chan.procsOffset → getCurEopaddr s.hw s.hw ≠ 0 →
      s.getChnDataFlag cfg = true := by
    intro hne hpos
    unfold SecChan.getChnDataFlag
    rw [Bool.or_eq_true]
    apply Or.inr
    rw [Bool.and_eq_true, decide_eq_true_eq, decide_eq_true_eq]
    exact ⟨hne, hpos⟩
  have hfrom := readSec_still hp.procs hmsgs
  by_cases hcur : s.chan.procsBlk = s.hw.closed.length
  · -- the reader is in the current block
    rcases hfrom with hqueue | hblock
    · have hlt := (readToMsgBuffer_some hqueue).1
      omega
    · rw [if_pos hcur] at hblock
      exact hend (by omega) (by omega)
  · rw [if_neg hcur] at hfrom
    have hprocs : s.chan.procsBlk < s.hw.closed.length := Nat.lt_of_le_of_ne hp.procs hcur
    have hdata : s.hw.closed.length = s.chan.procsBlk + 1 →
        s.chan.procsOffset < (s.hw.closed.getD s.chan.procsBlk noBlock).data.length ∨ getCurEopaddr s.hw s.hw ≠ 0 := by
      intro hlast
      rcases hfrom with hqueue | hblock
      · exact Or.inl ((readToMsgBuffer_some hqueue).2 hlast)
      · exact Or.inr (Nat.ne_of_gt hblock)
    rcases hlevel with hle | ⟨hbehind, hover, hnear, hstale⟩
    · have hroom := hp.room (Nat.lt_of_le_of_lt hle hprocs)
      exact flag_of_queue (Nat.lt_of_le_of_lt hle hprocs) hroom hprocs (by omega) hdata
    · by_cases hempty : s.hw.closed.length = s.read
      · -- the queue is empty, and the reader is at the end of the block that was given back last
        rcases hdata (by omega) with hmore | heop
        · omega
        · exact hend (hstale hempty) heop
      · have hread : s.read < s.hw.closed.length := Nat.lt_of_le_of_ne hp.read (Ne.symm hempty)
        exact flag_of_queue hread (hp.room hread) hprocs hnear hdata

theorem Placed.hw (hp : Placed cfg s) (es : List HwEvent) : Placed cfg
    { s with hw := Release.hwRun cfg s.read s.hw es } :=
  ⟨Nat.le_trans hp.read (Release.grow_hwRun cfg s.read s.hw es), Release.hwRun_room es hp.room,
    Nat.le_trans hp.procs (Release.grow_hwRun cfg s.read s.hw es)⟩

/-- A call for data moves the reader within the queue. -/
theorem readSec_le {acqNum : Nat} {c : Chan} (hlast : ∀ i, (g i).closed.length ≤ n)
    (hmono : ∀ i k, i ≤ k → (g i).closed.length ≤ (g k).closed.length) (hle : c.procsBlk ≤ (g 0).closed.length) :
    (readSec cfg.toConfig acqNum g c).1.procsBlk ≤ n := by
  have hfirst := @readToMsgBuffer_le cfg.toConfig c (g 2) acqNum (Nat.le_trans hle (hmono 0 2 (by omega)))
  unfold readSec getCurSAddr
  dsimp only
  split_ifs with hmsgs hend hcur
  · exact Nat.le_trans hfirst (hlast 2)
  · exact Nat.le_trans hfirst (hlast 2)
  · exact Nat.le_trans hfirst (hlast 2)
  · exact Nat.le_trans (readToMsgBuffer_le acqNum (Nat.le_trans hfirst (hmono 2 7 (by omega)))) (hlast 7)

/-- **The pointers stay in order**, in every call. -/
theorem Placed.call {c : SecCall} {es : List Release.Event} (hp : Placed cfg s) (hcall : s.call cfg c = some (t, es)) :
    Placed cfg t := by
  cases c with
  | hw e =>
    cases hcall
    exact hp.hw [e]
  | others errs =>
    unfold SecChan.call Release.step at hcall
    dsimp only at hcall
    split_ifs at hcall
    · cases hcall
      exact ⟨hp.read, hp.room, hp.procs⟩
    · cases hcall
  | read acqNum between =>
    unfold SecChan.call Release.step at hcall
    dsimp only at hcall
    split_ifs at hcall
    · cases hcall
      exact hp
    · cases hcall
      have hgo := hp.hw between.flatten
      refine ⟨hgo.read, hgo.room, ?_⟩
      exact readSec_le (Release.readAt_last between) (fun _ _ => Release.readAt_mono between)
        (Nat.le_trans hp.procs (Release.grow_hwRun cfg s.read s.hw _))
  | release msgs fqWrite between =>
    unfold SecChan.call Release.step at hcall
    dsimp only at hcall
    have hgo := hp.hw between.flatten
    split at hcall
    · rename_i w hwalk
      split_ifs at hcall
      · cases hcall
        obtain ⟨hle, hcl⟩ := Release.walk_le (fun i k hik => Release.readAt_mono between (Nat.add_le_add_right hik 1))
          (fun i => Release.readAt_last between (i + 1)) (Release.readAt_mono between (Nat.zero_le 1))
          (Nat.le_trans hp.read (Release.grow_hwRun cfg s.read s.hw _)) hwalk
        refine ⟨hcl, fun hlt => ?_, ?_⟩
        · have hroom := hgo.room
          dsimp only at hle hroom hlt ⊢
          omega
        · show (Release.checkProcs cfg w.releaseBlk w.pAddr.length fqWrite { s.chan with errs := w.errs }).procsBlk ≤ _
          unfold Release.checkProcs
          split_ifs
          · exact hcl
          · exact hgo.procs
      · cases hcall
        exact hgo
    · split_ifs at hcall
      · cases hcall
        exact ⟨Nat.le_refl _, fun hlt => absurd hlt (Nat.lt_irrefl _), Nat.le_refl _⟩
      · cases hcall
        exact hgo

/-- A peek over quiet blocks changes nothing. -/
theorem peek_quiet (hp : Placed cfg s)
    (hq : quiet cfg.toConfig s.chan.errs (s.hw.blocks.drop s.chan.procsBlk) s.chan.procsOffset = true) :
    (s.peekDataRequest cfg).1 = s := by
  unfold SecChan.peekDataRequest
  split_ifs
  · have herrs : (s.readDataRequset cfg 1).1.errs = s.chan.errs := readSec_quiet hp.procs hq
    dsimp only
    rw [herrs]
  · rfl

end Sec

/-! ## PES channels -/

section Pes

open Pes

variable {maxSize acqNum : Nat} {s : PesChan}

/-- The search meets a block with DROP before it comes to its end. -/
def meetsDrop (maxSize acqNum : Nat) : List Desc → Scan → Bool
  | [], _ => false
  | d :: ds, l =>
    match l.onSop d with
    | .inl _ => false
    | .inr l =>
      d.drop ||
        match l.onData d with
        | .inl _ => false
        | .inr l => !l.full maxSize acqNum && meetsDrop maxSize acqNum ds l

theorem onSop_released (l : Scan) (d : Desc) : (l.onSop d).elim Found.released Scan.released = l.released := by
  unfold Scan.onSop
  split_ifs <;> rfl

theorem onData_released (l : Scan) (d : Desc) : (l.onData d).elim Found.released Scan.released = l.released := by
  unfold Scan.onData
  dsimp only
  split
  · rfl
  · rfl

/-- **A search that meets no block with DROP gives nothing back.** -/
theorem loop_released (ds : List Desc) (l : Scan) (h : meetsDrop maxSize acqNum ds l = false) :
    (Scan.loop maxSize acqNum ds l).released = l.released := by
  have hfinish : ∀ l : Scan, (l.finish maxSize acqNum).released = l.released := by
    intro l
    unfold Scan.finish
    split_ifs <;> rfl
  induction ds generalizing l with
  | nil => exact hfinish l
  | cons d ds ih =>
    have hsame := onSop_released l d
    rw [Scan.loop]
    rw [meetsDrop] at h
    cases hsop : l.onSop d with
    | inl r =>
      rw [hsop] at hsame
      exact hsame
    | inr l₁ =>
      have hsame' := onData_released l₁ d
      rw [hsop] at hsame
      simp only [hsop, Bool.or_eq_false_iff] at h
      simp only [h.1, Bool.false_eq_true, if_false]
      cases hdata : l₁.onData d with
      | inl r =>
        rw [hdata] at hsame'
        exact hsame'.trans hsame
      | inr l₂ =>
        rw [hdata] at hsame'
        simp only [hdata, Bool.and_eq_false_iff, Bool.not_eq_false'] at h
        dsimp only
        split_ifs with hfull
        · exact (hfinish l₂).trans (hsame'.trans hsame)
        · rcases h.2 with hf | hrest
          · exact absurd hf hfull
          · exact (ih l₂ hrest).trans (hsame'.trans hsame)

/-- **A search for fewer messages finds some where one for more does.** -/
theorem loop_fewer (ds : List Desc) (l : Scan) (h : (Scan.loop maxSize maxSize ds l).ret.isSome = true) :
    (Scan.loop maxSize acqNum ds l).ret.isSome = true := by
  have hfinish : ∀ l : Scan, l.full maxSize acqNum = true → (l.finish maxSize acqNum).ret.isSome = true := by
    intro l hl
    rw [Scan.finish, if_pos hl]
    rfl
  have hfull : ∀ l : Scan, l.full maxSize maxSize = true → l.full maxSize acqNum = true := by
    intro l hl
    unfold Scan.full at hl ⊢
    rw [Bool.or_self] at hl
    rw [hl, Bool.true_or]
  induction ds generalizing l with
  | nil =>
    apply hfinish
    apply hfull
    rw [Scan.loop, Scan.finish] at h
    split_ifs at h with hl
    · exact hl
    · cases h
  | cons d ds ih =>
    rw [Scan.loop] at h ⊢
    cases hsop : l.onSop d with
    | inl r =>
      rw [hsop] at h
      exact h
    | inr l₁ =>
      rw [hsop] at h
      dsimp only at h ⊢
      split_ifs at h ⊢
      · exact h
      · exact ih _ h
      · cases hdata : l₁.onData d with
        | inl r =>
          rw [hdata] at h
          exact h
        | inr l₂ =>
          rw [hdata] at h
          dsimp only at h ⊢
          by_cases hless : l₂.full maxSize acqNum = true
          · rw [if_pos hless]
            exact hfinish l₂ hless
          · rw [if_neg hless]
            rw [if_neg (fun hmore => hless (hfull l₂ hmore))] at h
            exact ih l₂ h

/-- Nothing is found in an empty queue. -/
theorem ne_nil_of_found (hpos : 0 < maxSize) (h : (s.readDataRequset maxSize).2.isSome = true) : s.oq ≠ [] := by
  intro hnil
  have hnone : (s.readDataRequset maxSize).2 = none := by
    unfold PesChan.readDataRequset findPes
    rw [hnil, Scan.loop, Scan.finish, if_neg]
    unfold Scan.full Scan.start
    simp only [List.length_nil, Bool.or_self, decide_eq_true_eq]
    omega
  rw [hnone] at h
  cases h

/-- **The flag hides nothing.** -/
theorem flag_of_found (hpos : 0 < maxSize) (h : (s.readDataRequset maxSize).2.isSome = true) :
    (s.getChnDataFlag maxSize).2 = true := by
  unfold PesChan.getChnDataFlag
  rw [if_neg (ne_nil_of_found hpos h)]
  exact loop_fewer s.oq (.start s.chan) h

theorem search_same (h : meetsDrop maxSize 16 s.oq (.start s.chan) = false) : (s.search maxSize).1 = s := by
  have hzero : (findPes maxSize 16 s.oq s.chan).released = 0 := loop_released s.oq (.start s.chan) h
  unfold PesChan.search
  simp only [hzero, List.drop_zero, ne_eq, not_true, if_false]

theorem flag_same (h : meetsDrop maxSize 16 s.oq (.start s.chan) = false) : (s.getChnDataFlag maxSize).1 = s := by
  unfold PesChan.getChnDataFlag
  split_ifs
  · rfl
  · exact search_same h

theorem peek_same (h : meetsDrop maxSize 16 s.oq (.start s.chan) = false) : (s.peekDataRequest maxSize).1 = s := by
  unfold PesChan.peekDataRequest
  dsimp only
  rw [flag_same h]
  split_ifs
  · exact search_same h
  · rfl

end Pes

/-! ## Runs -/

/-- The call, where the input is one. -/
def Input.call? : Input → Option Call
  | .call c => some c
  | _ => none

def Event.call? : Event → Option Shown
  | .call e => some e
  | _ => none

/-- **When a question changes nothing**: a peek of a section or post channel leaves the error list as it is, and a
    search of a PES channel meets no block with DROP. -/
def Calm (cfg : Config) : Sys → Input → Prop
  | .sec s, .peek => quiet cfg.sec.toConfig s.chan.errs (s.hw.blocks.drop s.chan.procsBlk) s.chan.procsOffset = true
  | .pes s, .flag | .pes s, .peek => meetsDrop cfg.pesMaxSize 16 s.oq (.start s.chan) = false
  | _, _ => True

/-- The flag of this state is asked for at the right time. -/
def Timely (cfg : Config) : Sys → Prop
  | .sec s => Level cfg.sec s
  | .pes _ => True

/-- The pointers of a section channel. -/
def Inv (cfg : Config) : Sys → Prop
  | .sec s => Placed cfg.sec s
  | .pes _ => True

variable {cfg : Config} {s t s₀ : Sys}

theorem inv_call {c : Call} {es : List Shown} (hi : Inv cfg s) (hcall : call cfg s c = some (t, es)) : Inv cfg t := by
  match s, c with
  | .sec s, .sec c =>
    rw [call, Option.map_eq_some_iff] at hcall
    obtain ⟨r, hr, heq⟩ := hcall
    obtain ⟨rfl, rfl⟩ := Prod.mk.inj heq
    exact Placed.call hi hr
  | .pes s, .pes c =>
    cases hcall
    exact trivial
  | .sec _, .pes _ => cases hcall
  | .pes _, .sec _ => cases hcall

/-- A question leaves the channel as it is. -/
theorem question_same {i : Input} (hi : Inv cfg s) (hcalm : Calm cfg s i) (hask : i.call? = none)
    (hstep : step cfg s i = some (t, es)) : t = s ∧ es.filterMap Event.call? = [] := by
  match s, i with
  | _, .call c => cases hask
  | .sec s, .flag =>
    cases hstep
    exact ⟨rfl, rfl⟩
  | .sec s, .peek =>
    cases hstep
    exact ⟨congrArg Sys.sec (peek_quiet hi hcalm), rfl⟩
  | .pes s, .flag =>
    cases hstep
    exact ⟨congrArg Sys.pes (flag_same hcalm), rfl⟩
  | .pes s, .peek =>
    cases hstep
    exact ⟨congrArg Sys.pes (peek_same hcalm), rfl⟩

theorem run_inv {is : List Input} (h₀ : s₀ = secInit ∨ s₀ = pesInit)
    (hrun : Lib.Run (step cfg) (Calm cfg) s₀ is s es) : Inv cfg s := by
  refine Lib.Run.inv (fun _ => Inv cfg) ?_ ?_ hrun
  · rcases h₀ with rfl | rfl
    · exact ⟨Nat.le_refl _, fun hlt => absurd hlt (Nat.lt_irrefl _), Nat.le_refl _⟩
    · exact trivial
  · intro _ s i t fs hi hcalm hstep
    cases hask : i.call? with
    | none =>
      rw [(question_same hi hcalm hask hstep).1]
      exact hi
    | some c =>
      match i, hask with
      | .call c, rfl =>
        rw [step, Option.map_eq_some_iff] at hstep
        obtain ⟨r, hr, heq⟩ := hstep
        obtain ⟨rfl, rfl⟩ := Prod.mk.inj heq
        exact inv_call hi hr

theorem filterMap_call (es : List Shown) : (es.map Event.call).filterMap Event.call? = es := by
  rw [List.filterMap_map]
  exact List.filterMap_some

/-- **A question hides nothing and changes nothing.** In every state that a run with the condition reaches: where a call
    would return a message, the flag says so, unless the reader is behind the queue; and the run without the questions
    reaches the same state, and its calls return the same. -/
theorem run_questions (cfg : Config) {s₀ s : Sys} {is : List Input} {es : List Event} (h₀ : s₀ = secInit ∨ s₀ = pesInit)
    (hrun : Lib.Run (step cfg) (Calm cfg) s₀ is s es) :
    (Timely cfg s → ∀ acqNum, 0 < acqedNum cfg acqNum s → (getChnDataFlag cfg s).2 = true) ∧
    Lib.Run (call cfg) Lib.always s₀ (is.filterMap Input.call?) s (es.filterMap Event.call?) := by
  constructor
  · intro htimely acqNum hpos
    have hi := run_inv h₀ hrun
    cases s with
    | sec s => exact flag_of_read hi htimely (List.length_pos_iff.mp hpos)
    | pes s =>
      apply flag_of_found cfg.pesMaxSize_pos
      cases hret : (s.readDataRequset cfg.pesMaxSize).2 with
      | some ms => rfl
      | none =>
        simp only [acqedNum, hret, Option.getD_none, List.length_nil, Nat.lt_irrefl] at hpos
  · refine hrun.erase Input.call? Event.call? (run_inv h₀) ?_
    intro s i t fs hi hcalm hstep
    match i with
    | .call c =>
      rw [step, Option.map_eq_some_iff] at hstep
      obtain ⟨⟨u, es⟩, hr, heq⟩ := hstep
      obtain ⟨rfl, rfl⟩ := Prod.mk.inj heq
      refine Or.inl ⟨c, rfl, ?_⟩
      rw [filterMap_call]
      exact hr
    | .flag => exact Or.inr ⟨rfl, question_same hi hcalm rfl hstep⟩
    | .peek => exact Or.inr ⟨rfl, question_same hi hcalm rfl hstep⟩

instance calmDecidable (cfg : Config) : (s : Sys) → (i : Input) → Decidable (Calm cfg s i)
  | .sec _, .peek => inferInstanceAs (Decidable (_ = true))
  | .pes _, .flag => inferInstanceAs (Decidable (_ = false))
  | .pes _, .peek => inferInstanceAs (Decidable (_ = false))
  | .sec _, .call _ => isTrue trivial
  | .sec _, .flag => isTrue trivial
  | .pes _, .call _ => isTrue trivial

deriving instance DecidableEq for SecChan, PesChan, Sys

/-- A section channel that wants the table 0x40, and a PES channel. -/
def tableCfg : Config := ⟨Release.poolCfg 4, 8, Nat.succ_pos 7⟩

/-- What the hardware does with a section channel. -/
def hw (e : HwEvent) : Input := .call (.sec (.hw e))

def read (acqNum : Nat) : Input := .call (.sec (.read acqNum []))

def release (msgs : List Msg) : Input := .call (.sec (.release msgs 8 []))

/-- A section is asked for, looked at and read. -/
def askedRun : List Input := [hw (.take 0x1000), hw (.append eight), .flag, .peek, read 8, .flag]

/-- The questions do not change what is read: the calls alone get the same section. -/
theorem run_questions_asked :
    ∃ s es, Lib.Run (step tableCfg) (Calm tableCfg) secInit askedRun s es ∧
      es.filterMap Event.call? = [.sec (.acquired [⟨0x1000, 8⟩])] ∧
      Lib.Run (call tableCfg) Lib.always secInit (askedRun.filterMap Input.call?) s (es.filterMap Event.call?) := by
  have hrun : Lib.Run (step tableCfg) (Calm tableCfg) secInit askedRun
      (.sec ⟨⟨[], true, Release.wanted 0x1000⟩, ⟨0, 8, []⟩, 0⟩)
      [.flag true, .peeked true, .call (.sec (.acquired [⟨0x1000, 8⟩])), .flag false] :=
    Lib.run_of_exec (by decide +kernel)
  exact ⟨_, _, hrun, rfl, (run_questions tableCfg (Or.inl rfl) hrun).2⟩

/-- The reader stands at the end of a block that was given back, and the next block has as many data. -/
def hiddenRun : List Input :=
  [hw (.take 0x1000), hw (.append eight), read 8, hw .close, release [⟨0x1000, 8⟩], hw (.take 0x1100),
    hw (.append eight)]

/-- A section that is too short for a CRC. -/
def five : List Byte := [0x40, 0x30, 2, 1, 2]

/-- Blocks with a short section, and with one that is not wanted, behind one that is handed out. -/
def filledRun : List Input :=
  [hw (.take 0x1000), hw (.append eight), hw (.append five), hw .close, hw (.take 0x1100), hw (.append eight),
    hw (.append Release.other), hw .close, hw (.take 0x1200), read 2]

/-- The two messages are given back, and a section comes. -/
def nextRun : List Input := [release [⟨0x1000, 8⟩, ⟨0x1100, 8⟩], hw (.append eight), read 8]

/-- A packet that was cut off, and the rest of it. -/
def cutRun : List Input :=
  [.call (.pes (.arrive ⟨0x1000, 8, true, false, 4⟩)), .call (.pes (.arrive ⟨0x1100, 4, false, true, 0⟩)),
    .call (.pes (.arrive ⟨0x1200, 10, false, false, 0⟩))]

def acquire : Input := .call (.pes .acquire)

/-- **What goes wrong**: a flag that hides a section; a peek after which a release wipes the pool; and a flag after
    which a block is not returned. -/
theorem hidden_and_changed :
    (∃ s es, Lib.Run (step tableCfg) Lib.always secInit hiddenRun s es ∧
      0 < acqedNum tableCfg 8 s ∧ (getChnDataFlag tableCfg s).2 = false) ∧
    (∃ s es t fs, Lib.Run (step tableCfg) Lib.always secInit (filledRun ++ ([.peek] ++ nextRun)) s es ∧
      Lib.Run (step tableCfg) Lib.always secInit (filledRun ++ nextRun) t fs ∧
      es.getLast? = some (.call (.sec (.acquired []))) ∧
      fs.getLast? = some (.call (.sec (.acquired [⟨0x1200, 8⟩])))) ∧
    (∃ s es t fs, Lib.Run (step tableCfg) Lib.always pesInit (cutRun ++ [.flag, acquire]) s es ∧
      Lib.Run (step tableCfg) Lib.always pesInit (cutRun ++ [acquire]) t fs ∧
      es.getLast? = some (.call (.pes (.acquired none))) ∧
      fs.getLast? = some (.call (.pes (.acquired (some [⟨0x1200, 10, .whole⟩]))))) := by
  refine ⟨?_, ?_, ?_⟩
  · refine Lib.exists_run_imp (fun s _ => decide (0 < acqedNum tableCfg 8 s) && !(getChnDataFlag tableCfg s).2)
      (by decide) fun _ _ _ htest => ?_
    rw [Bool.and_eq_true, decide_eq_true_eq, Bool.not_eq_true'] at htest
    exact htest
  · obtain ⟨s, es, hrun, htest⟩ := Lib.exists_run_of_exec (step tableCfg) Lib.always secInit
      (filledRun ++ ([.peek] ++ nextRun)) (fun r => r.2.getLast? = some (.call (.sec (.acquired []))))
      (by decide)
    obtain ⟨t, fs, hrun', htest'⟩ := Lib.exists_run_of_exec (step tableCfg) Lib.always secInit (filledRun ++ nextRun)
      (fun r => r.2.getLast? = some (.call (.sec (.acquired [⟨0x1200, 8⟩])))) (by decide +kernel)
    exact ⟨s, es, t, fs, hrun, hrun', of_decide_eq_true htest, of_decide_eq_true htest'⟩
  · obtain ⟨s, es, hrun, htest⟩ :=
      Lib.exists_run_of_exec (step tableCfg) Lib.always pesInit (cutRun ++ [.flag, acquire])
      (fun r => r.2.getLast? = some (.call (.pes (.acquired none)))) (by decide)
    obtain ⟨t, fs, hrun', htest'⟩ := Lib.exists_run_of_exec (step tableCfg) Lib.always pesInit (cutRun ++ [acquire])
      (fun r => r.2.getLast? = some (.call (.pes (.acquired (some [⟨0x1200, 10, .whole⟩]))))) (by decide)
    exact ⟨s, es, t, fs, hrun, hrun', of_decide_eq_true htest, of_decide_eq_true htest'⟩

end DataFlag
end HiSTB.Demux
