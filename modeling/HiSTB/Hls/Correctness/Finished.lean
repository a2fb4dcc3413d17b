import HiSTB.Hls.Correctness.Choice

/-!
# `Hls.Correctness.Finished` — finished playlists are played to their end

In a session with finished playlists, where every segment opens and is read to its end, the next segment is looked up at
its place in the list of the variant that was chosen, or of the one that was played before.

* `Found` — when the lookup of `load_next` gives the segment;
* `Phase` — how far the session is, and how many parts of calls this takes;
* `run_playsOut` — the segments are opened in order, and then the call returns `AVERROR_EOF`.
-/

namespace HiSTB.Hls.ReadData

open Lib

variable {s t u : State} {a : Answer} {es fs : List Event} {is : List Answer} {i n next : Nat}

variable {index : Int} {m : Nat}

/-! ## Sessions that play -/

/-- Every segment opens and is read to its end, a stream is received, and there is no interrupt. -/
def Answer.Plays (a : Answer) : Prop :=
  a.interrupt = false ∧ a.openRet = .ok ∧ a.keyMemory = true ∧ a.handle = true ∧ a.read ≠ .error ∧ a.rest = .needed
deriving Decidable

/-- The subscript for the variant that was played before, when `hls_next` is too short. -/
def State.oldIndex (s : State) (next : Nat) : Int :=
  int32 ((s.stream next).segStart + s.nextPos - (s.stream s.curStreamSeq).segStart)

/-- **The lookup gives the next segment**: `hls_next` has it, or there is no next one and the lists are left alone, or
    the subscript for the variant before is the place of the segment, and in any case in range. -/
def Found (s : State) (n next : Nat) : Prop :=
  s.nextPos < s.nb next ∨
    (s.nb 0 : Int) ≤ s.nextPos ∧ (s.nb next = 0 ∨ s.curStreamSeq = n) ∨
    0 < s.nb next ∧ s.curStreamSeq ≠ n ∧ 0 ≤ s.oldIndex next ∧ s.oldIndex next < s.nb s.curStreamSeq ∧
      ((s.nb 0 : Int) ≤ s.nextPos ∨ s.oldIndex next = s.nextPos)
deriving Decidable

/-- At `load_next` a variant is chosen, an I-frame list that is read for it leaves `hls_stream[0]` as it is, the numbers
    of its list, up to the next one, are `int`s, and the next segment is found. -/
def Fits (s : State) (a : Answer) : Prop :=
  s.label = .loadNext → ∃ r ∈ s.chosen a, (r.1.stream 0).segStart = (s.stream 0).segStart ∧ r.1.nb 0 = s.nb 0 ∧
    (r.1.stream r.2.2).Ints ∧ IsInt ((r.1.stream r.2.2).segStart + r.1.nextPos) ∧ Found r.1 r.2.1 r.2.2
deriving Decidable

/-! ## The invariant -/

/-- The lists with segments, and the start of `hls_stream[0]`, stay. -/
structure Kept (s t : State) : Prop where
  streamNb : t.streamNb = s.streamNb
  nb : ∀ i, s.nb i ≠ 0 → t.nb i = s.nb i
  start : (t.stream 0).segStart = (s.stream 0).segStart
  finished : (s.stream 0).finished = true → (t.stream 0).finished = true

/-- The segment `k` is the next one to be opened. -/
structure Opening (s : State) (k : Nat) : Prop where
  input : s.input = false
  decrypt : s.decrypt = none
  pos : (s.stream 0).segCur = (s.stream 0).segStart + k
  le : k ≤ s.nb 0
  seat : k < s.nb 0 → ∃ seat, s.curSeg = some seat ∧ seat.pos = k ∧ seat.stream < s.streamNb ∧ k < s.nb seat.stream

/-- The segment `k` is open, or was read to its end. -/
structure Reading (s : State) (k : Nat) : Prop where
  pos : (s.stream 0).segCur = (s.stream 0).segStart + k
  lt : k < s.nb 0

/-- How many segments were opened, and how many parts of calls it takes to come so far, without the reads of data. -/
inductive Phase (s : State) : Nat → Nat → Prop
  | call {k : Nat} (hlabel : s.label = .call) (h : Opening s k) : Phase s k (6 * k)
  | restart {k : Nat} (hlabel : s.label = .restart) (h : Opening s k) : Phase s k (6 * k + 1)
  | reload {k : Nat} (hlabel : s.label = .reload) (h : Opening s k) : Phase s k (6 * k + 2)
  | window {k : Nat} (hlabel : s.label = .window) (h : Opening s k) : Phase s k (6 * k + 3)
  | reopen {k : Nat} (hlabel : s.label = .reopen) (h : Opening s k) (hlt : k < s.nb 0) : Phase s k (6 * k + 4)
  | read {k : Nat} (hlabel : s.label = .read) (h : Reading s k) (hopen : s.input = true ∨ s.decrypt = some true) :
      Phase s (k + 1) (6 * k + 5)
  | callAgain {k : Nat} (hlabel : s.label = .call) (h : Reading s k) (hopen : s.input = true) :
    Phase s (k + 1) (6 * k + 3)
  | restartAgain {k : Nat} (hlabel : s.label = .restart) (h : Reading s k) (hopen : s.input = true) :
    Phase s (k + 1) (6 * k + 4)
  | ended {k : Nat} (hlabel : s.label = .loadNext) (h : Reading s k) (hinput : s.input = false)
    (hdecrypt : s.decrypt = none) :
      Phase s (k + 1) (6 * k + 6)

/-- What one part shows. -/
inductive Outcome (s t : State) (k c : Nat) (fs : List Event) : Prop
  | silent (hphase : Phase t k (c + 1)) (hfs : Subscripts fs)
  | opens (cur start : Int) (seat : Seat) (gs : List Event) (hphase : Phase t (k + 1) (c + 1))
      (hfs : fs = .opens cur start seat :: gs) (hgs : Subscripts gs) (hpos : seat.pos = k)
      (hstream : seat.stream < s.streamNb) (hnb : k < s.nb seat.stream)
  | data (hphase : Phase t k (c - 2)) (hc : 2 ≤ c) (hfs : fs = [.returns .data])
  | eof (hphase : Phase t k (6 * k)) (hk : k = s.nb 0) (hfs : fs = [.returns .eof])

variable {k c : Nat}

namespace Kept

theorem trans (h : Kept s t) (h' : Kept t u) : Kept s u where
  streamNb := h'.streamNb.trans h.streamNb
  nb i hi := (h'.nb i (by rwa [h.nb i hi])).trans (h.nb i hi)
  start := h'.start.trans h.start
  finished hs := h'.finished (h.finished hs)

theorem of_stream (hstream : t.stream = s.stream) (hnb : t.streamNb = s.streamNb) : Kept s t := by
  refine ⟨hnb, fun i _ => ?_, ?_, fun hs => ?_⟩
  · rw [State.nb, hstream]
  · rw [hstream]
  · rwa [hstream]

end Kept

theorem Opening.of_same (h : Opening s k) (hinput : t.input = s.input) (hdecrypt : t.decrypt = s.decrypt)
    (hstream : t.stream = s.stream) (hnb : t.streamNb = s.streamNb) (hseg : t.curSeg = s.curSeg) : Opening t k := by
  refine ⟨hinput.trans h.input, hdecrypt.trans h.decrypt, ?_, ?_, ?_⟩
  · rw [hstream]
    exact h.pos
  · rw [State.nb, hstream]
    exact h.le
  · rw [State.nb, hstream, hseg, hnb]
    intro hlt
    obtain ⟨seat, hs, hpos, hst, hk⟩ := h.seat hlt
    refine ⟨seat, hs, hpos, hst, ?_⟩
    rw [State.nb, hstream]
    exact hk

theorem Reading.of_stream (h : Reading s k) (hstream : t.stream = s.stream) : Reading t k := by
  refine ⟨?_, ?_⟩
  · rw [hstream]
    exact h.pos
  · rw [State.nb, hstream]
    exact h.lt

/-! ## One part -/

theorem Opening.skip (h : Opening s k) : s.skip = s := by
  have hpos := h.pos
  exact if_neg (by omega)

theorem Opening.behind_iff (h : Opening s k) (hints : (s.stream 0).Ints) :
    int32 ((s.stream 0).segStart + s.nb 0) ≤ (s.stream 0).segCur ↔ k = s.nb 0 := by
  have hpos := h.pos
  have hle := h.le
  rw [show int32 ((s.stream 0).segStart + s.nb 0) = (s.stream 0).segStart + s.nb 0 from hints.behind.eq]
  omega

/-- The place of a number of the list. -/
theorem nextPos_eq (hints : (s.stream 0).Ints) (hpos : (s.stream 0).segCur = (s.stream 0).segStart + k)
    (hle : k ≤ s.nb 0) :
    s.nextPos = k := by
  have hnb : (s.nb 0 : Int) < 0x80000000 := hints.nb.2
  rw [State.nextPos, show (s.stream 0).segCur - (s.stream 0).segStart = k by omega]
  exact int32_of_range (by omega) (by omega)

/-- The numbers of `hls_stream[0]` stay `int`s. -/
theorem Kept.ints (h : Kept s t) (hnb : s.nb 0 ≠ 0) (hints : (s.stream 0).Ints) : (t.stream 0).Ints := by
  have hlen : (t.stream 0).segments.length = (s.stream 0).segments.length := h.nb 0 hnb
  refine ⟨?_, ?_, ?_⟩
  · rw [h.start]
    exact hints.start
  · rw [hlen]
    exact hints.nb
  · rw [h.start, hlen]
    exact hints.behind

theorem reload_outcome (hfin : (s.stream 0).finished = true) (hint : a.interrupt = false) :
    s.reload a = some ({ s with label := .window }, []) := by
  have hno : ¬ ((s.stream 0).finished = false ∧ (a.elapsed = true ∨ s.needReload = true)) := by
    rw [hfin]
    exact fun hc => Bool.noConfusion hc.1
  unfold State.reload
  rw [hint, if_neg Bool.false_ne_true, if_neg hno]
  rfl

theorem window_outcome (h : Opening s k) (hints : (s.stream 0).Ints) (hfin : (s.stream 0).finished = true) :
    s.skip.inWindow a = if k = s.nb 0 then s.ret .eof else s.goto .reopen := by
  rw [h.skip]
  unfold State.inWindow
  simp only [h.behind_iff hints, hfin, if_true]

/-- `hlsOpenSegment` for a segment that opens. -/
theorem hlsOpenSegment_plays (hplays : a.Plays) (hpos : 0 ≤ s.nextPos) (hint : IsInt (s.nextPos + 1)) (seat : Seat) :
    ∃ u cur start gs, s.hlsOpenSegment a seat = (u, .ok, .opens cur start seat :: gs) ∧ u.stream = s.stream ∧
      u.streamNb = s.streamNb ∧ u.curStreamSeq = s.curStreamSeq ∧ (u.input = true ∨ u.decrypt = some true) ∧
      Subscripts gs := by
  obtain ⟨-, hok, hmem, hhandle, -, -⟩ := hplays
  unfold State.hlsOpenSegment
  cases seat.keyType with
  | none =>
    rw [hok]
    exact ⟨_, _, _, _, rfl, rfl, rfl, rfl, Or.inl rfl, nextUrl_subscripts (fun _ => ⟨by omega, hint⟩)⟩
  | aes128 =>
    dsimp only
    rw [if_pos hmem, hhandle]
    exact ⟨_, _, _, _, rfl, rfl, rfl, rfl, Or.inr rfl, Subscripts.nil⟩

theorem seat_eq {p : Nat} (hp : index = p) (hlt : p < s.nb i) :
    ∃ seat, s.seat i index = some seat ∧ seat.pos = p ∧ seat.stream = i := by
  subst hp
  unfold State.seat
  rw [if_pos (Int.natCast_nonneg p), Int.toNat_natCast, List.getElem?_eq_getElem hlt]
  exact ⟨_, rfl, rfl, rfl⟩

/-- What the lookup leaves. -/
structure Looked (s u : State) (k : Nat) (gs : List Event) : Prop where
  stream : u.stream = s.stream
  streamNb : u.streamNb = s.streamNb
  input : u.input = s.input
  decrypt : u.decrypt = s.decrypt
  seq : u.curStreamSeq < s.streamNb
  seat : k < s.nb 0 → ∃ seat, u.curSeg = some seat ∧ seat.pos = k ∧ seat.stream < s.streamNb ∧ k < s.nb seat.stream
  subscripts : Subscripts gs

theorem looked_setSeg {b : Bool} (h0 : 0 ≤ index) (hlt : index < s.nb i)
    (hi : i < s.streamNb) (hk : k < s.nb 0 → index = k) (hm : m < s.streamNb) :
    Looked s { ({ s with needReload := b }.setSeg i index).1 with curStreamSeq := m } k
      ({ s with needReload := b }.setSeg i index).2 := by
  refine ⟨rfl, rfl, rfl, rfl, hm, fun hlk => ?_, setSeg_subscripts h0 hlt⟩
  have hindex := hk hlk
  have hklt : k < s.nb i := by omega
  obtain ⟨seat, hseat, hpos, hstream⟩ := seat_eq hindex hklt
  refine ⟨seat, hseat, hpos, hstream ▸ hi, ?_⟩
  rwa [hstream]

/-- **The lookup**, when the next segment is found. -/
theorem setNext_found (hfin : (s.stream 0).finished = true) (hseq : s.curStreamSeq < s.streamNb) (hn : n < s.streamNb)
    (hnext : next < s.streamNb) (hints : (s.stream next).Ints) (hint : IsInt ((s.stream next).segStart + s.nextPos))
    (hpos : s.nextPos = k) (hfound : Found s n next) :
    Looked s (s.setNext n next).1 k (s.setNext n next).2 := by
  have hreload : (if s.curStreamSeq ≠ n then { s with needReload := true } else s) =
      { s with needReload := if s.curStreamSeq ≠ n then true else s.needReload } := by
    split <;> rfl
  -- the sums do not wrap around
  have hbehind : int32 ((s.nb next : Int) + (s.stream next).segStart) = s.nb next + (s.stream next).segStart := by
    rw [Int.add_comm]
    exact hints.behind.eq
  have hback : int32 ((s.stream next).segStart + s.nextPos - (s.stream next).segStart) = s.nextPos := by
    rw [show (s.stream next).segStart + s.nextPos - (s.stream next).segStart = s.nextPos by omega]
    exact (isInt_int32 _).eq
  unfold State.setNext
  dsimp only
  rw [hreload, hint.eq, hbehind, hback]
  by_cases hnb : 0 < s.nb next
  · rw [if_pos hnb, if_pos hfin]
    by_cases hin : s.nextPos < s.nb next
    · -- `hls_next` has the segment
      rw [if_pos (by omega)]
      exact looked_setSeg (by omega) (by omega) hnext (fun _ => by omega) hn
    · rw [if_neg (by omega)]
      rcases hfound with hnow | ⟨hend, hsame⟩ | ⟨-, hold, h0, hlt, hplace⟩
      · exact absurd hnow hin
      · rw [if_neg (fun hne => hne (hsame.resolve_left (by omega)))]
        exact ⟨rfl, rfl, rfl, rfl, hseq, fun hk => by omega, Subscripts.nil⟩
      · -- the variant before has it
        rw [if_pos hold]
        exact looked_setSeg (b := s.needReload) h0 hlt hseq (fun hk => (hplace.resolve_left (by omega)).trans hpos) hseq
  · rw [if_neg hnb]
    refine ⟨rfl, rfl, rfl, rfl, hseq, fun hk => ?_, Subscripts.nil⟩
    rcases hfound with hnow | ⟨hend, -⟩ | ⟨hnow, -⟩
    · omega
    · omega
    · omega

theorem segments_parseIframe_finished {l : Option IframeList} (h : (s.stream 0).finished = true) :
    ((s.parseIframe l).stream 0).finished = true := by
  cases l with
  | none => exact h
  | some l => simp [State.parseIframe, h]

/-- Before the lookup: the lists stay, and the number is the next one. -/
theorem chosen_kept (hfin : (s.stream 0).finished = true) (hnb : s.nb 0 ≠ 0) (h : s.chosen a = some (u, n, next))
    (hint : IsInt ((s.stream 0).segCur + 1)) (hstart : (u.stream 0).segStart = (s.stream 0).segStart)
    (hnb0 : u.nb 0 = s.nb 0) : Kept s u ∧ (u.stream 0).segCur = (s.stream 0).segCur + 1 := by
  obtain ⟨heq, -, -, hother, hzero⟩ := chosen_spec h
  refine ⟨⟨by rw [heq], ?_, hstart, fun _ => ?_⟩, ?_⟩
  · intro i hi
    by_cases hi0 : i = 0
    · rw [hi0, hnb0]
    · rw [State.nb, hother i hi0 hi, nextNumber_segments]
  · rcases hzero hnb with heq0 | heq0
    · rw [heq0, nextNumber_finished, hfin]
    · rw [heq0]
      exact segments_parseIframe_finished (by rw [nextNumber_finished, hfin])
  · rw [chosen_segCur hnb h, hint.eq]

/-- **At the end of a segment** the next one is looked up. -/
theorem Reading.loadNext_outcome (h : Reading s k) (hlabel : s.label = .loadNext) (hinput : s.input = false)
    (hdecrypt : s.decrypt = none) (hfin : (s.stream 0).finished = true) (hints : (s.stream 0).Ints)
    (hseq : s.curStreamSeq < s.streamNb) (hplays : a.Plays) (hfits : Fits s a) :
    ∃ t fs, s.loadNext a = some (t, fs) ∧ Kept s t ∧ t.curStreamSeq < t.streamNb ∧
      Outcome s t (k + 1) (6 * k + 6) fs := by
  obtain ⟨⟨u, n, next⟩, hchosen, hstart, hnb0, hnextInts, hsum, hfound⟩ := hfits hlabel
  have hchosen : s.chosen a = some (u, n, next) := hchosen
  have hnz : s.nb 0 ≠ 0 := Nat.ne_of_gt (Nat.lt_of_le_of_lt (Nat.zero_le _) h.lt)
  have hint : IsInt ((s.stream 0).segCur + 1) := by
    have hlt := h.lt
    have hlow := hints.start.1
    have hhigh : (s.stream 0).segStart + s.nb 0 < 0x80000000 := hints.behind.2
    rw [h.pos]
    exact ⟨by omega, by omega⟩
  obtain ⟨hkept, hcur⟩ := chosen_kept hfin hnz hchosen hint hstart hnb0
  have hpos : u.nextPos = (k + 1 : Nat) := by
    refine nextPos_eq (hkept.ints hnz hints) ?_ (Nat.le_trans h.lt (Nat.le_of_eq hnb0.symm))
    rw [hcur, h.pos, hstart]
    omega
  obtain ⟨heq, hn, hnext, -, -⟩ := chosen_spec hchosen
  have husame := congrArg State.streamNb heq
  have huseq := congrArg State.curStreamSeq heq
  have hu0 : next < u.streamNb := by
    rw [husame]
    rcases hnext with rfl | rfl
    · exact hn
    · exact Nat.lt_of_le_of_lt (Nat.zero_le _) hn
  have hlooked : Looked u (u.setNext n next).1 (k + 1) (u.setNext n next).2 := by
    refine setNext_found (hkept.finished hfin) ?_ (husame ▸ hn) hu0 hnextInts hsum hpos hfound
    rwa [husame, huseq]
  unfold State.loadNext
  rw [hchosen, Option.bind_some]
  unfold State.stillNeeded
  rw [hplays.2.2.2.2.2]
  refine ⟨_, _, rfl, hkept.trans (.of_stream hlooked.stream hlooked.streamNb), ?_, ?_⟩
  · show (u.setNext n next).1.curStreamSeq < (u.setNext n next).1.streamNb
    rw [hlooked.streamNb]
    exact hlooked.seq
  · rw [List.append_nil]
    refine .silent (.restart rfl ⟨?_, ?_, ?_, ?_, ?_⟩) hlooked.subscripts
    · exact hlooked.input.trans ((congrArg State.input heq).trans hinput)
    · exact hlooked.decrypt.trans ((congrArg State.decrypt heq).trans hdecrypt)
    · show ((u.setNext n next).1.stream 0).segCur = ((u.setNext n next).1.stream 0).segStart + _
      rw [hlooked.stream, hcur, h.pos, hstart]
      omega
    · show k + 1 ≤ (u.setNext n next).1.nb 0
      rw [State.nb, hlooked.stream]
      exact Nat.le_trans h.lt (Nat.le_of_eq hnb0.symm)
    · intro hlt
      have hlt' : k + 1 < u.nb 0 := by
        have hnb : (u.setNext n next).1.nb 0 = u.nb 0 := by rw [State.nb, hlooked.stream]
        exact hnb ▸ hlt
      obtain ⟨seat, hseat, hsp, hst, hsnb⟩ := hlooked.seat hlt'
      refine ⟨seat, hseat, hsp, ?_, ?_⟩
      · show seat.stream < (u.setNext n next).1.streamNb
        rwa [hlooked.streamNb]
      · show k + 1 < (u.setNext n next).1.nb seat.stream
        rwa [State.nb, hlooked.stream]

/-- **One part** of a session that plays. -/
theorem Phase.step (h : Phase s k c) (hfin : (s.stream 0).finished = true) (hints : (s.stream 0).Ints)
    (hseq : s.curStreamSeq < s.streamNb) (hplays : a.Plays) (hfits : Fits s a) :
    ∃ t fs, ReadData.step s a = some (t, fs) ∧ Kept s t ∧ t.curStreamSeq < t.streamNb ∧ Outcome s t k c fs := by
  have hint : a.interrupt = false := hplays.1
  unfold ReadData.step
  cases h with
  | call hlabel h =>
    rw [hlabel]
    exact ⟨_, _, rfl, .of_stream rfl rfl, hseq, .silent (.restart rfl (h.of_same rfl rfl rfl rfl rfl)) .nil⟩
  | restart hlabel h =>
    rw [hlabel, h.input]
    exact ⟨_, _, rfl, .of_stream rfl rfl, hseq, .silent (.reload rfl (h.of_same rfl rfl rfl rfl rfl)) .nil⟩
  | reload hlabel h =>
    rw [hlabel]
    rw [reload_outcome hfin hint]
    exact ⟨_, _, rfl, .of_stream rfl rfl, hseq, .silent (.window rfl (h.of_same rfl rfl rfl rfl rfl)) .nil⟩
  | window hlabel h =>
    rw [hlabel]
    dsimp only
    rw [window_outcome h hints hfin]
    split
    · rename_i hk
      subst hk
      exact ⟨_, _, rfl, .of_stream rfl rfl, hseq, .eof (.call rfl (h.of_same rfl rfl rfl rfl rfl)) rfl rfl⟩
    · rename_i hk
      have hlt : k < s.nb 0 := Nat.lt_of_le_of_ne h.le hk
      exact ⟨_, _, rfl, .of_stream rfl rfl, hseq, .silent (.reopen rfl (h.of_same rfl rfl rfl rfl rfl) hlt) .nil⟩
  | reopen hlabel h hlt =>
    obtain ⟨seat, hseat, hpos, hstream, hnb⟩ := h.seat hlt
    have hpos' : s.nextPos = k := nextPos_eq hints h.pos h.le
    have hlast : (s.nb 0 : Int) < 0x80000000 := hints.nb.2
    obtain ⟨u, cur, start, gs, hopen, hu, hunb, huseq, hinput, hgs⟩ :=
      @hlsOpenSegment_plays s a hplays (by omega) ⟨by omega, by omega⟩ seat
    rw [hlabel]
    unfold State.reopen
    rw [hseat, Option.bind_some, hopen]
    have hreading : Reading s k := ⟨h.pos, hlt⟩
    refine ⟨_, _, rfl, .of_stream hu hunb, ?_, ?_⟩
    · show u.curStreamSeq < u.streamNb
      rwa [huseq, hunb]
    · exact .opens cur start seat gs (.read rfl (hreading.of_stream hu) hinput) rfl hgs hpos hstream hnb
  | read hlabel h hopen =>
    rw [hlabel]
    unfold State.readSegment
    have hread : (if s.decrypt = some true then { s with input := true } else s) = { s with input := true } := by
      split
      · rfl
      · rename_i hdec
        have hin : s.input = true := hopen.resolve_right hdec
        rw [← hin]
    rw [hread]
    cases hr : a.read with
    | data =>
      exact ⟨_, _, rfl, .of_stream rfl rfl, hseq, .data (.callAgain rfl (h.of_stream rfl) rfl) (by omega) rfl⟩
    | error => exact absurd hr hplays.2.2.2.2.1
    | ended =>
      dsimp only
      rw [hint, if_neg Bool.false_ne_true]
      exact ⟨_, _, rfl, .of_stream rfl rfl, hseq, .silent (.ended rfl (h.of_stream rfl) rfl rfl) .nil⟩
  | callAgain hlabel h hopen =>
    rw [hlabel]
    exact ⟨_, _, rfl, .of_stream rfl rfl, hseq, .silent (.restartAgain rfl (h.of_stream rfl) hopen) .nil⟩
  | restartAgain hlabel h hopen =>
    rw [hlabel, hopen]
    exact ⟨_, _, rfl, .of_stream rfl rfl, hseq, .silent (.read rfl (h.of_stream rfl) (Or.inl hopen)) .nil⟩
  | ended hlabel h hinput hdecrypt =>
    rw [hlabel]
    exact h.loadNext_outcome hlabel hinput hdecrypt hfin hints hseq hplays hfits

/-! ## Runs -/

/-- The condition on the parts. -/
def Good (s : State) (a : Answer) : Prop := a.Plays ∧ Fits s a
deriving Decidable

/-- What holds after the parts `is`, of the events `es`. -/
structure Inv (n : Nat) (is : List Answer) (s : State) (es : List Event) : Prop where
  pos : 0 < n
  nb : s.nb 0 = n
  ints : (s.stream 0).Ints
  finished : (s.stream 0).finished = true
  seq : s.curStreamSeq < s.streamNb
  order : (opened es).map Seat.pos = List.range (opened es).length
  seats : ∀ seat ∈ opened es, seat.stream < s.streamNb ∧ seat.pos < s.nb seat.stream
  inRange : ∀ e ∈ es, e.InRange
  phase : ∃ c, Phase s (opened es).length c ∧ (.returns .eof ∉ es → is.length ≤ 3 * es.count (.returns .data) + c)
  eof : .returns .eof ∈ es → (opened es).length = s.nb 0

theorem Inv.nonempty (h : Inv n is s es) : s.nb 0 ≠ 0 := Nat.ne_of_gt (h.nb ▸ h.pos)

theorem Phase.le (h : Phase s k c) : k ≤ s.nb 0 ∧ c ≤ 6 * s.nb 0 + 3 := by
  cases h with
  | call _ h => have := h.le; omega
  | restart _ h => have := h.le; omega
  | reload _ h => have := h.le; omega
  | window _ h => have := h.le; omega
  | reopen _ h hlt => omega
  | read _ h => have := h.lt; omega
  | callAgain _ h => have := h.lt; omega
  | restartAgain _ h => have := h.lt; omega
  | ended _ h => have := h.lt; omega

theorem opened_append (es fs : List Event) : opened (es ++ fs) = opened es ++ opened fs := List.filterMap_append

/-- A part that opens no segment. -/
theorem Inv.same (h : Inv n is s es) (hkept : Kept s t) (hseq : t.curStreamSeq < t.streamNb) (hopened : opened fs = [])
    (hrange : ∀ e ∈ fs, e.InRange) (heof : .returns .eof ∈ fs → (opened es).length = s.nb 0)
    (hphase : ∃ c, Phase t (opened es).length c ∧
      (.returns .eof ∉ es ++ fs → (is ++ [a]).length ≤ 3 * (es ++ fs).count (.returns .data) + c)) :
    Inv n (is ++ [a]) t (es ++ fs) := by
  have hnb : t.nb 0 = s.nb 0 := hkept.nb 0 h.nonempty
  refine ⟨h.pos, hnb.trans h.nb, hkept.ints h.nonempty h.ints, hkept.finished h.finished, hseq, ?_, ?_, ?_, ?_, ?_⟩
  · rw [opened_append, hopened, List.append_nil]
    exact h.order
  · rw [opened_append, hopened, List.append_nil]
    intro seat hseat
    obtain ⟨hst, hlt⟩ := h.seats seat hseat
    refine ⟨hkept.streamNb ▸ hst, ?_⟩
    rwa [hkept.nb _ (by omega)]
  · intro e he
    rcases List.mem_append.mp he with he | he
    · exact h.inRange e he
    · exact hrange e he
  · rwa [opened_append, hopened, List.append_nil]
  · rw [opened_append, hopened, List.append_nil, hnb]
    intro he
    rcases List.mem_append.mp he with he | he
    · exact h.eof he
    · exact heof he

/-- A part that opens the next segment. -/
theorem Inv.opens (h : Inv n is s es) (hkept : Kept s t) (hseq : t.curStreamSeq < t.streamNb)
    {cur start : Int} {seat : Seat}
    (hfs : Subscripts fs) (hpos : seat.pos = (opened es).length) (hstream : seat.stream < s.streamNb)
    (hnb : seat.pos < s.nb seat.stream) (hphase : Phase t ((opened es).length + 1) (c + 1))
    (hbound : .returns .eof ∉ es → is.length ≤ 3 * es.count (.returns .data) + c) :
    Inv n (is ++ [a]) t (es ++ .opens cur start seat :: fs) := by
  have hnb0 : t.nb 0 = s.nb 0 := hkept.nb 0 h.nonempty
  have hopened : opened (es ++ .opens cur start seat :: fs) = opened es ++ [seat] := by
    rw [opened_append]
    exact congrArg (opened es ++ seat :: ·) hfs.opened
  have hnone (r : Ret) : .returns r ∉ Event.opens cur start seat :: fs := by
    rw [List.mem_cons, not_or]
    exact ⟨Event.noConfusion, hfs.returns r⟩
  -- no call has returned `AVERROR_EOF` yet
  have heof : .returns .eof ∉ es := by
    intro he
    have hle := hphase.le.1
    have hall := h.eof he
    omega
  refine ⟨h.pos, hnb0.trans h.nb, hkept.ints h.nonempty h.ints, hkept.finished h.finished, hseq, ?_, ?_, ?_,
    ⟨c + 1, ?_, fun _ => ?_⟩, ?_⟩
  · rw [hopened, List.map_append, h.order, List.map_singleton, hpos, List.length_append, List.length_singleton,
      List.range_succ]
  · rw [hopened]
    intro g hg
    have hold : g.stream < s.streamNb ∧ g.pos < s.nb g.stream := by
      rcases List.mem_append.mp hg with hg | hg
      · exact h.seats g hg
      · obtain rfl := List.mem_singleton.mp hg
        exact ⟨hstream, hnb⟩
    refine ⟨hkept.streamNb ▸ hold.1, ?_⟩
    rw [hkept.nb _ (by omega)]
    exact hold.2
  · intro e he
    rcases List.mem_append.mp he with he | he
    · exact h.inRange e he
    · rcases List.mem_cons.mp he with rfl | he
      · trivial
      · exact hfs.inRange e he
  · rwa [hopened, List.length_append, List.length_singleton]
  · rw [List.count_append, List.count_eq_zero_of_not_mem (hnone .data), List.length_append, List.length_singleton]
    have hlen := hbound heof
    omega
  · exact fun he => absurd he (List.not_mem_append heof (hnone .eof))

/-- **One step.** -/
theorem Inv.step (h : Inv n is s es) (hgood : Good s a) (hstep : step s a = some (t, fs)) :
    Inv n (is ++ [a]) t (es ++ fs) := by
  obtain ⟨c, hphase, hbound⟩ := h.phase
  obtain ⟨t', fs', hstep', hkept, hseq, hout⟩ := hphase.step h.finished h.ints h.seq hgood.1 hgood.2
  obtain ⟨rfl, rfl⟩ := Prod.mk.inj (Option.some.inj (hstep'.symm.trans hstep))
  cases hout with
  | silent hphase hfs =>
    refine h.same hkept hseq hfs.opened hfs.inRange (fun he => absurd he (hfs.returns _)) ⟨c + 1, hphase, fun hno => ?_⟩
    rw [List.count_append, List.count_eq_zero_of_not_mem (hfs.returns .data), List.length_append, List.length_singleton]
    have hlen := hbound (fun he => hno (List.mem_append_left _ he))
    omega
  | opens cur start seat gs hphase hfs hgs hpos hstream hnb =>
    subst hfs
    exact h.opens hkept hseq hgs hpos hstream (hpos ▸ hnb) hphase hbound
  | data hphase hc hfs =>
    subst hfs
    refine h.same hkept hseq rfl ?_ (by simp) ⟨c - 2, hphase, fun hno => ?_⟩
    · simp [Event.InRange]
    · rw [List.count_append, List.count_singleton_self, List.length_append, List.length_singleton]
      have hlen := hbound (fun he => hno (List.mem_append_left _ he))
      omega
  | eof hphase hk hfs =>
    subst hfs
    refine h.same hkept hseq rfl ?_ (fun _ => hk) ⟨_, hphase, fun hno => ?_⟩
    · simp [Event.InRange]
    · exact absurd (List.mem_append_right _ (List.mem_singleton_self _)) hno

/-- The session behind `HLS_read_header`. -/
structure Session (streamNb : Nat) (stream : Nat → Variant) : Prop where
  pos : 0 < streamNb
  segments : 0 < (stream 0).segments.length
  ints : (stream 0).Ints
  finished : (stream 0).finished = true
  start : (stream 0).segCur = (stream 0).segStart

theorem inv_start {stream : Nat → Variant} (h : Session m stream) (useOffsetSeq hicache : Bool) :
    Inv (stream 0).segments.length [] (start m stream useOffsetSeq hicache) [] := by
  refine ⟨h.segments, rfl, h.ints, h.finished, h.pos, rfl, by simp [opened], by simp,
    ⟨0, .call rfl ?_, fun _ => Nat.zero_le _⟩, by simp⟩
  have hlt := h.segments
  refine ⟨rfl, rfl, ?_, Nat.zero_le _, fun _ => ⟨⟨0, 0, (stream 0).segments[0]⟩, ?_, rfl, h.pos, hlt⟩⟩
  · show (stream 0).segCur = (stream 0).segStart + 0
    rw [h.start]
    omega
  · show ((stream 0).segments[0]?).map _ = _
    rw [List.getElem?_eq_getElem hlt]
    rfl

/-- **How a session of `n` segments is played**: the segments are opened in order, each once and from a variant that has
    it; the subscripts are in range; when `AVERROR_EOF` is returned, all segments were opened; and until then the
    session goes on, for no more than these parts of calls. -/
structure PlaysOut (n : Nat) (is : List Answer) (s : State) (es : List Event) : Prop where
  order : (opened es).map Seat.pos = List.range (opened es).length
  le : (opened es).length ≤ n
  seats : ∀ seat ∈ opened es, seat.stream < s.streamNb ∧ seat.pos < s.nb seat.stream
  inRange : ∀ e ∈ es, e.InRange
  eof : .returns .eof ∈ es → (opened es).length = n
  goesOn : ∀ a, Good s a → ∃ t fs, step s a = some (t, fs)
  ends : .returns .eof ∉ es → is.length ≤ 3 * es.count (.returns .data) + 6 * n + 3

/-- **Finished playlists are played to their end**, in every session where each segment opens and is read to its end,
    and whatever variants are chosen, as long as the next segment is found. -/
theorem run_playsOut {m : Nat} {stream : Nat → Variant} {useOffsetSeq hicache : Bool} (hsession : Session m stream)
    (h : Run step Good (start m stream useOffsetSeq hicache) is s es) :
    PlaysOut (stream 0).segments.length is s es := by
  have hinv : Inv (stream 0).segments.length is s es :=
    h.inv_effects (Inv _) (inv_start hsession useOffsetSeq hicache) (fun _ _ _ _ _ _ hi hgood hstep =>
      hi.step hgood hstep)
  have hnb := hinv.nb
  obtain ⟨c, hphase, hbound⟩ := hinv.phase
  refine ⟨hinv.order, hnb ▸ hphase.le.1, hinv.seats, hinv.inRange, hnb ▸ hinv.eof, fun a ha => ?_, fun hno => ?_⟩
  · obtain ⟨t, fs, hstep, -⟩ := hphase.step hinv.finished hinv.ints hinv.seq ha.1 ha.2
    exact ⟨t, fs, hstep⟩
  · have hc := hphase.le.2
    have hlen := hbound hno
    omega

/-- A finished variant. -/
def finishedVariant (segStart : Int) (segments : List KeyType) : Variant where
  bandwidth := 0
  segStart := segStart
  segments := segments
  segCur := segStart
  finished := true
  firstSegNumber := segStart
  isParsed := true
  hasRead := false

/-- Two variants, where the second one numbers its segments from `segStart` on. -/
def twoVariants (segStart : Int) (first second : List KeyType) : Nat → Variant
  | 0 => finishedVariant 0 first
  | _ => finishedVariant segStart second

theorem session_twoVariants (segStart : Int) {first : List KeyType} (h : 0 < first.length) (second : List KeyType)
    (hints : (finishedVariant 0 first).Ints) : Session 2 (twoVariants segStart first second) :=
  ⟨Nat.zero_lt_succ 1, h, hints, rfl, rfl⟩

/-- A segment that is read in two reads, from the label `restart` on or from the first call on, and the variant that is
    appointed behind it. -/
def segment (parts : Nat) (appointId : Int) : List Answer :=
  List.replicate (parts + 4) (playing appointId .data) ++ List.replicate 2 (playing appointId .ended)

/-- The second segment is played from the other variant, whose numbers are different. -/
theorem run_playsOut_two : ∃ is s es,
    Run step Good (start 2 (twoVariants 5 [.none, .none] [.none, .aes128]) false false) is s es ∧
      opened es = [⟨0, 0, .none⟩, ⟨1, 1, .aes128⟩] ∧ .returns .eof ∈ es ∧ PlaysOut 2 is s es := by
  refine ⟨segment 4 1 ++ segment 3 1 ++ List.replicate 3 (playing 1 .data),
    exists_run_imp (fun _ es => opened es = [⟨0, 0, .none⟩, ⟨1, 1, .aes128⟩] ∧ .returns .eof ∈ es)
    (by decide) fun _ _ hrun htest => ?_⟩
  obtain ⟨hopened, heof⟩ := htest
  exact ⟨hopened, heof, run_playsOut (session_twoVariants 5 (by decide) _ (by decide)) hrun⟩

/-- **Three ways out.** Another variant with the same segments and numbers is chosen behind the last segment: a segment
    behind the end of the list is read. A shorter variant is played to its end: its last segment is opened again for the
    next position, and `AVERROR_EOF` follows. A list ends at the last `int`: `AVERROR_EOF` comes at once. -/
theorem last_segment_goes_wrong :
    (∃ is s es, Run step (fun _ a => a.Plays)
      (start 2 (twoVariants 0 [.none, .none] [.none, .none]) false false) is s es ∧
      .subscript 0 2 2 ∈ es) ∧
    (∃ is s es, Run step (fun _ a => a.Plays)
      (start 2 (twoVariants 0 [.none, .none, .none] [.none, .none]) false false) is
      s es ∧ opened es = [⟨0, 0, .none⟩, ⟨1, 1, .none⟩, ⟨1, 1, .none⟩] ∧ .returns .eof ∈ es) ∧
    (∃ is s es, Run step (fun _ a => a.Plays)
      (start 1 (fun _ => finishedVariant 0x7FFFFFFF [.none]) false false) is s es ∧
      opened es = [] ∧ .returns .eof ∈ es) := by
  refine ⟨?_, ?_, ?_⟩
  · exact ⟨segment 4 0 ++ segment 3 1, exists_run_of_decide (by decide)⟩
  · exact ⟨segment 4 1 ++ segment 3 1 ++ segment 3 1 ++ List.replicate 3 (playing 1 .data),
      exists_run_of_decide (by decide)⟩
  · exact ⟨List.replicate 4 (playing 0 .data), exists_run_of_decide (by decide)⟩

end HiSTB.Hls.ReadData
