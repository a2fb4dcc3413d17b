import HiSTB.Hls.Correctness.Seek

/-!
# `Hls.Correctness.Iframe` — the I-frames at which segments are opened

A seek leaves the number of an I-frame in a segment of `hls_stream[0]`, and only a read takes it out. So the number
stays where the segment is left before as many bytes were read, and a seek that chooses no I-frame does not take it out
either.

* `chooseBackward_getD`, `choose_wanted` — the loops choose what is wanted, up to the first I-frame, which is the
  beginning;
* `Inv` — only the current segment has a number left in it, and it is the one that is due;
* `Meets` — each step finds no number left that is not the one of the last seek;
* `run_wanted` — then each seek gets to where it is to get, and each segment is opened where it is to be; `number_left`
  — what happens without.
-/

namespace HiSTB.Hls.Seek

open Lib

variable {s s' : Session} {t : Target} {p : Parse} {segs : List Segment} {h : Hit} {x y : Play}

variable {k i pos : Nat} {seg : Segment} {c : Choice} {r : Ret} {es : List Event}

/-! ## What is chosen -/

theorem find?_reverse (ks : List Nat) (q : Nat → Bool) : ks.reverse.find? q = (ks.filter q).getLast? := by
  rw [← List.head?_filter, List.filter_reverse, List.head?_reverse]

/-- Without the first I-frame, and with it. -/
theorem chooseBackward_getD (seg : Segment) (rel : Int) :
    (chooseBackward seg rel).getD 0 =
      (((List.range seg.iframes.length).filter (fun k => seg.offsetTime k ≤ rel)).getLast?).getD 0 := by
  unfold chooseBackward
  rw [find?_reverse]
  cases seg.iframes.length with
  | zero => rfl
  | succ n =>
    rw [List.range_succ_eq_map]
    have hpos : ∀ q : Nat → Bool, ((List.range n).map Nat.succ).filter (fun k => decide (0 < k) && q k) =
        ((List.range n).map Nat.succ).filter q := by
      intro q
      apply List.filter_congr
      intro k hk
      obtain ⟨j, -, rfl⟩ := List.mem_map.mp hk
      simp
    simp only [Bool.decide_and, List.filter_cons, hpos, Nat.lt_irrefl, decide_false, Bool.false_and]
    -- the first I-frame counts where it is the only one
    cases ((List.range n).map Nat.succ).filter (fun k => decide (seg.offsetTime k ≤ rel)) with
    | nil => split_ifs <;> rfl
    | cons j js => split_ifs <;> simp [List.getLast?_cons_cons]

/-- **What is chosen is what is wanted**, where the first I-frame of a segment is its beginning. -/
theorem choose_wanted : (choose segs h t).pos = (wanted segs h t).1 ∧
    (choose segs h t).iframe.getD 0 = (wanted segs h t).2 := by
  unfold choose wanted
  by_cases hback : t.backward = true
  · rw [if_pos hback, if_pos hback, ← chooseBackward_getD]
    cases chooseBackward h.seg (t.timestamp - h.before) <;> exact ⟨rfl, rfl⟩
  · rw [if_neg hback, if_neg hback]
    unfold chooseForward
    cases (List.range h.seg.iframes.length).find? (fun k => decide (t.timestamp - h.before ≤ h.seg.offsetTime k)) with
    | some k => exact ⟨rfl, rfl⟩
    | none =>
      split_ifs with hnext hiframes
      · exact ⟨rfl, rfl⟩
      · rw [hiframes]
        exact ⟨rfl, rfl⟩
      · exact ⟨rfl, rfl⟩

/-- An I-frame that is chosen is in the segment that was found. -/
theorem choose_some (hk : (choose segs h t).iframe = some k) : (choose segs h t).pos = h.pos ∧
    k < h.seg.iframes.length := by
  unfold choose at hk ⊢
  by_cases hback : t.backward = true
  · rw [if_pos hback] at hk ⊢
    cases hc : chooseBackward h.seg (t.timestamp - h.before) with
    | none =>
      rw [hc] at hk
      cases hk
    | some j =>
      rw [hc] at hk
      obtain rfl := Option.some.inj hk
      have hmem := List.mem_of_find?_eq_some hc
      rw [List.mem_reverse, List.mem_range] at hmem
      exact ⟨rfl, hmem⟩
  · rw [if_neg hback] at hk ⊢
    cases hc : chooseForward h.seg (t.timestamp - h.before) with
    | some j =>
      rw [hc] at hk
      obtain rfl := Option.some.inj hk
      exact ⟨rfl, List.mem_range.mp (List.mem_of_find?_eq_some hc)⟩
    | none =>
      rw [hc] at hk
      split_ifs at hk ⊢ with hnext hiframes
      obtain rfl := Option.some.inj hk
      exact ⟨rfl, Nat.sub_lt (List.length_pos_iff.mpr hiframes) Nat.one_pos⟩

/-- The time of what is chosen, in a segment that starts with an I-frame. -/
theorem choose_offsetTime (hiframes : h.seg.iframes ≠ []) (hzero : h.seg.offsetTime 0 = 0) :
    (choose segs h t).offsetTime = if (choose segs h t).pos = h.pos then
      h.seg.offsetTime ((choose segs h t).iframe.getD 0) else 0 := by
  unfold choose
  by_cases hback : t.backward = true
  · rw [if_pos hback]
    cases chooseBackward h.seg (t.timestamp - h.before) with
    | none => exact hzero.symm.trans (if_pos rfl).symm
    | some k => exact (if_pos rfl).symm
  · rw [if_neg hback]
    cases chooseForward h.seg (t.timestamp - h.before) with
    | some k => exact (if_pos rfl).symm
    | none =>
      by_cases hnext : h.pos + 1 < segs.length
      · rw [if_pos hnext]
        exact (if_neg (Nat.succ_ne_self h.pos)).symm
      · rw [if_neg hnext, if_neg hiframes]
        exact (if_pos rfl).symm

/-! ## Numbers that are left -/

/-- The number left in a segment. -/
def Segment.left (seg : Segment) : Nat := seg.iframeCurIndex.getD 0

/-- No segment has a number left in it. -/
def Clear (s : Session) : Prop := ∀ (i pos : Nat) (seg : Segment), (s.stream i).segments[pos]? = some seg → seg.left = 0

/-- Only the current segment has. -/
def Only (s : Session) : Prop :=
  ∀ (i pos : Nat) (seg : Segment), (s.stream i).segments[pos]? = some seg → seg.left ≠ 0 →
    s.curSeg = some ⟨i, pos, false⟩

/-- The I-frame of the current segment was read, or it is the first one. -/
def Consumed (s : Session) : Prop := ∀ seg ∈ s.current, seg.left = 0
deriving Decidable

/-- The current segment will be opened at an I-frame. -/
def Points (s : Session) (k : Nat) : Prop :=
  ∀ seg ∈ s.current, seg.left = k ∧ (k ≠ 0 → s.atIframe seg = true ∧ k < seg.iframes.length)

/-- **The invariant.** -/
structure Inv (x : Play) : Prop where
  only : Only x.session
  points : ∀ k ∈ x.due, Points x.session k
  closed : x.due.isSome = true → x.session.input = false

theorem Only.inv (ho : Only s) : Inv ⟨s, none⟩ := by
  refine ⟨ho, fun k hk => ?_, fun hdue => ?_⟩
  · cases hk
  · cases hdue

theorem current_of_curSeg (hseat : s.curSeg = some ⟨i, pos, false⟩) : s.current = (s.stream i).segments[pos]? := by
  unfold Session.current
  rw [hseat]
  rfl

theorem Only.clear (ho : Only s) (hc : Consumed s) : Clear s := by
  intro i pos seg hseg
  by_contra hleft
  have hcur := current_of_curSeg (ho i pos seg hseg hleft)
  rw [hseg] at hcur
  exact hleft (hc seg hcur)

theorem Clear.only (hc : Clear s) : Only s := fun i pos seg hseg hleft => absurd (hc i pos seg hseg) hleft

theorem Session.mem_current (hseg : seg ∈ s.current) :
    ∃ i pos, s.curSeg = some ⟨i, pos, false⟩ ∧ (s.stream i).segments[pos]? = some seg := by
  unfold Session.current at hseg
  obtain ⟨seat, hseat, hget⟩ := Option.bind_eq_some_iff.mp hseg
  obtain ⟨i, pos, freed⟩ := seat
  cases freed with
  | true => cases hget
  | false => exact ⟨i, pos, hseat, hget⟩

theorem Clear.points (hc : Clear s) : Points s 0 := by
  intro seg hseg
  obtain ⟨i, pos, -, hget⟩ := Session.mem_current hseg
  exact ⟨hc i pos seg hget, fun hne => absurd rfl hne⟩

/-- Where a segment that points to an I-frame is opened. -/
theorem Points.openIndex (hp : Points s k) (hseg : seg ∈ s.current) : s.openIndex seg = k := by
  obtain ⟨hleft, hat⟩ := hp seg hseg
  unfold Session.openIndex
  unfold Segment.left at hleft
  cases hindex : seg.iframeCurIndex with
  | none =>
    rw [hindex] at hleft
    exact hleft
  | some j =>
    rw [hindex] at hleft
    obtain rfl : j = k := hleft
    dsimp only
    by_cases hj : j = 0
    · rw [hj, ite_self]
    · exact if_pos (hat hj)

/-! ## The steps -/

/-- What counts of a session is the same, or a list was freed and read anew. -/
structure Same (s s' : Session) : Prop where
  segments : ∀ i, (s'.stream i).segments = (s.stream i).segments
  iframeOnly : (s'.stream 0).iframeOnly = (s.stream 0).iframeOnly
  hicache : s'.hicache = s.hicache
  curSeg : s'.curSeg = s.curSeg

theorem Same.current (hs : Same s s') : s'.current = s.current := by
  unfold Session.current
  rw [hs.curSeg]
  simp only [hs.segments]

theorem Same.only (hs : Same s s') (ho : Only s) : Only s' := by
  intro i pos seg hseg hleft
  rw [hs.segments] at hseg
  rw [hs.curSeg]
  exact ho i pos seg hseg hleft

theorem Same.atIframe (hs : Same s s') (seg : Segment) : s'.atIframe seg = s.atIframe seg := by
  unfold Session.atIframe
  rw [hs.iframeOnly, hs.hicache]

theorem Same.points (hs : Same s s') (hp : Points s k) : Points s' k := by
  intro seg hseg
  rw [hs.current] at hseg
  rw [hs.atIframe]
  exact hp seg hseg

/-- What is in a segment after the number of an I-frame was left. -/
theorem leave_spec (hseg : (leave segs c)[pos]? = some seg) :
    ∃ old, segs[pos]? = some old ∧ seg.keyType = old.keyType ∧ seg.iframes = old.iframes ∧
      seg.left = if pos = c.pos ∧ c.iframe ≠ none then c.iframe.getD 0 else old.left := by
  unfold leave at hseg
  cases hc : c.iframe with
  | none =>
    rw [hc] at hseg
    exact ⟨seg, hseg, rfl, rfl, (if_neg (fun h => h.2 rfl)).symm⟩
  | some k =>
    rw [hc] at hseg
    rw [List.getElem?_modify] at hseg
    obtain ⟨old, hold, rfl⟩ := Option.map_eq_some_iff.mp hseg
    refine ⟨old, hold, ?_⟩
    by_cases hpos : c.pos = pos
    · rw [if_pos hpos, if_pos ⟨hpos.symm, Option.some_ne_none k⟩]
      exact ⟨rfl, rfl, rfl⟩
    · rw [if_neg hpos, if_neg (fun h => hpos h.1.symm)]
      exact ⟨rfl, rfl, rfl⟩

/-- What a seek does that finds a segment. -/
structure Sought (s : Session) (c : Choice) (s' : Session) : Prop where
  segments : ∀ i, (s'.stream i).segments = if i = 0 then leave (s.stream 0).segments c else (s.stream i).segments
  iframeOnly : (s'.stream 0).iframeOnly = (s.stream 0).iframeOnly
  hicache : s'.hicache = s.hicache
  curSeg : s'.curSeg = some ⟨s.curStreamSeq, c.pos, false⟩
  input : s'.input = false
  seekOffset : ∃ seg, (s.stream 0).segments[c.pos]? = some seg ∧
    s'.seekOffset = int32 (90 * c.offsetTime) + 90 * seg.startTime

theorem settle_some {j : Nat} (hs : s.settle j = some (s', r)) :
    r = .success ∧
      s' = { s with curSeg := some ⟨s.curStreamSeq, j, false⟩, curHls := s.curStreamSeq, curSeqNum := j } := by
  unfold Session.settle at hs
  split_ifs at hs
  cases hs
  exact ⟨rfl, rfl⟩

theorem seekFront_sought (hl : locate t.timestamp 0 (s.stream 0).segments = some h)
    (hr : s.resetReading.seekFront t = some (s', r)) :
    r = .success ∧ Sought s (choose (s.stream 0).segments h t) s' := by
  have hl' : locate t.timestamp 0 (s.resetReading.stream 0).segments = some h := hl
  unfold Session.seekFront at hr
  dsimp only at hr
  rw [hl'] at hr
  obtain ⟨seg, hseg, hsettle⟩ := Option.bind_eq_some_iff.mp hr
  obtain ⟨rfl, rfl⟩ := settle_some hsettle
  refine ⟨rfl, fun i => ?_, ?_, rfl, rfl, rfl, seg, hseg, rfl⟩
  · exact (found_segments _ 0 i).trans (leaveIframe_segments _ i)
  · exact (found_iframeOnly 0 0).trans (leaveIframe_iframeOnly _)

/-- A seek behind the last segment, and one that fails. -/
theorem seekFront_miss_cases (hl : locate t.timestamp 0 (s.stream 0).segments = none)
    (hr : s.resetReading.seekFront t = some (s', r)) :
    s'.input = false ∧ (r = .success ∧ s'.curSeg = none ∧ (∀ i, (s'.stream i).segments = (s.stream i).segments) ∧
          duration (s.stream 0).segments ≤ t.timestamp ∨
        r = .error ∧ Same s s' ∧ t.timestamp < duration (s.stream 0).segments) := by
  have hl' : locate t.timestamp 0 (s.resetReading.stream 0).segments = none := hl
  unfold Session.seekFront at hr
  dsimp only at hr
  rw [hl'] at hr
  by_cases hle : duration (s.resetReading.stream 0).segments ≤ t.timestamp
  · rw [if_pos hle] at hr
    cases hr
    exact ⟨rfl, .inl ⟨rfl, rfl, fun i => found_segments (s := s.resetReading) _ 0 i, hle⟩⟩
  · rw [if_neg hle] at hr
    cases hr
    exact ⟨rfl, .inr ⟨rfl, ⟨fun _ => rfl, rfl, rfl, rfl⟩, Int.not_le.mp hle⟩⟩

/-- What may be left in the segments before a seek that makes a choice, and how the segment that is played must be. -/
structure Leaves (s : Session) (c : Choice) : Prop where
  played : c.iframe.getD 0 = 0 ∨ s.curStreamSeq = 0 ∧ ∀ seg ∈ (s.stream 0).segments[c.pos]?, s.atIframe seg = true
  before : Consumed s ∨ c.iframe ≠ none ∧ s.curSeg = some ⟨0, c.pos, false⟩

/-- Only the segment that is played has a number left in it, the one that was chosen. -/
theorem Sought.left (hs : Sought s c s') (ho : Only s) (hc : Leaves s c)
    (hseg : (s'.stream i).segments[pos]? = some seg) (hleft : seg.left ≠ 0) :
    i = 0 ∧ pos = c.pos ∧ seg.left = c.iframe.getD 0 := by
  rw [hs.segments] at hseg
  -- a number from before is the one in the current segment
  have hold : ∀ {old : Segment}, (s.stream i).segments[pos]? = some old → old.left ≠ 0 →
      c.iframe ≠ none ∧ i = 0 ∧ pos = c.pos := by
    intro old hget hne
    have hcur := ho i pos old hget hne
    rcases hc.before with hcons | ⟨hsome, hseat⟩
    · exact absurd (ho.clear hcons i pos old hget) hne
    · rw [hcur] at hseat
      cases hseat
      exact ⟨hsome, rfl, rfl⟩
  by_cases hi : i = 0
  · subst hi
    rw [if_pos rfl] at hseg
    obtain ⟨old, hget, -, -, heq⟩ := leave_spec hseg
    by_cases hp : pos = c.pos ∧ c.iframe ≠ none
    · rw [if_pos hp] at heq
      exact ⟨rfl, hp.1, heq⟩
    · rw [if_neg hp] at heq
      rw [heq] at hleft
      obtain ⟨hsome, -, hpos⟩ := hold hget hleft
      exact absurd ⟨hpos, hsome⟩ hp
  · rw [if_neg hi] at hseg
    exact absurd (hold hseg hleft).2.1 hi

theorem Sought.only (hs : Sought s c s') (ho : Only s) (hc : Leaves s c) : Only s' := by
  intro i pos seg hseg hleft
  obtain ⟨rfl, rfl, heq⟩ := hs.left ho hc hseg hleft
  rw [heq] at hleft
  obtain ⟨hcur, -⟩ := hc.played.resolve_left hleft
  rw [hs.curSeg, hcur]

theorem Sought.points (hs : Sought s c s') (ho : Only s) (hc : Leaves s c)
    (hlen : ∀ k ∈ c.iframe, ∀ seg ∈ (s.stream 0).segments[c.pos]?, k < seg.iframes.length) :
    Points s' (c.iframe.getD 0) := by
  intro seg hseg
  rw [current_of_curSeg hs.curSeg] at hseg
  by_cases hzero : c.iframe.getD 0 = 0
  · refine ⟨?_, fun hne => absurd hzero hne⟩
    by_contra hne
    rw [hzero] at hne
    obtain ⟨-, -, heq⟩ := hs.left ho hc hseg hne
    exact hne (heq.trans hzero)
  · obtain ⟨hcur, hat⟩ := hc.played.resolve_left hzero
    rw [hcur, hs.segments, if_pos rfl] at hseg
    obtain ⟨old, hget, hkey, hiframes, heq⟩ := leave_spec hseg
    cases hk : c.iframe with
    | none =>
      rw [hk] at hzero
      exact absurd rfl hzero
    | some k =>
      rw [hk, if_pos ⟨rfl, Option.some_ne_none k⟩] at heq
      refine ⟨heq, fun _ => ⟨?_, ?_⟩⟩
      · have hold := hat old hget
        unfold Session.atIframe at hold ⊢
        rw [hs.iframeOnly, hs.hicache, hkey]
        exact hold
      · rw [hiframes]
        exact hlen k hk old hget

/-! ## Lists that are read anew -/

theorem load_segments (i : Nat) (p : Playlist) (j : Nat) :
    ((s.load i p).stream j).segments = if j = i then p.segments.map Segment.fresh else (s.stream j).segments := by
  unfold Session.load Session.set
  dsimp only
  by_cases hj : j = i
  · subst hj
    rw [Function.update_self, if_pos rfl]
  · rw [Function.update_of_ne hj, if_neg hj]

theorem load_atIframe (i : Nat) (p : Playlist) (seg : Segment) : (s.load i p).atIframe seg = s.atIframe seg := by
  have honly : ((s.load i p).stream 0).iframeOnly = (s.stream 0).iframeOnly := by
    unfold Session.load Session.set
    dsimp only
    by_cases hi : 0 = i
    · subst hi
      rw [Function.update_self]
    · rw [Function.update_of_ne hi]
  unfold Session.atIframe
  rw [honly]
  rfl

theorem fresh_left {segs : List Segment} (hseg : (segs.map Segment.fresh)[pos]? = some seg) : seg.left = 0 := by
  rw [List.getElem?_map] at hseg
  obtain ⟨old, -, rfl⟩ := Option.map_eq_some_iff.mp hseg
  rfl

theorem Only.load (ho : Only s) (i : Nat) (p : Playlist) : Only (s.load i p) := by
  intro j pos seg hseg hleft
  rw [load_segments] at hseg
  by_cases hj : j = i
  · rw [if_pos hj] at hseg
    exact absurd (fresh_left hseg) hleft
  · rw [if_neg hj] at hseg
    show s.curSeg.map _ = _
    rw [ho j pos seg hseg hleft, Option.map_some, if_neg hj]

theorem Points.load (hp : Points s k) (i : Nat) (p : Playlist) : Points (s.load i p) k := by
  intro seg hseg
  rw [load_atIframe]
  apply hp
  obtain ⟨j, pos, hseat, hget⟩ := Session.mem_current hseg
  obtain ⟨seat, hcur, heq⟩ := Option.map_eq_some_iff.mp (show s.curSeg.map _ = _ from hseat)
  split_ifs at heq with hi
  · cases heq
  · subst heq
    rw [load_segments, if_neg hi] at hget
    rw [current_of_curSeg hcur]
    exact hget

theorem Only.parse (ho : Only s) (i : Nat) (p : Parse) : Only (s.hlsParseM3U8 i p).1 := by
  cases p with
  | fails => exact ho
  | breaks p => exact ho.load i p
  | reads p => exact ho.load i p

theorem Points.parse (hp : Points s k) (i : Nat) (p : Parse) : Points (s.hlsParseM3U8 i p).1 k := by
  cases p with
  | fails => exact hp
  | breaks p => exact hp.load i p
  | reads p => exact hp.load i p

theorem Clear.load (hc : Clear s) (i : Nat) (p : Playlist) : Clear (s.load i p) := by
  intro j pos seg hseg
  rw [load_segments] at hseg
  split_ifs at hseg
  · exact fresh_left hseg
  · exact hc j pos seg hseg

theorem Clear.parse (hc : Clear s) (i : Nat) (p : Parse) : Clear (s.hlsParseM3U8 i p).1 := by
  cases p with
  | fails => exact hc
  | breaks p => exact hc.load i p
  | reads p => exact hc.load i p

/-- A search from the back, after the list was loaded. -/
theorem seekBack_cases (hr : s.resetReading.seekBack t p = some (s', r)) :
    s'.input = false ∧
      (r = .success ∧ s'.curSeg ≠ none ∧ (∀ i, (s'.stream i).segments = ((s.hlsParseM3U8 0 p).1.stream i).segments) ∨
        r = .error ∧ Same (s.hlsParseM3U8 0 p).1 s') := by
  have hinput : (s.resetReading.hlsParseM3U8 0 p).1.input = false := by
    cases p <;> rfl
  have hsame : Same (s.hlsParseM3U8 0 p).1 (s.resetReading.hlsParseM3U8 0 p).1 := by
    cases p <;> exact ⟨fun _ => rfl, rfl, rfl, rfl⟩
  unfold Session.seekBack at hr
  by_cases hne : ((s.resetReading.hlsParseM3U8 0 p).1.stream 0).segments = []
  · rw [if_pos hne] at hr
    cases hr
  rw [if_neg hne] at hr
  cases hl : locateBack t.timestamp ((s.resetReading.hlsParseM3U8 0 p).1.stream 0).segments with
  | some h =>
    rw [hl] at hr
    obtain ⟨rfl, rfl⟩ := settle_some hr
    refine ⟨hinput, .inl ⟨rfl, Option.some_ne_none _, fun i => ?_⟩⟩
    exact (found_segments _ 0 i).trans (hsame.segments i)
  | none =>
    rw [hl] at hr
    split_ifs at hr
    cases hr
    exact ⟨hinput, .inr ⟨rfl, hsame.segments, hsame.iframeOnly, hsame.hicache, hsame.curSeg⟩⟩

/-! ## What is claimed, and when it holds -/

/-- **What is claimed of an effect.** A seek gets to where it is to get, and a segment is opened where it is to be. -/
def Event.Right : Event → Prop
  | .sought got want => got = want
  | .opened got want => got = want

/-- A search from the front: the I-frame of the current segment was read, or one of the same segment is chosen again.
    What is chosen, if it is not the first one, is in `hls_stream[0]`, which is played, without a key and with
    `#EXT-X-I-FRAMES-ONLY`; and its time in the segment, in units of 1/90 ms, is an `int`. -/
def FrontMeets (x : Play) (t : Target) : Option Hit → Prop
  | some h => Leaves x.session (choose (x.session.stream 0).segments h t) ∧
      IsInt (90 * (choose (x.session.stream 0).segments h t).offsetTime)
  | none => Consumed x.session ∨ x.due.isSome = true ∧ t.timestamp < duration (x.session.stream 0).segments

/-- A seek. -/
def SeekMeets (x : Play) (t : Target) : Prop :=
  t.byte = true ∨
    if x.session.servicetype2 then Consumed x.session
    else FrontMeets x t (locate t.timestamp 0 (x.session.stream 0).segments)

/-- Another segment: the I-frame of the current one was read, and a choice of an I-frame was not lost with a list. -/
def PlaceMeets (x : Play) (i pos : Nat) : Prop :=
  x.due.isSome = true ∧ x.session.curSeg = some ⟨i, pos, false⟩ ∨
    Consumed x.session ∧ (x.session.curSeg.map (fun seat => (seat.stream, seat.pos)) = some (i, pos) → x.due.getD 0 = 0)

/-- **When it holds**, step by step. -/
def Meets (x : Play) : Input → Prop
  | .seek t _ => SeekMeets x t
  | .place i pos => PlaceMeets x i pos
  | _ => True

/-! ## One step -/

theorem Inv.points_getD (hinv : Inv x) (hc : x.due.isSome = true ∨ Consumed x.session) :
    Points x.session (x.due.getD 0) := by
  cases hdue : x.due with
  | some k => exact hinv.points k hdue
  | none =>
    rw [hdue] at hc
    exact (hinv.only.clear (hc.resolve_left Bool.false_ne_true)).points

/-- The segment and `seek_offset` are what is wanted. -/
theorem Sought.soughtEvents (hs : Sought s (choose (s.stream 0).segments h t) s')
    (hint : IsInt (90 * (choose (s.stream 0).segments h t).offsetTime))
    (hl : locate t.timestamp 0 (s.stream 0).segments = some h) : ∀ e ∈ s.soughtEvents t s', e.Right := by
  intro e he
  unfold Session.soughtEvents at he
  dsimp only at he
  rw [hl] at he
  dsimp only at he
  split_ifs at he with hno hiframes
  · exact absurd he List.not_mem_nil
  · obtain rfl := List.mem_singleton.mp he
    obtain ⟨seg, hseg, hoffset⟩ := hs.seekOffset
    obtain ⟨hpos, hiframe⟩ := @choose_wanted t (s.stream 0).segments h
    rw [hint.eq, choose_offsetTime hiframes.1 hiframes.2, hpos, hiframe] at hoffset
    rw [hpos] at hseg
    show (_, _) = (_, _)
    rw [hs.curSeg, hoffset, wantedOffset, hseg, Int.mul_add, Int.add_comm]
    exact Prod.ext hpos rfl
  · exact absurd he List.not_mem_nil

/-- What is due after a seek, and what it did. -/
def Play.afterSeek (x : Play) (t : Target) (r : Session × Ret) : Play × List Event :=
  match r.2 with
  | .error => (⟨r.1, if t.byte then x.due else some (x.due.getD 0)⟩, [])
  | .success => (⟨r.1, if r.1.curSeg = none then none else some (x.session.dueAfter t)⟩, x.session.soughtEvents t r.1)

/-- The invariant holds, and each effect is right. -/
def RightEffects (r : Play × List Event) : Prop := Inv r.1 ∧ ∀ e ∈ r.2, e.Right

theorem Inv.no_effects (hinv : Inv x) : RightEffects (x, []) := ⟨hinv, fun _ he => absurd he List.not_mem_nil⟩

/-- From the back: all the numbers were taken out. -/
theorem Inv.afterSeek_back (hinv : Inv x) (hbyte : t.byte ≠ true) (htype : x.session.servicetype2 = true)
    (hm : Consumed x.session) (hr : x.session.resetReading.seekBack t p = some (s', r)) :
    RightEffects (x.afterSeek t (s', r)) := by
  have hclear := (hinv.only.clear hm).parse 0 p
  obtain ⟨hinput, ⟨rfl, hseat, hsegs⟩ | ⟨rfl, hsame⟩⟩ := seekBack_cases hr
  · have hclear' : Clear s' := by
      intro i pos seg hseg
      rw [hsegs] at hseg
      exact hclear i pos seg hseg
    have hdue : x.session.dueAfter t = 0 := if_pos htype
    have hevents : x.session.soughtEvents t s' = [] := if_pos (.inr htype)
    show RightEffects (⟨s', if s'.curSeg = none then none else some (x.session.dueAfter t)⟩,
      x.session.soughtEvents t s')
    rw [if_neg hseat, hdue, hevents]
    refine Inv.no_effects ⟨hclear'.only, fun k hk => ?_, fun _ => hinput⟩
    obtain rfl := Option.some.inj hk
    exact hclear'.points
  · show RightEffects (⟨s', if t.byte = true then x.due else some (x.due.getD 0)⟩, [])
    rw [if_neg hbyte]
    refine Inv.no_effects ⟨hsame.only (hinv.only.parse 0 p), fun k hk => ?_, fun _ => hinput⟩
    obtain rfl := Option.some.inj hk
    exact hsame.points ((hinv.points_getD (.inr hm)).parse 0 p)

/-- From the front, where no segment contains the target. -/
theorem Inv.afterSeek_miss (hinv : Inv x) (hbyte : t.byte ≠ true)
    (hl : locate t.timestamp 0 (x.session.stream 0).segments = none) (hm : FrontMeets x t none)
    (hr : x.session.resetReading.seekFront t = some (s', r)) : RightEffects (x.afterSeek t (s', r)) := by
  obtain ⟨hinput, ⟨rfl, hseat, hsegs, hle⟩ | ⟨rfl, hsame, hlt⟩⟩ := seekFront_miss_cases hl hr
  · have hevents : x.session.soughtEvents t s' = [] := by
      unfold Session.soughtEvents
      dsimp only
      rw [hl, ite_self]
    have hclear := hinv.only.clear (hm.resolve_right (fun h => absurd h.2 (Int.not_lt.mpr hle)))
    show RightEffects (⟨s', if s'.curSeg = none then none else some (x.session.dueAfter t)⟩,
      x.session.soughtEvents t s')
    rw [if_pos hseat, hevents]
    refine Inv.no_effects (Only.inv (fun i pos seg hseg hleft => ?_))
    rw [hsegs] at hseg
    exact absurd (hclear i pos seg hseg) hleft
  · show RightEffects (⟨s', if t.byte = true then x.due else some (x.due.getD 0)⟩, [])
    rw [if_neg hbyte]
    refine Inv.no_effects ⟨hsame.only hinv.only, fun k hk => ?_, fun _ => hinput⟩
    obtain rfl := Option.some.inj hk
    exact hsame.points (hinv.points_getD (hm.elim .inr (fun h => .inl h.1)))

/-- From the front, where a segment contains the target. -/
theorem Inv.afterSeek_hit (hinv : Inv x) (htype : x.session.servicetype2 ≠ true)
    (hl : locate t.timestamp 0 (x.session.stream 0).segments = some h) (hm : FrontMeets x t (some h))
    (hr : x.session.resetReading.seekFront t = some (s', r)) : RightEffects (x.afterSeek t (s', r)) := by
  obtain ⟨rfl, hs⟩ := seekFront_sought hl hr
  have hseat : s'.curSeg ≠ none := by
    rw [hs.curSeg]
    exact Option.some_ne_none _
  have hdue : x.session.dueAfter t = ((choose (x.session.stream 0).segments h t).iframe).getD 0 := by
    obtain ⟨_, hiframe⟩ := @choose_wanted t (x.session.stream 0).segments h
    unfold Session.dueAfter
    rw [if_neg htype, hl, hiframe]
    rfl
  show RightEffects (⟨s', if s'.curSeg = none then none else some (x.session.dueAfter t)⟩, x.session.soughtEvents t s')
  rw [if_neg hseat, hdue]
  refine ⟨⟨hs.only hinv.only hm.1, fun k hk => ?_, fun _ => hs.input⟩, hs.soughtEvents hm.2 hl⟩
  obtain rfl := Option.some.inj hk
  apply hs.points hinv.only hm.1
  -- the I-frame that is left is one of the segment that was found
  intro k hk seg hseg
  obtain ⟨hsame, hlt⟩ := choose_some hk
  rw [hsame, (locate_spec hl).1] at hseg
  obtain rfl := Option.some.inj hseg
  exact hlt

/-- **A seek** keeps the invariant, and gets to where it is to get. -/
theorem Inv.seek (hinv : Inv x) (hm : SeekMeets x t) (hn : step x (.seek t p) = some (y, es)) :
    Inv y ∧ ∀ e ∈ es, e.Right := by
  obtain ⟨⟨s', r⟩, hr, heq⟩ := Option.map_eq_some_iff.mp hn
  have hafter : x.afterSeek t (s', r) = (y, es) := heq
  show RightEffects (y, es)
  rw [← hafter]
  unfold Session.readSeek at hr
  by_cases hbyte : t.byte = true
  · -- nothing happens
    rw [if_pos hbyte] at hr
    cases hr
    show RightEffects (⟨x.session, if t.byte = true then x.due else some (x.due.getD 0)⟩, [])
    rw [if_pos hbyte]
    exact hinv.no_effects
  rw [if_neg hbyte] at hr
  have hm' := hm.resolve_left hbyte
  by_cases htype : x.session.servicetype2 = true
  · rw [if_pos htype] at hr hm'
    exact hinv.afterSeek_back hbyte htype hm' hr
  · rw [if_neg htype] at hr hm'
    cases hl : locate t.timestamp 0 (x.session.stream 0).segments with
    | none => exact hinv.afterSeek_miss hbyte hl (hl ▸ hm') hr
    | some h => exact hinv.afterSeek_hit htype hl (hl ▸ hm') hr

/-- **Another segment is the current one.** -/
theorem Inv.place (hinv : Inv x) (hm : PlaceMeets x i pos)
    (hn : step x (.place i pos) = some (y, es)) : Inv y ∧ ∀ e ∈ es, e.Right := by
  unfold step at hn
  dsimp only at hn
  split_ifs at hn with hno hagain
  all_goals
    cases hn
    refine ⟨?_, fun e he => absurd he List.not_mem_nil⟩
    have hinput : x.session.input = false := Bool.eq_false_iff.mpr (not_or.mp hno).1
  · rcases hm with ⟨hdue, hseat⟩ | ⟨hcons, hlost⟩
    · have hsame : Same x.session { x.session with
          curSeg := some ⟨i, pos, false⟩, curHls := i, curStreamSeq := i, curSeqNum := pos } :=
            ⟨fun _ => rfl, rfl, rfl, hseat.symm⟩
      refine ⟨hsame.only hinv.only, fun k hk => ?_, fun _ => hinput⟩
      obtain rfl := Option.some.inj hk
      exact hsame.points (hinv.points_getD (.inl hdue))
    · have hclear := hinv.only.clear hcons
      refine ⟨fun j q seg hseg hleft => absurd (hclear j q seg hseg) hleft, fun k hk => ?_, fun _ => hinput⟩
      obtain rfl := Option.some.inj hk
      rw [hlost hagain]
      exact Clear.points hclear
  · rcases hm with ⟨hdue, hseat⟩ | ⟨hcons, -⟩
    · rw [hseat] at hagain
      exact absurd rfl hagain
    · have hclear := hinv.only.clear hcons
      refine ⟨fun j q seg hseg hleft => absurd (hclear j q seg hseg) hleft, fun k hk => ?_, fun _ => hinput⟩
      obtain rfl := Option.some.inj hk
      exact Clear.points hclear

/-- **A segment is opened.** -/
theorem Inv.opens {ok : Bool} (hinv : Inv x) (hn : step x (.opens ok) = some (y, es)) :
    Inv y ∧ ∀ e ∈ es, e.Right := by
  unfold step at hn
  cases hcur : x.session.current with
  | none =>
    rw [hcur] at hn
    cases hn
  | some seg =>
    cases hdue : x.due with
    | none =>
      rw [hcur, hdue] at hn
      cases hn
    | some k =>
      rw [hcur, hdue] at hn
      dsimp only at hn
      have hpoints := hinv.points k hdue
      by_cases hinput : x.session.input = true
      · rw [if_pos hinput] at hn
        cases hn
      rw [if_neg hinput] at hn
      cases ok with
      | true =>
        rw [if_pos rfl] at hn
        cases hn
        refine ⟨Only.inv hinv.only, fun e he => ?_⟩
        obtain rfl := List.mem_singleton.mp he
        exact hpoints.openIndex hcur
      | false =>
        rw [if_neg Bool.false_ne_true] at hn
        cases hn
        refine ⟨⟨hinv.only, fun j hj => ?_, fun _ => rfl⟩, fun e he => absurd he List.not_mem_nil⟩
        obtain rfl := Option.some.inj hj
        exact hpoints

theorem takeOut_left {offset : Int} (hleft : (Session.takeOut offset seg).left ≠ 0) : seg.left ≠ 0 := by
  unfold Session.takeOut at hleft
  cases hindex : seg.iframeCurIndex with
  | none =>
    rw [hindex] at hleft
    exact hleft
  | some k =>
    rw [hindex] at hleft
    dsimp only at hleft
    split_ifs at hleft
    · exact absurd rfl hleft
    · exact hleft

/-- A number may be taken out. -/
theorem Only.takeOut (ho : Only s) (offset : Int) : Only (s.modifyCurrent (Session.takeOut offset)) := by
  unfold Session.modifyCurrent
  cases hseat : s.curSeg with
  | none => exact ho
  | some seat =>
    intro i pos seg hseg hleft
    unfold Session.set at hseg
    dsimp only at hseg
    by_cases hi : i = seat.stream
    · subst hi
      rw [Function.update_self] at hseg
      rw [List.getElem?_modify] at hseg
      obtain ⟨old, hold, rfl⟩ := Option.map_eq_some_iff.mp hseg
      split_ifs at hleft
      · exact ho _ pos old hold (takeOut_left hleft)
      · exact ho _ pos old hold hleft
    · rw [Function.update_of_ne hi] at hseg
      exact ho i pos seg hseg hleft

/-- **A read**: nothing is to be opened. -/
theorem Inv.read {bytes : Option Nat} (hinv : Inv x) (hn : step x (.read bytes) = some (y, es)) :
    Inv y ∧ ∀ e ∈ es, e.Right := by
  have hadvance : ∀ {u : Session}, Only u → Only (u.advance bytes) := by
    intro u ho
    cases bytes <;> exact ho
  unfold step at hn
  split_ifs at hn with hinput hdecrypt hcur
  all_goals
    have hdue : x.due = none := by
      cases hd : x.due with
      | none => rfl
      | some k =>
        have hclosed := hinv.closed (by rw [hd]; rfl)
        rw [hinput] at hclosed
        cases hclosed
    cases hn
    rw [hdue]
    refine ⟨Only.inv (hadvance ?_), fun e he => absurd he List.not_mem_nil⟩
  · exact hinv.only
  · exact hinv.only.takeOut _

/-- **I-frames are added**; the numbers stay. -/
theorem Inv.iframes {more : Nat → List Iframe} {only : Bool} (hinv : Inv x)
    (hn : step x (.iframes i more only) = some (y, es)) : Inv y ∧ ∀ e ∈ es, e.Right := by
  cases hn
  refine ⟨⟨?_, fun k hk => ?_, hinv.closed⟩, fun e he => absurd he List.not_mem_nil⟩
  all_goals
    have hback : ∀ {j pos : Nat} {seg : Segment}, (Function.update x.session.stream i { x.session.stream i with
        segments := (x.session.stream i).segments.mapIdx (fun k seg => { seg with iframes := seg.iframes ++ more k })
        iframeOnly := (x.session.stream i).iframeOnly || only } j).segments[pos]? = some seg →
        ∃ old, (x.session.stream j).segments[pos]? = some old ∧ seg.left = old.left ∧ seg.keyType = old.keyType ∧
          old.iframes.length ≤ seg.iframes.length := by
      intro j pos seg hseg
      by_cases hj : j = i
      · subst hj
        rw [Function.update_self] at hseg
        rw [List.getElem?_mapIdx] at hseg
        obtain ⟨old, hold, rfl⟩ := Option.map_eq_some_iff.mp hseg
        refine ⟨old, hold, rfl, rfl, ?_⟩
        rw [List.length_append]
        exact Nat.le_add_right _ _
      · rw [Function.update_of_ne hj] at hseg
        exact ⟨seg, hseg, rfl, rfl, Nat.le_refl _⟩
  · intro j pos seg hseg hleft
    obtain ⟨old, hold, heq, -, -⟩ := hback hseg
    rw [heq] at hleft
    exact hinv.only j pos old hold hleft
  · intro seg hseg
    obtain ⟨j, pos, hseat, hget⟩ := Session.mem_current hseg
    obtain ⟨old, hold, hleft, hkey, hlen⟩ := hback hget
    have hcur : x.session.current = some old := (current_of_curSeg (s := x.session) hseat).trans hold
    obtain ⟨heq, hat⟩ := hinv.points k hk old hcur
    refine ⟨hleft.trans heq, fun hne => ?_⟩
    obtain ⟨hold', hlt⟩ := hat hne
    refine ⟨?_, Nat.lt_of_lt_of_le hlt hlen⟩
    unfold Session.atIframe at hold' ⊢
    simp only [Bool.and_eq_true] at hold' ⊢
    refine ⟨⟨?_, hold'.1.2⟩, by rw [hkey]; exact hold'.2⟩
    show (Function.update x.session.stream i _ 0).iframeOnly = true
    by_cases hi : 0 = i
    · subst hi
      rw [Function.update_self]
      simp [hold'.1.1]
    · rw [Function.update_of_ne hi]
      exact hold'.1.1

/-- **One step** keeps the invariant, and its effects are right. -/
theorem Inv.step {i : Input} (hinv : Inv x) (hm : Meets x i) (hn : step x i = some (y, es)) :
    Inv y ∧ ∀ e ∈ es, e.Right := by
  cases i with
  | seek t p => exact hinv.seek hm hn
  | place i pos => exact hinv.place hm hn
  | opens ok => exact hinv.opens hn
  | read bytes => exact hinv.read hn
  | iframes i more only => exact hinv.iframes hn
  | adjust i =>
    cases hn
    have hsame : Same x.session { x.session with curStreamSeq := i, curHls := i } := ⟨fun _ => rfl, rfl, rfl, rfl⟩
    exact ⟨⟨hsame.only hinv.only, fun k hk => hsame.points (hinv.points k hk), hinv.closed⟩,
      fun e he => absurd he List.not_mem_nil⟩
  | load i p =>
    cases hn
    refine ⟨⟨hinv.only.parse i p, fun k hk => (hinv.points k hk).parse i p, fun hdue => ?_⟩,
      fun e he => absurd he List.not_mem_nil⟩
    have hinput := hinv.closed hdue
    cases p <;> exact hinput

/-! ## Runs -/

/-- A session as it was opened: the lists were read, and no segment is to be opened. -/
structure Opened (x : Play) : Prop where
  clear : Clear x.session
  due : x.due = none

theorem Opened.inv (hx : Opened x) : Inv x := by
  obtain ⟨s, due⟩ := x
  obtain rfl : due = none := hx.due
  exact Only.inv (Clear.only hx.clear)

/-- **Every seek, and every segment that is opened.** In a run whose steps all meet the condition, each seek gets to the
    segment and the time it is to get to, and each segment is opened at the I-frame that the last seek wanted, or at its
    beginning. -/
theorem run_wanted {start x : Play} {is : List Input} {es : List Event} (hstart : Opened start)
    (hrun : Run step Meets start is x es) : ∀ e ∈ es, e.Right := by
  have hinv := Run.inv_effects (fun _ x es => Inv x ∧ ∀ e ∈ es, Event.Right e)
    ⟨hstart.inv, fun e he => absurd he List.not_mem_nil⟩
    (fun is x es i y fs hpre hm hn => by
      obtain ⟨hnext, hright⟩ := hpre.1.step hm hn
      refine ⟨hnext, fun e he => ?_⟩
      rcases List.mem_append.mp he with he | he
      · exact hpre.2 e he
      · exact hright e he) hrun
  exact hinv.2

instance (s : Session) (c : Choice) : Decidable (Leaves s c) :=
  decidable_of_iff
    ((c.iframe.getD 0 = 0 ∨ s.curStreamSeq = 0 ∧ ∀ seg ∈ (s.stream 0).segments[c.pos]?, s.atIframe seg = true) ∧
      (Consumed s ∨ c.iframe ≠ none ∧ s.curSeg = some ⟨0, c.pos, false⟩))
    ⟨fun h => ⟨h.1, h.2⟩, fun h => ⟨h.played, h.before⟩⟩

instance (x : Play) (t : Target) : (o : Option Hit) → Decidable (FrontMeets x t o)
  | some h => inferInstanceAs (Decidable (Leaves x.session (choose (x.session.stream 0).segments h t) ∧
      IsInt (90 * (choose (x.session.stream 0).segments h t).offsetTime)))
  | none => inferInstanceAs (Decidable (Consumed x.session ∨
      x.due.isSome = true ∧ t.timestamp < duration (x.session.stream 0).segments))

instance (x : Play) (t : Target) : Decidable (SeekMeets x t) :=
  inferInstanceAs (Decidable (t.byte = true ∨ if x.session.servicetype2 then Consumed x.session
    else FrontMeets x t (locate t.timestamp 0 (x.session.stream 0).segments)))

instance (x : Play) (i pos : Nat) : Decidable (PlaceMeets x i pos) :=
  inferInstanceAs (Decidable (x.due.isSome = true ∧ x.session.curSeg = some ⟨i, pos, false⟩ ∨
    Consumed x.session ∧ (x.session.curSeg.map (fun seat => (seat.stream, seat.pos)) = some (i, pos) →
      x.due.getD 0 = 0)))

instance (x : Play) : (i : Input) → Decidable (Meets x i)
  | .seek t _ => inferInstanceAs (Decidable (SeekMeets x t))
  | .place i pos => inferInstanceAs (Decidable (PlaceMeets x i pos))
  | .adjust _ | .opens _ | .read _ | .load _ _ | .iframes _ _ _ => isTrue trivial

/-- Three seconds, with an I-frame of 300 bytes for each. -/
def threeSeconds (startTime : Int) : Segment :=
  ⟨.none, 3000, startTime, 0, [⟨300, 564, 0, 1000⟩, ⟨300, 10000, 1000, 1000⟩, ⟨300, 20000, 2000, 1000⟩], none⟩

/-- A list with two such segments. -/
def twoSegments : Play where
  due := none
  session := {
    servicetype2 := false
    hicache := false
    stream := fun _ => ⟨0, [threeSeconds 0, threeSeconds 3000], 0, true⟩
    curStreamSeq := 0
    curHls := 0
    curSeg := none
    curSeqNum := 0
    timeshiftStart := 0
    input := false
    decrypt := false
    offset := 0
    seekOffset := 0
    setOffset := false
    ptsOffset := 0
    lastTime := [0]
    lastOrgPts := [0] }

theorem opened_twoSegments : Opened twoSegments := by
  refine ⟨fun i pos seg hseg => ?_, rfl⟩
  have hmem : seg ∈ [threeSeconds 0, threeSeconds 3000] := List.mem_of_getElem? hseg
  rw [List.mem_cons, List.mem_singleton] at hmem
  rcases hmem with rfl | rfl <;> rfl

/-- The last I-frame of a segment is read before the seek to the first one. -/
def readFirst : List Input :=
  [.seek ⟨2500, false, true⟩ .fails, .opens true, .read (some 400), .read (some 400),
    .seek ⟨500, false, true⟩ .fails, .opens true]

/-- Both segments are opened at the I-frame that was chosen. -/
theorem run_wanted_readFirst :
    ∃ x es, Run step Meets twoSegments readFirst x es ∧
      es = [.sought (0, 180000) (0, 180000), .opened 2 2, .sought (0, 0) (0, 0), .opened 0 0] ∧ ∀ e ∈ es, e.Right := by
  exact exists_run_imp (fun _ es => es = [.sought (0, 180000) (0, 180000), .opened 2 2,
    .sought (0, 0) (0, 0), .opened 0 0])
    (by decide) fun _ _ hrun htest => ⟨htest, run_wanted opened_twoSegments hrun⟩

/-- A list with one segment of eleven hours, which has an I-frame at its beginning and one far behind. -/
def longSegment : Play :=
  { twoSegments with
    session := { twoSegments.session with
      stream := fun _ =>
        ⟨0, [⟨.none, 40000000, 0, 0, [⟨300, 564, 0, 1000⟩, ⟨300, 10000, 23860930, 1000⟩], none⟩], 0, true⟩ } }

/-- A run of which not all is right. -/
theorem wrong_of_exec {start : Play} {is : List Input} {e : Event} (he : ¬ e.Right)
    (hexec : (exec step always start is).any (fun r => decide (e ∈ r.2)) = true) :
    ∃ x es, Run step always start is x es ∧ ¬ ∀ e ∈ es, e.Right := by
  obtain ⟨x, es, hrun, htest⟩ := exists_run_of_exec step always start is _ hexec
  exact ⟨x, es, hrun, fun hright => he (hright e (of_decide_eq_true htest))⟩

/-- **A number that is left.** A seek to 2.5 s leaves the third I-frame, and one to 0.5 s, which chooses none, opens the
    segment there. And after the first seek the second segment is played, and then the first one from its beginning: it
    is opened at the third I-frame too. And behind an I-frame at 23860930 ms `seek_offset` is negative. -/
theorem number_left :
    (∃ x es, Run step always twoSegments
        [.seek ⟨2500, false, true⟩ .fails, .seek ⟨500, false, true⟩ .fails, .opens true] x es ∧ ¬ ∀ e ∈ es, e.Right) ∧
      (∃ x es, Run step always twoSegments
        [.seek ⟨2500, false, true⟩ .fails, .seek ⟨3500, false, true⟩ .fails, .opens true, .read none, .place 0 0,
          .opens true] x es ∧
          ¬ ∀ e ∈ es, e.Right) ∧
        ∃ x es, Run step always longSegment [.seek ⟨30000000, false, true⟩ .fails] x es ∧ ¬ ∀ e ∈ es, e.Right := by
  refine ⟨?_, ?_, ?_⟩
  · exact wrong_of_exec (e := .opened 2 0) (show ¬ 2 = 0 by decide) (by decide)
  · exact wrong_of_exec (e := .opened 2 0) (show ¬ 2 = 0 by decide) (by decide)
  · exact wrong_of_exec (e := .sought (0, -2147483596) (0, 2147483700)) (show ¬ (_, _) = (_, _) by decide) (by decide)

end HiSTB.Hls.Seek
