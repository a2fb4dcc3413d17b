import HiSTB.Hls.Seek
import Mathlib.Algebra.BigOperators.Group.List.Basic

/-!
# `Hls.Correctness.Seek` — where a seek gets to

The number of the segment that was found in the list of `hls_stream[0]` is a subscript for the list of the current
variant, with no look at its length. The reading is reset, and `seek_offset` with it, before the search is known to
succeed.

* `locate_spec`, `locateBack_spec` — what the loops over the segments find;
* `seekFront_hit`, `seekBack_hit` — a segment that is found is the current one, in a variant that has as many;
* `readSeek_right_iff` — when a seek does what it should (`SeekOk`); `short_variant` — when it does not.
-/

namespace HiSTB.Hls.Seek

open Lib (int32)

variable {s s' : Session} {t : Target} {p : Parse} {segs : List Segment} {h : Hit}

variable {seg : Segment} {before : List Segment} {hit j : Nat}

/-! ## What is claimed -/

/-- The list that is searched, with the session as it is then. -/
def Session.searched (s : Session) (p : Parse) : Session := if s.servicetype2 then (s.hlsParseM3U8 0 p).1 else s

/-- A segment contains a time, with others before it. -/
def Contains (t : Int) (before : List Segment) (seg : Segment) : Prop :=
  duration before ≤ t ∧ t < duration before + seg.totalTime

/-- The segment to play is the one that was found, or the next one where a seek forward has no I-frame to go to in that
    one. -/
def Aims (servicetype2 : Bool) (t : Target) (before : List Segment) (seg : Segment) (hit j : Nat) : Prop :=
  j = hit ∨ servicetype2 = false ∧ t.backward = false ∧ j = hit + 1 ∧
    ∀ k < seg.iframes.length, seg.offsetTime k < t.timestamp - duration before

/-- A segment was found, and another one or the same is played. -/
structure Placed (servicetype2 : Bool) (segs before : List Segment) (t : Target) (s' : Session) (hit j : Nat)
    (seg : Segment) :
    Prop where
  found : segs[hit]? = some seg
  contains : Contains t.timestamp before seg
  aims : Aims servicetype2 t before seg hit j
  lt_length : j < segs.length
  lt_current : j < (s'.stream s'.curStreamSeq).segments.length
  segCur : (s'.stream 0).segCur = int32 ((s'.stream 0).segStart + j)
  curSeg : s'.curSeg = some ⟨s'.curStreamSeq, j, false⟩

/-- The target is behind the last segment, and the position too. -/
structure Past (segs : List Segment) (t : Target) (s' : Session) : Prop where
  behind : duration segs ≤ t.timestamp
  segCur : (s'.stream 0).segCur = int32 ((s'.stream 0).segStart + segs.length)
  curSeg : s'.curSeg = none

/-- The position, the current segment, which was not freed, and the offsets of the time stamps are as before. -/
structure Unmoved (s s' : Session) : Prop where
  segCur : (s'.stream 0).segCur = (s.stream 0).segCur
  curSeg : s'.curSeg = s.curSeg
  seekOffset : s'.seekOffset = s.seekOffset
  ptsOffset : s'.ptsOffset = s.ptsOffset

/-- The segments before the one in the place `hit`, in the order of the search. -/
def beforeHit (servicetype2 : Bool) (segs : List Segment) (hit : Nat) : List Segment :=
  if servicetype2 then segs.drop (hit + 1) else segs.take hit

/-- **What is claimed of a seek.** It stays inside of the lists. -/
def Right (s : Session) (t : Target) (p : Parse) : Prop :=
  let segs := ((s.searched p).stream 0).segments
  ∃ s' r, s.readSeek t p = some (s', r) ∧
    (r = .success → Past segs t s' ∨ ∃ hit j seg,
      Placed s.servicetype2 segs (beforeHit s.servicetype2 segs hit) t s' hit j seg) ∧
    (r = .error → Unmoved s s')

/-! ## When it holds -/

/-- The number of segments of the current variant, after the list was loaded. -/
def currentNb (s : Session) (p : Parse) : Nat := ((s.searched p).stream s.curStreamSeq).segments.length

/-- The list was not loaded as a whole, and the current segment was not freed in the attempt. -/
def Kept (s : Session) : Parse → Prop
  | .fails => True
  | .breaks _ => ∀ seat ∈ s.curSeg, seat.stream = 0 → seat.freed = true
  | .reads _ => False

/-- In a search from the front: the current variant has the segment to play; a target that is in no segment is behind
    the last one, or there was no `seek_offset`. -/
def FrontOk (s : Session) (t : Target) : Prop :=
  match locate t.timestamp 0 (s.stream 0).segments with
  | some h => (choose (s.stream 0).segments h t).pos < (s.stream s.curStreamSeq).segments.length
  | none => duration (s.stream 0).segments ≤ t.timestamp ∨ s.seekOffset = 0

/-- In a search from the back: there are segments, and the current variant has the one that is found; otherwise the list
    could not be loaded, the current segment was not freed, and there was no `seek_offset`. -/
def BackOk (s : Session) (t : Target) (p : Parse) : Prop :=
  let segs := ((s.searched p).stream 0).segments
  segs ≠ [] ∧
    match locateBack t.timestamp segs with
    | some h => h.pos < currentNb s p
    | none => Kept s p ∧ s.seekOffset = 0

/-- A seek is by bytes, which is refused, or the search is as above. -/
def SeekOk (s : Session) (t : Target) (p : Parse) : Prop :=
  t.byte = true ∨ if s.servicetype2 then BackOk s t p else FrontOk s t

/-! ## The loops -/

theorem duration_reverse (as : List Segment) : duration as.reverse = duration as := by
  unfold duration
  rw [List.map_reverse, List.sum_reverse]

/-- **What the loop over the segments finds** contains the target. -/
theorem locate_spec {n : Int} (hl : locate t.timestamp n segs = some h) :
    segs[h.pos]? = some h.seg ∧ h.before = n + duration (segs.take h.pos) ∧ h.before ≤ t.timestamp ∧
      t.timestamp < h.before + h.seg.totalTime := by
  induction segs generalizing n h with
  | nil => cases hl
  | cons seg segs ih =>
    rw [locate] at hl
    split_ifs at hl with hin
    · obtain rfl := Option.some.inj hl
      exact ⟨rfl, (Int.add_zero n).symm, hin.1, hin.2⟩
    · obtain ⟨h', hl', rfl⟩ := Option.map_eq_some_iff.mp hl
      obtain ⟨hseg, hbefore, hle, hlt⟩ := ih hl'
      refine ⟨hseg, ?_, hle, hlt⟩
      show h'.before = n + duration ((seg :: segs).take (h'.pos + 1))
      rw [List.take_succ_cons, hbefore, Int.add_assoc]
      rfl

theorem lt_length_of_found {i : Nat} (hseg : segs[i]? = some seg) : i < segs.length :=
  (List.getElem?_eq_some_iff.mp hseg).1

/-- From the back it is the segments behind that come before. -/
theorem locateBack_spec (hl : locateBack t.timestamp segs = some h) :
    segs[h.pos]? = some h.seg ∧ Contains t.timestamp (segs.drop (h.pos + 1)) h.seg := by
  obtain ⟨h', hl', rfl⟩ := Option.map_eq_some_iff.mp hl
  obtain ⟨hseg, hbefore, hle, hlt⟩ := locate_spec hl'
  have hpos : h'.pos < segs.length := by
    have := lt_length_of_found hseg
    rwa [List.length_reverse] at this
  rw [List.getElem?_reverse hpos] at hseg
  refine ⟨hseg, ?_⟩
  have hdrop : segs.drop (segs.length - 1 - h'.pos + 1) = (segs.reverse.take h'.pos).reverse := by
    rw [List.take_reverse, List.reverse_reverse]
    congr 1
    omega
  unfold Contains
  rw [hdrop, duration_reverse, ← Int.zero_add (duration _), ← hbefore]
  exact ⟨hle, hlt⟩

/-! ## The search for an I-frame -/

theorem choose_pos (hseg : segs[h.pos]? = some h.seg) : (choose segs h t).pos < segs.length := by
  have hpos := lt_length_of_found hseg
  unfold choose
  by_cases hback : t.backward = true
  · rw [if_pos hback]
    cases chooseBackward h.seg (t.timestamp - h.before) <;> exact hpos
  · rw [if_neg hback]
    cases chooseForward h.seg (t.timestamp - h.before) with
    | some k => exact hpos
    | none =>
      split_ifs with hnext hiframes
      · exact hnext
      · exact hpos
      · exact hpos

/-- The next segment is taken forward only, where no I-frame is left. -/
theorem choose_aims (hbefore : h.before = duration before) :
    Aims false t before h.seg h.pos (choose segs h t).pos := by
  unfold choose
  by_cases hback : t.backward = true
  · rw [if_pos hback]
    cases chooseBackward h.seg (t.timestamp - h.before) <;> exact .inl rfl
  · rw [if_neg hback]
    cases hk : chooseForward h.seg (t.timestamp - h.before) with
    | some k => exact .inl rfl
    | none =>
      split_ifs with hnext hiframes
      · refine .inr ⟨rfl, Bool.eq_false_iff.mpr hback, rfl, fun k hlt => ?_⟩
        have hno := List.find?_eq_none.mp hk k (List.mem_range.mpr hlt)
        rw [decide_eq_true_iff] at hno
        rw [← hbefore]
        exact Int.not_le.mp hno
      · exact .inl rfl
      · exact .inl rfl

theorem length_leave (segs : List Segment) (c : Choice) : (leave segs c).length = segs.length := by
  unfold leave
  cases c.iframe with
  | none => rfl
  | some k => exact List.length_modify ..

/-! ## The parts of a seek -/

theorem found_segments (j x : Int) (i : Nat) : ((s.found j x).stream i).segments = (s.stream i).segments := by
  unfold Session.found Session.set
  dsimp only
  by_cases hi : i = 0
  · subst hi
    rw [Function.update_self]
  · rw [Function.update_of_ne hi]

theorem found_iframeOnly (j x : Int) : ((s.found j x).stream 0).iframeOnly = (s.stream 0).iframeOnly := by
  unfold Session.found Session.set
  dsimp only
  rw [Function.update_self]

theorem leaveIframe_segments (c : Choice) (i : Nat) :
    ((s.leaveIframe c).stream i).segments = if i = 0 then leave (s.stream 0).segments c else (s.stream i).segments := by
  unfold Session.leaveIframe Session.set
  dsimp only
  by_cases hi : i = 0
  · subst hi
    rw [Function.update_self, if_pos rfl]
  · rw [Function.update_of_ne hi, if_neg hi]

theorem leaveIframe_iframeOnly (c : Choice) : ((s.leaveIframe c).stream 0).iframeOnly = (s.stream 0).iframeOnly := by
  unfold Session.leaveIframe Session.set
  dsimp only
  rw [Function.update_self]

/-- The number of segments stays what it was. -/
theorem length_leaveIframe (c : Choice) (i : Nat) :
    ((s.leaveIframe c).stream i).segments.length = (s.stream i).segments.length := by
  rw [leaveIframe_segments]
  split_ifs with hi
  · rw [length_leave, hi]
  · rfl

theorem found_segCur (j x : Int) : ((s.found j x).stream 0).segCur = int32 (((s.found j x).stream 0).segStart + j) := by
  unfold Session.found Session.set
  dsimp only
  rw [Function.update_self]

/-- **The end of a search that found a segment.** It is inside of the list of the current variant, or the seek reads
    outside. -/
theorem settle_found {x : Int} (hseg : segs[hit]? = some seg)
    (hcontains : Contains t.timestamp before seg) (haims : Aims s.servicetype2 t before seg hit j)
    (hj : j < segs.length) :
    (j < (s.stream s.curStreamSeq).segments.length →
      ∃ s', (s.found j x).flush.settle j = some (s', .success) ∧ Placed s.servicetype2 segs before t s' hit j seg) ∧
    (¬ j < (s.stream s.curStreamSeq).segments.length → (s.found j x).flush.settle j = none) := by
  have hlen : ((s.found j x).flush.stream (s.found j x).flush.curStreamSeq).segments.length =
      (s.stream s.curStreamSeq).segments.length := congrArg List.length (found_segments j x s.curStreamSeq)
  unfold Session.settle
  rw [hlen]
  refine ⟨fun hcur => ?_, fun hcur => if_neg hcur⟩
  rw [if_pos hcur]
  refine ⟨_, rfl, hseg, hcontains, haims, hj, ?_, found_segCur (s := s) j x, rfl⟩
  rw [← hlen] at hcur
  exact hcur

/-! ## From the front -/

/-- A segment is found. -/
theorem seekFront_hit (hfront : s.servicetype2 = false) (hl : locate t.timestamp 0 (s.stream 0).segments = some h) :
    ((choose (s.stream 0).segments h t).pos < (s.stream s.curStreamSeq).segments.length →
      ∃ s', s.seekFront t = some (s', .success) ∧
        Placed s.servicetype2 (s.stream 0).segments ((s.stream 0).segments.take h.pos) t s' h.pos
          (choose (s.stream 0).segments h t).pos h.seg) ∧
    (¬ (choose (s.stream 0).segments h t).pos < (s.stream s.curStreamSeq).segments.length → s.seekFront t = none) := by
  obtain ⟨hseg, hbefore, hle, hlt⟩ := locate_spec hl
  rw [Int.zero_add] at hbefore
  have hpos := choose_pos (t := t) hseg
  unfold Session.seekFront
  dsimp only
  rw [hl]
  dsimp only
  rw [List.getElem?_eq_getElem hpos, Option.bind_some]
  have hcontains : Contains t.timestamp ((s.stream 0).segments.take h.pos) h.seg := by
    unfold Contains
    rw [← hbefore]
    exact ⟨hle, hlt⟩
  have haims : Aims s.servicetype2 t ((s.stream 0).segments.take h.pos) h.seg h.pos
      (choose (s.stream 0).segments h t).pos := by
    rw [hfront]
    exact choose_aims hbefore
  have hend := settle_found (s := s.leaveIframe (choose (s.stream 0).segments h t))
    (x := int32 (90 * (choose (s.stream 0).segments h t).offsetTime) +
      90 * ((s.stream 0).segments[(choose (s.stream 0).segments h t).pos]).startTime) hseg hcontains haims hpos
  rw [length_leaveIframe] at hend
  exact hend

/-- No segment is found. -/
theorem seekFront_miss (hl : locate t.timestamp 0 (s.stream 0).segments = none) :
    (duration (s.stream 0).segments ≤ t.timestamp →
      ∃ s', s.seekFront t = some (s', .success) ∧ Past (s.stream 0).segments t s') ∧
    (¬ duration (s.stream 0).segments ≤ t.timestamp → s.seekFront t = some (s.flush, .error)) := by
  unfold Session.seekFront
  dsimp only
  rw [hl]
  refine ⟨fun hle => ?_, fun hle => if_neg hle⟩
  rw [if_pos hle]
  exact ⟨_, rfl, hle, found_segCur (s := s) _ 0, rfl⟩

/-! ## From the back -/

/-- A segment is found in the list that was loaded. -/
theorem seekBack_hit
    (hl : locateBack t.timestamp ((s.hlsParseM3U8 0 p).1.stream 0).segments = some h) :
    (h.pos < ((s.hlsParseM3U8 0 p).1.stream s.curStreamSeq).segments.length →
      ∃ s', s.seekBack t p = some (s', .success) ∧ Placed s.servicetype2 ((s.hlsParseM3U8 0 p).1.stream 0).segments
          (((s.hlsParseM3U8 0 p).1.stream 0).segments.drop (h.pos + 1)) t s' h.pos h.pos h.seg) ∧
    (¬ h.pos < ((s.hlsParseM3U8 0 p).1.stream s.curStreamSeq).segments.length → s.seekBack t p = none) := by
  obtain ⟨hseg, hcontains⟩ := locateBack_spec hl
  have hpos := lt_length_of_found hseg
  have hne : ((s.hlsParseM3U8 0 p).1.stream 0).segments ≠ [] := List.ne_nil_of_length_pos (Nat.zero_lt_of_lt hpos)
  have hcur : (s.hlsParseM3U8 0 p).1.curStreamSeq = s.curStreamSeq := by
    cases p <;> rfl
  have htype : (s.hlsParseM3U8 0 p).1.servicetype2 = s.servicetype2 := by
    cases p <;> rfl
  unfold Session.seekBack
  rw [if_neg hne, hl]
  have hend := settle_found (s := (s.hlsParseM3U8 0 p).1)
    (x := 90 * 1000 * (h.seg.programTime - (s.hlsParseM3U8 0 p).1.timeshiftStart)) hseg hcontains (.inl rfl) hpos
  rw [hcur, htype] at hend
  exact hend

/-- No segment is found: an error where the list was not loaded, otherwise the subscript is -1. -/
theorem seekBack_miss (hne : ((s.hlsParseM3U8 0 p).1.stream 0).segments ≠ [])
    (hl : locateBack t.timestamp ((s.hlsParseM3U8 0 p).1.stream 0).segments = none) :
    s.seekBack t p = if (s.hlsParseM3U8 0 p).2 then none else some ((s.hlsParseM3U8 0 p).1.flush, .error) := by
  unfold Session.seekBack
  rw [if_neg hne, hl]

/-! ## The seek -/

theorem readSeek_byte (hbyte : t.byte = true) : s.readSeek t p = some (s, .error) := by
  unfold Session.readSeek
  rw [if_pos hbyte]

theorem right_of_success {s' : Session} (hret : s.readSeek t p = some (s', .success))
    (hplaced : Placed s.servicetype2 ((s.searched p).stream 0).segments
      (beforeHit s.servicetype2 ((s.searched p).stream 0).segments hit) t s' hit j seg) : Right s t p :=
  ⟨s', .success, hret, fun _ => .inr ⟨hit, j, seg, hplaced⟩, fun hr => Ret.noConfusion hr⟩

/-- An error is right where nothing of what counts has changed. -/
theorem right_iff_of_error (hret : s.readSeek t p = some (s', .error)) : Right s t p ↔ Unmoved s s' := by
  constructor
  · rintro ⟨s'', r, hr, -, herror⟩
    rw [hret] at hr
    cases hr
    exact herror rfl
  · intro h
    exact ⟨s', .error, hret, fun hr => Ret.noConfusion hr, fun _ => h⟩

theorem not_right (hret : s.readSeek t p = none) : ¬ Right s t p := by
  rintro ⟨s'', r, hr, -, -⟩
  rw [hret] at hr
  cases hr

/-- From the front. -/
theorem right_iff_front (hbyte : t.byte = false) (hfront : s.servicetype2 = false) : Right s t p ↔ FrontOk s t := by
  have hread : s.readSeek t p = s.resetReading.seekFront t := by
    unfold Session.readSeek
    rw [hbyte, hfront]
    rfl
  have hsearched : s.searched p = s := by
    unfold Session.searched
    rw [hfront]
    rfl
  unfold FrontOk
  cases hl : locate t.timestamp 0 (s.stream 0).segments with
  | some h =>
    obtain ⟨hyes, hno⟩ := seekFront_hit (s := s.resetReading) hfront hl
    rw [← hread] at hyes hno
    constructor
    · intro hright
      by_contra hout
      exact not_right (hno hout) hright
    · intro hin
      obtain ⟨s', hret, hplaced⟩ := hyes hin
      apply right_of_success hret
      rw [hsearched, beforeHit, hfront, if_neg Bool.false_ne_true]
      rw [show s.resetReading.servicetype2 = false from hfront] at hplaced
      exact hplaced
  | none =>
    obtain ⟨hyes, hno⟩ := seekFront_miss (s := s.resetReading) hl
    rw [← hread] at hyes hno
    by_cases hle : duration (s.stream 0).segments ≤ t.timestamp
    · obtain ⟨s', hret, hpast⟩ := hyes hle
      refine iff_of_true ⟨s', .success, hret, fun _ => .inl ?_, fun hr => Ret.noConfusion hr⟩ (.inl hle)
      rw [hsearched]
      exact hpast
    · rw [right_iff_of_error (hno hle), or_iff_right hle]
      exact ⟨fun h => h.seekOffset.symm, fun h => ⟨rfl, rfl, h.symm, rfl⟩⟩

/-- The list that could not be loaded as a whole. -/
theorem unmoved_iff (hret : (s.hlsParseM3U8 0 p).2 = false) :
    Unmoved s (s.resetReading.hlsParseM3U8 0 p).1.flush ↔ Kept s p ∧ s.seekOffset = 0 := by
  cases p with
  | reads p => cases hret
  | fails => exact ⟨fun h => ⟨trivial, h.seekOffset.symm⟩, fun h => ⟨rfl, rfl, h.2.symm, rfl⟩⟩
  | breaks p =>
    have hcur : ((s.resetReading.hlsParseM3U8 0 (.breaks p)).1.flush.stream 0).segCur = (s.stream 0).segCur := by
      show (Function.update s.stream 0 _ 0).segCur = _
      rw [Function.update_self]
      rfl
    have hseat : (s.resetReading.hlsParseM3U8 0 (.breaks p)).1.flush.curSeg = s.curSeg ↔ Kept s (.breaks p) := by
      show s.curSeg.map (fun seat => if seat.stream = 0 then { seat with freed := true } else seat) = s.curSeg ↔ _
      unfold Kept
      cases s.curSeg with
      | none => exact iff_of_true rfl (fun _ h => by cases h)
      | some seat =>
        constructor
        · intro heq seat' hmem hzero
          obtain rfl := Option.some.inj hmem
          have hfreed := Option.some.inj heq
          dsimp only at hfreed
          rw [if_pos hzero] at hfreed
          exact (congrArg Seat.freed hfreed).symm
        · intro hkept
          refine congrArg some ?_
          dsimp only
          split_ifs with hzero
          · have hfreed := hkept seat rfl hzero
            rw [← hfreed]
          · rfl
    exact ⟨fun h => ⟨hseat.mp h.curSeg, h.seekOffset.symm⟩, fun h => ⟨hcur, hseat.mpr h.1, h.2.symm, rfl⟩⟩

/-- From the back. -/
theorem right_iff_back (hbyte : t.byte = false) (hback : s.servicetype2 = true) : Right s t p ↔ BackOk s t p := by
  have hread : s.readSeek t p = s.resetReading.seekBack t p := by
    unfold Session.readSeek
    rw [hbyte, hback]
    rfl
  have hsearched : s.searched p = (s.hlsParseM3U8 0 p).1 := by
    unfold Session.searched
    rw [hback]
    rfl
  -- the reset leaves the lists
  have hstream : (s.resetReading.hlsParseM3U8 0 p).1.stream = (s.hlsParseM3U8 0 p).1.stream := by
    cases p <;> rfl
  have hret : (s.resetReading.hlsParseM3U8 0 p).2 = (s.hlsParseM3U8 0 p).2 := by
    cases p <;> rfl
  unfold BackOk currentNb
  rw [hsearched, ← hstream]
  by_cases hne : ((s.resetReading.hlsParseM3U8 0 p).1.stream 0).segments = []
  · refine iff_of_false (not_right ?_) (fun h => h.1 hne)
    rw [hread]
    unfold Session.seekBack
    rw [if_pos hne]
  rw [and_iff_right hne]
  cases hl : locateBack t.timestamp ((s.resetReading.hlsParseM3U8 0 p).1.stream 0).segments with
  | some h =>
    obtain ⟨hyes, hno⟩ := seekBack_hit (s := s.resetReading) hl
    rw [← hread] at hyes hno
    constructor
    · intro hright
      by_contra hout
      exact not_right (hno hout) hright
    · intro hin
      obtain ⟨s', hsuccess, hplaced⟩ := hyes hin
      apply right_of_success hsuccess
      rw [hsearched, ← hstream, beforeHit, hback, if_pos rfl]
      rw [show s.resetReading.servicetype2 = true from hback] at hplaced
      exact hplaced
  | none =>
    have hmiss := seekBack_miss hne hl
    rw [← hread, hret] at hmiss
    cases hr : (s.hlsParseM3U8 0 p).2 with
    | true =>
      rw [hr] at hmiss
      refine iff_of_false (not_right hmiss) (fun h => ?_)
      cases p with
      | fails => cases hr
      | breaks p => cases hr
      | reads p => exact h.1
    | false =>
      rw [hr] at hmiss
      rw [right_iff_of_error hmiss, unmoved_iff hr]

/-- **Where a seek gets to.** For every session, target and playlist. -/
theorem readSeek_right_iff (s : Session) (t : Target) (p : Parse) : Right s t p ↔ SeekOk s t p := by
  unfold SeekOk
  cases hbyte : t.byte with
  | true => exact iff_of_true ((right_iff_of_error (readSeek_byte hbyte)).mpr ⟨rfl, rfl, rfl, rfl⟩) (.inl rfl)
  | false =>
      rw [or_iff_right Bool.false_ne_true]
      cases htype : s.servicetype2 with
      | true => exact right_iff_back hbyte htype
      | false => exact right_iff_front hbyte htype

/-- Ten seconds without a key and without I-frames. -/
def tenSeconds (startTime : Int) : Segment := ⟨.none, 10000, startTime, 0, [], none⟩

/-- `hls_stream[0]` has two segments, and the current variant has one; it is played from 10 s on. -/
def shortVariant (servicetype2 : Bool) : Session where
  servicetype2 := servicetype2
  hicache := false
  stream := fun i => if i = 0 then ⟨0, [tenSeconds 0, tenSeconds 10000], 0, false⟩ else ⟨0, [tenSeconds 0], 0, false⟩
  curStreamSeq := 1
  curHls := 1
  curSeg := some ⟨1, 0, false⟩
  curSeqNum := 0
  timeshiftStart := 0
  input := true
  decrypt := false
  offset := 0
  seekOffset := 900000
  setOffset := true
  ptsOffset := 0
  lastTime := [0]
  lastOrgPts := [0]

/-- **Outside of the list.** A target in the second segment; a target before the first one, where the seek fails but
    `seek_offset` is gone; and a target behind the last one, in a list that was loaded. -/
theorem short_variant :
    ¬ Right (shortVariant false) ⟨15000, false, true⟩ .fails ∧
      ¬ Right (shortVariant false) ⟨-1, false, true⟩ .fails ∧
        ¬ Right (shortVariant true) ⟨20000, false, true⟩ (.reads ⟨0, [tenSeconds 0, tenSeconds 10000]⟩) := by
  refine ⟨not_right rfl, ?_, not_right rfl⟩
  have hret : (shortVariant false).readSeek ⟨-1, false, true⟩ .fails =
      some ((shortVariant false).resetReading.flush, .error) := rfl
  rw [right_iff_of_error hret]
  intro h
  exact absurd h.seekOffset (by decide)

end HiSTB.Hls.Seek
