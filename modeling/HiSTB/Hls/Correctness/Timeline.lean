import HiSTB.Hls.Packet
import Mathlib.Data.List.Chain
import Mathlib.Order.Basic

/-!
# `Hls.Correctness.Timeline` — the time stamps of a stream do not jump

When the timeline changes, the first packet of the new one renews the offset, and the other streams meet an offset that
fits their packets of the new timeline too, since every stream jumps by the same amount. A packet of the old timeline
that comes later meets an offset that does not fit it.

* `readPacket_eq` — what one call does with a packet;
* `Advances` — how the packets of a stream follow each other; `InStep` — how those of all the streams do;
* `Inv`, `Inv.step` — how far the streams are from the offset;
* `run_smooth` — in every run that meets `InStep`, no stream jumps;
* `thrown_away` — what happens without.
-/

namespace HiSTB.Hls

open Lib

variable {s : SegDemux} {k : Nat} {time shift : Int} {q : Past}

/-! ## One call -/

/-- Does a packet renew the offset? -/
def Renews (s : SegDemux) (k : Nat) (time : Int) : Prop :=
  (s.setOffset = false ∨ Int.natAbs (s.lastTime k - (time + s.ptsOffset)) ≥ discontinueMaxTime) ∧
    Int.natAbs (time - s.lastOrgPts k) ≥ discontinueMaxTime
deriving Decidable

/-- The offset behind a packet. -/
def newOffset (s : SegDemux) (k : Nat) (time : Int) : Int :=
  if Renews s k time then s.lastTime k - time else s.ptsOffset

theorem calculateOffset_eq (s : SegDemux) (i : Input) :
    calculateOffset s i.packet = { s with setOffset := true, ptsOffset := newOffset s i.streamIndex i.time } := by
  obtain ⟨lastTime, lastOrgPts, ptsOffset, setOffset, seekOffset⟩ := s
  unfold calculateOffset newOffset Renews
  simp only [Input.packet, if_true]
  by_cases hfar : Int.natAbs (lastTime i.streamIndex - (i.time + ptsOffset)) ≥ discontinueMaxTime
  · simp only [hfar, if_true, Bool.not_false, or_true, true_and]
    split_ifs <;> rfl
  · simp only [hfar, if_false, or_false]
    cases setOffset with
    | true => simp
    | false =>
      simp only [Bool.not_false, if_true, true_and]
      split_ifs <;> rfl

/-- **What one call does** with a packet that has one time stamp. -/
theorem readPacket_eq (s : SegDemux) (i : Input) :
    ∃ lastTime, readPacket s i.packet i.hlsFinished =
        (⟨lastTime, Function.update s.lastOrgPts i.streamIndex i.time, newOffset s i.streamIndex i.time,
          true, s.seekOffset⟩,
          ⟨i.streamIndex, some (i.time + newOffset s i.streamIndex i.time + s.seekOffset),
            some (i.time + newOffset s i.streamIndex i.time + s.seekOffset), true⟩) ∧
      (∀ k, k ≠ i.streamIndex → lastTime k = s.lastTime k) ∧
      (i.hlsFinished = true → lastTime i.streamIndex = i.time + newOffset s i.streamIndex i.time) := by
  unfold readPacket
  rw [calculateOffset_eq]
  unfold returnPacket
  simp only [Input.packet, if_true, Option.map_some]
  by_cases hlater : i.time + newOffset s i.streamIndex i.time > s.lastTime i.streamIndex ∨ i.hlsFinished = true
  · simp only [hlater, if_true]
    refine ⟨_, rfl, ?_, ?_⟩
    · intro k hk
      exact Function.update_of_ne hk _ _
    · intro _
      exact Function.update_self _ _ _
  · simp only [hlater, if_false]
    refine ⟨_, rfl, fun _ _ => rfl, ?_⟩
    intro hfinished
    exact absurd (Or.inr hfinished) hlater

/-! ## The packets of a session -/

/-- **How the packets of a stream follow each other**: they advance by less than `DISCONTINUE_MAX_TIME`, with a jump in
    between where the stream changes to the new timeline. -/
def Advances (jump : Int) (a : Session) (i : Input) : Prop :=
  ∀ q ∈ a.last i.streamIndex,
    let advance := i.time - q.time - (if q.timeline = i.timeline then 0 else jump)
    (q.timeline = .new → i.timeline = .new) ∧ 0 ≤ advance ∧ advance < discontinueMaxTime
deriving Decidable

/-- **How the packets of all the streams follow each other.** A packet that does not change the timeline of its stream
    is on the timeline of the packet before; the first one of a stream does not renew the offset, unless it is the first
    of all; and where the timeline of a stream changes, `last_time` is what was returned last, as it is for a finished
    playlist. -/
def InStep (a : Session) (i : Input) : Prop :=
  match a.last i.streamIndex with
  | none => a.current = none ∨ a.current = some i.timeline ∧ ¬ Renews a.demux i.streamIndex i.time
  | some q =>
    if q.timeline = i.timeline then a.current = some i.timeline
    else q.hlsFinished = true ∨ q.returned = some (a.demux.lastTime i.streamIndex + a.demux.seekOffset)

/-- How far the offset is from what a stream was returned with, when another one has changed to the new timeline and
    this one has not. -/
def lag (jump shift : Int) (current : Option Timeline) (timeline : Timeline) : Int :=
  if current = some timeline then 0 else jump + shift

/-- What holds of the last packet of a stream. `shift` is how far the stream that changed the timeline advanced
    there. -/
structure PastOk (jump shift : Int) (a : Session) (k : Nat) (q : Past) : Prop where
  org : a.demux.lastOrgPts k = q.time
  returned : q.returned = some (q.time + a.demux.ptsOffset + a.demux.seekOffset + lag jump shift a.current q.timeline)
  finished : q.hlsFinished = true → q.returned = some (a.demux.lastTime k + a.demux.seekOffset)
  old : a.current = some .old → q.timeline = .old

/-- **The invariant.** -/
structure Inv (jump : Int) (a : Session) : Prop where
  started : ∀ k q, a.last k = some q → a.current ≠ none ∧ a.demux.setOffset = true
  shifted : ∃ shift : Int, 0 ≤ shift ∧ shift < discontinueMaxTime ∧ ∀ k q, a.last k = some q → PastOk jump shift a k q

variable {jump : Int} {a b : Session} {i : Input} {es fs : List Packet}

/-- What the offset behind a packet is to the last packets of the streams. -/
structure Fits (jump : Int) (a : Session) (i : Input) (shift : Int) : Prop where
  nonneg : 0 ≤ shift
  lt : shift < discontinueMaxTime
  /-- The stream does not jump. -/
  own : ∀ q r, a.last i.streamIndex = some q → q.returned = some r →
    Int.natAbs (i.time + newOffset a.demux i.streamIndex i.time + a.demux.seekOffset - r) < discontinueMaxTime
  other : ∀ k q, k ≠ i.streamIndex → a.last k = some q →
    q.returned = some (q.time + newOffset a.demux i.streamIndex i.time + a.demux.seekOffset +
      lag jump shift (some i.timeline) q.timeline) ∧ (i.timeline = .old → q.timeline = .old)

theorem newOffset_of_not_renews (h : ¬ Renews s k time) :
    newOffset s k time = s.ptsOffset := if_neg h

theorem newOffset_of_renews (h : Renews s k time) :
    newOffset s k time = s.lastTime k - time := if_pos h

theorem lag_self (jump shift : Int) (t : Timeline) : lag jump shift (some t) t = 0 := if_pos rfl

theorem lag_old (jump shift : Int) : lag jump shift (some .new) .old = jump + shift := rfl

/-- The offset stays, and it is one of the timeline of the packet: it fits as before. -/
theorem PastOk.kept (h : PastOk jump shift a k q) (hcur : a.current = some i.timeline)
    (hkeeps : ¬ Renews a.demux i.streamIndex i.time) :
    q.returned = some (q.time + newOffset a.demux i.streamIndex i.time + a.demux.seekOffset +
      lag jump shift (some i.timeline) q.timeline) ∧ (i.timeline = .old → q.timeline = .old) := by
  rw [newOffset_of_not_renews hkeeps, ← hcur]
  exact ⟨h.returned, fun hold => h.old (hold ▸ hcur)⟩

/-- The stream goes on, and so does the offset. -/
theorem fits_goes_on (hnonneg : 0 ≤ shift) (hlt : shift < discontinueMaxTime)
    (hpast : ∀ k q, a.last k = some q → PastOk jump shift a k q) (hlast : a.last i.streamIndex = some q)
    (hsame : q.timeline = i.timeline) (hcur : a.current = some i.timeline)
    (hadv0 : 0 ≤ i.time - q.time) (hadvlt : i.time - q.time < discontinueMaxTime) : Fits jump a i shift := by
  have hok := hpast _ q hlast
  have hkeeps : ¬ Renews a.demux i.streamIndex i.time := by
    rintro ⟨-, horg⟩
    rw [hok.org] at horg
    omega
  refine ⟨hnonneg, hlt, ?_, fun k q' _ hq' => (hpast k q' hq').kept hcur hkeeps⟩
  intro q' r hq' hr
  obtain rfl := Option.some.inj (hlast.symm.trans hq')
  have hret := hok.returned
  rw [hcur, hsame, lag_self, hr] at hret
  have heq := Option.some.inj hret
  rw [newOffset_of_not_renews hkeeps]
  omega

/-- The stream changes to the new timeline behind another one, whose offset fits. -/
theorem fits_changes_behind (h : Inv jump a) (hnonneg : 0 ≤ shift) (hlt : shift < discontinueMaxTime)
    (hpast : ∀ k q, a.last k = some q → PastOk jump shift a k q) (hlast : a.last i.streamIndex = some q)
    (hold : q.timeline = .old) (hnew : i.timeline = .new)
    (hlastTime : q.returned = some (a.demux.lastTime i.streamIndex + a.demux.seekOffset)) (hcur : a.current = some .new)
    (hadv0 : 0 ≤ i.time - q.time - jump) (hadvlt : i.time - q.time - jump < discontinueMaxTime) :
    Fits jump a i shift := by
  have heq := Option.some.inj (hlastTime.symm.trans (hpast _ q hlast).returned)
  rw [hold, hcur, lag_old] at heq
  have hkeeps : ¬ Renews a.demux i.streamIndex i.time := by
    rintro ⟨hoff | hfar, -⟩
    · rw [(h.started _ q hlast).2] at hoff
      cases hoff
    · omega
  refine ⟨hnonneg, hlt, ?_, fun k q' _ hq' => (hpast k q' hq').kept (hcur.trans (congrArg some hnew.symm)) hkeeps⟩
  intro q' r hq' hr
  obtain rfl := Option.some.inj (hlast.symm.trans hq')
  have hr' := Option.some.inj (hr.symm.trans hlastTime)
  rw [newOffset_of_not_renews hkeeps]
  omega

/-- The stream is the first one that changes to the new timeline: the offset is renewed. -/
theorem fits_changes_first (hjump : 2 * discontinueMaxTime ≤ Int.natAbs jump)
    (hpast : ∀ k q, a.last k = some q → PastOk jump shift a k q) (hlast : a.last i.streamIndex = some q)
    (hold : q.timeline = .old) (hnew : i.timeline = .new)
    (hlastTime : q.returned = some (a.demux.lastTime i.streamIndex + a.demux.seekOffset)) (hcur : a.current = some .old)
    (hadv0 : 0 ≤ i.time - q.time - jump) (hadvlt : i.time - q.time - jump < discontinueMaxTime) :
    Fits jump a i (i.time - q.time - jump) := by
  have hok := hpast _ q hlast
  have heq := Option.some.inj (hlastTime.symm.trans hok.returned)
  rw [hold, hcur, lag_self] at heq
  have hrenews : Renews a.demux i.streamIndex i.time := by
    refine ⟨Or.inr ?_, ?_⟩
    · omega
    · rw [hok.org]
      omega
  refine ⟨hadv0, hadvlt, ?_, ?_⟩
  · intro q' r hq' hr
    obtain rfl := Option.some.inj (hlast.symm.trans hq')
    have hr' := Option.some.inj (hr.symm.trans hlastTime)
    rw [newOffset_of_renews hrenews]
    omega
  · intro k q' _ hq'
    have hok' := hpast k q' hq'
    have hold' := hok'.old hcur
    rw [newOffset_of_renews hrenews, hnew, hold', lag_old]
    refine ⟨?_, fun hcontra => by cases hcontra⟩
    rw [hok'.returned, hcur, hold', lag_self]
    congr 1
    omega

/-- **What one packet does to the offset.** -/
theorem Inv.fits (hjump : 2 * discontinueMaxTime ≤ Int.natAbs jump) (h : Inv jump a) (hadv : Advances jump a i)
    (hin : InStep a i) : ∃ shift, Fits jump a i shift := by
  obtain ⟨shift, hnonneg, hlt, hpast⟩ := h.shifted
  unfold InStep at hin
  cases hlast : a.last i.streamIndex with
  | none =>
    rw [hlast] at hin
    refine ⟨shift, hnonneg, hlt, fun q r hq => (nomatch hlast.symm.trans hq), fun k q _ hq => ?_⟩
    rcases hin with hnone | ⟨hcur, hkeeps⟩
    · -- the first packet of all
      exact absurd hnone (h.started k q hq).1
    · exact (hpast k q hq).kept hcur hkeeps
  | some q =>
    rw [hlast] at hin
    obtain ⟨-, hadv0, hadvlt⟩ := hadv q hlast
    by_cases hsame : q.timeline = i.timeline
    · simp only [hsame, if_true, Int.sub_zero] at hin hadv0 hadvlt
      exact ⟨shift, fits_goes_on hnonneg hlt hpast hlast hsame hin hadv0 hadvlt⟩
    · simp only [hsame, if_false] at hin hadv0 hadvlt
      have hlastTime := hin.elim (hpast _ q hlast).finished id
      have htimelines : q.timeline = .old ∧ i.timeline = .new := by
        have hmono := (hadv q hlast).1
        cases hq : q.timeline <;> cases hi : i.timeline <;> simp_all
      obtain ⟨hold, hnew⟩ := htimelines
      cases hcur : a.current with
      | none => exact absurd hcur (h.started _ q hlast).1
      | some t =>
        cases t with
        | old => exact ⟨_, fits_changes_first hjump hpast hlast hold hnew hlastTime hcur hadv0 hadvlt⟩
        | new => exact ⟨shift, fits_changes_behind h hnonneg hlt hpast hlast hold hnew hlastTime hcur hadv0 hadvlt⟩

/-- **One packet.** -/
theorem Inv.step (hjump : 2 * discontinueMaxTime ≤ Int.natAbs jump) (h : Inv jump a) (hadv : Advances jump a i)
    (hin : InStep a i) (hn : step a i = some (b, fs)) :
    Inv jump b ∧ ∃ r', fs = [⟨i.streamIndex, some r', some r', true⟩] ∧
      (∀ k, k ≠ i.streamIndex → b.last k = a.last k) ∧ (∃ q, b.last i.streamIndex = some q ∧ q.returned = some r') ∧
      ∀ q r, a.last i.streamIndex = some q → q.returned = some r → Int.natAbs (r' - r) < discontinueMaxTime := by
  obtain ⟨shift, hfits⟩ := h.fits hjump hadv hin
  obtain ⟨lastTime, hread, hother, hfin⟩ := readPacket_eq a.demux i
  unfold Hls.step at hn
  rw [hread] at hn
  cases hn
  refine ⟨⟨?_, shift, hfits.nonneg, hfits.lt, ?_⟩, _, rfl, ?_, ?_, ?_⟩
  · intro k q _
    exact ⟨Option.some_ne_none _, rfl⟩
  · intro k q hq
    by_cases hk : k = i.streamIndex
    · subst hk
      simp only [Function.update_self, Option.some.injEq] at hq
      subst hq
      refine ⟨Function.update_self _ _ _, ?_, ?_, ?_⟩
      · simp [lag_self]
      · intro hfinished
        simp [hfin hfinished]
      · intro hold
        exact Option.some.inj hold
    · simp only [Function.update_of_ne hk] at hq
      obtain ⟨hret, hold⟩ := hfits.other k q hk hq
      obtain ⟨shift', -, -, hpast⟩ := h.shifted
      have hok := hpast k q hq
      refine ⟨?_, hret, ?_, ?_⟩
      · simp only [Function.update_of_ne hk]
        exact hok.org
      · intro hfinished
        simp only [hok.finished hfinished, hother k hk]
      · intro hcur
        exact hold (Option.some.inj hcur)
  · intro k hk
    exact Function.update_of_ne hk _ _
  · exact ⟨_, Function.update_self _ _ _, rfl⟩
  · exact hfits.own

/-! ## Runs -/

/-- The time stamps that were returned for a stream. -/
def times (k : Nat) (es : List Packet) : List Int :=
  es.filterMap (fun pkt => if pkt.streamIndex = k then pkt.pts else none)

/-- A time stamp follows another one without a jump. -/
def Near (r r' : Int) : Prop := Int.natAbs (r' - r) < discontinueMaxTime

/-- No stream has jumped so far. -/
structure Smooth (jump : Int) (a : Session) (es : List Packet) : Prop where
  inv : Inv jump a
  last : ∀ k r, (times k es).getLast? = some r → ∃ q, a.last k = some q ∧ q.returned = some r
  chain : ∀ k, (times k es).IsChain Near
  dts : ∀ pkt ∈ es, pkt.dts = pkt.pts

theorem Smooth.step (hjump : 2 * discontinueMaxTime ≤ Int.natAbs jump) (h : Smooth jump a es)
    (hc : Advances jump a i ∧ InStep a i) (hn : step a i = some (b, fs)) : Smooth jump b (es ++ fs) := by
  obtain ⟨hinv, r', rfl, hsame, ⟨q', hq', hret'⟩, hnear⟩ := h.inv.step hjump hc.1 hc.2 hn
  -- only the stream of the packet gets longer
  have hself : times i.streamIndex (es ++ [⟨i.streamIndex, some r', some r', true⟩]) =
      times i.streamIndex es ++ [r'] := by
    simp [times]
  have hother : ∀ k, k ≠ i.streamIndex → times k (es ++ [⟨i.streamIndex, some r', some r', true⟩]) = times k es := by
    intro k hk
    simp [times, Ne.symm hk]
  refine ⟨hinv, ?_, ?_, ?_⟩
  · intro k r hr
    by_cases hk : k = i.streamIndex
    · subst hk
      rw [hself, List.getLast?_concat, Option.some.injEq] at hr
      subst hr
      exact ⟨q', hq', hret'⟩
    · rw [hother k hk] at hr
      rw [hsame k hk]
      exact h.last k r hr
  · intro k
    by_cases hk : k = i.streamIndex
    · subst hk
      rw [hself, List.isChain_append]
      refine ⟨h.chain _, List.isChain_singleton _, ?_⟩
      intro r hr r'' hr''
      obtain rfl := Option.some.inj hr''
      obtain ⟨q, hq, hret⟩ := h.last _ r hr
      exact hnear q r hq hret
    · rw [hother k hk]
      exact h.chain k
  · intro pkt hpkt
    rcases List.mem_append.mp hpkt with hpkt | hpkt
    · exact h.dts pkt hpkt
    · rw [List.mem_singleton] at hpkt
      rw [hpkt]

theorem smooth_start (jump seekOffset : Int) : Smooth jump (start seekOffset) [] := by
  refine ⟨⟨?_, 0, ?_, ?_, ?_⟩, ?_, ?_, ?_⟩
  · intro k q hq
    cases hq
  · exact Int.le_refl 0
  · decide
  · intro k q hq
    cases hq
  · intro k r hr
    cases hr
  · intro k
    exact List.isChain_nil
  · intro pkt hpkt
    cases hpkt

/-- **No stream jumps**, in every run whose packets are in step. -/
theorem run_smooth {jump seekOffset : Int} (hjump : 2 * discontinueMaxTime ≤ Int.natAbs jump) {is : List Input}
    (h : Run step (fun a i => Advances jump a i ∧ InStep a i) (start seekOffset) is a es) :
    (∀ k, (times k es).IsChain Near) ∧ ∀ pkt ∈ es, pkt.dts = pkt.pts := by
  have hs : Smooth jump a es := Run.inv_effects (fun _ a es => Smooth jump a es) (smooth_start jump seekOffset)
    (fun _ _ _ _ _ _ hpre hc hn => hpre.step hjump hc hn) h
  exact ⟨hs.chain, hs.dts⟩

instance decidableInStep (a : Session) (i : Input) : Decidable (InStep a i) := by
  unfold InStep
  split <;> infer_instance

/-- Video (stream 0) and audio (stream 1) of a finished playlist, and a new timeline that is an hour ahead. -/
def newTimeline : List Input :=
  [⟨0, 900000, .old, true⟩, ⟨1, 901000, .old, true⟩, ⟨0, 903600, .old, true⟩, ⟨1, 904000, .old, true⟩,
    ⟨0, 324907200, .new, true⟩, ⟨1, 324907000, .new, true⟩, ⟨0, 324910800, .new, true⟩]

/-- Both streams go on. -/
theorem run_smooth_hour :
    ∃ a es, Run step (fun a i => Advances 324000000 a i ∧ InStep a i) (start 0) newTimeline a es ∧
      times 0 es = [0, 3600, 3600, 7200] ∧ times 1 es = [1000, 4000, 3400] ∧ (times 1 es).IsChain Near := by
  refine exists_run_imp (fun _ es => times 0 es = [0, 3600, 3600, 7200] ∧ times 1 es = [1000, 4000, 3400])
    (by decide) fun _ _ hrun htest => ?_
  obtain ⟨h0, h1⟩ := htest
  exact ⟨h0, h1, (run_smooth (by decide) hrun).1 1⟩

/-- The last packet of the old timeline's audio comes behind the first video packet of the new one. -/
def lateAudio : List Input :=
  [⟨0, 900000, .old, true⟩, ⟨1, 901000, .old, true⟩, ⟨0, 324903600, .new, true⟩, ⟨1, 904000, .old, true⟩,
    ⟨1, 324907000, .new, true⟩]

/-- **The audio is thrown away an hour.** -/
theorem thrown_away :
    ∃ a es, Run step (Advances 324000000) (start 0) lateAudio a es ∧ times 1 es = [1000, -323999600, -323999600] ∧
      ¬ (times 1 es).IsChain Near := by
  refine exists_run_imp (fun _ es => times 1 es = [1000, -323999600, -323999600]) (by decide) fun _ _ _ htest => ?_
  have htimes := htest
  refine ⟨htimes, ?_⟩
  rw [htimes, List.isChain_cons_cons]
  rintro ⟨hnear, -⟩
  exact absurd hnear (by unfold Near; decide)

end HiSTB.Hls
