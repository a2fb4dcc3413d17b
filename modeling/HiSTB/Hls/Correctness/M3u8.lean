import HiSTB.Hls.Correctness.Choice
import HiSTB.Hls.M3u8
import Mathlib.Data.List.Basic

/-!
# `Hls.Correctness.M3u8` — I-frame lists

An I-frame list goes through the loop that reads the list of a variant. `#EXTINF` looks which kind of list it is; the
other tags and the URLs do not, so they change the variant to which only I-frames are to be added.

* `entries` — the I-frames that a list is about; `Placed` — they are in the segments they name;
* `NoAdds`, `Follows` — no URL is taken for a segment, and the loop over the segments stops at the segment that is
  named;
* `step_steps` — what a line does that is not taken for a segment; `step_tagged` — what its tag says;
* `run_placed_iff` — by induction over the lines, the I-frames are placed just where both hold;
* `hlsParseM3U8_right_iff` — when an I-frame list changes nothing else, and when it is given its variant;
  `list_changes_more` — what it changes otherwise.
-/

namespace HiSTB.Hls.M3u8

open Seek (Iframe)
open Lib (int32 IsInt)

variable {uri u : Str} {i j : Nat} {time : Int} {iframeList : Bool} {f : Flow}
    {new : List (Nat × Iframe)} {v : Variant}

/-! ## What is claimed -/

/-- An I-frame of a list: its tags and its URL. -/
structure Entry where
  size : Int
  offset : Int
  duration : Int
  uri : Str
  deriving DecidableEq

/-- The list ends here. -/
def Line.ends : Line → Bool
  | .extm3u | .endlist => true
  | _ => false

/-- The lines of the list. -/
def upTo (ls : List Line) : List Line := ls.takeWhile (fun line => !line.ends)

/-- The I-frame of a line; `none` is one without its offset. -/
def entryAt (p : Pending) : Line → List (Option Entry)
  | .byterange _ none => if p.isSegment then [none] else []
  | .uri line => if p.isIframe then [some ⟨p.size, p.offset, p.duration, line⟩] else []
  | _ => []

/-- The I-frames of the lines. -/
def entries : Pending → List Line → List (Option Entry)
  | _, [] => []
  | p, line :: ls => entryAt p line ++ entries (p.next line) ls

/-- The place `j` is the one of a segment an URL names; where none has the URL, the parameters do not count. -/
def Names (urls : List Str) (url : Str) (j : Nat) (line : Str) : Prop :=
  urls[j]? = some (absoluteUrl url line) ∨
    absoluteUrl url line ∉ urls ∧ (urls[j]?).map path = some (path (absoluteUrl url line))
deriving Decidable

/-- The time in a segment up to which there are I-frames. -/
def timeIn (attached : List (Nat × Iframe)) (j : Nat) : Int :=
  ((attached.filter (fun a => a.1 = j)).map (fun a => a.2.duration)).sum

/-- Each I-frame of the list was added to the segment that it names, at its time in it. `before` are the I-frames added
    before. -/
def Placed (urls : List Str) (url : Str) (before : List (Nat × Iframe)) :
    List (Option Entry) → List (Nat × Iframe) → Prop
  | [], [] => True
  | some e :: es, a :: as =>
    (Names urls url a.1 e.uri ∧ a.2 = ⟨e.size, e.offset, timeIn before a.1, e.duration⟩) ∧
      Placed urls url (before ++ [a]) es as
  | _, _ => False

instance (urls : List Str) (url : Str) :
    (before : List (Nat × Iframe)) → (es : List (Option Entry)) → (as : List (Nat × Iframe)) →
      Decidable (Placed urls url before es as)
  | _, [], [] => isTrue trivial
  | before, some _ :: es, a :: as =>
    have := instDecidablePlaced urls url (before ++ [a]) es as
    inferInstanceAs (Decidable (_ ∧ _))
  | _, none :: _, [] => isFalse id
  | _, none :: _, _ :: _ => isFalse id
  | _, some _ :: _, [] => isFalse id
  | _, [], _ :: _ => isFalse id

/-- The I-frames are added to the segments. -/
def attach (segs : List Segment) (attached : List (Nat × Iframe)) : List Segment :=
  segs.mapIdx (fun i seg => { seg with iframes := seg.iframes ++ (attached.filter (fun a => a.1 = i)).map Prod.snd })

/-- The URLs of the segments. -/
def Variant.urls (v : Variant) : List Str := v.segments.map Segment.url

/-- The I-frames of a text. -/
def listed (lib : Library) (text : Str) : List (Option Entry) :=
  ((body lib text).map (fun ls => entries .start (upTo ls))).getD []

/-- **What is claimed of an I-frame list**: of the list of the variant, only the I-frames of the segments change, and
    each I-frame is where it belongs. -/
structure AddsIframes (lib : Library) (url : Str) (v : Variant) (text : Str) (now : Int) : Prop where
  segments : (hlsParseM3U8 lib url v true text now).1.segments =
    attach v.segments (hlsParseM3U8 lib url v true text now).2.1
  segStart : (hlsParseM3U8 lib url v true text now).1.segStart = v.segStart
  finished : (hlsParseM3U8 lib url v true text now).1.finished = v.finished
  targetDuration : (hlsParseM3U8 lib url v true text now).1.targetDuration = v.targetDuration
  placed : Placed v.urls url [] (listed lib text) (hlsParseM3U8 lib url v true text now).2.1

/-- **What is claimed of the callers**: the variant that is given is the one the I-frame list belongs to. -/
def CallsRight (s : ReadData.State) (a : ReadData.Answer) (iframeNb : Nat) : Prop :=
  ∀ call ∈ iframeCall s a iframeNb, call.1 = call.2

/-! ## When it holds -/

/-- No URL is taken for a segment: a byte range is before each one that is behind `#EXTINF`. -/
def NoAdds : Pending → List Line → Prop
  | _, [] => True
  | p, line :: ls => (p.isSegment = true → ∀ u, line ≠ .uri u) ∧ NoAdds (p.next line) ls

/-- The URL of an I-frame, made absolute for the segment, starts with the URL of the segment, without the parameters. -/
def StartsWith (segUrl line : Str) : Prop := path segUrl <+: absoluteUrl segUrl line

/-- From the place `i` on, the first segment an I-frame's URL starts with is one that it names; the next I-frame is
    looked for from there. The I-frame's time in the segment is an `int`; `time` is the one behind the I-frames of the
    segment in the place `i`. -/
def Follows (urls : List Str) (url : Str) : Nat → Int → List (Option Entry) → Prop
  | _, _, [] => True
  | _, _, none :: _ => False
  | i, time, some e :: es =>
    ∃ j seg, i ≤ j ∧ urls[j]? = some seg ∧ StartsWith seg e.uri ∧
      (∀ k other, i ≤ k → k < j → urls[k]? = some other → ¬StartsWith other e.uri) ∧
      Names urls url j e.uri ∧ IsInt (if j = i then time else 0) ∧
      Follows urls url j ((if j = i then time else 0) + e.duration) es

/-- The target duration that a line sets. -/
def Line.target : Line → Option Int
  | .targetDuration n => some n
  | _ => none

/-- The sequence number that a line sets. -/
def Line.sequence : Line → Option Int
  | .mediaSequence n => some n
  | _ => none

/-- What the last of the lines sets that sets it. -/
def lastOf (f : Line → Option Int) : Int → List Line → Int
  | x, [] => x
  | x, line :: ls => lastOf f ((f line).getD x) ls

/-- Is it `#EXT-X-ENDLIST`? -/
def Line.finishes : Line → Bool
  | .endlist => true
  | _ => false

/-- The list ends with `#EXT-X-ENDLIST`. -/
def finishes (ls : List Line) : Bool := (ls.find? Line.ends).any Line.finishes

/-- The lines add I-frames to their segments, and their tags say of the list what the variant's list says. -/
structure LinesOk (url : Str) (v : Variant) (ls : List Line) : Prop where
  noAdds : NoAdds .start (upTo ls)
  follows : Follows v.urls url 0 0 (entries .start (upTo ls))
  targetDuration : lastOf Line.target v.targetDuration (upTo ls) = v.targetDuration
  segStart : lastOf Line.sequence v.segStart (upTo ls) = v.segStart
  finished : finishes ls = true → v.finished = true

/-- The text is no list, or its lines are as above. -/
def ListOk (lib : Library) (url : Str) (v : Variant) (text : Str) : Prop :=
  ∀ ls, body lib text = some ls → LinesOk url v ls

/-- The variant that is chosen is the first one, or it is not parsed now, or it has no I-frame list. -/
def CallOk (s : ReadData.State) (a : ReadData.Answer) (iframeNb : Nat) : Prop :=
  ∀ n, s.nextNumber.hlsGetIndex a = some n →
    n = 0 ∨ s.nextNumber.nb n ≠ 0 ∨ (s.nextNumber.stream n).isParsed = true ∨
      (s.nextNumber.hlsParseM3U8 n a.parse).2 = false ∨
      iframeNb ≤ n

variable {lib : Library} {url : Str} {urls : List Str} {s t : State} {p : Pending} {line : Line} {ls : List Line}

/-! ## The search for the segment -/

/-- `av_strlcmp` up to the length of the path looks for the path as a prefix. -/
theorem startsWith_iff {segUrl : Str} :
    lib.strlcmp segUrl (absoluteUrl segUrl uri) (path segUrl).length = true ↔ StartsWith segUrl uri := by
  have hpath : segUrl.take (path segUrl).length = path segUrl :=
    (List.prefix_iff_eq_take.mp (List.takeWhile_prefix _)).symm
  rw [lib.strlcmp_iff, hpath, StartsWith, List.prefix_iff_eq_take]

/-- **The loop over the segments** stops at the first one whose URL the line starts with. -/
theorem seekSegment_eq_some :
    seekSegment lib urls uri i = some j ↔ ∃ seg, i ≤ j ∧ urls[j]? = some seg ∧ StartsWith seg uri ∧
        ∀ k other, i ≤ k → k < j → urls[k]? = some other → ¬StartsWith other uri := by
  rw [seekSegment, Option.map_eq_some_iff]
  constructor
  · rintro ⟨n, hn, rfl⟩
    obtain ⟨hlt, hhit, hmiss⟩ := List.findIdx?_eq_some_iff_getElem.mp hn
    rw [List.length_drop] at hlt
    rw [List.getElem_drop] at hhit
    refine ⟨urls[i + n], Nat.le_add_right i n, List.getElem?_eq_getElem (by omega), startsWith_iff.mp hhit, ?_⟩
    intro k other hik hkj hother hstarts
    obtain ⟨m, rfl⟩ := Nat.exists_eq_add_of_le hik
    obtain ⟨hm, rfl⟩ := List.getElem?_eq_some_iff.mp hother
    refine hmiss m (by omega) ?_
    rw [List.getElem_drop]
    exact startsWith_iff.mpr hstarts
  · rintro ⟨seg, hij, hseg, hstarts, hmiss⟩
    obtain ⟨n, rfl⟩ := Nat.exists_eq_add_of_le hij
    obtain ⟨hlt, rfl⟩ := List.getElem?_eq_some_iff.mp hseg
    refine ⟨n, List.findIdx?_eq_some_iff_getElem.mpr ⟨by rw [List.length_drop]; omega, ?_, ?_⟩, rfl⟩
    · rw [List.getElem_drop]
      exact startsWith_iff.mpr hstarts
    · intro m hm hhit
      rw [List.getElem_drop] at hhit
      exact hmiss (i + m) _ (Nat.le_add_right i m) (by omega) (List.getElem?_eq_getElem _) (startsWith_iff.mp hhit)

/-- The condition for the next entry, by the search. -/
theorem follows_cons {e : Entry} {es : List (Option Entry)} (lib : Library) :
    Follows urls url i time (some e :: es) ↔
      ∃ j, seekSegment lib urls e.uri i = some j ∧ Names urls url j e.uri ∧ IsInt (if j = i then time else 0) ∧
        Follows urls url j ((if j = i then time else 0) + e.duration) es := by
  constructor
  · rintro ⟨j, seg, hij, hseg, hstarts, hmiss, hrest⟩
    exact ⟨j, seekSegment_eq_some.mpr ⟨seg, hij, hseg, hstarts, hmiss⟩, hrest⟩
  · rintro ⟨j, hseek, hrest⟩
    obtain ⟨seg, hij, hseg, hstarts, hmiss⟩ := seekSegment_eq_some.mp hseek
    exact ⟨j, seg, hij, hseg, hstarts, hmiss, hrest⟩

/-! ## One line -/

/-- The segments, and where I-frames are added, are as before. -/
structure Same (s t : State) : Prop where
  segments : t.variant.segments = s.variant.segments
  segIndex : t.segIndex = s.segIndex
  startTime : t.startTime = s.startTime
  attached : t.attached = s.attached

/-- The segments with one more I-frame. -/
def addAt (segs : List Segment) (j : Nat) (f : Iframe) : List Segment :=
  segs.modify j (fun seg => { seg with iframes := seg.iframes ++ [f] })

/-- The time at which an I-frame is added to the segment in the place `j`. -/
def State.timeAt (s : State) (j : Nat) : Int := if j = s.segIndex then s.startTime else 0

/-- An I-frame was added to the segment in the place `j`. -/
structure Added (s t : State) (e : Entry) (j : Nat) : Prop where
  segments : t.variant.segments = addAt s.variant.segments j ⟨e.size, e.offset, s.timeAt j, e.duration⟩
  segIndex : t.segIndex = j
  startTime : t.startTime = int32 (s.timeAt j + e.duration)
  attached : t.attached = s.attached ++ [(j, ⟨e.size, e.offset, s.timeAt j, e.duration⟩)]

/-- What a line of an I-frame list does that does not add a segment. -/
inductive Steps (lib : Library) (s : State) (line : Line) : State × Flow → Prop
  | ends {u : State} (he : line.ends = true) (hs : Same s u) : Steps lib s line (u, .done)
  | quiet {u : State} (he : line.ends = false) (hn : entryAt s.pending line = []) (hs : Same s u) :
    Steps lib s line (u, .next)
  | noOffset {u : State} (he : line.ends = false) (hn : entryAt s.pending line = [none]) (hs : Same s u) :
    Steps lib s line (u, .fail)
  | noSegment {u : State} {e : Entry} (he : line.ends = false) (hn : entryAt s.pending line = [some e])
      (hj : seekSegment lib s.variant.urls e.uri s.segIndex = none) (hs : Same s u) : Steps lib s line (u, .fail)
  | added {u : State} {e : Entry} {j : Nat} (he : line.ends = false) (hn : entryAt s.pending line = [some e])
      (hj : seekSegment lib s.variant.urls e.uri s.segIndex = some j) (ha : Added s u e j) : Steps lib s line (u, .next)

/-- **One line**: it ends the list, or nothing happens, or an I-frame is added, or the parser is broken off. -/
theorem step_steps (hadds : s.pending.isSegment = true → ∀ u, line ≠ .uri u) :
    Steps lib s line (step lib url true s line) := by
  cases line with
  | extm3u => exact .ends rfl ⟨rfl, rfl, rfl, rfl⟩
  | endlist => exact .ends rfl ⟨rfl, rfl, rfl, rfl⟩
  | byterange size offset =>
    by_cases hfail : s.pending.isSegment = true ∧ offset = none
    · obtain ⟨hseg, rfl⟩ := hfail
      rw [step, State.handle, if_pos ⟨hseg, rfl⟩]
      exact .noOffset rfl (if_pos hseg) ⟨rfl, rfl, rfl, rfl⟩
    · rw [step, State.handle, if_neg hfail]
      refine .quiet rfl ?_ ⟨rfl, rfl, rfl, rfl⟩
      cases offset with
      | none => exact if_neg (fun hseg => hfail ⟨hseg, rfl⟩)
      | some n => rfl
  | uri u =>
    have hseg : ¬s.pending.isSegment = true := fun hseg => hadds hseg u rfl
    rw [step, State.handle, if_neg hseg]
    by_cases hif : s.pending.isIframe = true
    · have hn : entryAt s.pending (.uri u) = [some ⟨s.pending.size, s.pending.offset, s.pending.duration, u⟩] :=
        if_pos hif
      rw [if_pos hif, State.addIframe]
      cases hj : seekSegment lib (s.variant.segments.map Segment.url) u s.segIndex with
      | none => exact .noSegment rfl hn hj ⟨rfl, rfl, rfl, rfl⟩
      | some j => exact .added rfl hn hj ⟨rfl, rfl, rfl, rfl⟩
    · rw [if_neg hif]
      exact .quiet rfl (if_neg hif) ⟨rfl, rfl, rfl, rfl⟩
  | _ => exact .quiet rfl rfl ⟨rfl, rfl, rfl, rfl⟩

/-! ## The lines -/

theorem upTo_cons (he : line.ends = false) : upTo (line :: ls) = line :: upTo ls :=
  List.takeWhile_cons_of_pos (by rw [he]; rfl)

theorem upTo_ends (he : line.ends = true) : upTo (line :: ls) = [] := List.takeWhile_cons_of_neg (by rw [he]; decide)

theorem step_pending (hst : step lib url iframeList s line = (t, f)) : t.pending = s.pending.next line :=
  (congrArg (fun r => r.1.pending) hst).symm

/-- An I-frame that is added leaves the URLs. -/
theorem urls_addAt (segs : List Segment) (j : Nat) (f : Iframe) :
    (addAt segs j f).map Segment.url = segs.map Segment.url := by
  refine List.ext_getElem? (fun i => ?_)
  rw [List.getElem?_map, List.getElem?_map, addAt, List.getElem?_modify]
  split
  · cases segs[i]? <;> rfl
  · cases segs[i]? <;> rfl

theorem Same.urls_eq (h : Same s t) : t.variant.urls = s.variant.urls := congrArg (List.map Segment.url) h.segments

theorem Added.urls_eq {e : Entry} (h : Added s t e j) : t.variant.urls = s.variant.urls := by
  rw [Variant.urls, h.segments]
  exact urls_addAt _ _ _

theorem Added.length {e : Entry} (h : Added s t e j) : t.variant.segments.length = s.variant.segments.length := by
  rw [h.segments]
  exact List.length_modify _ _ _

/-- There are no fewer segments and I-frames than before. -/
structure Grows (s t : State) : Prop where
  length : s.variant.segments.length ≤ t.variant.segments.length
  attached : s.attached <+: t.attached

theorem Grows.refl (s : State) : Grows s s := ⟨Nat.le_refl _, List.prefix_refl _⟩

theorem Grows.trans {u : State} (h : Grows s t) (h' : Grows t u) : Grows s u :=
  ⟨Nat.le_trans h.length h'.length, h.attached.trans h'.attached⟩

/-- A line without an entry adds nothing. -/
theorem Same.grows (h : Same s t) : Grows s t := by
  constructor
  · exact Nat.le_of_eq (congrArg List.length h.segments.symm)
  · exact h.attached ▸ List.prefix_refl _

/-- An I-frame is added behind the others. -/
theorem Added.grows {e : Entry} (h : Added s t e j) : Grows s t :=
  ⟨Nat.le_of_eq h.length.symm, h.attached ▸ List.prefix_append _ _⟩

theorem addIframe_grows (s : State) (u : Str) : Grows s (s.addIframe lib u).1 := by
  rw [State.addIframe]
  split
  · exact Grows.refl s
  · exact ⟨Nat.le_of_eq (List.length_modify _ _ _).symm, List.prefix_append _ _⟩

theorem adds_of_not (h : ¬(p.isSegment = true → ∀ u, line ≠ .uri u)) : p.isSegment = true ∧ ∃ u, line = .uri u := by
  obtain ⟨hseg, hex⟩ := Classical.not_imp.mp h
  obtain ⟨u, hu⟩ := not_forall.mp hex
  exact ⟨hseg, u, not_not.mp hu⟩

/-- An URL that is taken for a segment makes the list longer. -/
theorem step_adds (hseg : s.pending.isSegment = true) :
    s.variant.segments.length < (step lib url true s (.uri u)).1.variant.segments.length ∧
      s.attached <+: (step lib url true s (.uri u)).1.attached := by
  have hadd : s.variant.segments.length < (s.addSegment url u).variant.segments.length := by
    rw [State.addSegment, List.length_append]
    exact Nat.lt_succ_self _
  rw [step, State.handle, if_pos hseg]
  by_cases hif : s.pending.isIframe = true
  · rw [if_pos hif]
    have hgrows : Grows (s.addSegment url u) ((s.addSegment url u).addIframe lib u).1 := addIframe_grows _ u
    exact ⟨Nat.lt_of_lt_of_le hadd hgrows.length, hgrows.attached⟩
  · rw [if_neg hif]
    exact ⟨hadd, List.prefix_refl _⟩

/-- Segments and I-frames are only added. -/
theorem Steps.grows (h : Steps lib s line (t, f)) : Grows s t := by
  cases h with
  | ends _ hs => exact hs.grows
  | quiet _ _ hs => exact hs.grows
  | noOffset _ _ hs => exact hs.grows
  | noSegment _ _ _ hs => exact hs.grows
  | added _ _ _ ha => exact ha.grows

theorem step_grows : Grows s (step lib url true s line).1 := by
  by_cases hadds : s.pending.isSegment = true → ∀ u, line ≠ .uri u
  · exact (step_steps hadds).grows
  · obtain ⟨hseg, u, rfl⟩ := adds_of_not hadds
    exact ⟨Nat.le_of_lt (step_adds hseg).1, (step_adds hseg).2⟩

/-- So over all lines. -/
theorem run_grows : Grows s (run lib url true s ls).1 := by
  induction ls generalizing s with
  | nil => exact Grows.refl s
  | cons line ls ih =>
    have hstep : Grows s (step lib url true s line).1 := step_grows
    rw [run]
    generalize step lib url true s line = r at hstep ⊢
    rcases r with ⟨t, _ | _ | _⟩
    · exact hstep.trans ih
    · exact hstep
    · exact hstep

theorem run_cons_grows : Grows (step lib url true s line).1 (run lib url true s (line :: ls)).1 := by
  rw [run]
  rcases step lib url true s line with ⟨t, _ | _ | _⟩
  · exact run_grows
  · exact Grows.refl t
  · exact Grows.refl t

/-! ## The I-frames are placed -/

/-- The time of the next I-frame is behind the ones that were added to the current segment, and none was added behind
    it. -/
structure Inv (s : State) : Prop where
  startTime : s.startTime = int32 (timeIn s.attached s.segIndex)
  le_segIndex : ∀ a ∈ s.attached, a.1 ≤ s.segIndex

theorem Inv.start (v : Variant) : Inv (M3u8.start v) := ⟨rfl, fun _ ha => absurd ha List.not_mem_nil⟩

theorem Same.inv (h : Same s t) (hi : Inv s) : Inv t := by
  constructor
  · rw [h.startTime, h.attached, h.segIndex]
    exact hi.startTime
  · rw [h.attached, h.segIndex]
    exact hi.le_segIndex

theorem timeIn_concat (attached : List (Nat × Iframe)) (j : Nat) (f : Iframe) :
    timeIn (attached ++ [(j, f)]) j = timeIn attached j + f.duration := by
  simp [timeIn, List.filter_append]

/-- Behind the current segment no I-frames were added. -/
theorem Inv.timeIn (hi : Inv s) (hj : s.segIndex ≤ j) :
    M3u8.timeIn s.attached j = if j = s.segIndex then M3u8.timeIn s.attached s.segIndex else 0 := by
  split
  · rename_i hcur
    rw [hcur]
  · rename_i hcur
    have hnone : s.attached.filter (fun a => a.1 = j) = [] :=
      List.filter_eq_nil_iff.mpr (fun a ha => by have := hi.le_segIndex a ha; simp; omega)
    rw [M3u8.timeIn, hnone]
    rfl

/-- The time of the next I-frame is the sum of those before it, as an `int`. -/
theorem Inv.timeAt (hi : Inv s) (hj : s.segIndex ≤ j) : s.timeAt j = int32 (M3u8.timeIn s.attached j) := by
  rw [State.timeAt, hi.timeIn hj]
  split
  · exact hi.startTime
  · rfl

/-- The invariant goes on with the segment that the I-frame was added to. -/
theorem Added.inv {e : Entry} (h : Added s t e j) (hj : s.segIndex ≤ j) (hi : Inv s) : Inv t := by
  constructor
  · rw [h.startTime, h.attached, h.segIndex, timeIn_concat, hi.timeAt hj, Lib.int32_add_left]
  · intro a ha
    rw [h.attached, List.mem_append, List.mem_singleton] at ha
    rw [h.segIndex]
    rcases ha with ha | rfl
    · exact Nat.le_trans (hi.le_segIndex a ha) hj
    · exact Nat.le_refl _

theorem le_of_seekSegment (h : seekSegment lib urls uri i = some j) : i ≤ j := by
  obtain ⟨_, hij, _⟩ := seekSegment_eq_some.mp h
  exact hij

/-- An entry without an offset is placed nowhere. -/
theorem not_placed_none {before as : List (Nat × Iframe)} {es : List (Option Entry)} :
    ¬Placed urls url before (none :: es) as := by
  cases as <;> exact id

/-- The I-frame that a line adds is the first of the new ones. -/
theorem Added.new_eq {e : Entry} {rest : List (Nat × Iframe)} (h : Added s t e j)
    (hnew : t.attached ++ rest = s.attached ++ new) :
    new = (j, ⟨e.size, e.offset, s.timeAt j, e.duration⟩) :: rest := by
  refine List.append_cancel_left (hnew.symm.trans ?_)
  rw [h.attached, List.append_assoc]
  rfl

/-- **The I-frames of a list**: no segment was added and each I-frame is placed just where no URL is taken for a segment
    and each search stops at the segment that is named. -/
theorem run_placed_iff (hi : Inv s) (hnew : (run lib url true s ls).1.attached = s.attached ++ new) :
    ((run lib url true s ls).1.variant.segments.length = s.variant.segments.length ∧
        Placed s.variant.urls url s.attached (entries s.pending (upTo ls)) new) ↔
      NoAdds s.pending (upTo ls) ∧
        Follows s.variant.urls url s.segIndex (timeIn s.attached s.segIndex) (entries s.pending (upTo ls)) := by
  induction ls generalizing s new with
  | nil =>
    obtain rfl := List.self_eq_append_right.mp hnew
    exact ⟨fun _ => ⟨trivial, trivial⟩, fun _ => ⟨rfl, trivial⟩⟩
  | cons line ls ih =>
    by_cases hadds : s.pending.isSegment = true → ∀ u, line ≠ .uri u
    · have hstep : Steps lib s line (step lib url true s line) := step_steps hadds
      rw [run] at hnew ⊢
      cases hst : step lib url true s line with
      | mk t f =>
        rw [hst] at hstep hnew
        have hp := step_pending hst
        cases hstep with
        | ends he hs =>
          rw [upTo_ends he]
          obtain rfl := List.self_eq_append_right.mp (hs.attached.symm.trans hnew)
          exact ⟨fun _ => ⟨trivial, trivial⟩, fun _ => ⟨congrArg List.length hs.segments, trivial⟩⟩
        | quiet he hn hs =>
          have hrec := ih (hs.inv hi) (hs.attached ▸ hnew)
          rw [hs.segments, hs.urls_eq, hs.attached, hs.segIndex, hp] at hrec
          rw [upTo_cons he, entries, hn, List.nil_append, NoAdds, and_iff_right hadds]
          exact hrec
        | noOffset he hn hs =>
          rw [upTo_cons he, entries, hn]
          exact ⟨fun h => absurd h.2 not_placed_none, fun h => h.2.elim⟩
        | noSegment he hn hj hs =>
          -- the I-frame is listed, and nothing is added for it
          obtain rfl := List.self_eq_append_right.mp (hs.attached.symm.trans hnew)
          rw [upTo_cons he, entries, hn, List.singleton_append, follows_cons lib, hj]
          exact ⟨fun h => h.2.elim, fun h => by obtain ⟨_, ⟨⟩, _⟩ := h.2⟩
        | @added t e j he hn hj ha =>
          -- the search starts at the last segment, so no I-frame was added to a segment behind the new one
          have hle := le_of_seekSegment hj
          obtain ⟨rest, hrest⟩ := (run_grows : Grows t (run lib url true t ls).1).attached
          have hrec := ih (ha.inv hle hi) hrest.symm
          rw [ha.length, ha.urls_eq, ha.attached, ha.segIndex, hp, timeIn_concat] at hrec
          obtain rfl := ha.new_eq (hrest.trans hnew)
          rw [upTo_cons he, entries, hn, List.singleton_append, follows_cons lib, hj, NoAdds, and_iff_right hadds]
          have htime := hi.timeIn hle
          constructor
          · rintro ⟨hlen, ⟨hnames, hiframe⟩, hplaced⟩
            obtain ⟨hno, hfollows⟩ := hrec.mp ⟨hlen, hplaced⟩
            have hint : int32 (timeIn s.attached j) = timeIn s.attached j :=
              (hi.timeAt hle).symm.trans (congrArg Iframe.offsetTime hiframe)
            rw [htime] at hint hfollows
            exact ⟨hno, j, rfl, hnames, Lib.int32_eq_self_iff.mp hint, hfollows⟩
          · rintro ⟨hno, j', ⟨⟩, hnames, hint, hfollows⟩
            rw [← htime] at hint hfollows
            obtain ⟨hlen, hplaced⟩ := hrec.mpr ⟨hno, hfollows⟩
            exact ⟨hlen, ⟨hnames, by rw [hi.timeAt hle, hint.eq]⟩, hplaced⟩
    · -- the list is longer then, and does not become shorter
      obtain ⟨hseg, u, rfl⟩ := adds_of_not hadds
      have hgrows : Grows (step lib url true s (.uri u)).1 (run lib url true s (.uri u :: ls)).1 := run_cons_grows
      have hlonger := Nat.lt_of_lt_of_le (step_adds hseg).1 hgrows.length
      exact ⟨fun h => absurd h.1 (Nat.ne_of_gt hlonger), fun h => absurd h.1.1 hadds⟩

theorem attach_nil (segs : List Segment) : attach segs [] = segs := by
  refine List.ext_getElem? (fun i => ?_)
  rw [attach, List.getElem?_mapIdx, List.filter_nil, List.map_nil]
  cases hseg : segs[i]? with
  | none => rfl
  | some seg => rw [Option.map_some, List.append_nil]

/-- The I-frames are attached one by one. -/
theorem attach_cons (segs : List Segment) (j : Nat) (f : Iframe) (as : List (Nat × Iframe)) :
    attach segs ((j, f) :: as) = attach (addAt segs j f) as := by
  refine List.ext_getElem? (fun i => ?_)
  rw [attach, attach, addAt, List.getElem?_mapIdx, List.getElem?_mapIdx, List.getElem?_modify]
  cases segs[i]? with
  | none => rfl
  | some seg =>
    by_cases hj : j = i
    · simp [hj]
    · simp [hj]

theorem length_attach (segs : List Segment) (as : List (Nat × Iframe)) : (attach segs as).length = segs.length :=
  List.length_mapIdx

/-- Then the parser is not broken off, and only I-frames are added. -/
theorem run_attach (hno : NoAdds s.pending (upTo ls))
    (hfollows : Follows s.variant.urls url s.segIndex time (entries s.pending (upTo ls)))
    (hnew : (run lib url true s ls).1.attached = s.attached ++ new) :
    (run lib url true s ls).2 = true ∧ (run lib url true s ls).1.variant.segments = attach s.variant.segments new := by
  induction ls generalizing s new time with
  | nil =>
    obtain rfl := List.self_eq_append_right.mp hnew
    exact ⟨rfl, (attach_nil _).symm⟩
  | cons line ls ih =>
    rw [run] at hnew ⊢
    cases hst : step lib url true s line with
    | mk t f =>
      rw [hst] at hnew
      have hp := step_pending hst
      by_cases he : line.ends = true
      · -- the line that ends the list is not among its lines, and it is no URL
        have hadds : s.pending.isSegment = true → ∀ u, line ≠ .uri u := fun _ u hu => by rw [hu] at he; cases he
        have hstep : Steps lib s line (t, f) := hst ▸ step_steps hadds
        cases hstep with
        | ends _ hs =>
          obtain rfl := List.self_eq_append_right.mp (hs.attached.symm.trans hnew)
          exact ⟨rfl, hs.segments.trans (attach_nil _).symm⟩
        | _ h => rw [he] at h; cases h
      · rw [upTo_cons (Bool.not_eq_true _ ▸ he)] at hno hfollows
        rw [entries] at hfollows
        have hstep : Steps lib s line (t, f) := hst ▸ step_steps hno.1
        cases hstep with
        | ends h _ => exact absurd h he
        | quiet _ hn hs =>
          rw [hn, ← hp] at hfollows
          rw [← hs.segments]
          exact ih (hp ▸ hno.2) (by rw [hs.urls_eq, hs.segIndex]; exact hfollows) (hs.attached ▸ hnew)
        | noOffset _ hn _ =>
          rw [hn] at hfollows
          exact hfollows.elim
        | noSegment _ hn hj _ =>
          rw [hn, List.singleton_append, follows_cons lib, hj] at hfollows
          obtain ⟨_, ⟨⟩, _⟩ := hfollows
        | @added _ e j _ hn hj ha =>
          rw [hn, List.singleton_append, follows_cons lib, hj] at hfollows
          obtain ⟨_, ⟨⟩, _, _, hafter⟩ := hfollows
          obtain ⟨rest, hrest⟩ := (run_grows : Grows t (run lib url true t ls).1).attached
          obtain rfl := ha.new_eq (hrest.trans hnew)
          rw [attach_cons, ← ha.segments]
          exact ih (hp ▸ hno.2) (by rw [ha.urls_eq, ha.segIndex, hp]; exact hafter) hrest.symm

/-! ## The tags -/

/-- What the tags of a line say of the list. -/
structure Tagged (s : State) (line : Line) (t : State) : Prop where
  target : t.variant.targetDuration = line.target.getD s.variant.targetDuration
  sequence : t.variant.segStart = line.sequence.getD s.variant.segStart
  finished : t.variant.finished = (s.variant.finished || line.finishes)

theorem addSegment_tagged : Tagged s (.uri u) (s.addSegment url u) := ⟨rfl, rfl, (Bool.or_false _).symm⟩

theorem addIframe_tagged : Tagged s (.uri u) (s.addIframe lib u).1 ∧ (s.addIframe lib u).2 ≠ .done := by
  rw [State.addIframe]
  split
  · exact ⟨⟨rfl, rfl, (Bool.or_false _).symm⟩, nofun⟩
  · exact ⟨⟨rfl, rfl, (Bool.or_false _).symm⟩, nofun⟩

/-- Only the line at the end of the list ends the loop. -/
theorem step_done : (step lib url iframeList s line).2 = .done ↔ line.ends = true := by
  cases line with
  | extm3u => exact ⟨fun _ => rfl, fun _ => rfl⟩
  | endlist => exact ⟨fun _ => rfl, fun _ => rfl⟩
  | uri u =>
    refine ⟨fun h => ?_, nofun⟩
    rw [step, State.handle] at h
    split at h
    · exact absurd h addIframe_tagged.2
    · cases h
  | byterange size offset =>
    refine ⟨fun h => ?_, nofun⟩
    rw [step, State.handle] at h
    split at h
    · cases h
    · cases h
  | extinf n =>
    refine ⟨fun h => ?_, nofun⟩
    rw [step, State.handle] at h
    split at h
    · cases h
    · cases h
  | _ => exact ⟨nofun, nofun⟩

/-- A URL may add a segment and an I-frame. -/
theorem Tagged.uri_trans {r : State} (h : Tagged s (.uri u) t) (h' : Tagged t (.uri u) r) : Tagged s (.uri u) r := by
  constructor
  · exact h'.target.trans h.target
  · exact h'.sequence.trans h.sequence
  · rw [h'.finished, h.finished, Bool.or_assoc, Bool.or_self]

/-- **The tags** are about the list of the variant, also where the lines are of an I-frame list. -/
theorem step_tagged : Tagged s line (step lib url true s line).1 := by
  have hhandle : Tagged s line (s.handle lib url true line).1 := by
    cases line with
    | uri u =>
      rw [State.handle]
      by_cases hseg : s.pending.isSegment = true
      · rw [if_pos hseg]
        split
        · exact addSegment_tagged.uri_trans addIframe_tagged.1
        · exact addSegment_tagged
      · rw [if_neg hseg]
        split
        · exact addIframe_tagged.1
        · exact ⟨rfl, rfl, (Bool.or_false _).symm⟩
    | endlist => exact ⟨rfl, rfl, (Bool.or_true _).symm⟩
    | extinf n => exact ⟨rfl, rfl, (Bool.or_false _).symm⟩
    | _ => exact ⟨rfl, rfl, (Bool.or_false _).symm⟩
  exact ⟨hhandle.target, hhandle.sequence, hhandle.finished⟩

theorem finishes_ends (he : line.ends = true) : finishes (line :: ls) = line.finishes := by
  rw [finishes, List.find?_cons_of_pos he]
  rfl

theorem finishes_cons (he : line.ends = false) : finishes (line :: ls) = (line.finishes || finishes ls) := by
  have hfin : line.finishes = false := by
    cases line with
    | endlist => cases he
    | _ => rfl
  rw [hfin, Bool.false_or, finishes, List.find?_cons_of_neg (Bool.not_eq_true _ ▸ he)]
  rfl

/-- What the tags of a whole list say. -/
theorem run_tagged (hok : (run lib url true s ls).2 = true) :
    (run lib url true s ls).1.variant.targetDuration = lastOf Line.target s.variant.targetDuration (upTo ls) ∧
      (run lib url true s ls).1.variant.segStart = lastOf Line.sequence s.variant.segStart (upTo ls) ∧
      (run lib url true s ls).1.variant.finished = (s.variant.finished || finishes ls) := by
  induction ls generalizing s with
  | nil => exact ⟨rfl, rfl, (Bool.or_false _).symm⟩
  | cons line ls ih =>
    have htag : Tagged s line (step lib url true s line).1 := step_tagged
    have hdone : (step lib url true s line).2 = .done ↔ line.ends = true := step_done
    rw [run] at hok ⊢
    generalize step lib url true s line = r at hok htag hdone ⊢
    rcases r with ⟨t, _ | _ | _⟩
    · have he : line.ends = false := Bool.eq_false_iff.mpr (fun h => nomatch hdone.mpr h)
      obtain ⟨htarget, hsequence, hfinished⟩ := ih hok
      rw [upTo_cons he, lastOf, lastOf, ← htag.target, ← htag.sequence]
      refine ⟨htarget, hsequence, hfinished.trans ?_⟩
      rw [htag.finished, finishes_cons he, Bool.or_assoc]
    · have he : line.ends = true := hdone.mp rfl
      have hquiet : line.target = none ∧ line.sequence = none := by
        cases line with
        | extm3u => exact ⟨rfl, rfl⟩
        | endlist => exact ⟨rfl, rfl⟩
        | _ => cases he
      rw [upTo_ends he, finishes_ends he, lastOf, lastOf]
      exact ⟨by rw [htag.target, hquiet.1]; rfl, by rw [htag.sequence, hquiet.2]; rfl, htag.finished⟩
    · cases hok

/-! ## The whole list -/

/-- **Enough**: under the condition the list is read as it should be. -/
theorem LinesOk.right (lib : Library) (h : LinesOk url v ls) :
    let r := run lib url true (start v) ls
    r.1.variant.segments = attach v.segments r.1.attached ∧ r.1.variant.segStart = v.segStart ∧
      r.1.variant.finished = v.finished ∧ r.1.variant.targetDuration = v.targetDuration ∧
      Placed v.urls url [] (entries .start (upTo ls)) r.1.attached := by
  obtain ⟨hok, hsegments⟩ : (run lib url true (start v) ls).2 = true ∧ _ :=
    run_attach h.noAdds h.follows (List.nil_append _).symm
  obtain ⟨htarget, hsequence, hfinished⟩ := run_tagged hok
  obtain ⟨_, hplaced⟩ := (run_placed_iff (Inv.start v) (List.nil_append _).symm).mpr ⟨h.noAdds, h.follows⟩
  refine ⟨hsegments, hsequence.trans h.segStart, hfinished.trans ?_, htarget.trans h.targetDuration, hplaced⟩
  show (v.finished || finishes ls) = v.finished
  cases hfin : finishes ls with
  | false => exact Bool.or_false _
  | true => rw [h.finished hfin, Bool.or_self]

/-- **Needed**: a list that is read as it should be meets the condition. -/
theorem linesOk_of_right (lib : Library)
    (hlength : (run lib url true (start v) ls).1.variant.segments.length = v.segments.length)
    (hplaced : Placed v.urls url [] (entries .start (upTo ls)) (run lib url true (start v) ls).1.attached)
    (hsequence : (run lib url true (start v) ls).1.variant.segStart = v.segStart)
    (hfinished : (run lib url true (start v) ls).1.variant.finished = v.finished)
    (htarget : (run lib url true (start v) ls).1.variant.targetDuration = v.targetDuration) : LinesOk url v ls := by
  obtain ⟨hno, hfollows⟩ := (run_placed_iff (Inv.start v) (List.nil_append _).symm).mp ⟨hlength, hplaced⟩
  have hok : (run lib url true (start v) ls).2 = true := (run_attach hno hfollows (List.nil_append _).symm).1
  obtain ⟨htarget', hsequence', hfinished'⟩ := run_tagged hok
  refine ⟨hno, hfollows, htarget'.symm.trans htarget, hsequence'.symm.trans hsequence, fun hfin => ?_⟩
  have hor : (v.finished || finishes ls) = v.finished := hfinished'.symm.trans hfinished
  rw [hfin, Bool.or_true] at hor
  exact hor.symm

/-- What is claimed, by the loop over the lines. -/
theorem parse_fields (url : Str) (v : Variant) {text : Str} (now : Int) (hbody : body lib text = some ls) :
    let r := hlsParseM3U8 lib url v true text now
    let t := (run lib url true (start v) ls).1
    r.1.segments = t.variant.segments ∧ r.1.segStart = t.variant.segStart ∧ r.1.finished = t.variant.finished ∧
      r.1.targetDuration = t.variant.targetDuration ∧ r.2.1 = t.attached := by
  intro r t
  have hr : r = (if (run lib url true (start v) ls).2 then { t.variant with lastLoadTime := now }
      else t.variant, t.attached, true) := by
    show hlsParseM3U8 lib url v true text now = _
    rw [hlsParseM3U8, hbody]
    rfl
  rw [hr]
  split
  · exact ⟨rfl, rfl, rfl, rfl, rfl⟩
  · exact ⟨rfl, rfl, rfl, rfl, rfl⟩

/-- **An I-frame list** changes nothing but the I-frames of the segments just where its lines are about nothing else. -/
theorem addsIframes_iff (lib : Library) (url : Str) (v : Variant) (text : Str) (now : Int) :
    AddsIframes lib url v text now ↔ ListOk lib url v text := by
  cases hbody : body lib text with
  | none =>
    have hparse : hlsParseM3U8 lib url v true text now = (v, [], false) := by rw [hlsParseM3U8, hbody]
    refine ⟨fun _ ls hls => (nomatch hbody.symm.trans hls), fun _ => ?_⟩
    constructor
    · rw [hparse, attach_nil]
    · rw [hparse]
    · rw [hparse]
    · rw [hparse]
    · rw [hparse, listed, hbody]
      trivial
  | some ls =>
    have hlisted : listed lib text = entries .start (upTo ls) := by
      rw [listed, hbody]
      rfl
    obtain ⟨hsegs, hstart, hfin, htgt, hatt⟩ := parse_fields url v now hbody
    constructor
    · intro h ls' hls
      obtain rfl := Option.some.inj (hbody.symm.trans hls)
      apply linesOk_of_right lib
      · rw [← hsegs, h.segments, length_attach]
      · rw [← hlisted, ← hatt]
        exact h.placed
      · exact hstart.symm.trans h.segStart
      · exact hfin.symm.trans h.finished
      · exact htgt.symm.trans h.targetDuration
    · intro h
      obtain ⟨hsegments, hsequence, hfinished, htarget, hplaced⟩ := (h ls hbody).right lib
      refine ⟨?_, hstart.trans hsequence, hfin.trans hfinished, htgt.trans htarget, ?_⟩
      · rw [hsegs, hatt]
        exact hsegments
      · rw [hlisted, hatt]
        exact hplaced

/-- The variant that is given. -/
theorem callsRight_iff (s : ReadData.State) (a : ReadData.Answer) (iframeNb : Nat) :
    CallsRight s a iframeNb ↔ CallOk s a iframeNb := by
  unfold CallsRight CallOk iframeCall
  cases hn : s.nextNumber.hlsGetIndex a with
  | none => exact ⟨fun _ n h => (nomatch h), fun _ call h => (nomatch h)⟩
  | some n =>
    rw [Option.bind_some]
    constructor
    · intro h n' hn'
      obtain rfl := Option.some.inj hn'
      by_contra hnot
      simp only [not_or, Bool.not_eq_true, Bool.not_eq_false, not_le, ne_eq, not_not] at hnot
      obtain ⟨hne, hnb, hparsed, hparse, hlt⟩ := hnot
      exact hne (h (0, n) (by rw [if_pos ⟨hnb, hparsed, hparse, hlt⟩]; rfl)).symm
    · intro h call hcall
      split at hcall
      · rename_i hmade
        obtain rfl := Option.some.inj hcall
        obtain ⟨hnb, hparsed, hparse, hlt⟩ := hmade
        rcases h n rfl with h | h | h | h | h
        · exact h.symm
        · exact absurd hnb h
        · rw [hparsed] at h; cases h
        · rw [hparse] at h; cases h
        · exact absurd hlt (Nat.not_lt_of_le h)
      · cases hcall

/-- **I-frame lists.** An I-frame list changes nothing but the I-frames of the variant's segments, and these as it says,
    just where its tags and its URLs are about nothing else; and it is given the variant it belongs to just where that
    is the first one. -/
theorem hlsParseM3U8_right_iff (lib : Library) (url : Str) (v : Variant) (text : Str) (now : Int) (s : ReadData.State)
    (a : ReadData.Answer) (iframeNb : Nat) :
    (AddsIframes lib url v text now ↔ ListOk lib url v text) ∧ (CallsRight s a iframeNb ↔ CallOk s a iframeNb) :=
  ⟨addsIframes_iff lib url v text now, callsRight_iff s a iframeNb⟩

/-! ## I-frame lists that change more -/

/-- The number at the start of a text. -/
def digits (s : Str) : Int := (s.takeWhile Char.isDigit).foldl (fun n c => 10 * n + (c.toNat - 48 : Nat)) 0

/-- Lists without keys, dates and fractions. -/
def plain : Library where
  atoi := digits
  millis s := 1000 * digits s
  time _ := 0
  hexToData iv _ := iv
  keyInfo _ := ⟨[], [], []⟩
  strlcmp a b n := a.take n == b.take n
  strlcmp_iff _ _ _ := beq_iff_eq

/-- A segment with an URL. -/
def segmentAt (url : String) : Segment where
  keyType := .none
  totalTime := 10000
  startTime := 0
  programTime := 0
  iframes := []
  iframeCurIndex := none
  url := url.toList
  key := []
  iv := List.replicate 16 0

/-- A variant whose list was read to its end. -/
def readFrom (urls : List String) : Variant := ⟨0, true, 10, 0, false, urls.map segmentAt⟩

/-- The second variant is not parsed yet. -/
def unparsed : Nat → ReadData.Variant
  | 1 => ⟨20, 0, [], 0, false, 0, false, false⟩
  | _ => ⟨10, 0, [.none], 0, true, 0, true, false⟩

/-- An I-frame list sets the target duration of the variant; an I-frame is added to a segment because its URL starts
    with the one of that segment; the third I-frame of a segment comes behind 4000000 s, and its time is negative; and
    the I-frames of the second variant are added to the first one. -/
theorem list_changes_more :
    ¬AddsIframes plain "http://h/i".toList (readFrom ["http://h/a.ts"])
        "#EXTM3U\n#EXT-X-TARGETDURATION:3\n#EXTINF:3,\n#EXT-X-BYTERANGE:100@0\na.ts\n#EXT-X-ENDLIST".toList 0 ∧
      ¬AddsIframes plain "http://h/i".toList (readFrom ["http://h/s1", "http://h/s10"])
        "#EXTM3U\n#EXTINF:3,\n#EXT-X-BYTERANGE:100@0\ns10".toList 0 ∧
      ¬AddsIframes plain "http://h/i".toList (readFrom ["http://h/a.ts"])
        ("#EXTM3U".toList ++ (List.replicate 3 "\n#EXTINF:2000000,\n#EXT-X-BYTERANGE:100@0\na.ts".toList).flatten) 0 ∧
      ¬CallsRight (ReadData.start 2 unparsed false false)
        { ReadData.playing 1 .data with parse := .reads ⟨0, [.none], true⟩ } 2 := by
  refine ⟨mt AddsIframes.targetDuration ?_, mt AddsIframes.placed ?_, mt AddsIframes.placed ?_, fun h => ?_⟩
  · decide +kernel
  · decide +kernel
  · decide +kernel
  · exact absurd (h (0, 1) rfl) (by decide +kernel)

end HiSTB.Hls.M3u8
