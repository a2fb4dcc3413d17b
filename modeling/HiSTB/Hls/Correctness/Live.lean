import HiSTB.Hls.Correctness.Choice
import Mathlib.Data.List.Chain

/-!
# `Hls.Correctness.Live` — the numbers of a live session

The lists of a live session are windows that slide: each load shows at least one segment, and `hls_stream[0]` never
starts before the start it had. Between two opens the number of `hls_stream[0]` goes on by one, or to the start of the
list.

* `Follows` — a number is tried after another one;
* `Waits`, `Reads` — what holds before and after an open;
* `run_numbered` — the subscripts are in range, and the numbers tried are increasing, in every run that is `Steady`.
-/

namespace HiSTB.Hls.ReadData

open Lib

variable {s t : State} {a : Answer} {es fs : List Event} {is : List Answer} {i : Nat}

variable {cur : Int} {x : Parse}

/-! ## Live sessions -/

/-- A list that is loaded has segments, and no end. -/
def Playlist.Live (p : Playlist) : Prop := p.segments ≠ [] ∧ p.finished = false
deriving Decidable

/-- The list of the variant slides on; only the start of `hls_stream[0]` matters. -/
def Slides (s : State) (i : Nat) : Parse → Prop
  | .fails => True
  | .breaks p => p.Live ∧ (i = 0 → (s.stream 0).segStart ≤ p.segStart)
  | .reads p => p.Live ∧ (i = 0 → (s.stream 0).segStart ≤ p.segStart)

/-- What the playlists of a live session show, where one is loaded. An I-frame list that is read at `load_next` leaves
    `hls_stream[0]` as it is. -/
structure Live (s : State) (a : Answer) : Prop where
  reparse : s.label = .reparse → Slides s 0 a.parse
  reparse2 : s.label = .reparse2 → Slides s s.curHls a.parse
  loadNext : s.label = .loadNext → ∀ r ∈ s.chosen a, (r.1.stream 0).segStart = (s.stream 0).segStart ∧
    r.1.nb 0 = s.nb 0 ∧ (r.1.stream 0).finished = false

/-- An open that fails neither returns for the interrupt nor for want of memory, and the subscript for the cache is an
    `int` and not before the list. -/
def TidyOpen (s : State) (a : Answer) : KeyType → Prop
  | .none => (a.openRet = .ok ∨ a.interrupt = false ∧ a.openRet ≠ .noMemory) ∧
      (s.hicache = true → (s.stream 0).segStart ≤ (s.stream 0).segCur + 1 ∧
        IsInt ((s.stream 0).segCur + 1 - (s.stream 0).segStart))
  | .aes128 => a.keyMemory = true

/-- **The condition**: with `use_offset_seq` the number is not behind the end of the current list; an open ends as
    `TidyOpen` says; and a segment with a key has a handle, or is at its end. -/
structure Tidy (s : State) (a : Answer) : Prop where
  place : s.label = .place → s.useOffsetSeq = true →
    (s.stream 0).segCur < (s.stream s.curHls).segStart + s.nb s.curHls
  reopen : s.label = .reopen → ∀ seat ∈ s.curSeg, TidyOpen s a seat.keyType
  read : s.label = .read → s.input = true ∨ s.decrypt = some true ∨ a.interrupt = false ∧ a.read = .ended

/-- The numbers of the lists of `hls_stream[0]` and of the current variant are `int`s. -/
def IntLists (s : State) : Prop := (s.stream 0).Ints ∧ (s.stream s.curHls).Ints
deriving Decidable

instance (s : State) (i : Nat) : (x : Parse) → Decidable (Slides s i x)
  | .fails => isTrue trivial
  | .breaks p => inferInstanceAs (Decidable (p.Live ∧ _))
  | .reads p => inferInstanceAs (Decidable (p.Live ∧ _))

instance (s : State) (a : Answer) : (k : KeyType) → Decidable (TidyOpen s a k)
  | .none => inferInstanceAs (Decidable (_ ∧ _))
  | .aes128 => inferInstanceAs (Decidable (_ = _))

instance (s : State) (a : Answer) : Decidable (Live s a) :=
  decidable_of_iff (_ ∧ _ ∧ _) ⟨fun h => ⟨h.1, h.2.1, h.2.2⟩, fun h => ⟨h.1, h.2, h.3⟩⟩

instance (s : State) (a : Answer) : Decidable (Tidy s a) :=
  decidable_of_iff (_ ∧ _ ∧ _) ⟨fun h => ⟨h.1, h.2.1, h.2.2⟩, fun h => ⟨h.1, h.2, h.3⟩⟩

/-- The number `cur` is tried after `p`: the ones in between are before the start of the list. -/
def Follows (p : Int × Int) (cur start : Int) : Prop := p.1 < cur ∧ ∀ k, p.1 < k → k < cur → k < start

/-- What holds before an open; `last` is the number tried last. -/
structure Waits (s : State) (last : Option (Int × Int)) : Prop where
  finished : (s.stream 0).finished = false
  nonempty : s.nb 0 ≠ 0
  current : s.nb s.curHls ≠ 0
  input : s.input = false
  number : IsInt (s.stream 0).segCur
  next : ∀ p ∈ last, Follows p (s.stream 0).segCur (s.stream 0).segStart

/-- What holds after an open. -/
structure Reads (s : State) (last : Option (Int × Int)) : Prop where
  finished : (s.stream 0).finished = false
  nonempty : s.nb 0 ≠ 0
  current : s.nb s.curHls ≠ 0
  number : IsInt ((s.stream 0).segCur + 1)
  last : ∃ start, last = some ((s.stream 0).segCur, start)

/-- Where a session stands at a label. -/
inductive Stage (s : State) (last : Option (Int × Int)) : Prop
  | waits (hlabel : s.label ≠ .read ∧ s.label ≠ .loadNext) (h : Waits s last)
      (hnumber : s.label = .reopen → IsInt ((s.stream 0).segCur + 1))
  | again (hlabel : s.label = .call ∨ s.label = .restart) (hinput : s.input = true) (h : Reads s last)
  | read (hlabel : s.label = .read) (h : Reads s last)
  | ended (hlabel : s.label = .loadNext) (hinput : s.input = false) (h : Reads s last)

variable {last : Option (Int × Int)}

/-! ## What is kept -/

theorem Waits.of_same (h : Waits s last) (hstream : t.stream = s.stream) (hcur : t.curHls = s.curHls)
    (hinput : t.input = s.input) : Waits t last := by
  refine ⟨?_, ?_, ?_, hinput.trans h.input, ?_, ?_⟩
  · rw [hstream]
    exact h.finished
  · rw [State.nb, hstream]
    exact h.nonempty
  · rw [State.nb, hstream, hcur]
    exact h.current
  · rw [hstream]
    exact h.number
  · rw [hstream]
    exact h.next

theorem Reads.of_same (h : Reads s last) (hstream : t.stream = s.stream) (hcur : t.curHls = s.curHls) :
    Reads t last := by
  refine ⟨?_, ?_, ?_, ?_, ?_⟩
  · rw [hstream]
    exact h.finished
  · rw [State.nb, hstream]
    exact h.nonempty
  · rw [State.nb, hstream, hcur]
    exact h.current
  · rw [hstream]
    exact h.number
  · rw [hstream]
    exact h.last

theorem Follows.mono {p : Int × Int} {start start' : Int} (h : Follows p cur start) (hle : start ≤ start') :
    Follows p cur start' := ⟨h.1, fun k hk hlt => Int.lt_of_lt_of_le (h.2 k hk hlt) hle⟩

/-- A list is loaded. -/
theorem Waits.load (h : Waits s last) {p : Playlist} (hp : p.Live)
    (hstart : i = 0 → (s.stream 0).segStart ≤ p.segStart) :
    Waits (s.load i p) last := by
  have hlen : p.segments.length ≠ 0 := fun heq => hp.1 (List.eq_nil_of_length_eq_zero heq)
  have hnb : ∀ j, s.nb j ≠ 0 → (s.load i p).nb j ≠ 0 := by
    intro j hj
    by_cases hji : j = i
    · subst hji
      show (Function.update s.stream j _ j).segments.length ≠ 0
      rw [Function.update_self]
      exact hlen
    · rw [State.nb, load_stream_of_ne hji]
      exact hj
  refine ⟨?_, hnb 0 h.nonempty, hnb _ h.current, h.input, ?_, fun q hq => ?_⟩
  · by_cases hi : 0 = i
    · subst hi
      show (Function.update s.stream 0 _ 0).finished = false
      rw [Function.update_self]
      exact hp.2
    · rw [load_stream_of_ne hi]
      exact h.finished
  · by_cases hi : 0 = i
    · subst hi
      show IsInt (Function.update s.stream 0 _ 0).segCur
      rw [Function.update_self]
      exact h.number
    · rw [load_stream_of_ne hi]
      exact h.number
  · by_cases hi : 0 = i
    · subst hi
      show Follows q (Function.update s.stream 0 _ 0).segCur (Function.update s.stream 0 _ 0).segStart
      rw [Function.update_self]
      exact (h.next q hq).mono (hstart rfl)
    · rw [load_stream_of_ne hi]
      exact h.next q hq

theorem Waits.parse (h : Waits s last) (hx : Slides s i x) : Waits (s.hlsParseM3U8 i x).1 last := by
  cases x with
  | fails => exact h
  | breaks p => exact h.load hx.1 hx.2
  | reads p => exact h.load hx.1 hx.2

theorem setCur_stream_of_ne {j : Nat} (h : j ≠ i) : (s.setCur i cur).stream j = s.stream j :=
  Function.update_of_ne h _ _

theorem setCur_stream_self : (s.setCur i cur).stream i = { s.stream i with segCur := cur } :=
  Function.update_self _ _ _

/-- Another number changes no list. -/
theorem setCur_lists (cur : Int) (j : Nat) : ((s.setCur i cur).stream j).segments = (s.stream j).segments ∧
    ((s.setCur i cur).stream j).segStart = (s.stream j).segStart ∧
    ((s.setCur i cur).stream j).finished = (s.stream j).finished := by
  by_cases hj : j = i
  · subst hj
    rw [setCur_stream_self]
    exact ⟨rfl, rfl, rfl⟩
  · rw [setCur_stream_of_ne hj]
    exact ⟨rfl, rfl, rfl⟩

theorem Waits.setCur (h : Waits s last) (hnumber : IsInt ((s.setCur i cur).stream 0).segCur)
    (hnext : ∀ p ∈ last, Follows p ((s.setCur i cur).stream 0).segCur (s.stream 0).segStart) :
    Waits (s.setCur i cur) last := by
  obtain ⟨hseg, hstart, hfin⟩ := setCur_lists (s := s) (i := i) cur 0
  refine ⟨hfin.trans h.finished, ?_, ?_, h.input, hnumber, ?_⟩
  · rw [State.nb, hseg]
    exact h.nonempty
  · show ((s.setCur i cur).stream s.curHls).segments.length ≠ 0
    rw [(setCur_lists cur s.curHls).1]
    exact h.current
  · rw [hstart]
    exact hnext

/-- The numbers that are skipped are no longer in the list. -/
theorem Waits.skip (h : Waits s last) (hints : IntLists s) : Waits s.skip last := by
  unfold State.skip
  split
  · rename_i hlt
    refine h.setCur (by rw [setCur_stream_self]; exact hints.1.start) (fun p hp => ?_)
    rw [setCur_stream_self]
    obtain ⟨hp1, -⟩ := h.next p hp
    exact ⟨Int.lt_trans hp1 hlt, fun k _ hk => hk⟩
  · exact h

/-- The count in the current variant leaves the number of `hls_stream[0]`. -/
theorem Waits.reCount (h : Waits s last) : Waits s.reCount last ∧ s.reCount.curIndex = s.curIndex ∧
    s.reCount.nb s.curHls = s.nb s.curHls ∧ (s.reCount.stream 0).segCur = (s.stream 0).segCur := by
  have hcur {cur : Int} (hzero : s.curHls = 0 → cur = (s.stream 0).segCur) :
      ((s.setCur s.curHls cur).stream 0).segCur = (s.stream 0).segCur := by
    by_cases h0 : 0 = s.curHls
    · rw [← h0, setCur_stream_self]
      exact hzero h0.symm
    · rw [setCur_stream_of_ne h0]
  have hkeep {cur : Int} (hzero : s.curHls = 0 → cur = (s.stream 0).segCur) :
      Waits (s.setCur s.curHls cur) last ∧ (s.setCur s.curHls cur).curIndex = s.curIndex ∧
        (s.setCur s.curHls cur).nb s.curHls = s.nb s.curHls ∧
        ((s.setCur s.curHls cur).stream 0).segCur = (s.stream 0).segCur := by
    refine ⟨h.setCur (by rw [hcur hzero]; exact h.number) (fun p hp => ?_), ?_, ?_, hcur hzero⟩
    · rw [hcur hzero]
      exact h.next p hp
    · unfold State.curIndex
      rw [hcur hzero]
      rw [show (s.setCur s.curHls cur).curHls = s.curHls from rfl, (setCur_lists cur s.curHls).2.1]
    · rw [State.nb, (setCur_lists cur s.curHls).1]
  have hback (x : Int) : int32 ((s.stream 0).segCur - x + x) = (s.stream 0).segCur := by
    rw [Int.sub_add_cancel]
    exact h.number.eq
  unfold State.reCount
  dsimp only
  split
  · refine hkeep (fun h0 => ?_)
    rw [h0]
    exact hback _
  · refine hkeep (fun h0 => ?_)
    rw [h0]
    exact hback _

theorem Waits.setSeg (h : Waits s last) {index : Int} (hi : s.nb i ≠ 0) : Waits (s.setSeg i index).1 last :=
  ⟨h.finished, h.nonempty, hi, h.input, h.number, h.next⟩

/-! ## One part -/

/-- A part that tries no segment. -/
structure Quiet (t : State) (fs : List Event) (last : Option (Int × Int)) : Prop where
  stage : Stage t last
  tried : tried fs = []
  inRange : ∀ e ∈ fs, e.InRange

theorem Waits.quiet (h : Waits t last) (hlabel : t.label ≠ .read ∧ t.label ≠ .loadNext) (hreopen : t.label ≠ .reopen) :
    Quiet t [] last :=
  ⟨.waits hlabel h (fun hl => absurd hl hreopen), rfl, fun _ he => absurd he List.not_mem_nil⟩

theorem Waits.returns (h : Waits t last) (hlabel : t.label = .call) (r : Ret) : Quiet t [.returns r] last := by
  refine ⟨.waits ?_ h (fun hl => ?_), rfl, fun e he => ?_⟩
  · rw [hlabel]
    decide
  · rw [hlabel] at hl
    cases hl
  · obtain rfl := List.mem_singleton.mp he
    trivial

theorem goto_quiet {l : Label} (h : Waits s last) (hl : (l ≠ .read ∧ l ≠ .loadNext) ∧ l ≠ .reopen)
    (hstep : s.goto l = some (t, fs)) : Quiet t fs last := by
  cases hstep
  have hgone : Waits { s with label := l } last := h.of_same rfl rfl rfl
  exact hgone.quiet hl.1 hl.2

theorem ret_quiet {r : Ret} (h : Waits s last) (hstep : s.ret r = some (t, fs)) : Quiet t fs last := by
  cases hstep
  have hcalled : Waits { s with label := .call } last := h.of_same rfl rfl rfl
  exact hcalled.returns rfl r

theorem redo_quiet (h : Waits s last) (hlabel : (s.label ≠ .read ∧ s.label ≠ .loadNext) ∧ s.label ≠ .reopen)
    (hstep : s.redo a = some (t, fs)) : Quiet t fs last := by
  unfold State.redo at hstep
  split at hstep
  · exact ret_quiet h hstep
  · cases hstep
    exact h.quiet hlabel.1 hlabel.2

theorem parse_label : (s.hlsParseM3U8 i x).1.label = s.label := by
  cases x <;> rfl

theorem reload_quiet (h : Waits s last) (hstep : s.reload a = some (t, fs)) : Quiet t fs last := by
  unfold State.reload at hstep
  split at hstep
  · exact ret_quiet h hstep
  · split at hstep
    · exact goto_quiet h (by decide) hstep
    · exact goto_quiet h (by decide) hstep

theorem reparse_quiet (h : Waits s last) (hlabel : s.label = .reparse) (hx : Slides s 0 a.parse)
    (hstep : s.reparse a = some (t, fs)) : Quiet t fs last := by
  have hparse := h.parse hx
  unfold State.reparse at hstep
  split at hstep
  · have hloaded : Waits { (s.hlsParseM3U8 0 a.parse).1 with needReload := false, hasReload := true } last :=
      hparse.of_same rfl rfl rfl
    exact goto_quiet hloaded (by decide) hstep
  · refine redo_quiet hparse ?_ hstep
    rw [parse_label, hlabel]
    decide

theorem reparse2_quiet (h : Waits s last) (hlabel : s.label = .reparse2) (hx : Slides s s.curHls a.parse)
    (hstep : s.reparse2 a = some (t, fs)) : Quiet t fs last := by
  have hparse := h.parse hx
  unfold State.reparse2 at hstep
  split at hstep
  · exact goto_quiet hparse (by decide) hstep
  · refine redo_quiet hparse ?_ hstep
    rw [parse_label, hlabel]
    decide

theorem inWindow_quiet (h : Waits s last) (hstep : s.inWindow a = some (t, fs)) : Quiet t fs last := by
  unfold State.inWindow at hstep
  simp only [h.finished, Bool.false_eq_true, if_false] at hstep
  split at hstep
  · split at hstep
    · have hfresh : Waits { s with needReload := true } last := h.of_same rfl rfl rfl
      exact goto_quiet hfresh (by decide) hstep
    · split at hstep
      · exact ret_quiet h hstep
      · exact goto_quiet h (by decide) hstep
  · split at hstep
    · exact goto_quiet h (by decide) hstep
    · exact goto_quiet h (by decide) hstep

/-- The subscript for the current segment. -/
theorem Waits.curIndex (h : Waits s last) (hints : IntLists s)
    (hlt : (s.stream 0).segCur < (s.stream s.curHls).segStart + s.nb s.curHls) :
    0 ≤ s.curIndex ∧ s.curIndex < s.nb s.curHls := by
  have hnb := h.current
  have hmax : (s.nb s.curHls : Int) < 0x80000000 := hints.2.nb.2
  unfold State.curIndex
  split
  · rw [int32_of_range (by omega) (by omega)]
    omega
  · omega

theorem place_quiet (h : Waits s last) (hints : IntLists s)
    (htidy : s.useOffsetSeq = true → (s.stream 0).segCur < (s.stream s.curHls).segStart + s.nb s.curHls)
    (hstep : s.place = some (t, fs)) : Quiet t fs last := by
  unfold State.place at hstep
  split at hstep
  · have hcounted : Waits { s with hasReload := false } last := h.of_same rfl rfl rfl
    exact goto_quiet hcounted (by decide) hstep
  · rename_i hin
    have hlt : (s.stream 0).segCur < (s.stream s.curHls).segStart + s.nb s.curHls := by
      cases hoff : s.useOffsetSeq with
      | true => exact htidy hoff
      | false =>
        rw [hoff] at hin
        have hle := not_and.mp hin rfl
        have hnb := h.current
        have hlow := hints.2.start.1
        have hhigh : (s.stream s.curHls).segStart + s.nb s.curHls < 0x80000000 := hints.2.behind.2
        rw [int32_of_range (by omega) (by omega)] at hle
        omega
    -- with or without the count, the current variant and the subscript are the same
    have hcount : ∃ u, (if s.useOffsetSeq = true then s.reCount else s) = u ∧ Waits u last ∧ u.curHls = s.curHls ∧
        u.curIndex = s.curIndex ∧ u.nb s.curHls = s.nb s.curHls ∧ (u.stream 0).segCur = (s.stream 0).segCur := by
      refine ⟨_, rfl, ?_⟩
      split
      · obtain ⟨hre, hindex, hnb, hnumber⟩ := h.reCount
        refine ⟨hre, ?_, hindex, hnb, hnumber⟩
        unfold State.reCount
        dsimp only
        split <;> rfl
      · exact ⟨h, rfl, rfl, rfl, rfl⟩
    obtain ⟨u, hu, hwaits, hcur, hindex, hnb, hnumber⟩ := hcount
    rw [hu] at hstep
    obtain ⟨h0, hlen⟩ := h.curIndex hints hlt
    cases hstep
    have hset : Waits (u.setSeg u.curHls u.curIndex).1 last := hwaits.setSeg hwaits.current
    refine ⟨.waits ⟨Label.noConfusion, Label.noConfusion⟩ (hset.of_same rfl rfl rfl) (fun _ => ?_), rfl, fun e he => ?_⟩
    · have hlow := h.number.1
      have hhigh : (s.stream s.curHls).segStart + s.nb s.curHls < 0x80000000 := hints.2.behind.2
      show IsInt ((u.stream 0).segCur + 1)
      rw [hnumber]
      exact ⟨by omega, by omega⟩
    obtain rfl := List.mem_singleton.mp he
    show 0 ≤ u.curIndex ∧ u.curIndex < u.nb u.curHls
    rw [hindex, hcur, hnb]
    exact ⟨h0, hlen⟩

/-! ## The open -/

/-- What an open shows, and where it leaves the session. -/
structure Tries (s t : State) (fs : List Event) : Prop where
  stage : Stage t (some ((s.stream 0).segCur, (s.stream 0).segStart))
  tried : tried fs = [((s.stream 0).segCur, (s.stream 0).segStart)]
  inRange : ∀ e ∈ fs, e.InRange

theorem Waits.reads (h : Waits s last) (hnumber : IsInt ((s.stream 0).segCur + 1)) :
    Reads s (some ((s.stream 0).segCur, (s.stream 0).segStart)) := ⟨h.finished, h.nonempty, h.current, hnumber, _, rfl⟩

/-- The next number after one that was tried. -/
theorem Reads.next (h : Reads s last) (hinput : s.input = false) :
    Waits (s.setCur 0 (int32 ((s.stream 0).segCur + 1))) last := by
  obtain ⟨start, rfl⟩ := h.last
  rw [h.number.eq]
  obtain ⟨hseg, hstart, hfin⟩ := setCur_lists (s := s) (i := 0) ((s.stream 0).segCur + 1) 0
  refine ⟨hfin.trans h.finished, ?_, ?_, hinput, ?_, ?_⟩
  · rw [State.nb, hseg]
    exact h.nonempty
  · show ((s.setCur 0 _).stream s.curHls).segments.length ≠ 0
    rw [(setCur_lists _ s.curHls).1]
    exact h.current
  · rw [setCur_stream_self]
    exact h.number
  · intro p hp
    obtain rfl := Option.some.inj hp
    rw [setCur_stream_self]
    refine ⟨Int.lt_succ _, fun k hk hlt => ?_⟩
    dsimp only at hk hlt
    omega

theorem opens_events (seat : Seat) (cur start : Int) (hgs : Subscripts fs) :
    tried (.opens cur start seat :: fs) = [(cur, start)] ∧ ∀ e ∈ Event.opens cur start seat :: fs, e.InRange := by
  refine ⟨congrArg ((cur, start) :: ·) hgs.tried, fun e he => ?_⟩
  rcases List.mem_cons.mp he with rfl | he
  · trivial
  · exact hgs.inRange e he

/-- An open that succeeds, or fails in a way that goes on with the next number. -/
theorem reopen_tries (h : Waits s last) (hnumber : IsInt ((s.stream 0).segCur + 1))
    (htidy : ∀ seat ∈ s.curSeg, TidyOpen s a seat.keyType)
    (hstep : s.reopen a = some (t, fs)) : Tries s t fs := by
  unfold State.reopen at hstep
  cases hseg : s.curSeg with
  | none =>
    rw [hseg] at hstep
    cases hstep
  | some seat =>
    rw [hseg, Option.bind_some] at hstep
    have htidy := htidy seat hseg
    unfold State.hlsOpenSegment at hstep
    cases hkey : seat.keyType with
    | none =>
      rw [hkey] at hstep htidy
      dsimp only at hstep
      obtain ⟨hok, hcache⟩ := htidy
      have hnext : Subscripts s.nextUrl := by
        refine nextUrl_subscripts (fun hc => ?_)
        obtain ⟨hstart, hint⟩ := hcache hc
        unfold IsInt at hint
        rw [State.nextPos, int32_of_range (by omega) (by omega)]
        exact ⟨by omega, by omega, by omega⟩
      obtain ⟨htried, hrange⟩ := opens_events seat (s.stream 0).segCur (s.stream 0).segStart hnext
      have hreads : Reads { s with input := decide (a.openRet = .ok) } _ := (h.reads hnumber).of_same rfl rfl
      split at hstep
      · cases hstep
        exact ⟨.read rfl (hreads.of_same rfl rfl), htried, hrange⟩
      · rename_i hfailed
        obtain ⟨hint, hmem⟩ := hok.resolve_left hfailed
        have hgoes : ¬ (a.interrupt = true ∨ a.openRet = .noMemory) := by
          rw [hint]
          exact fun hc => hc.elim Bool.noConfusion hmem
        unfold State.openFailed at hstep
        rw [if_neg hgoes, h.finished, if_neg Bool.false_ne_true] at hstep
        cases hstep
        have hnext := hreads.next (decide_eq_false hfailed)
        refine ⟨.waits ⟨Label.noConfusion, Label.noConfusion⟩ (hnext.of_same rfl rfl rfl) Label.noConfusion, ?_, ?_⟩
        · rw [List.append_nil]
          exact htried
        · rw [List.append_nil]
          exact hrange
    | aes128 =>
      rw [hkey] at hstep htidy
      have hmem : a.keyMemory = true := htidy
      dsimp only at hstep
      rw [if_pos hmem, if_pos rfl] at hstep
      cases hstep
      obtain ⟨htried, hrange⟩ := opens_events seat (s.stream 0).segCur (s.stream 0).segStart Subscripts.nil
      exact ⟨.read rfl ((h.reads hnumber).of_same rfl rfl), htried, hrange⟩

/-! ## The read, and the next segment -/

theorem readSegment_quiet (h : Reads s last)
    (htidy : s.input = true ∨ s.decrypt = some true ∨ a.interrupt = false ∧ a.read = .ended)
    (hstep : s.readSegment a = some (t, fs)) : Quiet t fs last := by
  unfold State.readSegment at hstep
  have hopen : ∃ u, (if s.decrypt = some true then { s with input := true } else s) = u ∧ Reads u last ∧
      (u.input = true ∨ a.interrupt = false ∧ a.read = .ended) := by
    refine ⟨_, rfl, ?_⟩
    split
    · exact ⟨h.of_same rfl rfl, Or.inl rfl⟩
    · rename_i hdec
      exact ⟨h, htidy.imp_right (fun hc => hc.resolve_left hdec)⟩
  obtain ⟨u, hu, hreads, hinput⟩ := hopen
  rw [hu] at hstep
  have hret {r : Ret} (hin : u.input = true) (hr : u.ret r = some (t, fs)) : Quiet t fs last := by
    cases hr
    refine ⟨.again (Or.inl rfl) hin (hreads.of_same rfl rfl), rfl, fun e he => ?_⟩
    obtain rfl := List.mem_singleton.mp he
    trivial
  cases hr : a.read with
  | data =>
    rw [hr] at hstep hinput
    exact hret (hinput.resolve_right (fun hc => ReadRet.noConfusion hc.2)) hstep
  | error =>
    rw [hr] at hstep hinput
    exact hret (hinput.resolve_right (fun hc => ReadRet.noConfusion hc.2)) hstep
  | ended =>
    rw [hr] at hstep
    dsimp only at hstep
    split at hstep
    · rename_i hint
      exact hret (hinput.resolve_right (fun hc => Bool.false_ne_true (hc.1.symm.trans hint))) hstep
    · cases hstep
      exact ⟨.ended rfl rfl (hreads.of_same rfl rfl), rfl, fun _ he => absurd he List.not_mem_nil⟩

/-- The place of the number of `hls_stream[0]`, in its own list, is the number. -/
theorem Waits.setCur_place (h : Waits s last) {u : State} (hu : u.stream = s.stream) {next : Nat} :
    ((u.setCur next (int32 ((s.stream next).segStart + s.nextPos))).stream 0).segCur = (s.stream 0).segCur := by
  by_cases h0 : 0 = next
  · subst h0
    have hnumber := h.number
    unfold IsInt at hnumber
    rw [setCur_stream_self]
    show int32 ((s.stream 0).segStart + s.nextPos) = _
    unfold State.nextPos int32
    omega
  · rw [setCur_stream_of_ne h0, hu]

/-- The lookup in a live session: the current variant is another one, and the number stays. -/
theorem Waits.setNext (h : Waits s last) (n next : Nat) :
    Waits (s.setNext n next).1 last ∧ (s.setNext n next).2 = [] := by
  unfold State.setNext
  dsimp only
  split
  · rename_i hnb
    rw [h.finished, if_neg Bool.false_ne_true]
    have hset {b : Bool} : Waits { s with needReload := b, curHls := next, curStreamSeq := n } last :=
      ⟨h.finished, h.nonempty, Nat.ne_of_gt hnb, h.input, h.number, h.next⟩
    have hreload : (if s.curStreamSeq ≠ n then { s with needReload := true } else s) =
        { s with needReload := if s.curStreamSeq ≠ n then true else s.needReload } := by
      split <;> rfl
    rw [hreload]
    refine ⟨?_, rfl⟩
    split
    · refine hset.setCur ?_ (fun p hp => ?_)
      · rw [h.setCur_place]
        · exact h.number
        · rfl
      · rw [h.setCur_place]
        · exact h.next p hp
        · rfl
    · exact hset
  · exact ⟨h, rfl⟩

theorem loadNext_quiet (h : Reads s last) (hinput : s.input = false)
    (hlive : ∀ r ∈ s.chosen a, (r.1.stream 0).segStart = (s.stream 0).segStart ∧ r.1.nb 0 = s.nb 0 ∧
      (r.1.stream 0).finished = false)
    (hstep : s.loadNext a = some (t, fs)) : Quiet t fs last := by
  unfold State.loadNext at hstep
  obtain ⟨⟨u, n, next⟩, hchosen, hstep⟩ := Option.bind_eq_some_iff.mp hstep
  obtain ⟨hstart, hnb, hfin⟩ := hlive (u, n, next) hchosen
  obtain ⟨heq, -, -, hother, -⟩ := chosen_spec hchosen
  have hnext := h.next hinput
  have hwaits : Waits u last := by
    refine ⟨hfin, ?_, ?_, (congrArg State.input heq).trans hinput, ?_, ?_⟩
    · exact fun h0 => h.nonempty (hnb.symm.trans h0)
    · have hcur : u.curHls = s.curHls := by rw [heq]
      rw [hcur]
      by_cases h0 : s.curHls = 0
      · rw [h0]
        exact fun hz => h.nonempty (hnb.symm.trans hz)
      · rw [State.nb, hother _ h0 h.current, nextNumber_segments]
        exact h.current
    · rw [chosen_segCur h.nonempty hchosen]
      exact isInt_int32 _
    · intro p hp
      have hfollows := hnext.next p hp
      rw [setCur_stream_self] at hfollows
      rw [chosen_segCur h.nonempty hchosen, hstart]
      exact hfollows
  obtain ⟨hset, hnone⟩ := hwaits.setNext n next
  dsimp only at hstep
  rw [hnone] at hstep
  unfold State.stillNeeded at hstep
  cases hrest : a.rest with
  | needed =>
    rw [hrest] at hstep
    exact goto_quiet (l := .restart) hset (by decide) hstep
  | unneeded =>
    rw [hrest] at hstep
    exact ret_quiet (r := .eof) hset hstep
  | noMemory =>
    rw [hrest] at hstep
    exact ret_quiet (r := .error) hset hstep

/-! ## Runs -/

/-- A live session, where the condition is met. -/
def Steady (s : State) (a : Answer) : Prop := Live s a ∧ Tidy s a ∧ IntLists s
deriving Decidable

/-- What holds after the events `es`. -/
structure Numbered (s : State) (es : List Event) : Prop where
  inRange : ∀ e ∈ es, e.InRange
  increasing : (tried es).IsChain (fun p q => Follows p q.1 q.2)
  stage : Stage s (tried es).getLast?

theorem tried_append (es fs : List Event) : tried (es ++ fs) = tried es ++ tried fs := List.filterMap_append

theorem Numbered.quiet (h : Numbered s es) (hq : Quiet t fs (tried es).getLast?) : Numbered t (es ++ fs) := by
  refine ⟨fun e he => ?_, ?_, ?_⟩
  · rcases List.mem_append.mp he with he | he
    · exact h.inRange e he
    · exact hq.inRange e he
  · rw [tried_append, hq.tried, List.append_nil]
    exact h.increasing
  · rw [tried_append, hq.tried, List.append_nil]
    exact hq.stage

theorem Numbered.tries (h : Numbered s es) (hw : Waits s (tried es).getLast?) (htries : Tries s t fs) :
    Numbered t (es ++ fs) := by
  refine ⟨fun e he => ?_, ?_, ?_⟩
  · rcases List.mem_append.mp he with he | he
    · exact h.inRange e he
    · exact htries.inRange e he
  · rw [tried_append, htries.tried]
    refine h.increasing.append (List.isChain_singleton _) ?_
    intro p hp q hq
    obtain rfl := Option.some.inj hq
    exact hw.next p hp
  · rw [tried_append, htries.tried, List.getLast?_concat]
    exact htries.stage

theorem Numbered.step (h : Numbered s es) (hsteady : Steady s a) (hstep : step s a = some (t, fs)) :
    Numbered t (es ++ fs) := by
  obtain ⟨hlive, htidy, hints⟩ := hsteady
  unfold ReadData.step at hstep
  cases h.stage with
  | waits hlabel hw hnumber =>
    cases hl : s.label with
    | call =>
      rw [hl] at hstep
      have hcalled : Waits { s with needReload := false, hasReload := false } _ := hw.of_same rfl rfl rfl
      exact h.quiet (goto_quiet hcalled (by decide) hstep)
    | restart =>
      rw [hl, hw.input] at hstep
      exact h.quiet (goto_quiet (l := .reload) hw (by decide) hstep)
    | reload =>
      rw [hl] at hstep
      exact h.quiet (reload_quiet hw hstep)
    | reparse =>
      rw [hl] at hstep
      exact h.quiet (reparse_quiet hw hl (hlive.reparse hl) hstep)
    | window =>
      rw [hl] at hstep
      exact h.quiet (inWindow_quiet (hw.skip hints) hstep)
    | reparse2 =>
      rw [hl] at hstep
      exact h.quiet (reparse2_quiet hw hl (hlive.reparse2 hl) hstep)
    | place =>
      rw [hl] at hstep
      exact h.quiet (place_quiet hw hints (htidy.place hl) hstep)
    | reopen =>
      rw [hl] at hstep
      exact h.tries hw (reopen_tries hw (hnumber hl) (htidy.reopen hl) hstep)
    | read => exact absurd hl hlabel.1
    | loadNext => exact absurd hl hlabel.2
  | again hlabel hinput hr =>
    rcases hlabel with hl | hl
    · rw [hl] at hstep
      cases hstep
      exact h.quiet ⟨.again (Or.inr rfl) hinput (hr.of_same rfl rfl), rfl, fun _ he => absurd he List.not_mem_nil⟩
    · rw [hl, hinput] at hstep
      cases hstep
      exact h.quiet ⟨.read rfl (hr.of_same rfl rfl), rfl, fun _ he => absurd he List.not_mem_nil⟩
  | read hl hr =>
    rw [hl] at hstep
    exact h.quiet (readSegment_quiet hr (htidy.read hl) hstep)
  | ended hl hinput hr =>
    rw [hl] at hstep
    exact h.quiet (loadNext_quiet hr hinput (hlive.loadNext hl) hstep)

/-- A live session behind `HLS_read_header`. -/
structure LiveSession (stream : Nat → Variant) : Prop where
  segments : 0 < (stream 0).segments.length
  finished : (stream 0).finished = false
  number : IsInt (stream 0).segCur

/-- **The numbers of a live session**: every subscript is in range, and the numbers tried on `hls_stream[0]` are
    strictly increasing, where a number is left out only if the list starts behind it. -/
theorem run_numbered {m : Nat} {stream : Nat → Variant} {useOffsetSeq hicache : Bool} (hsession : LiveSession stream)
    (h : Run step Steady (start m stream useOffsetSeq hicache) is s es) :
    (∀ e ∈ es, e.InRange) ∧ (tried es).IsChain (fun p q => Follows p q.1 q.2) := by
  have hstart : Numbered (start m stream useOffsetSeq hicache) [] := by
    refine ⟨fun _ he => absurd he List.not_mem_nil, .nil,
      .waits ⟨Label.noConfusion, Label.noConfusion⟩ ?_ Label.noConfusion⟩
    have hnb : (stream 0).segments.length ≠ 0 := Nat.ne_of_gt hsession.segments
    exact ⟨hsession.finished, hnb, hnb, rfl, hsession.number, fun p hp => by cases hp⟩
  have hnum : Numbered s es :=
    h.inv_effects (fun _ s es => Numbered s es) hstart (fun _ _ _ _ _ _ hn hsteady hstep => hn.step hsteady hstep)
  exact ⟨hnum.inRange, hnum.increasing⟩

/-- A variant of a live session with `nb` segments. -/
def liveVariant (segStart : Int) (segments : List KeyType) : Variant where
  bandwidth := 0
  segStart := segStart
  segments := segments
  segCur := segStart
  finished := false
  firstSegNumber := segStart
  isParsed := true
  hasRead := false

/-- The list of `liveVariant`, when it is loaded. -/
def livePlaylist (segStart : Int) (segments : List KeyType) : Playlist := ⟨segStart, segments, false⟩

/-- Two variants of three segments. -/
def liveVariants (first second : Int) (key : KeyType) : Nat → Variant
  | 0 => liveVariant first [key, .none, .none]
  | _ => liveVariant second [.none, .none, .none]

theorem liveSession_liveVariants {first : Int} (h : IsInt first) (second : Int) (key : KeyType) :
    LiveSession (liveVariants first second key) := ⟨Nat.zero_lt_succ 2, rfl, h⟩

/-- The first open fails, and the list has slid on by three when it is loaded again. -/
def slidOn : List Answer :=
  List.replicate 5 (playing 0 .data) ++ [{ playing 0 .data with openRet := .failed }] ++
    List.replicate 5 { playing 0 .data with parse := .reads (livePlaylist 3 [.none, .none]) }

/-- Playing goes on with the start of the new list. -/
theorem run_numbered_slidOn : ∃ is s es,
    Run step Steady (start 2 (liveVariants 0 0 .none) false false) is s es ∧ tried es = [(0, 0), (3, 3)] ∧
      (∀ e ∈ es, e.InRange) ∧ (tried es).IsChain (fun p q => Follows p q.1 q.2) := by
  exact ⟨slidOn, exists_run_imp (fun _ es => tried es = [(0, 0), (3, 3)])
    (by decide) fun _ _ hrun htest => ⟨htest, run_numbered (liveSession_liveVariants (by decide) 0 .none) hrun⟩⟩

/-- A segment of two reads, and the other variant behind it, whose list is loaded together with that of
    `hls_stream[0]`. -/
def otherNumbers : List Answer :=
  List.replicate 7 (playing 1 .data) ++ List.replicate 6 (playing 1 .ended) ++
    [{ playing 1 .data with parse := .reads (livePlaylist 1000 [.none, .none, .none]) }, playing 1 .data,
      { playing 1 .data with parse := .reads (livePlaylist 10 [.none, .none, .none]) }, playing 1 .data]

/-- A segment with a key is opened without a handle, and its read fails. -/
def noHandle : List Answer :=
  List.replicate 5 (playing 0 .data) ++ [{ playing 0 .error with handle := false }] ++
    List.replicate 7 (playing 0 .error)

/-- **Two ways out.** With `use_offset_seq` a segment far behind the end of the list is read, since the number of
    `hls_stream[0]` is looked up in the list of the other variant. A segment with a key that could not be opened is
    tried again, where the next number should be. -/
theorem live_goes_wrong :
    (∃ is s es, Run step Live (start 2 (liveVariants 1000 10 .none)
      (offsetSeq 2 (liveVariants 1000 10 .none)) false) is s es ∧
      .subscript 1 991 3 ∈ es) ∧
    (∃ is s es, Run step Live (start 1 (liveVariants 0 0 .aes128)
      (offsetSeq 1 (liveVariants 0 0 .aes128)) false) is s es ∧
      tried es = [(0, 0), (0, 0)]) := by
  refine ⟨?_, ?_⟩
  · exact ⟨otherNumbers, exists_run_of_decide (by decide)⟩
  · exact ⟨noHandle, exists_run_of_decide (by decide)⟩

end HiSTB.Hls.ReadData
