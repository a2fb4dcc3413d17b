import HiSTB.Hls.ReadData

/-!
# `Hls.Correctness.Choice` — the variant for the next segment

* `hlsGetIndex_lt` — the choice is a variant of the session;
* `chosen_spec` — what becomes of the lists before the next segment is looked up;
* `Subscripts` — events that are subscripts in range.
-/

namespace HiSTB.Hls.ReadData

open Lib

variable {s u : State} {a : Answer} {es : List Event} {i n next : Nat}

/-! ## The choice of a variant -/

section Nearest

variable {ok : Nat → Bool} {dist : Nat → Nat} {target : Option Nat} {k j : Nat}

/-- What a loop over `k` variants has found, with its distance: the first of the nearest, or, where none is near enough,
    what was there. -/
def Scanned (ok : Nat → Bool) (dist : Nat → Nat) (target : Option Nat) (k : Nat) (r : Nat × Option Nat) : Prop :=
  (r = (0xFFFFFFFF, target) ∧ ∀ i, i < k → ok i = true → 0xFFFFFFFF ≤ dist i) ∨
    ∃ j, r = (dist j, some j) ∧ j < k ∧ ok j = true ∧ dist j < 0xFFFFFFFF ∧
      (∀ i, i < k → ok i = true → dist j ≤ dist i) ∧
      ∀ i, i < j → ok i = true → dist j < dist i

theorem Scanned.step {r : Nat × Option Nat} (h : Scanned ok dist target k r) :
    Scanned ok dist target (k + 1) (if ok k ∧ dist k < r.1 then (dist k, some k) else r) := by
  rcases h with ⟨rfl, hfar⟩ | ⟨j, rfl, hj, hok, hnear, hmin, hfirst⟩
  · split
    next hk =>
      refine Or.inr ⟨k, rfl, Nat.lt_succ_self k, hk.1, hk.2, fun i hi hoki => ?_, fun i hi hoki => ?_⟩
      · rcases Nat.lt_succ_iff_lt_or_eq.mp hi with hlt | rfl
        · exact Nat.le_trans (Nat.le_of_lt hk.2) (hfar i hlt hoki)
        · exact Nat.le_refl _
      · exact Nat.lt_of_lt_of_le hk.2 (hfar i hi hoki)
    next hk =>
      refine Or.inl ⟨rfl, fun i hi hoki => ?_⟩
      rcases Nat.lt_succ_iff_lt_or_eq.mp hi with hlt | rfl
      · exact hfar i hlt hoki
      · exact Nat.le_of_not_lt (fun hlt => hk ⟨hoki, hlt⟩)
  · split
    next hk =>
      refine Or.inr ⟨k, rfl, Nat.lt_succ_self k, hk.1, Nat.lt_trans hk.2 hnear, fun i hi hoki =>
        ?_, fun i hi hoki => ?_⟩
      · rcases Nat.lt_succ_iff_lt_or_eq.mp hi with hlt | rfl
        · exact Nat.le_trans (Nat.le_of_lt hk.2) (hmin i hlt hoki)
        · exact Nat.le_refl _
      · exact Nat.lt_of_lt_of_le hk.2 (hmin i hi hoki)
    next hk =>
      refine Or.inr ⟨j, rfl, Nat.lt_succ_of_lt hj, hok, hnear, fun i hi hoki => ?_, hfirst⟩
      rcases Nat.lt_succ_iff_lt_or_eq.mp hi with hlt | rfl
      · exact hmin i hlt hoki
      · exact Nat.le_of_not_lt (fun hlt => hk ⟨hoki, hlt⟩)

theorem nearest_scanned (m : Nat) (ok : Nat → Bool) (dist : Nat → Nat) (target : Option Nat) :
    ∃ d, Scanned ok dist target m (d, nearest m ok dist target) := by
  have hfold : ∀ k, Scanned ok dist target k
      ((List.range k).foldl (fun r i => if ok i ∧ dist i < r.1 then (dist i, some i) else r) (0xFFFFFFFF, target)) := by
    intro k
    induction k with
    | zero => exact Or.inl ⟨rfl, fun i hi => absurd hi (Nat.not_lt_zero i)⟩
    | succ k ih =>
      rw [List.range_succ, List.foldl_append]
      exact ih.step
  exact ⟨_, hfold m⟩

theorem nearest_mem {m : Nat} (h : nearest m ok dist target = some j) : target = some j ∨ j < m := by
  obtain ⟨d, ⟨heq, -⟩ | ⟨i, hi, hlt, -⟩⟩ := nearest_scanned m ok dist target
  · exact Or.inl ((Prod.mk.inj heq).2.symm.trans h)
  · exact Or.inr (Option.some.inj ((Prod.mk.inj hi).2.symm.trans h) ▸ hlt)

end Nearest

/-- `hlsGetIndex` gives a variant of the session. -/
theorem hlsGetIndex_lt (h : s.hlsGetIndex a = some n) : n < s.streamNb := by
  unfold State.hlsGetIndex at h
  dsimp only at h
  split at h
  · rename_i happoint
    obtain rfl := Option.some.inj h
    omega
  · obtain ⟨j, hj, h⟩ := Option.bind_eq_some_iff.mp h
    have hjlt : j < s.streamNb := by
      split at hj
      · exact (nearest_mem hj).resolve_left (by simp)
      · exact (nearest_mem hj).resolve_left (by simp)
    have hkeep : ∀ {ok : Nat → Bool} {dist : Nat → Nat},
        nearest s.streamNb ok dist (some j) = some n → n < s.streamNb := by
      intro ok dist hnear
      rcases nearest_mem hnear with heq | hlt
      · exact Option.some.inj heq ▸ hjlt
      · exact hlt
    split at h
    · exact Option.some.inj h ▸ hjlt
    · split at h
      · exact hkeep h
      · split at h
        · exact hkeep h
        · exact Option.some.inj h ▸ hjlt

/-! ## The lists -/

@[simp] theorem nextNumber_segments (i : Nat) : (s.nextNumber.stream i).segments = (s.stream i).segments := by
  by_cases hi : i = 0
  · subst hi
    simp [State.nextNumber, State.setCur]
  · simp [State.nextNumber, State.setCur, hi]

@[simp] theorem nextNumber_segStart (i : Nat) : (s.nextNumber.stream i).segStart = (s.stream i).segStart := by
  by_cases hi : i = 0
  · subst hi
    simp [State.nextNumber, State.setCur]
  · simp [State.nextNumber, State.setCur, hi]

@[simp] theorem nextNumber_finished (i : Nat) : (s.nextNumber.stream i).finished = (s.stream i).finished := by
  by_cases hi : i = 0
  · subst hi
    simp [State.nextNumber, State.setCur]
  · simp [State.nextNumber, State.setCur, hi]

@[simp] theorem nextNumber_segCur : (s.nextNumber.stream 0).segCur = int32 ((s.stream 0).segCur + 1) := by
  simp [State.nextNumber, State.setCur]

theorem load_stream_of_ne {p : Playlist} (h : i ≠ n) : (s.load n p).stream i = s.stream i := Function.update_of_ne h _ _

theorem parseIframe_stream_of_ne {l : Option IframeList} (h : i ≠ 0) : (s.parseIframe l).stream i = s.stream i := by
  cases l with
  | none => rfl
  | some l => exact Function.update_of_ne h _ _

/-- Parsing a variant changes nothing but lists. -/
theorem parseNext_eq : (s.parseNext a n).1 = { s with stream := (s.parseNext a n).1.stream } := by
  unfold State.parseNext
  split
  · cases a.parse with
    | fails => rfl
    | breaks p => rfl
    | reads p => cases a.iframe <;> rfl
  · rfl

theorem parseNext_next : (s.parseNext a n).2 = n ∨ (s.parseNext a n).2 = 0 := by
  unfold State.parseNext
  split
  · split
    · exact Or.inl rfl
    · exact Or.inr rfl
  · exact Or.inl rfl

/-- A variant with segments stays as it is, but for `hls_stream[0]`. -/
theorem parseNext_stream (hi : i ≠ 0) (hnb : s.nb i ≠ 0) : (s.parseNext a n).1.stream i = s.stream i := by
  unfold State.parseNext
  split
  · rename_i hparse
    have hin : i ≠ n := fun heq => hnb (heq ▸ hparse.1)
    cases a.parse with
    | fails => rfl
    | breaks p => exact load_stream_of_ne hin
    | reads p =>
      refine (parseIframe_stream_of_ne hi).trans ?_
      exact (Function.update_of_ne hin _ _).trans (load_stream_of_ne hin)
  · rfl

/-- What `load_next` does to `hls_stream[0]`, if that has segments: an I-frame list may be read for it. -/
theorem parseNext_stream_zero (hnb : s.nb 0 ≠ 0) :
    (s.parseNext a n).1.stream 0 = s.stream 0 ∨ (s.parseNext a n).1.stream 0 = (s.parseIframe a.iframe).stream 0 := by
  unfold State.parseNext
  split
  · rename_i hparse
    have hin : 0 ≠ n := fun heq => hnb (heq ▸ hparse.1)
    cases a.parse with
    | fails => exact Or.inl rfl
    | breaks p => exact Or.inl (load_stream_of_ne hin)
    | reads p =>
      have hzero : (Function.update (s.load n p).stream n { (s.load n p).stream n with isParsed := true })
          0 = s.stream 0 :=
        (Function.update_of_ne hin _ _).trans (load_stream_of_ne hin)
      right
      cases a.iframe with
      | none => exact hzero
      | some l =>
        simp only [State.hlsParseM3U8, State.parseIframe, if_true, Function.update_self]
        rw [hzero]
  · exact Or.inl rfl

/-- **The lists before the lookup**: the number is the next one, and variants with segments keep them. -/
theorem chosen_spec (h : s.chosen a = some (u, n, next)) :
    u = { s with stream := u.stream } ∧ n < s.streamNb ∧ (next = n ∨ next = 0) ∧
      (∀ i, i ≠ 0 → s.nb i ≠ 0 → u.stream i = s.nextNumber.stream i) ∧
      (s.nb 0 ≠ 0 → u.stream 0 = s.nextNumber.stream 0 ∨
        u.stream 0 = (s.nextNumber.parseIframe a.iframe).stream 0) := by
  obtain ⟨m, hm, heq⟩ := Option.map_eq_some_iff.mp h
  obtain ⟨rfl, rfl, rfl⟩ : (s.nextNumber.parseNext a m).1 = u ∧ m = n ∧ (s.nextNumber.parseNext a m).2 = next := by
    simpa using heq
  have hlt : m < s.nextNumber.streamNb := hlsGetIndex_lt hm
  refine ⟨parseNext_eq, hlt, parseNext_next, fun i hi hnb => ?_, fun hnb => ?_⟩
  · exact parseNext_stream hi (by simpa [State.nb] using hnb)
  · exact parseNext_stream_zero (by simpa [State.nb] using hnb)

theorem chosen_segCur (hnb : s.nb 0 ≠ 0) (h : s.chosen a = some (u, n, next)) :
    (u.stream 0).segCur = int32 ((s.stream 0).segCur + 1) := by
  obtain ⟨-, -, -, -, hzero⟩ := chosen_spec h
  rcases hzero hnb with heq | heq
  · rw [heq, nextNumber_segCur]
  · rw [heq, ← nextNumber_segCur]
    cases a.iframe with
    | none => rfl
    | some l => simp [State.parseIframe]

/-! ## Subscripts -/

/-- Nothing but subscripts that are in range. -/
def Subscripts (es : List Event) : Prop := ∀ e ∈ es, ∃ i index nb, e = .subscript i index nb ∧ 0 ≤ index ∧ index < nb

theorem Subscripts.nil : Subscripts [] := fun _ he => absurd he List.not_mem_nil

theorem Subscripts.opened (h : Subscripts es) : opened es = [] := by
  rw [ReadData.opened, List.filterMap_eq_nil_iff]
  intro e he
  obtain ⟨i, index, nb, rfl, -, -⟩ := h e he
  rfl

theorem Subscripts.tried (h : Subscripts es) : tried es = [] := by
  rw [ReadData.tried, List.filterMap_eq_nil_iff]
  intro e he
  obtain ⟨i, index, nb, rfl, -, -⟩ := h e he
  rfl

theorem Subscripts.returns (h : Subscripts es) (r : Ret) : .returns r ∉ es := by
  intro he
  obtain ⟨i, index, nb, heq, -, -⟩ := h _ he
  cases heq

theorem Subscripts.inRange (h : Subscripts es) : ∀ e ∈ es, e.InRange := by
  intro e he
  obtain ⟨i, index, nb, rfl, hrange⟩ := h e he
  exact hrange

/-- The subscript for the cache is the one behind the current one. -/
theorem nextUrl_subscripts (hpos : s.hicache = true → -1 ≤ s.nextPos ∧ IsInt (s.nextPos + 1)) :
    Subscripts s.nextUrl := by
  unfold State.nextUrl
  dsimp only
  split
  · rename_i hnext
    intro e he
    obtain rfl := List.mem_singleton.mp he
    refine ⟨_, _, _, rfl, ?_, hnext.2⟩
    obtain ⟨hle, hint⟩ := hpos hnext.1
    unfold State.nextPos at hle hint
    rw [hint.eq]
    omega
  · exact Subscripts.nil

theorem setSeg_subscripts {index : Int} (h0 : 0 ≤ index) (hlt : index < s.nb i) : Subscripts (s.setSeg i index).2 := by
  intro e he
  obtain rfl := List.mem_singleton.mp he
  exact ⟨_, _, _, rfl, h0, hlt⟩

/-- An answer where all goes well, with the variant that is appointed. -/
def playing (appointId : Int) (read : ReadRet) : Answer where
  interrupt := false
  elapsed := false
  timeShift := false
  freshUrl := false
  parse := .fails
  iframe := none
  openRet := .ok
  keyMemory := true
  handle := true
  read := read
  netBw := 0
  appointId := appointId
  quick := false
  rest := .needed

end HiSTB.Hls.ReadData
