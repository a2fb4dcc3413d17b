import HiSTB.Demux.Scd

/-!
# `Scd` — every start code is converted once, in order

* `Loop.Of`, `scLoop_of` — what a loop over records takes, and what it leaves alone;
* `takeBlock_spec`, `step_cases` — what a step does to the queue;
* `InTime`, `Inv`, `run_inv` — what was converted and what went back, at any time of a run;
* `returns_or_waits` — a call that finds no frame gets through the queue;
* `acquireRecIndex_in_order` — the records in order, the blocks after their last record, and the end of each call.
-/

namespace HiSTB.Demux.Scd

open Lib

variable {ρ φ π : Type} {cv : Converter ρ φ π} {x y : Sys ρ π} {b : Block ρ} {bs : List (Block ρ)} {jiffy : Nat}

variable {r : RecInfo π} {rs : List ρ} {rest : List (Event ρ)} {i : Input ρ} {indexType : IndexType}
    {useTimeStamp : Bool} {picParser : π} {prevFrameMs : U32} {is : List (Input ρ)}

/-! ## The loops over records -/

/-- Without what the converters change. -/
def RecInfo.plain (r : RecInfo π) : RecInfo Unit := { r with picParser := (), lastFrameInfo := .zero }

/-- A loop takes the first records, all of them if it completes no frame, and changes nothing else. -/
structure Loop.Of (l : Loop ρ π) (r : RecInfo π) (rs : List ρ) : Prop where
  taken : l.taken <+: rs
  all : l.valid = none → l.taken = rs
  plain : l.recInfo.plain = r.plain

/-- A record in front of a loop. -/
theorem Loop.Of.after {l : Loop ρ π} {r' : RecInfo π} (h : l.Of r' rs) (hr : r'.plain = r.plain)
    (sc : ρ) : (l.after sc).Of r (sc :: rs) where
  taken := (List.prefix_cons_inj sc).mpr h.taken
  all hv := congrArg (sc :: ·) (h.all hv)
  plain := h.plain.trans hr

/-- The loop for video; the induction is on the records. -/
theorem videoLoop_of (r : RecInfo π) (rs : List ρ) : (videoLoop cv r rs).Of r rs := by
  induction rs generalizing r with
  | nil => exact ⟨List.nil_prefix, fun _ => rfl, rfl⟩
  | cons sc rs ih =>
    unfold videoLoop
    split
    · exact (ih r).after rfl sc
    · dsimp only
      split
      · exact ⟨⟨rs, rfl⟩, nofun, rfl⟩
      · refine Loop.Of.after (ih _) ?_ sc
        rfl

theorem audioLoop_of (r : RecInfo π) (thisFrame : Index) (rs : List ρ) : (audioLoop cv r thisFrame rs).Of r rs := by
  induction rs generalizing r thisFrame with
  | nil => exact ⟨List.nil_prefix, fun _ => rfl, rfl⟩
  | cons sc rs ih =>
    unfold audioLoop
    dsimp only
    split
    · split
      · refine Loop.Of.after (ih _ _) ?_ sc
        rfl
      · exact ⟨⟨rs, rfl⟩, nofun, rfl⟩
    · exact (ih r _).after rfl sc

/-- Both loops take a prefix of the records. -/
theorem scLoop_of (r : RecInfo π) (rs : List ρ) : (scLoop cv r rs).Of r rs := by
  unfold scLoop
  split
  · exact videoLoop_of r rs
  · exact audioLoop_of r .zero rs

/-- What the converter for audio is trusted with, and `BUG_ON` insists on: a clock of 32 bits has no more
    milliseconds. -/
def Converter.Bounded (cv : Converter ρ φ π) : Prop :=
  ∀ (frame : Index) (sc : ρ), (cv.dmxScdToAudioIndex frame sc).1 = true →
    (cv.dmxScdToAudioIndex frame sc).2.dataTimeMs ≤ maxScrMs

/-- The last frame of an audio stream is one that the converter made. -/
def RecInfo.Bounded (r : RecInfo π) : Prop := r.indexType = .video ∨ r.lastFrameInfo.dataTimeMs ≤ maxScrMs

theorem clk_le (clk : U32) : clk / 90 ≤ maxScrMs := by
  rw [BitVec.le_def, BitVec.toNat_udiv]
  have := clk.isLt
  change clk.toNat / 90 ≤ 47721858
  omega

theorem videoLoop_valid (r : RecInfo π) (rs : List ρ) {frame : Index} (h : (videoLoop cv r rs).valid = some frame) :
    frame.dataTimeMs ≤ maxScrMs := by
  induction rs generalizing r with
  | nil => cases h
  | cons sc rs ih =>
    unfold videoLoop at h
    split at h
    · exact ih r h
    · dsimp only at h
      split at h
      · cases h
        exact clk_le _
      · exact ih _ h

/-- The frames of the loop for audio stay in the range of the clock. -/
theorem audioLoop_bounded (hcv : cv.Bounded) (r : RecInfo π) (thisFrame : Index) (rs : List ρ)
    (hr : r.lastFrameInfo.dataTimeMs ≤ maxScrMs) :
    (audioLoop cv r thisFrame rs).recInfo.lastFrameInfo.dataTimeMs ≤ maxScrMs ∧
      ∀ frame, (audioLoop cv r thisFrame rs).valid = some frame → frame.dataTimeMs ≤ maxScrMs := by
  induction rs generalizing r thisFrame with
  | nil => exact ⟨hr, nofun⟩
  | cons sc rs ih =>
    unfold audioLoop
    dsimp only
    split
    · rename_i hok
      have hlast := hcv thisFrame sc hok
      split
      · exact ih _ _ hlast
      · refine ⟨hlast, fun frame h => ?_⟩
        cases h
        exact hr
    · exact ih r _ hr

/-- So do those of both loops. -/
theorem scLoop_bounded (hcv : cv.Bounded) (hr : r.Bounded) (rs : List ρ) :
    (scLoop cv r rs).recInfo.Bounded ∧ ∀ frame, (scLoop cv r rs).valid = some frame → frame.dataTimeMs ≤ maxScrMs := by
  have hof : (scLoop cv r rs).Of r rs := scLoop_of r rs
  have htype := congrArg RecInfo.indexType hof.plain
  by_cases hvideo : r.indexType = .video
  · refine ⟨.inl (htype.trans hvideo), fun frame h => ?_⟩
    rw [scLoop, if_pos hvideo] at h
    exact videoLoop_valid r rs h
  · have h := audioLoop_bounded hcv r .zero rs (hr.resolve_left hvideo)
    have heq : scLoop cv r rs = audioLoop cv r .zero rs := if_neg hvideo
    rw [heq]
    exact ⟨.inr h.1, h.2⟩

/-! ## What was converted, and what went back -/

variable (cv) in
/-- All records of a block. -/
def records (b : Block ρ) : List ρ := b.from cv 0

def Event.converted? : Event ρ → Option ρ
  | .converted r => some r
  | _ => none

def Event.released? : Event ρ → Option (Block ρ)
  | .released b => some b
  | _ => none

def Input.append? : Input ρ → Option (Block ρ)
  | .append b => some b
  | _ => none

/-- The records that were handed to the converter. -/
def converted (evs : List (Event ρ)) : List ρ := evs.filterMap Event.converted?

/-- The blocks that went back. -/
def released (evs : List (Event ρ)) : List (Block ρ) := evs.filterMap Event.released?

/-- The blocks that the hardware appended. -/
def appended (is : List (Input ρ)) : List (Block ρ) := is.filterMap Input.append?

@[simp] theorem converted_append (es fs : List (Event ρ)) : converted (es ++ fs) = converted es ++ converted fs :=
  List.filterMap_append

@[simp] theorem released_append (es fs : List (Event ρ)) : released (es ++ fs) = released es ++ released fs :=
  List.filterMap_append

@[simp] theorem appended_append (is js : List (Input ρ)) : appended (is ++ js) = appended is ++ appended js :=
  List.filterMap_append

@[simp] theorem converted_map (rs : List ρ) : converted (rs.map Event.converted) = rs := by
  rw [converted, List.filterMap_map]
  exact List.filterMap_some

@[simp] theorem released_map (rs : List ρ) : released (rs.map Event.converted) = [] := by
  rw [released, List.filterMap_map, List.filterMap_eq_nil_iff]
  exact fun _ _ => rfl

theorem length_from (offset : Nat) : (b.from cv offset).length = (b.dataLen - offset) / cv.recSize := by
  rw [Block.from, List.length_map, List.length_range]

@[simp] theorem converted_release (b : Block ρ) (es : List (Event ρ)) :
    converted (.released b :: es) = converted es := rfl

@[simp] theorem released_release (b : Block ρ) (es : List (Event ρ)) :
    released (.released b :: es) = b :: released es := rfl

/-- The rest of a block, where the offset is at a record. -/
theorem from_eq_drop (n : Nat) :
    b.from cv (n * cv.recSize) = (records cv b).drop n := by
  apply List.ext_getElem
  · rw [List.length_drop, length_from, records, length_from, Nat.sub_zero, Nat.mul_comm, Nat.sub_mul_div]
  · intro i h₁ h₂
    simp only [records, Block.from, List.getElem_map, List.getElem_range, List.getElem_drop, Nat.zero_add, Nat.add_mul]

/-- An offset at the end of a block is behind all its records. -/
theorem records_all {n : Nat} (h : n * cv.recSize = b.dataLen) : (records cv b).take n = records cv b := by
  have hlen : (records cv b).length = n := by
    rw [records, length_from, ← h, Nat.sub_zero, Nat.mul_div_cancel n cv.recSize_pos]
  exact List.take_of_length_le (Nat.le_of_eq hlen)

/-! ## One step -/

/-- What a call returns without an index. -/
def Ret.Failed (ret : Ret) : Prop := ∀ index : Index, ret ≠ .success index

/-- A step that shows no more than the end of a call that failed. -/
def Silent (evs : List (Event ρ)) : Prop := evs = [] ∨ ∃ ret : Ret, evs = [.returned ret] ∧ ret.Failed

/-- Nothing is converted and nothing goes back. -/
structure Quiet (evs : List (Event ρ)) : Prop where
  converted : converted evs = []
  released : released evs = []

/-- What a pass does with the first block: the records `rs`, and `rest`, what it shows behind them. -/
structure Took (cv : Converter ρ φ π) (x : Sys ρ π) (jiffy : Nat) (b : Block ρ) (bs : List (Block ρ)) (y : Sys ρ π)
    (evs : List (Event ρ)) (rs : List ρ) (rest : List (Event ρ)) : Prop where
  taken : rs <+: b.from cv x.procsOffset
  quiet : Quiet rest
  go : x.procsOffset + rs.length * cv.recSize ≠ b.dataLen → evs = rs.map Event.converted ++ rest ∧
    y.oq = b :: bs ∧ y.procsOffset = x.procsOffset + rs.length * cv.recSize
  done : x.procsOffset + rs.length * cv.recSize = b.dataLen → evs = rs.map Event.converted ++ .released b :: rest ∧
    y.oq = bs ∧ y.procsOffset = 0
  pc : y.pc = .head jiffy ∧ rs = b.from cv x.procsOffset ∨ y.pc = .idle ∧ ∃ ret, .returned ret ∈ rest

/-- A pass does not read behind the block. -/
theorem Took.inside {evs : List (Event ρ)} (h : Took cv x jiffy b bs y evs rs rest)
    (hoff : x.procsOffset ≤ b.dataLen) : x.procsOffset + rs.length * cv.recSize ≤ b.dataLen := by
  have hlen := h.taken.length_le
  rw [length_from] at hlen
  have hmul := (Nat.le_div_iff_mul_le cv.recSize_pos).mp hlen
  omega

/-- What is left of a block ends with it. -/
theorem from_done (hoff : x.procsOffset ≤ b.dataLen) (haligned : cv.recSize ∣ x.procsOffset)
    (hwhole : cv.recSize ∣ b.dataLen) :
    x.procsOffset + (b.from cv x.procsOffset).length * cv.recSize = b.dataLen := by
  rw [length_from, Nat.div_mul_cancel (Nat.dvd_sub hwhole haligned)]
  omega

/-- **What a pass does to the queue**: the records it converts, and the block, if it goes back. -/
theorem takeBlock_spec {evs : List (Event ρ)} (h : takeBlock cv x jiffy b bs = some (y, evs)) (hq : x.oq = b :: bs) :
    ∃ rs rest, Took cv x jiffy b bs y evs rs rest := by
  have hof : (scLoop cv x.recInfo (b.from cv x.procsOffset)).Of x.recInfo (b.from cv x.procsOffset) := scLoop_of _ _
  unfold takeBlock at h
  generalize scLoop cv x.recInfo (b.from cv x.procsOffset) = l at h hof
  dsimp only at h
  split at h
  · rename_i hv
    cases h
    refine ⟨l.taken, [], hof.taken, ⟨rfl, rfl⟩, fun hd => ?_, fun hd => ?_, .inl ⟨rfl, hof.all hv⟩⟩
    · simp [hd, hq]
    · simp [hd]
  · rename_i frame hv
    split at h
    · cases h
    · cases h
      let index := { frame with dataTimeMs := (adjust l.recInfo frame.dataTimeMs).2 }
      refine ⟨l.taken, [.valid frame, .returned (.success index)], hof.taken, ⟨rfl, rfl⟩, fun hd => ?_, fun hd => ?_,
        .inr ⟨rfl, .success index, .tail _ (.head _)⟩⟩
      · simp [hd, hq, index]
      · simp [hd, index]

theorem Silent.quiet {evs : List (Event ρ)} (h : Silent evs) : Quiet evs := by
  rcases h with rfl | ⟨ret, rfl, -⟩
  · exact ⟨rfl, rfl⟩
  · exact ⟨rfl, rfl⟩

/-- A step that leaves the recording alone, but for a block that is appended. -/
structure Still (x : Sys ρ π) (bs : List (Block ρ)) (y : Sys ρ π) (evs : List (Event ρ)) : Prop where
  oq : y.oq = x.oq ++ bs
  procsOffset : y.procsOffset = x.procsOffset
  recInfo : y.recInfo = x.recInfo
  silent : Silent evs

theorem still_return (pc : Pc) {ret : Ret} (h : ret.Failed) : Still x [] { x with pc := pc } [.returned ret] :=
  ⟨(List.append_nil _).symm, rfl, rfl, .inr ⟨ret, rfl, h⟩⟩

theorem still_pc (pc : Pc) : Still x [] { x with pc := pc } [] := ⟨(List.append_nil _).symm, rfl, rfl, .inl rfl⟩

/-- A pass takes the first block, or leaves the recording alone. -/
theorem passBody_cases {evs : List (Event ρ)} (h : passBody cv x jiffy = some (y, evs)) :
    Still x [] y evs ∨ ∃ b bs, x.oq = b :: bs ∧ takeBlock cv x jiffy b bs = some (y, evs) := by
  unfold passBody at h
  split at h
  · cases h
    exact .inl (still_return .idle nofun)
  · split at h
    · cases h
      exact .inl (still_pc (.head jiffy))
    · rename_i b bs hq
      exact .inr ⟨b, bs, hq, h⟩

/-- **What a step does**: all invariants come from these two cases. -/
theorem step_cases {evs : List (Event ρ)} (h : step cv x i = some (y, evs)) :
    Still x (appended [i]) y evs ∨
      appended [i] = [] ∧ ∃ jiffy b bs, x.oq = b :: bs ∧ takeBlock cv x jiffy b bs = some (y, evs) := by
  have hbody : ∀ jiffy : Nat, passBody cv x jiffy = some (y, evs) → Still x [] y evs ∨
      [] = ([] : List (Block ρ)) ∧ ∃ jiffy b bs, x.oq = b :: bs ∧ takeBlock cv x jiffy b bs = some (y, evs) := by
    intro jiffy hp
    rcases passBody_cases hp with hstill | htake
    · exact .inl hstill
    · exact .inr ⟨rfl, jiffy, htake⟩
  unfold step at h
  split at h
  · cases h
    exact .inl ⟨rfl, rfl, rfl, .inl rfl⟩
  · split at h
    · cases h
      exact .inl (still_return .idle nofun)
    · split at h
      · cases h
        exact .inl (still_return .idle nofun)
      · cases h
        exact .inl (still_pc _)
  · split at h
    · split at h
      · cases h
        exact .inl (still_return .idle nofun)
      · cases h
        exact .inl (still_pc _)
    · exact hbody _ h
  · exact hbody _ h
  · cases h
    exact .inl (still_return .idle nofun)
  · cases h

/-! ## Runs -/

/-- Each block goes back right after its last record. -/
def InTime (cv : Converter ρ φ π) (evs : List (Event ρ)) : Prop :=
  ∀ (pre : List (Event ρ)) (b : Block ρ) (post : List (Event ρ)), evs = pre ++ .released b :: post →
    converted pre = (released pre ++ [b]).flatMap (records cv)

theorem inTime_nil : InTime cv [] := by
  intro pre b post heq
  simp at heq

theorem InTime.append {evs fs : List (Event ρ)} (h : InTime cv evs) (hfs : released fs = []) :
    InTime cv (evs ++ fs) := by
  intro pre b post heq
  have hno : ∀ l : List (Event ρ), fs ≠ l ++ .released b :: post := by
    rintro l rfl
    simp [released, Event.released?] at hfs
  rcases List.append_eq_append_iff.mp heq with ⟨l, rfl, hl⟩ | ⟨l, rfl, hl⟩
  · exact absurd hl (hno l)
  · cases l with
    | nil => exact absurd hl.symm (hno [])
    | cons e l =>
      injection hl with he hl
      exact h pre b l (by rw [he])

theorem InTime.release {evs : List (Event ρ)} (h : InTime cv evs)
    (hb : converted evs = (released evs ++ [b]).flatMap (records cv)) : InTime cv (evs ++ [.released b]) := by
  intro pre b' post heq
  rcases List.eq_nil_or_concat post with rfl | ⟨post, e, rfl⟩
  · obtain ⟨rfl, he⟩ := List.append_inj' heq rfl
    cases he
    exact hb
  · have heq' : evs ++ [.released b] = (pre ++ .released b' :: post) ++ [e] := by simpa using heq
    exact h pre b' post (List.append_inj' heq' rfl).1

/-- The records of the first block of the queue. -/
def headRecords (cv : Converter ρ φ π) : List (Block ρ) → List ρ
  | [] => []
  | b :: _ => records cv b

/-- The blocks appended so far went back or are in the queue, and the offset says how far the first one was read. -/
structure Inv (cv : Converter ρ φ π) (bs : List (Block ρ)) (x : Sys ρ π) (evs : List (Event ρ)) : Prop where
  queue : bs = released evs ++ x.oq
  whole : ∀ b ∈ bs, cv.recSize ∣ b.dataLen
  aligned : cv.recSize ∣ x.procsOffset
  empty : x.oq = [] → x.procsOffset = 0
  inside : ∀ (b : Block ρ) (bs : List (Block ρ)), x.oq = b :: bs → x.procsOffset ≤ b.dataLen
  read : converted evs =
    (released evs).flatMap (records cv) ++ (headRecords cv x.oq).take (x.procsOffset / cv.recSize)
  inTime : InTime cv evs

variable {all : List (Block ρ)} {evs fs : List (Event ρ)}

/-- The invariant, through a step that at most appends blocks. -/
theorem Inv.still {new : List (Block ρ)} (h : Inv cv all x evs) (hstill : Still x new y fs)
    (hwhole : ∀ b ∈ new, cv.recSize ∣ b.dataLen) : Inv cv (all ++ new) y (evs ++ fs) := by
  have hquiet := hstill.silent.quiet
  refine ⟨?_, ?_, ?_, ?_, ?_, ?_, h.inTime.append hquiet.released⟩
  · rw [released_append, hquiet.released, hstill.oq, List.append_nil, h.queue, List.append_assoc]
  · intro b hb
    exact (List.mem_append.mp hb).elim (h.whole b) (hwhole b)
  · rw [hstill.procsOffset]
    exact h.aligned
  · intro hnil
    rw [hstill.oq] at hnil
    rw [hstill.procsOffset]
    exact h.empty (List.append_eq_nil_iff.mp hnil).1
  · intro b bs hb
    rw [hstill.oq] at hb
    rw [hstill.procsOffset]
    cases hq : x.oq with
    | nil => exact Nat.le_trans (Nat.le_of_eq (h.empty hq)) (Nat.zero_le _)
    | cons b' bs' =>
      rw [hq] at hb
      injection hb with hb
      exact hb ▸ h.inside b' bs' hq
  · rw [converted_append, released_append, hquiet.converted, hquiet.released, List.append_nil, List.append_nil,
      h.read, hstill.oq, hstill.procsOffset]
    cases hq : x.oq with
    | nil => simp [h.empty hq]
    | cons b bs => rfl

/-- The invariant, through a pass over the first block. -/
theorem Inv.take (h : Inv cv all x evs) (hq : x.oq = b :: bs) (hstep : takeBlock cv x jiffy b bs = some (y, fs)) :
    Inv cv all y (evs ++ fs) := by
  obtain ⟨rs, rest, htook⟩ := takeBlock_spec hstep hq
  obtain ⟨n, hn⟩ := h.aligned
  rw [Nat.mul_comm] at hn
  have hsum : x.procsOffset + rs.length * cv.recSize = (n + rs.length) * cv.recSize := by rw [hn, Nat.add_mul]
  -- the records that the pass takes are the next ones of the block
  have hnext : (records cv b).take n ++ rs = (records cv b).take (n + rs.length) := by
    have hrs := htook.taken
    rw [hn, from_eq_drop] at hrs
    rw [List.take_add, ← List.prefix_iff_eq_take.mp hrs]
  have hconv : converted evs ++ rs = (released evs).flatMap (records cv) ++ (records cv b).take (n + rs.length) := by
    rw [h.read, hq, hn, Nat.mul_div_cancel n cv.recSize_pos, List.append_assoc, ← hnext]
    rfl
  have htaken := h.inTime.append (released_map rs)
  have hinside := htook.inside (h.inside b bs hq)
  by_cases hdone : x.procsOffset + rs.length * cv.recSize = b.dataLen
  · obtain ⟨rfl, hoq, hoff⟩ := htook.done hdone
    have hall : converted evs ++ rs = (released evs ++ [b]).flatMap (records cv) := by
      rw [hconv, records_all (hsum.symm.trans hdone), List.flatMap_append, List.flatMap_singleton]
    have hsplit : evs ++ (rs.map .converted ++ .released b :: rest) = evs ++ rs.map .converted ++
        [.released b] ++ rest := by
      simp
    rw [hsplit]
    refine ⟨?_, h.whole, ?_, fun _ => hoff, ?_, ?_, (htaken.release ?_).append htook.quiet.released⟩
    · simp [htook.quiet.released, hoq, h.queue, hq]
    · rw [hoff]
      exact Nat.dvd_zero _
    · rw [hoff]
      exact fun b _ _ => Nat.zero_le _
    · simp [htook.quiet.released, htook.quiet.converted, hoff, hall]
    · simp [hall]
  · obtain ⟨rfl, hoq, hoff⟩ := htook.go hdone
    rw [← List.append_assoc]
    refine ⟨?_, h.whole, ?_, ?_, ?_, ?_, htaken.append htook.quiet.released⟩
    · simp [htook.quiet.released, hoq, h.queue, hq]
    · rw [hoff, hsum]
      exact Nat.dvd_mul_left _ _
    · rw [hoq]
      exact nofun
    · intro b' bs' hb
      rw [hoq] at hb
      injection hb with hb
      rw [hoff, ← hb]
      exact hinside
    · rw [hoff, hsum, Nat.mul_div_cancel _ cv.recSize_pos, hoq]
      simp [htook.quiet.released, htook.quiet.converted, hconv, headRecords]

/-- The blocks that are appended hold whole records. -/
def Whole (cv : Converter ρ φ π) (_ : Sys ρ π) (i : Input ρ) : Prop := ∀ b ∈ appended [i], cv.recSize ∣ b.dataLen
deriving Decidable

/-- In every run, what was converted and went back is what was appended, as far as it is read. -/
theorem run_inv
    (run : Run (step cv) (Whole cv) (start indexType useTimeStamp picParser prevFrameMs) is x evs) :
    Inv cv (appended is) x evs := by
  refine run.inv_effects (fun is x evs => Inv cv (appended is) x evs) ?_ ?_
  · exact ⟨rfl, nofun, Nat.dvd_zero _, fun _ => rfl, nofun, List.take_nil.symm, inTime_nil⟩
  · intro is x evs i y fs hinv hwhole hstep
    rw [appended_append]
    rcases step_cases hstep with hstill | ⟨happ, jiffy, b, bs, hq, htake⟩
    · exact hinv.still hstill hwhole
    · rw [happ, List.append_nil]
      exact hinv.take hq htake

/-! ## The end of a call -/

theorem setTimes_bounded (h : r.Bounded) (addUpMs prevFrameMs : U32) :
    (r.setTimes addUpMs prevFrameMs).Bounded := h

theorem setFirst_bounded (h : r.Bounded) (ms : U32) : (r.setFirst ms).Bounded := by
  unfold RecInfo.setFirst
  split
  · exact h
  · exact h

theorem rebase_bounded (h : r.Bounded) (ms : U32) : (r.rebase ms).1.Bounded := by
  unfold RecInfo.rebase
  dsimp only
  split
  · exact setTimes_bounded h _ _
  · exact setTimes_bounded h _ _

theorem adjust_bounded (h : r.Bounded) (ms : U32) : (adjust r ms).1.Bounded :=
  rebase_bounded (setFirst_bounded h ms) ms

/-- No `BUG_ON` is hit in a pass over a block. -/
theorem takeBlock_ok (hcv : cv.Bounded) (hx : x.recInfo.Bounded) (jiffy : Nat) (b : Block ρ) (bs : List (Block ρ)) :
    ∃ y fs, takeBlock cv x jiffy b bs = some (y, fs) ∧ y.recInfo.Bounded := by
  obtain ⟨hrec, hvalid⟩ := scLoop_bounded hcv hx (b.from cv x.procsOffset)
  unfold takeBlock
  generalize scLoop cv x.recInfo (b.from cv x.procsOffset) = l at hrec hvalid
  dsimp only
  cases hv : l.valid with
  | none => exact ⟨_, _, rfl, hrec⟩
  | some frame =>
    have hle : ¬ maxScrMs < frame.dataTimeMs := BitVec.not_lt.mpr (hvalid frame hv)
    dsimp only
    rw [if_neg hle]
    exact ⟨_, _, rfl, adjust_bounded hrec _⟩

theorem passBody_ok (hcv : cv.Bounded) (hx : x.recInfo.Bounded) (jiffy : Nat) :
    ∃ y fs, passBody cv x jiffy = some (y, fs) ∧ y.recInfo.Bounded := by
  unfold passBody
  split
  · exact ⟨_, _, rfl, hx⟩
  · split
    · exact ⟨_, _, rfl, hx⟩
    · exact takeBlock_ok hcv hx jiffy _ _

/-- Every step keeps the last frame in the range of the clock. -/
theorem step_bounded (hcv : cv.Bounded) (hx : x.recInfo.Bounded) (h : step cv x i = some (y, fs)) :
    y.recInfo.Bounded := by
  rcases step_cases h with hstill | ⟨-, jiffy, b, bs, -, htake⟩
  · rw [hstill.recInfo]
    exact hx
  · obtain ⟨y', fs', htake', hy⟩ := takeBlock_ok hcv hx jiffy b bs
    cases htake.symm.trans htake'
    exact hy

/-- The call is over. -/
def Returned (y : Sys ρ π) (fs : List (Event ρ)) : Prop := y.pc = .idle ∧ ∃ ret : Ret, .returned ret ∈ fs

theorem Took.returned (h : Took cv x jiffy b bs y fs rs rest)
    (hidle : y.pc = .idle ∧ ∃ ret : Ret, .returned ret ∈ rest) : Returned y fs := by
  obtain ⟨hpc, ret, hret⟩ := hidle
  refine ⟨hpc, ret, ?_⟩
  by_cases hd : x.procsOffset + rs.length * cv.recSize = b.dataLen
  · rw [(h.done hd).1]
    exact List.mem_append_right _ (.tail _ hret)
  · rw [(h.go hd).1]
    exact List.mem_append_right _ hret

/-- With no more blocks a call is over, or waits in front of the empty queue, after so many passes. -/
def Settles (cv : Converter ρ φ π) (x : Sys ρ π) (jiffy : Nat) : Prop :=
  ∃ n ≤ x.oq.length + 1, ∃ y fs, Run (step cv) always x (List.replicate n .pass) y fs ∧
    (Returned y fs ∨ y.pc = .waiting jiffy ∧ y.oq = [] ∧ 0 < jiffy)

theorem run_one (h : step cv x i = some (y, fs)) : Run (step cv) always x [i] y fs :=
  Run.snoc .nil trivial h

variable (cv) in
theorem pass_nil (hpc : x.pc = .head jiffy) (hq : x.oq = []) :
    step cv x .pass =
      if jiffy = 0 then some (x.return' .noAvailableData) else some ({ x with pc := .waiting jiffy }, []) := by
  simp [step, hpc, hq]

variable (cv) in
theorem pass_cons (hpc : x.pc = .head jiffy) (hq : x.oq = b :: bs) :
    step cv x .pass =
      if x.recInfo.started = false then some (x.return' .noAvailableData) else takeBlock cv x jiffy b bs := by
  simp [step, passBody, hpc, hq]

theorem settles_nil (hpc : x.pc = .head jiffy) (hq : x.oq = []) : Settles cv x jiffy := by
  have hpass := pass_nil cv hpc hq
  refine ⟨1, Nat.le_add_left 1 _, ?_⟩
  by_cases hj : jiffy = 0
  · rw [if_pos hj] at hpass
    exact ⟨_, _, run_one hpass, .inl ⟨rfl, .noAvailableData, .head _⟩⟩
  · rw [if_neg hj] at hpass
    exact ⟨_, _, run_one hpass, .inr ⟨rfl, hq, by omega⟩⟩

/-- Another pass in front. -/
theorem Settles.after (h : Settles cv y jiffy) (hpass : step cv x .pass = some (y, fs))
    (hlt : y.oq.length < x.oq.length) : Settles cv x jiffy := by
  obtain ⟨n, hn, z, gs, hrun, hz⟩ := h
  refine ⟨n + 1, by omega, z, fs ++ gs, (run_one hpass).append hrun, ?_⟩
  rcases hz with ⟨hidle, ret, hret⟩ | hwait
  · exact .inl ⟨hidle, ret, List.mem_append_right _ hret⟩
  · exact .inr hwait

/-- **A call gets through the queue**; the induction is on the blocks. -/
theorem settles (hcv : cv.Bounded) (hinv : Inv cv all x evs) (hx : x.recInfo.Bounded) (hpc : x.pc = .head jiffy) :
    Settles cv x jiffy := by
  generalize hq : x.oq = bs
  induction bs generalizing x evs with
  | nil => exact settles_nil hpc hq
  | cons b bs ih =>
    have hpass := pass_cons cv hpc hq
    split at hpass
    · exact ⟨1, Nat.le_add_left 1 _, _, _, run_one hpass, .inl ⟨rfl, .noAvailableData, .head _⟩⟩
    · obtain ⟨y, fs, htake, hy⟩ := takeBlock_ok hcv hx jiffy b bs
      obtain ⟨rs, rest, htook⟩ := takeBlock_spec htake hq
      rw [htake] at hpass
      have hinside := hinv.inside b bs hq
      rcases htook.pc with ⟨hhead, rfl⟩ | hidle
      · -- no frame: the rest of the block was read, and it goes back
        have hb : b ∈ all := by
          rw [hinv.queue, hq]
          exact List.mem_append_right _ (.head _)
        obtain ⟨-, hoq, -⟩ := htook.done (from_done hinside hinv.aligned (hinv.whole b hb))
        refine (ih (hinv.take hq htake) hy hhead hoq).after hpass ?_
        rw [hoq, hq]
        exact Nat.lt_succ_self _
      · exact ⟨1, Nat.le_add_left 1 _, y, fs, run_one hpass, .inl (htook.returned hidle)⟩

/-- What makes each call end: at the head of its loop it settles, and the end of its wait ends it, or takes it back
    there. -/
structure Ends (cv : Converter ρ φ π) (x : Sys ρ π) : Prop where
  acquire : x.pc = .idle → ∀ jiffy : Nat, ∃ y fs, step cv x (.acquire jiffy) = some (y, fs) ∧
    (Returned y fs ∨ y.pc = .head jiffy)
  head : ∀ jiffy : Nat, x.pc = .head jiffy → Settles cv x jiffy
  woken : ∀ jiffy left : Nat, x.pc = .waiting jiffy → ∃ y fs, step cv x (.woken left) = some (y, fs) ∧
    (Returned y fs ∨ y.pc = .head left)
  expired : ∀ jiffy : Nat, x.pc = .waiting jiffy →
    ∃ y, step cv x .expired = some (y, [.returned .timeout]) ∧ y.pc = .idle

/-- A pass ends the call, or is back at the head of its loop. -/
theorem passBody_returns (h : passBody cv x jiffy = some (y, fs)) : Returned y fs ∨ y.pc = .head jiffy := by
  unfold passBody at h
  split at h
  · cases h
    exact .inl ⟨rfl, .noAvailableData, .head _⟩
  · split at h
    · cases h
      exact .inr rfl
    · rename_i b bs hq
      obtain ⟨rs, rest, htook⟩ := takeBlock_spec h hq
      rcases htook.pc with ⟨hhead, -⟩ | hidle
      · exact .inr hhead
      · exact .inl (htook.returned hidle)

theorem ends (hcv : cv.Bounded) (hinv : Inv cv all x evs) (hx : x.recInfo.Bounded) : Ends cv x where
  acquire hpc jiffy := by
    unfold step
    rw [hpc]
    dsimp only
    split
    · exact ⟨_, _, rfl, .inl ⟨rfl, .notStartRecChan, .head _⟩⟩
    · split
      · exact ⟨_, _, rfl, .inl ⟨rfl, .noAvailableData, .head _⟩⟩
      · exact ⟨_, _, rfl, .inr rfl⟩
  head jiffy hpc := settles hcv hinv hx hpc
  woken jiffy left hpc := by
    obtain ⟨y, fs, hbody, -⟩ := passBody_ok hcv hx left
    refine ⟨y, fs, ?_, passBody_returns hbody⟩
    simp only [step, hpc, hbody]
  expired jiffy hpc := by
    unfold step
    rw [hpc]
    exact ⟨_, rfl, rfl⟩

theorem run_bounded (hcv : cv.Bounded) (run : Run (step cv) (Whole cv)
    (start indexType useTimeStamp picParser prevFrameMs) is x evs) :
    x.recInfo.Bounded := by
  refine run.inv (fun _ x => x.recInfo.Bounded) (.inr ?_) (fun _ _ _ _ _ hx _ hstep => step_bounded hcv hx hstep)
  exact BitVec.le_def.mpr (Nat.zero_le _)

/-- Every record is converted once, in order, every block goes back once, after its last record, and every call ends. -/
theorem acquireRecIndex_in_order (hcv : cv.Bounded) {indexType : IndexType} {useTimeStamp : Bool} {picParser : π}
    {prevFrameMs : U32} {is : List (Input ρ)}
    (run : Run (step cv) (Whole cv) (start indexType useTimeStamp picParser prevFrameMs) is x evs) :
    appended is = released evs ++ x.oq ∧
      converted evs =
        (released evs).flatMap (records cv) ++ (headRecords cv x.oq).take (x.procsOffset / cv.recSize) ∧
      InTime cv evs ∧ Ends cv x := by
  have hinv := run_inv run
  exact ⟨hinv.queue, hinv.read, hinv.inTime, ends hcv hinv (run_bounded hcv run)⟩

/-- Records that are clocks, each of which completes a frame. -/
def sample : Converter U32 U32 Unit where
  recSize := 16
  recSize_pos := by decide
  srcClk := id
  frameTypeUnknown := 5
  dmxScdToVideoIndex _ r := some r
  fidxFeedStartCode _ _ frame := ((), { frame with globalOffset := frame.globalOffset + 188 })
  dmxScdToAudioIndex _ r := (true, ⟨1, 0, 0, 0, r / 90⟩)

/-- A block with the clocks of these milliseconds. -/
def sampleBlock (ms : List U32) (h : ms.length * 16 < 0x10000) : Block U32 where
  dataLen := ms.length * 16
  scData offset := ms.getD (offset / 16) 0 * 90
  len_lt := h

/-- Two calls get the first block, and a third one stops in the second. -/
theorem acquireRecIndex_three : ∃ (is : List (Input U32)) (x : Sys U32 Unit) (evs : List (Event U32)),
    (released evs).length = 1 ∧ converted evs = [0, 90, 180] ∧ x.oq.length = 1 ∧
      appended is = released evs ++ x.oq ∧
      converted evs =
        (released evs).flatMap (records sample) ++ (headRecords sample x.oq).take (x.procsOffset / sample.recSize) ∧
      InTime sample evs ∧ Ends sample x := by
  obtain ⟨x, evs, hrun, htest⟩ := exists_run_of_exec (step sample) (Whole sample) (start .video false () 0)
    [.append (sampleBlock [0, 1] (by decide)), .append (sampleBlock [2, 3] (by decide)), .acquire 0, .pass, .acquire 0,
      .pass, .acquire 5, .pass]
    (fun r => decide ((released r.2).length = 1 ∧ converted r.2 = [0, 90, 180] ∧ r.1.oq.length = 1)) (by decide)
  rw [decide_eq_true_iff] at htest
  obtain ⟨hrel, hcon, hoq⟩ := htest
  have hcv : sample.Bounded := fun _ sc _ => clk_le sc
  exact ⟨_, x, evs, hrel, hcon, hoq, acquireRecIndex_in_order hcv hrun⟩

end HiSTB.Demux.Scd
