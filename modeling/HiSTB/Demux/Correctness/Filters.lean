import HiSTB.Demux.Filters
import HiSTB.Lib.Tally

/-!
# `Demux.Correctness.Filters` — what a channel counts

A channel counts the filters attached to it, as long as `DMX_OsiResume` finds no attached filter and no filter is
attached to a channel whose creation failed.

`DMX_OsiResume` takes the channel from every filter and attaches the filter again, but leaves the count: each time it
is one more for each filter, and once it is at the limit the filter is no longer attached. A channel whose creation
failed keeps its `ChanId`, which is what `DMX_OsiAttachFilter` looks at; a filter attached to it is not counted by the
channel that is created there next.

* `Inv` — the counts, and where an attached filter and its channel are;
* `resume_drift` — each attached filter makes a difference of one;
* `run_counts` — the counts in every run that keeps to the two conditions, and what `DMX_OsiResume` does after it;
* `resume_counts_twice` — the two cases.
-/

namespace HiSTB.Demux.Filters

open Lib

variable {cfg : Config} {s t : Dev}

variable {i f c : Nat} {x : FilterInfo}

/-- The number of filters attached to channel `c`. -/
def attached (cfg : Config) (s : Dev) (c : Nat) : Nat :=
  (List.range cfg.filterCnt).countP (fun i => (s.filter i).chanId = some c)

/-- Every channel that exists counts its filters. -/
def Counts (cfg : Config) (s : Dev) : Prop :=
  ∀ c, (s.chan c).dmxId ≠ none → (s.chan c).filterCount.toNat = attached cfg s c

/-- Every filter is attached in `t` as it is in `s`. -/
def Kept (s t : Dev) : Prop := ∀ i, (t.filter i).chanId = (s.filter i).chanId

/-- No filter is attached. -/
def Free (cfg : Config) (s : Dev) : Prop := ∀ i < cfg.filterCnt, (s.filter i).chanId = none

/-- No filter is attached to a channel whose creation failed, and a resume finds no attached filter. -/
def calm (cfg : Config) (s : Dev) : Input → Prop
  | .attachFilter _ c => (s.chan c).named = true → (s.chan c).dmxId ≠ none
  | .resume .ok => Free cfg s
  | _ => True

instance decidableFree (cfg : Config) (s : Dev) : Decidable (Free cfg s) :=
  inferInstanceAs (Decidable (∀ i < cfg.filterCnt, (s.filter i).chanId = none))

instance decidableCalm (cfg : Config) (s : Dev) : (i : Input) → Decidable (calm cfg s i)
  | .attachFilter _ c => inferInstanceAs (Decidable ((s.chan c).named = true → (s.chan c).dmxId ≠ none))
  | .resume .ok => decidableFree cfg s
  | .resume .inactive | .resume .resetFails | .resume .openFails => isTrue trivial
  | .newFilter _ | .deleteFilter _ | .detachFilter _ _ | .createChannel _ _ _ | .destroyChannel _ _ | .suspend =>
    isTrue trivial

/-! ## The parts of the state -/

@[simp] theorem setFilter_chan (f : Nat) (x : FilterInfo) : (s.setFilter f x).chan = s.chan := rfl

@[simp] theorem setFilter_filter (f : Nat) (x : FilterInfo) (i : Nat) :
    (s.setFilter f x).filter i = if i = f then x else s.filter i := by
  simp only [Dev.setFilter, Function.update_apply]

@[simp] theorem setChan_filter (c : Nat) (x : ChanInfo) : (s.setChan c x).filter = s.filter := rfl

@[simp] theorem setChan_chan (c : Nat) (x : ChanInfo) (d : Nat) :
    (s.setChan c x).chan d = if d = c then x else s.chan d := by
  simp only [Dev.setChan, Function.update_apply]

@[simp] theorem addFilterCount_filter (d : Nat) (k : BitVec 32) : (s.addFilterCount cfg d k).filter = s.filter := by
  unfold Dev.addFilterCount
  split <;> rfl

@[simp] theorem addFilterCount_chan (d : Nat) (k : BitVec 32) : (s.addFilterCount cfg d k).chan = s.chan := by
  unfold Dev.addFilterCount
  split <;> rfl

/-- An attach does nothing, or it passed the checks and the filter is attached and counted. -/
theorem attachFilter_cases (cfg : Config) (s : Dev) (f c : Nat) :
    (s.attachFilter cfg f c).1 = s ∨ (s.chan c).named = true ∧ (s.filter f).used = true ∧ (s.filter f).chanId = none ∧
      (cfg.regionSupport = true → regionId (s.chan c).dmxId = regionId (some (s.filter f).dmxId)) ∧
      (s.attachFilter cfg f c).1 = (s.setChan c { s.chan c with filterCount := (s.chan c).filterCount + 1 }).setFilter
        f { s.filter f with chanId := some c } := by
  unfold Dev.attachFilter
  simp only
  split_ifs with hvalid hfree htype hmax hregion
  · exact .inl rfl
  · exact .inl rfl
  · exact .inl rfl
  · exact .inl rfl
  · exact .inl rfl
  · simp only [not_or, Bool.not_eq_false] at hvalid
    refine .inr ⟨hvalid.1, hvalid.2, by simpa using hfree, ?_, rfl⟩
    intro hr
    simpa [hr] using hregion

/-- A round of `DMX_OsiResume` passes over a filter that is not attached; else the filter is let go and still
    counted, or it stays and is counted once more. -/
theorem resumeFilter_cases (cfg : Config)
    (hused : ∀ c, (s.filter i).chanId = some c → (s.filter i).used = true) :
    (s.filter i).chanId = none ∧ s.resumeFilter cfg i = s ∨ ∃ c, (s.filter i).chanId = some c ∧
        (s.resumeFilter cfg i = s.setFilter i { s.filter i with chanId := none } ∨
          (s.resumeFilter cfg i).filter = s.filter ∧ (s.resumeFilter cfg i).chan =
            (s.setChan c { s.chan c with filterCount := (s.chan c).filterCount + 1 }).chan) := by
  unfold Dev.resumeFilter
  cases hc : (s.filter i).chanId with
  | none => exact .inl ⟨rfl, by simp⟩
  | some c =>
    refine .inr ⟨c, rfl, ?_⟩
    rw [if_pos (hused c hc)]
    rcases attachFilter_cases cfg (s.setFilter i { s.filter i with chanId := none }) i c with
      heq | ⟨-, -, -, -, heq⟩
    · exact .inl heq
    · refine .inr ⟨?_, ?_⟩
      · funext j
        simp only [heq, setFilter_filter, setChan_filter, if_true]
        split
        · next hj => rw [hj, ← hc]
        · rfl
      · simp only [heq]
        rfl

/-! ## Counting -/

theorem attached_congr (h : ∀ i < cfg.filterCnt, (t.filter i).chanId = (s.filter i).chanId) (c : Nat) :
    attached cfg t c = attached cfg s c := by
  apply countP_same
  intro i hi
  rw [h i (List.mem_range.mp hi)]

/-- The filters of `t` are attached as those of `s` are, but for `f`. -/
theorem attached_change (hf : f < cfg.filterCnt)
    (h : ∀ i, i ≠ f → (t.filter i).chanId = (s.filter i).chanId) (c : Nat) :
    attached cfg t c + (decide ((s.filter f).chanId = some c)).toNat =
      attached cfg s c + (decide ((t.filter f).chanId = some c)).toNat := by
  apply countP_change List.nodup_range (List.mem_range.mpr hf)
  intro i _ hi
  rw [h i hi]

theorem attached_le (c : Nat) : attached cfg s c ≤ cfg.filterCnt := by
  have hle := List.countP_le_length (p := fun i => decide ((s.filter i).chanId = some c))
      (l := List.range cfg.filterCnt)
  rwa [List.length_range] at hle

theorem attached_lt (c : Nat) : attached cfg s c < 0x100000000 :=
  Nat.lt_of_le_of_lt (attached_le c) cfg.filterCnt_lt

theorem attached_eq_zero :
    attached cfg s c = 0 ↔ ∀ i < cfg.filterCnt, (s.filter i).chanId ≠ some c := by
  unfold attached
  rw [List.countP_eq_zero]
  simp

theorem ofNat_sub_one {a b : Nat} (h : b + 1 = a) : BitVec.ofNat 32 a - 1 = BitVec.ofNat 32 b := by
  rw [← h, BitVec.ofNat_add]
  exact BitVec.add_sub_cancel _ _

/-! ## The invariant -/

/-- The counts, and where an attached filter and its channel are. -/
structure Inv (cfg : Config) (s : Dev) : Prop where
  count : ∀ c, (s.chan c).filterCount = BitVec.ofNat 32 (attached cfg s c)
  used : ∀ i c, (s.filter i).chanId = some c → (s.filter i).used = true
  lt : ∀ i c, (s.filter i).chanId = some c → i < cfg.filterCnt
  exist : ∀ i c, (s.filter i).chanId = some c → (s.chan c).dmxId ≠ none
  region : ∀ i, (s.filter i).used = true → cfg.regionSupport = true →
    i ∈ List.range' (regionId (some (s.filter i).dmxId) * cfg.regionFilterCount) cfg.regionFilterCount
  same : ∀ i c, (s.filter i).chanId = some c → cfg.regionSupport = true →
    regionId (s.chan c).dmxId = regionId (some (s.filter i).dmxId)

theorem inv_init : Inv cfg init where
  count := by
    intro c
    have hnone : attached cfg init c = 0 := by simp [attached_eq_zero, init]
    rw [hnone]
    rfl
  used := by simp [init]
  lt := by simp [init]
  exist := by simp [init]
  region := by simp [init]
  same := by simp [init]

namespace Inv

theorem counts (h : Inv cfg s) : Counts cfg s := by
  intro c _
  rw [h.count c, BitVec.toNat_ofNat, Nat.mod_eq_of_lt (attached_lt c)]

theorem none_attached (h : Inv cfg s) (hc : (s.chan c).dmxId = none) : attached cfg s c = 0 := by
  rw [attached_eq_zero]
  intro i _ hi
  exact h.exist i c hi hc

/-- The filters an attached filter's channel looks at when it is destroyed. -/
theorem mem_filterRegion (h : Inv cfg s) (hi : (s.filter i).chanId = some c) :
    i ∈ List.range' (Dev.filterRegion cfg (s.chan c).dmxId).1 (Dev.filterRegion cfg (s.chan c).dmxId).2 := by
  unfold Dev.filterRegion
  split
  · next hr =>
    rw [h.same i c hi hr]
    exact h.region i (h.used i c hi) hr
  · simpa using h.lt i c hi

/-! ## One call -/

/-- Where every filter that is attached was attached like that before, to a channel with the same demuxer, the counts
    and the regions are left to show. -/
theorem fewer (h : Inv cfg s) (hfilter : ∀ i c, (t.filter i).chanId = some c → t.filter i = s.filter i)
    (hchan : ∀ i c, (t.filter i).chanId = some c → (t.chan c).dmxId = (s.chan c).dmxId)
    (hcount : ∀ c, (t.chan c).filterCount = BitVec.ofNat 32 (attached cfg t c))
    (hregion : ∀ i, (t.filter i).used = true → cfg.regionSupport = true →
      i ∈ List.range' (regionId (some (t.filter i).dmxId) * cfg.regionFilterCount) cfg.regionFilterCount) :
    Inv cfg t := by
  have hold : ∀ i c, (t.filter i).chanId = some c → (s.filter i).chanId = some c := fun i c hi => hfilter i c hi ▸ hi
  refine ⟨hcount, ?_, ?_, ?_, hregion, ?_⟩
  · intro i c hi
    rw [hfilter i c hi]
    exact h.used i c (hold i c hi)
  · intro i c hi
    exact h.lt i c (hold i c hi)
  · intro i c hi
    rw [hchan i c hi]
    exact h.exist i c (hold i c hi)
  · intro i c hi hr
    rw [hfilter i c hi, hchan i c hi]
    exact h.same i c (hold i c hi) hr

/-- A filter that is not attached becomes another one that is not. -/
theorem idle (h : Inv cfg s) (hf : (s.filter f).chanId = none) (hx : x.chanId = none)
    (hin : x.used = true → cfg.regionSupport = true →
      f ∈ List.range' (regionId (some x.dmxId) * cfg.regionFilterCount) cfg.regionFilterCount)
    (ht : t.filter = (s.setFilter f x).filter) (htc : t.chan = s.chan) : Inv cfg t := by
  have hsame : ∀ i, (t.filter i).chanId = (s.filter i).chanId := by
    intro i
    rw [ht, setFilter_filter]
    split
    · next hi => rw [hi, hf, hx]
    · rfl
  -- an attached filter is another one
  have hother : ∀ i c, (t.filter i).chanId = some c → t.filter i = s.filter i := by
    intro i c hi
    rw [hsame i] at hi
    have hne : i ≠ f := by
      rintro rfl
      rw [hf] at hi
      cases hi
    rw [ht, setFilter_filter, if_neg hne]
  refine h.fewer hother (fun _ c _ => by rw [htc]) ?_ ?_
  · intro c
    rw [attached_congr (fun i _ => hsame i) c, htc]
    exact h.count c
  · intro i hi hr
    rw [ht, setFilter_filter] at hi ⊢
    split at hi
    · next hif =>
      rw [if_pos hif, hif]
      exact hin hi hr
    · next hif =>
      rw [if_neg hif]
      exact h.region i hi hr

theorem newFilter (h : Inv cfg s) (d : Nat) : Inv cfg (s.newFilter cfg d).1 := by
  unfold Dev.newFilter
  split
  · exact h
  simp only
  split
  · exact h
  · next f hf =>
    have hunused : (s.filter f).used = false := by simpa using List.find?_some hf
    have hnone : (s.filter f).chanId = none := by
      cases hc : (s.filter f).chanId with
      | none => rfl
      | some c => rw [h.used f c hc] at hunused; cases hunused
    refine h.idle (x := ⟨true, none, d⟩) hnone rfl ?_ (by simp) (by simp)
    intro _ hr
    simpa [Dev.filterRegion, hr] using List.mem_of_find?_eq_some hf

/-- A filter lets its channel go, and the channel counts one less. -/
theorem letGo (h : Inv cfg s) (hc : (s.filter f).chanId = some c)
    (hx : x.chanId = none) (hu : x.used = true → x = { s.filter f with chanId := none })
    (ht : t.filter = (s.setFilter f x).filter)
    (htc : t.chan = (s.setChan c { s.chan c with filterCount := (s.chan c).filterCount - 1 }).chan) : Inv cfg t := by
  have hother : ∀ i d, (t.filter i).chanId = some d → t.filter i = s.filter i := by
    intro i d hi
    rw [ht, setFilter_filter] at hi ⊢
    split at hi
    · rw [hx] at hi
      cases hi
    · next hif => exact if_neg hif
  have hdmx : ∀ d, (t.chan d).dmxId = (s.chan d).dmxId := by
    intro d
    rw [htc, setChan_chan]
    split
    · next hd => rw [hd]
    · rfl
  refine h.fewer hother (fun _ d _ => hdmx d) ?_ ?_
  · intro d
    have hchange := attached_change (s := s) (t := t) (h.lt f c hc)
      (fun i hi => by rw [ht, setFilter_filter, if_neg hi]) d
    rw [ht, setFilter_filter, if_pos rfl, hx, hc] at hchange
    rw [htc, setChan_chan]
    split
    · next hd =>
      subst hd
      simp only [h.count d]
      apply ofNat_sub_one
      simpa using hchange
    · next hd =>
      have hne : ¬ c = d := fun he => hd he.symm
      rw [h.count d]
      simp only [Option.some.injEq, hne, decide_false, Bool.toNat_false, reduceCtorEq, Nat.add_zero] at hchange
      rw [hchange]
  · intro i hi hr
    rw [ht, setFilter_filter] at hi ⊢
    split at hi
    · next hif =>
      rw [if_pos hif, hu hi]
      subst hif
      exact h.region i (h.used i c hc) hr
    · next hif =>
      rw [if_neg hif]
      exact h.region i hi hr

theorem deleteFilter (h : Inv cfg s) (f : Nat) : Inv cfg (s.deleteFilter cfg f).1 := by
  unfold Dev.deleteFilter
  simp only
  split
  · split
    · next c hc =>
      refine h.letGo (x := { s.filter f with used := false, chanId := none }) hc rfl (by simp) ?_ ?_
      · rw [setChan_filter]
        simp [Dev.setFilter]
      · funext d
        simp
    · next hc =>
      refine h.idle (x := { s.filter f with used := false, chanId := none }) hc rfl (by simp) ?_ (by simp)
      simp [Dev.setFilter]
  · exact h

theorem detachFilter (h : Inv cfg s) (f c : Nat) : Inv cfg (s.detachFilter f c).1 := by
  unfold Dev.detachFilter
  simp only
  split
  · exact h
  split
  · exact h
  · next c' hc' =>
    split
    · next hc =>
      subst hc
      exact h.letGo (x := { s.filter f with chanId := none }) hc' rfl (fun _ => rfl) rfl rfl
    · exact h

/-- A filter that is not attached is attached to a channel that exists, which counts one more. -/
theorem join (h : Inv cfg s) (hf : f < cfg.filterCnt) (hnone : (s.filter f).chanId = none)
    (hused : (s.filter f).used = true) (hexist : (s.chan c).dmxId ≠ none)
    (hregion : cfg.regionSupport = true → regionId (s.chan c).dmxId = regionId (some (s.filter f).dmxId))
    (ht : t.filter = (s.setFilter f { s.filter f with chanId := some c }).filter)
    (htc : t.chan = (s.setChan c { s.chan c with filterCount := (s.chan c).filterCount + 1 }).chan) : Inv cfg t := by
  have hdmx : ∀ d, (t.chan d).dmxId = (s.chan d).dmxId := by
    intro d
    rw [htc, setChan_chan]
    split
    · next hd => rw [hd]
    · rfl
  refine ⟨?_, ?_, ?_, ?_, ?_, ?_⟩
  · intro d
    have hchange := attached_change (s := s) (t := t) hf (fun i hi => by rw [ht, setFilter_filter, if_neg hi]) d
    rw [ht, setFilter_filter, if_pos rfl, hnone] at hchange
    rw [htc, setChan_chan]
    split
    · next hd =>
      subst hd
      simp only [reduceCtorEq, decide_false, decide_true, Bool.toNat_false, Bool.toNat_true, Nat.add_zero] at hchange
      simp only [h.count d]
      rw [hchange, BitVec.ofNat_add]
      rfl
    · next hd =>
      have hne : ¬ c = d := fun he => hd he.symm
      simp only [reduceCtorEq, decide_false, Option.some.injEq, hne, Bool.toNat_false, Nat.add_zero] at hchange
      rw [h.count d, hchange]
  · intro i d hi
    rw [ht, setFilter_filter] at hi ⊢
    split at hi
    · next hif => simpa [hif] using hused
    · next hif =>
      rw [if_neg hif]
      exact h.used i d hi
  · intro i d hi
    rw [ht, setFilter_filter] at hi
    split at hi
    · next hif => exact hif ▸ hf
    · exact h.lt i d hi
  · intro i d hi
    rw [hdmx]
    rw [ht, setFilter_filter] at hi
    split at hi
    · cases hi
      exact hexist
    · exact h.exist i d hi
  · intro i hi hr
    rw [ht, setFilter_filter] at hi ⊢
    split at hi
    · next hif =>
      subst hif
      simpa using h.region i hused hr
    · next hif =>
      rw [if_neg hif]
      exact h.region i hi hr
  · intro i d hi hr
    rw [hdmx]
    rw [ht, setFilter_filter] at hi ⊢
    split at hi
    · next hif =>
      cases hi
      rw [if_pos hif]
      exact hregion hr
    · next hif =>
      rw [if_neg hif]
      exact h.same i d hi hr

theorem attachFilter (h : Inv cfg s) (hf : f < cfg.filterCnt)
    (hcalm : (s.chan c).named = true → (s.chan c).dmxId ≠ none) : Inv cfg (s.attachFilter cfg f c).1 := by
  rcases attachFilter_cases cfg s f c with heq | ⟨hnamed, hused, hnone, hregion, heq⟩
  · rw [heq]
    exact h
  · rw [heq]
    exact h.join hf hnone hused (hcalm hnamed) hregion rfl rfl

/-- A channel without filters comes or goes. -/
theorem setFreeChan (h : Inv cfg s) (hc : attached cfg s c = 0) {x : ChanInfo}
    (hx : x.filterCount = 0) : Inv cfg (s.setChan c x) := by
  have hne : ∀ i d, (s.filter i).chanId = some d → d ≠ c := by
    rintro i d hi rfl
    exact attached_eq_zero.mp hc i (h.lt i d hi) hi
  refine h.fewer (fun _ _ _ => rfl) ?_ ?_ h.region
  · intro i d hi
    rw [setChan_chan, if_neg (hne i d hi)]
  · intro d
    have hsame : attached cfg (s.setChan c x) d = attached cfg s d := attached_congr (fun _ _ => rfl) d
    rw [hsame, setChan_chan]
    split
    · next hd =>
      rw [hd, hc, hx]
      rfl
    · exact h.count d

theorem createChannel (h : Inv cfg s) (d : Nat) (ty : ChanType) (how : Creation) :
    Inv cfg (s.createChannel cfg d ty how).1 := by
  unfold Dev.createChannel
  simp only
  split
  · exact h
  · next c hc =>
    have hfree : attached cfg s c = 0 := by
      apply h.none_attached
      simpa using List.find?_some hc
    cases how <;> exact h.setFreeChan hfree rfl

/-- What the loop of `DMX_OsiDestroyChannel` does. -/
theorem detachAll_spec (cfg : Config) (s : Dev) (d : Option Nat) (c : Nat) :
    (s.detachAll cfg d c).chan = s.chan ∧ ∀ i, (s.detachAll cfg d c).filter i =
      if i ∈ List.range' (Dev.filterRegion cfg d).1 (Dev.filterRegion cfg d).2 ∧ (s.filter i).chanId = some c
      then { s.filter i with chanId := none } else s.filter i := by
  unfold Dev.detachAll
  simp only [List.mem_range'_1]
  -- after `k` rounds the first `k` filters of the region are done
  refine forRange_inv (fun k (t : Dev) => t.chan = s.chan ∧ ∀ i, t.filter i =
    if ((Dev.filterRegion cfg d).1 ≤ i ∧ i < (Dev.filterRegion cfg d).1 + k) ∧ (s.filter i).chanId = some c
    then { s.filter i with chanId := none } else s.filter i) ?_ ?_
  · refine ⟨rfl, fun i => ?_⟩
    rw [if_neg (by omega)]
  · rintro k t - ⟨htc, ht⟩
    have hk : t.filter ((Dev.filterRegion cfg d).1 + k) = s.filter ((Dev.filterRegion cfg d).1 + k) := by
      rw [ht, if_neg (by omega)]
    split
    · next hc =>
      rw [hk] at hc ⊢
      refine ⟨htc, fun i => ?_⟩
      rw [setFilter_filter]
      split
      · next hi =>
        subst hi
        rw [if_pos ⟨by omega, hc⟩]
      · next hi =>
        rw [ht]
        congr 1
        simp only [eq_iff_iff, and_congr_left_iff]
        omega
    · next hc =>
      rw [hk] at hc
      refine ⟨htc, fun i => ?_⟩
      rw [ht]
      by_cases hi : i = (Dev.filterRegion cfg d).1 + k
      · subst hi
        rw [if_neg (by omega), if_neg (fun hand => hc hand.2)]
      · congr 1
        simp only [eq_iff_iff, and_congr_left_iff]
        omega

/-- The filters of a channel let it go together. -/
theorem letAllGo (h : Inv cfg s)
    (ht : ∀ i, t.filter i = if (s.filter i).chanId = some c then { s.filter i with chanId := none } else s.filter i)
    (htc : t.chan = (s.setChan c { s.chan c with filterCount := 0 }).chan) :
    Inv cfg t ∧ attached cfg t c = 0 := by
  have hother : ∀ i d, (t.filter i).chanId = some d → d ≠ c ∧ t.filter i = s.filter i := by
    intro i d hi
    rw [ht] at hi ⊢
    split at hi
    · cases hi
    · next hne =>
      rw [if_neg hne]
      refine ⟨?_, rfl⟩
      rintro rfl
      exact hne hi
  have hchan : ∀ d, d ≠ c → t.chan d = s.chan d := by
    intro d hd
    rw [htc, setChan_chan, if_neg hd]
  have hzero : attached cfg t c = 0 := by
    rw [attached_eq_zero]
    intro i _ hi
    exact (hother i c hi).1 rfl
  refine ⟨h.fewer (fun i d hi => (hother i d hi).2) (fun i d hi => by rw [hchan d (hother i d hi).1]) ?_ ?_, hzero⟩
  · intro d
    by_cases hd : d = c
    · subst hd
      rw [hzero, htc, setChan_chan, if_pos rfl]
      rfl
    · rw [hchan d hd, h.count d]
      congr 1
      apply countP_same
      intro i _
      rw [ht]
      split
      · next hi =>
        have hne : ¬ c = d := fun he => hd he.symm
        simp [hi, hne]
      · rfl
  · intro i hi hr
    have hused : (t.filter i).used = (s.filter i).used := by
      rw [ht]
      split <;> rfl
    have hdmx : (t.filter i).dmxId = (s.filter i).dmxId := by
      rw [ht]
      split <;> rfl
    rw [hdmx]
    exact h.region i (hused ▸ hi) hr

theorem destroyChannel (h : Inv cfg s) (c : Nat) (closes : Bool) : Inv cfg (s.destroyChannel cfg c closes).1 := by
  unfold Dev.destroyChannel
  simp only
  split
  · exact h
  split
  · exact h
  split
  · obtain ⟨hchan, hfilter⟩ := detachAll_spec cfg s (s.chan c).dmxId c
    have hall : ∀ i, (s.detachAll cfg (s.chan c).dmxId c).filter i =
        if (s.filter i).chanId = some c then { s.filter i with chanId := none } else s.filter i := by
      intro i
      rw [hfilter]
      congr 1
      simp only [eq_iff_iff, and_iff_right_iff_imp]
      exact h.mem_filterRegion
    obtain ⟨hinv, hzero⟩ := h.letAllGo (t := (s.detachAll cfg (s.chan c).dmxId c).setChan c
      { (s.detachAll cfg (s.chan c).dmxId c).chan c with filterCount := 0 }) hall (by simp [Dev.setChan, hchan])
    exact hinv.setFreeChan hzero (by simp)
  · next hcount =>
    have hword : (s.chan c).filterCount = 0 := by simpa using hcount
    have hzero : attached cfg s c = 0 := by
      have hnat := congrArg BitVec.toNat (h.count c)
      rw [hword, BitVec.toNat_ofNat, Nat.mod_eq_of_lt (attached_lt c)] at hnat
      exact hnat.symm
    exact h.setFreeChan hzero hword

end Inv

/-! ## Resume -/

/-- How the counts and the filters are after `k` rounds of `DMX_OsiResume`. -/
structure Drift (cfg : Config) (s : Dev) (k : Nat) (t : Dev) : Prop where
  count : ∀ c, (t.chan c).filterCount = BitVec.ofNat 32 (attached cfg t c)
    + BitVec.ofNat 32 ((List.range k).countP (fun i => (s.filter i).chanId = some c))
  ahead : ∀ i, k ≤ i → t.filter i = s.filter i
  dmxId : ∀ c, (t.chan c).dmxId = (s.chan c).dmxId

/-- **One round.** -/
theorem Drift.round (h : Inv cfg s) {k : Nat} (hk : k < cfg.filterCnt) (hd : Drift cfg s k t) :
    Drift cfg s (k + 1) (t.resumeFilter cfg k) := by
  have hsame : t.filter k = s.filter k := hd.ahead k (Nat.le_refl k)
  have hcount : ∀ c, (List.range (k + 1)).countP (fun i => decide ((s.filter i).chanId = some c)) =
      (List.range k).countP (fun i => decide ((s.filter i).chanId = some c))
        + (decide ((s.filter k).chanId = some c)).toNat := by
    intro c
    rw [List.range_succ, List.countP_append, countP_cons_toNat]
    simp
  rcases resumeFilter_cases cfg (s := t) (i := k) (fun c hc => by rw [hsame] at hc ⊢; exact h.used k c hc) with
    ⟨hnone, heq⟩ | ⟨c, hc, heq | ⟨hf, hch⟩⟩
  · rw [heq]
    refine ⟨?_, fun i hi => hd.ahead i (Nat.le_of_succ_le hi), hd.dmxId⟩
    intro c
    rw [hcount, ← hsame, hnone]
    simpa using hd.count c
  · -- the filter is let go
    have hchange := attached_change (s := t) (t := t.resumeFilter cfg k) hk
      (fun i hi => by rw [heq, setFilter_filter, if_neg hi])
    rw [heq] at hchange ⊢
    refine ⟨?_, ?_, hd.dmxId⟩
    · intro d
      have hchange := hchange d
      rw [setFilter_filter, if_pos rfl, hc] at hchange
      rw [hcount, ← hsame, hc, setFilter_chan, hd.count d, ← BitVec.ofNat_add, ← BitVec.ofNat_add]
      congr 1
      change _ + _ = _ + 0 at hchange
      omega
    · intro i hi
      rw [setFilter_filter, if_neg (by omega)]
      exact hd.ahead i (Nat.le_of_succ_le hi)
  · -- the filter stays
    have hatt : ∀ d, attached cfg (t.resumeFilter cfg k) d = attached cfg t d := by
      intro d
      apply attached_congr
      intro i _
      rw [hf]
    refine ⟨?_, ?_, ?_⟩
    · intro d
      rw [hatt, hcount, ← hsame, hc, hch, setChan_chan, BitVec.ofNat_add, ← BitVec.add_assoc, ← hd.count d]
      split
      · next hdc =>
        subst hdc
        simp
      · next hdc =>
        have hne : ¬ c = d := fun he => hdc he.symm
        simp [hne]
    · intro i hi
      rw [hf]
      exact hd.ahead i (Nat.le_of_succ_le hi)
    · intro d
      rw [hch, setChan_chan]
      split
      · next hdc =>
        subst hdc
        exact hd.dmxId d
      · exact hd.dmxId d

/-- **What `DMX_OsiResume` does.** Each attached filter makes a difference of one between a count and the filters. -/
theorem resume_drift (h : Inv cfg s) : Drift cfg s cfg.filterCnt (s.resume cfg .ok).1 := by
  refine forRange_inv (Drift cfg s) ?_ (fun k t hk hd => hd.round h hk)
  refine ⟨?_, fun _ _ => rfl, fun _ => rfl⟩
  intro c
  simpa using h.count c

/-- Without attached filters there is nothing to do. -/
theorem resume_free (h : Inv cfg s) (hfree : Free cfg s) : (s.resume cfg .ok).1 = s := by
  refine forRange_inv (fun _ t => t = s) rfl ?_
  rintro k t hk rfl
  rcases resumeFilter_cases cfg (s := t) (i := k) (fun c hc => h.used k c hc) with ⟨-, heq⟩ | ⟨c, hc, -⟩
  · exact heq
  · rw [hfree k hk] at hc
    cases hc

/-- **When a resume is harmless**: exactly when no filter is attached. -/
theorem resume_harmless_iff (h : Inv cfg s) :
    Counts cfg (s.resume cfg .ok).1 ∧ Kept s (s.resume cfg .ok).1 ↔ Free cfg s := by
  constructor
  · rintro ⟨hcounts, hkept⟩ i hi
    have hd := resume_drift h
    cases hc : (s.filter i).chanId with
    | none => rfl
    | some c =>
      exfalso
      have hexist : ((s.resume cfg .ok).1.chan c).dmxId ≠ none := by
        rw [hd.dmxId c]
        exact h.exist i c hc
      have hnat := hcounts c hexist
      rw [hd.count c, attached_congr (s := s) (fun j _ => hkept j) c] at hnat
      have hpos : 0 < attached cfg s c := by
        rw [Nat.pos_iff_ne_zero, Ne, attached_eq_zero]
        exact fun hno => hno i hi hc
      have hlt : attached cfg s c < 2 ^ 32 := attached_lt c
      rw [← BitVec.ofNat_add, BitVec.toNat_ofNat] at hnat
      have hle : attached cfg s c + attached cfg s c - 2 ^ 32 < attached cfg s c := by omega
      change (attached cfg s c + attached cfg s c) % 2 ^ 32 = attached cfg s c at hnat
      omega
  · intro hfree
    rw [resume_free h hfree]
    exact ⟨h.counts, fun _ => rfl⟩

/-! ## Runs -/

theorem Inv.step (h : Inv cfg s) {i : Input} {es : List Ret} (hcalm : calm cfg s i)
    (hstep : step cfg s i = some (t, es)) : Inv cfg t := by
  cases i with
  | newFilter d =>
    cases hstep
    exact h.newFilter d
  | deleteFilter f =>
    simp only [Filters.step, Option.ite_none_right_eq_some, Option.some.injEq] at hstep
    obtain ⟨-, heq⟩ := hstep
    cases heq
    exact h.deleteFilter f
  | attachFilter f c =>
    simp only [Filters.step, Option.ite_none_right_eq_some, Option.some.injEq] at hstep
    obtain ⟨⟨hf, -⟩, heq⟩ := hstep
    cases heq
    exact h.attachFilter hf hcalm
  | detachFilter f c =>
    simp only [Filters.step, Option.ite_none_right_eq_some, Option.some.injEq] at hstep
    obtain ⟨-, heq⟩ := hstep
    cases heq
    exact h.detachFilter f c
  | createChannel d ty how =>
    cases hstep
    exact h.createChannel d ty how
  | destroyChannel c closes =>
    simp only [Filters.step, Option.ite_none_right_eq_some, Option.some.injEq] at hstep
    obtain ⟨-, heq⟩ := hstep
    cases heq
    exact h.destroyChannel c closes
  | suspend =>
    cases hstep
    exact h
  | resume how =>
    cases hstep
    cases how with
    | ok =>
      rw [resume_free h hcalm]
      exact h
    | inactive => exact h
    | resetFails => exact h
    | openFails => exact h

/-- **Filters and channels.** In every run that is calm every channel that exists counts the filters attached to it.
    What a suspend and a resume after it leave is the same and still counted, exactly where the resume does not come
    to the filters or none is attached. -/
theorem run_counts {is : List Input} {es : List Ret} (hrun : Run (step cfg) (calm cfg) init is s es) :
    Counts cfg s ∧ ∀ how t u fs gs, step cfg s .suspend = some (t, fs) → step cfg t (.resume how) = some (u, gs) →
      (Counts cfg u ∧ Kept s u ↔ (how = .ok → Free cfg s)) := by
  have hinv : Inv cfg s :=
    hrun.inv (fun _ s => Inv cfg s) inv_init (fun _ _ _ _ _ h hcalm hstep => h.step hcalm hstep)
  refine ⟨hinv.counts, ?_⟩
  intro how t u fs gs hsuspend hresume
  cases hsuspend
  cases hresume
  cases how with
  | ok => simpa using resume_harmless_iff hinv
  | inactive => simpa [Dev.resume] using ⟨hinv.counts, fun _ => rfl⟩
  | resetFails => simpa [Dev.resume] using ⟨hinv.counts, fun _ => rfl⟩
  | openFails => simpa [Dev.resume] using ⟨hinv.counts, fun _ => rfl⟩

/-- Two filters, two channels and no regions. -/
def smallCfg : Config := ⟨2, 2, 2, false, 0, 0, by decide⟩

/-- Two filters on two channels: one is let go, the other goes with its channel, and the resume finds none. -/
theorem run_counts_twoFilters : ∃ s es,
    Run (step smallCfg) (calm smallCfg) init [.newFilter 0, .newFilter 1, .createChannel 0 .sec .ok,
      .createChannel 1 .pes .ok, .attachFilter 0 0, .attachFilter 1 1, .detachFilter 0 0, .destroyChannel 1 true,
      .suspend, .resume .ok, .attachFilter 1 0] s es ∧
    Counts smallCfg s ∧ (s.chan 0).filterCount = 1 ∧ (s.filter 1).chanId = some 0 := by
  exact exists_run_imp (fun s _ => (s.chan 0).filterCount = 1 ∧ (s.filter 1).chanId = some 0)
    (by decide) fun _ _ hrun htest => ⟨(run_counts hrun).1, htest.1, htest.2⟩

/-- **The two cases.** A filter is counted once more after each suspend and resume; at the limit, of two here, it is
    no longer attached. And a filter is attached where the creation of a channel failed: the next channel there does
    not count it. -/
theorem resume_counts_twice :
    (∃ s es t fs, Run (step smallCfg) always init [.newFilter 0, .createChannel 0 .sec .ok, .attachFilter 0 0,
        .suspend, .resume .ok] s es ∧ (s.chan 0).dmxId = some 0 ∧ (s.chan 0).filterCount = 2 ∧
        attached smallCfg s 0 = 1 ∧ (s.filter 0).chanId = some 0 ∧
      Run (step smallCfg) always s [.suspend, .resume .ok] t fs ∧ (t.filter 0).chanId = none) ∧
    ∃ s es, Run (step smallCfg) always init [.newFilter 0, .createChannel 0 .sec .noMem, .attachFilter 0 0,
        .createChannel 0 .sec .ok] s es ∧ (s.chan 0).dmxId = some 0 ∧ (s.chan 0).filterCount = 0 ∧
        attached smallCfg s 0 = 1 := by
  constructor
  · obtain ⟨s, es, hrun, htest⟩ := exists_run_of_exec (step smallCfg) always init [.newFilter 0,
      .createChannel 0 .sec .ok, .attachFilter 0 0, .suspend, .resume .ok]
      (fun r => (r.1.chan 0).dmxId = some 0 ∧ (r.1.chan 0).filterCount = 2 ∧ attached smallCfg r.1 0 = 1 ∧
        (r.1.filter 0).chanId = some 0 ∧
        (exec (step smallCfg) always r.1 [.suspend, .resume .ok]).any (fun q => (q.1.filter 0).chanId = none) = true)
      (by decide)
    rw [decide_eq_true_eq] at htest
    obtain ⟨hdmx, hcount, hatt, hchan, hnext⟩ := htest
    obtain ⟨t, fs, hrun', htest'⟩ := exists_run_of_exec _ _ _ _ _ hnext
    rw [decide_eq_true_eq] at htest'
    exact ⟨s, es, t, fs, hrun, hdmx, hcount, hatt, hchan, hrun', htest'⟩
  · exact exists_run_of_decide (by decide)

end HiSTB.Demux.Filters
