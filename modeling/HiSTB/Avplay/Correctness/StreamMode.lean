import HiSTB.Avplay.Correctness.ChnOpen

/-!
# `Avplay.Correctness.StreamMode` — closing, changing the mode, and runs of all three calls

* `chnClose_sound`, `setStreamMode_sound` — with their conditions the other two calls keep the video channel sound;
* `run_right` — the calls of a run are right if each of them meets its condition, and so is each state.
-/

namespace HiSTB.Avplay.ChnOpen

open Lib

variable {tvp ts : Bool} {v : Vid} {s t : Chans}

variable {c : ModeCall}

/-! ## Closing -/

/-- What each part keeps, both keep. -/
theorem andThen_keeps {σ : Type} (P : σ → Prop) {r : Out σ} {f : σ → Out σ} (hr : P r.state)
    (hf : ∀ x, P x → P (f x).state) :
    P (r.andThen f).state := by
  unfold Out.andThen
  split
  · exact hf _ hr
  · exact hr

theorem andThen_of_ok {σ : Type} {r : Out σ} {f : σ → Out σ} (hok : r.ok = true) :
    (r.andThen f).state = (f r.state).state := by
  unfold Out.andThen
  rw [if_pos hok]

/-- The recorded stream type and the video channel. -/
def Chans.mode (s : Chans) : Bool × Vid := (s.ts, s.vid)

theorem mode_closeAud (c : CloseCall) (s : Chans) : (closeAud c s).state.mode = s.mode := by
  unfold closeAud
  split
  · split
    · rfl
    · split
      · rfl
      · rfl
  · rfl

theorem mode_freePcr (destroy : Bool) (s : Chans) : (freePcr destroy s).state.mode = s.mode := by
  unfold freePcr
  split
  · rfl
  · split
    · rfl
    · rfl

theorem mode_chnClose {c : CloseCall} (hvalid : c.enChn.valid = true) :
    (chnClose c s).state.mode = (closeVid c s).state.mode := by
  unfold chnClose
  rw [if_neg (by rw [hvalid]; exact Bool.noConfusion)]
  have hkeeps := andThen_keeps (fun x : Chans => x.mode = (closeVid c s).state.mode) rfl fun x hx =>
    (mode_closeAud c x).trans hx
  refine andThen_keeps (fun x : Chans => x.mode = (closeVid c s).state.mode) hkeeps fun x hx => ?_
  split
  · exact (mode_freePcr _ x).trans hx
  · exact hx

theorem sound_of_mode (hmode : t.mode = s.mode) (hs : s.vid.Sound s.ts) : t.vid.Sound t.ts := by
  rw [show t.ts = s.ts from congrArg Prod.fst hmode, show t.vid = s.vid from congrArg Prod.snd hmode]
  exact hs

/-- Closing frees the video channel, or does not touch it. -/
theorem closeVid_cases (c : CloseCall) (s : Chans) :
    (closeVid c s).state = s ∨
      c.enChn.hasVid = true ∧ c.vidEnable = false ∧ c.winAttached = false ∧ s.vid.hVdec ≠ none ∧
        (closeVid c s).state = { s with vid := (freeVidChn s.ts c.vidFree s.vid).state } := by
  unfold closeVid
  split
  · rename_i hnamed
    split
    · exact Or.inl rfl
    · rename_i hbusy
      obtain ⟨henable, hwin⟩ := not_or.mp hbusy
      split
      · exact Or.inl rfl
      · rename_i hopen
        exact Or.inr ⟨hnamed, Bool.of_not_eq_true henable, Bool.of_not_eq_true hwin, hopen, rfl⟩
  · exact Or.inl rfl

/-- **Closing that meets its condition keeps the video channel sound.** -/
theorem chnClose_sound {c : CloseCall} (hs : s.vid.Sound s.ts) (hcalm : CloseCalm c s) :
    (chnClose c s).state.vid.Sound (chnClose c s).state.ts := by
  cases hvalid : c.enChn.valid with
  | false =>
    unfold chnClose
    rw [if_pos hvalid]
    exact hs
  | true =>
    refine sound_of_mode (mode_chnClose hvalid) ?_
    rcases closeVid_cases c s with heq | ⟨hnamed, henable, hwin, hopen, heq⟩
    · rw [heq]
      exact hs
    · rw [heq]
      rcases hcalm hvalid hnamed henable hwin hopen with hkeep | hfree
      · rw [freeVidChn_of_kept hkeep]
        exact hs
      · rw [(freeVidChn_of_frees hs hfree).2.1]
        exact ⟨fun hno => absurd rfl hno, fun _ => rfl, rfl⟩

/-! ## The stream mode -/

theorem mode_leaveAud (c : ModeCall) (s : Chans) : (leaveAud c s).state.mode = s.mode := by
  unfold leaveAud
  split
  · rfl
  · rfl

theorem mode_enterAud (c : ModeCall) (s : Chans) : (enterAud c s).state.mode = s.mode := by
  unfold enterAud
  split
  · rfl
  · rfl

theorem mode_enterPcr (c : ModeCall) (s : Chans) : (enterPcr c s).state.mode = s.mode := by
  unfold enterPcr
  split
  · split
    · rfl
    · rfl
  · rfl

theorem mode_enterMode (c : ModeCall) :
    (((enterVid c s).andThen (enterAud c)).andThen (enterPcr c)).state.mode = (enterVid c s).state.mode := by
  have hkeeps := andThen_keeps (fun x : Chans => x.mode = (enterVid c s).state.mode) rfl fun x hx =>
    (mode_enterAud c x).trans hx
  exact andThen_keeps _ hkeeps fun x hx => (mode_enterPcr c x).trans hx

/-- The mode of a player without a video channel. -/
theorem vid_setStreamMode (hclosed : s.vid.hVdec = none) : (setStreamMode c s).state.vid = s.vid := by
  unfold setStreamMode
  split
  · rfl
  · have hleave : (leaveVid c s).state.vid = s.vid := by
      unfold leaveVid
      rw [if_pos hclosed]
      rfl
    have haud := andThen_keeps (fun x : Chans => x.vid = s.vid) hleave
      fun x hx => (congrArg Prod.snd (mode_leaveAud c x)).trans hx
    have hpcr := andThen_keeps _ haud fun x hx => (congrArg Prod.snd (mode_freePcr c.pcrDestroy x)).trans hx
    refine andThen_keeps (fun x : Chans => x.vid = s.vid) hpcr fun x hx =>
      (congrArg Prod.snd (mode_enterMode c)).trans ?_
    unfold enterVid
    rw [if_pos (by rw [hx]; exact hclosed)]
    exact hx

/-- The old mode is left as a whole: the decoder is left without its stream buffer. -/
theorem leaveMode_switches (hs : s.vid.Sound s.ts) (hopen : s.vid.hVdec ≠ none) (hde : c.bufferDeInit = true)
    (hswitch : c.Switches s) :
    (((leaveVid c s).andThen (leaveAud c)).andThen (freePcr c.pcrDestroy)).ok = true ∧
      (((leaveVid c s).andThen (leaveAud c)).andThen (freePcr c.pcrDestroy)).state.vid =
        ⟨s.vid.hVdec, none, false, []⟩ := by
  obtain ⟨hvid, haud, hpcr, -⟩ := hswitch
  obtain ⟨-, hdmx⟩ := hs.opened hopen
  have hexist := hs.exist
  unfold leaveVid leaveAud freePcr chanBufferDeInit freeDmxVid freeDmxAud Out.andThen Out.pure
  rw [if_neg hopen, hde]
  cases hts : s.ts with
  | false =>
    rw [hts] at hdmx
    have hnone : s.vid.hDmxVid = none := by simpa using hdmx
    cases hp : s.hDmxPcr <;> simp_all
  | true =>
    rw [hts] at hdmx
    obtain ⟨k, hk⟩ := Option.isSome_iff_exists.mp hdmx
    cases hadec : s.aud.hAdec <;> cases ha : s.aud.hDmxAud <;> cases hp : s.hDmxPcr <;> simp_all

/-- A decoder without its stream buffer gets one in the new mode. -/
theorem enterVid_sound (hopen : v.hVdec ≠ none) (hhalf : s.vid = ⟨v.hVdec, none, false, []⟩)
    (hcreate : s.ts = true → c.dmxVidCreate ≠ none) (hinit : c.bufferInit = true) :
    (enterVid c s).state.vid.Sound (enterVid c s).state.ts := by
  unfold enterVid mallocDmxVid chanBufferInit Out.andThen Out.orUndo
  rw [if_neg (by rw [hhalf]; exact hopen), hhalf, hinit]
  cases hts : s.ts with
  | false =>
    simp
    exact ⟨fun _ => ⟨rfl, rfl⟩, fun _ => rfl, rfl⟩
  | true =>
    obtain ⟨k, hk⟩ := Option.ne_none_iff_exists'.mp (hcreate hts)
    simp [hk]
    exact ⟨fun _ => ⟨rfl, rfl⟩, fun hno => absurd hno hopen, rfl⟩

/-- **Changing the mode so that the condition is met keeps the video channel sound.** -/
theorem setStreamMode_sound (hs : s.vid.Sound s.ts) (hcalm : ModeCalm c s) :
    (setStreamMode c s).state.vid.Sound (setStreamMode c s).state.ts := by
  by_cases hopen : s.vid.hVdec = none
  · rw [vid_setStreamMode hopen]
    exact ⟨fun hno => absurd hopen hno, hs.closed, hs.exist⟩
  · unfold setStreamMode
    by_cases hbusy : c.attr.valid = false ∨ c.vidEnable = true ∨ c.audEnable = true
    · rw [if_pos hbusy]
      exact hs
    · rw [if_neg hbusy]
      obtain ⟨hvalid, hvid, haud⟩ : c.attr.valid = true ∧ c.vidEnable = false ∧ c.audEnable = false := by
        simpa only [not_or, Bool.not_eq_true, Bool.not_eq_false] using hbusy
      cases hde : c.bufferDeInit with
      | false =>
        -- the decoder keeps its stream buffer, and nothing happens
        have hfail : leaveVid c s = ⟨false, s, []⟩ := by
          unfold leaveVid chanBufferDeInit Out.andThen
          rw [if_neg hopen, hde]
          rfl
        rw [hfail]
        exact hs
      | true =>
        have hswitch := (hcalm hvalid hvid haud hopen).resolve_left (by rw [hde]; exact Bool.noConfusion)
        obtain ⟨hok, hhalf⟩ := leaveMode_switches hs hopen hde hswitch
        rw [andThen_of_ok hok]
        exact sound_of_mode (mode_enterMode c) (enterVid_sound hopen hhalf hswitch.2.2.2.1 hswitch.2.2.2.2)

/-! ## Runs -/

/-- **The calls of a run that all meet their conditions are right, and so is each state.** -/
theorem run_right {is : List Call} {ps : List Opened} (h : Run (chanStep tvp) (Calm tvp) (create ts) is s ps) :
    (∀ q ∈ ps, q.Right) ∧ s.Right := by
  have hinv : s.vid.Sound s.ts ∧ ∀ q ∈ ps, Opened.Right q := by
    refine h.inv_effects (fun _ s ps => s.vid.Sound s.ts ∧ ∀ q ∈ ps, Opened.Right q) ?_ ?_
    · exact ⟨⟨fun hno => absurd rfl hno, fun _ => rfl, rfl⟩, fun _ hq => absurd hq List.not_mem_nil⟩
    · rintro is s ps i t qs ⟨hs, hps⟩ hC hnext
      cases i with
      | chnOpen c =>
          cases hnext
          obtain ⟨hsound, hright⟩ := chnOpen_right hs hC
          exact ⟨hsound, List.forall_mem_append.mpr ⟨hps, List.forall_mem_singleton.mpr hright⟩⟩
      | chnClose c =>
          cases hnext
          rw [List.append_nil]
          exact ⟨chnClose_sound hs hC, hps⟩
      | setStreamMode c =>
          cases hnext
          rw [List.append_nil]
          exact ⟨setStreamMode_sound hs hC, hps⟩
  exact ⟨hinv.2, hinv.1.right⟩

/-- All calls about the video channel succeed, and the decoder of the audio channel is opened or not. -/
def callFor (enChn : MediaChan) (adecOpen : Option Handle) : OpenCall :=
  ⟨enChn, ⟨some 0x10, some 0x20, true, true⟩, ⟨true, true, true⟩, ⟨adecOpen, some 0x40⟩, ⟨true, true⟩, some 0x50⟩

/-- A change to ES in which all goes well. -/
def toEs : ModeCall := ⟨⟨.es, 0x100000, 0x40000⟩, false, false, true, true, true, true, none, true, true, none, none⟩

/-- Two channels, of which the second does not open at once, and another mode. -/
theorem run_right_two_modes : ∃ s ps,
    Run (chanStep true) (Calm true) (create true)
      [.chnOpen (callFor .vid none), .chnOpen (callFor .aud none), .chnOpen (callFor .aud (some 0x30)),
        .setStreamMode toEs] s ps ∧
    (s.vid.bufInit = true ∧ ∃ q ∈ ps, q.out.ok = false) ∧ (∀ q ∈ ps, Opened.Right q) ∧ s.Right := by
  exact exists_run_imp (fun s ps => s.vid.bufInit = true ∧ ∃ q ∈ ps, q.out.ok = false) (by decide)
    fun _ _ hrun htest => ⟨htest, run_right hrun⟩

/-- The video channel is open; a call for both channels, in which the audio decoder cannot be opened, frees it. -/
theorem not_right_open_both : ∃ s ps,
    Run (chanStep true) always (create true) [.chnOpen (callFor .vid none), .chnOpen (callFor .audVid none)] s ps ∧
      s.vid.hVdec = none ∧ ¬ ∀ q ∈ ps, Opened.Right q := by
  refine exists_run_imp (fun s ps => s.vid.hVdec = none ∧ ∃ q ∈ ps, q.out.ok = false ∧ q.before.vid.hVdec = some 0x10 ∧
    q.out.state.vid.hVdec = none)
    (by decide) fun _ _ _ htest => ?_
  obtain ⟨hnone, q, hq, hfail, hbefore, hafter⟩ := htest
  refine ⟨hnone, fun hright => ?_⟩
  have hopen : q.before.vid.hVdec ≠ none := by
    rw [hbefore]
    exact Option.some_ne_none _
  have hsame := ((hright q hq hfail).vid hopen).1
  rw [hafter, hbefore] at hsame
  cases hsame

end HiSTB.Avplay.ChnOpen
