import HiSTB.Avplay.ChnOpen

/-!
# `Avplay.Correctness.ChnOpen` — what a failed call leaves

`Vid.Sound` is what the video channel should be. Each function that creates or frees one has three outcomes: it does
all, or nothing, or it stops half-way; the last is what a later call stumbles over. The conditions name the answers with
which the calls of a user avoid it.

* `Opened.Right`, `Chans.Right` — what is right;
* `OpenCalm`, `CloseCalm`, `ModeCalm` — the answers with which a call is right;
* `chnOpen_right` — an opening call is right with its condition.
-/

namespace HiSTB.Avplay.ChnOpen

variable {tvp ts : Bool} {v : Vid} {a : Aud} {s t : Chans} {d : VidFree} {e : AudFree} {es fs : List Event}
  {o : Obj} {h : Handle}

variable {named : Bool} {before : Vid} {r : Out Vid} {c : OpenCall}

/-! ## What is right -/

/-- Whatever was created was destroyed. -/
def Freed (es : List Event) : Prop := ∀ o, .create o ∈ es → .destroy o ∈ es

/-- If the video channel is open, there is a video channel at the demux in TS mode only, and the stream buffer is
    initialised. -/
def Chans.Right (s : Chans) : Prop :=
  s.vid.hVdec ≠ none → (s.vid.dmxVids ≠ [] ↔ s.ts = true) ∧ s.vid.bufInit = true

/-- A failed call keeps the channels that were open, and has freed what it created. -/
structure Opened.Kept (p : Opened) : Prop where
  vid : p.before.vid.hVdec ≠ none →
    p.out.state.vid.hVdec = p.before.vid.hVdec ∧ p.out.state.vid.hDmxVid = p.before.vid.hDmxVid
  aud : p.before.aud.hAdec ≠ none →
    p.out.state.aud.hAdec = p.before.aud.hAdec ∧ p.out.state.aud.hDmxAud = p.before.aud.hDmxAud
  freed : Freed p.out.events

/-- A call of `HI_MPI_AVPLAY_ChnOpen` is right. -/
def Opened.Right (p : Opened) : Prop := p.out.ok = false → p.Kept

/-! ## The answers with which it is -/

/-- The calls that free a video channel all succeed. -/
def VidFree.Frees (d : VidFree) (ts : Bool) : Prop :=
  d.bufferDeInit = true ∧ (ts = true → d.dmxVidDestroy = true) ∧ d.vdecFree = true
deriving Decidable

/-- The calls that free an audio channel in TS mode all succeed. -/
def AudFree.Frees (e : AudFree) : Prop := e.dmxAudDestroy = true ∧ e.adecClose = true
deriving Decidable

/-- The calls that create a video channel all succeed. -/
def VidMalloc.Makes (c : VidMalloc) (tvp ts : Bool) : Prop :=
  c.vdecAlloc ≠ none ∧ (if ts then c.dmxVidCreate ≠ none else tvp = true → c.setTvp = true) ∧ c.bufferInit = true
deriving Decidable

/-- If one of them fails, what has been created is freed: there is nothing yet, or the decoder and the channel at the
    demux go; after `HI_MPI_VDEC_SetTVP` nothing is freed. -/
def VidMalloc.Clean (c : VidMalloc) (d : VidFree) (tvp ts : Bool) : Prop :=
  c.vdecAlloc = none ∨ d.vdecFree = true ∧
    if ts then c.dmxVidCreate = none ∨ d.dmxVidDestroy = true else tvp = true → c.setTvp = true
deriving Decidable

/-- The calls that create an audio channel all succeed. -/
def AudMalloc.Makes (c : AudMalloc) (ts : Bool) : Prop := c.adecOpen ≠ none ∧ (ts = true → c.dmxAudCreate ≠ none)
deriving Decidable

/-- If one of them fails, the decoder is closed. -/
def AudMalloc.Clean (c : AudMalloc) (e : AudFree) : Prop := c.adecOpen = none ∨ e.adecClose = true
deriving Decidable

/-- Freeing the video channel does no harm: one that the call created goes, and one that was open before is not
    touched. -/
def UndoesVid (d : VidFree) (ts : Bool) (v : Vid) : Prop :=
  if v.hVdec = none then d.Frees ts else d.bufferDeInit = false
deriving Decidable

/-- Freeing the audio channel in TS mode does no harm. -/
def UndoesAud (e : AudFree) (a : Aud) : Prop :=
  if a.hAdec = none then e.Frees else if a.hDmxAud = none then e.adecClose = false else e.dmxAudDestroy = false
deriving Decidable

/-- What a call of `HI_MPI_AVPLAY_ChnOpen` must meet. -/
def OpenCalm (tvp : Bool) (c : OpenCall) (s : Chans) : Prop :=
  if c.enChn.valid = false then True
  else if c.enChn.hasVid = true ∧ s.vid.hVdec = none ∧ ¬ c.vidMalloc.Makes tvp s.ts then
    c.vidMalloc.Clean c.vidFree tvp s.ts
  else if c.enChn.hasAud = true ∧ s.aud.hAdec = none ∧ ¬ c.audMalloc.Makes s.ts then
    c.audMalloc.Clean c.audFree ∧ (c.enChn.hasVid = true → UndoesVid c.vidFree s.ts s.vid)
  else if s.ts = true ∧ s.hDmxPcr = none ∧ c.pcrCreate = none then
    (c.enChn.hasVid = true → UndoesVid c.vidFree s.ts s.vid) ∧ (c.enChn.hasAud = true → UndoesAud c.audFree s.aud)
  else True
deriving Decidable

/-- What a call of `HI_MPI_AVPLAY_ChnClose` must meet: the video channel is freed as a whole, or not at all. -/
def CloseCalm (c : CloseCall) (s : Chans) : Prop :=
  c.enChn.valid = true → c.enChn.hasVid = true → c.vidEnable = false → c.winAttached = false → s.vid.hVdec ≠ none →
    c.vidFree.bufferDeInit = false ∨ c.vidFree.Frees s.ts
deriving Decidable

/-- Nothing fails between the stream buffer's end in the old mode and its start in the new one. -/
def ModeCall.Switches (c : ModeCall) (s : Chans) : Prop :=
  (s.ts = true → c.dmxVidDestroy = true) ∧
    (s.ts = true → s.aud.hAdec ≠ none → s.aud.hDmxAud ≠ none → c.dmxAudDestroy = true) ∧
    (s.hDmxPcr ≠ none → c.pcrDestroy = true) ∧ (c.attr.ts = true → c.dmxVidCreate ≠ none) ∧ c.bufferInit = true
deriving Decidable

/-- What a call of `AVPLAY_SetStreamMode` must meet. -/
def ModeCalm (c : ModeCall) (s : Chans) : Prop :=
  c.attr.valid = true → c.vidEnable = false → c.audEnable = false → s.vid.hVdec ≠ none →
    c.bufferDeInit = false ∨ c.Switches s
deriving Decidable

/-- What a call must meet. -/
def Calm (tvp : Bool) (s : Chans) : Call → Prop
  | .chnOpen c => OpenCalm tvp c s
  | .chnClose c => CloseCalm c s
  | .setStreamMode c => ModeCalm c s

instance : (i : Call) → Decidable (Calm tvp s i)
  | .chnOpen c => inferInstanceAs (Decidable (OpenCalm tvp c s))
  | .chnClose c => inferInstanceAs (Decidable (CloseCalm c s))
  | .setStreamMode c => inferInstanceAs (Decidable (ModeCalm c s))

theorem Freed.nil : Freed [] := fun _ ho => absurd ho List.not_mem_nil

/-! ## The video channel -/

/-- An open video channel has its stream buffer, and a channel at the demux in TS mode; a closed one has none; the demux
    has no other video channel. -/
structure Vid.Sound (ts : Bool) (v : Vid) : Prop where
  opened : v.hVdec ≠ none → v.bufInit = true ∧ v.hDmxVid.isSome = ts
  closed : v.hVdec = none → v.hDmxVid = none
  exist : v.dmxVids = v.hDmxVid.toList

theorem Vid.Sound.right (hs : s.vid.Sound s.ts) : s.Right := by
  intro hopen
  obtain ⟨hbuf, hdmx⟩ := hs.opened hopen
  refine ⟨?_, hbuf⟩
  rw [hs.exist, ← hdmx]
  cases s.vid.hDmxVid with
  | none => simp
  | some h => simp

theorem freeVidChn_of_kept (hkeep : d.bufferDeInit = false) : freeVidChn ts d v = ⟨false, v, []⟩ := by
  unfold freeVidChn chanBufferDeInit Out.andThen
  rw [hkeep]
  rfl

/-- All calls succeed: the channel is gone. -/
theorem freeVidChn_of_frees (hs : v.Sound ts) (hfree : d.Frees ts) :
    (freeVidChn ts d v).ok = true ∧ (freeVidChn ts d v).state = ⟨none, none, false, []⟩ ∧
      (freeVidChn ts d v).events = v.hDmxVid.toList.map (fun h => .destroy (.dmxVid h)) ++
        v.hVdec.toList.map (fun h => .destroy (.vdec h)) := by
  obtain ⟨hde, hdmx, hvdec⟩ := hfree
  obtain ⟨hVdec, hDmxVid, bufInit, dmxVids⟩ := v
  obtain ⟨hopened, hclosed, hexist⟩ := hs
  unfold freeVidChn chanBufferDeInit freeVdec freeDmxVid Out.andThen Out.pure
  rw [hde, hvdec]
  cases ts with
  | true =>
    rw [hdmx rfl]
    cases hDmxVid with
    | none => simp_all
    | some h => simp_all
  | false =>
    have hnone : hDmxVid = none := by
      cases hVdec with
      | none => exact hclosed rfl
      | some h => simpa using (hopened (Option.some_ne_none h)).2
    simp_all

/-- All calls succeed: the channel is there. -/
theorem mallocVidChn_of_makes {c : VidMalloc} (hs : v.Sound ts) (hclosed : v.hVdec = none) (hmake : c.Makes tvp ts) :
    ∃ h, (mallocVidChn tvp ts c d v).ok = true ∧ (mallocVidChn tvp ts c d v).state.Sound ts ∧
      (mallocVidChn tvp ts c d v).state.hVdec = some h ∧
      (mallocVidChn tvp ts c d v).events =
        .create (.vdec h) :: (mallocVidChn tvp ts c d v).state.hDmxVid.toList.map fun k => .create (.dmxVid k) := by
  obtain ⟨halloc, hmid, hinit⟩ := hmake
  obtain ⟨h, halloc⟩ := Option.ne_none_iff_exists'.mp halloc
  have hnone : v.hDmxVid = none := hs.closed hclosed
  have hlist : v.dmxVids = [] := by rw [hs.exist, hnone]; rfl
  refine ⟨h, ?_⟩
  unfold mallocVidChn mallocVdec mallocDmxVid chanBufferInit Out.andThen Out.orUndo
  rw [halloc, hinit]
  cases ts with
  | true =>
    obtain ⟨k, hk⟩ := Option.ne_none_iff_exists'.mp hmid
    rw [hk]
    simp [hlist]
    exact ⟨fun _ => ⟨rfl, rfl⟩, fun hno => by simp at hno, rfl⟩
  | false =>
    have htvp : ¬ (tvp = true ∧ c.setTvp = false) := fun hno => by
      have hset := hmid hno.1
      rw [hno.2] at hset
      cases hset
    simp [htvp, hnone]
    exact ⟨fun _ => ⟨rfl, rfl⟩, fun hno => by simp at hno, hlist⟩

/-- A call fails, and what has been created is freed. -/
theorem mallocVidChn_of_clean {c : VidMalloc} (hs : v.Sound ts) (hclosed : v.hVdec = none) (hmake : ¬ c.Makes tvp ts)
    (hclean : c.Clean d tvp ts) :
    (mallocVidChn tvp ts c d v).ok = false ∧ (mallocVidChn tvp ts c d v).state.Sound ts ∧
      (mallocVidChn tvp ts c d v).state.hVdec = none ∧ Freed (mallocVidChn tvp ts c d v).events := by
  have hnone : v.hDmxVid = none := hs.closed hclosed
  have hlist : v.dmxVids = [] := by rw [hs.exist, hnone]; rfl
  unfold mallocVidChn mallocVdec mallocDmxVid chanBufferInit freeVdec freeDmxVid Out.andThen Out.orUndo
  cases halloc : c.vdecAlloc with
  | none => exact ⟨rfl, hs, hclosed, .nil⟩
  | some h =>
    have hsome : c.vdecAlloc ≠ none := by
      rw [halloc]
      exact Option.some_ne_none h
    obtain ⟨hfree, hmid⟩ := hclean.resolve_left hsome
    rw [hfree]
    cases ts with
    | true =>
      cases hk : c.dmxVidCreate with
      | none =>
        simp [Freed]
        exact ⟨fun hno => absurd rfl hno, fun _ => hnone, by simp [hlist, hnone]⟩
      | some k =>
        have hcreate : c.dmxVidCreate ≠ none := by
          rw [hk]
          exact Option.some_ne_none k
        have hdestroy : d.dmxVidDestroy = true := hmid.resolve_left hcreate
        have hinit : c.bufferInit = false := Bool.of_not_eq_true fun hinit => hmake ⟨hsome, hcreate, hinit⟩
        simp [Freed, hdestroy, hinit, hlist]
        exact ⟨fun hno => absurd rfl hno, fun _ => rfl, rfl⟩
    | false =>
      have htvp : ¬ (tvp = true ∧ c.setTvp = false) := fun hno => by
        have hset := hmid hno.1
        rw [hno.2] at hset
        cases hset
      have hinit : c.bufferInit = false := Bool.of_not_eq_true fun hinit => hmake ⟨hsome, hmid, hinit⟩
      simp [Freed, htvp, hinit]
      exact ⟨fun hno => absurd rfl hno, fun _ => hnone, by simp [hlist, hnone]⟩

/-- The part of `HI_MPI_AVPLAY_ChnOpen` about the video channel. -/
def openVid (tvp : Bool) (c : OpenCall) (s : Chans) : Out Vid :=
  if c.enChn.hasVid = true ∧ s.vid.hVdec = none then mallocVidChn tvp s.ts c.vidMalloc c.vidFree s.vid else .pure s.vid

/-- What the failed call does to the video channel, if it is one of those named. -/
def undoVid (named ts : Bool) (d : VidFree) (v : Vid) : Out Vid := if named then freeVidChn ts d v else .pure v

/-- After the part about the video channel the channel is as it was before, and open if it is one of those named, or the
    call has created it. -/
inductive VidDone (named ts : Bool) (before : Vid) : Out Vid → Prop
  | same (hs : before.Sound ts) (hopen : named = true → before.hVdec ≠ none) : VidDone named ts before (.pure before)
  | made {r : Out Vid} {h : Handle} (hnamed : named = true) (hclosed : before.hVdec = none) (hs : r.state.Sound ts)
      (hvdec : r.state.hVdec = some h)
      (hevents : r.events = .create (.vdec h) :: r.state.hDmxVid.toList.map fun k => .create (.dmxVid k)) :
      VidDone named ts before r

theorem VidDone.sound (hdone : VidDone named ts before r) : r.state.Sound ts := by
  cases hdone with
  | same hs hopen => exact hs
  | made hnamed hclosed hs hvdec hevents => exact hs

theorem openVid_done (hs : s.vid.Sound s.ts)
    (hmake : ¬ (c.enChn.hasVid = true ∧ s.vid.hVdec = none ∧ ¬ c.vidMalloc.Makes tvp s.ts)) :
    (openVid tvp c s).ok = true ∧ VidDone c.enChn.hasVid s.ts s.vid (openVid tvp c s) := by
  unfold openVid
  by_cases hnew : c.enChn.hasVid = true ∧ s.vid.hVdec = none
  · have hmakes : c.vidMalloc.Makes tvp s.ts := not_not.mp fun hno => hmake ⟨hnew.1, hnew.2, hno⟩
    obtain ⟨h, hok, hsound, hvdec, hevents⟩ := mallocVidChn_of_makes (d := c.vidFree) hs hnew.2 hmakes
    rw [if_pos hnew]
    exact ⟨hok, .made hnew.1 hnew.2 hsound hvdec hevents⟩
  · rw [if_neg hnew]
    exact ⟨rfl, .same hs fun hnamed hclosed => hnew ⟨hnamed, hclosed⟩⟩

/-- Undone as it should be. -/
theorem VidDone.undo (hdone : VidDone named ts before r)
    (hundo : named = true → UndoesVid d ts before) :
    (undoVid named ts d r.state).state.Sound ts ∧
      (before.hVdec ≠ none → (undoVid named ts d r.state).state.hVdec = before.hVdec ∧
        (undoVid named ts d r.state).state.hDmxVid = before.hDmxVid) ∧
      Freed (r.events ++ (undoVid named ts d r.state).events) := by
  unfold undoVid
  cases hdone with
  | same hs hopen =>
    cases named with
    | false => exact ⟨hs, fun _ => ⟨rfl, rfl⟩, .nil⟩
    | true =>
      have hkeep := hundo rfl
      unfold UndoesVid at hkeep
      rw [if_neg (hopen rfl)] at hkeep
      rw [if_pos rfl, freeVidChn_of_kept hkeep]
      exact ⟨hs, fun _ => ⟨rfl, rfl⟩, .nil⟩
  | @made r h hnamed hclosed hs hvdec hevents =>
    have hfree := hundo hnamed
    unfold UndoesVid at hfree
    rw [if_pos hclosed] at hfree
    obtain ⟨-, hstate, hev⟩ := freeVidChn_of_frees hs hfree
    rw [if_pos hnamed, hstate, hev, hevents, hvdec]
    refine ⟨⟨fun hno => absurd rfl hno, fun _ => rfl, rfl⟩, fun hopen => absurd hclosed hopen, ?_⟩
    cases r.state.hDmxVid with
    | none => simp [Freed]
    | some k => simp [Freed]

/-! ## The audio channel -/

/-- The part of `HI_MPI_AVPLAY_ChnOpen` about the audio channel. -/
def openAud (c : OpenCall) (s : Chans) : Out Aud :=
  if c.enChn.hasAud = true ∧ s.aud.hAdec = none then mallocAudChn s.ts c.audMalloc c.audFree s.aud else .pure s.aud

/-- What the failed call does to the audio channel, if it is one of those named. -/
def undoAud (named ts : Bool) (e : AudFree) (a : Aud) : Out Aud := if named then freeAudChn ts e a else .pure a

/-- After the part about the audio channel in TS mode the channel is as it was before, and open if it is one of those
    named, or the call has created it. -/
inductive AudDone (named : Bool) (before : Aud) : Out Aud → Prop
  | same (hopen : named = true → before.hAdec ≠ none) : AudDone named before (.pure before)
  | made {h k : Handle} (hnamed : named = true) (hclosed : before.hAdec = none) :
      AudDone named before ⟨true, ⟨some h, some k⟩, [.create (.adec h), .create (.dmxAud k)]⟩

theorem openAud_ok (hmake : ¬ (c.enChn.hasAud = true ∧ s.aud.hAdec = none ∧ ¬ c.audMalloc.Makes s.ts)) :
    (openAud c s).ok = true ∧ (s.ts = true → AudDone c.enChn.hasAud s.aud (openAud c s)) := by
  unfold openAud
  by_cases hnew : c.enChn.hasAud = true ∧ s.aud.hAdec = none
  · obtain ⟨hadec, hdmx⟩ : c.audMalloc.Makes s.ts := not_not.mp fun hno => hmake ⟨hnew.1, hnew.2, hno⟩
    obtain ⟨h, hh⟩ := Option.ne_none_iff_exists'.mp hadec
    rw [if_pos hnew]
    unfold mallocAudChn mallocAdec mallocDmxAud Out.andThen Out.orUndo Out.pure
    rw [hh]
    cases hts : s.ts with
    | false => exact ⟨rfl, fun hno => absurd hno Bool.noConfusion⟩
    | true =>
      obtain ⟨k, hk⟩ := Option.ne_none_iff_exists'.mp (hdmx hts)
      rw [hk]
      exact ⟨rfl, fun _ => .made hnew.1 hnew.2⟩
  · rw [if_neg hnew]
    exact ⟨rfl, fun _ => .same fun hnamed hclosed => hnew ⟨hnamed, hclosed⟩⟩

/-- A call fails, and the decoder is closed again. -/
theorem mallocAudChn_failed {c : AudMalloc} (hmake : ¬ c.Makes ts) (hclean : c.Clean e) :
    (mallocAudChn ts c e a).ok = false ∧ Freed (mallocAudChn ts c e a).events := by
  unfold mallocAudChn mallocAdec mallocDmxAud freeAdec Out.andThen Out.orUndo
  cases hadec : c.adecOpen with
  | none => exact ⟨rfl, .nil⟩
  | some h =>
    have hsome : c.adecOpen ≠ none := by simp [hadec]
    have hts : ts = true := Bool.of_not_eq_false fun hno => hmake ⟨hsome, by simp [hno]⟩
    have hnone : c.dmxAudCreate = none := not_not.mp fun hno => hmake ⟨hsome, fun _ => hno⟩
    rw [hts, hnone, hclean.resolve_left hsome]
    exact ⟨rfl, by simp [Freed]⟩

/-- Undone as it should be. -/
theorem AudDone.undo {before : Aud} {r : Out Aud} (hdone : AudDone named before r)
    (hundo : named = true → UndoesAud e before) :
    (before.hAdec ≠ none → (undoAud named true e r.state).state.hAdec = before.hAdec ∧
      (undoAud named true e r.state).state.hDmxAud = before.hDmxAud) ∧
      Freed (r.events ++ (undoAud named true e r.state).events) := by
  unfold undoAud
  cases hdone with
  | same hopen =>
    cases named with
    | false => exact ⟨fun _ => ⟨rfl, rfl⟩, .nil⟩
    | true =>
      have hkeep := hundo rfl
      unfold UndoesAud at hkeep
      rw [if_neg (hopen rfl)] at hkeep
      unfold freeAudChn freeDmxAud freeAdec Out.andThen Out.pure
      cases hdmx : before.hDmxAud with
      | none =>
        rw [if_pos hdmx] at hkeep
        simp [hdmx, hkeep, Freed]
      | some k =>
        rw [if_neg (by rw [hdmx]; exact Option.some_ne_none k)] at hkeep
        simp [hdmx, hkeep, Freed]
  | made hnamed hclosed =>
    have hfree := hundo hnamed
    unfold UndoesAud at hfree
    rw [if_pos hclosed] at hfree
    rw [if_pos hnamed]
    unfold freeAudChn freeDmxAud freeAdec Out.andThen Out.pure
    rw [hfree.1, hfree.2]
    exact ⟨fun hopen => absurd hclosed hopen, by simp [Freed]⟩

/-! ## Opening -/

theorem undoOpen_eq (c : OpenCall) (vid aud : Bool) :
    undoOpen c s vid aud es =
      ⟨false,
        { s with vid := (undoVid vid s.ts c.vidFree s.vid).state, aud := (undoAud aud s.ts c.audFree s.aud).state },
        es ++ (undoVid vid s.ts c.vidFree s.vid).events ++ (undoAud aud s.ts c.audFree s.aud).events⟩ := rfl

/-- The call by its parts. -/
theorem chnOpen_eq (hvalid : c.enChn.valid = true) :
    chnOpen tvp c s =
      if (openVid tvp c s).ok = false then ⟨false, { s with vid := (openVid tvp c s).state }, (openVid tvp c s).events⟩
      else if (openAud c s).ok = false then
        undoOpen c { s with vid := (openVid tvp c s).state, aud := (openAud c s).state } c.enChn.hasVid false
          ((openVid tvp c s).events ++ (openAud c s).events)
      else
        openPcr c { s with vid := (openVid tvp c s).state, aud := (openAud c s).state }
          ((openVid tvp c s).events ++ (openAud c s).events) := by
  unfold chnOpen
  rw [if_neg (by rw [hvalid]; exact Bool.noConfusion)]
  rfl

/-- The parts about the two channels, in the order of the code, are freed if each of them is. -/
theorem Freed.weave {us ws : List Event} (hvid : Freed (es ++ us)) (haud : Freed (fs ++ ws)) :
    Freed (es ++ fs ++ us ++ ws) := by
  intro o ho
  simp only [List.mem_append] at ho ⊢
  have hv := hvid o
  have ha := haud o
  simp only [List.mem_append] at hv ha
  tauto

/-- **A call that meets its condition is right.** -/
theorem chnOpen_right (hs : s.vid.Sound s.ts) (hcalm : OpenCalm tvp c s) :
    (chnOpen tvp c s).state.vid.Sound (chnOpen tvp c s).state.ts ∧ Opened.Right ⟨s, chnOpen tvp c s⟩ := by
  cases hvalid : c.enChn.valid with
  | false =>
    unfold chnOpen
    rw [if_pos hvalid]
    exact ⟨hs, fun _ => ⟨fun _ => ⟨rfl, rfl⟩, fun _ => ⟨rfl, rfl⟩, .nil⟩⟩
  | true =>
    unfold OpenCalm at hcalm
    rw [if_neg (by rw [hvalid]; exact Bool.noConfusion)] at hcalm
    rw [chnOpen_eq hvalid]
    by_cases hvid : c.enChn.hasVid = true ∧ s.vid.hVdec = none ∧ ¬ c.vidMalloc.Makes tvp s.ts
    · -- the video channel cannot be created
      rw [if_pos hvid] at hcalm
      obtain ⟨hok, hsound, -, hfreed⟩ := mallocVidChn_of_clean hs hvid.2.1 hvid.2.2 hcalm
      have heq : openVid tvp c s = mallocVidChn tvp s.ts c.vidMalloc c.vidFree s.vid := if_pos ⟨hvid.1, hvid.2.1⟩
      rw [heq, if_pos hok]
      exact ⟨hsound, fun _ => ⟨fun hopen => absurd hvid.2.1 hopen, fun _ => ⟨rfl, rfl⟩, hfreed⟩⟩
    · rw [if_neg hvid] at hcalm
      obtain ⟨hok, hdone⟩ := openVid_done hs hvid
      rw [if_neg (by rw [hok]; exact Bool.noConfusion)]
      by_cases haud : c.enChn.hasAud = true ∧ s.aud.hAdec = none ∧ ¬ c.audMalloc.Makes s.ts
      · -- the audio channel cannot be created
        rw [if_pos haud] at hcalm
        obtain ⟨hfail, hclean⟩ := mallocAudChn_failed (a := s.aud) haud.2.2 hcalm.1
        have heq : openAud c s = mallocAudChn s.ts c.audMalloc c.audFree s.aud := if_pos ⟨haud.1, haud.2.1⟩
        obtain ⟨hsound, hsame, hfreed⟩ := hdone.undo hcalm.2
        rw [heq, if_pos hfail, undoOpen_eq]
        refine ⟨hsound, fun _ => ⟨hsame, fun hopen => absurd haud.2.1 hopen, ?_⟩⟩
        refine hfreed.weave ?_
        show Freed (_ ++ [])
        rw [List.append_nil]
        exact hclean
      · rw [if_neg haud] at hcalm
        obtain ⟨hok, hdoneAud⟩ := openAud_ok haud
        rw [if_neg (by rw [hok]; exact Bool.noConfusion)]
        unfold openPcr
        by_cases hpcr : s.ts = true ∧ s.hDmxPcr = none
        · rw [if_pos hpcr]
          cases hcreate : c.pcrCreate with
          | some h =>
            exact ⟨hdone.sound, fun hno => absurd hno Bool.noConfusion⟩
          | none =>
            rw [if_pos ⟨hpcr.1, hpcr.2, hcreate⟩] at hcalm
            obtain ⟨hsound, hsame, hfreed⟩ := hdone.undo hcalm.1
            obtain ⟨hsameAud, hfreedAud⟩ := (hdoneAud hpcr.1).undo hcalm.2
            rw [← hpcr.1] at hsameAud hfreedAud
            rw [undoOpen_eq]
            exact ⟨hsound, fun _ => ⟨hsame, hsameAud, hfreed.weave hfreedAud⟩⟩
        · rw [if_neg hpcr]
          exact ⟨hdone.sound, fun hno => absurd hno Bool.noConfusion⟩

end HiSTB.Avplay.ChnOpen
