import HiSTB.Avplay.Correctness.Windows

/-!
# `Avplay.Correctness.Delivery` — every frame goes somewhere, once

When the next package is fetched, each frame of the last one is to be with its window or back at the decoder.

* `Held` — what has become of the frames of the package that is held, by the counts and flags;
* `VidCalm` — the passes that lose no frame and give none away twice;
* `run_disposes` — in calm runs each frame has been disposed of when the next package is fetched.
-/

namespace HiSTB.Avplay

open Lib

variable {u : Handle → VoRet} {e : VidEvent} {stay : Prop} {pack : FramePackage}

/-- The events since the last package was fetched. -/
def since (es : List VidEvent) : List VidEvent :=
  es.foldl (fun acc e => match e with | .received _ => [] | e => acc ++ [e]) []

/-- The frame has been shown: the package has been played at least once. -/
def Played (W : Windows) (es : List VidEvent) (s : VidState) (f : Frame) : Prop :=
  if s.frcCurPlayCnt = 0 then Untouched es f else Taken W es f

/-- While a package is held: the virtual windows have their frames once these were sent, and the master and the slaves
    once the package was played. -/
structure Held (W : Windows) (es : List VidEvent) (s : VidState) : Prop where
  fits : W.Fits s.curFrmPack
  vir : ∀ f ∈ s.curFrmPack.frames, IsVir W f → if s.bSendedFrmToVirWin then Taken W es f else Untouched es f
  shown : ∀ f ∈ s.curFrmPack.frames, IsMaster W f ∨ IsSlave W f → Played W es s f
  count : s.frcCurPlayCnt = 0 ∨ s.frcCurPlayCnt < s.frcNeedPlayCnt
  sync : s.frcCurPlayCnt ≠ 0 → s.syncProc = .procPlay ∨ s.syncProc = .procQuickoutput
  alone : W.masterFrame s.curFrmPack.frames = none → s.frcNeedPlayCnt = 1 ∧ s.frcCurPlayCnt = 0

/-- Every frame of the package has been disposed of. -/
def AllDisposed (W : Windows) (es : List VidEvent) (s : VidState) : Prop := ∀ f ∈ s.curFrmPack.frames, Disposed W es f

/-- A package that is held is accounted for, and one that is no longer held has been disposed of. -/
def Settled (W : Windows) (es : List VidEvent) (s : VidState) : Prop :=
  (s.procData = true → Held W es s) ∧ (s.procData = false → AllDisposed W es s)

/-! ## Calm passes -/

section Calm

variable (W : Windows) (s : VidState) (p : VidPass)

/-- Each slave takes its frame, to be shown or as useless. -/
def SlavesTake : Prop :=
  ∀ vg ∈ W.served W.slaves s.curFrmPack.frames, p.queue vg.1 = .success ∨ p.queueUseless vg.1 = .success

/-- Each slave takes its frame to show it. -/
def SlavesShow : Prop := ∀ vg ∈ W.served W.slaves s.curFrmPack.frames, p.queue vg.1 = .success

/-- With a master, each virtual window takes its frame, to be shown or as useless. Without one, either no virtual window
    takes its frame because all are full, and no step is asked for, or each takes its frame. -/
def VirCalm : Prop :=
  match W.master with
  | some _ => ∀ vg ∈ W.served W.virs s.curFrmPack.frames, p.queue vg.1 = .success ∨ p.queueUseless vg.1 = .success
  | none =>
    (∀ vg ∈ W.served W.virs s.curFrmPack.frames, p.queue vg.1 = .bufqueFull) ∧
      ¬ (p.stepMode = true ∧ p.stepPlay = true) ∨
      ∀ vg ∈ W.served W.virs s.curFrmPack.frames,
        p.queue vg.1 ≠ .bufqueFull ∧ (p.queue vg.1 = .success ∨ p.queueUseless vg.1 = .success)

/-- A package that is to be played again is not played with a slave's frame released, and a slave's frame that was
    played is not released. -/
def PlayCalm (last : Prop) (w : Handle) : Prop :=
  (s.frcCurPlayCnt = 0 → p.queue w = .success → ¬ last → SlavesTake W s p) ∧
    (s.frcCurPlayCnt = 1 → p.queue w = .failed → SlavesTake W s p)

/-- A package that is to be played no time is not left at its master, and a quick output reaches every slave. -/
def DeliverCalm (w : Handle) : Prop :=
  match s.syncProc with
  | .procPlay => (s.frcNeedPlayCnt = 0 → p.queue w ≠ .bufqueFull) ∧ PlayCalm W s p (s.frcNeedPlayCnt ≤ 1) w
  | .procQuickoutput =>
    (s.frcNeedPlayCnt = 0 → p.queue w ≠ .bufqueFull) ∧
      (s.frcCurPlayCnt = 0 → p.queue w = .success → SlavesShow W s p)
  | .procRepeat => s.frcNeedPlayCnt ≠ 0
  | .procDiscard => s.frcNeedPlayCnt = 0 → p.queueUseless w ≠ .bufqueFull

/-- The state that `VidOpt.SyncProc` is read in. -/
def judged : VidState := if s.frcCurPlayCnt = 0 then procVidSync W s p else s

/-- A step finds the master not full; a package without the master's frame is not stepped over while a slave waits for
    its frame. -/
def OutCalm : Prop :=
  match W.masterFrame s.curFrmPack.frames with
  | none => p.stepMode = true → p.stepPlay = true → W.served W.slaves s.curFrmPack.frames = []
  | some (w, _) =>
    if p.stepMode then p.stepPlay = true → p.queue w ≠ .bufqueFull ∧ PlayCalm W s p True w
    else DeliverCalm W (judged W s p) p w

/-- The pass loses no frame and gives none away twice. -/
def VidCalm : Prop :=
  p.vidEnable = true → p.curStatus ≠ .pause → (receiveVid W s p).1.procData = true →
    ((receiveVid W s p).1.bSendedFrmToVirWin = false → VirCalm W (receiveVid W s p).1 p) ∧
      OutCalm W (sendToVir W (receiveVid W s p).1 p).1 p

end Calm

variable {W : Windows} {s t : VidState} {p : VidPass} {es fs : List VidEvent} {f : Frame} {w : Handle}

/-! ## The events of a package -/

/-- Not the fetch of a package. -/
def VidEvent.Inner : VidEvent → Prop
  | .received _ => False
  | _ => True

theorem since_append (h : ∀ e ∈ fs, e.Inner) : since (es ++ fs) = since es ++ fs := by
  induction fs using List.reverseRecOn with
  | nil => simp
  | append_singleton fs e ih =>
    have hfs := ih (fun e' he' => h e' (List.mem_append_left _ he'))
    have he : e.Inner := h e (List.mem_append_right _ (List.mem_singleton.mpr rfl))
    rw [← List.append_assoc, ← List.append_assoc, ← hfs, since, List.foldl_append]
    cases e with
    | received => exact he.elim
    | queued | useless | repeated | released => rfl

theorem since_received (pack : FramePackage) (h : ∀ e ∈ fs, e.Inner) : since (es ++ ([.received pack] ++ fs)) = fs := by
  rw [← List.append_assoc, since_append h, since, List.foldl_append]
  rfl

/-! ## Rounds -/

theorem giveUp_about {v : Handle} {g : Frame} (he : e ∈ giveUp u v g)
    (habout : f.about e = true) : g = f := by
  unfold giveUp at he
  split at he
  · obtain rfl := List.mem_singleton.mp he
    exact of_decide_eq_true habout
  · obtain rfl := List.mem_singleton.mp he
    exact of_decide_eq_true habout

theorem giveUp_inner {v : Handle} {g : Frame} (he : e ∈ giveUp u v g) : e.Inner := by
  unfold giveUp at he
  split at he
  · obtain rfl := List.mem_singleton.mp he
    exact trivial
  · obtain rfl := List.mem_singleton.mp he
    exact trivial

/-- What the master is told, and then a round over the slaves. -/
structure Round (W : Windows) (s : VidState) (told : List VidEvent)
    (body : Handle × Frame → List VidEvent) (m : Frame) :
    Prop where
  fits : W.Fits s.curFrmPack
  mem : m ∈ s.curFrmPack.frames
  master : IsMaster W m
  told_about : ∀ f : Frame, ∀ e ∈ told, f.about e = true → m = f
  body_about : ∀ f : Frame, ∀ v g, ∀ e ∈ body (v, g), f.about e = true → g = f

/-- The events of a round. -/
def roundEvents (W : Windows) (s : VidState) (told : List VidEvent) (body : Handle × Frame → List VidEvent) :
    List VidEvent :=
  told ++ (W.served W.slaves s.curFrmPack.frames).flatMap body

variable {told : List VidEvent} {body : Handle × Frame → List VidEvent} {m : Frame}

theorem untouched_of_about (h : ∀ e ∈ fs, f.about e = true → m = f) (hne : m ≠ f) : Untouched fs f := by
  rw [Untouched, List.filter_eq_nil_iff]
  exact fun e he habout => hne (h e he habout)

theorem Round.filter_master (h : Round W s told body m) (hf : f ∈ s.curFrmPack.frames) (hm : IsMaster W f) :
    (roundEvents W s told body).filter f.about = told.filter f.about := by
  obtain ⟨c, hc, hw⟩ := hm
  have hnot : c.hWindow ∉ W.slaves.map FrmChn.hWindow := (W.master_not_other (Option.mem_def.mp hc)).1
  rw [roundEvents, List.filter_append, filter_served h.fits W.nodup_slaveWindows hf hw (h.body_about f), if_neg hnot,
    List.append_nil]

theorem Round.filter_slave (h : Round W s told body m) (hf : f ∈ s.curFrmPack.frames)
    (hw : W.getWindowByPort f.hport = some w)
    (hslave : w ∈ W.slaveWindows) : (roundEvents W s told body).filter f.about = (body (w, f)).filter f.about := by
  have hne : m ≠ f := by
    rintro rfl
    obtain ⟨c, hc, hcw⟩ := h.master
    obtain rfl := Option.some.inj (hcw.symm.trans hw)
    exact (W.master_not_other (Option.mem_def.mp hc)).1 hslave
  have htold : Untouched told f := untouched_of_about (h.told_about f) hne
  rw [roundEvents, htold.filter_append, filter_served h.fits W.nodup_slaveWindows hf hw (h.body_about f)]
  exact if_pos hslave

theorem Round.filter_vir (h : Round W s told body m) (hf : f ∈ s.curFrmPack.frames) (hvir : IsVir W f) :
    Untouched (roundEvents W s told body) f := by
  obtain ⟨w, hw, hport⟩ := hvir
  have hne : m ≠ f := by
    rintro rfl
    obtain ⟨c, hc, hcw⟩ := h.master
    obtain rfl := Option.some.inj (hcw.symm.trans hport)
    exact (W.master_not_other (Option.mem_def.mp hc)).2 hw
  have hnot : w ∉ W.slaveWindows := fun hslave => W.slave_not_vir hslave hw
  have htold : Untouched told f := untouched_of_about (h.told_about f) hne
  rw [Untouched, roundEvents, htold.filter_append, filter_served h.fits W.nodup_slaveWindows hf hport (h.body_about f)]
  exact if_neg hnot

theorem Windows.mem_served {chns : List FrmChn} {frames : List Frame} (hf : f ∈ frames)
    (hw : W.getWindowByPort f.hport = some w) (hmem : w ∈ chns.map FrmChn.hWindow) : (w, f) ∈ W.served chns frames := by
  obtain ⟨c, hc, rfl⟩ := List.mem_map.mp hmem
  refine List.mem_flatMap.mpr ⟨f, hf, List.mem_filterMap.mpr ⟨c, hc, ?_⟩⟩
  rw [if_pos hw]

theorem Round.eq_master (h : Round W s told body m) (hf : f ∈ s.curFrmPack.frames) (hm : IsMaster W f) : f = m := by
  obtain ⟨c, hc, hcw⟩ := hm
  obtain ⟨d, hd, hdw⟩ := h.master
  obtain rfl := Option.some.inj ((Option.mem_def.mp hc).symm.trans (Option.mem_def.mp hd))
  exact h.fits.frame_eq hf h.mem hcw hdw

/-- A round over frames that nothing has happened to; `P` is told by the events about a frame. -/
theorem Round.first (h : Round W s told body m) (hheld : Held W es s) (hvir : s.bSendedFrmToVirWin = true)
    (hzero : s.frcCurPlayCnt = 0) {P : List VidEvent → Frame → Prop}
    (hcongr : ∀ es fs f, es.filter f.about = fs.filter f.about → P fs f → P es f)
    (htaken : ∀ es f, Taken W es f → P es f)
    (htold : P told m)
    (hbody : ∀ v g, v ∈ W.slaveWindows → g ∈ s.curFrmPack.frames → W.getWindowByPort g.hport = some v →
      P (body (v, g)) g) :
    ∀ f ∈ s.curFrmPack.frames, P (es ++ roundEvents W s told body) f := by
  intro f hf
  rcases h.fits.kinds hf with hmaster | ⟨w, hslave, hw⟩ | hv
  · have hshown := hheld.shown f hf (Or.inl hmaster)
    rw [Played, if_pos hzero] at hshown
    obtain rfl := h.eq_master hf hmaster
    refine hcongr _ _ f ?_ htold
    rw [hshown.filter_append, h.filter_master hf hmaster]
  · have hshown := hheld.shown f hf (Or.inr ⟨w, hslave, hw⟩)
    rw [Played, if_pos hzero] at hshown
    refine hcongr _ _ f ?_ (hbody w f hslave hf hw)
    rw [hshown.filter_append, h.filter_slave hf hw hslave]
  · have htake := hheld.vir f hf hv
    rw [if_pos hvir] at htake
    exact htaken _ f (htake.after (h.filter_vir hf hv))

theorem Round.first_disposed (h : Round W s told body m) (hheld : Held W es s) (hvir : s.bSendedFrmToVirWin = true)
    (hzero : s.frcCurPlayCnt = 0) (htold : Disposed W told m)
    (hbody : ∀ v g, v ∈ W.slaveWindows → g ∈ s.curFrmPack.frames → W.getWindowByPort g.hport = some v →
      Disposed W (body (v, g)) g) : AllDisposed W (es ++ roundEvents W s told body) s := by
  refine h.first hheld hvir hzero ?_ (fun _ _ => Or.inl) htold hbody
  intro es fs f heq hfs
  rwa [← disposed_filter, heq, disposed_filter]

theorem Round.first_taken (h : Round W s told body m) (hheld : Held W es s) (hvir : s.bSendedFrmToVirWin = true)
    (hzero : s.frcCurPlayCnt = 0) (htold : Taken W told m)
    (hbody : ∀ v g, v ∈ W.slaveWindows → g ∈ s.curFrmPack.frames → W.getWindowByPort g.hport = some v →
      Taken W (body (v, g)) g) : ∀ f ∈ s.curFrmPack.frames, Taken W (es ++ roundEvents W s told body) f := by
  refine h.first hheld hvir hzero ?_ (fun _ _ => id) htold hbody
  intro es fs f heq hfs
  rwa [← taken_filter, heq, taken_filter]

theorem Taken.more (h : Taken W es f) (h' : Taken W fs f ∨ Untouched fs f) : Taken W (es ++ fs) f := by
  rcases h' with htake | hnone
  · exact h.append htake
  · exact h.after hnone

theorem taken_or_untouched_of_filter {gs : List VidEvent} (heq : fs.filter f.about = gs.filter f.about)
    (h : Taken W gs f ∨ Untouched gs f) : Taken W fs f ∨ Untouched fs f := by
  rcases h with htake | hnone
  · left
    rwa [← taken_filter, heq, taken_filter]
  · right
    rw [Untouched, heq]
    exact hnone

/-- A round over frames that all windows have already. -/
theorem Round.again (h : Round W s told body m) (hheld : Held W es s) (hvir : s.bSendedFrmToVirWin = true)
    (hplayed : s.frcCurPlayCnt ≠ 0) (htold : Taken W told m ∨ Untouched told m)
    (hbody : ∀ v g, v ∈ W.slaveWindows → g ∈ s.curFrmPack.frames → W.getWindowByPort g.hport = some v →
      Taken W (body (v, g)) g ∨ Untouched (body (v, g)) g) :
    ∀ f ∈ s.curFrmPack.frames, Taken W (es ++ roundEvents W s told body) f := by
  intro f hf
  rcases h.fits.kinds hf with hmaster | ⟨w, hslave, hw⟩ | hv
  · have hshown := hheld.shown f hf (Or.inl hmaster)
    rw [Played, if_neg hplayed] at hshown
    obtain rfl := h.eq_master hf hmaster
    exact hshown.more (taken_or_untouched_of_filter (h.filter_master hf hmaster) htold)
  · have hshown := hheld.shown f hf (Or.inr ⟨w, hslave, hw⟩)
    rw [Played, if_neg hplayed] at hshown
    exact hshown.more (taken_or_untouched_of_filter (h.filter_slave hf hw hslave) (hbody w f hslave hf hw))
  · have htake := hheld.vir f hf hv
    rw [if_pos hvir] at htake
    exact htake.after (h.filter_vir hf hv)

/-! ## What a slave is told -/

/-- The round of one slave at count `n`. -/
def slaveBody (p : VidPass) (early : BitVec 32 → Bool) (n : BitVec 32) (wf : Handle × Frame) : List VidEvent :=
  if p.queue wf.1 = .success then [.queued wf.1 wf.2]
  else if early n then giveUp p.queueUseless wf.1 wf.2
  else []

variable {early : BitVec 32 → Bool} {n : BitVec 32} {v : Handle} {g : Frame}

theorem slaveBody_about (he : e ∈ slaveBody p early n (v, g)) (habout : f.about e = true) : g = f := by
  unfold slaveBody at he
  split at he
  · obtain rfl := List.mem_singleton.mp he
    exact of_decide_eq_true habout
  · split at he
    · exact giveUp_about he habout
    · cases he

theorem slaveBody_disposed (hearly : early n = true ∨ p.queue v = .success) (hw : W.getWindowByPort g.hport = some v) :
    Disposed W (slaveBody p early n (v, g)) g := by
  unfold slaveBody
  by_cases hq : p.queue v = .success
  · rw [if_pos hq]
    exact Or.inl (taken_queued hw)
  · rw [if_neg hq, if_pos (hearly.resolve_right hq)]
    exact disposed_giveUp _ hw

theorem slaveBody_late (hlate : early n = false ∨ p.queue v = .success ∨ p.queueUseless v = .success)
    (hw : W.getWindowByPort g.hport = some v) :
    Taken W (slaveBody p early n (v, g)) g ∨ Untouched (slaveBody p early n (v, g)) g := by
  unfold slaveBody
  by_cases hq : p.queue v = .success
  · rw [if_pos hq]
    exact Or.inl (taken_queued hw)
  · rw [if_neg hq]
    cases hn : early n with
    | false => exact Or.inr Untouched.nil
    | true =>
      have hu : p.queueUseless v = .success := by simpa [hn, hq] using hlate
      exact Or.inl (taken_giveUp hu hw)

theorem slaveBody_taken (htake : p.queue v = .success ∨ early n = true ∧ p.queueUseless v = .success)
    (hw : W.getWindowByPort g.hport = some v) : Taken W (slaveBody p early n (v, g)) g := by
  unfold slaveBody
  by_cases hq : p.queue v = .success
  · rw [if_pos hq]
    exact taken_queued hw
  · obtain ⟨hn, hu⟩ := htake.resolve_left hq
    rw [if_neg hq, if_pos hn]
    exact taken_giveUp hu hw

/-! ## Playing and discarding -/

/-- The package, its flags and its count to be reached are as before. -/
structure SamePackage (s t : VidState) : Prop where
  pack : t.curFrmPack = s.curFrmPack
  sended : t.bSendedFrmToVirWin = s.bSendedFrmToVirWin
  need : t.frcNeedPlayCnt = s.frcNeedPlayCnt
  sync : t.syncProc = s.syncProc

/-- How a delivery ends: nothing has happened, because a queue was `full`; the package was shown once more, by a
    delivery that `shows`, and if it is to `stay`, every window has its frame; or it is over, and every frame has been
    disposed of. -/
inductive VidOutcome (W : Windows) (es : List VidEvent) (s : VidState) (full shows stay : Prop)
    (r : VidState × List VidEvent) : Prop
  | kept (hfull : full) (hstate : r.1 = s) (hevents : ∀ f, Untouched r.2 f)
  | shown (hshows : shows) (hsame : SamePackage s r.1) (hproc : r.1.procData = s.procData)
      (hcount : r.1.frcCurPlayCnt = s.frcCurPlayCnt + 1)
      (hall : AllDisposed W (es ++ r.2) s) (htaken : stay → ∀ f ∈ s.curFrmPack.frames, Taken W (es ++ r.2) f)
  | gone (hsame : SamePackage s r.1) (hproc : r.1.procData = false ∨ r.1.frcCurPlayCnt = s.frcNeedPlayCnt)
      (hall : AllDisposed W (es ++ r.2) s)

theorem allDisposed_of_taken (h : ∀ f ∈ s.curFrmPack.frames, Taken W es f) : AllDisposed W es s :=
  fun f hf => Or.inl (h f hf)

theorem Windows.Fits.round (h : W.Fits s.curFrmPack) (hm : W.masterFrame s.curFrmPack.frames = some (w, m))
    (htold : ∀ f : Frame, ∀ e ∈ told, f.about e = true → m = f)
    (hbody : ∀ f : Frame, ∀ v g, ∀ e ∈ body (v, g), f.about e = true → g = f) : Round W s told body m := by
  obtain ⟨c, hc, rfl, hmem, hw⟩ := W.masterFrame_some hm
  exact ⟨h, hmem, ⟨c, hc, hw⟩, htold, hbody⟩

theorem Windows.Fits.round_shown (h : W.Fits s.curFrmPack) (hm : W.masterFrame s.curFrmPack.frames = some (w, m)) :
    Round W s [.queued w m] (slaveBody p early n) m := by
  refine h.round hm (fun _ e he habout => ?_) (fun _ _ _ _ he habout => slaveBody_about he habout)
  obtain rfl := List.mem_singleton.mp he
  exact of_decide_eq_true habout

/-- The master's frame is released if it was not played, and the slaves are served. -/
theorem Windows.Fits.round_failed (h : W.Fits s.curFrmPack) (hm : W.masterFrame s.curFrmPack.frames = some (w, m)) :
    Round W s (if s.frcCurPlayCnt = 0 then [.released m] else []) (slaveBody p early n) m := by
  refine h.round hm (fun _ e he habout => ?_) (fun _ _ _ _ he habout => slaveBody_about he habout)
  split at he
  · obtain rfl := List.mem_singleton.mp he
    exact of_decide_eq_true habout
  · cases he

theorem Windows.Fits.round_giveUp (h : W.Fits s.curFrmPack) (hm : W.masterFrame s.curFrmPack.frames = some (w, m))
    (u : Handle → VoRet) : Round W s (giveUp u w m) (fun wf => giveUp u wf.1 wf.2) m :=
  h.round hm (fun _ _ he habout => giveUp_about he habout) (fun _ _ _ _ he habout => giveUp_about he habout)

theorem Windows.masterFrame_window (hm : W.masterFrame s.curFrmPack.frames = some (w, m)) :
    W.getWindowByPort m.hport = some w := by
  obtain ⟨c, -, -, -, hw⟩ := W.masterFrame_some hm
  exact hw

/-- **`AVPLAY_ProcVidPlay` and `AVPLAY_ProcVidQuickOutput`**, by what the slaves answer. -/
theorem queueOut_outcome (h : Held W es s) (hvir : s.bSendedFrmToVirWin = true)
    (hm : W.masterFrame s.curFrmPack.frames = some (w, m)) (hstay : s.frcCurPlayCnt = 0 → stay →
      p.queue w = .success → ∀ v g, (v, g) ∈ W.served W.slaves s.curFrmPack.frames →
        p.queue v = .success ∨ early 1 = true ∧ p.queueUseless v = .success)
    (hfirst : early 0 = true)
    (hshow : s.frcCurPlayCnt = 0 → p.queue w = .success → ∀ v g, (v, g) ∈ W.served W.slaves s.curFrmPack.frames →
      early 1 = true ∨ p.queue v = .success)
    (hagain : s.frcCurPlayCnt = 1 → p.queue w = .failed → ∀ v g, (v, g) ∈ W.served W.slaves s.curFrmPack.frames →
      early 1 = false ∨ p.queue v = .success ∨ p.queueUseless v = .success)
    (hlate : ∀ n : BitVec 32, n ≠ 0 → n ≠ 1 → early n = false) :
    VidOutcome W es s (p.queue w = .bufqueFull) True stay (queueOut W s p early) := by
  have hown := W.masterFrame_window hm
  unfold queueOut
  rw [hm]
  dsimp only
  cases hq : p.queue w with
  | bufqueFull => exact .kept rfl rfl (fun f => Untouched.nil)
  | success =>
    have hround : Round W s [.queued w m] (slaveBody p early (s.frcCurPlayCnt + 1)) m := h.fits.round_shown hm
    by_cases hzero : s.frcCurPlayCnt = 0
    · have hone : s.frcCurPlayCnt + 1 = 1 := by rw [hzero]; rfl
      refine .shown trivial ⟨rfl, rfl, rfl, rfl⟩ rfl rfl ?_ ?_
      · refine hround.first_disposed h hvir hzero (Or.inl (taken_queued hown)) ?_
        intro v g hv hg hgw
        rw [hone]
        exact slaveBody_disposed (hshow hzero hq v g (W.mem_served hg hgw hv)) hgw
      · intro hst
        refine hround.first_taken h hvir hzero (taken_queued hown) ?_
        intro v g hv hg hgw
        rw [hone]
        exact slaveBody_taken (hstay hzero hst hq v g (W.mem_served hg hgw hv)) hgw
    · have hnext0 : s.frcCurPlayCnt + 1 ≠ 0 := by
        have hcount := h.count.resolve_left hzero
        bv_omega
      have hnext1 : s.frcCurPlayCnt + 1 ≠ 1 := by
        intro heq
        apply hzero
        bv_omega
      have htaken := hround.again h hvir hzero (Or.inl (taken_queued hown))
        (fun v g _ _ hgw => slaveBody_late (Or.inl (hlate _ hnext0 hnext1)) hgw)
      exact .shown trivial ⟨rfl, rfl, rfl, rfl⟩ rfl rfl (allDisposed_of_taken htaken) (fun _ => htaken)
  | failed =>
    have hround : Round W s (if s.frcCurPlayCnt = 0 then [.released m] else []) (slaveBody p early s.frcCurPlayCnt) m :=
      h.fits.round_failed hm
    by_cases hzero : s.frcCurPlayCnt = 0
    · refine .gone ⟨rfl, rfl, rfl, rfl⟩ (Or.inl rfl) (hround.first_disposed h hvir hzero ?_ ?_)
      · rw [if_pos hzero]
        exact Or.inr returned_released
      · intro v g _ _ hgw
        rw [hzero]
        exact slaveBody_disposed (Or.inl hfirst) hgw
    · have htaken := hround.again h hvir hzero (by rw [if_neg hzero]; exact Or.inr Untouched.nil) (by
        intro v g hv hg hgw
        by_cases hone : s.frcCurPlayCnt = 1
        · rw [hone]
          exact slaveBody_late (hagain hone hq v g (W.mem_served hg hgw hv)) hgw
        · exact slaveBody_late (Or.inl (hlate _ hzero hone)) hgw)
      exact .gone ⟨rfl, rfl, rfl, rfl⟩ (Or.inl rfl) (allDisposed_of_taken htaken)

theorem procVidPlay_outcome (h : Held W es s) (hvir : s.bSendedFrmToVirWin = true)
    (hm : W.masterFrame s.curFrmPack.frames = some (w, m)) {last : Prop} (hC : PlayCalm W s p last w) :
    VidOutcome W es s (p.queue w = .bufqueFull) True (¬ last) (procVidPlay W s p) := by
  refine queueOut_outcome h hvir hm ?_ rfl (fun _ _ _ _ _ => Or.inl rfl) ?_ ?_
  · intro hzero hstay hq v g hvg
    exact (hC.1 hzero hq hstay (v, g) hvg).imp_right (fun hu => ⟨rfl, hu⟩)
  · intro hone hq v g hvg
    exact Or.inr (hC.2 hone hq (v, g) hvg)
  · intro n h0 h1
    show (decide (n = 0) || decide (n = 1)) = false
    rw [decide_eq_false h0, decide_eq_false h1]
    rfl

theorem procVidQuickOutput_outcome (h : Held W es s) (hvir : s.bSendedFrmToVirWin = true)
    (hm : W.masterFrame s.curFrmPack.frames = some (w, m))
    (hC : s.frcCurPlayCnt = 0 → p.queue w = .success → SlavesShow W s p) :
    VidOutcome W es s (p.queue w = .bufqueFull) True True (procVidQuickOutput W s p) := by
  refine queueOut_outcome h hvir hm ?_ rfl ?_ ?_ ?_
  · exact fun hzero _ hq v g hvg => Or.inl (hC hzero hq (v, g) hvg)
  · exact fun hzero hq v g hvg => Or.inr (hC hzero hq (v, g) hvg)
  · exact fun _ _ _ _ _ => Or.inl rfl
  · exact fun n h0 _ => decide_eq_false h0

theorem procVidDiscard_outcome (h : Held W es s) (hvir : s.bSendedFrmToVirWin = true)
    (hm : W.masterFrame s.curFrmPack.frames = some (w, m)) (hzero : s.frcCurPlayCnt = 0) :
    VidOutcome W es s (p.queueUseless w = .bufqueFull) False False (procVidDiscard W s p) := by
  unfold procVidDiscard
  rw [hm]
  dsimp only
  split
  · rename_i hfull
    exact .kept hfull rfl (fun f => Untouched.nil)
  · have hround := h.fits.round_giveUp hm p.queueUseless
    exact .gone ⟨rfl, rfl, rfl, rfl⟩ (Or.inr rfl)
      (hround.first_disposed h hvir hzero (disposed_giveUp _ (W.masterFrame_window hm)) (fun v g _ _ hgw =>
        disposed_giveUp _ hgw))

theorem procVidRepeat_untouched (W : Windows) (s : VidState) (p : VidPass) (f : Frame) :
    Untouched (procVidRepeat W s p) f := by
  have hnone (w : Handle) (g : Frame) (es : List VidEvent) (h : Untouched es f) : Untouched (.repeated w g :: es) f := h
  unfold procVidRepeat
  dsimp only
  split
  · exact Untouched.nil
  · split
    · exact Untouched.nil
    · split
      · exact Untouched.nil
      · apply hnone
        rw [Untouched, List.filter_eq_nil_iff]
        intro e he
        obtain ⟨q, -, he⟩ := List.mem_flatMap.mp he
        obtain ⟨c, -, he⟩ := List.mem_flatMap.mp he
        split at he
        · obtain rfl := List.mem_singleton.mp he
          simp [Frame.about]
        · cases he

/-! ## The end of a pass -/

theorem Played.more (h : Played W es s f) (hnone : Untouched fs f) : Played W (es ++ fs) s f := by
  unfold Played at h ⊢
  split
  · rename_i hzero
    rw [if_pos hzero] at h
    exact h.append hnone
  · rename_i hzero
    rw [if_neg hzero] at h
    exact h.after hnone

/-- Nothing has happened to the package. -/
theorem Held.untouched (h : Held W es s) (hvir : s.bSendedFrmToVirWin = true) (hevents : ∀ f, Untouched fs f) :
    Held W (es ++ fs) s := by
  refine ⟨h.fits, ?_, fun f hf hk => (h.shown f hf hk).more (hevents f), h.count, h.sync, h.alone⟩
  intro f hf hv
  have hold := h.vir f hf hv
  rw [if_pos hvir] at hold ⊢
  exact hold.after (hevents f)

/-- The package was shown once more, and it is to be shown again. -/
theorem Held.again (h : Held W es s) (hvir : s.bSendedFrmToVirWin = true) (hsame : SamePackage s t)
    (hcount : t.frcCurPlayCnt = s.frcCurPlayCnt + 1) (hmore : ¬ s.frcNeedPlayCnt ≤ s.frcCurPlayCnt + 1)
    (hsync : s.syncProc = .procPlay ∨ s.syncProc = .procQuickoutput)
    (hmaster : W.masterFrame s.curFrmPack.frames ≠ none) (htake : ∀ f ∈ s.curFrmPack.frames, Taken W (es ++ fs) f) :
    Held W (es ++ fs) t := by
  have hnext : s.frcCurPlayCnt + 1 ≠ 0 := by
    rcases h.count with hzero | hlt
    · rw [hzero]
      decide
    · bv_omega
  constructor
  · rw [hsame.pack]
    exact h.fits
  · rw [hsame.pack, hsame.sended]
    intro f hf _
    rw [if_pos hvir]
    exact htake f hf
  · rw [hsame.pack]
    intro f hf _
    rw [Played, hcount, if_neg hnext]
    exact htake f hf
  · rw [hcount, hsame.need]
    right
    bv_omega
  · rw [hsame.sync]
    exact fun _ => hsync
  · rw [hsame.pack]
    exact fun hnone => absurd hnone hmaster

theorem Held.withSync (h : Held W es s) (hzero : s.frcCurPlayCnt = 0) (proc : SyncProc) :
    Held W es { s with syncProc := proc } :=
  ⟨h.fits, h.vir, h.shown, h.count, fun hplayed => absurd hzero hplayed, h.alone⟩

/-- After a delivery: a package that is over has been disposed of, one that is to be shown again is accounted for. -/
theorem VidOutcome.settles {full shows : Prop} {r : VidState × List VidEvent}
    (hout : VidOutcome W es s full shows stay r) (h : Held W es s) (hvir : s.bSendedFrmToVirWin = true)
    (hproc : s.procData = true) (hfull : full → s.frcNeedPlayCnt ≠ 0)
    (hshow : shows → (¬ s.frcNeedPlayCnt ≤ s.frcCurPlayCnt + 1 → stay) ∧
      (s.syncProc = .procPlay ∨ s.syncProc = .procQuickoutput)) (hmaster : W.masterFrame s.curFrmPack.frames ≠ none) :
    Settled W (es ++ r.2)
      (if r.1.frcNeedPlayCnt ≤ r.1.frcCurPlayCnt then ({ r.1 with procData := false }, r.2) else r).1 := by
  cases hout with
  | kept hf hstate hevents =>
    have hneed := hfull hf
    have hmore : ¬ s.frcNeedPlayCnt ≤ s.frcCurPlayCnt := by
      rcases h.count with hzero | hlt
      · rw [hzero]
        bv_omega
      · bv_omega
    rw [hstate, if_neg hmore, hstate]
    refine ⟨fun _ => h.untouched hvir hevents, fun hno => ?_⟩
    cases hproc.symm.trans hno
  | shown hshows hsame hproc' hcount hall htaken =>
    rw [hsame.need, hcount]
    split
    · refine ⟨fun hyes => ?_, fun _ => ?_⟩
      · cases hyes
      · unfold AllDisposed
        rw [hsame.pack]
        exact hall
    · rename_i hmore
      refine ⟨fun _ => ?_, fun hno => ?_⟩
      · exact h.again hvir hsame hcount hmore (hshow hshows).2 hmaster (htaken ((hshow hshows).1 hmore))
      · rw [hproc'] at hno
        cases hproc.symm.trans hno
  | gone hsame hproc' hall =>
    have hover : (if r.1.frcNeedPlayCnt ≤ r.1.frcCurPlayCnt then ({ r.1 with procData := false }, r.2)
      else r).1.procData =
        false := by
      split
      · rfl
      · rename_i hmore
        rcases hproc' with hover | hcount
        · exact hover
        · rw [hcount, hsame.need] at hmore
          exact absurd (by bv_omega) hmore
    have hpack : (if r.1.frcNeedPlayCnt ≤ r.1.frcCurPlayCnt then ({ r.1 with procData := false }, r.2)
      else r).1.curFrmPack =
        s.curFrmPack := by
      split
      · exact hsame.pack
      · exact hsame.pack
    refine ⟨fun hyes => ?_, fun _ => ?_⟩
    · cases hover.symm.trans hyes
    · unfold AllDisposed
      rw [hpack]
      exact hall

theorem procVidSync_same (W : Windows) (s : VidState) (p : VidPass) :
    ∃ proc, procVidSync W s p = { s with syncProc := proc } := by
  unfold procVidSync
  split
  · exact ⟨_, rfl⟩
  · exact ⟨_, rfl⟩

theorem judged_same (W : Windows) (s : VidState)
    (p : VidPass) : ∃ proc, judged W s p = { s with syncProc := proc } := by
  unfold judged
  split
  · exact procVidSync_same W s p
  · exact ⟨s.syncProc, rfl⟩

theorem Held.judged (h : Held W es s) (p : VidPass) : Held W es (judged W s p) := by
  unfold Avplay.judged
  split
  · rename_i hzero
    obtain ⟨proc, heq⟩ := procVidSync_same W s p
    rw [heq]
    exact h.withSync hzero proc
  · exact h

theorem deliver_settles (h : Held W es s) (hvir : s.bSendedFrmToVirWin = true) (hproc : s.procData = true)
    (hm : W.masterFrame s.curFrmPack.frames = some (w, m)) (hC : DeliverCalm W (judged W s p) p w) :
    Settled W (es ++ (deliver W s p).2) (deliver W s p).1 := by
  have hj := h.judged p
  obtain ⟨proc, hsame⟩ := judged_same W s p
  have hjvir : (judged W s p).bSendedFrmToVirWin = true := by rw [hsame]; exact hvir
  have hjproc : (judged W s p).procData = true := by rw [hsame]; exact hproc
  have hjm : W.masterFrame (judged W s p).curFrmPack.frames = some (w, m) := by rw [hsame]; exact hm
  have hjne : W.masterFrame (judged W s p).curFrmPack.frames ≠ none := by rw [hjm]; exact Option.some_ne_none _
  unfold deliver
  rw [show (if s.frcCurPlayCnt = 0 then procVidSync W s p else s) = judged W s p from rfl]
  dsimp only
  revert hj hjvir hjproc hjm hjne hC
  generalize judged W s p = s
  intro hC h hvir hproc hm hne
  have hgo : s.frcCurPlayCnt < s.frcNeedPlayCnt ∨ s.frcNeedPlayCnt = 0 := by
    rcases h.count with hzero | hlt
    · rw [hzero]
      by_cases hneed : s.frcNeedPlayCnt = 0
      · exact Or.inr hneed
      · left
        bv_omega
    · exact Or.inl hlt
  rw [if_pos hgo]
  have hsettle : Settled W (es ++ (procSync W s p).2)
      (if (procSync W s p).1.frcNeedPlayCnt ≤ (procSync W s p).1.frcCurPlayCnt then
        ({ (procSync W s p).1 with procData := false }, (procSync W s p).2) else procSync W s p).1 := by
    unfold procSync
    unfold DeliverCalm at hC
    cases hsync : s.syncProc with
    | procPlay =>
      rw [hsync] at hC
      refine (procVidPlay_outcome h hvir hm hC.2).settles h hvir hproc (fun hfull hneed => hC.1 hneed hfull)
        (fun _ => ⟨?_, Or.inl hsync⟩) hne
      intro hmore hlast
      rcases h.count with hzero | hlt
      · rw [hzero] at hmore
        exact hmore hlast
      · bv_omega
    | procRepeat =>
      rw [hsync] at hC
      have hkept : VidOutcome W es s True False False (s, procVidRepeat W s p) :=
        .kept trivial rfl (procVidRepeat_untouched W s p)
      exact hkept.settles h hvir hproc (fun _ => hC) (fun hno => hno.elim) hne
    | procDiscard =>
      rw [hsync] at hC
      have hzero : s.frcCurPlayCnt = 0 := by
        by_contra hplayed
        rcases h.sync hplayed with hplay | hquick
        · cases hsync.symm.trans hplay
        · cases hsync.symm.trans hquick
      exact (procVidDiscard_outcome h hvir hm hzero).settles h hvir hproc (fun hfull hneed => hC hneed hfull)
        (fun hno => hno.elim) hne
    | procQuickoutput =>
      rw [hsync] at hC
      exact (procVidQuickOutput_outcome h hvir hm hC.2).settles h hvir hproc (fun hfull hneed => hC.1 hneed hfull)
        (fun _ => ⟨fun _ => trivial, Or.inr hsync⟩) hne
  split
  · rename_i hmore
    rw [if_pos hmore] at hsettle
    exact hsettle
  · rename_i hmore
    rw [if_neg hmore] at hsettle
    exact hsettle

theorem deliverStep_settles (h : Held W es s) (hvir : s.bSendedFrmToVirWin = true) (hproc : s.procData = true)
    (hm : W.masterFrame s.curFrmPack.frames = some (w, m))
    (hC : p.stepPlay = true → p.queue w ≠ .bufqueFull ∧ PlayCalm W s p True w) :
    Settled W (es ++ (deliverStep W s p).2) (deliverStep W s p).1 := by
  unfold deliverStep
  split
  · rename_i hstep
    obtain ⟨hroom, hplay⟩ := hC hstep
    refine ⟨fun hyes => ?_, fun _ => ?_⟩
    · cases hyes
    · cases procVidPlay_outcome h hvir hm hplay with
      | kept hfull => exact absurd hfull hroom
      | shown _ hsame _ _ hall =>
        unfold AllDisposed
        rw [show (_ : VidState).curFrmPack = s.curFrmPack from hsame.pack]
        exact hall
      | gone hsame _ hall =>
        unfold AllDisposed
        rw [show (_ : VidState).curFrmPack = s.curFrmPack from hsame.pack]
        exact hall
  · rw [List.append_nil]
    refine ⟨fun _ => h, fun hno => ?_⟩
    cases hproc.symm.trans hno

/-! ### A package without a frame for the master -/

theorem deliver_alone (hm : W.masterFrame s.curFrmPack.frames = none) (hneed : s.frcNeedPlayCnt = 1)
    (hcount : s.frcCurPlayCnt = 0) : deliver W s p = ({ s with syncProc := .procPlay }, []) := by
  unfold deliver procVidSync
  simp [hm, hneed, hcount, procSync, procVidPlay, queueOut]

theorem deliverStep_alone (hm : W.masterFrame s.curFrmPack.frames = none) :
    deliverStep W s p = (if p.stepPlay then { s with procData := false } else s, []) := by
  unfold deliverStep procVidPlay queueOut
  rw [hm]
  cases p.stepPlay with
  | true => rfl
  | false => rfl

/-- The end of a pass for a package without a frame for the master. -/
theorem alone_settles (h : Settled W es s) (hm : W.masterFrame s.curFrmPack.frames = none)
    (hneed : s.frcNeedPlayCnt = 1)
    (hcount : s.frcCurPlayCnt = 0) (hstep : p.stepMode = true → p.stepPlay = true → AllDisposed W es s) :
    Settled W (es ++ (if p.stepMode then deliverStep W s p else deliver W s p).2)
      (if p.stepMode then deliverStep W s p else deliver W s p).1 := by
  cases hmode : p.stepMode with
  | true =>
    rw [if_pos rfl, deliverStep_alone hm, List.append_nil]
    cases hplay : p.stepPlay with
    | true =>
      refine ⟨fun hyes => ?_, fun _ => hstep hmode hplay⟩
      cases hyes
    | false => exact h
  | false =>
    rw [if_neg (by simp), deliver_alone hm hneed hcount, List.append_nil]
    exact ⟨fun hyes => (h.1 hyes).withSync hcount .procPlay, h.2⟩

/-! ### The virtual windows -/

/-- What a virtual window is told beside a master. -/
def virBody (p : VidPass) (wf : Handle × Frame) : List VidEvent :=
  if p.queue wf.1 = .success then [.queued wf.1 wf.2]
  else if p.queueUseless wf.1 = .success then [.useless wf.1 wf.2] else []

/-- What a virtual window is told without a master. -/
def aloneBody (p : VidPass) (wf : Handle × Frame) : List VidEvent :=
  if p.queue wf.1 = .bufqueFull then [] else virBody p wf

theorem virBody_about (he : e ∈ virBody p (v, g)) (habout : f.about e = true) : g = f := by
  unfold virBody at he
  split at he
  · obtain rfl := List.mem_singleton.mp he
    exact of_decide_eq_true habout
  · split at he
    · obtain rfl := List.mem_singleton.mp he
      exact of_decide_eq_true habout
    · cases he

theorem aloneBody_about (he : e ∈ aloneBody p (v, g)) (habout : f.about e = true) : g = f := by
  unfold aloneBody at he
  split at he
  · cases he
  · exact virBody_about he habout

theorem virBody_taken (htake : p.queue v = .success ∨ p.queueUseless v = .success)
    (hw : W.getWindowByPort g.hport = some v) :
    Taken W (virBody p (v, g)) g := by
  unfold virBody
  by_cases hq : p.queue v = .success
  · rw [if_pos hq]
    exact taken_queued hw
  · rw [if_neg hq, if_pos (htake.resolve_left hq)]
    exact taken_useless hw

/-- The loop over the virtual windows without a master. -/
theorem foldl_sendVir (p : VidPass) (L : List (Handle × Frame)) (r : VidState × List VidEvent) :
    L.foldl (sendVir p) r = ({ r.1 with
          procData := r.1.procData && L.all fun wf => p.queue wf.1 = .bufqueFull
          bSendedFrmToVirWin := r.1.bSendedFrmToVirWin && L.all fun wf => p.queue wf.1 ≠ .bufqueFull },
        r.2 ++ L.flatMap (aloneBody p)) := by
  induction L generalizing r with
  | nil => simp
  | cons wf L ih =>
    rw [List.foldl_cons, ih]
    unfold sendVir aloneBody virBody
    cases hq : p.queue wf.1 with
    | success | failed | bufqueFull => simp [hq]

/-- A loop over the virtual windows is not about the frames of the master and the slaves. -/
theorem untouched_virs (h : W.Fits s.curFrmPack) (hbody : ∀ v g, ∀ e ∈ body (v, g), f.about e = true → g = f)
    (hf : f ∈ s.curFrmPack.frames) (hk : IsMaster W f ∨ IsSlave W f) :
    Untouched ((W.served W.virs s.curFrmPack.frames).flatMap body) f := by
  have hnot : ∃ w, W.getWindowByPort f.hport = some w ∧ w ∉ W.virWindows := by
    rcases hk with ⟨c, hc, hw⟩ | ⟨w, hslave, hw⟩
    · exact ⟨c.hWindow, hw, (W.master_not_other (Option.mem_def.mp hc)).2⟩
    · exact ⟨w, hw, W.slave_not_vir hslave⟩
  obtain ⟨w, hw, hnot⟩ := hnot
  rw [Untouched, filter_served h W.nodup_virWindows hf hw hbody]
  exact if_neg hnot

theorem taken_virs (h : W.Fits s.curFrmPack) (hbody : ∀ v g, ∀ e ∈ body (v, g), f.about e = true → g = f)
    (hf : f ∈ s.curFrmPack.frames) (hv : w ∈ W.virWindows) (hw : W.getWindowByPort f.hport = some w)
    (htake : Taken W (body (w, f)) f) : Taken W ((W.served W.virs s.curFrmPack.frames).flatMap body) f := by
  rw [← taken_filter, filter_served h W.nodup_virWindows hf hw hbody,
    if_pos (show w ∈ W.virs.map FrmChn.hWindow from hv),
    taken_filter]
  exact htake

/-- The virtual windows have their frames; nothing else has changed. -/
theorem Held.sendedToVir (h : Held W es s) (hbody : ∀ f : Frame, ∀ v g, ∀ e ∈ body (v, g), f.about e = true → g = f)
    (hnew : s.bSendedFrmToVirWin = false) (htake : ∀ v g, v ∈ W.virWindows → g ∈ s.curFrmPack.frames →
      W.getWindowByPort g.hport = some v → Taken W (body (v, g)) g) :
    Held W (es ++ (W.served W.virs s.curFrmPack.frames).flatMap body) { s with bSendedFrmToVirWin := true } := by
  constructor
  · exact h.fits
  · intro f hf hv
    have hold := h.vir f hf hv
    rw [if_neg (by simp [hnew])] at hold
    rw [if_pos rfl]
    obtain ⟨w, hvir, hw⟩ := hv
    exact (taken_virs h.fits (hbody f) hf hvir hw (htake w f hvir hf hw)).before hold
  · intro f hf hk
    have hold : Played W es { s with bSendedFrmToVirWin := true } f := h.shown f hf hk
    exact hold.more (untouched_virs h.fits (hbody f) hf hk)
  · exact h.count
  · exact h.sync
  · exact h.alone

theorem sendToVir_master (h : Held W es s) {c : FrmChn} (hc : W.master = some c)
    (hC : s.bSendedFrmToVirWin = false → VirCalm W s p) :
    Held W (es ++ (sendToVir W s p).2) (sendToVir W s p).1 ∧ (sendToVir W s p).1.bSendedFrmToVirWin = true ∧
      (sendToVir W s p).1.procData = s.procData := by
  unfold sendToVir
  split
  · rename_i hsent
    rw [List.append_nil]
    exact ⟨h, hsent, rfl⟩
  · rename_i hnew
    have hnew : s.bSendedFrmToVirWin = false := by simpa using hnew
    have hcalm := hC hnew
    unfold VirCalm at hcalm
    rw [hc] at hcalm
    unfold procFrmToVirWin
    rw [hc]
    refine ⟨?_, rfl, rfl⟩
    exact h.sendedToVir (fun f v g e he habout => virBody_about he habout) hnew
      (fun v g hv hg hw => virBody_taken (hcalm (v, g) (W.mem_served hg hw hv)) hw)

/-- Without a master and slaves every frame is for a virtual window. -/
theorem Windows.Fits.all_vir (h : W.Fits s.curFrmPack) (hmaster : W.master = none) (hslaves : W.slaves = [])
    (hf : f ∈ s.curFrmPack.frames) : IsVir W f := by
  rcases h.kinds hf with ⟨c, hc, -⟩ | ⟨w, hw, -⟩ | hv
  · rw [hmaster] at hc
    cases hc
  · rw [Windows.slaveWindows, hslaves] at hw
    cases hw
  · exact hv

theorem Held.all_taken (h : Held W es s) (hmaster : W.master = none) (hslaves : W.slaves = [])
    (hsent : s.bSendedFrmToVirWin = true) : ∀ f ∈ s.curFrmPack.frames, Taken W es f := by
  intro f hf
  have hold := h.vir f hf (h.fits.all_vir hmaster hslaves hf)
  rwa [if_pos hsent] at hold

theorem procFrmToVirWin_alone (hmaster : W.master = none) :
    procFrmToVirWin W s p = ({ s with
          procData := s.procData && (W.served W.virs s.curFrmPack.frames).all fun wf => p.queue wf.1 = .bufqueFull
          bSendedFrmToVirWin := (W.served W.virs s.curFrmPack.frames).all fun wf => p.queue wf.1 ≠ .bufqueFull },
        (W.served W.virs s.curFrmPack.frames).flatMap (aloneBody p)) := by
  unfold procFrmToVirWin
  rw [hmaster]
  dsimp only
  rw [foldl_sendVir, List.nil_append, Bool.true_and]

/-- All virtual windows are full: nothing has happened, and the frames are sent again on the next pass. -/
theorem alone_full (h : Held W es s) (hproc : s.procData = true) (hmaster : W.master = none)
    (hnew : s.bSendedFrmToVirWin = false)
    (hfull : ∀ vg ∈ W.served W.virs s.curFrmPack.frames, p.queue vg.1 = .bufqueFull) :
    Held W (es ++ (procFrmToVirWin W s p).2) (procFrmToVirWin W s p).1 ∧ (procFrmToVirWin W s p).1.procData = true := by
  have hevents : (W.served W.virs s.curFrmPack.frames).flatMap (aloneBody p) = [] := by
    rw [List.flatMap_eq_nil_iff]
    exact fun vg hvg => if_pos (hfull vg hvg)
  rw [procFrmToVirWin_alone hmaster, hevents, List.append_nil]
  refine ⟨?_, ?_⟩
  · constructor
    · exact h.fits
    · intro f hf hv
      have hold := h.vir f hf hv
      rw [if_neg (by simp [hnew])] at hold
      obtain ⟨w, hw, hport⟩ := hv
      have hserved := W.mem_served hf hport hw
      have hsent : ((W.served W.virs s.curFrmPack.frames).all fun wf => p.queue wf.1 ≠ .bufqueFull) = false := by
        rw [List.all_eq_false]
        exact ⟨(w, f), hserved, by simp [hfull (w, f) hserved]⟩
      rw [hsent, if_neg (by simp)]
      exact hold
    · exact h.shown
    · exact h.count
    · exact h.sync
    · exact h.alone
  · show (s.procData && _) = true
    rw [hproc, Bool.true_and, List.all_eq_true]
    exact fun vg hvg => decide_eq_true (hfull vg hvg)

/-- Every virtual window has its frame. -/
theorem alone_taken (h : Held W es s) (hmaster : W.master = none) (hslaves : W.slaves = [])
    (hnew : s.bSendedFrmToVirWin = false) (htake : ∀ vg ∈ W.served W.virs s.curFrmPack.frames,
      p.queue vg.1 ≠ .bufqueFull ∧ (p.queue vg.1 = .success ∨ p.queueUseless vg.1 = .success)) :
    Settled W (es ++ (procFrmToVirWin W s p).2) (procFrmToVirWin W s p).1 ∧
      AllDisposed W (es ++ (procFrmToVirWin W s p).2) (procFrmToVirWin W s p).1 := by
  have hsend := h.sendedToVir (fun f v g e he habout => aloneBody_about (p := p) he habout) hnew (by
    intro v g hv hg hw
    obtain ⟨hroom, hcalm⟩ := htake (v, g) (W.mem_served hg hw hv)
    rw [aloneBody, if_neg hroom]
    exact virBody_taken hcalm hw)
  have hsent : ((W.served W.virs s.curFrmPack.frames).all fun wf => p.queue wf.1 ≠ .bufqueFull) = true := by
    rw [List.all_eq_true]
    exact fun vg hvg => decide_eq_true (htake vg hvg).1
  have hall := allDisposed_of_taken (hsend.all_taken hmaster hslaves rfl)
  rw [procFrmToVirWin_alone hmaster, hsent]
  refine ⟨⟨fun _ => ?_, fun _ => hall⟩, hall⟩
  constructor
  · exact hsend.fits
  · exact hsend.vir
  · exact hsend.shown
  · exact hsend.count
  · exact hsend.sync
  · exact hsend.alone

theorem sendToVir_alone (h : Held W es s) (hproc : s.procData = true) (hmaster : W.master = none)
    (hslaves : W.slaves = [])
    (hC : s.bSendedFrmToVirWin = false → VirCalm W s p) :
    Settled W (es ++ (sendToVir W s p).2) (sendToVir W s p).1 ∧
      (p.stepMode = true → p.stepPlay = true → AllDisposed W (es ++ (sendToVir W s p).2) (sendToVir W s p).1) := by
  unfold sendToVir
  split
  · rename_i hsent
    rw [List.append_nil]
    refine ⟨⟨fun _ => h, fun hno => ?_⟩, fun _ _ => ?_⟩
    · cases hproc.symm.trans hno
    · exact allDisposed_of_taken (h.all_taken hmaster hslaves hsent)
  · rename_i hnew
    have hnew : s.bSendedFrmToVirWin = false := by simpa using hnew
    have hcalm := hC hnew
    unfold VirCalm at hcalm
    rw [hmaster] at hcalm
    rcases hcalm with ⟨hfull, hnostep⟩ | htake
    · obtain ⟨hheld, hstill⟩ := alone_full h hproc hmaster hnew hfull
      refine ⟨⟨fun _ => hheld, fun hno => ?_⟩, fun hmode hplay => absurd ⟨hmode, hplay⟩ hnostep⟩
      cases hstill.symm.trans hno
    · obtain ⟨hsettled, hall⟩ := alone_taken h hmaster hslaves hnew htake
      exact ⟨hsettled, fun _ _ => hall⟩

theorem sendToVir_same (W : Windows) (s : VidState) (p : VidPass) :
    (sendToVir W s p).1.curFrmPack = s.curFrmPack ∧ (sendToVir W s p).1.frcNeedPlayCnt = s.frcNeedPlayCnt ∧
      (sendToVir W s p).1.frcCurPlayCnt = s.frcCurPlayCnt := by
  unfold sendToVir
  split
  · exact ⟨rfl, rfl, rfl⟩
  · cases hmaster : W.master with
    | some c =>
      unfold procFrmToVirWin
      rw [hmaster]
      exact ⟨rfl, rfl, rfl⟩
    | none =>
      rw [procFrmToVirWin_alone hmaster]
      exact ⟨rfl, rfl, rfl⟩

/-! ## Passes and runs -/

/-- What follows the fetch of a package in a pass. -/
def passOn (W : Windows) (s : VidState) (p : VidPass) : VidState × List VidEvent :=
  let v := sendToVir W s p
  let q := if p.stepMode then deliverStep W v.1 p else deliver W v.1 p
  (q.1, v.2 ++ q.2)

/-- The pass from a package that is held on. -/
theorem held_settles (h : Held W es s) (hproc : s.procData = true) (hW : W.master = none → W.slaves = [])
    (hvir : s.bSendedFrmToVirWin = false → VirCalm W s p) (hout : OutCalm W (sendToVir W s p).1 p) :
    Settled W (es ++ (passOn W s p).2) (passOn W s p).1 := by
  unfold passOn
  obtain ⟨hpack, hneed, hcount⟩ := sendToVir_same W s p
  rw [← List.append_assoc]
  cases hmaster : W.master with
  | none =>
    have hm : W.masterFrame (sendToVir W s p).1.curFrmPack.frames = none := by
      rw [Windows.masterFrame, hmaster]
      rfl
    have halone := h.alone (hpack ▸ hm)
    obtain ⟨hsettled, hstep⟩ := sendToVir_alone h hproc hmaster (hW hmaster) hvir
    exact alone_settles hsettled hm (hneed.trans halone.1) (hcount.trans halone.2) hstep
  | some c =>
    obtain ⟨hheld, hsent, hkeep⟩ := sendToVir_master h hmaster hvir
    have hkeep := hkeep.trans hproc
    unfold OutCalm at hout
    cases hm : W.masterFrame (sendToVir W s p).1.curFrmPack.frames with
    | none =>
      rw [hm] at hout
      have halone := hheld.alone hm
      refine alone_settles ⟨fun _ => hheld, fun hno => ?_⟩ hm halone.1 halone.2 ?_
      · cases hkeep.symm.trans hno
      · intro hmode hplay f hf
        have hslaves := hout hmode hplay
        rcases hheld.fits.kinds hf with ⟨d, hd, hw⟩ | ⟨w, hw, hport⟩ | hv
        · rw [hheld.fits.masterFrame (Option.mem_def.mp hd) hf hw] at hm
          cases hm
        · have hserved := W.mem_served hf hport hw
          rw [hslaves] at hserved
          cases hserved
        · have htake := hheld.vir f hf hv
          rw [if_pos hsent] at htake
          exact Or.inl htake
    | some wm =>
      obtain ⟨w, m⟩ := wm
      rw [hm] at hout
      dsimp only at hout
      cases hmode : p.stepMode with
      | true =>
        rw [if_pos hmode] at hout
        exact deliverStep_settles hheld hsent hkeep hm hout
      | false =>
        rw [if_neg (by simp [hmode])] at hout
        exact deliver_settles hheld hsent hkeep hm hout

theorem flatMap_inner {α : Type} {L : List α} {body : α → List VidEvent} (h : ∀ a, ∀ e ∈ body a, e.Inner) :
    ∀ e ∈ L.flatMap body, e.Inner := by
  intro e he
  obtain ⟨a, -, he⟩ := List.mem_flatMap.mp he
  exact h a e he

theorem slaveBody_inner (p : VidPass) (early : BitVec 32 → Bool) (n : BitVec 32) (wf : Handle × Frame) :
    ∀ e ∈ slaveBody p early n wf, e.Inner := by
  intro e he
  unfold slaveBody at he
  split at he
  · obtain rfl := List.mem_singleton.mp he
    exact trivial
  · split at he
    · exact giveUp_inner he
    · cases he

theorem virBody_inner (p : VidPass) (wf : Handle × Frame) : ∀ e ∈ virBody p wf, e.Inner := by
  intro e he
  unfold virBody at he
  split at he
  · obtain rfl := List.mem_singleton.mp he
    exact trivial
  · split at he
    · obtain rfl := List.mem_singleton.mp he
      exact trivial
    · cases he

theorem queueOut_inner (W : Windows) (s : VidState) (p : VidPass) (early : BitVec 32 → Bool) :
    ∀ e ∈ (queueOut W s p early).2, e.Inner := by
  unfold queueOut
  split
  · simp
  · split
    · rw [List.forall_mem_cons]
      exact ⟨trivial, flatMap_inner (slaveBody_inner p early _)⟩
    · rw [List.forall_mem_append]
      refine ⟨?_, flatMap_inner (slaveBody_inner p early _)⟩
      split
      · exact List.forall_mem_singleton.mpr trivial
      · simp
    · simp

theorem procVidRepeat_inner (W : Windows) (s : VidState) (p : VidPass) : ∀ e ∈ procVidRepeat W s p, e.Inner := by
  unfold procVidRepeat
  dsimp only
  split
  · simp
  · split
    · simp
    · split
      · simp
      · rw [List.forall_mem_cons]
        refine ⟨trivial, flatMap_inner (fun q => flatMap_inner (fun c => ?_))⟩
        split
        · exact List.forall_mem_singleton.mpr trivial
        · simp

theorem procVidDiscard_inner (W : Windows) (s : VidState) (p : VidPass) : ∀ e ∈ (procVidDiscard W s p).2, e.Inner := by
  unfold procVidDiscard
  split
  · simp
  · split
    · simp
    · rw [List.forall_mem_append]
      exact ⟨fun e he => giveUp_inner he, flatMap_inner (fun wf e he => giveUp_inner he)⟩

theorem deliver_inner (W : Windows) (s : VidState) (p : VidPass) :
    ∀ e ∈ (if p.stepMode then deliverStep W s p else deliver W s p).2, e.Inner := by
  split
  · unfold deliverStep
    split
    · exact queueOut_inner W s p _
    · simp
  · have hsync (s : VidState) : ∀ e ∈ (procSync W s p).2, e.Inner := by
      unfold procSync
      split
      · exact queueOut_inner W s p _
      · exact procVidRepeat_inner W s p
      · exact procVidDiscard_inner W s p
      · exact queueOut_inner W s p _
    have hdue (s : VidState) : ∀ e ∈ (if s.frcCurPlayCnt < s.frcNeedPlayCnt ∨ s.frcNeedPlayCnt = 0 then procSync W s p
        else (s, [])).2, e.Inner := by
      split
      · exact hsync s
      · simp
    have hend (r : VidState × List VidEvent) (hr : ∀ e ∈ r.2, e.Inner) :
        ∀ e ∈ (if r.1.frcNeedPlayCnt ≤ r.1.frcCurPlayCnt then ({ r.1 with procData := false }, r.2)
          else r).2, e.Inner := by
      split
      · exact hr
      · exact hr
    exact hend _ (hdue _)

theorem sendToVir_inner (W : Windows) (s : VidState) (p : VidPass) : ∀ e ∈ (sendToVir W s p).2, e.Inner := by
  unfold sendToVir
  split
  · simp
  · cases hmaster : W.master with
    | some c =>
      unfold procFrmToVirWin
      rw [hmaster]
      exact flatMap_inner (virBody_inner p)
    | none =>
      rw [procFrmToVirWin_alone hmaster]
      refine flatMap_inner (fun wf => ?_)
      unfold aloneBody
      split
      · simp
      · exact virBody_inner p wf

/-- A package just fetched: nothing has happened to its frames. -/
theorem held_received (hfits : W.Fits pack) (s : VidState) (p : VidPass) :
    Held W [] (procVidFrc W { s with curFrmPack := pack, bSendedFrmToVirWin := false, procData := true } p) := by
  unfold procVidFrc
  dsimp only
  split
  · constructor
    · exact hfits
    · exact fun _ _ _ => Untouched.nil
    · exact fun _ _ _ => Untouched.nil
    · exact Or.inl rfl
    · exact fun hplayed => absurd rfl hplayed
    · exact fun _ => ⟨rfl, rfl⟩
  · rename_i hgo
    constructor
    · exact hfits
    · exact fun _ _ _ => Untouched.nil
    · exact fun _ _ _ => Untouched.nil
    · exact Or.inl rfl
    · exact fun hplayed => absurd rfl hplayed
    · exact fun hnone => absurd (Or.inr hnone) hgo

theorem procVidFrc_procData (W : Windows) (s : VidState) (p : VidPass) : (procVidFrc W s p).procData = s.procData := by
  unfold procVidFrc
  dsimp only
  split
  · rfl
  · rfl

/-- A package is fetched when none is held, or nothing is. -/
theorem receiveVid_cases (W : Windows) (s : VidState) (p : VidPass) :
    receiveVid W s p = (s, []) ∨ ∃ pack, s.procData = false ∧ p.received = some pack ∧ receiveVid W s p =
      (procVidFrc W { s with curFrmPack := pack, bSendedFrmToVirWin := false, procData := true } p,
        [.received pack]) := by
  unfold receiveVid
  split
  · rename_i pack hproc hrec
    exact Or.inr ⟨pack, hproc, hrec, rfl⟩
  · exact Or.inl rfl

theorem passOn_inner (W : Windows) (s : VidState) (p : VidPass) : ∀ e ∈ (passOn W s p).2, e.Inner := by
  unfold passOn
  rw [List.forall_mem_append]
  exact ⟨sendToVir_inner W s p, deliver_inner W _ p⟩

/-- A pass does nothing, goes on with the package that is held, or fetches one and goes on with it. -/
theorem procVdecToVo_cases (W : Windows) (s : VidState) (p : VidPass) :
    procVdecToVo W s p = (s, []) ∨ p.vidEnable = true ∧ p.curStatus ≠ .pause ∧
      (s.procData = true ∧ receiveVid W s p = (s, []) ∧ procVdecToVo W s p = passOn W s p ∨
        ∃ pack r, s.procData = false ∧ p.received = some pack ∧ receiveVid W s p = (r, [.received pack]) ∧
          r = procVidFrc W { s with curFrmPack := pack, bSendedFrmToVirWin := false, procData := true } p ∧
          procVdecToVo W s p = ((passOn W r p).1, [.received pack] ++ (passOn W r p).2)) := by
  unfold procVdecToVo
  split
  · exact Or.inl rfl
  · rename_i hon
    obtain ⟨hena, hpause⟩ := not_or.mp hon
    have hena : p.vidEnable = true := by simpa using hena
    dsimp only
    rcases receiveVid_cases W s p with hidle | ⟨pack, hproc, hrec, hnew⟩
    · rw [hidle]
      split
      · exact Or.inl rfl
      · rename_i hheld
        exact Or.inr ⟨hena, hpause, Or.inl ⟨by simpa using hheld, rfl, rfl⟩⟩
    · rw [hnew, if_neg (by rw [procVidFrc_procData]; simp)]
      refine Or.inr ⟨hena, hpause, Or.inr ⟨pack, _, hproc, hrec, rfl, rfl, ?_⟩⟩
      rw [List.append_assoc]
      rfl

theorem vidStep_some (h : vidStep W s p = some (t, fs)) :
    (∀ pack ∈ p.received, W.Fits pack) ∧ procVdecToVo W s p = (t, fs) := by
  unfold vidStep at h
  split at h
  · rename_i hfits
    exact ⟨hfits, Option.some.inj h⟩
  · cases h

theorem Settled.step (h : Settled W (since es) s) (hW : W.master = none → W.slaves = []) (hC : VidCalm W s p)
    (hnext : vidStep W s p = some (t, fs)) : Settled W (since (es ++ fs)) t := by
  obtain ⟨hfits, hpass⟩ := vidStep_some hnext
  rcases procVdecToVo_cases W s p with hnone |
    ⟨hena, hpause, ⟨hproc, hidle, hheld⟩ | ⟨pack, r, hproc, hrec, hnew, hr, hgo⟩⟩
  · obtain ⟨rfl, rfl⟩ := Prod.mk.inj (hnone.symm.trans hpass)
    rw [List.append_nil]
    exact h
  · have hcalm := hC hena hpause
    rw [hidle] at hcalm
    have hcalm := hcalm hproc
    have hdone := held_settles (h.1 hproc) hproc hW hcalm.1 hcalm.2
    have hinner := passOn_inner W s p
    rw [← hheld, hpass] at hdone hinner
    rw [since_append hinner]
    exact hdone
  · have hcalm := hC hena hpause
    rw [hnew] at hcalm
    have hproc' : r.procData = true := by rw [hr, procVidFrc_procData]
    have hcalm := hcalm hproc'
    have hstart : Held W [] r := hr ▸ held_received (hfits pack hrec) s p
    obtain ⟨ht, hfs⟩ := Prod.mk.inj (hgo.symm.trans hpass)
    rw [← ht, ← hfs, since_received pack (passOn_inner W r p)]
    exact held_settles hstart hproc' hW hcalm.1 hcalm.2

theorem run_settled (hW : W.master = none → W.slaves = []) {is : List VidPass}
    (h : Run (vidStep W) (VidCalm W) vidInit is s es) : Settled W (since es) s := by
  refine h.inv_effects (fun _ s es => Settled W (since es) s) ⟨fun hyes => ?_, ?_⟩ ?_
  · cases hyes
  · intro _ f hf
    cases hf
  · exact fun _ s es p t fs hs hC hnext => hs.step hW hC hnext

/-- A pass that fetches a package held none before. -/
theorem procData_of_received (hnext : vidStep W s p = some (t, fs)) (hrec : .received pack ∈ fs) :
    s.procData = false := by
  obtain ⟨-, hpass⟩ := vidStep_some hnext
  rcases procVdecToVo_cases W s p with hnone | ⟨-, -, ⟨-, -, hheld⟩ | ⟨_, _, hproc, -⟩⟩
  · obtain ⟨-, rfl⟩ := Prod.mk.inj (hnone.symm.trans hpass)
    cases hrec
  · have hinner := passOn_inner W s p
    rw [← hheld, hpass] at hinner
    cases hinner _ hrec
  · exact hproc

/-- **Decoded frame packages on their way to the windows.** For one master with any slaves and virtual windows, or
    virtual windows only, in calm runs: when the next package is fetched, every frame of the last one was accepted by
    its own window or released exactly once, and not both. -/
theorem run_disposes (hW : W.master = none → W.slaves = []) {is : List VidPass}
    (h : Run (vidStep W) (VidCalm W) vidInit is s es) {pack : FramePackage} (hnext : vidStep W s p = some (t, fs))
    (hrec : .received pack ∈ fs) : ∀ f ∈ s.curFrmPack.frames, Disposed W (since es) f :=
  (run_settled hW h).2 (procData_of_received hnext hrec)

instance (W : Windows) (s : VidState) (p : VidPass) : Decidable (SlavesTake W s p) := List.decidableBAll _ _

instance (W : Windows) (s : VidState) (p : VidPass) : Decidable (SlavesShow W s p) := List.decidableBAll _ _

instance (W : Windows) (s : VidState) (p : VidPass) : Decidable (VirCalm W s p) :=
  haveI (P : Handle × Frame → Prop) [DecidablePred P] : Decidable (∀ vg ∈ W.served W.virs s.curFrmPack.frames, P vg) :=
    List.decidableBAll _ _
  match hW : W.master with
  | some _ => decidable_of_iff
      (∀ vg ∈ W.served W.virs s.curFrmPack.frames, p.queue vg.1 = .success ∨ p.queueUseless vg.1 = .success)
      (by rw [VirCalm, hW])
  | none => decidable_of_iff
      ((∀ vg ∈ W.served W.virs s.curFrmPack.frames, p.queue vg.1 = .bufqueFull) ∧
        ¬ (p.stepMode = true ∧ p.stepPlay = true) ∨
        ∀ vg ∈ W.served W.virs s.curFrmPack.frames,
          p.queue vg.1 ≠ .bufqueFull ∧ (p.queue vg.1 = .success ∨ p.queueUseless vg.1 = .success))
      (by rw [VirCalm, hW])

instance (W : Windows) (s : VidState) (p : VidPass) (last : Prop) [Decidable last] (w : Handle) :
    Decidable (PlayCalm W s p last w) := inferInstanceAs (Decidable ((_ → _ → _ → _) ∧ (_ → _ → _)))

instance (W : Windows) (s : VidState) (p : VidPass) (w : Handle) : Decidable (DeliverCalm W s p w) :=
  match hs : s.syncProc with
  | .procPlay => decidable_of_iff
      ((s.frcNeedPlayCnt = 0 → p.queue w ≠ .bufqueFull) ∧ PlayCalm W s p (s.frcNeedPlayCnt ≤ 1) w)
        (by rw [DeliverCalm, hs])
  | .procQuickoutput => decidable_of_iff
      ((s.frcNeedPlayCnt = 0 → p.queue w ≠ .bufqueFull) ∧
        (s.frcCurPlayCnt = 0 → p.queue w = .success → SlavesShow W s p)) (by rw [DeliverCalm, hs])
  | .procRepeat => decidable_of_iff (s.frcNeedPlayCnt ≠ 0) (by rw [DeliverCalm, hs])
  | .procDiscard => decidable_of_iff (s.frcNeedPlayCnt = 0 → p.queueUseless w ≠ .bufqueFull) (by rw [DeliverCalm, hs])

instance (W : Windows) (s : VidState) (p : VidPass) : Decidable (OutCalm W s p) :=
  match hm : W.masterFrame s.curFrmPack.frames with
  | none => decidable_of_iff (p.stepMode = true → p.stepPlay = true → W.served W.slaves s.curFrmPack.frames = [])
      (by rw [OutCalm, hm])
  | some (w, _) => decidable_of_iff
      (if p.stepMode then p.stepPlay = true → p.queue w ≠ .bufqueFull ∧ PlayCalm W s p True w
        else DeliverCalm W (judged W s p) p w) (by rw [OutCalm, hm])

instance (W : Windows) (s : VidState) (p : VidPass) : Decidable (VidCalm W s p) :=
  inferInstanceAs (Decidable (_ → _ → _ → (_ → _) ∧ _))

/-- A master, a slave and a virtual window. -/
def threeWindows : Windows where
  master := some ⟨0xd1, 0x21⟩
  slaves := [⟨0xd2, 0x22⟩]
  virs := [⟨0xd3, 0x23⟩]
  windows_nodup := by decide
  ports_nodup := by decide
  ports_valid := by decide

/-- A package with a frame for each window. -/
def packOf (n : BitVec 32) : FramePackage := ⟨3, [⟨0x21, n⟩, ⟨0x22, n⟩, ⟨0x23, n⟩]⟩

/-- A pass in normal play, with package `n` to be fetched and to be played twice. -/
def vidPass (n : BitVec 32) (stepMode : Bool) (queue : Handle → VoRet) : VidPass :=
  ⟨true, .play, some (packOf n), false, some 2, .procPlay, stepMode, stepMode, queue, fun _ => .success⟩

/-- The slave is full at first, and each package is played twice. -/
theorem run_disposes_three :
    ∃ s es, Run (vidStep threeWindows) (VidCalm threeWindows) vidInit
        [vidPass 1 false (fun w => if w = 0xd2 then .bufqueFull else .success),
          vidPass 1 false (fun _ => .success)] s es ∧
      ∀ f ∈ s.curFrmPack.frames, Disposed threeWindows (since es) f := by
  refine exists_run_imp (fun s _ => ((vidStep threeWindows s (vidPass 2 false fun _ => .success)).any
      fun (q : VidState × List VidEvent) => decide (.received (packOf 2) ∈ q.2)))
    (by decide) fun _ _ hrun htest => ?_
  rw [Option.any_eq_true] at htest
  obtain ⟨⟨t, fs⟩, hnext, hmem⟩ := htest
  exact run_disposes (fun hnone => by cases hnone) hrun hnext (of_decide_eq_true hmem)

/-- A step while the master is full: its frame is neither shown nor released when the next package is fetched. -/
theorem step_loses :
    ∃ s es t fs, Run (vidStep threeWindows) always vidInit [vidPass 1 true (fun _ => .bufqueFull)] s es ∧
      vidStep threeWindows s (vidPass 2 false fun _ => .success) = some (t, fs) ∧ .received (packOf 2) ∈ fs ∧
      ⟨0x21, 1⟩ ∈ s.curFrmPack.frames ∧ ¬ Disposed threeWindows (since es) ⟨0x21, 1⟩ := by
  obtain ⟨s, es, hrun, htest⟩ := exists_run_of_exec (vidStep threeWindows) always vidInit
    [vidPass 1 true (fun _ => .bufqueFull)]
    (fun r => ((vidStep threeWindows r.1 (vidPass 2 false fun _ => .success)).any
      fun (q : VidState × List VidEvent) => decide (.received (packOf 2) ∈ q.2 ∧
        (⟨0x21, 1⟩ : Frame) ∈ r.1.curFrmPack.frames ∧ (since r.2).filter (Frame.about ⟨0x21, 1⟩) = []))) (by decide)
  rw [Option.any_eq_true] at htest
  obtain ⟨⟨t, fs⟩, hnext, hmem⟩ := htest
  obtain ⟨hrec, hf, hnone⟩ := of_decide_eq_true hmem
  refine ⟨s, es, t, fs, hrun, hnext, hrec, hf, ?_⟩
  rw [← disposed_filter, hnone]
  rintro (⟨⟨w, -, hmem⟩, -⟩ | ⟨-, hcount⟩)
  · simp at hmem
  · simp at hcount

end HiSTB.Avplay
