import HiSTB.Avplay.Correctness.Delivery

/-!
# `Avplay.Correctness.Drop` — the operations that drop the package

Attaching and detaching a window release all frames of the package that is held, a stop and a reset queue them as
useless or release them, a seek forgets them. What is right depends on what has become of each frame before.

* `Kept` — what is known of the frames of a package that is held, in any run;
* `DropsRight` — an operation gives up the frames that no window has, once, and leaves the others alone;
* `run_dropsRight_iff` — when each operation does.
-/

namespace HiSTB.Avplay

open Lib

variable {c : FrmChn}

/-- A window has the frame, or the decoder has it back. -/
def Gone (W : Windows) (es : List VidEvent) (f : Frame) : Prop := Accepted W es f ∨ .released f ∈ es

/-- The frame is given up once: its window takes it as useless, or it is released. -/
def GivenUpOnce (W : Windows) (fs : List VidEvent) (f : Frame) : Prop :=
  (∃ w, W.getWindowByPort f.hport = some w ∧ fs.filter f.about = [.useless w f]) ∨ fs.filter f.about = [.released f]

/-- A frame that is gone is left alone, any other is given up once. -/
def Rightly (W : Windows) (es fs : List VidEvent) (f : Frame) : Prop :=
  (Gone W es f → Untouched fs f) ∧ (¬ Gone W es f → GivenUpOnce W fs f)

/-- After the events `es` of its package, the operation keeps the package as it is, or drops it and each of its frames
    rightly. -/
def DropsRight (y : VidSys) (es : List VidEvent) (r : VidSys × List VidEvent) : Prop :=
  if r.1.vid.procData then r.2 = [] else ∀ f ∈ y.vid.curFrmPack.frames, Rightly y.windows es r.2 f

/-- No window has a frame of the package: it was not played, and no virtual window has taken its frame. -/
def NothingOut (y : VidSys) (es : List VidEvent) : Prop :=
  y.vid.frcCurPlayCnt = 0 ∧ ∀ f ∈ y.vid.curFrmPack.frames, IsVir y.windows f → ¬ Accepted y.windows es f

/-- With a master, only the virtual windows have their frames, and all of them. Without one, the package has no frame
    for a slave. -/
def OnlyVirsOut (y : VidSys) (es : List VidEvent) : Prop :=
  match y.windows.master with
  | some _ => y.vid.frcCurPlayCnt = 0 ∧ ∀ f ∈ y.vid.curFrmPack.frames, IsVir y.windows f → Accepted y.windows es f
  | none => ∀ f ∈ y.vid.curFrmPack.frames, ¬ IsSlave y.windows f

/-- Each frame of the package is with its window, or was released. -/
def AllOut (y : VidSys) (es : List VidEvent) : Prop := ∀ f ∈ y.vid.curFrmPack.frames, Gone y.windows es f

/-- `AVPLAY_Seek` comes to the package. -/
def SeekCall.Drops (c : SeekCall) : Prop :=
  ¬ (c.audEnable = true ∧ (c.getStatus = false ∨ c.inAoBuf = true)) ∧ c.syncPause = true ∧ c.vidEnable = true ∧
    c.dropStream = true

/-- When the operation finds the frames as it supposes them to be. -/
def Finds (y : VidSys) (es : List VidEvent) : VidOp → Prop
  | .attachWindow _ | .detachWindow _ => NothingOut y es
  | .stop _ => OnlyVirsOut y es
  | .reset vidEnable stopVid others _ =>
    if vidEnable then stopVid = true → OnlyVirsOut y es else others = true → AllOut y es
  | .seek c => c.Drops → AllOut y es

/-! ## The package that is held -/

/-- What is known of the frames of a package that is held: before it was played nothing has happened to those of the
    master and the slaves, and afterwards the master has its frame. Those of the virtual windows were never released,
    and without a master nothing has happened to them. -/
structure Kept (W : Windows) (es : List VidEvent) (s : VidState) : Prop where
  fits : W.Fits s.curFrmPack
  fresh : s.frcCurPlayCnt = 0 → ∀ f ∈ s.curFrmPack.frames, IsMaster W f ∨ IsSlave W f → Untouched es f
  shown : s.frcCurPlayCnt ≠ 0 → ∃ f ∈ s.curFrmPack.frames, IsMaster W f ∧ Accepted W es f
  count : s.frcCurPlayCnt = 0 ∨ s.frcCurPlayCnt < s.frcNeedPlayCnt
  virs : ∀ f ∈ s.curFrmPack.frames, IsVir W f → .released f ∉ es
  alone : W.master = none → ∀ f ∈ s.curFrmPack.frames, IsVir W f → Untouched es f

variable {W : Windows} {s t : VidState} {p : VidPass} {es fs : List VidEvent} {f m : Frame} {w : Handle}
  {early : BitVec 32 → Bool}

theorem released_notMem_of_untouched (h : Untouched fs f) : .released f ∉ fs := by
  intro hmem
  have hin : VidEvent.released f ∈ fs.filter f.about := List.mem_filter.mpr ⟨hmem, decide_eq_true rfl⟩
  rw [h] at hin
  cases hin

theorem Untouched.not_gone (h : Untouched es f) : ¬ Gone W es f := by
  rintro (hacc | hrel)
  · exact h.not_accepted hacc
  · exact released_notMem_of_untouched h hrel

/-- How the deliveries end as far as the package is concerned: nothing has happened to its frames, or it was shown once
    more and the master has its frame. -/
inductive Delivered (W : Windows) (s : VidState) (r : VidState × List VidEvent) : Prop
  | kept (hproc : r.1.procData = s.procData) (hpack : r.1.curFrmPack = s.curFrmPack)
      (hneed : r.1.frcNeedPlayCnt = s.frcNeedPlayCnt) (hcount : r.1.frcCurPlayCnt = s.frcCurPlayCnt)
      (hevents : ∀ f, Untouched r.2 f)
  | shown (hproc : r.1.procData = s.procData) (hpack : r.1.curFrmPack = s.curFrmPack)
      (hneed : r.1.frcNeedPlayCnt = s.frcNeedPlayCnt) (hcount : r.1.frcCurPlayCnt = s.frcCurPlayCnt + 1)
      (hmaster : ∃ f ∈ s.curFrmPack.frames, IsMaster W f ∧ Accepted W r.2 f)
  | gone (hover : r.1.procData = false ∨ r.1.frcCurPlayCnt = r.1.frcNeedPlayCnt)

theorem queueOut_delivered (W : Windows) (s : VidState) (p : VidPass) (early : BitVec 32 → Bool) :
    Delivered W s (queueOut W s p early) := by
  unfold queueOut
  cases hm : W.masterFrame s.curFrmPack.frames with
  | none => exact .kept rfl rfl rfl rfl (fun _ => Untouched.nil)
  | some wm =>
    obtain ⟨w, m⟩ := wm
    obtain ⟨c, hc, rfl, hmem, hw⟩ := W.masterFrame_some hm
    dsimp only
    cases p.queue c.hWindow with
    | success =>
      exact .shown rfl rfl rfl rfl ⟨m, hmem, ⟨c, hc, hw⟩, c.hWindow, hw, Or.inl List.mem_cons_self⟩
    | failed => exact .gone (Or.inl rfl)
    | bufqueFull => exact .kept rfl rfl rfl rfl (fun _ => Untouched.nil)

theorem procVidDiscard_delivered (W : Windows) (s : VidState) (p : VidPass) : Delivered W s (procVidDiscard W s p) := by
  unfold procVidDiscard
  cases W.masterFrame s.curFrmPack.frames with
  | none => exact .kept rfl rfl rfl rfl (fun _ => Untouched.nil)
  | some wm =>
    dsimp only
    split
    · exact .kept rfl rfl rfl rfl (fun _ => Untouched.nil)
    · exact .gone (Or.inr rfl)

theorem procSync_delivered (W : Windows) (s : VidState) (p : VidPass) : Delivered W s (procSync W s p) := by
  unfold procSync
  cases s.syncProc with
  | procPlay => exact queueOut_delivered W s p _
  | procRepeat => exact .kept rfl rfl rfl rfl (procVidRepeat_untouched W s p)
  | procDiscard => exact procVidDiscard_delivered W s p
  | procQuickoutput => exact queueOut_delivered W s p _

/-! ### The frames of the virtual windows -/

theorem queueOut_vir (h : W.Fits s.curFrmPack) (hf : f ∈ s.curFrmPack.frames) (hv : IsVir W f) :
    Untouched (queueOut W s p early).2 f := by
  unfold queueOut
  cases hm : W.masterFrame s.curFrmPack.frames with
  | none => exact Untouched.nil
  | some wm =>
    obtain ⟨w, m⟩ := wm
    dsimp only
    cases p.queue w with
    | success => exact (h.round_shown hm).filter_vir hf hv
    | failed => exact (h.round_failed hm).filter_vir hf hv
    | bufqueFull => exact Untouched.nil

theorem procVidDiscard_vir (h : W.Fits s.curFrmPack) (hf : f ∈ s.curFrmPack.frames) (hv : IsVir W f) :
    Untouched (procVidDiscard W s p).2 f := by
  unfold procVidDiscard
  cases hm : W.masterFrame s.curFrmPack.frames with
  | none => exact Untouched.nil
  | some wm =>
    obtain ⟨w, m⟩ := wm
    dsimp only
    split
    · exact Untouched.nil
    · exact (h.round_giveUp hm p.queueUseless).filter_vir hf hv

theorem procSync_vir (h : W.Fits s.curFrmPack) (hf : f ∈ s.curFrmPack.frames) (hv : IsVir W f) :
    Untouched (procSync W s p).2 f := by
  unfold procSync
  cases s.syncProc with
  | procPlay => exact queueOut_vir h hf hv
  | procRepeat => exact procVidRepeat_untouched W s p f
  | procDiscard => exact procVidDiscard_vir h hf hv
  | procQuickoutput => exact queueOut_vir h hf hv

/-! ### Passes -/

/-- The package after a delivery that leaves it held. -/
theorem Kept.delivered (h : Kept W es s) {r : VidState × List VidEvent} (hout : Delivered W s r)
    (hvir : ∀ f ∈ s.curFrmPack.frames, IsVir W f → Untouched r.2 f) (hproc : r.1.procData = true)
    (hmore : ¬ r.1.frcNeedPlayCnt ≤ r.1.frcCurPlayCnt) : Kept W (es ++ r.2) r.1 := by
  cases hout with
  | kept _ hpack hneed hcount hevents =>
    constructor
    · rw [hpack]
      exact h.fits
    · rw [hpack, hcount]
      exact fun hzero f hf hk => (h.fresh hzero f hf hk).append (hevents f)
    · rw [hpack, hcount]
      intro hplayed
      obtain ⟨f, hf, hmaster, hacc⟩ := h.shown hplayed
      exact ⟨f, hf, hmaster, hacc.append_left r.2⟩
    · rw [hcount, hneed]
      exact h.count
    · rw [hpack]
      exact fun f hf hv => List.not_mem_append (h.virs f hf hv) (released_notMem_of_untouched (hevents f))
    · rw [hpack]
      exact fun hnone f hf hv => (h.alone hnone f hf hv).append (hevents f)
  | shown _ hpack hneed hcount hmaster =>
    obtain ⟨m, hm, hmaster, hacc⟩ := hmaster
    have hnext : s.frcCurPlayCnt + 1 ≠ 0 := by
      rcases h.count with hzero | hlt
      · rw [hzero]
        decide
      · bv_omega
    constructor
    · rw [hpack]
      exact h.fits
    · rw [hcount]
      exact fun hzero => absurd hzero hnext
    · rw [hpack]
      exact fun _ => ⟨m, hm, hmaster, hacc.append_right es⟩
    · right
      bv_omega
    · rw [hpack]
      exact fun f hf hv => List.not_mem_append (h.virs f hf hv) (released_notMem_of_untouched (hvir f hf hv))
    · rw [hpack]
      exact fun hnone f hf hv => (h.alone hnone f hf hv).append (hvir f hf hv)
  | gone hover =>
    rcases hover with hover | hcount
    · cases hproc.symm.trans hover
    · rw [hcount] at hmore
      exact absurd (by bv_omega) hmore

/-- A delivery that leaves the package held. -/
theorem deliver_delivered (hproc : (deliver W s p).1.procData = true) :
    Delivered W s (deliver W s p) ∧ ¬ (deliver W s p).1.frcNeedPlayCnt ≤ (deliver W s p).1.frcCurPlayCnt := by
  obtain ⟨proc, hjudged⟩ := judged_same W s p
  have hend (r : VidState × List VidEvent) (hr : Delivered W s r)
      (hproc : (if r.1.frcNeedPlayCnt ≤ r.1.frcCurPlayCnt then ({ r.1 with procData := false }, r.2)
        else r).1.procData =
        true) : Delivered W s (if r.1.frcNeedPlayCnt ≤ r.1.frcCurPlayCnt then
          ({ r.1 with procData := false }, r.2) else r) ∧
        ¬ (if r.1.frcNeedPlayCnt ≤ r.1.frcCurPlayCnt then ({ r.1 with procData := false }, r.2)
          else r).1.frcNeedPlayCnt ≤
          (if r.1.frcNeedPlayCnt ≤ r.1.frcCurPlayCnt then ({ r.1 with procData := false }, r.2)
            else r).1.frcCurPlayCnt := by
    split at hproc
    · cases hproc
    · rename_i hmore
      rw [if_neg hmore]
      exact ⟨hr, hmore⟩
  refine hend _ ?_ hproc
  rw [show (if s.frcCurPlayCnt = 0 then procVidSync W s p else s) = judged W s p from rfl, hjudged]
  split
  · cases procSync_delivered W { s with syncProc := proc } p with
    | kept hproc hpack hneed hcount hevents => exact .kept hproc hpack hneed hcount hevents
    | shown hproc hpack hneed hcount hmaster => exact .shown hproc hpack hneed hcount hmaster
    | gone hover => exact .gone hover
  · exact .kept rfl rfl rfl rfl (fun _ => Untouched.nil)

theorem deliver_vir (h : W.Fits s.curFrmPack) (hf : f ∈ s.curFrmPack.frames) (hv : IsVir W f) :
    Untouched (deliver W s p).2 f := by
  have hend (r : VidState × List VidEvent) (hr : Untouched r.2 f) :
      Untouched (if r.1.frcNeedPlayCnt ≤ r.1.frcCurPlayCnt then ({ r.1 with procData := false }, r.2) else r).2 f := by
    split
    · exact hr
    · exact hr
  obtain ⟨proc, hjudged⟩ := judged_same W s p
  refine hend _ ?_
  rw [show (if s.frcCurPlayCnt = 0 then procVidSync W s p else s) = judged W s p from rfl, hjudged]
  split
  · exact procSync_vir (s := { s with syncProc := proc }) h hf hv
  · exact Untouched.nil

theorem Kept.deliver (h : Kept W es s) (hproc : (Avplay.deliver W s p).1.procData = true) :
    Kept W (es ++ (Avplay.deliver W s p).2) (Avplay.deliver W s p).1 := by
  obtain ⟨hout, hmore⟩ := deliver_delivered hproc
  exact h.delivered hout (fun f hf hv => deliver_vir h.fits hf hv) hproc hmore

/-- What follows the virtual windows in a pass that leaves the package held. -/
theorem Kept.deliverAny (h : Kept W es s)
    (hproc : (if p.stepMode then deliverStep W s p else Avplay.deliver W s p).1.procData = true) :
    Kept W (es ++ (if p.stepMode then deliverStep W s p else Avplay.deliver W s p).2)
      (if p.stepMode then deliverStep W s p else Avplay.deliver W s p).1 := by
  split at hproc
  · rename_i hmode
    rw [if_pos hmode]
    unfold deliverStep at hproc ⊢
    split at hproc
    · cases hproc
    · rename_i hplay
      rw [if_neg hplay, List.append_nil]
      exact h
  · rename_i hmode
    rw [if_neg hmode]
    exact h.deliver hproc

/-- A package that is held in the end was held before the delivery. -/
theorem deliverAny_procData (hproc : (if p.stepMode then deliverStep W s p else deliver W s p).1.procData = true) :
    s.procData = true := by
  split at hproc
  · unfold deliverStep at hproc
    split at hproc
    · cases hproc
    · exact hproc
  · obtain ⟨hout, hmore⟩ := deliver_delivered hproc
    cases hout with
    | kept hsame => exact hsame.symm.trans hproc
    | shown hsame => exact hsame.symm.trans hproc
    | gone hover =>
      rcases hover with hover | hcount
      · cases hproc.symm.trans hover
      · rw [hcount] at hmore
        exact absurd (by bv_omega) hmore

theorem released_notMem_virBody (p : VidPass) (L : List (Handle × Frame)) : .released f ∉ L.flatMap (virBody p) := by
  intro hmem
  obtain ⟨wf, -, hmem⟩ := List.mem_flatMap.mp hmem
  unfold virBody at hmem
  split at hmem
  · cases List.mem_singleton.mp hmem
  · split at hmem
    · cases List.mem_singleton.mp hmem
    · cases hmem

/-- The virtual windows are offered their frames, and the package stays held. -/
theorem Kept.sendToVir (h : Kept W es s) (hproc : (Avplay.sendToVir W s p).1.procData = true) :
    Kept W (es ++ (Avplay.sendToVir W s p).2) (Avplay.sendToVir W s p).1 := by
  unfold Avplay.sendToVir at hproc ⊢
  split at hproc
  · rename_i hsent
    rw [if_pos hsent, List.append_nil]
    exact h
  · rename_i hnew
    rw [if_neg hnew]
    cases hmaster : W.master with
    | some c =>
      unfold procFrmToVirWin
      rw [hmaster]
      constructor
      · exact h.fits
      · intro hzero f hf hk
        exact (h.fresh hzero f hf hk).append (untouched_virs h.fits (fun _ _ _ he habout =>
          virBody_about he habout) hf hk)
      · intro hplayed
        obtain ⟨f, hf, hm, hacc⟩ := h.shown hplayed
        exact ⟨f, hf, hm, hacc.append_left _⟩
      · exact h.count
      · exact fun f hf hv => List.not_mem_append (h.virs f hf hv) (released_notMem_virBody p _)
      · intro hnone
        cases hmaster.symm.trans hnone
    | none =>
      rw [procFrmToVirWin_alone hmaster] at hproc ⊢
      have hfull : ((W.served W.virs s.curFrmPack.frames).all fun wf => p.queue wf.1 = .bufqueFull) = true :=
        (Bool.and_eq_true _ _ |>.mp hproc).2
      rw [List.all_eq_true] at hfull
      have hevents : (W.served W.virs s.curFrmPack.frames).flatMap (aloneBody p) = [] := by
        rw [List.flatMap_eq_nil_iff]
        exact fun vg hvg => if_pos (of_decide_eq_true (hfull vg hvg))
      rw [hevents, List.append_nil]
      constructor
      · exact h.fits
      · exact h.fresh
      · exact h.shown
      · exact h.count
      · exact h.virs
      · exact h.alone

theorem Kept.passOn (h : Kept W es s) (hproc : (Avplay.passOn W s p).1.procData = true) :
    Kept W (es ++ (Avplay.passOn W s p).2) (Avplay.passOn W s p).1 := by
  have hsent := h.sendToVir (deliverAny_procData hproc)
  have hdone := hsent.deliverAny hproc
  rw [List.append_assoc] at hdone
  exact hdone

/-- A package just fetched. -/
theorem kept_received {pack : FramePackage} (hfits : W.Fits pack) (s : VidState) (p : VidPass) :
    Kept W [] (procVidFrc W { s with curFrmPack := pack, bSendedFrmToVirWin := false, procData := true } p) := by
  have hheld := held_received hfits s p
  have hcount :
      (procVidFrc W { s with curFrmPack := pack, bSendedFrmToVirWin := false, procData := true } p).frcCurPlayCnt =
        0 := by
    unfold procVidFrc
    dsimp only
    split
    · rfl
    · rfl
  constructor
  · exact hheld.fits
  · exact fun _ _ _ _ => Untouched.nil
  · exact fun hplayed => absurd hcount hplayed
  · exact hheld.count
  · exact fun _ _ _ hmem => nomatch hmem
  · exact fun _ _ _ _ => Untouched.nil

theorem vidStep_kept (h : s.procData = true → Kept W (since es) s) (hnext : vidStep W s p = some (t, fs))
    (hproc : t.procData = true) : Kept W (since (es ++ fs)) t := by
  obtain ⟨hfits, hpass⟩ := vidStep_some hnext
  rcases procVdecToVo_cases W s p with hnone | ⟨-, -, ⟨hheld, -, hgo⟩ | ⟨pack, r, -, hrec, -, hr, hgo⟩⟩
  · obtain ⟨rfl, rfl⟩ := Prod.mk.inj (hnone.symm.trans hpass)
    rw [List.append_nil]
    exact h hproc
  · have hinner := passOn_inner W s p
    have hproc' : (passOn W s p).1.procData = true := by rw [← hgo, hpass]; exact hproc
    have hdone := (h hheld).passOn hproc'
    rw [← hgo, hpass] at hdone hinner
    rw [since_append hinner]
    exact hdone
  · have hstart : Kept W [] r := hr ▸ kept_received (hfits pack hrec) s p
    obtain ⟨ht, hfs⟩ := Prod.mk.inj (hgo.symm.trans hpass)
    rw [← ht] at hproc
    rw [← ht, ← hfs, since_received pack (passOn_inner W r p)]
    exact hstart.passOn hproc

variable {y z : VidSys} {o : VidOp} {u : Handle → VoRet}

theorem freeHeld_procData (s : VidState) : (freeHeld s).1.procData = false := by
  unfold freeHeld
  cases hproc : s.procData with
  | true => rfl
  | false => exact hproc

theorem dropPackage_procData (W : Windows) (s : VidState)
    (u : Handle → VoRet) : (dropPackage W s u).1.procData = false := by
  unfold dropPackage
  cases hproc : s.procData with
  | true => rfl
  | false => exact hproc

theorem avplaySeek_cases (s : VidState) (c : SeekCall) :
    ¬ c.Drops ∧ avplaySeek s c = s ∨ c.Drops ∧ avplaySeek s c = { s with procData := false } := by
  unfold avplaySeek SeekCall.Drops
  by_cases haud : c.audEnable = true ∧ (c.getStatus = false ∨ c.inAoBuf = true)
  · exact Or.inl ⟨fun hdrops => hdrops.1 haud, if_pos haud⟩
  · rw [if_neg haud]
    cases hpause : c.syncPause with
    | false => exact Or.inl ⟨fun hdrops => by simpa using hdrops.2.1, rfl⟩
    | true =>
      rw [if_neg (by simp)]
      by_cases hvid : c.vidEnable = true ∧ c.dropStream = true
      · exact Or.inr ⟨⟨haud, rfl, hvid⟩, if_pos hvid⟩
      · exact Or.inl ⟨fun hdrops => hvid hdrops.2.2, if_neg hvid⟩

/-- An operation that leaves a package held does nothing to it. -/
theorem vidOp_kept (hproc : (vidOp y o).1.vid.procData = true) : vidOp y o = (y, []) := by
  cases o with
  | attachWindow W => cases (freeHeld_procData y.vid).symm.trans hproc
  | detachWindow W => cases (freeHeld_procData y.vid).symm.trans hproc
  | stop u => cases hproc
  | reset vidEnable stopVid others u =>
    unfold vidOp avplayReset at hproc ⊢
    cases vidEnable with
    | false =>
      cases others with
      | true => cases hproc
      | false => rfl
    | true =>
      cases stopVid with
      | false => rfl
      | true =>
        cases others with
        | true => cases hproc
        | false => cases (dropPackage_procData y.windows y.vid u).symm.trans hproc
  | seek c =>
    rcases avplaySeek_cases y.vid c with ⟨-, hsame⟩ | ⟨-, hdrop⟩
    · show (⟨y.windows, avplaySeek y.vid c⟩, []) = (y, [])
      rw [hsame]
    · have hproc : (avplaySeek y.vid c).procData = true := hproc
      rw [hdrop] at hproc
      cases hproc

theorem run_kept {is : List VidCall} (h : Run sysStep always ⟨W, vidInit⟩ is y es) :
    y.vid.procData = true → Kept y.windows (since es) y.vid := by
  refine h.inv_effects (fun _ y es => y.vid.procData = true → Kept y.windows (since es) y.vid) ?_ ?_
  · intro hyes
    cases hyes
  · intro _ y es i z fs hy _ hnext hproc
    cases i with
    | pass p =>
      obtain ⟨⟨t, fs'⟩, hstep, heq⟩ := Option.map_eq_some_iff.mp hnext
      obtain ⟨rfl, rfl⟩ := Prod.mk.inj heq
      exact vidStep_kept hy hstep hproc
    | op o =>
      have heq : vidOp y o = (z, fs) := Option.some.inj hnext
      have hsame : vidOp y o = (y, []) := vidOp_kept (by rw [heq]; exact hproc)
      obtain ⟨rfl, rfl⟩ := Prod.mk.inj (hsame.symm.trans heq)
      rw [List.append_nil]
      exact hy hproc

/-! ## What is right for a frame -/

theorem rightly_of_untouched (h : Untouched fs f) : Rightly W es fs f ↔ Gone W es f := by
  constructor
  · intro hright
    by_contra hstill
    rcases hright.2 hstill with ⟨w, -, hone⟩ | hone
    · cases h.symm.trans hone
    · cases h.symm.trans hone
  · exact fun hgone => ⟨fun _ => h, fun hstill => absurd hgone hstill⟩

theorem rightly_of_givenUpOnce (h : GivenUpOnce W fs f) : Rightly W es fs f ↔ ¬ Gone W es f := by
  constructor
  · intro hright hgone
    have hnone := hright.1 hgone
    rcases h with ⟨w, -, hone⟩ | hone
    · cases hnone.symm.trans hone
    · cases hnone.symm.trans hone
  · exact fun hstill => ⟨fun hgone => absurd hgone hstill, fun _ => h⟩

theorem givenUpOnce_of_filter (hw : W.getWindowByPort f.hport = some w)
    (h : fs.filter f.about = (giveUp u w f).filter f.about) : GivenUpOnce W fs f := by
  unfold giveUp at h
  split at h
  · left
    exact ⟨w, hw, by simpa [Frame.about] using h⟩
  · right
    simpa [Frame.about] using h

/-- Attaching and detaching release every frame. -/
theorem freeHeld_givenUpOnce (h : W.Fits s.curFrmPack) (hproc : s.procData = true) (hf : f ∈ s.curFrmPack.frames) :
    GivenUpOnce W (freeHeld s).2 f := by
  right
  have hvalid : (s.curFrmPack.frames.filter fun f => f.hport ≠ 0xffffffff) = s.curFrmPack.frames := by
    rw [List.filter_eq_self]
    intro g hg
    obtain ⟨c, hc, hport⟩ := List.mem_map.mp (h.2 g hg)
    exact decide_eq_true (hport ▸ W.ports_valid c hc)
  unfold freeHeld
  rw [if_pos hproc]
  rw [hvalid, List.filter_map]
  have hsame : f.about ∘ VidEvent.released = fun g => decide (g = f) := rfl
  rw [hsame, List.filter_eq, List.count_eq_one_of_mem h.nodup hf]
  rfl

/-- The frames of the master and the slaves are given up beside a master. -/
theorem relAllChnFrame_givenUpOnce (h : W.Fits s.curFrmPack) (hc : W.master = some c)
    (hf : f ∈ s.curFrmPack.frames) (hk : IsMaster W f ∨ IsSlave W f) : GivenUpOnce W (relAllChnFrame W s u).2 f := by
  unfold relAllChnFrame
  rw [hc]
  cases hm : W.masterFrame s.curFrmPack.frames with
  | none =>
    rcases hk with ⟨d, hd, hw⟩ | ⟨w, hslave, hw⟩
    · cases hm.symm.trans (h.masterFrame (Option.mem_def.mp hd) hf hw)
    · refine givenUpOnce_of_filter (u := u) hw ?_
      rw [Option.toList_none, List.flatMap_nil, List.nil_append,
        filter_served h W.nodup_slaveWindows hf hw (fun _ _ _ he habout => giveUp_about he habout)]
      exact if_pos hslave
  | some vm =>
    obtain ⟨v, m⟩ := vm
    have hround := h.round_giveUp hm u
    rw [Option.toList_some, List.flatMap_singleton]
    rcases hk with hmaster | ⟨w, hslave, hw⟩
    · obtain rfl := hround.eq_master hf hmaster
      exact givenUpOnce_of_filter (W.masterFrame_window hm) (hround.filter_master hf hmaster)
    · exact givenUpOnce_of_filter hw (hround.filter_slave hf hw hslave)

/-- The frames of the virtual windows are left alone beside a master. -/
theorem relAllChnFrame_untouched (h : W.Fits s.curFrmPack) (hc : W.master = some c)
    (hf : f ∈ s.curFrmPack.frames) (hv : IsVir W f) : Untouched (relAllChnFrame W s u).2 f := by
  unfold relAllChnFrame
  rw [hc]
  cases hm : W.masterFrame s.curFrmPack.frames with
  | none =>
    obtain ⟨w, hvir, hw⟩ := hv
    rw [Option.toList_none, List.flatMap_nil, List.nil_append, Untouched,
      filter_served h W.nodup_slaveWindows hf hw (fun _ _ _ he habout => giveUp_about he habout)]
    exact if_neg (fun hslave => W.slave_not_vir hslave hvir)
  | some vm =>
    obtain ⟨v, m⟩ := vm
    rw [Option.toList_some, List.flatMap_singleton]
    exact (h.round_giveUp hm u).filter_vir hf hv

theorem relAllVirChnFrame_filter (h : W.Fits s.curFrmPack) (hf : f ∈ s.curFrmPack.frames)
    (hw : W.getWindowByPort f.hport = some w) : (relAllVirChnFrame W s u).filter f.about =
      if w ∈ W.virWindows then (giveUp u w f).filter f.about else [] :=
  filter_served h W.nodup_virWindows hf hw (fun _ _ _ he habout => giveUp_about he habout)

/-! ## What is right for the package -/

theorem Kept.not_gone (h : Kept W es s) (hzero : s.frcCurPlayCnt = 0) (hf : f ∈ s.curFrmPack.frames)
    (hk : IsMaster W f ∨ IsSlave W f) : ¬ Gone W es f := (h.fresh hzero f hf hk).not_gone

theorem Kept.gone_vir (h : Kept W es s) (hf : f ∈ s.curFrmPack.frames) (hv : IsVir W f) :
    Gone W es f ↔ Accepted W es f :=
  ⟨fun hgone => hgone.resolve_right (h.virs f hf hv), Or.inl⟩

theorem Kept.not_played (h : Kept W es s) (hmaster : ∀ f ∈ s.curFrmPack.frames, IsMaster W f → ¬ Gone W es f) :
    s.frcCurPlayCnt = 0 := by
  by_contra hplayed
  obtain ⟨f, hf, hm, hacc⟩ := h.shown hplayed
  exact hmaster f hf hm (Or.inl hacc)

theorem freeHeld_iff (h : Kept y.windows es y.vid) (hproc : y.vid.procData = true) :
    (∀ f ∈ y.vid.curFrmPack.frames, Rightly y.windows es (freeHeld y.vid).2 f) ↔ NothingOut y es := by
  have hright (f : Frame) (hf : f ∈ y.vid.curFrmPack.frames) :
      Rightly y.windows es (freeHeld y.vid).2 f ↔ ¬ Gone y.windows es f :=
    rightly_of_givenUpOnce (freeHeld_givenUpOnce h.fits hproc hf)
  constructor
  · intro hall
    refine ⟨h.not_played (fun f hf _ => (hright f hf).mp (hall f hf)), fun f hf _ hacc => ?_⟩
    exact (hright f hf).mp (hall f hf) (Or.inl hacc)
  · rintro ⟨hzero, hvir⟩ f hf
    rw [hright f hf]
    rcases h.fits.kinds hf with hk | hk | hv
    · exact h.not_gone hzero hf (Or.inl hk)
    · exact h.not_gone hzero hf (Or.inr hk)
    · rw [h.gone_vir hf hv]
      exact hvir f hf hv

theorem relAllChnFrame_iff (h : Kept y.windows es y.vid) :
    (∀ f ∈ y.vid.curFrmPack.frames, Rightly y.windows es (relAllChnFrame y.windows y.vid u).2 f) ↔
      OnlyVirsOut y es := by
  unfold OnlyVirsOut
  cases hmaster : y.windows.master with
  | some c =>
    have hright (f : Frame) (hf : f ∈ y.vid.curFrmPack.frames) (hk : IsMaster y.windows f ∨ IsSlave y.windows f) :
        Rightly y.windows es (relAllChnFrame y.windows y.vid u).2 f ↔ ¬ Gone y.windows es f :=
      rightly_of_givenUpOnce (relAllChnFrame_givenUpOnce h.fits hmaster hf hk)
    have hvirs (f : Frame) (hf : f ∈ y.vid.curFrmPack.frames) (hv : IsVir y.windows f) :
        Rightly y.windows es (relAllChnFrame y.windows y.vid u).2 f ↔ Accepted y.windows es f := by
      rw [rightly_of_untouched (relAllChnFrame_untouched h.fits hmaster hf hv), h.gone_vir hf hv]
    constructor
    · intro hall
      refine ⟨h.not_played (fun f hf hk => (hright f hf (Or.inl hk)).mp (hall f hf)), fun f hf hv => ?_⟩
      exact (hvirs f hf hv).mp (hall f hf)
    · rintro ⟨hzero, hvir⟩ f hf
      rcases h.fits.kinds hf with hk | hk | hv
      · exact (hright f hf (Or.inl hk)).mpr (h.not_gone hzero hf (Or.inl hk))
      · exact (hright f hf (Or.inr hk)).mpr (h.not_gone hzero hf (Or.inr hk))
      · exact (hvirs f hf hv).mpr (hvir f hf hv)
  | none =>
    have hnone (f : Frame) : ¬ IsMaster y.windows f := by
      rintro ⟨c, hc, -⟩
      rw [hmaster] at hc
      cases hc
    have hzero : y.vid.frcCurPlayCnt = 0 := h.not_played (fun f _ hm => absurd hm (hnone f))
    have hevents : (relAllChnFrame y.windows y.vid u).2 = relAllVirChnFrame y.windows y.vid u := by
      unfold relAllChnFrame
      rw [hmaster]
    rw [hevents]
    constructor
    · rintro hall f hf ⟨w, hslave, hw⟩
      have hleft : Untouched (relAllVirChnFrame y.windows y.vid u) f := by
        rw [Untouched, relAllVirChnFrame_filter h.fits hf hw]
        exact if_neg (y.windows.slave_not_vir hslave)
      exact h.not_gone hzero hf (Or.inr ⟨w, hslave, hw⟩) ((rightly_of_untouched hleft).mp (hall f hf))
    · intro hslaves f hf
      rcases h.fits.kinds hf with hk | hk | hv
      · exact absurd hk (hnone f)
      · exact absurd hk (hslaves f hf)
      · have hfresh := h.alone hmaster f hf hv
        obtain ⟨w, hvir, hw⟩ := hv
        have hfilter := relAllVirChnFrame_filter (u := u) h.fits hf hw
        rw [if_pos hvir] at hfilter
        exact (rightly_of_givenUpOnce (givenUpOnce_of_filter hw hfilter)).mpr hfresh.not_gone

theorem forget_iff : (∀ f ∈ y.vid.curFrmPack.frames, Rightly y.windows es [] f) ↔ AllOut y es :=
  forall₂_congr fun _ _ => rightly_of_untouched Untouched.nil

/-- **The operations that drop the package**, from any state that a run reaches with a package held: each frame that no
    window has is given up once and the others are left alone exactly when the operation finds the frames as it supposes
    them to be. -/
theorem run_dropsRight_iff {is : List VidCall} (h : Run sysStep always ⟨W, vidInit⟩ is y es)
    (hproc : y.vid.procData = true)
    (o : VidOp) : DropsRight y (since es) (vidOp y o) ↔ Finds y (since es) o := by
  have hkept := run_kept h hproc
  have hstill (hop : vidOp y o = (y, [])) : DropsRight y (since es) (vidOp y o) := by
    rw [hop, DropsRight, if_pos hproc]
  have hdrop (hgone : (vidOp y o).1.vid.procData = false) : DropsRight y (since es) (vidOp y o) ↔
      ∀ f ∈ y.vid.curFrmPack.frames, Rightly y.windows (since es) (vidOp y o).2 f := by
    rw [DropsRight, if_neg (by rw [hgone]; simp)]
  have hevents (u : Handle → VoRet) : (dropPackage y.windows y.vid u).2 = (relAllChnFrame y.windows y.vid u).2 := by
    unfold dropPackage
    rw [if_pos hproc]
  cases o with
  | attachWindow W' =>
      rw [hdrop (freeHeld_procData y.vid)]
      exact freeHeld_iff hkept hproc
  | detachWindow W' =>
      rw [hdrop (freeHeld_procData y.vid)]
      exact freeHeld_iff hkept hproc
  | stop u =>
      rw [hdrop rfl, show (vidOp y (.stop u)).2 = (dropPackage y.windows y.vid u).2 from rfl, hevents u]
      exact relAllChnFrame_iff hkept
  | reset vidEnable stopVid others u =>
      cases vidEnable with
      | false =>
          cases others with
          | false =>
              have hfinds : Finds y (since es) (.reset false stopVid false u) := by
                intro hno
                cases hno
              exact iff_of_true (hstill rfl) hfinds
          | true =>
              have hfinds : Finds y (since es) (.reset false stopVid true u) ↔ AllOut y (since es) :=
                ⟨fun hall => hall rfl, fun hall _ => hall⟩
              rw [hdrop rfl, hfinds]
              exact forget_iff
      | true =>
          cases stopVid with
          | false =>
              have hfinds : Finds y (since es) (.reset true false others u) := by
                intro hno
                cases hno
              exact iff_of_true (hstill rfl) hfinds
          | true =>
              have hfinds : Finds y (since es) (.reset true true others u) ↔ OnlyVirsOut y (since es) :=
                ⟨fun hall => hall rfl, fun hall _ => hall⟩
              have hgone : (vidOp y (.reset true true others u)).1.vid.procData = false := by
                cases others with
                | true => rfl
                | false => exact dropPackage_procData y.windows y.vid u
              have hsame : (vidOp y (.reset true true others u)).2 = (dropPackage y.windows y.vid u).2 := by
                cases others with
                | true => rfl
                | false => rfl
              rw [hdrop hgone, hsame, hevents u, hfinds]
              exact relAllChnFrame_iff hkept
  | seek c =>
      have hop : vidOp y (.seek c) = (⟨y.windows, avplaySeek y.vid c⟩, []) := rfl
      rcases avplaySeek_cases y.vid c with ⟨hquiet, hsame⟩ | ⟨hdrops, hclear⟩
      · have hfinds : Finds y (since es) (.seek c) := fun hdrops => absurd hdrops hquiet
        refine iff_of_true (hstill ?_) hfinds
        rw [hop, hsame]
      · have hfinds : Finds y (since es) (.seek c) ↔ AllOut y (since es) :=
          ⟨fun hall => hall hdrops, fun hall _ => hall⟩
        rw [hdrop (by rw [hop, hclear]), hfinds]
        exact forget_iff

instance (W : Windows) (es : List VidEvent) (f : Frame) : Decidable (Accepted W es f) :=
  match hw : W.getWindowByPort f.hport with
  | none => isFalse (by
      rintro ⟨w, hw', -⟩
      cases hw.symm.trans hw')
  | some w => decidable_of_iff (.queued w f ∈ es ∨ .useless w f ∈ es) (by
      constructor
      · exact fun hmem => ⟨w, hw, hmem⟩
      · rintro ⟨v, hv, hmem⟩
        obtain rfl := Option.some.inj (hw.symm.trans hv)
        exact hmem)

instance (W : Windows) (es : List VidEvent) (f : Frame) : Decidable (Gone W es f) := inferInstanceAs (Decidable (_ ∨ _))

instance (fs : List VidEvent) (f : Frame) : Decidable (Untouched fs f) := inferInstanceAs (Decidable (_ = _))

instance (W : Windows) (fs : List VidEvent) (f : Frame) : Decidable (GivenUpOnce W fs f) :=
  match hw : W.getWindowByPort f.hport with
  | none => decidable_of_iff (fs.filter f.about = [.released f]) (by
      constructor
      · exact Or.inr
      · rintro (⟨w, hw', -⟩ | hone)
        · cases hw.symm.trans hw'
        · exact hone)
  | some w => decidable_of_iff (fs.filter f.about = [.useless w f] ∨ fs.filter f.about = [.released f]) (by
      constructor
      · exact fun hone => hone.imp_left (fun huseless => ⟨w, hw, huseless⟩)
      · rintro (⟨v, hv, hone⟩ | hone)
        · obtain rfl := Option.some.inj (hw.symm.trans hv)
          exact Or.inl hone
        · exact Or.inr hone)

instance (W : Windows) (es fs : List VidEvent) (f : Frame) : Decidable (Rightly W es fs f) :=
  inferInstanceAs (Decidable ((_ → _) ∧ (¬ _ → _)))

instance (y : VidSys) (es : List VidEvent) (r : VidSys × List VidEvent) : Decidable (DropsRight y es r) :=
  haveI : Decidable (∀ f ∈ y.vid.curFrmPack.frames, Rightly y.windows es r.2 f) := List.decidableBAll _ _
  inferInstanceAs (Decidable (if r.1.vid.procData then r.2 = []
    else ∀ f ∈ y.vid.curFrmPack.frames, Rightly y.windows es r.2 f))

instance (W : Windows) (f : Frame) : Decidable (IsVir W f) := List.decidableBEx _ _

instance (W : Windows) (f : Frame) : Decidable (IsSlave W f) := List.decidableBEx _ _

instance (y : VidSys) (es : List VidEvent) : Decidable (NothingOut y es) :=
  haveI : Decidable (∀ f ∈ y.vid.curFrmPack.frames, IsVir y.windows f → ¬ Accepted y.windows es f) :=
    List.decidableBAll _ _
  inferInstanceAs (Decidable (_ ∧ _))

instance (y : VidSys) (es : List VidEvent) : Decidable (OnlyVirsOut y es) :=
  haveI (P : Frame → Prop) [DecidablePred P] : Decidable (∀ f ∈ y.vid.curFrmPack.frames, P f) := List.decidableBAll _ _
  match hmaster : y.windows.master with
  | some _ => decidable_of_iff
      (y.vid.frcCurPlayCnt = 0 ∧ ∀ f ∈ y.vid.curFrmPack.frames, IsVir y.windows f → Accepted y.windows es f)
      (by rw [OnlyVirsOut, hmaster])
  | none => decidable_of_iff (∀ f ∈ y.vid.curFrmPack.frames, ¬ IsSlave y.windows f) (by rw [OnlyVirsOut, hmaster])

/-- The master is full, so that the package is held with the virtual window's frame gone: a stop is right. -/
theorem run_dropsRight_iff_stop :
    ∃ y es, Run sysStep always ⟨threeWindows, vidInit⟩
        [.pass (vidPass 1 false fun w => if w = 0xd1 then .bufqueFull else .success)] y es ∧
      DropsRight y (since es) (vidOp y (.stop fun _ => .failed)) := by
  refine exists_run_imp (fun y es => y.vid.procData = true ∧ OnlyVirsOut y (since es))
    (by decide) fun _ _ hrun htest => ?_
  obtain ⟨hproc, hfinds⟩ := htest
  exact (run_dropsRight_iff hrun hproc (.stop fun _ => .failed)).mpr hfinds

/-- The package was shown once and waits to be shown again when a window is attached: the frames on screen are
    released. -/
theorem attach_releases_shown :
    ∃ y es, Run sysStep always ⟨threeWindows, vidInit⟩ [.pass (vidPass 1 false fun _ => .success)] y es ∧
      y.vid.procData = true ∧ .queued 0xd1 ⟨0x21, 1⟩ ∈ es ∧
      .released ⟨0x21, 1⟩ ∈ (vidOp y (.attachWindow threeWindows)).2 ∧
      ¬ DropsRight y (since es) (vidOp y (.attachWindow threeWindows)) := by
  exact exists_run_of_decide (by decide)

end HiSTB.Avplay
