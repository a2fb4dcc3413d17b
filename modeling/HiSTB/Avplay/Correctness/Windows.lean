import HiSTB.Avplay.Video
import Mathlib.Data.List.Nodup

/-!
# `Avplay.Correctness.Windows` — what becomes of one frame

Everything below looks at one frame of a package: which window it is for, and what the events say about it.

* `Windows.getWindowByPort_spec` — the window of a frame's port is that of one attached channel, of one kind only;
* `Taken`, `Returned`, `Untouched` — the window has the frame; the decoder has it back, once; nothing has happened to
  it;
* `filter_served` — a loop over frames and channels says about a frame what its own round says.
-/

namespace HiSTB.Avplay

variable {W : Windows} {frames : List Frame} {f g : Frame} {w : Handle} {es fs : List VidEvent}

variable {pack : FramePackage} {c : FrmChn}

/-! ## The window of a frame -/

/-- The window of a port is that of its channel. -/
theorem Windows.getWindowByPort_spec (h : W.getWindowByPort f.hport = some w) :
    ∃ c ∈ W.chns, c.hPort = f.hport ∧ c.hWindow = w := by
  unfold Windows.getWindowByPort at h
  rw [Option.map_eq_some_iff] at h
  obtain ⟨c, hc, hw⟩ := h
  exact ⟨c, List.mem_of_find?_eq_some hc, by simpa using List.find?_some hc, hw⟩

theorem Windows.exists_window (h : f.hport ∈ W.chns.map FrmChn.hPort) : ∃ w, W.getWindowByPort f.hport = some w := by
  obtain ⟨c, hc, hport⟩ := List.mem_map.mp h
  unfold Windows.getWindowByPort
  cases hfind : W.chns.find? (fun c => c.hPort = f.hport) with
  | none => exact absurd (decide_eq_true hport) (List.find?_eq_none.mp hfind c hc)
  | some d => exact ⟨d.hWindow, rfl⟩

/-- Two frames for one window come from one port. -/
theorem Windows.hport_eq (hf : W.getWindowByPort f.hport = some w) (hg : W.getWindowByPort g.hport = some w) :
    f.hport = g.hport := by
  obtain ⟨c, hc, hcf, hcw⟩ := W.getWindowByPort_spec hf
  obtain ⟨d, hd, hdg, hdw⟩ := W.getWindowByPort_spec hg
  obtain rfl : c = d := List.inj_on_of_nodup_map W.windows_nodup hc hd (hcw.trans hdw.symm)
  exact hcf.symm.trans hdg

/-- A window has at most one frame of a package. -/
theorem Windows.Fits.frame_eq (h : W.Fits pack) (hf : f ∈ pack.frames) (hg : g ∈ pack.frames)
    (hfw : W.getWindowByPort f.hport = some w) (hgw : W.getWindowByPort g.hport = some w) : f = g :=
  List.inj_on_of_nodup_map h.1 hf hg (W.hport_eq hfw hgw)

theorem Windows.Fits.nodup (h : W.Fits pack) : pack.frames.Nodup := h.1.of_map _

/-- The windows of the slaves. -/
def Windows.slaveWindows (W : Windows) : List Handle := W.slaves.map FrmChn.hWindow

/-- The virtual windows. -/
def Windows.virWindows (W : Windows) : List Handle := W.virs.map FrmChn.hWindow

/-- The frame's window is the master. -/
def IsMaster (W : Windows) (f : Frame) : Prop := ∃ c ∈ W.master, W.getWindowByPort f.hport = some c.hWindow

/-- The frame's window is a slave. -/
def IsSlave (W : Windows) (f : Frame) : Prop := ∃ w ∈ W.slaveWindows, W.getWindowByPort f.hport = some w

/-- The frame's window is virtual. -/
def IsVir (W : Windows) (f : Frame) : Prop := ∃ w ∈ W.virWindows, W.getWindowByPort f.hport = some w

theorem Windows.chnWindows (W : Windows) :
    W.chns.map FrmChn.hWindow = (W.master.map FrmChn.hWindow).toList ++ (W.slaveWindows ++ W.virWindows) := by
  unfold Windows.chns Windows.slaveWindows Windows.virWindows
  rw [List.map_append, List.map_append, List.append_assoc]
  cases W.master with
  | none => rfl
  | some c => rfl

/-- Each frame is for the master, a slave or a virtual window. -/
theorem Windows.Fits.kinds (h : W.Fits pack) (hf : f ∈ pack.frames) :
    IsMaster W f ∨ IsSlave W f ∨ IsVir W f := by
  obtain ⟨w, hw⟩ := W.exists_window (h.2 f hf)
  obtain ⟨c, hc, -, rfl⟩ := W.getWindowByPort_spec hw
  rcases List.mem_append.mp hc with hc | hc
  · rcases List.mem_append.mp hc with hc | hc
    · exact Or.inl ⟨c, Option.mem_toList.mp hc, hw⟩
    · exact Or.inr (Or.inl ⟨c.hWindow, List.mem_map_of_mem hc, hw⟩)
  · exact Or.inr (Or.inr ⟨c.hWindow, List.mem_map_of_mem hc, hw⟩)

/-- No window is attached twice. -/
theorem Windows.nodup_windows (W : Windows) :
    ((W.master.map FrmChn.hWindow).toList ++ (W.slaveWindows ++ W.virWindows)).Nodup := by
  rw [← W.chnWindows]
  exact W.windows_nodup

theorem Windows.nodup_slaveWindows (W : Windows) : W.slaveWindows.Nodup := by
  have h := W.nodup_windows.of_append_right
  exact h.of_append_left

theorem Windows.nodup_virWindows (W : Windows) : W.virWindows.Nodup := by
  have h := W.nodup_windows.of_append_right
  exact h.of_append_right

/-- No slave is a virtual window. -/
theorem Windows.slave_not_vir (h : w ∈ W.slaveWindows) : w ∉ W.virWindows :=
  List.disjoint_of_nodup_append W.nodup_windows.of_append_right h

/-- The master is neither. -/
theorem Windows.master_not_other (h : W.master = some c) :
    c.hWindow ∉ W.slaveWindows ∧ c.hWindow ∉ W.virWindows := by
  have hdisjoint := List.disjoint_of_nodup_append W.nodup_windows
  rw [h] at hdisjoint
  have hnot := hdisjoint (List.mem_singleton.mpr rfl)
  rw [List.mem_append] at hnot
  exact not_or.mp hnot

/-- The master's frame in a package that fits. -/
theorem Windows.Fits.masterFrame (h : W.Fits pack) (hc : W.master = some c)
    (hf : f ∈ pack.frames) (hw : W.getWindowByPort f.hport = some c.hWindow) :
    W.masterFrame pack.frames = some (c.hWindow, f) := by
  unfold Windows.masterFrame
  rw [hc, Option.bind_some]
  cases hfind : pack.frames.find? (fun f => W.getWindowByPort f.hport = some c.hWindow) with
  | none => exact absurd (decide_eq_true hw) (List.find?_eq_none.mp hfind f hf)
  | some g =>
    have hg := List.mem_of_find?_eq_some hfind
    have hgw : W.getWindowByPort g.hport = some c.hWindow := by simpa using List.find?_some hfind
    rw [h.frame_eq hf hg hw hgw]
    rfl

/-- The frame of the master is in the package, and for the master's window. -/
theorem Windows.masterFrame_some (h : W.masterFrame frames = some (w, f)) :
    ∃ c, W.master = some c ∧ c.hWindow = w ∧ f ∈ frames ∧ W.getWindowByPort f.hport = some w := by
  unfold Windows.masterFrame at h
  obtain ⟨c, hc, hmap⟩ := Option.bind_eq_some_iff.mp h
  obtain ⟨g, hg, heq⟩ := Option.map_eq_some_iff.mp hmap
  obtain ⟨rfl, rfl⟩ := Prod.mk.inj heq
  exact ⟨c, hc, rfl, List.mem_of_find?_eq_some hg, by simpa using List.find?_some hg⟩

/-! ## The events of one frame -/

/-- The event is about frame `f`; sending an earlier package again is about none. -/
def Frame.about (f : Frame) : VidEvent → Bool
  | .queued _ g | .useless _ g | .released g => g = f
  | .received _ | .repeated _ _ => false

/-- The window of frame `f` has taken it, to be shown or as useless. -/
def Accepted (W : Windows) (es : List VidEvent) (f : Frame) : Prop :=
  ∃ w, W.getWindowByPort f.hport = some w ∧ (.queued w f ∈ es ∨ .useless w f ∈ es)

/-- Nothing has happened to frame `f`. -/
def Untouched (es : List VidEvent) (f : Frame) : Prop := es.filter f.about = []

/-- The window has the frame, and the decoder has not got it back. -/
def Taken (W : Windows) (es : List VidEvent) (f : Frame) : Prop := Accepted W es f ∧ es.count (.released f) = 0

/-- The decoder has got the frame back once, and the window has not taken it. -/
def Returned (W : Windows) (es : List VidEvent) (f : Frame) : Prop := ¬ Accepted W es f ∧ es.count (.released f) = 1

/-- The frame was accepted by its window or released exactly once, and not both. -/
def Disposed (W : Windows) (es : List VidEvent) (f : Frame) : Prop := Taken W es f ∨ Returned W es f

/-- Only the events about a frame tell what has become of it. -/
theorem accepted_filter : Accepted W (es.filter f.about) f ↔ Accepted W es f := by
  unfold Accepted
  simp [List.mem_filter, Frame.about]

theorem count_filter_about : (es.filter f.about).count (.released f) = es.count (.released f) := by
  rw [List.count_filter]
  simp [Frame.about]

/-- The same for a frame that was taken. -/
theorem taken_filter : Taken W (es.filter f.about) f ↔ Taken W es f := by
  rw [Taken, Taken, accepted_filter, count_filter_about]

theorem returned_filter : Returned W (es.filter f.about) f ↔ Returned W es f := by
  rw [Returned, Returned, accepted_filter, count_filter_about]

/-- The same for one that was disposed of. -/
theorem disposed_filter : Disposed W (es.filter f.about) f ↔ Disposed W es f := by
  rw [Disposed, Disposed, taken_filter, returned_filter]

theorem Untouched.nil : Untouched [] f := rfl

theorem Untouched.append (h : Untouched es f) (h' : Untouched fs f) : Untouched (es ++ fs) f := by
  rw [Untouched, List.filter_append, h, h']
  rfl

theorem Untouched.filter_append (h : Untouched es f) (fs : List VidEvent) :
    (es ++ fs).filter f.about = fs.filter f.about := by
  rw [List.filter_append, h]
  rfl

theorem Untouched.append_filter (h : Untouched fs f) (es : List VidEvent) :
    (es ++ fs).filter f.about = es.filter f.about := by
  rw [List.filter_append, h, List.append_nil]

theorem Taken.before (h : Untouched es f) (h' : Taken W fs f) : Taken W (es ++ fs) f := by
  rw [← taken_filter, h.filter_append, taken_filter]
  exact h'

/-- Events that are not about a frame leave it taken. -/
theorem Taken.after (h : Taken W es f) (h' : Untouched fs f) : Taken W (es ++ fs) f := by
  rw [← taken_filter, h'.append_filter, taken_filter]
  exact h

theorem Accepted.append_left (h : Accepted W es f) (fs : List VidEvent) : Accepted W (es ++ fs) f := by
  obtain ⟨w, hw, hmem⟩ := h
  exact ⟨w, hw, hmem.imp (List.mem_append_left _) (List.mem_append_left _)⟩

theorem Accepted.append_right (h : Accepted W fs f) (es : List VidEvent) : Accepted W (es ++ fs) f := by
  obtain ⟨w, hw, hmem⟩ := h
  exact ⟨w, hw, hmem.imp (List.mem_append_right _) (List.mem_append_right _)⟩

/-- A frame may be shown again. -/
theorem Taken.append (h : Taken W es f) (h' : Taken W fs f) : Taken W (es ++ fs) f := by
  refine ⟨h.1.append_left fs, ?_⟩
  rw [List.count_append, h.2, h'.2]

/-- No window has a frame that nothing has happened to. -/
theorem Untouched.not_accepted (h : Untouched es f) : ¬ Accepted W es f := by
  rw [← accepted_filter, h]
  rintro ⟨w, -, hmem⟩
  simp at hmem

theorem taken_queued (hw : W.getWindowByPort f.hport = some w) : Taken W [.queued w f] f := by
  constructor
  · exact ⟨w, hw, Or.inl (List.mem_singleton.mpr rfl)⟩
  · simp

theorem taken_useless (hw : W.getWindowByPort f.hport = some w) : Taken W [.useless w f] f := by
  constructor
  · exact ⟨w, hw, Or.inr (List.mem_singleton.mpr rfl)⟩
  · simp

theorem returned_released : Returned W [.released f] f := by
  constructor
  · rintro ⟨w, -, hmem⟩
    simp at hmem
  · simp

/-- Giving up a frame disposes of it, whatever the window answers. -/
theorem disposed_giveUp (u : Handle → VoRet) (hw : W.getWindowByPort f.hport = some w) :
    Disposed W (giveUp u w f) f := by
  unfold giveUp
  split
  · exact Or.inl (taken_useless hw)
  · exact Or.inr returned_released

/-- Where the window takes it as useless, it is not released. -/
theorem taken_giveUp {u : Handle → VoRet} (hu : u w = .success) (hw : W.getWindowByPort f.hport = some w) :
    Taken W (giveUp u w f) f := by
  rw [giveUp, if_pos hu]
  exact taken_useless hw

/-! ## Loops over frames and channels -/

/-- The rounds of a loop for one frame. -/
theorem served_frame (chns : List FrmChn) (hnodup : (chns.map FrmChn.hWindow).Nodup)
    (hw : W.getWindowByPort f.hport = some w) :
    (chns.filterMap fun c => if W.getWindowByPort f.hport = some c.hWindow then some (c.hWindow, f) else none) =
      if w ∈ chns.map FrmChn.hWindow then [(w, f)] else [] := by
  induction chns with
  | nil => rfl
  | cons c chns ih =>
    rw [List.map_cons, List.nodup_cons] at hnodup
    obtain ⟨hnot, hnodup⟩ := hnodup
    have ih := ih hnodup
    rw [List.filterMap_cons, ih, hw, List.map_cons]
    by_cases hc : w = c.hWindow
    · subst hc
      rw [if_neg hnot]
      simp
    · have hne : ¬ some w = some c.hWindow := fun heq => hc (Option.some.inj heq)
      simp [hc]

/-- **A loop over frames and channels** says about a frame what its own round says, if each round is about its own
    frame. -/
theorem filter_served (h : W.Fits pack) {chns : List FrmChn} (hnodup : (chns.map FrmChn.hWindow).Nodup)
    (hf : f ∈ pack.frames) (hw : W.getWindowByPort f.hport = some w) {body : Handle × Frame → List VidEvent}
    (hbody : ∀ v g, ∀ e ∈ body (v, g), f.about e = true → g = f) :
    ((W.served chns pack.frames).flatMap body).filter f.about =
      if w ∈ chns.map FrmChn.hWindow then (body (w, f)).filter f.about else [] := by
  obtain ⟨l, r, hsplit⟩ := List.append_of_mem hf
  have hnd := h.nodup
  rw [hsplit] at hnd
  have hother (l' : List Frame) (hl' : f ∉ l') : ((W.served chns l').flatMap body).filter f.about = [] := by
    rw [List.filter_eq_nil_iff]
    intro e he habout
    obtain ⟨⟨v, g⟩, hvg, he⟩ := List.mem_flatMap.mp he
    obtain ⟨g', hg', hc⟩ := List.mem_flatMap.mp hvg
    obtain ⟨c, -, hc⟩ := List.mem_filterMap.mp hc
    split at hc
    · obtain ⟨-, rfl⟩ := Prod.mk.inj (Option.some.inj hc)
      exact hl' (hbody v g' e he habout ▸ hg')
    · cases hc
  have hl : f ∉ l := fun hmem => List.disjoint_of_nodup_append hnd hmem List.mem_cons_self
  have hr : f ∉ r := (List.nodup_cons.mp hnd.of_append_right).1
  have hserved : W.served chns pack.frames =
      W.served chns l ++ ((if w ∈ chns.map FrmChn.hWindow then [(w, f)] else []) ++ W.served chns r) := by
    rw [hsplit, Windows.served, List.flatMap_append, List.flatMap_cons, served_frame chns hnodup hw]
    rfl
  rw [hserved, List.flatMap_append, List.flatMap_append, List.filter_append, List.filter_append,
    hother l hl, hother r hr,
    List.nil_append, List.append_nil]
  split
  · simp
  · rfl

end HiSTB.Avplay
