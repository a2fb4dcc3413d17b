import HiSTB.Vpss.Correctness.Calls

/-!
# `Vpss.Correctness.Release` — every frame is given back once

Whether a node gives its frame back is read off the node alone: from `bProgressive` and from the field it
holds. `Groups` reads the full list as frames, one node or two fields each; `Front` says how far the first of
them is when `pstTarget_1` stands on one of its fields. A first field that is the reference must not be
progressive, or its frame would be given back by both of its nodes. Every call respects that but one:
the last-error flag marks the last three fields, also when the first of them is the reference.

* `step_balance` — one call outside that case keeps the account of the frames given back;
* `run_release_once` — every run without such a call gives every frame back at most once, and exactly once by
  the time none of its nodes is on the full list;
* `run_release_twice` — the other case.
-/

namespace HiSTB.Vpss

open Lib ListHead

variable {ev' : List Event} {n d l : Nat} {gs rest : List Nat} {ls : List (BitVec 32)} {t : ImgInfo}
    {P : BitVec 32 → Prop}

/-- The field an interlaced frame begins with. -/
def Frame.IsFirst (f : Frame) : Prop := f.fieldMode = if f.topFieldFirst then .top else .bottom

/-- The field an interlaced frame ends with. -/
def Frame.IsSecond (f : Frame) : Prop := f.fieldMode = if f.topFieldFirst then .bottom else .top

/-- The nodes `fs` are whole frames, and `ks` their frame indices. -/
inductive Groups (img : Nat → Frame) : List Nat → List (BitVec 32) → Prop
  | nil : Groups img [] []
  | frame {i : Nat} {fs : List Nat} {ks : List (BitVec 32)} (prog : (img i).progressive = true)
      (rest : Groups img fs ks) : Groups img (i :: fs) ((img i).frameIndex :: ks)
  | fields {i j : Nat} {fs : List Nat} {ks : List (BitVec 32)} (first : (img i).IsFirst)
      (second : (img j).IsSecond) (idx : (img j).frameIndex = (img i).frameIndex)
      (rest : Groups img fs ks) : Groups img (i :: j :: fs) ((img i).frameIndex :: ks)

/-- The full list, where the reference may be a field of its first frame. -/
inductive Front (img : Nat → Frame) (target : Ptr) : List Nat → List (BitVec 32) → Prop
  | head {fs : List Nat} {ks : List (BitVec 32)} (ht : target = .fulHead) (rest : Groups img fs ks) :
      Front img target fs ks
  | first {i j : Nat} {fs : List Nat} {ks : List (BitVec 32)} (ht : target = .node i)
      (first : (img i).IsFirst) (prog : (img i).progressive = false) (second : (img j).IsSecond)
      (idx : (img j).frameIndex = (img i).frameIndex) (rest : Groups img fs ks) :
      Front img target (i :: j :: fs) ((img i).frameIndex :: ks)
  | second {j : Nat} {fs : List Nat} {ks : List (BitVec 32)} (ht : target = .node j)
      (second : (img j).IsSecond) (rest : Groups img fs ks) :
      Front img target (j :: fs) ((img j).frameIndex :: ks)

/-- The frame with index `k` came to the full list. -/
def Entered (k : BitVec 32) (ev : List Event) : Prop := ∃ i f, Event.ful i f ∈ ev ∧ f.frameIndex = k

/-- How often the frame with index `k` was given back. -/
def released (k : BitVec 32) (ev : List Event) : Nat :=
  ev.countP (fun e => match e with
    | .rls f => f.frameIndex = k
    | _ => false)

/-- The frames of `ks` are still to be given back; all others that came were given back once. -/
structure Account (ks : List (BitVec 32)) (ev : List Event) : Prop where
  nodup : ks.Nodup
  entered : ∀ k ∈ ks, Entered k ev
  pending : ∀ k, (Entered k ev → k ∈ ks) → released k ev = 0
  gone : ∀ k, Entered k ev → k ∉ ks → released k ev = 1

/-- The lists, the frames on them and the frames given back. -/
structure Balance (s : ImgInfo) (ts es fs : List Nat) (ks : List (BitVec 32)) (ev : List Event) : Prop where
  lists : Lists s ts es fs
  front : Front s.img s.target_1 fs ks
  account : Account ks ev

variable {s : ImgInfo} {ts es fs after : List Nat} {ev : List Event} {i j : Nat} {ks : List (BitVec 32)}
  {k : BitVec 32} {f g : Frame} {img img' : Nat → Frame} {target : Ptr}

/-! ## The account -/

theorem released_append (k : BitVec 32) (ev ev' : List Event) :
    released k (ev ++ ev') = released k ev + released k ev' := List.countP_append

theorem entered_append : Entered k (ev ++ ev') ↔ Entered k ev ∨ Entered k ev' := by
  unfold Entered
  simp only [List.mem_append, or_and_right, exists_or]

theorem entered_ful : Entered k [.ful i f] ↔ f.frameIndex = k := by
  simp [Entered]

/-- An event that says nothing about frames. -/
theorem Account.neutral (h : Account ks ev) {e : Event} (hful : ∀ i f, e ≠ .ful i f) (hrls : ∀ f, e ≠ .rls f) :
    Account ks (ev ++ [e]) := by
  have hent : ∀ k, Entered k (ev ++ [e]) ↔ Entered k ev := by
    intro k
    rw [entered_append, or_iff_left]
    rintro ⟨i, f, hmem, -⟩
    exact hful i f (List.mem_singleton.mp hmem).symm
  have hrel : ∀ k, released k (ev ++ [e]) = released k ev := by
    intro k
    rw [released_append]
    cases e with
    | ful i f => exact absurd rfl (hful i f)
    | rls f => exact absurd rfl (hrls f)
    | done i => rfl
    | passed i => rfl
    | reset => rfl
  refine ⟨h.nodup, ?_, ?_, ?_⟩
  · exact fun k hk => (hent k).mpr (h.entered k hk)
  · exact fun k hk => by rw [hrel, h.pending k (fun he => hk ((hent k).mpr he))]
  · exact fun k hk hn => by rw [hrel, h.gone k ((hent k).mp hk) hn]

/-- A frame comes. -/
theorem Account.enter (h : Account ks ev) (hnew : ¬Entered k ev)
    (hent : ∀ l, Entered l ev' ↔ l = k) (hrel : ∀ l, released l ev' = 0) :
    Account (ks ++ [k]) (ev ++ ev') := by
  have hk : k ∉ ks := fun hmem => hnew (h.entered k hmem)
  refine ⟨?_, ?_, ?_, ?_⟩
  · rw [List.nodup_append]
    refine ⟨h.nodup, List.nodup_singleton k, ?_⟩
    rintro a ha b hb rfl
    exact hk (List.mem_singleton.mp hb ▸ ha)
  · intro l hl
    rw [entered_append]
    rcases List.mem_append.mp hl with hl | hl
    · exact .inl (h.entered l hl)
    · exact .inr ((hent l).mpr (List.mem_singleton.mp hl))
  · intro l hl
    rw [released_append, hrel, Nat.add_zero]
    refine h.pending l (fun he => ?_)
    rcases List.mem_append.mp (hl (entered_append.mpr (.inl he))) with hmem | hmem
    · exact hmem
    · exact absurd (List.mem_singleton.mp hmem ▸ he) hnew
  · intro l hl hn
    rw [released_append, hrel, Nat.add_zero]
    rw [List.mem_append, not_or, List.mem_singleton] at hn
    rcases entered_append.mp hl with he | he
    · exact h.gone l he hn.1
    · exact absurd ((hent l).mp he) hn.2

/-- The first frame is given back. -/
theorem Account.release (h : Account (f.frameIndex :: ks) ev) : Account ks (ev ++ [.rls f]) := by
  have hnd := List.nodup_cons.mp h.nodup
  have hent : ∀ k, Entered k (ev ++ [.rls f]) ↔ Entered k ev := by
    intro k
    rw [entered_append, or_iff_left]
    rintro ⟨i, g, hmem, -⟩
    cases List.mem_singleton.mp hmem
  have hrel : ∀ k, released k (ev ++ [.rls f]) = released k ev + if f.frameIndex = k then 1 else 0 := by
    intro k
    rw [released_append]
    unfold released
    by_cases hk : f.frameIndex = k <;> simp [hk]
  refine ⟨hnd.2, ?_, ?_, ?_⟩
  · exact fun k hk => (hent k).mpr (h.entered k (List.mem_cons_of_mem _ hk))
  · intro k hk
    have hne : f.frameIndex ≠ k := by
      rintro rfl
      exact hnd.1 (hk ((hent _).mpr (h.entered _ List.mem_cons_self)))
    rw [hrel, if_neg hne, Nat.add_zero]
    exact h.pending k (fun he => List.mem_cons_of_mem _ (hk ((hent k).mpr he)))
  · intro k hk hn
    rw [hrel]
    by_cases heq : f.frameIndex = k
    · subst heq
      rw [if_pos rfl, h.pending _ (fun _ => List.mem_cons_self)]
    · rw [if_neg heq, Nat.add_zero]
      refine h.gone k ((hent k).mp hk) ?_
      rw [List.mem_cons, not_or]
      exact ⟨Ne.symm heq, hn⟩

/-! ## What a node says about its frame -/

theorem checkNeedRelease_first (hf : (s.img i).IsFirst) (hp : (s.img i).progressive = false) :
    s.checkNeedRelease i = false := by
  unfold ImgInfo.checkNeedRelease
  unfold Frame.IsFirst at hf
  cases htff : (s.img i).topFieldFirst <;> simp [hp, hf, htff]

theorem checkNeedRelease_second (hf : (s.img i).IsSecond) : s.checkNeedRelease i = true := by
  unfold ImgInfo.checkNeedRelease
  unfold Frame.IsSecond at hf
  cases htff : (s.img i).topFieldFirst <;> cases hp : (s.img i).progressive <;> simp [hf, htff]

theorem checkNeedRelease_progressive (hp : (s.img i).progressive = true) : s.checkNeedRelease i = true := by
  unfold ImgInfo.checkNeedRelease
  simp [hp]

/-! ## Images that are only marked -/

/-- The image keeps its field, and stays progressive if it was. -/
structure Marked (f g : Frame) : Prop where
  field : g.field = f.field
  prog : f.progressive = true → g.progressive = true

theorem Marked.refl (f : Frame) : Marked f f := ⟨rfl, id⟩

theorem Marked.trans {f g h : Frame} (hfg : Marked f g) (hgh : Marked g h) : Marked f h :=
  ⟨hgh.field.trans hfg.field, fun hp => hgh.prog (hfg.prog hp)⟩

theorem Marked.frameIndex (h : Marked f g) : g.frameIndex = f.frameIndex := by
  have hidx : g.field.frameIndex = f.field.frameIndex := by rw [h.field]
  exact hidx

theorem Marked.fieldMode (h : Marked f g) : g.fieldMode = f.fieldMode := by
  have hmode : g.field.fieldMode = f.field.fieldMode := by rw [h.field]
  exact hmode

theorem Marked.topFieldFirst (h : Marked f g) : g.topFieldFirst = f.topFieldFirst := by
  have htff : g.field.topFieldFirst = f.field.topFieldFirst := by rw [h.field]
  exact htff

theorem Marked.isFirst (h : Marked f g) (hf : f.IsFirst) : g.IsFirst := by
  unfold Frame.IsFirst
  rw [h.fieldMode, h.topFieldFirst]
  exact hf

theorem Marked.isSecond (h : Marked f g) (hf : f.IsSecond) : g.IsSecond := by
  unfold Frame.IsSecond
  rw [h.fieldMode, h.topFieldFirst]
  exact hf

theorem marked_marked (img : Nat → Frame) (vs : List Nat) (n : Nat) : Marked (img n) (marked img vs n) := by
  refine ⟨marked_field img vs n, fun hp => ?_⟩
  unfold marked
  split
  · rfl
  · exact hp

theorem marked_of_notMem {vs : List Nat} (hn : n ∉ vs) : marked img vs n = img n := if_neg hn

theorem Groups.mono (h : Groups img fs ks) (hm : ∀ n ∈ fs, Marked (img n) (img' n)) : Groups img' fs ks := by
  induction h with
  | nil => exact .nil
  | frame prog _ ih =>
    have hi := hm _ List.mem_cons_self
    rw [← hi.frameIndex]
    exact .frame (hi.prog prog) (ih (fun n hn => hm n (List.mem_cons_of_mem _ hn)))
  | fields first second idx _ ih =>
    have hi := hm _ List.mem_cons_self
    have hj := hm _ (List.mem_cons_of_mem _ List.mem_cons_self)
    rw [← hi.frameIndex]
    refine .fields (hi.isFirst first) (hj.isSecond second) ?_
      (ih (fun n hn => hm n (List.mem_cons_of_mem _ (List.mem_cons_of_mem _ hn))))
    rw [hj.frameIndex, hi.frameIndex, idx]

/-- A first field that is the reference stays interlaced. -/
def Spares (img img' : Nat → Frame) (target : Ptr) (fs : List Nat) : Prop :=
  ∀ n j rest, target = .node n → fs = n :: j :: rest → (img n).IsFirst → (img n).progressive = false →
    (img' n).progressive = false

/-- Marking is harmless as long as the reference is spared. -/
theorem Front.mono (h : Front img target fs ks) (hm : ∀ n ∈ fs, Marked (img n) (img' n))
    (hspare : Spares img img' target fs) : Front img' target fs ks := by
  cases h with
  | head ht rest => exact .head ht (rest.mono hm)
  | first ht first prog second idx rest =>
    have hi := hm _ List.mem_cons_self
    have hj := hm _ (List.mem_cons_of_mem _ List.mem_cons_self)
    rw [← hi.frameIndex]
    refine .first ht (hi.isFirst first) (hspare _ _ _ ht rfl first prog) (hj.isSecond second) ?_ ?_
    · rw [hj.frameIndex, hi.frameIndex, idx]
    · exact rest.mono (fun n hn => hm n (List.mem_cons_of_mem _ (List.mem_cons_of_mem _ hn)))
  | second ht second rest =>
    have hj := hm _ List.mem_cons_self
    rw [← hj.frameIndex]
    exact .second ht (hj.isSecond second) (rest.mono (fun n hn => hm n (List.mem_cons_of_mem _ hn)))

theorem Groups.append (h : Groups img fs ks) (h' : Groups img gs ls) :
    Groups img (fs ++ gs) (ks ++ ls) := by
  induction h with
  | nil => exact h'
  | frame prog _ ih => exact .frame prog ih
  | fields first second idx _ ih => exact .fields first second idx ih

theorem Front.append (h : Front img target fs ks)
    (h' : Groups img gs ls) : Front img target (fs ++ gs) (ks ++ ls) := by
  cases h with
  | head ht rest => exact .head ht (rest.append h')
  | first ht first prog second idx rest => exact .first ht first prog second idx (rest.append h')
  | second ht second rest => exact .second ht second (rest.append h')

theorem Front.at (h : Front img target fs ks) : ∃ after, At target fs after := by
  cases h with
  | head ht _ => exact ⟨_, .inl ⟨ht, rfl⟩⟩
  | first ht _ _ _ _ _ => exact ⟨_, .inr ⟨_, ht, rfl⟩⟩
  | second ht _ _ => exact ⟨_, .inr ⟨_, ht, rfl⟩⟩

/-- The frame after the first one has another index. -/
theorem Groups.head_ne (h : Groups img fs ks) (hd : (img d).frameIndex ∉ ks) :
    ∀ r ∈ fs.head?, (img r).frameIndex ≠ (img d).frameIndex := by
  intro r hr heq
  cases h with
  | nil => cases hr
  | frame prog _ =>
    cases hr
    exact hd (heq ▸ List.mem_cons_self)
  | fields first second idx _ =>
    cases hr
    exact hd (heq ▸ List.mem_cons_self)

/-! ## New frames -/

theorem Balance.remark (h : Balance s ts es fs ks ev) (hlinks : t.links = s.links)
    (htarget : t.target_1 = s.target_1) (hnumb : t.numb = s.numb)
    (hm : ∀ n ∈ fs, Marked (s.img n) (t.img n)) (hspare : Spares s.img t.img s.target_1 fs) :
    Balance t ts es fs ks ev :=
  ⟨h.lists.congr hlinks hnumb, htarget ▸ h.front.mono hm hspare, h.account⟩

theorem Balance.notMem (h : Balance s ts es fs ks ev) (hi : i ∈ ts) : i ∉ fs :=
  fun hmem => (List.nodup_append.mp h.lists.nodup).2.2 i (List.mem_append_left _ hi) i hmem rfl

/-- The image of a node in a caller's hands is written. -/
theorem Balance.setImg (h : Balance s ts es fs ks ev) (hi : i ∈ ts) (f : Frame) :
    Balance { s with img := Function.update s.img i f } ts es fs ks ev := by
  have hne : ∀ n ∈ fs, n ≠ i := fun n hn heq => h.notMem hi (heq ▸ hn)
  refine h.remark rfl rfl rfl (fun n hn => ?_) ?_
  · dsimp only
    rw [Function.update_of_ne (hne n hn)]
    exact Marked.refl _
  · rintro n j rest - rfl - hp
    dsimp only
    rw [Function.update_of_ne (hne n List.mem_cons_self)]
    exact hp

theorem Balance.setFields (h : Balance s (i :: j :: ts) es fs ks ev) (f g : Frame) :
    Balance (s.setFields i j f g) (i :: j :: ts) es fs ks ev :=
  (h.setImg List.mem_cons_self f).setImg (List.mem_cons_of_mem _ List.mem_cons_self) g

theorem Balance.addEmpty (h : Balance s (i :: ts) es fs ks ev) :
    Balance (s.addEmptyImage i) ts (es ++ [i]) fs ks ev :=
  ⟨h.lists.addEmpty, h.front, h.account⟩

theorem Balance.getEmpty (h : Balance s ts (i :: es) fs ks ev) :
    ∃ t, s.getEmptyImage = (t, some i) ∧ Balance t (i :: ts) es fs ks ev ∧ t.target_1 = s.target_1 ∧
      ∀ n ∈ fs, t.img n = s.img n := by
  obtain ⟨heq, hlists⟩ := getEmptyImage_cons h.lists
  rw [heq] at hlists
  have hdel : Balance { s with links := s.links.delInit (.node i) } (i :: ts) es fs ks ev :=
    ⟨hlists.congr rfl rfl, h.front, h.account⟩
  refine ⟨_, heq, hdel.setImg List.mem_cons_self Frame.zero, rfl, fun n hn => ?_⟩
  have hne : n ≠ i := fun heq => hdel.notMem List.mem_cons_self (heq ▸ hn)
  exact Function.update_of_ne hne _ _

theorem modeImg_marked (img : Nat → Frame) (fs after : List Nat) (i n : Nat) :
    Marked (img n) (modeImg img fs after i n) := by
  unfold modeImg
  split
  · split
    · exact marked_marked img [i] n
    · exact Marked.refl _
  · exact marked_marked img after n

/-- The reference is not behind itself. -/
theorem At.notMem (hat : At target fs after) (hnd : fs.Nodup) (ht : target = .node n) :
    n ∉ after := by
  rcases hat with ⟨hh, -⟩ | ⟨a, ha, rfl⟩
  · rw [hh] at ht
    cases ht
  · rw [ht] at ha
    cases ha
    exact (List.nodup_cons.mp hnd).1

theorem modeImg_spares (hat : At target fs after) (hnd : fs.Nodup) (hn : n ∈ fs) (hi : i ∉ fs)
    (ht : target = .node n) : modeImg img fs after i n = img n := by
  have hne : n ∉ [i] := fun hmem => hi (List.mem_singleton.mp hmem ▸ hn)
  unfold modeImg
  split
  · split
    · exact marked_of_notMem hne
    · rfl
  · exact marked_of_notMem (hat.notMem hnd ht)

/-- `VPSS_IMG_AddFulImage` for a frame in one node. -/
theorem Balance.addFrame (h : Balance s (i :: ts) es fs ks ev) (hp : (s.img i).progressive = true)
    (hnew : ¬Entered (s.img i).frameIndex ev) :
    ∃ t ev', s.addFulImage i = some (t, ev') ∧ Balance t ts es (fs ++ [i]) (ks ++ [(s.img i).frameIndex]) (ev ++ ev') ∧
      ∀ l, Entered l ev' → l = (s.img i).frameIndex := by
  obtain ⟨after, hat⟩ := h.front.at
  obtain ⟨t, ht, hlists, himg, htarget, -⟩ := addFulImage_spec h.lists hat
  have hi : i ∉ fs := h.notMem List.mem_cons_self
  have hnd : fs.Nodup := (List.nodup_append.mp h.lists.nodup).2.1
  have hmi : Marked (s.img i) (t.img i) := himg ▸ modeImg_marked s.img fs after i i
  refine ⟨t, _, ht, ⟨hlists, ?_, ?_⟩, fun l hl => ?_⟩
  · rw [htarget, ← hmi.frameIndex]
    refine Front.append ?_ (.frame (hmi.prog hp) .nil)
    refine h.front.mono (fun n _ => himg ▸ modeImg_marked s.img fs after i n) ?_
    rintro n l rest heq rfl - hp
    rw [himg, modeImg_spares hat hnd List.mem_cons_self hi heq]
    exact hp
  · refine h.account.enter hnew (fun l => ?_) (fun l => rfl)
    rw [entered_ful, hmi.frameIndex]
    exact eq_comm
  · rw [entered_ful, hmi.frameIndex] at hl
    exact hl.symm

/-- `VPSS_IMG_AddFulImage` for the two fields of a frame. -/
theorem Balance.addFields (h : Balance s [i, j] es fs ks ev) (hf : (s.img i).IsFirst) (hs : (s.img j).IsSecond)
    (hidx : (s.img j).frameIndex = (s.img i).frameIndex) (hnew : ¬Entered (s.img i).frameIndex ev) :
    ∃ t ev', s.addFields i j = some (t, ev') ∧
      Balance t [] es (fs ++ [i, j]) (ks ++ [(s.img i).frameIndex]) (ev ++ ev') ∧
      ∀ l, Entered l ev' → l = (s.img i).frameIndex := by
  obtain ⟨after, hat⟩ := h.front.at
  obtain ⟨t, ht, hlists, himg, htarget, -⟩ := addFulImage_spec h.lists hat
  have hat' : At t.target_1 (fs ++ [i]) (after ++ [i]) := htarget ▸ hat.snoc i
  obtain ⟨u, hu, hlists', himg', htarget', -⟩ := addFulImage_spec hlists hat'
  have hi : i ∉ fs := h.notMem List.mem_cons_self
  have hnd : (fs ++ [i]).Nodup := (List.nodup_append.mp hlists.nodup).2.1
  have hj : j ∉ fs ++ [i] := by
    intro hmem
    have hnd' := hlists.nodup
    exact (List.nodup_append.mp hnd').2.2 j (by simp) j hmem rfl
  have hm₁ : ∀ n, Marked (s.img n) (t.img n) := fun n => himg ▸ modeImg_marked s.img fs after i n
  have hm₂ : ∀ n, Marked (t.img n) (u.img n) := fun n => himg' ▸ modeImg_marked t.img _ _ j n
  have hm : ∀ n, Marked (s.img n) (u.img n) := fun n => (hm₁ n).trans (hm₂ n)
  have hent : ∀ l, Entered l ([Event.ful i (t.img i)] ++ [.ful j (u.img j)]) ↔ l = (s.img i).frameIndex := by
    intro l
    rw [entered_append, entered_ful, entered_ful, (hm₁ i).frameIndex, (hm j).frameIndex, hidx, or_self]
    exact eq_comm
  refine ⟨u, _, ?_, ⟨?_, ?_, h.account.enter hnew hent (fun l => rfl)⟩, fun l hl => (hent l).mp hl⟩
  · unfold ImgInfo.addFields
    rw [ht, Option.bind_some, hu, Option.map_some]
  · rwa [List.append_assoc] at hlists'
  · rw [htarget', htarget, ← (hm i).frameIndex]
    refine Front.append ?_ (.fields ((hm i).isFirst hf) ((hm j).isSecond hs) ?_ .nil)
    · refine h.front.mono (fun n _ => hm n) ?_
      rintro n l rest heq rfl - hp
      rw [himg', modeImg_spares hat' hnd List.mem_cons_self hj (htarget.trans heq), himg,
        modeImg_spares hat (List.nodup_append.mp hnd).1 List.mem_cons_self hi heq]
      exact hp
    · rw [(hm j).frameIndex, (hm i).frameIndex, hidx]

/-! ## The flags of the last frame -/

theorem markAt_img {p : Ptr} (hn : p ≠ .node n) : (s.markAt p).img n = s.img n := by
  cases p with
  | emptyHead => rfl
  | fulHead => rfl
  | node i =>
    have hne : n ≠ i := fun heq => hn (heq ▸ rfl)
    exact Function.update_of_ne hne _ _

theorem markAt_marked (s : ImgInfo) (p : Ptr) (n : Nat) : Marked (s.img n) ((s.markAt p).img n) := by
  cases p with
  | emptyHead => exact Marked.refl _
  | fulHead => exact Marked.refl _
  | node i =>
    have heq : s.markAt (.node i) = { s with img := marked s.img [i] } := setProgressive_true s i
    rw [heq]
    exact marked_marked s.img [i] n

theorem Lists.prev_ful (h : Lists s ts es (fs ++ [l])) : s.links.prev .fulHead = .node l := by
  rw [h.ful.prev_head, List.map_append]
  simp

theorem Lists.prev_node (h : Lists s ts es (fs ++ l :: after)) :
    s.links.prev (.node l) = (fs.map Ptr.node).getLast?.getD .fulHead := by
  have hring := h.ful
  rw [List.map_append, List.map_cons] at hring
  exact hring.prev_node

theorem Balance.markLastFrame (h : Balance s ts es fs ks ev) : Balance s.markLastFrame ts es fs ks ev := by
  have hr := markAt_remarked s (s.links.prev .fulHead)
  refine h.remark hr.links hr.target hr.numb (fun n _ => markAt_marked s _ n) ?_
  rintro n j rest - hfs - hp
  -- the last node is behind the first two
  obtain ⟨us, l, hl⟩ : ∃ us l, j :: rest = us ++ [l] :=
    ⟨_, _, (List.dropLast_append_getLast (List.cons_ne_nil j rest)).symm⟩
  have hlists := h.lists
  have hnd := (List.nodup_append.mp hlists.nodup).2.1
  rw [hfs, hl] at hlists hnd
  have hprev : s.links.prev .fulHead = .node l :=
    Lists.prev_ful (show Lists s ts es ((n :: us) ++ [l]) from hlists)
  unfold ImgInfo.markLastFrame
  rw [hprev, markAt_img]
  · exact hp
  · rintro heq
    cases heq
    exact (List.nodup_cons.mp hnd).1 (by simp)

/-- `pstTarget_1` is the last but one node of the full list, and the last is interlaced: the last-error flag
    would mark the reference. -/
def ImgInfo.hitsReference (s : ImgInfo) : Bool :=
  match s.links.prev .fulHead with
  | .node l => (s.img l).progressive = false ∧ s.target_1 = s.links.prev (.node l) ∧ s.target_1 ≠ .fulHead
  | _ => false

theorem hitsReference_of_pair (h : Lists s ts es [n, l]) (ht : s.target_1 = .node n)
    (hp : (s.img l).progressive = false) : s.hitsReference = true := by
  have hlast : s.links.prev .fulHead = .node l :=
    Lists.prev_ful (show Lists s ts es ([n] ++ [l]) from h)
  have hprev : s.links.prev (.node l) = .node n :=
    Lists.prev_node (show Lists s ts es ([n] ++ l :: []) from h)
  unfold ImgInfo.hitsReference
  rw [hlast]
  dsimp only
  rw [hprev, ht, hp]
  simp

/-- A list of frames that ends in an interlaced node ends in two fields. -/
theorem Groups.ends_in_fields {us : List Nat} (h : Groups img fs ks) (hfs : fs = us ++ [l])
    (hp : (img l).progressive = false) : ∃ vs a, us = vs ++ [a] := by
  induction h generalizing us with
  | nil => simp at hfs
  | @frame i fs ks prog rest ih =>
    cases us with
    | nil =>
      cases hfs
      rw [prog] at hp
      cases hp
    | cons u us =>
      rw [List.cons_append, List.cons.injEq] at hfs
      obtain ⟨vs, a, rfl⟩ := ih hfs.2
      exact ⟨u :: vs, a, rfl⟩
  | @fields i j fs ks first second idx rest ih =>
    cases us with
    | nil => simp at hfs
    | cons u us =>
      cases us with
      | nil => exact ⟨[], u, rfl⟩
      | cons v us =>
        rw [List.cons_append, List.cons_append, List.cons.injEq, List.cons.injEq] at hfs
        obtain ⟨vs, a, rfl⟩ := ih hfs.2.2
        exact ⟨u :: v :: vs, a, rfl⟩

theorem markLastError_marked (s : ImgInfo) (n : Nat) : Marked (s.img n) (s.markLastError.img n) := by
  unfold ImgInfo.markLastError
  dsimp only
  split
  · split
    · exact Marked.refl _
    · exact ((markAt_marked s _ n).trans (markAt_marked _ _ n)).trans (markAt_marked _ _ n)
  · exact Marked.refl _

theorem markAt_links (s : ImgInfo) (p : Ptr) : (s.markAt p).links = s.links := (markAt_remarked s p).links

/-- Only the last three nodes are marked, and only behind an interlaced one. -/
theorem markLastError_img (hlast : s.links.prev .fulHead = .node l)
    (h₁ : s.links.prev .fulHead ≠ .node n) (h₂ : s.links.prev (.node l) ≠ .node n)
    (h₃ : s.links.prev (s.links.prev (.node l)) ≠ .node n) : s.markLastError.img n = s.img n := by
  unfold ImgInfo.markLastError
  rw [hlast] at h₁ ⊢
  dsimp only
  split
  · rfl
  · rw [markAt_links, markAt_links, markAt_links, markAt_img h₃, markAt_img h₂, markAt_img h₁]

theorem markLastError_of_progressive (hlast : s.links.prev .fulHead = .node l)
    (hp : (s.img l).progressive = true) : s.markLastError = s := by
  unfold ImgInfo.markLastError
  rw [hlast]
  exact if_pos hp

theorem not_isSecond_of_isFirst (hf : f.IsFirst) : ¬f.IsSecond := by
  unfold Frame.IsFirst at hf
  unfold Frame.IsSecond
  rw [hf]
  cases f.topFieldFirst <;> decide

/-- Behind a first field that is the reference come its second field and whole frames. -/
theorem Front.rest_groups (h : Front img target (n :: j :: rest) ks)
    (ht : target = .node n) (hf : (img n).IsFirst) : ∃ ls, Groups img rest ls := by
  cases h with
  | head hh _ =>
    rw [ht] at hh
    cases hh
  | first _ _ _ _ _ hrest => exact ⟨_, hrest⟩
  | second _ second _ => exact absurd second (not_isSecond_of_isFirst hf)

/-- Where the full list is the reference and one field behind it, that field is progressive. -/
def Spared (s : ImgInfo) (fs : List Nat) : Prop :=
  ∀ n l, fs = [n, l] → s.target_1 = .node n → (s.img l).progressive = true

theorem Spared.congr (h : Spared s fs) (ht : t.target_1 = s.target_1)
    (himg : ∀ n ∈ fs, t.img n = s.img n) : Spared t fs := by
  rintro n l rfl htn
  rw [himg l (by simp)]
  exact h n l rfl (ht ▸ htn)

theorem Lists.spared (h : Lists s ts es fs) (hhit : s.hitsReference = false) : Spared s fs := by
  rintro n l rfl ht
  cases hl : (s.img l).progressive with
  | true => rfl
  | false =>
    rw [hitsReference_of_pair h ht hl] at hhit
    cases hhit

theorem Balance.markLastError (h : Balance s ts es fs ks ev) (hspared : Spared s fs) :
    Balance s.markLastError ts es fs ks ev := by
  have hr := markLastError_remarked s
  refine h.remark hr.links hr.target hr.numb (fun n _ => markLastError_marked s n) ?_
  rintro n j rest ht rfl hfirst hp
  have hlists := h.lists
  have hnd := (List.nodup_append.mp hlists.nodup).2.1
  obtain ⟨ls, hgroups⟩ := h.front.rest_groups ht hfirst
  rcases List.eq_nil_or_concat rest with rfl | ⟨us, l, rfl⟩
  · -- the reference and its second field alone: the second must be progressive
    rw [markLastError_of_progressive
      (Lists.prev_ful (show Lists s ts es ([n] ++ [j]) from hlists)) (hspared n j rfl ht)]
    exact hp
  · rw [List.concat_eq_append] at hlists hnd hgroups
    have hlast : s.links.prev .fulHead = .node l :=
      Lists.prev_ful (show Lists s ts es ((n :: j :: us) ++ [l]) from hlists)
    cases hl : (s.img l).progressive with
    | true =>
      rw [markLastError_of_progressive hlast hl]
      exact hp
    | false =>
      obtain ⟨vs, a, rfl⟩ := hgroups.ends_in_fields rfl hl
      have hprev : s.links.prev (.node l) = .node a := by
        rw [Lists.prev_node (show Lists s ts es (((n :: j :: vs) ++ [a]) ++ l :: []) from hlists),
          List.map_append, List.map_singleton, List.getLast?_concat, Option.getD_some]
      have hsplit : Lists s ts es ((n :: j :: vs) ++ a :: [l]) := by
        rw [List.append_assoc] at hlists
        exact hlists
      have hprev' := hsplit.prev_node
      have hn : n ∉ j :: (vs ++ [a] ++ [l]) := (List.nodup_cons.mp hnd).1
      rw [markLastError_img hlast]
      · exact hp
      · rw [hlast]
        rintro heq
        cases heq
        exact hn (by simp)
      · rw [hprev]
        rintro heq
        cases heq
        exact hn (by simp)
      · rw [hprev, hprev']
        intro heq
        rw [List.map_cons, List.map_cons, List.getLast?_cons_cons] at heq
        obtain ⟨b, hb⟩ : ∃ b, ((j :: vs).map Ptr.node).getLast? = some b :=
          ⟨_, List.getLast?_eq_some_getLast (by simp)⟩
        rw [← List.map_cons, hb, Option.getD_some] at heq
        subst heq
        have hmem := List.mem_of_getLast? hb
        rw [node_mem_map] at hmem
        rw [List.append_assoc] at hn
        exact hn (List.mem_append_left _ hmem)

/-! ## The calls -/

/-- The frames of the claim's runs: in one node, or interlaced with both fields. -/
def Frame.Usual (f : Frame) : Prop := f.progressive = true ∨ f.fieldMode = .all
deriving Decidable

theorem splitFrame_isFirst (f : Frame) : (ImgInfo.splitFrame f).1.IsFirst := by
  unfold ImgInfo.splitFrame Frame.IsFirst
  rfl

theorem splitFrame_isSecond (f : Frame) : (ImgInfo.splitFrame f).2.IsSecond := by
  unfold ImgInfo.splitFrame Frame.IsSecond
  rfl

/-- What a call may do: the lists and the account stay in balance, and only `f` came, if any. -/
def Keeps (s : ImgInfo) (ev ev' : List Event) (P : BitVec 32 → Prop) : Prop :=
  (∃ es fs ks, Balance s [] es fs ks (ev ++ ev')) ∧ ∀ l, Entered l ev' → P l

theorem keeps_nil (h : Balance s [] es fs ks ev) : Keeps s ev [] P := by
  refine ⟨⟨es, fs, ks, by rwa [List.append_nil]⟩, ?_⟩
  rintro l ⟨n, g, hmem, -⟩
  exact absurd hmem List.not_mem_nil

theorem Balance.addSplit (h : Balance s [i, j] es fs ks ev) (hij : i ≠ j) {a b : Frame} (ha : a.IsFirst)
    (hb : b.IsSecond) (hai : a.frameIndex = f.frameIndex) (hbi : b.frameIndex = f.frameIndex)
    (hnew : ¬Entered f.frameIndex ev) :
    ∃ t ev', (s.setFields i j a b).addFields i j = some (t, ev') ∧ Keeps t ev ev' (· = f.frameIndex) := by
  have himgi : (s.setFields i j a b).img i = a := by
    unfold ImgInfo.setFields
    dsimp only
    rw [Function.update_of_ne hij, Function.update_self]
  have himgj : (s.setFields i j a b).img j = b := Function.update_self _ _ _
  obtain ⟨t, ev', ht, hbal, hent⟩ := (h.setFields a b).addFields (by rw [himgi]; exact ha)
    (by rw [himgj]; exact hb) (by rw [himgi, himgj, hai, hbi]) (by rw [himgi, hai]; exact hnew)
  refine ⟨t, ev', ht, ⟨_, _, _, hbal⟩, fun l hl => ?_⟩
  rw [hent l hl, himgi, hai]

/-- `VPSS_IMG_AddNewImg` after the nodes are taken. -/
theorem Balance.addImg (h : Balance s [i, j] es fs ks ev) (hij : i ≠ j) (hf : f.Usual)
    (hnew : ¬Entered f.frameIndex ev) (hspared : f.lastFlag = .lastError → f.progressive = false → Spared s fs) :
    ∃ t ev', s.addImg i j f = some (t, ev') ∧ Keeps t ev ev' (· = f.frameIndex) := by
  unfold ImgInfo.addImg
  split
  · rename_i hint
    split
    · refine ((h.setFields _ _).markLastFrame).addSplit hij ?_ ?_ rfl rfl hnew
      · exact splitFrame_isFirst f
      · exact splitFrame_isSecond f
    · rename_i hflag
      have hset := h.setFields (ImgInfo.splitFrame f).1 (ImgInfo.splitFrame f).2
      have hsp : Spared (s.setFields i j (ImgInfo.splitFrame f).1 (ImgInfo.splitFrame f).2) fs := by
        refine (hspared hflag hint.1).congr rfl (fun n hn => ?_)
        have hni : n ≠ i := fun heq => h.notMem List.mem_cons_self (heq ▸ hn)
        have hnj : n ≠ j := fun heq => h.notMem (List.mem_cons_of_mem _ List.mem_cons_self) (heq ▸ hn)
        unfold ImgInfo.setFields
        dsimp only
        rw [Function.update_of_ne hnj, Function.update_of_ne hni]
      exact ⟨_, [], rfl, keeps_nil (hset.markLastError hsp).addEmpty.addEmpty⟩
    · exact h.addSplit hij (splitFrame_isFirst f) (splitFrame_isSecond f) rfl rfl hnew
  · rename_i hint
    have hp : f.progressive = true := by
      rcases hf with hp | hall
      · exact hp
      · cases hp : f.progressive with
        | true => rfl
        | false => exact absurd ⟨hp, hall⟩ hint
    have himg : Function.update s.img i f i = f := Function.update_self _ _ _
    obtain ⟨t, ev', ht, hbal, hent⟩ := (h.setImg List.mem_cons_self f).addFrame
      (by dsimp only; rw [himg, hp]) (by dsimp only; rw [himg]; exact hnew)
    refine ⟨t.addEmptyImage j, ev', ?_, ⟨_, _, _, hbal.addEmpty⟩, fun l hl => ?_⟩
    · dsimp only
      rw [ht, Option.map_some]
    · rw [hent l hl]
      dsimp only
      rw [himg]

theorem Balance.swap (h : Balance s [j, i] es fs ks ev) : Balance s [i, j] es fs ks ev ∧ i ≠ j := by
  have hnd := h.lists.nodup
  refine ⟨⟨h.lists.swap, h.front, h.account⟩, ?_⟩
  rintro rfl
  simp at hnd

theorem addNewImg_keeps (h : Balance s [] es fs ks ev) (hf : f.Usual) (hnew : ¬Entered f.frameIndex ev)
    (hspare : f.lastFlag = .lastError → f.progressive = false → s.checkEmptyNode.2 = true → s.hitsReference = false) :
    ∃ t b ev', s.addNewImg f = some (t, b, ev') ∧ Keeps t ev ev' (· = f.frameIndex) := by
  unfold ImgInfo.addNewImg
  cases es with
  | nil =>
    rw [getEmptyImage_nil h.lists]
    exact ⟨s, false, [], rfl, keeps_nil h⟩
  | cons i es =>
    obtain ⟨t, ht, h₁, htt, hti⟩ := h.getEmpty
    rw [ht]
    dsimp only
    cases es with
    | nil =>
      rw [getEmptyImage_nil h₁.lists]
      exact ⟨_, false, [], rfl, keeps_nil h₁.addEmpty⟩
    | cons j es =>
      obtain ⟨u, hu, h₂, hut, hui⟩ := h₁.getEmpty
      obtain ⟨hswap, hij⟩ := h₂.swap
      have hcheck : s.checkEmptyNode.2 = true := by
        unfold ImgInfo.checkEmptyNode
        rw [ht]
        dsimp only
        rw [hu]
      have hsp : f.lastFlag = .lastError → f.progressive = false → Spared u fs := by
        intro hflag hint
        refine (h.lists.spared (hspare hflag hint hcheck)).congr (hut.trans htt) (fun n hn => ?_)
        rw [hui n hn, hti n hn]
      obtain ⟨v, ev', hv, hk⟩ := hswap.addImg hij hf hnew hsp
      rw [hu]
      dsimp only
      rw [hv]
      exact ⟨v, true, ev', rfl, hk⟩

theorem checkEmptyNode_balance (h : Balance s [] es fs ks ev) :
    ∃ es', Balance s.checkEmptyNode.1 [] es' fs ks ev := by
  unfold ImgInfo.checkEmptyNode
  cases es with
  | nil =>
    rw [getEmptyImage_nil h.lists]
    exact ⟨[], h⟩
  | cons i es =>
    obtain ⟨t, ht, h₁, -, -⟩ := h.getEmpty
    rw [ht]
    dsimp only
    cases es with
    | nil =>
      rw [getEmptyImage_nil h₁.lists]
      exact ⟨_, h₁.addEmpty⟩
    | cons j es =>
      obtain ⟨u, hu, h₂, -, -⟩ := h₁.getEmpty
      rw [hu]
      exact ⟨_, h₂.swap.1.addEmpty.addEmpty⟩

/-- A group that begins with an interlaced image is a first field and its second. -/
theorem Groups.head_fields (h : Groups img (d :: rest) ks)
    (hp : (img d).progressive = false) : ∃ j rest' ls, rest = j :: rest' ∧ ks = (img d).frameIndex :: ls ∧
      (img d).IsFirst ∧ (img j).IsSecond ∧ (img j).frameIndex = (img d).frameIndex ∧ Groups img rest' ls := by
  cases h with
  | frame prog _ =>
    rw [prog] at hp
    cases hp
  | fields first second idx rest => exact ⟨_, _, _, rfl, rfl, first, second, idx, rest⟩

theorem checkImageList_keeps (h : Balance s [] es fs ks ev) :
    Keeps s.checkImageList.1 ev s.checkImageList.2.2 P := by
  obtain ⟨after, hat⟩ := h.front.at
  unfold ImgInfo.checkImageList
  cases after with
  | nil =>
    rw [hat.next h.lists]
    exact keeps_nil h
  | cons d rest =>
    rw [hat.next_cons h.lists]
    dsimp only
    by_cases hp : (s.img d).progressive
    · rw [if_pos hp]
      exact keeps_nil h
    · rw [if_neg hp]
      have hpf : (s.img d).progressive = false := by simpa using hp
      by_cases ht : s.target_1 = .fulHead
      · rw [if_pos ht]
        refine ⟨⟨es, fs, ks, h.lists.congr rfl rfl, ?_, h.account.neutral (by simp) (by simp)⟩, ?_⟩
        · have hfs : fs = d :: rest := by
            rcases hat with ⟨-, hfs⟩ | ⟨a, ha, -⟩
            · exact hfs
            · rw [ht] at ha
              cases ha
          subst hfs
          cases h.front with
          | head _ groups =>
            obtain ⟨j, rest', ls, rfl, rfl, hf, hs, hidx, hrest⟩ := groups.head_fields hpf
            exact .first rfl hf hpf hs hidx hrest
          | first ht' => rw [ht] at ht'; cases ht'
          | second ht' => rw [ht] at ht'; cases ht'
        · rintro l ⟨n, g, hmem, -⟩
          cases List.mem_singleton.mp hmem
      · rw [if_neg ht]
        exact keeps_nil h

/-! ## `VPSS_IMG_Complete` -/

/-- The first node of the list, which ends its frame, is given back. -/
theorem Balance.recycleLast
    (hlists : Lists s [] es (d :: rest)) (hrest : Groups s.img rest ls) (ht : s.target_1 = .fulHead)
    (hneed : s.checkNeedRelease d = true) (hacc : Account ((s.img d).frameIndex :: ls) ev) :
    (s.recycle d).2 = [.rls (s.img d)] ∧ Balance (s.recycle d).1 [] (es ++ [d]) rest ls (ev ++ (s.recycle d).2) := by
  obtain ⟨-, himg, htarget, -, hev⟩ := recycle_spec s d
  rw [if_pos hneed] at hev
  refine ⟨hev, recycle_lists (show Lists s [] es ([] ++ d :: rest) from hlists), ?_, hev ▸ hacc.release⟩
  rw [himg, htarget]
  exact .head ht hrest

/-- A first field becomes the reference, interlaced from now on. -/
theorem keep_front (hnd : (d :: j :: rest).Nodup)
    (hf : (s.img d).IsFirst) (hs : (s.img j).IsSecond) (hidx : (s.img j).frameIndex = (s.img d).frameIndex)
    (hrest : Groups s.img rest ls) :
    Front (s.setProgressive d false).img (.node d) (d :: j :: rest) ((s.img d).frameIndex :: ls) := by
  have hd : (s.setProgressive d false).img d = { s.img d with progressive := false } :=
    Function.update_self _ _ _
  have hne : ∀ n ∈ j :: rest, (s.setProgressive d false).img n = s.img n := by
    intro n hn
    have hnd' : n ≠ d := fun heq => (List.nodup_cons.mp hnd).1 (heq ▸ hn)
    exact Function.update_of_ne hnd' _ _
  have hj := hne j List.mem_cons_self
  have hidx' : (s.img d).frameIndex = ((s.setProgressive d false).img d).frameIndex := by rw [hd]
  rw [hidx']
  refine .first rfl ?_ ?_ ?_ ?_ (hrest.mono (fun n hn => ?_))
  · rw [hd]
    exact hf
  · rw [hd]
  · rw [hj]
    exact hs
  · rw [hj, hd]
    exact hidx
  · rw [hne n (List.mem_cons_of_mem _ hn)]
    exact Marked.refl _

/-- The lists after the loop: `d` is first, alone or with what follows it. -/
theorem completeProgressive_keeps
    (hlists : Lists s [] es (d :: rest)) (ht : s.target_1 = .fulHead) (hp : (s.img d).progressive = true)
    (hgroups : Groups s.img (d :: rest) ks ∨
      ∃ ls, ks = (s.img d).frameIndex :: ls ∧ Groups s.img rest ls) (hacc : Account ks ev) :
    ∃ t ev', s.completeProgressive = some (t, ev') ∧ Keeps t ev ev' P := by
  -- a frame whose last node is `d`
  have hlast : ∀ ls, ks = (s.img d).frameIndex :: ls → Groups s.img rest ls →
      ∃ t ev', s.completeProgressive = some (t, ev') ∧ Keeps t ev ev' P := by
    rintro ls rfl hrest
    have hne := hrest.head_ne (List.nodup_cons.mp hacc.nodup).1
    have hdone := hacc.neutral (e := .done d) (by simp) (by simp)
    obtain ⟨hev, hbal⟩ := Balance.recycleLast hlists hrest ht (checkNeedRelease_progressive hp) hdone
    refine ⟨_, _, completeProgressive_recycle hlists ht hp hne, ⟨es ++ [d], rest, ls, ?_⟩, ?_⟩
    · rwa [List.append_assoc, List.singleton_append] at hbal
    · rw [hev]
      rintro l ⟨n, g, hmem, -⟩
      simp at hmem
  rcases hgroups with hgroups | ⟨ls, hks, hrest⟩
  · cases hgroups with
    | frame prog hrest => exact hlast _ rfl hrest
    | fields first second idx hrest =>
      refine ⟨_, _, completeProgressive_keep hlists ht idx, ⟨es, _, _, hlists.congr rfl rfl,
        keep_front (List.nodup_append.mp hlists.nodup).2.1 first second idx hrest,
        hacc.neutral (by simp) (by simp)⟩, ?_⟩
      rintro l ⟨n, g, hmem, -⟩
      simp at hmem
  · exact hlast ls hks hrest

/-- `VPSS_IMG_Complete` moves the reference from `a` to `d`, the interlaced image behind it. -/
theorem Balance.nextReference {a : Nat} (h : Balance s [] es (a :: d :: rest) ks ev)
    (ht : s.target_1 = .node a) (hp : (s.img d).progressive = false) :
    ∃ ls, Front s.img (.node d) (d :: rest) ls ∧
      Account ls (ev ++ .done d :: if s.checkNeedRelease a then [.rls (s.img a)] else []) := by
  have hdone := h.account.neutral (e := .done d) (by simp) (by simp)
  have hfront := h.front
  generalize hfs : a :: d :: rest = fs at hfront
  cases hfront with
  | head ht' _ => rw [ht] at ht'; cases ht'
  | first ht' first prog second idx hrest =>
    cases hfs
    rw [checkNeedRelease_first first prog]
    refine ⟨_, .second rfl second hrest, ?_⟩
    rw [idx]
    exact hdone
  | second ht' second hrest =>
    cases hfs
    rw [checkNeedRelease_second second]
    obtain ⟨j, rest', ls, rfl, rfl, hf, hs, hidx, hrest'⟩ := hrest.head_fields hp
    refine ⟨_, .first rfl hf hp hs hidx hrest', ?_⟩
    have hrls := hdone.release
    rwa [List.append_assoc] at hrls

theorem complete_keeps (h : Balance s [] es fs ks ev) :
    ∃ t b ev', s.complete = some (t, b, ev') ∧ Keeps t ev ev' P := by
  obtain ⟨after, hat⟩ := h.front.at
  cases after with
  | nil => exact ⟨s, false, [], complete_nil h.lists hat, keeps_nil h⟩
  | cons d rest =>
    cases hp : (s.img d).progressive with
    | true =>
      obtain ⟨t, ev₁, hloop, ht, himg, -, hcases⟩ := releaseLoop_spec h.lists hat
      have hcomplete := complete_progressive h.lists hat hp hloop
      -- what the loop leaves: `d` first, and the account of what it gave back
      obtain ⟨es', ks', hlists, hgroups, hacc, hent⟩ : ∃ es' ks', Lists t [] es' (d :: rest) ∧
          (Groups t.img (d :: rest) ks' ∨ ∃ ls, ks' = (t.img d).frameIndex :: ls ∧ Groups t.img rest ls) ∧
          Account ks' (ev ++ ev₁) ∧ ∀ l, ¬Entered l ev₁ := by
        rw [himg]
        rcases hcases with ⟨rfl, htf, hlists, rfl⟩ | ⟨a, rfl, htn, hlists, rfl⟩
        · refine ⟨es, ks, hlists, ?_, by rw [List.append_nil]; exact h.account, ?_⟩
          · cases h.front with
            | head _ groups => exact .inl groups
            | first ht' => rw [htf] at ht'; cases ht'
            | second ht' => rw [htf] at ht'; cases ht'
          · rintro l ⟨n, g, hmem, -⟩
            exact absurd hmem List.not_mem_nil
        · have hfront := h.front
          have hacc := h.account
          generalize hfs : a :: d :: rest = fs at hfront
          cases hfront with
          | head ht' _ => rw [htn] at ht'; cases ht'
          | first ht' first prog second idx hrest =>
            cases hfs
            rw [checkNeedRelease_first first prog]
            refine ⟨_, _, hlists, .inr ⟨_, ?_, hrest⟩, by rwa [if_neg Bool.false_ne_true,
              List.append_nil], ?_⟩
            · rw [idx]
            · rintro l ⟨n, g, hmem, -⟩
              simp at hmem
          | second ht' second hrest =>
            cases hfs
            rw [checkNeedRelease_second second]
            refine ⟨_, _, hlists, .inl hrest, hacc.release, ?_⟩
            rintro l ⟨n, g, hmem, -⟩
            simp at hmem
      obtain ⟨u, ev₂, hu, ⟨es₂, fs₂, ks₂, hbal⟩, hent₂⟩ :=
        completeProgressive_keeps (P := P) hlists ht (by rw [himg, hp]) hgroups hacc
      refine ⟨u, true, ev₁ ++ ev₂, ?_, ⟨es₂, fs₂, ks₂, by rwa [← List.append_assoc]⟩, ?_⟩
      · rw [hcomplete, hu, Option.map_some]
      · intro l hl
        rcases entered_append.mp hl with hl | hl
        · exact absurd hl (hent l)
        · exact hent₂ l hl
    | false =>
      rcases hat with ⟨ht, rfl⟩ | ⟨a, ht, rfl⟩
      · exact ⟨s, true, [], complete_interlaced_head h.lists ht hp, keeps_nil h⟩
      · obtain ⟨hcomplete, hlists⟩ := complete_interlaced h.lists ht hp
        obtain ⟨ls, hfront, hacc⟩ := h.nextReference ht hp
        obtain ⟨-, himg, -, -, hev⟩ := recycle_spec { s with target_1 := .fulHead } a
        refine ⟨_, true, _, hcomplete, ⟨es ++ [a], d :: rest, ls, hlists.congr rfl rfl, ?_, ?_⟩, ?_⟩
        · dsimp only
          rw [himg]
          exact hfront
        · rw [hev]
          exact hacc
        · rw [hev]
          rintro l ⟨n, g, hmem, -⟩
          split at hmem <;> simp at hmem

/-! ## Runs -/

theorem init_balance (N : Nat) : Balance (ImgInfo.init N) [] (List.range N) [] [] [] := by
  refine ⟨init_lists N, .head rfl .nil, List.nodup_nil, ?_, ?_, ?_⟩
  · exact fun k hk => absurd hk List.not_mem_nil
  · exact fun k _ => rfl
  · rintro k ⟨n, f, hmem, -⟩
    exact absurd hmem List.not_mem_nil

/-- The frame indices that a list of calls brings. -/
def indices (ops : List Op) : List (BitVec 32) :=
  ops.filterMap (fun op => match op with
    | .addNewImg f => some f.frameIndex
    | _ => none)

theorem indices_append (ops ops' : List Op) : indices (ops ++ ops') = indices ops ++ indices ops' :=
  List.filterMap_append

/-- The calls of a run without `VPSS_IMG_Reset`, over usual frames. -/
def Op.Plain : Op → Prop
  | .addNewImg f => f.Usual
  | .reset => False
  | _ => True

/-- The call is `VPSS_IMG_AddNewImg` of an interlaced frame with the last-error flag, there are two nodes for
    it, and it would mark the reference. -/
def ImgInfo.marksReference (s : ImgInfo) : Op → Prop
  | .addNewImg f => f.lastFlag = .lastError ∧ f.progressive = false ∧ s.checkEmptyNode.2 = true ∧
      s.hitsReference = true
  | _ => False

instance : (op : Op) → Decidable op.Plain
  | .addNewImg f => inferInstanceAs (Decidable f.Usual)
  | .reset => isFalse id
  | .checkEmptyNode => isTrue trivial
  | .checkImageList => isTrue trivial
  | .getProcessImg => isTrue trivial
  | .complete => isTrue trivial

instance (s : ImgInfo) : (op : Op) → Decidable (s.marksReference op)
  | .addNewImg _ => inferInstanceAs (Decidable (_ ∧ _ ∧ _ ∧ _))
  | .reset => isFalse id
  | .checkEmptyNode => isFalse id
  | .checkImageList => isFalse id
  | .getProcessImg => isFalse id
  | .complete => isFalse id

/-- **One call** that spares the reference keeps the account of the frames given back. -/
theorem step_balance {op : Op} (h : Balance s [] es fs ks ev)
    (hplain : op.Plain) (hspare : ¬s.marksReference op) (hnew : ∀ k ∈ indices [op], ¬Entered k ev)
    (hstep : step s op = some (t, ev')) : Keeps t ev ev' (· ∈ indices [op]) := by
  cases op with
  | addNewImg f =>
    have hf : f.frameIndex ∈ indices [.addNewImg f] := List.mem_singleton.mpr rfl
    obtain ⟨u, b, ev₁, hu, hkeeps, hent⟩ := addNewImg_keeps h hplain (hnew _ hf)
      (fun hflag hint hempty => by
        by_contra hhit
        exact hspare ⟨hflag, hint, hempty, by simpa using hhit⟩)
    rw [step, hu, Option.map_some] at hstep
    cases hstep
    exact ⟨hkeeps, fun l hl => by rw [hent l hl]; exact hf⟩
  | checkEmptyNode =>
    cases hstep
    obtain ⟨es', hbal⟩ := checkEmptyNode_balance h
    exact keeps_nil hbal
  | checkImageList =>
    cases hstep
    exact checkImageList_keeps h
  | getProcessImg =>
    cases hstep
    exact keeps_nil h
  | complete =>
    obtain ⟨u, b, ev₁, hu, hkeeps⟩ := complete_keeps (P := (· ∈ indices [.complete])) h
    rw [step, hu, Option.map_some] at hstep
    cases hstep
    exact hkeeps
  | reset => exact absurd hplain id

/-- Every run that spares the reference keeps the account. -/
theorem run_balance {N : Nat} {ops : List Op}
    (hrun : Run step (fun s op => op.Plain ∧ ¬s.marksReference op) (ImgInfo.init N) ops s ev)
    (hdistinct : (indices ops).Nodup) :
    (∃ es fs ks, Balance s [] es fs ks ev) ∧ ∀ k, Entered k ev → k ∈ indices ops := by
  refine Run.inv_effects (fun ops s ev => (indices ops).Nodup →
    (∃ es fs ks, Balance s [] es fs ks ev) ∧ ∀ k, Entered k ev → k ∈ indices ops) ?_ ?_ hrun hdistinct
  · refine fun _ => ⟨⟨_, _, _, init_balance N⟩, ?_⟩
    rintro k ⟨n, f, hmem, -⟩
    exact absurd hmem List.not_mem_nil
  · intro ops s ev op t ev' ih hC hnext hnd
    rw [indices_append, List.nodup_append] at hnd
    obtain ⟨⟨es, fs, ks, hbal⟩, hent⟩ := ih hnd.1
    have hnew : ∀ k ∈ indices [op], ¬Entered k ev :=
      fun k hk hek => hnd.2.2 k (hent k hek) k hk rfl
    obtain ⟨hbal', hent'⟩ := step_balance hbal hC.1 hC.2 hnew hnext
    refine ⟨hbal', fun k hk => ?_⟩
    rw [indices_append]
    rcases entered_append.mp hk with hk | hk
    · exact List.mem_append_left _ (hent k hk)
    · exact List.mem_append_right _ (hent' k hk)

/-- A frame to be given back has a node on the full list. -/
theorem Groups.exists_node (h : Groups img fs ks) (hk : k ∈ ks) : ∃ n ∈ fs, (img n).frameIndex = k := by
  induction h with
  | nil => exact absurd hk List.not_mem_nil
  | frame prog _ ih =>
    rcases List.mem_cons.mp hk with rfl | hk
    · exact ⟨_, List.mem_cons_self, rfl⟩
    · obtain ⟨n, hn, heq⟩ := ih hk
      exact ⟨n, List.mem_cons_of_mem _ hn, heq⟩
  | fields first second idx _ ih =>
    rcases List.mem_cons.mp hk with rfl | hk
    · exact ⟨_, List.mem_cons_self, rfl⟩
    · obtain ⟨n, hn, heq⟩ := ih hk
      exact ⟨n, List.mem_cons_of_mem _ (List.mem_cons_of_mem _ hn), heq⟩

theorem Front.exists_node (h : Front img target fs ks) (hk : k ∈ ks) : ∃ n ∈ fs, (img n).frameIndex = k := by
  cases h with
  | head _ rest => exact rest.exists_node hk
  | first _ _ _ _ _ rest =>
    rcases List.mem_cons.mp hk with rfl | hk
    · exact ⟨_, List.mem_cons_self, rfl⟩
    · obtain ⟨n, hn, heq⟩ := rest.exists_node hk
      exact ⟨n, List.mem_cons_of_mem _ (List.mem_cons_of_mem _ hn), heq⟩
  | second _ _ rest =>
    rcases List.mem_cons.mp hk with rfl | hk
    · exact ⟨_, List.mem_cons_self, rfl⟩
    · obtain ⟨n, hn, heq⟩ := rest.exists_node hk
      exact ⟨n, List.mem_cons_of_mem _ hn, heq⟩

/-- **Every frame is given back once.** In every run without `VPSS_IMG_Reset`, over usual frames with distinct
    indices, in which the last-error flag never hits the reference, a frame that came to the full list is given
    back at most once, and exactly once when no node of the full list holds it any more. -/
theorem run_release_once {N : Nat} {ops : List Op}
    (hrun : Run step (fun s op => op.Plain ∧ ¬s.marksReference op) (ImgInfo.init N) ops s ev)
    (hdistinct : (indices ops).Nodup) (hk : Entered k ev) :
    released k ev ≤ 1 ∧
      ((∀ fs : List Nat, Ring s.links .fulHead (fs.map .node) → ∀ n ∈ fs, (s.img n).frameIndex ≠ k) →
        released k ev = 1) := by
  obtain ⟨⟨es, fs, ks, h⟩, -⟩ := run_balance hrun hdistinct
  by_cases hmem : k ∈ ks
  · refine ⟨?_, fun hempty => ?_⟩
    · rw [h.account.pending k (fun _ => hmem)]
      exact Nat.zero_le 1
    · obtain ⟨n, hn, heq⟩ := h.front.exists_node hmem
      exact absurd heq (hempty fs h.lists.ful n hn)
  · have hone := h.account.gone k hk hmem
    exact ⟨hone.le, fun _ => hone⟩

/-- Two interlaced frames and a last-error frame: when the full list is empty again, the frame with index `7`
    was given back once. -/
theorem run_release_once_frame :
    ∃ s ev, Run step (fun s op => op.Plain ∧ ¬s.marksReference op) (ImgInfo.init 6)
        [.addNewImg (testFrame false 7 .zero), .addNewImg (testFrame false 8 .zero), .complete,
          .addNewImg (testFrame false 9 .lastError), .complete, .complete, .complete] s ev ∧
      released 7 ev = 1 := by
  obtain ⟨s, ev, hrun, htest⟩ := exists_run_of_exec step (fun s op => op.Plain ∧ ¬s.marksReference op)
    (ImgInfo.init 6)
    [.addNewImg (testFrame false 7 .zero), .addNewImg (testFrame false 8 .zero), .complete,
      .addNewImg (testFrame false 9 .lastError), .complete, .complete, .complete]
    (fun r => r.1.links.next .fulHead = .fulHead ∧ r.2.any (fun e => match e with
      | .ful _ f => f.frameIndex = 7
      | _ => false)) (by decide +kernel)
  obtain ⟨hempty, hany⟩ := of_decide_eq_true htest
  obtain ⟨e, he, hful⟩ := List.any_eq_true.mp hany
  have hent : Entered 7 ev := by
    cases e with
    | ful i f => exact ⟨i, f, he, of_decide_eq_true hful⟩
    | _ => cases hful
  refine ⟨s, ev, hrun, (run_release_once hrun (by decide) hent).2 (fun fs hring n hn => ?_)⟩
  cases fs with
  | nil => exact absurd hn List.not_mem_nil
  | cons a fs => exact absurd (hempty.symm.trans hring.next_head) (by simp)

/-- The last-error flag hits the reference: the first field of frame `7` is the reference when a last-error
    frame comes, is marked as progressive, and gives the frame back; so does the second field. -/
theorem run_release_twice :
    ∃ s ev, Run step (fun _ op => op.Plain) (ImgInfo.init 6)
        [.addNewImg (testFrame false 7 .zero), .complete, .addNewImg (testFrame false 8 .lastError), .complete]
        s ev ∧ released 7 ev = 2 := by
  exact exists_run_of_decide (by decide +kernel)

end HiSTB.Vpss
