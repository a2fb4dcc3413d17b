import HiSTB.Vpss.Correctness.Lists

/-!
# `Vpss.Correctness.Calls` — every sequence of calls keeps the image lists whole

* `step_inv` — every call returns and keeps the invariant of `Vpss.Correctness.Lists`;
* `deInit_spec` — `VPSS_IMG_DeInit` frees the nodes of both lists;
* `calls_keep_lists` — from `VPSS_IMG_Init`, every sequence of calls: each node is on exactly one list, nothing
  is before `pstTarget_1`, and behind it are the fields that wait.
-/

namespace HiSTB.Vpss

open Lib ListHead

variable {s : ImgInfo} {N : Nat} {ts es fs after : List Nat} {ev : List Event} {i j : Nat}

variable {t : ImgInfo} {fuel : Nat}

/-- The invariant between two calls. -/
def Whole (N : Nat) (s : ImgInfo) (ev : List Event) : Prop := ∃ es fs after, Inv N s [] es fs after ev

/-! ## `VPSS_IMG_AddNewImg` -/

/-- Only `bProgressive` of images changes. -/
structure Remarked (s t : ImgInfo) : Prop where
  links : t.links = s.links
  target : t.target_1 = s.target_1
  numb : t.numb = s.numb
  field : ∀ k, (t.img k).field = (s.img k).field

theorem Remarked.refl (s : ImgInfo) : Remarked s s := ⟨rfl, rfl, rfl, fun _ => rfl⟩

theorem Remarked.trans {u : ImgInfo} (h : Remarked s t) (h' : Remarked t u) : Remarked s u :=
  ⟨h'.links.trans h.links, h'.target.trans h.target, h'.numb.trans h.numb, fun k => (h'.field k).trans (h.field k)⟩

theorem markAt_remarked (s : ImgInfo) (p : Ptr) : Remarked s (s.markAt p) := by
  cases p with
  | emptyHead => exact Remarked.refl s
  | fulHead => exact Remarked.refl s
  | node i =>
    have heq : s.markAt (.node i) = { s with img := marked s.img [i] } := setProgressive_true s i
    rw [heq]
    exact ⟨rfl, rfl, rfl, marked_field s.img [i]⟩

theorem markLastError_remarked (s : ImgInfo) : Remarked s s.markLastError := by
  unfold ImgInfo.markLastError
  dsimp only
  split
  · split
    · exact Remarked.refl s
    · exact ((markAt_remarked _ _).trans (markAt_remarked _ _)).trans (markAt_remarked _ _)
  · exact Remarked.refl s

theorem Inv.remarked (h : Inv N s ts es fs after ev) (hr : Remarked s t) :
    Inv N t ts es fs after ev :=
  h.images hr.links hr.target hr.numb (fun k _ => hr.field k)

theorem Inv.setFields (h : Inv N s (i :: j :: ts) es fs after ev) (f g : Frame) :
    Inv N (s.setFields i j f g) (i :: j :: ts) es fs after ev :=
  (h.setImg List.mem_cons_self f).setImg (List.mem_cons_of_mem _ List.mem_cons_self) g

theorem Inv.addFields (h : Inv N s [i, j] es fs after ev) :
    ∃ t ev', s.addFields i j = some (t, ev') ∧ Whole N t (ev ++ ev') := by
  obtain ⟨t, ev₁, ht, h₁⟩ := h.addFul
  obtain ⟨u, ev₂, hu, h₂⟩ := h₁.addFul
  refine ⟨u, ev₁ ++ ev₂, ?_, ?_⟩
  · unfold ImgInfo.addFields
    rw [ht, Option.bind_some, hu, Option.map_some]
  · rw [← List.append_assoc]
    exact ⟨es, _, _, h₂⟩

theorem Inv.addImg (h : Inv N s [i, j] es fs after ev) (f : Frame) :
    ∃ t ev', s.addImg i j f = some (t, ev') ∧ Whole N t (ev ++ ev') := by
  unfold ImgInfo.addImg
  split
  · have hset := h.setFields (ImgInfo.splitFrame f).1 (ImgInfo.splitFrame f).2
    split
    · exact ((hset.remarked (markAt_remarked _ _)).setFields _ _).addFields
    · have hmarked := hset.remarked (markLastError_remarked _)
      refine ⟨_, [], rfl, ?_⟩
      rw [List.append_nil]
      exact ⟨_, _, _, hmarked.addEmpty.addEmpty⟩
    · exact hset.addFields
  · obtain ⟨t, ev', ht, h'⟩ := (h.setImg List.mem_cons_self f).addFul
    refine ⟨t.addEmptyImage j, ev', ?_, _, _, _, h'.addEmpty⟩
    dsimp only
    rw [ht, Option.map_some]

theorem addNewImg_whole (h : Whole N s ev) (f : Frame) :
    ∃ t b ev', s.addNewImg f = some (t, b, ev') ∧ Whole N t (ev ++ ev') := by
  obtain ⟨es, fs, after, h⟩ := h
  unfold ImgInfo.addNewImg
  cases es with
  | nil =>
    rw [getEmptyImage_nil h.lists]
    exact ⟨s, false, [], rfl, [], fs, after, by rwa [List.append_nil]⟩
  | cons i es =>
    obtain ⟨t, ht, h₁⟩ := h.getEmpty
    rw [ht]
    dsimp only
    cases es with
    | nil =>
      rw [getEmptyImage_nil h₁.lists]
      refine ⟨_, false, [], rfl, ?_⟩
      rw [List.append_nil]
      exact ⟨_, _, _, h₁.addEmpty⟩
    | cons j es =>
      obtain ⟨u, hu, h₂⟩ := h₁.getEmpty
      rw [hu]
      dsimp only
      -- the nodes come as `[j, i]`; the first is the one taken first
      have hswap : Inv N u [i, j] es fs after ev :=
        ⟨h₂.lists.swap, h₂.target, h₂.numb, h₂.waits⟩
      obtain ⟨v, ev', hv, hw⟩ := hswap.addImg f
      rw [hv]
      exact ⟨v, true, ev', rfl, hw⟩

/-! ## The other calls -/

theorem checkEmptyNode_whole (h : Whole N s ev) : Whole N s.checkEmptyNode.1 ev := by
  obtain ⟨es, fs, after, h⟩ := h
  unfold ImgInfo.checkEmptyNode
  cases es with
  | nil =>
    rw [getEmptyImage_nil h.lists]
    exact ⟨[], fs, after, h⟩
  | cons i es =>
    obtain ⟨t, ht, h₁⟩ := h.getEmpty
    rw [ht]
    dsimp only
    cases es with
    | nil =>
      rw [getEmptyImage_nil h₁.lists]
      exact ⟨_, fs, after, h₁.addEmpty⟩
    | cons j es =>
      obtain ⟨u, hu, h₂⟩ := h₁.getEmpty
      rw [hu]
      have hswap : Inv N u [i, j] es fs after ev :=
        ⟨h₂.lists.swap, h₂.target, h₂.numb, h₂.waits⟩
      exact ⟨_, fs, after, hswap.addEmpty.addEmpty⟩

theorem checkImageList_whole (h : Whole N s ev) :
    Whole N s.checkImageList.1 (ev ++ s.checkImageList.2.2) := by
  obtain ⟨es, fs, after, h⟩ := h
  have hsame : Whole N s (ev ++ []) := by
    rw [List.append_nil]
    exact ⟨es, fs, after, h⟩
  unfold ImgInfo.checkImageList
  cases after with
  | nil =>
    rw [h.target.next h.lists]
    exact hsame
  | cons d rest =>
    rw [h.target.next_cons h.lists]
    dsimp only
    by_cases hp : (s.img d).progressive
    · rw [if_pos hp]
      exact hsame
    · rw [if_neg hp]
      by_cases ht : s.target_1 = .fulHead
      · rw [if_pos ht]
        have hfs : fs = d :: rest := by
          rcases h.target with ⟨-, hfs⟩ | ⟨a, ha, -⟩
          · exact hfs
          · rw [ht] at ha
            cases ha
        refine ⟨es, fs, rest, h.lists.congr rfl rfl, .inr ⟨d, rfl, hfs⟩, h.numb, ?_⟩
        rw [waiting_append]
        have hdone := waiting_done h.waits h.head_notMem
        rw [waiting_append] at hdone
        exact hdone
      · rw [if_neg ht]
        exact hsame

/-- The image `d` leaves the list, or stays as the reference. -/
theorem completeProgressive_inv {d : Nat} {rest : List Nat} (h : Inv N s [] es (d :: rest) (d :: rest) ev)
    (ht : s.target_1 = .fulHead) (hp : (s.img d).progressive = true) :
    ∃ t ev', s.completeProgressive = some (t, ev') ∧ Whole N t (ev ++ ev') := by
  have hdone := waiting_done h.waits h.head_notMem
  by_cases hnext : ∀ r ∈ rest.head?, (s.img r).frameIndex ≠ (s.img d).frameIndex
  · obtain ⟨-, himg, htarget, hnumb, hev⟩ := recycle_spec s d
    have hd : Lists s [] es ([] ++ d :: rest) := h.lists
    refine ⟨_, _, completeProgressive_recycle h.lists ht hp hnext, es ++ [d], rest, rest, recycle_lists hd,
      .inl ⟨htarget.trans ht, rfl⟩, hnumb.trans h.numb, ?_⟩
    rw [himg, hev, waiting_cons_rls]
    exact hdone
  · cases rest with
    | nil => exact absurd (fun r hr => by cases hr) hnext
    | cons r rest =>
      have hidx : (s.img r).frameIndex = (s.img d).frameIndex := by
        by_contra hne
        refine hnext (fun k hk => ?_)
        cases hk
        exact hne
      refine ⟨_, _, completeProgressive_keep h.lists ht hidx, es, d :: r :: rest, r :: rest,
        h.lists.congr rfl rfl, .inr ⟨d, rfl, rfl⟩, h.numb, ?_⟩
      rw [← hdone]
      refine fieldsOf_congr (fun k hk => ?_)
      have hkd : k ≠ d := fun heq => h.head_notMem (heq ▸ hk)
      unfold ImgInfo.setProgressive
      dsimp only
      rw [Function.update_of_ne hkd]

theorem complete_whole (h : Whole N s ev) : ∃ t b ev', s.complete = some (t, b, ev') ∧ Whole N t (ev ++ ev') := by
  obtain ⟨es, fs, after, h⟩ := h
  cases after with
  | nil =>
    refine ⟨s, false, [], complete_nil h.lists h.target, es, fs, [], ?_⟩
    rwa [List.append_nil]
  | cons d rest =>
    cases hp : (s.img d).progressive with
    | true =>
      obtain ⟨t, ev₁, hloop, ht, himg, hnumb, hcases⟩ := releaseLoop_spec h.lists h.target
      -- after the loop the reference is the head, and `d` is first
      obtain ⟨es', hinv⟩ : ∃ es', Inv N t [] es' (d :: rest) (d :: rest) (ev ++ ev₁) := by
        have hwaits : fieldsOf t.img (d :: rest) = waiting ev := by rw [himg, h.waits]
        rcases hcases with ⟨-, -, hlists, rfl⟩ | ⟨a, -, -, hlists, rfl⟩
        · exact ⟨_, hlists, .inl ⟨ht, rfl⟩, hnumb.trans h.numb, by rw [List.append_nil, hwaits]⟩
        · exact ⟨_, hlists, .inl ⟨ht, rfl⟩, hnumb.trans h.numb, by rw [waiting_rls, hwaits]⟩
      obtain ⟨u, ev₂, hu, hw⟩ := completeProgressive_inv hinv ht (by rw [himg, hp])
      refine ⟨u, true, ev₁ ++ ev₂, ?_, by rwa [← List.append_assoc]⟩
      rw [complete_progressive h.lists h.target hp hloop, hu, Option.map_some]
    | false =>
      rcases h.target with ⟨ht, rfl⟩ | ⟨a, ht, rfl⟩
      · refine ⟨s, true, [], complete_interlaced_head h.lists ht hp, es, d :: rest, d :: rest, ?_⟩
        rwa [List.append_nil]
      · obtain ⟨hcomplete, hlists⟩ := complete_interlaced h.lists ht hp
        obtain ⟨-, himg, -, hnumb, hev⟩ := recycle_spec { s with target_1 := .fulHead } a
        refine ⟨_, true, _, hcomplete, es ++ [a], d :: rest, rest, hlists.congr rfl rfl,
          .inr ⟨d, rfl, rfl⟩, hnumb.trans h.numb, ?_⟩
        rw [hev, waiting_cons_rls]
        rw [himg]
        exact waiting_done h.waits h.head_notMem

/-! ## `VPSS_IMG_Reset` and `VPSS_IMG_DeInit` -/

theorem resetLoop_spec (h : Lists s ts es fs) (hfuel : fs.length < fuel) :
    ∃ t, s.resetLoop fuel ((fs.map Ptr.node).head?.getD .fulHead) = some t ∧ Lists t ts (es ++ fs) [] ∧
      t.numb = s.numb := by
  induction fs generalizing s es fuel with
  | nil =>
    obtain ⟨fuel, rfl⟩ := Nat.exists_eq_succ_of_ne_zero (Nat.ne_of_gt hfuel)
    exact ⟨s, rfl, by rwa [List.append_nil], rfl⟩
  | cons a fs ih =>
    obtain ⟨fuel, rfl⟩ :=
      Nat.exists_eq_succ_of_ne_zero (Nat.ne_of_gt (Nat.lt_of_le_of_lt (Nat.zero_le _) hfuel))
    have hring : Ring s.links .fulHead ([] ++ Ptr.node a :: fs.map Ptr.node) := h.ful
    have hcons : Lists s ts es ([] ++ a :: fs) := h
    obtain ⟨t, ht, hlists, hnumb⟩ := ih hcons.delFul.addEmpty (Nat.lt_of_succ_lt_succ hfuel)
    rw [List.append_assoc, List.singleton_append] at hlists
    refine ⟨t, ?_, hlists, hnumb⟩
    rw [List.map_cons, List.head?_cons, Option.getD_some]
    unfold ImgInfo.resetLoop
    rw [hring.next_node]
    exact ht

theorem reset_whole (h : Whole N s ev) : ∃ t ev', s.reset = some (t, ev') ∧ Whole N t (ev ++ ev') := by
  obtain ⟨es, fs, after, h⟩ := h
  obtain ⟨t, ht, hlists, hnumb⟩ := resetLoop_spec h.lists (Nat.lt_succ_of_le h.lists.length_le)
  refine ⟨{ t with target_1 := .fulHead }, [.reset], ?_, es ++ fs, [], [], hlists.congr rfl rfl,
    .inl ⟨rfl, rfl⟩, hnumb.trans h.numb, ?_⟩
  · unfold ImgInfo.reset
    rw [h.lists.ful.next_head, ht, Option.map_some]
  · rw [waiting_append]
    rfl

theorem freeLoop_spec {l : Links Ptr} {h : Ptr} {xs : List Nat}
    (hr : Ring l h (xs.map .node)) (hfuel : xs.length < fuel) :
    ∃ m, ImgInfo.freeLoop l h fuel ((xs.map Ptr.node).head?.getD h) = some (m, xs) ∧
      ∀ g ys, Ring l g ys → (∀ x ∈ h :: xs.map .node, x ∉ g :: ys) → Ring m g ys := by
  induction xs generalizing l fuel with
  | nil =>
    obtain ⟨fuel, rfl⟩ := Nat.exists_eq_succ_of_ne_zero (Nat.ne_of_gt hfuel)
    refine ⟨l, ?_, fun g ys hg _ => hg⟩
    unfold ImgInfo.freeLoop
    exact if_pos rfl
  | cons x xs ih =>
    obtain ⟨fuel, rfl⟩ :=
      Nat.exists_eq_succ_of_ne_zero (Nat.ne_of_gt (Nat.lt_of_le_of_lt (Nat.zero_le _) hfuel))
    have hring : Ring l h ([] ++ Ptr.node x :: xs.map Ptr.node) := hr
    have hxh : Ptr.node x ≠ h := by
      rintro rfl
      exact (List.nodup_cons.mp hr.nodup).1 List.mem_cons_self
    obtain ⟨m, hm, hother⟩ := ih hring.delInit (Nat.lt_of_succ_lt_succ hfuel)
    refine ⟨m, ?_, fun g ys hg hdisj => ?_⟩
    · rw [List.map_cons, List.head?_cons, Option.getD_some]
      unfold ImgInfo.freeLoop
      rw [if_neg hxh]
      dsimp only
      rw [hring.next_node, hm, Option.map_some]
    · refine hother g ys (hring.delInit_other hg hdisj) (fun z hz => hdisj z ?_)
      rcases List.mem_cons.mp hz with rfl | hz
      · exact List.mem_cons_self
      · exact List.mem_cons_of_mem _ (List.mem_cons_of_mem _ hz)

/-- `VPSS_IMG_DeInit` frees the nodes of both lists. -/
theorem deInit_spec (h : Lists s [] es fs) : s.deInit = some (es ++ fs, true) := by
  have hlen := h.perm.length_eq
  rw [List.nil_append, List.length_range] at hlen
  have hsum := hlen
  rw [List.length_append] at hsum
  obtain ⟨m, hm, hother⟩ := freeLoop_spec h.empty (show es.length < s.numb + 1 by omega)
  have hful : Ring m .fulHead (fs.map .node) :=
    hother _ _ h.ful (rings_disjoint (by simp) (by simp) (by simp) h.disjoint)
  obtain ⟨m', hm', -⟩ := freeLoop_spec hful (show fs.length < s.numb + 1 by omega)
  unfold ImgInfo.deInit
  rw [h.empty.next_head, hm, Option.bind_some]
  rw [hful.next_head, hm', Option.map_some]
  rw [hlen]
  simp

/-! ## Runs -/

theorem init_lists (N : Nat) : Lists (ImgInfo.init N) [] (List.range N) [] := by
  have hlinks : Ring (ImgInfo.init N).links .emptyHead ((List.range N).map .node) ∧
      Ring (ImgInfo.init N).links .fulHead (([] : List Nat).map .node) := by
    refine forRange_inv (fun n l => Ring l .emptyHead ((List.range n).map .node) ∧
      Ring l .fulHead (([] : List Nat).map Ptr.node)) ⟨?_, Ring.initHead _ _⟩ ?_
    · exact (Ring.initHead _ _).initHead_other (by simp)
    · rintro n l - ⟨he, hf⟩
      refine ⟨?_, ?_⟩
      · rw [List.range_succ, List.map_append]
        exact he.addTail (node_notMem (by simp) (by simp))
      · exact he.addTail_other hf (node_notMem (by simp) (by simp))
          (rings_disjoint (by simp) (by simp) (by simp) (fun k _ => by simp))
  refine ⟨hlinks.1, hlinks.2, ?_⟩
  rw [List.append_nil, List.nil_append]
  exact List.Perm.refl _

theorem init_whole (N : Nat) : Whole N (ImgInfo.init N) [] :=
  ⟨List.range N, [], [], init_lists N, .inl ⟨rfl, rfl⟩, rfl, rfl⟩

/-- **Every call returns and keeps the lists whole.** -/
theorem step_whole (h : Whole N s ev) (op : Op) :
    ∃ t ev', step s op = some (t, ev') ∧ Whole N t (ev ++ ev') := by
  cases op with
  | addNewImg f =>
    obtain ⟨t, b, ev', ht, hw⟩ := addNewImg_whole h f
    exact ⟨t, ev', by rw [step, ht, Option.map_some], hw⟩
  | checkEmptyNode =>
    refine ⟨_, [], rfl, ?_⟩
    rw [List.append_nil]
    exact checkEmptyNode_whole h
  | checkImageList => exact ⟨_, _, rfl, checkImageList_whole h⟩
  | getProcessImg =>
    refine ⟨s, [], rfl, ?_⟩
    rwa [List.append_nil]
  | complete =>
    obtain ⟨t, b, ev', ht, hw⟩ := complete_whole h
    exact ⟨t, ev', by rw [step, ht, Option.map_some], hw⟩
  | reset => exact reset_whole h

/-- **The image lists stay whole.** From `VPSS_IMG_Init`, every sequence of calls returns. Then every node is
    on exactly one of the two lists, once; `pstTarget_1` is the head of the full list or its first node, so
    that no node is before it; behind it are, in the order of their arrival, the fields that were neither
    processed by `VPSS_IMG_Complete` nor passed over by `VPSS_IMG_CheckImageList`; and `VPSS_IMG_DeInit`
    would free every node once. -/
theorem calls_keep_lists (N : Nat) (ops : List Op) :
    ∃ s ev, Run step always (ImgInfo.init N) ops s ev ∧ ∃ es fs after,
      Ring s.links .emptyHead (es.map .node) ∧ Ring s.links .fulHead (fs.map .node) ∧
      (es ++ fs).Perm (List.range N) ∧
      ((s.target_1 = .fulHead ∧ fs = after) ∨ ∃ a, s.target_1 = .node a ∧ fs = a :: after) ∧
      fieldsOf s.img after = waiting ev ∧ s.deInit = some (es ++ fs, true) := by
  obtain ⟨s, ev, hrun, es, fs, after, h⟩ := Run.total (fun _ s ev => Whole N s ev) (init_whole N)
    (fun _ s ev op h => ⟨trivial, step_whole h op⟩) ops
  have hperm := h.lists.perm
  rw [List.nil_append, h.numb] at hperm
  exact ⟨s, ev, hrun, es, fs, after, h.lists.empty, h.lists.ful, hperm, h.target, h.waits,
    deInit_spec h.lists⟩

/-- The nodes from `p` to the end of the full list. -/
def nodesFrom (s : ImgInfo) : Nat → Ptr → List Nat
  | 0, _ => []
  | fuel + 1, .node i => i :: nodesFrom s fuel (s.links.next (.node i))
  | _ + 1, _ => []

/-- A frame for tests. -/
def testFrame (progressive : Bool) (index : BitVec 32) (lastFlag : LastFlag) : Frame :=
  ⟨progressive, .all, true, index, lastFlag, 0, 0, 0, 0, false⟩

/-- An interlaced frame comes while a progressive one waits. When the progressive one is done,
    `VPSS_IMG_CheckImageList` makes the first field the reference: it was never processed, and it is not behind
    `pstTarget_1`. -/
theorem calls_pass_over_field :
    ∃ s ev, Run step always (ImgInfo.init 4)
        [.addNewImg (testFrame true 1 .zero), .addNewImg (testFrame false 2 .zero), .complete, .checkImageList]
        s ev ∧ s.target_1 = .node 2 ∧ nodesFrom s 4 (s.links.next s.target_1) = [3] ∧
      (unprocessed ev).map Prod.fst = [2, 3] := by
  exact exists_run_of_decide (by decide)

end HiSTB.Vpss
