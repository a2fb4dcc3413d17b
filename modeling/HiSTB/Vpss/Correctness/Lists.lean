import HiSTB.Vpss.Img

/-!
# `Vpss.Correctness.Lists` — no node of the image lists is lost

`Lists s ts es fs` ties the links of the two rings to the nodes `es` of the empty list and `fs` of the full
one; `ts` are nodes in a caller's hands. `Inv` adds where `pstTarget_1` stands: on the head of the full list
or on its first node, so that nothing is before it and `after` is everything behind it.

* `step_inv` — every call returns and keeps `Inv`;
* `calls_keep_lists` — every sequence of calls: each node is on exactly one list, and behind `pstTarget_1` are
  the fields that are neither processed nor passed over, in the order of their arrival.
-/

namespace HiSTB.Vpss

open Lib ListHead

variable {l rest : List Nat} {h target : Ptr} {t : ImgInfo} {d : Nat} {img : Nat → Frame}

/-- What stays of an image: `bProgressive` is rewritten while the image waits. -/
def Frame.field (f : Frame) : Frame := { f with progressive := false }

/-- One event for the list of the fields not processed yet. -/
def unprocessedStep (w : List (Nat × Frame)) : Event → List (Nat × Frame)
  | .ful i f => w ++ [(i, f.field)]
  | .done i => w.filter (fun p => p.1 ≠ i)
  | .passed _ => w
  | .rls _ => w
  | .reset => []

/-- The fields that came to the full list and were not processed, in the order of their arrival. -/
def unprocessed (ev : List Event) : List (Nat × Frame) := ev.foldl unprocessedStep []

/-- A field that was passed over counts as done. -/
def Event.passedDone : Event → Event
  | .passed i => .done i
  | e => e

/-- The fields that came to the full list and were neither processed nor passed over. -/
def waiting (ev : List Event) : List (Nat × Frame) := unprocessed (ev.map Event.passedDone)

/-- The rings hold the nodes `es` and `fs`; the nodes `ts` are on neither. -/
structure Lists (s : ImgInfo) (ts es fs : List Nat) : Prop where
  empty : Ring s.links .emptyHead (es.map .node)
  ful : Ring s.links .fulHead (fs.map .node)
  perm : (ts ++ es ++ fs).Perm (List.range s.numb)

/-- The reference is the head of the full list or its first node, and `after` stands behind it. -/
def At (target : Ptr) (fs after : List Nat) : Prop :=
  (target = .fulHead ∧ fs = after) ∨ ∃ a, target = .node a ∧ fs = a :: after

variable {s : ImgInfo} {ts es fs after : List Nat} {i j : Nat}

/-! ## Moving nodes -/

theorem node_mem_map : Ptr.node i ∈ l.map .node ↔ i ∈ l := by
  simp

theorem node_notMem (hh : ∀ k, h ≠ .node k) (hi : i ∉ l) :
    Ptr.node i ∉ h :: l.map .node := by
  rw [List.mem_cons, not_or]
  exact ⟨fun heq => hh i heq.symm, fun hmem => hi (node_mem_map.mp hmem)⟩

theorem rings_disjoint {g : Ptr} {m : List Nat} (hh : ∀ k, h ≠ .node k) (hg : ∀ k, g ≠ .node k)
    (hhg : h ≠ g) (hlm : ∀ k ∈ l, k ∉ m) : ∀ x ∈ h :: l.map .node, x ∉ g :: m.map .node := by
  intro x hx
  rcases List.mem_cons.mp hx with rfl | hx
  · rw [List.mem_cons, not_or]
    refine ⟨hhg, fun hmem => ?_⟩
    obtain ⟨k, _, heq⟩ := List.mem_map.mp hmem
    exact hh k heq.symm
  · obtain ⟨k, hk, rfl⟩ := List.mem_map.mp hx
    exact node_notMem hg (hlm k hk)

theorem Lists.nodup (h : Lists s ts es fs) : (ts ++ es ++ fs).Nodup :=
  h.perm.nodup_iff.mpr List.nodup_range

theorem Lists.disjoint (h : Lists s ts es fs) : ∀ k ∈ es, k ∉ fs := by
  intro k hk hk'
  exact (List.nodup_append.mp h.nodup).2.2 k (List.mem_append_right _ hk) k hk' rfl

theorem Lists.length_le (h : Lists s ts es fs) : fs.length ≤ s.numb := by
  have hlen := h.perm.length_eq
  rw [List.length_append, List.length_range] at hlen
  omega

theorem Lists.congr (h : Lists s ts es fs) (hlinks : t.links = s.links)
    (hnumb : t.numb = s.numb) : Lists t ts es fs :=
  ⟨hlinks ▸ h.empty, hlinks ▸ h.ful, hnumb ▸ h.perm⟩

theorem Lists.swap (h : Lists s [j, i] es fs) : Lists s [i, j] es fs := by
  have hperm : ([i, j] ++ es ++ fs).Perm ([j, i] ++ es ++ fs) :=
    (List.Perm.swap j i []).append_right es |>.append_right fs
  exact ⟨h.empty, h.ful, hperm.trans h.perm⟩

/-- A node goes to the end of the full list. -/
theorem Lists.addFul (h : Lists s (i :: ts) es fs) :
    Lists { s with links := s.links.addTail (.node i) .fulHead } ts es (fs ++ [i]) := by
  have hnd := h.nodup
  rw [List.append_assoc, List.cons_append, List.nodup_cons] at hnd
  have hes : i ∉ es := fun hmem => hnd.1 (by simp [hmem])
  have hfs : i ∉ fs := fun hmem => hnd.1 (by simp [hmem])
  refine ⟨?_, ?_, ?_⟩
  · exact h.ful.addTail_other h.empty (node_notMem (by simp) hes)
      (rings_disjoint (by simp) (by simp) (by simp) (fun k hk hk' => h.disjoint k hk' hk))
  · rw [List.map_append]
    exact h.ful.addTail (node_notMem (by simp) hfs)
  · refine List.Perm.trans ?_ h.perm
    rw [List.cons_append, List.cons_append, ← List.append_assoc]
    exact List.perm_append_singleton i _

/-- A node goes to the end of the empty list. -/
theorem Lists.addEmpty (h : Lists s (i :: ts) es fs) : Lists (s.addEmptyImage i) ts (es ++ [i]) fs := by
  have hnd := h.nodup
  rw [List.append_assoc, List.cons_append, List.nodup_cons] at hnd
  have hes : i ∉ es := fun hmem => hnd.1 (by simp [hmem])
  have hfs : i ∉ fs := fun hmem => hnd.1 (by simp [hmem])
  refine ⟨?_, ?_, ?_⟩
  · rw [List.map_append]
    exact h.empty.addTail (node_notMem (by simp) hes)
  · exact h.empty.addTail_other h.ful (node_notMem (by simp) hfs)
      (rings_disjoint (by simp) (by simp) (by simp) h.disjoint)
  · refine List.Perm.trans ?_ h.perm
    rw [← List.append_assoc]
    refine List.Perm.append_right fs ?_
    exact (List.perm_append_singleton i _).trans (by rw [List.cons_append])

/-- A node leaves the full list. -/
theorem Lists.delFul (h : Lists s ts es (fs ++ i :: after)) :
    Lists { s with links := s.links.delInit (.node i) } (i :: ts) es (fs ++ after) := by
  have hful := h.ful
  rw [List.map_append, List.map_cons] at hful
  refine ⟨?_, ?_, ?_⟩
  · refine hful.delInit_other h.empty ?_
    rw [← List.map_cons, ← List.map_append]
    exact rings_disjoint (by simp) (by simp) (by simp) (fun k hk hk' => h.disjoint k hk' hk)
  · rw [List.map_append]
    exact hful.delInit
  · refine List.Perm.trans ?_ h.perm
    rw [List.cons_append, List.cons_append, ← List.append_assoc, ← List.append_assoc]
    exact List.perm_middle.symm

/-- `VPSS_IMG_GetEmptyImage` takes the first node of the empty list, if there is one. -/
theorem getEmptyImage_cons (h : Lists s ts (i :: es) fs) :
    s.getEmptyImage = ({ s with
        links := s.links.delInit (.node i)
        img := Function.update s.img i Frame.zero }, some i) ∧
      Lists s.getEmptyImage.1 (i :: ts) es fs := by
  have hnext : s.links.next .emptyHead = .node i := h.empty.next_head
  have heq : s.getEmptyImage = ({ s with
        links := s.links.delInit (.node i)
        img := Function.update s.img i Frame.zero }, some i) := by
    unfold ImgInfo.getEmptyImage
    rw [hnext]
  have hring : Ring s.links .emptyHead ([] ++ Ptr.node i :: es.map Ptr.node) := h.empty
  refine ⟨heq, ?_⟩
  rw [heq]
  refine ⟨hring.delInit, ?_, ?_⟩
  · exact hring.delInit_other h.ful (rings_disjoint (by simp) (by simp) (by simp) h.disjoint)
  · refine List.Perm.trans ?_ h.perm
    exact List.Perm.append_right fs List.perm_middle.symm

theorem getEmptyImage_nil (h : Lists s ts [] fs) : s.getEmptyImage = (s, none) := by
  have hnext : s.links.next .emptyHead = .emptyHead := h.empty.next_head
  unfold ImgInfo.getEmptyImage
  rw [hnext]

/-! ## What the calls do to the lists -/

/-- The images with `bProgressive` set at the nodes `vs`. -/
def marked (img : Nat → Frame) (vs : List Nat) : Nat → Frame :=
  fun k => if k ∈ vs then { img k with progressive := true } else img k

theorem marked_field (img : Nat → Frame) (vs : List Nat) (k : Nat) :
    (marked img vs k).field = (img k).field := by
  unfold marked
  split <;> rfl

theorem marked_nil (img : Nat → Frame) : marked img [] = img := by
  funext k
  exact if_neg List.not_mem_nil

theorem setProgressive_true (s : ImgInfo) (i : Nat) :
    s.setProgressive i true = { s with img := marked s.img [i] } := by
  unfold ImgInfo.setProgressive
  congr 1
  funext k
  unfold marked
  rcases eq_or_ne k i with rfl | hk
  · rw [Function.update_self, if_pos (List.mem_singleton_self k)]
  · rw [Function.update_of_ne hk, if_neg (fun hmem => hk (List.mem_singleton.mp hmem))]

theorem marked_cons (img : Nat → Frame) (v : Nat) (vs : List Nat) :
    marked (marked img [v]) vs = marked img (v :: vs) := by
  funext k
  unfold marked
  by_cases hv : k = v <;> by_cases hvs : k ∈ vs <;> simp [hv, hvs]

theorem At.next (h : Lists s ts es fs) (hat : At s.target_1 fs after) :
    s.links.next s.target_1 = (after.map Ptr.node).head?.getD .fulHead := by
  rcases hat with ⟨ht, rfl⟩ | ⟨a, ht, rfl⟩
  · rw [ht]
    exact h.ful.next_head
  · have hring : Ring s.links .fulHead ([] ++ Ptr.node a :: after.map Ptr.node) := h.ful
    rw [ht]
    exact hring.next_node

theorem At.next_cons (h : Lists s ts es fs) (hat : At s.target_1 fs (d :: rest)) :
    s.links.next s.target_1 = .node d := hat.next h

/-- `VPSS_IMG_Complete` for an interlaced image without a reference does nothing. -/
theorem complete_interlaced_head (h : Lists s ts es (d :: rest))
    (ht : s.target_1 = .fulHead) (hp : (s.img d).progressive = false) : s.complete = some (s, true, []) := by
  have hat : At s.target_1 (d :: rest) (d :: rest) := .inl ⟨ht, rfl⟩
  unfold ImgInfo.complete
  rw [hat.next_cons h]
  dsimp only
  rw [if_neg (by rw [hp]; exact Bool.noConfusion)]
  unfold ImgInfo.completeInterlaced
  rw [ht]
  rfl

theorem complete_nil (h : Lists s ts es fs) (hat : At s.target_1 fs []) : s.complete = some (s, false, []) := by
  unfold ImgInfo.complete
  rw [hat.next h]
  rfl

/-- The image `d` is done and its second field follows: it stays as the reference. -/
theorem completeProgressive_keep {r : Nat} (h : Lists s ts es (d :: r :: rest))
    (ht : s.target_1 = .fulHead) (hidx : (s.img r).frameIndex = (s.img d).frameIndex) :
    s.completeProgressive = some ({ s.setProgressive d false with target_1 := .node d }, [.done d]) := by
  have hfirst : s.links.next .fulHead = .node d := h.ful.next_head
  have hring : Ring s.links .fulHead ([] ++ Ptr.node d :: (r :: rest).map Ptr.node) := h.ful
  have hsecond : s.links.next (.node d) = .node r := hring.next_node
  unfold ImgInfo.completeProgressive
  rw [ht, hfirst]
  dsimp only
  rw [hsecond]
  dsimp only
  rw [if_pos hidx]

theorem At.snoc (hat : At target fs after) (i : Nat) : At target (fs ++ [i]) (after ++ [i]) := by
  rcases hat with ⟨ht, rfl⟩ | ⟨a, ht, rfl⟩
  · exact .inl ⟨ht, rfl⟩
  · exact .inr ⟨a, ht, rfl⟩

theorem At.suffix (hat : At target fs after) : ∃ us, fs = us ++ after := by
  rcases hat with ⟨-, rfl⟩ | ⟨a, -, rfl⟩
  · exact ⟨[], rfl⟩
  · exact ⟨[a], rfl⟩

/-- The loop marks every node from its start to the end of the full list. -/
theorem markLoop_eq {us vs : List Nat} {fuel : Nat} (h : Ring s.links .fulHead ((us ++ vs).map .node))
    (hfuel : vs.length < fuel) :
    s.markLoop fuel ((vs.map Ptr.node).head?.getD .fulHead) = some { s with img := marked s.img vs } := by
  induction vs generalizing us s fuel with
  | nil =>
    obtain ⟨fuel, rfl⟩ := Nat.exists_eq_succ_of_ne_zero (Nat.ne_of_gt hfuel)
    rw [marked_nil]
    rfl
  | cons v vs ih =>
    obtain ⟨fuel, rfl⟩ := Nat.exists_eq_succ_of_ne_zero (Nat.ne_of_gt (Nat.lt_of_le_of_lt (Nat.zero_le _) hfuel))
    have hnext : s.links.next (.node v) = (vs.map Ptr.node).head?.getD .fulHead := by
      rw [List.map_append, List.map_cons] at h
      exact h.next_node
    have hrest : Ring (s.setProgressive v true).links .fulHead ((us ++ [v] ++ vs).map .node) := by
      rw [List.append_assoc]
      exact h
    have hih := ih hrest (Nat.lt_of_succ_lt_succ hfuel)
    rw [List.map_cons, List.head?_cons, Option.getD_some]
    unfold ImgInfo.markLoop
    dsimp only
    rw [hnext, hih, setProgressive_true]
    rw [marked_cons]

/-- The images after `VPSS_IMG_AddFulImage` has looked at the new one. -/
def modeImg (img : Nat → Frame) (fs after : List Nat) (i : Nat) : Nat → Frame :=
  if (img i).progressive = false then (if fs = [] then marked img [i] else img) else marked img after

theorem modeImg_field (img : Nat → Frame) (fs after : List Nat) (i k : Nat) :
    (modeImg img fs after i k).field = (img k).field := by
  unfold modeImg
  split
  · split
    · exact marked_field img [i] k
    · rfl
  · exact marked_field img after k

theorem Lists.ful_empty (h : Lists s ts es fs) : s.links.next .fulHead = .fulHead ↔ fs = [] := by
  rw [h.ful.next_head]
  cases fs with
  | nil => simp
  | cons a fs => simp

theorem changeMode_eq (h : Lists s ts es fs) (hat : At s.target_1 fs after) (i : Nat) :
    s.changeMode i = some { s with img := modeImg s.img fs after i } := by
  obtain ⟨us, hus⟩ := hat.suffix
  unfold ImgInfo.changeMode modeImg
  by_cases hp : (s.img i).progressive = false
  · rw [if_pos hp, if_pos hp]
    by_cases hfs : fs = []
    · rw [if_pos (h.ful_empty.mpr hfs), if_pos hfs, setProgressive_true]
    · rw [if_neg (fun he => hfs (h.ful_empty.mp he)), if_neg hfs]
  · rw [if_neg hp, if_neg hp]
    by_cases hfs : fs = []
    · rw [if_neg (fun hne => hne (h.ful_empty.mpr hfs))]
      have hafter : after = [] := by
        rw [hfs] at hus
        exact (List.append_eq_nil_iff.mp hus.symm).2
      rw [hafter, marked_nil]
    · rw [if_pos (fun he => hfs (h.ful_empty.mp he)), hat.next h]
      have hring := h.ful
      have hlen := h.length_le
      rw [hus] at hring hlen
      rw [List.length_append] at hlen
      exact markLoop_eq hring (by omega)

/-- `VPSS_IMG_AddFulImage`: the node goes to the end of the full list. -/
theorem addFulImage_spec (h : Lists s (i :: ts) es fs) (hat : At s.target_1 fs after) :
    ∃ t, s.addFulImage i = some (t, [.ful i (t.img i)]) ∧ Lists t ts es (fs ++ [i]) ∧
      t.img = modeImg s.img fs after i ∧ t.target_1 = s.target_1 ∧ t.numb = s.numb := by
  have hmode : Lists { s with img := modeImg s.img fs after i } (i :: ts) es fs := h.congr rfl rfl
  refine ⟨_, ?_, hmode.addFul, rfl, rfl, rfl⟩
  unfold ImgInfo.addFulImage
  rw [changeMode_eq h hat]
  rfl

theorem recycle_spec (s : ImgInfo) (i : Nat) :
    (s.recycle i).1.links = (s.links.delInit (.node i)).addTail (.node i) .emptyHead ∧
      (s.recycle i).1.img = s.img ∧ (s.recycle i).1.target_1 = s.target_1 ∧
      (s.recycle i).1.numb = s.numb ∧
      (s.recycle i).2 = if s.checkNeedRelease i then [.rls (s.img i)] else [] := by
  have hneed : ImgInfo.checkNeedRelease { s with links := s.links.delInit (.node i) } i
      = s.checkNeedRelease i := rfl
  unfold ImgInfo.recycle
  dsimp only
  rw [hneed]
  by_cases hn : s.checkNeedRelease i
  · rw [if_pos hn, if_pos hn]
    exact ⟨rfl, rfl, rfl, rfl, rfl⟩
  · rw [if_neg hn, if_neg hn]
    exact ⟨rfl, rfl, rfl, rfl, rfl⟩

theorem recycle_lists (h : Lists s ts es (fs ++ i :: after)) :
    Lists (s.recycle i).1 ts (es ++ [i]) (fs ++ after) := by
  obtain ⟨hlinks, -, -, hnumb, -⟩ := recycle_spec s i
  exact h.delFul.addEmpty.congr hlinks hnumb

/-- The loop of `VPSS_IMG_Complete` gives up the reference, if there is one. -/
theorem releaseLoop_spec (h : Lists s ts es fs) (hat : At s.target_1 fs after) :
    ∃ t ev, s.releaseLoop (s.numb + 1) (s.links.next .fulHead) = some (t, ev) ∧ t.target_1 = .fulHead ∧
      t.img = s.img ∧ t.numb = s.numb ∧
      ((fs = after ∧ s.target_1 = .fulHead ∧ Lists t ts es after ∧ ev = []) ∨
        ∃ a, fs = a :: after ∧ s.target_1 = .node a ∧ Lists t ts (es ++ [a]) after ∧
          ev = if s.checkNeedRelease a then [.rls (s.img a)] else []) := by
  rcases hat with ⟨ht, rfl⟩ | ⟨a, ht, rfl⟩
  · refine ⟨s, [], ?_, ht, rfl, rfl, .inl ⟨rfl, ht, h, rfl⟩⟩
    unfold ImgInfo.releaseLoop
    rw [ht, if_pos rfl]
  · have hring : Ring s.links .fulHead ([] ++ Ptr.node a :: after.map Ptr.node) := h.ful
    have hfirst : s.links.next .fulHead = .node a := h.ful.next_head
    have hprev : s.links.prev (.node a) = .fulHead := hring.prev_node
    have hnext : s.links.next (.node a) = (after.map Ptr.node).head?.getD .fulHead := hring.next_node
    have hnd := List.nodup_cons.mp (List.nodup_append.mp h.nodup).2.1
    have hne : Ptr.node a ≠ s.links.next (.node a) := by
      rw [hnext]
      cases after with
      | nil => simp
      | cons b rest =>
        intro heq
        exact hnd.1 (by simp [Ptr.node.inj heq])
    let u : ImgInfo := { s with target_1 := .fulHead }
    have hu : Lists u ts es ([] ++ a :: after) := h.congr rfl rfl
    have hlists : Lists (u.recycle a).1 ts (es ++ [a]) after := recycle_lists hu
    obtain ⟨-, himg, htarget, hnumb, hev⟩ := recycle_spec u a
    have hnumb' : 0 < s.numb := by
      have hlen := h.length_le
      rw [List.length_cons] at hlen
      omega
    refine ⟨(u.recycle a).1, (u.recycle a).2, ?_, htarget, himg, hnumb, .inr ⟨a, rfl, ht, hlists, hev⟩⟩
    obtain ⟨n, hn⟩ := Nat.exists_eq_succ_of_ne_zero (Nat.ne_of_gt hnumb')
    rw [hfirst, hn]
    unfold ImgInfo.releaseLoop
    rw [ht, if_neg hne]
    dsimp only
    rw [if_pos rfl, hprev]
    unfold ImgInfo.releaseLoop
    rw [htarget, hnext, hlists.ful.next_head, if_pos rfl, Option.map_some, List.append_nil]

/-- The image `d` is done and its second field does not follow: it leaves the list. -/
theorem completeProgressive_recycle (h : Lists s ts es (d :: rest))
    (ht : s.target_1 = .fulHead) (hp : (s.img d).progressive = true)
    (hnext : ∀ r ∈ rest.head?, (s.img r).frameIndex ≠ (s.img d).frameIndex) :
    s.completeProgressive = some ((s.recycle d).1, .done d :: (s.recycle d).2) := by
  have hfirst : s.links.next .fulHead = .node d := h.ful.next_head
  have hring : Ring s.links .fulHead ([] ++ Ptr.node d :: rest.map Ptr.node) := h.ful
  have hpf : ¬(s.img d).progressive = false := by
    rw [hp]
    exact Bool.noConfusion
  unfold ImgInfo.completeProgressive
  rw [ht, hfirst]
  dsimp only
  cases rest with
  | nil =>
    have hsecond : s.links.next (.node d) = .fulHead := hring.next_node
    rw [hsecond]
  | cons r rest =>
    have hsecond : s.links.next (.node d) = .node r := hring.next_node
    rw [hsecond]
    dsimp only
    rw [if_neg (hnext r rfl), if_neg hpf]

/-- `VPSS_IMG_Complete` for a progressive image. -/
theorem complete_progressive (h : Lists s ts es fs)
    (hat : At s.target_1 fs (d :: rest)) (hp : (s.img d).progressive = true) {ev : List Event}
    (hloop : s.releaseLoop (s.numb + 1) (s.links.next .fulHead) = some (t, ev)) :
    s.complete = t.completeProgressive.map (fun q => (q.1, true, ev ++ q.2)) := by
  unfold ImgInfo.complete
  rw [hat.next_cons h]
  dsimp only
  rw [if_pos hp, hloop, Option.bind_some]

/-- `VPSS_IMG_Complete` for an interlaced image: the reference is given up for it. -/
theorem complete_interlaced {a : Nat} (h : Lists s ts es (a :: d :: rest))
    (ht : s.target_1 = .node a) (hp : (s.img d).progressive = false) :
    s.complete = some ({ (ImgInfo.recycle { s with target_1 := .fulHead } a).1 with target_1 := .node d }, true,
        .done d :: (ImgInfo.recycle { s with target_1 := .fulHead } a).2) ∧
      Lists (ImgInfo.recycle { s with target_1 := .fulHead } a).1 ts (es ++ [a]) (d :: rest) := by
  have hat : At s.target_1 (a :: d :: rest) (d :: rest) := .inr ⟨a, ht, rfl⟩
  have hring : Ring s.links .fulHead ([] ++ Ptr.node a :: (d :: rest).map Ptr.node) := h.ful
  have hprev : s.links.prev (.node a) = .fulHead := hring.prev_node
  have hu : Lists { s with target_1 := .fulHead } ts es ([] ++ a :: d :: rest) := h.congr rfl rfl
  have hlists := recycle_lists hu
  have htarget := (recycle_spec { s with target_1 := .fulHead } a).2.2.1
  have hnext : (ImgInfo.recycle { s with target_1 := .fulHead } a).1.links.next .fulHead = .node d :=
    hlists.ful.next_head
  refine ⟨?_, hlists⟩
  unfold ImgInfo.complete
  rw [hat.next_cons h]
  dsimp only
  rw [if_neg (by rw [hp]; exact Bool.noConfusion)]
  unfold ImgInfo.completeInterlaced
  rw [ht]
  dsimp only
  rw [hprev, htarget, hnext]
  rfl

/-! ## The invariant -/

/-- The nodes `after` with their fields. -/
def fieldsOf (img : Nat → Frame) (after : List Nat) : List (Nat × Frame) :=
  after.map (fun k => (k, (img k).field))

/-- The lists are whole, and behind the reference are the fields that wait. -/
structure Inv (N : Nat) (s : ImgInfo) (ts es fs after : List Nat) (ev : List Event) : Prop where
  lists : Lists s ts es fs
  target : At s.target_1 fs after
  numb : s.numb = N
  waits : fieldsOf s.img after = waiting ev

theorem waiting_append (ev ev' : List Event) :
    waiting (ev ++ ev') = (ev'.map Event.passedDone).foldl unprocessedStep (waiting ev) := by
  unfold waiting unprocessed
  rw [List.map_append, List.foldl_append]

theorem waiting_rls (ev : List Event) (b : Bool) (f : Frame) :
    waiting (ev ++ if b then [.rls f] else []) = waiting ev := by
  rw [waiting_append]
  cases b <;> rfl

theorem waiting_cons_rls (ev : List Event) (e : Event) (b : Bool) (f : Frame) :
    waiting (ev ++ e :: if b then [.rls f] else []) = waiting (ev ++ [e]) := by
  rw [show ev ++ e :: (if b then [Event.rls f] else []) = (ev ++ [e]) ++ if b then [Event.rls f] else [] by
    simp, waiting_rls]

theorem fieldsOf_done (hd : d ∉ rest) :
    (fieldsOf img (d :: rest)).filter (fun p => p.1 ≠ d) = fieldsOf img rest := by
  unfold fieldsOf
  rw [List.map_cons, List.filter_cons_of_neg (by simp), List.filter_eq_self]
  intro p hp
  obtain ⟨k, hk, rfl⟩ := List.mem_map.mp hp
  exact decide_eq_true (fun heq => hd (heq ▸ hk))

theorem fieldsOf_congr {img' : Nat → Frame} (h : ∀ k ∈ after, (img' k).field = (img k).field) :
    fieldsOf img' after = fieldsOf img after :=
  List.map_congr_left (fun k hk => by rw [h k hk])

theorem waiting_done {ev : List Event}
    (h : fieldsOf img (d :: rest) = waiting ev) (hd : d ∉ rest) :
    fieldsOf img rest = waiting (ev ++ [.done d]) := by
  rw [waiting_append, ← h, ← fieldsOf_done hd]
  rfl

variable {N : Nat} {ev : List Event}

theorem Inv.head_notMem (h : Inv N s ts es fs (d :: rest) ev) : d ∉ rest := by
  obtain ⟨us, hus⟩ := h.target.suffix
  have hnd := (List.nodup_append.mp h.lists.nodup).2.1
  rw [hus] at hnd
  exact (List.nodup_cons.mp (List.nodup_append.mp hnd).2.1).1

/-- A node goes to the end of the full list. -/
theorem Inv.addFul (h : Inv N s (i :: ts) es fs after ev) :
    ∃ t ev', s.addFulImage i = some (t, ev') ∧ Inv N t ts es (fs ++ [i]) (after ++ [i]) (ev ++ ev') := by
  obtain ⟨t, ht, hlists, himg, htarget, hnumb⟩ := addFulImage_spec h.lists h.target
  refine ⟨t, _, ht, hlists, htarget ▸ h.target.snoc i, hnumb.trans h.numb, ?_⟩
  rw [waiting_append, ← h.waits]
  unfold fieldsOf
  rw [List.map_append]
  refine congrArg (· ++ _) ?_
  exact fieldsOf_congr (fun k _ => by rw [himg, modeImg_field])

theorem Inv.addEmpty (h : Inv N s (i :: ts) es fs after ev) :
    Inv N (s.addEmptyImage i) ts (es ++ [i]) fs after ev :=
  ⟨h.lists.addEmpty, h.target, h.numb, h.waits⟩

theorem Inv.images (h : Inv N s ts es fs after ev) (hlinks : t.links = s.links)
    (htarget : t.target_1 = s.target_1) (hnumb : t.numb = s.numb)
    (himg : ∀ k ∈ after, (t.img k).field = (s.img k).field) : Inv N t ts es fs after ev :=
  ⟨h.lists.congr hlinks hnumb, htarget ▸ h.target, hnumb.trans h.numb, (fieldsOf_congr himg).trans h.waits⟩

/-- Nodes in a caller's hands are not behind the reference. -/
theorem Inv.notMem_after (h : Inv N s ts es fs after ev) (hi : i ∈ ts) : i ∉ after := by
  obtain ⟨us, hus⟩ := h.target.suffix
  intro hmem
  refine (List.nodup_append.mp h.lists.nodup).2.2 i (List.mem_append_left _ hi) i ?_ rfl
  rw [hus]
  exact List.mem_append_right _ hmem

theorem Inv.setImg (h : Inv N s ts es fs after ev) (hi : i ∈ ts) (f : Frame) :
    Inv N { s with img := Function.update s.img i f } ts es fs after ev := by
  refine h.images rfl rfl rfl (fun k hk => ?_)
  have hne : k ≠ i := fun heq => h.notMem_after hi (heq ▸ hk)
  dsimp only
  rw [Function.update_of_ne hne]

theorem Inv.getEmpty (h : Inv N s ts (i :: es) fs after ev) :
    ∃ t, s.getEmptyImage = (t, some i) ∧ Inv N t (i :: ts) es fs after ev := by
  obtain ⟨heq, hlists⟩ := getEmptyImage_cons h.lists
  rw [heq] at hlists
  have hdel : Inv N { s with links := s.links.delInit (.node i) } (i :: ts) es fs after ev :=
    ⟨hlists.congr rfl rfl, h.target, h.numb, h.waits⟩
  exact ⟨_, heq, hdel.setImg List.mem_cons_self Frame.zero⟩

end HiSTB.Vpss
