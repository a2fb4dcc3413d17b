import HiSTB.Vpss.Correctness.Lists

/-!
# `Vpss.Correctness.Order` — the order of the fields is corrected

* `Lists.orderRound` — one round exchanges two neighbours of the full list;
* `orderLoop_swaps` — the loop exchanges the fields of each pair;
* `correctListOrder_swaps` — with the presentation times, and where `pstTarget_1` stands then.
-/

namespace HiSTB.Vpss

open Lib ListHead

/-- The nodes of field pairs. -/
def flat (pairs : List (Nat × Nat)) : List Nat := pairs.flatMap (fun p => [p.1, p.2])

/-- The first of some nodes, or the head of the full list. -/
def firstOf (fs : List Nat) : Ptr := (fs.map Ptr.node).head?.getD .fulHead

/-- The last of some nodes, or the head of the full list. -/
def lastOf (fs : List Nat) : Ptr := (fs.map Ptr.node).getLast?.getD .fulHead

/-- **What becomes of the fields and the reference**: the fields of a pair exchange their presentation times,
    which keeps the times where they are in the list. The pair of the reference keeps its times with its
    fields, and its second field becomes the reference. -/
structure Corrected (s t : ImgInfo) (pairs : List (Nat × Nat)) : Prop where
  exchanged : ∀ p ∈ pairs, s.target_1 ≠ .node p.1 →
    t.img p.1 = { s.img p.1 with pts := (s.img p.2).pts } ∧ t.img p.2 = { s.img p.2 with pts := (s.img p.1).pts }
  kept : ∀ p ∈ pairs, s.target_1 = .node p.1 →
    t.img p.1 = s.img p.1 ∧ t.img p.2 = s.img p.2 ∧ t.target_1 = .node p.2
  others : ∀ k, k ∉ flat pairs → t.img k = s.img k
  target : (∀ p ∈ pairs, s.target_1 ≠ .node p.1) → t.target_1 = s.target_1

variable {s t : ImgInfo} {ts es us vs : List Nat} {i j : Nat} {pairs : List (Nat × Nat)}

/-! ## One round -/

theorem firstOf_ne (hi : i ∉ vs) : Ptr.node i ≠ firstOf vs := by
  unfold firstOf
  intro heq
  cases hh : (vs.map Ptr.node).head? with
  | none =>
    rw [hh] at heq
    cases heq
  | some x =>
    rw [hh, Option.getD_some] at heq
    exact hi (node_mem_map.mp (heq ▸ List.mem_of_mem_head? hh))

theorem lastOf_ne (hi : i ∉ us) : Ptr.node i ≠ lastOf us := by
  unfold lastOf
  intro heq
  cases hh : (us.map Ptr.node).getLast? with
  | none =>
    rw [hh] at heq
    cases heq
  | some x =>
    rw [hh, Option.getD_some] at heq
    exact hi (node_mem_map.mp (heq ▸ List.mem_of_mem_getLast? hh))

/-- A node goes between two neighbours of the full list. -/
theorem Lists.addBetween (h : Lists s (i :: ts) es (us ++ vs)) :
    Lists { s with links := s.links.add (.node i) (lastOf us) (firstOf vs) } ts es (us ++ i :: vs) := by
  have hnd := h.nodup
  rw [List.append_assoc, List.cons_append, List.nodup_cons] at hnd
  have hes : i ∉ es := fun hmem => hnd.1 (List.mem_append_right _ (List.mem_append_left _ hmem))
  have hfs : i ∉ us ++ vs := fun hmem => hnd.1 (List.mem_append_right _ (List.mem_append_right _ hmem))
  have hful := h.ful
  rw [List.map_append] at hful
  refine ⟨?_, ?_, ?_⟩
  · refine h.empty.add_other (node_notMem (by simp) hes) ?_
    rw [← List.map_append]
    exact rings_disjoint (by simp) (by simp) (by simp) (fun k hk hk' => h.disjoint k hk' hk)
  · rw [List.map_append, List.map_cons]
    refine hful.add ?_
    rw [← List.map_append]
    exact node_notMem (by simp) hfs
  · refine List.Perm.trans ?_ h.perm
    rw [← List.append_assoc, List.cons_append, List.cons_append, ← List.append_assoc]
    exact List.perm_middle

/-- The assignments put first `n` and then `pos` behind it. -/
theorem relink_eq (l : Links Ptr) {pos n pPre pNext : Ptr} (hne : pos ≠ n) (hp : pos ≠ pPre) (hn : n ≠ pPre)
    (hp' : pos ≠ pNext) : ImgInfo.relink l pos n pPre pNext = (l.add n pPre pNext).add pos n pNext := by
  unfold ImgInfo.relink Links.add
  congr 1
  · funext x
    simp only [Function.update_apply]
    grind
  · funext x
    simp only [Function.update_apply]
    grind

/-- What a round does to everything but the links. -/
theorem orderRound_frame (s : ImgInfo) (i j : Nat) :
    (s.orderRound i j).numb = s.numb ∧
    (s.orderRound i j).links = ImgInfo.relink ((s.links.delInit (.node i)).delInit (.node j)) (.node i) (.node j)
      (s.links.prev (.node i)) (s.links.next (.node j)) ∧
    (s.orderRound i j).img = (if s.target_1 = .node i then s else s.exchangePts i j).img ∧
    (s.orderRound i j).target_1 = if s.target_1 = .node i then s.links.next (.node i) else s.target_1 := by
  unfold ImgInfo.orderRound
  by_cases ht : s.target_1 = .node i
  · simp [ht]
  · have ht' : (s.exchangePts i j).target_1 ≠ .node i := ht
    simp only [ne_eq, ht, ht', not_false_eq_true, if_true, if_false]
    exact ⟨rfl, rfl, trivial, rfl⟩

/-- **Two neighbours of the full list change places**, and the loop goes on at what follows them. -/
theorem Lists.orderRound (h : Lists s ts es (us ++ i :: j :: vs)) :
    Lists (s.orderRound i j) ts es (us ++ j :: i :: vs) ∧
      (s.orderRound i j).links.next (.node i) = firstOf vs := by
  have hnd := (List.nodup_append.mp h.nodup).2.1
  rw [List.perm_middle.nodup_iff, List.nodup_cons, List.perm_middle.nodup_iff, List.nodup_cons] at hnd
  obtain ⟨hi, hj, -⟩ := hnd
  simp only [List.mem_append, List.mem_cons, not_or] at hi hj
  obtain ⟨hius, hij, hivs⟩ := hi
  obtain ⟨hjus, hjvs⟩ := hj
  have hful := h.ful
  rw [List.map_append, List.map_cons, List.map_cons] at hful
  have hprev : s.links.prev (.node i) = lastOf us := hful.prev_node
  have hnext : s.links.next (.node j) = firstOf vs := by
    rw [List.append_cons] at hful
    exact hful.next_node
  obtain ⟨hnumb, hlinks, -, -⟩ := orderRound_frame s i j
  rw [hprev, hnext, relink_eq _ (by simpa using hij) (lastOf_ne hius) (lastOf_ne hjus) (firstOf_ne hivs)]
    at hlinks
  have hround : Lists (s.orderRound i j) ts es (us ++ j :: i :: vs) := by
    have hadd := h.delFul.delFul.addBetween
    rw [List.append_cons] at hadd
    have hlast : lastOf (us ++ [j]) = .node j := by simp [lastOf]
    have hadd' := hadd.addBetween
    rw [hlast, ← List.append_cons] at hadd'
    exact hadd'.congr hlinks hnumb
  refine ⟨hround, ?_⟩
  have hful' := hround.ful
  rw [List.append_cons, List.map_append, List.map_cons] at hful'
  exact hful'.next_node

/-! ## The loop -/

theorem flat_cons (i j : Nat) (pairs : List (Nat × Nat)) : flat ((i, j) :: pairs) = i :: j :: flat pairs := rfl

theorem mem_flat {p : Nat × Nat} (hp : p ∈ pairs) : p.1 ∈ flat pairs ∧ p.2 ∈ flat pairs := by
  constructor <;> exact List.mem_flatMap.mpr ⟨p, hp, by simp⟩

/-- The images of other nodes are not touched by a round. -/
theorem orderRound_img_of_ne {k : Nat} (hi : k ≠ i) (hj : k ≠ j) : (s.orderRound i j).img k = s.img k := by
  rw [(orderRound_frame s i j).2.2.1]
  split
  · rfl
  · show Function.update (Function.update s.img i _) j _ k = s.img k
    rw [Function.update_of_ne hj, Function.update_of_ne hi]

/-- A round before the others. -/
theorem Corrected.cons (h : Corrected (s.orderRound i j) t pairs) (hnext : s.links.next (.node i) = .node j)
    (hij : i ≠ j) (hi : i ∉ flat pairs) (hj : j ∉ flat pairs) : Corrected s t ((i, j) :: pairs) := by
  obtain ⟨-, -, himg, htarget⟩ := orderRound_frame s i j
  have hne : ∀ k ∈ flat pairs, k ≠ i ∧ k ≠ j := by
    intro k hk
    exact ⟨fun heq => hi (heq ▸ hk), fun heq => hj (heq ▸ hk)⟩
  have hsame : ∀ k ∈ flat pairs, (s.orderRound i j).img k = s.img k :=
    fun k hk => orderRound_img_of_ne (hne k hk).1 (hne k hk).2
  -- the reference is at another pair after the round if and only if it was there before
  have hother : ∀ p ∈ pairs, ((s.orderRound i j).target_1 = .node p.1 ↔ s.target_1 = .node p.1) := by
    intro p hp
    obtain ⟨hpi, hpj⟩ := hne p.1 (mem_flat hp).1
    rw [htarget]
    by_cases ht : s.target_1 = .node i
    · rw [if_pos ht, hnext, ht, Ptr.node.injEq, Ptr.node.injEq]
      exact iff_of_false hpj.symm hpi.symm
    · rw [if_neg ht]
  refine ⟨?_, ?_, ?_, ?_⟩
  · intro p hp ht
    rcases List.mem_cons.mp hp with rfl | hp
    · rw [h.others i hi, h.others j hj, himg, if_neg ht]
      constructor
      · show Function.update (Function.update s.img i _) j _ i = _
        rw [Function.update_of_ne hij, Function.update_self]
      · exact Function.update_self _ _ _
    · have hp' := h.exchanged p hp (fun heq => ht ((hother p hp).mp heq))
      rw [hsame p.1 (mem_flat hp).1, hsame p.2 (mem_flat hp).2] at hp'
      exact hp'
  · intro p hp ht
    rcases List.mem_cons.mp hp with rfl | hp
    · have hnot : ∀ q ∈ pairs, (s.orderRound i j).target_1 ≠ .node q.1 := by
        intro q hq heq
        rw [(hother q hq).mp heq, Ptr.node.injEq] at ht
        exact (hne q.1 (mem_flat hq).1).1 ht
      rw [h.others i hi, h.others j hj, himg, if_pos ht, h.target hnot, htarget, if_pos ht]
      exact ⟨rfl, rfl, hnext⟩
    · have hp' := h.kept p hp ((hother p hp).mpr ht)
      rw [hsame p.1 (mem_flat hp).1, hsame p.2 (mem_flat hp).2] at hp'
      exact hp'
  · intro k hk
    rw [flat_cons, List.mem_cons, List.mem_cons, not_or, not_or] at hk
    rw [h.others k hk.2.2, orderRound_img_of_ne hk.1 hk.2.1]
  · intro hnot
    have hnoti : s.target_1 ≠ .node i := hnot (i, j) List.mem_cons_self
    rw [h.target (fun p hp heq => hnot p (List.mem_cons_of_mem _ hp) ((hother p hp).mp heq)), htarget,
      if_neg hnoti]

/-- **The loop**, with what it has done already in front. -/
theorem orderLoop_swaps {fuel : Nat} (h : Lists s ts es (us ++ flat pairs)) (hfuel : pairs.length < fuel) :
    ∃ t, s.orderLoop fuel (firstOf (flat pairs)) = some t ∧
      Lists t ts es (us ++ flat (pairs.map Prod.swap)) ∧ Corrected s t pairs := by
  induction pairs generalizing s us fuel with
  | nil =>
    obtain ⟨fuel, rfl⟩ : ∃ n, fuel = n + 1 := Nat.exists_eq_add_one.mpr hfuel
    refine ⟨s, rfl, h, ⟨?_, ?_, fun _ _ => rfl, fun _ => rfl⟩⟩
    · exact fun p hp => absurd hp List.not_mem_nil
    · exact fun p hp => absurd hp List.not_mem_nil
  | cons p pairs ih =>
    obtain ⟨i, j⟩ := p
    obtain ⟨fuel, rfl⟩ : ∃ n, fuel = n + 1 := Nat.exists_eq_add_one.mpr (Nat.lt_of_le_of_lt (Nat.zero_le _) hfuel)
    rw [flat_cons] at h
    have hnd := (List.nodup_append.mp (List.nodup_append.mp h.nodup).2.1).2.1
    rw [List.nodup_cons, List.nodup_cons, List.mem_cons, not_or] at hnd
    obtain ⟨⟨hij, hi⟩, hj, -⟩ := hnd
    have hful := h.ful
    rw [List.map_append, List.map_cons] at hful
    have hnext : s.links.next (.node i) = .node j := hful.next_node
    obtain ⟨hround, hpos⟩ := h.orderRound
    rw [List.append_cons, List.append_cons] at hround
    obtain ⟨t, hloop, hlists, hcorr⟩ := ih hround (Nat.lt_of_succ_lt_succ hfuel)
    refine ⟨t, ?_, ?_, hcorr.cons hnext hij hi hj⟩
    · show s.orderLoop (fuel + 1) (.node i) = some t
      simp only [ImgInfo.orderLoop, hnext, hpos]
      exact hloop
    · rw [← List.append_cons, ← List.append_cons] at hlists
      exact hlists

/-! ## The call -/

/-- The field after the reference, which is to come first, is not of the other mode. -/
def OrderOk (s : ImgInfo) (topFirst : Bool) : Prop :=
  ∃ i, s.links.next s.target_1 = .node i ∧ (s.img i).fieldMode ≠ (if topFirst then .bottom else .top)

/-- **`VPSS_IMG_CorrectListOrder` exchanges the fields of every pair**, in a list that stays linked in both
    directions: the presentation times stay where they were except in the reference's pair, and if the
    reference was the first field of a pair, it is the second field then, with the former one behind it. -/
theorem correctListOrder_swaps (topFirst : Bool) (h : Lists s ts es (flat pairs))
    (hok : OrderOk s topFirst) : ∃ t, s.correctListOrder topFirst = some (t, true) ∧
      Lists t ts es (flat (pairs.map Prod.swap)) ∧ Corrected s t pairs ∧
      ∀ p ∈ pairs, s.target_1 = .node p.1 → t.links.next t.target_1 = s.target_1 := by
  obtain ⟨i, hnext, hmode⟩ := hok
  have hlen : pairs.length < s.numb + 1 := by
    have hle := h.length_le
    have htwo : (flat pairs).length = 2 * pairs.length := by
      clear h hle
      induction pairs with
      | nil => rfl
      | cons p pairs ih =>
          show (flat pairs).length + 2 = 2 * (pairs.length + 1)
          omega
    omega
  have hstart : Lists s ts es ([] ++ flat pairs) := h
  obtain ⟨t, hloop, hlists, hcorr⟩ := orderLoop_swaps hstart hlen
  rw [List.nil_append] at hlists
  have hhead : s.links.next .fulHead = firstOf (flat pairs) := h.ful.next_head
  refine ⟨t, ?_, hlists, hcorr, ?_⟩
  · simp only [ImgInfo.correctListOrder, hnext, if_neg hmode, hhead, hloop]
    rfl
  · intro p hp ht
    obtain ⟨us, vs, rfl⟩ := List.append_of_mem hp
    have hful := hlists.ful
    rw [(hcorr.kept p hp ht).2.2, ht]
    have hsplit : flat ((us ++ p :: vs).map Prod.swap) =
        flat (us.map Prod.swap) ++ p.2 :: p.1 :: flat (vs.map Prod.swap) := by
      simp [flat]
    rw [hsplit, List.map_append, List.map_cons] at hful
    exact hful.next_node

/-- Two frames with the bottom field first, the first field processed. -/
def bottomFirst : ImgInfo where
  numb := 4
  links :=
    { next := fun
        | .fulHead => .node 0
        | .emptyHead => .emptyHead
        | .node i => if i < 3 then .node (i + 1) else .fulHead
      prev := fun
        | .fulHead => .node 3
        | .emptyHead => .emptyHead
        | .node i => if i = 0 then .fulHead else .node (i - 1) }
  img := fun i =>
    { Frame.zero with
      fieldMode := if i % 2 = 0 then .bottom else .top
      frameIndex := BitVec.ofNat 32 (i / 2)
      pts := BitVec.ofNat 32 (20 * i) }
  target_1 := .node 0
  relUsrTotal := 0
  relUsrSuccess := 0

/-- Two pairs that are the wrong way round are swapped, with their time stamps. -/
theorem correctListOrder_swaps_bottomFirst : ∃ t, bottomFirst.correctListOrder true = some (t, true) ∧
    Lists t [] [] [1, 0, 3, 2] ∧ (t.img 3).pts = 40 ∧ t.target_1 = .node 1 ∧ t.links.next t.target_1 = .node 0 := by
  have hlists : Lists bottomFirst [] [] (flat [(0, 1), (2, 3)]) := by
    refine ⟨⟨?_, by decide⟩, ⟨?_, by decide⟩, by decide⟩
    · simp [bottomFirst, Linked]
    · simp [bottomFirst, Linked, flat]
  have hok : OrderOk bottomFirst true := ⟨1, rfl, by decide⟩
  obtain ⟨t, hcall, hl, hcorr, hbehind⟩ := correctListOrder_swaps true hlists hok
  have hkept := hcorr.kept (0, 1) (by simp) rfl
  refine ⟨t, hcall, hl, ?_, hkept.2.2, hbehind (0, 1) (by simp) rfl⟩
  rw [(hcorr.exchanged (2, 3) (by simp) (by decide)).2]
  rfl

end HiSTB.Vpss
